import NodeFactory.Proofs.WordRuns

/-!
# The text of a constant expression

An expression over names is written with the parentheses that precedence and grouping to the left require,
or with more (`Written`). Reading such words comes to the same as going on with the expression where they
end (`Written.arrives`), since what follows binds no tighter than the expression may. So the members of an
enum that are given by such expressions are read as they were written (`parse_enum`).
-/

namespace NodeFactory

open Parse

def UnaryOp.word : UnaryOp → Word
  | plus => .sign .plus
  | neg => .sign .minus
  | bitNot => .sign .tilde

/-- The words of an operator; those of a shift stand together. -/
def BinaryOp.words : BinaryOp → List Word
  | bitOr => [.sign .bar]
  | bitXor => [.sign .caret]
  | bitAnd => [.sign .ampersand]
  | shiftLeft => [.sign .less, .sign .less]
  | shiftRight => [.sign .greater, .sign .greater]
  | shiftRightUnsigned => [.sign .greater, .sign .greater, .sign .greater]
  | add => [.sign .plus]
  | sub => [.sign .minus]
  | mul => [.sign .star]
  | div => [.sign .slash]
  | rem => [.sign .percent]

/-- The words in parentheses, if they are wanted. -/
def Word.enclosedIf (wanted : Bool) (words : List Word) : List Word :=
  if wanted then sign .openParen :: (words ++ [sign .closeParen]) else words

namespace ConstExpr

/-- A level that only expressions without a binary operator outside parentheses reach. -/
def operandLevel : Nat := 7

/-- The words of an expression whose operators bind at least as tightly as a level. There are parentheses
around every operation, or only around those that need them. Numbers and strings are not written. -/
def words (all : Bool) : Nat → ConstExpr → List Word
  | _, number _ | _, string _ => []
  | _, name entity => Word.ofEntityName entity
  | _, unary op operand => Word.enclosedIf all (op.word :: operand.words all operandLevel)
  | least, binary op left right => Word.enclosedIf (all || op.precedence < least)
    (left.words all op.precedence ++ (op.words ++ right.words all (op.precedence + 1)))

/-- All leaves are names, whose parts are identifiers or keywords. -/
def IsOverNames : ConstExpr → Prop
  | number _ | string _ => False
  | name entity => ∀ part ∈ entity.parts, Word.IsName part.name
  | unary _ operand => operand.IsOverNames
  | binary _ left right => left.IsOverNames ∧ right.IsOverNames

def decideIsOverNames : (expr : ConstExpr) → Decidable expr.IsOverNames
  | number _ | string _ => isFalse id
  | name entity => inferInstanceAs (Decidable (∀ part ∈ entity.parts, Word.IsName part.name))
  | unary _ operand => decideIsOverNames operand
  | binary _ left right =>
    let _ := decideIsOverNames left
    let _ := decideIsOverNames right
    inferInstanceAs (Decidable (left.IsOverNames ∧ right.IsOverNames))

instance : DecidablePred IsOverNames := decideIsOverNames

/-- The words stand for the expression where its operators bind at least as tightly as a level. -/
inductive Written : Nat → ConstExpr → List Word → Prop
  | name {least : Nat} (entity : EntityName) : Written least (name entity) (Word.ofEntityName entity)
  | unary {least : Nat} {operand : ConstExpr} {words : List Word} (op : UnaryOp) :
      Written operandLevel operand words → Written least (unary op operand) (op.word :: words)
  | binary {least : Nat} {op : BinaryOp} {left right : ConstExpr} {words words' : List Word} :
      least ≤ op.precedence → Written op.precedence left words →
        Written (op.precedence + 1) right words' →
          Written least (binary op left right) (words ++ (op.words ++ words'))
  | enclosed {least : Nat} {inner : ConstExpr} {words : List Word} : Written 1 inner words →
      Written least inner (.sign .openParen :: (words ++ [.sign .closeParen]))

section Writing

variable {least least' : Nat} {expr : ConstExpr} {words : List Word}

theorem precedence_pos (op : BinaryOp) : 0 < op.precedence := by cases op <;> decide

theorem precedence_lt (op : BinaryOp) : op.precedence < operandLevel := by cases op <;> decide

theorem Written.enclosedIf {wanted : Bool} (h : Written 1 expr words)
    (hleast : wanted = false → Written least expr words) :
    Written least expr (Word.enclosedIf wanted words) := by
  cases wanted with
  | true => exact .enclosed h
  | false => exact hleast rfl

/-- Both ways to set parentheses set all that are needed. -/
theorem written_words (all : Bool) (h : expr.IsOverNames) (least : Nat) :
    Written least expr (expr.words all least) := by
  induction expr generalizing least with
  | number _ | string _ => exact h.elim
  | name entity => exact .name entity
  | unary op operand ih => exact .enclosedIf (.unary op (ih h _)) fun _ => .unary op (ih h _)
  | binary op left right ih ih' =>
    refine .enclosedIf (.binary (precedence_pos op) (ih h.1 _) (ih' h.2 _)) fun hwanted => ?_
    have hleast : ¬ op.precedence < least := by
      rw [Bool.or_eq_false_iff] at hwanted
      exact of_decide_eq_false hwanted.2
    exact .binary (by omega) (ih h.1 _) (ih' h.2 _)

/-- An operand begins with no angle bracket that could belong to the shift before it. -/
theorem Written.starts (h : Written least expr words) :
    ∃ word rest, words = word :: rest ∧ word.kind ≠ .greater := by
  induction h with
  | name entity => exact ⟨_, _, rfl, Word.ofName_ne rfl _⟩
  | unary op => cases op <;> exact ⟨_, _, rfl, by decide⟩
  | binary _ _ _ ih =>
    obtain ⟨word, rest, rfl, hword⟩ := ih
    exact ⟨word, _, rfl, hword⟩
  | enclosed => exact ⟨_, _, rfl, by decide⟩

end Writing

end ConstExpr

namespace Parse

open ConstExpr

/-- One unary operator before an operand. -/
def unaryStep (ops : List UnaryOp) : Parse (List UnaryOp ⊕ List UnaryOp) := do
  match ← kind with
  | .plus => next; return .inl (ops ++ [.plus])
  | .minus => next; return .inl (ops ++ [.neg])
  | .tilde => next; return .inl (ops ++ [.bitNot])
  | _ => return .inr ops

/-- An operand of which some unary operators are read. -/
def operandAfter (ops : List UnaryOp) : Parse ConstExpr := do
  let ops ← repeatFrom unaryStep ops
  let primary ← constPrimary (constExprAbove 0)
  return ops.foldr .unary primary

/-- One binary operator and its right operand. -/
def operatorStep (level : Nat) (left : ConstExpr) : Parse (ConstExpr ⊕ ConstExpr) := do
  match (← cursor).binaryOp? with
  | some (op, length) =>
    if op.precedence ≤ level then return .inr left
    skip length
    return .inl (.binary op left (← constExprAbove op.precedence))
  | none => return .inr left

theorem constExprAbove_eq_operands (level : Nat) :
    constExprAbove level = operandAfter [] >>= repeatFrom (operatorStep level) :=
  constExprAbove_eq level

/-- What may follow an expression whose operators bind at least as tightly as a level. -/
inductive Following (least : Nat) : List Word → Prop
  | ending {word : Word} {words : List Word} :
      word.kind = .closeParen ∨ word.kind = .comma ∨ word.kind = .closeBrace →
        Following least (word :: words)
  | operator {op : BinaryOp} {word : Word} {words : List Word} : op.precedence ≤ least →
      word.kind ≠ .greater → Following least (op.words ++ word :: words)

section Operators

variable {c : Cursor} {word next : Word} {words : List Word} {least : Nat}

theorem gluedKind?_of_joins (hc : c.Stands .joined (word :: next :: words))
    (h : word.joins next = true) : c.gluedKind? 1 = some next.kind := by
  obtain ⟨lexeme, lexemes, hrest, rfl, hwords⟩ := hc.rest
  obtain ⟨lexeme', lexemes', rfl, rfl, -⟩ := List.map_eq_cons_iff.1 hwords
  have hglued : lexeme'.isGlued = true := by
    have hchain := hc.layout
    rw [hrest] at hchain
    exact (List.isChain_cons_cons.1 hchain).1 h
  unfold Cursor.gluedKind? Cursor.peek?
  rw [hrest]
  show (if lexeme'.isGlued then some lexeme'.kind else none) = _
  rw [if_pos hglued]
  rfl

theorem gluedKind?_next (c : Cursor) (n : Nat) : c.next.gluedKind? n = c.gluedKind? (n + 1) := by
  unfold Cursor.gluedKind? Cursor.peek?
  rw [c.rest_next, List.getElem?_tail]

theorem gluedKind?_ne {kind : TokenKind} {n : Nat} (h : c.kindAt n ≠ kind) :
    c.gluedKind? n ≠ some kind := by
  rintro hglued
  obtain ⟨lexeme, hpeek, hlexeme⟩ := Option.bind_eq_some_iff.1 hglued
  refine h ?_
  rw [Cursor.kindAt, hpeek]
  split at hlexeme
  · exact Option.some.inj hlexeme
  · cases hlexeme

/-- An operator is recognized by its words, if no angle bracket comes after them. -/
theorem binaryOp?_of_words {op : BinaryOp} (hc : c.Stands .joined (op.words ++ word :: words))
    (hgreater : word.kind ≠ .greater) :
    c.binaryOp? = some (op, op.words.length) := by
  unfold Cursor.binaryOp?
  cases op with
  | shiftLeft =>
    have hkind : c.kind = .less := hc.kind
    rw [hkind]
    exact if_pos (gluedKind?_of_joins hc rfl)
  | shiftRight =>
    have hkind : c.kind = .greater := hc.kind
    have hend : c.gluedKind? 2 ≠ some .greater := by
      refine gluedKind?_ne ?_
      rw [hc.kindAt]
      exact hgreater
    rw [hkind]
    exact (if_pos (gluedKind?_of_joins hc rfl)).trans (if_neg hend)
  | shiftRightUnsigned =>
    have hkind : c.kind = .greater := hc.kind
    have hthird : c.gluedKind? 2 = some .greater := by
      rw [← gluedKind?_next]
      exact gluedKind?_of_joins hc.next rfl
    rw [hkind]
    exact (if_pos (gluedKind?_of_joins hc rfl)).trans (if_pos hthird)
  | bitOr | bitXor | bitAnd | add | sub | mul | div | rem =>
    have hkind := hc.kind
    rw [hkind]
    rfl

theorem Following.mono {least' : Nat} (h : Following least words) (hle : least ≤ least') :
    Following least' words := by
  cases h with
  | ending h => exact .ending h
  | operator h => exact .operator (Nat.le_trans h hle) ‹_›

theorem Following.ne_dot (h : Following least words) : ∀ word ∈ words.head?, word.kind ≠ .dot := by
  rintro word hword hdot
  cases h with
  | ending h =>
    obtain rfl := Option.some.inj hword
    rcases h with h | h | h <;> cases hdot.symm.trans h
  | @operator op =>
    cases op <;>
      · obtain rfl := Option.some.inj hword
        cases hdot

/-- The operators that follow bind no tighter than the level, so nothing is taken. -/
theorem operators_end {level : Nat} {left : ConstExpr} (hc : c.Stands .joined words)
    (h : Following least words) (hle : least ≤ level) :
    repeatFrom (operatorStep level) left c = .ok left c := by
  refine repeatFrom_of_inr ?_
  unfold operatorStep
  rw [bind_of_ok (rfl : cursor c = .ok c c)]
  cases h with
  | ending h =>
    have hnone : c.binaryOp? = none := by
      unfold Cursor.binaryOp?
      rw [hc.kind]
      rcases h with h | h | h <;> rw [h]
    rw [hnone]
    rfl
  | operator hop hgreater =>
    rw [binaryOp?_of_words hc hgreater]
    exact congrFun (if_pos (Nat.le_trans hop hle)) c

end Operators

section Reading

variable {least : Nat} {expr : ConstExpr} {words after : List Word}

/-- Reading the words at a level comes to going on with the expression at their end. -/
def Arrives (least : Nat) (expr : ConstExpr) (words : List Word) : Prop :=
  ∀ ⦃level : Nat⦄ ⦃after : List Word⦄ ⦃c : Cursor⦄, level < least → Following least after →
    c.Stands .joined (words ++ after) → ∃ value d,
      constExprAbove level c = repeatFrom (operatorStep level) value d
        ∧ Resembles value expr ∧ d.Stands .joined after ∧ d.errors = c.errors

/-- The words are an operand of the unary operators before them. -/
def IsOperand (expr : ConstExpr) (words : List Word) : Prop :=
  ∀ ⦃ops : List UnaryOp⦄ ⦃least : Nat⦄ ⦃after : List Word⦄ ⦃c : Cursor⦄, Following least after →
    c.Stands .joined (words ++ after) → Obtains .joined (operandAfter ops) c after fun value =>
      ∃ operand, Resembles operand expr ∧ value = ops.foldr .unary operand

theorem IsOperand.arrives (h : IsOperand expr words) : Arrives least expr words := by
  intro level after c _ hafter hc
  obtain ⟨value, d, hrun, ⟨_, hvalue, rfl⟩, hd, herrors⟩ := @h [] _ _ _ hafter hc
  refine ⟨value, d, ?_, hvalue, hd, herrors⟩
  rw [constExprAbove_eq_operands, bind_of_ok hrun]

/-- Where the operators that follow bind no tighter than the level, the expression is all that is read. -/
theorem Arrives.gives (h : Arrives least expr words) {level : Nat} {c : Cursor} (hlevel : level < least)
    {bound : Nat} (hafter : Following bound after) (hbound : bound ≤ level)
    (hc : c.Stands .joined (words ++ after)) :
    Obtains .joined (constExprAbove level) c after (Resembles · expr) := by
  have hafter' : Following least after := hafter.mono (by omega)
  obtain ⟨value, d, hrun, hvalue, hd, herrors⟩ := h hlevel hafter' hc
  exact ⟨value, d, hrun.trans (operators_end hd hafter hbound), hvalue, hd, herrors⟩

theorem unaryStep_of_name {ops : List UnaryOp} {c : Cursor} (h : c.kind.isName = true) :
    unaryStep ops c = .ok (.inr ops) c := by
  show (match c.kind with
    | .plus => _ | .minus => _ | .tilde => _ | _ => _ : Parse _) c = _
  cases hkind : c.kind with
  | identifier | keyword word => rfl
  | _ => rw [hkind] at h; cases h

theorem isOperand_name (entity : EntityName) :
    IsOperand (.name entity) (Word.ofEntityName entity) := by
  intro ops least after c hafter hc
  have hname : c.kind.isName = true := by
    rw [hc.kind]
    exact Word.isName_ofName _
  have hprimary : Obtains .joined (constPrimary (constExprAbove 0)) c after
      (Resembles · (.name entity)) := by
    have hentity : Obtains .joined (ConstExpr.name <$> entityName) c after
        (Resembles · (.name entity)) := by
      refine (obtains_entityName hc hafter.ne_dot).map fun value hvalue => ?_
      unfold Resembles Same at *
      rw [relocate_nameConst, relocate_nameConst, hvalue]
    unfold constPrimary
    refine .ofKind ?_
    cases hkind : c.kind with
    | identifier | keyword word => exact hentity
    | _ => rw [hkind] at hname; cases hname
  obtain ⟨value, d, hrun, hvalue, hd, herrors⟩ := hprimary
  refine ⟨_, d, ?_, ⟨value, hvalue, rfl⟩, hd, herrors⟩
  unfold operandAfter
  rw [bind_of_ok (repeatFrom_of_inr (unaryStep_of_name hname)), bind_of_ok hrun]
  rfl

theorem IsOperand.unary {operand : ConstExpr} (h : IsOperand operand words) (op : UnaryOp) :
    IsOperand (.unary op operand) (op.word :: words) := by
  intro ops least after c hafter hc
  have hstep : unaryStep ops c = .ok (.inl (ops ++ [op])) c.next := by
    have hkind := hc.kind
    unfold unaryStep
    show (match c.kind with
      | .plus => _ | .minus => _ | .tilde => _ | _ => _ : Parse _) c = _
    cases op <;> rw [hkind] <;> rfl
  have hsize : c.next.size < c.size := by
    rw [hc.next.size, hc.size]
    exact Nat.lt_succ_self _
  obtain ⟨_, d, hrun, ⟨value, hvalue, rfl⟩, hd, herrors⟩ := @h (ops ++ [op]) _ _ _ hafter hc.next
  refine ⟨_, d, ?_, ⟨.unary op value, ?_, rfl⟩, hd, herrors.trans c.errors_next⟩
  · unfold operandAfter at hrun ⊢
    obtain ⟨ops', m, hops, hrun⟩ := bind_eq_ok_iff.1 hrun
    rw [bind_of_ok ((repeatFrom_of_inl hstep hsize).trans hops), hrun, List.foldr_append]
    rfl
  · unfold Resembles Same at *
    rw [relocate_unary, relocate_unary, hvalue]

theorem Arrives.enclosed (h : Arrives 1 expr words) :
    IsOperand expr (.sign .openParen :: (words ++ [.sign .closeParen])) := by
  intro ops least after c hafter hc
  have hprimary : Obtains .joined (constPrimary (constExprAbove 0)) c after (Resembles · expr) := by
    have hkind : c.kind = .openParen := hc.kind
    unfold constPrimary
    refine .ofKind ?_
    rw [hkind]
    rw [List.cons_append, List.append_assoc] at hc
    refine .next hc fun d hd => ?_
    have hclose : Following 0 (.sign .closeParen :: after) := .ending (.inl rfl)
    refine (h.gives Nat.zero_lt_one hclose (Nat.le_refl 0) hd).bind fun value d hvalue hd => ?_
    exact .expect hd rfl fun d hd => .pure hd hvalue
  have hstep : unaryStep ops c = .ok (.inr ops) c := by
    have hkind : c.kind = .openParen := hc.kind
    unfold unaryStep
    show (match c.kind with
      | .plus => _ | .minus => _ | .tilde => _ | _ => _ : Parse _) c = _
    rw [hkind]
    rfl
  obtain ⟨value, d, hrun, hvalue, hd, herrors⟩ := hprimary
  refine ⟨_, d, ?_, ⟨value, hvalue, rfl⟩, hd, herrors⟩
  unfold operandAfter
  rw [bind_of_ok (repeatFrom_of_inr hstep), bind_of_ok hrun]
  rfl

/-- The left operand is read first; what goes on at its end takes the operator, and the right operand up
to operators that bind no tighter. -/
theorem Arrives.binary {op : BinaryOp} {left right : ConstExpr} {words' : List Word}
    (hleast : least ≤ op.precedence) (hleft : Arrives op.precedence left words)
    (hright : Arrives (op.precedence + 1) right words')
    (hstarts : ∃ word rest, words' = word :: rest ∧ word.kind ≠ .greater) :
    Arrives least (.binary op left right) (words ++ (op.words ++ words')) := by
  intro level after c hlevel hafter hc
  rw [List.append_assoc, List.append_assoc] at hc
  obtain ⟨word, rest, rfl, hgreater⟩ := hstarts
  have hfollowing : Following op.precedence (op.words ++ (word :: rest ++ after)) :=
    .operator (Nat.le_refl _) hgreater
  obtain ⟨value, d, hrun, hvalue, hd, herrors⟩ :=
    hleft (Nat.lt_of_lt_of_le hlevel hleast) hfollowing hc
  have hop := binaryOp?_of_words hd hgreater
  obtain ⟨value', e, hrun', hvalue', he, herrors'⟩ :=
    hright.gives (Nat.lt_succ_self _) hafter hleast hd.skip
  have hstep : operatorStep level value d = .ok (.inl (.binary op value value')) e := by
    unfold operatorStep
    rw [bind_of_ok (rfl : cursor d = .ok d d), hop]
    dsimp only
    rw [if_neg (by omega)]
    show (constExprAbove op.precedence >>= _ : Parse _) (d.skip op.words.length) = _
    rw [bind_of_ok hrun']
    rfl
  have hsize : e.size < d.size := by
    rw [he.size, hd.size]
    simp only [List.length_append, List.length_cons]
    omega
  refine ⟨.binary op value value', e, ?_, ?_, he, ?_⟩
  · rw [hrun, repeatFrom_of_inl hstep hsize]
  · unfold Resembles Same at *
    rw [relocate_binary, relocate_binary, hvalue, hvalue']
  · rw [herrors', Cursor.errors_skip, herrors]

/-- What the words stand for is read from them. At the level of operands they are one. -/
theorem arrives_of_written (h : Written least expr words) :
    Arrives least expr words ∧ (operandLevel ≤ least → IsOperand expr words) := by
  induction h with
  | name entity => exact ⟨(isOperand_name entity).arrives, fun _ => isOperand_name entity⟩
  | unary op _ ih =>
    have hoperand := (ih.2 (Nat.le_refl _)).unary op
    exact ⟨hoperand.arrives, fun _ => hoperand⟩
  | @binary least op left right _ _ hleast _ hright ih ih' =>
    have hlt := precedence_lt op
    exact ⟨.binary hleast ih.1 ih'.1 hright.starts, fun hle => by omega⟩
  | enclosed _ ih => exact ⟨ih.1.enclosed.arrives, fun _ => ih.1.enclosed⟩

end Reading

end Parse

namespace ConstExpr

/-- The words of a member of an enum that is given by an expression. -/
def memberWords (all : Bool) (member : String × ConstExpr) : List Word :=
  .ofName member.1 :: .sign .assign :: member.2.words all 1

/-- The words of a declaration of an enum. -/
def enumWords (all : Bool) (name : String) (members : List (String × ConstExpr)) : List Word :=
  .sign (.keyword .enumKw) :: .ofName name :: .sign .openBrace
    :: (Word.separated .comma (members.map (memberWords all)) ++ [.sign .closeBrace])

/-- A member that was read is the one that was written. -/
def IsMember (written : String × ConstExpr) (member : EnumMember) : Prop :=
  member.name.name = written.1 ∧ ∃ value, member.value = some value ∧ Resembles value written.2

end ConstExpr

namespace Parse

open ConstExpr

section Enums

variable {all : Bool} {after : List Word} {c : Cursor}

theorem obtains_enumMember {member : String × ConstExpr} {word : Word} (hnames : member.2.IsOverNames)
    (hword : word.kind = .comma ∨ word.kind = .closeBrace)
    (hc : c.Stands .joined (memberWords all member ++ word :: after)) :
    Obtains .joined enumMember c (word :: after) (IsMember member) := by
  have hvalue := (arrives_of_written (written_words all hnames 1)).1
  have hafter : Following 0 (word :: after) := .ending (.inr hword)
  unfold enumMember
  refine .here ((obtains_propertyName hc).bind fun ident d hident hd => ?_)
  refine .eaten hd rfl fun d hd => ?_
  have hsome := (hvalue.gives Nat.zero_lt_one hafter (Nat.le_refl 0) hd).map
    (f := some) (Q := fun result => ∃ value, result = some value ∧ Resembles value member.2)
    fun value hvalue => ⟨value, rfl, hvalue⟩
  refine hsome.bind fun value d hvalue hd => .placed fun span => .pure hd ⟨hident, hvalue⟩

theorem obtains_enumMembers : ∀ {members : List (String × ConstExpr)} {read : List EnumMember} {c : Cursor},
    (∀ member ∈ members, member.2.IsOverNames) →
    c.Stands .joined (Word.separated .comma (members.map (memberWords all)) ++ .sign .closeBrace :: after) →
    Obtains .joined (repeatFrom enumStep read) c after fun result =>
      ∃ more, result = read ++ more ∧ List.Forall₂ IsMember members more
  | [], read, c, _, hc => .last (.eaten hc rfl fun d hd =>
      .pure hd ⟨read, rfl, [], (List.append_nil read).symm, .nil⟩)
  | [member], read, c, hnames, hc => by
    have hnames' := List.forall_mem_singleton.1 hnames
    refine .last (.missed hc ?_ fun d hd => ?_)
    · exact hc.kind ▸ Word.ofName_ne rfl member.1
    refine (obtains_enumMember hnames' (.inr rfl) hd).bind fun result d hresult hd => ?_
    refine .missed hd (hd.kind ▸ by decide) fun d hd => .expect hd rfl fun d hd => ?_
    exact .pure hd ⟨_, rfl, [result], rfl, .cons hresult .nil⟩
  | member :: next :: members, read, c, hnames, hc => by
    obtain ⟨hmember, hmembers⟩ := List.forall_mem_cons.1 hnames
    rw [List.map_cons, List.map_cons, Word.separated, ← List.map_cons, List.append_assoc,
      List.cons_append] at hc
    let between :=
      Word.separated .comma ((next :: members).map (memberWords all)) ++ .sign .closeBrace :: after
    refine .more (fun state => ∃ result, state = read ++ [result] ∧ IsMember member result) between hc
      (by simp only [between, List.length_append, List.length_cons]; omega)
      (.missed hc ?_ fun d hd => ?_) ?_
    · exact hc.kind ▸ Word.ofName_ne rfl member.1
    · refine (obtains_enumMember hmember (.inl rfl) hd).bind fun result d hresult hd => ?_
      exact .eaten hd rfl fun d hd => .pure hd ⟨_, rfl, result, rfl, hresult⟩
    · rintro _ d ⟨result, rfl, hresult⟩ hd
      refine (obtains_enumMembers hmembers hd).imp ?_
      rintro _ ⟨more, rfl, hmore⟩
      exact ⟨result :: more, List.append_assoc _ _ _, .cons hresult hmore⟩

/-- A declaration of an enum that is the one that was written. -/
def IsEnum (name : String) (members : List (String × ConstExpr)) (statement : Statement) : Prop :=
  ∃ place decl, statement = .enumDecl place decl ∧ decl.name.name = name ∧ decl.isConst = false
    ∧ List.Forall₂ IsMember members decl.members

variable {name : String} {members : List (String × ConstExpr)}
  (hnames : ∀ member ∈ members, member.2.IsOverNames)
include hnames

theorem obtains_enumDecl (hc : c.Stands .joined (enumWords all name members ++ after)) :
    Obtains .joined (enumDecl false) c after fun decl => decl.name.name = name ∧ decl.isConst = false
      ∧ List.Forall₂ IsMember members decl.members := by
  rw [enumDecl_eq]
  refine .expect hc rfl fun d hd => ?_
  have hident := obtains_ident ⟨name, ⟨0, 0⟩⟩ hd
  refine hident.bind fun ident d hident hd => .expect hd rfl fun d hd => ?_
  have hd' : d.Stands .joined
      (Word.separated .comma (members.map (memberWords all)) ++ .sign .closeBrace :: after) := by
    simpa using hd
  refine (obtains_enumMembers hnames hd').bind ?_
  rintro _ e ⟨more, rfl, hmore⟩ he
  exact .pure he ⟨congrArg Ident.name hident, rfl, hmore⟩

theorem obtains_enumDeclaration {body : Parse (List Statement)}
    (hc : c.Stands .joined (enumWords all name members ++ after)) :
    Obtains .joined (declaration body false) c after fun make =>
      ∀ place, IsEnum name members (make place) := by
  have hkind : c.kind = .keyword .enumKw := hc.kind
  have hfollowing : (c.kindAt 1).isName = true := by
    rw [hc.kindAt]
    exact Word.isName_ofName name
  unfold declaration
  refine .here ?_
  rw [if_neg (by simp [hfollowing]), hkind]
  exact (obtains_enumDecl hnames hc).bind fun decl d hdecl hd =>
    .pure hd fun place => ⟨place, decl, rfl, hdecl⟩

theorem obtains_enumStatement {body : Parse (List Statement)}
    (hc : c.Stands .joined (enumWords all name members ++ after)) :
    Obtains .joined (statement? body) c after fun result =>
      ∃ statement, result = some statement ∧ IsEnum name members statement := by
  have hkind : c.kind = .keyword .enumKw := hc.kind
  unfold statement?
  refine .here (.missed hc (by rw [hkind]; decide) fun d hd => ?_)
  have hkind' : d.kind = .keyword .enumKw := hd.kind
  have hmodifiers : Obtains .joined modifiers d (enumWords all name members ++ after) (· = false) := by
    refine ⟨false, d, repeatFrom_of_inr ?_, rfl, hd, rfl⟩
    rw [bind_of_ok (rfl : cursor d = .ok d d), hkind']
    rfl
  rw [if_neg Bool.false_ne_true, hkind]
  refine hmodifiers.bind ?_
  rintro _ e rfl he
  refine (obtains_enumDeclaration hnames he).bind fun make f hmake hf => .placed fun span => ?_
  exact .pure hf ⟨_, rfl, hmake _⟩

end Enums

section Texts

theorem sound_of_written {least : Nat} {expr : ConstExpr} {words : List Word}
    (h : Written least expr words) (hnames : expr.IsOverNames) : Word.Sound words := by
  induction h with
  | name entity => exact .entityName hnames
  | unary op _ ih => cases op <;> exact .sign (by decide) (by decide) (ih hnames)
  | @binary _ op _ _ _ _ _ _ _ ih ih' =>
    have hop : Word.Sound op.words := by
      cases op <;> repeat' first | exact .nil | refine .sign (by decide) (by decide) ?_
    exact (ih hnames.1).append (hop.append (ih' hnames.2))
  | enclosed _ ih => exact .group (by decide) rfl (by decide) rfl (ih hnames)

/-- An enum whose members are given by expressions over names is read as it was written, with only the
parentheses that are needed or with all. -/
theorem parse_enum (all : Bool) {name : String} {members : List (String × ConstExpr)}
    (hname : Word.IsName name)
    (hmembers : ∀ member ∈ members, Word.IsName member.1 ∧ member.2.IsOverNames) :
    let schema := Schema.parse (Word.line (enumWords all name members))
    schema.errors = []
      ∧ ∃ statement, schema.statements = [statement] ∧ IsEnum name members statement := by
  have hsound : Word.Sound (enumWords all name members) := by
    refine .sign (by decide) (by decide) (.name hname (.group (by decide) rfl (by decide) rfl ?_))
    refine .separated (by decide) (by decide) fun item hitem => ?_
    obtain ⟨member, hmem, rfl⟩ := List.mem_map.1 hitem
    obtain ⟨hmember, hnames⟩ := hmembers member hmem
    exact .name hmember (.sign (by decide) (by decide)
      (sound_of_written (written_words all hnames 1) hnames))
  obtain ⟨hclean, hline⟩ := Word.lexemesOf_line hsound.whole
  refine parse_of_words .joined hclean hline.words hline.glued (by decide) fun c hc => ?_
  have hc' : c.Stands .joined (enumWords all name members ++ []) := by rwa [List.append_nil]
  exact obtains_enumStatement (fun member hmem => (hmembers member hmem).2) hc'

/-- An expression with operands on either side of operators that bind as tightly, or less. -/
def nestedExpr : ConstExpr :=
  let part (name : String) : ConstExpr := .name ⟨⟨name, ⟨0, 0⟩⟩, [], ⟨0, 0⟩⟩
  let dotted : ConstExpr := .name ⟨⟨"a", ⟨0, 0⟩⟩, [⟨"type", ⟨0, 0⟩⟩], ⟨0, 0⟩⟩
  .binary .shiftRightUnsigned (.binary .sub dotted (.binary .sub (part "b") (.unary .neg (part "c"))))
    (.unary .bitNot (.binary .bitOr (part "d") (.binary .mul (part "e") (part "f"))))

theorem parse_nestedExpr :
    let schema := Schema.parse "enum E { M = a . type - ( b - - c ) >>> ~ ( d | e * f ) }".toList
    schema.errors = []
      ∧ ∃ statement, schema.statements = [statement] ∧ IsEnum "E" [("M", nestedExpr)] statement := by
  have hline : Word.line (enumWords false "E" [("M", nestedExpr)])
      = "enum E { M = a . type - ( b - - c ) >>> ~ ( d | e * f ) }".toList := by decide
  rw [← hline]
  exact parse_enum false (by decide) (by decide)

end Texts

end Parse

end NodeFactory
