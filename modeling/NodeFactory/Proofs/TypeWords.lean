import NodeFactory.Proofs.WordRuns

/-!
# The words of a type

A type is written with no parentheses but those that it has itself, and a literal as the text that its span
stands for (`TypeExpr.words`). Which types can be written so is a matter of levels (`TypeExpr.fits`): what is
joined by an operator must bind tighter than the operator. The first words of a type tell its kind: no
function type seems to begin where another type does (`TypeExpr.not_findsFunction`), and no label of a
tuple element and no narrowed parameter is mistaken (`TypeExpr.unlabeled`).
-/

namespace NodeFactory

open Parse Text

def KeywordType.text : KeywordType → String
  | any => "any"
  | unknown => "unknown"
  | never => "never"
  | void => "void"
  | undefined => "undefined"
  | null => "null"
  | string => "string"
  | number => "number"
  | boolean => "boolean"
  | bigInt => "bigint"
  | symbol => "symbol"
  | object => "object"

theorem KeywordType.ofName?_text (type : KeywordType) : ofName? type.text.toList = some type := by
  cases type <;> rfl

namespace Word

/-- What a literal may be written as. -/
inductive IsLiteral : List Word → Prop
  | token {word : Word} : word.IsWhole →
      word.kind = .string ∨ word.kind = .number ∨ word.kind = .template → IsLiteral [word]
  | negative {word : Word} : word.IsWhole → word.kind = .number → IsLiteral [.sign .minus, word]
  | truth {name : String} : name = "true" ∨ name = "false" → IsLiteral [.ofName name]

/-- Items between angle brackets, which are left out with them. -/
def angled : List (List Word) → List Word
  | [] => []
  | item :: items => sign .less :: (separated .comma (item :: items) ++ [sign .greater])

end Word

/-- What the literals of a type are written as, each told by its span. -/
structure LiteralTexts where
  words : Span → List Word
  isLiteral : ∀ span, Word.IsLiteral (words span)

section Words

variable (literals : LiteralTexts)

mutual

/-- The words of a type that is written over a span. Members and narrowed parameters are not written. -/
def TypeShape.words (span : Span) : TypeShape → List Word
  | .reference name args => Word.ofEntityName name ++ Word.angled (TypeExpr.wordsOfAll args)
  | .union parts => Word.separated .bar (TypeExpr.wordsOfAll parts)
  | .intersection parts => Word.separated .ampersand (TypeExpr.wordsOfAll parts)
  | .array element => element.words ++ [.sign .openBracket, .sign .closeBracket]
  | .indexed object index =>
    object.words ++ .sign .openBracket :: (index.words ++ [.sign .closeBracket])
  | .tuple elements => .sign .openBracket
    :: (Word.separated .comma (TypeExpr.wordsOfAll elements) ++ [.sign .closeBracket])
  | .paren inner => .sign .openParen :: (inner.words ++ [.sign .closeParen])
  | .function isConstructor signature =>
    (if isConstructor then [.sign (.keyword .newKw)] else []) ++ signature.words
  | .literalValue => literals.words span
  | .keyword type => [.ofName type.text]
  | .this => [.sign (.keyword .thisKw)]
  | .query name => .sign (.keyword .typeofKw) :: Word.ofEntityName name
  | .keyof type => .sign (.keyword .keyofKw) :: type.words
  | .literal _ | .predicate _ _ => []

def TypeExpr.words : TypeExpr → List Word
  | ⟨shape, span⟩ => shape.words span

def TypeExpr.wordsOfAll : List TypeExpr → List (List Word)
  | [] => []
  | type :: types => type.words :: TypeExpr.wordsOfAll types

/-- A type that may be missing, with the sign that leads it. -/
def TypeExpr.wordsAfter (sign : TokenKind) : Option TypeExpr → List Word
  | none => []
  | some type => .sign sign :: type.words

/-- A signature with an arrow before what it returns. -/
def Signature.words : Signature → List Word
  | ⟨typeParams, params, returns⟩ => Word.angled (TypeParam.wordsOfAll typeParams)
    ++ .sign .openParen :: (Word.separated .comma (Param.wordsOfAll params)
      ++ .sign .closeParen :: TypeExpr.wordsAfter .fatArrow returns)

def Param.words : Param → List Word
  | ⟨name, rest, optional, type⟩ => (if rest then [.sign .ellipsis] else []) ++ .ofName name.name
    :: ((if optional then [.sign .question] else []) ++ TypeExpr.wordsAfter .colon type)

def Param.wordsOfAll : List Param → List (List Word)
  | [] => []
  | param :: params => param.words :: Param.wordsOfAll params

def TypeParam.words : TypeParam → List Word
  | ⟨name, bound, fallback⟩ => .ofName name.name
    :: (TypeExpr.wordsAfter (.keyword .extendsKw) bound ++ TypeExpr.wordsAfter .assign fallback)

def TypeParam.wordsOfAll : List TypeParam → List (List Word)
  | [] => []
  | param :: params => param.words :: TypeParam.wordsOfAll params

end

end Words

/-- The parts of the name are identifiers or keywords. -/
def EntityName.isSpelled (name : EntityName) : Bool :=
  name.parts.all fun part => decide (Word.IsName part.name)

/-- The name begins with an identifier that is no predefined type and no literal. -/
def EntityName.isReference (name : EntityName) : Bool :=
  name.isSpelled && (Word.ofName name.first.name).kind == .identifier
    && name.first.name != "true" && name.first.name != "false"
    && (KeywordType.ofName? name.first.name.toList).isNone

/-- Whether a name is `const`, `in` or `out`, which say how a type parameter varies if a name follows. -/
def isVarianceName (name : String) : Bool :=
  (Word.ofName name).kind == .keyword .constKw || name == "in" || name == "out"

section Levels

mutual

/-- Whether a type can be written at a level without more parentheses than it has. Any type can at level
0, all but functions at level 1, all but unions at 2 and intersections at 3, and `keyof` at no higher
level. -/
def TypeShape.fits (level : Nat) : TypeShape → Bool
  | .reference name args => name.isReference && TypeExpr.allFit 0 args
  | .union parts => decide (level ≤ 1) && decide (2 ≤ parts.length) && TypeExpr.allFit 2 parts
  | .intersection parts => decide (level ≤ 2) && decide (2 ≤ parts.length) && TypeExpr.allFit 3 parts
  | .array element => element.fits 4
  | .indexed object index => object.fits 4 && index.fits 0
  | .tuple elements => TypeExpr.allFit 0 elements
  | .paren inner => inner.fits 0
  | .function _ signature => decide (level = 0) && signature.fits
  | .literalValue | .keyword _ | .this => true
  | .query name => name.isSpelled
  | .keyof type => decide (level ≤ 3) && type.fits 3
  | .literal _ | .predicate _ _ => false

def TypeExpr.fits (level : Nat) : TypeExpr → Bool
  | ⟨shape, _⟩ => shape.fits level

def TypeExpr.allFit (level : Nat) : List TypeExpr → Bool
  | [] => true
  | type :: types => type.fits level && TypeExpr.allFit level types

def TypeExpr.fitsIfPresent : Option TypeExpr → Bool
  | none => true
  | some type => type.fits 0

def Signature.fits : Signature → Bool
  | ⟨typeParams, params, returns⟩ => TypeParam.allFit typeParams && Param.allFit params
    && returns.isSome && TypeExpr.fitsIfPresent returns

def Param.fits : Param → Bool
  | ⟨name, _, _, type⟩ => decide (Word.IsName name.name) && TypeExpr.fitsIfPresent type

def Param.allFit : List Param → Bool
  | [] => true
  | param :: params => param.fits && Param.allFit params

def TypeParam.fits : TypeParam → Bool
  | ⟨name, bound, fallback⟩ => decide (Word.IsName name.name)
    && (bound.isNone || !isVarianceName name.name) && TypeExpr.fitsIfPresent bound
    && TypeExpr.fitsIfPresent fallback

def TypeParam.allFit : List TypeParam → Bool
  | [] => true
  | param :: params => param.fits && TypeParam.allFit params

end

end Levels

theorem EntityName.isName_of_isSpelled {name : EntityName} (h : name.isSpelled = true) :
    ∀ part ∈ name.parts, Word.IsName part.name :=
  fun part hmem => of_decide_eq_true (List.all_eq_true.1 h part hmem)

theorem EntityName.isSpelled_of_isReference {name : EntityName} (h : name.isReference = true) :
    name.isSpelled = true := by
  simp only [isReference, Bool.and_eq_true] at h
  exact h.1.1.1.1

namespace Word

theorem IsLiteral.sound {words : List Word} (h : IsLiteral words) : Sound words := by
  cases h with
  | @token word hwhole hkind =>
    refine .cons hwhole ?_ ?_ .nil <;> rcases hkind with hkind | hkind | hkind <;> simp [hkind] <;> decide
  | @negative word hwhole hkind =>
    exact .sign (by decide) (by decide) (.cons hwhole (by rw [hkind]; decide) (by rw [hkind]; nofun) .nil)
  | truth hname => rcases hname with rfl | rfl <;> exact .name (by decide) .nil

theorem Sound.angled {items : List (List Word)} (h : ∀ item ∈ items, Sound item) :
    Sound (Word.angled items) := by
  cases items with
  | nil => exact .nil
  | cons item items =>
    exact .sign (by decide) (by decide) ((Sound.separated (by decide) (by decide) h).append
      (.sign (by decide) (by decide) .nil))

end Word

section Soundness

variable (literals : LiteralTexts)

mutual

theorem TypeShape.words_sound (level : Nat) (span : Span) : ∀ shape : TypeShape,
    shape.fits level = true → Word.Sound (shape.words literals span)
  | .reference name args, h => by
    simp only [TypeShape.fits, Bool.and_eq_true] at h
    exact (Word.Sound.entityName (EntityName.isName_of_isSpelled
      (EntityName.isSpelled_of_isReference h.1))).append (.angled (TypeExpr.allWords_sound 0 args h.2))
  | .union parts, h => by
    simp only [TypeShape.fits, Bool.and_eq_true] at h
    exact .separated (by decide) (by decide) (TypeExpr.allWords_sound 2 parts h.2)
  | .intersection parts, h => by
    simp only [TypeShape.fits, Bool.and_eq_true] at h
    exact .separated (by decide) (by decide) (TypeExpr.allWords_sound 3 parts h.2)
  | .array element, h =>
    (TypeExpr.words_sound 4 element h).append (.group (by decide) rfl (by decide) rfl .nil)
  | .indexed object index, h => by
    simp only [TypeShape.fits, Bool.and_eq_true] at h
    exact (TypeExpr.words_sound 4 object h.1).append
      (.group (by decide) rfl (by decide) rfl (TypeExpr.words_sound 0 index h.2))
  | .tuple elements, h => .group (by decide) rfl (by decide) rfl
    (.separated (by decide) (by decide) (TypeExpr.allWords_sound 0 elements h))
  | .paren inner, h => .group (by decide) rfl (by decide) rfl (TypeExpr.words_sound 0 inner h)
  | .function isConstructor signature, h => by
    simp only [TypeShape.fits, Bool.and_eq_true] at h
    have hsignature := Signature.words_sound signature h.2
    cases isConstructor with
    | false => exact hsignature
    | true => exact .sign (by decide) (by decide) hsignature
  | .literalValue, _ => (literals.isLiteral span).sound
  | .keyword type, _ => by cases type <;> exact .name (by decide) .nil
  | .this, _ => .sign (by decide) (by decide) .nil
  | .query name, h => .sign (by decide) (by decide) (.entityName (EntityName.isName_of_isSpelled h))
  | .keyof type, h => by
    simp only [TypeShape.fits, Bool.and_eq_true] at h
    exact .sign (by decide) (by decide) (TypeExpr.words_sound 3 type h.2)

theorem TypeExpr.words_sound (level : Nat) : ∀ type : TypeExpr, type.fits level = true →
    Word.Sound (type.words literals)
  | ⟨shape, span⟩, h => TypeShape.words_sound level span shape h

theorem TypeExpr.allWords_sound (level : Nat) : ∀ types : List TypeExpr,
    TypeExpr.allFit level types = true →
      ∀ words ∈ TypeExpr.wordsOfAll literals types, Word.Sound words
  | [], _ => nofun
  | type :: types, h => by
    simp only [TypeExpr.allFit, Bool.and_eq_true] at h
    exact List.forall_mem_cons.2
      ⟨TypeExpr.words_sound level type h.1, TypeExpr.allWords_sound level types h.2⟩

theorem TypeExpr.wordsAfter_sound {sign : TokenKind} (hsign : (Word.sign sign).IsWhole)
    (hkind : sign.isOpen = false ∧ sign.isClose = false ∧ sign ≠ .dot) : ∀ type : Option TypeExpr,
    TypeExpr.fitsIfPresent type = true → Word.Sound (TypeExpr.wordsAfter literals sign type)
  | none, _ => .nil
  | some type, h => .sign hsign hkind (TypeExpr.words_sound 0 type h)

theorem Signature.words_sound : ∀ signature : Signature, signature.fits = true →
    Word.Sound (signature.words literals)
  | ⟨typeParams, params, returns⟩, h => by
    simp only [Signature.fits, Bool.and_eq_true] at h
    have hgroup : Word.Sound (.sign .openParen
        :: (Word.separated .comma (Param.wordsOfAll literals params) ++ [.sign .closeParen])) :=
      .group (by decide) rfl (by decide) rfl
        (.separated (by decide) (by decide) (Param.allWords_sound params h.1.1.2))
    have hreturns : Word.Sound (TypeExpr.wordsAfter literals .fatArrow returns) :=
      TypeExpr.wordsAfter_sound (by decide) (by decide) returns h.2
    have hwords := (Word.Sound.angled (TypeParam.allWords_sound typeParams h.1.1.1)).append
      (hgroup.append hreturns)
    simpa [Signature.words] using hwords

theorem Param.words_sound : ∀ param : Param, param.fits = true → Word.Sound (param.words literals)
  | ⟨name, rest, optional, type⟩, h => by
    simp only [Param.fits, Bool.and_eq_true, decide_eq_true_eq] at h
    have htype : Word.Sound (TypeExpr.wordsAfter literals .colon type) :=
      TypeExpr.wordsAfter_sound (by decide) (by decide) type h.2
    have hoptional : Word.Sound ((if optional then [.sign .question] else [])
        ++ TypeExpr.wordsAfter literals .colon type) := by
      cases optional with
      | false => exact htype
      | true => exact .sign (by decide) (by decide) htype
    cases rest with
    | false => exact .name h.1 hoptional
    | true => exact .sign (by decide) (by decide) (.name h.1 hoptional)

theorem Param.allWords_sound : ∀ params : List Param, Param.allFit params = true →
    ∀ words ∈ Param.wordsOfAll literals params, Word.Sound words
  | [], _ => nofun
  | param :: params, h => by
    simp only [Param.allFit, Bool.and_eq_true] at h
    exact List.forall_mem_cons.2 ⟨Param.words_sound param h.1, Param.allWords_sound params h.2⟩

theorem TypeParam.words_sound : ∀ param : TypeParam, param.fits = true →
    Word.Sound (param.words literals)
  | ⟨name, bound, fallback⟩, h => by
    simp only [TypeParam.fits, Bool.and_eq_true, decide_eq_true_eq] at h
    exact .name h.1.1.1 ((TypeExpr.wordsAfter_sound (by decide) (by decide) bound h.1.2).append
      (TypeExpr.wordsAfter_sound (by decide) (by decide) fallback h.2))

theorem TypeParam.allWords_sound : ∀ params : List TypeParam, TypeParam.allFit params = true →
    ∀ words ∈ TypeParam.wordsOfAll literals params, Word.Sound words
  | [], _ => nofun
  | param :: params, h => by
    simp only [TypeParam.allFit, Bool.and_eq_true] at h
    exact List.forall_mem_cons.2 ⟨TypeParam.words_sound param h.1, TypeParam.allWords_sound params h.2⟩

end

end Soundness

/-- Kinds of token that a type may begin with. -/
def TokenKind.startsType : TokenKind → Bool
  | identifier | keyword .thisKw | keyword .typeofKw | keyword .keyofKw | keyword .newKw => true
  | string | number | template | minus | openBracket | openParen | less => true
  | _ => false

/-- Kinds of token that may follow a type that is written at a level. -/
def TokenKind.followsType (level : Nat) : TokenKind → Bool
  | closeParen | closeBracket | greater | comma | semicolon | assign => true
  | bar => decide (2 ≤ level)
  | ampersand => decide (3 ≤ level)
  | openBracket => decide (4 ≤ level)
  | _ => false

namespace TokenKind

variable {kind other : TokenKind} {level level' : Nat}

theorem ne_of_startsType (h : kind.startsType = true) (hother : other.startsType = false) :
    kind ≠ other := by
  rintro rfl
  rw [h] at hother
  cases hother

theorem ne_of_followsType (h : kind.followsType level = true)
    (hother : other.followsType level = false) : kind ≠ other := by
  rintro rfl
  rw [h] at hother
  cases hother

theorem followsType_mono (h : kind.followsType level = true) (hle : level ≤ level') :
    kind.followsType level' = true := by
  cases kind <;> simp only [followsType, decide_eq_true_eq, Bool.false_eq_true] at h ⊢ <;> omega

end TokenKind

/-- Inside a group, lexemes that nest are passed over to find where it ends. -/
theorem Nests.groupLength?_inside {i j : Nat} {xs : List Lexeme} (h : Nests i j xs)
    (rest : List Lexeme) : Parse.groupLength? (i + 1) (xs ++ rest)
      = (Parse.groupLength? (j + 1) rest).map (· + xs.length) := by
  induction h with
  | nil => exact Option.map_id'.symm
  | plain hopen hclose _ _ ih =>
    simp only [List.cons_append, Parse.groupLength?, hopen, hclose, Bool.false_eq_true, if_false, ih,
      Option.map_map, List.length_cons]
    rfl
  | opening hopen _ ih =>
    simp only [List.cons_append, Parse.groupLength?, hopen, if_true, ih, Option.map_map,
      List.length_cons]
    rfl
  | closing hclose _ ih =>
    simp only [List.cons_append, Parse.groupLength?, TokenKind.isOpen_eq_false_of_isClose hclose,
      hclose, Bool.false_eq_true, if_false, if_true, ih, Option.map_map, List.length_cons]
    rfl

/-- Parentheses are those of a function type if an arrow follows them. -/
theorem Cursor.Stands.startsFunction {layout : Layout} {c : Cursor} {inner after : List Word}
    {word : Word} (hinner : Word.Sound inner) (hc : c.Stands layout
      (.sign .openParen :: (inner ++ .sign .closeParen :: word :: after))) :
    c.startsFunction = (word.kind == .fatArrow) := by
  obtain ⟨paren, lexemes, hrest, hparen, hwords⟩ := hc.rest
  obtain ⟨xs, ys, rfl, hxs, hys⟩ := List.map_eq_append_iff.1 hwords
  obtain ⟨close, zs, rfl, hclose, -⟩ := List.map_eq_cons_iff.1 hys
  have hkind : close.kind = .closeParen := congrArg Word.kind hclose
  have hlast : groupLength? 1 (close :: zs) = some 1 := by
    simp only [groupLength?, hkind, TokenKind.isOpen, TokenKind.isClose, Bool.false_eq_true, if_false,
      if_true, Option.map_some]
  have hgroup : groupLength? 1 (c.rest.drop 1) = some (xs.length + 1) := by
    rw [hrest]
    show groupLength? 1 (xs ++ close :: zs) = _
    rw [(hinner.nests xs hxs).groupLength?_inside, hlast, Option.map_some, Nat.add_comm]
  have hfollowing : c.kindAt (xs.length + 1 + 1) = word.kind := by
    have hlength : inner.length = xs.length := by rw [← hxs, List.length_map]
    rw [hc.kindAt, List.getElem?_cons_succ, ← hlength, List.getElem?_append_right (Nat.le_succ _)]
    simp
  have hopen : c.kind = .openParen := hc.kind
  unfold Cursor.startsFunction
  rw [hopen]
  dsimp only
  rw [hgroup]
  dsimp only
  rw [hfollowing]

namespace Word

/-- No word but the first is behind a name as a colon or a question mark is, which would make the name a
label, and none is a second name. -/
def IsUnlabeled : List Word → Prop
  | word :: next :: _ => (word.kind.isName = true → next.kind ≠ .colon ∧ next.kind ≠ .question)
    ∧ (word.kind = .identifier ∨ word.kind = .keyword .thisKw → next.kind ≠ .identifier)
  | _ => True

theorem isUnlabeled_of_isName {word : Word} (h : word.kind.isName = false) (words : List Word) :
    IsUnlabeled (word :: words) := by
  cases words with
  | nil => trivial
  | cons next words =>
    refine ⟨fun hname => ?_, fun hname => ?_⟩
    · rw [h] at hname
      cases hname
    · rcases hname with hname | hname <;>
        · rw [hname] at h
          cases h

theorem isUnlabeled_of_follows {word next : Word} {level : Nat}
    (h : next.kind.followsType level = true) (words : List Word) :
    IsUnlabeled (word :: next :: words) :=
  ⟨fun _ => ⟨TokenKind.ne_of_followsType h rfl, TokenKind.ne_of_followsType h rfl⟩,
    fun _ => TokenKind.ne_of_followsType h rfl⟩

theorem separated_cons (separator : TokenKind) (item next : List Word) (items : List (List Word)) :
    separated separator (item :: next :: items)
      = item ++ sign separator :: separated separator (next :: items) := rfl

end Word

section Beginnings

variable (literals : LiteralTexts)

mutual

theorem TypeShape.words_start (level : Nat) (span : Span) : ∀ shape : TypeShape,
    shape.fits level = true →
      ∃ word rest, shape.words literals span = word :: rest ∧ word.kind.startsType = true
  | .reference name args, h => by
    simp only [TypeShape.fits, EntityName.isReference, Bool.and_eq_true, beq_iff_eq] at h
    exact ⟨_, _, rfl, by rw [h.1.1.1.1.2]; rfl⟩
  | .union (first :: next :: parts), h => by
    simp only [TypeShape.fits, TypeExpr.allFit, Bool.and_eq_true] at h
    obtain ⟨word, rest, hwords, hword⟩ := TypeExpr.words_start 2 first h.2.1
    exact ⟨word, _, congrArg (· ++ _) hwords, hword⟩
  | .intersection (first :: next :: parts), h => by
    simp only [TypeShape.fits, TypeExpr.allFit, Bool.and_eq_true] at h
    obtain ⟨word, rest, hwords, hword⟩ := TypeExpr.words_start 3 first h.2.1
    exact ⟨word, _, congrArg (· ++ _) hwords, hword⟩
  | .array element, h => by
    obtain ⟨word, rest, hwords, hword⟩ := TypeExpr.words_start 4 element h
    exact ⟨word, _, congrArg (· ++ _) hwords, hword⟩
  | .indexed object index, h => by
    simp only [TypeShape.fits, Bool.and_eq_true] at h
    obtain ⟨word, rest, hwords, hword⟩ := TypeExpr.words_start 4 object h.1
    exact ⟨word, _, congrArg (· ++ _) hwords, hword⟩
  | .tuple _, _ | .paren _, _ | .this, _ | .query _, _ | .keyof _, _ => ⟨_, _, rfl, rfl⟩
  | .function true _, _ => ⟨_, _, rfl, rfl⟩
  | .function false ⟨typeParams, _, _⟩, _ => by
    cases typeParams <;> exact ⟨_, _, rfl, rfl⟩
  | .literalValue, _ => by
    have hliteral := literals.isLiteral span
    show ∃ word rest, literals.words span = word :: rest ∧ _
    generalize literals.words span = words at hliteral
    cases hliteral with
    | token _ hkind => exact ⟨_, _, rfl, by rcases hkind with h | h | h <;> rw [h] <;> rfl⟩
    | negative => exact ⟨_, _, rfl, rfl⟩
    | truth hname => exact ⟨_, _, rfl, by rcases hname with rfl | rfl <;> rfl⟩
  | .keyword type, _ => ⟨_, _, rfl, by cases type <;> rfl⟩
  | .union [], h | .union [_], h | .intersection [], h | .intersection [_], h
  | .literal _, h | .predicate _ _, h => by simp [TypeShape.fits] at h

theorem TypeExpr.words_start (level : Nat) : ∀ type : TypeExpr, type.fits level = true →
    ∃ word rest, type.words literals = word :: rest ∧ word.kind.startsType = true
  | ⟨shape, span⟩, h => TypeShape.words_start level span shape h

end

mutual

theorem TypeShape.unlabeled (level : Nat) (span : Span) {word : Word} (after : List Word)
    (hword : word.kind.followsType 4 = true) : ∀ shape : TypeShape, shape.fits level = true →
      Word.IsUnlabeled (shape.words literals span ++ word :: after)
  | .reference ⟨first, rest, _⟩ args, h => by
    cases rest with
    | cons part rest => exact ⟨fun _ => by decide, fun _ => by decide⟩
    | nil =>
      cases args with
      | cons arg args => exact ⟨fun _ => by decide, fun _ => by decide⟩
      | nil => exact Word.isUnlabeled_of_follows hword after
  | .union (first :: next :: parts), h => by
    simp only [TypeShape.fits, TypeExpr.allFit, Bool.and_eq_true] at h
    show Word.IsUnlabeled ((first.words literals ++ _ :: _) ++ _)
    rw [List.append_assoc]
    exact TypeExpr.unlabeled 2 _ rfl first h.2.1
  | .intersection (first :: next :: parts), h => by
    simp only [TypeShape.fits, TypeExpr.allFit, Bool.and_eq_true] at h
    show Word.IsUnlabeled ((first.words literals ++ _ :: _) ++ _)
    rw [List.append_assoc]
    exact TypeExpr.unlabeled 3 _ rfl first h.2.1
  | .array element, h => by
    rw [TypeShape.words, List.append_assoc]
    exact TypeExpr.unlabeled 4 _ rfl element h
  | .indexed object index, h => by
    simp only [TypeShape.fits, Bool.and_eq_true] at h
    rw [TypeShape.words, List.append_assoc]
    exact TypeExpr.unlabeled 4 _ rfl object h.1
  | .tuple _, _ | .paren _, _ => Word.isUnlabeled_of_isName rfl _
  | .function true ⟨typeParams, _, _⟩, _ => by
    cases typeParams <;> exact ⟨fun _ => by decide, fun _ => by decide⟩
  | .function false ⟨typeParams, _, _⟩, _ => by
    cases typeParams <;> exact Word.isUnlabeled_of_isName rfl _
  | .literalValue, _ => by
    have hliteral := literals.isLiteral span
    show Word.IsUnlabeled (literals.words span ++ _)
    generalize literals.words span = words at hliteral
    cases hliteral with
    | token _ hkind =>
      exact Word.isUnlabeled_of_isName (by rcases hkind with h | h | h <;> rw [h] <;> rfl) _
    | negative => exact Word.isUnlabeled_of_isName rfl _
    | truth => exact Word.isUnlabeled_of_follows hword after
  | .keyword _, _ | .this, _ => Word.isUnlabeled_of_follows hword after
  | .query name, _ =>
    ⟨fun _ => ⟨Word.ofName_ne rfl _, Word.ofName_ne rfl _⟩, fun h => by rcases h with h | h <;> cases h⟩
  | .keyof type, h => by
    simp only [TypeShape.fits, Bool.and_eq_true] at h
    obtain ⟨next, rest, hwords, hnext⟩ := TypeExpr.words_start literals 3 type h.2
    rw [TypeShape.words, hwords]
    exact ⟨fun _ => ⟨TokenKind.ne_of_startsType hnext rfl, TokenKind.ne_of_startsType hnext rfl⟩,
      fun h => by rcases h with h | h <;> cases h⟩
  | .union [], h | .union [_], h | .intersection [], h | .intersection [_], h
  | .literal _, h | .predicate _ _, h => by simp [TypeShape.fits] at h

/-- The first word of a type is no label of it and names no parameter that is narrowed to it. -/
theorem TypeExpr.unlabeled (level : Nat) {word : Word} (after : List Word)
    (hword : word.kind.followsType 4 = true) : ∀ type : TypeExpr, type.fits level = true →
      Word.IsUnlabeled (type.words literals ++ word :: after)
  | ⟨shape, span⟩, h => TypeShape.unlabeled level span after hword shape h

end

variable {layout : Layout}

/-- A function type is next where the cursor stands. -/
def Cursor.FindsFunction (c : Cursor) : Prop :=
  c.startsFunction = true ∨ c.kind = .keyword .newKw

theorem not_findsFunction_of_kind {c : Cursor} {word : Word} {words : List Word}
    (hc : c.Stands layout (word :: words))
    (hword : word.kind ≠ .less ∧ word.kind ≠ .openParen ∧ word.kind ≠ .keyword .newKw) :
    ¬ c.FindsFunction := by
  rw [← hc.kind] at hword
  rintro (h | h)
  · rw [startsFunction_of_kind hword.1 hword.2.1] at h
    cases h
  · exact hword.2.2 h

mutual

theorem TypeShape.not_findsFunction {level : Nat} (hlevel : 1 ≤ level) (span : Span) {word : Word}
    {after : List Word} (hword : word.kind.followsType 4 = true) {c : Cursor} :
    ∀ shape : TypeShape, shape.fits level = true →
      c.Stands layout (shape.words literals span ++ word :: after) → ¬ c.FindsFunction
  | .reference name args, h, hc => not_findsFunction_of_kind hc
    ⟨Word.ofName_ne rfl _, Word.ofName_ne rfl _, by
      simp only [TypeShape.fits, EntityName.isReference, Bool.and_eq_true, beq_iff_eq] at h
      rw [h.1.1.1.1.2]
      decide⟩
  | .union (first :: next :: parts), h, hc => by
    simp only [TypeShape.fits, TypeExpr.allFit, Bool.and_eq_true] at h
    change c.Stands layout ((first.words literals ++ _ :: _) ++ _) at hc
    rw [List.append_assoc] at hc
    exact TypeExpr.not_findsFunction (by decide) rfl first h.2.1 hc
  | .intersection (first :: next :: parts), h, hc => by
    simp only [TypeShape.fits, TypeExpr.allFit, Bool.and_eq_true] at h
    change c.Stands layout ((first.words literals ++ _ :: _) ++ _) at hc
    rw [List.append_assoc] at hc
    exact TypeExpr.not_findsFunction (by decide) rfl first h.2.1 hc
  | .array element, h, hc => by
    rw [TypeShape.words, List.append_assoc] at hc
    exact TypeExpr.not_findsFunction (by decide) rfl element h hc
  | .indexed object index, h, hc => by
    simp only [TypeShape.fits, Bool.and_eq_true] at h
    rw [TypeShape.words, List.append_assoc] at hc
    exact TypeExpr.not_findsFunction (by decide) rfl object h.1 hc
  | .paren inner, h, hc => by
    rw [TypeShape.words, List.cons_append, List.append_assoc] at hc
    rintro (hstarts | hnew)
    · rw [hc.startsFunction (TypeExpr.words_sound literals 0 inner h), beq_iff_eq] at hstarts
      exact TokenKind.ne_of_followsType hword rfl hstarts
    · rw [hc.kind] at hnew
      cases hnew
  | .literalValue, _, hc => by
    have hliteral := literals.isLiteral span
    change c.Stands layout (literals.words span ++ _) at hc
    generalize literals.words span = words at hliteral hc
    cases hliteral with
    | token _ hkind =>
      exact not_findsFunction_of_kind hc (by rcases hkind with h | h | h <;> rw [h] <;> decide)
    | negative => exact not_findsFunction_of_kind hc (by decide)
    | truth hname => exact not_findsFunction_of_kind hc (by rcases hname with rfl | rfl <;> decide)
  | .keyword type, _, hc => not_findsFunction_of_kind hc (by cases type <;> decide)
  | .tuple _, _, hc | .this, _, hc | .query _, _, hc | .keyof _, _, hc =>
    not_findsFunction_of_kind hc (by decide)
  | .function _ _, h, _ => by
    simp only [TypeShape.fits, Bool.and_eq_true, decide_eq_true_eq] at h
    omega
  | .union [], h, _ | .union [_], h, _ | .intersection [], h, _ | .intersection [_], h, _
  | .literal _, h, _ | .predicate _ _, h, _ => by simp [TypeShape.fits] at h

/-- No function type seems to begin where another type does. -/
theorem TypeExpr.not_findsFunction {level : Nat} (hlevel : 1 ≤ level) {word : Word} {after : List Word}
    (hword : word.kind.followsType 4 = true) {c : Cursor} : ∀ type : TypeExpr,
      type.fits level = true → c.Stands layout (type.words literals ++ word :: after) →
        ¬ c.FindsFunction
  | ⟨shape, span⟩, h, hc => TypeShape.not_findsFunction hlevel span hword shape h hc

end

end Beginnings

end NodeFactory
