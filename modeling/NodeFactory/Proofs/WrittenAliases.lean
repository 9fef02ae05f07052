import NodeFactory.Proofs.WrittenTypes

/-!
# A type written as an alias

A type that can be written with no parentheses but its own is read as it was written, from any text of the
words of its declaration that has no line break before one of them (`alias_of_words`). The line of these
words is such a text. So two types of which a text can be written are the same but for where they are
written.
-/

namespace NodeFactory

open Parse

variable (literals : LiteralTexts)

/-- The declaration of a name to be an alias of a type. -/
def aliasWords (name : String) (type : TypeExpr) : List Word :=
  .sign (.keyword .typeKw) :: .ofName name :: .sign .assign
    :: (type.words literals ++ [.sign .semicolon])

/-- The text has the words of the declaration and no line break before any of them. -/
structure WritesAlias (name : String) (type : TypeExpr) (text : List Char) : Prop where
  clean : HasNoMalformed text
  words : (lexemesOf text).map Lexeme.word = aliasWords literals name type
  oneLine : ∀ lexeme ∈ lexemesOf text, lexeme.startsLine = false

/-- A declaration of an alias that is the one that was written. -/
def IsAlias (name : String) (type : TypeExpr) (statement : Statement) : Prop :=
  ∃ place span type', statement = .aliasDecl place ⟨⟨name, span⟩, [], type'⟩ ∧ Resembles type' type

variable {literals} {name : String} {type : TypeExpr}

section Declarations

variable {c : Cursor} {after : List Word} (htype : type.fits 0 = true)
include htype

theorem obtains_aliasDecl (hc : c.Stands .oneLine (aliasWords literals name type ++ after)) :
    Obtains .oneLine aliasDecl c after fun decl =>
      decl.name.name = name ∧ decl.typeParams = [] ∧ Resembles decl.type type := by
  unfold aliasDecl
  refine .expect hc rfl fun d hd => (obtains_ident ⟨name, ⟨0, 0⟩⟩ hd).bind ?_
  intro ident d hident hd
  have hparams : Obtains .oneLine (typeParams typeExpr) d
      (.sign .assign :: (type.words literals ++ [.sign .semicolon]) ++ after) (· = []) :=
    ⟨[], d, typeParams_of_ne (hd.kind ▸ by decide), rfl, hd, rfl⟩
  refine hparams.bind ?_
  rintro _ e rfl he
  refine .expect he rfl fun f hf => ?_
  have hf' : f.Stands .oneLine (type.words literals ++ .sign .semicolon :: after) := by
    simpa using hf
  have hread : ReadsType literals typeExpr 0 type := TypeExpr.reads (Nat.zero_le 4) type htype
  refine (hread rfl hf').bind fun value g hvalue hg => ?_
  have hsemicolon : Obtains .oneLine (discard (eat .semicolon)) g after fun _ => True :=
    ⟨(), g.next, map_eq_ok_iff.2 ⟨true, eat_of_kind hg.kind, rfl⟩, trivial, hg.next, g.errors_next⟩
  exact hsemicolon.bind fun _ d _ hd => .pure hd ⟨congrArg Ident.name hident, rfl, hvalue⟩

theorem obtains_aliasDeclaration {body : Parse (List Statement)}
    (hc : c.Stands .oneLine (aliasWords literals name type ++ after)) :
    Obtains .oneLine (declaration body false) c after
      fun make => ∀ place, IsAlias name type (make place) := by
  have hkind : c.kind = .keyword .typeKw := hc.kind
  have hfollowing : (c.kindAt 1).isName = true := by
    rw [hc.kindAt]
    exact Word.isName_ofName name
  unfold declaration
  refine .here ?_
  rw [if_neg (by simp [hfollowing]), hkind]
  refine (obtains_aliasDecl htype hc).bind ?_
  rintro ⟨⟨_, span⟩, _, type'⟩ d ⟨rfl, rfl, htype'⟩ hd
  exact .pure hd fun place => ⟨place, span, type', rfl, htype'⟩

theorem obtains_aliasStatement {body : Parse (List Statement)}
    (hc : c.Stands .oneLine (aliasWords literals name type ++ after)) :
    Obtains .oneLine (statement? body) c after fun result =>
      ∃ statement, result = some statement ∧ IsAlias name type statement := by
  have hkind : c.kind = .keyword .typeKw := hc.kind
  unfold statement?
  refine .here (.missed hc (by rw [hkind]; decide) fun d hd => ?_)
  have hmodifiers : Obtains .oneLine modifiers d (aliasWords literals name type ++ after) (· = false) :=
    ⟨false, d, modifiers_of_typeKw hd.kind, rfl, hd, rfl⟩
  rw [if_neg Bool.false_ne_true, hkind]
  refine hmodifiers.bind ?_
  rintro _ e rfl he
  refine (obtains_aliasDeclaration htype he).bind fun make f hmake hf => .placed fun span => ?_
  exact .pure hf ⟨_, rfl, hmake _⟩

end Declarations

section Texts

theorem WritesAlias.parse {text : List Char} (h : WritesAlias literals name type text)
    (htype : type.fits 0 = true) : (Schema.parse text).errors = []
      ∧ ∃ statement, (Schema.parse text).statements = [statement] ∧ IsAlias name type statement := by
  refine parse_of_words .oneLine h.clean h.words h.oneLine (by decide) fun c hc => ?_
  have hc' : c.Stands .oneLine (aliasWords literals name type ++ []) := by rwa [List.append_nil]
  exact obtains_aliasStatement htype hc'

theorem writesAlias_line (hname : Word.IsName name) (htype : type.fits 0 = true) :
    WritesAlias literals name type (Word.line (aliasWords literals name type)) := by
  have hsound : Word.Sound (aliasWords literals name type) :=
    .sign (by decide) (by decide) (.name hname (.sign (by decide) (by decide)
      ((TypeExpr.words_sound literals 0 type htype).append (.sign (by decide) (by decide) .nil))))
  obtain ⟨hclean, hline⟩ := Word.lexemesOf_line hsound.whole
  exact ⟨hclean, hline.words, hline.startsLine⟩

theorem IsAlias.resembles {type' : TypeExpr} {statement : Statement} (h : IsAlias name type statement)
    (h' : IsAlias name type' statement) : Resembles type' type := by
  obtain ⟨place, span, value, rfl, hvalue⟩ := h
  obtain ⟨_, _, value', heq, hvalue'⟩ := h'
  cases heq
  exact hvalue'.symm.trans hvalue

/-- A type that can be written without more parentheses than it has is written by the line of its words, and
every text that writes it is read without errors as its declaration. No other type is written by such a
text. -/
theorem alias_of_words (hname : Word.IsName name) (htype : type.fits 0 = true) :
    WritesAlias literals name type (Word.line (aliasWords literals name type))
      ∧ ∀ text, WritesAlias literals name type text →
        (Schema.parse text).errors = []
        ∧ (∃ statement, (Schema.parse text).statements = [statement] ∧ IsAlias name type statement)
        ∧ ∀ literals' other, other.fits 0 = true → WritesAlias literals' name other text →
          Resembles other type := by
  refine ⟨writesAlias_line hname htype, fun text h => ?_⟩
  obtain ⟨herrors, statement, hstatements, halias⟩ := h.parse htype
  refine ⟨herrors, ⟨statement, hstatements, halias⟩, fun literals' other hother hwrites => ?_⟩
  obtain ⟨-, statement', hstatements', halias'⟩ := hwrites.parse hother
  obtain rfl : statement' = statement := by
    rw [hstatements'] at hstatements
    exact List.singleton_inj.1 hstatements
  exact halias.resembles halias'

end Texts

section Samples

/-- All literals are written as the number 1. -/
def LiteralTexts.ones : LiteralTexts :=
  ⟨fun _ => [⟨.number, ['1']⟩], fun _ => .token (by decide) (.inr (.inl rfl))⟩

/-- A type that is written at the beginning of a text. -/
def typeOf (shape : TypeShape) : TypeExpr := ⟨shape, ⟨0, 0⟩⟩

def entityOf (name : String) (parts : List String) : EntityName :=
  ⟨⟨name, ⟨0, 0⟩⟩, parts.map (⟨·, ⟨0, 0⟩⟩), ⟨0, 0⟩⟩

def refTo (name : String) (args : List TypeExpr) : TypeExpr :=
  typeOf (.reference (entityOf name []) args)

/-- `<T extends keyof A[1] = B>(...a: (A | 1)[], b?: typeof x.in) => new () => [A<B>, this & null]` -/
def sampleType : TypeExpr :=
  let one := typeOf .literalValue
  let bound := typeOf (.keyof (typeOf (.indexed (refTo "A" []) one)))
  let several := typeOf (.array (typeOf (.paren (typeOf (.union [refTo "A" [], one])))))
  let both := typeOf (.intersection [typeOf .this, typeOf (.keyword .null)])
  let built := typeOf (.tuple [refTo "A" [refTo "B" []], both])
  typeOf (.function false ⟨[⟨⟨"T", ⟨0, 0⟩⟩, some bound, some (refTo "B" [])⟩],
    [⟨⟨"a", ⟨0, 0⟩⟩, true, false, some several⟩,
      ⟨⟨"b", ⟨0, 0⟩⟩, false, true, some (typeOf (.query (entityOf "x" ["in"])))⟩],
    some (typeOf (.function true ⟨[], [], some built⟩))⟩)

theorem alias_sampleType :
    let text := ("type X = < T extends keyof A [ 1 ] = B > ( ... a : ( A | 1 ) [ ] , b ? : typeof x . in ) "
      ++ "=> new ( ) => [ A < B > , this & null ] ;").toList
    WritesAlias .ones "X" sampleType text ∧ (Schema.parse text).errors = []
      ∧ ∃ statement, (Schema.parse text).statements = [statement] ∧ IsAlias "X" sampleType statement := by
  intro text
  have hline : Word.line (aliasWords .ones "X" sampleType) = text := by decide +kernel
  have hname : Word.IsName "X" := by decide
  have htype : sampleType.fits 0 = true := by decide +kernel
  obtain ⟨hwrites, hread⟩ := alias_of_words hname htype
  rw [hline] at hwrites
  obtain ⟨herrors, hstatement, -⟩ := hread text hwrites
  exact ⟨hwrites, herrors, hstatement⟩

/-- `<out extends A>() => void` -/
def boundOut : TypeExpr :=
  typeOf (.function false ⟨[⟨⟨"out", ⟨0, 0⟩⟩, some (refTo "A" []), none⟩], [],
    some (typeOf (.keyword .void))⟩)

def flatUnion : TypeExpr := typeOf (.union [refTo "A" [], refTo "B" [], refTo "C" []])

def nestedUnion : TypeExpr :=
  typeOf (.union [typeOf (.union [refTo "A" [], refTo "B" []]), refTo "C" []])

/-- The bound of a type parameter `out` is taken for its name, and a union directly under a union is written
like one union of all the parts. -/
theorem alias_misread :
    (∃ text, WritesAlias .ones "X" boundOut text ∧ (Schema.parse text).errors ≠ [])
      ∧ ∃ text, WritesAlias .ones "X" nestedUnion text ∧ WritesAlias .ones "X" flatUnion text
        ∧ ¬ Resembles nestedUnion flatUnion := by
  have hclean : HasNoMalformed "type X = <out extends A>() => void;".toList := by
    unfold HasNoMalformed
    decide +kernel
  have hclean' : HasNoMalformed "type X = A | B | C;".toList := by
    unfold HasNoMalformed
    decide +kernel
  have hapart : ¬ Resembles nestedUnion flatUnion := by
    intro hsame
    have hparts := congrArg (fun type : TypeExpr => match type.shape with
      | .union parts => parts.length
      | _ => 0) hsame
    cases hparts
  exact ⟨⟨_, ⟨hclean, by decide +kernel, by decide +kernel⟩, by decide +kernel⟩,
    _, ⟨hclean', by decide +kernel, by decide +kernel⟩,
    ⟨hclean', by decide +kernel, by decide +kernel⟩, hapart⟩

end Samples

end NodeFactory
