import NodeFactory.Proofs.ParseProgress
import NodeFactory.Proofs.WrittenWords

/-!
# Reading words

What an action reads from lexemes that are known by their words: it obtains a value, reports no error, and
leaves the words after it (`Obtains`). Names and what stands between delimiters are read so wherever the
words after them cannot go on. What is read resembles what was written if both are the same but for their
places in a text.
-/

namespace NodeFactory

open Parse

/-- What is known of the layout of the lexemes that are left, however many are read. -/
structure Layout where
  holds : List Lexeme → Prop
  tail : ∀ {lexeme : Lexeme} {lexemes : List Lexeme}, holds (lexeme :: lexemes) → holds lexemes

namespace Layout

/-- No lexeme begins a line. -/
def oneLine : Layout := ⟨fun lexemes => ∀ lexeme ∈ lexemes, lexeme.startsLine = false,
  fun h lexeme hmem => h lexeme (List.mem_cons_of_mem _ hmem)⟩

/-- Words that are joined stand together. -/
def joined : Layout :=
  ⟨List.IsChain fun lexeme next => lexeme.word.joins next.word = true → next.isGlued = true,
    List.IsChain.tail⟩

end Layout

/-- The words are left to be read. -/
structure Cursor.Stands (layout : Layout) (cursor : Cursor) (words : List Word) : Prop where
  words : cursor.rest.map Lexeme.word = words
  layout : layout.holds cursor.rest

/-- An action obtains a value as said and leaves the words `after`; it reports no error. -/
def Obtains {α : Type} (layout : Layout) (action : Parse α) (c : Cursor) (after : List Word)
    (Q : α → Prop) : Prop :=
  ∃ value d, action c = .ok value d ∧ Q value ∧ d.Stands layout after ∧ d.errors = c.errors

/-- Two values are the same but for where they are written. -/
abbrev Resembles {α : Type} [Relocatable α] (value written : α) : Prop :=
  Same .erasing .erasing value written

variable {layout : Layout}

namespace Cursor.Stands

variable {c : Cursor} {word : Word} {words : List Word}

theorem rest (h : c.Stands layout (word :: words)) :
    ∃ lexeme lexemes, c.rest = lexeme :: lexemes ∧ lexeme.word = word
      ∧ lexemes.map Lexeme.word = words :=
  List.map_eq_cons_iff.1 h.words

theorem peek? (h : c.Stands layout words) (n : Nat) : (c.peek? n).map Lexeme.word = words[n]? := by
  rw [Cursor.peek?, ← List.getElem?_map, h.words]

theorem kindAt (h : c.Stands layout words) (n : Nat) :
    c.kindAt n = ((words[n]?).map Word.kind).getD .endOfFile := by
  rw [← h.peek?, Option.map_map]
  rfl

theorem textAt (h : c.Stands layout words) (n : Nat) :
    c.textAt n = ((words[n]?).map Word.text).getD [] := by
  rw [← h.peek?, Option.map_map]
  rfl

theorem kind (h : c.Stands layout (word :: words)) : c.kind = word.kind := h.kindAt 0

theorem size (h : c.Stands layout words) : c.size = words.length := by
  rw [c.size_eq, ← h.words, List.length_map]

theorem next (h : c.Stands layout (word :: words)) : c.next.Stands layout words := by
  obtain ⟨lexeme, lexemes, hrest, -, hwords⟩ := h.rest
  have hnext : c.next.rest = lexemes := by rw [c.rest_next, hrest, List.tail_cons]
  refine ⟨by rwa [hnext], ?_⟩
  rw [hnext]
  exact layout.tail (hrest ▸ h.layout)

theorem expect (h : c.Stands layout words) (kinds : List TokenKind) :
    (c.expect kinds).Stands layout words :=
  ⟨h.words, h.layout⟩

theorem skip {before : List Word} (h : c.Stands layout (before ++ words)) :
    (c.skip before.length).Stands layout words := by
  induction before generalizing c with
  | nil => exact h
  | cons word before ih => exact ih h.next

end Cursor.Stands

namespace Obtains

variable {α β : Type} {A : Parse α} {c : Cursor} {kind : TokenKind} {word : Word}
  {words after : List Word} {P : α → Prop} {Q : β → Prop}

theorem pure (hc : c.Stands layout after) {value : α} (h : P value) :
    Obtains layout (Pure.pure value) c after P :=
  ⟨value, c, rfl, h, hc, rfl⟩

theorem bind {B : α → Parse β} {between : List Word} (hA : Obtains layout A c between P)
    (hB : ∀ value d, P value → d.Stands layout between → Obtains layout (B value) d after Q) :
    Obtains layout (A >>= B) c after Q := by
  obtain ⟨value, d, hrun, hvalue, hd, herrors⟩ := hA
  obtain ⟨result, e, hrun', hresult, he, herrors'⟩ := hB value d hvalue hd
  exact ⟨result, e, (bind_of_ok hrun).trans hrun', hresult, he, herrors'.trans herrors⟩

theorem imp {P' : α → Prop} (hA : Obtains layout A c after P) (h : ∀ value, P value → P' value) :
    Obtains layout A c after P' := by
  obtain ⟨value, d, hrun, hvalue, hd⟩ := hA
  exact ⟨value, d, hrun, h value hvalue, hd⟩

theorem map {f : α → β} (hA : Obtains layout A c after P) (h : ∀ value, P value → Q (f value)) :
    Obtains layout (f <$> A) c after Q := by
  obtain ⟨value, d, hrun, hvalue, hd⟩ := hA
  exact ⟨f value, d, map_eq_ok_iff.2 ⟨value, hrun, rfl⟩, h value hvalue, hd⟩

theorem here {f : Cursor → Parse β} (h : Obtains layout (f c) c after Q) :
    Obtains layout (cursor >>= f) c after Q := h

theorem isAt {f : Bool → Parse β} (h : Obtains layout (f (c.kind == kind)) c after Q) :
    Obtains layout (Parse.isAt kind >>= f) c after Q := h

theorem ofKind {f : TokenKind → Parse β} (h : Obtains layout (f c.kind) c after Q) :
    Obtains layout (Parse.kind >>= f) c after Q := h

/-- What follows does not depend on where the value is written. -/
theorem placed {start : Nat} {f : Text.Span → Parse β} (h : ∀ span, Obtains layout (f span) c after Q) :
    Obtains layout (spanFrom start >>= f) c after Q :=
  h _

theorem next {f : Unit → Parse β} (hc : c.Stands layout (word :: words))
    (h : ∀ d, d.Stands layout words → Obtains layout (f ()) d after Q) :
    Obtains layout (Parse.next >>= f) c after Q := by
  obtain ⟨result, e, hrun, hresult, he, herrors⟩ := h c.next hc.next
  exact ⟨result, e, hrun, hresult, he, herrors.trans c.errors_next⟩

theorem skip {before : List Word} {f : Unit → Parse β} (hc : c.Stands layout (before ++ words))
    (h : ∀ d, d.Stands layout words → Obtains layout (f ()) d after Q) :
    Obtains layout (Parse.skip before.length >>= f) c after Q := by
  obtain ⟨result, e, hrun, hresult, he, herrors⟩ := h _ hc.skip
  exact ⟨result, e, hrun, hresult, he, herrors.trans (c.errors_skip _)⟩

/-- A lexeme that may be missing is there. -/
theorem eaten {f : Bool → Parse β} (hc : c.Stands layout (word :: words)) (hkind : word.kind = kind)
    (h : ∀ d, d.Stands layout words → Obtains layout (f true) d after Q) :
    Obtains layout (eat kind >>= f) c after Q := by
  obtain ⟨result, e, hrun, hresult, he, herrors⟩ := h c.next hc.next
  exact ⟨result, e, (bind_of_ok (eat_of_kind (hc.kind.trans hkind))).trans hrun, hresult, he,
    herrors.trans c.errors_next⟩

/-- A lexeme that may be missing is not there. -/
theorem missed {f : Bool → Parse β} (hc : c.Stands layout words) (hkind : c.kind ≠ kind)
    (h : ∀ d, d.Stands layout words → Obtains layout (f false) d after Q) :
    Obtains layout (eat kind >>= f) c after Q := by
  obtain ⟨result, e, hrun, hresult, he, herrors⟩ := h _ (hc.expect [kind])
  exact ⟨result, e, (bind_of_ok (eat_of_ne hkind)).trans hrun, hresult, he, herrors⟩

theorem expect {f : Unit → Parse β} (hc : c.Stands layout (word :: words)) (hkind : word.kind = kind)
    (h : ∀ d, d.Stands layout words → Obtains layout (f ()) d after Q) :
    Obtains layout (Parse.expect kind >>= f) c after Q := by
  obtain ⟨result, e, hrun, hresult, he, herrors⟩ := h c.next hc.next
  exact ⟨result, e, (bind_of_ok (expect_of_kind (hc.kind.trans hkind))).trans hrun, hresult, he,
    herrors.trans c.errors_next⟩

variable {σ : Type} {step : σ → Parse (σ ⊕ α)} {state : σ}

/-- A repetition ends with the result of a step. -/
theorem last {S : α → Prop} (h : Obtains layout (step state) c after fun result =>
      ∃ value, result = .inr value ∧ S value) : Obtains layout (repeatFrom step state) c after S := by
  obtain ⟨_, d, hrun, ⟨value, rfl, hvalue⟩, hd⟩ := h
  exact ⟨value, d, repeatFrom_of_inr hrun, hvalue, hd⟩

/-- A repetition goes on from the state that a step has come to. -/
theorem more {S : α → Prop} (I : σ → Prop) (between : List Word) (hc : c.Stands layout words)
    (hlt : between.length < words.length)
    (h : Obtains layout (step state) c between fun result => ∃ state', result = .inl state' ∧ I state')
    (hmore : ∀ state' d, I state' → d.Stands layout between →
      Obtains layout (repeatFrom step state') d after S) :
    Obtains layout (repeatFrom step state) c after S := by
  obtain ⟨_, d, hrun, ⟨state', rfl, hstate⟩, hd, herrors⟩ := h
  obtain ⟨value, e, hrun', hvalue, he, herrors'⟩ := hmore state' d hstate hd
  have hsize : d.size < c.size := by
    rw [hd.size, hc.size]
    exact hlt
  exact ⟨value, e, (repeatFrom_of_inl hrun hsize).trans hrun', hvalue, he, herrors'.trans herrors⟩

end Obtains

namespace Word

/-- Punctuation or a keyword, spelled as it is. -/
def sign (kind : TokenKind) : Word := ⟨kind, kind.describe.toList⟩

def ofName (name : String) : Word := ⟨Token.nameKind name.toList, name.toList⟩

/-- The name is one token, an identifier or a keyword. -/
abbrev IsName (name : String) : Prop := (ofName name).IsWhole

/-- The parts of a name after the first, each with the dot before it. -/
def ofParts : List Ident → List Word
  | [] => []
  | part :: parts => sign .dot :: ofName part.name :: ofParts parts

def ofEntityName (name : EntityName) : List Word :=
  ofName name.first.name :: ofParts name.rest

/-- Items with a separator between any two. -/
def separated (separator : TokenKind) : List (List Word) → List Word
  | [] => []
  | [item] => item
  | item :: next :: items => item ++ sign separator :: separated separator (next :: items)

theorem isName_ofName (name : String) : (ofName name).kind.isName = true := by
  show (Token.nameKind name.toList).isName = true
  unfold Token.nameKind
  split <;> rfl

theorem ofName_ne {kind : TokenKind} (h : kind.isName = false) (name : String) :
    (ofName name).kind ≠ kind := by
  rintro rfl
  rw [isName_ofName] at h
  cases h

end Word

/-- Words that can be written on a line and close the groups that they open. -/
structure Word.Sound (words : List Word) : Prop where
  whole : ∀ word ∈ words, word.IsWhole
  nests : ∀ lexemes : List Lexeme, lexemes.map Lexeme.word = words → Nests 0 0 lexemes

namespace Word.Sound

variable {word : Word} {words words' : List Word}

theorem nil : Sound [] where
  whole := nofun
  nests lexemes h := by
    rw [List.map_eq_nil_iff] at h
    rw [h]
    exact .nil

theorem append (h : Sound words) (h' : Sound words') : Sound (words ++ words') where
  whole := List.forall_mem_append.2 ⟨h.whole, h'.whole⟩
  nests lexemes hmap := by
    obtain ⟨xs, ys, rfl, hxs, hys⟩ := List.map_eq_append_iff.1 hmap
    exact (h.nests xs hxs).append (h'.nests ys hys)

/-- A word that is no delimiter. It is no dot unless others follow. -/
theorem cons (hword : word.IsWhole) (hkind : word.kind.isOpen = false ∧ word.kind.isClose = false)
    (hdot : word.kind = .dot → words ≠ []) (h : Sound words) : Sound (word :: words) where
  whole := List.forall_mem_cons.2 ⟨hword, h.whole⟩
  nests lexemes hmap := by
    obtain ⟨lexeme, lexemes, rfl, rfl, rfl⟩ := List.map_eq_cons_iff.1 hmap
    refine .plain hkind.1 hkind.2 (fun hlexeme hnil => hdot hlexeme ?_) (h.nests lexemes rfl)
    rw [hnil, List.map_nil]

theorem sign {kind : TokenKind} (hword : (Word.sign kind).IsWhole)
    (hkind : kind.isOpen = false ∧ kind.isClose = false ∧ kind ≠ .dot) (h : Sound words) :
    Sound (Word.sign kind :: words) :=
  h.cons hword ⟨hkind.1, hkind.2.1⟩ fun hdot => absurd hdot hkind.2.2

theorem name {name : String} (hname : IsName name) (h : Sound words) :
    Sound (ofName name :: words) := by
  refine h.cons hname ?_ fun hdot => absurd hdot (ofName_ne rfl name)
  have hkind := isName_ofName name
  cases h : (ofName name).kind <;> simp_all [TokenKind.isName, TokenKind.isOpen, TokenKind.isClose]

/-- A group of words. -/
theorem group {opening closing : TokenKind} (hopening : (Word.sign opening).IsWhole)
    (hopen : opening.isOpen = true) (hclosing : (Word.sign closing).IsWhole)
    (hclose : closing.isClose = true) (h : Sound words) :
    Sound (Word.sign opening :: (words ++ [Word.sign closing])) where
  whole := List.forall_mem_cons.2 ⟨hopening, List.forall_mem_append.2
    ⟨h.whole, List.forall_mem_singleton.2 hclosing⟩⟩
  nests lexemes hmap := by
    obtain ⟨lexeme, lexemes, rfl, hlexeme, hmap⟩ := List.map_eq_cons_iff.1 hmap
    obtain ⟨xs, ys, rfl, hxs, hys⟩ := List.map_eq_append_iff.1 hmap
    obtain ⟨last, rfl, hlast⟩ := List.map_eq_singleton_iff.1 hys
    have hopen' : lexeme.kind = opening := congrArg Word.kind hlexeme
    have hclose' : last.kind = closing := congrArg Word.kind hlast
    exact .opening (hopen' ▸ hopen) ((h.nests xs hxs).inside.append (.closing (hclose' ▸ hclose) .nil))

theorem separated {separator : TokenKind} (hword : (Word.sign separator).IsWhole)
    (hkind : separator.isOpen = false ∧ separator.isClose = false ∧ separator ≠ .dot) :
    ∀ {items : List (List Word)}, (∀ item ∈ items, Sound item) → Sound (Word.separated separator items)
  | [], _ => .nil
  | [_], h => List.forall_mem_singleton.1 h
  | _ :: _ :: _, h => by
    obtain ⟨hitem, hitems⟩ := List.forall_mem_cons.1 h
    exact hitem.append ((separated hword hkind hitems).sign hword hkind)

theorem entityName {name : EntityName} (h : ∀ part ∈ name.parts, IsName part.name) :
    Sound (ofEntityName name) := by
  obtain ⟨first, rest, span⟩ := name
  obtain ⟨hfirst, hrest⟩ := List.forall_mem_cons.1 h
  refine .name hfirst ?_
  show Sound (ofParts rest)
  clear h hfirst
  induction rest with
  | nil => exact .nil
  | cons part rest ih =>
    obtain ⟨hpart, hrest⟩ := List.forall_mem_cons.1 hrest
    exact .cons (by decide) (by decide) (fun _ => List.cons_ne_nil _ _) ((ih hrest).name hpart)

end Word.Sound

section Names

variable {c : Cursor} {after : List Word}

theorem resembles_ident {ident : Ident} {written : Ident} (h : ident.name = written.name) :
    Resembles ident written := by
  obtain ⟨name, span⟩ := ident
  obtain ⟨name', span'⟩ := written
  obtain rfl : name = name' := h
  rfl

theorem obtains_ident (ident : Ident) (hc : c.Stands layout (Word.ofName ident.name :: after)) :
    Obtains layout Parse.ident c after (Resembles · ident) := by
  obtain ⟨lexeme, lexemes, hrest, hword, -⟩ := hc.rest
  have hname : lexeme.kind.isName = true := by
    have hkind : lexeme.kind = (Word.ofName ident.name).kind := congrArg Word.kind hword
    rw [hkind]
    exact Word.isName_ofName _
  have htext : lexeme.text = ident.name.toList := congrArg Word.text hword
  refine ⟨_, _, ident_of_isName hrest hname, resembles_ident ?_, hc.next, c.errors_next⟩
  show String.ofList lexeme.text = ident.name
  rw [htext, String.ofList_toList]

theorem obtains_propertyName {name : String} (hc : c.Stands layout (Word.ofName name :: after)) :
    Obtains layout propertyName c after (·.name = name) := by
  obtain ⟨lexeme, lexemes, hrest, hword, -⟩ := hc.rest
  have hname : lexeme.kind.isName = true := by
    have hkind : lexeme.kind = (Word.ofName name).kind := congrArg Word.kind hword
    rw [hkind]
    exact Word.isName_ofName name
  have hident : propertyName c = Parse.ident c := by
    have hpeek : c.peek? 0 = some lexeme := by rw [Cursor.peek?, hrest]; rfl
    unfold propertyName
    rw [bind_of_ok (rfl : cursor c = .ok c c), hpeek]
    dsimp only
    cases hkind : lexeme.kind with
    | identifier | keyword word => rfl
    | _ => simp [hkind, TokenKind.isName] at hname
  obtain ⟨ident, d, hrun, hident', hd⟩ := obtains_ident ⟨name, ⟨0, 0⟩⟩ hc
  exact ⟨ident, d, hident.trans hrun, congrArg Ident.name hident', hd⟩

/-- The parts after the first. -/
theorem obtains_parts : ∀ {parts read : List Ident} {written : List Ident} {c : Cursor},
    Resembles read written →
    c.Stands layout (Word.ofParts parts ++ after) →
    (∀ word ∈ after.head?, word.kind ≠ .dot) →
    Obtains layout (repeatFrom (fun parts => do
      if ← eat .dot then return .inl (parts ++ [← Parse.ident])
      else return .inr parts) read) c after (Resembles · (written ++ parts))
  | [], read, written, c, hread, hc, hafter => by
    rw [List.append_nil]
    refine .last (.missed hc ?_ fun d hd => .pure hd ⟨read, rfl, hread⟩)
    cases after with
    | nil => rw [Cursor.kind, hc.kindAt]; decide
    | cons word after => exact hc.kind ▸ hafter word rfl
  | part :: parts, read, written, c, hread, hc, hafter => by
    refine .more (Resembles · (written ++ [part])) (Word.ofParts parts ++ after) hc
      (by simp only [Word.ofParts, List.cons_append, List.length_cons]; omega)
      (.eaten hc rfl fun d hd => ?_) fun read d hread hd => ?_
    · exact (obtains_ident part hd).bind fun ident d hident hd =>
        .pure hd ⟨_, rfl, hread.concat hident⟩
    · have hparts := obtains_parts hread hd hafter
      rwa [List.append_assoc] at hparts

theorem obtains_entityName {name : EntityName} (hc : c.Stands layout (Word.ofEntityName name ++ after))
    (hafter : ∀ word ∈ after.head?, word.kind ≠ .dot) :
    Obtains layout entityName c after (Resembles · name) := by
  obtain ⟨first, rest, span⟩ := name
  unfold entityName
  refine .here ((obtains_ident first hc).bind fun first' d hfirst hd => ?_)
  have hparts := obtains_parts (.nil : Resembles ([] : List Ident) []) hd hafter
  refine hparts.bind fun rest' d hrest hd => ?_
  refine .placed fun span' => .pure hd ?_
  unfold Resembles Same at *
  rw [relocate_entityName, relocate_entityName, hfirst, hrest]
  rfl

end Names

section Items

variable {α : Type} [Relocatable α] {item : Parse α} {closing : TokenKind} {words : α → List Word}
  {c : Cursor} {after : List Word}

/-- The action reads an item as it was written, if a comma or the closing lexeme follows. -/
def ReadsItem (layout : Layout) (item : Parse α) (closing : TokenKind) (words : List Word)
    (written : α) : Prop :=
  ∀ ⦃c : Cursor⦄ ⦃word : Word⦄ ⦃after : List Word⦄, word.kind = .comma ∨ word.kind = closing →
    c.Stands layout (words ++ word :: after) → c.kind ≠ closing
      ∧ Obtains layout item c (word :: after) (Resembles · written)

theorem obtains_items (hclosing : closing ≠ .comma) : ∀ {items : List α},
    (∀ written ∈ items, ReadsItem layout item closing (words written) written) →
    ∀ {read written : List α} {c : Cursor}, Resembles read written →
    c.Stands layout (Word.separated .comma (items.map words) ++ .sign closing :: after) →
    Obtains layout (repeatFrom (fun items => do
      if ← eat closing then return .inr items
      let items := items ++ [← item]
      if ← eat closing then return .inr items
      expect .comma
      return .inl items) read) c after (Resembles · (written ++ items))
  | [], _, read, written, c, hread, hc => by
    rw [List.append_nil]
    exact .last (.eaten hc rfl fun d hd => .pure hd ⟨read, rfl, hread⟩)
  | [last], hitems, read, written, c, hread, hc => by
    obtain ⟨hkind, -⟩ := hitems last List.mem_cons_self (.inr rfl) hc
    refine .last (.missed hc hkind fun d hd => ?_)
    refine (hitems last List.mem_cons_self (.inr rfl) hd).2.bind fun value e hvalue he => ?_
    exact .eaten he rfl fun f hf => .pure hf ⟨_, rfl, hread.concat hvalue⟩
  | first :: next :: items, hitems, read, written, c, hread, hc => by
    obtain ⟨hfirst, hrest⟩ := List.forall_mem_cons.1 hitems
    rw [List.map_cons, List.map_cons, Word.separated, ← List.map_cons, List.append_assoc,
      List.cons_append] at hc
    let between := Word.separated .comma ((next :: items).map words) ++ .sign closing :: after
    refine .more (Resembles · (written ++ [first])) between hc
      (by simp only [between, List.length_append, List.length_cons]; omega) ?_ fun read d hread hd => ?_
    · refine .missed hc (hfirst (.inl rfl) hc).1 fun d hd => ?_
      refine (hfirst (.inl rfl) hd).2.bind fun value e hvalue he => ?_
      refine .missed he (he.kind ▸ hclosing.symm) fun f hf => .expect hf rfl fun g hg => ?_
      exact .pure hg ⟨_, rfl, hread.concat hvalue⟩
    · have hmore := obtains_items hclosing hrest hread hd
      rwa [List.append_assoc] at hmore

theorem obtains_enclosed {opening : TokenKind} (hclosing : closing ≠ .comma) {items : List α}
    (hitems : ∀ written ∈ items, ReadsItem layout item closing (words written) written)
    (hc : c.Stands layout
      (.sign opening :: (Word.separated .comma (items.map words) ++ .sign closing :: after))) :
    Obtains layout (enclosed opening item closing) c after (Resembles · items) :=
  .expect hc rfl fun _ hd => obtains_items hclosing hitems (.nil : Resembles ([] : List α) []) hd

/-- A value that may be missing, behind the lexeme that leads it. -/
theorem Obtains.optional {β : Type} {A : Parse α} {lead : TokenKind} {word : Word}
    {written : Option α} {f : Option α → Parse β} {Q : β → Prop} {following : List Word}
    (hc : c.Stands layout ((written.elim [] fun value => .sign lead :: words value) ++ word :: following))
    (hword : word.kind ≠ lead)
    (hA : ∀ value ∈ written, ∀ d : Cursor, d.Stands layout (words value ++ word :: following) →
      Obtains layout A d (word :: following) (Resembles · value))
    (hf : ∀ result d, Resembles result written → d.Stands layout (word :: following) →
      Obtains layout (f result) d after Q) :
    Obtains layout (eat lead >>= fun found => if found then some <$> A >>= f else Pure.pure none >>= f)
      c after Q := by
  cases written with
  | none => exact .missed hc (hc.kind ▸ hword) fun d hd => hf none d .none hd
  | some value =>
    refine .eaten hc rfl fun d hd => ?_
    exact ((hA value rfl d hd).map (Q := (Resembles · (some value))) fun _ h => h.some).bind hf

end Items

section Statements

variable {c : Cursor} {word : Word} {words : List Word} {Q : Statement → Prop}

/-- Words that are read as a statement to their end are a list of one statement. -/
theorem obtains_statements (hc : c.Stands layout (word :: words)) (hword : word.kind ≠ .endOfFile)
    (hstatement : ∀ d : Cursor, d.Stands layout (word :: words) →
      Obtains layout (statement? (statementsUntil .closeBrace)) d [] fun result =>
        ∃ statement, result = some statement ∧ Q statement) :
    Obtains layout (statementsUntil .endOfFile) c [] fun result =>
      ∃ statement, result = [statement] ∧ Q statement := by
  have hkind : c.kind ≠ .endOfFile := hc.kind ▸ hword
  obtain ⟨_, d, hrun, ⟨statement, rfl, hresult⟩, hd, herrors⟩ := hstatement _ (hc.expect [.endOfFile])
  have hend : d.kind = .endOfFile := hd.kindAt 0
  have hnil : d.rest = [] := List.map_eq_nil_iff.1 hd.words
  have hsize : d.size < c.size := by
    rw [hd.size, hc.size]
    exact Nat.succ_pos _
  refine ⟨[statement], d.next, ?_, ⟨statement, rfl, hresult⟩, ⟨?_, ?_⟩, ?_⟩
  · rw [statementsUntil_eq, repeatFrom_of_inl (statementStep_of_statement hkind hkind hrun) hsize,
      repeatFrom_of_inr (statementStep_of_closing hend)]
    rfl
  · rw [d.rest_next, hnil]
    rfl
  · rw [d.rest_next, hnil, List.tail_nil, ← hnil]
    exact hd.layout
  · rw [d.errors_next, herrors]
    rfl

/-- A text of such words is read so. -/
theorem parse_of_words (layout : Layout) {text : List Char} (hclean : HasNoMalformed text)
    (hwords : (lexemesOf text).map Lexeme.word = word :: words) (hlayout : layout.holds (lexemesOf text))
    (hword : word.kind ≠ .endOfFile)
    (hstatement : ∀ d : Cursor, d.Stands layout (word :: words) →
      Obtains layout (statement? (statementsUntil .closeBrace)) d [] fun result =>
        ∃ statement, result = some statement ∧ Q statement) :
    (Schema.parse text).errors = []
      ∧ ∃ statement, (Schema.parse text).statements = [statement] ∧ Q statement := by
  have hc : (Cursor.ofTokens (Token.tokenize text)).Stands layout (word :: words) := ⟨hwords, hlayout⟩
  obtain ⟨_, d, hrun, hresult, -, herrors⟩ := obtains_statements hc hword hstatement
  unfold Schema.parse
  rw [hrun]
  exact ⟨herrors.trans hclean.errors, hresult⟩

end Statements

end NodeFactory
