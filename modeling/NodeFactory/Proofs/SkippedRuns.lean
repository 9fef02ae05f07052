import NodeFactory.Proofs.Delimiters
import NodeFactory.Proofs.SchemaSpans

/-!
# Runs that are skipped

Of some statements, members and parameters nothing is kept but where they are: their lexemes are skipped
(`Outline.isSkipped`). An action that reports no error leads from the groups that are open to those that
its value says, and its delimiters match just if those of all skipped runs among its lexemes do (`Weaves`).
So it is for the elementary actions, and for what is made of such actions in sequence, by repetition and by
recursion.
-/

namespace NodeFactory

open Parse Text

namespace Outline

/-- A node of which nothing is kept: a statement or a member without parts, or a name that is empty. -/
def isSkipped : Outline → Bool
  | node (.statement _) _ parts | node (.member _) _ parts => parts.isEmpty
  | node (.ident name) _ _ => name == ""
  | _ => false

/-- The spans of nodes of which nothing is kept, also of those inside others. -/
def skippedIn (outlines : List Outline) : List Span :=
  ((allOf outlines).filter isSkipped).map span

@[simp] theorem skippedIn_nil : skippedIn [] = [] := rfl

@[simp] theorem skippedIn_append (outlines outlines' : List Outline) :
    skippedIn (outlines ++ outlines') = skippedIn outlines ++ skippedIn outlines' := by
  unfold skippedIn
  rw [allOf_append, List.filter_append, List.map_append]

theorem skippedIn_node (sort : NodeSort) (span : Span) (parts : List Outline) :
    skippedIn [node sort span parts]
      = if (node sort span parts).isSkipped then span :: skippedIn parts else skippedIn parts := by
  have hall : allOf [node sort span parts] = node sort span parts :: allOf parts := by
    rw [allOf, all, allOf, List.append_nil]
  unfold skippedIn
  rw [hall, List.filter_cons]
  split <;> rfl

theorem skippedIn_cons (outline : Outline) (outlines : List Outline) :
    skippedIn (outline :: outlines) = skippedIn [outline] ++ skippedIn outlines :=
  skippedIn_append [outline] outlines

end Outline

def TokenKind.isDelimiter (kind : TokenKind) : Bool := kind.isOpen || kind.isClose

theorem TokenKind.isDelimiter_of_isPlain {kind : TokenKind} (h : kind.isPlain = true) :
    kind.isDelimiter = false := by
  cases kind <;> first | rfl | cases h

/-- The tokens of a text that lie within a span. -/
def tokensWithin (text : List Char) (span : Span) : List Token :=
  (Token.tokenize text).filter fun token =>
    decide (span.start ≤ token.span.start) && decide (token.span.stop ≤ span.stop)

def lexemesWithin (text : List Char) (span : Span) : List Lexeme :=
  (lexemesOf text).filter fun lexeme =>
    decide (span.start ≤ lexeme.span.start) && decide (lexeme.span.stop ≤ span.stop)

section Spans

theorem matched_tokensWithin (text : List Char) (span : Span) :
    Matched ((tokensWithin text span).map Token.kind) ↔ Matched (kindsIn (lexemesWithin text span)) := by
  unfold Matched tokensWithin lexemesWithin
  rw [awaited_tokens]
  rfl

/-- A run of lexemes lies by itself within the span that it covers. -/
theorem lexemesWithin_of_covers {text : List Char} {before xs after : List Lexeme} {span : Span}
    (htext : lexemesOf text = before ++ (xs ++ after)) (hcovers : Covers span xs) :
    lexemesWithin text span = xs := by
  have horder := lexemes_inOrder text
  rw [htext, List.map_append, List.map_append] at horder
  obtain ⟨first, hfirst, hstart⟩ := hcovers.starts
  obtain ⟨last, hlast, hstop⟩ := hcovers.stops
  have hlast := List.mem_of_getLast? hlast
  let p : Lexeme → Bool := fun lexeme =>
    decide (span.start ≤ lexeme.span.start) && decide (lexeme.span.stop ≤ span.stop)
  have hbefore : before.filter p = [] := by
    refine List.filter_eq_nil_iff.2 fun lexeme hmem => ?_
    have hlt := horder.nonempty _ (List.mem_append_left _ (List.mem_map_of_mem hmem))
    have hle := horder.across (List.mem_map_of_mem hmem)
      (List.mem_append_left _ (List.mem_map_of_mem hfirst))
    simp only [p, Bool.and_eq_true, decide_eq_true_eq]
    omega
  have hafter : after.filter p = [] := by
    refine List.filter_eq_nil_iff.2 fun lexeme hmem => ?_
    have hlt := horder.right.right.nonempty _ (List.mem_map_of_mem hmem)
    have hle := horder.right.across (List.mem_map_of_mem hlast) (List.mem_map_of_mem hmem)
    simp only [p, Bool.and_eq_true, decide_eq_true_eq]
    omega
  have hself : xs.filter p = xs := by
    refine List.filter_eq_self.2 fun lexeme hmem => ?_
    simpa only [p, Bool.and_eq_true, decide_eq_true_eq] using hcovers.contains lexeme hmem
  unfold lexemesWithin
  rw [htext, List.filter_append, List.filter_append, hbefore, hafter, hself, List.nil_append,
    List.append_nil]

/-- The cursor has been reached from before the tokens of a text. -/
def Cursor.StandsIn (text : List Char) (c : Cursor) : Prop :=
  ∃ xs, (Cursor.ofTokens (Token.tokenize text)).Reads xs c

variable {text : List Char} {c d : Cursor} {xs : List Lexeme}

theorem Cursor.standsIn_ofTokens (text : List Char) : (Cursor.ofTokens (Token.tokenize text)).StandsIn text :=
  ⟨[], .nil _⟩

theorem Cursor.StandsIn.reads (h : c.StandsIn text) (hxs : c.Reads xs d) : d.StandsIn text := by
  obtain ⟨before, hbefore⟩ := h
  exact ⟨before ++ xs, hbefore.append hxs⟩

theorem Cursor.StandsIn.mem (h : c.StandsIn text) : ∀ lexeme ∈ c.rest, lexeme ∈ lexemesOf text := by
  obtain ⟨before, hbefore⟩ := h
  intro lexeme hmem
  have htext : lexemesOf text = before ++ c.rest := hbefore.rest
  rw [htext]
  exact List.mem_append_right _ hmem

/-- What has been read ends before what is next. -/
theorem Cursor.StandsIn.lastEnd_le (h : c.StandsIn text) : c.lastEnd ≤ c.start := by
  obtain ⟨before, hbefore⟩ := h
  have htext : lexemesOf text = before ++ c.rest := hbefore.rest
  have horder := lexemes_inOrder text
  rw [htext, List.map_append] at horder
  cases hrest : c.rest with
  | nil => simp [Cursor.start, Cursor.peek?, hrest]
  | cons lexeme lexemes =>
    have hstart : c.start = lexeme.span.start := by simp [Cursor.start, Cursor.peek?, hrest]
    rw [hstart]
    rcases List.eq_nil_or_concat before with rfl | ⟨init, last, rfl⟩
    · exact hbefore.lastEnd ▸ Nat.zero_le _
    · rw [List.concat_eq_append] at hbefore horder
      have hlast : c.lastEnd = last.span.stop := by
        rw [hbefore.lastEnd, List.foldl_append]
        rfl
      rw [hlast]
      refine horder.across (List.mem_map_of_mem ?_) (List.mem_map_of_mem ?_)
      · exact List.mem_append_right _ (List.mem_singleton_self last)
      · exact hrest ▸ List.mem_cons_self

/-- What is read lies by itself within the span from where it begins to where it ends. -/
theorem Cursor.StandsIn.lexemesWithin (h : c.StandsIn text) (hxs : c.Reads xs d) :
    lexemesWithin text ⟨c.start, max d.lastEnd c.start⟩ = xs := by
  have hle := h.lastEnd_le
  obtain ⟨before, hbefore⟩ := h
  have htext : lexemesOf text = before ++ (xs ++ d.rest) := hxs.rest ▸ hbefore.rest
  have horder := lexemes_inOrder text
  cases xs with
  | nil =>
    rw [hxs.lastEnd, List.foldl_nil, Nat.max_eq_right hle]
    refine List.filter_eq_nil_iff.2 fun lexeme hmem => ?_
    have hlt := horder.nonempty _ (List.mem_map_of_mem hmem)
    simp only [Bool.and_eq_true, decide_eq_true_eq]
    omega
  | cons first rest =>
    rw [htext, List.map_append, List.map_append] at horder
    rw [hxs.span]
    exact lexemesWithin_of_covers htext (covers_spanTo horder.right.left)

end Spans

section Runs

/-- Lexemes that lead from the groups that are open to those that are open behind them, unless nothing
follows, and that match if what lies within certain spans does. -/
structure Woven (text : List Char) (opened left : List TokenKind) (spans : List Span)
    (xs after : List Lexeme) : Prop where
  inner : ∀ outer, awaited (opened ++ outer) (kindsIn xs) = (awaited opened (kindsIn xs)).map (· ++ outer)
  stays : xs = [] → opened = left
  leads : after ≠ [] → ∀ closers, awaited opened (kindsIn xs) = some closers → closers = left
  matches_iff : awaited opened (kindsIn xs) = some left
    ↔ ∀ span ∈ spans, Matched (kindsIn (lexemesWithin text span))

variable {text : List Char} {opened between left : List TokenKind} {spans spans' : List Span}
  {xs ys after : List Lexeme} {lexeme : Lexeme}

theorem kindsIn_append (xs ys : List Lexeme) : kindsIn (xs ++ ys) = kindsIn xs ++ kindsIn ys :=
  List.map_append

theorem Woven.nil : Woven text opened opened [] [] after :=
  ⟨fun _ => rfl, fun _ => rfl, fun _ _ h => (Option.some.inj h).symm, iff_of_true rfl nofun⟩

theorem Woven.append (h : Woven text opened between spans xs (ys ++ after))
    (h' : Woven text between left spans' ys after) :
    Woven text opened left (spans ++ spans') (xs ++ ys) after := by
  -- If something follows the first run, it leads to where the second begins.
  have hbetween : ∀ closers, awaited opened (kindsIn xs) = some closers →
      closers = between ∨ ys = [] ∧ after = [] := by
    intro closers hclosers
    by_cases hne : ys ++ after = []
    · exact .inr (List.append_eq_nil_iff.1 hne)
    · exact .inl (h.leads hne closers hclosers)
  refine ⟨fun outer => ?_, fun hnil => ?_, fun hne closers hclosers => ?_, ?_⟩
  · rw [kindsIn_append, awaited_append, awaited_append, h.inner]
    cases hclosers : awaited opened (kindsIn xs) with
    | none => rfl
    | some closers =>
      rcases hbetween closers hclosers with rfl | ⟨rfl, rfl⟩
      · exact h'.inner outer
      · rfl
  · obtain ⟨hxs, hys⟩ := List.append_eq_nil_iff.1 hnil
    exact (h.stays hxs).trans (h'.stays hys)
  · rw [kindsIn_append, awaited_append, Option.bind_eq_some_iff] at hclosers
    obtain ⟨closers', hclosers', hclosers⟩ := hclosers
    rcases hbetween closers' hclosers' with rfl | ⟨rfl, rfl⟩
    · exact h'.leads hne closers hclosers
    · exact absurd rfl hne
  · rw [List.forall_mem_append, ← h.matches_iff, ← h'.matches_iff, kindsIn_append, awaited_append,
      Option.bind_eq_some_iff]
    constructor
    · rintro ⟨closers, hclosers, hleft⟩
      rcases hbetween closers hclosers with rfl | ⟨rfl, rfl⟩
      · exact ⟨hclosers, hleft⟩
      · obtain rfl := h'.stays rfl
        obtain rfl : closers = between := Option.some.inj hleft
        exact ⟨hclosers, rfl⟩
    · exact fun h => ⟨between, h⟩

theorem Woven.plain (h : lexeme.kind.isDelimiter = false) :
    Woven text opened opened [] [lexeme] after := by
  have hplain : ∀ closers, awaited closers (kindsIn [lexeme]) = some closers := fun closers => by
    obtain ⟨hopen, hclose⟩ := Bool.or_eq_false_iff.1 h
    rw [awaited_lexeme, awaitedBehind_plain hopen hclose]
    rfl
  refine ⟨fun outer => by rw [hplain, hplain]; rfl, nofun, fun _ closers h => ?_,
    iff_of_true (hplain _) nofun⟩
  rw [hplain] at h
  exact (Option.some.inj h).symm

theorem Woven.opening {closing : TokenKind} (h : lexeme.kind.closing? = some closing) :
    Woven text opened (closing :: opened) [] [lexeme] after := by
  have hopening : ∀ closers, awaited closers (kindsIn [lexeme]) = some (closing :: closers) :=
    fun closers => by
      rw [awaited_lexeme, awaitedBehind_opening h]
      rfl
  refine ⟨fun outer => by rw [hopening, hopening]; rfl, nofun, fun _ closers h => ?_,
    iff_of_true (hopening _) nofun⟩
  rw [hopening] at h
  exact (Option.some.inj h).symm

theorem Woven.closing (h : lexeme.kind.isClose = true) :
    Woven text (lexeme.kind :: opened) opened [] [lexeme] after := by
  have hclosing : ∀ closers, awaited (lexeme.kind :: closers) (kindsIn [lexeme]) = some closers :=
    fun closers => by
      rw [awaited_lexeme, awaitedBehind_closing h]
      rfl
  refine ⟨fun outer => by rw [List.cons_append, hclosing, hclosing]; rfl, nofun, fun _ closers h => ?_,
    iff_of_true (hclosing _) nofun⟩
  rw [hclosing] at h
  exact (Option.some.inj h).symm

/-- Other groups may be open around. -/
theorem Woven.within (h : Woven text opened left spans xs after) (outer : List TokenKind) :
    Woven text (opened ++ outer) (left ++ outer) spans xs after := by
  refine ⟨fun outer' => ?_, fun hnil => by rw [h.stays hnil], fun hne closers hclosers => ?_, ?_⟩
  · rw [List.append_assoc, h.inner, h.inner, Option.map_map]
    refine congrArg (Option.map · _) (funext fun closers => ?_)
    exact (List.append_assoc _ _ _).symm
  · rw [h.inner, Option.map_eq_some_iff] at hclosers
    obtain ⟨closers', hclosers', rfl⟩ := hclosers
    rw [h.leads hne closers' hclosers']
  · rw [← h.matches_iff, h.inner, Option.map_eq_some_iff]
    constructor
    · rintro ⟨closers, hclosers, heq⟩
      rwa [List.append_cancel_right heq] at hclosers
    · exact fun hleft => ⟨left, hleft, rfl⟩

/-- A run that lies within a span tells by itself whether it matches. -/
theorem Woven.covered (h : Woven text [] [] spans xs after) {span : Span}
    (hspan : lexemesWithin text span = xs) : Woven text [] [] [span] xs after := by
  refine ⟨h.inner, h.stays, h.leads, ?_⟩
  rw [List.forall_mem_singleton, hspan]
  rfl

/-- A run that closes no group further out, and all that it opens if something follows. -/
theorem woven_of_inner (h : Inner 0 xs) (hdepth : after ≠ [] → depthOf xs = 0) {span : Span}
    (hspan : lexemesWithin text span = xs) : Woven text [] [] [span] xs after := by
  refine ⟨fun outer => h.awaited_append rfl outer, fun _ => rfl, fun hne closers hclosers => ?_, ?_⟩
  · have hlength := length_of_awaited hclosers
    rw [hdepth hne] at hlength
    exact List.eq_nil_of_length_eq_zero (by simpa using hlength)
  · rw [List.forall_mem_singleton, hspan]
    rfl

end Runs

section Combined

variable {α β : Type} {text : List Char} {opened : List TokenKind} {left : α → List TokenKind}
  {R : α → List Span → Prop} {S : β → List Span → Prop} {A : Parse α} {c : Cursor} {kind : TokenKind}

/-- While no errors are reported, an action leads from the groups that are open to those that its value
says. From its place in the text, its delimiters match if those within certain spans do. -/
def Weaves (text : List Char) (opened : List TokenKind) (left : α → List TokenKind)
    (R : α → List Span → Prop) (A : Parse α) (c : Cursor) : Prop :=
  ∀ value d, A c = .ok value d → d.errors = [] → c.errors = [] ∧ ∃ xs, c.Reads xs d
    ∧ (c.StandsIn text → ∃ spans, R value spans ∧ Woven text opened (left value) spans xs d.rest)

/-- The action leaves the same groups open, whichever they are. -/
def Balances (text : List Char) (R : α → List Span → Prop) (A : Parse α) (c : Cursor) : Prop :=
  ∀ opened, Weaves text opened (fun _ => opened) R A c

/-- The value has skipped nodes over the spans. -/
def Leaves [Outlined α] (value : α) (spans : List Span) : Prop :=
  Outline.skippedIn (outlines value) = spans

/-- Nothing is skipped. -/
def Plain (_ : α) (spans : List Span) : Prop := spans = []

theorem Weaves.pure {value : α} (hleft : left value = opened) (h : R value []) :
    Weaves text opened left R (pure value) c := by
  intro _ d hrun hclean
  cases hrun
  exact ⟨hclean, [], .nil c, fun _ => ⟨[], h, hleft ▸ .nil⟩⟩

/-- Nothing is added to the spans that there are. -/
theorem no_more {P : List Span → Prop} (base : List Span) (h : P base) : P (base ++ []) := by
  rwa [List.append_nil]

theorem Weaves.mono {R' : α → List Span → Prop} (h : Weaves text opened left R A c)
    (hR : ∀ value spans, R value spans → R' value spans) : Weaves text opened left R' A c := by
  intro value d hrun hclean
  obtain ⟨herrors, xs, hxs, hspans⟩ := h value d hrun hclean
  refine ⟨herrors, xs, hxs, fun hc => ?_⟩
  obtain ⟨spans, hvalue, hwoven⟩ := hspans hc
  exact ⟨spans, hR value spans hvalue, hwoven⟩

theorem Weaves.bind_of_run {B : α → Parse β} {left' : β → List TokenKind}
    (hA : Weaves text opened left R A c)
    (hB : ∀ value m, A c = .ok value m → Weaves text (left value) left'
      (fun result spans => ∀ spans', R value spans' → S result (spans' ++ spans)) (B value) m) :
    Weaves text opened left' S (A >>= B) c := by
  intro result d hrun hclean
  obtain ⟨value, m, hrunA, hrunB⟩ := bind_eq_ok_iff.1 hrun
  obtain ⟨hm, ys, hys, hspans'⟩ := hB value m hrunA result d hrunB hclean
  obtain ⟨herrors, xs, hxs, hspans⟩ := hA value m hrunA hm
  refine ⟨herrors, xs ++ ys, hxs.append hys, fun hc => ?_⟩
  obtain ⟨spans, hvalue, hwoven⟩ := hspans hc
  obtain ⟨spans', hresult, hwoven'⟩ := hspans' (hc.reads hxs)
  exact ⟨spans ++ spans', hresult spans hvalue, (hys.rest ▸ hwoven).append hwoven'⟩

theorem Weaves.bind {B : α → Parse β} {left' : β → List TokenKind} (hA : Weaves text opened left R A c)
    (hB : ∀ value m, Weaves text (left value) left'
      (fun result spans => ∀ spans', R value spans' → S result (spans' ++ spans)) (B value) m) :
    Weaves text opened left' S (A >>= B) c :=
  hA.bind_of_run fun value m _ => hB value m

/-- The first of two actions skips nothing. -/
theorem Weaves.seq_of_run {B : α → Parse β} {left' : β → List TokenKind}
    (hA : Weaves text opened left Plain A c)
    (hB : ∀ value m, A c = .ok value m → Weaves text (left value) left' S (B value) m) :
    Weaves text opened left' S (A >>= B) c := by
  refine hA.bind_of_run fun value m hrun => (hB value m hrun).mono fun result spans hresult => ?_
  rintro _ rfl
  exact hresult

theorem Weaves.seq {B : α → Parse β} {left' : β → List TokenKind}
    (hA : Weaves text opened left Plain A c)
    (hB : ∀ value m, Weaves text (left value) left' S (B value) m) :
    Weaves text opened left' S (A >>= B) c :=
  hA.seq_of_run fun value m _ => hB value m

/-- It does not matter which runs are skipped. -/
theorem Weaves.then {P : β → Prop} {B : α → Parse β} {left' : β → List TokenKind}
    (hA : Weaves text opened left R A c)
    (hB : ∀ value m, Weaves text (left value) left' (fun result _ => P result) (B value) m) :
    Weaves text opened left' (fun result _ => P result) (A >>= B) c :=
  hA.bind fun value m => (hB value m).mono fun _ _ h _ _ => h

theorem Weaves.map {f : α → β} (hA : Weaves text opened (fun _ => opened) R A c)
    (hf : ∀ value spans, R value spans → S (f value) spans) :
    Weaves text opened (fun _ => opened) S (f <$> A) c := by
  intro result d hrun hclean
  obtain ⟨value, hrunA, rfl⟩ := map_eq_ok_iff.1 hrun
  obtain ⟨herrors, xs, hxs, hspans⟩ := hA value d hrunA hclean
  refine ⟨herrors, xs, hxs, fun hc => ?_⟩
  obtain ⟨spans, hvalue, hwoven⟩ := hspans hc
  exact ⟨spans, hf value spans hvalue, hwoven⟩

theorem Weaves.discard (hA : Weaves text opened (fun _ => opened) R A c) :
    Weaves text opened (fun _ => opened) (fun _ _ => True) (discard A) c :=
  hA.map fun _ _ _ => trivial

theorem Weaves.ite {p : Prop} [Decidable p] {B : Parse α} (hA : p → Weaves text opened left R A c)
    (hB : ¬ p → Weaves text opened left R B c) : Weaves text opened left R (if p then A else B) c := by
  by_cases hp : p
  · rw [if_pos hp]
    exact hA hp
  · rw [if_neg hp]
    exact hB hp

theorem Weaves.here {f : Cursor → Parse α} (h : Weaves text opened left R (f c) c) :
    Weaves text opened left R (cursor >>= f) c := h

theorem Weaves.isAt {f : Bool → Parse α} (h : Weaves text opened left R (f (c.kind == kind)) c) :
    Weaves text opened left R (Parse.isAt kind >>= f) c := h

theorem Weaves.unexpected : Weaves text opened left R (Parse.unexpected : Parse α) c := by
  intro _ _ hrun
  cases hrun

/-- After an error is reported, nothing is said. -/
theorem Weaves.reported {f : Unit → Parse α} {error : ParseError}
    (hf : ∀ value d, f () (c.report error) = .ok value d → d.errors ≠ []) :
    Weaves text opened left R (report error >>= f) c :=
  fun value d hrun hclean => absurd hclean (hf value d hrun)

theorem Weaves.attempt {f : Except ParseError α → Parse β} {left' : β → List TokenKind}
    (hA : Weaves text opened left R A c)
    (hok : ∀ value m, Weaves text (left value) left'
      (fun result spans => ∀ spans', R value spans' → S result (spans' ++ spans)) (f (.ok value)) m)
    (herror : ∀ error m result d, f (.error error) m = .ok result d → d.errors ≠ []) :
    Weaves text opened left' S (Parse.outcome A >>= f) c := by
  intro result d hrun hclean
  cases hrunA : A c with
  | ok value m =>
    rw [bind_of_ok (outcome_of_ok hrunA)] at hrun
    exact hA.bind hok result d ((bind_of_ok hrunA).trans hrun) hclean
  | error error m =>
    rw [bind_of_ok (outcome_of_error hrunA)] at hrun
    exact absurd hclean (herror error m result d hrun)

/-- All that is read is skipped, and has the span. -/
theorem Weaves.covered {f : α → Span → β} (hA : Weaves text [] (fun _ => []) R A c)
    (hf : ∀ value place spans, R value spans → S (f value place) [place] ∨ S (f value place) spans) :
    Balances text S (A >>= fun value => spanFrom c.start >>= fun place => Pure.pure (f value place)) c := by
  intro opened result d hrun hclean
  obtain ⟨value, m, hrunA, hrunB⟩ := bind_eq_ok_iff.1 hrun
  cases hrunB
  obtain ⟨herrors, xs, hxs, hspans⟩ := hA value d hrunA hclean
  refine ⟨herrors, xs, hxs, fun hc => ?_⟩
  obtain ⟨spans, hvalue, hwoven⟩ := hspans hc
  have hspan := hc.lexemesWithin hxs
  rcases hf value ⟨c.start, max d.lastEnd c.start⟩ spans hvalue with hresult | hresult
  · exact ⟨_, hresult, (hwoven.covered hspan).within opened⟩
  · exact ⟨_, hresult, hwoven.within opened⟩

end Combined

section Elementary

variable {α β : Type} {text : List Char} {opened : List TokenKind} {left : α → List TokenKind}
  {R : α → List Span → Prop} {c : Cursor} {kind closing : TokenKind}

/-- The lexemes that are read are known where an action comes to a value without an error. -/
theorem weaves_of_ok {A : Parse α} {value : α} {d : Cursor} {xs : List Lexeme} (hrun : A c = .ok value d)
    (hxs : c.Reads xs d) (herrors : d.errors = c.errors)
    (hwoven : c.StandsIn text → ∃ spans, R value spans ∧ Woven text opened (left value) spans xs d.rest) :
    Weaves text opened left R A c := by
  intro value' d' hrun' hclean
  rw [hrun] at hrun'
  cases hrun'
  exact ⟨herrors ▸ hclean, xs, hxs, hwoven⟩

theorem weaves_of_error {A : Parse α} {error : ParseError} {d : Cursor} (hrun : A c = .error error d) :
    Weaves text opened left R A c := by
  intro value' d' hrun'
  rw [hrun] at hrun'
  cases hrun'

/-- One lexeme that is no delimiter, in a text. -/
theorem next_balances_of_text (h : c.StandsIn text → c.kind.isDelimiter = false) :
    Balances text Plain next c := by
  intro opened
  cases hrest : c.rest with
  | nil =>
    exact weaves_of_ok rfl (Cursor.reads_next_of_nil hrest) c.errors_next fun _ => ⟨[], rfl, .nil⟩
  | cons lexeme lexemes =>
    rw [Cursor.kind_of_cons hrest] at h
    exact weaves_of_ok rfl (Cursor.reads_next hrest) c.errors_next fun hc => ⟨[], rfl, .plain (h hc)⟩

theorem next_balances (h : c.kind.isDelimiter = false) : Balances text Plain next c :=
  next_balances_of_text fun _ => h

theorem skip_balances : ∀ {n : Nat} {c : Cursor}, (∀ i < n, (c.kindAt i).isDelimiter = false) →
    Balances text Plain (skip n) c
  | 0, _, _, _ => .pure rfl rfl
  | n + 1, c, h, opened => by
    show Weaves text opened _ _ (next >>= fun _ => skip n) c
    refine (next_balances (h 0 (Nat.succ_pos n)) opened).seq_of_run fun _ m hrun => ?_
    cases hrun
    refine skip_balances (fun i hi => ?_) opened
    rw [Cursor.kindAt_next]
    exact h (i + 1) (Nat.succ_lt_succ hi)

theorem next_opens (h : c.kind.closing? = some closing) :
    Weaves text opened (fun _ => closing :: opened) Plain next c := by
  obtain ⟨lexeme, hrest, hkind⟩ := Cursor.rest_of_kind (fun hend => by rw [hend] at h; cases h)
  exact weaves_of_ok rfl (Cursor.reads_next hrest) c.errors_next
    fun _ => ⟨[], rfl, .opening (hkind ▸ h)⟩

theorem next_closes_group (h : c.kind.isClose = true) :
    Weaves text (c.kind :: opened) (fun _ => opened) Plain next c := by
  obtain ⟨lexeme, hrest, hkind⟩ := Cursor.rest_of_kind (fun hend => by rw [hend] at h; cases h)
  rw [← hkind] at h ⊢
  exact weaves_of_ok rfl (Cursor.reads_next hrest) c.errors_next fun _ => ⟨[], rfl, .closing h⟩

/-- A lexeme that may be missing leaves the groups as they are where it is. -/
theorem eat_weaves {read : List TokenKind}
    (h : c.kind = kind → Weaves text opened (fun _ => read) Plain next c) :
    Weaves text opened (fun found => if found then read else opened) Plain (eat kind) c := by
  by_cases hkind : c.kind = kind
  · intro found d hrun hclean
    rw [eat_of_kind hkind] at hrun
    cases hrun
    exact h hkind () c.next rfl hclean
  · exact weaves_of_ok (eat_of_ne hkind) (c.reads_expect _) rfl fun _ => ⟨[], rfl, .nil⟩

theorem expect_weaves {read : List TokenKind}
    (h : c.kind = kind → Weaves text opened (fun _ => read) Plain next c) :
    Weaves text opened (fun _ => read) Plain (expect kind) c := by
  refine (eat_weaves h).seq fun found m => ?_
  cases found
  · exact .unexpected
  · exact .pure rfl rfl

theorem eat_balances (h : kind.isDelimiter = false) : Balances text Plain (eat kind) c := by
  intro opened
  have hweaves : Weaves text opened (fun found => if found then opened else opened) Plain (eat kind) c :=
    eat_weaves fun hkind => next_balances (hkind ▸ h) opened
  simpa only [ite_self] using hweaves

theorem discard_eat_balances (h : kind.isDelimiter = false) : Balances text Plain (discard (eat kind)) c :=
  fun opened => (eat_balances h opened).map fun _ _ h => h

theorem expect_balances (h : kind.isDelimiter = false) : Balances text Plain (expect kind) c :=
  fun opened => expect_weaves fun hkind => next_balances (hkind ▸ h) opened

theorem expect_opens (h : kind.closing? = some closing) :
    Weaves text opened (fun _ => closing :: opened) Plain (expect kind) c :=
  expect_weaves fun hkind => next_opens (hkind ▸ h)

theorem expect_closes_group (h : kind.isClose = true) :
    Weaves text (kind :: opened) (fun _ => opened) Plain (expect kind) c :=
  expect_weaves fun hkind => hkind ▸ next_closes_group (hkind ▸ h)

theorem eat_closes_group (h : kind.isClose = true) : Weaves text (kind :: opened)
    (fun found => if found then opened else kind :: opened) Plain (eat kind) c :=
  eat_weaves fun hkind => hkind ▸ next_closes_group (hkind ▸ h)

theorem Weaves.eat {f : Bool → Parse α} (h : kind.isDelimiter = false)
    (hf : ∀ found m, Weaves text opened left R (f found) m) :
    Weaves text opened left R (Parse.eat kind >>= f) c :=
  (eat_balances h opened).seq hf

/-- The lexeme that closes the innermost group may be missing. -/
theorem Weaves.eatClosing {f : Bool → Parse α} (h : kind.isClose = true)
    (htrue : ∀ m, Weaves text opened left R (f true) m)
    (hfalse : ∀ m, Weaves text (kind :: opened) left R (f false) m) :
    Weaves text (kind :: opened) left R (Parse.eat kind >>= f) c := by
  refine (eat_closes_group h).seq fun found m => ?_
  cases found
  · exact hfalse m
  · exact htrue m

/-- A value after a lexeme that may be missing. -/
theorem Weaves.optional [Outlined β] {A : Parse β} {f : Option β → Parse α}
    (h : kind.isDelimiter = false) (hA : ∀ m, Balances text Leaves A m)
    (hf : ∀ value m, Weaves text opened left
      (fun result spans => ∀ spans', Leaves value spans' → R result (spans' ++ spans)) (f value) m) :
    Weaves text opened left R
      (Parse.eat kind >>= fun found => if found then some <$> A >>= f else Pure.pure none >>= f) c := by
  refine .eat h fun found m => .ite (fun _ => ?_) fun _ => ?_
  · have hsome : Weaves text opened (fun _ => opened) Leaves (some <$> A) m :=
      (hA m opened).map fun value _ h => by
        unfold Leaves at h ⊢
        rwa [outlines_some]
    exact hsome.bind hf
  · have hnone : Weaves text opened (fun _ => opened) Leaves (Pure.pure none : Parse (Option β)) m :=
      .pure rfl rfl
    exact hnone.bind hf

theorem spanFrom_balances (start : Nat) : Balances text Plain (spanFrom start) c := fun _ =>
  weaves_of_ok rfl (.nil c) rfl fun _ => ⟨[], rfl, .nil⟩

/-- A run that closes no group further out is skipped. -/
theorem weaves_of_inner {A : Parse α} {value : α} {d : Cursor} {xs : List Lexeme} (hrun : A c = .ok value d)
    (hxs : c.Reads xs d) (herrors : d.errors = c.errors) (hinner : Inner 0 xs)
    (hdepth : d.rest ≠ [] → depthOf xs = 0) :
    Weaves text [] (fun _ => []) (fun _ _ => True) A c :=
  weaves_of_ok hrun hxs herrors fun hc =>
    ⟨_, trivial, woven_of_inner hinner hdepth (hc.lexemesWithin hxs)⟩

theorem skipGroup_weaves (hopen : kind.isOpen = true) :
    Weaves text [] (fun _ => []) (fun _ _ => True) (skipGroup kind) c := by
  have hhere : cursor c.next = .ok c.next c.next := rfl
  by_cases hkind : c.kind = kind
  · have hend : c.kind ≠ .endOfFile := by
      intro hend
      rw [← hkind, hend] at hopen
      cases hopen
    obtain ⟨lexeme, hrest, hlexeme⟩ := Cursor.rest_of_kind hend
    have hexpect := expect_of_kind hkind
    cases hlength : groupLength? 1 c.next.rest with
    | none =>
      have hrun : skipGroup kind c = .error (c.next.skip c.next.rest.length).unexpected
          (c.next.skip c.next.rest.length) := by
        unfold skipGroup
        rw [bind_of_ok hexpect, bind_of_ok hhere, hlength]
        rfl
      exact weaves_of_error hrun
    | some n =>
      have hrun : skipGroup kind c = .ok () (c.next.skip n) := by
        unfold skipGroup
        rw [bind_of_ok hexpect, bind_of_ok hhere, hlength]
        rfl
      obtain ⟨hle, hnests⟩ := nests_of_groupLength? hlength
      have hgroup : Nests 0 0 ([lexeme] ++ c.next.rest.take n) :=
        .opening (by rwa [hlexeme, hkind]) hnests
      have hdepth := hgroup.depthOf_eq
      exact weaves_of_inner hrun ((Cursor.reads_next hrest).append (Cursor.reads_skip hle))
        ((c.next.errors_skip n).trans c.errors_next) hgroup.inner fun _ => by omega
  · have hrun : skipGroup kind c = .error (c.expect [kind]).unexpected (c.expect [kind]) := by
      unfold skipGroup
      exact bind_of_error (expect_of_ne hkind)
    exact weaves_of_error hrun

theorem skipBalanced_weaves : Weaves text [] (fun _ => []) (fun _ _ => True) skipBalanced c := by
  have hle := balancedLength_le 0 c.rest
  have hrun : skipBalanced c = .ok () (c.skip (balancedLength 0 c.rest)) := rfl
  refine weaves_of_inner hrun (Cursor.reads_skip hle) (c.errors_skip _) (inner_balancedRun 0 c.rest)
    fun hne => ?_
  have hlt : balancedLength 0 c.rest < c.rest.length := by
    rw [Cursor.rest_skip, ne_eq, List.drop_eq_nil_iff] at hne
    omega
  have hdepth := depthOf_take_balancedLength hlt
  omega

end Elementary

section Repeated

variable {ι σ α : Type} {text : List Char}

/-- An action that calls itself at some places of a grammar leads out of groups, if it does so where its
calls at these places do. -/
theorem fix_weaves {κ : Type} {e : κ → ι} {K : κ → List TokenKind} {R : κ → α → List Span → Prop}
    {body : (ι → Parse α) → ι → Parse α}
    (hbody : ∀ call : ι → Parse α,
      (∀ i m outer, Weaves text (K i ++ outer) (fun _ => outer) (R i) (call (e i)) m) →
        ∀ i m outer, Weaves text (K i ++ outer) (fun _ => outer) (R i) (body call (e i)) m)
    (i : κ) (c : Cursor) (outer : List TokenKind) :
    Weaves text (K i ++ outer) (fun _ => outer) (R i) (fix body (e i)) c := by
  generalize hn : c.size = n
  induction n using Nat.strongRecOn generalizing i c outer with
  | ind n ih =>
    intro value d hrun hclean
    rw [fix_eq] at hrun
    refine hbody (fun j => below c.size (fix body j)) (fun j m outer value d hcall hclean => ?_)
      i c outer value d hrun hclean
    by_cases hlt : m.size < c.size
    · rw [below_of_lt hlt] at hcall
      exact ih m.size (hn ▸ hlt) j m outer rfl value d hcall hclean
    · rw [below_of_not_lt hlt] at hcall
      cases hcall

section Collected

variable {opened outer : List TokenKind} {P : σ → List Span → Prop} {R : α → List Span → Prop}
  {step : σ → Parse (σ ⊕ α)}
  (hstep : ∀ state c, Weaves text opened (Sum.elim (fun _ => opened) fun _ => outer)
    (fun result spans => ∀ base, P state base → Sum.elim P R result (base ++ spans)) (step state) c)
include hstep

/-- A repetition adds the spans of its steps to those that go with the state from which it starts. -/
theorem repeatFrom_collects (state : σ) (c : Cursor) : Weaves text opened (fun _ => outer)
    (fun value spans => ∀ base, P state base → R value (base ++ spans)) (repeatFrom step state) c := by
  intro value d hrun hclean
  refine repeatFrom_induction (motive := fun state c => c.errors = [] ∧ ∃ xs, c.Reads xs d
    ∧ (c.StandsIn text → ∃ spans, (∀ base, P state base → R value (base ++ spans))
      ∧ Woven text opened outer spans xs d.rest)) ?_ ?_ hrun
  · exact fun state c hrun => hstep state c _ d hrun hclean
  · rintro state c state' m hrun - - ⟨hm, ys, hys, hspans'⟩
    obtain ⟨herrors, xs, hxs, hspans⟩ := hstep state c _ m hrun hm
    refine ⟨herrors, xs ++ ys, hxs.append hys, fun hc => ?_⟩
    obtain ⟨spans, hstate', hwoven⟩ := hspans hc
    obtain ⟨spans', hvalue, hwoven'⟩ := hspans' (hc.reads hxs)
    refine ⟨spans ++ spans', fun base hbase => ?_, (hys.rest ▸ hwoven).append hwoven'⟩
    rw [← List.append_assoc]
    exact hvalue _ (hstate' base hbase)

theorem repeatFrom_weaves {state : σ} (hstate : P state []) (c : Cursor) :
    Weaves text opened (fun _ => outer) R (repeatFrom step state) c :=
  (repeatFrom_collects hstep state c).mono fun _ _ h => h [] hstate

end Collected

theorem leaves_nil [Outlined α] : Leaves ([] : List α) [] := rfl

theorem leaves_append [Outlined α] {items more : List α} (spans : List Span) (hmore : Leaves more spans)
    (base : List Span) (hitems : Leaves items base) : Leaves (items ++ more) (base ++ (spans ++ [])) := by
  unfold Leaves at hitems hmore ⊢
  rw [outlines_append, Outline.skippedIn_append, hitems, hmore, List.append_nil]

/-- With one more item, the skipped nodes are those before and its own. -/
theorem leaves_more [Outlined α] {items : List α} {item : α} (spans : List Span) (hitem : Leaves item spans)
    (base : List Span) (hitems : Leaves items base) : Leaves (items ++ [item]) (base ++ (spans ++ [])) := by
  refine leaves_append spans ?_ base hitems
  unfold Leaves at hitem ⊢
  rwa [outlines_cons, outlines_nil, List.append_nil]

theorem separated_weaves [Outlined α] {item : Parse α} (hitem : ∀ c, Balances text Leaves item c)
    (c : Cursor) : Balances text Leaves (separated item) c := by
  intro opened
  unfold separated
  refine repeatFrom_weaves (P := Leaves) (fun items c => ?_) leaves_nil c
  refine (hitem c opened).bind fun item m => .eat rfl fun found m => ?_
  cases found <;> exact .pure rfl leaves_more

/-- Items between lexemes of which the first opens groups and the last closes them, if they do. -/
theorem enclosed_collects [Outlined α] {opening closing : TokenKind} {opened inside : List TokenKind}
    {item : Parse α} (hopening : ∀ c, Weaves text opened (fun _ => inside) Plain (expect opening) c)
    (hclosing : ∀ c, Weaves text inside (fun found => if found then opened else inside) Plain (eat closing) c)
    (hitem : ∀ c, Balances text Leaves item c) (c : Cursor) :
    Weaves text opened (fun _ => opened) Leaves (enclosed opening item closing) c := by
  unfold enclosed
  refine (hopening c).seq fun _ m => ?_
  refine repeatFrom_weaves (P := Leaves) (fun items c => ?_) leaves_nil m
  refine (hclosing c).seq fun found m => ?_
  cases found
  · refine (hitem m inside).bind fun item m => (hclosing m).seq fun found m => ?_
    cases found
    · exact (expect_balances rfl inside).seq fun _ m => .pure rfl leaves_more
    · exact .pure rfl leaves_more
  · exact .pure rfl no_more

theorem enclosed_weaves [Outlined α] {opening closing : TokenKind} {item : Parse α}
    (hopening : opening.closing? = some closing) (hitem : ∀ c, Balances text Leaves item c) (c : Cursor) :
    Balances text Leaves (enclosed opening item closing) c := fun _ =>
  enclosed_collects (fun _ => expect_opens hopening)
    (fun _ => eat_closes_group (TokenKind.isClose_of_closing hopening)) hitem c

/-- Between angle brackets there is no group. -/
theorem angled_weaves [Outlined α] {item : Parse α} (hitem : ∀ c, Balances text Leaves item c) (c : Cursor) :
    Balances text Leaves (enclosed .less item .greater) c := fun opened =>
  enclosed_collects (fun _ => expect_balances rfl opened)
    (fun _ => eat_weaves fun hkind => next_balances (hkind ▸ rfl) opened) hitem c

end Repeated

end NodeFactory
