import NodeFactory.Proofs.BalancedRuns
import NodeFactory.Proofs.NodePlaces
import NodeFactory.Proofs.Sequels

/-!
# Lexemes that an action takes

An action takes lexemes from those that are left, whether it ends with a value or fails, and what value
it gives goes with the lexemes it has taken (`Takes`). So it is for the elementary actions, and for what
is made of such actions in sequence, by repetition and by recursion. A repetition takes a lexeme with
every step but the last, and an action that calls itself takes one before each call, so the limit that
is set to its calls is never met (`fix_unlimited`).

What is behind the lexemes makes no difference to an action that reports no error and does not take the
last of them.
-/

namespace NodeFactory

open Parse Text

theorem Cursor.Reads.nil (c : Cursor) : c.Reads [] c := ⟨rfl, rfl⟩

theorem Cursor.reads_expect (c : Cursor) (kinds : List TokenKind) : c.Reads [] (c.expect kinds) :=
  ⟨rfl, rfl⟩

theorem Cursor.reads_next_of_nil {c : Cursor} (h : c.rest = []) : c.Reads [] c.next := by
  rw [next_of_nil h]
  exact ⟨rfl, rfl⟩

namespace Cursor.Reads

variable {c d : Cursor} {xs : List Lexeme}

theorem size_le (h : c.Reads xs d) : d.size ≤ c.size := by
  have := h.size_eq
  omega

theorem size_lt (h : c.Reads xs d) (hne : xs ≠ []) : d.size < c.size := by
  have hsize := h.size_eq
  have := List.length_pos_iff.2 hne
  omega

theorem kind_eq (h : c.Reads [] d) : d.kind = c.kind := by
  rw [kind, kindAt, peek?, kind, kindAt, peek?, h.rest, List.nil_append]

theorem rest_ne_nil (h : c.Reads xs d) (hne : d.rest ≠ []) : c.rest ≠ [] := by
  rw [h.rest]
  exact List.append_ne_nil_of_right_ne_nil _ hne

theorem ended (h : c.Reads xs d) (hended : Ended c.rest) : Ended d.rest := by
  rw [h.rest] at hended
  exact hended.of_append

variable {first : Lexeme} {rest : List Lexeme}

/-- What is spanned from where lexemes begin to where they end. -/
theorem span (h : c.Reads (first :: rest) d) :
    (⟨c.start, max d.lastEnd c.start⟩ : Span) = first.spanTo rest := by
  have hstart : c.start = first.span.start := by
    rw [Cursor.start, Cursor.peek?, h.rest]
    rfl
  rw [hstart, h.lastEnd]
  rfl

theorem comments (h : c.Reads (first :: rest) d) : c.comments = first.comments := by
  rw [Cursor.comments, Cursor.peek?, h.rest]
  rfl

end Cursor.Reads

section Combined

variable {α β : Type} {s : Sequel} {R R' : α → List Lexeme → Prop} {S : β → List Lexeme → Prop}
  {A A' : Parse α} {c : Cursor}

/-- An action has come to a value with lexemes that it has taken. Its counterpart comes to the same
where other lexemes are behind those. -/
structure Took (s : Sequel) (R : α → List Lexeme → Prop) (A' : Parse α) (c : Cursor) (value : α)
    (d : Cursor) (xs : List Lexeme) : Prop where
  reads : c.Reads xs d
  related : R value xs
  errors : d.errors = [] → c.errors = []
  steady : d.errors = [] → d.rest ≠ [] → Ended c.rest → A' (c.extend s) = .ok value (d.extend s)

/-- From where it stands an action takes lexemes, and its value stands in a relation to them. The
counterpart of the action, whose calls may be limited otherwise, does the same. -/
structure Takes (s : Sequel) (R : α → List Lexeme → Prop) (A A' : Parse α) (c : Cursor) : Prop where
  same : A' c = A c
  ok : ∀ value d, A c = .ok value d → ∃ xs, Took s R A' c value d xs
  error : ∀ error d, A c = .error error d → ∃ xs, c.Reads xs d

theorem Takes.congr {B B' : Parse α} (h : Takes s R B B' c) (hA : A c = B c) (hA' : A' c = B' c)
    (hextend : A' (c.extend s) = B' (c.extend s)) : Takes s R A A' c where
  same := by rw [hA', h.same, hA]
  ok value d hrun := by
    obtain ⟨xs, htook⟩ := h.ok value d (hA ▸ hrun)
    exact ⟨xs, htook.reads, htook.related, htook.errors, hextend ▸ htook.steady⟩
  error error d hrun := h.error error d (hA ▸ hrun)

theorem takes_of_ok {value : α} {d : Cursor} {xs : List Lexeme} (hrun : A c = .ok value d)
    (hsame : A' c = A c) (hxs : c.Reads xs d) (h : R value xs) (herrors : d.errors = c.errors)
    (hsteady : c.errors = [] → d.rest ≠ [] → Ended c.rest →
      A' (c.extend s) = .ok value (d.extend s)) : Takes s R A A' c where
  same := hsame
  ok value' d' hrun' := by
    rw [hrun] at hrun'
    cases hrun'
    exact ⟨xs, hxs, h, fun hclean => herrors ▸ hclean, fun hclean => hsteady (herrors ▸ hclean)⟩
  error _ _ hrun' := by
    rw [hrun] at hrun'
    cases hrun'

theorem takes_of_error {error : ParseError} {d : Cursor} {xs : List Lexeme}
    (hrun : A c = .error error d) (hsame : A' c = A c) (hxs : c.Reads xs d) : Takes s R A A' c where
  same := hsame
  ok _ _ hrun' := by
    rw [hrun] at hrun'
    cases hrun'
  error _ _ hrun' := by
    rw [hrun] at hrun'
    cases hrun'
    exact ⟨xs, hxs⟩

theorem Takes.pure {value : α} (h : R value []) : Takes s R (pure value) (pure value) c :=
  takes_of_ok rfl rfl (.nil c) h rfl fun _ _ _ => rfl

theorem Takes.mono (h : Takes s R A A' c) (hR : ∀ value xs, R value xs → R' value xs) :
    Takes s R' A A' c where
  same := h.same
  ok value d hrun := by
    obtain ⟨xs, htook⟩ := h.ok value d hrun
    exact ⟨xs, htook.reads, hR value xs htook.related, htook.errors, htook.steady⟩
  error := h.error

/-- Of two actions one after the other the second takes what is left by the first. -/
theorem Takes.bind {B B' : α → Parse β} (hA : Takes s R A A' c)
    (hB : ∀ value m xs, c.Reads xs m → R value xs →
      Takes s (fun result ys => S result (xs ++ ys)) (B value) (B' value) m) :
    Takes s S (A >>= B) (A' >>= B') c := by
  have hsame := hA.same
  cases hrun : A c with
  | ok value m =>
    obtain ⟨xs, htook⟩ := hA.ok value m hrun
    have htakes := hB value m xs htook.reads htook.related
    have hbind := bind_of_ok (B := B) hrun
    have hbind' := bind_of_ok (B := B') (hsame.trans hrun)
    refine ⟨by rw [hbind', hbind, htakes.same], fun result d hrunB => ?_, fun error d hrunB => ?_⟩
    · obtain ⟨ys, htook'⟩ := htakes.ok result d (hbind ▸ hrunB)
      refine ⟨xs ++ ys, htook.reads.append htook'.reads, htook'.related,
        fun hclean => htook.errors (htook'.errors hclean), fun hclean hleft hended => ?_⟩
      have hm := htook.steady (htook'.errors hclean) (htook'.reads.rest_ne_nil hleft) hended
      rw [bind_of_ok hm, htook'.steady hclean hleft (htook.reads.ended hended)]
    · obtain ⟨ys, hys⟩ := htakes.error error d (hbind ▸ hrunB)
      exact ⟨xs ++ ys, htook.reads.append hys⟩
  | error error m =>
    obtain ⟨xs, hxs⟩ := hA.error error m hrun
    have hbind : (A >>= B) c = .error error m := bind_of_error hrun
    have hbind' : (A' >>= B') c = .error error m := bind_of_error (hsame.trans hrun)
    exact takes_of_error hbind (hbind'.trans hbind.symm) hxs

/-- The last of some actions gives the value. -/
theorem Takes.last {f : α → β} (hA : Takes s R A A' c) (hf : ∀ value xs, R value xs → S (f value) xs) :
    Takes s S (A >>= fun value => Pure.pure (f value)) (A' >>= fun value => Pure.pure (f value)) c :=
  hA.bind fun value _ xs _ hvalue => .pure (by rw [List.append_nil]; exact hf value xs hvalue)

theorem Takes.map {f : α → β} (hA : Takes s R A A' c) (hf : ∀ value xs, R value xs → S (f value) xs) :
    Takes s S (f <$> A) (f <$> A') c := by
  rw [map_eq_pure_bind, map_eq_pure_bind]
  exact hA.last hf

theorem Takes.discard (hA : Takes s R A A' c) :
    Takes s (fun _ xs => ∃ value, R value xs) (discard A) (discard A') c :=
  hA.map fun value _ h => ⟨value, h⟩

theorem Takes.ite {p : Prop} [Decidable p] {B B' : Parse α} (hA : p → Takes s R A A' c)
    (hB : ¬ p → Takes s R B B' c) : Takes s R (if p then A else B) (if p then A' else B') c := by
  by_cases hp : p
  · rw [if_pos hp, if_pos hp]
    exact hA hp
  · rw [if_neg hp, if_neg hp]
    exact hB hp

/-- An action that looks at the lexemes that are left, if those it takes let it see the same where
others are behind them. -/
theorem Takes.look {f f' : Cursor → Parse α} (h : Takes s R (f c) (f' c) c)
    (hlook : ∀ value d, f c c = .ok value d → d.errors = [] → d.rest ≠ [] → Ended c.rest →
      f' (c.extend s) = f' c) : Takes s R (cursor >>= f) (cursor >>= f') c where
  same := h.same
  ok value d hrun := by
    obtain ⟨xs, htook⟩ := h.ok value d hrun
    refine ⟨xs, htook.reads, htook.related, htook.errors, fun hclean hleft hended => ?_⟩
    show f' (c.extend s) (c.extend s) = _
    rw [hlook value d hrun hclean hleft hended, htook.steady hclean hleft hended]
  error := h.error

theorem Takes.here {f f' : Cursor → Parse α} (h : Takes s R (f c) (f' c) c)
    (hlook : c.rest ≠ [] → Ended c.rest → f' (c.extend s) = f' c) :
    Takes s R (cursor >>= f) (cursor >>= f') c := by
  refine h.look fun value d hrun _ hleft hended => hlook ?_ hended
  obtain ⟨xs, htook⟩ := h.ok value d hrun
  exact htook.reads.rest_ne_nil hleft

theorem Takes.kind {f f' : TokenKind → Parse α} (h : Takes s R (f c.kind) (f' c.kind) c) :
    Takes s R (Parse.kind >>= f) (Parse.kind >>= f') c :=
  show Takes s R (cursor >>= fun here => f here.kind) (cursor >>= fun here => f' here.kind) c from
    .here h fun hne _ => by rw [Cursor.kind_extend hne]

theorem Takes.isAt {kind : TokenKind} {f f' : Bool → Parse α}
    (h : Takes s R (f (c.kind == kind)) (f' (c.kind == kind)) c) :
    Takes s R (Parse.isAt kind >>= f) (Parse.isAt kind >>= f') c :=
  show Takes s R (cursor >>= fun here => f (here.kind == kind))
    (cursor >>= fun here => f' (here.kind == kind)) c from
    .here h fun hne _ => by rw [Cursor.kind_extend hne]

theorem Takes.unexpected : Takes s R (Parse.unexpected : Parse α) Parse.unexpected c :=
  takes_of_error rfl rfl (.nil c)

/-- After an error is reported, nothing is said about other lexemes. -/
theorem Takes.reported {f f' : Unit → Parse α} {error : ParseError}
    (h : ∀ m : Cursor, m.kind = c.kind → m.errors ≠ [] → Takes s R (f ()) (f' ()) m) :
    Takes s R (report error >>= f) (report error >>= f') c := by
  have herrors : (c.report error).errors ≠ [] :=
    List.append_ne_nil_of_right_ne_nil _ (List.cons_ne_nil _ _)
  have htakes := h (c.report error) rfl herrors
  refine ⟨htakes.same, fun value d hrun => ?_, fun error d hrun => ?_⟩
  · obtain ⟨xs, htook⟩ := htakes.ok value d hrun
    have hdirty : d.errors ≠ [] := fun hclean => herrors (htook.errors hclean)
    exact ⟨xs, ⟨htook.reads.rest, htook.reads.lastEnd⟩, htook.related, fun h => absurd h hdirty,
      fun h => absurd h hdirty⟩
  · obtain ⟨xs, hxs⟩ := htakes.error error d hrun
    exact ⟨xs, hxs.rest, hxs.lastEnd⟩

/-- An action whose failure is a value; what it has taken stays taken. -/
theorem Takes.attempt {f f' : Except ParseError α → Parse β} (hA : Takes s R A A' c)
    (hok : ∀ value m xs, c.Reads xs m → R value xs →
      Takes s (fun result ys => S result (xs ++ ys)) (f (.ok value)) (f' (.ok value)) m)
    (herror : ∀ error m xs, c.Reads xs m →
      Takes s (fun result ys => S result (xs ++ ys)) (f (.error error)) (f' (.error error)) m)
    (hreported : ∀ error m result d, f (.error error) m = .ok result d → d.errors ≠ []) :
    Takes s S (Parse.outcome A >>= f) (Parse.outcome A' >>= f') c := by
  cases hrun : A c with
  | ok value m =>
    have hok : Takes s S (A >>= fun value => f (.ok value)) (A' >>= fun value => f' (.ok value)) c :=
      hA.bind hok
    have hrun' := hA.same.trans hrun
    refine ⟨?_, fun result d hresult => ?_, fun error d hresult => ?_⟩
    · rw [bind_of_ok (outcome_of_ok hrun), bind_of_ok (outcome_of_ok hrun'),
        ← bind_of_ok (B := fun value => f (.ok value)) hrun, ← hok.same, bind_of_ok hrun']
    · rw [bind_of_ok (outcome_of_ok hrun), ← bind_of_ok (B := fun value => f (.ok value)) hrun] at hresult
      obtain ⟨xs, htook⟩ := hok.ok result d hresult
      refine ⟨xs, htook.reads, htook.related, htook.errors, fun hclean hleft hended => ?_⟩
      obtain ⟨value', m', hextended, hresult'⟩ := bind_eq_ok_iff.1 (htook.steady hclean hleft hended)
      rw [bind_of_ok (outcome_of_ok hextended), hresult']
    · rw [bind_of_ok (outcome_of_ok hrun), ← bind_of_ok (B := fun value => f (.ok value)) hrun] at hresult
      exact hok.error error d hresult
  | error error m =>
    have hrun' := hA.same.trans hrun
    obtain ⟨xs, hxs⟩ := hA.error error m hrun
    have htakes := herror error m xs hxs
    refine ⟨?_, fun result d hresult => ?_, fun error' d hresult => ?_⟩
    · rw [bind_of_ok (outcome_of_error hrun), bind_of_ok (outcome_of_error hrun'), htakes.same]
    · rw [bind_of_ok (outcome_of_error hrun)] at hresult
      obtain ⟨ys, htook⟩ := htakes.ok result d hresult
      have hdirty := hreported error m result d hresult
      exact ⟨xs ++ ys, hxs.append htook.reads, htook.related, fun h => absurd h hdirty,
        fun h => absurd h hdirty⟩
    · rw [bind_of_ok (outcome_of_error hrun)] at hresult
      obtain ⟨ys, hys⟩ := htakes.error error' d hresult
      exact ⟨xs ++ ys, hxs.append hys⟩

end Combined

section Elementary

variable {α : Type} {s : Sequel} {R : α → List Lexeme → Prop} {c : Cursor} {kind : TokenKind}

/-- One lexeme, of a kind. -/
def IsOne (kind : TokenKind) (lexemes : List Lexeme) : Prop :=
  ∃ lexeme, lexemes = [lexeme] ∧ lexeme.kind = kind

theorem IsOne.ne_nil {xs : List Lexeme} (h : IsOne kind xs) : xs ≠ [] := by
  obtain ⟨lexeme, rfl, -⟩ := h
  exact List.cons_ne_nil _ _

theorem IsOne.unended {xs : List Lexeme} (h : IsOne kind xs) (hkind : kind ≠ .semicolon)
    (ys : List Lexeme) : Unended (ys ++ xs) := by
  obtain ⟨lexeme, rfl, rfl⟩ := h
  exact Unended.after (by simpa [Unended] using hkind) (List.cons_ne_nil _ _) ys

theorem IsOne.kind_behind {m : Cursor} {xs : List Lexeme} (h : IsOne kind xs) (hxs : c.Reads xs m) :
    m.kind = c.kindAt 1 := by
  obtain ⟨lexeme, rfl, -⟩ := h
  rw [Cursor.kindAt, Cursor.peek?, hxs.rest]
  rfl

theorem Cursor.reads_next_of_kind (h : c.kind ≠ .endOfFile) :
    ∃ xs, c.Reads xs c.next ∧ IsOne c.kind xs := by
  obtain ⟨lexeme, hrest, hkind⟩ := Cursor.rest_of_kind h
  exact ⟨[lexeme], Cursor.reads_next hrest, lexeme, rfl, hkind⟩

theorem next_takes_of_kind (h : c.kind ≠ .endOfFile) :
    Takes s (fun _ xs => IsOne c.kind xs) next next c := by
  obtain ⟨xs, hxs, hone⟩ := Cursor.reads_next_of_kind h
  refine takes_of_ok rfl rfl hxs hone c.errors_next fun _ hleft _ => ?_
  show EStateM.Result.ok () (c.extend s).next = _
  rw [Cursor.next_extend (hxs.rest_ne_nil hleft)]

theorem next_takes : Takes s (fun _ _ => True) next next c := by
  cases hrest : c.rest with
  | nil =>
    refine takes_of_ok rfl rfl (Cursor.reads_next_of_nil hrest) trivial c.errors_next
      fun _ hleft _ => ?_
    rw [Cursor.rest_next, hrest] at hleft
    exact absurd rfl hleft
  | cons lexeme lexemes =>
    refine takes_of_ok rfl rfl (Cursor.reads_next hrest) trivial c.errors_next fun _ _ _ => ?_
    have hne : c.rest ≠ [] := by
      rw [hrest]
      exact List.cons_ne_nil _ _
    show EStateM.Result.ok () (c.extend s).next = _
    rw [Cursor.next_extend hne]

theorem skip_takes {n : Nat} (h : n ≤ c.rest.length) :
    Takes s (fun _ xs => xs.length = n) (skip n) (skip n) c := by
  refine takes_of_ok rfl rfl (Cursor.reads_skip h) (List.length_take_of_le h) (c.errors_skip n)
    fun _ _ _ => ?_
  show EStateM.Result.ok () ((c.extend s).skip n) = _
  rw [Cursor.skip_extend h]

/-- A lexeme is taken if it is found, and none otherwise. -/
theorem eat_takes (hkind : kind ≠ .endOfFile) :
    Takes s (fun found xs => if found then IsOne kind xs else xs = [] ∧ c.kind ≠ kind)
      (eat kind) (eat kind) c := by
  by_cases h : c.kind = kind
  · obtain ⟨xs, hxs, hone⟩ := Cursor.reads_next_of_kind (h ▸ hkind)
    refine takes_of_ok (eat_of_kind h) rfl hxs (h ▸ hone) c.errors_next fun _ hleft _ => ?_
    have hne := hxs.rest_ne_nil hleft
    rw [eat_of_kind ((Cursor.kind_extend hne).trans h), Cursor.next_extend hne]
  · refine takes_of_ok (eat_of_ne h) rfl (c.reads_expect _) ⟨rfl, h⟩ rfl fun _ hleft _ => ?_
    have hne : c.rest ≠ [] := hleft
    rw [eat_of_ne (by rwa [Cursor.kind_extend hne]), Cursor.expect_extend]

theorem eat_takes_of_any (kind : TokenKind) :
    Takes s (fun found xs => found = false → xs = [] ∧ c.kind ≠ kind) (eat kind) (eat kind) c := by
  by_cases h : c.kind = kind
  · have hnext : Takes s (fun _ _ => True) next next c := next_takes
    obtain ⟨xs, htook⟩ := hnext.ok () c.next rfl
    refine takes_of_ok (eat_of_kind h) rfl htook.reads nofun c.errors_next fun _ hleft _ => ?_
    have hne := htook.reads.rest_ne_nil hleft
    rw [eat_of_kind ((Cursor.kind_extend hne).trans h), Cursor.next_extend hne]
  · refine takes_of_ok (eat_of_ne h) rfl (c.reads_expect _) (fun _ => ⟨rfl, h⟩) rfl
      fun _ hleft _ => ?_
    have hne : c.rest ≠ [] := hleft
    rw [eat_of_ne (by rwa [Cursor.kind_extend hne]), Cursor.expect_extend]

theorem expect_takes (hkind : kind ≠ .endOfFile) :
    Takes s (fun _ xs => IsOne kind xs) (expect kind) (expect kind) c := by
  by_cases h : c.kind = kind
  · obtain ⟨xs, hxs, hone⟩ := Cursor.reads_next_of_kind (h ▸ hkind)
    refine takes_of_ok (expect_of_kind h) rfl hxs (h ▸ hone) c.errors_next fun _ hleft _ => ?_
    have hne := hxs.rest_ne_nil hleft
    rw [expect_of_kind ((Cursor.kind_extend hne).trans h), Cursor.next_extend hne]
  · exact takes_of_error (expect_of_ne h) rfl (c.reads_expect _)

/-- A value that is placed from a position to the last lexeme that was taken. -/
theorem Takes.placed {start : Nat} {f : Span → α} (h : R (f ⟨start, max c.lastEnd start⟩) []) :
    Takes s R (spanFrom start >>= fun place => Pure.pure (f place))
      (spanFrom start >>= fun place => Pure.pure (f place)) c :=
  takes_of_ok rfl rfl (.nil c) h rfl fun _ _ _ => rfl

/-- What is taken for a value after a lexeme that may be missing. -/
def OptionTakes {β : Type} (kind : TokenKind) (S : β → List Lexeme → Prop) :
    Option β → List Lexeme → Prop
  | none, xs => xs = []
  | some value, xs => ∃ lexeme ys, xs = lexeme :: ys ∧ lexeme.kind = kind ∧ S value ys

theorem OptionTakes.within {β : Type} [Outlined β] {S : β → List Lexeme → Prop} {value : Option β}
    {xs : List Lexeme} (h : OptionTakes kind S value xs)
    (hS : ∀ value ys, S value ys → Within (outlines value) ys) : Within (outlines value) xs := by
  cases value with
  | none => exact .none xs
  | some value =>
    obtain ⟨lexeme, ys, rfl, -, hvalue⟩ := h
    rw [outlines_some]
    exact .skip (hS value ys hvalue)

theorem Takes.optional {β : Type} {S : β → List Lexeme → Prop} {A A' : Parse β}
    {f f' : Option β → Parse α} (hkind : kind ≠ .endOfFile)
    (hA : ∀ m, m.size < c.size → Takes s S A A' m)
    (hf : ∀ value m xs, c.Reads xs m → OptionTakes kind S value xs →
      Takes s (fun result ys => R result (xs ++ ys)) (f value) (f' value) m) :
    Takes s R
      (eat kind >>= fun found => if found then some <$> A >>= f else Pure.pure none >>= f)
      (eat kind >>= fun found => if found then some <$> A' >>= f' else Pure.pure none >>= f') c := by
  refine (eat_takes hkind).bind fun found m xs hxs hfound => ?_
  cases found with
  | false =>
    obtain ⟨rfl, -⟩ : xs = [] ∧ c.kind ≠ kind := hfound
    exact hf none m [] hxs rfl
  | true =>
    obtain ⟨lexeme, rfl, hlexeme⟩ := hfound
    have hvalue : Takes s (fun value ys => ∃ v, value = some v ∧ S v ys) (some <$> A) (some <$> A') m :=
      (hA m (hxs.size_lt (List.cons_ne_nil _ _))).map fun value ys h => ⟨value, rfl, h⟩
    refine hvalue.bind fun value d ys hys hvalue => ?_
    obtain ⟨value, rfl, hvalue⟩ := hvalue
    have htakes := hf (some value) d _ (hxs.append hys) ⟨lexeme, ys, rfl, hlexeme, hvalue⟩
    simpa only [List.append_assoc] using htakes

end Elementary

section Repeated

variable {ι σ α : Type} {s : Sequel} {c : Cursor}

section Recursion

variable {R : ι → α → List Lexeme → Prop} {body : (ι → Parse α) → ι → Parse α}

/-- What an action takes that may call itself where fewer lexemes are left, if its calls take as much
as it does. -/
def BodyTakes (s : Sequel) (R : ι → α → List Lexeme → Prop) (body : (ι → Parse α) → ι → Parse α) :
    Prop :=
  ∀ (n : Nat) (call call' : ι → Parse α), (∀ i m, m.size < n → Takes s (R i) (call i) (call' i) m) →
    (∀ i m value d, call i m = .ok value d → fix body i m = .ok value d) →
      ∀ i c, c.size ≤ n → Takes s (R i) (body call i) (body call' i) c

theorem fix_of_below {i : ι} {value : α} {d : Cursor} {n : Nat}
    (h : below n (fix body i) c = .ok value d) : fix body i c = .ok value d := by
  unfold below at h
  split at h
  · exact h
  · cases h

theorem fix_takes (hbody : BodyTakes s R body) (i : ι) (c : Cursor) :
    Takes s (R i) (fix body i) (fix body i) c := by
  generalize hn : c.size = n
  induction n using Nat.strongRecOn generalizing i c with
  | ind n ih =>
    have hsize := c.size_extend (s := s)
    -- The limit of the calls is another one for the extended cursor, and met by neither.
    have hcall : ∀ j m, m.size < c.size → Takes s (R j) (below c.size (fix body j))
        (below (c.extend s).size (fix body j)) m := by
      intro j m hlt
      have hsize' := m.size_extend (s := s)
      exact (ih m.size (hn ▸ hlt) j m rfl).congr (below_of_lt hlt) (below_of_lt (by omega))
        (below_of_lt (by omega))
    have htakes := hbody c.size _ _ hcall (fun _ _ _ _ => fix_of_below) i c (Nat.le_refl _)
    exact htakes.congr (fix_eq body i c) ((fix_eq body i c).trans htakes.same.symm)
      (fix_eq body i (c.extend s))

/-- The calls of an action that takes something before each of them need not be limited. -/
theorem fix_unlimited (hbody : BodyTakes s R body) (i : ι) (c : Cursor) :
    fix body i c = body (fix body) i c := by
  have hcall : ∀ j m, m.size < c.size → Takes s (R j) (below c.size (fix body j)) (fix body j) m :=
    fun j m hlt => (fix_takes hbody j m).congr (below_of_lt hlt) rfl rfl
  rw [fix_eq]
  exact (hbody c.size _ _ hcall (fun _ _ _ _ => fix_of_below) i c (Nat.le_refl _)).same.symm

end Recursion

/-- What a step of a repetition takes after other lexemes. If it goes on it takes at least one. -/
def StepTakes (I : σ → List Lexeme → Prop) (R : α → List Lexeme → Prop) (taken : List Lexeme) :
    σ ⊕ α → List Lexeme → Prop
  | .inl state, xs => xs ≠ [] ∧ I state (taken ++ xs)
  | .inr value, xs => R value (taken ++ xs)

/-- What a repetition has taken when a state is reached stands in a relation to the state. -/
theorem repeatFrom_takes {I : σ → List Lexeme → Prop} {R : α → List Lexeme → Prop}
    {step step' : σ → Parse (σ ⊕ α)}
    (hstep : ∀ state m zs, c.Reads zs m → I state zs →
      Takes s (StepTakes I R zs) (step state) (step' state) m)
    {state : σ} (hstate : I state []) : Takes s R (repeatFrom step state) (repeatFrom step' state) c := by
  have hfrom : ∀ (state : σ) (m : Cursor) (zs : List Lexeme), c.Reads zs m → I state zs →
      Takes s (fun value xs => R value (zs ++ xs)) (repeatFrom step state) (repeatFrom step' state)
        m := by
    intro state m
    -- The induction is on the lexemes left; the invariant speaks of all that were taken before.
    generalize hn : m.size = n
    induction n using Nat.strongRecOn generalizing state m with
    | ind n ih =>
      intro zs hzs hstate
      have hsize := m.size_extend (s := s)
      have hsteps := hstep state m zs hzs hstate
      have htakes : Takes s (fun value xs => R value (zs ++ xs))
          (step state >>= Sum.elim (fun state => below m.size (repeatFrom step state)) pure)
          (step' state >>= Sum.elim (fun state => below (m.extend s).size (repeatFrom step' state)) pure)
          m := by
        refine hsteps.bind fun result d xs hxs hresult => ?_
        cases result with
        | inl state =>
          have hlt := hxs.size_lt hresult.1
          have hsize' := d.size_extend (s := s)
          have h := ih d.size (hn ▸ hlt) state d rfl (zs ++ xs) (hzs.append hxs) hresult.2
          simp only [List.append_assoc] at h
          exact h.congr (below_of_lt hlt) (below_of_lt (by omega)) (below_of_lt (by omega))
        | inr value => exact .pure (by simpa [StepTakes] using hresult)
      have hsame : repeatFrom step' state m
          = (step' state >>= Sum.elim (fun state => below (m.extend s).size (repeatFrom step' state))
            pure) m := by
        rw [repeatFrom_eq]
        refine bind_congr rfl fun result d hrun => ?_
        obtain ⟨xs, htook⟩ := hsteps.ok result d (hsteps.same.symm.trans hrun)
        cases result with
        | inl state =>
          have hlt := htook.reads.size_lt htook.related.1
          exact (below_of_lt hlt).trans (below_of_lt (by omega)).symm
        | inr value => rfl
      exact htakes.congr (repeatFrom_eq step state m) hsame (repeatFrom_eq step' state (m.extend s))
  exact hfrom state c [] (.nil c) hstate

variable [Outlined α]

/-- Values have been added to some, and lie within lexemes. -/
def Adds (base values : List α) (lexemes : List Lexeme) : Prop :=
  ∃ more, values = base ++ more ∧ Within (outlines more) lexemes

theorem adds_nil (base : List α) : Adds base base [] := ⟨[], (List.append_nil base).symm, .nil⟩

theorem Adds.append {base values more : List α} {xs ys : List Lexeme} (h : Adds base values xs)
    (h' : Within (outlines more) ys) : Adds base (values ++ more) (xs ++ ys) := by
  obtain ⟨before, rfl, hbefore⟩ := h
  refine ⟨before ++ more, List.append_assoc _ _ _, ?_⟩
  rw [outlines_append]
  exact hbefore.append h'

theorem Adds.before {base values : List α} {xs : List Lexeme} (h : Adds base values xs)
    (ys : List Lexeme) : Adds base values (xs ++ ys) := by
  have happend : Adds base (values ++ []) (xs ++ ys) := h.append (Within.none ys)
  rwa [List.append_nil] at happend

theorem Adds.within {values : List α} {xs : List Lexeme} (h : Adds [] values xs) :
    Within (outlines values) xs := by
  obtain ⟨more, rfl, hmore⟩ := h
  exact hmore

variable {item item' : Parse α}

theorem separated_takes
    (hitem : ∀ m, Takes s (fun value xs => Within (outlines value) xs) item item' m) :
    Takes s (fun values xs => Within (outlines values) xs) (separated item) (separated item') c := by
  unfold separated
  refine repeatFrom_takes (I := fun items xs => Within (outlines items) xs) ?_ .nil
  intro items m zs _ hitems
  refine (hitem m).bind fun item m xs _ hitem => ?_
  have hmore : ∀ ys, Within (outlines (items ++ [item])) (zs ++ (xs ++ ys)) := by
    intro ys
    rw [← List.append_assoc]
    simpa using (hitems.append hitem).before ys
  refine (eat_takes (by decide)).last fun found ys hfound => ?_
  cases found with
  | false => exact hmore ys
  | true =>
    have hys : IsOne .comma ys := hfound
    exact ⟨List.append_ne_nil_of_right_ne_nil _ hys.ne_nil, hmore ys⟩

theorem enclosed_takes {opening closing : TokenKind}
    (hopening : opening ≠ .endOfFile) (hclosing : closing ≠ .endOfFile)
    (hends : opening ≠ .semicolon ∧ closing ≠ .semicolon)
    (hitem : ∀ m, m.size < c.size → Takes s (fun value xs => Within (outlines value) xs) item item' m) :
    Takes s (fun values xs => Behind (outlines values) xs ∧ Unended xs)
      (enclosed opening item closing) (enclosed opening item' closing) c := by
  unfold enclosed
  refine (expect_takes hopening).bind fun _ m xs hxs hone => ?_
  have hlt := hxs.size_lt hone.ne_nil
  refine Takes.mono (R := fun (values : List α) ys => Within (outlines values) ys ∧ Unended ys)
    (repeatFrom_takes (I := fun items xs => Within (outlines items) xs) ?_ .nil) ?_
  · intro items m' zs hzs hitems
    have hle := hzs.size_le
    refine (eat_takes hclosing).bind fun found m ws hws hfound => .ite (fun htrue => ?_) fun _ => ?_
    · rw [if_pos htrue] at hfound
      refine .pure ⟨hitems.before _, ?_⟩
      rw [List.append_nil]
      exact hfound.unended hends.2 zs
    have hle' := hws.size_le
    refine (hitem m (by omega)).bind fun item m xs _ hitem => ?_
    have hmore : ∀ ys, Within (outlines (items ++ [item])) (zs ++ (ws ++ (xs ++ ys))) := by
      intro ys
      simpa using hitems.append ((hitem.before ys).after ws)
    refine (eat_takes hclosing).bind fun found m ys _ hfound => .ite (fun htrue => ?_) fun _ => ?_
    · rw [if_pos htrue] at hfound
      refine .pure ⟨hmore _, ?_⟩
      rw [List.append_nil, ← List.append_assoc, ← List.append_assoc]
      exact hfound.unended hends.2 _
    · exact (expect_takes (by decide)).last fun _ us hus => ⟨by simp [hus.ne_nil], hmore _⟩
  · intro values ys ⟨hvalues, hys⟩
    exact ⟨behind_of_ne_nil hone.ne_nil hvalues, (hone.unended hends.1 []).append hys⟩

end Repeated

section Names

variable {s : Sequel} {c : Cursor}

/-- An identifier is one lexeme that is a name. -/
def IsWord (ident : Ident) (lexemes : List Lexeme) : Prop :=
  ∃ lexeme, lexemes = [lexeme] ∧ lexeme.kind.isName = true
    ∧ ident = ⟨String.ofList lexeme.text, lexeme.span⟩

theorem IsWord.fills {ident : Ident} {xs : List Lexeme} (h : IsWord ident xs) :
    Fills ident.outline xs := by
  obtain ⟨lexeme, rfl, -, rfl⟩ := h
  exact .ident (Lexeme.spanTo_nil lexeme).symm

theorem ident_missing_takes {R : Ident → List Lexeme → Prop} :
    Takes s R ident.missing ident.missing c :=
  takes_of_error rfl rfl (c.reads_expect _)

theorem Cursor.rest_of_peek {lexeme : Lexeme} (h : c.peek? 0 = some lexeme) :
    c.rest = lexeme :: c.next.rest := by
  rw [peek?, ← List.head?_eq_getElem?, List.head?_eq_some_iff] at h
  obtain ⟨lexemes, hrest⟩ := h
  rw [rest_next, hrest, List.tail_cons]

/-- The next lexeme is taken, whatever it is. -/
theorem next_takes_of_peek {lexeme : Lexeme} (h : c.peek? 0 = some lexeme) :
    Takes s (fun _ xs => xs = [lexeme]) next next c := by
  refine takes_of_ok rfl rfl (Cursor.reads_next (Cursor.rest_of_peek h)) rfl c.errors_next
    fun _ _ _ => ?_
  have hne : c.rest ≠ [] := by
    rw [Cursor.rest_of_peek h]
    exact List.cons_ne_nil _ _
  show EStateM.Result.ok () (c.extend s).next = _
  rw [Cursor.next_extend hne]

theorem ident_takes : Takes s IsWord ident ident c := by
  unfold ident
  refine .here ?_ fun hne _ => by rw [Cursor.peek?_extend hne]
  cases hpeek : c.peek? 0 with
  | none => exact ident_missing_takes
  | some lexeme =>
    refine .ite (fun hname => ?_) fun _ => ident_missing_takes
    exact (next_takes_of_peek hpeek).last fun _ xs hxs => ⟨lexeme, hxs, hname, rfl⟩

/-- The name of a property is one lexeme: a word, a number, or a string without its quotes. -/
def IsPropertyName (ident : Ident) (lexemes : List Lexeme) : Prop :=
  ∃ lexeme, lexemes = [lexeme] ∧ ident.span = lexeme.span ∧ ident.name = String.ofList
    (if lexeme.kind = .string then (lexeme.text.drop 1).dropLast else lexeme.text)

theorem IsPropertyName.fills {ident : Ident} {xs : List Lexeme} (h : IsPropertyName ident xs) :
    Fills ident.outline xs := by
  obtain ⟨lexeme, rfl, hspan, -⟩ := h
  exact .ident (hspan.trans (Lexeme.spanTo_nil lexeme).symm)

theorem IsWord.isPropertyName {ident : Ident} {xs : List Lexeme} (h : IsWord ident xs) :
    IsPropertyName ident xs := by
  obtain ⟨lexeme, rfl, hname, rfl⟩ := h
  refine ⟨lexeme, rfl, rfl, ?_⟩
  rw [if_neg]
  intro hkind
  rw [hkind] at hname
  cases hname

theorem propertyName_takes : Takes s IsPropertyName propertyName propertyName c := by
  have hident : Takes s IsPropertyName ident ident c :=
    ident_takes.mono fun _ _ h => h.isPropertyName
  unfold propertyName
  refine .here ?_ fun hne _ => by rw [Cursor.peek?_extend hne]
  cases hpeek : c.peek? 0 with
  | none => exact hident
  | some lexeme =>
    dsimp only
    split
    · rename_i hkind
      refine (next_takes_of_peek hpeek).last fun _ xs hxs => ⟨lexeme, hxs, rfl, ?_⟩
      rw [if_pos hkind]
    · rename_i hkind
      refine (next_takes_of_peek hpeek).last fun _ xs hxs => ⟨lexeme, hxs, rfl, ?_⟩
      rw [if_neg (by rw [hkind]; decide)]
    · exact hident

/-- Words within lexemes, each one of them. -/
structure AreWords (idents : List Ident) (lexemes : List Lexeme) : Prop where
  within : Within (outlines idents) lexemes
  word : ∀ ident ∈ idents, ∃ lexeme ∈ lexemes, lexeme.kind.isName = true
    ∧ ident.name = String.ofList lexeme.text
  unended : Unended lexemes

theorem AreWords.nil {xs : List Lexeme} (h : Unended xs) : AreWords [] xs := ⟨.none _, nofun, h⟩

theorem AreWords.append {idents idents' : List Ident} {xs ys : List Lexeme}
    (h : AreWords idents xs) (h' : AreWords idents' ys) : AreWords (idents ++ idents') (xs ++ ys) := by
  refine ⟨by simpa using h.within.append h'.within, fun ident hmem => ?_,
    h.unended.append h'.unended⟩
  rcases List.mem_append.1 hmem with hmem | hmem
  · obtain ⟨lexeme, hlexeme, hword⟩ := h.word ident hmem
    exact ⟨lexeme, List.mem_append_left _ hlexeme, hword⟩
  · obtain ⟨lexeme, hlexeme, hword⟩ := h'.word ident hmem
    exact ⟨lexeme, List.mem_append_right _ hlexeme, hword⟩

theorem IsWord.areWords {ident : Ident} {xs : List Lexeme} (h : IsWord ident xs) :
    AreWords [ident] xs := by
  refine ⟨by simpa using Within.single h.fills, fun ident' hmem => ?_, ?_⟩
  · obtain rfl := List.mem_singleton.1 hmem
    obtain ⟨lexeme, rfl, hname, rfl⟩ := h
    exact ⟨lexeme, List.mem_singleton_self _, hname, rfl⟩
  · obtain ⟨lexeme, rfl, hname, -⟩ := h
    refine IsOne.unended ⟨lexeme, rfl, rfl⟩ (fun hkind => ?_) []
    rw [hkind] at hname
    cases hname

theorem namePart_takes (parts : List Ident) (zs : List Lexeme) (h : AreWords parts zs) :
    Takes s (StepTakes AreWords AreWords zs) (namePart parts) (namePart parts) c := by
  unfold namePart
  refine (eat_takes (by decide)).bind fun found m ws _ hws => .ite (fun htrue => ?_) fun hfalse => ?_
  · rw [if_pos htrue] at hws
    have hdot : AreWords [] ws := .nil (hws.unended (by decide) [])
    refine ident_takes.last fun ident xs hident => ⟨by simp [hws.ne_nil], ?_⟩
    exact h.append (hdot.append hident.areWords)
  · rw [if_neg hfalse] at hws
    obtain ⟨rfl, -⟩ := hws
    have hmore : AreWords (parts ++ []) (zs ++ ([] ++ [])) := h.append (.nil .nil)
    rw [List.append_nil parts] at hmore
    exact .pure hmore

theorem entityName_takes : Takes s (fun name xs => Fills name.outline xs ∧ Unended xs)
    entityName entityName c := by
  unfold entityName
  refine .here (ident_takes.bind fun first m xs hxs hfirst => ?_) fun hne _ => by
    simp only [Cursor.start_extend hne]
  have hparts : Takes s AreWords (repeatFrom namePart []) (repeatFrom namePart []) m :=
    repeatFrom_takes (I := AreWords) (fun parts m zs _ h => namePart_takes parts zs h) (.nil .nil)
  refine hparts.bind fun rest d ys hys hrest => .placed ?_
  have hname := hfirst.areWords.append hrest
  obtain ⟨lexeme, rfl, -, -⟩ := hfirst
  rw [List.append_nil]
  refine ⟨?_, hname.unended⟩
  show Fills (.node .entityName ⟨c.start, max d.lastEnd c.start⟩ (outlines (first :: rest))) _
  rw [(hxs.append hys).span]
  refine .plain rfl ⟨List.cons_ne_nil _ _, fun part hmem => ?_⟩ hname.within
  obtain ⟨ident, hident, hpart⟩ := List.mem_flatMap.1 hmem
  obtain rfl := List.mem_singleton.1 hpart
  obtain ⟨lexeme, hlexeme, hword, hident⟩ := hname.word ident hident
  exact ⟨lexeme, hlexeme, hword, congrArg NodeSort.ident hident⟩

end Names

section Groups

variable {s : Sequel} {c : Cursor}

/-- A group with its delimiters is at least one lexeme. -/
theorem skipGroup_takes {opening : TokenKind} (hopening : opening ≠ .endOfFile) :
    Takes s (fun _ xs => xs ≠ []) (skipGroup opening) (skipGroup opening) c := by
  unfold skipGroup
  refine (expect_takes hopening).bind fun _ m xs _ hxs => ?_
  have hne : ∀ ys, xs ++ ys ≠ [] := fun ys h => hxs.ne_nil (List.append_eq_nil_iff.1 h).1
  have hcursor : ∀ d : Cursor, cursor d = .ok d d := fun _ => rfl
  cases hlength : groupLength? 1 m.rest with
  | some n =>
    have hle := (nests_of_groupLength? hlength).1
    refine takes_of_ok (?_ : _ = EStateM.Result.ok () (m.skip n)) rfl (Cursor.reads_skip hle) (hne _)
      (m.errors_skip n) fun _ _ _ => ?_
    · rw [bind_of_ok (hcursor m), hlength]
      rfl
    · rw [bind_of_ok (hcursor _), Cursor.rest_extend, groupLength?_append hlength, ← Cursor.skip_extend hle]
      rfl
  | none =>
    refine takes_of_error
      (?_ : _ = EStateM.Result.error (m.skip m.rest.length).unexpected (m.skip m.rest.length))
      rfl (Cursor.reads_skip (Nat.le_refl m.rest.length))
    rw [bind_of_ok (hcursor m), hlength]
    rfl

theorem skipBalanced_takes : Takes s (fun _ xs => c.kind.isClose = false → c.kind ≠ .endOfFile → xs ≠ [])
    skipBalanced skipBalanced c := by
  have hle := balancedLength_le 0 c.rest
  have hrun : skipBalanced c = .ok () (c.skip (balancedLength 0 c.rest)) := rfl
  refine takes_of_ok hrun rfl (Cursor.reads_skip hle) (fun hclose hend => ?_) (c.errors_skip _)
    fun _ hleft _ => ?_
  · obtain ⟨lexeme, hrest, hkind⟩ := Cursor.rest_of_kind hend
    have hpos := balancedLength_pos 0 c.next.rest
      (by rw [hkind, hclose] : lexeme.kind.isClose = false)
    rw [← hrest] at hpos
    exact List.length_pos_iff.1 (by rwa [List.length_take_of_le hle])
  · have hlt : balancedLength 0 c.rest < c.rest.length := by
      rw [Cursor.rest_skip] at hleft
      have := List.length_pos_iff.2 hleft
      rw [List.length_drop] at this
      omega
    rw [← Cursor.skip_extend hle, ← balancedLength_append_of_lt hlt s.lexemes]
    rfl

theorem recover_eq (closing : TokenKind) (c : Cursor) : recover closing c =
    if balancedLength 0 c.rest = 0 then
      if c.kind = closing ∨ c.kind = .endOfFile then .ok () c else .ok () c.next
    else .ok () (c.skip (balancedLength 0 c.rest)) := by
  have hrecover : recover closing c = (if balancedLength 0 c.rest = 0 then (do
      let kind ← kind
      unless kind == closing || kind == .endOfFile do next) else pure () : Parse Unit)
        (c.skip (balancedLength 0 c.rest)) := rfl
  rw [hrecover]
  by_cases hzero : balancedLength 0 c.rest = 0
  · rw [if_pos hzero, if_pos hzero, hzero]
    show (if (c.kind == closing || c.kind == .endOfFile) = true then pure () else next : Parse Unit) c
      = _
    simp only [Bool.or_eq_true, beq_iff_eq]
    split <;> rfl
  · rw [if_neg hzero, if_neg hzero]
    rfl

/-- After an error a lexeme is taken, unless the closing one or the end is next. -/
theorem recover_takes (closing : TokenKind) (herrors : c.errors ≠ []) :
    Takes s (fun _ xs => c.kind ≠ closing → c.kind ≠ .endOfFile → xs ≠ [])
      (recover closing) (recover closing) c := by
  have hle := balancedLength_le 0 c.rest
  by_cases hzero : balancedLength 0 c.rest = 0
  · by_cases hend : c.kind = closing ∨ c.kind = .endOfFile
    · have hrun : recover closing c = .ok () c := by rw [recover_eq, if_pos hzero, if_pos hend]
      refine takes_of_ok hrun rfl (.nil c) (fun hclosing hfile => ?_) rfl
        fun hclean => absurd hclean herrors
      exact absurd hend (not_or.2 ⟨hclosing, hfile⟩)
    · have hrun : recover closing c = .ok () c.next := by rw [recover_eq, if_pos hzero, if_neg hend]
      obtain ⟨xs, hxs, hone⟩ := Cursor.reads_next_of_kind (not_or.1 hend).2
      exact takes_of_ok hrun rfl hxs (fun _ _ => hone.ne_nil) c.errors_next
        fun hclean => absurd hclean herrors
  · have hrun : recover closing c = .ok () (c.skip (balancedLength 0 c.rest)) := by
      rw [recover_eq, if_neg hzero]
    refine takes_of_ok hrun rfl (Cursor.reads_skip hle) (fun _ _ => ?_) (c.errors_skip _)
      fun hclean => absurd hclean herrors
    exact List.length_pos_iff.1 (by rw [List.length_take_of_le hle]; omega)

end Groups

end NodeFactory
