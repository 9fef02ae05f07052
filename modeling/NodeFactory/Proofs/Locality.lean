import NodeFactory.Proofs.GrammarParts
import NodeFactory.Proofs.Nesting
import NodeFactory.Proofs.ParseRuns

/-!
# Actions that read the same from less

A text is cut where an action has ended, or later: the lexemes behind the cut are left out and a
semicolon stands in their place. An action is local if it then comes to the same value and stops at
the same place (`Local`). What it has read nests, so that a group it has looked past lies before the
cut with both its delimiters.

Only runs that report no error count. Some actions would read the semicolon if they ended at the
cut; of these it is enough to know that they do not end there.
-/

namespace NodeFactory

open Parse

/-- Where a text is cut: how many lexemes are left out, and where the semicolon stands. -/
structure Cut where
  left : Nat
  position : Nat

namespace Cut

variable (cut : Cut) {c : Cursor} {n : Nat}

def semicolon : Lexeme := ⟨⟨.semicolon, [';'], cut.position⟩, [], false⟩

def cursor (c : Cursor) : Cursor :=
  { c with
    rest := c.rest.take (c.size - cut.left) ++ [cut.semicolon]
    size := (c.rest.take (c.size - cut.left) ++ [cut.semicolon]).length
    size_eq := rfl }

theorem rest_cursor (c : Cursor) :
    (cut.cursor c).rest = c.rest.take (c.size - cut.left) ++ [cut.semicolon] := rfl

theorem size_cursor (c : Cursor) : (cut.cursor c).size = c.size - cut.left + 1 := by
  simp [cursor, ← c.size_eq]

theorem peek?_of_lt (h : n + cut.left < c.size) : (cut.cursor c).peek? n = c.peek? n := by
  have := c.size_eq
  unfold Cursor.peek? cursor
  rw [List.getElem?_append_left (by rw [List.length_take]; omega), List.getElem?_take, if_pos]
  omega

theorem peek?_of_eq (h : n + cut.left = c.size) :
    (cut.cursor c).peek? n = some cut.semicolon := by
  have hsize := c.size_eq
  have hlength : (c.rest.take (c.size - cut.left)).length = n := by
    rw [List.length_take]
    omega
  unfold Cursor.peek? cursor
  rw [List.getElem?_append_right (Nat.le_of_eq hlength), hlength, Nat.sub_self]
  rfl

theorem peek?_of_gt (h : cut.left ≤ c.size) (hgt : c.size < n + cut.left) :
    (cut.cursor c).peek? n = none := by
  have hsize := cut.size_cursor c
  rw [(cut.cursor c).size_eq] at hsize
  refine List.getElem?_eq_none ?_
  omega

/-- A lexeme before the cut is there; at the cut there is a semicolon, and nothing behind. -/
theorem peek?_cases (h : cut.left ≤ c.size) (n : Nat) : (cut.cursor c).peek? n = c.peek? n
    ∨ (cut.cursor c).peek? n = some cut.semicolon ∨ (cut.cursor c).peek? n = none := by
  rcases Nat.lt_trichotomy (n + cut.left) c.size with hlt | heq | hgt
  · exact .inl (cut.peek?_of_lt hlt)
  · exact .inr (.inl (cut.peek?_of_eq heq))
  · exact .inr (.inr (cut.peek?_of_gt h hgt))

theorem kindAt_of_lt (h : n + cut.left < c.size) : (cut.cursor c).kindAt n = c.kindAt n := by
  rw [Cursor.kindAt, cut.peek?_of_lt h, Cursor.kindAt]

theorem textAt_of_lt (h : n + cut.left < c.size) : (cut.cursor c).textAt n = c.textAt n := by
  rw [Cursor.textAt, cut.peek?_of_lt h, Cursor.textAt]

theorem kindAt_cases (h : cut.left ≤ c.size) (n : Nat) :
    (cut.cursor c).kindAt n = c.kindAt n ∨ (cut.cursor c).kindAt n = .semicolon
      ∨ (cut.cursor c).kindAt n = .endOfFile := by
  unfold Cursor.kindAt
  rcases cut.peek?_cases h n with hpeek | hpeek | hpeek <;> rw [hpeek]
  · exact .inl rfl
  · exact .inr (.inl rfl)
  · exact .inr (.inr rfl)

theorem kind_cases (h : 0 + cut.left ≤ c.size) :
    (cut.cursor c).kind = c.kind ∨ (cut.cursor c).kind = .semicolon
      ∨ (cut.cursor c).kind = .endOfFile :=
  cut.kindAt_cases (by omega) 0

/-- What is found in the text that is cut is there, unless the semicolon or the end is looked for. -/
theorem found (h : cut.left ≤ c.size) (p : TokenKind → Bool) (hsemicolon : p .semicolon = false)
    (hend : p .endOfFile = false) (hfound : p ((cut.cursor c).kindAt n) = true) :
    p (c.kindAt n) = true := by
  rcases cut.kindAt_cases h n with hkind | hkind | hkind <;> rw [hkind] at hfound
  · exact hfound
  · rw [hsemicolon] at hfound
    cases hfound
  · rw [hend] at hfound
    cases hfound

/-- A kind that does not end statements is found before the cut only. -/
theorem kindAt_ne (h : cut.left ≤ c.size) {kind : TokenKind} (hne : c.kindAt n ≠ kind)
    (hsemicolon : kind ≠ .semicolon) (hend : kind ≠ .endOfFile) :
    (cut.cursor c).kindAt n ≠ kind := by
  rcases cut.kindAt_cases h n with hkind | hkind | hkind <;> rw [hkind]
  · exact hne
  · exact hsemicolon.symm
  · exact hend.symm

theorem kind_ne (h : cut.left ≤ c.size) {kind : TokenKind} (hne : c.kind ≠ kind)
    (hsemicolon : kind ≠ .semicolon) : (cut.cursor c).kind ≠ kind := by
  have hlt_or : 0 + cut.left < c.size ∨ 0 + cut.left = c.size := by omega
  unfold Cursor.kind Cursor.kindAt
  rcases hlt_or with hlt | heq
  · rw [cut.peek?_of_lt hlt]
    exact hne
  · rw [cut.peek?_of_eq heq]
    exact hsemicolon.symm

theorem next_cursor (h : cut.left < c.size) : (cut.cursor c).next = cut.cursor c.next := by
  have hsize := c.size_eq
  cases hrest : c.rest with
  | nil => simp [hsize, hrest] at h
  | cons lexeme lexemes =>
    have hcut : (cut.cursor c).rest
        = lexeme :: (lexemes.take (lexemes.length - cut.left) ++ [cut.semicolon]) := by
      have hsub : c.size - cut.left = (lexemes.length - cut.left) + 1 := by
        rw [hrest, List.length_cons] at hsize
        omega
      rw [rest_cursor, hrest, hsub, List.take_succ_cons, List.cons_append]
    rw [Cursor.next_of_cons hcut, Cursor.next_of_cons hrest]
    exact Cursor.eq_of_fields rfl rfl rfl rfl

theorem skip_cursor : ∀ {n : Nat} {c : Cursor}, n + cut.left ≤ c.size →
    (cut.cursor c).skip n = cut.cursor (c.skip n)
  | 0, _, _ => rfl
  | n + 1, c, h => by
    have hsize := c.size_next
    rw [Cursor.skip, cut.next_cursor (by omega), skip_cursor (by omega), Cursor.skip]

end Cut

/-- A word that may say how a type parameter varies is a name. -/
def Lexeme.IsGenuine (lexeme : Lexeme) : Prop :=
  lexeme.text = ['i', 'n'] ∨ lexeme.text = ['o', 'u', 't'] → lexeme.kind.isName = true

def AllGenuine (lexemes : List Lexeme) : Prop := ∀ lexeme ∈ lexemes, lexeme.IsGenuine

theorem allGenuine_append {xs ys : List Lexeme} :
    AllGenuine (xs ++ ys) ↔ AllGenuine xs ∧ AllGenuine ys := List.forall_mem_append

theorem allGenuine_cons {lexeme : Lexeme} {xs : List Lexeme} :
    AllGenuine (lexeme :: xs) ↔ lexeme.IsGenuine ∧ AllGenuine xs := List.forall_mem_cons

theorem allGenuine_nil : AllGenuine [] := List.forall_mem_nil _

/-- What an action reads: at least so many lexemes, leading out of so many groups; and whether it
may end where the text is cut. -/
structure Portion where
  least : Nat
  depth : Nat
  toCut : Bool

namespace Portion

structure Holds (portion : Portion) (lexemes : List Lexeme) : Prop where
  least : portion.least ≤ lexemes.length
  nests : AllGenuine lexemes → Nests portion.depth 0 lexemes

variable {portion : Portion} {xs ys : List Lexeme}

theorem Holds.nil {toCut : Bool} : Holds ⟨0, 0, toCut⟩ [] := ⟨Nat.le_refl 0, fun _ => .nil⟩

theorem Holds.append {m n depth : Nat} {b b' : Bool} (hxs : Holds ⟨m, 0, b⟩ xs)
    (hys : Holds ⟨n, depth, b'⟩ ys) : Holds ⟨m + n, depth, b'⟩ (xs ++ ys) := by
  have hinside : AllGenuine xs → ∀ depth, Nests depth depth xs := by
    intro hgenuine depth
    induction depth with
    | zero => exact hxs.nests hgenuine
    | succ depth ih => exact ih.inside
  refine ⟨?_, fun hgenuine => ?_⟩
  case refine_2 =>
    obtain ⟨hgenuine, hgenuine'⟩ := allGenuine_append.1 hgenuine
    exact (hinside hgenuine depth).append (hys.nests hgenuine')
  have hm : m ≤ xs.length := hxs.least
  have hn : n ≤ ys.length := hys.least
  show m + n ≤ (xs ++ ys).length
  rw [List.length_append]
  omega

theorem Holds.closed {n depth : Nat} {b b' : Bool} (hxs : Holds ⟨0, depth, b⟩ xs)
    (hys : Holds ⟨n, 0, b'⟩ ys) : Holds ⟨0, depth, b⟩ (xs ++ ys) := by
  refine ⟨Nat.zero_le _, fun hgenuine => ?_⟩
  obtain ⟨hgenuine, hgenuine'⟩ := allGenuine_append.1 hgenuine
  exact (hxs.nests hgenuine).append (hys.nests hgenuine')

end Portion

/-- At least so many lexemes, with every group that they open. -/
abbrev atLeast {α : Type} (least : Nat) (_ : α) : Portion := ⟨least, 0, true⟩

/-- Lexemes up to and with the one that closes a group. -/
abbrev upToClosing {α : Type} (_ : α) : Portion := ⟨0, 1, true⟩

/-- From one cursor to another, lexemes are read; nothing is read after the last of them. -/
structure Cursor.Reads (c : Cursor) (xs : List Lexeme) (d : Cursor) : Prop where
  rest : c.rest = xs ++ d.rest
  lastEnd : d.lastEnd = xs.foldl (fun _ lexeme => lexeme.span.stop) c.lastEnd

theorem Cursor.Reads.size_eq {c d : Cursor} {xs : List Lexeme} (h : c.Reads xs d) :
    c.size = xs.length + d.size := by
  rw [c.size_eq, d.size_eq, h.rest, List.length_append]

theorem Cursor.reads_next {c : Cursor} {lexeme : Lexeme} {lexemes : List Lexeme}
    (h : c.rest = lexeme :: lexemes) : c.Reads [lexeme] c.next := by
  rw [next_of_cons h]
  exact ⟨h, rfl⟩

theorem Cursor.Reads.append {c m d : Cursor} {xs ys : List Lexeme} (hxs : c.Reads xs m)
    (hys : m.Reads ys d) : c.Reads (xs ++ ys) d where
  rest := by rw [hxs.rest, hys.rest, List.append_assoc]
  lastEnd := by rw [List.foldl_append, ← hxs.lastEnd, hys.lastEnd]

theorem Cursor.reads_skip : ∀ {n : Nat} {c : Cursor}, n ≤ c.rest.length →
    c.Reads (c.rest.take n) (c.skip n)
  | 0, _, _ => ⟨rfl, rfl⟩
  | n + 1, c, h => by
    cases hrest : c.rest with
    | nil => simp [hrest] at h
    | cons lexeme lexemes =>
      have hlexemes : c.next.rest = lexemes := by rw [c.rest_next, hrest, List.tail_cons]
      have hskip := reads_skip (n := n) (c := c.next)
        (by rw [hlexemes]; simpa [hrest] using h)
      rw [hlexemes] at hskip
      exact (reads_next hrest).append hskip

/-- From where it stands, an action that reports no error and ends before the cut reads a portion,
and its counterpart reads the same from the text that is cut. Words are taken to be names. -/
def Local {α : Type} (cut : Cut) (portion : α → Portion) (A A' : Parse α) (c : Cursor) : Prop :=
  ∀ value d, A c = .ok value d → d.errors = [] → cut.left ≤ d.size →
    (d.size = cut.left → (portion value).toCut = true) →
      c.errors = [] ∧ (∃ xs, c.Reads xs d ∧ (portion value).Holds xs)
        ∧ (AllGenuine c.rest → A' (cut.cursor c) = .ok value (cut.cursor d))

section Combined

variable {α β : Type} {cut : Cut} {p q : α → Portion} {A A' : Parse α} {c : Cursor}

theorem Local.pure {value : α} (h : (q value).Holds []) :
    Local cut q (pure value) (pure value) c := by
  intro _ d hrun hclean _ _
  cases hrun
  exact ⟨hclean, ⟨[], ⟨rfl, rfl⟩, h⟩, fun _ => rfl⟩

theorem Local.weaken_of (h : Local cut p A A' c)
    (hholds : ∀ value xs, (p value).Holds xs → (q value).Holds xs)
    (hcut : ∀ value, (q value).toCut = true → (p value).toCut = true) : Local cut q A A' c := by
  intro value d hrun hclean hleft hend
  obtain ⟨herrors, ⟨xs, hxs, hportion⟩, hrun'⟩ :=
    h value d hrun hclean hleft fun hsize => hcut value (hend hsize)
  exact ⟨herrors, ⟨xs, hxs, hholds value xs hportion⟩, hrun'⟩

theorem Local.weaken {m n : Nat} (h : Local cut (atLeast m) A A' c) (hle : n ≤ m) :
    Local cut (atLeast n) A A' c :=
  h.weaken_of (fun _ _ hholds => ⟨Nat.le_trans hle hholds.least, hholds.nests⟩) fun _ h => h

theorem Local.bind_of {r : β → Portion} {s : α → β → Portion} {B B' : α → Parse β}
    (hA : Local cut p A A' c)
    (hB : ∀ value m, A c = .ok value m → Local cut (s value) (B value) (B' value) m)
    (hjoin : ∀ value result xs ys, (p value).Holds xs → (s value result).Holds ys →
      (r result).Holds (xs ++ ys))
    (hcut : ∀ value result, (r result).toCut = true →
      (s value result).toCut = true ∧ ((s value result).Holds [] → (p value).toCut = true)) :
    Local cut r (A >>= B) (A' >>= B') c := by
  intro result d hrun hclean hleft hend
  obtain ⟨value, m, hrunA, hrunB⟩ := bind_eq_ok_iff.1 hrun
  obtain ⟨hm, ⟨ys, hys, hholds⟩, hrunB'⟩ :=
    hB value m hrunA result d hrunB hclean hleft fun hsize => (hcut value result (hend hsize)).1
  have hsize := hys.size_eq
  obtain ⟨herrors, ⟨xs, hxs, hholds'⟩, hrunA'⟩ := hA value m hrunA hm (by omega) (by
    intro hm
    have hnil : ys = [] := List.eq_nil_of_length_eq_zero (by omega)
    exact (hcut value result (hend (by omega))).2 (hnil ▸ hholds))
  refine ⟨herrors, ⟨xs ++ ys, hxs.append hys, hjoin value result xs ys hholds' hholds⟩, ?_⟩
  intro hgenuine
  have hgenuine' : AllGenuine m.rest := (allGenuine_append.1 (hxs.rest ▸ hgenuine)).2
  rw [bind_of_ok (hrunA' hgenuine), hrunB' hgenuine']

theorem Local.bind {r : β → Portion} {B B' : α → Parse β} (hA : Local cut (atLeast 0) A A' c)
    (hB : ∀ value m, Local cut r (B value) (B' value) m) : Local cut r (A >>= B) (A' >>= B') c := by
  refine hA.bind_of (s := fun _ => r) (fun value m _ => hB value m)
    (fun _ result xs ys hxs hys => ?_) fun _ _ h => ⟨h, fun _ => rfl⟩
  have hjoin : Portion.Holds ⟨0 + (r result).least, (r result).depth, (r result).toCut⟩ (xs ++ ys) :=
    hxs.append hys
  simpa using hjoin

theorem Local.add {m n : Nat} {B B' : α → Parse β} (hA : Local cut (atLeast m) A A' c)
    (hB : ∀ value d, A c = .ok value d → Local cut (atLeast n) (B value) (B' value) d) :
    Local cut (atLeast (m + n)) (A >>= B) (A' >>= B') c :=
  hA.bind_of (s := fun _ => atLeast n) hB (fun _ _ _ _ hxs hys => hxs.append hys)
    fun _ _ h => ⟨h, fun _ => rfl⟩

theorem Local.seq {B B' : α → Parse β} (hA : Local cut (atLeast 1) A A' c)
    (hB : ∀ value d, Local cut (atLeast 0) (B value) (B' value) d) :
    Local cut (atLeast 1) (A >>= B) (A' >>= B') c :=
  hA.add fun value d _ => hB value d

theorem Local.closed {B B' : α → Parse β} (hA : Local cut upToClosing A A' c)
    (hB : ∀ value d, Local cut (atLeast 0) (B value) (B' value) d) :
    Local cut upToClosing (A >>= B) (A' >>= B') c :=
  hA.bind_of (s := fun _ => atLeast 0) (fun value d _ => hB value d)
    (fun _ _ _ _ hxs hys => hxs.closed hys) fun _ _ h => ⟨h, fun _ => rfl⟩

theorem Local.map {portion : Portion} {f : α → β} (hA : Local cut (fun _ => portion) A A' c) :
    Local cut (fun _ => portion) (f <$> A) (f <$> A') c := by
  intro result d hrun hclean hleft hend
  obtain ⟨value, hrunA, rfl⟩ := map_eq_ok_iff.1 hrun
  obtain ⟨herrors, hportion, hrunA'⟩ := hA value d hrunA hclean hleft hend
  exact ⟨herrors, hportion, fun hgenuine => map_eq_ok_iff.2 ⟨value, hrunA' hgenuine, rfl⟩⟩

theorem Local.discard {portion : Portion} (hA : Local cut (fun _ => portion) A A' c) :
    Local cut (fun _ => portion) (discard A) (discard A') c :=
  hA.map

/-- The counterpart sees another cursor, but what it takes from it is the same, because the lexemes
that it looks at are read by the action. -/
theorem Local.here {n : Nat} {b : Bool} {f f' : Cursor → Parse α}
    (h : Local cut (fun _ => ⟨n, 0, b⟩) (f c) (f' c) c)
    (hlook : n + cut.left ≤ c.size → f' (cut.cursor c) = f' c) :
    Local cut (fun _ => ⟨n, 0, b⟩) (cursor >>= f) (cursor >>= f') c := by
  intro value d hrun hclean hleft hend
  obtain ⟨herrors, ⟨xs, hxs, hportion⟩, hrun'⟩ := h value d hrun hclean hleft hend
  have hsize := hxs.size_eq
  have hn : n ≤ xs.length := hportion.least
  refine ⟨herrors, ⟨xs, hxs, hportion⟩, fun hgenuine => ?_⟩
  show f' (cut.cursor c) (cut.cursor c) = _
  rw [hlook (by omega), hrun' hgenuine]

theorem Local.isAt {n : Nat} {kind : TokenKind} {f f' : Bool → Parse α}
    (h : Local cut (atLeast n) (f (c.kind == kind)) (f' (c.kind == kind)) c)
    (hlook : n + cut.left ≤ c.size → f' ((cut.cursor c).kind == kind) = f' (c.kind == kind)) :
    Local cut (atLeast n) (Parse.isAt kind >>= f) (Parse.isAt kind >>= f') c :=
  show Local cut (atLeast n) (cursor >>= fun here => f (here.kind == kind))
    (cursor >>= fun here => f' (here.kind == kind)) c from .here h hlook

theorem Local.kind {n : Nat} {f f' : TokenKind → Parse α}
    (h : Local cut (atLeast n) (f c.kind) (f' c.kind) c)
    (hlook : n + cut.left ≤ c.size → f' (cut.cursor c).kind = f' c.kind) :
    Local cut (atLeast n) (Parse.kind >>= f) (Parse.kind >>= f') c :=
  show Local cut (atLeast n) (cursor >>= fun here => f here.kind)
    (cursor >>= fun here => f' here.kind) c from .here h hlook

/-- The failure of an action is reported, so a run without errors goes on with a value. -/
theorem Local.attempt {r : β → Portion} {s : α → β → Portion} {f f' : Except ParseError α → Parse β}
    (hA : Local cut p A A' c)
    (hok : ∀ value m, Local cut (s value) (f (.ok value)) (f' (.ok value)) m)
    (herror : ∀ error m result d, f (.error error) m = .ok result d → d.errors ≠ [])
    (hjoin : ∀ value result xs ys, (p value).Holds xs → (s value result).Holds ys →
      (r result).Holds (xs ++ ys))
    (hcut : ∀ value result, (r result).toCut = true →
      (s value result).toCut = true ∧ ((s value result).Holds [] → (p value).toCut = true)) :
    Local cut r (Parse.outcome A >>= f) (Parse.outcome A' >>= f') c := by
  have hvalue : Local cut r (A >>= fun value => f (.ok value)) (A' >>= fun value => f' (.ok value)) c :=
    hA.bind_of (fun value m _ => hok value m) hjoin hcut
  intro result d hrun hclean hleft hend
  cases hrunA : A c with
  | error error m =>
    refine absurd hclean (herror error m result d ?_)
    rw [← hrun, bind_of_ok (outcome_of_error hrunA)]
  | ok value m =>
    have hrun₁ : (A >>= fun value => f (.ok value)) c = .ok result d := by
      rw [bind_of_ok hrunA, ← hrun, bind_of_ok (outcome_of_ok hrunA)]
    obtain ⟨herrors, hportion, hrun'⟩ := hvalue result d hrun₁ hclean hleft hend
    refine ⟨herrors, hportion, fun hgenuine => ?_⟩
    obtain ⟨value', m', hrunA', hrunB'⟩ := bind_eq_ok_iff.1 (hrun' hgenuine)
    rw [bind_of_ok (outcome_of_ok hrunA'), hrunB']

end Combined

section Elementary

variable {α β : Type} {cut : Cut} {q s : α → Portion} {A A' : Parse α} {c : Cursor}

/-- An action that reads a lexeme and goes on. -/
theorem Local.head (B B' : Parse α) (hA : A c = B c.next)
    (hA' : (cut.cursor c).kind = c.kind → A' (cut.cursor c) = B' (cut.cursor c).next)
    (hkind : c.kind ≠ .endOfFile) (hB : Local cut s B B' c.next)
    (hjoin : ∀ value lexeme xs, lexeme.kind = c.kind → (s value).Holds xs →
      (q value).Holds (lexeme :: xs))
    (hcut : ∀ value, (q value).toCut = true → (s value).toCut = true) : Local cut q A A' c := by
  intro value d hrun hclean hleft hend
  obtain ⟨herrors, ⟨xs, hxs, hholds⟩, hrun'⟩ :=
    hB value d (hA ▸ hrun) hclean hleft fun hsize => hcut value (hend hsize)
  obtain ⟨lexeme, hrest, hlexeme⟩ := Cursor.rest_of_kind hkind
  have hread : c.Reads (lexeme :: xs) d := (Cursor.reads_next hrest).append hxs
  have hsize := hxs.size_eq
  have hlt : cut.left < c.size := by
    rw [c.size_eq, hrest, List.length_cons, ← Cursor.size_eq]
    omega
  refine ⟨?_, ⟨lexeme :: xs, hread, hjoin value lexeme xs hlexeme hholds⟩, ?_⟩
  · rw [← c.errors_next, herrors]
  · intro hgenuine
    rw [hA' (cut.kindAt_of_lt (by omega)), cut.next_cursor hlt,
      hrun' (allGenuine_cons.1 (hrest ▸ hgenuine)).2]

/-- Kinds of lexemes that neither open nor close a group and that something may end with. -/
def TokenKind.isPlain (kind : TokenKind) : Bool :=
  !kind.isOpen && !kind.isClose && kind != .dot && kind != .endOfFile

theorem TokenKind.isPlain_of_isName {kind : TokenKind} (h : kind.isName = true) :
    kind.isPlain = true := by
  cases kind <;> simp_all [isName, isPlain, isOpen, isClose]

theorem Portion.Holds.plain {n depth : Nat} {b : Bool} {lexeme : Lexeme} {xs : List Lexeme}
    (hkind : lexeme.IsGenuine → lexeme.kind.isPlain = true) (h : Portion.Holds ⟨n, depth, b⟩ xs) :
    Portion.Holds ⟨n + 1, depth, b⟩ (lexeme :: xs) := by
  refine ⟨Nat.succ_le_succ h.least, fun hgenuine => ?_⟩
  obtain ⟨hlexeme, hgenuine⟩ := allGenuine_cons.1 hgenuine
  have hplain := hkind hlexeme
  simp only [TokenKind.isPlain, Bool.and_eq_true, Bool.not_eq_true', bne_iff_ne] at hplain
  obtain ⟨⟨⟨hopen, hclose⟩, hdot⟩, -⟩ := hplain
  exact .plain hopen hclose (fun h => absurd h hdot) (h.nests hgenuine)

theorem TokenKind.ne_endOfFile_of_isPlain {kind : TokenKind} (h : kind.isPlain = true) :
    kind ≠ .endOfFile := by
  rintro rfl
  exact absurd h (by decide)

theorem Portion.Holds.opening {b : Bool} {lexeme : Lexeme} {xs : List Lexeme}
    (hkind : lexeme.kind.isOpen = true) (h : Portion.Holds ⟨0, 1, b⟩ xs) :
    Portion.Holds ⟨1, 0, b⟩ (lexeme :: xs) :=
  ⟨by simp, fun hgenuine => .opening hkind (h.nests (allGenuine_cons.1 hgenuine).2)⟩

theorem Portion.Holds.closing {b : Bool} {lexeme : Lexeme} {xs : List Lexeme}
    (hkind : lexeme.kind.isClose = true) (h : Portion.Holds ⟨0, 0, b⟩ xs) :
    Portion.Holds ⟨0, 1, b⟩ (lexeme :: xs) :=
  ⟨Nat.zero_le _, fun hgenuine => .closing hkind (h.nests (allGenuine_cons.1 hgenuine).2)⟩

/-- An action that looks for a lexeme in vain and goes on. -/
theorem Local.missed (B B' : Parse α) {kinds : List TokenKind} (hA : A c = B (c.expect kinds))
    (hA' : cut.left ≤ c.size → ((∀ value, (q value).toCut = false) → cut.left < c.size) →
      A' (cut.cursor c) = B' ((cut.cursor c).expect kinds))
    (hB : Local cut q B B' (c.expect kinds)) : Local cut q A A' c := by
  intro value d hrun hclean hleft hend
  obtain ⟨herrors, ⟨xs, hxs, hholds⟩, hrun'⟩ := hB value d (hA ▸ hrun) hclean hleft hend
  have hsize : c.size = xs.length + d.size := hxs.size_eq
  refine ⟨herrors, ⟨xs, ⟨hxs.rest, hxs.lastEnd⟩, hholds⟩, fun hgenuine => ?_⟩
  rw [hA' (by omega), ← hrun' hgenuine]
  · rfl
  · intro hcut
    have hne : d.size ≠ cut.left := fun h => by simpa [hcut] using hend h
    omega

variable {kind : TokenKind}

theorem next_local (h : c.kind.isPlain = true) : Local cut (atLeast 1) next next c :=
  .head (s := atLeast 0) (pure ()) (pure ()) rfl (fun _ => rfl)
    (TokenKind.ne_endOfFile_of_isPlain h) (.pure .nil)
    (fun _ _ _ hkind hxs => hxs.plain fun _ => hkind ▸ h) fun _ h => h

theorem skip_local : ∀ {n : Nat} {c : Cursor}, (∀ i < n, (c.kindAt i).isPlain = true) →
    Local cut (atLeast n) (skip n) (skip n) c
  | 0, _, _ => .pure .nil
  | n + 1, c, h => by
    have hnext : ∀ i < n, (c.next.kindAt i).isPlain = true := by
      intro i hi
      obtain ⟨lexeme, hrest, -⟩ :=
        Cursor.rest_of_kind (TokenKind.ne_endOfFile_of_isPlain (h 0 (Nat.succ_pos n)))
      have := h (i + 1) (Nat.succ_lt_succ hi)
      rw [Cursor.kindAt, Cursor.peek?, hrest] at this
      exact this
    exact .head (s := atLeast n) (skip n) (skip n) rfl (fun _ => rfl)
      (TokenKind.ne_endOfFile_of_isPlain (h 0 (Nat.succ_pos n))) (skip_local hnext)
      (fun _ _ _ hkind hxs => hxs.plain fun _ => hkind ▸ h 0 (Nat.succ_pos n)) fun _ h => h

theorem eat_local_of_kind (hkind : kind.isPlain = true) (h : c.kind = kind) :
    Local cut (atLeast 1) (eat kind) (eat kind) c :=
  .head (s := atLeast 0) (pure true) (pure true) (eat_of_kind h)
    (fun h' => eat_of_kind (h'.trans h)) (h ▸ TokenKind.ne_endOfFile_of_isPlain hkind)
    (.pure .nil) (fun _ _ _ hlexeme hxs => hxs.plain fun _ => hlexeme ▸ h ▸ hkind) fun _ h => h

theorem eat_local (hkind : kind.isPlain = true) (hne : kind ≠ .semicolon) :
    Local cut (atLeast 0) (eat kind) (eat kind) c := by
  by_cases h : c.kind = kind
  · exact (eat_local_of_kind hkind h).weaken (Nat.zero_le 1)
  · exact .missed (pure false) (pure false) (eat_of_ne h)
      (fun hle _ => eat_of_ne (cut.kind_ne hle h hne)) (.pure .nil)

/-- Where a semicolon may be read, the action must not end at the cut. -/
theorem Local.semicolon {f f' : Bool → Parse α} (hq : ∀ value, q value = ⟨0, 0, false⟩)
    (hf : ∀ found m, Local cut q (f found) (f' found) m) :
    Local cut q (eat .semicolon >>= f) (eat .semicolon >>= f') c := by
  by_cases h : c.kind = .semicolon
  · refine .head _ _ (bind_of_ok (eat_of_kind h)) (fun h' => bind_of_ok (eat_of_kind (h'.trans h)))
      (by rw [h]; decide) (hf true _) (fun value lexeme xs hkind hxs => ?_) fun _ h => h
    have hread := hxs.plain fun _ => (by rw [hkind, h]; rfl : lexeme.kind.isPlain = true)
    rw [hq] at hread ⊢
    exact ⟨Nat.zero_le _, hread.nests⟩
  · refine .missed _ _ (bind_of_ok (eat_of_ne h)) (fun hle hend => bind_of_ok (eat_of_ne ?_))
      (hf false _)
    have hlt : cut.left < c.size := hend fun value => by rw [hq]
    rw [Cursor.kind, cut.kindAt_of_lt (by omega)]
    exact h

theorem Local.unlessAtEnd {f f' : Unit → Parse α} (hf : Local cut q (f ()) (f' ()) c) :
    Local cut q
      (Parse.isAt .endOfFile >>= fun found => if found then Parse.unexpected >>= f else f ())
      (Parse.isAt .endOfFile >>= fun found => if found then Parse.unexpected >>= f' else f' ()) c := by
  intro value d hrun hclean hleft hend
  rw [isAt_bind] at hrun ⊢
  change (if (c.kind == .endOfFile) = true then Parse.unexpected >>= f else f ()) c = _ at hrun
  by_cases h : c.kind = .endOfFile
  · rw [if_pos (beq_iff_eq.2 h)] at hrun
    cases hrun
  · rw [if_neg (by simpa using h)] at hrun
    obtain ⟨herrors, ⟨xs, hxs, hholds⟩, hrun'⟩ := hf value d hrun hclean hleft hend
    have hsize := hxs.size_eq
    refine ⟨herrors, ⟨xs, hxs, hholds⟩, fun hgenuine => ?_⟩
    show (if ((cut.cursor c).kind == .endOfFile) = true then Parse.unexpected >>= f' else f' ()) _ = _
    rw [if_neg (by simpa using cut.kind_ne (by omega) h (by decide)), hrun' hgenuine]

theorem expect_of_ok {value : Unit} {d : Cursor} (h : expect kind c = .ok value d) :
    c.kind = kind := by
  by_cases hkind : c.kind = kind
  · exact hkind
  · rw [expect_of_ne hkind] at h
    cases h

/-- An action that begins with a lexeme that has to be next. -/
theorem Local.expected (B B' : Parse α) (hok : ∀ value d, A c = .ok value d → c.kind = kind)
    (hA : c.kind = kind → A c = B c.next)
    (hA' : (cut.cursor c).kind = kind → A' (cut.cursor c) = B' (cut.cursor c).next)
    (hend : kind ≠ .endOfFile) (hB : Local cut s B B' c.next)
    (hjoin : ∀ value lexeme xs, lexeme.kind = kind → (s value).Holds xs →
      (q value).Holds (lexeme :: xs))
    (hcut : ∀ value, (q value).toCut = true → (s value).toCut = true) : Local cut q A A' c := by
  by_cases h : c.kind = kind
  · exact .head B B' (hA h) (fun h' => hA' (h'.trans h)) (h ▸ hend) hB
      (fun value lexeme xs hkind => hjoin value lexeme xs (hkind.trans h)) hcut
  · exact fun value d hrun => absurd (hok value d hrun) h

theorem expect_local (hkind : kind.isPlain = true) :
    Local cut (atLeast 1) (expect kind) (expect kind) c :=
  .expected (s := atLeast 0) (pure ()) (pure ()) (fun _ _ => expect_of_ok)
    expect_of_kind expect_of_kind (TokenKind.ne_endOfFile_of_isPlain hkind) (.pure .nil)
    (fun _ _ _ h hxs => hxs.plain fun _ => h ▸ hkind) fun _ h => h

theorem TokenKind.ne_endOfFile_of_isOpen (h : kind.isOpen = true) : kind ≠ .endOfFile := by
  rintro rfl
  cases h

theorem TokenKind.ne_endOfFile_of_isClose (h : kind.isClose = true) : kind ≠ .endOfFile := by
  rintro rfl
  cases h

theorem TokenKind.ne_semicolon_of_isClose (h : kind.isClose = true) : kind ≠ .semicolon := by
  rintro rfl
  cases h

theorem closing_local (hkind : kind.isClose = true) :
    Local cut upToClosing (expect kind) (expect kind) c :=
  .expected (s := atLeast 0) (pure ()) (pure ()) (fun _ _ => expect_of_ok)
    expect_of_kind expect_of_kind (TokenKind.ne_endOfFile_of_isClose hkind) (.pure .nil)
    (fun _ _ _ h hxs => hxs.closing (h ▸ hkind)) fun _ h => h

theorem Local.group {f f' : Unit → Parse α} (hkind : kind.isOpen = true)
    (hf : ∀ m, Local cut upToClosing (f ()) (f' ()) m) :
    Local cut (atLeast 1) (expect kind >>= f) (expect kind >>= f') c := by
  refine .expected (s := upToClosing) (f ()) (f' ()) (fun value d hrun => ?_)
    (fun h => bind_of_ok (expect_of_kind h)) (fun h => bind_of_ok (expect_of_kind h))
    (TokenKind.ne_endOfFile_of_isOpen hkind) (hf _) (fun _ _ _ h hxs => hxs.opening (h ▸ hkind))
    fun _ h => h
  obtain ⟨_, _, hexpect, -⟩ := bind_eq_ok_iff.1 hrun
  exact expect_of_ok hexpect

/-- A group whose opening delimiter has been seen. -/
theorem Local.opened {f f' : Unit → Parse α} (hkind : c.kind.isOpen = true)
    (hf : ∀ m, Local cut upToClosing (f ()) (f' ()) m) :
    Local cut (atLeast 1) (next >>= f) (next >>= f') c :=
  .head (s := upToClosing) (f ()) (f' ()) rfl (fun _ => rfl)
    (TokenKind.ne_endOfFile_of_isOpen hkind) (hf _)
    (fun _ _ _ h hxs => hxs.opening (h ▸ hkind)) fun _ h => h

/-- The lexeme that closes a group, or what else the group goes on with. -/
theorem Local.close {B B' : Parse α} {value : α} {toCut : Bool} (hkind : kind.isClose = true)
    (hvalue : q value = ⟨0, 1, toCut⟩) (hB : ∀ m, Local cut q B B' m) :
    Local cut q (eat kind >>= fun found => if found then Pure.pure value else B)
      (eat kind >>= fun found => if found then Pure.pure value else B') c := by
  by_cases h : c.kind = kind
  · intro result d hrun hclean hleft _
    rw [bind_of_ok (eat_of_kind h)] at hrun
    cases hrun
    obtain ⟨lexeme, hrest, hlexeme⟩ :=
      Cursor.rest_of_kind (h ▸ TokenKind.ne_endOfFile_of_isClose hkind)
    have hsize := c.size_next
    have hlt : cut.left < c.size := by
      rw [c.size_eq, hrest, List.length_cons, ← Cursor.size_eq]
      omega
    refine ⟨c.errors_next ▸ hclean, ⟨[lexeme], Cursor.reads_next hrest, ?_⟩, fun _ => ?_⟩
    · rw [hvalue]
      exact Portion.Holds.nil.closing (by rw [hlexeme, h, hkind])
    · rw [bind_of_ok (eat_of_kind ((cut.kindAt_of_lt (by omega)).trans h)), cut.next_cursor hlt]
      rfl
  · exact .missed _ _ (bind_of_ok (eat_of_ne h)) (fun hle _ => bind_of_ok (eat_of_ne (cut.kind_ne hle h
      (TokenKind.ne_semicolon_of_isClose hkind)))) (hB _)

/-- The lexeme that closes a group and what follows it, or what else the group goes on with. -/
theorem Local.close_or {A A' B B' : Parse α} (hkind : kind.isClose = true)
    (hA : ∀ m, Local cut (atLeast 0) A A' m) (hB : ∀ m, Local cut upToClosing B B' m) :
    Local cut upToClosing (eat kind >>= fun found => if found then A else B)
      (eat kind >>= fun found => if found then A' else B') c := by
  by_cases h : c.kind = kind
  · exact .head (s := atLeast 0) _ _ (bind_of_ok (eat_of_kind h))
      (fun h' => bind_of_ok (eat_of_kind (h'.trans h)))
      (h ▸ TokenKind.ne_endOfFile_of_isClose hkind) (hA _)
      (fun _ _ _ hlexeme hxs => hxs.closing (by rw [hlexeme, h, hkind])) fun _ h => h
  · exact .missed _ _ (bind_of_ok (eat_of_ne h)) (fun hle _ => bind_of_ok (eat_of_ne (cut.kind_ne hle h
      (TokenKind.ne_semicolon_of_isClose hkind)))) (hB _)

/-- A dot and what has to follow it. -/
theorem Local.dot_of_kind {f f' : Bool → Parse α} (h : c.kind = .dot)
    (hf : ∀ m, Local cut (atLeast 1) (f true) (f' true) m) :
    Local cut (atLeast 2) (eat .dot >>= f) (eat .dot >>= f') c := by
  refine .head (s := atLeast 1) _ _ (bind_of_ok (eat_of_kind h))
    (fun h' => bind_of_ok (eat_of_kind (h'.trans h))) (by rw [h]; decide) (hf _)
    (fun _ lexeme xs hkind hxs => ⟨Nat.succ_le_succ hxs.least, fun hgenuine => ?_⟩) fun _ h => h
  have hne : xs ≠ [] := by
    rintro rfl
    exact absurd hxs.least (Nat.not_succ_le_zero 0)
  rw [h] at hkind
  exact .plain (by rw [hkind]; rfl) (by rw [hkind]; rfl) (fun _ => hne)
    (hxs.nests (allGenuine_cons.1 hgenuine).2)

theorem Local.dot {f f' : Bool → Parse α} (htrue : ∀ m, Local cut (atLeast 1) (f true) (f' true) m)
    (hfalse : ∀ m, Local cut (atLeast 0) (f false) (f' false) m) :
    Local cut (atLeast 0) (eat .dot >>= f) (eat .dot >>= f') c := by
  by_cases h : c.kind = .dot
  · exact (Local.dot_of_kind h htrue).weaken (Nat.zero_le 2)
  · exact .missed _ _ (bind_of_ok (eat_of_ne h)) (fun hle _ => bind_of_ok (eat_of_ne (cut.kind_ne hle h
      (by decide)))) (hfalse _)

theorem spanFrom_local (start : Nat) : Local cut (atLeast 0) (spanFrom start) (spanFrom start) c :=
  .here (.pure .nil) fun _ => rfl

theorem Local.ite {p : Prop} [Decidable p] {B B' : Parse α} (hA : p → Local cut q A A' c)
    (hB : ¬ p → Local cut q B B' c) :
    Local cut q (if p then A else B) (if p then A' else B') c := by
  by_cases hp : p
  · rw [if_pos hp, if_pos hp]
    exact hA hp
  · rw [if_neg hp, if_neg hp]
    exact hB hp

theorem placed_local (f : Text.Span → α) (start : Nat) (c : Cursor) : Local cut (atLeast 0)
    (do return f (← spanFrom start)) (do return f (← spanFrom start)) c :=
  (spanFrom_local start).bind fun _ _ => .pure .nil

/-- A test of what is next. Where it holds, the lexemes that it looks at are read; where it does not, it does
not hold in the text that is cut either. -/
theorem Local.branch {n k : Nat} {test : Cursor → Bool} {f f' g g' : Cursor → Parse α} (hle : k ≤ n)
    (htrue : test c = true → Local cut (atLeast n) (f c) (f' c) c)
    (hfalse : test c = false → Local cut (atLeast k) (g c) (g' c) c)
    (hread : n + cut.left ≤ c.size → test (cut.cursor c) = test c ∧ f' (cut.cursor c) = f' c)
    (hleft : k + cut.left ≤ c.size → test c = false →
      test (cut.cursor c) = false ∧ g' (cut.cursor c) = g' c) :
    Local cut (atLeast k) (cursor >>= fun here => if test here then f here else g here)
      (cursor >>= fun here => if test here then f' here else g' here) c := by
  cases htest : test c with
  | true =>
    refine Local.weaken (m := n) (.here ?_ fun hsize => ?_) hle
    · rw [if_pos htest, if_pos htest]
      exact htrue htest
    · rw [(hread hsize).1, (hread hsize).2, if_pos htest, if_pos htest]
  | false =>
    have hne : ¬ test c = true := Bool.eq_false_iff.1 htest
    refine .here ?_ fun hsize => ?_
    · rw [if_neg hne, if_neg hne]
      exact hfalse htest
    · rw [(hleft hsize htest).1, (hleft hsize htest).2, if_neg Bool.false_ne_true, if_neg hne]

/-- A value after a lexeme that may be missing. -/
theorem Local.optional {β : Type} {A A' : Parse β} (hA : ∀ m, Local cut (atLeast 1) A A' m)
    (hkind : kind.isPlain = true) (hne : kind ≠ .semicolon) {f f' : Option β → Parse α}
    (hf : ∀ value m, Local cut (atLeast 0) (f value) (f' value) m) :
    Local cut (atLeast 0)
      (eat kind >>= fun found => if found then some <$> A >>= f else Pure.pure none >>= f)
      (eat kind >>= fun found => if found then some <$> A' >>= f' else Pure.pure none >>= f') c := by
  refine (eat_local hkind hne).bind fun found m => .ite (fun _ => ?_) fun _ => ?_
  · exact ((hA m).weaken (Nat.zero_le 1)).map.bind hf
  · have hnone : Local cut (atLeast 0) (Pure.pure none : Parse (Option β)) (Pure.pure none) m :=
      .pure .nil
    exact hnone.bind hf

theorem Local.unexpected : Local cut q (Parse.unexpected : Parse α) A' c := by
  intro _ _ hrun
  cases hrun

end Elementary

section Repeated

variable {cut : Cut} {ι σ α : Type}

section Recursion

variable {q : ι → α → Portion} {body body' : (ι → Parse α) → ι → Parse α}

/-- What limits the calls of an action moves with the cut. -/
theorem below_local {c : Cursor}
    (h : ∀ i m, m.size < c.size → Local cut (q i) (fix body i) (fix body' i) m) (i : ι) (m : Cursor) :
    Local cut (q i) (below c.size (fix body i)) (below (cut.cursor c).size (fix body' i)) m := by
  intro value d hrun hclean hleft hend
  unfold below at hrun
  split at hrun
  · rename_i hlt
    obtain ⟨herrors, ⟨xs, hxs, hholds⟩, hrun'⟩ := h i m hlt value d hrun hclean hleft hend
    have hsize := hxs.size_eq
    refine ⟨herrors, ⟨xs, hxs, hholds⟩, fun hgenuine => ?_⟩
    unfold below
    rw [if_pos, hrun' hgenuine]
    rw [cut.size_cursor, cut.size_cursor]
    omega
  · cases hrun

theorem fix_local
    (hbody : ∀ call call' : ι → Parse α, (∀ i m, Local cut (q i) (call i) (call' i) m) →
      ∀ i m, Local cut (q i) (body call i) (body' call' i) m) (i : ι) (c : Cursor) :
    Local cut (q i) (fix body i) (fix body' i) c := by
  generalize hn : c.size = n
  induction n using Nat.strongRecOn generalizing i c with
  | ind n ih =>
    intro value d hrun hclean hleft hend
    rw [fix_eq] at hrun
    rw [fix_eq]
    refine hbody _ _ (below_local fun j m hlt => ?_) i c value d hrun hclean hleft hend
    exact ih m.size (hn ▸ hlt) j m rfl

/-- More may be known of the first call than of the others. -/
theorem fix_local_first
    (hbody : ∀ call call' : ι → Parse α, (∀ i m, Local cut (q i) (call i) (call' i) m) →
      ∀ i m, Local cut (q i) (body call i) (body' call' i) m) {i : ι} {c : Cursor} {r : α → Portion}
    (hfirst : ∀ call call' : ι → Parse α, (∀ i m, Local cut (q i) (call i) (call' i) m) →
      Local cut r (body call i) (body' call' i) c) :
    Local cut r (fix body i) (fix body' i) c := by
  intro value d hrun hclean hleft hend
  rw [fix_eq] at hrun
  rw [fix_eq]
  exact hfirst _ _ (below_local fun j m _ => fix_local hbody j m) value d hrun hclean hleft hend

end Recursion

/-- A step that goes on reads lexemes with all groups they open; the last step may leave a group
that was open before. -/
theorem repeatFrom_local {step step' : σ → Parse (σ ⊕ α)} {depth : Nat} {b e : Bool}
    (hstep : ∀ state c, Local cut (Sum.elim (fun _ => ⟨0, 0, b⟩) fun _ => ⟨0, depth, e⟩)
      (step state) (step' state) c)
    (hmore : e = true → depth = 0 → b = true) (state : σ) (c : Cursor) :
    Local cut (fun _ => ⟨0, depth, e⟩) (repeatFrom step state) (repeatFrom step' state) c := by
  refine fix_local (q := fun _ _ => ⟨0, depth, e⟩) (fun call call' hcall state m => ?_) state c
  refine (hstep state m).bind_of
    (s := Sum.elim (fun _ _ => ⟨0, depth, e⟩) fun _ _ => ⟨0, 0, true⟩) ?_ ?_ ?_
  · rintro (state | result) m _
    · exact hcall state m
    · exact .pure .nil
  · rintro (_ | _) _ xs ys hxs hys
    · exact hxs.append hys
    · exact hxs.closed hys
  · rintro (_ | _) _ hcut
    · refine ⟨hcut, fun hnil => hmore hcut ?_⟩
      cases hnil.nests allGenuine_nil
      rfl
    · exact ⟨rfl, fun _ => hcut⟩

section Steps

variable {step step' : σ → Parse (σ ⊕ α)}
  (hstep : ∀ state c, Local cut (atLeast 0) (step state) (step' state) c)
include hstep

theorem repeated_local (state : σ) (c : Cursor) :
    Local cut (atLeast 0) (repeatFrom step state) (repeatFrom step' state) c := by
  refine repeatFrom_local (b := true) (fun state c => (hstep state c).weaken_of ?_ ?_)
    (fun _ _ => rfl) state c
  · rintro (_ | _) _ h
    · exact h
    · exact h
  · rintro (_ | _) _
    · rfl
    · rfl

/-- A repetition reads no less than its first step. -/
theorem repeated_local_first {n : Nat} {state : σ} {c : Cursor}
    (hfirst : Local cut (atLeast n) (step state) (step' state) c) :
    Local cut (atLeast n) (repeatFrom step state) (repeatFrom step' state) c := by
  refine fix_local_first (q := fun _ => atLeast 0) (fun call call' hcall state m => ?_)
    fun call call' hcall => ?_
  · refine (hstep state m).bind fun result d => ?_
    rcases result with state | result
    · exact hcall state d
    · exact .pure .nil
  · refine hfirst.add (n := 0) fun result d _ => ?_
    rcases result with state | result
    · exact hcall state d
    · exact .pure .nil

end Steps

theorem enclosed_local {opening closing : TokenKind} {item item' : Parse α}
    (hopening : opening.isOpen = true) (hclosing : closing.isClose = true)
    (hitem : ∀ c, Local cut (atLeast 0) item item' c) (c : Cursor) :
    Local cut (atLeast 1) (enclosed opening item closing) (enclosed opening item' closing) c := by
  unfold enclosed
  refine .group hopening fun m => repeatFrom_local (b := true) (fun items c => ?_) (fun _ _ => rfl) _ _
  refine .close hclosing rfl fun m => (hitem m).bind fun item m => ?_
  refine .close hclosing rfl fun m => ?_
  exact ((expect_local rfl).weaken (Nat.zero_le 1)).bind fun _ m => .pure .nil

/-- Delimiters that also occur as operators do not count as such. -/
theorem enclosed_local_of_plain {opening closing : TokenKind} {item item' : Parse α}
    (hopening : opening.isPlain = true) (hclosing : closing.isPlain = true)
    (hne : closing ≠ .semicolon) (hitem : ∀ c, Local cut (atLeast 0) item item' c) (c : Cursor) :
    Local cut (atLeast 1) (enclosed opening item closing) (enclosed opening item' closing) c := by
  unfold enclosed
  refine (expect_local hopening).seq fun _ m => repeated_local (fun items c => ?_) _ _
  refine (eat_local hclosing hne).bind fun _ m => .ite (fun _ => .pure .nil) fun _ => ?_
  refine (hitem m).bind fun item m => ?_
  refine (eat_local hclosing hne).bind fun _ m => .ite (fun _ => .pure .nil) fun _ => ?_
  exact ((expect_local rfl).weaken (Nat.zero_le 1)).bind fun _ m => .pure .nil

end Repeated

section Names

variable {cut : Cut} {c : Cursor}

namespace Cut

variable (h : cut.left < c.size)
include h

theorem peek?_of_read : (cut.cursor c).peek? 0 = c.peek? 0 := cut.peek?_of_lt (by omega)

theorem kind_of_read : (cut.cursor c).kind = c.kind := cut.kindAt_of_lt (by omega)

theorem textAt_of_read : (cut.cursor c).textAt 0 = c.textAt 0 := by
  unfold Cursor.textAt
  rw [cut.peek?_of_read h]

theorem start_of_read : (cut.cursor c).start = c.start := by
  unfold Cursor.start
  rw [cut.peek?_of_read h]
  rfl

theorem comments_of_read : (cut.cursor c).comments = c.comments := by
  unfold Cursor.comments
  rw [cut.peek?_of_read h]

theorem startsLine_of_read : (cut.cursor c).startsLine = c.startsLine := by
  unfold Cursor.startsLine
  rw [cut.peek?_of_read h]

end Cut

theorem missing_local {q : Ident → Portion} : Local cut q ident.missing ident.missing c := by
  intro _ _ hrun
  cases hrun

theorem ident_local (c : Cursor) : Local cut (atLeast 1) ident ident c := by
  unfold ident
  refine .here ?_ fun h => by rw [cut.peek?_of_read (by omega)]
  cases hpeek : c.peek? 0 with
  | none => exact missing_local
  | some lexeme =>
    refine .ite (fun hname => ?_) fun _ => missing_local
    have hkind : c.kind = lexeme.kind := by rw [Cursor.kind, Cursor.kindAt, hpeek]; rfl
    refine (next_local ?_).seq fun _ _ => .pure .nil
    rw [hkind, TokenKind.isPlain_of_isName hname]

theorem ident_of_ok {value : Ident} {d : Cursor} (h : ident c = .ok value d) : d = c.next := by
  unfold ident at h
  rw [bind_of_ok (rfl : cursor c = .ok c c)] at h
  cases hpeek : c.peek? 0 with
  | none =>
    rw [hpeek] at h
    cases h
  | some lexeme =>
    rw [hpeek] at h
    by_cases hname : lexeme.kind.isName = true
    · simp only [hname] at h
      cases h
      rfl
    · simp only [hname] at h
      cases h

theorem propertyName_local (c : Cursor) : Local cut (atLeast 1) propertyName propertyName c := by
  unfold propertyName
  refine .here ?_ fun h => by rw [cut.peek?_of_read (by omega)]
  cases hpeek : c.peek? 0 with
  | none => exact ident_local c
  | some lexeme =>
    have hkind : c.kind = lexeme.kind := by rw [Cursor.kind, Cursor.kindAt, hpeek]; rfl
    dsimp only
    split
    · rename_i h
      exact (next_local (by rw [hkind, h]; rfl)).seq fun _ _ => .pure .nil
    · rename_i h
      exact (next_local (by rw [hkind, h]; rfl)).seq fun _ _ => .pure .nil
    · exact ident_local c

theorem namePart_local (parts : List Ident) (c : Cursor) :
    Local cut (atLeast 0) (namePart parts) (namePart parts) c := by
  refine .dot (fun m => ?_) fun m => ?_
  · exact (ident_local m).seq fun _ _ => .pure .nil
  · exact .pure .nil

theorem nameParts_local_of_dot (h : c.kind = .dot) :
    Local cut (atLeast 2) (repeatFrom namePart []) (repeatFrom namePart []) c := by
  refine repeated_local_first namePart_local (.dot_of_kind h fun m => ?_)
  exact (ident_local m).seq fun _ _ => .pure .nil

theorem entityName_local (c : Cursor) : Local cut (atLeast 1) entityName entityName c := by
  unfold entityName
  refine .here ?_ fun h => by rw [cut.start_of_read (by omega)]
  refine (ident_local c).seq fun first m => (repeated_local namePart_local [] m).bind fun rest m => ?_
  exact (spanFrom_local c.start).bind fun _ _ => .pure .nil

theorem entityName_local_of_dot (h : c.kindAt 1 = .dot) :
    Local cut (atLeast 2) entityName entityName c := by
  unfold entityName
  refine .here ?_ fun h => by rw [cut.start_of_read (by omega)]
  refine (ident_local c).add (n := 1) fun first m hident => ?_
  have hdot : m.kind = .dot := by rw [ident_of_ok hident, Cursor.kind, Cursor.kindAt_next, h]
  refine ((nameParts_local_of_dot hdot).weaken (by decide)).seq fun rest m => ?_
  exact (spanFrom_local c.start).bind fun _ _ => .pure .nil

theorem skipGroup_local {opening : TokenKind} (hopening : opening.isOpen = true) (c : Cursor) :
    Local cut (atLeast 1) (skipGroup opening) (skipGroup opening) c := by
  unfold skipGroup
  refine .group hopening fun m => ?_
  intro _ d hrun hclean hleft _
  rw [bind_of_ok (rfl : cursor m = .ok m m)] at hrun
  cases hlength : groupLength? 1 m.rest with
  | none =>
    rw [hlength] at hrun
    cases hrun
  | some n =>
    rw [hlength] at hrun
    cases hrun
    obtain ⟨hle, hnests⟩ := nests_of_groupLength? hlength
    have hsize : n + cut.left ≤ m.size := by
      rw [Cursor.size_eq, Cursor.rest_skip, List.length_drop] at hleft
      rw [m.size_eq]
      omega
    have hlength' : groupLength? 1 (cut.cursor m).rest = some n :=
      groupLength?_take hlength (by omega) _
    have hholds : Portion.Holds ⟨0, 1, true⟩ (m.rest.take n) := ⟨Nat.zero_le _, fun _ => hnests⟩
    refine ⟨m.errors_skip n ▸ hclean, ⟨m.rest.take n, Cursor.reads_skip hle, hholds⟩, fun _ => ?_⟩
    rw [bind_of_ok (rfl : cursor (cut.cursor m) = .ok (cut.cursor m) _)]
    rw [hlength', ← cut.skip_cursor hsize]
    rfl

end Names

end NodeFactory
