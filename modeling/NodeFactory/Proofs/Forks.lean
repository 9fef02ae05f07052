import NodeFactory.Proofs.Locality

/-!
# Where a text goes on differently

Two texts have the same lexemes up to a fork. Behind it, one goes on with a semicolon, the other with a lexeme
that may stand behind a member of an interface. An action persists if, where it ends before the fork or at it, it
comes to the same value and ends at the same place in both texts (`Persists`). What it has looked for at the fork
it finds in both texts or in neither.

Only runs that report no error count. An action that would read on in one of the texts where it stops in the
other has to end some lexemes before the fork; its reading says how many.
-/

namespace NodeFactory

open Parse

/-- What stands behind a member: a separator, the brace that closes the members, or the first lexeme of the next
member. -/
def TokenKind.mayFollow : TokenKind → Bool
  | .closeBrace | .semicolon | .comma => true
  | .keyword _ | .identifier | .string | .number | .openBracket | .openParen | .less => true
  | _ => false

/-- What is read on behind a name, also on a new line: type arguments, and the `is` of a predicate. -/
def TokenKind.GoesOn (last : TokenKind) (first : Lexeme) : Prop :=
  last.isName = true ∧ (first.kind = .less ∨ first.kind = .identifier ∧ first.text = ['i', 's'])

/-- A lexeme that a type does not go on with behind its last lexeme. -/
structure Lexeme.EndsType (last first : Lexeme) : Prop where
  kind : first.kind.mayFollow = true
  onNewLine : first.kind = .openBracket ∨ first.kind = .less → first.startsLine = true
  not_goesOn : ¬ last.kind.GoesOn first

/-- How two texts go on behind what they have in common, of which the last lexeme is given. -/
structure Fork where
  last : Lexeme
  semicolon : Lexeme
  behind : List Lexeme
  first : Lexeme
  more : List Lexeme
  ends : semicolon.kind = .semicolon
  follows : last.EndsType first

namespace Fork

variable (fork : Fork) {c c' : Cursor} {n : Nat}

/-- How many lexemes are left at the fork. -/
def size : Nat := fork.behind.length + 1

/-- Two cursors stand before the same lexemes up to the fork. What was looked for may differ. -/
structure Beside (c c' : Cursor) : Prop where
  rest : ∃ xs, c.rest = xs ++ fork.semicolon :: fork.behind ∧ c'.rest = xs ++ fork.first :: fork.more
    ∧ ∀ ys lexeme, xs = ys ++ [lexeme] → lexeme = fork.last
  genuine : AllGenuine c.rest
  lastEnd : c.lastEnd = c'.lastEnd
  errors : c.errors = c'.errors

variable {fork}

theorem Beside.size_le (h : fork.Beside c c') : fork.size ≤ c.size := by
  obtain ⟨xs, hc, -⟩ := h.rest
  rw [c.size_eq, hc, List.length_append, List.length_cons, size]
  omega

theorem Beside.size_eq (h : fork.Beside c c') : c'.size + fork.size = c.size + (fork.more.length + 1) := by
  obtain ⟨xs, hc, hc', -⟩ := h.rest
  rw [c.size_eq, c'.size_eq, hc, hc', List.length_append, List.length_append, List.length_cons, List.length_cons,
    size]
  omega

/-- Before the fork there is the same lexeme in both texts. -/
theorem Beside.peek?_of_lt (h : fork.Beside c c') (hn : n + fork.size < c.size) : c'.peek? n = c.peek? n := by
  obtain ⟨xs, hc, hc', -⟩ := h.rest
  have hlt : n < xs.length := by
    rw [c.size_eq, hc, List.length_append, List.length_cons, size] at hn
    omega
  rw [Cursor.peek?, Cursor.peek?, hc, hc', List.getElem?_append_left hlt, List.getElem?_append_left hlt]

/-- At the fork there is the semicolon, and what may follow in its place. -/
theorem Beside.peek?_of_eq (h : fork.Beside c c') (hn : n + fork.size = c.size) :
    c.peek? n = some fork.semicolon ∧ c'.peek? n = some fork.first := by
  obtain ⟨xs, hc, hc', -⟩ := h.rest
  obtain rfl : n = xs.length := by
    rw [c.size_eq, hc, List.length_append, List.length_cons, size] at hn
    omega
  rw [Cursor.peek?, Cursor.peek?, hc, hc', List.getElem?_append_right (Nat.le_refl _), Nat.sub_self,
    List.getElem?_append_right (Nat.le_refl _), Nat.sub_self]
  exact ⟨rfl, rfl⟩

theorem Beside.kindAt_of_lt (h : fork.Beside c c') (hn : n + fork.size < c.size) : c'.kindAt n = c.kindAt n := by
  rw [Cursor.kindAt, h.peek?_of_lt hn, Cursor.kindAt]

theorem Beside.textAt_of_lt (h : fork.Beside c c') (hn : n + fork.size < c.size) : c'.textAt n = c.textAt n := by
  rw [Cursor.textAt, h.peek?_of_lt hn, Cursor.textAt]

theorem Beside.kindAt_of_eq (h : fork.Beside c c') (hn : n + fork.size = c.size) :
    c.kindAt n = .semicolon ∧ c'.kindAt n = fork.first.kind := by
  obtain ⟨hc, hc'⟩ := h.peek?_of_eq hn
  rw [Cursor.kindAt, hc, Cursor.kindAt, hc']
  exact ⟨fork.ends, rfl⟩

/-- What is looked for up to the fork is found in both texts or in neither, if it tells the semicolon and the
lexeme in its place not apart. -/
theorem Beside.kindAt_alike {α : Type} (h : fork.Beside c c') (hn : n + fork.size ≤ c.size) (p : TokenKind → α)
    (hp : p fork.first.kind = p .semicolon) : p (c'.kindAt n) = p (c.kindAt n) := by
  rcases Nat.lt_or_eq_of_le hn with hlt | heq
  · rw [h.kindAt_of_lt hlt]
  · rw [(h.kindAt_of_eq heq).1, (h.kindAt_of_eq heq).2, hp]

theorem first_ne {kind : TokenKind} (h : kind.mayFollow = false) : fork.first.kind ≠ kind := by
  rintro rfl
  rw [fork.follows.kind] at h
  cases h

theorem ne_semicolon {kind : TokenKind} (h : kind.mayFollow = false) : TokenKind.semicolon ≠ kind := by
  rintro rfl
  cases h

/-- A lexeme that does not follow a type is looked for with the same result. -/
theorem Beside.kindAt_beq (h : fork.Beside c c') (hn : n + fork.size ≤ c.size) {kind : TokenKind}
    (hkind : kind.mayFollow = false) : (c'.kindAt n == kind) = (c.kindAt n == kind) := by
  refine h.kindAt_alike hn (· == kind) ?_
  rw [beq_eq_false_iff_ne.2 (first_ne hkind), beq_eq_false_iff_ne.2 (ne_semicolon hkind)]

section Read

/-! What two cursors before the fork have next is the same. -/

variable (h : fork.Beside c c') (hlt : fork.size < c.size)
include h hlt

theorem Beside.peek?_eq : c'.peek? 0 = c.peek? 0 := h.peek?_of_lt (by omega)

theorem Beside.kind_eq : c'.kind = c.kind := h.kindAt_of_lt (by omega)

theorem Beside.start_eq : c'.start = c.start := by
  rw [Cursor.start, h.peek?_eq hlt, ← h.lastEnd, Cursor.start]

theorem Beside.comments_eq : c'.comments = c.comments := by
  rw [Cursor.comments, h.peek?_eq hlt, Cursor.comments]

theorem Beside.startsLine_eq : c'.startsLine = c.startsLine := by
  rw [Cursor.startsLine, h.peek?_eq hlt, Cursor.startsLine]

theorem Beside.next : fork.Beside c.next c'.next := by
  obtain ⟨xs, hc, hc', hlast⟩ := h.rest
  have hgenuine := h.genuine
  cases xs with
  | nil =>
    rw [c.size_eq, hc, List.nil_append, List.length_cons, size] at hlt
    omega
  | cons lexeme xs =>
    rw [hc, List.cons_append, allGenuine_cons] at hgenuine
    rw [Cursor.next_of_cons hc, Cursor.next_of_cons hc']
    refine ⟨⟨xs, rfl, rfl, fun ys lexeme' hxs => ?_⟩, hgenuine.2, rfl, h.errors⟩
    exact hlast (lexeme :: ys) lexeme' (by rw [hxs, List.cons_append])

end Read

theorem Beside.skip : ∀ {n : Nat} {c c' : Cursor}, fork.Beside c c' → n + fork.size ≤ c.size →
    fork.Beside (c.skip n) (c'.skip n)
  | 0, _, _, h, _ => h
  | n + 1, c, _, h, hn => by
    have hsize := c.size_next
    exact Beside.skip (n := n) (h.next (by omega)) (by omega)

/-- What is read last before the fork is the last lexeme that the texts have in common. -/
theorem Beside.last_eq {d : Cursor} {ys : List Lexeme} {lexeme : Lexeme} (h : fork.Beside c c')
    (hrest : c.rest = ys ++ lexeme :: d.rest) (hsize : d.size = fork.size) : lexeme = fork.last := by
  obtain ⟨xs, hc, -, hlast⟩ := h.rest
  refine hlast ys lexeme ?_
  have happend : xs ++ fork.semicolon :: fork.behind = (ys ++ [lexeme]) ++ d.rest := by
    rw [← hc, hrest, List.append_assoc, List.singleton_append]
  refine (List.append_inj' happend ?_).1
  rw [← d.size_eq, hsize, List.length_cons, size]

theorem Beside.expect (h : fork.Beside c c') (kinds : List TokenKind) :
    fork.Beside (c.expect kinds) (c'.expect kinds) := ⟨h.rest, h.genuine, h.lastEnd, h.errors⟩

end Fork

/-- How far an action goes: it reads at least so many lexemes, and ends at least so many before the fork. -/
structure Reading where
  least : Nat
  margin : Nat

/-- Up to the fork, or less far. -/
abbrev anywhere {α : Type} (least : Nat) (_ : α) : Reading := ⟨least, 0⟩

/-- Not as far as to the fork. -/
abbrev inside {α : Type} (least : Nat) (_ : α) : Reading := ⟨least, 1⟩

/-- What is left to do once some lexemes have been read. -/
abbrev Reading.behind {α : Type} (n : Nat) (reading : α → Reading) (value : α) : Reading :=
  ⟨(reading value).least - n, (reading value).margin⟩

/-- The action begins so many lexemes before the fork. -/
def Reading.Precedes {α : Type} (reading : α → Reading) (n : Nat) : Prop :=
  ∀ value, n ≤ (reading value).least + (reading value).margin

/-- From where it stands, an action that reports no error and ends within its reading comes to the same value in
both texts, and ends at the same place. -/
def Persists {α : Type} (fork : Fork) (reading : α → Reading) (A A' : Parse α) (c : Cursor) : Prop :=
  ∀ value d, A c = .ok value d → d.errors = [] → fork.size + (reading value).margin ≤ d.size →
    c.errors = [] ∧ (reading value).least + d.size ≤ c.size
      ∧ ∀ c', fork.Beside c c' → ∃ d', A' c' = .ok value d' ∧ fork.Beside d d'

section Combined

variable {α β : Type} {fork : Fork} {p q : α → Reading} {r : β → Reading} {A A' : Parse α} {B B' : α → Parse β}
  {c : Cursor}

theorem Persists.pure {value : α} (h : (q value).least = 0) : Persists fork q (pure value) (pure value) c := by
  intro _ d hrun hclean _
  cases hrun
  exact ⟨hclean, by omega, fun c' hc => ⟨c', rfl, hc⟩⟩

theorem Persists.unexpected : Persists fork q (Parse.unexpected : Parse α) A' c := by
  intro _ _ hrun
  cases hrun

theorem Persists.mono (h : Persists fork p A A' c) (hleast : ∀ value, (q value).least ≤ (p value).least)
    (hmargin : ∀ value, (p value).margin ≤ (q value).margin) : Persists fork q A A' c := by
  intro value d hrun hclean hend
  have hmargin := hmargin value
  obtain ⟨herrors, hread, hrun'⟩ := h value d hrun hclean (by omega)
  exact ⟨herrors, Nat.le_trans (Nat.add_le_add_right (hleast value) _) hread, hrun'⟩

/-- Less may be claimed of an action. -/
theorem Persists.less {m n k l : Nat} (h : Persists fork (fun _ => ⟨m, k⟩) A A' c) (hleast : n ≤ m)
    (hmargin : k ≤ l) : Persists fork (fun _ => ⟨n, l⟩) A A' c :=
  h.mono (fun _ => hleast) fun _ => hmargin

theorem Persists.bind_of {s : α → β → Reading} (hA : Persists fork p A A' c)
    (hB : ∀ value e, A c = .ok value e → Persists fork (s value) (B value) (B' value) e)
    (hleast : ∀ value result, (r result).least ≤ (p value).least + (s value result).least)
    (hmargin : ∀ value result, (s value result).margin ≤ (r result).margin)
    (hlink : ∀ value result, (p value).margin ≤ (s value result).least + (r result).margin) :
    Persists fork r (A >>= B) (A' >>= B') c := by
  intro result d hrun hclean hend
  obtain ⟨value, e, hrunA, hrunB⟩ := bind_eq_ok_iff.1 hrun
  have hleast := hleast value result
  have hmargin := hmargin value result
  have hlink := hlink value result
  obtain ⟨he, hread, hrunB'⟩ := hB value e hrunA result d hrunB hclean (by omega)
  obtain ⟨herrors, hread', hrunA'⟩ := hA value e hrunA he (by omega)
  refine ⟨herrors, by omega, fun c' hc => ?_⟩
  obtain ⟨e', hrunA', he'⟩ := hrunA' c' hc
  obtain ⟨d', hrunB', hd⟩ := hrunB' e' he'
  exact ⟨d', bind_eq_ok_iff.2 ⟨value, e', hrunA', hrunB'⟩, hd⟩

/-- What follows an action begins where that may end. -/
theorem Persists.before {k : Nat} (hA : Persists fork (fun _ => ⟨0, k⟩) A A' c)
    (hB : ∀ value e, Persists fork r (B value) (B' value) e) (hr : Reading.Precedes r k) :
    Persists fork r (A >>= B) (A' >>= B') c :=
  hA.bind_of (s := fun _ => r) (fun value e _ => hB value e) (fun _ _ => Nat.le_add_left _ _)
    (fun _ _ => Nat.le_refl _) fun _ => hr

theorem Persists.bind (hA : Persists fork (anywhere 0) A A' c)
    (hB : ∀ value e, Persists fork r (B value) (B' value) e) : Persists fork r (A >>= B) (A' >>= B') c :=
  hA.before hB fun _ => Nat.zero_le _

/-- Once something has been read. -/
theorem Persists.seq {n : Nat} (hA : Persists fork (anywhere n) A A' c)
    (hB : ∀ value e, A c = .ok value e → Persists fork (Reading.behind n r) (B value) (B' value) e) :
    Persists fork r (A >>= B) (A' >>= B') c := by
  refine hA.bind_of (s := fun _ => Reading.behind n r) hB (fun _ result => ?_) (fun _ _ => Nat.le_refl _)
    fun _ _ => Nat.zero_le _
  show (r result).least ≤ n + ((r result).least - n)
  omega

theorem Persists.map {f : α → β} (hA : Persists fork (fun value => r (f value)) A A' c) :
    Persists fork r (f <$> A) (f <$> A') c := by
  intro result d hrun hclean hend
  obtain ⟨value, hrunA, rfl⟩ := map_eq_ok_iff.1 hrun
  obtain ⟨herrors, hread, hrunA'⟩ := hA value d hrunA hclean hend
  refine ⟨herrors, hread, fun c' hc => ?_⟩
  obtain ⟨d', hrun', hd⟩ := hrunA' c' hc
  exact ⟨d', map_eq_ok_iff.2 ⟨value, hrun', rfl⟩, hd⟩

theorem Persists.discard {reading : Reading} (hA : Persists fork (fun _ => reading) A A' c) :
    Persists fork (fun _ => reading) (discard A) (discard A') c :=
  hA.map

theorem Persists.ite {b : Prop} [Decidable b] {A₁ A₁' : Parse α} (hA : b → Persists fork q A A' c)
    (hA₁ : ¬ b → Persists fork q A₁ A₁' c) :
    Persists fork q (if b then A else A₁) (if b then A' else A₁') c := by
  by_cases hb : b
  · rw [if_pos hb, if_pos hb]
    exact hA hb
  · rw [if_neg hb, if_neg hb]
    exact hA₁ hb

/-- An action that looks at the cursor. What it takes from it is the same in both texts. -/
theorem Persists.look {f f' : Cursor → Parse α} (n : Nat) (hq : Reading.Precedes q n)
    (h : Persists fork q (f c) (f' c) c)
    (hlook : ∀ c', fork.Beside c c' → n + fork.size ≤ c.size → f' c' = f' c) :
    Persists fork q (cursor >>= f) (cursor >>= f') c := by
  intro value d hrun hclean hend
  obtain ⟨herrors, hread, hrun'⟩ := h value d hrun hclean hend
  have := hq value
  refine ⟨herrors, hread, fun c' hc => ?_⟩
  show ∃ d', f' c' c' = _ ∧ _
  rw [hlook c' hc (by omega)]
  exact hrun' c' hc

theorem Persists.kind {f f' : TokenKind → Parse α} (hq : Reading.Precedes q 1)
    (h : Persists fork q (f c.kind) (f' c.kind) c) : Persists fork q (Parse.kind >>= f) (Parse.kind >>= f') c :=
  show Persists fork q (cursor >>= fun here => f here.kind) (cursor >>= fun here => f' here.kind) c from
    .look 1 hq h fun c' hc hle => by rw [hc.kind_eq (by omega)]

/-- The failure of an action is reported, so a run without errors goes on with a value. -/
theorem Persists.attempt {f f' : Except ParseError α → Parse β}
    (h : Persists fork r (A >>= fun value => f (.ok value)) (A' >>= fun value => f' (.ok value)) c)
    (herror : ∀ error m result d, f (.error error) m = .ok result d → d.errors ≠ []) :
    Persists fork r (Parse.outcome A >>= f) (Parse.outcome A' >>= f') c := by
  intro result d hrun hclean hend
  cases hrunA : A c with
  | error error m =>
    refine absurd hclean (herror error m result d ?_)
    rw [← hrun, bind_of_ok (outcome_of_error hrunA)]
  | ok value m =>
    have hvalue : (A >>= fun value => f (.ok value)) c = .ok result d := by
      rw [bind_of_ok hrunA, ← hrun, bind_of_ok (outcome_of_ok hrunA)]
    obtain ⟨herrors, hread, hrun'⟩ := h result d hvalue hclean hend
    refine ⟨herrors, hread, fun c' hc => ?_⟩
    obtain ⟨d', hrun', hd⟩ := hrun' c' hc
    obtain ⟨value', m', hrunA', hrunB'⟩ := bind_eq_ok_iff.1 hrun'
    exact ⟨d', by rw [bind_of_ok (outcome_of_ok hrunA'), hrunB'], hd⟩

end Combined

section Elementary

variable {α : Type} {fork : Fork} {q : α → Reading} {kind : TokenKind} {c : Cursor}

theorem Cursor.rest_ne_nil (h : c.kind ≠ .endOfFile) : c.rest ≠ [] := by
  obtain ⟨lexeme, hrest, -⟩ := Cursor.rest_of_kind h
  rw [hrest]
  exact List.cons_ne_nil _ _

/-- An action that reads a lexeme and goes on. -/
theorem Persists.head {A A' : Parse α} (B B' : Parse α) (hmore : c.rest ≠ []) (hA : A c = B c.next)
    (hA' : ∀ c' : Cursor, c'.kind = c.kind → A' c' = B' c'.next)
    (hB : Persists fork (Reading.behind 1 q) B B' c.next) : Persists fork q A A' c := by
  intro value d hrun hclean hend
  obtain ⟨herrors, hread, hrun'⟩ := hB value d (hA ▸ hrun) hclean hend
  have hpos : 0 < c.rest.length := List.length_pos_iff.2 hmore
  have hsize := c.size_next
  rw [← c.size_eq] at hpos
  change (q value).least - 1 + d.size ≤ c.next.size at hread
  refine ⟨c.errors_next ▸ herrors, by omega, fun c' hc => ?_⟩
  have hlt : fork.size < c.size := by omega
  rw [hA' c' (hc.kind_eq hlt)]
  exact hrun' c'.next (hc.next hlt)

theorem Persists.next {f f' : Unit → Parse α} (h : c.rest ≠ [])
    (hf : Persists fork (Reading.behind 1 q) (f ()) (f' ()) c.next) :
    Persists fork q (next >>= f) (next >>= f') c :=
  .head (f ()) (f' ()) h rfl (fun _ _ => rfl) hf

theorem skip_persists : ∀ {n : Nat} {c : Cursor}, n ≤ c.rest.length →
    Persists fork (anywhere n) (skip n) (skip n) c
  | 0, _, _ => .pure rfl
  | n + 1, c, h => by
    have hmore : c.rest ≠ [] := List.length_pos_iff.1 (by omega)
    have hnext : n ≤ c.next.rest.length := by
      rw [c.rest_next, List.length_tail]
      omega
    intro value d hrun hclean hend
    obtain ⟨herrors, hread, hrun'⟩ := skip_persists hnext value d hrun hclean hend
    have hsize := c.size_next
    have hpos : 0 < c.size := by
      rw [c.size_eq]
      exact List.length_pos_iff.2 hmore
    change n + d.size ≤ c.next.size at hread
    refine ⟨c.errors_next ▸ herrors, ?_, fun c' hc => ?_⟩
    · show n + 1 + d.size ≤ c.size
      omega
    · exact hrun' c'.next (hc.next (by omega))

/-- What is done with a lexeme if it is next, and without it. It is not looked for at the fork, or it does not
follow a type. -/
theorem Persists.eat {f f' : Bool → Parse α} (hend : kind ≠ .endOfFile)
    (hfork : kind.mayFollow = false ∨ Reading.Precedes q 1)
    (htrue : c.kind = kind → Persists fork (Reading.behind 1 q) (f true) (f' true) c.next)
    (hfalse : c.kind ≠ kind → Persists fork q (f false) (f' false) (c.expect [kind])) :
    Persists fork q (eat kind >>= f) (eat kind >>= f') c := by
  by_cases h : c.kind = kind
  · exact .head (f true) (f' true) (c.rest_ne_nil (h ▸ hend)) (bind_of_ok (eat_of_kind h))
      (fun _ h' => bind_of_ok (eat_of_kind (h'.trans h))) (htrue h)
  intro value d hrun hclean hreading
  rw [bind_of_ok (eat_of_ne h)] at hrun
  obtain ⟨herrors, hread, hrun'⟩ := hfalse h value d hrun hclean hreading
  change (q value).least + d.size ≤ c.size at hread
  refine ⟨herrors, hread, fun c' hc => ?_⟩
  have hkind : (c'.kind == kind) = (c.kind == kind) := by
    rcases hfork with hfollow | hinside
    · exact hc.kindAt_beq (n := 0) (by omega) hfollow
    · have := hinside value
      rw [hc.kind_eq (by omega)]
  have h' : c'.kind ≠ kind := by
    rwa [← beq_eq_false_iff_ne, hkind, beq_eq_false_iff_ne]
  rw [bind_of_ok (eat_of_ne h')]
  exact hrun' _ (hc.expect [kind])

theorem eat_persists (h : kind.mayFollow = false) (hend : kind ≠ .endOfFile) :
    Persists fork (anywhere 0) (Parse.eat kind) (Parse.eat kind) c := by
  have heat : Persists fork (anywhere 0) (Parse.eat kind >>= Pure.pure) (Parse.eat kind >>= Pure.pure) c :=
    .eat hend (.inl h) (fun _ => .pure rfl) fun _ => .pure rfl
  rwa [bind_pure] at heat

/-- An action that begins with a lexeme that has to be next. -/
theorem Persists.expect {f f' : Unit → Parse α} (hend : kind ≠ .endOfFile)
    (hf : c.kind = kind → Persists fork (Reading.behind 1 q) (f ()) (f' ()) c.next) :
    Persists fork q (expect kind >>= f) (expect kind >>= f') c := by
  by_cases h : c.kind = kind
  · exact .head (f ()) (f' ()) (c.rest_ne_nil (h ▸ hend)) (bind_of_ok (expect_of_kind h))
      (fun _ h' => bind_of_ok (expect_of_kind (h'.trans h))) (hf h)
  · intro value d hrun
    rw [bind_of_error (expect_of_ne h)] at hrun
    cases hrun

/-- A value after a lexeme that may be missing. -/
theorem Persists.optional {β : Type} {A A' : Parse β} {f f' : Option β → Parse α} (hend : kind ≠ .endOfFile)
    (hfork : kind.mayFollow = false ∨ Reading.Precedes q 1) (hA : ∀ m, Persists fork (anywhere 1) A A' m)
    (hsome : ∀ value m, Persists fork (Reading.behind 2 q) (f (some value)) (f' (some value)) m)
    (hnone : ∀ m, Persists fork q (f none) (f' none) m) :
    Persists fork q
      (Parse.eat kind >>= fun found => if found then some <$> A >>= f else Pure.pure none >>= f)
      (Parse.eat kind >>= fun found => if found then some <$> A' >>= f' else Pure.pure none >>= f') c := by
  refine .eat hend hfork (fun _ => ?_) fun _ => hnone _
  have hvalue : Persists fork (anywhere 1) (some <$> A) (some <$> A') c.next :=
    Persists.map (r := anywhere 1) (f := some) (hA c.next)
  refine hvalue.seq fun value m hrun => ?_
  obtain ⟨value, -, rfl⟩ := map_eq_ok_iff.1 hrun
  exact hsome value m

/-- Inside brackets something else always follows. -/
theorem Persists.optional_inside {β : Type} {A A' : Parse β} {f f' : Option β → Parse α}
    (hend : kind ≠ .endOfFile) (hA : ∀ m, Persists fork (anywhere 1) A A' m)
    (hf : ∀ value m, Persists fork (inside 0) (f value) (f' value) m) : Persists fork (inside 0)
      (Parse.eat kind >>= fun found => if found then some <$> A >>= f else Pure.pure none >>= f)
      (Parse.eat kind >>= fun found => if found then some <$> A' >>= f' else Pure.pure none >>= f') c :=
  .optional hend (.inr fun _ => Nat.le_refl 1) hA (fun value => hf (some value)) (hf none)

theorem Persists.isAt {f f' : Bool → Parse α} (hfork : kind.mayFollow = false ∨ Reading.Precedes q 1)
    (h : Persists fork q (f (c.kind == kind)) (f' (c.kind == kind)) c) :
    Persists fork q (Parse.isAt kind >>= f) (Parse.isAt kind >>= f') c := by
  rw [isAt_bind, isAt_bind]
  rcases hfork with hfollow | hinside
  · refine .look 0 (fun _ => Nat.zero_le _) h fun c' hc hle => ?_
    exact congrArg f' (hc.kindAt_beq hle hfollow)
  · refine .look 1 hinside h fun c' hc hle => ?_
    rw [hc.kind_eq (by omega)]

/-- A value with the place where it has been read. -/
theorem Persists.placed {start : Nat} {f : Text.Span → α}
    (h : (q (f ⟨start, max c.lastEnd start⟩)).least = 0) :
    Persists fork q (do return f (← spanFrom start)) (do return f (← spanFrom start)) c := by
  intro value d hrun hclean _
  cases hrun
  refine ⟨hclean, by omega, fun c' hc => ⟨c', ?_, hc⟩⟩
  rw [hc.lastEnd]
  rfl

end Elementary

section Repeated

variable {fork : Fork} {ι σ α : Type}

section Recursion

variable {q : ι → α → Reading} {body body' : (ι → Parse α) → ι → Parse α} {c : Cursor} {n : Nat}

/-- What limits the calls of an action moves with the fork. -/
theorem below_persists (h : ∀ i m, m.size < c.size → Persists fork (q i) (fix body i) (fix body' i) m)
    (hn : ∀ m m', fork.Beside m m' → m.size < c.size → m'.size < n) (i : ι) (m : Cursor) :
    Persists fork (q i) (below c.size (fix body i)) (below n (fix body' i)) m := by
  intro value d hrun hclean hend
  by_cases hlt : m.size < c.size
  · rw [below_of_lt hlt] at hrun
    obtain ⟨herrors, hread, hrun'⟩ := h i m hlt value d hrun hclean hend
    refine ⟨herrors, hread, fun m' hm => ?_⟩
    rw [below_of_lt (hn m m' hm hlt)]
    exact hrun' m' hm
  · rw [below_of_not_lt hlt] at hrun
    cases hrun

/-- A call inside an action is one of the action itself, where it comes to a value. -/
theorem fix_persists
    (hbody : ∀ call call' : ι → Parse α, (∀ i m value d, call i m = .ok value d → fix body i m = .ok value d) →
      (∀ i m, Persists fork (q i) (call i) (call' i) m) →
        ∀ i m, Persists fork (q i) (body call i) (body' call' i) m) (i : ι) (c : Cursor) :
    Persists fork (q i) (fix body i) (fix body' i) c := by
  generalize hn : c.size = n
  induction n using Nat.strongRecOn generalizing i c with
  | ind n ih =>
    intro value d hrun hclean hend
    rw [fix_eq] at hrun
    have hcalled : ∀ j m result e, below c.size (fix body j) m = .ok result e → fix body j m = .ok result e := by
      intro j m result e hcall
      by_cases hlt : m.size < c.size
      · rwa [below_of_lt hlt] at hcall
      · rw [below_of_not_lt hlt] at hcall
        cases hcall
    have hbelow : ∀ n', (∀ m m', fork.Beside m m' → m.size < c.size → m'.size < n') →
        Persists fork (q i) (body (fun j => below c.size (fix body j)) i)
          (body' (fun j => below n' (fix body' j)) i) c := fun n' hn' =>
      hbody _ _ hcalled (below_persists (fun j m hlt => ih m.size (hn ▸ hlt) j m rfl) hn') i c
    -- The other text may be longer, by what it has behind the fork.
    obtain ⟨herrors, hread, -⟩ := hbelow (c.size + fork.more.length + 1)
      (fun m m' hm hlt => by have := hm.size_eq; omega) value d hrun hclean hend
    refine ⟨herrors, hread, fun c' hc => ?_⟩
    obtain ⟨-, -, hrun'⟩ := hbelow c'.size
      (fun m m' hm hlt => by have := hm.size_eq; have := hc.size_eq; omega) value d hrun hclean hend
    rw [fix_eq]
    exact hrun' c' hc

end Recursion

/-- A step that is not the last is followed by all that the repetition has to read. -/
theorem repeatFrom_persists {step step' : σ → Parse (σ ⊕ α)} {n k : Nat}
    (hstep : ∀ state c, Persists fork (Sum.elim (fun _ => ⟨0, n + k⟩) fun _ => ⟨n, k⟩) (step state) (step' state) c)
    (state : σ) (c : Cursor) :
    Persists fork (fun _ => ⟨n, k⟩) (repeatFrom step state) (repeatFrom step' state) c := by
  intro value d hrun hclean hend
  refine repeatFrom_induction (motive := fun state c => c.errors = [] ∧ n + d.size ≤ c.size
    ∧ ∀ c', fork.Beside c c' → ∃ d', repeatFrom step' state c' = .ok value d' ∧ fork.Beside d d') ?_ ?_ hrun
  · intro state c hlast
    obtain ⟨herrors, hread, hlast'⟩ := hstep state c _ d hlast hclean hend
    refine ⟨herrors, hread, fun c' hc => ?_⟩
    obtain ⟨d', hrun', hd⟩ := hlast' c' hc
    exact ⟨d', repeatFrom_of_inr hrun', hd⟩
  · intro state c state' m hfirst hlt _ ih
    obtain ⟨hm, hread, hrun'⟩ := ih
    change fork.size + k ≤ d.size at hend
    obtain ⟨herrors, -, hfirst'⟩ := hstep state c _ m hfirst hm (by
      show fork.size + (n + k) ≤ m.size
      omega)
    refine ⟨herrors, by omega, fun c' hc => ?_⟩
    obtain ⟨m', hfirst', hm'⟩ := hfirst' c' hc
    obtain ⟨d', hrun', hd⟩ := hrun' m' hm'
    have hsize := hm'.size_eq
    have hsize' := hc.size_eq
    exact ⟨d', by rw [repeatFrom_of_inl hfirst' (by omega), hrun'], hd⟩

/-- A repetition ends where its steps may end. -/
theorem repeated_persists {step step' : σ → Parse (σ ⊕ α)} {k : Nat}
    (hstep : ∀ state c, Persists fork (fun _ => ⟨0, k⟩) (step state) (step' state) c) (state : σ) (c : Cursor) :
    Persists fork (fun _ => ⟨0, k⟩) (repeatFrom step state) (repeatFrom step' state) c := by
  refine repeatFrom_persists (n := 0) (fun state c => (hstep state c).mono ?_ ?_) state c
  · rintro (_ | _) <;> exact Nat.le_refl 0
  · rintro (_ | _)
    · exact Nat.le_of_eq (Nat.zero_add k).symm
    · exact Nat.le_refl k

/-- A group ends with its closing lexeme, so its items end before the fork. -/
theorem enclosed_persists {opening closing : TokenKind} {item item' : Parse α} (hopening : opening ≠ .endOfFile)
    (hclosing : closing ≠ .endOfFile) (hitem : ∀ c, Persists fork (inside 0) item item' c) (c : Cursor) :
    Persists fork (anywhere 2) (enclosed opening item closing) (enclosed opening item' closing) c := by
  have hstep : Reading.Precedes (Sum.elim (fun _ => ⟨0, 1⟩) fun _ => ⟨1, 0⟩ : List α ⊕ List α → Reading) 1 := by
    rintro (_ | _) <;> exact Nat.le_refl 1
  have hclosed : ∀ (items : List α) m, Persists fork
      (Reading.behind 1 (Sum.elim (fun _ => ⟨0, 1⟩) fun _ => ⟨1, 0⟩ : List α ⊕ List α → Reading))
      (pure (.inr items)) (pure (.inr items)) m := fun _ _ => .pure rfl
  unfold enclosed
  refine .expect hopening fun _ => repeatFrom_persists (n := 1) (k := 0) (fun items m => ?_) [] _
  refine .eat hclosing (.inr hstep) (fun _ => hclosed _ _) fun _ => ?_
  refine (hitem _).bind_of (s := fun _ => Sum.elim (fun _ => ⟨0, 1⟩) fun _ => ⟨1, 0⟩) (fun item m _ => ?_)
    (fun _ _ => Nat.le_add_left _ _) (fun _ _ => Nat.le_refl _) fun _ => hstep
  refine .eat hclosing (.inr hstep) (fun _ => hclosed _ _) fun _ => ?_
  exact .expect nofun fun _ => .pure rfl

end Repeated

end NodeFactory
