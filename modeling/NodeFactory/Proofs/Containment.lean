import NodeFactory.Proofs.SkippedRuns
import NodeFactory.Proofs.TypeText

/-!
# Errors inside a run of lexemes

A cursor stands inside groups before a semicolon that is outside all of them (`Inside`). An action leads
from the groups that are open to others, and where it fails it leaves groups open that are no member lists
(`Contained`). So it is for the elementary actions, and for what is made of such actions in sequence, by
repetition and by recursion: none takes the semicolon.

What is skipped after an error counts depth only, from the group in which the error is. It ends within
that group, or with the semicolon (`Inside.skip_balanced`).
-/

namespace NodeFactory

open Parse Text

/-- Neither a delimiter nor what ends a member. -/
def TokenKind.isMiddle (kind : TokenKind) : Bool := !kind.isOpen && !kind.isClose && kind != .semicolon

theorem TokenKind.isMiddle_of_isOperator {kind : TokenKind} (h : kind.isOperator = true) :
    kind.isMiddle = true := by
  cases kind <;> first | rfl | cases h

theorem TokenKind.isMiddle_of_isName {kind : TokenKind} (h : kind.isName = true) : kind.isMiddle = true := by
  cases kind <;> first | rfl | cases h

section Cursors

/-- None of the groups that these delimiters close is between braces. -/
def Unbraced (closers : List TokenKind) : Prop := .closeBrace ∉ closers

/-- What is left before a semicolon closes the groups that are open, and those that it opens. -/
structure Inside (text : List Char) (behind : List Lexeme) (closers : List TokenKind) (c : Cursor) :
    Prop where
  run : ∃ xs, c.rest = xs ++ behind ∧ awaited closers (kindsIn xs) = some []
  stops : ∃ semicolon after, behind = semicolon :: after ∧ semicolon.kind = .semicolon
  mem : ∀ lexeme ∈ c.rest, lexeme ∈ lexemesOf text

/-- Inside groups, and inside others that are no member lists. -/
def Strays (text : List Char) (behind : List Lexeme) (closers : List TokenKind) (c : Cursor) : Prop :=
  ∃ inner, Unbraced inner ∧ Inside text behind (inner ++ closers) c

/-- The semicolon has been read. -/
def Crossed (behind : List Lexeme) (c : Cursor) : Prop :=
  ∃ semicolon after, behind = semicolon :: after ∧ c.rest = after ∧ c.lastEnd = semicolon.span.stop
    ∧ c.expected = []

variable {text : List Char} {behind : List Lexeme} {closers outer inner : List TokenKind} {c d : Cursor}
  {kind closing : TokenKind}

theorem Unbraced.nil : Unbraced [] := List.not_mem_nil

theorem Unbraced.append (h : Unbraced inner) (h' : Unbraced closers) : Unbraced (inner ++ closers) :=
  fun hmem => (List.mem_append.1 hmem).elim h h'

theorem unbraced_singleton (h : kind ≠ .closeBrace) : Unbraced [kind] :=
  fun hmem => h (List.mem_singleton.1 hmem).symm

theorem Inside.of_rest (h : Inside text behind closers c) (hrest : d.rest = c.rest) :
    Inside text behind closers d :=
  ⟨hrest ▸ h.run, h.stops, hrest ▸ h.mem⟩

theorem Inside.strays (h : Inside text behind closers c) : Strays text behind closers c :=
  ⟨[], .nil, h⟩

theorem Strays.of_rest (h : Strays text behind closers c) (hrest : d.rest = c.rest) :
    Strays text behind closers d := by
  obtain ⟨inner, hinner, h⟩ := h
  exact ⟨inner, hinner, h.of_rest hrest⟩

theorem Strays.outside (h : Strays text behind (inner ++ outer) c) (hinner : Unbraced inner) :
    Strays text behind outer c := by
  obtain ⟨innermost, hinnermost, h⟩ := h
  exact ⟨innermost ++ inner, hinnermost.append hinner, by rwa [List.append_assoc]⟩

section Next

variable (h : Inside text behind closers c)
include h

theorem Inside.rest_ne_nil : c.rest ≠ [] := by
  obtain ⟨xs, hrest, -⟩ := h.run
  obtain ⟨semicolon, after, rfl, -⟩ := h.stops
  rw [hrest]
  exact List.append_ne_nil_of_right_ne_nil _ (List.cons_ne_nil _ _)

theorem Inside.kind_ne_endOfFile : c.kind ≠ .endOfFile := by
  obtain ⟨lexeme, lexemes, hrest⟩ := List.exists_cons_of_ne_nil h.rest_ne_nil
  rw [Cursor.kind_of_cons hrest]
  exact Token.kind_ne_endOfFile (Lexeme.token_mem (h.mem lexeme (hrest ▸ List.mem_cons_self)))

/-- A lexeme leads to other groups, or it is the semicolon and none is open. -/
theorem Inside.next_cases :
    (closers = [] ∧ c.kind = .semicolon ∧ Crossed behind c.next)
      ∨ ∃ between, awaitedBehind closers c.kind = some between ∧ Inside text behind between c.next := by
  obtain ⟨xs, hrest, hawaited⟩ := h.run
  cases xs with
  | nil =>
    obtain ⟨semicolon, after, rfl, hkind⟩ := h.stops
    rw [List.nil_append] at hrest
    refine .inl ⟨Option.some.inj hawaited, (Cursor.kind_of_cons hrest).trans hkind, semicolon, after, rfl, ?_⟩
    rw [Cursor.next_of_cons hrest]
    exact ⟨rfl, rfl, rfl⟩
  | cons lexeme xs =>
    rw [List.cons_append] at hrest
    rw [awaited_lexeme, Option.bind_eq_some_iff] at hawaited
    obtain ⟨between, hbehind, hawaited⟩ := hawaited
    have hnext : c.next.rest = xs ++ behind := by rw [Cursor.rest_next, hrest, List.tail_cons]
    refine .inr ⟨between, by rwa [Cursor.kind_of_cons hrest], ⟨xs, hnext, hawaited⟩, h.stops, ?_⟩
    intro lexeme' hmem
    refine h.mem lexeme' ?_
    rw [hrest]
    exact List.mem_cons_of_mem _ (hnext ▸ hmem)

theorem Inside.next_middle (hmiddle : c.kind.isMiddle = true) : Inside text behind closers c.next := by
  simp only [TokenKind.isMiddle, Bool.and_eq_true, Bool.not_eq_true', bne_iff_ne] at hmiddle
  obtain ⟨⟨hopen, hclose⟩, hkind⟩ := hmiddle
  rcases h.next_cases with ⟨-, hsemicolon, -⟩ | ⟨between, hbehind, hnext⟩
  · exact absurd hsemicolon hkind
  · rw [awaitedBehind_plain hopen hclose] at hbehind
    rwa [Option.some.inj hbehind]

theorem Inside.next_opening (hopening : c.kind.closing? = some closing) :
    Inside text behind (closing :: closers) c.next := by
  rcases h.next_cases with ⟨-, hsemicolon, -⟩ | ⟨between, hbehind, hnext⟩
  · rw [hsemicolon] at hopening
    cases hopening
  · rw [awaitedBehind_opening hopening] at hbehind
    rwa [Option.some.inj hbehind]

/-- A closing delimiter closes the innermost group. -/
theorem Inside.next_closing (hclose : c.kind.isClose = true) :
    ∃ outer, closers = c.kind :: outer ∧ Inside text behind outer c.next := by
  rcases h.next_cases with ⟨-, hsemicolon, -⟩ | ⟨between, hbehind, hnext⟩
  · rw [hsemicolon] at hclose
    cases hclose
  · exact ⟨between, eq_cons_of_awaitedBehind hclose hbehind, hnext⟩

end Next

/-- What a lexeme leads to that closes no group further out. -/
theorem awaitedBehind_inner {between : List TokenKind} (hclose : kind.isClose = true → inner ≠ [])
    (h : awaitedBehind (inner ++ outer) kind = some between) :
    ∃ inner', between = inner' ++ outer ∧ (inner'.length : Int) = inner.length + kind.depth := by
  rw [awaitedBehind_append hclose, Option.map_eq_some_iff] at h
  obtain ⟨inner', hinner', rfl⟩ := h
  exact ⟨inner', rfl, length_of_awaitedBehind hinner'⟩

/-- Groups that are open are found, and skipped with all that is in them. -/
theorem Inside.skip_group (h : Inside text behind (inner ++ outer) c) :
    ∃ n, groupLength? inner.length c.rest = some n ∧ Inside text behind outer (c.skip n) := by
  generalize hsize : c.rest.length = size
  induction size generalizing c inner with
  | zero => exact absurd (List.eq_nil_of_length_eq_zero hsize) h.rest_ne_nil
  | succ size ih =>
    cases inner with
    | nil => exact ⟨0, by rw [List.length_nil, groupLength?], h⟩
    | cons innermost inner =>
      obtain ⟨lexeme, hrest, hkind⟩ := Cursor.rest_of_kind h.kind_ne_endOfFile
      rcases h.next_cases with ⟨hnil, -⟩ | ⟨between, hbehind, hnext⟩
      · cases hnil
      obtain ⟨inner', rfl, hlength⟩ := awaitedBehind_inner (fun _ => List.cons_ne_nil _ _) hbehind
      have hsize' : c.next.rest.length = size := by
        rw [Cursor.rest_next, List.length_tail, hsize, Nat.add_sub_cancel]
      obtain ⟨n, hgroup, hskip⟩ := ih hnext hsize'
      refine ⟨n + 1, ?_, hskip⟩
      rw [hrest, List.length_cons, groupLength?, hkind]
      have hdepth : (if c.kind.isOpen = true then inner.length + 2
          else if c.kind.isClose = true then inner.length else inner.length + 1) = inner'.length := by
        rw [List.length_cons] at hlength
        by_cases hopen : c.kind.isOpen = true
        · rw [TokenKind.depth_of_isOpen hopen] at hlength
          rw [if_pos hopen]
          omega
        by_cases hclose : c.kind.isClose = true
        · rw [TokenKind.depth_of_isClose hclose] at hlength
          rw [if_neg hopen, if_pos hclose]
          omega
        · rw [TokenKind.depth_of_plain (eq_false_of_ne_true hopen) (eq_false_of_ne_true hclose)] at hlength
          rw [if_neg hopen, if_neg hclose]
          omega
      rw [hdepth, hgroup]
      rfl

/-- A balanced run ends within the group around those that are open, or with the semicolon. -/
theorem Inside.skip_balanced (h : Inside text behind (inner ++ outer) c) :
    Inside text behind outer (c.skip (balancedLength inner.length c.rest))
      ∨ outer = [] ∧ Crossed behind (c.skip (balancedLength inner.length c.rest)) := by
  generalize hsize : c.rest.length = size
  induction size generalizing c inner with
  | zero => exact absurd (List.eq_nil_of_length_eq_zero hsize) h.rest_ne_nil
  | succ size ih =>
    obtain ⟨lexeme, hrest, hkind⟩ := Cursor.rest_of_kind h.kind_ne_endOfFile
    rcases h.next_cases with ⟨hnil, hsemicolon, hcrossed⟩ | ⟨between, hbehind, hnext⟩
    · obtain ⟨rfl, rfl⟩ := List.append_eq_nil_iff.1 hnil
      refine .inr ⟨rfl, ?_⟩
      have hone : balancedLength 0 c.rest = 1 := by
        rw [hrest]
        simp [balancedLength, hkind, hsemicolon, TokenKind.isClose, TokenKind.isOpen]
      rw [List.length_nil, hone]
      exact hcrossed
    -- Only a delimiter that closes no inner group ends the run before it.
    rcases balancedLength_cases inner.length lexeme with
      ⟨hdepth, -, hrun⟩ | ⟨hdepth, hrun⟩ | ⟨depth, hdepth, hrun⟩
    · obtain rfl := List.eq_nil_of_length_eq_zero hdepth
      rw [hrest, hrun]
      exact .inl h
    all_goals
      have hclose : c.kind.isClose = true → inner ≠ [] := by
        rintro hclose rfl
        rw [hkind, TokenKind.depth_of_isClose hclose, List.length_nil] at hdepth
        omega
      obtain ⟨inner', rfl, hlength⟩ := awaitedBehind_inner hclose hbehind
      rw [← hkind] at hlength
    · obtain rfl := List.eq_nil_of_length_eq_zero (by omega : inner'.length = 0)
      rw [hrest, hrun]
      exact .inl hnext
    · obtain rfl : depth = inner'.length := by omega
      have hsize' : c.next.rest.length = size := by
        rw [Cursor.rest_next, List.length_tail, hsize, Nat.add_sub_cancel]
      rw [hrest, hrun]
      exact ih hnext hsize'

end Cursors

section Combined

variable {α β : Type} {text : List Char} {behind : List Lexeme} {opened : List TokenKind}
  {left : α → List TokenKind} {left' : β → List TokenKind} {A : Parse α} {c : Cursor} {kind : TokenKind}

/-- An action leads from the groups that are open to those that its value says, whatever is open around
them, or fails in a group that is no member list. -/
def Contained (text : List Char) (behind : List Lexeme) (opened : List TokenKind)
    (left : α → List TokenKind) (A : Parse α) (c : Cursor) : Prop :=
  ∀ outer, Inside text behind (opened ++ outer) c → match A c with
    | .ok value d => Inside text behind (left value ++ outer) d
    | .error _ d => Strays text behind outer d

/-- The action leaves the same groups open. -/
def Stays (text : List Char) (behind : List Lexeme) (A : Parse α) (c : Cursor) : Prop :=
  Contained text behind [] (fun _ => []) A c

theorem contained_of_ok {value : α} {d : Cursor} (hrun : A c = .ok value d)
    (h : ∀ outer, Inside text behind (opened ++ outer) c → Inside text behind (left value ++ outer) d) :
    Contained text behind opened left A c := by
  intro outer hc
  rw [hrun]
  exact h outer hc

theorem contained_of_error {error : ParseError} {d : Cursor} (hrun : A c = .error error d)
    (hrest : d.rest = c.rest) (hopened : Unbraced opened) : Contained text behind opened left A c := by
  intro outer hc
  rw [hrun]
  exact ⟨opened, hopened, hc.of_rest hrest⟩

/-- Other groups may be open around. -/
theorem Stays.within (h : Stays text behind A c) (hopened : Unbraced opened) :
    Contained text behind opened (fun _ => opened) A c := by
  intro outer hc
  have hrun := h (opened ++ outer) hc
  split
  · rename_i value d heq
    rw [heq] at hrun
    exact hrun
  · rename_i error d heq
    rw [heq] at hrun
    exact Strays.outside hrun hopened

theorem Contained.pure {value : α} (h : left value = opened) :
    Contained text behind opened left (pure value) c :=
  contained_of_ok rfl fun _ hc => h ▸ hc

theorem Contained.bind_of_run {B : α → Parse β} (hA : Contained text behind opened left A c)
    (hB : ∀ value m, A c = .ok value m → Contained text behind (left value) left' (B value) m) :
    Contained text behind opened left' (A >>= B) c := by
  intro outer hc
  have hrun := hA outer hc
  cases heq : A c with
  | ok value m =>
    rw [heq] at hrun
    rw [bind_of_ok heq]
    exact hB value m heq outer hrun
  | error error m =>
    rw [heq] at hrun
    rw [bind_of_error heq]
    exact hrun

theorem Contained.bind {B : α → Parse β} (hA : Contained text behind opened left A c)
    (hB : ∀ value m, Contained text behind (left value) left' (B value) m) :
    Contained text behind opened left' (A >>= B) c :=
  hA.bind_of_run fun value m _ => hB value m

theorem Contained.map {f : α → β} (hA : Contained text behind opened (fun _ => opened) A c) :
    Contained text behind opened (fun _ => opened) (f <$> A) c := by
  rw [map_eq_pure_bind]
  exact hA.bind fun _ _ => .pure rfl

theorem Contained.ite {p : Prop} [Decidable p] {B : Parse α}
    (hA : p → Contained text behind opened left A c) (hB : ¬ p → Contained text behind opened left B c) :
    Contained text behind opened left (if p then A else B) c := by
  by_cases hp : p
  · rw [if_pos hp]
    exact hA hp
  · rw [if_neg hp]
    exact hB hp

theorem Contained.here {f : Cursor → Parse α} (h : Contained text behind opened left (f c) c) :
    Contained text behind opened left (cursor >>= f) c := h

theorem Contained.isAt {f : Bool → Parse α} (h : Contained text behind opened left (f (c.kind == kind)) c) :
    Contained text behind opened left (Parse.isAt kind >>= f) c := h

theorem Contained.unexpected (hopened : Unbraced opened) :
    Contained text behind opened left (Parse.unexpected : Parse α) c :=
  contained_of_error rfl rfl hopened

end Combined

section Elementary

variable {α β : Type} {text : List Char} {behind : List Lexeme} {opened : List TokenKind}
  {left : α → List TokenKind} {c : Cursor} {kind closing : TokenKind}

theorem next_stays (h : c.kind.isMiddle = true) : Stays text behind next c :=
  contained_of_ok rfl fun _ hc => hc.next_middle h

theorem next_contained_of_opening (h : c.kind.closing? = some closing) :
    Contained text behind [] (fun _ => [closing]) next c :=
  contained_of_ok rfl fun _ hc => hc.next_opening h

theorem next_contained_of_closing (h : c.kind.isClose = true) :
    Contained text behind [c.kind] (fun _ => []) next c := by
  refine contained_of_ok rfl fun outer hc => ?_
  obtain ⟨outer', heq, hnext⟩ := hc.next_closing h
  obtain rfl : outer = outer' := (List.cons.inj heq).2
  exact hnext

theorem skip_stays : ∀ {n : Nat} {c : Cursor},
    (∀ i < n, (c.kindAt i).isMiddle = true) → Stays text behind (skip n) c
  | 0, _, _ => .pure rfl
  | n + 1, c, h => by
    show Contained text behind _ _ (next >>= fun _ => skip n) c
    refine (next_stays (h 0 (Nat.succ_pos n))).bind_of_run fun _ m hrun => ?_
    cases hrun
    refine skip_stays fun i hi => ?_
    rw [Cursor.kindAt_next]
    exact h (i + 1) (Nat.succ_lt_succ hi)

/-- A lexeme that may be missing leaves the groups as they are where it is. -/
theorem eat_contained {read : List TokenKind}
    (h : c.kind = kind → Contained text behind opened (fun _ => read) next c) :
    Contained text behind opened (fun found => if found then read else opened) (eat kind) c := by
  by_cases hkind : c.kind = kind
  · intro outer hc
    rw [eat_of_kind hkind]
    exact h hkind outer hc
  · exact contained_of_ok (eat_of_ne hkind) fun _ hc => hc.of_rest rfl

theorem expect_contained {read : List TokenKind} (hopened : Unbraced opened)
    (h : c.kind = kind → Contained text behind opened (fun _ => read) next c) :
    Contained text behind opened (fun _ => read) (expect kind) c := by
  refine (eat_contained h).bind fun found m => ?_
  cases found
  · exact .unexpected hopened
  · exact .pure rfl

theorem eat_stays (h : kind.isMiddle = true) : Stays text behind (eat kind) c := by
  have heat : Contained text behind [] (fun found => if found then [] else []) (eat kind) c :=
    eat_contained fun heq => next_stays (heq ▸ h)
  simp only [ite_self] at heat
  exact heat

theorem discard_eat_stays (h : kind.isMiddle = true) : Stays text behind (discard (eat kind)) c :=
  Contained.map (eat_stays h)

theorem expect_stays (h : kind.isMiddle = true) : Stays text behind (expect kind) c :=
  expect_contained .nil fun heq => next_stays (heq ▸ h)

theorem expect_contained_of_opening (h : kind.closing? = some closing) :
    Contained text behind [] (fun _ => [closing]) (expect kind) c :=
  expect_contained .nil fun hkind => next_contained_of_opening (hkind ▸ h)

theorem expect_contained_of_closing (h : kind.isClose = true) (hkind : kind ≠ .closeBrace) :
    Contained text behind [kind] (fun _ => []) (expect kind) c :=
  expect_contained (unbraced_singleton hkind) fun heq => heq ▸ next_contained_of_closing (heq ▸ h)

theorem eat_contained_of_closing (h : kind.isClose = true) :
    Contained text behind [kind] (fun found => if found then [] else [kind]) (eat kind) c :=
  eat_contained fun heq => heq ▸ next_contained_of_closing (heq ▸ h)

theorem spanFrom_stays (start : Nat) : Stays text behind (spanFrom start) c :=
  contained_of_ok rfl fun _ hc => hc

/-- A value after a lexeme that may be missing. -/
theorem Contained.optional {A : Parse β} {f : Option β → Parse α} (h : kind.isMiddle = true)
    (hA : ∀ m, Stays text behind A m)
    (hf : ∀ value m, Contained text behind [] left (f value) m) :
    Contained text behind [] left
      (eat kind >>= fun found => if found then some <$> A >>= f else Pure.pure none >>= f) c := by
  refine (eat_stays h).bind fun found m => .ite (fun _ => ?_) fun _ => ?_
  · exact (Contained.map (hA m)).bind hf
  · exact Contained.bind (.pure rfl) hf

theorem skipGroup_stays (hopening : kind.closing? = some closing) :
    Stays text behind (skipGroup kind) c := by
  unfold skipGroup
  refine (expect_contained_of_opening hopening).bind fun _ m outer hm => ?_
  have hgroups : Inside text behind ([closing] ++ outer) m := hm
  obtain ⟨n, hgroup, hskip⟩ := hgroups.skip_group
  have hhere : cursor m = .ok m m := rfl
  have hlength : groupLength? 1 m.rest = some n := hgroup
  rw [bind_of_ok hhere, hlength]
  exact hskip

end Elementary

section Repeated

variable {ι σ α : Type} {text : List Char} {behind : List Lexeme}

/-- An action that calls itself leaves the same groups open, if it does so where its calls do. -/
theorem fix_stays {body : (ι → Parse α) → ι → Parse α}
    (hbody : ∀ n, (∀ i m, Stays text behind (below n (fix body i)) m) →
      ∀ i m, Stays text behind (body (fun j => below n (fix body j)) i) m)
    (i : ι) (c : Cursor) : Stays text behind (fix body i) c := by
  generalize hn : c.size = n
  induction n using Nat.strongRecOn generalizing i c with
  | ind n ih =>
    intro outer hc
    rw [fix_eq]
    refine hbody c.size (fun j m => ?_) i c outer hc
    by_cases hlt : m.size < c.size
    · intro outer hm
      rw [below_of_lt hlt]
      exact ih m.size (hn ▸ hlt) j m rfl outer hm
    · exact contained_of_error (below_of_not_lt hlt) rfl .nil

theorem repeatFrom_contained {opened : List TokenKind} {left : α → List TokenKind}
    {step : σ → Parse (σ ⊕ α)} (hopened : Unbraced opened)
    (hstep : ∀ state c, Contained text behind opened (Sum.elim (fun _ => opened) left) (step state) c)
    (state : σ) (c : Cursor) : Contained text behind opened left (repeatFrom step state) c := by
  generalize hn : c.size = n
  induction n using Nat.strongRecOn generalizing state c with
  | ind n ih =>
    intro outer hc
    rw [repeatFrom_eq]
    refine (hstep state c).bind (fun result m => ?_) outer hc
    cases result with
    | inl state =>
      by_cases hlt : m.size < c.size
      · intro outer hm
        show match below c.size (repeatFrom step state) m with
          | .ok value d => Inside text behind (left value ++ outer) d
          | .error _ d => Strays text behind outer d
        rw [below_of_lt hlt]
        exact ih m.size (hn ▸ hlt) state m rfl outer hm
      · exact contained_of_error (below_of_not_lt hlt) rfl hopened
    | inr value => exact .pure rfl

/-- Items between lexemes of which the first opens groups and the last closes them, if they do. -/
theorem enclosed_contained {opening closing : TokenKind} {inside : List TokenKind} {item : Parse α}
    (hinside : Unbraced inside)
    (hopening : ∀ c, Contained text behind [] (fun _ => inside) (expect opening) c)
    (hclosing : ∀ c, Contained text behind inside (fun found => if found then [] else inside) (eat closing) c)
    (hitem : ∀ c, Stays text behind item c) (c : Cursor) :
    Stays text behind (enclosed opening item closing) c := by
  unfold enclosed
  refine (hopening c).bind fun _ m => repeatFrom_contained hinside (fun items c => ?_) [] m
  refine (hclosing c).bind fun found m => ?_
  cases found
  · refine ((hitem m).within hinside).bind fun item m => (hclosing m).bind fun found m => ?_
    cases found
    · exact ((expect_stays rfl).within hinside).bind fun _ _ => .pure rfl
    · exact .pure rfl
  · exact .pure rfl

theorem enclosed_stays {opening closing : TokenKind} {item : Parse α}
    (hopening : opening.closing? = some closing) (hbrace : closing ≠ .closeBrace)
    (hitem : ∀ c, Stays text behind item c) (c : Cursor) :
    Stays text behind (enclosed opening item closing) c :=
  enclosed_contained (unbraced_singleton hbrace) (fun _ => expect_contained_of_opening hopening)
    (fun _ => eat_contained_of_closing (TokenKind.isClose_of_closing hopening)) hitem c

/-- Between angle brackets there is no group. -/
theorem angled_stays {item : Parse α} (hitem : ∀ c, Stays text behind item c) (c : Cursor) :
    Stays text behind (enclosed .less item .greater) c := by
  have hclosing : ∀ c, Contained text behind [] (fun found => if found then [] else []) (eat .greater) c :=
    fun _ => eat_contained fun h => next_stays (h ▸ rfl)
  exact enclosed_contained .nil (fun _ => expect_stays rfl) hclosing hitem c

end Repeated

end NodeFactory
