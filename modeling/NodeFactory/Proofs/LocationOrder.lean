import Mathlib.Data.List.DropRight
import Mathlib.Data.Prod.Lex
import NodeFactory.Text.Location

/-!
# Lines and columns in the order of the text

A line is counted at each line end, the pair of a carriage return and a line feed once (`lineEnds`), and a
column by the characters behind the last of them (`lastLine`). One more character leads to a later place,
unless it is the line feed of such a pair (`advance_concat`). So places in a text are in the order of their
offsets, and all of them are told apart but for those inside a pair or inside a character
(`locations_in_order`).
-/

namespace NodeFactory.Text

/-- The line ends of a text. -/
def lineEnds : List Char → Nat
  | '\r' :: '\n' :: cs => lineEnds cs + 1
  | c :: cs => lineEnds cs + if c = '\n' ∨ c = '\r' then 1 else 0
  | [] => 0

/-- What follows the last line end. -/
def lastLine (text : List Char) : List Char :=
  text.rtakeWhile fun c => c != '\n' && c != '\r'

/-- Line and column, to be compared in this order. -/
def Location.place (location : Location) : ℕ ×ₗ ℕ :=
  toLex (location.line, location.column)

/-- The offset lies between two characters, and not between a carriage return and a line feed. -/
def IsPlace (text : List Char) (offset : Nat) : Prop :=
  ∃ before after, text = before ++ after ∧ byteLength before = offset
    ∧ ¬ (before.getLast? = some '\r' ∧ after.head? = some '\n')

namespace Location

section Counted

variable {line column : Nat} {c : Char} {cs : List Char}

theorem lineEnds_of_pair (h : c = '\r' ∧ cs.head? = some '\n') : lineEnds (c :: cs) = lineEnds cs := by
  obtain ⟨rfl, hhead⟩ := h
  obtain ⟨rest, rfl⟩ := List.head?_eq_some_iff.1 hhead
  cases rest <;> simp [lineEnds]

theorem lineEnds_of_not_pair (h : ¬ (c = '\r' ∧ cs.head? = some '\n')) :
    lineEnds (c :: cs) = lineEnds cs + if c = '\n' ∨ c = '\r' then 1 else 0 := by
  rw [lineEnds]
  rintro rest rfl rfl
  exact h ⟨rfl, rfl⟩

theorem advance_line : ∀ (cs : List Char) (line column : Nat),
    (advance line column cs).1 = line + lineEnds cs
  | [], _, _ => rfl
  | c :: cs, line, column => by
    rw [advance]
    split_ifs with hpair hend
    · rw [advance_line cs, lineEnds_of_pair hpair]
    · rw [advance_line cs, lineEnds_of_not_pair hpair, if_pos hend]
      omega
    · rw [advance_line cs, lineEnds_of_not_pair hpair, if_neg hend, Nat.add_zero]

/-- What one more character does to the place. The line feed behind a carriage return leaves it, since the
carriage return has ended the line where nothing was seen behind it. -/
theorem advance_concat : ∀ (cs : List Char) (line column : Nat), advance line column (cs ++ [c])
    = if c = '\n' ∧ cs.getLast? = some '\r' then advance line column cs
      else if c = '\n' ∨ c = '\r' then ((advance line column cs).1 + 1, 1)
      else ((advance line column cs).1, (advance line column cs).2 + 1)
  | [], line, column => by simp [advance]
  | [d], line, column => by
    by_cases hpair : c = '\n' ∧ d = '\r'
    · obtain ⟨rfl, rfl⟩ := hpair
      rfl
    · have hpair' : ¬ (d = '\r' ∧ c = '\n') := fun h => hpair h.symm
      simp only [advance, List.singleton_append, List.head?_cons, List.head?_nil, List.getLast?_singleton,
        Option.some.injEq, hpair, hpair', reduceCtorEq, and_false, if_false]
      split_ifs <;> rfl
  | d :: e :: cs, line, column => by
    have ih := advance_concat (e :: cs)
    rw [List.cons_append, advance, List.getLast?_cons_cons, List.cons_append, List.head?_cons, ← List.cons_append, ih,
      ih, ih]
    conv_rhs => rw [advance, List.head?_cons]
    split_ifs <;> rfl

/-- Behind a line end nothing is left of its line. -/
theorem lastLine_concat_of_end (hend : c = '\n' ∨ c = '\r') : lastLine (cs ++ [c]) = [] :=
  List.rtakeWhile_concat_neg _ _ c (by rcases hend with rfl | rfl <;> decide)

theorem advance_column (cs : List Char) : (advance 1 1 cs).2 = 1 + (lastLine cs).length := by
  induction cs using List.reverseRecOn with
  | nil => rfl
  | append_singleton cs c ih =>
    rw [advance_concat]
    split_ifs with hpair hend
    · obtain ⟨before, rfl⟩ := List.getLast?_eq_some_iff.1 hpair.2
      rw [ih, lastLine_concat_of_end (.inr rfl), lastLine_concat_of_end (.inl hpair.1)]
    · rw [lastLine_concat_of_end hend]
      rfl
    · obtain ⟨hfeed, hreturn⟩ := not_or.1 hend
      have hlast : lastLine (cs ++ [c]) = lastLine cs ++ [c] :=
        List.rtakeWhile_concat_pos _ _ c (by simp [hfeed, hreturn])
      rw [ih, hlast, List.length_append, List.length_singleton]
      omega

end Counted

section Ordered

variable {c : Char}

/-- The place reached by reading characters. -/
def reached (cs : List Char) : ℕ ×ₗ ℕ := toLex (advance 1 1 cs)

theorem reached_lt_concat {cs : List Char} (h : ¬ (cs.getLast? = some '\r' ∧ c = '\n')) :
    reached cs < reached (cs ++ [c]) := by
  have hpair : ¬ (c = '\n' ∧ cs.getLast? = some '\r') := fun hpair => h hpair.symm
  unfold reached
  rw [advance_concat, if_neg hpair, Prod.Lex.toLex_lt_toLex]
  split_ifs
  · exact .inl (Nat.lt_succ_self _)
  · exact .inr ⟨rfl, Nat.lt_succ_self _⟩

theorem reached_le_concat (cs : List Char) : reached cs ≤ reached (cs ++ [c]) := by
  by_cases hpair : c = '\n' ∧ cs.getLast? = some '\r'
  · unfold reached
    rw [advance_concat, if_pos hpair]
  · exact (reached_lt_concat fun h => hpair h.symm).le

theorem reached_le_append (cs : List Char) : ∀ more, reached cs ≤ reached (cs ++ more)
  | [] => by rw [List.append_nil]
  | c :: more => by
    have hmore := reached_le_append (cs ++ [c]) more
    rw [List.append_assoc, List.singleton_append] at hmore
    exact (reached_le_concat cs).trans hmore

theorem reached_lt_append {cs more : List Char} (hne : more ≠ [])
    (h : ¬ (cs.getLast? = some '\r' ∧ more.head? = some '\n')) : reached cs < reached (cs ++ more) := by
  obtain ⟨c, more, rfl⟩ := List.exists_cons_of_ne_nil hne
  have hmore := reached_le_append (cs ++ [c]) more
  rw [List.append_assoc, List.singleton_append] at hmore
  refine (reached_lt_concat fun hpair => h ⟨hpair.1, ?_⟩).trans_le hmore
  rw [hpair.2, List.head?_cons]

variable {text before after : List Char} {m n : Nat}

theorem place_ofOffset (text : List Char) (n : Nat) :
    (ofOffset text n).place = reached (takeBytes (min n (byteLength text)) text) := rfl

theorem ofOffset_append (before after : List Char) : ofOffset (before ++ after) (byteLength before)
    = ⟨1 + lineEnds before, 1 + (lastLine before).length, byteLength before⟩ := by
  have hstop : min (byteLength before) (byteLength (before ++ after)) = byteLength before :=
    Nat.min_eq_left (by rw [byteLength_append]; exact Nat.le_add_right _ _)
  unfold ofOffset
  simp only [hstop, takeBytes_byteLength_append, advance_line, advance_column]

/-- Up to a later offset there are the characters up to an earlier one, and others. -/
theorem takeBytes_prefix : ∀ (text : List Char) {m n : Nat}, m ≤ n → takeBytes m text <+: takeBytes n text
  | [], _, _, _ => List.prefix_rfl
  | c :: cs, m, n, h => by
    unfold takeBytes
    split_ifs with hm hn
    · exact List.prefix_rfl
    · exact List.nil_prefix
    · omega
    · exact List.cons_prefix_cons.2 ⟨rfl, takeBytes_prefix cs (Nat.sub_le_sub_right h _)⟩

theorem place_le_place (text : List Char) (h : m ≤ n) :
    (ofOffset text m).place ≤ (ofOffset text n).place := by
  have hle : min m (byteLength text) ≤ min n (byteLength text) := by omega
  obtain ⟨more, hmore⟩ := takeBytes_prefix text hle
  rw [place_ofOffset, place_ofOffset, ← hmore]
  exact reached_le_append _ more

theorem place_ofOffset_append (before after : List Char) :
    (ofOffset (before ++ after) (byteLength before)).place = reached before := by
  rw [ofOffset_append, reached, ← advance_column, Nat.add_comm 1, Nat.add_comm _ 1, ← advance_line]
  rfl

theorem place_lt_place (hm : IsPlace text m) (hn : IsPlace text n) (h : m < n) :
    (ofOffset text m).place < (ofOffset text n).place := by
  obtain ⟨before, after, rfl, rfl, hpair⟩ := hm
  obtain ⟨before', after', heq, rfl, -⟩ := hn
  rcases List.append_eq_append_iff.1 heq with ⟨more, rfl, rfl⟩ | ⟨more, rfl, rfl⟩
  · have hne : more ≠ [] := by
      rintro rfl
      rw [List.append_nil] at h
      exact Nat.lt_irrefl _ h
    rw [place_ofOffset_append, heq, place_ofOffset_append]
    refine reached_lt_append hne fun hmore => hpair ⟨hmore.1, ?_⟩
    rw [List.head?_append_of_ne_nil _ hne]
    exact hmore.2
  · rw [byteLength_append] at h
    omega

/-- Locations that print alike are of one place. -/
theorem place_eq_of_describe_eq {first second : Location} (h : first.describe = second.describe) :
    first.place = second.place := by
  have hcolon : ∀ n : Nat, ':' ∉ Nat.toDigits 10 n := fun n hmem => by
    have := Nat.isDigit_of_mem_toDigits (by decide) (by decide) hmem
    exact absurd this (by decide)
  have hdigits : ∀ location : Location, location.describe.toList
      = Nat.toDigits 10 location.line ++ ':' :: Nat.toDigits 10 location.column := by
    intro location
    simp only [describe, String.toList_append, Nat.toString_eq_repr, Nat.toList_repr, List.append_assoc]
    rfl
  have hlists := congrArg String.toList h
  rw [hdigits, hdigits, List.append_cons_inj_of_notMem (hcolon _) (hcolon _)] at hlists
  have hnumber : ∀ {k l : Nat}, Nat.toDigits 10 k = Nat.toDigits 10 l → k = l := fun {k l} heq => by
    rw [← Nat.ofDigitChars_ten_toDigits (n := k), heq, Nat.ofDigitChars_ten_toDigits]
  unfold place
  rw [hnumber hlists.1, hnumber hlists.2.2]

end Ordered

/-- A location is that of the offset, or of the end behind it: it counts the line ends up to there and the
characters behind the last of them. Of two places the one before comes first, and prints differently; of any
two offsets the one before does not come later. -/
theorem locations_in_order (text : List Char) :
    (∀ n, ofOffset text n = ofOffset text (min n (byteLength text))
      ∧ (ofOffset text n).offset = min n (byteLength text))
    ∧ (∀ before after, text = before ++ after → ofOffset text (byteLength before)
        = ⟨1 + lineEnds before, 1 + (lastLine before).length, byteLength before⟩)
    ∧ (∀ m n, IsPlace text m → IsPlace text n → m < n → (ofOffset text m).place < (ofOffset text n).place
        ∧ (ofOffset text m).describe ≠ (ofOffset text n).describe)
    ∧ ∀ m n, m ≤ n → (ofOffset text m).place ≤ (ofOffset text n).place := by
  refine ⟨fun n => ⟨?_, rfl⟩, ?_, fun m n hm hn h => ?_, fun m n h => place_le_place text h⟩
  · unfold ofOffset
    rw [Nat.min_eq_left (Nat.min_le_right n _)]
  · rintro before after rfl
    exact ofOffset_append before after
  · have hlt := place_lt_place hm hn h
    exact ⟨hlt, fun heq => hlt.ne (place_eq_of_describe_eq heq)⟩

/-- A pair ends one line. Inside it there is the place behind it; the characters around it are told apart. -/
theorem locations_around_pair :
    (ofOffset ['é', '\r', '\n', 'b'] 2 = ⟨1, 2, 2⟩ ∧ ofOffset ['é', '\r', '\n', 'b'] 4 = ⟨2, 1, 4⟩)
      ∧ IsPlace ['é', '\r', '\n', 'b'] 2 ∧ IsPlace ['é', '\r', '\n', 'b'] 4
      ∧ (ofOffset ['é', '\r', '\n', 'b'] 2).describe ≠ (ofOffset ['é', '\r', '\n', 'b'] 4).describe
      ∧ (ofOffset ['é', '\r', '\n', 'b'] 3).place ≤ (ofOffset ['é', '\r', '\n', 'b'] 4).place := by
  obtain ⟨-, hexact, hstrict, hmono⟩ := locations_in_order ['é', '\r', '\n', 'b']
  have hbefore : IsPlace ['é', '\r', '\n', 'b'] 2 :=
    ⟨['é'], ['\r', '\n', 'b'], rfl, rfl, by decide⟩
  have hbehind : IsPlace ['é', '\r', '\n', 'b'] 4 :=
    ⟨['é', '\r', '\n'], ['b'], rfl, rfl, by decide⟩
  exact ⟨⟨hexact ['é'] ['\r', '\n', 'b'] rfl, hexact ['é', '\r', '\n'] ['b'] rfl⟩, hbefore, hbehind,
    (hstrict 2 4 hbefore hbehind (by decide)).2, hmono 3 4 (by decide)⟩

end Location

end NodeFactory.Text
