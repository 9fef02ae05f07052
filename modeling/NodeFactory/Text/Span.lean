/-!
# Positions in a text

A position is an offset in bytes of the UTF-8 form. A span is cut out of a text by walking over its
characters, so that a cut is always a run of whole characters.
-/

namespace NodeFactory.Text

/-- The bytes from `start` up to, and without, `stop`. -/
structure Span where
  start : Nat
  stop : Nat
deriving DecidableEq, Repr

def byteLength : List Char → Nat
  | [] => 0
  | c :: cs => c.utf8Size + byteLength cs

/-- The characters that begin before byte `n`. -/
def takeBytes (n : Nat) : List Char → List Char
  | [] => []
  | c :: cs => if n = 0 then [] else c :: takeBytes (n - c.utf8Size) cs

/-- The characters that begin at byte `n` or later. -/
def dropBytes (n : Nat) : List Char → List Char
  | [] => []
  | c :: cs => if n = 0 then c :: cs else dropBytes (n - c.utf8Size) cs

/-- The characters of a text that a span covers. -/
def slice (text : List Char) (span : Span) : List Char :=
  takeBytes (span.stop - span.start) (dropBytes span.start text)

@[simp] theorem byteLength_append (xs ys : List Char) :
    byteLength (xs ++ ys) = byteLength xs + byteLength ys := by
  induction xs with
  | nil => simp [byteLength]
  | cons c cs ih => simp [byteLength, ih, Nat.add_assoc]

@[simp] theorem takeBytes_append_dropBytes (n : Nat) (text : List Char) :
    takeBytes n text ++ dropBytes n text = text := by
  induction text generalizing n with
  | nil => rfl
  | cons c cs ih => by_cases h : n = 0 <;> simp [takeBytes, dropBytes, h, ih]

theorem dropBytes_byteLength_append (xs ys : List Char) :
    dropBytes (byteLength xs) (xs ++ ys) = ys := by
  induction xs with
  | nil => cases ys <;> simp [byteLength, dropBytes]
  | cons c cs ih =>
    have hc : c.utf8Size ≠ 0 := Nat.ne_of_gt (Char.utf8Size_pos c)
    simp [byteLength, dropBytes, hc, ih]

theorem takeBytes_byteLength_append (xs ys : List Char) :
    takeBytes (byteLength xs) (xs ++ ys) = xs := by
  have h := takeBytes_append_dropBytes (byteLength xs) (xs ++ ys)
  rw [dropBytes_byteLength_append] at h
  exact List.append_cancel_right h

/-- The span that a middle part occupies cuts out exactly that part. -/
theorem slice_middle (before part after : List Char) :
    slice (before ++ part ++ after)
      ⟨byteLength before, byteLength before + byteLength part⟩ = part := by
  simp only [slice, Nat.add_sub_cancel_left, List.append_assoc]
  rw [dropBytes_byteLength_append, takeBytes_byteLength_append]

end NodeFactory.Text
