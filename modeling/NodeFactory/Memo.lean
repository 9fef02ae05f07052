import NodeFactory.Inquiry

/-!
# Remembered searches

A search over a graph finds the answer at a node by an inquiry about the answers at other nodes. An
answer is remembered; a question that comes up again while it is being answered is a cycle, and
makes the search fail. Failing leaves nothing behind: the questions being answered are those of
the callers (`visiting_ask`), and only answers are remembered.
-/

namespace NodeFactory

/-- The search came upon a type that is defined in terms of itself. -/
structure CyclicType where
  name : String
deriving DecidableEq, Repr

structure Memo (κ α : Type) where
  /-- The answers found so far. -/
  known : List (κ × α)
  /-- The questions that are being answered, innermost first. -/
  visiting : List κ

namespace Memo

def empty : Memo κ α := ⟨[], []⟩

/-- An action that may look answers up and remember them. -/
abbrev Search (κ α : Type) := EStateM CyclicType (Memo κ α)

/-- The answer to a question: the one remembered, or the one that `answer` finds. -/
def ask [BEq κ] (name : κ → String) (answer : κ → Search κ α α) (key : κ) : Search κ α α :=
  fun memo =>
    match memo.known.lookup key with
    | some value => .ok value memo
    | none =>
      if memo.visiting.contains key then .error ⟨name key⟩ memo
      else
        match answer key { memo with visiting := key :: memo.visiting } with
        | .ok value inner => .ok value ⟨(key, value) :: inner.known, memo.visiting⟩
        | .error cycle inner => .error cycle ⟨inner.known, memo.visiting⟩

/-- Answers questions by a rule that gives the inquiry for each, nested to a depth. A deeper chain
of different questions than there are questions would repeat one, so that one is reported as a
cycle. -/
def search [BEq κ] (name : κ → String) (rule : κ → Inquiry κ α α) : Nat → κ → Search κ α α
  | 0, key => fun memo => .error ⟨name key⟩ memo
  | depth + 1, key => ask name (fun key => (rule key).run (search name rule depth)) key

/-- What a run leaves remembered. -/
def after : EStateM.Result CyclicType (Memo κ α) β → Memo κ α
  | .ok _ memo => memo
  | .error _ memo => memo

theorem visiting_ask [BEq κ] (name : κ → String) (answer : κ → Search κ α α) (key : κ)
    (memo : Memo κ α) : (after (ask name answer key memo)).visiting = memo.visiting := by
  unfold ask
  split
  · rfl
  · split
    · rfl
    · split <;> rfl

end Memo

end NodeFactory
