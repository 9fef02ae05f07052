/-!
# Inquiries

An inquiry is a computation that asks questions on its way. It is data, so that it can be carried
out by a search that remembers answers, and also be spoken of on its own: which questions it asks,
and what it comes to when they are answered.
-/

namespace NodeFactory

/-- An inquiry has come to a value, or it asks a question and goes on with the answer. -/
inductive Inquiry (κ α β : Type) where
  | done (value : β)
  | ask (key : κ) (next : α → Inquiry κ α β)

namespace Inquiry

def bind : Inquiry κ α β → (β → Inquiry κ α γ) → Inquiry κ α γ
  | done value, next => next value
  | ask key more, next => ask key fun answer => (more answer).bind next

instance : Monad (Inquiry κ α) where
  pure := done
  bind := bind

/-- The inquiry that asks one question. -/
def question (key : κ) : Inquiry κ α α :=
  ask key done

/-- Carries an inquiry out, given how questions are answered. -/
def run [Monad m] (answer : κ → m α) : Inquiry κ α β → m β
  | done value => return value
  | ask key next => do (next (← answer key)).run answer

theorem run_question [Monad m] [LawfulMonad m] (answer : κ → m α) (key : κ) :
    (question key).run answer = answer key := by
  simp only [question, run, bind_pure]

end Inquiry

end NodeFactory
