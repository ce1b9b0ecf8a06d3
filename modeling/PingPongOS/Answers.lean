import Mathlib.Data.List.Basic

/-!
# Machines that answer their calls

A machine answers every call and goes on in a new state.  A relation between the
states of two machines under which they answer alike, and which every call keeps, makes
their answers to a list of calls the same, and relates the states at its end.
-/

namespace Answers

variable {σ τ ι ω : Type*}

/-- The answers to the calls of the list, in order, and the state after them. -/
def respond (call : σ → ι → ω × σ) (s : σ) : List ι → List ω × σ
  | [] => ([], s)
  | a :: as =>
      ((call s a).1 :: (respond call (call s a).2 as).1, (respond call (call s a).2 as).2)

/-- Related states answer every call alike and go on to related states. -/
def Simulates (R : σ → τ → Prop) (call : σ → ι → ω × σ) (spec : τ → ι → ω × τ) : Prop :=
  ∀ s t a, R s t → (call s a).1 = (spec t a).1 ∧ R (call s a).2 (spec t a).2

/-- **Simulation rule.**  What holds of every call holds of every list of calls. -/
theorem Simulates.forall_calls {R : σ → τ → Prop} {call : σ → ι → ω × σ} {spec : τ → ι → ω × τ}
    (h : Simulates R call spec) {s : σ} {t : τ} (hst : R s t) (as : List ι) :
    (respond call s as).1 = (respond spec t as).1 ∧
      R (respond call s as).2 (respond spec t as).2 := by
  induction as generalizing s t with
  | nil => exact ⟨rfl, hst⟩
  | cons a as ih =>
      obtain ⟨hanswer, hnext⟩ := h s t a hst
      obtain ⟨hanswers, hend⟩ := ih hnext
      exact ⟨congrArg₂ List.cons hanswer hanswers, hend⟩

end Answers
