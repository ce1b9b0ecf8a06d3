import Mathlib.Data.List.Basic

/-!
# Paths of a step relation

A step relation `step s a t` need not be a function: the label `a` may leave open what the
step does.  A path is a list of labels together with the states that it passes through.  The
two rules are an induction over paths each: for a property that the steps with certain labels
preserve, and for a relation that takes no more steps than another one.
-/

namespace Runs

variable {σ τ ι : Type*}

/-- A path from `s` to `t` with the labels of the list, in order. -/
inductive Path (step : σ → ι → σ → Prop) : σ → List ι → σ → Prop
  | nil (s : σ) : Path step s [] s
  | cons {s m t : σ} {a : ι} {as : List ι} :
      step s a m → Path step m as t → Path step s (a :: as) t

variable {step : σ → ι → σ → Prop} {s t : σ} {as : List ι}

/-- **Invariant rule** for steps with labels that meet `ok`. -/
theorem Path.invariant (inv : σ → Prop) {ok : ι → Prop}
    (hstep : ∀ s a t, inv s → ok a → step s a t → inv t) (hs : inv s)
    (hpath : Path step s as t) (hok : ∀ a ∈ as, ok a) : inv t := by
  induction hpath with
  | nil s => exact hs
  | cons hfirst _ ih =>
      exact ih (hstep _ _ _ hs (hok _ List.mem_cons_self) hfirst)
        fun a ha => hok a (List.mem_cons_of_mem _ ha)

/-- **Simulation rule.**  Where `abs` takes every step from a state of the invariant to a step
of the other relation, it takes paths to paths. -/
theorem Path.simulation {step' : τ → ι → τ → Prop} (abs : σ → τ) (inv : σ → Prop)
    (hstep : ∀ s a t, inv s → step s a t → inv t ∧ step' (abs s) a (abs t)) (hs : inv s)
    (hpath : Path step s as t) : inv t ∧ Path step' (abs s) as (abs t) := by
  induction hpath with
  | nil s => exact ⟨hs, .nil _⟩
  | cons hfirst _ ih =>
      obtain ⟨hm, hfirst'⟩ := hstep _ _ _ hs hfirst
      obtain ⟨ht, hrest⟩ := ih hm
      exact ⟨ht, .cons hfirst' hrest⟩

end Runs
