import Mathlib.Data.List.Basic

/-!
# Loops of an imperative language

A `while` loop is given by its round: the state after one more pass through the body, or
`none` where the condition is false.  `loop` runs it with a bound on its tests; where the
rounds are known the bound only has to be larger than their number.
-/

namespace Loops

variable {σ : Type*} {round : σ → Option σ} {s t : σ} {n : Nat}

/-- The state after `n` rounds, or `none` if the loop ends before. -/
def rounds (round : σ → Option σ) : Nat → σ → Option σ
  | 0, s => some s
  | n + 1, s => (round s).bind (rounds round n)

/-- The state at the end of the loop, or `none` if its condition has not been false in
`tests` tests. -/
def loop (round : σ → Option σ) : Nat → σ → Option σ
  | 0, _ => none
  | tests + 1, s =>
      match round s with
      | none => some s
      | some t => loop round tests t

theorem rounds_succ_some :
    rounds round (n + 1) s = some t ↔ ∃ u, round s = some u ∧ rounds round n u = some t :=
  Option.bind_eq_some_iff

/-- One round after `n`. -/
theorem rounds_snoc {u : σ} (h : rounds round n s = some t) (hu : round t = some u) :
    rounds round (n + 1) s = some u := by
  induction n generalizing s with
  | zero =>
      obtain rfl := Option.some.inj h
      rw [rounds, hu]
      rfl
  | succ n ih =>
      obtain ⟨m, hm, hrest⟩ := rounds_succ_some.mp h
      exact rounds_succ_some.mpr ⟨m, hm, ih hrest⟩

/-- **The end of a loop** whose rounds are known. -/
theorem loop_of_rounds {tests : Nat} (h : rounds round n s = some t) (hend : round t = none)
    (htests : n < tests) : loop round tests s = some t := by
  induction n generalizing s tests with
  | zero =>
      obtain rfl := Option.some.inj h
      obtain ⟨m, rfl⟩ := Nat.exists_eq_add_of_lt htests
      rw [loop, hend]
  | succ n ih =>
      obtain ⟨u, hu, hrest⟩ := rounds_succ_some.mp h
      obtain ⟨m, rfl⟩ := Nat.exists_eq_add_of_lt htests
      rw [loop, hu]
      exact ih hrest (by omega)

end Loops
