import Mathlib.Data.List.Basic

/-!
# Runs of partial step functions

A transition system is given by a partial function `step s a`: the state after
the step labelled `a`, or `none` where the step cannot be taken.  A run is the
list of its labels.  The two induction rules below are the only inductions over
runs in the development: a property preserved by each step holds in every state
reached, and the same with a condition that every step of the run meets.
-/

namespace Runs

variable {σ ι : Type*} (step : σ → ι → Option σ)

/-- The state reached from `s` by the steps of the list, in order. -/
def run (s : σ) : List ι → Option σ
  | [] => some s
  | a :: as => (step s a).bind fun t => run t as

/-- Every step of the run from `s` meets `ok`, a condition on the label and on
the state before the step. -/
def AllSteps (ok : σ → ι → Prop) (s : σ) : List ι → Prop
  | [] => True
  | a :: as => ok s a ∧ ∀ t, step s a = some t → AllSteps ok t as

/-- What the steps of the run from `s` leave behind, in order: `events s a` for the
step labelled `a` from `s`. -/
def history {ε : Type*} (events : σ → ι → List ε) (s : σ) : List ι → List ε
  | [] => []
  | a :: as => events s a ++ (step s a).elim [] fun t => history events t as

instance AllSteps.decidable {ok : σ → ι → Prop} [∀ s a, Decidable (ok s a)] :
    ∀ s as, Decidable (AllSteps step ok s as)
  | _, [] => .isTrue trivial
  | s, a :: as =>
      match h : step s a with
      | none => decidable_of_iff (ok s a)
          ⟨fun hok => ⟨hok, fun t ht => absurd (h.symm.trans ht) (by simp)⟩, fun hall => hall.1⟩
      | some t =>
          have : Decidable (AllSteps step ok t as) := AllSteps.decidable t as
          decidable_of_iff (ok s a ∧ AllSteps step ok t as)
            ⟨fun hall => ⟨hall.1, fun u hu => Option.some.inj (h.symm.trans hu) ▸ hall.2⟩,
              fun hall => ⟨hall.1, hall.2 t h⟩⟩

@[simp] theorem run_nil (s : σ) : run step s [] = some s := rfl

variable {step}

theorem run_cons {s u : σ} {a : ι} {as : List ι} :
    run step s (a :: as) = some u ↔ ∃ t, step s a = some t ∧ run step t as = some u := by
  simp [run, Option.bind_eq_some_iff]

/-- A run splits at every point of its label list. -/
theorem run_append {s u : σ} {as bs : List ι} :
    run step s (as ++ bs) = some u ↔
      ∃ t, run step s as = some t ∧ run step t bs = some u := by
  induction as generalizing s with
  | nil => simp
  | cons a as ih =>
      simp only [List.cons_append, run_cons, ih]
      constructor
      · rintro ⟨t, ha, m, hm, hu⟩
        exact ⟨m, ⟨t, ha, hm⟩, hu⟩
      · rintro ⟨m, ⟨t, ha, hm⟩, hu⟩
        exact ⟨t, ha, m, hm, hu⟩

/-- The last step of a nonempty run. -/
theorem run_snoc {s u : σ} {a : ι} {as : List ι} :
    run step s (as ++ [a]) = some u ↔ ∃ t, run step s as = some t ∧ step t a = some u := by
  simp [run_append, run_cons]

/-- The steps of a run split where the run does. -/
theorem AllSteps.append {ok : σ → ι → Prop} {s : σ} {as bs : List ι} :
    AllSteps step ok s (as ++ bs) ↔
      AllSteps step ok s as ∧ ∀ t, run step s as = some t → AllSteps step ok t bs := by
  induction as generalizing s with
  | nil => simp [AllSteps]
  | cons a as ih =>
      simp only [List.cons_append, AllSteps, ih, run_cons]
      constructor
      · intro h
        refine ⟨⟨h.1, fun t ht => (h.2 t ht).1⟩, fun u hu => ?_⟩
        obtain ⟨t, ht, hu⟩ := hu
        exact (h.2 t ht).2 u hu
      · intro h
        exact ⟨h.1.1, fun t ht => ⟨h.1.2 t ht, fun u hu => h.2 u ⟨t, ht, hu⟩⟩⟩

/-- The history of a run splits where the run does. -/
theorem history_append {ε : Type*} {events : σ → ι → List ε} {s t : σ} {as bs : List ι}
    (hrun : run step s as = some t) :
    history step events s (as ++ bs) = history step events s as ++ history step events t bs := by
  induction as generalizing s with
  | nil =>
      obtain rfl := Option.some.inj hrun
      rfl
  | cons a as ih =>
      obtain ⟨m, ha, hm⟩ := run_cons.mp hrun
      simp only [List.cons_append, history, ha, Option.elim_some, ih hm, List.append_assoc]

/-- **Invariant rule.**  A property that each step preserves holds in every
state reached. -/
theorem invariant (inv : σ → Prop)
    (hstep : ∀ s a t, inv s → step s a = some t → inv t)
    {s t : σ} {as : List ι} (hs : inv s) (hrun : run step s as = some t) : inv t := by
  induction as generalizing s with
  | nil => exact Option.some.inj hrun ▸ hs
  | cons a as ih =>
      obtain ⟨m, ha, hm⟩ := run_cons.mp hrun
      exact ih (hstep s a m hs ha) hm

/-- **Conditional invariant rule.**  A property preserved by each step that
meets `ok` holds in every state reached by steps that all meet it. -/
theorem invariant_of_allSteps (inv : σ → Prop) {ok : σ → ι → Prop}
    (hstep : ∀ s a t, inv s → ok s a → step s a = some t → inv t)
    {s t : σ} {as : List ι} (hs : inv s) (hok : AllSteps step ok s as)
    (hrun : run step s as = some t) : inv t := by
  induction as generalizing s with
  | nil => exact Option.some.inj hrun ▸ hs
  | cons a as ih =>
      obtain ⟨m, ha, hm⟩ := run_cons.mp hrun
      exact ih (hstep s a m hs hok.1 ha) (hok.2 m ha) hm

/-- What an invariant implies for every next step, every step of the run meets. -/
theorem allSteps_of_invariant (inv : σ → Prop) {ok good : σ → ι → Prop}
    (hstep : ∀ s a t, inv s → ok s a → step s a = some t → inv t)
    (hgood : ∀ s a, inv s → good s a) {s : σ} {as : List ι} (hs : inv s)
    (hok : AllSteps step ok s as) : AllSteps step good s as := by
  induction as generalizing s with
  | nil => trivial
  | cons a as ih =>
      exact ⟨hgood s a hs, fun t ht => ih (hstep s a t hs hok.1 ht) (hok.2 t ht)⟩

/-- **Invariant rule with a history.**  A property of the state and of the history so
far that each step that meets `ok` preserves. -/
theorem invariant_history {ε : Type*} {events : σ → ι → List ε} (inv : σ → List ε → Prop)
    {ok : σ → ι → Prop}
    (hstep : ∀ s h a t, inv s h → ok s a → step s a = some t → inv t (h ++ events s a))
    {s t : σ} {h : List ε} {as : List ι} (hs : inv s h) (hok : AllSteps step ok s as)
    (hrun : run step s as = some t) : inv t (h ++ history step events s as) := by
  induction as generalizing s h with
  | nil =>
      obtain rfl := Option.some.inj hrun
      rw [history, List.append_nil]
      exact hs
  | cons a as ih =>
      obtain ⟨m, ha, hm⟩ := run_cons.mp hrun
      have hnext := ih (hstep s h a m hs hok.1 ha) (hok.2 m ha) hm
      rw [history, ha, ← List.append_assoc]
      exact hnext

/-- What every step leaves behind from the states of an invariant, the whole history
does. -/
theorem forall_history {ε : Type*} {events : σ → ι → List ε} (inv : σ → Prop) {good : ε → Prop}
    (hstep : ∀ s a t, inv s → step s a = some t → inv t)
    (hgood : ∀ s a, inv s → ∀ e ∈ events s a, good e)
    {s : σ} (as : List ι) (hs : inv s) : ∀ e ∈ history step events s as, good e := by
  induction as generalizing s with
  | nil => exact fun e he => absurd he List.not_mem_nil
  | cons a as ih =>
      intro e he
      rw [history, List.mem_append] at he
      rcases he with he | he
      · exact hgood s a hs e he
      · cases ha : step s a with
        | none =>
            rw [ha] at he
            exact absurd he List.not_mem_nil
        | some t =>
            rw [ha] at he
            exact ih (hstep s a t hs ha) e he

/-- Every step meets the condition, if and only if the last step of every prefix does. -/
theorem allSteps_iff_prefix {ok : σ → ι → Prop} {s : σ} {as : List ι} :
    AllSteps step ok s as ↔
      ∀ bs a t, bs ++ [a] <+: as → run step s bs = some t → ok t a := by
  induction as generalizing s with
  | nil =>
      constructor
      · intro _ bs a t hpre _
        exact absurd (List.prefix_nil.mp hpre) (by simp)
      · exact fun _ => trivial
  | cons b as ih =>
      constructor
      · rintro ⟨hb, hrest⟩ bs a t hpre ht
        cases bs with
        | nil =>
            obtain rfl := Option.some.inj ht
            obtain rfl := (List.cons_prefix_cons.mp hpre).1
            exact hb
        | cons c bs =>
            rw [List.cons_append, List.cons_prefix_cons] at hpre
            obtain ⟨m, hm, ht⟩ := run_cons.mp ht
            exact ih.mp (hrest m (hpre.1 ▸ hm)) bs a t hpre.2 ht
      · intro h
        refine ⟨h [] b s ⟨as, rfl⟩ rfl, fun m hm => ih.mpr fun bs a t hpre ht => ?_⟩
        exact h (b :: bs) a t (List.cons_prefix_cons.mpr ⟨rfl, hpre⟩) (run_cons.mpr ⟨m, hm, ht⟩)

/-- A run that reaches a state passes through one after every prefix. -/
theorem run_prefix {s u : σ} {as bs : List ι} (hpre : bs <+: as)
    (hrun : run step s as = some u) : ∃ t, run step s bs = some t := by
  obtain ⟨cs, rfl⟩ := hpre
  obtain ⟨t, ht, -⟩ := run_append.mp hrun
  exact ⟨t, ht⟩

/-- A condition that holds of every label of a run in whatever state. -/
theorem AllSteps.of_forall {ok : σ → ι → Prop} {s : σ} {as : List ι}
    (h : ∀ a ∈ as, ∀ s, ok s a) : AllSteps step ok s as := by
  induction as generalizing s with
  | nil => trivial
  | cons a as ih =>
      exact ⟨h a (List.mem_cons_self ..) s, fun t _ =>
        ih fun b hb => h b (List.mem_cons_of_mem _ hb)⟩

/-- Steps that meet a stronger condition meet the weaker one. -/
theorem AllSteps.imp {ok ok' : σ → ι → Prop} {s : σ} {as : List ι}
    (himp : ∀ s a, ok s a → ok' s a) (h : AllSteps step ok s as) : AllSteps step ok' s as := by
  induction as generalizing s with
  | nil => trivial
  | cons a as ih => exact ⟨himp s a h.1, fun t ht => ih (h.2 t ht)⟩

/-- Steps that meet each of two conditions meet both. -/
theorem AllSteps.and {ok ok' : σ → ι → Prop} {s : σ} {as : List ι}
    (h : AllSteps step ok s as) (h' : AllSteps step ok' s as) :
    AllSteps step (fun s a => ok s a ∧ ok' s a) s as := by
  induction as generalizing s with
  | nil => trivial
  | cons a as ih => exact ⟨⟨h.1, h'.1⟩, fun t ht => ih (h.2 t ht) (h'.2 t ht)⟩

end Runs
