import PingPongOS.Scheduler
import PingPongOS.Runs

/-!
# Bounded waiting in `ready_queue`

Between the calls of `scheduler` any tasks may enter the queue at its tail and be
given priorities in the range that `sched_setprio` asserts.  A waiting task ages
by one at each call, so after 41 calls its priority is below every priority a task
can enter with or be given; from then on the tasks that can be selected before it
only become fewer, and each call takes one of them.
-/

namespace PingPongOS

open TaskSystem Runs

/-- What happens to `ready_queue`. -/
inductive ReadyEvent
  | call
  | enter (t : Nat)
  | setprio (t : Nat) (prio : Int)
  deriving DecidableEq

/-- `scheduler` returns `t`. -/
def Selects (S : TaskSystem) (t : Nat) : Prop := ∃ S', scheduler S = .ok (some t, S')

/-- One event: the task selected by a call leaves the queue, a task that is not in
the queue enters it at the tail, or a task is given a priority. -/
def readyStep (S : TaskSystem) : ReadyEvent → Option TaskSystem
  | .call =>
      match scheduler S with
      | .ok (some s, S') => some (S'.setQueue .ready (queueDel (S'.queue .ready) s).2)
      | .ok (none, S') => some S'
      | .error _ => none
  | .enter t =>
      if t ∈ S.inQueue .ready then none
      else some (S.setQueue .ready (queueAdd (S.queue .ready) t))
  | .setprio t prio => (schedSetprio S (some t) prio).toOption

/-- At a call the queue holds at most `N` tasks. -/
def Fits (N : Nat) (S : TaskSystem) (e : ReadyEvent) : Prop :=
  e = .call → (S.inQueue .ready).length ≤ N

instance (N : Nat) (S : TaskSystem) (e : ReadyEvent) : Decidable (Fits N S e) := by
  unfold Fits
  infer_instance

/-- Nothing is ready, and the priorities are as `task_create`, `sched_setprio` and
selections leave them. -/
structure AtRest (S : TaskSystem) : Prop where
  empty : S.inQueue .ready = []
  static : ∀ t, -20 ≤ (S.task t).staticPriority ∧ (S.task t).staticPriority ≤ 20
  dynamic : ∀ t, -20 ≤ (S.task t).dynamicPriority ∧ (S.task t).dynamicPriority ≤ 20

/-- The number of other tasks that may be selected before `t`. -/
def rivals (S : TaskSystem) (t : Nat) : Nat :=
  (S.inQueue .ready).countP fun x =>
    x ≠ t ∧ (S.task x).dynamicPriority ≤ (S.task t).dynamicPriority

/-- `t` is selected within `b` calls: it still has to age below every priority a
task can enter with, or it has and fewer than `b` rivals are left. -/
structure Due (N : Nat) (S : TaskSystem) (t : Nat) (b : Nat) : Prop where
  waiting : t ∈ S.inQueue .ready
  bound : (-21 ≤ (S.task t).dynamicPriority ∧ (S.task t).dynamicPriority + 21 + N ≤ b) ∨
    ((S.task t).dynamicPriority ≤ -21 ∧ rivals S t < b)

variable {N b : Nat} {S S' : TaskSystem} {t : Nat}

/-- **A call** on a queue of different tasks selects one of least priority, which
leaves the queue with its static priority; the others age by one. -/
theorem readyStep_call (hnodup : (S.inQueue .ready).Nodup) (hne : S.inQueue .ready ≠ []) :
    ∃ s S', readyStep S .call = some S' ∧ Selects S s ∧ s ∈ S.inQueue .ready ∧
      (∀ x ∈ S.inQueue .ready, (S.task s).dynamicPriority ≤ (S.task x).dynamicPriority) ∧
      S'.inQueue .ready = (S.inQueue .ready).erase s ∧
      S'.task = Function.update (agedIn S (S.inQueue .ready)) s
        { S.task s with dynamicPriority := (S.task s).staticPriority } := by
  obtain ⟨s, hleast, hcall⟩ := scheduler_spec hnodup hne
  have hmem : s ∈ (⟨S.inQueue .ready, []⟩ : Queue Nat).items := by
    simpa [Queue.items] using hleast.mem
  refine ⟨s, _, by rw [readyStep, hcall], ⟨_, hcall⟩, hleast.mem, hleast.le, ?_, rfl⟩
  rw [setQueue_inQueue, if_pos rfl]
  simp only [readyWalked, Function.update_self]
  rw [(queueDel_items hmem).2]
  simp [Queue.items]

theorem readyStep_call_nil (hnil : S.inQueue .ready = []) :
    ∃ S', readyStep S .call = some S' ∧ S'.inQueue .ready = [] ∧ S'.task = S.task := by
  have hhead : (queueHead (S.queue .ready)).1 = none := by
    rw [queueHead_fst, ← inQueue, hnil]
    rfl
  refine ⟨S.setQueue .ready (queueHead (S.queue .ready)).2, ?_, ?_, rfl⟩
  · rw [readyStep, scheduler, hhead]
  · rw [setQueue_inQueue, if_pos rfl, queueHead_items]
    exact hnil

theorem readyStep_enter (hstep : readyStep S (.enter t) = some S') :
    t ∉ S.inQueue .ready ∧ S'.inQueue .ready = S.inQueue .ready ++ [t] ∧ S'.task = S.task := by
  by_cases hmem : t ∈ S.inQueue .ready
  · rw [readyStep, if_pos hmem] at hstep
    exact absurd hstep (by simp)
  · rw [readyStep, if_neg hmem] at hstep
    obtain rfl := Option.some.inj hstep
    refine ⟨hmem, ?_, rfl⟩
    rw [setQueue_inQueue, if_pos rfl, queueAdd_items]
    rfl

theorem readyStep_setprio {prio : Int} (hstep : readyStep S (.setprio t prio) = some S') :
    -20 ≤ prio ∧ prio ≤ 20 ∧ S'.inQueue .ready = S.inQueue .ready ∧
      S'.task = Function.update S.task t
        { S.task t with staticPriority := prio, dynamicPriority := prio } := by
  by_cases hrange : prio ≤ 20 ∧ -20 ≤ prio
  · rw [readyStep, schedSetprio, if_pos hrange] at hstep
    obtain rfl := Option.some.inj hstep
    exact ⟨hrange.2, hrange.1, rfl, rfl⟩
  · rw [readyStep, schedSetprio, if_neg hrange] at hstep
    exact absurd hstep (by simp [Except.toOption])

/-! ## How the events change what `t` waits for -/

/-- A task has fewer rivals than the queue has tasks. -/
theorem rivals_lt (hmem : t ∈ S.inQueue .ready) : rivals S t < (S.inQueue .ready).length := by
  unfold rivals
  apply lt_of_le_of_ne List.countP_le_length
  intro heq
  have := List.countP_eq_length.mp heq t hmem
  simp at this

/-- An event that adds no rival, and leaves `t` in the queue with its priority,
keeps the bound. -/
theorem Due.keep (h : Due N S t b) (hmem : t ∈ S'.inQueue .ready)
    (hdyn : (S'.task t).dynamicPriority = (S.task t).dynamicPriority)
    (hrivals : (S.task t).dynamicPriority ≤ -21 → rivals S' t ≤ rivals S t) :
    Due N S' t b := by
  refine ⟨hmem, ?_⟩
  rw [hdyn]
  rcases h.bound with hage | ⟨hlow, hlt⟩
  · exact Or.inl hage
  · have := hrivals hlow
    exact Or.inr ⟨hlow, by omega⟩

/-- A task that enters does not come before a task that has aged enough. -/
theorem Due.enter {x : Nat} (h : Due N S t b) (hstep : readyStep S (.enter x) = some S')
    (hx : -20 ≤ (S.task x).dynamicPriority) : Due N S' t b := by
  obtain ⟨-, hqueue, htask⟩ := readyStep_enter hstep
  apply h.keep
  · rw [hqueue]
    exact List.mem_append_left _ h.waiting
  · rw [htask]
  · intro hlow
    have hbehind : ¬ (x ≠ t ∧ (S.task x).dynamicPriority ≤ (S.task t).dynamicPriority) := by
      omega
    simp [rivals, hqueue, htask, List.countP_append, hbehind]

/-- Nor does a task that is given a priority. -/
theorem Due.setprio {x : Nat} {prio : Int} (h : Due N S t b)
    (hstep : readyStep S (.setprio x prio) = some S') (hne : x ≠ t) : Due N S' t b := by
  obtain ⟨hlo, -, hqueue, htask⟩ := readyStep_setprio hstep
  have hself : S'.task t = S.task t := by rw [htask, Function.update_of_ne hne.symm]
  apply h.keep
  · rw [hqueue]
    exact h.waiting
  · rw [hself]
  · intro hlow
    unfold rivals
    rw [hqueue, hself]
    apply List.countP_mono_left
    intro y hy hrival
    simp only [ne_eq, decide_not, Bool.decide_and, Bool.and_eq_true, Bool.not_eq_true',
      decide_eq_false_iff_not, decide_eq_true_eq] at hrival ⊢
    refine ⟨hrival.1, ?_⟩
    by_cases hyx : y = x
    · subst hyx
      rw [htask, Function.update_self] at hrival
      simp only at hrival
      omega
    · rw [htask, Function.update_of_ne hyx] at hrival
      exact hrival.2

/-- A task given a priority in the range is due within `41 + N` calls. -/
theorem due_of_le (hmem : t ∈ S.inQueue .ready) (hlo : -20 ≤ (S.task t).dynamicPriority)
    (hhi : (S.task t).dynamicPriority ≤ 20) : Due N S t (41 + N) :=
  ⟨hmem, Or.inl ⟨by omega, by omega⟩⟩

/-- **A call brings `t` closer**: it selects `t`, or `t` is due within one call
less, after ageing by one. -/
theorem Due.call (h : Due N S t b) (hnodup : (S.inQueue .ready).Nodup)
    (hfits : (S.inQueue .ready).length ≤ N) (hstep : readyStep S .call = some S') :
    Selects S t ∨ (2 ≤ b ∧ Due N S' t (b - 1) ∧
      (S'.task t).dynamicPriority = (S.task t).dynamicPriority - 1) := by
  obtain ⟨s, T, hT, hsel, hmem, hleast, hqueue, htask⟩ :=
    readyStep_call hnodup (List.ne_nil_of_mem h.waiting)
  obtain rfl : T = S' := Option.some.inj (hT.symm.trans hstep)
  by_cases hst : s = t
  · left
    rwa [← hst]
  right
  have haged : ∀ x ∈ S.inQueue .ready, x ≠ s →
      (T.task x).dynamicPriority = (S.task x).dynamicPriority - 1 := by
    intro x hx hxs
    rw [htask, Function.update_of_ne hxs, agedIn, if_pos hx]
    rfl
  have hself := haged t h.waiting (Ne.symm hst)
  have hlt := rivals_lt h.waiting
  -- the selected task is a rival, and it leaves
  have hfewer : rivals T t + 1 = rivals S t := by
    have hperm := List.perm_cons_erase hmem
    unfold rivals
    rw [hperm.countP_eq, List.countP_cons_of_pos (by simp [hst, hleast t h.waiting]), hqueue]
    congr 1
    apply List.countP_congr
    intro x hx
    have hxs : x ≠ s := by
      intro heq
      rw [heq] at hx
      exact hnodup.not_mem_erase hx
    rw [haged x (List.mem_of_mem_erase hx) hxs, hself]
    simp only [ne_eq, decide_not, Bool.decide_and, Bool.and_eq_true, Bool.not_eq_true',
      decide_eq_false_iff_not, decide_eq_true_eq]
    exact and_congr_right fun _ => by omega
  have hin : t ∈ T.inQueue .ready := by
    rw [hqueue]
    exact (List.mem_erase_of_ne (Ne.symm hst)).mpr h.waiting
  rcases h.bound with ⟨hge, hage⟩ | ⟨hlow, hrivals⟩
  · refine ⟨by omega, ⟨hin, ?_⟩, hself⟩
    by_cases heq : (S.task t).dynamicPriority = -21
    · right
      omega
    · left
      omega
  · exact ⟨by omega, ⟨hin, Or.inr ⟨by omega, by omega⟩⟩, hself⟩

/-! ## Runs -/

/-- A waiting task is due within `41 + N` calls, and has aged no more than the calls
it has used up; the other priorities are in the asserted range. -/
structure WaitInv (N : Nat) (S : TaskSystem) : Prop where
  nodup : (S.inQueue .ready).Nodup
  static : ∀ x, -20 ≤ (S.task x).staticPriority ∧ (S.task x).staticPriority ≤ 20
  outside : ∀ x, x ∉ S.inQueue .ready →
    -20 ≤ (S.task x).dynamicPriority ∧ (S.task x).dynamicPriority ≤ 20
  inside : ∀ x ∈ S.inQueue .ready, ∃ b, b ≤ 41 + N ∧ Due N S x b ∧
    -20 - (41 + N : Int) + b ≤ (S.task x).dynamicPriority

/-- Every priority is `0` once the dispatcher is set up. -/
theorem atRest_dispatcherInit : AtRest dispatcherInit := by
  have hzero : ∀ t, (dispatcherInit.task t).staticPriority = 0 ∧
      (dispatcherInit.task t).dynamicPriority = 0 := by
    intro t
    by_cases ht : t = taskKernel
    · subst ht
      simp [dispatcherInit, Tcb.zero]
    · simp [dispatcherInit, Function.update_of_ne ht, Tcb.zero]
  refine ⟨rfl, fun t => ?_, fun t => ?_⟩
  · have := (hzero t).1
    omega
  · have := (hzero t).2
    omega

theorem AtRest.waitInv (h : AtRest S) : WaitInv N S where
  nodup := by
    rw [h.empty]
    exact List.nodup_nil
  static := h.static
  outside := fun x _ => h.dynamic x
  inside := by
    intro x hx
    rw [h.empty] at hx
    exact absurd hx List.not_mem_nil

theorem Selects.unique {s : Nat} (h : Selects S t) (h' : Selects S s) : t = s := by
  obtain ⟨T, hT⟩ := h
  obtain ⟨T', hT'⟩ := h'
  have heq := hT.symm.trans hT'
  simp only [Except.ok.injEq, Prod.mk.injEq, Option.some.injEq] at heq
  exact heq.1

/-- Ageing and selecting leave every static priority alone. -/
theorem agedIn_static {xs : List Nat} (x : Nat) :
    (agedIn S xs x).staticPriority = (S.task x).staticPriority := by
  unfold agedIn
  split <;> rfl

theorem WaitInv.call (h : WaitInv N S) (hfits : (S.inQueue .ready).length ≤ N)
    (hstep : readyStep S .call = some S') : WaitInv N S' := by
  by_cases hne : S.inQueue .ready = []
  · obtain ⟨T, hT, hqueue, htask⟩ := readyStep_call_nil hne
    obtain rfl : T = S' := Option.some.inj (hT.symm.trans hstep)
    refine ⟨?_, ?_, ?_, ?_⟩
    · rw [hqueue]
      exact List.nodup_nil
    · rw [htask]
      exact h.static
    · rw [htask]
      intro x _
      exact h.outside x (by rw [hne]; exact List.not_mem_nil)
    · intro x hx
      rw [hqueue] at hx
      exact absurd hx List.not_mem_nil
  · obtain ⟨s, T, hT, hsel, hmem, -, hqueue, htask⟩ := readyStep_call h.nodup hne
    obtain rfl : T = S' := Option.some.inj (hT.symm.trans hstep)
    refine ⟨?_, ?_, ?_, ?_⟩
    · rw [hqueue]
      exact h.nodup.erase s
    · intro x
      rw [htask]
      by_cases hxs : x = s
      · subst hxs
        rw [Function.update_self]
        exact h.static x
      · rw [Function.update_of_ne hxs, agedIn_static]
        exact h.static x
    · intro x hx
      rw [htask]
      by_cases hxs : x = s
      · subst hxs
        rw [Function.update_self]
        exact h.static x
      · rw [hqueue, List.mem_erase_of_ne hxs] at hx
        rw [Function.update_of_ne hxs, agedIn, if_neg hx]
        exact h.outside x hx
    · intro x hx
      rw [hqueue] at hx
      have hin : x ∈ S.inQueue .ready := List.mem_of_mem_erase hx
      obtain ⟨b, hb, hdue, hlow⟩ := h.inside x hin
      rcases hdue.call h.nodup hfits hstep with hx' | ⟨hpos, hdue', hdyn⟩
      · obtain rfl := hx'.unique hsel
        exact absurd hx h.nodup.not_mem_erase
      · exact ⟨b - 1, by omega, hdue', by omega⟩

theorem WaitInv.enter {x : Nat} (h : WaitInv N S)
    (hstep : readyStep S (.enter x) = some S') : WaitInv N S' := by
  obtain ⟨hnew, hqueue, htask⟩ := readyStep_enter hstep
  obtain ⟨hlo, hhi⟩ := h.outside x hnew
  refine ⟨?_, ?_, ?_, ?_⟩
  · rw [hqueue]
    apply List.nodup_append.mpr
    refine ⟨h.nodup, List.nodup_singleton x, fun y hy z hz => ?_⟩
    rw [List.mem_singleton] at hz
    intro heq
    exact hnew (hz ▸ heq ▸ hy)
  · rw [htask]
    exact h.static
  · intro y hy
    rw [hqueue, List.mem_append, not_or] at hy
    rw [htask]
    exact h.outside y hy.1
  · intro y hy
    rw [htask]
    rw [hqueue] at hy
    rcases List.mem_append.mp hy with hy | hy
    · obtain ⟨b, hb, hdue, hlow⟩ := h.inside y hy
      exact ⟨b, hb, hdue.enter hstep hlo, hlow⟩
    · obtain rfl := List.mem_singleton.mp hy
      refine ⟨41 + N, le_refl _, due_of_le ?_ (by rw [htask]; exact hlo)
        (by rw [htask]; exact hhi), by omega⟩
      rw [hqueue]
      simp

theorem WaitInv.setprio {x : Nat} {prio : Int} (h : WaitInv N S)
    (hstep : readyStep S (.setprio x prio) = some S') : WaitInv N S' := by
  obtain ⟨hlo, hhi, hqueue, htask⟩ := readyStep_setprio hstep
  have hself : (S'.task x).staticPriority = prio ∧ (S'.task x).dynamicPriority = prio := by
    rw [htask, Function.update_self]
    exact ⟨rfl, rfl⟩
  have hother : ∀ y, y ≠ x → S'.task y = S.task y := by
    intro y hy
    rw [htask, Function.update_of_ne hy]
  refine ⟨?_, ?_, ?_, ?_⟩
  · rw [hqueue]
    exact h.nodup
  · intro y
    by_cases hy : y = x
    · subst hy
      omega
    · rw [hother y hy]
      exact h.static y
  · intro y hout
    rw [hqueue] at hout
    by_cases hy : y = x
    · subst hy
      omega
    · rw [hother y hy]
      exact h.outside y hout
  · intro y hin
    rw [hqueue] at hin
    by_cases hy : y = x
    · subst hy
      refine ⟨41 + N, le_refl _, due_of_le ?_ (by omega) (by omega), by omega⟩
      rw [hqueue]
      exact hin
    · obtain ⟨b, hb, hdue, hlow⟩ := h.inside y hin
      exact ⟨b, hb, hdue.setprio hstep (Ne.symm hy), by rw [hother y hy]; exact hlow⟩

theorem WaitInv.step {e : ReadyEvent} (h : WaitInv N S) (hfits : Fits N S e)
    (hstep : readyStep S e = some S') : WaitInv N S' := by
  cases e with
  | call => exact h.call (hfits rfl) hstep
  | enter x => exact h.enter hstep
  | setprio x prio => exact h.setprio hstep

/-- A task due within `b` calls that is not given a priority is selected by one of
the next `b` calls. -/
theorem Due.selected {events : List ReadyEvent} (hinv : WaitInv N S) (hdue : Due N S t b)
    (hpos : 1 ≤ b) (hfits : AllSteps readyStep (Fits N) S events)
    (hrun : run readyStep S events = some S') (hkeep : ∀ prio, .setprio t prio ∉ events)
    (hcalls : b ≤ events.count .call) :
    ∃ before after T, events = before ++ .call :: after ∧
      run readyStep S before = some T ∧ Selects T t ∧ before.count .call < b := by
  induction events generalizing S b with
  | nil =>
      simp only [List.count_nil] at hcalls
      omega
  | cons e events ih =>
      obtain ⟨M, hM, hrest⟩ := run_cons.mp hrun
      have hinv' : WaitInv N M := hinv.step hfits.1 hM
      have hkeep' : ∀ prio, .setprio t prio ∉ events := fun prio hmem =>
        hkeep prio (List.mem_cons_of_mem _ hmem)
      -- the run goes on from `M`; the first event is put back in front
      have hback : ∀ {b'}, Due N M t b' → 1 ≤ b' → b' ≤ events.count .call →
          b' + [e].count .call ≤ b →
          ∃ before after T, e :: events = before ++ .call :: after ∧
            run readyStep S before = some T ∧ Selects T t ∧ before.count .call < b := by
        intro b' hdue' hpos' hcalls' hle
        obtain ⟨before, after, T, rfl, hbefore, hsel, hlt⟩ :=
          ih hinv' hdue' hpos' (hfits.2 M hM) hrest hkeep' hcalls'
        refine ⟨e :: before, after, T, rfl, run_cons.mpr ⟨M, hM, hbefore⟩, hsel, ?_⟩
        rw [← List.singleton_append, List.count_append]
        omega
      cases e with
      | call =>
          rcases hdue.call hinv.nodup (hfits.1 rfl) hM with hsel | ⟨htwo, hdue', -⟩
          · exact ⟨[], events, S, rfl, rfl, hsel, by rw [List.count_nil]; omega⟩
          · rw [List.count_cons_self] at hcalls
            exact hback hdue' (by omega) (by omega) (by simp; omega)
      | enter x =>
          rw [List.count_cons_of_ne (by simp)] at hcalls
          have hx := hinv.outside x (readyStep_enter hM).1
          exact hback (hdue.enter hM hx.1) hpos hcalls (by simp)
      | setprio x prio =>
          rw [List.count_cons_of_ne (by simp)] at hcalls
          have hne : x ≠ t := by
            intro heq
            exact hkeep prio (heq ▸ List.mem_cons_self)
          exact hback (hdue.setprio hM hne) hpos hcalls (by simp)

/-- **Bounded waiting.**  In every run in which at most `N` tasks are in the queue at
a call, no priority falls below `-20 - (41 + N)`, and a task that enters and is given
no new priority is selected by the `(41 + N)`-th call after that at the latest. -/
theorem bounded_waiting {events : List ReadyEvent} {S₀ : TaskSystem} (hstart : AtRest S₀)
    (hfits : AllSteps readyStep (Fits N) S₀ events)
    (hrun : run readyStep S₀ events = some S) :
    (∀ x, -20 - (41 + N : Int) ≤ (S.task x).dynamicPriority) ∧
    ∀ t before after, events = before ++ .enter t :: after →
      (∀ prio, .setprio t prio ∉ after) → 41 + N ≤ after.count .call →
      ∃ waiting rest T, after = waiting ++ .call :: rest ∧
        run readyStep S₀ (before ++ .enter t :: waiting) = some T ∧ Selects T t ∧
        waiting.count .call < 41 + N := by
  have hinv : WaitInv N S := invariant_of_allSteps (WaitInv N)
    (fun _ _ _ h hok hs => h.step hok hs) hstart.waitInv hfits hrun
  constructor
  · intro x
    by_cases hx : x ∈ S.inQueue .ready
    · obtain ⟨b, -, -, hlow⟩ := hinv.inside x hx
      omega
    · have := (hinv.outside x hx).1
      omega
  · intro t before after heq hkeep hcalls
    subst heq
    obtain ⟨M, hM, hrest⟩ := run_append.mp hrun
    obtain ⟨M', hM', hrest'⟩ := run_cons.mp hrest
    obtain ⟨hfits₁, hfits₂⟩ := AllSteps.append.mp hfits
    have hinvM : WaitInv N M := invariant_of_allSteps (WaitInv N)
      (fun _ _ _ h hok hs => h.step hok hs) hstart.waitInv hfits₁ hM
    have hinvM' := hinvM.enter hM'
    obtain ⟨hnew, hqueue, htask⟩ := readyStep_enter hM'
    obtain ⟨hlo, hhi⟩ := hinvM.outside t hnew
    have hdue : Due N M' t (41 + N) := by
      apply due_of_le
      · rw [hqueue]
        simp
      · rw [htask]
        exact hlo
      · rw [htask]
        exact hhi
    obtain ⟨waiting, rest, T, rfl, hwait, hsel, hlt⟩ := hdue.selected hinvM' (by omega)
      ((hfits₂ M hM).2 M' hM') hrest' hkeep hcalls
    refine ⟨waiting, rest, T, rfl, ?_, hsel, hlt⟩
    exact run_append.mpr ⟨M, hM, run_cons.mpr ⟨M', hM', hwait⟩⟩

/-- Tasks 3 and 4 of priority `-20` enter. -/
def rivalsEnter : List ReadyEvent :=
  [.setprio 2 20, .setprio 3 (-20), .setprio 4 (-20), .enter 3, .enter 4]

/-- The rivals enter again whenever they are selected. -/
def rivalRounds : List ReadyEvent :=
  (List.replicate 20 [ReadyEvent.call, .enter 3, .call, .enter 4]).flatten ++ [.call, .enter 3]

/-- Task 2 of priority 20 enters behind them.  It still waits after 41 calls, and one of
the next three selects it. -/
theorem bounded_waiting_rivals :
    ∃ S M waiting rest T,
      run readyStep dispatcherInit
        (rivalsEnter ++ .enter 2 :: (rivalRounds ++ List.replicate 3 .call)) = some S ∧
      (run readyStep dispatcherInit (rivalsEnter ++ .enter 2 :: rivalRounds) = some M ∧
        2 ∈ M.inQueue .ready ∧ rivalRounds.count .call = 41) ∧
      rivalRounds ++ List.replicate 3 .call = waiting ++ .call :: rest ∧
      run readyStep dispatcherInit (rivalsEnter ++ .enter 2 :: waiting) = some T ∧ Selects T 2 ∧
      waiting.count .call < 44 := by
  have hfits : AllSteps readyStep (Fits 3) dispatcherInit
      (rivalsEnter ++ .enter 2 :: (rivalRounds ++ List.replicate 3 .call)) := by
    decide +kernel
  have hsome : (run readyStep dispatcherInit
      (rivalsEnter ++ .enter 2 :: (rivalRounds ++ List.replicate 3 .call))).isSome := by
    decide +kernel
  have hwaits : (run readyStep dispatcherInit (rivalsEnter ++ .enter 2 :: rivalRounds)).any
      (fun M => decide (2 ∈ M.inQueue .ready)) = true := by
    decide +kernel
  have hkeep : ∀ prio, .setprio 2 prio ∉ rivalRounds ++ List.replicate 3 .call := by
    intro prio hmem
    simp [rivalRounds] at hmem
  have hcalls : 41 + 3 ≤ (rivalRounds ++ List.replicate 3 ReadyEvent.call).count .call := by
    decide +kernel
  obtain ⟨S, hS⟩ := Option.isSome_iff_exists.mp hsome
  obtain ⟨M, hM, hin⟩ := (Option.any_eq_true ..).mp hwaits
  obtain ⟨waiting, rest, T, hsplit, hT, hsel, hlt⟩ :=
    (bounded_waiting atRest_dispatcherInit hfits hS).2 2 rivalsEnter
      (rivalRounds ++ List.replicate 3 .call) rfl hkeep hcalls
  exact ⟨S, M, waiting, rest, T, hS, ⟨hM, of_decide_eq_true hin, by decide +kernel⟩, hsplit, hT,
    hsel, hlt⟩

end PingPongOS
