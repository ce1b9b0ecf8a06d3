import PingPongOS.DirectSwitch

/-!
# Activation counts

`task_run` counts an activation of the task that gets the CPU.  The kernel's own counter
is incremented by each function in which a task gives the CPU back, and is left alone by
`task_yield` where it is the kernel that the timer preempts.  The kernel starts with an
activation, so that it is ahead of all the tasks together by one exactly while it has the
CPU.
-/

namespace PingPongOS

open Runs TaskSystem

/-- The activations of all the tasks that were created. -/
def tasksActivations (S : TaskSystem) : Int :=
  ∑ t ∈ Finset.Icc 1 S.currentTaskId, (S.task t).numberOfActivations

/-- The kernel's counter is that of all the tasks, and one more while the kernel has the
CPU. -/
def CountsBalanced (S : TaskSystem) : Prop :=
  (S.task taskKernel).numberOfActivations =
    tasksActivations S + if S.currentActiveTask = taskKernel then 1 else 0

/-- `count t` activations more of each task `t`, and no task more. -/
structure Counts (S S' : TaskSystem) (count : Nat → Int) : Prop where
  currentTaskId : S'.currentTaskId = S.currentTaskId
  activations : ∀ t,
    (S'.task t).numberOfActivations = (S.task t).numberOfActivations + count t

variable {S S' T : TaskSystem} {count : Nat → Int} {t : Nat} {i : QueueId} {k k' : Kernel}
  {a : Action}

theorem Counts.tasks (h : Counts S S' count) : tasksActivations S' =
    tasksActivations S + ∑ t ∈ Finset.Icc 1 S.currentTaskId, count t := by
  unfold tasksActivations
  rw [h.currentTaskId, ← Finset.sum_add_distrib]
  exact Finset.sum_congr rfl fun t _ => h.activations t

/-! ## Who counts -/

/-- Nobody is activated, and the CPU stays where it is. -/
theorem CountsBalanced.kept (h : CountsBalanced S) (hc : Counts S S' fun _ => 0)
    (hcur : S'.currentActiveTask = S.currentActiveTask) : CountsBalanced S' := by
  unfold CountsBalanced at *
  rw [hcur, hc.activations, hc.tasks, h]
  simp

/-- The running task gives the CPU back, and counts the kernel. -/
theorem CountsBalanced.returns (h : CountsBalanced S)
    (hc : Counts S S' fun t => if t = taskKernel then 1 else 0)
    (hfrom : S.currentActiveTask ≠ taskKernel) (hto : S'.currentActiveTask = taskKernel) :
    CountsBalanced S' := by
  have hsum : ∑ t ∈ Finset.Icc 1 S.currentTaskId, (if t = taskKernel then (1 : Int) else 0) =
      0 := by
    rw [Finset.sum_ite_eq', if_neg (by simp [taskKernel])]
  unfold CountsBalanced at *
  rw [hto, if_pos rfl, hc.activations, if_pos rfl, hc.tasks, hsum, h, if_neg hfrom]

/-- The kernel gives the CPU to a task, and counts it. -/
theorem CountsBalanced.runs (h : CountsBalanced S)
    (hc : Counts S S' fun y => if y = t then 1 else 0)
    (ht : 1 ≤ t ∧ t ≤ S.currentTaskId) (hfrom : S.currentActiveTask = taskKernel)
    (hto : S'.currentActiveTask = t) : CountsBalanced S' := by
  have hsum : ∑ y ∈ Finset.Icc 1 S.currentTaskId, (if y = t then (1 : Int) else 0) = 1 := by
    rw [Finset.sum_ite_eq', if_pos (Finset.mem_Icc.mpr ht)]
  have ht0 : t ≠ taskKernel := Nat.one_le_iff_ne_zero.mp ht.1
  unfold CountsBalanced at *
  rw [hto, if_neg ht0, hc.activations, if_neg (Ne.symm ht0), hc.tasks, hsum, h, if_pos hfrom]

/-- A new task has not been activated. -/
theorem CountsBalanced.creates (h : CountsBalanced S) (hc : Creates S S') : CountsBalanced S' := by
  have htasks : tasksActivations S' = tasksActivations S := by
    unfold tasksActivations
    rw [hc.currentTaskId, Finset.sum_Icc_succ_top (by omega), hc.task]
    rw [show (Tcb.zero.numberOfActivations : Int) = 0 from rfl, Int.add_zero]
    refine Finset.sum_congr rfl fun t ht => ?_
    rw [hc.others t (by have := (Finset.mem_Icc.mp ht).2; omega)]
  unfold CountsBalanced at *
  rw [hc.current, htasks, hc.others taskKernel (Nat.succ_ne_zero _).symm]
  exact h

/-! ## What each change counts -/

theorem AllPassive.counts (h : AllPassive S S') : Counts S S' fun _ => 0 := by
  refine ⟨h.currentTaskId, fun t => ?_⟩
  rw [(h.task t).fields, Int.add_zero]

theorem Leaves.counts {b : Tcb} (h : Leaves S S' b i)
    (hb : b.numberOfActivations = (S.task S.currentActiveTask).numberOfActivations) :
    Counts S S' fun t => if t = taskKernel then 1 else 0 := by
  refine ⟨h.currentTaskId, fun t => ?_⟩
  by_cases ht0 : t = taskKernel
  · rw [if_pos ht0, ht0, taskKernel, h.kernel]
  · rw [if_neg ht0, Int.add_zero]
    by_cases ht : t = S.currentActiveTask
    · rw [ht, h.task, hb]
    · rw [h.others t ht ht0]

theorem Dispatches.counts (h : Dispatches S S' t) :
    Counts S S' fun y => if y = t then 1 else 0 := by
  refine ⟨h.currentTaskId, fun y => ?_⟩
  by_cases hy : y = t
  · rw [if_pos hy, hy, h.task]
  · rw [if_neg hy, h.others y hy, Int.add_zero]

/-- A tick that is only counted. -/
theorem ticked_counts (S : TaskSystem) : Counts S S.ticked fun _ => 0 := by
  refine ⟨rfl, fun t => ?_⟩
  rw [Int.add_zero]
  by_cases ht : t = S.currentActiveTask
  · rw [ht]
    simp [ticked]
  · simp [ticked, Function.update_of_ne ht]

/-- The kernel yields to itself, and counts nothing. -/
theorem taskYield_kernel_counts (hc : S.currentActiveTask = 0) :
    Counts S (taskYield S) fun _ => 0 := by
  rw [taskYield_kernel hc]
  refine ⟨rfl, fun t => ?_⟩
  rw [Int.add_zero]
  by_cases ht : t = 0
  · rw [ht]
    simp
  · simp [Function.update_of_ne ht]

/-- The loop of `task_exit` activates nobody. -/
theorem exitLoop_counts {isDue : TaskSystem → Nat → Bool} {code : Int}
    (hs : wakeLoop .suspended isDue (fun b => { b with targetExitCode := code }) S = .ok S') :
    Counts S S' fun _ => 0 := by
  apply wakeLoop_keeps (S := S) (Counts S · fun _ => 0) _ _ _ ⟨rfl, fun _ => by simp⟩ hs
  · intro T x hT
    refine ⟨hT.currentTaskId, fun t => ?_⟩
    rw [← hT.activations t]
    by_cases ht : t = x
    · rw [ht]
      simp
    · simp [Function.update_of_ne ht]
  · intro T T' x hT hawake
    have hnone := (taskAwake_passive hawake).counts
    refine ⟨hnone.currentTaskId.trans hT.currentTaskId, fun t => ?_⟩
    rw [hnone.activations, hT.activations, Int.add_zero]
  · intro T q hT _
    exact ⟨hT.currentTaskId, hT.activations⟩

/-- **`task_exit`** counts the kernel. -/
theorem taskExit_counts {code : Int} (he : taskExit S code = .ok S')
    (hc : S.currentActiveTask ≠ 0) :
    Counts S S' fun t => if t = taskKernel then 1 else 0 := by
  obtain ⟨c, hcur⟩ : ∃ c, S.currentActiveTask = c := ⟨_, rfl⟩
  obtain ⟨T, hT, hS'⟩ := taskExit_ok he hc
  rw [hcur] at hT hS'
  have hloop := exitLoop_counts hT
  have hmark : ∀ t, ((S.modify c (Tcb.exited code)).task t).numberOfActivations =
      (S.task t).numberOfActivations := by
    intro t
    by_cases ht : t = c
    · rw [ht]
      simp [Tcb.exited]
    · simp [Function.update_of_ne ht]
  refine ⟨?_, fun t => ?_⟩
  · rw [hS', toKernel_currentTaskId]
    exact hloop.currentTaskId
  · have ht := hloop.activations t
    rw [hmark, Int.add_zero] at ht
    rw [← ht, hS']
    by_cases ht0 : t = taskKernel
    · rw [if_pos ht0, ht0]
      exact congrArg Tcb.numberOfActivations (toKernel_task_kernel _)
    · rw [if_neg ht0, Int.add_zero, toKernel_task ht0]
      rfl

/-! ## Every run -/

theorem CountsBalanced.tick (h : CountsBalanced S) (hk : (S.task 0).status = .ready) :
    CountsBalanced (handleTimerSignal S) := by
  have hticked : CountsBalanced S.ticked := h.kept (ticked_counts S) rfl
  rw [tick_eq]
  split
  · by_cases hc : S.ticked.currentActiveTask = 0
    · refine hticked.kept (taskYield_kernel_counts hc) ?_
      rw [taskYield_kernel hc]
      rfl
    · have hleaves := leaves_taskYield (S := S.ticked) ((ticked_kept S 0).1.trans hk) hc
      exact hticked.returns (hleaves.counts rfl) hc hleaves.current
  · exact hticked

/-- **Every step** keeps the balance. -/
theorem KernelInv.balanced_step (hinv : KernelInv k) (h : CountsBalanced k.sys)
    (hs : k.step a = some k') : CountsBalanced k'.sys := by
  have hchange := hinv.change hs
  generalize k'.sys = S at hchange
  cases hchange with
  | creates _ hc => exact h.creates hc
  | passive _ hp _ => exact h.kept hp.counts hp.current
  | yields _ hc hl => exact h.returns (hl.counts rfl) hc hl.current
  | suspends _ hc _ hl hb =>
      unfold SuspendedFrom at hb
      exact h.returns (hl.counts (by rw [hb]; rfl)) hc hl.current
  | @dispatches S₁ _ t hc hp hq ht hd =>
      obtain ⟨ht0, htn, -⟩ := hinv.sys.ready_status ht
      rw [← hp.currentTaskId] at htn
      have hmid := h.kept hp.counts hp.current
      exact hmid.runs hd.counts ⟨by omega, htn⟩ (hp.current.trans hc) hd.current
  | ticks => exact h.tick hinv.sys.kernelReady
  | exits hc _ he =>
      have hc0 : k.sys.currentActiveTask ≠ 0 := show k.current ≠ 0 by omega
      exact h.returns (taskExit_counts he hc0) hc0
        (taskExit_departs he hc0 hinv.sys.kernelReady).current

/-- **The activation counts balance.**  In every state of every run, the kernel has been
activated once more than all the tasks together while the dispatcher has the CPU, and one
time less than that while a task has it. -/
theorem activations_balance (numblocks : Int) (image : Int → Block) (memory : Nat → UInt8)
    (as : List Action) (k : Kernel)
    (hrun : run Kernel.step (Kernel.boot numblocks image memory) as = some k) :
    (k.current = taskKernel → (k.sys.task taskKernel).numberOfActivations =
      1 + ∑ t ∈ Finset.Icc 1 k.sys.currentTaskId, (k.sys.task t).numberOfActivations) ∧
    (k.current ≠ taskKernel → (k.sys.task taskKernel).numberOfActivations + 1 =
      1 + ∑ t ∈ Finset.Icc 1 k.sys.currentTaskId, (k.sys.task t).numberOfActivations) := by
  have hstart : CountsBalanced (Kernel.boot numblocks image memory).sys := by
    change (1 : Int) = ∑ t ∈ Finset.Icc 1 1, _ + 1
    rw [Finset.Icc_self, Finset.sum_singleton]
    rfl
  have h : KernelInv k ∧ CountsBalanced k.sys := invariant
    (fun k => KernelInv k ∧ CountsBalanced k.sys)
    (fun _ _ _ h hs => ⟨(h.1.step hs).1, h.1.balanced_step h.2 hs⟩)
    ⟨kernelInv_boot .., hstart⟩ hrun
  have hbalance := h.2
  unfold CountsBalanced tasksActivations at hbalance
  refine ⟨fun hc => ?_, fun hc => ?_⟩
  · rw [if_pos (show k.sys.currentActiveTask = taskKernel from hc)] at hbalance
    omega
  · rw [if_neg (show ¬ k.sys.currentActiveTask = taskKernel from hc)] at hbalance
    omega

/-- Task 2 has the CPU, after the disk manager has had it: the kernel has been activated
twice, and so have the two tasks together. -/
theorem activations_balance_two : ∃ k,
    run Kernel.step (Kernel.boot 4 (fun _ _ => 0) fun _ => 0)
      [.dispatcher, .dispatcher, .manager, .manager, .dispatcher, .tick, .dispatcher] = some k ∧
    k.current = 2 ∧ (k.sys.task taskKernel).numberOfActivations = 2 ∧
    ∑ t ∈ Finset.Icc 1 k.sys.currentTaskId, (k.sys.task t).numberOfActivations = 2 := by
  have hrun : (run Kernel.step (Kernel.boot 4 (fun _ _ => 0) fun _ => 0)
      [.dispatcher, .dispatcher, .manager, .manager, .dispatcher, .tick, .dispatcher]).any
        (fun k => decide (k.current = 2 ∧ (k.sys.task taskKernel).numberOfActivations = 2)) =
      true := by
    decide +kernel
  rw [Option.any_eq_true] at hrun
  obtain ⟨k, hk, hlast⟩ := hrun
  obtain ⟨hcur, hcount⟩ := of_decide_eq_true hlast
  have hbalance := (activations_balance 4 (fun _ _ => 0) (fun _ => 0) _ k hk).2
    (by rw [hcur]; decide)
  exact ⟨k, hk, hcur, hcount, by omega⟩

end PingPongOS
