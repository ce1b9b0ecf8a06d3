import PingPongOS.Kernel
import PingPongOS.TaskSeats

/-!
# `task_suspend` statement by statement

A timer tick may come between two statements of `task_suspend` and make the task
yield.  Whatever the others do before it runs again, it then ends `task_suspend` with
the status it was dispatched with.
-/

namespace PingPongOS

open Runs TaskSystem

/-- The next statement of `task_suspend`. -/
inductive SuspendPoint
  | status
  | add
  | count
  | switch
  deriving DecidableEq

/-- A statement of `task_suspend(queue)`, executed by the running task. -/
def suspendStatement (queue : QueueId) (S : TaskSystem) : SuspendPoint → TaskSystem
  | .status => S.modify S.currentActiveTask fun b => { b with status := .suspended }
  | .add => S.setQueue queue (queueAdd (S.queue queue) S.currentActiveTask)
  | .count =>
      S.modify taskKernel fun b => { b with numberOfActivations := b.numberOfActivations + 1 }
  | .switch => (taskSwitch S (some taskKernel)).2

/-- Several statements, one after the other. -/
def suspendRun (queue : QueueId) (S : TaskSystem) (ps : List SuspendPoint) : TaskSystem :=
  ps.foldl (suspendStatement queue) S

namespace SuspendPoint

/-- The statements before this one. -/
def before : SuspendPoint → List SuspendPoint
  | .status => []
  | .add => [.status]
  | .count => [.status, .add]
  | .switch => [.status, .add, .count]

/-- The statements from this one on. -/
def rest : SuspendPoint → List SuspendPoint
  | .status => [.status, .add, .count, .switch]
  | .add => [.add, .count, .switch]
  | .count => [.count, .switch]
  | .switch => [.switch]

end SuspendPoint

variable {S : TaskSystem} {queue : QueueId} {p : SuspendPoint} {t x : Nat}

/-- Only the last statement leaves the CPU. -/
theorem suspendStatement_current (hp : p ≠ .switch) :
    (suspendStatement queue S p).currentActiveTask = S.currentActiveTask := by
  cases p with
  | switch => exact absurd rfl hp
  | status | add | count => rfl

/-- Only the first statement changes a status. -/
theorem suspendStatement_status (hp : p ≠ .status) :
    ((suspendStatement queue S p).task x).status = (S.task x).status := by
  cases p with
  | status => exact absurd rfl hp
  | add => rfl
  | count =>
      by_cases hx : x = taskKernel
      · subst hx
        simp [suspendStatement]
      · simp [suspendStatement, Function.update_of_ne hx]
  | switch =>
      simp only [suspendStatement, taskSwitch]
      split <;> rfl

/-- No statement changes a quantum. -/
theorem suspendStatement_quantum :
    ((suspendStatement queue S p).task x).remainingQuantumTime =
      (S.task x).remainingQuantumTime := by
  cases p with
  | status =>
      by_cases hx : x = S.currentActiveTask
      · subst hx
        simp [suspendStatement]
      · simp [suspendStatement, Function.update_of_ne hx]
  | add => rfl
  | count =>
      by_cases hx : x = taskKernel
      · subst hx
        simp [suspendStatement]
      · simp [suspendStatement, Function.update_of_ne hx]
  | switch =>
      simp only [suspendStatement, taskSwitch]
      split <;> rfl

theorem suspendRun_status {ps : List SuspendPoint} (hps : .status ∉ ps) :
    ((suspendRun queue S ps).task x).status = (S.task x).status := by
  induction ps generalizing S with
  | nil => rfl
  | cons p ps ih =>
      rw [List.mem_cons, not_or] at hps
      exact (ih hps.2).trans (suspendStatement_status (Ne.symm hps.1))

/-- The statements before the switch leave the CPU and the quanta alone. -/
theorem suspendRun_before {ps : List SuspendPoint} (hps : .switch ∉ ps) :
    (suspendRun queue S ps).currentActiveTask = S.currentActiveTask ∧
      ∀ x, ((suspendRun queue S ps).task x).remainingQuantumTime =
        (S.task x).remainingQuantumTime := by
  induction ps generalizing S with
  | nil => exact ⟨rfl, fun _ => rfl⟩
  | cons p ps ih =>
      rw [List.mem_cons, not_or] at hps
      obtain ⟨hcur, hquantum⟩ := ih (S := suspendStatement queue S p) hps.2
      exact ⟨hcur.trans (suspendStatement_current (Ne.symm hps.1)),
        fun x => (hquantum x).trans suspendStatement_quantum⟩

/-! ## The tick -/

/-- A task that yields is ready and in `ready_queue`. -/
theorem taskYield_ready (hc : S.currentActiveTask ≠ taskKernel) :
    ((taskYield S).task S.currentActiveTask).status = .ready ∧
      0 < (taskYield S).occurs .ready S.currentActiveTask := by
  simp only [taskYield, if_neg hc]
  refine ⟨?_, ?_⟩
  · rw [toKernel_task hc]
    simp
  · unfold TaskSystem.occurs inQueue
    rw [toKernel_queue, setQueue_queue, Function.update_self, queueAdd_items]
    simp

/-- A tick that exhausts the quantum makes the running task yield. -/
theorem handleTimerSignal_exhausted
    (hq : (S.task S.currentActiveTask).remainingQuantumTime = 1) :
    ∃ S₁, S₁.currentActiveTask = S.currentActiveTask ∧ handleTimerSignal S = taskYield S₁ := by
  refine ⟨TaskSystem.modify { S with clock := addInt S.clock 1 } S.currentActiveTask fun b =>
    { b with remainingQuantumTime := b.remainingQuantumTime - 1 }, rfl, ?_⟩
  unfold handleTimerSignal
  apply if_pos
  simp [hq]

/-! ## Preempted in `task_suspend` -/

/-- Task `t` has left the CPU as `task_suspend` means it to: it is in one queue, it is
suspended, and the dispatcher goes on. -/
structure Blocked (S : TaskSystem) (t : Nat) : Prop where
  oneQueue : ∃ i, ∀ j, S.occurs j t = if j = i then 1 else 0
  status : (S.task t).status = .suspended
  dispatcher : dispatcherWake S (some t) ≠ .error .taskStillRunning

/-- **Preempted between two statements of `task_suspend`** by a tick that exhausts its
quantum, a task is ready and in `ready_queue`; from whatever state it is dispatched
again, it ends `task_suspend` running, and the dispatcher stops at its assertion. -/
theorem preempted_suspend_running (S : TaskSystem) (queue : QueueId) (p : SuspendPoint)
    (hp : p ≠ .status) (hc : S.currentActiveTask ≠ taskKernel)
    (hquantum : (S.task S.currentActiveTask).remainingQuantumTime = 1) :
    (((handleTimerSignal (suspendRun queue S p.before)).task S.currentActiveTask).status =
        .ready ∧
      0 < (handleTimerSignal (suspendRun queue S p.before)).occurs .ready S.currentActiveTask) ∧
    ∀ S₂ : TaskSystem, 0 < S₂.occurs .ready S.currentActiveTask →
      ((suspendRun queue (taskRun S₂ S.currentActiveTask) p.rest).task
          S.currentActiveTask).status = .running ∧
        dispatcherWake (suspendRun queue (taskRun S₂ S.currentActiveTask) p.rest)
          (some S.currentActiveTask) = .error .taskStillRunning ∧
        ¬ Blocked (suspendRun queue (taskRun S₂ S.currentActiveTask) p.rest)
          S.currentActiveTask := by
  have hbefore : .switch ∉ p.before := by
    cases p <;> simp [SuspendPoint.before]
  obtain ⟨hcur, hrem⟩ := @suspendRun_before S queue p.before hbefore
  refine ⟨?_, fun S₂ hready => ?_⟩
  · rw [← hcur] at hc hquantum ⊢
    rw [← hrem] at hquantum
    obtain ⟨S₁, hcur₁, htick⟩ := handleTimerSignal_exhausted hquantum
    rw [htick, ← hcur₁]
    exact taskYield_ready (hcur₁ ▸ hc)
  · have hrun := dispatches_taskRun hready
    have hstatus : ((suspendRun queue (taskRun S₂ S.currentActiveTask) p.rest).task
        S.currentActiveTask).status = .running := by
      rw [suspendRun_status, hrun.task]
      cases p with
      | status => exact absurd rfl hp
      | add | count | switch => simp [SuspendPoint.rest]
    have hfault : dispatcherWake (suspendRun queue (taskRun S₂ S.currentActiveTask) p.rest)
        (some S.currentActiveTask) = .error .taskStillRunning := by
      rw [dispatcherWake, if_pos]
      simpa using hstatus
    exact ⟨hstatus, hfault, fun hblocked => hblocked.dispatcher hfault⟩

/-- A user task in its last tick is preempted after `status = SUSPENDED`. -/
theorem preempted_suspend_running_user : ∃ k,
    run Kernel.step (Kernel.boot 4 (fun _ _ => 0) fun _ => 0)
      ([Action.dispatcher, .dispatcher, .manager, .manager, .dispatcher, .dispatcher] ++
        List.replicate 9 Action.tick) = some k ∧
    (((handleTimerSignal (suspendRun .suspended k.sys (SuspendPoint.before .add))).task
        k.sys.currentActiveTask).status = .ready ∧
      0 < (handleTimerSignal (suspendRun .suspended k.sys (SuspendPoint.before .add))).occurs
        .ready k.sys.currentActiveTask) ∧
    ∀ S₂ : TaskSystem, 0 < S₂.occurs .ready k.sys.currentActiveTask →
      ((suspendRun .suspended (taskRun S₂ k.sys.currentActiveTask)
          (SuspendPoint.rest .add)).task k.sys.currentActiveTask).status = .running ∧
        dispatcherWake (suspendRun .suspended (taskRun S₂ k.sys.currentActiveTask)
          (SuspendPoint.rest .add)) (some k.sys.currentActiveTask) = .error .taskStillRunning ∧
        ¬ Blocked (suspendRun .suspended (taskRun S₂ k.sys.currentActiveTask)
          (SuspendPoint.rest .add)) k.sys.currentActiveTask := by
  have hrun : (run Kernel.step (Kernel.boot 4 (fun _ _ => 0) fun _ => 0)
      ([Action.dispatcher, .dispatcher, .manager, .manager, .dispatcher, .dispatcher] ++
        List.replicate 9 Action.tick)).any (fun k => decide (k.sys.currentActiveTask ≠ taskKernel ∧
          (k.sys.task k.sys.currentActiveTask).remainingQuantumTime = 1)) = true := by
    decide +kernel
  rw [Option.any_eq_true] at hrun
  obtain ⟨k, hk, hlast⟩ := hrun
  obtain ⟨hc, hquantum⟩ := of_decide_eq_true hlast
  exact ⟨k, hk, preempted_suspend_running k.sys .suspended .add (by simp) hc hquantum⟩

/-- **A suspension that stops the system.**  Task 2 is preempted after `status =
SUSPENDED`; the disk manager runs, and the dispatcher runs task 2 again, which ends
`task_suspend` running. -/
theorem suspend_not_atomic : ∃ k k₂,
    run Kernel.step (Kernel.boot 4 (fun _ _ => 0) fun _ => 0)
      ([Action.dispatcher, .dispatcher, .manager, .manager, .dispatcher, .dispatcher] ++
        List.replicate 9 Action.tick) = some k ∧
    k.current = 2 ∧
    run Kernel.step { k with
        sys := handleTimerSignal (suspendRun .suspended k.sys (SuspendPoint.before .add)) }
      [Action.dispatcher, .dispatcher, .manager, .dispatcher, .dispatcher] = some k₂ ∧
    k₂.current = 2 ∧
    dispatcherWake (suspendRun .suspended k₂.sys (SuspendPoint.rest .add)) (some 2) =
      .error .taskStillRunning ∧
    ¬ Blocked (suspendRun .suspended k₂.sys (SuspendPoint.rest .add)) 2 := by
  have hrun : (run Kernel.step (Kernel.boot 4 (fun _ _ => 0) fun _ => 0)
      ([Action.dispatcher, .dispatcher, .manager, .manager, .dispatcher, .dispatcher] ++
        List.replicate 9 Action.tick)).any (fun k => decide (k.current = 2) &&
          (run Kernel.step { k with
              sys := handleTimerSignal (suspendRun .suspended k.sys (SuspendPoint.before .add)) }
            [Action.dispatcher, .dispatcher, .manager, .dispatcher, .dispatcher]).any fun k₂ =>
              decide (k₂.current = 2 ∧ ((suspendRun .suspended k₂.sys
                (SuspendPoint.rest .add)).task 2).status = .running)) = true := by
    decide +kernel
  rw [Option.any_eq_true] at hrun
  obtain ⟨k, hk, hrest⟩ := hrun
  rw [Bool.and_eq_true, Option.any_eq_true] at hrest
  obtain ⟨hcur, k₂, hk₂, hlast⟩ := hrest
  obtain ⟨hcur₂, hstatus⟩ := of_decide_eq_true hlast
  refine ⟨k, k₂, hk, of_decide_eq_true hcur, hk₂, hcur₂, ?_, fun hblocked => ?_⟩
  · rw [dispatcherWake, if_pos]
    simpa using hstatus
  · exact absurd (hblocked.status.symm.trans hstatus) (by decide)

end PingPongOS
