import PingPongOS.Scheduler

/-!
# The dispatcher

`task.c`, `dispatcher.c` and the timer handler of `time.c`.  Each function runs
uninterrupted up to its context switch: `task_switch` only names the task that
runs next, and what follows the switch in the source is a later step of the task
that made it.
-/

namespace PingPongOS

open TaskSystem

/-- `task_create`: `granted` says that `mem_alloc` gave it the descriptor and the
stack. -/
def taskCreate (S : TaskSystem) (granted : Bool) : Option Nat × TaskSystem :=
  if granted then
    let t := S.currentTaskId + 1
    let S := { S with currentTaskId := t }.modify t fun _ =>
      { Tcb.zero with id := t, parent := some S.currentActiveTask, creationTime := S.clock }
    (some t, S.setQueue .ready (queueAdd (S.queue .ready) t))
  else (none, S)

/-- `task_switch`; without an argument, to the parent of the running task. -/
def taskSwitch (S : TaskSystem) (task : Option Nat) : Int × TaskSystem :=
  match task with
  | none =>
      if (S.task S.currentActiveTask).id = 0 then (error, S)
      else
        match (S.task S.currentActiveTask).parent with
        | some parent => (noError, { S with currentActiveTask := parent })
        -- only the kernel has no parent
        | none => (noError, S)
  | some task =>
      if (S.task task).status = .finished then (noError, S)
      else (noError, { S with currentActiveTask := task })

/-- `task_run`. -/
def taskRun (S : TaskSystem) (task : Nat) : TaskSystem :=
  let r := queueDel (S.queue .ready) task
  if r.1 = error then S
  else
    let S := (S.setQueue .ready r.2).modify task fun b =>
      { b with
        remainingQuantumTime := quantum
        numberOfActivations := b.numberOfActivations + 1
        status := .running }
    (taskSwitch S (some task)).2

/-- `task_kernel.number_of_activations++; task_switch(&task_kernel)`. -/
def toKernel (S : TaskSystem) : TaskSystem :=
  (taskSwitch (S.modify taskKernel fun b =>
    { b with numberOfActivations := b.numberOfActivations + 1 }) (some taskKernel)).2

/-! Going back to the kernel counts an activation of the kernel and changes no queue and
no other task. -/

theorem toKernel_queue (S : TaskSystem) : (toKernel S).queue = S.queue := by
  simp only [toKernel, taskSwitch]
  split <;> rfl

theorem toKernel_task {S : TaskSystem} {x : Nat} (hx : x ≠ taskKernel) :
    (toKernel S).task x = S.task x := by
  simp only [toKernel, taskSwitch]
  split <;> simp [Function.update_of_ne hx]

theorem toKernel_task_kernel (S : TaskSystem) : (toKernel S).task 0 =
    { S.task 0 with numberOfActivations := (S.task 0).numberOfActivations + 1 } := by
  simp only [toKernel, taskSwitch]
  split <;> simp [taskKernel]

/-- `task_yield`. -/
def taskYield (S : TaskSystem) : TaskSystem :=
  let c := S.currentActiveTask
  let S := S.modify c fun b =>
    { b with
      executionTime := addInt b.executionTime quantum
      remainingQuantumTime := quantum
      status := .ready }
  if c = taskKernel then (taskSwitch S (some taskKernel)).2
  else toKernel (S.setQueue .ready (queueAdd (S.queue .ready) c))

/-- `task_suspend`. -/
def taskSuspend (S : TaskSystem) (queue : QueueId) : TaskSystem :=
  let c := S.currentActiveTask
  let S := S.modify c fun b => { b with status := .suspended }
  toKernel (S.setQueue queue (queueAdd (S.queue queue) c))

/-- `task_awake`, whose `queue_del` is asserted to succeed. -/
def taskAwake (S : TaskSystem) (task : Option Nat) : Except Fault TaskSystem :=
  match task with
  | none => .ok S
  | some t =>
      if (S.task t).status = .suspended then
        let i := if (S.task t).sleeping then QueueId.sleeping else QueueId.suspended
        let r := queueDel (S.queue i) t
        if r.1 = noError then
          let S := (S.setQueue i r.2).modify t fun b =>
            { b with sleeping := false, status := .ready }
          .ok (S.setQueue .ready (queueAdd (S.queue .ready) t))
        else .error .queueDelFailed
      else .ok S

/-- The loops of `task_exit` and of the dispatcher: walk the queue `i`, and `mark`
and wake the tasks that are `due`. -/
def wakeLoop (i : QueueId) (due : TaskSystem → Nat → Bool) (mark : Tcb → Tcb)
    (S : TaskSystem) : Except Fault TaskSystem :=
  whileItem .endlessLoop (fun S => S.nextIn i)
    (fun S t => if due S t then taskAwake (S.modify t mark) (some t) else .ok S)
    (queueSize (S.queue i)) (queueHead (S.queue i)).1
    (S.setQueue i (queueHead (S.queue i)).2)

/-- `task_wait`, up to its suspension: the exit code of a task that has finished is
returned at once. -/
def taskWait (S : TaskSystem) (task : Nat) : Option Int × TaskSystem :=
  if (S.task task).status = .finished then (some (S.task task).exitCode, S)
  else
    (none, taskSuspend (S.modify S.currentActiveTask fun b =>
      { b with targetToWait := (S.task task).id }) .suspended)

/-- `task_sleep`. -/
def taskSleep (S : TaskSystem) (t : Int) : TaskSystem :=
  taskSuspend (S.modify S.currentActiveTask fun b =>
    { b with sleeping := true, wakeUpTime := addInt S.clock t }) .sleeping

/-- `task_exit`. -/
def taskExit (S : TaskSystem) (exitCode : Int) : Except Fault TaskSystem :=
  let c := S.currentActiveTask
  let S := S.modify c fun b =>
    { b with
      executionTime := addInt b.executionTime (quantum - b.remainingQuantumTime)
      status := .finished
      exitCode := exitCode }
  if c = taskKernel then .ok S
  else do
    let S ← wakeLoop .suspended
      (fun S t => (S.task t).targetToWait = (S.task S.currentActiveTask).id)
      (fun b => { b with targetExitCode := exitCode }) S
    .ok (toKernel (S.setQueue .finished (queueAdd (S.queue .finished) c)))

/-- The loop condition of the dispatcher. -/
def dispatcherGoesOn (S : TaskSystem) (requests : Nat) : Bool :=
  1 < queueSize (S.queue .ready) || 0 < queueSize (S.queue .sleeping) || 0 < requests

/-- The first half of the dispatcher's loop: select a task and run it. -/
def dispatcherRun (S : TaskSystem) : Except Fault (Option Nat × TaskSystem) := do
  let r ← scheduler S
  match r.1 with
  | some next => .ok (some next, taskRun r.2 next)
  | none => .ok (none, r.2)

/-- A selection that has succeeded. -/
theorem dispatcherRun_ok {S : TaskSystem} {r : Option Nat × TaskSystem}
    (hs : dispatcherRun S = .ok r) :
    ∃ o S₁, scheduler S = .ok (o, S₁) ∧ r = (o, o.elim S₁ (taskRun S₁)) := by
  obtain ⟨⟨o, S₁⟩, hsched, hs⟩ := bind_eq_ok.mp hs
  cases o with
  | some next => exact ⟨some next, S₁, hsched, (Except.ok.inj hs).symm⟩
  | none => exact ⟨none, S₁, hsched, (Except.ok.inj hs).symm⟩

/-- The second half, when the selected task has come back: it must not be running,
and the sleepers that are due are woken. -/
def dispatcherWake (S : TaskSystem) (next : Option Nat) : Except Fault TaskSystem :=
  if next.any fun t => (S.task t).status = .running then .error .taskStillRunning
  else wakeLoop .sleeping (fun S t => decide ((S.task t).wakeUpTime ≤ S.clock)) id S

/-- `handle_timer_signal`. -/
def handleTimerSignal (S : TaskSystem) : TaskSystem :=
  let S := { S with clock := addInt S.clock 1 }
  let S := S.modify S.currentActiveTask fun b =>
    { b with remainingQuantumTime := b.remainingQuantumTime - 1 }
  if (S.task S.currentActiveTask).remainingQuantumTime = 0 then taskYield S else S

end PingPongOS
