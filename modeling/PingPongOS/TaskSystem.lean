import PingPongOS.TaskQueue

/-!
# The state of the task subsystem

The globals of `task.c`, `dispatcher.c` and `time.c`.  A task is named by the
place of its `task_create` in the order of creation, and `task_kernel` is `0`;
the four queues of `dispatcher.c` hold these names.  A task's context, its name
and its stack are left out: what a task is about to do is kept by the models that
run tasks.

The clock, the deadlines read from it and the execution times wrap like the `int`s they
are.  The other counters do not overflow here.
-/

namespace PingPongOS

/-- `task_kernel`, as a `struct task_t*`. -/
def taskKernel : Nat := 0

/-- `QUANTUM`, in ticks. -/
def quantum : Int := 10

/-- The status of a task. -/
inductive Status
  | ready
  | running
  | suspended
  | finished
  deriving DecidableEq

/-- `struct task_t`. -/
structure Tcb where
  id : Nat
  status : Status
  parent : Option Nat
  staticPriority : Int
  dynamicPriority : Int
  creationTime : Int
  executionTime : Int
  remainingQuantumTime : Int
  numberOfActivations : Int
  targetToWait : Nat
  targetExitCode : Int
  exitCode : Int
  sleeping : Bool
  wakeUpTime : Int
  deriving DecidableEq

/-- The queues of `dispatcher.c`. -/
inductive QueueId
  | ready
  | suspended
  | sleeping
  | finished
  deriving DecidableEq

/-- What the kernel's code aborts on, and a loop that would not end. -/
inductive Fault
  | queueDelFailed
  | taskStillRunning
  | priorityOutOfRange
  | endlessLoop
  deriving DecidableEq

/-- The globals of the task subsystem. -/
structure TaskSystem where
  task : Nat → Tcb
  currentTaskId : Nat
  queue : QueueId → Queue Nat
  currentActiveTask : Nat
  clock : Int

/-- A descriptor with every field zero. -/
def Tcb.zero : Tcb where
  id := 0
  status := .ready
  parent := none
  staticPriority := 0
  dynamicPriority := 0
  creationTime := 0
  executionTime := 0
  remainingQuantumTime := 0
  numberOfActivations := 0
  targetToWait := 0
  targetExitCode := 0
  exitCode := 0
  sleeping := false
  wakeUpTime := 0

/-- The globals after `task_init` and `dispatcher_init`: the kernel is the only
task. -/
def dispatcherInit : TaskSystem where
  task := Function.update (fun _ => Tcb.zero) taskKernel
    { Tcb.zero with remainingQuantumTime := quantum, numberOfActivations := 1 }
  currentTaskId := 0
  queue := fun _ => queueCreate
  currentActiveTask := taskKernel
  clock := 0

/-- The range of `int`. -/
def FitsInt (n : Int) : Prop := -2 ^ 31 ≤ n ∧ n < 2 ^ 31

instance (n : Int) : Decidable (FitsInt n) := inferInstanceAs (Decidable (_ ∧ _))

/-- Addition of `int` values. -/
def addInt (a b : Int) : Int := Int.bmod (a + b) (2 ^ 32)

theorem addInt_fits (a b : Int) : FitsInt (addInt a b) := by
  have hlo := Int.le_bmod (x := a + b) (m := 2 ^ 32) (by decide)
  have hhi := Int.bmod_lt (x := a + b) (m := 2 ^ 32) (by decide)
  unfold addInt
  constructor <;> omega

/-- Where it does not overflow, it is the addition of integers. -/
theorem addInt_of_fits {a b : Int} (h : FitsInt (a + b)) : addInt a b = a + b := by
  obtain ⟨hlo, hhi⟩ := h
  unfold addInt
  apply Int.bmod_eq_of_le <;> omega

namespace TaskSystem

variable (S : TaskSystem)

/-- Write the descriptor of task `t`. -/
def modify (t : Nat) (f : Tcb → Tcb) : TaskSystem :=
  { S with task := Function.update S.task t (f (S.task t)) }

/-- Write the queue `i`. -/
def setQueue (i : QueueId) (q : Queue Nat) : TaskSystem :=
  { S with queue := Function.update S.queue i q }

/-- `queue_next` on the queue `i`. -/
def nextIn (i : QueueId) : Option Nat × TaskSystem :=
  ((queueNext (S.queue i)).1, S.setQueue i (queueNext (S.queue i)).2)

/-- The tasks in the queue `i`. -/
def inQueue (i : QueueId) : List Nat := (S.queue i).items

@[simp] theorem modify_task (t : Nat) (f : Tcb → Tcb) :
    (S.modify t f).task = Function.update S.task t (f (S.task t)) := rfl

@[simp] theorem modify_queue (t : Nat) (f : Tcb → Tcb) :
    (S.modify t f).queue = S.queue := rfl

@[simp] theorem modify_currentTaskId (t : Nat) (f : Tcb → Tcb) :
    (S.modify t f).currentTaskId = S.currentTaskId := rfl

@[simp] theorem modify_currentActiveTask (t : Nat) (f : Tcb → Tcb) :
    (S.modify t f).currentActiveTask = S.currentActiveTask := rfl

@[simp] theorem modify_clock (t : Nat) (f : Tcb → Tcb) :
    (S.modify t f).clock = S.clock := rfl

@[simp] theorem modify_inQueue (t : Nat) (f : Tcb → Tcb) :
    (S.modify t f).inQueue = S.inQueue := rfl

/-- A change of no field. -/
theorem modify_id (t : Nat) : S.modify t id = S := by
  simp [TaskSystem.modify, Function.update_eq_self]

@[simp] theorem setQueue_task (i : QueueId) (q : Queue Nat) :
    (S.setQueue i q).task = S.task := rfl

@[simp] theorem setQueue_queue (i : QueueId) (q : Queue Nat) :
    (S.setQueue i q).queue = Function.update S.queue i q := rfl

@[simp] theorem setQueue_currentTaskId (i : QueueId) (q : Queue Nat) :
    (S.setQueue i q).currentTaskId = S.currentTaskId := rfl

@[simp] theorem setQueue_currentActiveTask (i : QueueId) (q : Queue Nat) :
    (S.setQueue i q).currentActiveTask = S.currentActiveTask := rfl

@[simp] theorem setQueue_clock (i : QueueId) (q : Queue Nat) :
    (S.setQueue i q).clock = S.clock := rfl

theorem setQueue_inQueue (i j : QueueId) (q : Queue Nat) :
    (S.setQueue i q).inQueue j = if j = i then q.items else S.inQueue j := by
  unfold inQueue
  rw [setQueue_queue, Function.update_apply]
  split <;> rfl

end TaskSystem

end PingPongOS
