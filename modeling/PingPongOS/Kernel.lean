import PingPongOS.PreemptiveSteps
import PingPongOS.Runs

/-!
# The kernel as a transition system

The task subsystem with the semaphores of `semaphore.c`, the block layer of
`block.c` and the disk of `disk.c`.  A step is what one task, the dispatcher or an
interrupt does up to the next context switch; `point` says where a task goes on
when it runs again.  `malloc` succeeds, and the disk transfers whole blocks.

A request lives on the stack of its caller, which has one at a time, so its
address is named by the calling task.  A buffer is an address, `0` being `NULL`.
-/

namespace PingPongOS

open Runs TaskSystem

/-- `struct semaphore_t`. -/
structure Semaphore where
  lock : Bool
  waitQueue : Queue Nat
  value : Int
  destroy : Bool

/-- `DISK_CMD_READ` and `DISK_CMD_WRITE`. -/
inductive DiskCmd
  | read
  | write
  deriving DecidableEq

/-- The disk status; the disk is initialised by `block_init`, so it is known. -/
inductive DiskStatus
  | idle
  | read
  | write
  deriving DecidableEq

/-- `DISK_BLOCK_SIZE` bytes. -/
abbrev Block := Fin 64 → UInt8

/-- `struct disk_t`, with the contents of its file. -/
structure Disk where
  status : DiskStatus
  numblocks : Int
  buffer : Nat
  nextBlock : Int
  image : Int → Block

/-- `struct request`. -/
structure Request where
  task : Nat
  block : Int
  buffer : Nat
  type : DiskCmd
  returnValue : Int
  deriving DecidableEq

/-- Where `disk_manager` goes on: at its first statement, at the head of its loop,
or after the `task_suspend` that follows a command for the request named. -/
inductive ManagerPoint
  | start
  | loop
  | served (request : Nat)
  deriving DecidableEq

/-- Where a task goes on: in its own code, or after the `task_suspend` in the kernel
function named. -/
inductive TaskPoint
  | user
  | semDown (s : Nat)
  | taskWait (task : Nat)
  | taskSleep
  | block
  | manager (p : ManagerPoint)
  deriving DecidableEq

/-- The state of the kernel. -/
structure Kernel where
  sys : TaskSystem
  sem : Nat → Semaphore
  semCount : Nat
  request : Nat → Request
  requests : Queue Nat
  disk : Disk
  irqDisk : Bool
  memory : Nat → UInt8
  point : Nat → TaskPoint
  dispatcher : DispatcherPoint

/-- `task_disk_handler`, the first task created. -/
def taskDiskHandler : Nat := 1

/-! ## Semaphores -/

/-- `spin_lock`: on a lock that is taken it spins for ever. -/
def spinLock (s : Semaphore) : Except Fault Semaphore :=
  if s.lock then .error .endlessLoop else .ok { s with lock := true }

/-- `spin_unlock`. -/
def spinUnlock (s : Semaphore) : Semaphore := { s with lock := false }

/-- `sem_create`, given its memory. -/
def semCreate (value : Int) : Option Semaphore :=
  if value < 0 then none else some ⟨false, queueCreate, value, false⟩

/-- `sem_down` up to its return, or to its `task_suspend` if the result is `none`. -/
def semDown (s : Semaphore) (t : Nat) : Except Fault (Option Int × Semaphore) := do
  let s ← spinLock s
  if s.destroy then .ok (some error, spinUnlock s)
  else
    let s := { s with value := addInt s.value (-1) }
    if s.value < 0 then
      .ok (none, spinUnlock { s with waitQueue := queueAdd s.waitQueue t })
    else .ok (some noError, spinUnlock s)

/-- The rest of `sem_down`, after its `task_suspend`. -/
def semDownWoken (s : Semaphore) : Except Fault (Int × Semaphore) := do
  let s ← spinLock s
  if s.destroy then .ok (error, spinUnlock { s with value := addInt s.value 1 })
  else .ok (noError, spinUnlock s)

/-- `sem_up`: the return value, the task it passes to `task_awake`, and the
semaphore; the `task_awake` itself is made by the caller. -/
def semUp (s : Semaphore) : Except Fault (Int × Option Nat × Semaphore) := do
  let s ← spinLock s
  if s.destroy then .ok (error, none, spinUnlock s)
  else
    let s := { s with value := addInt s.value 1 }
    let wake := (queueHead s.waitQueue).1
    let s := { s with waitQueue := (queueHead s.waitQueue).2 }
    match wake with
    | some t => .ok (noError, some t, spinUnlock { s with waitQueue := (queueDel s.waitQueue t).2 })
    | none => .ok (noError, none, spinUnlock s)

/-- The loop of `sem_destroy`: release the task at the head until there is none. -/
def semDestroyLoop : Nat → Option Nat → Semaphore × TaskSystem →
    Except Fault (Semaphore × TaskSystem) :=
  whileItem .endlessLoop
    (fun r => ((queueHead r.1.waitQueue).1,
      (spinUnlock { r.1 with waitQueue := (queueHead r.1.waitQueue).2 }, r.2)))
    (fun r t => do
      let s ← spinLock r.1
      let s := { s with waitQueue := (queueDel s.waitQueue t).2 }
      .ok (s, ← taskAwake r.2 (some t)))

/-- `sem_destroy`. -/
def semDestroy (s : Semaphore) (S : TaskSystem) : Except Fault (Semaphore × TaskSystem) := do
  let s ← spinLock s
  let s := { s with destroy := true, waitQueue := (queueHead s.waitQueue).2 }
  semDestroyLoop (queueSize s.waitQueue) (queueHead s.waitQueue).1 (spinUnlock s, S)

/-! ## The disk -/

/-- `hw_disk_cmd(DISK_CMD_READ/DISK_CMD_WRITE, block, buffer)`. -/
def hwDiskCmd (d : Disk) (cmd : DiskCmd) (block : Int) (buffer : Nat) : Int × Disk :=
  if d.status ≠ .idle then (error, d)
  else if buffer = 0 then (error, d)
  else if block < 0 ∨ d.numblocks ≤ block then (error, d)
  else (noError, { d with
    buffer := buffer
    nextBlock := block
    status := if cmd = .read then .read else .write })

/-- `pread` of a whole block. -/
def pread (memory : Nat → UInt8) (buffer : Nat) (b : Block) : Nat → UInt8 :=
  fun a => if buffer ≤ a ∧ a < buffer + 64 then b (Fin.ofNat 64 (a - buffer)) else memory a

/-- `pwrite` of a whole block. -/
def pwrite (memory : Nat → UInt8) (buffer : Nat) : Block := fun i => memory (buffer + i)

/-- `disk_sighandle`: the memory and the disk after the operation; `none` where the
disk has nothing to do. -/
def diskSighandle (memory : Nat → UInt8) (d : Disk) : Option ((Nat → UInt8) × Disk) :=
  match d.status with
  | .read => some (pread memory d.buffer (d.image d.nextBlock), { d with status := .idle })
  | .write => some (memory, { d with
      status := .idle
      image := Function.update d.image d.nextBlock (pwrite memory d.buffer) })
  | .idle => none

/-! ## Steps -/

/-- What can happen: a call of the running task, its return from a kernel function,
a step of the disk manager or of the dispatcher, the end of a disk operation, its
interrupt, a timer tick. -/
inductive Action
  | create (granted : Bool)
  | yield
  | sleep (t : Int)
  | wait (task : Nat)
  | exit (code : Int)
  | semCreate (value : Int)
  | semDown (s : Nat)
  | semUp (s : Nat)
  | semDestroy (s : Nat)
  | blockCall (type : DiskCmd) (block : Int) (buffer : Nat)
  | store (address : Nat) (byte : UInt8)
  | resume
  | manager
  | dispatcher
  | diskDone
  | irq
  | tick
  deriving DecidableEq

namespace Kernel

variable (k : Kernel)

/-- The running task. -/
def current : Nat := k.sys.currentActiveTask

/-- The running task goes on at `p` when it runs again. -/
def setPoint (p : TaskPoint) : Kernel :=
  { k with point := Function.update k.point k.current p }

def setSem (s : Nat) (x : Semaphore) : Kernel := { k with sem := Function.update k.sem s x }

/-- `block_init` and the boot before it, on a disk of `numblocks` blocks. -/
def boot (numblocks : Int) (image : Int → Block) (memory : Nat → UInt8) : Kernel :=
  let S := (taskCreate dispatcherInit true).2
  { sys := (S.setQueue .suspended (queueAdd (S.queue .suspended) taskDiskHandler)).modify
      taskDiskHandler fun b => { b with status := .suspended }
    sem := fun _ => ⟨false, queueCreate, 0, false⟩
    semCount := 0
    request := fun _ => ⟨0, 0, 0, .read, 0⟩
    requests := queueCreate
    disk := ⟨.idle, numblocks, 0, 0, image⟩
    irqDisk := false
    memory := memory
    point := fun t => if t = taskDiskHandler then .manager .start else .user
    dispatcher := .entry }

/-- `block_read` and `block_write`, up to their `task_suspend`. -/
def blockCall (type : DiskCmd) (block : Int) (buffer : Nat) : Kernel :=
  if buffer = 0 then k
  else
    let r : Request :=
      { task := k.current
        block := block
        buffer := buffer
        type := type
        -- block_read leaves it uninitialised, block_write clears it
        returnValue := if type = .write then 0 else (k.request k.current).returnValue }
    { k.setPoint .block with
      request := Function.update k.request k.current r
      requests := queueAdd k.requests k.current
      sys := taskSuspend k.sys .suspended }

/-- A step of `disk_manager`. -/
def manager : ManagerPoint → Except Fault Kernel
  | .start => .ok { k.setPoint (.manager .loop) with requests := (queueHead k.requests).2 }
  | .loop =>
      match k.disk.status with
      | .idle =>
          match queueItem k.requests with
          | some r =>
              let ret := hwDiskCmd k.disk (k.request r).type (k.request r).block
                (k.request r).buffer
              .ok { k.setPoint (.manager (.served r)) with
                request := Function.update k.request r
                  { k.request r with returnValue := ret.1 }
                disk := ret.2
                sys := taskSuspend k.sys .suspended }
          | none => .ok { k with sys := taskYield k.sys }
      | _ => .ok { k with sys := taskSuspend k.sys .suspended }
  | .served r => do
      let S ← taskAwake k.sys (some (k.request r).task)
      .ok { k.setPoint (.manager .loop) with
        sys := S
        requests := (queueDel k.requests r).2 }

/-- The kernel around its task subsystem. -/
def preemptive : Preemptive Kernel where
  sys := Kernel.sys
  dispatcher := Kernel.dispatcher
  update := fun k S d => { k with sys := S, dispatcher := d }

/-- A step of `dispatcher`; `none` once its loop is left. -/
def dispatcherStep : Option (Except Fault Kernel) :=
  preemptive.dispatcherStep k (queueSize k.requests)

/-- A call of the running task from its own code. -/
def call : Action → Option (Except Fault Kernel)
  | .create granted => some (.ok { k with sys := (taskCreate k.sys granted).2 })
  | .yield => some (.ok { k with sys := taskYield k.sys })
  | .sleep t => some (.ok { k.setPoint .taskSleep with sys := taskSleep k.sys t })
  | .wait task =>
      if task ≤ k.sys.currentTaskId then
        match taskWait k.sys task with
        | (some _, _) => some (.ok k)
        | (none, S) => some (.ok { k.setPoint (.taskWait task) with sys := S })
      else none
  | .exit code => some do .ok { k with sys := ← taskExit k.sys code }
  | .semCreate value =>
      match semCreate value with
      | some s => some (.ok { k.setSem k.semCount s with semCount := k.semCount + 1 })
      | none => some (.ok k)
  | .semDown s =>
      if s < k.semCount then some do
        match ← semDown (k.sem s) k.current with
        | (some _, x) => .ok (k.setSem s x)
        | (none, x) =>
            .ok { (k.setSem s x).setPoint (.semDown s) with sys := taskSuspend k.sys .suspended }
      else none
  | .semUp s =>
      if s < k.semCount then some do
        let r ← semUp (k.sem s)
        .ok { k.setSem s r.2.2 with sys := ← taskAwake k.sys r.2.1 }
      else none
  | .semDestroy s =>
      if s < k.semCount then some do
        let r ← semDestroy (k.sem s) k.sys
        .ok { k.setSem s r.1 with sys := r.2 }
      else none
  | .blockCall type block buffer => some (.ok (k.blockCall type block buffer))
  | .store address byte =>
      some (.ok { k with memory := Function.update k.memory address byte })
  | _ => none

/-- The rest of a kernel function, after its `task_suspend`. -/
def resume : Option (Except Fault Kernel) :=
  match k.point k.current with
  | .semDown s => some do
      let r ← semDownWoken (k.sem s)
      .ok ((k.setSem s r.2).setPoint .user)
  | .taskWait _ | .taskSleep | .block => some (.ok (k.setPoint .user))
  | _ => none

/-- What an action is to the task subsystem.  A tick comes in the code of a task or of the
dispatcher, not in the other kernel functions. -/
def kind : Action → StepKind Kernel
  | .diskDone =>
      .device (match diskSighandle k.memory k.disk with
        | some (memory, disk) =>
            some (.ok { k with memory := memory, disk := disk, irqDisk := true })
        | none => none)
  | .irq =>
      .device (if k.irqDisk then
        some do .ok { k with sys := ← taskAwake k.sys (some taskDiskHandler), irqDisk := false }
      else none)
  | .tick =>
      if k.current = taskKernel ∨ k.point k.current = .user then .tick else .device none
  | .dispatcher => .dispatcher (queueSize k.requests)
  | .manager =>
      .task (if k.current = taskDiskHandler then
        match k.point taskDiskHandler with
        | .manager p => some (k.manager p)
        | _ => none
      else none)
  | .resume => .task k.resume
  | a => .task (if k.point k.current = .user then k.call a else none)

/-- One step; `none` where the action cannot happen. -/
def exec (a : Action) : Option (Except Fault Kernel) := preemptive.exec k (k.kind a)

/-- One step that does not abort. -/
def step (a : Action) : Option Kernel := preemptive.step k (k.kind a)

end Kernel

end PingPongOS
