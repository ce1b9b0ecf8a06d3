import PingPongOS.RejectedRequest
import PingPongOS.TaskStatements

/-!
# The disk interrupt under preemption

`disk_manager`, `block_read` and `block_write` of `block.c` statement by statement: a
timer tick, and the interrupt of an accepted command, may come between any two
statements.  The handler of the interrupt wakes the disk manager only if it is suspended
already; an interrupt that finds it on its way into `task_suspend` is lost.
-/

namespace PingPongOS

open Runs TaskSystem

/-- The next statement of a task in `block_read` or `block_write`. -/
inductive BlockPoint
  | add
  | suspend (p : SuspendPoint)
  | ret
  deriving DecidableEq

/-- The next statement of `disk_manager`; a `task_suspend` after a command names the
request that is served. -/
inductive ManagerStatement
  | start
  | status
  | item
  | command (request : Nat)
  | suspend (p : SuspendPoint) (served : Option Nat)
  | awake (request : Nat)
  | del (request : Nat)
  | yield
  deriving DecidableEq

/-- Where a task is. -/
inductive DiskPoint
  | user
  | block (p : BlockPoint)
  | manager (p : ManagerStatement)
  deriving DecidableEq

/-- The task subsystem with the block layer, the disk, and the number of interrupts that
the disk has raised and nobody has handled. -/
structure DiskSystem where
  sys : TaskSystem
  request : Nat → Request
  requests : Queue Nat
  disk : Disk
  irqs : Nat
  memory : Nat → UInt8
  point : Nat → DiskPoint
  dispatcher : DispatcherPoint

/-- What can happen: a call of the running task, its next statement, a step of the
dispatcher, the end of a disk operation, its interrupt, a timer tick.  `suspend` and
`awake` stand for the other functions that suspend and wake user tasks. -/
inductive DiskAction
  | create (granted : Bool)
  | setprio (task : Option Nat) (prio : Int)
  | yield
  | sleep (t : Int)
  | suspend
  | awake (task : Nat)
  | blockCall (type : DiskCmd) (block : Int) (buffer : Nat)
  | store (address : Nat) (byte : UInt8)
  | next
  | dispatcher
  | diskDone
  | irq
  | tick
  deriving DecidableEq

/-- Where `block_read` and `block_write` go on after a statement of `task_suspend`. -/
def SuspendPoint.blockNext : SuspendPoint → BlockPoint
  | .status => .suspend .add
  | .add => .suspend .count
  | .count => .suspend .switch
  | .switch => .ret

/-- Where `disk_manager` goes on after a statement of `task_suspend`. -/
def SuspendPoint.managerNext (served : Option Nat) : SuspendPoint → ManagerStatement
  | .status => .suspend .add served
  | .add => .suspend .count served
  | .count => .suspend .switch served
  | .switch =>
      match served with
      | some r => .awake r
      | none => .status

namespace DiskSystem

variable (k : DiskSystem)

def current : Nat := k.sys.currentActiveTask

/-- The running task is now at `p`. -/
def goto (p : DiskPoint) : DiskSystem := { k with point := Function.update k.point k.current p }

/-- The system after the boot, on a disk of `numblocks` blocks. -/
def boot (numblocks : Int) (image : Int → Block) (memory : Nat → UInt8) : DiskSystem where
  sys := (Kernel.boot numblocks image memory).sys
  request := (Kernel.boot numblocks image memory).request
  requests := queueCreate
  disk := (Kernel.boot numblocks image memory).disk
  irqs := 0
  memory := memory
  point := fun t => if t = taskDiskHandler then .manager .start else .user
  dispatcher := .entry

/-- A statement of `block_read` or `block_write`. -/
def blockStatement : BlockPoint → DiskSystem
  | .add => { k.goto (.block (.suspend .status)) with requests := queueAdd k.requests k.current }
  | .suspend p => { k.goto (.block p.blockNext) with sys := suspendStatement .suspended k.sys p }
  | .ret => k.goto .user

/-- A statement of `disk_manager`. -/
def managerStatement : ManagerStatement → Except Fault DiskSystem
  | .start => .ok { k.goto (.manager .status) with requests := (queueHead k.requests).2 }
  | .status =>
      .ok (k.goto (.manager (match k.disk.status with
        | .idle => .item
        | _ => .suspend .status none)))
  | .item =>
      .ok (k.goto (.manager (match queueItem k.requests with
        | some r => .command r
        | none => .yield)))
  | .command r =>
      let ret := hwDiskCmd k.disk (k.request r).type (k.request r).block (k.request r).buffer
      .ok { k.goto (.manager (.suspend .status (some r))) with
        request := Function.update k.request r { k.request r with returnValue := ret.1 }
        disk := ret.2 }
  | .suspend p served =>
      .ok { k.goto (.manager (p.managerNext served)) with
        sys := suspendStatement .suspended k.sys p }
  | .awake r => do
      .ok { k.goto (.manager (.del r)) with
        sys := ← taskAwake k.sys (some (k.request r).task) }
  | .del r => .ok { k.goto (.manager .status) with requests := (queueDel k.requests r).2 }
  | .yield => .ok { k.goto (.manager .status) with sys := taskYield k.sys }

/-- `block_read` and `block_write`, up to their `queue_add`. -/
def blockCall (type : DiskCmd) (block : Int) (buffer : Nat) : DiskSystem :=
  if buffer = 0 then k
  else { k.goto (.block .add) with
    request := Function.update k.request k.current
      { task := k.current
        block := block
        buffer := buffer
        type := type
        returnValue := if type = .write then 0 else (k.request k.current).returnValue } }

/-- A call of a user task from its own code. -/
def call : DiskAction → Option (Except Fault DiskSystem)
  | .create granted => some (.ok { k with sys := (taskCreate k.sys granted).2 })
  | .setprio task prio => some do .ok { k with sys := ← schedSetprio k.sys task prio }
  | .yield => some (.ok { k with sys := taskYield k.sys })
  | .sleep t => some (.ok { k with sys := taskSleep k.sys t })
  | .suspend => some (.ok { k with sys := taskSuspend k.sys .suspended })
  | .awake task =>
      if task = taskDiskHandler then none
      else some do .ok { k with sys := ← taskAwake k.sys (some task) }
  | .blockCall type block buffer => some (.ok (k.blockCall type block buffer))
  | .store address byte =>
      some (.ok { k with memory := Function.update k.memory address byte })
  | .next | .dispatcher | .diskDone | .irq | .tick => none

/-- The system around its task subsystem. -/
def preemptive : Preemptive DiskSystem where
  sys := DiskSystem.sys
  dispatcher := DiskSystem.dispatcher
  update := fun k S d => { k with sys := S, dispatcher := d }

/-- What an action is to the task subsystem. -/
def kind : DiskAction → StepKind DiskSystem
  | .diskDone =>
      .device (match diskSighandle k.memory k.disk with
        | some (memory, disk) =>
            some (.ok { k with memory := memory, disk := disk, irqs := k.irqs + 1 })
        | none => none)
  | .irq =>
      .device (if 0 < k.irqs then
        some do .ok { k with sys := ← taskAwake k.sys (some taskDiskHandler), irqs := k.irqs - 1 }
      else none)
  | .tick => .tick
  | .dispatcher => .dispatcher (queueSize k.requests)
  | .next =>
      .task (match k.point k.current with
        | .user => none
        | .block p => some (.ok (k.blockStatement p))
        | .manager p => some (k.managerStatement p))
  | a => .task (if k.point k.current = .user then k.call a else none)

/-- One step that does not abort. -/
def step (a : DiskAction) : Option DiskSystem := preemptive.step k (k.kind a)

end DiskSystem

/-- The disk manager is suspended, nobody will run it, and a request waits for an idle
disk. -/
def LostInterrupt (k : DiskSystem) : Prop :=
  (k.sys.task taskDiskHandler).status = .suspended ∧ k.sys.occurs .ready taskDiskHandler = 0 ∧
    k.requests.items ≠ [] ∧ k.disk.status = .idle ∧ k.irqs = 0

instance (k : DiskSystem) : Decidable (LostInterrupt k) :=
  inferInstanceAs (Decidable (_ ∧ _ ∧ _ ∧ _ ∧ _))

/-- A call of this step is valid on a disk of `numblocks` blocks. -/
def validCall (numblocks : Int) : DiskAction → Bool
  | .blockCall _ block buffer => decide (0 ≤ block ∧ block < numblocks ∧ buffer ≠ 0)
  | _ => true

/-- An interrupt that is handled in this step finds the disk manager suspended. -/
def irqFindsSuspended (k : DiskSystem) : DiskAction → Bool
  | .irq => decide ((k.sys.task taskDiskHandler).status = .suspended)
  | _ => true

/-! ## The invariant -/

/-- The disk manager may be suspended here: before its first statement, in `task_suspend`
or just after it. -/
def ManagerStatement.sleeps : ManagerStatement → Bool
  | .suspend .status _ => false
  | .start | .suspend _ _ | .status | .awake _ => true
  | _ => false

/-- The disk manager has written its status and is still in `task_suspend`. -/
def ManagerStatement.entering : ManagerStatement → Bool
  | .suspend .status _ => false
  | .suspend _ _ => true
  | _ => false

/-- A command is under way, or its interrupt is. -/
def DiskSystem.expected (k : DiskSystem) : Prop := k.disk.status ≠ .idle ∨ 0 < k.irqs

/-- The request can be served by a disk of `numblocks` blocks. -/
def Request.valid (numblocks : Int) (r : Request) : Prop :=
  0 ≤ r.block ∧ r.block < numblocks ∧ r.buffer ≠ 0

/-- Whoever the disk manager's next `task_suspend` waits for is on its way, and so it is
while the disk manager is suspended and not ready to run. -/
structure InterruptInv (numblocks : Int) (k : DiskSystem) : Prop where
  sys : SwitchInv k.sys
  booted : taskDiskHandler ≤ k.sys.currentTaskId
  users : ∀ t p, k.point t = .manager p → t = taskDiskHandler
  manager : ∃ p, k.point taskDiskHandler = .manager p
  blocks : k.disk.numblocks = numblocks
  filled : ∀ t, k.point t = .block .add → (k.request t).valid numblocks
  valid : ∀ r ∈ k.requests.items, (k.request r).valid numblocks
  chosen : ∀ r, k.point taskDiskHandler = .manager (.command r) → (k.request r).valid numblocks
  idle : ∀ r, k.point taskDiskHandler = .manager .item ∨
    k.point taskDiskHandler = .manager (.command r) → k.disk.status = .idle
  before : ∀ s, k.point taskDiskHandler = .manager (.suspend .status s) → k.expected
  asleep : (k.sys.task taskDiskHandler).status = .suspended →
    ∃ p, k.point taskDiskHandler = .manager p ∧ p.sleeps = true ∧
      (k.current = taskDiskHandler → p.entering = true)
  answered : (k.sys.task taskDiskHandler).status = .suspended →
    0 < k.sys.occurs .ready taskDiskHandler ∨ k.expected

variable {numblocks : Int} {k k' : DiskSystem} {S : TaskSystem} {a : DiskAction}

/-- **A step that leaves the disk manager where it is**, and the disk alone: it stays in its
queues if it stays suspended. -/
theorem InterruptInv.keeps (h : InterruptInv numblocks k) (hsys : SwitchInv k'.sys)
    (hn : k.sys.currentTaskId ≤ k'.sys.currentTaskId)
    (hpoint : k'.point taskDiskHandler = k.point taskDiskHandler)
    (husers : ∀ t p, k'.point t = .manager p → k.point t = .manager p)
    (hdisk : k'.disk = k.disk) (hirqs : k'.irqs = k.irqs)
    (hrest : (k'.sys.task taskDiskHandler).status ≠ .suspended ∨
      (Kept k.sys k'.sys taskDiskHandler ∧
        (k'.current = taskDiskHandler → k.current = taskDiskHandler)))
    (hfilled : ∀ t, k'.point t = .block .add → (k'.request t).valid numblocks)
    (hvalid : ∀ r ∈ k'.requests.items, (k'.request r).valid numblocks)
    (hchosen : ∀ r, (k.request r).valid numblocks → (k'.request r).valid numblocks) :
    InterruptInv numblocks k' := by
  have hexpected : k.expected → k'.expected := by
    unfold DiskSystem.expected
    rw [hdisk, hirqs]
    exact id
  have hback : (k'.sys.task taskDiskHandler).status = .suspended →
      (k.sys.task taskDiskHandler).status = .suspended ∧
        Kept k.sys k'.sys taskDiskHandler ∧
        (k'.current = taskDiskHandler → k.current = taskDiskHandler) := fun hs => by
    obtain ⟨hk, hcur⟩ := hrest.resolve_left fun hne => hne hs
    exact ⟨hk.woken.suspended hs, hk, hcur⟩
  refine ⟨hsys, Nat.le_trans h.booted hn, fun t p hp => h.users t p (husers t p hp), ?_,
    hdisk ▸ h.blocks, hfilled, hvalid, fun r hr => hchosen r (h.chosen r (hpoint ▸ hr)),
    fun r hr => ?_, fun s hs => hexpected (h.before s (hpoint ▸ hs)), fun hs => ?_,
    fun hs => ?_⟩
  · rw [hpoint]
    exact h.manager
  · rw [hdisk]
    exact h.idle r (hpoint ▸ hr)
  · obtain ⟨hwas, -, hcur⟩ := hback hs
    obtain ⟨p, hp, hsleeps, hentering⟩ := h.asleep hwas
    exact ⟨p, hpoint ▸ hp, hsleeps, fun hc => hentering (hcur hc)⟩
  · obtain ⟨hwas, hk, -⟩ := hback hs
    exact (h.answered hwas).imp (hk.queued .ready hs) hexpected

/-- **The disk manager moves** to its statement `q`. -/
theorem InterruptInv.manages (h : InterruptInv numblocks k) (hc : k.current = taskDiskHandler)
    {q : ManagerStatement} (hsys : SwitchInv k'.sys)
    (hn : k'.sys.currentTaskId = k.sys.currentTaskId)
    (hpoint : k'.point = Function.update k.point k.current (.manager q))
    (hblocks : k'.disk.numblocks = k.disk.numblocks)
    (hrequest : ∀ r, (k.request r).valid numblocks → (k'.request r).valid numblocks)
    (hvalid : ∀ r ∈ k'.requests.items, (k'.request r).valid numblocks)
    (hchosen : ∀ r, q = .command r → (k'.request r).valid numblocks)
    (hidle : ∀ r, q = .item ∨ q = .command r → k'.disk.status = .idle)
    (hbefore : ∀ s, q = .suspend .status s → k'.expected)
    (hasleep : (k'.sys.task taskDiskHandler).status = .suspended →
      q.sleeps = true ∧ (k'.current = taskDiskHandler → q.entering = true))
    (hanswered : (k'.sys.task taskDiskHandler).status = .suspended →
      0 < k'.sys.occurs .ready taskDiskHandler ∨ k'.expected) : InterruptInv numblocks k' := by
  have hat : k'.point taskDiskHandler = .manager q := by
    rw [hpoint, hc, Function.update_self]
  have hq : ∀ {r}, k'.point taskDiskHandler = .manager r → q = r := fun hr =>
    DiskPoint.manager.inj (hat.symm.trans hr)
  refine ⟨hsys, hn ▸ h.booted, fun t p hp => ?_, ⟨q, hat⟩, hblocks.trans h.blocks,
    fun t ht => ?_, hvalid, fun r hr => hchosen r (hq hr), fun r hr => hidle r (hr.imp hq hq),
    fun s hs => hbefore s (hq hs), fun hs => ⟨q, hat, hasleep hs⟩, hanswered⟩
  · by_cases ht : t = taskDiskHandler
    · exact ht
    · rw [hpoint, hc, Function.update_of_ne ht] at hp
      exact h.users t p hp
  · by_cases ht1 : t = taskDiskHandler
    · rw [ht1, hat] at ht
      exact absurd ht (by simp)
    · rw [hpoint, hc, Function.update_of_ne ht1] at ht
      exact hrequest t (h.filled t ht)

/-- Outside of `task_suspend` the disk manager runs with another status. -/
theorem InterruptInv.awake (h : InterruptInv numblocks k) (hc : k.current = taskDiskHandler)
    {p : ManagerStatement} (hp : k.point taskDiskHandler = .manager p)
    (hentering : p.entering = false) : (k.sys.task taskDiskHandler).status ≠ .suspended := by
  intro hs
  obtain ⟨q, hq, -, hyes⟩ := h.asleep hs
  obtain rfl := DiskPoint.manager.inj (hp.symm.trans hq)
  exact absurd (hentering.symm.trans (hyes hc)) (by decide)

/-- Whoever runs its own code or a block call is not the disk manager. -/
theorem InterruptInv.user (h : InterruptInv numblocks k)
    (hp : ∀ p, k.point k.current ≠ .manager p) : k.current ≠ taskDiskHandler := by
  intro hc
  obtain ⟨p, hmanager⟩ := h.manager
  exact hp p (hc ▸ hmanager)

/-- **The statements of the disk manager** keep the invariant. -/
theorem InterruptInv.manager_step (h : InterruptInv numblocks k) {p : ManagerStatement}
    (hp : k.point k.current = .manager p) (hs : k.managerStatement p = .ok k') :
    InterruptInv numblocks k' := by
  have hc : k.current = taskDiskHandler := h.users _ _ hp
  have hp1 : k.point taskDiskHandler = .manager p := hc ▸ hp
  have hc0 : k.sys.currentActiveTask ≠ 0 := by
    rw [show k.sys.currentActiveTask = 1 from hc]
    decide
  have hawake := h.awake hc hp1
  cases p with
  | start =>
      rw [← Except.ok.inj hs]
      have hnot := hawake rfl
      exact h.manages hc h.sys rfl rfl rfl (fun _ hr => hr) h.valid (by simp) (by simp) (by simp)
        (fun hsusp => absurd hsusp hnot) fun hsusp => absurd hsusp hnot
  | status =>
      rw [← Except.ok.inj hs]
      have hnot := hawake rfl
      refine h.manages hc h.sys rfl rfl rfl (fun _ hr => hr) h.valid (fun r hr => ?_)
        (fun r hr => ?_)
        (fun s hq => ?_) (fun hsusp => absurd hsusp hnot) fun hsusp => absurd hsusp hnot
      · cases hd : k.disk.status <;> simp [hd] at hr
      · cases hd : k.disk.status with
        | idle => exact hd
        | read | write => simp [hd] at hr
      · cases hd : k.disk.status with
        | idle => simp [hd] at hq
        | read | write =>
            left
            change k.disk.status ≠ .idle
            rw [hd]
            decide
  | item =>
      rw [← Except.ok.inj hs]
      have hnot := hawake rfl
      refine h.manages hc h.sys rfl rfl rfl (fun _ hr => hr) h.valid (fun r hr => ?_)
        (fun _ _ => h.idle 0 (Or.inl hp1)) (fun s hq => ?_)
        (fun hsusp => absurd hsusp hnot) fun hsusp => absurd hsusp hnot
      · cases hitem : queueItem k.requests with
        | none => simp [hitem] at hr
        | some y =>
            rw [hitem] at hr
            obtain rfl := ManagerStatement.command.inj hr
            exact h.valid y (List.mem_append_right _ (List.mem_of_mem_head? hitem))
      · cases hitem : queueItem k.requests <;> simp [hitem] at hq
  | command r =>
      rw [← Except.ok.inj hs]
      have hnot := hawake rfl
      obtain ⟨hlo, hhi, hb⟩ := h.chosen r hp1
      have hidle := h.idle r (Or.inr hp1)
      have hsame : ∀ y, ((Function.update k.request r { k.request r with
          returnValue := (hwDiskCmd k.disk (k.request r).type (k.request r).block
            (k.request r).buffer).1 } y).valid numblocks ↔ (k.request y).valid numblocks) := by
        intro y
        by_cases hy : y = r
        · subst hy
          rw [Function.update_self]
          rfl
        · rw [Function.update_of_ne hy]
      have hbusy := (hwDiskCmd_status (k.request r).type hidle hb).mpr ⟨hlo, h.blocks ▸ hhi⟩
      refine h.manages hc h.sys rfl rfl ?_ (fun y => (hsame y).mpr)
        (fun y hy => (hsame y).mpr (h.valid y hy)) (by simp) (by simp) (fun _ _ => Or.inl hbusy)
        (fun hsusp => absurd hsusp hnot)
        fun hsusp => absurd hsusp hnot
      simp only [hwDiskCmd]
      split
      · rfl
      · split
        · rfl
        · split <;> rfl
  | suspend p served =>
      rw [← Except.ok.inj hs]
      have hstep := h.sys.suspendStatement hc0 p
      obtain ⟨-, -, hstatus⟩ := suspendStatement_self (p := p) hc0
      have hready := hstep.occurs .ready
      rw [show k.sys.currentActiveTask = taskDiskHandler from hc] at hstatus hready
      have hexpected : k.expected → DiskSystem.expected { k.goto (.manager (p.managerNext served))
        with sys := suspendStatement .suspended k.sys p } := id
      refine h.manages hc hstep.sys hstep.currentTaskId rfl rfl (fun _ hr => hr) h.valid
        (fun r hr => ?_) (fun r hr => ?_) (fun s hq => ?_)
        (fun _ => ⟨?_, fun hcur => ?_⟩) fun hsusp => ?_
      · cases p <;> cases served <;> simp [SuspendPoint.managerNext] at hr
      · cases p <;> cases served <;> simp [SuspendPoint.managerNext] at hr
      · cases p <;> cases served <;> simp [SuspendPoint.managerNext] at hq
      · cases p <;> cases served <;> rfl
      · cases p with
        | status | add | count => rfl
        | switch => exact absurd (hcur.symm.trans hstep.current) (by simp [taskDiskHandler])
      · by_cases hp0 : p = .status
        · subst hp0
          exact Or.inr (hexpected (h.before served hp1))
        · rw [if_neg hp0] at hstatus
          refine (h.answered (hstatus.symm.trans hsusp)).imp (fun hpos => ?_) hexpected
          exact Nat.lt_of_lt_of_le hpos (hready ▸ Nat.le_add_right _ _)
  | awake r =>
      change (taskAwake k.sys (some (k.request r).task) >>= _) = _ at hs
      obtain ⟨S, haw, hs⟩ := bind_eq_ok.mp hs
      rw [← Except.ok.inj hs]
      have hr := taskAwake_rouses haw
      have hnot : (S.task taskDiskHandler).status ≠ .suspended := fun hsusp =>
        hawake rfl ((hr.kept _).woken.suspended hsusp)
      exact h.manages hc (h.sys.wakes hr.waking) hr.waking.passive.currentTaskId rfl rfl
        (fun _ hr => hr) h.valid (by simp) (by simp) (by simp) (fun hsusp => absurd hsusp hnot)
        fun hsusp => absurd hsusp hnot
  | del r =>
      rw [← Except.ok.inj hs]
      have hnot := hawake rfl
      refine h.manages hc h.sys rfl rfl rfl (fun _ hr => hr) (fun y hy => ?_) (by simp)
        (by simp) (by simp)
        (fun hsusp => absurd hsusp hnot) fun hsusp => absurd hsusp hnot
      by_cases hmem : r ∈ k.requests.items
      · change y ∈ (queueDel k.requests r).2.items at hy
        rw [(queueDel_items hmem).2] at hy
        exact h.valid y (List.mem_of_mem_erase hy)
      · change y ∈ (queueDel k.requests r).2.items at hy
        rw [queueDel_of_not_mem hmem] at hy
        exact h.valid y hy
  | yield =>
      rw [← Except.ok.inj hs]
      have hl := leaves_taskYield h.sys.kernelReady hc0
      have hnot : ((taskYield k.sys).task taskDiskHandler).status ≠ .suspended := by
        rw [← show k.sys.currentActiveTask = taskDiskHandler from hc, hl.task]
        simp
      exact h.manages hc h.sys.yield hl.currentTaskId rfl rfl (fun _ hr => hr) h.valid (by simp)
        (by simp)
        (by simp) (fun hsusp => absurd hsusp hnot) fun hsusp => absurd hsusp hnot

/-- **The statements of `block_read` and `block_write`** keep the invariant. -/
theorem InterruptInv.block_step (h : InterruptInv numblocks k) (hc : k.current ≠ 0) {p : BlockPoint}
    (hp : k.point k.current = .block p) : InterruptInv numblocks (k.blockStatement p) := by
  have hne := h.user (by rw [hp]; simp)
  have hpoint : ∀ q, Function.update k.point k.current q taskDiskHandler =
      k.point taskDiskHandler := fun q => Function.update_of_ne (Ne.symm hne) ..
  have husers : ∀ {q : DiskPoint}, (∀ r, q ≠ .manager r) → ∀ t r,
      Function.update k.point k.current q t = .manager r → k.point t = .manager r := by
    intro q hq t r hr
    by_cases ht : t = k.current
    · rw [ht, Function.update_self] at hr
      exact absurd hr (hq r)
    · rw [Function.update_of_ne ht] at hr
      exact hr
  have hfilled : ∀ {q : DiskPoint}, q ≠ .block .add → ∀ t,
      Function.update k.point k.current q t = .block .add → (k.request t).valid numblocks := by
    intro q hq t ht
    by_cases htc : t = k.current
    · rw [htc, Function.update_self] at ht
      exact absurd ht hq
    · rw [Function.update_of_ne htc] at ht
      exact h.filled t ht
  cases p with
  | add =>
      refine h.keeps h.sys (Nat.le_refl _) (hpoint _) (husers (by simp)) rfl rfl
        (Or.inr ⟨Kept.refl _ _, id⟩) (hfilled (by simp)) (fun r hr => ?_) fun _ hr => hr
      change r ∈ (queueAdd k.requests k.current).items at hr
      rw [queueAdd_items, List.mem_append, List.mem_singleton] at hr
      rcases hr with hr | rfl
      · exact h.valid r hr
      · exact h.filled _ hp
  | suspend p =>
      have hstep := h.sys.suspendStatement hc p
      refine h.keeps hstep.sys (le_of_eq hstep.currentTaskId.symm) (hpoint _) (husers (by simp))
        rfl rfl (Or.inr ⟨hstep.others _ (Ne.symm hne), fun hcur => ?_⟩) (hfilled ?_) h.valid
        fun _ hr => hr
      · have hcur' := hcur.symm.trans hstep.current
        by_cases hswitch : p = .switch
        · rw [if_pos hswitch] at hcur'
          exact absurd hcur' (by decide)
        · rw [if_neg hswitch] at hcur'
          exact hcur'.symm
      · cases p <;> simp [SuspendPoint.blockNext]
  | ret =>
      exact h.keeps h.sys (Nat.le_refl _) (hpoint _) (husers (by simp)) rfl rfl
        (Or.inr ⟨Kept.refl _ _, id⟩) (hfilled (by simp)) h.valid fun _ hr => hr

/-- A step on the task subsystem alone. -/
theorem InterruptInv.tasks {d : DispatcherPoint} (h : InterruptInv numblocks k) (hsys : SwitchInv S)
    (hn : k.sys.currentTaskId ≤ S.currentTaskId)
    (hrest : (S.task taskDiskHandler).status ≠ .suspended ∨ (Kept k.sys S taskDiskHandler ∧
      (S.currentActiveTask = taskDiskHandler → k.current = taskDiskHandler))) :
    InterruptInv numblocks { k with sys := S, dispatcher := d } :=
  h.keeps hsys hn rfl (fun _ _ hp => hp) rfl rfl hrest h.filled h.valid fun _ hr => hr

theorem InterruptInv.creates {d : DispatcherPoint} (h : InterruptInv numblocks k)
    (hc : Creates k.sys S) : InterruptInv numblocks { k with sys := S, dispatcher := d } := by
  have hbooted := h.booted
  have hold : taskDiskHandler ≠ k.sys.currentTaskId + 1 := by omega
  have htask := hc.others _ hold
  refine h.tasks (h.sys.creates hc) (hc.currentTaskId ▸ Nat.le_succ _)
    (Or.inr ⟨?_, fun hcur => hc.current.symm.trans hcur⟩)
  exact .of_same (by rw [htask]) (by rw [htask]) (by rw [htask]) fun i => by
    rw [hc.occurs, if_neg fun hand => hold hand.2, Nat.add_zero]

theorem InterruptInv.rouses {d : DispatcherPoint} (h : InterruptInv numblocks k)
    (hr : Rouses k.sys S) : InterruptInv numblocks { k with sys := S, dispatcher := d } :=
  h.tasks (h.sys.wakes hr.waking) (le_of_eq hr.waking.passive.currentTaskId.symm)
    (Or.inr ⟨hr.kept _, fun hcur => hr.waking.passive.current.symm.trans hcur⟩)

/-- A user task leaves the CPU. -/
theorem InterruptInv.leaves {b : Tcb} {i : QueueId} (h : InterruptInv numblocks k)
    (hsys : SwitchInv S) (hl : Leaves k.sys S b i) (hne : k.current ≠ taskDiskHandler) :
    InterruptInv numblocks { k with sys := S } := by
  refine h.tasks hsys (le_of_eq hl.currentTaskId.symm)
    (Or.inr ⟨hl.kept (Ne.symm hne), fun hcur => ?_⟩)
  exact absurd (hl.current.symm.trans hcur) (by decide)

theorem InterruptInv.dispatches {d : DispatcherPoint} {t : Nat} (h : InterruptInv numblocks k)
    (ht : 0 < k.sys.occurs .ready t) (hd : Dispatches k.sys S t) :
    InterruptInv numblocks { k with sys := S, dispatcher := d } := by
  have hsys := h.sys.dispatches (List.count_pos_iff.mp ht) hd
  by_cases ht1 : t = taskDiskHandler
  · refine h.tasks hsys (le_of_eq hd.currentTaskId.symm) (Or.inl ?_)
    rw [← ht1, hd.task]
    simp
  · have htask := hd.others taskDiskHandler (Ne.symm ht1)
    refine h.tasks hsys (le_of_eq hd.currentTaskId.symm) (Or.inr ⟨?_, fun hcur => ?_⟩)
    · exact .of_same (by rw [htask]) (by rw [htask]) (by rw [htask]) fun i => by
        rw [hd.occurs, if_neg fun hand => ht1 hand.2.symm, Nat.sub_zero]
    · exact absurd (hd.current.symm.trans hcur) ht1

theorem InterruptInv.dispatcher {d : DispatcherPoint} {requests : Nat}
    (h : InterruptInv numblocks k)
    (hs : dispatcherTurn k.sys k.dispatcher requests = some (.ok (S, d))) :
    InterruptInv numblocks { k with sys := S, dispatcher := d } := by
  rcases dispatcherTurn_rouses hs with hc | hr | ⟨S₁, t, hr, ht, hd⟩
  · exact h.creates hc
  · exact h.rouses hr
  · exact (h.rouses (d := d) hr).dispatches ht hd

/-- **A timer tick**, wherever it comes. -/
theorem InterruptInv.tick (h : InterruptInv numblocks k) :
    InterruptInv numblocks { k with sys := handleTimerSignal k.sys } := by
  have hn := tick_currentTaskId k.sys
  rcases tick_cases h.sys.kernelReady with hq | ⟨S₁, hq, hc, htick⟩
  · exact h.tasks h.sys.tick (le_of_eq hn.symm)
      (Or.inr ⟨hq.kept _, fun hcur => hq.current.symm.trans hcur⟩)
  · have hl := leaves_taskYield ((hq.fields 0).1.trans h.sys.kernelReady) hc
    rw [← htick] at hl
    by_cases h1 : S₁.currentActiveTask = taskDiskHandler
    · refine h.tasks h.sys.tick (le_of_eq hn.symm) (Or.inl ?_)
      rw [← h1, hl.task]
      simp
    · refine h.tasks h.sys.tick (le_of_eq hn.symm)
        (Or.inr ⟨(hq.kept _).trans (hl.kept (Ne.symm h1)), fun hcur => ?_⟩)
      exact absurd (hl.current.symm.trans hcur) (by decide)

/-! ## The disk -/

/-- The end of a disk operation raises the interrupt. -/
theorem InterruptInv.diskDone {m : Nat → UInt8} {d : Disk} (h : InterruptInv numblocks k)
    (hs : diskSighandle k.memory k.disk = some (m, d)) :
    InterruptInv numblocks { k with memory := m, disk := d, irqs := k.irqs + 1 } := by
  have hd : k.disk.status ≠ .idle ∧ d.numblocks = k.disk.numblocks := by
    unfold diskSighandle at hs
    cases hd : k.disk.status with
    | idle =>
        rw [hd] at hs
        exact absurd hs (by simp)
    | read | write =>
        rw [hd] at hs
        obtain ⟨-, rfl⟩ := Prod.mk.inj (Option.some.inj hs)
        exact ⟨by decide, rfl⟩
  refine ⟨h.sys, h.booted, h.users, h.manager, hd.2.trans h.blocks, h.filled, h.valid,
    h.chosen, fun r hr => absurd (h.idle r hr) hd.1, fun _ _ => Or.inr (Nat.succ_pos _), h.asleep,
    fun _ => Or.inr (Or.inr (Nat.succ_pos _))⟩

/-- **The interrupt**, if it finds the disk manager suspended. -/
theorem InterruptInv.irq (h : InterruptInv numblocks k)
    (hsusp : (k.sys.task taskDiskHandler).status = .suspended)
    (hs : taskAwake k.sys (some taskDiskHandler) = .ok S) :
    InterruptInv numblocks { k with sys := S, irqs := k.irqs - 1 } := by
  have hr := taskAwake_rouses hs
  have hnot := taskAwake_awake hs
  obtain ⟨p, hp, hsleeps, -⟩ := h.asleep hsusp
  refine ⟨h.sys.wakes hr.waking, hr.waking.passive.currentTaskId ▸ h.booted, h.users, h.manager,
    h.blocks, h.filled, h.valid, h.chosen, h.idle, fun s hq => ?_, fun hsusp' => absurd hsusp' hnot,
    fun hsusp' => absurd hsusp' hnot⟩
  obtain rfl := DiskPoint.manager.inj (hp.symm.trans hq)
  exact absurd hsleeps (by simp [ManagerStatement.sleeps])

/-! ## Every step -/

/-- `block_read` and `block_write` fill a valid request. -/
theorem InterruptInv.blockCall {type : DiskCmd} {block : Int} {buffer : Nat}
    (h : InterruptInv numblocks k) (hu : k.point k.current = .user)
    (hok : 0 ≤ block ∧ block < numblocks ∧ buffer ≠ 0) :
    InterruptInv numblocks (k.blockCall type block buffer) := by
  have hne := h.user (by rw [hu]; simp)
  simp only [DiskSystem.blockCall, if_neg hok.2.2]
  have hrequest : ∀ r, (k.request r).valid numblocks ∨ r = k.current →
      (Function.update k.request k.current
        { task := k.current
          block := block
          buffer := buffer
          type := type
          returnValue := if type = .write then 0 else (k.request k.current).returnValue } r).valid
        numblocks := by
    intro r hr
    by_cases hrc : r = k.current
    · rw [hrc, Function.update_self]
      exact hok
    · rw [Function.update_of_ne hrc]
      exact hr.resolve_right hrc
  refine h.keeps h.sys (Nat.le_refl _) (Function.update_of_ne (Ne.symm hne) ..)
    (fun t p hp => ?_) rfl rfl (Or.inr ⟨Kept.refl _ _, id⟩) (fun t ht => ?_)
    (fun r hr => hrequest r (Or.inl (h.valid r hr))) fun r hr => hrequest r (Or.inl hr)
  · change Function.update k.point k.current (.block .add) t = .manager p at hp
    by_cases ht : t = k.current
    · rw [ht, Function.update_self] at hp
      exact absurd hp (by simp)
    · rw [Function.update_of_ne ht] at hp
      exact hp
  · change Function.update k.point k.current (.block .add) t = .block .add at ht
    by_cases htc : t = k.current
    · exact hrequest t (Or.inr htc)
    · rw [Function.update_of_ne htc] at ht
      exact hrequest t (Or.inl (h.filled t ht))

/-- **A call** of a user task, valid if it is one of the block layer. -/
theorem InterruptInv.call_step (h : InterruptInv numblocks k) (hc : k.current ≠ 0)
    (hu : k.point k.current = .user) (hok : validCall numblocks a = true)
    (hs : k.call a = some (.ok k')) : InterruptInv numblocks k' := by
  have hne := h.user (by rw [hu]; simp)
  cases a with
  | create granted =>
      rw [← Except.ok.inj (Option.some.inj hs)]
      cases granted with
      | true => exact h.creates (creates_taskCreate k.sys)
      | false => exact h
  | setprio task prio =>
      obtain ⟨S, hp, hs'⟩ := bind_eq_ok.mp (Option.some.inj hs)
      rw [← Except.ok.inj hs']
      have hq := schedSetprio_quiet hp
      exact h.tasks (h.sys.setprio hp) (le_of_eq hq.currentTaskId.symm)
        (Or.inr ⟨hq.kept _, fun hcur => hq.current.symm.trans hcur⟩)
  | yield =>
      rw [← Except.ok.inj (Option.some.inj hs)]
      exact h.leaves h.sys.yield (leaves_taskYield h.sys.kernelReady hc) hne
  | sleep t =>
      rw [← Except.ok.inj (Option.some.inj hs)]
      have hl := leaves_taskSuspend h.sys.kernelReady hc
        (fun b => { b with sleeping := true, wakeUpTime := addInt k.sys.clock t }) .sleeping
      exact h.leaves (h.sys.leaves hl hc rfl) hl hne
  | suspend =>
      rw [← Except.ok.inj (Option.some.inj hs)]
      have hl := leaves_suspend (i := .suspended) h.sys.kernelReady hc
      exact h.leaves (h.sys.leaves hl hc rfl) hl hne
  | awake t =>
      simp only [DiskSystem.call] at hs
      split at hs
      · exact absurd hs (by simp)
      · obtain ⟨S, haw, hs'⟩ := bind_eq_ok.mp (Option.some.inj hs)
        rw [← Except.ok.inj hs']
        exact h.rouses (taskAwake_rouses haw)
  | blockCall type block buffer =>
      rw [← Except.ok.inj (Option.some.inj hs)]
      exact h.blockCall hu (of_decide_eq_true hok)
  | store address byte =>
      rw [← Except.ok.inj (Option.some.inj hs)]
      exact h.keeps h.sys (Nat.le_refl _) rfl (fun _ _ hp => hp) rfl rfl
        (Or.inr ⟨Kept.refl _ _, id⟩) h.filled h.valid fun _ hr => hr
  | next | dispatcher | diskDone | irq | tick => exact absurd hs (by simp [DiskSystem.call])

/-- **A step keeps the invariant**, if its call is valid and its interrupt finds the disk
manager suspended. -/
theorem InterruptInv.step (h : InterruptInv numblocks k) (hvalid : validCall numblocks a = true)
    (hirq : irqFindsSuspended k a = true) (hs : k.step a = some k') :
    InterruptInv numblocks k' := by
  have hexec := Preemptive.step_eq_some.mp hs
  cases a with
  | tick =>
      rw [← Except.ok.inj (Option.some.inj hexec)]
      exact h.tick
  | diskDone =>
      simp only [DiskSystem.kind, Preemptive.exec] at hexec
      split at hexec
      · rename_i m d hd
        rw [← Except.ok.inj (Option.some.inj hexec)]
        exact h.diskDone hd
      · exact absurd hexec (by simp)
  | irq =>
      simp only [DiskSystem.kind, Preemptive.exec, Option.ite_none_right_eq_some] at hexec
      obtain ⟨S, haw, hexec'⟩ := bind_eq_ok.mp (Option.some.inj hexec.2)
      rw [← Except.ok.inj hexec']
      exact h.irq (of_decide_eq_true hirq) haw
  | dispatcher =>
      obtain ⟨-, hexec⟩ := Preemptive.exec_dispatcher.mp hexec
      obtain ⟨S, d, hd, rfl⟩ := Preemptive.dispatcherStep_eq_some.mp hexec
      exact h.dispatcher hd
  | next =>
      obtain ⟨hc, hexec⟩ := Preemptive.exec_task.mp hexec
      cases hp : k.point k.current with
      | user =>
          rw [hp] at hexec
          exact absurd hexec (by simp)
      | block p =>
          rw [hp] at hexec
          rw [← Except.ok.inj (Option.some.inj hexec)]
          exact h.block_step hc hp
      | manager p =>
          rw [hp] at hexec
          exact h.manager_step hp (Option.some.inj hexec)
  | create _ | setprio _ _ | yield | sleep _ | suspend | awake _ | blockCall _ _ _ | store _ _ =>
      obtain ⟨hc, hexec⟩ := Preemptive.exec_task.mp hexec
      rw [Option.ite_none_right_eq_some] at hexec
      exact h.call_step hc hexec.1 hvalid hexec.2

theorem interruptInv_boot (numblocks : Int) (image : Int → Block) (memory : Nat → UInt8) :
    InterruptInv numblocks (DiskSystem.boot numblocks image memory) := by
  have hpoint : ∀ t p, (DiskSystem.boot numblocks image memory).point t = .manager p →
      t = taskDiskHandler ∧ p = .start := by
    intro t p hp
    by_cases ht : t = taskDiskHandler
    · refine ⟨ht, ?_⟩
      simp only [DiskSystem.boot, if_pos ht] at hp
      exact (DiskPoint.manager.inj hp).symm
    · simp only [DiskSystem.boot, if_neg ht] at hp
      exact absurd hp (by simp)
  have hstart : ∀ p, p ≠ .start →
      (DiskSystem.boot numblocks image memory).point taskDiskHandler ≠ .manager p :=
    fun p hne hp => hne (hpoint _ p hp).2
  refine ⟨switchInv_boot numblocks image memory, Nat.le_refl 1, fun t p hp => (hpoint t p hp).1,
    ⟨.start, rfl⟩, rfl, fun t ht => ?_, fun r hr => absurd hr (by
      simp [DiskSystem.boot, queueCreate,
      Queue.items]), fun r hr => absurd hr (hstart _ (by simp)), fun r hr => ?_,
    fun s hs => absurd hs (hstart _ (by simp)), fun _ => ⟨.start, rfl, rfl, fun hc => ?_⟩,
    fun _ => Or.inl ?_⟩
  · simp only [DiskSystem.boot] at ht
    split at ht
    · exact absurd ht (by simp)
    · exact absurd ht (by simp)
  · rcases hr with hr | hr
    · exact absurd hr (hstart _ (by simp))
    · exact absurd hr (hstart _ (by simp))
  · exact absurd (show (0 : Nat) = 1 from hc) (by decide)
  · exact (by decide : 0 < List.count 1 [1])

/-- **No disk interrupt is lost**, in a run with valid calls in which every interrupt that is
handled finds the disk manager suspended. -/
theorem no_lost_interrupt (numblocks : Int) (image : Int → Block) (memory : Nat → UInt8)
    (as : List DiskAction) (k : DiskSystem)
    (hvalid : AllSteps DiskSystem.step (fun _ a => validCall numblocks a = true)
      (DiskSystem.boot numblocks image memory) as)
    (hirq : AllSteps DiskSystem.step (fun k a => irqFindsSuspended k a = true)
      (DiskSystem.boot numblocks image memory) as)
    (hrun : run DiskSystem.step (DiskSystem.boot numblocks image memory) as = some k) :
    ¬ LostInterrupt k := by
  have h : InterruptInv numblocks k := invariant_of_allSteps (InterruptInv numblocks)
    (fun _ _ _ h hok hs => h.step hok.1 hok.2 hs) (interruptInv_boot numblocks image memory)
    (hvalid.and hirq) hrun
  rintro ⟨hsusp, hready, -, hidle, hirqs⟩
  rcases h.answered hsusp with hpos | hbusy | hpos
  · omega
  · exact hbusy hidle
  · omega

/-- The interrupt comes after the disk manager has suspended itself, which answers the
request. -/
theorem no_lost_interrupt_read : ∃ k,
    run DiskSystem.step (DiskSystem.boot 4 (fun _ _ => 0) fun _ => 0)
      ([DiskAction.dispatcher, .dispatcher, .next, .next, .next, .next, .dispatcher, .dispatcher,
          .blockCall .read 0 100] ++ List.replicate 5 DiskAction.next ++
        [DiskAction.dispatcher, .dispatcher] ++ List.replicate 7 DiskAction.next ++
        [DiskAction.diskDone, .irq, .dispatcher, .dispatcher, .next, .next]) = some k ∧
    (k.sys.task 2).status = .ready ∧ ¬ LostInterrupt k := by
  have hrun : (run DiskSystem.step (DiskSystem.boot 4 (fun _ _ => 0) fun _ => 0)
      ([DiskAction.dispatcher, .dispatcher, .next, .next, .next, .next, .dispatcher, .dispatcher,
          .blockCall .read 0 100] ++ List.replicate 5 DiskAction.next ++
        [DiskAction.dispatcher, .dispatcher] ++ List.replicate 7 DiskAction.next ++
        [DiskAction.diskDone, .irq, .dispatcher, .dispatcher, .next, .next])).any (fun k =>
          decide ((k.sys.task 2).status = .ready)) = true := by
    decide +kernel
  rw [Option.any_eq_true] at hrun
  obtain ⟨k, hk, hready⟩ := hrun
  exact ⟨k, hk, of_decide_eq_true hready,
    no_lost_interrupt 4 (fun _ _ => 0) (fun _ => 0) _ k (by decide +kernel) (by decide +kernel) hk⟩

/-- **A lost interrupt.**  Ten ticks after its command make the disk manager yield; the disk
finishes and its interrupt finds the disk manager ready, which then suspends itself. -/
theorem interrupt_lost : ∃ k,
    run DiskSystem.step (DiskSystem.boot 4 (fun _ _ => 0) fun _ => 0)
      ([DiskAction.dispatcher, .dispatcher, .next, .next, .next, .next, .dispatcher, .dispatcher,
          .blockCall .read 0 100] ++ List.replicate 5 DiskAction.next ++
        [DiskAction.dispatcher, .dispatcher, .next, .next, .next] ++
        List.replicate 10 DiskAction.tick ++
        [DiskAction.diskDone, .irq, .dispatcher, .dispatcher] ++
        List.replicate 4 DiskAction.next) = some k ∧
    AllSteps DiskSystem.step (fun _ a => validCall 4 a = true)
      (DiskSystem.boot 4 (fun _ _ => 0) fun _ => 0)
      ([DiskAction.dispatcher, .dispatcher, .next, .next, .next, .next, .dispatcher, .dispatcher,
          .blockCall .read 0 100] ++ List.replicate 5 DiskAction.next ++
        [DiskAction.dispatcher, .dispatcher, .next, .next, .next] ++
        List.replicate 10 DiskAction.tick ++
        [DiskAction.diskDone, .irq, .dispatcher, .dispatcher] ++
        List.replicate 4 DiskAction.next) ∧
    k.current = taskKernel ∧ LostInterrupt k := by
  have hrun : (run DiskSystem.step (DiskSystem.boot 4 (fun _ _ => 0) fun _ => 0)
      ([DiskAction.dispatcher, .dispatcher, .next, .next, .next, .next, .dispatcher, .dispatcher,
          .blockCall .read 0 100] ++ List.replicate 5 DiskAction.next ++
        [DiskAction.dispatcher, .dispatcher, .next, .next, .next] ++
        List.replicate 10 DiskAction.tick ++
        [DiskAction.diskDone, .irq, .dispatcher, .dispatcher] ++
        List.replicate 4 DiskAction.next)).any (fun k =>
          decide (k.current = taskKernel ∧ LostInterrupt k)) = true := by
    decide +kernel
  rw [Option.any_eq_true] at hrun
  obtain ⟨k, hk, hlost⟩ := hrun
  obtain ⟨hc, hlost⟩ := of_decide_eq_true hlost
  exact ⟨k, hk, by decide +kernel, hc, hlost⟩

end PingPongOS
