import PingPongOS.TaskStatements

/-!
# Joins under preemption

`task_wait` and `task_exit` of `dispatcher.c` statement by statement: a timer tick may
come between any two statements and make the running task yield.  `task_suspend` is
taken apart where `task_wait` calls it; other suspensions, and the functions that
`task_exit` calls, run uninterrupted.

A task that is preempted after it has marked itself finished is ready again, and the
status that `task_run` gives it is never overwritten; so a task that stays finished has
scanned `suspended_queue` while nobody else ran.
-/

namespace PingPongOS

open Runs TaskSystem

/-- The next statement of a task in `task_wait`. -/
inductive WaitPoint
  | test
  | target
  | suspend (p : SuspendPoint)
  | back
  | ret (code : Int)
  deriving DecidableEq

/-- The next statement of a task in `task_exit`, with the value of `aux_task`. -/
inductive ExitPoint
  | time
  | status
  | code
  | kernel
  | head
  | test (aux : Option Nat)
  | mark (aux : Nat)
  | awake (aux : Nat)
  | next
  | add
  | count
  | switch
  | done
  deriving DecidableEq

/-- Where a task is: outside of the two functions, or in one of them with its argument. -/
inductive JoinPoint
  | outside
  | wait (p : WaitPoint) (task : Nat)
  | exit (p : ExitPoint) (code : Int)
  deriving DecidableEq

/-- The task subsystem and where the tasks are. -/
structure JoinSystem where
  sys : TaskSystem
  point : Nat → JoinPoint
  dispatcher : DispatcherPoint

/-- What can happen: a call of the running task, its next statement, a step of the
dispatcher, a timer tick.  `block` is a suspension for another reason than a join, and
`awake` wakes any task. -/
inductive JoinAction
  | create (granted : Bool)
  | setprio (task : Option Nat) (prio : Int)
  | yield
  | sleep (t : Int)
  | block
  | awake (task : Nat)
  | wait (task : Nat)
  | exit (code : Int)
  | next
  | dispatcher (requests : Nat)
  | tick
  deriving DecidableEq

/-- Where `task_wait` goes on after a statement of `task_suspend`. -/
def SuspendPoint.waitNext : SuspendPoint → WaitPoint
  | .status => .suspend .add
  | .add => .suspend .count
  | .count => .suspend .switch
  | .switch => .back

namespace JoinSystem

variable (j : JoinSystem)

def current : Nat := j.sys.currentActiveTask

/-- The running task is now at `p`. -/
def goto (p : JoinPoint) : JoinSystem := { j with point := Function.update j.point j.current p }

/-- The running task changes its descriptor and is now at `p`. -/
def write (f : Tcb → Tcb) (p : JoinPoint) : JoinSystem :=
  { j.goto p with sys := j.sys.modify j.current f }

/-- The system after the boot. -/
def boot : JoinSystem where
  sys := (Kernel.boot 0 (fun _ _ => 0) fun _ => 0).sys
  point := fun _ => .outside
  dispatcher := .entry

/-- A statement of `task_wait(task)`. -/
def waitStatement (task : Nat) : WaitPoint → JoinSystem
  | .test =>
      j.goto (.wait (if (j.sys.task task).status = .finished then .ret (j.sys.task task).exitCode
        else .target) task)
  | .target =>
      j.write (fun b => { b with targetToWait := (j.sys.task task).id })
        (.wait (.suspend .status) task)
  | .suspend p => { j.goto (.wait p.waitNext task) with sys := suspendStatement .suspended j.sys p }
  | .back => j.goto (.wait (.ret (j.sys.task j.current).targetExitCode) task)
  | .ret _ => j.goto .outside

/-- A statement of `task_exit(exitCode)`. -/
def exitStatement (exitCode : Int) : ExitPoint → Except Fault JoinSystem
  | .time =>
      .ok (j.write (fun b => { b with
        executionTime := addInt b.executionTime (quantum - b.remainingQuantumTime) })
        (.exit .status exitCode))
  | .status => .ok (j.write (fun b => { b with status := .finished }) (.exit .code exitCode))
  | .code => .ok (j.write (fun b => { b with exitCode := exitCode }) (.exit .kernel exitCode))
  | .kernel =>
      .ok (j.goto (if j.current = taskKernel then .outside else .exit .head exitCode))
  | .head =>
      .ok { j.goto (.exit (.test (queueHead (j.sys.queue .suspended)).1) exitCode) with
        sys := j.sys.setQueue .suspended (queueHead (j.sys.queue .suspended)).2 }
  | .test none => .ok (j.goto (.exit .add exitCode))
  | .test (some aux) =>
      .ok (j.goto (.exit (if (j.sys.task aux).targetToWait = (j.sys.task j.current).id
        then .mark aux else .next) exitCode))
  | .mark aux =>
      .ok { j.goto (.exit (.awake aux) exitCode) with
        sys := j.sys.modify aux fun b => { b with targetExitCode := exitCode } }
  | .awake aux => do
      .ok { j.goto (.exit .next exitCode) with sys := ← taskAwake j.sys (some aux) }
  | .next =>
      .ok { j.goto (.exit (.test (j.sys.nextIn .suspended).1) exitCode) with
        sys := (j.sys.nextIn .suspended).2 }
  | .add =>
      .ok { j.goto (.exit .count exitCode) with
        sys := j.sys.setQueue .finished (queueAdd (j.sys.queue .finished) j.current) }
  | .count =>
      .ok { j.goto (.exit .switch exitCode) with
        sys := j.sys.modify taskKernel fun b =>
          { b with numberOfActivations := b.numberOfActivations + 1 } }
  | .switch =>
      .ok { j.goto (.exit .done exitCode) with sys := (taskSwitch j.sys (some taskKernel)).2 }
  | .done => .ok (j.goto .outside)

/-- A call of the running task from its own code. -/
def call : JoinAction → Option (Except Fault JoinSystem)
  | .create granted => some (.ok { j with sys := (taskCreate j.sys granted).2 })
  | .setprio task prio => some do .ok { j with sys := ← schedSetprio j.sys task prio }
  | .yield => some (.ok { j with sys := taskYield j.sys })
  | .sleep t => some (.ok { j with sys := taskSleep j.sys t })
  | .block => some (.ok { j with sys := taskSuspend j.sys .suspended })
  | .awake task => some do .ok { j with sys := ← taskAwake j.sys (some task) }
  | .wait task =>
      if j.current ≠ taskDiskHandler ∧ task ≤ j.sys.currentTaskId then
        some (.ok (j.goto (.wait .test task)))
      else none
  | .exit code =>
      if j.current ≠ taskDiskHandler then some (.ok (j.goto (.exit .time code))) else none
  | .next | .dispatcher _ | .tick => none

/-- The system around its task subsystem. -/
def preemptive : Preemptive JoinSystem where
  sys := JoinSystem.sys
  dispatcher := JoinSystem.dispatcher
  update := fun j S d => { j with sys := S, dispatcher := d }

/-- What an action is to the task subsystem. -/
def kind : JoinAction → StepKind JoinSystem
  | .tick => .tick
  | .dispatcher requests => .dispatcher requests
  | .next =>
      .task (match j.point j.current with
        | .outside => none
        | .wait p task => some (.ok (j.waitStatement task p))
        | .exit p code => some (j.exitStatement code p))
  | a => .task (if j.point j.current = .outside then j.call a else none)

/-- One step that does not abort. -/
def step (a : JoinAction) : Option JoinSystem := preemptive.step j (j.kind a)

end JoinSystem

/-- The test of `task_wait` is over, and the status is still to be written. -/
def WaitPoint.committed : WaitPoint → Bool
  | .target | .suspend .status => true
  | _ => false

/-- `task_wait` has written the status, and has not returned from `task_suspend`. -/
def WaitPoint.marked : WaitPoint → Bool
  | .suspend .status => false
  | .suspend _ | .back => true
  | _ => false

/-- The scan of `suspended_queue` is over. -/
def ExitPoint.scanned : ExitPoint → Bool
  | .add | .count | .switch | .done => true
  | _ => false

/-- Task `w` has found `x` unfinished and is about to suspend itself to wait for it. -/
def JoinSystem.committed (j : JoinSystem) (w x : Nat) : Bool :=
  match j.point w with
  | .wait p y => decide (y = x) && p.committed
  | _ => false

/-- Task `w` is suspended and waits for `x`. -/
def JoinSystem.waiting (j : JoinSystem) (w x : Nat) : Bool :=
  match j.point w with
  | .wait p y => decide (y = x ∧ (j.sys.task w).status = .suspended) && p.marked
  | _ => false

/-- Task `x` is finished and has scanned `suspended_queue`. -/
def JoinSystem.gone (j : JoinSystem) (x : Nat) : Bool :=
  match j.point x with
  | .exit p _ => decide ((j.sys.task x).status = .finished) && p.scanned
  | _ => false

/-- A lost join: `x` has exited, and `w` waits for it or is about to. -/
def LostJoin (w x : Nat) (j : JoinSystem) : Prop :=
  j.gone x = true ∧ (j.committed w x = true ∨ j.waiting w x = true)

/-- Only task `w` calls `task_wait(x)`. -/
def soleWaiter (w x : Nat) (j : JoinSystem) (a : JoinAction) : Bool :=
  decide (a = .wait x → j.current = w)

/-- When `x` executes `status = FINISHED`, task `w` is not between its test and its own
`status = SUSPENDED`. -/
def exitsClear (w x : Nat) (j : JoinSystem) (a : JoinAction) : Bool :=
  match a, j.point j.current with
  | .next, .exit .status _ => decide (j.current = x → j.committed w x = false)
  | _, _ => true

/-! ## The invariant -/

/-- `task_wait` has recorded its target. -/
def WaitPoint.recorded : WaitPoint → Bool
  | .suspend _ | .back => true
  | _ => false

/-- `task_wait` has entered `suspended_queue`. -/
def WaitPoint.entered : WaitPoint → Bool
  | .suspend .count | .suspend .switch | .back => true
  | _ => false

/-- What holds at a statement of `task_exit` of the finished task `x`: until its last
statement it has the CPU, and what it has still to scan has `w` in it, if `w` waits. -/
def ScanAt (w x : Nat) (j : JoinSystem) : ExitPoint → Prop
  | .time | .status => False
  | .code | .kernel | .head => j.current = x
  | .test aux => j.current = x ∧ (j.sys.queue .suspended).rest.head? = aux ∧
      (j.waiting w x = true → w ∈ (j.sys.queue .suspended).rest)
  | .mark t | .awake t => j.current = x ∧ t = w
  | .next => j.current = x ∧
      (j.waiting w x = true → w ∈ (j.sys.queue .suspended).rest.tail)
  | .add | .count | .switch => j.current = x ∧ j.waiting w x = false
  | .done => j.current ≠ x ∧ j.waiting w x = false

/-- The tasks keep apart where they are, `w` is in `suspended_queue` while it waits, and a
finished `x` has met it there or has still to. -/
structure JoinInv (w x : Nat) (j : JoinSystem) : Prop where
  sys : SwitchInv j.sys
  ids : ∀ t ≤ j.sys.currentTaskId, (j.sys.task t).id = t
  once : ∀ t, 2 ≤ t → j.sys.occurs .ready t ≤ 1
  away : ∀ t, 2 ≤ t → j.current = t ∨ (j.sys.task t).status = .suspended ∨
    (j.sys.task t).status = .finished → j.sys.occurs .ready t = 0
  inside : ∀ t, j.point t ≠ .outside → 2 ≤ t ∧ t ≤ j.sys.currentTaskId
  waiter : ∀ t p y, j.point t = .wait p y → y ≤ j.sys.currentTaskId ∧ (y = x → t = w)
  target : x ≠ 0 → ∀ t, (j.sys.task t).targetToWait = x → t = w
  left : ∀ t p y, j.point t = .wait (.suspend p) y → p ≠ .status →
    (j.sys.task t).status = .suspended → j.current = t
  busy : 2 ≤ j.current → (j.sys.task j.current).status = .suspended →
    ∃ p y, p ≠ .status ∧ j.point j.current = .wait (.suspend p) y
  asked : ∀ p, j.point w = .wait p x → p.recorded = true → (j.sys.task w).targetToWait = x
  queued : ∀ p, j.point w = .wait p x → p.entered = true →
    (j.sys.task w).status = .suspended → 0 < j.sys.occurs .suspended w
  clear : (j.sys.task x).status = .finished → j.committed w x = false
  scan : (j.sys.task x).status = .finished → ∃ p c, j.point x = .exit p c ∧ ScanAt w x j p

variable {w x t : Nat} {j j' : JoinSystem} {S S' T : TaskSystem} {a : JoinAction}

/-- Whether a task is about to wait depends on where it is. -/
theorem committed_congr (hp : j'.point w = j.point w) : j'.committed w x = j.committed w x := by
  unfold JoinSystem.committed
  rw [hp]

/-- A task that waits after it was left alone or woken waited before. -/
theorem Kept.waiting (j' : JoinSystem) (h : Kept j.sys j'.sys w) (hp : j'.point w = j.point w)
    (hw : j'.waiting w x = true) : j.waiting w x = true := by
  unfold JoinSystem.waiting at hw ⊢
  rw [hp] at hw
  cases hpoint : j.point w with
  | outside | exit _ _ =>
      rw [hpoint] at hw
      exact absurd hw (by simp)
  | wait p y =>
      rw [hpoint] at hw
      simp only [Bool.and_eq_true, decide_eq_true_eq] at hw ⊢
      exact ⟨⟨hw.1.1, h.woken.suspended hw.1.2⟩, hw.2⟩

/-- **The running task moves** to `q`; the others are left alone or woken. -/
theorem JoinInv.moves (h : JoinInv w x j) {q : JoinPoint} (hsys : SwitchInv j'.sys)
    (hn : j'.sys.currentTaskId = j.sys.currentTaskId)
    (hcur : j'.current = j.current ∨ j'.current = 0)
    (hpoint : j'.point = Function.update j.point j.current q)
    (hothers : ∀ t, t ≠ j.current → Kept j.sys j'.sys t)
    (hid : (j'.sys.task j.current).id = (j.sys.task j.current).id)
    (hin : q ≠ .outside → 2 ≤ j.current)
    (hready : 2 ≤ j.current → j'.sys.occurs .ready j.current = 0 ∨
      ((j'.sys.task j.current).status = .ready ∧ j'.current = 0 ∧
        j'.sys.occurs .ready j.current ≤ 1))
    (hwait : ∀ p y, q = .wait p y → y ≤ j.sys.currentTaskId ∧ (y = x → j.current = w))
    (htarget : x ≠ 0 → (j'.sys.task j.current).targetToWait = x → j.current = w)
    (hleft : ∀ p y, q = .wait (.suspend p) y → p ≠ .status →
      (j'.sys.task j.current).status = .suspended → j'.current = j.current)
    (hbusy : 2 ≤ j.current → j'.current = j.current →
      (j'.sys.task j.current).status = .suspended →
        ∃ p y, p ≠ .status ∧ q = .wait (.suspend p) y)
    (hw : j.current = w → ∀ p, q = .wait p x →
      (p.recorded = true → (j'.sys.task w).targetToWait = x) ∧
      (p.entered = true → (j'.sys.task w).status = .suspended → 0 < j'.sys.occurs .suspended w))
    (hx : j.current = x → (j'.sys.task x).status = .finished →
      j'.committed w x = false ∧ ∃ p c, q = .exit p c ∧ ScanAt w x j' p)
    (hgone : j.current = w → j.current ≠ x → (j.sys.task x).status = .finished →
      j.committed w x = false → j.waiting w x = false →
        j'.committed w x = false ∧ j'.waiting w x = false) : JoinInv w x j' := by
  have hat : j'.point j.current = q := by rw [hpoint, Function.update_self]
  have hsame : ∀ t, t ≠ j.current → j'.point t = j.point t := fun t ht => by
    rw [hpoint, Function.update_of_ne ht]
  have hle := h.sys.current
  -- what a task that was already gone leaves behind
  have hrest : j.current ≠ x → (j'.sys.task x).status = .finished →
      (j.sys.task x).status = .finished ∧ j'.committed w x = false ∧
        j'.waiting w x = false ∧ ∃ c, j'.point x = .exit .done c := by
    intro hne hfin
    have hfin' := (hothers x (Ne.symm hne)).woken.finished.mp hfin
    obtain ⟨p, c, hp, hscan⟩ := h.scan hfin'
    have hdone : p = .done ∧ j.waiting w x = false := by
      cases p with
      | done => exact ⟨rfl, hscan.2⟩
      | time | status => exact hscan.elim
      | code | kernel | head => exact absurd hscan hne
      | test _ | mark _ | awake _ | next | add | count | switch => exact absurd hscan.1 hne
    obtain ⟨rfl, hnot⟩ := hdone
    refine ⟨hfin', ?_⟩
    by_cases hwc : j.current = w
    · obtain ⟨hcommitted, hwaiting⟩ := hgone hwc hne hfin' (h.clear hfin') hnot
      exact ⟨hcommitted, hwaiting, c, (hsame x (Ne.symm hne)).trans hp⟩
    · have hpw := hsame w (Ne.symm hwc)
      refine ⟨(committed_congr hpw).trans (h.clear hfin'), ?_, c,
        (hsame x (Ne.symm hne)).trans hp⟩
      by_contra hyes
      have hold := (hothers w (Ne.symm hwc)).waiting _ hpw (Bool.eq_true_of_not_eq_false hyes)
      exact absurd (hold.symm.trans hnot) (by decide)
  refine ⟨hsys, fun t ht => ?_, fun t ht => ?_, fun t ht hor => ?_, fun t ht => ?_,
    fun t p y hp => ?_, fun hx0 t ht => ?_, fun t p y hp hne hs => ?_, fun hlo hs => ?_,
    fun p hp hr => ?_, fun p hp hr hs => ?_, fun hfin => ?_, fun hfin => ?_⟩
  · rw [hn] at ht
    by_cases htc : t = j.current
    · rw [htc, hid]
      exact h.ids _ hle
    · rw [(hothers t htc).id]
      exact h.ids t ht
  · by_cases htc : t = j.current
    · rw [htc] at ht ⊢
      rcases hready ht with hzero | ⟨-, -, hone⟩
      · omega
      · exact hone
    · rcases (hothers t htc).woken.occurs with hle' | ⟨hsusp, -, hle'⟩
      · exact Nat.le_trans hle' (h.once t ht)
      · have hzero := h.away t ht (Or.inr (Or.inl hsusp))
        omega
  · by_cases htc : t = j.current
    · rw [htc] at ht hor ⊢
      rcases hready ht with hzero | ⟨hs, h0, -⟩
      · exact hzero
      · rcases hor with hc | hs' | hs'
        · omega
        · exact absurd (hs.symm.trans hs') (by decide)
        · exact absurd (hs.symm.trans hs') (by decide)
    · have hk := (hothers t htc).woken
      have hor' : (j.sys.task t).status = .suspended ∨ (j.sys.task t).status = .finished := by
        rcases hor with hc | hs | hs
        · rcases hcur with hsame' | h0
          · exact absurd (hc.symm.trans hsame') htc
          · omega
        · exact Or.inl (hk.suspended hs)
        · exact Or.inr (hk.finished.mp hs)
      have hzero := h.away t ht (Or.inr hor')
      rcases hk.occurs with hle' | ⟨-, his, -⟩
      · omega
      · rcases hor with hc | hs | hs
        · rcases hcur with hsame' | h0
          · exact absurd (hc.symm.trans hsame') htc
          · omega
        · exact absurd (his.symm.trans hs) (by decide)
        · exact absurd (his.symm.trans hs) (by decide)
  · rw [hn]
    by_cases htc : t = j.current
    · rw [htc] at ht ⊢
      rw [hat] at ht
      exact ⟨hin ht, hle⟩
    · rw [hsame t htc] at ht
      exact h.inside t ht
  · rw [hn]
    by_cases htc : t = j.current
    · rw [htc, hat] at hp
      rw [htc]
      exact hwait p y hp
    · rw [hsame t htc] at hp
      exact h.waiter t p y hp
  · by_cases htc : t = j.current
    · rw [htc] at ht ⊢
      exact htarget hx0 ht
    · rw [(hothers t htc).target] at ht
      exact h.target hx0 t ht
  · by_cases htc : t = j.current
    · rw [htc] at hp hs ⊢
      rw [hat] at hp
      exact hleft p y hp hne hs
    · rw [hsame t htc] at hp
      exact absurd (h.left t p y hp hne ((hothers t htc).woken.suspended hs)).symm htc
  · rcases hcur with hsame' | h0
    · rw [hsame'] at hlo hs ⊢
      rw [hat]
      exact hbusy hlo hsame' hs
    · omega
  · by_cases hwc : j.current = w
    · rw [← hwc, hat] at hp
      exact (hw hwc p hp).1 hr
    · rw [hsame w (Ne.symm hwc)] at hp
      rw [(hothers w (Ne.symm hwc)).target]
      exact h.asked p hp hr
  · by_cases hwc : j.current = w
    · rw [← hwc, hat] at hp
      exact (hw hwc p hp).2 hr hs
    · rw [hsame w (Ne.symm hwc)] at hp
      have hk := hothers w (Ne.symm hwc)
      exact hk.queued .suspended hs (h.queued p hp hr (hk.woken.suspended hs))
  · by_cases hxc : j.current = x
    · exact (hx hxc hfin).1
    · exact (hrest hxc hfin).2.1
  · by_cases hxc : j.current = x
    · obtain ⟨-, p, c, hp, hscan⟩ := hx hxc hfin
      refine ⟨p, c, ?_, hscan⟩
      rw [← hxc, hat]
      exact hp
    · obtain ⟨-, -, hnot, c, hp⟩ := hrest hxc hfin
      refine ⟨.done, c, hp, fun heq => ?_, hnot⟩
      rcases hcur with hsame' | h0
      · exact hxc (hsame'.symm.trans heq)
      · have hlo := (h.inside x (by
          rw [← hsame x (Ne.symm hxc), hp]
          simp)).1
        omega

/-- Nobody waits who is not suspended. -/
theorem waiting_of_status (hs : (j.sys.task w).status ≠ .suspended) : j.waiting w x = false := by
  unfold JoinSystem.waiting
  cases j.point w with
  | outside | exit _ _ => rfl
  | wait p y => simp [hs]

/-- A finished task is gone once another has the CPU. -/
theorem JoinInv.done (h : JoinInv w x j) (hfin : (j.sys.task x).status = .finished)
    (hx : j.current ≠ x) : j.waiting w x = false ∧ ∃ c, j.point x = .exit .done c := by
  obtain ⟨p, c, hp, hscan⟩ := h.scan hfin
  cases p with
  | done => exact ⟨hscan.2, c, hp⟩
  | time | status => exact hscan.elim
  | code | kernel | head => exact absurd hscan hx
  | test _ | mark _ | awake _ | next | add | count | switch => exact absurd hscan.1 hx

theorem JoinInv.dispatches {d : DispatcherPoint} (h : JoinInv w x j) (hc : j.current = 0)
    (ht : 0 < j.sys.occurs .ready t) (hd : Dispatches j.sys S t) :
    JoinInv w x { j with sys := S, dispatcher := d } := by
  have hmem : t ∈ j.sys.inQueue .ready := List.count_pos_iff.mp ht
  have ht0 : t ≠ 0 := fun heq => h.sys.kernelOut (heq ▸ hmem)
  have htask : ∀ y, (S.task y).id = (j.sys.task y).id ∧
      (S.task y).targetToWait = (j.sys.task y).targetToWait ∧
      (y ≠ t → (S.task y).status = (j.sys.task y).status) := by
    intro y
    by_cases hy : y = t
    · rw [hy, hd.task]
      exact ⟨rfl, rfl, fun hne => absurd rfl hne⟩
    · rw [hd.others y hy]
      exact ⟨rfl, rfl, fun _ => rfl⟩
  have hrun : (S.task t).status = .running := by rw [hd.task]
  have hstatus : ∀ y, (S.task y).status ≠ .running → y ≠ t ∧
      (j.sys.task y).status = (S.task y).status := by
    intro y hy
    have hyt : y ≠ t := fun heq => hy (heq ▸ hrun)
    exact ⟨hyt, ((htask y).2.2 hyt).symm⟩
  have hready : ∀ y, S.occurs .ready y ≤ j.sys.occurs .ready y := fun y => by
    rw [hd.occurs]
    exact Nat.sub_le _ _
  have hwaiting : JoinSystem.waiting { j with sys := S, dispatcher := d } w x = true →
      j.waiting w x = true := by
    intro hw
    by_cases hwt : w = t
    · have hnot := waiting_of_status (j := { j with sys := S, dispatcher := d }) (w := w) (x := x)
        (by
          change (S.task w).status ≠ .suspended
          rw [hwt, hrun]
          decide)
      exact absurd (hw.symm.trans hnot) (by decide)
    · exact Kept.waiting { j with sys := S, dispatcher := d }
        (.of_same (htask w).1 (htask w).2.1 ((htask w).2.2 hwt) fun i => by
          change S.occurs i w = _
          rw [hd.occurs, if_neg fun hand => hwt hand.2, Nat.sub_zero]) rfl hw
  refine ⟨h.sys.dispatches hmem hd, fun y hy => ?_, fun y hy => ?_, fun y hy hor => ?_,
    fun y hy => ?_, fun y p z hp => ?_, fun hx0 y hy => ?_, fun y p z hp hne hs => ?_,
    fun _ hs => ?_, fun p hp hr => ?_, fun p hp hr hs => ?_, fun hfin => ?_, fun hfin => ?_⟩
  · rw [(htask y).1]
    exact h.ids y (hd.currentTaskId ▸ hy)
  · exact Nat.le_trans (hready y) (h.once y hy)
  · by_cases hyt : y = t
    · have hone := h.once y hy
      change S.occurs .ready y = 0
      rw [hd.occurs, if_pos ⟨rfl, hyt⟩]
      omega
    · have hor' := hor.resolve_left fun hc' => hyt (hc'.symm.trans hd.current)
      have hzero := h.away y hy (Or.inr (by
        rw [← (htask y).2.2 hyt]
        exact hor'))
      have hle := hready y
      change S.occurs .ready y = 0
      omega
  · exact ⟨(h.inside y hy).1, hd.currentTaskId ▸ (h.inside y hy).2⟩
  · exact ⟨hd.currentTaskId ▸ (h.waiter y p z hp).1, (h.waiter y p z hp).2⟩
  · rw [(htask y).2.1] at hy
    exact h.target hx0 y hy
  · obtain ⟨-, hs'⟩ := hstatus y (by rw [hs]; decide)
    have hlo := (h.inside y (by rw [show j.point y = _ from hp]; simp)).1
    have hcy := h.left y p z hp hne (hs'.trans hs)
    omega
  · have hcur : S.currentActiveTask = t := hd.current
    change (S.task S.currentActiveTask).status = .suspended at hs
    rw [hcur, hrun] at hs
    exact absurd hs (by decide)
  · rw [(htask w).2.1]
    exact h.asked p hp hr
  · obtain ⟨hwt, hs'⟩ := hstatus w (by rw [hs]; decide)
    change 0 < S.occurs .suspended w
    rw [hd.occurs, if_neg fun hand => hwt hand.2]
    exact h.queued p hp hr (hs'.trans hs)
  · obtain ⟨-, hs'⟩ := hstatus x (by rw [hfin]; decide)
    exact h.clear (hs'.trans hfin)
  · obtain ⟨hxt, hs'⟩ := hstatus x (by rw [hfin]; decide)
    have hfin' := hs'.trans hfin
    obtain ⟨p, c, hp, -⟩ := h.scan hfin'
    have hx2 := (h.inside x (by rw [hp]; simp)).1
    obtain ⟨hnot, c, hp⟩ := h.done hfin' (by omega)
    refine ⟨.done, c, hp, fun heq => hxt (heq.symm.trans hd.current), ?_⟩
    by_contra hyes
    have hold := hwaiting (Bool.eq_true_of_not_eq_false hyes)
    exact absurd (hold.symm.trans hnot) (by decide)

theorem JoinInv.creates {d : DispatcherPoint} (h : JoinInv w x j)
    (hout : j.point j.current = .outside) (hc : Creates j.sys S) :
    JoinInv w x { j with sys := S, dispatcher := d } := by
  have hle := h.sys.current
  have hold : ∀ y, y ≠ j.sys.currentTaskId + 1 → Kept j.sys S y := by
    intro y hy
    have htask := hc.others y hy
    exact .of_same (by rw [htask]) (by rw [htask]) (by rw [htask]) fun i => by
      rw [hc.occurs, if_neg fun hand => hy hand.2, Nat.add_zero]
  have hnew : ∀ {y}, j.point y ≠ .outside → y ≠ j.sys.currentTaskId + 1 := by
    intro y hy
    have := (h.inside y hy).2
    omega
  have hfresh : (S.task (j.sys.currentTaskId + 1)).status = .ready := by
    rw [hc.task]
    rfl
  have hstatus : ∀ y, (S.task y).status ≠ .ready → y ≠ j.sys.currentTaskId + 1 :=
    fun y hy heq => hy (heq ▸ hfresh)
  have hnone : j.sys.occurs .ready (j.sys.currentTaskId + 1) = 0 := by
    by_contra hne
    have hin := h.sys.ready _ (List.count_pos_iff.mp (Nat.pos_of_ne_zero hne))
    omega
  have hcurrent : S.currentActiveTask = j.sys.currentActiveTask := hc.current
  refine ⟨h.sys.creates hc, fun y hy => ?_, fun y hy => ?_, fun y hy hor => ?_,
    fun y hy => ?_, fun y p z hp => ?_, fun hx0 y hy => ?_, fun y p z hp hne hs => ?_,
    fun hlo hs => ?_, fun p hp hr => ?_, fun p hp hr hs => ?_, fun hfin => ?_, fun hfin => ?_⟩
  · by_cases hyn : y = j.sys.currentTaskId + 1
    · rw [hyn]
      change (S.task (j.sys.currentTaskId + 1)).id = _
      rw [hc.task]
    · rw [(hold y hyn).id]
      have hy' : y ≤ j.sys.currentTaskId + 1 := hc.currentTaskId ▸ hy
      exact h.ids y (by omega)
  · by_cases hyn : y = j.sys.currentTaskId + 1
    · change S.occurs .ready y ≤ 1
      rw [hyn, hc.occurs, hnone]
      simp
    · change S.occurs .ready y ≤ 1
      rw [hc.occurs, if_neg fun hand => hyn hand.2]
      exact h.once y hy
  · have hyn : y ≠ j.sys.currentTaskId + 1 := by
      rcases hor with hcy | hs | hs
      · have : j.sys.currentActiveTask = y := hcurrent.symm.trans hcy
        omega
      · exact hstatus y (by rw [hs]; decide)
      · exact hstatus y (by rw [hs]; decide)
    change S.occurs .ready y = 0
    rw [hc.occurs, if_neg fun hand => hyn hand.2, Nat.add_zero]
    apply h.away y hy
    rw [← hc.others y hyn]
    exact hor.imp hcurrent.symm.trans id
  · have hin := h.inside y hy
    refine ⟨hin.1, ?_⟩
    change y ≤ S.currentTaskId
    rw [hc.currentTaskId]
    omega
  · obtain ⟨hz, hzw⟩ := h.waiter y p z hp
    refine ⟨?_, hzw⟩
    change z ≤ S.currentTaskId
    rw [hc.currentTaskId]
    omega
  · by_cases hyn : y = j.sys.currentTaskId + 1
    · change (S.task y).targetToWait = x at hy
      rw [hyn, hc.task] at hy
      exact absurd hy.symm hx0
    · rw [(hold y hyn).target] at hy
      exact h.target hx0 y hy
  · have hyn := hstatus y (by rw [hs]; decide)
    exact hcurrent.trans (h.left y p z hp hne ((hold y hyn).woken.suspended hs))
  · have hlo' : 2 ≤ j.sys.currentActiveTask := hcurrent ▸ hlo
    change (S.task S.currentActiveTask).status = .suspended at hs
    rw [hcurrent] at hs
    obtain ⟨p, z, -, hp⟩ := h.busy hlo'
      ((hold j.sys.currentActiveTask (by omega)).woken.suspended hs)
    exact absurd (hout.symm.trans hp) (by simp)
  · rw [(hold w (hnew (by rw [show j.point w = _ from hp]; simp))).target]
    exact h.asked p hp hr
  · have hk := hold w (hnew (by rw [show j.point w = _ from hp]; simp))
    exact hk.queued .suspended hs (h.queued p hp hr (hk.woken.suspended hs))
  · have hxn := hstatus x (by rw [hfin]; decide)
    exact h.clear ((hold x hxn).woken.finished.mp hfin)
  · have hxn := hstatus x (by rw [hfin]; decide)
    have hfin' := (hold x hxn).woken.finished.mp hfin
    have hcx : j.current ≠ x := by
      intro heq
      obtain ⟨p, c, hp, -⟩ := h.scan hfin'
      rw [← heq, hout] at hp
      exact absurd hp (by simp)
    obtain ⟨hnot, c, hp⟩ := h.done hfin' hcx
    refine ⟨.done, c, hp, fun heq => hcx (hcurrent.symm.trans heq), ?_⟩
    by_contra hyes
    by_cases hwn : w = j.sys.currentTaskId + 1
    · refine hyes (waiting_of_status ?_)
      change (S.task w).status ≠ .suspended
      rw [hwn, hfresh]
      decide
    · have hold' := (hold w hwn).waiting { j with sys := S, dispatcher := d } rfl
        (Bool.eq_true_of_not_eq_false hyes)
      exact absurd (hold'.symm.trans hnot) (by decide)

/-! ## Steps of the kernel -/

/-- The task that has the CPU stays where it is. -/
theorem point_same (j : JoinSystem) :
    j.point = Function.update j.point j.current (j.point j.current) :=
  (Function.update_eq_self _ _).symm

/-- **Wake-ups** from outside of the two functions, in a step that keeps the CPU. -/
theorem JoinInv.calm {d : DispatcherPoint} (h : JoinInv w x j) (hsys : SwitchInv S)
    (hout : j.point j.current = .outside) (hcur : S.currentActiveTask = j.sys.currentActiveTask)
    (hn : S.currentTaskId = j.sys.currentTaskId) (hk : ∀ t, Kept j.sys S t) :
    JoinInv w x { j with sys := S, dispatcher := d } := by
  have hawake : 2 ≤ j.current → (j.sys.task j.current).status ≠ .suspended := by
    intro hlo hs
    obtain ⟨p, y, -, hp⟩ := h.busy hlo hs
    exact absurd (hout.symm.trans hp) (by simp)
  have hnone : ∀ {p : JoinPoint}, p ≠ .outside → j.point j.current = p → False :=
    fun hne hp => hne (hp.symm.trans hout)
  refine h.moves (q := j.point j.current) hsys hn (Or.inl hcur) (point_same j) (fun t _ => hk t)
    (hk _).id (fun hne => absurd hout hne) (fun hlo => Or.inl ?_) (fun p y hp => ?_)
    (fun hx0 ht => ?_) (fun p y hp => ?_) (fun hlo _ hs => ?_) (fun _ p hp => ?_)
    (fun hxc hfin => ?_) fun hwc _ _ _ _ => ?_
  · have hzero := h.away j.current hlo (Or.inl rfl)
    rcases (hk j.current).woken.occurs with hle | ⟨hwas, -, -⟩
    · exact Nat.le_zero.mp (hzero ▸ hle)
    · exact absurd hwas (hawake hlo)
  · exact (hnone (by simp) hp).elim
  · exact h.target hx0 _ ((hk _).target.symm.trans ht)
  · exact (hnone (by simp) hp).elim
  · exact absurd ((hk _).woken.suspended hs) (hawake hlo)
  · exact (hnone (by simp) hp).elim
  · obtain ⟨p, c, hp, -⟩ := h.scan ((hk x).woken.finished.mp hfin)
    rw [← hxc] at hp
    exact (hnone (by simp) hp).elim
  · have hpoint : j.point w = .outside := hwc ▸ hout
    constructor
    · simp [JoinSystem.committed, hpoint]
    · simp [JoinSystem.waiting, hpoint]

/-- **The running task yields**, wherever it is. -/
theorem JoinInv.yields {b : Tcb} (h : JoinInv w x j) (hl : Leaves j.sys S b .ready)
    (hsys : SwitchInv S) (hb : b.status = .ready)
    (hid : b.id = (j.sys.task j.current).id)
    (htarget : b.targetToWait = (j.sys.task j.current).targetToWait) :
    JoinInv w x { j with sys := S } := by
  have htask : S.task j.current = b := hl.task
  have hstatus : (S.task j.current).status = .ready := htask ▸ hb
  have hnot : ∀ {s : Status}, s ≠ .ready → (S.task j.current).status ≠ s :=
    fun hs heq => hs (heq.symm.trans hstatus)
  refine h.moves (q := j.point j.current) hsys hl.currentTaskId (Or.inr hl.current) (point_same j)
    (fun t ht => hl.kept ht) (htask ▸ hid) (fun hne => (h.inside _ hne).1)
    (fun hlo => Or.inr ⟨hstatus, hl.current, ?_⟩) (fun p y hp => h.waiter _ p y hp)
    (fun hx0 ht => h.target hx0 _ (htarget ▸ htask ▸ ht)) (fun p y _ _ hs => ?_)
    (fun _ _ hs => ?_) (fun hwc p hp => ⟨fun hr => ?_, fun _ hs => ?_⟩)
    (fun hxc hfin => ?_) fun hwc _ _ hcommitted _ => ⟨?_, ?_⟩
  · change S.occurs .ready j.current ≤ 1
    rw [hl.occurs, h.away j.current hlo (Or.inl rfl)]
    split <;> omega
  · exact absurd hs (hnot (by decide))
  · exact absurd hs (hnot (by decide))
  · rw [hwc] at hp htask htarget
    change (S.task w).targetToWait = x
    rw [htask, htarget]
    exact h.asked p hp hr
  · exact absurd hs (hwc ▸ hnot (by decide))
  · exact absurd hfin (hxc ▸ hnot (by decide))
  · exact hcommitted
  · exact waiting_of_status (hwc ▸ hnot (by decide))

/-- **A suspension** for another reason than a join. -/
theorem JoinInv.suspends {b : Tcb} {i : QueueId} (h : JoinInv w x j)
    (hout : j.point j.current = .outside)
    (hl : Leaves j.sys S b i) (hi : i ≠ .ready) (hsys : SwitchInv S) (hb : b.status = .suspended)
    (hid : b.id = (j.sys.task j.current).id)
    (htarget : b.targetToWait = (j.sys.task j.current).targetToWait) :
    JoinInv w x { j with sys := S } := by
  have htask : S.task j.current = b := hl.task
  have hnone : ∀ {p : JoinPoint}, p ≠ .outside → j.point j.current = p → False :=
    fun hne hp => hne (hp.symm.trans hout)
  refine h.moves (q := j.point j.current) hsys hl.currentTaskId (Or.inr hl.current) (point_same j)
    (fun t ht => hl.kept ht) (htask ▸ hid) (fun hne => absurd hout hne) (fun hlo => Or.inl ?_)
    (fun p y hp => (hnone (by simp) hp).elim)
    (fun hx0 ht => h.target hx0 _ (htarget ▸ htask ▸ ht))
    (fun p y hp => (hnone (by simp) hp).elim) (fun hlo heq _ => ?_)
    (fun _ p hp => (hnone (by simp) hp).elim) (fun hxc hfin => ?_) fun hwc _ _ _ _ => ?_
  · change S.occurs .ready j.current = 0
    rw [hl.occurs, h.away j.current hlo (Or.inl rfl), if_neg fun hand => hi hand.1.symm]
  · have h0 : (0 : Nat) = j.current := hl.current.symm.trans heq
    omega
  · change (S.task x).status = .finished at hfin
    rw [← hxc, htask, hb] at hfin
    exact absurd hfin (by decide)
  · have hpoint : j.point w = .outside := hwc ▸ hout
    constructor
    · simp [JoinSystem.committed, hpoint]
    · simp [JoinSystem.waiting, hpoint]

/-- The scan goes on where nothing that it looks at has changed. -/
theorem ScanAt.congr (j' : JoinSystem) {p : ExitPoint} (h : ScanAt w x j p)
    (hcur : j'.current = j.current)
    (hq : j'.sys.queue .suspended = j.sys.queue .suspended)
    (hw : j'.waiting w x = true → j.waiting w x = true) : ScanAt w x j' p := by
  have hnot : j.waiting w x = false → j'.waiting w x = false := by
    intro hno
    by_contra hyes
    exact absurd ((hw (Bool.eq_true_of_not_eq_false hyes)).symm.trans hno) (by decide)
  cases p with
  | time | status => exact h
  | code | kernel | head => exact hcur.trans h
  | test aux =>
      obtain ⟨hc, hhead, hin⟩ := h
      exact ⟨hcur.trans hc, hq ▸ hhead, fun hyes => hq ▸ hin (hw hyes)⟩
  | mark t | awake t => exact ⟨hcur.trans h.1, h.2⟩
  | next => exact ⟨hcur.trans h.1, fun hyes => hq ▸ h.2 (hw hyes)⟩
  | add | count | switch => exact ⟨hcur.trans h.1, hnot h.2⟩
  | done => exact ⟨hcur ▸ h.1, hnot h.2⟩

/-- A tick that leaves the running task its CPU. -/
theorem JoinInv.ticked (h : JoinInv w x j) : JoinInv w x { j with sys := j.sys.ticked } := by
  have hk : ∀ t, Kept j.sys j.sys.ticked t := by
    intro t
    by_cases ht : t = j.sys.currentActiveTask
    · subst ht
      exact .of_same (by simp [TaskSystem.ticked]) (by simp [TaskSystem.ticked])
        (by simp [TaskSystem.ticked]) fun _ => rfl
    · have htask : j.sys.ticked.task t = j.sys.task t := by
        simp [TaskSystem.ticked, Function.update_of_ne ht]
      exact .of_same (by rw [htask]) (by rw [htask]) (by rw [htask]) fun _ => rfl
  have hwaiting : ∀ {y}, JoinSystem.waiting { j with sys := j.sys.ticked } w y = true →
      j.waiting w y = true := fun hyes =>
    Kept.waiting { j with sys := j.sys.ticked } (hk w) rfl hyes
  refine h.moves (q := j.point j.current) h.sys.ticked rfl (Or.inl rfl) (point_same j)
    (fun t _ => hk t) (hk _).id (fun hne => (h.inside _ hne).1)
    (fun hlo => Or.inl (h.away _ hlo (Or.inl rfl))) (fun p y hp => h.waiter _ p y hp)
    (fun hx0 ht => h.target hx0 _ ((hk _).target.symm.trans ht)) (fun _ _ _ _ _ => rfl)
    (fun hlo _ hs => h.busy hlo ((hk _).woken.suspended hs))
    (fun hwc p hp => ⟨fun hr => ?_, fun hr hs => ?_⟩) (fun hxc hfin => ?_)
    fun _ hne hfin hcommitted hnot => ⟨hcommitted, ?_⟩
  · rw [(hk w).target]
    exact h.asked p (hwc ▸ hp) hr
  · exact h.queued p (hwc ▸ hp) hr ((hk w).woken.suspended hs)
  · have hfin' := (hk x).woken.finished.mp hfin
    obtain ⟨p, c, hp, hscan⟩ := h.scan hfin'
    exact ⟨h.clear hfin', p, c, hxc ▸ hp,
      hscan.congr { j with sys := j.sys.ticked } rfl rfl hwaiting⟩
  · by_contra hyes
    exact absurd ((hwaiting (Bool.eq_true_of_not_eq_false hyes)).symm.trans hnot) (by decide)

/-- **A timer tick**, wherever it comes. -/
theorem JoinInv.tick (h : JoinInv w x j) :
    JoinInv w x { j with sys := handleTimerSignal j.sys } := by
  rw [tick_eq]
  split
  · have ht := h.ticked
    by_cases hc : j.current = 0
    · have hout : j.point j.current = .outside := by
        by_contra hne
        have := (h.inside _ hne).1
        omega
      have hquiet := quiet_taskYield ht.sys.kernelReady hc
      exact ht.calm ht.sys.yield hout hquiet.current hquiet.currentTaskId hquiet.kept
    · exact ht.yields (leaves_taskYield ht.sys.kernelReady hc) ht.sys.yield rfl rfl rfl
  · exact h.ticked

/-! ## Statements -/

/-- **A statement of `task_wait`**, but its return. -/
theorem JoinInv.inWait (h : JoinInv w x j) {p p' : WaitPoint} {y : Nat}
    (hp : j.point j.current = .wait p y)
    (hpoint : j'.point = Function.update j.point j.current (.wait p' y))
    (hsys : SwitchInv j'.sys) (hn : j'.sys.currentTaskId = j.sys.currentTaskId)
    (hcur : j'.current = j.current ∨ j'.current = 0)
    (hothers : ∀ t, t ≠ j.current → Kept j.sys j'.sys t)
    (hid : (j'.sys.task j.current).id = (j.sys.task j.current).id)
    (hready : j'.sys.occurs .ready j.current = j.sys.occurs .ready j.current)
    (htarget : (j'.sys.task j.current).targetToWait = (j.sys.task j.current).targetToWait ∨
      (j'.sys.task j.current).targetToWait = y)
    (hstatus : (j'.sys.task j.current).status = (j.sys.task j.current).status ∨
      (j'.sys.task j.current).status = .suspended)
    (hleft : ∀ r, p' = .suspend r → r ≠ .status →
      (j'.sys.task j.current).status = .suspended → j'.current = j.current)
    (hbusy : j'.current = j.current → (j'.sys.task j.current).status = .suspended →
      ∃ r, r ≠ .status ∧ p' = .suspend r)
    (hw : j.current = w → y = x → (p'.recorded = true → (j'.sys.task w).targetToWait = x) ∧
      (p'.entered = true → (j'.sys.task w).status = .suspended → 0 < j'.sys.occurs .suspended w))
    (hgone : j.current = w → y = x → (j.sys.task x).status = .finished → p.committed = false →
      (p.marked = true → (j.sys.task w).status ≠ .suspended) →
        p'.committed = false ∧ (p'.marked = true → (j'.sys.task w).status ≠ .suspended)) :
    JoinInv w x j' := by
  have hlo := (h.inside j.current (by rw [hp]; simp)).1
  have hwaits := h.waiter _ p y hp
  have hat : ∀ {z}, j.current = z → j'.point z = .wait p' y := fun hz => by
    rw [hpoint, hz, Function.update_self]
  have hunfinished : j.current = x → (j.sys.task x).status ≠ .finished := by
    intro hxc hfin
    obtain ⟨r, c, hr, -⟩ := h.scan hfin
    rw [← hxc, hp] at hr
    exact absurd hr (by simp)
  refine h.moves hsys hn hcur hpoint hothers hid (fun _ => hlo)
    (fun _ => Or.inl (hready.trans (h.away _ hlo (Or.inl rfl)))) (fun r z hr => ?_)
    (fun hx0 ht => ?_) (fun r z hr hne hs => ?_) (fun _ hc hs => ?_) (fun hwc r hr => ?_)
    (fun hxc hfin => ?_) fun hwc _ hfin hcommitted hwaiting => ?_
  · obtain ⟨-, rfl⟩ := JoinPoint.wait.inj hr
    exact hwaits
  · rcases htarget with hsame | hy
    · exact h.target hx0 _ (hsame.symm.trans ht)
    · exact hwaits.2 (hy.symm.trans ht)
  · exact hleft r (JoinPoint.wait.inj hr).1 hne hs
  · obtain ⟨r, hne, hr⟩ := hbusy hc hs
    exact ⟨r, y, hne, by rw [hr]⟩
  · obtain ⟨rfl, rfl⟩ := JoinPoint.wait.inj hr
    exact hw hwc rfl
  · rcases hstatus with hsame | hs
    · exact absurd (hxc ▸ hsame.symm.trans (hxc ▸ hfin)) (hunfinished hxc)
    · exact absurd ((hxc ▸ hs).symm.trans hfin) (by decide)
  · simp only [JoinSystem.committed, JoinSystem.waiting] at hcommitted hwaiting ⊢
    rw [hat hwc]
    rw [hwc] at hp
    rw [hp] at hcommitted hwaiting
    by_cases hy : y = x
    · obtain ⟨hc, hm⟩ := hgone hwc hy hfin (by simpa [hy] using hcommitted)
        (fun hm hs => by simp [hy, hs, hm] at hwaiting)
      refine ⟨by simp [hc], ?_⟩
      cases hmarked : p'.marked with
      | false => simp [hmarked]
      | true => simp [hm hmarked]
    · simp [hy]

/-- The task that has the CPU and is not in `task_suspend` is not suspended. -/
theorem JoinInv.awake (h : JoinInv w x j) (hin : j.point j.current ≠ .outside)
    (hp : ∀ p y, j.point j.current ≠ .wait (.suspend p) y) :
    (j.sys.task j.current).status ≠ .suspended := by
  intro hs
  obtain ⟨p, y, -, hpoint⟩ := h.busy (h.inside _ hin).1 hs
  exact hp p y hpoint

/-- The running task goes on in `task_wait`, and changes nothing else. -/
theorem JoinInv.gotoWait (h : JoinInv w x j) {p p' : WaitPoint} {y : Nat}
    (hp : j.point j.current = .wait p y) (hsusp : ∀ r, p ≠ .suspend r)
    (hrecorded : p'.recorded = false) (hentered : p'.entered = false)
    (hmarked : p'.marked = false)
    (hgone : (j.sys.task y).status = .finished → p'.committed = false) :
    JoinInv w x (j.goto (.wait p' y)) := by
  have hawake := h.awake (by rw [hp]; simp) fun r z hr => by
    rw [hp] at hr
    exact hsusp r (JoinPoint.wait.inj hr).1
  refine h.inWait hp rfl h.sys rfl (Or.inl rfl) (fun t _ => Kept.refl _ t) rfl rfl (Or.inl rfl)
    (Or.inl rfl) (fun r hr hne hs => ?_) (fun _ hs => absurd hs hawake)
    (fun _ _ => ⟨fun hr => ?_, fun hr => ?_⟩) fun _ hy hfin _ _ => ⟨hgone (hy ▸ hfin), fun hm => ?_⟩
  · exact absurd hs hawake
  · exact absurd (hrecorded.symm.trans hr) (by decide)
  · exact absurd (hentered.symm.trans hr) (by decide)
  · exact absurd (hmarked.symm.trans hm) (by decide)

/-- A task returns from `task_wait` or `task_exit`. -/
theorem JoinInv.returns (h : JoinInv w x j)
    (hp : (∃ code y, j.point j.current = .wait (.ret code) y) ∨
      ∃ code, j.point j.current = .exit .done code) : JoinInv w x (j.goto .outside) := by
  have hin : j.point j.current ≠ .outside := by
    rcases hp with ⟨code, y, hp⟩ | ⟨code, hp⟩ <;> rw [hp] <;> simp
  have hawake := h.awake hin fun r z hr => by
    rcases hp with ⟨code, y, hp⟩ | ⟨code, hp⟩ <;> exact absurd (hp.symm.trans hr) (by simp)
  refine h.moves (q := .outside) h.sys rfl (Or.inl rfl) rfl (fun t _ => Kept.refl _ t) rfl
    (fun hne => absurd rfl hne) (fun hlo => Or.inl (h.away _ hlo (Or.inl rfl)))
    (fun _ _ hq => absurd hq (by simp)) (fun hx0 ht => h.target hx0 _ ht)
    (fun _ _ hq => absurd hq (by simp)) (fun _ _ hs => absurd hs hawake)
    (fun _ _ hq => absurd hq (by simp)) (fun hxc hfin => ?_) fun hwc _ _ _ _ => ?_
  · obtain ⟨p, c, hpx, hscan⟩ := h.scan hfin
    rw [← hxc] at hpx
    rcases hp with ⟨code, y, hp⟩ | ⟨code, hp⟩
    · exact absurd (hp.symm.trans hpx) (by simp)
    · obtain ⟨rfl, -⟩ := JoinPoint.exit.inj (hp.symm.trans hpx)
      exact absurd hxc hscan.1
  · have hat : (j.goto .outside).point w = .outside := by
      rw [← hwc]
      exact Function.update_self ..
    constructor
    · simp [JoinSystem.committed, hat]
    · simp [JoinSystem.waiting, hat]

/-- **The statements of `task_wait`** keep the invariant. -/
theorem JoinInv.wait_step (h : JoinInv w x j) {p : WaitPoint} {y : Nat}
    (hp : j.point j.current = .wait p y) : JoinInv w x (j.waitStatement y p) := by
  have hin := h.inside j.current (by rw [hp]; simp)
  have hc : j.sys.currentActiveTask ≠ 0 := by
    have : 2 ≤ j.sys.currentActiveTask := hin.1
    omega
  cases p with
  | test =>
      apply h.gotoWait hp (by simp)
      · split <;> rfl
      · split <;> rfl
      · split <;> rfl
      · intro hfin
        rw [if_pos hfin]
        rfl
  | target =>
      have hawake := h.awake (by rw [hp]; simp) (by rw [hp]; simp)
      have hself : ((j.sys.modify j.current fun b =>
          { b with targetToWait := (j.sys.task y).id }).task j.current) =
          { j.sys.task j.current with targetToWait := y } := by
        rw [modify_task, Function.update_self, h.ids y (h.waiter _ _ _ hp).1]
      have hsys := h.sys.write
        (f := fun b => { b with targetToWait := (j.sys.task y).id }) hc fun _ => rfl
      have hothers : ∀ t, t ≠ j.current → Kept j.sys (j.sys.modify j.current fun b =>
        { b with targetToWait := (j.sys.task y).id }) t := fun t ht => Kept.write ht
      refine h.inWait hp rfl hsys rfl (Or.inl rfl) hothers ?_ rfl (Or.inr ?_) (Or.inl ?_)
        (fun r hr hne => ?_) (fun _ hs => ?_) (fun hwc hy => ⟨fun _ => ?_, fun hr => ?_⟩)
        fun _ _ _ hcommitted _ => ?_
      · exact (congrArg Tcb.id hself).trans rfl
      · exact congrArg Tcb.targetToWait hself
      · exact (congrArg Tcb.status hself).trans rfl
      · exact absurd (WaitPoint.suspend.inj hr).symm hne
      · exact absurd ((congrArg Tcb.status hself).symm.trans hs) hawake
      · rw [← hwc, ← hy]
        exact congrArg Tcb.targetToWait hself
      · exact absurd hr (by decide)
      · exact absurd hcommitted (by decide)
  | suspend p =>
      obtain ⟨hsys, hn, hcur, hothers, hoccurs⟩ := h.sys.suspendStatement hc p
      obtain ⟨hid, htarget, hstatus⟩ := suspendStatement_self (p := p) hc
      have hwait : ∀ {r}, p.waitNext = .suspend r → p ≠ .switch := by
        rintro r hr rfl
        exact absurd hr (by simp [SuspendPoint.waitNext])
      change JoinInv w x (j.waitStatement y (.suspend p))
      refine h.inWait hp rfl hsys hn ?_ hothers hid ?_
        (Or.inl htarget) ?_ (fun r hr _ _ => ?_) (fun hsame hs => ?_)
        (fun hwc hy => ⟨fun _ => ?_, fun hr hs => ?_⟩) fun hwc _ hfin hcommitted hnot => ?_
      · by_cases hswitch : p = .switch
        · exact Or.inr (hcur.trans (if_pos hswitch))
        · exact Or.inl (hcur.trans (if_neg hswitch))
      · exact (hoccurs .ready).trans (by simp; rfl)
      · by_cases hs : p = .status
        · exact Or.inr (hstatus.trans (if_pos hs))
        · exact Or.inl (hstatus.trans (if_neg hs))
      · exact hcur.trans (if_neg (hwait hr))
      · cases p with
        | status => exact ⟨.add, by decide, rfl⟩
        | add => exact ⟨.count, by decide, rfl⟩
        | count => exact ⟨.switch, by decide, rfl⟩
        | switch => exact absurd (hsame.symm.trans hcur) hc
      · rw [hwc, hy] at hp
        rw [← h.asked _ hp rfl, ← hwc]
        exact htarget
      · have hq := hoccurs .suspended
        rw [show j.sys.currentActiveTask = w from hwc] at hq hstatus
        change 0 < (suspendStatement .suspended j.sys p).occurs .suspended w
        rw [hq]
        rw [hwc, hy] at hp
        cases p with
        | status => exact absurd hr (by decide)
        | add => simp
        | count | switch =>
            have hpos := h.queued _ hp rfl (hstatus.symm.trans hs)
            omega
      · rw [show j.sys.currentActiveTask = w from hwc] at hstatus
        change _ ∧ (_ → ((suspendStatement .suspended j.sys p).task w).status ≠ _)
        rw [hstatus]
        cases p with
        | status => exact absurd hcommitted (by decide)
        | add | count | switch => exact ⟨rfl, fun _ => hnot rfl⟩
  | back => exact h.gotoWait hp (by simp) rfl rfl rfl fun _ => rfl
  | ret code => exact h.returns (Or.inl ⟨code, y, hp⟩)

/-- **A statement of `task_exit`**, but its return. -/
theorem JoinInv.inExit (h : JoinInv w x j) {p p' : ExitPoint} {code : Int}
    (hp : j.point j.current = .exit p code)
    (hpoint : j'.point = Function.update j.point j.current (.exit p' code))
    (hsys : SwitchInv j'.sys) (hn : j'.sys.currentTaskId = j.sys.currentTaskId)
    (hcur : j'.current = j.current ∨ j'.current = 0)
    (hothers : ∀ t, t ≠ j.current → Kept j.sys j'.sys t)
    (hself : (j'.sys.task j.current).id = (j.sys.task j.current).id ∧
      (j'.sys.task j.current).targetToWait = (j.sys.task j.current).targetToWait ∧
      j'.sys.occurs .ready j.current ≤ j.sys.occurs .ready j.current)
    (hstatus : (j'.sys.task j.current).status ≠ .suspended)
    (hscan : j.current = x → (j'.sys.task x).status = .finished →
      (j'.waiting w x = true → j.waiting w x = true) →
        j.committed w x = false ∧ ScanAt w x j' p') : JoinInv w x j' := by
  have hlo := (h.inside j.current (by rw [hp]; simp)).1
  have hat : ∀ {z}, j.current = z → j'.point z = .exit p' code := fun hz => by
    rw [hpoint, hz, Function.update_self]
  have hnotw : j.current = w → j'.committed w x = false ∧ j'.waiting w x = false := by
    intro hwc
    constructor
    · simp [JoinSystem.committed, hat hwc]
    · simp [JoinSystem.waiting, hat hwc]
  refine h.moves hsys hn hcur hpoint hothers hself.1 (fun _ => hlo)
    (fun _ => Or.inl (Nat.le_zero.mp (h.away _ hlo (Or.inl rfl) ▸ hself.2.2)))
    (fun _ _ hq => absurd hq (by simp)) (fun hx0 ht => h.target hx0 _ (hself.2.1.symm.trans ht))
    (fun _ _ hq => absurd hq (by simp)) (fun _ _ hs => absurd hs hstatus)
    (fun _ _ hq => absurd hq (by simp)) (fun hxc hfin => ?_) fun hwc _ _ _ _ => hnotw hwc
  have hwaiting : j'.waiting w x = true → j.waiting w x = true := by
    intro hyes
    by_cases hwc : j.current = w
    · exact absurd (hyes.symm.trans (hnotw hwc).2) (by decide)
    · refine (hothers w (Ne.symm hwc)).waiting _ ?_ hyes
      rw [hpoint, Function.update_of_ne (Ne.symm hwc)]
  obtain ⟨hclear, hat'⟩ := hscan hxc hfin hwaiting
  refine ⟨?_, p', code, rfl, hat'⟩
  by_cases hwc : j.current = w
  · exact (hnotw hwc).1
  · refine (committed_congr ?_).trans hclear
    rw [hpoint, Function.update_of_ne (Ne.symm hwc)]

/-- Where the scan of a finished task stands. -/
theorem JoinInv.scan_at (h : JoinInv w x j) {p : ExitPoint} {code : Int}
    (hp : j.point j.current = .exit p code) (hxc : j.current = x)
    (hfin : (j.sys.task x).status = .finished) : j.committed w x = false ∧ ScanAt w x j p := by
  obtain ⟨p', c, hp', hscan⟩ := h.scan hfin
  rw [← hxc, hp] at hp'
  obtain ⟨rfl, -⟩ := JoinPoint.exit.inj hp'
  exact ⟨h.clear hfin, hscan⟩

/-- Who exits does not wait. -/
theorem waiting_elsewhere {p : ExitPoint} {code : Int} (hp : j.point j.current = .exit p code)
    (hyes : j.waiting w x = true) : j.current ≠ w := by
  intro heq
  unfold JoinSystem.waiting at hyes
  rw [← heq, hp] at hyes
  exact absurd hyes (by simp)

/-- Who waits without the CPU is in `suspended_queue`, and has recorded its target. -/
theorem JoinInv.waiting_in (h : JoinInv w x j) (hyes : j.waiting w x = true)
    (hwc : j.current ≠ w) :
    w ∈ (j.sys.queue .suspended).items ∧ (j.sys.task w).targetToWait = x := by
  unfold JoinSystem.waiting at hyes
  cases hpoint : j.point w with
  | outside | exit _ _ =>
      rw [hpoint] at hyes
      exact absurd hyes (by simp)
  | wait p y =>
      rw [hpoint] at hyes
      simp only [Bool.and_eq_true, decide_eq_true_eq] at hyes
      obtain ⟨⟨rfl, hs⟩, hmarked⟩ := hyes
      cases p with
      | test | target | ret _ => exact absurd hmarked (by simp [WaitPoint.marked])
      | suspend r =>
          cases r with
          | status => exact absurd hmarked (by decide)
          | add | count | switch => exact absurd (h.left _ _ _ hpoint (by decide) hs) hwc
      | back =>
          exact ⟨List.count_pos_iff.mp (h.queued _ hpoint rfl hs), h.asked _ hpoint rfl⟩

/-- `queue_next` leaves what was behind its item. -/
theorem queueNext_rest (q : Queue Nat) :
    (queueNext q).2.rest = q.rest.tail ∧ (queueNext q).2.rest.head? = (queueNext q).1 := by
  obtain ⟨passed, rest⟩ := q
  cases rest with
  | nil => exact ⟨rfl, rfl⟩
  | cons y rest => exact ⟨rfl, rfl⟩

/-- The running task goes on in `task_exit`, after a change that nobody looks at. -/
theorem JoinInv.gotoExit (h : JoinInv w x j) {p p' : ExitPoint} {code : Int}
    (hp : j.point j.current = .exit p code) (hsys : SwitchInv S)
    (hcur : S.currentActiveTask = j.sys.currentActiveTask)
    (hn : S.currentTaskId = j.sys.currentTaskId) (hk : ∀ t, Kept j.sys S t)
    (hready : S.occurs .ready j.current ≤ j.sys.occurs .ready j.current)
    (hscan : ScanAt w x j p → (JoinSystem.waiting { j.goto (.exit p' code) with sys := S } w x =
      true → j.waiting w x = true) → ScanAt w x { j.goto (.exit p' code) with sys := S } p') :
    JoinInv w x { j.goto (.exit p' code) with sys := S } := by
  have hawake := h.awake (by rw [hp]; simp) (by rw [hp]; simp)
  refine h.inExit hp rfl hsys hn (Or.inl hcur) (fun t _ => hk t)
    ⟨(hk _).id, (hk _).target, hready⟩ (fun hs => hawake ((hk _).woken.suspended hs))
    fun hxc hfin hw => ?_
  obtain ⟨hclear, hat⟩ := h.scan_at hp hxc ((hk x).woken.finished.mp hfin)
  exact ⟨hclear, hscan hat hw⟩

/-- **The statements of `task_exit`** keep the invariant, if `w` is not about to wait when
`x` marks itself finished. -/
theorem JoinInv.exit_step (h : JoinInv w x j) {p : ExitPoint} {code : Int}
    (hp : j.point j.current = .exit p code)
    (hok : p = .status → j.current = x → j.committed w x = false)
    (hs : j.exitStatement code p = .ok j') : JoinInv w x j' := by
  have hin := h.inside j.current (by rw [hp]; simp)
  have hc : j.sys.currentActiveTask ≠ 0 := by
    have : 2 ≤ j.sys.currentActiveTask := hin.1
    omega
  have hawake := h.awake (by rw [hp]; simp) (by rw [hp]; simp)
  have hrefl : ∀ t, Kept j.sys j.sys t := fun t => Kept.refl j.sys t
  have hwrite : ∀ {f : Tcb → Tcb}, (∀ b, (f b).id = b.id ∧ (f b).targetToWait = b.targetToWait ∧
      (f b).status = b.status) → ∀ t, Kept j.sys (j.sys.modify j.current f) t :=
    fun hf t => Kept.modify (hf _)
  cases p with
  | time =>
      rw [← Except.ok.inj hs]
      exact h.gotoExit hp (h.sys.write hc fun _ => rfl) rfl rfl (hwrite fun _ => ⟨rfl, rfl, rfl⟩)
        le_rfl fun hscan _ => hscan.elim
  | status =>
      rw [← Except.ok.inj hs]
      have hself : (j.sys.modify j.current fun b => { b with status := .finished }).task
          j.current = { j.sys.task j.current with status := .finished } := by
        rw [modify_task, Function.update_self]
      have hsys := h.sys.write (f := fun b => { b with status := .finished }) hc fun _ => rfl
      have hothers : ∀ t, t ≠ j.current → Kept j.sys (j.sys.modify j.current fun b =>
        { b with status := .finished }) t := fun t ht => Kept.write ht
      refine h.inExit hp rfl hsys rfl (Or.inl rfl) hothers
        ⟨?_, ?_, le_rfl⟩ (fun hsusp => ?_) fun hxc _ _ => ⟨hok rfl hxc, hxc⟩
      · exact (congrArg Tcb.id hself).trans rfl
      · exact (congrArg Tcb.targetToWait hself).trans rfl
      · exact absurd ((congrArg Tcb.status hself).symm.trans hsusp) (by simp)
  | code =>
      rw [← Except.ok.inj hs]
      exact h.gotoExit hp (h.sys.write hc fun _ => rfl) rfl rfl (hwrite fun _ => ⟨rfl, rfl, rfl⟩)
        le_rfl fun hscan _ => hscan
  | kernel =>
      rw [← Except.ok.inj hs, if_neg (show ¬ j.current = taskKernel from hc)]
      exact h.gotoExit hp h.sys rfl rfl hrefl le_rfl fun hscan _ => hscan
  | head =>
      rw [← Except.ok.inj hs]
      refine h.gotoExit hp (h.sys.setQueue (by decide) _) rfl rfl
        (fun t => Kept.walk rfl) le_rfl fun hscan hw => ⟨hscan, ?_, fun hyes => ?_⟩
      · simp [queueHead]
      · have hwait := hw hyes
        have hwc := waiting_elsewhere hp hwait
        simpa [queueHead] using (h.waiting_in hwait hwc).1
  | test aux =>
      cases aux with
      | none =>
          rw [← Except.ok.inj hs]
          refine h.gotoExit hp h.sys rfl rfl hrefl le_rfl fun hscan hw => ?_
          obtain ⟨hcur, hhead, hrest⟩ := hscan
          refine ⟨hcur, ?_⟩
          by_contra hyes
          have hmem := hrest (hw (Bool.eq_true_of_not_eq_false hyes))
          rw [List.head?_eq_none_iff.mp hhead] at hmem
          exact absurd hmem (by simp)
      | some y =>
          rw [← Except.ok.inj hs]
          have hid : (j.sys.task j.current).id = j.current := h.ids _ h.sys.current
          refine h.gotoExit hp h.sys rfl rfl hrefl le_rfl fun hscan hw => ?_
          obtain ⟨hcur, hhead, hrest⟩ := hscan
          by_cases ht : (j.sys.task y).targetToWait = (j.sys.task j.current).id
          · rw [if_pos ht]
            rw [hid, hcur] at ht
            exact ⟨hcur, h.target (hcur ▸ hc) y ht⟩
          · rw [if_neg ht] at hw ⊢
            refine ⟨hcur, fun hyes => ?_⟩
            have hwait := hw hyes
            have hwc := waiting_elsewhere hp hwait
            have hwy : w ≠ y := by
              rintro rfl
              rw [hid, hcur] at ht
              exact ht (h.waiting_in hwait hwc).2
            have hmem := hrest hwait
            obtain ⟨ys, hys⟩ := List.head?_eq_some_iff.mp hhead
            rw [hys, List.mem_cons] at hmem
            change w ∈ (j.sys.queue .suspended).rest.tail
            rw [hys]
            exact hmem.resolve_left hwy
  | mark y =>
      rw [← Except.ok.inj hs]
      exact h.gotoExit hp (h.sys.mark fun _ => ⟨rfl, rfl⟩) rfl rfl
        (fun t => Kept.modify ⟨rfl, rfl, rfl⟩) le_rfl fun hscan _ => hscan
  | awake y =>
      change (taskAwake j.sys (some y) >>= _) = _ at hs
      obtain ⟨S, haw, hs⟩ := bind_eq_ok.mp hs
      rw [← Except.ok.inj hs]
      have hw := taskAwake_waking haw
      have hready : S.occurs .ready j.current ≤ j.sys.occurs .ready j.current := by
        rcases hw.ready.occurs j.current with hle | ⟨hsusp, -, -⟩
        · exact hle
        · exact absurd hsusp hawake
      refine h.gotoExit hp (h.sys.wakes hw) hw.passive.current hw.passive.currentTaskId
        (taskAwake_kept haw) hready fun hscan _ => ?_
      obtain ⟨hcur, hyw⟩ := hscan
      refine ⟨hw.passive.current.trans hcur, fun hyes => ?_⟩
      have hnot := waiting_of_status (w := w) (x := x)
        (j := { j.goto (.exit .next code) with sys := S }) (hyw ▸ taskAwake_awake haw)
      exact absurd (hyes.symm.trans hnot) (by decide)
  | next =>
      rw [← Except.ok.inj hs]
      obtain ⟨htail, hhead⟩ := queueNext_rest (j.sys.queue .suspended)
      refine h.gotoExit hp (h.sys.setQueue (by decide) _) rfl rfl
        (fun t => Kept.walk (queueNext_items _)) le_rfl fun hscan hw => ?_
      obtain ⟨hcur, hrest⟩ := hscan
      refine ⟨hcur, ?_, fun hyes => ?_⟩
      · simpa [TaskSystem.nextIn] using hhead
      · simpa [TaskSystem.nextIn, htail] using hrest (hw hyes)
  | add =>
      rw [← Except.ok.inj hs]
      refine h.gotoExit hp (h.sys.setQueue (by decide) _) rfl rfl
        (fun t => Kept.add (by decide)) le_rfl fun hscan hw => ?_
      obtain ⟨hcur, hnot⟩ := hscan
      refine ⟨hcur, ?_⟩
      by_contra hyes
      exact absurd ((hw (Bool.eq_true_of_not_eq_false hyes)).symm.trans hnot) (by decide)
  | count =>
      rw [← Except.ok.inj hs]
      refine h.gotoExit hp (h.sys.mark fun _ => ⟨rfl, rfl⟩) rfl rfl
        (fun t => Kept.modify ⟨rfl, rfl, rfl⟩) le_rfl fun hscan hw => ?_
      obtain ⟨hcur, hnot⟩ := hscan
      refine ⟨hcur, ?_⟩
      by_contra hyes
      exact absurd ((hw (Bool.eq_true_of_not_eq_false hyes)).symm.trans hnot) (by decide)
  | switch =>
      rw [← Except.ok.inj hs]
      have hk := h.sys.toKernel
      have hsys : SwitchInv (taskSwitch j.sys (some taskKernel)).2 := h.sys.switch fun t ht => by
        obtain rfl := Option.some.inj ht
        exact Nat.zero_le _
      have hkept : ∀ t, Kept j.sys (taskSwitch j.sys (some taskKernel)).2 t := fun t => by
        rw [hk]
        exact .of_same rfl rfl rfl fun _ => rfl
      have hcur : (taskSwitch j.sys (some taskKernel)).2.currentActiveTask = 0 := by rw [hk]
      refine h.inExit hp rfl hsys ?_ (Or.inr hcur) (fun t _ => hkept t)
        ⟨(hkept _).id, (hkept _).target, ?_⟩ (fun hsusp => hawake ((hkept _).woken.suspended hsusp))
        fun hxc hfin hw => ?_
      · change (taskSwitch j.sys (some taskKernel)).2.currentTaskId = _
        rw [hk]
      · change (taskSwitch j.sys (some taskKernel)).2.occurs .ready j.current ≤ _
        rw [hk]
        exact le_rfl
      · obtain ⟨hclear, -, hnot⟩ := h.scan_at hp hxc ((hkept x).woken.finished.mp hfin)
        refine ⟨hclear, fun heq => hc ?_, ?_⟩
        · exact hxc.trans (heq.symm.trans hcur)
        · by_contra hyes
          exact absurd ((hw (Bool.eq_true_of_not_eq_false hyes)).symm.trans hnot) (by decide)
  | done =>
      rw [← Except.ok.inj hs]
      exact h.returns (Or.inr ⟨code, hp⟩)

/-! ## Every step -/

/-- Only tasks that are not the kernel are in the two functions. -/
theorem JoinInv.kernel_outside (h : JoinInv w x j) (hc : j.current = 0) :
    j.point j.current = .outside := by
  by_contra hne
  have := (h.inside _ hne).1
  omega

/-- **A step of the dispatcher** keeps the invariant. -/
theorem JoinInv.dispatcher {d : DispatcherPoint} {requests : Nat} (h : JoinInv w x j)
    (hc : j.current = 0) (hs : dispatcherTurn j.sys j.dispatcher requests = some (.ok (S, d))) :
    JoinInv w x { j with sys := S, dispatcher := d } := by
  have hrouses : ∀ {T : TaskSystem}, Rouses j.sys T → ∀ e,
      JoinInv w x { j with sys := T, dispatcher := e } := fun hr e =>
    h.calm (h.sys.wakes hr.waking) (h.kernel_outside hc) hr.waking.passive.current
      hr.waking.passive.currentTaskId hr.kept
  rcases dispatcherTurn_rouses hs with hcreates | hr | ⟨S₁, t, hr, ht, hd⟩
  · exact h.creates (h.kernel_outside hc) hcreates
  · exact hrouses hr d
  · exact (hrouses hr j.dispatcher).dispatches (hr.waking.passive.current.trans hc) ht hd

/-- The running task enters one of the two functions. -/
theorem JoinInv.enters (h : JoinInv w x j) {q : JoinPoint}
    (hout : j.point j.current = .outside) (hlo : 2 ≤ j.current)
    (hq : (∃ y, q = .wait .test y ∧ y ≤ j.sys.currentTaskId ∧ (y = x → j.current = w)) ∨
      ∃ code, q = .exit .time code) : JoinInv w x (j.goto q) := by
  have hawake : (j.sys.task j.current).status ≠ .suspended := by
    intro hs
    obtain ⟨p, y, -, hp⟩ := h.busy hlo hs
    exact absurd (hout.symm.trans hp) (by simp)
  refine h.moves (q := q) h.sys rfl (Or.inl rfl) rfl (fun t _ => Kept.refl _ t) rfl (fun _ => hlo)
    (fun _ => Or.inl (h.away _ hlo (Or.inl rfl))) (fun p y hp => ?_)
    (fun hx0 ht => h.target hx0 _ ht) (fun _ _ _ _ hs => absurd hs hawake)
    (fun _ _ hs => absurd hs hawake) (fun _ p hp => ?_) (fun hxc hfin => ?_)
    fun hwc _ _ _ _ => ?_
  · rcases hq with ⟨z, rfl, hz⟩ | ⟨code, rfl⟩
    · obtain ⟨-, rfl⟩ := JoinPoint.wait.inj hp
      exact hz
    · exact absurd hp (by simp)
  · rcases hq with ⟨z, rfl, hz⟩ | ⟨code, rfl⟩
    · obtain ⟨rfl, -⟩ := JoinPoint.wait.inj hp
      exact ⟨fun hr => absurd hr (by decide), fun hr => absurd hr (by decide)⟩
    · exact absurd hp (by simp)
  · obtain ⟨p, c, hp, -⟩ := h.scan hfin
    rw [← hxc, hout] at hp
    exact absurd hp (by simp)
  · have hat : (j.goto q).point w = q := by
      rw [← hwc]
      exact Function.update_self ..
    unfold JoinSystem.committed JoinSystem.waiting
    rw [hat]
    rcases hq with ⟨z, rfl, hz⟩ | ⟨code, rfl⟩
    · exact ⟨by simp [WaitPoint.committed], by simp [WaitPoint.marked]⟩
    · exact ⟨rfl, rfl⟩

/-- **A call** of the running task. -/
theorem JoinInv.call_step (h : JoinInv w x j) (hc : j.current ≠ 0)
    (hout : j.point j.current = .outside) (hsole : soleWaiter w x j a = true)
    (hs : j.call a = some (.ok j')) : JoinInv w x j' := by
  have hlo : j.current ≠ taskDiskHandler → 2 ≤ j.current := by
    intro hne
    have hne' : j.current ≠ 1 := hne
    omega
  cases a with
  | create granted =>
      rw [← Except.ok.inj (Option.some.inj hs)]
      cases granted with
      | true => exact h.creates hout (creates_taskCreate j.sys)
      | false => exact h
  | setprio task prio =>
      obtain ⟨S, hp, hs'⟩ := bind_eq_ok.mp (Option.some.inj hs)
      rw [← Except.ok.inj hs']
      have hq := schedSetprio_quiet hp
      exact h.calm (h.sys.setprio hp) hout hq.current hq.currentTaskId hq.kept
  | yield =>
      rw [← Except.ok.inj (Option.some.inj hs)]
      exact h.yields (leaves_taskYield h.sys.kernelReady hc) h.sys.yield rfl rfl rfl
  | sleep t =>
      rw [← Except.ok.inj (Option.some.inj hs)]
      have hl := leaves_taskSuspend h.sys.kernelReady hc
        (fun b => { b with sleeping := true, wakeUpTime := addInt j.sys.clock t }) .sleeping
      exact h.suspends hout hl (by decide) (h.sys.leaves hl hc rfl) rfl rfl rfl
  | block =>
      rw [← Except.ok.inj (Option.some.inj hs)]
      have hl := leaves_suspend (i := .suspended) h.sys.kernelReady hc
      exact h.suspends hout hl (by decide) (h.sys.leaves hl hc rfl) rfl rfl rfl
  | awake t =>
      obtain ⟨S, haw, hs'⟩ := bind_eq_ok.mp (Option.some.inj hs)
      rw [← Except.ok.inj hs']
      have hr := taskAwake_rouses haw
      exact h.calm (h.sys.wakes hr.waking) hout hr.waking.passive.current
        hr.waking.passive.currentTaskId hr.kept
  | wait y =>
      simp only [JoinSystem.call] at hs
      split at hs
      · rename_i hcond
        rw [← Except.ok.inj (Option.some.inj hs)]
        refine h.enters hout (hlo hcond.1) (Or.inl ⟨y, rfl, hcond.2, fun hy => ?_⟩)
        exact of_decide_eq_true hsole (by rw [hy])
      · exact absurd hs (by simp)
  | exit code =>
      simp only [JoinSystem.call] at hs
      split at hs
      · rename_i hcond
        rw [← Except.ok.inj (Option.some.inj hs)]
        exact h.enters hout (hlo hcond) (Or.inr ⟨code, rfl⟩)
      · exact absurd hs (by simp)
  | next | dispatcher _ | tick => exact absurd hs (by simp [JoinSystem.call])

/-- **A step keeps the invariant**, if only `w` waits for `x`, and `x` does not mark itself
finished while `w` is about to wait. -/
theorem JoinInv.step (h : JoinInv w x j) (hsole : soleWaiter w x j a = true)
    (hok : exitsClear w x j a = true) (hs : j.step a = some j') : JoinInv w x j' := by
  have hexec := Preemptive.step_eq_some.mp hs
  cases a with
  | tick =>
      rw [← Except.ok.inj (Option.some.inj hexec)]
      exact h.tick
  | dispatcher requests =>
      obtain ⟨hc, hexec⟩ := Preemptive.exec_dispatcher.mp hexec
      obtain ⟨S, d, hd, rfl⟩ := Preemptive.dispatcherStep_eq_some.mp hexec
      exact h.dispatcher hc hd
  | next =>
      obtain ⟨-, hexec⟩ := Preemptive.exec_task.mp hexec
      cases hp : j.point j.current with
      | outside =>
          rw [hp] at hexec
          exact absurd hexec (by simp)
      | wait p y =>
          rw [hp] at hexec
          rw [← Except.ok.inj (Option.some.inj hexec)]
          exact h.wait_step hp
      | exit p code =>
          rw [hp] at hexec
          refine h.exit_step hp (fun hstatus hxc => ?_) (Option.some.inj hexec)
          subst hstatus
          simp only [exitsClear, hp] at hok
          exact of_decide_eq_true hok hxc
  | create _ | setprio _ _ | yield | sleep _ | block | awake _ | wait _ | exit _ =>
      obtain ⟨hc, hexec⟩ := Preemptive.exec_task.mp hexec
      rw [Option.ite_none_right_eq_some] at hexec
      exact h.call_step hc hexec.1 hsole hexec.2

theorem joinInv_boot (w x : Nat) : JoinInv w x JoinSystem.boot := by
  have htask : ∀ t, t ≠ 1 → (JoinSystem.boot.sys.task t).status = .ready := fun t ht =>
    (boot_task 0 (fun _ _ => 0) (fun _ => 0) ht).1
  have hout : ∀ t, 2 ≤ t → JoinSystem.boot.sys.occurs .ready t = 0 := fun t ht =>
    List.count_eq_zero.mpr fun hmem => by
      have h1 : t = 1 := List.mem_singleton.mp hmem
      omega
  have hnever : ∀ t, (JoinSystem.boot.sys.task t).status ≠ .finished := by
    intro t
    by_cases ht : t = 1
    · subst ht
      exact (by decide : Status.suspended ≠ .finished)
    · rw [htask t ht]
      decide
  refine ⟨switchInv_boot 0 (fun _ _ => 0) fun _ => 0, fun t ht => ?_, fun t ht => ?_,
    fun t ht _ => hout t ht,
    fun t ht => absurd rfl ht, fun t p y hp => absurd hp (by simp [JoinSystem.boot]),
    fun hx0 t ht => ?_, fun t p y hp => absurd hp (by simp [JoinSystem.boot]),
    fun hlo => absurd hlo (by decide), fun p hp => absurd hp (by simp [JoinSystem.boot]),
    fun p hp => absurd hp (by simp [JoinSystem.boot]), fun hfin => absurd hfin (hnever x),
    fun hfin => absurd hfin (hnever x)⟩
  · obtain rfl | rfl : t = 0 ∨ t = 1 := by
      have : t ≤ 1 := ht
      omega
    · rfl
    · rfl
  · rw [hout t ht]
    exact Nat.zero_le 1
  · have hzero : (JoinSystem.boot.sys.task t).targetToWait = 0 := by
      by_cases ht1 : t = 1
      · subst ht1
        rfl
      · exact (boot_task 0 (fun _ _ => 0) (fun _ => 0) ht1).2.2
    exact absurd (ht.symm.trans hzero) hx0

/-- **No join is lost**, in a run in which `x` never marks itself finished while `w`, its only
waiter, is between its test and its own `status = SUSPENDED`. -/
theorem no_lost_join (w x : Nat) (as : List JoinAction) (j : JoinSystem)
    (hsole : AllSteps JoinSystem.step (fun j a => soleWaiter w x j a = true) JoinSystem.boot as)
    (hok : AllSteps JoinSystem.step (fun j a => exitsClear w x j a = true) JoinSystem.boot as)
    (hrun : run JoinSystem.step JoinSystem.boot as = some j) : ¬ LostJoin w x j := by
  have h : JoinInv w x j := invariant_of_allSteps (JoinInv w x)
    (fun _ _ _ h hok hs => h.step hok.1 hok.2 hs) (joinInv_boot w x) (hsole.and hok) hrun
  rintro ⟨hgone, hlost⟩
  unfold JoinSystem.gone at hgone
  cases hp : j.point x with
  | outside | wait _ _ =>
      rw [hp] at hgone
      exact absurd hgone (by simp)
  | exit p c =>
      rw [hp] at hgone
      simp only [Bool.and_eq_true, decide_eq_true_eq] at hgone
      obtain ⟨hfin, hscanned⟩ := hgone
      have hnot : j.waiting w x = false := by
        obtain ⟨p', c', hp', hscan⟩ := h.scan hfin
        obtain ⟨rfl, -⟩ := JoinPoint.exit.inj (hp.symm.trans hp')
        cases p with
        | add | count | switch | done => exact hscan.2
        | _ => exact absurd hscanned (by simp [ExitPoint.scanned])
      rcases hlost with hcommitted | hwaiting
      · exact absurd (hcommitted.symm.trans (h.clear hfin)) (by decide)
      · exact absurd (hwaiting.symm.trans hnot) (by decide)

/-- Task 2 waits for task 3, which it has created; task 3 exits and wakes it. -/
theorem no_lost_join_woken : ∃ j,
    run JoinSystem.step JoinSystem.boot
      ([JoinAction.dispatcher 0, .dispatcher 0, .yield, .dispatcher 0, .dispatcher 0,
          .create true, .wait 3] ++ List.replicate 6 JoinAction.next ++
        [JoinAction.dispatcher 0, .dispatcher 0, .yield, .dispatcher 0, .dispatcher 0, .exit 7] ++
        List.replicate 14 JoinAction.next) = some j ∧
    (j.sys.task 2).status = .ready ∧ (j.sys.task 3).status = .finished ∧ ¬ LostJoin 2 3 j := by
  have hrun : (run JoinSystem.step JoinSystem.boot
      ([JoinAction.dispatcher 0, .dispatcher 0, .yield, .dispatcher 0, .dispatcher 0,
          .create true, .wait 3] ++ List.replicate 6 JoinAction.next ++
        [JoinAction.dispatcher 0, .dispatcher 0, .yield, .dispatcher 0, .dispatcher 0, .exit 7] ++
        List.replicate 14 JoinAction.next)).any (fun j =>
          decide ((j.sys.task 2).status = .ready ∧ (j.sys.task 3).status = .finished)) = true := by
    decide +kernel
  rw [Option.any_eq_true] at hrun
  obtain ⟨j, hj, hlast⟩ := hrun
  obtain ⟨hready, hfin⟩ := of_decide_eq_true hlast
  exact ⟨j, hj, hready, hfin,
    no_lost_join 2 3 _ j (by decide +kernel) (by decide +kernel) hj⟩

/-- **A lost join.**  Ten ticks after the test of its `task_wait(3)` make task 2 yield; task 3
exits and finds nobody who waits for it, and task 2 then suspends itself. -/
theorem join_lost : ∃ j,
    run JoinSystem.step JoinSystem.boot
      ([JoinAction.dispatcher 0, .dispatcher 0, .yield, .dispatcher 0, .dispatcher 0,
          .create true, .wait 3, .next] ++ List.replicate 10 JoinAction.tick ++
        [JoinAction.dispatcher 0, .dispatcher 0, .yield, .dispatcher 0, .dispatcher 0, .exit 7] ++
        List.replicate 11 JoinAction.next ++ [JoinAction.dispatcher 0, .dispatcher 0] ++
        List.replicate 5 JoinAction.next) = some j ∧
    AllSteps JoinSystem.step (fun j a => soleWaiter 2 3 j a = true) JoinSystem.boot
      ([JoinAction.dispatcher 0, .dispatcher 0, .yield, .dispatcher 0, .dispatcher 0,
          .create true, .wait 3, .next] ++ List.replicate 10 JoinAction.tick ++
        [JoinAction.dispatcher 0, .dispatcher 0, .yield, .dispatcher 0, .dispatcher 0, .exit 7] ++
        List.replicate 11 JoinAction.next ++ [JoinAction.dispatcher 0, .dispatcher 0] ++
        List.replicate 5 JoinAction.next) ∧
    LostJoin 2 3 j ∧
    (j.sys.task 2).status = .suspended ∧ 2 ∈ j.sys.inQueue .suspended ∧
    (j.sys.task 2).targetToWait = 3 ∧ (j.sys.task 3).status = .finished := by
  have hrun : (run JoinSystem.step JoinSystem.boot
      ([JoinAction.dispatcher 0, .dispatcher 0, .yield, .dispatcher 0, .dispatcher 0,
          .create true, .wait 3, .next] ++ List.replicate 10 JoinAction.tick ++
        [JoinAction.dispatcher 0, .dispatcher 0, .yield, .dispatcher 0, .dispatcher 0, .exit 7] ++
        List.replicate 11 JoinAction.next ++ [JoinAction.dispatcher 0, .dispatcher 0] ++
        List.replicate 5 JoinAction.next)).any (fun j =>
          decide ((j.gone 3 = true ∧ j.waiting 2 3 = true) ∧ (j.sys.task 2).status = .suspended ∧
            2 ∈ j.sys.inQueue .suspended ∧ (j.sys.task 2).targetToWait = 3 ∧
            (j.sys.task 3).status = .finished)) = true := by
    decide +kernel
  rw [Option.any_eq_true] at hrun
  obtain ⟨j, hj, hlast⟩ := hrun
  obtain ⟨hlost, hrest⟩ := of_decide_eq_true hlast
  exact ⟨j, hj, by decide +kernel, ⟨hlost.1, Or.inr hlost.2⟩, hrest⟩

end PingPongOS
