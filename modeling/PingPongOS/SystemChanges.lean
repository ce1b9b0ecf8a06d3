import PingPongOS.WakeupCauses

/-!
# What a step does to the task subsystem

A step of the kernel changes the task subsystem in one of seven ways: a task is
created, priorities change and tasks are woken, the running task yields or suspends
itself, the dispatcher runs a task, a tick is counted, or a task exits.  A task that
joins another is woken by an exit and by nothing else.
-/

namespace PingPongOS

open Runs TaskSystem

/-- Neither a tick nor an exit. -/
def Action.plain : Action → Bool
  | .tick | .exit _ => false
  | _ => true

/-- No task that joins another is woken. -/
def JoinersStay (k : Kernel) (S : TaskSystem) : Prop :=
  ∀ t x, k.blockedAt t = some (.taskWait x) → (S.task t).status = .suspended

/-- The descriptor after `task_yield`. -/
def Tcb.yielded (b : Tcb) : Tcb :=
  { b with
    executionTime := addInt b.executionTime quantum
    remainingQuantumTime := quantum
    status := .ready }

/-- The descriptor after a `task_suspend` and the statements before it that name what the
task waits for. -/
def SuspendedFrom (b b' : Tcb) : Prop :=
  b' = { b with
    status := .suspended, sleeping := b'.sleeping, wakeUpTime := b'.wakeUpTime,
    targetToWait := b'.targetToWait }

/-- **The changes of the task subsystem.** -/
inductive SysChange (k : Kernel) : Action → TaskSystem → Prop
  | creates {a : Action} {S : TaskSystem} (ha : a.plain = true) (hc : Creates k.sys S) :
      SysChange k a S
  | passive {a : Action} {S : TaskSystem} (ha : a.plain = true) (hp : AllPassive k.sys S)
      (hj : JoinersStay k S) : SysChange k a S
  | yields {a : Action} {S : TaskSystem} (ha : a.plain = true) (hc : k.current ≠ 0)
      (hl : Leaves k.sys S (k.sys.task k.current).yielded .ready) : SysChange k a S
  | suspends {a : Action} {S : TaskSystem} {b : Tcb} {i : QueueId} (ha : a.plain = true)
      (hc : k.current ≠ 0) (hu : ∀ x, k.point k.current ≠ .taskWait x)
      (hl : Leaves k.sys S b i) (hb : SuspendedFrom (k.sys.task k.current) b) :
      SysChange k a S
  | dispatches {S₁ S : TaskSystem} {t : Nat} (hc : k.current = 0) (hp : AllPassive k.sys S₁)
      (hq : Quiet k.sys S₁) (ht : 0 < k.sys.occurs .ready t) (hd : Dispatches S₁ S t) :
      SysChange k .dispatcher S
  | ticks : SysChange k .tick (handleTimerSignal k.sys)
  | exits {code : Int} {S : TaskSystem} (hc : 2 ≤ k.current)
      (hu : ∀ x, k.point k.current ≠ .taskWait x) (he : taskExit k.sys code = .ok S) :
      SysChange k (.exit code) S

variable {k k' : Kernel} {S S' : TaskSystem} {t : Nat} {a : Action}

/-- Where nothing happens no joiner is woken. -/
theorem JoinersStay.of_status
    (h : ∀ t x, k.blockedAt t = some (.taskWait x) →
      (S.task t).status = (k.sys.task t).status) : JoinersStay k S := by
  intro t x hb
  rw [h t x hb]
  exact (blockedAt_eq_some.mp hb).1

theorem SysChange.unchanged (ha : a.plain = true) : SysChange k a k.sys :=
  .passive ha (AllPassive.refl _) (JoinersStay.of_status fun _ _ _ => rfl)

/-- Only an exit wakes joiners. -/
theorem JoinersStay.of_stays (ha : a.plain = true)
    (h : ∀ t x, k.blockedAt t = some (.taskWait x) →
      StillBlocked (k.sys.task t) (S.task t) ∨ WokenBy k t (.taskWait x) a) :
    JoinersStay k S := by
  intro t x hb
  rcases h t x hb with hs | hw
  · exact hs.1
  · cases hw
    exact absurd ha (by simp [Action.plain])

/-- The second half of the dispatcher's loop. -/
theorem KernelInv.change_wake (h : KernelInv k) (hp : AllPassive k.sys S) (hq : Quiet k.sys S)
    {o : Option Nat} (hs : dispatcherWake S o = .ok S') : SysChange k .dispatcher S' :=
  .passive rfl (hp.trans (dispatcherWake_passive hs).1)
    (.of_stays rfl fun _ _ hb => h.stays_wake hb hp hq hs)

theorem KernelInv.change_dispatcher (h : KernelInv k) (hc : k.current = 0)
    (hs : k.dispatcherStep = some (.ok k')) : SysChange k .dispatcher k'.sys := by
  obtain ⟨o, S, hsched, hq, hready⟩ := h.sys.scheduler
  have hp := scheduler_passive hsched
  cases Kernel.dispatched hs with
  | enters _ => exact .creates rfl (creates_taskCreate k.sys)
  | @runs next _ _ hrun =>
      obtain ⟨rfl, rfl⟩ := Prod.mk.inj (Except.ok.inj (hsched.symm.trans hrun))
      have ht : 0 < S.occurs .ready next := by
        rw [hq.occurs]
        exact hready next rfl
      exact .dispatches hc hp hq (hready next rfl) (dispatches_taskRun ht)
  | idles _ hrun hw =>
      obtain ⟨rfl, rfl⟩ := Prod.mk.inj (Except.ok.inj (hsched.symm.trans hrun))
      exact h.change_wake hp hq hw
  | wakes _ hw => exact h.change_wake (AllPassive.refl _) (Quiet.refl _) hw

/-- The running task suspends itself, after a change of the fields that say what it waits
for. -/
theorem KernelInv.change_suspend (h : KernelInv k) (hc : k.current ≠ 0) (ha : a.plain = true)
    (hu : ∀ x, k.point k.current ≠ .taskWait x) {f : Tcb → Tcb} {i : QueueId}
    (hf : ∀ b, SuspendedFrom b { f b with status := .suspended }) :
    SysChange k a (taskSuspend (k.sys.modify k.current f) i) :=
  .suspends ha hc hu (leaves_taskSuspend h.sys.kernelReady hc f i) (hf _)

/-- A suspension with no such change. -/
theorem KernelInv.change_blocks (h : KernelInv k) (hc : k.current ≠ 0) (ha : a.plain = true)
    (hu : ∀ x, k.point k.current ≠ .taskWait x) :
    SysChange k a (taskSuspend k.sys .suspended) := by
  have hid : taskSuspend k.sys .suspended =
      taskSuspend (k.sys.modify k.current id) .suspended := by
    rw [modify_id]
  rw [hid]
  exact h.change_suspend hc ha hu fun _ => rfl

theorem KernelInv.change_yield (h : KernelInv k) (hc : k.current ≠ 0) (ha : a.plain = true) :
    SysChange k a (taskYield k.sys) :=
  .yields ha hc (leaves_taskYield h.sys.kernelReady hc)

/-- **A step of the disk manager.** -/
theorem KernelInv.change_manager (h : KernelInv k) (hc : k.current = 1) {p : ManagerPoint}
    (hp : k.point 1 = .manager p) (hs : Managed k p k') : SysChange k .manager k'.sys := by
  have hc0 : k.current ≠ 0 := by omega
  have hu : ∀ x, k.point k.current ≠ .taskWait x := by
    rw [hc, hp]
    simp
  have hjoin : JoinersStay k k'.sys := .of_stays (a := .manager) rfl
    fun _ _ hb => h.stays_manager hb hc hp hs
  cases hs with
  | starts => exact .unchanged rfl
  | idles _ => exact h.change_yield hc0 rfl
  | serves _ | waits _ => exact h.change_blocks hc0 rfl hu
  | answers haw => exact .passive rfl (taskAwake_passive haw) hjoin

/-- **A call of a user task.** -/
theorem KernelInv.change_call (h : KernelInv k) (hc : 2 ≤ k.current)
    (hp : k.point k.current = .user) (hs : Called k a k') :
    SysChange k a k'.sys := by
  have hc0 : k.current ≠ 0 := by omega
  have hjoin : a.plain = true → JoinersStay k k'.sys := fun ha =>
    .of_stays ha fun _ _ hb => h.stays_call hb hc hs
  have hu : ∀ x, k.point k.current ≠ .taskWait x := by
    rw [hp]
    simp
  cases hs with
  | creates => exact .creates rfl (creates_taskCreate k.sys)
  | yields => exact h.change_yield hc0 rfl
  | sleeps | joins _ _ => exact h.change_suspend hc0 rfl hu fun _ => rfl
  | exits he => exact .exits hc hu he
  | waits _ _ => exact h.change_blocks hc0 rfl hu
  | asks hb =>
      rw [blockCall_of_buffer k hb]
      exact h.change_blocks hc0 rfl hu
  | ups _ _ haw => exact .passive rfl (taskAwake_passive haw) (hjoin rfl)
  | destroys _ hx => exact .passive rfl (semDestroy_passive hx).1 (hjoin rfl)
  | refused | finds _ _ | semCreates _ | semRefused _ | downs _ _ | rejects | stores =>
      exact .unchanged rfl

/-- **Every step** changes the task subsystem in one of the seven ways. -/
theorem KernelInv.change (h : KernelInv k) (hs : k.step a = some k') : SysChange k a k'.sys := by
  cases Kernel.stepped hs with
  | calls hc hu hcall => exact h.change_call (h.user_current hc hu) hu hcall
  | returns _ _ | returnsDown _ _ _ | transfers _ => exact .unchanged rfl
  | manages hc hp hm => exact h.change_manager hc hp hm
  | dispatches hc hd => exact h.change_dispatcher hc hd
  | interrupts _ haw =>
      exact .passive rfl (taskAwake_passive haw) (.of_stays rfl fun _ _ hb => h.stays hs hb)
  | ticks _ => exact .ticks

end PingPongOS
