import PingPongOS.Kernel
import PingPongOS.Wakeups

/-!
# The invariant of the kernel

A suspended task is blocked at one point, and that point decides where else its
name stands: a task blocked in `sem_down` is once in the wait queue of that
semaphore, a task blocked in `block_read` or `block_write` is once in `requests`,
a task that joins another waits for one that has not finished.  With the seats of
the task subsystem and what the disk manager, the disk and its interrupt owe each
other, every step keeps these facts.
-/

namespace PingPongOS

open Runs TaskSystem

/-- The point a suspended task is blocked at. -/
def Kernel.blockedAt (k : Kernel) (t : Nat) : Option TaskPoint :=
  if (k.sys.task t).status = .suspended then some (k.point t) else none

/-- What the point a task is blocked at says about it. -/
structure TaskInv (k : Kernel) (t : Nat) : Prop where
  waits : ∀ s, (k.sem s).waitQueue.items.count t =
    if k.blockedAt t = some (.semDown s) then 1 else 0
  asks : k.requests.items.count t = if k.blockedAt t = some .block then 1 else 0
  sleeps : (k.sys.task t).sleeping = true → k.blockedAt t = some .taskSleep
  joins : (k.sys.task t).targetToWait ≠ 0 →
    (k.sys.task t).targetToWait ≤ k.sys.currentTaskId ∧
      ((k.sys.task (k.sys.task t).targetToWait).status = .finished ∨
        k.blockedAt t = some (.taskWait (k.sys.task t).targetToWait))

/-- What the disk manager, the requests, the disk and its interrupt owe each other. -/
structure DiskInv (k : Kernel) : Prop where
  manager : ∃ p, k.point 1 = .manager p
  served : ∀ r, k.point 1 = .manager (.served r) → k.requests.items.head? = some r
  iterator : k.requests.passed = []
  caller : ∀ r, r ∈ k.requests.items → (k.request r).task = r ∧ (k.request r).buffer ≠ 0
  busy : k.disk.status ≠ .idle ∨ k.irqDisk = true →
    (∃ r, k.blockedAt 1 = some (.manager (.served r))) ∧ k.sys.occurs .ready 1 = 0
  once : k.disk.status ≠ .idle → k.irqDisk = false

/-- Created tasks bear their number as id, neither the kernel nor the disk manager
joins a task, and no task is suspended before it is created. -/
structure Names (S : TaskSystem) : Prop where
  ids : ∀ t, t ≤ S.currentTaskId → (S.task t).id = t
  neverWaits : ∀ t, t < 2 → (S.task t).targetToWait = 0
  fresh : ∀ t, S.currentTaskId < t → (S.task t).status ≠ .suspended

/-- **The invariant** of the kernel. -/
structure KernelInv (k : Kernel) : Prop where
  sys : SysInv none k.sys
  names : Names k.sys
  task : ∀ t, TaskInv k t
  disk : DiskInv k
  created : ∀ t s, k.point t = .semDown s → s < k.semCount
  unlocked : ∀ s, (k.sem s).lock = false
  ran : ∀ t, k.dispatcher = .ran t → t ≤ k.sys.currentTaskId

variable {k k' : Kernel} {S S' : TaskSystem} {t c s : Nat} {p : TaskPoint} {b : Tcb}
  {i : QueueId} {due : Nat → Prop}

/-! ## Facts that a step leaves alone -/

/-- Created tasks keep their ids, and finished ones stay finished. -/
structure Grows (S S' : TaskSystem) : Prop where
  currentTaskId : S.currentTaskId ≤ S'.currentTaskId
  ids : ∀ x, x ≤ S.currentTaskId → (S'.task x).id = (S.task x).id
  finished : ∀ x, x ≤ S.currentTaskId → (S.task x).status = .finished →
    (S'.task x).status = .finished

/-- The fields of task `t` that its invariant reads, its status apart. -/
structure SameFields (S S' : TaskSystem) (t : Nat) : Prop where
  sleeping : (S'.task t).sleeping = (S.task t).sleeping
  targetToWait : (S'.task t).targetToWait = (S.task t).targetToWait

/-- Task `t` is blocked where it was, and it is in the same queues. -/
structure SameTask (k k' : Kernel) (t : Nat) : Prop where
  blocked : k'.blockedAt t = k.blockedAt t
  fields : SameFields k.sys k'.sys t
  waits : ∀ s, (k'.sem s).waitQueue.items.count t = (k.sem s).waitQueue.items.count t
  asks : k'.requests.items.count t = k.requests.items.count t

theorem TaskInv.congr (h : TaskInv k t) (hs : SameTask k k' t) (hg : Grows k.sys k'.sys) :
    TaskInv k' t := by
  refine ⟨fun s => ?_, ?_, ?_, ?_⟩
  · rw [hs.waits, hs.blocked]
    exact h.waits s
  · rw [hs.asks, hs.blocked]
    exact h.asks
  · rw [hs.fields.sleeping, hs.blocked]
    exact h.sleeps
  · rw [hs.fields.targetToWait, hs.blocked]
    intro hne
    obtain ⟨hle, hjoin⟩ := h.joins hne
    exact ⟨Nat.le_trans hle hg.currentTaskId, hjoin.imp_left (hg.finished _ hle)⟩

theorem blockedAt_eq_some : k.blockedAt t = some p ↔
    (k.sys.task t).status = .suspended ∧ k.point t = p := by
  unfold Kernel.blockedAt
  split <;> simp_all

theorem blockedAt_of_not_suspended (h : (k.sys.task t).status ≠ .suspended) :
    k.blockedAt t = none := if_neg h

/-- Task `t` is blocked nowhere, or where only the disk manager is. -/
def Kernel.Free (k : Kernel) (t : Nat) : Prop :=
  ∀ p, k.blockedAt t = some p → ∃ q, p = .manager q

theorem free_of_not_suspended (h : (k.sys.task t).status ≠ .suspended) : k.Free t := by
  intro p hp
  exact absurd (blockedAt_eq_some.mp hp).1 h

/-- The disk manager is always free. -/
theorem DiskInv.free (h : DiskInv k) : k.Free 1 := by
  intro p hp
  obtain ⟨q, hq⟩ := h.manager
  exact ⟨q, (blockedAt_eq_some.mp hp).2.symm.trans hq⟩

/-- A free task is in no wait queue and has no request; it neither sleeps nor joins. -/
theorem TaskInv.free (h : TaskInv k t) (hf : k.Free t) :
    (∀ s, (k.sem s).waitQueue.items.count t = 0) ∧ k.requests.items.count t = 0 ∧
      (k.sys.task t).sleeping = false ∧
      ((k.sys.task t).targetToWait ≠ 0 →
        (k.sys.task (k.sys.task t).targetToWait).status = .finished) := by
  have hnot : ∀ {p}, (∀ q, p ≠ .manager q) → k.blockedAt t ≠ some p := by
    intro p hp heq
    obtain ⟨q, hq⟩ := hf p heq
    exact hp q hq
  refine ⟨fun s => ?_, ?_, ?_, fun hne => ?_⟩
  · rw [h.waits, if_neg (hnot (by simp))]
  · rw [h.asks, if_neg (hnot (by simp))]
  · by_contra hne
    exact hnot (by simp) (h.sleeps (by simpa using hne))
  · rcases (h.joins hne).2 with hfin | hb
    · exact hfin
    · exact absurd hb (hnot (by simp))

/-- A free task that stays free keeps its facts. -/
theorem TaskInv.of_free (h : TaskInv k t) (hf : k.Free t) (hf' : k'.Free t)
    (hg : Grows k.sys k'.sys) (hfields : SameFields k.sys k'.sys t)
    (hwaits : ∀ s, (k'.sem s).waitQueue.items.count t = (k.sem s).waitQueue.items.count t)
    (hasks : k'.requests.items.count t = k.requests.items.count t) : TaskInv k' t := by
  obtain ⟨hw, ha, hs, hj⟩ := h.free hf
  have hnot : ∀ {p}, (∀ q, p ≠ .manager q) → k'.blockedAt t ≠ some p := by
    intro p hp heq
    obtain ⟨q, hq⟩ := hf' p heq
    exact hp q hq
  refine ⟨fun s => ?_, ?_, ?_, ?_⟩
  · rw [hwaits, hw, if_neg (hnot (by simp))]
  · rw [hasks, ha, if_neg (hnot (by simp))]
  · rw [hfields.sleeping, hs]
    exact fun heq => absurd heq (by simp)
  · rw [hfields.targetToWait]
    intro hne
    have hle := (h.joins hne).1
    exact ⟨Nat.le_trans hle hg.currentTaskId, Or.inl (hg.finished _ hle (hj hne))⟩

/-- A task that is woken is in no wait queue any more, and what it waited for has come. -/
theorem TaskInv.woken (h : TaskInv k t) (hg : Grows k.sys k'.sys)
    (hfields : (k'.sys.task t).targetToWait = (k.sys.task t).targetToWait)
    (hb : k'.blockedAt t = none) (hsleeping : (k'.sys.task t).sleeping = false)
    (hwaits : ∀ s, (k'.sem s).waitQueue.items.count t = 0)
    (hasks : k'.requests.items.count t = 0)
    (hjoin : ∀ x, k.blockedAt t = some (.taskWait x) → x ≠ 0 →
      (k'.sys.task x).status = .finished) : TaskInv k' t := by
  refine ⟨fun s => ?_, ?_, ?_, ?_⟩
  · rw [hwaits, hb]
    rfl
  · rw [hasks, hb]
    rfl
  · rw [hsleeping]
    exact fun heq => absurd heq (by simp)
  · rw [hfields]
    intro hne
    obtain ⟨hle, hor⟩ := h.joins hne
    refine ⟨Nat.le_trans hle hg.currentTaskId, Or.inl ?_⟩
    rcases hor with hfin | hblocked
    · exact hg.finished _ hle hfin
    · exact hjoin _ hblocked hne

theorem DiskInv.congr (h : DiskInv k) (hpoint : k'.point 1 = k.point 1)
    (hrequests : k'.requests = k.requests) (hrequest : k'.request = k.request)
    (hstatus : k'.disk.status = k.disk.status) (hirq : k'.irqDisk = k.irqDisk)
    (hseat : k.sys.occurs .ready 1 = 0 → (k.sys.task 1).status = .suspended →
      (k'.sys.task 1).status = .suspended ∧ k'.sys.occurs .ready 1 = 0) : DiskInv k' := by
  refine ⟨?_, ?_, ?_, ?_, ?_, ?_⟩
  · rw [hpoint]
    exact h.manager
  · rw [hpoint, hrequests]
    exact h.served
  · rw [hrequests]
    exact h.iterator
  · rw [hrequests, hrequest]
    exact h.caller
  · rw [hstatus, hirq]
    intro hbusy
    obtain ⟨⟨r, hr⟩, hready⟩ := h.busy hbusy
    obtain ⟨hsusp, hp⟩ := blockedAt_eq_some.mp hr
    obtain ⟨hsusp', hready'⟩ := hseat hready hsusp
    exact ⟨⟨r, blockedAt_eq_some.mpr ⟨hsusp', hpoint.trans hp⟩⟩, hready'⟩
  · rw [hstatus, hirq]
    exact h.once

/-- While the disk manager can run, the disk is idle and owes no interrupt. -/
theorem DiskInv.idle (h : DiskInv k)
    (hawake : (k.sys.task 1).status ≠ .suspended ∨ k.sys.occurs .ready 1 ≠ 0) :
    k.disk.status = .idle ∧ k.irqDisk = false := by
  by_contra hne
  have hbusy : k.disk.status ≠ .idle ∨ k.irqDisk = true := by
    by_cases hs : k.disk.status = .idle
    · right
      by_contra hirq
      exact hne ⟨hs, by simpa using hirq⟩
    · exact Or.inl hs
  obtain ⟨⟨r, hr⟩, hready⟩ := h.busy hbusy
  rcases hawake with hs | hr'
  · exact hs (blockedAt_eq_some.mp hr).1
  · exact hr' hready

/-! ## What the moves of tasks leave alone -/

theorem Quiet.grows (h : Quiet S S') : Grows S S' :=
  ⟨le_of_eq h.currentTaskId.symm, fun x _ => (h.fields x).2.2.1,
    fun x _ hx => (h.fields x).1.trans hx⟩

theorem Leaves.grows (h : SysInv none S) (hc : S.currentActiveTask ≠ 0) (hl : Leaves S S' b i)
    (hid : b.id = (S.task S.currentActiveTask).id) : Grows S S' := by
  refine ⟨le_of_eq hl.currentTaskId.symm, fun x _ => ?_, fun x _ hx => ?_⟩
  · by_cases hxc : x = S.currentActiveTask
    · rw [hxc, hl.task, hid]
    · by_cases hx0 : x = 0
      · rw [hx0, hl.kernel]
      · rw [hl.others x hxc hx0]
  · by_cases hxc : x = S.currentActiveTask
    · rw [hxc, (h.running hc).1] at hx
      exact absurd hx (by decide)
    · rw [(hl.sameSeat hxc).status, hx]

theorem Leaves.sameFields (hl : Leaves S S' b i) (ht : t ≠ S.currentActiveTask) :
    SameFields S S' t := by
  by_cases ht0 : t = 0
  · subst ht0
    exact ⟨by rw [hl.kernel], by rw [hl.kernel]⟩
  · exact ⟨by rw [hl.others t ht ht0], by rw [hl.others t ht ht0]⟩

/-- A task in `ready_queue` is ready; only the disk manager may still be suspended. -/
theorem SysInv.ready_status (h : SysInv none S) (ht : 0 < S.occurs .ready t) :
    t ≠ 0 ∧ t ≤ S.currentTaskId ∧ (t = 1 ∨ (S.task t).status = .ready) := by
  have ht0 : t ≠ 0 := by
    intro heq
    have := h.kernelQueues .ready
    rw [heq] at ht
    omega
  have hle : t ≤ S.currentTaskId := by
    by_contra hgt
    have := h.fresh t (by omega) .ready
    omega
  refine ⟨ht0, hle, ?_⟩
  by_cases ht1 : t = 1
  · exact Or.inl ht1
  · right
    have hseat := (h.users t (by simp) (by omega) hle).occurs .ready
    by_contra hne
    rw [if_neg ?_] at hseat
    · omega
    · unfold home
      cases hs : (S.task t).status with
      | ready => exact absurd hs hne
      | running => simp
      | suspended => cases (S.task t).sleeping <;> simp
      | finished => simp

theorem SysInv.not_finished (h : SysInv none S) (ht : 0 < S.occurs .ready t) :
    (S.task t).status ≠ .finished := by
  rcases (h.ready_status ht).2.2 with rfl | hs
  · exact h.manager.notFinished
  · rw [hs]
    decide

theorem Dispatches.grows (h : SysInv none S) (ht : 0 < S.occurs .ready t)
    (hd : Dispatches S S' t) : Grows S S' := by
  refine ⟨le_of_eq hd.currentTaskId.symm, fun x _ => ?_, fun x _ hx => ?_⟩
  · by_cases hxt : x = t
    · subst hxt
      rw [hd.task]
    · rw [hd.others x hxt]
  · by_cases hxt : x = t
    · subst hxt
      exact absurd hx (h.not_finished ht)
    · rw [hd.others x hxt, hx]

theorem Creates.grows (hc : Creates S S') : Grows S S' := by
  refine ⟨by rw [hc.currentTaskId]; exact Nat.le_succ _, fun x hx => ?_, fun x hx hfin => ?_⟩
  · rw [hc.others x (by omega)]
  · rw [hc.others x (by omega), hfin]

theorem Wakes.grows (hw : Wakes due S S') : Grows S S' := by
  refine ⟨le_of_eq hw.currentTaskId.symm, fun x _ => (hw.fields x).ids.1, fun x _ hx => ?_⟩
  rcases hw.seats x with hs | ⟨-, hwoken⟩
  · rw [hs.status, hx]
  · exact absurd (hx.symm.trans hwoken.was) (by decide)

theorem Exits.grows (he : Exits S S' c) : Grows S S' := by
  refine ⟨le_of_eq he.currentTaskId.symm, fun x _ => (he.ids x).1, fun x _ hx => ?_⟩
  by_cases hxc : x = c
  · rw [hxc]
    exact he.finished
  · rcases he.others x hxc with hs | ⟨-, -, hwoken⟩
    · rw [hs.status, hx]
    · exact absurd (hx.symm.trans hwoken.was) (by decide)

/-- Names stay right while no task is created. -/
theorem Names.congr (h : Names S) (hg : Grows S S')
    (hn : S'.currentTaskId = S.currentTaskId)
    (htarget : ∀ t, t < 2 → (S'.task t).targetToWait = (S.task t).targetToWait)
    (hfresh : ∀ t, S.currentTaskId < t → (S'.task t).status = .suspended →
      (S.task t).status = .suspended) : Names S' := by
  refine ⟨fun t ht => ?_, fun t ht => ?_, fun t ht hs => ?_⟩
  · rw [hn] at ht
    rw [hg.ids t ht, h.ids t ht]
  · rw [htarget t ht, h.neverWaits t ht]
  · rw [hn] at ht
    exact h.fresh t ht (hfresh t ht hs)

/-! ## Moves of the task subsystem alone -/

/-- Nothing outside the task subsystem that the invariant reads has changed, but where
the dispatcher goes on. -/
structure SameRest (k k' : Kernel) : Prop where
  point : k'.point = k.point
  sem : k'.sem = k.sem
  semCount : k'.semCount = k.semCount
  request : k'.request = k.request
  requests : k'.requests = k.requests
  disk : k'.disk.status = k.disk.status
  irqDisk : k'.irqDisk = k.irqDisk

/-- A task keeps its facts when its status stays, or changes between two that are not
suspended. -/
theorem SameRest.sameTask (hr : SameRest k k') (hf : SameFields k.sys k'.sys t)
    (hs : (k'.sys.task t).status = .suspended ↔ (k.sys.task t).status = .suspended) :
    SameTask k k' t := by
  refine ⟨?_, hf, fun s => by rw [hr.sem], by rw [hr.requests]⟩
  unfold Kernel.blockedAt
  rw [hr.point]
  by_cases h : (k.sys.task t).status = .suspended
  · rw [if_pos h, if_pos (hs.mpr h)]
  · rw [if_neg h, if_neg fun h' => h (hs.mp h')]

theorem SameRest.created (hr : SameRest k k') (h : KernelInv k) (t s : Nat)
    (hp : k'.point t = .semDown s) : s < k'.semCount := by
  rw [hr.point] at hp
  rw [hr.semCount]
  exact h.created t s hp

theorem KernelInv.quiet (h : KernelInv k) (hq : Quiet k.sys k'.sys) (hr : SameRest k k')
    (hran : ∀ t, k'.dispatcher = .ran t → t ≤ k.sys.currentTaskId) : KernelInv k' := by
  have hg := hq.grows
  refine ⟨h.sys.quiet hq, ?_, fun t => ?_, ?_, hr.created h, ?_, ?_⟩
  · exact h.names.congr hg hq.currentTaskId (fun t _ => (hq.fields t).2.2.2)
      fun t _ hs => (hq.fields t).1.symm.trans hs
  · obtain ⟨hstatus, hsleeping, -, htarget⟩ := hq.fields t
    exact (h.task t).congr (hr.sameTask ⟨hsleeping, htarget⟩ (by rw [hstatus])) hg
  · apply h.disk.congr (by rw [hr.point]) hr.requests hr.request hr.disk hr.irqDisk
    rw [(hq.fields 1).1, hq.occurs]
    exact fun hready hs => ⟨hs, hready⟩
  · rw [hr.sem]
    exact h.unlocked
  · rw [hq.currentTaskId]
    exact hran

theorem KernelInv.creates (h : KernelInv k) (hc : Creates k.sys k'.sys) (hr : SameRest k k')
    (hran : ∀ t, k'.dispatcher = .ran t → t ≤ k.sys.currentTaskId) : KernelInv k' := by
  have hg := hc.grows
  have hboot := h.sys.booted
  refine ⟨h.sys.create hc, ⟨fun t ht => ?_, fun t ht => ?_, fun t ht => ?_⟩, fun t => ?_, ?_,
    hr.created h, ?_, fun t ht => ?_⟩
  · rw [hc.currentTaskId] at ht
    by_cases hnew : t = k.sys.currentTaskId + 1
    · rw [hnew, hc.task]
    · rw [hc.others t hnew, h.names.ids t (by omega)]
  · rw [hc.others t (by omega), h.names.neverWaits t ht]
  · rw [hc.currentTaskId] at ht
    rw [hc.others t (by omega)]
    exact h.names.fresh t (by omega)
  · by_cases hnew : t = k.sys.currentTaskId + 1
    · -- the new task is blocked nowhere, before its creation and after it
      have hold := (h.task t).free (free_of_not_suspended (h.names.fresh t (by omega)))
      have htask := hc.task
      rw [← hnew] at htask
      have hb : k'.blockedAt t = none := blockedAt_of_not_suspended (by rw [htask]; simp [Tcb.zero])
      refine ⟨fun s => ?_, ?_, ?_, ?_⟩
      · rw [hr.sem, hb, hold.1]
        rfl
      · rw [hr.requests, hb, hold.2.1]
        rfl
      · rw [htask]
        exact fun heq => absurd heq (by simp [Tcb.zero])
      · rw [htask]
        exact fun hne => absurd rfl hne
    · have htask := hc.others t hnew
      exact (h.task t).congr (hr.sameTask ⟨by rw [htask], by rw [htask]⟩ (by rw [htask])) hg
  · apply h.disk.congr (by rw [hr.point]) hr.requests hr.request hr.disk hr.irqDisk
    rw [hc.others 1 (by omega), (hc.sameSeat (by omega)).occurs]
    exact fun hready hs => ⟨hs, hready⟩
  · rw [hr.sem]
    exact h.unlocked
  · rw [hc.currentTaskId]
    exact Nat.le_succ_of_le (hran t ht)

theorem KernelInv.dispatches (h : KernelInv k) (hcur : k.current = 0)
    (ht : 0 < k.sys.occurs .ready t) (hd : Dispatches k.sys k'.sys t) (hr : SameRest k k')
    (hran : ∀ t, k'.dispatcher = .ran t → t ≤ k.sys.currentTaskId) : KernelInv k' := by
  have hg := hd.grows h.sys ht
  refine ⟨h.sys.run hcur ht hd, ?_, fun x => ?_, ?_, hr.created h, ?_, ?_⟩
  · apply h.names.congr hg hd.currentTaskId
    · intro x _
      by_cases hx : x = t
      · rw [hx, hd.task]
      · rw [hd.others x hx]
    · intro x hlt hs
      have hx : x ≠ t := by
        intro heq
        have := h.sys.fresh x hlt .ready
        rw [heq] at this
        omega
      rw [hd.others x hx] at hs
      exact hs
  · by_cases hx : x = t
    · subst hx
      apply (h.task x).of_free
      · rcases (h.sys.ready_status ht).2.2 with rfl | hs
        · exact h.disk.free
        · exact free_of_not_suspended (by rw [hs]; decide)
      · exact free_of_not_suspended (by rw [hd.task]; simp)
      · exact hg
      · exact ⟨by rw [hd.task], by rw [hd.task]⟩
      · exact fun s => by rw [hr.sem]
      · rw [hr.requests]
    · have htask := hd.others x hx
      exact (h.task x).congr (hr.sameTask ⟨by rw [htask], by rw [htask]⟩ (by rw [htask])) hg
  · apply h.disk.congr (by rw [hr.point]) hr.requests hr.request hr.disk hr.irqDisk
    intro hready hs
    have hne : (1 : Nat) ≠ t := by
      rintro rfl
      omega
    rw [hd.others 1 hne, (hd.sameSeat hne).occurs]
    exact ⟨hs, hready⟩
  · rw [hr.sem]
    exact h.unlocked
  · rw [hd.currentTaskId]
    exact hran

/-! ## A task leaves the CPU -/

/-- The disk manager's seat is not touched while it is suspended. -/
theorem Leaves.manager_seat (h : SysInv none S) (hc : S.currentActiveTask ≠ 0)
    (hl : Leaves S S' b i) (hready : S.occurs .ready 1 = 0)
    (hs : (S.task 1).status = .suspended) :
    (S'.task 1).status = .suspended ∧ S'.occurs .ready 1 = 0 := by
  have hne : 1 ≠ S.currentActiveTask := by
    intro heq
    rw [heq, (h.running hc).1] at hs
    exact absurd hs (by decide)
  rw [(hl.sameSeat hne).status, (hl.sameSeat hne).occurs]
  exact ⟨hs, hready⟩

/-- **The running task leaves the CPU**, at the point and in the queues that `k'` has
for it. -/
theorem KernelInv.leaves (h : KernelInv k) (hc : k.current ≠ 0) (hl : Leaves k.sys k'.sys b i)
    (hsys : SysInv none k'.sys) (hid : b.id = (k.sys.task k.current).id)
    (htarget : k.current < 2 → b.targetToWait = 0)
    (hpoint : ∀ t, t ≠ k.current → k'.point t = k.point t)
    (hcreated : ∀ s, k'.point k.current = .semDown s → s < k.semCount)
    (hwaits : ∀ t, t ≠ k.current → ∀ s,
      (k'.sem s).waitQueue.items.count t = (k.sem s).waitQueue.items.count t)
    (hasks : ∀ t, t ≠ k.current → k'.requests.items.count t = k.requests.items.count t)
    (hsem : k'.semCount = k.semCount) (hcur : TaskInv k' k.current) (hdisk : DiskInv k')
    (hunlocked : ∀ s, (k'.sem s).lock = false) (hdispatcher : k'.dispatcher = k.dispatcher) :
    KernelInv k' := by
  have hg := hl.grows h.sys hc hid
  refine ⟨hsys, ?_, fun t => ?_, hdisk, fun t s hp => ?_, hunlocked, ?_⟩
  · apply h.names.congr hg hl.currentTaskId
    · intro t ht
      by_cases htc : t = k.current
      · rw [h.names.neverWaits t ht, htc]
        exact (congrArg Tcb.targetToWait hl.task).trans (htarget (htc ▸ ht))
      · exact (hl.sameFields htc).targetToWait
    · intro t ht hs
      have htc : t ≠ k.current := by
        have := h.sys.current
        intro heq
        rw [heq] at ht
        exact absurd this (by simpa [Kernel.current] using ht)
      rw [← (hl.sameSeat htc).status]
      exact hs
  · by_cases htc : t = k.current
    · rw [htc]
      exact hcur
    · apply (h.task t).congr ⟨?_, hl.sameFields htc, hwaits t htc, hasks t htc⟩ hg
      unfold Kernel.blockedAt
      rw [hpoint t htc, (hl.sameSeat htc).status]
  · rw [hsem]
    by_cases htc : t = k.current
    · exact hcreated s (htc ▸ hp)
    · exact h.created t s ((hpoint t htc).symm.trans hp)
  · rw [hdispatcher, hl.currentTaskId]
    exact h.ran

/-- The running task is not blocked. -/
theorem KernelInv.free_current (h : KernelInv k) (hc : k.current ≠ 0) : k.Free k.current :=
  free_of_not_suspended (by
    rw [show k.sys.task k.current = k.sys.task k.sys.currentActiveTask from rfl,
      (h.sys.running hc).1]
    decide)

/-- A step of the running task after which it is still free keeps its facts. -/
theorem KernelInv.stays_free (h : KernelInv k) (hc : k.current ≠ 0)
    (hl : Leaves k.sys k'.sys b i) (hid : b.id = (k.sys.task k.current).id)
    (hsleeping : b.sleeping = (k.sys.task k.current).sleeping)
    (htarget : b.targetToWait = (k.sys.task k.current).targetToWait)
    (hfree : k'.Free k.current) (hsem : k'.sem = k.sem) (hrequests : k'.requests = k.requests) :
    TaskInv k' k.current := by
  apply (h.task _).of_free (h.free_current hc) hfree (hl.grows h.sys hc hid)
  · exact ⟨(congrArg Tcb.sleeping hl.task).trans hsleeping,
      (congrArg Tcb.targetToWait hl.task).trans htarget⟩
  · exact fun s => by rw [hsem]
  · rw [hrequests]

theorem KernelInv.yield (h : KernelInv k) (hc : k.current ≠ 0) :
    KernelInv { k with sys := taskYield k.sys } := by
  have hl := leaves_taskYield h.sys.kernelReady hc
  have hfree : Kernel.Free { k with sys := taskYield k.sys } k.current :=
    free_of_not_suspended fun hs =>
      absurd ((congrArg Tcb.status hl.task).symm.trans hs) (by simp)
  exact h.leaves hc hl (h.sys.yield hc) rfl (h.names.neverWaits _) (fun _ _ => rfl)
    (h.created _) (fun _ _ _ => rfl) (fun _ _ => rfl) rfl
    (h.stays_free hc hl rfl rfl rfl hfree rfl rfl)
    (h.disk.congr rfl rfl rfl rfl rfl (hl.manager_seat h.sys hc)) h.unlocked rfl

/-- A timer tick. -/
theorem KernelInv.tick (h : KernelInv k) :
    KernelInv { k with sys := handleTimerSignal k.sys } := by
  rcases tick_cases h.sys.kernelReady with hq | ⟨S₁, hq, hc, htick⟩
  · exact h.quiet hq ⟨rfl, rfl, rfl, rfl, rfl, rfl, rfl⟩ h.ran
  · have h₁ : KernelInv { k with sys := S₁ } :=
      h.quiet hq ⟨rfl, rfl, rfl, rfl, rfl, rfl, rfl⟩ h.ran
    rw [htick]
    exact h₁.yield hc

/-! ## A task blocks -/

/-- The facts about a task that has just blocked at `p`. -/
theorem TaskInv.of_blocked (hb : k.blockedAt t = some p)
    (hwaits : ∀ s, (k.sem s).waitQueue.items.count t = if p = .semDown s then 1 else 0)
    (hasks : k.requests.items.count t = if p = .block then 1 else 0)
    (hsleeps : (k.sys.task t).sleeping = true → p = .taskSleep)
    (hjoins : (k.sys.task t).targetToWait ≠ 0 →
      (k.sys.task t).targetToWait ≤ k.sys.currentTaskId ∧
        ((k.sys.task (k.sys.task t).targetToWait).status = .finished ∨
          p = .taskWait (k.sys.task t).targetToWait)) : TaskInv k t := by
  refine ⟨fun s => ?_, ?_, fun hs => ?_, fun hne => ?_⟩
  · rw [hb, hwaits]
    simp
  · rw [hb, hasks]
    simp
  · rw [hb, hsleeps hs]
  · rw [hb]
    obtain ⟨hle, hor⟩ := hjoins hne
    exact ⟨hle, hor.imp_right (congrArg some)⟩

/-- **The running user task suspends itself at `p`**, after a change `f` of its
descriptor. -/
theorem KernelInv.blocks {f : Tcb → Tcb} (h : KernelInv k) (hc : 2 ≤ k.current)
    (hsuspend : k'.sys = taskSuspend (k.sys.modify k.current f) i)
    (hsys : SysInv none k'.sys)
    (hpoint : k'.point = Function.update k.point k.current p)
    (hid : ∀ b, (f b).id = b.id)
    (hother : ∀ t, t ≠ k.current → (∀ s,
      (k'.sem s).waitQueue.items.count t = (k.sem s).waitQueue.items.count t) ∧
      k'.requests.items.count t = k.requests.items.count t)
    (hwaits : ∀ s, (k'.sem s).waitQueue.items.count k.current =
      if p = .semDown s then 1 else 0)
    (hasks : k'.requests.items.count k.current = if p = .block then 1 else 0)
    (hcreated : ∀ s, p = .semDown s → s < k.semCount)
    (hsleeps : (f (k.sys.task k.current)).sleeping = true → p = .taskSleep)
    (hjoins : (f (k.sys.task k.current)).targetToWait ≠ 0 →
      (f (k.sys.task k.current)).targetToWait ≤ k.sys.currentTaskId ∧
        ((k.sys.task (f (k.sys.task k.current)).targetToWait).status = .finished ∨
          p = .taskWait (f (k.sys.task k.current)).targetToWait))
    (hsem : k'.semCount = k.semCount) (hdisk : DiskInv k')
    (hunlocked : ∀ s, (k'.sem s).lock = false) (hdispatcher : k'.dispatcher = k.dispatcher) :
    KernelInv k' := by
  have hc0 : k.current ≠ 0 := by omega
  have hl : Leaves k.sys k'.sys
      { f (k.sys.task k.current) with status := .suspended } i := by
    rw [hsuspend]
    exact leaves_taskSuspend h.sys.kernelReady hc0 f i
  have htask : k'.sys.task k.current = { f (k.sys.task k.current) with status := .suspended } :=
    hl.task
  have hg := hl.grows h.sys hc0 (hid _)
  apply h.leaves hc0 hl hsys (hid _) (fun hlt => absurd hlt (by omega)) _ _
    (fun t ht => (hother t ht).1) (fun t ht => (hother t ht).2) hsem _ hdisk hunlocked hdispatcher
  · intro t ht
    rw [hpoint, Function.update_of_ne ht]
  · rw [hpoint, Function.update_self]
    exact hcreated
  · apply @TaskInv.of_blocked k' k.current p
    · rw [blockedAt_eq_some, htask, hpoint]
      exact ⟨rfl, Function.update_self ..⟩
    · exact hwaits
    · exact hasks
    · rw [htask]
      exact hsleeps
    · rw [htask]
      intro hne
      obtain ⟨hle, hor⟩ := hjoins hne
      exact ⟨Nat.le_trans hle hg.currentTaskId, hor.imp_left (hg.finished _ hle)⟩

/-- **The running user task suspends itself at `p`**, in `suspended_queue`. -/
theorem KernelInv.suspends (h : KernelInv k) (hc : 2 ≤ k.current)
    (hsuspend : k'.sys = taskSuspend k.sys .suspended)
    (hpoint : k'.point = Function.update k.point k.current p)
    (hwaits : ∀ t s, (k'.sem s).waitQueue.items.count t =
      (k.sem s).waitQueue.items.count t + if p = .semDown s ∧ t = k.current then 1 else 0)
    (hasks : ∀ t, k'.requests.items.count t =
      k.requests.items.count t + if p = .block ∧ t = k.current then 1 else 0)
    (hcreated : ∀ s, p = .semDown s → s < k.semCount)
    (hsem : k'.semCount = k.semCount) (hdisk : DiskInv k')
    (hunlocked : ∀ s, (k'.sem s).lock = false) (hdispatcher : k'.dispatcher = k.dispatcher) :
    KernelInv k' := by
  obtain ⟨hw, ha, hsleep, hj⟩ := (h.task _).free (h.free_current (by omega))
  have hid : k'.sys = taskSuspend (k.sys.modify k.current id) .suspended := by
    rw [hsuspend, modify_id]
  have hsys : SysInv none k'.sys := by
    rw [hid]
    exact h.sys.suspend (show k.current ≠ 0 by omega) fun _ => rfl
  refine h.blocks hc hid hsys hpoint (fun _ => rfl) (fun t ht => ⟨fun s => ?_, ?_⟩) (fun s => ?_)
    ?_ hcreated ?_ ?_ hsem hdisk hunlocked hdispatcher
  · rw [hwaits, if_neg fun h => ht h.2, Nat.add_zero]
  · rw [hasks, if_neg fun h => ht h.2, Nat.add_zero]
  · rw [hwaits, hw]
    simp
  · rw [hasks, ha]
    simp
  · exact fun hs => absurd (hsleep.symm.trans hs) (by simp)
  · exact fun hne => ⟨((h.task _).joins hne).1, Or.inl (hj hne)⟩

/-- The running task goes on elsewhere. -/
theorem KernelInv.setPoint (h : KernelInv k) (hc : k.current ≠ 0) (hp : ∀ s, p ≠ .semDown s)
    (hdisk : DiskInv (k.setPoint p)) : KernelInv (k.setPoint p) := by
  have hg : Grows k.sys (k.setPoint p).sys := ⟨Nat.le_refl _, fun _ _ => rfl, fun _ _ h => h⟩
  have hfree := h.free_current hc
  have hother : ∀ t, t ≠ k.current → (k.setPoint p).point t = k.point t :=
    fun t ht => Function.update_of_ne ht ..
  refine ⟨h.sys, h.names, fun t => ?_, hdisk, fun t s hs => ?_, h.unlocked, h.ran⟩
  · by_cases ht : t = k.current
    · rw [ht]
      apply (h.task _).of_free hfree _ hg ⟨rfl, rfl⟩ (fun _ => rfl) rfl
      apply free_of_not_suspended
      rw [show (k.setPoint p).sys.task k.current = k.sys.task k.sys.currentActiveTask from rfl,
        (h.sys.running hc).1]
      decide
    · have hsame : SameTask k (k.setPoint p) t := by
        refine ⟨?_, ⟨rfl, rfl⟩, fun _ => rfl, rfl⟩
        unfold Kernel.blockedAt
        rw [hother t ht]
        rfl
      exact (h.task t).congr hsame hg
  · by_cases ht : t = k.current
    · have hself : (k.setPoint p).point t = p := by
        rw [ht]
        exact Function.update_self k.current p k.point
      exact absurd (hself.symm.trans hs) (hp s)
    · exact h.created t s ((hother t ht).symm.trans hs)

/-! ## Tasks are woken -/

/-- A task that is woken is blocked nowhere. -/
theorem Woken.blockedAt (hw : Woken k.sys k'.sys t) : k'.blockedAt t = none :=
  blockedAt_of_not_suspended (by rw [hw.status]; decide)

/-- **Tasks are woken**, and leave the queues they waited in. -/
theorem KernelInv.wakes (h : KernelInv k) (hw : Wakes due k.sys k'.sys)
    (hsys : SysInv none k'.sys) (hpoint : k'.point = k.point)
    (hother : ∀ t, SameSeat k.sys k'.sys t → (∀ s,
      (k'.sem s).waitQueue.items.count t = (k.sem s).waitQueue.items.count t) ∧
      k'.requests.items.count t = k.requests.items.count t)
    (hwoken : ∀ t, due t → Woken k.sys k'.sys t →
      (∀ s, (k'.sem s).waitQueue.items.count t = 0) ∧ k'.requests.items.count t = 0 ∧
        ∀ x, k.blockedAt t = some (.taskWait x) → x ≠ 0 →
          (k'.sys.task x).status = .finished)
    (hsem : k'.semCount = k.semCount) (hdisk : DiskInv k')
    (hunlocked : ∀ s, (k'.sem s).lock = false)
    (hran : ∀ t, k'.dispatcher = .ran t → t ≤ k.sys.currentTaskId) : KernelInv k' := by
  have hg := hw.grows
  refine ⟨hsys, ?_, fun t => ?_, hdisk, ?_, hunlocked, ?_⟩
  · apply h.names.congr hg hw.currentTaskId
    · exact fun t _ => (hw.fields t).ids.2.1
    · intro t _ hs
      rcases hw.seats t with hseat | ⟨-, hwk⟩
      · rw [← hseat.status]
        exact hs
      · exact hwk.was
  · rcases hw.seats t with hseat | ⟨hd, hwk⟩
    · obtain ⟨hwaits, hasks⟩ := hother t hseat
      apply (h.task t).congr ⟨?_, ⟨hseat.sleeping, (hw.fields t).ids.2.1⟩, hwaits, hasks⟩ hg
      unfold Kernel.blockedAt
      rw [hseat.status, hpoint]
    · obtain ⟨hwaits, hasks, hjoin⟩ := hwoken t hd hwk
      exact (h.task t).woken hg (hw.fields t).ids.2.1 hwk.blockedAt hwk.sleeping hwaits hasks
        hjoin
  · rw [hpoint, hsem]
    exact h.created
  · rw [hw.currentTaskId]
    exact hran

/-- The disk manager keeps its facts when other tasks are woken. -/
theorem Wakes.manager_seat (hw : Wakes due S S') (hnot : ¬ due 1)
    (hready : S.occurs .ready 1 = 0) (hs : (S.task 1).status = .suspended) :
    (S'.task 1).status = .suspended ∧ S'.occurs .ready 1 = 0 := by
  rcases hw.seats 1 with hseat | ⟨hd, -⟩
  · rw [hseat.status, hseat.occurs]
    exact ⟨hs, hready⟩
  · exact absurd hd hnot

/-- Sleepers are woken. -/
theorem KernelInv.wakes_sleepers (h : KernelInv k) (hw : Wakes (Sleeps k.sys) k.sys k'.sys)
    (hsys : SysInv none k'.sys) (hr : SameRest k k')
    (hran : ∀ t, k'.dispatcher = .ran t → t ≤ k.sys.currentTaskId) : KernelInv k' := by
  apply h.wakes hw hsys hr.point
  · exact fun t _ => ⟨fun s => by rw [hr.sem], by rw [hr.requests]⟩
  · intro t hd _
    have hb := (h.task t).sleeps hd.2.2
    refine ⟨fun s => ?_, ?_, fun x hx => ?_⟩
    · rw [hr.sem, (h.task t).waits, hb]
      simp
    · rw [hr.requests, (h.task t).asks, hb]
      simp
    · rw [hb] at hx
      exact absurd hx (by simp)
  · exact hr.semCount
  · exact h.disk.congr (by rw [hr.point]) hr.requests hr.request hr.disk hr.irqDisk
      (hw.manager_seat fun h1 => absurd h1.1 (by decide))
  · rw [hr.sem]
    exact h.unlocked
  · exact hran

end PingPongOS
