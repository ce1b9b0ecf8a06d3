import PingPongOS.Dispatcher

/-!
# Every task has one seat

A task is running, or it is once in the queue that its status names.  The disk
manager is the exception: `block_init` puts it in `suspended_queue` while
`task_create` has put it in `ready_queue`, and the extra entry stays for ever.
Each function of the dispatcher moves one task, or wakes tasks, and keeps the
others where they are.
-/

namespace PingPongOS

open TaskSystem

/-- How often task `x` is in the queue `i`. -/
def TaskSystem.occurs (S : TaskSystem) (i : QueueId) (x : Nat) : Nat :=
  (S.inQueue i).count x

/-- The queue a task with this descriptor is in; none while it runs. -/
def home (b : Tcb) : Option QueueId :=
  match b.status with
  | .running => none
  | .ready => some .ready
  | .suspended => some (if b.sleeping then .sleeping else .suspended)
  | .finished => some .finished

/-- Task `x` is once in the queue of its status and in no other, and it runs exactly
when its status says so; only a suspended task sleeps. -/
structure Seated (S : TaskSystem) (x : Nat) : Prop where
  occurs : ∀ i, S.occurs i x = if home (S.task x) = some i then 1 else 0
  running : (S.task x).status = .running ↔ S.currentActiveTask = x
  sleeping : (S.task x).status ≠ .suspended → (S.task x).sleeping = false

/-- The disk manager: as `Seated`, with one more entry in `suspended_queue`, until it
has run for the first time in place of one there. -/
structure ManagerSeat (S : TaskSystem) : Prop where
  running : (S.task 1).status = .running ↔ S.currentActiveTask = 1
  awake : (S.task 1).sleeping = false
  notFinished : (S.task 1).status ≠ .finished
  elsewhere : S.occurs .sleeping 1 = 0 ∧ S.occurs .finished 1 = 0
  whenRunning : (S.task 1).status = .running →
    S.occurs .ready 1 = 0 ∧ S.occurs .suspended 1 = 1
  whenReady : (S.task 1).status = .ready →
    S.occurs .ready 1 = 1 ∧ S.occurs .suspended 1 = 1
  whenSuspended : (S.task 1).status = .suspended →
    (S.occurs .ready 1 = 1 ∧ S.occurs .suspended 1 = 1) ∨
      (S.occurs .ready 1 = 0 ∧ S.occurs .suspended 1 = 2)

/-- Every task created, but the one that is `out`, has its seat. -/
structure SysInv (out : Option Nat) (S : TaskSystem) : Prop where
  users : ∀ x, some x ≠ out → 2 ≤ x → x ≤ S.currentTaskId → Seated S x
  manager : ManagerSeat S
  kernelReady : (S.task 0).status = .ready
  kernelQueues : ∀ i, S.occurs i 0 = 0
  fresh : ∀ x, S.currentTaskId < x → ∀ i, S.occurs i x = 0
  current : S.currentActiveTask ≤ S.currentTaskId
  booted : 1 ≤ S.currentTaskId

/-- Nothing that the seat of `x` depends on has changed. -/
structure SameSeat (S S' : TaskSystem) (x : Nat) : Prop where
  status : (S'.task x).status = (S.task x).status
  sleeping : (S'.task x).sleeping = (S.task x).sleeping
  occurs : ∀ i, S'.occurs i x = S.occurs i x

variable {S S' T : TaskSystem} {x t : Nat} {i j : QueueId} {out : Option Nat}

/-! ## Entries of the queues -/

@[simp] theorem occurs_modify (f : Tcb → Tcb) : (S.modify t f).occurs i x = S.occurs i x := rfl

@[simp] theorem occurs_current (c : Nat) :
    TaskSystem.occurs { S with currentActiveTask := c } i x = S.occurs i x := rfl

theorem occurs_add :
    (S.setQueue i (queueAdd (S.queue i) t)).occurs j x =
      S.occurs j x + if j = i ∧ x = t then 1 else 0 := by
  unfold TaskSystem.occurs
  rw [setQueue_inQueue]
  by_cases hj : j = i
  · subst hj
    rw [if_pos rfl, queueAdd_items, List.count_append, List.count_singleton]
    by_cases hx : x = t
    · subst hx
      simp [inQueue]
    · simp [inQueue, hx, Ne.symm hx]
  · simp [hj]

theorem occurs_del (ht : 0 < S.occurs i t) :
    (queueDel (S.queue i) t).1 = noError ∧
      ∀ j x, (S.setQueue i (queueDel (S.queue i) t).2).occurs j x =
        S.occurs j x - if j = i ∧ x = t then 1 else 0 := by
  have hmem : t ∈ (S.queue i).items := List.count_pos_iff.mp ht
  obtain ⟨hret, hitems⟩ := queueDel_items hmem
  refine ⟨hret, fun j x => ?_⟩
  unfold TaskSystem.occurs
  rw [setQueue_inQueue]
  by_cases hj : j = i
  · subst hj
    rw [if_pos rfl, hitems]
    by_cases hx : x = t
    · subst hx
      simp [List.count_erase_self, inQueue]
    · simp [List.count_erase_of_ne hx, hx, inQueue]
  · simp [hj]

/-- Moving an iterator changes no entry. -/
theorem occurs_walk {q : Queue Nat} (hq : q.items = S.inQueue i) :
    (S.setQueue i q).occurs j x = S.occurs j x := by
  unfold TaskSystem.occurs
  rw [setQueue_inQueue]
  by_cases hj : j = i
  · subst hj
    rw [if_pos rfl, hq]
  · rw [if_neg hj]

/-! ## Keeping a seat -/

theorem SameSeat.refl (S : TaskSystem) (x : Nat) : SameSeat S S x :=
  ⟨rfl, rfl, fun _ => rfl⟩

theorem SameSeat.trans {S₁ S₂ S₃ : TaskSystem} (h : SameSeat S₁ S₂ x) (h' : SameSeat S₂ S₃ x) :
    SameSeat S₁ S₃ x :=
  ⟨h'.status.trans h.status, h'.sleeping.trans h.sleeping,
    fun i => (h'.occurs i).trans (h.occurs i)⟩

theorem Seated.congr (h : Seated S x) (hs : SameSeat S S' x)
    (hcur : S'.currentActiveTask = x ↔ S.currentActiveTask = x) : Seated S' x := by
  have hhome : home (S'.task x) = home (S.task x) := by
    unfold home
    rw [hs.status, hs.sleeping]
  refine ⟨fun i => ?_, ?_, ?_⟩
  · rw [hs.occurs, hhome]
    exact h.occurs i
  · rw [hs.status, hcur]
    exact h.running
  · rw [hs.status, hs.sleeping]
    exact h.sleeping

theorem ManagerSeat.congr (h : ManagerSeat S) (hs : SameSeat S S' 1)
    (hcur : S'.currentActiveTask = 1 ↔ S.currentActiveTask = 1) : ManagerSeat S' := by
  obtain ⟨hstatus, hsleeping, hoccurs⟩ := hs
  constructor
  · rw [hstatus, hcur]
    exact h.running
  · rw [hsleeping]
    exact h.awake
  · rw [hstatus]
    exact h.notFinished
  · rw [hoccurs, hoccurs]
    exact h.elsewhere
  · rw [hstatus, hoccurs, hoccurs]
    exact h.whenRunning
  · rw [hstatus, hoccurs, hoccurs]
    exact h.whenReady
  · rw [hstatus, hoccurs, hoccurs]
    exact h.whenSuspended

/-- **One task moves.**  If every other task keeps its seat and the moved one gets a
seat, every task has one. -/
theorem SysInv.move {c : Nat} {out' : Option Nat} (h : SysInv out S)
    (hout : ∀ y, some y = out → y = c) (hc : c ≠ 0)
    (hothers : ∀ y, y ≠ c → SameSeat S S' y)
    (hcur : ∀ y, y ≠ c → y ≠ 0 → (S'.currentActiveTask = y ↔ S.currentActiveTask = y))
    (hid : S'.currentTaskId = S.currentTaskId) (hle : c ≤ S.currentTaskId)
    (hcurrent : S'.currentActiveTask ≤ S.currentTaskId)
    (hseat : some c ≠ out' → 2 ≤ c → Seated S' c) (hmanager : c = 1 → ManagerSeat S') :
    SysInv out' S' := by
  refine ⟨fun y hy hlo hhi => ?_, ?_, ?_, fun i => ?_, fun y hy i => ?_, ?_, ?_⟩
  · rw [hid] at hhi
    by_cases hyc : y = c
    · subst hyc
      exact hseat hy hlo
    · have hin : some y ≠ out := fun heq => hyc (hout y heq)
      exact (h.users y hin hlo hhi).congr (hothers y hyc) (hcur y hyc (by omega))
  · by_cases h1 : c = 1
    · exact hmanager h1
    · exact h.manager.congr (hothers 1 (Ne.symm h1)) (hcur 1 (Ne.symm h1) (by omega))
  · rw [(hothers 0 (Ne.symm hc)).status]
    exact h.kernelReady
  · rw [(hothers 0 (Ne.symm hc)).occurs]
    exact h.kernelQueues i
  · rw [hid] at hy
    have hyc : y ≠ c := by omega
    rw [(hothers y hyc).occurs]
    exact h.fresh y hy i
  · rw [hid]
    exact hcurrent
  · rw [hid]
    exact h.booted

/-! ## Leaving the CPU -/

/-- The running task gives the CPU to the kernel: its descriptor is now `b` and it has
entered the queue `i`. -/
structure Leaves (S S' : TaskSystem) (b : Tcb) (i : QueueId) : Prop where
  current : S'.currentActiveTask = 0
  currentTaskId : S'.currentTaskId = S.currentTaskId
  clock : S'.clock = S.clock
  others : ∀ y, y ≠ S.currentActiveTask → y ≠ 0 → S'.task y = S.task y
  kernel : S'.task 0 =
    { S.task 0 with numberOfActivations := (S.task 0).numberOfActivations + 1 }
  task : S'.task S.currentActiveTask = b
  occurs : ∀ j y, S'.occurs j y =
    S.occurs j y + if j = i ∧ y = S.currentActiveTask then 1 else 0

theorem Leaves.sameSeat {b : Tcb} (h : Leaves S S' b i) {y : Nat}
    (hy : y ≠ S.currentActiveTask) : SameSeat S S' y := by
  have hoccurs : ∀ j, S'.occurs j y = S.occurs j y := by
    intro j
    rw [h.occurs, if_neg fun h => hy h.2, Nat.add_zero]
  by_cases hy0 : y = 0
  · subst hy0
    exact ⟨by rw [h.kernel], by rw [h.kernel], hoccurs⟩
  · exact ⟨by rw [h.others y hy hy0], by rw [h.others y hy hy0], hoccurs⟩

/-- The switch to the kernel, which has not finished. -/
theorem toKernel_eq (hk : (S.task 0).status = .ready) :
    toKernel S = { S.modify 0 fun b => { b with
      numberOfActivations := b.numberOfActivations + 1 } with currentActiveTask := 0 } := by
  unfold toKernel taskSwitch
  simp [taskKernel, hk]

theorem leaves_toKernel (hk : (S.task 0).status = .ready) (hc : S.currentActiveTask ≠ 0)
    (f : Tcb → Tcb) (i : QueueId) :
    Leaves S (toKernel ((S.modify S.currentActiveTask f).setQueue i
      (queueAdd (S.queue i) S.currentActiveTask))) (f (S.task S.currentActiveTask)) i := by
  have hk' : (((S.modify S.currentActiveTask f).setQueue i
      (queueAdd (S.queue i) S.currentActiveTask)).task 0).status = .ready := by
    simp [Function.update_of_ne (Ne.symm hc), hk]
  rw [toKernel_eq hk']
  refine ⟨rfl, rfl, rfl, fun y hy hy0 => ?_, ?_, ?_, fun j y => ?_⟩
  · simp [Function.update_of_ne hy, Function.update_of_ne hy0]
  · simp [Function.update_of_ne (Ne.symm hc)]
  · simp [Function.update_of_ne hc]
  · rw [occurs_current, occurs_modify]
    exact occurs_add (S := S.modify S.currentActiveTask f)

/-- A change of fields of the running task comes before its suspension. -/
theorem leaves_taskSuspend (hk : (S.task 0).status = .ready) (hc : S.currentActiveTask ≠ 0)
    (f : Tcb → Tcb) (i : QueueId) :
    Leaves S (taskSuspend (S.modify S.currentActiveTask f) i)
      { f (S.task S.currentActiveTask) with status := .suspended } i := by
  have h := leaves_toKernel hk hc (fun b => { f b with status := .suspended }) i
  unfold taskSuspend
  simpa [TaskSystem.modify, TaskSystem.setQueue] using h

/-- A suspension with no change of the descriptor before it. -/
theorem leaves_suspend (hk : (S.task 0).status = .ready) (hc : S.currentActiveTask ≠ 0) :
    Leaves S (taskSuspend S i) { S.task S.currentActiveTask with status := .suspended } i := by
  have hl := leaves_taskSuspend hk hc id i
  rw [modify_id] at hl
  exact hl

theorem leaves_taskYield (hk : (S.task 0).status = .ready) (hc : S.currentActiveTask ≠ 0) :
    Leaves S (taskYield S) { S.task S.currentActiveTask with
      executionTime := addInt (S.task S.currentActiveTask).executionTime quantum
      remainingQuantumTime := quantum
      status := .ready } .ready := by
  change Leaves S (if S.currentActiveTask = taskKernel then _ else _) _ _
  rw [if_neg (show S.currentActiveTask ≠ taskKernel from hc)]
  exact leaves_toKernel hk hc _ _

/-- The running task has its seat again once it has left the CPU. -/
theorem SysInv.leaves {b : Tcb} (h : SysInv none S) (hc : S.currentActiveTask ≠ 0)
    (hl : Leaves S S' b i) (hhome : home b = some i) (hstatus : b.status ≠ .running)
    (hsleeping : b.status ≠ .suspended → b.sleeping = false)
    (hmanager : S.currentActiveTask = 1 →
      b.sleeping = false ∧ (b.status = .ready ∨ b.status = .suspended)) : SysInv none S' := by
  have hzero : S'.currentActiveTask ≠ S.currentActiveTask := by
    rw [hl.current]
    exact Ne.symm hc
  apply h.move (by simp) hc fun y hy => hl.sameSeat hy
  · intro y hy hy0
    rw [hl.current]
    exact ⟨fun heq => absurd heq.symm hy0, fun heq => absurd heq.symm hy⟩
  · exact hl.currentTaskId
  · exact h.current
  · rw [hl.current]
    exact Nat.zero_le _
  · intro _ hlo
    have hseat := h.users _ (by simp) hlo h.current
    refine ⟨fun j => ?_, ?_, ?_⟩
    · rw [hl.occurs, hseat.occurs, hl.task, hhome]
      have hrun : (S.task S.currentActiveTask).status = .running := hseat.running.mpr rfl
      simp [home, hrun, eq_comm]
    · rw [hl.task]
      exact ⟨fun heq => absurd heq hstatus, fun heq => absurd heq hzero⟩
    · rw [hl.task]
      exact hsleeping
  · intro h1
    obtain ⟨hawake, hready⟩ := hmanager h1
    have htask := hl.task
    have hoccurs := hl.occurs
    rw [h1] at htask hoccurs hzero
    obtain ⟨hr, hsusp⟩ := h.manager.whenRunning (h.manager.running.mpr h1)
    have helse := h.manager.elsewhere
    have hi : i = if b.status = .ready then .ready else .suspended := by
      unfold home at hhome
      rcases hready with hs | hs <;> simp [hs, hawake] at hhome <;> simp [hs, ← hhome]
    subst hi
    refine ⟨?_, by rw [htask]; exact hawake, ?_, ?_, ?_, ?_, ?_⟩
    · rw [htask]
      exact ⟨fun heq => absurd heq hstatus, fun heq => absurd heq hzero⟩
    · rw [htask]
      rcases hready with hs | hs <;> simp [hs]
    · rcases hready with hs | hs <;> simp [hoccurs, helse, hs]
    · rw [htask]
      exact fun heq => absurd heq hstatus
    · rw [htask]
      intro hs
      simp [hoccurs, hr, hsusp, hs]
    · rw [htask]
      intro hs
      right
      simp [hoccurs, hr, hsusp, hs]

/-- The running task is not sleeping. -/
theorem SysInv.running (h : SysInv none S) (hc : S.currentActiveTask ≠ 0) :
    (S.task S.currentActiveTask).status = .running ∧
      (S.task S.currentActiveTask).sleeping = false := by
  by_cases h1 : S.currentActiveTask = 1
  · rw [h1]
    exact ⟨h.manager.running.mpr h1, h.manager.awake⟩
  · have hseat := h.users _ (by simp) (by omega) h.current
    have hrun := hseat.running.mpr rfl
    exact ⟨hrun, hseat.sleeping (by rw [hrun]; decide)⟩

theorem SysInv.yield (h : SysInv none S) (hc : S.currentActiveTask ≠ 0) :
    SysInv none (taskYield S) :=
  h.leaves hc (leaves_taskYield h.kernelReady hc) rfl (by simp) (fun _ => (h.running hc).2)
    fun _ => ⟨(h.running hc).2, Or.inl rfl⟩

/-- The running task suspends itself, after a change of fields that leaves it awake. -/
theorem SysInv.suspend {f : Tcb → Tcb} (h : SysInv none S) (hc : S.currentActiveTask ≠ 0)
    (hf : ∀ b, (f b).sleeping = b.sleeping) :
    SysInv none (taskSuspend (S.modify S.currentActiveTask f) .suspended) := by
  have hawake : (f (S.task S.currentActiveTask)).sleeping = false := by
    rw [hf, (h.running hc).2]
  apply h.leaves hc (leaves_taskSuspend h.kernelReady hc f .suspended)
  · simp [home, hawake]
  · simp
  · exact fun _ => hawake
  · exact fun _ => ⟨hawake, Or.inr rfl⟩

/-- It suspends itself with no change before it. -/
theorem SysInv.suspends (h : SysInv none S) (hc : S.currentActiveTask ≠ 0) :
    SysInv none (taskSuspend S .suspended) := by
  have hsys := h.suspend hc (f := id) fun _ => rfl
  rwa [modify_id] at hsys

theorem SysInv.sleep (h : SysInv none S) (hc : 2 ≤ S.currentActiveTask) (d : Int) :
    SysInv none (taskSleep S d) := by
  apply h.leaves (by omega) (leaves_taskSuspend h.kernelReady (by omega) _ .sleeping)
  · simp [home]
  · simp
  · exact fun hne => absurd rfl hne
  · exact fun h1 => absurd h1 (by omega)

/-! ## Taking the CPU -/

/-- The kernel gives the CPU to task `t`, taken from `ready_queue`. -/
structure Dispatches (S S' : TaskSystem) (t : Nat) : Prop where
  current : S'.currentActiveTask = t
  currentTaskId : S'.currentTaskId = S.currentTaskId
  clock : S'.clock = S.clock
  others : ∀ y, y ≠ t → S'.task y = S.task y
  task : S'.task t = { S.task t with
    remainingQuantumTime := quantum
    numberOfActivations := (S.task t).numberOfActivations + 1
    status := .running }
  occurs : ∀ j y, S'.occurs j y = S.occurs j y - if j = .ready ∧ y = t then 1 else 0

theorem dispatches_taskRun (ht : 0 < S.occurs .ready t) : Dispatches S (taskRun S t) t := by
  obtain ⟨hret, hdel⟩ := occurs_del ht
  have hrun : taskRun S t = { (S.setQueue .ready (queueDel (S.queue .ready) t).2).modify t
      fun b => { b with
        remainingQuantumTime := quantum
        numberOfActivations := b.numberOfActivations + 1
        status := .running } with currentActiveTask := t } := by
    unfold taskRun taskSwitch
    simp [hret, noError, error]
  rw [hrun]
  refine ⟨rfl, rfl, rfl, fun y hy => ?_, ?_, fun j y => ?_⟩
  · simp [Function.update_of_ne hy]
  · simp
  · rw [occurs_current, occurs_modify, hdel]

theorem Dispatches.sameSeat (h : Dispatches S S' t) {y : Nat} (hy : y ≠ t) :
    SameSeat S S' y := by
  refine ⟨by rw [h.others y hy], by rw [h.others y hy], fun j => ?_⟩
  rw [h.occurs, if_neg fun h => hy h.2, Nat.sub_zero]

/-- Dispatching a ready task keeps every seat. -/
theorem SysInv.run (h : SysInv none S) (hcur : S.currentActiveTask = 0)
    (ht : 0 < S.occurs .ready t) (hd : Dispatches S S' t) : SysInv none S' := by
  have ht0 : t ≠ 0 := by
    intro heq
    have := h.kernelQueues .ready
    rw [heq] at ht
    omega
  have htn : t ≤ S.currentTaskId := by
    by_contra hgt
    have := h.fresh t (by omega) .ready
    omega
  apply h.move (by simp) ht0 fun y hy => hd.sameSeat hy
  · intro y hy hy0
    rw [hd.current, hcur]
    exact ⟨fun heq => absurd heq.symm hy, fun heq => absurd heq.symm hy0⟩
  · exact hd.currentTaskId
  · exact htn
  · rw [hd.current]
    exact htn
  · intro _ hlo
    have hseat := h.users t (by simp) hlo htn
    have hhome : home (S.task t) = some .ready := by
      by_contra hne
      have := hseat.occurs .ready
      rw [if_neg hne] at this
      omega
    have hready : (S.task t).status ≠ .suspended := by
      intro hs
      unfold home at hhome
      rw [hs] at hhome
      cases hb : (S.task t).sleeping <;> simp [hb] at hhome
    refine ⟨fun j => ?_, ?_, fun _ => ?_⟩
    · rw [hd.occurs, hseat.occurs, hhome, hd.task]
      by_cases hj : j = .ready
      · simp [hj, home]
      · simp [hj, Ne.symm hj, home]
    · rw [hd.task]
      exact ⟨fun _ => hd.current, fun _ => rfl⟩
    · rw [hd.task]
      exact hseat.sleeping hready
  · rintro rfl
    have hm := h.manager
    have hsusp : S.occurs .ready 1 = 1 ∧ S.occurs .suspended 1 = 1 := by
      cases hs : (S.task 1).status with
      | ready => exact hm.whenReady hs
      | running =>
          have := (hm.whenRunning hs).1
          omega
      | suspended =>
          rcases hm.whenSuspended hs with h' | h'
          · exact h'
          · omega
      | finished => exact absurd hs hm.notFinished
    refine ⟨?_, ?_, ?_, ?_, ?_, ?_, ?_⟩
    · rw [hd.task]
      exact ⟨fun _ => hd.current, fun _ => rfl⟩
    · rw [hd.task]
      exact hm.awake
    · rw [hd.task]
      simp
    · simp [hd.occurs, hm.elsewhere]
    · simp [hd.occurs, hsusp]
    · rw [hd.task]
      exact fun heq => absurd heq (by simp)
    · rw [hd.task]
      exact fun heq => absurd heq (by simp)

/-! ## Creating a task -/

/-- A new task has entered `ready_queue`. -/
structure Creates (S S' : TaskSystem) : Prop where
  current : S'.currentActiveTask = S.currentActiveTask
  currentTaskId : S'.currentTaskId = S.currentTaskId + 1
  clock : S'.clock = S.clock
  others : ∀ y, y ≠ S.currentTaskId + 1 → S'.task y = S.task y
  task : S'.task (S.currentTaskId + 1) = { Tcb.zero with
    id := S.currentTaskId + 1
    parent := some S.currentActiveTask
    creationTime := S.clock }
  occurs : ∀ j y, S'.occurs j y =
    S.occurs j y + if j = .ready ∧ y = S.currentTaskId + 1 then 1 else 0

theorem creates_taskCreate (S : TaskSystem) : Creates S (taskCreate S true).2 := by
  refine ⟨rfl, rfl, rfl, fun y hy => ?_, ?_, fun j y => ?_⟩
  · simp [taskCreate, Function.update_of_ne hy]
  · simp [taskCreate]
  · exact occurs_add (S := ({ S with currentTaskId := S.currentTaskId + 1 } : TaskSystem).modify
      (S.currentTaskId + 1) fun _ => { Tcb.zero with
        id := S.currentTaskId + 1
        parent := some S.currentActiveTask
        creationTime := S.clock })

theorem Creates.sameSeat (h : Creates S S') {y : Nat} (hy : y ≠ S.currentTaskId + 1) :
    SameSeat S S' y := by
  refine ⟨by rw [h.others y hy], by rw [h.others y hy], fun j => ?_⟩
  rw [h.occurs, if_neg fun h => hy h.2, Nat.add_zero]

/-- A new task has its seat. -/
theorem SysInv.create (h : SysInv none S) (hc : Creates S S') : SysInv none S' := by
  have hle := h.current
  have hboot := h.booted
  refine ⟨fun y hy hlo hhi => ?_, ?_, ?_, fun i => ?_, fun y hy i => ?_, ?_, ?_⟩
  · rw [hc.currentTaskId] at hhi
    by_cases hnew : y = S.currentTaskId + 1
    · subst hnew
      refine ⟨fun j => ?_, ?_, fun _ => ?_⟩
      · rw [hc.occurs, h.fresh _ (by omega), hc.task, Nat.zero_add]
        simp [home, Tcb.zero, eq_comm]
      · rw [hc.task, hc.current]
        exact ⟨fun heq => absurd heq (by simp [Tcb.zero]), fun heq => absurd heq (by omega)⟩
      · rw [hc.task]
        rfl
    · exact (h.users y hy hlo (by omega)).congr (hc.sameSeat hnew) (by rw [hc.current])
  · exact h.manager.congr (hc.sameSeat (by omega)) (by rw [hc.current])
  · rw [(hc.sameSeat (by omega : (0 : Nat) ≠ _)).status]
    exact h.kernelReady
  · rw [(hc.sameSeat (by omega : (0 : Nat) ≠ _)).occurs]
    exact h.kernelQueues i
  · rw [hc.currentTaskId] at hy
    rw [(hc.sameSeat (by omega)).occurs]
    exact h.fresh y (by omega) i
  · rw [hc.current, hc.currentTaskId]
    omega
  · rw [hc.currentTaskId]
    omega

/-! ## Steps that move nobody -/

/-- No task changes its status or its queue. -/
structure Quiet (S S' : TaskSystem) : Prop where
  current : S'.currentActiveTask = S.currentActiveTask
  currentTaskId : S'.currentTaskId = S.currentTaskId
  occurs : ∀ j y, S'.occurs j y = S.occurs j y
  fields : ∀ y, (S'.task y).status = (S.task y).status ∧
    (S'.task y).sleeping = (S.task y).sleeping ∧ (S'.task y).id = (S.task y).id ∧
    (S'.task y).targetToWait = (S.task y).targetToWait

theorem Quiet.refl (S : TaskSystem) : Quiet S S :=
  ⟨rfl, rfl, fun _ _ => rfl, fun _ => ⟨rfl, rfl, rfl, rfl⟩⟩

theorem Quiet.sameSeat (h : Quiet S S') (y : Nat) : SameSeat S S' y :=
  ⟨(h.fields y).1, (h.fields y).2.1, fun j => h.occurs j y⟩

theorem SysInv.quiet (h : SysInv out S) (hq : Quiet S S') : SysInv out S' := by
  refine ⟨fun y hy hlo hhi => ?_, ?_, ?_, fun i => ?_, fun y hy i => ?_, ?_, ?_⟩
  · rw [hq.currentTaskId] at hhi
    exact (h.users y hy hlo hhi).congr (hq.sameSeat y) (by rw [hq.current])
  · exact h.manager.congr (hq.sameSeat 1) (by rw [hq.current])
  · rw [(hq.fields 0).1]
    exact h.kernelReady
  · rw [hq.occurs]
    exact h.kernelQueues i
  · rw [hq.currentTaskId] at hy
    rw [hq.occurs]
    exact h.fresh y hy i
  · rw [hq.current, hq.currentTaskId]
    exact h.current
  · rw [hq.currentTaskId]
    exact h.booted

/-- No task is twice in `ready_queue`. -/
theorem SysInv.ready_nodup (h : SysInv none S) : (S.inQueue .ready).Nodup := by
  apply List.nodup_iff_count_le_one.mpr
  intro y
  change S.occurs .ready y ≤ 1
  by_cases hfresh : S.currentTaskId < y
  · rw [h.fresh y hfresh]
    omega
  by_cases hy0 : y = 0
  · rw [hy0, h.kernelQueues]
    omega
  by_cases hy1 : y = 1
  · subst hy1
    cases hs : (S.task 1).status with
    | ready => exact le_of_eq (h.manager.whenReady hs).1
    | running =>
        rw [(h.manager.whenRunning hs).1]
        omega
    | suspended =>
        rcases h.manager.whenSuspended hs with h' | h' <;> omega
    | finished => exact absurd hs h.manager.notFinished
  · rw [(h.users y (by simp) (by omega) (by omega)).occurs]
    split <;> omega

/-- `scheduler` moves nobody, and selects a task of `ready_queue` if there is one. -/
theorem SysInv.scheduler (h : SysInv none S) :
    ∃ s S', scheduler S = .ok (s, S') ∧ Quiet S S' ∧
      ∀ t, s = some t → 0 < S.occurs .ready t := by
  by_cases hne : S.inQueue .ready = []
  · have hhead : (queueHead (S.queue .ready)).1 = none := by
      rw [queueHead_fst, ← inQueue, hne]
      rfl
    refine ⟨none, S.setQueue .ready (queueHead (S.queue .ready)).2, ?_, ?_, ?_⟩
    · rw [PingPongOS.scheduler, hhead]
    · exact ⟨rfl, rfl, fun j y => occurs_walk rfl, fun _ => ⟨rfl, rfl, rfl, rfl⟩⟩
    · exact fun t ht => absurd ht (by simp)
  · obtain ⟨s, hleast, hsched⟩ := scheduler_spec h.ready_nodup hne
    refine ⟨some s, _, hsched, ⟨rfl, rfl, fun j y => ?_, fun y => ?_⟩, ?_⟩
    · exact occurs_walk (q := ⟨S.inQueue .ready, []⟩) (by simp [Queue.items])
    · have haged : ∀ z, agedIn S (S.inQueue .ready) z =
          { S.task z with dynamicPriority := (agedIn S (S.inQueue .ready) z).dynamicPriority } := by
        intro z
        unfold agedIn
        split <;> rfl
      by_cases hy : y = s
      · subst hy
        simp
      · simp only [Function.update_of_ne hy]
        rw [haged]
        exact ⟨rfl, rfl, rfl, rfl⟩
    · intro t ht
      obtain rfl := Option.some.inj ht
      exact List.count_pos_iff.mpr hleast.mem

theorem Quiet.trans {S₁ S₂ S₃ : TaskSystem} (h : Quiet S₁ S₂) (h' : Quiet S₂ S₃) :
    Quiet S₁ S₃ := by
  refine ⟨h'.current.trans h.current, h'.currentTaskId.trans h.currentTaskId,
    fun j y => (h'.occurs j y).trans (h.occurs j y), fun y => ?_⟩
  obtain ⟨h1, h2, h3, h4⟩ := h.fields y
  obtain ⟨h1', h2', h3', h4'⟩ := h'.fields y
  exact ⟨h1'.trans h1, h2'.trans h2, h3'.trans h3, h4'.trans h4⟩

theorem schedSetprio_quiet {task : Option Nat} {prio : Int}
    (hs : schedSetprio S task prio = .ok S') : Quiet S S' := by
  unfold schedSetprio at hs
  by_cases hp : prio ≤ 20 ∧ -20 ≤ prio
  · rw [if_pos hp] at hs
    obtain rfl := Except.ok.inj hs
    refine ⟨rfl, rfl, fun _ _ => rfl, fun y => ?_⟩
    by_cases hy : y = task.getD S.currentActiveTask
    · subst hy
      simp
    · simp [Function.update_of_ne hy]
  · rw [if_neg hp] at hs
    exact absurd hs (by simp)

/-- The kernel's own `task_yield` moves nobody. -/
theorem quiet_taskYield (hk : (S.task 0).status = .ready) (hc : S.currentActiveTask = 0) :
    Quiet S (taskYield S) := by
  have hyield : taskYield S = S.modify 0 fun b =>
      { b with
        executionTime := addInt b.executionTime quantum
        remainingQuantumTime := quantum
        status := .ready } := by
    unfold taskYield taskSwitch
    simp [hc, taskKernel, TaskSystem.modify]
  rw [hyield]
  refine ⟨rfl, rfl, fun _ _ => rfl, fun y => ?_⟩
  by_cases hy : y = 0
  · subst hy
    simp [hk]
  · simp [Function.update_of_ne hy]

/-- A timer tick moves nobody, or it makes the running task yield. -/
theorem tick_cases (hk : (S.task 0).status = .ready) :
    Quiet S (handleTimerSignal S) ∨
      ∃ S₁, Quiet S S₁ ∧ S₁.currentActiveTask ≠ 0 ∧ handleTimerSignal S = taskYield S₁ := by
  let S₁ := TaskSystem.modify { S with clock := addInt S.clock 1 } S.currentActiveTask fun b =>
    { b with remainingQuantumTime := b.remainingQuantumTime - 1 }
  have hquiet : Quiet S S₁ := by
    refine ⟨rfl, rfl, fun _ _ => rfl, fun y => ?_⟩
    by_cases hy : y = S.currentActiveTask
    · subst hy
      simp [S₁]
    · simp [S₁, Function.update_of_ne hy]
  by_cases hq : (S₁.task S₁.currentActiveTask).remainingQuantumTime = 0
  · have htick : handleTimerSignal S = taskYield S₁ := if_pos hq
    by_cases hc : S₁.currentActiveTask = 0
    · left
      rw [htick]
      exact hquiet.trans (quiet_taskYield ((hquiet.fields 0).1.trans hk) hc)
    · exact Or.inr ⟨S₁, hquiet, hc, htick⟩
  · left
    have htick : handleTimerSignal S = S₁ := if_neg hq
    rw [htick]
    exact hquiet

end PingPongOS
