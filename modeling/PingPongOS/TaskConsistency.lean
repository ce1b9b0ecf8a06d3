import PingPongOS.KernelSteps

/-!
# Task state consistency

The kernel's invariant holds after the boot, so it holds in every state reached from
it: every user task is where its status says, and no step aborts.
-/

namespace PingPongOS

open Runs TaskSystem

/-- The descriptor of a task that belongs in the queue. -/
def belongs (b : Tcb) : QueueId → Prop
  | .ready => b.status = .ready
  | .suspended => b.status = .suspended ∧ b.sleeping = false
  | .sleeping => b.status = .suspended ∧ b.sleeping = true
  | .finished => b.status = .finished

/-- Task `t` has the CPU, is running and is in no queue, or it is once in exactly one
queue, the one it belongs in. -/
def InPlace (S : TaskSystem) (t : Nat) : Prop :=
  (S.currentActiveTask = t ∧ (S.task t).status = .running ∧ ∀ i, S.occurs i t = 0) ∨
    ∃ i, S.currentActiveTask ≠ t ∧ belongs (S.task t) i ∧
      ∀ j, S.occurs j t = if j = i then 1 else 0

/-- The home of a task that does not run is the queue it belongs in. -/
theorem home_belongs {b : Tcb} {i : QueueId} (h : home b = some i) : belongs b i := by
  unfold home at h
  cases hs : b.status with
  | running =>
      rw [hs] at h
      exact absurd h (by simp)
  | suspended =>
      rw [hs] at h
      obtain rfl := Option.some.inj h
      cases hb : b.sleeping with
      | true => exact ⟨hs, hb⟩
      | false => exact ⟨hs, hb⟩
  | ready | finished =>
      rw [hs] at h
      obtain rfl := Option.some.inj h
      exact hs

theorem Seated.inPlace {S : TaskSystem} {t : Nat} (h : Seated S t) : InPlace S t := by
  cases hhome : home (S.task t) with
  | none =>
      left
      have hrun : (S.task t).status = .running := by
        unfold home at hhome
        cases hs : (S.task t).status <;> simp [hs] at hhome
        rfl
      refine ⟨h.running.mp hrun, hrun, fun i => ?_⟩
      rw [h.occurs, hhome]
      rfl
  | some i =>
      right
      refine ⟨i, fun hcur => ?_, home_belongs hhome, fun j => ?_⟩
      · unfold home at hhome
        rw [h.running.mpr hcur] at hhome
        exact absurd hhome (by simp)
      · rw [h.occurs, hhome]
        simp [eq_comm]

section Boot

variable (numblocks : Int) (image : Int → Block) (memory : Nat → UInt8)

/-- After the boot the disk manager is in two queues, and nobody else is in any. -/
theorem boot_occurs (i : QueueId) (t : Nat) :
    (Kernel.boot numblocks image memory).sys.occurs i t =
      if (i = .ready ∨ i = .suspended) ∧ t = 1 then 1 else 0 := by
  change List.count t (Queue.items _) = _
  by_cases ht : t = 1
  · subst ht
    cases i <;> rfl
  · rw [if_neg fun h => ht h.2]
    apply List.count_eq_zero.mpr
    cases i <;> simp [Kernel.boot, taskCreate, dispatcherInit, queueAdd, queueCreate, Queue.items,
      taskDiskHandler, ht]

/-- After the boot every descriptor but the disk manager's says ready, awake and joining
nobody. -/
theorem boot_task {t : Nat} (ht : t ≠ 1) :
    ((Kernel.boot numblocks image memory).sys.task t).status = .ready ∧
      ((Kernel.boot numblocks image memory).sys.task t).sleeping = false ∧
      ((Kernel.boot numblocks image memory).sys.task t).targetToWait = 0 := by
  by_cases ht0 : t = 0
  · subst ht0
    exact ⟨rfl, rfl, rfl⟩
  · simp [Kernel.boot, taskCreate, dispatcherInit, taskDiskHandler, taskKernel, Tcb.zero,
      Function.update_of_ne ht, Function.update_of_ne ht0]

theorem sysInv_boot : SysInv none (Kernel.boot numblocks image memory).sys := by
  have hn : (Kernel.boot numblocks image memory).sys.currentTaskId = 1 := rfl
  have hs : ((Kernel.boot numblocks image memory).sys.task 1).status = .suspended := rfl
  have hcur : (Kernel.boot numblocks image memory).sys.currentActiveTask = 0 := rfl
  refine ⟨fun t _ hlo hhi => ?_, ⟨?_, rfl, ?_, ?_, ?_, ?_, ?_⟩, rfl, fun i => ?_, fun t ht i => ?_,
    Nat.zero_le _, Nat.le_refl _⟩
  · omega
  · rw [hs, hcur]
    decide
  · rw [hs]
    decide
  · simp [boot_occurs]
  · exact fun h => absurd (hs.symm.trans h) (by decide)
  · exact fun h => absurd (hs.symm.trans h) (by decide)
  · exact fun _ => Or.inl (by simp [boot_occurs])
  · simp [boot_occurs]
  · rw [boot_occurs, if_neg]
    omega

/-- **After the boot** the invariant holds. -/
theorem kernelInv_boot : KernelInv (Kernel.boot numblocks image memory) := by
  have hfree : ∀ t, (Kernel.boot numblocks image memory).Free t := by
    intro t
    by_cases ht : t = 1
    · intro p hp
      subst ht
      exact ⟨.start, (Option.some.inj hp).symm⟩
    · apply free_of_not_suspended
      rw [(boot_task numblocks image memory ht).1]
      decide
  have hnot : ∀ t p, (∀ q, p ≠ .manager q) →
      (Kernel.boot numblocks image memory).blockedAt t ≠ some p := by
    intro t p hp heq
    obtain ⟨q, hq⟩ := hfree t p heq
    exact hp q hq
  refine ⟨sysInv_boot .., ⟨fun t ht => ?_, fun t ht => ?_, fun t ht => ?_⟩, fun t => ?_, ?_,
    fun t s hp => ?_, fun _ => rfl, ?_⟩
  · rcases (by have : t ≤ 1 := ht; omega : t = 0 ∨ t = 1) with rfl | rfl
    · rfl
    · rfl
  · rcases (by omega : t = 0 ∨ t = 1) with rfl | rfl
    · rfl
    · rfl
  · have ht1 : t ≠ 1 := by
      have : 1 < t := ht
      omega
    rw [(boot_task numblocks image memory ht1).1]
    decide
  · refine ⟨fun s => ?_, ?_, fun hs => ?_, fun hne => ?_⟩
    · rw [if_neg (hnot t _ (by simp))]
      rfl
    · rw [if_neg (hnot t _ (by simp))]
      rfl
    · exfalso
      by_cases ht : t = 1
      · subst ht
        have hawake : ((Kernel.boot numblocks image memory).sys.task 1).sleeping = false := rfl
        exact absurd (hawake.symm.trans hs) (by decide)
      · rw [(boot_task numblocks image memory ht).2.1] at hs
        exact absurd hs (by decide)
    · exfalso
      by_cases ht : t = 1
      · subst ht
        exact hne rfl
      · exact hne (boot_task numblocks image memory ht).2.2
  · refine ⟨⟨.start, rfl⟩, fun r hr => ?_, rfl, fun r hr => ?_, fun hb => ?_, fun hb => ?_⟩
    · exact absurd (TaskPoint.manager.inj hr) (by simp)
    · exact absurd hr (by simp [Kernel.boot, queueCreate, Queue.items])
    · rcases hb with hb | hb
      · exact absurd rfl hb
      · exact absurd hb (by simp [Kernel.boot])
    · exact absurd rfl hb
  · change (if t = taskDiskHandler then TaskPoint.manager .start else .user) = _ at hp
    split at hp <;> exact absurd hp (by simp)
  · exact fun t ht => absurd ht (by simp [Kernel.boot])

end Boot

/-- **The invariant holds in every state reached from the boot.** -/
theorem KernelInv.reached {numblocks : Int} {image : Int → Block} {memory : Nat → UInt8}
    {as : List Action} {k : Kernel}
    (hrun : run Kernel.step (Kernel.boot numblocks image memory) as = some k) : KernelInv k :=
  invariant KernelInv (fun _ _ _ h hs => (h.step hs).1) (kernelInv_boot numblocks image memory) hrun

/-- **Task state consistency.**  In every state reached from the boot every user task is
in its place, and no action aborts: no assertion of `task_awake` or of the dispatcher
fails. -/
theorem task_state_consistency (numblocks : Int) (image : Int → Block) (memory : Nat → UInt8)
    (as : List Action) (k : Kernel)
    (hrun : run Kernel.step (Kernel.boot numblocks image memory) as = some k) :
    (∀ t, 2 ≤ t → t ≤ k.sys.currentTaskId → InPlace k.sys t) ∧
      ∀ a f, k.exec a ≠ some (.error f) := by
  have h := KernelInv.reached hrun
  refine ⟨fun t hlo hhi => (h.sys.users t (by simp) hlo hhi).inPlace, fun a f hf => ?_⟩
  obtain ⟨k', hk', -⟩ := h.exec hf
  exact absurd hk' (by simp)

/-- A run in which one user task creates another, blocks on a semaphore and is woken by
it, and then sleeps. -/
theorem task_state_consistency_two_users : ∃ k, run Kernel.step
      (Kernel.boot 4 (fun _ _ => 0) fun _ => 0)
      [.dispatcher, .dispatcher, .manager, .manager, .dispatcher, .dispatcher, .create true,
        .semCreate 0, .semDown 0, .dispatcher, .dispatcher, .manager, .dispatcher, .dispatcher,
        .semUp 0, .sleep 5] = some k ∧
      (∀ t, 2 ≤ t → t ≤ k.sys.currentTaskId → InPlace k.sys t) ∧
        ∀ a f, k.exec a ≠ some (.error f) := by
  obtain ⟨k, hk⟩ := Option.isSome_iff_exists.mp (by decide :
    (run Kernel.step (Kernel.boot 4 (fun _ _ => 0) fun _ => 0)
      [.dispatcher, .dispatcher, .manager, .manager, .dispatcher, .dispatcher, .create true,
        .semCreate 0, .semDown 0, .dispatcher, .dispatcher, .manager, .dispatcher, .dispatcher,
        .semUp 0, .sleep 5]).isSome = true)
  exact ⟨k, hk, task_state_consistency _ _ _ _ k hk⟩

end PingPongOS
