import PingPongOS.SemaphoreHistory
import PingPongOS.WakeupCauses

/-!
# The destruction of a semaphore

`sem_destroy` marks the semaphore and releases whoever waits for it.  From then on every
call fails: one that begins leaves the semaphore alone, and one that was pending undoes
its own decrement when its task runs again.  A pending call is one of a task inside
`sem_down`, still queued or already released by a `sem_up`; the value and the number of
tasks inside together stay what they were when the semaphore was destroyed, as long as the
value, an `int`, does not overflow.
-/

namespace PingPongOS

open Runs TaskSystem

variable {s : Nat} {v₀ : Int} {k k' k'' : Kernel} {H K : List SemEvent} {a : Action}

/-- **What `sem_destroy` does** in the state `k`: it empties the wait queue and makes
each waiter ready, once. -/
structure ReleasesAll (s : Nat) (k k' : Kernel) : Prop where
  marked : (k'.sem s).destroy = true
  empty : (k'.sem s).waitQueue.items = []
  woken : ∀ t ∈ (k.sem s).waitQueue.items, (k.sys.task t).status = .suspended ∧
    (k'.sys.task t).status = .ready ∧ k'.sys.occurs .ready t = 1

/-- **What a destroyed semaphore promises** in the state `k`, after the history `H` up to
its destruction and the history `K` since. -/
structure DestroyedSpec (s : Nat) (v₀ : Int) (k : Kernel) (H K : List SemEvent) : Prop where
  /-- Every `sem_down` that returns since returns `ERROR`. -/
  errors : ∀ t code, .returned t code ∈ K → code = error
  /-- Nobody is blocked inside `sem_down`. -/
  unblocked : ∀ t, k.point t = .semDown s → (k.sys.task t).status ≠ .suspended
  /-- A pending call returns `ERROR` when its task runs. -/
  resumes : k.current ≠ taskKernel → k.point k.current = .semDown s →
    (∃ k', k.step .resume = some k') ∧ semEvents s k .resume = [.returned k.current error]
  /-- A new `sem_down` returns `ERROR` and changes nothing. -/
  down : ∀ k', k.step (.semDown s) = some k' →
    semDown (k.sem s) k.current = .ok (some error, k.sem s) ∧ k' = k
  /-- A new `sem_up` returns `ERROR` and changes nothing. -/
  up : ∀ k', k.step (.semUp s) = some k' →
    semUp (k.sem s) = .ok (error, none, k.sem s) ∧ k' = k
  /-- With no call pending, the value counts the successful calls. -/
  balance : (∀ t, k.point t ≠ .semDown s) →
    (k.sem s).value = v₀ + ups H - passes (H ++ K) ∧ 0 ≤ (k.sem s).value

/-- The invariant of a destroyed semaphore; `n` is what its value counts once the tasks
inside `sem_down` have left. -/
structure DeadInv (s : Nat) (n : Int) (k : Kernel) (K : List SemEvent) : Prop where
  kernel : KernelInv k
  created : s < k.semCount
  dead : (k.sem s).destroy = true
  empty : (k.sem s).waitQueue.items = []
  errors : ∀ t code, .returned t code ∈ K → code = error
  inside : ∃ inside : List Nat, (∀ t, inside.count t = if k.point t = .semDown s then 1 else 0) ∧
    (k.sem s).value + inside.length = n

variable {n : Int}

/-! ## Destroying -/

/-- The step that destroys a semaphore. -/
theorem Kernel.step_semDestroy (hs : k.step (.semDestroy s) = some k') :
    s < k.semCount ∧ ∃ x S, semDestroy (k.sem s) k.sys = .ok (x, S) ∧
      k' = { k.setSem s x with sys := S } := by
  obtain ⟨-, -, hcall⟩ := Kernel.step_call hs (by simp)
  cases hcall with
  | destroys hlt hx => exact ⟨hlt, _, _, hx, rfl⟩

/-- **Whoever waits is released**: after `sem_destroy` nobody is suspended inside
`sem_down`, and who was has been made ready. -/
theorem KernelInv.releases_all (h : KernelInv k) (hs : k.step (.semDestroy s) = some k') :
    ReleasesAll s k k' ∧ (k'.sem s).value = (k.sem s).value ∧ k'.point = k.point := by
  obtain ⟨hk, -⟩ := h.step hs
  obtain ⟨-, x, S, hd, rfl⟩ := Kernel.step_semDestroy hs
  obtain ⟨hdead, hvalue, hempty⟩ := semDestroy_result hd
  have hself : Kernel.sem { k.setSem s x with sys := S } s = x := Function.update_self ..
  rw [← hself] at hdead hvalue hempty
  have hcount : S.currentTaskId = k.sys.currentTaskId := (semDestroy_passive hd).1.currentTaskId
  refine ⟨⟨hdead, hempty, fun t ht => ?_⟩, hvalue, rfl⟩
  have hb := (h.mem_waitQueue s t).mp ht
  obtain ⟨hwas, hpoint⟩ := blockedAt_eq_some.mp hb
  have hready : (S.task t).status = .ready := by
    rcases ((semDestroy_passive hd).1.task t).status with heq | ⟨-, hready⟩
    · -- it would be blocked still, with nobody left in the wait queue
      have hmem := (hk.mem_waitQueue s t).mpr (blockedAt_eq_some.mpr ⟨heq.trans hwas, hpoint⟩)
      rw [hempty] at hmem
      exact absurd hmem List.not_mem_nil
    · exact hready
  obtain ⟨hlo, hhi⟩ := h.blocked_user hb (by simp)
  refine ⟨hwas, hready, ?_⟩
  rw [(hk.sys.users t (by simp) hlo (le_of_le_of_eq hhi hcount.symm)).occurs, if_pos]
  unfold home
  rw [hready]

/-- The state that `sem_destroy` leaves. -/
theorem SemInv.destroyed (h : SemInv s v₀ k H) (hs : k.step (.semDestroy s) = some k') :
    DeadInv s (v₀ + ups H - passes H) k' [] := by
  obtain ⟨hk, -⟩ := h.kernel.step hs
  obtain ⟨hall, hvalue, hpoint⟩ := h.kernel.releases_all hs
  obtain ⟨-, x, S, -, rfl⟩ := Kernel.step_semDestroy hs
  obtain ⟨inside, hin, hpass⟩ := h.inside
  have hcounts := h.value
  refine ⟨hk, h.created, hall.marked, hall.empty, fun t code he => absurd he List.not_mem_nil,
    inside, fun t => ?_, ?_⟩
  · rw [hpoint]
    exact hin t
  · rw [hvalue]
    omega

/-! ## After the destruction -/

theorem DeadInv.down (h : DeadInv s n k K) (t : Nat) :
    semDown (k.sem s) t = .ok (some error, k.sem s) := by
  rw [semDown_eq (h.kernel.unlocked s), if_pos h.dead]

theorem DeadInv.up (h : DeadInv s n k K) : semUp (k.sem s) = .ok (error, none, k.sem s) :=
  semUp_destroyed (h.kernel.unlocked s) h.dead

theorem DeadInv.downWoken (h : DeadInv s n k K) : semDownWoken (k.sem s) =
    .ok (error, { k.sem s with value := addInt (k.sem s).value 1 }) := by
  rw [semDownWoken_eq (h.kernel.unlocked s), if_pos h.dead]

/-- Writing a semaphore back changes nothing. -/
theorem Kernel.setSem_self (k : Kernel) (s : Nat) : k.setSem s (k.sem s) = k := by
  rw [Kernel.setSem, Function.update_eq_self]

/-- A step that leaves the semaphore as it is, in which every call fails. -/
theorem DeadInv.untouched (h : DeadInv s n k K) (hk : KernelInv k')
    (hcount : k.semCount ≤ k'.semCount) (hsem : k'.sem s = k.sem s)
    (hpoint : ∀ t, k'.point t = .semDown s ↔ k.point t = .semDown s)
    (hevents : ∀ t code, .returned t code ∈ semEvents s k a → code = error) :
    DeadInv s n k' (K ++ semEvents s k a) := by
  obtain ⟨inside, hin, hvalue⟩ := h.inside
  refine ⟨hk, Nat.lt_of_lt_of_le h.created hcount, ?_, ?_, fun t code he => ?_, inside,
    fun t => ?_, ?_⟩
  · rw [hsem]
    exact h.dead
  · rw [hsem]
    exact h.empty
  · rcases List.mem_append.mp he with he | he
    · exact h.errors t code he
    · exact hevents t code he
  · rw [hin]
    simp only [hpoint]
  · rw [hsem]
    exact hvalue

/-- A pending call returns, and undoes its decrement. -/
theorem DeadInv.returns (h : DeadInv s n k K) {r : Int × Semaphore} (hk : KernelInv k')
    (hcount : k'.semCount = k.semCount) (hsem : k'.sem s = r.2)
    (hpoint : k'.point = Function.update k.point k.current .user)
    (hp : k.point k.current = .semDown s) (hfits : ValueFits s k .resume)
    (hx : semDownWoken (k.sem s) = .ok r) : DeadInv s n k' (K ++ semEvents s k .resume) := by
  simp only [ValueFits, valueChange] at hfits
  rw [if_pos ⟨hp, h.dead⟩] at hfits
  obtain rfl := Except.ok.inj (hx.symm.trans h.downWoken)
  have hevents : semEvents s k .resume = [.returned k.current error] := by
    simp [semEvents, hp, hx]
  obtain ⟨inside, hin, hvalue⟩ := h.inside
  have hmem : k.current ∈ inside := by
    apply List.count_pos_iff.mp
    rw [hin, if_pos hp]
    exact Nat.one_pos
  have hlen := List.length_erase_of_mem hmem
  have hpos := List.length_pos_of_mem hmem
  rw [hevents]
  refine ⟨hk, hcount ▸ h.created, ?_, ?_, fun t code he => ?_, inside.erase k.current,
    fun t => ?_, ?_⟩
  · rw [hsem]
    exact h.dead
  · rw [hsem]
    exact h.empty
  · rcases List.mem_append.mp he with he | he
    · exact h.errors t code he
    · obtain ⟨-, rfl⟩ : t = k.current ∧ code = error := by simpa using he
      rfl
  · rw [hpoint]
    by_cases ht : t = k.current
    · subst ht
      rw [List.count_erase_self, hin, if_pos hp]
      simp
    · rw [List.count_erase_of_ne ht, hin, Function.update_of_ne ht]
  · rw [hsem]
    simp only [addInt_of_fits hfits]
    omega

/-- **A step keeps the promises** of a destroyed semaphore, if it does not overflow the
value. -/
theorem DeadInv.step (h : DeadInv s n k K) (hfits : ValueFits s k a) (hs : k.step a = some k') :
    DeadInv s n k' (K ++ semEvents s k a) := by
  obtain ⟨hk, -⟩ := h.kernel.step hs
  cases h.kernel.sem_step h.created hs with
  | untouched hcount hsem hpoint hevents =>
      refine h.untouched hk hcount hsem hpoint fun t code he => ?_
      rw [hevents] at he
      exact absurd he List.not_mem_nil
  | downs hcount hsem hpoint hx =>
      have hdown := h.down k.current
      obtain ⟨-, rfl⟩ := Prod.mk.inj (Except.ok.inj (hx.symm.trans hdown))
      refine h.untouched hk (le_of_eq hcount.symm) hsem (fun t => by rw [hpoint])
        fun t code he => ?_
      rw [semEvents, if_pos rfl, hdown] at he
      obtain ⟨-, rfl⟩ : t = k.current ∧ code = error := by simpa using he
      rfl
  | waits _ _ _ _ hx =>
      -- a destroyed semaphore does not block
      rw [h.down] at hx
      exact absurd hx (by simp)
  | ups hcount hsem hpoint hx =>
      obtain rfl := Except.ok.inj (hx.symm.trans h.up)
      refine h.untouched hk (le_of_eq hcount.symm) hsem (fun t => by rw [hpoint])
        fun t code he => ?_
      rw [semEvents, if_pos rfl, hx] at he
      exact absurd he (by simp)
  | destroys hcount =>
      -- destroyed a second time
      obtain ⟨hall, hvalue, hpoint⟩ := h.kernel.releases_all hs
      obtain ⟨inside, hin, hn⟩ := h.inside
      rw [show semEvents s k (.semDestroy s) = [] from rfl, List.append_nil]
      refine ⟨hk, hcount ▸ h.created, hall.marked, hall.empty, h.errors, inside, ?_, ?_⟩
      · rw [hpoint]
        exact hin
      · rw [hvalue]
        exact hn
  | returns hcount hsem hpoint hp hx => exact h.returns hk hcount hsem hpoint hp hfits hx

/-- A call on a destroyed semaphore leaves the kernel as it was. -/
theorem DeadInv.step_down (h : DeadInv s n k K) (hs : k.step (.semDown s) = some k') :
    k' = k := by
  obtain ⟨-, -, hcall⟩ := Kernel.step_call hs (by simp)
  cases hcall with
  | downs _ hx =>
      obtain ⟨-, rfl⟩ := Prod.mk.inj (Except.ok.inj ((h.down _).symm.trans hx))
      exact Kernel.setSem_self ..
  | waits _ hx => exact absurd ((h.down _).symm.trans hx) (by simp)

theorem DeadInv.step_up (h : DeadInv s n k K) (hs : k.step (.semUp s) = some k') : k' = k := by
  obtain ⟨-, -, hcall⟩ := Kernel.step_call hs (by simp)
  cases hcall with
  | ups _ hx haw =>
      obtain rfl := Except.ok.inj (h.up.symm.trans hx)
      obtain rfl := Except.ok.inj haw
      exact Kernel.setSem_self ..

/-- Returns with `ERROR` are no passes. -/
theorem passes_errors (herrors : ∀ t code, .returned t code ∈ K → code = error) :
    passes (H ++ K) = passes H := by
  have hnone : passes K = 0 := by
    apply List.countP_eq_zero.mpr
    intro e he
    cases e with
    | returned t code =>
        obtain rfl := herrors t code he
        simp [error, noError]
    | down _ | blocked _ | up _ => simp
  unfold passes at hnone ⊢
  rw [List.countP_append, hnone, Nat.add_zero]

/-- **The promises hold** wherever the invariant does. -/
theorem DeadInv.spec (h : DeadInv s (v₀ + ups H - passes H) k K)
    (hpassed : (passes H : Int) ≤ v₀ + ups H) : DestroyedSpec s v₀ k H K := by
  obtain ⟨inside, hin, hvalue⟩ := h.inside
  refine ⟨h.errors, fun t hp hs => ?_, fun hc hp => ⟨?_, ?_⟩, fun k' hs =>
    ⟨h.down k.current, h.step_down hs⟩, fun k' hs => ⟨h.up, h.step_up hs⟩, fun hout => ?_⟩
  · have hmem := (h.kernel.mem_waitQueue s t).mpr (blockedAt_eq_some.mpr ⟨hs, hp⟩)
    rw [h.empty] at hmem
    exact absurd hmem List.not_mem_nil
  · refine ⟨(k.setSem s { k.sem s with value := addInt (k.sem s).value 1 }).setPoint .user, ?_⟩
    refine Preemptive.step_eq_some.mpr (Preemptive.exec_task.mpr ⟨hc, ?_⟩)
    simp only [Kernel.resume, hp, h.downWoken]
    rfl
  · simp [semEvents, hp, h.downWoken]
  · have hempty : inside = [] := by
      apply List.eq_nil_iff_forall_not_mem.mpr
      intro t ht
      have := List.count_pos_iff.mpr ht
      rw [hin, if_neg (hout t)] at this
      exact absurd this (Nat.lt_irrefl 0)
    rw [hempty, List.length_nil] at hvalue
    rw [passes_errors h.errors]
    omega

end PingPongOS
