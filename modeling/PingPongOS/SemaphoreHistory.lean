import PingPongOS.TaskConsistency

/-!
# Conservation and order of a semaphore

The history of one semaphore records the calls that begin, those that block, those
that return, and whom each `sem_up` releases.  From it alone the value of the
semaphore and the order of its wait queue are known in every state.
-/

namespace PingPongOS

open Runs TaskSystem

/-- What happens to a semaphore: a `sem_down` begins, blocks or returns, a `sem_up`
releases a task or none. -/
inductive SemEvent
  | down (t : Nat)
  | blocked (t : Nat)
  | returned (t : Nat) (code : Int)
  | up (released : Option Nat)
  deriving DecidableEq

/-- The events of a step at the semaphore `s`. -/
def semEvents (s : Nat) (k : Kernel) : Action → List SemEvent
  | .semDown r =>
      if r = s then
        match semDown (k.sem s) k.current with
        | .ok (some code, _) => [.down k.current, .returned k.current code]
        | .ok (none, _) => [.down k.current, .blocked k.current]
        | .error _ => [.down k.current]
      else []
  | .semUp r =>
      if r = s then
        match semUp (k.sem s) with
        | .ok x => [.up x.2.1]
        | .error _ => []
      else []
  | .resume =>
      if k.point k.current = .semDown s then
        match semDownWoken (k.sem s) with
        | .ok x => [.returned k.current x.1]
        | .error _ => []
      else []
  | _ => []

/-- The calls of `sem_down` begun. -/
def downs (H : List SemEvent) : Nat := H.countP fun
  | .down _ => true
  | _ => false

/-- The calls of `sem_up` made. -/
def ups (H : List SemEvent) : Nat := H.countP fun
  | .up _ => true
  | _ => false

/-- The calls of `sem_down` that returned `NOERROR`. -/
def passes (H : List SemEvent) : Nat := H.countP fun
  | .returned _ code => code = noError
  | _ => false

/-- The tasks that blocked, in order. -/
def blockedCalls (H : List SemEvent) : List Nat := H.filterMap fun
  | .blocked t => some t
  | _ => none

/-- The tasks that a `sem_up` released, in order. -/
def releases (H : List SemEvent) : List Nat := H.filterMap fun
  | .up o => o
  | _ => none

/-- **What a semaphore created with the value `v₀` promises**, in the state `k` after
the history `H`. -/
structure SemaphoreSpec (s : Nat) (v₀ : Int) (k : Kernel) (H : List SemEvent) : Prop where
  /-- The value counts the calls. -/
  value : (k.sem s).value = v₀ + ups H - downs H
  /-- One entry for each unit that is missing. -/
  length : ((k.sem s).waitQueue.items.length : Int) = max 0 (-(k.sem s).value)
  /-- In order of arrival, the tasks that blocked and that no `sem_up` has released. -/
  order : blockedCalls H = releases H ++ (k.sem s).waitQueue.items
  /-- Each is there once. -/
  once : (k.sem s).waitQueue.items.Nodup
  /-- They are the tasks suspended in `sem_down`. -/
  waiters : ∀ t, t ∈ (k.sem s).waitQueue.items ↔
    (k.sys.task t).status = .suspended ∧ k.point t = .semDown s
  /-- No more calls pass than units were there. -/
  passed : (passes H : Int) ≤ v₀ + ups H
  /-- A `sem_up` with tasks waiting wakes the one that has waited longest, alone. -/
  wakes : ∀ k', k.step (.semUp s) = some k' → (k.sem s).value < 0 →
    ∃ t, (k.sem s).waitQueue.items.head? = some t ∧ (k.sys.task t).status = .suspended ∧
      (k'.sys.task t).status = .ready ∧ k'.sys.occurs .ready t = 1 ∧
      ∀ y, y ≠ t → (k'.sys.task y).status = (k.sys.task y).status

/-- The invariant of a semaphore that is not destroyed; `inside` are the tasks that have
begun a `sem_down` and not returned from it. -/
structure SemInv (s : Nat) (v₀ : Int) (k : Kernel) (H : List SemEvent) : Prop where
  kernel : KernelInv k
  created : s < k.semCount
  alive : (k.sem s).destroy = false
  value : (k.sem s).value = v₀ + ups H - downs H
  length : ((k.sem s).waitQueue.items.length : Int) = max 0 (-(k.sem s).value)
  order : blockedCalls H = releases H ++ (k.sem s).waitQueue.items
  inside : ∃ inside : List Nat, (∀ t, inside.count t = if k.point t = .semDown s then 1 else 0) ∧
    passes H + inside.length = downs H

/-- What a step adds to the value of the semaphore `s`. -/
def valueChange (s : Nat) (k : Kernel) : Action → Int
  | .semDown r => if r = s ∧ (k.sem s).destroy = false then -1 else 0
  | .semUp r => if r = s ∧ (k.sem s).destroy = false then 1 else 0
  | .resume => if k.point k.current = .semDown s ∧ (k.sem s).destroy = true then 1 else 0
  | _ => 0

/-- The step does not overflow the value. -/
def ValueFits (s : Nat) (k : Kernel) (a : Action) : Prop :=
  FitsInt ((k.sem s).value + valueChange s k a)

instance (s : Nat) (k : Kernel) (a : Action) : Decidable (ValueFits s k a) :=
  inferInstanceAs (Decidable (FitsInt _))

variable {s : Nat} {v₀ : Int} {k k' : Kernel} {H : List SemEvent} {a : Action}

/-- Where the running task goes on does not matter, if it neither enters nor leaves
`sem_down` of the semaphore. -/
theorem setPoint_semDown {p : TaskPoint} (hp : p ≠ .semDown s)
    (hu : k.point k.current ≠ .semDown s) (t : Nat) :
    (k.setPoint p).point t = .semDown s ↔ k.point t = .semDown s := by
  unfold Kernel.setPoint
  by_cases ht : t = k.current
  · subst ht
    simp [hp, hu]
  · simp [Function.update_of_ne ht]

/-- **What a step does to the semaphore `s`**: nothing, one of its calls, or the rest of
a `sem_down`. -/
inductive SemStep (s : Nat) (k : Kernel) : Action → Kernel → Prop
  | untouched {a : Action} {k' : Kernel} (hcount : k.semCount ≤ k'.semCount)
      (hsem : k'.sem s = k.sem s) (hpoint : ∀ t, k'.point t = .semDown s ↔ k.point t = .semDown s)
      (hevents : semEvents s k a = []) : SemStep s k a k'
  | downs {k' : Kernel} {c : Int} {x : Semaphore} (hcount : k'.semCount = k.semCount)
      (hsem : k'.sem s = x) (hpoint : k'.point = k.point)
      (hx : semDown (k.sem s) k.current = .ok (some c, x)) : SemStep s k (.semDown s) k'
  | waits {k' : Kernel} {x : Semaphore} (hcount : k'.semCount = k.semCount)
      (hsem : k'.sem s = x)
      (hpoint : k'.point = Function.update k.point k.current (.semDown s))
      (hu : k.point k.current = .user)
      (hx : semDown (k.sem s) k.current = .ok (none, x)) : SemStep s k (.semDown s) k'
  | ups {k' : Kernel} {r : Int × Option Nat × Semaphore} (hcount : k'.semCount = k.semCount)
      (hsem : k'.sem s = r.2.2) (hpoint : k'.point = k.point) (hx : semUp (k.sem s) = .ok r) :
      SemStep s k (.semUp s) k'
  | destroys {k' : Kernel} (hcount : k'.semCount = k.semCount) : SemStep s k (.semDestroy s) k'
  | returns {k' : Kernel} {r : Int × Semaphore} (hcount : k'.semCount = k.semCount)
      (hsem : k'.sem s = r.2) (hpoint : k'.point = Function.update k.point k.current .user)
      (hp : k.point k.current = .semDown s) (hx : semDownWoken (k.sem s) = .ok r) :
      SemStep s k .resume k'

/-- **Every step** is one of these. -/
theorem KernelInv.sem_step (h : KernelInv k) (hcreated : s < k.semCount)
    (hs : k.step a = some k') : SemStep s k a k' := by
  obtain ⟨-, heffect⟩ := h.step hs
  have hother : ∀ {r}, r ≠ s → ∀ (x : Semaphore), (k.setSem r x).sem s = k.sem s :=
    fun hr x => Function.update_of_ne (Ne.symm hr) ..
  have hself : ∀ (x : Semaphore), (k.setSem s x).sem s = x := fun x => Function.update_self ..
  have hmanager : k.current = 1 → k.point k.current ≠ .semDown s := by
    intro hc heq
    obtain ⟨q, hq⟩ := h.disk.manager
    rw [hc, hq] at heq
    exact absurd heq (by simp)
  cases heffect with
  | tasks ha _ =>
      refine .untouched (Nat.le_refl _) rfl (fun _ => Iff.rfl) ?_
      cases a <;> first | rfl | exact absurd ha (by simp [Action.onTasks])
  | sleeps hu _ =>
      exact .untouched (Nat.le_refl _) rfl (setPoint_semDown (by simp) (by simp [hu])) rfl
  | joins hu _ =>
      exact .untouched (Nat.le_refl _) rfl (setPoint_semDown (by simp) (by simp [hu])) rfl
  | creates hx =>
      have hne : k.semCount ≠ s := by omega
      exact .untouched (Nat.le_succ _) (hother hne _) (fun _ => Iff.rfl) rfl
  | @downs r c x hx =>
      by_cases hr : r = s
      · subst hr
        exact .downs rfl (hself x) rfl hx
      · exact .untouched (Nat.le_refl _) (hother hr _) (fun _ => Iff.rfl) (if_neg hr)
  | @waits r x S hu hx _ =>
      by_cases hr : r = s
      · subst hr
        exact .waits rfl (hself x) rfl hu hx
      · have hne : k.point k.current ≠ .semDown s := by simp [hu]
        exact .untouched (Nat.le_refl _) (hother hr _)
          (setPoint_semDown (by simpa using hr) hne) (if_neg hr)
  | @ups r x S hx _ _ _ =>
      by_cases hr : r = s
      · subst hr
        exact .ups rfl (hself x.2.2) rfl hx
      · exact .untouched (Nat.le_refl _) (hother hr _) (fun _ => Iff.rfl) (if_neg hr)
  | @destroys r x S _ =>
      by_cases hr : r = s
      · subst hr
        exact .destroys rfl
      · exact .untouched (Nat.le_refl _) (hother hr _) (fun _ => Iff.rfl) rfl
  | rejects => exact .untouched (Nat.le_refl _) rfl (fun _ => Iff.rfl) rfl
  | asks hb _ hu _ =>
      rw [blockCall_of_buffer k hb]
      exact .untouched (Nat.le_refl _) rfl (setPoint_semDown (by simp) (by simp [hu])) rfl
  | stores => exact .untouched (Nat.le_refl _) rfl (fun _ => Iff.rfl) rfl
  | returns _ hp =>
      have hne : k.point k.current ≠ .semDown s := by
        intro heq
        rw [heq] at hp
        exact absurd hp (by simp [TaskPoint.returns])
      exact .untouched (Nat.le_refl _) rfl (setPoint_semDown (by simp) hne) (if_neg hne)
  | @returnsDown r x hp hx =>
      by_cases hr : r = s
      · subst hr
        exact .returns rfl (hself x.2) rfl hp hx
      · have hne : k.point k.current ≠ .semDown s := by
          rw [hp]
          simpa using hr
        exact .untouched (Nat.le_refl _) (hother hr _) (setPoint_semDown (by simp) hne)
          (if_neg hne)
  | starts hc _ =>
      exact .untouched (Nat.le_refl _) rfl (setPoint_semDown (by simp) (hmanager hc)) rfl
  | idles _ _ _ _ => exact .untouched (Nat.le_refl _) rfl (fun _ => Iff.rfl) rfl
  | serves hc _ _ _ _ =>
      exact .untouched (Nat.le_refl _) rfl (setPoint_semDown (by simp) (hmanager hc)) rfl
  | answers hc _ _ _ _ =>
      exact .untouched (Nat.le_refl _) rfl (setPoint_semDown (by simp) (hmanager hc)) rfl
  | transfers _ => exact .untouched (Nat.le_refl _) rfl (fun _ => Iff.rfl) rfl
  | interrupts _ _ => exact .untouched (Nat.le_refl _) rfl (fun _ => Iff.rfl) rfl

/-- A step that does not touch the semaphore. -/
theorem SemInv.untouched (h : SemInv s v₀ k H) (hk : KernelInv k')
    (hcount : k.semCount ≤ k'.semCount) (hsem : k'.sem s = k.sem s)
    (hpoint : ∀ t, k'.point t = .semDown s ↔ k.point t = .semDown s)
    (hevents : semEvents s k a = []) : SemInv s v₀ k' (H ++ semEvents s k a) := by
  rw [hevents, List.append_nil]
  obtain ⟨inside, hin, hpass⟩ := h.inside
  refine ⟨hk, Nat.lt_of_lt_of_le h.created hcount, ?_, ?_, ?_, ?_, inside, fun t => ?_, hpass⟩
  · rw [hsem]
    exact h.alive
  · rw [hsem]
    exact h.value
  · rw [hsem]
    exact h.length
  · rw [hsem]
    exact h.order
  · rw [hin]
    simp only [hpoint]

/-- Where it does not overflow, `sem_down` counts one down. -/
theorem SemInv.value_down (h : SemInv s v₀ k H) (hfits : ValueFits s k (.semDown s)) :
    addInt (k.sem s).value (-1) = (k.sem s).value - 1 := by
  simp only [ValueFits, valueChange] at hfits
  rw [if_pos ⟨trivial, h.alive⟩] at hfits
  exact addInt_of_fits hfits

/-- A `sem_down` that finds a unit. -/
theorem SemInv.passes_down (h : SemInv s v₀ k H) {c : Int} {x : Semaphore}
    (hk : KernelInv k') (hcount : k'.semCount = k.semCount) (hsem : k'.sem s = x)
    (hpoint : k'.point = k.point) (hfits : ValueFits s k (.semDown s))
    (hx : semDown (k.sem s) k.current = .ok (some c, x)) :
    SemInv s v₀ k' (H ++ semEvents s k (.semDown s)) := by
  have hdown := semDown_eq (h.kernel.unlocked s) k.current
  rw [hx, if_neg (by rw [h.alive]; decide), h.value_down hfits] at hdown
  by_cases hv : (k.sem s).value - 1 < 0
  · rw [if_pos hv] at hdown
    exact absurd hdown (by simp)
  rw [if_neg hv] at hdown
  obtain ⟨hc, rfl⟩ := Prod.mk.inj (Except.ok.inj hdown)
  obtain rfl := Option.some.inj hc
  have hevents : semEvents s k (.semDown s) =
      [.down k.current, .returned k.current noError] := by
    simp [semEvents, hx]
  obtain ⟨inside, hin, hpass⟩ := h.inside
  have hvalue := h.value
  have hlength := h.length
  have horder := h.order
  rw [hevents]
  refine ⟨hk, hcount ▸ h.created, ?_, ?_, ?_, ?_, inside, fun t => ?_, ?_⟩
  · rw [hsem]
    exact h.alive
  · rw [hsem]
    simp [downs, ups] at hvalue ⊢
    omega
  · rw [hsem]
    simp only
    omega
  · rw [hsem]
    simpa [blockedCalls, releases] using horder
  · rw [hpoint]
    exact hin t
  · simp [downs, passes] at hpass ⊢
    omega

/-- A `sem_down` that blocks. -/
theorem SemInv.blocks_down (h : SemInv s v₀ k H) {x : Semaphore} (hk : KernelInv k')
    (hcount : k'.semCount = k.semCount) (hsem : k'.sem s = x)
    (hpoint : k'.point = Function.update k.point k.current (.semDown s))
    (hu : k.point k.current = .user) (hfits : ValueFits s k (.semDown s))
    (hx : semDown (k.sem s) k.current = .ok (none, x)) :
    SemInv s v₀ k' (H ++ semEvents s k (.semDown s)) := by
  have hdown := semDown_eq (h.kernel.unlocked s) k.current
  rw [hx, if_neg (by rw [h.alive]; decide), h.value_down hfits] at hdown
  by_cases hv : (k.sem s).value - 1 < 0
  swap
  · rw [if_neg hv] at hdown
    exact absurd hdown (by simp)
  rw [if_pos hv] at hdown
  obtain ⟨-, rfl⟩ := Prod.mk.inj (Except.ok.inj hdown)
  have hevents : semEvents s k (.semDown s) = [.down k.current, .blocked k.current] := by
    simp [semEvents, hx]
  obtain ⟨inside, hin, hpass⟩ := h.inside
  have hvalue := h.value
  have hlength := h.length
  have horder := h.order
  rw [hevents]
  refine ⟨hk, hcount ▸ h.created, ?_, ?_, ?_, ?_, k.current :: inside, fun t => ?_, ?_⟩
  · rw [hsem]
    exact h.alive
  · rw [hsem]
    simp [downs, ups] at hvalue ⊢
    omega
  · rw [hsem]
    simp only [queueAdd_items, List.length_append, List.length_singleton]
    omega
  · rw [hsem]
    simp only [blockedCalls, releases, queueAdd_items, List.filterMap_append] at horder ⊢
    rw [horder]
    simp
  · rw [hpoint, List.count_cons, hin]
    by_cases ht : t = k.current
    · subst ht
      simp [hu]
    · simp [Function.update_of_ne ht, Ne.symm ht]
  · simp [downs, passes] at hpass ⊢
    omega

/-- A `sem_up`. -/
theorem SemInv.up (h : SemInv s v₀ k H) {r : Int × Option Nat × Semaphore} (hk : KernelInv k')
    (hcount : k'.semCount = k.semCount) (hsem : k'.sem s = r.2.2) (hpoint : k'.point = k.point)
    (hfits : ValueFits s k (.semUp s)) (hx : semUp (k.sem s) = .ok r) :
    SemInv s v₀ k' (H ++ semEvents s k (.semUp s)) := by
  obtain ⟨x, hup, -, hd, hv, hitems⟩ := semUp_ok (h.kernel.unlocked s) h.alive
  simp only [ValueFits, valueChange] at hfits
  rw [if_pos ⟨trivial, h.alive⟩] at hfits
  rw [addInt_of_fits hfits] at hv
  obtain rfl := Except.ok.inj (hx.symm.trans hup)
  have hevents : semEvents s k (.semUp s) = [.up (k.sem s).waitQueue.items.head?] := by
    simp [semEvents, hx]
  obtain ⟨inside, hin, hpass⟩ := h.inside
  have hvalue := h.value
  have hlength := h.length
  have horder := h.order
  rw [hevents]
  refine ⟨hk, hcount ▸ h.created, ?_, ?_, ?_, ?_, inside, fun t => ?_, ?_⟩
  · rw [hsem]
    exact hd
  · rw [hsem]
    simp [downs, ups] at hvalue ⊢
    omega
  · rw [hsem]
    simp only [hitems, List.length_tail]
    omega
  · rw [hsem, hitems]
    cases hq : (k.sem s).waitQueue.items with
    | nil => simpa [blockedCalls, releases, hq] using horder
    | cons t rest => simpa [blockedCalls, releases, hq] using horder
  · rw [hpoint]
    exact hin t
  · simp [downs, passes] at hpass ⊢
    omega

/-- A task returns from `sem_down`. -/
theorem SemInv.returns (h : SemInv s v₀ k H) {r : Int × Semaphore} (hk : KernelInv k')
    (hcount : k'.semCount = k.semCount) (hsem : k'.sem s = r.2)
    (hpoint : k'.point = Function.update k.point k.current .user)
    (hp : k.point k.current = .semDown s) (hx : semDownWoken (k.sem s) = .ok r) :
    SemInv s v₀ k' (H ++ semEvents s k .resume) := by
  have hwoken := semDownWoken_eq (h.kernel.unlocked s)
  rw [hx, if_neg (by rw [h.alive]; decide)] at hwoken
  obtain rfl := Except.ok.inj hwoken
  have hevents : semEvents s k .resume = [.returned k.current noError] := by
    simp [semEvents, hp, hx]
  obtain ⟨inside, hin, hpass⟩ := h.inside
  have hmem : k.current ∈ inside := by
    apply List.count_pos_iff.mp
    rw [hin, if_pos hp]
    exact Nat.one_pos
  have hlen := List.length_erase_of_mem hmem
  have hpos := List.length_pos_of_mem hmem
  have hvalue := h.value
  have hlength := h.length
  have horder := h.order
  rw [hevents]
  refine ⟨hk, hcount ▸ h.created, ?_, ?_, ?_, ?_, inside.erase k.current, fun t => ?_, ?_⟩
  · rw [hsem]
    exact h.alive
  · rw [hsem]
    simpa [downs, ups] using hvalue
  · rw [hsem]
    exact hlength
  · rw [hsem]
    simpa [blockedCalls, releases] using horder
  · rw [hpoint]
    by_cases ht : t = k.current
    · subst ht
      rw [List.count_erase_self, hin, if_pos hp]
      simp
    · rw [List.count_erase_of_ne ht, hin, Function.update_of_ne ht]
  · simp [downs, passes] at hpass ⊢
    omega

/-- **A step keeps the promises** of a semaphore that it does not destroy. -/
theorem SemInv.step (h : SemInv s v₀ k H) (ha : a ≠ .semDestroy s) (hfits : ValueFits s k a)
    (hs : k.step a = some k') : SemInv s v₀ k' (H ++ semEvents s k a) := by
  obtain ⟨hk, -⟩ := h.kernel.step hs
  cases h.kernel.sem_step h.created hs with
  | untouched hcount hsem hpoint hevents => exact h.untouched hk hcount hsem hpoint hevents
  | downs hcount hsem hpoint hx => exact h.passes_down hk hcount hsem hpoint hfits hx
  | waits hcount hsem hpoint hu hx => exact h.blocks_down hk hcount hsem hpoint hu hfits hx
  | ups hcount hsem hpoint hx => exact h.up hk hcount hsem hpoint hfits hx
  | destroys _ => exact absurd rfl ha
  | returns hcount hsem hpoint hp hx => exact h.returns hk hcount hsem hpoint hp hx

/-- A `sem_up` wakes the task that has waited longest, and no other. -/
theorem SemInv.wakes (h : SemInv s v₀ k H) (hs : k.step (.semUp s) = some k') {t : Nat}
    (hhead : (k.sem s).waitQueue.items.head? = some t) :
    (k.sys.task t).status = .suspended ∧ (k'.sys.task t).status = .ready ∧
      k'.sys.occurs .ready t = 1 ∧
      ∀ y, y ≠ t → (k'.sys.task y).status = (k.sys.task y).status := by
  obtain ⟨x, hup, -⟩ := semUp_ok (h.kernel.unlocked s) h.alive
  rw [hhead] at hup
  obtain ⟨hk, heffect⟩ := h.kernel.step hs
  have hb := (h.kernel.mem_waitQueue s t).mp (List.mem_of_mem_head? hhead)
  obtain ⟨hlo, hhi⟩ := h.kernel.blocked_user hb (by simp)
  cases heffect with
  | tasks ha _ => exact absurd ha (by simp [Action.onTasks])
  | @ups _ r S hx hw hwoken _ =>
      obtain rfl := Except.ok.inj (hx.symm.trans hup)
      have hready := (hwoken t rfl).status
      refine ⟨(hwoken t rfl).was, hready, ?_, fun y hy => ?_⟩
      · rw [(hk.sys.users t (by simp) hlo (by rw [hw.currentTaskId]; exact hhi)).occurs, if_pos]
        unfold home
        rw [hready]
      · rcases hw.seats y with hseat | ⟨heq, -⟩
        · exact hseat.status
        · exact absurd (Option.some.inj heq) hy

/-- **The promises hold** wherever the invariant does. -/
theorem SemInv.spec (h : SemInv s v₀ k H) : SemaphoreSpec s v₀ k H := by
  have hmem := h.kernel.mem_waitQueue s
  obtain ⟨inside, hin, hpass⟩ := h.inside
  have hnodup : (k.sem s).waitQueue.items.Nodup := by
    apply List.nodup_iff_count_le_one.mpr
    intro t
    rw [(h.kernel.task t).waits]
    split
    · exact Nat.le_refl _
    · exact Nat.zero_le _
  have hvalue := h.value
  have hlength := h.length
  refine ⟨h.value, h.length, h.order, hnodup, ?_, ?_, fun k' hs hv => ?_⟩
  · exact fun t => (hmem t).trans blockedAt_eq_some
  · -- whoever waits has begun a call and not returned from it
    have hsub : (k.sem s).waitQueue.items.length ≤ inside.length := by
      apply List.Subperm.length_le
      apply hnodup.subperm
      intro t ht
      apply List.count_pos_iff.mp
      rw [hin, if_pos (blockedAt_eq_some.mp ((hmem t).mp ht)).2]
      exact Nat.one_pos
    omega
  · have hne : (k.sem s).waitQueue.items ≠ [] := by
      intro hnil
      rw [hnil, List.length_nil] at hlength
      omega
    exact ⟨_, List.head?_eq_some_head hne, h.wakes hs (List.head?_eq_some_head hne)⟩

/-- The state that `sem_create` leaves. -/
theorem SemInv.created_sem {k₀ k₁ : Kernel} (h : KernelInv k₀)
    (hcreate : k₀.step (.semCreate v₀) = some k₁) (hv : 0 ≤ v₀) :
    SemInv k₀.semCount v₀ k₁ [] := by
  obtain ⟨hk, -⟩ := h.step hcreate
  have hx : semCreate v₀ = some ⟨false, queueCreate, v₀, false⟩ := if_neg (by omega)
  have hk₁ : { k₀.setSem k₀.semCount ⟨false, queueCreate, v₀, false⟩ with
      semCount := k₀.semCount + 1 } = k₁ := by
    obtain ⟨-, -, hcall⟩ := Kernel.step_call hcreate (by simp)
    cases hcall with
    | semCreates hx' => rw [Option.some.inj (hx.symm.trans hx')]
    | semRefused hx' => exact absurd (hx.symm.trans hx') (by simp)
  have hsem : k₁.sem k₀.semCount = ⟨false, queueCreate, v₀, false⟩ := by
    rw [← hk₁]
    exact Function.update_self k₀.semCount _ k₀.sem
  have hpoint : k₁.point = k₀.point := by rw [← hk₁]; rfl
  refine ⟨hk, by rw [← hk₁]; exact Nat.lt_succ_self _, ?_, ?_, ?_, ?_, [], fun t => ?_, rfl⟩
  · rw [hsem]
  · rw [hsem]
    simp [ups, downs]
  · rw [hsem]
    simp only [queueCreate, Queue.items, List.append_nil, List.length_nil]
    omega
  · rw [hsem]
    rfl
  · rw [hpoint, if_neg]
    · rfl
    · intro hp
      exact absurd (h.created t _ hp) (Nat.lt_irrefl _)

end PingPongOS
