import PingPongOS.KernelEffects

/-!
# Every step of the kernel keeps its invariant

One lemma for each action, with the effect it has, and no action meets a fault: no
assertion fails, no lock is taken twice and no loop runs for ever.
-/

namespace PingPongOS

open Runs TaskSystem

variable {k k' : Kernel} {S S' : TaskSystem} {t c s : Nat} {x : Semaphore}

/-- Nothing happened outside the task subsystem. -/
theorem SameRest.sys (k : Kernel) (S : TaskSystem) : SameRest k { k with sys := S } :=
  ⟨rfl, rfl, rfl, rfl, rfl, rfl, rfl⟩

/-! ## Calls that use no semaphore and no disk -/

theorem KernelInv.create (h : KernelInv k) (granted : Bool) :
    KernelInv { k with sys := (taskCreate k.sys granted).2 } := by
  cases granted with
  | true => exact h.creates (creates_taskCreate k.sys) (SameRest.sys k _) h.ran
  | false => exact h

/-- The disk manager keeps its facts when a user task suspends itself. -/
theorem KernelInv.disk_blocks {f : Tcb → Tcb} {i : QueueId} {p : TaskPoint} (h : KernelInv k)
    (hc : 2 ≤ k.current) (hsys : k'.sys = taskSuspend (k.sys.modify k.current f) i)
    (hpoint : k'.point = Function.update k.point k.current p)
    (hrequests : k'.requests = k.requests) (hrequest : k'.request = k.request)
    (hdisk : k'.disk = k.disk) (hirq : k'.irqDisk = k.irqDisk) : DiskInv k' := by
  apply h.disk.congr _ hrequests hrequest (by rw [hdisk]) hirq
  · rw [hsys]
    exact (leaves_taskSuspend h.sys.kernelReady (show k.current ≠ 0 by omega) f i).manager_seat
      h.sys (show k.current ≠ 0 by omega)
  · rw [hpoint, Function.update_of_ne (by omega)]

/-- The disk manager keeps its seat when a user task suspends itself. -/
theorem KernelInv.steady_blocks {f : Tcb → Tcb} {i : QueueId} (h : KernelInv k)
    (hc : 2 ≤ k.current) : Steady k.sys (taskSuspend (k.sys.modify k.current f) i) := by
  apply (leaves_taskSuspend h.sys.kernelReady (show k.current ≠ 0 by omega) f i).steady
  intro heq
  exact absurd (show k.current = 1 from heq) (by omega)

theorem KernelInv.steady_suspend (h : KernelInv k) (hc : 2 ≤ k.current) :
    Steady k.sys (taskSuspend k.sys .suspended) := by
  have hsteady := h.steady_blocks (f := id) (i := .suspended) hc
  rw [modify_id] at hsteady
  exact hsteady

theorem KernelInv.sleep (h : KernelInv k) (hc : 2 ≤ k.current) (d : Int) :
    KernelInv { k.setPoint .taskSleep with sys := taskSleep k.sys d } := by
  obtain ⟨hwaits, hasks, -, hjoins⟩ := (h.task _).free (h.free_current (by omega))
  refine h.blocks (i := .sleeping) (p := .taskSleep) hc rfl (h.sys.sleep hc d) rfl (fun _ => rfl)
    (fun _ _ => ⟨fun _ => rfl, rfl⟩) ?_ hasks ?_ (fun _ => rfl) ?_ rfl
    (h.disk_blocks hc rfl rfl rfl rfl rfl rfl) h.unlocked rfl
  · exact fun s => by rw [if_neg (by simp)]; exact hwaits s
  · exact fun s heq => absurd heq (by simp)
  · exact fun hne => ⟨((h.task _).joins hne).1, Or.inl (hjoins hne)⟩

theorem KernelInv.wait (h : KernelInv k) (hc : 2 ≤ k.current) (ht : t ≤ k.sys.currentTaskId)
    (hwait : taskWait k.sys t = (none, S)) :
    KernelInv { k.setPoint (.taskWait t) with sys := S } ∧ Steady k.sys S := by
  obtain ⟨hwaits, hasks, hsleep, -⟩ := (h.task _).free (h.free_current (by omega))
  have hS : S = taskSuspend (k.sys.modify k.current fun b =>
      { b with targetToWait := (k.sys.task t).id }) .suspended := by
    unfold taskWait at hwait
    split at hwait
    · simp at hwait
    · exact (Prod.mk.inj hwait).2.symm
  subst hS
  refine ⟨h.blocks (p := .taskWait t) hc rfl
    (h.sys.suspend (show k.current ≠ 0 by omega) fun _ => rfl) rfl
    (fun _ => rfl) (fun _ _ => ⟨fun _ => rfl, rfl⟩) ?_ hasks ?_ ?_ ?_ rfl
    (h.disk_blocks hc rfl rfl rfl rfl rfl rfl) h.unlocked rfl, h.steady_blocks hc⟩
  · exact fun s => by rw [if_neg (by simp)]; exact hwaits s
  · exact fun s heq => absurd heq (by simp)
  · intro hs
    exact absurd (hsleep.symm.trans hs) (by simp)
  · intro _
    simp only [h.names.ids t ht]
    exact ⟨ht, Or.inr trivial⟩

/-- A task that `task_exit` of `c` wakes was blocked in `task_wait` of `c`. -/
theorem KernelInv.joined (h : KernelInv k) (hc : 2 ≤ c) (hcn : c ≤ k.sys.currentTaskId)
    (hrun : (k.sys.task c).status ≠ .finished)
    (ht : (k.sys.task t).targetToWait = (k.sys.task c).id) :
    k.blockedAt t = some (.taskWait c) := by
  rw [h.names.ids c hcn] at ht
  obtain ⟨-, hfin | hb⟩ := (h.task t).joins (by omega)
  · rw [ht] at hfin
    exact absurd hfin hrun
  · rw [ht] at hb
    exact hb

theorem KernelInv.exit (h : KernelInv k) (hc : 2 ≤ k.current) (code : Int) :
    ∃ S', taskExit k.sys code = .ok S' ∧ KernelInv { k with sys := S' } ∧ Steady k.sys S' := by
  have hcn : k.current ≤ k.sys.currentTaskId := h.sys.current
  have hrunning := h.sys.running (show k.current ≠ 0 by omega)
  have hnot : (k.sys.task k.current).status ≠ .finished := fun hs =>
    absurd (hrunning.1.symm.trans hs) (by decide)
  obtain ⟨S', hexit, hsys, he⟩ := h.sys.exit hc code fun y hy => by
    rw [h.names.neverWaits y hy, h.names.ids _ h.sys.current]
    exact (show 0 ≠ k.current by omega)
  have hg := he.grows
  have hcur : ∀ t, t ≠ k.current → SameSeat k.sys S' t ∨
      (k.blockedAt t = some (.taskWait k.current) ∧ Woken k.sys S' t) := by
    intro t ht
    refine (he.others t ht).imp_right fun hw => ⟨h.joined hc hcn hnot hw.1, hw.2.2⟩
  refine ⟨S', hexit, ⟨hsys, ?_, fun t => ?_, ?_, h.created, h.unlocked, ?_⟩, he.steady hc⟩
  · apply h.names.congr hg he.currentTaskId fun t _ => (he.ids t).2
    intro t hlt hs
    rcases hcur t (by omega) with hseat | ⟨-, hw⟩
    · rw [← hseat.status]
      exact hs
    · exact hw.was
  · by_cases ht : t = k.current
    · subst ht
      have hfin : (S'.task k.current).status = .finished := he.finished
      have hfree : Kernel.Free { k with sys := S' } k.current :=
        free_of_not_suspended (show (S'.task k.current).status ≠ .suspended by rw [hfin]; decide)
      have hseat := hsys.users k.current (by simp) hc (by rw [he.currentTaskId]; exact hcn)
      have hsleeping := hseat.sleeping (by rw [hfin]; decide)
      exact (h.task _).of_free (h.free_current (by omega)) hfree hg
        ⟨hsleeping.trans hrunning.2.symm, (he.ids _).2⟩ (fun _ => rfl) rfl
    · rcases hcur t ht with hseat | ⟨hb, hw⟩
      · have hsame : SameTask k { k with sys := S' } t := by
          refine ⟨?_, ⟨hseat.sleeping, (he.ids t).2⟩, fun _ => rfl, rfl⟩
          unfold Kernel.blockedAt
          rw [hseat.status]
        exact (h.task t).congr hsame hg
      · have hnone : Kernel.blockedAt { k with sys := S' } t = none :=
          Woken.blockedAt (k := k) hw
        refine (h.task t).woken hg (he.ids t).2 hnone hw.sleeping (fun s => ?_) ?_ fun x hx _ => ?_
        · exact ((h.task t).waits s).trans (by rw [hb]; simp)
        · exact (h.task t).asks.trans (by rw [hb]; simp)
        · rw [hb] at hx
          obtain rfl := TaskPoint.taskWait.inj (Option.some.inj hx)
          exact he.finished
  · refine h.disk.congr rfl rfl rfl rfl rfl fun hready hs => ?_
    rcases hcur 1 (by omega) with hseat | ⟨hb, -⟩
    · exact ⟨hseat.status.trans hs, (hseat.occurs _).trans hready⟩
    · obtain ⟨q, hq⟩ := h.disk.free _ hb
      exact absurd hq (by simp)
  · exact fun t ht => Nat.le_trans (h.ran t ht) hg.currentTaskId

/-! ## Semaphores -/

/-- What `sem_down` does to a semaphore that is not locked. -/
theorem semDown_eq (hl : x.lock = false) (t : Nat) : semDown x t = .ok
    (if x.destroy then (some error, x)
    else if addInt x.value (-1) < 0 then
      (none, { x with value := addInt x.value (-1), waitQueue := queueAdd x.waitQueue t })
    else (some noError, { x with value := addInt x.value (-1) })) := by
  obtain ⟨lock, q, v, d⟩ := x
  obtain rfl : lock = false := hl
  cases d with
  | true => rfl
  | false =>
      by_cases hv : addInt v (-1) < 0
      · simp [semDown, spinLock, spinUnlock, hv, bind, Except.bind]
      · simp [semDown, spinLock, spinUnlock, hv, bind, Except.bind]

theorem semDownWoken_eq (hl : x.lock = false) : semDownWoken x = .ok
    (if x.destroy then (error, { x with value := addInt x.value 1 }) else (noError, x)) := by
  obtain ⟨lock, q, v, d⟩ := x
  obtain rfl : lock = false := hl
  cases d with
  | true => rfl
  | false => rfl

/-- What `sem_up` does to a semaphore that is not locked: it passes the head of the wait
queue to `task_awake`. -/
theorem semUp_ok (hl : x.lock = false) (hd : x.destroy = false) :
    ∃ x', semUp x = .ok (noError, x.waitQueue.items.head?, x') ∧ x'.lock = false ∧
      x'.destroy = false ∧ x'.value = addInt x.value 1 ∧
      x'.waitQueue.items = x.waitQueue.items.tail := by
  obtain ⟨lock, q, v, d⟩ := x
  obtain rfl : lock = false := hl
  obtain rfl : d = false := hd
  cases hq : q.items.head? with
  | none =>
      refine ⟨⟨false, ⟨[], q.items⟩, addInt v 1, false⟩, ?_, rfl, rfl, rfl, ?_⟩
      · simp [semUp, spinLock, spinUnlock, queueHead, hq, bind, Except.bind]
      · rw [List.head?_eq_none_iff.mp hq]
        rfl
  | some t =>
      refine ⟨⟨false, (queueDel ⟨[], q.items⟩ t).2, addInt v 1, false⟩, ?_, rfl, rfl, rfl, ?_⟩
      · simp [semUp, spinLock, spinUnlock, queueHead, hq, bind, Except.bind]
      · exact queueDel_head (q := ⟨[], q.items⟩) hq

theorem semUp_destroyed (hl : x.lock = false) (hd : x.destroy = true) :
    semUp x = .ok (error, none, x) := by
  obtain ⟨lock, q, v, d⟩ := x
  obtain rfl : lock = false := hl
  obtain rfl : d = true := hd
  rfl

/-- The waiters of a semaphore are the tasks blocked in its `sem_down`. -/
theorem KernelInv.mem_waitQueue (h : KernelInv k) (s t : Nat) :
    t ∈ (k.sem s).waitQueue.items ↔ k.blockedAt t = some (.semDown s) := by
  rw [← List.count_pos_iff, (h.task t).waits]
  split
  · simp [*]
  · simp [*]

/-- The callers of requests in the queue are the tasks blocked in the block layer. -/
theorem KernelInv.mem_requests (h : KernelInv k) (t : Nat) :
    t ∈ k.requests.items ↔ k.blockedAt t = some .block := by
  rw [← List.count_pos_iff, (h.task t).asks]
  split
  · simp [*]
  · simp [*]

/-- A semaphore changes, but not who waits for it. -/
theorem KernelInv.setSem (h : KernelInv k) {n : Nat}
    (hitems : ∀ t, x.waitQueue.items.count t = (k.sem s).waitQueue.items.count t)
    (hl : x.lock = false) (hn : k.semCount ≤ n) :
    KernelInv { k.setSem s x with semCount := n } := by
  refine ⟨h.sys, h.names, fun t => ?_, ?_, fun t r hp => Nat.lt_of_lt_of_le (h.created t r hp) hn,
    fun r => ?_, h.ran⟩
  · have hsame : SameTask k { k.setSem s x with semCount := n } t := by
      refine ⟨rfl, ⟨rfl, rfl⟩, fun r => ?_, rfl⟩
      change (Function.update k.sem s x r).waitQueue.items.count t = _
      by_cases hr : r = s
      · rw [hr, Function.update_self]
        exact hitems t
      · rw [Function.update_of_ne hr]
    exact (h.task t).congr hsame ⟨Nat.le_refl _, fun _ _ => rfl, fun _ _ h => h⟩
  · exact h.disk.congr rfl rfl rfl rfl rfl fun hready hs => ⟨hs, hready⟩
  · change (Function.update k.sem s x r).lock = false
    by_cases hr : r = s
    · rw [hr, Function.update_self]
      exact hl
    · rw [Function.update_of_ne hr]
      exact h.unlocked r

/-- Nobody waits for a semaphore that has not been created. -/
theorem KernelInv.no_waiter (h : KernelInv k) (hs : k.semCount ≤ s) (t : Nat) :
    (k.sem s).waitQueue.items.count t = 0 := by
  rw [(h.task t).waits, if_neg]
  intro hb
  have := h.created t s (blockedAt_eq_some.mp hb).2
  omega

theorem KernelInv.semCreate (h : KernelInv k) {v : Int} (hx : semCreate v = some x) :
    KernelInv { k.setSem k.semCount x with semCount := k.semCount + 1 } := by
  unfold PingPongOS.semCreate at hx
  split at hx
  · exact absurd hx (by simp)
  · obtain rfl := Option.some.inj hx
    apply h.setSem _ rfl (Nat.le_succ _)
    intro t
    rw [h.no_waiter (Nat.le_refl _)]
    rfl

/-- **`sem_down`** returns at once, or it blocks the running task at the end of the wait
queue. -/
theorem KernelInv.semDown (h : KernelInv k) (hc : 2 ≤ k.current)
    (hu : k.point k.current = .user) (hs : s < k.semCount) :
    ∃ k', k.call (.semDown s) = some (.ok k') ∧ KernelInv k' ∧ Effect k (.semDown s) k' := by
  have hdown := semDown_eq (h.unlocked s) k.current
  rw [Kernel.call, if_pos hs]
  by_cases hd : (k.sem s).destroy = true
  · rw [if_pos hd] at hdown
    rw [hdown]
    exact ⟨_, rfl, h.setSem (fun _ => rfl) (h.unlocked s) (Nat.le_refl _), .downs hdown⟩
  rw [if_neg hd] at hdown
  by_cases hv : addInt (k.sem s).value (-1) < 0
  · rw [if_pos hv] at hdown
    rw [hdown]
    refine ⟨_, rfl, h.suspends (p := .semDown s) hc rfl rfl (fun t r => ?_) (fun _ => rfl) ?_ rfl
      (h.disk_blocks (f := id) (i := .suspended) hc ?_ rfl rfl rfl rfl rfl) (fun r => ?_) rfl,
      .waits hu hdown (h.steady_suspend hc)⟩
    · change (Function.update k.sem s _ r).waitQueue.items.count t = _
      by_cases hr : r = s
      · subst hr
        rw [Function.update_self, queueAdd_items, List.count_append, List.count_singleton]
        by_cases ht : t = k.current
        · simp [ht]
        · simp [ht, Ne.symm ht]
      · rw [Function.update_of_ne hr]
        simp [Ne.symm hr]
    · exact fun r heq => TaskPoint.semDown.inj heq ▸ hs
    · rw [modify_id]
    · change (Function.update k.sem s _ r).lock = false
      by_cases hr : r = s
      · rw [hr, Function.update_self]
        exact h.unlocked s
      · rw [Function.update_of_ne hr]
        exact h.unlocked r
  · rw [if_neg hv] at hdown
    rw [hdown]
    exact ⟨_, rfl, h.setSem (fun _ => rfl) (h.unlocked s) (Nat.le_refl _), .downs hdown⟩

/-- A task that is blocked anywhere but in the disk manager's code is a user task. -/
theorem KernelInv.blocked_user {p : TaskPoint} (h : KernelInv k) (hb : k.blockedAt t = some p)
    (hp : ∀ q, p ≠ .manager q) : 2 ≤ t ∧ t ≤ k.sys.currentTaskId := by
  have hs := (blockedAt_eq_some.mp hb).1
  refine ⟨?_, ?_⟩
  · by_contra hlt
    rcases (by omega : t = 0 ∨ t = 1) with rfl | rfl
    · exact absurd (h.sys.kernelReady.symm.trans hs) (by decide)
    · obtain ⟨q, hq⟩ := h.disk.free p hb
      exact hp q hq
  · by_contra hgt
    exact h.names.fresh t (by omega) hs

/-- **`task_awake` of a blocked user task** moves it to `ready_queue`. -/
theorem KernelInv.awake {p : TaskPoint} (h : KernelInv k) (hb : k.blockedAt t = some p)
    (hp : ∀ q, p ≠ .manager q) : ∃ S', taskAwake k.sys (some t) = .ok S' ∧ SysInv none S' ∧
      Wakes (· = t) k.sys S' ∧ Woken k.sys S' t := by
  obtain ⟨hlo, hhi⟩ := h.blocked_user hb hp
  obtain ⟨S', hS', hw, hwoken, -, -⟩ := taskAwake_suspended (blockedAt_eq_some.mp hb).1 (by
    intro i hi
    rw [(h.sys.users t (by simp) hlo hhi).occurs, if_pos hi]
    exact Nat.one_pos)
  refine ⟨S', hS', h.sys.wakes hw ?_ ?_, hw, hwoken⟩
  · exact fun y hy => ⟨by simp, by omega⟩
  · exact fun h1 => absurd h1 (by omega)

/-- The count of waiters once a semaphore has lost the task at its head. -/
theorem KernelInv.release_waits (h : KernelInv k)
    (hhead : (k.sem s).waitQueue.items.head? = some t)
    (hitems : x.waitQueue.items = (k.sem s).waitQueue.items.tail) (r y : Nat) :
    k.blockedAt t = some (.semDown s) ∧
      (Function.update k.sem s x r).waitQueue.items.count y =
        if y = t then 0 else (k.sem r).waitQueue.items.count y := by
  have hmem : t ∈ (k.sem s).waitQueue.items := List.mem_of_mem_head? hhead
  have hb : k.blockedAt t = some (.semDown s) := by
    by_contra hne
    have := (h.task t).waits s
    rw [if_neg hne] at this
    exact absurd hmem (List.count_eq_zero.mp this)
  refine ⟨hb, ?_⟩
  by_cases hr : r = s
  · subst hr
    have hsplit : (k.sem r).waitQueue.items = t :: x.waitQueue.items := by
      rw [hitems]
      exact List.eq_cons_of_mem_head? hhead
    have hold := (h.task y).waits r
    rw [hsplit, List.count_cons] at hold ⊢
    rw [Function.update_self]
    by_cases hy : y = t
    · subst hy
      simp only [hb, beq_self_eq_true, if_true] at hold
      rw [if_pos rfl]
      omega
    · simp [hy, Ne.symm hy]
  · rw [Function.update_of_ne hr]
    by_cases hy : y = t
    · subst hy
      rw [if_pos rfl, (h.task y).waits, hb, if_neg (by simpa using Ne.symm hr)]
    · rw [if_neg hy]

/-- **A semaphore releases the task at the head of its wait queue.** -/
theorem KernelInv.release (h : KernelInv k) (hhead : (k.sem s).waitQueue.items.head? = some t)
    (hitems : x.waitQueue.items = (k.sem s).waitQueue.items.tail) (hl : x.lock = false) :
    ∃ S', taskAwake k.sys (some t) = .ok S' ∧ Wakes (· = t) k.sys S' ∧ Woken k.sys S' t ∧
      KernelInv { k.setSem s x with sys := S' } := by
  have hcount := h.release_waits hhead hitems
  have hb := (hcount s t).1
  obtain ⟨S', hS', hsys, hw, hwoken⟩ := h.awake hb (by simp)
  refine ⟨S', hS', hw, hwoken, h.wakes hw hsys rfl (fun y hy => ⟨fun r => ?_, rfl⟩)
    (fun y hd _ => ⟨fun r => ?_, ?_, fun z hz => ?_⟩) rfl ?_ (fun r => ?_) h.ran⟩
  · refine (hcount r y).2.trans (if_neg ?_)
    rintro rfl
    exact hwoken.moved hy
  · exact (hcount r y).2.trans (if_pos hd)
  · subst hd
    exact (h.task y).asks.trans (by rw [hb]; simp)
  · subst hd
    rw [hb] at hz
    exact absurd hz (by simp)
  · refine h.disk.congr rfl rfl rfl rfl rfl (hw.manager_seat ?_)
    have := (h.blocked_user hb (by simp)).1
    omega
  · change (Function.update k.sem s x r).lock = false
    by_cases hr : r = s
    · rw [hr, Function.update_self]
      exact hl
    · rw [Function.update_of_ne hr]
      exact h.unlocked r

/-- **`sem_up`** wakes the task at the head of the wait queue, if there is one. -/
theorem KernelInv.semUp (h : KernelInv k) (hs : s < k.semCount) :
    ∃ k', k.call (.semUp s) = some (.ok k') ∧ KernelInv k' ∧ Effect k (.semUp s) k' := by
  rw [Kernel.call, if_pos hs]
  cases hd : (k.sem s).destroy with
  | true =>
      have hup := semUp_destroyed (h.unlocked s) hd
      rw [hup]
      exact ⟨_, rfl, h.setSem (fun _ => rfl) (h.unlocked s) (Nat.le_refl _),
        .ups hup (Wakes.refl _ _) (by simp) (Steady.refl _)⟩
  | false =>
      obtain ⟨x, hup, hl, -, -, hitems⟩ := semUp_ok (h.unlocked s) hd
      rw [hup]
      cases hhead : (k.sem s).waitQueue.items.head? with
      | none =>
          rw [hhead] at hup
          refine ⟨_, rfl, h.setSem (fun t => ?_) hl (Nat.le_refl _),
            .ups hup (Wakes.refl _ _) (by simp) (Steady.refl _)⟩
          rw [hitems, List.head?_eq_none_iff.mp hhead]
          rfl
      | some t =>
          rw [hhead] at hup
          obtain ⟨S', hS', hw, hwoken, hk'⟩ := h.release hhead hitems hl
          refine ⟨{ k.setSem s x with sys := S' }, ?_, hk', .ups hup ?_ ?_ hw.steady⟩
          · change some (taskAwake k.sys (some t) >>= _) = _
            rw [hS']
            rfl
          · exact hw.mono fun y hy => congrArg some hy
          · exact fun y hy => Option.some.inj hy ▸ hwoken

/-- One round of the loop of `sem_destroy`. -/
theorem KernelInv.semDestroy_round (hinv : KernelInv { k.setSem s x with sys := S })
    (hhead : x.waitQueue.items.head? = some t) :
    ∃ x' S', (do
        let x ← spinLock x
        let x := { x with waitQueue := (queueDel x.waitQueue t).2 }
        .ok (x, ← taskAwake S (some t)) : Except Fault (Semaphore × TaskSystem)) = .ok (x', S') ∧
      x'.waitQueue.items = x.waitQueue.items.tail ∧ Steady S S' ∧
      ∀ x'', x''.waitQueue.items = x'.waitQueue.items → x''.lock = false →
        KernelInv { k.setSem s x'' with sys := S' } := by
  have hself : (Function.update k.sem s x) s = x := Function.update_self ..
  have hl : x.lock = false := by
    have := hinv.unlocked s
    rwa [show (Kernel.sem { k.setSem s x with sys := S } s) = x from hself] at this
  have htail := queueDel_head hhead
  have hstep : ∀ x'' : Semaphore, x''.waitQueue.items = x.waitQueue.items.tail →
      x''.lock = false → ∃ S', taskAwake S (some t) = .ok S' ∧ Steady S S' ∧
        KernelInv { k.setSem s x'' with sys := S' } := by
    intro x'' hitems hl''
    obtain ⟨S', hS', hw, -, hk'⟩ := hinv.release (s := s) (x := x'') (t := t)
      (by simpa [Kernel.setSem, hself] using hhead) (by simpa [Kernel.setSem, hself] using hitems)
      hl''
    refine ⟨S', hS', hw.steady, ?_⟩
    have hidem : Function.update (Function.update k.sem s x) s x'' = Function.update k.sem s x'' :=
      Function.update_idem ..
    simpa [Kernel.setSem, hidem] using hk'
  obtain ⟨S', hS', hm, -⟩ := hstep { x with waitQueue := (queueDel x.waitQueue t).2 } htail hl
  refine ⟨{ x with lock := true, waitQueue := (queueDel x.waitQueue t).2 }, S', ?_, htail, hm, ?_⟩
  · rw [spinLock, if_neg (by rw [hl]; decide)]
    change (taskAwake S (some t) >>= _) = _
    rw [hS']
    rfl
  · intro x'' hitems hl''
    obtain ⟨T, hT, -, hk'⟩ := hstep x'' (hitems.trans htail) hl''
    obtain rfl := Except.ok.inj (hS'.symm.trans hT)
    exact hk'

/-- **`sem_destroy`** ends, and releases every waiter. -/
theorem KernelInv.semDestroy (h : KernelInv k) (hs : s < k.semCount) :
    ∃ k', k.call (.semDestroy s) = some (.ok k') ∧ KernelInv k' ∧
      Effect k (.semDestroy s) k' := by
  obtain ⟨x₀, hx₀⟩ : ∃ x₀, k.sem s = x₀ := ⟨_, rfl⟩
  have hl : x₀.lock = false := hx₀ ▸ h.unlocked s
  let inv (o : Option Nat) (r : Semaphore × TaskSystem) : Prop :=
    KernelInv { k.setSem s r.1 with sys := r.2 } ∧ Steady k.sys r.2 ∧
      o = r.1.waitQueue.items.head?
  let x₁ : Semaphore := { x₀ with
    lock := false, destroy := true, waitQueue := (queueHead x₀.waitQueue).2 }
  have hstart : inv x₀.waitQueue.items.head? (x₁, k.sys) :=
    ⟨h.setSem (fun t => by rw [hx₀]; rfl) rfl (Nat.le_refl _), Steady.refl _, rfl⟩
  obtain ⟨⟨x', S'⟩, hloop, hinv, hsteady, -⟩ := @whileItem_ok (Semaphore × TaskSystem) Nat Fault
    .endlessLoop
    (fun r => ((queueHead r.1.waitQueue).1,
      (spinUnlock { r.1 with waitQueue := (queueHead r.1.waitQueue).2 }, r.2)))
    (fun r t => do
      let s ← spinLock r.1
      let s := { s with waitQueue := (queueDel s.waitQueue t).2 }
      .ok (s, ← taskAwake r.2 (some t)))
    inv (fun r => r.1.waitQueue.items.length)
    (by
      rintro t ⟨x, S⟩ ⟨hk, hm, hhead⟩
      obtain ⟨x', S', hround, htail, hm', hnext⟩ := hk.semDestroy_round hhead.symm
      refine ⟨(x', S'), hround, ⟨hnext _ rfl rfl, hm.trans hm', rfl⟩, ?_⟩
      have hlen : x'.waitQueue.items.length = x.waitQueue.items.length - 1 := by
        rw [htail, List.length_tail]
      have hpos : 0 < x.waitQueue.items.length :=
        List.length_pos_of_mem (List.mem_of_mem_head? hhead.symm)
      change x'.waitQueue.items.length < x.waitQueue.items.length
      omega)
    (queueSize x₀.waitQueue) x₀.waitQueue.items.head? (x₁, k.sys) hstart (Nat.le_refl _)
  refine ⟨{ k.setSem s x' with sys := S' }, ?_, hinv, .destroys hsteady⟩
  rw [Kernel.call, if_pos hs, hx₀]
  have hdestroy : PingPongOS.semDestroy x₀ k.sys = .ok (x', S') := by
    obtain ⟨lock, q, v, d⟩ := x₀
    obtain rfl : lock = false := hl
    exact hloop
  rw [hdestroy]
  rfl

/-- **The rest of a kernel function**, after its `task_suspend`. -/
theorem KernelInv.resume (h : KernelInv k) (hc : k.current ≠ 0) {r : Except Fault Kernel}
    (hr : k.resume = some r) : ∃ k', r = .ok k' ∧ KernelInv k' ∧ Effect k .resume k' := by
  have hgo : ∀ {k}, KernelInv k → k.current ≠ 0 → k.current ≠ 1 →
      KernelInv (k.setPoint .user) := by
    intro k h hc hc1
    apply h.setPoint hc (by simp)
    refine h.disk.congr ?_ rfl rfl rfl rfl fun hready hs => ⟨hs, hready⟩
    exact Function.update_of_ne (Ne.symm hc1) ..
  have hc1 : ∀ {p}, k.point k.current = p → (∀ q, p ≠ .manager q) → k.current ≠ 1 := by
    intro p hp hnot heq
    obtain ⟨q, hq⟩ := h.disk.manager
    exact hnot q (by rw [← hp, heq, hq])
  unfold Kernel.resume at hr
  cases hp : k.point k.current with
  | semDown s =>
      rw [hp] at hr
      obtain rfl := Option.some.inj hr
      rw [semDownWoken_eq (h.unlocked s)]
      refine ⟨_, rfl, hgo (k := k.setSem s _) ?_ hc (hc1 hp (by simp)),
        .returnsDown hp (semDownWoken_eq (h.unlocked s))⟩
      apply h.setSem _ _ (Nat.le_refl _)
      · intro t
        split <;> rfl
      · split <;> exact h.unlocked s
  | taskWait _ | taskSleep | block =>
      rw [hp] at hr
      obtain rfl := Option.some.inj hr
      have hne := hc1 hp (by simp)
      exact ⟨_, rfl, hgo h hc hne, .returns (by omega) (by rw [hp]; rfl)⟩
  | user | manager _ =>
      rw [hp] at hr
      exact absurd hr (by simp)

/-! ## The block layer -/

/-- **`block_read` and `block_write`** block the running task at the end of `requests`. -/
theorem KernelInv.blockCall (h : KernelInv k) (hc : 2 ≤ k.current) (type : DiskCmd)
    (block : Int) (buffer : Nat) : KernelInv (k.blockCall type block buffer) := by
  unfold Kernel.blockCall
  by_cases hb : buffer = 0
  · rw [if_pos hb]
    exact h
  · rw [if_neg hb]
    have hadd := queueAdd_of_passed h.disk.iterator k.current
    have hask : k.requests.items.count k.current = 0 :=
      ((h.task _).free (h.free_current (by omega))).2.1
    have hc1 : (1 : Nat) ≠ k.current := by omega
    have hpoint : Function.update k.point k.current .block 1 = k.point 1 :=
      Function.update_of_ne hc1 ..
    refine h.suspends (p := .block) hc rfl rfl (fun _ _ => ?_) (fun t => ?_) ?_ rfl
      ⟨?_, ?_, ?_, ?_, ?_, ?_⟩ h.unlocked rfl
    · simp [Kernel.setPoint]
    · change (queueAdd k.requests k.current).items.count t = _
      rw [queueAdd_items, List.count_append, List.count_singleton]
      by_cases ht : t = k.current
      · simp [ht]
      · simp [ht, Ne.symm ht]
    · exact fun s heq => absurd heq (by simp)
    · obtain ⟨q, hq⟩ := h.disk.manager
      exact ⟨q, hpoint.trans hq⟩
    · intro r hr
      change (queueAdd k.requests k.current).items.head? = some r
      rw [queueAdd_items, List.head?_append, h.disk.served r (hpoint.symm.trans hr)]
      rfl
    · change (queueAdd k.requests k.current).passed = []
      rw [hadd]
    · intro r hr
      change (Function.update k.request k.current _ r).task = r ∧
        (Function.update k.request k.current _ r).buffer ≠ 0
      change r ∈ (queueAdd k.requests k.current).items at hr
      rw [queueAdd_items, List.mem_append, List.mem_singleton] at hr
      rcases hr with hr | rfl
      · have hne : r ≠ k.current := by
          rintro rfl
          exact absurd hr (List.count_eq_zero.mp hask)
        rw [Function.update_of_ne hne]
        exact h.disk.caller r hr
      · rw [Function.update_self]
        exact ⟨rfl, hb⟩
    · intro hbusy
      obtain ⟨⟨r, hr⟩, hready⟩ := h.disk.busy hbusy
      obtain ⟨hs, hp⟩ := blockedAt_eq_some.mp hr
      obtain ⟨hs', hready'⟩ := (leaves_suspend (i := .suspended) h.sys.kernelReady
        (show k.current ≠ 0 by omega)).manager_seat h.sys (show k.current ≠ 0 by omega) hready hs
      exact ⟨⟨r, blockedAt_eq_some.mpr ⟨hs', hpoint.trans hp⟩⟩, hready'⟩
    · exact h.disk.once

/-- While the disk manager runs, the disk is idle and owes no interrupt. -/
theorem KernelInv.manager_idle (h : KernelInv k) (hc : k.current = 1) :
    k.disk.status = .idle ∧ k.irqDisk = false := by
  apply h.disk.idle
  left
  rw [h.sys.manager.running.mpr hc]
  decide

/-- The facts about the disk while the disk manager runs, wherever it goes on. -/
theorem KernelInv.disk_running (h : KernelInv k) (hc : k.current = 1) {q : Queue Nat}
    {p : ManagerPoint} {S : TaskSystem} (hp : ∀ r, p = .served r → q.items.head? = some r)
    (hq : q.passed = [])
    (hcaller : ∀ r, r ∈ q.items → (k.request r).task = r ∧ (k.request r).buffer ≠ 0) :
    DiskInv { k.setPoint (.manager p) with sys := S, requests := q } := by
  obtain ⟨hidle, hirq⟩ := h.manager_idle hc
  have hpoint : (k.setPoint (.manager p)).point 1 = .manager p := by
    unfold Kernel.setPoint
    rw [hc]
    exact Function.update_self 1 _ k.point
  refine ⟨⟨p, hpoint⟩, fun r hr => ?_, hq, hcaller, fun hbusy => ?_, fun hbusy => ?_⟩
  · exact hp r (TaskPoint.manager.inj (hpoint.symm.trans hr))
  · rcases hbusy with hd | hi
    · exact absurd hidle hd
    · exact absurd (hirq.symm.trans hi) (by simp)
  · exact absurd hidle hbusy

/-- The disk manager suspends itself. -/
theorem KernelInv.manager_suspends (h : KernelInv k) (hc : k.current = 1) :
    ((taskSuspend k.sys .suspended).task 1).status = .suspended ∧
      (taskSuspend k.sys .suspended).occurs .ready 1 = 0 := by
  have hl := leaves_suspend (i := .suspended) h.sys.kernelReady (show k.current ≠ 0 by omega)
  have htask := hl.task
  rw [show k.sys.currentActiveTask = 1 from hc] at htask
  refine ⟨by rw [htask], ?_⟩
  rw [hl.occurs, (h.sys.manager.whenRunning (h.sys.manager.running.mpr hc)).1]
  simp

/-- The disk manager passes the request at the head to the disk, and suspends itself. -/
theorem KernelInv.serves (h : KernelInv k) (hc : k.current = 1) {r : Nat}
    (hr : queueItem k.requests = some r) {ret : Int × Disk} :
    KernelInv { k.setPoint (.manager (.served r)) with
      request := Function.update k.request r { k.request r with returnValue := ret.1 }
      disk := ret.2
      sys := taskSuspend k.sys .suspended } := by
  obtain ⟨-, hirq⟩ := h.manager_idle hc
  have hc0 : k.current ≠ 0 := by omega
  have hl := leaves_suspend (i := .suspended) h.sys.kernelReady hc0
  have hsys := h.sys.suspends hc0
  obtain ⟨hstatus, hready⟩ := h.manager_suspends hc
  have hpoint : (k.setPoint (.manager (.served r))).point 1 = .manager (.served r) := by
    unfold Kernel.setPoint
    rw [hc]
    exact Function.update_self 1 _ k.point
  have hb := blockedAt_eq_some (k := { k.setPoint (.manager (.served r)) with
    request := Function.update k.request r { k.request r with returnValue := ret.1 }
    disk := ret.2
    sys := taskSuspend k.sys .suspended }).mpr ⟨hstatus, hpoint⟩
  refine h.leaves hc0 hl hsys rfl (h.names.neverWaits _) (fun t ht => ?_)
    (fun s hs => absurd (hc ▸ hs) (by rw [hpoint]; simp)) (fun _ _ _ => rfl) (fun _ _ => rfl) rfl
    (h.stays_free hc0 hl rfl rfl rfl ?_ rfl rfl)
    ⟨⟨_, hpoint⟩, fun r' hr' => ?_, h.disk.iterator, fun r' hr' => ?_, fun _ => ⟨⟨r, hb⟩, hready⟩,
      fun _ => hirq⟩ h.unlocked rfl
  · exact Function.update_of_ne ht ..
  · intro p hp
    rw [hc, hb] at hp
    exact ⟨_, (Option.some.inj hp).symm⟩
  · obtain rfl := ManagerPoint.served.inj (TaskPoint.manager.inj (hpoint.symm.trans hr'))
    rw [← hr, queueItem_of_passed h.disk.iterator]
    rfl
  · change (Function.update k.request r _ r').task = r' ∧
      (Function.update k.request r _ r').buffer ≠ 0
    by_cases hrr : r' = r
    · rw [hrr, Function.update_self]
      exact h.disk.caller r (hrr ▸ hr')
    · rw [Function.update_of_ne hrr]
      exact h.disk.caller r' hr'

/-- The disk manager wakes the caller of the request it has served, and removes the
request. -/
theorem KernelInv.answers (h : KernelInv k) (hc : k.current = 1) {r : Nat}
    (hr : k.point 1 = .manager (.served r)) :
    ∃ S', taskAwake k.sys (some (k.request r).task) = .ok S' ∧ Wakes (· = r) k.sys S' ∧
      Woken k.sys S' r ∧ k.blockedAt r = some .block ∧
      (queueDel k.requests r).2.items = k.requests.items.tail ∧
      KernelInv { k.setPoint (.manager .loop) with
        sys := S', requests := (queueDel k.requests r).2 } := by
  have hc0 : k.current ≠ 0 := by omega
  have hhead := h.disk.served r hr
  have hmem : r ∈ k.requests.items := List.mem_of_mem_head? hhead
  have hb : k.blockedAt r = some .block := by
    by_contra hne
    have := (h.task r).asks
    rw [if_neg hne] at this
    exact List.count_eq_zero.mp this hmem
  have htail := queueDel_head hhead
  have hsplit : k.requests.items = r :: (queueDel k.requests r).2.items := by
    rw [htail]
    exact List.eq_cons_of_mem_head? hhead
  have hcount : ∀ t, (queueDel k.requests r).2.items.count t =
      if t = r then 0 else k.requests.items.count t := by
    intro t
    have hold := (h.task t).asks
    rw [hsplit, List.count_cons] at hold ⊢
    by_cases ht : t = r
    · subst ht
      simp only [hb, beq_self_eq_true, if_true] at hold
      rw [if_pos rfl]
      omega
    · simp [ht, Ne.symm ht]
  have hpass := queueDel_passed h.disk.iterator r
  have hcaller : ∀ t, t ∈ (queueDel k.requests r).2.items →
      (k.request t).task = t ∧ (k.request t).buffer ≠ 0 := by
    intro t ht
    exact h.disk.caller t (by rw [hsplit]; exact List.mem_cons_of_mem _ ht)
  obtain ⟨S', hS', hsys, hw, hwoken⟩ := h.awake hb (by simp)
  refine ⟨S', by rw [(h.disk.caller r hmem).1]; exact hS', hw, hwoken, hb, htail, ?_⟩
  have hloop : KernelInv (k.setPoint (.manager .loop)) :=
    h.setPoint hc0 (by simp) (h.disk_running hc (by simp) h.disk.iterator h.disk.caller)
  have hrne : r ≠ k.current := by
    have := h.blocked_user hb (by simp)
    omega
  have hb' : (k.setPoint (.manager .loop)).blockedAt r = some .block := by
    rw [blockedAt_eq_some] at hb ⊢
    exact ⟨hb.1, (Function.update_of_ne hrne ..).trans hb.2⟩
  refine hloop.wakes hw hsys rfl (fun t ht => ⟨fun _ => rfl, ?_⟩)
    (fun t hd _ => ⟨fun s => ?_, ?_, fun x hx => ?_⟩) rfl
    (h.disk_running hc (by simp) hpass hcaller) h.unlocked h.ran
  · refine (hcount t).trans (if_neg ?_)
    rintro rfl
    exact hwoken.moved ht
  · subst hd
    exact (hloop.task t).waits s |>.trans (by rw [hb']; simp)
  · exact (hcount t).trans (if_pos hd)
  · subst hd
    rw [hb'] at hx
    exact absurd hx (by simp)

/-- **A step of `disk_manager`.** -/
theorem KernelInv.manager_step (h : KernelInv k) (hc : k.current = 1) {p : ManagerPoint}
    (hp : k.point 1 = .manager p) :
    ∃ k', k.manager p = .ok k' ∧ KernelInv k' ∧ Effect k .manager k' := by
  have hc0 : k.current ≠ 0 := by omega
  cases p with
  | start =>
      refine ⟨_, rfl, ?_⟩
      rw [queueHead_of_passed h.disk.iterator]
      exact ⟨h.setPoint hc0 (by simp) (h.disk_running hc (by simp) h.disk.iterator h.disk.caller),
        .starts hc hp⟩
  | loop =>
      rw [Kernel.manager, (h.manager_idle hc).1]
      cases hr : queueItem k.requests with
      | none =>
          have hl := leaves_taskYield h.sys.kernelReady hc0
          exact ⟨_, rfl, h.yield hc0, .idles hc hp hr (hl.steady (by simp))⟩
      | some r =>
          obtain ⟨hs, hready⟩ := h.manager_suspends hc
          exact ⟨_, rfl, h.serves hc hr, .serves hc hp hr hs hready⟩
  | served r =>
      obtain ⟨S', hS', hw, hwoken, -, -, hk'⟩ := h.answers hc hp
      refine ⟨_, ?_, hk', .answers hc hp hw hwoken hw.steady⟩
      rw [Kernel.manager, hS']
      rfl

/-! ## The disk and its interrupt -/

/-- The disk transfers a block, becomes idle and raises its interrupt. -/
theorem KernelInv.diskDone (h : KernelInv k) {memory : Nat → UInt8} {disk : Disk}
    (hd : diskSighandle k.memory k.disk = some (memory, disk)) :
    k.disk.status ≠ .idle ∧ disk.status = .idle ∧
      KernelInv { k with memory := memory, disk := disk, irqDisk := true } := by
  have hboth : k.disk.status ≠ .idle ∧ disk.status = .idle := by
    unfold diskSighandle at hd
    cases hs : k.disk.status <;> rw [hs] at hd
    · exact absurd hd (by simp)
    · obtain ⟨-, rfl⟩ := Prod.mk.inj (Option.some.inj hd)
      exact ⟨by decide, rfl⟩
    · obtain ⟨-, rfl⟩ := Prod.mk.inj (Option.some.inj hd)
      exact ⟨by decide, rfl⟩
  obtain ⟨hbusy, hidle⟩ := hboth
  refine ⟨hbusy, hidle, h.sys, h.names, fun t => ?_, ?_, h.created, h.unlocked, h.ran⟩
  · have hsame : SameTask k { k with memory := memory, disk := disk, irqDisk := true } t :=
      ⟨rfl, ⟨rfl, rfl⟩, fun _ => rfl, rfl⟩
    exact (h.task t).congr hsame ⟨Nat.le_refl _, fun _ _ => rfl, fun _ _ h => h⟩
  · exact ⟨h.disk.manager, h.disk.served, h.disk.iterator, h.disk.caller,
      fun _ => h.disk.busy (Or.inl hbusy), fun hb => absurd hidle hb⟩

/-- **The disk interrupt** wakes the disk manager. -/
theorem KernelInv.irq (h : KernelInv k) (hirq : k.irqDisk = true) :
    ∃ S', taskAwake k.sys (some taskDiskHandler) = .ok S' ∧ Woken k.sys S' 1 ∧
      KernelInv { k with sys := S', irqDisk := false } := by
  obtain ⟨⟨r, hr⟩, hready⟩ := h.disk.busy (Or.inr hirq)
  have hidle : k.disk.status = .idle := by
    by_contra hne
    exact absurd (hirq.symm.trans (h.disk.once hne)) (by decide)
  have hs := (blockedAt_eq_some.mp hr).1
  obtain ⟨S', hS', hw, hwoken, -, -⟩ := taskAwake_suspended hs (by
    intro i hi
    rw [home_suspended hs, h.sys.manager.awake] at hi
    obtain rfl := Option.some.inj hi
    rcases h.sys.manager.whenSuspended hs with h' | h'
    · omega
    · change 0 < k.sys.occurs .suspended 1
      omega)
  have hsys := h.sys.wakes hw (fun y hy => ⟨by simp, hy ▸ h.sys.booted⟩) fun _ => hready
  have hfree := (h.task 1).free h.disk.free
  refine ⟨S', hS', hwoken, h.wakes hw hsys rfl (fun _ _ => ⟨fun _ => rfl, rfl⟩)
    (fun t ht _ => ?_) rfl
    ⟨h.disk.manager, h.disk.served, h.disk.iterator, h.disk.caller, fun hb => ?_,
      fun hb => absurd hidle hb⟩ h.unlocked h.ran⟩
  · subst ht
    refine ⟨hfree.1, hfree.2.1, fun x hx => ?_⟩
    obtain ⟨q, hq⟩ := h.disk.free _ hx
    exact absurd hq (by simp)
  · rcases hb with hb | hb
    · exact absurd hidle hb
    · exact absurd hb (by simp)

/-! ## The dispatcher -/

/-- **A step of `dispatcher`** meets no fault. -/
theorem KernelInv.dispatcher_step (h : KernelInv k) (hc : k.current = 0)
    {r : Except Fault Kernel} (hr : k.dispatcherStep = some r) :
    ∃ k', r = .ok k' ∧ KernelInv k' ∧ Effect k .dispatcher k' := by
  obtain ⟨x, hturn, rfl⟩ := Option.map_eq_some_iff.mp hr
  obtain ⟨S, d, rfl, hseated⟩ := h.sys.turn hc h.ran hturn
  refine ⟨{ k with sys := S, dispatcher := d }, rfl, ?_⟩
  have hrest : ∀ {T}, SameRest { k with sys := T } { k with sys := S, dispatcher := d } :=
    ⟨rfl, rfl, rfl, rfl, rfl, rfl, rfl⟩
  cases hseated with
  | creates =>
      exact ⟨h.creates (creates_taskCreate k.sys) ⟨rfl, rfl, rfl, rfl, rfl, rfl, rfl⟩ (by simp),
        .tasks rfl ((creates_taskCreate k.sys).steady h.sys.booted)⟩
  | @runs T next hq ht =>
      have h₁ : KernelInv { k with sys := T } := h.quiet hq (SameRest.sys k T) h.ran
      refine ⟨h₁.dispatches (hq.current.trans hc) ht (dispatches_taskRun ht) hrest fun t heq => ?_,
        .tasks rfl (hq.steady.trans (dispatches_taskRun ht).steady)⟩
      obtain rfl := DispatcherPoint.ran.inj heq
      exact (h₁.sys.ready_status ht).2.1
  | @wakes T _ hq hw hsys =>
      have h₁ : KernelInv { k with sys := T } := h.quiet hq (SameRest.sys k T) h.ran
      exact ⟨h₁.wakes_sleepers hw hsys hrest (by simp), .tasks rfl (hq.steady.trans hw.steady)⟩

/-! ## Every action -/

/-- **A call of a user task** meets no fault. -/
theorem KernelInv.call_step (h : KernelInv k) (hc : 2 ≤ k.current)
    (hu : k.point k.current = .user) {a : Action} {r : Except Fault Kernel}
    (hr : k.call a = some r) : ∃ k', r = .ok k' ∧ KernelInv k' ∧ Effect k a k' := by
  have hsome : (∃ k', k.call a = some (.ok k') ∧ KernelInv k' ∧ Effect k a k') →
      ∃ k', r = .ok k' ∧ KernelInv k' ∧ Effect k a k' :=
    fun ⟨k', hk', hinv⟩ => ⟨k', Option.some.inj (hr.symm.trans hk'), hinv⟩
  have hc0 : k.current ≠ 0 := by omega
  cases a with
  | create granted =>
      refine hsome ⟨_, rfl, h.create granted, .tasks rfl ?_⟩
      cases granted with
      | true => exact (creates_taskCreate k.sys).steady h.sys.booted
      | false => exact Steady.refl _
  | yield =>
      have hl := leaves_taskYield h.sys.kernelReady hc0
      exact hsome ⟨_, rfl, h.yield hc0, .tasks rfl (hl.steady (by simp))⟩
  | sleep t => exact hsome ⟨_, rfl, h.sleep hc t, .sleeps hu (h.steady_blocks hc)⟩
  | wait task =>
      by_cases ht : task ≤ k.sys.currentTaskId
      · rw [Kernel.call, if_pos ht] at hr
        cases hw : taskWait k.sys task with
        | mk o S =>
            rw [hw] at hr
            cases o with
            | some code =>
                exact ⟨k, (Option.some.inj hr).symm, h,
                  .tasks (S := k.sys) (d := k.dispatcher) rfl (Steady.refl _)⟩
            | none =>
                obtain ⟨hinv, hm⟩ := h.wait hc ht hw
                exact ⟨_, (Option.some.inj hr).symm, hinv, .joins hu hm⟩
      · rw [Kernel.call, if_neg ht] at hr
        exact absurd hr (by simp)
  | exit code =>
      obtain ⟨S', hS', hk', hm⟩ := h.exit hc code
      refine hsome ⟨_, ?_, hk', .tasks rfl hm⟩
      rw [Kernel.call, hS']
      rfl
  | semCreate value =>
      cases hx : PingPongOS.semCreate value with
      | some x =>
          refine hsome ⟨_, ?_, h.semCreate hx, .creates hx⟩
          rw [Kernel.call, hx]
      | none =>
          refine hsome ⟨k, ?_, h, .tasks (S := k.sys) (d := k.dispatcher) rfl (Steady.refl _)⟩
          rw [Kernel.call, hx]
  | semDown s =>
      by_cases hs : s < k.semCount
      · exact hsome (h.semDown hc hu hs)
      · rw [Kernel.call, if_neg hs] at hr
        exact absurd hr (by simp)
  | semUp s =>
      by_cases hs : s < k.semCount
      · exact hsome (h.semUp hs)
      · rw [Kernel.call, if_neg hs] at hr
        exact absurd hr (by simp)
  | semDestroy s =>
      by_cases hs : s < k.semCount
      · exact hsome (h.semDestroy hs)
      · rw [Kernel.call, if_neg hs] at hr
        exact absurd hr (by simp)
  | blockCall type block buffer =>
      refine hsome ⟨_, rfl, h.blockCall hc type block buffer, ?_⟩
      by_cases hb : buffer = 0
      · subst hb
        exact .rejects
      · exact .asks hb hc hu (h.steady_suspend hc)
  | store address byte =>
      exact hsome ⟨_, rfl, h.quiet ⟨rfl, rfl, fun _ _ => rfl, fun _ => ⟨rfl, rfl, rfl, rfl⟩⟩
        ⟨rfl, rfl, rfl, rfl, rfl, rfl, rfl⟩ h.ran, .stores⟩
  | resume | manager | dispatcher | diskDone | irq | tick =>
      exact absurd hr (by simp [Kernel.call])

/-- A task at a point of its own code is a user task. -/
theorem KernelInv.user_current (h : KernelInv k) (hc : k.current ≠ 0)
    (hp : k.point k.current = .user) : 2 ≤ k.current := by
  have hc1 : k.current ≠ 1 := by
    intro heq
    obtain ⟨q, hq⟩ := h.disk.manager
    rw [heq, hq] at hp
    exact absurd hp (by simp)
  omega

/-- A timer tick disturbs the disk manager only if it has the CPU. -/
theorem KernelInv.steady_tick (h : KernelInv k) : Steady k.sys (handleTimerSignal k.sys) := by
  rcases tick_cases h.sys.kernelReady with hq | ⟨S₁, hq, hc, htick⟩
  · exact hq.steady
  · rw [htick]
    have hk : (S₁.task 0).status = .ready := (hq.fields 0).1.trans h.sys.kernelReady
    exact hq.steady.trans ((leaves_taskYield hk hc).steady (by simp))

/-- **Every action keeps the invariant, meets no fault and has an effect.** -/
theorem KernelInv.exec (h : KernelInv k) {a : Action} {r : Except Fault Kernel}
    (hr : k.exec a = some r) : ∃ k', r = .ok k' ∧ KernelInv k' ∧ Effect k a k' := by
  have hcall : Kernel.preemptive.exec k
      (.task (if k.point k.current = .user then k.call a else none)) = some r →
      ∃ k', r = .ok k' ∧ KernelInv k' ∧ Effect k a k' := by
    intro hr
    obtain ⟨hc, hr⟩ := Preemptive.exec_task.mp hr
    rw [Option.ite_none_right_eq_some] at hr
    exact h.call_step (h.user_current hc hr.1) hr.1 hr.2
  cases a with
  | create _ | yield | sleep _ | wait _ | exit _ | semCreate _ | semDown _ | semUp _
  | semDestroy _ | blockCall _ _ _ | store _ _ => exact hcall hr
  | resume =>
      obtain ⟨hc, hr⟩ := Preemptive.exec_task.mp hr
      exact h.resume hc hr
  | manager =>
      obtain ⟨-, hr⟩ := Preemptive.exec_task.mp hr
      rw [Option.ite_none_right_eq_some] at hr
      obtain ⟨hc, hr⟩ := hr
      obtain ⟨p, hp⟩ := h.disk.manager
      rw [show k.point taskDiskHandler = .manager p from hp] at hr
      obtain rfl := Option.some.inj hr
      exact h.manager_step hc hp
  | dispatcher =>
      obtain ⟨hc, hr⟩ := Preemptive.exec_dispatcher.mp hr
      exact h.dispatcher_step hc hr
  | diskDone =>
      simp only [Kernel.exec, Kernel.kind, Preemptive.exec] at hr
      cases hd : diskSighandle k.memory k.disk with
      | none =>
          rw [hd] at hr
          exact absurd hr (by simp)
      | some md =>
          rw [hd] at hr
          exact ⟨_, (Option.some.inj hr).symm, (h.diskDone hd).2.2, .transfers hd⟩
  | irq =>
      simp only [Kernel.exec, Kernel.kind, Preemptive.exec, Option.ite_none_right_eq_some] at hr
      obtain ⟨hirq, hr⟩ := hr
      obtain ⟨S', hS', hwoken, hk'⟩ := h.irq hirq
      rw [hS'] at hr
      exact ⟨_, (Option.some.inj hr).symm, hk', .interrupts hirq hwoken⟩
  | tick =>
      rw [Kernel.exec, Kernel.kind] at hr
      split at hr
      · exact ⟨_, (Option.some.inj hr).symm, h.tick, .tasks rfl h.steady_tick⟩
      · exact absurd hr (by simp [Preemptive.exec])

/-- **A step keeps the invariant and has one of the effects.** -/
theorem KernelInv.step {a : Action} (h : KernelInv k) (hs : k.step a = some k') :
    KernelInv k' ∧ Effect k a k' := by
  obtain ⟨k'', hk'', hinv⟩ := h.exec (Preemptive.step_eq_some.mp hs)
  exact Except.ok.inj hk'' ▸ hinv

end PingPongOS
