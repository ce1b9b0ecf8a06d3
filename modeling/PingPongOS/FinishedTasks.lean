import PingPongOS.DirectSwitch

/-!
# Finished tasks under direct switches

`task_switch` ignores a task that has finished, but not on its way to the parent, and
`task_run` makes whatever it finds in `ready_queue` run.  When a task leaves the CPU that
it was switched to, the dispatcher finds the task it had run still running, and stops; so
the tasks that leave the CPU and go on have been run by the dispatcher, and are no longer
in `ready_queue`.
-/

namespace PingPongOS

open Runs TaskSystem

/-- The task on which `task_exit` completes. -/
def doneEvents (k : Kernel) : SwitchAction → List Nat
  | .kernel (.exit _) => [k.current]
  | _ => []

/-- A return to the parent of this step finds it unfinished. -/
def parentLives (k : Kernel) : SwitchAction → Bool
  | .switch none =>
      (k.sys.task k.current).parent.all fun p => decide ((k.sys.task p).status ≠ .finished)
  | _ => true

/-- The dispatcher will find the task it has run still running. -/
def Stops (k : Kernel) : Prop :=
  k.current = 0 ∧ ∃ y, y ≠ 0 ∧ y ≤ k.sys.currentTaskId ∧ k.dispatcher = .ran y ∧
    (k.sys.task y).status = .running

/-- The running task has not finished.  The tasks in `ready_queue`, the disk manager apart,
are there once and are ready, or have been switched to.  While a task runs the one that
the dispatcher has run is running, too, and is not in `ready_queue`. -/
structure Orderly (k : Kernel) : Prop where
  current : (k.sys.task k.current).status ≠ .finished
  once : ∀ t, t ≠ 1 → k.sys.occurs .ready t ≤ 1
  ready : ∀ t, t ≠ 1 → 0 < k.sys.occurs .ready t →
    (k.sys.task t).status ≠ .suspended ∧ (k.sys.task t).status ≠ .finished
  ran : k.current ≠ 0 → ∃ y, y ≠ 0 ∧ y ≤ k.sys.currentTaskId ∧ k.dispatcher = .ran y ∧
    (k.sys.task y).status = .running ∧ (y = 1 ∨ k.sys.occurs .ready y = 0)

/-- The tasks that have exited are finished. -/
structure FinishedInv (k : Kernel) (H : List Nat) : Prop where
  sys : SwitchInv k.sys
  manager : (k.point 1).isManager = true ∧ (k.sys.task 1).status ≠ .finished
  done : ∀ t ∈ H, t ≠ 0 ∧ (k.sys.task t).status = .finished
  place : Stops k ∨ Orderly k

variable {S S' : TaskSystem} {t : Nat} {i : QueueId} {k k' : Kernel} {a : Action}
  {b : SwitchAction} {H : List Nat}

/-! ## One turn -/

/-- Nobody finishes, and nobody finished is revived. -/
def FinishedKept (S S' : TaskSystem) : Prop :=
  ∀ t, (S'.task t).status = .finished ↔ (S.task t).status = .finished

theorem FinishedInv.keep (h : FinishedInv k H) (hsys : SwitchInv k'.sys)
    (hpoint : (k'.point 1).isManager = (k.point 1).isManager)
    (hfin : FinishedKept k.sys k'.sys) (hplace : Stops k' ∨ Orderly k') : FinishedInv k' H := by
  refine ⟨hsys, ⟨hpoint.trans h.manager.1, ?_⟩, fun t ht => ?_, hplace⟩
  · exact fun hf => h.manager.2 ((hfin 1).mp hf)
  · obtain ⟨ht0, hf⟩ := h.done t ht
    exact ⟨ht0, (hfin t).mpr hf⟩

theorem ReadyFrom.finishedKept (h : ReadyFrom S S') : FinishedKept S S' := by
  intro t
  rcases h.status t with hs | ⟨hwas, his⟩
  · rw [hs]
  · rw [hwas, his]
    exact ⟨fun heq => absurd heq (by decide), fun heq => absurd heq (by decide)⟩

/-- A running task is left alone. -/
theorem AtMostWoken.running (h : AtMostWoken S S' t) (hr : (S.task t).status = .running) :
    (S'.task t).status = .running ∧ S'.occurs .ready t ≤ S.occurs .ready t := by
  refine ⟨?_, ?_⟩
  · rcases h.status with hs | ⟨hwas, -⟩
    · exact hs.trans hr
    · exact absurd (hr.symm.trans hwas) (by decide)
  · rcases h.occurs with hle | ⟨hwas, -, -⟩
    · exact hle
    · exact absurd (hr.symm.trans hwas) (by decide)

/-- Who is in `ready_queue` after at most a wake-up is there as is due. -/
theorem Orderly.atMostWoken (h : Orderly k) (hr : AtMostWoken k.sys S t) (ht : t ≠ 1) :
    S.occurs .ready t ≤ 1 ∧ (0 < S.occurs .ready t →
      (S.task t).status ≠ .suspended ∧ (S.task t).status ≠ .finished) := by
  have hold := h.ready t ht
  rcases hr.occurs with hle | ⟨hsusp, hready, hle⟩
  · refine ⟨Nat.le_trans hle (h.once t ht), fun hpos => ?_⟩
    obtain ⟨hns, hnf⟩ := hold (Nat.lt_of_lt_of_le hpos hle)
    rcases hr.status with hs | ⟨hwas, -⟩
    · exact hs ▸ ⟨hns, hnf⟩
    · exact absurd hwas hns
  · have hzero : k.sys.occurs .ready t = 0 := by
      by_contra hne
      exact (hold (by omega)).1 hsusp
    refine ⟨by omega, fun _ => ?_⟩
    rw [hready]
    exact ⟨by decide, by decide⟩

theorem Orderly.wakes (h : Orderly k) (hw : Waking k.sys k'.sys)
    (hd : k'.dispatcher = k.dispatcher ∨ k'.current = 0) : Orderly k' := by
  have hcur : k'.current = k.current := hw.passive.current
  refine ⟨?_, fun t ht => (h.atMostWoken (hw.ready.at t) ht).1,
    fun t ht => (h.atMostWoken (hw.ready.at t) ht).2, fun hc => ?_⟩
  · rw [hcur]
    exact fun hf => h.current ((hw.ready.finishedKept _).mp hf)
  · have hd' := hd.resolve_right hc
    rw [hcur] at hc
    obtain ⟨y, hy0, hyn, hy, hrun, hout⟩ := h.ran hc
    obtain ⟨hrun', hle⟩ := (hw.ready.at y).running hrun
    refine ⟨y, hy0, hw.passive.currentTaskId ▸ hyn, hd'.trans hy, hrun', ?_⟩
    exact hout.imp id fun hzero => by omega

theorem Stops.wakes (h : Stops k) (hw : Waking k.sys k'.sys)
    (hd : k'.dispatcher = k.dispatcher) : Stops k' := by
  obtain ⟨hc, y, hy0, hyn, hy, hrun⟩ := h
  refine ⟨hw.passive.current.trans hc, y, hy0, ?_, hd.trans hy, ((hw.ready.at y).running hrun).1⟩
  rw [hw.passive.currentTaskId]
  exact hyn

/-- A new task is ready, once. -/
theorem Creates.finishedKept (hsys : SwitchInv S) (hc : Creates S S') : FinishedKept S S' := by
  intro t
  by_cases ht : t = S.currentTaskId + 1
  · have hnew : (S'.task t).status = .ready := by
      rw [ht, hc.task]
      rfl
    rw [hnew, hsys.fresh t (by omega)]
  · rw [hc.others t ht]

theorem SwitchInv.new_out (h : SwitchInv S) : S.occurs .ready (S.currentTaskId + 1) = 0 := by
  by_contra hne
  have hmem := h.ready _ (List.count_pos_iff.mp (Nat.pos_of_ne_zero hne))
  omega

theorem Orderly.creates (h : Orderly k) (hsys : SwitchInv k.sys) (hc : Creates k.sys k'.sys)
    (hd : k'.dispatcher = k.dispatcher ∨ k'.current = 0) : Orderly k' := by
  have hcur : k'.current = k.current := hc.current
  have hle : k.current ≤ k.sys.currentTaskId := hsys.current
  have hold : ∀ t, t ≠ k.sys.currentTaskId + 1 → k'.sys.task t = k.sys.task t ∧
      k'.sys.occurs .ready t = k.sys.occurs .ready t := by
    intro t ht
    refine ⟨hc.others t ht, ?_⟩
    rw [hc.occurs, if_neg fun h => ht h.2, Nat.add_zero]
  have hnew : k'.sys.occurs .ready (k.sys.currentTaskId + 1) = 1 := by
    rw [hc.occurs, if_pos ⟨rfl, rfl⟩, hsys.new_out]
  refine ⟨?_, fun t ht => ?_, fun t ht hpos => ?_, fun hc0 => ?_⟩
  · rw [hcur, (hold _ (by omega)).1]
    exact h.current
  · by_cases hn : t = k.sys.currentTaskId + 1
    · rw [hn, hnew]
    · rw [(hold t hn).2]
      exact h.once t ht
  · by_cases hn : t = k.sys.currentTaskId + 1
    · rw [hn, hc.task]
      exact ⟨by simp [Tcb.zero], by simp [Tcb.zero]⟩
    · rw [(hold t hn).2] at hpos
      rw [(hold t hn).1]
      exact h.ready t ht hpos
  · have hd' := hd.resolve_right hc0
    rw [hcur] at hc0
    obtain ⟨y, hy0, hyn, hy, hrun, hout⟩ := h.ran hc0
    obtain ⟨htask, hoccurs⟩ := hold y (by omega)
    refine ⟨y, hy0, ?_, hd'.trans hy, htask ▸ hrun, hoccurs ▸ hout⟩
    rw [hc.currentTaskId]
    omega

/-- **The running task leaves the CPU.**  If the dispatcher has run it all is in order;
if it has been switched to, the dispatcher stops. -/
theorem Orderly.gone (h : Orderly k) (hsys : SwitchInv k'.sys) (hc : k.current ≠ 0)
    (hcur : k'.current = 0) (hn : k'.sys.currentTaskId = k.sys.currentTaskId)
    (hd : k'.dispatcher = k.dispatcher)
    (hothers : ∀ t, t ≠ k.current → AtMostWoken k.sys k'.sys t)
    (hself : k'.sys.occurs .ready k.current ≤ k.sys.occurs .ready k.current ∨
      ((k'.sys.task k.current).status = .ready ∧
        k'.sys.occurs .ready k.current ≤ k.sys.occurs .ready k.current + 1)) :
    Stops k' ∨ Orderly k' := by
  obtain ⟨y, hy0, hyn, hy, hrun, hout⟩ := h.ran hc
  by_cases hyc : y = k.current
  · right
    rw [hyc] at hout
    refine ⟨?_, fun t ht => ?_, fun t ht hpos => ?_, fun hne => absurd hcur hne⟩
    · rw [hcur, hsys.kernelReady]
      decide
    · by_cases htc : t = k.current
      · rw [htc] at ht ⊢
        have hzero := hout.resolve_left ht
        omega
      · exact (h.atMostWoken (hothers t htc) ht).1
    · by_cases htc : t = k.current
      · rw [htc] at ht hpos ⊢
        have hzero := hout.resolve_left ht
        rcases hself with hle | ⟨hready, -⟩
        · omega
        · rw [hready]
          exact ⟨by decide, by decide⟩
      · exact (h.atMostWoken (hothers t htc) ht).2 hpos
  · left
    exact ⟨hcur, y, hy0, hn ▸ hyn, hd.trans hy, ((hothers y hyc).running hrun).1⟩

theorem Orderly.leaves (h : Orderly k) (hsys : SwitchInv k'.sys) (hc : k.current ≠ 0) {b : Tcb}
    (hl : Leaves k.sys k'.sys b i) (hd : k'.dispatcher = k.dispatcher)
    (hb : i = .ready → b.status = .ready) : Stops k' ∨ Orderly k' := by
  apply h.gone hsys hc hl.current hl.currentTaskId hd
  · intro t ht
    have hoccurs : k'.sys.occurs .ready t = k.sys.occurs .ready t := by
      rw [hl.occurs, if_neg fun hand => ht hand.2, Nat.add_zero]
    refine ⟨Or.inl ?_, Or.inl (le_of_eq hoccurs)⟩
    by_cases ht0 : t = 0
    · rw [ht0, hl.kernel]
    · rw [hl.others t ht ht0]
  · have htask : k'.sys.task k.current = b := hl.task
    rw [hl.occurs, htask]
    by_cases hi : i = .ready
    · right
      refine ⟨hb hi, ?_⟩
      split <;> omega
    · left
      rw [if_neg fun hand => hi hand.1.symm, Nat.add_zero]

theorem Leaves.finishedKept {b : Tcb} (hl : Leaves S S' b i)
    (hc : (S.task S.currentActiveTask).status ≠ .finished) (hb : b.status ≠ .finished) :
    FinishedKept S S' := by
  intro t
  by_cases htc : t = S.currentActiveTask
  · rw [htc, hl.task]
    exact ⟨fun heq => absurd heq hb, fun heq => absurd heq hc⟩
  · by_cases ht0 : t = 0
    · rw [ht0, hl.kernel]
    · rw [hl.others t htc ht0]

/-- The dispatcher runs a task of `ready_queue`. -/
theorem Orderly.dispatches (h : Orderly k) (hlives : (k.sys.task 1).status ≠ .finished)
    (hsys : SwitchInv k.sys) (hw : Waking k.sys S) (ht : t ∈ S.inQueue .ready)
    (hdis : Dispatches S k'.sys t) (hd : k'.current = 0 ∨ k'.dispatcher = .ran k'.current) :
    FinishedKept k.sys k'.sys ∧ Orderly k' := by
  have ht0 : t ≠ 0 := fun heq => (hsys.wakes hw).kernelOut (heq ▸ ht)
  have hcur : k'.current = t := hdis.current
  have hpos : 0 < S.occurs .ready t := List.count_pos_iff.mpr ht
  have hrun : (k'.sys.task t).status = .running := by rw [hdis.task]
  have hlive : (S.task t).status ≠ .finished := by
    by_cases ht1 : t = 1
    · rw [ht1]
      exact fun hf => hlives ((hw.ready.finishedKept 1).mp hf)
    · exact ((h.atMostWoken (hw.ready.at t) ht1).2 hpos).2
  refine ⟨fun y => ?_, ?_, fun y hy => ?_, fun y hy hy' => ?_, fun _ => ?_⟩
  · rw [← hw.ready.finishedKept y]
    by_cases hyt : y = t
    · rw [hyt, hrun]
      exact ⟨fun heq => absurd heq (by decide), fun heq => absurd heq hlive⟩
    · rw [hdis.others y hyt]
  · rw [hcur, hrun]
    decide
  · have hle := (h.atMostWoken (hw.ready.at y) hy).1
    rw [hdis.occurs]
    omega
  · have hold := h.atMostWoken (hw.ready.at y) hy
    rw [hdis.occurs] at hy'
    by_cases hyt : y = t
    · rw [hyt, hrun]
      exact ⟨by decide, by decide⟩
    · rw [hdis.others y hyt]
      exact hold.2 (by omega)
  · refine ⟨t, ht0, ?_, ?_, hrun, ?_⟩
    · rw [hdis.currentTaskId]
      exact (hsys.wakes hw).ready t ht
    · rw [← hcur]
      exact hd.resolve_left (hcur ▸ ht0)
    · by_cases ht1 : t = 1
      · exact Or.inl ht1
      · right
        have hle := (h.atMostWoken (hw.ready.at t) ht1).1
        rw [hdis.occurs, if_pos ⟨rfl, rfl⟩]
        omega

/-! ## Ticks and switches -/

/-- Neither a status nor a seat in `ready_queue` has changed. -/
structure SameStatus (k k' : Kernel) : Prop where
  current : k'.current = k.current
  currentTaskId : k'.sys.currentTaskId = k.sys.currentTaskId
  dispatcher : k'.dispatcher = k.dispatcher
  status : ∀ t, (k'.sys.task t).status = (k.sys.task t).status
  occurs : ∀ t, k'.sys.occurs .ready t = k.sys.occurs .ready t

theorem SameStatus.stops (hs : SameStatus k k') (h : Stops k) : Stops k' := by
  obtain ⟨hc, y, hy0, hyn, hy, hrun⟩ := h
  exact ⟨hs.current.trans hc, y, hy0, hs.currentTaskId ▸ hyn, hs.dispatcher.trans hy,
    (hs.status y).trans hrun⟩

theorem SameStatus.orderly (hs : SameStatus k k') (h : Orderly k) : Orderly k' := by
  refine ⟨?_, fun t ht => ?_, fun t ht hpos => ?_, fun hc => ?_⟩
  · rw [hs.current, hs.status]
    exact h.current
  · rw [hs.occurs]
    exact h.once t ht
  · rw [hs.occurs] at hpos
    rw [hs.status]
    exact h.ready t ht hpos
  · rw [hs.current] at hc
    obtain ⟨y, hy0, hyn, hy, hrun, hout⟩ := h.ran hc
    refine ⟨y, hy0, hs.currentTaskId ▸ hyn, hs.dispatcher.trans hy, (hs.status y).trans hrun, ?_⟩
    rw [hs.occurs]
    exact hout

theorem SameStatus.place (hs : SameStatus k k') (h : Stops k ∨ Orderly k) :
    Stops k' ∨ Orderly k' := h.imp hs.stops hs.orderly

theorem FinishedInv.same (h : FinishedInv k H) (hsys : SwitchInv k'.sys)
    (hs : SameStatus k k') (hpoint : k'.point = k.point) : FinishedInv k' H :=
  h.keep hsys (by rw [hpoint]) (fun t => by rw [hs.status]) (hs.place h.place)

theorem FinishedInv.ticked (h : FinishedInv k H) :
    FinishedInv { k with sys := k.sys.ticked } H :=
  h.same h.sys.ticked ⟨rfl, rfl, rfl, fun t => (ticked_kept k.sys t).1, fun _ => rfl⟩ rfl

theorem FinishedInv.yield (h : FinishedInv k H) :
    FinishedInv { k with sys := taskYield k.sys } H := by
  have hsys := h.sys.yield
  by_cases hc : k.sys.currentActiveTask = 0
  · refine h.same hsys ⟨?_, ?_, rfl, fun t => ?_, fun t => ?_⟩ rfl
    · change (taskYield k.sys).currentActiveTask = k.sys.currentActiveTask
      rw [taskYield_kernel hc]
      rfl
    · change (taskYield k.sys).currentTaskId = k.sys.currentTaskId
      rw [taskYield_kernel hc]
      rfl
    · by_cases ht : t = 0
      · rw [ht, hsys.kernelReady, h.sys.kernelReady]
      · change ((taskYield k.sys).task t).status = _
        rw [taskYield_kernel hc, modify_task, Function.update_of_ne ht]
    · change (taskYield k.sys).occurs .ready t = _
      rw [taskYield_kernel hc]
      rfl
  · have hl := leaves_taskYield h.sys.kernelReady hc
    have ho : Orderly k := h.place.resolve_left fun hs => hc hs.1
    exact h.keep hsys rfl (hl.finishedKept ho.current (by simp))
      (ho.leaves hsys hc hl rfl fun _ => rfl)

theorem FinishedInv.tick (h : FinishedInv k H) :
    FinishedInv { k with sys := handleTimerSignal k.sys } H := by
  rw [tick_eq]
  split
  · exact h.ticked.yield
  · exact h.ticked

/-- `task_switch`, to no parent that has finished. -/
theorem FinishedInv.switch (h : FinishedInv k H) (hc : k.current ≠ 0) {task : Option Nat}
    (htask : ∀ t ∈ task, t ≤ k.sys.currentTaskId)
    (hok : parentLives k (.switch task) = true) :
    FinishedInv { k with sys := (taskSwitch k.sys task).2 } H := by
  have hsys := h.sys.switch htask
  have ho : Orderly k := h.place.resolve_left fun hs => hc hs.1
  have hto : ∀ t, (k.sys.task t).status ≠ .finished →
      (taskSwitch k.sys task).2 = { k.sys with currentActiveTask := t } →
      FinishedInv { k with sys := (taskSwitch k.sys task).2 } H := by
    intro t hlive hs
    rw [hs] at hsys ⊢
    refine h.keep hsys rfl (fun _ => Iff.rfl) (Or.inr ?_)
    exact ⟨hlive, ho.once, ho.ready, fun _ => ho.ran hc⟩
  rcases taskSwitch_cases k.sys task with hs | ⟨t, -, hlive, hs⟩ | ⟨p, rfl, hp, hs⟩
  · rw [hs]
    exact h
  · exact hto t hlive hs
  · apply hto p _ hs
    simp only [parentLives, show (k.sys.task k.current).parent = some p from hp] at hok
    exact of_decide_eq_true hok

/-! ## Every step -/

/-- A dispatcher that finds its task running stops. -/
theorem Stops.no_dispatcher (h : Stops k) : k.step .dispatcher ≠ some k' := by
  obtain ⟨hc, y, -, -, hy, hrun⟩ := h
  intro hs
  obtain ⟨-, hstep⟩ := Preemptive.exec_dispatcher.mp (Preemptive.step_eq_some.mp hs)
  obtain ⟨S, d, hturn, -⟩ := Preemptive.dispatcherStep_eq_some.mp hstep
  rw [show Kernel.preemptive.dispatcher k = .ran y from hy] at hturn
  cases dispatcherTurn_ok hturn with
  | wakes hw =>
      have hany : (some y).any (fun t => decide ((k.sys.task t).status = .running)) = true := by
        simpa using hrun
      change dispatcherWake k.sys (some y) = _ at hw
      rw [dispatcherWake, if_pos hany] at hw
      exact absurd hw (by simp)

/-- A turn after the dispatcher is bound to stop. -/
theorem FinishedInv.turn_stops (h : FinishedInv k H) (hplace : Stops k)
    (hs : k.step a = some k') (hm : Moves k a k') (ha : a.plain = true) : FinishedInv k' H := by
  have hne : a ≠ .dispatcher := fun heq => hplace.no_dispatcher (heq ▸ hs)
  have hd := hm.dispatcher hne
  have hsys := h.sys.turn hm.turn
  have hc0 : k.sys.currentActiveTask = 0 := hplace.1
  have hturn := hm.turn
  generalize hS : k'.sys = S at hturn hsys
  cases hturn with
  | creates _ hc =>
      subst hS
      refine h.keep hsys (hm.point 1) (hc.finishedKept h.sys) (Or.inl ?_)
      obtain ⟨-, y, hy0, hyn, hy, hrun⟩ := hplace
      refine ⟨hc.current.trans hc0, y, hy0, ?_, hd.trans hy, ?_⟩
      · rw [hc.currentTaskId]
        omega
      · rw [hc.others y (by omega)]
        exact hrun
  | wakes _ hw =>
      subst hS
      exact h.keep hsys (hm.point 1) hw.ready.finishedKept (Or.inl (hplace.wakes hw hd))
  | yields _ hc => exact absurd hc0 hc
  | suspends _ hc _ _ => exact absurd hc0 hc
  | runs _ _ _ _ => exact absurd rfl hne
  | exits hc _ => exact absurd hc0 hc

/-- A turn while all is in order. -/
theorem FinishedInv.turn_orderly (h : FinishedInv k H) (ho : Orderly k) (hm : Moves k a k')
    (ha : a.plain = true) : FinishedInv k' H := by
  have hsys := h.sys.turn hm.turn
  have hturn := hm.turn
  have hkept : k'.current = k.current → k'.dispatcher = k.dispatcher ∨ k'.current = 0 := by
    intro hcur
    by_cases hdis : a = .dispatcher
    · exact Or.inr (hcur.trans (hm.ran hdis).1)
    · exact Or.inl (hm.dispatcher hdis)
  have hleft : k.current ≠ 0 → k'.dispatcher = k.dispatcher := fun hc =>
    hm.dispatcher fun heq => hc (hm.ran heq).1
  generalize hS : k'.sys = S at hturn
  cases hturn with
  | creates _ hc =>
      subst hS
      exact h.keep hsys (hm.point 1) (hc.finishedKept h.sys)
        (Or.inr (ho.creates h.sys hc (hkept hc.current)))
  | wakes _ hw =>
      subst hS
      exact h.keep hsys (hm.point 1) hw.ready.finishedKept
        (Or.inr (ho.wakes hw (hkept hw.passive.current)))
  | yields _ hc =>
      have hl := leaves_taskYield h.sys.kernelReady hc
      rw [← hS] at hl
      exact h.keep hsys (hm.point 1) (hl.finishedKept ho.current (by simp))
        (ho.leaves hsys hc hl (hleft hc) fun _ => rfl)
  | @suspends _ f i _ hc hi hf =>
      have hl := leaves_taskSuspend h.sys.kernelReady hc f i
      rw [← hS] at hl
      exact h.keep hsys (hm.point 1) (hl.finishedKept ho.current (by simp))
        (ho.leaves hsys hc hl (hleft hc) fun heq => absurd heq hi)
  | runs _ hw hready hd =>
      subst hS
      obtain ⟨hfin, ho'⟩ := ho.dispatches h.manager.2 h.sys hw hready hd (hm.ran rfl).2
      exact h.keep hsys (hm.point 1) hfin (Or.inr ho')
  | exits _ _ => exact absurd ha (by simp [Action.plain])

/-- **`task_exit`** finishes the running task, which is not the disk manager. -/
theorem FinishedInv.exits (h : FinishedInv k H) {code : Int}
    (hs : k.step (.exit code) = some k') (hm : Moves k (.exit code) k') :
    FinishedInv k' (H ++ [k.current]) := by
  obtain ⟨hc, he⟩ := hm.turn.exit
  have hd := taskExit_departs he hc h.sys.kernelReady
  have hsys := h.sys.turn hm.turn
  have hne1 : k.current ≠ 1 := by
    intro heq
    have hu := (Kernel.step_call hs (by simp)).2.1
    have hmanager := h.manager.1
    rw [← heq, hu] at hmanager
    exact absurd hmanager (by decide)
  have ho : Orderly k := h.place.resolve_left fun hs => hc hs.1
  have hothers : ∀ t, t ≠ k.current → AtMostWoken k.sys k'.sys t := fun t ht =>
    ⟨hd.status t ht, (hd.occurs t).imp id fun hw => hw.2⟩
  have hfin : ∀ t, t ≠ k.current →
      ((k'.sys.task t).status = .finished ↔ (k.sys.task t).status = .finished) := by
    intro t ht
    rcases hd.status t ht with hsame | ⟨hwas, his⟩
    · rw [hsame]
    · rw [hwas, his]
      exact ⟨fun heq => absurd heq (by decide), fun heq => absurd heq (by decide)⟩
  refine ⟨hsys, ⟨(hm.point 1).trans h.manager.1, ?_⟩, fun t ht => ?_, ?_⟩
  · exact fun hf => h.manager.2 ((hfin 1 (Ne.symm hne1)).mp hf)
  · rcases List.mem_append.mp ht with hmem | hmem
    · obtain ⟨ht0, hf⟩ := h.done t hmem
      have htc : t ≠ k.current := fun heq => ho.current (heq ▸ hf)
      exact ⟨ht0, (hfin t htc).mpr hf⟩
    · rw [List.mem_singleton.mp hmem]
      exact ⟨hc, hd.finished⟩
  · apply ho.gone hsys hc hd.current hd.currentTaskId (hm.dispatcher (by simp)) hothers
    exact Or.inl ((hd.occurs k.current).resolve_right fun hw => hw.1 rfl)

/-- **Every step** that does not return to a finished parent keeps the invariant. -/
theorem FinishedInv.step (h : FinishedInv k H) (hok : parentLives k b = true)
    (hs : switchStep k b = some k') : FinishedInv k' (H ++ doneEvents k b) := by
  rcases switchStep_cases hs with ⟨rfl, rfl⟩ | ⟨task, rfl, htask, hc, rfl⟩ |
    ⟨a, rfl, ha, hstep, hm⟩
  · rw [show H ++ doneEvents k (.kernel .tick) = H from List.append_nil H]
    exact h.tick
  · rw [show H ++ doneEvents k (.switch task) = H from List.append_nil H]
    exact h.switch hc htask hok
  · by_cases hp : a.plain = true
    · have hnone : doneEvents k (.kernel a) = [] := by
        cases a with
        | exit code => exact absurd hp (by simp [Action.plain])
        | _ => rfl
      rw [hnone, List.append_nil]
      rcases h.place with hplace | ho
      · exact h.turn_stops hplace hstep hm hp
      · exact h.turn_orderly ho hm hp
    · obtain ⟨code, rfl⟩ : ∃ code, a = .exit code := by
        cases a with
        | exit code => exact ⟨code, rfl⟩
        | tick => exact absurd rfl ha
        | _ => exact absurd rfl hp
      exact h.exits hstep hm

theorem finishedInv_boot (numblocks : Int) (image : Int → Block) (memory : Nat → UInt8) :
    FinishedInv (Kernel.boot numblocks image memory) [] := by
  refine ⟨switchInv_boot .., ⟨rfl, ?_⟩, fun t ht => absurd ht (by simp), Or.inr ?_⟩
  · exact (by decide : Status.suspended ≠ .finished)
  · have hout : ∀ t, t ≠ 1 → (Kernel.boot numblocks image memory).sys.occurs .ready t = 0 :=
      fun t ht => List.count_eq_zero.mpr fun hmem => ht (List.mem_singleton.mp hmem)
    refine ⟨?_, fun t ht => ?_, fun t ht hpos => ?_, fun hc => absurd rfl hc⟩
    · exact (by decide : Status.ready ≠ .finished)
    · rw [hout t ht]
      exact Nat.zero_le 1
    · rw [hout t ht] at hpos
      exact absurd hpos (Nat.lt_irrefl 0)

/-- **A finished task never runs again**, in a run in which nobody returns to a parent that
has finished. -/
theorem finished_never_runs (numblocks : Int) (image : Int → Block) (memory : Nat → UInt8)
    (as : List SwitchAction) (k : Kernel)
    (hok : AllSteps switchStep (fun k b => parentLives k b = true)
      (Kernel.boot numblocks image memory) as)
    (hrun : run switchStep (Kernel.boot numblocks image memory) as = some k) :
    k.current ∉ history switchStep doneEvents (Kernel.boot numblocks image memory) as := by
  have h : FinishedInv k ([] ++
      history switchStep doneEvents (Kernel.boot numblocks image memory) as) :=
  invariant_history FinishedInv
    (fun _ _ _ _ h hok hs => h.step hok hs) (finishedInv_boot numblocks image memory) hok hrun
  rw [List.nil_append] at h
  intro hmem
  obtain ⟨hne, hf⟩ := h.done _ hmem
  rcases h.place with ⟨h0, -⟩ | ho
  · exact hne h0
  · exact ho.current hf

/-- Task 3 returns to its parent, which switches back; it exits, and task 2 runs. -/
theorem finished_never_runs_parent : ∃ k,
    run switchStep (Kernel.boot 4 (fun _ _ => 0) fun _ => 0)
      [.kernel .dispatcher, .kernel .dispatcher, .kernel .manager, .kernel .manager,
        .kernel .dispatcher, .kernel .dispatcher, .kernel (.create true), .kernel .yield,
        .kernel .dispatcher, .kernel .dispatcher, .kernel .manager, .kernel .dispatcher,
        .kernel .dispatcher, .switch none, .switch (some 3), .kernel (.exit 0),
        .kernel .dispatcher, .kernel .dispatcher] = some k ∧
    k.current = 2 ∧
    k.current ∉ history switchStep doneEvents (Kernel.boot 4 (fun _ _ => 0) fun _ => 0)
      [.kernel .dispatcher, .kernel .dispatcher, .kernel .manager, .kernel .manager,
        .kernel .dispatcher, .kernel .dispatcher, .kernel (.create true), .kernel .yield,
        .kernel .dispatcher, .kernel .dispatcher, .kernel .manager, .kernel .dispatcher,
        .kernel .dispatcher, .switch none, .switch (some 3), .kernel (.exit 0),
        .kernel .dispatcher, .kernel .dispatcher] := by
  have hrun : (run switchStep (Kernel.boot 4 (fun _ _ => 0) fun _ => 0)
      [.kernel .dispatcher, .kernel .dispatcher, .kernel .manager, .kernel .manager,
        .kernel .dispatcher, .kernel .dispatcher, .kernel (.create true), .kernel .yield,
        .kernel .dispatcher, .kernel .dispatcher, .kernel .manager, .kernel .dispatcher,
        .kernel .dispatcher, .switch none, .switch (some 3), .kernel (.exit 0),
        .kernel .dispatcher, .kernel .dispatcher]).any (fun k => decide (k.current = 2)) =
          true := by
    decide +kernel
  rw [Option.any_eq_true] at hrun
  obtain ⟨k, hk, hcur⟩ := hrun
  exact ⟨k, hk, of_decide_eq_true hcur,
    finished_never_runs 4 (fun _ _ => 0) (fun _ => 0) _ k (by decide +kernel) hk⟩

/-- **A finished task that runs again.**  Task 2 creates task 3 and exits, and task 3 returns
to its parent. -/
theorem finished_runs_again : ∃ k,
    run switchStep (Kernel.boot 4 (fun _ _ => 0) fun _ => 0)
      [.kernel .dispatcher, .kernel .dispatcher, .kernel .manager, .kernel .manager,
        .kernel .dispatcher, .kernel .dispatcher, .kernel (.create true), .kernel (.exit 0),
        .kernel .dispatcher, .kernel .dispatcher, .kernel .manager, .kernel .dispatcher,
        .kernel .dispatcher, .switch none] = some k ∧
    k.current = 2 ∧ (k.sys.task 2).status = .finished ∧
    2 ∈ history switchStep doneEvents (Kernel.boot 4 (fun _ _ => 0) fun _ => 0)
      [.kernel .dispatcher, .kernel .dispatcher, .kernel .manager, .kernel .manager,
        .kernel .dispatcher, .kernel .dispatcher, .kernel (.create true), .kernel (.exit 0),
        .kernel .dispatcher, .kernel .dispatcher, .kernel .manager, .kernel .dispatcher,
        .kernel .dispatcher, .switch none] := by
  have hrun : (run switchStep (Kernel.boot 4 (fun _ _ => 0) fun _ => 0)
      [.kernel .dispatcher, .kernel .dispatcher, .kernel .manager, .kernel .manager,
        .kernel .dispatcher, .kernel .dispatcher, .kernel (.create true), .kernel (.exit 0),
        .kernel .dispatcher, .kernel .dispatcher, .kernel .manager, .kernel .dispatcher,
        .kernel .dispatcher, .switch none]).any (fun k =>
          decide (k.current = 2 ∧ (k.sys.task 2).status = .finished)) = true := by
    decide +kernel
  rw [Option.any_eq_true] at hrun
  obtain ⟨k, hk, hlast⟩ := hrun
  obtain ⟨hcur, hfin⟩ := of_decide_eq_true hlast
  exact ⟨k, hk, hcur, hfin, by decide +kernel⟩

end PingPongOS
