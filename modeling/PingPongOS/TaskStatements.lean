import PingPongOS.DirectSwitch
import PingPongOS.SuspendStatements

/-!
# Statements and the other tasks

Where kernel functions run statement by statement, what the running task does to the
others is still a wake-up, or nothing.  A task that stays suspended stays in its queues.
-/

namespace PingPongOS

open Runs TaskSystem

variable {S S' T : TaskSystem} {t : Nat}

/-- The task is left alone or woken once, and stays in its queues while it is suspended. -/
structure Kept (S S' : TaskSystem) (t : Nat) : Prop where
  woken : AtMostWoken S S' t
  id : (S'.task t).id = (S.task t).id
  target : (S'.task t).targetToWait = (S.task t).targetToWait
  queued : ∀ i, (S'.task t).status = .suspended → 0 < S.occurs i t → 0 < S'.occurs i t

theorem AtMostWoken.suspended (h : AtMostWoken S S' t) (hs : (S'.task t).status = .suspended) :
    (S.task t).status = .suspended := by
  rcases h.status with hsame | ⟨-, hready⟩
  · exact hsame.symm.trans hs
  · exact absurd (hready.symm.trans hs) (by decide)

theorem AtMostWoken.finished (h : AtMostWoken S S' t) :
    (S'.task t).status = .finished ↔ (S.task t).status = .finished := by
  rcases h.status with hsame | ⟨hwas, hready⟩
  · rw [hsame]
  · rw [hwas, hready]
    exact ⟨fun heq => absurd heq (by decide), fun heq => absurd heq (by decide)⟩

/-- A task whose descriptor and queues change only where nobody looks. -/
theorem Kept.of_same (hid : (S'.task t).id = (S.task t).id)
    (htarget : (S'.task t).targetToWait = (S.task t).targetToWait)
    (hstatus : (S'.task t).status = (S.task t).status)
    (hoccurs : ∀ i, S'.occurs i t = S.occurs i t) : Kept S S' t :=
  ⟨⟨Or.inl hstatus, Or.inl (le_of_eq (hoccurs .ready))⟩, hid, htarget,
    fun i _ hpos => by rw [hoccurs i]; exact hpos⟩

theorem Quiet.kept (h : Quiet S S') (t : Nat) : Kept S S' t :=
  .of_same (h.fields t).2.2.1 (h.fields t).2.2.2 (h.fields t).1 fun i => h.occurs i t

theorem Leaves.kept {b : Tcb} {i : QueueId} (h : Leaves S S' b i)
    (ht : t ≠ S.currentActiveTask) : Kept S S' t := by
  have hoccurs : ∀ j, S'.occurs j t = S.occurs j t := fun j => by
    rw [h.occurs, if_neg fun hand => ht hand.2, Nat.add_zero]
  by_cases ht0 : t = 0
  · subst ht0
    exact .of_same (by rw [h.kernel]) (by rw [h.kernel]) (by rw [h.kernel]) fun i => hoccurs i
  · have htask := h.others t ht ht0
    exact .of_same (by rw [htask]) (by rw [htask]) (by rw [htask]) fun i => hoccurs i

/-! ## One statement -/

/-- The running task writes its descriptor. -/
theorem SwitchInv.write (h : SwitchInv S) {f : Tcb → Tcb} (hc : S.currentActiveTask ≠ 0)
    (hf : ∀ b, (f b).parent = b.parent) : SwitchInv (S.modify S.currentActiveTask f) := by
  have hcur := h.current
  have hother : ∀ t, t ≠ S.currentActiveTask →
      (S.modify S.currentActiveTask f).task t = S.task t := fun t ht => by
    rw [modify_task, Function.update_of_ne ht]
  refine ⟨?_, h.kernelOut, h.current, h.ready, fun t ht p hp => ?_, fun t ht => ?_⟩
  · rw [hother 0 (Ne.symm hc)]
    exact h.kernelReady
  · by_cases htc : t = S.currentActiveTask
    · subst htc
      rw [modify_task, Function.update_self, hf] at hp
      exact h.parent _ hcur p hp
    · rw [hother t htc] at hp
      exact h.parent t ht p hp
  · have hlt : S.currentTaskId < t := ht
    rw [hother t (by omega)]
    exact h.fresh t ht

/-- A change of neither status nor parent. -/
theorem SwitchInv.mark (h : SwitchInv S) {f : Tcb → Tcb}
    (hf : ∀ b, (f b).parent = b.parent ∧ (f b).status = b.status) :
    SwitchInv (S.modify t f) := by
  have hsame : ∀ y, ((S.modify t f).task y).parent = (S.task y).parent ∧
      ((S.modify t f).task y).status = (S.task y).status := by
    intro y
    by_cases hy : y = t
    · subst hy
      rw [modify_task, Function.update_self]
      exact hf _
    · rw [modify_task, Function.update_of_ne hy]
      exact ⟨rfl, rfl⟩
  refine ⟨(hsame 0).2.trans h.kernelReady, h.kernelOut, h.current, h.ready,
    fun y hy p hp => ?_, fun y hy => (hsame y).2.trans (h.fresh y hy)⟩
  rw [(hsame y).1] at hp
  exact h.parent y hy p hp

theorem SwitchInv.setprio (h : SwitchInv S) {task : Option Nat} {prio : Int}
    (hs : schedSetprio S task prio = .ok S') : SwitchInv S' := by
  unfold schedSetprio at hs
  split at hs
  · rw [← Except.ok.inj hs]
    exact h.mark fun _ => ⟨rfl, rfl⟩
  · exact absurd hs (by simp)

theorem SwitchInv.setQueue (h : SwitchInv S) {i : QueueId} (hi : i ≠ .ready) (q : Queue Nat) :
    SwitchInv (S.setQueue i q) := by
  have hready : (S.setQueue i q).inQueue .ready = S.inQueue .ready := by
    rw [setQueue_inQueue, if_neg (Ne.symm hi)]
  refine ⟨h.kernelReady, ?_, h.current, fun t ht => ?_, h.parent, h.fresh⟩
  · rw [hready]
    exact h.kernelOut
  · rw [hready] at ht
    exact h.ready t ht

/-- The switch to the kernel. -/
theorem SwitchInv.toKernel (h : SwitchInv S) :
    (taskSwitch S (some taskKernel)).2 = { S with currentActiveTask := 0 } := by
  have hk := h.kernelReady
  simp [taskSwitch, taskKernel, hk]

theorem Kept.refl (S : TaskSystem) (t : Nat) : Kept S S t := .of_same rfl rfl rfl fun _ => rfl

theorem Kept.modify {f : Tcb → Tcb} {y : Nat}
    (hf : (f (S.task y)).id = (S.task y).id ∧
      (f (S.task y)).targetToWait = (S.task y).targetToWait ∧
      (f (S.task y)).status = (S.task y).status) : Kept S (S.modify y f) t := by
  by_cases ht : t = y
  · subst ht
    exact .of_same (by simp [hf]) (by simp [hf]) (by simp [hf]) fun _ => rfl
  · have htask : (S.modify y f).task t = S.task t := by
      rw [modify_task, Function.update_of_ne ht]
    exact .of_same (by rw [htask]) (by rw [htask]) (by rw [htask]) fun _ => rfl

/-- A task that another writes is left alone. -/
theorem Kept.write {f : Tcb → Tcb} {y : Nat} (ht : t ≠ y) : Kept S (S.modify y f) t := by
  have htask : (S.modify y f).task t = S.task t := by
    rw [modify_task, Function.update_of_ne ht]
  exact .of_same (by rw [htask]) (by rw [htask]) (by rw [htask]) fun _ => rfl

/-- An entry at the end of a queue is in nobody's way. -/
theorem Kept.add {i : QueueId} {y : Nat} (hi : i ≠ .ready) :
    Kept S (S.setQueue i (queueAdd (S.queue i) y)) t := by
  refine ⟨⟨Or.inl rfl, Or.inl ?_⟩, rfl, rfl, fun j _ hpos => ?_⟩
  · rw [occurs_add, if_neg fun hand => hi hand.1.symm, Nat.add_zero]
  · rw [occurs_add]
    omega

theorem Kept.walk {i : QueueId} {q : Queue Nat} (hq : q.items = S.inQueue i) :
    Kept S (S.setQueue i q) t :=
  .of_same rfl rfl rfl fun _ => occurs_walk hq

/-- What a statement of `task_suspend` does to the task that executes it. -/
theorem suspendStatement_self {p : SuspendPoint} (hc : S.currentActiveTask ≠ 0) :
    ((suspendStatement .suspended S p).task S.currentActiveTask).id =
        (S.task S.currentActiveTask).id ∧
      ((suspendStatement .suspended S p).task S.currentActiveTask).targetToWait =
        (S.task S.currentActiveTask).targetToWait ∧
      ((suspendStatement .suspended S p).task S.currentActiveTask).status =
        if p = .status then .suspended else (S.task S.currentActiveTask).status := by
  cases p with
  | status => simp [suspendStatement]
  | add => simp [suspendStatement]
  | count => simp [suspendStatement, taskKernel, Function.update_of_ne hc]
  | switch =>
      simp only [suspendStatement, taskSwitch]
      split <;> simp

/-- What a statement of `task_suspend` does to the rest of the system. -/
structure SuspendStep (S S' : TaskSystem) (p : SuspendPoint) : Prop where
  sys : SwitchInv S'
  currentTaskId : S'.currentTaskId = S.currentTaskId
  current : S'.currentActiveTask = if p = .switch then 0 else S.currentActiveTask
  others : ∀ t, t ≠ S.currentActiveTask → Kept S S' t
  occurs : ∀ i, S'.occurs i S.currentActiveTask =
    S.occurs i S.currentActiveTask + if p = .add ∧ i = .suspended then 1 else 0

/-- **A statement of `task_suspend`** leaves the others alone. -/
theorem SwitchInv.suspendStatement (h : SwitchInv S) (hc : S.currentActiveTask ≠ 0)
    (p : SuspendPoint) : SuspendStep S (suspendStatement .suspended S p) p := by
  cases p with
  | status =>
      have hsys := h.write (f := fun b => { b with status := .suspended }) hc fun _ => rfl
      refine ⟨hsys, rfl, rfl, fun t ht => ?_, fun _ => rfl⟩
      exact Kept.write (f := fun b => { b with status := .suspended }) ht
  | add =>
      refine ⟨h.setQueue (by decide) _, rfl, rfl, fun t _ => Kept.add (by decide), fun i => ?_⟩
      simp only [PingPongOS.suspendStatement]
      rw [occurs_add]
      by_cases hi : i = .suspended
      · simp [hi]
      · simp [hi]
  | count =>
      have hsys := h.mark (t := taskKernel) (f := fun b =>
        { b with numberOfActivations := b.numberOfActivations + 1 }) fun _ => ⟨rfl, rfl⟩
      refine ⟨hsys, rfl, rfl, fun t _ => ?_, fun _ => rfl⟩
      exact Kept.modify (f := fun b =>
        { b with numberOfActivations := b.numberOfActivations + 1 }) ⟨rfl, rfl, rfl⟩
  | switch =>
      have hsys : SwitchInv (taskSwitch S (some taskKernel)).2 := h.switch fun t ht => by
        obtain rfl := Option.some.inj ht
        exact Nat.zero_le _
      simp only [PingPongOS.suspendStatement]
      rw [h.toKernel] at hsys ⊢
      exact ⟨hsys, rfl, rfl, fun t _ => Kept.of_same rfl rfl rfl fun _ => rfl, fun _ => rfl⟩

/-! ## Wake-ups -/

/-- A task is not suspended after its `task_awake`. -/
theorem taskAwake_awake (hs : taskAwake S (some t) = .ok S') :
    (S'.task t).status ≠ .suspended := by
  rcases taskAwake_inv hs with ⟨hnot, rfl⟩ | ⟨-, hready, -⟩
  · exact hnot
  · rw [hready]
    decide

/-- **`task_awake`** takes nobody else out of `suspended_queue`. -/
theorem taskAwake_kept (hs : taskAwake S (some t) = .ok S') (y : Nat) : Kept S S' y := by
  have hpassive := (taskAwake_passive hs).task y
  refine ⟨(taskAwake_ready hs).at y, by rw [hpassive.fields], by rw [hpassive.fields],
    fun i hsusp hpos => ?_⟩
  have hyt : y ≠ t := fun heq => taskAwake_awake hs (heq ▸ hsusp)
  rcases taskAwake_inv hs with ⟨-, rfl⟩ | ⟨-, -, j, -, -, hoccurs⟩
  · exact hpos
  · rw [hoccurs, if_neg fun hand => hyt hand.2]
    omega

/-- Only wake-ups, none of which takes another task out of `suspended_queue`. -/
structure Rouses (S S' : TaskSystem) : Prop where
  waking : Waking S S'
  kept : ∀ t, Kept S S' t

theorem Kept.trans (h : Kept S T t) (h' : Kept T S' t) : Kept S S' t := by
  refine ⟨?_, h'.id.trans h.id, h'.target.trans h.target, fun i hs hpos => ?_⟩
  · refine ⟨?_, ?_⟩
    · rcases h'.woken.status with hs | ⟨hwas, his⟩
      · rw [hs]
        exact h.woken.status
      · exact Or.inr ⟨h.woken.suspended hwas, his⟩
    · rcases h'.woken.occurs with hle | ⟨hwas, his, hle⟩
      · rcases h.woken.occurs with hle' | ⟨hwas', his', hle'⟩
        · exact Or.inl (Nat.le_trans hle hle')
        · right
          refine ⟨hwas', ?_, Nat.le_trans hle hle'⟩
          rcases h'.woken.status with hs | ⟨hwas, -⟩
          · exact hs.trans his'
          · exact absurd (his'.symm.trans hwas) (by decide)
      · right
        refine ⟨h.woken.suspended hwas, his, ?_⟩
        rcases h.woken.occurs with hle' | ⟨-, his', -⟩
        · omega
        · exact absurd (his'.symm.trans hwas) (by decide)
  · exact h'.queued i hs (h.queued i (h'.woken.suspended hs) hpos)

theorem Rouses.refl (S : TaskSystem) : Rouses S S := ⟨Waking.refl S, Kept.refl S⟩

theorem Rouses.trans (h : Rouses S T) (h' : Rouses T S') : Rouses S S' :=
  ⟨h.waking.trans h'.waking, fun t => (h.kept t).trans (h'.kept t)⟩

theorem taskAwake_rouses (hs : taskAwake S (some t) = .ok S') : Rouses S S' :=
  ⟨taskAwake_waking hs, taskAwake_kept hs⟩

theorem scheduler_rouses {o : Option Nat} (hs : scheduler S = .ok (o, S')) : Rouses S S' :=
  ⟨scheduler_waking hs, (scheduler_quiet hs).kept⟩

theorem dispatcherWake_rouses {o : Option Nat} (hs : dispatcherWake S o = .ok S') :
    Rouses S S' := by
  unfold dispatcherWake at hs
  split at hs
  · exact absurd hs (by simp)
  · apply wakeLoop_keeps (Rouses S) _ _ _ (Rouses.refl S) hs
    · intro T t hT
      rw [modify_id]
      exact hT
    · exact fun T T' t hT hawake => hT.trans (taskAwake_rouses hawake)
    · exact fun T q hT hq => hT.trans ⟨waking_walk hq, fun t => Kept.walk hq⟩

/-- **A step of the dispatcher** creates a task, wakes, or dispatches a task after waking. -/
theorem dispatcherTurn_rouses {d d' : DispatcherPoint} {requests : Nat}
    (hs : dispatcherTurn S d requests = some (.ok (S', d'))) :
    Creates S S' ∨ Rouses S S' ∨
      ∃ S₁ t, Rouses S S₁ ∧ 0 < S₁.occurs .ready t ∧ Dispatches S₁ S' t := by
  have hkept := dispatcherTurn_keeps (fun T => Rouses S T)
    (fun T o T' hT hsched => hT.trans (scheduler_rouses hsched))
    (fun T o T' hT hwake => hT.trans (dispatcherWake_rouses hwake)) (Rouses.refl S) hs
  refine hkept.imp id (Or.imp id ?_)
  rintro ⟨S₁, t, hr, ht, hd, -⟩
  exact ⟨S₁, t, hr, ht, hd⟩

end PingPongOS
