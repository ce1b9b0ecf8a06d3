import PingPongOS.Kernel
import PingPongOS.TaskSeats

/-!
# The dispatcher under preemption

Where a timer tick may come inside a kernel function, a task may be in more than one
queue, or in one that its status does not name.  Without assuming that the tasks have
their seats, a step of the dispatcher still does one of three things to them.
-/

namespace PingPongOS

open TaskSystem

variable {S S' T : TaskSystem} {t : Nat} {i : QueueId}

/-- Moving an iterator moves nobody. -/
theorem quiet_walk {q : Queue Nat} (hq : q.items = S.inQueue i) : Quiet S (S.setQueue i q) :=
  ⟨rfl, rfl, fun _ _ => occurs_walk hq, fun _ => ⟨rfl, rfl, rfl, rfl⟩⟩

/-- A change of priorities moves nobody. -/
theorem quiet_modify {f : Tcb → Tcb} (hf : ∀ b, (f b).status = b.status ∧
    (f b).sleeping = b.sleeping ∧ (f b).id = b.id ∧ (f b).targetToWait = b.targetToWait) :
    Quiet S (S.modify t f) := by
  refine ⟨rfl, rfl, fun _ _ => rfl, fun y => ?_⟩
  by_cases hy : y = t
  · subst hy
    rw [modify_task, Function.update_self]
    exact hf _
  · rw [modify_task, Function.update_of_ne hy]
    exact ⟨rfl, rfl, rfl, rfl⟩

/-- **`scheduler` moves nobody**, whatever is in `ready_queue`. -/
theorem scheduler_quiet {o : Option Nat} (hs : scheduler S = .ok (o, S')) : Quiet S S' :=
  scheduler_rule (Quiet S) (fun _ _ hT hq => hT.trans (quiet_walk hq))
    (fun _ _ _ hT => hT.trans (quiet_modify fun _ => ⟨rfl, rfl, rfl, rfl⟩)) (Quiet.refl S) hs

/-- `task_run` dispatches a task of `ready_queue`, and does nothing with any other. -/
theorem taskRun_cases (S : TaskSystem) (t : Nat) :
    taskRun S t = S ∨ (0 < S.occurs .ready t ∧ Dispatches S (taskRun S t) t) := by
  by_cases ht : 0 < S.occurs .ready t
  · exact Or.inr ⟨ht, dispatches_taskRun ht⟩
  · left
    have hout : t ∉ (S.queue .ready).items := fun hin => ht (List.count_pos_iff.mpr hin)
    simp [taskRun, queueDel_of_not_mem hout]

/-- **Rule for a step of the dispatcher**: it creates a task, does what its scheduling and
its waking keep, or dispatches a task of `ready_queue` after that. -/
theorem dispatcherTurn_keeps {d d' : DispatcherPoint} {requests : Nat} (P : TaskSystem → Prop)
    (hsched : ∀ T o T', P T → scheduler T = .ok (o, T') → P T')
    (hwake : ∀ T o T', P T → dispatcherWake T o = .ok T' → P T') (hS : P S)
    (hs : dispatcherTurn S d requests = some (.ok (S', d'))) :
    Creates S S' ∨ P S' ∨
      ∃ S₁ t, P S₁ ∧ 0 < S₁.occurs .ready t ∧ Dispatches S₁ S' t ∧ d' = .ran t := by
  cases dispatcherTurn_ok hs with
  | enters => exact Or.inl (creates_taskCreate S)
  | @runs next S₁ hsel =>
      have hS₁ := hsched S _ S₁ hS hsel
      rcases taskRun_cases S₁ next with hsame | ⟨ht, hd⟩
      · rw [hsame]
        exact Or.inr (Or.inl hS₁)
      · exact Or.inr (Or.inr ⟨S₁, next, hS₁, ht, hd, rfl⟩)
  | idles hsel hw => exact Or.inr (Or.inl (hwake _ _ _ (hsched S _ _ hS hsel) hw))
  | wakes hw => exact Or.inr (Or.inl (hwake S _ _ hS hw))

end PingPongOS
