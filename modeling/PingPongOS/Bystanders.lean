import PingPongOS.Preemption
import PingPongOS.SuspendStatements
import PingPongOS.TaskConsistency

/-!
# What a step does to the other tasks

A step is made by the task that has the CPU.  To another task it changes nothing but
its status, when it wakes it, and its priority; the dispatcher also starts the quantum
of the task it runs.  Only `task_exit` writes an exit code or hands one to a waiter.
-/

namespace PingPongOS

open Runs TaskSystem

/-- The task has been left alone, or it has been woken, and its priority may have
changed. -/
structure Passive (b b' : Tcb) : Prop where
  fields : b' = { b with
    status := b'.status, sleeping := b'.sleeping, dynamicPriority := b'.dynamicPriority }
  status : b'.status = b.status ∨ (b.status = .suspended ∧ b'.status = .ready)

variable {S S' T : TaskSystem} {t : Nat} {i : QueueId} {k k' : Kernel} {a : Action}

theorem Passive.refl (b : Tcb) : Passive b b := ⟨rfl, Or.inl rfl⟩

theorem Passive.trans {b b' b'' : Tcb} (h : Passive b b') (h' : Passive b' b'') :
    Passive b b'' := by
  refine ⟨?_, ?_⟩
  · have hfields := h.fields
    rw [h'.fields, hfields]
  · rcases h.status with hs | ⟨hwas, his⟩
    · rcases h'.status with hs' | ⟨hwas', his'⟩
      · exact Or.inl (hs'.trans hs)
      · exact Or.inr ⟨hs.symm.trans hwas', his'⟩
    · rcases h'.status with hs' | ⟨hwas', -⟩
      · exact Or.inr ⟨hwas, hs'.trans his⟩
      · exact absurd (his.symm.trans hwas') (by decide)

/-- Only priorities and wake-ups: every task is passive, and the same one has the CPU. -/
structure AllPassive (S S' : TaskSystem) : Prop where
  current : S'.currentActiveTask = S.currentActiveTask
  currentTaskId : S'.currentTaskId = S.currentTaskId
  clock : S'.clock = S.clock
  task : ∀ t, Passive (S.task t) (S'.task t)

theorem AllPassive.refl (S : TaskSystem) : AllPassive S S :=
  ⟨rfl, rfl, rfl, fun t => Passive.refl (S.task t)⟩

theorem AllPassive.trans (h : AllPassive S T) (h' : AllPassive T S') : AllPassive S S' :=
  ⟨h'.current.trans h.current, h'.currentTaskId.trans h.currentTaskId, h'.clock.trans h.clock,
    fun t => (h.task t).trans (h'.task t)⟩

theorem AllPassive.modify {f : Tcb → Tcb} (hf : Passive (S.task t) (f (S.task t))) :
    AllPassive S (S.modify t f) := by
  refine ⟨rfl, rfl, rfl, fun y => ?_⟩
  by_cases hy : y = t
  · subst hy
    rw [modify_task, Function.update_self]
    exact hf
  · rw [modify_task, Function.update_of_ne hy]
    exact Passive.refl _

theorem AllPassive.setQueue (q : Queue Nat) : AllPassive S (S.setQueue i q) :=
  ⟨rfl, rfl, rfl, fun t => Passive.refl (S.task t)⟩

/-! ## Waking -/

/-- `task_awake` that meets no fault, on a task. -/
theorem taskAwake_ok (hs : taskAwake S (some t) = .ok S') :
    S' = S ∨ ((S.task t).status = .suspended ∧ ∃ j q, j ≠ .ready ∧
      (∀ y ∈ q.items, y ∈ S.inQueue j) ∧
      S' = ((S.setQueue j q).modify t fun b =>
        { b with sleeping := false, status := .ready }).setQueue .ready
          (queueAdd (S.queue .ready) t)) := by
  by_cases hsusp : (S.task t).status = .suspended
  · right
    refine ⟨hsusp, ?_⟩
    simp only [taskAwake, if_pos hsusp] at hs
    obtain ⟨j, hj, hready⟩ : ∃ j, (if (S.task t).sleeping then QueueId.sleeping
        else QueueId.suspended) = j ∧ j ≠ .ready := by
      refine ⟨_, rfl, ?_⟩
      split <;> decide
    simp only [hj] at hs
    by_cases hdel : (queueDel (S.queue j) t).1 = noError
    · rw [if_pos hdel] at hs
      refine ⟨j, (queueDel (S.queue j) t).2, hready, fun y hy => ?_, ?_⟩
      · by_cases hmem : t ∈ (S.queue j).items
        · rw [(queueDel_items hmem).2] at hy
          exact List.mem_of_mem_erase hy
        · rw [queueDel_of_not_mem hmem] at hy
          exact hy
      · rw [← Except.ok.inj hs]
        simp [Function.update_of_ne (Ne.symm hready)]
    · rw [if_neg hdel] at hs
      exact absurd hs (by simp)
  · simp only [taskAwake, if_neg hsusp] at hs
    exact Or.inl (Except.ok.inj hs).symm

/-- **`task_awake`** that meets no fault moves its task from the queue where it sleeps to
`ready_queue`, if it is suspended, and does nothing otherwise. -/
theorem taskAwake_inv (hs : taskAwake S (some t) = .ok S') :
    ((S.task t).status ≠ .suspended ∧ S' = S) ∨
      ((S.task t).status = .suspended ∧ (S'.task t).status = .ready ∧
        ∃ j, j = (if (S.task t).sleeping then QueueId.sleeping else .suspended) ∧
          0 < S.occurs j t ∧ ∀ i y, S'.occurs i y =
            S.occurs i y - (if i = j ∧ y = t then 1 else 0) +
              if i = .ready ∧ y = t then 1 else 0) := by
  by_cases hsusp : (S.task t).status = .suspended
  · right
    simp only [taskAwake, if_pos hsusp] at hs
    obtain ⟨j, hj, hready⟩ : ∃ j, (if (S.task t).sleeping then QueueId.sleeping
        else QueueId.suspended) = j ∧ j ≠ .ready := by
      refine ⟨_, rfl, ?_⟩
      split <;> decide
    simp only [hj] at hs
    by_cases hin : 0 < S.occurs j t
    · obtain ⟨hret, hdel⟩ := occurs_del hin
      rw [if_pos hret] at hs
      rw [← Except.ok.inj hs]
      refine ⟨hsusp, by simp, j, hj.symm, hin, fun i y => ?_⟩
      rw [occurs_add (S := (S.setQueue j (queueDel (S.queue j) t).2).modify t fun b =>
        { b with sleeping := false, status := .ready }), occurs_modify, hdel]
    · have hout : t ∉ (S.queue j).items := fun hmem => hin (List.count_pos_iff.mpr hmem)
      rw [queueDel_of_not_mem hout, if_neg (show ¬ error = noError by decide)] at hs
      exact absurd hs (by simp)
  · simp only [taskAwake, if_neg hsusp] at hs
    exact Or.inl ⟨hsusp, (Except.ok.inj hs).symm⟩

theorem taskAwake_passive {o : Option Nat} (hs : taskAwake S o = .ok S') : AllPassive S S' := by
  cases o with
  | none => exact Except.ok.inj hs ▸ AllPassive.refl S
  | some t =>
      rcases taskAwake_ok hs with rfl | ⟨hsusp, j, q, -, -, rfl⟩
      · exact AllPassive.refl _
      · have hmark : AllPassive (S.setQueue j q) _ :=
          AllPassive.modify (f := fun b => { b with sleeping := false, status := .ready })
            (t := t) ⟨rfl, Or.inr ⟨hsusp, rfl⟩⟩
        exact ((AllPassive.setQueue q).trans hmark).trans (AllPassive.setQueue _)

/-- `task_awake` changes no task but its argument. -/
theorem taskAwake_task {y : Nat} (hs : taskAwake S (some t) = .ok S') (hy : y ≠ t) :
    S'.task y = S.task y := by
  rcases taskAwake_ok hs with rfl | ⟨-, j, q, -, -, rfl⟩
  · rfl
  · simp [Function.update_of_ne hy]

/-- `task_awake` puts a task into no queue but `ready_queue`. -/
theorem taskAwake_inQueue {y : Nat} (hs : taskAwake S (some t) = .ok S') (hi : i ≠ .ready)
    (hy : y ∈ S'.inQueue i) : y ∈ S.inQueue i := by
  rcases taskAwake_ok hs with rfl | ⟨-, j, q, -, hq, rfl⟩
  · exact hy
  · rw [setQueue_inQueue, if_neg hi, modify_inQueue, setQueue_inQueue] at hy
    split at hy
    · rename_i hij
      exact hij ▸ hq y hy
    · exact hy

/-- The item that `queue_next` returns is in the queue. -/
theorem nextIn_mem {y : Nat} (hy : (S.nextIn i).1 = some y) : y ∈ S.inQueue i := by
  have hitem : queueItem (queueNext (S.queue i)).2 = some y := by
    rw [← queueNext_fst]
    exact hy
  have hmem : y ∈ (queueNext (S.queue i)).2.items :=
    List.mem_append_right _ (List.mem_of_mem_head? hitem)
  rw [queueNext_items] at hmem
  exact hmem

theorem nextIn_inQueue (S : TaskSystem) (i j : QueueId) :
    (S.nextIn i).2.inQueue j = S.inQueue j := by
  rw [nextIn, setQueue_inQueue]
  split
  · rename_i hij
    rw [queueNext_items, hij]
    rfl
  · rfl

/-- **A waking loop over a queue** touches only the tasks of the queue. -/
theorem wakeLoop_others {isDue : TaskSystem → Nat → Bool} {mark : Tcb → Tcb}
    (hs : wakeLoop i isDue mark S = .ok S') (hi : i ≠ .ready) :
    ∀ y, y ∉ S.inQueue i → S'.task y = S.task y := by
  have hloop := whileItem_keeps
    (fun o T => (∀ y, o = some y → y ∈ T.inQueue i) ∧ (∀ y ∈ T.inQueue i, y ∈ S.inQueue i) ∧
      ∀ y, y ∉ S.inQueue i → T.task y = S.task y)
    (fun x T T' hinv hbody => by
      obtain ⟨hitem, hsub, hsame⟩ := hinv
      have hx : x ∈ S.inQueue i := hsub x (hitem x rfl)
      have hround : (∀ y ∈ T'.inQueue i, y ∈ T.inQueue i) ∧
          ∀ y, y ≠ x → T'.task y = T.task y := by
        by_cases hd : isDue T x = true
        · rw [if_pos hd] at hbody
          refine ⟨fun y hy => taskAwake_inQueue (S := T.modify x mark) hbody hi hy, fun y hy => ?_⟩
          rw [taskAwake_task hbody hy, modify_task, Function.update_of_ne hy]
        · rw [if_neg hd] at hbody
          rw [← Except.ok.inj hbody]
          exact ⟨fun y hy => hy, fun y _ => rfl⟩
      refine ⟨fun y hy => ?_, fun y hy => ?_, fun y hy => ?_⟩
      · rw [nextIn_inQueue]
        exact nextIn_mem hy
      · rw [nextIn_inQueue] at hy
        exact hsub y (hround.1 y hy)
      · have hne : y ≠ x := fun heq => hy (heq ▸ hx)
        exact (hround.2 y hne).trans (hsame y hy))
    (by
      refine ⟨fun y hy => ?_, fun y hy => ?_, fun y _ => rfl⟩
      · rw [setQueue_inQueue, if_pos rfl]
        exact List.mem_of_mem_head? hy
      · rw [setQueue_inQueue, if_pos rfl] at hy
        exact hy) hs
  exact hloop.2.2

/-- A waking loop that marks nobody. -/
theorem wakeLoop_passive {isDue : TaskSystem → Nat → Bool} (hs : wakeLoop i isDue id S = .ok S') :
    AllPassive S S' :=
  whileItem_keeps (fun _ T => AllPassive S T)
    (fun x T T' hinv hbody => by
      have hround : AllPassive T T' := by
        by_cases hd : isDue T x = true
        · rw [if_pos hd, modify_id] at hbody
          exact taskAwake_passive hbody
        · rw [if_neg hd] at hbody
          exact Except.ok.inj hbody ▸ AllPassive.refl T
      exact (hinv.trans hround).trans (AllPassive.setQueue _))
    (AllPassive.setQueue _) hs

/-- The second half of the dispatcher's loop. -/
theorem dispatcherWake_passive {o : Option Nat} (hs : dispatcherWake S o = .ok S') :
    AllPassive S S' ∧ ∀ y, y ∉ S.inQueue .sleeping → S'.task y = S.task y := by
  unfold dispatcherWake at hs
  split at hs
  · exact absurd hs (by simp)
  · exact ⟨wakeLoop_passive hs, wakeLoop_others hs (by decide)⟩

/-- **The rule of `sem_destroy`.**  What holds once the semaphore is marked and is kept
when the head of the wait queue is woken and removed, holds at the end. -/
theorem semDestroy_rule {x x' : Semaphore} (inv : Option Nat → Semaphore × TaskSystem → Prop)
    (hstart : inv x.waitQueue.items.head?
      ({ x with lock := false, destroy := true, waitQueue := (queueHead x.waitQueue).2 }, S))
    (hround : ∀ t y T T', inv (some t) (y, T) → taskAwake T (some t) = .ok T' →
      inv (queueDel y.waitQueue t).2.items.head?
        ({ y with lock := false, waitQueue := (queueHead (queueDel y.waitQueue t).2).2 }, T'))
    (hs : semDestroy x S = .ok (x', S')) : inv none (x', S') := by
  have hlock : ∀ {y y₁ : Semaphore}, spinLock y = .ok y₁ → y₁ = { y with lock := true } := by
    intro y y₁ hl
    unfold spinLock at hl
    split at hl
    · exact absurd hl (by simp)
    · exact (Except.ok.inj hl).symm
  unfold semDestroy at hs
  obtain ⟨x₁, hl, hs⟩ := bind_eq_ok.mp hs
  obtain rfl := hlock hl
  refine whileItem_keeps inv (fun t r r' hinv hbody => ?_) hstart hs
  obtain ⟨y, T⟩ := r
  obtain ⟨y₁, hl', hbody⟩ := bind_eq_ok.mp hbody
  obtain rfl := hlock hl'
  obtain ⟨T', hawake, hbody⟩ := bind_eq_ok.mp hbody
  obtain rfl := Except.ok.inj hbody
  exact hround t y T T' hinv hawake

/-- **`sem_destroy`** touches only the tasks that wait. -/
theorem semDestroy_passive {x x' : Semaphore} (hs : semDestroy x S = .ok (x', S')) :
    AllPassive S S' ∧ ∀ y, y ∉ x.waitQueue.items → S'.task y = S.task y := by
  obtain ⟨-, -, hpassive, hsame⟩ := semDestroy_rule
    (fun o (r : Semaphore × TaskSystem) => o = r.1.waitQueue.items.head? ∧
      (∀ y ∈ r.1.waitQueue.items, y ∈ x.waitQueue.items) ∧ AllPassive S r.2 ∧
      ∀ y, y ∉ x.waitQueue.items → r.2.task y = S.task y)
    ⟨rfl, fun _ hy => hy, AllPassive.refl S, fun _ _ => rfl⟩
    (fun t y T T' hinv hawake => by
      obtain ⟨hhead, hsub, hpassive, hsame⟩ := hinv
      have ht : t ∈ y.waitQueue.items := List.mem_of_mem_head? hhead.symm
      refine ⟨rfl, fun z hz => ?_, hpassive.trans (taskAwake_passive hawake), fun z hz => ?_⟩
      · rw [queueHead_items, (queueDel_items ht).2] at hz
        exact hsub z (List.mem_of_mem_erase hz)
      · have hne : z ≠ t := fun heq => hz (heq ▸ hsub t ht)
        exact (taskAwake_task hawake hne).trans (hsame z hz)) hs
  exact ⟨hpassive, hsame⟩

/-- **`sem_destroy`** leaves a destroyed semaphore of the same value that nobody waits
for. -/
theorem semDestroy_result {x x' : Semaphore} (hs : semDestroy x S = .ok (x', S')) :
    x'.destroy = true ∧ x'.value = x.value ∧ x'.waitQueue.items = [] := by
  obtain ⟨hd, hv, hhead⟩ := semDestroy_rule
    (fun o (r : Semaphore × TaskSystem) => r.1.destroy = true ∧ r.1.value = x.value ∧
      o = r.1.waitQueue.items.head?)
    ⟨rfl, rfl, rfl⟩ (fun _ _ _ _ hinv _ => ⟨hinv.1, hinv.2.1, rfl⟩) hs
  exact ⟨hd, hv, List.head?_eq_none_iff.mp hhead.symm⟩

/-- **`scheduler`** changes only priorities. -/
theorem scheduler_passive {o : Option Nat} (hs : scheduler S = .ok (o, S')) :
    AllPassive S S' :=
  scheduler_rule (AllPassive S) (fun _ _ hT _ => hT.trans (AllPassive.setQueue _))
    (fun _ _ _ hT => hT.trans (AllPassive.modify ⟨rfl, Or.inl rfl⟩)) (AllPassive.refl S) hs

/-! ## The tick -/

/-- **A tick** counts down the quantum of the running task, which yields with its last. -/
theorem tick_task (ht : t ≠ 0) : (handleTimerSignal S).task t =
    if t ≠ S.currentActiveTask then S.task t
    else if (S.task t).remainingQuantumTime = 1 then
      { S.task t with
        executionTime := addInt (S.task t).executionTime quantum
        remainingQuantumTime := quantum
        status := .ready }
    else { S.task t with remainingQuantumTime := (S.task t).remainingQuantumTime - 1 } := by
  obtain ⟨c, hc⟩ : ∃ c, S.currentActiveTask = c := ⟨_, rfl⟩
  have hiff : (S.task c).remainingQuantumTime - 1 = 0 ↔
      (S.task c).remainingQuantumTime = 1 := by omega
  unfold handleTimerSignal
  simp only [hc, modify_task, modify_currentActiveTask, Function.update_self, hiff]
  by_cases hq : (S.task c).remainingQuantumTime = 1
  · rw [if_pos hq]
    by_cases htc : t = c
    · subst htc
      simp [taskYield, show t ≠ taskKernel from ht, toKernel_task ht, hq]
    · have hyield : ∀ S₁ : TaskSystem, S₁.currentActiveTask = c → S₁.task t = S.task t →
          (taskYield S₁).task t = S.task t := by
        intro S₁ hc₁ ht₁
        unfold taskYield
        by_cases hc0 : c = taskKernel
        · simp only [hc₁, if_pos hc0, taskSwitch]
          split <;> simp [Function.update_of_ne htc, ht₁]
        · simp only [hc₁, if_neg hc0]
          rw [toKernel_task ht]
          simp [Function.update_of_ne htc, ht₁]
      rw [if_pos htc]
      exact hyield _ rfl (by simp [Function.update_of_ne htc])
  · rw [if_neg hq]
    by_cases htc : t = c
    · subst htc
      simp [hq]
    · simp [htc]

/-- A tick in the kernel. -/
theorem tick_task_kernel : ((handleTimerSignal S).task 0).executionTime =
      (if S.currentActiveTask = 0 ∧ (S.task 0).remainingQuantumTime = 1 then
        addInt (S.task 0).executionTime quantum else (S.task 0).executionTime) ∧
    ((handleTimerSignal S).task 0).remainingQuantumTime =
      (if S.currentActiveTask = 0 then
        if (S.task 0).remainingQuantumTime = 1 then quantum
        else (S.task 0).remainingQuantumTime - 1
      else (S.task 0).remainingQuantumTime) := by
  obtain ⟨c, hc⟩ : ∃ c, S.currentActiveTask = c := ⟨_, rfl⟩
  have hiff : (S.task c).remainingQuantumTime - 1 = 0 ↔
      (S.task c).remainingQuantumTime = 1 := by omega
  unfold handleTimerSignal
  simp only [hc, modify_task, modify_currentActiveTask, Function.update_self, hiff]
  by_cases hc0 : c = 0
  · subst hc0
    by_cases hq : (S.task 0).remainingQuantumTime = 1
    · simp [hq, taskYield, taskKernel, taskSwitch]
    · simp [hq]
  · by_cases hq : (S.task c).remainingQuantumTime = 1
    · have hyield : ∀ S₁ : TaskSystem, S₁.currentActiveTask = c → S₁.task 0 = S.task 0 →
          (taskYield S₁).task 0 = { S.task 0 with
            numberOfActivations := (S.task 0).numberOfActivations + 1 } := by
        intro S₁ hc₁ ht₁
        unfold taskYield
        simp only [hc₁]
        rw [if_neg (show ¬ c = taskKernel from hc0), toKernel_task_kernel]
        simp [Function.update_of_ne (Ne.symm hc0), ht₁]
      rw [if_pos hq, hyield _ rfl (by simp [Function.update_of_ne (Ne.symm hc0)])]
      simp [hc0]
    · simp [hq, hc0, Function.update_of_ne (Ne.symm hc0)]

/-- After a tick the same task has the CPU, unless it was its last. -/
theorem tick_current (hk : (S.task 0).status = .ready) :
    (handleTimerSignal S).currentActiveTask =
      if (S.task S.currentActiveTask).remainingQuantumTime = 1 then 0
      else S.currentActiveTask := by
  obtain ⟨c, hc⟩ : ∃ c, S.currentActiveTask = c := ⟨_, rfl⟩
  have hiff : (S.task c).remainingQuantumTime - 1 = 0 ↔
      (S.task c).remainingQuantumTime = 1 := by omega
  unfold handleTimerSignal
  simp only [hc, modify_task, modify_currentActiveTask, Function.update_self, hiff]
  by_cases hq : (S.task c).remainingQuantumTime = 1
  · rw [if_pos hq, if_pos hq]
    by_cases hc0 : c = 0
    · subst hc0
      simp [taskYield, taskSwitch, taskKernel]
    · apply Leaves.current (leaves_taskYield _ hc0)
      simp [Function.update_of_ne (Ne.symm hc0), hk]
  · rw [if_neg hq, if_neg hq]
    rfl

theorem toKernel_currentTaskId (S : TaskSystem) :
    (toKernel S).currentTaskId = S.currentTaskId := by
  simp only [toKernel, taskSwitch]
  split <;> rfl

theorem tick_currentTaskId (S : TaskSystem) :
    (handleTimerSignal S).currentTaskId = S.currentTaskId := by
  unfold handleTimerSignal taskYield
  simp only [taskSwitch]
  split
  · split
    · split <;> rfl
    · rw [toKernel_currentTaskId]
      rfl
  · rfl

/-! ## `task_exit` -/

/-- What the exit of another task with the code `code` may do: nothing, hand the code
over, or hand it over and wake. -/
structure Exited (code : Int) (b b' : Tcb) : Prop where
  fields : b' = { b with
    status := b'.status, sleeping := b'.sleeping, targetExitCode := b'.targetExitCode }
  status : b'.status = b.status ∨
    (b.status = .suspended ∧ b'.status = .ready ∧ b'.targetExitCode = code)

/-- One round of the loop of `task_exit`, over the task `x`. -/
theorem exitLoop_round {code : Int} {b : Tcb} {x : Nat}
    (hs : taskAwake (T.modify x fun b => { b with targetExitCode := code }) (some x) = .ok S')
    (hb : Exited code b (T.task x)) : Exited code b (S'.task x) := by
  have hmarked : (T.modify x fun b => { b with targetExitCode := code }).task x =
      { T.task x with targetExitCode := code } := by
    rw [modify_task, Function.update_self]
  have hcase : S'.task x = { T.task x with targetExitCode := code } ∨
      ((T.task x).status = .suspended ∧ S'.task x =
        { T.task x with targetExitCode := code, sleeping := false, status := .ready }) := by
    rcases taskAwake_ok hs with rfl | ⟨hsusp, j, q, -, -, rfl⟩
    · exact Or.inl hmarked
    · right
      rw [hmarked] at hsusp
      refine ⟨hsusp, ?_⟩
      simp
  have hfields := hb.fields
  rcases hcase with heq | ⟨hsusp, heq⟩
  · refine ⟨?_, ?_⟩
    · rw [heq, hfields]
    · rw [heq]
      rcases hb.status with hsame | ⟨hwas, his, -⟩
      · exact Or.inl hsame
      · exact Or.inr ⟨hwas, his, rfl⟩
  · refine ⟨?_, Or.inr ⟨?_, ?_, ?_⟩⟩
    · rw [heq, hfields]
    · rcases hb.status with hsame | ⟨hwas, -, -⟩
      · exact hsame ▸ hsusp
      · exact hwas
    · rw [heq]
    · rw [heq]

/-- **The loop of `task_exit`**: it touches only tasks that wait for the running one, and
hands the code to whom it wakes. -/
theorem exitLoop_exited {code : Int}
    (hs : wakeLoop .suspended
      (fun S t => decide ((S.task t).targetToWait = (S.task S.currentActiveTask).id))
      (fun b => { b with targetExitCode := code }) S = .ok S') :
    S'.currentActiveTask = S.currentActiveTask ∧ ∀ y, Exited code (S.task y) (S'.task y) ∧
      ((S.task y).targetToWait ≠ (S.task S.currentActiveTask).id → S'.task y = S.task y) := by
  have hloop := whileItem_keeps
    (fun _ T => T.currentActiveTask = S.currentActiveTask ∧
      ∀ y, Exited code (S.task y) (T.task y) ∧
        ((S.task y).targetToWait ≠ (S.task S.currentActiveTask).id → T.task y = S.task y))
    (fun x T T' hinv hbody => by
      obtain ⟨hcur, hall⟩ := hinv
      by_cases hd : (T.task x).targetToWait = (T.task T.currentActiveTask).id
      · rw [if_pos (decide_eq_true hd)] at hbody
        have htargets : (S.task x).targetToWait = (S.task S.currentActiveTask).id := by
          have h1 := (hall x).1.fields
          have h2 := (hall S.currentActiveTask).1.fields
          rw [hcur, h1, h2] at hd
          exact hd
        refine ⟨(taskAwake_passive hbody).current.trans hcur, fun y => ?_⟩
        by_cases hy : y = x
        · subst hy
          have hround : Exited code (S.task y) (T'.task y) := exitLoop_round hbody (hall y).1
          exact ⟨hround, fun hne => absurd htargets hne⟩
        · have hsame : T'.task y = T.task y := by
            rw [taskAwake_task hbody hy, modify_task, Function.update_of_ne hy]
          change Exited code _ (T'.task y) ∧ (_ → T'.task y = _)
          rw [hsame]
          exact hall y
      · rw [if_neg (by simpa using hd)] at hbody
        obtain rfl := Except.ok.inj hbody
        exact ⟨hcur, hall⟩)
    (by exact ⟨rfl, fun y => ⟨⟨rfl, Or.inl rfl⟩, fun _ => rfl⟩⟩) hs
  exact hloop

/-- The running task has exited with `code`: it is finished and charged, and the others
are touched only if they wait for it. -/
structure TaskExits (S S' : TaskSystem) (code : Int) : Prop where
  finished : (S'.task S.currentActiveTask).status = .finished
  exitCode : (S'.task S.currentActiveTask).exitCode = code
  executionTime : (S'.task S.currentActiveTask).executionTime =
    addInt (S.task S.currentActiveTask).executionTime
      (quantum - (S.task S.currentActiveTask).remainingQuantumTime)
  kernel : (S'.task 0).executionTime = (S.task 0).executionTime ∧
    (S'.task 0).remainingQuantumTime = (S.task 0).remainingQuantumTime
  others : ∀ y, y ≠ S.currentActiveTask → y ≠ 0 → Exited code (S.task y) (S'.task y) ∧
    ((S.task y).targetToWait ≠ (S.task S.currentActiveTask).id → S'.task y = S.task y)

/-- **`task_exit`**, seen from the tasks. -/
theorem taskExit_exits {code : Int} (hs : taskExit S code = .ok S')
    (hc : S.currentActiveTask ≠ 0) : TaskExits S S' code := by
  obtain ⟨c, hcur⟩ : ∃ c, S.currentActiveTask = c := ⟨_, rfl⟩
  let S₁ := S.modify c (Tcb.exited code)
  have hS₁c : S₁.task c = (S.task c).exited code := by simp [S₁]
  have hS₁ : ∀ y, y ≠ c → S₁.task y = S.task y := fun y hy => by
    simp [S₁, Function.update_of_ne hy]
  obtain ⟨T, hloop, hS'⟩ := taskExit_ok hs hc
  rw [hcur] at hloop hS'
  obtain ⟨-, hall⟩ := exitLoop_exited hloop
  have hS₁cur : S₁.currentActiveTask = c := hcur
  rw [show S.modify c (Tcb.exited code) = S₁ from rfl, hS₁cur, hS₁c] at hall
  have htask : ∀ y, y ≠ 0 → S'.task y = T.task y := by
    intro y hy
    rw [hS']
    exact toKernel_task hy
  have hcT := (hall c).1.fields
  rw [hS₁c] at hcT
  have hcstatus : (T.task c).status = .finished := by
    rcases (hall c).1.status with hst | ⟨hst, -, -⟩
    · rw [hst, hS₁c]
      rfl
    · rw [hS₁c] at hst
      exact absurd hst (by simp [Tcb.exited])
  have hk₁ : S₁.task 0 = S.task 0 := hS₁ 0 (fun heq => hc (hcur.trans heq.symm))
  have hk := (hall 0).1.fields
  rw [hk₁] at hk
  constructor
  · rw [htask _ hc, hcur]
    exact hcstatus
  · rw [htask _ hc, hcur, hcT]
    rfl
  · rw [htask _ hc, hcur, hcT]
    rfl
  · rw [hS', toKernel_task_kernel]
    change (T.task 0).executionTime = _ ∧ (T.task 0).remainingQuantumTime = _
    rw [hk]
    exact ⟨rfl, rfl⟩
  · intro y hyc hy0
    rw [hcur] at hyc ⊢
    have hy := hall y
    rw [hS₁ y hyc] at hy
    rw [htask y hy0]
    exact hy

end PingPongOS
