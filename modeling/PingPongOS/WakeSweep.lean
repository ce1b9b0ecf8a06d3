import PingPongOS.Dispatcher
import PingPongOS.SkippingSweep

/-!
# What the waking loops wake

The loops of `task_exit` and of the dispatcher walk a queue with its iterator and call
`task_awake` on the tasks that are due.  `queue_del` inside `task_awake` moves the
iterator to the next node when it stands on the one deleted, and `queue_next` then moves
it once more: the task after each woken one is skipped.  So the loops wake every due task
if and only if no two due tasks are neighbours in the queue.
-/

namespace PingPongOS

open TaskSystem SkippingSweep

/-- The status and the sleeping flag with which a task waits in the queue `i`. -/
def WaitsIn (i : QueueId) (b : Tcb) : Prop :=
  b.status = .suspended ∧ b.sleeping = decide (i = .sleeping)

instance (i : QueueId) (b : Tcb) : Decidable (WaitsIn i b) := by
  unfold WaitsIn
  infer_instance

/-- The descriptor of a task that a waking loop has marked and woken. -/
def Tcb.roused (mark : Tcb → Tcb) (b : Tcb) : Tcb :=
  { mark b with sleeping := false, status := .ready }

/-- The tasks `ws` have been taken out of the queue `i`, marked, and put at the end of
`ready_queue`; nothing else has changed, but for the place of the iterator. -/
structure Roused (i : QueueId) (mark : Tcb → Tcb) (S T : TaskSystem) (ws : List Nat) :
    Prop where
  task : ∀ t, T.task t = if t ∈ ws then (S.task t).roused mark else S.task t
  ready : T.inQueue .ready = S.inQueue .ready ++ ws
  queues : ∀ j, j ≠ i → j ≠ .ready → T.queue j = S.queue j
  currentTaskId : T.currentTaskId = S.currentTaskId
  current : T.currentActiveTask = S.currentActiveTask
  clock : T.clock = S.clock

/-- A test that reads the descriptor of the task, the clock and the id of the running
task. -/
def Local (isDue : TaskSystem → Nat → Bool) : Prop :=
  ∀ S T t, T.task t = S.task t → T.clock = S.clock →
    (T.task T.currentActiveTask).id = (S.task S.currentActiveTask).id → isDue T t = isDue S t

variable {S T : TaskSystem} {i : QueueId} {mark : Tcb → Tcb} {isDue : TaskSystem → Nat → Bool}
  {ws passed rest : List Nat} {t : Nat}

/-- Moving the iterator changes no contents. -/
theorem Roused.walk (h : Roused i mark S T ws) (hi : i ≠ .ready) (q : Queue Nat) :
    Roused i mark S (T.setQueue i q) ws := by
  refine ⟨h.task, ?_, fun j hji hjr => ?_, h.currentTaskId, h.current, h.clock⟩
  · rw [setQueue_inQueue, if_neg hi.symm]
    exact h.ready
  · rw [setQueue_queue, Function.update_of_ne hji]
    exact h.queues j hji hjr

/-- `task_awake` on a task that waits under the iterator of the queue `i`. -/
theorem Roused.wake (h : Roused i mark S T ws) (hi : i = .suspended ∨ i = .sleeping)
    (hq : T.queue i = ⟨passed, t :: rest⟩) (ht : t ∉ passed) (hws : t ∉ ws)
    (hmark : ∀ b, (mark b).status = b.status ∧ (mark b).sleeping = b.sleeping)
    (hwait : WaitsIn i (S.task t)) :
    ∃ U, taskAwake (T.modify t mark) (some t) = .ok U ∧ U.queue i = ⟨passed, rest⟩ ∧
      Roused i mark S U (ws ++ [t]) := by
  have hready : i ≠ .ready := by
    rintro rfl
    exact absurd hi (by decide)
  have htask : T.task t = S.task t := by rw [h.task, if_neg hws]
  have hself : (T.modify t mark).task t = mark (S.task t) := by
    rw [modify_task, Function.update_self, htask]
  have hstatus : ((T.modify t mark).task t).status = .suspended := by
    rw [hself, (hmark _).1]
    exact hwait.1
  have hqueue : (if ((T.modify t mark).task t).sleeping = true then QueueId.sleeping
      else .suspended) = i := by
    rw [hself, (hmark _).2, hwait.2]
    rcases hi with rfl | rfl <;> rfl
  have hdel : queueDel (T.queue i) t = (noError, ⟨passed, rest⟩) := by
    rw [hq, queueDel, if_neg ht, if_pos List.mem_cons_self, List.erase_cons_head]
  let U₁ := ((T.modify t mark).setQueue i ⟨passed, rest⟩).modify t fun b =>
    { b with sleeping := false, status := .ready }
  refine ⟨U₁.setQueue .ready (queueAdd (U₁.queue .ready) t), ?_, ?_, ?_, ?_, fun j hji hjr => ?_,
    h.currentTaskId, h.current, h.clock⟩
  · rw [taskAwake, if_pos hstatus]
    simp only [hqueue, modify_queue, hdel, if_true]
    rfl
  · simp [U₁, hready]
  · intro y
    by_cases hy : y = t
    · subst hy
      simp [U₁, htask, Tcb.roused]
    · simp only [U₁, setQueue_task, modify_task, Function.update_of_ne hy, h.task,
        List.mem_append, List.mem_singleton, hy, or_false]
  · rw [setQueue_inQueue, if_pos rfl, queueAdd_items, ← List.append_assoc, ← h.ready]
    simp [U₁, inQueue, hready.symm]
  · simp [U₁, hji, hjr, h.queues j hji hjr]

/-- A `Local` test gives the same answer for a task that has not been woken. -/
theorem Roused.isDue_eq (h : Roused i mark S T ws) (hlocal : Local isDue)
    (hmark : ∀ b, (mark b).id = b.id) (hws : t ∉ ws) : isDue T t = isDue S t := by
  refine hlocal S T t ?_ h.clock ?_
  · rw [h.task, if_neg hws]
  · rw [h.current, h.task]
    split
    · exact hmark _
    · rfl

/-- `queue_next` with the iterator on an item. -/
theorem nextIn_cons {x : Nat} (hq : T.queue i = ⟨passed, x :: rest⟩) :
    T.nextIn i = (rest.head?, T.setQueue i ⟨passed ++ [x], rest⟩) := by
  rw [nextIn, hq]
  rfl

/-- `queue_next` past the end. -/
theorem nextIn_nil (hq : T.queue i = ⟨passed, []⟩) :
    T.nextIn i = (none, T.setQueue i ⟨passed, []⟩) := by
  rw [nextIn, hq]
  rfl

/-- **A waking loop from any item on** wakes what a skipping sweep picks. -/
theorem Roused.loop (hi : i = .suspended ∨ i = .sleeping) (hlocal : Local isDue)
    (hmark : ∀ b, (mark b).status = b.status ∧ (mark b).sleeping = b.sleeping ∧
      (mark b).id = b.id) {rest passed ws : List Nat} {T : TaskSystem} {budget : Nat}
    (hbudget : rest.length ≤ budget) (h : Roused i mark S T ws)
    (hq : T.queue i = ⟨passed, rest⟩) (hnodup : (passed ++ rest).Nodup)
    (hws : ∀ t ∈ rest, t ∉ ws) (hwait : ∀ t ∈ rest, WaitsIn i (S.task t)) :
    ∃ U, whileItem .endlessLoop (fun S => S.nextIn i)
        (fun S t => if isDue S t then taskAwake (S.modify t mark) (some t) else .ok S)
        budget rest.head? T = .ok U ∧
      U.inQueue i = passed ++ left (isDue S) rest ∧
      Roused i mark S U (ws ++ picked (isDue S) rest) := by
  have hready : i ≠ .ready := by
    rintro rfl
    exact absurd hi (by decide)
  -- the test of the item under the iterator, and its removal if it is due
  have htest : ∀ {x : Nat} {rest ws : List Nat} {T : TaskSystem},
      Roused i mark S T ws → (∀ t ∈ x :: rest, t ∉ ws) → isDue T x = isDue S x :=
    fun h hws => h.isDue_eq hlocal (fun b => (hmark b).2.2) (hws _ List.mem_cons_self)
  have hwake : ∀ {x : Nat} {rest passed ws : List Nat} {T : TaskSystem},
      Roused i mark S T ws → T.queue i = ⟨passed, x :: rest⟩ → (passed ++ x :: rest).Nodup →
      (∀ t ∈ x :: rest, t ∉ ws) → (∀ t ∈ x :: rest, WaitsIn i (S.task t)) →
      ∃ U, taskAwake (T.modify x mark) (some x) = .ok U ∧ U.queue i = ⟨passed, rest⟩ ∧
        Roused i mark S U (ws ++ [x]) := by
    intro x rest passed ws T h hq hnodup hws hwait
    have hx : x ∉ passed := fun hmem =>
      (List.nodup_append.mp hnodup).2.2 x hmem x List.mem_cons_self rfl
    exact h.wake hi hq hx (hws x List.mem_cons_self)
      (fun b => ⟨(hmark b).1, (hmark b).2.1⟩) (hwait x List.mem_cons_self)
  induction rest using picked.induct (p := isDue S) generalizing passed ws T budget with
  | case1 =>
      refine ⟨T, ?_, ?_, ?_⟩
      · cases budget <;> rfl
      · simp [inQueue, hq, Queue.items, left]
      · simpa [picked] using h
  | case2 x hx =>
      obtain ⟨budget, rfl⟩ : ∃ n, budget = n + 1 := ⟨budget - 1, by simp at hbudget; omega⟩
      obtain ⟨U, hU, hUq, hUr⟩ := hwake h hq hnodup hws hwait
      refine ⟨U.setQueue i ⟨passed, []⟩, ?_, ?_, ?_⟩
      · rw [List.head?_cons, whileItem, if_pos ((htest h hws).trans hx), hU]
        change whileItem _ _ _ budget (U.nextIn i).1 (U.nextIn i).2 = _
        rw [nextIn_nil hUq]
        cases budget <;> rfl
      · rw [setQueue_inQueue, if_pos rfl, left, if_pos hx]
        rfl
      · rw [picked, if_pos hx]
        exact hUr.walk hready _
  | case3 x hx =>
      obtain ⟨budget, rfl⟩ : ∃ n, budget = n + 1 := ⟨budget - 1, by simp at hbudget; omega⟩
      refine ⟨T.setQueue i ⟨passed ++ [x], []⟩, ?_, ?_, ?_⟩
      · rw [List.head?_cons, whileItem, if_neg (by rw [htest h hws]; exact hx)]
        change whileItem _ _ _ budget (T.nextIn i).1 (T.nextIn i).2 = _
        rw [nextIn_cons hq]
        cases budget <;> rfl
      · rw [setQueue_inQueue, if_pos rfl, left, if_neg hx]
        simp [Queue.items]
      · rw [picked, if_neg hx, List.append_nil]
        exact h.walk hready _
  | case4 x y rest hx ih =>
      obtain ⟨budget, rfl⟩ : ∃ n, budget = n + 1 := ⟨budget - 1, by simp at hbudget; omega⟩
      obtain ⟨U, hU, hUq, hUr⟩ := hwake h hq hnodup hws hwait
      have hbudget' : rest.length ≤ budget := by
        simp only [List.length_cons] at hbudget
        omega
      have hnodup' : ((passed ++ [y]) ++ rest).Nodup := by
        rw [List.append_assoc, List.singleton_append]
        exact hnodup.sublist ((List.sublist_cons_self x _).append_left passed)
      obtain ⟨V, hV, hVi, hVr⟩ := ih hbudget' (hUr.walk hready ⟨passed ++ [y], rest⟩)
        (by simp) hnodup' (fun t ht => by
          have hne : t ≠ x := by
            rintro rfl
            have hmem : t ∈ y :: rest := List.mem_cons_of_mem y ht
            exact (List.nodup_cons.mp (List.nodup_append.mp hnodup).2.1).1 hmem
          simpa [hne] using hws t (by simp [ht]))
        fun t ht => hwait t (by simp [ht])
      refine ⟨V, ?_, ?_, ?_⟩
      · rw [List.head?_cons, whileItem, if_pos ((htest h hws).trans hx), hU]
        change whileItem _ _ _ budget (U.nextIn i).1 (U.nextIn i).2 = _
        rw [nextIn_cons hUq]
        exact hV
      · rw [hVi, left, if_pos hx, List.append_assoc]
        rfl
      · rw [picked, if_pos hx, ← List.singleton_append, ← List.append_assoc]
        exact hVr
  | case5 x y rest hx ih =>
      obtain ⟨budget, rfl⟩ : ∃ n, budget = n + 1 := ⟨budget - 1, by simp at hbudget; omega⟩
      have hbudget' : (y :: rest).length ≤ budget := by
        simp only [List.length_cons] at hbudget ⊢
        omega
      have hnodup' : ((passed ++ [x]) ++ y :: rest).Nodup := by
        rw [List.append_assoc, List.singleton_append]
        exact hnodup
      obtain ⟨V, hV, hVi, hVr⟩ := ih hbudget' (h.walk hready ⟨passed ++ [x], y :: rest⟩)
        (by simp) hnodup' (fun t ht => hws t (List.mem_cons_of_mem x ht))
        fun t ht => hwait t (List.mem_cons_of_mem x ht)
      refine ⟨V, ?_, ?_, ?_⟩
      · rw [List.head?_cons, whileItem, if_neg (by rw [htest h hws]; exact hx)]
        change whileItem _ _ _ budget (T.nextIn i).1 (T.nextIn i).2 = _
        rw [nextIn_cons hq]
        exact hV
      · rw [hVi, left, if_neg hx, List.append_assoc]
        rfl
      · rw [picked, if_neg hx]
        exact hVr

/-- **A waking loop** over tasks that all wait in its queue wakes what a skipping sweep
picks. -/
theorem wakeLoop_sweep (hi : i = .suspended ∨ i = .sleeping) (hlocal : Local isDue)
    (hmark : ∀ b, (mark b).status = b.status ∧ (mark b).sleeping = b.sleeping ∧
      (mark b).id = b.id)
    (hnodup : (S.inQueue i).Nodup) (hwait : ∀ t ∈ S.inQueue i, WaitsIn i (S.task t)) :
    ∃ U, wakeLoop i isDue mark S = .ok U ∧
      U.inQueue i = left (isDue S) (S.inQueue i) ∧
      Roused i mark S U (picked (isDue S) (S.inQueue i)) := by
  have hready : i ≠ .ready := by
    rintro rfl
    exact absurd hi (by decide)
  have hstart : Roused i mark S (S.setQueue i ⟨[], S.inQueue i⟩) [] := by
    refine Roused.walk ⟨fun t => ?_, ?_, fun _ _ _ => rfl, rfl, rfl, rfl⟩ hready _
    · rw [if_neg List.not_mem_nil]
    · rw [List.append_nil]
  have hq : (S.setQueue i ⟨[], S.inQueue i⟩).queue i = ⟨[], S.inQueue i⟩ := by simp
  have hloop := hstart.loop hi hlocal hmark (Nat.le_refl _) hq hnodup
    (fun _ _ => List.not_mem_nil) hwait
  exact hloop

/-! ## `task_exit` -/

/-- The task waits for the running one. -/
def joins (S : TaskSystem) (t : Nat) : Bool :=
  (S.task t).targetToWait = (S.task S.currentActiveTask).id

/-- The running task is not the kernel; it and the kernel are not in `suspended_queue`,
whose tasks are there once each, suspended and not sleeping. -/
structure ExitsIn (S : TaskSystem) : Prop where
  notKernel : S.currentActiveTask ≠ taskKernel
  outside : S.currentActiveTask ∉ S.inQueue .suspended ∧ taskKernel ∉ S.inQueue .suspended
  nodup : (S.inQueue .suspended).Nodup
  waiting : ∀ t ∈ S.inQueue .suspended, WaitsIn .suspended (S.task t)

/-- Exactly the tasks that wait for the running one have gone from `suspended_queue` to
the end of `ready_queue`, in their order, with the exit code; the others are unchanged. -/
structure JoinersWoken (S S' : TaskSystem) (exitCode : Int) : Prop where
  ready : S'.inQueue .ready = S.inQueue .ready ++ (S.inQueue .suspended).filter (joins S)
  suspended : S'.inQueue .suspended = (S.inQueue .suspended).filter fun t => !joins S t
  woken : ∀ t ∈ S.inQueue .suspended, joins S t = true →
    (S'.task t).status = .ready ∧ (S'.task t).targetExitCode = exitCode
  others : ∀ t ∈ S.inQueue .suspended, joins S t = false → S'.task t = S.task t

/-- What `task_exit` does to `suspended_queue` and `ready_queue`. -/
theorem taskExit_sweep (h : ExitsIn S) (exitCode : Int) :
    ∃ S', taskExit S exitCode = .ok S' ∧
      S'.inQueue .suspended = left (joins S) (S.inQueue .suspended) ∧
      S'.inQueue .ready = S.inQueue .ready ++ picked (joins S) (S.inQueue .suspended) ∧
      ∀ t ∈ S.inQueue .suspended, S'.task t =
        if t ∈ picked (joins S) (S.inQueue .suspended) then
          (S.task t).roused fun b => { b with targetExitCode := exitCode }
        else S.task t := by
  let S₁ := S.modify S.currentActiveTask fun b =>
    { b with
      executionTime := addInt b.executionTime (quantum - b.remainingQuantumTime)
      status := .finished
      exitCode := exitCode }
  have htask : ∀ t ∈ S.inQueue .suspended, S₁.task t = S.task t := fun t ht =>
    Function.update_of_ne (ne_of_mem_of_not_mem ht h.outside.1) _ _
  have hid : (S₁.task S₁.currentActiveTask).id = (S.task S.currentActiveTask).id := by
    simp [S₁]
  have hjoins : ∀ t ∈ S.inQueue .suspended, joins S₁ t = joins S t := by
    intro t ht
    rw [joins, joins, htask t ht, hid]
  obtain ⟨U, hU, hleft, hroused⟩ := @wakeLoop_sweep S₁ .suspended
    (fun b => { b with targetExitCode := exitCode }) joins (Or.inl rfl)
    (fun S T t htask _ hid => by rw [joins, joins, htask, hid]) (fun _ => ⟨rfl, rfl, rfl⟩)
    h.nodup (fun t ht => by rw [htask t ht]; exact h.waiting t ht)
  have hpicked : picked (joins S₁) (S₁.inQueue .suspended) =
      picked (joins S) (S.inQueue .suspended) := picked_congr hjoins
  rw [hpicked] at hroused
  refine ⟨toKernel (U.setQueue .finished (queueAdd (U.queue .finished) S.currentActiveTask)), ?_,
    ?_, ?_, fun t ht => ?_⟩
  · rw [taskExit, if_neg h.notKernel]
    change (wakeLoop .suspended joins _ S₁ >>= _) = _
    rw [hU]
    rfl
  · rw [inQueue, toKernel_queue]
    change (U.setQueue _ _).inQueue _ = _
    rw [setQueue_inQueue, if_neg (by decide), hleft]
    exact left_congr hjoins
  · rw [inQueue, toKernel_queue]
    change (U.setQueue _ _).inQueue _ = _
    rw [setQueue_inQueue, if_neg (by decide)]
    exact hroused.ready
  · rw [toKernel_task (ne_of_mem_of_not_mem ht h.outside.2), setQueue_task, hroused.task,
      htask t ht]

/-- Task 2 is running, and the tasks `xs` are suspended; those from 3 on wait for task
2. -/
def exiting (xs : List Nat) : TaskSystem :=
  { dispatcherInit with
    currentTaskId := 4
    currentActiveTask := 2
    task := fun t => { Tcb.zero with
      id := t
      status := if t = 0 then .ready else if t = 2 then .running else .suspended
      targetToWait := if 3 ≤ t then 2 else 0 }
    queue := fun i => if i = .suspended then ⟨[], xs⟩ else queueCreate }

/-- The sleeper's time has come. -/
def wakesUp (S : TaskSystem) (t : Nat) : Bool := (S.task t).wakeUpTime ≤ S.clock

/-- No task that is due is left in `sleeping_queue`; those that were due are ready and
not sleeping, in `ready_queue`; the others are unchanged and in order. -/
structure SleepersWoken (S S' : TaskSystem) : Prop where
  left : ∀ t ∈ S'.inQueue .sleeping, wakesUp S' t = false
  woken : ∀ t ∈ S.inQueue .sleeping, wakesUp S t = true →
    (S'.task t).status = .ready ∧ (S'.task t).sleeping = false ∧ t ∈ S'.inQueue .ready
  sleeping : S'.inQueue .sleeping = (S.inQueue .sleeping).filter fun t => !wakesUp S t
  others : ∀ t ∈ S.inQueue .sleeping, wakesUp S t = false → S'.task t = S.task t

/-- The kernel is running at time 10, and the tasks `xs` sleep; task 4 until time 20, the
others until time 10. -/
def sleepers (xs : List Nat) : TaskSystem :=
  { dispatcherInit with
    currentTaskId := 4
    clock := 10
    task := fun t => { Tcb.zero with
      id := t
      status := if t = 0 then .ready else .suspended
      sleeping := decide (t ≠ 0)
      wakeUpTime := if t = 4 then 20 else 10 }
    queue := fun i => if i = .sleeping then ⟨[], xs⟩ else queueCreate }

end PingPongOS
