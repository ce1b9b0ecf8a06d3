import PingPongOS.PreemptiveSteps
import PingPongOS.TaskSeats

/-!
# Waking tasks

`task_awake` moves a suspended task from the queue it is in to `ready_queue`, and
does nothing to any other task.  The loops of `task_exit` and of the dispatcher
wake tasks while they walk the queue those are taken from; whatever they wake, each
task keeps a seat, and no `queue_del` fails.
-/

namespace PingPongOS

open TaskSystem

variable {S S' T T' : TaskSystem} {x t c : Nat} {i j : QueueId} {out : Option Nat}
  {due : Nat → Prop}

/-- Task `x` has been moved from the queue of its status to `ready_queue`. -/
structure Woken (S S' : TaskSystem) (x : Nat) : Prop where
  was : (S.task x).status = .suspended
  status : (S'.task x).status = .ready
  sleeping : (S'.task x).sleeping = false
  occurs : ∀ i, S'.occurs i x + (if home (S.task x) = some i then 1 else 0) =
    S.occurs i x + if i = .ready then 1 else 0

/-- The fields of a descriptor that waking a task leaves alone. -/
def SameButWoken (b b' : Tcb) : Prop :=
  b' = { b with
    status := b'.status, sleeping := b'.sleeping, targetExitCode := b'.targetExitCode }

/-- Some of the tasks that are `due` have been woken, and nothing else happened. -/
structure Wakes (due : Nat → Prop) (S S' : TaskSystem) : Prop where
  current : S'.currentActiveTask = S.currentActiveTask
  currentTaskId : S'.currentTaskId = S.currentTaskId
  clock : S'.clock = S.clock
  fields : ∀ y, SameButWoken (S.task y) (S'.task y)
  seats : ∀ y, SameSeat S S' y ∨ (due y ∧ Woken S S' y)

theorem Wakes.refl (due : Nat → Prop) (S : TaskSystem) : Wakes due S S :=
  ⟨rfl, rfl, rfl, fun _ => rfl, fun y => Or.inl (SameSeat.refl S y)⟩

theorem SameButWoken.trans {b b' b'' : Tcb} (h : SameButWoken b b') (h' : SameButWoken b' b'') :
    SameButWoken b b'' := by
  unfold SameButWoken at *
  rw [h', h]

/-- Waking changes no task's id, nor what it waits for or until when. -/
theorem SameButWoken.ids {b b' : Tcb} (h : SameButWoken b b') :
    b'.id = b.id ∧ b'.targetToWait = b.targetToWait ∧ b'.wakeUpTime = b.wakeUpTime := by
  rw [h]
  exact ⟨rfl, rfl, rfl⟩

theorem SameSeat.woken (h : SameSeat S T x) (h' : Woken T S' x) : Woken S S' x := by
  have hhome : home (T.task x) = home (S.task x) := by
    unfold home
    rw [h.status, h.sleeping]
  refine ⟨h.status ▸ h'.was, h'.status, h'.sleeping, fun i => ?_⟩
  rw [← hhome, h'.occurs, h.occurs]

theorem Woken.same (h : Woken S T x) (h' : SameSeat T S' x) : Woken S S' x := by
  refine ⟨h.was, h'.status.trans h.status, h'.sleeping.trans h.sleeping, fun i => ?_⟩
  rw [h'.occurs, h.occurs]

/-- A task that has been woken has left its seat. -/
theorem Woken.moved (h : Woken S S' x) : ¬ SameSeat S S' x := by
  intro hs
  have hsame := hs.status
  rw [h.status, h.was] at hsame
  exact absurd hsame (by decide)

/-- A task that has been woken is not woken again. -/
theorem Wakes.trans (h : Wakes due S T) (h' : Wakes due T S') : Wakes due S S' := by
  refine ⟨h'.current.trans h.current, h'.currentTaskId.trans h.currentTaskId,
    h'.clock.trans h.clock, fun y => (h.fields y).trans (h'.fields y), fun y => ?_⟩
  rcases h.seats y with hs | ⟨hd, hw⟩
  · rcases h'.seats y with hs' | ⟨hd', hw'⟩
    · exact Or.inl (hs.trans hs')
    · exact Or.inr ⟨hd', hs.woken hw'⟩
  · rcases h'.seats y with hs' | ⟨-, hw'⟩
    · exact Or.inr ⟨hd, hw.same hs'⟩
    · have := hw'.was
      rw [hw.status] at this
      exact absurd this (by decide)

theorem Wakes.mono {due' : Nat → Prop} (h : Wakes due S S') (hd : ∀ y, due y → due' y) :
    Wakes due' S S' :=
  ⟨h.current, h.currentTaskId, h.clock, h.fields,
    fun y => (h.seats y).imp_right fun hw => ⟨hd y hw.1, hw.2⟩⟩

/-! ## Waking keeps the seats -/

theorem Seated.woken (h : Seated S x) (hw : Woken S S' x)
    (hcur : S'.currentActiveTask = S.currentActiveTask) : Seated S' x := by
  have hhome : home (S'.task x) = some .ready := by
    unfold home
    rw [hw.status]
  refine ⟨fun j => ?_, ?_, fun _ => hw.sleeping⟩
  · have := hw.occurs j
    rw [h.occurs] at this
    rw [hhome]
    simp only [Option.some.injEq, eq_comm] at this ⊢
    omega
  · rw [hw.status, hcur, ← h.running, hw.was]
    decide

/-- Waking the disk manager from its own suspension. -/
theorem ManagerSeat.woken (h : ManagerSeat S) (hw : Woken S S' 1)
    (hcur : S'.currentActiveTask = S.currentActiveTask) (hblocked : S.occurs .ready 1 = 0) :
    ManagerSeat S' := by
  have hhome : home (S.task 1) = some .suspended := by
    unfold home
    rw [hw.was, h.awake]
    rfl
  have hready := hw.occurs .ready
  have hsusp := hw.occurs .suspended
  have hsleep := hw.occurs .sleeping
  have hfin := hw.occurs .finished
  have htwo := h.whenSuspended hw.was
  have helse := h.elsewhere
  simp only [hhome, Option.some.injEq, reduceCtorEq, if_false, if_true] at hready hsusp hsleep hfin
  refine ⟨?_, hw.sleeping, ?_, by omega, ?_, fun _ => by omega, ?_⟩
  · rw [hw.status, hcur, ← h.running, hw.was]
    decide
  · rw [hw.status]
    decide
  · rw [hw.status]
    exact fun heq => absurd heq (by decide)
  · rw [hw.status]
    exact fun heq => absurd heq (by decide)

/-- **Waking tasks keeps every seat.** -/
theorem SysInv.wakes (h : SysInv out S) (hw : Wakes due S S')
    (hdue : ∀ y, due y → some y ≠ out ∧ y ≤ S.currentTaskId)
    (hmanager : due 1 → S.occurs .ready 1 = 0) : SysInv out S' := by
  refine ⟨fun y hy hlo hhi => ?_, ?_, ?_, fun i => ?_, fun y hy i => ?_, ?_, ?_⟩
  · rw [hw.currentTaskId] at hhi
    rcases hw.seats y with hs | ⟨-, hwoken⟩
    · exact (h.users y hy hlo hhi).congr hs (by rw [hw.current])
    · exact (h.users y hy hlo hhi).woken hwoken hw.current
  · rcases hw.seats 1 with hs | ⟨hd, hwoken⟩
    · exact h.manager.congr hs (by rw [hw.current])
    · exact h.manager.woken hwoken hw.current (hmanager hd)
  · rcases hw.seats 0 with hs | ⟨-, hwoken⟩
    · rw [hs.status]
      exact h.kernelReady
    · exact hwoken.status
  · rcases hw.seats 0 with hs | ⟨-, hwoken⟩
    · rw [hs.occurs]
      exact h.kernelQueues i
    · exact absurd (h.kernelReady.symm.trans hwoken.was) (by decide)
  · rw [hw.currentTaskId] at hy
    rcases hw.seats y with hs | ⟨hd, -⟩
    · rw [hs.occurs]
      exact h.fresh y hy i
    · exact absurd (hdue y hd).2 (by omega)
  · rw [hw.current, hw.currentTaskId]
    exact h.current
  · rw [hw.currentTaskId]
    exact h.booted

/-! ## `task_awake` -/

/-- Where `task_awake` looks for a suspended task is its home. -/
theorem home_suspended {b : Tcb} (h : b.status = .suspended) :
    home b = some (if b.sleeping then .sleeping else .suspended) := by
  unfold home
  rw [h]

/-- `task_awake` does nothing to a task that is not suspended. -/
theorem taskAwake_of_not_suspended (h : (S.task t).status ≠ .suspended) :
    taskAwake S (some t) = .ok S := by
  rw [taskAwake]
  exact if_neg h

/-- **`task_awake`** on a suspended task that is in its queue wakes it. -/
theorem taskAwake_suspended (hs : (S.task t).status = .suspended)
    (hin : ∀ i, home (S.task t) = some i → 0 < S.occurs i t) :
    ∃ S', taskAwake S (some t) = .ok S' ∧ Wakes (· = t) S S' ∧ Woken S S' t ∧
      (S'.task t).targetExitCode = (S.task t).targetExitCode ∧
      ∀ i, i ≠ .ready → (S'.queue i).rest.length ≤ (S.queue i).rest.length := by
  have hhome := home_suspended hs
  obtain ⟨hret, hdel⟩ := occurs_del (hin _ hhome)
  let i := if (S.task t).sleeping then QueueId.sleeping else QueueId.suspended
  let S₁ := (S.setQueue i (queueDel (S.queue i) t).2).modify t fun b =>
    { b with sleeping := false, status := .ready }
  let S₂ := S₁.setQueue .ready (queueAdd (S₁.queue .ready) t)
  have hawake : taskAwake S (some t) = .ok S₂ := by
    rw [taskAwake, if_pos hs]
    exact if_pos hret
  have hi : i ≠ .ready := by
    simp only [i]
    split <;> decide
  have hoccurs : ∀ j y, S₂.occurs j y =
      (S.occurs j y - if j = i ∧ y = t then 1 else 0) +
        if j = .ready ∧ y = t then 1 else 0 := by
    intro j y
    rw [occurs_add, occurs_modify, hdel]
  have hwoken : Woken S S₂ t := by
    refine ⟨hs, by simp [S₂, S₁], by simp [S₂, S₁], fun j => ?_⟩
    have hpos := hin _ hhome
    rw [hoccurs, hhome]
    by_cases hj : j = i
    · subst hj
      simp only [hi, i, if_true, and_true, if_false] at hpos ⊢
      simp
      omega
    · have hne : ¬ (if (S.task t).sleeping = true then QueueId.sleeping
          else QueueId.suspended) = j := fun heq => hj heq.symm
      simp [hj, hne]
  have hother : ∀ y, y ≠ t → SameSeat S S₂ y := by
    intro y hy
    refine ⟨?_, ?_, fun j => ?_⟩
    · simp [S₂, S₁, Function.update_of_ne hy]
    · simp [S₂, S₁, Function.update_of_ne hy]
    · rw [hoccurs, if_neg fun h => hy h.2, if_neg fun h => hy h.2]
      omega
  refine ⟨S₂, hawake, ⟨rfl, rfl, rfl, fun y => ?_, fun y => ?_⟩, hwoken, by simp [S₂, S₁], ?_⟩
  · by_cases hy : y = t
    · subst hy
      simp [S₂, S₁, SameButWoken]
    · simp [S₂, S₁, Function.update_of_ne hy, SameButWoken]
  · by_cases hy : y = t
    · subst hy
      exact Or.inr ⟨rfl, hwoken⟩
    · exact Or.inl (hother y hy)
  · intro j hj
    simp only [S₂, S₁, setQueue_queue, modify_queue, Function.update_of_ne hj]
    by_cases hji : j = i
    · subst hji
      rw [Function.update_self]
      exact queueDel_rest_le _ _
    · rw [Function.update_of_ne hji]

/-! ## The loops that wake -/

/-- Moving an iterator wakes nobody. -/
theorem wakes_walk {q : Queue Nat} (hq : q.items = S.inQueue i) :
    Wakes due S (S.setQueue i q) :=
  ⟨rfl, rfl, rfl, fun _ => rfl, fun _ => Or.inl ⟨rfl, rfl, fun _ => occurs_walk hq⟩⟩

/-- Recording an exit code wakes nobody. -/
theorem wakes_mark {mark : Tcb → Tcb}
    (hmark : ∀ b, mark b = { b with targetExitCode := (mark b).targetExitCode }) :
    Wakes due S (S.modify t mark) := by
  refine ⟨rfl, rfl, rfl, fun y => ?_, fun y => Or.inl ⟨?_, ?_, fun _ => rfl⟩⟩
  · by_cases hy : y = t
    · subst hy
      rw [modify_task, Function.update_self, SameButWoken, hmark]
    · rw [modify_task, Function.update_of_ne hy, SameButWoken]
  · by_cases hy : y = t
    · subst hy
      rw [modify_task, Function.update_self, hmark]
    · rw [modify_task, Function.update_of_ne hy]
  · by_cases hy : y = t
    · subst hy
      rw [modify_task, Function.update_self, hmark]
    · rw [modify_task, Function.update_of_ne hy]

/-- The queue an iterator has moved on in has less ahead. -/
theorem nextIn_rest_lt (hrest : (T.queue i).rest.length ≤ (S.queue i).rest.length)
    (hne : (S.queue i).rest ≠ []) :
    (((T.nextIn i).2.queue i).rest).length < (S.queue i).rest.length := by
  have hpos := List.length_pos_iff.mpr hne
  simp only [nextIn, setQueue_queue, Function.update_self]
  cases hq : T.queue i with
  | mk passed rest =>
      rw [hq] at hrest
      cases rest with
      | nil => exact hpos
      | cons y rest =>
          simp only [List.length_cons] at hrest
          simp only [queueNext]
          omega

/-- One round of a waking loop: the iterator moves on, over a task that is not due or
that is woken. -/
theorem wakeLoop_round {isDue : TaskSystem → Nat → Bool} {mark : Tcb → Tcb}
    (hsys : ∀ T, Wakes due S T → SysInv out T) (hi : i ≠ .ready)
    (hmark : ∀ b, mark b = { b with targetExitCode := (mark b).targetExitCode })
    (hdue : ∀ T t, SysInv out T → Wakes due S T → t ∈ T.inQueue i → isDue T t = true → due t)
    (hseat : ∀ t, due t → some t ≠ out ∧ 2 ≤ t ∧ t ≤ S.currentTaskId)
    (hw : Wakes due S T) (hitem : some t = queueItem (T.queue i)) :
    ∃ T', (if isDue T t then taskAwake (T.modify t mark) (some t) else .ok T) = .ok T' ∧
      (Wakes due S (T'.nextIn i).2 ∧ (T'.nextIn i).1 = queueItem ((T'.nextIn i).2.queue i)) ∧
      ((T'.nextIn i).2.queue i).rest.length < (T.queue i).rest.length := by
  have hne : (T.queue i).rest ≠ [] := by
    intro hnil
    rw [queueItem, hnil] at hitem
    exact absurd hitem (by simp)
  have hnext : ∀ {T'}, Wakes due S T' →
      Wakes due S (T'.nextIn i).2 ∧ (T'.nextIn i).1 = queueItem ((T'.nextIn i).2.queue i) := by
    intro T' hw'
    refine ⟨hw'.trans (wakes_walk (queueNext_items _)), ?_⟩
    simp only [nextIn, setQueue_queue, Function.update_self]
    exact queueNext_fst _
  by_cases hd : isDue T t = true
  · have hmem : t ∈ T.inQueue i :=
      List.mem_append_right _ (List.mem_of_mem_head? (by rw [← queueItem]; exact hitem.symm))
    have htdue := hdue T t (hsys T hw) hw hmem hd
    obtain ⟨hout, hlo, hhi⟩ := hseat t htdue
    have hmarked : Wakes due S (T.modify t mark) := hw.trans (wakes_mark hmark)
    have htseat := (hsys _ hmarked).users t hout hlo (by rw [hmarked.currentTaskId]; exact hhi)
    rw [if_pos hd]
    by_cases hsusp : ((T.modify t mark).task t).status = .suspended
    · obtain ⟨T', hT', hw', -, -, hrest⟩ := taskAwake_suspended hsusp (by
        intro j hj
        rw [htseat.occurs, if_pos hj]
        exact Nat.one_pos)
      have hall := hmarked.trans (hw'.mono fun y hy => hy ▸ htdue)
      exact ⟨T', hT', hnext hall, nextIn_rest_lt (hrest i hi) hne⟩
    · exact ⟨T.modify t mark, taskAwake_of_not_suspended hsusp, hnext hmarked,
        nextIn_rest_lt (Nat.le_refl _) hne⟩
  · rw [if_neg hd]
    exact ⟨T, rfl, hnext hw, nextIn_rest_lt (Nat.le_refl _) hne⟩

/-- **A waking loop** over the queue `i` ends without a fault, and wakes only tasks
that are due: tasks with a seat, whatever the loop has woken before. -/
theorem wakeLoop_wakes {isDue : TaskSystem → Nat → Bool} {mark : Tcb → Tcb}
    (h : SysInv out S) (hi : i ≠ .ready)
    (hmark : ∀ b, mark b = { b with targetExitCode := (mark b).targetExitCode })
    (hdue : ∀ T t, SysInv out T → Wakes due S T → t ∈ T.inQueue i → isDue T t = true → due t)
    (hseat : ∀ t, due t → some t ≠ out ∧ 2 ≤ t ∧ t ≤ S.currentTaskId) :
    ∃ T, wakeLoop i isDue mark S = .ok T ∧ Wakes due S T := by
  have hsys : ∀ T, Wakes due S T → SysInv out T := by
    intro T hw
    apply h.wakes hw
    · exact fun y hy => ⟨(hseat y hy).1, (hseat y hy).2.2⟩
    · exact fun h1 => absurd (hseat 1 h1).2.1 (by omega)
  let inv (o : Option Nat) (T : TaskSystem) : Prop :=
    Wakes due S T ∧ o = queueItem (T.queue i)
  have hstart : inv (queueHead (S.queue i)).1 (S.setQueue i (queueHead (S.queue i)).2) :=
    ⟨wakes_walk rfl, by simp [queueHead, queueItem]⟩
  obtain ⟨T, hT, hw, -⟩ := @whileItem_ok TaskSystem Nat Fault .endlessLoop (fun S => S.nextIn i)
    (fun S t => if isDue S t then taskAwake (S.modify t mark) (some t) else .ok S)
    inv (fun T => (T.queue i).rest.length)
    (fun t T hinv => wakeLoop_round hsys hi hmark hdue hseat hinv.1 hinv.2)
    (queueSize (S.queue i)) _ _ hstart (by simp [queueHead, queueSize])
  exact ⟨T, hT, hw⟩

/-! ## `task_exit` and the second half of the dispatcher's loop -/

/-- The running task has finished, and tasks that waited for it have been woken. -/
structure Exits (S S' : TaskSystem) (c : Nat) : Prop where
  current : S'.currentActiveTask = 0
  currentTaskId : S'.currentTaskId = S.currentTaskId
  clock : S'.clock = S.clock
  finished : (S'.task c).status = .finished
  ids : ∀ y, (S'.task y).id = (S.task y).id ∧
    (S'.task y).targetToWait = (S.task y).targetToWait
  others : ∀ y, y ≠ c → SameSeat S S' y ∨
    ((S.task y).targetToWait = (S.task c).id ∧ home (S.task y) = some .suspended ∧
      Woken S S' y)

/-- The tasks that `task_exit` of `c` wakes. -/
def Joins (S : TaskSystem) (c y : Nat) : Prop :=
  y ≠ c ∧ 2 ≤ y ∧ y ≤ S.currentTaskId ∧ (S.task y).targetToWait = (S.task c).id ∧
    home (S.task y) = some .suspended

/-- A task that is in `suspended_queue` after wake-ups was there before. -/
theorem Wakes.home_suspended (hw : Wakes due S T) (hseat : Seated T t)
    (hpos : 0 < T.occurs .suspended t) : home (S.task t) = some .suspended := by
  have hhome : home (T.task t) = some .suspended := by
    by_contra hne
    rw [hseat.occurs, if_neg hne] at hpos
    omega
  rcases hw.seats t with hs | ⟨-, hwoken⟩
  · rw [← hhome]
    unfold home
    rw [hs.status, hs.sleeping]
  · unfold home at hhome
    rw [hwoken.status] at hhome
    exact absurd hhome (by simp)

/-- The walk of `task_exit`, made while `c` is finished and in no queue, wakes only
tasks that join `c`. -/
theorem SysInv.exitLoop (h : SysInv (some c) S) (hcur : S.currentActiveTask = c)
    (hnowhere : ∀ j, S.occurs j c = 0) (code : Int)
    (hids : ∀ y, y < 2 → (S.task y).targetToWait ≠ (S.task c).id) :
    ∃ T, wakeLoop .suspended
        (fun S t => decide ((S.task t).targetToWait = (S.task S.currentActiveTask).id))
        (fun b => { b with targetExitCode := code }) S = .ok T ∧ Wakes (Joins S c) S T := by
  apply wakeLoop_wakes h (by decide) fun _ => rfl
  · intro T t hsysT hw hmem hd
    rw [decide_eq_true_eq, (hw.fields t).ids.2.1, hw.current, (hw.fields _).ids.1, hcur] at hd
    have hpos : 0 < T.occurs .suspended t := List.count_pos_iff.mpr hmem
    have hlo : 2 ≤ t := by
      by_contra hlt
      exact hids t (by omega) hd
    have hhi : t ≤ T.currentTaskId := by
      by_contra hgt
      have := hsysT.fresh t (by omega) .suspended
      omega
    have htc : t ≠ c := by
      intro heq
      rcases hw.seats t with hs | ⟨hd', -⟩
      · rw [hs.occurs, heq, hnowhere] at hpos
        omega
      · exact hd'.1 heq
    have hseat := hsysT.users t (by simpa using htc) hlo hhi
    exact ⟨htc, hlo, hw.currentTaskId ▸ hhi, hd, hw.home_suspended hseat hpos⟩
  · intro t ht
    exact ⟨by simpa using ht.1, ht.2.1, ht.2.2.1⟩

/-- The descriptor of a task that exits. -/
def Tcb.exited (code : Int) (b : Tcb) : Tcb :=
  { b with
    executionTime := addInt b.executionTime (quantum - b.remainingQuantumTime)
    status := .finished
    exitCode := code }

/-- **`task_exit`** of a task other than the kernel: it is marked, the loop is run, and
the kernel has the CPU. -/
theorem taskExit_eq (hc : S.currentActiveTask ≠ 0) (code : Int) :
    taskExit S code =
      wakeLoop .suspended
          (fun S t => decide ((S.task t).targetToWait = (S.task S.currentActiveTask).id))
          (fun b => { b with targetExitCode := code })
          (S.modify S.currentActiveTask (Tcb.exited code)) >>= fun T =>
        .ok (toKernel (T.setQueue .finished
          (queueAdd (T.queue .finished) S.currentActiveTask))) :=
  if_neg hc

/-- The loop of a `task_exit` that has succeeded. -/
theorem taskExit_ok {code : Int} (he : taskExit S code = .ok S') (hc : S.currentActiveTask ≠ 0) :
    ∃ T, wakeLoop .suspended
        (fun S t => decide ((S.task t).targetToWait = (S.task S.currentActiveTask).id))
        (fun b => { b with targetExitCode := code })
        (S.modify S.currentActiveTask (Tcb.exited code)) = .ok T ∧
      S' = toKernel (T.setQueue .finished (queueAdd (T.queue .finished) S.currentActiveTask)) := by
  rw [taskExit_eq hc] at he
  obtain ⟨T, hT, he⟩ := bind_eq_ok.mp he
  exact ⟨T, hT, (Except.ok.inj he).symm⟩

/-- A running user task that is marked finished is out of its seat. -/
theorem SysInv.finish (h : SysInv none S) (hc : 2 ≤ S.currentActiveTask) (code : Int) :
    SysInv (some S.currentActiveTask) (S.modify S.currentActiveTask (Tcb.exited code)) := by
  apply h.move (by simp) (by omega : S.currentActiveTask ≠ 0)
  · intro y hy
    refine ⟨?_, ?_, fun _ => rfl⟩
    · rw [modify_task, Function.update_of_ne hy]
    · rw [modify_task, Function.update_of_ne hy]
  · exact fun y _ _ => Iff.rfl
  · rfl
  · exact h.current
  · exact h.current
  · exact fun hne => absurd rfl hne
  · exact fun h1 => absurd h1 (by omega)

/-- **`task_exit`** of a user task ends without a fault and keeps every seat. -/
theorem SysInv.exit (h : SysInv none S) (hc : 2 ≤ S.currentActiveTask) (code : Int)
    (hids : ∀ y, y < 2 → (S.task y).targetToWait ≠ (S.task S.currentActiveTask).id) :
    ∃ S', taskExit S code = .ok S' ∧ SysInv none S' ∧ Exits S S' S.currentActiveTask := by
  obtain ⟨c, hcur⟩ : ∃ c, S.currentActiveTask = c := ⟨_, rfl⟩
  have h₁ := h.finish hc code
  rw [hcur] at hc hids h₁ ⊢
  have hseat := h.users c (by simp) hc (hcur ▸ h.current)
  have hrun : (S.task c).status = .running := hseat.running.mpr hcur
  have hnowhere : ∀ j, S.occurs j c = 0 := by
    intro j
    rw [hseat.occurs]
    simp [home, hrun]
  let S₁ := S.modify c (Tcb.exited code)
  have hother₁ : ∀ y, y ≠ c → S₁.task y = S.task y := by
    intro y hy
    simp [S₁, Function.update_of_ne hy]
  have hc₁ : S₁.task c = (S.task c).exited code := by simp [S₁]
  have hids₁ : ∀ y, (S₁.task y).id = (S.task y).id ∧
      (S₁.task y).targetToWait = (S.task y).targetToWait := by
    intro y
    by_cases hy : y = c
    · subst hy
      rw [hc₁]
      exact ⟨rfl, rfl⟩
    · rw [hother₁ y hy]
      exact ⟨rfl, rfl⟩
  obtain ⟨T, hT, hw⟩ := h₁.exitLoop hcur hnowhere code fun y hy => by
    rw [(hids₁ y).2, (hids₁ c).1]
    exact hids y hy
  have hsysT : SysInv (some c) T := h₁.wakes hw
    (fun y hy => ⟨by simpa using hy.1, hy.2.2.1⟩) fun h1 => absurd h1.2.1 (by omega)
  have hTc : T.currentActiveTask = c := hw.current.trans hcur
  have hl := leaves_toKernel hsysT.kernelReady (by omega) id .finished
  rw [modify_id, hTc, id] at hl
  have hexit : taskExit S code = .ok (toKernel (T.setQueue .finished
      (queueAdd (T.queue .finished) c))) := by
    rw [taskExit_eq (by omega), hcur]
    change (wakeLoop _ _ _ S₁ >>= _) = _
    rw [hT]
    rfl
  have hsamec : SameSeat S₁ T c := by
    rcases hw.seats c with hs | ⟨hd, -⟩
    · exact hs
    · exact absurd rfl hd.1
  have hfin : (T.task c).status = .finished := by
    rw [hsamec.status, hc₁]
    rfl
  refine ⟨_, hexit, ?_, hl.current, hl.currentTaskId.trans hw.currentTaskId,
    hl.clock.trans hw.clock, ?_, fun y => ?_, fun y hy => ?_⟩
  · apply hsysT.move (c := c) (by simp) (by omega)
    · exact fun y hy => hl.sameSeat (by rw [hTc]; exact hy)
    · intro y hy hy0
      rw [hl.current, hTc]
      exact ⟨fun heq => absurd heq.symm hy0, fun heq => absurd heq.symm hy⟩
    · exact hl.currentTaskId
    · exact hTc ▸ hsysT.current
    · rw [hl.current]
      exact Nat.zero_le _
    · intro _ _
      have htask := hl.task
      rw [hTc] at htask
      refine ⟨fun j => ?_, ?_, fun _ => ?_⟩
      · rw [hl.occurs, hTc, hsamec.occurs, show S₁.occurs j c = S.occurs j c from rfl, hnowhere,
          htask]
        simp [home, hfin, eq_comm]
      · rw [htask, hfin, hl.current]
        exact ⟨fun heq => absurd heq (by decide), fun heq => absurd heq (by omega)⟩
      · rw [htask, hsamec.sleeping, hc₁]
        exact hseat.sleeping (by rw [hrun]; decide)
    · exact fun h1 => absurd h1 (by omega)
  · have htask := hl.task
    rw [hTc] at htask
    rw [htask, hfin]
  · have hTy := (hw.fields y).ids
    have hS'y : ∀ b, (toKernel (T.setQueue .finished (queueAdd (T.queue .finished) c))).task y = b →
        b.id = (T.task y).id ∧ b.targetToWait = (T.task y).targetToWait := by
      intro b hb
      by_cases hy : y = T.currentActiveTask
      · have htask := hl.task
        rw [hy] at hb ⊢
        rw [← hb, htask, hTc]
        exact ⟨rfl, rfl⟩
      · by_cases hy0 : y = 0
        · rw [← hb, hy0, hl.kernel]
          exact ⟨rfl, rfl⟩
        · rw [← hb, hl.others y hy hy0]
          exact ⟨rfl, rfl⟩
    obtain ⟨h1, h2⟩ := hS'y _ rfl
    exact ⟨h1.trans (hTy.1.trans (hids₁ y).1), h2.trans (hTy.2.1.trans (hids₁ y).2)⟩
  · have hlast : SameSeat T _ y := hl.sameSeat (by rw [hTc]; exact hy)
    have hfirst : SameSeat S S₁ y := ⟨by rw [hother₁ y hy], by rw [hother₁ y hy], fun _ => rfl⟩
    rcases hw.seats y with hs | ⟨hd, hwoken⟩
    · exact Or.inl ((hfirst.trans hs).trans hlast)
    · right
      refine ⟨?_, ?_, (hfirst.woken hwoken).same hlast⟩
      · rw [← (hids₁ y).2, ← (hids₁ c).1]
        exact hd.2.2.2.1
      · rw [← hother₁ y hy]
        exact hd.2.2.2.2

/-- The tasks that may be woken from `sleeping_queue`. -/
def Sleeps (S : TaskSystem) (y : Nat) : Prop :=
  2 ≤ y ∧ y ≤ S.currentTaskId ∧ (S.task y).sleeping = true

/-- While the kernel has the CPU no task is running. -/
theorem SysInv.idle (h : SysInv none S) (hcur : S.currentActiveTask = 0)
    (ht : t ≤ S.currentTaskId) : (S.task t).status ≠ .running := by
  intro hrun
  by_cases ht0 : t = 0
  · rw [ht0, h.kernelReady] at hrun
    exact absurd hrun (by decide)
  · have hne : S.currentActiveTask ≠ t := by omega
    by_cases ht1 : t = 1
    · subst ht1
      exact hne (h.manager.running.mp hrun)
    · exact hne ((h.users t (by simp) (by omega) ht).running.mp hrun)

/-- A task in `sleeping_queue` sleeps. -/
theorem SysInv.sleeps (h : SysInv none S) (hmem : t ∈ S.inQueue .sleeping) : Sleeps S t := by
  have hpos : 0 < S.occurs .sleeping t := List.count_pos_iff.mpr hmem
  have hlo : 2 ≤ t := by
    by_contra hlt
    rcases (by omega : t = 0 ∨ t = 1) with rfl | rfl
    · have := h.kernelQueues .sleeping
      omega
    · have := h.manager.elsewhere.1
      omega
  have hhi : t ≤ S.currentTaskId := by
    by_contra hgt
    have := h.fresh t (by omega) .sleeping
    omega
  refine ⟨hlo, hhi, ?_⟩
  have hhome : home (S.task t) = some .sleeping := by
    by_contra hne
    have hseat := (h.users t (by simp) hlo hhi).occurs .sleeping
    rw [if_neg hne] at hseat
    omega
  unfold home at hhome
  cases hs : (S.task t).status <;> rw [hs] at hhome <;> simp at hhome
  exact hhome

/-- **The second half of the dispatcher's loop** ends without a fault: it wakes sleeping
tasks and keeps every seat. -/
theorem SysInv.dispatcherWake (h : SysInv none S) (hcur : S.currentActiveTask = 0)
    {o : Option Nat} (ho : ∀ t, o = some t → t ≤ S.currentTaskId) :
    ∃ T, dispatcherWake S o = .ok T ∧ SysInv none T ∧ Wakes (Sleeps S) S T := by
  have hany : ¬ (o.any fun t => decide ((S.task t).status = .running)) = true := by
    cases o with
    | none => simp
    | some t => simpa using h.idle hcur (ho t rfl)
  obtain ⟨T, hT, hw⟩ := @wakeLoop_wakes S .sleeping none (Sleeps S)
    (fun S t => decide ((S.task t).wakeUpTime ≤ S.clock)) id h (by decide) (fun _ => rfl)
    (by
      intro T t hsysT hw hmem _
      obtain ⟨hlo, hhi, hsleep⟩ := hsysT.sleeps hmem
      refine ⟨hlo, hw.currentTaskId ▸ hhi, ?_⟩
      rcases hw.seats t with hs | ⟨-, hwoken⟩
      · rw [← hs.sleeping]
        exact hsleep
      · rw [hwoken.sleeping] at hsleep
        exact absurd hsleep (by decide))
    fun t ht => ⟨by simp, ht.1, ht.2.1⟩
  refine ⟨T, ?_, ?_, hw⟩
  · rw [PingPongOS.dispatcherWake, if_neg hany]
    exact hT
  · exact h.wakes hw (fun y hy => ⟨by simp, hy.2.1⟩) fun h1 => absurd h1.1 (by decide)

/-- A turn of the dispatcher while every task has its seat. -/
inductive SeatedTurn (S : TaskSystem) : TaskSystem → DispatcherPoint → Prop
  | creates : SeatedTurn S (taskCreate S true).2 .loop
  | runs {T : TaskSystem} {next : Nat} (hq : Quiet S T) (ht : 0 < T.occurs .ready next) :
      SeatedTurn S (taskRun T next) (.ran next)
  | wakes {T U : TaskSystem} (hq : Quiet S T) (hw : Wakes (Sleeps T) T U)
      (hsys : SysInv none U) : SeatedTurn S U .loop

/-- **A turn of the dispatcher** ends without a fault: it creates the disk manager, runs a
task of `ready_queue`, or wakes the sleepers that are due. -/
theorem SysInv.turn (h : SysInv none S) (hcur : S.currentActiveTask = 0) {d : DispatcherPoint}
    {requests : Nat} (hran : ∀ t, d = .ran t → t ≤ S.currentTaskId)
    {r : Except Fault (TaskSystem × DispatcherPoint)}
    (hr : dispatcherTurn S d requests = some r) :
    ∃ S' d', r = .ok (S', d') ∧ SeatedTurn S S' d' := by
  cases d with
  | entry => exact ⟨_, _, (Option.some.inj hr).symm, .creates⟩
  | loop =>
      rw [dispatcherTurn, Option.ite_none_right_eq_some] at hr
      obtain rfl := Option.some.inj hr.2
      obtain ⟨o, T, hsched, hq, hready⟩ := h.scheduler
      cases o with
      | some next =>
          have hturn := SeatedTurn.runs hq (by
            rw [hq.occurs]
            exact hready next rfl)
          exact ⟨_, _, by simp [dispatcherRun, hsched, bind, Except.bind], hturn⟩
      | none =>
          obtain ⟨U, hU, hsys, hw⟩ := (h.quiet hq).dispatcherWake (hq.current.trans hcur)
            fun t (ht : none = some t) => absurd ht (by simp)
          exact ⟨_, _, by simp [dispatcherRun, hsched, hU, bind, Except.bind], .wakes hq hw hsys⟩
  | ran next =>
      obtain rfl := Option.some.inj hr
      obtain ⟨U, hU, hsys, hw⟩ := h.dispatcherWake hcur fun t (ht : some next = some t) =>
        Option.some.inj ht ▸ hran next rfl
      exact ⟨_, _, by simp [hU, bind, Except.bind], .wakes (Quiet.refl S) hw hsys⟩

end PingPongOS
