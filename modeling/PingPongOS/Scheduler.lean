import PingPongOS.TaskSystem

/-!
# The scheduler of `scheduler.c`

`scheduler` walks `ready_queue` once: it ages every task, keeps the first of those
whose priority was least before ageing, and gives the selected task its static
priority back.
-/

namespace PingPongOS

open TaskSystem

/-- The body of the loop of `scheduler`, beside the task selected so far. -/
def schedulerBody (s : TaskSystem × Nat) (aux : Nat) :
    Except Fault (TaskSystem × Nat) :=
  let S := s.1.modify aux fun b => { b with dynamicPriority := b.dynamicPriority - 1 }
  if (S.task aux).dynamicPriority + 1 < (S.task s.2).dynamicPriority + 1 then .ok (S, aux)
  else .ok (S, s.2)

/-- `queue_next(ready_queue)` in the loop of `scheduler`. -/
def schedulerNext (s : TaskSystem × Nat) : Option Nat × TaskSystem × Nat :=
  ((s.1.nextIn .ready).1, (s.1.nextIn .ready).2, s.2)

/-- `scheduler(ready_queue)`: the task selected, or `NULL` on an empty queue. -/
def scheduler (S : TaskSystem) : Except Fault (Option Nat × TaskSystem) :=
  let S' := S.setQueue .ready (queueHead (S.queue .ready)).2
  match (queueHead (S.queue .ready)).1 with
  | none => .ok (none, S')
  | some aux => do
      let s ← whileItem .endlessLoop schedulerNext schedulerBody (queueSize (S.queue .ready))
        (some aux) (S', aux)
      .ok (some s.2, s.1.modify s.2 fun b => { b with dynamicPriority := b.staticPriority })

/-- `sched_setprio`, which asserts its range. -/
def schedSetprio (S : TaskSystem) (task : Option Nat) (prio : Int) :
    Except Fault TaskSystem :=
  if prio ≤ 20 ∧ -20 ≤ prio then
    .ok (S.modify (task.getD S.currentActiveTask) fun b =>
      { b with staticPriority := prio, dynamicPriority := prio })
  else .error .priorityOutOfRange

/-- `s` is the first of `xs` at which `f` is least. -/
def FirstLeast (f : Nat → Int) (s : Nat) (xs : List Nat) : Prop :=
  ∃ before after, xs = before ++ s :: after ∧ (∀ x ∈ before, f s < f x) ∧
    ∀ x ∈ after, f s ≤ f x

theorem FirstLeast.mem {f : Nat → Int} {s : Nat} {xs : List Nat}
    (h : FirstLeast f s xs) : s ∈ xs := by
  obtain ⟨before, after, rfl, -, -⟩ := h
  simp

theorem FirstLeast.le {f : Nat → Int} {s : Nat} {xs : List Nat}
    (h : FirstLeast f s xs) : ∀ x ∈ xs, f s ≤ f x := by
  obtain ⟨before, after, rfl, hbefore, hafter⟩ := h
  intro x hx
  rcases List.mem_append.mp hx with hx | hx
  · exact le_of_lt (hbefore x hx)
  rcases List.mem_cons.mp hx with rfl | hx
  · exact le_refl _
  · exact hafter x hx

/-- One more item: it is selected when it is strictly less. -/
theorem FirstLeast.snoc {f : Nat → Int} {s x : Nat} {xs : List Nat}
    (h : FirstLeast f s xs) : FirstLeast f (if f x < f s then x else s) (xs ++ [x]) := by
  by_cases hlt : f x < f s
  · rw [if_pos hlt]
    refine ⟨xs, [], rfl, fun y hy => lt_of_lt_of_le hlt (h.le y hy), ?_⟩
    simp
  · rw [if_neg hlt]
    obtain ⟨before, after, rfl, hbefore, hafter⟩ := h
    refine ⟨before, after ++ [x], by simp, hbefore, fun y hy => ?_⟩
    rcases List.mem_append.mp hy with hy | hy
    · exact hafter y hy
    · rw [List.mem_singleton] at hy
      subst hy
      exact not_lt.mp hlt

/-- The descriptor after one round of ageing. -/
def Tcb.aged (b : Tcb) : Tcb := { b with dynamicPriority := b.dynamicPriority - 1 }

/-- The tasks of `S` with those of `xs` aged. -/
def agedIn (S : TaskSystem) (xs : List Nat) (x : Nat) : Tcb :=
  if x ∈ xs then (S.task x).aged else S.task x

/-- The queues of `S` with the iterator of `ready_queue` at the end. -/
def readyWalked (S : TaskSystem) : QueueId → Queue Nat :=
  Function.update S.queue .ready ⟨S.inQueue .ready, []⟩

/-- The state of the loop of `scheduler` before the item `o`: the items walked are
aged and `s.2` is the first least of them. -/
structure SchedulerLoop (S : TaskSystem) (o : Option Nat) (s : TaskSystem × Nat) :
    Prop where
  item : o = queueItem (s.1.queue .ready)
  others : s.1 = { S with task := agedIn S (s.1.queue .ready).passed
                          queue := Function.update S.queue .ready (s.1.queue .ready) }
  walk : (s.1.queue .ready).items = S.inQueue .ready
  selected : ((s.1.queue .ready).passed = [] ∧ o = some s.2) ∨
    FirstLeast (fun x => (S.task x).dynamicPriority) s.2 (s.1.queue .ready).passed

variable {S : TaskSystem}

theorem agedIn_nil : agedIn S [] = S.task := by
  funext x
  simp [agedIn]

/-- Ageing one more task. -/
theorem update_agedIn {xs : List Nat} {x : Nat} (hx : x ∉ xs) :
    Function.update (agedIn S xs) x (agedIn S xs x).aged = agedIn S (xs ++ [x]) := by
  funext y
  by_cases hy : y = x
  · subst hy
    simp [agedIn, hx]
  · simp [agedIn, hy]

/-- The state after `x` is aged and the iterator moves past it. -/
theorem nextIn_modify_aged {T : TaskSystem} {passed rest : List Nat} {x : Nat}
    (hq : T.queue .ready = ⟨passed, x :: rest⟩) :
    (T.modify x Tcb.aged).nextIn .ready =
      (rest.head?, (T.modify x Tcb.aged).setQueue .ready ⟨passed ++ [x], rest⟩) := by
  rw [nextIn, modify_queue, hq]
  rfl

/-- The body compares the priorities before ageing. -/
theorem schedulerBody_eq {T : TaskSystem} {x sel : Nat} :
    schedulerBody (T, sel) x = .ok (T.modify x Tcb.aged,
      if (T.task x).dynamicPriority < ((T.modify x Tcb.aged).task sel).dynamicPriority + 1 then x
      else sel) := by
  have hx : ((T.modify x Tcb.aged).task x).dynamicPriority + 1 = (T.task x).dynamicPriority := by
    simp [Tcb.aged]
  unfold schedulerBody
  simp only
  change (if ((T.modify x Tcb.aged).task x).dynamicPriority + 1 <
    ((T.modify x Tcb.aged).task sel).dynamicPriority + 1 then _ else _) = _
  rw [hx]
  by_cases hlt : (T.task x).dynamicPriority <
      ((T.modify x Tcb.aged).task sel).dynamicPriority + 1
  · rw [if_pos hlt, if_pos hlt]
    rfl
  · rw [if_neg hlt, if_neg hlt]
    rfl

/-- One round of the loop of `scheduler`. -/
theorem SchedulerLoop.round {x : Nat} {s : TaskSystem × Nat}
    (hnodup : (S.inQueue .ready).Nodup) (h : SchedulerLoop S (some x) s) :
    ∃ s', schedulerBody s x = .ok s' ∧
      SchedulerLoop S (schedulerNext s').1 (schedulerNext s').2 ∧
      ((schedulerNext s').2.1.queue .ready).rest.length < (s.1.queue .ready).rest.length := by
  obtain ⟨T, sel⟩ := s
  obtain ⟨hitem, hothers, hwalk, hsel⟩ := h
  simp only at hitem hothers hwalk hsel ⊢
  refine ⟨_, schedulerBody_eq, ?_⟩
  simp only [schedulerNext]
  cases hq : T.queue .ready with
  | mk passed rest =>
      rw [hq] at hitem hothers hwalk hsel
      cases rest with
      | nil => exact absurd hitem (by simp [queueItem])
      | cons y rest =>
          obtain rfl : x = y := by simpa [queueItem] using hitem
          simp only [Queue.items] at hothers hsel hwalk
          rw [← hwalk] at hnodup
          have hnew : x ∉ passed := by
            intro hx
            exact (List.nodup_append.mp hnodup).2.2 x hx x List.mem_cons_self rfl
          have htask : T.task = agedIn S passed := by rw [hothers]
          have hx : T.task x = S.task x := by rw [htask, agedIn, if_neg hnew]
          rw [nextIn_modify_aged hq]
          refine ⟨⟨?_, ?_, ?_, ?_⟩, ?_⟩
          · simp [queueItem]
          · rw [hothers]
            simp only [TaskSystem.modify, setQueue, Function.update_idem, Function.update_self,
              update_agedIn hnew]
          · simp [Queue.items, hwalk.symm]
          · right
            simp only [setQueue_queue, Function.update_self]
            rcases hsel with ⟨rfl, hfirst⟩ | hleast
            · obtain rfl : x = sel := Option.some.inj hfirst
              rw [ite_self]
              exact ⟨[], [], rfl, by simp, by simp⟩
            · have hne : sel ≠ x := fun heq => hnew (heq ▸ hleast.mem)
              have hdyn : ((T.modify x Tcb.aged).task sel).dynamicPriority + 1 =
                  (S.task sel).dynamicPriority := by
                rw [modify_task, Function.update_of_ne hne, htask, agedIn, if_pos hleast.mem]
                simp [Tcb.aged]
              rw [hdyn, hx]
              exact hleast.snoc
          · simp

/-- **What `scheduler` does.**  On a queue of different tasks it selects the first
one of least priority, gives it its static priority and ages every other one;
nothing else changes but the iterator of the queue. -/
theorem scheduler_spec (hnodup : (S.inQueue .ready).Nodup) (hne : S.inQueue .ready ≠ []) :
    ∃ s, FirstLeast (fun x => (S.task x).dynamicPriority) s (S.inQueue .ready) ∧
      scheduler S = .ok (some s, { S with
        task := Function.update (agedIn S (S.inQueue .ready)) s
          { S.task s with dynamicPriority := (S.task s).staticPriority }
        queue := readyWalked S }) := by
  obtain ⟨aux, others, hitems⟩ := List.exists_cons_of_ne_nil hne
  let S' := S.setQueue .ready (queueHead (S.queue .ready)).2
  have hready : S'.queue .ready = ⟨[], S.inQueue .ready⟩ := by
    simp [S', queueHead, inQueue]
  have hstart : SchedulerLoop S (some aux) (S', aux) := by
    refine ⟨?_, ?_, ?_, Or.inl ⟨by rw [hready], rfl⟩⟩
    · rw [hready, queueItem, hitems]
      rfl
    · rw [hready, agedIn_nil]
      rfl
    · rw [hready]
      rfl
  obtain ⟨⟨T, s⟩, hloop, hdone⟩ := whileItem_ok Fault.endlessLoop (SchedulerLoop S)
    (fun s => (s.1.queue .ready).rest.length) (fun x s h => h.round hnodup)
    (queueSize (S.queue .ready)) hstart (by rw [hready]; exact Nat.le_refl _)
  obtain ⟨hitem, hothers, hwalk, hsel⟩ := hdone
  simp only at hitem hothers hwalk hsel
  -- the walk ends with the iterator past the last item
  have hpassed : T.queue .ready = ⟨S.inQueue .ready, []⟩ := by
    rw [← hwalk]
    cases hq : T.queue .ready with
    | mk passed rest =>
        rw [hq] at hitem
        cases rest with
        | nil => simp [Queue.items]
        | cons y rest => exact absurd hitem (by simp [queueItem])
  rw [hpassed] at hothers hsel
  rcases hsel with ⟨-, hnone⟩ | hleast
  · exact absurd hnone (by simp)
  · refine ⟨s, hleast, ?_⟩
    have hhead : (queueHead (S.queue .ready)).1 = some aux := by
      rw [queueHead_fst, ← inQueue, hitems]
      rfl
    have haged : agedIn S (S.inQueue .ready) s = (S.task s).aged := if_pos hleast.mem
    rw [scheduler, hhead]
    simp only
    rw [hloop]
    change Except.ok (some s, T.modify s _) = _
    rw [hothers, readyWalked]
    simp only [TaskSystem.modify, haged]
    rfl

/-- **Rule for `scheduler`**, whatever is in `ready_queue`: it keeps what walking the queue and
writing dynamic priorities keep. -/
theorem scheduler_rule (P : TaskSystem → Prop)
    (hwalk : ∀ T q, P T → q.items = T.inQueue .ready → P (T.setQueue .ready q))
    (hprio : ∀ T t (f : Tcb → Int), P T → P (T.modify t fun b => { b with dynamicPriority := f b }))
    {S' : TaskSystem} {o : Option Nat} (hS : P S) (hs : scheduler S = .ok (o, S')) : P S' := by
  have hstart : P (S.setQueue .ready (queueHead (S.queue .ready)).2) := hwalk S _ hS rfl
  unfold scheduler at hs
  cases hhead : (queueHead (S.queue .ready)).1 with
  | none =>
      rw [hhead] at hs
      exact (Prod.mk.inj (Except.ok.inj hs)).2 ▸ hstart
  | some aux =>
      rw [hhead] at hs
      obtain ⟨r, hloop, hs⟩ := bind_eq_ok.mp hs
      have hr : P r.1 := by
        refine whileItem_keeps (fun _ r => P r.1) (fun x r r' hr hbody => ?_) hstart hloop
        have hbody' : P r'.1 := by
          rw [schedulerBody_eq] at hbody
          rw [← Except.ok.inj hbody]
          exact hprio r.1 x (fun b => b.dynamicPriority - 1) hr
        exact hwalk r'.1 _ hbody' (queueNext_items _)
      rw [← (Prod.mk.inj (Except.ok.inj hs)).2]
      exact hprio r.1 r.2 Tcb.staticPriority hr

/-- **What a call of `scheduler` changes.**  The task returned is the first of least
dynamic priority and gets its static priority; the others of the queue age by one, and
nothing else changes. -/
theorem scheduler_selects (hne : S.inQueue .ready ≠ []) (hnodup : (S.inQueue .ready).Nodup) :
    ∃ s S', scheduler S = .ok (some s, S') ∧
      FirstLeast (fun x => (S.task x).dynamicPriority) s (S.inQueue .ready) ∧
      S'.task s = { S.task s with dynamicPriority := (S.task s).staticPriority } ∧
      (∀ x ∈ S.inQueue .ready, x ≠ s →
        S'.task x = { S.task x with dynamicPriority := (S.task x).dynamicPriority - 1 }) ∧
      (∀ x, x ∉ S.inQueue .ready → S'.task x = S.task x) ∧
      (∀ i, S'.inQueue i = S.inQueue i) ∧ S'.currentTaskId = S.currentTaskId ∧
      S'.currentActiveTask = S.currentActiveTask ∧ S'.clock = S.clock := by
  obtain ⟨s, hleast, hs⟩ := scheduler_spec hnodup hne
  refine ⟨s, _, hs, hleast, ?_, ?_, ?_, ?_, rfl, rfl, rfl⟩
  · simp only [Function.update_self]
  · intro x hx hxs
    simp only [Function.update_of_ne hxs, agedIn, if_pos hx]
    rfl
  · intro x hx
    have hxs : x ≠ s := fun heq => hx (heq ▸ hleast.mem)
    simp only [Function.update_of_ne hxs, agedIn, if_neg hx]
  · intro i
    by_cases hi : i = .ready
    · subst hi
      simp only [inQueue, readyWalked, Function.update_self]
      exact List.append_nil _
    · simp only [inQueue, readyWalked, Function.update_of_ne hi]

/-- Three tasks of static priorities 0, 3 and 5 that have aged to 2, 1 and 1: the second
one is selected. -/
theorem scheduler_selects_second :
    let S := { dispatcherInit with
      task := fun x =>
        { Tcb.zero with
          staticPriority := if x = 1 then 0 else if x = 2 then 3 else 5
          dynamicPriority := if x = 1 then 2 else 1 }
      queue := fun _ => ⟨[], [1, 2, 3]⟩ }
    ∃ s S', scheduler S = .ok (some s, S') ∧ s = 2 ∧ (S'.task 2).dynamicPriority = 3 ∧
      (S'.task 1).dynamicPriority = 1 ∧ (S'.task 3).dynamicPriority = 0 := by
  intro S
  obtain ⟨s, S', hs, -, hsel, hothers, -⟩ :=
    scheduler_selects (S := S) (by decide) (by decide)
  have h2 : s = 2 := by
    have hfst : (scheduler S).toOption.map Prod.fst = some (some 2) := by decide
    rw [hs] at hfst
    exact Option.some.inj (Option.some.inj hfst)
  subst h2
  refine ⟨2, S', hs, rfl, ?_, ?_, ?_⟩
  · rw [hsel]
    rfl
  · rw [hothers 1 (by decide) (by decide)]
    rfl
  · rw [hothers 3 (by decide) (by decide)]
    rfl

end PingPongOS
