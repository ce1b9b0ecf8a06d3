import PingPongOS.SystemChanges

/-!
# Direct switches

A task may call `task_switch` itself, with any task or, without one, with its parent.
The tasks then leave their seats: one that is in `ready_queue` may have the CPU, and one
that has given it away is in no queue.  A step of the kernel is looked at here without
the invariant of the kernel functions.
-/

namespace PingPongOS

open Runs TaskSystem

/-- A step of the kernel, or a `task_switch` that the running task calls. -/
inductive SwitchAction
  | kernel (a : Action)
  | switch (task : Option Nat)
  deriving DecidableEq

/-- One step.  A tick comes in the rest of a kernel function too. -/
def switchStep (k : Kernel) : SwitchAction → Option Kernel
  | .kernel .tick => some { k with sys := handleTimerSignal k.sys }
  | .kernel a => k.step a
  | .switch task =>
      if k.current ≠ taskKernel ∧ k.point k.current = .user ∧
          ∀ t ∈ task, t ≤ k.sys.currentTaskId then
        some { k with sys := (taskSwitch k.sys task).2 }
      else none

variable {S S' T : TaskSystem} {t : Nat} {i : QueueId} {k k' : Kernel} {a : Action}

/-! ## Who comes into the ready queue -/

/-- Only suspended tasks change their status, to ready, and come into `ready_queue`, once. -/
structure ReadyFrom (S S' : TaskSystem) : Prop where
  status : ∀ t, (S'.task t).status = (S.task t).status ∨
    ((S.task t).status = .suspended ∧ (S'.task t).status = .ready)
  occurs : ∀ t, S'.occurs .ready t ≤ S.occurs .ready t ∨
    ((S.task t).status = .suspended ∧ (S'.task t).status = .ready ∧
      S'.occurs .ready t ≤ S.occurs .ready t + 1)

theorem ReadyFrom.refl (S : TaskSystem) : ReadyFrom S S :=
  ⟨fun _ => Or.inl rfl, fun _ => Or.inl (Nat.le_refl _)⟩

theorem ReadyFrom.trans (h : ReadyFrom S T) (h' : ReadyFrom T S') : ReadyFrom S S' := by
  refine ⟨fun t => ?_, fun t => ?_⟩
  · rcases h'.status t with hs | ⟨hwas, his⟩
    · rw [hs]
      exact h.status t
    · rcases h.status t with hs | ⟨-, hready⟩
      · exact Or.inr ⟨hs.symm.trans hwas, his⟩
      · exact absurd (hready.symm.trans hwas) (by decide)
  · rcases h'.occurs t with hle | ⟨hwas, his, hle⟩
    · rcases h.occurs t with hle' | ⟨hwas', his', hle'⟩
      · exact Or.inl (Nat.le_trans hle hle')
      · right
        refine ⟨hwas', ?_, Nat.le_trans hle hle'⟩
        rcases h'.status t with hs | ⟨hwas, -⟩
        · exact hs.trans his'
        · exact absurd (his'.symm.trans hwas) (by decide)
    · right
      rcases h.status t with hs | ⟨-, hready⟩
      · refine ⟨hs.symm.trans hwas, his, ?_⟩
        rcases h.occurs t with hle' | ⟨-, his', -⟩
        · omega
        · exact absurd (his'.symm.trans hwas) (by decide)
      · exact absurd (hready.symm.trans hwas) (by decide)

/-- Task `t` is left alone, or woken once. -/
structure AtMostWoken (S S' : TaskSystem) (t : Nat) : Prop where
  status : (S'.task t).status = (S.task t).status ∨
    ((S.task t).status = .suspended ∧ (S'.task t).status = .ready)
  occurs : S'.occurs .ready t ≤ S.occurs .ready t ∨
    ((S.task t).status = .suspended ∧ (S'.task t).status = .ready ∧
      S'.occurs .ready t ≤ S.occurs .ready t + 1)

theorem ReadyFrom.at (h : ReadyFrom S S') (t : Nat) : AtMostWoken S S' t :=
  ⟨h.status t, h.occurs t⟩

theorem ReadyFrom.inReady (h : ReadyFrom S S') (ht : t ∈ S'.inQueue .ready) :
    t ∈ S.inQueue .ready ∨ (S.task t).status = .suspended := by
  have hpos : 0 < S'.occurs .ready t := List.count_pos_iff.mpr ht
  rcases h.occurs t with hle | ⟨hsusp, -, -⟩
  · exact Or.inl (List.count_pos_iff.mp (Nat.lt_of_lt_of_le hpos hle))
  · exact Or.inr hsusp

/-- A change of no status. -/
theorem readyFrom_modify {f : Tcb → Tcb} (hf : ∀ b, (f b).status = b.status) :
    ReadyFrom S (S.modify t f) := by
  refine ⟨fun y => Or.inl ?_, fun _ => Or.inl (Nat.le_refl _)⟩
  by_cases hy : y = t
  · subst hy
    rw [modify_task, Function.update_self, hf]
  · rw [modify_task, Function.update_of_ne hy]

/-- Moving an iterator. -/
theorem readyFrom_walk {q : Queue Nat} (hq : q.items = S.inQueue i) :
    ReadyFrom S (S.setQueue i q) :=
  ⟨fun _ => Or.inl rfl, fun _ => Or.inl (le_of_eq (occurs_walk hq))⟩

/-- Only priorities and wake-ups, and who is woken comes into `ready_queue`. -/
structure Waking (S S' : TaskSystem) : Prop where
  passive : AllPassive S S'
  ready : ReadyFrom S S'

theorem Waking.refl (S : TaskSystem) : Waking S S := ⟨AllPassive.refl S, ReadyFrom.refl S⟩

theorem Waking.trans (h : Waking S T) (h' : Waking T S') : Waking S S' :=
  ⟨h.passive.trans h'.passive, h.ready.trans h'.ready⟩

theorem Quiet.waking (h : Quiet S S') (hp : AllPassive S S') : Waking S S' :=
  ⟨hp, fun t => (hp.task t).status, fun t => Or.inl (le_of_eq (h.occurs .ready t))⟩

/-- A task that `task_awake` puts into `ready_queue` was suspended. -/
theorem taskAwake_ready (hs : taskAwake S (some t) = .ok S') : ReadyFrom S S' := by
  refine ⟨fun y => ((taskAwake_passive hs).task y).status, fun y => ?_⟩
  rcases taskAwake_ok hs with rfl | ⟨hsusp, j, q, hj, -, rfl⟩
  · exact Or.inl (Nat.le_refl _)
  · have hcount : ∀ x, List.count x ((S.queue .ready).items ++ [t]) =
        S.occurs .ready x + if x = t then 1 else 0 := by
      intro x
      rw [List.count_append, List.count_singleton]
      by_cases hx : x = t
      · simp [hx, TaskSystem.occurs, inQueue]
      · simp [hx, Ne.symm hx, TaskSystem.occurs, inQueue]
    have hready : ∀ x, (((S.setQueue j q).modify t fun b =>
        { b with sleeping := false, status := .ready }).setQueue .ready
          (queueAdd (S.queue .ready) t)).occurs .ready x =
        S.occurs .ready x + if x = t then 1 else 0 := by
      intro x
      rw [← hcount x]
      unfold TaskSystem.occurs
      rw [setQueue_inQueue, if_pos rfl, queueAdd_items]
    rw [hready y]
    by_cases hy : y = t
    · subst hy
      right
      refine ⟨hsusp, by simp, ?_⟩
      rw [if_pos rfl]
    · rw [if_neg hy]
      exact Or.inl (Nat.le_refl _)

theorem taskAwake_waking {o : Option Nat} (hs : taskAwake S o = .ok S') : Waking S S' := by
  refine ⟨taskAwake_passive hs, ?_⟩
  cases o with
  | none => exact Except.ok.inj hs ▸ ReadyFrom.refl S
  | some t => exact taskAwake_ready hs

/-- Moving an iterator wakes nobody. -/
theorem waking_walk {q : Queue Nat} (hq : q.items = S.inQueue i) :
    Waking S (S.setQueue i q) :=
  ⟨AllPassive.setQueue q, readyFrom_walk hq⟩

/-- **Rule for the waking loops**: what marking, waking and moving the iterator keep. -/
theorem wakeLoop_keeps {isDue : TaskSystem → Nat → Bool} {mark : Tcb → Tcb}
    (P : TaskSystem → Prop) (hmark : ∀ T t, P T → P (T.modify t mark))
    (hawake : ∀ T T' t, P T → taskAwake T (some t) = .ok T' → P T')
    (hwalk : ∀ T (q : Queue Nat), P T → q.items = T.inQueue i → P (T.setQueue i q))
    (hS : P S) (hs : wakeLoop i isDue mark S = .ok S') : P S' :=
  whileItem_keeps (fun _ T => P T)
    (fun x T T' hT hbody => by
      have hT' : P T' := by
        by_cases hd : isDue T x = true
        · rw [if_pos hd] at hbody
          exact hawake _ _ x (hmark T x hT) hbody
        · rw [if_neg hd] at hbody
          exact Except.ok.inj hbody ▸ hT
      exact hwalk T' _ hT' (queueNext_items _))
    (hwalk S (queueHead (S.queue i)).2 hS rfl) hs

theorem dispatcherWake_waking {o : Option Nat} (hs : dispatcherWake S o = .ok S') :
    Waking S S' := by
  unfold dispatcherWake at hs
  split at hs
  · exact absurd hs (by simp)
  · apply wakeLoop_keeps (Waking S) _ _ _ (Waking.refl S) hs
    · intro T t hT
      rw [modify_id]
      exact hT
    · exact fun T T' t hT hawake => hT.trans (taskAwake_waking hawake)
    · exact fun T q hT hq => hT.trans (waking_walk hq)

/-- **Rule for `sem_destroy`**: what waking keeps. -/
theorem semDestroy_keeps {x x' : Semaphore} (P : TaskSystem → Prop)
    (hawake : ∀ T T' t, P T → taskAwake T (some t) = .ok T' → P T') (hS : P S)
    (hs : semDestroy x S = .ok (x', S')) : P S' :=
  semDestroy_rule (fun _ (r : Semaphore × TaskSystem) => P r.2) hS
    (fun t _ T T' hT hawake' => hawake T T' t hT hawake') hs

theorem semDestroy_waking {x x' : Semaphore} (hs : semDestroy x S = .ok (x', S')) :
    Waking S S' :=
  semDestroy_keeps (Waking S) (fun _ _ _ hT hawake => hT.trans (taskAwake_waking hawake))
    (Waking.refl S) hs

theorem scheduler_waking {o : Option Nat} (hs : scheduler S = .ok (o, S')) : Waking S S' :=
  (scheduler_quiet hs).waking (scheduler_passive hs)

/-! ## Steps of the kernel -/

/-- **What a step of the kernel may do**, from whatever state. -/
inductive Turn (S : TaskSystem) : Action → TaskSystem → Prop
  | creates {a : Action} {S' : TaskSystem} (ha : a.plain = true) (hc : Creates S S') :
      Turn S a S'
  | wakes {a : Action} {S' : TaskSystem} (ha : a.plain = true) (hw : Waking S S') : Turn S a S'
  | yields {a : Action} (ha : a.plain = true) (hc : S.currentActiveTask ≠ 0) :
      Turn S a (taskYield S)
  | suspends {a : Action} {f : Tcb → Tcb} {i : QueueId} (ha : a.plain = true)
      (hc : S.currentActiveTask ≠ 0) (hi : i ≠ .ready)
      (hf : ∀ b, SuspendedFrom b { f b with status := .suspended }) :
      Turn S a (taskSuspend (S.modify S.currentActiveTask f) i)
  | runs {S₁ S' : TaskSystem} {t : Nat} (hc : S.currentActiveTask = 0) (hw : Waking S S₁)
      (ht : t ∈ S₁.inQueue .ready) (hd : Dispatches S₁ S' t) : Turn S .dispatcher S'
  | exits {code : Int} {S' : TaskSystem} (hc : S.currentActiveTask ≠ 0)
      (he : taskExit S code = .ok S') : Turn S (.exit code) S'

/-- An exit is nothing else. -/
theorem Turn.exit {code : Int} (h : Turn S (.exit code) S') :
    S.currentActiveTask ≠ 0 ∧ taskExit S code = .ok S' := by
  cases h with
  | exits hc he => exact ⟨hc, he⟩
  | creates ha _ | wakes ha _ | yields ha _ | suspends ha _ _ _ =>
      exact absurd ha (by simp [Action.plain])

theorem Turn.same (ha : a.plain = true) : Turn S a S := .wakes ha (Waking.refl S)

/-- A suspension in the kernel's own queue. -/
theorem Turn.blocks (ha : a.plain = true) (hc : S.currentActiveTask ≠ 0) :
    Turn S a (taskSuspend S .suspended) := by
  have hid : taskSuspend S .suspended =
      taskSuspend (S.modify S.currentActiveTask id) .suspended := by
    rw [modify_id]
  rw [hid]
  exact .suspends ha hc (by decide) fun _ => rfl

/-- The point of the disk manager, at which no other task is. -/
def TaskPoint.isManager : TaskPoint → Bool
  | .manager _ => true
  | _ => false

/-- What a step of the kernel does, with where tasks and the dispatcher go on after it. -/
structure Moves (k : Kernel) (a : Action) (k' : Kernel) : Prop where
  turn : Turn k.sys a k'.sys
  dispatcher : a ≠ .dispatcher → k'.dispatcher = k.dispatcher
  ran : a = .dispatcher → k.current = 0 ∧
    (k'.current = 0 ∨ k'.dispatcher = .ran k'.current)
  point : ∀ t, (k'.point t).isManager = (k.point t).isManager

theorem Moves.of_point (ht : Turn k.sys a k'.sys) (ha : a ≠ .dispatcher)
    (hd : k'.dispatcher = k.dispatcher) (hp : k'.point = k.point) : Moves k a k' :=
  ⟨ht, fun _ => hd, fun heq => absurd heq ha, fun _ => by rw [hp]⟩

/-- The running task goes on at `p`. -/
theorem Moves.of_setPoint (ht : Turn k.sys a k'.sys) (ha : a ≠ .dispatcher)
    (hd : k'.dispatcher = k.dispatcher) {p : TaskPoint}
    (hp : k'.point = Function.update k.point k.current p)
    (hm : p.isManager = (k.point k.current).isManager) : Moves k a k' := by
  refine ⟨ht, fun _ => hd, fun heq => absurd heq ha, fun t => ?_⟩
  rw [hp]
  by_cases htc : t = k.current
  · rw [htc, Function.update_self, hm]
  · rw [Function.update_of_ne htc]

theorem Kernel.moves_dispatcher (hc : k.current = 0)
    (hs : k.dispatcherStep = some (.ok k')) : Moves k .dispatcher k' := by
  obtain ⟨S, d, hd, hk⟩ := Preemptive.dispatcherStep_eq_some.mp hs
  obtain rfl : { k with sys := S, dispatcher := d } = k' := hk
  have hidle : ∀ {d'}, Turn k.sys .dispatcher S → S.currentActiveTask = 0 →
      Moves k .dispatcher { k with sys := S, dispatcher := d' } := fun hturn h0 =>
    ⟨hturn, fun hne => absurd rfl hne, fun _ => ⟨hc, Or.inl h0⟩, fun _ => rfl⟩
  rcases dispatcherTurn_keeps (fun T => Waking k.sys T)
      (fun T o T' hT hsched => hT.trans (scheduler_waking hsched))
      (fun T o T' hT hwake => hT.trans (dispatcherWake_waking hwake))
      (Waking.refl k.sys) hd with hcreates | hw | ⟨S₁, t, hw, ht, hrun, hat⟩
  · exact hidle (.creates rfl hcreates) (hcreates.current.trans hc)
  · exact hidle (.wakes rfl hw) (hw.passive.current.trans hc)
  · refine ⟨.runs hc hw (List.count_pos_iff.mp ht) hrun, fun hne => absurd rfl hne,
      fun _ => ⟨hc, Or.inr ?_⟩, fun _ => rfl⟩
    exact hat.trans (congrArg DispatcherPoint.ran hrun.current.symm)

theorem Kernel.moves_manager (hc : k.current ≠ 0) {p : ManagerPoint}
    (hp : k.point k.current = .manager p) (hs : Managed k p k') :
    Moves k .manager k' := by
  have hm : ∀ q : ManagerPoint, (TaskPoint.manager q).isManager =
      (k.point k.current).isManager := fun q => by rw [hp]; rfl
  cases hs with
  | starts => exact .of_setPoint (.same rfl) (by decide) rfl rfl (hm .loop)
  | idles _ => exact .of_point (.yields rfl hc) (by decide) rfl rfl
  | @serves r _ => exact .of_setPoint (.blocks rfl hc) (by decide) rfl rfl (hm (.served r))
  | waits _ => exact .of_point (.blocks rfl hc) (by decide) rfl rfl
  | answers haw =>
      exact .of_setPoint (.wakes rfl (taskAwake_waking haw)) (by decide) rfl rfl (hm .loop)

/-- A call of the running task. -/
theorem Kernel.moves_call (hc : k.current ≠ 0) (hu : k.point k.current = .user)
    (hs : Called k a k') : Moves k a k' := by
  have hm : ∀ {p : TaskPoint}, p.isManager = false →
      p.isManager = (k.point k.current).isManager := fun hp => by rw [hp, hu]; rfl
  cases hs with
  | creates => exact .of_point (.creates rfl (creates_taskCreate k.sys)) (by decide) rfl rfl
  | yields => exact .of_point (.yields rfl hc) (by decide) rfl rfl
  | sleeps | joins _ _ =>
      exact .of_setPoint (.suspends rfl hc (by decide) fun _ => rfl) (by simp) rfl rfl (hm rfl)
  | exits he => exact .of_point (.exits hc he) (by simp) rfl rfl
  | waits _ _ => exact .of_setPoint (.blocks rfl hc) (by simp) rfl rfl (hm rfl)
  | asks hb =>
      rw [blockCall_of_buffer k hb]
      exact .of_setPoint (.blocks rfl hc) (by simp) rfl rfl (hm rfl)
  | ups _ _ haw => exact .of_point (.wakes rfl (taskAwake_waking haw)) (by simp) rfl rfl
  | destroys _ hx => exact .of_point (.wakes rfl (semDestroy_waking hx)) (by simp) rfl rfl
  | refused | finds _ _ | semCreates _ | semRefused _ | downs _ _ | rejects | stores =>
      exact .of_point (.same rfl) (by simp) rfl rfl

/-- The rest of a kernel function. -/
theorem Kernel.moves_resume {k₁ : Kernel} (hm : (k.point k.current).isManager = false)
    (hsys : k₁.sys = k.sys) (hd : k₁.dispatcher = k.dispatcher) (hp : k₁.point = k.point) :
    Moves k .resume (k₁.setPoint .user) := by
  refine .of_setPoint (p := .user) ?_ (by decide) hd ?_ hm.symm
  · rw [show (k₁.setPoint .user).sys = k.sys from hsys]
    exact .same rfl
  · unfold Kernel.setPoint Kernel.current
    rw [hsys, hp]

/-- **Every step of the kernel** but a tick is a turn. -/
theorem Kernel.moves (hs : k.step a = some k') (ha : a ≠ .tick) : Moves k a k' := by
  cases Kernel.stepped hs with
  | calls hc hu hcall => exact Kernel.moves_call hc hu hcall
  | returns _ hp =>
      refine Kernel.moves_resume ?_ rfl rfl rfl
      cases hq : k.point k.current with
      | taskWait _ | taskSleep | block => rfl
      | _ =>
          rw [hq] at hp
          exact absurd hp (by simp [TaskPoint.returns])
  | returnsDown _ hp _ =>
      exact Kernel.moves_resume (by rw [hp]; rfl) rfl rfl rfl
  | manages hc hp hm => exact Kernel.moves_manager (by omega) (hc ▸ hp) hm
  | dispatches hc hd => exact Kernel.moves_dispatcher hc hd
  | transfers _ => exact .of_point (.same rfl) (by simp) rfl rfl
  | interrupts _ haw => exact .of_point (.wakes rfl (taskAwake_waking haw)) (by simp) rfl rfl
  | ticks _ => exact absurd rfl ha

/-! ## What holds whatever is switched to -/

/-- The kernel is ready and in no queue of ready tasks; only tasks that have been created
run, are ready, or are parents. -/
structure SwitchInv (S : TaskSystem) : Prop where
  kernelReady : (S.task 0).status = .ready
  kernelOut : 0 ∉ S.inQueue .ready
  current : S.currentActiveTask ≤ S.currentTaskId
  ready : ∀ t ∈ S.inQueue .ready, t ≤ S.currentTaskId
  parent : ∀ t ≤ S.currentTaskId, ∀ p ∈ (S.task t).parent, p ≤ S.currentTaskId
  fresh : ∀ t, S.currentTaskId < t → (S.task t).status = .ready

theorem Creates.inReady (h : Creates S S') (ht : t ∈ S'.inQueue .ready) :
    t ∈ S.inQueue .ready ∨ t = S.currentTaskId + 1 := by
  by_cases hnew : t = S.currentTaskId + 1
  · exact Or.inr hnew
  · left
    have hpos : 0 < S'.occurs .ready t := List.count_pos_iff.mpr ht
    rw [h.occurs, if_neg fun hand => hnew hand.2] at hpos
    exact List.count_pos_iff.mp hpos

theorem Leaves.inReady {b : Tcb} (h : Leaves S S' b i) (ht : t ∈ S'.inQueue .ready) :
    t ∈ S.inQueue .ready ∨ (i = .ready ∧ t = S.currentActiveTask) := by
  by_cases hc : QueueId.ready = i ∧ t = S.currentActiveTask
  · exact Or.inr ⟨hc.1.symm, hc.2⟩
  · left
    have hpos : 0 < S'.occurs .ready t := List.count_pos_iff.mpr ht
    rw [h.occurs, if_neg hc] at hpos
    exact List.count_pos_iff.mp hpos

theorem Dispatches.inReady {x : Nat} (h : Dispatches S S' x) (ht : t ∈ S'.inQueue .ready) :
    t ∈ S.inQueue .ready := by
  have hpos : 0 < S'.occurs .ready t := List.count_pos_iff.mpr ht
  rw [h.occurs] at hpos
  exact List.count_pos_iff.mp (Nat.lt_of_lt_of_le hpos (Nat.sub_le _ _))

/-- The running task has exited: it is finished, the others are touched as by a wake-up. -/
structure Departs (S S' : TaskSystem) : Prop where
  current : S'.currentActiveTask = 0
  currentTaskId : S'.currentTaskId = S.currentTaskId
  finished : (S'.task S.currentActiveTask).status = .finished
  status : ∀ t, t ≠ S.currentActiveTask → (S'.task t).status = (S.task t).status ∨
    ((S.task t).status = .suspended ∧ (S'.task t).status = .ready)
  kept : ∀ t, (S'.task t).parent = (S.task t).parent ∧
    (S'.task t).remainingQuantumTime = (S.task t).remainingQuantumTime
  occurs : ∀ t, S'.occurs .ready t ≤ S.occurs .ready t ∨
    (t ≠ S.currentActiveTask ∧ (S.task t).status = .suspended ∧ (S'.task t).status = .ready ∧
      S'.occurs .ready t ≤ S.occurs .ready t + 1)

/-- The loop of `task_exit`, seen from `ready_queue`. -/
theorem exitLoop_ready {isDue : TaskSystem → Nat → Bool} {code : Int}
    (hs : wakeLoop .suspended isDue (fun b => { b with targetExitCode := code }) S = .ok S') :
    S'.currentTaskId = S.currentTaskId ∧ ReadyFrom S S' := by
  apply wakeLoop_keeps (S := S)
    (fun T => T.currentTaskId = S.currentTaskId ∧ ReadyFrom S T) _ _ _ ⟨rfl, ReadyFrom.refl S⟩ hs
  · intro T t hT
    exact ⟨hT.1, hT.2.trans (readyFrom_modify fun _ => rfl)⟩
  · intro T T' t hT hawake
    have hw := taskAwake_waking hawake
    exact ⟨hw.passive.currentTaskId.trans hT.1, hT.2.trans hw.ready⟩
  · intro T q hT hq
    exact ⟨hT.1, hT.2.trans (readyFrom_walk hq)⟩

/-- **`task_exit`**, from whatever state. -/
theorem taskExit_departs {code : Int} (he : taskExit S code = .ok S')
    (hc : S.currentActiveTask ≠ 0) (hk : (S.task 0).status = .ready) : Departs S S' := by
  obtain ⟨c, hcur⟩ : ∃ c, S.currentActiveTask = c := ⟨_, rfl⟩
  have hc0 : c ≠ 0 := hcur ▸ hc
  obtain ⟨T, hT, hS'⟩ := taskExit_ok he hc
  rw [hcur] at hT hS'
  obtain ⟨hn, hready⟩ := exitLoop_ready hT
  obtain ⟨-, hall⟩ := exitLoop_exited hT
  have hmark : ∀ t, t ≠ c → (S.modify c (Tcb.exited code)).task t = S.task t := by
    intro t ht
    rw [modify_task, Function.update_of_ne ht]
  have hmarkc : (S.modify c (Tcb.exited code)).task c = (S.task c).exited code := by
    rw [modify_task, Function.update_self]
  have hkT : (T.task 0).status = .ready := by
    rcases (hall 0).1.status with hs | ⟨-, hs, -⟩
    · rw [hs, hmark 0 (Ne.symm hc0)]
      exact hk
    · exact hs
  have hk' : ((T.setQueue .finished (queueAdd (T.queue .finished) c)).task 0).status =
      .ready := hkT
  rw [toKernel_eq hk'] at hS'
  have hfields : ∀ t, (S'.task t).status = (T.task t).status ∧
      (S'.task t).parent = (T.task t).parent ∧
      (S'.task t).remainingQuantumTime = (T.task t).remainingQuantumTime := by
    intro t
    rw [hS']
    by_cases ht : t = 0
    · subst ht
      simp
    · simp [Function.update_of_ne ht]
  have hinReady : S'.inQueue .ready = T.inQueue .ready := by
    rw [hS']
    exact (setQueue_inQueue T .finished .ready (queueAdd (T.queue .finished) c)).trans
      (if_neg (by decide))
  refine ⟨?_, ?_, ?_, fun t ht => ?_, fun t => ?_, fun t => ?_⟩
  · rw [hS']
  · rw [hS']
    exact hn
  · rw [hcur, (hfields c).1]
    rcases (hall c).1.status with hs | ⟨hs, -⟩
    · rw [hs, hmarkc]
      rfl
    · rw [hmarkc] at hs
      exact absurd hs (by simp [Tcb.exited])
  · rw [hcur] at ht
    rw [(hfields t).1]
    have hs := (hall t).1.status
    rw [hmark t ht] at hs
    exact hs.imp id fun h => ⟨h.1, h.2.1⟩
  · rw [(hfields t).2.1, (hfields t).2.2]
    have hf := (hall t).1.fields
    rw [hf]
    by_cases htc : t = c
    · rw [htc, hmarkc]
      exact ⟨rfl, rfl⟩
    · rw [hmark t htc]
      exact ⟨rfl, rfl⟩
  · rw [show S'.occurs .ready t = T.occurs .ready t from congrArg (List.count t) hinReady,
      hcur, (hfields t).1]
    have hoccurs := hready.occurs t
    by_cases htc : t = c
    · rw [htc, hmarkc] at hoccurs
      left
      rw [htc]
      exact hoccurs.resolve_right fun h => absurd h.1 (by simp [Tcb.exited])
    · rw [hmark t htc] at hoccurs
      exact hoccurs.imp id fun h => ⟨htc, h⟩

theorem Departs.inReady (h : Departs S S') (ht : t ∈ S'.inQueue .ready) :
    t ∈ S.inQueue .ready ∨ (t ≠ S.currentActiveTask ∧ (S.task t).status = .suspended) := by
  have hpos : 0 < S'.occurs .ready t := List.count_pos_iff.mpr ht
  rcases h.occurs t with hle | ⟨hne, hsusp, -, -⟩
  · exact Or.inl (List.count_pos_iff.mp (Nat.lt_of_lt_of_le hpos hle))
  · exact Or.inr ⟨hne, hsusp⟩

/-- The counted tick, before the running task yields. -/
def TaskSystem.ticked (S : TaskSystem) : TaskSystem :=
  { S with clock := addInt S.clock 1 }.modify S.currentActiveTask fun b =>
    { b with remainingQuantumTime := b.remainingQuantumTime - 1 }

theorem tick_eq (S : TaskSystem) : handleTimerSignal S =
    if (S.task S.currentActiveTask).remainingQuantumTime = 1 then taskYield S.ticked
    else S.ticked := by
  have hrem : (S.ticked.task S.currentActiveTask).remainingQuantumTime =
      (S.task S.currentActiveTask).remainingQuantumTime - 1 := by
    simp [TaskSystem.ticked]
  change (if (S.ticked.task S.currentActiveTask).remainingQuantumTime = 0 then _ else _) = _
  rw [hrem]
  exact if_congr (by omega) rfl rfl

theorem ticked_kept (S : TaskSystem) (t : Nat) : (S.ticked.task t).status = (S.task t).status ∧
    (S.ticked.task t).parent = (S.task t).parent := by
  by_cases ht : t = S.currentActiveTask
  · subst ht
    simp [TaskSystem.ticked]
  · simp [TaskSystem.ticked, Function.update_of_ne ht]

/-- The kernel yields to itself. -/
theorem taskYield_kernel (hc : S.currentActiveTask = 0) :
    taskYield S = S.modify 0 fun b =>
      { b with
        executionTime := addInt b.executionTime quantum
        remainingQuantumTime := quantum
        status := .ready } := by
  unfold taskYield taskSwitch
  simp [hc, taskKernel]
  simp [TaskSystem.modify, hc]

theorem SwitchInv.leaves (h : SwitchInv S) {b : Tcb} (hl : Leaves S S' b i)
    (hc : S.currentActiveTask ≠ 0) (hb : b.parent = (S.task S.currentActiveTask).parent) :
    SwitchInv S' := by
  have hk : (S'.task 0).status = .ready := by
    rw [hl.kernel]
    exact h.kernelReady
  refine ⟨hk, fun h0 => ?_, ?_, fun t ht => ?_, fun t ht p hp => ?_, fun t ht => ?_⟩
  · rcases hl.inReady h0 with hmem | ⟨-, heq⟩
    · exact h.kernelOut hmem
    · exact hc heq.symm
  · rw [hl.current]
    omega
  · rw [hl.currentTaskId]
    rcases hl.inReady ht with hmem | ⟨-, heq⟩
    · exact h.ready t hmem
    · exact heq ▸ h.current
  · rw [hl.currentTaskId] at ht ⊢
    apply h.parent t ht p
    by_cases htc : t = S.currentActiveTask
    · rw [htc, hl.task, hb] at hp
      exact htc ▸ hp
    · by_cases ht0 : t = 0
      · rw [ht0, hl.kernel] at hp
        exact ht0 ▸ hp
      · rw [hl.others t htc ht0] at hp
        exact hp
  · rw [hl.currentTaskId] at ht
    have hcur := h.current
    rw [hl.others t (by omega) (by omega)]
    exact h.fresh t ht

theorem SwitchInv.wakes (h : SwitchInv S) (hw : Waking S S') : SwitchInv S' := by
  have hready : ∀ t ∈ S'.inQueue .ready, t ∈ S.inQueue .ready ∨
      (t ≠ 0 ∧ t ≤ S.currentTaskId) := by
    intro t ht
    rcases hw.ready.inReady ht with hmem | hsusp
    · exact Or.inl hmem
    · right
      refine ⟨fun ht0 => ?_, ?_⟩
      · rw [ht0, h.kernelReady] at hsusp
        exact absurd hsusp (by decide)
      · by_contra hgt
        rw [h.fresh t (by omega)] at hsusp
        exact absurd hsusp (by decide)
  have hstatus : ∀ t, (S.task t).status = .ready → (S'.task t).status = .ready := by
    intro t ht
    rcases (hw.passive.task t).status with hs | ⟨-, hs⟩
    · exact hs.trans ht
    · exact hs
  refine ⟨hstatus 0 h.kernelReady, fun h0 => ?_, ?_, fun t ht => ?_, fun t ht p hp => ?_,
    fun t ht => ?_⟩
  · rcases hready 0 h0 with hmem | ⟨hne, -⟩
    · exact h.kernelOut hmem
    · exact hne rfl
  · rw [hw.passive.current, hw.passive.currentTaskId]
    exact h.current
  · rw [hw.passive.currentTaskId]
    rcases hready t ht with hmem | ⟨-, hle⟩
    · exact h.ready t hmem
    · exact hle
  · rw [hw.passive.currentTaskId] at ht ⊢
    rw [(hw.passive.task t).fields] at hp
    exact h.parent t ht p hp
  · rw [hw.passive.currentTaskId] at ht
    exact hstatus t (h.fresh t ht)

theorem SwitchInv.creates (h : SwitchInv S) (hc : Creates S S') : SwitchInv S' := by
  have hcur := h.current
  have hsame : ∀ t, t ≠ S.currentTaskId + 1 → S'.task t = S.task t := hc.others
  refine ⟨?_, fun h0 => ?_, ?_, fun t ht => ?_, fun t ht p hp => ?_, fun t ht => ?_⟩
  · rw [hsame 0 (by omega)]
    exact h.kernelReady
  · rcases hc.inReady h0 with hmem | heq
    · exact h.kernelOut hmem
    · omega
  · rw [hc.current, hc.currentTaskId]
    omega
  · rw [hc.currentTaskId]
    rcases hc.inReady ht with hmem | heq
    · exact Nat.le_succ_of_le (h.ready t hmem)
    · omega
  · rw [hc.currentTaskId] at ht ⊢
    by_cases hnew : t = S.currentTaskId + 1
    · rw [hnew, hc.task] at hp
      obtain rfl : S.currentActiveTask = p := Option.some.inj hp
      omega
    · rw [hsame t hnew] at hp
      exact Nat.le_succ_of_le (h.parent t (by omega) p hp)
  · rw [hc.currentTaskId] at ht
    rw [hsame t (by omega)]
    exact h.fresh t (by omega)

theorem SwitchInv.dispatches (h : SwitchInv S) (ht : t ∈ S.inQueue .ready)
    (hd : Dispatches S S' t) : SwitchInv S' := by
  have ht0 : t ≠ 0 := fun heq => h.kernelOut (heq ▸ ht)
  refine ⟨?_, fun h0 => h.kernelOut (hd.inReady h0), ?_, fun y hy => ?_, fun y hy p hp => ?_,
    fun y hy => ?_⟩
  · rw [hd.others 0 (Ne.symm ht0)]
    exact h.kernelReady
  · rw [hd.current, hd.currentTaskId]
    exact h.ready t ht
  · rw [hd.currentTaskId]
    exact h.ready y (hd.inReady hy)
  · rw [hd.currentTaskId] at hy ⊢
    apply h.parent y hy p
    by_cases hyt : y = t
    · rw [hyt, hd.task] at hp
      exact hyt ▸ hp
    · rw [hd.others y hyt] at hp
      exact hp
  · rw [hd.currentTaskId] at hy
    have hle := h.ready t ht
    rw [hd.others y (by omega)]
    exact h.fresh y hy

theorem SwitchInv.departs (h : SwitchInv S) (hc : S.currentActiveTask ≠ 0)
    (hd : Departs S S') : SwitchInv S' := by
  have hcur := h.current
  have hstatus : ∀ t, t ≠ S.currentActiveTask → (S.task t).status = .ready →
      (S'.task t).status = .ready := by
    intro t htc ht
    rcases hd.status t htc with hs | ⟨-, hs⟩
    · exact hs.trans ht
    · exact hs
  refine ⟨hstatus 0 (Ne.symm hc) h.kernelReady, fun h0 => ?_, ?_, fun t ht => ?_,
    fun t ht p hp => ?_, fun t ht => ?_⟩
  · rcases hd.inReady h0 with hmem | ⟨-, hsusp⟩
    · exact h.kernelOut hmem
    · rw [h.kernelReady] at hsusp
      exact absurd hsusp (by decide)
  · rw [hd.current]
    omega
  · rw [hd.currentTaskId]
    rcases hd.inReady ht with hmem | ⟨-, hsusp⟩
    · exact h.ready t hmem
    · by_contra hgt
      rw [h.fresh t (by omega)] at hsusp
      exact absurd hsusp (by decide)
  · rw [hd.currentTaskId] at ht ⊢
    rw [(hd.kept t).1] at hp
    exact h.parent t ht p hp
  · rw [hd.currentTaskId] at ht
    exact hstatus t (by omega) (h.fresh t ht)

theorem SwitchInv.ticked (h : SwitchInv S) : SwitchInv S.ticked := by
  refine ⟨?_, h.kernelOut, h.current, h.ready, fun t ht p hp => ?_, fun t ht => ?_⟩
  · rw [(ticked_kept S 0).1]
    exact h.kernelReady
  · rw [(ticked_kept S t).2] at hp
    exact h.parent t ht p hp
  · rw [(ticked_kept S t).1]
    exact h.fresh t ht

theorem SwitchInv.yield (h : SwitchInv S) : SwitchInv (taskYield S) := by
  by_cases hc : S.currentActiveTask = 0
  · rw [taskYield_kernel hc]
    have hother : ∀ t f, t ≠ 0 → (S.modify 0 f).task t = S.task t := fun t f ht => by
      rw [modify_task, Function.update_of_ne ht]
    refine ⟨by simp, h.kernelOut, h.current, h.ready, fun t ht p hp => ?_, fun t ht => ?_⟩
    · by_cases ht0 : t = 0
      · subst ht0
        rw [modify_task, Function.update_self] at hp
        exact h.parent 0 ht p hp
      · rw [hother t _ ht0] at hp
        exact h.parent t ht p hp
    · have hlt : S.currentTaskId < t := ht
      rw [hother t _ (by omega)]
      exact h.fresh t ht
  · exact h.leaves (leaves_taskYield h.kernelReady hc) hc rfl

theorem SwitchInv.tick (h : SwitchInv S) : SwitchInv (handleTimerSignal S) := by
  rw [tick_eq]
  split
  · exact h.ticked.yield
  · exact h.ticked

/-- What `task_switch` does. -/
theorem taskSwitch_cases (S : TaskSystem) (task : Option Nat) :
    (taskSwitch S task).2 = S ∨
      (∃ t, task = some t ∧ (S.task t).status ≠ .finished ∧
        (taskSwitch S task).2 = { S with currentActiveTask := t }) ∨
      (∃ p, task = none ∧ (S.task S.currentActiveTask).parent = some p ∧
        (taskSwitch S task).2 = { S with currentActiveTask := p }) := by
  unfold taskSwitch
  cases task with
  | none =>
      by_cases hid : (S.task S.currentActiveTask).id = 0
      · exact Or.inl (by rw [if_pos hid])
      · cases hp : (S.task S.currentActiveTask).parent with
        | none => exact Or.inl (by rw [if_neg hid])
        | some p => exact Or.inr (Or.inr ⟨p, rfl, rfl, by rw [if_neg hid]⟩)
  | some t =>
      by_cases hfin : (S.task t).status = .finished
      · exact Or.inl (by simp [hfin])
      · exact Or.inr (Or.inl ⟨t, rfl, hfin, by simp [hfin]⟩)

theorem SwitchInv.switch (h : SwitchInv S) {task : Option Nat}
    (htask : ∀ t ∈ task, t ≤ S.currentTaskId) : SwitchInv (taskSwitch S task).2 := by
  have hmove : ∀ t ≤ S.currentTaskId, SwitchInv { S with currentActiveTask := t } := fun t ht =>
    ⟨h.kernelReady, h.kernelOut, ht, h.ready, h.parent, h.fresh⟩
  rcases taskSwitch_cases S task with hs | ⟨t, ht, -, hs⟩ | ⟨p, -, hp, hs⟩
  · rw [hs]
    exact h
  · rw [hs]
    exact hmove t (htask t ht)
  · rw [hs]
    exact hmove p (h.parent _ h.current p hp)

theorem SwitchInv.turn (h : SwitchInv S) (ht : Turn S a S') : SwitchInv S' := by
  cases ht with
  | creates _ hc => exact h.creates hc
  | wakes _ hw => exact h.wakes hw
  | yields _ _ => exact h.yield
  | @suspends _ f i _ hc hi hf =>
      have hb := hf (S.task S.currentActiveTask)
      unfold SuspendedFrom at hb
      apply h.leaves (leaves_taskSuspend h.kernelReady hc f i) hc
      rw [hb]
  | runs _ hw hready hd => exact (h.wakes hw).dispatches hready hd
  | exits hc he => exact h.departs hc (taskExit_departs he hc h.kernelReady)

/-- A step is a tick, a direct switch, or a turn of the kernel. -/
theorem switchStep_cases {b : SwitchAction} (hs : switchStep k b = some k') :
    (b = .kernel .tick ∧ k' = { k with sys := handleTimerSignal k.sys }) ∨
      (∃ task, b = .switch task ∧ (∀ t ∈ task, t ≤ k.sys.currentTaskId) ∧
        k.current ≠ 0 ∧ k' = { k with sys := (taskSwitch k.sys task).2 }) ∨
      ∃ a, b = .kernel a ∧ a ≠ .tick ∧ k.step a = some k' ∧ Moves k a k' := by
  cases b with
  | kernel a =>
      by_cases ha : a = .tick
      · subst ha
        exact Or.inl ⟨rfl, (Option.some.inj hs).symm⟩
      · right
        right
        have hs' : k.step a = some k' := by
          cases a with
          | tick => exact absurd rfl ha
          | _ => exact hs
        exact ⟨a, rfl, ha, hs', Kernel.moves hs' ha⟩
  | switch task =>
      right
      left
      change (if k.current ≠ taskKernel ∧ k.point k.current = .user ∧
        ∀ t ∈ task, t ≤ k.sys.currentTaskId then _ else _) = _ at hs
      split at hs
      · rename_i hcond
        exact ⟨task, rfl, hcond.2.2, hcond.1, (Option.some.inj hs).symm⟩
      · exact absurd hs (by simp)

theorem switchInv_boot (numblocks : Int) (image : Int → Block) (memory : Nat → UInt8) :
    SwitchInv (Kernel.boot numblocks image memory).sys := by
  have hready : (Kernel.boot numblocks image memory).sys.inQueue .ready = [1] := rfl
  refine ⟨rfl, ?_, Nat.zero_le _, fun t ht => ?_, fun t ht p hp => ?_, fun t ht => ?_⟩
  · rw [hready]
    decide
  · rw [hready] at ht
    exact (List.mem_singleton.mp ht).le
  · obtain rfl | rfl : t = 0 ∨ t = 1 := by
      have : t ≤ 1 := ht
      omega
    · exact absurd hp (by simp [Kernel.boot, taskCreate, dispatcherInit, Tcb.zero, taskKernel,
        taskDiskHandler])
    · obtain rfl : 0 = p := Option.some.inj hp
      exact Nat.zero_le _
  · have ht1 : t ≠ 1 := by
      have : 1 < t := ht
      omega
    exact (boot_task _ _ _ ht1).1

end PingPongOS
