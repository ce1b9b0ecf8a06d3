import PingPongOS.DirectSwitch

/-!
# The quantum under direct switches

The quantum of a task is restored when the dispatcher runs it and when it yields.  A
`task_switch` restores nothing: it is safe towards a task that has been run before, and
the parent of a task has.
-/

namespace PingPongOS

open Runs TaskSystem

/-- A `task_switch` of this step finds a task with quantum left, or one that has
finished, which it ignores. -/
def switchesToQuantum (k : Kernel) : SwitchAction → Bool
  | .switch (some t) => decide ((k.sys.task t).status = .finished ∨
      1 ≤ (k.sys.task t).remainingQuantumTime)
  | _ => true

/-- Every quantum is in bounds, and the running task, the kernel and every parent have
some left. -/
structure QuantumInv (S : TaskSystem) : Prop where
  sys : SwitchInv S
  bounds : ∀ t ≤ S.currentTaskId, 0 ≤ (S.task t).remainingQuantumTime ∧
    (S.task t).remainingQuantumTime ≤ quantum
  current : 1 ≤ (S.task S.currentActiveTask).remainingQuantumTime
  kernel : 1 ≤ (S.task 0).remainingQuantumTime
  parent : ∀ t ≤ S.currentTaskId, ∀ p ∈ (S.task t).parent,
    1 ≤ (S.task p).remainingQuantumTime

variable {S S' : TaskSystem} {t : Nat} {i : QueueId} {k k' : Kernel} {a : Action}
  {b : SwitchAction}

/-- Every quantum is as before or has been restored. -/
def Restores (S S' : TaskSystem) : Prop :=
  ∀ t ≤ S.currentTaskId, (S'.task t).parent = (S.task t).parent ∧
    ((S'.task t).remainingQuantumTime = (S.task t).remainingQuantumTime ∨
      (1 ≤ (S'.task t).remainingQuantumTime ∧ (S'.task t).remainingQuantumTime ≤ quantum))

/-- Such a step keeps the invariant, if who runs next has quantum left. -/
theorem QuantumInv.keep (h : QuantumInv S) (hsys : SwitchInv S')
    (hn : S'.currentTaskId = S.currentTaskId) (hr : Restores S S')
    (hcur : 1 ≤ (S'.task S'.currentActiveTask).remainingQuantumTime) : QuantumInv S' := by
  have hleft : ∀ t ≤ S.currentTaskId, 1 ≤ (S.task t).remainingQuantumTime →
      1 ≤ (S'.task t).remainingQuantumTime := by
    intro t ht hpos
    rcases (hr t ht).2 with hsame | ⟨hpos', -⟩
    · exact hsame ▸ hpos
    · exact hpos'
  refine ⟨hsys, fun t ht => ?_, hcur, hleft 0 (Nat.zero_le _) h.kernel, fun t ht p hp => ?_⟩
  · rw [hn] at ht
    rcases (hr t ht).2 with hsame | ⟨hpos, hle⟩
    · rw [hsame]
      exact h.bounds t ht
    · exact ⟨by omega, hle⟩
  · rw [hn] at ht
    rw [(hr t ht).1] at hp
    exact hleft p (h.sys.parent t ht p hp) (h.parent t ht p hp)

/-- The running task leaves the CPU with its quantum as it is, or restored. -/
theorem QuantumInv.leaves (h : QuantumInv S) {b : Tcb} (hl : Leaves S S' b i)
    (hc : S.currentActiveTask ≠ 0) (hparent : b.parent = (S.task S.currentActiveTask).parent)
    (hrem : b.remainingQuantumTime = (S.task S.currentActiveTask).remainingQuantumTime ∨
      b.remainingQuantumTime = quantum) : QuantumInv S' := by
  refine h.keep (h.sys.leaves hl hc hparent) hl.currentTaskId (fun t ht => ?_) ?_
  · by_cases htc : t = S.currentActiveTask
    · rw [htc, hl.task]
      refine ⟨hparent, hrem.imp id fun heq => ?_⟩
      rw [heq]
      decide
    · by_cases ht0 : t = 0
      · rw [ht0, hl.kernel]
        exact ⟨rfl, Or.inl rfl⟩
      · rw [hl.others t htc ht0]
        exact ⟨rfl, Or.inl rfl⟩
  · rw [hl.current, hl.kernel]
    exact h.kernel

theorem QuantumInv.wakes (h : QuantumInv S) (hw : Waking S S') : QuantumInv S' := by
  have hsame : ∀ t, (S'.task t).parent = (S.task t).parent ∧
      (S'.task t).remainingQuantumTime = (S.task t).remainingQuantumTime := by
    intro t
    rw [(hw.passive.task t).fields]
    exact ⟨rfl, rfl⟩
  refine h.keep (h.sys.wakes hw) hw.passive.currentTaskId (fun t _ => ?_) ?_
  · exact ⟨(hsame t).1, Or.inl (hsame t).2⟩
  · rw [hw.passive.current, (hsame _).2]
    exact h.current

/-- A new task has no quantum, and runs only when the dispatcher has given it one. -/
theorem QuantumInv.creates (h : QuantumInv S) (hc : Creates S S') : QuantumInv S' := by
  have hcur := h.sys.current
  have hsame : ∀ t, t ≤ S.currentTaskId → S'.task t = S.task t := fun t ht =>
    hc.others t (by omega)
  refine ⟨h.sys.creates hc, fun t ht => ?_, ?_, ?_, fun t ht p hp => ?_⟩
  · rw [hc.currentTaskId] at ht
    by_cases hnew : t = S.currentTaskId + 1
    · rw [hnew, hc.task]
      exact (by decide : (0 : Int) ≤ 0 ∧ 0 ≤ quantum)
    · rw [hsame t (by omega)]
      exact h.bounds t (by omega)
  · rw [hc.current, hsame _ hcur]
    exact h.current
  · rw [hsame 0 (Nat.zero_le _)]
    exact h.kernel
  · rw [hc.currentTaskId] at ht
    by_cases hnew : t = S.currentTaskId + 1
    · rw [hnew, hc.task] at hp
      obtain rfl : S.currentActiveTask = p := Option.some.inj hp
      rw [hsame _ hcur]
      exact h.current
    · rw [hsame t (by omega)] at hp
      rw [hsame p (h.sys.parent t (by omega) p hp)]
      exact h.parent t (by omega) p hp

theorem QuantumInv.dispatches (h : QuantumInv S) (ht : t ∈ S.inQueue .ready)
    (hd : Dispatches S S' t) : QuantumInv S' := by
  refine h.keep (h.sys.dispatches ht hd) hd.currentTaskId (fun y _ => ?_) ?_
  · by_cases hyt : y = t
    · rw [hyt, hd.task]
      exact ⟨rfl, Or.inr (by decide : (1 : Int) ≤ quantum ∧ quantum ≤ quantum)⟩
    · rw [hd.others y hyt]
      exact ⟨rfl, Or.inl rfl⟩
  · rw [hd.current, hd.task]
    exact (by decide : (1 : Int) ≤ quantum)

theorem QuantumInv.departs (h : QuantumInv S) (hc : S.currentActiveTask ≠ 0)
    (hd : Departs S S') : QuantumInv S' := by
  refine h.keep (h.sys.departs hc hd) hd.currentTaskId (fun t _ => ?_) ?_
  · exact ⟨(hd.kept t).1, Or.inl (hd.kept t).2⟩
  · rw [hd.current, (hd.kept 0).2]
    exact h.kernel

theorem QuantumInv.turn (h : QuantumInv S) (ht : Turn S a S') : QuantumInv S' := by
  cases ht with
  | creates _ hc => exact h.creates hc
  | wakes _ hw => exact h.wakes hw
  | yields _ hc => exact h.leaves (leaves_taskYield h.sys.kernelReady hc) hc rfl (Or.inr rfl)
  | @suspends _ f i _ hc hi hf =>
      have hb := hf (S.task S.currentActiveTask)
      unfold SuspendedFrom at hb
      apply h.leaves (leaves_taskSuspend h.sys.kernelReady hc f i) hc
      · rw [hb]
      · exact Or.inl (by rw [hb])
  | runs _ hw hready hd => exact (h.wakes hw).dispatches hready hd
  | exits hc he => exact h.departs hc (taskExit_departs he hc h.sys.kernelReady)

theorem ticked_current (S : TaskSystem) : S.ticked.currentActiveTask = S.currentActiveTask :=
  rfl

/-- The quanta after the decrement of a tick. -/
theorem ticked_rem (S : TaskSystem) (t : Nat) : (S.ticked.task t).remainingQuantumTime =
    if t = S.currentActiveTask then (S.task t).remainingQuantumTime - 1
    else (S.task t).remainingQuantumTime := by
  by_cases ht : t = S.currentActiveTask
  · subst ht
    simp [TaskSystem.ticked]
  · simp [TaskSystem.ticked, ht]

/-- The quanta after `task_yield`. -/
theorem taskYield_rem (hk : (S.task 0).status = .ready) (t : Nat) :
    ((taskYield S).task t).parent = (S.task t).parent ∧
    ((taskYield S).task t).remainingQuantumTime =
      (if t = S.currentActiveTask then quantum else (S.task t).remainingQuantumTime) ∧
    (taskYield S).currentActiveTask = 0 ∧ (taskYield S).currentTaskId = S.currentTaskId := by
  by_cases hc : S.currentActiveTask = 0
  · rw [taskYield_kernel hc, hc]
    by_cases ht : t = 0
    · subst ht
      simp [hc]
    · simp [ht, hc]
  · have hl := leaves_taskYield hk hc
    refine ⟨?_, ?_, hl.current, hl.currentTaskId⟩
    all_goals
      by_cases htc : t = S.currentActiveTask
      · subst htc
        simp [hl.task]
      · by_cases ht0 : t = 0
        · simp [ht0, hl.kernel, Ne.symm hc]
        · simp [hl.others t htc ht0, htc]

theorem QuantumInv.tick (h : QuantumInv S) : QuantumInv (handleTimerSignal S) := by
  have hsys := h.sys.tick
  have hcur := h.current
  have hle := (h.bounds _ h.sys.current).2
  rw [tick_eq] at hsys ⊢
  by_cases hq : (S.task S.currentActiveTask).remainingQuantumTime = 1
  · rw [if_pos hq] at hsys ⊢
    have hk : (S.ticked.task 0).status = .ready := (ticked_kept S 0).1.trans h.sys.kernelReady
    have hyield := taskYield_rem hk
    refine h.keep hsys (hyield 0).2.2.2 (fun t ht => ?_) ?_
    · refine ⟨(hyield t).1.trans (ticked_kept S t).2, ?_⟩
      rw [(hyield t).2.1, ticked_current]
      by_cases htc : t = S.currentActiveTask
      · rw [if_pos htc]
        exact Or.inr (by decide)
      · rw [if_neg htc, ticked_rem, if_neg htc]
        exact Or.inl rfl
    · rw [(hyield 0).2.2.1, (hyield 0).2.1]
      rw [ticked_current]
      by_cases hc : 0 = S.currentActiveTask
      · rw [if_pos hc]
        decide
      · rw [if_neg hc, ticked_rem, if_neg hc]
        exact h.kernel
  · rw [if_neg hq] at hsys ⊢
    refine h.keep hsys rfl (fun t _ => ?_) ?_
    · refine ⟨(ticked_kept S t).2, ?_⟩
      rw [ticked_rem]
      by_cases htc : t = S.currentActiveTask
      · rw [if_pos htc, htc]
        exact Or.inr ⟨by omega, by omega⟩
      · rw [if_neg htc]
        exact Or.inl rfl
    · rw [ticked_current, ticked_rem, if_pos rfl]
      omega

/-- Who is switched to has quantum left. -/
theorem QuantumInv.switch (h : QuantumInv S) {task : Option Nat}
    (htask : ∀ t ∈ task, t ≤ S.currentTaskId)
    (hok : ∀ t ∈ task, (S.task t).status = .finished ∨ 1 ≤ (S.task t).remainingQuantumTime) :
    QuantumInv (taskSwitch S task).2 := by
  have hsys := h.sys.switch htask
  rcases taskSwitch_cases S task with hs | ⟨t, ht, hlive, hs⟩ | ⟨p, -, hp, hs⟩
  · rw [hs]
    exact h
  · rw [hs] at hsys ⊢
    refine h.keep hsys rfl (fun y _ => ⟨rfl, Or.inl rfl⟩) ?_
    exact (hok t ht).resolve_left hlive
  · rw [hs] at hsys ⊢
    refine h.keep hsys rfl (fun y _ => ⟨rfl, Or.inl rfl⟩) ?_
    exact h.parent _ h.sys.current p hp

/-- **Every step** keeps the quanta in bounds, if it switches to a task with quantum
left. -/
theorem QuantumInv.step (h : QuantumInv k.sys) (hok : switchesToQuantum k b = true)
    (hs : switchStep k b = some k') : QuantumInv k'.sys := by
  rcases switchStep_cases hs with ⟨-, rfl⟩ | ⟨task, rfl, htask, -, rfl⟩ | ⟨a, -, -, -, hmoves⟩
  · exact h.tick
  · apply h.switch htask
    intro t ht
    rw [ht] at hok
    exact of_decide_eq_true hok
  · exact h.turn hmoves.turn

theorem quantumInv_boot (numblocks : Int) (image : Int → Block) (memory : Nat → UInt8) :
    QuantumInv (Kernel.boot numblocks image memory).sys := by
  have hpos : (1 : Int) ≤ quantum := by decide
  refine ⟨switchInv_boot .., fun t ht => ?_, hpos, hpos, fun t ht p hp => ?_⟩
  · obtain rfl | rfl : t = 0 ∨ t = 1 := by
      have : t ≤ 1 := ht
      omega
    · exact (by decide : (0 : Int) ≤ quantum ∧ quantum ≤ quantum)
    · exact (by decide : (0 : Int) ≤ 0 ∧ 0 ≤ quantum)
  · have hp0 := (switchInv_boot numblocks image memory).parent t ht p hp
    obtain rfl | rfl : t = 0 ∨ t = 1 := by
      have : t ≤ 1 := ht
      omega
    · exact absurd hp (by simp [Kernel.boot, taskCreate, dispatcherInit, Tcb.zero, taskKernel,
        taskDiskHandler])
    · obtain rfl : 0 = p := Option.some.inj hp
      exact hpos

/-! ## Ticks in a row -/

/-- Who keeps the CPU in a step has used of its quantum the tick of the step. -/
theorem QuantumInv.step_rem (h : QuantumInv k.sys) (hs : switchStep k b = some k')
    (hc : k.current ≠ 0) (hkeep : k'.current = k.current) :
    (k'.sys.task k.current).remainingQuantumTime =
      (k.sys.task k.current).remainingQuantumTime - if b = .kernel .tick then 1 else 0 := by
  have hcur : k.current ≤ k.sys.currentTaskId := h.sys.current
  have hzero : k'.sys.currentActiveTask ≠ 0 := fun h0 => hc (hkeep.symm.trans h0)
  rcases switchStep_cases hs with ⟨rfl, rfl⟩ | ⟨task, rfl, -, -, rfl⟩ | ⟨a, rfl, ha, -, hmoves⟩
  · rw [if_pos rfl]
    dsimp only at hzero ⊢
    rw [tick_eq] at hzero ⊢
    by_cases hq : (k.sys.task k.sys.currentActiveTask).remainingQuantumTime = 1
    · rw [if_pos hq] at hzero
      have hk : (k.sys.ticked.task 0).status = .ready :=
        (ticked_kept _ 0).1.trans h.sys.kernelReady
      exact absurd (taskYield_rem hk 0).2.2.1 hzero
    · rw [if_neg hq, ticked_rem, if_pos (show k.current = k.sys.currentActiveTask from rfl)]
  · rw [if_neg (by simp), Int.sub_zero]
    dsimp only
    rcases taskSwitch_cases k.sys task with hs' | ⟨t, -, -, hs'⟩ | ⟨p, -, -, hs'⟩
    all_goals rw [hs']
  · have hturn := hmoves.turn
    generalize hS : k'.sys = S at hturn hzero
    rw [if_neg (by simp [ha]), Int.sub_zero]
    cases hturn with
    | creates _ hcr => rw [hcr.others _ (by omega)]
    | wakes _ hw => rw [(hw.passive.task _).fields]
    | yields _ _ => exact absurd (taskYield_rem h.sys.kernelReady 0).2.2.1 hzero
    | @suspends _ f i _ _ _ _ =>
        exact absurd (leaves_taskSuspend h.sys.kernelReady hc f i).current hzero
    | runs hc0 _ _ _ => exact absurd hc0 hc
    | exits _ he => exact absurd (taskExit_departs he hc h.sys.kernelReady).current hzero

/-- **Ticks in a row**: while one task keeps the CPU no more ticks come than its quantum
has left. -/
theorem QuantumInv.ticks_in_row (h : QuantumInv k.sys) {bs : List SwitchAction} (ht : t ≠ 0)
    (hok : AllSteps switchStep (fun k b => switchesToQuantum k b = true) k bs)
    (hrow : AllSteps switchStep (fun k _ => k.current = t) k bs)
    (hcur : k.current = t) (hrun : run switchStep k bs = some k') :
    (bs.count (.kernel .tick) : Int) ≤ (k.sys.task t).remainingQuantumTime := by
  induction bs generalizing k with
  | nil =>
      have hpos := h.current
      rw [show k.sys.currentActiveTask = t from hcur] at hpos
      simp only [List.count_nil]
      omega
  | cons b bs ih =>
      obtain ⟨m, hs, hrest⟩ := run_cons.mp hrun
      have hm := h.step hok.1 hs
      have hpos := h.current
      rw [show k.sys.currentActiveTask = t from hcur] at hpos
      cases bs with
      | nil =>
          have hle : List.count (.kernel .tick) [b] ≤ 1 := List.count_le_length
          omega
      | cons b' bs =>
          have hmcur : m.current = t := (hrow.2 m hs).1
          have hcount := ih hm (hok.2 m hs) (hrow.2 m hs) hmcur hrest
          have hrem := h.step_rem hs (hcur ▸ ht) (hmcur.trans hcur.symm)
          rw [hcur] at hrem
          rw [hrem] at hcount
          rw [List.count_cons]
          by_cases hb : b = .kernel .tick
          · simp only [hb, if_true, beq_self_eq_true] at hcount ⊢
            push_cast
            omega
          · simp only [hb, if_false, beq_iff_eq] at hcount ⊢
            push_cast
            omega

/-- **No task monopolises the CPU**, in a run in which every `task_switch` is to a task
with quantum left: the quantum of the running task stays between one and `QUANTUM`, and
while a task keeps the CPU at most `QUANTUM` ticks come. -/
theorem quantum_bounded (numblocks : Int) (image : Int → Block) (memory : Nat → UInt8)
    (as bs : List SwitchAction) (k : Kernel)
    (hok : AllSteps switchStep (fun k b => switchesToQuantum k b = true)
      (Kernel.boot numblocks image memory) (as ++ bs))
    (hrun : run switchStep (Kernel.boot numblocks image memory) as = some k) :
    (1 ≤ (k.sys.task k.current).remainingQuantumTime ∧
      (k.sys.task k.current).remainingQuantumTime ≤ quantum) ∧
    ∀ t k', t ≠ 0 → AllSteps switchStep (fun k _ => k.current = t) k bs →
      run switchStep k bs = some k' → bs.count (.kernel .tick) ≤ quantum := by
  obtain ⟨hok₁, hok₂⟩ := AllSteps.append.mp hok
  have h : QuantumInv k.sys := invariant_of_allSteps (fun k => QuantumInv k.sys)
    (fun _ _ _ h hok hs => h.step hok hs) (quantumInv_boot numblocks image memory) hok₁ hrun
  have hbounds := h.bounds _ h.sys.current
  refine ⟨⟨h.current, hbounds.2⟩, fun t k' ht hrow hbs => ?_⟩
  cases bs with
  | nil => exact (by decide : ((0 : Nat) : Int) ≤ quantum)
  | cons b bs =>
      have hcur : k.current = t := hrow.1
      have hcount := h.ticks_in_row ht (hok₂ k hrun) hrow hcur hbs
      rw [show k.sys.currentActiveTask = t from hcur] at hbounds
      omega

/-- Task 3, which has been run, is preempted in its parent after ten ticks. -/
theorem quantum_bounded_parent : ∃ k k',
    run switchStep (Kernel.boot 4 (fun _ _ => 0) fun _ => 0)
      [.kernel .dispatcher, .kernel .dispatcher, .kernel .manager, .kernel .manager,
        .kernel .dispatcher, .kernel .dispatcher, .kernel (.create true), .kernel .yield,
        .kernel .dispatcher, .kernel .dispatcher, .kernel .manager, .kernel .dispatcher,
        .kernel .dispatcher, .switch none] = some k ∧
    k.current = 2 ∧
    (1 ≤ (k.sys.task k.current).remainingQuantumTime ∧
      (k.sys.task k.current).remainingQuantumTime ≤ quantum) ∧
    run switchStep k (List.replicate 10 (SwitchAction.kernel .tick)) = some k' ∧
    (List.replicate 10 (SwitchAction.kernel .tick)).count (.kernel .tick) ≤ quantum := by
  have hrun : (run switchStep (Kernel.boot 4 (fun _ _ => 0) fun _ => 0)
      [.kernel .dispatcher, .kernel .dispatcher, .kernel .manager, .kernel .manager,
        .kernel .dispatcher, .kernel .dispatcher, .kernel (.create true), .kernel .yield,
        .kernel .dispatcher, .kernel .dispatcher, .kernel .manager, .kernel .dispatcher,
        .kernel .dispatcher, .switch none]).any (fun k => decide (k.current = 2 ∧
          AllSteps switchStep (fun k _ => k.current = 2) k
            (List.replicate 10 (SwitchAction.kernel .tick))) &&
          (run switchStep k (List.replicate 10 (SwitchAction.kernel .tick))).isSome) = true := by
    decide +kernel
  rw [Option.any_eq_true] at hrun
  obtain ⟨k, hk, hlast⟩ := hrun
  rw [Bool.and_eq_true] at hlast
  obtain ⟨hcur, hrow⟩ := of_decide_eq_true hlast.1
  obtain ⟨k', hk'⟩ := Option.isSome_iff_exists.mp hlast.2
  have hbounded := quantum_bounded 4 (fun _ _ => 0) (fun _ => 0) _
    (List.replicate 10 (SwitchAction.kernel .tick)) k (by decide +kernel) hk
  exact ⟨k, k', hk, hcur, hbounded.1, hk', hbounded.2 2 k' (by decide) hrow hk'⟩

/-- **A task that is not preempted.**  Task 2 creates task 3 and switches to it: its
quantum is zero, and after twenty ticks it still has the CPU. -/
theorem quantum_unbounded : ∃ k k',
    run switchStep (Kernel.boot 4 (fun _ _ => 0) fun _ => 0)
      [.kernel .dispatcher, .kernel .dispatcher, .kernel .manager, .kernel .manager,
        .kernel .dispatcher, .kernel .dispatcher, .kernel (.create true),
        .switch (some 3)] = some k ∧
    k.current = 3 ∧ (k.sys.task 3).remainingQuantumTime = 0 ∧
    AllSteps switchStep (fun k _ => k.current = 3) k
      (List.replicate 20 (SwitchAction.kernel .tick)) ∧
    run switchStep k (List.replicate 20 (SwitchAction.kernel .tick)) = some k' ∧
    k'.current = 3 ∧ (k'.sys.task 3).remainingQuantumTime = -20 := by
  have hrun : (run switchStep (Kernel.boot 4 (fun _ _ => 0) fun _ => 0)
      [.kernel .dispatcher, .kernel .dispatcher, .kernel .manager, .kernel .manager,
        .kernel .dispatcher, .kernel .dispatcher, .kernel (.create true),
        .switch (some 3)]).any (fun k =>
          decide (k.current = 3 ∧ (k.sys.task 3).remainingQuantumTime = 0 ∧
            AllSteps switchStep (fun k _ => k.current = 3) k
              (List.replicate 20 (SwitchAction.kernel .tick))) &&
          (run switchStep k (List.replicate 20 (SwitchAction.kernel .tick))).any fun k' =>
            decide (k'.current = 3 ∧ (k'.sys.task 3).remainingQuantumTime = -20)) = true := by
    decide +kernel
  rw [Option.any_eq_true] at hrun
  obtain ⟨k, hk, hlast⟩ := hrun
  rw [Bool.and_eq_true, Option.any_eq_true] at hlast
  obtain ⟨hfirst, k', hk', hthen⟩ := hlast
  obtain ⟨hcur, hzero, hrow⟩ := of_decide_eq_true hfirst
  obtain ⟨hcur', hrem⟩ := of_decide_eq_true hthen
  exact ⟨k, k', hk, hcur, hzero, hrow, hk', hcur', hrem⟩

end PingPongOS
