import PingPongOS.SystemChanges

/-!
# The CPU time of a task

Ticks are charged where a task leaves the CPU: `task_yield` charges a whole quantum,
`task_suspend` nothing, and `task_exit` what the task has used of its last quantum.  The
history of ticks, dispatches, yields and suspensions says how far the charges are from
the ticks delivered to a task.  The charges add up in an `int`, which wraps.
-/

namespace PingPongOS

open Runs TaskSystem

/-- What happens to a task on the CPU: a tick, its dispatch, a `task_yield` that is not its
last tick's, a `task_suspend`. -/
inductive CpuEvent
  | ticked (t : Nat)
  | dispatched (t : Nat)
  | yielded (t : Nat)
  | suspended (t : Nat)
  deriving DecidableEq

/-- The event of a step that leaves the task subsystem in `S`. -/
def switchEvents (k : Kernel) (S : TaskSystem) : List CpuEvent :=
  if S.currentActiveTask = k.current then []
  else if k.current = taskKernel then [.dispatched S.currentActiveTask]
  else if (S.task k.current).status = .suspended then [.suspended k.current]
  else [.yielded k.current]

/-- The event of a step. -/
def cpuEvents (k : Kernel) (a : Action) : List CpuEvent :=
  match a with
  | .tick => [.ticked k.current]
  | .exit _ => []
  | a => ((k.step a).map fun k' => switchEvents k k'.sys).getD []

/-- The task an event is about. -/
def CpuEvent.about : CpuEvent → Nat
  | .ticked t | .dispatched t | .yielded t | .suspended t => t

/-- The ticks delivered to task `t`. -/
def ticksOf (t : Nat) (H : List CpuEvent) : Int := H.count (.ticked t)

/-- The ticks since the last dispatch of a task; what was left of its quantum whenever it
yielded; what it had used of it whenever it suspended itself. -/
structure CpuAccount where
  used : Int
  unused : Int
  uncharged : Int

/-- The account of task `t` after one event more. -/
def CpuAccount.next (t : Nat) (A : CpuAccount) (e : CpuEvent) : CpuAccount :=
  if e.about = t then
    match e with
    | .ticked _ => { A with used := A.used + 1 }
    | .dispatched _ => { A with used := 0 }
    | .yielded _ => { A with unused := A.unused + (quantum - A.used) }
    | .suspended _ => { A with uncharged := A.uncharged + A.used }
  else A

/-- The account of task `t`. -/
def cpuAccount (t : Nat) (H : List CpuEvent) : CpuAccount :=
  H.foldl (CpuAccount.next t) ⟨0, 0, 0⟩

variable {k k' : Kernel} {S S' : TaskSystem} {H : List CpuEvent} {t : Nat} {a : Action}
  {e : CpuEvent}

theorem cpuAccount_append (e : CpuEvent) :
    cpuAccount t (H ++ [e]) = (cpuAccount t H).next t e := by
  unfold cpuAccount
  rw [List.foldl_append]
  rfl

/-- Events of other tasks leave the account alone. -/
theorem cpuAccount_other (he : e.about ≠ t) : cpuAccount t (H ++ [e]) = cpuAccount t H := by
  rw [cpuAccount_append]
  exact if_neg he

theorem cpuAccount_ticked : cpuAccount t (H ++ [.ticked t]) =
    ⟨(cpuAccount t H).used + 1, (cpuAccount t H).unused, (cpuAccount t H).uncharged⟩ := by
  rw [cpuAccount_append]
  exact if_pos rfl

theorem cpuAccount_dispatched : cpuAccount t (H ++ [.dispatched t]) =
    ⟨0, (cpuAccount t H).unused, (cpuAccount t H).uncharged⟩ := by
  rw [cpuAccount_append]
  exact if_pos rfl

theorem cpuAccount_yielded : cpuAccount t (H ++ [.yielded t]) =
    ⟨(cpuAccount t H).used, (cpuAccount t H).unused + (quantum - (cpuAccount t H).used),
      (cpuAccount t H).uncharged⟩ := by
  rw [cpuAccount_append]
  exact if_pos rfl

theorem cpuAccount_suspended : cpuAccount t (H ++ [.suspended t]) =
    ⟨(cpuAccount t H).used, (cpuAccount t H).unused,
      (cpuAccount t H).uncharged + (cpuAccount t H).used⟩ := by
  rw [cpuAccount_append]
  exact if_pos rfl

theorem ticksOf_append (e : CpuEvent) :
    ticksOf t (H ++ [e]) = ticksOf t H + if e = .ticked t then 1 else 0 := by
  unfold ticksOf
  rw [List.count_append, List.count_singleton]
  by_cases he : e = .ticked t
  · simp [he]
  · simp [he]

theorem ticksOf_other (he : e.about ≠ t) : ticksOf t (H ++ [e]) = ticksOf t H := by
  rw [ticksOf_append, if_neg, Int.add_zero]
  intro heq
  rw [heq] at he
  exact he rfl

/-- The ticks of task `t` that are on the clock of its quantum, and not yet charged. -/
def pending (S : TaskSystem) (t : Nat) : Int :=
  if t = S.currentActiveTask ∨ t = 0 then quantum - (S.task t).remainingQuantumTime else 0

/-- Charges that wrapped add up as if they wrapped at the end. -/
theorem addInt_bmod (a b : Int) :
    addInt (Int.bmod a (2 ^ 32)) b = Int.bmod (a + b) (2 ^ 32) := by
  unfold addInt
  rw [Int.bmod_add_bmod]

/-- The books of task `t`. -/
structure Settled (S : TaskSystem) (H : List CpuEvent) (t : Nat) : Prop where
  charged : (S.task t).executionTime = Int.bmod
    (ticksOf t H + (cpuAccount t H).unused - (cpuAccount t H).uncharged - pending S t) (2 ^ 32)
  remaining : t ≠ 0 → t = S.currentActiveTask →
    (cpuAccount t H).used + (S.task t).remainingQuantumTime = quantum

/-- The books of every task; a task to come has none. -/
structure CpuInv (k : Kernel) (H : List CpuEvent) : Prop where
  kernel : KernelInv k
  settled : ∀ t, t ≤ k.sys.currentTaskId → Settled k.sys H t
  fresh : ∀ e ∈ H, e.about ≤ k.sys.currentTaskId

/-- A task nothing has happened to. -/
theorem cpuAccount_fresh (h : ∀ e ∈ H, e.about ≠ t) :
    cpuAccount t H = ⟨0, 0, 0⟩ ∧ ticksOf t H = 0 := by
  induction H using List.reverseRecOn with
  | nil => exact ⟨rfl, rfl⟩
  | append_singleton H e ih =>
      have he : e.about ≠ t := h e (by simp)
      rw [cpuAccount_other he, ticksOf_other he]
      exact ih fun e' he' => h e' (List.mem_append_left _ he')

/-- Nothing on the books of `t` has changed. -/
theorem Settled.congr (h : Settled S H t)
    (hexec : (S'.task t).executionTime = (S.task t).executionTime)
    (hrem : (S'.task t).remainingQuantumTime = (S.task t).remainingQuantumTime)
    (hcur : t = 0 ∨ (t = S'.currentActiveTask ↔ t = S.currentActiveTask)) :
    Settled S' H t := by
  have hpending : pending S' t = pending S t := by
    unfold pending
    rw [hrem]
    by_cases ht : t = 0
    · rw [if_pos (Or.inr ht), if_pos (Or.inr ht)]
    · rcases hcur with ht' | hiff
      · exact absurd ht' ht
      · simp only [hiff]
  refine ⟨?_, fun ht0 ht => ?_⟩
  · rw [hexec, hpending]
    exact h.charged
  · rw [hrem]
    rcases hcur with ht' | hiff
    · exact absurd ht' ht0
    · exact h.remaining ht0 (hiff.mp ht)

/-- The event is about another task, which has the CPU before or after. -/
theorem Settled.other (h : Settled S H t) (he : e.about ≠ t)
    (hexec : (S'.task t).executionTime = (S.task t).executionTime)
    (hrem : (S'.task t).remainingQuantumTime = (S.task t).remainingQuantumTime)
    (hcur : t = 0 ∨ (t = S'.currentActiveTask ↔ t = S.currentActiveTask)) :
    Settled S' (H ++ [e]) t := by
  have hnew := h.congr hexec hrem hcur
  refine ⟨?_, fun ht0 ht => ?_⟩
  · rw [cpuAccount_other he, ticksOf_other he]
    exact hnew.charged
  · rw [cpuAccount_other he]
    exact hnew.remaining ht0 ht

/-- The running task `c` leaves the CPU with `charge` on its books. -/
theorem Settled.leaves (h : Settled S H S.currentActiveTask) (hc : S.currentActiveTask ≠ 0)
    (hcur : S'.currentActiveTask = 0) (charge : Int)
    (hexec : (S'.task S.currentActiveTask).executionTime =
      addInt (S.task S.currentActiveTask).executionTime charge)
    (hticks : ticksOf S.currentActiveTask (H ++ [e]) = ticksOf S.currentActiveTask H)
    (hbooks : charge + (cpuAccount S.currentActiveTask (H ++ [e])).uncharged +
        (cpuAccount S.currentActiveTask H).unused =
      (cpuAccount S.currentActiveTask H).uncharged + (cpuAccount S.currentActiveTask H).used +
        (cpuAccount S.currentActiveTask (H ++ [e])).unused) :
    Settled S' (H ++ [e]) S.currentActiveTask := by
  have hcharged := h.charged
  have hquantum := h.remaining hc rfl
  unfold pending at hcharged
  rw [if_pos (Or.inl rfl)] at hcharged
  refine ⟨?_, fun _ ht => absurd (ht.trans hcur) hc⟩
  unfold pending
  rw [hcur, if_neg (by omega), hexec, hcharged, addInt_bmod, hticks]
  congr 1
  omega

/-! ## Steps -/

theorem cpuEvents_plain (ha : a.plain = true) (hs : k.step a = some k') :
    cpuEvents k a = switchEvents k k'.sys := by
  cases a with
  | tick => exact absurd ha (by decide)
  | exit code => exact absurd ha (by simp [Action.plain])
  | _ => simp [cpuEvents, hs]

theorem switchEvents_same (hc : S.currentActiveTask = k.current) : switchEvents k S = [] :=
  if_pos hc

/-- A step after which the same task has the CPU, and no books have changed. -/
theorem CpuInv.same (h : CpuInv k H) (hs : k.step a = some k') (ha : a.plain = true)
    (hn : k'.sys.currentTaskId = k.sys.currentTaskId)
    (hcur : k'.sys.currentActiveTask = k.current)
    (htask : ∀ t, (k'.sys.task t).executionTime = (k.sys.task t).executionTime ∧
      (k'.sys.task t).remainingQuantumTime = (k.sys.task t).remainingQuantumTime) :
    CpuInv k' (H ++ cpuEvents k a) := by
  rw [cpuEvents_plain ha hs, switchEvents_same hcur, List.append_nil]
  refine ⟨(h.kernel.step hs).1, fun t ht => ?_, fun e he => ?_⟩
  · apply (h.settled t (hn ▸ ht)).congr (htask t).1 (htask t).2
    rw [hcur]
    exact Or.inr Iff.rfl
  · rw [hn]
    exact h.fresh e he

/-- The new task has no books. -/
theorem CpuInv.creates (h : CpuInv k H) (hs : k.step a = some k') (ha : a.plain = true)
    (hc : Creates k.sys k'.sys) : CpuInv k' (H ++ cpuEvents k a) := by
  have hle : k.sys.currentActiveTask ≤ k.sys.currentTaskId := h.kernel.sys.current
  rw [cpuEvents_plain ha hs, switchEvents_same hc.current, List.append_nil]
  refine ⟨(h.kernel.step hs).1, fun t ht => ?_, fun e he => ?_⟩
  · rw [hc.currentTaskId] at ht
    by_cases hnew : t = k.sys.currentTaskId + 1
    · subst hnew
      obtain ⟨haccount, hticks⟩ := cpuAccount_fresh (t := k.sys.currentTaskId + 1) (H := H)
        fun e he => by have := h.fresh e he; omega
      have hncur : k.sys.currentTaskId + 1 ≠ k'.sys.currentActiveTask := by
        rw [hc.current]
        omega
      refine ⟨?_, fun _ heq => absurd heq hncur⟩
      rw [haccount, hticks, pending, if_neg (by omega), hc.task]
      rfl
    · apply (h.settled t (by omega)).congr
      · rw [hc.others t hnew]
      · rw [hc.others t hnew]
      · rw [hc.current]
        exact Or.inr Iff.rfl
  · rw [hc.currentTaskId]
    exact Nat.le_succ_of_le (h.fresh e he)

/-- The running task leaves the CPU, with the event `e`. -/
theorem CpuInv.leaves (h : CpuInv k H) (hs : k.step a = some k') (ha : a.plain = true)
    {b : Tcb} {i : QueueId} (hl : Leaves k.sys k'.sys b i)
    (hevent : switchEvents k k'.sys = [e]) (he : e.about = k.current)
    (hbooks : Settled k'.sys (H ++ [e]) k.current) : CpuInv k' (H ++ cpuEvents k a) := by
  rw [cpuEvents_plain ha hs, hevent]
  refine ⟨(h.kernel.step hs).1, fun t ht => ?_, fun e' he' => ?_⟩
  · rw [hl.currentTaskId] at ht
    by_cases htc : t = k.current
    · exact htc ▸ hbooks
    · have htask : (k'.sys.task t).executionTime = (k.sys.task t).executionTime ∧
          (k'.sys.task t).remainingQuantumTime = (k.sys.task t).remainingQuantumTime := by
        by_cases ht0 : t = 0
        · rw [ht0, hl.kernel]
          exact ⟨rfl, rfl⟩
        · rw [hl.others t htc ht0]
          exact ⟨rfl, rfl⟩
      apply (h.settled t ht).other (he ▸ Ne.symm htc) htask.1 htask.2
      rw [hl.current]
      by_cases ht0 : t = 0
      · exact Or.inl ht0
      · exact Or.inr ⟨fun heq => absurd heq ht0, fun heq => absurd heq htc⟩
  · rw [hl.currentTaskId]
    rcases List.mem_append.mp he' with hmem | hmem
    · exact h.fresh e' hmem
    · rw [List.mem_singleton.mp hmem, he]
      exact h.kernel.sys.current

theorem CpuInv.yields (h : CpuInv k H) (hs : k.step a = some k') (ha : a.plain = true)
    (hc : k.current ≠ 0)
    (hl : Leaves k.sys k'.sys (k.sys.task k.current).yielded .ready) :
    CpuInv k' (H ++ cpuEvents k a) := by
  have htask : k'.sys.task k.current = (k.sys.task k.current).yielded := hl.task
  have hevent : switchEvents k k'.sys = [.yielded k.current] := by
    unfold switchEvents
    rw [hl.current, if_neg (Ne.symm hc), if_neg (show ¬ k.current = taskKernel from hc), htask]
    rfl
  apply h.leaves hs ha hl hevent rfl
  apply (h.settled k.current h.kernel.sys.current).leaves hc hl.current quantum
  · exact congrArg Tcb.executionTime htask
  · exact ticksOf_append _
  · rw [show k.sys.currentActiveTask = k.current from rfl, cpuAccount_yielded]
    dsimp only
    omega

theorem CpuInv.suspends (h : CpuInv k H) (hs : k.step a = some k') (ha : a.plain = true)
    (hc : k.current ≠ 0) {b : Tcb} {i : QueueId} (hl : Leaves k.sys k'.sys b i)
    (hb : SuspendedFrom (k.sys.task k.current) b) : CpuInv k' (H ++ cpuEvents k a) := by
  have htask : k'.sys.task k.current = b := hl.task
  unfold SuspendedFrom at hb
  have hevent : switchEvents k k'.sys = [.suspended k.current] := by
    unfold switchEvents
    rw [hl.current, if_neg (Ne.symm hc), if_neg (show ¬ k.current = taskKernel from hc), htask,
      hb]
    rfl
  apply h.leaves hs ha hl hevent rfl
  apply (h.settled k.current h.kernel.sys.current).leaves hc hl.current 0
  · have hsame : (k'.sys.task k.current).executionTime = (k.sys.task k.current).executionTime := by
      rw [htask, hb]
    have hcharged := (h.settled k.current h.kernel.sys.current).charged
    change (k'.sys.task k.current).executionTime = addInt (k.sys.task k.current).executionTime 0
    rw [hsame, hcharged, addInt_bmod, Int.add_zero]
  · exact ticksOf_append _
  · rw [show k.sys.currentActiveTask = k.current from rfl, cpuAccount_suspended]
    dsimp only
    omega

/-- The dispatcher runs task `t`. -/
theorem CpuInv.dispatches (h : CpuInv k H) (hs : k.step .dispatcher = some k')
    (hc : k.current = 0) (hp : AllPassive k.sys S) (ht : 0 < k.sys.occurs .ready t)
    (hd : Dispatches S k'.sys t) : CpuInv k' (H ++ cpuEvents k .dispatcher) := by
  obtain ⟨ht0, htn, -⟩ := h.kernel.sys.ready_status ht
  have hcur : k.sys.currentActiveTask = 0 := hc
  have hn : k'.sys.currentTaskId = k.sys.currentTaskId := hd.currentTaskId.trans hp.currentTaskId
  have hevent : switchEvents k k'.sys = [.dispatched t] := by
    unfold switchEvents
    rw [hd.current, hc, if_neg ht0]
    rfl
  rw [cpuEvents_plain rfl hs, hevent]
  refine ⟨(h.kernel.step hs).1, fun y hy => ?_, fun e he => ?_⟩
  · rw [hn] at hy
    have hsettled := h.settled y hy
    have hfields := (hp.task y).fields
    by_cases hyt : y = t
    · subst hyt
      have hcharged := hsettled.charged
      have htask := hd.task
      unfold pending at hcharged
      rw [hcur, if_neg (by omega)] at hcharged
      refine ⟨?_, fun _ _ => ?_⟩
      · rw [cpuAccount_dispatched, ticksOf_append, if_neg (by simp)]
        unfold pending
        rw [hd.current, if_pos (Or.inl rfl), htask, hfields]
        change (k.sys.task y).executionTime = _
        rw [hcharged]
        congr 1
      · rw [cpuAccount_dispatched, htask]
        exact Int.zero_add quantum
    · apply hsettled.other (e := .dispatched t) (Ne.symm hyt)
      · rw [hd.others y hyt, hfields]
      · rw [hd.others y hyt, hfields]
      · rw [hd.current, hcur]
        by_cases hy0 : y = 0
        · exact Or.inl hy0
        · exact Or.inr ⟨fun heq => absurd heq hyt, fun heq => absurd heq hy0⟩
  · rw [hn]
    rcases List.mem_append.mp he with hmem | hmem
    · exact h.fresh e hmem
    · rw [List.mem_singleton.mp hmem]
      exact htn

/-- The tick of the running task, whose quantum it may end. -/
theorem Settled.tick (h : Settled S H S.currentActiveTask) (hk : (S.task 0).status = .ready) :
    Settled (handleTimerSignal S) (H ++ [.ticked S.currentActiveTask])
      S.currentActiveTask := by
  have hcurrent := tick_current hk
  have hcharged := h.charged
  unfold pending at hcharged
  rw [if_pos (Or.inl rfl)] at hcharged
  by_cases hc : S.currentActiveTask = 0
  · obtain ⟨hexec, hrem⟩ := tick_task_kernel (S := S)
    refine ⟨?_, fun hne => absurd hc hne⟩
    rw [cpuAccount_ticked, ticksOf_append, if_pos rfl]
    unfold pending
    rw [if_pos (Or.inr hc)]
    rw [hc] at hcharged ⊢
    rw [hexec, hrem, hc, if_pos rfl]
    by_cases hq : (S.task 0).remainingQuantumTime = 1
    · rw [if_pos ⟨rfl, hq⟩, if_pos hq, hcharged, addInt_bmod]
      congr 1
      dsimp only
      omega
    · rw [if_neg fun h => hq h.2, if_neg hq, hcharged]
      congr 1
      dsimp only
      omega
  · have hquantum := h.remaining hc rfl
    have htask := tick_task (S := S) hc
    rw [if_neg (not_not_intro rfl)] at htask
    by_cases hq : (S.task S.currentActiveTask).remainingQuantumTime = 1
    · rw [if_pos hq] at htask hcurrent
      refine ⟨?_, fun hne heq => absurd (heq.trans hcurrent) hne⟩
      rw [cpuAccount_ticked, ticksOf_append, if_pos rfl, htask]
      unfold pending
      rw [hcurrent, if_neg (by omega)]
      dsimp only
      rw [hcharged, addInt_bmod]
      congr 1
      omega
    · rw [if_neg hq] at htask hcurrent
      refine ⟨?_, fun _ _ => ?_⟩
      · rw [cpuAccount_ticked, ticksOf_append, if_pos rfl]
        unfold pending
        rw [hcurrent, if_pos (Or.inl rfl), htask]
        dsimp only
        rw [hcharged]
        congr 1
        omega
      · rw [cpuAccount_ticked, htask]
        dsimp only
        omega

theorem CpuInv.ticks (h : CpuInv k H) (hs : k.step .tick = some k')
    (hS : k'.sys = handleTimerSignal k.sys) : CpuInv k' (H ++ cpuEvents k .tick) := by
  have hn : k'.sys.currentTaskId = k.sys.currentTaskId := by
    rw [hS]
    exact tick_currentTaskId _
  have hcurrent := tick_current h.kernel.sys.kernelReady
  refine ⟨(h.kernel.step hs).1, fun t ht => ?_, fun e he => ?_⟩
  · rw [hn] at ht
    rw [hS]
    by_cases htc : t = k.sys.currentActiveTask
    · rw [htc]
      exact (h.settled _ h.kernel.sys.current).tick h.kernel.sys.kernelReady
    · have htask : ((handleTimerSignal k.sys).task t).executionTime =
            (k.sys.task t).executionTime ∧
          ((handleTimerSignal k.sys).task t).remainingQuantumTime =
            (k.sys.task t).remainingQuantumTime := by
        by_cases ht0 : t = 0
        · obtain ⟨hexec, hrem⟩ := tick_task_kernel (S := k.sys)
          rw [ht0] at htc ⊢
          rw [if_neg fun h => htc h.1.symm] at hexec
          rw [if_neg fun h => htc h.symm] at hrem
          exact ⟨hexec, hrem⟩
        · rw [tick_task ht0, if_pos htc]
          exact ⟨rfl, rfl⟩
      apply (h.settled t ht).other (e := .ticked k.current) (Ne.symm htc) htask.1 htask.2
      by_cases ht0 : t = 0
      · exact Or.inl ht0
      · right
        refine ⟨fun heq => ?_, fun heq => absurd heq htc⟩
        rw [hcurrent] at heq
        split at heq
        · exact absurd heq ht0
        · exact heq
  · rw [hn]
    rcases List.mem_append.mp he with hmem | hmem
    · exact h.fresh e hmem
    · rw [List.mem_singleton.mp hmem]
      exact h.kernel.sys.current

/-- What `task_exit` has charged when it prints. -/
theorem Settled.exit (h : Settled S H S.currentActiveTask) {code : Int}
    (he : taskExit S code = .ok S') :
    (S'.task S.currentActiveTask).executionTime = Int.bmod
      (ticksOf S.currentActiveTask H + (cpuAccount S.currentActiveTask H).unused -
        (cpuAccount S.currentActiveTask H).uncharged) (2 ^ 32) := by
  have hexec : (S'.task S.currentActiveTask).executionTime =
      addInt (S.task S.currentActiveTask).executionTime
        (quantum - (S.task S.currentActiveTask).remainingQuantumTime) := by
    by_cases hc : S.currentActiveTask = 0
    · unfold taskExit at he
      simp only [hc] at he
      rw [if_pos (show 0 = taskKernel from rfl)] at he
      rw [← Except.ok.inj he, hc]
      simp
    · exact (taskExit_exits he hc).executionTime
  have hcharged := h.charged
  unfold pending at hcharged
  rw [if_pos (Or.inl rfl)] at hcharged
  rw [hexec, hcharged, addInt_bmod]
  congr 1
  omega

theorem CpuInv.exits (h : CpuInv k H) {code : Int} (hs : k.step (.exit code) = some k')
    (hc : 2 ≤ k.current) (he : taskExit k.sys code = .ok k'.sys) :
    CpuInv k' (H ++ cpuEvents k (.exit code)) := by
  have hk := h.kernel
  have hc0 : k.sys.currentActiveTask ≠ 0 := show k.current ≠ 0 by omega
  obtain ⟨S', hS', -, hexits⟩ := hk.sys.exit hc code fun y hy => by
    rw [hk.names.neverWaits y hy, hk.names.ids _ hk.sys.current]
    exact Ne.symm hc0
  obtain rfl : S' = k'.sys := Except.ok.inj (hS'.symm.trans he)
  have hcharges := taskExit_exits he hc0
  rw [show H ++ cpuEvents k (.exit code) = H from List.append_nil H]
  refine ⟨(hk.step hs).1, fun t ht => ?_, fun e hmem => ?_⟩
  · rw [hexits.currentTaskId] at ht
    by_cases htc : t = k.sys.currentActiveTask
    · have hend := (h.settled _ hk.sys.current).exit he
      refine ⟨?_, fun ht0 heq => absurd (heq.trans hexits.current) ht0⟩
      unfold pending
      rw [hexits.current, if_neg (by omega), htc, hend, Int.sub_zero]
    · have htask : (k'.sys.task t).executionTime = (k.sys.task t).executionTime ∧
          (k'.sys.task t).remainingQuantumTime = (k.sys.task t).remainingQuantumTime := by
        by_cases ht0 : t = 0
        · rw [ht0]
          exact hcharges.kernel
        · have hfields := (hcharges.others t htc ht0).1.fields
          rw [hfields]
          exact ⟨rfl, rfl⟩
      apply (h.settled t ht).congr htask.1 htask.2
      rw [hexits.current]
      by_cases ht0 : t = 0
      · exact Or.inl ht0
      · exact Or.inr ⟨fun heq => absurd heq ht0, fun heq => absurd heq htc⟩
  · rw [hexits.currentTaskId]
    exact h.fresh e hmem

/-- **Every step** keeps the books. -/
theorem CpuInv.step (h : CpuInv k H) (hs : k.step a = some k') :
    CpuInv k' (H ++ cpuEvents k a) := by
  have hchange := h.kernel.change hs
  generalize hS : k'.sys = S at hchange
  cases hchange with
  | creates ha hc => exact h.creates hs ha (hS ▸ hc)
  | passive ha hp _ =>
      subst hS
      apply h.same hs ha hp.currentTaskId hp.current
      intro t
      have hfields := (hp.task t).fields
      rw [hfields]
      exact ⟨rfl, rfl⟩
  | yields ha hc hl => exact h.yields hs ha hc (hS ▸ hl)
  | suspends ha hc _ hl hb => exact h.suspends hs ha hc (hS ▸ hl) hb
  | dispatches hc hp _ ht hd => exact h.dispatches hs hc hp ht (hS ▸ hd)
  | ticks => exact h.ticks hs hS
  | exits hc _ he => exact h.exits hs hc (hS ▸ he)

theorem cpuInv_boot (numblocks : Int) (image : Int → Block) (memory : Nat → UInt8) :
    CpuInv (Kernel.boot numblocks image memory) [] := by
  refine ⟨kernelInv_boot .., fun t ht => ?_, fun e he => absurd he (by simp)⟩
  have ht' : t ≤ 1 := ht
  obtain rfl | rfl : t = 0 ∨ t = 1 := by omega
  · exact ⟨rfl, fun hne => absurd rfl hne⟩
  · exact ⟨rfl, fun _ heq => absurd (show (1 : Nat) = 0 from heq) (by decide)⟩

/-- Where a number of ticks survives the wrapping of the charges. -/
theorem bmod_add_eq_iff {ticks d : Int} (hticks : 0 ≤ ticks) :
    Int.bmod (ticks + d) (2 ^ 32) = ticks ↔ d % 2 ^ 32 = 0 ∧ ticks < 2 ^ 31 := by
  have hlo := Int.le_bmod (x := ticks + d) (m := 2 ^ 32) (by decide)
  have hhi := Int.bmod_lt (x := ticks + d) (m := 2 ^ 32) (by decide)
  have hmod := Int.bmod_emod (x := ticks + d) (m := 2 ^ 32)
  constructor
  · intro h
    rw [h] at hlo hhi hmod
    omega
  · rintro ⟨hd, hlt⟩
    omega

/-- **When the CPU time is right.**  In every state of a run, what `task_exit` of the
running task prints is the number of ticks delivered to it, if and only if what was left
of its quantum at its yields adds up to what it had used of it at its suspensions, but for
multiples of 2^32, and the ticks fit an `int`. -/
theorem execution_time_correct (numblocks : Int) (image : Int → Block)
    (memory : Nat → UInt8) (as : List Action) (k : Kernel)
    (hrun : run Kernel.step (Kernel.boot numblocks image memory) as = some k)
    (code : Int) (S : TaskSystem) (he : taskExit k.sys code = .ok S) :
    (S.task k.current).executionTime =
        ticksOf k.current (history Kernel.step cpuEvents (Kernel.boot numblocks image memory) as)
      ↔
    ((cpuAccount k.current
        (history Kernel.step cpuEvents (Kernel.boot numblocks image memory) as)).unused -
      (cpuAccount k.current
        (history Kernel.step cpuEvents (Kernel.boot numblocks image memory) as)).uncharged) %
          2 ^ 32 = 0 ∧
      ticksOf k.current
        (history Kernel.step cpuEvents (Kernel.boot numblocks image memory) as) < 2 ^ 31 := by
  have hall : AllSteps Kernel.step (fun _ _ => True) (Kernel.boot numblocks image memory) as :=
    AllSteps.of_forall fun _ _ _ => trivial
  have h : CpuInv k ([] ++
      history Kernel.step cpuEvents (Kernel.boot numblocks image memory) as) :=
  invariant_history CpuInv
    (fun _ _ _ _ h _ hs => h.step hs)
    (cpuInv_boot numblocks image memory) hall hrun
  rw [List.nil_append] at h
  have hexit := (h.settled k.sys.currentActiveTask h.kernel.sys.current).exit he
  rw [show k.sys.currentActiveTask = k.current from rfl, Int.add_sub_assoc] at hexit
  rw [hexit]
  exact bmod_add_eq_iff (Int.natCast_nonneg _)

/-- Task 2 exits after three ticks. -/
theorem execution_time_three : ∃ k S,
    run Kernel.step (Kernel.boot 4 (fun _ _ => 0) fun _ => 0)
      [.dispatcher, .dispatcher, .manager, .manager, .dispatcher, .dispatcher, .tick, .tick,
        .tick] = some k ∧
    taskExit k.sys 0 = .ok S ∧
    (S.task k.current).executionTime =
      ticksOf k.current (history Kernel.step cpuEvents (Kernel.boot 4 (fun _ _ => 0) fun _ => 0)
        [.dispatcher, .dispatcher, .manager, .manager, .dispatcher, .dispatcher, .tick, .tick,
          .tick]) := by
  have hrun : (run Kernel.step (Kernel.boot 4 (fun _ _ => 0) fun _ => 0)
      [.dispatcher, .dispatcher, .manager, .manager, .dispatcher, .dispatcher, .tick, .tick,
        .tick]).any (fun k => decide (k.current = 2) && (taskExit k.sys 0).isOk) = true := by
    decide +kernel
  rw [Option.any_eq_true] at hrun
  obtain ⟨k, hk, hlast⟩ := hrun
  rw [Bool.and_eq_true] at hlast
  have hcur : k.current = 2 := of_decide_eq_true hlast.1
  cases hexit : taskExit k.sys 0 with
  | error e =>
      rw [hexit] at hlast
      exact absurd hlast.2 (by simp [Except.isOk, Except.toBool])
  | ok S =>
      refine ⟨k, S, hk, hexit, ?_⟩
      apply (execution_time_correct 4 (fun _ _ => 0) (fun _ => 0) _ k hk 0 S hexit).mpr
      rw [hcur]
      decide +kernel

/-- **Time that was not used.**  Task 2 yields and later exits: it prints a CPU time of
ten, and no tick was delivered to it. -/
theorem execution_time_wrong : ∃ k S,
    run Kernel.step (Kernel.boot 4 (fun _ _ => 0) fun _ => 0)
      [.dispatcher, .dispatcher, .manager, .manager, .dispatcher, .dispatcher, .yield,
        .dispatcher, .dispatcher, .manager, .dispatcher, .dispatcher] = some k ∧
    taskExit k.sys 0 = .ok S ∧ k.current = 2 ∧ (S.task 2).executionTime = 10 ∧
    ticksOf 2 (history Kernel.step cpuEvents (Kernel.boot 4 (fun _ _ => 0) fun _ => 0)
      [.dispatcher, .dispatcher, .manager, .manager, .dispatcher, .dispatcher, .yield,
        .dispatcher, .dispatcher, .manager, .dispatcher, .dispatcher]) = 0 := by
  have hrun : (run Kernel.step (Kernel.boot 4 (fun _ _ => 0) fun _ => 0)
      [.dispatcher, .dispatcher, .manager, .manager, .dispatcher, .dispatcher, .yield,
        .dispatcher, .dispatcher, .manager, .dispatcher, .dispatcher]).any (fun k =>
          decide (k.current = 2) &&
            ((taskExit k.sys 0).toOption.any fun S =>
              decide ((S.task 2).executionTime = 10))) = true := by
    decide +kernel
  rw [Option.any_eq_true] at hrun
  obtain ⟨k, hk, hlast⟩ := hrun
  rw [Bool.and_eq_true, Option.any_eq_true] at hlast
  obtain ⟨hcur, S, hS, htime⟩ := hlast
  refine ⟨k, S, hk, ?_, of_decide_eq_true hcur, of_decide_eq_true htime, by decide +kernel⟩
  cases hexit : taskExit k.sys 0 with
  | error e =>
      rw [hexit] at hS
      exact absurd hS (by simp [Except.toOption])
  | ok T =>
      rw [hexit] at hS
      exact congrArg Except.ok (Option.some.inj hS)

end PingPongOS
