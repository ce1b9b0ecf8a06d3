import PingPongOS.SystemChanges

/-!
# The exit code that `task_wait` returns

A task that waits is woken by the exit of the task it waits for, which hands it the
exit code; nothing else wakes it and nothing else writes the code before it returns.
The history of the exits of a run says what each task exited with.
-/

namespace PingPongOS

open Runs TaskSystem

/-- The exit of a step: the task and its code. -/
def exitEvents (k : Kernel) : Action → List (Nat × Int)
  | .exit code => [(k.current, code)]
  | _ => []

/-- The codes that task `x` exited with. -/
def exitCodes (x : Nat) (H : List (Nat × Int)) : List Int :=
  (H.filter fun e => e.1 = x).map Prod.snd

/-- The task waited for and the value returned, in a step in which `task_wait` returns: at
once for a task that has finished, and else when the waiter goes on. -/
def waitReturns (k : Kernel) : Action → Option (Nat × Int)
  | .wait x => (taskWait k.sys x).1.map fun code => (x, code)
  | .resume =>
      match k.point k.current with
      | .taskWait x => some (x, (k.sys.task k.current).targetExitCode)
      | _ => none
  | _ => none

/-- What the state says of the exits so far. -/
structure ExitInv (k : Kernel) (H : List (Nat × Int)) : Prop where
  kernel : KernelInv k
  exited : ∀ x, x ≠ 0 → x ≤ k.sys.currentTaskId → exitCodes x H =
    if (k.sys.task x).status = .finished then [(k.sys.task x).exitCode] else []
  fresh : ∀ x, k.sys.currentTaskId < x → exitCodes x H = []
  waiter : ∀ t x, k.point t = .taskWait x → 2 ≤ t ∧ t ≤ k.sys.currentTaskId ∧
    x ≤ k.sys.currentTaskId ∧ (k.sys.task t).targetToWait = x ∧
    ((k.sys.task t).status = .suspended ∨ exitCodes x H = [(k.sys.task t).targetExitCode])

variable {k k' : Kernel} {H : List (Nat × Int)} {t x : Nat} {a : Action} {code : Int}

theorem exitCodes_append (H H' : List (Nat × Int)) :
    exitCodes x (H ++ H') = exitCodes x H ++ exitCodes x H' := by
  simp [exitCodes]

theorem exitCodes_single : exitCodes x [(t, code)] = if t = x then [code] else [] := by
  by_cases h : t = x
  · simp [exitCodes, h]
  · simp [exitCodes, h]

/-- Only the point of the running task changes, and it comes to `task_wait` by a call. -/
theorem KernelInv.point_step (h : KernelInv k) (hs : k.step a = some k') :
    (∀ t, t ≠ k.current → k'.point t = k.point t) ∧
      (∀ x, k'.point k.current = .taskWait x → k.point k.current = .taskWait x ∨ a = .wait x) := by
  have hset : ∀ (k₁ : Kernel) {p : TaskPoint}, k₁.current = k.current → k₁.point = k.point →
      (∀ x, p = .taskWait x → a = .wait x) →
      (∀ t, t ≠ k.current → (k₁.setPoint p).point t = k.point t) ∧
        ∀ x, (k₁.setPoint p).point k.current = .taskWait x →
          k.point k.current = .taskWait x ∨ a = .wait x := by
    intro k₁ p hc hp hx
    unfold Kernel.setPoint
    rw [hc, hp]
    refine ⟨fun t ht => Function.update_of_ne ht .., fun x heq => ?_⟩
    change Function.update k.point k.current p k.current = .taskWait x at heq
    rw [Function.update_self] at heq
    exact Or.inr (hx x heq)
  obtain ⟨-, heffect⟩ := h.step hs
  cases heffect with
  | tasks _ _ | ups _ _ _ _ | destroys _ | idles _ _ _ _ | creates _ | downs _ | rejects | stores
  | transfers _ | interrupts _ _ => exact ⟨fun _ _ => rfl, fun _ hx => Or.inl hx⟩
  | sleeps _ _ => exact hset k rfl rfl (by simp)
  | joins _ _ => exact hset k rfl rfl (by simp)
  | @waits s x _ _ _ _ => exact hset (k.setSem s x) rfl rfl (by simp)
  | asks hb _ _ _ =>
      rw [blockCall_of_buffer k hb]
      exact hset k rfl rfl (by simp)
  | returns _ _ => exact hset k rfl rfl (by simp)
  | @returnsDown s r _ _ => exact hset (k.setSem s r.2) rfl rfl (by simp)
  | starts _ _ => exact hset k rfl rfl (by simp)
  | serves _ _ _ _ _ => exact hset k rfl rfl (by simp)
  | answers _ _ _ _ _ => exact hset k rfl rfl (by simp)

/-- Neither the exit codes nor whether it has finished has changed. -/
structure CodesKept (b b' : Tcb) : Prop where
  exitCode : b'.exitCode = b.exitCode
  targetExitCode : b'.targetExitCode = b.targetExitCode
  finished : b'.status = .finished ↔ b.status = .finished

theorem CodesKept.refl (b : Tcb) : CodesKept b b := ⟨rfl, rfl, Iff.rfl⟩

/-- A task that has not finished before or after. -/
theorem CodesKept.of_running {b b' : Tcb} (he : b'.exitCode = b.exitCode)
    (ht : b'.targetExitCode = b.targetExitCode) (hs : b.status ≠ .finished)
    (hs' : b'.status ≠ .finished) : CodesKept b b' :=
  ⟨he, ht, ⟨fun h => absurd h hs', fun h => absurd h hs⟩⟩

theorem Passive.codes {b b' : Tcb} (h : Passive b b') : CodesKept b b' := by
  have hfields := h.fields
  refine ⟨by rw [hfields], by rw [hfields], ?_⟩
  rcases h.status with hs | ⟨hwas, his⟩
  · rw [hs]
  · rw [hwas, his]
    exact ⟨fun h => absurd h (by decide), fun h => absurd h (by decide)⟩

theorem SuspendedFrom.codes {b b' : Tcb} (h : SuspendedFrom b b') (hs : b.status ≠ .finished) :
    CodesKept b b' := by
  unfold SuspendedFrom at h
  apply CodesKept.of_running
  · rw [h]
  · rw [h]
  · exact hs
  · rw [h]
    simp

/-- The running task comes to `task_wait` suspended, with its target recorded. -/
theorem KernelInv.wait_step (h : KernelInv k) (hs : k.step (.wait x) = some k')
    (hp : k'.point k.current = .taskWait x) :
    2 ≤ k.current ∧ x ≤ k.sys.currentTaskId ∧ (k'.sys.task k.current).targetToWait = x ∧
      (k'.sys.task k.current).status = .suspended := by
  obtain ⟨hc, hu, hcall⟩ := Kernel.step_call hs (by simp)
  have hlo := h.user_current hc hu
  cases hcall with
  | finds _ _ =>
      rw [hu] at hp
      exact absurd hp (by simp)
  | joins hx _ =>
      have hl := leaves_taskSuspend h.sys.kernelReady (show k.current ≠ 0 by omega)
        (fun b => { b with targetToWait := (k.sys.task x).id }) .suspended
      refine ⟨hlo, hx, ?_, ?_⟩
      · refine (congrArg Tcb.targetToWait hl.task).trans ?_
        exact h.names.ids x hx
      · exact congrArg Tcb.status hl.task

/-- **A step that is not an exit** keeps the invariant, given what it does to codes and
joiners. -/
theorem ExitInv.keep (h : ExitInv k H) (hs : k.step a = some k')
    (hn : k.sys.currentTaskId ≤ k'.sys.currentTaskId)
    (hnew : ∀ t, k.sys.currentTaskId < t → t ≤ k'.sys.currentTaskId →
      (k'.sys.task t).status ≠ .finished)
    (hcodes : ∀ t, t ≠ 0 → t ≤ k.sys.currentTaskId →
      CodesKept (k.sys.task t) (k'.sys.task t))
    (hjoin : ∀ t x, k.point t = .taskWait x → t ≠ 0 → t ≤ k.sys.currentTaskId →
      (k'.sys.task t).targetToWait = (k.sys.task t).targetToWait ∧
      ((k.sys.task t).status = .suspended → (k'.sys.task t).status = .suspended)) :
    ExitInv k' H := by
  obtain ⟨hother, hcurrent⟩ := h.kernel.point_step hs
  refine ⟨(h.kernel.step hs).1, fun x hx0 hx => ?_, fun x hx => h.fresh x (by omega), ?_⟩
  · by_cases hold : x ≤ k.sys.currentTaskId
    · have hc := hcodes x hx0 hold
      rw [h.exited x hx0 hold, hc.exitCode]
      exact if_congr hc.finished.symm rfl rfl
    · rw [h.fresh x (by omega), if_neg (hnew x (by omega) hx)]
  · intro t x hp
    have hold : k.point t = .taskWait x → 2 ≤ t ∧ t ≤ k'.sys.currentTaskId ∧
        x ≤ k'.sys.currentTaskId ∧ (k'.sys.task t).targetToWait = x ∧
        ((k'.sys.task t).status = .suspended ∨
          exitCodes x H = [(k'.sys.task t).targetExitCode]) := by
      intro hpt
      obtain ⟨hlo, hhi, hx, htarget, hor⟩ := h.waiter t x hpt
      obtain ⟨hsame, hstay⟩ := hjoin t x hpt (by omega) hhi
      refine ⟨hlo, Nat.le_trans hhi hn, Nat.le_trans hx hn, hsame.trans htarget, ?_⟩
      rcases hor with hsusp | hcode
      · exact Or.inl (hstay hsusp)
      · right
        rw [(hcodes t (by omega) hhi).targetExitCode]
        exact hcode
    by_cases ht : t = k.current
    · subst ht
      rcases hcurrent x hp with hpt | ha
      · exact hold hpt
      · subst ha
        obtain ⟨hlo, hx, htarget, hsusp⟩ := h.kernel.wait_step hs hp
        exact ⟨hlo, Nat.le_trans h.kernel.sys.current hn, Nat.le_trans hx hn, htarget,
          Or.inl hsusp⟩
    · exact hold ((hother t ht).symm.trans hp)

/-- A step that creates no task. -/
theorem ExitInv.keep_same (h : ExitInv k H) (hs : k.step a = some k')
    (hn : k'.sys.currentTaskId = k.sys.currentTaskId)
    (hcodes : ∀ t, t ≠ 0 → t ≤ k.sys.currentTaskId →
      CodesKept (k.sys.task t) (k'.sys.task t))
    (hjoin : ∀ t x, k.point t = .taskWait x → t ≠ 0 → t ≤ k.sys.currentTaskId →
      (k'.sys.task t).targetToWait = (k.sys.task t).targetToWait ∧
      ((k.sys.task t).status = .suspended → (k'.sys.task t).status = .suspended)) :
    ExitInv k' H :=
  h.keep hs (le_of_eq hn.symm) (fun _ hlt hle => by omega) hcodes hjoin

/-- The exit of the running task `c`. -/
theorem ExitInv.exits (h : ExitInv k H) (hs : k.step (.exit code) = some k')
    (hc : 2 ≤ k.current) (hu : ∀ x, k.point k.current ≠ .taskWait x)
    (he : taskExit k.sys code = .ok k'.sys) : ExitInv k' (H ++ [(k.current, code)]) := by
  have hk := h.kernel
  have hcn : k.current ≤ k.sys.currentTaskId := hk.sys.current
  have hc0 : k.current ≠ 0 := by omega
  have hid : (k.sys.task k.current).id = k.current := hk.names.ids _ hcn
  have hrun : (k.sys.task k.current).status = .running := (hk.sys.running hc0).1
  have hn : k'.sys.currentTaskId = k.sys.currentTaskId := by
    have hids : ∀ y, y < 2 → (k.sys.task y).targetToWait ≠ (k.sys.task k.current).id := by
      intro y hy
      rw [hk.names.neverWaits y hy, hid]
      exact Ne.symm hc0
    obtain ⟨S', hS', -, hexits⟩ := hk.sys.exit hc code hids
    rw [← Except.ok.inj (hS'.symm.trans he)]
    exact hexits.currentTaskId
  have hnotyet : exitCodes k.current H = [] := by
    rw [h.exited _ hc0 hcn, hrun]
    rfl
  obtain ⟨hfin, hcode, -, -, hothers⟩ := taskExit_exits he hc0
  rw [show k.sys.currentActiveTask = k.current from rfl] at hfin hcode hothers
  obtain ⟨hpoint, hcurrent⟩ := hk.point_step hs
  refine ⟨(hk.step hs).1, fun x hx0 hx => ?_, fun x hx => ?_, fun t x hp => ?_⟩
  · rw [hn] at hx
    rw [exitCodes_append, exitCodes_single]
    by_cases hxc : x = k.current
    · subst hxc
      rw [if_pos rfl, hnotyet, if_pos hfin, ← hcode]
      rfl
    · rw [if_neg (Ne.symm hxc), List.append_nil, h.exited x hx0 hx]
      have hx' := (hothers x hxc hx0).1
      have hsame : (k'.sys.task x).exitCode = (k.sys.task x).exitCode := by rw [hx'.fields]
      rw [hsame]
      rcases hx'.status with hst | ⟨hwas, his, -⟩
      · rw [hst]
      · rw [hwas, his, if_neg (by decide), if_neg (by decide)]
  · rw [hn] at hx
    rw [exitCodes_append, exitCodes_single, h.fresh x hx, if_neg (by omega)]
    rfl
  · have htc : t ≠ k.current := by
      intro heq
      rw [heq] at hp
      rcases hcurrent x hp with hpt | ha
      · exact hu x hpt
      · exact absurd ha (by simp)
    obtain ⟨hlo, hhi, hx, htarget, hor⟩ := h.waiter t x ((hpoint t htc).symm.trans hp)
    obtain ⟨hexited, huntouched⟩ := hothers t htc (by omega)
    rw [hn, exitCodes_append, exitCodes_single]
    by_cases hxc : x = k.current
    · subst hxc
      rw [if_pos rfl, hnotyet] at *
      have hsusp : (k.sys.task t).status = .suspended := by
        rcases hor with hsusp | hcodes
        · exact hsusp
        · exact absurd hcodes (by simp)
      refine ⟨hlo, hhi, hx, ?_, ?_⟩
      · rw [hexited.fields]
        exact htarget
      · rcases hexited.status with hst | ⟨-, -, hhanded⟩
        · exact Or.inl (hst.trans hsusp)
        · right
          rw [hhanded]
          rfl
    · have hsame : k'.sys.task t = k.sys.task t := by
        apply huntouched
        rw [htarget]
        exact fun heq => hxc (heq.trans hid)
      rw [hsame, if_neg (Ne.symm hxc), List.append_nil]
      exact ⟨hlo, hhi, hx, htarget, hor⟩

/-- **Every step** keeps the invariant. -/
theorem ExitInv.step (h : ExitInv k H) (hs : k.step a = some k') :
    ExitInv k' (H ++ exitEvents k a) := by
  have hk := h.kernel
  have hchange := hk.change hs
  have hnone : a.plain = true → H ++ exitEvents k a = H := by
    intro ha
    cases a with
    | exit code => exact absurd ha (by simp [Action.plain])
    | _ => exact List.append_nil H
  have hrun : k.current ≠ 0 → (k.sys.task k.current).status = .running := fun hc =>
    (hk.sys.running hc).1
  generalize hS : k'.sys = S at hchange
  cases hchange with
  | creates ha hc =>
      rw [hnone ha]
      have hsame : ∀ t, t ≤ k.sys.currentTaskId → k'.sys.task t = k.sys.task t := fun t ht => by
        rw [hS, hc.others t (by omega)]
      apply h.keep hs
      · rw [hS, hc.currentTaskId]
        omega
      · intro t hlt hle
        rw [hS, hc.currentTaskId] at hle
        obtain rfl : t = k.sys.currentTaskId + 1 := by omega
        rw [hS, hc.task]
        exact (by decide : Status.ready ≠ .finished)
      · intro t _ ht
        rw [hsame t ht]
        exact CodesKept.refl _
      · intro t x _ _ ht
        rw [hsame t ht]
        exact ⟨rfl, id⟩
  | passive ha hp hj =>
      rw [hnone ha]
      apply h.keep_same hs (by rw [hS, hp.currentTaskId])
      · intro t _ _
        rw [hS]
        exact (hp.task t).codes
      · intro t x hpt _ _
        rw [hS]
        refine ⟨?_, fun hsusp => hj t x (blockedAt_eq_some.mpr ⟨hsusp, hpt⟩)⟩
        rw [(hp.task t).fields]
  | yields ha hc hl =>
      rw [hnone ha]
      have htask : ∀ t, t ≠ 0 → k'.sys.task t =
          if t = k.current then (k.sys.task k.current).yielded else k.sys.task t := by
        intro t ht0
        rw [hS]
        by_cases ht : t = k.current
        · rw [if_pos ht, ht]
          exact hl.task
        · rw [if_neg ht]
          exact hl.others t ht ht0
      apply h.keep_same hs (by rw [hS, hl.currentTaskId])
      · intro t ht0 _
        rw [htask t ht0]
        by_cases ht : t = k.current
        · rw [if_pos ht, ht]
          exact CodesKept.of_running rfl rfl (by rw [hrun hc]; decide) (by simp [Tcb.yielded])
        · rw [if_neg ht]
          exact CodesKept.refl _
      · intro t x _ ht0 _
        rw [htask t ht0]
        by_cases ht : t = k.current
        · rw [if_pos ht, ht]
          refine ⟨rfl, fun hsusp => ?_⟩
          exact absurd ((hrun hc).symm.trans hsusp) (by decide)
        · rw [if_neg ht]
          exact ⟨rfl, id⟩
  | suspends ha hc hu hl hb =>
      rw [hnone ha]
      apply h.keep_same hs (by rw [hS, hl.currentTaskId])
      · intro t ht0 _
        rw [hS]
        by_cases ht : t = k.current
        · subst ht
          have htask : S.task k.current = _ := hl.task
          rw [htask]
          exact hb.codes (by rw [hrun hc]; decide)
        · rw [hl.others t ht ht0]
          exact CodesKept.refl _
      · intro t x hpt ht0 _
        have ht : t ≠ k.current := fun heq => hu x (heq ▸ hpt)
        rw [hS, hl.others t ht ht0]
        exact ⟨rfl, id⟩
  | @dispatches S₁ _ t' hc hp hq ht hd =>
      rw [hnone rfl]
      obtain ⟨ht0, -, hready⟩ := hk.sys.ready_status ht
      apply h.keep_same hs (by rw [hS, hd.currentTaskId, hq.currentTaskId])
      · intro y _ _
        rw [hS]
        by_cases hy : y = t'
        · subst hy
          rw [hd.task]
          have hcodes := (hp.task y).codes
          exact CodesKept.of_running hcodes.exitCode hcodes.targetExitCode
            (hk.sys.not_finished ht) (by simp)
        · rw [hd.others y hy]
          exact (hp.task y).codes
      · intro y x hpt _ _
        rw [hS]
        by_cases hy : y = t'
        · subst hy
          rw [hd.task]
          refine ⟨?_, fun hsusp => ?_⟩
          · change (S₁.task y).targetToWait = _
            rw [(hp.task y).fields]
          · exfalso
            rcases hready with rfl | hst
            · obtain ⟨p, hp'⟩ := hk.disk.manager
              rw [hp'] at hpt
              exact absurd hpt (by simp)
            · rw [hst] at hsusp
              exact absurd hsusp (by decide)
        · rw [hd.others y hy, (hq.fields y).2.2.2, (hq.fields y).1]
          exact ⟨rfl, id⟩
  | ticks =>
      rw [show H ++ exitEvents k .tick = H from List.append_nil H]
      apply h.keep_same hs (by rw [hS]; exact tick_currentTaskId _)
      · intro t ht0 _
        rw [hS, tick_task ht0]
        by_cases ht : t ≠ k.sys.currentActiveTask
        · rw [if_pos ht]
          exact CodesKept.refl _
        · rw [not_not] at ht
          have hst : (k.sys.task t).status ≠ .finished := by
            rw [show t = k.current from ht, hrun fun hc => ht0 (ht.trans hc)]
            decide
          rw [if_neg (not_not_intro ht)]
          split
          · exact CodesKept.of_running rfl rfl hst (by simp)
          · exact CodesKept.of_running rfl rfl hst hst
      · intro t x hpt ht0 _
        rw [hS, tick_task ht0]
        by_cases ht : t ≠ k.sys.currentActiveTask
        · rw [if_pos ht]
          exact ⟨rfl, id⟩
        · rw [not_not] at ht
          have hst : (k.sys.task t).status = .running := by
            rw [show t = k.current from ht, hrun fun hc => ht0 (ht.trans hc)]
          rw [if_neg (not_not_intro ht), hst]
          split
          · exact ⟨rfl, fun hsusp => absurd hsusp (by decide)⟩
          · exact ⟨rfl, fun hsusp => absurd hsusp (by decide)⟩
  | exits hc hu he =>
      subst hS
      exact h.exits hs hc hu he

theorem exitInv_boot (numblocks : Int) (image : Int → Block) (memory : Nat → UInt8) :
    ExitInv (Kernel.boot numblocks image memory) [] := by
  refine ⟨kernelInv_boot .., fun x hx0 hx => ?_, fun _ _ => rfl, fun t x hp => ?_⟩
  · obtain rfl : x = 1 := by
      have : x ≤ 1 := hx
      omega
    rfl
  · change (if t = taskDiskHandler then TaskPoint.manager .start else .user) = _ at hp
    split at hp <;> exact absurd hp (by simp)

/-- What a returning `task_wait` returns is what the task waited for exited with. -/
theorem ExitInv.returns (h : ExitInv k H) (hs : k.step a = some k')
    (hret : waitReturns k a = some (x, code)) : exitCodes x H = [code] := by
  cases a with
  | wait y =>
      obtain ⟨-, -, hcall⟩ := Kernel.step_call hs (by simp)
      simp only [waitReturns, taskWait] at hret
      cases hcall with
      | finds hy hfin =>
          rw [if_pos hfin] at hret
          obtain ⟨rfl, rfl⟩ := Prod.mk.inj (Option.some.inj hret)
          have hy0 : y ≠ 0 := by
            intro heq
            rw [heq, h.kernel.sys.kernelReady] at hfin
            exact absurd hfin (by decide)
          rw [h.exited y hy0 hy, if_pos hfin]
      | joins _ hfin =>
          rw [if_neg hfin] at hret
          exact absurd hret (by simp)
  | resume =>
      simp only [waitReturns] at hret
      cases hp : k.point k.current with
      | taskWait y =>
          rw [hp] at hret
          obtain ⟨rfl, rfl⟩ := Prod.mk.inj (Option.some.inj hret)
          obtain ⟨hlo, -, -, -, hor⟩ := h.waiter _ _ hp
          rcases hor with hsusp | hcodes
          · have hrun : (k.sys.task k.current).status = .running :=
              (h.kernel.sys.running (show k.current ≠ 0 by omega)).1
            exact absurd (hrun.symm.trans hsusp) (by decide)
          · exact hcodes
      | user | semDown _ | taskSleep | block | manager _ =>
          rw [hp] at hret
          exact absurd hret (by simp)
  | _ => exact absurd hret (by simp [waitReturns])

/-- **The exit code that `task_wait` returns.**  In every run from the boot, when a
`task_wait` of task `x` returns, at once or after `x` has woken the caller, `x` has
exited once, with the code that is returned. -/
theorem task_wait_exit_code (numblocks : Int) (image : Int → Block) (memory : Nat → UInt8)
    (as : List Action) (k : Kernel)
    (hrun : run Kernel.step (Kernel.boot numblocks image memory) as = some k)
    (a : Action) (k' : Kernel) (hs : k.step a = some k') (x : Nat) (code : Int)
    (hret : waitReturns k a = some (x, code)) :
    exitCodes x (history Kernel.step exitEvents (Kernel.boot numblocks image memory) as) =
      [code] := by
  have hall : AllSteps Kernel.step (fun _ _ => True) (Kernel.boot numblocks image memory) as :=
    AllSteps.of_forall fun _ _ _ => trivial
  have h : ExitInv k ([] ++
      history Kernel.step exitEvents (Kernel.boot numblocks image memory) as) :=
  invariant_history ExitInv
    (fun _ _ _ _ h _ hs => h.step hs)
    (exitInv_boot numblocks image memory) hall hrun
  rw [List.nil_append] at h
  exact h.returns hs hret

/-- Task 2 creates task 3, waits for it, and goes on with its code. -/
theorem task_wait_exit_code_seven : ∃ k k',
    run Kernel.step (Kernel.boot 4 (fun _ _ => 0) fun _ => 0)
      [.dispatcher, .dispatcher, .manager, .manager, .dispatcher, .dispatcher, .create true,
        .wait 3, .dispatcher, .dispatcher, .manager, .dispatcher, .dispatcher, .exit 7,
        .dispatcher, .dispatcher, .manager, .dispatcher, .dispatcher] = some k ∧
    k.step .resume = some k' ∧ waitReturns k .resume = some (3, 7) ∧
    exitCodes 3 (history Kernel.step exitEvents (Kernel.boot 4 (fun _ _ => 0) fun _ => 0)
      [.dispatcher, .dispatcher, .manager, .manager, .dispatcher, .dispatcher, .create true,
        .wait 3, .dispatcher, .dispatcher, .manager, .dispatcher, .dispatcher, .exit 7,
        .dispatcher, .dispatcher, .manager, .dispatcher, .dispatcher]) = [7] := by
  have hrun : (run Kernel.step (Kernel.boot 4 (fun _ _ => 0) fun _ => 0)
      [.dispatcher, .dispatcher, .manager, .manager, .dispatcher, .dispatcher, .create true,
        .wait 3, .dispatcher, .dispatcher, .manager, .dispatcher, .dispatcher, .exit 7,
        .dispatcher, .dispatcher, .manager, .dispatcher, .dispatcher]).any (fun k =>
          (k.step .resume).isSome && decide (waitReturns k .resume = some (3, 7))) = true := by
    decide +kernel
  rw [Option.any_eq_true] at hrun
  obtain ⟨k, hk, hlast⟩ := hrun
  rw [Bool.and_eq_true] at hlast
  obtain ⟨k', hs⟩ := Option.isSome_iff_exists.mp hlast.1
  have hret := of_decide_eq_true hlast.2
  exact ⟨k, k', hk, hs, hret, task_wait_exit_code _ _ _ _ k hk _ k' hs 3 7 hret⟩

end PingPongOS
