import PingPongOS.SystemChanges

/-!
# Nobody wakes a sleeper early

`task_sleep(t)` takes `systime() + t` for its deadline, and the dispatcher wakes the
sleepers whose deadline is not after the clock.  Nothing else wakes a sleeper, and only
ticks move the clock, so a task sleeps for `t` ticks at least, if the sum fits in an
`int`.  A sum that wraps lies in the past, and the next pass of the dispatcher finds the
sleeper due.
-/

namespace PingPongOS

open Runs TaskSystem

variable {k k' : Kernel} {S : TaskSystem} {t : Nat} {a : Action}

/-! ## The clock -/

theorem toKernel_clock (S : TaskSystem) : (toKernel S).clock = S.clock := by
  simp only [toKernel, taskSwitch]
  split <;> rfl

theorem tick_clock (S : TaskSystem) : (handleTimerSignal S).clock = addInt S.clock 1 := by
  unfold handleTimerSignal taskYield
  simp only [taskSwitch]
  split
  · split
    · split <;> rfl
    · rw [toKernel_clock]
      rfl
  · rfl

/-- **Only a tick moves the clock.** -/
theorem SysChange.clock (h : SysChange k a S) (hinv : KernelInv k) :
    S.clock = if a = .tick then addInt k.sys.clock 1 else k.sys.clock := by
  have hplain : a.plain = true → a ≠ .tick := by
    rintro ha rfl
    exact absurd ha (by decide)
  cases h with
  | creates ha hc => rw [hc.clock, if_neg (hplain ha)]
  | passive ha hp => rw [hp.clock, if_neg (hplain ha)]
  | yields ha _ hl => rw [hl.clock, if_neg (hplain ha)]
  | suspends ha _ _ hl => rw [hl.clock, if_neg (hplain ha)]
  | dispatches _ hp _ _ hd => rw [hd.clock, hp.clock, if_neg (by simp)]
  | ticks => rw [tick_clock, if_pos rfl]
  | @exits code S hc _ hexit =>
      obtain ⟨S', hS', -, he⟩ := hinv.sys.exit hc code fun y hy => by
        rw [hinv.names.neverWaits y hy, hinv.names.ids _ hinv.sys.current]
        exact (show 0 ≠ k.current by omega)
      obtain rfl := Except.ok.inj (hexit.symm.trans hS')
      rw [he.clock, if_neg (by simp)]

/-- The clock is an `int`. -/
def ClockFits (S : TaskSystem) : Prop := -2 ^ 31 ≤ S.clock ∧ S.clock < 2 ^ 31

theorem KernelInv.clock_step (h : KernelInv k) (hfits : ClockFits k.sys)
    (hs : k.step a = some k') : ClockFits k'.sys := by
  unfold ClockFits
  rw [(h.change hs).clock h]
  split
  · exact addInt_fits _ _
  · exact hfits

/-- In every state reached from the boot the clock is an `int`. -/
theorem clockFits_reached {numblocks : Int} {image : Int → Block} {memory : Nat → UInt8}
    {as : List Action}
    (hrun : run Kernel.step (Kernel.boot numblocks image memory) as = some k) :
    KernelInv k ∧ ClockFits k.sys :=
  invariant (fun k => KernelInv k ∧ ClockFits k.sys)
    (fun _ _ _ h hs => ⟨(h.1.step hs).1, h.1.clock_step h.2 hs⟩)
    ⟨kernelInv_boot numblocks image memory, (by decide : (-2 ^ 31 : Int) ≤ 0),
      (by decide : (0 : Int) < 2 ^ 31)⟩ hrun

/-! ## Sleepers -/

/-- Task `t` sleeps, and it is due in `r` ticks. -/
structure DueIn (k : Kernel) (t : Nat) (r : Int) : Prop where
  blocked : k.blockedAt t = some .taskSleep
  deadline : (k.sys.task t).wakeUpTime = k.sys.clock + r
  fits : k.sys.clock + r < 2 ^ 31

/-- **One step of a sleeper's time.**  It goes on sleeping, and a tick brings it one
nearer to its deadline, unless it is due. -/
theorem KernelInv.dueIn_step {r : Int} (h : KernelInv k) (hfits : ClockFits k.sys)
    (hd : DueIn k t r) (hr : 0 < r) (hs : k.step a = some k') :
    DueIn k' t (if a = .tick then r - 1 else r) := by
  obtain ⟨hlo, -⟩ := hfits
  have hnext := hd.fits
  have hclock : k'.sys.clock + (if a = .tick then r - 1 else r) = k.sys.clock + r := by
    rw [(h.change hs).clock h]
    split
    · rw [addInt_of_fits ⟨by omega, by omega⟩]
      omega
    · rfl
  rcases h.stays_or_woken hs hd.blocked with ⟨hb, htime⟩ | hw
  · refine ⟨hb, ?_, ?_⟩
    · rw [htime, hd.deadline, hclock]
    · rw [hclock]
      exact hd.fits
  · -- of the wake-ups a sleeper has only the one that looks at its deadline
    cases hw with
    | due hdue =>
        rw [hd.deadline] at hdue
        omega

/-- **Sleepers are not woken early.** -/
theorem DueIn.sleeps {r : Int} (hd : DueIn k t r) (h : KernelInv k) (hfits : ClockFits k.sys)
    {bs : List Action} (hrun : run Kernel.step k bs = some k')
    (hready : (k'.sys.task t).status ≠ .suspended) : r ≤ bs.count .tick := by
  induction bs generalizing k r with
  | nil =>
      obtain rfl := Option.some.inj hrun
      exact absurd (blockedAt_eq_some.mp hd.blocked).1 hready
  | cons b bs ih =>
      by_cases hr : 0 < r
      · obtain ⟨m, hm, hrest⟩ := run_cons.mp hrun
        have hcount := ih (h.dueIn_step hfits hd hr hm) (h.step hm).1 (h.clock_step hfits hm)
          hrest
        rw [List.count_cons]
        by_cases hb : b = .tick
        · simp only [hb, if_true, beq_self_eq_true] at hcount ⊢
          omega
        · simp only [hb, if_false, beq_iff_eq] at hcount ⊢
          omega
      · omega

/-- The state after `task_sleep`. -/
theorem KernelInv.after_sleep {t : Int} (h : KernelInv k) (hs : k.step (.sleep t) = some k') :
    k'.blockedAt k.current = some .taskSleep ∧ k'.sys.clock = k.sys.clock ∧
      (k'.sys.task k.current).wakeUpTime = addInt k.sys.clock t := by
  obtain ⟨hc, -, ⟨⟩⟩ := Kernel.step_call hs (by simp)
  have hl := leaves_taskSuspend h.sys.kernelReady (show k.sys.currentActiveTask ≠ 0 from hc)
    (fun b => { b with sleeping := true, wakeUpTime := addInt k.sys.clock t }) .sleeping
  have htask : (taskSleep k.sys t).task k.current =
      { k.sys.task k.current with
        sleeping := true, wakeUpTime := addInt k.sys.clock t, status := .suspended } := hl.task
  refine ⟨blockedAt_eq_some.mpr ⟨?_, Function.update_self ..⟩, hl.clock, ?_⟩
  · exact congrArg Tcb.status htask
  · exact congrArg Tcb.wakeUpTime htask

theorem KernelInv.dueIn_sleep {t : Int} (h : KernelInv k) (hfits : ClockFits k.sys)
    (ht : 0 ≤ t) (hfit : k.sys.clock + t < 2 ^ 31) (hs : k.step (.sleep t) = some k') :
    DueIn k' k.current t := by
  obtain ⟨hb, hclock, htime⟩ := h.after_sleep hs
  obtain ⟨hlo, -⟩ := hfits
  rw [addInt_of_fits ⟨by omega, hfit⟩] at htime
  exact ⟨hb, by rw [htime, hclock], by rw [hclock]; exact hfit⟩

/-- Where the sum wraps, the sleeper is due at once. -/
theorem KernelInv.due_of_wrap {t : Int} (h : KernelInv k) (hfits : ClockFits k.sys)
    (ht : t < 2 ^ 31) (hwrap : 2 ^ 31 ≤ k.sys.clock + t) (hs : k.step (.sleep t) = some k') :
    (k'.sys.task k.current).wakeUpTime ≤ k'.sys.clock := by
  obtain ⟨-, hclock, htime⟩ := h.after_sleep hs
  obtain ⟨-, hhi⟩ := hfits
  have hpast : addInt k.sys.clock t = k.sys.clock + t - 2 ^ 32 := by
    rw [addInt, ← Int.sub_bmod_right]
    apply Int.bmod_eq_of_le <;> omega
  rw [htime, hclock, hpast]
  omega

/-- **`task_sleep` never wakes early** where `systime() + t` fits in an `int`: the task is
no longer suspended only when `t` ticks have been counted since. -/
theorem sleep_not_early (numblocks : Int) (image : Int → Block) (memory : Nat → UInt8)
    (as bs : List Action) (t : Int) (k k₁ k₂ : Kernel)
    (hrun : run Kernel.step (Kernel.boot numblocks image memory) as = some k)
    (ht : 0 ≤ t) (hfit : k.sys.clock + t < 2 ^ 31) (hsleep : k.step (.sleep t) = some k₁)
    (hlater : run Kernel.step k₁ bs = some k₂)
    (hready : (k₂.sys.task k.current).status ≠ .suspended) : t ≤ bs.count .tick := by
  obtain ⟨hk, hclock⟩ := clockFits_reached hrun
  have hdue := hk.dueIn_sleep hclock ht hfit hsleep
  exact hdue.sleeps (hk.step hsleep).1 (hk.clock_step hclock hsleep) hlater hready

/-- Task 2 sleeps for two ticks. -/
theorem sleep_not_early_two_ticks : ∃ k k₁ k₂,
    run Kernel.step (Kernel.boot 4 (fun _ _ => 0) fun _ => 0)
      [.dispatcher, .dispatcher, .manager, .manager, .dispatcher, .dispatcher] = some k ∧
    k.step (.sleep 2) = some k₁ ∧ run Kernel.step k₁ [.tick, .tick, .dispatcher] = some k₂ ∧
    (k₂.sys.task k.current).status ≠ .suspended ∧
    (2 : Int) ≤ [Action.tick, .tick, .dispatcher].count .tick := by
  have hrun : (run Kernel.step (Kernel.boot 4 (fun _ _ => 0) fun _ => 0)
      [.dispatcher, .dispatcher, .manager, .manager, .dispatcher, .dispatcher]).any (fun k =>
        decide (k.sys.clock + 2 < 2 ^ 31) && (k.step (.sleep 2)).any fun k₁ =>
          (run Kernel.step k₁ [.tick, .tick, .dispatcher]).any fun k₂ =>
            decide ((k₂.sys.task k.current).status ≠ .suspended)) = true := by
    decide +kernel
  simp only [Option.any_eq_true, Bool.and_eq_true, decide_eq_true_eq] at hrun
  obtain ⟨k, hk, hfit, k₁, hk₁, k₂, hk₂, hready⟩ := hrun
  exact ⟨k, k₁, k₂, hk, hk₁, hk₂, hready,
    sleep_not_early 4 (fun _ _ => 0) (fun _ => 0) _ _ 2 k k₁ k₂ hk (by decide) hfit hk₁ hk₂ hready⟩

/-- **A sum that wraps.**  At time 1 task 2 calls `task_sleep(INT_MAX)`; its deadline is
`INT_MIN`, and it is woken before any tick. -/
theorem sleep_wrapped : ∃ k k₁ k₂,
    run Kernel.step (Kernel.boot 4 (fun _ _ => 0) fun _ => 0)
      [.tick, .dispatcher, .dispatcher, .manager, .manager, .dispatcher, .dispatcher] = some k ∧
    k.sys.clock = 1 ∧ k.step (.sleep 2147483647) = some k₁ ∧
    run Kernel.step k₁ [.dispatcher] = some k₂ ∧
    (k₂.sys.task k.current).status = .ready ∧
    ¬ (2147483647 : Int) ≤ [Action.dispatcher].count .tick := by
  have hrun : (run Kernel.step (Kernel.boot 4 (fun _ _ => 0) fun _ => 0)
      [.tick, .dispatcher, .dispatcher, .manager, .manager, .dispatcher, .dispatcher]).any (fun k =>
        decide (k.sys.clock = 1) && (k.step (.sleep 2147483647)).any fun k₁ =>
          (run Kernel.step k₁ [.dispatcher]).any fun k₂ =>
            decide ((k₂.sys.task k.current).status = .ready)) = true := by
    decide +kernel
  simp only [Option.any_eq_true, Bool.and_eq_true, decide_eq_true_eq] at hrun
  obtain ⟨k, hk, hclock, k₁, hk₁, k₂, hk₂, hready⟩ := hrun
  exact ⟨k, k₁, k₂, hk, hclock, hk₁, hk₂, hready, by decide⟩

end PingPongOS
