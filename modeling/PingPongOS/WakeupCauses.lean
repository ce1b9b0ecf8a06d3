import PingPongOS.Bystanders

/-!
# What wakes a blocked task

A task that is blocked in a kernel function is woken by what it waits for, and by
nothing else: by `sem_up` or `sem_destroy` of its semaphore, by the exit of the task it
joins, by the disk manager when its request is served, by the disk interrupt if it is
the disk manager, and by the dispatcher when its time has come.
-/

namespace PingPongOS

open Runs TaskSystem

/-- What can wake task `t` where it is blocked. -/
inductive WokenBy (k : Kernel) (t : Nat) : TaskPoint → Action → Prop
  | up {s : Nat} : WokenBy k t (.semDown s) (.semUp s)
  | destroy {s : Nat} : WokenBy k t (.semDown s) (.semDestroy s)
  | exit {code : Int} : WokenBy k t (.taskWait k.current) (.exit code)
  | answer : WokenBy k t .block .manager
  | irq {p : ManagerPoint} : WokenBy k t (.manager p) .irq
  | due (hdue : (k.sys.task t).wakeUpTime ≤ k.sys.clock) : WokenBy k t .taskSleep .dispatcher
  -- block_init has left the disk manager in ready_queue
  | runs {p : ManagerPoint} : WokenBy k t (.manager p) .dispatcher

/-- The task is still suspended, with the same deadline. -/
def StillBlocked (b b' : Tcb) : Prop :=
  b'.status = .suspended ∧ b'.wakeUpTime = b.wakeUpTime

variable {S S' T : TaskSystem} {t c : Nat} {i : QueueId} {k k' : Kernel} {a : Action}
  {p : TaskPoint}

theorem StillBlocked.of_eq (hb : k.blockedAt t = some p) (h : S.task t = k.sys.task t) :
    StillBlocked (k.sys.task t) (S.task t) := by
  rw [h]
  exact ⟨(blockedAt_eq_some.mp hb).1, rfl⟩

/-- A blocked task does not run, and is not the kernel. -/
theorem KernelInv.blocked_away (h : KernelInv k) (hb : k.blockedAt t = some p) :
    t ≠ k.current ∧ t ≠ 0 := by
  have hs := (blockedAt_eq_some.mp hb).1
  have ht0 : t ≠ 0 := by
    rintro rfl
    exact absurd (h.sys.kernelReady.symm.trans hs) (by decide)
  refine ⟨fun heq => ?_, ht0⟩
  subst heq
  exact absurd ((h.sys.running ht0).1.symm.trans hs) (by decide)

theorem KernelInv.stays_leaves {b : Tcb} (h : KernelInv k) (hb : k.blockedAt t = some p)
    (hl : Leaves k.sys S b i) : StillBlocked (k.sys.task t) (S.task t) :=
  .of_eq hb (hl.others t (h.blocked_away hb).1 (h.blocked_away hb).2)

theorem KernelInv.stays_creates (h : KernelInv k) (hb : k.blockedAt t = some p)
    (hc : Creates k.sys S) : StillBlocked (k.sys.task t) (S.task t) := by
  apply StillBlocked.of_eq hb (hc.others t fun heq => ?_)
  have hfresh := h.names.fresh t (by omega)
  exact hfresh (blockedAt_eq_some.mp hb).1

/-- A `task_awake` wakes its argument only. -/
theorem stays_awake {y : Nat} (hb : k.blockedAt t = some p)
    (hs : taskAwake k.sys (some y) = .ok S) (hy : t ≠ y ∨ WokenBy k t p a) :
    StillBlocked (k.sys.task t) (S.task t) ∨ WokenBy k t p a :=
  hy.imp_left fun hne => .of_eq hb (taskAwake_task hs hne)

/-! ## The dispatcher -/

/-- **The wake-up loop** touches only the sleepers that are due. -/
theorem dispatcherWake_others {o : Option Nat} (hs : dispatcherWake S o = .ok S')
    (ht : S.clock < (S.task t).wakeUpTime) : S'.task t = S.task t := by
  unfold dispatcherWake at hs
  split at hs
  · exact absurd hs (by simp)
  · refine (whileItem_keeps (fun _ T => T.clock = S.clock ∧ T.task t = S.task t)
      (fun x T T' hinv hbody => ?_) (by exact ⟨rfl, rfl⟩) hs).2
    obtain ⟨hclock, hsame⟩ := hinv
    change (if decide ((T.task x).wakeUpTime ≤ T.clock) = true then _ else _) = _ at hbody
    by_cases hd : (T.task x).wakeUpTime ≤ T.clock
    · rw [if_pos (decide_eq_true hd), modify_id] at hbody
      have hne : t ≠ x := by
        rintro rfl
        rw [hsame, hclock] at hd
        omega
      exact ⟨(taskAwake_passive hbody).clock.trans hclock,
        (taskAwake_task hbody hne).trans hsame⟩
    · rw [if_neg (by simpa using hd)] at hbody
      obtain rfl := Except.ok.inj hbody
      exact ⟨hclock, hsame⟩

/-- The second half of the dispatcher's loop, after a `scheduler` that moved nobody. -/
theorem KernelInv.stays_wake (h : KernelInv k) (hb : k.blockedAt t = some p)
    (hp : AllPassive k.sys S) (hq : Quiet k.sys S) {o : Option Nat}
    (hs : dispatcherWake S o = .ok S') :
    StillBlocked (k.sys.task t) (S'.task t) ∨ WokenBy k t p .dispatcher := by
  have hkept : StillBlocked (k.sys.task t) (S.task t) := by
    refine ⟨(hq.fields t).1.trans (blockedAt_eq_some.mp hb).1, ?_⟩
    rw [(hp.task t).fields]
  by_cases hmem : t ∈ k.sys.inQueue .sleeping
  · have hsleep := (h.task t).sleeps (h.sys.sleeps hmem).2.2
    obtain rfl := Option.some.inj (hb.symm.trans hsleep)
    by_cases hdue : (k.sys.task t).wakeUpTime ≤ k.sys.clock
    · exact Or.inr (.due hdue)
    · left
      rw [dispatcherWake_others hs]
      · exact hkept
      · rw [hkept.2, hp.clock]
        omega
  · left
    have hout : t ∉ S.inQueue .sleeping := by
      intro hin
      have hpos : 0 < S.occurs .sleeping t := List.count_pos_iff.mpr hin
      rw [hq.occurs] at hpos
      exact hmem (List.count_pos_iff.mp hpos)
    rw [(dispatcherWake_passive hs).2 t hout]
    exact hkept

/-- Of the blocked tasks only the disk manager can be in `ready_queue`. -/
theorem KernelInv.blocked_ready (h : KernelInv k) (hb : k.blockedAt t = some p)
    (ht : 0 < k.sys.occurs .ready t) : ∃ q, p = .manager q := by
  rcases (h.sys.ready_status ht).2.2 with rfl | hs
  · exact h.disk.free p hb
  · exact absurd (hs.symm.trans (blockedAt_eq_some.mp hb).1) (by decide)

theorem KernelInv.stays_dispatcher (h : KernelInv k) (hb : k.blockedAt t = some p)
    (hs : k.dispatcherStep = some (.ok k')) :
    StillBlocked (k.sys.task t) (k'.sys.task t) ∨ WokenBy k t p .dispatcher := by
  obtain ⟨o, S, hsched, hq, hready⟩ := h.sys.scheduler
  have hp := scheduler_passive hsched
  cases Kernel.dispatched hs with
  | enters _ => exact Or.inl (h.stays_creates hb (creates_taskCreate k.sys))
  | @runs next _ _ hrun =>
      obtain ⟨rfl, rfl⟩ := Prod.mk.inj (Except.ok.inj (hsched.symm.trans hrun))
      by_cases ht : t = next
      · obtain ⟨q, rfl⟩ := h.blocked_ready hb (ht ▸ hready next rfl)
        exact Or.inr .runs
      · left
        have hin : 0 < S.occurs .ready next := by
          rw [hq.occurs]
          exact hready next rfl
        change StillBlocked _ ((taskRun S next).task t)
        rw [(dispatches_taskRun hin).others t ht]
        refine ⟨(hq.fields t).1.trans (blockedAt_eq_some.mp hb).1, ?_⟩
        rw [(hp.task t).fields]
  | idles _ hrun hw =>
      obtain ⟨rfl, rfl⟩ := Prod.mk.inj (Except.ok.inj (hsched.symm.trans hrun))
      exact h.stays_wake hb hp hq hw
  | wakes _ hw => exact h.stays_wake hb (AllPassive.refl _) (Quiet.refl _) hw

/-! ## The disk manager -/

theorem KernelInv.stays_manager (h : KernelInv k) (hb : k.blockedAt t = some p)
    (hc : k.current = 1) {q : ManagerPoint} (hq : k.point 1 = .manager q)
    (hs : Managed k q k') :
    StillBlocked (k.sys.task t) (k'.sys.task t) ∨ WokenBy k t p .manager := by
  have hc0 : k.current ≠ 0 := by omega
  have hk := h.sys.kernelReady
  cases hs with
  | starts => exact Or.inl (.of_eq hb rfl)
  | idles _ => exact Or.inl (h.stays_leaves hb (leaves_taskYield hk hc0))
  | serves _ | waits _ => exact Or.inl (h.stays_leaves hb (leaves_suspend hk hc0))
  | @answers r _ haw =>
      have hmem := List.mem_of_mem_head? (h.disk.served r hq)
      rw [(h.disk.caller r hmem).1] at haw
      apply stays_awake hb haw
      by_cases ht : t = r
      · subst ht
        obtain rfl := Option.some.inj (hb.symm.trans ((h.mem_requests t).mp hmem))
        exact Or.inr .answer
      · exact Or.inl ht

/-! ## Calls of a user task -/

/-- `sem_up` passes a waiter to `task_awake`. -/
theorem KernelInv.semUp_wakes (h : KernelInv k) {s y : Nat} {r : Int × Option Nat × Semaphore}
    (hr : PingPongOS.semUp (k.sem s) = .ok r) (hy : r.2.1 = some y) :
    k.blockedAt y = some (.semDown s) := by
  apply (h.mem_waitQueue s y).mp
  cases hd : (k.sem s).destroy with
  | true =>
      rw [semUp_destroyed (h.unlocked s) hd] at hr
      rw [← Except.ok.inj hr] at hy
      exact absurd hy (by simp)
  | false =>
      obtain ⟨x, hx, -⟩ := semUp_ok (h.unlocked s) hd
      rw [hx] at hr
      rw [← Except.ok.inj hr] at hy
      exact List.mem_of_mem_head? hy

/-- The exit of the running task touches only its joiners. -/
theorem KernelInv.stays_exit (h : KernelInv k) (hb : k.blockedAt t = some p)
    (hc : 2 ≤ k.current) {code : Int} (hs : taskExit k.sys code = .ok S) :
    StillBlocked (k.sys.task t) (S.task t) ∨ WokenBy k t p (.exit code) := by
  have hc0 : k.current ≠ 0 := by omega
  obtain ⟨hne, ht0⟩ := h.blocked_away hb
  by_cases hjoin : (k.sys.task t).targetToWait = (k.sys.task k.current).id
  · have hrun : (k.sys.task k.current).status ≠ .finished := by
      rw [show (k.sys.task k.current).status = .running from (h.sys.running hc0).1]
      decide
    have hwait := h.joined hc h.sys.current hrun hjoin
    obtain rfl := Option.some.inj (hb.symm.trans hwait)
    exact Or.inr .exit
  · exact Or.inl (.of_eq hb (((taskExit_exits hs hc0).others t hne ht0).2 hjoin))

/-- **A call of the running task** wakes a blocked one only if it waits for the call. -/
theorem KernelInv.stays_call (h : KernelInv k) (hb : k.blockedAt t = some p)
    (hc : 2 ≤ k.current) (hs : Called k a k') :
    StillBlocked (k.sys.task t) (k'.sys.task t) ∨ WokenBy k t p a := by
  have hk := h.sys.kernelReady
  have hc0 : k.sys.currentActiveTask ≠ 0 := by
    change k.current ≠ 0
    omega
  have hsame : StillBlocked (k.sys.task t) (k.sys.task t) := .of_eq hb rfl
  cases hs with
  | creates => exact Or.inl (h.stays_creates hb (creates_taskCreate k.sys))
  | yields => exact Or.inl (h.stays_leaves hb (leaves_taskYield hk hc0))
  | sleeps | joins _ _ => exact Or.inl (h.stays_leaves hb (leaves_taskSuspend hk hc0 _ _))
  | exits he => exact h.stays_exit hb hc he
  | waits _ _ => exact Or.inl (h.stays_leaves hb (leaves_suspend hk hc0))
  | asks hbuf =>
      rw [blockCall_of_buffer k hbuf]
      exact Or.inl (h.stays_leaves hb (leaves_suspend hk hc0))
  | @ups s r S _ hx haw =>
      cases ho : r.2.1 with
      | none =>
          rw [ho] at haw
          obtain rfl := Except.ok.inj haw
          exact Or.inl hsame
      | some y =>
          rw [ho] at haw
          apply stays_awake hb haw
          by_cases ht : t = y
          · subst ht
            obtain rfl := Option.some.inj (hb.symm.trans (h.semUp_wakes hx ho))
            exact Or.inr .up
          · exact Or.inl ht
  | @destroys s _ _ _ hx =>
      by_cases hmem : t ∈ (k.sem s).waitQueue.items
      · obtain rfl := Option.some.inj (hb.symm.trans ((h.mem_waitQueue s t).mp hmem))
        exact Or.inr .destroy
      · exact Or.inl (.of_eq hb ((semDestroy_passive hx).2 t hmem))
  | refused | finds _ _ | semCreates _ | semRefused _ | downs _ _ | rejects | stores =>
      exact Or.inl hsame

/-! ## Every step -/

/-- Where a task goes on changes only while it has the CPU. -/
theorem KernelInv.point_other (h : KernelInv k) (hs : k.step a = some k') (ht : t ≠ k.current) :
    k'.point t = k.point t := by
  have hset : ∀ q, Function.update k.point k.current q t = k.point t := fun q =>
    Function.update_of_ne ht _ _
  obtain ⟨-, heffect⟩ := h.step hs
  cases heffect with
  | tasks | creates | downs | ups | destroys | rejects | stores | idles | transfers
  | interrupts => rfl
  | sleeps | joins | waits | returns | returnsDown | starts | serves | answers => exact hset _
  | asks hb hc hu hm =>
      rw [blockCall_of_buffer k hb]
      exact hset _

/-- What a step does to the descriptor of a blocked task. -/
theorem KernelInv.stays (h : KernelInv k) (hs : k.step a = some k')
    (hb : k.blockedAt t = some p) :
    StillBlocked (k.sys.task t) (k'.sys.task t) ∨ WokenBy k t p a := by
  cases Kernel.stepped hs with
  | calls hc hu hcall => exact h.stays_call hb (h.user_current hc hu) hcall
  | returns _ _ | returnsDown _ _ _ | transfers _ => exact Or.inl (.of_eq hb rfl)
  | manages hc hq hm => exact h.stays_manager hb hc hq hm
  | dispatches _ hd => exact h.stays_dispatcher hb hd
  | interrupts _ haw =>
      apply stays_awake hb haw
      by_cases ht : t = 1
      · subst ht
        obtain ⟨q, rfl⟩ := h.disk.free p hb
        exact Or.inr .irq
      · exact Or.inl ht
  | ticks _ =>
      obtain ⟨hne, ht0⟩ := h.blocked_away hb
      have htick := tick_task (S := k.sys) ht0
      rw [if_pos (show t ≠ k.sys.currentActiveTask from hne)] at htick
      exact Or.inl (.of_eq hb htick)

/-- **What wakes a blocked task.**  A step leaves it blocked where it is, with its
deadline, or it is a step that the task waits for. -/
theorem KernelInv.stays_or_woken (h : KernelInv k) (hs : k.step a = some k')
    (hb : k.blockedAt t = some p) :
    (k'.blockedAt t = some p ∧ (k'.sys.task t).wakeUpTime = (k.sys.task t).wakeUpTime) ∨
      WokenBy k t p a := by
  rcases h.stays hs hb with ⟨hstatus, htime⟩ | hw
  · refine Or.inl ⟨blockedAt_eq_some.mpr ⟨hstatus, ?_⟩, htime⟩
    rw [h.point_other hs (h.blocked_away hb).1]
    exact (blockedAt_eq_some.mp hb).2
  · exact Or.inr hw

end PingPongOS
