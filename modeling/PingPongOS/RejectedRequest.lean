import PingPongOS.TaskConsistency

/-!
# A rejected request

`disk_manager` suspends itself after every command, also after one that
`hw_disk_cmd` refuses.  No interrupt follows a refused command, so the manager
is never woken again; this happens exactly when a request for a block that is not on
the disk comes to the head of the queue.
-/

namespace PingPongOS

open Runs TaskSystem

/-- The disk manager is blocked in its own `task_suspend` and nothing is on its way that
would wake it. -/
def Hung (k : Kernel) : Prop :=
  (k.sys.task taskDiskHandler).status = .suspended ∧ k.sys.occurs .ready taskDiskHandler = 0 ∧
    k.disk.status = .idle ∧ k.irqDisk = false

instance (k : Kernel) : Decidable (Hung k) :=
  inferInstanceAs (Decidable (_ ∧ _ ∧ _ ∧ _))

/-- A request that the disk manager passes to the disk in this step names a block of the
disk. -/
def accepted (k : Kernel) : Action → Bool
  | .manager =>
      match k.point taskDiskHandler, queueItem k.requests with
      | .manager .loop, some r =>
          decide (0 ≤ (k.request r).block ∧ (k.request r).block < k.disk.numblocks)
      | _, _ => true
  | _ => true

variable {k k' : Kernel} {a : Action}

/-- A step that is not accepted passes a request for no block of the disk. -/
theorem not_accepted (hok : accepted k a ≠ true) :
    a = .manager ∧ k.point taskDiskHandler = .manager .loop ∧
      ∃ r, queueItem k.requests = some r ∧
        ¬ (0 ≤ (k.request r).block ∧ (k.request r).block < k.disk.numblocks) := by
  cases a with
  | manager =>
      cases hp : k.point taskDiskHandler with
      | manager p =>
          cases p with
          | loop =>
              cases hq : queueItem k.requests with
              | some r => exact ⟨rfl, rfl, r, rfl, by simpa [accepted, hp, hq] using hok⟩
              | none => exact absurd (by simp [accepted, hp, hq]) hok
          | start | served _ => exact absurd (by simp [accepted, hp]) hok
      | user | semDown _ | taskWait _ | taskSleep | block =>
          exact absurd (by simp [accepted, hp]) hok
  | _ => exact absurd rfl hok

/-- A command with a buffer that an idle disk gets is accepted if and only if its block
is on the disk. -/
theorem hwDiskCmd_status {d : Disk} (cmd : DiskCmd) (hd : d.status = .idle) {block : Int}
    {buffer : Nat} (hb : buffer ≠ 0) :
    (hwDiskCmd d cmd block buffer).2.status ≠ .idle ↔ 0 ≤ block ∧ block < d.numblocks := by
  unfold hwDiskCmd
  rw [if_neg (by simp [hd]), if_neg hb]
  by_cases hr : block < 0 ∨ d.numblocks ≤ block
  · rw [if_pos hr]
    constructor
    · exact fun hne => absurd hd hne
    · omega
  · rw [if_neg hr]
    constructor
    · omega
    · intro _
      cases cmd <;> simp

/-- While nothing is wrong, a step that only wakes the manager or leaves it alone does
not hang it. -/
theorem Hung.of_steady (h : Hung k') (hm : Steady k.sys k'.sys) (hd : k'.disk = k.disk)
    (hirq : k'.irqDisk = k.irqDisk) : Hung k := by
  obtain ⟨hs, hready, hidle, hi⟩ := h
  rw [hd] at hidle
  rw [hirq] at hi
  rcases hm with hseat | hne
  · exact ⟨hseat.status.symm.trans hs, (hseat.occurs _).symm.trans hready, hidle, hi⟩
  · exact absurd hs hne

/-- **The step of the disk manager that takes a request** hangs it if and only if the
block is not on the disk. -/
theorem KernelInv.hung_serves (h : KernelInv k) (hp : k.point 1 = .manager .loop) {r : Nat}
    (hq : queueItem k.requests = some r) (hs : k.step .manager = some k') :
    ¬ Hung k' ↔ 0 ≤ (k.request r).block ∧ (k.request r).block < k.disk.numblocks := by
  obtain ⟨hk, heffect⟩ := h.step hs
  have hmem : r ∈ k.requests.items := by
    rw [queueItem_of_passed h.disk.iterator] at hq
    exact List.mem_of_mem_head? hq
  cases heffect with
  | tasks ha _ => exact absurd ha (by simp [Action.onTasks])
  | starts _ hp' =>
      rw [hp] at hp'
      exact absurd hp' (by simp)
  | idles _ _ hq' _ =>
      rw [hq] at hq'
      exact absurd hq' (by simp)
  | answers _ hp' _ _ _ =>
      rw [hp] at hp'
      exact absurd hp' (by simp)
  | @serves r' S hc _ hq' hsusp hready =>
      obtain rfl := Option.some.inj (hq.symm.trans hq')
      obtain ⟨hidle, hirq⟩ := h.manager_idle hc
      rw [← hwDiskCmd_status (k.request r).type hidle (h.disk.caller r hmem).2]
      constructor
      · exact fun hnot hd => hnot ⟨hsusp, hready, hd, hirq⟩
      · exact fun hd hhung => hd hhung.2.2.1

/-- **Every other step** leaves a manager that is not hung as it is. -/
theorem KernelInv.not_hung_step (h : KernelInv k) (hnot : ¬ Hung k) (hok : accepted k a = true)
    (hs : k.step a = some k') : ¬ Hung k' := by
  obtain ⟨hk, heffect⟩ := h.step hs
  intro hhung
  cases heffect with
  | @serves r S hc hp hq _ _ =>
      have hp' : k.point taskDiskHandler = .manager .loop := hp
      simp only [accepted, hp', hq, decide_eq_true_eq] at hok
      exact (h.hung_serves hp hq hs).mpr hok hhung
  | asks hb _ _ hm =>
      rw [blockCall_of_buffer k hb] at hhung
      exact hnot (hhung.of_steady hm rfl rfl)
  | transfers _ => exact absurd hhung.2.2.2 (by simp)
  | interrupts _ hwoken =>
      have hready := hwoken.status
      exact absurd (hready.symm.trans hhung.1) (by decide)
  | tasks _ hm | sleeps _ hm | joins _ hm | waits _ _ hm | ups _ _ _ hm | destroys hm
  | idles _ _ _ hm | answers _ _ _ _ hm => exact hnot (hhung.of_steady hm rfl rfl)
  | creates _ | downs _ | rejects | stores | returns _ _ | returnsDown _ _ | starts _ _ =>
      exact hnot (hhung.of_steady (Steady.refl _) rfl rfl)

/-- A step that is not accepted hangs the manager. -/
theorem KernelInv.hung_step (h : KernelInv k) (hok : accepted k a ≠ true)
    (hs : k.step a = some k') : Hung k' := by
  by_contra hnot
  obtain ⟨rfl, hp, r, hq, hblock⟩ := not_accepted hok
  exact hblock ((h.hung_serves hp hq hs).mp hnot)

/-- **When a rejected request hangs the system.**  In a run from the boot the disk
manager is never left blocked with the disk idle and no interrupt outstanding, if and
only if every request that comes to the head of the queue names a block of the disk. -/
theorem never_hung_iff (numblocks : Int) (image : Int → Block) (memory : Nat → UInt8)
    (as : List Action) (k : Kernel)
    (hrun : run Kernel.step (Kernel.boot numblocks image memory) as = some k) :
    (∀ as' k', as' <+: as →
        run Kernel.step (Kernel.boot numblocks image memory) as' = some k' → ¬ Hung k') ↔
      AllSteps Kernel.step (fun k a => accepted k a = true)
        (Kernel.boot numblocks image memory) as := by
  have hstart : ¬ Hung (Kernel.boot numblocks image memory) := by
    intro hhung
    have hready := hhung.2.1
    rw [boot_occurs] at hready
    exact absurd hready (by simp [taskDiskHandler])
  constructor
  · intro hnever
    refine allSteps_iff_prefix.mpr fun bs a t hpre ht => ?_
    by_contra hok
    obtain ⟨u, hu⟩ := run_prefix hpre hrun
    obtain ⟨t', ht', hs⟩ := run_snoc.mp hu
    obtain rfl := Option.some.inj (ht.symm.trans ht')
    exact hnever _ u hpre hu ((KernelInv.reached ht).hung_step hok hs)
  · rintro hall as' k' ⟨rest, rfl⟩ hk'
    have hinv := invariant_of_allSteps (fun k => KernelInv k ∧ ¬ Hung k)
      (fun _ _ _ h hok hs => ⟨(h.1.step hs).1, h.1.not_hung_step h.2 hok hs⟩)
      ⟨kernelInv_boot .., hstart⟩ (AllSteps.append.mp hall).1 hk'
    exact hinv.2

/-- A read and its answer: every request is accepted. -/
theorem never_hung_iff_read : ∃ k, run Kernel.step (Kernel.boot 4 (fun _ _ => 0) fun _ => 0)
      [.dispatcher, .dispatcher, .manager, .manager, .dispatcher, .dispatcher,
        .blockCall .read 3 100, .dispatcher, .dispatcher, .manager, .diskDone, .irq,
        .dispatcher, .dispatcher, .manager] = some k ∧
    ((∀ as' k', as' <+: [.dispatcher, .dispatcher, .manager, .manager, .dispatcher, .dispatcher,
        .blockCall .read 3 100, .dispatcher, .dispatcher, .manager, .diskDone, .irq,
        .dispatcher, .dispatcher, .manager] →
        run Kernel.step (Kernel.boot 4 (fun _ _ => 0) fun _ => 0) as' = some k' → ¬ Hung k') ↔
      AllSteps Kernel.step (fun k a => accepted k a = true)
        (Kernel.boot 4 (fun _ _ => 0) fun _ => 0)
        [.dispatcher, .dispatcher, .manager, .manager, .dispatcher, .dispatcher,
          .blockCall .read 3 100, .dispatcher, .dispatcher, .manager, .diskDone, .irq,
          .dispatcher, .dispatcher, .manager]) := by
  obtain ⟨k, hk⟩ := Option.isSome_iff_exists.mp (by decide +kernel :
    (run Kernel.step (Kernel.boot 4 (fun _ _ => 0) fun _ => 0)
      [.dispatcher, .dispatcher, .manager, .manager, .dispatcher, .dispatcher,
        .blockCall .read 3 100, .dispatcher, .dispatcher, .manager, .diskDone, .irq,
        .dispatcher, .dispatcher, .manager]).isSome = true)
  exact ⟨k, hk, never_hung_iff _ _ _ _ k hk⟩

/-- **The hang.**  A read of block `-1` is the first request the disk manager takes; the
disk refuses it, and the manager and the caller stay suspended. -/
theorem disk_manager_hangs : ∃ k, run Kernel.step (Kernel.boot 4 (fun _ _ => 0) fun _ => 0)
      [.dispatcher, .dispatcher, .manager, .manager, .dispatcher, .dispatcher,
        .blockCall .read (-1) 100, .dispatcher, .dispatcher, .manager] = some k ∧
    Hung k ∧ (k.sys.task 2).status = .suspended ∧ k.point 2 = .block := by
  have hrun : (run Kernel.step (Kernel.boot 4 (fun _ _ => 0) fun _ => 0)
      [.dispatcher, .dispatcher, .manager, .manager, .dispatcher, .dispatcher,
        .blockCall .read (-1) 100, .dispatcher, .dispatcher, .manager]).any (fun k =>
          decide (Hung k ∧ (k.sys.task 2).status = .suspended ∧ k.point 2 = .block)) = true := by
    decide +kernel
  rw [Option.any_eq_true] at hrun
  obtain ⟨k, hk, hhung⟩ := hrun
  exact ⟨k, hk, of_decide_eq_true hhung⟩

end PingPongOS
