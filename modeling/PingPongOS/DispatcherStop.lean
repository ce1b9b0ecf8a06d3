import PingPongOS.TaskConsistency

/-!
# When the dispatcher stops

The loop of the dispatcher ends when at most one task is ready, nobody sleeps and no
request is pending.  The one ready task is then the disk manager: it leaves
`ready_queue` only for a request, which stays in `requests` until it is answered.
-/

namespace PingPongOS

open Runs TaskSystem

/-- Suspended and out of `ready_queue`, the disk manager is at a request. -/
def AtRequest (k : Kernel) : Prop :=
  (k.sys.task 1).status = .suspended → k.sys.occurs .ready 1 = 0 →
    ∃ r, k.point 1 = .manager (.served r)

variable {k k' : Kernel} {a : Action}

/-- A step that leaves the point of the disk manager alone, and only wakes it. -/
theorem AtRequest.of_steady (h : AtRequest k) (hm : Steady k.sys k'.sys)
    (hp : k'.point 1 = k.point 1) : AtRequest k' := by
  intro hs hready
  rw [hp]
  rcases hm with hseat | hne
  · exact h (hseat.status.symm.trans hs) ((hseat.occurs _).symm.trans hready)
  · exact absurd hs hne

/-- Another task goes on at another point. -/
theorem setPoint_manager {p : TaskPoint} (hc : k.current ≠ 1) :
    (k.setPoint p).point 1 = k.point 1 := by
  unfold Kernel.setPoint
  exact Function.update_of_ne (Ne.symm hc) ..

/-- While the disk manager has the CPU it is not suspended. -/
theorem KernelInv.manager_running (h : KernelInv k) (hc : k.current = 1) :
    (k.sys.task 1).status ≠ .suspended := by
  rw [h.sys.manager.running.mpr hc]
  decide

/-- **Every step** keeps the disk manager at its request. -/
theorem AtRequest.step (h : AtRequest k) (hk : KernelInv k) (hs : k.step a = some k') :
    AtRequest k' := by
  obtain ⟨-, heffect⟩ := hk.step hs
  have huser : k.point k.current = .user → k.current ≠ 1 := by
    intro hu hc
    obtain ⟨p, hp⟩ := hk.disk.manager
    rw [hc, hp] at hu
    exact absurd hu (by simp)
  cases heffect with
  | tasks _ hm | ups _ _ _ hm | destroys hm | idles _ _ _ hm => exact h.of_steady hm rfl
  | sleeps hu hm | joins hu hm | waits hu _ hm =>
      exact h.of_steady hm (setPoint_manager (huser hu))
  | creates _ | downs _ | rejects | stores => exact h.of_steady (Steady.refl _) rfl
  | asks hb hc _ hm =>
      rw [blockCall_of_buffer k hb]
      exact h.of_steady hm (setPoint_manager (by omega))
  | returns hc _ => exact h.of_steady (Steady.refl _) (setPoint_manager (by omega))
  | returnsDown hp _ =>
      have hc : k.current ≠ 1 := by
        intro hc
        obtain ⟨p, hp'⟩ := hk.disk.manager
        rw [hc, hp'] at hp
        exact absurd hp (by simp)
      exact h.of_steady (Steady.refl _) (setPoint_manager (k := k.setSem _ _) hc)
  | starts hc _ => exact fun hsusp _ => absurd hsusp (hk.manager_running hc)
  | @serves r S hc _ _ _ _ =>
      intro _ _
      refine ⟨r, ?_⟩
      change Function.update k.point k.current _ 1 = _
      rw [hc, Function.update_self]
  | answers hc _ _ _ hm =>
      intro hsusp hready
      exfalso
      rcases hm with hseat | hne
      · exact hk.manager_running hc (hseat.status.symm.trans hsusp)
      · exact hne hsusp
  | transfers _ => exact h
  | interrupts _ hwoken =>
      intro hsusp _
      exact absurd (hwoken.status.symm.trans hsusp) (by decide)

/-- With no request pending, the disk manager waits in `ready_queue` while the kernel has
the CPU. -/
theorem KernelInv.manager_ready (h : KernelInv k) (hat : AtRequest k)
    (hc : k.current = taskKernel) (hrequests : k.requests.items = []) :
    k.sys.occurs .ready 1 = 1 := by
  cases hs : (k.sys.task 1).status with
  | running =>
      have hc1 : k.current = 1 := h.sys.manager.running.mp hs
      exact absurd (hc.symm.trans hc1) (by decide)
  | ready => exact (h.sys.manager.whenReady hs).1
  | finished => exact absurd hs h.sys.manager.notFinished
  | suspended =>
      rcases h.sys.manager.whenSuspended hs with ⟨hready, -⟩ | ⟨hready, -⟩
      · exact hready
      · obtain ⟨r, hr⟩ := hat hs hready
        have hhead := h.disk.served r hr
        rw [hrequests] at hhead
        exact absurd hhead (by simp)

/-- Two different tasks in a queue. -/
theorem two_le_queueSize {S : TaskSystem} {i : QueueId} {x y : Nat} (hne : x ≠ y)
    (hx : 0 < S.occurs i x) (hy : 0 < S.occurs i y) : 2 ≤ queueSize (S.queue i) := by
  have hmemx : x ∈ S.inQueue i := List.count_pos_iff.mp hx
  have hmemy : y ∈ (S.inQueue i).erase x :=
    (List.mem_erase_of_ne (Ne.symm hne)).mpr (List.count_pos_iff.mp hy)
  have hlen := List.length_erase_of_mem hmemx
  have hpos := List.length_pos_of_mem hmemy
  change 2 ≤ (S.inQueue i).length
  omega

end PingPongOS
