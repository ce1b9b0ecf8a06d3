import PingPongOS.KernelInvariant

/-!
# What a step can do

A step of the kernel has one of the effects below; each gives the state after the
step, but for the task subsystem, whose part is in the invariant.  In every step but
the one in which the disk manager suspends itself, the disk manager keeps its seat or
is not suspended afterwards.

The state after the step, with the task subsystem, is given for a call of the running task,
for a step of the disk manager and for one of the dispatcher, and from them for every step.
-/

namespace PingPongOS

open TaskSystem

/-- The disk manager keeps its seat, or it is not suspended. -/
def Steady (S S' : TaskSystem) : Prop :=
  SameSeat S S' 1 ∨ (S'.task 1).status ≠ .suspended

/-- The actions that can leave everything but the task subsystem alone. -/
def Action.onTasks : Action → Bool
  | .create _ | .yield | .exit _ | .wait _ | .semCreate _ | .tick | .dispatcher => true
  | _ => false

/-- The points of a task in `task_wait`, `task_sleep`, `block_read` or `block_write`. -/
def TaskPoint.returns : TaskPoint → Bool
  | .taskWait _ | .taskSleep | .block => true
  | _ => false

/-- **The effects of a step.** -/
inductive Effect (k : Kernel) : Action → Kernel → Prop
  | tasks {a : Action} {S : TaskSystem} {d : DispatcherPoint} (ha : a.onTasks = true)
      (hm : Steady k.sys S) : Effect k a { k with sys := S, dispatcher := d }
  | sleeps {t : Int} {S : TaskSystem} (hu : k.point k.current = .user) (hm : Steady k.sys S) :
      Effect k (.sleep t) { k.setPoint .taskSleep with sys := S }
  | joins {t : Nat} {S : TaskSystem} (hu : k.point k.current = .user) (hm : Steady k.sys S) :
      Effect k (.wait t) { k.setPoint (.taskWait t) with sys := S }
  | creates {v : Int} {x : Semaphore} (hx : semCreate v = some x) :
      Effect k (.semCreate v) { k.setSem k.semCount x with semCount := k.semCount + 1 }
  | downs {s : Nat} {c : Int} {x : Semaphore}
      (hx : semDown (k.sem s) k.current = .ok (some c, x)) :
      Effect k (.semDown s) (k.setSem s x)
  | waits {s : Nat} {x : Semaphore} {S : TaskSystem} (hu : k.point k.current = .user)
      (hx : semDown (k.sem s) k.current = .ok (none, x)) (hm : Steady k.sys S) :
      Effect k (.semDown s) { (k.setSem s x).setPoint (.semDown s) with sys := S }
  | ups {s : Nat} {r : Int × Option Nat × Semaphore} {S : TaskSystem}
      (hx : semUp (k.sem s) = .ok r) (hw : Wakes (some · = r.2.1) k.sys S)
      (hwoken : ∀ t, r.2.1 = some t → Woken k.sys S t) (hm : Steady k.sys S) :
      Effect k (.semUp s) { k.setSem s r.2.2 with sys := S }
  | destroys {s : Nat} {x : Semaphore} {S : TaskSystem} (hm : Steady k.sys S) :
      Effect k (.semDestroy s) { k.setSem s x with sys := S }
  | rejects {type : DiskCmd} {block : Int} : Effect k (.blockCall type block 0) k
  | asks {type : DiskCmd} {block : Int} {buffer : Nat} (hb : buffer ≠ 0) (hc : 2 ≤ k.current)
      (hu : k.point k.current = .user) (hm : Steady k.sys (taskSuspend k.sys .suspended)) :
      Effect k (.blockCall type block buffer) (k.blockCall type block buffer)
  | stores {a : Nat} {v : UInt8} :
      Effect k (.store a v) { k with memory := Function.update k.memory a v }
  | returns (hc : 2 ≤ k.current) (hp : (k.point k.current).returns = true) :
      Effect k .resume (k.setPoint .user)
  | returnsDown {s : Nat} {r : Int × Semaphore} (hp : k.point k.current = .semDown s)
      (hx : semDownWoken (k.sem s) = .ok r) :
      Effect k .resume ((k.setSem s r.2).setPoint .user)
  | starts (hc : k.current = 1) (hp : k.point 1 = .manager .start) :
      Effect k .manager (k.setPoint (.manager .loop))
  | idles {S : TaskSystem} (hc : k.current = 1) (hp : k.point 1 = .manager .loop)
      (hq : queueItem k.requests = none) (hm : Steady k.sys S) :
      Effect k .manager { k with sys := S }
  | serves {r : Nat} {S : TaskSystem} (hc : k.current = 1) (hp : k.point 1 = .manager .loop)
      (hq : queueItem k.requests = some r) (hs : (S.task 1).status = .suspended)
      (hr : S.occurs .ready 1 = 0) :
      Effect k .manager { k.setPoint (.manager (.served r)) with
        request := Function.update k.request r { k.request r with
          returnValue := (hwDiskCmd k.disk (k.request r).type (k.request r).block
            (k.request r).buffer).1 }
        disk := (hwDiskCmd k.disk (k.request r).type (k.request r).block
          (k.request r).buffer).2
        sys := S }
  | answers {r : Nat} {S : TaskSystem} (hc : k.current = 1)
      (hp : k.point 1 = .manager (.served r)) (hw : Wakes (· = r) k.sys S)
      (hwoken : Woken k.sys S r) (hm : Steady k.sys S) :
      Effect k .manager { k.setPoint (.manager .loop) with
        sys := S, requests := (queueDel k.requests r).2 }
  | transfers {m : Nat → UInt8} {d : Disk} (hd : diskSighandle k.memory k.disk = some (m, d)) :
      Effect k .diskDone { k with memory := m, disk := d, irqDisk := true }
  | interrupts {S : TaskSystem} (hi : k.irqDisk = true) (hwoken : Woken k.sys S 1) :
      Effect k .irq { k with sys := S, irqDisk := false }

/-- A call with a buffer. -/
theorem blockCall_of_buffer (k : Kernel) {type : DiskCmd} {block : Int} {buffer : Nat}
    (hb : buffer ≠ 0) : k.blockCall type block buffer = { k.setPoint .block with
      request := Function.update k.request k.current
        { task := k.current
          block := block
          buffer := buffer
          type := type
          returnValue := if type = .write then 0 else (k.request k.current).returnValue }
      requests := queueAdd k.requests k.current
      sys := taskSuspend k.sys .suspended } := if_neg hb

/-! ## The state after a step -/

/-- **The effects of a call** of the running task, with the task subsystem. -/
inductive Called (k : Kernel) : Action → Kernel → Prop
  | creates : Called k (.create true) { k with sys := (taskCreate k.sys true).2 }
  | refused : Called k (.create false) k
  | yields : Called k .yield { k with sys := taskYield k.sys }
  | sleeps {t : Int} : Called k (.sleep t) { k.setPoint .taskSleep with sys := taskSleep k.sys t }
  | finds {x : Nat} (hx : x ≤ k.sys.currentTaskId) (hfin : (k.sys.task x).status = .finished) :
      Called k (.wait x) k
  | joins {x : Nat} (hx : x ≤ k.sys.currentTaskId) (hfin : (k.sys.task x).status ≠ .finished) :
      Called k (.wait x) { k.setPoint (.taskWait x) with
        sys := taskSuspend (k.sys.modify k.current fun b =>
          { b with targetToWait := (k.sys.task x).id }) .suspended }
  | exits {code : Int} {S : TaskSystem} (he : taskExit k.sys code = .ok S) :
      Called k (.exit code) { k with sys := S }
  | semCreates {v : Int} {x : Semaphore} (hx : semCreate v = some x) :
      Called k (.semCreate v) { k.setSem k.semCount x with semCount := k.semCount + 1 }
  | semRefused {v : Int} (hx : semCreate v = none) : Called k (.semCreate v) k
  | downs {s : Nat} {c : Int} {x : Semaphore} (hs : s < k.semCount)
      (hx : semDown (k.sem s) k.current = .ok (some c, x)) : Called k (.semDown s) (k.setSem s x)
  | waits {s : Nat} {x : Semaphore} (hs : s < k.semCount)
      (hx : semDown (k.sem s) k.current = .ok (none, x)) :
      Called k (.semDown s) { (k.setSem s x).setPoint (.semDown s) with
        sys := taskSuspend k.sys .suspended }
  | ups {s : Nat} {r : Int × Option Nat × Semaphore} {S : TaskSystem} (hs : s < k.semCount)
      (hx : semUp (k.sem s) = .ok r) (hw : taskAwake k.sys r.2.1 = .ok S) :
      Called k (.semUp s) { k.setSem s r.2.2 with sys := S }
  | destroys {s : Nat} {x : Semaphore} {S : TaskSystem} (hs : s < k.semCount)
      (hx : semDestroy (k.sem s) k.sys = .ok (x, S)) :
      Called k (.semDestroy s) { k.setSem s x with sys := S }
  | rejects {type : DiskCmd} {block : Int} : Called k (.blockCall type block 0) k
  | asks {type : DiskCmd} {block : Int} {buffer : Nat} (hb : buffer ≠ 0) :
      Called k (.blockCall type block buffer) (k.blockCall type block buffer)
  | stores {a : Nat} {v : UInt8} :
      Called k (.store a v) { k with memory := Function.update k.memory a v }

/-- **A call that returns or blocks** has one of these effects. -/
theorem Kernel.called {k k' : Kernel} {a : Action} (hs : k.call a = some (.ok k')) :
    Called k a k' := by
  cases a with
  | create granted =>
      obtain rfl := Except.ok.inj (Option.some.inj hs)
      cases granted with
      | true => exact .creates
      | false => exact .refused
  | yield =>
      obtain rfl := Except.ok.inj (Option.some.inj hs)
      exact .yields
  | sleep t =>
      obtain rfl := Except.ok.inj (Option.some.inj hs)
      exact .sleeps
  | wait x =>
      simp only [Kernel.call] at hs
      by_cases hx : x ≤ k.sys.currentTaskId
      · rw [if_pos hx] at hs
        by_cases hfin : (k.sys.task x).status = .finished
        · simp only [taskWait, if_pos hfin] at hs
          obtain rfl := Except.ok.inj (Option.some.inj hs)
          exact .finds hx hfin
        · simp only [taskWait, if_neg hfin] at hs
          obtain rfl := Except.ok.inj (Option.some.inj hs)
          exact .joins hx hfin
      · rw [if_neg hx] at hs
        exact absurd hs (by simp)
  | exit code =>
      rw [Kernel.call] at hs
      obtain ⟨S, he, hs⟩ := bind_eq_ok.mp (Option.some.inj hs)
      obtain rfl := Except.ok.inj hs
      exact .exits he
  | semCreate v =>
      simp only [Kernel.call] at hs
      cases hx : PingPongOS.semCreate v with
      | none =>
          rw [hx] at hs
          obtain rfl := Except.ok.inj (Option.some.inj hs)
          exact .semRefused hx
      | some x =>
          rw [hx] at hs
          obtain rfl := Except.ok.inj (Option.some.inj hs)
          exact .semCreates hx
  | semDown s =>
      simp only [Kernel.call] at hs
      split at hs
      · next hlt =>
        obtain ⟨r, hx, hs⟩ := bind_eq_ok.mp (Option.some.inj hs)
        obtain ⟨o, x⟩ := r
        cases o with
        | none =>
            obtain rfl := Except.ok.inj hs
            exact .waits hlt hx
        | some code =>
            obtain rfl := Except.ok.inj hs
            exact .downs hlt hx
      · exact absurd hs (by simp)
  | semUp s =>
      simp only [Kernel.call] at hs
      split at hs
      · next hlt =>
        obtain ⟨r, hx, hs⟩ := bind_eq_ok.mp (Option.some.inj hs)
        obtain ⟨S, hw, hs⟩ := bind_eq_ok.mp hs
        obtain rfl := Except.ok.inj hs
        exact .ups hlt hx hw
      · exact absurd hs (by simp)
  | semDestroy s =>
      simp only [Kernel.call] at hs
      split at hs
      · next hlt =>
        obtain ⟨r, hx, hs⟩ := bind_eq_ok.mp (Option.some.inj hs)
        obtain rfl := Except.ok.inj hs
        exact .destroys hlt hx
      · exact absurd hs (by simp)
  | blockCall type block buffer =>
      obtain rfl := Except.ok.inj (Option.some.inj hs)
      by_cases hb : buffer = 0
      · subst hb
        exact .rejects
      · exact .asks hb
  | store address byte =>
      obtain rfl := Except.ok.inj (Option.some.inj hs)
      exact .stores
  | resume | manager | dispatcher | diskDone | irq | tick => exact absurd hs (by simp [Kernel.call])

/-- **The effects of a step of the disk manager**, with the task subsystem. -/
inductive Managed (k : Kernel) : ManagerPoint → Kernel → Prop
  | starts : Managed k .start
      { k.setPoint (.manager .loop) with requests := (queueHead k.requests).2 }
  | serves {r : Nat} (hq : queueItem k.requests = some r) :
      Managed k .loop { k.setPoint (.manager (.served r)) with
        request := Function.update k.request r { k.request r with
          returnValue := (hwDiskCmd k.disk (k.request r).type (k.request r).block
            (k.request r).buffer).1 }
        disk := (hwDiskCmd k.disk (k.request r).type (k.request r).block
          (k.request r).buffer).2
        sys := taskSuspend k.sys .suspended }
  | idles (hq : queueItem k.requests = none) : Managed k .loop { k with sys := taskYield k.sys }
  | waits (hd : k.disk.status ≠ .idle) :
      Managed k .loop { k with sys := taskSuspend k.sys .suspended }
  | answers {r : Nat} {S : TaskSystem} (hw : taskAwake k.sys (some (k.request r).task) = .ok S) :
      Managed k (.served r) { k.setPoint (.manager .loop) with
        sys := S, requests := (queueDel k.requests r).2 }

/-- **A step of the disk manager** has one of these effects. -/
theorem Kernel.managed {k k' : Kernel} {p : ManagerPoint} (hs : k.manager p = .ok k') :
    Managed k p k' := by
  cases p with
  | start =>
      obtain rfl := Except.ok.inj hs
      exact .starts
  | loop =>
      simp only [Kernel.manager] at hs
      split at hs
      · cases hq : queueItem k.requests with
        | none =>
            rw [hq] at hs
            obtain rfl := Except.ok.inj hs
            exact .idles hq
        | some r =>
            rw [hq] at hs
            obtain rfl := Except.ok.inj hs
            exact .serves hq
      · next hd =>
        obtain rfl := Except.ok.inj hs
        exact .waits hd
  | served r =>
      rw [Kernel.manager] at hs
      obtain ⟨S, hw, hs⟩ := bind_eq_ok.mp hs
      obtain rfl := Except.ok.inj hs
      exact .answers hw

/-- **The effects of a step of the dispatcher**, with the task subsystem. -/
inductive Dispatched (k : Kernel) : Kernel → Prop
  | enters (hd : k.dispatcher = .entry) :
      Dispatched k { k with sys := (taskCreate k.sys true).2, dispatcher := .loop }
  | runs {next : Nat} {S : TaskSystem} (hd : k.dispatcher = .loop)
      (hsched : scheduler k.sys = .ok (some next, S)) :
      Dispatched k { k with sys := taskRun S next, dispatcher := .ran next }
  | idles {S T : TaskSystem} (hd : k.dispatcher = .loop) (hsched : scheduler k.sys = .ok (none, S))
      (hw : dispatcherWake S none = .ok T) : Dispatched k { k with sys := T }
  | wakes {next : Nat} {T : TaskSystem} (hd : k.dispatcher = .ran next)
      (hw : dispatcherWake k.sys (some next) = .ok T) :
      Dispatched k { k with sys := T, dispatcher := .loop }

/-- **A step of the dispatcher** has one of these effects. -/
theorem Kernel.dispatched {k k' : Kernel} (hs : k.dispatcherStep = some (.ok k')) :
    Dispatched k k' := by
  obtain ⟨S, d, hturn, rfl⟩ := Preemptive.dispatcherStep_eq_some.mp hs
  have hd : Kernel.preemptive.dispatcher k = k.dispatcher := rfl
  generalize Kernel.preemptive.dispatcher k = point at hturn hd
  cases dispatcherTurn_ok hturn with
  | enters => exact .enters hd.symm
  | runs hsched => exact .runs hd.symm hsched
  | idles hsched hw =>
      have hk : Kernel.preemptive.update k S .loop = { k with sys := S } := by
        rw [hd]
        rfl
      rw [hk]
      exact .idles hd.symm hsched hw
  | wakes hw => exact .wakes hd.symm hw

/-- **The ways to step**: a call of the running task or its return, the disk manager, the
dispatcher, the disk, its interrupt, a tick. -/
inductive Stepped (k : Kernel) : Action → Kernel → Prop
  | calls {a : Action} {k' : Kernel} (hc : k.current ≠ 0) (hu : k.point k.current = .user)
      (hs : Called k a k') : Stepped k a k'
  | returns (hc : k.current ≠ 0) (hp : (k.point k.current).returns = true) :
      Stepped k .resume (k.setPoint .user)
  | returnsDown {s : Nat} {r : Int × Semaphore} (hc : k.current ≠ 0)
      (hp : k.point k.current = .semDown s) (hx : semDownWoken (k.sem s) = .ok r) :
      Stepped k .resume ((k.setSem s r.2).setPoint .user)
  | manages {p : ManagerPoint} {k' : Kernel} (hc : k.current = 1) (hp : k.point 1 = .manager p)
      (hs : Managed k p k') : Stepped k .manager k'
  | dispatches {k' : Kernel} (hc : k.current = 0) (hs : k.dispatcherStep = some (.ok k')) :
      Stepped k .dispatcher k'
  | transfers {m : Nat → UInt8} {d : Disk} (hd : diskSighandle k.memory k.disk = some (m, d)) :
      Stepped k .diskDone { k with memory := m, disk := d, irqDisk := true }
  | interrupts {S : TaskSystem} (hi : k.irqDisk = true) (hw : taskAwake k.sys (some 1) = .ok S) :
      Stepped k .irq { k with sys := S, irqDisk := false }
  | ticks (hu : k.current = 0 ∨ k.point k.current = .user) :
      Stepped k .tick { k with sys := handleTimerSignal k.sys }

/-- **Every step** is made in one of these ways. -/
theorem Kernel.stepped {k k' : Kernel} {a : Action} (hs : k.step a = some k') :
    Stepped k a k' := by
  have he : k.exec a = some (.ok k') := Preemptive.step_eq_some.mp hs
  have hcall : Kernel.preemptive.exec k
      (.task (if k.point k.current = .user then k.call a else none)) = some (.ok k') →
      Stepped k a k' := by
    intro he
    obtain ⟨hc, he⟩ := Preemptive.exec_task.mp he
    rw [Option.ite_none_right_eq_some] at he
    exact .calls hc he.1 (Kernel.called he.2)
  cases a with
  | create _ | yield | sleep _ | wait _ | exit _ | semCreate _ | semDown _ | semUp _
  | semDestroy _ | blockCall _ _ _ | store _ _ => exact hcall he
  | resume =>
      obtain ⟨hc, he⟩ := Preemptive.exec_task.mp he
      rw [Kernel.resume] at he
      cases hp : k.point k.current with
      | semDown s =>
          rw [hp] at he
          simp only at he
          obtain ⟨r, hx, he⟩ := bind_eq_ok.mp (Option.some.inj he)
          obtain rfl := Except.ok.inj he
          exact .returnsDown hc hp hx
      | taskWait _ | taskSleep | block =>
          rw [hp] at he
          obtain rfl := Except.ok.inj (Option.some.inj he)
          exact .returns hc (by rw [hp]; rfl)
      | user | manager _ =>
          rw [hp] at he
          exact absurd he (by simp)
  | manager =>
      obtain ⟨-, he⟩ := Preemptive.exec_task.mp he
      rw [Option.ite_none_right_eq_some] at he
      obtain ⟨hc, he⟩ := he
      split at he
      · next p hp => exact .manages hc hp (Kernel.managed (Option.some.inj he))
      · exact absurd he (by simp)
  | dispatcher =>
      obtain ⟨hc, he⟩ := Preemptive.exec_dispatcher.mp he
      exact .dispatches hc he
  | diskDone =>
      simp only [Kernel.exec, Kernel.kind, Preemptive.exec] at he
      split at he
      · next m d hd =>
        obtain rfl := Except.ok.inj (Option.some.inj he)
        exact .transfers hd
      · exact absurd he (by simp)
  | irq =>
      simp only [Kernel.exec, Kernel.kind, Preemptive.exec, Option.ite_none_right_eq_some] at he
      obtain ⟨S, hw, he'⟩ := bind_eq_ok.mp (Option.some.inj he.2)
      obtain rfl := Except.ok.inj he'
      exact .interrupts he.1 hw
  | tick =>
      rw [Kernel.exec, Kernel.kind] at he
      split at he
      · next hu =>
        obtain rfl := Except.ok.inj (Option.some.inj he)
        exact .ticks hu
      · exact absurd he (by simp [Preemptive.exec])

/-- A call of the running task is made from its own code. -/
theorem Kernel.step_call {k k' : Kernel} {a : Action} (hs : k.step a = some k')
    (ha : a ≠ .resume ∧ a ≠ .manager ∧ a ≠ .dispatcher ∧ a ≠ .diskDone ∧ a ≠ .irq ∧ a ≠ .tick) :
    k.current ≠ 0 ∧ k.point k.current = .user ∧ Called k a k' := by
  cases Kernel.stepped hs with
  | calls hc hu hcall => exact ⟨hc, hu, hcall⟩
  | _ => simp at ha

/-! ## The disk manager keeps its seat -/

variable {S S' T : TaskSystem} {t c : Nat} {b : Tcb} {i : QueueId} {due : Nat → Prop}

theorem Steady.refl (S : TaskSystem) : Steady S S := Or.inl (SameSeat.refl S 1)

theorem Steady.trans (h : Steady S T) (h' : Steady T S') : Steady S S' := by
  rcases h' with hs' | hs'
  · rcases h with hs | hs
    · exact Or.inl (hs.trans hs')
    · right
      rw [hs'.status]
      exact hs
  · exact Or.inr hs'

theorem Quiet.steady (h : Quiet S S') : Steady S S' := Or.inl (h.sameSeat 1)

theorem Creates.steady (h : Creates S S') (hboot : 1 ≤ S.currentTaskId) : Steady S S' :=
  Or.inl (h.sameSeat (by omega))

theorem Dispatches.steady (h : Dispatches S S' t) : Steady S S' := by
  by_cases ht : t = 1
  · subst ht
    right
    rw [h.task]
    simp
  · exact Or.inl (h.sameSeat (Ne.symm ht))

theorem Leaves.steady (h : Leaves S S' b i)
    (hb : S.currentActiveTask = 1 → b.status ≠ .suspended) : Steady S S' := by
  by_cases hc : S.currentActiveTask = 1
  · right
    have htask := h.task
    rw [hc] at htask
    rw [htask]
    exact hb hc
  · exact Or.inl (h.sameSeat (Ne.symm hc))

theorem Wakes.steady (h : Wakes due S S') : Steady S S' := by
  rcases h.seats 1 with hs | ⟨-, hw⟩
  · exact Or.inl hs
  · right
    rw [hw.status]
    decide

theorem Exits.steady (h : Exits S S' c) (hc : 2 ≤ c) : Steady S S' := by
  rcases h.others 1 (by omega) with hs | ⟨-, -, hw⟩
  · exact Or.inl hs
  · right
    rw [hw.status]
    decide

end PingPongOS
