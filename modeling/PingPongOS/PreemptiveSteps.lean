import PingPongOS.Dispatcher

/-!
# The steps of a preemptive system

The kernel, and the systems that take the functions of one component apart statement by
statement, have the task subsystem in common.  A step of each of them is a timer tick, a
turn of the dispatcher, something that the running task does, or something that a device
does; the systems differ in the last two only.
-/

namespace PingPongOS

open TaskSystem

/-- Where `dispatcher` goes on: at its first statement, at the head of its loop, or
after the `task_run` of a task. -/
inductive DispatcherPoint
  | entry
  | loop
  | ran (task : Nat)
  deriving DecidableEq

/-- A step of `dispatcher` on the task subsystem, with `requests` requests waiting; `none`
once its loop is left. -/
def dispatcherTurn (S : TaskSystem) (d : DispatcherPoint) (requests : Nat) :
    Option (Except Fault (TaskSystem × DispatcherPoint)) :=
  match d with
  | .entry => some (.ok ((taskCreate S true).2, .loop))
  | .loop =>
      if dispatcherGoesOn S requests then
        some do
          let r ← dispatcherRun S
          match r.1 with
          | some next => .ok (r.2, .ran next)
          | none => .ok (← dispatcherWake r.2 none, .loop)
      else none
  | .ran next => some do .ok (← dispatcherWake S (some next), .loop)

/-- Where a system keeps its task subsystem, and where its dispatcher goes on. -/
structure Preemptive (σ : Type) where
  sys : σ → TaskSystem
  dispatcher : σ → DispatcherPoint
  update : σ → TaskSystem → DispatcherPoint → σ

/-- What a step is: a tick, a turn of the dispatcher, or what comes of a step of the running
task or of a device, `none` where it cannot happen. -/
inductive StepKind (σ : Type)
  | tick
  | dispatcher (requests : Nat)
  | task (result : Option (Except Fault σ))
  | device (result : Option (Except Fault σ))

namespace Preemptive

variable {σ : Type} (P : Preemptive σ) (s : σ)

/-- A step of `dispatcher`. -/
def dispatcherStep (requests : Nat) : Option (Except Fault σ) :=
  (dispatcherTurn (P.sys s) (P.dispatcher s) requests).map fun r =>
    r.map fun r => P.update s r.1 r.2

/-- One step; `none` where it cannot happen. -/
def exec : StepKind σ → Option (Except Fault σ)
  | .tick => some (.ok (P.update s (handleTimerSignal (P.sys s)) (P.dispatcher s)))
  | .dispatcher requests =>
      if (P.sys s).currentActiveTask = taskKernel then P.dispatcherStep s requests else none
  | .task result => if (P.sys s).currentActiveTask ≠ taskKernel then result else none
  | .device result => result

/-- One step that does not abort. -/
def step (e : StepKind σ) : Option σ :=
  match P.exec s e with
  | some (.ok s') => some s'
  | _ => none

variable {P : Preemptive σ} {s s' : σ} {e : StepKind σ} {requests : Nat}
  {result : Option (Except Fault σ)} {r : Except Fault σ}

theorem step_eq_some : P.step s e = some s' ↔ P.exec s e = some (.ok s') := by
  rw [step]
  split
  · next s'' hs => rw [hs, Option.some.injEq, Option.some.injEq, Except.ok.injEq]
  · next hno => exact ⟨fun h => absurd h (by simp), fun h => absurd h (hno s')⟩

/-- The dispatcher steps while `task_kernel` has the CPU. -/
theorem exec_dispatcher : P.exec s (.dispatcher requests) = some r ↔
    (P.sys s).currentActiveTask = taskKernel ∧ P.dispatcherStep s requests = some r := by
  rw [exec, Option.ite_none_right_eq_some]

/-- Any other task steps while it has the CPU. -/
theorem exec_task : P.exec s (.task result) = some r ↔
    (P.sys s).currentActiveTask ≠ taskKernel ∧ result = some r := by
  rw [exec, Option.ite_none_right_eq_some]

/-- A turn of the dispatcher changes the task subsystem only. -/
theorem dispatcherStep_eq_some : P.dispatcherStep s requests = some (.ok s') ↔
    ∃ S d, dispatcherTurn (P.sys s) (P.dispatcher s) requests = some (.ok (S, d)) ∧
      P.update s S d = s' := by
  rw [dispatcherStep, Option.map_eq_some_iff]
  constructor
  · rintro ⟨r, hr, hs⟩
    cases r with
    | error f => exact absurd hs (by simp [Except.map])
    | ok r => exact ⟨r.1, r.2, hr, Except.ok.inj hs⟩
  · rintro ⟨S, d, hd, rfl⟩
    exact ⟨.ok (S, d), hd, rfl⟩

end Preemptive

/-- **What a turn of the dispatcher does.** -/
inductive DispatcherTurn (S : TaskSystem) : DispatcherPoint → TaskSystem → DispatcherPoint → Prop
  | enters : DispatcherTurn S .entry (taskCreate S true).2 .loop
  | runs {next : Nat} {T : TaskSystem} (hsched : scheduler S = .ok (some next, T)) :
      DispatcherTurn S .loop (taskRun T next) (.ran next)
  | idles {T U : TaskSystem} (hsched : scheduler S = .ok (none, T))
      (hw : dispatcherWake T none = .ok U) : DispatcherTurn S .loop U .loop
  | wakes {next : Nat} {T : TaskSystem} (hw : dispatcherWake S (some next) = .ok T) :
      DispatcherTurn S (.ran next) T .loop

/-- A turn without a fault is one of these. -/
theorem dispatcherTurn_ok {S S' : TaskSystem} {d d' : DispatcherPoint} {requests : Nat}
    (hs : dispatcherTurn S d requests = some (.ok (S', d'))) : DispatcherTurn S d S' d' := by
  cases d with
  | entry =>
      obtain ⟨rfl, rfl⟩ := Prod.mk.inj (Except.ok.inj (Option.some.inj hs))
      exact .enters
  | loop =>
      rw [dispatcherTurn, Option.ite_none_right_eq_some] at hs
      obtain ⟨r, hrun, hrest⟩ := bind_eq_ok.mp (Option.some.inj hs.2)
      obtain ⟨o, T, hsched, rfl⟩ := dispatcherRun_ok hrun
      cases o with
      | some next =>
          obtain ⟨rfl, rfl⟩ := Prod.mk.inj (Except.ok.inj hrest)
          exact .runs hsched
      | none =>
          obtain ⟨U, hw, hrest⟩ := bind_eq_ok.mp hrest
          obtain ⟨rfl, rfl⟩ := Prod.mk.inj (Except.ok.inj hrest)
          exact .idles hsched hw
  | ran next =>
      obtain ⟨T, hw, hrest⟩ := bind_eq_ok.mp (Option.some.inj hs)
      obtain ⟨rfl, rfl⟩ := Prod.mk.inj (Except.ok.inj hrest)
      exact .wakes hw

end PingPongOS
