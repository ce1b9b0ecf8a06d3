import PingPongOS.SemaphoreStatements
import PingPongOS.TaskConsistency

/-!
# Semaphores under preemption

`sem_down` and `sem_up` of `semaphore.c` statement by statement: a timer tick may come
between any two statements and make the running task yield.  The functions they call
run uninterrupted.  The tasks use one semaphore, which is not destroyed, and no disk,
so the disk manager only yields.
-/

namespace PingPongOS

open Runs TaskSystem

/-- The task subsystem, the semaphore, and where the tasks are. -/
structure SemSystem where
  sys : TaskSystem
  sem : Semaphore
  point : Nat → SemPoint
  dispatcher : DispatcherPoint

/-- What can happen: a call of the running task, its next statement, a step of the
dispatcher, a timer tick. -/
inductive SemAction
  | create (granted : Bool)
  | setprio (task : Option Nat) (prio : Int)
  | yield
  | down
  | up
  | next
  | dispatcher
  | tick
  deriving DecidableEq

namespace SemSystem

variable (k : SemSystem)

def current : Nat := k.sys.currentActiveTask

/-- The running task is now at `p`. -/
def goto (p : SemPoint) : SemSystem := { k with point := Function.update k.point k.current p }

/-- The system after the boot, with the semaphore `s`. -/
def boot (s : Semaphore) : SemSystem where
  sys := (Kernel.boot 0 (fun _ _ => 0) fun _ => 0).sys
  sem := s
  point := fun _ => .outside
  dispatcher := .entry

/-- A statement of `sem_down`. -/
def downStatement : DownPoint → SemSystem
  | .suspend => { k.goto (.down .relock) with sys := taskSuspend k.sys .suspended }
  | .ret _ => k.goto .outside
  | p =>
      let r := semDownStatement k.sem k.current p
      { k.goto (.down r.2) with sem := r.1 }

/-- A statement of `sem_up`. -/
def upStatement : UpPoint → Except Fault SemSystem
  | .awake wake => do
      .ok { k.goto (.up (.ret noError)) with sys := ← taskAwake k.sys wake }
  | .ret _ => .ok (k.goto .outside)
  | p =>
      let r := semUpStatement k.sem p
      .ok { k.goto (.up r.2) with sem := r.1 }

/-- The system around its task subsystem. -/
def preemptive : Preemptive SemSystem where
  sys := SemSystem.sys
  dispatcher := SemSystem.dispatcher
  update := fun k S d => { k with sys := S, dispatcher := d }

/-- A call of a user task from its own code. -/
def call : SemAction → Option (Except Fault SemSystem)
  | .create granted => some (.ok { k with sys := (taskCreate k.sys granted).2 })
  | .setprio task prio => some do .ok { k with sys := ← schedSetprio k.sys task prio }
  | .down => some (.ok (k.goto (.down .lock)))
  | .up => some (.ok (k.goto (.up .lock)))
  | _ => none

/-- What an action is to the task subsystem; no request waits for the disk. -/
def kind : SemAction → StepKind SemSystem
  | .tick => .tick
  | .dispatcher => .dispatcher 0
  | .yield =>
      .task (if k.point k.current = .outside then some (.ok { k with sys := taskYield k.sys })
        else none)
  | .next =>
      .task (match k.point k.current with
        | .outside => none
        | .down p => some (.ok (k.downStatement p))
        | .up p => some (k.upStatement p))
  | a =>
      .task (if k.current ≠ taskDiskHandler ∧ k.point k.current = .outside then k.call a else none)

/-- One step that does not abort. -/
def step (a : SemAction) : Option SemSystem := preemptive.step k (k.kind a)

end SemSystem

/-- What happens to the tasks in the semaphore: `sem_up` of task `u` takes task `t` out of
`wait_queue`, `sem_up` of `u` returns, `sem_down` of `t` returns. -/
inductive WakeEvent
  | removed (u t : Nat)
  | upReturned (u : Nat)
  | downReturned (t : Nat)
  deriving DecidableEq

/-- The events of a step. -/
def wakeEvents (k : SemSystem) : SemAction → List WakeEvent
  | .next =>
      match k.point k.current with
      | .up (.del (some t)) => if t ∈ k.sem.waitQueue.items then [.removed k.current t] else []
      | .up (.ret _) => [.upReturned k.current]
      | .down (.ret _) => [.downReturned k.current]
      | _ => []
  | _ => []

/-- In the `sem_down` it is in, the task has been taken out of `wait_queue` by a `sem_up`
that has returned. -/
def Released (H : List WakeEvent) (t : Nat) : Prop :=
  ∃ H₁ u H₂, H = H₁ ++ .removed u t :: H₂ ∧ .upReturned u ∈ H₂ ∧ .downReturned t ∉ H₂

/-- A `task_awake` of this step finds its task suspended. -/
def awakesSuspended (k : SemSystem) : SemAction → Bool
  | .next =>
      match k.point k.current with
      | .up (.awake (some t)) => decide ((k.sys.task t).status = .suspended)
      | _ => true
  | _ => true

/-! ## The invariant -/

/-- The task is in `sem_down` with no `task_suspend` ahead. -/
def SemPoint.past : SemPoint → Bool
  | .down p =>
      match p with
      | .relock | .recheck | .giveBack | .refuse | .unlock | .ret _ => true
      | _ => false
  | _ => false

/-- The task has entered `wait_queue` and nobody has woken it since. -/
def SemSystem.Waits (k : SemSystem) (t : Nat) : Prop :=
  (k.point t).enqueued = true ∨ (k.point t = .down .relock ∧ (k.sys.task t).status = .suspended)

/-- The lock excludes, every task in `wait_queue` or just taken out of it waits, and a
task that was taken out of it is still to be woken or has no suspension ahead. -/
structure PreemptInv (k : SemSystem) (H : List WakeEvent) : Prop where
  sys : SysInv none k.sys
  inside : ∀ t, k.point t ≠ .outside → 2 ≤ t ∧ t ≤ k.sys.currentTaskId
  asleep : ∀ t, 2 ≤ t → (k.sys.task t).status = .suspended → k.point t = .down .relock
  unfinished : ∀ t, (k.sys.task t).status ≠ .finished
  awake : ∀ t, (k.sys.task t).sleeping = false
  ran : ∀ t, k.dispatcher = .ran t → t ≤ k.sys.currentTaskId
  mutex : Excludes k.sem.lock fun t => (k.point t).locked
  nodup : k.sem.waitQueue.items.Nodup
  waiting : ∀ t ∈ k.sem.waitQueue.items, k.Waits t
  chosen : ∀ u t, k.point u = .up (.del (some t)) → t ∈ k.sem.waitQueue.items
  taken : ∀ u t, (k.point u).holds = some t →
    t ∉ k.sem.waitQueue.items ∧ k.Waits t ∧ ∀ v, (k.point v).holds = some t → v = u
  removed : ∀ H₁ u t H₂, H = H₁ ++ .removed u t :: H₂ → .downReturned t ∉ H₂ →
    ((k.point u).holds = some t ∧ .upReturned u ∉ H₂) ∨
      ((k.point t).past = true ∧ (k.sys.task t).status ≠ .suspended)

variable {k k' : SemSystem} {H E : List WakeEvent} {a : SemAction} {S S' : TaskSystem}

/-- A history that goes on without the event `e` has it where it had it before. -/
theorem split_of_not_mem {α : Type} {H E H₁ H₂ : List α} {e : α} (he : e ∉ E)
    (heq : H ++ E = H₁ ++ e :: H₂) : ∃ H₃, H = H₁ ++ e :: H₃ ∧ H₂ = H₃ ++ E := by
  rcases List.append_eq_append_iff.mp heq with ⟨as, -, hE⟩ | ⟨bs, hH, hbs⟩
  · exact absurd (by rw [hE]; simp) he
  · cases bs with
    | nil =>
        rw [List.nil_append] at hbs
        exact absurd (by rw [← hbs]; exact List.mem_cons_self ..) he
    | cons b bs =>
        obtain ⟨rfl, htail⟩ := List.cons.inj hbs
        exact ⟨bs, hH, htail⟩

/-- The running user task is running. -/
theorem PreemptInv.running (h : PreemptInv k H) (hc : 2 ≤ k.current) :
    (k.sys.task k.current).status = .running :=
  (h.sys.running (by unfold SemSystem.current at hc; omega)).1

/-- A task that runs waits only while it is about to suspend itself. -/
theorem PreemptInv.waits_current (h : PreemptInv k H) (hc : 2 ≤ k.current)
    (hw : k.Waits k.current) : (k.point k.current).enqueued = true := by
  rcases hw with hw | ⟨-, hs⟩
  · exact hw
  · rw [h.running hc] at hs
    exact absurd hs (by decide)

/-! ## The running task moves -/

section

variable {p q : SemPoint}

/-- Where the tasks are when the running task has gone to `p`. -/
theorem goto_point (p : SemPoint) (t : Nat) :
    (k.goto p).point t = if t = k.current then p else k.point t :=
  Function.update_apply ..

theorem PreemptInv.goto_inside (h : PreemptInv k H) (hc : 2 ≤ k.current) (t : Nat)
    (ht : (k.goto p).point t ≠ .outside) : 2 ≤ t ∧ t ≤ k.sys.currentTaskId := by
  by_cases htc : t = k.current
  · rw [htc]
    exact ⟨hc, h.sys.current⟩
  · rw [goto_point, if_neg htc] at ht
    exact h.inside t ht

theorem PreemptInv.goto_asleep (h : PreemptInv k H) (hc : 2 ≤ k.current) (t : Nat) (hlo : 2 ≤ t)
    (hs : (k.sys.task t).status = .suspended) : (k.goto p).point t = .down .relock := by
  by_cases htc : t = k.current
  · rw [htc, h.running hc] at hs
    exact absurd hs (by decide)
  · rw [goto_point, if_neg htc]
    exact h.asleep t hlo hs

theorem PreemptInv.goto_mutex (h : PreemptInv k H) (hq : k.point k.current = q) {lock : Bool}
    (hlocked : p.locked = true → lock = true)
    (hfree : q.locked = false → k.sem.lock = true → lock = true ∧ p.locked = false) :
    Excludes lock fun t => ((k.goto p).point t).locked := by
  apply h.mutex.move (c := k.current) (b := p.locked)
  · rw [goto_point, if_pos rfl]
  · intro t ht
    rw [goto_point, if_neg ht]
  · exact hlocked
  · rw [hq]
    exact hfree

/-- Nobody waits less for the move, if the running task does not. -/
theorem PreemptInv.goto_waits (h : PreemptInv k H) (hc : 2 ≤ k.current)
    (hq : k.point k.current = q) (henqueued : q.enqueued = true → p.enqueued = true) {t : Nat}
    (hw : k.Waits t) : (k.goto p).Waits t := by
  unfold SemSystem.Waits
  rw [goto_point]
  by_cases htc : t = k.current
  · subst htc
    rw [if_pos rfl]
    rw [← hq] at henqueued
    exact Or.inl (henqueued (h.waits_current hc hw))
  · rw [if_neg htc]
    exact hw

/-- **A statement that leaves `wait_queue` alone**: the running task goes from `q` to
`p`, and the lock is taken or released where that changes. -/
theorem PreemptInv.moves (h : PreemptInv k H) {x : Semaphore} (hc : 2 ≤ k.current)
    (hq : k.point k.current = q) (hlocked : p.locked = true → x.lock = true)
    (hfree : q.locked = false → k.sem.lock = true → x.lock = true ∧ p.locked = false)
    (hitems : x.waitQueue.items = k.sem.waitQueue.items)
    (hchosen : ∀ t, p = .up (.del (some t)) → t ∈ k.sem.waitQueue.items)
    (hholds : p.holds = q.holds) (henqueued : q.enqueued = true → p.enqueued = true)
    (hpast : q.past = true → p.past = true ∨ .downReturned k.current ∈ E)
    (hE : ∀ e ∈ E, e = .downReturned k.current ∨ (e = .upReturned k.current ∧ p.holds = none)) :
    PreemptInv { k.goto p with sem := x } (H ++ E) := by
  have hholds' : ∀ t, ((k.goto p).point t).holds = (k.point t).holds := by
    intro t
    rw [goto_point]
    by_cases htc : t = k.current
    · rw [if_pos htc, htc, hq, hholds]
    · rw [if_neg htc]
  refine ⟨h.sys, h.goto_inside hc, h.goto_asleep hc, h.unfinished, h.awake, h.ran,
    h.goto_mutex hq hlocked hfree, hitems ▸ h.nodup, fun t ht => ?_, fun u t hu => ?_,
    fun u t hu => ?_, fun H₁ u t H₂ heq hnot => ?_⟩
  · exact h.goto_waits hc hq henqueued (h.waiting t (hitems ▸ ht))
  · change (k.goto p).point u = _ at hu
    change t ∈ x.waitQueue.items
    rw [hitems]
    by_cases huc : u = k.current
    · rw [goto_point, if_pos huc] at hu
      exact hchosen t hu
    · rw [goto_point, if_neg huc] at hu
      exact h.chosen u t hu
  · change ((k.goto p).point u).holds = some t at hu
    rw [hholds'] at hu
    obtain ⟨hout, hw, honly⟩ := h.taken u t hu
    refine ⟨?_, h.goto_waits hc hq henqueued hw, fun v hv => honly v ?_⟩
    · change t ∉ x.waitQueue.items
      rw [hitems]
      exact hout
    · rw [← hholds']
      exact hv
  · have hnew : WakeEvent.removed u t ∉ E := by
      intro hin
      rcases hE _ hin with heq | ⟨heq, -⟩ <;> exact absurd heq (by simp)
    obtain ⟨H₃, hH, rfl⟩ := split_of_not_mem hnew heq
    rw [List.mem_append, not_or] at hnot ⊢
    change (((k.goto p).point u).holds = some t ∧ _) ∨ (((k.goto p).point t).past = true ∧ _)
    rw [hholds']
    rcases h.removed H₁ u t H₃ hH hnot.1 with ⟨hu, hup⟩ | ⟨hp, hs⟩
    · refine Or.inl ⟨hu, hup, fun hin => ?_⟩
      rcases hE _ hin with heq | ⟨heq, hnone⟩
      · exact absurd heq (by simp)
      · obtain rfl := WakeEvent.upReturned.inj heq
        rw [hq, ← hholds, hnone] at hu
        exact absurd hu (by simp)
    · refine Or.inr ⟨?_, hs⟩
      rw [goto_point]
      by_cases htc : t = k.current
      · rw [if_pos htc]
        rw [htc, hq] at hp
        rcases hpast hp with hpp | hin
        · exact hpp
        · exact absurd (htc ▸ hin) hnot.2
      · rw [if_neg htc]
        exact hp

/-- **A statement of `sem_down`** that neither enters `wait_queue` nor suspends. -/
theorem PreemptInv.down_moves (h : PreemptInv k H) (hc : 2 ≤ k.current) {p : DownPoint}
    (hq : k.point k.current = .down p) (hadd : p ≠ .add) (hsuspend : p ≠ .suspend)
    (hret : ∀ code, p ≠ .ret code) :
    PreemptInv { k.goto (.down (semDownStatement k.sem k.current p).2) with
      sem := (semDownStatement k.sem k.current p).1 } H := by
  obtain ⟨hlocked, hfree, -⟩ := semDownStatement_lock k.sem k.current p fun hl =>
    (h.mutex k.current (by simpa [hq] using hl)).1
  rw [← List.append_nil H]
  refine h.moves hc hq hlocked hfree ?_ (by simp) rfl ?_ (fun hp => Or.inl ?_) (by simp)
  · rw [semDownStatement_items, if_neg hadd, List.append_nil]
  · cases p <;> simp_all [semDownStatement, SemPoint.enqueued]
  · cases p with
    | relock =>
        simp only [semDownStatement, spinStatement]
        split <;> rfl
    | recheck =>
        simp only [semDownStatement]
        split <;> rfl
    | ret code => exact absurd rfl (hret code)
    | giveBack | refuse | unlock => rfl
    | _ => exact absurd hp (by simp [SemPoint.past])

/-- **A statement of `sem_up`** that takes nobody out of `wait_queue` and wakes nobody. -/
theorem PreemptInv.up_moves (h : PreemptInv k H) (hc : 2 ≤ k.current) {p : UpPoint}
    (hq : k.point k.current = .up p) (hdel : ∀ t, p ≠ .del (some t))
    (hawake : ∀ wake, p ≠ .awake wake) (hret : ∀ code, p ≠ .ret code) :
    PreemptInv { k.goto (.up (semUpStatement k.sem p).2) with
      sem := (semUpStatement k.sem p).1 } H := by
  obtain ⟨hlocked, hfree, -⟩ := semUpStatement_lock k.sem p fun hl =>
    (h.mutex k.current (by simpa [hq] using hl)).1
  rw [← List.append_nil H]
  have hstatement : (semUpStatement k.sem p).1.waitQueue.items = k.sem.waitQueue.items ∧
      (∀ t, (semUpStatement k.sem p).2 = .del (some t) → t ∈ k.sem.waitQueue.items) ∧
      (SemPoint.up (semUpStatement k.sem p).2).holds = (SemPoint.up p).holds := by
    cases p with
    | lock =>
        simp only [semUpStatement, spinStatement]
        split <;> exact ⟨rfl, by simp, rfl⟩
    | destroyed =>
        simp only [semUpStatement]
        split <;> exact ⟨trivial, by simp, rfl⟩
    | head => exact ⟨rfl, fun t ht => List.mem_of_mem_head? (UpPoint.del.inj ht), rfl⟩
    | del wake =>
        cases wake with
        | none => exact ⟨rfl, by simp [semUpStatement], rfl⟩
        | some t => exact absurd rfl (hdel t)
    | awake wake => exact absurd rfl (hawake wake)
    | ret code => exact absurd rfl (hret code)
    | refuse | value | unlock _ => exact ⟨rfl, by simp [semUpStatement], rfl⟩
  exact h.moves hc hq hlocked hfree hstatement.1
    (fun t ht => hstatement.2.1 t (SemPoint.up.inj ht)) hstatement.2.2
    (by simp [SemPoint.enqueued]) (by simp [SemPoint.past]) (by simp)

/-! ## Statements that change `wait_queue` -/

/-- Nobody else is in the critical section. -/
theorem PreemptInv.others_unlocked (h : PreemptInv k H) (hq : k.point k.current = q)
    (hql : q.locked = true) {t : Nat} (ht : t ≠ k.current) : (k.point t).locked = false := by
  rw [← hq] at hql
  by_contra hcl
  exact ht ((h.mutex _ hql).2 t (Bool.eq_true_of_not_eq_false hcl))

/-- While a task in the critical section goes to `p`, nobody else is about to take a task out. -/
theorem PreemptInv.not_chosen (h : PreemptInv k H) (hq : k.point k.current = q)
    (hql : q.locked = true) {u t : Nat} (hp : p ≠ .up (.del (some t))) :
    (k.goto p).point u ≠ .up (.del (some t)) := by
  intro hu
  rw [goto_point] at hu
  by_cases huc : u = k.current
  · rw [if_pos huc] at hu
    exact hp hu
  · rw [if_neg huc] at hu
    have hfree := h.others_unlocked hq hql huc
    rw [hu] at hfree
    exact absurd (show true = false from hfree) (by decide)

/-- The move of a task that holds nobody and is not past its suspension changes nothing for a
task that was taken out. -/
theorem goto_removed (hq : k.point k.current = q) (hholds : q.holds = none)
    (hpast : q.past = false) {u t : Nat} {P Q : Prop}
    (hor : ((k.point u).holds = some t ∧ P) ∨ ((k.point t).past = true ∧ Q)) :
    (((k.goto p).point u).holds = some t ∧ P) ∨ (((k.goto p).point t).past = true ∧ Q) := by
  rcases hor with ⟨hu, hP⟩ | ⟨ht, hQ⟩
  · left
    have huc : u ≠ k.current := by
      rintro rfl
      rw [hq, hholds] at hu
      exact absurd hu (by simp)
    rw [goto_point, if_neg huc]
    exact ⟨hu, hP⟩
  · right
    have htc : t ≠ k.current := by
      rintro rfl
      rw [hq, hpast] at ht
      exact absurd ht (by decide)
    rw [goto_point, if_neg htc]
    exact ⟨ht, hQ⟩

/-- `queue_add(s->wait_queue, current_active_task)`. -/
theorem PreemptInv.adds (h : PreemptInv k H) (hc : 2 ≤ k.current)
    (hq : k.point k.current = .down .add) :
    PreemptInv (k.downStatement .add) H := by
  have hitems : (k.downStatement .add).sem.waitQueue.items =
      k.sem.waitQueue.items ++ [k.current] := queueAdd_items ..
  have hwaits : ∀ {t}, k.Waits t → (k.goto (.down .release)).Waits t :=
    h.goto_waits hc hq fun _ => rfl
  have hself : ¬ k.Waits k.current := by
    intro hw
    have hen := h.waits_current hc hw
    rw [hq] at hen
    exact absurd (show false = true from hen) (by decide)
  have hheld : k.sem.lock = true := (h.mutex k.current (by simp [hq, SemPoint.locked])).1
  have hother : ∀ {u t}, ((k.goto (.down .release)).point u).holds = some t →
      (k.point u).holds = some t := by
    intro u t hu
    rw [goto_point] at hu
    by_cases huc : u = k.current
    · rw [if_pos huc] at hu
      exact absurd (show none = some t from hu) (by simp)
    · rw [if_neg huc] at hu
      exact hu
  refine ⟨h.sys, h.goto_inside hc, h.goto_asleep hc, h.unfinished, h.awake, h.ran,
    h.goto_mutex hq (fun _ => hheld) (fun hf => absurd (show true = false from hf) (by decide)),
    ?_, fun t ht => ?_, fun u t hu => ?_, fun u t hu => ?_, fun H₁ u t H₂ heq hnot => ?_⟩
  · rw [hitems]
    refine List.nodup_append.mpr ⟨h.nodup, List.nodup_singleton _, fun x hx y hy hxy => ?_⟩
    rw [List.mem_singleton] at hy
    exact hself (hy ▸ hxy ▸ h.waiting x hx)
  · rw [hitems, List.mem_append, List.mem_singleton] at ht
    rcases ht with ht | rfl
    · exact hwaits (h.waiting t ht)
    · left
      change ((k.goto (.down .release)).point k.current).enqueued = true
      rw [goto_point, if_pos rfl]
      rfl
  · exact absurd hu (h.not_chosen hq rfl (by simp))
  · have hold : (k.point u).holds = some t := hother hu
    obtain ⟨hout, hw, honly⟩ := h.taken u t hold
    refine ⟨?_, hwaits hw, fun v hv => honly v (hother hv)⟩
    rw [hitems, List.mem_append, List.mem_singleton, not_or]
    refine ⟨hout, ?_⟩
    rintro rfl
    exact hself hw
  · exact goto_removed hq rfl rfl (h.removed H₁ u t H₂ heq hnot)

/-- `queue_del(s->wait_queue, task_wake)`: the task is taken out. -/
theorem PreemptInv.takes (h : PreemptInv k H) (hc : 2 ≤ k.current) {t : Nat}
    (hq : k.point k.current = .up (.del (some t))) :
    PreemptInv { k.goto (.up (.unlock (some t))) with
        sem := { k.sem with waitQueue := (queueDel k.sem.waitQueue t).2 } }
      (H ++ [.removed k.current t]) := by
  have hmem := h.chosen _ t hq
  have hitems := (queueDel_items hmem).2
  have hwaits : ∀ {x}, k.Waits x → (k.goto (.up (.unlock (some t)))).Waits x :=
    h.goto_waits hc hq fun hen => absurd (show false = true from hen) (by decide)
  have hheld : k.sem.lock = true := (h.mutex k.current (by simp [hq, SemPoint.locked])).1
  have hcur : ((k.goto (.up (.unlock (some t)))).point k.current).holds = some t := by
    rw [goto_point, if_pos rfl]
    rfl
  have hout : t ∉ k.sem.waitQueue.items.erase t := fun hin =>
    ((List.Nodup.mem_erase_iff h.nodup).mp hin).1 rfl
  refine ⟨h.sys, h.goto_inside hc, h.goto_asleep hc, h.unfinished, h.awake, h.ran,
    h.goto_mutex hq (fun _ => hheld) (fun hf => absurd (show true = false from hf) (by decide)),
    ?_, fun x hx => ?_, fun u x hu => ?_, fun u x hu => ?_, fun H₁ u x H₂ heq hnot => ?_⟩
  · rw [hitems]
    exact h.nodup.erase t
  · rw [hitems] at hx
    exact hwaits (h.waiting x (List.mem_of_mem_erase hx))
  · exact absurd hu (h.not_chosen hq rfl (by simp))
  · change ((k.goto _).point u).holds = some x at hu
    change x ∉ (queueDel k.sem.waitQueue t).2.items ∧ (k.goto _).Waits x ∧
      ∀ v, ((k.goto (.up (.unlock (some t)))).point v).holds = some x → v = u
    rw [hitems]
    by_cases huc : u = k.current
    · subst huc
      rw [hcur] at hu
      obtain rfl := Option.some.inj hu
      refine ⟨hout, hwaits (h.waiting t hmem), fun v hv => ?_⟩
      by_contra hvc
      rw [goto_point, if_neg hvc] at hv
      exact (h.taken v t hv).1 hmem
    · rw [goto_point, if_neg huc] at hu
      obtain ⟨hnot, hw, honly⟩ := h.taken u x hu
      refine ⟨fun hin => hnot (List.mem_of_mem_erase hin), hwaits hw, fun v hv => ?_⟩
      by_cases hvc : v = k.current
      · subst hvc
        rw [hcur] at hv
        obtain rfl := Option.some.inj hv
        exact absurd hmem hnot
      · rw [goto_point, if_neg hvc] at hv
        exact honly v hv
  · change (((k.goto _).point u).holds = some x ∧ _) ∨ (((k.goto _).point x).past = true ∧ _)
    by_cases hnew : WakeEvent.removed u x ∈ [WakeEvent.removed k.current t] ∧ H₂ = []
    · obtain ⟨hin, rfl⟩ := hnew
      obtain ⟨rfl, rfl⟩ := WakeEvent.removed.inj (List.mem_singleton.mp hin)
      exact Or.inl ⟨hcur, by simp⟩
    · obtain ⟨H₃, hH, rfl⟩ : ∃ H₃, H = H₁ ++ .removed u x :: H₃ ∧
          H₂ = H₃ ++ [.removed k.current t] := by
        rcases List.eq_nil_or_concat H₂ with rfl | ⟨H₃, e, rfl⟩
        · obtain ⟨-, hlast⟩ := List.append_inj' heq rfl
          exact absurd ⟨by rw [hlast]; exact List.mem_singleton_self _, rfl⟩ hnew
        · rw [List.concat_eq_append, ← List.cons_append, ← List.append_assoc] at heq
          obtain ⟨hH, hlast⟩ := List.append_inj' heq rfl
          exact ⟨H₃, hH, by rw [List.concat_eq_append, hlast]⟩
      have hdown : WakeEvent.downReturned x ∉ H₃ := fun hin =>
        hnot (List.mem_append_left _ hin)
      refine goto_removed hq rfl rfl ((h.removed H₁ u x H₃ hH hdown).imp_left ?_)
      rintro ⟨hu, hup⟩
      exact ⟨hu, by simpa using hup⟩

end

/-! ## Steps outside of the semaphore -/

/-- No user task is suspended or woken, and none sleeps or finishes. -/
structure Calm (S S' : TaskSystem) : Prop where
  grows : S.currentTaskId ≤ S'.currentTaskId
  stays : ∀ t, 2 ≤ t → t ≤ S.currentTaskId →
    (S.task t).status = .suspended → (S'.task t).status = .suspended
  only : ∀ t, 2 ≤ t → (S'.task t).status = .suspended → (S.task t).status = .suspended
  unfinished : ∀ t, (S'.task t).status = .finished → (S.task t).status = .finished
  awake : ∀ t, (S'.task t).sleeping = true → (S.task t).sleeping = true

theorem Calm.trans {S₁ S₂ S₃ : TaskSystem} (h : Calm S₁ S₂) (h' : Calm S₂ S₃) : Calm S₁ S₃ :=
  ⟨Nat.le_trans h.grows h'.grows,
    fun t hlo hhi hs => h'.stays t hlo (Nat.le_trans hhi h.grows) (h.stays t hlo hhi hs),
    fun t hlo hs => h.only t hlo (h'.only t hlo hs),
    fun t hs => h.unfinished t (h'.unfinished t hs), fun t hs => h.awake t (h'.awake t hs)⟩

theorem Quiet.calm (h : Quiet S S') : Calm S S' := by
  refine ⟨le_of_eq h.currentTaskId.symm, fun t _ _ hs => ?_, fun t _ hs => ?_, fun t hs => ?_,
    fun t hs => ?_⟩
  · rw [(h.fields t).1]
    exact hs
  · rw [← (h.fields t).1]
    exact hs
  · rw [← (h.fields t).1]
    exact hs
  · rw [← (h.fields t).2.1]
    exact hs

/-- **One task moves** and is not suspended, before or after. -/
theorem calm_of_seats {c : Nat} (hgrows : S.currentTaskId ≤ S'.currentTaskId)
    (hothers : ∀ t, t ≠ c → SameSeat S S' t)
    (hold : 2 ≤ c → c ≤ S.currentTaskId → (S.task c).status ≠ .suspended)
    (hnew : (S'.task c).status ≠ .suspended) (hfin : (S'.task c).status ≠ .finished)
    (hawake : (S'.task c).sleeping = true → (S.task c).sleeping = true) : Calm S S' := by
  refine ⟨hgrows, fun t hlo hhi hs => ?_, fun t _ hs => ?_, fun t hs => ?_, fun t hs => ?_⟩
  · by_cases ht : t = c
    · exact absurd (ht ▸ hs) (hold (ht ▸ hlo) (ht ▸ hhi))
    · exact (hothers t ht).status.trans hs
  · by_cases ht : t = c
    · exact absurd (ht ▸ hs) hnew
    · exact (hothers t ht).status.symm.trans hs
  · by_cases ht : t = c
    · exact absurd (ht ▸ hs) hfin
    · exact (hothers t ht).status.symm.trans hs
  · by_cases ht : t = c
    · subst ht
      exact hawake hs
    · exact (hothers t ht).sleeping.symm.trans hs

theorem SysInv.calm_yield (h : SysInv none S) (hc : S.currentActiveTask ≠ 0) :
    Calm S (taskYield S) := by
  have hl := leaves_taskYield h.kernelReady hc
  have hrun := (h.running hc).1
  apply calm_of_seats (c := S.currentActiveTask) (le_of_eq hl.currentTaskId.symm)
  · exact fun t ht => hl.sameSeat ht
  · simp [hrun]
  · simp [hl.task]
  · simp [hl.task]
  · simp [hl.task]

theorem SysInv.calm_tick (h : SysInv none S) :
    SysInv none (handleTimerSignal S) ∧ Calm S (handleTimerSignal S) := by
  rcases tick_cases h.kernelReady with hq | ⟨S₁, hq, hc, htick⟩
  · exact ⟨h.quiet hq, hq.calm⟩
  · rw [htick]
    have h₁ := h.quiet hq
    exact ⟨h₁.yield hc, hq.calm.trans (h₁.calm_yield hc)⟩

theorem Creates.calm (h : Creates S S') : Calm S S' := by
  apply calm_of_seats (c := S.currentTaskId + 1)
  · rw [h.currentTaskId]
    exact Nat.le_succ _
  · exact fun t ht => h.sameSeat ht
  · exact fun _ hle => absurd hle (Nat.not_succ_le_self _)
  · simp [h.task, Tcb.zero]
  · simp [h.task, Tcb.zero]
  · simp [h.task, Tcb.zero]

/-- The task that the dispatcher runs was ready, or it is the disk manager. -/
theorem SysInv.calm_run (h : SysInv none S) {t : Nat} (ht : 0 < S.occurs .ready t)
    (hd : Dispatches S S' t) : Calm S S' := by
  apply calm_of_seats (c := t) (le_of_eq hd.currentTaskId.symm)
  · exact fun x hx => hd.sameSeat hx
  · intro hlo hhi hs
    have hocc := (h.users t (by simp) hlo hhi).occurs .ready
    rw [if_neg] at hocc
    · omega
    · rw [home_suspended hs]
      split <;> simp
  · simp [hd.task]
  · simp [hd.task]
  · simp [hd.task]

/-- With nobody asleep the dispatcher wakes nobody. -/
theorem Wakes.calm (h : Wakes (Sleeps S) S S') (hawake : ∀ t, (S.task t).sleeping = false) :
    Calm S S' := by
  have hseat : ∀ t, SameSeat S S' t := by
    intro t
    rcases h.seats t with hs | ⟨hd, -⟩
    · exact hs
    · exact absurd (hd.2.2.symm.trans (hawake t)) (by decide)
  refine ⟨le_of_eq h.currentTaskId.symm, fun t _ _ hs => ?_, fun t _ hs => ?_, fun t hs => ?_,
    fun t hs => ?_⟩
  · exact (hseat t).status.trans hs
  · exact (hseat t).status.symm.trans hs
  · exact (hseat t).status.symm.trans hs
  · exact (hseat t).sleeping.symm.trans hs

/-- A step of the task subsystem that is calm keeps the invariant. -/
theorem PreemptInv.calm (h : PreemptInv k H) (hsys : SysInv none S') (hcalm : Calm k.sys S')
    {d : DispatcherPoint} (hran : ∀ t, d = .ran t → t ≤ S'.currentTaskId) :
    PreemptInv { k with sys := S', dispatcher := d } H := by
  have hwaits : ∀ t, k.Waits t → SemSystem.Waits { k with sys := S', dispatcher := d } t := by
    intro t hw
    rcases hw with hw | ⟨hp, hs⟩
    · exact Or.inl hw
    · obtain ⟨hlo, hhi⟩ := h.inside t (by rw [hp]; simp)
      exact Or.inr ⟨hp, hcalm.stays t hlo hhi hs⟩
  refine ⟨hsys, fun t ht => ?_, fun t hlo hs => h.asleep t hlo (hcalm.only t hlo hs),
    fun t hs => h.unfinished t (hcalm.unfinished t hs), fun t => ?_, hran, h.mutex, h.nodup,
    fun t ht => hwaits t (h.waiting t ht), h.chosen, fun u t hu => ?_,
    fun H₁ u t H₂ heq hnot => ?_⟩
  · obtain ⟨hlo, hhi⟩ := h.inside t ht
    exact ⟨hlo, Nat.le_trans hhi hcalm.grows⟩
  · by_contra hne
    have hold := hcalm.awake t (Bool.eq_true_of_not_eq_false hne)
    rw [h.awake t] at hold
    exact absurd hold (by decide)
  · obtain ⟨hout, hw, honly⟩ := h.taken u t hu
    exact ⟨hout, hwaits t hw, honly⟩
  · refine (h.removed H₁ u t H₂ heq hnot).imp_right fun hp => ⟨hp.1, fun hs => hp.2 ?_⟩
    refine hcalm.only t (h.inside t ?_).1 hs
    intro hout
    have hpast := hp.1
    rw [hout] at hpast
    exact absurd (show false = true from hpast) (by decide)

/-! ## Suspending and waking -/

/-- `task_suspend(suspended_queue)`. -/
theorem PreemptInv.suspends (h : PreemptInv k H) (hc : 2 ≤ k.current)
    (hq : k.point k.current = .down .suspend) : PreemptInv (k.downStatement .suspend) H := by
  have hc0 : k.sys.currentActiveTask ≠ 0 := by
    unfold SemSystem.current at hc
    omega
  have hl := leaves_suspend (i := .suspended) h.sys.kernelReady hc0
  have hsys := h.sys.suspends hc0
  have hseat : ∀ t, t ≠ k.current → SameSeat k.sys (taskSuspend k.sys .suspended) t :=
    fun t ht => hl.sameSeat ht
  have hself : ((taskSuspend k.sys .suspended).task k.current).status = .suspended := by
    change ((taskSuspend k.sys .suspended).task k.sys.currentActiveTask).status = _
    rw [hl.task]
  have hpoint : ∀ t, t ≠ k.current → (k.goto (.down .relock)).point t = k.point t := by
    intro t ht
    rw [goto_point, if_neg ht]
  have hcur : (k.goto (.down .relock)).point k.current = .down .relock := by
    rw [goto_point, if_pos rfl]
  have hholds : ∀ t, ((k.goto (.down .relock)).point t).holds = (k.point t).holds := by
    intro t
    by_cases ht : t = k.current
    · rw [ht, hcur, hq]
      rfl
    · rw [hpoint t ht]
  have hwaits : ∀ t, k.Waits t → (k.downStatement .suspend).Waits t := by
    intro t hw
    by_cases ht : t = k.current
    · rw [ht]
      exact Or.inr ⟨hcur, hself⟩
    · unfold SemSystem.Waits at hw ⊢
      rw [← hpoint t ht, ← (hseat t ht).status] at hw
      exact hw
  refine ⟨hsys, fun t ht => ?_, fun t hlo hs => ?_, fun t hs => ?_, fun t => ?_, fun t ht => ?_,
    h.goto_mutex hq (fun hp => absurd (show false = true from hp) (by decide))
      (fun _ hlock => ⟨hlock, rfl⟩),
    h.nodup, fun t ht => hwaits t (h.waiting t ht), fun u t hu => ?_, fun u t hu => ?_,
    fun H₁ u t H₂ heq hnot => ?_⟩
  · obtain ⟨hlo, hhi⟩ := h.goto_inside hc t ht
    exact ⟨hlo, le_of_le_of_eq hhi hl.currentTaskId.symm⟩
  · by_cases ht : t = k.current
    · rw [ht]
      exact hcur
    · exact (hpoint t ht).trans (h.asleep t hlo ((hseat t ht).status.symm.trans hs))
  · by_cases ht : t = k.current
    · rw [ht] at hs
      exact absurd (hself.symm.trans hs) (by decide)
    · exact h.unfinished t ((hseat t ht).status.symm.trans hs)
  · by_cases ht : t = k.current
    · rw [ht]
      change ((taskSuspend k.sys .suspended).task k.sys.currentActiveTask).sleeping = false
      rw [hl.task]
      exact h.awake _
    · exact (hseat t ht).sleeping.trans (h.awake t)
  · exact le_of_le_of_eq (h.ran t ht) hl.currentTaskId.symm
  · by_cases huc : u = k.current
    · rw [huc] at hu
      exact absurd (hcur.symm.trans hu) (by simp)
    · exact h.chosen u t ((hpoint u huc).symm.trans hu)
  · obtain ⟨hout, hw, honly⟩ := h.taken u t ((hholds u).symm.trans hu)
    exact ⟨hout, hwaits t hw, fun v hv => honly v ((hholds v).symm.trans hv)⟩
  · rcases h.removed H₁ u t H₂ heq hnot with ⟨hu, hup⟩ | ⟨hp, hs⟩
    · exact Or.inl ⟨(hholds u).trans hu, hup⟩
    · have htc : t ≠ k.current := by
        rintro rfl
        rw [hq] at hp
        exact absurd (show false = true from hp) (by decide)
      refine Or.inr ⟨?_, fun hs' => hs ((hseat t htc).status.symm.trans hs')⟩
      change ((k.goto (.down .relock)).point t).past = true
      rw [hpoint t htc]
      exact hp

/-- `task_awake(task_wake)` of a suspended task: it has no suspension ahead. -/
theorem PreemptInv.awakes (h : PreemptInv k H) (hc : 2 ≤ k.current) {t : Nat}
    (hq : k.point k.current = .up (.awake (some t)))
    (hsusp : (k.sys.task t).status = .suspended) : ∃ S, taskAwake k.sys (some t) = .ok S ∧
      PreemptInv { k.goto (.up (.ret noError)) with sys := S } H := by
  have hheld : (k.point k.current).holds = some t := by
    rw [hq]
    rfl
  obtain ⟨hout, hw, honly⟩ := h.taken _ t hheld
  have hrelock : k.point t = .down .relock := by
    rcases hw with hw | ⟨hp, -⟩
    · refine h.asleep t (h.inside t ?_).1 hsusp
      intro hp
      rw [hp] at hw
      exact absurd (show false = true from hw) (by decide)
    · exact hp
  obtain ⟨hlo, hhi⟩ := h.inside t (by rw [hrelock]; simp)
  have htc : t ≠ k.current := by
    rintro rfl
    rw [hq] at hrelock
    exact absurd hrelock (by simp)
  obtain ⟨S, hawake, hwakes, hwoken, -, -⟩ := taskAwake_suspended hsusp fun i hi => by
    rw [(h.sys.users t (by simp) hlo hhi).occurs, if_pos hi]
    exact Nat.one_pos
  have hsys : SysInv none S := h.sys.wakes hwakes
    (fun y hy => ⟨by simp, hy ▸ hhi⟩) fun h1 => absurd h1 (by omega)
  have hseat : ∀ x, x ≠ t → SameSeat k.sys S x := by
    intro x hx
    rcases hwakes.seats x with hs | ⟨hxt, -⟩
    · exact hs
    · exact absurd hxt hx
  have hpoint : ∀ x, x ≠ k.current → (k.goto (.up (.ret noError))).point x = k.point x := by
    intro x hx
    rw [goto_point, if_neg hx]
  have hcur : (k.goto (.up (.ret noError))).point k.current = .up (.ret noError) := by
    rw [goto_point, if_pos rfl]
  have hholds : ∀ u x, ((k.goto (.up (.ret noError))).point u).holds = some x →
      u ≠ k.current ∧ (k.point u).holds = some x ∧ x ≠ t := by
    intro u x hu
    have huc : u ≠ k.current := by
      rintro rfl
      rw [hcur] at hu
      exact absurd (show none = some x from hu) (by simp)
    rw [hpoint u huc] at hu
    refine ⟨huc, hu, ?_⟩
    rintro rfl
    exact huc (honly u hu)
  have hwaits : ∀ x, x ≠ t → k.Waits x →
      SemSystem.Waits { k.goto (.up (.ret noError)) with sys := S } x := by
    intro x hx hwx
    have hxc : x ≠ k.current := by
      rintro rfl
      have hen := h.waits_current hc hwx
      rw [hq] at hen
      exact absurd (show false = true from hen) (by decide)
    unfold SemSystem.Waits at hwx ⊢
    rw [← hpoint x hxc, ← (hseat x hx).status] at hwx
    exact hwx
  refine ⟨S, hawake, hsys, fun x hx => ?_, fun x hlo hs => ?_, fun x hs => ?_, fun x => ?_,
    fun x hx => ?_, h.goto_mutex hq (fun hp => absurd (show false = true from hp) (by decide))
      (fun _ hlock => ⟨hlock, rfl⟩),
    h.nodup, fun x hx => hwaits x ?_ (h.waiting x hx), fun u x hu => ?_, fun u x hu => ?_,
    fun H₁ u x H₂ heq hnot => ?_⟩
  · obtain ⟨hlo, hhi⟩ := h.goto_inside hc x hx
    exact ⟨hlo, le_of_le_of_eq hhi hwakes.currentTaskId.symm⟩
  · have hxt : x ≠ t := by
      rintro rfl
      exact absurd (hwoken.status.symm.trans hs) (by decide)
    exact h.goto_asleep hc x hlo ((hseat x hxt).status.symm.trans hs)
  · by_cases hxt : x = t
    · rw [hxt] at hs
      exact absurd (hwoken.status.symm.trans hs) (by decide)
    · exact h.unfinished x ((hseat x hxt).status.symm.trans hs)
  · by_cases hxt : x = t
    · rw [hxt]
      exact hwoken.sleeping
    · exact (hseat x hxt).sleeping.trans (h.awake x)
  · exact le_of_le_of_eq (h.ran x hx) hwakes.currentTaskId.symm
  · rintro rfl
    exact hout hx
  · by_cases huc : u = k.current
    · rw [huc] at hu
      exact absurd (hcur.symm.trans hu) (by simp)
    · exact h.chosen u x ((hpoint u huc).symm.trans hu)
  · obtain ⟨-, hu, hxt⟩ := hholds u x hu
    obtain ⟨hout, hw, honly⟩ := h.taken u x hu
    exact ⟨hout, hwaits x hxt hw, fun v hv => honly v (hholds v x hv).2.1⟩
  · rcases h.removed H₁ u x H₂ heq hnot with ⟨hu, hup⟩ | ⟨hp, hs⟩
    · by_cases huc : u = k.current
      · subst huc
        obtain rfl : t = x := Option.some.inj (hheld.symm.trans hu)
        refine Or.inr ⟨?_, fun hs => absurd (hwoken.status.symm.trans hs) (by decide)⟩
        change ((k.goto (.up (.ret noError))).point t).past = true
        rw [hpoint t htc, hrelock]
        rfl
      · left
        change ((k.goto (.up (.ret noError))).point u).holds = some x ∧ _
        rw [hpoint u huc]
        exact ⟨hu, hup⟩
    · have hxt : x ≠ t := by
        rintro rfl
        exact hs hsusp
      have hxc : x ≠ k.current := by
        rintro rfl
        rw [hq] at hp
        exact absurd (show false = true from hp) (by decide)
      refine Or.inr ⟨?_, fun hs' => hs ((hseat x hxt).status.symm.trans hs')⟩
      change ((k.goto (.up (.ret noError))).point x).past = true
      rw [hpoint x hxc]
      exact hp

/-! ## One step -/

/-- **A statement of `sem_down`** keeps the invariant. -/
theorem PreemptInv.down_step (h : PreemptInv k H) (hc : 2 ≤ k.current) {p : DownPoint}
    (hq : k.point k.current = .down p) :
    PreemptInv (k.downStatement p) (H ++ wakeEvents k .next) := by
  by_cases hret : ∃ code, p = .ret code
  · obtain ⟨code, rfl⟩ := hret
    have hevents : wakeEvents k .next = [.downReturned k.current] := by simp [wakeEvents, hq]
    rw [hevents]
    exact h.moves (x := k.sem) hc hq (by simp [SemPoint.locked]) (fun _ hlock => ⟨hlock, rfl⟩) rfl
      (by simp) rfl (by simp [SemPoint.enqueued]) (fun _ => Or.inr (List.mem_singleton_self _))
      (by simp)
  · have hevents : wakeEvents k .next = [] := by
      cases p with
      | ret code => exact absurd ⟨code, rfl⟩ hret
      | _ => simp [wakeEvents, hq]
    rw [hevents, List.append_nil]
    cases p with
    | add => exact h.adds hc hq
    | suspend => exact h.suspends hc hq
    | ret code => exact absurd ⟨code, rfl⟩ hret
    | _ => exact h.down_moves hc hq (by simp) (by simp) (by simp)

/-- **A statement of `sem_up`** keeps the invariant, if the task it wakes is suspended. -/
theorem PreemptInv.up_step (h : PreemptInv k H) (hc : 2 ≤ k.current) {p : UpPoint}
    (hq : k.point k.current = .up p) (hok : awakesSuspended k .next = true)
    (hs : k.upStatement p = .ok k') : PreemptInv k' (H ++ wakeEvents k .next) := by
  cases p with
  | ret code =>
      obtain rfl := Except.ok.inj hs
      have hevents : wakeEvents k .next = [.upReturned k.current] := by simp [wakeEvents, hq]
      rw [hevents]
      exact h.moves (x := k.sem) hc hq (by simp [SemPoint.locked]) (fun _ hlock => ⟨hlock, rfl⟩) rfl
        (by simp) rfl (by simp [SemPoint.enqueued]) (by simp [SemPoint.past])
        (by simp [SemPoint.holds])
  | del wake =>
      cases wake with
      | some t =>
          obtain rfl := Except.ok.inj hs
          have hevents : wakeEvents k .next = [.removed k.current t] := by
            simp [wakeEvents, hq, h.chosen _ t hq]
          rw [hevents]
          exact h.takes hc hq
      | none =>
          obtain rfl := Except.ok.inj hs
          have hevents : wakeEvents k .next = [] := by simp [wakeEvents, hq]
          rw [hevents, List.append_nil]
          exact h.up_moves hc hq (by simp) (by simp) (by simp)
  | awake wake =>
      have hevents : wakeEvents k .next = [] := by simp [wakeEvents, hq]
      rw [hevents, List.append_nil]
      cases wake with
      | some t =>
          obtain ⟨S, hS, hinv⟩ := h.awakes hc hq (by simpa [awakesSuspended, hq] using hok)
          rw [SemSystem.upStatement, hS] at hs
          obtain rfl := Except.ok.inj hs
          exact hinv
      | none =>
          obtain rfl := Except.ok.inj hs
          rw [← List.append_nil H]
          exact h.moves (x := k.sem) hc hq (by simp [SemPoint.locked])
            (fun _ hlock => ⟨hlock, rfl⟩) rfl (by simp) rfl (by simp [SemPoint.enqueued])
            (by simp [SemPoint.past]) (by simp)
  | _ =>
      obtain rfl := Except.ok.inj hs
      have hevents : wakeEvents k .next = [] := by simp [wakeEvents, hq]
      rw [hevents, List.append_nil]
      exact h.up_moves hc hq (by simp) (by simp) (by simp)

/-- **A step of the dispatcher** is calm. -/
theorem PreemptInv.dispatcher_step (h : PreemptInv k H) (hc : k.current = 0) {requests : Nat}
    (hs : SemSystem.preemptive.dispatcherStep k requests = some (.ok k')) : PreemptInv k' H := by
  obtain ⟨S, d, hturn, rfl⟩ := Preemptive.dispatcherStep_eq_some.mp hs
  obtain ⟨S', d', hok, hseated⟩ := h.sys.turn hc h.ran hturn
  obtain ⟨rfl, rfl⟩ := Prod.mk.inj (Except.ok.inj hok)
  cases hseated with
  | creates =>
      have hcreates := creates_taskCreate k.sys
      exact h.calm (h.sys.create hcreates) hcreates.calm (by simp)
  | @runs T next hq ht =>
      have hsys := h.sys.quiet hq
      have hrun := dispatches_taskRun ht
      refine h.calm (hsys.run (hq.current.trans hc) ht hrun) (hq.calm.trans (hsys.calm_run ht hrun))
        fun t heq => ?_
      obtain rfl := DispatcherPoint.ran.inj heq
      rw [hrun.currentTaskId]
      exact (hsys.ready_status ht).2.1
  | wakes hq hw hsys =>
      exact h.calm hsys (hq.calm.trans (hw.calm fun t => (hq.fields t).2.1.trans (h.awake t)))
        (by simp)

/-- Only statements of the two functions leave events. -/
theorem wakeEvents_other (ha : a ≠ .next) : wakeEvents k a = [] := by
  cases a with
  | next => exact absurd rfl ha
  | _ => rfl

/-- A call of a user task. -/
theorem PreemptInv.call_step (h : PreemptInv k H) (hc : 2 ≤ k.current)
    (hq : k.point k.current = .outside) (hs : k.call a = some (.ok k')) : PreemptInv k' H := by
  have henters : ∀ {p : SemPoint}, p.locked = false → p.holds = none → p.enqueued = false →
      PreemptInv (k.goto p) H := by
    intro p hlocked hholds henqueued
    rw [← List.append_nil H]
    refine h.moves (x := k.sem) hc hq (fun hp => absurd (hlocked.symm.trans hp) (by decide))
      (fun _ hlock => ⟨hlock, hlocked⟩) rfl (fun t ht => ?_) hholds (by simp [SemPoint.enqueued])
      (by simp [SemPoint.past]) (by simp)
    rw [ht] at hlocked
    exact absurd (show true = false from hlocked) (by decide)
  have hran : ∀ {S : TaskSystem}, Calm k.sys S → ∀ t, k.dispatcher = .ran t →
      t ≤ S.currentTaskId := fun hcalm t ht => Nat.le_trans (h.ran t ht) hcalm.grows
  cases a with
  | create granted =>
      obtain rfl := Except.ok.inj (Option.some.inj hs)
      cases granted with
      | true =>
          have hcreates := creates_taskCreate k.sys
          exact h.calm (h.sys.create hcreates) hcreates.calm (hran hcreates.calm)
      | false => exact h
  | setprio task prio =>
      obtain ⟨S, hprio, hs⟩ := bind_eq_ok.mp (Option.some.inj hs)
      obtain rfl := Except.ok.inj hs
      have hquiet := schedSetprio_quiet hprio
      exact h.calm (h.sys.quiet hquiet) hquiet.calm (hran hquiet.calm)
  | down | up =>
      obtain rfl := Except.ok.inj (Option.some.inj hs)
      exact henters rfl rfl rfl
  | yield | next | dispatcher | tick => exact absurd hs (by simp [SemSystem.call])

/-- **A step keeps the invariant**, if the task it wakes is suspended. -/
theorem PreemptInv.step (h : PreemptInv k H) (hok : awakesSuspended k a = true)
    (hs : k.step a = some k') : PreemptInv k' (H ++ wakeEvents k a) := by
  have hexec := Preemptive.step_eq_some.mp hs
  have hsame : ∀ {S : TaskSystem}, SysInv none S → Calm k.sys S →
      PreemptInv { k with sys := S } H := fun hsys hcalm =>
    h.calm hsys hcalm fun t ht => Nat.le_trans (h.ran t ht) hcalm.grows
  cases a with
  | next =>
      obtain ⟨-, hexec⟩ := Preemptive.exec_task.mp hexec
      cases hq : k.point k.current with
      | outside =>
          rw [hq] at hexec
          exact absurd hexec (by simp)
      | down p =>
          have hlo := (h.inside k.current (by simp [hq])).1
          rw [hq] at hexec
          obtain rfl := Except.ok.inj (Option.some.inj hexec)
          exact h.down_step hlo hq
      | up p =>
          have hlo := (h.inside k.current (by simp [hq])).1
          rw [hq] at hexec
          exact h.up_step hlo hq hok (Option.some.inj hexec)
  | tick =>
      obtain rfl := Except.ok.inj (Option.some.inj hexec)
      obtain ⟨hsys, hcalm⟩ := h.sys.calm_tick
      rw [wakeEvents_other (by simp), List.append_nil]
      exact hsame hsys hcalm
  | dispatcher =>
      rw [wakeEvents_other (by simp), List.append_nil]
      obtain ⟨hc, hexec⟩ := Preemptive.exec_dispatcher.mp hexec
      exact h.dispatcher_step hc hexec
  | yield =>
      rw [wakeEvents_other (by simp), List.append_nil]
      obtain ⟨hc, hexec⟩ := Preemptive.exec_task.mp hexec
      rw [Option.ite_none_right_eq_some] at hexec
      obtain rfl := Except.ok.inj (Option.some.inj hexec.2)
      exact hsame (h.sys.yield hc) (h.sys.calm_yield hc)
  | create _ | setprio _ _ | down | up =>
      rw [wakeEvents_other (by simp), List.append_nil]
      obtain ⟨hc, hexec⟩ := Preemptive.exec_task.mp hexec
      rw [Option.ite_none_right_eq_some] at hexec
      obtain ⟨⟨hc1, hq⟩, hcall⟩ := hexec
      have hlo : 2 ≤ k.current := by
        change k.current ≠ taskKernel at hc
        unfold taskKernel at hc
        unfold taskDiskHandler at hc1
        omega
      exact h.call_step hlo hq hcall

/-! ## No wake-up is lost -/

theorem preemptInv_boot {s : Semaphore} {value : Int} (hs : semCreate value = some s) :
    PreemptInv (SemSystem.boot s) [] := by
  unfold semCreate at hs
  by_cases hv : value < 0
  · rw [if_pos hv] at hs
    exact absurd hs (by simp)
  rw [if_neg hv] at hs
  obtain rfl := Option.some.inj hs
  have htask : ∀ t, t ≠ 1 → ((Kernel.boot 0 (fun _ _ => 0) fun _ => 0).sys.task t).status = .ready ∧
      ((Kernel.boot 0 (fun _ _ => 0) fun _ => 0).sys.task t).sleeping = false := fun t ht =>
    ⟨(boot_task _ _ _ ht).1, (boot_task _ _ _ ht).2.1⟩
  refine ⟨sysInv_boot 0 (fun _ _ => 0) fun _ => 0, fun t ht => absurd rfl ht,
    fun t hlo hsusp => ?_, fun t hfin => ?_,
    fun t => ?_, fun t ht => ?_, fun t ht => ?_, List.nodup_nil, fun t ht => ?_, fun u t hu => ?_,
    fun u t hu => ?_, fun H₁ u t H₂ heq _ => ?_⟩
  · exact absurd ((htask t (by omega)).1.symm.trans hsusp) (by decide)
  · by_cases ht : t = 1
    · subst ht
      exact absurd (show Status.suspended = .finished from hfin) (by decide)
    · exact absurd ((htask t ht).1.symm.trans hfin) (by decide)
  · by_cases ht : t = 1
    · subst ht
      rfl
    · exact (htask t ht).2
  · exact absurd ht (by simp [SemSystem.boot])
  · exact absurd (show false = true from ht) (by decide)
  · exact absurd (show t ∈ ([] : List Nat) from ht) (by simp)
  · exact absurd (show SemPoint.outside = _ from hu) (by simp)
  · exact absurd (show none = some t from hu) (by simp)
  · exact absurd heq (by simp)

/-- **No lost wake-up.**  In a run in which every `task_awake` of a `sem_up` finds its
task suspended, a task that a returned `sem_up` has taken out of `wait_queue` is ready
or running until its `sem_down` returns. -/
theorem no_lost_wakeup (value : Int) (s : Semaphore) (hs : semCreate value = some s)
    (as : List SemAction) (k : SemSystem)
    (hawake : AllSteps SemSystem.step (fun k a => awakesSuspended k a = true)
      (SemSystem.boot s) as)
    (hrun : run SemSystem.step (SemSystem.boot s) as = some k) (t : Nat)
    (ht : Released (history SemSystem.step wakeEvents (SemSystem.boot s) as) t) :
    (k.sys.task t).status = .ready ∨ (k.sys.task t).status = .running := by
  have hinv := invariant_history PreemptInv (fun _ _ _ _ h hok hs => h.step hok hs)
    (preemptInv_boot hs) hawake hrun
  rw [List.nil_append] at hinv
  obtain ⟨H₁, u, H₂, hH, hup, hdown⟩ := ht
  have hnot : (k.sys.task t).status ≠ .suspended := by
    rcases hinv.removed H₁ u t H₂ hH hdown with ⟨-, hnot⟩ | ⟨-, hs⟩
    · exact absurd hup hnot
    · exact hs
  cases hstatus : (k.sys.task t).status with
  | ready => exact Or.inl rfl
  | running => exact Or.inr rfl
  | suspended => exact absurd hstatus hnot
  | finished => exact absurd hstatus (hinv.unfinished t)

/-- Task 2 suspends itself in `sem_down`; task 3 wakes it. -/
theorem no_lost_wakeup_two_tasks : ∃ k,
    run SemSystem.step (SemSystem.boot ⟨false, queueCreate, 0, false⟩)
      ([SemAction.dispatcher, .dispatcher, .yield, .dispatcher, .dispatcher, .create true, .down] ++
        List.replicate 7 SemAction.next ++
        [SemAction.dispatcher, .dispatcher, .yield, .dispatcher, .dispatcher, .up] ++
        List.replicate 8 SemAction.next) = some k ∧
    ((k.sys.task 2).status = .ready ∨ (k.sys.task 2).status = .running) := by
  obtain ⟨k, hk⟩ := Option.isSome_iff_exists.mp (by decide +kernel :
    (run SemSystem.step (SemSystem.boot ⟨false, queueCreate, 0, false⟩)
      ([SemAction.dispatcher, .dispatcher, .yield, .dispatcher, .dispatcher, .create true, .down] ++
        List.replicate 7 SemAction.next ++
        [SemAction.dispatcher, .dispatcher, .yield, .dispatcher, .dispatcher, .up] ++
        List.replicate 8 SemAction.next)).isSome = true)
  refine ⟨k, hk, no_lost_wakeup 0 _ rfl _ k (by decide +kernel) hk 2 ?_⟩
  exact ⟨[], 3, [.upReturned 3], by decide +kernel, by simp, by simp⟩

/-- **A lost wake-up.**  Ten ticks between `spin_unlock` and `task_suspend` of task 2
make it yield; the `sem_up` of task 3 takes it out of `wait_queue` and returns, and task
2 then suspends itself. -/
theorem wakeup_lost : ∃ k,
    run SemSystem.step (SemSystem.boot ⟨false, queueCreate, 0, false⟩)
      ([SemAction.dispatcher, .dispatcher, .yield, .dispatcher, .dispatcher, .create true, .down] ++
        List.replicate 6 SemAction.next ++ List.replicate 10 SemAction.tick ++
        [SemAction.dispatcher, .dispatcher, .yield, .dispatcher, .dispatcher, .up] ++
        List.replicate 8 SemAction.next ++
        [SemAction.yield, .dispatcher, .dispatcher, .next]) = some k ∧
    Released (history SemSystem.step wakeEvents (SemSystem.boot ⟨false, queueCreate, 0, false⟩)
      ([SemAction.dispatcher, .dispatcher, .yield, .dispatcher, .dispatcher, .create true, .down] ++
        List.replicate 6 SemAction.next ++ List.replicate 10 SemAction.tick ++
        [SemAction.dispatcher, .dispatcher, .yield, .dispatcher, .dispatcher, .up] ++
        List.replicate 8 SemAction.next ++
        [SemAction.yield, .dispatcher, .dispatcher, .next])) 2 ∧
    (k.sys.task 2).status = .suspended ∧ k.point 2 = .down .relock := by
  have hrun : (run SemSystem.step (SemSystem.boot ⟨false, queueCreate, 0, false⟩)
      ([SemAction.dispatcher, .dispatcher, .yield, .dispatcher, .dispatcher, .create true, .down] ++
        List.replicate 6 SemAction.next ++ List.replicate 10 SemAction.tick ++
        [SemAction.dispatcher, .dispatcher, .yield, .dispatcher, .dispatcher, .up] ++
        List.replicate 8 SemAction.next ++
        [SemAction.yield, .dispatcher, .dispatcher, .next])).any (fun k =>
          decide ((k.sys.task 2).status = .suspended ∧ k.point 2 = .down .relock)) = true := by
    decide +kernel
  rw [Option.any_eq_true] at hrun
  obtain ⟨k, hk, hlost⟩ := hrun
  exact ⟨k, hk, ⟨[], 3, [.upReturned 3], by decide +kernel, by simp, by simp⟩,
    of_decide_eq_true hlost⟩

end PingPongOS
