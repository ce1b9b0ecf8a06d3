import PingPongOS.Kernel

/-!
# The statements of the semaphores

`sem_down`, `sem_up` and `sem_destroy` of `semaphore.c` one statement at a time: what a
statement does to the semaphore, and which one comes next.  The functions they call run
uninterrupted, and `task_suspend` and `task_awake` are left to the system around them.
Executed one after the other with nobody in between, the statements are the calls of the
kernel.
-/

namespace PingPongOS

/-- The next statement of a task in `sem_down`. -/
inductive DownPoint
  | lock
  | destroyed
  | refuse
  | value
  | negative
  | add
  | release
  | suspend
  | relock
  | recheck
  | giveBack
  | unlock
  | ret (code : Int)
  deriving DecidableEq

/-- The next statement of a task in `sem_up`, with the value of `task_wake`. -/
inductive UpPoint
  | lock
  | destroyed
  | refuse
  | value
  | head
  | del (wake : Option Nat)
  | unlock (wake : Option Nat)
  | awake (wake : Option Nat)
  | ret (code : Int)
  deriving DecidableEq

/-- Where a task is: outside of the two functions, or in one of them. -/
inductive SemPoint
  | outside
  | down (p : DownPoint)
  | up (p : UpPoint)
  deriving DecidableEq

/-- The next statement of `sem_destroy`, with the value of `task_to_wake`. -/
inductive SemDestroyPoint
  | lock
  | mark
  | head
  | unlock (wake : Option Nat)
  | loop (wake : Option Nat)
  | del (t : Nat)
  | awake (t : Nat)
  | ret
  deriving DecidableEq

/-- One `xchg` of `spin_lock`: with the lock it goes on at `p`, without it at `here` again. -/
def spinStatement {α : Type} (x : Semaphore) (here p : α) : Semaphore × α :=
  if x.lock then (x, here) else ({ x with lock := true }, p)

/-- A statement of `sem_down` of task `t`. -/
def semDownStatement (x : Semaphore) (t : Nat) : DownPoint → Semaphore × DownPoint
  | .lock => spinStatement x .lock .destroyed
  | .destroyed => (x, if x.destroy then .refuse else .value)
  | .refuse => (spinUnlock x, .ret error)
  | .value => ({ x with value := addInt x.value (-1) }, .negative)
  | .negative => (x, if x.value < 0 then .add else .unlock)
  | .add => ({ x with waitQueue := queueAdd x.waitQueue t }, .release)
  | .release => (spinUnlock x, .suspend)
  -- task_suspend(suspended_queue)
  | .suspend => (x, .relock)
  | .relock => spinStatement x .relock .recheck
  | .recheck => (x, if x.destroy then .giveBack else .unlock)
  | .giveBack => ({ x with value := addInt x.value 1 }, .refuse)
  | .unlock => (spinUnlock x, .ret noError)
  | .ret code => (x, .ret code)

/-- A statement of `sem_up`. -/
def semUpStatement (x : Semaphore) : UpPoint → Semaphore × UpPoint
  | .lock => spinStatement x .lock .destroyed
  | .destroyed => (x, if x.destroy then .refuse else .value)
  | .refuse => (spinUnlock x, .ret error)
  | .value => ({ x with value := addInt x.value 1 }, .head)
  | .head => ({ x with waitQueue := (queueHead x.waitQueue).2 }, .del (queueHead x.waitQueue).1)
  | .del (some t) => ({ x with waitQueue := (queueDel x.waitQueue t).2 }, .unlock (some t))
  | .del none => (x, .unlock none)
  | .unlock wake => (spinUnlock x, .awake wake)
  -- task_awake(task_wake)
  | .awake _ => (x, .ret noError)
  | .ret code => (x, .ret code)

/-- A statement of `sem_destroy`. -/
def semDestroyStatement (x : Semaphore) : SemDestroyPoint → Semaphore × SemDestroyPoint
  | .lock => spinStatement x .lock .mark
  | .mark => ({ x with destroy := true }, .head)
  | .head =>
      ({ x with waitQueue := (queueHead x.waitQueue).2 }, .unlock (queueHead x.waitQueue).1)
  | .unlock wake => (spinUnlock x, .loop wake)
  | .loop (some t) => spinStatement x (.loop (some t)) (.del t)
  | .loop none => (x, .ret)
  | .del t => ({ x with waitQueue := (queueDel x.waitQueue t).2 }, .awake t)
  -- task_awake(task_to_wake)
  | .awake _ => (x, .head)
  | .ret => (x, .ret)

variable {x : Semaphore} {t : Nat}

/-! ## The critical section -/

/-- The task has the lock. -/
def SemPoint.locked : SemPoint → Bool
  | .outside => false
  | .down p =>
      match p with
      | .lock | .suspend | .relock | .ret _ => false
      | _ => true
  | .up p =>
      match p with
      | .lock | .awake _ | .ret _ => false
      | _ => true

/-- The destroyer has the lock. -/
def SemDestroyPoint.locked : SemDestroyPoint → Bool
  | .lock | .loop _ | .ret => false
  | _ => true

/-- At most one task holds the lock, and it is taken while one does. -/
def Excludes {α : Type} (lock : Bool) (held : α → Bool) : Prop :=
  ∀ t, held t = true → lock = true ∧ ∀ u, held u = true → u = t

/-- One task takes the lock while it is free, releases it, or leaves it alone. -/
theorem Excludes.move {α : Type} {lock lock' b : Bool} {held held' : α → Bool} {c : α}
    (h : Excludes lock held) (hc : held' c = b) (hothers : ∀ t, t ≠ c → held' t = held t)
    (hlocked : b = true → lock' = true)
    (hfree : held c = false → lock = true → lock' = true ∧ b = false) : Excludes lock' held' := by
  have hone : ∀ t, held' t = true → t ≠ c → held t = true ∧ lock' = true ∧ b = false := by
    intro t ht htc
    rw [hothers t htc] at ht
    have hcfree : held c = false := by
      by_contra hcheld
      exact htc ((h c (Bool.eq_true_of_not_eq_false hcheld)).2 t ht)
    exact ⟨ht, hfree hcfree (h t ht).1⟩
  intro t ht
  by_cases htc : t = c
  · subst htc
    rw [hc] at ht
    refine ⟨hlocked ht, fun u hu => ?_⟩
    by_contra huc
    have hb := (hone u hu huc).2.2
    rw [ht] at hb
    exact absurd hb (by decide)
  · obtain ⟨hheld, hlock, hb⟩ := hone t ht htc
    refine ⟨hlock, fun u hu => ?_⟩
    by_cases huc : u = c
    · rw [huc, hc, hb] at hu
      exact absurd hu (by decide)
    · exact (h t hheld).2 u (hone u hu huc).1

/-- Under the same statements the lock is taken only while a task has it. -/
theorem holder_move {α : Type} {lock lock' b : Bool} {held held' : α → Bool} {c : α}
    (h : lock = true → ∃ t, held t = true) (hc : held' c = b)
    (hothers : ∀ t, t ≠ c → held' t = held t)
    (hholder : lock' = true → b = true ∨ held c = false ∧ lock = true) (hlock : lock' = true) :
    ∃ t, held' t = true := by
  rcases hholder hlock with hb | ⟨hcfree, hold⟩
  · exact ⟨c, hc.trans hb⟩
  · obtain ⟨t, ht⟩ := h hold
    refine ⟨t, (hothers t ?_).trans ht⟩
    rintro rfl
    exact absurd (hcfree.symm.trans ht) (by decide)

/-- A statement of a task that has the lock before or after takes it while it is free,
releases it, or leaves it alone. -/
def KeepsLock (x y : Semaphore) (before after : Bool) : Prop :=
  (before = true → x.lock = true) →
    (after = true → y.lock = true) ∧
    (before = false → x.lock = true → y.lock = true ∧ after = false) ∧
    (y.lock = true → after = true ∨ before = false ∧ x.lock = true)

/-- One task has the lock while it is taken, and none while it is free. -/
structure Exclusive {α : Type} (x : Semaphore) (held : α → Bool) : Prop where
  excludes : Excludes x.lock held
  holder : x.lock = true → ∃ t, held t = true

/-- **A statement of one task** keeps the lock exclusive. -/
theorem Exclusive.move {α : Type} {x y : Semaphore} {held held' : α → Bool} {b : Bool} {c : α}
    (h : Exclusive x held) (hc : held' c = b) (hothers : ∀ t, t ≠ c → held' t = held t)
    (hkeeps : KeepsLock x y (held c) b) : Exclusive y held' := by
  obtain ⟨hlocked, hfree, hholder⟩ := hkeeps fun hl => (h.excludes c hl).1
  exact ⟨h.excludes.move hc hothers hlocked hfree, holder_move h.holder hc hothers hholder⟩

theorem spinStatement_lock {α : Type} (locked : α → Bool) {here p : α}
    (hh : locked here = false) (hp : locked p = true) :
    KeepsLock x (spinStatement x here p).1 (locked here) (locked (spinStatement x here p).2) := by
  intro _
  by_cases hl : x.lock = true
  · simp [spinStatement, hl, hh]
  · simp [spinStatement, hl, hp]

theorem semDownStatement_lock (x : Semaphore) (t : Nat) (p : DownPoint) :
    KeepsLock x (semDownStatement x t p).1 (SemPoint.down p).locked
      (SemPoint.down (semDownStatement x t p).2).locked := by
  cases p with
  | lock | relock => exact spinStatement_lock (fun p => (SemPoint.down p).locked) rfl rfl
  | destroyed | recheck =>
      intro hl
      by_cases hd : x.destroy = true <;> simp_all [semDownStatement, SemPoint.locked]
  | negative =>
      intro hl
      by_cases hv : x.value < 0 <;> simp [semDownStatement, hv, SemPoint.locked, hl rfl]
  | _ =>
      intro hl
      simp_all [semDownStatement, SemPoint.locked, spinUnlock]

theorem semUpStatement_lock (x : Semaphore) (p : UpPoint) :
    KeepsLock x (semUpStatement x p).1 (SemPoint.up p).locked
      (SemPoint.up (semUpStatement x p).2).locked := by
  cases p with
  | lock => exact spinStatement_lock (fun p => (SemPoint.up p).locked) rfl rfl
  | destroyed =>
      intro hl
      by_cases hd : x.destroy = true <;> simp_all [semUpStatement, SemPoint.locked]
  | del wake =>
      intro hl
      cases wake <;> simp_all [semUpStatement, SemPoint.locked]
  | _ =>
      intro hl
      simp_all [semUpStatement, SemPoint.locked, spinUnlock]

theorem semDestroyStatement_lock (x : Semaphore) (p : SemDestroyPoint) :
    KeepsLock x (semDestroyStatement x p).1 p.locked (semDestroyStatement x p).2.locked := by
  cases p with
  | lock => exact spinStatement_lock SemDestroyPoint.locked rfl rfl
  | loop wake =>
      cases wake with
      | none =>
          exact fun _ => ⟨fun h => absurd h Bool.false_ne_true, fun _ hl => ⟨hl, rfl⟩,
            fun hl => Or.inr ⟨rfl, hl⟩⟩
      | some t => exact spinStatement_lock SemDestroyPoint.locked rfl rfl
  | _ =>
      intro hl
      simp_all [semDestroyStatement, SemDestroyPoint.locked, spinUnlock]

/-! ## The wait queue and the flag -/

theorem semDownStatement_destroy (x : Semaphore) (t : Nat) (p : DownPoint) :
    (semDownStatement x t p).1.destroy = x.destroy := by
  cases p <;> simp only [semDownStatement, spinStatement] <;> first | rfl | (split <;> rfl)

theorem semUpStatement_destroy (x : Semaphore) (p : UpPoint) :
    (semUpStatement x p).1.destroy = x.destroy := by
  rcases p with _ | _ | _ | _ | _ | (_ | _) | _ | _ | _ <;>
    simp only [semUpStatement, spinStatement] <;> first | rfl | (split <;> rfl)

/-- The task has entered `wait_queue` and is about to suspend itself. -/
def SemPoint.enqueued : SemPoint → Bool
  | .down .release | .down .suspend => true
  | _ => false

/-- The task that this `sem_up` has taken out of `wait_queue` and has still to wake. -/
def SemPoint.holds : SemPoint → Option Nat
  | .up (.unlock wake) | .up (.awake wake) => wake
  | _ => none

theorem queueDel_keeps {q : Queue Nat} {t u : Nat} (hu : u ∈ q.items) :
    u ∈ (queueDel q t).2.items ∨ u = t := by
  by_cases ht : t ∈ q.items
  · rw [(queueDel_items ht).2]
    by_cases hut : u = t
    · exact Or.inr hut
    · exact Or.inl ((List.mem_erase_of_ne hut).mpr hu)
  · rw [queueDel_of_not_mem ht]
    exact Or.inl hu

/-- Only `queue_add` changes the wait queue in `sem_down`. -/
theorem semDownStatement_items (x : Semaphore) (t : Nat) (p : DownPoint) :
    (semDownStatement x t p).1.waitQueue.items =
      x.waitQueue.items ++ if p = .add then [t] else [] := by
  cases p with
  | add => exact queueAdd_items ..
  | lock | relock =>
      simp only [semDownStatement, spinStatement]
      split <;> simp
  | _ => simp [semDownStatement, spinUnlock]

/-- Who leaves the wait queue in `sem_up` is to be woken. -/
theorem semUpStatement_items {u : Nat} (p : UpPoint) (hu : u ∈ x.waitQueue.items) :
    u ∈ (semUpStatement x p).1.waitQueue.items ∨
      (SemPoint.up (semUpStatement x p).2).holds = some u := by
  cases p with
  | del wake =>
      cases wake with
      | none => exact Or.inl hu
      | some t => exact (queueDel_keeps hu).imp_right fun h => congrArg some h.symm
  | head => exact Or.inl (by rwa [semUpStatement, queueHead_items])
  | lock =>
      left
      simp only [semUpStatement, spinStatement]
      split <;> exact hu
  | _ => exact Or.inl hu

theorem queueDel_nil {q : Queue Nat} {t : Nat} (hq : q.items = []) :
    (queueDel q t).2.items = [] := by
  rw [queueDel_of_not_mem (by rw [hq]; exact List.not_mem_nil)]
  exact hq

/-- `sem_up` adds nobody to an empty wait queue. -/
theorem semUpStatement_nil (p : UpPoint) (hx : x.waitQueue.items = []) :
    (semUpStatement x p).1.waitQueue.items = [] := by
  cases p with
  | del wake =>
      cases wake with
      | none => exact hx
      | some t => exact queueDel_nil hx
  | lock =>
      simp only [semUpStatement, spinStatement]
      split <;> exact hx
  | _ => exact hx

/-- Who leaves the wait queue in `sem_destroy` is to be woken. -/
theorem semDestroyStatement_items {u : Nat} (p : SemDestroyPoint) (hu : u ∈ x.waitQueue.items) :
    u ∈ (semDestroyStatement x p).1.waitQueue.items ∨ (semDestroyStatement x p).2 = .awake u := by
  cases p with
  | del t => exact (queueDel_keeps hu).imp_right fun h => congrArg SemDestroyPoint.awake h.symm
  | head => exact Or.inl (by rwa [semDestroyStatement, queueHead_items])
  | lock =>
      left
      simp only [semDestroyStatement, spinStatement]
      split <;> exact hu
  | loop wake =>
      left
      cases wake with
      | none => exact hu
      | some t =>
          simp only [semDestroyStatement, spinStatement]
          split <;> exact hu
  | _ => exact Or.inl hu

/-! ## Uninterrupted -/

/-- **`sem_down`** of the kernel is its statements, up to the return or the suspension. -/
theorem semDown_statements (hl : x.lock = false) : ∃ n o y,
    (fun r => semDownStatement r.1 t r.2)^[n] (x, .lock) =
      (y, match o with | some code => .ret code | none => .suspend) ∧
    semDown x t = .ok (o, y) := by
  unfold semDown spinLock
  rw [if_neg (by simp [hl])]
  cases hd : x.destroy with
  | true =>
      refine ⟨3, some error, _, ?_, by simp [bind, Except.bind]; rfl⟩
      simp [semDownStatement, spinStatement, hl, hd]
  | false =>
      by_cases hv : addInt x.value (-1) < 0
      · refine ⟨6, none, _, ?_, by simp [hv, bind, Except.bind]; rfl⟩
        simp [semDownStatement, spinStatement, hl, hd, hv]
      · refine ⟨5, some noError, _, ?_, by simp [hv, bind, Except.bind]; rfl⟩
        simp [semDownStatement, spinStatement, hl, hd, hv]

end PingPongOS
