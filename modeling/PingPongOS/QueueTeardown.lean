import PingPongOS.MessageQueue
import PingPongOS.SemaphoreStatements

/-!
# The destruction of a message queue

Any number of tasks are inside `mqueue_send` and `mqueue_recv` when another calls
`mqueue_destroy`, and the timer may come between any two statements: of the two calls, of
the ring operations, and of the `sem_down`, `sem_up` and `sem_destroy` that they make.  A
task that suspends itself in `sem_down` sleeps until a `task_awake` wakes it; every task
that does not sleep may be the next to go on.  Only `task_suspend`, `task_awake` and the
queue functions run uninterrupted.

`mqueue_destroy` releases the ring before it destroys the two counting semaphores, and
never destroys the mutex.  So it is safe where nobody is on the way from the first
`sem_down` of a call to the end of its copy when the ring is released, nobody gets through
a first `sem_down` until its semaphore is destroyed, and no wake-up comes before the
suspension it is for.
-/

namespace PingPongOS

open Runs

/-- The semaphores of `struct mqueue_t`. -/
inductive QueueSem
  | spaceAvailable
  | itemsAvailable
  | buffer
  deriving DecidableEq

/-- Where `mqueue_destroy` goes on: not called yet, at a statement of the `sem_destroy` of a
semaphore, before `mem_free(queue)`, or returned. -/
inductive DestroyPoint
  | idle
  | sem (i : QueueSem) (p : SemDestroyPoint)
  | free
  | done
  deriving DecidableEq

/-- A task: the statement of its call, the statement of the `sem_down` or `sem_up` it is in,
whether it sleeps, and whether its call has done its copy. -/
structure Caller where
  point : Point
  inner : SemPoint
  asleep : Bool
  copied : Bool

/-- The queue and the tasks. -/
structure Teardown where
  buff : CircularBuffer
  sem : QueueSem → Semaphore
  task : Nat → Caller
  destroyer : DestroyPoint

/-- A task starts a call or goes on, or `mqueue_destroy` does. -/
inductive TeardownEvent
  | send (t : Nat) (msg : Nat → UInt8)
  | recv (t : Nat)
  | next (t : Nat)
  | destroy

/-- What a step leaves behind: a statement of the ring, or the return of a call with its
code and whether it had done its copy; each with whether the ring had been released. -/
inductive TeardownMark
  | ring (t : Nat) (released : Bool)
  | returned (t : Nat) (code : Int) (copied released : Bool)
  deriving DecidableEq

namespace Point

/-- The semaphore of the `sem_down` that a task is at. -/
def downs : Point → Option QueueSem
  | downSpace _ => some .spaceAvailable
  | recvDownItems => some .itemsAvailable
  | downBuffer _ | recvDownBuffer => some .buffer
  | _ => none

/-- The statement after a `sem_down`. -/
def afterDown : Point → Point
  | downSpace msg => .downBuffer msg
  | downBuffer msg => .addCheck msg
  | recvDownItems => .recvDownBuffer
  | recvDownBuffer => .removeCheck
  | p => p

/-- The semaphore of the `sem_up` that a task is at. -/
def ups : Point → Option QueueSem
  | upBuffer | recvUpBuffer => some .buffer
  | upItems => some .itemsAvailable
  | recvUpSpace => some .spaceAvailable
  | _ => none

/-- The statement after a `sem_up`. -/
def afterUp : Point → Point
  | upBuffer => .upItems
  | recvUpBuffer => .recvUpSpace
  | _ => .outside

/-- The `memcpy` of a call. -/
def copies : Point → Bool
  | addFirst _ | addCopy _ _ | removeCopy _ _ => true
  | _ => false

/-- The first statement of the semaphore function that a task is at. -/
def entry (p : Point) : SemPoint :=
  if p.downs.isSome then .down .lock else if p.ups.isSome then .up .lock else .outside

end Point

/-- A statement of `circular_buffer_add` or `circular_buffer_remove`, as in the run of the
statements of a whole queue. -/
def ringStatement (b : CircularBuffer) (p : Point) : Option (CircularBuffer × Point) :=
  (MQueueRun.statement ⟨⟨b, 0, 0, 0⟩, [p], [], []⟩ 0 p).map fun w =>
    (w.queue.buff, w.tasks.headD .outside)

/-- The task goes on at `p`. -/
def Caller.enter (c : Caller) (p : Point) : Caller := { c with point := p, inner := p.entry }

namespace Teardown

variable (w : Teardown)

/-- A queue of `maxMsgs` messages after `mqueue_create`, and all tasks outside. -/
def start (b : CircularBuffer) (maxMsgs : Int) : Teardown where
  buff := b
  sem
    | .spaceAvailable => ⟨false, queueCreate, maxMsgs, false⟩
    | .itemsAvailable => ⟨false, queueCreate, 0, false⟩
    | .buffer => ⟨false, queueCreate, 1, false⟩
  task := fun _ => ⟨.outside, .outside, false, false⟩
  destroyer := .idle

/-- `circular_buffer_destroy` has been executed. -/
def released : Bool := w.destroyer ≠ .idle

/-- Write a semaphore. -/
def setSem (i : QueueSem) (x : Semaphore) : Teardown :=
  { w with sem := Function.update w.sem i x }

/-- Write a task. -/
def setTask (t : Nat) (c : Caller) : Teardown := { w with task := Function.update w.task t c }

/-- Task `t` goes on at `p` in the function it is in. -/
def goto (t : Nat) (p : SemPoint) : Teardown := w.setTask t { w.task t with inner := p }

/-- Task `t` goes on at `p`; at the end of a call it returns `code`. -/
def goOn (t : Nat) (code : Int) (p : Point) : Teardown × List TeardownMark :=
  (w.setTask t ((w.task t).enter p), match p with
    | .outside => [.returned t code (w.task t).copied w.released]
    | _ => [])

/-- `task_awake`, which does nothing with `NULL` or a task that is not suspended. -/
def wake : Option Nat → Teardown
  | some u => w.setTask u { w.task u with asleep := false }
  | none => w

/-- Task `t` starts a call at `p`. -/
def call (t : Nat) (p : Point) : Option (Teardown × List TeardownMark) :=
  match (w.task t).point with
  | .outside => some (w.setTask t { (w.task t).enter p with copied := false }, [])
  | _ => none

/-- A statement of the `sem_down` of task `t`; after one that returns `ERROR` the call
returns. -/
def down (t : Nat) (i : QueueSem) : DownPoint → Teardown × List TeardownMark
  | .ret code => w.goOn t code (if code = error then .outside else (w.task t).point.afterDown)
  | .suspend => (w.setTask t { w.task t with inner := .down .relock, asleep := true }, [])
  | p =>
      let r := semDownStatement (w.sem i) t p
      ((w.setSem i r.1).goto t (.down r.2), [])

/-- A statement of the `sem_up` of task `t`; after one that returns `ERROR` the call
returns. -/
def up (t : Nat) (i : QueueSem) : UpPoint → Teardown × List TeardownMark
  | .ret code => w.goOn t code (if code = error then .outside else (w.task t).point.afterUp)
  | .awake u => ((w.wake u).goto t (.up (.ret noError)), [])
  | p =>
      let r := semUpStatement (w.sem i) p
      ((w.setSem i r.1).goto t (.up r.2), [])

/-- A statement of the ring; `circular_buffer_add` on a full ring ends the call. -/
def ring (t : Nat) : Option (Teardown × List TeardownMark) :=
  match ringStatement w.buff (w.task t).point with
  | some (b, p) =>
      let c := { w.task t with copied := (w.task t).copied || (w.task t).point.copies }
      let r := { w.setTask t c with buff := b }.goOn t error p
      some (r.1, .ring t w.released :: r.2)
  | none => none

/-- The next statement of task `t`. -/
def next (t : Nat) : Option (Teardown × List TeardownMark) :=
  if (w.task t).asleep then none
  else
    match (w.task t).inner with
    | .down p => (w.task t).point.downs.map fun i => w.down t i p
    | .up p => (w.task t).point.ups.map fun i => w.up t i p
    | .outside => w.ring t

/-- The next statement of `mqueue_destroy`. -/
def destroyNext : Option Teardown :=
  match w.destroyer with
  | .idle => some { w with
      buff := { w.buff with allocated := false }
      destroyer := .sem .spaceAvailable .lock }
  | .sem i (.awake u) => some { w.wake (some u) with destroyer := .sem i .head }
  | .sem .spaceAvailable .ret => some { w with destroyer := .sem .itemsAvailable .lock }
  | .sem _ .ret => some { w with destroyer := .free }
  | .sem i p =>
      let r := semDestroyStatement (w.sem i) p
      some { w.setSem i r.1 with destroyer := .sem i r.2 }
  -- mem_free(queue)
  | .free => some { w with destroyer := .done }
  | .done => none

/-- One event, with what it leaves behind. -/
def exec : TeardownEvent → Option (Teardown × List TeardownMark)
  | .send t msg => w.call t (.downSpace msg)
  | .recv t => w.call t .recvDownItems
  | .next t => w.next t
  | .destroy => w.destroyNext.map fun w' => (w', [])

def step (e : TeardownEvent) : Option Teardown := (w.exec e).map Prod.fst

def marks (e : TeardownEvent) : List TeardownMark := ((w.exec e).map Prod.snd).getD []

end Teardown

/-! ## The condition -/

/-- The task has got through the `sem_down` that it is in. -/
def SemPoint.through : SemPoint → Bool
  | .down .unlock => true
  | .down (.ret code) => code ≠ error
  | _ => false

/-- Before the first `sem_down` of a call has let it through, or after the copy and the end
of the ring operation. -/
def OffRing (c : Caller) : Prop :=
  match c.point with
  | .outside => True
  | .downSpace _ | .recvDownItems => c.inner.through = false
  | .upBuffer | .upItems | .recvUpBuffer | .recvUpSpace => c.copied = true
  | _ => False

/-- Once the ring is released, this statement lets nobody through a `sem_down`. -/
def HoldsBack (w : Teardown) (t : Nat) : Prop :=
  w.released = true → ∀ i ∈ (w.task t).point.downs,
    ((w.task t).inner = .down .negative → (w.sem i).value < 0) ∧
    ((w.task t).inner = .down .recheck → (w.sem i).destroy = true)

/-- The task that this statement passes to `task_awake`. -/
def Teardown.wakes (w : Teardown) : TeardownEvent → Option Nat
  | .next t =>
      match (w.task t).inner with
      | .up (.awake u) => u
      | _ => none
  | .destroy =>
      match w.destroyer with
      | .sem _ (.awake u) => some u
      | _ => none
  | _ => none

/-- The ring is released when everybody is off it. -/
def ReleaseSafe (w : Teardown) : TeardownEvent → Prop
  | .destroy => w.destroyer = .idle → ∀ t, OffRing (w.task t)
  | _ => True

/-- No statement of a task lets it through to a released ring, and every `task_awake` finds
its task suspended. -/
def StatementSafe (w : Teardown) (e : TeardownEvent) : Prop :=
  (∀ u ∈ w.wakes e, (w.task u).asleep = true) ∧
    match e with
    | .next t => HoldsBack w t
    | _ => True

/-- **The condition on a step**: the ring is released when everybody is off it, no first
`sem_down` lets anybody through between the release and the destruction of its semaphore,
and no wake-up comes before the suspension it is for. -/
def TeardownSafe (w : Teardown) (e : TeardownEvent) : Prop := ReleaseSafe w e ∧ StatementSafe w e

/-- No ring operation after the release, and `ERROR` from a call that has copied
nothing. -/
def SafeMark : TeardownMark → Prop
  | .ring _ released => released = false
  | .returned _ code copied released => released = true → copied = false → code = error

/-! ## The invariant -/

namespace SemPoint

/-- Past the test of `destroy`, and not yet out of the critical section. -/
def adding : SemPoint → Bool
  | .down .value | .down .negative | .down .add | .down .release => true
  | _ => false

end SemPoint

namespace SemDestroyPoint

/-- The semaphore is marked as destroyed. -/
def marked : SemDestroyPoint → Bool
  | .lock | .mark => false
  | _ => true

/-- The wait queue has been found empty. -/
def emptied : SemDestroyPoint → Bool
  | .unlock none | .loop none | .ret => true
  | _ => false

end SemDestroyPoint

namespace DestroyPoint

/-- What is to be seen of the semaphore `i`, where `f` says it of the one that is being
destroyed: it is true of those that have been. -/
def of (f : SemDestroyPoint → Bool) : DestroyPoint → QueueSem → Bool
  | .idle, _ => false
  | .sem j p, i => if i = j then f p else j == .itemsAvailable && i == .spaceAvailable
  | .free, i | .done, i => i != .buffer

end DestroyPoint

/-- The semaphore of a statement. -/
def Point.semaphore (p : Point) : Option QueueSem := p.downs.or p.ups

/-- The task waits for the semaphore `i`: it is about to suspend itself or has done so. -/
def Waits (c : Caller) (i : QueueSem) : Prop :=
  c.point.downs = some i ∧ (c.inner.enqueued = true ∨ c.asleep = true)

/-- The task is in the function that its call is at. -/
def AtFunction (c : Caller) : Prop :=
  match c.inner with
  | .outside => c.point.downs = none ∧ c.point.ups = none
  | .down _ => c.point.downs.isSome = true
  | .up _ => c.point.downs = none ∧ c.point.ups.isSome = true

namespace Teardown

variable (w : Teardown)

/-- Who is in the critical section of the semaphore `i`; `none` is the destroyer. -/
def locks (i : QueueSem) : Option Nat → Bool
  | some t => (w.task t).inner.locked && decide ((w.task t).point.semaphore = some i)
  | none =>
      match w.destroyer with
      | .sem j p => p.locked && decide (j = i)
      | _ => false

/-- The task has been taken out of a wait queue and is still to be woken. -/
def Held (t : Nat) : Prop :=
  (∃ v, (w.task v).inner.holds = some t) ∨ ∃ i, w.destroyer = .sem i (.awake t)

end Teardown

/-- The locks exclude, and whoever waits is in the wait queue or about to be woken; the wait
queues of the destroyed semaphores are empty, and nobody is on the way to a copy once the
ring is released. -/
structure TeardownInv (w : Teardown) : Prop where
  matched : ∀ t, AtFunction (w.task t)
  mutex : ∀ i, Exclusive (w.sem i) (w.locks i)
  asleep : ∀ t, (w.task t).asleep = true → (w.task t).inner = .down .relock
  waiting : ∀ t i, Waits (w.task t) i → t ∈ (w.sem i).waitQueue.items ∨ w.Held t
  destroyed : ∀ i, (w.sem i).destroy = w.destroyer.of SemDestroyPoint.marked i
  adding : ∀ t i, (w.task t).point.downs = some i → (w.task t).inner.adding = true →
    (w.sem i).destroy = false
  empty : ∀ i, w.destroyer.of SemDestroyPoint.emptied i = true → (w.sem i).waitQueue.items = []
  counting : ∀ i p, w.destroyer = .sem i p → i ≠ .buffer
  settled : w.released = true → ∀ t, OffRing (w.task t)

variable {w w' : Teardown} {t u : Nat} {i : QueueSem} {x : Semaphore} {p q : SemPoint}
  {c : Caller} {dp : SemDestroyPoint}

/-- A wait queue is found empty only after the mark. -/
theorem DestroyPoint.marked_of_emptied {d : DestroyPoint}
    (h : d.of SemDestroyPoint.emptied i = true) : d.of SemDestroyPoint.marked i = true := by
  cases d with
  | sem j p =>
      simp only [DestroyPoint.of] at h ⊢
      split at h
      · rename_i hij
        rw [if_pos hij]
        cases p <;> simp_all [SemDestroyPoint.emptied, SemDestroyPoint.marked]
      · rename_i hij
        rw [if_neg hij]
        exact h
  | _ => exact h

/-- **A statement on a semaphore**: task `t` goes from `q` to `p` in the function that it is
in, and the semaphore becomes `x`. -/
theorem TeardownInv.statement (h : TeardownInv w) (hi : (w.task t).point.semaphore = some i)
    (hq : (w.task t).inner = q) (hawake : (w.task t).asleep = false)
    (hmatch : AtFunction { w.task t with inner := p })
    (hlock : KeepsLock (w.sem i) x q.locked p.locked)
    (hitems : ∀ u ∈ (w.sem i).waitQueue.items, u ∈ x.waitQueue.items ∨ p.holds = some u)
    (hwaits : p.enqueued = true → q.enqueued = true ∨ t ∈ x.waitQueue.items)
    (hholds : ∀ u, q.holds = some u → p.holds = some u)
    (hdestroy : x.destroy = (w.sem i).destroy) (hadding : p.adding = true → x.destroy = false)
    (hempty : (w.sem i).destroy = true → (w.sem i).waitQueue.items = [] →
      x.waitQueue.items = [])
    (hoff : w.released = true → OffRing { w.task t with inner := p }) :
    TeardownInv ((w.setSem i x).goto t p) := by
  have hself : ((w.setSem i x).goto t p).task t = { w.task t with inner := p } :=
    Function.update_self ..
  have hother : ∀ y, y ≠ t → ((w.setSem i x).goto t p).task y = w.task y := fun y hy =>
    Function.update_of_ne hy ..
  have hsem : ((w.setSem i x).goto t p).sem i = x := Function.update_self ..
  have hsems : ∀ j, j ≠ i → ((w.setSem i x).goto t p).sem j = w.sem j := fun j hj =>
    Function.update_of_ne hj ..
  have hdowns : ∀ j, (w.task t).point.downs = some j → j = i := by
    intro j hj
    rw [Point.semaphore, hj] at hi
    exact Option.some.inj hi
  have hheld : ∀ y, w.Held y → ((w.setSem i x).goto t p).Held y := by
    rintro y (⟨v, hv⟩ | hd)
    · left
      refine ⟨v, ?_⟩
      by_cases hvt : v = t
      · rw [hvt, hself]
        exact hholds y (by rw [← hq, ← hvt]; exact hv)
      · rw [hother v hvt]
        exact hv
    · exact Or.inr hd
  have hkeeps : ∀ y j, Waits (w.task y) j →
      y ∈ (((w.setSem i x).goto t p).sem j).waitQueue.items ∨ ((w.setSem i x).goto t p).Held y := by
    intro y j hy
    rcases h.waiting y j hy with hin | hheld'
    · by_cases hj : j = i
      · subst hj
        rw [hsem]
        refine (hitems y hin).imp_right fun hp => Or.inl ⟨t, ?_⟩
        rw [hself]
        exact hp
      · rw [hsems j hj]
        exact Or.inl hin
    · exact Or.inr (hheld y hheld')
  -- the critical sections
  have hbefore : w.locks i (some t) = q.locked := by simp [Teardown.locks, hi, hq]
  have hafter : ((w.setSem i x).goto t p).locks i (some t) = p.locked := by
    simp [Teardown.locks, hself, hi]
  have hothers : ∀ b, b ≠ some t → ((w.setSem i x).goto t p).locks i b = w.locks i b := by
    intro b hb
    cases b with
    | none => rfl
    | some y => simp only [Teardown.locks, hother y fun hyt => hb (hyt ▸ rfl)]
  have hsame : ∀ j, j ≠ i → ((w.setSem i x).goto t p).locks j = w.locks j := by
    intro j hj
    funext b
    cases b with
    | none => rfl
    | some y =>
        by_cases hyt : y = t
        · simp only [Teardown.locks, hyt, hself, hi]
          simp [Ne.symm hj]
        · simp only [Teardown.locks, hother y hyt]
  refine ⟨fun y => ?_, fun j => ?_, fun y hy => ?_, fun y j hy => ?_, fun j => ?_,
    fun y j hy hadd => ?_, fun j hj => ?_, h.counting, fun hr y => ?_⟩
  · by_cases hyt : y = t
    · rw [hyt, hself]
      exact hmatch
    · rw [hother y hyt]
      exact h.matched y
  · by_cases hj : j = i
    · subst hj
      rw [hsem]
      exact (h.mutex j).move hafter hothers (hbefore ▸ hlock)
    · rw [hsems j hj, hsame j hj]
      exact h.mutex j
  · by_cases hyt : y = t
    · rw [hyt, hself] at hy
      exact absurd (hawake.symm.trans hy) (by decide)
    · rw [hother y hyt] at hy ⊢
      exact h.asleep y hy
  · by_cases hyt : y = t
    · subst hyt
      rw [hself] at hy
      obtain ⟨hpoint, henq⟩ := hy
      have hp : p.enqueued = true := henq.resolve_right (by simp [hawake])
      rcases hwaits hp with hqe | hin
      · exact hkeeps y j ⟨hpoint, Or.inl (hq ▸ hqe)⟩
      · rw [hdowns j hpoint, hsem]
        exact Or.inl hin
    · rw [hother y hyt] at hy
      exact hkeeps y j hy
  · by_cases hj : j = i
    · rw [hj, hsem, hdestroy]
      exact h.destroyed i
    · rw [hsems j hj]
      exact h.destroyed j
  · by_cases hyt : y = t
    · subst hyt
      rw [hself] at hy hadd
      rw [hdowns j hy, hsem]
      exact hadding hadd
    · rw [hother y hyt] at hy hadd
      by_cases hj : j = i
      · rw [hj, hsem, hdestroy]
        exact h.adding y i (hj ▸ hy) hadd
      · rw [hsems j hj]
        exact h.adding y j hy hadd
  · by_cases hji : j = i
    · subst hji
      rw [hsem]
      refine hempty ?_ (h.empty j hj)
      rw [h.destroyed]
      exact DestroyPoint.marked_of_emptied hj
    · rw [hsems j hji]
      exact h.empty j hj
  · by_cases hyt : y = t
    · rw [hyt, hself]
      exact hoff hr
    · rw [hother y hyt]
      exact h.settled hr y

/-- **A task outside of the critical sections** goes on as `c`, which waits no more than it
did and wakes whom it had to wake. -/
theorem TeardownInv.setTask (h : TeardownInv w) (hmatch : AtFunction c)
    (hold : (w.task t).inner.locked = false) (hlock : c.inner.locked = false)
    (hasleep : c.asleep = true → c.inner = .down .relock)
    (hwaits : ∀ i, Waits c i → Waits (w.task t) i)
    (hholds : ∀ u, (w.task t).inner.holds = some u →
      c.inner.holds = some u ∨ (u ≠ t ∧ ∀ i, ¬ Waits (w.task u) i))
    (hadding : c.inner.adding = false) (hoff : w.released = true → OffRing c) :
    TeardownInv (w.setTask t c) := by
  have hself : (w.setTask t c).task t = c := Function.update_self ..
  have hother : ∀ y, y ≠ t → (w.setTask t c).task y = w.task y := fun y hy =>
    Function.update_of_ne hy ..
  have hkeeps : ∀ y j, Waits (w.task y) j → (y = t → Waits c j) →
      y ∈ (w.sem j).waitQueue.items ∨ (w.setTask t c).Held y := by
    intro y j hy hyt
    refine (h.waiting y j hy).imp_right ?_
    rintro (⟨v, hv⟩ | hd)
    · left
      by_cases hvt : v = t
      · refine ⟨t, ?_⟩
        rw [hself]
        rcases hholds y (hvt ▸ hv) with hc | ⟨-, hnone⟩
        · exact hc
        · exact absurd hy (hnone j)
      · refine ⟨v, ?_⟩
        rw [hother v hvt]
        exact hv
    · exact Or.inr hd
  have hsame : (w.setTask t c).locks = w.locks := by
    funext j b
    cases b with
    | none => rfl
    | some y =>
        by_cases hyt : y = t
        · simp [Teardown.locks, hyt, hself, hlock, hold]
        · simp only [Teardown.locks, hother y hyt]
  refine ⟨fun y => ?_, hsame ▸ h.mutex, fun y hy => ?_, fun y j hy => ?_, h.destroyed,
    fun y j hy hadd => ?_, h.empty, h.counting, fun hr y => ?_⟩
  · by_cases hyt : y = t
    · rw [hyt, hself]
      exact hmatch
    · rw [hother y hyt]
      exact h.matched y
  · by_cases hyt : y = t
    · rw [hyt, hself] at hy ⊢
      exact hasleep hy
    · rw [hother y hyt] at hy ⊢
      exact h.asleep y hy
  · by_cases hyt : y = t
    · rw [hyt, hself] at hy
      rw [hyt]
      exact hkeeps t j (hwaits j hy) fun _ => hy
    · rw [hother y hyt] at hy
      exact hkeeps y j hy fun heq => absurd heq hyt
  · by_cases hyt : y = t
    · rw [hyt, hself, hadding] at hadd
      exact absurd hadd (by decide)
    · rw [hother y hyt] at hy hadd
      exact h.adding y j hy hadd
  · by_cases hyt : y = t
    · rw [hyt, hself]
      exact hoff hr
    · rw [hother y hyt]
      exact h.settled hr y

/-- A point and its first statement belong together, outside of the critical section. -/
theorem enter_facts (c : Caller) (p : Point) : AtFunction (c.enter p) ∧
    (c.enter p).inner.locked = false ∧ (c.enter p).inner.enqueued = false ∧
      (c.enter p).inner.adding = false := by
  cases p <;> simp [Caller.enter, AtFunction, Point.entry, Point.downs, Point.ups, SemPoint.locked,
    SemPoint.enqueued, SemPoint.adding]

/-- **A task goes on** at `p` after the end of a function. -/
theorem TeardownInv.enter (h : TeardownInv w) {p : Point} (copied : Bool)
    (hawake : (w.task t).asleep = false)
    (hold : (w.task t).inner.locked = false) (hholds : (w.task t).inner.holds = none)
    (hoff : w.released = true → OffRing { (w.task t).enter p with copied := copied }) :
    TeardownInv (w.setTask t { (w.task t).enter p with copied := copied }) := by
  obtain ⟨hmatch, hlock, henq, hadding⟩ := enter_facts (w.task t) p
  refine h.setTask hmatch hold hlock (fun hy => absurd (hawake.symm.trans hy) (by decide))
    (fun j hy => ?_) (fun u hu => absurd (hholds.symm.trans hu) (by simp)) hadding hoff
  rcases hy.2 with he | ha
  · exact absurd (henq.symm.trans he) (by decide)
  · exact absurd (hawake.symm.trans ha) (by decide)

/-- Before the first statement of a function nobody is through it. -/
theorem enter_through (c : Caller) (p : Point) : (c.enter p).inner.through = false := by
  cases p <;> rfl

/-- **`task_awake`** of a suspended task: it waits no longer. -/
theorem TeardownInv.wake (h : TeardownInv w) (hu : (w.task u).asleep = true) :
    TeardownInv (w.wake (some u)) ∧ ∀ i, ¬ Waits ((w.wake (some u)).task u) i := by
  have hinner := h.asleep u hu
  refine ⟨h.setTask ?_ ?_ ?_ (fun ha => absurd ha (by simp)) (fun i hi => ?_) (fun y hy => ?_) ?_
    fun hr => ?_, fun i hi => ?_⟩
  · have hm := h.matched u
    rw [AtFunction, hinner] at hm ⊢
    exact hm
  · rw [hinner]
    rfl
  · change (w.task u).inner.locked = false
    rw [hinner]
    rfl
  · exact ⟨hi.1, Or.inr hu⟩
  · rw [hinner] at hy
    exact absurd hy (by simp [SemPoint.holds])
  · change (w.task u).inner.adding = false
    rw [hinner]
    rfl
  · have hs := h.settled hr u
    unfold OffRing at hs ⊢
    exact hs
  · rw [show (w.wake (some u)).task u = { w.task u with asleep := false } from
      Function.update_self ..] at hi
    obtain ⟨-, henq⟩ := hi
    rw [hinner] at henq
    exact absurd henq (by simp [SemPoint.enqueued])

/-! ## The statements of a task -/

/-- Whatever the step leaves keeps the invariant and is safe. -/
def Keeps (o : Option (Teardown × List TeardownMark)) : Prop :=
  ∀ r, o = some r → TeardownInv r.1 ∧ ∀ m ∈ r.2, SafeMark m

/-- Who is off the ring inside a `sem_down` is inside the first of its call, and not through
it. -/
theorem OffRing.down (hs : OffRing c) (hd : c.point.downs = some i) :
    i ≠ .buffer ∧ c.inner.through = false ∧
      ∀ q : SemPoint, q.through = false → OffRing { c with inner := q } := by
  obtain ⟨point, inner, asleep, copied⟩ := c
  cases point with
  | downSpace _ | recvDownItems =>
      obtain rfl := Option.some.inj hd
      exact ⟨by decide, hs, fun q hq => hq⟩
  | downBuffer _ | recvDownBuffer => exact absurd hs id
  | _ => exact absurd hd (by simp [Point.downs])

/-- Who is off the ring inside a `sem_up` has copied. -/
theorem OffRing.up (hs : OffRing c) (hu : c.point.ups = some i) :
    c.copied = true ∧ (∀ q : SemPoint, OffRing { c with inner := q }) ∧
      OffRing (c.enter c.point.afterUp) := by
  obtain ⟨point, inner, asleep, copied⟩ := c
  cases point with
  | upBuffer | upItems | recvUpBuffer | recvUpSpace => exact ⟨hs, fun _ => hs, by first
    | exact hs
    | trivial⟩
  | _ => exact absurd hu (by simp [Point.ups])

theorem goOn_marks {code : Int} {p : Point} {m : TeardownMark} (hm : m ∈ (w.goOn t code p).2) :
    p = .outside ∧ m = .returned t code (w.task t).copied w.released := by
  cases p with
  | outside => exact ⟨rfl, List.mem_singleton.mp hm⟩
  | _ => exact absurd hm List.not_mem_nil

/-- **The end of a function.** -/
theorem TeardownInv.goOn (h : TeardownInv w) (code : Int) (p : Point)
    (hawake : (w.task t).asleep = false) (hold : (w.task t).inner.locked = false)
    (hholds : (w.task t).inner.holds = none)
    (hoff : w.released = true → OffRing ((w.task t).enter p) ∧
      ((w.task t).copied = false → code = error)) : Keeps (some (w.goOn t code p)) := by
  intro r hr
  obtain rfl := Option.some.inj hr
  refine ⟨h.enter (w.task t).copied hawake hold hholds fun hrel => (hoff hrel).1,
    fun m hm => ?_⟩
  obtain ⟨-, rfl⟩ := goOn_marks hm
  exact fun hrel hc => (hoff hrel).2 hc

/-- The flag was seen down by whoever is past its test. -/
theorem semDownStatement_adding {p : DownPoint}
    (hp : (SemPoint.down p).adding = true → x.destroy = false)
    (hr : (SemPoint.down (semDownStatement x t p).2).adding = true) : x.destroy = false := by
  cases p with
  | value | negative | add | release => exact hp rfl
  | destroyed =>
      by_contra hd
      rw [Bool.not_eq_false] at hd
      exact absurd hr (by simp [semDownStatement, hd, SemPoint.adding])
  | recheck =>
      simp only [semDownStatement] at hr
      split at hr <;> exact absurd hr (by decide)
  | lock | relock =>
      simp only [semDownStatement, spinStatement] at hr
      split at hr <;> exact absurd hr Bool.false_ne_true
  | _ => exact absurd hr (by simp [semDownStatement, SemPoint.adding])

/-- Who gets through a `sem_down` does so at one of the two tests. -/
theorem semDownStatement_through {p : DownPoint} (hp : (SemPoint.down p).through = false)
    (hv : p = .negative → x.value < 0) (hd : p = .recheck → x.destroy = true) :
    (SemPoint.down (semDownStatement x t p).2).through = false := by
  cases p with
  | negative => rw [semDownStatement, if_pos (hv rfl)]; rfl
  | recheck => rw [semDownStatement, if_pos (hd rfl)]; rfl
  | destroyed => simp only [semDownStatement]; split <;> rfl
  | lock | relock => simp only [semDownStatement, spinStatement]; split <;> rfl
  | unlock => exact absurd hp (by decide)
  | ret code => exact hp
  | _ => rfl

/-- **A statement of a `sem_down`.** -/
theorem TeardownInv.down (h : TeardownInv w) {p : DownPoint}
    (hd : (w.task t).point.downs = some i) (hq : (w.task t).inner = .down p)
    (hawake : (w.task t).asleep = false) (hback : HoldsBack w t) : Keeps (some (w.down t i p)) := by
  have hi : (w.task t).point.semaphore = some i := by rw [Point.semaphore, hd]; rfl
  have hmatch : ∀ p', AtFunction { w.task t with inner := .down p' } := fun _ => by
    simp [AtFunction, hd]
  have hadd : (SemPoint.down p).adding = true → (w.sem i).destroy = false := fun ha =>
    h.adding t i hd (hq ▸ ha)
  have hoff : w.released = true → i ≠ .buffer ∧ (SemPoint.down p).through = false ∧
      ∀ q : SemPoint, q.through = false → OffRing { w.task t with inner := q } := fun hr =>
    hq ▸ (h.settled hr t).down hd
  have hgeneric : (∀ code, p ≠ .ret code) → p ≠ .suspend →
      TeardownInv ((w.setSem i (semDownStatement (w.sem i) t p).1).goto t
        (.down (semDownStatement (w.sem i) t p).2)) := by
    intro hret hsuspend
    refine h.statement hi hq hawake (hmatch _) (semDownStatement_lock _ _ _) (fun u hu => ?_) ?_
      (fun u hu => absurd hu (by simp [SemPoint.holds])) (semDownStatement_destroy ..)
      (fun ha => ?_) (fun hdead hnil => ?_) fun hr => ?_
    · rw [semDownStatement_items]
      exact Or.inl (List.mem_append_left _ hu)
    · intro henq
      cases p with
      | add => exact Or.inr (by rw [semDownStatement_items]; simp)
      | release => exact Or.inl rfl
      | lock | relock =>
          simp only [semDownStatement, spinStatement] at henq
          split at henq <;> exact absurd henq Bool.false_ne_true
      | destroyed | negative | recheck =>
          simp only [semDownStatement] at henq
          split at henq <;> exact absurd henq (by decide)
      | _ => exact absurd henq (by simp [semDownStatement, SemPoint.enqueued])
    · rw [semDownStatement_destroy]
      exact semDownStatement_adding hadd ha
    · rw [semDownStatement_items, hnil, if_neg]
      · rfl
      · rintro rfl
        exact absurd (hdead.symm.trans (hadd rfl)) (by decide)
    · obtain ⟨-, hthrough, hstay⟩ := hoff hr
      obtain ⟨hneg, hre⟩ := hback hr i hd
      exact hstay _ (semDownStatement_through hthrough (fun hp => hneg (hp ▸ hq))
        fun hp => hre (hp ▸ hq))
  cases p with
  | ret code =>
      refine h.goOn code _ hawake (by rw [hq]; rfl) (by rw [hq]; rfl) fun hr => ?_
      obtain ⟨-, hthrough, -⟩ := hoff hr
      have hcode : code = error := by simpa [SemPoint.through] using hthrough
      rw [if_pos hcode]
      exact ⟨trivial, fun _ => hcode⟩
  | suspend =>
      intro r hr
      obtain rfl := Option.some.inj hr
      refine ⟨h.setTask (hmatch .relock) (by rw [hq]; rfl) rfl (fun _ => rfl) (fun j hj => ?_)
        (fun u hu => ?_) rfl fun hr => ?_, fun m hm => absurd hm List.not_mem_nil⟩
      · exact ⟨hj.1, Or.inl (by rw [hq]; rfl)⟩
      · rw [hq] at hu
        exact absurd hu (by simp [SemPoint.holds])
      · have hstay := (hoff hr).2.2 (.down .relock) rfl
        unfold OffRing at hstay ⊢
        exact hstay
  | _ =>
      intro r hr
      obtain rfl := Option.some.inj hr
      exact ⟨hgeneric (by simp) (by simp), fun m hm => absurd hm List.not_mem_nil⟩

/-- **A statement of a `sem_up`.** -/
theorem TeardownInv.up (h : TeardownInv w) {p : UpPoint}
    (hu : (w.task t).point.ups = some i) (hq : (w.task t).inner = .up p)
    (hawake : (w.task t).asleep = false)
    (hwakes : ∀ u, p = .awake (some u) → (w.task u).asleep = true) :
    Keeps (some (w.up t i p)) := by
  have hm : (w.task t).point.downs = none := by
    have hm := h.matched t
    rw [AtFunction, hq] at hm
    exact hm.1
  have hi : (w.task t).point.semaphore = some i := by rw [Point.semaphore, hm, hu]; rfl
  have hmatch : ∀ p', AtFunction { w.task t with inner := .up p' } := fun _ => by
    simp [AtFunction, hm, hu]
  have hoff : w.released = true → (w.task t).copied = true ∧
      (∀ q : SemPoint, OffRing { w.task t with inner := q }) ∧
      OffRing ((w.task t).enter (w.task t).point.afterUp) := fun hr => (h.settled hr t).up hu
  have hgeneric : (∀ wake, p ≠ .awake wake) →
      TeardownInv ((w.setSem i (semUpStatement (w.sem i) p).1).goto t
        (.up (semUpStatement (w.sem i) p).2)) := by
    intro hawake'
    refine h.statement hi hq hawake (hmatch _) (semUpStatement_lock _ _)
      (fun y hy => semUpStatement_items p hy) (fun henq => absurd henq Bool.false_ne_true)
      (fun y hy => ?_) (semUpStatement_destroy ..) (fun ha => absurd ha Bool.false_ne_true)
      (fun _ hnil => semUpStatement_nil p hnil) fun hr => (hoff hr).2.1 _
    cases p with
    | unlock wake => exact hy
    | awake wake => exact absurd rfl (hawake' wake)
    | _ => exact absurd hy (by simp [SemPoint.holds])
  cases p with
  | ret code =>
      refine h.goOn code _ hawake (by rw [hq]; rfl) (by rw [hq]; rfl) fun hr => ?_
      obtain ⟨hcopied, -, hnext⟩ := hoff hr
      refine ⟨?_, fun hc => absurd (hcopied.symm.trans hc) (by decide)⟩
      split
      · trivial
      · exact hnext
  | awake wake =>
      intro r hr
      obtain rfl := Option.some.inj hr
      refine ⟨?_, fun m hm => absurd hm List.not_mem_nil⟩
      cases wake with
      | none =>
          refine h.setTask (hmatch _) (by rw [hq]; rfl) rfl (fun ha => ?_) (fun j hj => ?_)
            (fun y hy => ?_) rfl fun hr => (hoff hr).2.1 _
          · exact absurd (hawake.symm.trans ha) (by decide)
          · exact absurd (hm.symm.trans hj.1) (by simp)
          · rw [hq] at hy
            exact absurd hy (by simp [SemPoint.holds])
      | some u =>
          have hasleep := hwakes u rfl
          have hut : u ≠ t := by
            rintro rfl
            exact absurd (hawake.symm.trans hasleep) (by decide)
          obtain ⟨hw, hnone⟩ := h.wake hasleep
          have hsame : (w.wake (some u)).task t = w.task t := Function.update_of_ne (Ne.symm hut) ..
          refine hw.setTask ?_ (by rw [hsame, hq]; rfl) rfl (fun ha => ?_) (fun j hj => ?_)
            (fun y hy => ?_) rfl fun hr => ?_
          · rw [hsame]
            exact hmatch _
          · rw [hsame] at ha
            exact absurd (hawake.symm.trans ha) (by decide)
          · rw [hsame] at hj
            exact absurd (hm.symm.trans hj.1) (by simp)
          · rw [hsame, hq] at hy
            obtain rfl := Option.some.inj (show some u = some y from hy)
            exact Or.inr ⟨hut, hnone⟩
          · rw [hsame]
            exact (hoff hr).2.1 _
  | _ =>
      intro r hr
      obtain rfl := Option.some.inj hr
      exact ⟨hgeneric (by simp), fun m hm => absurd hm List.not_mem_nil⟩

/-- **A statement of the ring** is executed before the release only. -/
theorem TeardownInv.ring (h : TeardownInv w) (hawake : (w.task t).asleep = false)
    (hq : (w.task t).inner = .outside) : Keeps (w.ring t) := by
  intro r hr
  rw [Teardown.ring] at hr
  split at hr
  · next b p hst =>
    obtain rfl := Option.some.inj hr
    have hm := h.matched t
    rw [AtFunction, hq] at hm
    have hbefore : w.released = false := by
      by_contra hrel
      have hs := h.settled (by simpa using hrel) t
      obtain ⟨hdowns, hups⟩ := hm
      unfold OffRing at hs
      cases hp : (w.task t).point with
      | outside =>
          rw [hp] at hst
          exact absurd hst (by simp [ringStatement, MQueueRun.statement])
      | downSpace _ | recvDownItems =>
          rw [hp] at hdowns
          exact absurd hdowns (by simp [Point.downs])
      | upBuffer | upItems | recvUpBuffer | recvUpSpace =>
          rw [hp] at hups
          exact absurd hups (by simp [Point.ups])
      | _ =>
          rw [hp] at hs
          exact hs
    have hno : ∀ {P : Prop}, w.released = true → P := fun hr =>
      absurd (hbefore.symm.trans hr) (by decide)
    have hbuff : ∀ {w₁ : Teardown}, TeardownInv w₁ → TeardownInv { w₁ with buff := b } :=
      fun h₁ => ⟨h₁.matched, h₁.mutex, h₁.asleep, h₁.waiting, h₁.destroyed, h₁.adding, h₁.empty,
        h₁.counting, h₁.settled⟩
    let c := { w.task t with copied := (w.task t).copied || (w.task t).point.copies }
    have hinner : c.inner = .outside := hq
    have hset : TeardownInv (w.setTask t c) :=
      h.setTask (h.matched t) (by rw [hq]; rfl) (by rw [hinner]; rfl) (h.asleep t)
        (fun _ hj => hj) (fun _ hy => Or.inl hy) (by rw [hinner]; rfl) hno
    have hself : ({ w.setTask t c with buff := b } : Teardown).task t = c :=
      Function.update_self ..
    obtain ⟨hkeep, hmarks⟩ := @TeardownInv.goOn _ t (hbuff hset) error p
      (by rw [hself]; exact hawake) (by rw [hself, hinner]; rfl) (by rw [hself, hinner]; rfl) hno
      _ rfl
    refine ⟨hkeep, fun m hm => ?_⟩
    rcases List.mem_cons.mp hm with rfl | hm
    · exact hbefore
    · exact hmarks m hm
  · exact absurd hr (by simp)

/-- **A call starts.** -/
theorem TeardownInv.call (h : TeardownInv w) {p : Point}
    (hoff : OffRing { (w.task t).enter p with copied := false }) : Keeps (w.call t p) := by
  intro r hr
  rw [Teardown.call] at hr
  split at hr
  · rename_i hpoint
    obtain rfl := Option.some.inj hr
    have hq : (w.task t).inner = .outside := by
      have hm := h.matched t
      cases hinner : (w.task t).inner with
      | outside => rfl
      | down _ | up _ =>
          rw [AtFunction, hinner, hpoint] at hm
          exact absurd hm (by simp [Point.downs, Point.ups])
    have hawake : (w.task t).asleep = false := by
      by_contra ha
      have hrelock := h.asleep t (by simpa using ha)
      rw [hq] at hrelock
      exact absurd hrelock (by simp)
    exact ⟨h.enter false hawake (by rw [hq]; rfl) (by rw [hq]; rfl) fun _ => hoff,
      fun m hm => absurd hm List.not_mem_nil⟩
  · exact absurd hr (by simp)

/-! ## The statements of `mqueue_destroy` -/

theorem semDestroyStatement_marked (h : x.destroy = dp.marked) :
    (semDestroyStatement x dp).1.destroy = (semDestroyStatement x dp).2.marked := by
  cases dp with
  | lock =>
      simp only [semDestroyStatement, spinStatement]
      split <;> exact h
  | loop wake =>
      cases wake with
      | none => exact h
      | some t =>
          simp only [semDestroyStatement, spinStatement]
          split <;> exact h
  | mark => rfl
  | _ => exact h

/-- Only the mark raises the flag. -/
theorem semDestroyStatement_destroy (hp : dp ≠ .mark) :
    (semDestroyStatement x dp).1.destroy = x.destroy := by
  cases dp with
  | mark => exact absurd rfl hp
  | lock =>
      simp only [semDestroyStatement, spinStatement]
      split <;> rfl
  | loop wake =>
      cases wake with
      | none => rfl
      | some t =>
          simp only [semDestroyStatement, spinStatement]
          split <;> rfl
  | _ => rfl

/-- The loop of `sem_destroy` ends with an empty wait queue. -/
theorem semDestroyStatement_emptied (h : dp.emptied = true → x.waitQueue.items = [])
    (hr : (semDestroyStatement x dp).2.emptied = true) :
    (semDestroyStatement x dp).1.waitQueue.items = [] := by
  cases dp with
  | head =>
      rw [semDestroyStatement, queueHead_items]
      cases hq : (queueHead x.waitQueue).1 with
      | none => exact List.head?_eq_none_iff.mp hq
      | some t =>
          rw [semDestroyStatement, hq] at hr
          exact absurd hr Bool.false_ne_true
  | lock =>
      simp only [semDestroyStatement, spinStatement] at hr
      split at hr <;> exact absurd hr Bool.false_ne_true
  | unlock wake =>
      cases wake with
      | none => exact h rfl
      | some t => exact absurd hr Bool.false_ne_true
  | loop wake =>
      cases wake with
      | none => exact h rfl
      | some t =>
          simp only [semDestroyStatement, spinStatement] at hr
          split at hr <;> exact absurd hr Bool.false_ne_true
  | ret => exact h rfl
  | _ => exact absurd hr Bool.false_ne_true

/-- **A statement on the semaphore** that is being destroyed. -/
theorem TeardownInv.destroySem (h : TeardownInv w) (hd : w.destroyer = .sem i dp)
    (hp : ∀ u, dp ≠ .awake u) : TeardownInv { w.setSem i (semDestroyStatement (w.sem i) dp).1 with
      destroyer := .sem i (semDestroyStatement (w.sem i) dp).2 } := by
  generalize hw' : ({ w.setSem i (semDestroyStatement (w.sem i) dp).1 with
    destroyer := .sem i (semDestroyStatement (w.sem i) dp).2 } : Teardown) = w'
  have htask : w'.task = w.task := by subst hw'; rfl
  have hd' : w'.destroyer = .sem i (semDestroyStatement (w.sem i) dp).2 := by subst hw'; rfl
  have hsem : w'.sem i = (semDestroyStatement (w.sem i) dp).1 := by
    subst hw'
    exact Function.update_self ..
  have hsems : ∀ j, j ≠ i → w'.sem j = w.sem j := by
    subst hw'
    exact fun j hj => Function.update_of_ne hj ..
  -- the critical sections
  have hbefore : w.locks i none = dp.locked := by simp [Teardown.locks, hd]
  have hafter : w'.locks i none = (semDestroyStatement (w.sem i) dp).2.locked := by
    simp [Teardown.locks, hd']
  have hothers : ∀ j, ∀ b, b ≠ none → w'.locks j b = w.locks j b := by
    intro j b hb
    cases b with
    | none => exact absurd rfl hb
    | some y => simp only [Teardown.locks, htask]
  have hsame : ∀ j, j ≠ i → w'.locks j = w.locks j := by
    intro j hj
    funext b
    cases b with
    | none => simp [Teardown.locks, hd, hd', Ne.symm hj]
    | some y => exact hothers j _ (by simp)
  have hdestroyed := h.destroyed i
  rw [hd, DestroyPoint.of, if_pos rfl] at hdestroyed
  refine ⟨htask ▸ h.matched, fun j => ?_, htask ▸ h.asleep, fun y j hy => ?_, fun j => ?_,
    fun y j hy hadd => ?_, fun j hj => ?_, fun j q hq => ?_,
    fun _ => htask ▸ h.settled (by simp [Teardown.released, hd])⟩
  · by_cases hj : j = i
    · subst hj
      rw [hsem]
      exact (h.mutex j).move hafter (hothers j) (hbefore ▸ semDestroyStatement_lock (w.sem j) dp)
    · rw [hsems j hj, hsame j hj]
      exact h.mutex j
  · rw [htask] at hy
    rcases h.waiting y j hy with hin | ⟨v, hv⟩ | ⟨k, hk⟩
    · by_cases hj : j = i
      · subst hj
        rw [hsem]
        refine (semDestroyStatement_items dp hin).imp_right fun hawake => Or.inr ⟨j, ?_⟩
        rw [hd', hawake]
      · rw [hsems j hj]
        exact Or.inl hin
    · exact Or.inr (Or.inl ⟨v, by rw [htask]; exact hv⟩)
    · rw [hd] at hk
      injection hk with _ hk
      exact absurd hk (hp y)
  · by_cases hj : j = i
    · rw [hj, hsem, hd', DestroyPoint.of, if_pos rfl]
      exact semDestroyStatement_marked hdestroyed
    · have hold := h.destroyed j
      rw [hd, DestroyPoint.of, if_neg hj] at hold
      rw [hsems j hj, hd', DestroyPoint.of, if_neg hj]
      exact hold
  · rw [htask] at hy hadd
    have hold := h.adding y j hy hadd
    by_cases hj : j = i
    · subst hj
      rw [hsem, semDestroyStatement_destroy]
      · exact hold
      -- the mark is made with the lock, which whoever adds itself has
      · rintro rfl
        have hother : w.locks j (some y) = true := by
          have hl : (w.task y).inner.locked = true := by
            cases hq : (w.task y).inner with
            | down q => cases q <;> simp_all [SemPoint.adding, SemPoint.locked]
            | _ => exact absurd (hq ▸ hadd) (by simp [SemPoint.adding])
          simp [Teardown.locks, hl, Point.semaphore, hy]
        exact absurd (((h.mutex j).excludes none hbefore).2 _ hother) (by simp)
    · rw [hsems j hj]
      exact hold
  · have hold := h.empty j
    rw [hd] at hold
    rw [hd'] at hj
    by_cases hji : j = i
    · subst hji
      rw [DestroyPoint.of, if_pos rfl] at hold hj
      rw [hsem]
      exact semDestroyStatement_emptied hold hj
    · rw [DestroyPoint.of, if_neg hji] at hold hj
      rw [hsems j hji]
      exact hold hj
  · rw [hd'] at hq
    injection hq with hji _
    exact h.counting j dp (hji ▸ hd)

/-- **The destroyer goes on** where no semaphore changes. -/
theorem TeardownInv.destroyer {d : DestroyPoint} (h : TeardownInv w)
    (hlocks : ∀ i, ({ w with destroyer := d } : Teardown).locks i none = w.locks i none)
    (hheld : ∀ t i, Waits (w.task t) i → ∀ j, w.destroyer ≠ .sem j (.awake t))
    (hmarked : ∀ i, d.of SemDestroyPoint.marked i = w.destroyer.of SemDestroyPoint.marked i)
    (hemptied : ∀ i, d.of SemDestroyPoint.emptied i = true →
      w.destroyer.of SemDestroyPoint.emptied i = true)
    (hcounting : ∀ i p, d = .sem i p → i ≠ .buffer)
    (hoff : ∀ t, OffRing (w.task t)) : TeardownInv { w with destroyer := d } := by
  have hsame : ({ w with destroyer := d } : Teardown).locks = w.locks := by
    funext i b
    cases b with
    | none => exact hlocks i
    | some y => rfl
  refine ⟨h.matched, hsame ▸ h.mutex, h.asleep, fun t i ht => ?_,
    fun i => (h.destroyed i).trans (hmarked i).symm, h.adding,
    fun i hi => h.empty i (hemptied i hi), hcounting, fun _ => hoff⟩
  refine (h.waiting t i ht).imp_right ?_
  rintro (hv | ⟨j, hj⟩)
  · exact Or.inl hv
  · exact absurd hj (hheld t i ht j)

/-- **A statement of `mqueue_destroy`.** -/
theorem TeardownInv.destroyNext (h : TeardownInv w)
    (hrelease : w.destroyer = .idle → ∀ t, OffRing (w.task t))
    (hwakes : ∀ u ∈ w.wakes .destroy, (w.task u).asleep = true)
    (hs : w.destroyNext = some w') : TeardownInv w' := by
  have hsettled : w.destroyer ≠ .idle → ∀ t, OffRing (w.task t) := fun hd =>
    h.settled (by simp [Teardown.released, hd])
  cases hd : w.destroyer with
  | idle =>
      rw [Teardown.destroyNext, hd] at hs
      obtain rfl := Option.some.inj hs
      have hbuff : TeardownInv { w with buff := { w.buff with allocated := false } } :=
        ⟨h.matched, h.mutex, h.asleep, h.waiting, h.destroyed, h.adding, h.empty, h.counting,
          h.settled⟩
      refine hbuff.destroyer (fun i => ?_) (fun t i _ j hj => ?_) (fun i => ?_) (fun i hi => ?_)
        (fun i p hp => ?_) (hrelease hd)
      · simp [Teardown.locks, hd, SemDestroyPoint.locked]
      · exact absurd (hd.symm.trans hj) (by simp)
      · rw [hd]
        cases i <;> rfl
      · cases i <;> exact absurd hi (by decide)
      · injection hp with hi _
        rw [← hi]
        decide
  | sem i p =>
      have hoff := hsettled (by simp [hd])
      cases p with
      | awake u =>
          rw [Teardown.destroyNext, hd] at hs
          obtain rfl := Option.some.inj hs
          obtain ⟨hw, hnone⟩ := h.wake (hwakes u (by simp [Teardown.wakes, hd]))
          have hd' : (w.wake (some u)).destroyer = .sem i (.awake u) := hd
          refine hw.destroyer (fun j => ?_) (fun t j ht k hk => ?_) (fun j => ?_) (fun j hj => ?_)
            (fun j p hp => ?_) (hw.settled (by simp [Teardown.released, hd']))
          · simp [Teardown.locks, hd', SemDestroyPoint.locked]
          · rw [hd'] at hk
            injection hk with _ hk
            injection hk with hk
            exact hnone j (hk ▸ ht)
          · rw [hd']
            rfl
          · rw [hd']
            simp only [DestroyPoint.of] at hj ⊢
            split at hj
            · exact absurd hj Bool.false_ne_true
            · rename_i hji
              rw [if_neg hji]
              exact hj
          · injection hp with hji _
            exact h.counting j (.awake u) (hji ▸ hd)
      | ret =>
          cases i with
          | spaceAvailable =>
              rw [Teardown.destroyNext, hd] at hs
              obtain rfl := Option.some.inj hs
              refine h.destroyer (fun j => ?_) (fun t j _ k hk => ?_) (fun j => ?_)
                (fun j hj => ?_) (fun j p hp => ?_) hoff
              · simp [Teardown.locks, hd, SemDestroyPoint.locked]
              · exact absurd (hd.symm.trans hk) (by simp)
              · rw [hd]
                cases j <;> rfl
              · rw [hd]
                cases j with
                | spaceAvailable => rfl
                | _ => exact absurd hj (by decide)
              · injection hp with hj _
                rw [← hj]
                decide
          | itemsAvailable =>
              rw [Teardown.destroyNext, hd] at hs
              obtain rfl := Option.some.inj hs
              refine h.destroyer (fun j => ?_) (fun t j _ k hk => ?_) (fun j => ?_)
                (fun j hj => ?_) (fun j p hp => absurd hp (by simp)) hoff
              · simp [Teardown.locks, hd, SemDestroyPoint.locked]
              · exact absurd (hd.symm.trans hk) (by simp)
              · rw [hd]
                cases j <;> rfl
              · rw [hd]
                cases j with
                | buffer => exact absurd hj (by decide)
                | _ => rfl
          | buffer => exact absurd rfl (h.counting _ _ hd)
      | _ =>
          rw [Teardown.destroyNext, hd] at hs
          obtain rfl := Option.some.inj hs
          exact h.destroySem hd (by simp)
  | free =>
      rw [Teardown.destroyNext, hd] at hs
      obtain rfl := Option.some.inj hs
      refine h.destroyer (fun j => ?_) (fun t j _ k hk => ?_) (fun j => ?_) (fun j hj => ?_)
        (fun j p hp => absurd hp (by simp)) (hsettled (by simp [hd]))
      · simp [Teardown.locks, hd]
      · exact absurd (hd.symm.trans hk) (by simp)
      · rw [hd]
        rfl
      · rw [hd]
        exact hj
  | done =>
      rw [Teardown.destroyNext, hd] at hs
      exact absurd hs (by simp)

/-! ## Runs -/

/-- **One event** keeps the invariant, where it is safe. -/
theorem TeardownInv.exec {e : TeardownEvent} (h : TeardownInv w) (hsafe : TeardownSafe w e) :
    Keeps (w.exec e) := by
  obtain ⟨hrelease, hwakes, hback⟩ := hsafe
  cases e with
  | send t msg => exact h.call (enter_through (w.task t) (.downSpace msg))
  | recv t => exact h.call (enter_through (w.task t) .recvDownItems)
  | next t =>
      rw [Teardown.exec, Teardown.next]
      cases hawake : (w.task t).asleep with
      | true => exact fun r hr => absurd hr (by simp)
      | false =>
          rw [if_neg Bool.false_ne_true]
          cases hq : (w.task t).inner with
          | down p =>
              intro r hr
              obtain ⟨i, hi, rfl⟩ := Option.map_eq_some_iff.mp hr
              exact h.down hi hq hawake hback _ rfl
          | up p =>
              intro r hr
              obtain ⟨i, hi, rfl⟩ := Option.map_eq_some_iff.mp hr
              refine h.up hi hq hawake (fun u hu => hwakes u ?_) _ rfl
              simp [Teardown.wakes, hq, hu]
          | outside => exact h.ring hawake hq
  | destroy =>
      intro r hr
      obtain ⟨w', hw', rfl⟩ := Option.map_eq_some_iff.mp hr
      exact ⟨h.destroyNext hrelease hwakes hw', fun m hm => absurd hm List.not_mem_nil⟩

/-- Task `t` returns `ERROR` from its call with its next `n` statements, and does nothing
else. -/
def Returns (w : Teardown) (t n : Nat) : Prop :=
  ∃ w', run Teardown.step w (List.replicate n (.next t)) = some w' ∧
    history Teardown.step Teardown.marks w (List.replicate n (.next t)) =
      [.returned t error false true]

/-- **What the destruction promises** in the state `w`, after the marks `H`. -/
structure TeardownSpec (w : Teardown) (H : List TeardownMark) : Prop where
  /-- No ring operation after the release, and `ERROR` from what had copied nothing. -/
  safe : ∀ m ∈ H, SafeMark m
  /-- Nobody stays blocked: who sleeps is woken by the next two statements of a `sem_up`. -/
  woken : w.destroyer = .done → ∀ t, (w.task t).asleep = true → ∃ v, ∃ n ≤ 2, ∃ w',
    run Teardown.step w (List.replicate n (.next v)) = some w' ∧ (w'.task t).asleep = false
  /-- Nobody spins for ever: who has a lock does not sleep. -/
  locked : w.destroyer = .done → ∀ i, (w.sem i).lock = true → ∃ v,
    (w.task v).inner.locked = true ∧ (w.task v).point.semaphore = some i ∧
      (w.task v).asleep = false
  /-- Unless somebody else has the lock, a call that has copied nothing returns `ERROR`
  next, or is about to suspend itself. -/
  pending : w.destroyer = .done → ∀ t, (w.task t).point ≠ .outside →
    (w.task t).copied = false → (w.task t).asleep = false →
    (∀ i, (w.task t).point.semaphore = some i → (w.sem i).lock = true →
      (w.task t).inner.locked = true) →
    (w.task t).inner = .down .suspend ∨ ∃ n ≤ 5, Returns w t n

/-- A call that has copied nothing, at the `sem_down` of a destroyed semaphore. -/
structure Dying (w : Teardown) (t : Nat) (i : QueueSem) : Prop where
  downs : (w.task t).point.downs = some i
  asleep : (w.task t).asleep = false
  copied : (w.task t).copied = false
  destroy : (w.sem i).destroy = true
  released : w.released = true

theorem Dying.goto (h : Dying w t i) (hx : x.destroy = true) :
    Dying ((w.setSem i x).goto t p) t i := by
  have hself : ((w.setSem i x).goto t p).task t = { w.task t with inner := p } :=
    Function.update_self ..
  refine ⟨?_, ?_, ?_, ?_, h.released⟩
  · rw [hself]
    exact h.downs
  · rw [hself]
    exact h.asleep
  · rw [hself]
    exact h.copied
  · rw [show ((w.setSem i x).goto t p).sem i = x from Function.update_self ..]
    exact hx

theorem Dying.next_eq {dp : DownPoint} (h : Dying w t i) (hq : (w.task t).inner = .down dp) :
    w.exec (.next t) = some (w.down t i dp) := by
  rw [Teardown.exec, Teardown.next, h.asleep, if_neg Bool.false_ne_true, hq, h.downs]
  rfl

/-- The call returns. -/
theorem Dying.ret (h : Dying w t i) (hq : (w.task t).inner = .down (.ret error)) :
    Returns w t 1 := by
  have hexec := h.next_eq hq
  refine ⟨(w.down t i (.ret error)).1, ?_, ?_⟩
  · simp [run, Teardown.step, hexec]
  · simp [history, Teardown.step, Teardown.marks, hexec, Teardown.down, Teardown.goOn, h.copied,
      h.released]

/-- A statement before the return. -/
theorem Dying.next {dp : DownPoint} {n : Nat} (h : Dying w t i)
    (hq : (w.task t).inner = .down dp) (hret : ∀ code, dp ≠ .ret code) (hsuspend : dp ≠ .suspend)
    (hnext : Returns ((w.setSem i (semDownStatement (w.sem i) t dp).1).goto t
      (.down (semDownStatement (w.sem i) t dp).2)) t n) : Returns w t (n + 1) := by
  have hexec := h.next_eq hq
  have hdown : w.down t i dp = ((w.setSem i (semDownStatement (w.sem i) t dp).1).goto t
      (.down (semDownStatement (w.sem i) t dp).2), []) := by
    cases dp with
    | ret code => exact absurd rfl (hret code)
    | suspend => exact absurd rfl hsuspend
    | _ => rfl
  rw [hdown] at hexec
  obtain ⟨w', hrun, hmarks⟩ := hnext
  refine ⟨w', ?_, ?_⟩
  · rw [List.replicate_succ, run, Teardown.step, hexec]
    exact hrun
  · rw [List.replicate_succ, history, Teardown.marks, Teardown.step, hexec]
    exact hmarks

theorem Dying.inner (w : Teardown) (t : Nat) (i : QueueSem) (x : Semaphore) (p : SemPoint) :
    (((w.setSem i x).goto t p).task t).inner = p := by
  rw [show ((w.setSem i x).goto t p).task t = { w.task t with inner := p } from
    Function.update_self ..]

/-- The way out of `sem_down` from the test of the flag. -/
theorem Dying.refused (h : Dying w t i) :
    ((w.task t).inner = .down .refuse → Returns w t 2) ∧
    ((w.task t).inner = .down .destroyed → Returns w t 3) ∧
    ((w.task t).inner = .down .recheck → Returns w t 4) := by
  have hrefuse : ∀ {w : Teardown}, Dying w t i → (w.task t).inner = .down .refuse →
      Returns w t 2 := fun h hq =>
    h.next hq (by simp) (by simp) (Dying.ret (h.goto (by exact h.destroy)) (Dying.inner ..))
  have hgiveBack : ∀ {w : Teardown}, Dying w t i → (w.task t).inner = .down .giveBack →
      Returns w t 3 := fun h hq =>
    h.next hq (by simp) (by simp) (hrefuse (h.goto (by exact h.destroy)) (Dying.inner ..))
  refine ⟨hrefuse h, fun hq => ?_, fun hq => ?_⟩
  · refine h.next hq (by simp) (by simp) ?_
    rw [semDownStatement, if_pos h.destroy]
    exact hrefuse (h.goto h.destroy) (Dying.inner ..)
  · refine h.next hq (by simp) (by simp) ?_
    rw [semDownStatement, if_pos h.destroy]
    exact hgiveBack (h.goto h.destroy) (Dying.inner ..)

/-- The task that a `sem_up` has taken out of the wait queue is woken by its next two
statements. -/
theorem TeardownInv.wakes {v : Nat} (h : TeardownInv w) (hv : (w.task v).inner.holds = some t)
    (ht : (w.task t).asleep = true) : ∃ n ≤ 2, ∃ w',
      run Teardown.step w (List.replicate n (.next v)) = some w' ∧ (w'.task t).asleep = false := by
  have hrelock := h.asleep t ht
  have htv : t ≠ v := by
    rintro rfl
    rw [hrelock] at hv
    exact absurd hv (by simp [SemPoint.holds])
  have hawake : (w.task v).asleep = false := by
    by_contra ha
    rw [h.asleep v (by simpa using ha)] at hv
    exact absurd hv (by simp [SemPoint.holds])
  have hmatch := h.matched v
  -- the last of the two
  have hlast : ∀ {w : Teardown}, (w.task v).asleep = false →
      (w.task v).inner = .up (.awake (some t)) → (w.task v).point.ups.isSome = true →
      ∃ w', w.step (.next v) = some w' ∧ (w'.task t).asleep = false := by
    intro w hawake hq hups
    obtain ⟨j, hj⟩ := Option.isSome_iff_exists.mp hups
    refine ⟨(w.wake (some t)).goto v (.up (.ret noError)), ?_, ?_⟩
    · rw [Teardown.step, Teardown.exec, Teardown.next, hawake, if_neg Bool.false_ne_true, hq, hj]
      rfl
    · rw [show ((w.wake (some t)).goto v (.up (.ret noError))).task t = (w.wake (some t)).task t
        from Function.update_of_ne htv .., show (w.wake (some t)).task t =
          { w.task t with asleep := false } from Function.update_self ..]
  cases hq : (w.task v).inner with
  | up p =>
      rw [AtFunction, hq] at hmatch
      obtain ⟨j, hj⟩ := Option.isSome_iff_exists.mp hmatch.2
      rw [hq] at hv
      cases p with
      | awake wake =>
          obtain rfl : wake = some t := hv
          obtain ⟨w', hstep, hw'⟩ := hlast hawake hq hmatch.2
          exact ⟨1, by omega, w', by simp [run, hstep], hw'⟩
      | unlock wake =>
          obtain rfl : wake = some t := hv
          let w₁ := (w.setSem j (spinUnlock (w.sem j))).goto v (.up (.awake (some t)))
          have hself : w₁.task v = { w.task v with inner := .up (.awake (some t)) } :=
            Function.update_self ..
          have hfirst : w.step (.next v) = some w₁ := by
            rw [Teardown.step, Teardown.exec, Teardown.next, hawake, if_neg Bool.false_ne_true, hq,
              hj]
            rfl
          obtain ⟨w', hstep, hw'⟩ := @hlast w₁ (by rw [hself]; exact hawake) (by rw [hself])
            (by rw [hself]; exact hmatch.2)
          exact ⟨2, le_rfl, w', by simp [run, hfirst, hstep], hw'⟩
      | _ => exact absurd hv (by simp [SemPoint.holds])
  | _ =>
      rw [hq] at hv
      exact absurd hv (by simp [SemPoint.holds])

/-- Who is off the ring inside a call and has copied nothing is at its first `sem_down`. -/
theorem OffRing.uncopied (hs : OffRing c) (hp : c.point ≠ .outside) (hc : c.copied = false) :
    ∃ i, c.point.downs = some i := by
  obtain ⟨point, inner, asleep, copied⟩ := c
  cases point with
  | downSpace _ | recvDownItems => exact ⟨_, rfl⟩
  | outside => exact absurd rfl hp
  | upBuffer | upItems | recvUpBuffer | recvUpSpace =>
      exact absurd (hc.symm.trans hs) Bool.false_ne_true
  | _ => exact absurd hs id

theorem teardownInv_start (b : CircularBuffer) (maxMsgs : Int) :
    TeardownInv (.start b maxMsgs) := by
  refine ⟨fun _ => ⟨rfl, rfl⟩, fun i => ⟨fun b hb => ?_, fun hi => ?_⟩, fun t ht => ?_,
    fun t i ht => ?_, fun i => ?_, fun t i hi => ?_, fun i hi => ?_, fun i p hp => ?_,
    fun _ _ => trivial⟩
  · cases b <;> exact absurd hb (by simp [Teardown.locks, Teardown.start, SemPoint.locked])
  · cases i <;> exact absurd hi Bool.false_ne_true
  · exact absurd ht Bool.false_ne_true
  · exact absurd ht.1 (by simp [Teardown.start, Point.downs])
  · cases i <;> rfl
  · exact absurd hi (by simp [Teardown.start, Point.downs])
  · exact absurd hi (by simp [Teardown.start, DestroyPoint.of])
  · exact absurd hp (by simp [Teardown.start])

/-- After `mqueue_destroy` a task that has copied nothing is at its first `sem_down`, and
that semaphore is destroyed, with nobody in its wait queue. -/
theorem TeardownInv.spec {H : List TeardownMark} (h : TeardownInv w) (hH : ∀ m ∈ H, SafeMark m) :
    TeardownSpec w H := by
  have hreleased : w.destroyer = .done → w.released = true := fun hd => by
    simp [Teardown.released, hd]
  refine ⟨hH, fun hd t ht => ?_, fun hd i hl => ?_, fun hd t hin hc hawake hfree => ?_⟩
  · have hrelock := h.asleep t ht
    have hmatch := h.matched t
    rw [AtFunction, hrelock] at hmatch
    obtain ⟨i, hi⟩ := Option.isSome_iff_exists.mp hmatch
    obtain ⟨hcounting, -, -⟩ := (h.settled (hreleased hd) t).down hi
    have hnil : (w.sem i).waitQueue.items = [] := by
      refine h.empty i ?_
      rw [hd]
      simpa [DestroyPoint.of] using hcounting
    rcases h.waiting t i ⟨hi, Or.inr ht⟩ with hin | ⟨v, hv⟩ | ⟨j, hj⟩
    · rw [hnil] at hin
      exact absurd hin List.not_mem_nil
    · exact ⟨v, h.wakes hv ht⟩
    · exact absurd (hd.symm.trans hj) (by simp)
  · obtain ⟨b, hb⟩ := (h.mutex i).holder hl
    cases b with
    | none => exact absurd hb (by simp [Teardown.locks, hd])
    | some v =>
        simp only [Teardown.locks, Bool.and_eq_true, decide_eq_true_eq] at hb
        refine ⟨v, hb.1, hb.2, ?_⟩
        by_contra ha
        have hrelock := h.asleep v (by simpa using ha)
        exact absurd hb.1 (by simp [hrelock, SemPoint.locked])
  · have hs := h.settled (hreleased hd) t
    obtain ⟨i, hi⟩ := hs.uncopied hin hc
    obtain ⟨hcounting, hthrough, -⟩ := hs.down hi
    have hdead : (w.sem i).destroy = true := by
      rw [h.destroyed, hd]
      simpa [DestroyPoint.of] using hcounting
    have hdying : Dying w t i := ⟨hi, hawake, hc, hdead, hreleased hd⟩
    have hmatch := h.matched t
    have hlock : (w.task t).inner.locked = false → (w.sem i).lock = false := by
      intro hq
      by_contra hl
      exact absurd (hq.symm.trans (hfree i (by rw [Point.semaphore, hi]; rfl) (by simpa using hl)))
        (by decide)
    obtain ⟨hrefuse, hdestroyed, hrecheck⟩ := hdying.refused
    cases hq : (w.task t).inner with
    | outside =>
        rw [AtFunction, hq] at hmatch
        exact absurd (hi.symm.trans hmatch.1) (by simp)
    | up p =>
        rw [AtFunction, hq] at hmatch
        exact absurd (hi.symm.trans hmatch.1) (by simp)
    | down p =>
        rw [hq] at hthrough hlock
        have hadding : (SemPoint.down p).adding = false := by
          by_contra ha
          exact absurd (hdead.symm.trans (h.adding t i hi (by simpa [hq] using ha))) (by decide)
        cases p with
        | suspend => exact Or.inl rfl
        | lock =>
            refine Or.inr ⟨4, by omega, hdying.next hq (by simp) (by simp) ?_⟩
            rw [semDownStatement, spinStatement, if_neg (by simp [hlock rfl])]
            exact (Dying.refused (hdying.goto (by exact hdead))).2.1 (Dying.inner ..)
        | relock =>
            refine Or.inr ⟨5, le_rfl, hdying.next hq (by simp) (by simp) ?_⟩
            rw [semDownStatement, spinStatement, if_neg (by simp [hlock rfl])]
            exact (Dying.refused (hdying.goto (by exact hdead))).2.2 (Dying.inner ..)
        | destroyed => exact Or.inr ⟨3, by omega, hdestroyed hq⟩
        | refuse => exact Or.inr ⟨2, by omega, hrefuse hq⟩
        | recheck => exact Or.inr ⟨4, by omega, hrecheck hq⟩
        | giveBack =>
            refine Or.inr ⟨3, by omega, hdying.next hq (by simp) (by simp) ?_⟩
            exact (Dying.refused (hdying.goto (by exact hdead))).1 (Dying.inner ..)
        | ret code =>
            obtain rfl : code = error := by simpa [SemPoint.through] using hthrough
            exact Or.inr ⟨1, by omega, hdying.ret hq⟩
        | unlock => exact absurd hthrough (by decide)
        | value | negative | add | release => exact absurd hadding (by decide)

/-! ## Deciding the condition -/

/-- The task that the event is about. -/
def TeardownEvent.task : TeardownEvent → Option Nat
  | .send t _ | .recv t | .next t => some t
  | .destroy => none

/-- The condition on a step among the tasks below `n`. -/
def SafeBelow (n : Nat) (w : Teardown) (e : TeardownEvent) : Prop :=
  (∀ t ∈ e.task, t < n) ∧ StatementSafe w e ∧
    (e.task = none → w.destroyer = .idle → ∀ t < n, OffRing (w.task t))

instance : DecidablePred OffRing
  | ⟨.outside, _, _, _⟩ => .isTrue trivial
  | ⟨.downSpace _, q, _, _⟩ | ⟨.recvDownItems, q, _, _⟩ =>
      inferInstanceAs (Decidable (q.through = false))
  | ⟨.upBuffer, _, _, copied⟩ | ⟨.upItems, _, _, copied⟩ | ⟨.recvUpBuffer, _, _, copied⟩
  | ⟨.recvUpSpace, _, _, copied⟩ => inferInstanceAs (Decidable (copied = true))
  | ⟨.downBuffer _, _, _, _⟩ | ⟨.addCheck _, _, _, _⟩ | ⟨.addBranch _, _, _, _⟩
  | ⟨.addFirst _, _, _, _⟩ | ⟨.addOffset _, _, _, _⟩ | ⟨.addCopy _ _, _, _, _⟩
  | ⟨.addEnd, _, _, _⟩ | ⟨.addCount, _, _, _⟩ | ⟨.recvDownBuffer, _, _, _⟩
  | ⟨.removeCheck, _, _, _⟩ | ⟨.removeBranch, _, _, _⟩ | ⟨.removeOffset _, _, _, _⟩
  | ⟨.removeCopy _ _, _, _, _⟩ | ⟨.removeStart, _, _, _⟩ | ⟨.removeCount, _, _, _⟩ => .isFalse id

instance (w : Teardown) (t : Nat) : Decidable (HoldsBack w t) :=
  inferInstanceAs (Decidable (w.released = true → ∀ i ∈ (w.task t).point.downs,
    ((w.task t).inner = .down .negative → (w.sem i).value < 0) ∧
    ((w.task t).inner = .down .recheck → (w.sem i).destroy = true)))

instance (w : Teardown) : DecidablePred (StatementSafe w)
  | .next t => inferInstanceAs (Decidable
      ((∀ u ∈ w.wakes (.next t), (w.task u).asleep = true) ∧ HoldsBack w t))
  | .send t msg => inferInstanceAs (Decidable
      ((∀ u ∈ w.wakes (.send t msg), (w.task u).asleep = true) ∧ True))
  | .recv t => inferInstanceAs (Decidable
      ((∀ u ∈ w.wakes (.recv t), (w.task u).asleep = true) ∧ True))
  | .destroy => inferInstanceAs (Decidable
      ((∀ u ∈ w.wakes .destroy, (w.task u).asleep = true) ∧ True))

instance (n : Nat) (w : Teardown) (e : TeardownEvent) : Decidable (SafeBelow n w e) :=
  inferInstanceAs (Decidable ((∀ t ∈ e.task, t < n) ∧ StatementSafe w e ∧
    (e.task = none → w.destroyer = .idle → ∀ t < n, OffRing (w.task t))))

theorem Teardown.goOn_task (code : Int) {p : Point} (h : u ≠ t) :
    (w.goOn t code p).1.task u = w.task u :=
  Function.update_of_ne h ..

theorem Teardown.goto_task (h : u ≠ t) : (w.goto t p).task u = w.task u :=
  Function.update_of_ne h ..

/-- `task_awake` moves nobody. -/
theorem Teardown.wake_point (wake : Option Nat) (u : Nat) :
    ((w.wake wake).task u).point = (w.task u).point := by
  cases wake with
  | none => rfl
  | some v =>
      by_cases huv : u = v
      · rw [huv, show (w.wake (some v)).task v = { w.task v with asleep := false } from
          Function.update_self ..]
      · rw [show (w.wake (some v)).task u = w.task u from Function.update_of_ne huv ..]

theorem Teardown.destroyNext_point (hs : w.destroyNext = some w') (u : Nat) :
    (w'.task u).point = (w.task u).point := by
  cases hd : w.destroyer with
  | sem i p =>
      rw [Teardown.destroyNext, hd] at hs
      cases p with
      | awake v =>
          obtain rfl := Option.some.inj hs
          exact w.wake_point (some v) u
      | ret => cases i <;> (obtain rfl := Option.some.inj hs; rfl)
      | _ =>
          obtain rfl := Option.some.inj hs
          rfl
  | done =>
      rw [Teardown.destroyNext, hd] at hs
      exact absurd hs (by simp)
  | _ =>
      rw [Teardown.destroyNext, hd] at hs
      obtain rfl := Option.some.inj hs
      rfl

/-- **A step moves its own task only.** -/
theorem Teardown.step_point {e : TeardownEvent} (hs : w.step e = some w') (hu : e.task ≠ some u) :
    (w'.task u).point = (w.task u).point := by
  obtain ⟨r, hr, rfl⟩ := Option.map_eq_some_iff.mp hs
  have hcall : ∀ {t p}, u ≠ t → w.call t p = some r → (r.1.task u).point = (w.task u).point := by
    intro t p hut hr
    rw [Teardown.call] at hr
    split at hr
    · obtain rfl := Option.some.inj hr
      rw [show (w.setTask t { (w.task t).enter p with copied := false }).task u = w.task u from
        Function.update_of_ne hut ..]
    · exact absurd hr (by simp)
  cases e with
  | send t msg => exact hcall (fun h => hu (h ▸ rfl)) hr
  | recv t => exact hcall (fun h => hu (h ▸ rfl)) hr
  | next t =>
      have hut : u ≠ t := fun h => hu (h ▸ rfl)
      rw [Teardown.exec, Teardown.next] at hr
      split at hr
      · exact absurd hr (by simp)
      split at hr
      · next p hq =>
        obtain ⟨i, -, rfl⟩ := Option.map_eq_some_iff.mp hr
        cases p with
        | ret code => exact congrArg Caller.point (Teardown.goOn_task code hut)
        | suspend => exact congrArg Caller.point (Function.update_of_ne hut ..)
        | _ => exact congrArg Caller.point (Teardown.goto_task hut)
      · next p hq =>
        obtain ⟨i, -, rfl⟩ := Option.map_eq_some_iff.mp hr
        cases p with
        | ret code => exact congrArg Caller.point (Teardown.goOn_task code hut)
        | awake wake =>
            exact (congrArg Caller.point (Teardown.goto_task hut)).trans
              (Teardown.wake_point wake u)
        | _ => exact congrArg Caller.point (Teardown.goto_task hut)
      · rw [Teardown.ring] at hr
        split at hr
        · obtain rfl := Option.some.inj hr
          exact congrArg Caller.point
            ((Teardown.goOn_task error hut).trans (Function.update_of_ne hut ..))
        · exact absurd hr (by simp)
  | destroy =>
      obtain ⟨w₁, hw₁, rfl⟩ := Option.map_eq_some_iff.mp hr
      exact Teardown.destroyNext_point hw₁ u

/-- Where all events are about the tasks below `n`, the condition is to be checked for
these only. -/
theorem SafeBelow.safe {n : Nat} {b : CircularBuffer} {maxMsgs : Int}
    {events : List TeardownEvent}
    (h : AllSteps Teardown.step (SafeBelow n) (Teardown.start b maxMsgs) events) :
    AllSteps Teardown.step TeardownSafe (Teardown.start b maxMsgs) events := by
  have hothers : AllSteps Teardown.step (fun w _ => ∀ t, n ≤ t → (w.task t).point = .outside)
      (Teardown.start b maxMsgs) events :=
    allSteps_of_invariant (fun w => ∀ t, n ≤ t → (w.task t).point = .outside)
      (fun w e w' hw hok hs t ht => (Teardown.step_point hs fun htask =>
        absurd (hok.1 t htask) (Nat.not_lt.mpr ht)).trans (hw t ht))
      (fun w _ hw => hw) (fun _ _ => rfl) h
  refine (h.and hothers).imp fun w e ⟨⟨_, hstatement, hrelease⟩, hout⟩ => ⟨?_, hstatement⟩
  cases e with
  | destroy =>
      intro hidle t
      by_cases ht : t < n
      · exact hrelease rfl hidle t ht
      · rw [OffRing, hout t (Nat.not_lt.mp ht)]
        trivial
  | _ => trivial

/-! ## The destruction -/

/-- A queue of one message. -/
def oneMessage : Teardown := .start (circularBufferCreate 1 2 (some fun _ => 0)) 1

/-- Task 1 sends, task 2 waits for space, `mqueue_destroy` runs to its end, and task 2 goes
on. -/
def waitingSender : List TeardownEvent :=
  .send 1 (fun _ => 7) :: List.replicate 32 (.next 1) ++
    (.send 2 (fun _ => 8) :: List.replicate 7 (.next 2)) ++
    List.replicate 19 .destroy ++ List.replicate 5 (.next 2)

/-- Task 1 has its space when `mqueue_destroy` runs to its end, and goes on. -/
def preemptedSender : List TeardownEvent :=
  .send 1 (fun _ => 7) :: List.replicate 6 (.next 1) ++ List.replicate 14 .destroy ++
    List.replicate 7 (.next 1)

/-- A task that is preempted right before its `task_suspend` misses its wake-up, and
sleeps for ever. -/
example : (run Teardown.step oneMessage
      (.recv 1 :: List.replicate 6 (.next 1) ++ List.replicate 19 .destroy ++ [.next 1])).map
      (fun w => (w.destroyer, (w.task 1).asleep, (w.sem .itemsAvailable).waitQueue.items)) =
    some (.done, true, []) := by
  decide +kernel

end PingPongOS
