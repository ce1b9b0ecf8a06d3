import PingPongOS.KernelSteps
import PingPongOS.QueueCreation

/-!
# Message queue calls one after another

`mqueue_send` and `mqueue_recv` as whole calls, with the codes of the ring and of the
kernel.  A call that blocks does not return, and ends a run of calls one after another.
The ring reports failures with codes of its own: `mqueue_send` compares them with
`CB_NOERROR` and returns at once, `mqueue_recv` with `ERROR`, which is none of them.

A queue whose ring buffer was allocated in full never meets those failures.  One without it
refuses every message, after its space and its mutex have been taken.  Where the size of the
ring buffer wrapped, a `memcpy` leaves the block in the end, and overwrites whatever the heap
has there: nothing is known of such a call.
-/

namespace PingPongOS

open Runs

/-- `enum cb_error`. -/
inductive CbError
  | noError
  | error
  | fullBuffer
  | emptyBuffer
  deriving DecidableEq

/-- The value of the enumerator. -/
def CbError.code : CbError → Int
  | .noError => 0
  | .error => 1
  | .fullBuffer => 2
  | .emptyBuffer => 3

/-- `circular_buffer_add`; an item is `none` for `NULL`. -/
def circularBufferAdd (b : CircularBuffer) (item : Option (Nat → UInt8)) :
    CbError × CircularBuffer :=
  match item with
  | none => (.error, b)
  | some item =>
      if b.itemQuant = b.maxCapacity then (.fullBuffer, b)
      else
        let b₁ :=
          if b.itemQuant = 0 then b.store (mulInt b.start b.itemSize) item
          else if 1 ≤ b.itemQuant then
            { b.store (mulInt b.nextEnd b.itemSize) item with end_ := b.nextEnd }
          else b
        (.noError, { b₁ with itemQuant := b.itemQuant + 1 })

/-- `circular_buffer_remove`, to a pointer that is `NULL` or not: the code, what it
copies, and the ring. -/
def circularBufferRemove (b : CircularBuffer) (dest : Bool) :
    CbError × Option (List UInt8) × CircularBuffer :=
  if dest = false then (.error, none, b)
  else if b.itemQuant = 0 then (.emptyBuffer, none, b)
  else
    let m := copyOut b.bytes (mulInt b.start b.itemSize) b.itemSize
    if 1 < b.itemQuant then
      (.noError, some m, { b with start := b.nextStart, itemQuant := b.itemQuant - 1 })
    else if b.itemQuant = 1 then (.noError, some m, { b with itemQuant := b.itemQuant - 1 })
    else (.noError, none, { b with itemQuant := b.itemQuant - 1 })

/-- `sem_down` on a pointer, up to its return, or to its `task_suspend` if the code is
`none`. -/
def semDownAt (s : Option Semaphore) (S : TaskSystem) :
    Except Fault (Option Int × Option Semaphore × TaskSystem) :=
  match s with
  | none => .ok (some error, none, S)
  | some x => do
      let r ← semDown x S.currentActiveTask
      .ok (r.1, some r.2, if r.1 = none then taskSuspend S .suspended else S)

/-- `sem_up` on a pointer. -/
def semUpAt (s : Option Semaphore) (S : TaskSystem) :
    Except Fault (Int × Option Semaphore × TaskSystem) :=
  match s with
  | none => .ok (error, none, S)
  | some x => do
      let r ← semUp x
      .ok (r.1, some r.2.2, ← taskAwake S r.2.1)

/-- `mqueue_send`; its code is `none` where it blocks. -/
def mqueueSend (q : MessageQueue) (msg : Option (Nat → UInt8)) (S : TaskSystem) :
    Except Fault (Option Int × MessageQueue × TaskSystem) :=
  match msg with
  | none => .ok (some error, q, S)
  | some item => do
      let space ← semDownAt q.spaceAvailable S
      let q := { q with spaceAvailable := space.2.1 }
      if space.1 = none then .ok (none, q, space.2.2)
      else if space.1 = some error then .ok (some error, q, space.2.2)
      else
        let mutex ← semDownAt q.buffer space.2.2
        let q := { q with buffer := mutex.2.1 }
        if mutex.1 = none then .ok (none, q, mutex.2.2)
        else if mutex.1 = some error then .ok (some error, q, mutex.2.2)
        else
          let added := circularBufferAdd q.buff (some item)
          let q := { q with buff := added.2 }
          if added.1.code ≠ CbError.noError.code then .ok (some error, q, mutex.2.2)
          else
            let mutex ← semUpAt q.buffer mutex.2.2
            let q := { q with buffer := mutex.2.1 }
            if mutex.1 = error then .ok (some error, q, mutex.2.2)
            else
              let items ← semUpAt q.itemsAvailable mutex.2.2
              let q := { q with itemsAvailable := items.2.1 }
              if items.1 = error then .ok (some error, q, items.2.2)
              else .ok (some noError, q, items.2.2)

/-- `mqueue_recv`, with what it copies. -/
def mqueueRecv (q : MessageQueue) (msg : Bool) (S : TaskSystem) :
    Except Fault (Option Int × Option (List UInt8) × MessageQueue × TaskSystem) :=
  if msg = false then .ok (some error, none, q, S)
  else do
    let items ← semDownAt q.itemsAvailable S
    let q := { q with itemsAvailable := items.2.1 }
    if items.1 = none then .ok (none, none, q, items.2.2)
    else if items.1 = some error then .ok (some error, none, q, items.2.2)
    else
      let mutex ← semDownAt q.buffer items.2.2
      let q := { q with buffer := mutex.2.1 }
      if mutex.1 = none then .ok (none, none, q, mutex.2.2)
      else if mutex.1 = some error then .ok (some error, none, q, mutex.2.2)
      else
        let removed := circularBufferRemove q.buff msg
        let q := { q with buff := removed.2.2 }
        if removed.1.code = error then .ok (some error, removed.2.1, q, mutex.2.2)
        else
          let mutex ← semUpAt q.buffer mutex.2.2
          let q := { q with buffer := mutex.2.1 }
          if mutex.1 = error then .ok (some error, removed.2.1, q, mutex.2.2)
          else
            let space ← semUpAt q.spaceAvailable mutex.2.2
            let q := { q with spaceAvailable := space.2.1 }
            if space.1 = error then .ok (some error, removed.2.1, q, space.2.2)
            else .ok (some noError, removed.2.1, q, space.2.2)

/-- A call, with its pointer or `NULL`. -/
inductive MqueueCall
  | send (msg : Option (Nat → UInt8))
  | recv (msg : Bool)

/-- A call on the queue of the task that runs in `S`. -/
def mqueueCall (q : MessageQueue) (S : TaskSystem) : MqueueCall →
    Except Fault (Option Int × Option (List UInt8) × MessageQueue × TaskSystem)
  | .send msg => do
      let r ← mqueueSend q msg S
      .ok (r.1, none, r.2)
  | .recv msg => mqueueRecv q msg S

/-- The `memcpy` of a call that finds the ring `b`, with its offset and its length. -/
def ringMemcpys (b : CircularBuffer) : MqueueCall → List (Int × Int)
  | .send (some _) =>
      if b.itemQuant = b.maxCapacity then []
      else if b.itemQuant = 0 then [(mulInt b.start b.itemSize, b.itemSize)]
      else if 1 ≤ b.itemQuant then [(mulInt b.nextEnd b.itemSize, b.itemSize)]
      else []
  | .recv true => if 1 ≤ b.itemQuant then [(mulInt b.start b.itemSize, b.itemSize)] else []
  | _ => []

/-- The `memcpy` of a call, if its two `sem_down`s let it through to the ring. -/
def MessageQueue.memcpys (q : MessageQueue) (S : TaskSystem) (c : MqueueCall) :
    List (Int × Int) :=
  let first := match c with
    | .send _ => q.spaceAvailable
    | .recv _ => q.itemsAvailable
  match semDownAt first S with
  | .ok (some code, _, S) =>
      if code = error then []
      else
        match semDownAt q.buffer S with
        | .ok (some code, _, _) => if code = error then [] else ringMemcpys q.buff c
        | _ => []
  | _ => []

/-- What a call may come to, on a ring whose block has `size` bytes: what the code computes,
or anything if its `memcpy` leaves the block. -/
inductive CallResult (size : Int) (q : MessageQueue) (S : TaskSystem) (c : MqueueCall) :
    Option Int × Option (List UInt8) × MessageQueue × TaskSystem → Prop
  | returns {r} (hr : mqueueCall q S c = .ok r) : CallResult size q S c r
  | overwrites (r) (hout : ∃ x ∈ q.memcpys S c, ¬ InBytes size x) : CallResult size q S c r

/-- The queue after calls one after another, each by any task, that all returned. -/
inductive QueueReached (size : Int) (q : MessageQueue) : MessageQueue → Prop
  | start : QueueReached size q q
  | call {q₁ q₂ : MessageQueue} {S₁ S₂ : TaskSystem} {c : MqueueCall} {code : Int}
      {m : Option (List UInt8)} (hq : QueueReached size q q₁)
      (hc : CallResult size q₁ S₁ c (some code, m, q₂, S₂)) : QueueReached size q q₂

/-- The values of the three semaphores. -/
def MessageQueue.values (q : MessageQueue) : Option Int × Option Int × Option Int :=
  (q.spaceAvailable.map Semaphore.value, q.itemsAvailable.map Semaphore.value,
    q.buffer.map Semaphore.value)

/-! ## Semaphores nobody waits for -/

/-- A semaphore of value `v`, not destroyed, that nobody waits for. -/
def Idle (v : Int) (s : Option Semaphore) : Prop :=
  ∃ x, s = some x ∧ x.lock = false ∧ x.destroy = false ∧ x.waitQueue.items = [] ∧ x.value = v

variable {S : TaskSystem} {v : Int} {s : Option Semaphore}

theorem idle_fresh (v : Int) : Idle v (some (freshSemaphore v)) := ⟨_, rfl, rfl, rfl, rfl, rfl⟩

/-- `sem_down` passes a positive value. -/
theorem Idle.down (h : Idle v s) (hv : 0 < v) (hfits : v < 2 ^ 31) (S : TaskSystem) :
    ∃ s', semDownAt s S = .ok (some noError, s', S) ∧ Idle (v - 1) s' := by
  obtain ⟨x, rfl, hl, hd, hq, rfl⟩ := h
  have hvalue : addInt x.value (-1) = x.value - 1 := addInt_of_fits ⟨by omega, by omega⟩
  refine ⟨some { x with value := addInt x.value (-1) }, ?_, _, rfl, hl, hd, hq, hvalue⟩
  rw [semDownAt, semDown_eq hl, hd, if_neg Bool.false_ne_true, if_neg (by omega)]
  rfl

/-- `sem_down` blocks where the value is zero. -/
theorem Idle.blocks (h : Idle 0 s) (S : TaskSystem) :
    ∃ s' S', semDownAt s S = .ok (none, s', S') := by
  obtain ⟨x, rfl, hl, hd, hq, hv⟩ := h
  have hvalue : addInt x.value (-1) < 0 := by
    rw [hv]
    decide
  refine ⟨some { x with
      value := addInt x.value (-1)
      waitQueue := queueAdd x.waitQueue S.currentActiveTask },
    taskSuspend S .suspended, ?_⟩
  rw [semDownAt, semDown_eq hl, hd, if_neg Bool.false_ne_true, if_pos hvalue]
  rfl

theorem Idle.up (h : Idle v s) (hfits : FitsInt (v + 1)) (S : TaskSystem) :
    ∃ s', semUpAt s S = .ok (noError, s', S) ∧ Idle (v + 1) s' := by
  obtain ⟨x, rfl, hl, hd, hq, rfl⟩ := h
  obtain ⟨x', hup, hl', hd', hv', hq'⟩ := semUp_ok hl hd
  rw [hq] at hup hq'
  rw [addInt_of_fits hfits] at hv'
  refine ⟨some x', ?_, _, rfl, hl', hd', hq', hv'⟩
  rw [semUpAt, hup]
  rfl

/-! ## A queue at rest -/

/-- Nobody is in a call on the queue, whose ring has `M` slots. -/
structure QueueAtRest (M : Int) (q : MessageQueue) : Prop where
  space : Idle (M - q.buff.itemQuant) q.spaceAvailable
  items : Idle q.buff.itemQuant q.itemsAvailable
  buffer : Idle 1 q.buffer
  capacity : q.buff.maxCapacity = M
  quant : 0 ≤ q.buff.itemQuant
  room : q.buff.itemQuant ≤ M
  fits : M < 2 ^ 31

variable {M : Int} {q q' : MessageQueue}

theorem error_ne_noError : noError ≠ error := by decide

/-- **`mqueue_send`** on a queue at rest with room adds the message. -/
theorem QueueAtRest.adds (h : QueueAtRest M q) (hroom : q.buff.itemQuant < M)
    (item : Nat → UInt8) (S : TaskSystem) :
    ∃ q', mqueueSend q (some item) S = .ok (some noError, q', S) ∧ QueueAtRest M q' ∧
      q'.buff = (circularBufferAdd q.buff (some item)).2 := by
  have hquant := h.quant
  have hfits := h.fits
  obtain ⟨space, hspace, hspace'⟩ := h.space.down (by omega) (by omega) S
  obtain ⟨mutex, hmutex, hmutex'⟩ := h.buffer.down (by decide) (by decide) S
  obtain ⟨mutex', hup, hup'⟩ := hmutex'.up (by decide) S
  obtain ⟨items, hitems, hitems'⟩ := h.items.up ⟨by omega, by omega⟩ S
  have hfull : q.buff.itemQuant ≠ q.buff.maxCapacity := by
    rw [h.capacity]
    omega
  obtain ⟨b, hadd, hb, hcap⟩ : ∃ b, circularBufferAdd q.buff (some item) = (.noError, b) ∧
      b.itemQuant = q.buff.itemQuant + 1 ∧ b.maxCapacity = q.buff.maxCapacity := by
    simp only [circularBufferAdd]
    rw [if_neg hfull]
    refine ⟨_, rfl, rfl, ?_⟩
    dsimp only
    split
    · rfl
    · split <;> rfl
  refine ⟨⟨b, space, items, mutex'⟩, ?_,
    ⟨?_, ?_, hup', hcap.trans h.capacity, ?_, ?_, hfits⟩, by rw [hadd]⟩
  · simp only [mqueueSend, hspace, hmutex, hadd, hup, hitems, bind, Except.bind]
    rfl
  · rw [show M - b.itemQuant = M - q.buff.itemQuant - 1 by omega]
    exact hspace'
  · rw [hb]
    exact hitems'
  · simp only
    omega
  · simp only
    omega

/-- **`mqueue_send`** on a queue at rest blocks or adds the message. -/
theorem QueueAtRest.send (h : QueueAtRest M q) (item : Nat → UInt8) (S : TaskSystem) :
    (∃ r, mqueueSend q (some item) S = .ok (none, r)) ∨
      ∃ q', mqueueSend q (some item) S = .ok (some noError, q', S) ∧ QueueAtRest M q' ∧
        q'.buff = (circularBufferAdd q.buff (some item)).2 := by
  by_cases hroom : q.buff.itemQuant < M
  · exact .inr (h.adds hroom item S)
  · left
    have hspace := h.space
    rw [show M - q.buff.itemQuant = 0 by have := h.room; omega] at hspace
    obtain ⟨s', S', hblock⟩ := hspace.blocks S
    refine ⟨({ q with spaceAvailable := s' }, S'), ?_⟩
    simp only [mqueueSend, hblock, bind, Except.bind]
    rfl

/-- **`mqueue_recv`** on a queue at rest blocks or copies a message. -/
theorem QueueAtRest.recv (h : QueueAtRest M q) (S : TaskSystem) :
    (∃ r, mqueueRecv q true S = .ok (none, r)) ∨
      ∃ m q', mqueueRecv q true S = .ok (some noError, some m, q', S) ∧ QueueAtRest M q' ∧
        q'.buff = (circularBufferRemove q.buff true).2.2 := by
  by_cases hsome : 0 < q.buff.itemQuant
  · right
    have hroom := h.room
    have hfits := h.fits
    obtain ⟨items, hitems, hitems'⟩ := h.items.down hsome (by omega) S
    obtain ⟨mutex, hmutex, hmutex'⟩ := h.buffer.down (by decide) (by decide) S
    obtain ⟨mutex', hup, hup'⟩ := hmutex'.up (by decide) S
    obtain ⟨space, hspace, hspace'⟩ := h.space.up ⟨by omega, by omega⟩ S
    obtain ⟨m, b, hrem, hquant, hcap⟩ : ∃ m b,
        circularBufferRemove q.buff true = (.noError, some m, b) ∧
        b.itemQuant = q.buff.itemQuant - 1 ∧ b.maxCapacity = q.buff.maxCapacity := by
      rw [circularBufferRemove, if_neg (by decide), if_neg (by omega)]
      by_cases hone : 1 < q.buff.itemQuant
      · rw [if_pos hone]
        exact ⟨_, _, rfl, rfl, rfl⟩
      · rw [if_neg hone, if_pos (by omega)]
        exact ⟨_, _, rfl, rfl, rfl⟩
    refine ⟨m, ⟨b, space, items, mutex'⟩, ?_,
      ⟨?_, ?_, hup', hcap.trans h.capacity, ?_, ?_, hfits⟩, by rw [hrem]⟩
    · simp only [mqueueRecv, hitems, hmutex, hrem, hup, hspace, bind, Except.bind]
      rfl
    · rw [show M - b.itemQuant = M - q.buff.itemQuant + 1 by omega]
      exact hspace'
    · rw [hquant]
      exact hitems'
    · simp only
      omega
    · simp only
      omega
  · left
    have hitems := h.items
    rw [show q.buff.itemQuant = 0 by have := h.quant; omega] at hitems
    obtain ⟨s', S', hblock⟩ := hitems.blocks S
    refine ⟨(none, { q with itemsAvailable := s' }, S'), ?_⟩
    simp only [mqueueRecv, hblock, bind, Except.bind]
    rfl

/-! ## The block of the ring -/

/-- Writing an item to its slot leaves the shape of the ring. -/
theorem RingAt.add {M n : Nat} {b : CircularBuffer} (h : RingAt M n b)
    (item : Nat → UInt8) : RingAt M n (circularBufferAdd b (some item)).2 := by
  have hnext := tmod_range h.end_
  rw [← h.capacity] at hnext
  simp only [circularBufferAdd]
  split
  · exact h
  · dsimp only
    split
    · exact ⟨h.size, h.capacity, h.start, h.end_⟩
    · split
      · exact ⟨h.size, h.capacity, h.start, by rw [← h.capacity]; exact hnext⟩
      · exact ⟨h.size, h.capacity, h.start, h.end_⟩

theorem RingAt.remove {M n : Nat} {b : CircularBuffer} (h : RingAt M n b) (dest : Bool) :
    RingAt M n (circularBufferRemove b dest).2.2 := by
  have hnext := tmod_range h.start
  rw [← h.capacity] at hnext
  unfold circularBufferRemove
  split
  · exact h
  · split
    · exact h
    · dsimp only
      split
      · exact ⟨h.size, h.capacity, by rw [← h.capacity]; exact hnext, h.end_⟩
      · split <;> exact ⟨h.size, h.capacity, h.start, h.end_⟩

/-- **No `memcpy` leaves the block** of a ring that was allocated in full. -/
theorem RingAt.memcpys {M n : Nat} {b : CircularBuffer} (h : RingAt M n b)
    (hfull : M * n < 2 ^ 31) (c : MqueueCall) :
    ∀ x ∈ ringMemcpys b c, InBytes ((M * n : Nat) : Int) x := by
  have hslot : ∀ {a : Int}, 0 ≤ a ∧ a < M →
      InBytes ((M * n : Nat) : Int) (mulInt a b.itemSize, b.itemSize) := by
    intro a ha
    obtain ⟨k, hk, heq⟩ := mulInt_range hfull ha
    have hle : (k + 1) * n ≤ M * n := Nat.mul_le_mul_right n hk
    rw [Nat.succ_mul] at hle
    rw [h.size]
    refine ⟨?_, ?_⟩ <;> dsimp only <;> rw [heq] <;> omega
  have hnext := tmod_range h.end_
  rw [← h.capacity] at hnext
  intro x hx
  cases c with
  | send msg =>
      cases msg with
      | none => exact absurd hx List.not_mem_nil
      | some item =>
          simp only [ringMemcpys] at hx
          split at hx
          · exact absurd hx List.not_mem_nil
          · split at hx
            · rw [List.mem_singleton.mp hx]
              exact hslot h.start
            · split at hx
              · rw [List.mem_singleton.mp hx]
                exact hslot (by rw [← h.capacity]; exact hnext)
              · exact absurd hx List.not_mem_nil
  | recv msg =>
      cases msg with
      | false => exact absurd hx List.not_mem_nil
      | true =>
          simp only [ringMemcpys] at hx
          split at hx
          · rw [List.mem_singleton.mp hx]
            exact hslot h.start
          · exact absurd hx List.not_mem_nil

/-- The `memcpy` of a call is one of its ring. -/
theorem MessageQueue.memcpys_sub {x : Int × Int} {c : MqueueCall} (hx : x ∈ q.memcpys S c) :
    x ∈ ringMemcpys q.buff c := by
  unfold MessageQueue.memcpys at hx
  dsimp only at hx
  split at hx
  · split at hx
    · exact absurd hx List.not_mem_nil
    · split at hx
      · split at hx
        · exact absurd hx List.not_mem_nil
        · exact hx
      · exact absurd hx List.not_mem_nil
  · exact absurd hx List.not_mem_nil

/-! ## Calls that fail -/

/-- A call that returned `ERROR` left the queue as it was, and a receive that returned
`NOERROR` copied a message. -/
def LeavesUsable (q : MessageQueue) (c : MqueueCall) (code : Int) (m : Option (List UInt8))
    (q' : MessageQueue) : Prop :=
  (code = error → q'.buff = q.buff ∧ q'.values = q.values) ∧
    (code = noError → (∃ msg, c = .recv msg) → m.isSome)

/-- A call with `NULL` changes nothing. -/
theorem mqueueCall_null (q : MessageQueue) (S : TaskSystem) {c : MqueueCall}
    (hc : c = .send none ∨ c = .recv false) : mqueueCall q S c = .ok (some error, none, q, S) := by
  rcases hc with rfl | rfl <;> rfl

/-- **On a queue at rest** a call that returns restores it or succeeds. -/
theorem QueueAtRest.call (h : QueueAtRest M q) {c : MqueueCall} {S' : TaskSystem} {code : Int}
    {m : Option (List UInt8)} (hcall : mqueueCall q S c = .ok (some code, m, q', S')) :
    QueueAtRest M q' ∧ LeavesUsable q c code m q' ∧
      ∀ N n, RingAt N n q.buff → RingAt N n q'.buff := by
  have hnull : c = .send none ∨ c = .recv false →
      QueueAtRest M q' ∧ LeavesUsable q c code m q' ∧
        ∀ N n, RingAt N n q.buff → RingAt N n q'.buff := by
    intro hc
    rw [mqueueCall_null q S hc] at hcall
    obtain ⟨rfl, rfl, rfl, -⟩ : error = code ∧ none = m ∧ q = q' ∧ S = S' := by
      simpa using hcall
    exact ⟨h, ⟨fun _ => ⟨rfl, rfl⟩, fun hno => absurd hno (by decide)⟩, fun _ _ hr => hr⟩
  cases c with
  | send msg =>
      cases msg with
      | none => exact hnull (.inl rfl)
      | some item =>
          rcases h.send item S with ⟨r, hblock⟩ | ⟨q₁, hsend, hrest, hbuff⟩
          · rw [mqueueCall, hblock] at hcall
            exact absurd hcall (by simp [bind, Except.bind])
          · rw [mqueueCall, hsend] at hcall
            obtain ⟨rfl, -, rfl, -⟩ : noError = code ∧ none = m ∧ q₁ = q' ∧ S = S' := by
              simpa [bind, Except.bind] using hcall
            refine ⟨hrest, ⟨fun he => absurd he error_ne_noError, ?_⟩, fun N n hr => ?_⟩
            · rintro - ⟨msg, hc⟩
              exact absurd hc (by simp)
            · rw [hbuff]
              exact hr.add item
  | recv msg =>
      cases msg with
      | false => exact hnull (.inr rfl)
      | true =>
          rcases h.recv S with ⟨r, hblock⟩ | ⟨m₁, q₁, hrecv, hrest, hbuff⟩
          · rw [mqueueCall, hblock] at hcall
            exact absurd hcall (by simp)
          · rw [mqueueCall, hrecv] at hcall
            obtain ⟨rfl, rfl, rfl, -⟩ : noError = code ∧ some m₁ = m ∧ q₁ = q' ∧ S = S' := by
              simpa using hcall
            refine ⟨hrest, ⟨fun he => absurd he error_ne_noError, fun _ _ => rfl⟩, fun N n hr => ?_⟩
            rw [hbuff]
            exact hr.remove true

/-- The queue that `mqueue_create` returns without its third semaphore. -/
structure Unusable (q : MessageQueue) : Prop where
  space : ∃ x, q.spaceAvailable = some x ∧ x.lock = false ∧ x.destroy = true
  items : ∃ x, q.itemsAvailable = some x ∧ x.lock = false ∧ x.destroy = true

/-- `sem_down` on a destroyed semaphore. -/
theorem semDownAt_destroyed {x : Semaphore} (hl : x.lock = false) (hd : x.destroy = true)
    (S : TaskSystem) : semDownAt (some x) S = .ok (some error, some x, S) := by
  rw [semDownAt, semDown_eq hl, hd, if_pos rfl]
  rfl

/-- **On a queue without its third semaphore** every call fails at once. -/
theorem Unusable.call (h : Unusable q) (c : MqueueCall) (S : TaskSystem) :
    mqueueCall q S c = .ok (some error, none, q, S) := by
  obtain ⟨⟨x, hx, hxl, hxd⟩, ⟨y, hy, hyl, hyd⟩⟩ := h
  obtain ⟨b, space, items, mutex⟩ := q
  obtain rfl : space = some x := hx
  obtain rfl : items = some y := hy
  cases c with
  | send msg =>
      cases msg with
      | none => rfl
      | some item =>
          simp only [mqueueCall, mqueueSend, semDownAt_destroyed hxl hxd, bind, Except.bind]
          rfl
  | recv msg =>
      cases msg with
      | false => rfl
      | true =>
          simp only [mqueueCall, mqueueRecv, semDownAt_destroyed hyl hyd, bind, Except.bind]
          rfl

/-! ## The queues that `mqueue_create` returns -/

variable {cost : Int → Int} {g : Grants} {maxMsgs msgSize avail left : Int}
  {bytes : Int → UInt8} {S S₀ : TaskSystem}

/-- A queue that was returned is whole but for its ring buffer, or lacks its third
semaphore. -/
theorem created_cases
    (hcreate : mqueueCreateIn cost g maxMsgs msgSize bytes S avail = .ok (some q, S₀, left)) :
    1 ≤ maxMsgs ∧ 2 ≤ msgSize ∧
      ((g.buffer ∧ g.bufferQueue) ∧ q = ⟨ringOf g maxMsgs msgSize bytes,
          some (freshSemaphore maxMsgs), some (freshSemaphore 0), some (freshSemaphore 1)⟩ ∨
        ¬ (g.buffer ∧ g.bufferQueue) ∧ Unusable q) := by
  by_cases hargs : maxMsgs ≤ 0 ∨ msgSize ≤ 1
  · rw [mqueueCreateIn, if_pos hargs] at hcreate
    exact absurd hcreate (by simp)
  refine ⟨by omega, by omega, ?_⟩
  rw [mqueueCreateIn_ring (by omega) (by omega)] at hcreate
  simp only [mqueueCreateStruct_eq, mqueueCreateStruct_destroyed] at hcreate
  split at hcreate
  · split at hcreate
    · split at hcreate
      · next hbuffer =>
        refine .inl ⟨hbuffer, ?_⟩
        cases hqueue : g.queue with
        | false =>
            rw [hqueue] at hcreate
            exact absurd hcreate (by simp)
        | true =>
            rw [hqueue, if_pos rfl, Except.ok.injEq, Prod.mk.injEq, Option.some.injEq] at hcreate
            exact hcreate.1.symm
      · next hbuffer =>
        refine .inr ⟨hbuffer, ?_⟩
        cases hqueue : g.queue with
        | false =>
            rw [hqueue] at hcreate
            exact absurd hcreate (by simp)
        | true =>
            rw [hqueue, if_pos rfl, Except.ok.injEq, Prod.mk.injEq, Option.some.injEq] at hcreate
            rw [← hcreate.1]
            exact ⟨⟨_, rfl, rfl, rfl⟩, ⟨_, rfl, rfl, rfl⟩⟩
    · exact absurd hcreate (by simp)
  · exact absurd hcreate (by simp)

/-- A queue with a ring buffer starts at rest. -/
theorem queueAtRest_ringOf (hmax : 1 ≤ maxMsgs) (hmsg : 2 ≤ msgSize) (hfits : maxMsgs < 2 ^ 31)
    (hring : g.ring ∧ 0 < ringBytes maxMsgs msgSize) :
    QueueAtRest maxMsgs ⟨ringOf g maxMsgs msgSize bytes, some (freshSemaphore maxMsgs),
      some (freshSemaphore 0), some (freshSemaphore 1)⟩ := by
  rw [ringOf, if_pos hring, circularBufferCreate, if_neg (by omega)]
  refine ⟨?_, idle_fresh 0, idle_fresh 1, rfl, le_refl 0, by dsimp only; omega, hfits⟩
  rw [Int.sub_zero]
  exact idle_fresh maxMsgs

/-- On such a queue no `memcpy` is made. -/
theorem Unusable.memcpys (h : Unusable q) (c : MqueueCall) (S : TaskSystem) :
    q.memcpys S c = [] := by
  obtain ⟨⟨x, hx, hxl, hxd⟩, ⟨y, hy, hyl, hyd⟩⟩ := h
  cases c with
  | send _ => simp [MessageQueue.memcpys, hx, semDownAt_destroyed hxl hxd]
  | recv _ => simp [MessageQueue.memcpys, hy, semDownAt_destroyed hyl hyd]

/-- **The first message** to a queue without a ring buffer is refused with its space and
its mutex taken. -/
theorem send_without_ring (bytes : Int → UInt8) (hmax : 1 ≤ maxMsgs) (hint : maxMsgs < 2 ^ 31)
    (hring : ¬ (g.ring ∧ 0 < ringBytes maxMsgs msgSize)) (item : Nat → UInt8) (S : TaskSystem) :
    ∃ q', mqueueCall ⟨ringOf g maxMsgs msgSize bytes, some (freshSemaphore maxMsgs),
        some (freshSemaphore 0), some (freshSemaphore 1)⟩ S (.send (some item)) =
          .ok (some error, none, q', S) ∧
      q'.values = (some (maxMsgs - 1), some 0, some 0) := by
  obtain ⟨space, hspace, x, rfl, -, -, -, hx⟩ := (idle_fresh maxMsgs).down (by omega) hint S
  obtain ⟨mutex, hmutex, y, rfl, -, -, -, hy⟩ := (idle_fresh 1).down (by decide) (by decide) S
  rw [ringOf, if_neg hring, circularBufferCreate]
  refine ⟨⟨⟨false, fun _ => 0, 0, 0, 0, 0, 0⟩, some x, some (freshSemaphore 0), some y⟩, ?_, ?_⟩
  · simp only [mqueueCall, mqueueSend, hspace, hmutex, circularBufferAdd, bind, Except.bind]
    rfl
  · rw [MessageQueue.values]
    simp only [Option.map_some, hx, hy]
    rfl

/-! ## All queues -/

/-- A queue with a ring buffer of `M` slots of `n` bytes. -/
theorem ringAt_ringOf {M n : Nat} (hM : 0 < M) (hn : 0 < n)
    (hring : g.ring ∧ 0 < ringBytes M n) : RingAt M n (ringOf g M n bytes) := by
  rw [ringOf, if_pos hring, circularBufferCreate, if_neg (by omega)]
  exact ⟨rfl, rfl, ⟨le_refl 0, by dsimp only; omega⟩, ⟨le_refl 0, by dsimp only; omega⟩⟩

/-- A queue at rest that holds `j` messages and has never been read from. -/
structure Loaded (M n j : Nat) (q : MessageQueue) : Prop where
  rest : QueueAtRest M q
  size : q.buff.itemSize = n
  quant : q.buff.itemQuant = j
  end_ : q.buff.end_ = (j - 1 : Nat)

/-- One message more. -/
theorem Loaded.send {M n j : Nat} (h : Loaded M n j q) (hj : j < M) (size : Int)
    (S : TaskSystem) : ∃ q', QueueReached size q q' ∧ Loaded M n (j + 1) q' := by
  have hquant := h.quant
  obtain ⟨q', hsend, hrest, hbuff⟩ := h.rest.adds (by omega) (fun _ => 0) S
  have hcall : mqueueCall q S (.send (some fun _ => 0)) = .ok (some noError, none, q', S) := by
    rw [mqueueCall, hsend]
    rfl
  refine ⟨q', .call .start (.returns hcall), hrest, ?_, ?_, ?_⟩
  all_goals
    rw [hbuff]
    simp only [circularBufferAdd]
    rw [if_neg (by rw [h.rest.capacity]; omega)]
    dsimp only
  · split
    · exact h.size
    · split <;> exact h.size
  · omega
  · have hend := h.end_
    split
    · change q.buff.end_ = _
      rw [hend]
      omega
    · rw [if_pos (by omega)]
      change q.buff.nextEnd = _
      rw [CircularBuffer.nextEnd, hend, h.rest.capacity, Int.tmod_eq_of_lt (by omega) (by omega)]
      omega

theorem QueueReached.trans {size : Int} {q₁ q₂ : MessageQueue} (h : QueueReached size q q₁)
    (h' : QueueReached size q₁ q₂) : QueueReached size q q₂ := by
  induction h' with
  | start => exact h
  | call _ hc ih => exact .call ih hc

/-- **What every call keeps**, calls one after another keep. -/
theorem QueueReached.keeps {size : Int} {q₁ : MessageQueue} (h : QueueReached size q q₁)
    (P : MessageQueue → Prop) (hq : P q)
    (hcall : ∀ {q S c code m q' S'}, P q → CallResult size q S c (some code, m, q', S') → P q') :
    P q₁ := by
  induction h with
  | start => exact hq
  | call _ hc ih => exact hcall ih hc

theorem Loaded.upto {M n : Nat} (h : Loaded M n 0 q) (size : Int) (S : TaskSystem) :
    ∀ j ≤ M, ∃ q', QueueReached size q q' ∧ Loaded M n j q' := by
  intro j
  induction j with
  | zero => exact fun _ => ⟨q, .start, h⟩
  | succ j ih =>
      intro hj
      obtain ⟨q₁, h₁, hloaded⟩ := ih (by omega)
      obtain ⟨q₂, h₂, hnext⟩ := hloaded.send (by omega) size S
      exact ⟨q₂, h₁.trans h₂, hnext⟩

/-- The message after the first ones goes to the offset that the code computes for its
slot. -/
theorem Loaded.memcpys {M n j : Nat} (h : Loaded M n j q) (hpos : 1 ≤ j) (hj : j < M)
    (S : TaskSystem) :
    q.memcpys S (.send (some fun _ => 0)) = [(mulInt j n, (n : Int))] := by
  have hquant := h.quant
  have hfits := h.rest.fits
  obtain ⟨space, hspace, -⟩ := h.rest.space.down (by omega) (by omega) S
  obtain ⟨mutex, hmutex, -⟩ := h.rest.buffer.down (by decide) (by decide) S
  have hnext : q.buff.nextEnd = j := by
    rw [CircularBuffer.nextEnd, h.end_, h.rest.capacity,
      Int.tmod_eq_of_lt (by omega) (by omega)]
    omega
  simp only [MessageQueue.memcpys, hspace, hmutex, ringMemcpys]
  rw [if_neg error_ne_noError, if_neg error_ne_noError, if_neg (by rw [h.rest.capacity]; omega),
    if_neg (by omega), if_pos (by omega), hnext, h.size]

/-- A ring buffer whose size wrapped is left by a `memcpy`, and nothing is known of that
call. -/
theorem wrapped_ring_fails {M n : Nat} (bytes : Int → UInt8) (hM : 1 ≤ M) (hint : M < 2 ^ 31)
    (hsize : n < 2 ^ 31) (hbig : 2 ^ 31 ≤ M * n) (hring : g.ring ∧ 0 < ringBytes M n)
    (S : TaskSystem) :
    ∃ q₁ c code m q₂ S₂,
      QueueReached (ringBytes M n) ⟨ringOf g M n bytes, some (freshSemaphore M),
        some (freshSemaphore 0), some (freshSemaphore 1)⟩ q₁ ∧
      CallResult (ringBytes M n) q₁ S c (some code, m, q₂, S₂) ∧ ¬ LeavesUsable q₁ c code m q₂ := by
  have hn : 0 < n := Nat.pos_of_ne_zero fun h => by simp [h] at hbig
  have hstart : Loaded M n 0 ⟨ringOf g M n bytes, some (freshSemaphore M),
      some (freshSemaphore 0), some (freshSemaphore 1)⟩ := by
    rw [ringOf, if_pos hring, circularBufferCreate, if_neg (by omega)]
    refine ⟨⟨?_, idle_fresh 0, idle_fresh 1, rfl, le_refl 0, by dsimp only; omega,
      by exact_mod_cast hint⟩, rfl, rfl, rfl⟩
    rw [Int.sub_zero]
    exact idle_fresh M
  obtain ⟨k, hk, hkM, hneg⟩ := wrapped_slot hsize hbig hring.2
  obtain ⟨q₁, hreach, hloaded⟩ := hstart.upto (ringBytes M n) S k (by omega)
  -- the ring is not as before, and yet the code is ERROR
  let q₂ : MessageQueue := { q₁ with
    buff := { q₁.buff with itemQuant := q₁.buff.itemQuant + 1 } }
  refine ⟨q₁, .send (some fun _ => 0), error, none, q₂, S, hreach, .overwrites _
    ⟨_, by rw [hloaded.memcpys hk hkM]; exact List.mem_singleton_self _, fun hin => ?_⟩,
    fun husable => ?_⟩
  · exact absurd hin.1 (by dsimp only; omega)
  · have hbuff := (husable.1 rfl).1
    have hquant : q₁.buff.itemQuant + 1 = q₁.buff.itemQuant :=
      congrArg CircularBuffer.itemQuant hbuff
    omega

/-- **Failed calls leave the queue usable** exactly where its ring buffer was allocated in
full, or its third semaphore was not. -/
theorem failed_calls_restore_iff (hint : maxMsgs < 2 ^ 31) (hsize : msgSize < 2 ^ 31)
    (hcreate : mqueueCreateIn cost g maxMsgs msgSize bytes S avail = .ok (some q, S₀, left)) :
    (∀ q₁ c S₁ code m q₂ S₂, QueueReached (ringBytes maxMsgs msgSize) q q₁ →
      CallResult (ringBytes maxMsgs msgSize) q₁ S₁ c (some code, m, q₂, S₂) →
      LeavesUsable q₁ c code m q₂) ↔
      (g.ring ∧ 0 < ringBytes maxMsgs msgSize) ∧ maxMsgs * msgSize < 2 ^ 31 ∨
        ¬ (g.buffer ∧ g.bufferQueue) := by
  obtain ⟨hmax, hmsg, hcases⟩ := created_cases hcreate
  obtain ⟨M, rfl⟩ : ∃ M : Nat, maxMsgs = M := ⟨maxMsgs.toNat, by omega⟩
  obtain ⟨n, rfl⟩ : ∃ n : Nat, msgSize = n := ⟨msgSize.toNat, by omega⟩
  constructor
  · intro hall
    rcases hcases with ⟨hbuffer, rfl⟩ | ⟨hbuffer, -⟩
    · left
      by_cases hring : g.ring ∧ 0 < ringBytes M n
      · refine ⟨hring, ?_⟩
        by_contra hbig
        have hbig' : 2 ^ 31 ≤ M * n := by
          have : (2 : Int) ^ 31 ≤ ((M * n : Nat) : Int) := by push_cast; omega
          exact_mod_cast this
        obtain ⟨q₁, c, code, m, q₂, S₂, hreach, hcall, hnot⟩ := wrapped_ring_fails bytes
          (by omega) (by omega) (by omega) hbig' hring S
        exact hnot (hall _ _ _ _ _ _ _ hreach hcall)
      · obtain ⟨q', hcall, hvalues⟩ := send_without_ring bytes hmax hint hring (fun _ => 0) S
        have hsame := ((hall _ _ _ _ _ _ _ .start (.returns hcall)).1 rfl).2
        rw [hvalues] at hsame
        exact absurd hsame (by simp [MessageQueue.values, freshSemaphore])
    · exact .inr hbuffer
  · intro hcond q₁ c S₁ code m q₂ S₂ hreach hcall
    rcases hcases with ⟨hbuffer, rfl⟩ | ⟨-, hunusable⟩
    · obtain ⟨hring, hfits⟩ := hcond.resolve_right (not_not_intro hbuffer)
      have hfull : M * n < 2 ^ 31 := by exact_mod_cast hfits
      have hbytes : ringBytes M n = ((M * n : Nat) : Int) := by
        rw [ringBytes, mulInt, ← Nat.cast_mul]
        exact Int.bmod_eq_of_le (by omega) (by omega)
      -- what the code computes, as the memcpy stays in the block
      have hreturns : ∀ {q S c r}, RingAt M n q.buff → CallResult (ringBytes M n) q S c r →
          mqueueCall q S c = .ok r := by
        intro q S c r hslots hcall
        cases hcall with
        | returns hr => exact hr
        | overwrites hout =>
            obtain ⟨x, hx, hnot⟩ := hout
            rw [hbytes] at hnot
            exact absurd (hslots.memcpys hfull c x (MessageQueue.memcpys_sub hx)) hnot
      have hrest : QueueAtRest M q₁ ∧ RingAt M n q₁.buff := by
        refine hreach.keeps (fun q => QueueAtRest M q ∧ RingAt M n q.buff)
          ⟨queueAtRest_ringOf hmax hmsg hint hring, ringAt_ringOf (by omega) (by omega) hring⟩
          fun hq hc => ?_
        obtain ⟨hat, -, hslots⟩ := hq.1.call (hreturns hq.2 hc)
        exact ⟨hat, hslots M n hq.2⟩
      exact (hrest.1.call (hreturns hrest.2 hcall)).2.1
    · have hreturns : ∀ {q S c r}, Unusable q → CallResult (ringBytes M n) q S c r →
          r = (some error, none, q, S) := by
        intro q S c r hun hcall
        cases hcall with
        | returns hr => exact Except.ok.inj (hr.symm.trans (hun.call c S))
        | overwrites hout =>
            obtain ⟨x, hx, -⟩ := hout
            rw [hun.memcpys] at hx
            exact absurd hx List.not_mem_nil
      have hsame : Unusable q₁ := by
        refine hreach.keeps Unusable hunusable fun {q S c code m q' S'} hq hc => ?_
        obtain ⟨-, -, rfl, -⟩ : code = error ∧ m = none ∧ q' = q ∧ S' = S := by
          simpa using hreturns hq hc
        exact hq
      obtain ⟨rfl, rfl, rfl, -⟩ : code = error ∧ m = none ∧ q₂ = q₁ ∧ S₂ = S₁ := by
        simpa using hreturns hsame hcall
      exact ⟨fun _ => ⟨rfl, rfl⟩, fun hno => absurd hno (by decide)⟩

/-- On a queue of one message of two bytes, with nothing refused, no call fails for good. -/
theorem failed_calls_restore_granted : ∃ q left,
    mqueueCreateIn id .full 1 2 (fun _ => 0) dispatcherInit 1000 =
      .ok (some q, dispatcherInit, left) ∧
    ∀ q₁ c S₁ code m q₂ S₂, QueueReached (ringBytes 1 2) q q₁ →
      CallResult (ringBytes 1 2) q₁ S₁ c (some code, m, q₂, S₂) →
      LeavesUsable q₁ c code m q₂ := by
  have hcreate : mqueueCreateIn id .full 1 2 (fun _ => 0) dispatcherInit 1000 =
      .ok (some ⟨ringOf .full 1 2 fun _ => 0, some (freshSemaphore 1),
        some (freshSemaphore 0), some (freshSemaphore 1)⟩, dispatcherInit, 870) := rfl
  exact ⟨_, _, hcreate, (failed_calls_restore_iff (by decide) (by decide) hcreate).mpr
    (.inl ⟨⟨rfl, by decide⟩, by decide⟩)⟩

/-- **A refused message.**  On a queue whose ring buffer was refused, `mqueue_send` returns
`ERROR` and keeps the space and the mutex. -/
theorem refused_message : ∃ q left,
    mqueueCreateIn id { Grants.full with ring := false } 1 2 (fun _ => 0) dispatcherInit 1000 =
      .ok (some q, dispatcherInit, left) ∧
    ¬ ∀ q₁ c S₁ code m q₂ S₂, QueueReached (ringBytes 1 2) q q₁ →
      CallResult (ringBytes 1 2) q₁ S₁ c (some code, m, q₂, S₂) →
      LeavesUsable q₁ c code m q₂ := by
  refine ⟨_, _, rfl, fun hall => ?_⟩
  have hsame := ((hall _ (.send (some fun _ => 7)) dispatcherInit error none _ _ .start
    (.returns rfl)).1 rfl).2
  exact absurd hsame (by decide)

end PingPongOS
