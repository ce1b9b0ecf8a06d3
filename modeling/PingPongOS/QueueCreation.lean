import PingPongOS.Kernel
import PingPongOS.RingBounds

/-!
# The allocations of `mqueue_create`

`mqueue_create` allocates the ring buffer, three semaphores, each a block and a wait
queue, and the struct of the queue.  The allocator is an ideal one: a call is granted or
not, a block of `size` bytes takes `cost size` from `mem_avail`, and `mem_free` gives
them back.  The wait queues come from `malloc`, which `mem_avail` does not count.

`mqueue_create` goes on without a ring buffer and without its third semaphore, and
`sem_destroy` frees nothing, so that a failure leaves the heap as it was only up to the
first semaphore.
-/

namespace PingPongOS

/-- `sizeof(struct semaphore_t)`. -/
def sizeofSemaphore : Int := 24

/-- `sizeof(struct mqueue_t)`. -/
def sizeofMqueue : Int := 56

/-- Which allocations of `mqueue_create` are granted, in the order it makes them. -/
structure Grants where
  ring : Bool
  space : Bool
  spaceQueue : Bool
  items : Bool
  itemsQueue : Bool
  buffer : Bool
  bufferQueue : Bool
  queue : Bool
  deriving DecidableEq

/-- Nothing is refused. -/
def Grants.full : Grants := ⟨true, true, true, true, true, true, true, true⟩

/-- `struct mqueue_t`; a pointer to a semaphore may be `NULL`. -/
structure MessageQueue where
  buff : CircularBuffer
  spaceAvailable : Option Semaphore
  itemsAvailable : Option Semaphore
  buffer : Option Semaphore

section

variable (cost : Int → Int)

/-- `mem_alloc` of an ideal allocator: whether there is a block, and `mem_avail`. -/
def idealAlloc (granted : Bool) (size avail : Int) : Bool × Int :=
  if granted ∧ 0 < size then (true, avail - cost size) else (false, avail)

/-- `mem_free` of a block of `size` bytes. -/
def idealFree (size avail : Int) : Int := avail + cost size

/-- `sem_create`. -/
def semCreateIn (granted grantedQueue : Bool) (value avail : Int) : Option Semaphore × Int :=
  if value < 0 then (none, avail)
  else
    let a := idealAlloc cost granted sizeofSemaphore avail
    if a.1 then
      if grantedQueue then (semCreate value, a.2)
      else (none, idealFree cost sizeofSemaphore a.2)
    else (none, a.2)

/-- `circular_buffer_destroy`, on a ring whose block has `size` bytes. -/
def circularBufferDestroy (b : CircularBuffer) (size avail : Int) : CircularBuffer × Int :=
  ({ b with allocated := false }, if b.allocated then idealFree cost size avail else avail)

/-- `sem_destroy` on a pointer. -/
def semDestroyAt : Option Semaphore → TaskSystem → Except Fault (Option Semaphore × TaskSystem)
  | none, S => .ok (none, S)
  | some s, S => do
      let r ← semDestroy s S
      .ok (some r.1, r.2)

/-- The end of `mqueue_create`, from the allocation of the struct on. -/
def mqueueCreateStruct (granted : Bool) (size : Int) (q : MessageQueue) (S : TaskSystem)
    (avail : Int) : Except Fault (Option MessageQueue × TaskSystem × Int) := do
  let a := idealAlloc cost granted sizeofMqueue avail
  if a.1 then .ok (some q, S, a.2)
  else
    let d := circularBufferDestroy cost q.buff size a.2
    let space ← semDestroyAt q.spaceAvailable S
    let items ← semDestroyAt q.itemsAvailable space.2
    let buffer ← semDestroyAt q.buffer items.2
    .ok (none, buffer.2, d.2)

/-- `mqueue_create`, where the block of the ring holds `bytes`: the queue, the tasks,
and `mem_avail` after the call. -/
def mqueueCreateIn (g : Grants) (maxMsgs msgSize : Int) (bytes : Int → UInt8) (S : TaskSystem)
    (avail : Int) : Except Fault (Option MessageQueue × TaskSystem × Int) :=
  if maxMsgs ≤ 0 ∨ msgSize ≤ 1 then .ok (none, S, avail)
  else
    let size := ringBytes maxMsgs msgSize
    let a := idealAlloc cost g.ring size avail
    let b := circularBufferCreate maxMsgs msgSize (if a.1 then some bytes else none)
    match semCreateIn cost g.space g.spaceQueue maxMsgs a.2 with
    | (none, avail) => .ok (none, S, (circularBufferDestroy cost b size avail).2)
    | (some space, avail) =>
        match semCreateIn cost g.items g.itemsQueue 0 avail with
        | (none, avail) => do
            let d := circularBufferDestroy cost b size avail
            let space ← semDestroyAt (some space) S
            .ok (none, space.2, d.2)
        | (some items, avail) =>
            match semCreateIn cost g.buffer g.bufferQueue 1 avail with
            | (none, avail) => do
                -- the cleanup has no return
                let d := circularBufferDestroy cost b size avail
                let space ← semDestroyAt (some space) S
                let items ← semDestroyAt (some items) space.2
                mqueueCreateStruct cost g.queue size ⟨d.1, space.1, items.1, none⟩ items.2 d.2
            | (some buffer, avail) =>
                mqueueCreateStruct cost g.queue size ⟨b, some space, some items, some buffer⟩
                  S avail

end

/-- The semaphore that `sem_create(value)` returns. -/
def freshSemaphore (value : Int) : Semaphore := ⟨false, queueCreate, value, false⟩

/-! ## One allocation -/

variable {cost : Int → Int} {avail : Int}

theorem idealAlloc_eq (granted : Bool) {size : Int} (hsize : 0 < size) :
    idealAlloc cost granted size avail =
      if granted then (true, avail - cost size) else (false, avail) := by
  rw [idealAlloc]
  cases granted <;> simp [hsize]

/-- **`sem_create`** keeps what it allocated, or nothing. -/
theorem semCreateIn_eq (granted grantedQueue : Bool) {value : Int} (hvalue : 0 ≤ value) :
    semCreateIn cost granted grantedQueue value avail =
      if granted ∧ grantedQueue then (some (freshSemaphore value), avail - cost sizeofSemaphore)
      else (none, avail) := by
  rw [semCreateIn, if_neg (by omega), idealAlloc_eq granted (by decide)]
  cases granted with
  | false => rfl
  | true =>
      cases grantedQueue with
      | false => simp [idealFree]
      | true => simp [semCreate, freshSemaphore, hvalue]

/-- `sem_destroy` of a semaphore nobody waits for only marks it. -/
theorem semDestroyAt_fresh (value : Int) (S : TaskSystem) :
    semDestroyAt (some (freshSemaphore value)) S =
      .ok (some { freshSemaphore value with destroy := true }, S) := rfl

/-! ## The whole call -/

/-- Every allocation of `mqueue_create` is granted, a ring buffer of `size` bytes first. -/
def Grants.All (g : Grants) (size : Int) : Prop :=
  (g.ring ∧ 0 < size) ∧ (g.space ∧ g.spaceQueue) ∧ (g.items ∧ g.itemsQueue) ∧
    (g.buffer ∧ g.bufferQueue) ∧ g.queue

/-- **All or nothing**: a queue exactly where every allocation is granted, with its ring
buffer and its three semaphores, and else the memory that was there before. -/
structure AllOrNothing (g : Grants) (size avail : Int)
    (r : Option MessageQueue × TaskSystem × Int) : Prop where
  queue : r.1.isSome ↔ g.All size
  whole : ∀ q, r.1 = some q → q.buff.allocated = true ∧ q.spaceAvailable.isSome ∧
    q.itemsAvailable.isSome ∧ q.buffer.isSome
  restored : r.1 = none → r.2.2 = avail

variable {g : Grants} {maxMsgs msgSize : Int} {bytes : Int → UInt8} {S : TaskSystem}

/-- The ring that `circular_buffer_create` returns. -/
def ringOf (g : Grants) (maxMsgs msgSize : Int) (bytes : Int → UInt8) : CircularBuffer :=
  circularBufferCreate maxMsgs msgSize
    (if g.ring ∧ 0 < ringBytes maxMsgs msgSize then some bytes else none)

theorem ringOf_allocated (g : Grants) (bytes : Int → UInt8) (hmax : 1 ≤ maxMsgs)
    (hmsg : 2 ≤ msgSize) :
    (ringOf g maxMsgs msgSize bytes).allocated = true ↔
      g.ring ∧ 0 < ringBytes maxMsgs msgSize := by
  rw [ringOf]
  by_cases hring : g.ring = true ∧ 0 < ringBytes maxMsgs msgSize
  · rw [if_pos hring, circularBufferCreate, if_neg (by omega)]
    exact iff_of_true rfl hring
  · rw [if_neg hring, circularBufferCreate]
    exact iff_of_false (by simp) hring

/-- What the ring buffer takes from the heap. -/
def ringCost (cost : Int → Int) (g : Grants) (size : Int) : Int :=
  if g.ring ∧ 0 < size then cost size else 0

theorem idealAlloc_ring (cost : Int → Int) (g : Grants) (size avail : Int) :
    (idealAlloc cost g.ring size avail).1 = decide (g.ring ∧ 0 < size) ∧
      (idealAlloc cost g.ring size avail).2 = avail - ringCost cost g size := by
  rw [idealAlloc, ringCost]
  by_cases hring : g.ring = true ∧ 0 < size
  · rw [if_pos hring, if_pos hring]
    exact ⟨by simp [hring], rfl⟩
  · rw [if_neg hring, if_neg hring]
    exact ⟨by simp [hring], by omega⟩

/-- **`circular_buffer_destroy`** gives back what `circular_buffer_create` took. -/
theorem circularBufferDestroy_ring (cost : Int → Int) (g : Grants) (bytes : Int → UInt8)
    (avail : Int) (hmax : 1 ≤ maxMsgs) (hmsg : 2 ≤ msgSize) :
    (circularBufferDestroy cost (ringOf g maxMsgs msgSize bytes)
      (ringBytes maxMsgs msgSize) avail).2 =
      avail + ringCost cost g (ringBytes maxMsgs msgSize) := by
  have hiff := ringOf_allocated g bytes hmax hmsg
  rw [circularBufferDestroy, ringCost]
  by_cases hring : g.ring = true ∧ 0 < ringBytes maxMsgs msgSize
  · rw [if_pos hring, if_pos (hiff.mpr hring)]
    rfl
  · rw [if_neg hring, if_neg (fun h => hring (hiff.mp h))]
    omega

/-- The struct is granted, or everything is destroyed again. -/
theorem mqueueCreateStruct_eq (granted : Bool) (size : Int) (b : CircularBuffer) (v : Int) :
    mqueueCreateStruct cost granted size ⟨b, some (freshSemaphore v), some (freshSemaphore 0),
        some (freshSemaphore 1)⟩ S avail =
      .ok (if granted then (some ⟨b, some (freshSemaphore v), some (freshSemaphore 0),
          some (freshSemaphore 1)⟩, S, avail - cost sizeofMqueue)
        else (none, S, (circularBufferDestroy cost b size avail).2)) := by
  cases granted <;> rfl

theorem mqueueCreateStruct_destroyed (granted : Bool) (size : Int) (b : CircularBuffer)
    (v : Int) :
    mqueueCreateStruct cost granted size ⟨{ b with allocated := false },
        some { freshSemaphore v with destroy := true },
        some { freshSemaphore 0 with destroy := true }, none⟩ S avail =
      .ok (if granted then (some ⟨{ b with allocated := false },
          some { freshSemaphore v with destroy := true },
          some { freshSemaphore 0 with destroy := true }, none⟩, S, avail - cost sizeofMqueue)
        else (none, S, avail)) := by
  cases granted <;> rfl

/-- The ring that `mqueue_create` goes on with, and `mem_avail` then. -/
theorem mqueueCreateIn_ring (hmax : 1 ≤ maxMsgs) (hmsg : 2 ≤ msgSize) :
    mqueueCreateIn cost g maxMsgs msgSize bytes S avail =
      let size := ringBytes maxMsgs msgSize
      let b := ringOf g maxMsgs msgSize bytes
      let left := avail - ringCost cost g size
      if g.space ∧ g.spaceQueue then
        if g.items ∧ g.itemsQueue then
          if g.buffer ∧ g.bufferQueue then
            mqueueCreateStruct cost g.queue size ⟨b, some (freshSemaphore maxMsgs),
              some (freshSemaphore 0), some (freshSemaphore 1)⟩ S
              (left - 3 * cost sizeofSemaphore)
          else
            mqueueCreateStruct cost g.queue size ⟨{ b with allocated := false },
              some { freshSemaphore maxMsgs with destroy := true },
              some { freshSemaphore 0 with destroy := true }, none⟩ S
              (avail - 2 * cost sizeofSemaphore)
        else .ok (none, S, avail - cost sizeofSemaphore)
      else .ok (none, S, avail) := by
  obtain ⟨hgrant, havail⟩ := idealAlloc_ring cost g (ringBytes maxMsgs msgSize) avail
  have hback : ∀ left, (circularBufferDestroy cost (ringOf g maxMsgs msgSize bytes)
      (ringBytes maxMsgs msgSize) left).2 = _ := fun left =>
    circularBufferDestroy_ring cost g bytes left hmax hmsg
  rw [mqueueCreateIn, if_neg (by omega)]
  simp only [hgrant, havail, decide_eq_true_eq]
  rw [show circularBufferCreate maxMsgs msgSize _ = ringOf g maxMsgs msgSize bytes from rfl]
  rw [semCreateIn_eq _ _ (show 0 ≤ maxMsgs by omega)]
  by_cases hspace : g.space = true ∧ g.spaceQueue = true
  · rw [if_pos hspace, if_pos hspace]
    simp only
    rw [semCreateIn_eq _ _ (le_refl 0)]
    by_cases hitems : g.items = true ∧ g.itemsQueue = true
    · rw [if_pos hitems, if_pos hitems]
      simp only
      rw [semCreateIn_eq _ _ (show (0 : Int) ≤ 1 by decide)]
      by_cases hbuffer : g.buffer = true ∧ g.bufferQueue = true
      · rw [if_pos hbuffer, if_pos hbuffer]
        simp only
        congr 1
        omega
      · rw [if_neg hbuffer, if_neg hbuffer]
        simp only [semDestroyAt_fresh, bind, Except.bind, hback]
        congr 1
        omega
    · rw [if_neg hitems, if_neg hitems]
      simp only [semDestroyAt_fresh, bind, Except.bind, hback]
      congr 3
      omega
  · rw [if_neg hspace, if_neg hspace]
    simp only [hback]
    congr 3
    omega

/-- **`mqueue_create` is all or nothing** exactly where every allocation is granted, or
the first semaphore is not. -/
theorem mqueue_create_atomic_iff (hcost : ∀ size, 0 < size → 0 < cost size)
    (hmax : 1 ≤ maxMsgs) (hmsg : 2 ≤ msgSize) (g : Grants) (bytes : Int → UInt8)
    (S : TaskSystem) (avail : Int) :
    (∃ r, mqueueCreateIn cost g maxMsgs msgSize bytes S avail = .ok r ∧
      AllOrNothing g (ringBytes maxMsgs msgSize) avail r) ↔
      g.All (ringBytes maxMsgs msgSize) ∨ ¬ (g.space ∧ g.spaceQueue) := by
  have hsem := hcost sizeofSemaphore (by decide)
  have hback := circularBufferDestroy_ring cost g bytes
    (avail - ringCost cost g (ringBytes maxMsgs msgSize) - 3 * cost sizeofSemaphore) hmax hmsg
  have hring := ringOf_allocated g bytes hmax hmsg
  rw [mqueueCreateIn_ring hmax hmsg]
  simp only [mqueueCreateStruct_eq, mqueueCreateStruct_destroyed]
  by_cases hspace : g.space = true ∧ g.spaceQueue = true
  · rw [if_pos hspace]
    by_cases hitems : g.items = true ∧ g.itemsQueue = true
    · rw [if_pos hitems]
      by_cases hbuffer : g.buffer = true ∧ g.bufferQueue = true
      · rw [if_pos hbuffer]
        cases hqueue : g.queue with
        | true =>
            simp only [if_true]
            by_cases hall : g.ring = true ∧ 0 < ringBytes maxMsgs msgSize
            · refine iff_of_true ⟨_, rfl, ?_, ?_, fun hnone => absurd hnone (by simp)⟩
                (.inl ⟨hall, hspace, hitems, hbuffer, hqueue⟩)
              · exact iff_of_true rfl ⟨hall, hspace, hitems, hbuffer, hqueue⟩
              · rintro q hq
                obtain rfl := Option.some.inj hq
                exact ⟨hring.mpr hall, rfl, rfl, rfl⟩
            · -- no ring buffer: a queue is returned all the same
              refine iff_of_false ?_ ?_
              · rintro ⟨r, hr, hok⟩
                obtain rfl := Except.ok.inj hr
                exact hall (hok.queue.mp rfl).1
              · rintro (h | h)
                · exact hall h.1
                · exact h hspace
        | false =>
            -- the semaphores are destroyed but not freed
            refine iff_of_false ?_ ?_
            · rintro ⟨r, hr, hok⟩
              obtain rfl := Except.ok.inj hr
              have hleft := hok.restored rfl
              simp only [Bool.false_eq_true, if_false] at hleft
              rw [hback] at hleft
              omega
            · rintro (h | h)
              · exact absurd (hqueue.symm.trans h.2.2.2.2) (by decide)
              · exact h hspace
      · rw [if_neg hbuffer]
        refine iff_of_false ?_ ?_
        · rintro ⟨r, hr, hok⟩
          obtain rfl := Except.ok.inj hr
          cases hqueue : g.queue with
          | true =>
              rw [hqueue] at hok
              exact hbuffer (hok.queue.mp rfl).2.2.2.1
          | false =>
              rw [hqueue] at hok
              have hleft : avail - 2 * cost sizeofSemaphore = avail := hok.restored rfl
              omega
        · rintro (h | h)
          · exact hbuffer h.2.2.2.1
          · exact h hspace
    · rw [if_neg hitems]
      refine iff_of_false ?_ ?_
      · rintro ⟨r, hr, hok⟩
        obtain rfl := Except.ok.inj hr
        have hleft : avail - cost sizeofSemaphore = avail := hok.restored rfl
        omega
      · rintro (h | h)
        · exact hitems h.2.2.1
        · exact h hspace
  · rw [if_neg hspace]
    refine iff_of_true ⟨_, rfl, iff_of_false (by simp) fun h => hspace h.2.1,
      fun q hq => absurd hq (by simp), fun _ => rfl⟩ (.inr hspace)

/-- A queue of four messages of eight bytes, with nothing refused. -/
theorem mqueue_create_atomic_granted :
    ∃ r, mqueueCreateIn id .full 4 8 (fun _ => 0) dispatcherInit 1000 = .ok r ∧
      AllOrNothing .full (ringBytes 4 8) 1000 r :=
  (mqueue_create_atomic_iff (fun _ h => h) (by decide) (by decide) _ _ _ _).mpr
    (Or.inl ⟨by decide, ⟨rfl, rfl⟩, ⟨rfl, rfl⟩, ⟨rfl, rfl⟩, rfl⟩)

/-- **A queue without its third semaphore.**  With only that one refused, `mqueue_create`
destroys what it has and returns a queue. -/
theorem mqueue_create_partial :
    ¬ ∃ r, mqueueCreateIn id { Grants.full with buffer := false } 4 8 (fun _ => 0)
        dispatcherInit 1000 = .ok r ∧
      AllOrNothing { Grants.full with buffer := false } (ringBytes 4 8) 1000 r := by
  rintro ⟨r, hr, hok⟩
  obtain rfl := Except.ok.inj hr
  exact absurd (hok.queue.mp rfl).2.2.2.1.1 (by decide)

end PingPongOS
