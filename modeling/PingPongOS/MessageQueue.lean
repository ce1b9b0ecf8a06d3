import PingPongOS.RingBuffer
import PingPongOS.Runs

/-!
# Message queues under interleaving

`mqueue_send` and `mqueue_recv` of `mqueue.c`, statement by statement, for any
number of tasks.  Each task is at a program point; `sem_down` and `sem_up` are the
operations of counting semaphores, a task that would block just not moving.  The
messages copied in and out are recorded beside the queue, in the order of the
`memcpy`s.
-/

namespace PingPongOS

open Runs

/-- `struct mqueue_t`, with the values of its three semaphores. -/
structure MQueue where
  buff : CircularBuffer
  spaceAvailable : Int
  itemsAvailable : Int
  buffer : Int

/-- `mqueue_create`, where the ring buffer got `block` from `mem_alloc` and the
other allocations succeed. -/
def mqueueCreate (maxMsgs msgSize : Int) (block : Option (Int → UInt8)) : Option MQueue :=
  if maxMsgs ≤ 0 ∨ msgSize ≤ 1 then none
  else some ⟨circularBufferCreate maxMsgs msgSize block, maxMsgs, 0, 1⟩

/-- `mqueue_msgs`. -/
def mqueueMsgs (q : MQueue) : Int := q.buff.itemQuant

/-- The next statement of a task: `outside` of the two functions, in
`mqueue_send(msg)` with its `circular_buffer_add`, or in `mqueue_recv` with its
`circular_buffer_remove`. -/
inductive Point
  | outside
  | downSpace (msg : Nat → UInt8)
  | downBuffer (msg : Nat → UInt8)
  | addCheck (msg : Nat → UInt8)
  | addBranch (msg : Nat → UInt8)
  | addFirst (msg : Nat → UInt8)
  | addOffset (msg : Nat → UInt8)
  | addCopy (msg : Nat → UInt8) (offset : Int)
  | addEnd
  | addCount
  | upBuffer
  | upItems
  | recvDownItems
  | recvDownBuffer
  | removeCheck
  | removeBranch
  | removeOffset (several : Bool)
  | removeCopy (several : Bool) (offset : Int)
  | removeStart
  | removeCount
  | recvUpBuffer
  | recvUpSpace

/-- The queue, the tasks, and the messages copied in and out so far. -/
structure MQueueRun where
  queue : MQueue
  tasks : List Point
  added : List (List UInt8)
  removed : List (List UInt8)

/-- A task starts a call, or executes its next statement. -/
inductive MQueueEvent
  | send (i : Nat) (msg : Nat → UInt8)
  | recv (i : Nat)
  | next (i : Nat)

namespace MQueueRun

variable (w : MQueueRun)

/-- `n` tasks outside of the two functions. -/
def start (q : MQueue) (n : Nat) : MQueueRun := ⟨q, List.replicate n .outside, [], []⟩

/-- Task `i` goes on at `p`. -/
@[simp] def goto (i : Nat) (p : Point) : MQueueRun := { w with tasks := w.tasks.set i p }

/-- Write the ring. -/
@[simp] def setBuff (b : CircularBuffer) : MQueueRun :=
  { w with queue := { w.queue with buff := b } }

/-- The next statement of task `i`, which is at `p`; `none` is a task that is
blocked in `sem_down`, or outside. -/
def statement (i : Nat) : Point → Option MQueueRun
  | .outside => none
  -- mqueue_send
  | .downSpace msg =>
      if 0 < w.queue.spaceAvailable then
        some ({ w with queue := { w.queue with
          spaceAvailable := w.queue.spaceAvailable - 1 } }.goto i (.downBuffer msg))
      else none
  | .downBuffer msg =>
      if 0 < w.queue.buffer then
        some ({ w with queue := { w.queue with
          buffer := w.queue.buffer - 1 } }.goto i (.addCheck msg))
      else none
  -- circular_buffer_add
  | .addCheck msg =>
      if w.queue.buff.itemQuant = w.queue.buff.maxCapacity then
        -- CB_FULL_BUFFER: mqueue_send returns ERROR
        some (w.goto i .outside)
      else some (w.goto i (.addBranch msg))
  | .addBranch msg =>
      if w.queue.buff.itemQuant = 0 then some (w.goto i (.addFirst msg))
      else if 1 ≤ w.queue.buff.itemQuant then some (w.goto i (.addOffset msg))
      else some (w.goto i .addCount)
  | .addFirst msg =>
      let b := w.queue.buff
      some (({ w with added := w.added ++ [message b.itemSize msg] }.setBuff
        (b.store (mulInt b.start b.itemSize) msg)).goto i .addCount)
  | .addOffset msg =>
      some (w.goto i (.addCopy msg (mulInt w.queue.buff.nextEnd w.queue.buff.itemSize)))
  | .addCopy msg offset =>
      let b := w.queue.buff
      some (({ w with added := w.added ++ [message b.itemSize msg] }.setBuff
        (b.store offset msg)).goto i .addEnd)
  | .addEnd =>
      let b := w.queue.buff
      some ((w.setBuff { b with end_ := b.nextEnd }).goto i .addCount)
  | .addCount =>
      let b := w.queue.buff
      some ((w.setBuff { b with itemQuant := b.itemQuant + 1 }).goto i .upBuffer)
  | .upBuffer =>
      some ({ w with queue := { w.queue with buffer := w.queue.buffer + 1 } }.goto i .upItems)
  | .upItems =>
      some ({ w with queue := { w.queue with
        itemsAvailable := w.queue.itemsAvailable + 1 } }.goto i .outside)
  -- mqueue_recv
  | .recvDownItems =>
      if 0 < w.queue.itemsAvailable then
        some ({ w with queue := { w.queue with
          itemsAvailable := w.queue.itemsAvailable - 1 } }.goto i .recvDownBuffer)
      else none
  | .recvDownBuffer =>
      if 0 < w.queue.buffer then
        some ({ w with queue := { w.queue with
          buffer := w.queue.buffer - 1 } }.goto i .removeCheck)
      else none
  -- circular_buffer_remove
  | .removeCheck =>
      if w.queue.buff.itemQuant = 0 then
        -- CB_EMPTY_BUFFER, which mqueue_recv does not tell from success
        some (w.goto i .recvUpBuffer)
      else some (w.goto i .removeBranch)
  | .removeBranch =>
      if 1 < w.queue.buff.itemQuant then some (w.goto i (.removeOffset true))
      else if w.queue.buff.itemQuant = 1 then some (w.goto i (.removeOffset false))
      else some (w.goto i .removeCount)
  | .removeOffset several =>
      some (w.goto i (.removeCopy several (mulInt w.queue.buff.start w.queue.buff.itemSize)))
  | .removeCopy several offset =>
      let b := w.queue.buff
      some ({ w with removed := w.removed ++ [copyOut b.bytes offset b.itemSize] }.goto i
        (if several then .removeStart else .removeCount))
  | .removeStart =>
      let b := w.queue.buff
      some ((w.setBuff { b with start := b.nextStart }).goto i .removeCount)
  | .removeCount =>
      let b := w.queue.buff
      some ((w.setBuff { b with itemQuant := b.itemQuant - 1 }).goto i .recvUpBuffer)
  | .recvUpBuffer =>
      some ({ w with queue := { w.queue with buffer := w.queue.buffer + 1 } }.goto i .recvUpSpace)
  | .recvUpSpace =>
      some ({ w with queue := { w.queue with
        spaceAvailable := w.queue.spaceAvailable + 1 } }.goto i .outside)

/-- One event of the run. -/
def step : MQueueEvent → Option MQueueRun
  | .send i msg =>
      match w.tasks[i]? with
      | some .outside => some (w.goto i (.downSpace msg))
      | _ => none
  | .recv i =>
      match w.tasks[i]? with
      | some .outside => some (w.goto i .recvDownItems)
      | _ => none
  | .next i =>
      match w.tasks[i]? with
      | some p => w.statement i p
      | none => none

end MQueueRun

/-! ## What the tasks hold -/

namespace Point

/-- Between `sem_down(buffer)` and `sem_up(buffer)`. -/
@[simp] def critical : Point → Bool
  | addCheck _ | addBranch _ | addFirst _ | addOffset _ | addCopy _ _ | addEnd | addCount
  | upBuffer | removeCheck | removeBranch | removeOffset _ | removeCopy _ _ | removeStart
  | removeCount | recvUpBuffer => true
  | _ => false

/-- Past `sem_down(space_available)`, with the message not yet counted. -/
@[simp] def holdsSpace : Point → Bool
  | downBuffer _ | addCheck _ | addBranch _ | addFirst _ | addOffset _ | addCopy _ _ | addEnd
  | addCount => true
  | _ => false

/-- Past `item_quant--`, with the space not yet returned. -/
@[simp] def returnsSpace : Point → Bool
  | recvUpBuffer | recvUpSpace => true
  | _ => false

/-- Past `sem_down(items_available)`, with the message still counted. -/
@[simp] def holdsItem : Point → Bool
  | recvDownBuffer | removeCheck | removeBranch | removeOffset _ | removeCopy _ _ | removeStart
  | removeCount => true
  | _ => false

/-- Past `item_quant++`, with the item not yet announced. -/
@[simp] def returnsItem : Point → Bool
  | upBuffer | upItems => true
  | _ => false

end Point

open Point

variable {w w' : MQueueRun} {M n : Nat}

/-- The ring holds `msgs` and its counters agree. -/
def Stored (b : CircularBuffer) (M n : Nat) (msgs : List (List UInt8)) : Prop :=
  ∃ s, Holds b M n s msgs ∧ EndAt b M s msgs.length

/-- The ring as the task in the critical section sees it, `msgs` being the messages
copied in and not out. -/
def Phase (b : CircularBuffer) (M n : Nat) (msgs : List (List UInt8)) : Point → Prop
  | .addBranch _ => Stored b M n msgs ∧ b.itemQuant = msgs.length ∧ msgs.length < M
  | .addFirst _ => Stored b M n msgs ∧ b.itemQuant = msgs.length ∧ msgs.length = 0
  | .addOffset _ => Stored b M n msgs ∧ b.itemQuant = msgs.length ∧ 1 ≤ msgs.length ∧
      msgs.length < M
  | .addCopy _ offset => ∃ s, Holds b M n s msgs ∧ EndAt b M s msgs.length ∧
      b.itemQuant = msgs.length ∧ 1 ≤ msgs.length ∧ msgs.length < M ∧
      offset = ((slot M s msgs.length * n : Nat) : Int)
  | .addEnd => ∃ s, Holds b M n s msgs ∧ EndAt b M s (msgs.length - 1) ∧
      b.itemQuant + 1 = msgs.length ∧ 2 ≤ msgs.length
  | .addCount => Stored b M n msgs ∧ b.itemQuant + 1 = msgs.length
  | .removeBranch => Stored b M n msgs ∧ b.itemQuant = msgs.length ∧ 1 ≤ msgs.length
  | .removeOffset several => Stored b M n msgs ∧ b.itemQuant = msgs.length ∧
      if several then 2 ≤ msgs.length else msgs.length = 1
  | .removeCopy several offset => ∃ s, Holds b M n s msgs ∧ EndAt b M s msgs.length ∧
      b.itemQuant = msgs.length ∧ offset = ((s * n : Nat) : Int) ∧
      if several then 2 ≤ msgs.length else msgs.length = 1
  | .removeStart => ∃ m, Stored b M n (m :: msgs) ∧ b.itemQuant = msgs.length + 1 ∧
      1 ≤ msgs.length
  | .removeCount => Stored b M n msgs ∧ b.itemQuant = msgs.length + 1
  | _ => Stored b M n msgs ∧ b.itemQuant = msgs.length

/-! ## How the statements of the critical section change the ring -/

variable {b : CircularBuffer} {msgs : List (List UInt8)} {msg : Nat → UInt8}

theorem Phase.addFirst (h : Phase b M n msgs (.addFirst msg)) (hpos : 0 < M) :
    Phase (b.store (mulInt b.start b.itemSize) msg) M n (msgs ++ [message b.itemSize msg])
      .addCount := by
  obtain ⟨⟨s, hholds, hend⟩, hquant, hlen⟩ := h
  obtain rfl := List.length_eq_zero_iff.mp hlen
  have hstore := hholds.store hpos msg
  rw [List.length_nil, slot_zero hholds.inRange, ← hholds.startOffset] at hstore
  exact ⟨⟨s, hstore, hend⟩, by simpa [CircularBuffer.store] using hquant⟩

theorem Phase.addOffset (h : Phase b M n msgs (.addOffset msg)) :
    Phase b M n msgs (.addCopy msg (mulInt b.nextEnd b.itemSize)) := by
  obtain ⟨⟨s, hholds, hend⟩, hquant, hpos, hroom⟩ := h
  exact ⟨s, hholds, hend, hquant, hpos, hroom, (hholds.offset hend hpos hroom).2⟩

theorem Phase.addCopy {offset : Int} (h : Phase b M n msgs (.addCopy msg offset)) :
    Phase (b.store offset msg) M n (msgs ++ [message b.itemSize msg]) .addEnd := by
  obtain ⟨s, hholds, hend, hquant, hpos, hroom, rfl⟩ := h
  refine ⟨s, hholds.store hroom msg, ?_, ?_, ?_⟩
  · rw [List.length_append, List.length_singleton, Nat.add_sub_cancel]
    exact hend
  · rw [List.length_append, List.length_singleton]
    change b.itemQuant + 1 = _
    omega
  · rw [List.length_append, List.length_singleton]
    omega

theorem Phase.addEnd (h : Phase b M n msgs .addEnd) :
    Phase { b with end_ := b.nextEnd } M n msgs .addCount := by
  obtain ⟨s, hholds, hend, hquant, htwo⟩ := h
  have hfits := hholds.fits
  refine ⟨⟨s, hholds.congr rfl rfl rfl rfl, ?_⟩, hquant⟩
  unfold EndAt at *
  simp only [CircularBuffer.nextEnd]
  rw [hend, hholds.capacity, tmod_slot hholds.inRange (by omega)]
  congr 2
  omega

theorem Phase.addCount (h : Phase b M n msgs .addCount) :
    Phase { b with itemQuant := b.itemQuant + 1 } M n msgs .upBuffer := by
  obtain ⟨⟨s, hholds, hend⟩, hquant⟩ := h
  exact ⟨⟨s, hholds.congr rfl rfl rfl rfl, hend⟩, hquant⟩

theorem Phase.removeOffset {several : Bool} (h : Phase b M n msgs (.removeOffset several)) :
    Phase b M n msgs (.removeCopy several (mulInt b.start b.itemSize)) := by
  obtain ⟨⟨s, hholds, hend⟩, hquant, hlen⟩ := h
  exact ⟨s, hholds, hend, hquant, hholds.startOffset, hlen⟩

/-- The message copied out is the oldest one. -/
theorem Phase.removeCopy {several : Bool} {offset : Int}
    (h : Phase b M n msgs (.removeCopy several offset)) :
    ∃ rest, msgs = copyOut b.bytes offset b.itemSize :: rest ∧
      Phase b M n rest (if several then .removeStart else .removeCount) := by
  obtain ⟨s, hholds, hend, hquant, rfl, hlen⟩ := h
  cases msgs with
  | nil => cases several <;> simp at hlen
  | cons m rest =>
      refine ⟨rest, by rw [hholds.oldest], ?_⟩
      simp only [List.length_cons] at hquant hlen hend
      cases several with
      | true =>
          simp only [if_true] at hlen ⊢
          exact ⟨m, ⟨s, hholds, hend⟩, by omega, by omega⟩
      | false =>
          simp only [Bool.false_eq_true, if_false] at hlen ⊢
          obtain rfl := List.length_eq_zero_iff.mp (by omega : rest.length = 0)
          refine ⟨⟨s, ⟨hholds.capacity, hholds.size, hholds.start, hholds.inRange,
            Nat.zero_le M, hholds.full, ?_⟩, hend⟩, by simpa using hquant⟩
          intro i hi
          exact absurd hi (Nat.not_lt_zero i)

theorem Phase.removeStart (h : Phase b M n msgs .removeStart) :
    Phase { b with start := b.nextStart } M n msgs .removeCount := by
  obtain ⟨m, ⟨s, hholds, hend⟩, hquant, hpos⟩ := h
  have hfits : msgs.length + 1 ≤ M := hholds.fits
  exact ⟨⟨slot M s 1, hholds.advance hpos, hend.advance hholds.inRange hpos hfits⟩, hquant⟩

theorem Phase.removeCount (h : Phase b M n msgs .removeCount) :
    Phase { b with itemQuant := b.itemQuant - 1 } M n msgs .recvUpBuffer := by
  obtain ⟨⟨s, hholds, hend⟩, hquant⟩ := h
  exact ⟨⟨s, hholds.congr rfl rfl rfl rfl, hend⟩, by simp only; omega⟩

/-! ## The invariant -/

/-- The task in the critical section, if there is one. -/
def inside (tasks : List Point) : Point := (tasks.find? critical).getD .outside

/-- The semaphores count what the tasks hold, one task at most is in the critical
section, and the ring holds the messages copied in and not out. -/
structure MQueueInv (M n : Nat) (w : MQueueRun) : Prop where
  values : 0 ≤ w.queue.spaceAvailable ∧ 0 ≤ w.queue.itemsAvailable ∧ 0 ≤ w.queue.buffer
  space : w.queue.spaceAvailable + w.tasks.countP holdsSpace + w.queue.buff.itemQuant +
    w.tasks.countP returnsSpace = M
  items : w.queue.itemsAvailable + w.tasks.countP returnsItem + w.tasks.countP holdsItem =
    w.queue.buff.itemQuant
  mutex : w.queue.buffer + w.tasks.countP critical = 1
  capacity : w.queue.buff.maxCapacity = M
  ring : ∃ msgs, w.added = w.removed ++ msgs ∧ Phase w.queue.buff M n msgs (inside w.tasks)

/-- One for a task that `f` holds of. -/
@[simp] def weight (f : Point → Bool) (p : Point) : Int := if f p then 1 else 0

theorem countP_split (f : Point → Bool) (pre post : List Point) (p : Point) :
    ((pre ++ p :: post).countP f : Int) = pre.countP f + weight f p + post.countP f := by
  rw [List.countP_append, List.countP_cons, weight]
  split <;> push_cast <;> omega

/-- Outside of the critical section the ring is at rest. -/
theorem phase_of_not_critical {p : Point} (hp : critical p = false) :
    Phase b M n msgs p ↔ Phase b M n msgs .outside := by
  cases p <;> first | exact Iff.rfl | exact absurd hp (by simp [critical])

/-- With nobody else in the critical section, the ring is as `p` sees it. -/
theorem phase_inside {pre post : List Point} {p : Point} (hpre : pre.countP critical = 0)
    (hpost : post.countP critical = 0) :
    Phase b M n msgs (inside (pre ++ p :: post)) ↔ Phase b M n msgs p := by
  have hfree : ∀ {l : List Point}, l.countP critical = 0 → l.find? critical = none := by
    intro l hl
    apply List.find?_eq_none.mpr
    intro x hx
    exact List.countP_eq_zero.mp hl x hx
  cases hp : critical p with
  | true =>
      rw [inside, List.find?_append, hfree hpre, List.find?_cons_of_pos hp]
      rfl
  | false =>
      rw [inside, List.find?_append, hfree hpre,
        List.find?_cons_of_neg (by rw [hp]; exact Bool.false_ne_true),
        hfree hpost, phase_of_not_critical hp]
      rfl

/-- Two tasks outside of the critical section are the same to the ring. -/
theorem inside_of_not_critical {pre post : List Point} {p p' : Point}
    (hp : critical p = false) (hp' : critical p' = false) :
    inside (pre ++ p' :: post) = inside (pre ++ p :: post) := by
  simp only [inside, List.find?_append, List.find?_cons, hp, hp']

/-- The tasks before and after task `i`. -/
theorem split_at {tasks : List Point} {i : Nat} {p : Point} (hp : tasks[i]? = some p) :
    ∃ pre post, tasks = pre ++ p :: post ∧ pre.length = i := by
  obtain ⟨hi, hget⟩ := List.getElem?_eq_some_iff.mp hp
  refine ⟨tasks.take i, tasks.drop (i + 1), ?_, List.length_take_of_le (Nat.le_of_lt hi)⟩
  rw [← hget, List.getElem_cons_drop, List.take_append_drop]

/-- The move of a task from `p` to `p'` keeps what the semaphores count. -/
structure Balanced (w w' : MQueueRun) (p p' : Point) : Prop where
  values : 0 ≤ w'.queue.spaceAvailable ∧ 0 ≤ w'.queue.itemsAvailable ∧ 0 ≤ w'.queue.buffer
  space : w'.queue.spaceAvailable + weight holdsSpace p' + w'.queue.buff.itemQuant +
    weight returnsSpace p' = w.queue.spaceAvailable + weight holdsSpace p +
    w.queue.buff.itemQuant + weight returnsSpace p
  items : w'.queue.itemsAvailable + weight returnsItem p' + weight holdsItem p' -
    w'.queue.buff.itemQuant = w.queue.itemsAvailable + weight returnsItem p +
    weight holdsItem p - w.queue.buff.itemQuant
  mutex : w'.queue.buffer + weight critical p' = w.queue.buffer + weight critical p
  capacity : w'.queue.buff.maxCapacity = w.queue.buff.maxCapacity

/-- **One task moves.**  If its move keeps what the semaphores count, and the ring
goes from the phase of `p` to that of `p'`, the invariant is kept. -/
theorem MQueueInv.move {pre post : List Point} {p p' : Point} (h : MQueueInv M n w)
    (htasks : w.tasks = pre ++ p :: post) (htasks' : w'.tasks = pre ++ p' :: post)
    (hbal : Balanced w w' p p')
    (hring : critical p ∨ critical p' → ∀ msgs, w.added = w.removed ++ msgs →
      Phase w.queue.buff M n msgs p →
      ∃ msgs', w'.added = w'.removed ++ msgs' ∧ Phase w'.queue.buff M n msgs' p')
    (hrest : critical p = false → critical p' = false →
      w'.queue.buff = w.queue.buff ∧ w'.added = w.added ∧ w'.removed = w.removed) :
    MQueueInv M n w' := by
  obtain ⟨hvalues, hspace, hitems, hmutex, hcap⟩ := hbal
  have hspace₀ := h.space
  have hitems₀ := h.items
  have hmutex₀ := h.mutex
  have hnonneg := h.values
  obtain ⟨msgs, hadded, hphase⟩ := h.ring
  rw [htasks] at hspace₀ hitems₀ hmutex₀ hphase
  simp only [countP_split] at hspace₀ hitems₀ hmutex₀
  refine ⟨hvalues, ?_, ?_, ?_, hcap.trans h.capacity, ?_⟩
  · rw [htasks']
    simp only [countP_split]
    omega
  · rw [htasks']
    simp only [countP_split]
    omega
  · rw [htasks']
    simp only [countP_split]
    omega
  · rw [htasks']
    by_cases hcrit : critical p = true ∨ critical p' = true
    · -- whoever is in the critical section is this task
      have hothers : pre.countP critical = 0 ∧ post.countP critical = 0 := by
        simp only [weight] at hmutex hmutex₀
        rcases hcrit with hp | hp
        · rw [if_pos hp] at hmutex₀
          omega
        · rw [if_pos hp] at hmutex
          omega
      rw [phase_inside hothers.1 hothers.2] at hphase
      obtain ⟨msgs', hadded', hphase'⟩ := hring hcrit msgs hadded hphase
      exact ⟨msgs', hadded', (phase_inside hothers.1 hothers.2).mpr hphase'⟩
    · rw [not_or, Bool.not_eq_true, Bool.not_eq_true] at hcrit
      obtain ⟨hbuff, ha, hr⟩ := hrest hcrit.1 hcrit.2
      rw [inside_of_not_critical hcrit.1 hcrit.2, hbuff, ha, hr]
      exact ⟨msgs, hadded, hphase⟩

/-- The ring is as the task in the critical section sees it. -/
theorem MQueueInv.phase_of_critical (h : MQueueInv M n w) {p : Point} (hp : p ∈ w.tasks)
    (hcrit : critical p = true) :
    ∃ msgs, w.added = w.removed ++ msgs ∧ Phase w.queue.buff M n msgs p := by
  obtain ⟨pre, post, htasks⟩ := List.append_of_mem hp
  have hmutex := h.mutex
  have hbuffer := h.values.2.2
  obtain ⟨msgs, hadded, hphase⟩ := h.ring
  rw [htasks, countP_split, weight, if_pos hcrit] at hmutex
  rw [htasks, phase_inside (by omega) (by omega)] at hphase
  exact ⟨msgs, hadded, hphase⟩

/-- A task that has taken space never meets a full ring. -/
theorem MQueueInv.not_full (h : MQueueInv M n w) {p : Point} (hp : p ∈ w.tasks)
    (hholds : holdsSpace p = true) : w.queue.buff.itemQuant ≠ w.queue.buff.maxCapacity := by
  have hcount : 0 < w.tasks.countP holdsSpace := List.countP_pos_iff.mpr ⟨p, hp, hholds⟩
  have := h.space
  have := h.values.1
  have := h.capacity
  omega

/-- A task that has taken an item never meets an empty ring. -/
theorem MQueueInv.not_empty (h : MQueueInv M n w) {p : Point} (hp : p ∈ w.tasks)
    (hholds : holdsItem p = true) : w.queue.buff.itemQuant ≠ 0 := by
  have hcount : 0 < w.tasks.countP holdsItem := List.countP_pos_iff.mpr ⟨p, hp, hholds⟩
  have := h.items
  have := h.values.2.1
  omega

/-- **One statement** keeps the invariant. -/
theorem MQueueInv.statement {i : Nat} {p : Point} (h : MQueueInv M n w)
    (hp : w.tasks[i]? = some p) (hstep : w.statement i p = some w') : MQueueInv M n w' := by
  obtain ⟨hspace, hitems, hbuffer⟩ := h.values
  have hmem : p ∈ w.tasks := List.mem_of_getElem? hp
  obtain ⟨pre, post, htasks, hlen⟩ := split_at hp
  have hset : ∀ p', w.tasks.set i p' = pre ++ p' :: post := by
    intro p'
    rw [htasks, ← hlen]
    simp
  cases p with
  | outside => exact absurd hstep (by simp [MQueueRun.statement])
  | downSpace msg =>
      by_cases hpos : 0 < w.queue.spaceAvailable
      · rw [MQueueRun.statement, if_pos hpos] at hstep
        obtain rfl := Option.some.inj hstep
        apply h.move htasks (hset _)
        · constructor <;> simp
          all_goals omega
        · simp
        · exact fun _ _ => ⟨rfl, rfl, rfl⟩
      · rw [MQueueRun.statement, if_neg hpos] at hstep
        exact absurd hstep (by simp)
  | downBuffer msg =>
      by_cases hpos : 0 < w.queue.buffer
      · rw [MQueueRun.statement, if_pos hpos] at hstep
        obtain rfl := Option.some.inj hstep
        apply h.move htasks (hset _)
        · constructor <;> simp
          all_goals omega
        · exact fun _ msgs ha hphase => ⟨msgs, ha, hphase⟩
        · simp [critical]
      · rw [MQueueRun.statement, if_neg hpos] at hstep
        exact absurd hstep (by simp)
  | addCheck msg =>
      rw [MQueueRun.statement, if_neg (h.not_full hmem rfl)] at hstep
      obtain rfl := Option.some.inj hstep
      apply h.move htasks (hset _)
      · constructor <;> simp
        all_goals omega
      · intro _ msgs ha hphase
        refine ⟨msgs, ha, hphase.1, hphase.2, ?_⟩
        have := h.not_full hmem rfl
        have := h.capacity
        obtain ⟨s, hholds, -⟩ := hphase.1
        have := hholds.fits
        have := hphase.2
        omega
      · simp [critical]
  | addBranch msg =>
      by_cases hzero : w.queue.buff.itemQuant = 0
      · rw [MQueueRun.statement, if_pos hzero] at hstep
        obtain rfl := Option.some.inj hstep
        apply h.move htasks (hset _)
        · constructor <;> simp
          all_goals omega
        · intro _ msgs ha hphase
          have := hphase.2.1
          exact ⟨msgs, ha, hphase.1, hphase.2.1, by omega⟩
        · simp
      · have hpos : 1 ≤ w.queue.buff.itemQuant := by
          obtain ⟨msgs, -, hphase⟩ := h.phase_of_critical hmem rfl
          have := hphase.2.1
          omega
        rw [MQueueRun.statement, if_neg hzero, if_pos hpos] at hstep
        obtain rfl := Option.some.inj hstep
        apply h.move htasks (hset _)
        · constructor <;> simp
          all_goals omega
        · intro _ msgs ha hphase
          have := hphase.2.1
          exact ⟨msgs, ha, hphase.1, hphase.2.1, by omega, hphase.2.2⟩
        · simp
  | addFirst msg =>
      obtain rfl := Option.some.inj hstep
      apply h.move htasks (hset _)
      · constructor <;> simp [CircularBuffer.store]
        all_goals omega
      · intro _ msgs ha hphase
        have hpos : 0 < M := by
          have := h.not_full hmem rfl
          have := h.capacity
          have := hphase.2.1
          have := hphase.2.2
          omega
        refine ⟨msgs ++ [message w.queue.buff.itemSize msg], ?_, hphase.addFirst hpos⟩
        simp [ha]
      · simp
  | addOffset msg =>
      obtain rfl := Option.some.inj hstep
      apply h.move htasks (hset _)
      · constructor <;> simp
        all_goals omega
      · exact fun _ msgs ha hphase => ⟨msgs, ha, hphase.addOffset⟩
      · simp
  | addCopy msg offset =>
      obtain rfl := Option.some.inj hstep
      apply h.move htasks (hset _)
      · constructor <;> simp [CircularBuffer.store]
        all_goals omega
      · intro _ msgs ha hphase
        refine ⟨msgs ++ [message w.queue.buff.itemSize msg], ?_, hphase.addCopy⟩
        simp [ha]
      · simp
  | addEnd =>
      obtain rfl := Option.some.inj hstep
      apply h.move htasks (hset _)
      · constructor <;> simp
        all_goals omega
      · exact fun _ msgs ha hphase => ⟨msgs, ha, hphase.addEnd⟩
      · simp
  | addCount =>
      obtain rfl := Option.some.inj hstep
      apply h.move htasks (hset _)
      · constructor <;> simp
        all_goals omega
      · exact fun _ msgs ha hphase => ⟨msgs, ha, hphase.addCount⟩
      · simp
  | upBuffer =>
      obtain rfl := Option.some.inj hstep
      apply h.move htasks (hset _)
      · constructor <;> simp
        all_goals omega
      · exact fun _ msgs ha hphase => ⟨msgs, ha, hphase⟩
      · simp
  | upItems =>
      obtain rfl := Option.some.inj hstep
      apply h.move htasks (hset _)
      · constructor <;> simp
        all_goals omega
      · simp
      · exact fun _ _ => ⟨rfl, rfl, rfl⟩
  | recvDownItems =>
      by_cases hpos : 0 < w.queue.itemsAvailable
      · rw [MQueueRun.statement, if_pos hpos] at hstep
        obtain rfl := Option.some.inj hstep
        apply h.move htasks (hset _)
        · constructor <;> simp
          all_goals omega
        · simp
        · exact fun _ _ => ⟨rfl, rfl, rfl⟩
      · rw [MQueueRun.statement, if_neg hpos] at hstep
        exact absurd hstep (by simp)
  | recvDownBuffer =>
      by_cases hpos : 0 < w.queue.buffer
      · rw [MQueueRun.statement, if_pos hpos] at hstep
        obtain rfl := Option.some.inj hstep
        apply h.move htasks (hset _)
        · constructor <;> simp
          all_goals omega
        · exact fun _ msgs ha hphase => ⟨msgs, ha, hphase⟩
        · simp
      · rw [MQueueRun.statement, if_neg hpos] at hstep
        exact absurd hstep (by simp)
  | removeCheck =>
      have hne := h.not_empty hmem rfl
      rw [MQueueRun.statement, if_neg hne] at hstep
      obtain rfl := Option.some.inj hstep
      apply h.move htasks (hset _)
      · constructor <;> simp
        all_goals omega
      · intro _ msgs ha hphase
        have := hphase.2
        exact ⟨msgs, ha, hphase.1, hphase.2, by omega⟩
      · simp
  | removeBranch =>
      by_cases hseveral : 1 < w.queue.buff.itemQuant
      · rw [MQueueRun.statement, if_pos hseveral] at hstep
        obtain rfl := Option.some.inj hstep
        apply h.move htasks (hset _)
        · constructor <;> simp
          all_goals omega
        · intro _ msgs ha hphase
          have := hphase.2.1
          exact ⟨msgs, ha, hphase.1, hphase.2.1, by simp only [if_true]; omega⟩
        · simp
      · have hone : w.queue.buff.itemQuant = 1 := by
          obtain ⟨msgs, -, hphase⟩ := h.phase_of_critical hmem rfl
          have := hphase.2.1
          have := hphase.2.2
          omega
        rw [MQueueRun.statement, if_neg hseveral, if_pos hone] at hstep
        obtain rfl := Option.some.inj hstep
        apply h.move htasks (hset _)
        · constructor <;> simp
          all_goals omega
        · intro _ msgs ha hphase
          have := hphase.2.1
          exact ⟨msgs, ha, hphase.1, hphase.2.1, by
            simp only [Bool.false_eq_true, if_false]; omega⟩
        · simp
  | removeOffset several =>
      obtain rfl := Option.some.inj hstep
      apply h.move htasks (hset _)
      · constructor <;> simp
        all_goals omega
      · exact fun _ msgs ha hphase => ⟨msgs, ha, hphase.removeOffset⟩
      · simp
  | removeCopy several offset =>
      obtain rfl := Option.some.inj hstep
      apply h.move htasks (hset _)
      · cases several <;> constructor <;> simp
        all_goals omega
      · intro _ msgs ha hphase
        obtain ⟨rest, hmsgs, hphase'⟩ := hphase.removeCopy
        refine ⟨rest, ?_, hphase'⟩
        change w.added = (w.removed ++ [copyOut _ _ _]) ++ rest
        rw [ha, List.append_assoc]
        exact congrArg _ hmsgs
      · simp
  | removeStart =>
      obtain rfl := Option.some.inj hstep
      apply h.move htasks (hset _)
      · constructor <;> simp
        all_goals omega
      · exact fun _ msgs ha hphase => ⟨msgs, ha, hphase.removeStart⟩
      · simp
  | removeCount =>
      obtain rfl := Option.some.inj hstep
      apply h.move htasks (hset _)
      · constructor <;> simp
        all_goals omega
      · exact fun _ msgs ha hphase => ⟨msgs, ha, hphase.removeCount⟩
      · simp
  | recvUpBuffer =>
      obtain rfl := Option.some.inj hstep
      apply h.move htasks (hset _)
      · constructor <;> simp
        all_goals omega
      · exact fun _ msgs ha hphase => ⟨msgs, ha, hphase⟩
      · simp
  | recvUpSpace =>
      obtain rfl := Option.some.inj hstep
      apply h.move htasks (hset _)
      · constructor <;> simp
        all_goals omega
      · simp
      · exact fun _ _ => ⟨rfl, rfl, rfl⟩

/-! ## Runs -/

/-- A queue whose ring buffer was allocated in full, with all tasks outside. -/
theorem mqueueInv_start {maxMsgs msgSize : Int} {bytes : Int → UInt8} {q : MQueue}
    (hcreate : mqueueCreate maxMsgs msgSize (some bytes) = some q)
    (hfull : maxMsgs * msgSize < 2 ^ 31) (tasks : Nat) :
    MQueueInv maxMsgs.toNat msgSize.toNat (MQueueRun.start q tasks) := by
  by_cases hargs : maxMsgs ≤ 0 ∨ msgSize ≤ 1
  · rw [mqueueCreate, if_pos hargs] at hcreate
    exact absurd hcreate (by simp)
  rw [mqueueCreate, if_neg hargs, circularBufferCreate, if_neg (by omega)] at hcreate
  obtain rfl := Option.some.inj hcreate
  obtain ⟨M, rfl⟩ : ∃ M : Nat, maxMsgs = M := ⟨maxMsgs.toNat, by omega⟩
  obtain ⟨n, rfl⟩ : ∃ n : Nat, msgSize = n := ⟨msgSize.toNat, by omega⟩
  have hnone : ∀ f : Point → Bool, f .outside = false →
      (List.replicate tasks Point.outside).countP f = 0 := by
    intro f hf
    apply List.countP_eq_zero.mpr
    intro p hp
    rw [List.eq_of_mem_replicate hp, hf]
    exact Bool.false_ne_true
  have hinside : inside (List.replicate tasks Point.outside) = .outside := by
    rw [inside, List.find?_eq_none.mpr]
    · rfl
    · intro p hp
      rw [List.eq_of_mem_replicate hp]
      exact Bool.false_ne_true
  refine ⟨?_, ?_, ?_, ?_, rfl, [], rfl, ?_⟩
  · simp [MQueueRun.start]
  · simp only [MQueueRun.start, hnone holdsSpace rfl, hnone returnsSpace rfl]
    omega
  · simp only [MQueueRun.start, hnone holdsItem rfl, hnone returnsItem rfl]
    omega
  · simp only [MQueueRun.start, hnone critical rfl]
    omega
  · rw [MQueueRun.start, hinside, Int.toNat_natCast, Int.toNat_natCast]
    refine ⟨⟨0, ⟨rfl, rfl, rfl, by omega, Nat.zero_le M, by exact_mod_cast hfull, ?_⟩, ?_⟩, rfl⟩
    · intro i hi
      exact absurd hi (Nat.not_lt_zero i)
    · rw [EndAt, List.length_nil, slot_zero (by omega)]
      rfl

/-- A task that starts a call changes nothing that is counted. -/
theorem MQueueInv.enter {i : Nat} {p : Point} (h : MQueueInv M n w)
    (hi : w.tasks[i]? = some .outside) (hp : p = .recvDownItems ∨ ∃ msg, p = .downSpace msg) :
    MQueueInv M n (w.goto i p) := by
  obtain ⟨hspace, hitems, hbuffer⟩ := h.values
  obtain ⟨pre, post, htasks, hlen⟩ := split_at hi
  have hset : (w.goto i p).tasks = pre ++ p :: post := by
    rw [MQueueRun.goto, htasks, ← hlen]
    simp
  rcases hp with rfl | ⟨msg, rfl⟩
  · apply h.move htasks hset
    · constructor <;> simp
      all_goals omega
    · simp
    · exact fun _ _ => ⟨rfl, rfl, rfl⟩
  · apply h.move htasks hset
    · constructor <;> simp
      all_goals omega
    · simp
    · exact fun _ _ => ⟨rfl, rfl, rfl⟩

/-- **One event** keeps the invariant. -/
theorem MQueueInv.step {e : MQueueEvent} (h : MQueueInv M n w) (hstep : w.step e = some w') :
    MQueueInv M n w' := by
  cases e with
  | send i msg =>
      cases hi : w.tasks[i]? with
      | none => exact absurd hstep (by simp [MQueueRun.step, hi])
      | some p =>
          cases p
          case outside =>
            rw [MQueueRun.step, hi] at hstep
            obtain rfl := Option.some.inj hstep
            exact h.enter hi (Or.inr ⟨msg, rfl⟩)
          all_goals exact absurd hstep (by simp [MQueueRun.step, hi])
  | recv i =>
      cases hi : w.tasks[i]? with
      | none => exact absurd hstep (by simp [MQueueRun.step, hi])
      | some p =>
          cases p
          case outside =>
            rw [MQueueRun.step, hi] at hstep
            obtain rfl := Option.some.inj hstep
            exact h.enter hi (Or.inl rfl)
          all_goals exact absurd hstep (by simp [MQueueRun.step, hi])
  | next i =>
      cases hi : w.tasks[i]? with
      | none => exact absurd hstep (by simp [MQueueRun.step, hi])
      | some p =>
          rw [MQueueRun.step, hi] at hstep
          exact h.statement hi hstep

/-- **Messages are delivered in order.**  For a queue whose ring buffer was allocated
in full, any number of tasks and any interleaving of their statements, the messages
copied out are a prefix of the messages copied in, the number of messages stays
between `0` and `maxMsgs`, and no task meets a full ring in `circular_buffer_add` or
an empty one in `circular_buffer_remove`. -/
theorem mqueue_delivery {maxMsgs msgSize : Int} {bytes : Int → UInt8} {q : MQueue}
    {tasks : Nat} {events : List MQueueEvent}
    (hcreate : mqueueCreate maxMsgs msgSize (some bytes) = some q)
    (hfull : maxMsgs * msgSize < 2 ^ 31)
    (hrun : run MQueueRun.step (MQueueRun.start q tasks) events = some w) :
    w.removed <+: w.added ∧ 0 ≤ mqueueMsgs w.queue ∧ mqueueMsgs w.queue ≤ maxMsgs ∧
      (∀ msg, .addCheck msg ∈ w.tasks →
        w.queue.buff.itemQuant ≠ w.queue.buff.maxCapacity) ∧
      (.removeCheck ∈ w.tasks → w.queue.buff.itemQuant ≠ 0) := by
  have hinv : MQueueInv maxMsgs.toNat msgSize.toNat w :=
    invariant _ (fun _ _ _ h hs => h.step hs) (mqueueInv_start hcreate hfull tasks) hrun
  have hvalues := hinv.values
  have hspace := hinv.space
  have hitems := hinv.items
  have hmax : 0 < maxMsgs := by
    by_contra hneg
    rw [mqueueCreate, if_pos (by omega)] at hcreate
    exact absurd hcreate (by simp)
  obtain ⟨msgs, hadded, -⟩ := hinv.ring
  unfold mqueueMsgs
  exact ⟨⟨msgs, hadded.symm⟩, by omega, by omega, fun msg hmem => hinv.not_full hmem rfl,
    fun hmem => hinv.not_empty hmem rfl⟩

/-- Two tasks on a queue of one message of two bytes. -/
theorem mqueue_delivery_two_tasks :
    ∃ q w, mqueueCreate 1 2 (some fun _ => 0) = some q ∧
      run MQueueRun.step (MQueueRun.start q 2) ([MQueueEvent.send 0 fun _ => 7, .recv 1] ++
        List.replicate 8 (MQueueEvent.next 0) ++ List.replicate 8 (MQueueEvent.next 1)) = some w ∧
      w.removed = [[7, 7]] ∧ w.removed <+: w.added := by
  let q : MQueue := ⟨⟨true, fun _ => 0, 2, 0, 1, 0, 0⟩, 1, 0, 1⟩
  have hcreate : mqueueCreate 1 2 (some fun _ => 0) = some q := rfl
  have hremoved : (run MQueueRun.step (MQueueRun.start q 2)
      ([MQueueEvent.send 0 fun _ => 7, .recv 1] ++
      List.replicate 8 (MQueueEvent.next 0) ++
      List.replicate 8 (MQueueEvent.next 1))).map MQueueRun.removed =
        some [[7, 7]] := by
    decide +kernel
  cases hrun : run MQueueRun.step (MQueueRun.start q 2) ([MQueueEvent.send 0 fun _ => 7, .recv 1] ++
      List.replicate 8 (MQueueEvent.next 0) ++ List.replicate 8 (MQueueEvent.next 1)) with
  | none =>
      rw [hrun] at hremoved
      exact absurd hremoved (by simp)
  | some w =>
      rw [hrun] at hremoved
      exact ⟨q, w, hcreate, hrun, Option.some.inj hremoved,
        (mqueue_delivery hcreate (by decide) hrun).1⟩

end PingPongOS
