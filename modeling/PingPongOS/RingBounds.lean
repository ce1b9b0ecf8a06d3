import PingPongOS.HeapAllocator
import PingPongOS.MessageQueue

/-!
# The bytes a ring touches

`circular_buffer_create` asks `mem_alloc` for `max_capacity*item_size` bytes, and
`circular_buffer_add` and `circular_buffer_remove` compute the offset of each slot
again, also in `int`.  The slots are inside the block exactly where the first product
fits in an `int`: where it wraps to a positive size, some slot has an offset that wraps
to a negative one, and the queue reaches that slot by being filled.
-/

namespace PingPongOS

open Runs

/-- `max_capacity*item_size`, the size that `circular_buffer_create` passes to
`mem_alloc`. -/
def ringBytes (maxCapacity itemSize : Int) : Int := mulInt maxCapacity itemSize

/-- The `memcpy` of an event, with its offset in the ring and its length. -/
def memcpys (w : MQueueRun) : MQueueEvent → List (Int × Int)
  | .next i =>
      match w.tasks[i]? with
      | some (.addFirst _) =>
          [(mulInt w.queue.buff.start w.queue.buff.itemSize, w.queue.buff.itemSize)]
      | some (.addCopy _ offset) => [(offset, w.queue.buff.itemSize)]
      | some (.removeCopy _ offset) => [(offset, w.queue.buff.itemSize)]
      | _ => []
  | _ => []

/-- A `memcpy` that stays inside the first `n` bytes. -/
def InBytes (n : Int) (c : Int × Int) : Prop := 0 ≤ c.1 ∧ c.1 + c.2 ≤ n

variable {w w' : MQueueRun} {M n : Nat} {b : CircularBuffer}

/-! ## Offsets that are those of slots -/

/-- The geometry of a ring of `M` slots of `n` bytes. -/
structure RingAt (M n : Nat) (b : CircularBuffer) : Prop where
  size : b.itemSize = n
  capacity : b.maxCapacity = M
  start : 0 ≤ b.start ∧ b.start < M
  end_ : 0 ≤ b.end_ ∧ b.end_ < M

/-- The offset a task has computed is that of a slot. -/
def Point.AtSlot (M n : Nat) : Point → Prop
  | .addCopy _ offset | .removeCopy _ offset => ∃ k : Nat, k < M ∧ offset = ((k * n : Nat) : Int)
  | _ => True

/-- The ring has `M` slots, and every offset computed is that of one of them. -/
structure SlotInv (M n : Nat) (w : MQueueRun) : Prop where
  ring : RingAt M n w.queue.buff
  points : ∀ p ∈ w.tasks, p.AtSlot M n

/-- The step to the slot after stays on the ring. -/
theorem tmod_range {M : Nat} {a : Int} (h : 0 ≤ a ∧ a < M) :
    0 ≤ (a + 1).tmod M ∧ (a + 1).tmod M < M := by
  rw [Int.tmod_eq_emod_of_nonneg (by omega)]
  exact ⟨Int.emod_nonneg _ (by omega), Int.emod_lt_of_pos _ (by omega)⟩

/-- The offset of an index of the ring is that of a slot. -/
theorem mulInt_range {a : Int} (hfull : M * n < 2 ^ 31) (h : 0 ≤ a ∧ a < M) :
    ∃ k : Nat, k < M ∧ mulInt a n = ((k * n : Nat) : Int) := by
  obtain ⟨k, rfl⟩ : ∃ k : Nat, a = k := ⟨a.toNat, by omega⟩
  refine ⟨k, by omega, ?_⟩
  rw [mulInt_slot hfull (by omega)]
  push_cast
  rfl

/-- One task goes on at `p'`. -/
theorem SlotInv.goto {i : Nat} {p' : Point} (h : SlotInv M n w)
    (hring : RingAt M n w'.queue.buff) (htasks : w'.tasks = w.tasks.set i p')
    (hp' : p'.AtSlot M n) : SlotInv M n w' := by
  refine ⟨hring, fun p hp => ?_⟩
  rw [htasks] at hp
  rcases List.mem_or_eq_of_mem_set hp with hmem | rfl
  · exact h.points p hmem
  · exact hp'

/-- **One statement** keeps the offsets on the slots. -/
theorem SlotInv.statement {i : Nat} {p : Point} (hfull : M * n < 2 ^ 31) (h : SlotInv M n w)
    (hstep : w.statement i p = some w') : SlotInv M n w' := by
  have hring := h.ring
  cases p with
  | outside => exact absurd hstep (by simp [MQueueRun.statement])
  | downSpace _ | downBuffer _ | recvDownItems | recvDownBuffer =>
      simp only [MQueueRun.statement] at hstep
      split at hstep
      · obtain rfl := Option.some.inj hstep
        exact h.goto hring rfl trivial
      · exact absurd hstep (by simp)
  | addCheck _ | removeCheck =>
      simp only [MQueueRun.statement] at hstep
      split at hstep <;> obtain rfl := Option.some.inj hstep <;> exact h.goto hring rfl trivial
  | addBranch _ | removeBranch =>
      simp only [MQueueRun.statement] at hstep
      split at hstep
      · obtain rfl := Option.some.inj hstep
        exact h.goto hring rfl trivial
      · split at hstep <;> obtain rfl := Option.some.inj hstep <;>
          exact h.goto hring rfl trivial
  | addFirst _ =>
      obtain rfl := Option.some.inj hstep
      exact h.goto ⟨hring.size, hring.capacity, hring.start, hring.end_⟩ rfl trivial
  | addOffset _ =>
      obtain rfl := Option.some.inj hstep
      refine h.goto hring rfl ?_
      have hnext := tmod_range hring.end_
      rw [← hring.capacity] at hnext
      have := mulInt_range hfull (a := w.queue.buff.nextEnd) (by rw [← hring.capacity]; exact hnext)
      rw [← hring.size] at this
      exact this
  | addCopy _ offset =>
      obtain rfl := Option.some.inj hstep
      exact h.goto ⟨hring.size, hring.capacity, hring.start, hring.end_⟩ rfl trivial
  | addEnd =>
      obtain rfl := Option.some.inj hstep
      refine h.goto ⟨hring.size, hring.capacity, hring.start, ?_⟩ rfl trivial
      have := tmod_range hring.end_
      rw [← hring.capacity] at this ⊢
      exact this
  | removeOffset several =>
      obtain rfl := Option.some.inj hstep
      refine h.goto hring rfl ?_
      have := mulInt_range hfull hring.start
      rw [← hring.size] at this
      exact this
  | removeCopy several offset =>
      obtain rfl := Option.some.inj hstep
      refine h.goto hring rfl ?_
      cases several <;> trivial
  | removeStart =>
      obtain rfl := Option.some.inj hstep
      refine h.goto ⟨hring.size, hring.capacity, ?_, hring.end_⟩ rfl trivial
      have := tmod_range hring.start
      rw [← hring.capacity] at this ⊢
      exact this
  | addCount | upBuffer | upItems | removeCount | recvUpBuffer | recvUpSpace =>
      obtain rfl := Option.some.inj hstep
      exact h.goto ⟨hring.size, hring.capacity, hring.start, hring.end_⟩ rfl trivial

/-- The copies of a ring on its slots are inside its bytes. -/
theorem SlotInv.memcpys {e : MQueueEvent} (hfull : M * n < 2 ^ 31) (h : SlotInv M n w) :
    ∀ c ∈ memcpys w e, InBytes ((M * n : Nat) : Int) c := by
  have hslot : ∀ k : Nat, k < M → k * n + n ≤ M * n := by
    intro k hk
    have := Nat.mul_le_mul_right n hk
    rwa [Nat.succ_mul] at this
  have hat : ∀ off : Int, (∃ k : Nat, k < M ∧ off = ((k * n : Nat) : Int)) →
      InBytes ((M * n : Nat) : Int) (off, w.queue.buff.itemSize) := by
    rintro off ⟨k, hk, rfl⟩
    have := hslot k hk
    rw [h.ring.size]
    refine ⟨by positivity, ?_⟩
    change ((k * n : Nat) : Int) + n ≤ ((M * n : Nat) : Int)
    exact_mod_cast this
  intro c hc
  cases e with
  | send i msg => exact absurd hc List.not_mem_nil
  | recv i => exact absurd hc List.not_mem_nil
  | next i =>
      simp only [PingPongOS.memcpys] at hc
      split at hc
      · obtain rfl := List.mem_singleton.mp hc
        rw [h.ring.size]
        have := hat _ (mulInt_range hfull h.ring.start)
        rwa [h.ring.size] at this
      · next hi =>
        obtain rfl := List.mem_singleton.mp hc
        exact hat _ (h.points _ (List.mem_of_getElem? hi))
      · next hi =>
        obtain rfl := List.mem_singleton.mp hc
        exact hat _ (h.points _ (List.mem_of_getElem? hi))
      · exact absurd hc List.not_mem_nil

/-! ## A queue without a ring buffer -/

/-- Past the check of `circular_buffer_add` or of `circular_buffer_remove`, and before
its return. -/
def Point.pastCheck : Point → Bool
  | .addBranch _ | .addFirst _ | .addOffset _ | .addCopy _ _ | .addEnd | .addCount
  | .removeBranch | .removeOffset _ | .removeCopy _ _ | .removeStart | .removeCount => true
  | _ => false

/-- The ring has no slots, and nobody is past a check. -/
structure NoRing (w : MQueueRun) : Prop where
  quant : w.queue.buff.itemQuant = 0
  capacity : w.queue.buff.maxCapacity = 0
  points : ∀ p ∈ w.tasks, p.pastCheck = false

/-- One task goes on outside of the ring. -/
theorem NoRing.goto {i : Nat} {p' : Point} (h : NoRing w)
    (hring : w'.queue.buff = w.queue.buff) (htasks : w'.tasks = w.tasks.set i p')
    (hp' : p'.pastCheck = false) : NoRing w' := by
  refine ⟨hring ▸ h.quant, hring ▸ h.capacity, fun p hp => ?_⟩
  rw [htasks] at hp
  rcases List.mem_or_eq_of_mem_set hp with hmem | rfl
  · exact h.points p hmem
  · exact hp'

/-- **Without a ring buffer** the checks keep everybody out of the ring. -/
theorem NoRing.statement {i : Nat} {p : Point} (h : NoRing w) (hp : p ∈ w.tasks)
    (hstep : w.statement i p = some w') : NoRing w' := by
  have hout := h.points p hp
  cases p with
  | outside => exact absurd hstep (by simp [MQueueRun.statement])
  | downSpace _ | downBuffer _ | recvDownItems | recvDownBuffer =>
      simp only [MQueueRun.statement] at hstep
      split at hstep
      · obtain rfl := Option.some.inj hstep
        exact h.goto rfl rfl rfl
      · exact absurd hstep (by simp)
  | addCheck _ =>
      rw [MQueueRun.statement, if_pos (h.quant.trans h.capacity.symm)] at hstep
      obtain rfl := Option.some.inj hstep
      exact h.goto rfl rfl rfl
  | removeCheck =>
      rw [MQueueRun.statement, if_pos h.quant] at hstep
      obtain rfl := Option.some.inj hstep
      exact h.goto rfl rfl rfl
  | upBuffer | upItems | recvUpBuffer | recvUpSpace =>
      obtain rfl := Option.some.inj hstep
      exact h.goto rfl rfl rfl
  | addBranch _ | addFirst _ | addOffset _ | addCopy _ _ | addEnd | addCount | removeBranch
  | removeOffset _ | removeCopy _ _ | removeStart | removeCount =>
      exact absurd hout (by simp [Point.pastCheck])

/-- Nothing is copied without a ring buffer. -/
theorem NoRing.memcpys {e : MQueueEvent} (h : NoRing w) : memcpys w e = [] := by
  cases e with
  | send i msg => rfl
  | recv i => rfl
  | next i =>
      simp only [PingPongOS.memcpys]
      split
      all_goals first
        | rfl
        | next hi => exact absurd (h.points _ (List.mem_of_getElem? hi)) (by simp [Point.pastCheck])

/-- An event starts a call of a task outside, or executes the statement of a task. -/
theorem MQueueRun.step_cases {e : MQueueEvent} (hstep : w.step e = some w') :
    (∃ i p, (p = .recvDownItems ∨ ∃ msg, p = .downSpace msg) ∧ w' = w.goto i p) ∨
      ∃ i p, p ∈ w.tasks ∧ w.statement i p = some w' := by
  cases e with
  | send i msg =>
      simp only [MQueueRun.step] at hstep
      split at hstep
      · exact .inl ⟨i, .downSpace msg, .inr ⟨msg, rfl⟩, (Option.some.inj hstep).symm⟩
      · exact absurd hstep (by simp)
  | recv i =>
      simp only [MQueueRun.step] at hstep
      split at hstep
      · exact .inl ⟨i, .recvDownItems, .inl rfl, (Option.some.inj hstep).symm⟩
      · exact absurd hstep (by simp)
  | next i =>
      simp only [MQueueRun.step] at hstep
      split at hstep
      · next p hp => exact .inr ⟨i, p, List.mem_of_getElem? hp, hstep⟩
      · exact absurd hstep (by simp)

/-- **One event** keeps the offsets on the slots. -/
theorem SlotInv.step {e : MQueueEvent} (hfull : M * n < 2 ^ 31) (h : SlotInv M n w)
    (hstep : w.step e = some w') : SlotInv M n w' := by
  rcases MQueueRun.step_cases hstep with ⟨i, p, hp, rfl⟩ | ⟨i, p, -, hst⟩
  · rcases hp with rfl | ⟨msg, rfl⟩ <;> exact h.goto h.ring rfl trivial
  · exact h.statement hfull hst

theorem NoRing.step {e : MQueueEvent} (h : NoRing w) (hstep : w.step e = some w') :
    NoRing w' := by
  rcases MQueueRun.step_cases hstep with ⟨i, p, hp, rfl⟩ | ⟨i, p, hmem, hst⟩
  · rcases hp with rfl | ⟨msg, rfl⟩ <;> exact h.goto rfl rfl rfl
  · exact h.statement hmem hst

/-! ## Filling a queue -/

/-- Some run from `w` reaches `w'`. -/
def Reaches (w w' : MQueueRun) : Prop := ∃ as, run MQueueRun.step w as = some w'

/-- The only task executes its statement. -/
theorem Reaches.next {w₁ w₂ : MQueueRun} (h : Reaches w w₁) (p : Point) (hp : w₁.tasks = [p])
    (hst : w₁.statement 0 p = some w₂) : Reaches w w₂ := by
  obtain ⟨as, hrun⟩ := h
  refine ⟨as ++ [.next 0], run_snoc.mpr ⟨w₁, hrun, ?_⟩⟩
  rw [MQueueRun.step, hp]
  exact hst

/-- The only task calls `mqueue_send`. -/
theorem Reaches.send (hp : w.tasks = [.outside]) (msg : Nat → UInt8) :
    Reaches w (w.goto 0 (.downSpace msg)) := by
  refine ⟨[.send 0 msg], run_cons.mpr ⟨_, ?_, rfl⟩⟩
  rw [MQueueRun.step, hp]
  rfl

/-- One task has sent `j` messages and is outside again. -/
structure Filled (M n j : Nat) (w : MQueueRun) : Prop where
  tasks : w.tasks = [.outside]
  space : w.queue.spaceAvailable = M - j
  buffer : w.queue.buffer = 1
  size : w.queue.buff.itemSize = n
  quant : w.queue.buff.itemQuant = j
  capacity : w.queue.buff.maxCapacity = M
  end_ : w.queue.buff.end_ = ((j - 1 : Nat) : Int)

/-- A task that sends to a queue with room gets past the check. -/
theorem Filled.to_branch {j : Nat} (h : Filled M n j w) (hroom : j < M) (msg : Nat → UInt8) :
    ∃ w', Reaches w w' ∧ w'.tasks = [.addBranch msg] ∧ w'.queue.buff = w.queue.buff ∧
      w'.queue.spaceAvailable = M - (j + 1 : Nat) ∧ w'.queue.buffer = 0 := by
  have htasks := h.tasks
  have hspace : 0 < w.queue.spaceAvailable := by have := h.space; omega
  have hbuffer : 0 < w.queue.buffer := by have := h.buffer; omega
  have hfull : w.queue.buff.itemQuant ≠ w.queue.buff.maxCapacity := by
    rw [h.quant, h.capacity]
    omega
  have h₁ := Reaches.send htasks msg
  have h₂ := h₁.next (.downSpace msg) (by simp [htasks]) (if_pos hspace)
  have h₃ := h₂.next (.downBuffer msg) (by simp [htasks]) (if_pos hbuffer)
  have h₄ := h₃.next (.addCheck msg) (by simp [htasks]) (if_neg hfull)
  refine ⟨_, h₄, by simp [htasks], rfl, ?_, ?_⟩
  · have := h.space
    simp only [MQueueRun.goto]
    omega
  · have := h.buffer
    simp only [MQueueRun.goto]
    omega

/-- **Filling the queue.**  A task sends one more message to a queue with room. -/
theorem Filled.send {j : Nat} (h : Filled M n j w) (hroom : j < M) (msg : Nat → UInt8) :
    ∃ w', Reaches w w' ∧ Filled M n (j + 1) w' := by
  obtain ⟨w₁, h₁, htasks, hbuff, hspace, hbuffer⟩ := h.to_branch hroom msg
  -- from the count on, once the message is in its slot
  have hrest : ∀ w₂ : MQueueRun, Reaches w w₂ → w₂.tasks = [.addCount] →
      w₂.queue.spaceAvailable = w₁.queue.spaceAvailable → w₂.queue.buffer = 0 →
      w₂.queue.buff.itemSize = n → w₂.queue.buff.itemQuant = j →
      w₂.queue.buff.maxCapacity = M → w₂.queue.buff.end_ = j →
      ∃ w', Reaches w w' ∧ Filled M n (j + 1) w' := by
    intro w₂ h₂ ht hs hb hsize hquant hcap hend
    have h₃ := h₂.next .addCount ht rfl
    have h₄ := h₃.next .upBuffer (by simp [ht]) rfl
    have h₅ := h₄.next .upItems (by simp [ht]) rfl
    refine ⟨_, h₅, by simp [ht], hs.trans hspace, ?_, hsize, ?_, hcap, ?_⟩
    · change w₂.queue.buffer + 1 = 1
      omega
    · change w₂.queue.buff.itemQuant + 1 = _
      omega
    · rw [Nat.add_sub_cancel]
      exact hend
  have hquant := h.quant
  rw [← hbuff] at hquant
  by_cases hzero : j = 0
  · have h₂ := h₁.next (.addBranch msg) htasks (if_pos (by omega))
    have h₃ := h₂.next (.addFirst msg) (by simp [htasks]) rfl
    refine hrest _ h₃ (by simp [htasks]) rfl hbuffer (hbuff ▸ h.size) hquant
      (hbuff ▸ h.capacity) ?_
    have hend := h.end_
    rw [← hbuff] at hend
    change w₁.queue.buff.end_ = j
    omega
  · have h₂ := h₁.next (.addBranch msg) htasks
      ((if_neg (by omega)).trans (if_pos (by omega)))
    have h₃ := h₂.next (.addOffset msg) (by simp [htasks]) rfl
    have h₄ := h₃.next (.addCopy msg _) (by simp [htasks]; rfl) rfl
    have h₅ := h₄.next .addEnd (by simp [htasks]) rfl
    refine hrest _ h₅ (by simp [htasks]) rfl hbuffer (hbuff ▸ h.size) hquant
      (hbuff ▸ h.capacity) ?_
    change w₁.queue.buff.nextEnd = j
    rw [CircularBuffer.nextEnd, hbuff, h.end_, h.capacity,
      Int.tmod_eq_of_lt (by omega) (by omega)]
    omega

theorem Reaches.trans {w₁ w₂ : MQueueRun} (h : Reaches w w₁) (h' : Reaches w₁ w₂) :
    Reaches w w₂ := by
  obtain ⟨as, has⟩ := h
  obtain ⟨bs, hbs⟩ := h'
  exact ⟨as ++ bs, run_append.mpr ⟨w₁, has, hbs⟩⟩

/-- An empty queue can be filled to any count up to its capacity. -/
theorem Filled.upto (h : Filled M n 0 w) : ∀ j ≤ M, ∃ w', Reaches w w' ∧ Filled M n j w' := by
  intro j
  induction j with
  | zero => exact fun _ => ⟨w, ⟨[], rfl⟩, h⟩
  | succ j ih =>
      intro hj
      obtain ⟨w₁, h₁, hfilled⟩ := ih (by omega)
      obtain ⟨w₂, h₂, hnext⟩ := hfilled.send (by omega) fun _ => 0
      exact ⟨w₂, h₁.trans h₂, hnext⟩

/-- The message after the first ones is copied to the offset that the code computes for
its slot. -/
theorem Filled.copies {j : Nat} (h : Filled M n j w) (hpos : 1 ≤ j) (hroom : j < M) :
    ∃ w₁, Reaches w w₁ ∧ (w₁.step (.next 0)).isSome ∧
      memcpys w₁ (.next 0) = [(mulInt j n, (n : Int))] := by
  let msg : Nat → UInt8 := fun _ => 0
  obtain ⟨w₁, h₁, htasks, hbuff, -, -⟩ := h.to_branch hroom msg
  have hquant := h.quant
  rw [← hbuff] at hquant
  have h₂ := h₁.next (.addBranch msg) htasks ((if_neg (by omega)).trans (if_pos (by omega)))
  have h₃ := h₂.next (.addOffset msg) (by simp [htasks]) rfl
  have hnext : w₁.queue.buff.nextEnd = j := by
    rw [CircularBuffer.nextEnd, hbuff, h.end_, h.capacity,
      Int.tmod_eq_of_lt (by omega) (by omega)]
    omega
  have hsize : w₁.queue.buff.itemSize = n := hbuff ▸ h.size
  refine ⟨_, h₃, ?_, ?_⟩
  · simp [MQueueRun.step, htasks, MQueueRun.statement]
  · simp [memcpys, htasks, hnext, hsize]

/-- Where the size asked for wraps to a positive one, the offset of some slot wraps to a
negative one. -/
theorem wrapped_slot (hsize : n < 2 ^ 31) (hbig : 2 ^ 31 ≤ M * n) (hpos : 0 < mulInt M n) :
    ∃ k, 1 ≤ k ∧ k < M ∧ mulInt k n < 0 := by
  have hn : 0 < n := Nat.pos_of_ne_zero fun h => by simp [h] at hbig
  have hwrap : ∀ k : Nat, 2 ^ 31 ≤ k * n → k * n < 2 ^ 32 → mulInt k n < 0 := by
    intro k hlo hhi
    rw [mulInt, ← Nat.cast_mul, Int.bmod_def]
    split <;> omega
  -- the first multiple of the item size past the largest int
  have hfirst := Nat.div_add_mod (2 ^ 31 - 1) n
  have hmod := Nat.mod_lt (2 ^ 31 - 1) hn
  rw [Nat.mul_comm] at hfirst
  have hlo : 2 ^ 31 ≤ ((2 ^ 31 - 1) / n + 1) * n := by
    rw [Nat.succ_mul]
    omega
  have hhi : ((2 ^ 31 - 1) / n + 1) * n < 2 ^ 32 := by
    rw [Nat.succ_mul]
    omega
  refine ⟨(2 ^ 31 - 1) / n + 1, Nat.le_add_left 1 _, ?_, hwrap _ hlo hhi⟩
  by_contra hge
  have hle : M * n ≤ ((2 ^ 31 - 1) / n + 1) * n := Nat.mul_le_mul_right n (by omega)
  have := hwrap M hbig (by omega)
  omega

/-! ## All sizes -/

/-- A queue that `mqueue_create` returned with a ring buffer. -/
theorem filled_start {maxMsgs msgSize : Int} {bytes : Int → UInt8} {q : MQueue}
    (hcreate : mqueueCreate maxMsgs msgSize (some bytes) = some q) :
    1 ≤ maxMsgs ∧ 2 ≤ msgSize ∧
      Filled maxMsgs.toNat msgSize.toNat 0 (MQueueRun.start q 1) ∧
      RingAt maxMsgs.toNat msgSize.toNat q.buff := by
  by_cases hargs : maxMsgs ≤ 0 ∨ msgSize ≤ 1
  · rw [mqueueCreate, if_pos hargs] at hcreate
    exact absurd hcreate (by simp)
  rw [mqueueCreate, if_neg hargs, circularBufferCreate, if_neg (by omega)] at hcreate
  obtain rfl := Option.some.inj hcreate
  have hmax : ((maxMsgs.toNat : Nat) : Int) = maxMsgs := by omega
  have hmsg : ((msgSize.toNat : Nat) : Int) = msgSize := by omega
  refine ⟨by omega, by omega, ⟨rfl, ?_, rfl, hmsg.symm, rfl, hmax.symm, rfl⟩,
    ⟨hmsg.symm, hmax.symm, ⟨le_refl 0, ?_⟩, ⟨le_refl 0, ?_⟩⟩⟩
  · change maxMsgs = _
    omega
  · change (0 : Int) < _
    omega
  · change (0 : Int) < _
    omega

/-- A queue that `mqueue_create` returned without a ring buffer. -/
theorem noRing_start {maxMsgs msgSize : Int} {q : MQueue}
    (hcreate : mqueueCreate maxMsgs msgSize none = some q) (tasks : Nat) :
    NoRing (MQueueRun.start q tasks) := by
  by_cases hargs : maxMsgs ≤ 0 ∨ msgSize ≤ 1
  · rw [mqueueCreate, if_pos hargs] at hcreate
    exact absurd hcreate (by simp)
  rw [mqueueCreate, if_neg hargs] at hcreate
  obtain rfl := Option.some.inj hcreate
  refine ⟨rfl, rfl, fun p hp => ?_⟩
  rw [List.eq_of_mem_replicate hp]
  rfl

end PingPongOS
