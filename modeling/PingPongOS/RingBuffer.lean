import Mathlib

/-!
# The ring buffer of `mqueue.c`

The bytes of the ring are addressed from `b->buffer` on.  `memcpy` copies a block
of bytes between the ring and an item; the items of a ring are its slots from
`start` on, once around.
-/

namespace PingPongOS

/-- Multiplication of `int` values. -/
def mulInt (a b : Int) : Int := Int.bmod (a * b) (2 ^ 32)

/-- `struct circular_buffer`; `allocated` says that `buffer` is not `NULL`, and
`bytes` is the memory it points to. -/
structure CircularBuffer where
  allocated : Bool
  bytes : Int → UInt8
  itemSize : Int
  itemQuant : Int
  maxCapacity : Int
  start : Int
  end_ : Int

/-- `memcpy` of `n` bytes of `item` to the offset `off`. -/
def copyIn (bytes : Int → UInt8) (off n : Int) (item : Nat → UInt8) : Int → UInt8 :=
  fun a => if off ≤ a ∧ a < off + n then item (a - off).toNat else bytes a

/-- The bytes that `memcpy` copies out from the offset `off`. -/
def copyOut (bytes : Int → UInt8) (off n : Int) : List UInt8 :=
  (List.range n.toNat).map fun (k : Nat) => bytes (off + k)

/-- The message that an item pointer points to. -/
def message (n : Int) (item : Nat → UInt8) : List UInt8 := (List.range n.toNat).map item

/-- `circular_buffer_create`, where `mem_alloc` returned `block`. -/
def circularBufferCreate (maxCapacity itemSize : Int) (block : Option (Int → UInt8)) :
    CircularBuffer :=
  match block with
  | some bytes =>
      if maxCapacity ≤ 0 ∨ itemSize ≤ 0 then ⟨false, fun _ => 0, 0, 0, 0, 0, 0⟩
      else ⟨true, bytes, itemSize, 0, maxCapacity, 0, 0⟩
  | none => ⟨false, fun _ => 0, 0, 0, 0, 0, 0⟩

namespace CircularBuffer

variable (b : CircularBuffer)

/-- `(b->end + 1) % b->max_capacity`. -/
def nextEnd : Int := (b.end_ + 1).tmod b.maxCapacity

/-- `(b->start + 1) % b->max_capacity`. -/
def nextStart : Int := (b.start + 1).tmod b.maxCapacity

/-- `memcpy(b->buffer + off, item, b->item_size)`. -/
def store (off : Int) (item : Nat → UInt8) : CircularBuffer :=
  { b with bytes := copyIn b.bytes off b.itemSize item }

end CircularBuffer

/-! ## Slots and their bytes -/

/-- The slot `i` places after `s` on a ring of `M` slots. -/
def slot (M s i : Nat) : Nat := if s + i < M then s + i else s + i - M

theorem slot_lt {M s i : Nat} (hs : s < M) (hi : i ≤ M) : slot M s i < M := by
  unfold slot
  split <;> omega

theorem slot_zero {M s : Nat} (hs : s < M) : slot M s 0 = s := by
  rw [slot, Nat.add_zero, if_pos hs]

/-- The slots of one turn are different. -/
theorem slot_ne {M s i j : Nat} (hi : i < M) (hj : j < M) (hij : i ≠ j) :
    slot M s i ≠ slot M s j := by
  unfold slot
  split <;> split <;> omega

/-- Starting one slot later. -/
theorem slot_succ {M s i : Nat} (hs : s < M) (hi : i + 1 < M) :
    slot M (slot M s 1) i = slot M s (i + 1) := by
  unfold slot
  split <;> split <;> split <;> omega

/-- One step around the ring, as the code computes it. -/
theorem tmod_slot {M s i : Nat} (hs : s < M) (hi : i < M) :
    ((slot M s i : Int) + 1).tmod M = slot M s (i + 1) := by
  have hlt := slot_lt hs (Nat.le_of_lt hi)
  rw [Int.tmod_eq_emod_of_nonneg (by omega)]
  by_cases hend : slot M s i + 1 = M
  · have hzero : slot M s (i + 1) = 0 := by
      unfold slot at *
      split at hend <;> split <;> omega
    rw [hzero, show (slot M s i : Int) + 1 = M by omega, Int.emod_self]
    rfl
  · have hnext : slot M s (i + 1) = slot M s i + 1 := by
      unfold slot at *
      split at hend <;> split <;> omega
    rw [hnext, Int.emod_eq_of_lt (by omega) (by omega)]
    omega

/-- An offset of a ring that fits in an `int` is not truncated. -/
theorem mulInt_slot {M n k : Nat} (hfull : M * n < 2 ^ 31) (hk : k < M) :
    mulInt k n = k * n := by
  have hle : k * n ≤ M * n := Nat.mul_le_mul_right n (Nat.le_of_lt hk)
  apply Int.bmod_eq_of_le
  · have : (0 : Int) ≤ (k : Int) * n := by positivity
    omega
  · have : (k : Int) * n = ((k * n : Nat) : Int) := by push_cast; rfl
    omega

theorem copyOut_copyIn_self (bytes : Int → UInt8) (off : Int) (n : Nat) (item : Nat → UInt8) :
    copyOut (copyIn bytes off n item) off n = message n item := by
  unfold copyOut message
  apply List.map_congr_left
  intro k hk
  rw [List.mem_range, Int.toNat_natCast] at hk
  rw [copyIn, if_pos (by omega)]
  congr
  omega

/-- Copying into one slot leaves the bytes of another alone. -/
theorem copyOut_copyIn_of_ne (bytes : Int → UInt8) {i j n : Nat} (item : Nat → UInt8)
    (hij : i ≠ j) :
    copyOut (copyIn bytes (i * n) n item) (j * n) n = copyOut bytes (j * n) n := by
  unfold copyOut
  apply List.map_congr_left
  intro k hk
  rw [List.mem_range, Int.toNat_natCast] at hk
  rw [copyIn, if_neg]
  intro hin
  obtain ⟨hlo, hhi⟩ := hin
  norm_cast at hlo hhi
  rcases Nat.lt_or_gt_of_ne hij with hlt | hgt
  · have := Nat.mul_le_mul_right n hlt
    rw [Nat.succ_mul] at this
    omega
  · have := Nat.mul_le_mul_right n hgt
    rw [Nat.succ_mul] at this
    omega

/-! ## What the ring holds -/

/-- The slots of the ring from `s` on hold the bytes of `msgs`, in order. -/
structure Holds (b : CircularBuffer) (M n s : Nat) (msgs : List (List UInt8)) : Prop where
  capacity : b.maxCapacity = M
  size : b.itemSize = n
  start : b.start = s
  inRange : s < M
  fits : msgs.length ≤ M
  full : M * n < 2 ^ 31
  slots : ∀ i (hi : i < msgs.length), copyOut b.bytes ((slot M s i * n : Nat) : Int) n = msgs[i]

/-- `b->end` is the last of `len` slots from `s` on. -/
def EndAt (b : CircularBuffer) (M s len : Nat) : Prop := b.end_ = slot M s (len - 1)

variable {b : CircularBuffer} {M n s : Nat} {msgs : List (List UInt8)}

/-- The counters of the ring do not change what its slots hold. -/
theorem Holds.congr {b' : CircularBuffer} (h : Holds b M n s msgs)
    (hcap : b'.maxCapacity = b.maxCapacity) (hsize : b'.itemSize = b.itemSize)
    (hstart : b'.start = b.start) (hbytes : b'.bytes = b.bytes) : Holds b' M n s msgs where
  capacity := hcap.trans h.capacity
  size := hsize.trans h.size
  start := hstart.trans h.start
  inRange := h.inRange
  fits := h.fits
  full := h.full
  slots := by
    rw [hbytes]
    exact h.slots

/-- The offset of the next free slot, as `circular_buffer_add` computes it. -/
theorem Holds.offset (h : Holds b M n s msgs) (hend : EndAt b M s msgs.length)
    (hpos : 1 ≤ msgs.length) (hroom : msgs.length < M) :
    b.nextEnd = slot M s msgs.length ∧
      mulInt b.nextEnd b.itemSize = ((slot M s msgs.length * n : Nat) : Int) := by
  have hnext : b.nextEnd = slot M s msgs.length := by
    rw [CircularBuffer.nextEnd, h.capacity, hend, tmod_slot h.inRange (by omega)]
    congr 2
    omega
  refine ⟨hnext, ?_⟩
  rw [hnext, h.size, mulInt_slot h.full (slot_lt h.inRange (Nat.le_of_lt hroom))]
  push_cast
  rfl

/-- The offset of the first slot. -/
theorem Holds.startOffset (h : Holds b M n s msgs) :
    mulInt b.start b.itemSize = ((s * n : Nat) : Int) := by
  rw [h.start, h.size, mulInt_slot h.full h.inRange]
  push_cast
  rfl

/-- **Copying into the next slot** appends the message and leaves the stored ones
alone. -/
theorem Holds.store (h : Holds b M n s msgs) (hroom : msgs.length < M) (item : Nat → UInt8) :
    Holds (b.store ((slot M s msgs.length * n : Nat) : Int) item) M n s
      (msgs ++ [message b.itemSize item]) where
  capacity := h.capacity
  size := h.size
  start := h.start
  inRange := h.inRange
  fits := by
    rw [List.length_append, List.length_singleton]
    exact hroom
  full := h.full
  slots := by
    intro i hi
    rw [List.length_append, List.length_singleton] at hi
    simp only [CircularBuffer.store, h.size]
    by_cases hlast : i = msgs.length
    · subst hlast
      rw [copyOut_copyIn_self]
      simp
    · have hlt : i < msgs.length := by omega
      rw [List.getElem_append_left hlt, ← h.slots i hlt]
      push_cast
      exact copyOut_copyIn_of_ne b.bytes item
        (slot_ne hroom (by omega) (Ne.symm hlast))

/-- The first slot holds the oldest message. -/
theorem Holds.oldest {m : List UInt8} (h : Holds b M n s (m :: msgs)) :
    copyOut b.bytes ((s * n : Nat) : Int) b.itemSize = m := by
  have hfirst := h.slots 0 (by simp)
  rw [slot_zero h.inRange] at hfirst
  rw [h.size]
  exact hfirst

/-- **Moving `start` to the next slot** drops the oldest message. -/
theorem Holds.advance {m : List UInt8} (h : Holds b M n s (m :: msgs)) (hpos : 1 ≤ msgs.length) :
    Holds { b with start := b.nextStart } M n (slot M s 1) msgs := by
  have hfits : msgs.length + 1 ≤ M := h.fits
  have hnext : b.nextStart = slot M s 1 := by
    have := tmod_slot (i := 0) h.inRange (by omega)
    rw [slot_zero h.inRange] at this
    rw [CircularBuffer.nextStart, h.capacity, h.start, this]
  refine ⟨h.capacity, h.size, hnext, slot_lt h.inRange (by omega), by omega, h.full, ?_⟩
  intro i hi
  have hold := h.slots (i + 1) (by simpa using hi)
  rw [slot_succ h.inRange (by omega)]
  exact hold

/-- The last slot does not move with `start`. -/
theorem EndAt.advance {len : Nat} (h : EndAt b M s (len + 1)) (hs : s < M) (hlen : 1 ≤ len)
    (hfits : len + 1 ≤ M) : EndAt { b with start := b.nextStart } M (slot M s 1) len := by
  unfold EndAt at *
  simp only
  rw [h, slot_succ hs (by omega)]
  congr 2
  omega

end PingPongOS
