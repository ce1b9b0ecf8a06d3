import PingPongOS.Answers
import PingPongOS.QueueCalls

/-!
# The ring buffer as a first-in first-out list

A ring that `circular_buffer_create` allocated answers every sequence of
`circular_buffer_add` and `circular_buffer_remove` as a list of at most `max_capacity`
items does, which is filled at its end and emptied at its front.  Neither call moves
`start` and `end` in a ring of one item or none, so that a ring which is emptied and
filled again goes on from wherever the last item was.
-/

namespace PingPongOS

open Answers

/-- The calls on a ring, with arguments that are not `NULL`. -/
inductive RingCall
  | add (item : Nat → UInt8)
  | remove

/-- A call on the ring: its code, and what it copies to `dest`. -/
def ringCall (b : CircularBuffer) : RingCall → (CbError × Option (List UInt8)) × CircularBuffer
  | .add item => (((circularBufferAdd b (some item)).1, none), (circularBufferAdd b (some item)).2)
  | .remove =>
      (((circularBufferRemove b true).1, (circularBufferRemove b true).2.1),
        (circularBufferRemove b true).2.2)

/-- A call on a list of at most `maxCapacity` items of `itemSize` bytes. -/
def fifoCall (maxCapacity itemSize : Int) (xs : List (List UInt8)) :
    RingCall → (CbError × Option (List UInt8)) × List (List UInt8)
  | .add item =>
      if xs.length = maxCapacity then ((.fullBuffer, none), xs)
      else ((.noError, none), xs ++ [message itemSize item])
  | .remove =>
      match xs with
      | [] => ((.emptyBuffer, none), [])
      | x :: xs => ((.noError, some x), xs)

/-- The ring holds the items of `xs`, the oldest at `start`. -/
structure RingList (maxCapacity itemSize : Int) (b : CircularBuffer) (xs : List (List UInt8)) :
    Prop where
  capacity : b.maxCapacity = maxCapacity
  size : b.itemSize = itemSize
  quant : b.itemQuant = xs.length
  room : xs.length ≤ maxCapacity
  end_ : b.end_ = if b.itemQuant = 0 then b.start else (b.start + b.itemQuant - 1) % b.maxCapacity
  items : ∀ i (hi : i < xs.length),
    copyOut b.bytes ((b.start + i) % b.maxCapacity * b.itemSize) b.itemSize = xs[i]

/-- The ring holds `xs` in its slots from `s` on, and its counters say so. -/
structure RingInv (M n : Nat) (b : CircularBuffer) (xs : List (List UInt8)) : Prop where
  quant : b.itemQuant = xs.length
  slots : ∃ s, Holds b M n s xs ∧ EndAt b M s xs.length

variable {M n : Nat} {b : CircularBuffer} {xs : List (List UInt8)}

/-! ## What each call does -/

/-- A ring of `xs.length` items is full where the list is. -/
theorem RingInv.full_iff (h : RingInv M n b xs) :
    b.itemQuant = b.maxCapacity ↔ (xs.length : Int) = M := by
  obtain ⟨s, hholds, -⟩ := h.slots
  rw [h.quant, hholds.capacity]

/-- `circular_buffer_add` on a ring that is not full appends the item. -/
theorem RingInv.add (h : RingInv M n b xs) (hroom : (xs.length : Int) ≠ M)
    (item : Nat → UInt8) :
    ∃ b', circularBufferAdd b (some item) = (.noError, b') ∧
      RingInv M n b' (xs ++ [message n item]) := by
  obtain ⟨s, hholds, hend⟩ := h.slots
  have hfits := hholds.fits
  have hlt : xs.length < M := by omega
  have hstored := hholds.store hlt item
  rw [hholds.size] at hstored
  have hcount : (xs ++ [message n item]).length = xs.length + 1 := by simp
  have hquant := h.quant
  simp only [circularBufferAdd]
  rw [if_neg (fun hfull => hroom (h.full_iff.mp hfull))]
  refine ⟨_, rfl, ?_, s, ?_⟩
  · rw [hcount]
    push_cast
    rw [← hquant]
  · rw [hcount]
    by_cases hzero : b.itemQuant = 0
    · -- the first item is stored at `start`, where `end` already is
      have hlen : xs.length = 0 := by omega
      have hslot : slot M s xs.length = s := by rw [hlen, slot_zero hholds.inRange]
      rw [hslot] at hstored
      rw [if_pos hzero, hholds.startOffset]
      refine ⟨hstored.congr rfl rfl rfl rfl, ?_⟩
      rw [EndAt, hlen] at hend ⊢
      exact hend
    · obtain ⟨hnext, hoffset⟩ := hholds.offset hend (by omega) hlt
      rw [if_neg hzero, if_pos (by omega), hoffset]
      exact ⟨hstored.congr rfl rfl rfl rfl, hnext⟩

/-- `circular_buffer_remove` on an empty ring copies nothing. -/
theorem RingInv.remove_nil (h : RingInv M n b []) :
    circularBufferRemove b true = (.emptyBuffer, none, b) := by
  have hquant : b.itemQuant = 0 := h.quant
  rw [circularBufferRemove, if_neg (by decide), if_pos hquant]

/-- `circular_buffer_remove` copies the oldest item out and drops it. -/
theorem RingInv.remove_cons {x : List UInt8} (h : RingInv M n b (x :: xs)) :
    ∃ b', circularBufferRemove b true = (.noError, some x, b') ∧ RingInv M n b' xs := by
  obtain ⟨s, hholds, hend⟩ := h.slots
  have hfits := hholds.fits
  have hquant := h.quant
  rw [List.length_cons] at hfits hquant
  push_cast at hquant
  have hcopied : copyOut b.bytes (mulInt b.start b.itemSize) b.itemSize = x := by
    rw [hholds.startOffset, hholds.oldest]
  rw [circularBufferRemove, if_neg (by decide), if_neg (by omega), hcopied]
  by_cases hmany : 1 < b.itemQuant
  · have hlen : 1 ≤ xs.length := by omega
    rw [if_pos hmany]
    refine ⟨_, rfl, ?_, slot M s 1, ?_, ?_⟩
    · simp only
      omega
    · exact (hholds.advance hlen).congr rfl rfl rfl rfl
    · exact EndAt.advance hend hholds.inRange hlen hfits
  · obtain rfl : xs = [] := List.length_eq_zero_iff.mp (by omega)
    rw [if_neg hmany, if_pos (by simpa using hquant)]
    refine ⟨_, rfl, ?_, s, ?_, ?_⟩
    · simp only [List.length_nil] at hquant ⊢
      omega
    · refine ⟨hholds.capacity, hholds.size, hholds.start, hholds.inRange, by simp, hholds.full, ?_⟩
      intro i hi
      exact absurd hi (Nat.not_lt_zero i)
    · exact hend

/-- **Every call** is answered as by the list. -/
theorem ringCall_simulates : Simulates (RingInv M n) ringCall (fifoCall M n) := by
  intro b xs c h
  cases c with
  | add item =>
      by_cases hfull : (xs.length : Int) = M
      · have hadd : circularBufferAdd b (some item) = (.fullBuffer, b) := by
          simp only [circularBufferAdd]
          rw [if_pos (h.full_iff.mpr hfull)]
        simp only [ringCall, hadd, fifoCall, if_pos hfull]
        exact ⟨trivial, h⟩
      · obtain ⟨b', hadd, hinv⟩ := h.add hfull item
        simp only [ringCall, hadd, fifoCall, if_neg hfull]
        exact ⟨trivial, hinv⟩
  | remove =>
      cases xs with
      | nil =>
          simp only [ringCall, h.remove_nil, fifoCall]
          exact ⟨trivial, h⟩
      | cons x xs =>
          obtain ⟨b', hremove, hinv⟩ := h.remove_cons
          simp only [ringCall, hremove, fifoCall]
          exact ⟨trivial, hinv⟩

/-! ## Every sequence of calls -/

/-- A slot, counted modulo the capacity. -/
theorem slot_cast {s i : Nat} (hs : s < M) (hi : i < M) : (slot M s i : Int) = (s + i) % M := by
  have hmod : slot M s i = (s + i) % M := by
    unfold slot
    split
    · rw [Nat.mod_eq_of_lt (by assumption)]
    · rw [Nat.mod_eq_sub_mod (by omega), Nat.mod_eq_of_lt (by omega)]
  rw [hmod]
  push_cast
  rfl

/-- What the counters of the ring say of the items. -/
theorem RingInv.ringList (h : RingInv M n b xs) : RingList M n b xs := by
  obtain ⟨s, hholds, hend⟩ := h.slots
  have hs := hholds.inRange
  have hfits := hholds.fits
  refine ⟨hholds.capacity, hholds.size, h.quant, by exact_mod_cast hfits, ?_, ?_⟩
  · rw [hend, h.quant, hholds.start, hholds.capacity]
    by_cases hzero : xs.length = 0
    · rw [if_pos (by omega), hzero, slot_zero hs]
    · rw [if_neg (by omega), slot_cast hs (by omega)]
      congr 1
      omega
  · intro i hi
    have hitem := hholds.slots i hi
    rw [hholds.start, hholds.capacity, hholds.size, ← slot_cast hs (by omega)]
    push_cast at hitem
    exact hitem

/-- A ring that was allocated is empty. -/
theorem ringInv_create {maxCapacity itemSize : Int} {block : Option (Int → UInt8)}
    (hfits : maxCapacity * itemSize < 2 ^ 31)
    (hcreate : (circularBufferCreate maxCapacity itemSize block).allocated = true) :
    0 < maxCapacity ∧ 0 < itemSize ∧
      RingInv maxCapacity.toNat itemSize.toNat
        (circularBufferCreate maxCapacity itemSize block) [] := by
  cases block with
  | none => exact absurd hcreate (by simp [circularBufferCreate])
  | some bytes =>
      by_cases hargs : maxCapacity ≤ 0 ∨ itemSize ≤ 0
      · rw [circularBufferCreate, if_pos hargs] at hcreate
        exact absurd hcreate (by simp)
      obtain ⟨M, rfl⟩ : ∃ M : Nat, maxCapacity = M := ⟨maxCapacity.toNat, by omega⟩
      obtain ⟨n, rfl⟩ : ∃ n : Nat, itemSize = n := ⟨itemSize.toNat, by omega⟩
      refine ⟨by omega, by omega, ?_⟩
      rw [circularBufferCreate, if_neg hargs]
      have hfull : M * n < 2 ^ 31 := by exact_mod_cast hfits
      have hpos : 0 < M := by omega
      refine ⟨rfl, 0, ⟨rfl, rfl, rfl, hpos, Nat.zero_le _, hfull, ?_⟩, ?_⟩
      · intro i hi
        exact absurd hi (Nat.not_lt_zero i)
      · rw [EndAt, List.length_nil, slot_zero (by exact hpos)]
        rfl

/-- **The ring refines the list.**  After every sequence of calls the answers are those
of the list and the ring holds its items; a full ring refuses an item, and an empty one a
`dest`, with nothing changed. -/
theorem ring_refines_fifo {maxCapacity itemSize : Int} {block : Option (Int → UInt8)}
    (hfits : maxCapacity * itemSize < 2 ^ 31)
    (hcreate : (circularBufferCreate maxCapacity itemSize block).allocated = true)
    (calls : List RingCall) :
    let ring := respond ringCall (circularBufferCreate maxCapacity itemSize block) calls
    let fifo := respond (fifoCall maxCapacity itemSize) [] calls
    ring.1 = fifo.1 ∧ RingList maxCapacity itemSize ring.2 fifo.2 ∧
      (∀ item, ring.2.itemQuant = maxCapacity →
        ringCall ring.2 (.add item) = ((.fullBuffer, none), ring.2)) ∧
      (ring.2.itemQuant = 0 → ringCall ring.2 .remove = ((.emptyBuffer, none), ring.2)) := by
  intro ring fifo
  obtain ⟨hM, hn, hinv⟩ := ringInv_create hfits hcreate
  have hsim := ringCall_simulates.forall_calls hinv calls
  rw [Int.toNat_of_nonneg (Int.le_of_lt hM), Int.toNat_of_nonneg (Int.le_of_lt hn)] at hsim
  obtain ⟨hanswers, hend⟩ := hsim
  have hlist : RingList maxCapacity itemSize ring.2 fifo.2 := by
    have := hend.ringList
    rwa [Int.toNat_of_nonneg (Int.le_of_lt hM), Int.toNat_of_nonneg (Int.le_of_lt hn)] at this
  refine ⟨hanswers, hlist, fun item hfull => ?_, fun hempty => ?_⟩
  · rw [← hlist.capacity] at hfull
    simp only [ringCall, circularBufferAdd]
    rw [if_pos hfull]
  · simp only [ringCall, circularBufferRemove]
    rw [if_neg (by decide), if_pos hempty]

/-- A ring of two items of two bytes that is filled, refuses a third item, and is emptied
from its second slot on. -/
theorem ring_refines_fifo_two :
    let calls := [.add fun _ => 1, .add fun _ => 2, .add fun _ => 3, .remove, .add fun _ => 4,
      .remove, .remove, .remove]
    let ring := respond ringCall (circularBufferCreate 2 2 (some fun _ => 0)) calls
    ring.1 = [(.noError, none), (.noError, none), (.fullBuffer, none), (.noError, some [1, 1]),
      (.noError, none), (.noError, some [2, 2]), (.noError, some [4, 4]), (.emptyBuffer, none)] ∧
      RingList 2 2 ring.2 [] := by
  intro calls ring
  have hcreate : (circularBufferCreate 2 2 (some fun _ => 0)).allocated = true := rfl
  obtain ⟨hanswers, hlist, -⟩ := ring_refines_fifo (by decide) hcreate calls
  exact ⟨hanswers.trans (by decide), hlist⟩

end PingPongOS
