import PingPongOS.TaskQueue

/-!
# The heap allocator of `memory.c`

The heap is a static array of `HEAP_SIZE` bytes carved into blocks, each with a
header of 32 bytes.  An address is the offset from the start of the array, so
the first block is at `0` and `NULL` is `none`; the memory maps an address to
the header last written there, and keeps it after the block is merged away.

`unsigned int` and `size_t` subtractions wrap.  The loops that follow `next`
carry a budget of `HEAP_SIZE` steps: a call that exhausts it is one that goes
round a cycle, and its result is `none`.
-/

namespace PingPongOS

/-- `HEAP_SIZE`. -/
@[irreducible] def heapSize : Nat := 64 * 1024 * 1024

/-- `sizeof(block_header)`. -/
@[irreducible] def sizeofBlockHeader : Nat := 32

/-- Subtraction of `unsigned int` values. -/
def subUInt (a b : Nat) : Nat := (a + (2 ^ 32 - b % 2 ^ 32)) % 2 ^ 32

/-- Subtraction of `size_t` and `unsigned long` values. -/
def subULong (a b : Nat) : Nat := (a + (2 ^ 64 - b % 2 ^ 64)) % 2 ^ 64

/-- `struct block_header`. -/
structure BlockHeader where
  id : UInt16
  size : Nat
  isUsed : Bool
  next : Option Nat
  prev : Option Nat
  deriving DecidableEq

/-- The array `heap` and the counters of `memory.c`. -/
structure Heap where
  header : Nat → BlockHeader
  blockNumber : UInt16
  allocatedBytes : Nat
  availableBytes : Nat

theorem heapSize_eq : heapSize = 67108864 := by unfold heapSize; rfl

theorem sizeofBlockHeader_eq : sizeofBlockHeader = 32 := by unfold sizeofBlockHeader; rfl

namespace Heap

variable (h : Heap)

/-- Write the header at address `b`. -/
def write (b : Nat) (x : BlockHeader) : Heap :=
  { h with header := Function.update h.header b x }

@[simp] theorem write_header (b : Nat) (x : BlockHeader) :
    (h.write b x).header = Function.update h.header b x := rfl

@[simp] theorem write_availableBytes (b : Nat) (x : BlockHeader) :
    (h.write b x).availableBytes = h.availableBytes := rfl

@[simp] theorem write_allocatedBytes (b : Nat) (x : BlockHeader) :
    (h.write b x).allocatedBytes = h.allocatedBytes := rfl

/-- Follow `next` from `x` to the first block that passes `test`.  The outer
`none` is a walk that does not end. -/
def search (test : Nat → Bool) : Nat → Option Nat → Option (Option Nat)
  | _, none => some none
  | 0, some _ => none
  | fuel + 1, some b =>
      if test b then some (some b) else search test fuel (h.header b).next

end Heap

/-- `mem_init`, on the zeroed static array. -/
def memInit : Heap where
  header := Function.update (fun _ => ⟨0, 0, false, none, none⟩) 0
    ⟨0, subULong heapSize sizeofBlockHeader, false, none, none⟩
  blockNumber := 1
  allocatedBytes := 0
  availableBytes := heapSize

/-- `mem_avail`: the counter converted to `int`. -/
def memAvail (h : Heap) : Int := Int.bmod h.availableBytes (2 ^ 32)

/-- `((size - 1) | 15) + 1`, for `0 < size`. -/
def roundedSize (size : Int) : Nat := ((size.toNat - 1) ||| 15) + 1

/-- The first-fit loop of `mem_alloc`. -/
def firstFit (h : Heap) (allocated : Nat) : Option (Option Nat) :=
  h.search (fun b => !(h.header b).isUsed && decide (allocated ≤ (h.header b).size))
    heapSize (some 0)

/-- `current_block->size - allocated_size - sizeof(block_header)`: the first
subtraction is done in `unsigned int`, the second in `size_t`. -/
def splitRemainder (h : Heap) (b allocated : Nat) : Nat :=
  subULong (subUInt (h.header b).size allocated) sizeofBlockHeader

/-- Account for and size the block handed out. -/
def commitBlock (h : Heap) (b allocated : Nat) : Heap :=
  { h.write b { h.header b with size := allocated } with
    allocatedBytes := (h.allocatedBytes + allocated) % 2 ^ 64
    availableBytes := subULong h.availableBytes allocated }

/-- The split branch: write the header of the remainder and link it after `b`. -/
def splitBlock (h : Heap) (b allocated : Nat) : Heap :=
  let new := b + (sizeofBlockHeader + allocated)
  let h₁ := h.write new
    { id := h.blockNumber
      size := splitRemainder h b allocated % 2 ^ 32
      isUsed := false
      next := (h.header b).next
      prev := some b }
  { h₁.write b { h₁.header b with next := some new } with
    blockNumber := h.blockNumber + 1
    availableBytes := subULong h.availableBytes sizeofBlockHeader
    allocatedBytes := (h.allocatedBytes + sizeofBlockHeader) % 2 ^ 64 }

/-- The body of the first-fit loop once block `b` is chosen. -/
def takeBlock (h : Heap) (b allocated : Nat) : Heap :=
  let h₁ := h.write b { h.header b with isUsed := true }
  if 16 ≤ splitRemainder h₁ b allocated then
    commitBlock (splitBlock h₁ b allocated) b allocated
  else
    commitBlock h₁ b (h₁.header b).size

/-- `mem_alloc`: the pointer returned and the heap after the call. -/
def memAlloc (h : Heap) (size : Int) : Option (Option Nat × Heap) :=
  if size ≤ 0 then some (none, h)
  else if h.availableBytes < size.toNat then some (none, h)
  else
    match firstFit h (roundedSize size) with
    | none => none
    | some none => some (none, h)
    | some (some b) =>
        some (some (b + sizeofBlockHeader), takeBlock h b (roundedSize size))

/-- `current_block->next->prev = p` where the next block exists. -/
def setPrev (h : Heap) (b : Option Nat) (p : Option Nat) : Heap :=
  match b with
  | none => h
  | some c => h.write c { h.header c with prev := p }

/-- Block `b` takes over block `n`: its size and header, and its `next` link,
whose block then points back to `b`. -/
def absorbBlock (h : Heap) (b n : Nat) : Heap :=
  let h₁ := h.write b { h.header b with
    size := ((h.header b).size + (sizeofBlockHeader + (h.header n).size)) % 2 ^ 32 }
  let h₂ := { h₁ with
    availableBytes := (h₁.availableBytes + sizeofBlockHeader) % 2 ^ 64
    allocatedBytes := subULong h₁.allocatedBytes sizeofBlockHeader }
  let h₃ := h₂.write b { h₂.header b with next := (h₂.header n).next }
  setPrev h₃ (h₃.header b).next (some b)

/-- The forward merge of `mem_free`. -/
def mergeForward (h : Heap) (b : Nat) : Heap :=
  match (h.header b).next with
  | none => h
  | some n => if (h.header n).isUsed then h else absorbBlock h b n

/-- The backward merge of `mem_free`, through the `prev` link of the block. -/
def mergeBackward (h : Heap) (b : Nat) : Heap :=
  match (h.header b).prev with
  | none => h
  | some p => if (h.header p).isUsed then h else absorbBlock h p b

/-- Mark block `b` free and account for it. -/
def releaseBlock (h : Heap) (b : Nat) : Heap :=
  { h.write b { h.header b with isUsed := false } with
    allocatedBytes := subULong h.allocatedBytes (h.header b).size
    availableBytes := (h.availableBytes + (h.header b).size) % 2 ^ 64 }

/-- `mem_free`.  A pointer that is not `NULL` is any distance from the start of
the heap, inside it or not. -/
def memFree (h : Heap) (ptr : Option Int) : Option (Int × Heap) :=
  if (heapSize : Int) ≤ memAvail h then some (error, h)
  else
    match ptr with
    | none => some (error, h)
    | some p =>
        match h.search (fun b => decide ((b : Int) = p - sizeofBlockHeader))
            heapSize (some 0) with
        | none => none
        | some none => some (error, h)
        | some (some b) =>
            if (h.header b).isUsed then
              some (noError, mergeBackward (mergeForward (releaseBlock h b) b) b)
            else some (error, h)

end PingPongOS
