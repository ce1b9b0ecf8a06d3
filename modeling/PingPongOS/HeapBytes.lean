import PingPongOS.ByteMemory
import PingPongOS.HeapRuns

/-!
# The bytes of the heap

`mem_alloc` and `mem_free` on the memory of the process: a header is 32 bytes at the start
of its block, in the same array as the payloads, and every access to a header is a load or a
store of the bytes of one field.  The padding of a header is left alone.

On blocks whose headers do not overlap this refines the allocator on a map of headers: a
store to a field of one block is the write of that field.
-/

namespace PingPongOS

open ByteMemory Tiling

/-- A pointer; `NULL` is `0`. -/
abbrev Pointer := BitVec 64

/-- The memory of the process and the counters of `memory.c`. -/
structure HeapMemory where
  memory : Memory 64
  blockNumber : UInt16
  allocatedBytes : Nat
  availableBytes : Nat

/-- The fields of `struct block_header`. -/
inductive HeaderField
  | id
  | size
  | isUsed
  | next
  | prev
  deriving DecidableEq

/-- Where a field starts in the header. -/
def HeaderField.offset : HeaderField → Nat
  | .id => 0
  | .size => 4
  | .isUsed => 8
  | .next => 16
  | .prev => 24

/-- Its bytes. -/
def HeaderField.width : HeaderField → Nat
  | .id => 2
  | .size => 4
  | .isUsed => 2
  | .next => 8
  | .prev => 8

namespace HeapMemory

variable (s : HeapMemory)

/-- The number in a field of the header at `p`. -/
def get (p : Pointer) (f : HeaderField) : Nat :=
  load s.memory (p + BitVec.ofNat 64 f.offset) f.width

/-- Assign to a field of the header at `p`; what does not fit in the field is cut off. -/
def set (p : Pointer) (f : HeaderField) (v : Nat) : HeapMemory :=
  { s with memory := store s.memory (p + BitVec.ofNat 64 f.offset) f.width v }

/-- The bytes with other counters. -/
def withCounters (number : UInt16) (allocated available : Nat) : HeapMemory :=
  { s with blockNumber := number, allocatedBytes := allocated, availableBytes := available }

/-- `p->is_used`. -/
def isUsed (p : Pointer) : Bool := s.get p .isUsed != 0

/-- `p->next`. -/
def next (p : Pointer) : Pointer := BitVec.ofNat 64 (s.get p .next)

/-- `p->prev`. -/
def prev (p : Pointer) : Pointer := BitVec.ofNat 64 (s.get p .prev)

/-- `*p = (block_header){ … }`. -/
def writeHeader (p : Pointer) (id : UInt16) (size : Nat) (next prev : Pointer) : HeapMemory :=
  ((((s.set p .id id.toNat).set p .size size).set p .isUsed 0).set p .next next.toNat).set
    p .prev prev.toNat

/-- `mem_init`, on the zeroed array at `heap`. -/
def memInit (heap : Pointer) (memory : Memory 64) : HeapMemory :=
  HeapMemory.writeHeader ⟨memory, 1, 0, heapSize⟩ heap 0
    (subULong heapSize sizeofBlockHeader) 0 0

/-- Follow `next` from `p` to the first block that passes `test`, or to `NULL`; `none` is a
walk that does not end. -/
def search (test : Pointer → Bool) : Nat → Pointer → Option Pointer
  | 0, p => if p = 0 then some 0 else none
  | fuel + 1, p =>
      if p = 0 then some 0
      else if test p then some p
      else search test fuel (s.next p)

/-- `current_block->size = allocated_size`, and the counters. -/
def commitBlock (p : Pointer) (allocated : Nat) : HeapMemory :=
  (s.set p .size allocated).withCounters s.blockNumber
    ((s.allocatedBytes + allocated) % 2 ^ 64) (subULong s.availableBytes allocated)

/-- The split branch: the remainder gets `size` bytes. -/
def splitBlock (p : Pointer) (allocated size : Nat) : HeapMemory :=
  let new := p + BitVec.ofNat 64 (sizeofBlockHeader + allocated)
  ((s.writeHeader new s.blockNumber size (s.next p) p).set p .next new.toNat).withCounters
    (s.blockNumber + 1) ((s.allocatedBytes + sizeofBlockHeader) % 2 ^ 64)
    (subULong s.availableBytes sizeofBlockHeader)

/-- The body of the loop of `mem_alloc` once the block at `p` is chosen. -/
def takeBlock (p : Pointer) (allocated : Nat) : HeapMemory :=
  let s₁ := s.set p .isUsed 1
  let rest := subULong (subUInt (s₁.get p .size) allocated) sizeofBlockHeader
  if 16 ≤ rest then (s₁.splitBlock p allocated (rest % 2 ^ 32)).commitBlock p allocated
  else s₁.commitBlock p (s₁.get p .size)

/-- `mem_alloc`. -/
def memAlloc (heap : Pointer) (size : Int) : Option (Pointer × HeapMemory) :=
  if size ≤ 0 then some (0, s)
  else if s.availableBytes < size.toNat then some (0, s)
  else
    (s.search (fun p => !s.isUsed p && decide (roundedSize size ≤ s.get p .size))
      heapSize heap).map fun p =>
        if p = 0 then (0, s)
        else (p + BitVec.ofNat 64 sizeofBlockHeader, s.takeBlock p (roundedSize size))

/-- `is_used = 0`, and the counters. -/
def releaseBlock (p : Pointer) : HeapMemory :=
  (s.set p .isUsed 0).withCounters s.blockNumber
    (subULong s.allocatedBytes (s.get p .size)) ((s.availableBytes + s.get p .size) % 2 ^ 64)

/-- A header goes from the allocated to the available bytes. -/
def reclaim : HeapMemory :=
  s.withCounters s.blockNumber (subULong s.allocatedBytes sizeofBlockHeader)
    ((s.availableBytes + sizeofBlockHeader) % 2 ^ 64)

/-- The forward merge of `mem_free`. -/
def mergeForward (p : Pointer) : HeapMemory :=
  if s.next p ≠ 0 ∧ s.isUsed (s.next p) = false then
    let s₁ := (s.set p .size (s.get p .size +
      (sizeofBlockHeader + s.get (s.next p) .size))).reclaim
    let s₂ := s₁.set p .next (s₁.next (s₁.next p)).toNat
    if s₂.next p ≠ 0 then s₂.set (s₂.next p) .prev p.toNat else s₂
  else s

/-- The backward merge of `mem_free`. -/
def mergeBackward (p : Pointer) : HeapMemory :=
  if s.prev p ≠ 0 ∧ s.isUsed (s.prev p) = false then
    let s₁ := (s.set (s.prev p) .size (s.get (s.prev p) .size +
      (sizeofBlockHeader + s.get p .size))).reclaim
    let s₂ := s₁.set (s₁.prev p) .next (s₁.next p).toNat
    if s₂.next p ≠ 0 then s₂.set (s₂.next p) .prev (s₂.prev p).toNat else s₂
  else s

/-- `mem_avail`. -/
def memAvail : Int := Int.bmod s.availableBytes (2 ^ 32)

/-- `mem_free`. -/
def memFree (heap ptr : Pointer) : Option (Int × HeapMemory) :=
  if (heapSize : Int) ≤ s.memAvail then some (error, s)
  else if ptr = 0 then some (error, s)
  else
    (s.search (fun p => decide (p = ptr - BitVec.ofNat 64 sizeofBlockHeader))
      heapSize heap).map fun p =>
        if p = 0 ∨ s.isUsed p = false then (error, s)
        else (noError, ((s.releaseBlock p).mergeForward p).mergeBackward p)

end HeapMemory

/-! ## Headers in the bytes -/

/-- The pointer to the block at an offset. -/
def blockAt (heap : Pointer) (b : Nat) : Pointer := heap + BitVec.ofNat 64 b

/-- The offset that a pointer points to. -/
def offsetOf (heap p : Pointer) : Option Nat := if p = 0 then none else some (p - heap).toNat

/-- The pointer to an offset. -/
def pointerTo (heap : Pointer) : Option Nat → Pointer
  | none => 0
  | some b => blockAt heap b

/-- The header in the bytes at an offset. -/
def HeapMemory.headerAt (s : HeapMemory) (heap : Pointer) (b : Nat) : BlockHeader where
  id := UInt16.ofNat (s.get (blockAt heap b) .id)
  size := s.get (blockAt heap b) .size
  isUsed := s.isUsed (blockAt heap b)
  next := offsetOf heap (s.next (blockAt heap b))
  prev := offsetOf heap (s.prev (blockAt heap b))

/-- A header with one field changed to a number. -/
def BlockHeader.put (heap : Pointer) (x : BlockHeader) (v : Nat) : HeaderField → BlockHeader
  | .id => { x with id := UInt16.ofNat (v % 2 ^ 16) }
  | .size => { x with size := v % 2 ^ 32 }
  | .isUsed => { x with isUsed := v % 2 ^ 16 != 0 }
  | .next => { x with next := offsetOf heap (BitVec.ofNat 64 v) }
  | .prev => { x with prev := offsetOf heap (BitVec.ofNat 64 v) }

/-- Headers that do not overlap, in the array. -/
def HeadersApart (bs : List Nat) : Prop :=
  ∀ b ∈ bs, b + sizeofBlockHeader ≤ heapSize ∧
    ∀ c ∈ bs, c = b ∨ c + sizeofBlockHeader ≤ b ∨ b + sizeofBlockHeader ≤ c

/-- The bytes hold these headers, the counters are the same, and no byte outside these
headers is another than in `m₀`. -/
structure Shows (heap : Pointer) (m₀ : Memory 64) (s : HeapMemory) (h : Heap) (bs : List Nat) :
    Prop where
  header : ∀ b ∈ bs, s.headerAt heap b = h.header b
  blockNumber : s.blockNumber = h.blockNumber
  allocated : s.allocatedBytes = h.allocatedBytes
  available : s.availableBytes = h.availableBytes
  frame : ∀ x, (∀ b ∈ bs, x ∉ area (blockAt heap b) sizeofBlockHeader) → s.memory x = m₀ x

variable {heap : Pointer} {s : HeapMemory} {m₀ : Memory 64} {h h' : Heap} {bs : List Nat}
  {b c v : Nat} {f g : HeaderField}

/-! ## Pointers and offsets -/

theorem blockAt_add (heap : Pointer) (b i : Nat) :
    blockAt heap b + BitVec.ofNat 64 i = blockAt heap (b + i) := by
  rw [blockAt, blockAt, BitVec.ofNat_add, BitVec.add_assoc]

theorem blockAt_sub (hb : b < 2 ^ 64) : (blockAt heap b - heap).toNat = b := by
  rw [blockAt, add_sub_toNat heap hb]

theorem pointerTo_offsetOf (heap p : Pointer) : pointerTo heap (offsetOf heap p) = p := by
  unfold offsetOf
  split
  · rename_i hp
    exact hp.symm
  · exact (eq_add_of_sub p heap).symm

theorem offsetOf_blockAt (hb : b < 2 ^ 64) (hnull : blockAt heap b ≠ 0) :
    offsetOf heap (blockAt heap b) = some b := by
  rw [offsetOf, if_neg hnull, blockAt_sub hb]

/-- The array is not at `NULL`. -/
theorem blockAt_ne_zero (hheap : (0 : Pointer) ∉ area heap heapSize) (hb : b < heapSize) :
    blockAt heap b ≠ 0 := fun heq => hheap (heq ▸ add_mem_area hb)

/-! ## Fields -/

theorem HeaderField.fits (f : HeaderField) : f.offset + f.width ≤ sizeofBlockHeader := by
  rw [sizeofBlockHeader_eq]
  cases f <;> decide

/-- Two fields of one header do not overlap. -/
theorem HeaderField.apart (hne : f ≠ g) :
    f.offset + f.width ≤ g.offset ∨ g.offset + g.width ≤ f.offset := by
  cases f <;> cases g <;> first | exact absurd rfl hne | decide

/-- **A load after a store**: the field written, or one that does not overlap. -/
theorem HeapMemory.get_set (hb : b + sizeofBlockHeader ≤ heapSize)
    (hc : c + sizeofBlockHeader ≤ heapSize)
    (hapart : c = b ∨ c + sizeofBlockHeader ≤ b ∨ b + sizeofBlockHeader ≤ c) :
    (s.set (blockAt heap b) f v).get (blockAt heap c) g =
      if c = b ∧ g = f then v % 256 ^ f.width else s.get (blockAt heap c) g := by
  have hH := heapSize_eq
  have hf := f.fits
  have hg := g.fits
  split
  · rename_i heq
    obtain ⟨rfl, rfl⟩ := heq
    exact load_store (by have := sizeofBlockHeader_eq; omega)
  · rename_i hne
    refine load_store_of_disjoint ?_
    rw [blockAt_add, blockAt_add, blockAt, blockAt]
    have hoffsets : b + f.offset + f.width ≤ c + g.offset ∨
        c + g.offset + g.width ≤ b + f.offset := by
      rcases hapart with rfl | hlow | hhigh
      · have := HeaderField.apart (f := f) (g := g) fun heq => hne ⟨rfl, heq.symm⟩
        omega
      · omega
      · omega
    rcases hoffsets with hlt | hlt
    · exact (area_disjoint hlt (by omega)).symm
    · exact area_disjoint hlt (by omega)

/-- A store to a field changes that field of that header. -/
theorem HeapMemory.headerAt_set (hb : b + sizeofBlockHeader ≤ heapSize)
    (hc : c + sizeofBlockHeader ≤ heapSize)
    (hapart : c = b ∨ c + sizeofBlockHeader ≤ b ∨ b + sizeofBlockHeader ≤ c) :
    (s.set (blockAt heap b) f v).headerAt heap c =
      if c = b then (s.headerAt heap c).put heap v f else s.headerAt heap c := by
  have hget : ∀ g, (s.set (blockAt heap b) f v).get (blockAt heap c) g =
      if c = b ∧ g = f then v % 256 ^ f.width else s.get (blockAt heap c) g :=
    fun g => get_set hb hc hapart
  unfold headerAt isUsed next prev
  simp only [hget]
  have hmod : BitVec.ofNat 64 (v % 18446744073709551616) = BitVec.ofNat 64 v :=
    BitVec.eq_of_toNat_eq (by simp)
  by_cases hcb : c = b
  · subst hcb
    cases f <;> simp [BlockHeader.put, HeaderField.width, hmod]
  · simp [hcb]

/-- The counters are apart from the headers. -/
@[simp] theorem HeapMemory.withCounters_headerAt (number : UInt16) (allocated available : Nat) :
    (s.withCounters number allocated available).headerAt heap b = s.headerAt heap b := rfl

theorem headersApart_subset {cs : List Nat} (hsp : HeadersApart bs) (hsub : cs ⊆ bs) :
    HeadersApart cs :=
  fun b hb => ⟨(hsp b (hsub hb)).1, fun c hc => (hsp b (hsub hb)).2 c (hsub hc)⟩

/-- From here on, on some of the blocks. -/
theorem Shows.mono {cs : List Nat} (hs : Shows heap m₀ s h bs) (hsub : cs ⊆ bs) :
    Shows heap s.memory s h cs where
  header b hb := hs.header b (hsub hb)
  blockNumber := hs.blockNumber
  allocated := hs.allocated
  available := hs.available
  frame _ _ := rfl

/-- The same blocks in another list. -/
theorem Shows.of_mem_iff {cs : List Nat} (hs : Shows heap m₀ s h bs)
    (hmem : ∀ b, b ∈ cs ↔ b ∈ bs) : Shows heap m₀ s h cs where
  header b hb := hs.header b ((hmem b).mp hb)
  blockNumber := hs.blockNumber
  allocated := hs.allocated
  available := hs.available
  frame x hx := hs.frame x fun b hb => hx b ((hmem b).mpr hb)

/-- A store to a field changes bytes of its header alone. -/
theorem HeapMemory.set_frame {x : Pointer}
    (hx : x ∉ area (blockAt heap b) sizeofBlockHeader) :
    (s.set (blockAt heap b) f v).memory x = s.memory x := by
  have hS := sizeofBlockHeader_eq
  exact store_of_notMem fun hin => hx (area_subset f.fits (by omega) hin)

/-- **A store to a field** is the write of that field. -/
theorem Shows.set (hs : Shows heap m₀ s h bs) (hsp : HeadersApart bs) (hb : b ∈ bs) :
    Shows heap m₀ (s.set (blockAt heap b) f v) (h.write b ((h.header b).put heap v f)) bs where
  header c hc := by
    rw [HeapMemory.headerAt_set (hsp b hb).1 (hsp c hc).1 ((hsp b hb).2 c hc),
      Heap.write_header]
    split
    · rename_i hcb
      rw [hcb, Function.update_self, hs.header b hb]
    · rename_i hcb
      rw [Function.update_of_ne hcb, hs.header c hc]
  blockNumber := hs.blockNumber
  allocated := hs.allocated
  available := hs.available
  frame x hx := (HeapMemory.set_frame (hx b hb)).trans (hs.frame x hx)

/-- Writing a whole header. -/
theorem Shows.writeHeader {id : UInt16} {size : Nat} {next prev : Pointer}
    (hs : Shows heap m₀ s h bs) (hsp : HeadersApart (b :: bs)) :
    Shows heap m₀ (s.writeHeader (blockAt heap b) id size next prev)
      (h.write b ⟨id, size % 2 ^ 32, false, offsetOf heap next, offsetOf heap prev⟩)
      (b :: bs) where
  header c hc := by
    have hbin : b + sizeofBlockHeader ≤ heapSize := (hsp b List.mem_cons_self).1
    have hset : ∀ (t : HeapMemory) f v, (t.set (blockAt heap b) f v).headerAt heap c =
        if c = b then (t.headerAt heap c).put heap v f else t.headerAt heap c := fun t f v =>
      HeapMemory.headerAt_set hbin (hsp c hc).1 ((hsp b List.mem_cons_self).2 c hc)
    rw [HeapMemory.writeHeader]
    simp only [hset, Heap.write_header]
    by_cases hcb : c = b
    · subst hcb
      rw [Function.update_self]
      simp only [if_true, BlockHeader.put, BitVec.ofNat_toNat, BitVec.setWidth_eq]
      congr 1
      exact UInt16.toNat_inj.mp (by simp)
    · simp only [if_neg hcb, Function.update_of_ne hcb]
      exact hs.header c ((List.mem_cons.mp hc).resolve_left hcb)
  blockNumber := hs.blockNumber
  allocated := hs.allocated
  available := hs.available
  frame x hx := by
    have hset := fun t f v => HeapMemory.set_frame (s := t) (f := f) (v := v)
      (hx b List.mem_cons_self)
    simp only [HeapMemory.writeHeader, hset]
    exact hs.frame x fun c hc => hx c (List.mem_cons_of_mem b hc)

section

variable (hs : Shows heap m₀ s h bs) (hb : b ∈ bs)
include hs hb

theorem Shows.get_size : s.get (blockAt heap b) .size = (h.header b).size :=
  congrArg BlockHeader.size (hs.header b hb)

theorem Shows.isUsed : s.isUsed (blockAt heap b) = (h.header b).isUsed :=
  congrArg BlockHeader.isUsed (hs.header b hb)

theorem Shows.next : s.next (blockAt heap b) = pointerTo heap (h.header b).next := by
  rw [← hs.header b hb]
  exact (pointerTo_offsetOf heap _).symm

theorem Shows.offset_next : offsetOf heap (s.next (blockAt heap b)) = (h.header b).next :=
  congrArg BlockHeader.next (hs.header b hb)

theorem Shows.prev : s.prev (blockAt heap b) = pointerTo heap (h.header b).prev := by
  rw [← hs.header b hb]
  exact (pointerTo_offsetOf heap _).symm

end

/-! ## The walk -/

/-- **Following `next`** in the bytes and in the headers. -/
theorem search_shows (hs : Shows heap m₀ s h bs) (hheap : (0 : Pointer) ∉ area heap heapSize)
    (hin : ∀ b ∈ bs, b < heapSize) {test : Pointer → Bool} {test' : Nat → Bool}
    (htest : ∀ b ∈ bs, test (blockAt heap b) = test' b) {fuel : Nat} {x : Option Nat}
    {cs : List Nat} (hf : Follows h x cs) (hsub : cs ⊆ bs) :
    s.search test fuel (pointerTo heap x) = (h.search test' fuel x).map (pointerTo heap) := by
  induction fuel generalizing x cs with
  | zero =>
      cases cs with
      | nil =>
          obtain rfl : x = none := hf
          rfl
      | cons b cs =>
          obtain ⟨rfl, -⟩ := hf
          have hb := hsub List.mem_cons_self
          exact if_neg (blockAt_ne_zero hheap (hin b hb))
  | succ fuel ih =>
      cases cs with
      | nil =>
          obtain rfl : x = none := hf
          rfl
      | cons b cs =>
          obtain ⟨rfl, hf⟩ := hf
          have hb := hsub List.mem_cons_self
          have hne : pointerTo heap (some b) ≠ 0 := blockAt_ne_zero hheap (hin b hb)
          rw [HeapMemory.search, if_neg hne, Heap.search]
          simp only [pointerTo, htest b hb]
          cases test' b with
          | true => rfl
          | false =>
              simp only [Bool.false_eq_true, if_false, hs.next hb]
              exact ih hf fun c hc => hsub (List.mem_cons_of_mem b hc)

/-- The counters, apart from the headers. -/
theorem Shows.withCounters (hs : Shows heap m₀ s h bs) {number : UInt16} {allocated available : Nat}
    (hheader : h'.header = h.header) (hnumber : number = h'.blockNumber)
    (hallocated : allocated = h'.allocatedBytes) (havailable : available = h'.availableBytes) :
    Shows heap m₀ (s.withCounters number allocated available) h' bs where
  header b hb := by rw [HeapMemory.withCounters_headerAt, hs.header b hb, hheader]
  blockNumber := hnumber
  allocated := hallocated
  available := havailable
  frame := hs.frame

/-! ## `mem_alloc` -/

theorem Shows.commitBlock (hs : Shows heap m₀ s h bs) (hsp : HeadersApart bs) (hb : b ∈ bs)
    {r : Nat} (hr : r < 2 ^ 32) :
    Shows heap m₀ (s.commitBlock (blockAt heap b) r) (commitBlock h b r) bs := by
  have hset := hs.set hsp hb (f := .size) (v := r)
  rw [BlockHeader.put, Nat.mod_eq_of_lt hr] at hset
  exact hset.withCounters (commitBlock_header h b r) hs.blockNumber
    (congrArg (fun a => (a + r) % 2 ^ 64) hs.allocated)
    (congrArg (fun a => subULong a r) hs.available)

/-- Splitting a block writes the header of the remainder too. -/
theorem Shows.splitBlock (hs : Shows heap m₀ s h bs)
    (hheap : (0 : Pointer) ∉ area heap heapSize) {r : Nat}
    (hsp : HeadersApart ((b + (sizeofBlockHeader + r)) :: bs)) (hb : b ∈ bs) :
    Shows heap m₀ (s.splitBlock (blockAt heap b) r (splitRemainder h b r % 2 ^ 32))
      (splitBlock h b r) ((b + (sizeofBlockHeader + r)) :: bs) := by
  have hH := heapSize_eq
  have hS := sizeofBlockHeader_eq
  have hnew := (hsp _ List.mem_cons_self).1
  have hbin := (hsp b (List.mem_cons_of_mem _ hb)).1
  have hnull := blockAt_ne_zero hheap (b := b) (by omega)
  have hnull' := blockAt_ne_zero hheap (b := b + (sizeofBlockHeader + r)) (by omega)
  have hheader : Shows heap m₀ (s.writeHeader (blockAt heap (b + (sizeofBlockHeader + r)))
      s.blockNumber (splitRemainder h b r % 2 ^ 32) (s.next (blockAt heap b))
      (blockAt heap b)) _ _ := hs.writeHeader hsp
  have hwrite := hheader.set hsp (List.mem_cons_of_mem _ hb) (f := .next)
    (v := (blockAt heap (b + (sizeofBlockHeader + r))).toNat)
  rw [offsetOf_blockAt (by omega) hnull, hs.offset_next hb, Nat.mod_mod] at hwrite
  simp only [BlockHeader.put, BitVec.ofNat_toNat, BitVec.setWidth_eq,
    offsetOf_blockAt (show b + (sizeofBlockHeader + r) < 2 ^ 64 by omega) hnull'] at hwrite
  rw [HeapMemory.splitBlock]
  simp only [blockAt_add]
  refine hwrite.withCounters ?_ (congrArg (· + 1) hs.blockNumber)
    (congrArg (fun a => (a + sizeofBlockHeader) % 2 ^ 64) hs.allocated)
    (congrArg (fun a => subULong a sizeofBlockHeader) hs.available)
  simp only [PingPongOS.splitBlock, Heap.write_header, hs.blockNumber]

/-- **Taking a block** in the bytes and in the headers; a split has one more header. -/
theorem Shows.takeBlock (hs : Shows heap m₀ s h bs) (hheap : (0 : Pointer) ∉ area heap heapSize)
    {n r : Nat} (hsize : (h.header b).size = n) (hn : n < 2 ^ 32)
    (hroom : r + sizeofBlockHeader ≤ n) (hb : b ∈ bs) {cs : List Nat} (hcs : cs =
      if r + sizeofBlockHeader + 16 ≤ n then (b + (sizeofBlockHeader + r)) :: bs else bs)
    (hsp : HeadersApart cs) :
    Shows heap m₀ (s.takeBlock (blockAt heap b) r) (takeBlock h b r) cs := by
  have hsub : bs ⊆ cs := by
    rw [hcs]
    split
    · exact List.subset_cons_self _ _
    · exact fun _ hc => hc
  have hmark := hs.set (headersApart_subset hsp hsub) hb (f := .isUsed) (v := 1)
  have hput : (h.header b).put heap 1 .isUsed = { h.header b with isUsed := true } := rfl
  rw [hput] at hmark
  have hrem := splitRemainder_of_le (marked_size hsize) hn hroom
  have hdef := hmark.get_size hb
  rw [HeapMemory.takeBlock, PingPongOS.takeBlock]
  simp only [hdef]
  change Shows heap m₀ (if 16 ≤ splitRemainder (h.write b { h.header b with isUsed := true }) b r
    then ((s.set (blockAt heap b) .isUsed 1).splitBlock (blockAt heap b) r
      (splitRemainder (h.write b { h.header b with isUsed := true }) b r % 2 ^ 32)).commitBlock
        (blockAt heap b) r
    else _) _ cs
  by_cases hfit : r + sizeofBlockHeader + 16 ≤ n
  · rw [if_pos (by rw [hrem]; omega), if_pos (by rw [hrem]; omega)]
    rw [hcs, if_pos hfit] at hsp ⊢
    exact (hmark.splitBlock hheap hsp hb).commitBlock hsp (List.mem_cons_of_mem _ hb) (by omega)
  · rw [if_neg (by rw [hrem]; omega), if_neg (by rw [hrem]; omega)]
    rw [hcs, if_neg hfit] at hsp ⊢
    exact hmark.commitBlock hsp hb (by rw [marked_size hsize]; exact hn)

/-! ## `mem_free` -/

theorem Shows.releaseBlock (hs : Shows heap m₀ s h bs) (hsp : HeadersApart bs) (hb : b ∈ bs) :
    Shows heap m₀ (s.releaseBlock (blockAt heap b)) (releaseBlock h b) bs := by
  have hset := hs.set hsp hb (f := .isUsed) (v := 0)
  refine hset.withCounters ?_ hs.blockNumber ?_ ?_
  · simp only [PingPongOS.releaseBlock, Heap.write_header, BlockHeader.put]
    rfl
  · rw [hs.allocated, hs.get_size hb, PingPongOS.releaseBlock]
  · rw [hs.available, hs.get_size hb, PingPongOS.releaseBlock]

/-- The block at `b` with the size of itself, a header and the block at `n`. -/
def resized (h : Heap) (b n : Nat) : Heap :=
  { h.write b { h.header b with
      size := ((h.header b).size + (sizeofBlockHeader + (h.header n).size)) % 2 ^ 32 } with
    availableBytes := (h.availableBytes + sizeofBlockHeader) % 2 ^ 64
    allocatedBytes := subULong h.allocatedBytes sizeofBlockHeader }

/-- And linked to the block after `n`. -/
def relinked (h : Heap) (b n : Nat) : Heap :=
  (resized h b n).write b
    { (resized h b n).header b with next := ((resized h b n).header n).next }

theorem resized_header (h : Heap) (b n : Nat) : (resized h b n).header =
    Function.update h.header b { h.header b with
      size := ((h.header b).size + (sizeofBlockHeader + (h.header n).size)) % 2 ^ 32 } := by
  simp only [resized, Heap.write_header]

theorem absorbBlock_eq (h : Heap) (b n : Nat) : absorbBlock h b n =
    setPrev (relinked h b n) ((relinked h b n).header b).next (some b) := rfl

theorem relinked_header {n : Nat} (hne : n ≠ b) :
    ((relinked h b n).header b).next = (h.header n).next ∧
      (relinked h b n).header n = h.header n := by
  simp [relinked, resized, hne]

theorem Shows.resize (hs : Shows heap m₀ s h bs) (hsp : HeadersApart bs) (hb : b ∈ bs) {n : Nat}
    (hn : n ∈ bs) :
    Shows heap m₀ (s.set (blockAt heap b) .size (s.get (blockAt heap b) .size +
      (sizeofBlockHeader + s.get (blockAt heap n) .size))).reclaim (resized h b n) bs := by
  rw [hs.get_size hb, hs.get_size hn]
  have hset := hs.set hsp hb (f := .size)
    (v := (h.header b).size + (sizeofBlockHeader + (h.header n).size))
  rw [BlockHeader.put] at hset
  refine hset.withCounters ?_ hs.blockNumber ?_ ?_
  · rw [resized_header, Heap.write_header]
  · rw [hset.allocated, resized, Heap.write_allocatedBytes]
  · rw [hset.available, resized, Heap.write_availableBytes]

theorem Shows.relink (hs : Shows heap m₀ s (resized h b c) bs) (hsp : HeadersApart bs) (hb : b ∈ bs)
    (hc : c ∈ bs) :
    Shows heap m₀ (s.set (blockAt heap b) .next (s.next (blockAt heap c)).toNat)
      (relinked h b c) bs := by
  have hset := hs.set hsp hb (f := .next) (v := (s.next (blockAt heap c)).toNat)
  simp only [BlockHeader.put, BitVec.ofNat_toNat, BitVec.setWidth_eq, hs.offset_next hc] at hset
  exact hset

/-- The block after the merged one is linked back. -/
theorem Shows.linkBack (hs : Shows heap m₀ s h bs) (hsp : HeadersApart bs)
    (hheap : (0 : Pointer) ∉ area heap heapSize) (hb : b ∈ bs) {x : Option Nat}
    (hx : ∀ c, x = some c → c ∈ bs) :
    Shows heap m₀ (if pointerTo heap x ≠ 0 then
        s.set (pointerTo heap x) .prev (blockAt heap b).toNat else s)
      (setPrev h x (some b)) bs := by
  have hH := heapSize_eq
  have hS := sizeofBlockHeader_eq
  cases x with
  | none => exact hs
  | some c =>
      have hc := hx c rfl
      have hcin := (hsp c hc).1
      have hbin := (hsp b hb).1
      have hnull : pointerTo heap (some c) ≠ 0 := blockAt_ne_zero hheap (by omega)
      rw [if_pos hnull]
      have hset := hs.set hsp hc (f := .prev) (v := (blockAt heap b).toNat)
      simp only [BlockHeader.put, BitVec.ofNat_toNat, BitVec.setWidth_eq,
        offsetOf_blockAt (show b < 2 ^ 64 by omega) (blockAt_ne_zero hheap (by omega))] at hset
      exact hset

/-- **The forward merge.** -/
theorem Shows.mergeForward (hs : Shows heap m₀ s h bs) (hsp : HeadersApart bs)
    (hheap : (0 : Pointer) ∉ area heap heapSize) (hb : b ∈ bs)
    (hnext : ∀ n, (h.header b).next = some n → n ∈ bs ∧ n ≠ b ∧
      ∀ c, (h.header n).next = some c → c ∈ bs) :
    Shows heap m₀ (s.mergeForward (blockAt heap b)) (mergeForward h b) bs := by
  have hH := heapSize_eq
  have hS := sizeofBlockHeader_eq
  rw [HeapMemory.mergeForward, hs.next hb, PingPongOS.mergeForward]
  cases hbn : (h.header b).next with
  | none => exact hs
  | some n =>
      obtain ⟨hn, hne, hafter⟩ := hnext n hbn
      have hin := (hsp n hn).1
      simp only [pointerTo, hs.isUsed hn]
      cases hu : (h.header n).isUsed with
      | true =>
          rw [if_neg (by simp), if_pos rfl]
          exact hs
      | false =>
          rw [if_pos ⟨blockAt_ne_zero hheap (by omega), rfl⟩, if_neg (by simp), absorbBlock_eq]
          have h₁ := hs.resize hsp hb hn
          have hlink : ((resized h b n).header b).next = some n := by
            simp [resized, hbn]
          simp only [h₁.next hb, hlink, pointerTo]
          have h₂ := h₁.relink hsp hb hn
          rw [h₂.next hb]
          refine h₂.linkBack hsp hheap hb fun c hc => hafter c ?_
          rw [← hc, (relinked_header hne).1]

/-- **The backward merge.** -/
theorem Shows.mergeBackward (hs : Shows heap m₀ s h bs) (hsp : HeadersApart bs)
    (hheap : (0 : Pointer) ∉ area heap heapSize) (hb : b ∈ bs)
    (hprev : ∀ q, (h.header b).prev = some q → q ∈ bs ∧ b ≠ q)
    (hnext : ∀ c, (h.header b).next = some c → c ∈ bs) :
    Shows heap m₀ (s.mergeBackward (blockAt heap b)) (mergeBackward h b) bs := by
  have hH := heapSize_eq
  have hS := sizeofBlockHeader_eq
  rw [HeapMemory.mergeBackward, hs.prev hb, PingPongOS.mergeBackward]
  cases hbq : (h.header b).prev with
  | none => exact hs
  | some q =>
      obtain ⟨hq, hne⟩ := hprev q hbq
      have hin := (hsp q hq).1
      simp only [pointerTo, hs.isUsed hq]
      cases hu : (h.header q).isUsed with
      | true =>
          rw [if_neg (by simp), if_pos rfl]
          exact hs
      | false =>
          rw [if_pos ⟨blockAt_ne_zero hheap (by omega), rfl⟩, if_neg (by simp), absorbBlock_eq]
          have h₁ := hs.resize hsp hq hb
          have hkept : (resized h q b).header b = h.header b := by
            rw [resized_header, Function.update_of_ne hne]
          obtain ⟨hlink, hself⟩ := relinked_header (h := h) hne
          simp only [h₁.prev hb, hkept, hbq, pointerTo]
          have h₂ := h₁.relink hsp hq hb
          rw [h₂.next hb, h₂.prev hb, hself, hbq, hlink]
          exact h₂.linkBack hsp hheap hq hnext

end PingPongOS
