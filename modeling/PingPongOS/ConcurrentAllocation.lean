import PingPongOS.HeapRuns
import Mathlib.Algebra.Order.BigOperators.Group.Finset

/-!
# Concurrent calls of `mem_alloc`

`mem_alloc` statement by statement, for any number of calls that are under way at once:
a timer tick may pass the processor from one call to another between any two statements,
so the calls are interleaved in any order.

A call marks a block as used one statement after it has found it free.  A tick between
the two lets a second call find the same block free, and both return it.  Everything
else is safe without a lock: only the call that took a block writes its header, the
header of the remainder is linked once it is complete, and a walk that passes the block
before the link or after it stays on the list.
-/

namespace PingPongOS

open Tiling Runs

/-- The next statement of a call of `mem_alloc`. -/
inductive AllocPoint
  | sizeTest
  | availableTest
  | firstBlock
  | round
  | test
  | use
  | splitTest
  | newSize
  | newBlock
  | newHeader
  | availableHeader
  | allocatedHeader
  | link
  | whole
  | allocated
  | available
  | resize
  | ret
  | advance
  | returned (ptr : Option Nat)
  deriving DecidableEq

/-- A call of `mem_alloc`: its argument, its local variables and its next statement. -/
structure AllocCall where
  size : Int
  currentBlock : Nat := 0
  allocatedSize : Nat := 0
  newBlockSize : Nat := 0
  newEmptyBlock : Nat := 0
  point : AllocPoint := .sizeTest

namespace AllocCall

variable (c : AllocCall) (h : Heap)

def goto (p : AllocPoint) : AllocCall := { c with point := p }

/-- `!current_block->is_used && current_block->size >= allocated_size`. -/
def fits : Bool :=
  !(h.header c.currentBlock).isUsed &&
    decide (c.allocatedSize ≤ (h.header c.currentBlock).size)

/-- The header of the remainder, written to `new_empty_block`. -/
def writeRest : Heap :=
  { h.write c.newEmptyBlock
      { id := h.blockNumber
        size := c.newBlockSize
        isUsed := false
        next := (h.header c.currentBlock).next
        prev := some c.currentBlock } with
    blockNumber := h.blockNumber + 1 }

/-- One statement of `mem_alloc`: the heap and the call after it. -/
def statement : Option (Heap × AllocCall) :=
  match c.point with
  | .sizeTest => some (h, c.goto (if c.size ≤ 0 then .returned none else .availableTest))
  | .availableTest =>
      some (h, c.goto (if h.availableBytes < c.size.toNat then .returned none else .firstBlock))
  | .firstBlock => some (h, { c with currentBlock := 0, point := .round })
  | .round => some (h, { c with allocatedSize := roundedSize c.size, point := .test })
  | .test => some (h, c.goto (if c.fits h then .use else .advance))
  | .use =>
      some (h.write c.currentBlock { h.header c.currentBlock with isUsed := true },
        c.goto .splitTest)
  | .splitTest =>
      some (h, c.goto (if 16 ≤ splitRemainder h c.currentBlock c.allocatedSize then .newSize
        else .whole))
  | .newSize =>
      some (h, { c with
        newBlockSize := splitRemainder h c.currentBlock c.allocatedSize % 2 ^ 32
        point := .newBlock })
  | .newBlock =>
      some (h, { c with
        newEmptyBlock := c.currentBlock + (sizeofBlockHeader + c.allocatedSize)
        point := .newHeader })
  | .newHeader => some (c.writeRest h, c.goto .availableHeader)
  | .availableHeader =>
      some ({ h with availableBytes := subULong h.availableBytes sizeofBlockHeader },
        c.goto .allocatedHeader)
  | .allocatedHeader =>
      some ({ h with allocatedBytes := (h.allocatedBytes + sizeofBlockHeader) % 2 ^ 64 },
        c.goto .link)
  | .link =>
      some (h.write c.currentBlock
        { h.header c.currentBlock with next := some c.newEmptyBlock }, c.goto .allocated)
  | .whole =>
      some (h, { c with
        allocatedSize := (h.header c.currentBlock).size
        point := .allocated })
  | .allocated =>
      some ({ h with allocatedBytes := (h.allocatedBytes + c.allocatedSize) % 2 ^ 64 },
        c.goto .available)
  | .available =>
      some ({ h with availableBytes := subULong h.availableBytes c.allocatedSize },
        c.goto .resize)
  | .resize =>
      some (h.write c.currentBlock { h.header c.currentBlock with size := c.allocatedSize },
        c.goto .ret)
  | .ret => some (h, c.goto (.returned (some (c.currentBlock + sizeofBlockHeader))))
  | .advance =>
      match (h.header c.currentBlock).next with
      | none => some (h, c.goto (.returned none))
      | some next => some (h, { c with currentBlock := next, point := .test })
  | .returned _ => none

end AllocCall

/-- The heap and the calls under way, `count` of them. -/
structure AllocSystem where
  heap : Heap
  count : Nat
  call : Nat → AllocCall

namespace AllocSystem

/-- Every request is about to be served. -/
def start (h : Heap) (requests : List Int) : AllocSystem where
  heap := h
  count := requests.length
  call := fun i => { size := requests.getD i 0 }

/-- The heap and call `i` after a statement of it. -/
def put (s : AllocSystem) (i : Nat) (h : Heap) (c : AllocCall) : AllocSystem :=
  { s with heap := h, call := Function.update s.call i c }

/-- Call `i` executes its next statement. -/
def step (s : AllocSystem) (i : Nat) : Option AllocSystem :=
  if i < s.count then ((s.call i).statement s.heap).map fun r => s.put i r.1 r.2 else none

end AllocSystem

/-- What a request occupies, rounded up to a multiple of 16. -/
def roundedRequest (size : Int) : Nat := if size ≤ 0 then 0 else roundedSize size

/-- The sum of the rounded requests plus 48 bytes for each. -/
def roomFor (requests : List Int) : Nat := (requests.map fun r => roundedRequest r + 48).sum

/-- The call stands between linking the remainder and resizing its block. -/
def AllocPoint.resizing : AllocPoint → Bool
  | .allocated | .available | .resize => true
  | _ => false

/-- The pointers returned denote disjoint payloads, each as long as requested, and the
block list tiles the heap whenever no call stands between linking the remainder and
resizing its block. -/
structure AllocSound (s : AllocSystem) : Prop where
  disjoint : ∀ i j p q, i ≠ j → (s.call i).point = .returned (some p) →
    (s.call j).point = .returned (some q) →
    p + payloadSize s.heap p ≤ q ∨ q + payloadSize s.heap q ≤ p
  large : ∀ i p, (s.call i).point = .returned (some p) →
    (s.call i).size ≤ payloadSize s.heap p
  tiled : (∀ i < s.count, (s.call i).point.resizing = false) → ∃ bs, HeapTiled s.heap bs

/-- Where call `i` tests a block and takes it, no other call has tested the same block
with success and not yet marked it. -/
def TakesAlone (s : AllocSystem) (i : Nat) : Prop :=
  (s.call i).point = .test → (s.call i).fits s.heap = true →
    ∀ j < s.count, j ≠ i → (s.call j).point = .use →
      (s.call j).currentBlock ≠ (s.call i).currentBlock

instance (s : AllocSystem) (i : Nat) : Decidable (TakesAlone s i) := by
  unfold TakesAlone
  infer_instance

/-! ## The invariant -/

/-- The call has found its block free. -/
def AllocPoint.claims : AllocPoint → Bool
  | .sizeTest | .availableTest | .firstBlock | .round | .test | .advance | .returned none => false
  | _ => true

/-- The call has marked its block as used. -/
def AllocPoint.owns (p : AllocPoint) : Bool := p.claims && decide (p ≠ .use)

/-- The room that a call may still take from a free block. -/
def AllocCall.need (c : AllocCall) : Nat :=
  if c.point.owns then 0 else roundedRequest c.size + 48

/-- The room that all the calls may still take. -/
def AllocSystem.needed (s : AllocSystem) : Nat := ∑ i ∈ Finset.range s.count, (s.call i).need

/-- The heap with these sizes in its headers. -/
def Heap.resized (h : Heap) (size : Nat → Nat) : Heap :=
  { h with header := fun b => { h.header b with size := size b } }

/-- The call stands at a block of the list, its request rounded. -/
structure WalkAt (segs : List Segment) (c : AllocCall) : Prop where
  positive : 0 < c.size
  listed : c.currentBlock ∈ starts sizeofBlockHeader 0 segs
  rounded : c.allocatedSize = roundedSize c.size

/-- The call owns its block of `n` bytes, which has room for the split. -/
structure OwnAt (needed : Nat) (segs : List Segment) (c : AllocCall) (n : Nat) : Prop where
  walk : WalkAt segs c
  used : (c.currentBlock, n) ∈ usedAt sizeofBlockHeader 0 segs
  room : needed + c.allocatedSize + 48 < n

/-- The call owns the block that it returns, already cut to the rounded request. -/
structure CutAt (segs : List Segment) (c : AllocCall) : Prop where
  walk : WalkAt segs c
  used : (c.currentBlock, c.allocatedSize) ∈ usedAt sizeofBlockHeader 0 segs

/-- The header of the remainder is written. -/
structure RestAt (h : Heap) (c : AllocCall) (n : Nat) : Prop where
  address : c.newEmptyBlock = c.currentBlock + (sizeofBlockHeader + c.allocatedSize)
  header : (h.header c.newEmptyBlock).size = n - c.allocatedSize - sizeofBlockHeader ∧
    (h.header c.newEmptyBlock).isUsed = false ∧
    (h.header c.newEmptyBlock).next = (h.header c.currentBlock).next

/-- What holds of a call at each of its statements. -/
def CallAt (h : Heap) (needed : Nat) (segs : List Segment) (c : AllocCall) : Prop :=
  match c.point with
  | .sizeTest | .returned none => True
  | .availableTest | .firstBlock => 0 < c.size
  | .round => 0 < c.size ∧ c.currentBlock ∈ starts sizeofBlockHeader 0 segs
  | .test | .advance => WalkAt segs c
  | .use => WalkAt segs c ∧ (h.header c.currentBlock).isUsed = false
  | .splitTest | .newSize => ∃ n, OwnAt needed segs c n
  | .newBlock => ∃ n, OwnAt needed segs c n ∧
      c.newBlockSize = n - c.allocatedSize - sizeofBlockHeader
  | .newHeader => ∃ n, OwnAt needed segs c n ∧
      c.newBlockSize = n - c.allocatedSize - sizeofBlockHeader ∧
      c.newEmptyBlock = c.currentBlock + (sizeofBlockHeader + c.allocatedSize)
  | .availableHeader | .allocatedHeader | .link => ∃ n, OwnAt needed segs c n ∧ RestAt h c n
  | .whole => False
  | .allocated | .available | .resize | .ret => CutAt segs c
  | .returned (some p) => CutAt segs c ∧ p = c.currentBlock + sizeofBlockHeader

/-- The list, with the sizes that its blocks have once the calls under way have resized
them, tiles the heap; every free block has more room than the calls may still take;
different calls have claimed different blocks. -/
structure AllocInv (s : AllocSystem) (segs : List Segment) (size : Nat → Nat) : Prop where
  chain : Lseg (s.heap.resized size) (some 0) 0 segs none
  whole : span sizeofBlockHeader segs = heapSize
  granular : Granular 16 segs
  sizes : ∀ b ∈ starts sizeofBlockHeader 0 segs,
    (∀ i, (s.call i).point.resizing = true → (s.call i).currentBlock ≠ b) →
    size b = (s.heap.header b).size
  room : ∀ x ∈ segs, x.used = false → s.needed < x.size
  calls : ∀ i, CallAt s.heap s.needed segs (s.call i)
  outside : ∀ i, s.count ≤ i → (s.call i).point = .sizeTest
  apart : ∀ i j, i ≠ j → (s.call i).point.claims = true → (s.call j).point.claims = true →
    (s.call i).currentBlock ≠ (s.call j).currentBlock

variable {s s' : AllocSystem} {segs segs' : List Segment} {size size' : Nat → Nat}
  {c c' : AllocCall} {h h' : Heap} {i n needed needed' : Nat}

@[simp] theorem put_count (h : Heap) (c : AllocCall) : (s.put i h c).count = s.count := rfl

@[simp] theorem put_call_self (h : Heap) (c : AllocCall) : (s.put i h c).call i = c :=
  Function.update_self _ _ _

theorem put_call_of_ne {j : Nat} (hj : j ≠ i) (h : Heap) (c : AllocCall) :
    (s.put i h c).call j = s.call j := Function.update_of_ne hj _ _

/-- A statement changes the room that the calls may still take by what its own call may. -/
theorem needed_put (hi : i < s.count) (h : Heap) (c : AllocCall) :
    (s.put i h c).needed + (s.call i).need = s.needed + c.need := by
  have hmem : i ∈ Finset.range s.count := Finset.mem_range.mpr hi
  have hupdate : (fun j => ((s.put i h c).call j).need) =
      Function.update (fun j => (s.call j).need) i c.need :=
    Function.comp_update AllocCall.need s.call i c
  have hold := Finset.add_sum_erase _ (fun j => (s.call j).need) hmem
  unfold AllocSystem.needed
  rw [put_count, hupdate, ← hold, Finset.sum_update_of_mem hmem, Finset.sdiff_singleton_eq_erase]
  omega

theorem step_put (hstep : s.step i = some s') :
    i < s.count ∧ ∃ h c, (s.call i).statement s.heap = some (h, c) ∧ s' = s.put i h c := by
  unfold AllocSystem.step at hstep
  by_cases hi : i < s.count
  · rw [if_pos hi] at hstep
    obtain ⟨⟨h, c⟩, hc, rfl⟩ := Option.map_eq_some_iff.mp hstep
    exact ⟨hi, h, c, hc, rfl⟩
  · rw [if_neg hi] at hstep
    exact absurd hstep (by simp)

/-! ## What one call leaves of another -/

/-- The call has written the header of the remainder and not yet linked it. -/
def AllocPoint.linking : AllocPoint → Bool
  | .availableHeader | .allocatedHeader | .link => true
  | _ => false

/-- What a statement of another call leaves of `c`: the listed blocks, its own block and
the header of its remainder. -/
structure CallFrame (h h' : Heap) (segs segs' : List Segment) (c : AllocCall) : Prop where
  listed : ∀ b ∈ starts sizeofBlockHeader 0 segs, b ∈ starts sizeofBlockHeader 0 segs'
  used : c.point.owns = true → ∀ n, (c.currentBlock, n) ∈ usedAt sizeofBlockHeader 0 segs →
    (c.currentBlock, n) ∈ usedAt sizeofBlockHeader 0 segs'
  block : c.point.claims = true → h'.header c.currentBlock = h.header c.currentBlock
  rest : c.point.linking = true → h'.header c.newEmptyBlock = h.header c.newEmptyBlock

theorem CallFrame.of_header (hheader : h'.header = h.header) : CallFrame h h' segs segs c :=
  ⟨fun _ hb => hb, fun _ _ hn => hn, fun _ => congrFun hheader _, fun _ => congrFun hheader _⟩

theorem WalkAt.frame (hw : WalkAt segs c) (hf : CallFrame h h' segs segs' c) :
    WalkAt segs' c := ⟨hw.positive, hf.listed _ hw.listed, hw.rounded⟩

theorem OwnAt.frame (ho : OwnAt needed segs c n) (hf : CallFrame h h' segs segs' c)
    (howns : c.point.owns = true) (hle : needed' ≤ needed) : OwnAt needed' segs' c n := by
  have hroom := ho.room
  exact ⟨ho.walk.frame hf, hf.used howns n ho.used, by omega⟩

theorem CutAt.frame (hc : CutAt segs c) (hf : CallFrame h h' segs segs' c)
    (howns : c.point.owns = true) : CutAt segs' c :=
  ⟨hc.walk.frame hf, hf.used howns _ hc.used⟩

theorem RestAt.frame (hr : RestAt h c n) (hf : CallFrame h h' segs segs' c)
    (hclaims : c.point.claims = true) (hlinking : c.point.linking = true) : RestAt h' c n := by
  refine ⟨hr.address, ?_⟩
  rw [hf.rest hlinking, hf.block hclaims]
  exact hr.header

/-- What holds of a call at its statement survives the statements of the others. -/
theorem CallAt.frame (hat : CallAt h needed segs c) (hf : CallFrame h h' segs segs' c)
    (hle : needed' ≤ needed) : CallAt h' needed' segs' c := by
  unfold CallAt at hat ⊢
  cases hp : c.point with
  | sizeTest => exact trivial
  | availableTest | firstBlock =>
      rw [hp] at hat
      exact hat
  | round =>
      rw [hp] at hat
      exact ⟨hat.1, hf.listed _ hat.2⟩
  | test | advance =>
      rw [hp] at hat
      exact WalkAt.frame hat hf
  | use =>
      rw [hp] at hat
      refine ⟨hat.1.frame hf, ?_⟩
      rw [hf.block (by rw [hp]; rfl)]
      exact hat.2
  | splitTest | newSize =>
      rw [hp] at hat
      obtain ⟨n, ho⟩ := hat
      exact ⟨n, ho.frame hf (by rw [hp]; rfl) hle⟩
  | newBlock | newHeader =>
      rw [hp] at hat
      obtain ⟨n, ho, hrest⟩ := hat
      exact ⟨n, ho.frame hf (by rw [hp]; rfl) hle, hrest⟩
  | availableHeader | allocatedHeader | link =>
      rw [hp] at hat
      obtain ⟨n, ho, hr⟩ := hat
      exact ⟨n, ho.frame hf (by rw [hp]; rfl) hle,
        hr.frame hf (by rw [hp]; rfl) (by rw [hp]; rfl)⟩
  | whole =>
      rw [hp] at hat
      exact hat.elim
  | allocated | available | resize | ret =>
      rw [hp] at hat
      exact CutAt.frame hat hf (by rw [hp]; rfl)
  | returned ptr =>
      rw [hp] at hat
      cases ptr with
      | none => exact trivial
      | some p => exact ⟨hat.1.frame hf (by rw [hp]; rfl), hat.2⟩

/-- **One statement, in terms of what it does to the list.** -/
theorem AllocInv.moves (hinv : AllocInv s segs size) (hi : i < s.count)
    (hneed : c'.need ≤ (s.call i).need)
    (hchain : Lseg (h'.resized size') (some 0) 0 segs' none)
    (hwhole : span sizeofBlockHeader segs' = heapSize) (hgran : Granular 16 segs')
    (hsizes : ∀ b ∈ starts sizeofBlockHeader 0 segs',
      (∀ j, j ≠ i → (s.call j).point.resizing = true → (s.call j).currentBlock ≠ b) →
      (c'.point.resizing = true → c'.currentBlock ≠ b) → size' b = (h'.header b).size)
    (hroom : ∀ x ∈ segs', x.used = false → (s.put i h' c').needed < x.size)
    (hframe : ∀ j, j ≠ i → CallFrame s.heap h' segs segs' (s.call j))
    (hat : CallAt h' (s.put i h' c').needed segs' c')
    (hapart : c'.point.claims = true → ∀ j, j ≠ i → (s.call j).point.claims = true →
      (s.call j).currentBlock ≠ c'.currentBlock) : AllocInv (s.put i h' c') segs' size' := by
  have hle : (s.put i h' c').needed ≤ s.needed := by
    have := needed_put hi h' c'
    omega
  refine ⟨hchain, hwhole, hgran, fun b hb hnone => ?_, hroom, fun j => ?_, fun j hj => ?_,
    fun j k hjk hclaims hclaimsk => ?_⟩
  · refine hsizes b hb (fun j hj hres => ?_) fun hres => ?_
    · have := hnone j
      rw [put_call_of_ne hj] at this
      exact this hres
    · have := hnone i
      rw [put_call_self] at this
      exact this hres
  · by_cases hj : j = i
    · subst hj
      rw [put_call_self]
      exact hat
    · rw [put_call_of_ne hj]
      exact (hinv.calls j).frame (hframe j hj) hle
  · rw [put_call_of_ne (by rintro rfl; exact absurd hi (Nat.not_lt.mpr hj))]
    exact hinv.outside j hj
  · by_cases hj : j = i
    · subst hj
      rw [put_call_self] at hclaims ⊢
      rw [put_call_of_ne (Ne.symm hjk)] at hclaimsk ⊢
      exact (hapart hclaims k (Ne.symm hjk) hclaimsk).symm
    · rw [put_call_of_ne hj] at hclaims ⊢
      by_cases hk : k = i
      · subst hk
        rw [put_call_self] at hclaimsk ⊢
        exact hapart hclaimsk j hj hclaims
      · rw [put_call_of_ne hk] at hclaimsk ⊢
        exact hinv.apart j k hjk hclaims hclaimsk

/-- A statement that writes no header. -/
theorem AllocInv.quiet (hinv : AllocInv s segs size) (hi : i < s.count)
    (hheader : h'.header = s.heap.header) (hneed : c'.need ≤ (s.call i).need)
    (hat : CallAt s.heap s.needed segs c')
    (hres : (s.call i).point.resizing = true →
      c'.point.resizing = true ∧ c'.currentBlock = (s.call i).currentBlock)
    (hapart : c'.point.claims = true → ∀ j, j ≠ i → (s.call j).point.claims = true →
      (s.call j).currentBlock ≠ c'.currentBlock) : AllocInv (s.put i h' c') segs size := by
  have hle : (s.put i h' c').needed ≤ s.needed := by
    have := needed_put hi h' c'
    omega
  have hsame : (h'.resized size).header = (s.heap.resized size).header := by
    funext b
    simp only [Heap.resized, hheader]
  refine hinv.moves hi hneed (hinv.chain.congr fun b _ => ?_) hinv.whole hinv.granular
    (fun b hb hothers hself => ?_) (fun x hx hfree => ?_) (fun j _ => .of_header hheader)
    (hat.frame (.of_header hheader) hle) hapart
  · rw [hsame]
    exact sameBlock_refl _
  · rw [hheader]
    refine hinv.sizes b hb fun j hj => ?_
    by_cases hji : j = i
    · subst hji
      obtain ⟨hres', hblock⟩ := hres hj
      exact hblock ▸ hself hres'
    · exact hothers j hji hj
  · have := hinv.room x hx hfree
    omega

/-- The block of a call that has claimed it stays its own. -/
theorem AllocInv.own_apart (hinv : AllocInv s segs size)
    (hclaims : (s.call i).point.claims = true)
    (hblock : c'.currentBlock = (s.call i).currentBlock) (j : Nat) (hj : j ≠ i)
    (hclaimsj : (s.call j).point.claims = true) : (s.call j).currentBlock ≠ c'.currentBlock :=
  hblock ▸ hinv.apart j i hj hclaimsj hclaims

/-! ## What a call knows of its block -/

theorem CallAt.walk (hat : CallAt h needed segs c) (hclaims : c.point.claims = true) :
    WalkAt segs c := by
  unfold CallAt at hat
  cases hp : c.point with
  | sizeTest | availableTest | firstBlock | round | test | advance =>
      rw [hp] at hclaims
      exact absurd hclaims (by decide)
  | use =>
      rw [hp] at hat
      exact hat.1
  | splitTest | newSize =>
      rw [hp] at hat
      obtain ⟨n, ho⟩ := hat
      exact ho.walk
  | newBlock | newHeader | availableHeader | allocatedHeader | link =>
      rw [hp] at hat
      obtain ⟨n, ho, -⟩ := hat
      exact ho.walk
  | whole =>
      rw [hp] at hat
      exact hat.elim
  | allocated | available | resize | ret =>
      rw [hp] at hat
      exact hat.walk
  | returned ptr =>
      cases ptr with
      | none =>
          rw [hp] at hclaims
          exact absurd hclaims (by decide)
      | some p =>
          rw [hp] at hat
          exact hat.1.walk

theorem CallAt.used (hat : CallAt h needed segs c) (howns : c.point.owns = true) :
    ∃ n, (c.currentBlock, n) ∈ usedAt sizeofBlockHeader 0 segs := by
  unfold CallAt at hat
  cases hp : c.point with
  | sizeTest | availableTest | firstBlock | round | test | advance | use =>
      rw [hp] at howns
      exact absurd howns (by decide)
  | splitTest | newSize =>
      rw [hp] at hat
      obtain ⟨n, ho⟩ := hat
      exact ⟨n, ho.used⟩
  | newBlock | newHeader | availableHeader | allocatedHeader | link =>
      rw [hp] at hat
      obtain ⟨n, ho, -⟩ := hat
      exact ⟨n, ho.used⟩
  | whole =>
      rw [hp] at hat
      exact hat.elim
  | allocated | available | resize | ret =>
      rw [hp] at hat
      exact ⟨_, hat.used⟩
  | returned ptr =>
      cases ptr with
      | none =>
          rw [hp] at howns
          exact absurd howns (by decide)
      | some p =>
          rw [hp] at hat
          exact ⟨_, hat.1.used⟩

theorem CallAt.rest (hat : CallAt h needed segs c) (hlinking : c.point.linking = true) :
    ∃ n, OwnAt needed segs c n ∧ RestAt h c n := by
  unfold CallAt at hat
  cases hp : c.point with
  | availableHeader | allocatedHeader | link =>
      rw [hp] at hat
      exact hat
  | _ =>
      rw [hp] at hlinking
      exact absurd hlinking (by simp [AllocPoint.linking])

/-- The remainder starts strictly inside the block it is cut from. -/
theorem OwnAt.rest_inside (ho : OwnAt needed segs c n) {b : Nat}
    (hb : b = c.currentBlock + (sizeofBlockHeader + c.allocatedSize)) :
    c.currentBlock < b ∧ b < c.currentBlock + sizeofBlockHeader + n := by
  have hS := sizeofBlockHeader_eq
  have := ho.room
  omega

theorem OwnAt.rest_not_listed (ho : OwnAt needed segs c n) {b : Nat}
    (hb : b = c.currentBlock + (sizeofBlockHeader + c.allocatedSize)) :
    b ∉ starts sizeofBlockHeader 0 segs := by
  obtain ⟨hlo, hhi⟩ := ho.rest_inside hb
  exact not_mem_starts_inside ho.used hlo hhi

theorem claims_of_resizing {p : AllocPoint} (hp : p.resizing = true) : p.claims = true := by
  cases p with
  | allocated | available | resize => rfl
  | _ => exact absurd hp (by simp [AllocPoint.resizing])

theorem claims_of_linking {p : AllocPoint} (hp : p.linking = true) : p.claims = true := by
  cases p with
  | availableHeader | allocatedHeader | link => rfl
  | _ => exact absurd hp (by simp [AllocPoint.linking])

theorem claims_of_owns {p : AllocPoint} (hp : p.owns = true) : p.claims = true := by
  simp only [AllocPoint.owns, Bool.and_eq_true] at hp
  exact hp.1

/-- A block that its call has claimed and is not resizing has the size it has in the list. -/
theorem AllocInv.size_eq (hinv : AllocInv s segs size) (hclaims : (s.call i).point.claims = true)
    (hres : (s.call i).point.resizing = false) :
    size (s.call i).currentBlock = (s.heap.header (s.call i).currentBlock).size := by
  refine hinv.sizes _ ((hinv.calls i).walk hclaims).listed fun j hj => ?_
  by_cases hji : j = i
  · subst hji
    exact absurd (hj.symm.trans hres) (by decide)
  · exact hinv.apart j i hji (claims_of_resizing hj) hclaims

/-- A used segment of the list is a used block. -/
theorem AllocInv.used_header (hinv : AllocInv s segs size) {b : Nat}
    (hb : (b, n) ∈ usedAt sizeofBlockHeader 0 segs) :
    size b = n ∧ (s.heap.header b).isUsed = true :=
  hinv.chain.used_header hb

/-- The header of the block of one call is not a header that another call depends on. -/
theorem AllocInv.frame_block (hinv : AllocInv s segs size)
    (hclaims : (s.call i).point.claims = true) {x : BlockHeader}
    (hheader : h'.header = Function.update s.heap.header (s.call i).currentBlock x)
    (hlisted : ∀ b ∈ starts sizeofBlockHeader 0 segs, b ∈ starts sizeofBlockHeader 0 segs')
    (hused : ∀ y ∈ usedAt sizeofBlockHeader 0 segs, y.1 ≠ (s.call i).currentBlock →
      y ∈ usedAt sizeofBlockHeader 0 segs') (j : Nat) (hj : j ≠ i) :
    CallFrame s.heap h' segs segs' (s.call j) := by
  refine ⟨hlisted, fun howns n hn => ?_, fun hclaimsj => ?_, fun hlinking => ?_⟩
  · exact hused _ hn (hinv.apart j i hj (claims_of_owns howns) hclaims)
  · rw [hheader, Function.update_of_ne (hinv.apart j i hj hclaimsj hclaims)]
  · obtain ⟨n, ho, hr⟩ := (hinv.calls j).rest hlinking
    rw [hheader, Function.update_of_ne]
    rintro heq
    exact ho.rest_not_listed hr.address (heq ▸ ((hinv.calls i).walk hclaims).listed)

/-! ## The statements that write a header -/

/-- `current_block->is_used = 1`. -/
theorem AllocInv.use_step (hinv : AllocInv s segs size) (hi : i < s.count)
    (hp : (s.call i).point = .use)
    (hheader : h'.header = Function.update s.heap.header (s.call i).currentBlock
      { s.heap.header (s.call i).currentBlock with isUsed := true }) :
    ∃ segs', AllocInv (s.put i h' ((s.call i).goto .splitTest)) segs' size := by
  have hS := sizeofBlockHeader_eq
  have hclaims : (s.call i).point.claims = true := by rw [hp]; rfl
  have hat := hinv.calls i
  unfold CallAt at hat
  rw [hp] at hat
  obtain ⟨hw, hfree⟩ := hat
  obtain ⟨pre, ⟨n, u⟩, post, rfl, hb⟩ := mem_starts.mp hw.listed
  rw [Nat.zero_add] at hb
  obtain ⟨-, hsize, hu, -⟩ := hinv.chain.at_block hb
  obtain rfl : u = false := hu.symm.trans hfree
  have hsize' : size (s.call i).currentBlock = n := hsize
  have hroom := hinv.room ⟨n, false⟩ (by simp) rfl
  have hneed := needed_put hi h' ((s.call i).goto .splitTest)
  have htaken : ((s.call i).goto .splitTest).need = 0 := rfl
  have hpending : (s.call i).need = (s.call i).allocatedSize + 48 := by
    have hpos := hw.positive
    rw [AllocCall.need, hp, hw.rounded]
    simp [AllocPoint.owns, roundedRequest, Int.not_le.mpr hpos]
  have hstarts : starts sizeofBlockHeader 0 (pre ++ ⟨n, true⟩ :: post) =
      starts sizeofBlockHeader 0 (pre ++ ⟨n, false⟩ :: post) := by
    rw [starts_around, starts_around]
  refine ⟨pre ++ ⟨n, true⟩ :: post, hinv.moves hi (by omega) ?_ ?_ ?_ (fun b hb' hothers _ => ?_)
    (fun x hx hxfree => ?_)
    (hinv.frame_block hclaims hheader (fun b hb' => hstarts ▸ hb') fun y hy _ => ?_)
    ⟨n, ⟨hw.positive, hstarts ▸ hw.listed, hw.rounded⟩, ?_, ?_⟩
    fun _ => hinv.own_apart hclaims rfl⟩
  · have hkeep : ∀ b ∈ starts sizeofBlockHeader 0 (pre ++ ⟨n, false⟩ :: post),
        b ≠ (s.call i).currentBlock →
        SameBlock ((h'.resized size).header b) ((s.heap.resized size).header b) := by
      intro b _ hne
      simp [Heap.resized, hheader, hne, SameBlock]
    obtain ⟨hpre, hpost⟩ := hinv.chain.keep_around hb hkeep
    refine lseg_append.mpr ⟨_, hpre, ?_⟩
    rw [Nat.zero_add, ← hb]
    refine ⟨rfl, hsize', by simp [Heap.resized, hheader], ?_⟩
    simpa [Heap.resized, hheader] using hpost
  · simpa only [span_append, span] using hinv.whole
  · simpa only [Granular.append, granular_cons] using hinv.granular
  · rw [hinv.sizes b (hstarts ▸ hb') fun j hj => ?_]
    · by_cases hbi : b = (s.call i).currentBlock
      · subst hbi
        simp [hheader]
      · simp [hheader, hbi]
    · refine hothers j ?_ hj
      rintro rfl
      rw [hp] at hj
      exact absurd hj (by decide)
  · have hmem : x ∈ pre ++ ⟨n, false⟩ :: post := by
      rw [List.mem_append, List.mem_cons] at hx ⊢
      rcases hx with hx | rfl | hx
      · exact Or.inl hx
      · exact absurd hxfree (by simp)
      · exact Or.inr (Or.inr hx)
    have := hinv.room x hmem hxfree
    omega
  · rw [usedAt_around, if_neg (by simp), List.nil_append] at hy
    rw [usedAt_around, if_pos rfl]
    rcases List.mem_append.mp hy with hy | hy
    · exact List.mem_append_left _ hy
    · exact List.mem_append_right _ (List.mem_cons_of_mem _ hy)
  · exact mem_usedAt.mpr ⟨pre, post, rfl, by rw [Nat.zero_add]; exact hb⟩
  · change _ + (s.call i).allocatedSize + 48 < n
    simp only at hroom
    omega

theorem WalkAt.goto (hw : WalkAt segs c) (p : AllocPoint) : WalkAt segs (c.goto p) :=
  ⟨hw.positive, hw.listed, hw.rounded⟩

theorem OwnAt.goto (ho : OwnAt needed segs c n) (p : AllocPoint) :
    OwnAt needed segs (c.goto p) n := ⟨ho.walk.goto p, ho.used, ho.room⟩

theorem CutAt.goto (hc : CutAt segs c) (p : AllocPoint) : CutAt segs (c.goto p) :=
  ⟨hc.walk.goto p, hc.used⟩

@[simp] theorem writeRest_header (c : AllocCall) (h : Heap) :
    (c.writeRest h).header = Function.update h.header c.newEmptyBlock
      { id := h.blockNumber
        size := c.newBlockSize
        isUsed := false
        next := (h.header c.currentBlock).next
        prev := some c.currentBlock } := rfl

/-- Writing the header of the remainder, which is not in the list yet. -/
theorem AllocInv.newHeader_step (hinv : AllocInv s segs size) (hi : i < s.count)
    (hp : (s.call i).point = .newHeader) :
    AllocInv (s.put i ((s.call i).writeRest s.heap) ((s.call i).goto .availableHeader))
      segs size := by
  have hclaims : (s.call i).point.claims = true := by rw [hp]; rfl
  have hat := hinv.calls i
  unfold CallAt at hat
  rw [hp] at hat
  obtain ⟨n, ho, hsize, haddr⟩ := hat
  obtain ⟨hlo, hhi⟩ := ho.rest_inside haddr
  have hneed := needed_put hi ((s.call i).writeRest s.heap) ((s.call i).goto .availableHeader)
  have htaken : ((s.call i).goto .availableHeader).need = 0 := rfl
  have hfar : ∀ b ∈ starts sizeofBlockHeader 0 segs, b ≠ (s.call i).newEmptyBlock := by
    rintro b hb rfl
    exact ho.rest_not_listed haddr hb
  refine hinv.moves hi (by omega) (hinv.chain.congr fun b hb => ?_) hinv.whole hinv.granular
    (fun b hb hothers _ => ?_) (fun x hx hfree => ?_) (fun j hj => ?_)
    ⟨n, ⟨ho.walk.goto _, ho.used, ?_⟩, haddr, ?_⟩ fun _ => hinv.own_apart hclaims rfl
  · simp [Heap.resized, hfar b hb, SameBlock]
  · rw [hinv.sizes b hb fun j hj => ?_]
    · simp [hfar b hb]
    · refine hothers j ?_ hj
      rintro rfl
      rw [hp] at hj
      exact absurd hj (by decide)
  · have := hinv.room x hx hfree
    omega
  · refine ⟨fun b hb => hb, fun _ m hm => hm, fun hclaimsj => ?_, fun hlinking => ?_⟩
    · simp [hfar _ ((hinv.calls j).walk hclaimsj).listed]
    · obtain ⟨m, hoj, hr⟩ := (hinv.calls j).rest hlinking
      obtain ⟨hloj, hhij⟩ := hoj.rest_inside hr.address
      have hne := hinv.apart j i hj (claims_of_linking hlinking) hclaims
      have hapart := usedAt_apart hoj.used ho.used fun heq => hne (Prod.ext_iff.mp heq).1
      simp only at hapart
      have hnew : (s.call j).newEmptyBlock ≠ (s.call i).newEmptyBlock := by omega
      simp [hnew]
  · have := ho.room
    change _ + (s.call i).allocatedSize + 48 < n
    omega
  · have hne : (s.call i).currentBlock ≠ (s.call i).newEmptyBlock := by omega
    simp [AllocCall.goto, hsize, hne]

/-- `current_block->next = new_empty_block`: the block of the call is split. -/
theorem AllocInv.link_step (hinv : AllocInv s segs size) (hi : i < s.count)
    (hp : (s.call i).point = .link)
    (hheader : h'.header = Function.update s.heap.header (s.call i).currentBlock
      { s.heap.header (s.call i).currentBlock with next := some (s.call i).newEmptyBlock }) :
    ∃ segs' size', AllocInv (s.put i h' ((s.call i).goto .allocated)) segs' size' := by
  have hS := sizeofBlockHeader_eq
  have hclaims : (s.call i).point.claims = true := by rw [hp]; rfl
  obtain ⟨n, ho, hr⟩ := (hinv.calls i).rest (by rw [hp]; rfl)
  obtain ⟨haddr, hnewsize, hnewfree, hnewnext⟩ := hr
  obtain ⟨hlo, hhi⟩ := ho.rest_inside haddr
  have hunlisted := ho.rest_not_listed haddr
  have hroomi := ho.room
  have hw := ho.walk
  obtain ⟨hdvd, hle, -⟩ := roundedSize_spec hw.positive
  rw [← hw.rounded] at hdvd hle
  have hpos := hw.positive
  have hfit : (s.call i).allocatedSize + sizeofBlockHeader + 16 ≤ n := by omega
  obtain ⟨pre, post, rfl, hb⟩ := mem_usedAt.mp ho.used
  simp only [Nat.zero_add] at hb
  obtain ⟨-, -, hu, -⟩ := hinv.chain.at_block hb
  have htake : take sizeofBlockHeader 16 (s.call i).allocatedSize n =
      [⟨(s.call i).allocatedSize, true⟩,
        ⟨n - (s.call i).allocatedSize - sizeofBlockHeader, false⟩] :=
    if_pos hfit
  have hlisted : ∀ b, b ∈ starts sizeofBlockHeader 0
      (pre ++ (take sizeofBlockHeader 16 (s.call i).allocatedSize n ++ post)) ↔
      b ∈ starts sizeofBlockHeader 0 (pre ++ ⟨n, true⟩ :: post) ∨
        b = (s.call i).newEmptyBlock := by
    intro b
    rw [mem_starts_split hfit, haddr, Nat.zero_add, ← hb]
  have hused : ∀ y ∈ usedAt sizeofBlockHeader 0 (pre ++ ⟨n, true⟩ :: post),
      y.1 ≠ (s.call i).currentBlock → y ∈ usedAt sizeofBlockHeader 0
        (pre ++ (take sizeofBlockHeader 16 (s.call i).allocatedSize n ++ post)) := by
    intro y hy hne
    have hy' := (mem_usedAt_around (by omega)).mpr ⟨hy, by rw [Nat.zero_add, ← hb]; exact hne⟩
    rw [usedAt_append, usedAt_append, span_take]
    rcases List.mem_append.mp hy' with hy' | hy'
    · exact List.mem_append_left _ hy'
    · exact List.mem_append_right _ (List.mem_append_right _ hy')
  have hnewne : (s.call i).newEmptyBlock ≠ (s.call i).currentBlock := by omega
  have hless : ∀ h, (s.put i h ((s.call i).goto .allocated)).needed ≤ s.needed := by
    intro h
    have := needed_put hi h ((s.call i).goto .allocated)
    have htaken : ((s.call i).goto .allocated).need = 0 := rfl
    omega
  refine ⟨pre ++ (take sizeofBlockHeader 16 (s.call i).allocatedSize n ++ post),
    Function.update (Function.update size (s.call i).currentBlock (s.call i).allocatedSize)
      (s.call i).newEmptyBlock (n - (s.call i).allocatedSize - sizeofBlockHeader),
    hinv.moves hi (Nat.zero_le _) ?_ ?_ ?_ (fun b hb' hothers hself => ?_) (fun x hx hxfree => ?_)
      (hinv.frame_block hclaims hheader (fun b hb' => (hlisted b).mpr (Or.inl hb')) hused)
      ⟨⟨hw.positive, (hlisted _).mpr (Or.inl hw.listed), hw.rounded⟩, ?_⟩
      fun _ => hinv.own_apart hclaims rfl⟩
  · have hkeep : ∀ b ∈ starts sizeofBlockHeader 0 (pre ++ ⟨n, true⟩ :: post),
        b ≠ (s.call i).currentBlock → SameBlock ((h'.resized
          (Function.update (Function.update size (s.call i).currentBlock (s.call i).allocatedSize)
            (s.call i).newEmptyBlock
            (n - (s.call i).allocatedSize - sizeofBlockHeader))).header b)
          ((s.heap.resized size).header b) := by
      intro b hb' hne
      have hbne : b ≠ (s.call i).newEmptyBlock := by
        rintro rfl
        exact hunlisted hb'
      simp [Heap.resized, hheader, hne, hbne, SameBlock]
    obtain ⟨hpre, hpost⟩ := hinv.chain.keep_around hb hkeep
    have hnext : (s.heap.header (s.call i).currentBlock).next =
        (h'.header (s.call i).newEmptyBlock).next := by
      rw [hheader, Function.update_of_ne hnewne, hnewnext]
    have hend : (s.call i).currentBlock + (sizeofBlockHeader + n) =
        (s.call i).newEmptyBlock +
          (sizeofBlockHeader + (n - (s.call i).allocatedSize - sizeofBlockHeader)) := by
      omega
    simp only [Heap.resized, hnext, hend] at hpost
    refine lseg_append.mpr ⟨_, hpre, ?_⟩
    rw [htake, Nat.zero_add, ← hb]
    refine ⟨rfl, ?_, ?_, ?_⟩
    · simp [Heap.resized, hnewne.symm]
    · simpa [Heap.resized, hheader] using hu
    · rw [← haddr]
      refine ⟨?_, ?_, ?_, hpost⟩
      · simp [Heap.resized, hheader]
      · simp [Heap.resized]
      · simpa [Heap.resized, hheader, hnewne] using hnewfree
  · have := hinv.whole
    simp only [span_append, span, span_take] at this ⊢
    omega
  · have := hinv.granular
    obtain ⟨hgpre, hgrest⟩ := Granular.append.mp this
    obtain ⟨hgn, hgpost⟩ := granular_cons.mp hgrest
    exact Granular.append.mpr ⟨hgpre, Granular.append.mpr
      ⟨granular_take (by omega) ⟨by omega, hdvd⟩ hgn (by rw [hS]; decide), hgpost⟩⟩
  · by_cases hbnew : b = (s.call i).newEmptyBlock
    · subst hbnew
      rw [Function.update_self, hheader, Function.update_of_ne hnewne, hnewsize]
    rw [Function.update_of_ne hbnew]
    by_cases hbi : b = (s.call i).currentBlock
    · exact absurd hbi.symm (hself rfl)
    rw [Function.update_of_ne hbi, hinv.sizes b (((hlisted b).mp hb').resolve_right hbnew)
      fun j hj => ?_]
    · rw [hheader, Function.update_of_ne hbi]
    · refine hothers j ?_ hj
      rintro rfl
      rw [hp] at hj
      exact absurd hj (by decide)
  · rw [htake] at hx
    simp only [List.mem_append, List.mem_cons, List.not_mem_nil, or_false] at hx
    rcases hx with hx | (rfl | rfl) | hx
    · exact Nat.lt_of_le_of_lt (hless _) (hinv.room x (List.mem_append_left _ hx) hxfree)
    · exact absurd hxfree (by simp)
    · refine Nat.lt_of_le_of_lt (hless _) ?_
      simp only
      omega
    · exact Nat.lt_of_le_of_lt (hless _)
        (hinv.room x (List.mem_append_right _ (List.mem_cons_of_mem _ hx)) hxfree)
  · rw [htake]
    refine mem_usedAt.mpr ⟨pre, _, rfl, ?_⟩
    rw [Nat.zero_add]
    exact hb

/-- `current_block->size = allocated_size`: the header gets the size it has in the list. -/
theorem AllocInv.resize_step (hinv : AllocInv s segs size) (hi : i < s.count)
    (hp : (s.call i).point = .resize)
    (hheader : h'.header = Function.update s.heap.header (s.call i).currentBlock
      { s.heap.header (s.call i).currentBlock with size := (s.call i).allocatedSize }) :
    AllocInv (s.put i h' ((s.call i).goto .ret)) segs size := by
  have hclaims : (s.call i).point.claims = true := by rw [hp]; rfl
  have hat := hinv.calls i
  unfold CallAt at hat
  rw [hp] at hat
  have hcut : CutAt segs (s.call i) := hat
  have hsize := (hinv.used_header hcut.used).1
  have hless : (s.put i h' ((s.call i).goto .ret)).needed ≤ s.needed := by
    have := needed_put hi h' ((s.call i).goto .ret)
    have htaken : ((s.call i).goto .ret).need = 0 := rfl
    omega
  refine hinv.moves hi (Nat.zero_le _) (hinv.chain.congr fun b _ => ?_) hinv.whole hinv.granular
    (fun b hb hothers _ => ?_)
    (fun x hx hfree => Nat.lt_of_le_of_lt hless (hinv.room x hx hfree))
    (hinv.frame_block hclaims hheader (fun _ hb => hb) fun _ hy _ => hy)
    (hcut.goto .ret) fun _ => hinv.own_apart hclaims rfl
  · by_cases hbi : b = (s.call i).currentBlock
    · subst hbi
      simp [Heap.resized, hheader, SameBlock]
    · simp [Heap.resized, hheader, hbi, SameBlock]
  · rw [hheader]
    by_cases hbi : b = (s.call i).currentBlock
    · subst hbi
      rw [Function.update_self, hsize]
    · rw [Function.update_of_ne hbi]
      refine hinv.sizes b hb fun j hj => ?_
      by_cases hji : j = i
      · subst hji
        exact Ne.symm hbi
      · exact hothers j hji hj

/-! ## The statements that write no header -/

/-- A statement of a call that has not claimed a block and does not claim one. -/
theorem AllocInv.search_step (hinv : AllocInv s segs size) (hi : i < s.count)
    (hheader : h'.header = s.heap.header) (hbefore : (s.call i).point.claims = false)
    (hafter : c'.point.claims = false) (hsize : c'.size = (s.call i).size)
    (hat : CallAt s.heap s.needed segs c') : AllocInv (s.put i h' c') segs size := by
  refine hinv.quiet hi hheader (Nat.le_of_eq ?_) hat (fun hres => ?_) fun hclaims => ?_
  · simp [AllocCall.need, AllocPoint.owns, hbefore, hafter, hsize]
  · exact absurd ((claims_of_resizing hres).symm.trans hbefore) (by decide)
  · exact absurd (hclaims.symm.trans hafter) (by decide)

/-- A statement of a call that owns a block and keeps it. -/
theorem AllocInv.own_step (hinv : AllocInv s segs size) (hi : i < s.count)
    (hheader : h'.header = s.heap.header) (hbefore : (s.call i).point.claims = true)
    (hafter : c'.point.owns = true) (hblock : c'.currentBlock = (s.call i).currentBlock)
    (hres : (s.call i).point.resizing = true → c'.point.resizing = true)
    (hat : CallAt s.heap s.needed segs c') : AllocInv (s.put i h' c') segs size := by
  refine hinv.quiet hi hheader ?_ hat (fun h => ⟨hres h, hblock⟩)
    fun _ => hinv.own_apart hbefore hblock
  rw [AllocCall.need, if_pos hafter]
  exact Nat.zero_le _

/-- The first block is listed. -/
theorem AllocInv.first_listed (hinv : AllocInv s segs size) :
    0 ∈ starts sizeofBlockHeader 0 segs := by
  have hwhole := hinv.whole
  have hH := heapSize_eq
  cases segs with
  | nil =>
      simp only [span] at hwhole
      omega
  | cons x rest => exact List.mem_cons_self

/-- `next` of a listed block is listed. -/
theorem AllocInv.next_listed (hinv : AllocInv s segs size) {b x : Nat}
    (hmem : b ∈ starts sizeofBlockHeader 0 segs) (hnext : (s.heap.header b).next = some x) :
    x ∈ starts sizeofBlockHeader 0 segs := by
  obtain ⟨pre, y, post, rfl, hb⟩ := mem_starts.mp hmem
  rw [Nat.zero_add] at hb
  obtain ⟨-, -, -, hpost⟩ := hinv.chain.at_block hb
  obtain ⟨rfl, hne⟩ := hpost.next_eq hnext
  obtain ⟨z, rest, rfl⟩ := List.exists_cons_of_ne_nil hne
  rw [starts_append, starts, starts, Nat.zero_add, ← hb]
  exact List.mem_append_right _ (List.mem_cons_of_mem _ List.mem_cons_self)

/-- A test that takes the block takes one that no other call has claimed. -/
theorem AllocInv.test_apart (hinv : AllocInv s segs size) (hok : TakesAlone s i)
    (hp : (s.call i).point = .test) (hfits : (s.call i).fits s.heap = true) (j : Nat) (hj : j ≠ i)
    (hclaims : (s.call j).point.claims = true) :
    (s.call j).currentBlock ≠ (s.call i).currentBlock := by
  intro heq
  by_cases huse : (s.call j).point = .use
  · have hcount : j < s.count := by
      by_contra hout
      have := hinv.outside j (Nat.not_lt.mp hout)
      rw [this] at huse
      exact absurd huse (by decide)
    exact hok hp hfits j hcount hj huse heq
  · have howns : (s.call j).point.owns = true := by simp [AllocPoint.owns, hclaims, huse]
    obtain ⟨n, hused⟩ := (hinv.calls j).used howns
    simp only [AllocCall.fits, Bool.and_eq_true, Bool.not_eq_true'] at hfits
    rw [heq] at hused
    exact absurd (hfits.1.symm.trans (hinv.used_header hused).2) (by decide)

/-- With room for the split the subtractions of the split test do not wrap. -/
theorem AllocInv.splitRemainder_eq (hinv : AllocInv s segs size)
    (hclaims : (s.call i).point.claims = true) (hres : (s.call i).point.resizing = false)
    (ho : OwnAt needed segs (s.call i) n) :
    splitRemainder s.heap (s.call i).currentBlock (s.call i).allocatedSize =
        n - (s.call i).allocatedSize - sizeofBlockHeader ∧
      16 ≤ n - (s.call i).allocatedSize - sizeofBlockHeader ∧ n < 2 ^ 32 := by
  have hS := sizeofBlockHeader_eq
  have hH := heapSize_eq
  have hroom := ho.room
  have hbound := (usedAt_bounds ho.used).2
  rw [hinv.whole] at hbound
  simp only at hbound
  have hsize : (s.heap.header (s.call i).currentBlock).size = n :=
    (hinv.size_eq hclaims hres).symm.trans (hinv.used_header ho.used).1
  exact ⟨splitRemainder_of_le hsize (by omega) (by omega), by omega, by omega⟩

/-- **One statement** of any call keeps the invariant, where a test that takes a block
takes it alone. -/
theorem AllocInv.step (hinv : AllocInv s segs size) (hok : TakesAlone s i)
    (hstep : s.step i = some s') : ∃ segs' size', AllocInv s' segs' size' := by
  obtain ⟨hi, h, c, hst, rfl⟩ := step_put hstep
  have hat := hinv.calls i
  unfold CallAt at hat
  unfold AllocCall.statement at hst
  cases hp : (s.call i).point with
  | sizeTest =>
      rw [hp] at hst
      obtain ⟨rfl, rfl⟩ := Prod.mk.inj (Option.some.inj hst)
      by_cases hsize : (s.call i).size ≤ 0
      · rw [if_pos hsize]
        exact ⟨segs, size, hinv.search_step hi rfl (by rw [hp]; rfl) rfl rfl trivial⟩
      · rw [if_neg hsize]
        exact ⟨segs, size, hinv.search_step hi rfl (by rw [hp]; rfl) rfl rfl
          (Int.not_le.mp hsize)⟩
  | availableTest =>
      rw [hp] at hst hat
      obtain ⟨rfl, rfl⟩ := Prod.mk.inj (Option.some.inj hst)
      by_cases hav : s.heap.availableBytes < (s.call i).size.toNat
      · rw [if_pos hav]
        exact ⟨segs, size, hinv.search_step hi rfl (by rw [hp]; rfl) rfl rfl trivial⟩
      · rw [if_neg hav]
        exact ⟨segs, size, hinv.search_step hi rfl (by rw [hp]; rfl) rfl rfl hat⟩
  | firstBlock =>
      rw [hp] at hst hat
      obtain ⟨rfl, rfl⟩ := Prod.mk.inj (Option.some.inj hst)
      exact ⟨segs, size, hinv.search_step hi rfl (by rw [hp]; rfl) rfl rfl
        ⟨hat, hinv.first_listed⟩⟩
  | round =>
      rw [hp] at hst hat
      obtain ⟨rfl, rfl⟩ := Prod.mk.inj (Option.some.inj hst)
      exact ⟨segs, size, hinv.search_step hi rfl (by rw [hp]; rfl) rfl rfl ⟨hat.1, hat.2, rfl⟩⟩
  | test =>
      rw [hp] at hst hat
      have hw : WalkAt segs (s.call i) := hat
      obtain ⟨rfl, rfl⟩ := Prod.mk.inj (Option.some.inj hst)
      by_cases hfits : (s.call i).fits s.heap = true
      · rw [if_pos hfits]
        have hfree : (s.heap.header (s.call i).currentBlock).isUsed = false := by
          simp only [AllocCall.fits, Bool.and_eq_true, Bool.not_eq_true'] at hfits
          exact hfits.1
        refine ⟨segs, size, hinv.quiet hi rfl (Nat.le_of_eq ?_) ⟨hw.goto .use, hfree⟩
          (fun hres => ?_) fun _ => hinv.test_apart hok hp hfits⟩
        · rw [AllocCall.need, AllocCall.need, hp]
          rfl
        · rw [hp] at hres
          exact absurd hres (by decide)
      · rw [if_neg hfits]
        exact ⟨segs, size, hinv.search_step hi rfl (by rw [hp]; rfl) rfl rfl (hw.goto .advance)⟩
  | use =>
      rw [hp] at hst
      obtain ⟨rfl, rfl⟩ := Prod.mk.inj (Option.some.inj hst)
      obtain ⟨segs', hinv'⟩ := hinv.use_step hi hp (Heap.write_header _ _ _)
      exact ⟨segs', size, hinv'⟩
  | splitTest =>
      rw [hp] at hst hat
      obtain ⟨n, ho⟩ := hat
      obtain ⟨hrem, hlarge, -⟩ := hinv.splitRemainder_eq (by rw [hp]; rfl) (by rw [hp]; rfl) ho
      obtain ⟨rfl, rfl⟩ := Prod.mk.inj (Option.some.inj hst)
      rw [hrem, if_pos hlarge]
      exact ⟨segs, size, hinv.own_step hi rfl (by rw [hp]; rfl) rfl rfl
        (by rw [hp]; exact fun h => h) ⟨n, ho.goto .newSize⟩⟩
  | newSize =>
      rw [hp] at hst hat
      obtain ⟨n, ho⟩ := hat
      obtain ⟨hrem, hlarge, hlt⟩ :=
        hinv.splitRemainder_eq (by rw [hp]; rfl) (by rw [hp]; rfl) ho
      obtain ⟨rfl, rfl⟩ := Prod.mk.inj (Option.some.inj hst)
      refine ⟨segs, size, hinv.own_step hi rfl (by rw [hp]; rfl) rfl rfl
        (by rw [hp]; exact fun h => h) ⟨n, ⟨⟨ho.walk.positive, ho.walk.listed, ho.walk.rounded⟩,
          ho.used, ho.room⟩, ?_⟩⟩
      simp only [hrem]
      omega
  | newBlock =>
      rw [hp] at hst hat
      obtain ⟨n, ho, hsize⟩ := hat
      obtain ⟨rfl, rfl⟩ := Prod.mk.inj (Option.some.inj hst)
      exact ⟨segs, size, hinv.own_step hi rfl (by rw [hp]; rfl) rfl rfl
        (by rw [hp]; exact fun h => h) ⟨n, ⟨⟨ho.walk.positive, ho.walk.listed, ho.walk.rounded⟩,
          ho.used, ho.room⟩, hsize, rfl⟩⟩
  | newHeader =>
      rw [hp] at hst
      obtain ⟨rfl, rfl⟩ := Prod.mk.inj (Option.some.inj hst)
      exact ⟨segs, size, hinv.newHeader_step hi hp⟩
  | availableHeader =>
      rw [hp] at hst hat
      obtain ⟨n, ho, haddr, hrest⟩ := hat
      obtain ⟨rfl, rfl⟩ := Prod.mk.inj (Option.some.inj hst)
      exact ⟨segs, size, hinv.own_step hi rfl (by rw [hp]; rfl) rfl rfl
        (by rw [hp]; exact fun h => h) ⟨n, ho.goto .allocatedHeader, haddr, hrest⟩⟩
  | allocatedHeader =>
      rw [hp] at hst hat
      obtain ⟨n, ho, haddr, hrest⟩ := hat
      obtain ⟨rfl, rfl⟩ := Prod.mk.inj (Option.some.inj hst)
      exact ⟨segs, size, hinv.own_step hi rfl (by rw [hp]; rfl) rfl rfl
        (by rw [hp]; exact fun h => absurd h (by decide)) ⟨n, ho.goto .link, haddr, hrest⟩⟩
  | link =>
      rw [hp] at hst
      obtain ⟨rfl, rfl⟩ := Prod.mk.inj (Option.some.inj hst)
      exact hinv.link_step hi hp rfl
  | whole =>
      rw [hp] at hat
      exact hat.elim
  | allocated =>
      rw [hp] at hst hat
      obtain ⟨rfl, rfl⟩ := Prod.mk.inj (Option.some.inj hst)
      exact ⟨segs, size, hinv.own_step hi rfl (by rw [hp]; rfl) rfl rfl
        (fun _ => rfl) (CutAt.goto hat .available)⟩
  | available =>
      rw [hp] at hst hat
      obtain ⟨rfl, rfl⟩ := Prod.mk.inj (Option.some.inj hst)
      exact ⟨segs, size, hinv.own_step hi rfl (by rw [hp]; rfl) rfl rfl
        (fun _ => rfl) (CutAt.goto hat .resize)⟩
  | resize =>
      rw [hp] at hst
      obtain ⟨rfl, rfl⟩ := Prod.mk.inj (Option.some.inj hst)
      exact ⟨segs, size, hinv.resize_step hi hp rfl⟩
  | ret =>
      rw [hp] at hst hat
      obtain ⟨rfl, rfl⟩ := Prod.mk.inj (Option.some.inj hst)
      exact ⟨segs, size, hinv.own_step hi rfl (by rw [hp]; rfl) rfl rfl
        (by rw [hp]; exact fun h => absurd h (by decide)) ⟨CutAt.goto hat _, rfl⟩⟩
  | advance =>
      rw [hp] at hst hat
      have hw : WalkAt segs (s.call i) := hat
      cases hnext : (s.heap.header (s.call i).currentBlock).next with
      | none =>
          simp only [hnext] at hst
          obtain ⟨rfl, rfl⟩ := Prod.mk.inj (Option.some.inj hst)
          exact ⟨segs, size, hinv.search_step hi rfl (by rw [hp]; rfl) rfl rfl trivial⟩
      | some x =>
          simp only [hnext] at hst
          obtain ⟨rfl, rfl⟩ := Prod.mk.inj (Option.some.inj hst)
          exact ⟨segs, size, hinv.search_step hi rfl (by rw [hp]; rfl) rfl rfl
            ⟨hw.positive, hinv.next_listed hw.listed hnext, hw.rounded⟩⟩
  | returned ptr =>
      rw [hp] at hst
      exact absurd hst (by simp)

/-! ## Every interleaving -/

/-- The sum of the rounded requests bounds what the calls may take. -/
theorem needed_start (h : Heap) (requests : List Int) :
    (AllocSystem.start h requests).needed = roomFor requests := by
  have hneed : ∀ i, ((AllocSystem.start h requests).call i).need =
      roundedRequest (requests.getD i 0) + 48 := fun _ => rfl
  unfold AllocSystem.needed roomFor
  simp only [hneed]
  change ∑ i ∈ Finset.range requests.length, _ = _
  induction requests with
  | nil => rfl
  | cons r rest ih =>
      rw [List.length_cons, Finset.sum_range_succ', List.map_cons, List.sum_cons]
      simp only [List.getD_cons_succ, List.getD_cons_zero]
      rw [ih (fun _ => rfl), Nat.add_comm]

theorem AllocInv.start {bs : List Nat} {requests : List Int} (htiled : HeapTiled h bs)
    (hroom : ∀ b ∈ bs, (h.header b).isUsed = false → roomFor requests < (h.header b).size) :
    AllocInv (AllocSystem.start h requests)
      (bs.map fun b => ⟨(h.header b).size, (h.header b).isUsed⟩) fun b => (h.header b).size := by
  obtain ⟨hl, hspan⟩ := HeapTiled.lseg htiled.reached htiled.tiled
  rw [Nat.zero_add] at hspan
  refine ⟨hl.congr fun b _ => sameBlock_refl _, hspan, fun x hx => ?_, fun b _ _ => rfl,
    fun x hx hfree => ?_, fun i => trivial, fun i _ => rfl, fun i j _ hi => ?_⟩
  · obtain ⟨b, hb, rfl⟩ := List.mem_map.mp hx
    exact htiled.sizes b hb
  · obtain ⟨b, hb, rfl⟩ := List.mem_map.mp hx
    rw [needed_start]
    exact hroom b hb hfree
  · exact absurd (show false = true from hi) (by decide)

/-- What the invariant says of the pointers returned and of the list. -/
theorem AllocInv.sound (hinv : AllocInv s segs size) : AllocSound s := by
  have hreturned : ∀ i p, (s.call i).point = .returned (some p) →
      CutAt segs (s.call i) ∧ p = (s.call i).currentBlock + sizeofBlockHeader ∧
        payloadSize s.heap p = (s.call i).allocatedSize := by
    intro i p hp
    have hat := hinv.calls i
    unfold CallAt at hat
    rw [hp] at hat
    obtain ⟨hcut, rfl⟩ := hat
    refine ⟨hcut, rfl, ?_⟩
    rw [payloadSize, Nat.add_sub_cancel,
      ← hinv.size_eq (by rw [hp]; rfl) (by rw [hp]; rfl)]
    exact (hinv.used_header hcut.used).1
  refine ⟨fun i j p q hij hp hq => ?_, fun i p hp => ?_, fun hnone => ?_⟩
  · obtain ⟨hi, hpi, hsi⟩ := hreturned i p hp
    obtain ⟨hj, hqj, hsj⟩ := hreturned j q hq
    have hne := hinv.apart i j hij (by rw [hp]; rfl) (by rw [hq]; rfl)
    have hapart := usedAt_apart hi.used hj.used fun heq => hne (Prod.ext_iff.mp heq).1
    simp only at hapart
    omega
  · obtain ⟨hi, -, hsi⟩ := hreturned i p hp
    obtain ⟨-, hle, -⟩ := roundedSize_spec hi.walk.positive
    rw [hsi, hi.walk.rounded]
    omega
  · have hsizes : ∀ b ∈ starts sizeofBlockHeader 0 segs, size b = (s.heap.header b).size := by
      refine fun b hb => hinv.sizes b hb fun i hres => ?_
      by_cases hi : i < s.count
      · exact absurd (hres.symm.trans (hnone i hi)) (by decide)
      · rw [hinv.outside i (Nat.not_lt.mp hi)] at hres
        exact absurd hres (by decide)
    have hchain : Lseg s.heap (some 0) 0 segs none :=
      hinv.chain.congr fun b hb => ⟨(hsizes b hb).symm, rfl, rfl⟩
    exact ⟨_, hchain.heapTiled hinv.whole hinv.granular⟩

/-- **Concurrent allocation.**  From a well-formed heap in which no exact fit can arise,
every interleaving of calls in which each test that takes a block takes it alone returns
disjoint payloads and keeps the list a tiling of the heap. -/
theorem alloc_concurrent {bs : List Nat} {requests : List Int} {steps : List Nat}
    (htiled : HeapTiled h bs)
    (hroom : ∀ b ∈ bs, (h.header b).isUsed = false → roomFor requests < (h.header b).size)
    (halone : AllSteps AllocSystem.step TakesAlone (AllocSystem.start h requests) steps)
    (hrun : run AllocSystem.step (AllocSystem.start h requests) steps = some s) :
    AllocSound s := by
  have hinv : ∃ segs size, AllocInv s segs size := by
    refine invariant_of_allSteps (fun s => ∃ segs size, AllocInv s segs size) ?_
      ⟨_, _, AllocInv.start htiled hroom⟩ halone hrun
    rintro s i t ⟨segs, size, hinv⟩ hok hstep
    exact hinv.step hok hstep
  obtain ⟨segs, size, hinv⟩ := hinv
  exact hinv.sound

/-- The heap that `mem_init` leaves is well-formed, with one free block. -/
theorem heapTiled_memInit : HeapTiled memInit [0] ∧
    ∀ b ∈ [0], (memInit.header b).isUsed = false → roomFor [100, 100] < (memInit.header b).size :=
  ⟨tiledBy_start.1.heapTiled, by decide +kernel⟩

/-- Two requests of 100 bytes: the second call tests the first block once it is marked,
goes on to the remainder once it is linked, and takes it before the first call returns. -/
theorem alloc_concurrent_two_calls :
    ∃ s, run AllocSystem.step (AllocSystem.start memInit [100, 100])
        ([0, 0, 0, 0, 0, 0, 1, 1, 1, 1, 1] ++ List.replicate 7 0 ++ List.replicate 14 1 ++
          List.replicate 4 0) = some s ∧
      AllocSound s := by
  have halone : AllSteps AllocSystem.step TakesAlone (AllocSystem.start memInit [100, 100])
      ([0, 0, 0, 0, 0, 0, 1, 1, 1, 1, 1] ++ List.replicate 7 0 ++ List.replicate 14 1 ++
        List.replicate 4 0) := by
    decide +kernel
  have hsome : (run AllocSystem.step (AllocSystem.start memInit [100, 100])
      ([0, 0, 0, 0, 0, 0, 1, 1, 1, 1, 1] ++ List.replicate 7 0 ++ List.replicate 14 1 ++
        List.replicate 4 0)).isSome := by
    decide +kernel
  obtain ⟨s, hs⟩ := Option.isSome_iff_exists.mp hsome
  exact ⟨s, hs, alloc_concurrent heapTiled_memInit.1 heapTiled_memInit.2 halone hs⟩

/-- Two calls test the first block before either marks it, and both return it. -/
theorem alloc_race : ¬ ∀ (h : Heap) bs requests steps s, HeapTiled h bs →
    (∀ b ∈ bs, (h.header b).isUsed = false → roomFor requests < (h.header b).size) →
    run AllocSystem.step (AllocSystem.start h requests) steps = some s → AllocSound s := by
  intro hall
  have hpointers : (run AllocSystem.step (AllocSystem.start memInit [100, 100])
      ([0, 0, 0, 0, 0, 1, 1, 1, 1, 1] ++ List.replicate 12 0 ++ List.replicate 12 1)).map
      (fun s => ((s.call 0).point, (s.call 1).point, payloadSize s.heap 32)) =
        some (.returned (some 32), .returned (some 32), 112) := by
    decide +kernel
  obtain ⟨s, hs, heq⟩ := Option.map_eq_some_iff.mp hpointers
  simp only [Prod.mk.injEq] at heq
  have hsound := hall _ _ _ _ s heapTiled_memInit.1 heapTiled_memInit.2 hs
  have hapart := hsound.disjoint 0 1 32 32 (by decide) heq.1 heq.2.1
  omega

end PingPongOS
