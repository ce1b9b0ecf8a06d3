import PingPongOS.HeapAllocator
import PingPongOS.SegmentTiling
import Mathlib.Tactic.NormNum

/-!
# The block list refines a tiling of the heap

`Lseg h x a segs y` says that following `next` from `x` meets the segments
`segs`, the first at address `a`, and leaves by the link `y`.  The whole heap is
one such list from address `0` to `NULL`.  Each operation of `memory.c` is shown
to act on the list as the tiling operation of the same purpose does, as long as
it does not reach one of two slips: the split test that wraps when the chosen
block is less than a header larger than the request, and the `prev` link that a
split leaves stale.
-/

namespace PingPongOS

open Tiling

/-- Following `next` from `x` meets `segs`, the first at `a`, and leaves by `y`. -/
def Lseg (h : Heap) : Option Nat → Nat → List Segment → Option Nat → Prop
  | x, _, [], y => x = y
  | x, a, s :: rest, y =>
      x = some a ∧ (h.header a).size = s.size ∧ (h.header a).isUsed = s.used ∧
        Lseg h (h.header a).next (a + (sizeofBlockHeader + s.size)) rest y

/-- Two headers that the list walk does not tell apart. -/
def SameBlock (x y : BlockHeader) : Prop :=
  x.size = y.size ∧ x.isUsed = y.isUsed ∧ x.next = y.next

/-- The heap is tiled by `segs` and the counters agree with it. -/
structure Represents (h : Heap) (segs : List Segment) : Prop where
  chain : Lseg h (some 0) 0 segs none
  whole : span sizeofBlockHeader segs = heapSize
  granular : Granular 16 segs
  available : h.availableBytes = freeBytes segs + sizeofBlockHeader
  allocated : h.allocatedBytes + h.availableBytes = heapSize

/-- The same, of segments of any size. -/
structure Tracks (h : Heap) (segs : List Segment) : Prop where
  chain : Lseg h (some 0) 0 segs none
  whole : span sizeofBlockHeader segs = heapSize
  available : h.availableBytes = freeBytes segs + sizeofBlockHeader
  allocated : h.allocatedBytes + h.availableBytes = heapSize

variable {h h' : Heap}

theorem Represents.tracks {segs : List Segment} (hr : Represents h segs) : Tracks h segs :=
  ⟨hr.chain, hr.whole, hr.available, hr.allocated⟩

theorem Tracks.represents {segs : List Segment} (ht : Tracks h segs) (hg : Granular 16 segs) :
    Represents h segs :=
  ⟨ht.chain, ht.whole, hg, ht.available, ht.allocated⟩

theorem lseg_append {x y : Option Nat} {a : Nat} {xs ys : List Segment} :
    Lseg h x a (xs ++ ys) y ↔
      ∃ m, Lseg h x a xs m ∧ Lseg h m (a + span sizeofBlockHeader xs) ys y := by
  induction xs generalizing x a with
  | nil => simp [Lseg, span]
  | cons s xs ih =>
      simp only [List.cons_append, Lseg, ih, span, Nat.add_assoc]
      constructor
      · rintro ⟨hx, hs, hu, m, hl, hr⟩
        exact ⟨m, ⟨hx, hs, hu, hl⟩, hr⟩
      · rintro ⟨m, ⟨hx, hs, hu, hl⟩, hr⟩
        exact ⟨hx, hs, hu, m, hl, hr⟩

/-- The list reads only the headers at the starts of its segments. -/
theorem Lseg.congr {x y : Option Nat} {a : Nat} {segs : List Segment}
    (hl : Lseg h x a segs y)
    (heq : ∀ b ∈ starts sizeofBlockHeader a segs, SameBlock (h'.header b) (h.header b)) :
    Lseg h' x a segs y := by
  induction segs generalizing x a with
  | nil => exact hl
  | cons s segs ih =>
      obtain ⟨hx, hs, hu, hrest⟩ := hl
      obtain ⟨hs', hu', hn'⟩ := heq a List.mem_cons_self
      refine ⟨hx, hs'.trans hs, hu'.trans hu, ?_⟩
      rw [hn']
      exact ih hrest fun b hb => heq b (List.mem_cons_of_mem _ hb)

theorem sameBlock_refl (x : BlockHeader) : SameBlock x x := ⟨rfl, rfl, rfl⟩

/-- The link into a nonempty list is the address of its first block. -/
theorem Lseg.link {x y : Option Nat} {a : Nat} {s : Segment} {rest : List Segment}
    (hl : Lseg h x a (s :: rest) y) : x = some a := hl.1

/-- The list entered at a block address and left at `NULL` starts at the address
its predecessors end at. -/
theorem Lseg.next_eq {x : Option Nat} {a c : Nat} {segs : List Segment}
    (hl : Lseg h x a segs none) (hx : x = some c) : c = a ∧ segs ≠ [] := by
  cases segs with
  | nil => simp [Lseg, hx] at hl
  | cons s rest =>
      refine ⟨?_, List.cons_ne_nil s rest⟩
      have := hl.link
      rw [hx] at this
      exact Option.some.inj this

/-! ## The walks -/

/-- The walk finds the first block that passes the test, or the end of the list;
a budget of more steps than there are blocks is never exhausted. -/
theorem search_lseg (test : Nat → Bool) {fuel : Nat} {x : Option Nat} {a : Nat}
    {segs : List Segment} (hl : Lseg h x a segs none) (hfuel : segs.length < fuel) :
    (h.search test fuel x = some none ∧
      ∀ b ∈ starts sizeofBlockHeader a segs, test b = false) ∨
    ∃ pre s post, segs = pre ++ s :: post ∧
      h.search test fuel x = some (some (a + span sizeofBlockHeader pre)) ∧
      test (a + span sizeofBlockHeader pre) = true ∧
      ∀ b ∈ starts sizeofBlockHeader a pre, test b = false := by
  induction segs generalizing x a fuel with
  | nil =>
      left
      obtain rfl : x = none := hl
      exact ⟨by unfold Heap.search; cases fuel <;> rfl, by simp [starts]⟩
  | cons s segs ih =>
      obtain ⟨rfl, -, -, hrest⟩ := id hl
      obtain ⟨fuel, rfl⟩ : ∃ n, fuel = n + 1 := ⟨fuel - 1, by simp at hfuel; omega⟩
      have hsz : (h.header a).size = s.size := hl.2.1
      by_cases ht : test a = true
      · right
        exact ⟨[], s, segs, rfl, by simp [Heap.search, ht, span], by simpa [span] using ht,
          by simp [starts]⟩
      · have hfuel' : segs.length < fuel := by simpa using hfuel
        rw [Heap.search, if_neg ht]
        rcases ih hrest hfuel' with ⟨hnone, hall⟩ | ⟨pre, t, post, rfl, hfound, htest, hall⟩
        · left
          refine ⟨hnone, fun b hb => ?_⟩
          simp only [starts, List.mem_cons] at hb
          rcases hb with rfl | hb
          · simpa using ht
          · exact hall b hb
        · right
          have hspan : a + (sizeofBlockHeader + s.size) + span sizeofBlockHeader pre =
              a + span sizeofBlockHeader (s :: pre) := by
            simp only [span]; omega
          rw [hspan] at hfound htest
          refine ⟨s :: pre, t, post, rfl, hfound, htest, fun b hb => ?_⟩
          simp only [starts, List.mem_cons] at hb
          rcases hb with rfl | hb
          · simpa using ht
          · exact hall b hb

/-- The free payload and the headers of all blocks fit in the heap. -/
theorem Tracks.free_room {segs : List Segment} (hr : Tracks h segs) :
    freeBytes segs + segs.length * 32 ≤ heapSize := by
  have hle := freeBytes_add_headers_le sizeofBlockHeader segs
  rw [hr.whole] at hle
  rwa [sizeofBlockHeader_eq] at hle

/-- A used block takes its payload from that room. -/
theorem Tracks.used_room {segs : List Segment} (hr : Tracks h segs) {x : Nat × Nat}
    (hx : x ∈ usedAt sizeofBlockHeader 0 segs) :
    freeBytes segs + segs.length * 32 + x.2 ≤ heapSize := by
  have hle := freeBytes_add_used_le hx
  rw [hr.whole] at hle
  rwa [sizeofBlockHeader_eq] at hle

/-- A tiled heap has fewer blocks than the walk's budget. -/
theorem length_lt_heapSize {segs : List Segment} (hwhole : span sizeofBlockHeader segs = heapSize) :
    segs.length < heapSize := by
  have hle := freeBytes_add_headers_le sizeofBlockHeader segs
  rw [hwhole, sizeofBlockHeader_eq] at hle
  have := heapSize_eq
  omega

/-- On a tiled heap `mem_avail` is the counter itself, and at most the heap. -/
theorem Tracks.memAvail_eq {segs : List Segment} (hr : Tracks h segs) :
    memAvail h = (h.availableBytes : Int) ∧ h.availableBytes ≤ heapSize := by
  have hle : h.availableBytes ≤ heapSize := by
    have := hr.allocated
    omega
  have hlt : h.availableBytes < 2147483648 := by
    have := heapSize_eq
    omega
  refine ⟨?_, hle⟩
  apply Int.bmod_eq_of_le
  · norm_num
  · norm_num
    exact hlt

/-! ## Arithmetic of the machine types -/

theorem subUInt_of_le {a b : Nat} (hb : b ≤ a) (ha : a < 2 ^ 32) : subUInt a b = a - b := by
  unfold subUInt
  omega

theorem subULong_of_le {a b : Nat} (hb : b ≤ a) (ha : a < 2 ^ 64) :
    subULong a b = a - b := by
  unfold subULong
  omega

private theorem lor_fifteen (n : Nat) : n ||| 15 = 16 * (n / 16) + 15 := by
  have hlow : ∀ r < 16, r ||| 15 = 15 := by decide
  have hsplit : n = 2 ^ 4 * (n / 16) ||| n % 16 := by
    rw [← Nat.two_pow_add_eq_or_of_lt (Nat.mod_lt n (by norm_num))]
    omega
  calc n ||| 15 = (2 ^ 4 * (n / 16) ||| n % 16) ||| 15 := by rw [← hsplit]
    _ = 2 ^ 4 * (n / 16) ||| (n % 16 ||| 15) := Nat.or_assoc _ _ _
    _ = 2 ^ 4 * (n / 16) ||| 15 := by rw [hlow _ (Nat.mod_lt n (by norm_num))]
    _ = 16 * (n / 16) + 15 := by
        rw [← Nat.two_pow_add_eq_or_of_lt (by norm_num : (15 : Nat) < 2 ^ 4)]

/-- The bit trick of `mem_alloc` rounds a positive size up to a multiple of 16. -/
theorem roundedSize_spec {size : Int} (hpos : 0 < size) :
    16 ∣ roundedSize size ∧ size.toNat ≤ roundedSize size ∧
      roundedSize size < size.toNat + 16 := by
  unfold roundedSize
  rw [lor_fifteen]
  omega

/-! ## Allocation -/

/-- The block list splits at each of its blocks. -/
theorem Lseg.at_block {pre post : List Segment} {s : Segment}
    (hl : Lseg h (some 0) 0 (pre ++ s :: post) none) {b : Nat}
    (hb : b = span sizeofBlockHeader pre) :
    Lseg h (some 0) 0 pre (some b) ∧ (h.header b).size = s.size ∧
      (h.header b).isUsed = s.used ∧
      Lseg h (h.header b).next (b + (sizeofBlockHeader + s.size)) post none := by
  obtain ⟨m, hpre, hm, hs, hu, hpost⟩ := lseg_append.mp hl
  rw [Nat.zero_add, ← hb] at hm hs hu hpost
  exact ⟨hm ▸ hpre, hs, hu, hpost⟩

theorem Tracks.at_block {pre post : List Segment} {s : Segment}
    (hr : Tracks h (pre ++ s :: post)) {b : Nat} (hb : b = span sizeofBlockHeader pre) :
    Lseg h (some 0) 0 pre (some b) ∧ (h.header b).size = s.size ∧
      (h.header b).isUsed = s.used ∧
      Lseg h (h.header b).next (b + (sizeofBlockHeader + s.size)) post none :=
  hr.chain.at_block hb

/-- A block list whose headers are rewritten at one block only, as far as the list
goes.  The list outside that block is kept, so only the block itself is to be checked. -/
theorem Lseg.keep_around {pre post : List Segment} {s : Segment} {b : Nat}
    (hl : Lseg h (some 0) 0 (pre ++ s :: post) none) (hb : b = span sizeofBlockHeader pre)
    (hkeep : ∀ c ∈ starts sizeofBlockHeader 0 (pre ++ s :: post), c ≠ b →
      SameBlock (h'.header c) (h.header c)) :
    Lseg h' (some 0) 0 pre (some b) ∧
      Lseg h' (h.header b).next (b + (sizeofBlockHeader + s.size)) post none := by
  have hS := sizeofBlockHeader_eq
  obtain ⟨hpre, -, -, hpost⟩ := hl.at_block hb
  have hstarts : starts sizeofBlockHeader 0 (pre ++ s :: post) =
      starts sizeofBlockHeader 0 pre ++ b ::
        starts sizeofBlockHeader (b + (sizeofBlockHeader + s.size)) post := by
    rw [starts_append, Nat.zero_add, ← hb, starts]
  rw [hstarts] at hkeep
  refine ⟨hpre.congr fun c hc => hkeep c (List.mem_append_left _ hc) ?_,
    hpost.congr fun c hc => hkeep c ?_ ?_⟩
  · have := (starts_bounds hc).2
    omega
  · exact List.mem_append_right _ (List.mem_cons_of_mem _ hc)
  · have := (starts_bounds hc).1
    omega

/-- The sizes of the blocks fit `unsigned int`. -/
theorem Tracks.size_lt {pre post : List Segment} {s : Segment}
    (hr : Tracks h (pre ++ s :: post)) : s.size + sizeofBlockHeader ≤ heapSize := by
  have := hr.whole
  simp only [span_append, span] at this
  omega

@[simp] theorem commitBlock_header (h : Heap) (b r : Nat) :
    (commitBlock h b r).header =
      Function.update h.header b { h.header b with size := r } := rfl

/-- Splitting links a header for the remainder after the block. -/
theorem splitBlock_header (h : Heap) (b r : Nat) :
    (splitBlock h b r).header b =
        { h.header b with next := some (b + (sizeofBlockHeader + r)) } ∧
      (splitBlock h b r).header (b + (sizeofBlockHeader + r)) =
        { id := h.blockNumber
          size := splitRemainder h b r % 2 ^ 32
          isUsed := false
          next := (h.header b).next
          prev := some b } ∧
      ∀ c, c ≠ b → c ≠ b + (sizeofBlockHeader + r) →
        (splitBlock h b r).header c = h.header c := by
  have hne : b ≠ b + (sizeofBlockHeader + r) := by simp only [sizeofBlockHeader]; omega
  refine ⟨?_, ?_, fun c hb hn => ?_⟩
  · simp only [splitBlock, Heap.write, Function.update_self, Function.update_of_ne hne]
  · simp only [splitBlock, Heap.write, Function.update_self, Function.update_of_ne hne.symm]
  · simp only [splitBlock, Heap.write, Function.update_of_ne hb, Function.update_of_ne hn]

/-- Away from the chosen block and the remainder, `takeBlock` writes nothing. -/
theorem takeBlock_header_of_ne {b r c : Nat} (hb : c ≠ b)
    (hn : c ≠ b + (sizeofBlockHeader + r)) :
    (takeBlock h b r).header c = h.header c := by
  rw [takeBlock]
  by_cases ht : 16 ≤ splitRemainder (h.write b { h.header b with isUsed := true }) b r
  · rw [if_pos ht, commitBlock_header, Function.update_of_ne hb,
      (splitBlock_header _ b r).2.2 c hb hn, Heap.write_header, Function.update_of_ne hb]
  · rw [if_neg ht, commitBlock_header, Function.update_of_ne hb, Heap.write_header,
      Function.update_of_ne hb]

/-- The split test on a block that is a header larger than the request. -/
theorem splitRemainder_of_le {b n r : Nat} (hsize : (h.header b).size = n) (hn : n < 2 ^ 32)
    (hroom : r + sizeofBlockHeader ≤ n) :
    splitRemainder h b r = n - r - sizeofBlockHeader := by
  have hs := sizeofBlockHeader_eq
  rw [splitRemainder, hsize, subUInt_of_le (by omega) hn, subULong_of_le (by omega) (by omega)]

/-- The header of a block that is marked. -/
theorem marked_size {b n : Nat} (hsize : (h.header b).size = n) :
    ((h.write b { h.header b with isUsed := true }).header b).size = n := by
  simpa using hsize

/-- The branch of `takeBlock` that splits. -/
theorem takeBlock_split {b n r : Nat} (hsize : (h.header b).size = n) (hn : n < 2 ^ 32)
    (hfit : r + sizeofBlockHeader + 16 ≤ n) :
    takeBlock h b r = commitBlock
      (splitBlock (h.write b { h.header b with isUsed := true }) b r) b r := by
  have hrem := splitRemainder_of_le (marked_size hsize) hn (show r + sizeofBlockHeader ≤ n by omega)
  exact if_pos (by rw [hrem]; omega)

/-- The branch of `takeBlock` that does not. -/
theorem takeBlock_whole {b n r : Nat} (hsize : (h.header b).size = n) (hn : n < 2 ^ 32)
    (hroom : r + sizeofBlockHeader ≤ n) (hfit : ¬ r + sizeofBlockHeader + 16 ≤ n) :
    takeBlock h b r = commitBlock (h.write b { h.header b with isUsed := true }) b n := by
  have hrem := splitRemainder_of_le (marked_size hsize) hn hroom
  rw [takeBlock, if_neg (by rw [hrem]; omega), marked_size hsize]

/-- The headers of a block that has been split and of the remainder. -/
theorem takeBlock_split_header {b n r : Nat} (hsize : (h.header b).size = n) (hn : n < 2 ^ 32)
    (hfit : r + sizeofBlockHeader + 16 ≤ n) :
    (takeBlock h b r).header b = { h.header b with
        size := r, isUsed := true, next := some (b + (sizeofBlockHeader + r)) } ∧
      (takeBlock h b r).header (b + (sizeofBlockHeader + r)) =
        { id := h.blockNumber
          size := n - r - sizeofBlockHeader
          isUsed := false
          next := (h.header b).next
          prev := some b } := by
  have hS := sizeofBlockHeader_eq
  obtain ⟨hself, hnew, -⟩ :=
    splitBlock_header (h.write b { h.header b with isUsed := true }) b r
  have hrem := splitRemainder_of_le (marked_size hsize) hn (show r + sizeofBlockHeader ≤ n by omega)
  have hmod : (n - r - sizeofBlockHeader) % 2 ^ 32 = n - r - sizeofBlockHeader :=
    Nat.mod_eq_of_lt (by omega)
  rw [takeBlock_split hsize hn hfit]
  refine ⟨?_, ?_⟩
  · rw [commitBlock_header, Function.update_self, hself]
    simp
  · rw [commitBlock_header, Function.update_of_ne (by omega), hnew, hrem, hmod]
    simp [Heap.write]

/-- **Taking a block takes its segment**, when the block is a header larger than the
request: then the split test does not wrap. -/
theorem takeBlock_chain {pre post : List Segment} {n r b : Nat}
    (hl : Lseg h (some 0) 0 (pre ++ ⟨n, false⟩ :: post) none) (hn : n < 2 ^ 32)
    (hb : b = span sizeofBlockHeader pre) (hroom : r + sizeofBlockHeader ≤ n) :
    Lseg (takeBlock h b r) (some 0) 0 (pre ++ (take sizeofBlockHeader 16 r n ++ post)) none := by
  have hS := sizeofBlockHeader_eq
  obtain ⟨hpre, hsize, hused, hpost⟩ := hl.at_block hb
  have hkeep : ∀ c, c < b ∨ b + (sizeofBlockHeader + n) ≤ c →
      SameBlock ((takeBlock h b r).header c) (h.header c) := by
    intro c hc
    rw [takeBlock_header_of_ne (by omega) (by omega)]
    exact sameBlock_refl _
  have hpre' : Lseg (takeBlock h b r) (some 0) 0 pre (some b) := by
    apply hpre.congr
    intro c hc
    have := (starts_bounds hc).2
    exact hkeep c (Or.inl (by omega))
  have hpost' : Lseg (takeBlock h b r) (h.header b).next
      (b + (sizeofBlockHeader + n)) post none := by
    apply hpost.congr
    intro c hc
    exact hkeep c (Or.inr (starts_bounds hc).1)
  refine lseg_append.mpr ⟨some b, hpre', ?_⟩
  rw [Nat.zero_add, ← hb]
  by_cases hfit : r + sizeofBlockHeader + 16 ≤ n
  · obtain ⟨hself, hnew⟩ := takeBlock_split_header hsize hn hfit
    have hend : b + (sizeofBlockHeader + r) +
        (sizeofBlockHeader + (n - r - sizeofBlockHeader)) = b + (sizeofBlockHeader + n) := by
      omega
    rw [take, if_pos hfit]
    refine ⟨rfl, by rw [hself], by rw [hself], ?_⟩
    rw [hself]
    refine ⟨rfl, by rw [hnew], by rw [hnew], ?_⟩
    rw [hnew, hend]
    exact hpost'
  · have hself : (takeBlock h b r).header b =
        { h.header b with size := n, isUsed := true } := by
      rw [takeBlock_whole hsize hn hroom hfit, commitBlock_header, Function.update_self]
      simp
    rw [take, if_neg hfit]
    refine ⟨rfl, by rw [hself], by rw [hself], ?_⟩
    rw [hself]
    exact hpost'

/-- **Taking a block refines taking a segment**, counters included. -/
theorem takeBlock_represents {pre post : List Segment} {n r b : Nat}
    (hrep : Represents h (pre ++ ⟨n, false⟩ :: post)) (hb : b = span sizeofBlockHeader pre)
    (hr : 0 < r ∧ 16 ∣ r) (hroom : r + sizeofBlockHeader ≤ n) :
    Represents (takeBlock h b r) (pre ++ (take sizeofBlockHeader 16 r n ++ post)) := by
  have hH := heapSize_eq
  have hS := sizeofBlockHeader_eq
  obtain ⟨-, hsize, -, -⟩ := hrep.chain.at_block hb
  have hn : n + sizeofBlockHeader ≤ heapSize := hrep.tracks.size_lt
  have hn32 : n < 2 ^ 32 := by omega
  obtain ⟨hgpre, hgrest⟩ := Granular.append.mp hrep.granular
  obtain ⟨hgn, hgpost⟩ := granular_cons.mp hgrest
  have hfree := hrep.available
  have halloc := hrep.allocated
  have hwhole := hrep.whole
  simp only [freeBytes_append, freeBytes, Bool.false_eq_true, if_false] at hfree
  simp only [span_append, span] at hwhole
  have hgran : Granular 16 (pre ++ (take sizeofBlockHeader 16 r n ++ post)) :=
    Granular.append.mpr ⟨hgpre, Granular.append.mpr
      ⟨granular_take (by omega) hr hgn (by rw [hS]; decide), hgpost⟩⟩
  have hcount : (takeBlock h b r).availableBytes = freeBytes
        (pre ++ (take sizeofBlockHeader 16 r n ++ post)) + sizeofBlockHeader ∧
      (takeBlock h b r).allocatedBytes + (takeBlock h b r).availableBytes = heapSize := by
    by_cases hfit : r + sizeofBlockHeader + 16 ≤ n
    · rw [takeBlock_split hsize hn32 hfit, take, if_pos hfit]
      simp only [commitBlock, splitBlock, Heap.write, freeBytes_append, freeBytes,
        if_true, Bool.false_eq_true, if_false]
      rw [subULong_of_le (b := sizeofBlockHeader) (by omega) (by omega),
        subULong_of_le (by omega) (by omega)]
      omega
    · rw [takeBlock_whole hsize hn32 hroom hfit, take, if_neg hfit]
      simp only [commitBlock, Heap.write, freeBytes_append, freeBytes, if_true]
      rw [subULong_of_le (by omega) (by omega)]
      omega
  refine ⟨takeBlock_chain hrep.chain hn32 hb hroom, ?_, hgran, hcount.1, hcount.2⟩
  simp only [span_append, span_take]
  omega

/-! ## Release -/

/-- Repairing a `prev` link is invisible to the list walk. -/
theorem sameBlock_setPrev (h : Heap) (x p : Option Nat) (c : Nat) :
    SameBlock ((setPrev h x p).header c) (h.header c) := by
  cases x with
  | none => exact sameBlock_refl _
  | some d =>
      by_cases hc : c = d
      · subst hc
        simp [setPrev, SameBlock]
      · simp [setPrev, SameBlock, hc]

@[simp] theorem setPrev_availableBytes (h : Heap) (x p : Option Nat) :
    (setPrev h x p).availableBytes = h.availableBytes := by
  cases x <;> rfl

@[simp] theorem setPrev_allocatedBytes (h : Heap) (x p : Option Nat) :
    (setPrev h x p).allocatedBytes = h.allocatedBytes := by
  cases x <;> rfl

/-- Releasing a used block makes its segment free. -/
theorem releaseBlock_tracks {pre post : List Segment} {n b : Nat}
    (hrep : Tracks h (pre ++ ⟨n, true⟩ :: post)) (hb : b = span sizeofBlockHeader pre) :
    Tracks (releaseBlock h b) (pre ++ ⟨n, false⟩ :: post) := by
  have hH := heapSize_eq
  have hS := sizeofBlockHeader_eq
  obtain ⟨-, hsize, -, -⟩ := hrep.at_block hb
  have hfree := hrep.available
  have halloc := hrep.allocated
  have hwhole := hrep.whole
  have hmem : (0 + span sizeofBlockHeader pre, n) ∈
      usedAt sizeofBlockHeader 0 (pre ++ ⟨n, true⟩ :: post) :=
    mem_usedAt.mpr ⟨pre, post, rfl, rfl⟩
  have hused := hrep.used_room hmem
  simp only [freeBytes_append, freeBytes, if_true, Nat.zero_add, List.length_append,
    List.length_cons] at hfree hused
  have hself : (releaseBlock h b).header b = { h.header b with isUsed := false } := by
    simp [releaseBlock]
  have hkeep : ∀ c, c ≠ b → SameBlock ((releaseBlock h b).header c) (h.header c) := by
    intro c hc
    simp [releaseBlock, hc, SameBlock]
  obtain ⟨hpre', hpost'⟩ := hrep.chain.keep_around hb fun c _ => hkeep c
  refine ⟨lseg_append.mpr ⟨some b, hpre', ?_⟩, ?_, ?_, ?_⟩
  · rw [Nat.zero_add, ← hb]
    refine ⟨rfl, by rw [hself]; exact hsize, by rw [hself], ?_⟩
    rw [hself]
    exact hpost'
  · simpa only [span_append, span] using hwhole
  · simp only [releaseBlock, freeBytes_append, freeBytes, Bool.false_eq_true, if_false, hsize]
    omega
  · simp only [releaseBlock, hsize]
    rw [subULong_of_le (by omega) (by omega)]
    omega

/-- Two adjacent free blocks joined: the header of the first takes the size and
the `next` link of the second, and one header becomes free payload. -/
theorem join_tracks {pre post : List Segment} {n m b : Nat}
    (hrep : Tracks h (pre ++ ⟨n, false⟩ :: ⟨m, false⟩ :: post))
    (hb : b = span sizeofBlockHeader pre)
    (hself : (h'.header b).size = n + (sizeofBlockHeader + m) ∧
      (h'.header b).isUsed = false ∧
      (h'.header b).next = (h.header (b + (sizeofBlockHeader + n))).next)
    (hkeep : ∀ c, c ≠ b → SameBlock (h'.header c) (h.header c))
    (hav : h'.availableBytes = (h.availableBytes + sizeofBlockHeader) % 2 ^ 64)
    (hal : h'.allocatedBytes = subULong h.allocatedBytes sizeofBlockHeader) :
    Tracks h' (pre ++ ⟨n + (sizeofBlockHeader + m), false⟩ :: post) := by
  have hH := heapSize_eq
  have hS := sizeofBlockHeader_eq
  obtain ⟨hpre', hpost'⟩ := hrep.chain.keep_around hb fun c _ => hkeep c
  obtain ⟨-, hrest⟩ := hpost'
  have hfree := hrep.available
  have halloc := hrep.allocated
  have hwhole := hrep.whole
  have hbound := hrep.free_room
  simp only [freeBytes_append, freeBytes, Bool.false_eq_true, if_false, List.length_append,
    List.length_cons] at hfree hbound
  refine ⟨lseg_append.mpr ⟨some b, hpre', ?_⟩, ?_, ?_, ?_⟩
  · rw [Nat.zero_add, ← hb]
    refine ⟨rfl, hself.1, hself.2.1, ?_⟩
    rw [hself.2.2, ← (hkeep _ (by omega)).2.2,
      show b + (sizeofBlockHeader + (n + (sizeofBlockHeader + m))) =
        b + (sizeofBlockHeader + n) + (sizeofBlockHeader + m) by omega]
    exact hrest.2.2
  · simp only [span_append, span] at hwhole ⊢
    omega
  · rw [hav]
    simp only [freeBytes_append, freeBytes, Bool.false_eq_true, if_false]
    omega
  · rw [hav, hal, subULong_of_le (by omega) (by omega)]
    omega

/-- Absorbing a block rewrites one header of the list. -/
theorem absorbBlock_header {b n : Nat} (hne : n ≠ b) :
    SameBlock ((absorbBlock h b n).header b)
        { h.header b with
          size := ((h.header b).size + (sizeofBlockHeader + (h.header n).size)) % 2 ^ 32
          next := (h.header n).next } ∧
      ∀ c, c ≠ b → SameBlock ((absorbBlock h b n).header c) (h.header c) := by
  constructor
  · obtain ⟨hs, hu, hn⟩ := sameBlock_setPrev _ _ (some b) b
    refine ⟨hs.trans ?_, hu.trans ?_, hn.trans ?_⟩
    · simp
    · simp
    · simp [Function.update_of_ne hne]
  · intro c hc
    obtain ⟨hs, hu, hn⟩ := sameBlock_setPrev _ _ (some b) c
    refine ⟨hs.trans ?_, hu.trans ?_, hn.trans ?_⟩
    · simp [hc]
    · simp [hc]
    · simp [hc]

/-- Absorbing the free block after a free block refines merging their segments. -/
theorem absorbBlock_tracks {pre post : List Segment} {n m b c : Nat}
    (hrep : Tracks h (pre ++ ⟨n, false⟩ :: ⟨m, false⟩ :: post))
    (hb : b = span sizeofBlockHeader pre) (hc : c = b + (sizeofBlockHeader + n)) :
    Tracks (absorbBlock h b c) (pre ++ ⟨n + (sizeofBlockHeader + m), false⟩ :: post) := by
  have hH := heapSize_eq
  have hS := sizeofBlockHeader_eq
  obtain ⟨-, hsize, hused, hpost⟩ := hrep.at_block hb
  obtain ⟨-, hs, -, -⟩ := hpost
  have hwhole := hrep.whole
  simp only [span_append, span] at hwhole
  simp only at hsize hused hs
  rw [← hc] at hs
  obtain ⟨hself, hkeep⟩ := absorbBlock_header (h := h) (b := b) (n := c) (by omega)
  refine join_tracks hrep hb ⟨hself.1.trans ?_, hself.2.1.trans hused, ?_⟩ hkeep ?_ ?_
  · simp only [hsize, hs]
    omega
  · rw [← hc]
    exact hself.2.2
  · simp [absorbBlock]
  · simp [absorbBlock]

/-- **The forward merge refines `mergeNext`.** -/
theorem mergeForward_tracks {pre post : List Segment} {n b : Nat}
    (hrep : Tracks h (pre ++ ⟨n, false⟩ :: post)) (hb : b = span sizeofBlockHeader pre) :
    Tracks (mergeForward h b) (pre ++ mergeNext sizeofBlockHeader n post) := by
  obtain ⟨-, -, -, hpost⟩ := hrep.at_block hb
  cases post with
  | nil =>
      have hnext : (h.header b).next = none := hpost
      rw [mergeForward, hnext]
      exact hrep
  | cons s rest =>
      obtain ⟨hnext, -, hu, -⟩ := hpost
      rw [mergeForward, hnext]
      simp only at hu ⊢
      rw [hu]
      obtain ⟨m, _ | _⟩ := s
      · exact absorbBlock_tracks hrep hb rfl
      · exact hrep

/-- **The backward merge refines `mergePrev`** when the `prev` link of the
released block is the block before it in the list. -/
theorem mergeBackward_tracks {pre post : List Segment} {p : Segment} {n b : Nat}
    (hrep : Tracks h (pre ++ p :: ⟨n, false⟩ :: post))
    (hb : b = span sizeofBlockHeader (pre ++ [p]))
    (hprev : (h.header b).prev = some (span sizeofBlockHeader pre)) :
    Tracks (mergeBackward h b)
      (pre ++ mergePrev sizeofBlockHeader p (⟨n, false⟩ :: post)) := by
  obtain ⟨-, -, hu, -⟩ := hrep.at_block rfl
  rw [mergeBackward, hprev]
  simp only [hu]
  obtain ⟨m, _ | _⟩ := p
  · refine absorbBlock_tracks hrep rfl ?_
    simp only [hb, span_append, span, Nat.add_zero]
  · exact hrep

/-- The merges and the release touch the use flag of no other block, and the
forward merge leaves the `prev` link of its block alone. -/
theorem mergeForward_releaseBlock {pre post : List Segment} {n b : Nat}
    (hrep : Tracks h (pre ++ ⟨n, true⟩ :: post)) (hb : b = span sizeofBlockHeader pre) :
    ((mergeForward (releaseBlock h b) b).header b).prev = (h.header b).prev ∧
      ∀ c, c ≠ b →
        ((mergeForward (releaseBlock h b) b).header c).isUsed = (h.header c).isUsed := by
  have hS := sizeofBlockHeader_eq
  have hrel := releaseBlock_tracks hrep hb
  obtain ⟨-, -, -, hpost⟩ := hrel.at_block hb
  have hprev : ((releaseBlock h b).header b).prev = (h.header b).prev := by
    simp [releaseBlock]
  have hother : ∀ c, c ≠ b → ((releaseBlock h b).header c).isUsed = (h.header c).isUsed := by
    intro c hc
    simp [releaseBlock, hc]
  rcases post with _ | ⟨s, rest⟩
  · have hnext : ((releaseBlock h b).header b).next = none := hpost
    rw [mergeForward, hnext]
    exact ⟨hprev, hother⟩
  · obtain ⟨hnext, -, hu, hrest⟩ := hpost
    have hne : b + (sizeofBlockHeader + n) ≠ b := by omega
    rw [mergeForward, hnext]
    simp only at hu hrest ⊢
    by_cases hused : ((releaseBlock h b).header (b + (sizeofBlockHeader + n))).isUsed = true
    · rw [if_pos hused]
      exact ⟨hprev, hother⟩
    · rw [if_neg hused]
      refine ⟨?_, fun c hc => ?_⟩
      · -- the block whose `prev` is repaired lies after the absorbed one
        rcases rest with _ | ⟨t, rest⟩
        · have hlast : ((releaseBlock h b).header (b + (sizeofBlockHeader + n))).next = none :=
            hrest
          simp [absorbBlock, Function.update_of_ne hne, hlast, setPrev, hprev]
        · have hlink := hrest.link
          have hfar : b ≠ b + (sizeofBlockHeader + n) + (sizeofBlockHeader + s.size) := by omega
          simp [absorbBlock, Function.update_of_ne hne, hlink, setPrev, hprev,
            Function.update_of_ne hfar]
      · rw [((absorbBlock_header hne).2 c hc).2.1]
        exact hother c hc

/-! ## The calls -/

/-- Block `b` is free and has room for `r` bytes. -/
def Suits (h : Heap) (r b : Nat) : Prop := (h.header b).isUsed = false ∧ r ≤ (h.header b).size

/-- **The first-fit loop** on a tiled heap finds the first block that suits. -/
theorem firstFit_spec {segs : List Segment} (hl : Lseg h (some 0) 0 segs none)
    (hwhole : span sizeofBlockHeader segs = heapSize) (r : Nat) :
    (firstFit h r = some none ∧ ∀ b ∈ starts sizeofBlockHeader 0 segs, ¬ Suits h r b) ∨
    ∃ pre n post, segs = pre ++ ⟨n, false⟩ :: post ∧ r ≤ n ∧
      firstFit h r = some (some (span sizeofBlockHeader pre)) ∧
      ∀ b ∈ starts sizeofBlockHeader 0 pre, ¬ Suits h r b := by
  have hfails : ∀ {b}, (!(h.header b).isUsed && decide (r ≤ (h.header b).size)) = false →
      ¬ Suits h r b := by
    intro b hb hsuits
    rw [hsuits.1, Bool.not_false, Bool.true_and, decide_eq_false_iff_not] at hb
    exact hb hsuits.2
  rcases search_lseg (fun b => !(h.header b).isUsed && decide (r ≤ (h.header b).size))
      hl (length_lt_heapSize hwhole) with
    ⟨hnone, hall⟩ | ⟨pre, s, post, rfl, hfound, htest, hbefore⟩
  · exact Or.inl ⟨hnone, fun b hb => hfails (hall b hb)⟩
  · right
    rw [Nat.zero_add] at hfound htest
    obtain ⟨-, hs, hu, -⟩ := hl.at_block rfl
    simp only [hs, hu, Bool.and_eq_true, Bool.not_eq_true', decide_eq_true_eq] at htest
    obtain ⟨n, u⟩ := s
    obtain ⟨rfl, hle⟩ := htest
    exact ⟨pre, n, post, rfl, hle, hfound, fun b hb => hfails (hbefore b hb)⟩

/-- A free block counts as available. -/
theorem Tracks.suits_le {segs : List Segment} {r b : Nat} (hrep : Tracks h segs)
    (hb : b ∈ starts sizeofBlockHeader 0 segs) (hs : Suits h r b) : r < h.availableBytes := by
  have hS := sizeofBlockHeader_eq
  obtain ⟨pre, s, post, rfl, rfl⟩ := mem_starts.mp hb
  rw [Nat.zero_add] at hs
  obtain ⟨-, hsize, hused, -⟩ := hrep.at_block rfl
  obtain ⟨hfree, hle⟩ := hs
  have havail := hrep.available
  rw [hused] at hfree
  simp only [freeBytes_append, freeBytes, hfree, Bool.false_eq_true, if_false] at havail
  omega

/-- **`mem_alloc` on a tiled heap** returns.  It takes the first free block that
is large enough; if there is none it returns `NULL` and changes nothing. -/
theorem memAlloc_spec {segs : List Segment} (hrep : Tracks h segs) (size : Int) :
    (memAlloc h size = some (none, h) ∧ (size ≤ 0 ∨
      ∀ b ∈ starts sizeofBlockHeader 0 segs, ¬ Suits h (roundedSize size) b)) ∨
    ∃ pre n post, segs = pre ++ ⟨n, false⟩ :: post ∧ 0 < size ∧
      size.toNat ≤ h.availableBytes ∧ roundedSize size ≤ n ∧
      firstFit h (roundedSize size) = some (some (span sizeofBlockHeader pre)) ∧
      (∀ b ∈ starts sizeofBlockHeader 0 pre, ¬ Suits h (roundedSize size) b) ∧
      memAlloc h size = some (some (span sizeofBlockHeader pre + sizeofBlockHeader),
        takeBlock h (span sizeofBlockHeader pre) (roundedSize size)) := by
  rw [memAlloc]
  by_cases hsize : size ≤ 0
  · exact Or.inl ⟨if_pos hsize, Or.inl hsize⟩
  by_cases hav : h.availableBytes < size.toNat
  · left
    rw [if_neg hsize, if_pos hav]
    refine ⟨rfl, Or.inr fun b hb hsuits => ?_⟩
    -- the counter is above every free payload
    have hle := hrep.suits_le hb hsuits
    have := (roundedSize_spec (by omega : 0 < size)).2.1
    omega
  rw [if_neg hsize, if_neg hav]
  rcases firstFit_spec hrep.chain hrep.whole (roundedSize size) with
    ⟨hnone, hall⟩ | ⟨pre, n, post, rfl, hle, hfound, hbefore⟩
  · left
    rw [hnone]
    exact ⟨rfl, Or.inr hall⟩
  · right
    refine ⟨pre, n, post, rfl, by omega, by omega, hle, hfound, hbefore, ?_⟩
    rw [hfound]

/-- **`mem_free` on a tiled heap** returns.  It releases the block of the pointer
when that block is in use, and otherwise returns `ERROR` and changes nothing. -/
theorem memFree_spec {segs : List Segment} (hrep : Tracks h segs) (ptr : Option Int) :
    (∃ pre n post, segs = pre ++ ⟨n, true⟩ :: post ∧
      ptr = some ((span sizeofBlockHeader pre : Int) + sizeofBlockHeader) ∧
      memFree h ptr = some (noError, mergeBackward
        (mergeForward (releaseBlock h (span sizeofBlockHeader pre))
          (span sizeofBlockHeader pre)) (span sizeofBlockHeader pre))) ∨
    (memFree h ptr = some (error, h) ∧ ∀ x ∈ usedAt sizeofBlockHeader 0 segs,
      ptr ≠ some ((x.1 : Int) + sizeofBlockHeader)) := by
  have hH := heapSize_eq
  have hS := sizeofBlockHeader_eq
  obtain ⟨havail, -⟩ := hrep.memAvail_eq
  unfold memFree
  by_cases hearly : (heapSize : Int) ≤ memAvail h
  · right
    refine ⟨if_pos hearly, fun x hx => ?_⟩
    -- the counter leaves out a used block or its header
    obtain ⟨pre, post, hsegs, -⟩ := mem_usedAt.mp hx
    have hle := hrep.used_room hx
    have havail := hrep.available
    rcases hlen : segs.length with _ | _ | len
    · simp [hsegs] at hlen
    · obtain rfl : pre = [] := by
        rw [hsegs, List.length_append, List.length_cons] at hlen
        exact List.length_eq_zero_iff.mp (by omega)
      obtain rfl : post = [] := by
        rw [hsegs] at hlen
        simpa using hlen
      rw [hsegs] at havail
      simp only [List.nil_append, freeBytes, if_true] at havail
      omega
    · rw [hlen] at hle
      omega
  rw [if_neg hearly]
  cases ptr with
  | none => exact Or.inr ⟨rfl, fun x _ => by simp⟩
  | some p =>
      rcases search_lseg (fun b => decide ((b : Int) = p - sizeofBlockHeader))
          hrep.chain (length_lt_heapSize hrep.whole) with
        ⟨hnone, hall⟩ | ⟨pre, s, post, rfl, hfound, htest, hbefore⟩
      · right
        refine ⟨by simp only [hnone], fun x hx heq => ?_⟩
        obtain ⟨pre, post, hsegs, hx1⟩ := mem_usedAt.mp hx
        have hmem : x.1 ∈ starts sizeofBlockHeader 0 segs := by
          rw [hsegs, starts_append, hx1]
          simp [starts]
        have := hall x.1 hmem
        simp only [Option.some.injEq] at heq
        simp only [decide_eq_false_iff_not] at this
        omega
      · rw [Nat.zero_add] at hfound htest
        simp only [decide_eq_true_eq] at htest
        obtain ⟨-, -, hu, -⟩ := hrep.at_block rfl
        simp only [hfound, hu]
        obtain ⟨n, _ | _⟩ := s
        · right
          refine ⟨rfl, fun x hx heq => ?_⟩
          obtain ⟨pre', post', hsegs, hx1⟩ := mem_usedAt.mp hx
          rw [hsegs] at hrep
          obtain ⟨-, -, hu', -⟩ := hrep.at_block rfl
          simp only [Option.some.injEq] at heq
          have hsame : span sizeofBlockHeader pre' = span sizeofBlockHeader pre := by omega
          rw [hsame, hu] at hu'
          exact Bool.false_ne_true hu'
        · left
          exact ⟨pre, n, post, rfl, by simp only [Option.some.injEq]; omega, rfl⟩

end PingPongOS
