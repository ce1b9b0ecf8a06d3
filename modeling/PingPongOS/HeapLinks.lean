import PingPongOS.HeapRuns

/-!
# The links of the block list

`mem_free` merges backwards through `prev`, so the list has to be linked both ways:
`b->next = n` exactly when `n->prev = b`.  `mem_alloc` breaks this: when it splits a
block it links the remainder in both directions to the block before, but the block after
the remainder keeps pointing back at the block that was split.  So splitting keeps the
list doubly linked exactly where the block is the last.
-/

namespace PingPongOS

open Tiling Runs

/-- The `prev` links of consecutive blocks, the first at `a` with `p` for its own. -/
def Backlinks (h : Heap) : Option Nat → Nat → List Segment → Prop
  | _, _, [] => True
  | p, a, s :: rest =>
      (h.header a).prev = p ∧ Backlinks h (some a) (a + (sizeofBlockHeader + s.size)) rest

/-- The last of consecutive blocks, the first at `a`; `p` if there is none. -/
def lastBlock : Option Nat → Nat → List Segment → Option Nat
  | p, _, [] => p
  | _, a, s :: rest => lastBlock (some a) (a + (sizeofBlockHeader + s.size)) rest

/-- `b->next = n` exactly when `n->prev = b`. -/
def DoublyLinked (h : Heap) (bs : List Nat) : Prop :=
  ∀ n ∈ bs, ∀ b, (h.header n).prev = some b ↔ b ∈ bs ∧ (h.header b).next = some n

/-- **A well-formed heap** of these blocks: they tile it, they are linked both ways, and
no two neighbours are free. -/
structure WellFormed (h : Heap) (bs : List Nat) : Prop where
  reached : Follows h (some 0) bs
  tiled : Tiles h 0 bs
  linked : DoublyLinked h bs
  coalesced : bs.IsChain fun b c => (h.header b).isUsed = true ∨ (h.header c).isUsed = true

/-- The sizes are positive multiples of 16. -/
def Sizes16 (h : Heap) (bs : List Nat) : Prop :=
  ∀ b ∈ bs, 0 < (h.header b).size ∧ 16 ∣ (h.header b).size

/-- The heap is tiled by `segs`, linked both ways, and coalesced. -/
structure LinkedTiling (h : Heap) (segs : List Segment) : Prop where
  chain : Lseg h (some 0) 0 segs none
  whole : span sizeofBlockHeader segs = heapSize
  back : Backlinks h none 0 segs
  coalesced : Coalesced segs

variable {h h' : Heap} {segs pre post : List Segment} {s : Segment} {p : Option Nat}
  {a b n m : Nat} {bs : List Nat}

theorem backlinks_append {xs ys : List Segment} :
    Backlinks h p a (xs ++ ys) ↔ Backlinks h p a xs ∧
      Backlinks h (lastBlock p a xs) (a + span sizeofBlockHeader xs) ys := by
  induction xs generalizing p a with
  | nil => simp [Backlinks, lastBlock, span]
  | cons s xs ih =>
      simp only [List.cons_append, Backlinks, lastBlock, ih, span, Nat.add_assoc, and_assoc]

theorem lastBlock_snoc :
    lastBlock p a (pre ++ [s]) = some (a + span sizeofBlockHeader pre) := by
  induction pre generalizing p a with
  | nil => simp [lastBlock, span]
  | cons t pre ih =>
      rw [List.cons_append, lastBlock, ih, span, Nat.add_assoc]

/-- Back links read only the `prev` fields at the starts. -/
theorem Backlinks.congr (hl : Backlinks h p a segs)
    (heq : ∀ b ∈ starts sizeofBlockHeader a segs, (h'.header b).prev = (h.header b).prev) :
    Backlinks h' p a segs := by
  induction segs generalizing p a with
  | nil => trivial
  | cons s segs ih =>
      obtain ⟨hp, hrest⟩ := hl
      refine ⟨(heq a List.mem_cons_self).trans hp, ih hrest fun b hb => ?_⟩
      exact heq b (List.mem_cons_of_mem _ hb)

/-- The block a block points to starts where it ends. -/
theorem Lseg.next_of_block (hl : Lseg h (some 0) 0 (pre ++ s :: post) none)
    (hb : b = span sizeofBlockHeader pre) {c : Nat} (hc : (h.header b).next = some c) :
    c = b + (sizeofBlockHeader + s.size) ∧ post ≠ [] :=
  (hl.at_block hb).2.2.2.next_eq hc

/-- **One block points to each block but the first**: the one before it. -/
theorem Lseg.next_iff {t : Segment} (hl : Lseg h (some 0) 0 (pre ++ s :: t :: post) none)
    (hb : b = span sizeofBlockHeader pre) {q : Nat} :
    q ∈ starts sizeofBlockHeader 0 (pre ++ s :: t :: post) ∧
        (h.header q).next = some (b + (sizeofBlockHeader + s.size)) ↔ q = b := by
  have hS := sizeofBlockHeader_eq
  constructor
  · intro hq
    obtain ⟨hmem, hnext⟩ := hq
    obtain ⟨pre', u, post', hsegs, hq⟩ := mem_starts.mp hmem
    rw [Nat.zero_add] at hq
    rw [hsegs] at hl
    obtain ⟨hend, -⟩ := hl.next_of_block hq hnext
    -- of two blocks the one that starts first has ended where the other starts
    rw [starts_around, Nat.zero_add, ← hb, List.mem_append, List.mem_cons] at hmem
    rcases hmem with hmem | rfl | hmem
    · have hbs : b ∈ starts sizeofBlockHeader 0 (pre' ++ u :: post') := by
        rw [← hsegs, starts_around, Nat.zero_add, ← hb]
        simp
      rw [starts_around, Nat.zero_add, ← hq, List.mem_append, List.mem_cons] at hbs
      have hlt := (starts_bounds hmem).2
      rcases hbs with hbs | rfl | hbs
      · have := (starts_bounds hbs).2
        omega
      · rfl
      · have := (starts_bounds hbs).1
        omega
    · rfl
    · have := (starts_bounds hmem).1
      omega
  · rintro rfl
    refine ⟨?_, (hl.at_block hb).2.2.2.link⟩
    rw [starts_around, Nat.zero_add, ← hb]
    simp

/-- No block points to the first. -/
theorem Lseg.next_ne_zero (hl : Lseg h (some 0) 0 segs none)
    (hq : b ∈ starts sizeofBlockHeader 0 segs) : (h.header b).next ≠ some 0 := by
  have hS := sizeofBlockHeader_eq
  intro hnext
  obtain ⟨pre, s, post, rfl, hb⟩ := mem_starts.mp hq
  rw [Nat.zero_add] at hb
  have := (hl.next_of_block hb hnext).1
  omega

/-- Along a list, back links to the blocks before are what makes it doubly linked. -/
theorem Lseg.backlinks_tail (hl : Lseg h (some 0) 0 segs none)
    (hlink : DoublyLinked h (starts sizeofBlockHeader 0 segs)) (hsegs : segs = pre ++ post) :
    Backlinks h (lastBlock none 0 pre) (span sizeofBlockHeader pre) post := by
  induction post generalizing pre with
  | nil => trivial
  | cons s post ih =>
      have hmem : span sizeofBlockHeader pre ∈ starts sizeofBlockHeader 0 segs :=
        mem_starts.mpr ⟨pre, s, post, hsegs, (Nat.zero_add _).symm⟩
      have hrest : Backlinks h (lastBlock none 0 (pre ++ [s]))
          (span sizeofBlockHeader (pre ++ [s])) post :=
        ih (by rw [hsegs, List.append_assoc]; rfl)
      rw [lastBlock_snoc, Nat.zero_add, span_append] at hrest
      refine ⟨?_, hrest⟩
      rcases List.eq_nil_or_concat' pre with rfl | ⟨pre, q, rfl⟩
      · cases hprev : (h.header (span sizeofBlockHeader [])).prev with
        | none => rfl
        | some c =>
            obtain ⟨hc, hnext⟩ := (hlink _ hmem c).mp hprev
            exact absurd hnext (hl.next_ne_zero hc)
      · rw [List.append_assoc, List.singleton_append] at hsegs
        rw [lastBlock_snoc, Nat.zero_add]
        refine (hlink _ hmem _).mpr ?_
        rw [hsegs] at hl ⊢
        have hiff := (hl.next_iff rfl (q := span sizeofBlockHeader pre)).mpr rfl
        rwa [show span sizeofBlockHeader (pre ++ [q]) =
          span sizeofBlockHeader pre + (sizeofBlockHeader + q.size) by simp [span]]

/-- **A list is doubly linked** exactly where each block points back to the one before
it, and the first to none. -/
theorem Lseg.doublyLinked_iff (hl : Lseg h (some 0) 0 segs none) :
    DoublyLinked h (starts sizeofBlockHeader 0 segs) ↔ Backlinks h none 0 segs := by
  constructor
  · intro hlink
    have hback : Backlinks h (lastBlock none 0 []) (span sizeofBlockHeader []) segs :=
      hl.backlinks_tail hlink rfl
    exact hback
  · intro hback n hn b
    obtain ⟨pre, s, post, rfl, rfl⟩ := mem_starts.mp hn
    rw [Nat.zero_add]
    have hprev := (backlinks_append.mp hback).2.1
    rw [Nat.zero_add] at hprev
    rw [hprev]
    rcases List.eq_nil_or_concat' pre with rfl | ⟨pre, q, rfl⟩
    · refine iff_of_false (by simp [lastBlock]) fun hb => ?_
      exact hl.next_ne_zero hb.1 hb.2
    · rw [lastBlock_snoc, Nat.zero_add]
      rw [List.append_assoc, List.singleton_append] at hl ⊢
      have hiff := hl.next_iff rfl (q := b)
      rw [show span sizeofBlockHeader (pre ++ [q]) =
        span sizeofBlockHeader pre + (sizeofBlockHeader + q.size) by simp [span], hiff]
      simp [eq_comm]

/-- The use flags of neighbours are those of their segments. -/
theorem Lseg.coalesced_iff {x y : Option Nat} (hl : Lseg h x a segs y) :
    (starts sizeofBlockHeader a segs).IsChain
        (fun b c => (h.header b).isUsed = true ∨ (h.header c).isUsed = true) ↔
      Coalesced segs := by
  unfold Coalesced
  induction segs generalizing x a with
  | nil => simp [starts]
  | cons s segs ih =>
      obtain ⟨-, -, hu, hrest⟩ := hl
      cases segs with
      | nil => simp [starts]
      | cons t segs =>
          have hut := hrest.2.2.1
          have hih := ih hrest
          rw [starts] at hih
          rw [starts, starts, List.isChain_cons_cons, List.isChain_cons_cons, hu, hut, hih]

/-- **A well-formed heap** is a linked tiling, seen from its blocks. -/
theorem wellFormed_iff : WellFormed h bs ↔
    ∃ segs, bs = starts sizeofBlockHeader 0 segs ∧ LinkedTiling h segs := by
  constructor
  · intro hw
    obtain ⟨hl, hspan⟩ := HeapTiled.lseg hw.reached hw.tiled
    have hbs := hw.reached.unique hl.follows
    refine ⟨_, hbs, hl, by rw [← hspan, Nat.zero_add], ?_, ?_⟩
    · rw [← hl.doublyLinked_iff, ← hbs]
      exact hw.linked
    · rw [← hl.coalesced_iff, ← hbs]
      exact hw.coalesced
  · rintro ⟨segs, rfl, hlinked⟩
    have hl := hlinked.chain
    exact ⟨hl.follows, hl.tiles (by rw [hlinked.whole, Nat.zero_add]),
      hl.doublyLinked_iff.mpr hlinked.back, hl.coalesced_iff.mpr hlinked.coalesced⟩

/-- The sizes of the blocks are those of their segments. -/
theorem Lseg.sizes16_iff (hl : Lseg h (some 0) 0 segs none) :
    Sizes16 h (starts sizeofBlockHeader 0 segs) ↔ Granular 16 segs := by
  constructor
  · intro hs t ht
    obtain ⟨pre, post, rfl⟩ := List.append_of_mem ht
    have hmem := hs (span sizeofBlockHeader pre)
      (mem_starts.mpr ⟨pre, t, post, rfl, (Nat.zero_add _).symm⟩)
    rwa [(hl.at_block rfl).2.1] at hmem
  · intro hg b hb
    obtain ⟨pre, t, post, rfl, rfl⟩ := mem_starts.mp hb
    rw [Nat.zero_add, (hl.at_block rfl).2.1]
    exact hg t (by simp)

/-! ## Splitting -/

/-- Splitting writes the `prev` field of the remainder and no other. -/
theorem takeBlock_prev {r : Nat} (hsize : (h.header b).size = n) (hn : n < 2 ^ 32)
    (hfit : r + sizeofBlockHeader + 16 ≤ n) (c : Nat) :
    ((takeBlock h b r).header c).prev =
      if c = b + (sizeofBlockHeader + r) then some b else (h.header c).prev := by
  obtain ⟨hself, hnew⟩ := takeBlock_split_header hsize hn hfit
  have hS := sizeofBlockHeader_eq
  by_cases hc : c = b + (sizeofBlockHeader + r)
  · rw [if_pos hc, hc, hnew]
  · rw [if_neg hc]
    by_cases hcb : c = b
    · rw [hcb, hself]
    · rw [takeBlock_header_of_ne hcb hc]

/-- **Splitting the last block** keeps the list linked. -/
theorem LinkedTiling.split_last {r : Nat} (hl : LinkedTiling h (pre ++ [⟨n, false⟩]))
    (hb : b = span sizeofBlockHeader pre) (hn : n < 2 ^ 32)
    (hfit : r + sizeofBlockHeader + 16 ≤ n) :
    LinkedTiling (takeBlock h b r) (pre ++ take sizeofBlockHeader 16 r n) := by
  have hS := sizeofBlockHeader_eq
  obtain ⟨-, hsize, -, -⟩ := hl.chain.at_block hb
  have hprev := takeBlock_prev hsize hn hfit
  have hchain := takeBlock_chain hl.chain hn hb (r := r) (by omega)
  have hco : Coalesced (pre ++ take sizeofBlockHeader 16 r n ++ []) :=
    coalesced_take hl.coalesced
  rw [List.append_nil] at hchain hco
  obtain ⟨hpre, hself⟩ := backlinks_append.mp hl.back
  have hwhole := hl.whole
  refine ⟨hchain, ?_, backlinks_append.mpr ⟨hpre.congr fun c hc => ?_, ?_⟩, hco⟩
  · simp only [span_append, span, span_take] at hwhole ⊢
    exact hwhole
  · have := (starts_bounds hc).2
    rw [hprev, if_neg (by omega)]
  · rw [take, if_pos hfit]
    rw [Nat.zero_add, ← hb] at hself ⊢
    refine ⟨?_, ?_, trivial⟩
    · rw [hprev, if_neg (by omega)]
      exact hself.1
    · rw [hprev, if_pos rfl]

/-- The block after the remainder of a split still points back to the block split. -/
theorem LinkedTiling.split_stale {t : Segment} {r : Nat}
    (hl : LinkedTiling h (pre ++ ⟨n, false⟩ :: t :: post)) (hb : b = span sizeofBlockHeader pre)
    (hn : n < 2 ^ 32) (hfit : r + sizeofBlockHeader + 16 ≤ n) :
    ¬ DoublyLinked (takeBlock h b r) (starts sizeofBlockHeader 0
      (pre ++ (take sizeofBlockHeader 16 r n ++ t :: post))) := by
  have hS := sizeofBlockHeader_eq
  obtain ⟨-, hsize, -, -⟩ := hl.chain.at_block hb
  have hprev := takeBlock_prev hsize hn hfit
  have hchain := takeBlock_chain hl.chain hn hb (r := r) (by omega)
  rw [hchain.doublyLinked_iff]
  intro hback
  have hold := (backlinks_append.mp hl.back).2.2.1
  rw [take, if_pos hfit] at hback
  have hnew := (backlinks_append.mp hback).2.2.2.1
  simp only [Nat.zero_add, ← hb] at hold hnew
  rw [show b + (sizeofBlockHeader + r) + (sizeofBlockHeader + (n - r - sizeofBlockHeader)) =
    b + (sizeofBlockHeader + n) by omega, hprev, if_neg (by omega), hold] at hnew
  have := Option.some.inj hnew
  omega

/-- A call of `mem_alloc` that the counter lets pass. -/
theorem memAlloc_of_firstFit {size : Int} (hpos : 0 < size)
    (hav : ¬ h.availableBytes < size.toNat)
    (hfit : firstFit h (roundedSize size) = some (some b)) :
    memAlloc h size = some (some (b + sizeofBlockHeader), takeBlock h b (roundedSize size)) := by
  rw [memAlloc, if_neg (by omega), if_neg hav, hfit]

/-- **Splitting keeps the heap well-formed** exactly where the block chosen is the last
of the list, or the counter refuses the request. -/
theorem split_wellFormed_iff {size : Int} (hw : WellFormed h bs) (hsizes : Sizes16 h bs)
    (hpos : 0 < size) (hfit : firstFit h (roundedSize size) = some (some b))
    (hroom : roundedSize size + 48 ≤ (h.header b).size) :
    (∃ p h' bs', memAlloc h size = some (p, h') ∧ WellFormed h' bs' ∧ Sizes16 h' bs') ↔
      h.availableBytes < size.toNat ∨ (h.header b).next = none := by
  have hS := sizeofBlockHeader_eq
  have hH := heapSize_eq
  by_cases hav : h.availableBytes < size.toNat
  · refine iff_of_true ⟨none, h, bs, ?_, hw, hsizes⟩ (Or.inl hav)
    rw [memAlloc, if_neg (by omega), if_pos hav]
  have hcall := memAlloc_of_firstFit hpos hav hfit
  obtain ⟨segs, rfl, hl⟩ := wellFormed_iff.mp hw
  rcases firstFit_spec hl.chain hl.whole (roundedSize size) with
    ⟨hnone, -⟩ | ⟨pre, n, post, rfl, -, hfound, -⟩
  · exact absurd (hnone.symm.trans hfit) (by simp)
  obtain rfl : span sizeofBlockHeader pre = b :=
    Option.some.inj (Option.some.inj (hfound.symm.trans hfit))
  obtain ⟨-, hsize, -, hpost⟩ := hl.chain.at_block rfl
  have hwhole := hl.whole
  simp only [span_append, span] at hwhole
  have hn : n < 2 ^ 32 := by omega
  simp only at hsize
  have hsplit : roundedSize size + sizeofBlockHeader + 16 ≤ n := by omega
  cases post with
  | nil =>
      refine iff_of_true ⟨_, _, _, hcall, wellFormed_iff.mpr ⟨_, rfl,
        hl.split_last rfl hn hsplit⟩, ?_⟩ (Or.inr hpost)
      have hgran := hl.chain.sizes16_iff.mp hsizes
      obtain ⟨hgpre, hgn⟩ := Granular.append.mp hgran
      obtain ⟨hdvd, hle, -⟩ := roundedSize_spec hpos
      exact (hl.split_last rfl hn hsplit).chain.sizes16_iff.mpr (Granular.append.mpr
        ⟨hgpre, granular_take (by omega) ⟨by omega, hdvd⟩ (hgn ⟨n, false⟩ (by simp))
          (by rw [hS]; decide)⟩)
  | cons t post =>
      refine iff_of_false ?_ ?_
      · rintro ⟨p, h', bs', hcall', hw', -⟩
        obtain ⟨-, rfl⟩ := Prod.mk.inj (Option.some.inj (hcall.symm.trans hcall'))
        have hchain := takeBlock_chain hl.chain hn rfl (r := roundedSize size) (by omega)
        obtain rfl := hw'.reached.unique hchain.follows
        exact hl.split_stale rfl hn hsplit hw'.linked
      · rintro (hlt | hnext)
        · exact hav hlt
        · exact absurd (hpost.link.symm.trans hnext) (by simp)

/-- The heap that `mem_init` leaves. -/
theorem linked_memInit : LinkedTiling memInit [⟨heapSize - sizeofBlockHeader, false⟩] := by
  have hrep := tiledBy_start.1
  exact ⟨hrep.chain, hrep.whole, ⟨rfl, trivial⟩, List.isChain_singleton _⟩

theorem wellFormed_memInit : WellFormed memInit [0] :=
  wellFormed_iff.mpr ⟨_, rfl, linked_memInit⟩

/-- The first allocation splits the only block. -/
theorem split_wellFormed_first : ∃ p h' bs', memAlloc memInit 100 = some (p, h') ∧
    WellFormed h' bs' ∧ Sizes16 h' bs' :=
  (split_wellFormed_iff wellFormed_memInit tiledBy_start.1.heapTiled.sizes (by decide)
    (b := 0) (by decide +kernel) (by decide +kernel)).mpr (Or.inr rfl)

/-- **A split in the middle.**  The block of 112 bytes in front of one of 16 is freed and
split; the block at 144 keeps pointing back to it, past the remainder. -/
theorem split_stale_link : ∃ w, run HeapRun.step HeapRun.start
      [.alloc 112, .alloc 16, .free (some 32)] = some w ∧
    WellFormed w.heap [0, 144, 192] ∧ Sizes16 w.heap [0, 144, 192] ∧
    firstFit w.heap (roundedSize 16) = some (some 0) ∧
    roundedSize 16 + 48 ≤ (w.heap.header 0).size ∧
    ¬ ∃ p h' bs', memAlloc w.heap 16 = some (p, h') ∧ WellFormed h' bs' ∧ Sizes16 h' bs' := by
  have hrun : (run HeapRun.step HeapRun.start [.alloc 112, .alloc 16, .free (some 32)]).any
      (fun w => decide (w.heap.header 0 = ⟨0, 112, false, some 144, none⟩ ∧
        w.heap.header 144 = ⟨1, 16, true, some 192, some 0⟩ ∧
        w.heap.header 192 = ⟨2, 67108640, false, none, some 144⟩ ∧
        firstFit w.heap (roundedSize 16) = some (some 0)) &&
        (memAlloc w.heap 16).any fun r => decide ((r.2.header 0).next = some 48 ∧
          (r.2.header 48).next = some 144 ∧ (r.2.header 144).next = some 192 ∧
          (r.2.header 192).next = none ∧ (r.2.header 144).prev = some 0)) = true := by
    decide +kernel
  simp only [Option.any_eq_true, Bool.and_eq_true, decide_eq_true_eq] at hrun
  obtain ⟨w, hw, ⟨h0, h144, h192, hfit⟩, r, hr, n0, n48, n144, n192, p144⟩ := hrun
  refine ⟨w, hw, ⟨?_, ?_, ?_, ?_⟩, ?_, hfit, ?_, ?_⟩
  · simp [Follows, h0, h144, h192]
  · simp [Tiles, h0, h144, h192, sizeofBlockHeader_eq, heapSize_eq]
  · intro n hn b
    simp only [List.mem_cons, List.not_mem_nil, or_false] at hn ⊢
    rcases hn with rfl | rfl | rfl
    · rw [h0]
      simp
      rintro (rfl | rfl | rfl) <;> simp [h0, h144, h192]
    · rw [h144]
      constructor
      · rintro ⟨⟩
        simp [h0]
      · rintro ⟨rfl | rfl | rfl, hb⟩ <;> simp_all
    · rw [h192]
      constructor
      · rintro ⟨⟩
        simp [h144]
      · rintro ⟨rfl | rfl | rfl, hb⟩ <;> simp_all
  · simp [h0, h144, h192]
  · simp [Sizes16, h0, h144, h192]
  · rw [h0]
    decide
  · rintro ⟨p, h', bs', hcall, hwf, -⟩
    obtain rfl : r = (p, h') := Option.some.inj (hr.symm.trans hcall)
    have hbs : bs' = [0, 48, 144, 192] :=
      hwf.reached.unique ⟨rfl, n0, n48, n144, n192⟩
    subst hbs
    have hback := (hwf.linked 144 (by simp) 48).mpr ⟨by simp, n48⟩
    exact absurd (p144.symm.trans hback) (by decide)

end PingPongOS
