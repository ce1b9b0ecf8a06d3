import PingPongOS.HeapRefinement
import PingPongOS.Runs
import Mathlib.Data.List.Infix

/-!
# Runs of `mem_alloc` and `mem_free`

A run starts from `mem_init` and makes any sequence of calls; the allocations
returned and not yet freed are kept beside the heap.  The block list stays an
exact tiling in every run that avoids two slips of the code: `mem_alloc` takes a
block less than a header larger than the rounded request (the split test then
wraps and a bogus header is written), and `mem_free` merges through a `prev`
link that an earlier split left stale.
-/

namespace PingPongOS

open Tiling Runs

/-- A call of the allocator by the program. -/
inductive HeapCall
  | alloc (size : Int)
  | free (ptr : Option Int)

/-- The heap, with the pointer and the requested size of each live allocation. -/
structure HeapRun where
  heap : Heap
  live : List (Nat × Int)

namespace HeapRun

def start : HeapRun := ⟨memInit, []⟩

/-- One call; `none` is a call that does not return. -/
def step (w : HeapRun) : HeapCall → Option HeapRun
  | .alloc size =>
      (memAlloc w.heap size).map fun r =>
        match r.1 with
        | none => ⟨r.2, w.live⟩
        | some p => ⟨r.2, (p, size) :: w.live⟩
  | .free ptr =>
      (memFree w.heap ptr).map fun r =>
        if r.1 = noError then ⟨r.2, w.live.filter fun a => ptr ≠ some (a.1 : Int)⟩
        else ⟨r.2, w.live⟩

end HeapRun

/-- Following `next` from `x` visits exactly these blocks. -/
def Follows (h : Heap) : Option Nat → List Nat → Prop
  | x, [] => x = none
  | x, b :: bs => x = some b ∧ Follows h (h.header b).next bs

/-- Each block starts where the one before it ends, and the last one ends the
heap. -/
def Tiles (h : Heap) : Nat → List Nat → Prop
  | a, [] => a = heapSize
  | a, b :: bs => b = a ∧ Tiles h (b + (sizeofBlockHeader + (h.header b).size)) bs

/-- The blocks of a well-formed heap. -/
structure HeapTiled (h : Heap) (bs : List Nat) : Prop where
  reached : Follows h (some 0) bs
  increasing : bs.Pairwise (· < ·)
  tiled : Tiles h 0 bs
  sizes : ∀ b ∈ bs, 0 < (h.header b).size ∧ 16 ∣ (h.header b).size

/-- The payload size of the block whose payload is at `p`. -/
def payloadSize (h : Heap) (p : Nat) : Nat := (h.header (p - sizeofBlockHeader)).size

/-- The heap is tiled, and the live allocations are aligned, disjoint parts of it
at least as long as requested. -/
structure HeapSound (w : HeapRun) : Prop where
  tiled : ∃ bs, HeapTiled w.heap bs
  inside : ∀ a ∈ w.live, sizeofBlockHeader ≤ a.1 ∧ a.1 + payloadSize w.heap a.1 ≤ heapSize
  aligned : ∀ a ∈ w.live, 16 ∣ a.1
  large : ∀ a ∈ w.live, a.2 ≤ payloadSize w.heap a.1
  disjoint : w.live.Pairwise fun a b =>
    a.1 + payloadSize w.heap a.1 ≤ b.1 ∨ b.1 + payloadSize w.heap b.1 ≤ a.1

/-- The calls that reach neither slip.  An allocation takes a block at least a
header larger than the rounded request; a release finds in the `prev` link of its
block the block before it, or else another block that is in use. -/
def TilingSafe (w : HeapRun) : HeapCall → Prop
  | .alloc size => ∀ b, 0 < size → size.toNat ≤ w.heap.availableBytes →
      firstFit w.heap (roundedSize size) = some (some b) →
      roundedSize size + sizeofBlockHeader ≤ (w.heap.header b).size
  | .free ptr => ∀ bs b q, Follows w.heap (some 0) bs → b ∈ bs →
      ptr = some ((b : Int) + sizeofBlockHeader) → (w.heap.header b).isUsed = true →
      (w.heap.header b).prev = some q →
      [q, b] <:+: bs ∨ (q ∈ bs ∧ q ≠ b ∧ (w.heap.header q).isUsed = true)

/-- The calls that also miss no backward merge: where the block before the
released one is free, the `prev` link is that block. -/
def MergeSafe (w : HeapRun) (c : HeapCall) : Prop :=
  TilingSafe w c ∧
    match c with
    | .alloc _ => True
    | .free ptr => ∀ bs b q, Follows w.heap (some 0) bs → b ∈ bs →
        ptr = some ((b : Int) + sizeofBlockHeader) → (w.heap.header b).isUsed = true →
        [q, b] <:+: bs → (w.heap.header q).isUsed = false →
        (w.heap.header b).prev = some q

/-! ## What a represented heap looks like -/

variable {h : Heap} {segs : List Segment}

theorem Follows.unique {x : Option Nat} {bs bs' : List Nat} (hf : Follows h x bs)
    (hf' : Follows h x bs') : bs = bs' := by
  induction bs generalizing x bs' with
  | nil =>
      cases bs' with
      | nil => rfl
      | cons b' bs' =>
          obtain ⟨hx, -⟩ := hf'
          rw [show x = none from hf] at hx
          exact absurd hx (by simp)
  | cons b bs ih =>
      obtain ⟨rfl, hrest⟩ := hf
      cases bs' with
      | nil => exact absurd (show some b = none from hf') (by simp)
      | cons b' bs' =>
          obtain ⟨hx, hrest'⟩ := hf'
          obtain rfl : b = b' := Option.some.inj hx
          rw [ih hrest hrest']

theorem Lseg.follows {x : Option Nat} {a : Nat} (hl : Lseg h x a segs none) :
    Follows h x (starts sizeofBlockHeader a segs) := by
  induction segs generalizing x a with
  | nil => exact hl
  | cons s segs ih =>
      obtain ⟨hx, -, -, hrest⟩ := hl
      exact ⟨hx, ih hrest⟩

theorem Lseg.tiles {x y : Option Nat} {a : Nat} (hl : Lseg h x a segs y)
    (hend : a + span sizeofBlockHeader segs = heapSize) :
    Tiles h a (starts sizeofBlockHeader a segs) := by
  induction segs generalizing x a with
  | nil => exact hend
  | cons s segs ih =>
      obtain ⟨-, hs, -, hrest⟩ := hl
      refine ⟨rfl, ?_⟩
      rw [hs]
      apply ih hrest
      simp only [span] at hend
      omega

theorem Represents.follows (hrep : Represents h segs) :
    Follows h (some 0) (starts sizeofBlockHeader 0 segs) := hrep.chain.follows

/-- A block list that spans the heap tiles it. -/
theorem Lseg.heapTiled (hl : Lseg h (some 0) 0 segs none)
    (hwhole : span sizeofBlockHeader segs = heapSize) (hgran : Granular 16 segs) :
    HeapTiled h (starts sizeofBlockHeader 0 segs) where
  reached := hl.follows
  increasing := starts_increasing (by rw [sizeofBlockHeader_eq]; decide) 0 segs
  tiled := hl.tiles (by rw [hwhole, Nat.zero_add])
  sizes := by
    intro b hb
    obtain ⟨pre, s, post, rfl, rfl⟩ := mem_starts.mp hb
    rw [Nat.zero_add, (hl.at_block rfl).2.1]
    exact hgran s (by simp)

theorem Represents.heapTiled (hrep : Represents h segs) :
    HeapTiled h (starts sizeofBlockHeader 0 segs) :=
  hrep.chain.heapTiled hrep.whole hrep.granular

/-- The tiling of a well-formed heap. -/
theorem HeapTiled.lseg {bs : List Nat} {x : Option Nat} {a : Nat} (hf : Follows h x bs)
    (ht : Tiles h a bs) :
    Lseg h x a (bs.map fun b => ⟨(h.header b).size, (h.header b).isUsed⟩) none ∧
      a + span sizeofBlockHeader (bs.map fun b => ⟨(h.header b).size, (h.header b).isUsed⟩) =
        heapSize := by
  induction bs generalizing x a with
  | nil => exact ⟨hf, ht⟩
  | cons b bs ih =>
      obtain ⟨hx, hf⟩ := hf
      obtain ⟨rfl, ht⟩ := ht
      obtain ⟨hl, hspan⟩ := ih hf ht
      refine ⟨⟨hx, rfl, rfl, hl⟩, ?_⟩
      simp only [List.map_cons, span]
      omega

/-- The block before `b` in the walk is the last segment before it. -/
theorem precedes_iff {pre post : List Segment} {s : Segment} {q b : Nat}
    (hb : b = span sizeofBlockHeader pre) :
    [q, b] <:+: starts sizeofBlockHeader 0 (pre ++ s :: post) ↔
      ∃ pre' p, pre = pre' ++ [p] ∧ q = span sizeofBlockHeader pre' := by
  have hS := sizeofBlockHeader_eq
  have hnodup : (starts sizeofBlockHeader 0 (pre ++ s :: post)).Nodup :=
    (starts_increasing (by omega) 0 _).imp Nat.ne_of_lt
  have hsplit : starts sizeofBlockHeader 0 (pre ++ s :: post) =
      starts sizeofBlockHeader 0 pre ++ b ::
        starts sizeofBlockHeader (b + (sizeofBlockHeader + s.size)) post := by
    rw [starts_append, Nat.zero_add, ← hb, starts]
  constructor
  · rintro ⟨l, r, heq⟩
    rw [hsplit] at heq hnodup
    have hleft : l ++ [q] = starts sizeofBlockHeader 0 pre := by
      have hcons : (l ++ [q]) ++ b :: r = starts sizeofBlockHeader 0 pre ++ b ::
          starts sizeofBlockHeader (b + (sizeofBlockHeader + s.size)) post := by
        rw [← heq]
        simp
      rw [← hcons] at hnodup
      obtain ⟨-, hright, hapart⟩ := List.nodup_append.mp hnodup
      have hbefore : b ∉ l ++ [q] := fun hm => hapart b hm b List.mem_cons_self rfl
      have hafter : b ∉ r := (List.nodup_cons.mp hright).1
      exact ((List.append_cons_inj_of_notMem hbefore hafter).mp hcons).1
    rcases List.eq_nil_or_concat' pre with rfl | ⟨pre', p, rfl⟩
    · simp [starts] at hleft
    · rw [starts_append, Nat.zero_add, starts, starts] at hleft
      exact ⟨pre', p, rfl, by simpa using (List.append_inj' hleft rfl).2⟩
  · rintro ⟨pre', p, rfl, rfl⟩
    rw [hsplit, starts_append, Nat.zero_add]
    exact ⟨starts sizeofBlockHeader 0 pre', _, by simp [starts]; rfl⟩

/-! ## The live allocations -/

/-- The live allocations are the used segments, each once, and each is at least
as long as requested. -/
structure LiveAre (live : List (Nat × Int)) (segs : List Segment) : Prop where
  nodup : (live.map Prod.fst).Nodup
  onlyLive : ∀ x ∈ usedAt sizeofBlockHeader 0 segs,
    x.1 + sizeofBlockHeader ∈ live.map Prod.fst
  used : ∀ a ∈ live, ∃ x ∈ usedAt sizeofBlockHeader 0 segs,
    a.1 = x.1 + sizeofBlockHeader ∧ a.2 ≤ x.2

/-- The header of a used block. -/
theorem Lseg.used_header (hl : Lseg h (some 0) 0 segs none) {x : Nat × Nat}
    (hx : x ∈ usedAt sizeofBlockHeader 0 segs) :
    (h.header x.1).size = x.2 ∧ (h.header x.1).isUsed = true := by
  obtain ⟨pre, post, rfl, hx1⟩ := mem_usedAt.mp hx
  rw [Nat.zero_add] at hx1
  obtain ⟨-, hs, hu, -⟩ := hl.at_block hx1
  exact ⟨hs, hu⟩

/-- A represented heap whose used segments are the live allocations is sound. -/
theorem heapSound_of_represents {w : HeapRun} (hrep : Represents w.heap segs)
    (hlive : LiveAre w.live segs) : HeapSound w := by
  have hS := sizeofBlockHeader_eq
  have hpayload : ∀ a ∈ w.live, ∃ x ∈ usedAt sizeofBlockHeader 0 segs,
      a.1 = x.1 + sizeofBlockHeader ∧ a.2 ≤ x.2 ∧ payloadSize w.heap a.1 = x.2 := by
    intro a ha
    obtain ⟨x, hx, hax, hle⟩ := hlive.used a ha
    refine ⟨x, hx, hax, hle, ?_⟩
    rw [payloadSize, hax, Nat.add_sub_cancel]
    exact (hrep.chain.used_header hx).1
  refine ⟨⟨_, hrep.heapTiled⟩, fun a ha => ?_, fun a ha => ?_, fun a ha => ?_, ?_⟩
  · obtain ⟨x, hx, hax, -, hsize⟩ := hpayload a ha
    have := (usedAt_bounds hx).2
    have := hrep.whole
    omega
  · obtain ⟨x, hx, hax, -, -⟩ := hpayload a ha
    obtain ⟨pre, post, hsegs, hx1⟩ := mem_usedAt.mp hx
    have hpre : Granular 16 pre := (Granular.append.mp (hsegs ▸ hrep.granular)).1
    have hdvd := dvd_span (g := 16) (by rw [hS]; decide : 16 ∣ sizeofBlockHeader) hpre
    omega
  · obtain ⟨x, -, -, hle, hsize⟩ := hpayload a ha
    rw [hsize]
    exact hle
  · refine List.Pairwise.imp_of_mem ?_ (List.pairwise_map.mp hlive.nodup)
    intro a b ha hb hne
    obtain ⟨x, hx, hax, -, hsx⟩ := hpayload a ha
    obtain ⟨y, hy, hby, -, hsy⟩ := hpayload b hb
    have hxy : x ≠ y := fun heq => hne (by rw [hax, hby, heq])
    rw [hsx, hsy, hax, hby]
    rcases usedAt_apart hx hy hxy with hlt | hlt
    · left
      omega
    · right
      omega

/-! ## What one call does to the tiling -/

/-- **Releasing a block refines releasing its segment.**  A `prev` link that is
the block before, or another block in use, keeps the tiling; if no backward merge
is missed either, the result is the coalescing release. -/
theorem memFree_block {pre post : List Segment} {n b : Nat}
    (hrep : Tracks h (pre ++ ⟨n, true⟩ :: post)) (hb : b = span sizeofBlockHeader pre)
    (hsafe : ∀ q, (h.header b).prev = some q →
      [q, b] <:+: starts sizeofBlockHeader 0 (pre ++ ⟨n, true⟩ :: post) ∨
        (q ≠ b ∧ (h.header q).isUsed = true)) :
    ∃ segs, Tracks (mergeBackward (mergeForward (releaseBlock h b) b) b) segs ∧
      (Granular 16 (pre ++ ⟨n, true⟩ :: post) → Granular 16 segs) ∧
      usedAt sizeofBlockHeader 0 segs = usedAt sizeofBlockHeader 0 pre ++
        usedAt sizeofBlockHeader (0 + span sizeofBlockHeader pre +
          (sizeofBlockHeader + n)) post ∧
      ((∀ q, [q, b] <:+: starts sizeofBlockHeader 0 (pre ++ ⟨n, true⟩ :: post) →
          (h.header q).isUsed = false → (h.header b).prev = some q) →
        segs = release sizeofBlockHeader pre n post) := by
  have hfwd := mergeForward_tracks (releaseBlock_tracks hrep hb) hb
  obtain ⟨hprev, hused⟩ := mergeForward_releaseBlock hrep hb
  have hdvd : 16 ∣ sizeofBlockHeader := by
    rw [sizeofBlockHeader_eq]
    decide
  have hgran : Granular 16 (pre ++ ⟨n, true⟩ :: post) →
      Granular 16 (pre ++ mergeNext sizeofBlockHeader n post) := by
    intro hg
    obtain ⟨hgpre, hgrest⟩ := Granular.append.mp hg
    obtain ⟨hgn, hgpost⟩ := granular_cons.mp hgrest
    exact Granular.append.mpr ⟨hgpre, granular_mergeNext hdvd hgn hgpost⟩
  have hkept : usedAt sizeofBlockHeader 0 (pre ++ mergeNext sizeofBlockHeader n post) =
      usedAt sizeofBlockHeader 0 pre ++ usedAt sizeofBlockHeader
        (0 + span sizeofBlockHeader pre + (sizeofBlockHeader + n)) post := by
    rw [usedAt_append, usedAt_mergeNext]
  -- without a backward merge the tiling is already released when the block
  -- before is in use or there is none
  have hrelease : (∀ pre' p, pre = pre' ++ [p] → p.used = true) →
      pre ++ mergeNext sizeofBlockHeader n post = release sizeofBlockHeader pre n post := by
    intro hlast
    rcases List.eq_nil_or_concat' pre with rfl | ⟨pre', p, rfl⟩
    · rfl
    · obtain ⟨m, rest, heq⟩ := mergeNext_eq_cons sizeofBlockHeader n post
      rw [release_snoc, heq, mergePrev, if_pos (hlast pre' p rfl), List.append_assoc]
      rfl
  have hpred : ∀ pre' p, pre = pre' ++ [p] →
      [span sizeofBlockHeader pre', b] <:+: starts sizeofBlockHeader 0
        (pre ++ ⟨n, true⟩ :: post) ∧
      (h.header (span sizeofBlockHeader pre')).isUsed = p.used := by
    rintro pre' p rfl
    refine ⟨(precedes_iff hb).mpr ⟨pre', p, rfl, rfl⟩, ?_⟩
    rw [List.append_assoc] at hrep
    exact (hrep.chain.at_block rfl).2.2.1
  cases hq : (h.header b).prev with
  | none =>
      have hsame : mergeBackward (mergeForward (releaseBlock h b) b) b =
          mergeForward (releaseBlock h b) b := by
        rw [mergeBackward, hprev, hq]
      rw [hsame]
      refine ⟨_, hfwd, hgran, hkept, fun hmerge => hrelease fun pre' p hpre => ?_⟩
      obtain ⟨hnear, hflag⟩ := hpred pre' p hpre
      by_contra hfree
      rw [← hflag, Bool.not_eq_true] at hfree
      exact Option.some_ne_none _ (hmerge _ hnear hfree).symm
  | some q =>
      rcases hsafe q hq with hnear | ⟨hqb, huq⟩
      · obtain ⟨pre', p, rfl, rfl⟩ := (precedes_iff hb).mp hnear
        obtain ⟨m, rest, heq⟩ := mergeNext_eq_cons sizeofBlockHeader n post
        rw [heq, List.append_assoc] at hfwd
        have hback := mergeBackward_tracks hfwd hb (hprev.trans hq)
        rw [← heq, ← release_snoc] at hback
        exact ⟨_, hback, granular_release hdvd, usedAt_release 0 n _ post, fun _ => rfl⟩
      · have hsame : mergeBackward (mergeForward (releaseBlock h b) b) b =
            mergeForward (releaseBlock h b) b := by
          rw [mergeBackward, hprev, hq]
          simp only [hused q hqb, huq, if_true]
        rw [hsame]
        refine ⟨_, hfwd, hgran, hkept, fun hmerge => hrelease fun pre' p hpre => ?_⟩
        obtain ⟨hnear, hflag⟩ := hpred pre' p hpre
        by_contra hfree
        rw [← hflag, Bool.not_eq_true] at hfree
        obtain rfl := Option.some.inj (hmerge _ hnear hfree)
        rw [hfree] at huq
        exact Bool.false_ne_true huq

/-- Taking a free segment adds one live allocation. -/
theorem LiveAre.take {live : List (Nat × Int)} {pre post : List Segment} {n r : Nat}
    {size : Int} (hlive : LiveAre live (pre ++ ⟨n, false⟩ :: post)) (hrn : r ≤ n)
    (hsize : size ≤ r) :
    LiveAre ((span sizeofBlockHeader pre + sizeofBlockHeader, size) :: live)
      (pre ++ (take sizeofBlockHeader 16 r n ++ post)) := by
  have hS := sizeofBlockHeader_eq
  obtain ⟨m, hrm, htake⟩ := @usedAt_take sizeofBlockHeader
    (0 + span sizeofBlockHeader pre) 16 r n hrn
  have hold : usedAt sizeofBlockHeader 0 (pre ++ ⟨n, false⟩ :: post) =
      usedAt sizeofBlockHeader 0 pre ++ usedAt sizeofBlockHeader
        (0 + span sizeofBlockHeader pre + (sizeofBlockHeader + n)) post :=
    usedAt_around 0 n false pre post
  have hnew : usedAt sizeofBlockHeader 0 (pre ++ (Tiling.take sizeofBlockHeader 16 r n ++ post)) =
      usedAt sizeofBlockHeader 0 pre ++ (span sizeofBlockHeader pre, m) ::
        usedAt sizeofBlockHeader (0 + span sizeofBlockHeader pre +
          (sizeofBlockHeader + n)) post := by
    rw [usedAt_append, usedAt_append, htake, span_take, Nat.zero_add]
    rfl
  refine ⟨?_, ?_, ?_⟩
  · refine List.nodup_cons.mpr ⟨?_, hlive.nodup⟩
    intro hmem
    obtain ⟨a, ha, hfst⟩ := List.mem_map.mp hmem
    obtain ⟨x, hx, hax, -⟩ := hlive.used a ha
    rw [hold] at hx
    have hne := ((mem_usedAt_around (by omega)).mp hx).2
    simp only at hfst
    omega
  · intro x hx
    rw [hnew] at hx
    rw [List.map_cons]
    rcases List.mem_append.mp hx with hx | hx
    · exact List.mem_cons_of_mem _ (hlive.onlyLive x
        (by rw [hold]; exact List.mem_append_left _ hx))
    rcases List.mem_cons.mp hx with rfl | hx
    · exact List.mem_cons_self
    · exact List.mem_cons_of_mem _ (hlive.onlyLive x
        (by rw [hold]; exact List.mem_append_right _ hx))
  · intro a ha
    rw [hnew]
    rcases List.mem_cons.mp ha with rfl | ha
    · exact ⟨_, List.mem_append_right _ List.mem_cons_self, rfl, by simp only; omega⟩
    · obtain ⟨x, hx, hax, hle⟩ := hlive.used a ha
      rw [hold] at hx
      refine ⟨x, ?_, hax, hle⟩
      rcases List.mem_append.mp hx with hx | hx
      · exact List.mem_append_left _ hx
      · exact List.mem_append_right _ (List.mem_cons_of_mem _ hx)

/-- Releasing a used segment removes its live allocation. -/
theorem LiveAre.release {live : List (Nat × Int)} {pre post segs' : List Segment} {n : Nat}
    (hlive : LiveAre live (pre ++ ⟨n, true⟩ :: post))
    (hsegs' : usedAt sizeofBlockHeader 0 segs' = usedAt sizeofBlockHeader 0 pre ++
        usedAt sizeofBlockHeader (0 + span sizeofBlockHeader pre +
          (sizeofBlockHeader + n)) post) :
    LiveAre (live.filter fun a => decide
      (some ((span sizeofBlockHeader pre : Int) + sizeofBlockHeader) ≠ some (a.1 : Int)))
      segs' := by
  have hS := sizeofBlockHeader_eq
  have hkept : ∀ x, x ∈ usedAt sizeofBlockHeader 0 segs' ↔
      x ∈ usedAt sizeofBlockHeader 0 (pre ++ ⟨n, true⟩ :: post) ∧
        x.1 ≠ 0 + span sizeofBlockHeader pre := by
    intro x
    rw [hsegs']
    exact mem_usedAt_around (by omega)
  refine ⟨?_, ?_, ?_⟩
  · exact (List.filter_sublist.map Prod.fst).nodup hlive.nodup
  · intro x hx
    obtain ⟨hxold, hne⟩ := (hkept x).mp hx
    obtain ⟨a, ha, hax⟩ := List.mem_map.mp (hlive.onlyLive x hxold)
    refine List.mem_map.mpr ⟨a, List.mem_filter.mpr ⟨ha, ?_⟩, hax⟩
    simp only [ne_eq, Option.some.injEq, decide_eq_true_eq]
    omega
  · intro a ha
    obtain ⟨ha, hne⟩ := List.mem_filter.mp ha
    simp only [ne_eq, Option.some.injEq, decide_eq_true_eq] at hne
    obtain ⟨x, hx, hax, hle⟩ := hlive.used a ha
    exact ⟨x, (hkept x).mpr ⟨hx, by omega⟩, hax, hle⟩

/-! ## Deciding the conditions -/

/-- The blocks that following `next` from `x` visits, if there are at most `n`. -/
def blocksFrom (h : Heap) : Nat → Option Nat → Option (List Nat)
  | _, none => some []
  | 0, some _ => none
  | n + 1, some b => (blocksFrom h n (h.header b).next).map (b :: ·)

theorem blocksFrom_follows {n : Nat} {x : Option Nat} {bs : List Nat}
    (hb : blocksFrom h n x = some bs) : Follows h x bs := by
  induction n generalizing x bs with
  | zero =>
      cases x with
      | none =>
          obtain rfl := Option.some.inj hb
          rfl
      | some b => exact absurd hb (by simp [blocksFrom])
  | succ n ih =>
      cases x with
      | none =>
          obtain rfl := Option.some.inj hb
          rfl
      | some b =>
          obtain ⟨rest, hrest, rfl⟩ := Option.map_eq_some_iff.mp hb
          exact ⟨rfl, ih hrest⟩

/-- The conditions on a call, in a heap whose blocks are `bs`. -/
def SafeOn (w : HeapRun) (bs : List Nat) : HeapCall → Prop
  | .alloc size => ∀ b ∈ (firstFit w.heap (roundedSize size)).join,
      roundedSize size + sizeofBlockHeader ≤ (w.heap.header b).size
  | .free ptr => ∀ b ∈ bs, ptr = some ((b : Int) + sizeofBlockHeader) →
      (w.heap.header b).isUsed = true →
      (∀ q ∈ (w.heap.header b).prev,
        [q, b] <:+: bs ∨ (q ∈ bs ∧ q ≠ b ∧ (w.heap.header q).isUsed = true)) ∧
      ∀ q ∈ bs, [q, b] <:+: bs → (w.heap.header q).isUsed = false →
        (w.heap.header b).prev = some q

/-- The conditions on a call, in a heap of at most `n` blocks. -/
def SafeWithin (n : Nat) (w : HeapRun) (c : HeapCall) : Prop :=
  ∃ bs ∈ blocksFrom w.heap n (some 0), SafeOn w bs c

instance (w : HeapRun) (bs : List Nat) : ∀ c, Decidable (SafeOn w bs c)
  | .alloc size => inferInstanceAs (Decidable (∀ b ∈ (firstFit w.heap (roundedSize size)).join,
      roundedSize size + sizeofBlockHeader ≤ (w.heap.header b).size))
  | .free ptr => inferInstanceAs (Decidable (∀ b ∈ bs, ptr = some ((b : Int) + sizeofBlockHeader) →
      (w.heap.header b).isUsed = true →
      (∀ q ∈ (w.heap.header b).prev,
        [q, b] <:+: bs ∨ (q ∈ bs ∧ q ≠ b ∧ (w.heap.header q).isUsed = true)) ∧
      ∀ q ∈ bs, [q, b] <:+: bs → (w.heap.header q).isUsed = false →
        (w.heap.header b).prev = some q))

instance (n : Nat) (w : HeapRun) (c : HeapCall) : Decidable (SafeWithin n w c) :=
  inferInstanceAs (Decidable (∃ bs ∈ blocksFrom w.heap n (some 0), SafeOn w bs c))

/-- The blocks of a heap are one list only, so the conditions can be read off it. -/
theorem SafeWithin.mergeSafe {n : Nat} {w : HeapRun} {c : HeapCall} (hc : SafeWithin n w c) :
    MergeSafe w c := by
  obtain ⟨bs, hbs, hsafe⟩ := hc
  have hfollows := blocksFrom_follows hbs
  cases c with
  | alloc size =>
      refine ⟨fun b _ _ hb => hsafe b ?_, trivial⟩
      rw [hb]
      rfl
  | free ptr =>
      refine ⟨fun bs' b q hf hb hptr hused hprev => ?_, fun bs' b q hf hb hptr hused hnear => ?_⟩
      · obtain rfl := hf.unique hfollows
        exact (hsafe b hb hptr hused).1 q hprev
      · obtain rfl := hf.unique hfollows
        exact (hsafe b hb hptr hused).2 q (hnear.subset (by simp)) hnear

/-! ## Runs -/

/-- The heap is tiled by segments whose used ones are the live allocations. -/
def TiledBy (w : HeapRun) (segs : List Segment) : Prop :=
  Represents w.heap segs ∧ LiveAre w.live segs

theorem tiledBy_start : TiledBy HeapRun.start [⟨heapSize - sizeofBlockHeader, false⟩] := by
  have hH := heapSize_eq
  have hS := sizeofBlockHeader_eq
  have hsub : subULong heapSize sizeofBlockHeader = heapSize - sizeofBlockHeader :=
    subULong_of_le (by omega) (by omega)
  refine ⟨⟨⟨rfl, by simp [HeapRun.start, memInit, hsub], rfl, rfl⟩, ?_, ?_, ?_, ?_⟩, ?_⟩
  · simp only [span]
    omega
  · intro s hs
    rw [List.mem_singleton] at hs
    subst hs
    simp only
    omega
  · simp only [HeapRun.start, memInit, freeBytes, Bool.false_eq_true, if_false]
    omega
  · exact Nat.zero_add _
  · exact ⟨List.nodup_nil, by simp [usedAt], by simp [HeapRun.start]⟩

/-- **One call.**  A tiled heap stays tiled by a safe call, which returns; if the
call misses no merge, a coalesced tiling stays coalesced. -/
theorem step_tiledBy {w : HeapRun} {c : HeapCall} (hw : TiledBy w segs)
    (hsafe : TilingSafe w c) :
    ∃ w' segs', w.step c = some w' ∧ TiledBy w' segs' ∧
      (MergeSafe w c → Coalesced segs → Coalesced segs') := by
  obtain ⟨hrep, hlive⟩ := hw
  cases c with
  | alloc size =>
      rcases memAlloc_spec hrep.tracks size with ⟨hnull, -⟩ |
        ⟨pre, n, post, rfl, hpos, hav, hfit, hfirst, -, hsome⟩
      · exact ⟨w, segs, by simp [HeapRun.step, hnull], ⟨hrep, hlive⟩, fun _ h => h⟩
      · obtain ⟨hdvd, hle, -⟩ := roundedSize_spec hpos
        have hroom := hsafe _ hpos hav hfirst
        rw [(hrep.chain.at_block rfl).2.1] at hroom
        have hlong : size ≤ (roundedSize size : Int) := by omega
        refine ⟨_, _, by rw [HeapRun.step, hsome]; rfl,
          ⟨takeBlock_represents hrep rfl ⟨by omega, hdvd⟩ hroom, hlive.take hfit hlong⟩,
          fun _ hco => ?_⟩
        rw [← List.append_assoc]
        exact coalesced_take hco
  | free ptr =>
      rcases memFree_spec hrep.tracks ptr with ⟨pre, n, post, rfl, rfl, hfree⟩ | ⟨herr, -⟩
      · have hmem : span sizeofBlockHeader pre ∈
            starts sizeofBlockHeader 0 (pre ++ ⟨n, true⟩ :: post) :=
          mem_starts.mpr ⟨pre, _, post, rfl, (Nat.zero_add _).symm⟩
        have hused := (hrep.chain.at_block rfl).2.2.1
        obtain ⟨segs', htracks, hgran, hkept, hrelease⟩ := memFree_block hrep.tracks rfl (by
          intro q hq
          rcases hsafe _ _ q hrep.follows hmem rfl hused hq with hnear | ⟨-, hne, hu⟩
          · exact Or.inl hnear
          · exact Or.inr ⟨hne, hu⟩)
        refine ⟨_, segs', by rw [HeapRun.step, hfree]; rfl,
          ⟨htracks.represents (hgran hrep.granular), hlive.release hkept⟩, fun hmerge hco => ?_⟩
        rw [hrelease fun q hnear hfree =>
          hmerge.2 _ _ q hrep.follows hmem rfl hused hnear hfree]
        exact coalesced_release hco
      · exact ⟨w, segs, by simp [HeapRun.step, herr, error, noError], ⟨hrep, hlive⟩,
          fun _ h => h⟩

/-- Every call on a tiled heap returns. -/
theorem step_isSome {w : HeapRun} (hw : TiledBy w segs) (c : HeapCall) :
    (w.step c).isSome := by
  cases c with
  | alloc size =>
      rcases memAlloc_spec hw.1.tracks size with ⟨h, -⟩ | ⟨_, _, _, _, _, _, _, _, _, h⟩
      · simp [HeapRun.step, h]
      · simp [HeapRun.step, h]
  | free ptr =>
      rcases memFree_spec hw.1.tracks ptr with ⟨_, _, _, _, _, h⟩ | ⟨h, _⟩
      · simp [HeapRun.step, h]
      · simp [HeapRun.step, h]

/-- The states reached by safe calls are tiled. -/
theorem run_tiledBy {calls : List HeapCall} {w : HeapRun}
    (hsafe : AllSteps HeapRun.step TilingSafe HeapRun.start calls)
    (hrun : run HeapRun.step HeapRun.start calls = some w) : ∃ segs, TiledBy w segs := by
  refine invariant_of_allSteps (fun w => ∃ segs, TiledBy w segs) ?_ ⟨_, tiledBy_start⟩
    hsafe hrun
  rintro s a t ⟨segs, hs⟩ hok hstep
  obtain ⟨w', segs', hstep', hw', -⟩ := step_tiledBy hs hok
  rw [hstep] at hstep'
  obtain rfl := Option.some.inj hstep'
  exact ⟨segs', hw'⟩

/-- **The heap stays tiled.**  In every state reached from `mem_init` by calls
that reach neither slip, the block list tiles the heap, the live allocations are
aligned disjoint parts of it as long as requested, and every next call returns. -/
theorem heap_tiling {calls : List HeapCall} {w : HeapRun}
    (hsafe : AllSteps HeapRun.step TilingSafe HeapRun.start calls)
    (hrun : run HeapRun.step HeapRun.start calls = some w) :
    HeapSound w ∧ ∀ c, (w.step c).isSome := by
  obtain ⟨segs, hw⟩ := run_tiledBy hsafe hrun
  exact ⟨heapSound_of_represents hw.1 hw.2, step_isSome hw⟩

/-- Three allocations; the second is freed and then the first, which takes the second
over; the next allocation is the first block again. -/
theorem heap_tiling_merge :
    ∃ w, run HeapRun.step HeapRun.start
      [.alloc 100, .alloc 50, .alloc 16, .free (some 176), .free (some 32), .alloc 150] = some w ∧
      w.live = [(32, 150), (272, 16)] ∧ HeapSound w ∧ ∀ c, (w.step c).isSome := by
  have hsafe : AllSteps HeapRun.step (SafeWithin 8) HeapRun.start
      [.alloc 100, .alloc 50, .alloc 16, .free (some 176), .free (some 32), .alloc 150] := by
    decide +kernel
  have hlive : (run HeapRun.step HeapRun.start
      [.alloc 100, .alloc 50, .alloc 16, .free (some 176), .free (some 32), .alloc 150]).map
        HeapRun.live = some [(32, 150), (272, 16)] := by
    decide +kernel
  obtain ⟨w, hw, hlive⟩ := Option.map_eq_some_iff.mp hlive
  exact ⟨w, hw, hlive, heap_tiling (hsafe.imp fun _ _ h => h.mergeSafe.1) hw⟩

/-- **The split test wraps on an exact fit.**  Allocating the whole first block
writes the header of a block that starts at the end of the heap. -/
theorem heap_tiling_fails :
    ¬ ∀ calls w, run HeapRun.step HeapRun.start calls = some w → HeapSound w := by
  intro hall
  have hsome : (run HeapRun.step HeapRun.start [.alloc 67108832]).isSome := by decide +kernel
  obtain ⟨w, hw⟩ := Option.isSome_iff_exists.mp hsome
  obtain ⟨bs, htiled⟩ := (hall _ w hw).tiled
  have hlink : (run HeapRun.step HeapRun.start [.alloc 67108832]).map
      (fun w => ((w.heap.header 0).next, (w.heap.header 67108864).next,
        (w.heap.header 67108864).size)) = some (some 67108864, none, 4294967264) := by
    decide +kernel
  rw [hw] at hlink
  simp only [Option.map_some, Option.some.injEq, Prod.mk.injEq] at hlink
  have hfollows : Follows w.heap (some 0) [0, 67108864] := ⟨rfl, hlink.1, hlink.2.1⟩
  obtain rfl := hfollows.unique htiled.reached
  obtain ⟨-, -, hend⟩ := htiled.tiled
  have hH := heapSize_eq
  have hS := sizeofBlockHeader_eq
  rw [hlink.2.2] at hend
  simp only [Tiles] at hend
  omega

end PingPongOS
