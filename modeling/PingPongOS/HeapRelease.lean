import PingPongOS.HeapRuns

/-!
# Releasing the live allocations

In the runs whose releases miss no merge, every live pointer can be freed, which
ends its allocation and no other, and once nothing is live the heap is one free
block again.  A release that trusts a `prev` link left stale by an earlier split
misses the merge for good.
-/

namespace PingPongOS

open Tiling Runs

/-- The walk from the start of the heap meets a block in use, with a payload of
`n` bytes at `p`. -/
def Allocated (h : Heap) (p n : Nat) : Prop :=
  ∃ bs b, Follows h (some 0) bs ∧ b ∈ bs ∧ p = b + sizeofBlockHeader ∧
    (h.header b).isUsed = true ∧ (h.header b).size = n

/-- The heap is one free block, and all of it is available. -/
structure Restored (h : Heap) : Prop where
  single : Follows h (some 0) [0]
  free : (h.header 0).isUsed = false
  whole : (h.header 0).size = heapSize - sizeofBlockHeader
  avail : memAvail h = heapSize

/-- Freeing `a` succeeds.  If the release is a safe one, it ends the allocation
of `a` and no other, and the other live allocations are kept. -/
def Frees (w : HeapRun) (a : Nat × Int) : Prop :=
  ∃ h', memFree w.heap (some a.1) = some (noError, h') ∧
    (TilingSafe w (.free (some a.1)) →
      ∀ p n, Allocated h' p n ↔ Allocated w.heap p n ∧ p ≠ a.1)

variable {h : Heap} {segs : List Segment}

/-- The allocated blocks of a tiled heap are its used segments. -/
theorem Lseg.allocated_iff (hl : Lseg h (some 0) 0 segs none) (p n : Nat) :
    Allocated h p n ↔
      ∃ x ∈ usedAt sizeofBlockHeader 0 segs, p = x.1 + sizeofBlockHeader ∧ n = x.2 := by
  constructor
  · intro halloc
    obtain ⟨bs, b, hf, hb, hp, hused, hn⟩ := halloc
    obtain rfl := hf.unique hl.follows
    obtain ⟨pre, s, post, rfl, rfl⟩ := mem_starts.mp hb
    rw [Nat.zero_add] at hused hn hp
    obtain ⟨-, hsize, hflag, -⟩ := hl.at_block rfl
    rw [hflag] at hused
    refine ⟨(span sizeofBlockHeader pre, s.size), ?_, hp, by rw [← hn, hsize]⟩
    refine mem_usedAt.mpr ⟨pre, post, ?_, (Nat.zero_add _).symm⟩
    rw [← hused]
  · intro hx
    obtain ⟨x, hx, hp, hn⟩ := hx
    obtain ⟨hsize, hflag⟩ := hl.used_header hx
    obtain ⟨pre, post, hsegs, hx1⟩ := mem_usedAt.mp hx
    exact ⟨_, x.1, hl.follows, mem_starts.mpr ⟨pre, _, post, hsegs, hx1⟩, hp, hflag,
      by rw [hsize, hn]⟩

/-- Where the used segments but one are kept, so are the allocations but one. -/
theorem allocated_release {h' : Heap} {segs' pre post : List Segment} {n : Nat}
    (hl : Lseg h (some 0) 0 (pre ++ ⟨n, true⟩ :: post) none)
    (hl' : Lseg h' (some 0) 0 segs' none)
    (hkept : usedAt sizeofBlockHeader 0 segs' = usedAt sizeofBlockHeader 0 pre ++
      usedAt sizeofBlockHeader (0 + span sizeofBlockHeader pre + (sizeofBlockHeader + n)) post)
    (p m : Nat) :
    Allocated h' p m ↔
      Allocated h p m ∧ p ≠ span sizeofBlockHeader pre + sizeofBlockHeader := by
  have hS := sizeofBlockHeader_eq
  rw [hl'.allocated_iff, hl.allocated_iff, hkept]
  constructor
  · intro hy
    obtain ⟨y, hy, hp, hm⟩ := hy
    obtain ⟨hyold, hne⟩ := (mem_usedAt_around (by omega)).mp hy
    exact ⟨⟨y, hyold, hp, hm⟩, by omega⟩
  · intro hy
    obtain ⟨⟨y, hy, hp, hm⟩, hne⟩ := hy
    exact ⟨y, (mem_usedAt_around (by omega)).mpr ⟨hy, by omega⟩, hp, hm⟩

/-- A live allocation of a tiled heap is freed by `mem_free`. -/
theorem TiledBy.frees {w : HeapRun} (hw : TiledBy w segs) {a : Nat × Int} (ha : a ∈ w.live) :
    Frees w a := by
  have hS := sizeofBlockHeader_eq
  obtain ⟨hrep, hlive⟩ := hw
  obtain ⟨x, hx, hax, -⟩ := hlive.used a ha
  rcases memFree_spec hrep.tracks (some a.1) with ⟨pre, n, post, rfl, hptr, hfree⟩ | ⟨-, hnot⟩
  · refine ⟨_, hfree, fun hsafe p m => ?_⟩
    have hmem : span sizeofBlockHeader pre ∈
        starts sizeofBlockHeader 0 (pre ++ ⟨n, true⟩ :: post) :=
      mem_starts.mpr ⟨pre, _, post, rfl, (Nat.zero_add _).symm⟩
    have hused := (hrep.chain.at_block rfl).2.2.1
    obtain ⟨segs', htracks, -, hkept, -⟩ := memFree_block hrep.tracks rfl (by
      intro q hq
      rcases hsafe _ _ q hrep.follows hmem hptr hused hq with hnear | ⟨-, hne, hu⟩
      · exact Or.inl hnear
      · exact Or.inr ⟨hne, hu⟩)
    have ha1 : a.1 = span sizeofBlockHeader pre + sizeofBlockHeader := by
      rw [Option.some.injEq] at hptr
      omega
    rw [allocated_release hrep.chain htracks.chain hkept, ha1]
  · exact absurd (by rw [hax]; rfl) (hnot x hx)

/-- A coalesced tiling with nothing in use and nothing live is one free block. -/
theorem TiledBy.restored {w : HeapRun} (hw : TiledBy w segs) (hco : Coalesced segs)
    (hlive : w.live = []) : Restored w.heap := by
  have hH := heapSize_eq
  have hS := sizeofBlockHeader_eq
  obtain ⟨hrep, hare⟩ := hw
  have hnone : usedAt sizeofBlockHeader 0 segs = [] := by
    apply List.eq_nil_iff_forall_not_mem.mpr
    intro x hx
    have := hare.onlyLive x hx
    rw [hlive] at this
    simp at this
  rcases coalesced_unused hco hnone with rfl | ⟨n, rfl⟩
  · have := hrep.whole
    simp only [span] at this
    omega
  · obtain ⟨⟨-, hsize, hflag, hnext⟩, hwhole⟩ := And.intro hrep.chain hrep.whole
    simp only [span] at hwhole
    simp only at hsize
    have havail := hrep.available
    simp only [freeBytes, Bool.false_eq_true, if_false] at havail
    refine ⟨⟨rfl, hnext⟩, hflag, by omega, ?_⟩
    rw [hrep.tracks.memAvail_eq.1, havail]
    omega

/-- The states reached by calls that miss no merge are tiled without two free
neighbours. -/
theorem run_coalesced {calls : List HeapCall} {w : HeapRun}
    (hsafe : AllSteps HeapRun.step MergeSafe HeapRun.start calls)
    (hrun : run HeapRun.step HeapRun.start calls = some w) :
    ∃ segs, TiledBy w segs ∧ Coalesced segs := by
  refine invariant_of_allSteps (fun w => ∃ segs, TiledBy w segs ∧ Coalesced segs) ?_
    ⟨_, tiledBy_start, List.isChain_singleton _⟩ hsafe hrun
  intro s c t hs hok hstep
  obtain ⟨segs, hs, hco⟩ := hs
  obtain ⟨w', segs', hstep', hw', hkeeps⟩ := step_tiledBy hs hok.1
  rw [hstep] at hstep'
  obtain rfl := Option.some.inj hstep'
  exact ⟨segs', hw', hkeeps hok hco⟩

/-- **Freeing everything restores the heap.**  In every state reached from
`mem_init` by calls that reach neither slip and miss no merge, each live pointer
can be freed, which ends its allocation and no other, and with nothing live the
heap is one free block and all of it is available. -/
theorem heap_restored {calls : List HeapCall} {w : HeapRun}
    (hsafe : AllSteps HeapRun.step MergeSafe HeapRun.start calls)
    (hrun : run HeapRun.step HeapRun.start calls = some w) :
    (∀ a ∈ w.live, Frees w a) ∧ (w.live = [] → Restored w.heap) := by
  obtain ⟨segs, hw, hco⟩ := run_coalesced hsafe hrun
  exact ⟨fun a ha => hw.frees ha, hw.restored hco⟩

/-- Four allocations, freed in another order: the third and the first merge with
nothing, the last and the second with the free blocks before and after them. -/
theorem heap_restored_four :
    ∃ w, run HeapRun.step HeapRun.start
      [.alloc 100, .alloc 16, .alloc 50, .alloc 32, .free (some 224), .free (some 320),
        .free (some 32), .free (some 176)] = some w ∧
      w.live = [] ∧ Restored w.heap := by
  have hsafe : AllSteps HeapRun.step (SafeWithin 8) HeapRun.start
      [.alloc 100, .alloc 16, .alloc 50, .alloc 32, .free (some 224), .free (some 320),
        .free (some 32), .free (some 176)] := by
    decide +kernel
  have hlive : (run HeapRun.step HeapRun.start
      [.alloc 100, .alloc 16, .alloc 50, .alloc 32, .free (some 224), .free (some 320),
        .free (some 32), .free (some 176)]).map HeapRun.live = some [] := by
    decide +kernel
  obtain ⟨w, hw, hlive⟩ := Option.map_eq_some_iff.mp hlive
  exact ⟨w, hw, hlive, (heap_restored (hsafe.imp fun _ _ h => h.mergeSafe) hw).2 hlive⟩

/-- **A stale `prev` link loses a merge.**  The fourth allocation splits the block
at `48` and leaves the block at `160` pointing back to it; freeing the rest in
this order leaves two free blocks. -/
theorem heap_restored_fails :
    ¬ ∀ calls w, run HeapRun.step HeapRun.start calls = some w →
      (∀ a ∈ w.live, Frees w a) ∧ (w.live = [] → Restored w.heap) := by
  intro hall
  let calls : List HeapCall := [.alloc 16, .alloc 80, .alloc 16, .free (some 80), .alloc 16,
    .free (some 192), .free (some 80), .free (some 32)]
  have hend : (run HeapRun.step HeapRun.start calls).map
      (fun w => (w.live, (w.heap.header 0).next)) = some ([], some 160) := by
    decide +kernel
  cases hrun : run HeapRun.step HeapRun.start calls with
  | none =>
      rw [hrun] at hend
      exact absurd hend (by simp)
  | some w =>
      rw [hrun] at hend
      simp only [Option.map_some, Option.some.injEq, Prod.mk.injEq] at hend
      have hone := ((hall calls w hrun).2 hend.1).single
      rw [Follows, hend.2] at hone
      exact Option.some_ne_none _ hone.2

end PingPongOS
