import PingPongOS.HeapBytes
import PingPongOS.HeapLinks

/-!
# The heap calls in the bytes

On a tiled heap, `mem_alloc` and `mem_free` on the bytes return what they return on the map
of headers, leave bytes that hold the headers after the call, and change no byte outside
the headers of the blocks before or after it.
-/

namespace PingPongOS

open ByteMemory Tiling

variable {heap : Pointer} {s : HeapMemory} {m₀ : Memory 64} {h : Heap} {bs : List Nat}
  {b n : Nat} {segs pre post : List Segment}

/-! ## `mem_alloc` -/

/-- The headers of a tiled heap do not overlap. -/
theorem headersApart_starts (hwhole : span sizeofBlockHeader segs = heapSize) :
    HeadersApart (starts sizeofBlockHeader 0 segs) := by
  intro b hb
  obtain ⟨pre, t, post, rfl, rfl⟩ := mem_starts.mp hb
  refine ⟨?_, fun c hc => ?_⟩
  · have := (starts_bounds hb).2
    omega
  · rw [starts_append, List.mem_append, starts, List.mem_cons] at hc
    rcases hc with hc | hc | hc
    · exact Or.inr (Or.inl (starts_bounds hc).2)
    · exact Or.inl hc
    · have := (starts_bounds hc).1
      omega

theorem blockAt_zero (heap : Pointer) : blockAt heap 0 = heap := by
  rw [blockAt]
  exact BitVec.add_zero heap

/-- **`mem_alloc`** in the bytes takes the block that it takes in the headers. -/
theorem memAlloc_bytes (hs : Shows heap m₀ s h (starts sizeofBlockHeader 0 segs))
    (hrep : Represents h segs) (hheap : (0 : Pointer) ∉ area heap heapSize) (size : Int) :
    s.memAlloc heap size = (memAlloc h size).map fun r => (pointerTo heap r.1,
      match r.1 with
      | none => s
      | some q => s.takeBlock (blockAt heap (q - sizeofBlockHeader)) (roundedSize size)) := by
  have hH := heapSize_eq
  have hS := sizeofBlockHeader_eq
  have hsp := headersApart_starts hrep.whole
  have hin : ∀ b ∈ starts sizeofBlockHeader 0 segs, b < heapSize := fun b hb => by
    have := (hsp b hb).1
    omega
  have hwalk : s.search (fun p => !s.isUsed p && decide (roundedSize size ≤ s.get p .size))
      heapSize (pointerTo heap (some 0)) = Option.map (pointerTo heap)
        (h.search (fun b => !(h.header b).isUsed && decide (roundedSize size ≤ (h.header b).size))
          heapSize (some 0)) :=
    search_shows hs hheap hin (fun b hb => by rw [hs.isUsed hb, hs.get_size hb])
      hrep.follows fun _ hb => hb
  rw [pointerTo, blockAt_zero] at hwalk
  have hsearch : h.search (fun b => !(h.header b).isUsed &&
      decide (roundedSize size ≤ (h.header b).size)) heapSize (some 0) =
        firstFit h (roundedSize size) := rfl
  rw [hsearch] at hwalk
  rw [HeapMemory.memAlloc, hs.available]
  by_cases hsize : size ≤ 0
  · rw [if_pos hsize, memAlloc, if_pos hsize]
    rfl
  by_cases hav : h.availableBytes < size.toNat
  · rw [if_neg hsize, if_pos hav, memAlloc, if_neg hsize, if_pos hav]
    rfl
  rw [if_neg hsize, if_neg hav, hwalk]
  rcases firstFit_spec hrep.chain hrep.whole (roundedSize size) with
    ⟨hnone, -⟩ | ⟨pre, n, post, rfl, -, hfound, -⟩
  · have hcall : memAlloc h size = some (none, h) := by
      rw [memAlloc, if_neg hsize, if_neg hav, hnone]
    rw [hnone, hcall]
    rfl
  · have hb : span sizeofBlockHeader pre ∈
        starts sizeofBlockHeader 0 (pre ++ ⟨n, false⟩ :: post) :=
      mem_starts.mpr ⟨pre, _, post, rfl, (Nat.zero_add _).symm⟩
    have hnull : pointerTo heap (some (span sizeofBlockHeader pre)) ≠ 0 :=
      blockAt_ne_zero hheap (hin _ hb)
    rw [hfound, memAlloc_of_firstFit (by omega) hav hfound]
    simp only [Option.map_some, if_neg hnull, Nat.add_sub_cancel]
    rw [pointerTo, blockAt_add, pointerTo]

/-- **`mem_alloc`** returns the same pointer and writes headers alone. -/
theorem memAlloc_shows (hs : Shows heap m₀ s h (starts sizeofBlockHeader 0 segs))
    (hrep : Represents h segs) (hheap : (0 : Pointer) ∉ area heap heapSize) {size : Int}
    (hsafe : TilingSafe ⟨h, []⟩ (.alloc size)) :
    ∃ x h' s' segs', memAlloc h size = some (x, h') ∧
      s.memAlloc heap size = some (pointerTo heap x, s') ∧ Represents h' segs' ∧
      Shows heap s.memory s' h' (starts sizeofBlockHeader 0 segs') := by
  have hH := heapSize_eq
  have hbytes := memAlloc_bytes hs hrep hheap size
  have hs₀ := hs.mono fun _ hb => hb
  rcases memAlloc_spec hrep.tracks size with
    ⟨hnull, -⟩ | ⟨pre, n, post, rfl, hpos, hav, -, hfit, -, halloc⟩
  · rw [hnull] at hbytes
    exact ⟨none, h, s, segs, hnull, hbytes, hrep, hs₀⟩
  · obtain ⟨hdvd, hle, -⟩ := roundedSize_spec hpos
    obtain ⟨-, hsize, -, -⟩ := hrep.tracks.at_block (b := span sizeofBlockHeader pre) rfl
    have hroom := hsafe _ hpos hav hfit
    rw [hsize] at hroom
    have hn := hrep.tracks.size_lt
    simp only at hroom hsize hn
    have hrep' := takeBlock_represents hrep rfl ⟨by omega, hdvd⟩ hroom
    have hb : span sizeofBlockHeader pre ∈
        starts sizeofBlockHeader 0 (pre ++ ⟨n, false⟩ :: post) :=
      mem_starts.mpr ⟨pre, _, post, rfl, (Nat.zero_add _).symm⟩
    have hmem : ∀ c, c ∈ starts sizeofBlockHeader 0
          (pre ++ (take sizeofBlockHeader 16 (roundedSize size) n ++ post)) ↔
        c ∈ if roundedSize size + sizeofBlockHeader + 16 ≤ n then
            (span sizeofBlockHeader pre + (sizeofBlockHeader + roundedSize size)) ::
              starts sizeofBlockHeader 0 (pre ++ ⟨n, false⟩ :: post)
          else starts sizeofBlockHeader 0 (pre ++ ⟨n, false⟩ :: post) := by
      intro c
      split
      · rename_i hsplit
        rw [mem_starts_split (u := false) hsplit, List.mem_cons, Nat.zero_add]
        exact or_comm
      · rename_i hsplit
        have htake : take sizeofBlockHeader 16 (roundedSize size) n = [⟨n, true⟩] :=
          if_neg hsplit
        rw [htake, List.singleton_append, starts_around, starts_around]
    have htaken := hs₀.takeBlock hheap hsize (by omega) hroom hb rfl
      (headersApart_subset (headersApart_starts hrep'.whole) fun c hc => (hmem c).mpr hc)
    rw [halloc, Option.map_some] at hbytes
    simp only [Nat.add_sub_cancel] at hbytes
    exact ⟨_, _, _, _, halloc, hbytes, hrep', htaken.of_mem_iff hmem⟩

/-! ## `mem_free` -/

theorem Shows.memAvail (hs : Shows heap m₀ s h bs) : s.memAvail = memAvail h := by
  unfold HeapMemory.memAvail PingPongOS.memAvail
  rw [hs.available]

/-- What `mem_free` is given, as a distance from the start of the heap. -/
def freeArgument (heap ptr : Pointer) : Option Int := (offsetOf heap ptr).map Int.ofNat

/-- Comparing pointers compares offsets. -/
theorem blockAt_eq_sub_iff {ptr : Pointer} (hb : b + sizeofBlockHeader < 2 ^ 64) :
    blockAt heap b = ptr - BitVec.ofNat 64 sizeofBlockHeader ↔
      (b : Int) = ((ptr - heap).toNat : Int) - sizeofBlockHeader := by
  have hptr := eq_add_of_sub ptr heap
  have hend := blockAt_add heap b sizeofBlockHeader
  rw [eq_sub_iff_add_eq, hend]
  constructor
  · intro heq
    rw [← heq, blockAt_sub hb]
    omega
  · intro heq
    have hoff : (ptr - heap).toNat = b + sizeofBlockHeader := by omega
    rw [hoff] at hptr
    exact hptr.symm

/-- **`mem_free`** in the bytes finds the block that it finds in the headers. -/
theorem memFree_bytes (hs : Shows heap m₀ s h (starts sizeofBlockHeader 0 segs))
    (hrep : Represents h segs) (hheap : (0 : Pointer) ∉ area heap heapSize) (ptr : Pointer) :
    s.memFree heap ptr = (memFree h (freeArgument heap ptr)).map fun r => (r.1,
      if r.1 = noError then
        ((s.releaseBlock (ptr - BitVec.ofNat 64 sizeofBlockHeader)).mergeForward
          (ptr - BitVec.ofNat 64 sizeofBlockHeader)).mergeBackward
            (ptr - BitVec.ofNat 64 sizeofBlockHeader)
      else s) := by
  have hH := heapSize_eq
  have hS := sizeofBlockHeader_eq
  have hsp := headersApart_starts hrep.whole
  have hin : ∀ b ∈ starts sizeofBlockHeader 0 segs, b < heapSize := fun b hb => by
    have := (hsp b hb).1
    omega
  have hwalk : s.search (fun p => decide (p = ptr - BitVec.ofNat 64 sizeofBlockHeader))
      heapSize (pointerTo heap (some 0)) = Option.map (pointerTo heap)
        (h.search (fun b =>
          decide ((b : Int) = ((ptr - heap).toNat : Int) - sizeofBlockHeader)) heapSize (some 0)) :=
    search_shows hs hheap hin (fun b hb => decide_eq_decide.mpr (blockAt_eq_sub_iff (by
      have := (hsp b hb).1
      omega))) hrep.follows fun _ hb => hb
  rw [pointerTo, blockAt_zero] at hwalk
  have hav := hs.memAvail
  unfold HeapMemory.memFree memFree freeArgument offsetOf
  rw [hav]
  by_cases hearly : (heapSize : Int) ≤ memAvail h
  · rw [if_pos hearly, if_pos hearly]
    rfl
  by_cases hnull : ptr = 0
  · rw [if_neg hearly, if_neg hearly, if_pos hnull, if_pos hnull]
    rfl
  rw [if_neg hearly, if_neg hearly, if_neg hnull, if_neg hnull, hwalk]
  simp only [Option.map_some, Int.ofNat_eq_natCast]
  rcases search_lseg (fun b : Nat =>
      decide ((b : Int) = ((ptr - heap).toNat : Int) - sizeofBlockHeader)) hrep.chain
    (length_lt_heapSize hrep.whole) with ⟨hnone, -⟩ | ⟨pre, t, post, rfl, hfound, htest, -⟩
  · rw [hnone]
    rfl
  · rw [Nat.zero_add] at hfound htest
    have hb : span sizeofBlockHeader pre ∈ starts sizeofBlockHeader 0 (pre ++ t :: post) :=
      mem_starts.mpr ⟨pre, t, post, rfl, (Nat.zero_add _).symm⟩
    have hne : pointerTo heap (some (span sizeofBlockHeader pre)) ≠ 0 :=
      blockAt_ne_zero hheap (hin _ hb)
    have heq : pointerTo heap (some (span sizeofBlockHeader pre)) =
        ptr - BitVec.ofNat 64 sizeofBlockHeader :=
      (blockAt_eq_sub_iff (by have := (hsp _ hb).1; omega)).mpr (of_decide_eq_true htest)
    have hused : s.isUsed (ptr - BitVec.ofNat 64 sizeofBlockHeader) =
        (h.header (span sizeofBlockHeader pre)).isUsed := by
      rw [← heq]
      exact hs.isUsed hb
    rw [hfound]
    simp only [Option.map_some, heq, hused]
    rw [heq] at hne
    generalize ((s.releaseBlock (ptr - BitVec.ofNat 64 sizeofBlockHeader)).mergeForward
      (ptr - BitVec.ofNat 64 sizeofBlockHeader)).mergeBackward
        (ptr - BitVec.ofNat 64 sizeofBlockHeader) = s₁
    generalize mergeBackward (mergeForward (releaseBlock h (span sizeofBlockHeader pre))
      (span sizeofBlockHeader pre)) (span sizeofBlockHeader pre) = h₁
    cases hu : (h.header (span sizeofBlockHeader pre)).isUsed with
    | true =>
        rw [if_neg (not_or.mpr ⟨hne, by simp⟩), if_pos rfl, Option.map_some, if_pos rfl]
    | false =>
        rw [if_pos (Or.inr rfl), if_neg (by simp), Option.map_some,
          if_neg (show ¬ error = noError by decide)]

/-- The links of these blocks stay among them. -/
def NextIn (h : Heap) (bs : List Nat) : Prop :=
  ∀ b ∈ bs, ∀ c, (h.header b).next = some c → c ∈ bs

theorem Lseg.nextIn (hl : Lseg h (some 0) 0 segs none) :
    NextIn h (starts sizeofBlockHeader 0 segs) := by
  intro b hb c hc
  obtain ⟨pre, t, post, rfl, hpre⟩ := mem_starts.mp hb
  rw [Nat.zero_add] at hpre
  obtain ⟨rfl, hpost⟩ := hl.next_of_block hpre hc
  obtain ⟨t', post', rfl⟩ := List.exists_cons_of_ne_nil hpost
  refine mem_starts.mpr ⟨pre ++ [t], t', post', by simp, ?_⟩
  simp only [span_append, span]
  omega

theorem NextIn.release (hin : NextIn h bs) : NextIn (releaseBlock h b) bs := by
  intro c hc d hd
  refine hin c hc d ?_
  by_cases hcb : c = b
  · simpa [releaseBlock, hcb] using hd
  · simpa [releaseBlock, hcb] using hd

theorem NextIn.absorb (hin : NextIn h bs) (hn : n ∈ bs) (hne : n ≠ b) :
    NextIn (absorbBlock h b n) bs := by
  obtain ⟨hself, hother⟩ := absorbBlock_header (h := h) hne
  intro c hc d hd
  by_cases hcb : c = b
  · rw [hcb, hself.2.2] at hd
    exact hin n hn d hd
  · rw [(hother c hcb).2.2] at hd
    exact hin c hc d hd

theorem NextIn.mergeForward (hin : NextIn h bs) (hb : b ∈ bs)
    (hne : ∀ n, (h.header b).next = some n → n ≠ b) : NextIn (mergeForward h b) bs := by
  rw [PingPongOS.mergeForward]
  cases hbn : (h.header b).next with
  | none => exact hin
  | some n =>
      simp only
      split
      · exact hin
      · exact hin.absorb (hin b hb n hbn) (hne n hbn)

theorem NextIn.mergeBackward (hin : NextIn h bs) (hb : b ∈ bs)
    (hne : ∀ q, (h.header b).prev = some q → b ≠ q) : NextIn (mergeBackward h b) bs := by
  rw [PingPongOS.mergeBackward]
  cases hbq : (h.header b).prev with
  | none => exact hin
  | some q =>
      simp only
      split
      · exact hin
      · exact hin.absorb hb (hne q hbq)

/-- A walk that starts among the blocks stays among them. -/
theorem NextIn.follows (hin : NextIn h bs) {x : Option Nat} {cs : List Nat}
    (hf : Follows h x cs) (hx : ∀ b, x = some b → b ∈ bs) : cs ⊆ bs := by
  induction cs generalizing x with
  | nil => exact List.nil_subset _
  | cons c cs ih =>
      obtain ⟨rfl, hf⟩ := hf
      have hc := hx c rfl
      exact List.cons_subset.mpr ⟨hc, ih hf (hin c hc)⟩

/-- **`mem_free`** returns the same result and writes headers alone. -/
theorem memFree_shows (hs : Shows heap m₀ s h (starts sizeofBlockHeader 0 segs))
    (hrep : Represents h segs) (hheap : (0 : Pointer) ∉ area heap heapSize) {ptr : Pointer}
    (hsafe : TilingSafe ⟨h, []⟩ (.free (freeArgument heap ptr))) :
    ∃ e h' s' segs', memFree h (freeArgument heap ptr) = some (e, h') ∧
      s.memFree heap ptr = some (e, s') ∧ Represents h' segs' ∧
      Shows heap s.memory s' h' (starts sizeofBlockHeader 0 segs) ∧
      starts sizeofBlockHeader 0 segs' ⊆ starts sizeofBlockHeader 0 segs := by
  have hH := heapSize_eq
  have hS := sizeofBlockHeader_eq
  have hbytes := memFree_bytes hs hrep hheap ptr
  have hs₀ := hs.mono fun _ hb => hb
  have hsp := headersApart_starts hrep.whole
  rcases memFree_spec hrep.tracks (freeArgument heap ptr) with
    ⟨pre, n, post, rfl, hptr, hfree⟩ | ⟨hfree, -⟩
  · have hb : span sizeofBlockHeader pre ∈
        starts sizeofBlockHeader 0 (pre ++ ⟨n, true⟩ :: post) :=
      mem_starts.mpr ⟨pre, _, post, rfl, (Nat.zero_add _).symm⟩
    obtain ⟨-, -, hused, -⟩ := hrep.tracks.at_block (b := span sizeofBlockHeader pre) rfl
    have hat : blockAt heap (span sizeofBlockHeader pre) =
        ptr - BitVec.ofNat 64 sizeofBlockHeader := by
      have hend := (hsp _ hb).1
      refine (blockAt_eq_sub_iff (by omega)).mpr ?_
      unfold freeArgument offsetOf at hptr
      split at hptr
      · cases hptr
      · have hoff := Option.some.inj hptr
        simp only [Int.ofNat_eq_natCast] at hoff
        omega
    rw [hfree, Option.map_some, if_pos rfl, ← hat] at hbytes
    -- the three parts of the call, and the links among the blocks
    have hs₁ := hs₀.releaseBlock hsp hb
    have hin₁ : NextIn (releaseBlock h (span sizeofBlockHeader pre)) _ :=
      hrep.chain.nextIn.release
    have hne₁ : ∀ c, ((releaseBlock h (span sizeofBlockHeader pre)).header
        (span sizeofBlockHeader pre)).next = some c → c ≠ span sizeofBlockHeader pre := by
      intro c hc
      have := ((releaseBlock_tracks hrep.tracks rfl).chain.next_of_block rfl hc).1
      omega
    have hs₂ := hs₁.mergeForward hsp hheap hb fun c hc =>
      ⟨hin₁ _ hb c hc, hne₁ c hc, hin₁ c (hin₁ _ hb c hc)⟩
    have hin₂ := hin₁.mergeForward hb hne₁
    have hkeep := (mergeForward_releaseBlock hrep.tracks rfl).1
    have hlink : ∀ q, (h.header (span sizeofBlockHeader pre)).prev = some q →
        [q, span sizeofBlockHeader pre] <:+:
            starts sizeofBlockHeader 0 (pre ++ ⟨n, true⟩ :: post) ∨
          q ∈ starts sizeofBlockHeader 0 (pre ++ ⟨n, true⟩ :: post) ∧
            q ≠ span sizeofBlockHeader pre ∧ (h.header q).isUsed = true :=
      fun q hq => hsafe _ _ q hrep.follows hb hptr hused hq
    have hprev : ∀ q, ((mergeForward (releaseBlock h (span sizeofBlockHeader pre))
        (span sizeofBlockHeader pre)).header (span sizeofBlockHeader pre)).prev = some q →
        q ∈ starts sizeofBlockHeader 0 (pre ++ ⟨n, true⟩ :: post) ∧
          span sizeofBlockHeader pre ≠ q := by
      intro q hq
      rcases hlink q (hkeep.symm.trans hq) with hadj | ⟨hmem, hneq, -⟩
      · refine ⟨hadj.subset (by simp), ?_⟩
        obtain ⟨pre', t, rfl, rfl⟩ := (precedes_iff rfl).mp hadj
        simp only [span_append, span]
        omega
      · exact ⟨hmem, hneq.symm⟩
    have hs₃ := hs₂.mergeBackward hsp hheap hb hprev (hin₂ _ hb)
    have hin₃ := hin₂.mergeBackward hb fun q hq => (hprev q hq).2
    obtain ⟨segs', htracks, hgran, -, -⟩ := memFree_block hrep.tracks rfl fun q hq =>
      (hlink q hq).imp_right And.right
    have hrep' := htracks.represents (hgran hrep.granular)
    refine ⟨noError, _, _, segs', hfree, hbytes, hrep', hs₃, ?_⟩
    refine hin₃.follows hrep'.follows fun c hc => ?_
    obtain rfl : 0 = c := Option.some.inj hc
    have hfirst := hrep.follows
    generalize starts sizeofBlockHeader 0 (pre ++ ⟨n, true⟩ :: post) = cs at hfirst
    cases cs with
    | nil => cases hfirst
    | cons d cs =>
        obtain ⟨hd, -⟩ := hfirst
        exact Option.some.inj hd ▸ List.mem_cons_self
  · rw [hfree, Option.map_some, if_neg (show ¬ error = noError by decide)] at hbytes
    exact ⟨error, h, s, segs, hfree, hbytes, hrep, hs₀, fun _ hb => hb⟩

end PingPongOS
