import PingPongOS.HeapLinks
import PingPongOS.HeapRelease
import Mathlib.Order.Bounds.Defs

/-!
# The calls on a well-formed heap

On a well-formed heap with correct counters `mem_free` releases exactly the block it is
given and leaves the heap well-formed, and `mem_alloc` returns the first block that is
large enough whenever there is one: the counter never refuses a request that the list
could serve.
-/

namespace PingPongOS

open Tiling

variable {h : Heap} {segs pre post : List Segment} {b c n m : Nat} {bs : List Nat}

/-! ## The links after a release -/

/-- Absorbing a block writes the `prev` field of the block after it and no other. -/
theorem absorbBlock_prev (hne : n ≠ b) (c : Nat) : ((absorbBlock h b n).header c).prev =
    if (h.header n).next = some c then some b else (h.header c).prev := by
  have hself : ∀ x y, ((Function.update (Function.update h.header b
      { h.header b with size := x }) b { h.header b with size := x, next := y }) c).prev =
        (h.header c).prev := by
    intro x y
    by_cases hc : c = b
    · subst hc
      simp
    · simp [hc]
  cases hnext : (h.header n).next with
  | none => simpa [absorbBlock, setPrev, Function.update_of_ne hne, hnext] using hself _ _
  | some d =>
      by_cases hcd : c = d
      · subst hcd
        simp [absorbBlock, setPrev, Function.update_of_ne hne, hnext]
      · have hdc : ¬ d = c := fun heq => hcd heq.symm
        simpa [absorbBlock, setPrev, Function.update_of_ne hne, hnext, hcd, hdc] using hself _ _

/-- Absorbing the next block keeps the back links. -/
theorem Backlinks.absorb {u v w : Bool}
    (hback : Backlinks h none 0 (pre ++ ⟨n, u⟩ :: ⟨m, v⟩ :: post))
    (hl : Lseg h (some 0) 0 (pre ++ ⟨n, u⟩ :: ⟨m, v⟩ :: post) none)
    (hb : b = span sizeofBlockHeader pre) (hc : c = b + (sizeofBlockHeader + n)) :
    Backlinks (absorbBlock h b c) none 0 (pre ++ ⟨n + (sizeofBlockHeader + m), w⟩ :: post) := by
  have hS := sizeofBlockHeader_eq
  have hprev := absorbBlock_prev (h := h) (b := b) (n := c) (by omega)
  have hsnoc : pre ++ ⟨n, u⟩ :: ⟨m, v⟩ :: post = (pre ++ [⟨n, u⟩]) ++ ⟨m, v⟩ :: post := by simp
  have hcspan : c = span sizeofBlockHeader (pre ++ [⟨n, u⟩]) := by
    simp only [span_append, span]
    omega
  -- the block after the absorbed one, if there is one, starts where it ends
  have hnext : ∀ x, (h.header c).next = some x → x = c + (sizeofBlockHeader + m) := fun x hx =>
    ((hsnoc ▸ hl).next_of_block hcspan hx).1
  have hkeep : ∀ x, x ≠ c + (sizeofBlockHeader + m) →
      ((absorbBlock h b c).header x).prev = (h.header x).prev := by
    intro x hx
    rw [hprev, if_neg fun heq => hx (hnext x heq)]
  obtain ⟨hpre, hbprev, -, hpost⟩ := backlinks_append.mp hback
  simp only [Nat.zero_add, ← hb] at hbprev hpost
  rw [← hc] at hpost
  refine backlinks_append.mpr ⟨hpre.congr fun x hx => hkeep x ?_, ?_, ?_⟩
  · have := (starts_bounds hx).2
    omega
  · rw [Nat.zero_add, ← hb, hkeep b (by omega)]
    exact hbprev
  · rw [Nat.zero_add, ← hb, show b + (sizeofBlockHeader + (n + (sizeofBlockHeader + m))) =
      c + (sizeofBlockHeader + m) by omega]
    cases post with
    | nil => trivial
    | cons t post =>
        have hlink := ((hsnoc ▸ hl).at_block hcspan).2.2.2.link
        refine ⟨by rw [hprev, if_pos hlink], hpost.2.congr fun x hx => hkeep x ?_⟩
        have := (starts_bounds hx).1
        omega

theorem Backlinks.release (hback : Backlinks h none 0 segs) :
    Backlinks (releaseBlock h b) none 0 segs := by
  apply hback.congr
  intro c _
  by_cases hc : c = b
  · simp [releaseBlock, hc]
  · simp [releaseBlock, hc]

/-- The forward merge keeps the back links. -/
theorem Backlinks.mergeForward (hback : Backlinks h none 0 (pre ++ ⟨n, false⟩ :: post))
    (hl : Lseg h (some 0) 0 (pre ++ ⟨n, false⟩ :: post) none)
    (hb : b = span sizeofBlockHeader pre) :
    Backlinks (mergeForward h b) none 0 (pre ++ mergeNext sizeofBlockHeader n post) := by
  obtain ⟨-, -, -, hpost⟩ := hl.at_block hb
  cases post with
  | nil =>
      have hnext : (h.header b).next = none := hpost
      rw [PingPongOS.mergeForward, hnext]
      exact hback
  | cons s rest =>
      obtain ⟨hnext, -, hu, -⟩ := hpost
      rw [PingPongOS.mergeForward, hnext]
      simp only at hu ⊢
      rw [hu]
      obtain ⟨m, _ | _⟩ := s
      · exact hback.absorb hl hb rfl
      · exact hback

/-- The backward merge keeps the back links. -/
theorem Backlinks.mergeBackward {p : Segment}
    (hback : Backlinks h none 0 (pre ++ p :: ⟨n, false⟩ :: post))
    (hl : Lseg h (some 0) 0 (pre ++ p :: ⟨n, false⟩ :: post) none)
    (hb : b = span sizeofBlockHeader (pre ++ [p])) :
    (h.header b).prev = some (span sizeofBlockHeader pre) ∧
      Backlinks (mergeBackward h b) none 0
        (pre ++ mergePrev sizeofBlockHeader p (⟨n, false⟩ :: post)) := by
  have hend : b = span sizeofBlockHeader pre + (sizeofBlockHeader + p.size) := by
    simpa [span] using hb
  have hprev : (h.header b).prev = some (span sizeofBlockHeader pre) := by
    have := (backlinks_append.mp hback).2.2.1
    rwa [Nat.zero_add, ← hend] at this
  refine ⟨hprev, ?_⟩
  obtain ⟨-, -, hu, -⟩ := hl.at_block rfl
  rw [PingPongOS.mergeBackward, hprev]
  simp only [hu]
  obtain ⟨m, _ | _⟩ := p
  · exact hback.absorb hl rfl hend
  · exact hback

/-- **Releasing a block** of a linked heap is the coalescing release. -/
theorem LinkedTiling.release (hl : LinkedTiling h (pre ++ ⟨n, true⟩ :: post))
    (htracks : Tracks h (pre ++ ⟨n, true⟩ :: post)) (hb : b = span sizeofBlockHeader pre) :
    LinkedTiling (mergeBackward (mergeForward (releaseBlock h b) b) b)
        (release sizeofBlockHeader pre n post) ∧
      Tracks (mergeBackward (mergeForward (releaseBlock h b) b) b)
        (release sizeofBlockHeader pre n post) := by
  have hrel := releaseBlock_tracks htracks hb
  have hback : Backlinks (releaseBlock h b) none 0 (pre ++ ⟨n, false⟩ :: post) := by
    obtain ⟨hpre, hself, hpost⟩ := backlinks_append.mp hl.back
    exact Backlinks.release (backlinks_append.mpr ⟨hpre, hself, hpost⟩)
  have hfwd := mergeForward_tracks hrel hb
  have hfback := hback.mergeForward hrel.chain hb
  have hco : Coalesced (Tiling.release sizeofBlockHeader pre n post) :=
    coalesced_release hl.coalesced
  obtain ⟨m, rest, heq⟩ := mergeNext_eq_cons sizeofBlockHeader n post
  rcases List.eq_nil_or_concat' pre with rfl | ⟨pre, p, rfl⟩
  · obtain rfl : b = 0 := hb
    have hnone : mergeBackward (mergeForward (releaseBlock h 0) 0) 0 =
        mergeForward (releaseBlock h 0) 0 := by
      rw [List.nil_append, heq] at hfback
      rw [mergeBackward, hfback.1]
    rw [hnone]
    exact ⟨⟨hfwd.chain, hfwd.whole, hfback, hco⟩, hfwd⟩
  · rw [heq, List.append_assoc] at hfwd hfback
    obtain ⟨hprev, hbback⟩ := hfback.mergeBackward hfwd.chain hb
    have hbwd := mergeBackward_tracks hfwd hb hprev
    rw [← heq, ← release_snoc] at hbback hbwd
    exact ⟨⟨hbwd.chain, hbwd.whole, hbback, hco⟩, hbwd⟩

/-! ## The counters -/

/-- The sum of the sizes of the used blocks. -/
def usedSizes (h : Heap) (bs : List Nat) : Nat :=
  (bs.map fun b => if (h.header b).isUsed then (h.header b).size else 0).sum

/-- `available = HEAP_SIZE - used sizes - 32 * (blocks - 1)`, and the rest is
allocated. -/
structure Counted (h : Heap) (bs : List Nat) : Prop where
  available : h.availableBytes + usedSizes h bs + sizeofBlockHeader * (bs.length - 1) = heapSize
  allocated : h.allocatedBytes + h.availableBytes = heapSize

/-- Free payloads, used payloads and headers make up the tiling. -/
theorem Lseg.span_eq {x y : Option Nat} {a : Nat} (hl : Lseg h x a segs y) :
    freeBytes segs + usedSizes h (starts sizeofBlockHeader a segs) +
      sizeofBlockHeader * (starts sizeofBlockHeader a segs).length =
        span sizeofBlockHeader segs := by
  induction segs generalizing x a with
  | nil => rfl
  | cons s segs ih =>
      obtain ⟨-, hs, hu, hrest⟩ := hl
      have hih := ih hrest
      simp only [usedSizes, starts, List.map_cons, List.sum_cons, List.length_cons, freeBytes,
        span, hs, hu, Nat.mul_succ] at hih ⊢
      cases s.used with
      | true =>
          simp only [if_true]
          omega
      | false =>
          simp only [Bool.false_eq_true, if_false]
          omega

/-- **The counters are right** exactly where they agree with the tiling. -/
theorem LinkedTiling.counted_iff (hl : LinkedTiling h segs) :
    Counted h (starts sizeofBlockHeader 0 segs) ↔ Tracks h segs := by
  have hS := sizeofBlockHeader_eq
  have hH := heapSize_eq
  have hspan := hl.chain.span_eq
  rw [hl.whole] at hspan
  have hpos : 0 < (starts sizeofBlockHeader 0 segs).length := by
    cases hsegs : segs with
    | nil =>
        have := hl.whole
        rw [hsegs, span] at this
        omega
    | cons s rest => simp [starts]
  constructor
  · intro hc
    have := hc.available
    exact ⟨hl.chain, hl.whole, by rw [hS] at *; omega, hc.allocated⟩
  · intro ht
    have := ht.available
    exact ⟨by rw [hS] at *; omega, ht.allocated⟩

/-! ## `mem_free` -/

/-- Block `p` has been freed, and nothing else: the heap is well-formed, the counters are
right, and the other used blocks are where they were, and as long. -/
def FreedExactly (h h' : Heap) (bs : List Nat) (p : Nat) : Prop :=
  (∃ bs', WellFormed h' bs' ∧ Counted h' bs' ∧ (Sizes16 h bs → Sizes16 h' bs')) ∧
    ∀ q n, Allocated h' q n ↔ Allocated h q n ∧ q ≠ p

/-- **`mem_free` is exact.**  On a well-formed heap with correct counters it succeeds on
the payload addresses of used blocks only; it then frees that block and keeps the heap
well-formed, and otherwise returns `ERROR` and changes nothing. -/
theorem mem_free_exact (hw : WellFormed h bs) (hc : Counted h bs) (ptr : Option Int) :
    ∃ r h', memFree h ptr = some (r, h') ∧
      (r = noError ↔ ∃ p n : Nat, ptr = some (p : Int) ∧ Allocated h p n) ∧
      (r = noError → ∀ p : Nat, ptr = some (p : Int) → FreedExactly h h' bs p) ∧
      (r ≠ noError → r = error ∧ h' = h) := by
  obtain ⟨segs, rfl, hl⟩ := wellFormed_iff.mp hw
  have ht := hl.counted_iff.mp hc
  rcases memFree_spec ht ptr with ⟨pre, n, post, rfl, hptr, hfree⟩ | ⟨hfree, hnot⟩
  · obtain ⟨hl', ht'⟩ := hl.release ht rfl
    refine ⟨noError, _, hfree, iff_of_true rfl ?_, fun _ p hp => ⟨⟨_,
      wellFormed_iff.mpr ⟨_, rfl, hl'⟩, hl'.counted_iff.mpr ht', fun hsizes => ?_⟩, ?_⟩,
      fun hne => absurd rfl hne⟩
    · refine ⟨span sizeofBlockHeader pre + sizeofBlockHeader, n, by rw [hptr]; rfl, ?_⟩
      exact (hl.chain.allocated_iff _ _).mpr ⟨(span sizeofBlockHeader pre, n),
        mem_usedAt.mpr ⟨pre, post, rfl, (Nat.zero_add _).symm⟩, rfl, rfl⟩
    · have hdvd : 16 ∣ sizeofBlockHeader := by rw [sizeofBlockHeader_eq]; decide
      exact hl'.chain.sizes16_iff.mpr
        (granular_release hdvd (hl.chain.sizes16_iff.mp hsizes))
    · obtain rfl : span sizeofBlockHeader pre + sizeofBlockHeader = p := by
        rw [hptr, Option.some.injEq] at hp
        omega
      exact allocated_release hl.chain hl'.chain (usedAt_release 0 n pre post)
  · refine ⟨error, h, hfree, iff_of_false (by decide) ?_, fun herr => absurd herr (by decide),
      fun _ => ⟨rfl, rfl⟩⟩
    rintro ⟨p, n, hptr, halloc⟩
    obtain ⟨x, hx, hp, -⟩ := (hl.chain.allocated_iff p n).mp halloc
    exact hnot x hx (by rw [hptr, hp]; rfl)

/-- The heap after the first allocation, of 112 bytes. -/
theorem first_allocation : LinkedTiling (takeBlock memInit 0 112)
      [⟨112, true⟩, ⟨heapSize - sizeofBlockHeader - 112 - sizeofBlockHeader, false⟩] ∧
    Tracks (takeBlock memInit 0 112)
      [⟨112, true⟩, ⟨heapSize - sizeofBlockHeader - 112 - sizeofBlockHeader, false⟩] := by
  have hS := sizeofBlockHeader_eq
  have hH := heapSize_eq
  have hfit : 112 + sizeofBlockHeader + 16 ≤ heapSize - sizeofBlockHeader := by omega
  have hl : LinkedTiling (takeBlock memInit 0 112)
      ([] ++ take sizeofBlockHeader 16 112 (heapSize - sizeofBlockHeader)) :=
    LinkedTiling.split_last linked_memInit rfl (by omega) hfit
  have hrep : Represents (takeBlock memInit 0 112)
      ([] ++ (take sizeofBlockHeader 16 112 (heapSize - sizeofBlockHeader) ++ [])) :=
    takeBlock_represents tiledBy_start.1 rfl (by decide) (by omega)
  have ht := hrep.tracks
  rw [List.append_nil] at ht
  rw [take, if_pos hfit, List.nil_append] at hl ht
  exact ⟨hl, ht⟩

/-- The first allocation is at 32 and is freed again; nothing is at 48. -/
theorem mem_free_exact_first : ∃ h', memFree (takeBlock memInit 0 112) (some 32) =
      some (noError, h') ∧
    FreedExactly (takeBlock memInit 0 112) h' (starts sizeofBlockHeader 0 [⟨112, true⟩,
      ⟨heapSize - sizeofBlockHeader - 112 - sizeofBlockHeader, false⟩]) 32 ∧
    memFree (takeBlock memInit 0 112) (some 48) = some (error, takeBlock memInit 0 112) := by
  have hw := wellFormed_iff.mpr ⟨_, rfl, first_allocation.1⟩
  have hc := first_allocation.1.counted_iff.mpr first_allocation.2
  obtain ⟨r, h', hfree, -, hfreed, -⟩ := mem_free_exact hw hc (some 32)
  obtain ⟨r₂, h₂, hfree₂, -, -, hkept⟩ := mem_free_exact hw hc (some 48)
  have hcode : (memFree (takeBlock memInit 0 112) (some 32)).map Prod.fst = some noError := by
    decide +kernel
  have hcode₂ : (memFree (takeBlock memInit 0 112) (some 48)).map Prod.fst = some error := by
    decide +kernel
  rw [hfree, Option.map_some, Option.some.injEq] at hcode
  rw [hfree₂, Option.map_some, Option.some.injEq] at hcode₂
  have hr : r = noError := hcode
  have hr₂ : r₂ = error := hcode₂
  have hsame := (hkept (by rw [hr₂]; decide)).2
  rw [hr] at hfree hfreed
  rw [hr₂, hsame] at hfree₂
  exact ⟨h', hfree, hfreed rfl 32 rfl, hfree₂⟩

/-! ## `mem_alloc` -/

/-- The next multiple of 16. -/
def roundUp16 (size : Int) : Nat := (size.toNat + 15) / 16 * 16

theorem roundedSize_eq {size : Int} (hpos : 0 < size) : roundedSize size = roundUp16 size := by
  obtain ⟨hdvd, hle, hlt⟩ := roundedSize_spec hpos
  unfold roundUp16
  omega

/-- **First fit is complete.**  On a well-formed heap with correct counters `mem_alloc`
returns `NULL`, and changes nothing, only if no free block is large enough; otherwise it
returns the payload of the lowest one that is. -/
theorem first_fit_complete (hw : WellFormed h bs) (hc : Counted h bs) (size : Int) :
    ∃ p h', memAlloc h size = some (p, h') ∧
      (p = none ↔ size ≤ 0 ∨ ∀ b ∈ bs, ¬ Suits h (roundUp16 size) b) ∧ (p = none → h' = h) ∧
      ∀ q, p = some q → ∃ b, q = b + sizeofBlockHeader ∧
        IsLeast {c | c ∈ bs ∧ Suits h (roundUp16 size) c} b := by
  obtain ⟨segs, rfl, hl⟩ := wellFormed_iff.mp hw
  have ht := hl.counted_iff.mp hc
  rcases memAlloc_spec ht size with ⟨hnull, hwhy⟩ |
    ⟨pre, n, post, rfl, hpos, -, hle, -, hbefore, hsome⟩
  · refine ⟨none, h, hnull, iff_of_true rfl ?_, fun _ => rfl, fun q hq => absurd hq (by simp)⟩
    by_cases hpos : 0 < size
    · right
      rw [← roundedSize_eq hpos]
      exact hwhy.resolve_left (by omega)
    · exact Or.inl (by omega)
  · obtain ⟨-, hsize, hused, -⟩ := hl.chain.at_block rfl
    have hsuits : Suits h (roundedSize size) (span sizeofBlockHeader pre) := by
      refine ⟨hused, ?_⟩
      rw [hsize]
      exact hle
    rw [← roundedSize_eq hpos]
    have hmem : span sizeofBlockHeader pre ∈
        starts sizeofBlockHeader 0 (pre ++ ⟨n, false⟩ :: post) :=
      mem_starts.mpr ⟨pre, _, post, rfl, (Nat.zero_add _).symm⟩
    refine ⟨_, _, hsome, iff_of_false (by simp) ?_, fun hq => absurd hq (by simp), fun q hq =>
      ⟨_, (Option.some.inj hq).symm, ⟨hmem, hsuits⟩, fun c hcs => ?_⟩⟩
    · rintro (hneg | hnone)
      · omega
      · exact hnone _ hmem hsuits
    · obtain ⟨hcmem, hcsuits⟩ := hcs
      rw [starts_around, Nat.zero_add, List.mem_append, List.mem_cons] at hcmem
      rcases hcmem with hcmem | rfl | hcmem
      · exact absurd hcsuits (hbefore c hcmem)
      · exact Nat.le_refl _
      · have := (starts_bounds hcmem).1
        omega

/-- A request of 200 bytes after the first allocation is given the second block, which has
room for the 208 bytes it is rounded to. -/
theorem first_fit_complete_second : ∃ h', memAlloc (takeBlock memInit 0 112) 200 =
      some (some 176, h') ∧
    IsLeast {c | c ∈ [0, 144] ∧ Suits (takeBlock memInit 0 112) 208 c} 144 := by
  have hblocks : starts sizeofBlockHeader 0 [⟨112, true⟩,
      ⟨heapSize - sizeofBlockHeader - 112 - sizeofBlockHeader, false⟩] = [0, 144] := by
    decide +kernel
  have hpointer : (memAlloc (takeBlock memInit 0 112) 200).map Prod.fst = some (some 176) := by
    decide +kernel
  obtain ⟨p, h', halloc, -, -, hleast⟩ := first_fit_complete
    (wellFormed_iff.mpr ⟨_, rfl, first_allocation.1⟩)
    (first_allocation.1.counted_iff.mpr first_allocation.2) 200
  rw [halloc, Option.map_some, Option.some.injEq] at hpointer
  have hp : p = some 176 := hpointer
  rw [hp] at halloc
  obtain ⟨b, hb, hleast⟩ := hleast 176 hp
  rw [hblocks] at hleast
  obtain rfl : b = 144 := by
    rw [sizeofBlockHeader_eq] at hb
    omega
  exact ⟨h', halloc, hleast⟩

end PingPongOS
