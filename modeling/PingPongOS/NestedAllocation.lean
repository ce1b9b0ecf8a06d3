import PingPongOS.ExactHeapCalls
import PingPongOS.TaskCreation

/-!
# Nested allocations

Blocks that are freed in the opposite order of their allocation: a block is allocated, calls
that are nested in the same way run while it is held, and it is freed.  Such calls give the
heap back as they found it.  The `prev` links that a split leaves stale do no harm here: the
block with the stale link is in use, and freeing the block that was split writes the link
again before it is read.

The one condition is on the allocations: the block handed out is a header larger than the
request, so the split test of `mem_alloc` does not wrap.
-/

namespace PingPongOS

open Tiling Runs

/-- Calls in nested order: nothing, or a block of `size` bytes that is held during `inner`,
and then `rest`.  Where the allocation fails, `inner` is not run. -/
inductive Nest
  | done
  | block (size : Int) (inner rest : Nest)

/-- The heap after the calls; `none` if a call does not return or a `mem_free` fails. -/
def Nest.exec : Nest → Heap → Option Heap
  | .done, h => some h
  | .block size inner rest, h =>
      match memAlloc h size with
      | none => none
      | some (none, h₁) => rest.exec h₁
      | some (some p, h₁) =>
          (inner.exec h₁).bind fun h₂ => (memFree h₂ (some p)).bind fun r =>
            if r.1 = noError then rest.exec r.2 else none

/-- Every block handed out is a header larger than the request. -/
def Nest.roomy : Nest → Heap → Bool
  | .done, _ => true
  | .block size inner rest, h =>
      match memAlloc h size with
      | none => true
      | some (none, h₁) => rest.roomy h₁
      | some (some p, h₁) =>
          decide (roundedSize size + sizeofBlockHeader ≤
              (h.header (p - sizeofBlockHeader)).size) &&
            inner.roomy h₁ &&
            match (inner.exec h₁).bind fun h₂ => memFree h₂ (some p) with
            | none => true
            | some r => rest.roomy r.2

/-- Every block with the block before it. -/
def backs : Option Nat → Nat → List Segment → List (Nat × Option Nat)
  | _, _, [] => []
  | p, a, s :: rest => (a, p) :: backs (some a) (a + (sizeofBlockHeader + s.size)) rest

/-- A coalesced heap whose free blocks point back to the block before them.  Blocks in use
may not. -/
structure LooselyLinked (h : Heap) (segs : List Segment) : Prop where
  represents : Represents h segs
  coalesced : Coalesced segs
  back : ∀ x ∈ backs none 0 segs, (h.header x.1).isUsed = false → (h.header x.1).prev = x.2

/-- **The heap is given back**: the same blocks of the same sizes, in use or free as before,
under the same numbers and with the same counters.  A `prev` link is the one it was, or the
right one. -/
structure GivenBack (h h' : Heap) (segs : List Segment) : Prop where
  represents : Represents h' segs
  id : ∀ b ∈ starts sizeofBlockHeader 0 segs, (h'.header b).id = (h.header b).id
  back : ∀ x ∈ backs none 0 segs,
    (h'.header x.1).prev = (h.header x.1).prev ∨ (h'.header x.1).prev = x.2

variable {h h' h₁ h₂ : Heap} {segs pre post : List Segment} {p q : Option Nat}
  {a b c n m r : Nat} {s : Segment} {bs : List Nat} {x : Nat × Option Nat}

/-! ## Blocks and the blocks before them -/

theorem backs_append {xs ys : List Segment} :
    backs p a (xs ++ ys) =
      backs p a xs ++ backs (lastBlock p a xs) (a + span sizeofBlockHeader xs) ys := by
  induction xs generalizing p a with
  | nil => rfl
  | cons s xs ih =>
      simp only [List.cons_append, backs, ih, lastBlock, span, Nat.add_assoc]

theorem backs_fst : (backs p a segs).map Prod.fst = starts sizeofBlockHeader a segs := by
  induction segs generalizing p a with
  | nil => rfl
  | cons s segs ih => simp only [backs, List.map_cons, starts, ih]

theorem mem_starts_of_backs (hx : x ∈ backs p a segs) :
    x.1 ∈ starts sizeofBlockHeader a segs := by
  rw [← backs_fst (p := p)]
  exact List.mem_map_of_mem hx

/-- The back links are those of the list exactly when each is the block before. -/
theorem backlinks_iff :
    Backlinks h p a segs ↔ ∀ x ∈ backs p a segs, (h.header x.1).prev = x.2 := by
  induction segs generalizing p a with
  | nil => simp [Backlinks, backs]
  | cons s segs ih => simp only [Backlinks, backs, List.forall_mem_cons, ih]

/-- The block before the first matters to the first only. -/
theorem backs_change (hx : x ∈ backs p a segs) :
    x = (a, p) ∨ a < x.1 ∧ x ∈ backs q a segs := by
  cases segs with
  | nil => cases hx
  | cons s segs =>
      simp only [backs, List.mem_cons] at hx ⊢
      rcases hx with hx | hx
      · exact Or.inl hx
      · have := (starts_bounds (mem_starts_of_backs hx)).1
        have hS := sizeofBlockHeader_eq
        exact Or.inr ⟨by omega, Or.inr hx⟩

/-- Two heaps with one tiling agree on every block up to number and `prev`. -/
theorem Lseg.sameBlock {y z : Option Nat} (hl : Lseg h y a segs z) {y' : Option Nat}
    (hl' : Lseg h' y' a segs z) :
    ∀ b ∈ starts sizeofBlockHeader a segs, SameBlock (h'.header b) (h.header b) := by
  induction segs generalizing y y' a with
  | nil => simp [starts]
  | cons s segs ih =>
      obtain ⟨-, hs, hu, hrest⟩ := hl
      obtain ⟨-, hs', hu', hrest'⟩ := hl'
      have hnext : (h'.header a).next = (h.header a).next := by
        cases segs with
        | nil => exact hrest'.trans hrest.symm
        | cons t segs => rw [hrest.link, hrest'.link]
      simp only [starts, List.forall_mem_cons]
      exact ⟨⟨hs'.trans hs.symm, hu'.trans hu.symm, hnext⟩, ih hrest hrest'⟩

/-! ## Giving back is kept -/

theorem GivenBack.refl (hr : Represents h segs) : GivenBack h h segs where
  represents := hr
  id _ _ := rfl
  back _ _ := Or.inl rfl

theorem GivenBack.trans (h₁₂ : GivenBack h h₁ segs) (h₂₃ : GivenBack h₁ h₂ segs) :
    GivenBack h h₂ segs where
  represents := h₂₃.represents
  id b hb := (h₂₃.id b hb).trans (h₁₂.id b hb)
  back x hx := by
    rcases h₂₃.back x hx with heq | heq
    · rw [heq]
      exact h₁₂.back x hx
    · exact Or.inr heq

/-- A heap given back is loosely linked again. -/
theorem LooselyLinked.givenBack (hl : LooselyLinked h segs) (hg : GivenBack h h' segs) :
    LooselyLinked h' segs where
  represents := hg.represents
  coalesced := hl.coalesced
  back x hx hfree := by
    have hsame := hl.represents.chain.sameBlock hg.represents.chain x.1 (mem_starts_of_backs hx)
    rcases hg.back x hx with heq | heq
    · exact heq.trans (hl.back x hx (hsame.2.1.symm.trans hfree))
    · exact heq

/-- A well-formed heap given back has the headers it had. -/
theorem GivenBack.header_eq (hl : LinkedTiling h segs) (hg : GivenBack h h' segs) :
    ∀ b ∈ starts sizeofBlockHeader 0 segs, h'.header b = h.header b := by
  intro b hb
  obtain ⟨hsize, hused, hnext⟩ := hl.chain.sameBlock hg.represents.chain b hb
  have hid := hg.id b hb
  rw [← backs_fst (p := none), List.mem_map] at hb
  obtain ⟨x, hx, rfl⟩ := hb
  have hprev : (h'.header x.1).prev = (h.header x.1).prev := by
    rcases hg.back x hx with heq | heq
    · exact heq
    · exact heq.trans (backlinks_iff.mp hl.back x hx).symm
  cases hh : h.header x.1
  cases hh' : h'.header x.1
  simp_all

/-! ## Taking a block -/

theorem mem_backs_around : x ∈ backs none 0 (pre ++ s :: post) ↔
    x ∈ backs none 0 pre ∨ x = (span sizeofBlockHeader pre, lastBlock none 0 pre) ∨
      x ∈ backs (some (span sizeofBlockHeader pre))
        (span sizeofBlockHeader pre + (sizeofBlockHeader + s.size)) post := by
  simp only [backs_append, backs, List.mem_append, List.mem_cons, Nat.zero_add]

/-- No block starts inside another. -/
theorem mem_starts_apart (hb : b = span sizeofBlockHeader pre)
    (hc : c ∈ starts sizeofBlockHeader 0 (pre ++ s :: post)) :
    c + sizeofBlockHeader ≤ b ∨ c = b ∨ b + (sizeofBlockHeader + s.size) ≤ c := by
  rw [starts_append, List.mem_append, starts, List.mem_cons, Nat.zero_add, ← hb] at hc
  rcases hc with hc | hc | hc
  · have := (starts_bounds hc).2
    omega
  · exact Or.inr (Or.inl hc)
  · exact Or.inr (Or.inr (starts_bounds hc).1)

/-- A split writes the header of the remainder and, but for size, use and `next`, no other. -/
theorem takeBlock_keeps (hsize : (h.header b).size = n) (hn : n < 2 ^ 32)
    (hroom : r + sizeofBlockHeader ≤ n)
    (hc : r + sizeofBlockHeader + 16 ≤ n → c ≠ b + (sizeofBlockHeader + r)) :
    ((takeBlock h b r).header c).id = (h.header c).id ∧
      ((takeBlock h b r).header c).prev = (h.header c).prev := by
  by_cases hfit : r + sizeofBlockHeader + 16 ≤ n
  · by_cases hcb : c = b
    · rw [hcb, (takeBlock_split_header hsize hn hfit).1]
      exact ⟨rfl, rfl⟩
    · rw [takeBlock_header_of_ne hcb (hc hfit)]
      exact ⟨rfl, rfl⟩
  · rw [takeBlock_whole hsize hn hroom hfit, commitBlock_header]
    by_cases hcb : c = b
    · simp [hcb]
    · simp [hcb]

/-- The block after a free one is in use. -/
theorem next_used_of_coalesced (hco : Coalesced (pre ++ ⟨n, false⟩ :: s :: post)) :
    s.used = true := by
  have hpair := (List.isChain_append.mp hco).2.1
  rw [List.isChain_cons_cons] at hpair
  simpa using hpair.1

/-- The block before a free one is in use. -/
theorem prev_used_of_coalesced (hco : Coalesced (pre ++ [s] ++ ⟨n, false⟩ :: post)) :
    s.used = true := by
  have hlast := (List.isChain_append.mp hco).2.2 s (by simp) ⟨n, false⟩ (by simp)
  simpa using hlast

/-- In the heap too. -/
theorem LooselyLinked.next_used (hl : LooselyLinked h (pre ++ ⟨n, false⟩ :: s :: post))
    (hb : b = span sizeofBlockHeader pre) :
    (h.header (b + (sizeofBlockHeader + n))).isUsed = true := by
  obtain ⟨-, -, -, hrest⟩ := hl.represents.tracks.at_block hb
  obtain ⟨-, -, hused, -⟩ := hrest
  exact hused.trans (next_used_of_coalesced hl.coalesced)

/-- A link after a block that is free is the right one or that of a block in use. -/
theorem LooselyLinked.back_after (hl : LooselyLinked h (pre ++ ⟨n, false⟩ :: post))
    (hb : b = span sizeofBlockHeader pre)
    (hx : x ∈ backs q (b + (sizeofBlockHeader + n)) post)
    (hfree : (h.header x.1).isUsed = false) : (h.header x.1).prev = x.2 := by
  rcases backs_change (q := some b) hx with rfl | ⟨-, hx'⟩
  · cases post with
    | nil => cases hx
    | cons s post => exact absurd ((hl.next_used hb).symm.trans hfree) (by simp)
  · refine hl.back x ?_ hfree
    rw [mem_backs_around, ← hb]
    exact Or.inr (Or.inr hx')

/-- **Taking a block** keeps a heap loosely linked: the block after the remainder, whose
link is stale, is in use. -/
theorem looselyLinked_take (hl : LooselyLinked h (pre ++ ⟨n, false⟩ :: post))
    (hb : b = span sizeofBlockHeader pre) (hr : 0 < r ∧ 16 ∣ r)
    (hroom : r + sizeofBlockHeader ≤ n) :
    LooselyLinked (takeBlock h b r) (pre ++ (take sizeofBlockHeader 16 r n ++ post)) := by
  have hS := sizeofBlockHeader_eq
  have hH := heapSize_eq
  have hrep := takeBlock_represents hl.represents hb hr hroom
  have hco : Coalesced (pre ++ (take sizeofBlockHeader 16 r n ++ post)) := by
    rw [← List.append_assoc]
    exact coalesced_take hl.coalesced
  refine ⟨hrep, hco, ?_⟩
  obtain ⟨-, hsize, -, -⟩ := hl.represents.tracks.at_block hb
  have hn : n < 2 ^ 32 := by
    have := hl.represents.tracks.size_lt
    simp only at this
    omega
  intro x hx hfree
  have hkeep := takeBlock_keeps (c := x.1) hsize hn hroom
  have hold := hl.back x
  rw [mem_backs_around, ← hb] at hold
  by_cases hfit : r + sizeofBlockHeader + 16 ≤ n
  · rw [take, if_pos hfit, List.cons_append] at hx hrep
    obtain ⟨-, -, hused, -⟩ := hrep.tracks.at_block hb
    rw [mem_backs_around, ← hb] at hx
    rcases hx with hx | hx | hx
    · have := (starts_bounds (mem_starts_of_backs hx)).2
      rw [(hkeep fun _ => by omega).2]
      rw [takeBlock_header_of_ne (by omega) (by omega)] at hfree
      exact hold (Or.inl hx) hfree
    · simp only [hx, hused] at hfree
      cases hfree
    simp only [List.cons_append, List.nil_append, backs, List.mem_cons] at hx
    rcases hx with hx | hx
    · simp only [hx, (takeBlock_split_header hsize hn hfit).2]
    have hrem : b + (sizeofBlockHeader + r) + (sizeofBlockHeader + (n - r - sizeofBlockHeader)) =
        b + (sizeofBlockHeader + n) := by omega
    rw [hrem] at hx
    have hlow := (starts_bounds (mem_starts_of_backs hx)).1
    rw [takeBlock_header_of_ne (by omega) (by omega)] at hfree
    rw [(hkeep fun _ => by omega).2]
    exact hl.back_after hb hx hfree
  · have htake : take sizeofBlockHeader 16 r n = [⟨n, true⟩] := if_neg hfit
    rw [htake, List.singleton_append] at hx hrep
    obtain ⟨-, -, hused, -⟩ := hrep.tracks.at_block hb
    have hother : ∀ c, c ≠ b → (takeBlock h b r).header c = h.header c := fun c hc => by
      rw [takeBlock_whole hsize hn hroom hfit]
      simp [hc]
    rw [mem_backs_around, ← hb] at hx
    rw [(hkeep fun hfit' => absurd hfit' hfit).2]
    rcases hx with hx | hx | hx
    · have := (starts_bounds (mem_starts_of_backs hx)).2
      rw [hother _ (by omega)] at hfree
      exact hold (Or.inl hx) hfree
    · simp only [hx, hused] at hfree
      cases hfree
    · have hlow := (starts_bounds (mem_starts_of_backs hx)).1
      simp only at hlow
      rw [hother _ (by omega)] at hfree
      exact hold (Or.inr (Or.inr hx)) hfree

/-! ## Freeing it again -/

theorem releaseBlock_keeps (h : Heap) (b c : Nat) :
    ((releaseBlock h b).header c).id = (h.header c).id ∧
      ((releaseBlock h b).header c).prev = (h.header c).prev := by
  by_cases hc : c = b
  · simp [releaseBlock, hc]
  · simp [releaseBlock, hc]

/-- Absorbing a block keeps every number. -/
theorem absorbBlock_id (h : Heap) (b n c : Nat) :
    ((absorbBlock h b n).header c).id = (h.header c).id := by
  have hset : ∀ (k : Heap) (x q : Option Nat),
      ((setPrev k x q).header c).id = (k.header c).id := by
    intro k x q
    cases x with
    | none => rfl
    | some d =>
        by_cases hcd : c = d
        · simp [setPrev, hcd]
        · simp [setPrev, hcd]
  rw [absorbBlock, hset]
  by_cases hc : c = b
  · simp [hc]
  · simp [hc]

/-- Freeing a block in use. -/
theorem memFree_block_at (hrep : Tracks h (pre ++ ⟨m, true⟩ :: post))
    (hb : b = span sizeofBlockHeader pre) :
    memFree h (some ((b : Int) + sizeofBlockHeader)) =
      some (noError, mergeBackward (mergeForward (releaseBlock h b) b) b) := by
  rcases memFree_spec hrep (some ((b : Int) + sizeofBlockHeader)) with
    ⟨pre', n', post', -, hptr, hfree⟩ | ⟨-, hnone⟩
  · have hpre : span sizeofBlockHeader pre' = b := by
      have := Option.some.inj hptr
      omega
    rw [hpre] at hfree
    exact hfree
  · have hmem : (b, m) ∈ usedAt sizeofBlockHeader 0 (pre ++ ⟨m, true⟩ :: post) :=
      mem_usedAt.mpr ⟨pre, post, rfl, by omega⟩
    exact absurd rfl (hnone _ hmem)

/-- No backward merge where the block before is in use. -/
theorem mergeBackward_of_used (hrep : Tracks h (pre ++ ⟨m, true⟩ :: post))
    (hb : b = span sizeofBlockHeader pre) (hprev : (h.header b).prev = lastBlock none 0 pre)
    (hused : ∀ pre' t, pre = pre' ++ [t] → t.used = true) :
    mergeBackward (mergeForward (releaseBlock h b) b) b = mergeForward (releaseBlock h b) b := by
  have hS := sizeofBlockHeader_eq
  obtain ⟨hkeep, hother⟩ := mergeForward_releaseBlock hrep hb
  rw [mergeBackward, hkeep, hprev]
  rcases List.eq_nil_or_concat' pre with rfl | ⟨pre, t, rfl⟩
  · rfl
  · have hlt : span sizeofBlockHeader pre ≠ b := by
      simp only [span_append, span] at hb
      omega
    rw [List.append_assoc, List.singleton_append] at hrep
    obtain ⟨-, -, hu, -⟩ := hrep.at_block (b := span sizeofBlockHeader pre) rfl
    rw [lastBlock_snoc, Nat.zero_add]
    simp only [hother _ hlt, hu, hused pre t rfl, if_true]

/-- The remainder is absorbed again. -/
theorem mergeForward_of_free (hrep : Tracks h (pre ++ ⟨r, true⟩ :: ⟨m, false⟩ :: post))
    (hb : b = span sizeofBlockHeader pre) :
    mergeForward (releaseBlock h b) b =
      absorbBlock (releaseBlock h b) b (b + (sizeofBlockHeader + r)) := by
  obtain ⟨-, -, -, hrest⟩ := (releaseBlock_tracks hrep hb).at_block hb
  obtain ⟨hnext, -, hu, -⟩ := hrest
  rw [mergeForward, hnext]
  simp only at hu ⊢
  rw [hu]
  rfl

/-- A block in use is not absorbed. -/
theorem mergeForward_of_used (hrep : Tracks h (pre ++ ⟨n, true⟩ :: post))
    (hb : b = span sizeofBlockHeader pre) (hused : ∀ t rest, post = t :: rest → t.used = true) :
    mergeForward (releaseBlock h b) b = releaseBlock h b := by
  obtain ⟨-, -, -, hrest⟩ := (releaseBlock_tracks hrep hb).at_block hb
  cases post with
  | nil =>
      have hnone : ((releaseBlock h b).header b).next = none := hrest
      rw [mergeForward, hnone]
  | cons t post =>
      obtain ⟨hnext, -, hu, -⟩ := hrest
      rw [mergeForward, hnext]
      simp only at hu ⊢
      rw [hu, hused t post rfl]
      rfl

/-- Giving back a block that was split. -/
theorem givenBack_split (hl : LooselyLinked h (pre ++ ⟨n, false⟩ :: post))
    (hb : b = span sizeofBlockHeader pre) (hn : n < 2 ^ 32)
    (hfit : r + sizeofBlockHeader + 16 ≤ n)
    (hg : GivenBack (takeBlock h b r) h₂
      (pre ++ ⟨r, true⟩ :: ⟨n - r - sizeofBlockHeader, false⟩ :: post))
    (hrep : Represents (mergeForward (releaseBlock h₂ b) b) (pre ++ ⟨n, false⟩ :: post)) :
    GivenBack h (mergeForward (releaseBlock h₂ b) b) (pre ++ ⟨n, false⟩ :: post) := by
  have hS := sizeofBlockHeader_eq
  obtain ⟨-, hsize, -, -⟩ := hl.represents.tracks.at_block hb
  have hkeep := fun c => takeBlock_keeps (c := c) hsize hn (show r + sizeofBlockHeader ≤ n by omega)
  have hrem : b + (sizeofBlockHeader + r) + (sizeofBlockHeader + (n - r - sizeofBlockHeader)) =
      b + (sizeofBlockHeader + n) := by omega
  obtain ⟨-, -, -, hrest⟩ := (releaseBlock_tracks hg.represents.tracks hb).at_block hb
  obtain ⟨-, -, -, hrest⟩ := hrest
  simp only at hrest
  rw [hrem] at hrest
  have habs := mergeForward_of_free hg.represents.tracks hb
  rw [habs] at hrep ⊢
  have hback : ∀ x : Nat × Option Nat, x.1 ≠ b + (sizeofBlockHeader + r) →
      x.1 ≠ b + (sizeofBlockHeader + n) →
      x ∈ backs none 0 (pre ++ ⟨r, true⟩ :: ⟨n - r - sizeofBlockHeader, false⟩ :: post) →
      ((absorbBlock (releaseBlock h₂ b) b (b + (sizeofBlockHeader + r))).header x.1).prev =
          (h.header x.1).prev ∨
        ((absorbBlock (releaseBlock h₂ b) b (b + (sizeofBlockHeader + r))).header x.1).prev =
          x.2 := by
    intro x hnew hafter hx
    rw [absorbBlock_prev (by omega), if_neg fun heq => hafter (hrest.next_eq heq).1,
      (releaseBlock_keeps h₂ b x.1).2, ← (hkeep x.1 fun _ => hnew).2]
    exact hg.back x hx
  refine ⟨hrep, fun c hc => ?_, fun x hx => ?_⟩
  · have hapart := mem_starts_apart hb hc
    simp only at hapart
    rw [absorbBlock_id, (releaseBlock_keeps h₂ b c).1, ← (hkeep c fun _ => by omega).1]
    refine hg.id c ?_
    have hsplit : c ∈ starts sizeofBlockHeader 0
        (pre ++ (take sizeofBlockHeader 16 r n ++ post)) :=
      (mem_starts_split hfit).mpr (Or.inl hc)
    rw [take, if_pos hfit] at hsplit
    exact hsplit
  · have hlow := mem_starts_apart hb (mem_starts_of_backs hx)
    simp only at hlow
    rw [mem_backs_around, ← hb] at hx
    simp only at hx
    have hmem : x ∈ backs none 0
        (pre ++ ⟨r, true⟩ :: ⟨n - r - sizeofBlockHeader, false⟩ :: post) ↔ _ := mem_backs_around
    simp only [← hb, backs, List.mem_cons, hrem] at hmem
    rcases hx with hx | hx | hx
    · have := (starts_bounds (mem_starts_of_backs hx)).2
      exact hback x (by omega) (by omega) (hmem.mpr (Or.inl hx))
    · have hxb : x.1 = b := by rw [hx]
      exact hback x (by omega) (by omega) (hmem.mpr (Or.inr (Or.inl hx)))
    rcases backs_change (q := some (b + (sizeofBlockHeader + r))) hx with hx' | ⟨hgt, hx'⟩
    · -- the link that the split left stale
      right
      have hxa : x.1 = b + (sizeofBlockHeader + n) := by rw [hx']
      have hlink : ((releaseBlock h₂ b).header (b + (sizeofBlockHeader + r))).next =
          some (b + (sizeofBlockHeader + n)) := by
        cases post with
        | nil => cases hx
        | cons t post => exact hrest.link
      rw [absorbBlock_prev (by omega), hxa, if_pos hlink, hx']
    · exact hback x (by omega) (by omega) (hmem.mpr (Or.inr (Or.inr (Or.inr hx'))))

/-- **A block is given back**: freeing it after calls that gave back what they found leaves
the heap as it was before the block was taken. -/
theorem givenBack_free (hl : LooselyLinked h (pre ++ ⟨n, false⟩ :: post))
    (hb : b = span sizeofBlockHeader pre) (hroom : r + sizeofBlockHeader ≤ n)
    (hg : GivenBack (takeBlock h b r) h₂ (pre ++ (take sizeofBlockHeader 16 r n ++ post))) :
    ∃ h₃, memFree h₂ (some ((b : Int) + sizeofBlockHeader)) = some (noError, h₃) ∧
      GivenBack h h₃ (pre ++ ⟨n, false⟩ :: post) := by
  have hS := sizeofBlockHeader_eq
  have hH := heapSize_eq
  obtain ⟨-, hsize, hfree, -⟩ := hl.represents.tracks.at_block hb
  have hn : n < 2 ^ 32 := by
    have := hl.represents.tracks.size_lt
    simp only at this
    omega
  have hused : ∀ pre' t, pre = pre' ++ [t] → t.used = true := by
    rintro pre' t rfl
    exact prev_used_of_coalesced hl.coalesced
  -- the link of the block itself is the one it had, and that was right
  have hprev : (h₂.header b).prev = lastBlock none 0 pre := by
    have hmem : (b, lastBlock none 0 pre) ∈
        backs none 0 (pre ++ (take sizeofBlockHeader 16 r n ++ post)) := by
      rw [take]
      split
      · rw [List.cons_append, mem_backs_around, ← hb]
        exact Or.inr (Or.inl rfl)
      · rw [List.cons_append, mem_backs_around, ← hb]
        exact Or.inr (Or.inl rfl)
    have hkeep := (takeBlock_keeps (c := b) hsize hn hroom fun _ => by omega).2
    have hold := hl.back (b, lastBlock none 0 pre)
      (mem_backs_around.mpr (Or.inr (Or.inl (by rw [← hb])))) hfree
    have hback := hg.back _ hmem
    simp only at hold hback
    rw [hkeep, hold, or_self] at hback
    exact hback
  by_cases hfit : r + sizeofBlockHeader + 16 ≤ n
  · rw [take, if_pos hfit, List.cons_append, List.singleton_append] at hg
    have hmerge : mergeNext sizeofBlockHeader r (⟨n - r - sizeofBlockHeader, false⟩ :: post) =
        ⟨n, false⟩ :: post := by
      have hsum : r + (sizeofBlockHeader + (n - r - sizeofBlockHeader)) = n := by omega
      simp only [mergeNext, Bool.false_eq_true, if_false, hsum]
    have hrep := mergeForward_tracks (releaseBlock_tracks hg.represents.tracks hb) hb
    rw [hmerge] at hrep
    refine ⟨_, memFree_block_at hg.represents.tracks hb, ?_⟩
    rw [mergeBackward_of_used hg.represents.tracks hb hprev hused]
    exact givenBack_split hl hb hn hfit hg (hrep.represents hl.represents.granular)
  · have htake : take sizeofBlockHeader 16 r n = [⟨n, true⟩] := if_neg hfit
    rw [htake, List.singleton_append] at hg
    refine ⟨_, memFree_block_at hg.represents.tracks hb, ?_⟩
    rw [mergeBackward_of_used hg.represents.tracks hb hprev hused,
      mergeForward_of_used hg.represents.tracks hb fun t rest hpost => ?_]
    · have hrep := releaseBlock_tracks hg.represents.tracks hb
      refine ⟨hrep.represents hl.represents.granular, fun c hc => ?_, fun x hx => ?_⟩
      · rw [(releaseBlock_keeps h₂ b c).1,
          ← (takeBlock_keeps (c := c) hsize hn hroom fun hfit' => absurd hfit' hfit).1]
        refine hg.id c ?_
        rw [starts_around] at hc ⊢
        exact hc
      · rw [(releaseBlock_keeps h₂ b x.1).2,
          ← (takeBlock_keeps (c := x.1) hsize hn hroom fun hfit' => absurd hfit' hfit).2]
        refine hg.back x ?_
        rw [mem_backs_around] at hx ⊢
        exact hx
    · subst hpost
      exact next_used_of_coalesced hl.coalesced

/-! ## Runs -/

theorem Nest.exec_null {size : Int} {inner rest : Nest}
    (halloc : memAlloc h size = some (none, h₁)) :
    (Nest.block size inner rest).exec h = rest.exec h₁ ∧
      (Nest.block size inner rest).roomy h = rest.roomy h₁ := by
  rw [Nest.exec, Nest.roomy, halloc]
  exact ⟨rfl, rfl⟩

theorem Nest.exec_block {size : Int} {inner rest : Nest} {p : Nat} {h₃ : Heap}
    (halloc : memAlloc h size = some (some p, h₁)) (hinner : inner.exec h₁ = some h₂)
    (hfree : memFree h₂ (some p) = some (noError, h₃)) :
    (Nest.block size inner rest).exec h = rest.exec h₃ := by
  rw [Nest.exec, halloc]
  simp only
  rw [hinner, Option.bind_some, hfree, Option.bind_some]
  exact if_pos rfl

theorem Nest.roomy_block {size : Int} {inner rest : Nest} {p : Nat}
    (halloc : memAlloc h size = some (some p, h₁))
    (hroomy : (Nest.block size inner rest).roomy h = true) :
    roundedSize size + sizeofBlockHeader ≤ (h.header (p - sizeofBlockHeader)).size ∧
      inner.roomy h₁ = true ∧
      ∀ h₂ h₃ e, inner.exec h₁ = some h₂ → memFree h₂ (some p) = some (e, h₃) →
        rest.roomy h₃ = true := by
  rw [Nest.roomy, halloc] at hroomy
  obtain ⟨hboth, hrest⟩ := Bool.and_eq_true_iff.mp hroomy
  obtain ⟨hroom, hinner⟩ := Bool.and_eq_true_iff.mp hboth
  refine ⟨of_decide_eq_true hroom, hinner, fun h₂ h₃ e hexec hfree => ?_⟩
  rw [hexec, Option.bind_some, hfree] at hrest
  exact hrest

/-- **Nested calls give the heap back**, from any loosely linked heap: every call returns,
every `mem_free` succeeds. -/
theorem LooselyLinked.exec (hl : LooselyLinked h segs) {nest : Nest}
    (hroomy : nest.roomy h = true) : ∃ h', nest.exec h = some h' ∧ GivenBack h h' segs := by
  have hH := heapSize_eq
  induction nest generalizing h segs with
  | done => exact ⟨h, rfl, .refl hl.represents⟩
  | block size inner rest ihinner ihrest =>
      rcases memAlloc_spec hl.represents.tracks size with
        ⟨hnull, -⟩ | ⟨pre, n, post, rfl, hpos, -, -, -, -, halloc⟩
      · -- the allocation fails
        obtain ⟨hexec, hroomy'⟩ : (Nest.block size inner rest).exec h = rest.exec h ∧
            (Nest.block size inner rest).roomy h = rest.roomy h := Nest.exec_null hnull
        rw [hexec]
        exact ihrest hl (hroomy'.symm.trans hroomy)
      · obtain ⟨hdvd, hle, -⟩ := roundedSize_spec hpos
        obtain ⟨-, hsize, -, -⟩ := hl.represents.tracks.at_block
          (b := span sizeofBlockHeader pre) rfl
        obtain ⟨hroom, hinner, hrest⟩ := Nest.roomy_block halloc hroomy
        rw [Nat.add_sub_cancel, hsize] at hroom
        have htaken := looselyLinked_take hl rfl ⟨by omega, hdvd⟩ hroom
        obtain ⟨h₂, hexec₂, hg₂⟩ := ihinner htaken hinner
        obtain ⟨h₃, hfree, hg₃⟩ := givenBack_free hl rfl hroom hg₂
        rw [← Nat.cast_add] at hfree
        obtain ⟨h', hexec', hg'⟩ := ihrest (hl.givenBack hg₃) (hrest _ _ _ hexec₂ hfree)
        exact ⟨h', (Nest.exec_block halloc hexec₂ hfree).trans hexec', hg₃.trans hg'⟩

/-- **Last in, first out.**  On a well-formed heap whose counters are exact, allocations that
are freed in the opposite order give every block its header back, and the counters theirs. -/
theorem nested_calls_restore (hw : WellFormed h bs) (hs : Sizes16 h bs) (hc : Counted h bs)
    {nest : Nest} (hroomy : nest.roomy h = true) :
    ∃ h', nest.exec h = some h' ∧ (∀ b ∈ bs, h'.header b = h.header b) ∧
      h'.availableBytes = h.availableBytes ∧ h'.allocatedBytes = h.allocatedBytes := by
  obtain ⟨segs, rfl, hl⟩ := wellFormed_iff.mp hw
  have hrep := (hl.counted_iff.mp hc).represents (hl.chain.sizes16_iff.mp hs)
  have hloose : LooselyLinked h segs :=
    ⟨hrep, hl.coalesced, fun x hx _ => backlinks_iff.mp hl.back x hx⟩
  obtain ⟨h', hexec, hg⟩ := hloose.exec hroomy
  have havail := hg.represents.available.trans hrep.available.symm
  have hold := hrep.allocated
  have hnew := hg.represents.allocated
  exact ⟨h', hexec, hg.header_eq hl, havail, by omega⟩

/-- Two blocks held one inside the other, and a third after them: the first is split and so
is its remainder, which is in front of no other block. -/
theorem nested_calls_restore_boot : ∃ h',
    (Nest.block 100 (.block 64 .done (.block 16 .done .done)) (.block 32 .done .done)).exec
        memInit = some h' ∧
      (∀ b ∈ [0], h'.header b = memInit.header b) ∧
      h'.availableBytes = memInit.availableBytes ∧
      h'.allocatedBytes = memInit.allocatedBytes :=
  nested_calls_restore wellFormed_memInit tiledBy_start.1.heapTiled.sizes
    (linked_memInit.counted_iff.mpr tiledBy_start.1.tracks) (by decide +kernel)

/-! ## The blocks of a task -/

/-- The heap calls of `task_create`: the descriptor and the stack. -/
def taskBlocks (h : Heap) : Option (Option (Nat × Nat) × Heap) :=
  (memAlloc h sizeofTask).bind fun r =>
    match r.1 with
    | none => some (none, r.2)
    | some task => (memAlloc r.2 taskStackSize).bind fun r' =>
        match r'.1 with
        | none => (memFree r'.2 (some task)).map fun f => (none, f.2)
        | some stack => some (some (task, stack), r'.2)

/-- The heap after `task_destroy` of the task at `task` with its stack at `stack`. -/
def taskDestroy (h : Heap) (task stack : Nat) : Option Heap :=
  (memFree h (some stack)).bind fun r => (memFree r.2 (some task)).map Prod.snd

/-- What a run that returns has done: the allocation failed, or the block was freed after
the calls inside. -/
theorem Nest.exec_cases {size : Int} {inner rest : Nest}
    (hexec : (Nest.block size inner rest).exec h = some h') :
    (∃ h₁, memAlloc h size = some (none, h₁) ∧ rest.exec h₁ = some h') ∨
      ∃ p h₁ h₂ h₃, memAlloc h size = some (some p, h₁) ∧ inner.exec h₁ = some h₂ ∧
        memFree h₂ (some (p : Int)) = some (noError, h₃) ∧ rest.exec h₃ = some h' := by
  rw [Nest.exec] at hexec
  rcases halloc : memAlloc h size with _ | ⟨_ | p, h₁⟩
  · rw [halloc] at hexec
    cases hexec
  · rw [halloc] at hexec
    exact Or.inl ⟨h₁, rfl, hexec⟩
  · rw [halloc] at hexec
    obtain ⟨h₂, hinner, hexec⟩ := Option.bind_eq_some_iff.mp hexec
    obtain ⟨⟨e, h₃⟩, hfree, hexec⟩ := Option.bind_eq_some_iff.mp hexec
    split at hexec
    · rename_i he
      obtain rfl : e = noError := he
      exact Or.inr ⟨p, h₁, h₂, h₃, rfl, hinner, hfree, hexec⟩
    · cases hexec

/-- **A task gives its blocks back**: `task_create` fails and leaves the heap as it was, or
it succeeds and `task_destroy` does so after it, whatever nested calls run in between. -/
theorem task_blocks_given_back (hl : LooselyLinked h segs) {inner : Nest}
    (hroomy : (Nest.block sizeofTask (.block taskStackSize inner .done) .done).roomy h = true) :
    (∃ h₁, taskBlocks h = some (none, h₁) ∧ GivenBack h h₁ segs) ∨
      ∃ task stack h₁ h₂ h₃, taskBlocks h = some (some (task, stack), h₁) ∧
        inner.exec h₁ = some h₂ ∧ taskDestroy h₂ task stack = some h₃ ∧
        GivenBack h h₃ segs := by
  obtain ⟨h', hexec, hg⟩ := hl.exec hroomy
  rcases Nest.exec_cases hexec with ⟨h₁, hnull, hdone⟩ | ⟨task, h₁, h₂, h₃, ht, hin, hfree, hdone⟩
  · obtain rfl := Option.some.inj hdone
    refine Or.inl ⟨h₁, ?_, hg⟩
    rw [taskBlocks, hnull]
    rfl
  obtain rfl := Option.some.inj hdone
  rcases Nest.exec_cases hin with ⟨k, hnull, hdone⟩ | ⟨stack, k, k₂, k₃, hs, hinner, hfree', hdone⟩
  · obtain rfl := Option.some.inj hdone
    refine Or.inl ⟨h₃, ?_, hg⟩
    rw [taskBlocks, ht, Option.bind_some]
    simp only
    rw [hnull, Option.bind_some]
    simp only
    rw [hfree, Option.map_some]
  · obtain rfl := Option.some.inj hdone
    refine Or.inr ⟨task, stack, k, k₂, h₃, ?_, hinner, ?_, hg⟩
    · rw [taskBlocks, ht, Option.bind_some]
      simp only
      rw [hs, Option.bind_some]
    · rw [taskDestroy, hfree', Option.bind_some, hfree, Option.map_some]

/-- The first task, which allocates a block while it runs. -/
theorem task_blocks_given_back_first : ∃ h₁ h₂ h₃,
    taskBlocks memInit = some (some (32, 304), h₁) ∧
      (Nest.block 100 .done .done).exec h₁ = some h₂ ∧ taskDestroy h₂ 32 304 = some h₃ ∧
      GivenBack memInit h₃ [⟨heapSize - sizeofBlockHeader, false⟩] := by
  have hblocks : (taskBlocks memInit).map Prod.fst = some (some (32, 304)) := by decide +kernel
  have hroomy : (Nest.block sizeofTask (.block taskStackSize (.block 100 .done .done) .done)
      .done).roomy memInit = true := by
    decide +kernel
  rcases @task_blocks_given_back memInit _ ⟨tiledBy_start.1, linked_memInit.coalesced,
      fun x hx _ => backlinks_iff.mp linked_memInit.back x hx⟩ _ hroomy with
    ⟨h₁, hnull, -⟩ | ⟨task, stack, h₁, h₂, h₃, hcreate, hinner, hdestroy, hg⟩
  · -- the two blocks are granted
    rw [hnull] at hblocks
    exact absurd hblocks (by simp)
  · rw [hcreate] at hblocks
    obtain ⟨rfl, rfl⟩ := Prod.mk.inj (Option.some.inj (Option.some.inj hblocks))
    exact ⟨h₁, h₂, h₃, hcreate, hinner, hdestroy, hg⟩

end PingPongOS
