import Mathlib.Data.List.Chain

/-!
# A sweep that skips after each removal

A sweep walks a list with an iterator and removes the elements that satisfy a
predicate.  Where the removal already moves the iterator to the next element and the
sweep then advances as usual, the element after each removed one is not looked at.
Such a sweep removes all elements it should if and only if no two neighbours are to be
removed.
-/

namespace SkippingSweep

variable {α : Type*} (p : α → Bool)

/-- The elements that the sweep removes. -/
def picked : List α → List α
  | [] => []
  | [x] => if p x then [x] else []
  | x :: y :: rest => if p x then x :: picked rest else picked (y :: rest)

/-- The elements that the sweep leaves, in order. -/
def left : List α → List α
  | [] => []
  | [x] => if p x then [] else [x]
  | x :: y :: rest => if p x then y :: left rest else x :: left (y :: rest)

/-- No two neighbours are to be removed. -/
def Spaced (xs : List α) : Prop := xs.IsChain fun x y => ¬ (p x = true ∧ p y = true)

instance (xs : List α) : Decidable (Spaced p xs) := by
  unfold Spaced
  infer_instance

variable {p}

variable {q : α → Bool}

/-- A sweep looks at the elements of its list only. -/
theorem picked_congr {xs : List α} (h : ∀ x ∈ xs, p x = q x) : picked p xs = picked q xs := by
  fun_induction picked p xs with
  | case1 => rfl
  | case2 x hx => rw [picked, ← h x List.mem_cons_self, if_pos hx]
  | case3 x hx => rw [picked, ← h x List.mem_cons_self, if_neg hx]
  | case4 x y rest hx ih =>
      rw [picked, ← h x List.mem_cons_self, if_pos hx, ih fun z hz => h z (by simp [hz])]
  | case5 x y rest hx ih =>
      rw [picked, ← h x List.mem_cons_self, if_neg hx,
        ih fun z hz => h z (List.mem_cons_of_mem x hz)]

theorem left_congr {xs : List α} (h : ∀ x ∈ xs, p x = q x) : left p xs = left q xs := by
  fun_induction left p xs with
  | case1 => rfl
  | case2 x hx => rw [left, ← h x List.mem_cons_self, if_pos hx]
  | case3 x hx => rw [left, ← h x List.mem_cons_self, if_neg hx]
  | case4 x y rest hx ih =>
      rw [left, ← h x List.mem_cons_self, if_pos hx, ih fun z hz => h z (by simp [hz])]
  | case5 x y rest hx ih =>
      rw [left, ← h x List.mem_cons_self, if_neg hx,
        ih fun z hz => h z (List.mem_cons_of_mem x hz)]

theorem picked_sublist (xs : List α) : (picked p xs).Sublist (xs.filter p) := by
  fun_induction picked p xs with
  | case1 => exact List.Sublist.refl _
  | case2 x hx => simp [hx]
  | case3 x hx => exact List.nil_sublist _
  | case4 x y rest hx ih =>
      rw [List.filter_cons_of_pos hx]
      exact (ih.trans ((List.sublist_cons_self y rest).filter p)).cons_cons x
  | case5 x y rest hx ih =>
      rw [List.filter_cons_of_neg hx]
      exact ih

/-- Everything removed was to be removed. -/
theorem of_mem_picked {x : α} {xs : List α} (h : x ∈ picked p xs) : x ∈ xs ∧ p x = true :=
  List.mem_filter.mp ((picked_sublist xs).subset h)

/-- Among neighbours that are not both to be removed, the sweep leaves what it should. -/
theorem left_of_spaced {xs : List α} (h : Spaced p xs) :
    left p xs = xs.filter fun x => !p x := by
  unfold Spaced at h
  fun_induction left p xs with
  | case1 => rfl
  | case2 x hx => simp [hx]
  | case3 x hx => simp [hx]
  | case4 x y rest hx ih =>
      obtain ⟨hxy, hrest⟩ := List.isChain_cons_cons.mp h
      have hy : p y = false := Bool.eq_false_iff.mpr fun hy => hxy ⟨hx, hy⟩
      simp [hx, hy, ih hrest.tail]
  | case5 x y rest hx ih =>
      rw [ih (List.isChain_cons_cons.mp h).2]
      exact (List.filter_cons_of_pos (by simpa using hx)).symm

/-- **A skipping sweep is complete** exactly where no two neighbours are to be
removed. -/
theorem picked_eq_filter_iff {xs : List α} : picked p xs = xs.filter p ↔ Spaced p xs := by
  unfold Spaced
  fun_induction picked p xs with
  | case1 => simp
  | case2 x hx => simp [hx]
  | case3 x hx => simp [hx]
  | case4 x y rest hx ih =>
      rw [List.filter_cons_of_pos hx, List.isChain_cons_cons]
      cases hy : p y with
      | true =>
          -- the neighbour is skipped, so the lengths differ
          rw [List.filter_cons_of_pos hy]
          refine iff_of_false (fun heq => ?_) fun h => h.1 ⟨hx, rfl⟩
          have hle := (picked_sublist (p := p) rest).length_le
          rw [(List.cons_inj_right x).mp heq, List.length_cons] at hle
          omega
      | false =>
          rw [List.filter_cons_of_neg (by simp [hy]), List.cons_inj_right, ih]
          constructor
          · intro h
            refine ⟨by simp, ?_⟩
            cases rest with
            | nil => exact List.isChain_singleton y
            | cons z rest => exact List.isChain_cons_cons.mpr ⟨by simp [hy], h⟩
          · exact fun h => h.2.tail
  | case5 x y rest hx ih =>
      rw [List.filter_cons_of_neg hx, ih, List.isChain_cons_cons]
      simp [hx]

/-- Nothing to be removed is left exactly where no two neighbours are to be removed. -/
theorem left_clean_iff {xs : List α} : (∀ x ∈ left p xs, p x = false) ↔ Spaced p xs := by
  constructor
  · intro hclean
    unfold Spaced
    fun_induction left p xs with
    | case1 => exact List.isChain_nil
    | case2 x hx => exact List.isChain_singleton x
    | case3 x hx => exact List.isChain_singleton x
    | case4 x y rest hx ih =>
        have hy := hclean y List.mem_cons_self
        have hrest := ih fun z hz => hclean z (List.mem_cons_of_mem y hz)
        refine List.isChain_cons_cons.mpr ⟨by simp [hy], ?_⟩
        cases rest with
        | nil => exact List.isChain_singleton y
        | cons z rest => exact List.isChain_cons_cons.mpr ⟨by simp [hy], hrest⟩
    | case5 x y rest hx ih =>
        have hrest := ih fun z hz => hclean z (List.mem_cons_of_mem x hz)
        exact List.isChain_cons_cons.mpr ⟨by simp [hx], hrest⟩
  · intro hspaced x hx
    rw [left_of_spaced hspaced] at hx
    simpa using (List.mem_filter.mp hx).2

end SkippingSweep
