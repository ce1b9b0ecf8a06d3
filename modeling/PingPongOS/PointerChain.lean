import Mathlib

/-!
# Null-terminated chains of pointers

Cells in memory, each with one pointer to the next: `next a` is the pointer stored in the
cell at `a`, or `none` where no cell is allocated.  The address `0` is the null pointer.
A chain that ends in it visits no cell twice, and the cells it visits are a function of
the memory and of its first address.
-/

namespace PointerChain

variable {next next' : Nat → Option Nat} {a b c p : Nat} {xs ys : List Nat}

/-- From `a`, the pointers lead through the cells `xs`, in order, to the address `b`. -/
def Chain (next : Nat → Option Nat) : Nat → List Nat → Nat → Prop
  | a, [], b => a = b
  | a, p :: ps, b => a = p ∧ a ≠ 0 ∧ ∃ n, next a = some n ∧ Chain next n ps b

theorem chain_append :
    Chain next a (xs ++ ys) b ↔ ∃ c, Chain next a xs c ∧ Chain next c ys b := by
  induction xs generalizing a with
  | nil => simp [Chain]
  | cons p xs ih =>
      simp only [List.cons_append, Chain, ih]
      constructor
      · rintro ⟨hp, h0, n, hn, c, hx, hy⟩
        exact ⟨c, ⟨hp, h0, n, hn, hx⟩, hy⟩
      · rintro ⟨c, ⟨hp, h0, n, hn, hx⟩, hy⟩
        exact ⟨hp, h0, n, hn, c, hx, hy⟩

/-- The first cell of a chain, or its end. -/
theorem Chain.start (h : Chain next a xs b) : a = xs.head?.getD b := by
  cases xs with
  | nil => exact h
  | cons p xs => exact h.1

/-- A chain only depends on the cells it visits. -/
theorem Chain.congr (h : Chain next a xs b) (heq : ∀ p ∈ xs, next' p = next p) :
    Chain next' a xs b := by
  induction xs generalizing a with
  | nil => exact h
  | cons p xs ih =>
      obtain ⟨rfl, h0, n, hn, hrest⟩ := h
      refine ⟨rfl, h0, n, ?_, ih hrest fun q hq => heq q (List.mem_cons_of_mem _ hq)⟩
      rw [heq a (List.mem_cons_self ..)]
      exact hn

theorem Chain.ne_zero (h : Chain next a xs b) (hp : p ∈ xs) : p ≠ 0 := by
  induction xs generalizing a with
  | nil => exact absurd hp List.not_mem_nil
  | cons q xs ih =>
      obtain ⟨rfl, h0, n, -, hrest⟩ := h
      rcases List.mem_cons.mp hp with rfl | hp
      · exact h0
      · exact ih hrest hp

theorem Chain.allocated (h : Chain next a xs b) (hp : p ∈ xs) : next p ≠ none := by
  induction xs generalizing a with
  | nil => exact absurd hp List.not_mem_nil
  | cons q xs ih =>
      obtain ⟨rfl, -, n, hn, hrest⟩ := h
      rcases List.mem_cons.mp hp with rfl | hp
      · rw [hn]
        exact Option.some_ne_none n
      · exact ih hrest hp

/-- **The cells up to the null pointer** are a function of the first address. -/
theorem Chain.unique (h : Chain next a xs 0) (h' : Chain next a ys 0) : xs = ys := by
  induction xs generalizing a ys with
  | nil =>
      cases ys with
      | nil => rfl
      | cons q ys => exact absurd h h'.2.1
  | cons p xs ih =>
      obtain ⟨rfl, h0, n, hn, hrest⟩ := h
      cases ys with
      | nil => exact absurd h' h0
      | cons q ys =>
          obtain ⟨rfl, -, m, hm, hrest'⟩ := h'
          obtain rfl := Option.some.inj (hn.symm.trans hm)
          rw [ih hrest hrest']

/-- **A null-terminated chain visits no cell twice.** -/
theorem Chain.nodup (h : Chain next a xs 0) : xs.Nodup := by
  induction xs generalizing a with
  | nil => exact List.nodup_nil
  | cons p xs ih =>
      obtain ⟨rfl, h0, n, hn, hrest⟩ := h
      refine List.nodup_cons.mpr ⟨fun hmem => ?_, ih hrest⟩
      -- the chain from the second visit is as long as the whole one
      obtain ⟨pre, post, hsplit⟩ := List.append_of_mem hmem
      obtain ⟨c, -, hpost⟩ := chain_append.mp (hsplit ▸ hrest)
      obtain rfl : c = a := hpost.1
      have hall : c :: xs = c :: post :=
        Chain.unique ⟨rfl, h0, n, hn, hrest⟩ hpost
      have hlen := congrArg List.length hall
      rw [hsplit] at hlen
      simp at hlen
      omega

/-- The cell a chain comes to, when something follows it. -/
theorem Chain.step (h : Chain next a (p :: xs) b) : next a = some (xs.head?.getD b) := by
  obtain ⟨-, -, n, hn, hrest⟩ := h
  rw [hn, hrest.start]

/-- **A new cell at the end**: the last pointer, stored over, leads to it. -/
theorem Chain.redirect (h : Chain next a (xs ++ [p]) b) (hnext : next' p = some c)
    (heq : ∀ q ∈ xs, next' q = next q) :
    Chain next' a (xs ++ [p]) c := by
  obtain ⟨d, hxs, hd, h0, -⟩ := chain_append.mp h
  exact chain_append.mpr ⟨d, hxs.congr heq, hd, h0, c, hd ▸ hnext, rfl⟩

end PointerChain
