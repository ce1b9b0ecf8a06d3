import Mathlib

/-!
# Numbers in a memory of bytes

A memory has a byte at every address of `w` bits.  A number is kept in `n` consecutive
bytes, the least significant one first, and addresses wrap around.  What a number reads
depends on the bytes of its area alone, and a store changes no byte outside its own.
-/

namespace ByteMemory

variable {w : Nat}

/-- A memory with addresses of `w` bits. -/
abbrev Memory (w : Nat) := BitVec w → BitVec 8

/-- The `n` addresses from `a` on. -/
def area (a : BitVec w) (n : Nat) : Set (BitVec w) := {x | (x - a).toNat < n}

/-- The number in the `n` bytes at `a`. -/
def load (m : Memory w) (a : BitVec w) : Nat → Nat
  | 0 => 0
  | n + 1 => load m a n + 256 ^ n * (m (a + BitVec.ofNat w n)).toNat

/-- Write the number `v` to the `n` bytes at `a`. -/
def store (m : Memory w) (a : BitVec w) (n v : Nat) : Memory w := fun x =>
  if (x - a).toNat < n then BitVec.ofNat 8 (v / 256 ^ (x - a).toNat) else m x

variable {m m' : Memory w} {a b x : BitVec w} {n k v i j : Nat}

/-! ## Areas -/

instance : Decidable (x ∈ area a n) := inferInstanceAs (Decidable ((x - a).toNat < n))

theorem mem_area : x ∈ area a n ↔ (x - a).toNat < n := Iff.rfl

/-- An offset from `a + i` is one from `a`. -/
theorem toNat_sub_add (x a : BitVec w) (i : Nat) :
    (x - a).toNat = ((x - (a + BitVec.ofNat w i)).toNat + i) % 2 ^ w := by
  have hsum : x - a = x - (a + BitVec.ofNat w i) + BitVec.ofNat w i := by ring
  rw [hsum, BitVec.toNat_add, BitVec.toNat_ofNat, Nat.add_mod_mod]

theorem add_sub_toNat (a : BitVec w) (hi : i < 2 ^ w) :
    (a + BitVec.ofNat w i - a).toNat = i := by
  rw [show a + BitVec.ofNat w i - a = BitVec.ofNat w i by ring, BitVec.toNat_ofNat,
    Nat.mod_eq_of_lt hi]

theorem add_mem_area (hi : i < n) : a + BitVec.ofNat w i ∈ area a n := by
  rw [mem_area, show a + BitVec.ofNat w i - a = BitVec.ofNat w i by ring, BitVec.toNat_ofNat]
  exact lt_of_le_of_lt (Nat.mod_le _ _) hi

theorem eq_add_of_sub (x a : BitVec w) : x = a + BitVec.ofNat w (x - a).toNat := by
  rw [BitVec.ofNat_toNat, BitVec.setWidth_eq]
  ring

/-- A part of an area. -/
theorem area_subset (hin : i + n ≤ k) (hk : k ≤ 2 ^ w) :
    area (a + BitVec.ofNat w i) n ⊆ area a k := by
  intro x hx
  rw [mem_area] at hx ⊢
  rw [toNat_sub_add x a i, Nat.mod_eq_of_lt (by omega)]
  omega

/-- Two parts of an area, one after the other. -/
theorem area_disjoint (hij : i + n ≤ j) (hk : j + k ≤ 2 ^ w) :
    Disjoint (area (a + BitVec.ofNat w i) n) (area (a + BitVec.ofNat w j) k) := by
  rw [Set.disjoint_left]
  intro x hx hx'
  rw [mem_area] at hx hx'
  have hfrom_i := toNat_sub_add x a i
  have hfrom_j := toNat_sub_add x a j
  rw [Nat.mod_eq_of_lt (by omega)] at hfrom_i hfrom_j
  omega

/-- Areas at two addresses, one after the other. -/
theorem area_ofNat_disjoint (hij : i + n ≤ j) (hk : j + k ≤ 2 ^ w) :
    Disjoint (area (BitVec.ofNat w i) n) (area (BitVec.ofNat w j) k) := by
  have h := area_disjoint (a := (0 : BitVec w)) hij hk
  rwa [zero_add, zero_add] at h

/-! ## Loads and stores -/

/-- A load depends on the bytes of its area. -/
theorem load_congr (h : ∀ x ∈ area a n, m x = m' x) : load m a n = load m' a n := by
  induction n with
  | zero => rfl
  | succ n ih =>
      rw [load, load, h _ (add_mem_area (Nat.lt_succ_self n)),
        ih fun x hx => h x (lt_trans hx (Nat.lt_succ_self n))]

/-- A store writes its own area alone. -/
theorem store_of_notMem (h : x ∉ area a n) : store m a n v x = m x := if_neg h

theorem store_add (hi : i < n) (hw : i < 2 ^ w) :
    store m a n v (a + BitVec.ofNat w i) = BitVec.ofNat 8 (v / 256 ^ i) := by
  unfold store
  rw [add_sub_toNat a hw, if_pos hi]

/-- A load of the bytes that a store has written. -/
theorem load_store (hn : n ≤ 2 ^ w) : load (store m a n v) a n = v % 256 ^ n := by
  suffices hlow : ∀ k ≤ n, load (store m a n v) a k = v % 256 ^ k from hlow n (le_refl n)
  intro k hk
  induction k with
  | zero => rw [load, pow_zero, Nat.mod_one]
  | succ k ih =>
      rw [load, ih (by omega), store_add (by omega) (by omega), Nat.mod_pow_succ,
        BitVec.toNat_ofNat]

/-- A load apart from what a store has written. -/
theorem load_store_of_disjoint (h : Disjoint (area a n) (area b k)) :
    load (store m b k v) a n = load m a n :=
  load_congr fun _ hx => store_of_notMem (Set.disjoint_left.mp h hx)

end ByteMemory
