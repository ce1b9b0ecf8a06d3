import Mathlib.Data.List.Chain

/-!
# Tilings of an address range by headed segments

A range of addresses is cut into consecutive segments, each a header of `hdr`
bytes followed by a payload that is in use or free.  Addresses are not stored:
a segment starts where the segments before it end.  This file has the two
operations of an allocator with coalescing, taking a free segment (whole, or
split in two) and releasing a used one (merged with its free neighbours), and
what they preserve: the span of the range, the granule that divides every
payload, the absence of adjacent free segments and the used segments that the
operation is not about.
-/

namespace Tiling

/-- A payload and whether it is in use. -/
structure Segment where
  size : Nat
  used : Bool
  deriving DecidableEq

variable (hdr : Nat)

/-- The bytes covered by consecutive segments, headers included. -/
def span : List Segment → Nat
  | [] => 0
  | s :: rest => hdr + s.size + span rest

/-- The start addresses of consecutive segments, the first at `a`. -/
def starts : Nat → List Segment → List Nat
  | _, [] => []
  | a, s :: rest => a :: starts (a + (hdr + s.size)) rest

/-- Start address and payload size of the used segments, the first at `a`. -/
def usedAt : Nat → List Segment → List (Nat × Nat)
  | _, [] => []
  | a, s :: rest =>
      (if s.used then [(a, s.size)] else []) ++ usedAt (a + (hdr + s.size)) rest

/-- Total free payload. -/
def freeBytes : List Segment → Nat
  | [] => 0
  | s :: rest => (if s.used then 0 else s.size) + freeBytes rest

/-- Every payload is a positive multiple of the granule. -/
def Granular (g : Nat) (segs : List Segment) : Prop :=
  ∀ s ∈ segs, 0 < s.size ∧ g ∣ s.size

/-- No two neighbours are both free. -/
def Coalesced (segs : List Segment) : Prop :=
  segs.IsChain fun s t => s.used = true ∨ t.used = true

/-- Take a free segment of `size` bytes for a payload of `r`: split off the rest
when it can hold a header and `min` bytes, else take it whole. -/
def take (min r size : Nat) : List Segment :=
  if r + hdr + min ≤ size then [⟨r, true⟩, ⟨size - r - hdr, false⟩] else [⟨size, true⟩]

/-- Merge a free payload of `n` bytes with the segment after it, if free. -/
def mergeNext (n : Nat) : List Segment → List Segment
  | [] => [⟨n, false⟩]
  | s :: rest => if s.used then ⟨n, false⟩ :: s :: rest else ⟨n + (hdr + s.size), false⟩ :: rest

/-- The segment `p` before a released one, merged with what follows if free. -/
def mergePrev (p : Segment) : List Segment → List Segment
  | [] => [p]
  | s :: rest => if p.used then p :: s :: rest else ⟨p.size + (hdr + s.size), false⟩ :: rest

/-- Release the segment of size `n` between `pre` and `post`. -/
def release (pre : List Segment) (n : Nat) (post : List Segment) : List Segment :=
  match pre.getLast? with
  | none => mergeNext hdr n post
  | some p => pre.dropLast ++ mergePrev hdr p (mergeNext hdr n post)

variable {hdr}

@[simp] theorem span_append (xs ys : List Segment) :
    span hdr (xs ++ ys) = span hdr xs + span hdr ys := by
  induction xs with
  | nil => simp [span]
  | cons s xs ih => simp only [List.cons_append, span, ih, Nat.add_assoc]

@[simp] theorem freeBytes_append (xs ys : List Segment) :
    freeBytes (xs ++ ys) = freeBytes xs + freeBytes ys := by
  induction xs with
  | nil => simp [freeBytes]
  | cons s xs ih => simp only [List.cons_append, freeBytes, ih, Nat.add_assoc]

variable (hdr) in
/-- The free payload and the headers fit in the range. -/
theorem freeBytes_add_headers_le (segs : List Segment) :
    freeBytes segs + segs.length * hdr ≤ span hdr segs := by
  induction segs with
  | nil => simp [freeBytes, span]
  | cons s segs ih =>
      simp only [freeBytes, span, List.length_cons, Nat.succ_mul]
      split <;> omega

/-- A used segment keeps its payload out of the free bytes. -/
theorem freeBytes_add_used_le {a : Nat} {x : Nat × Nat} {segs : List Segment}
    (h : x ∈ usedAt hdr a segs) :
    freeBytes segs + segs.length * hdr + x.2 ≤ span hdr segs := by
  induction segs generalizing a with
  | nil => simp [usedAt] at h
  | cons s segs ih =>
      simp only [usedAt, List.mem_append] at h
      simp only [freeBytes, span, List.length_cons, Nat.succ_mul]
      rcases h with h | h
      · have hrest := freeBytes_add_headers_le hdr segs
        split at h
        next hs =>
          rw [List.mem_singleton] at h
          subst h
          simp only [hs, if_true]
          omega
        · simp at h
      · have := ih h
        split <;> omega

theorem starts_append (a : Nat) (xs ys : List Segment) :
    starts hdr a (xs ++ ys) = starts hdr a xs ++ starts hdr (a + span hdr xs) ys := by
  induction xs generalizing a with
  | nil => simp [starts, span]
  | cons s xs ih =>
      simp only [List.cons_append, starts, span, ih, Nat.add_assoc]

theorem usedAt_append (a : Nat) (xs ys : List Segment) :
    usedAt hdr a (xs ++ ys) = usedAt hdr a xs ++ usedAt hdr (a + span hdr xs) ys := by
  induction xs generalizing a with
  | nil => simp [usedAt, span]
  | cons s xs ih =>
      simp only [List.cons_append, usedAt, span, ih, List.append_assoc, Nat.add_assoc]

/-- Every start lies in the range, with room for its header. -/
theorem starts_bounds {a b : Nat} {segs : List Segment} (h : b ∈ starts hdr a segs) :
    a ≤ b ∧ b + hdr ≤ a + span hdr segs := by
  induction segs generalizing a with
  | nil => simp [starts] at h
  | cons s segs ih =>
      simp only [starts, List.mem_cons] at h
      simp only [span]
      rcases h with rfl | h
      · omega
      · have := ih h
        omega

/-- A start is the end of the segments before it. -/
theorem mem_starts {a b : Nat} {segs : List Segment} :
    b ∈ starts hdr a segs ↔
      ∃ pre s post, segs = pre ++ s :: post ∧ b = a + span hdr pre := by
  induction segs generalizing a with
  | nil => simp [starts]
  | cons s segs ih =>
      simp only [starts, List.mem_cons, ih]
      constructor
      · rintro (rfl | ⟨pre, t, post, rfl, rfl⟩)
        · exact ⟨[], s, segs, rfl, by simp [span]⟩
        · exact ⟨s :: pre, t, post, rfl, by simp only [span]; omega⟩
      · rintro ⟨pre, t, post, heq, rfl⟩
        cases pre with
        | nil => exact Or.inl (by simp [span])
        | cons p pre =>
            simp only [List.cons_append, List.cons.injEq] at heq
            obtain ⟨rfl, rfl⟩ := heq
            exact Or.inr ⟨pre, t, post, rfl, by simp only [span]; omega⟩

/-- With a nonempty header the starts are strictly increasing. -/
theorem starts_increasing (hpos : 0 < hdr) (a : Nat) (segs : List Segment) :
    (starts hdr a segs).Pairwise (· < ·) := by
  induction segs generalizing a with
  | nil => exact List.Pairwise.nil
  | cons s segs ih =>
      refine List.pairwise_cons.mpr ⟨fun b hb => ?_, ih _⟩
      have := (starts_bounds hb).1
      omega

/-- A used segment lies in the range. -/
theorem usedAt_bounds {a : Nat} {x : Nat × Nat} {segs : List Segment}
    (h : x ∈ usedAt hdr a segs) :
    a ≤ x.1 ∧ x.1 + hdr + x.2 ≤ a + span hdr segs := by
  induction segs generalizing a with
  | nil => simp [usedAt] at h
  | cons s segs ih =>
      simp only [usedAt, List.mem_append] at h
      simp only [span]
      rcases h with h | h
      · split at h
        · rw [List.mem_singleton] at h
          subst h
          exact ⟨Nat.le_refl _, by simp only; omega⟩
        · simp at h
      · have := ih h
        omega

/-- Used segments are disjoint, headers included, and listed by address. -/
theorem usedAt_disjoint (a : Nat) (segs : List Segment) :
    (usedAt hdr a segs).Pairwise fun x y => x.1 + hdr + x.2 ≤ y.1 := by
  induction segs generalizing a with
  | nil => exact List.Pairwise.nil
  | cons s segs ih =>
      refine List.pairwise_append.mpr ⟨?_, ih _, ?_⟩
      · split
        · exact List.pairwise_singleton _ _
        · exact List.Pairwise.nil
      · intro x hx y hy
        split at hx
        · rw [List.mem_singleton] at hx
          subst hx
          have := (usedAt_bounds hy).1
          omega
        · simp at hx

theorem usedAt_around (a n : Nat) (u : Bool) (pre post : List Segment) :
    usedAt hdr a (pre ++ ⟨n, u⟩ :: post) =
      usedAt hdr a pre ++ ((if u then [(a + span hdr pre, n)] else []) ++
        usedAt hdr (a + span hdr pre + (hdr + n)) post) := by
  rw [usedAt_append, usedAt]

/-- The used segments around a used one are those that start elsewhere. -/
theorem mem_usedAt_around (hpos : 0 < hdr) {a n : Nat} {x : Nat × Nat}
    {pre post : List Segment} :
    x ∈ usedAt hdr a pre ++ usedAt hdr (a + span hdr pre + (hdr + n)) post ↔
      x ∈ usedAt hdr a (pre ++ ⟨n, true⟩ :: post) ∧ x.1 ≠ a + span hdr pre := by
  rw [usedAt_around, if_pos rfl, List.singleton_append, List.mem_append, List.mem_append,
    List.mem_cons]
  constructor
  · intro hx
    rcases hx with hx | hx
    · have := (usedAt_bounds hx).2
      exact ⟨Or.inl hx, by omega⟩
    · have := (usedAt_bounds hx).1
      exact ⟨Or.inr (Or.inr hx), by omega⟩
  · intro hx
    rcases hx with ⟨hx | rfl | hx, hne⟩
    · exact Or.inl hx
    · exact absurd rfl hne
    · exact Or.inr hx

/-- Two different used segments are disjoint. -/
theorem usedAt_apart {a : Nat} {x y : Nat × Nat} {segs : List Segment}
    (hx : x ∈ usedAt hdr a segs) (hy : y ∈ usedAt hdr a segs) (hne : x ≠ y) :
    x.1 + hdr + x.2 ≤ y.1 ∨ y.1 + hdr + y.2 ≤ x.1 := by
  let apart : Nat × Nat → Nat × Nat → Prop :=
    fun u v => u.1 + hdr + u.2 ≤ v.1 ∨ v.1 + hdr + v.2 ≤ u.1
  have hsymm : Std.Symm apart := ⟨fun _ _ h => h.symm⟩
  have hpair : (usedAt hdr a segs).Pairwise apart := (usedAt_disjoint a segs).imp Or.inl
  exact hpair.forall hx hy hne

/-- A used segment is one of the tiling, and starts at one of its starts. -/
theorem mem_usedAt {a : Nat} {x : Nat × Nat} {segs : List Segment} :
    x ∈ usedAt hdr a segs ↔
      ∃ pre post, segs = pre ++ ⟨x.2, true⟩ :: post ∧ x.1 = a + span hdr pre := by
  induction segs generalizing a with
  | nil => simp [usedAt]
  | cons s segs ih =>
      simp only [usedAt, List.mem_append, ih]
      constructor
      · rintro (h | ⟨pre, post, rfl, hx⟩)
        · split at h
          next hs =>
            rw [List.mem_singleton] at h
            subst h
            exact ⟨[], segs, by cases s; simp_all, by simp [span]⟩
          · simp at h
        · exact ⟨s :: pre, post, rfl, by simp only [span]; omega⟩
      · rintro ⟨pre, post, heq, hx⟩
        cases pre with
        | nil =>
            simp only [List.nil_append, List.cons.injEq] at heq
            left
            obtain ⟨rfl, rfl⟩ := heq
            simp [Prod.ext_iff, hx, span]
        | cons p pre =>
            simp only [List.cons_append, List.cons.injEq] at heq
            obtain ⟨rfl, rfl⟩ := heq
            exact Or.inr ⟨pre, post, rfl, by simp only [span] at hx; omega⟩

/-- Nothing starts inside a used segment. -/
theorem not_mem_starts_inside {a b : Nat} {x : Nat × Nat} {segs : List Segment}
    (h : x ∈ usedAt hdr a segs) (hlo : x.1 < b) (hhi : b < x.1 + hdr + x.2) :
    b ∉ starts hdr a segs := by
  obtain ⟨pre, post, rfl, hx⟩ := mem_usedAt.mp h
  intro hb
  rw [starts_append, List.mem_append, starts, List.mem_cons] at hb
  rcases hb with hb | rfl | hb
  · have := (starts_bounds hb).2
    omega
  · omega
  · have := (starts_bounds hb).1
    simp only at this
    omega

theorem Granular.append {g : Nat} {xs ys : List Segment} :
    Granular g (xs ++ ys) ↔ Granular g xs ∧ Granular g ys := by
  simp only [Granular, List.mem_append]
  exact ⟨fun h => ⟨fun s hs => h s (Or.inl hs), fun s hs => h s (Or.inr hs)⟩,
    fun h s hs => hs.elim (h.1 s) (h.2 s)⟩

/-- A granule that divides the header divides every span. -/
theorem dvd_span {g : Nat} {segs : List Segment} (hg : g ∣ hdr) (h : Granular g segs) :
    g ∣ span hdr segs := by
  induction segs with
  | nil => exact Nat.dvd_zero g
  | cons s segs ih =>
      have hs := (h s List.mem_cons_self).2
      exact Nat.dvd_add (Nat.dvd_add hg hs) (ih fun t ht => h t (List.mem_cons_of_mem s ht))

theorem granular_cons {g : Nat} {s : Segment} {xs : List Segment} :
    Granular g (s :: xs) ↔ (0 < s.size ∧ g ∣ s.size) ∧ Granular g xs := by
  simp [Granular]

/-! ## Taking a segment -/

theorem span_take (min r size : Nat) : span hdr (take hdr min r size) = hdr + size := by
  unfold take
  split <;> simp only [span] <;> omega

theorem granular_take {g min r size : Nat} (hmin : 0 < min) (hr : 0 < r ∧ g ∣ r)
    (hs : 0 < size ∧ g ∣ size) (hg : g ∣ hdr) : Granular g (take hdr min r size) := by
  unfold take
  split
  next hfit =>
    intro s hmem
    simp only [List.mem_cons, List.not_mem_nil, or_false] at hmem
    rcases hmem with rfl | rfl
    · exact hr
    · exact ⟨by simp only; omega, Nat.dvd_sub (Nat.dvd_sub hs.2 hr.2) hg⟩
  next =>
    intro s hmem
    simp only [List.mem_cons, List.not_mem_nil, or_false] at hmem
    subst hmem
    exact hs

/-- Taking uses exactly one segment, at the address of the free one, and its
payload is at least what was asked for. -/
theorem usedAt_take (a min r size : Nat) (hfit : r ≤ size) :
    ∃ n, r ≤ n ∧ usedAt hdr a (take hdr min r size) = [(a, n)] := by
  unfold take
  split
  · exact ⟨r, Nat.le_refl r, by simp [usedAt]⟩
  · exact ⟨size, hfit, by simp [usedAt]⟩

/-- Taking a free segment leaves no two free neighbours where there were none. -/
theorem coalesced_take {pre post : List Segment} {min r size : Nat}
    (h : Coalesced (pre ++ ⟨size, false⟩ :: post)) :
    Coalesced (pre ++ take hdr min r size ++ post) := by
  unfold Coalesced take at *
  split <;> cases post <;> simp_all [List.isChain_append]

theorem starts_around (a n : Nat) (u : Bool) (pre post : List Segment) :
    starts hdr a (pre ++ ⟨n, u⟩ :: post) = starts hdr a pre ++ (a + span hdr pre) ::
      starts hdr (a + span hdr pre + (hdr + n)) post := by
  rw [starts_append, starts]

/-- Splitting a segment adds the start of the rest and no other. -/
theorem mem_starts_split {a b n r min : Nat} {u : Bool} {pre post : List Segment}
    (hfit : r + hdr + min ≤ n) :
    b ∈ starts hdr a (pre ++ (take hdr min r n ++ post)) ↔
      b ∈ starts hdr a (pre ++ ⟨n, u⟩ :: post) ∨ b = a + span hdr pre + (hdr + r) := by
  have hend : a + span hdr pre + span hdr (take hdr min r n) = a + span hdr pre + (hdr + n) := by
    rw [span_take]
  have htake : starts hdr (a + span hdr pre) (take hdr min r n) =
      [a + span hdr pre, a + span hdr pre + (hdr + r)] := by
    rw [take, if_pos hfit]
    rfl
  rw [starts_append, starts_append, hend, htake, starts_around]
  simp only [List.mem_append, List.mem_cons, List.not_mem_nil, or_false]
  constructor
  · rintro (hb | (hb | hb) | hb)
    · exact Or.inl (Or.inl hb)
    · exact Or.inl (Or.inr (Or.inl hb))
    · exact Or.inr hb
    · exact Or.inl (Or.inr (Or.inr hb))
  · rintro ((hb | hb | hb) | hb)
    · exact Or.inl hb
    · exact Or.inr (Or.inl (Or.inl hb))
    · exact Or.inr (Or.inr hb)
    · exact Or.inr (Or.inl (Or.inr hb))

/-! ## Releasing a segment -/

@[simp] theorem release_nil (n : Nat) (post : List Segment) :
    release hdr [] n post = mergeNext hdr n post := rfl

@[simp] theorem release_snoc (pre : List Segment) (p : Segment) (n : Nat)
    (post : List Segment) :
    release hdr (pre ++ [p]) n post = pre ++ mergePrev hdr p (mergeNext hdr n post) := by
  simp [release]

variable (hdr) in
/-- A released segment merged forward is a free segment before the rest. -/
theorem mergeNext_eq_cons (n : Nat) (post : List Segment) :
    ∃ m rest, mergeNext hdr n post = ⟨m, false⟩ :: rest := by
  cases post with
  | nil => exact ⟨_, _, rfl⟩
  | cons s rest =>
      simp only [mergeNext]
      split
      · exact ⟨_, _, rfl⟩
      · exact ⟨_, _, rfl⟩

theorem granular_mergeNext {g n : Nat} {post : List Segment} (hg : g ∣ hdr)
    (hn : 0 < n ∧ g ∣ n) (hpost : Granular g post) : Granular g (mergeNext hdr n post) := by
  cases post with
  | nil => exact granular_cons.mpr ⟨hn, hpost⟩
  | cons s rest =>
      obtain ⟨hs, hrest⟩ := granular_cons.mp hpost
      simp only [mergeNext]
      split
      · exact granular_cons.mpr ⟨hn, hpost⟩
      · exact granular_cons.mpr
          ⟨⟨by simp only; omega, Nat.dvd_add hn.2 (Nat.dvd_add hg hs.2)⟩, hrest⟩

theorem granular_mergePrev {g : Nat} {p : Segment} {segs : List Segment} (hg : g ∣ hdr)
    (hp : 0 < p.size ∧ g ∣ p.size) (hsegs : Granular g segs) :
    Granular g (mergePrev hdr p segs) := by
  cases segs with
  | nil => exact granular_cons.mpr ⟨hp, hsegs⟩
  | cons s rest =>
      obtain ⟨hs, hrest⟩ := granular_cons.mp hsegs
      simp only [mergePrev]
      split
      · exact granular_cons.mpr ⟨hp, hsegs⟩
      · exact granular_cons.mpr
          ⟨⟨by simp only; omega, Nat.dvd_add hp.2 (Nat.dvd_add hg hs.2)⟩, hrest⟩

theorem granular_release {g n : Nat} {pre post : List Segment} (hg : g ∣ hdr)
    (h : Granular g (pre ++ ⟨n, true⟩ :: post)) : Granular g (release hdr pre n post) := by
  obtain ⟨hpre, hn, hpost⟩ := by simpa only [Granular.append, granular_cons] using h
  have hnext := granular_mergeNext hg hn hpost
  rcases List.eq_nil_or_concat' pre with rfl | ⟨pre, p, rfl⟩
  · exact hnext
  · obtain ⟨hpre, hp⟩ := Granular.append.mp hpre
    rw [release_snoc]
    exact Granular.append.mpr
      ⟨hpre, granular_mergePrev hg (hp p (List.mem_singleton_self p)) hnext⟩

theorem usedAt_mergeNext (a n : Nat) (post : List Segment) :
    usedAt hdr a (mergeNext hdr n post) = usedAt hdr (a + (hdr + n)) post := by
  cases post with
  | nil => simp [mergeNext, usedAt]
  | cons s rest =>
      simp only [mergeNext]
      split
      · simp [usedAt]
      next hs =>
        rw [usedAt, usedAt, if_neg hs, if_neg Bool.false_ne_true]
        simp only [List.nil_append, Nat.add_assoc]

theorem usedAt_mergePrev (a : Nat) (p : Segment) (m : Nat) (rest : List Segment) :
    usedAt hdr a (mergePrev hdr p (⟨m, false⟩ :: rest)) =
      (if p.used then [(a, p.size)] else []) ++
        usedAt hdr (a + (hdr + p.size)) (⟨m, false⟩ :: rest) := by
  simp only [mergePrev]
  split
  next hp => simp [usedAt, hp]
  · simp only [usedAt, Bool.false_eq_true, if_false, List.nil_append, Nat.add_assoc]

/-- Releasing a segment removes it from the used ones and no other. -/
theorem usedAt_release (a n : Nat) (pre post : List Segment) :
    usedAt hdr a (release hdr pre n post) =
      usedAt hdr a pre ++ usedAt hdr (a + span hdr pre + (hdr + n)) post := by
  rcases List.eq_nil_or_concat' pre with rfl | ⟨pre, p, rfl⟩
  · simp [usedAt_mergeNext, usedAt, span]
  · obtain ⟨m, rest, heq⟩ := mergeNext_eq_cons hdr n post
    rw [release_snoc, usedAt_append, heq, usedAt_mergePrev, ← heq, usedAt_mergeNext,
      usedAt_append, span_append, List.append_assoc]
    simp only [usedAt, span, List.append_nil, Nat.add_assoc, Nat.zero_add]

/-- A coalesced tiling with nothing in use has at most one segment. -/
theorem coalesced_unused {segs : List Segment} {a : Nat} (hco : Coalesced segs)
    (hnone : usedAt hdr a segs = []) : segs = [] ∨ ∃ n, segs = [⟨n, false⟩] := by
  have hfree : ∀ s ∈ segs, s.used = false := by
    intro s hs
    obtain ⟨pre, post, rfl⟩ := List.append_of_mem hs
    by_contra hused
    rw [Bool.not_eq_false] at hused
    have hmem : (a + span hdr pre, s.size) ∈ usedAt hdr a (pre ++ s :: post) :=
      mem_usedAt.mpr ⟨pre, post, by rw [← hused], rfl⟩
    rw [hnone] at hmem
    exact absurd hmem List.not_mem_nil
  rcases segs with _ | ⟨s, _ | ⟨t, rest⟩⟩
  · exact Or.inl rfl
  · right
    obtain ⟨n, u⟩ := s
    obtain rfl := hfree ⟨n, u⟩ List.mem_cons_self
    exact ⟨n, rfl⟩
  · -- two neighbours cannot both be free
    have hs := hfree s (by simp)
    have ht := hfree t (by simp)
    rcases (List.isChain_cons_cons.mp hco).1 with hu | hu
    · rw [hs] at hu
      exact absurd hu Bool.false_ne_true
    · rw [ht] at hu
      exact absurd hu Bool.false_ne_true

/-- Releasing a segment of a coalesced tiling leaves it coalesced. -/
theorem coalesced_release {n : Nat} {pre post : List Segment}
    (h : Coalesced (pre ++ ⟨n, true⟩ :: post)) : Coalesced (release hdr pre n post) := by
  unfold Coalesced at *
  have hnext : (mergeNext hdr n post).IsChain fun s t => s.used = true ∨ t.used = true := by
    rcases post with _ | ⟨s, _ | ⟨t, rest⟩⟩
    · simp [mergeNext]
    · cases hs : s.used <;> simp [mergeNext, hs]
    · cases hs : s.used <;> simp_all [mergeNext, List.isChain_append]
  rcases List.eq_nil_or_concat' pre with rfl | ⟨pre, p, rfl⟩
  · exact hnext
  · obtain ⟨m, rest, heq⟩ := mergeNext_eq_cons hdr n post
    rw [release_snoc]
    rw [heq] at hnext ⊢
    simp only [mergePrev]
    cases hp : p.used <;> rcases rest with _ | ⟨t, rest⟩ <;>
      simp_all [List.isChain_append, List.isChain_cons_cons]

end Tiling
