import PingPongOS.HeapByteCalls

/-!
# Headers and payloads in one array

A program allocates and frees blocks and writes to bytes: those it was given by `mem_alloc`
and has not freed, and those outside the heap.  The allocator keeps its headers between
them.  Neither disturbs the other: the calls return what they would return if nothing were
ever written, and a byte of an allocation is what the program wrote there last.
-/

namespace PingPongOS

open ByteMemory Tiling Runs

/-- What a program does with its memory. -/
inductive MemoryEvent
  | alloc (size : Int)
  | free (ptr : Pointer)
  | store (x : Pointer) (v : BitVec 8)
  deriving DecidableEq

/-- The memory, and the live allocations with the sizes asked for. -/
structure MemoryRun where
  state : HeapMemory
  live : List (Pointer × Int)

/-- After `mem_init`. -/
def MemoryRun.start (heap : Pointer) (memory : Memory 64) : MemoryRun :=
  ⟨HeapMemory.memInit heap memory, []⟩

/-- One event. -/
def MemoryRun.step (heap : Pointer) (w : MemoryRun) : MemoryEvent → Option MemoryRun
  | .alloc size =>
      (w.state.memAlloc heap size).map fun r =>
        if r.1 = 0 then ⟨r.2, w.live⟩ else ⟨r.2, (r.1, size) :: w.live⟩
  | .free ptr =>
      (w.state.memFree heap ptr).map fun r =>
        if r.1 = noError then ⟨r.2, w.live.filter fun a => ptr ≠ a.1⟩ else ⟨r.2, w.live⟩
  | .store x v =>
      some ⟨{ w.state with memory := Function.update w.state.memory x v }, w.live⟩

/-- What a call returns. -/
inductive HeapAnswer
  | pointer (ptr : Pointer)
  | code (code : Int)
  deriving DecidableEq

/-- What the call of an event returns. -/
def MemoryRun.answers (heap : Pointer) (w : MemoryRun) : MemoryEvent → List HeapAnswer
  | .alloc size => ((w.state.memAlloc heap size).map fun r => HeapAnswer.pointer r.1).toList
  | .free ptr => ((w.state.memFree heap ptr).map fun r => HeapAnswer.code r.1).toList
  | .store _ _ => []

/-- What a call returns on the headers alone. -/
def HeapRun.answers (heap : Pointer) (v : HeapRun) : HeapCall → List HeapAnswer
  | .alloc size =>
      ((memAlloc v.heap size).map fun r => HeapAnswer.pointer (pointerTo heap r.1)).toList
  | .free ptr => ((memFree v.heap ptr).map fun r => HeapAnswer.code r.1).toList

/-- An event that is no store. -/
def MemoryEvent.isCall : MemoryEvent → Bool
  | .store _ _ => false
  | _ => true

/-- A store is to a byte of a live allocation, or outside the heap. -/
def OwnStore (heap : Pointer) (w : MemoryRun) : MemoryEvent → Prop
  | .store x _ => x ∉ area heap heapSize ∨ ∃ a ∈ w.live, x ∈ area a.1 a.2.toNat
  | _ => True

/-- The call that an event is. -/
def MemoryEvent.heapCall (heap : Pointer) : MemoryEvent → Option HeapCall
  | .alloc size => some (.alloc size)
  | .free ptr => some (.free (freeArgument heap ptr))
  | .store _ _ => none

/-- The calls among the events. -/
def heapCalls (heap : Pointer) (evs : List MemoryEvent) : List HeapCall :=
  evs.filterMap (MemoryEvent.heapCall heap)

/-- The last value stored to `x`, or `v`. -/
def lastStored (x : Pointer) : List MemoryEvent → BitVec 8 → BitVec 8
  | [], v => v
  | .store y u :: evs, v => lastStored x evs (if y = x then u else v)
  | _ :: evs, v => lastStored x evs v

/-- A live allocation of the heap model, at its address. -/
def atAddress (heap : Pointer) (a : Nat × Int) : Pointer × Int := (blockAt heap a.1, a.2)

/-- The bytes hold the heap of these calls, and the same allocations are live. -/
structure Isolated (heap : Pointer) (w : MemoryRun) (v : HeapRun) (segs : List Segment) :
    Prop where
  tiled : TiledBy v segs
  bytes : Shows heap w.state.memory w.state v.heap (starts sizeofBlockHeader 0 segs)
  live : w.live = v.live.map (atAddress heap)

variable {heap : Pointer} {w w' : MemoryRun} {v v' : HeapRun} {segs : List Segment}
  {x : Pointer} {a : Nat × Int}

/-! ## Allocations and headers -/

/-- A live allocation is in the array, between two headers. -/
theorem TiledBy.inside (hv : TiledBy v segs) (ha : a ∈ v.live) :
    a.1 < heapSize ∧ sizeofBlockHeader ≤ a.1 ∧
      ∃ n, (a.1 - sizeofBlockHeader, n) ∈ usedAt sizeofBlockHeader 0 segs ∧ a.2 ≤ n := by
  have hH := heapSize_eq
  have hS := sizeofBlockHeader_eq
  obtain ⟨y, hy, hp, hle⟩ := hv.2.used a ha
  obtain ⟨-, hhi⟩ := usedAt_bounds hy
  have hpos : 0 < y.2 := by
    obtain ⟨pre, post, heq, -⟩ := mem_usedAt.mp hy
    exact (hv.1.granular ⟨y.2, true⟩ (by rw [heq]; simp)).1
  rw [hv.1.whole] at hhi
  refine ⟨by omega, by omega, y.2, ?_, hle⟩
  have hy1 : a.1 - sizeofBlockHeader = y.1 := by omega
  rw [hy1]
  exact hy

/-- **No byte of a live allocation is in a header.** -/
theorem TiledBy.payload_apart (hv : TiledBy v segs) (ha : a ∈ v.live)
    (hx : x ∈ area (blockAt heap a.1) a.2.toNat) :
    ∀ b ∈ starts sizeofBlockHeader 0 segs, x ∉ area (blockAt heap b) sizeofBlockHeader := by
  have hH := heapSize_eq
  have hS := sizeofBlockHeader_eq
  obtain ⟨-, hlow, n, hn, hle⟩ := hv.inside ha
  obtain ⟨-, hhi⟩ := usedAt_bounds hn
  rw [hv.1.whole] at hhi
  intro b hb hin
  have hbin := (headersApart_starts hv.1.whole b hb).1
  have hoff : ¬ (a.1 - sizeofBlockHeader < b ∧
      b < a.1 - sizeofBlockHeader + sizeofBlockHeader + n) :=
    fun hbad => not_mem_starts_inside hn hbad.1 hbad.2 hb
  have hapart : b + sizeofBlockHeader ≤ a.1 ∨ a.1 + a.2.toNat ≤ b := by omega
  rcases hapart with hlt | hlt
  · exact Set.disjoint_left.mp (area_disjoint hlt (by omega)) hin hx
  · exact Set.disjoint_left.mp (area_disjoint hlt (by omega)) hx hin

/-- A store outside the headers leaves them alone. -/
theorem Shows.store {m₀ : Memory 64} {s : HeapMemory} {h : Heap} {bs : List Nat} {u : BitVec 8}
    (hs : Shows heap m₀ s h bs)
    (hx : ∀ b ∈ bs, x ∉ area (blockAt heap b) sizeofBlockHeader) :
    Shows heap (Function.update s.memory x u)
      { s with memory := Function.update s.memory x u } h bs where
  header b hb := by
    have hS := sizeofBlockHeader_eq
    have hget : ∀ f, HeapMemory.get { s with memory := Function.update s.memory x u }
        (blockAt heap b) f = s.get (blockAt heap b) f := by
      intro f
      refine load_congr fun y hy => ?_
      have hyb := area_subset f.fits (by omega) hy
      have hne : y ≠ x := fun heq => hx b hb (heq ▸ hyb)
      exact Function.update_of_ne hne _ _
    rw [← hs.header b hb]
    unfold HeapMemory.headerAt HeapMemory.isUsed HeapMemory.next HeapMemory.prev
    simp only [hget]
  blockNumber := hs.blockNumber
  allocated := hs.allocated
  available := hs.available
  frame _ _ := rfl

/-! ## One event -/

/-- What an event does to the bytes of the allocations it does not free. -/
def KeepsPayloads (w w' : MemoryRun) (e : MemoryEvent) : Prop :=
  ∀ a ∈ w.live, e ≠ .free a.1 → a ∈ w'.live ∧
    ∀ x ∈ area a.1 a.2.toNat, w'.state.memory x = lastStored x [e] (w.state.memory x)

theorem freeArgument_eq_iff (hheap : (0 : Pointer) ∉ area heap heapSize) {ptr : Pointer}
    {n : Nat} (hn : n < heapSize) :
    freeArgument heap ptr = some (n : Int) ↔ ptr = blockAt heap n := by
  have hH := heapSize_eq
  have hnull := blockAt_ne_zero hheap hn
  unfold freeArgument offsetOf
  split
  · rename_i hptr
    simp only [Option.map_none, reduceCtorEq, false_iff]
    exact fun heq => hnull (heq.symm.trans hptr)
  · simp only [Option.map_some, Option.some.injEq, Int.ofNat_eq_natCast, Nat.cast_inj]
    constructor
    · intro heq
      rw [← heq]
      exact eq_add_of_sub ptr heap
    · rintro rfl
      exact blockAt_sub (by omega)

/-- The live allocations are at addresses in the array. -/
theorem Isolated.live_iff (hi : Isolated heap w v segs) {y : Pointer × Int} :
    y ∈ w.live ↔ ∃ a ∈ v.live, atAddress heap a = y := by
  rw [hi.live, List.mem_map]

/-- A store to a byte of its own keeps the heap. -/
theorem Isolated.store (hi : Isolated heap w v segs) {u : BitVec 8}
    (hown : OwnStore heap w (.store x u)) :
    Isolated heap
      ⟨{ w.state with memory := Function.update w.state.memory x u }, w.live⟩ v segs where
  tiled := hi.tiled
  bytes := by
    refine hi.bytes.store fun b hb hin => ?_
    rcases hown with hout | ⟨y, hy, hxy⟩
    · have hbin := (headersApart_starts hi.tiled.1.whole b hb).1
      have hH := heapSize_eq
      exact hout (area_subset hbin (by omega) hin)
    · obtain ⟨a, ha, rfl⟩ := hi.live_iff.mp hy
      exact hi.tiled.payload_apart ha hxy b hb hin
  live := hi.live

/-- `mem_alloc` keeps the heap, and the payloads. -/
theorem Isolated.alloc (hi : Isolated heap w v segs)
    (hheap : (0 : Pointer) ∉ area heap heapSize) {size : Int}
    (hsafe : TilingSafe v (.alloc size)) :
    (∃ w' v' segs', w.step heap (.alloc size) = some w' ∧ v.step (.alloc size) = some v' ∧
      Isolated heap w' v' segs' ∧ KeepsPayloads w w' (.alloc size)) ∧
      w.answers heap (.alloc size) = v.answers heap (.alloc size) := by
  obtain ⟨q, h', s', segs₁, halloc, hbytes, hrep, hshows⟩ :=
    memAlloc_shows hi.bytes hi.tiled.1 hheap hsafe
  obtain ⟨v', segs', hstep, htiled, -⟩ := step_tiledBy hi.tiled hsafe
  have hv := hstep
  rw [HeapRun.step, halloc, Option.map_some] at hv
  have hw : w.step heap (.alloc size) = some (if pointerTo heap q = 0 then ⟨s', w.live⟩
      else ⟨s', (pointerTo heap q, size) :: w.live⟩) := by
    rw [MemoryRun.step, hbytes, Option.map_some]
  refine ⟨?_, by rw [MemoryRun.answers, HeapRun.answers, hbytes, halloc]; rfl⟩
  cases q with
  | none =>
      obtain rfl := Option.some.inj hv
      rw [hrep.follows.unique htiled.1.follows] at hshows
      have hbytes' := hshows.mono fun _ hb => hb
      refine ⟨_, _, segs', hw, hstep, ⟨htiled, hbytes', hi.live⟩, fun y hy _ => ⟨hy, ?_⟩⟩
      obtain ⟨a, ha, rfl⟩ := hi.live_iff.mp hy
      exact fun x hx => hshows.frame x (htiled.payload_apart ha hx)
  | some q =>
      obtain rfl := Option.some.inj hv
      rw [hrep.follows.unique htiled.1.follows] at hshows
      have hbytes' := hshows.mono fun _ hb => hb
      have hne : pointerTo heap (some q) ≠ 0 :=
        blockAt_ne_zero hheap (htiled.inside List.mem_cons_self).1
      rw [if_neg hne] at hw
      refine ⟨_, _, segs', hw, hstep, ⟨htiled, hbytes', ?_⟩, fun y hy _ => ⟨?_, ?_⟩⟩
      · rw [List.map_cons, hi.live]
        rfl
      · exact List.mem_cons_of_mem _ hy
      · obtain ⟨a, ha, rfl⟩ := hi.live_iff.mp hy
        exact fun x hx =>
          hshows.frame x (htiled.payload_apart (List.mem_cons_of_mem _ ha) hx)

/-- `mem_free` keeps the heap, and the other payloads. -/
theorem Isolated.free (hi : Isolated heap w v segs)
    (hheap : (0 : Pointer) ∉ area heap heapSize) {ptr : Pointer}
    (hsafe : TilingSafe v (.free (freeArgument heap ptr))) :
    (∃ w' v' segs', w.step heap (.free ptr) = some w' ∧
      v.step (.free (freeArgument heap ptr)) = some v' ∧
      Isolated heap w' v' segs' ∧ KeepsPayloads w w' (.free ptr)) ∧
      w.answers heap (.free ptr) = v.answers heap (.free (freeArgument heap ptr)) := by
  obtain ⟨e, h', s', segs₁, hfree, hbytes, hrep, hshows, hsub⟩ :=
    memFree_shows hi.bytes hi.tiled.1 hheap hsafe
  obtain ⟨v', segs', hstep, htiled, -⟩ := step_tiledBy hi.tiled hsafe
  have hv := hstep
  rw [HeapRun.step, hfree, Option.map_some] at hv
  have hw : w.step heap (.free ptr) = some
      (if e = noError then ⟨s', w.live.filter fun a => ptr ≠ a.1⟩ else ⟨s', w.live⟩) := by
    rw [MemoryRun.step, hbytes, Option.map_some]
  have hbytes' := hshows.mono hsub
  have hframe : ∀ a ∈ v.live, ∀ x ∈ area (blockAt heap a.1) a.2.toNat,
      s'.memory x = w.state.memory x :=
    fun a ha x hx => hshows.frame x (hi.tiled.payload_apart ha hx)
  refine ⟨?_, by rw [MemoryRun.answers, HeapRun.answers, hbytes, hfree]; rfl⟩
  by_cases he : e = noError
  · rw [if_pos he] at hv hw
    obtain rfl := Option.some.inj hv
    rw [hrep.follows.unique htiled.1.follows] at hbytes'
    refine ⟨_, _, segs', hw, hstep, ⟨htiled, hbytes', ?_⟩, fun y hy hkeep => ⟨?_, ?_⟩⟩
    · simp only
      rw [hi.live, List.filter_map]
      refine congrArg _ (List.filter_congr fun a ha => ?_)
      have hiff : freeArgument heap ptr = some (a.1 : Int) ↔ ptr = blockAt heap a.1 :=
        freeArgument_eq_iff hheap (hi.tiled.inside ha).1
      exact decide_eq_decide.mpr (not_congr hiff.symm)
    · refine List.mem_filter.mpr ⟨hy, decide_eq_true fun heq => hkeep (by rw [heq])⟩
    · obtain ⟨a, ha, rfl⟩ := hi.live_iff.mp hy
      exact hframe a ha
  · rw [if_neg he] at hv hw
    obtain rfl := Option.some.inj hv
    rw [hrep.follows.unique htiled.1.follows] at hbytes'
    refine ⟨_, _, segs', hw, hstep, ⟨htiled, hbytes', hi.live⟩, fun y hy _ => ⟨hy, ?_⟩⟩
    obtain ⟨a, ha, rfl⟩ := hi.live_iff.mp hy
    exact hframe a ha

/-- **One event**: it happens in the bytes, and is answered, as its call in the headers. -/
theorem Isolated.step (hi : Isolated heap w v segs)
    (hheap : (0 : Pointer) ∉ area heap heapSize) {e : MemoryEvent}
    (hown : OwnStore heap w e) (hsafe : ∀ c, e.heapCall heap = some c → TilingSafe v c) :
    ∃ w' v' segs', w.step heap e = some w' ∧
      run HeapRun.step v (heapCalls heap [e]) = some v' ∧
      Isolated heap w' v' segs' ∧ KeepsPayloads w w' e ∧
      w.answers heap e =
        history HeapRun.step (HeapRun.answers heap) v (heapCalls heap [e]) := by
  cases e with
  | alloc size =>
      obtain ⟨⟨w', v', segs', hw, hv, hi', hkeep⟩, hanswer⟩ := hi.alloc hheap (hsafe _ rfl)
      refine ⟨w', v', segs', hw, run_cons.mpr ⟨v', hv, rfl⟩, hi', hkeep, ?_⟩
      rw [hanswer]
      simp [heapCalls, MemoryEvent.heapCall, history, hv]
  | free ptr =>
      obtain ⟨⟨w', v', segs', hw, hv, hi', hkeep⟩, hanswer⟩ := hi.free hheap (hsafe _ rfl)
      refine ⟨w', v', segs', hw, run_cons.mpr ⟨v', hv, rfl⟩, hi', hkeep, ?_⟩
      rw [hanswer]
      simp [heapCalls, MemoryEvent.heapCall, history, hv]
  | store x u =>
      refine ⟨_, v, segs, rfl, rfl, hi.store hown, fun y hy _ => ⟨hy, fun z _ => ?_⟩, rfl⟩
      by_cases hzx : x = z
      · simp [lastStored, hzx]
      · simp [lastStored, hzx, Ne.symm hzx]

/-! ## Runs -/

/-- The heap that `mem_init` writes. -/
theorem isolated_start (heap : Pointer) (memory : Memory 64) :
    Isolated heap (MemoryRun.start heap memory) HeapRun.start
      [⟨heapSize - sizeofBlockHeader, false⟩] where
  tiled := tiledBy_start
  bytes := by
    have hH := heapSize_eq
    have hS := sizeofBlockHeader_eq
    have hzero : Shows heap memory ⟨memory, 1, 0, heapSize⟩
        ⟨fun _ => ⟨0, 0, false, none, none⟩, 1, 0, heapSize⟩ [] :=
      ⟨fun b hb => absurd hb List.not_mem_nil, rfl, rfl, rfl, fun _ _ => rfl⟩
    have hsp : HeadersApart [0] := by
      intro b hb
      obtain rfl := List.mem_singleton.mp hb
      refine ⟨by omega, fun c hc => Or.inl (List.mem_singleton.mp hc)⟩
    have hwrite : Shows heap memory (HeapMemory.writeHeader ⟨memory, 1, 0, heapSize⟩
        (blockAt heap 0) 0 (subULong heapSize sizeofBlockHeader) 0 0) _ [0] :=
      hzero.writeHeader hsp
    have hnull : offsetOf heap 0 = none := if_pos rfl
    have hsize : subULong heapSize sizeofBlockHeader % 2 ^ 32 =
        subULong heapSize sizeofBlockHeader := by
      rw [subULong_of_le (by omega) (by omega)]
      omega
    rw [blockAt_zero, hnull, hsize] at hwrite
    exact hwrite.mono fun _ hb => hb
  live := rfl

theorem lastStored_cons (x : Pointer) (e : MemoryEvent) (evs : List MemoryEvent) (u : BitVec 8) :
    lastStored x (e :: evs) u = lastStored x evs (lastStored x [e] u) := by
  cases e <;> rfl

theorem heapCalls_cons (heap : Pointer) (e : MemoryEvent) (evs : List MemoryEvent) :
    heapCalls heap (e :: evs) = heapCalls heap [e] ++ heapCalls heap evs := by
  unfold heapCalls
  rw [← List.filterMap_append, List.singleton_append]

/-- **Events one after another**, by induction on them. -/
theorem Isolated.run_events (hi : Isolated heap w v segs)
    (hheap : (0 : Pointer) ∉ area heap heapSize) {evs : List MemoryEvent}
    (hown : AllSteps (MemoryRun.step heap) (OwnStore heap) w evs)
    (hsafe : AllSteps HeapRun.step TilingSafe v (heapCalls heap evs)) :
    ∃ w' v' segs', run (MemoryRun.step heap) w evs = some w' ∧
      run HeapRun.step v (heapCalls heap evs) = some v' ∧ Isolated heap w' v' segs' ∧
      history (MemoryRun.step heap) (MemoryRun.answers heap) w evs =
        history HeapRun.step (HeapRun.answers heap) v (heapCalls heap evs) ∧
      ∀ a ∈ w.live, .free a.1 ∉ evs → a ∈ w'.live ∧
        ∀ x ∈ area a.1 a.2.toNat,
          w'.state.memory x = lastStored x evs (w.state.memory x) := by
  induction evs generalizing w v segs with
  | nil => exact ⟨w, v, segs, rfl, rfl, hi, rfl, fun a ha _ => ⟨ha, fun _ _ => rfl⟩⟩
  | cons e evs ih =>
      rw [heapCalls_cons] at hsafe
      obtain ⟨hfirst, hrest⟩ := AllSteps.append.mp hsafe
      have hcall : ∀ c, e.heapCall heap = some c → TilingSafe v c := by
        intro c hc
        have hone : heapCalls heap [e] = [c] := by simp [heapCalls, hc]
        rw [hone] at hfirst
        exact hfirst.1
      obtain ⟨w₁, v₁, segs₁, hw₁, hv₁, hi₁, hkeep₁, hanswer⟩ := hi.step hheap hown.1 hcall
      obtain ⟨w', v', segs', hw', hv', hi', hanswers, hkeep'⟩ :=
        ih hi₁ (hown.2 w₁ hw₁) (hrest v₁ hv₁)
      refine ⟨w', v', segs', run_cons.mpr ⟨w₁, hw₁, hw'⟩, ?_, hi', ?_, fun a ha hfree => ?_⟩
      · rw [heapCalls_cons]
        exact run_append.mpr ⟨v₁, hv₁, hv'⟩
      · rw [heapCalls_cons, history_append hv₁, history, hw₁, hanswer, Option.elim_some, hanswers]
      · rw [List.mem_cons, not_or] at hfree
        obtain ⟨ha₁, hbytes₁⟩ := hkeep₁ a ha fun heq => hfree.1 heq.symm
        obtain ⟨ha', hbytes'⟩ := hkeep' a ha₁ hfree.2
        refine ⟨ha', fun x hx => ?_⟩
        rw [hbytes' x hx, hbytes₁ x hx, ← lastStored_cons]

/-- Stores are no calls. -/
theorem heapCalls_filter (heap : Pointer) (evs : List MemoryEvent) :
    heapCalls heap (evs.filter MemoryEvent.isCall) = heapCalls heap evs := by
  unfold heapCalls
  rw [List.filterMap_filter]
  refine List.filterMap_congr fun e _ => ?_
  cases e <;> rfl

end PingPongOS
