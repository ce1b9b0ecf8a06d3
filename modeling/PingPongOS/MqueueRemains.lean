import PingPongOS.ObjectRemains

/-!
# What remains of a message queue

The semaphores of a message queue lie in memory over what was there before, each owning its
block, its queue and its nodes.  It does not matter which one lies on top, so that a step on
any of them is a step on the top one.  `mqueue_destroy` gives back the ring and the struct.
What remains is the semaphores, with their queues.
-/

namespace PingPongOS

open PointerChain QueueMemory Runs

/-- A semaphore at its address, with its queue at another. -/
structure PlacedSem where
  block : Nat
  queue : Nat
  value : Semaphore

/-- The semaphore is new in `T`, and all that has changed since `S`. -/
structure PlacedSem.Owns (a : PlacedSem) (S T : Blocks) : Prop where
  owned : SemOwned S a.block a.queue T a.value
  unlocked : a.value.lock = false
  block : S.heap a.block = none
  queue : S.memory.queue a.queue = none

/-- The semaphores lie over `S`, the first one on top. -/
def Layers (S : Blocks) : List PlacedSem → Blocks → Prop
  | [], T => T = S
  | a :: l, T => ∃ U, Layers S l U ∧ a.Owns U T

variable {S S' T T' U : Blocks} {a b : PlacedSem} {l l' : List PlacedSem} {p c : Nat}
  {o : Option HeapBlock}

/-- The nodes of a queue are read from the memory that they are in. -/
theorem Owned.moved {M₀ M₀' M M' : QueueMemory} {q : Queue Nat} {before after : List Nat}
    (h : Owned M₀ M p q before after) (hqueue : M'.queue p = M.queue p)
    (hnodes : ∀ c ∈ before ++ after, M'.node c = M.node c)
    (hfresh : ∀ c ∈ before ++ after, M₀'.node c = none)
    (hother : ∀ c, c ∉ before ++ after → M'.node c = M₀'.node c)
    (hothers : ∀ p', p' ≠ p → M'.queue p' = M₀'.queue p') : Owned M₀' M' p q before after := by
  obtain ⟨r, hr, hl⟩ := h.record
  exact ⟨⟨r, hqueue.trans hr, hl.congr hnodes⟩, hfresh, hother, hothers⟩

/-- **Two semaphores** lie in memory in either order. -/
theorem PlacedSem.Owns.swap (ha : a.Owns S T) (hb : b.Owns T U) :
    ∃ V, b.Owns S V ∧ a.Owns V U := by
  obtain ⟨before, after, hqa⟩ := ha.owned.queue
  obtain ⟨before', after', hqb⟩ := hb.owned.queue
  have hblock : a.block ≠ b.block := by
    intro heq
    have hnone := hb.block
    rw [← heq, ha.owned.block] at hnone
    exact absurd hnone (by simp)
  have hqueue : a.queue ≠ b.queue := by
    intro heq
    obtain ⟨r, hr, -⟩ := hqa.record
    have hnone := hb.queue
    rw [← heq, hr] at hnone
    exact absurd hnone (by simp)
  have hapart : ∀ c ∈ before ++ after, c ∉ before' ++ after' := fun c hc hc' =>
    hqa.allocated hc (hqb.fresh c hc')
  let V : Blocks :=
    { heap := Function.update S.heap b.block (U.heap b.block)
      memory :=
        { node := fun c => if c ∈ before' ++ after' then U.memory.node c else S.memory.node c
          queue := Function.update S.memory.queue b.queue (U.memory.queue b.queue) } }
  have hnode : ∀ c, c ∉ before' ++ after' → V.memory.node c = S.memory.node c := fun c hc =>
    if_neg hc
  have hnode' : ∀ c ∈ before' ++ after', V.memory.node c = U.memory.node c := fun c hc =>
    if_pos hc
  have hVqueue : V.memory.queue b.queue = U.memory.queue b.queue := Function.update_self ..
  have hVqueues : ∀ p', p' ≠ b.queue → V.memory.queue p' = S.memory.queue p' := fun p' hne =>
    Function.update_of_ne hne _ _
  have hfresh : ∀ c ∈ before' ++ after', S.memory.node c = none := by
    intro c hc
    rw [← hqa.node c fun hmem => hapart c hmem hc]
    exact hqb.fresh c hc
  refine ⟨V, ⟨⟨hb.owned.pointers, ?_, fun c hc => Function.update_of_ne hc _ _, before', after',
    hqb.moved hVqueue hnode' hfresh hnode hVqueues⟩, hb.unlocked, ?_, ?_⟩,
    ⟨ha.owned.pointers, ?_, fun c hc => ?_, before, after,
      hqa.moved (hqb.queue _ hqueue) (fun c hc => hqb.node c (hapart c hc))
        (fun c hc => ?_) (fun c hc => ?_) fun p' hne => ?_⟩, ha.unlocked, ?_, ?_⟩
  · exact (Function.update_self ..).trans hb.owned.block
  · rw [← ha.owned.heap _ (Ne.symm hblock)]
    exact hb.block
  · rw [← hqa.queue _ (Ne.symm hqueue)]
    exact hb.queue
  · rw [hb.owned.heap _ hblock]
    exact ha.owned.block
  · by_cases hcb : c = b.block
    · rw [hcb]
      exact (Function.update_self b.block _ S.heap).symm
    · rw [hb.owned.heap c hcb, ha.owned.heap c hc]
      exact (Function.update_of_ne hcb _ _).symm
  · rw [hnode c (hapart c hc)]
    exact hqa.fresh c hc
  · by_cases hcb : c ∈ before' ++ after'
    · exact (hnode' c hcb).symm
    · rw [hnode c hcb, hqb.node c hcb, hqa.node c hc]
  · by_cases hpb : p' = b.queue
    · rw [hpb]
      exact hVqueue.symm
    · rw [hVqueues p' hpb, hqb.queue p' hpb, hqa.queue p' hne]
  · exact (Function.update_of_ne hblock _ _).trans ha.block
  · exact (Function.update_of_ne hqueue _ _).trans ha.queue

/-- **The order of the semaphores** is as one likes. -/
theorem Layers.perm (h : Layers S l T) (hperm : l.Perm l') : Layers S l' T := by
  induction hperm generalizing T with
  | nil => exact h
  | cons a _ ih =>
      obtain ⟨U, hU, ha⟩ := h
      exact ⟨U, ih hU, ha⟩
  | swap a b l =>
      obtain ⟨U, ⟨W, hW, hb⟩, ha⟩ := h
      obtain ⟨V, hV, hb'⟩ := hb.swap ha
      exact ⟨V, ⟨W, hW, hV⟩, hb'⟩
  | trans _ _ ih ih' => exact ih' (ih h)

/-- Any of the semaphores, on top. -/
theorem Layers.top {l₁ l₂ : List PlacedSem} (h : Layers S (l₁ ++ a :: l₂) T) :
    ∃ U, Layers S (l₁ ++ l₂) U ∧ a.Owns U T := h.perm List.perm_middle

/-- A semaphore under others, from one that is on top. -/
theorem Layers.under {l₁ l₂ : List PlacedSem} (h : Layers S (l₁ ++ l₂) U) (ha : a.Owns U T) :
    Layers S (l₁ ++ a :: l₂) T :=
  Layers.perm (show Layers S (a :: (l₁ ++ l₂)) T from ⟨U, h, ha⟩) List.perm_middle.symm

/-- The block of one of the semaphores. -/
theorem Layers.block (h : Layers S l T) (ha : a ∈ l) :
    T.heap a.block = some (.semaphore ⟨a.value.lock, a.queue, a.value.value, a.value.destroy⟩) := by
  obtain ⟨l₁, l₂, rfl⟩ := List.append_of_mem ha
  obtain ⟨U, -, howns⟩ := h.top
  exact howns.owned.block

theorem Layers.block_ne_zero (h : Layers S l T) (ha : a ∈ l) : a.block ≠ 0 := by
  obtain ⟨l₁, l₂, rfl⟩ := List.append_of_mem ha
  obtain ⟨U, -, howns⟩ := h.top
  exact howns.owned.pointers.1

/-- What is allocated under the semaphores is as it was. -/
theorem Layers.base (h : Layers S l T) (hc : S.heap c ≠ none) : T.heap c = S.heap c := by
  induction l generalizing T with
  | nil =>
      obtain rfl : T = S := h
      rfl
  | cons a l ih =>
      obtain ⟨U, hU, ha⟩ := h
      have hsame := ih hU
      rw [← hsame]
      refine ha.owned.heap c fun heq => ?_
      rw [← hsame, heq] at hc
      exact hc ha.block

theorem Layers.baseQueue (h : Layers S l T) (hc : S.memory.queue c ≠ none) :
    T.memory.queue c = S.memory.queue c := by
  induction l generalizing T with
  | nil =>
      obtain rfl : T = S := h
      rfl
  | cons a l ih =>
      obtain ⟨U, hU, ha⟩ := h
      obtain ⟨before, after, hqueue⟩ := ha.owned.queue
      have hsame := ih hU
      rw [← hsame]
      refine hqueue.queue c fun heq => ?_
      rw [← hsame, heq] at hc
      exact hc ha.queue

/-- **The semaphores are new.** -/
theorem Layers.fresh (h : Layers S l T) (ha : a ∈ l) :
    S.heap a.block = none ∧ S.memory.queue a.queue = none := by
  obtain ⟨l₁, l₂, rfl⟩ := List.append_of_mem ha
  obtain ⟨U, hU, howns⟩ := h.top
  constructor
  · by_contra hsome
    exact hsome ((hU.base hsome).symm.trans howns.block)
  · by_contra hsome
    exact hsome ((hU.baseQueue hsome).symm.trans howns.queue)

/-- Write a block, or release it. -/
def Blocks.store (S : Blocks) (p : Nat) (o : Option HeapBlock) : Blocks :=
  { S with heap := Function.update S.heap p o }

/-- **A block under the semaphores** is written. -/
theorem Layers.store (h : Layers S l T) (hp : ∀ a ∈ l, a.block ≠ p) (o : Option HeapBlock) :
    Layers (S.store p o) l (T.store p o) := by
  induction l generalizing T with
  | nil => exact congrArg (Blocks.store · p o) h
  | cons a l ih =>
      obtain ⟨U, hU, ha⟩ := h
      have hne : a.block ≠ p := hp a List.mem_cons_self
      refine ⟨U.store p o, ih hU fun b hb => hp b (List.mem_cons_of_mem a hb),
        ⟨ha.owned.pointers, ?_, fun c hc => ?_, ha.owned.queue⟩, ha.unlocked, ?_, ha.queue⟩
      · exact (Function.update_of_ne hne _ _).trans ha.owned.block
      · by_cases hcp : c = p
        · simp [Blocks.store, hcp]
        · simp [Blocks.store, Function.update_of_ne hcp, ha.owned.heap c hc]
      · exact (Function.update_of_ne hne _ _).trans ha.block

/-- **What the semaphores leave**, with nobody waiting. -/
theorem Layers.live (h : Layers S l T) (hnil : ∀ a ∈ l, a.value.waitQueue.items = []) :
    T.memLive = S.memLive ∪ { c | c ∈ l.map PlacedSem.block } ∧
      T.mallocLive = S.mallocLive ∪ { c | c ∈ l.map PlacedSem.queue } := by
  induction l generalizing T with
  | nil =>
      obtain rfl : T = S := h
      simp
  | cons a l ih =>
      obtain ⟨U, hU, ha⟩ := h
      obtain ⟨hmem, hmalloc⟩ := ih hU fun b hb => hnil b (List.mem_cons_of_mem a hb)
      obtain ⟨hmem', hmalloc'⟩ := ha.owned.live (hnil a List.mem_cons_self)
      rw [hmem', hmalloc', hmem, hmalloc]
      constructor
      · ext c
        simp only [Set.mem_insert_iff, Set.mem_union, Set.mem_ofPred_eq, List.map_cons,
          List.mem_cons]
        tauto
      · ext c
        simp only [Set.mem_insert_iff, Set.mem_union, Set.mem_ofPred_eq, List.map_cons,
          List.mem_cons]
        tauto

/-! ## One semaphore -/

/-- A semaphore that has just been created is on top. -/
theorem Layers.create (h : Layers S l T) {block queue s : Nat} {value : Int}
    (hcreate : T.semCreate block queue value = some (s, T')) (hs : s ≠ 0) :
    ∃ a, a.block = s ∧ Layers S (a :: l) T' := by
  obtain ⟨wq, howned, hvacant, hqvacant⟩ :=
    SemOwned.start (show T.create (.semaphore block queue value) = _ from hcreate) hs
  exact ⟨⟨s, wq, freshSemaphore value⟩, rfl, T, h, howned, rfl, hvacant.1, hqvacant.2.2⟩

/-- **`sem_create`** that fails leaves nothing. -/
theorem semCreate_refused {block queue : Nat} {value : Int} {r : Nat × Blocks}
    (h : S.semCreate block queue value = some r) (hr : r.1 = 0) : r.2 = S := by
  unfold Blocks.semCreate at h
  split at h
  · exact Option.some.inj h ▸ rfl
  · obtain ⟨a, ha, h⟩ := Option.bind_eq_some_iff.mp h
    split at h
    · rename_i hnull
      rw [← Option.some.inj h]
      exact ((Blocks.memAlloc_some ha).resolve_right fun hand => hand.1 hnull).2
    · rename_i hnull
      obtain ⟨-, hvacant, ha2⟩ := (Blocks.memAlloc_some ha).resolve_left fun hand => hnull hand.1
      obtain ⟨q, hq, h⟩ := Option.bind_eq_some_iff.mp h
      split at h
      · rename_i hq0
        have hq2 : q.2 = a.2 := by
          unfold Blocks.queueCreate at hq
          split at hq
          · obtain rfl := Option.some.inj hq
            by_cases hm : queue = 0
            · simp [QueueMemory.queueCreate, hm]
            · simp [QueueMemory.queueCreate, hm] at hq0
          · exact absurd hq (by simp)
        have hlive : q.2.heap a.1 = some .bytes := by
          rw [hq2, ha2]
          exact Function.update_self ..
        rw [← Option.some.inj h]
        simp only [Blocks.memFree, hlive]
        rw [hq2, ha2]
        simp [Blocks.write, ← hvacant.1]
      · rw [← Option.some.inj h] at hr
        exact absurd hr hnull

/-- **A step on a semaphore** of the list. -/
theorem Layers.step {l₁ l₂ : List PlacedSem} (h : Layers S (l₁ ++ a :: l₂) T) {o : SemOp}
    (hop : SemFits a.block T (.semaphore o)) (hstep : T.semStep a.block o = some T') :
    ∃ x, Layers S (l₁ ++ { a with value := x } :: l₂) T' := by
  obtain ⟨U, hU, ha⟩ := h.top
  have hobject : Blocks.objectStep (.semaphore 0 0 0) a.block T (.semaphore o) = some T' := hstep
  obtain ⟨x, hx, hlock⟩ := ha.owned.step ha.unlocked hop hobject
  exact ⟨x, hU.under ⟨hx, hlock, ha.block, ha.queue⟩⟩

/-- **The destruction of a semaphore** of the list: nobody waits for it any more. -/
theorem Layers.destroyed {l₁ l₂ : List PlacedSem} (h : Layers S (l₁ ++ a :: l₂) T) :
    ∃ T' x, T.semDestroy a.block = some (noError, T') ∧
      Layers S (l₁ ++ { a with value := x } :: l₂) T' ∧ x.waitQueue.items = [] := by
  obtain ⟨U, hU, ha⟩ := h.top
  obtain ⟨T', x, hdestroy, hx, hlock, hnil⟩ := ha.owned.destroyed ha.unlocked
  exact ⟨T', x, hdestroy, hU.under ⟨hx, hlock, ha.block, ha.queue⟩, hnil⟩

/-! ## The ring and the struct -/

/-- The block of the ring, where there is one. -/
def Blocks.withRing (S : Blocks) (ring : Nat) : Blocks :=
  if ring = 0 then S else S.store ring (some .bytes)

/-- The struct and the ring of a message queue. -/
def Blocks.withMqueue (S : Blocks) (p : Nat) (q : MqueueT) : Blocks :=
  (S.store p (some (.mqueue q))).withRing q.ring

variable {q : MqueueT} {ring : Nat}

@[simp] theorem store_store (o' : Option HeapBlock) : (S.store p o).store p o' = S.store p o' := by
  simp [Blocks.store]

theorem store_heap_self (hp : S.heap p = o) : S.store p o = S := by
  simp [Blocks.store, ← hp]

/-- The ring is not the block that is written. -/
theorem withRing_store (hring : ring = 0 ∨ p ≠ ring) :
    (S.withRing ring).store p o = (S.store p o).withRing ring := by
  unfold Blocks.withRing
  split
  · rfl
  · rename_i h0
    simp only [Blocks.store]
    rw [Function.update_comm (Ne.symm (hring.resolve_left h0))]

/-- **`circular_buffer_create`** that has been given its block, or none. -/
theorem ringCreate_eq {block : Nat} {maxCapacity itemSize : Int} {bytes : Int → UInt8}
    {r : (Nat × CircularBuffer) × Blocks}
    (h : S.ringCreate block maxCapacity itemSize bytes = some r) :
    r.2 = S.withRing r.1.1 ∧ (r.1.1 = 0 ∨ S.heap r.1.1 = none) := by
  unfold Blocks.ringCreate at h
  split at h
  · obtain rfl := Option.some.inj h
    exact ⟨rfl, Or.inl rfl⟩
  · obtain ⟨a, ha, h⟩ := Option.bind_eq_some_iff.mp h
    obtain rfl := Option.some.inj h
    rcases Blocks.memAlloc_some ha with ⟨hnull, hS⟩ | ⟨hne, hvacant, hS⟩
    · exact ⟨by rw [hS, hnull]; rfl, Or.inl hnull⟩
    · exact ⟨by rw [hS, Blocks.withRing, if_neg hne]; rfl, Or.inr hvacant.1⟩

/-- **A block under the semaphores** that is none of them is released. -/
theorem Layers.released {x : HeapBlock} (h : Layers (S.store p (some x)) l T)
    (hx : ∀ y, x ≠ .semaphore y) (hp : S.heap p = none) : Layers S l (T.memFree p).2 := by
  have hlive : T.heap p = some x := by
    have hbase : (S.store p (some x)).heap p = some x := Function.update_self ..
    rw [h.base (by rw [hbase]; simp), hbase]
  have hfree : (T.memFree p).2 = T.store p none := by
    simp [Blocks.memFree, hlive, Blocks.store]
  have hne : ∀ a ∈ l, a.block ≠ p := by
    intro a ha heq
    have hsem := h.block ha
    rw [heq, hlive] at hsem
    exact hx _ (Option.some.inj hsem)
  have hstore := h.store hne none
  rw [store_store, store_heap_self hp] at hstore
  rwa [hfree]

/-- **`circular_buffer_destroy`** under the semaphores. -/
theorem Layers.ringFree (h : Layers (S.withRing ring) l T)
    (hring : ring = 0 ∨ S.heap ring = none) : Layers S l (T.ringFree ring) := by
  unfold Blocks.withRing at h
  unfold Blocks.ringFree
  split
  · rename_i h0
    rwa [if_pos h0] at h
  · rename_i h0
    rw [if_neg h0] at h
    exact h.released (by simp) (hring.resolve_left h0)

/-! ## The message queue -/

/-- The semaphores of a message queue, the last one first; where the allocation of `buffer`
was refused there are two. -/
def MqueueT.sems (q : MqueueT) : List Nat :=
  (if q.buffer = 0 then [] else [q.buffer]) ++ [q.itemsAvailable, q.spaceAvailable]

/-- The message queue at `p` is `q`; it, its ring and the semaphores `l` are all that has
changed since `S`. -/
structure MqueueOwned (S : Blocks) (p : Nat) (T : Blocks) (q : MqueueT) (l : List PlacedSem) :
    Prop where
  pointer : p ≠ 0
  vacant : S.heap p = none
  ring : q.ring = 0 ∨ (S.heap q.ring = none ∧ p ≠ q.ring)
  blocks : l.map PlacedSem.block = q.sems
  layers : Layers (S.withMqueue p q) l T

theorem MqueueOwned.struct (h : MqueueOwned S p T q l) : T.heap p = some (.mqueue q) := by
  have hbase : (S.withMqueue p q).heap p = some (.mqueue q) := by
    unfold Blocks.withMqueue
    rw [← withRing_store (h.ring.imp_right And.right)]
    exact Function.update_self ..
  rw [h.layers.base (by rw [hbase]; simp), hbase]

theorem MqueueOwned.mqueueAt (h : MqueueOwned S p T q l) : T.mqueueAt p = some q := by
  rw [Blocks.mqueueAt, h.struct]

/-- The struct is none of the semaphores. -/
theorem MqueueOwned.ne (h : MqueueOwned S p T q l) : ∀ a ∈ l, a.block ≠ p := by
  intro a ha heq
  have hsem := h.layers.block ha
  rw [heq, h.struct] at hsem
  exact absurd hsem (by simp)

/-- What is under the semaphores when the struct is written. -/
theorem withMqueue_store (hring : q.ring = 0 ∨ p ≠ q.ring) :
    (S.withMqueue p q).store p o = (S.store p o).withRing q.ring := by
  rw [Blocks.withMqueue, withRing_store hring, store_store]

/-- The ring of the queue is written. -/
theorem MqueueOwned.written (h : MqueueOwned S p T q l) (b : CircularBuffer) :
    MqueueOwned S p (T.write p (.mqueue { q with buff := b })) { q with buff := b } l := by
  refine ⟨h.pointer, h.vacant, h.ring, h.blocks, ?_⟩
  have hstore := h.layers.store h.ne (some (.mqueue { q with buff := b }))
  rwa [withMqueue_store (h.ring.imp_right And.right)] at hstore

/-- A semaphore of the queue that there is. -/
theorem MqueueT.sem_mem (q : MqueueT) {i : QueueSem} (hi : q.sem i ≠ 0) : q.sem i ∈ q.sems := by
  unfold MqueueT.sems
  cases i with
  | spaceAvailable | itemsAvailable => simp [MqueueT.sem]
  | buffer =>
      rw [if_neg (show ¬ q.buffer = 0 from hi)]
      simp [MqueueT.sem]

/-- A ring of `M` slots of `n` bytes, or none. -/
def RingOrNone (M n : Nat) (b : CircularBuffer) : Prop :=
  RingAt M n b ∨ (b.itemQuant = 0 ∧ b.maxCapacity = 0)

theorem RingOrNone.add {M n : Nat} {b : CircularBuffer} (h : RingOrNone M n b)
    (item : Option (Nat → UInt8)) : RingOrNone M n (circularBufferAdd b item).2 := by
  cases item with
  | none => exact h
  | some item =>
      refine h.imp (fun hat => hat.add item) fun hnone => ?_
      simp [circularBufferAdd, hnone]

theorem RingOrNone.remove {M n : Nat} {b : CircularBuffer} (h : RingOrNone M n b) (dest : Bool) :
    RingOrNone M n (circularBufferRemove b dest).2.2 := by
  refine h.imp (fun hat => hat.remove dest) fun hnone => ?_
  cases dest <;> simp [circularBufferRemove, hnone]

/-- The `memcpy` of a step on the ring `b`. -/
def ObjectOp.memcpys (b : CircularBuffer) : ObjectOp → List (Int × Int)
  | .add item => ringMemcpys b (.send item)
  | .remove dest => ringMemcpys b (.recv dest)
  | _ => []

/-- A step on the ring of the queue at `p` stays in the `size` bytes of its block. -/
def CopiesInside (p : Nat) (size : Int) (T : Blocks) (op : ObjectOp) : Prop :=
  ∀ q, T.mqueueAt p = some q → ∀ x ∈ op.memcpys q.buff, InBytes size x

theorem RingOrNone.memcpys {M n : Nat} {b : CircularBuffer} (h : RingOrNone M n b)
    (hfull : M * n < 2 ^ 31) (op : ObjectOp) :
    ∀ x ∈ op.memcpys b, InBytes ((M * n : Nat) : Int) x := by
  intro x hx
  rcases h with hat | ⟨hquant, hcap⟩
  · cases op with
    | add item => exact hat.memcpys hfull _ x hx
    | remove dest => exact hat.memcpys hfull _ x hx
    | queue _ | semaphore _ | mqueue _ _ => exact absurd hx List.not_mem_nil
  · -- an empty ring that is full copies nothing
    cases op with
    | add item => cases item <;> simp [ObjectOp.memcpys, ringMemcpys, hquant, hcap] at hx
    | remove dest => cases dest <;> simp [ObjectOp.memcpys, ringMemcpys, hquant] at hx
    | queue _ | semaphore _ | mqueue _ _ => exact absurd hx List.not_mem_nil

/-- A `malloc` that is vacant and a count that fits, and no task waking up from a `sem_down`
of `NULL`. -/
def MqueueFits (p : Nat) (T : Blocks) : ObjectOp → Prop
  | .mqueue i .woken => ∀ q, T.mqueueAt p = some q → q.sem i ≠ 0
  | .mqueue i o => ∀ q, T.mqueueAt p = some q → SemFits (q.sem i) T (.semaphore o)
  | _ => True

instance (s : Nat) (T : Blocks) : ∀ op, Decidable (SemFits s T op)
  | .semaphore (.down _ malloc) => decidable_of_iff ((malloc = 0 ∨ T.Vacant malloc) ∧
      ∀ y ∈ T.semaphoreAt s, ∀ r ∈ T.memory.queue y.waitQueue, r.size + 1 < 2 ^ 31) Iff.rfl
  | .semaphore .woken | .semaphore .up | .queue _ | .mqueue _ _ | .add _ | .remove _ =>
      .isTrue trivial

instance (p : Nat) (T : Blocks) : ∀ op, Decidable (MqueueFits p T op)
  | .mqueue i .woken => decidable_of_iff (∀ q ∈ T.mqueueAt p, q.sem i ≠ 0) Iff.rfl
  | .mqueue i (.down task malloc) => decidable_of_iff
      (∀ q ∈ T.mqueueAt p, SemFits (q.sem i) T (.semaphore (.down task malloc))) Iff.rfl
  | .mqueue i .up => decidable_of_iff
      (∀ q ∈ T.mqueueAt p, SemFits (q.sem i) T (.semaphore .up)) Iff.rfl
  | .queue _ | .semaphore _ | .add _ | .remove _ => .isTrue trivial

/-- `NULL` is refused. -/
theorem semStep_null {o : SemOp} (ho : o ≠ .woken) (hstep : T.semStep 0 o = some T') : T' = T := by
  cases o with
  | down task malloc => simpa [Blocks.semStep, Blocks.semDown, eq_comm] using hstep
  | woken => exact absurd rfl ho
  | up => simpa [Blocks.semStep, Blocks.semUp, eq_comm] using hstep

/-- **Every step** leaves a message queue that owns its blocks. -/
theorem MqueueOwned.step {m : MqueueBlocks} {maxMsgs msgSize : Int} {bytes : Int → UInt8}
    {op : ObjectOp} (h : MqueueOwned S p T q l) (hop : MqueueFits p T op)
    (hstep : Blocks.objectStep (.mqueue m maxMsgs msgSize bytes) p T op = some T') :
    ∃ q' l', MqueueOwned S p T' q' l' ∧
      ∀ M n, RingOrNone M n q.buff → RingOrNone M n q'.buff := by
  cases op with
  | mqueue i o =>
      simp only [Blocks.objectStep, h.mqueueAt, Option.bind_eq_bind, Option.bind_some] at hstep
      by_cases hi : q.sem i = 0
      · rw [hi] at hstep
        have ho : o ≠ .woken := by
          rintro rfl
          exact hop q h.mqueueAt hi
        rw [semStep_null ho hstep]
        exact ⟨q, l, h, fun _ _ hring => hring⟩
      · have hfits : SemFits (q.sem i) T (.semaphore o) := by
          cases o with
          | down task malloc | up => exact hop q h.mqueueAt
          | woken => trivial
        have hmem := q.sem_mem hi
        rw [← h.blocks] at hmem
        obtain ⟨a, ha, hblock⟩ := List.mem_map.mp hmem
        obtain ⟨l₁, l₂, rfl⟩ := List.append_of_mem ha
        rw [← hblock] at hfits hstep
        obtain ⟨x, hx⟩ := h.layers.step hfits hstep
        refine ⟨q, _, ⟨h.pointer, h.vacant, h.ring, ?_, hx⟩, fun _ _ hring => hring⟩
        rw [← h.blocks]
        simp
  | add item =>
      simp only [Blocks.objectStep, h.mqueueAt, Option.bind_eq_bind, Option.bind_some] at hstep
      rw [← Option.some.inj hstep]
      exact ⟨_, l, h.written _, fun _ _ hring => hring.add item⟩
  | remove dest =>
      simp only [Blocks.objectStep, h.mqueueAt, Option.bind_eq_bind, Option.bind_some] at hstep
      rw [← Option.some.inj hstep]
      exact ⟨_, l, h.written _, fun _ _ hring => hring.remove dest⟩
  | queue _ | semaphore _ => exact absurd hstep (by simp [Blocks.objectStep])

/-- The struct is allocated over the semaphores. -/
theorem MqueueOwned.allocated {block space items buffer : Nat} {buff : CircularBuffer}
    {r : Nat × Blocks} (h : Layers (S.withRing ring) l T)
    (hring : ring = 0 ∨ S.heap ring = none)
    (hblocks : l.map PlacedSem.block = (⟨buff, ring, space, items, buffer⟩ : MqueueT).sems)
    (hstruct : T.mqueueCreateStruct block buff ring space items buffer = some r) (hr : r.1 ≠ 0) :
    MqueueOwned S r.1 r.2
      ⟨{ buff with allocated := decide (ring ≠ 0) }, ring, space, items, buffer⟩ l := by
  obtain ⟨hvacant, hT⟩ := Blocks.mqueueCreateStruct_some hstruct hr
  have hfresh : (S.withRing ring).heap r.1 = none := by
    by_contra hsome
    exact hsome ((h.base hsome).symm.trans hvacant.1)
  have hne : ring = 0 ∨ r.1 ≠ ring := by
    refine or_iff_not_imp_left.mpr fun h0 heq => ?_
    rw [Blocks.withRing, if_neg h0, heq] at hfresh
    simp [Blocks.store] at hfresh
  have hold : S.heap r.1 = none := by
    unfold Blocks.withRing at hfresh
    split at hfresh
    · exact hfresh
    · rename_i h0
      exact (Function.update_of_ne (hne.resolve_left h0) _ _).symm.trans hfresh
  have hsems : ∀ a ∈ l, a.block ≠ r.1 := by
    intro a ha heq
    have hsem := h.block ha
    rw [heq, hvacant.1] at hsem
    exact absurd hsem (by simp)
  refine ⟨hr, hold, ?_, hblocks, ?_⟩
  · exact hring.elim Or.inl fun hnone => hne.imp_right fun hne' => ⟨hnone, hne'⟩
  · have hstore := h.store hsems (some (.mqueue
      ⟨{ buff with allocated := decide (ring ≠ 0) }, ring, space, items, buffer⟩))
    rw [withRing_store hne] at hstore
    have hwrite : r.2 = T.store r.1 (some (.mqueue
        ⟨{ buff with allocated := decide (ring ≠ 0) }, ring, space, items, buffer⟩)) := by
      rw [hT]
      exact store_store _
    rw [hwrite]
    exact hstore

/-- **`circular_buffer_create`** makes a ring of what was asked for, or none. -/
theorem ringCreate_ringOrNone {block : Nat} {maxCapacity itemSize : Int} {bytes : Int → UInt8}
    {r : (Nat × CircularBuffer) × Blocks}
    (h : S.ringCreate block maxCapacity itemSize bytes = some r) :
    RingOrNone maxCapacity.toNat itemSize.toNat r.1.2 := by
  have hcreate : ∀ o, RingOrNone maxCapacity.toNat itemSize.toNat
      (circularBufferCreate maxCapacity itemSize o) := by
    intro o
    cases o with
    | none => exact Or.inr ⟨rfl, rfl⟩
    | some bytes =>
        rw [circularBufferCreate]
        split
        · exact Or.inr ⟨rfl, rfl⟩
        · left
          constructor <;> simp only <;> omega
  unfold Blocks.ringCreate at h
  split at h
  · obtain rfl := Option.some.inj h
    exact hcreate none
  · obtain ⟨a, -, h⟩ := Option.bind_eq_some_iff.mp h
    obtain rfl := Option.some.inj h
    exact hcreate (if a.1 = 0 then none else some bytes)

/-- A creation that is not refused was asked for some messages of some bytes. -/
theorem mqueueCreate_positive {m : MqueueBlocks} {maxMsgs msgSize : Int} {bytes : Int → UInt8}
    (hcreate : S.create (.mqueue m maxMsgs msgSize bytes) = some (p, T)) (hp : p ≠ 0) :
    0 < maxMsgs ∧ 1 < msgSize := by
  simp only [Blocks.create, Blocks.mqueueCreate] at hcreate
  split at hcreate
  · exact absurd (congrArg Prod.fst (Option.some.inj hcreate)) (Ne.symm hp)
  · omega

/-- **A message queue that has just been created** owns its blocks, also where its third
semaphore was refused. -/
theorem MqueueOwned.start {m : MqueueBlocks} {maxMsgs msgSize : Int} {bytes : Int → UInt8}
    (hcreate : S.create (.mqueue m maxMsgs msgSize bytes) = some (p, T)) (hp : p ≠ 0) :
    ∃ q l, MqueueOwned S p T q l ∧ RingOrNone maxMsgs.toNat msgSize.toNat q.buff := by
  simp only [Blocks.create, Blocks.mqueueCreate] at hcreate
  split at hcreate
  · exact absurd (congrArg Prod.fst (Option.some.inj hcreate)) (Ne.symm hp)
  · obtain ⟨b, hb, hcreate⟩ := Option.bind_eq_some_iff.mp hcreate
    obtain ⟨space, hspace, hcreate⟩ := Option.bind_eq_some_iff.mp hcreate
    split at hcreate
    · exact absurd (congrArg Prod.fst (Option.some.inj hcreate)) (Ne.symm hp)
    · rename_i hspace0
      obtain ⟨items, hitems, hcreate⟩ := Option.bind_eq_some_iff.mp hcreate
      split at hcreate
      · obtain ⟨d, -, hcreate⟩ := Option.bind_eq_some_iff.mp hcreate
        exact absurd (congrArg Prod.fst (Option.some.inj hcreate)) (Ne.symm hp)
      · rename_i hitems0
        obtain ⟨hbase, hring⟩ := ringCreate_eq hb
        have hat : ∀ al, RingOrNone maxMsgs.toNat msgSize.toNat { b.1.2 with allocated := al } :=
          fun al => (ringCreate_ringOrNone hb).imp_left fun h =>
            ⟨h.size, h.capacity, h.start, h.end_⟩
        have hstart : Layers (S.withRing b.1.1) [] b.2 := hbase
        obtain ⟨a₁, ha₁, hl₁⟩ := hstart.create hspace hspace0
        obtain ⟨a₂, ha₂, hl₂⟩ := hl₁.create hitems hitems0
        obtain ⟨buffer, hbuffer, hcreate⟩ := Option.bind_eq_some_iff.mp hcreate
        split at hcreate
        · rename_i hbuffer0
          obtain ⟨d₁, hd₁, hcreate⟩ := Option.bind_eq_some_iff.mp hcreate
          obtain ⟨d₂, hd₂, hcreate⟩ := Option.bind_eq_some_iff.mp hcreate
          rw [semCreate_refused hbuffer hbuffer0] at hd₁
          have hfreed : Layers S ([a₂] ++ a₁ :: []) (items.2.ringFree b.1.1) := hl₂.ringFree hring
          obtain ⟨U₁, x₁, hdestroy₁, hu₁, -⟩ := hfreed.destroyed
          rw [ha₁, hd₁] at hdestroy₁
          obtain rfl := Option.some.inj hdestroy₁
          have hmarked : Layers S ([] ++ a₂ :: [{ a₁ with value := x₁ }]) U₁ := hu₁
          obtain ⟨U₂, x₂, hdestroy₂, hu₂, -⟩ := hmarked.destroyed
          rw [ha₂, hd₂] at hdestroy₂
          obtain rfl := Option.some.inj hdestroy₂
          have hl₃ : Layers (S.withRing 0) [{ a₂ with value := x₂ }, { a₁ with value := x₁ }] U₂ :=
            hu₂
          exact ⟨_, _, MqueueOwned.allocated hl₃ (Or.inl rfl) (by simp [MqueueT.sems, ha₁, ha₂])
            hcreate hp, hat _⟩
        · rename_i hbuffer0
          obtain ⟨a₃, ha₃, hl₃⟩ := hl₂.create hbuffer hbuffer0
          exact ⟨_, _, MqueueOwned.allocated hl₃ hring
            (by simp [MqueueT.sems, ha₁, ha₂, ha₃, hbuffer0]) hcreate hp, hat _⟩

/-- **`mqueue_destroy`** gives back the ring and the struct, and the nodes of the two
semaphores that it destroys. -/
theorem MqueueOwned.destroyed (h : MqueueOwned S p T q l)
    (hidle : ∀ a ∈ l, a.block = q.buffer → a.value.waitQueue.items = []) :
    ∃ T' l', T.mqueueDestroy p = some (noError, T') ∧ Layers S l' T' ∧
      l'.map PlacedSem.block = q.sems ∧ ∀ a ∈ l', a.value.waitQueue.items = [] := by
  obtain ⟨top, rest, rfl, htop, hrest⟩ := List.map_eq_append_iff.mp h.blocks
  obtain ⟨a₂, rest, rfl, ha₂, hrest⟩ := List.map_eq_cons_iff.mp hrest
  obtain ⟨a₁, rest, rfl, ha₁, hrest⟩ := List.map_eq_cons_iff.mp hrest
  obtain rfl := List.map_eq_nil_iff.mp hrest
  have hbuffer : ∀ a ∈ top, a.block = q.buffer := by
    intro a ha
    have hmem : a.block ∈ top.map PlacedSem.block := List.mem_map_of_mem ha
    rw [htop] at hmem
    split at hmem
    · exact absurd hmem List.not_mem_nil
    · exact List.mem_singleton.mp hmem
  have hspace0 : q.spaceAvailable ≠ 0 := ha₁ ▸ h.layers.block_ne_zero (by simp)
  have hitems0 : q.itemsAvailable ≠ 0 := ha₂ ▸ h.layers.block_ne_zero (by simp)
  have hring : q.ring = 0 ∨ (S.store p (some (.mqueue q))).heap q.ring = none :=
    h.ring.imp_right fun hand => (Function.update_of_ne (Ne.symm hand.2) _ _).trans hand.1
  have hfreed := h.layers.ringFree hring
  let q' : MqueueT := { q with buff := { q.buff with allocated := false }, ring := 0 }
  have hmarked : Layers (S.store p (some (.mqueue q'))) ((top ++ [a₂]) ++ a₁ :: [])
      ((T.ringFree q.ring).write p (.mqueue q')) := by
    have hstore := hfreed.store h.ne (some (.mqueue q'))
    rw [store_store] at hstore
    rw [List.append_assoc]
    exact hstore
  obtain ⟨T₁, x₁, hdestroy₁, hl₁, hnil₁⟩ := hmarked.destroyed
  rw [List.append_assoc] at hl₁
  have hl₁' : Layers (S.store p (some (.mqueue q'))) (top ++ a₂ :: [{ a₁ with value := x₁ }]) T₁ :=
    hl₁
  obtain ⟨T₂, x₂, hdestroy₂, hl₂, hnil₂⟩ := hl₁'.destroyed
  refine ⟨(T₂.memFree p).2, _, ?_, hl₂.released (by simp) h.vacant, ?_, fun a ha => ?_⟩
  · rw [ha₁] at hdestroy₁
    rw [ha₂] at hdestroy₂
    simp only [Blocks.mqueueDestroy, if_neg h.pointer, h.mqueueAt, Option.bind_eq_bind,
      Option.bind_some, Blocks.semDestroyIf, if_neg hspace0, if_neg hitems0]
    rw [show (T.ringFree q.ring).write p (.mqueue _) = (T.ringFree q.ring).write p (.mqueue q')
      from rfl, hdestroy₁, Option.map_some, Option.bind_some, hdestroy₂]
    rfl
  · rw [List.map_append, htop, MqueueT.sems]
    simp [ha₁, ha₂]
  · rw [List.mem_append, List.mem_cons, List.mem_singleton] at ha
    rcases ha with ha | rfl | rfl
    · exact hidle a (List.mem_append_left _ ha) (hbuffer a ha)
    · exact hnil₂
    · exact hnil₁

/-- Nobody waits for the semaphore `buffer` of the message queue at `p`. -/
def BufferIdle (p : Nat) (T : Blocks) : Prop :=
  ∀ q x r, T.mqueueAt p = some q → T.semaphoreAt q.buffer = some x →
    T.memory.queue x.waitQueue = some r → r.size = 0

instance (p : Nat) (T : Blocks) : Decidable (BufferIdle p T) :=
  decidable_of_iff (∀ q ∈ T.mqueueAt p, ∀ x ∈ T.semaphoreAt q.buffer,
      ∀ r ∈ T.memory.queue x.waitQueue, r.size = 0)
    ⟨fun h q x r hq hx hr => h q hq x hx r hr, fun h q hq x hx r hr => h q x r hq hx hr⟩

theorem MqueueOwned.idle (h : MqueueOwned S p T q l) (hidle : BufferIdle p T) (ha : a ∈ l)
    (hbuffer : a.block = q.buffer) : a.value.waitQueue.items = [] := by
  obtain ⟨l₁, l₂, rfl⟩ := List.append_of_mem ha
  obtain ⟨U, -, howns⟩ := h.layers.top
  obtain ⟨before, after, hqueue⟩ := howns.owned.queue
  obtain ⟨r, hr, hl⟩ := hqueue.record
  have hsize := hidle q _ r h.mqueueAt (hbuffer ▸ howns.owned.semaphoreAt) hr
  rw [hl.size, Int.natCast_eq_zero] at hsize
  exact List.length_eq_zero_iff.mp hsize

/-- A message is sent and received, and task 9 waits for another one. -/
def waitingSteps : List ObjectOp :=
  Blocks.sendSteps ++
    [.mqueue .itemsAvailable (.down 9 0), .mqueue .buffer (.down 9 0), .remove true,
      .mqueue .buffer .up, .mqueue .spaceAvailable .up, .mqueue .itemsAvailable (.down 9 10)]

end PingPongOS
