import PingPongOS.PointerChain
import PingPongOS.Runs
import PingPongOS.TaskSystem

/-!
# The nodes of `queue.c`

`queue.c` with its pointers: a queue is a record with pointers to its first and last
node and to the node of its iterator, and a node points to the next one.  An address is
a number, `NULL` is `0`, and an access through a pointer to nothing has no result, nor
has a loop that does not end.

In every run the memory represents queues split at their iterators, and each call does
on them what `queue.h` says.
-/

namespace PingPongOS

open Runs PointerChain

/-- `node_t`. -/
structure Node where
  next : Nat
  content : Nat
  deriving DecidableEq

/-- `queue_t`. -/
structure QueueT where
  first : Nat
  last : Nat
  iterator : Nat
  size : Int
  deriving DecidableEq

/-- The nodes and the queues that are allocated. -/
structure QueueMemory where
  node : Nat → Option Node
  queue : Nat → Option QueueT

namespace QueueMemory

variable (M : QueueMemory)

/-- The `next` field of the node at an address. -/
def next (a : Nat) : Option Nat := (M.node a).map Node.next

/-- The `content` field of the node at an address. -/
def content (a : Nat) : Option Nat := (M.node a).map Node.content

/-- Write the node at `a`. -/
def setNode (a : Nat) (n : Node) : QueueMemory :=
  { M with node := Function.update M.node a (some n) }

/-- Write the queue at `p`. -/
def setQueue (p : Nat) (q : QueueT) : QueueMemory :=
  { M with queue := Function.update M.queue p (some q) }

/-- `free` of the node at `a`. -/
def free (a : Nat) : QueueMemory := { M with node := Function.update M.node a none }

/-- `queue_create`, with the result of its `malloc`. -/
def queueCreate (malloc : Nat) : Nat × QueueMemory :=
  if malloc = 0 then (0, M) else (malloc, M.setQueue malloc ⟨0, 0, 0, 0⟩)

/-- `queue_add`, with the result of its `malloc`. -/
def queueAdd (queue item malloc : Nat) : Option (Int × QueueMemory) :=
  if queue = 0 ∨ item = 0 then some (error, M)
  else if malloc = 0 then some (error, M)
  else do
    let M := M.setNode malloc ⟨0, item⟩
    let q ← M.queue queue
    if q.size = 0 then
      some (noError, M.setQueue queue
        { first := malloc, last := malloc, iterator := malloc, size := addInt q.size 1 })
    else
      let last ← M.node q.last
      let M := M.setNode q.last { last with next := malloc }
      some (noError, M.setQueue queue { q with last := malloc, size := addInt q.size 1 })

/-- The `while` loop of `queue_del`, from the node `aux` on; the first item is
another one. -/
def queueDelLoop (queue item : Nat) : Nat → Nat → Option (Int × QueueMemory)
  | 0, _ => none
  | budget + 1, aux => do
      let n ← M.node aux
      if n.next = 0 then some (error, M)
      else
        let deleted ← M.node n.next
        if deleted.content = item then
          let q ← M.queue queue
          let M := M.setNode aux { n with next := deleted.next }
          let M := M.free n.next
          some (noError, M.setQueue queue { q with
            last := if n.next = q.last then aux else q.last
            iterator := if q.iterator = n.next then deleted.next else q.iterator
            size := addInt q.size (-1) })
        else queueDelLoop queue item budget n.next

/-- `queue_del`; its loop has a budget of as many rounds as the queue has items. -/
def queueDel (queue item : Nat) : Option (Int × QueueMemory) :=
  if queue = 0 ∨ item = 0 then some (error, M)
  else do
    let q ← M.queue queue
    let aux := q.first
    if q.size = 0 then some (error, M)
    else if q.size = 1 then
      let n ← M.node aux
      if n.content = item then
        some (noError, (M.setQueue queue ⟨0, 0, 0, 0⟩).free aux)
      else some (error, M)
    else
      let n ← M.node aux
      if n.content = item then
        some (noError, (M.setQueue queue { q with
          iterator := if q.iterator = aux then n.next else q.iterator
          first := n.next
          size := addInt q.size (-1) }).free aux)
      else M.queueDelLoop queue item q.size.toNat aux

/-- The loop of `queue_has`, from the node `aux` on. -/
def queueHasLoop (item : Nat) : Nat → Nat → Option Bool
  | _, 0 => some false
  | 0, _ => none
  | budget + 1, aux => do
      let n ← M.node aux
      if n.content = item then some true else queueHasLoop item budget n.next

/-- `queue_has`. -/
def queueHas (queue item : Nat) : Option Bool :=
  if queue = 0 ∨ item = 0 then some false
  else do
    let q ← M.queue queue
    M.queueHasLoop item q.size.toNat q.first

/-- `queue_size`. -/
def queueSize (queue : Nat) : Option Int :=
  if queue = 0 then some error else (M.queue queue).map QueueT.size

/-- The content of the node at an iterator, or `NULL`. -/
def itemAt (iterator : Nat) : Option Nat := if iterator = 0 then some 0 else M.content iterator

/-- `queue_head`. -/
def queueHead (queue : Nat) : Option (Nat × QueueMemory) :=
  if queue = 0 then some (0, M)
  else do
    let q ← M.queue queue
    let item ← M.itemAt q.first
    some (item, M.setQueue queue { q with iterator := q.first })

/-- `queue_next`. -/
def queueNext (queue : Nat) : Option (Nat × QueueMemory) :=
  if queue = 0 then some (0, M)
  else do
    let q ← M.queue queue
    if q.iterator = 0 then some (0, M)
    else
      let n ← M.node q.iterator
      let item ← M.itemAt n.next
      some (item, M.setQueue queue { q with iterator := n.next })

/-- `queue_item`. -/
def queueItem (queue : Nat) : Option Nat :=
  if queue = 0 then some 0
  else do
    let q ← M.queue queue
    M.itemAt q.iterator

end QueueMemory

/-! ## Calls -/

/-- A call on a queue, with the result of its `malloc` where it makes one. -/
inductive QueueOp
  | add (item malloc : Nat)
  | del (item : Nat)
  | has (item : Nat)
  | size
  | head
  | next
  | item
  deriving DecidableEq

/-- A call of `queue.h`. -/
inductive QueueCall
  | create (malloc : Nat)
  | on (queue : Nat) (op : QueueOp)
  deriving DecidableEq

/-- What a call returns. -/
inductive QueueReturn
  | int (n : Int)
  | bool (b : Bool)
  | pointer (p : Nat)
  deriving DecidableEq

namespace QueueMemory

variable (M : QueueMemory)

/-- A call: what it returns, and the memory after it. -/
def call : QueueCall → Option (QueueReturn × QueueMemory)
  | .create malloc => some (.pointer (M.queueCreate malloc).1, (M.queueCreate malloc).2)
  | .on queue (.add item malloc) => (M.queueAdd queue item malloc).map fun r => (.int r.1, r.2)
  | .on queue (.del item) => (M.queueDel queue item).map fun r => (.int r.1, r.2)
  | .on queue (.has item) => (M.queueHas queue item).map fun b => (.bool b, M)
  | .on queue .size => (M.queueSize queue).map fun n => (.int n, M)
  | .on queue .head => (M.queueHead queue).map fun r => (.pointer r.1, r.2)
  | .on queue .next => (M.queueNext queue).map fun r => (.pointer r.1, r.2)
  | .on queue .item => (M.queueItem queue).map fun p => (.pointer p, M)

def step (c : QueueCall) : Option QueueMemory := (M.call c).map Prod.snd

@[simp] theorem step_add {queue item malloc : Nat} : M.step (.on queue (.add item malloc)) =
    (M.queueAdd queue item malloc).map Prod.snd := Option.map_map ..

@[simp] theorem step_del {queue item : Nat} :
    M.step (.on queue (.del item)) = (M.queueDel queue item).map Prod.snd := Option.map_map ..

@[simp] theorem step_head {queue : Nat} :
    M.step (.on queue .head) = (M.queueHead queue).map Prod.snd := Option.map_map ..

@[simp] theorem step_next {queue : Nat} :
    M.step (.on queue .next) = (M.queueNext queue).map Prod.snd := Option.map_map ..

@[simp] theorem step_has {queue item : Nat} :
    M.step (.on queue (.has item)) = (M.queueHas queue item).map fun _ => M := Option.map_map ..

@[simp] theorem step_size {queue : Nat} :
    M.step (.on queue .size) = (M.queueSize queue).map fun _ => M := Option.map_map ..

@[simp] theorem step_item {queue : Nat} :
    M.step (.on queue .item) = (M.queueItem queue).map fun _ => M := Option.map_map ..

/-- Nothing is allocated. -/
def empty : QueueMemory := ⟨fun _ => none, fun _ => none⟩

/-- What `malloc` may return: `NULL`, or an address where nothing is allocated. -/
def Mallocs (malloc : Nat) : Prop :=
  malloc = 0 ∨ (M.node malloc = none ∧ M.queue malloc = none)

/-- The calls that can be made: on `NULL` or on a queue, with a `malloc` that fails or
is fresh, and an item added where fewer than `2 ^ 31` are then in the queue. -/
def Admissible : QueueCall → Prop
  | .create malloc => M.Mallocs malloc
  | .on queue op =>
      queue = 0 ∨ ∃ q ∈ M.queue queue, match op with
        | .add _ malloc => M.Mallocs malloc ∧ q.size + 1 < 2 ^ 31
        | _ => True

instance (malloc : Nat) : Decidable (M.Mallocs malloc) :=
  inferInstanceAs (Decidable (malloc = 0 ∨ (M.node malloc = none ∧ M.queue malloc = none)))

instance : ∀ c, Decidable (M.Admissible c)
  | .create malloc => inferInstanceAs (Decidable (M.Mallocs malloc))
  | .on queue (.add _ malloc) => inferInstanceAs (Decidable
      (queue = 0 ∨ ∃ q ∈ M.queue queue, M.Mallocs malloc ∧ q.size + 1 < 2 ^ 31))
  | .on queue (.del _) | .on queue (.has _) | .on queue .size | .on queue .head
  | .on queue .next | .on queue .item =>
      inferInstanceAs (Decidable (queue = 0 ∨ ∃ q ∈ M.queue queue, True))

end QueueMemory

/-! ## The queue that the memory represents -/

/-- The nodes that `next` leads through from the first one of `r`, up to `NULL`, hold `xs`,
and the last of them is that of `r`. -/
structure Chained (M : QueueMemory) (r : QueueT) (nodes xs : List Nat) : Prop where
  chain : Chain M.next r.first nodes 0
  last : r.last = nodes.getLast?.getD 0
  contents : nodes.map M.content = xs.map some

/-- The queue with record `r` holds the queue `q`: the nodes `before` the iterator hold
what it has passed, and the nodes `after` the rest. -/
structure Linked (M : QueueMemory) (r : QueueT) (q : Queue Nat) (before after : List Nat) :
    Prop where
  chain : Chain M.next r.first (before ++ after) 0
  passed : before.map M.content = q.passed.map some
  rest : after.map M.content = q.rest.map some
  iterator : r.iterator = after.head?.getD 0
  last : r.last = (before ++ after).getLast?.getD 0
  size : r.size = q.items.length
  bound : r.size < 2 ^ 31
  items : 0 ∉ q.items

/-- The queues `A` laid out in memory, no two of them sharing a node. -/
structure Layout (M : QueueMemory) (A : Nat → Option (Queue Nat)) (before after : Nat → List Nat) :
    Prop where
  null : A 0 = none
  same : ∀ p, M.queue p = none ↔ A p = none
  holds : ∀ p r q, M.queue p = some r → A p = some q → Linked M r q (before p) (after p)
  apart : ∀ p p', p ≠ p' → A p ≠ none → A p' ≠ none →
    List.Disjoint (before p ++ after p) (before p' ++ after p')

/-- **The memory represents the queues `A`.** -/
def Represented (M : QueueMemory) (A : Nat → Option (Queue Nat)) : Prop :=
  ∃ before after, Layout M A before after

variable {M M' : QueueMemory} {r r' : QueueT} {q : Queue Nat} {before after : List Nat}
  {nodes xs : List Nat} {p x m a : Nat}

namespace QueueMemory

@[simp] theorem setNode_node (n : Node) :
    (M.setNode a n).node = Function.update M.node a (some n) := rfl

@[simp] theorem setNode_queue (n : Node) : (M.setNode a n).queue = M.queue := rfl

@[simp] theorem setQueue_node : (M.setQueue p r).node = M.node := rfl

@[simp] theorem setQueue_queue : (M.setQueue p r).queue = Function.update M.queue p (some r) :=
  rfl

@[simp] theorem free_node : (M.free a).node = Function.update M.node a none := rfl

@[simp] theorem free_queue : (M.free a).queue = M.queue := rfl

/-- The fields of a node that is there. -/
theorem fields_of_node {n : Node} (hn : M.node a = some n) :
    M.next a = some n.next ∧ M.content a = some n.content := by
  unfold next content
  rw [hn]
  exact ⟨rfl, rfl⟩

/-- The fields of a node are read from it alone. -/
theorem fields_congr (heq : M'.node a = M.node a) :
    M'.next a = M.next a ∧ M'.content a = M.content a := by
  unfold next content
  rw [heq]
  exact ⟨rfl, rfl⟩

end QueueMemory

open QueueMemory

theorem Chained.length (h : Chained M r nodes xs) : nodes.length = xs.length := by
  have hlen := congrArg List.length h.contents
  rwa [List.length_map, List.length_map] at hlen

/-- The chain only depends on its nodes. -/
theorem Chained.congr (h : Chained M r nodes xs) (heq : ∀ a ∈ nodes, M'.node a = M.node a) :
    Chained M' r nodes xs := by
  refine ⟨h.chain.congr fun a ha => (fields_congr (heq a ha)).1, h.last, ?_⟩
  rw [← h.contents]
  exact List.map_congr_left fun a ha => (fields_congr (heq a ha)).2

/-- The count and the iterator are not of the chain. -/
theorem Chained.recount (h : Chained M r nodes xs) (hfirst : r'.first = r.first)
    (hlast : r'.last = r.last) : Chained M r' nodes xs :=
  ⟨hfirst ▸ h.chain, hlast.trans h.last, h.contents⟩

/-- The last node of a chain that is not empty. -/
theorem Chained.lastNode (h : Chained M r nodes xs) (hne : nodes ≠ []) :
    ∃ ns n, nodes = ns ++ [r.last] ∧ M.node r.last = some n := by
  have hlast : r.last = nodes.getLast hne := by
    rw [h.last, List.getLast?_eq_some_getLast hne]
    rfl
  have hmem : r.last ∈ nodes := hlast ▸ List.getLast_mem hne
  refine ⟨nodes.dropLast, ?_⟩
  cases hn : M.node r.last with
  | none =>
      have hnone : M.next r.last = none := by
        unfold QueueMemory.next
        rw [hn]
        rfl
      exact absurd hnone (h.chain.allocated hmem)
  | some n =>
      refine ⟨n, ?_, rfl⟩
      rw [hlast]
      exact (List.dropLast_append_getLast hne).symm

/-- **A node behind the last one**, in whatever order the stores are made. -/
theorem Chained.append (h : Chained M r nodes xs) (hne : nodes ≠ []) {n : Node}
    (hn : M.node r.last = some n) (hm0 : m ≠ 0)
    (hnodem : M'.node m = some ⟨0, x⟩) (hnodel : M'.node r.last = some { n with next := m })
    (hother : ∀ a ∈ nodes, a ≠ r.last → M'.node a = M.node a)
    (hfirst : r'.first = r.first) (hlast : r'.last = m) :
    Chained M' r' (nodes ++ [m]) (xs ++ [x]) := by
  obtain ⟨ns, n', hsplit, hn'⟩ := h.lastNode hne
  have hnodup := h.chain.nodup
  rw [hsplit] at hnodup
  refine ⟨?_, ?_, ?_⟩
  · have hold := h.chain
    rw [hsplit] at hold ⊢
    rw [hfirst]
    refine chain_append.mpr ⟨m, hold.redirect (fields_of_node hnodel).1 fun a ha => ?_,
      rfl, hm0, 0, (fields_of_node hnodem).1, rfl⟩
    have hal : a ≠ r.last := fun heq =>
      (List.nodup_append.mp hnodup).2.2 a ha r.last (List.mem_singleton_self _) heq
    have hmem : a ∈ nodes := by
      rw [hsplit]
      exact List.mem_append_left _ ha
    exact (fields_congr (hother a hmem hal)).1
  · rw [hlast, List.getLast?_concat]
    rfl
  · have hcontent : nodes.map M'.content = nodes.map M.content := by
      apply List.map_congr_left
      intro a ha
      by_cases hal : a = r.last
      · rw [hal, (fields_of_node hnodel).2, (fields_of_node hn).2]
      · exact (fields_congr (hother a ha hal)).2
    rw [List.map_append, List.map_append, hcontent, h.contents, List.map_singleton,
      List.map_singleton, (fields_of_node hnodem).2]

/-- The memories agree on the nodes of a queue that both hold. -/
theorem Linked.congr (h : Linked M r q before after)
    (heq : ∀ a ∈ before ++ after, M'.node a = M.node a) : Linked M' r q before after := by
  have hcontent : ∀ ns : List Nat, (∀ a ∈ ns, a ∈ before ++ after) →
      ns.map M'.content = ns.map M.content := fun ns hns =>
    List.map_congr_left fun a ha => (fields_congr (heq a (hns a ha))).2
  refine ⟨h.chain.congr fun a ha => (fields_congr (heq a ha)).1, ?_, ?_, h.iterator, h.last,
    h.size, h.bound, h.items⟩
  · rw [hcontent before fun a ha => List.mem_append_left _ ha]
    exact h.passed
  · rw [hcontent after fun a ha => List.mem_append_right _ ha]
    exact h.rest

/-- The nodes hold the items. -/
theorem Linked.contents (h : Linked M r q before after) :
    (before ++ after).map M.content = q.items.map some := by
  rw [List.map_append, h.passed, h.rest, Queue.items, List.map_append]

theorem Linked.chained (h : Linked M r q before after) :
    Chained M r (before ++ after) q.items := ⟨h.chain, h.last, h.contents⟩

theorem Linked.length (h : Linked M r q before after) :
    (before ++ after).length = q.items.length := h.chained.length

theorem Linked.nodup (h : Linked M r q before after) : (before ++ after).Nodup := h.chain.nodup

/-- The nodes of a queue are allocated. -/
theorem Linked.allocated (h : Linked M r q before after) (ha : a ∈ before ++ after) :
    M.node a ≠ none := by
  intro hnone
  apply h.chain.allocated ha
  unfold QueueMemory.next
  rw [hnone]
  rfl

/-- A node of the queue, with what follows it. -/
theorem Linked.node (h : Linked M r q before after) {ns ms : List Nat}
    (hsplit : before ++ after = ns ++ a :: ms) :
    ∃ n, M.node a = some n ∧ n.next = ms.head?.getD 0 ∧ n.content ∈ q.items ∧ a ≠ 0 := by
  have hmem : a ∈ before ++ after := by
    rw [hsplit]
    exact List.mem_append_right _ (List.mem_cons_self ..)
  cases hn : M.node a with
  | none => exact absurd hn (h.allocated hmem)
  | some n =>
      refine ⟨n, rfl, ?_, ?_, h.chain.ne_zero hmem⟩
      · obtain ⟨c, -, hrest⟩ := chain_append.mp (hsplit ▸ h.chain)
        have hc : c = a := hrest.1
        have hstep := (hc ▸ hrest).step
        rw [(fields_of_node hn).1] at hstep
        exact Option.some.inj hstep
      · have hin : M.content a ∈ (before ++ after).map M.content := List.mem_map_of_mem hmem
        rw [h.contents] at hin
        obtain ⟨y, hy, heq⟩ := List.mem_map.mp hin
        rw [(fields_of_node hn).2] at heq
        exact Option.some.inj heq ▸ hy

/-! ## Adding -/

/-- On a queue that is not empty `queue_add` leaves the iterator where it is. -/
theorem queueAdd_of_ne_nil (hq : q.items ≠ []) :
    queueAdd q x = if q.rest = [] then ⟨q.passed ++ [x], []⟩ else ⟨q.passed, q.rest ++ [x]⟩ := by
  obtain ⟨passed, rest⟩ := q
  cases rest with
  | nil =>
      cases passed with
      | nil => exact absurd rfl hq
      | cons y passed => rfl
  | cons z rest =>
      cases passed with
      | nil => rfl
      | cons y passed => rfl

/-- **`queue_add`** of `NULL`, or without a node, changes nothing. -/
theorem queueAdd_refused (hx : x = 0 ∨ m = 0) : M.queueAdd p x m = some (error, M) := by
  rw [QueueMemory.queueAdd]
  rcases hx with hx | hm
  · rw [if_pos (Or.inr hx)]
  · rw [if_pos hm, ite_self]

/-- An operation on the queue at `p` has changed its record to `r'`, and no node that is
not one of `ns`. -/
structure Writes (M M' : QueueMemory) (p : Nat) (r' : QueueT) (ns : List Nat) : Prop where
  queue : M'.queue = Function.update M.queue p (some r')
  node : ∀ a, a ∉ ns → M'.node a = M.node a

theorem addInt_of_lt {n k : Int} (hlo : -2 ^ 31 ≤ n + k) (hhi : n + k < 2 ^ 31) :
    addInt n k = n + k := by
  unfold addInt
  rw [Int.bmod_eq_of_le] <;> omega

/-- `queue_add` to a queue that is said to be empty. -/
theorem queueAdd_of_size_zero (hr : M.queue p = some r) (hp : p ≠ 0) (hx : x ≠ 0) (hm : m ≠ 0)
    (hsize : r.size = 0) :
    M.queueAdd p x m =
      some (noError, (M.setNode m ⟨0, x⟩).setQueue p ⟨m, m, m, addInt r.size 1⟩) := by
  simp [QueueMemory.queueAdd, hp, hx, hm, hr, hsize]

/-- `queue_add` behind the last node. -/
theorem queueAdd_of_size_ne_zero (hr : M.queue p = some r) (hp : p ≠ 0) (hx : x ≠ 0)
    (hm : m ≠ 0) (hsize : r.size ≠ 0) (hlast : r.last ≠ m) {n : Node}
    (hn : M.node r.last = some n) :
    M.queueAdd p x m = some (noError,
      ((M.setNode m ⟨0, x⟩).setNode r.last { n with next := m }).setQueue p
        { r with last := m, size := addInt r.size 1 }) := by
  simp [QueueMemory.queueAdd, hp, hx, hm, hr, hsize, Function.update_of_ne hlast, hn]

/-- **`queue_add` on a chain** appends the node, and counts it. -/
theorem Chained.queueAdd (h : Chained M r nodes xs) (hr : M.queue p = some r) (hp : p ≠ 0)
    (hx : x ≠ 0) (hm0 : m ≠ 0) (hm : m ∉ nodes) (hsize : r.size = 0 ↔ nodes = []) :
    ∃ M' r', M.queueAdd p x m = some (noError, M') ∧ Writes M M' p r' (nodes ++ [m]) ∧
      Chained M' r' (nodes ++ [m]) (xs ++ [x]) ∧
      r'.iterator = (if nodes = [] then m else r.iterator) ∧ r'.size = addInt r.size 1 := by
  by_cases hne : nodes = []
  · subst hne
    obtain rfl : xs = [] := List.length_eq_zero_iff.mp h.length.symm
    refine ⟨_, _, queueAdd_of_size_zero hr hp hx hm0 (hsize.mpr rfl), ⟨rfl, fun a ha => ?_⟩,
      ⟨⟨rfl, hm0, 0, ?_, rfl⟩, rfl, ?_⟩, rfl, rfl⟩
    · exact Function.update_of_ne (fun heq => ha (by simp [heq])) _ _
    · simp [QueueMemory.next]
    · simp [QueueMemory.content]
  · obtain ⟨ns, n, hsplit, hn⟩ := h.lastNode hne
    have hmem : r.last ∈ nodes := by simp [hsplit]
    have hlast : r.last ≠ m := fun heq => hm (heq ▸ hmem)
    refine ⟨_, _, queueAdd_of_size_ne_zero hr hp hx hm0 (fun hzero => hne (hsize.mp hzero))
      hlast hn, ⟨rfl, fun a ha => ?_⟩, ?_, (if_neg hne).symm, rfl⟩
    · rw [List.mem_append, List.mem_singleton, not_or] at ha
      have hal : a ≠ r.last := fun heq => ha.1 (heq ▸ hmem)
      simp [Function.update_of_ne hal, Function.update_of_ne ha.2]
    · refine h.append hne hn hm0 ?_ ?_ (fun a ha hal => ?_) rfl rfl
      · simp [Function.update_of_ne (Ne.symm hlast)]
      · simp
      · have ham : a ≠ m := fun heq => hm (heq ▸ ha)
        simp [Function.update_of_ne hal, Function.update_of_ne ham]

/-- A chain whose nodes are split where the items are. -/
theorem Chained.linked (h : Chained M r (before ++ after) q.items)
    (hlen : before.length = q.passed.length) (hiterator : r.iterator = after.head?.getD 0)
    (hsize : r.size = q.items.length) (hbound : r.size < 2 ^ 31) (hitems : 0 ∉ q.items) :
    Linked M r q before after := by
  have hcontents := h.contents
  rw [Queue.items, List.map_append, List.map_append] at hcontents
  obtain ⟨hpassed, hrest⟩ := List.append_inj hcontents (by simpa using hlen)
  exact ⟨h.chain, hpassed, hrest, hiterator, h.last, hsize, hbound, hitems⟩

/-- **`queue_add`** appends a node with the item. -/
theorem Linked.add (h : Linked M r q before after) (hr : M.queue p = some r) (hp : p ≠ 0)
    (hx : x ≠ 0) (hm : m ≠ 0) (hfresh : M.node m = none) (hsize : r.size + 1 < 2 ^ 31) :
    ∃ M' r' before' after', M.queueAdd p x m = some (noError, M') ∧
      Writes M M' p r' (before ++ after ++ [m]) ∧
      Linked M' r' (queueAdd q x) before' after' ∧ before' ++ after' = before ++ after ++ [m] := by
  have hmem : m ∉ before ++ after := fun hin => h.allocated hin hfresh
  have hempty : r.size = 0 ↔ before ++ after = [] := by
    rw [h.size, ← List.length_eq_zero_iff, h.length]
    omega
  obtain ⟨M', r', hrun, hwrites, hchained, hiterator, hcount⟩ :=
    h.chained.queueAdd hr hp hx hm hmem hempty
  have hcount' : r'.size = (queueAdd q x).items.length := by
    have := h.size
    rw [hcount, addInt_of_lt (by omega) (by omega), queueAdd_items, List.length_append, this]
    rfl
  have hbound : r'.size < 2 ^ 31 := by
    have := h.size
    rw [hcount, addInt_of_lt (by omega) (by omega)]
    exact hsize
  have hitems : 0 ∉ (queueAdd q x).items := by
    rw [queueAdd_items, List.mem_append, List.mem_singleton, not_or]
    exact ⟨h.items, Ne.symm hx⟩
  rw [← queueAdd_items] at hchained
  have hpassed : before.length = q.passed.length := by
    simpa using congrArg List.length h.passed
  have hrest : after.length = q.rest.length := by
    simpa using congrArg List.length h.rest
  suffices hsplit : ∃ before' after', before' ++ after' = before ++ after ++ [m] ∧
      before'.length = (queueAdd q x).passed.length ∧ r'.iterator = after'.head?.getD 0 by
    obtain ⟨before', after', hnodes, hlen, hiter⟩ := hsplit
    rw [← hnodes] at hchained
    exact ⟨M', r', before', after', hrun, hwrites,
      hchained.linked hlen hiter hcount' hbound hitems, hnodes⟩
  by_cases hq : q.items = []
  · -- the iterator goes to the first item
    have hnil : before ++ after = [] := by
      rw [← List.length_eq_zero_iff, h.length, hq]
      rfl
    obtain ⟨hpassed, hrest⟩ := List.append_eq_nil_iff.mp hq
    refine ⟨[], [m], by rw [hnil], ?_, hiterator.trans (if_pos hnil)⟩
    rw [queueAdd, hpassed, hrest]
  · have hne : before ++ after ≠ [] := by
      rw [Ne, ← List.length_eq_zero_iff, h.length, List.length_eq_zero_iff]
      exact hq
    rw [if_neg hne, h.iterator] at hiterator
    by_cases hend : q.rest = []
    · obtain rfl : after = [] := by
        rw [← List.length_eq_zero_iff, hrest, hend]
        rfl
      refine ⟨before ++ [m], [], by simp, ?_, hiterator⟩
      rw [queueAdd_of_ne_nil hq, if_pos hend, List.length_append, List.length_append, hpassed]
      rfl
    · have hafter : after ≠ [] := by
        rw [Ne, ← List.length_eq_zero_iff, hrest, List.length_eq_zero_iff]
        exact hend
      refine ⟨before, after ++ [m], by simp, ?_, ?_⟩
      · rw [queueAdd_of_ne_nil hq, if_neg hend]
        exact hpassed
      · rw [hiterator, List.head?_append_of_ne_nil _ hafter]

/-! ## Removing -/

/-- A node that holds `x` splits the items where it splits the nodes. -/
theorem contents_split {f : Nat → Option Nat} {w post xs : List Nat} {d : Nat}
    (h : (w ++ d :: post).map f = xs.map some) (hd : f d = some x) :
    ∃ cs ds, xs = cs ++ x :: ds ∧ w.map f = cs.map some ∧ post.map f = ds.map some := by
  rw [List.map_append, List.map_cons, hd] at h
  obtain ⟨cs, es, hxs, hw, hrest⟩ := List.map_eq_append_iff.mp h.symm
  obtain ⟨y, ds, hes, hy, hpost⟩ := List.map_eq_cons_iff.mp hrest
  obtain rfl := Option.some.inj hy
  exact ⟨cs, ds, hes ▸ hxs, hw.symm, hpost.symm⟩

/-- Nodes that do not hold `x` hold other items. -/
theorem not_mem_of_contents {f : Nat → Option Nat} {w xs : List Nat}
    (h : w.map f = xs.map some) (hw : ∀ a ∈ w, f a ≠ some x) : x ∉ xs := by
  intro hx
  have hin : some x ∈ w.map f := h ▸ List.mem_map_of_mem hx
  obtain ⟨a, ha, heq⟩ := List.mem_map.mp hin
  exact hw a ha heq

theorem erase_split {cs ds : List Nat} (h : x ∉ cs) : (cs ++ x :: ds).erase x = cs ++ ds := by
  rw [List.erase_append_right _ h, List.erase_cons_head]

/-- **The first node with the item `x` is taken out**: the links lead round it, and the
iterator goes to the node after it if it stood there. -/
theorem Linked.remove (r' : QueueT) (h : Linked M r q before after) {w post : List Nat}
    {d : Nat}
    (hsplit : before ++ after = w ++ d :: post) (hd : M.content d = some x)
    (hw : ∀ a ∈ w, M.content a ≠ some x)
    (hchain : Chain M'.next r'.first (w ++ post) 0)
    (hcontent : ∀ a ∈ w ++ post, M'.content a = M.content a)
    (hiter : r'.iterator = if r.iterator = d then post.head?.getD 0 else r.iterator)
    (hlast : r'.last = (w ++ post).getLast?.getD 0) (hsize : r'.size = r.size - 1) :
    x ∈ q.items ∧ ∃ before' after',
      Linked M' r' (queueDel q x).2 before' after' ∧ before' ++ after' = w ++ post := by
  have hnodup := h.nodup
  rw [hsplit] at hnodup
  have hd0 : d ≠ 0 := h.chain.ne_zero (hsplit ▸ List.mem_append_right _ (List.mem_cons_self ..))
  obtain ⟨hdw, hdpost⟩ : d ∉ w ∧ d ∉ post := by
    rw [List.nodup_append] at hnodup
    exact ⟨fun hin => hnodup.2.2 d hin d (List.mem_cons_self ..) rfl,
      (List.nodup_cons.mp hnodup.2.1).1⟩
  have hmap : ∀ ns : List Nat, (∀ a ∈ ns, a ∈ w ++ post) →
      ns.map M'.content = ns.map M.content := fun ns hns =>
    List.map_congr_left fun a ha => hcontent a (hns a ha)
  have hx : x ∈ q.items := by
    obtain ⟨cs, ds, hitems, -, -⟩ := contents_split (hsplit ▸ h.contents) hd
    rw [hitems]
    exact List.mem_append_right _ (List.mem_cons_self ..)
  have hcount : r'.size = (queueDel q x).2.items.length := by
    have hpos := List.length_pos_of_mem hx
    rw [hsize, h.size, (queueDel_items hx).2, List.length_erase_of_mem hx]
    omega
  have hbound : r'.size < 2 ^ 31 := by
    have := h.bound
    omega
  have hitems : 0 ∉ (queueDel q x).2.items := by
    rw [(queueDel_items hx).2]
    exact fun hin => h.items (List.mem_of_mem_erase hin)
  refine ⟨hx, ?_⟩
  have hcases : (∃ as, w = before ++ as ∧ after = as ++ d :: post) ∨
      ∃ bs, before = w ++ d :: bs ∧ post = bs ++ after := by
    rcases List.append_eq_append_iff.mp hsplit with ⟨as, hw, hafter⟩ | ⟨bs, hbefore, hpost⟩
    · exact Or.inl ⟨as, hw, hafter⟩
    · cases bs with
      | nil => exact Or.inl ⟨[], by simpa using hbefore.symm, by simpa using hpost.symm⟩
      | cons b bs =>
          obtain ⟨hdb, hbs⟩ := List.cons.inj hpost
          exact Or.inr ⟨bs, hdb ▸ hbefore, hbs⟩
  rcases hcases with ⟨as, rfl, rfl⟩ | ⟨bs, rfl, rfl⟩
  · -- the iterator has not passed the node
    obtain ⟨cs, ds, hrest, hcs, hds⟩ := contents_split h.rest hd
    have hpassed : x ∉ q.passed :=
      not_mem_of_contents h.passed fun a ha => hw a (List.mem_append_left _ ha)
    have hxcs : x ∉ cs :=
      not_mem_of_contents hcs fun a ha => hw a (List.mem_append_right _ ha)
    have hdel : (queueDel q x).2 = ⟨q.passed, cs ++ ds⟩ := by
      rw [queueDel, if_neg hpassed, if_pos, hrest, erase_split hxcs]
      rw [hrest]
      exact List.mem_append_right _ (List.mem_cons_self ..)
    rw [hdel] at hcount hitems ⊢
    refine ⟨before, as ++ post, ⟨?_, ?_, ?_, ?_, ?_, hcount, hbound, hitems⟩, by simp⟩
    · rw [← List.append_assoc]
      exact hchain
    · rw [hmap before fun a ha => by simp [ha]]
      exact h.passed
    · rw [hmap (as ++ post) fun a ha => by simp only [List.mem_append] at ha ⊢; tauto,
        List.map_append, hcs, hds, List.map_append]
    · have hold := h.iterator
      cases as with
      | nil =>
          have hstood : r.iterator = d := hold
          rw [hiter, if_pos hstood]
          rfl
      | cons a as =>
          have hne : r.iterator ≠ d := by
            rw [hold]
            intro heq
            have : a = d := heq
            exact hdw (by simp [this])
          rw [hiter, if_neg hne, hold]
          rfl
    · rw [← List.append_assoc]
      exact hlast
  · obtain ⟨cs, ds, hpassed, hcs, hds⟩ := contents_split h.passed hd
    have hxcs : x ∉ cs := not_mem_of_contents hcs hw
    have hdel : (queueDel q x).2 = ⟨cs ++ ds, q.rest⟩ := by
      rw [queueDel, if_pos, hpassed, erase_split hxcs]
      rw [hpassed]
      exact List.mem_append_right _ (List.mem_cons_self ..)
    rw [hdel] at hcount hitems ⊢
    refine ⟨w ++ bs, after, ⟨?_, ?_, ?_, ?_, ?_, hcount, hbound, hitems⟩, by simp⟩
    · rw [List.append_assoc]
      exact hchain
    · rw [hmap (w ++ bs) fun a ha => by simp only [List.mem_append] at ha ⊢; tauto,
        List.map_append, hcs, hds, List.map_append]
    · rw [hmap after fun a ha => by simp [ha]]
      exact h.rest
    · have hne : r.iterator ≠ d := by
        rw [h.iterator]
        cases after with
        | nil => exact Ne.symm hd0
        | cons a after =>
            intro heq
            have : a = d := heq
            exact hdpost (by simp [this])
      rw [hiter, if_neg hne]
      exact h.iterator
    · rw [List.append_assoc]
      exact hlast

/-- What `queue_del` may come to: the first node with the item is taken out, or there is
none. -/
def DelOutcome (M : QueueMemory) (p : Nat) (q : Queue Nat) (ns : List Nat) (x : Nat)
    (result : Option (Int × QueueMemory)) : Prop :=
  (x ∉ q.items ∧ result = some (error, M)) ∨
    (x ∈ q.items ∧ ∃ M' r' before' after', result = some (noError, M') ∧ Writes M M' p r' ns ∧
      Linked M' r' (queueDel q x).2 before' after' ∧ before' ++ after' ⊆ ns)

/-- The size counted down. -/
theorem Linked.countDown (h : Linked M r q before after) : addInt r.size (-1) = r.size - 1 := by
  have := h.size
  have := h.bound
  exact addInt_of_lt (by omega) (by omega)

/-- The last node, when the node `d` behind `aux` is taken out. -/
theorem Linked.last_unlink (h : Linked M r q before after) {ns post : List Nat} {aux d : Nat}
    (hsplit : before ++ after = (ns ++ [aux]) ++ d :: post) :
    (if d = r.last then aux else r.last) = (ns ++ [aux] ++ post).getLast?.getD 0 := by
  have hold := h.last
  rw [hsplit] at hold
  cases post with
  | nil =>
      have hrd : d = r.last := by
        rw [hold, List.getLast?_concat]
        rfl
      rw [if_pos hrd, List.append_nil, List.getLast?_concat]
      rfl
  | cons b post =>
      have hlastb : r.last = (b :: post).getLast?.getD 0 := by
        rw [hold, List.getLast?_append_of_ne_nil _ (by simp), List.getLast?_cons_cons]
      have hrd : d ≠ r.last := by
        intro heq
        have hnodup := (List.nodup_append.mp (hsplit ▸ h.nodup)).2.1
        apply (List.nodup_cons.mp hnodup).1
        rw [heq, hlastb, List.getLast?_eq_some_getLast (by simp)]
        exact List.getLast_mem _
      rw [if_neg hrd, hlastb, List.getLast?_append_of_ne_nil _ (by simp)]

/-- The links, when the node `d` behind `aux` is taken out. -/
theorem Linked.unlink (h : Linked M r q before after) {ns post : List Nat} {aux d : Nat}
    {n m : Node} (hsplit : before ++ after = (ns ++ [aux]) ++ d :: post)
    (hn : M.node aux = some n) (hm : M.node d = some m)
    (haux : M'.node aux = some { n with next := m.next })
    (hother : ∀ a, a ≠ aux → a ≠ d → M'.node a = M.node a) :
    Chain M'.next r.first (ns ++ [aux] ++ post) 0 ∧
      ∀ a ∈ ns ++ [aux] ++ post, M'.content a = M.content a := by
  have hnodup := h.nodup
  rw [hsplit, List.nodup_append] at hnodup
  obtain ⟨hnodupw, hnodupd, hapart⟩ := hnodup
  have hns : ∀ a ∈ ns, M'.node a = M.node a := by
    intro a ha
    apply hother a
    · intro heq
      exact (List.nodup_append.mp hnodupw).2.2 a ha aux (List.mem_singleton_self _) heq
    · exact hapart a (List.mem_append_left _ ha) d (List.mem_cons_self ..)
  have hpost : ∀ a ∈ post, M'.node a = M.node a := by
    intro a ha
    apply hother a
    · intro heq
      exact hapart aux (by simp) a (List.mem_cons_of_mem _ ha) heq.symm
    · intro heq
      exact (List.nodup_cons.mp hnodupd).1 (heq ▸ ha)
  refine ⟨?_, fun a ha => ?_⟩
  · obtain ⟨c, hpre, hc, -, e, he, hrest⟩ := chain_append.mp (hsplit ▸ h.chain)
    rw [hc, (fields_of_node hm).1] at he
    obtain rfl := Option.some.inj he
    exact chain_append.mpr ⟨m.next, hpre.redirect (fields_of_node haux).1 fun a ha =>
      (fields_congr (hns a ha)).1, hrest.congr fun a ha => (fields_congr (hpost a ha)).1⟩
  · rw [List.mem_append, List.mem_append, List.mem_singleton] at ha
    rcases ha with (ha | rfl) | ha
    · exact (fields_congr (hns a ha)).2
    · rw [(fields_of_node haux).2, (fields_of_node hn).2]
    · exact (fields_congr (hpost a ha)).2

/-- **The loop of `queue_del`**, with no node that holds the item up to `aux`. -/
theorem Linked.delLoop (h : Linked M r q before after) (hr : M.queue p = some r)
    {budget aux : Nat} {ns ms : List Nat} (hsplit : before ++ after = ns ++ aux :: ms)
    (hns : ∀ a ∈ ns ++ [aux], M.content a ≠ some x) (hbudget : ms.length < budget) :
    DelOutcome M p q (before ++ after) x (M.queueDelLoop p x budget aux) := by
  induction ms generalizing ns aux budget with
  | nil =>
      obtain ⟨budget, rfl⟩ := Nat.exists_eq_succ_of_ne_zero (by omega : budget ≠ 0)
      obtain ⟨n, hn, hnext, -, -⟩ := h.node hsplit
      have h0 : n.next = 0 := hnext
      refine Or.inl ⟨not_mem_of_contents (hsplit ▸ h.contents) hns, ?_⟩
      simp [queueDelLoop, hn, h0]
  | cons d post ih =>
      obtain ⟨budget, rfl⟩ := Nat.exists_eq_succ_of_ne_zero (by omega : budget ≠ 0)
      obtain ⟨n, hn, hnext, -, -⟩ := h.node hsplit
      have hnd : n.next = d := hnext
      have hsplit' : before ++ after = (ns ++ [aux]) ++ d :: post := by
        rw [hsplit, List.append_assoc, List.singleton_append]
      obtain ⟨m, hm, hmnext, -, hd0⟩ := h.node hsplit'
      by_cases hx : m.content = x
      · have hd : M.content d = some x := hx ▸ (fields_of_node hm).2
        have hauxd : aux ≠ d := by
          intro heq
          have hnodup := (List.nodup_append.mp (hsplit' ▸ h.nodup)).2.2
          exact hnodup aux (by simp) d (List.mem_cons_self ..) heq
        let r' : QueueT := { r with
          last := if d = r.last then aux else r.last
          iterator := if r.iterator = d then m.next else r.iterator
          size := addInt r.size (-1) }
        let M' := ((M.setNode aux { n with next := m.next }).free d).setQueue p r'
        have hnodeaux : M'.node aux = some { n with next := m.next } := by
          simp [M', Function.update_of_ne hauxd]
        have hother : ∀ a, a ≠ aux → a ≠ d → M'.node a = M.node a := by
          intro a haux had
          simp [M', Function.update_of_ne had, Function.update_of_ne haux]
        have hrun : M.queueDelLoop p x (budget + 1) aux = some (noError, M') := by
          simp [queueDelLoop, hn, hnd, hd0, hm, hx, hr, M', r']
        obtain ⟨hchain, hcontent⟩ := h.unlink hsplit' hn hm hnodeaux hother
        have hlast : r'.last = (ns ++ [aux] ++ post).getLast?.getD 0 := h.last_unlink hsplit'
        obtain ⟨hin, before', after', hholds, hnodes⟩ := h.remove r' hsplit' hd hns hchain
          hcontent (by rw [← hmnext]) hlast h.countDown
        refine Or.inr ⟨hin, M', r', before', after', hrun, ⟨rfl, fun a ha => ?_⟩, hholds, ?_⟩
        · rw [hsplit'] at ha
          exact hother a (fun heq => ha (by simp [heq])) fun heq => ha (by simp [heq])
        · rw [hnodes, hsplit']
          intro a ha
          simp only [List.mem_append, List.mem_cons] at ha ⊢
          tauto
      · have hd : ∀ a ∈ ns ++ [aux] ++ [d], M.content a ≠ some x := by
          intro a ha
          rcases List.mem_append.mp ha with ha | ha
          · exact hns a ha
          · rw [List.mem_singleton.mp ha, (fields_of_node hm).2]
            exact fun heq => hx (Option.some.inj heq)
        have hpost : post.length < budget := by
          simp only [List.length_cons] at hbudget
          omega
        have hrun : M.queueDelLoop p x (budget + 1) aux = M.queueDelLoop p x budget d := by
          simp [queueDelLoop, hn, hnd, hd0, hm, hx]
        rw [hrun]
        exact ih hsplit' hd hpost

/-- **`queue_del`** takes out the first node with the item. -/
theorem Linked.del (h : Linked M r q before after) (hr : M.queue p = some r) (hp : p ≠ 0)
    (hx : x ≠ 0) : DelOutcome M p q (before ++ after) x (M.queueDel p x) := by
  have hlen := h.length
  have hsize := h.size
  cases hns : before ++ after with
  | nil =>
      have hitems : q.items = [] := by
        rw [← List.length_eq_zero_iff, ← hlen, hns]
        rfl
      have h0 : r.size = 0 := by
        rw [hsize, hitems]
        rfl
      refine Or.inl ⟨hitems ▸ List.not_mem_nil, ?_⟩
      simp [QueueMemory.queueDel, hp, hx, hr, h0]
  | cons a post =>
      have hsplit : before ++ after = [] ++ a :: post := hns
      have hfirst : r.first = a := by
        rw [h.chain.start, hns]
        rfl
      obtain ⟨n, hn, hnext, -, ha0⟩ := h.node hsplit
      have hlen' : q.items.length = post.length + 1 := by
        rw [← hlen, hns, List.length_cons]
      have hne : r.size ≠ 0 := by omega
      have hpost : ∀ {M' : QueueMemory}, (∀ b, b ≠ a → M'.node b = M.node b) →
          Chain M'.next n.next ([] ++ post) 0 ∧
            ∀ b ∈ [] ++ post, M'.content b = M.content b := by
        intro M' hother
        have hpost : ∀ b ∈ post, M'.node b = M.node b := by
          intro b hb
          have hnodup := h.nodup
          rw [hns] at hnodup
          exact hother b fun heq => (List.nodup_cons.mp hnodup).1 (heq ▸ hb)
        obtain ⟨-, -, e, he, hrest⟩ := hns ▸ h.chain
        rw [hfirst, (fields_of_node hn).1] at he
        obtain rfl := Option.some.inj he
        exact ⟨hrest.congr fun b hb => (fields_congr (hpost b hb)).1,
          fun b hb => (fields_congr (hpost b hb)).2⟩
      have hfree : ∀ r', ∀ b, b ≠ a → ((M.setQueue p r').free a).node b = M.node b := by
        intro r' b hb
        simp [Function.update_of_ne hb]
      by_cases hc : n.content = x
      · have hd : M.content a = some x := hc ▸ (fields_of_node hn).2
        obtain ⟨r', hrun, hfirst', hiter, hlast, hcount⟩ : ∃ r',
            M.queueDel p x = some (noError, (M.setQueue p r').free a) ∧ r'.first = n.next ∧
            r'.iterator = (if r.iterator = a then post.head?.getD 0 else r.iterator) ∧
            r'.last = post.getLast?.getD 0 ∧ r'.size = r.size - 1 := by
          cases post with
          | nil =>
              have h1 : r.size = 1 := by
                rw [List.length_nil] at hlen'
                omega
              refine ⟨⟨0, 0, 0, 0⟩, ?_, hnext.symm, ?_, rfl, ?_⟩
              · simp [QueueMemory.queueDel, hp, hx, hr, h1, hfirst, hn, hc]
              · split
                · rfl
                · rename_i hne
                  rw [h.iterator] at hne ⊢
                  cases after with
                  | nil => rfl
                  | cons b after =>
                      exfalso
                      apply hne
                      have hb : b ∈ before ++ b :: after := by simp
                      rw [hns] at hb
                      exact List.mem_singleton.mp hb
              · rw [h1]
                rfl
          | cons b post =>
              refine ⟨{ r with
                  iterator := if r.iterator = a then n.next else r.iterator
                  first := n.next
                  size := addInt r.size (-1) }, ?_, rfl, by rw [← hnext], ?_, h.countDown⟩
              · have h1 : r.size ≠ 1 := by simp at hlen'; omega
                simp [QueueMemory.queueDel, hp, hx, hr, hne, h1, hfirst, hn, hc]
              · exact h.last.trans (by rw [hns, List.getLast?_cons_cons])
        obtain ⟨hchain, hcontent⟩ := hpost (hfree r')
        obtain ⟨hin, before', after', hholds, hnodes⟩ := h.remove r' hsplit hd
          (fun b hb => absurd hb List.not_mem_nil) (hfirst'.symm ▸ hchain) hcontent hiter hlast
          hcount
        refine Or.inr ⟨hin, _, r', before', after', hrun, ⟨rfl, fun b hb => ?_⟩, hholds, ?_⟩
        · exact hfree r' b fun heq => hb (heq ▸ List.mem_cons_self ..)
        · rw [hnodes]
          exact List.subset_cons_self a post
      · have hd : ∀ b ∈ [] ++ [a], M.content b ≠ some x := by
          intro b hb
          rw [List.mem_singleton.mp hb, (fields_of_node hn).2]
          exact fun heq => hc (Option.some.inj heq)
        by_cases h1 : r.size = 1
        · left
          have hnil : post = [] := List.length_eq_zero_iff.mp (by omega)
          have hcontents := h.contents
          rw [hns, hnil] at hcontents
          refine ⟨not_mem_of_contents hcontents hd, ?_⟩
          simp [QueueMemory.queueDel, hp, hx, hr, h1, hfirst, hn, hc]
        · have hrun : M.queueDel p x = M.queueDelLoop p x r.size.toNat a := by
            simp [QueueMemory.queueDel, hp, hx, hr, hne, h1, hfirst, hn, hc]
          rw [hrun, ← hns]
          exact h.delLoop hr hsplit hd (by omega)

/-! ## Searching and walking -/

/-- The loop of `queue_has`, with the nodes `ms` ahead. -/
theorem Linked.hasLoop (h : Linked M r q before after) {budget : Nat} {ns ms : List Nat}
    (hsplit : before ++ after = ns ++ ms) (hbudget : ms.length ≤ budget) :
    M.queueHasLoop x budget (ms.head?.getD 0) = some (decide (some x ∈ ms.map M.content)) := by
  induction ms generalizing ns budget with
  | nil => simp [queueHasLoop]
  | cons a ms ih =>
      obtain ⟨budget, rfl⟩ := Nat.exists_eq_succ_of_ne_zero
        (by rw [List.length_cons] at hbudget; omega : budget ≠ 0)
      obtain ⟨n, hn, hnext, -, ha0⟩ := h.node hsplit
      have hrest := ih (by rw [hsplit, List.append_assoc, List.singleton_append] :
        before ++ after = (ns ++ [a]) ++ ms) (Nat.le_of_succ_le_succ hbudget)
      by_cases hx : n.content = x
      · simp [queueHasLoop, hn, hx, (fields_of_node hn).2]
      · simp [queueHasLoop, hn, hx, (fields_of_node hn).2, Ne.symm hx, hnext, hrest]

/-- **`queue_has`** is membership. -/
theorem Linked.has (h : Linked M r q before after) (hr : M.queue p = some r) (hp : p ≠ 0) :
    M.queueHas p x = some (decide (x ∈ q.items)) := by
  by_cases hx : x = 0
  · subst hx
    simp [QueueMemory.queueHas, h.items]
  · have hlen := h.length
    have hsize := h.size
    have hloop := h.hasLoop (x := x)
      (show before ++ after = [] ++ (before ++ after) from rfl) (by omega : _ ≤ r.size.toNat)
    rw [← h.chain.start, h.contents] at hloop
    simp only [QueueMemory.queueHas, hp, hx, or_self, if_false, hr]
    change M.queueHasLoop x r.size.toNat r.first = _
    rw [hloop]
    simp

/-- The item at an iterator. -/
theorem itemAt_head {ms xs : List Nat} (h : ms.map M.content = xs.map some)
    (hms : ∀ a ∈ ms, a ≠ 0) : M.itemAt (ms.head?.getD 0) = some (xs.head?.getD 0) := by
  cases ms with
  | nil =>
      rw [List.map_eq_nil_iff.mp h.symm]
      rfl
  | cons a ms =>
      obtain ⟨y, ys, rfl, hy, -⟩ := List.map_eq_cons_iff.mp h.symm
      have ha : a ≠ 0 := hms a (List.mem_cons_self ..)
      change M.itemAt a = some y
      rw [itemAt, if_neg ha, ← hy]

/-- The iterator moves to another place of the same nodes. -/
theorem Linked.walk (h : Linked M r q before after) {before' after' : List Nat} {q' : Queue Nat}
    (hnodes : before' ++ after' = before ++ after)
    (hpassed : before'.map M.content = q'.passed.map some)
    (hrest : after'.map M.content = q'.rest.map some) (hitems : q'.items = q.items) :
    Linked (M.setQueue p { r with iterator := after'.head?.getD 0 })
      { r with iterator := after'.head?.getD 0 } q' before' after' :=
  ⟨hnodes ▸ h.chain, hpassed, hrest, rfl, hnodes ▸ h.last, hitems ▸ h.size, h.bound,
    hitems ▸ h.items⟩

/-- **`queue_head`** goes to the first item. -/
theorem Linked.head (h : Linked M r q before after) (hr : M.queue p = some r) (hp : p ≠ 0) :
    ∃ M' r', M.queueHead p = some (q.items.head?.getD 0, M') ∧
      Writes M M' p r' (before ++ after) ∧ Linked M' r' ⟨[], q.items⟩ [] (before ++ after) := by
  have hitem := itemAt_head h.contents fun a ha => h.chain.ne_zero ha
  have hfirst := h.chain.start
  let r' : QueueT := { r with iterator := (before ++ after).head?.getD 0 }
  have hwalk : Linked (M.setQueue p r') r' ⟨[], q.items⟩ [] (before ++ after) :=
    h.walk (List.nil_append _) rfl h.contents (List.nil_append _)
  refine ⟨M.setQueue p r', r', ?_, ⟨rfl, fun _ _ => rfl⟩, hwalk⟩
  have hr' : r' = { r with iterator := r.first } := by
    simp only [r', hfirst]
  rw [← hfirst] at hitem
  rw [hr']
  simp [QueueMemory.queueHead, hp, hr, hitem]

/-- **`queue_next`** goes to the item after the iterator's. -/
theorem Linked.next (h : Linked M r q before after) (hr : M.queue p = some r) (hp : p ≠ 0) :
    ∃ M' r' before' after', M.queueNext p = some (q.rest.tail.head?.getD 0, M') ∧
      Writes M M' p r' (before ++ after) ∧ before' ++ after' = before ++ after ∧
      Linked M' r' (queueNext q).2 before' after' := by
  obtain ⟨passed, rest⟩ := q
  cases after with
  | nil =>
      obtain rfl : rest = [] := List.map_eq_nil_iff.mp h.rest.symm
      have h0 : r.iterator = 0 := h.iterator
      refine ⟨M, r, before, [], ?_, ⟨?_, fun _ _ => rfl⟩, rfl, h⟩
      · simp [QueueMemory.queueNext, hp, hr, h0]
      · rw [← hr, Function.update_eq_self]
  | cons a after =>
      obtain ⟨y, rest, rfl, hy, hrest⟩ := List.map_eq_cons_iff.mp h.rest.symm
      have ha : r.iterator = a := h.iterator
      obtain ⟨n, hn, hnext, -, ha0⟩ := h.node
        (show before ++ a :: after = before ++ a :: after from rfl)
      have hitem := itemAt_head hrest.symm fun b hb =>
        h.chain.ne_zero (List.mem_append_right _ (List.mem_cons_of_mem _ hb))
      have hnodes : (before ++ [a]) ++ after = before ++ a :: after := by
        rw [List.append_assoc, List.singleton_append]
      let r' : QueueT := { r with iterator := after.head?.getD 0 }
      have hwalk : Linked (M.setQueue p r') r' (queueNext ⟨passed, y :: rest⟩).2 (before ++ [a])
          after := by
        apply h.walk hnodes
        · simp [queueNext, h.passed, hy]
        · exact hrest.symm
        · exact queueNext_items _
      refine ⟨M.setQueue p r', r', before ++ [a], after, ?_, ⟨rfl, fun _ _ => rfl⟩, hnodes,
        hwalk⟩
      rw [← hnext] at hitem
      simp [QueueMemory.queueNext, hp, hr, ha, ha0, hn, hitem, r', ← hnext]

/-- **`queue_item`** is the item at the iterator. -/
theorem Linked.item (h : Linked M r q before after) (hr : M.queue p = some r) (hp : p ≠ 0) :
    M.queueItem p = some (q.rest.head?.getD 0) := by
  have hitem := itemAt_head h.rest fun a ha => h.chain.ne_zero (List.mem_append_right _ ha)
  rw [← h.iterator] at hitem
  simp [QueueMemory.queueItem, hp, hr, hitem]

theorem Linked.sizeOf (h : Linked M r q before after) (hr : M.queue p = some r) (hp : p ≠ 0) :
    M.queueSize p = some q.items.length := by
  simp [QueueMemory.queueSize, hp, hr, h.size]

/-- A queue record and the nodes from it hold one queue only. -/
theorem Linked.unique {q₂ : Queue Nat} {before₂ after₂ : List Nat} (h : Linked M r q before after)
    (h₂ : Linked M r q₂ before₂ after₂) : q = q₂ := by
  have hnodes : before ++ after = before₂ ++ after₂ := h.chain.unique h₂.chain
  have hinj : ∀ {xs ys : List Nat}, xs.map some = ys.map some → xs = ys := fun heq =>
    List.map_injective_iff.mpr (Option.some_injective _) heq
  have hboth : before = before₂ ∧ after = after₂ := by
    have hiter := h.iterator.symm.trans h₂.iterator
    cases after with
    | nil =>
        cases after₂ with
        | nil => exact ⟨by simpa using hnodes, rfl⟩
        | cons b after₂ =>
            exact absurd hiter.symm (h₂.chain.ne_zero (by simp))
    | cons a after =>
        cases after₂ with
        | nil => exact absurd hiter (h.chain.ne_zero (by simp))
        | cons b after₂ =>
            obtain rfl : a = b := hiter
            have hnodup := h.nodup
            have hout : a ∉ before := fun hin =>
              (List.nodup_append.mp hnodup).2.2 a hin a (List.mem_cons_self ..) rfl
            have hnodup₂ := h₂.nodup
            have hout₂ : a ∉ before₂ := fun hin =>
              (List.nodup_append.mp hnodup₂).2.2 a hin a (List.mem_cons_self ..) rfl
            have hlen : before.length = before₂.length := by
              have hidx := congrArg (List.idxOf a) hnodes
              rw [List.idxOf_append_of_notMem hout, List.idxOf_append_of_notMem hout₂] at hidx
              simpa using hidx
            exact List.append_inj hnodes hlen
  obtain ⟨rfl, rfl⟩ := hboth
  have hpassed := hinj (h.passed.symm.trans h₂.passed)
  have hrest := hinj (h.rest.symm.trans h₂.rest)
  cases q
  cases q₂
  exact Queue.mk.injEq .. ▸ ⟨hpassed, hrest⟩

/-! ## The contract -/

/-- **What `queue.h` says** of a call on a queue `q`, which it leaves as `q'`. -/
def Contract (q q' : Queue Nat) : QueueOp → QueueReturn → Prop
  | .add item malloc, ret =>
      if item = 0 ∨ malloc = 0 then ret = .int error ∧ q' = q
      else ret = .int noError ∧ q'.items = q.items ++ [item] ∧
        -- the iterator is set on the first item only, and else stays
        if q.items = [] then q'.passed = []
        else if q.rest = [] then q'.rest = []
        else q'.passed = q.passed
  | .del item, ret =>
      if item ∉ q.items then ret = .int error ∧ q' = q
      else ret = .int noError ∧ q'.items = q.items.erase item ∧
        -- the iterator moves to the following node from the one removed, and else stays
        if item ∈ q.passed then q'.rest = q.rest
        else if q.rest.head? = some item then q'.passed = q.passed ∧ q'.rest = q.rest.tail
        else q'.passed = q.passed ∧ q'.rest.head? = q.rest.head?
  | .has item, ret => ret = .bool (decide (item ∈ q.items)) ∧ q' = q
  | .size, ret => ret = .int q.items.length ∧ q' = q
  | .head, ret => ret = .pointer (q.items.head?.getD 0) ∧ q'.passed = [] ∧ q'.rest = q.items
  | .next, ret =>
      ret = .pointer (q.rest.tail.head?.getD 0) ∧ q'.items = q.items ∧ q'.rest = q.rest.tail
  | .item, ret => ret = .pointer (q.rest.head?.getD 0) ∧ q' = q

/-- What a call on `NULL` returns. -/
def nullReturn : QueueOp → QueueReturn
  | .add _ _ | .del _ | .size => .int error
  | .has _ => .bool false
  | .head | .next | .item => .pointer 0

/-- What a call does to the queues there are. -/
def Meets (A A' : Nat → Option (Queue Nat)) : QueueCall → QueueReturn → Prop
  | .create malloc, ret =>
      ret = .pointer malloc ∧
        A' = if malloc = 0 then A else Function.update A malloc (some queueCreate)
  | .on queue op, ret =>
      if queue = 0 then ret = nullReturn op ∧ A' = A
      else ∃ q q', A queue = some q ∧ A' = Function.update A queue (some q') ∧
        Contract q q' op ret

theorem contract_add (hx : x ≠ 0) (hm : m ≠ 0) :
    Contract q (queueAdd q x) (.add x m) (.int noError) := by
  rw [Contract, if_neg (by simp [hx, hm])]
  refine ⟨rfl, queueAdd_items q x, ?_⟩
  by_cases hq : q.items = []
  · rw [if_pos hq]
    obtain ⟨hpassed, hrest⟩ := List.append_eq_nil_iff.mp hq
    rw [queueAdd, hpassed, hrest]
  · rw [if_neg hq, queueAdd_of_ne_nil hq]
    by_cases hrest : q.rest = []
    · rw [if_pos hrest, if_pos hrest]
    · rw [if_neg hrest, if_neg hrest]

theorem contract_del (hx : x ∈ q.items) :
    Contract q (queueDel q x).2 (.del x) (.int noError) := by
  rw [Contract, if_neg (not_not_intro hx)]
  refine ⟨rfl, (queueDel_items hx).2, ?_⟩
  by_cases hpassed : x ∈ q.passed
  · rw [if_pos hpassed, queueDel, if_pos hpassed]
  · have hrest : x ∈ q.rest := (List.mem_append.mp hx).resolve_left hpassed
    rw [if_neg hpassed, queueDel, if_neg hpassed, if_pos hrest]
    cases hq : q.rest with
    | nil => exact absurd hrest (hq ▸ List.not_mem_nil)
    | cons y rest =>
        by_cases hy : y = x
        · simp [hy]
        · simp [hy, List.erase_cons_tail]

/-- One queue is written over, with nodes of its own. -/
theorem Layout.write {A : Nat → Option (Queue Nat)} {before after : Nat → List Nat}
    {b a ns : List Nat} {q' : Queue Nat} (h : Layout M A before after) (hp : A p ≠ none)
    (hw : Writes M M' p r' ns) (hns : ∀ c ∈ ns, c ∈ before p ++ after p ∨ M.node c = none)
    (hholds : Linked M' r' q' b a) (hsub : b ++ a ⊆ ns) :
    Layout M' (Function.update A p (some q')) (Function.update before p b)
      (Function.update after p a) := by
  have hqueue : ∀ p', p' ≠ p → M'.queue p' = M.queue p' := by
    intro p' hne
    rw [hw.queue, Function.update_of_ne hne]
  -- the nodes written are not those of another queue
  have hother : ∀ p', p' ≠ p → A p' ≠ none → ∀ c ∈ before p' ++ after p', c ∉ ns := by
    intro p' hne hp' c hc hin
    rcases hns c hin with hmine | hfree
    · exact h.apart p' p hne hp' hp hc hmine
    · obtain ⟨q₁, hq₁⟩ := Option.ne_none_iff_exists'.mp hp'
      obtain ⟨r₁, hr₁⟩ := Option.ne_none_iff_exists'.mp fun hnone => hp' ((h.same p').mp hnone)
      exact (h.holds p' r₁ q₁ hr₁ hq₁).allocated hc hfree
  have hnull : p ≠ 0 := fun heq => hp (heq ▸ h.null)
  refine ⟨?_, fun p' => ?_, fun p' r₁ q₁ hr₁ hq₁ => ?_, fun p₁ p₂ hne h₁ h₂ => ?_⟩
  · rw [Function.update_of_ne (Ne.symm hnull)]
    exact h.null
  · by_cases heq : p' = p
    · subst heq
      rw [hw.queue, Function.update_self, Function.update_self]
      exact ⟨fun hnone => absurd hnone (by simp), fun hnone => absurd hnone (by simp)⟩
    · rw [hqueue p' heq, Function.update_of_ne heq]
      exact h.same p'
  · by_cases heq : p' = p
    · subst heq
      rw [hw.queue, Function.update_self] at hr₁
      rw [Function.update_self] at hq₁
      rw [Function.update_self, Function.update_self]
      exact Option.some.inj hr₁ ▸ Option.some.inj hq₁ ▸ hholds
    · rw [hqueue p' heq] at hr₁
      rw [Function.update_of_ne heq] at hq₁
      rw [Function.update_of_ne heq, Function.update_of_ne heq]
      have hold := h.holds p' r₁ q₁ hr₁ hq₁
      exact hold.congr fun c hc => hw.node c (hother p' heq (hq₁ ▸ Option.some_ne_none q₁) c hc)
  · by_cases heq₁ : p₁ = p
    · subst heq₁
      rw [Function.update_of_ne (Ne.symm hne)] at h₂
      rw [Function.update_self, Function.update_self, Function.update_of_ne (Ne.symm hne),
        Function.update_of_ne (Ne.symm hne)]
      exact fun c hc hc₂ => hother p₂ (Ne.symm hne) h₂ c hc₂ (hsub hc)
    · rw [Function.update_of_ne heq₁] at h₁
      rw [Function.update_of_ne heq₁, Function.update_of_ne heq₁]
      by_cases heq₂ : p₂ = p
      · subst heq₂
        rw [Function.update_self, Function.update_self]
        exact fun c hc hc₂ => hother p₁ heq₁ h₁ c hc (hsub hc₂)
      · rw [Function.update_of_ne heq₂] at h₂
        rw [Function.update_of_ne heq₂, Function.update_of_ne heq₂]
        exact h.apart p₁ p₂ hne h₁ h₂

/-- A new queue, with no node. -/
theorem Layout.create {A : Nat → Option (Queue Nat)} {before after : Nat → List Nat}
    (h : Layout M A before after) (hm : m ≠ 0) (hfresh : M.queue m = none) :
    Layout (M.setQueue m ⟨0, 0, 0, 0⟩) (Function.update A m (some queueCreate))
      (Function.update before m []) (Function.update after m []) := by
  have hnone : A m = none := (h.same m).mp hfresh
  refine ⟨?_, fun p' => ?_, fun p' r₁ q₁ hr₁ hq₁ => ?_, fun p₁ p₂ hne h₁ h₂ => ?_⟩
  · rw [Function.update_of_ne (Ne.symm hm)]
    exact h.null
  · by_cases heq : p' = m
    · simp [heq]
    · rw [setQueue_queue, Function.update_of_ne heq, Function.update_of_ne heq]
      exact h.same p'
  · by_cases heq : p' = m
    · subst heq
      rw [setQueue_queue, Function.update_self] at hr₁
      rw [Function.update_self] at hq₁
      rw [Function.update_self, Function.update_self, ← Option.some.inj hr₁,
        ← Option.some.inj hq₁]
      exact ⟨rfl, rfl, rfl, rfl, rfl, rfl, by norm_num, List.not_mem_nil⟩
    · rw [setQueue_queue, Function.update_of_ne heq] at hr₁
      rw [Function.update_of_ne heq] at hq₁
      rw [Function.update_of_ne heq, Function.update_of_ne heq]
      exact (h.holds p' r₁ q₁ hr₁ hq₁).congr fun _ _ => rfl
  · by_cases heq₁ : p₁ = m
    · rw [heq₁, Function.update_self, Function.update_self]
      exact List.disjoint_nil_left _
    · by_cases heq₂ : p₂ = m
      · rw [heq₂, Function.update_self, Function.update_self]
        exact List.disjoint_nil_right _
      · rw [Function.update_of_ne heq₁] at h₁
        rw [Function.update_of_ne heq₂] at h₂
        rw [Function.update_of_ne heq₁, Function.update_of_ne heq₁, Function.update_of_ne heq₂,
          Function.update_of_ne heq₂]
        exact h.apart p₁ p₂ hne h₁ h₂

/-- The memory represents one family of queues only. -/
theorem Represented.unique {A B : Nat → Option (Queue Nat)} (h : Represented M A)
    (h' : Represented M B) : B = A := by
  obtain ⟨before, after, hA⟩ := h
  obtain ⟨before', after', hB⟩ := h'
  funext p
  cases hr : M.queue p with
  | none => rw [(hA.same p).mp hr, (hB.same p).mp hr]
  | some r =>
      have hsome : M.queue p ≠ none := hr ▸ Option.some_ne_none r
      obtain ⟨q, hq⟩ := Option.ne_none_iff_exists'.mp fun hn => hsome ((hA.same p).mpr hn)
      obtain ⟨q', hq'⟩ := Option.ne_none_iff_exists'.mp fun hn => hsome ((hB.same p).mpr hn)
      rw [hq, hq', (hA.holds p r q hr hq).unique (hB.holds p r q' hr hq')]

/-- What a call comes to: it returns, the memory represents queues again, they are what
the contract says, and an `ERROR` leaves the memory alone. -/
def Sound (M : QueueMemory) (A : Nat → Option (Queue Nat)) (c : QueueCall) : Prop :=
  ∃ ret M' A', M.call c = some (ret, M') ∧ Represented M' A' ∧ Meets A A' c ret ∧
    (ret = .int error → M' = M)

/-- A call that only reads. -/
theorem Layout.read {A : Nat → Option (Queue Nat)} {before after : Nat → List Nat} {op : QueueOp}
    (ret : QueueReturn) (h : Layout M A before after) (hp : p ≠ 0) (hq : A p = some q)
    (hcall : M.call (.on p op) = some (ret, M)) (hcontract : Contract q q op ret) :
    Sound M A (.on p op) := by
  refine ⟨ret, M, A, hcall, ⟨before, after, h⟩, ?_, fun _ => rfl⟩
  rw [Meets, if_neg hp]
  exact ⟨q, q, hq, by rw [← hq, Function.update_eq_self], hcontract⟩

/-- A call that writes one queue. -/
theorem Layout.written {A : Nat → Option (Queue Nat)} {before after : Nat → List Nat}
    {op : QueueOp} (ret : QueueReturn) {b a ns : List Nat} {q' : Queue Nat}
    (h : Layout M A before after) (hp : p ≠ 0) (hq : A p = some q)
    (hcall : M.call (.on p op) = some (ret, M')) (hw : Writes M M' p r' ns)
    (hns : ∀ c ∈ ns, c ∈ before p ++ after p ∨ M.node c = none) (hholds : Linked M' r' q' b a)
    (hsub : b ++ a ⊆ ns) (hcontract : Contract q q' op ret) (hret : ret ≠ .int error) :
    Sound M A (.on p op) := by
  refine ⟨ret, M', _, hcall,
    ⟨_, _, h.write (hq ▸ Option.some_ne_none q) hw hns hholds hsub⟩, ?_,
    fun heq => absurd heq hret⟩
  rw [Meets, if_neg hp]
  exact ⟨q, q', hq, rfl, hcontract⟩

/-- **A call on a queue** is sound. -/
theorem Layout.on {A : Nat → Option (Queue Nat)} {before after : Nat → List Nat}
    (h : Layout M A before after) (hp : p ≠ 0) (hr : M.queue p = some r) (op : QueueOp)
    (hop : M.Admissible (.on p op)) : Sound M A (.on p op) := by
  obtain ⟨q, hq⟩ := Option.ne_none_iff_exists'.mp fun hn =>
    absurd ((h.same p).mpr hn) (hr ▸ Option.some_ne_none r)
  have hh := h.holds p r q hr hq
  have hkeep : ∀ c ∈ before p ++ after p, c ∈ before p ++ after p ∨ M.node c = none :=
    fun c hc => Or.inl hc
  cases op with
  | add item malloc =>
      obtain ⟨r₁, hr₁, hmalloc, hsize⟩ := hop.resolve_left hp
      obtain rfl := Option.some.inj (hr.symm.trans hr₁)
      by_cases hx : item = 0 ∨ malloc = 0
      · apply h.read (.int error) hp hq
        · simp [call, queueAdd_refused hx]
        · rw [Contract, if_pos hx]
          exact ⟨rfl, rfl⟩
      · rw [not_or] at hx
        have hfresh := (hmalloc.resolve_left hx.2).1
        obtain ⟨M', r', b, a, hadd, hw, hholds, hnodes⟩ :=
          hh.add hr hp hx.1 hx.2 hfresh hsize
        apply h.written (.int noError) hp hq (by simp [call, hadd]) hw ?_ hholds
          (fun c hc => hnodes ▸ hc) (contract_add hx.1 hx.2) (by decide)
        intro c hc
        rcases List.mem_append.mp hc with hc | hc
        · exact Or.inl hc
        · exact Or.inr (List.mem_singleton.mp hc ▸ hfresh)
  | del item =>
      by_cases hx : item = 0
      · apply h.read (.int error) hp hq
        · simp [call, QueueMemory.queueDel, hx]
        · rw [Contract, if_pos (hx ▸ hh.items)]
          exact ⟨rfl, rfl⟩
      · rcases hh.del hr hp hx with ⟨hout, hdel⟩ | ⟨hin, M', r', b, a, hdel, hw, hholds, hsub⟩
        · apply h.read (.int error) hp hq (by simp [call, hdel])
          rw [Contract, if_pos hout]
          exact ⟨rfl, rfl⟩
        · exact h.written (.int noError) hp hq (by simp [call, hdel]) hw hkeep hholds hsub
            (contract_del hin) (by decide)
  | has item => exact h.read _ hp hq (by simp [call, hh.has hr hp]) ⟨rfl, rfl⟩
  | size => exact h.read _ hp hq (by simp [call, hh.sizeOf hr hp]) ⟨rfl, rfl⟩
  | head =>
      obtain ⟨M', r', hhead, hw, hholds⟩ := hh.head hr hp
      exact h.written (.pointer (q.items.head?.getD 0)) hp hq (by simp [call, hhead]) hw
        hkeep hholds (fun c hc => hc) ⟨rfl, rfl, rfl⟩ (by simp)
  | next =>
      obtain ⟨M', r', b, a, hnext, hw, hnodes, hholds⟩ := hh.next hr hp
      have hcontract : Contract q (queueNext q).2 .next (.pointer (q.rest.tail.head?.getD 0)) := by
        refine ⟨rfl, queueNext_items q, ?_⟩
        obtain ⟨passed, rest⟩ := q
        cases rest with
        | nil => rfl
        | cons y rest => rfl
      exact h.written _ hp hq (by simp [call, hnext]) hw hkeep hholds (fun c hc => hnodes ▸ hc)
        hcontract (by simp)
  | item => exact h.read _ hp hq (by simp [call, hh.item hr hp]) ⟨rfl, rfl⟩

/-- **Every call is sound** in a memory that represents queues. -/
theorem Represented.sound {A : Nat → Option (Queue Nat)} (h : Represented M A) {c : QueueCall}
    (hc : M.Admissible c) : Sound M A c := by
  obtain ⟨before, after, hl⟩ := h
  cases c with
  | create malloc =>
      by_cases hm : malloc = 0
      · refine ⟨.pointer 0, M, A, ?_, ⟨before, after, hl⟩, ⟨?_, ?_⟩, fun _ => rfl⟩
        · simp [call, QueueMemory.queueCreate, hm]
        · rw [hm]
        · rw [if_pos hm]
      · have hfresh := (hc.resolve_left hm).2
        refine ⟨.pointer malloc, _, _, ?_, ⟨_, _, hl.create hm hfresh⟩, ⟨rfl, ?_⟩, ?_⟩
        · simp [call, QueueMemory.queueCreate, hm]
        · rw [if_neg hm]
        · exact fun heq => absurd heq (by simp)
  | on queue op =>
      by_cases hp : queue = 0
      · refine ⟨nullReturn op, M, A, ?_, ⟨before, after, hl⟩, ?_, fun _ => rfl⟩
        · subst hp
          cases op with
          | add item malloc => simp [call, QueueMemory.queueAdd, nullReturn]
          | del item => simp [call, QueueMemory.queueDel, nullReturn]
          | has item => simp [call, QueueMemory.queueHas, nullReturn]
          | size => simp [call, QueueMemory.queueSize, nullReturn]
          | head => simp [call, QueueMemory.queueHead, nullReturn]
          | next => simp [call, QueueMemory.queueNext, nullReturn]
          | item => simp [call, QueueMemory.queueItem, nullReturn]
        · rw [Meets, if_pos hp]
          exact ⟨rfl, rfl⟩
      · obtain ⟨r, hr, -⟩ := hc.resolve_left hp
        exact hl.on hp hr op hc

/-- **The queues of a run.**  After any calls the memory represents one family of
queues, and whatever call comes next returns and does to them what `queue.h` says; one
that returns `ERROR` changes nothing. -/
theorem queue_refinement {cs : List QueueCall} {M : QueueMemory}
    (hok : AllSteps step Admissible QueueMemory.empty cs)
    (hrun : run step QueueMemory.empty cs = some M) :
    ∃ A, Represented M A ∧ (∀ B, Represented M B → B = A) ∧
      ∀ c, M.Admissible c → ∃ ret M' A', M.call c = some (ret, M') ∧ Represented M' A' ∧
        Meets A A' c ret ∧ (ret = .int error → M' = M) := by
  have hstart : ∃ A, Represented QueueMemory.empty A :=
    ⟨fun _ => none, fun _ => [], fun _ => [], rfl, fun _ => by simp [QueueMemory.empty],
      fun _ _ _ hr => absurd hr (by simp [QueueMemory.empty]), fun _ _ _ h => absurd rfl h⟩
  obtain ⟨A, hA⟩ := invariant_of_allSteps (fun M => ∃ A, Represented M A)
    (fun M c T hM hc hT => by
      obtain ⟨A, hA⟩ := hM
      obtain ⟨ret, M', A', hcall, hA', -, -⟩ := hA.sound hc
      rw [step, hcall] at hT
      exact ⟨A', Option.some.inj hT ▸ hA'⟩) hstart hok hrun
  exact ⟨A, hA, fun B hB => hA.unique hB, fun c hc => hA.sound hc⟩

/-- Two items are added, and the first is removed from under the iterator. -/
theorem queue_refinement_add_del : ∃ M,
    run step QueueMemory.empty [.create 100, .on 100 (.add 7 101), .on 100 (.add 8 102),
      .on 100 (.del 7), .on 100 (.add 7 0)] = some M ∧
    ∃ A, Represented M A ∧ (∀ B, Represented M B → B = A) ∧
      ∀ c, M.Admissible c → ∃ ret M' A', M.call c = some (ret, M') ∧ Represented M' A' ∧
        Meets A A' c ret ∧ (ret = .int error → M' = M) := by
  obtain ⟨M, hM⟩ := Option.isSome_iff_exists.mp (show (run step QueueMemory.empty
    [.create 100, .on 100 (.add 7 101), .on 100 (.add 8 102), .on 100 (.del 7),
      .on 100 (.add 7 0)]).isSome = true by decide)
  exact ⟨M, hM, queue_refinement (by decide) hM⟩

end PingPongOS
