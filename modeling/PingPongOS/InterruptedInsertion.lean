import PingPongOS.Loops
import PingPongOS.QueueNodes

/-!
# An interrupt inside `queue_add`

`hw_irq_handle` leaves every interrupt enabled, also while the code of `queue.c` runs.  Here
`queue_add(ready_queue, t)` is taken statement by statement on the nodes in memory, and
`handle_disk_signal`, which awakes the disk manager, runs to its end between two of them.
The handler inserts into the same queue.  It finds it whole before the first store and after
the last one; in between, what it stores is stored over, or stores over what was there.
-/

namespace PingPongOS

open Loops PointerChain QueueMemory

/-- The queues of `dispatcher.c`, by address. -/
structure QueuePointers where
  ready : Nat
  suspended : Nat
  sleeping : Nat

/-- The queues in memory, with the fields of the disk manager that `task_awake` reads. -/
structure WakeState where
  memory : QueueMemory
  status : Status
  sleeping : Bool

/-- `task_awake` of the task at the address `task`, with the result of the `malloc` of its
`queue_add`; `none` where its `queue_del` fails. -/
def taskAwakeAt (G : QueuePointers) (task malloc : Nat) (s : WakeState) : Option WakeState :=
  if task = 0 then some s
  else if s.status = .suspended then do
    let deleted ← s.memory.queueDel (if s.sleeping then G.sleeping else G.suspended) task
    if deleted.1 = noError then
      let added ← deleted.2.queueAdd G.ready task malloc
      some { memory := added.2, status := .ready, sleeping := false }
    else none
  else some s

/-- `handle_disk_signal`; `manager` is `task_disk_handler`. -/
def handleDiskSignal (G : QueuePointers) (manager malloc : Nat) (s : WakeState) :
    Option WakeState := taskAwakeAt G manager malloc s

/-- The next statement of `queue_add`, or what it returned. -/
inductive AddPoint
  | check
  | allocate
  | checkNode
  | initialise
  | branch
  | setEnds
  | setIterator
  | linkLast
  | setLast
  | count
  | returned (code : Int)
  deriving DecidableEq

/-- A statement of `queue_add(queue, item)`, whose `malloc` returns `node`.  Until it is
initialised the new node is nothing that can be read. -/
def addStatement (queue item node : Nat) (M : QueueMemory) :
    AddPoint → Option (AddPoint × QueueMemory)
  | .check => some (if queue = 0 ∨ item = 0 then .returned error else .allocate, M)
  | .allocate => some (.checkNode, M)
  | .checkNode => some (if node = 0 then .returned error else .initialise, M)
  | .initialise => some (.branch, M.setNode node ⟨0, item⟩)
  | .branch => do
      let q ← M.queue queue
      some (if q.size = 0 then .setEnds else .linkLast, M)
  | .setEnds => do
      let q ← M.queue queue
      some (.setIterator, M.setQueue queue { q with first := node, last := node })
  | .setIterator => do
      let q ← M.queue queue
      some (.count, M.setQueue queue { q with iterator := node })
  | .linkLast => do
      let q ← M.queue queue
      let last ← M.node q.last
      some (.setLast, M.setNode q.last { last with next := node })
  | .setLast => do
      let q ← M.queue queue
      some (.count, M.setQueue queue { q with last := node })
  | .count => do
      let q ← M.queue queue
      some (.returned noError, M.setQueue queue { q with size := addInt q.size 1 })
  | .returned _ => none

/-- One statement, with the rest of the state. -/
def addRound (queue item node : Nat) (s : AddPoint × WakeState) : Option (AddPoint × WakeState) :=
  (addStatement queue item node s.2.memory s.1).map fun r => (r.1, { s.2 with memory := r.2 })

/-- `queue_add(ready_queue, item)` with an interrupt after `n` of its statements: where it
ends, and the state after it. -/
def interruptedAdd (G : QueuePointers) (item node : Nat) (handler : WakeState → Option WakeState)
    (n : Nat) (s : WakeState) : Option (AddPoint × WakeState) := do
  let before ← rounds (addRound G.ready item node) n (.check, s)
  let after ← handler before.2
  loop (addRound G.ready item node) 9 (before.1, after)

/-- The insertion with the disk interrupt, which finds the disk manager suspended. -/
def addUnderDiskSignal (G : QueuePointers) (item manager node malloc n : Nat) (M : QueueMemory) :
    Option (AddPoint × WakeState) :=
  interruptedAdd G item node (handleDiskSignal G manager malloc) n ⟨M, .suspended, false⟩

/-! ## Well-formed queues -/

/-- The queue at `p` holds `xs`, and its `size` is the number of its nodes. -/
def WellFormedAt (M : QueueMemory) (p : Nat) (xs : List Nat) : Prop :=
  ∃ r nodes, M.queue p = some r ∧ Chained M r nodes xs ∧ r.size = nodes.length

variable {M M' : QueueMemory} {r r' : QueueT} {nodes others xs ys : List Nat}
  {p x m a : Nat} {budget : Nat}

@[simp] theorem QueueMemory.setQueue_setQueue :
    (M.setQueue p r).setQueue p r' = M.setQueue p r' := by
  simp [setQueue]

/-- A node that is stored once more. -/
theorem QueueMemory.setNode_eq_self {n : Node} (hn : M.node a = some n) : M.setNode a n = M := by
  rw [setNode, ← hn, Function.update_eq_self]

/-- The nodes are a function of the memory, so that the size decides. -/
theorem Chained.wellFormedAt_iff (h : Chained M r nodes xs) (hr : M.queue p = some r) :
    WellFormedAt M p ys ↔ r.size = nodes.length ∧ ys = xs := by
  constructor
  · rintro ⟨r', nodes', hr', h', hsize⟩
    obtain rfl := Option.some.inj (hr.symm.trans hr')
    obtain rfl := h.chain.unique h'.chain
    refine ⟨hsize, ?_⟩
    have heq := h'.contents.symm.trans h.contents
    exact List.map_injective_iff.mpr (Option.some_injective _) heq
  · rintro ⟨hsize, rfl⟩
    exact ⟨r, nodes, hr, h, hsize⟩

/-- A queue whose size is not the number of its nodes. -/
theorem not_wellFormedAt (hr : M.queue p = some r) (hchain : Chain M.next r.first nodes 0)
    (hsize : r.size ≠ nodes.length) : ¬ WellFormedAt M p ys := by
  rintro ⟨r', nodes', hr', h', hsize'⟩
  obtain rfl := Option.some.inj (hr.symm.trans hr')
  obtain rfl := hchain.unique h'.chain
  exact hsize hsize'

/-- What `queue_add` has done to a queue that is said not to be empty. -/
theorem queueAdd_inv (hadd : M.queueAdd p x m = some (noError, M')) (hr : M.queue p = some r)
    (hp : p ≠ 0) (hx : x ≠ 0) (hm : m ≠ 0) (hsize : r.size ≠ 0) :
    ∃ n, Function.update M.node m (some ⟨0, x⟩) r.last = some n ∧
      M' = ((M.setNode m ⟨0, x⟩).setNode r.last { n with next := m }).setQueue p
        { r with last := m, size := addInt r.size 1 } := by
  cases hn : Function.update M.node m (some ⟨0, x⟩) r.last with
  | none => simp [QueueMemory.queueAdd, hp, hx, hm, hr, hsize, hn] at hadd
  | some n =>
      refine ⟨n, rfl, ?_⟩
      simpa [QueueMemory.queueAdd, hp, hx, hm, hr, hsize, hn, eq_comm] using hadd

/-! ## Taking the manager out of its queue -/

/-- The loop of `queue_del` finds an item that a node after `aux` holds. -/
theorem queueDelLoop_writes (hr : M.queue p = some r) (h : Chain M.next a (a :: nodes) 0)
    (hitem : ∃ c ∈ nodes, M.content c = some x) (hbudget : nodes.length ≤ budget) :
    ∃ M' r', M.queueDelLoop p x budget a = some (noError, M') ∧
      Writes M M' p r' (a :: nodes) := by
  induction nodes generalizing a budget with
  | nil =>
      obtain ⟨c, hc, -⟩ := hitem
      exact absurd hc List.not_mem_nil
  | cons b nodes ih =>
      obtain ⟨budget, rfl⟩ : ∃ k, budget = k + 1 :=
        Nat.exists_eq_succ_of_ne_zero (Nat.ne_of_gt (Nat.lt_of_lt_of_le (by simp) hbudget))
      obtain ⟨-, -, b', hab, hrest⟩ := h
      obtain rfl : b' = b := hrest.1
      have hb0 : b' ≠ 0 := hrest.2.1
      obtain ⟨n, hn, rfl⟩ := Option.map_eq_some_iff.mp hab
      obtain ⟨d, hd, -⟩ := Option.map_eq_some_iff.mp
        (Option.ne_none_iff_exists'.mp (hrest.allocated (List.mem_cons_self ..))).choose_spec
      by_cases hx : d.content = x
      · have hdel : M.queueDelLoop p x (budget + 1) a = some (noError,
            ((M.setNode a { n with next := d.next }).free n.next).setQueue p { r with
              last := if n.next = r.last then a else r.last
              iterator := if r.iterator = n.next then d.next else r.iterator
              size := addInt r.size (-1) }) := by
          simp [queueDelLoop, hn, hb0, hd, hx, hr]
        refine ⟨_, _, hdel, rfl, fun c hc => ?_⟩
        rw [List.mem_cons, List.mem_cons, not_or, not_or] at hc
        simp [Function.update_of_ne hc.1, Function.update_of_ne hc.2.1]
      · have hafter : ∃ c ∈ nodes, M.content c = some x := by
          obtain ⟨c, hc, hcx⟩ := hitem
          rcases List.mem_cons.mp hc with rfl | hc
          · rw [(fields_of_node hd).2] at hcx
            exact absurd (Option.some.inj hcx) hx
          · exact ⟨c, hc, hcx⟩
        have hlen : nodes.length ≤ budget := by simpa using hbudget
        obtain ⟨M', r', hdel, hw⟩ := ih hrest hafter hlen
        refine ⟨M', r', ?_, hw.queue, fun c hc => hw.node c fun hmem =>
          hc (List.mem_cons_of_mem _ hmem)⟩
        simpa [queueDelLoop, hn, hb0, hd, hx] using hdel

/-- **`queue_del` of an item that is there** writes the queue and its nodes, wherever the
iterator is. -/
theorem Chained.queueDel (h : Chained M r nodes xs) (hr : M.queue p = some r) (hp : p ≠ 0)
    (hx : x ≠ 0) (hmem : x ∈ xs) (hsize : r.size = nodes.length) :
    ∃ M' r', M.queueDel p x = some (noError, M') ∧ Writes M M' p r' nodes := by
  have hitem : ∃ c ∈ nodes, M.content c = some x := by
    have : some x ∈ nodes.map M.content := h.contents ▸ List.mem_map_of_mem hmem
    exact List.mem_map.mp this
  obtain ⟨a, ms, rfl⟩ : ∃ a ms, nodes = a :: ms := by
    obtain ⟨c, hc, -⟩ := hitem
    exact List.exists_cons_of_ne_nil (List.ne_nil_of_mem hc)
  have hfirst : r.first = a := h.chain.1
  obtain ⟨n, hn, -⟩ := Option.map_eq_some_iff.mp
    (Option.ne_none_iff_exists'.mp (h.chain.allocated (List.mem_cons_self ..))).choose_spec
  have hsize0 : r.size ≠ 0 := by
    rw [hsize, List.length_cons]
    omega
  by_cases hfound : n.content = x
  · by_cases hone : r.size = 1
    · have hdel : M.queueDel p x = some (noError, (M.setQueue p ⟨0, 0, 0, 0⟩).free a) := by
        simp [QueueMemory.queueDel, hp, hx, hr, hone, hfirst, hn, hfound]
      refine ⟨_, _, hdel, rfl, fun c hc => ?_⟩
      exact Function.update_of_ne (List.ne_of_not_mem_cons hc) _ _
    · have hdel : M.queueDel p x = some (noError, (M.setQueue p { r with
          iterator := if r.iterator = a then n.next else r.iterator
          first := n.next
          size := addInt r.size (-1) }).free a) := by
        simp [QueueMemory.queueDel, hp, hx, hr, hsize0, hone, hfirst, hn, hfound]
      refine ⟨_, _, hdel, rfl, fun c hc => ?_⟩
      exact Function.update_of_ne (List.ne_of_not_mem_cons hc) _ _
  · have hafter : ∃ c ∈ ms, M.content c = some x := by
      obtain ⟨c, hc, hcx⟩ := hitem
      rcases List.mem_cons.mp hc with rfl | hc
      · rw [(fields_of_node hn).2] at hcx
        exact absurd (Option.some.inj hcx) hfound
      · exact ⟨c, hc, hcx⟩
    have hone : r.size ≠ 1 := by
      obtain ⟨c, hc, -⟩ := hafter
      have := List.length_pos_of_mem hc
      rw [hsize, List.length_cons]
      omega
    have hbudget : ms.length ≤ r.size.toNat := by
      rw [hsize, List.length_cons]
      omega
    obtain ⟨M', r', hdel, hw⟩ :=
      queueDelLoop_writes hr (hfirst ▸ h.chain) hafter hbudget
    exact ⟨M', r', by
      simpa [QueueMemory.queueDel, hp, hx, hr, hsize0, hone, hfirst, hn, hfound] using hdel, hw⟩

/-! ## What the interrupt comes upon -/

/-- The queues when `queue_add(ready_queue, item)` is called: both are well formed and they
share no node, the tasks are different ones, and the manager is in `suspended_queue`.  The
two nodes are those from the `malloc` of the insertion and of the handler, and the
interrupt falls behind the first `n` statements. -/
structure Situation (G : QueuePointers) (M : QueueMemory) (r rs : QueueT)
    (nodes nodess old waiting : List Nat) (item manager node malloc n : Nat) : Prop where
  pointers : G.ready ≠ 0 ∧ G.suspended ≠ 0 ∧ G.suspended ≠ G.ready
  ready : M.queue G.ready = some r
  chained : Chained M r nodes old
  size : r.size = nodes.length
  bound : r.size < 2 ^ 31
  suspended : M.queue G.suspended = some rs
  chaineds : Chained M rs nodess waiting
  sizes : rs.size = nodess.length
  apart : nodes.Disjoint nodess
  nodup : old.Nodup
  inserted : item ≠ 0 ∧ item ∉ old
  awoken : manager ≠ 0 ∧ manager ∉ old ∧ manager ∈ waiting
  other : item ≠ manager
  fresh : node ∉ nodes ∧ malloc ∉ nodes ∧ (node = malloc → node = 0)
  -- what the handler frees before the `malloc` of the insertion may be used for it
  freshs : 2 ≤ n → node ∉ nodess
  point : n ≤ 8

/-- Both have finished, `ready_queue` is well formed, and it contains each of the previous
tasks, the new one and the manager once. -/
def LosesNoTask (G : QueuePointers) (old : List Nat) (item manager : Nat)
    (result : Option (AddPoint × WakeState)) : Prop :=
  ∃ code S xs, result = some (.returned code, S) ∧ WellFormedAt S.memory G.ready xs ∧ xs.Nodup ∧
    ∀ x, x ∈ xs ↔ x ∈ old ∨ x = item ∨ x = manager

theorem writes_self (hr : M.queue p = some r) : Writes M M p r nodes :=
  ⟨by rw [← hr, Function.update_eq_self], fun _ _ => rfl⟩

section Interrupted

variable {G : QueuePointers} {rs rb : QueueT} {nodess old waiting ns : List Nat}
  {item manager node malloc n : Nat} {code : Int} {S s : WakeState}
  {result : Option (AddPoint × WakeState)} {point : AddPoint}

/-- A run that ends with `xs` in the nodes of `ready_queue`. -/
theorem losesNoTask_iff (hresult : result = some (.returned code, S))
    (hr : S.memory.queue G.ready = some r) (hchained : Chained S.memory r nodes xs) :
    LosesNoTask G old item manager result ↔ r.size = nodes.length ∧ xs.Nodup ∧
      ∀ x, x ∈ xs ↔ x ∈ old ∨ x = item ∨ x = manager := by
  constructor
  · rintro ⟨code', S', ys, hresult', hwell, hnodup, hmem⟩
    obtain ⟨-, rfl⟩ := Prod.mk.inj (Option.some.inj (hresult.symm.trans hresult'))
    obtain ⟨hsize, rfl⟩ := (hchained.wellFormedAt_iff hr).mp hwell
    exact ⟨hsize, hnodup, hmem⟩
  · rintro ⟨hsize, hnodup, hmem⟩
    exact ⟨code, S, xs, hresult, (hchained.wellFormedAt_iff hr).mpr ⟨hsize, rfl⟩, hnodup, hmem⟩

/-- A run that ends with a size that is not the number of nodes. -/
theorem not_losesNoTask (hresult : result = some (.returned code, S))
    (hr : S.memory.queue G.ready = some r) (hchain : Chain S.memory.next r.first nodes 0)
    (hsize : r.size ≠ nodes.length) : ¬ LosesNoTask G old item manager result := by
  rintro ⟨code', S', ys, hresult', hwell, -, -⟩
  obtain ⟨-, rfl⟩ := Prod.mk.inj (Option.some.inj (hresult.symm.trans hresult'))
  exact not_wellFormedAt hr hchain hsize hwell

/-- **The handler** takes the manager out of its queue, and adds it to the one that is
being written, as it stands; the insertion goes on from there. -/
theorem Situation.handled {Mb : QueueMemory}
    (h : Situation G M r rs nodes nodess old waiting item manager node malloc n)
    (hrounds : rounds (addRound G.ready item node) n (.check, ⟨M, .suspended, false⟩) =
      some (point, ⟨Mb, .suspended, false⟩))
    (hw : Writes M Mb G.ready rb ns) (hns : ns.Disjoint nodess) :
    ∃ M₁ : QueueMemory, M₁.queue G.ready = some rb ∧ (∀ a ∉ nodess, M₁.node a = Mb.node a) ∧
      addUnderDiskSignal G item manager node malloc n M =
        (M₁.queueAdd G.ready manager malloc).bind fun added =>
          loop (addRound G.ready item node) 9 (point, ⟨added.2, .ready, false⟩) := by
  obtain ⟨hready, hsuspended, hne⟩ := h.pointers
  have hqueue : Mb.queue G.suspended = some rs := by
    rw [hw.queue, Function.update_of_ne hne]
    exact h.suspended
  have hchained : Chained Mb rs nodess waiting :=
    h.chaineds.congr fun a ha => hw.node a fun hmem => hns hmem ha
  obtain ⟨M₁, r₁, hdel, hw₁⟩ :=
    hchained.queueDel hqueue hsuspended h.awoken.1 h.awoken.2.2 h.sizes
  refine ⟨M₁, ?_, hw₁.node, ?_⟩
  · rw [hw₁.queue, Function.update_of_ne (Ne.symm hne), hw.queue, Function.update_self]
  · simp only [addUnderDiskSignal, interruptedAdd, hrounds, handleDiskSignal, taskAwakeAt,
      if_neg h.awoken.1, if_true, Bool.false_eq_true, if_false, hdel, Option.bind_eq_bind,
      Option.bind_some]
    cases M₁.queueAdd G.ready manager malloc <;> rfl

/-- The rest of an insertion that has not yet written the queue is `queue_add`. -/
theorem loop_addRound (hadd : s.memory.queueAdd p item node = some (noError, M'))
    (hr : s.memory.queue p = some r) (hp : p ≠ 0) (hitem : item ≠ 0) (hnode : node ≠ 0)
    (hpoint : point ∈ [.check, .allocate, .checkNode, .initialise] ∨
      s.memory.node node = some ⟨0, item⟩ ∧
        (point = .branch ∨ point = if r.size = 0 then .setEnds else .linkLast)) :
    loop (addRound p item node) 9 (point, s) =
      some (.returned noError, { s with memory := M' }) := by
  by_cases hsize : r.size = 0
  · rw [queueAdd_of_size_zero hr hp hitem hnode hsize] at hadd
    obtain rfl := (Prod.mk.inj (Option.some.inj hadd)).2
    rcases hpoint with hpoint | ⟨hinit, hpoint⟩
    · simp only [List.mem_cons, List.not_mem_nil, or_false] at hpoint
      rcases hpoint with rfl | rfl | rfl | rfl <;>
        simp [loop, addRound, addStatement, hp, hitem, hnode, hr, hsize]
    · rw [if_pos hsize] at hpoint
      rw [setNode_eq_self hinit]
      rcases hpoint with rfl | rfl <;> simp [loop, addRound, addStatement, hr, hsize]
  · obtain ⟨n, hn, hM⟩ := queueAdd_inv hadd hr hp hitem hnode hsize
    rw [hM]
    rcases hpoint with hpoint | ⟨hinit, hpoint⟩
    · simp only [List.mem_cons, List.not_mem_nil, or_false] at hpoint
      rcases hpoint with rfl | rfl | rfl | rfl <;>
        simp [loop, addRound, addStatement, hp, hitem, hnode, hr, hsize, hn]
    · rw [if_neg hsize] at hpoint
      rw [← setNode_node, setNode_eq_self hinit] at hn
      rw [setNode_eq_self hinit]
      rcases hpoint with rfl | rfl <;> simp [loop, addRound, addStatement, hr, hsize, hn]

/-- The states of the insertion before it writes the queue. -/
theorem rounds_before (hr : s.memory.queue p = some r) (hp : p ≠ 0) (hitem : item ≠ 0)
    (hnode : node ≠ 0) (hn : n ≤ 5) :
    ∃ point S, rounds (addRound p item node) n (.check, s) = some (point, S) ∧
      (n ≤ 3 ∧ S = s ∧ point ∈ [.check, .allocate, .checkNode, .initialise] ∨
        4 ≤ n ∧ S = { s with memory := s.memory.setNode node ⟨0, item⟩ } ∧
          (n = 4 ∧ point = .branch ∨
            n = 5 ∧ point = if r.size = 0 then .setEnds else .linkLast)) := by
  interval_cases n <;> simp [rounds, addRound, addStatement, hp, hitem, hnode, hr]

/-- The states of the insertion when its node is in the chain; they differ from the last
one in the record of the queue only. -/
theorem rounds_behind (hadd : s.memory.queueAdd p item node = some (noError, M'))
    (hr : s.memory.queue p = some r) (hr' : M'.queue p = some r') (hp : p ≠ 0)
    (hitem : item ≠ 0) (hnode : node ≠ 0) (hn : n = 6 ∧ r.size = 0 ∨ n = 7 ∨ n = 8) :
    ∃ point rb, rounds (addRound p item node) n (.check, s) =
        some (point, { s with memory := M'.setQueue p rb }) ∧
      point ∈ [.setIterator, .count, .returned noError] ∧ (point = .returned noError ↔ n = 8) ∧
      rb.first = r'.first ∧ rb.last = r'.last ∧ rb.size = if n = 8 then r'.size else r.size := by
  by_cases hsize : r.size = 0
  · rw [queueAdd_of_size_zero hr hp hitem hnode hsize] at hadd
    obtain rfl := (Prod.mk.inj (Option.some.inj hadd)).2
    rw [setQueue_queue, Function.update_self] at hr'
    obtain rfl := Option.some.inj hr'
    rcases hn with ⟨rfl, -⟩ | rfl | rfl
    · refine ⟨.setIterator, ⟨node, node, r.iterator, r.size⟩, ?_, by simp, by simp, rfl, rfl, rfl⟩
      simp [rounds, addRound, addStatement, hp, hitem, hnode, hr, hsize]
    · refine ⟨.count, ⟨node, node, node, r.size⟩, ?_, by simp, by simp, rfl, rfl, rfl⟩
      simp [rounds, addRound, addStatement, hp, hitem, hnode, hr, hsize]
    · refine ⟨.returned noError, ⟨node, node, node, addInt r.size 1⟩, ?_, by simp, by simp,
        rfl, rfl, rfl⟩
      simp [rounds, addRound, addStatement, hp, hitem, hnode, hr, hsize]
  · obtain ⟨n', hn', hM⟩ := queueAdd_inv hadd hr hp hitem hnode hsize
    subst hM
    rw [setQueue_queue, Function.update_self] at hr'
    obtain rfl := Option.some.inj hr'
    rcases hn with ⟨-, hzero⟩ | rfl | rfl
    · exact absurd hzero hsize
    · refine ⟨.count, { r with last := node }, ?_, by simp, by simp, rfl, rfl, rfl⟩
      simp [rounds, addRound, addStatement, hp, hitem, hnode, hr, hsize, hn']
    · refine ⟨.returned noError, { r with last := node, size := addInt r.size 1 }, ?_, by simp,
        by simp, rfl, rfl, rfl⟩
      simp [rounds, addRound, addStatement, hp, hitem, hnode, hr, hsize, hn']

/-- The statements that are left when the new node is in the chain. -/
theorem loop_counts (item node : Nat) (hr : S.memory.queue p = some r)
    (hpoint : point ∈ [.setIterator, .count, .returned noError]) :
    ∃ M' r', loop (addRound p item node) 9 (point, S) =
        some (.returned noError, { S with memory := M' }) ∧
      M'.node = S.memory.node ∧ M'.queue p = some r' ∧ r'.first = r.first ∧ r'.last = r.last ∧
      r'.size = if point = .returned noError then r.size else addInt r.size 1 := by
  simp only [List.mem_cons, List.not_mem_nil, or_false] at hpoint
  rcases hpoint with rfl | rfl | rfl
  · refine ⟨S.memory.setQueue p { r with iterator := node, size := addInt r.size 1 }, _, ?_, rfl,
      Function.update_self .., rfl, rfl, rfl⟩
    simp [loop, addRound, addStatement, hr]
  · refine ⟨S.memory.setQueue p { r with size := addInt r.size 1 }, _, ?_, rfl,
      Function.update_self .., rfl, rfl, rfl⟩
    simp [loop, addRound, addStatement, hr]
  · exact ⟨S.memory, r, rfl, rfl, hr, rfl, rfl, rfl⟩

/-- Two more than a count that fits. -/
theorem addInt_twice {k : Int} (h0 : 0 ≤ k) (hk : k < 2 ^ 31) :
    addInt (addInt k 1) 1 = k + 2 ↔ k + 2 < 2 ^ 31 := by
  unfold addInt
  constructor
  · intro h
    have := Int.bmod_lt (x := Int.bmod (k + 1) (2 ^ 32) + 1) (m := 2 ^ 32) (by norm_num)
    omega
  · intro h
    rw [Int.bmod_eq_of_le] <;> rw [Int.bmod_eq_of_le] <;> omega

theorem addInt_twice_ne {k : Int} (h0 : 0 ≤ k) (hk : k < 2 ^ 31) :
    addInt (addInt k 1) 1 ≠ k + 1 := by
  unfold addInt
  rw [Int.bmod_def, Int.bmod_def]
  omega

/-! ## Where the interrupt falls -/

/-- A run that ends with both tasks in the chain. -/
theorem Situation.gains {nodes' : List Nat}
    (h : Situation G M r rs nodes nodess old waiting item manager node malloc n)
    (hresult : result = some (.returned noError, S)) (hr : S.memory.queue G.ready = some r')
    (hchained : Chained S.memory r' nodes' xs) (hperm : xs.Perm (item :: manager :: old))
    (hsize : r'.size = addInt (addInt r.size 1) 1) :
    LosesNoTask G old item manager result ↔ r.size + 2 < 2 ^ 31 := by
  have hlen : (nodes'.length : Int) = r.size + 2 := by
    have hpl := hperm.length_eq
    have hlo := h.chained.length
    rw [List.length_cons, List.length_cons, ← hchained.length, ← hlo] at hpl
    rw [h.size, hpl]
    push_cast
    ring
  have h0 : 0 ≤ r.size := h.size ▸ Int.natCast_nonneg _
  have hnodup : xs.Nodup := by
    rw [hperm.nodup_iff, List.nodup_cons, List.nodup_cons, List.mem_cons, not_or]
    exact ⟨⟨h.other, h.inserted.2⟩, h.awoken.2.1, h.nodup⟩
  have hmem : ∀ x, x ∈ xs ↔ x ∈ old ∨ x = item ∨ x = manager := by
    intro x
    rw [hperm.mem_iff, List.mem_cons, List.mem_cons]
    tauto
  rw [losesNoTask_iff hresult hr hchained, hsize, hlen, addInt_twice h0 h.bound]
  exact ⟨fun hall => hall.1, fun hlt => ⟨hlt, hnodup, hmem⟩⟩

/-- A run that ends with a chain that one of them is not in. -/
theorem not_losesNoTask_of_missing {nodes' : List Nat}
    (hresult : result = some (.returned code, S)) (hr : S.memory.queue G.ready = some r')
    (hchained : Chained S.memory r' nodes' xs) (hout : item ∉ xs ∨ manager ∉ xs) :
    ¬ LosesNoTask G old item manager result := by
  rw [losesNoTask_iff hresult hr hchained]
  rintro ⟨-, -, hmem⟩
  rcases hout with hout | hout
  · exact hout ((hmem item).mpr (Or.inr (Or.inl rfl)))
  · exact hout ((hmem manager).mpr (Or.inr (Or.inr rfl)))

/-- The manager is not in the queue after the insertion alone. -/
theorem Situation.manager_missing
    (h : Situation G M r rs nodes nodess old waiting item manager node malloc n) :
    manager ∉ old ++ [item] := by
  rw [List.mem_append, List.mem_singleton, not_or]
  exact ⟨h.awoken.2.1, Ne.symm h.other⟩

theorem Situation.size_eq_zero
    (h : Situation G M r rs nodes nodess old waiting item manager node malloc n) :
    r.size = 0 ↔ nodes = [] := by
  rw [h.size, Int.natCast_eq_zero, List.length_eq_zero_iff]

theorem Situation.addInt_size_ne_zero
    (h : Situation G M r rs nodes nodess old waiting item manager node malloc n) :
    addInt r.size 1 ≠ 0 := by
  have h0 : 0 ≤ r.size := h.size ▸ Int.natCast_nonneg _
  have hb := h.bound
  unfold addInt
  rw [Int.bmod_def]
  omega

/-- The state after the handler when it has run before the first store to the queue. -/
theorem Situation.before
    (h : Situation G M r rs nodes nodess old waiting item manager node malloc n)
    (hnode : node ≠ 0) (hn : n ≤ 5) :
    ∃ (point : AddPoint) (M₁ : QueueMemory),
      M₁.queue G.ready = some r ∧ Chained M₁ r nodes old ∧
      addUnderDiskSignal G item manager node malloc n M =
        ((M₁.queueAdd G.ready manager malloc).bind fun added =>
          loop (addRound G.ready item node) 9 (point, ⟨added.2, .ready, false⟩)) ∧
      (n ≤ 3 ∧ point ∈ [.check, .allocate, .checkNode, .initialise] ∨
        M₁.node node = some ⟨0, item⟩ ∧
          (n = 4 ∧ point = .branch ∨
            n = 5 ∧ point = if r.size = 0 then .setEnds else .linkLast)) := by
  obtain ⟨point, S, hrounds, hS⟩ :=
    rounds_before (s := ⟨M, .suspended, false⟩) h.ready h.pointers.1 h.inserted.1 hnode hn
  obtain ⟨ns, hns, hSeq, hw⟩ : ∃ ns : List Nat, (ns = [] ∨ ns = [node] ∧ 2 ≤ n) ∧
      S = ⟨S.memory, .suspended, false⟩ ∧ Writes M S.memory G.ready r ns := by
    rcases hS with ⟨-, rfl, -⟩ | ⟨hle, rfl, -⟩
    · exact ⟨[], Or.inl rfl, rfl, writes_self h.ready⟩
    · refine ⟨[node], Or.inr ⟨rfl, by omega⟩, rfl, ?_, fun a ha => ?_⟩
      · rw [setNode_queue, ← h.ready, Function.update_eq_self]
      · exact Function.update_of_ne (fun heq => ha (by simp [heq])) _ _
  have hdisjoint : ns.Disjoint nodess := by
    rcases hns with rfl | ⟨rfl, hle⟩
    · exact List.disjoint_nil_left _
    · exact List.singleton_disjoint.mpr (h.freshs hle)
  obtain ⟨M₁, hr₁, hnodes₁, hrun⟩ := h.handled (hSeq ▸ hrounds) hw hdisjoint
  refine ⟨point, M₁, hr₁, ?_, hrun, ?_⟩
  · refine h.chained.congr fun a ha => ?_
    rw [hnodes₁ a fun has => h.apart ha has]
    refine hw.node a fun han => ?_
    rcases hns with rfl | ⟨rfl, -⟩
    · exact absurd han List.not_mem_nil
    · exact h.fresh.1 (List.mem_singleton.mp han ▸ ha)
  · rcases hS with ⟨hle, -, hpoint⟩ | ⟨hle, rfl, hpoint⟩
    · exact Or.inl ⟨hle, hpoint⟩
    · refine Or.inr ⟨?_, hpoint⟩
      rw [hnodes₁ node (h.freshs (by omega))]
      exact Function.update_self ..

/-- **Before the first store** the handler finds the queue whole, and so does the rest of
the insertion after it, unless it has already seen the queue empty. -/
theorem Situation.early
    (h : Situation G M r rs nodes nodess old waiting item manager node malloc n)
    (hnode : node ≠ 0) (hn : n ≤ 4 ∨ n = 5 ∧ (nodes ≠ [] ∨ malloc = 0)) :
    LosesNoTask G old item manager (addUnderDiskSignal G item manager node malloc n M) ↔
      malloc ≠ 0 ∧ r.size + 2 < 2 ^ 31 := by
  have hn5 : n ≤ 5 := by omega
  obtain ⟨point, M₁, hr₁, hchained₁, hrun, hpoint⟩ := h.before hnode hn5
  by_cases hm : malloc = 0
  · subst hm
    obtain ⟨M₂, r₂, hadd, hw₂, hchained₂, -⟩ := hchained₁.queueAdd hr₁ h.pointers.1
      h.inserted.1 hnode h.fresh.1 h.size_eq_zero
    have hloop := loop_addRound (s := ⟨M₁, .ready, false⟩) hadd hr₁ h.pointers.1 h.inserted.1
      hnode (hpoint.imp And.right fun hin => ⟨hin.1, hin.2.imp And.right And.right⟩)
    rw [queueAdd_refused (Or.inr rfl)] at hrun
    have hr₂ : M₂.queue G.ready = some r₂ := by rw [hw₂.queue, Function.update_self]
    exact iff_of_false (not_losesNoTask_of_missing (hrun.trans hloop) hr₂ hchained₂
      (Or.inr h.manager_missing)) fun hand => hand.1 rfl
  · obtain ⟨M₂, r₂, hadd, hw₂, hchained₂, -, hsize₂⟩ := hchained₁.queueAdd hr₁ h.pointers.1
      h.awoken.1 hm h.fresh.2.1 h.size_eq_zero
    have hr₂ : M₂.queue G.ready = some r₂ := by rw [hw₂.queue, Function.update_self]
    have hfresh : node ∉ nodes ++ [malloc] := by
      rw [List.mem_append, List.mem_singleton, not_or]
      exact ⟨h.fresh.1, fun heq => hnode (h.fresh.2.2 heq)⟩
    have hsize0 : r₂.size ≠ 0 := hsize₂ ▸ h.addInt_size_ne_zero
    obtain ⟨M₃, r₃, hadd₃, hw₃, hchained₃, -, hsize₃⟩ := hchained₂.queueAdd hr₂ h.pointers.1
      h.inserted.1 hnode hfresh (iff_of_false hsize0 (by simp))
    have hpoint₂ : point ∈ [.check, .allocate, .checkNode, .initialise] ∨
        M₂.node node = some ⟨0, item⟩ ∧
          (point = .branch ∨ point = if r₂.size = 0 then .setEnds else .linkLast) := by
      refine hpoint.imp And.right fun hin => ⟨?_, hin.2.imp And.right fun hfive => ?_⟩
      · rw [hw₂.node node hfresh]
        exact hin.1
      · have hne : ¬ nodes = [] := (hn.resolve_left (by omega)).2.resolve_right hm
        rw [if_neg hsize0, hfive.2, if_neg (h.size_eq_zero.not.mpr hne)]
    have hloop := loop_addRound (s := ⟨M₂, .ready, false⟩) hadd₃ hr₂ h.pointers.1 h.inserted.1
      hnode hpoint₂
    rw [hadd] at hrun
    have hr₃ : M₃.queue G.ready = some r₃ := by rw [hw₃.queue, Function.update_self]
    rw [h.gains (hrun.trans hloop) hr₃ hchained₃ ?_ (hsize₂ ▸ hsize₃)]
    · exact ⟨fun hlt => ⟨hm, hlt⟩, And.right⟩
    · rw [List.append_assoc]
      exact List.perm_append_comm.trans (List.Perm.swap ..)

/-- **Behind the test of the size**, with the queue empty: the first store loses what the
handler has inserted, and not its count. -/
theorem Situation.emptySeen
    (h : Situation G M r rs [] nodess old waiting item manager node malloc 5)
    (hnode : node ≠ 0) (hm : malloc ≠ 0) :
    ¬ LosesNoTask G old item manager (addUnderDiskSignal G item manager node malloc 5 M) := by
  obtain ⟨point, M₁, hr₁, -, hrun, hpoint⟩ := h.before hnode le_rfl
  obtain ⟨hinit, hpoint⟩ := hpoint.resolve_left fun hle => absurd hle.1 (by norm_num)
  have hsize : r.size = 0 := h.size_eq_zero.mpr rfl
  obtain rfl : point = .setEnds := by
    rw [(hpoint.resolve_left fun heq => absurd heq.1 (by norm_num)).2, if_pos hsize]
  have hne : node ≠ malloc := fun heq => hnode (h.fresh.2.2 heq)
  rw [queueAdd_of_size_zero hr₁ h.pointers.1 h.awoken.1 hm hsize, hsize, Option.bind_some] at hrun
  have hloop : loop (addRound G.ready item node) 9 (.setEnds,
      ⟨(M₁.setNode malloc ⟨0, manager⟩).setQueue G.ready ⟨malloc, malloc, malloc, addInt 0 1⟩,
        .ready, false⟩) =
      some (.returned noError, ⟨(M₁.setNode malloc ⟨0, manager⟩).setQueue G.ready
        ⟨node, node, node, addInt (addInt 0 1) 1⟩, .ready, false⟩) := by
    simp [loop, addRound, addStatement]
  have hchain : Chain ((M₁.setNode malloc ⟨0, manager⟩).setQueue G.ready
      ⟨node, node, node, addInt (addInt 0 1) 1⟩).next node [node] 0 := by
    refine ⟨rfl, hnode, 0, ?_, rfl⟩
    simp [QueueMemory.next, Function.update_of_ne hne, hinit]
  refine not_losesNoTask (hrun.trans hloop) (Function.update_self ..) hchain ?_
  rw [List.length_singleton]
  exact (by decide : addInt (addInt 0 1) 1 ≠ 1)

/-- The state after the handler's `queue_del` when the new node is in the chain. -/
theorem Situation.behind
    (h : Situation G M r rs nodes nodess old waiting item manager node malloc n)
    (hnode : node ≠ 0) (hn : n = 6 ∧ nodes = [] ∨ n = 7 ∨ n = 8) :
    ∃ (point : AddPoint) (M₁ : QueueMemory) (rb : QueueT),
      M₁.queue G.ready = some rb ∧ Chained M₁ rb (nodes ++ [node]) (old ++ [item]) ∧
      addUnderDiskSignal G item manager node malloc n M =
        ((M₁.queueAdd G.ready manager malloc).bind fun added =>
          loop (addRound G.ready item node) 9 (point, ⟨added.2, .ready, false⟩)) ∧
      point ∈ [.setIterator, .count, .returned noError] ∧ (point = .returned noError ↔ n = 8) ∧
      rb.size = if n = 8 then addInt r.size 1 else r.size := by
  obtain ⟨Ma, ra, hadd, hwa, hchaineda, -, hsizea⟩ := h.chained.queueAdd h.ready h.pointers.1
    h.inserted.1 hnode h.fresh.1 h.size_eq_zero
  have hra : Ma.queue G.ready = some ra := by rw [hwa.queue, Function.update_self]
  obtain ⟨point, rb, hrounds, hmem, height, hfirst, hlast, hsizeb⟩ :=
    rounds_behind (s := ⟨M, .suspended, false⟩) hadd h.ready hra h.pointers.1 h.inserted.1 hnode
      (hn.imp_left (And.imp_right h.size_eq_zero.mpr))
  have hchainedb : Chained (Ma.setQueue G.ready rb) rb (nodes ++ [node]) (old ++ [item]) :=
    (hchaineda.recount hfirst hlast).congr fun _ _ => rfl
  have hwb : Writes M (Ma.setQueue G.ready rb) G.ready rb (nodes ++ [node]) := by
    refine ⟨?_, hwa.node⟩
    rw [setQueue_queue, hwa.queue, Function.update_idem]
  have hdisjoint : (nodes ++ [node]).Disjoint nodess :=
    List.disjoint_append_left.mpr ⟨h.apart, List.singleton_disjoint.mpr (h.freshs (by omega))⟩
  obtain ⟨M₁, hr₁, hnodes₁, hrun⟩ := h.handled hrounds hwb hdisjoint
  refine ⟨point, M₁, rb, hr₁, ?_, hrun, hmem, height, hsizea ▸ hsizeb⟩
  exact hchainedb.congr fun a ha => hnodes₁ a fun has => hdisjoint ha has

/-- **Behind the stores of the pointers** the handler finds the new node in its place, and
appends behind it, where the count of the queue is not still that of an empty one. -/
theorem Situation.late
    (h : Situation G M r rs nodes nodess old waiting item manager node malloc n)
    (hnode : node ≠ 0) (hn : n = 6 ∧ nodes = [] ∨ n = 7 ∨ n = 8) :
    LosesNoTask G old item manager (addUnderDiskSignal G item manager node malloc n M) ↔
      malloc ≠ 0 ∧ (nodes ≠ [] ∨ n = 8) ∧ r.size + 2 < 2 ^ 31 := by
  obtain ⟨point, M₁, rb, hr₁, hchained₁, hrun, hmem, height, hsizeb⟩ := h.behind hnode hn
  by_cases hm : malloc = 0
  · subst hm
    rw [queueAdd_refused (Or.inr rfl), Option.bind_some] at hrun
    obtain ⟨M₂, r₂, hloop, hnode₂, hr₂, hfirst₂, hlast₂, -⟩ :=
      loop_counts (S := ⟨M₁, .ready, false⟩) item node hr₁ hmem
    have hchained₂ : Chained M₂ r₂ (nodes ++ [node]) (old ++ [item]) :=
      (hchained₁.recount hfirst₂ hlast₂).congr fun a _ => congrFun hnode₂ a
    exact iff_of_false (not_losesNoTask_of_missing (hrun.trans hloop) hr₂ hchained₂
      (Or.inr h.manager_missing)) fun hand => hand.1 rfl
  by_cases hgood : nodes ≠ [] ∨ n = 8
  · have hsize0 : rb.size ≠ 0 := by
      rw [hsizeb]
      split
      · exact h.addInt_size_ne_zero
      · rename_i hn8
        exact h.size_eq_zero.not.mpr (hgood.resolve_right hn8)
    have hfresh : malloc ∉ nodes ++ [node] := by
      rw [List.mem_append, List.mem_singleton, not_or]
      exact ⟨h.fresh.2.1, fun heq => hnode (h.fresh.2.2 heq.symm)⟩
    obtain ⟨M₂, r₂, hadd₂, hw₂, hchained₂, -, hsize₂⟩ := hchained₁.queueAdd hr₁ h.pointers.1
      h.awoken.1 hm hfresh (iff_of_false hsize0 (by simp))
    have hr₂ : M₂.queue G.ready = some r₂ := by rw [hw₂.queue, Function.update_self]
    obtain ⟨M₃, r₃, hloop, hnode₃, hr₃, hfirst₃, hlast₃, hsize₃⟩ :=
      loop_counts (S := ⟨M₂, .ready, false⟩) item node hr₂ hmem
    have hchained₃ : Chained M₃ r₃ (nodes ++ [node] ++ [malloc]) (old ++ [item] ++ [manager]) :=
      (hchained₂.recount hfirst₃ hlast₃).congr fun a _ => congrFun hnode₃ a
    have hsize : r₃.size = addInt (addInt r.size 1) 1 := by
      rw [hsize₃, hsize₂, hsizeb]
      by_cases hn8 : n = 8
      · rw [if_pos (height.mpr hn8), if_pos hn8]
      · rw [if_neg (height.not.mpr hn8), if_neg hn8]
    rw [hadd₂, Option.bind_some] at hrun
    rw [h.gains (hrun.trans hloop) hr₃ hchained₃ ?_ hsize]
    · exact ⟨fun hlt => ⟨hm, hgood, hlt⟩, fun hand => hand.2.2⟩
    · rw [List.append_assoc]
      exact List.perm_append_comm
  · rw [not_or, not_not] at hgood
    obtain ⟨rfl, hn8⟩ := hgood
    have hzero : r.size = 0 := h.size_eq_zero.mpr rfl
    rw [if_neg hn8, hzero] at hsizeb
    rw [queueAdd_of_size_zero hr₁ h.pointers.1 h.awoken.1 hm hsizeb, Option.bind_some] at hrun
    obtain ⟨M₃, r₃, hloop, hnode₃, hr₃, hfirst₃, -, hsize₃⟩ :=
      loop_counts (S := ⟨(M₁.setNode malloc ⟨0, manager⟩).setQueue G.ready
        ⟨malloc, malloc, malloc, addInt rb.size 1⟩, .ready, false⟩) item node
        (Function.update_self ..) hmem
    have hchain : Chain M₃.next r₃.first [malloc] 0 := by
      refine ⟨hfirst₃, hfirst₃ ▸ hm, 0, ?_, rfl⟩
      rw [hfirst₃]
      simp [QueueMemory.next, hnode₃]
    refine iff_of_false (not_losesNoTask (hrun.trans hloop) hr₃ hchain ?_) fun hand => ?_
    · rw [hsize₃, if_neg (height.not.mpr hn8), hsizeb, List.length_singleton]
      exact (by decide : addInt (addInt 0 1) 1 ≠ 1)
    · exact hand.2.1.elim (fun hne => hne rfl) hn8

/-- **Between the two stores of the last pointer** the handler stores over the link to the
new node, which the rest of the insertion then takes for the last one. -/
theorem Situation.between
    (h : Situation G M r rs nodes nodess old waiting item manager node malloc 6)
    (hnode : node ≠ 0) (hne : nodes ≠ []) :
    ¬ LosesNoTask G old item manager (addUnderDiskSignal G item manager node malloc 6 M) := by
  obtain ⟨ns, l, hsplit, hl⟩ := h.chained.lastNode hne
  have hmem : r.last ∈ nodes := by simp [hsplit]
  have hlastn : r.last ≠ node := fun heq => h.fresh.1 (heq ▸ hmem)
  have hlastm : r.last ≠ malloc := fun heq => h.fresh.2.1 (heq ▸ hmem)
  have hsize : r.size ≠ 0 := h.size_eq_zero.not.mpr hne
  have hdisjoint : (nodes ++ [node]).Disjoint nodess :=
    List.disjoint_append_left.mpr ⟨h.apart, List.singleton_disjoint.mpr (h.freshs (by norm_num))⟩
  let Mb := (M.setNode node ⟨0, item⟩).setNode r.last { l with next := node }
  have hrounds : rounds (addRound G.ready item node) 6 (.check, ⟨M, .suspended, false⟩) =
      some (.setLast, ⟨Mb, .suspended, false⟩) := by
    simp [rounds, addRound, addStatement, h.pointers.1, h.inserted.1, hnode, h.ready, hsize,
      Function.update_of_ne hlastn, hl, Mb]
  have hw : Writes M Mb G.ready r (nodes ++ [node]) := by
    refine ⟨?_, fun a ha => ?_⟩
    · rw [← h.ready, Function.update_eq_self]
      rfl
    · rw [List.mem_append, List.mem_singleton, not_or] at ha
      have hal : a ≠ r.last := fun heq => ha.1 (heq ▸ hmem)
      simp [Mb, Function.update_of_ne hal, Function.update_of_ne ha.2]
  obtain ⟨M₁, hr₁, hnodes₁, hrun⟩ := h.handled hrounds hw hdisjoint
  have hl₁ : M₁.node r.last = some { l with next := node } := by
    rw [hnodes₁ r.last fun has => h.apart hmem has]
    exact Function.update_self ..
  have hn₁ : M₁.node node = some ⟨0, item⟩ := by
    rw [hnodes₁ node (h.freshs (by norm_num))]
    simp [Mb, Function.update_of_ne (Ne.symm hlastn)]
  have hother : ∀ a ∈ nodes, a ≠ r.last → M₁.node a = M.node a := by
    intro a ha hal
    have han : a ≠ node := fun heq => h.fresh.1 (heq ▸ ha)
    rw [hnodes₁ a fun has => h.apart ha has]
    simp [Mb, Function.update_of_ne hal, Function.update_of_ne han]
  by_cases hm : malloc = 0
  · subst hm
    have hloop : loop (addRound G.ready item node) 9 (.setLast, ⟨M₁, .ready, false⟩) =
        some (.returned noError, ⟨M₁.setQueue G.ready
          { r with last := node, size := addInt r.size 1 }, .ready, false⟩) := by
      simp [loop, addRound, addStatement, hr₁]
    rw [queueAdd_refused (Or.inr rfl), Option.bind_some] at hrun
    have hchained : Chained (M₁.setQueue G.ready { r with last := node, size := addInt r.size 1 })
        { r with last := node, size := addInt r.size 1 } (nodes ++ [node]) (old ++ [item]) :=
      h.chained.append hne hl hnode hn₁ hl₁ hother rfl rfl
    exact not_losesNoTask_of_missing (hrun.trans hloop) (Function.update_self ..) hchained
      (Or.inr h.manager_missing)
  · let M₂ := (M₁.setNode malloc ⟨0, manager⟩).setNode r.last { l with next := malloc }
    rw [queueAdd_of_size_ne_zero hr₁ h.pointers.1 h.awoken.1 hm hsize hlastm hl₁,
      Option.bind_some] at hrun
    let rf : QueueT := { r with last := node, size := addInt (addInt r.size 1) 1 }
    have hloop : loop (addRound G.ready item node) 9 (.setLast, ⟨M₂.setQueue G.ready
        { r with last := malloc, size := addInt r.size 1 }, .ready, false⟩) =
        some (.returned noError, ⟨M₂.setQueue G.ready rf, .ready, false⟩) := by
      simp [loop, addRound, addStatement, rf]
    have hchained : Chained (M₂.setQueue G.ready rf) { r with last := malloc }
        (nodes ++ [malloc]) (old ++ [manager]) := by
      refine h.chained.append hne hl hm ?_ ?_ (fun a ha hal => ?_) rfl rfl
      · simp [M₂, Function.update_of_ne (Ne.symm hlastm)]
      · simp [M₂]
      · have ham : a ≠ malloc := fun heq => h.fresh.2.1 (heq ▸ ha)
        simp [M₂, Function.update_of_ne hal, Function.update_of_ne ham, hother a ha hal]
    refine not_losesNoTask (hrun.trans hloop) (Function.update_self ..) hchained.chain ?_
    rw [List.length_append, List.length_singleton, Nat.cast_add, ← h.size]
    exact addInt_twice_ne (h.size ▸ Int.natCast_nonneg _) h.bound

/-- No node for the insertion: it returns before it writes anything. -/
theorem Situation.nodeRefused
    (h : Situation G M r rs nodes nodess old waiting item manager 0 malloc n) :
    ¬ LosesNoTask G old item manager (addUnderDiskSignal G item manager 0 malloc n M) := by
  by_cases hn : n ≤ 3
  · obtain ⟨point, hrounds, hpoint⟩ : ∃ point,
        rounds (addRound G.ready item 0) n (.check, ⟨M, .suspended, false⟩) =
          some (point, ⟨M, .suspended, false⟩) ∧
        point ∈ [.check, .allocate, .checkNode, .returned error] := by
      interval_cases n <;>
        simp [rounds, addRound, addStatement, h.pointers.1, h.inserted.1]
    have hloop : ∀ S, loop (addRound G.ready item 0) 9 (point, S) =
        some (.returned error, S) := by
      intro S
      simp only [List.mem_cons, List.not_mem_nil, or_false] at hpoint
      rcases hpoint with rfl | rfl | rfl | rfl <;>
        simp [loop, addRound, addStatement, h.pointers.1, h.inserted.1]
    obtain ⟨M₁, hr₁, hnodes₁, hrun⟩ :=
      h.handled hrounds (writes_self h.ready) (List.disjoint_nil_left nodess)
    have hchained₁ : Chained M₁ r nodes old :=
      h.chained.congr fun a ha => hnodes₁ a fun has => h.apart ha has
    by_cases hm : malloc = 0
    · subst hm
      rw [queueAdd_refused (Or.inr rfl)] at hrun
      exact not_losesNoTask_of_missing (hrun.trans (hloop _)) hr₁ hchained₁
        (Or.inl h.inserted.2)
    · obtain ⟨M₂, r₂, hadd, hw₂, hchained₂, -⟩ := hchained₁.queueAdd hr₁ h.pointers.1
        h.awoken.1 hm h.fresh.2.1 h.size_eq_zero
      have hr₂ : M₂.queue G.ready = some r₂ := by rw [hw₂.queue, Function.update_self]
      rw [hadd] at hrun
      refine not_losesNoTask_of_missing (hrun.trans (hloop _)) hr₂ hchained₂ (Or.inl ?_)
      rw [List.mem_append, List.mem_singleton, not_or]
      exact ⟨h.inserted.2, h.other⟩
  · obtain ⟨k, rfl⟩ := Nat.exists_eq_add_of_le (by omega : 4 ≤ n)
    have hrounds : rounds (addRound G.ready item 0) (4 + k) (.check, ⟨M, .suspended, false⟩) =
        none := by
      rw [Nat.add_comm]
      simp [rounds, addRound, addStatement, h.pointers.1, h.inserted.1]
    rintro ⟨code, S, xs, hrun, -⟩
    simp [addUnderDiskSignal, interruptedAdd, hrounds] at hrun

/-- **A queue that is interrupted while it is written.**  No task is lost exactly when both
nodes are there, the count fits an `int`, and the interrupt does not fall between the test
of the size and the last store that depends on it: nowhere behind it where the queue was
empty, and not between the two stores of the last pointer where it was not. -/
theorem insertion_loses_no_task_iff
    (h : Situation G M r rs nodes nodess old waiting item manager node malloc n) :
    LosesNoTask G old item manager (addUnderDiskSignal G item manager node malloc n M) ↔
      node ≠ 0 ∧ malloc ≠ 0 ∧ r.size + 2 < 2 ^ 31 ∧
        if old = [] then n ≤ 4 ∨ n = 8 else n ≠ 6 := by
  have hold : old = [] ↔ nodes = [] := by
    rw [← List.length_eq_zero_iff, ← h.chained.length, List.length_eq_zero_iff]
  by_cases hnode : node = 0
  · subst hnode
    exact iff_of_false h.nodeRefused fun hand => hand.1 rfl
  have hpoint := h.point
  rcases (by omega : n ≤ 4 ∨ n = 5 ∨ n = 6 ∨ n = 7 ∨ n = 8) with hn | rfl | rfl | hn
  · rw [h.early hnode (Or.inl hn)]
    have hgood : if old = [] then n ≤ 4 ∨ n = 8 else n ≠ 6 := by
      split
      · exact Or.inl hn
      · omega
    exact ⟨fun hand => ⟨hnode, hand.1, hand.2, hgood⟩, fun hand => ⟨hand.2.1, hand.2.2.1⟩⟩
  · by_cases hempty : nodes = [] ∧ malloc ≠ 0
    · obtain ⟨rfl, hm⟩ := hempty
      refine iff_of_false (h.emptySeen hnode hm) ?_
      simp [hold]
    · rw [h.early hnode (Or.inr ⟨rfl, by tauto⟩)]
      by_cases hne : nodes = []
      · have hm : malloc = 0 := by_contra fun hm => hempty ⟨hne, hm⟩
        simp [hm]
      · simp [hold, hne, hnode]
  · by_cases hne : nodes = []
    · rw [h.late hnode (Or.inl ⟨rfl, hne⟩)]
      simp [hold, hne]
    · refine iff_of_false (h.between hnode hne) ?_
      simp [hold, hne]
  · rw [h.late hnode (Or.inr hn)]
    rcases hn with rfl | rfl <;> by_cases hne : nodes = [] <;> simp [hold, hne, hnode]

end Interrupted

/-- `ready_queue` with the task 7, and `suspended_queue` with the disk manager 9. -/
def oneReady : QueueMemory :=
  ((((QueueMemory.empty.setQueue 10 ⟨100, 100, 100, 1⟩).setNode 100 ⟨0, 7⟩).setQueue 20
    ⟨200, 200, 200, 1⟩).setNode 200 ⟨0, 9⟩)

theorem oneReady_situation (n : Nat) (hn : n ≤ 8) :
    Situation ⟨10, 20, 30⟩ oneReady ⟨100, 100, 100, 1⟩ ⟨200, 200, 200, 1⟩ [100] [200] [7] [9]
      8 9 101 102 n where
  pointers := by decide
  ready := rfl
  chained := ⟨⟨rfl, by decide, 0, rfl, rfl⟩, rfl, rfl⟩
  size := rfl
  bound := by decide
  suspended := rfl
  chaineds := ⟨⟨rfl, by decide, 0, rfl, rfl⟩, rfl, rfl⟩
  sizes := rfl
  apart := by simp
  nodup := by decide
  inserted := by decide
  awoken := by decide
  other := by decide
  fresh := by decide
  freshs := fun _ => by decide
  point := hn

/-- The task 8 is inserted, and the interrupt comes behind the last store. -/
theorem insertion_loses_no_task_iff_seven :
    LosesNoTask ⟨10, 20, 30⟩ [7] 8 9 (addUnderDiskSignal ⟨10, 20, 30⟩ 8 9 101 102 7 oneReady) :=
  (insertion_loses_no_task_iff (oneReady_situation 7 (by decide))).mpr (by decide)

/-- The task 8 is inserted, and the interrupt comes between the stores to the last node and
to the pointer to it: the task is not in the chain, and is counted. -/
theorem insertion_loses_task_six :
    Situation ⟨10, 20, 30⟩ oneReady ⟨100, 100, 100, 1⟩ ⟨200, 200, 200, 1⟩ [100] [200] [7] [9]
        8 9 101 102 6 ∧
      ¬ LosesNoTask ⟨10, 20, 30⟩ [7] 8 9 (addUnderDiskSignal ⟨10, 20, 30⟩ 8 9 101 102 6 oneReady) :=
  ⟨oneReady_situation 6 (by decide),
    (oneReady_situation 6 (by decide)).between (by decide) (by decide)⟩

end PingPongOS
