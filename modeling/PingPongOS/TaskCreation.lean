import PingPongOS.Dispatcher
import PingPongOS.QueueCreation

/-!
# The steps of `task_create`

`task_create` takes a descriptor and a stack from the heap, has `ctx_create` set a context
up, and inserts the task into `ready_queue`.  Each of the four can fail.  The heap is the
ideal one of `mqueue_create`, and `ctx_create` is that of `ctx.s`, on registers of 64 bits.

What `ctx_create` and `queue_add` return is not looked at, but for a message: a task whose
entry is `NULL`, or for which there is no node, is returned all the same.
-/

namespace PingPongOS

/-! ## Contexts -/

/-- A register. -/
abbrev Word := BitVec 64

/-- `struct ctx_t`. -/
structure Ctx where
  rip : Word
  rsp : Word
  rbp : Word
  rdi : Word
  rsi : Word
  rax : Word
  rbx : Word
  rcx : Word
  rdx : Word
  r8 : Word
  r9 : Word
  r10 : Word
  r11 : Word
  r12 : Word
  r13 : Word
  r14 : Word
  r15 : Word
  stack : Word
  size : Word
  deriving DecidableEq

/-- `(struct ctx_t){0}`. -/
def Ctx.zero : Ctx := ⟨0, 0, 0, 0, 0, 0, 0, 0, 0, 0, 0, 0, 0, 0, 0, 0, 0, 0, 0⟩

/-- The registers of the CPU that `ctx_create` reads. -/
structure Registers where
  rdi : Word
  rsi : Word
  rdx : Word
  rcx : Word
  r8 : Word
  rax : Word
  rbx : Word
  rbp : Word
  r9 : Word
  r10 : Word
  r11 : Word
  r12 : Word
  r13 : Word
  r14 : Word
  r15 : Word
  deriving DecidableEq

/-- `ctx_create`: `ctx` is in `rdi`, `entry` in `rsi`, `arg` in `rdx`, `stack` in `rcx` and
`size` in `r8`; the context is the one that `ctx` points to. -/
def ctxCreate (cpu : Registers) (ctx : Ctx) : Int × Ctx :=
  if cpu.rdi = 0 then (error, ctx)
  else if cpu.rsi = 0 then (error, ctx)
  else if cpu.rcx = 0 then (error, ctx)
  else if cpu.rcx &&& 0x0F ≠ 0 then (error, ctx)
  -- jl compares signed numbers
  else if cpu.r8.slt 0x1000 then (error, ctx)
  else
    let top := cpu.rcx + cpu.r8 - 0x10
    (noError,
      { rip := cpu.rsi
        rsp := top - 0x8
        rbp := top
        rdi := cpu.rdx
        rsi := cpu.rsi
        rax := cpu.rax
        rbx := cpu.rbx
        rcx := cpu.rcx
        rdx := cpu.rdx
        r8 := cpu.r8
        r9 := cpu.r9
        r10 := cpu.r10
        r11 := cpu.r11
        r12 := cpu.r12
        r13 := cpu.r13
        r14 := cpu.r14
        r15 := cpu.r15
        stack := cpu.rcx
        size := cpu.r8 })

/-- The context runs `entry` on the stack at `stack` of `size` bytes. -/
structure ContextSet (c : Ctx) (entry stack size : Word) : Prop where
  rip : c.rip = entry ∧ entry ≠ 0
  area : c.stack = stack ∧ stack ≠ 0 ∧ c.size = size
  top : c.rbp = stack + size - 0x10 ∧ c.rsp = c.rbp - 0x8

/-- What `ctx_create` checks of its arguments. -/
structure CtxArguments (cpu : Registers) : Prop where
  ctx : cpu.rdi ≠ 0
  entry : cpu.rsi ≠ 0
  stack : cpu.rcx ≠ 0
  aligned : cpu.rcx &&& 0x0F = 0
  size : cpu.r8.slt 0x1000 = false

variable {cpu : Registers} {ctx : Ctx}

/-- **`ctx_create`** sets the context, or leaves it alone. -/
theorem ctxCreate_spec (cpu : Registers) (ctx : Ctx) :
    CtxArguments cpu ∧ (ctxCreate cpu ctx).1 = noError ∧
        ContextSet (ctxCreate cpu ctx).2 cpu.rsi cpu.rcx cpu.r8 ∧
        (ctxCreate cpu ctx).2.rdi = cpu.rdx ∨
      ¬ CtxArguments cpu ∧ ctxCreate cpu ctx = (error, ctx) := by
  unfold ctxCreate
  split
  · rename_i hctx
    exact Or.inr ⟨fun h => h.ctx hctx, rfl⟩
  · rename_i hctx
    split
    · rename_i hentry
      exact Or.inr ⟨fun h => h.entry hentry, rfl⟩
    · rename_i hentry
      split
      · rename_i hstack
        exact Or.inr ⟨fun h => h.stack hstack, rfl⟩
      · rename_i hstack
        split
        · rename_i haligned
          exact Or.inr ⟨fun h => haligned h.aligned, rfl⟩
        · rename_i haligned
          split
          · rename_i hsize
            exact Or.inr ⟨fun h => absurd (hsize.symm.trans h.size) (by decide), rfl⟩
          · rename_i hsize
            refine Or.inl ⟨⟨hctx, hentry, hstack, not_not.mp haligned, ?_⟩, rfl, ?_, rfl⟩
            · exact Bool.eq_false_iff.mpr hsize
            · exact ⟨⟨rfl, hentry⟩, ⟨rfl, hstack, rfl⟩, rfl, rfl⟩

/-! ## `task_create` -/

/-- `struct task_t`, with what the other models of tasks leave out. -/
structure TaskT extends Tcb where
  name : Nat
  context : Ctx

/-- `sizeof(struct task_t)`. -/
def sizeofTask : Int := 240

/-- `TASK_STACK_SIZE`. -/
def taskStackSize : Nat := 4 * 1024

/-- What `task_create` reads and writes: descriptors are at addresses, and `ready_queue` is
`NULL` until `dispatcher_init`. -/
structure TaskMemory where
  task : Nat → TaskT
  currentTaskId : Nat
  currentActiveTask : Nat
  clock : Int
  readyQueue : Option (Queue Nat)
  avail : Int

/-- What its allocations return: the descriptor and the stack, and whether there is a node
for `queue_add`. -/
structure TaskGrants where
  descriptor : Nat
  stack : Word
  node : Bool

/-- `queue_add` through a pointer to the queue, with the result of its `malloc`. -/
def queueAddAt (granted : Bool) (queue : Option (Queue Nat)) (item : Nat) :
    Int × Option (Queue Nat) :=
  match queue with
  | none => (error, none)
  | some q =>
      if item = 0 then (error, some q)
      else if granted then (noError, some (queueAdd q item))
      else (error, some q)

/-- `task_create`: the pointer it returns, and the memory after it.  `newContext` is the
address of its variable, and `cpu` has the registers that are no arguments of
`ctx_create`. -/
def taskCreateIn (cost : Int → Int) (a : TaskGrants) (cpu : Registers)
    (newContext : { w : Word // w ≠ 0 }) (name : Nat) (entry arg : Word) (M : TaskMemory) :
    Nat × TaskMemory :=
  let d := idealAlloc cost (a.descriptor ≠ 0) sizeofTask M.avail
  if d.1 then
    let s := idealAlloc cost (a.stack ≠ 0) taskStackSize d.2
    if s.1 then
      let c := ctxCreate { cpu with
        rdi := newContext
        rsi := entry
        rdx := arg
        rcx := a.stack
        r8 := BitVec.ofNat 64 taskStackSize } Ctx.zero
      let t : TaskT := { Tcb.zero with
        name := name
        id := M.currentTaskId + 1
        context := c.2
        status := .ready
        parent := some M.currentActiveTask
        creationTime := M.clock
        executionTime := 0 }
      -- an ERROR is only printed
      let q := queueAddAt a.node M.readyQueue a.descriptor
      (a.descriptor, { M with
        task := Function.update M.task a.descriptor t
        currentTaskId := M.currentTaskId + 1
        readyQueue := q.2
        avail := s.2 })
    else (0, { M with avail := idealFree cost sizeofTask s.2 })
  else (0, { M with avail := d.2 })

/-! ## All or nothing -/

/-- The task at `t` is the one that was asked for. -/
structure TaskCreated (M : TaskMemory) (entry stack : Word) (t : Nat) : Prop where
  pointer : t ≠ 0
  status : (M.task t).status = .ready
  last : ∃ q, M.readyQueue = some q ∧ q.items.getLast? = some t ∧ q.items.count t = 1
  context : ContextSet (M.task t).context entry stack (BitVec.ofNat 64 taskStackSize)

/-- **All or nothing**: what was asked for is returned, or `NULL` with the heap and the
queue as they were. -/
def TaskAllOrNothing (M : TaskMemory) (entry stack : Word) (r : Nat × TaskMemory) : Prop :=
  TaskCreated r.2 entry stack r.1 ∨
    r.1 = 0 ∧ r.2.readyQueue = M.readyQueue ∧ r.2.avail = M.avail

section

variable {cost : Int → Int} {a : TaskGrants} {newContext : { w : Word // w ≠ 0 }} {name : Nat}
  {entry arg : Word} {M : TaskMemory}

/-- The registers at the call of `ctx_create`. -/
def ctxCall (cpu : Registers) (newContext : { w : Word // w ≠ 0 }) (entry arg stack : Word) :
    Registers :=
  { cpu with
    rdi := newContext
    rsi := entry
    rdx := arg
    rcx := stack
    r8 := BitVec.ofNat 64 taskStackSize }

theorem stackSize_slt : (BitVec.ofNat 64 taskStackSize).slt 0x1000 = false := by decide

/-- What `task_create` passes to `ctx_create`. -/
theorem ctxArguments_iff (hstack : a.stack ≠ 0) :
    CtxArguments (ctxCall cpu newContext entry arg a.stack) ↔
      entry ≠ 0 ∧ a.stack &&& 0x0F = 0 :=
  ⟨fun h => ⟨h.entry, h.aligned⟩, fun h => ⟨newContext.2, h.1, hstack, h.2, stackSize_slt⟩⟩

/-- The descriptor that `task_create` fills in. -/
def newTask (cpu : Registers) (newContext : { w : Word // w ≠ 0 }) (name : Nat)
    (entry arg stack : Word) (M : TaskMemory) : TaskT :=
  { Tcb.zero with
    name := name
    id := M.currentTaskId + 1
    context := (ctxCreate (ctxCall cpu newContext entry arg stack) Ctx.zero).2
    parent := some M.currentActiveTask
    creationTime := M.clock }

/-- **`task_create`**, by what its two blocks are. -/
theorem taskCreateIn_eq :
    taskCreateIn cost a cpu newContext name entry arg M =
      if a.descriptor = 0 ∨ a.stack = 0 then (0, M)
      else (a.descriptor, { M with
        task := Function.update M.task a.descriptor
          (newTask cpu newContext name entry arg a.stack M)
        currentTaskId := M.currentTaskId + 1
        readyQueue := (queueAddAt a.node M.readyQueue a.descriptor).2
        avail := M.avail - cost sizeofTask - cost taskStackSize }) := by
  by_cases hd : a.descriptor = 0
  · rw [if_pos (Or.inl hd), taskCreateIn, idealAlloc_eq _ (by decide)]
    simp [hd]
  · have hda : idealAlloc cost (a.descriptor ≠ 0) sizeofTask M.avail =
        (true, M.avail - cost sizeofTask) := by
      rw [idealAlloc_eq _ (by decide), if_pos (decide_eq_true hd)]
    by_cases hs : a.stack = 0
    · have hsa : idealAlloc cost (a.stack ≠ 0) taskStackSize (M.avail - cost sizeofTask) =
          (false, M.avail - cost sizeofTask) := by
        rw [idealAlloc_eq _ (by decide), if_neg (by simpa using hs)]
      rw [if_pos (Or.inr hs), taskCreateIn]
      simp only [hda, hsa, if_true, Bool.false_eq_true, if_false, idealFree, Int.sub_add_cancel]
    · have hsa : idealAlloc cost (a.stack ≠ 0) taskStackSize (M.avail - cost sizeofTask) =
          (true, M.avail - cost sizeofTask - cost taskStackSize) := by
        rw [idealAlloc_eq _ (by decide), if_pos (decide_eq_true hs)]
      rw [if_neg (not_or.mpr ⟨hd, hs⟩), taskCreateIn]
      simp only [hda, hsa, if_true]
      rfl

/-- `queue_add` through the pointer appends, or leaves the queue alone. -/
theorem queueAddAt_eq (granted : Bool) (queue : Option (Queue Nat)) {t : Nat} (ht : t ≠ 0) :
    queueAddAt granted queue t =
      if granted ∧ queue.isSome then (noError, queue.map fun q => queueAdd q t)
      else (error, queue) := by
  cases queue with
  | none => simp [queueAddAt]
  | some q => cases granted <;> simp [queueAddAt, ht]

/-- **The new task is in `ready_queue`**, last and once, exactly where `queue_add` had a
node and a queue. -/
theorem queueAddAt_last (granted : Bool) {queue : Option (Queue Nat)} {t : Nat} (ht : t ≠ 0)
    (hfresh : ∀ q ∈ queue, t ∉ q.items) :
    (∃ q, (queueAddAt granted queue t).2 = some q ∧ q.items.getLast? = some t ∧
      q.items.count t = 1) ↔ granted ∧ queue.isSome := by
  rw [queueAddAt_eq granted queue ht]
  constructor
  · rintro ⟨q, hq, hlast, -⟩
    by_contra hno
    rw [if_neg hno] at hq
    exact hfresh q hq (List.mem_of_getLast? hlast)
  · intro hgo
    obtain ⟨q, hq⟩ := Option.isSome_iff_exists.mp hgo.2
    refine ⟨queueAdd q t, by rw [if_pos hgo, hq]; rfl, ?_, ?_⟩
    · rw [queueAdd_items, List.getLast?_concat]
    · rw [queueAdd_items, List.count_append, List.count_eq_zero.mpr (hfresh q hq),
        List.count_singleton_self]

end

/-- No task but the kernel, whose descriptor is at 16, and an empty `ready_queue`. -/
def TaskMemory.start : TaskMemory where
  task := fun _ => { Tcb.zero with name := 0, context := Ctx.zero }
  currentTaskId := 0
  currentActiveTask := 16
  clock := 0
  readyQueue := some queueCreate
  avail := 10000

/-- Every register is zero. -/
def Registers.zero : Registers := ⟨0, 0, 0, 0, 0, 0, 0, 0, 0, 0, 0, 0, 0, 0, 0⟩

/-- The items of a queue, at their addresses. -/
def Queue.place (place : Nat → Nat) (q : Queue Nat) : Queue Nat :=
  ⟨q.passed.map place, q.rest.map place⟩

theorem queueAdd_place (place : Nat → Nat) (q : Queue Nat) (t : Nat) :
    queueAdd (q.place place) (place t) = (queueAdd q t).place place := by
  obtain ⟨passed, rest⟩ := q
  cases passed <;> cases rest <;> simp [queueAdd, Queue.place]

/-- The memory holds the tasks of `S`, the task `n` at the address `place n`. -/
structure Placed (place : Nat → Nat) (M : TaskMemory) (S : TaskSystem) : Prop where
  task : ∀ n ≤ S.currentTaskId, (M.task (place n)).toTcb =
    { S.task n with parent := (S.task n).parent.map place }
  currentTaskId : M.currentTaskId = S.currentTaskId
  currentActiveTask : M.currentActiveTask = place S.currentActiveTask
  clock : M.clock = S.clock
  readyQueue : M.readyQueue = some ((S.queue .ready).place place)

/-- The tasks that `S` names are there. -/
structure Named (S : TaskSystem) : Prop where
  active : S.currentActiveTask ≤ S.currentTaskId
  parent : ∀ n ≤ S.currentTaskId, ∀ t ∈ (S.task n).parent, t ≤ S.currentTaskId
  ready : ∀ t ∈ S.inQueue .ready, t ≤ S.currentTaskId

/-- A new address for a task that is not there yet. -/
theorem Queue.place_update {place : Nat → Nat} {q : Queue Nat} {m d : Nat}
    (hm : m ∉ q.items) : q.place (Function.update place m d) = q.place place := by
  have hmap : ∀ xs : List Nat, m ∉ xs → xs.map (Function.update place m d) = xs.map place :=
    fun xs hxs => List.map_congr_left fun x hx =>
      Function.update_of_ne (show x ≠ m from fun heq => hxs (heq ▸ hx)) _ _
  rw [Queue.items, List.mem_append, not_or] at hm
  rw [Queue.place, Queue.place, hmap _ hm.1, hmap _ hm.2]

/-- **The `task_create` of the other models** is this one where a node is granted: it is
given the descriptor and the stack, or not. -/
theorem taskCreateIn_refines {place : Nat → Nat} {M : TaskMemory} {S : TaskSystem}
    (h : Placed place M S) (hnamed : Named S) (cost : Int → Int) (a : TaskGrants)
    (cpu : Registers) (newContext : { w : Word // w ≠ 0 }) (name : Nat) (entry arg : Word)
    (hnode : a.node = true) (hfresh : ∀ n ≤ S.currentTaskId, place n ≠ a.descriptor) :
    let granted := decide (a.descriptor ≠ 0 ∧ a.stack ≠ 0)
    let r := taskCreateIn cost a cpu newContext name entry arg M
    let place' := if granted then Function.update place (S.currentTaskId + 1) a.descriptor
      else place
    r.1 = ((taskCreate S granted).1.map place').getD 0 ∧
      Placed place' r.2 (taskCreate S granted).2 := by
  rw [taskCreateIn_eq]
  by_cases hrefused : a.descriptor = 0 ∨ a.stack = 0
  · have hno : decide (a.descriptor ≠ 0 ∧ a.stack ≠ 0) = false := by
      rw [decide_eq_false_iff_not, not_and_or, not_not, not_not]
      exact hrefused
    rw [if_pos hrefused, hno]
    exact ⟨rfl, h⟩
  · have hyes : decide (a.descriptor ≠ 0 ∧ a.stack ≠ 0) = true :=
      decide_eq_true (not_or.mp hrefused)
    have hd : a.descriptor ≠ 0 := (not_or.mp hrefused).1
    rw [if_neg hrefused, hyes]
    have hold : ∀ n ≤ S.currentTaskId,
        Function.update place (S.currentTaskId + 1) a.descriptor n = place n :=
      fun n hn => Function.update_of_ne (by omega) _ _
    refine ⟨(Function.update_self (S.currentTaskId + 1) a.descriptor place).symm,
      fun n hn => ?_, congrArg (· + 1) h.currentTaskId, ?_, h.clock, ?_⟩
    · rcases (by simpa [taskCreate] using hn : n ≤ S.currentTaskId + 1).eq_or_lt with rfl | hlt
      · simp [taskCreate, newTask, hold _ hnamed.active, h.currentTaskId, h.currentActiveTask,
          h.clock, Tcb.zero]
      · have hn' : n ≤ S.currentTaskId := Nat.lt_succ_iff.mp hlt
        have hparent : (S.task n).parent.map (Function.update place (S.currentTaskId + 1)
            a.descriptor) = (S.task n).parent.map place :=
          Option.map_congr fun t ht => hold t (hnamed.parent n hn' t ht)
        have hne : n ≠ S.currentTaskId + 1 := Nat.ne_of_lt hlt
        simp [taskCreate, hold n hn', Function.update_of_ne (hfresh n hn'),
          Function.update_of_ne hne, hparent, h.task n hn']
    · exact h.currentActiveTask.trans (hold _ hnamed.active).symm
    · have hout : S.currentTaskId + 1 ∉ (S.queue .ready).items := fun hmem =>
        absurd (hnamed.ready _ hmem) (by omega)
      have hadd := queueAdd_place (Function.update place (S.currentTaskId + 1) a.descriptor)
        (S.queue .ready) (S.currentTaskId + 1)
      rw [Queue.place_update hout, Function.update_self] at hadd
      simp [queueAddAt_eq _ _ hd, hnode, h.readyQueue, taskCreate, hadd]

end PingPongOS
