import PingPongOS.ContextCode
import PingPongOS.Paths

/-!
# One CPU for every task

Each task is to find the CPU as it left it, whatever the others did with it in between.  The
machine here has one CPU and one memory of bytes; `task_switch` calls the code of `ctx_swap`.
A task may change any register, and any byte outside the structs and the stacks of others.

The view of a task is what it has of the machine: its registers, the address it runs at, and
its stack but for the slot below its stack pointer.  In the views, no step but its own touches
a task, and to the task that leaves the CPU a switch is a call that returns.
-/

namespace PingPongOS

open X86 ByteMemory Runs

/-- Where the contexts and the stacks of the tasks are. -/
structure Placement (T : Type) where
  ctx : T → Word
  stack : T → Word
  size : T → Nat
  ctx_ne_zero : ∀ t, ctx t ≠ 0
  ctx_apart : ∀ t u, t ≠ u → Disjoint (area (ctx t) sizeofCtx) (area (ctx u) sizeofCtx)
  stack_apart : ∀ t u, t ≠ u → Disjoint (area (stack t) (size t)) (area (stack u) (size u))
  apart : ∀ t u, Disjoint (area (ctx t) sizeofCtx) (area (stack u) (size u))

/-- The CPU with the address it runs at, and the task that has it. -/
structure Machine (T : Type) where
  cpu : Cpu
  rip : Word
  currentActiveTask : T
  created : T → Bool

inductive MachineEvent (T : Type)
  /-- the task that has the CPU computes -/
  | compute
  /-- it calls `task_switch`, with a task -/
  | taskSwitch (t : T)
  /-- it copies the context that `ctx_create` has set up -/
  | taskCreate (t : T) (args : Registers)

variable {T : Type} (P : Placement T)

/-- The CPU at the call of `ctx_swap` in `task_switch`. -/
def Machine.swapCall (s : Machine T) (t : T) : Cpu :=
  (s.cpu.setReg .rdi (P.ctx s.currentActiveTask)).setReg .rsi (P.ctx t)

/-- The context of a new task. -/
def Machine.setContext [DecidableEq T] (s : Machine T) (t : T) (k : Ctx) : Machine T :=
  { s with
    cpu := { s.cpu with memory := writeFields s.cpu.memory (P.ctx t) (ctxWords k) }
    created := Function.update s.created t true }

/-- The arguments of `ctx_create` for the context of `t`. -/
structure CreateFor (t : T) (args : Registers) : Prop where
  arguments : CtxArguments args
  stack : args.rcx = P.stack t
  size : args.r8 = BitVec.ofNat 64 (P.size t)
  whole : P.size t < 2 ^ 64

/-- Every task that waits for the CPU has a slot below its stack pointer. -/
def Machine.Ready (s : Machine T) : Prop :=
  ∀ t, s.created t = true → t ≠ s.currentActiveTask →
    area ((ctxAt s.cpu.memory (P.ctx t)).rsp - 8) 8 ⊆ area (P.stack t) (P.size t)

/-! ## Views -/

/-- What a task has of the machine. -/
structure TaskView where
  reg : Reg → Word
  rip : Word
  stack : Word → BitVec 8

/-- The live bytes of a stack: those of its area outside the slot below the stack pointer. -/
def liveStack (m : Memory 64) (stack : Word) (size : Nat) (rsp : Word) (x : Word) : BitVec 8 :=
  if x ∈ area stack size ∧ x ∉ area (rsp - 8) 8 then m x else 0

/-- The view of the task that has the CPU. -/
def Machine.running (s : Machine T) : TaskView where
  reg := s.cpu.reg
  rip := s.rip
  stack := liveStack s.cpu.memory (P.stack s.currentActiveTask) (P.size s.currentActiveTask)
    (s.cpu.reg .rsp)

/-- The view of a task whose context is saved in memory. -/
def parked (m : Memory 64) (t : T) : TaskView where
  reg := Function.update (ctxAt m (P.ctx t)).reg .rax 0
  rip := (ctxAt m (P.ctx t)).rip
  stack := liveStack m (P.stack t) (P.size t) (ctxAt m (P.ctx t)).rsp

/-- The view of a task that calls `ctx_swap`, when it is about to go on: `rax` has what the
call returns. -/
def TaskView.returned (v : TaskView) (ctx₁ ctx₂ : Word) (rax : Word) : TaskView :=
  { v with
    reg := Function.update (Function.update (Function.update v.reg .rdi ctx₁) .rsi ctx₂) .rax rax }

/-- The view of a task that has not run is that of a call of its entry, with the argument. -/
structure TaskView.Starts (v : TaskView) (args : Registers) : Prop where
  rip : v.rip = args.rsi
  arg : v.reg .rdi = args.rdx
  rsp : v.reg .rsp = args.rcx + args.r8 - 0x10 - 0x8
  rbp : v.reg .rbp = args.rcx + args.r8 - 0x10

section

variable {P} {s : Machine T} {t : T} {m m' : Memory 64} {args : Registers}

theorem liveStack_congr {stack rsp : Word} {size : Nat}
    (h : ∀ x ∈ area stack size, x ∉ area (rsp - 8) 8 → m' x = m x) :
    liveStack m' stack size rsp = liveStack m stack size rsp := by
  funext x
  unfold liveStack
  by_cases hx : x ∈ area stack size ∧ x ∉ area (rsp - 8) 8
  · rw [if_pos hx, if_pos hx, h x hx.1 hx.2]
  · rw [if_neg hx, if_neg hx]

/-- A parked task's view depends on its struct and on its live stack. -/
theorem parked_congr (hctx : ∀ x ∈ area (P.ctx t) sizeofCtx, m' x = m x)
    (hstack : ∀ x ∈ area (P.stack t) (P.size t), x ∉ area ((ctxAt m (P.ctx t)).rsp - 8) 8 →
      m' x = m x) : parked P m' t = parked P m t := by
  have hsame : ctxAt m' (P.ctx t) = ctxAt m (P.ctx t) := ctxAt_congr hctx
  rw [parked, parked, hsame, liveStack_congr hstack]

/-- The areas that a call of `ctx_swap` in `task_switch` uses are apart. -/
theorem swapCall_apart (hs : s.Ready P) (hcreated : s.created t = true)
    (hroom : area (s.cpu.reg .rsp - 8) 8 ⊆
      area (P.stack s.currentActiveTask) (P.size s.currentActiveTask)) :
    SwapApart (s.swapCall P t) where
  structs _ _ hne := P.ctx_apart _ _ fun heq => hne (congrArg P.ctx heq)
  back₁ _ := (P.apart _ _).mono_right hroom
  back₂ _ := (P.apart _ _).mono_right hroom
  slot₁ _ _ hne := (P.apart _ t).mono_right (hs t hcreated fun heq => hne (congrArg P.ctx heq.symm))
  slot₂ _ hne := (P.apart _ t).mono_right (hs t hcreated fun heq => hne (congrArg P.ctx heq.symm))

/-- What a call of `ctx_swap` in `task_switch` does. -/
theorem swapCall_spec (hs : s.Ready P) (hcreated : s.created t = true)
    (hroom : area (s.cpu.reg .rsp - 8) 8 ⊆
      area (P.stack s.currentActiveTask) (P.size s.currentActiveTask)) {r : Word} {c : Cpu}
    (hcall : call ctxListing .ctxSwap s.rip (s.swapCall P t) = some (r, c)) :
    SwapSpec (s.swapCall P t) s.rip r c := by
  obtain ⟨r', c', hcall', hspec⟩ := ctxSwap_spec _ s.rip (swapCall_apart hs hcreated hroom)
  obtain ⟨rfl, rfl⟩ := Prod.mk.inj (Option.some.inj (hcall'.symm.trans hcall))
  exact hspec

/-- A context that was set up starts its entry. -/
theorem CreateFor.starts (hargs : CreateFor P t args)
    (hctx : ctxAt m (P.ctx t) = (ctxCreate args Ctx.zero).2) : (parked P m t).Starts args := by
  rcases ctxCreate_spec args Ctx.zero with ⟨-, -, hset, hrdi⟩ | ⟨hfails, -⟩
  · generalize ctxCreate args Ctx.zero = k at *
    refine ⟨?_, ?_, ?_, ?_⟩
    · rw [parked, hctx]
      exact hset.rip.1
    · rw [parked, hctx]
      exact hrdi
    · rw [parked, hctx]
      exact hset.top.2.trans (congrArg (· - 0x8) hset.top.1)
    · rw [parked, hctx]
      exact hset.top.1
  · exact absurd hargs.arguments hfails

/-- The check of the size, on a number of bytes. -/
theorem le_of_slt {n : Nat} (hn : n < 2 ^ 64) (h : (BitVec.ofNat 64 n).slt 0x1000 = false) :
    0x1000 ≤ n := by
  rw [BitVec.slt_eq_decide, decide_eq_false_iff_not, not_lt] at h
  have hle : (BitVec.ofNat 64 n).toInt ≤ (BitVec.ofNat 64 n).toNat := by
    rw [BitVec.toInt_eq_toNat_cond]
    split <;> omega
  rw [BitVec.toNat_ofNat, Nat.mod_eq_of_lt hn] at hle
  exact Int.ofNat_le.mp (le_trans h hle)

/-- There is room below the stack pointer of a context that was set up. -/
theorem CreateFor.room (hargs : CreateFor P t args)
    (hctx : ctxAt m (P.ctx t) = (ctxCreate args Ctx.zero).2) :
    area ((ctxAt m (P.ctx t)).rsp - 8) 8 ⊆ area (P.stack t) (P.size t) := by
  have hwhole := hargs.whole
  have hlarge : 0x1000 ≤ P.size t := by
    refine le_of_slt hwhole ?_
    rw [← hargs.size]
    exact hargs.arguments.size
  have hrsp : (ctxAt m (P.ctx t)).rsp = args.rcx + args.r8 - 0x10 - 0x8 :=
    (hargs.starts hctx).rsp
  have hsize : BitVec.ofNat 64 (P.size t) = BitVec.ofNat 64 (P.size t - 32) + (32 : Word) := by
    change _ = _ + BitVec.ofNat 64 32
    rw [← BitVec.ofNat_add, Nat.sub_add_cancel (by omega)]
  have hslot : (ctxAt m (P.ctx t)).rsp - 8 = P.stack t + BitVec.ofNat 64 (P.size t - 32) := by
    rw [hrsp, hargs.stack, hargs.size, hsize]
    ring
  rw [hslot]
  exact area_subset (by omega) (le_of_lt hwhole)

/-- Two tasks have two contexts. -/
theorem Placement.ctx_ne {u : T} (h : t ≠ u) : P.ctx t ≠ P.ctx u := by
  intro heq
  have hmem : P.ctx u ∈ area (P.ctx u) sizeofCtx := by
    rw [mem_area, BitVec.sub_self]
    decide
  exact Set.disjoint_left.mp (P.ctx_apart t u h) (heq ▸ hmem) hmem

section Switch

variable {r : Word} {c : Cpu} (hs : s.Ready P) (hcreated : s.created t = true)
  (hroom : area (s.cpu.reg .rsp - 8) 8 ⊆
    area (P.stack s.currentActiveTask) (P.size s.currentActiveTask))
  (h : SwapSpec (s.swapCall P t) s.rip r c)

include h

/-- The bytes that a switch leaves alone. -/
theorem switch_frame {x : Word} (hctx : x ∉ area (P.ctx s.currentActiveTask) sizeofCtx)
    (hback : x ∉ area (s.cpu.reg .rsp - 8) 8)
    (hslot : t ≠ s.currentActiveTask → x ∉ area ((ctxAt s.cpu.memory (P.ctx t)).rsp - 8) 8) :
    c.memory x = s.cpu.memory x := by
  by_cases ht : t = s.currentActiveTask
  · have hsame := (h.same (congrArg P.ctx ht.symm)).2.2
    exact (congrFun hsame x).trans (storeWord_of_notMem hback)
  · exact h.others x (fun _ => hctx) hback fun _ => hslot ht

include hs hcreated hroom in
/-- A switch leaves the struct and the stack of every other task alone. -/
theorem switch_other {u : T} (hu : u ≠ s.currentActiveTask) (hut : u ≠ t) :
    ctxAt c.memory (P.ctx u) = ctxAt s.cpu.memory (P.ctx u) ∧
      parked P c.memory u = parked P s.cpu.memory u := by
  have hctx : ∀ x ∈ area (P.ctx u) sizeofCtx, c.memory x = s.cpu.memory x := fun x hx =>
    switch_frame h (Set.disjoint_left.mp (P.ctx_apart u _ hu) hx)
      (fun hx' => Set.disjoint_left.mp (P.apart u _) hx (hroom hx'))
      fun ht hx' => Set.disjoint_left.mp (P.apart u t) hx (hs t hcreated ht hx')
  have hstack : ∀ x ∈ area (P.stack u) (P.size u), c.memory x = s.cpu.memory x := fun x hx =>
    switch_frame h (Set.disjoint_right.mp (P.apart _ u) hx)
      (fun hx' => Set.disjoint_left.mp (P.stack_apart u _ hu) hx (hroom hx'))
      fun ht hx' => Set.disjoint_left.mp (P.stack_apart u t hut) hx (hs t hcreated ht hx')
  exact ⟨ctxAt_congr hctx, parked_congr hctx fun x hx _ => hstack x hx⟩

include hs hcreated in
/-- The task that leaves the CPU is parked at the return of its call. -/
theorem switch_leaves (ht : t ≠ s.currentActiveTask) :
    (ctxAt c.memory (P.ctx s.currentActiveTask)).rsp = s.cpu.reg .rsp ∧
      parked P c.memory s.currentActiveTask =
        (s.running P).returned (P.ctx s.currentActiveTask) (P.ctx t) 0 := by
  have hsaved := h.saved (P.ctx_ne ht.symm) (P.ctx_ne_zero _)
  change ctxAt c.memory (P.ctx s.currentActiveTask) = _ at hsaved
  refine ⟨congrArg Ctx.rsp hsaved, ?_⟩
  have hlive : liveStack c.memory (P.stack s.currentActiveTask) (P.size s.currentActiveTask)
      (s.cpu.reg .rsp) = liveStack s.cpu.memory (P.stack s.currentActiveTask)
        (P.size s.currentActiveTask) (s.cpu.reg .rsp) := by
    refine liveStack_congr fun x hx hout =>
      switch_frame h (Set.disjoint_right.mp (P.apart _ _) hx) hout ?_
    exact fun _ hx' => Set.disjoint_left.mp (P.stack_apart _ t ht.symm) hx (hs t hcreated ht hx')
  rw [parked, hsaved, Ctx.reg_ofReg']
  exact congrArg (TaskView.mk _ _) hlive

include hroom in
/-- The task that is switched to gets its view. -/
theorem switch_enters (ht : t ≠ s.currentActiveTask) :
    (TaskView.mk c.reg r (liveStack c.memory (P.stack t) (P.size t) (c.reg .rsp))) =
      parked P s.cpu.memory t := by
  obtain ⟨hr, hreg, -⟩ := h.loaded (P.ctx_ne ht.symm) (P.ctx_ne_zero _)
  change r = (ctxAt s.cpu.memory (P.ctx t)).rip at hr
  change c.reg = Function.update (ctxAt s.cpu.memory (P.ctx t)).reg .rax 0 at hreg
  have hrsp : c.reg .rsp = (ctxAt s.cpu.memory (P.ctx t)).rsp := by
    rw [hreg]
    rfl
  have hlive : liveStack c.memory (P.stack t) (P.size t) (c.reg .rsp) =
      liveStack s.cpu.memory (P.stack t) (P.size t) (ctxAt s.cpu.memory (P.ctx t)).rsp := by
    rw [hrsp]
    refine liveStack_congr fun x hx hout =>
      switch_frame h (Set.disjoint_right.mp (P.apart _ t) hx) ?_ fun _ => hout
    exact fun hx' => Set.disjoint_left.mp (P.stack_apart t _ ht) hx (hroom hx')
  rw [hlive, hreg, hr, parked]

/-- A task that switches to itself gets an error. -/
theorem switch_self (ht : t = s.currentActiveTask) :
    (TaskView.mk c.reg r (liveStack c.memory (P.stack t) (P.size t) (c.reg .rsp))) =
      (s.running P).returned (P.ctx t) (P.ctx t) 0xFFFFFFFF := by
  subst ht
  obtain ⟨hr, hreg, -⟩ := h.same rfl
  have hrsp : c.reg .rsp = s.cpu.reg .rsp := by
    rw [hreg]
    rfl
  have hlive : liveStack c.memory (P.stack s.currentActiveTask) (P.size s.currentActiveTask)
      (c.reg .rsp) = liveStack s.cpu.memory (P.stack s.currentActiveTask)
        (P.size s.currentActiveTask) (s.cpu.reg .rsp) := by
    rw [hrsp]
    exact liveStack_congr fun x hx hout =>
      switch_frame h (Set.disjoint_right.mp (P.apart _ _) hx) hout
        fun hne => absurd rfl hne
  rw [hlive, hreg, hr]
  rfl

end Switch

end

/-! ## Steps -/

variable [DecidableEq T]

/-- A step of the machine. -/
inductive Machine.Step : Machine T → MachineEvent T → Machine T → Prop
  | compute {s : Machine T} (c : Cpu) (rip : Word)
      (hctx : ∀ t, ∀ x ∈ area (P.ctx t) sizeofCtx, c.memory x = s.cpu.memory x)
      (hstack : ∀ t, t ≠ s.currentActiveTask → ∀ x ∈ area (P.stack t) (P.size t),
        c.memory x = s.cpu.memory x) :
      Machine.Step s .compute { s with cpu := c, rip := rip }
  | taskSwitch {s : Machine T} {t : T} {c : Cpu} {r : Word} (hcreated : s.created t = true)
      (hroom : area (s.cpu.reg .rsp - 8) 8 ⊆
        area (P.stack s.currentActiveTask) (P.size s.currentActiveTask))
      (hcall : call ctxListing .ctxSwap s.rip (s.swapCall P t) = some (r, c)) :
      Machine.Step s (.taskSwitch t) { s with cpu := c, rip := r, currentActiveTask := t }
  | taskCreate {s : Machine T} {t : T} {args : Registers} (hother : t ≠ s.currentActiveTask)
      (hargs : CreateFor P t args) :
      Machine.Step s (.taskCreate t args) (s.setContext P t (ctxCreate args Ctx.zero).2)

def Machine.view (s : Machine T) (t : T) : TaskView :=
  if t = s.currentActiveTask then s.running P else parked P s.cpu.memory t

/-- Tasks with a CPU each, of which one runs. -/
structure Views (T : Type) where
  view : T → TaskView
  currentActiveTask : T
  created : T → Bool

/-- A step of tasks that have a CPU each. -/
inductive Views.Step : Views T → MachineEvent T → Views T → Prop
  | compute {v : Views T} (own : TaskView) :
      Views.Step v .compute { v with view := Function.update v.view v.currentActiveTask own }
  | taskSwitch {v : Views T} {t : T} (hcreated : v.created t = true)
      (hother : t ≠ v.currentActiveTask) :
      Views.Step v (.taskSwitch t)
        { v with
          view := Function.update v.view v.currentActiveTask
            ((v.view v.currentActiveTask).returned (P.ctx v.currentActiveTask) (P.ctx t) 0)
          currentActiveTask := t }
  | switchSelf {v : Views T} (hcreated : v.created v.currentActiveTask = true) :
      -- ctx_swap refuses to swap a context with itself
      Views.Step v (.taskSwitch v.currentActiveTask)
        { v with
          view := Function.update v.view v.currentActiveTask
            ((v.view v.currentActiveTask).returned (P.ctx v.currentActiveTask)
              (P.ctx v.currentActiveTask) 0xFFFFFFFF) }
  | taskCreate {v : Views T} {t : T} {args : Registers} (own : TaskView)
      (hother : t ≠ v.currentActiveTask) (hargs : CreateFor P t args) (hown : own.Starts args) :
      Views.Step v (.taskCreate t args)
        { v with
          view := Function.update v.view t own
          created := Function.update v.created t true }

/-- The views of a machine. -/
def Machine.views (s : Machine T) : Views T where
  view := s.view P
  currentActiveTask := s.currentActiveTask
  created := s.created

/-! ## The refinement -/

section

variable {P} {s s' : Machine T} {t : T} {m : Memory 64} {e : MachineEvent T}

theorem view_current : s.view P s.currentActiveTask = s.running P := if_pos rfl

theorem view_parked (h : t ≠ s.currentActiveTask) : s.view P t = parked P s.cpu.memory t := if_neg h

theorem views_eq {f : T → TaskView} (h : s.view P = f) :
    s.views P = ⟨f, s.currentActiveTask, s.created⟩ := by
  rw [Machine.views, h]

/-- The views after a step that leaves the CPU with its task. -/
theorem views_keep (hcurrent : s'.currentActiveTask = s.currentActiveTask)
    (hothers : ∀ t, t ≠ s.currentActiveTask → parked P s'.cpu.memory t = parked P s.cpu.memory t) :
    s'.view P = Function.update (s.view P) s.currentActiveTask (s'.running P) := by
  funext t
  by_cases ht : t = s.currentActiveTask
  · subst ht
    rw [Function.update_self, ← hcurrent, view_current]
  · rw [Function.update_of_ne ht, view_parked ht, view_parked (hcurrent ▸ ht), hothers t ht]

/-- A task computes: the other views stay. -/
theorem compute_refines (hs : s.Ready P) (c : Cpu) (rip : Word)
    (hctx : ∀ t, ∀ x ∈ area (P.ctx t) sizeofCtx, c.memory x = s.cpu.memory x)
    (hstack : ∀ t, t ≠ s.currentActiveTask → ∀ x ∈ area (P.stack t) (P.size t),
      c.memory x = s.cpu.memory x) :
    Machine.Ready P { s with cpu := c, rip := rip } ∧
      Views.Step P (s.views P) .compute (Machine.views P { s with cpu := c, rip := rip }) := by
  refine ⟨fun t hcreated ht => ?_, ?_⟩
  · rw [show ctxAt c.memory (P.ctx t) = ctxAt s.cpu.memory (P.ctx t) from ctxAt_congr (hctx t)]
    exact hs t hcreated ht
  · have hview : Machine.view P { s with cpu := c, rip := rip } =
        Function.update (s.view P) s.currentActiveTask
          (Machine.running P { s with cpu := c, rip := rip }) :=
      views_keep rfl fun t ht => parked_congr (hctx t) fun x hx _ => hstack t ht x hx
    rw [views_eq hview]
    exact .compute _

/-- The views after a step that changes the struct of one waiting task. -/
theorem views_set (hcurrent : s'.currentActiveTask = s.currentActiveTask)
    (hreg : s'.cpu.reg = s.cpu.reg) (hrip : s'.rip = s.rip) (hother : t ≠ s.currentActiveTask)
    (hmemory : ∀ x, x ∉ area (P.ctx t) sizeofCtx → s'.cpu.memory x = s.cpu.memory x) :
    s'.view P = Function.update (s.view P) t (parked P s'.cpu.memory t) := by
  have hctx : ∀ u, u ≠ t → ∀ x ∈ area (P.ctx u) sizeofCtx, s'.cpu.memory x = s.cpu.memory x :=
    fun u hu x hx => hmemory x (Set.disjoint_left.mp (P.ctx_apart u t hu) hx)
  have hstack : ∀ u, ∀ x ∈ area (P.stack u) (P.size u), s'.cpu.memory x = s.cpu.memory x :=
    fun u x hx => hmemory x (Set.disjoint_right.mp (P.apart t u) hx)
  funext u
  by_cases hut : u = t
  · subst hut
    rw [Function.update_self, view_parked (hcurrent ▸ hother)]
  · rw [Function.update_of_ne hut]
    by_cases hu : u = s.currentActiveTask
    · subst hu
      rw [view_current, ← hcurrent, view_current, Machine.running, Machine.running, hcurrent, hreg,
        hrip, liveStack_congr fun x hx _ => hstack _ x hx]
    · rw [view_parked hu, view_parked (hcurrent ▸ hu),
        parked_congr (hctx u hut) fun x hx _ => hstack u x hx]

/-- A context is set up: its task starts its entry. -/
theorem create_refines (hs : s.Ready P) {args : Registers} (hother : t ≠ s.currentActiveTask)
    (hargs : CreateFor P t args) :
    (s.setContext P t (ctxCreate args Ctx.zero).2).Ready P ∧
      Views.Step P (s.views P) (.taskCreate t args)
        ((s.setContext P t (ctxCreate args Ctx.zero).2).views P) := by
  obtain ⟨s', hs'⟩ : ∃ s', s' = s.setContext P t (ctxCreate args Ctx.zero).2 := ⟨_, rfl⟩
  have hm : s'.cpu.memory =
      writeFields s.cpu.memory (P.ctx t) (ctxWords (ctxCreate args Ctx.zero).2) := by rw [hs']; rfl
  have hctx : ctxAt s'.cpu.memory (P.ctx t) = (ctxCreate args Ctx.zero).2 := by
    rw [hm, ctxAt_ctxWords]
  have hmemory : ∀ x, x ∉ area (P.ctx t) sizeofCtx → s'.cpu.memory x = s.cpu.memory x :=
    fun x hx => by rw [hm, writeFields_of_notMem (ctxWords_inside _) (by decide) hx]
  have hcurrent : s'.currentActiveTask = s.currentActiveTask := by rw [hs']; rfl
  have hcreated : s'.created = Function.update s.created t true := by rw [hs']; rfl
  rw [← hs']
  refine ⟨fun u hu hne => ?_, ?_⟩
  · by_cases hut : u = t
    · exact hut ▸ hargs.room hctx
    · have hsame : ctxAt s'.cpu.memory (P.ctx u) = ctxAt s.cpu.memory (P.ctx u) :=
        ctxAt_congr fun x hx => hmemory x (Set.disjoint_left.mp (P.ctx_apart u t hut) hx)
      rw [hcreated, Function.update_of_ne hut] at hu
      rw [hsame]
      exact hs u hu (hcurrent ▸ hne)
  · have hview := views_set (P := P) hcurrent (by rw [hs']; rfl) (by rw [hs']; rfl) hother hmemory
    rw [views_eq hview, hcurrent, hcreated]
    exact .taskCreate _ hother hargs (hargs.starts hctx)

/-- A switch, to another task or to the same. -/
theorem switch_refines (hs : s.Ready P) {c : Cpu} {r : Word} (hcreated : s.created t = true)
    (hroom : area (s.cpu.reg .rsp - 8) 8 ⊆
      area (P.stack s.currentActiveTask) (P.size s.currentActiveTask))
    (hcall : call ctxListing .ctxSwap s.rip (s.swapCall P t) = some (r, c)) :
    Machine.Ready P { s with cpu := c, rip := r, currentActiveTask := t } ∧
      Views.Step P (s.views P) (.taskSwitch t)
        (Machine.views P { s with cpu := c, rip := r, currentActiveTask := t }) := by
  have h := swapCall_spec hs hcreated hroom hcall
  by_cases ht : t = s.currentActiveTask
  · subst ht
    have hothers : ∀ u, u ≠ s.currentActiveTask →
        ctxAt c.memory (P.ctx u) = ctxAt s.cpu.memory (P.ctx u) ∧
          parked P c.memory u = parked P s.cpu.memory u :=
      fun u hu => switch_other hs hcreated hroom h hu hu
    refine ⟨fun u hu hne => ?_, ?_⟩
    · rw [(hothers u hne).1]
      exact hs u hu hne
    · have hview : Machine.view P { s with cpu := c, rip := r } =
          Function.update (s.view P) s.currentActiveTask
            (Machine.running P { s with cpu := c, rip := r }) :=
        views_keep rfl fun u hu => (hothers u hu).2
      have hself := switch_self h rfl
      rw [← view_current] at hself
      rw [views_eq (hview.trans (congrArg _ hself))]
      exact .switchSelf hcreated
  · obtain ⟨hrsp, hleaves⟩ := switch_leaves hs hcreated h ht
    have henters := switch_enters hroom h ht
    refine ⟨fun u hu hne => ?_, ?_⟩
    · change area ((ctxAt c.memory (P.ctx u)).rsp - 8) 8 ⊆ _
      by_cases hcur : u = s.currentActiveTask
      · subst hcur
        rw [hrsp]
        exact hroom
      · rw [(switch_other hs hcreated hroom h hcur hne).1]
        exact hs u hu hcur
    · have hview : Machine.view P { s with cpu := c, rip := r, currentActiveTask := t } =
          Function.update (s.view P) s.currentActiveTask
            ((s.view P s.currentActiveTask).returned (P.ctx s.currentActiveTask) (P.ctx t) 0) := by
        funext u
        by_cases hcur : u = s.currentActiveTask
        · subst hcur
          rw [Function.update_self, view_parked (Ne.symm ht), view_current]
          exact hleaves
        · rw [Function.update_of_ne hcur, view_parked hcur]
          by_cases hut : u = t
          · subst hut
            exact view_current.trans henters
          · exact (view_parked hut).trans (switch_other hs hcreated hroom h hcur hut).2
      rw [views_eq hview]
      exact .taskSwitch hcreated ht

/-- **One step** of the machine is one of tasks with a CPU each. -/
theorem Machine.Step.refines (hs : s.Ready P) (h : Machine.Step P s e s') :
    s'.Ready P ∧ Views.Step P (s.views P) e (s'.views P) := by
  cases h with
  | compute c rip hctx hstack => exact compute_refines hs c rip hctx hstack
  | taskSwitch hcreated hroom hcall => exact switch_refines hs hcreated hroom hcall
  | taskCreate hother hargs => exact create_refines hs hother hargs

/-- `task_switch` gets through: `ctx_swap` returns. -/
theorem exists_switch (hs : s.Ready P) (hcreated : s.created t = true)
    (hroom : area (s.cpu.reg .rsp - 8) 8 ⊆
      area (P.stack s.currentActiveTask) (P.size s.currentActiveTask)) :
    ∃ s', Machine.Step P s (.taskSwitch t) s' := by
  obtain ⟨r, c, hcall, -⟩ := ctxSwap_spec _ s.rip (swapCall_apart hs hcreated hroom)
  exact ⟨_, .taskSwitch hcreated hroom hcall⟩

/-! ## Runs -/

/-- A task is neither switched to nor set up. -/
def Passes (t : T) (e : MachineEvent T) : Prop :=
  e ≠ .taskSwitch t ∧ ∀ args, e ≠ .taskCreate t args

/-- While it does not have the CPU, a task's view stays. -/
theorem Views.Step.keeps {v v' : Views T} (h : Views.Step P v e v')
    (hother : v.currentActiveTask ≠ t) (he : Passes t e) :
    v'.currentActiveTask ≠ t ∧ v'.view t = v.view t := by
  cases h with
  | compute own => exact ⟨hother, Function.update_of_ne hother.symm _ _⟩
  | taskSwitch hcreated hne =>
      exact ⟨fun heq => he.1 (heq ▸ rfl), Function.update_of_ne hother.symm _ _⟩
  | switchSelf hcreated => exact ⟨hother, Function.update_of_ne hother.symm _ _⟩
  | taskCreate own hne hargs hown =>
      refine ⟨hother, Function.update_of_ne ?_ _ _⟩
      rintro rfl
      exact he.2 _ rfl

/-- The task that is switched to has the CPU, with its view. -/
theorem Views.Step.enters {v v' : Views T} (h : Views.Step P v (.taskSwitch t) v')
    (hother : v.currentActiveTask ≠ t) :
    v'.currentActiveTask = t ∧ v'.view t = v.view t := by
  cases h with
  | taskSwitch hcreated hne => exact ⟨rfl, Function.update_of_ne hne _ _⟩
  | switchSelf hcreated => exact absurd rfl hother

/-- A stretch of a run in which a task waits for the CPU. -/
theorem path_keeps {es : List (MachineEvent T)} {w : TaskView} (hs : s.Ready P)
    (hother : s.currentActiveTask ≠ t) (hview : s.view P t = w)
    (hpath : Path (Machine.Step P) s es s') (hes : ∀ e ∈ es, Passes t e) :
    s'.Ready P ∧ s'.currentActiveTask ≠ t ∧ s'.view P t = w := by
  refine hpath.invariant (fun s => s.Ready P ∧ s.currentActiveTask ≠ t ∧ s.view P t = w)
    (fun s e s' hinv he hstep => ?_) ⟨hs, hother, hview⟩ hes
  obtain ⟨hready, hstep'⟩ := hstep.refines hinv.1
  obtain ⟨hne, hkept⟩ := hstep'.keeps hinv.2.1 he
  exact ⟨hready, hne, hkept.trans hinv.2.2⟩

/-- The end of the wait: the task has the CPU, with the view it had. -/
theorem path_enters {s₁ s₂ : Machine T} {es : List (MachineEvent T)} {w : TaskView}
    (hs : s.Ready P) (hother : s.currentActiveTask ≠ t) (hview : s.view P t = w)
    (hpath : Path (Machine.Step P) s es s₁) (hes : ∀ e ∈ es, Passes t e)
    (hback : Machine.Step P s₁ (.taskSwitch t) s₂) :
    s₂.currentActiveTask = t ∧ s₂.running P = w := by
  obtain ⟨hready, hne, hkept⟩ := path_keeps hs hother hview hpath hes
  obtain ⟨hcurrent, henters⟩ := (hback.refines hready).2.enters hne
  change s₂.currentActiveTask = t at hcurrent
  refine ⟨hcurrent, ?_⟩
  rw [← view_current, hcurrent]
  exact henters.trans hkept

/-- **A CPU each.**  Every run of the machine is one of tasks with a CPU each: what a task
has changes by its own steps alone once another has created it, and a switch is to it a call
that returns. -/
theorem views_simulated {es : List (MachineEvent T)} (hs : s.Ready P)
    (hpath : Path (Machine.Step P) s es s') :
    s'.Ready P ∧ Path (Views.Step P) (s.views P) es (s'.views P) :=
  hpath.simulation (Machine.views P) (Machine.Ready P) (fun _ _ _ hs h => h.refines hs) hs

/-- **`task_switch` returns where it was called.**  Whatever the others do until the task is
switched to again, it goes on after its call with its registers, but for those of the call,
and with its stack. -/
theorem task_switch_resumes {s₁ s₂ s₃ : Machine T} {u : T} {es : List (MachineEvent T)}
    (hs : s.Ready P) (hother : u ≠ s.currentActiveTask)
    (hleave : Machine.Step P s (.taskSwitch u) s₁) (hpath : Path (Machine.Step P) s₁ es s₂)
    (hes : ∀ e ∈ es, Passes s.currentActiveTask e)
    (hback : Machine.Step P s₂ (.taskSwitch s.currentActiveTask) s₃) :
    s₃.currentActiveTask = s.currentActiveTask ∧ s₃.rip = s.rip ∧
      (∀ q, q ≠ .rax → q ≠ .rdi → q ≠ .rsi → s₃.cpu.reg q = s.cpu.reg q) ∧
      s₃.cpu.reg .rax = 0 ∧
      ∀ x ∈ area (P.stack s.currentActiveTask) (P.size s.currentActiveTask),
        x ∉ area (s.cpu.reg .rsp - 8) 8 → s₃.cpu.memory x = s.cpu.memory x := by
  obtain ⟨hready, hstep⟩ := hleave.refines hs
  have hleft : s₁.currentActiveTask ≠ s.currentActiveTask ∧ s₁.view P s.currentActiveTask =
      (s.running P).returned (P.ctx s.currentActiveTask) (P.ctx u) 0 := by
    rw [← view_current]
    generalize hv : s₁.views P = v₁ at hstep
    cases hstep with
    | taskSwitch hcreated hne =>
        have hcurrent := congrArg Views.currentActiveTask hv
        have hview := congrFun (congrArg Views.view hv) s.currentActiveTask
        exact ⟨fun heq => hother (hcurrent.symm.trans heq), hview.trans (Function.update_self ..)⟩
    | switchSelf hcreated => exact absurd rfl hother
  obtain ⟨hcurrent, hrunning⟩ := path_enters hready hleft.1 hleft.2 hpath hes hback
  have hreg := congrArg TaskView.reg hrunning
  change s₃.cpu.reg = Function.update (Function.update (Function.update s.cpu.reg .rdi _) .rsi _)
    .rax 0 at hreg
  refine ⟨hcurrent, congrArg TaskView.rip hrunning, fun q hax hdi hsi => ?_, ?_,
    fun x hx hout => ?_⟩
  · rw [hreg, Function.update_of_ne hax, Function.update_of_ne hsi, Function.update_of_ne hdi]
  · rw [hreg, Function.update_self]
  · have hrsp : s₃.cpu.reg .rsp = s.cpu.reg .rsp := by
      rw [hreg]
      rfl
    have hlive := congrFun (congrArg TaskView.stack hrunning) x
    change liveStack _ _ _ _ x = liveStack _ _ _ _ x at hlive
    rwa [hcurrent, hrsp, liveStack, liveStack, if_pos ⟨hx, hout⟩, if_pos ⟨hx, hout⟩] at hlive

/-- The low four bits of a word. -/
theorem and_fifteen_eq_zero_iff (a : Word) : a &&& 0x0F = 0 ↔ a.toNat % 16 = 0 := by
  have hmod : (a &&& 0x0F).toNat = a.toNat % 16 := by
    rw [BitVec.toNat_and]
    exact Nat.and_two_pow_sub_one_eq_mod a.toNat 4
  rw [← hmod]
  exact ⟨fun h => congrArg BitVec.toNat h, fun h => BitVec.eq_of_toNat_eq h⟩

/-- **The first activation of a task.**  However long it waits after `task_create`, it starts
its entry, with its argument, at the top of its own stack; the stack pointer is aligned as at
any call, if the size of the stack is. -/
theorem task_create_enters {s₁ s₂ s₃ : Machine T} {args : Registers} {es : List (MachineEvent T)}
    (hs : s.Ready P) (hcreate : Machine.Step P s (.taskCreate t args) s₁)
    (hpath : Path (Machine.Step P) s₁ es s₂) (hes : ∀ e ∈ es, Passes t e)
    (henter : Machine.Step P s₂ (.taskSwitch t) s₃) :
    s₃.currentActiveTask = t ∧ s₃.rip = args.rsi ∧ s₃.cpu.reg .rdi = args.rdx ∧
      s₃.cpu.reg .rsp = P.stack t + BitVec.ofNat 64 (P.size t) - 0x10 - 0x8 ∧
      (16 ∣ P.size t → s₃.cpu.reg .rsp + 8 &&& 0x0F = 0) := by
  obtain ⟨hready, hstep⟩ := hcreate.refines hs
  have hset : CreateFor P t args ∧ s₁.currentActiveTask ≠ t ∧ (s₁.view P t).Starts args := by
    generalize hv : s₁.views P = v₁ at hstep
    cases hstep with
    | taskCreate own hother hargs hown =>
        have hcurrent := congrArg Views.currentActiveTask hv
        have hview := congrFun (congrArg Views.view hv) t
        refine ⟨hargs, fun heq => hother (heq.symm.trans hcurrent), ?_⟩
        rw [show s₁.view P t = own from hview.trans (Function.update_self ..)]
        exact hown
  obtain ⟨hargs, hwaits, hstarts⟩ := hset
  obtain ⟨hcurrent, hrunning⟩ := path_enters hready hwaits rfl hpath hes henter
  rw [← hrunning] at hstarts
  have hrsp : s₃.cpu.reg .rsp = P.stack t + BitVec.ofNat 64 (P.size t) - 0x10 - 0x8 := by
    rw [← hargs.stack, ← hargs.size]
    exact hstarts.rsp
  refine ⟨hcurrent, hstarts.rip, hstarts.arg, hrsp, fun hdvd => ?_⟩
  have haligned := (and_fifteen_eq_zero_iff _).mp hargs.arguments.aligned
  rw [hargs.stack] at haligned
  have htop : s₃.cpu.reg .rsp + 8 = P.stack t + BitVec.ofNat 64 (P.size t) - 0x10 := by
    rw [hrsp, BitVec.sub_add_cancel]
  have hwhole := hargs.whole
  rw [htop, and_fifteen_eq_zero_iff, BitVec.toNat_sub, BitVec.toNat_add, BitVec.toNat_ofNat]
  have hten : (0x10 : Word).toNat = 16 := rfl
  rw [hten]
  omega

end

/-! ## Two tasks -/

/-- Two tasks, with the structs at `0x1000` and `0x2000` and stacks of 4 KB. -/
def twoTasks : Placement Bool where
  ctx t := BitVec.ofNat 64 (if t then 0x2000 else 0x1000)
  stack t := BitVec.ofNat 64 (if t then 0x20000 else 0x10000)
  size _ := 0x1000
  ctx_ne_zero := by decide
  ctx_apart t u h := by
    cases t <;> cases u
    · exact absurd rfl h
    · exact area_ofNat_disjoint (by decide) (by decide)
    · exact (area_ofNat_disjoint (by decide) (by decide)).symm
    · exact absurd rfl h
  stack_apart t u h := by
    cases t <;> cases u
    · exact absurd rfl h
    · exact area_ofNat_disjoint (by decide) (by decide)
    · exact (area_ofNat_disjoint (by decide) (by decide)).symm
    · exact absurd rfl h
  apart t u := by
    cases t <;> cases u
    all_goals exact area_ofNat_disjoint (by decide) (by decide)

/-- The first task runs, in the middle of its stack. -/
def twoTasksStart : Machine Bool where
  cpu := { reg := fun _ => 0x10800, flags := ⟨false, false⟩, memory := fun _ => 0 }
  rip := 0x401000
  currentActiveTask := false
  created t := !t

/-- `ctx_create` for the second one, with the entry `0x402000` and the argument `7`. -/
def twoTasksArguments : Registers :=
  { Registers.zero with
    rdi := 0x10900
    rsi := 0x402000
    rdx := 7
    rcx := 0x20000
    r8 := 0x1000 }

theorem twoTasks_ready : twoTasksStart.Ready twoTasks := by
  intro t hcreated hother
  cases t with
  | false => exact absurd rfl hother
  | true => exact absurd hcreated (by decide)

theorem twoTasks_create : CreateFor twoTasks true twoTasksArguments where
  arguments := ⟨by decide, by decide, by decide, by decide, by decide⟩
  stack := rfl
  size := rfl
  whole := by decide

/-- The first task sets the second one up and switches to it, and the second one switches
back. -/
theorem twoTasks_path : ∃ s₁ s₂ s₃,
    Machine.Step twoTasks twoTasksStart (.taskCreate true twoTasksArguments) s₁ ∧
      Machine.Step twoTasks s₁ (.taskSwitch true) s₂ ∧
      Machine.Step twoTasks s₂ (.taskSwitch false) s₃ ∧ s₁.Ready twoTasks ∧
      s₁.currentActiveTask = false ∧ s₁.rip = 0x401000 ∧ s₁.cpu.reg .rbx = 0x10800 := by
  have hother : true ≠ twoTasksStart.currentActiveTask := by decide
  obtain ⟨s₁, hs₁⟩ : ∃ s₁, s₁ = twoTasksStart.setContext twoTasks true
      (ctxCreate twoTasksArguments Ctx.zero).2 := ⟨_, rfl⟩
  have hcreate := Machine.Step.taskCreate (P := twoTasks) hother twoTasks_create
  rw [← hs₁] at hcreate
  obtain ⟨hready, hfirst⟩ := hcreate.refines twoTasks_ready
  have hcurrent : s₁.currentActiveTask = false := by rw [hs₁]; rfl
  have hreg : s₁.cpu.reg = fun _ => 0x10800 := by rw [hs₁]; rfl
  have hcreated : s₁.created = Function.update twoTasksStart.created true true := by
    rw [hs₁]; rfl
  have hstarts : (s₁.view twoTasks true).Starts twoTasksArguments := by
    rw [view_parked (by rw [hcurrent]; decide)]
    refine twoTasks_create.starts ?_
    rw [hs₁]
    exact ctxAt_ctxWords _
  obtain ⟨s₂, hswitch⟩ := exists_switch (P := twoTasks) (t := true) hready
    (by rw [hcreated, Function.update_self]) (by
      rw [hcurrent, hreg, show (0x10800 : Word) - 8 = twoTasks.stack false +
        BitVec.ofNat 64 0x7F8 by decide]
      exact area_subset (by decide) (by decide))
  obtain ⟨hready₂, hsecond⟩ := hswitch.refines hready
  obtain ⟨hcurrent₂, hview₂⟩ := hsecond.enters (by
    change s₁.currentActiveTask ≠ true
    rw [hcurrent]
    decide)
  have hcreated₂ : s₂.created = s₁.created := by cases hswitch with | taskSwitch _ _ _ => rfl
  have hrunning : (s₂.running twoTasks).Starts twoTasksArguments := by
    rw [← view_current, show s₂.currentActiveTask = true from hcurrent₂,
      show s₂.view twoTasks true = s₁.view twoTasks true from hview₂]
    exact hstarts
  obtain ⟨s₃, hback⟩ := exists_switch (P := twoTasks) (t := false) hready₂
    (by rw [hcreated₂, hcreated, Function.update_of_ne (by decide)]; rfl) (by
      rw [show s₂.currentActiveTask = true from hcurrent₂,
        show s₂.cpu.reg .rsp = 0x20FE8 from hrunning.rsp, show (0x20FE8 : Word) - 8 =
          twoTasks.stack true + BitVec.ofNat 64 0xFE0 by decide]
      exact area_subset (by decide) (by decide))
  exact ⟨s₁, s₂, s₃, hcreate, hswitch, hback, hready, hcurrent, by rw [hs₁]; rfl,
    by rw [hreg]⟩

theorem views_simulated_twoTasks : ∃ s₃ : Views Bool,
    Path (Views.Step twoTasks) (twoTasksStart.views twoTasks)
      [.taskCreate true twoTasksArguments, .taskSwitch true, .taskSwitch false] s₃ := by
  obtain ⟨s₁, s₂, s₃, hcreate, hswitch, hback, -⟩ := twoTasks_path
  exact ⟨_, (views_simulated twoTasks_ready
    (.cons hcreate (.cons hswitch (.cons hback (.nil s₃))))).2⟩

theorem task_create_enters_twoTasks : ∃ s₂ : Machine Bool, s₂.rip = 0x402000 ∧
    s₂.cpu.reg .rdi = 7 ∧ s₂.cpu.reg .rsp + 8 &&& 0x0F = 0 := by
  obtain ⟨s₁, s₂, s₃, hcreate, hswitch, -⟩ := twoTasks_path
  obtain ⟨-, hrip, hrdi, -, haligned⟩ :=
    task_create_enters twoTasks_ready hcreate (.nil s₁) (fun _ h => absurd h List.not_mem_nil)
      hswitch
  exact ⟨s₂, hrip, hrdi, haligned (by decide)⟩

theorem task_switch_resumes_twoTasks : ∃ s₃ : Machine Bool, s₃.rip = 0x401000 ∧
    s₃.cpu.reg .rbx = 0x10800 ∧ s₃.cpu.reg .rax = 0 := by
  obtain ⟨s₁, s₂, s₃, -, hswitch, hback, hready, hcurrent, hrip, hrbx⟩ := twoTasks_path
  rw [← hcurrent] at hback
  obtain ⟨-, hrip₃, hreg₃, hrax₃, -⟩ := task_switch_resumes hready (by rw [hcurrent]; decide)
    hswitch (.nil s₂) (fun _ h => absurd h List.not_mem_nil) hback
  exact ⟨s₃, hrip₃.trans hrip, (hreg₃ .rbx (by decide) (by decide) (by decide)).trans hrbx, hrax₃⟩

end PingPongOS
