import PingPongOS.Instructions
import PingPongOS.TaskCreation

/-!
# The code of `ctx.s`

`ctx_swap` and `ctx_create` instruction by instruction, on a CPU with a memory of bytes.  The
structs `ctx_t` are at addresses of that memory, and so are the stacks.

To the task that calls it, `ctx_swap` saves the registers it was called with and the address
it returns to; the CPU goes on with the registers and the address of the other context.  This
needs the two structs and the stack slots below the two stack pointers to be apart, as the
slots are written on the way.
-/

namespace PingPongOS

open X86 ByteMemory

/-! ## The listing -/

inductive CtxLabel
  | ctxSwap
  | ctxSwapLoadCtx2
  | ctxSwapNoerror
  | ctxSwapError
  | ctxCreate
  | ctxCreateError
  deriving DecidableEq

def offRip : Nat := 8 * 0
def offRsp : Nat := 8 * 1
def offRbp : Nat := 8 * 2
def offRdi : Nat := 8 * 3
def offRsi : Nat := 8 * 4
def offRax : Nat := 8 * 5
def offRbx : Nat := 8 * 6
def offRcx : Nat := 8 * 7
def offRdx : Nat := 8 * 8
def offR8 : Nat := 8 * 9
def offR9 : Nat := 8 * 10
def offR10 : Nat := 8 * 11
def offR11 : Nat := 8 * 12
def offR12 : Nat := 8 * 13
def offR13 : Nat := 8 * 14
def offR14 : Nat := 8 * 15
def offR15 : Nat := 8 * 16
def offSsa : Nat := 8 * 17
def offSsz : Nat := 8 * 18

/-- The text section of `ctx.s`. -/
def ctxListing : List (Line CtxLabel) :=
  [.label .ctxSwap,
    .op (.cmp .rdi .rsi),
    .jump .z .ctxSwapError,
    .op (.cmpImm 0 .rdi),
    .jump .z .ctxSwapLoadCtx2,
    .op (.movTo .r8 offR8 .rdi),
    .op (.movTo .r9 offR9 .rdi),
    .op (.movTo .r10 offR10 .rdi),
    .op (.movTo .r11 offR11 .rdi),
    .op (.movTo .r12 offR12 .rdi),
    .op (.movTo .r13 offR13 .rdi),
    .op (.movTo .r14 offR14 .rdi),
    .op (.movTo .r15 offR15 .rdi),
    .op (.movTo .rax offRax .rdi),
    .op (.movTo .rbx offRbx .rdi),
    .op (.movTo .rcx offRcx .rdi),
    .op (.movTo .rdx offRdx .rdi),
    .op (.movTo .rdi offRdi .rdi),
    .op (.movTo .rsi offRsi .rdi),
    .op (.movTo .rbp offRbp .rdi),
    -- the return address and the stack pointer before the call
    .op (.movFrom 0 .rsp .rcx),
    .op (.movTo .rcx offRip .rdi),
    .op (.lea 8 .rsp .rcx),
    .op (.movTo .rcx offRsp .rdi),
  .label .ctxSwapLoadCtx2,
    .op (.cmpImm 0 .rsi),
    .jump .z .ctxSwapNoerror,
    .op (.movFrom offR8 .rsi .r8),
    .op (.movFrom offR9 .rsi .r9),
    .op (.movFrom offR10 .rsi .r10),
    .op (.movFrom offR11 .rsi .r11),
    .op (.movFrom offR12 .rsi .r12),
    .op (.movFrom offR13 .rsi .r13),
    .op (.movFrom offR14 .rsi .r14),
    .op (.movFrom offR15 .rsi .r15),
    .op (.movFrom offRax .rsi .rax),
    .op (.movFrom offRbx .rsi .rbx),
    .op (.movFrom offRcx .rsi .rcx),
    .op (.movFrom offRdx .rsi .rdx),
    .op (.movFrom offRdi .rsi .rdi),
    .op (.movFrom offRbp .rsi .rbp),
    .op (.movFrom offRsp .rsi .rsp),
    .op (.pushFrom offRip .rsi),
    .op (.movFrom offRsi .rsi .rsi),
  .label .ctxSwapNoerror,
    .op (.xorl .rax .rax),
    .ret,
  .label .ctxSwapError,
    .op (.movl (-1) .rax),
    .ret,
  .label .ctxCreate,
    .op (.cmpImm 0 .rdi),
    .jump .z .ctxCreateError,
    .op (.cmpImm 0 .rsi),
    .jump .z .ctxCreateError,
    .op (.cmpImm 0 .rcx),
    .jump .z .ctxCreateError,
    .op (.testImm 0x0F .rcx),
    .jump .nz .ctxCreateError,
    .op (.cmpImm 0x1000 .r8),
    .jump .l .ctxCreateError,
    .op (.movTo .r8 offR8 .rdi),
    .op (.movTo .r9 offR9 .rdi),
    .op (.movTo .r10 offR10 .rdi),
    .op (.movTo .r11 offR11 .rdi),
    .op (.movTo .r12 offR12 .rdi),
    .op (.movTo .r13 offR13 .rdi),
    .op (.movTo .r14 offR14 .rdi),
    .op (.movTo .r15 offR15 .rdi),
    .op (.movTo .rax offRax .rdi),
    .op (.movTo .rbx offRbx .rdi),
    .op (.movTo .rcx offRcx .rdi),
    .op (.movTo .rdx offRdx .rdi),
    .op (.movTo .rdi offRdi .rdi),
    .op (.movTo .rsi offRsi .rdi),
    .op (.movTo .rbp offRbp .rdi),
    .op (.movTo .rcx offSsa .rdi),
    .op (.movTo .r8 offSsz .rdi),
    .op (.add .r8 .rcx),
    .op (.subImm 0x10 .rcx),
    .op (.movTo .rcx offRbp .rdi),
    .op (.movTo .rcx offRsp .rdi),
    .op (.subTo 0x8 offRsp .rdi),
    .op (.movTo .rsi offRip .rdi),
    .op (.movTo .rdx offRdi .rdi),
    .op (.xorl .rax .rax),
    .ret,
  .label .ctxCreateError,
    .op (.movl (-1) .rax),
    .ret]

/-! ## Contexts in memory -/

/-- `sizeof(struct ctx_t)`, less its padding. -/
def sizeofCtx : Nat := 8 * 19

/-- The struct at `a`. -/
def ctxAt (m : Memory 64) (a : Word) : Ctx where
  rip := loadWord m (a + BitVec.ofNat 64 offRip)
  rsp := loadWord m (a + BitVec.ofNat 64 offRsp)
  rbp := loadWord m (a + BitVec.ofNat 64 offRbp)
  rdi := loadWord m (a + BitVec.ofNat 64 offRdi)
  rsi := loadWord m (a + BitVec.ofNat 64 offRsi)
  rax := loadWord m (a + BitVec.ofNat 64 offRax)
  rbx := loadWord m (a + BitVec.ofNat 64 offRbx)
  rcx := loadWord m (a + BitVec.ofNat 64 offRcx)
  rdx := loadWord m (a + BitVec.ofNat 64 offRdx)
  r8 := loadWord m (a + BitVec.ofNat 64 offR8)
  r9 := loadWord m (a + BitVec.ofNat 64 offR9)
  r10 := loadWord m (a + BitVec.ofNat 64 offR10)
  r11 := loadWord m (a + BitVec.ofNat 64 offR11)
  r12 := loadWord m (a + BitVec.ofNat 64 offR12)
  r13 := loadWord m (a + BitVec.ofNat 64 offR13)
  r14 := loadWord m (a + BitVec.ofNat 64 offR14)
  r15 := loadWord m (a + BitVec.ofNat 64 offR15)
  stack := loadWord m (a + BitVec.ofNat 64 offSsa)
  size := loadWord m (a + BitVec.ofNat 64 offSsz)

/-- The register of a context. -/
def Ctx.reg (k : Ctx) : Reg → Word
  | .rax => k.rax
  | .rbx => k.rbx
  | .rcx => k.rcx
  | .rdx => k.rdx
  | .rsi => k.rsi
  | .rdi => k.rdi
  | .rbp => k.rbp
  | .rsp => k.rsp
  | .r8 => k.r8
  | .r9 => k.r9
  | .r10 => k.r10
  | .r11 => k.r11
  | .r12 => k.r12
  | .r13 => k.r13
  | .r14 => k.r14
  | .r15 => k.r15

/-- The context with the registers of a CPU. -/
def Ctx.ofReg (f : Reg → Word) (rip stack size : Word) : Ctx :=
  ⟨rip, f .rsp, f .rbp, f .rdi, f .rsi, f .rax, f .rbx, f .rcx, f .rdx, f .r8, f .r9, f .r10,
    f .r11, f .r12, f .r13, f .r14, f .r15, stack, size⟩

@[simp] theorem Ctx.reg_ofReg (f : Reg → Word) (rip stack size : Word) (r : Reg) :
    (Ctx.ofReg f rip stack size).reg r = f r := by
  cases r <;> rfl

theorem Ctx.reg_ofReg' (f : Reg → Word) (rip stack size : Word) :
    (Ctx.ofReg f rip stack size).reg = f := funext (Ctx.reg_ofReg f rip stack size)

/-- The words of a context, in the order of the struct. -/
def ctxWords (k : Ctx) : List (Nat × Word) :=
  [(offRip, k.rip), (offRsp, k.rsp), (offRbp, k.rbp), (offRdi, k.rdi), (offRsi, k.rsi),
    (offRax, k.rax), (offRbx, k.rbx), (offRcx, k.rcx), (offRdx, k.rdx), (offR8, k.r8),
    (offR9, k.r9), (offR10, k.r10), (offR11, k.r11), (offR12, k.r12), (offR13, k.r13),
    (offR14, k.r14), (offR15, k.r15), (offSsa, k.stack), (offSsz, k.size)]

/-- The registers that both routines save in the same order. -/
def savedFields : Fields :=
  [(.r8, offR8), (.r9, offR9), (.r10, offR10), (.r11, offR11), (.r12, offR12),
    (.r13, offR13), (.r14, offR14), (.r15, offR15), (.rax, offRax), (.rbx, offRbx),
    (.rcx, offRcx), (.rdx, offRdx), (.rdi, offRdi), (.rsi, offRsi), (.rbp, offRbp)]

/-- The registers that `ctx_swap` loads before `rsi`, in order. -/
def loadedFields : Fields :=
  [(.r8, offR8), (.r9, offR9), (.r10, offR10), (.r11, offR11), (.r12, offR12),
    (.r13, offR13), (.r14, offR14), (.r15, offR15), (.rax, offRax), (.rbx, offRbx),
    (.rcx, offRcx), (.rdx, offRdx), (.rdi, offRdi), (.rbp, offRbp), (.rsp, offRsp)]

/-! ## The stretches of the code -/

/-- The stretch of `ctx_swap` that saves the CPU. -/
def swapSave : List Op :=
  savedFields.map (fun p => .movTo p.1 p.2 .rdi) ++
    [.movFrom 0 .rsp .rcx, .movTo .rcx offRip .rdi, .lea 8 .rsp .rcx,
      .movTo .rcx offRsp .rdi]

/-- The stretch of `ctx_swap` that loads the CPU. -/
def swapLoad : List Op :=
  loadedFields.map (fun p => .movFrom p.2 .rsi p.1) ++
    [.pushFrom offRip .rsi, .movFrom offRsi .rsi .rsi]

/-- The stretch of `ctx_create` after its checks. -/
def createSave : List Op :=
  savedFields.map (fun p => .movTo p.1 p.2 .rdi) ++
    [.movTo .rcx offSsa .rdi, .movTo .r8 offSsz .rdi, .add .r8 .rcx, .subImm 0x10 .rcx,
      .movTo .rcx offRbp .rdi, .movTo .rcx offRsp .rdi, .subTo 0x8 offRsp .rdi,
      .movTo .rsi offRip .rdi, .movTo .rdx offRdi .rdi, .xorl .rax .rax]

theorem linesFrom_ctxSwap : linesFrom .ctxSwap ctxListing =
    .op (.cmp .rdi .rsi) :: .jump .z .ctxSwapError :: .op (.cmpImm 0 .rdi) ::
      .jump .z .ctxSwapLoadCtx2 :: (swapSave.map .op ++
        .label .ctxSwapLoadCtx2 :: linesFrom .ctxSwapLoadCtx2 ctxListing) := rfl

theorem linesFrom_ctxSwapLoadCtx2 : linesFrom .ctxSwapLoadCtx2 ctxListing =
    .op (.cmpImm 0 .rsi) :: .jump .z .ctxSwapNoerror :: (swapLoad.map .op ++
      .label .ctxSwapNoerror :: linesFrom .ctxSwapNoerror ctxListing) := rfl

theorem linesFrom_ctxCreate : linesFrom .ctxCreate ctxListing =
    .op (.cmpImm 0 .rdi) :: .jump .z .ctxCreateError :: .op (.cmpImm 0 .rsi) ::
      .jump .z .ctxCreateError :: .op (.cmpImm 0 .rcx) :: .jump .z .ctxCreateError ::
      .op (.testImm 0x0F .rcx) :: .jump .nz .ctxCreateError :: .op (.cmpImm 0x1000 .r8) ::
      .jump .l .ctxCreateError :: (createSave.map .op ++
        .ret :: .label .ctxCreateError :: linesFrom .ctxCreateError ctxListing) := rfl

section

variable {m m' : Memory 64} {a : Word} {words : List (Nat × Word)}

/-- A context depends on the bytes of its struct. -/
theorem ctxAt_congr (h : ∀ x ∈ area a sizeofCtx, m x = m' x) : ctxAt m a = ctxAt m' a := by
  have hfield : ∀ off, off + 8 ≤ sizeofCtx →
      loadWord m (a + BitVec.ofNat 64 off) = loadWord m' (a + BitVec.ofNat 64 off) :=
    fun off hoff => loadWord_congr fun x hx => h x (area_subset hoff (by decide) hx)
  unfold ctxAt
  congr 1 <;> exact hfield _ (by decide)

/-- The context after writes to its struct. -/
theorem ctxAt_writeFields (hwords : Inside sizeofCtx (words.map Prod.fst)) :
    ctxAt (writeFields m a words) a =
      { rip := (words.reverse.lookup offRip).getD (ctxAt m a).rip
        rsp := (words.reverse.lookup offRsp).getD (ctxAt m a).rsp
        rbp := (words.reverse.lookup offRbp).getD (ctxAt m a).rbp
        rdi := (words.reverse.lookup offRdi).getD (ctxAt m a).rdi
        rsi := (words.reverse.lookup offRsi).getD (ctxAt m a).rsi
        rax := (words.reverse.lookup offRax).getD (ctxAt m a).rax
        rbx := (words.reverse.lookup offRbx).getD (ctxAt m a).rbx
        rcx := (words.reverse.lookup offRcx).getD (ctxAt m a).rcx
        rdx := (words.reverse.lookup offRdx).getD (ctxAt m a).rdx
        r8 := (words.reverse.lookup offR8).getD (ctxAt m a).r8
        r9 := (words.reverse.lookup offR9).getD (ctxAt m a).r9
        r10 := (words.reverse.lookup offR10).getD (ctxAt m a).r10
        r11 := (words.reverse.lookup offR11).getD (ctxAt m a).r11
        r12 := (words.reverse.lookup offR12).getD (ctxAt m a).r12
        r13 := (words.reverse.lookup offR13).getD (ctxAt m a).r13
        r14 := (words.reverse.lookup offR14).getD (ctxAt m a).r14
        r15 := (words.reverse.lookup offR15).getD (ctxAt m a).r15
        stack := (words.reverse.lookup offSsa).getD (ctxAt m a).stack
        size := (words.reverse.lookup offSsz).getD (ctxAt m a).size } := by
  unfold ctxAt
  congr 1 <;> exact loadWord_writeFields hwords (by decide) (by decide)

theorem ctxWords_inside (k : Ctx) : Inside sizeofCtx ((ctxWords k).map Prod.fst) :=
  (by decide : Inside sizeofCtx [offRip, offRsp, offRbp, offRdi, offRsi, offRax, offRbx,
    offRcx, offRdx, offR8, offR9, offR10, offR11, offR12, offR13, offR14, offR15,
    offSsa, offSsz])

/-- The assignment of a struct. -/
theorem ctxAt_ctxWords (k : Ctx) : ctxAt (writeFields m a (ctxWords k)) a = k := by
  rw [ctxAt_writeFields (ctxWords_inside k)]
  rfl

/-- A field of a context in memory is the register of the context. -/
theorem loadWord_loadedFields : ∀ p ∈ loadedFields,
    loadWord m (a + BitVec.ofNat 64 p.2) = (ctxAt m a).reg p.1 := by
  simp only [loadedFields, List.forall_mem_cons, List.not_mem_nil, false_implies, implies_true,
    and_true]
  exact ⟨rfl, rfl, rfl, rfl, rfl, rfl, rfl, rfl, rfl, rfl, rfl, rfl, rfl, rfl, rfl⟩

end

section

variable {c : Cpu}

/-- The words that `ctx_swap` saves. -/
def swapWords (c : Cpu) : List (Nat × Word) :=
  savedFields.map (fun p => (p.2, c.reg p.1)) ++
    [(offRip, loadWord c.memory (c.reg .rsp)), (offRsp, c.reg .rsp + 8)]

theorem swapWords_inside (c : Cpu) : Inside sizeofCtx ((swapWords c).map Prod.fst) :=
  (by decide : Inside sizeofCtx (savedFields.map Prod.snd ++ [offRip, offRsp]))

theorem swapSave_memory (h : Disjoint (area (c.reg .rdi) sizeofCtx) (area (c.reg .rsp) 8)) :
    (execAll swapSave c).memory = writeFields c.memory (c.reg .rdi) (swapWords c) := by
  have hslot : loadWord (writeFields c.memory (c.reg .rdi)
      (savedFields.map fun p => (p.2, c.reg p.1))) (c.reg .rsp + BitVec.ofNat 64 0) =
      loadWord c.memory (c.reg .rsp) := by
    have hinside : Inside sizeofCtx ((savedFields.map fun p => (p.2, c.reg p.1)).map Prod.fst) :=
      (by decide : Inside sizeofCtx (savedFields.map Prod.snd))
    rw [BitVec.add_zero]
    exact loadWord_congr fun x hx => writeFields_of_notMem hinside (by decide)
      (Set.disjoint_right.mp h hx)
  rw [swapSave, execAll_append, execAll_movTo, swapWords, writeFields_append, ← hslot]
  rfl

theorem swapSave_reg {r : Reg} (hr : r ≠ .rcx) : (execAll swapSave c).reg r = c.reg r := by
  rw [swapSave, execAll_append, execAll_movTo]
  change Function.update (Function.update c.reg .rcx _) .rcx _ r = c.reg r
  rw [Function.update_of_ne hr, Function.update_of_ne hr]

/-- What the first stretch saves. -/
theorem swapSave_saved (h : Disjoint (area (c.reg .rdi) sizeofCtx) (area (c.reg .rsp) 8)) :
    ctxAt (execAll swapSave c).memory (c.reg .rdi) =
      Ctx.ofReg (Function.update c.reg .rsp (c.reg .rsp + 8)) (loadWord c.memory (c.reg .rsp))
        (ctxAt c.memory (c.reg .rdi)).stack (ctxAt c.memory (c.reg .rdi)).size := by
  rw [swapSave_memory h, ctxAt_writeFields (swapWords_inside c)]
  rfl

/-- The second stretch loads every register but the one that has the address. -/
theorem mem_loadedFields {r : Reg} (hr : r ≠ .rsi) : r ∈ loadedFields.map Prod.fst := by
  cases r with
  | rsi => exact absurd rfl hr
  | _ => decide

/-- What the second stretch loads, with `rsp` below the address that `ret` is to pop. -/
theorem swapLoad_spec
    (h : Disjoint (area (c.reg .rsi) sizeofCtx)
      (area ((ctxAt c.memory (c.reg .rsi)).rsp - 8) 8)) :
    (execAll swapLoad c).reg = Function.update (ctxAt c.memory (c.reg .rsi)).reg .rsp
        ((ctxAt c.memory (c.reg .rsi)).rsp - 8) ∧
      (execAll swapLoad c).memory = storeWord c.memory ((ctxAt c.memory (c.reg .rsi)).rsp - 8)
        (ctxAt c.memory (c.reg .rsi)).rip := by
  obtain ⟨f, hf⟩ : ∃ f, f = loadFields c.memory (c.reg .rsi) c.reg loadedFields := ⟨_, rfl⟩
  have hrsi : f .rsi = c.reg .rsi := hf ▸ loadFields_of_notMem (by decide)
  have hloaded : ∀ r ∈ loadedFields.map Prod.fst, f r = (ctxAt c.memory (c.reg .rsi)).reg r := by
    intro r hr
    obtain ⟨p, hp, rfl⟩ := List.mem_map.mp hr
    rw [hf, loadFields_of_mem (by decide) hp, loadWord_loadedFields p hp]
  have hrsp : f .rsp = (ctxAt c.memory (c.reg .rsi)).rsp := hloaded .rsp (by decide)
  have hexec : execAll swapLoad c =
      (({ c with reg := f } : Cpu).push
        (loadWord c.memory (f .rsi + BitVec.ofNat 64 offRip))).setReg .rsi
          (loadWord (storeWord c.memory (f .rsp - 8)
            (loadWord c.memory (f .rsi + BitVec.ofNat 64 offRip)))
              (f .rsi + BitVec.ofNat 64 offRsi)) := by
    rw [swapLoad, execAll_append, execAll_movFrom (by decide), ← hf]
    rfl
  rw [hrsi, hrsp] at hexec
  have hlast : loadWord (storeWord c.memory ((ctxAt c.memory (c.reg .rsi)).rsp - 8)
      (loadWord c.memory (c.reg .rsi + BitVec.ofNat 64 offRip)))
        (c.reg .rsi + BitVec.ofNat 64 offRsi) = (ctxAt c.memory (c.reg .rsi)).rsi :=
    loadWord_storeWord_of_disjoint
      (h.mono_left (area_subset (by decide) (by decide)))
  rw [hlast] at hexec
  refine ⟨?_, by rw [hexec]; exact congrArg (fun a => storeWord c.memory (a - 8) _) hrsp⟩
  rw [hexec]
  change Function.update (Function.update f .rsp (f .rsp - 8)) .rsi _ = _
  funext r
  by_cases hsi : r = .rsi
  · subst hsi
    rfl
  · rw [Function.update_of_ne hsi, hrsp]
    by_cases hsp : r = .rsp
    · subst hsp
      rfl
    · rw [Function.update_of_ne hsp, Function.update_of_ne hsp]
      exact hloaded r (mem_loadedFields hsi)

/-! ## `ctx_swap` -/

/-- The structs and the stack slots that a call of `ctx_swap` uses are apart: the slot of the
return address, and the one below the stack pointer of the second context. -/
structure SwapApart (c : Cpu) : Prop where
  structs : c.reg .rdi ≠ 0 → c.reg .rsi ≠ 0 → c.reg .rdi ≠ c.reg .rsi →
    Disjoint (area (c.reg .rdi) sizeofCtx) (area (c.reg .rsi) sizeofCtx)
  back₁ : c.reg .rdi ≠ 0 → Disjoint (area (c.reg .rdi) sizeofCtx) (area (c.reg .rsp - 8) 8)
  back₂ : c.reg .rsi ≠ 0 → Disjoint (area (c.reg .rsi) sizeofCtx) (area (c.reg .rsp - 8) 8)
  slot₁ : c.reg .rdi ≠ 0 → c.reg .rsi ≠ 0 → c.reg .rdi ≠ c.reg .rsi →
    Disjoint (area (c.reg .rdi) sizeofCtx) (area ((ctxAt c.memory (c.reg .rsi)).rsp - 8) 8)
  slot₂ : c.reg .rsi ≠ 0 → c.reg .rdi ≠ c.reg .rsi →
    Disjoint (area (c.reg .rsi) sizeofCtx) (area ((ctxAt c.memory (c.reg .rsi)).rsp - 8) 8)

/-- What a call of `ctx_swap` that is to return to `back` does: `r` is the address the CPU goes
on at. -/
structure SwapSpec (c : Cpu) (back r : Word) (c' : Cpu) : Prop where
  same : c.reg .rdi = c.reg .rsi →
    r = back ∧ c'.reg = Function.update c.reg .rax 0xFFFFFFFF ∧
      c'.memory = storeWord c.memory (c.reg .rsp - 8) back
  saved : c.reg .rdi ≠ c.reg .rsi → c.reg .rdi ≠ 0 →
    ctxAt c'.memory (c.reg .rdi) = Ctx.ofReg c.reg back (ctxAt c.memory (c.reg .rdi)).stack
      (ctxAt c.memory (c.reg .rdi)).size
  loaded : c.reg .rdi ≠ c.reg .rsi → c.reg .rsi ≠ 0 →
    r = (ctxAt c.memory (c.reg .rsi)).rip ∧
      c'.reg = Function.update (ctxAt c.memory (c.reg .rsi)).reg .rax 0 ∧
      ctxAt c'.memory (c.reg .rsi) = ctxAt c.memory (c.reg .rsi)
  kept : c.reg .rdi ≠ c.reg .rsi → c.reg .rsi = 0 →
    r = back ∧ ∀ q, q ≠ .rcx → c'.reg q = Function.update c.reg .rax 0 q
  others : ∀ x, (c.reg .rdi ≠ 0 → x ∉ area (c.reg .rdi) sizeofCtx) →
    x ∉ area (c.reg .rsp - 8) 8 →
    (c.reg .rsi ≠ 0 → x ∉ area ((ctxAt c.memory (c.reg .rsi)).rsp - 8) 8) →
      c'.memory x = c.memory x

/-- Between the two stretches of `ctx_swap`. -/
structure SwapHalf (c : Cpu) (back : Word) (d : Cpu) : Prop where
  rsp : d.reg .rsp = c.reg .rsp - 8
  reg : ∀ q, q ≠ .rsp → q ≠ .rcx → d.reg q = c.reg q
  slot : loadWord d.memory (c.reg .rsp - 8) = back
  saved : c.reg .rdi ≠ 0 →
    ctxAt d.memory (c.reg .rdi) = Ctx.ofReg c.reg back (ctxAt c.memory (c.reg .rdi)).stack
      (ctxAt c.memory (c.reg .rdi)).size
  others : ∀ x, (c.reg .rdi ≠ 0 → x ∉ area (c.reg .rdi) sizeofCtx) →
    x ∉ area (c.reg .rsp - 8) 8 → d.memory x = c.memory x

variable {back : Word} {d : Cpu} {n : Nat}

/-- The first stretch, from the CPU at its start. -/
theorem swapHalf_save (h : SwapApart c) (hdi : c.reg .rdi ≠ 0) (f : Flags) :
    SwapHalf c back (execAll swapSave ((c.push back).setFlags f)) := by
  have hback := h.back₁ hdi
  have hslot : loadWord (storeWord c.memory (c.reg .rsp - 8) back) (c.reg .rsp - 8) = back :=
    loadWord_storeWord
  refine ⟨swapSave_reg (by decide), fun q hsp hcx => ?_, ?_, fun _ => ?_, fun x hx hx' => ?_⟩
  · exact (swapSave_reg hcx).trans (Function.update_of_ne hsp _ _)
  · rw [swapSave_memory (c := (c.push back).setFlags f) hback]
    refine Eq.trans (loadWord_congr fun x hx => ?_) hslot
    exact writeFields_of_notMem (swapWords_inside _) (by decide) (Set.disjoint_right.mp hback hx)
  · have hold : ctxAt (storeWord c.memory (c.reg .rsp - 8) back) (c.reg .rdi) =
        ctxAt c.memory (c.reg .rdi) :=
      ctxAt_congr fun x hx => storeWord_of_notMem (Set.disjoint_left.mp hback hx)
    have hpushed : Function.update (Function.update c.reg .rsp (c.reg .rsp - 8)) .rsp
        (c.reg .rsp - 8 + 8) = c.reg := by
      rw [Function.update_idem, BitVec.sub_add_cancel, Function.update_eq_self]
    have hsaved := swapSave_saved (c := (c.push back).setFlags f) hback
    change ctxAt _ _ = Ctx.ofReg (Function.update (Function.update c.reg .rsp _) .rsp
      (c.reg .rsp - 8 + 8)) (loadWord (storeWord c.memory (c.reg .rsp - 8) back) _)
        (ctxAt (storeWord c.memory (c.reg .rsp - 8) back) (c.reg .rdi)).stack
        (ctxAt (storeWord c.memory (c.reg .rsp - 8) back) (c.reg .rdi)).size at hsaved
    rw [hpushed, hold] at hsaved
    exact hsaved.trans (congrArg (fun r => Ctx.ofReg c.reg r _ _) hslot)
  · rw [swapSave_memory (c := (c.push back).setFlags f) hback]
    exact (writeFields_of_notMem (swapWords_inside _) (by decide) (hx hdi)).trans
      (storeWord_of_notMem hx')

/-- Without a first struct nothing is saved. -/
theorem swapHalf_null (hdi : c.reg .rdi = 0) (f : Flags) :
    SwapHalf c back ((c.push back).setFlags f) where
  rsp := rfl
  reg _ hsp _ := Function.update_of_ne hsp _ _
  slot := loadWord_storeWord
  saved hne := absurd hdi hne
  others _ _ hx := storeWord_of_notMem hx

/-- The last lines of `ctx_swap`. -/
theorem runLines_noerror : runLines ctxListing (n + 2) (linesFrom .ctxSwapNoerror ctxListing) d =
    some (loadWord d.memory (d.reg .rsp),
      (Op.exec d (.xorl .rax .rax)).setReg .rsp (d.reg .rsp + 8)) := rfl

theorem xorl_self (d : Cpu) (r : Reg) :
    (Op.exec d (.xorl r r)).reg = Function.update d.reg r 0 := by
  change Function.update d.reg r _ = _
  rw [BitVec.xor_self]
  rfl

/-- The second struct is as it was when the CPU is loaded from it. -/
theorem SwapHalf.second (h : SwapApart c) (hne : c.reg .rdi ≠ c.reg .rsi) (hsi : c.reg .rsi ≠ 0)
    (hd : SwapHalf c back d) :
    ctxAt d.memory (c.reg .rsi) = ctxAt c.memory (c.reg .rsi) :=
  ctxAt_congr fun x hx => hd.others x
    (fun hdi => Set.disjoint_right.mp (h.structs hdi hsi hne) hx)
    (Set.disjoint_left.mp (h.back₂ hsi) hx)

/-- **The second half of `ctx_swap`.** -/
theorem SwapHalf.finish (h : SwapApart c) (hne : c.reg .rdi ≠ c.reg .rsi)
    (hd : SwapHalf c back d) :
    ∃ r c', runLines ctxListing (n + 22) (linesFrom .ctxSwapLoadCtx2 ctxListing) d =
      some (r, c') ∧ SwapSpec c back r c' := by
  have hrsi : d.reg .rsi = c.reg .rsi := hd.reg .rsi (by decide) (by decide)
  obtain ⟨e, he⟩ : ∃ e, e = d.setFlags (.ofSub (d.reg .rsi) 0) := ⟨_, rfl⟩
  have htest : runLines ctxListing (n + 22) (linesFrom .ctxSwapLoadCtx2 ctxListing) d =
      runLines ctxListing (n + 20) (if (d.reg .rsi == 0) = true then
        linesFrom .ctxSwapNoerror ctxListing else swapLoad.map .op ++
          .label .ctxSwapNoerror :: linesFrom .ctxSwapNoerror ctxListing) e := by
    rw [linesFrom_ctxSwapLoadCtx2, he]
    rfl
  rw [htest, hrsi]
  by_cases hsi : c.reg .rsi = 0
  · rw [if_pos (beq_iff_eq.mpr hsi), runLines_noerror (n := n + 18)]
    have hreg : e.reg = d.reg := by rw [he]; rfl
    have hmemory : e.memory = d.memory := by rw [he]; rfl
    refine ⟨_, _, rfl, fun heq => absurd heq hne, fun _ hdi => ?_, fun _ h0 => absurd hsi h0,
      fun _ _ => ⟨?_, fun q hq => ?_⟩, fun x hx hx' _ => ?_⟩
    · exact (congrArg (fun m => ctxAt m _) hmemory).trans (hd.saved hdi)
    · rw [hreg, hmemory, hd.rsp, hd.slot]
    · change Function.update (Op.exec e (.xorl .rax .rax)).reg .rsp (e.reg .rsp + 8) q = _
      rw [xorl_self, hreg, hd.rsp, BitVec.sub_add_cancel]
      by_cases hsp : q = .rsp
      · subst hsp
        rfl
      · by_cases hax : q = .rax
        · subst hax
          rfl
        · rw [Function.update_of_ne hsp, Function.update_of_ne hax, Function.update_of_ne hax,
            hd.reg q hsp hq]
    · exact (congrFun hmemory x).trans (hd.others x hx hx')
  · have hsecond := hd.second h hne hsi
    have hfirst : e.reg .rsi = c.reg .rsi ∧ ctxAt e.memory (c.reg .rsi) =
        ctxAt c.memory (c.reg .rsi) := by
      rw [he]
      exact ⟨hrsi, hsecond⟩
    obtain ⟨hreg, hmemory⟩ := swapLoad_spec (c := e) (by
      rw [hfirst.1, hfirst.2]
      exact h.slot₂ hsi hne)
    rw [hfirst.1, hfirst.2] at hreg hmemory
    have hmemory' : (execAll swapLoad e).memory = storeWord d.memory
        ((ctxAt c.memory (c.reg .rsi)).rsp - 8) (ctxAt c.memory (c.reg .rsi)).rip := by
      rw [hmemory, he]
      rfl
    rw [if_neg (by simpa using hsi)]
    have hops : runLines ctxListing (n + 3 + swapLoad.length) (swapLoad.map .op ++
        .label .ctxSwapNoerror :: linesFrom .ctxSwapNoerror ctxListing) e =
          runLines ctxListing (n + 3) (.label .ctxSwapNoerror ::
            linesFrom .ctxSwapNoerror ctxListing) (execAll swapLoad e) := runLines_ops swapLoad
    refine ⟨_, _, hops.trans (runLines_noerror (n := n)), fun heq => absurd heq hne,
      fun _ hdi => ?_, fun _ _ => ⟨?_, ?_, ?_⟩, fun _ h0 => absurd h0 hsi, fun x hx hx' hx'' => ?_⟩
    · refine (ctxAt_congr fun x hx => ?_).trans (hd.saved hdi)
      exact (congrFun hmemory' x).trans
        (storeWord_of_notMem (Set.disjoint_left.mp (h.slot₁ hdi hsi hne) hx))
    · rw [hreg, hmemory', Function.update_self, loadWord_storeWord]
    · change Function.update (Op.exec (execAll swapLoad e) (.xorl .rax .rax)).reg .rsp
        ((execAll swapLoad e).reg .rsp + 8) = _
      rw [xorl_self, hreg, Function.update_self, BitVec.sub_add_cancel]
      funext q
      by_cases hsp : q = .rsp
      · subst hsp
        rfl
      · by_cases hax : q = .rax
        · subst hax
          rfl
        · rw [Function.update_of_ne hsp, Function.update_of_ne hax, Function.update_of_ne hsp,
            Function.update_of_ne hax]
    · refine (ctxAt_congr fun x hx => ?_).trans hsecond
      exact (congrFun hmemory' x).trans
        (storeWord_of_notMem (Set.disjoint_left.mp (h.slot₂ hsi hne) hx))
    · exact (congrFun hmemory' x).trans ((storeWord_of_notMem (hx'' hsi)).trans
        (hd.others x hx hx'))

theorem runLines_error : runLines ctxListing (n + 2) (linesFrom .ctxSwapError ctxListing) d =
    some (loadWord d.memory (d.reg .rsp),
      (d.setReg .rax 0xFFFFFFFF).setReg .rsp (d.reg .rsp + 8)) := rfl

/-- **`ctx_swap`**, called with the structs in `rdi` and `rsi`. -/
theorem ctxSwap_spec (c : Cpu) (back : Word) (h : SwapApart c) :
    ∃ r c', call ctxListing .ctxSwap back c = some (r, c') ∧ SwapSpec c back r c' := by
  have hstart : call ctxListing .ctxSwap back c =
      runLines ctxListing 88 (if (c.reg .rsi == c.reg .rdi) = true then
        linesFrom .ctxSwapError ctxListing else
        .op (.cmpImm 0 .rdi) :: .jump .z .ctxSwapLoadCtx2 :: (swapSave.map .op ++
          .label .ctxSwapLoadCtx2 :: linesFrom .ctxSwapLoadCtx2 ctxListing))
        ((c.push back).setFlags (.ofSub (c.reg .rsi) (c.reg .rdi))) := by
    rw [call, linesFrom_ctxSwap]
    rfl
  rw [hstart]
  by_cases heq : c.reg .rdi = c.reg .rsi
  · rw [if_pos (beq_iff_eq.mpr heq.symm)]
    refine ⟨_, _, runLines_error (n := 86), fun _ => ⟨loadWord_storeWord, ?_, rfl⟩,
      fun hne => absurd heq hne, fun hne => absurd heq hne, fun hne => absurd heq hne,
      fun x _ hx _ => storeWord_of_notMem hx⟩
    change Function.update (Function.update (Function.update c.reg .rsp (c.reg .rsp - 8)) .rax _)
      .rsp (c.reg .rsp - 8 + 8) = _
    rw [BitVec.sub_add_cancel, Function.update_comm (by decide), Function.update_idem,
      Function.update_eq_self]
  · rw [if_neg (by simpa using Ne.symm heq)]
    obtain ⟨f, hf⟩ : ∃ f, f = Flags.ofSub (c.reg .rdi) 0 := ⟨_, rfl⟩
    have hnull : runLines ctxListing 88 (.op (.cmpImm 0 .rdi) :: .jump .z .ctxSwapLoadCtx2 ::
          (swapSave.map .op ++
            .label .ctxSwapLoadCtx2 :: linesFrom .ctxSwapLoadCtx2 ctxListing))
          ((c.push back).setFlags (.ofSub (c.reg .rsi) (c.reg .rdi))) =
        runLines ctxListing 86 (if (c.reg .rdi == 0) = true then
          linesFrom .ctxSwapLoadCtx2 ctxListing else
          swapSave.map .op ++ .label .ctxSwapLoadCtx2 :: linesFrom .ctxSwapLoadCtx2 ctxListing)
          ((c.push back).setFlags f) := by
      rw [hf]
      rfl
    rw [hnull]
    by_cases hdi : c.reg .rdi = 0
    · rw [if_pos (beq_iff_eq.mpr hdi)]
      exact (swapHalf_null hdi f).finish (n := 64) h heq
    · rw [if_neg (by simpa using hdi)]
      obtain ⟨r, c', hrun, hspec⟩ := (swapHalf_save h hdi f).finish (n := 44) h heq
      exact ⟨r, c', (runLines_ops (n := 67) swapSave).trans hrun, hspec⟩

/-! ## `ctx_create` -/

/-- The registers that `ctx_create` reads. -/
def Registers.ofReg (f : Reg → Word) : Registers where
  rdi := f .rdi
  rsi := f .rsi
  rdx := f .rdx
  rcx := f .rcx
  r8 := f .r8
  rax := f .rax
  rbx := f .rbx
  rbp := f .rbp
  r9 := f .r9
  r10 := f .r10
  r11 := f .r11
  r12 := f .r12
  r13 := f .r13
  r14 := f .r14
  r15 := f .r15

/-- What a call of `ctx_create` that is to return to `back` does. -/
structure CreateSpec (c : Cpu) (back r : Word) (c' : Cpu) : Prop where
  back : r = back
  result : c'.reg .rax =
    if (ctxCreate (.ofReg c.reg) (ctxAt c.memory (c.reg .rdi))).1 = noError then 0 else 0xFFFFFFFF
  ctx : c.reg .rdi ≠ 0 → ctxAt c'.memory (c.reg .rdi) =
    (ctxCreate (.ofReg c.reg) (ctxAt c.memory (c.reg .rdi))).2
  reg : ∀ q, q ≠ .rax → q ≠ .rcx → c'.reg q = c.reg q
  others : ∀ x, (c.reg .rdi ≠ 0 → x ∉ area (c.reg .rdi) sizeofCtx) →
    x ∉ area (c.reg .rsp - 8) 8 → c'.memory x = c.memory x

/-- The words that `ctx_create` writes, on the stack at `rcx`. -/
def createWords (c : Cpu) : List (Nat × Word) :=
  savedFields.map (fun p => (p.2, c.reg p.1)) ++
    [(offSsa, c.reg .rcx), (offSsz, c.reg .r8), (offRbp, c.reg .rcx + c.reg .r8 - 0x10),
      (offRsp, c.reg .rcx + c.reg .r8 - 0x10), (offRsp, c.reg .rcx + c.reg .r8 - 0x10 - 0x8),
      (offRip, c.reg .rsi), (offRdi, c.reg .rdx)]

theorem createWords_inside (c : Cpu) : Inside sizeofCtx ((createWords c).map Prod.fst) :=
  (by decide : Inside sizeofCtx (savedFields.map Prod.snd ++
    [offSsa, offSsz, offRbp, offRsp, offRsp, offRip, offRdi]))

theorem createSave_memory (c : Cpu) :
    (execAll createSave c).memory = writeFields c.memory (c.reg .rdi) (createWords c) := by
  -- the words before `subq`, which reads one of them back
  obtain ⟨words, hwords⟩ : ∃ words, words = savedFields.map (fun p => (p.2, c.reg p.1)) ++
      [(offSsa, c.reg .rcx), (offSsz, c.reg .r8), (offRbp, c.reg .rcx + c.reg .r8 - 0x10),
        (offRsp, c.reg .rcx + c.reg .r8 - 0x10)] := ⟨_, rfl⟩
  have hinside : Inside sizeofCtx (words.map Prod.fst) := by
    rw [hwords]
    exact (by decide : Inside sizeofCtx (savedFields.map Prod.snd ++
      [offSsa, offSsz, offRbp, offRsp]))
  have hrsp : loadWord (writeFields c.memory (c.reg .rdi) words)
      (c.reg .rdi + BitVec.ofNat 64 offRsp) = c.reg .rcx + c.reg .r8 - 0x10 := by
    rw [loadWord_writeFields hinside (by decide) (by decide), hwords]
    rfl
  have hexec : (execAll createSave c).memory =
      writeFields (writeFields c.memory (c.reg .rdi) words) (c.reg .rdi)
        [(offRsp, loadWord (writeFields c.memory (c.reg .rdi) words)
          (c.reg .rdi + BitVec.ofNat 64 offRsp) - 0x8), (offRip, c.reg .rsi),
          (offRdi, c.reg .rdx)] := by
    rw [createSave, execAll_append, execAll_movTo, hwords, writeFields_append]
    rfl
  rw [hexec, hrsp, ← writeFields_append, hwords, createWords, List.append_assoc]
  rfl

theorem createSave_reg (c : Cpu) {r : Reg} (hax : r ≠ .rax) (hcx : r ≠ .rcx) :
    (execAll createSave c).reg r = c.reg r := by
  rw [createSave, execAll_append, execAll_movTo]
  change Function.update (Function.update (Function.update c.reg .rcx _) .rcx _) .rax _ r = _
  rw [Function.update_of_ne hax, Function.update_of_ne hcx, Function.update_of_ne hcx]

theorem createSave_rax (c : Cpu) : (execAll createSave c).reg .rax = 0 := by
  rw [createSave, execAll_append]
  change ((_ ^^^ _ : BitVec 32)).setWidth 64 = _
  rw [BitVec.xor_self]
  rfl

theorem runLines_createError :
    runLines ctxListing (n + 2) (linesFrom .ctxCreateError ctxListing) d =
      some (loadWord d.memory (d.reg .rsp),
        (d.setReg .rax 0xFFFFFFFF).setReg .rsp (d.reg .rsp + 8)) := rfl

/-- A check that fails. -/
theorem create_fails
    (h : c.reg .rdi ≠ 0 → Disjoint (area (c.reg .rdi) sizeofCtx) (area (c.reg .rsp - 8) 8))
    (hargs : ¬ CtxArguments (.ofReg c.reg)) (f : Flags) :
    ∃ r c', runLines ctxListing (n + 2) (linesFrom .ctxCreateError ctxListing)
      ((c.push back).setFlags f) = some (r, c') ∧ CreateSpec c back r c' := by
  have herror : ctxCreate (.ofReg c.reg) (ctxAt c.memory (c.reg .rdi)) =
      (error, ctxAt c.memory (c.reg .rdi)) := by
    rcases ctxCreate_spec (.ofReg c.reg) (ctxAt c.memory (c.reg .rdi)) with h | h
    · exact absurd h.1 hargs
    · exact h.2
  refine ⟨_, _, runLines_createError, loadWord_storeWord, ?_, fun hdi => ?_, fun q hax _ => ?_,
    fun x _ hx => storeWord_of_notMem hx⟩
  · rw [herror]
    rfl
  · rw [herror]
    exact ctxAt_congr fun x hx => storeWord_of_notMem (Set.disjoint_left.mp (h hdi) hx)
  · change Function.update (Function.update (Function.update c.reg .rsp _) .rax _) .rsp
      (c.reg .rsp - 8 + 8) q = _
    rw [BitVec.sub_add_cancel, Function.update_comm (by decide), Function.update_idem,
      Function.update_of_ne hax, Function.update_eq_self]

/-- All checks passed. -/
theorem create_passes
    (h : Disjoint (area (c.reg .rdi) sizeofCtx) (area (c.reg .rsp - 8) 8))
    (hargs : CtxArguments (.ofReg c.reg)) (f : Flags) (rest : List (Line CtxLabel)) :
    ∃ r c', runLines ctxListing (n + 26) (createSave.map .op ++ .ret :: rest)
      ((c.push back).setFlags f) = some (r, c') ∧ CreateSpec c back r c' := by
  obtain ⟨d, hd⟩ : ∃ d, d = (c.push back).setFlags f := ⟨_, rfl⟩
  have hreg : ∀ q, q ≠ .rsp → d.reg q = c.reg q := fun q hq => by
    rw [hd]
    exact Function.update_of_ne hq _ _
  have hrsp : d.reg .rsp = c.reg .rsp - 8 := by
    rw [hd]
    rfl
  have hmemory : d.memory = storeWord c.memory (c.reg .rsp - 8) back := by
    rw [hd]
    rfl
  have hwords : createWords d = createWords c := by
    rw [hd]
    rfl
  have hsave : (execAll createSave d).memory =
      writeFields d.memory (c.reg .rdi) (createWords c) := by
    rw [createSave_memory, hwords, hreg .rdi (by decide)]
  have hinside := createWords_inside c
  -- the value of the specification once no check fails
  have hvalue : ctxCreate (.ofReg c.reg) (ctxAt c.memory (c.reg .rdi)) =
      (noError, ctxAt (writeFields d.memory (c.reg .rdi) (createWords c)) (c.reg .rdi)) := by
    rw [ctxCreate, if_neg hargs.ctx, if_neg hargs.entry, if_neg hargs.stack,
      if_neg (not_not.mpr hargs.aligned), if_neg (Bool.eq_false_iff.mp hargs.size),
      ctxAt_writeFields hinside]
    rfl
  rw [← hd]
  refine ⟨_, _, (runLines_ops (n := n + 1) createSave).trans runLines_ret, ?_, ?_, fun _ => ?_,
    fun q hax hcx => ?_, fun x hx hx' => ?_⟩
  · rw [createSave_reg d (by decide) (by decide), hrsp, hsave]
    refine Eq.trans (loadWord_congr fun x hx => ?_) (loadWord_storeWord (m := c.memory))
    rw [writeFields_of_notMem hinside (by decide) (Set.disjoint_right.mp h hx), hmemory]
  · rw [hvalue]
    exact createSave_rax d
  · rw [hvalue]
    exact congrArg (fun m => ctxAt m (c.reg .rdi)) hsave
  · change Function.update (execAll createSave d).reg .rsp _ q = _
    by_cases hsp : q = .rsp
    · subst hsp
      rw [Function.update_self, createSave_reg d (by decide) (by decide), hrsp,
        BitVec.sub_add_cancel]
    · rw [Function.update_of_ne hsp, createSave_reg d hax hcx, hreg q hsp]
  · have hdi : c.reg .rdi ≠ 0 := hargs.ctx
    change (execAll createSave d).memory x = _
    rw [hsave, writeFields_of_notMem hinside (by decide) (hx hdi), hmemory]
    exact storeWord_of_notMem hx'

/-- A check that a pointer is not `NULL`. -/
theorem runLines_checkNull {q : Reg} (hq : q ≠ .rsp) {l : CtxLabel} {rest : List (Line CtxLabel)}
    (f : Flags) :
    runLines ctxListing (n + 2) (.op (.cmpImm 0 q) :: .jump .z l :: rest)
        ((c.push back).setFlags f) =
      runLines ctxListing n (if c.reg q = 0 then linesFrom l ctxListing else rest)
        ((c.push back).setFlags (.ofSub (c.reg q) 0)) := by
  have hkeep : (c.push back).reg q = c.reg q := Function.update_of_ne hq _ _
  have hexec : Op.exec ((c.push back).setFlags f) (.cmpImm 0 q) =
      (c.push back).setFlags (.ofSub (c.reg q) 0) := by
    rw [← hkeep]
    rfl
  have hiff : (Cond.holds (Flags.ofSub (c.reg q) 0) .z = true) = (c.reg q = 0) :=
    propext beq_iff_eq
  rw [runLines, hexec, runLines_jump]
  change runLines _ _ (if Cond.holds (Flags.ofSub (c.reg q) 0) .z = true then _ else _) _ = _
  simp only [hiff]

/-- The check that the stack is aligned. -/
theorem runLines_checkAligned {rest : List (Line CtxLabel)} (f : Flags) :
    runLines ctxListing (n + 2) (.op (.testImm 0x0F .rcx) :: .jump .nz .ctxCreateError :: rest)
        ((c.push back).setFlags f) =
      runLines ctxListing n
        (if c.reg .rcx &&& 0x0F = 0 then rest else linesFrom .ctxCreateError ctxListing)
        ((c.push back).setFlags (.ofResult (c.reg .rcx &&& 0x0F))) := by
  have hiff : (Cond.holds (Flags.ofResult (c.reg .rcx &&& 0x0F)) .nz = true) =
      ¬ c.reg .rcx &&& 0x0F = 0 := by
    simp [Cond.holds, Flags.ofResult]
  change runLines _ _ (if Cond.holds (Flags.ofResult (c.reg .rcx &&& 0x0F)) .nz = true
    then _ else _) _ = _
  simp only [hiff, ite_not]
  rfl

/-- The check of the size, which is signed. -/
theorem runLines_checkSize {rest : List (Line CtxLabel)} (f : Flags) :
    runLines ctxListing (n + 2) (.op (.cmpImm 0x1000 .r8) :: .jump .l .ctxCreateError :: rest)
        ((c.push back).setFlags f) =
      runLines ctxListing n
        (if (c.reg .r8).slt 0x1000 = true then linesFrom .ctxCreateError ctxListing else rest)
        ((c.push back).setFlags (.ofSub (c.reg .r8) 0x1000)) := rfl

/-- **`ctx_create`**, called with its arguments in registers, does what `ctxCreate` says. -/
theorem ctxCreate_code (c : Cpu) (back : Word)
    (h : c.reg .rdi ≠ 0 → Disjoint (area (c.reg .rdi) sizeofCtx) (area (c.reg .rsp - 8) 8)) :
    ∃ r c', call ctxListing .ctxCreate back c = some (r, c') ∧ CreateSpec c back r c' := by
  rw [call, linesFrom_ctxCreate]
  change ∃ r c', runLines ctxListing 90 _ ((c.push back).setFlags c.flags) = _ ∧ _
  rw [runLines_checkNull (n := 88) (by decide)]
  by_cases hctx : c.reg .rdi = 0
  · rw [if_pos hctx]
    exact create_fails (n := 86) h (fun hargs => hargs.ctx hctx) _
  rw [if_neg hctx, runLines_checkNull (n := 86) (by decide)]
  by_cases hentry : c.reg .rsi = 0
  · rw [if_pos hentry]
    exact create_fails (n := 84) h (fun hargs => hargs.entry hentry) _
  rw [if_neg hentry, runLines_checkNull (n := 84) (by decide)]
  by_cases hstack : c.reg .rcx = 0
  · rw [if_pos hstack]
    exact create_fails (n := 82) h (fun hargs => hargs.stack hstack) _
  rw [if_neg hstack, runLines_checkAligned (n := 82)]
  by_cases haligned : c.reg .rcx &&& 0x0F = 0
  · rw [if_pos haligned, runLines_checkSize (n := 80)]
    cases hsize : (c.reg .r8).slt 0x1000 with
    | true =>
        rw [if_pos rfl]
        exact create_fails (n := 78) h
          (fun hargs => absurd (hsize.symm.trans hargs.size) (by decide)) _
    | false =>
        rw [if_neg (by decide)]
        exact create_passes (n := 54) (h hctx) ⟨hctx, hentry, hstack, haligned, hsize⟩ _ _
  · rw [if_neg haligned]
    exact create_fails (n := 80) h (fun hargs => haligned hargs.aligned) _

/-- A context at `0x1000` for the entry `0x402000`, on 4 KB of stack at `0x20000`. -/
theorem ctxCreate_code_aligned : ∃ r c',
    call ctxListing .ctxCreate 0x401000
      { reg := fun q => if q = .rdi then 0x1000 else if q = .rsi then 0x402000
          else if q = .rcx then 0x20000 else if q = .r8 then 0x1000 else 0x10800
        flags := ⟨false, false⟩
        memory := fun _ => 0 } = some (r, c') ∧ r = 0x401000 ∧ c'.reg .rax = 0 ∧
    (ctxAt c'.memory 0x1000).rsp = 0x20FE8 := by
  obtain ⟨r, c', hcall, hspec⟩ := ctxCreate_code
    { reg := fun q => if q = .rdi then 0x1000 else if q = .rsi then 0x402000
        else if q = .rcx then 0x20000 else if q = .r8 then 0x1000 else 0x10800
      flags := ⟨false, false⟩
      memory := fun _ => 0 } 0x401000
    fun _ => area_ofNat_disjoint (i := 0x1000) (j := 0x107F8) (by decide) (by decide)
  refine ⟨r, c', hcall, hspec.back, hspec.result.trans ?_, ?_⟩
  · rfl
  · exact congrArg Ctx.rsp (hspec.ctx (by decide))

end

end PingPongOS
