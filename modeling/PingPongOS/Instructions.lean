import PingPongOS.ByteMemory

/-!
# A few x86-64 instructions

A listing is a list of labels and instructions.  It is run from one of its lines to the first
`ret`; what a stretch of instructions without jumps does is a function of the CPU, so a run
passes over it in one step.  The last section has the two stretches that a routine for contexts
is made of: one that writes registers to a record in memory, and one that reads them back.

Of the flags there are the two conditions that the jumps look at.
-/

namespace X86

open ByteMemory

/-- The general registers. -/
inductive Reg
  | rax
  | rbx
  | rcx
  | rdx
  | rsi
  | rdi
  | rbp
  | rsp
  | r8
  | r9
  | r10
  | r11
  | r12
  | r13
  | r14
  | r15
  deriving DecidableEq

/-- `ZF`, and whether `SF` and `OF` differ. -/
structure Flags where
  zero : Bool
  less : Bool
  deriving DecidableEq

structure Cpu where
  reg : Reg → BitVec 64
  flags : Flags
  memory : Memory 64

/-- The eight bytes at `a`. -/
def loadWord (m : Memory 64) (a : BitVec 64) : BitVec 64 := BitVec.ofNat 64 (load m a 8)

def storeWord (m : Memory 64) (a v : BitVec 64) : Memory 64 := store m a 8 v.toNat

/-- The instructions that neither jump nor return, operands in the order of the AT&T syntax. -/
inductive Op
  /-- `mov %src, off(%base)` -/
  | movTo (src : Reg) (off : Nat) (base : Reg)
  /-- `mov off(%base), %dst` -/
  | movFrom (off : Nat) (base dst : Reg)
  /-- `movl $imm, %dst`, on the lower half of `dst` -/
  | movl (imm : BitVec 32) (dst : Reg)
  /-- `lea off(%base), %dst` -/
  | lea (off : Nat) (base dst : Reg)
  /-- `cmp %src, %dst` -/
  | cmp (src dst : Reg)
  /-- `cmp $imm, %dst` -/
  | cmpImm (imm : BitVec 64) (dst : Reg)
  /-- `test $imm, %dst` -/
  | testImm (imm : BitVec 64) (dst : Reg)
  /-- `add %src, %dst` -/
  | add (src dst : Reg)
  /-- `sub $imm, %dst` -/
  | subImm (imm : BitVec 64) (dst : Reg)
  /-- `subq $imm, off(%base)` -/
  | subTo (imm : BitVec 64) (off : Nat) (base : Reg)
  /-- `xor %src, %dst`, on the lower halves -/
  | xorl (src dst : Reg)
  /-- `push off(%base)` -/
  | pushFrom (off : Nat) (base : Reg)
  deriving DecidableEq

/-- The condition of a jump. -/
inductive Cond
  | z
  | nz
  | l
  deriving DecidableEq

/-- A line of a listing with labels in `λ`. -/
inductive Line (Label : Type)
  | label (l : Label)
  | op (o : Op)
  | jump (c : Cond) (l : Label)
  | ret
  deriving DecidableEq

/-- The flags after `a - b`. -/
def Flags.ofSub (a b : BitVec 64) : Flags := ⟨a == b, a.slt b⟩

/-- The flags after a logical instruction with the result `a`. -/
def Flags.ofResult {w : Nat} (a : BitVec w) : Flags := ⟨a == 0, a.slt 0⟩

def Cond.holds (f : Flags) : Cond → Bool
  | .z => f.zero
  | .nz => !f.zero
  | .l => f.less

namespace Cpu

variable (c : Cpu)

def setReg (r : Reg) (v : BitVec 64) : Cpu := { c with reg := Function.update c.reg r v }

def setFlags (f : Flags) : Cpu := { c with flags := f }

/-- The address `off(%base)`. -/
def address (off : Nat) (base : Reg) : BitVec 64 := c.reg base + BitVec.ofNat 64 off

def setWord (a v : BitVec 64) : Cpu := { c with memory := storeWord c.memory a v }

/-- Push a word. -/
def push (v : BitVec 64) : Cpu :=
  (c.setReg .rsp (c.reg .rsp - 8)).setWord (c.reg .rsp - 8) v

end Cpu

/-- What an instruction does. -/
def Op.exec (c : Cpu) : Op → Cpu
  | .movTo src off base => c.setWord (c.address off base) (c.reg src)
  | .movFrom off base dst => c.setReg dst (loadWord c.memory (c.address off base))
  | .movl imm dst => c.setReg dst (imm.setWidth 64)
  | .lea off base dst => c.setReg dst (c.address off base)
  | .cmp src dst => c.setFlags (.ofSub (c.reg dst) (c.reg src))
  | .cmpImm imm dst => c.setFlags (.ofSub (c.reg dst) imm)
  | .testImm imm dst => c.setFlags (.ofResult (c.reg dst &&& imm))
  | .add src dst =>
      (c.setReg dst (c.reg dst + c.reg src)).setFlags
        ⟨c.reg dst + c.reg src == 0, decide ((c.reg dst).toInt + (c.reg src).toInt < 0)⟩
  | .subImm imm dst => (c.setReg dst (c.reg dst - imm)).setFlags (.ofSub (c.reg dst) imm)
  | .subTo imm off base =>
      (c.setWord (c.address off base) (loadWord c.memory (c.address off base) - imm)).setFlags
        (.ofSub (loadWord c.memory (c.address off base)) imm)
  | .xorl src dst =>
      let v := (c.reg src).setWidth 32 ^^^ (c.reg dst).setWidth 32
      (c.setReg dst (v.setWidth 64)).setFlags (.ofResult v)
  | .pushFrom off base => c.push (loadWord c.memory (c.address off base))

/-- A stretch of instructions without jumps. -/
def execAll (ops : List Op) (c : Cpu) : Cpu := ops.foldl Op.exec c

section

variable {Label : Type} [DecidableEq Label]

/-- The lines after a label. -/
def linesFrom (l : Label) : List (Line Label) → List (Line Label)
  | [] => []
  | .label k :: rest => if k = l then rest else linesFrom l rest
  | _ :: rest => linesFrom l rest

/-- Run to the first `ret`: the address it returns to, and the CPU after it. -/
def runLines (listing : List (Line Label)) :
    Nat → List (Line Label) → Cpu → Option (BitVec 64 × Cpu)
  | 0, _, _ => none
  | _ + 1, [], _ => none
  | n + 1, .label _ :: rest, c => runLines listing n rest c
  | n + 1, .op o :: rest, c => runLines listing n rest (o.exec c)
  | n + 1, .jump cond l :: rest, c =>
      runLines listing n (if cond.holds c.flags then linesFrom l listing else rest) c
  | _ + 1, .ret :: _, c =>
      some (loadWord c.memory (c.reg .rsp), c.setReg .rsp (c.reg .rsp + 8))

/-- `call l`, with the address to return to. -/
def call (listing : List (Line Label)) (l : Label) (back : BitVec 64) (c : Cpu) :
    Option (BitVec 64 × Cpu) :=
  runLines listing listing.length (linesFrom l listing) (c.push back)

variable {listing rest : List (Line Label)} {n : Nat} {c : Cpu}

/-- **Rule for a stretch without jumps.** -/
theorem runLines_ops (ops : List Op) :
    runLines listing (n + ops.length) (ops.map .op ++ rest) c =
      runLines listing n rest (execAll ops c) := by
  induction ops generalizing c with
  | nil => rfl
  | cons o ops ih =>
      rw [List.length_cons, ← Nat.add_assoc, List.map_cons, List.cons_append, runLines, ih]
      rfl

theorem runLines_jump {cond : Cond} {l : Label} :
    runLines listing (n + 1) (.jump cond l :: rest) c =
      runLines listing n (if cond.holds c.flags then linesFrom l listing else rest) c := rfl

theorem runLines_ret :
    runLines listing (n + 1) (.ret :: rest) c =
      some (loadWord c.memory (c.reg .rsp), c.setReg .rsp (c.reg .rsp + 8)) := rfl

end

/-! ## Words -/

section

variable {m m' : Memory 64} {a b v : BitVec 64}

theorem loadWord_congr (h : ∀ x ∈ area a 8, m x = m' x) : loadWord m a = loadWord m' a := by
  rw [loadWord, loadWord, load_congr h]

@[simp] theorem loadWord_storeWord : loadWord (storeWord m a v) a = v := by
  rw [loadWord, storeWord, load_store (by decide)]
  apply BitVec.eq_of_toNat_eq
  rw [BitVec.toNat_ofNat]
  have hlt := v.isLt
  omega

theorem loadWord_storeWord_of_disjoint (h : Disjoint (area a 8) (area b 8)) :
    loadWord (storeWord m b v) a = loadWord m a := by
  rw [loadWord, loadWord, storeWord, load_store_of_disjoint h]

theorem storeWord_of_notMem {x : BitVec 64} (h : x ∉ area a 8) : storeWord m a v x = m x :=
  store_of_notMem h

end

/-! ## Records of registers -/

/-- Registers, each with the offset of its field in the record. -/
abbrev Fields := List (Reg × Nat)

/-- Aligned words, inside a record of `size` bytes. -/
def Inside (size : Nat) (offsets : List Nat) : Prop := ∀ off ∈ offsets, 8 ∣ off ∧ off + 8 ≤ size

instance (size : Nat) (offsets : List Nat) : Decidable (Inside size offsets) :=
  inferInstanceAs (Decidable (∀ off ∈ offsets, _))

/-- The memory with words written at offsets from `a`, in order. -/
def writeFields (m : Memory 64) (a : BitVec 64) (words : List (Nat × BitVec 64)) : Memory 64 :=
  words.foldl (fun m p => storeWord m (a + BitVec.ofNat 64 p.1) p.2) m

/-- The registers with the fields of the record at `a` read. -/
def loadFields (m : Memory 64) (a : BitVec 64) (f : Reg → BitVec 64) (fields : Fields) :
    Reg → BitVec 64 :=
  fields.foldl (fun f p => Function.update f p.1 (loadWord m (a + BitVec.ofNat 64 p.2))) f

section

variable {fields : Fields} {words : List (Nat × BitVec 64)} {m : Memory 64} {a x : BitVec 64}
  {f : Reg → BitVec 64} {base : Reg} {size off : Nat}

theorem execAll_append (ops ops' : List Op) (c : Cpu) :
    execAll (ops ++ ops') c = execAll ops' (execAll ops c) := List.foldl_append

theorem writeFields_append (words words' : List (Nat × BitVec 64)) :
    writeFields m a (words ++ words') = writeFields (writeFields m a words) a words' :=
  List.foldl_append

/-- The stretch that writes a record. -/
theorem execAll_movTo (c : Cpu) :
    execAll (fields.map fun p => .movTo p.1 p.2 base) c =
      { c with
        memory := writeFields c.memory (c.reg base) (fields.map fun p => (p.2, c.reg p.1)) } := by
  induction fields generalizing c with
  | nil => rfl
  | cons p fields ih =>
      rw [List.map_cons, execAll, List.foldl_cons, ← execAll, ih]
      rfl

/-- The stretch that reads a record whose address is in `base`. -/
theorem execAll_movFrom (hbase : ∀ p ∈ fields, p.1 ≠ base) (c : Cpu) :
    execAll (fields.map fun p => .movFrom p.2 base p.1) c =
      { c with reg := loadFields c.memory (c.reg base) c.reg fields } := by
  induction fields generalizing c with
  | nil => rfl
  | cons p fields ih =>
      have hkeep : (c.setReg p.1 (loadWord c.memory (c.address p.2 base))).reg base =
          c.reg base := Function.update_of_ne (hbase p List.mem_cons_self).symm _ _
      rw [List.map_cons, execAll, List.foldl_cons, ← execAll,
        ih (fun q hq => hbase q (List.mem_cons_of_mem _ hq)), Op.exec, hkeep]
      rfl

/-- Writing a record changes no byte outside it. -/
theorem writeFields_of_notMem (hwords : Inside size (words.map Prod.fst)) (hfit : size ≤ 2 ^ 64)
    (hx : x ∉ area a size) : writeFields m a words x = m x := by
  induction words generalizing m with
  | nil => rfl
  | cons p words ih =>
      have hp : p.1 + 8 ≤ size := (hwords p.1 List.mem_cons_self).2
      rw [writeFields, List.foldl_cons, ← writeFields,
        ih fun off hoff => hwords off (List.mem_cons_of_mem _ hoff)]
      exact storeWord_of_notMem fun hmem => hx (area_subset hp hfit hmem)

/-- **A field of a record** reads the word last written there.  Aligned fields are the same
or apart. -/
theorem loadWord_writeFields (hwords : Inside size (words.map Prod.fst)) (hfit : size ≤ 2 ^ 64)
    (hoff : Inside size [off]) :
    loadWord (writeFields m a words) (a + BitVec.ofNat 64 off) =
      (words.reverse.lookup off).getD (loadWord m (a + BitVec.ofNat 64 off)) := by
  obtain ⟨hdvd, hle⟩ := hoff off List.mem_cons_self
  induction words using List.reverseRecOn with
  | nil => rfl
  | append_singleton words p ih =>
      rw [List.map_append] at hwords
      have hp := hwords p.1 (List.mem_append_right _ List.mem_cons_self)
      rw [writeFields_append, List.reverse_append]
      change loadWord (storeWord _ _ _) _ = ((p :: words.reverse).lookup off).getD _
      by_cases heq : off = p.1
      · rw [heq, loadWord_storeWord, List.lookup_cons_self, Option.getD_some]
      · have hapart : p.1 + 8 ≤ off ∨ off + 8 ≤ p.1 := by omega
        rw [List.lookup_cons, beq_eq_false_iff_ne.mpr heq,
          ← ih fun q hq => hwords q (List.mem_append_left _ hq)]
        refine loadWord_storeWord_of_disjoint ?_
        rcases hapart with hbefore | hafter
        · exact (area_disjoint hbefore (hle.trans hfit)).symm
        · exact area_disjoint hafter (hp.2.trans hfit)

/-- A register that is not read from the record. -/
theorem loadFields_of_notMem {r : Reg} (hr : r ∉ fields.map Prod.fst) :
    loadFields m a f fields r = f r := by
  induction fields generalizing f with
  | nil => rfl
  | cons q fields ih =>
      rw [List.map_cons, List.mem_cons, not_or] at hr
      rw [loadFields, List.foldl_cons, ← loadFields, ih hr.2, Function.update_of_ne hr.1]

/-- A register that is read from the record. -/
theorem loadFields_of_mem {p : Reg × Nat} (hnodup : (fields.map Prod.fst).Nodup)
    (hp : p ∈ fields) : loadFields m a f fields p.1 = loadWord m (a + BitVec.ofNat 64 p.2) := by
  induction fields generalizing f with
  | nil => exact absurd hp List.not_mem_nil
  | cons q fields ih =>
      rw [List.map_cons, List.nodup_cons] at hnodup
      rw [loadFields, List.foldl_cons, ← loadFields]
      rcases List.mem_cons.mp hp with rfl | hmem
      · rw [loadFields_of_notMem hnodup.1, Function.update_self]
      · exact ih hnodup.2 hmem

end

end X86
