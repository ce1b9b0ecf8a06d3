import PingPongOS.DiskHistory

/-!
# The disk serves requests in order, as if one by one

Beside the order of service, the contents of the disk and of the memory: they are
what the stores of the tasks and the transfers make of them, and, while no task writes
to the buffer of a request that waits, what executing each request at its arrival
makes of them once the requests that still wait are executed as well.
-/

namespace PingPongOS

open Runs TaskSystem

/-- What is on the disk and in the memory. -/
structure Contents where
  image : Int → Block
  memory : Nat → UInt8

namespace Contents

variable (c : Contents)

/-- A task stores a byte. -/
def store (address : Nat) (byte : UInt8) : Contents :=
  { c with memory := Function.update c.memory address byte }

/-- An operation is executed. -/
def serve (o : DiskOp) : Contents :=
  match o.type with
  | .read => { c with memory := pread c.memory o.buffer (c.image o.block) }
  | .write => { c with image := Function.update c.image o.block (pwrite c.memory o.buffer) }

/-- **A read** fills the buffer of its caller with the bytes of the block, and changes nothing
else. -/
theorem serve_read {o : DiskOp} (ho : o.type = .read) :
    (∀ i : Fin 64, (c.serve o).memory (o.buffer + i) = c.image o.block i) ∧
      (∀ a, a < o.buffer ∨ o.buffer + 64 ≤ a → (c.serve o).memory a = c.memory a) ∧
      (c.serve o).image = c.image := by
  refine ⟨fun i => ?_, fun a ha => ?_, ?_⟩
  · have hi := i.isLt
    simp only [serve, ho, pread]
    rw [if_pos (by omega), Nat.add_sub_cancel_left]
    rw [Fin.ofNat_val_eq_self]
  · simp only [serve, ho, pread]
    exact if_neg (by omega)
  · simp only [serve, ho]

/-- **A write** puts the bytes of the buffer in the block, and changes nothing else. -/
theorem serve_write {o : DiskOp} (ho : o.type = .write) :
    (∀ i : Fin 64, (c.serve o).image o.block i = c.memory (o.buffer + i)) ∧
      (∀ b, b ≠ o.block → (c.serve o).image b = c.image b) ∧ (c.serve o).memory = c.memory := by
  refine ⟨fun i => ?_, fun b hb => ?_, ?_⟩
  · simp only [serve, ho, Function.update_self, pwrite]
  · simp only [serve, ho]
    exact Function.update_of_ne hb ..
  · simp only [serve, ho]

end Contents

/-- An operation is executed, and the block it moves is noted. -/
def execute (x : Contents × List Block) (o : DiskOp) : Contents × List Block :=
  (x.1.serve o, x.2 ++ [transferred x.1.image x.1.memory o])

/-- The contents after the stores and the transfers of a history. -/
def replay (c : Contents) (H : List DiskEvent) : Contents :=
  H.foldl (fun c e => match e with
    | .moved o _ => c.serve o
    | .stored address byte => c.store address byte
    | _ => c) c

/-- **Execution one by one**: each request is executed when it arrives. -/
def oneByOne (c : Contents) (H : List DiskEvent) : Contents × List Block :=
  H.foldl (fun x e => match e with
    | .arrived _ o => execute x o
    | .stored address byte => (x.1.store address byte, x.2)
    | _ => x) (c, [])

/-- The contents in a state. -/
def Kernel.contents (k : Kernel) : Contents := ⟨k.disk.image, k.memory⟩

/-- The byte is in the buffer of the operation. -/
def DiskOp.covers (o : DiskOp) (address : Nat) : Prop :=
  o.buffer ≤ address ∧ address < o.buffer + 64

instance (o : DiskOp) (address : Nat) : Decidable (o.covers address) :=
  inferInstanceAs (Decidable (_ ∧ _))

/-- A store of this step is outside the buffers of the requests that wait. -/
def storesOutside (k : Kernel) : Action → Bool
  | .store address _ => k.requests.items.all fun r => !decide ((k.request r).op.covers address)
  | _ => true

/-- An event that changes no contents and brings no request. -/
def DiskEvent.silent : DiskEvent → Bool
  | .commanded _ _ _ | .woken _ | .returned _ _ => true
  | .arrived _ _ | .moved _ _ | .stored _ _ => false

variable {k k' : Kernel} {H : List DiskEvent} {a : Action} {c c₀ : Contents} {o : DiskOp}

/-! ## What a step does to the contents -/

/-- The disk's transfer executes the operation in its registers. -/
theorem diskSighandle_serve {m : Nat → UInt8} {d : Disk}
    (hd : diskSighandle k.memory k.disk = some (m, d)) :
    (⟨d.image, m⟩ : Contents) = k.contents.serve k.disk.op := by
  unfold diskSighandle at hd
  cases hs : k.disk.status <;> rw [hs] at hd
  · exact absurd hd (by simp)
  · obtain ⟨rfl, rfl⟩ := Prod.mk.inj (Option.some.inj hd)
    simp [Contents.serve, Disk.op, Kernel.contents, hs]
  · obtain ⟨rfl, rfl⟩ := Prod.mk.inj (Option.some.inj hd)
    simp [Contents.serve, Disk.op, Kernel.contents, hs]

/-- **The contents in a step**: they stay, or the disk executes an operation, or a task
stores a byte. -/
inductive ContentsStep (k : Kernel) (a : Action) (k' : Kernel) : Prop
  | silent (hc : k'.contents = k.contents) (he : ∀ e ∈ diskEvents k a, e.silent = true)
  | arrives {t : Nat} {o : DiskOp} (hc : k'.contents = k.contents)
      (he : diskEvents k a = [.arrived t o])
  | moves (hd : k.disk.status ≠ .idle) (hc : k'.contents = k.contents.serve k.disk.op)
      (he : diskEvents k a =
        [.moved k.disk.op (transferred k.disk.image k.memory k.disk.op)])
  | stores {address : Nat} {byte : UInt8} (ha : a = .store address byte)
      (hc : k'.contents = k.contents.store address byte)
      (he : diskEvents k a = [.stored address byte])

/-- A command changes nothing on the disk. -/
theorem hwDiskCmd_image (d : Disk) (cmd : DiskCmd) (block : Int) (buffer : Nat) :
    (hwDiskCmd d cmd block buffer).2.image = d.image := by
  unfold hwDiskCmd
  split
  · rfl
  · split
    · rfl
    · split <;> rfl

/-- The disk manager and a call that returns change no contents. -/
theorem silent_events (ha : a = .manager ∨ a = .resume) :
    ∀ e ∈ diskEvents k a, e.silent = true := by
  intro e he
  rcases ha with rfl | rfl
  · simp only [diskEvents] at he
    split at he
    · rw [List.mem_singleton.mp he]
      rfl
    · rw [List.mem_singleton.mp he]
      rfl
    · exact absurd he (by simp)
  · have hevents : diskEvents k .resume = if k.point k.current = .block then
        [.returned k.current (k.request k.current).returnValue] else [] := rfl
    rw [hevents] at he
    split at he
    · rw [List.mem_singleton.mp he]
      rfl
    · exact absurd he (by simp)

theorem KernelInv.contents_step (h : KernelInv k) (hs : k.step a = some k') :
    ContentsStep k a k' := by
  obtain ⟨-, heffect⟩ := h.step hs
  cases heffect with
  | tasks ha _ =>
      exact .silent rfl fun e he => absurd he (by simp [diskEvents_onTasks ha])
  | asks hb _ _ _ =>
      rw [blockCall_of_buffer k hb]
      exact .arrives rfl (if_neg hb)
  | stores => exact .stores rfl rfl rfl
  | transfers hd => exact .moves (h.diskDone hd).1 (diskSighandle_serve hd) rfl
  | returns _ _ | returnsDown _ _ => exact .silent rfl (silent_events (Or.inr rfl))
  | starts _ _ | idles _ _ _ _ | answers _ _ _ _ _ =>
      exact .silent rfl (silent_events (Or.inl rfl))
  | @serves r S hc hp hq hsusp hready =>
      refine .silent ?_ (silent_events (Or.inl rfl))
      simp [Kernel.contents, hwDiskCmd_image, Kernel.setPoint]
  | sleeps _ _ | joins _ _ | creates _ | downs _ | waits _ _ _ | ups _ _ _ _ | destroys _
  | rejects | interrupts _ _ =>
      exact .silent rfl fun e he => absurd he (by simp [diskEvents])

/-! ## Silent events -/

/-- Silent events leave no trace in what a history says about the contents. -/
theorem silent_trace {E : List DiskEvent} (he : ∀ e ∈ E, e.silent = true) :
    replay c (H ++ E) = replay c H ∧ oneByOne c (H ++ E) = oneByOne c H ∧
      arrivals (H ++ E) = arrivals H ∧ transfers (H ++ E) = transfers H := by
  induction E generalizing H with
  | nil => simp
  | cons e E ih =>
      have hrest := ih (H := H ++ [e]) fun x hx => he x (List.mem_cons_of_mem _ hx)
      rw [List.append_assoc, List.singleton_append] at hrest
      have hsilent := he e (List.mem_cons_self ..)
      obtain ⟨h1, h2, h3, h4⟩ := hrest
      rw [h1, h2, h3, h4]
      cases e with
      | commanded _ _ _ | woken _ | returned _ _ =>
          simp [replay, oneByOne, arrivals, transfers, List.foldl_append]
      | arrived _ _ | moved _ _ | stored _ _ => exact absurd hsilent (by simp [DiskEvent.silent])

/-- **The contents are the replay** of the stores and the transfers. -/
theorem KernelInv.replay_step (h : KernelInv k) (hs : k.step a = some k')
    (hreplay : replay c₀ H = k.contents) : replay c₀ (H ++ diskEvents k a) = k'.contents := by
  cases h.contents_step hs with
  | silent hc he => rw [(silent_trace he).1, hc, hreplay]
  | arrives hc he =>
      rw [he, hc, ← hreplay]
      simp [replay]
  | moves _ hc he =>
      rw [he, hc, ← hreplay]
      simp [replay, List.foldl_append]
  | stores _ hc he =>
      rw [he, hc, ← hreplay]
      simp [replay, List.foldl_append]

/-! ## Execution one by one -/

/-- A store outside a buffer and a read into it commute. -/
theorem pread_store {m : Nat → UInt8} {buffer address : Nat} {byte : UInt8} (b : Block)
    (hout : ¬ (buffer ≤ address ∧ address < buffer + 64)) :
    pread (Function.update m address byte) buffer b =
      Function.update (pread m buffer b) address byte := by
  funext x
  unfold pread
  by_cases hx : x = address
  · subst hx
    rw [if_neg hout, Function.update_self, Function.update_self]
  · simp only [Function.update_of_ne hx]

/-- A store outside a buffer does not change what is written from it. -/
theorem pwrite_store {m : Nat → UInt8} {buffer address : Nat} {byte : UInt8}
    (hout : ¬ (buffer ≤ address ∧ address < buffer + 64)) :
    pwrite (Function.update m address byte) buffer = pwrite m buffer := by
  funext i
  unfold pwrite
  have hi := i.isLt
  rw [Function.update_of_ne]
  omega

/-- A store outside the buffers of some operations can be made before them or after. -/
theorem execute_store {address : Nat} {byte : UInt8} {os : List DiskOp}
    (hout : ∀ o ∈ os, ¬ o.covers address) (x : Contents × List Block) :
    os.foldl execute (x.1.store address byte, x.2) =
      (((os.foldl execute x).1.store address byte), (os.foldl execute x).2) := by
  induction os generalizing x with
  | nil => rfl
  | cons o os ih =>
      have ho : ¬ (o.buffer ≤ address ∧ address < o.buffer + 64) :=
        hout o (List.mem_cons_self ..)
      have hfirst : execute (x.1.store address byte, x.2) o =
          ((execute x o).1.store address byte, (execute x o).2) := by
        obtain ⟨type, block, buffer⟩ := o
        cases type with
        | read => simp [execute, Contents.serve, Contents.store, transferred, pread_store _ ho]
        | write => simp [execute, Contents.serve, Contents.store, transferred, pwrite_store ho]
      rw [List.foldl_cons, List.foldl_cons, hfirst]
      exact ih (fun o ho => hout o (List.mem_cons_of_mem _ ho)) (execute x o)

/-- **Execution one by one agrees** with the disk: the operations that have arrived and
are still to be transferred, executed now, lead to the contents and the blocks that
execution at arrival led to. -/
def Agrees (c₀ : Contents) (k : Kernel) (H : List DiskEvent) : Prop :=
  ∀ waiting : List DiskOp,
    (arrivals H).map (·.2) = (transfers H).map (·.1) ++ waiting →
    waiting.foldl execute (k.contents, (transfers H).map (·.2)) = oneByOne c₀ H

/-- The operations still to be transferred are those of requests in the queue. -/
theorem ServiceInv.waiting (h : ServiceInv k H) : ∃ waiting : List DiskOp,
    (arrivals H).map (·.2) = (transfers H).map (·.1) ++ waiting ∧
    (∀ o ∈ waiting, ∃ r ∈ k.requests.items, o = (k.request r).op) ∧
    (k.disk.status ≠ .idle → ∃ rest, waiting = k.disk.op :: rest) ∧
    (k.requests.items = [] → waiting = []) := by
  obtain ⟨answered, ha, -, hphase⟩ := h.order
  have harr : (arrivals H).map (·.2) =
      answered.map (·.2) ++ k.requests.items.map fun r => (k.request r).op := by
    rw [ha]
    simp
  cases hphase with
  | waiting hp _ ht =>
      refine ⟨_, ht ▸ harr, ?_, ?_, ?_⟩
      · intro o ho
        obtain ⟨r, hr, rfl⟩ := List.mem_map.mp ho
        exact ⟨r, hr, rfl⟩
      · intro hd
        obtain ⟨⟨r, hr⟩, -⟩ := h.kernel.disk.busy (Or.inl hd)
        exact absurd (blockedAt_eq_some.mp hr).2 (hp r)
      · intro hnil
        rw [hnil]
        rfl
  | @busy r hp _ ho _ _ ht =>
      have hsplit := List.eq_cons_of_mem_head? (h.kernel.disk.served r hp)
      refine ⟨_, ht ▸ harr, ?_, ?_, ?_⟩
      · intro o ho
        obtain ⟨r, hr, rfl⟩ := List.mem_map.mp ho
        exact ⟨r, hr, rfl⟩
      · intro _
        rw [hsplit, ho]
        exact ⟨_, rfl⟩
      · intro hnil
        rw [hnil]
        rfl
  | @done r hp hidle _ _ ht =>
      have hsplit := List.eq_cons_of_mem_head? (h.kernel.disk.served r hp)
      refine ⟨k.requests.items.tail.map fun r => (k.request r).op, ?_, ?_, ?_, ?_⟩
      · rw [harr, ht, List.append_assoc]
        conv_lhs => rw [hsplit]
        simp
      · intro o ho
        obtain ⟨r, hr, rfl⟩ := List.mem_map.mp ho
        exact ⟨r, List.mem_of_mem_tail hr, rfl⟩
      · exact fun hd => absurd hidle hd
      · intro hnil
        rw [hnil]
        rfl

/-- **A step keeps the agreement** with execution one by one, if its store, if any, is
outside the buffers in use. -/
theorem ServiceInv.agrees_step (h : ServiceInv k H) (hs : k.step a = some k')
    (hout : storesOutside k a = true) (hagree : Agrees c₀ k H) :
    Agrees c₀ k' (H ++ diskEvents k a) := by
  intro waiting hwaiting
  cases h.kernel.contents_step hs with
  | silent hc he =>
      obtain ⟨-, hone, harr, htrans⟩ := silent_trace (c := c₀) (H := H) he
      rw [harr, htrans] at hwaiting
      rw [hc, htrans, hone]
      exact hagree waiting hwaiting
  | @arrives t o hc he =>
      obtain ⟨before, hbefore, -⟩ := h.waiting
      rw [he] at hwaiting ⊢
      have harr : (arrivals (H ++ [.arrived t o])).map (·.2) =
          (arrivals H).map (·.2) ++ [o] := by simp [arrivals]
      have htrans : transfers (H ++ [.arrived t o]) = transfers H := by simp [transfers]
      have hone : oneByOne c₀ (H ++ [.arrived t o]) = execute (oneByOne c₀ H) o := by
        simp [oneByOne, List.foldl_append]
      rw [harr, htrans, hbefore, List.append_assoc] at hwaiting
      obtain rfl := List.append_cancel_left hwaiting
      rw [hc, htrans, hone, List.foldl_append, hagree before hbefore]
      rfl
  | moves _ hc he =>
      rw [he] at hwaiting ⊢
      have harr : arrivals (H ++ [.moved k.disk.op
          (transferred k.disk.image k.memory k.disk.op)]) = arrivals H := by simp [arrivals]
      have htrans : transfers (H ++ [.moved k.disk.op
          (transferred k.disk.image k.memory k.disk.op)]) =
          transfers H ++ [(k.disk.op, transferred k.disk.image k.memory k.disk.op)] := by
        simp [transfers]
      have hone : oneByOne c₀ (H ++ [.moved k.disk.op
          (transferred k.disk.image k.memory k.disk.op)]) = oneByOne c₀ H := by
        simp [oneByOne, List.foldl_append]
      rw [harr, htrans, List.map_append, List.append_assoc] at hwaiting
      rw [hc, htrans, hone, List.map_append]
      exact hagree (k.disk.op :: waiting) hwaiting
  | @stores address byte ha hc he =>
      obtain ⟨before, hbefore, hmem, -⟩ := h.waiting
      rw [he] at hwaiting ⊢
      have harr : arrivals (H ++ [.stored address byte]) = arrivals H := by simp [arrivals]
      have htrans : transfers (H ++ [.stored address byte]) = transfers H := by simp [transfers]
      have hone : oneByOne c₀ (H ++ [.stored address byte]) =
          ((oneByOne c₀ H).1.store address byte, (oneByOne c₀ H).2) := by
        simp [oneByOne, List.foldl_append]
      rw [harr, htrans, hbefore] at hwaiting
      obtain rfl := List.append_cancel_left hwaiting
      subst ha
      have hclear : ∀ o ∈ before, ¬ o.covers address := by
        intro o ho
        obtain ⟨r, hr, rfl⟩ := hmem o ho
        have := List.all_eq_true.mp hout r hr
        simpa using this
      rw [hc, htrans, hone]
      rw [execute_store hclear (k.contents, (transfers H).map (·.2)), hagree before hbefore]

/-! ## The promises of the block layer -/

/-- **What the block layer promises**, in the state `k` after the history `H`, from the
contents `c₀` at the boot. -/
structure ServiceSpec (c₀ : Contents) (k : Kernel) (H : List DiskEvent) : Prop where
  /-- The disk is commanded each request once, in order of arrival; -/
  commands : commands H <+: (arrivals H).map (·.2)
  /-- it is idle then and accepts. -/
  accepted : ∀ o status code, .commanded o status code ∈ H → status = .idle ∧ code = noError
  /-- It transfers in that order, -/
  transfers : (transfers H).map (·.1) <+: PingPongOS.commands H
  /-- and in that order the callers are woken, -/
  wakeups : wakeups H <+: (arrivals H).map (·.1)
  /-- each after its own transfer. -/
  afterTransfer : (PingPongOS.wakeups H).length ≤ (PingPongOS.transfers H).length
  /-- No request is lost: whoever has not been woken is in the queue, -/
  queue : (arrivals H).map (·.1) = PingPongOS.wakeups H ++ k.requests.items
  /-- and it is suspended in its call. -/
  suspended : ∀ t, t ∈ k.requests.items ↔
    (k.sys.task t).status = .suspended ∧ k.point t = .block
  /-- A caller becomes ready in the step that wakes it, and in no other. -/
  woken : ∀ a k' t, k.step a = some k' → t ∈ k.requests.items →
    (.woken t ∈ diskEvents k a → (k'.sys.task t).status = .ready) ∧
      (.woken t ∉ diskEvents k a → (k'.sys.task t).status = .suspended)
  /-- The disk manager is never left blocked. -/
  alive : ¬ Hung k
  /-- Every call returns `0`. -/
  returned : ∀ t code, .returned t code ∈ H → code = noError
  /-- The contents are those of the stores and the transfers, one after the other. -/
  contents : replay c₀ H = k.contents

/-- **Sequential consistency**: each transfer has moved the block that execution one by
one at arrival would have moved, and with no request in the queue the contents are
the same. -/
structure Serial (c₀ : Contents) (k : Kernel) (H : List DiskEvent) : Prop where
  blocks : (transfers H).map (·.2) <+: (oneByOne c₀ H).2
  contents : k.requests.items = [] →
    k.contents = (oneByOne c₀ H).1 ∧ (transfers H).map (·.2) = (oneByOne c₀ H).2

/-- Execution only adds blocks. -/
theorem execute_prefix (os : List DiskOp) (x : Contents × List Block) :
    x.2 <+: (os.foldl execute x).2 := by
  induction os generalizing x with
  | nil => exact List.prefix_refl _
  | cons o os ih => exact (List.prefix_append _ _).trans (ih (execute x o))

theorem ServiceInv.serial (h : ServiceInv k H) (hagree : Agrees c₀ k H) : Serial c₀ k H := by
  obtain ⟨waiting, hwaiting, -, -, hnil⟩ := h.waiting
  have heq := hagree waiting hwaiting
  refine ⟨?_, fun hempty => ?_⟩
  · rw [← heq]
    exact execute_prefix waiting (k.contents, _)
  · rw [← heq, hnil hempty]
    exact ⟨rfl, rfl⟩

/-- Only the disk manager wakes callers, when it has served their request. -/
theorem mem_woken {t : Nat} (hin : .woken t ∈ diskEvents k a) :
    a = .manager ∧ ∃ r, k.point 1 = .manager (.served r) ∧ t = (k.request r).task := by
  cases a with
  | manager =>
      refine ⟨rfl, ?_⟩
      simp only [diskEvents] at hin
      split at hin
      · exact absurd hin (by simp)
      · rename_i hp
        exact ⟨_, hp, DiskEvent.woken.inj (List.mem_singleton.mp hin)⟩
      · exact absurd hin (by simp)
  | resume =>
      have hevents : diskEvents k .resume = if k.point k.current = .block then
          [.returned k.current (k.request k.current).returnValue] else [] := rfl
      rw [hevents] at hin
      split at hin <;> exact absurd hin (by simp)
  | blockCall type block buffer =>
      by_cases hb : buffer = 0
      · exact absurd hin (by simp [diskEvents, hb])
      · exact absurd hin (by simp [diskEvents, hb])
  | _ => exact absurd hin (by simp [diskEvents])

/-- **A caller becomes ready** in the step that wakes it, and stays suspended in every
other. -/
theorem KernelInv.woken_step (h : KernelInv k) (hs : k.step a = some k') {t : Nat}
    (ht : t ∈ k.requests.items) :
    (.woken t ∈ diskEvents k a → (k'.sys.task t).status = .ready) ∧
      (.woken t ∉ diskEvents k a → (k'.sys.task t).status = .suspended) := by
  obtain ⟨hk, heffect⟩ := h.step hs
  have hstay : t ∈ k'.requests.items → .woken t ∉ diskEvents k a →
      (.woken t ∈ diskEvents k a → (k'.sys.task t).status = .ready) ∧
        (.woken t ∉ diskEvents k a → (k'.sys.task t).status = .suspended) :=
    fun hin hnot => ⟨fun hmem => absurd hmem hnot,
      fun _ => (blockedAt_eq_some.mp ((hk.mem_requests t).mp hin)).1⟩
  cases heffect with
  | @answers r S hc hp hw hwoken hm =>
      have hhead := h.disk.served r hp
      have hrmem : r ∈ k.requests.items := List.mem_of_mem_head? hhead
      have hevents : diskEvents k .manager = [.woken r] := by
        have hp' : k.point taskDiskHandler = .manager (.served r) := hp
        simp [diskEvents, hp', (h.disk.caller r hrmem).1]
      by_cases htr : t = r
      · subst htr
        refine ⟨fun _ => hwoken.status, fun hnot => absurd ?_ hnot⟩
        rw [hevents]
        exact List.mem_singleton_self _
      · apply hstay
        · change t ∈ (queueDel k.requests r).2.items
          rw [queueDel_head hhead]
          rw [List.eq_cons_of_mem_head? hhead, List.mem_cons] at ht
          exact ht.resolve_left htr
        · rw [hevents]
          simpa using htr
  | asks hb _ _ _ =>
      apply hstay
      · rw [blockCall_of_buffer k hb]
        change t ∈ (queueAdd k.requests k.current).items
        rw [queueAdd_items]
        exact List.mem_append_left _ ht
      · exact fun hin => absurd (mem_woken hin).1 (by simp)
  | starts _ hp | idles _ hp _ _ | serves _ hp _ _ _ =>
      apply hstay ht
      intro hin
      obtain ⟨-, r, hr, -⟩ := mem_woken hin
      rw [hp] at hr
      exact absurd hr (by simp)
  | tasks ha _ => exact hstay ht (by simp [diskEvents_onTasks ha])
  | _ => exact hstay ht fun hin => absurd (mem_woken hin).1 (by simp)

/-- **The promises hold** wherever the invariant does. -/
theorem ServiceInv.spec (h : ServiceInv k H) (hreplay : replay c₀ H = k.contents) :
    ServiceSpec c₀ k H := by
  obtain ⟨answered, ha, hw, hphase⟩ := h.order
  have harr : (arrivals H).map (·.2) =
      answered.map (·.2) ++ k.requests.items.map fun r => (k.request r).op := by
    rw [ha]
    simp
  have hcallers : (arrivals H).map (·.1) = wakeups H ++ k.requests.items := by
    rw [ha, hw, List.map_append, List.map_map]
    exact congrArg _ (List.map_id _)
  have hpre : commands H <+: (arrivals H).map (·.2) ∧
      (transfers H).map (·.1) <+: commands H ∧ (wakeups H).length ≤ (transfers H).length := by
    have hlen : (wakeups H).length = (answered.map (·.2)).length := by
      rw [hw]
      simp
    have htlen : (transfers H).length = ((transfers H).map (·.1)).length := by simp
    rw [harr, hlen, htlen]
    have hhead : ∀ {r}, k.point 1 = .manager (.served r) → answered.map (·.2) ++
        [(k.request r).op] <+: answered.map (·.2) ++
          k.requests.items.map fun r => (k.request r).op := by
      intro r hp
      rw [List.eq_cons_of_mem_head? (h.kernel.disk.served r hp)]
      exact ⟨_, by rw [List.map_cons, List.append_assoc]; rfl⟩
    cases hphase with
    | waiting _ hc ht =>
        rw [hc, ht]
        exact ⟨List.prefix_append _ _, List.prefix_refl _, Nat.le_refl _⟩
    | busy hp _ _ _ hc ht =>
        rw [hc, ht]
        exact ⟨hhead hp, List.prefix_append _ _, Nat.le_refl _⟩
    | done hp _ _ hc ht =>
        rw [hc, ht]
        refine ⟨hhead hp, List.prefix_refl _, ?_⟩
        rw [List.length_append]
        exact Nat.le_add_right _ _
  refine ⟨hpre.1, h.accepted, hpre.2.1, ?_, hpre.2.2, hcallers, fun t => ?_,
    fun a k' t hs ht => h.kernel.woken_step hs ht, h.alive, h.returned, hreplay⟩
  · rw [hcallers]
    exact List.prefix_append _ _
  · exact (h.kernel.mem_requests t).trans blockedAt_eq_some

/-- At the boot nothing has happened. -/
theorem serviceInv_boot (numblocks : Int) (image : Int → Block) (memory : Nat → UInt8) :
    ServiceInv (Kernel.boot numblocks image memory) [] := by
  refine ⟨kernelInv_boot .., ?_, fun r hr => ?_, fun t hp => ?_, ?_, ?_, [], rfl, rfl,
    .waiting (fun r hr => ?_) rfl rfl⟩
  · intro hhung
    have hready := hhung.2.1
    rw [boot_occurs] at hready
    exact absurd hready (by simp [taskDiskHandler])
  · exact absurd hr (by simp [Kernel.boot, queueCreate, Queue.items])
  · change (if t = taskDiskHandler then TaskPoint.manager .start else .user) = _ at hp
    split at hp <;> exact absurd hp (by simp)
  · exact fun o status code hin => absurd hin (by simp)
  · exact fun t code hin => absurd hin (by simp)
  · exact absurd (TaskPoint.manager.inj hr) (by simp)

/-- Task 2 writes its buffer to block 3, and task 3 reads that block while the disk is busy;
task 4 stores elsewhere before the disk is done, and task 2 into its buffer once it has its
answer. -/
def twoClients : List Action :=
  [.dispatcher, .dispatcher, .manager, .manager, .dispatcher, .dispatcher, .create true,
    .create true, .store 100 7, .blockCall .write 3 100, .dispatcher, .dispatcher, .manager,
    .dispatcher, .dispatcher, .blockCall .read 3 200, .dispatcher, .dispatcher, .store 300 9,
    .yield, .diskDone, .irq, .dispatcher, .dispatcher, .yield, .dispatcher, .dispatcher,
    .manager, .manager, .dispatcher, .dispatcher, .diskDone, .irq, .yield, .dispatcher,
    .dispatcher, .resume, .store 100 8, .yield, .dispatcher, .dispatcher, .manager, .manager,
    .dispatcher, .dispatcher, .yield, .dispatcher, .dispatcher, .yield, .dispatcher,
    .dispatcher, .resume]

end PingPongOS
