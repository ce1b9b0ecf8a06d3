import PingPongOS.RejectedRequest

/-!
# The order of the disk's service

The history of the block layer records the requests as they arrive, the commands the
disk gets, its transfers, the callers that are woken and what they are given back.
While every request names a block of the disk, commands, transfers and wake-ups follow
the order of arrival, one for each request.
-/

namespace PingPongOS

open Runs TaskSystem

/-- What a request asks of the disk. -/
structure DiskOp where
  type : DiskCmd
  block : Int
  buffer : Nat
  deriving DecidableEq

def Request.op (r : Request) : DiskOp := ⟨r.type, r.block, r.buffer⟩

/-- The operation an accepted command has left in the disk's registers. -/
def Disk.op (d : Disk) : DiskOp :=
  ⟨if d.status = .write then .write else .read, d.nextBlock, d.buffer⟩

/-- The block that an operation moves. -/
def transferred (image : Int → Block) (memory : Nat → UInt8) (o : DiskOp) : Block :=
  match o.type with
  | .read => image o.block
  | .write => pwrite memory o.buffer

/-- What happens in the block layer: a request arrives, a command is given to the disk,
the disk transfers a block, a caller is woken, a call returns; and a store of a task. -/
inductive DiskEvent
  | arrived (t : Nat) (o : DiskOp)
  | commanded (o : DiskOp) (status : DiskStatus) (code : Int)
  | moved (o : DiskOp) (data : Block)
  | woken (t : Nat)
  | returned (t : Nat) (code : Int)
  | stored (address : Nat) (byte : UInt8)

/-- The events of a step. -/
def diskEvents (k : Kernel) : Action → List DiskEvent
  | .blockCall type block buffer =>
      if buffer = 0 then [] else [.arrived k.current ⟨type, block, buffer⟩]
  | .store address byte => [.stored address byte]
  | .manager =>
      match k.point taskDiskHandler, queueItem k.requests with
      | .manager .loop, some r =>
          [.commanded (k.request r).op k.disk.status (hwDiskCmd k.disk (k.request r).type
            (k.request r).block (k.request r).buffer).1]
      | .manager (.served r), _ => [.woken (k.request r).task]
      | _, _ => []
  | .diskDone => [.moved k.disk.op (transferred k.disk.image k.memory k.disk.op)]
  | .resume =>
      if k.point k.current = .block then
        [.returned k.current (k.request k.current).returnValue]
      else []
  | _ => []

section

variable (H : List DiskEvent)

/-- The requests in order of arrival, with their callers. -/
def arrivals : List (Nat × DiskOp) := H.filterMap fun
  | .arrived t o => some (t, o)
  | _ => none

/-- The operations the disk was commanded. -/
def commands : List DiskOp := H.filterMap fun
  | .commanded o _ _ => some o
  | _ => none

/-- The operations the disk performed, with the blocks they moved. -/
def transfers : List (DiskOp × Block) := H.filterMap fun
  | .moved o b => some (o, b)
  | _ => none

/-- The callers in the order in which they were woken. -/
def wakeups : List Nat := H.filterMap fun
  | .woken t => some t
  | _ => none

end

/-- Where the disk manager, the disk and the request at the head stand: nothing is in
work, the disk is busy with the request at the head, or it is done with it and the
caller is still to be woken. -/
inductive ServicePhase (k : Kernel) (answered : List (Nat × DiskOp)) (H : List DiskEvent) : Prop
  | waiting (hp : ∀ r, k.point 1 ≠ .manager (.served r))
      (hc : commands H = answered.map (·.2)) (ht : (transfers H).map (·.1) = answered.map (·.2))
  | busy {r : Nat} (hp : k.point 1 = .manager (.served r)) (hd : k.disk.status ≠ .idle)
      (ho : k.disk.op = (k.request r).op) (hr : (k.request r).returnValue = noError)
      (hc : commands H = answered.map (·.2) ++ [(k.request r).op])
      (ht : (transfers H).map (·.1) = answered.map (·.2))
  | done {r : Nat} (hp : k.point 1 = .manager (.served r)) (hd : k.disk.status = .idle)
      (hr : (k.request r).returnValue = noError)
      (hc : commands H = answered.map (·.2) ++ [(k.request r).op])
      (ht : (transfers H).map (·.1) = answered.map (·.2) ++ [(k.request r).op])

/-- The invariant of the block layer; the requests `answered` are those whose callers
have been woken. -/
structure ServiceInv (k : Kernel) (H : List DiskEvent) : Prop where
  kernel : KernelInv k
  alive : ¬ Hung k
  blocks : ∀ r, r ∈ k.requests.items →
    0 ≤ (k.request r).block ∧ (k.request r).block < k.disk.numblocks
  results : ∀ t, k.point t = .block → t ∉ k.requests.items →
    (k.request t).returnValue = noError
  accepted : ∀ o status code, .commanded o status code ∈ H → status = .idle ∧ code = noError
  returned : ∀ t code, .returned t code ∈ H → code = noError
  order : ∃ answered, arrivals H =
    answered ++ k.requests.items.map (fun r => (r, (k.request r).op)) ∧
    wakeups H = answered.map (·.1) ∧ ServicePhase k answered H

/-- A call with a buffer names a block of the disk. -/
def inRange (k : Kernel) : Action → Bool
  | .blockCall _ block buffer => decide (buffer ≠ 0 → 0 ≤ block ∧ block < k.disk.numblocks)
  | _ => true

variable {k k' : Kernel} {H : List DiskEvent} {a : Action}

/-- Nothing happens in the block layer in a step of tasks alone. -/
theorem diskEvents_onTasks (ha : a.onTasks = true) : diskEvents k a = [] := by
  cases a <;> first | rfl | exact absurd ha (by simp [Action.onTasks])

/-- The manager takes only requests that the disk accepts. -/
theorem ServiceInv.accepts (h : ServiceInv k H) (a : Action) : PingPongOS.accepted k a = true := by
  by_contra hok
  obtain ⟨-, -, r, hq, hblock⟩ := not_accepted hok
  rw [queueItem_of_passed h.kernel.disk.iterator] at hq
  exact hblock (h.blocks r (List.mem_of_mem_head? hq))

/-- The phase does not change while the manager, the disk and the request at the head
stay as they are. -/
theorem ServicePhase.congr {answered : List (Nat × DiskOp)} {H' : List DiskEvent}
    (h : ServicePhase k answered H)
    (hmanager : ∀ r, k'.point 1 = .manager (.served r) ↔ k.point 1 = .manager (.served r))
    (hdisk : k'.disk = k.disk)
    (hrequest : ∀ r, k.point 1 = .manager (.served r) → k'.request r = k.request r)
    (hcommands : commands H' = commands H) (htransfers : transfers H' = transfers H) :
    ServicePhase k' answered H' := by
  cases h with
  | waiting hp hc ht =>
      rw [← hcommands] at hc
      rw [← htransfers] at ht
      exact .waiting (fun r hr => hp r ((hmanager r).mp hr)) hc ht
  | busy hp hd ho hr hc ht =>
      rw [← hdisk] at hd ho
      rw [← hrequest _ hp] at ho hr hc
      rw [← hcommands] at hc
      rw [← htransfers] at ht
      exact .busy ((hmanager _).mpr hp) hd ho hr hc ht
  | done hp hd hr hc ht =>
      rw [← hdisk] at hd
      rw [← hrequest _ hp] at hr hc ht
      rw [← hcommands] at hc
      rw [← htransfers] at ht
      exact .done ((hmanager _).mpr hp) hd hr hc ht

/-- A step outside the block layer. -/
theorem ServiceInv.untouched (h : ServiceInv k H) (hk : KernelInv k') (halive : ¬ Hung k')
    (hevents : diskEvents k a = []) (hdisk : k'.disk = k.disk) (hrequest : k'.request = k.request)
    (hrequests : k'.requests = k.requests) (hpoint : ∀ t, k'.point t = .block → k.point t = .block)
    (hmanager : ∀ r, k'.point 1 = .manager (.served r) ↔ k.point 1 = .manager (.served r)) :
    ServiceInv k' (H ++ diskEvents k a) := by
  rw [hevents, List.append_nil]
  obtain ⟨answered, ha, hw, hphase⟩ := h.order
  refine ⟨hk, halive, ?_, ?_, h.accepted, h.returned, answered, ?_, hw, ?_⟩
  · rw [hrequests, hrequest, hdisk]
    exact h.blocks
  · rw [hrequests, hrequest]
    exact fun t hp => h.results t (hpoint t hp)
  · rw [hrequests, hrequest]
    exact ha
  · exact hphase.congr hmanager hdisk (fun r _ => by rw [hrequest]) rfl rfl

/-- A request arrives. -/
theorem ServiceInv.asks (h : ServiceInv k H) {type : DiskCmd} {block : Int} {buffer : Nat}
    (hk : KernelInv (k.blockCall type block buffer))
    (halive : ¬ Hung (k.blockCall type block buffer)) (hb : buffer ≠ 0) (hc : 2 ≤ k.current)
    (hrange : inRange k (.blockCall type block buffer) = true) :
    ServiceInv (k.blockCall type block buffer)
      (H ++ diskEvents k (.blockCall type block buffer)) := by
  have hevents : diskEvents k (.blockCall type block buffer) =
      [.arrived k.current ⟨type, block, buffer⟩] := if_neg hb
  have hask : k.current ∉ k.requests.items :=
    List.count_eq_zero.mp ((h.kernel.task _).free (h.kernel.free_current (by omega))).2.1
  have hc1 : (1 : Nat) ≠ k.current := by omega
  rw [blockCall_of_buffer k hb] at hk halive ⊢
  rw [hevents]
  obtain ⟨answered, ha, hw, hphase⟩ := h.order
  have hpoint : Function.update k.point k.current .block 1 = k.point 1 :=
    Function.update_of_ne hc1 ..
  have hold : ∀ (x : Request) r, r ∈ k.requests.items →
      Function.update k.request k.current x r = k.request r := by
    intro x r hr
    have hne : r ≠ k.current := by
      rintro rfl
      exact hask hr
    exact Function.update_of_ne hne ..
  have hsame : ∀ {r}, k.point 1 = .manager (.served r) → ∀ x,
      Function.update k.request k.current x r = k.request r := fun hp x =>
    hold x _ (List.mem_of_mem_head? (h.kernel.disk.served _ hp))
  refine ⟨hk, halive, fun r hr => ?_, fun t hp ht => ?_, ?_, ?_, answered, ?_, ?_, ?_⟩
  · change r ∈ (queueAdd k.requests k.current).items at hr
    change 0 ≤ (Function.update k.request k.current _ r).block ∧
      (Function.update k.request k.current _ r).block < k.disk.numblocks
    rw [queueAdd_items, List.mem_append, List.mem_singleton] at hr
    rcases hr with hr | rfl
    · rw [hold _ r hr]
      exact h.blocks r hr
    · rw [Function.update_self]
      exact of_decide_eq_true hrange hb
  · change t ∉ (queueAdd k.requests k.current).items at ht
    change Function.update k.point k.current .block t = .block at hp
    change (Function.update k.request k.current _ t).returnValue = noError
    rw [queueAdd_items, List.mem_append, List.mem_singleton, not_or] at ht
    rw [Function.update_of_ne ht.2] at hp ⊢
    exact h.results t hp ht.1
  · intro o status code hmem
    exact h.accepted o status code (by simpa using hmem)
  · intro t code hmem
    exact h.returned t code (by simpa using hmem)
  · change arrivals (H ++ _) = answered ++ (queueAdd k.requests k.current).items.map
      (fun r => (r, (Function.update k.request k.current _ r).op))
    rw [queueAdd_items, List.map_append, List.map_congr_left fun r hr => by rw [hold _ r hr],
      ← List.append_assoc, ← ha]
    simp [arrivals, Request.op]
  · rw [← hw]
    simp [wakeups]
  · refine hphase.congr (fun r => ?_) rfl (fun r hp => hsame hp _) ?_ ?_
    · rw [← hpoint]
      rfl
    · simp [commands]
    · simp [transfers]

/-- A call returns to a task, from the block layer or not. -/
theorem ServiceInv.returns (h : ServiceInv k H) (hk : KernelInv (k.setPoint .user))
    (halive : ¬ Hung (k.setPoint .user)) (hc : 2 ≤ k.current) :
    ServiceInv (k.setPoint .user) (H ++ diskEvents k .resume) := by
  have hc1 : (1 : Nat) ≠ k.current := by omega
  have hone : (k.setPoint .user).point 1 = k.point 1 := Function.update_of_ne hc1 ..
  have hpoint : ∀ t, (k.setPoint .user).point t = .block → k.point t = .block := by
    intro t hp
    by_cases ht : t = k.current
    · have hself : (k.setPoint .user).point t = .user := by
        rw [ht]
        exact Function.update_self k.current _ k.point
      exact absurd (hself.symm.trans hp) (by simp)
    · have hother : (k.setPoint .user).point t = k.point t := Function.update_of_ne ht ..
      exact hother.symm.trans hp
  by_cases hp : k.point k.current = .block
  · have hevents : diskEvents k .resume =
        [.returned k.current (k.request k.current).returnValue] := if_pos hp
    have hcode : (k.request k.current).returnValue = noError :=
      h.results k.current hp (List.count_eq_zero.mp
        ((h.kernel.task _).free (h.kernel.free_current (by omega))).2.1)
    rw [hevents, hcode]
    obtain ⟨answered, ha, hw, hphase⟩ := h.order
    refine ⟨hk, halive, h.blocks, fun t hp => h.results t (hpoint t hp), ?_, ?_, answered, ?_, ?_,
      ?_⟩
    · intro o status code hmem
      exact h.accepted o status code (by simpa using hmem)
    · intro t code hmem
      rw [List.mem_append, List.mem_singleton] at hmem
      rcases hmem with hmem | hmem
      · exact h.returned t code hmem
      · exact (DiskEvent.returned.inj hmem).2
    · simpa [arrivals, Kernel.setPoint] using ha
    · simpa [wakeups] using hw
    · refine hphase.congr (fun r => by rw [hone]) rfl (fun _ _ => rfl) ?_ ?_
      · simp [commands]
      · simp [transfers]
  · exact h.untouched hk halive (if_neg hp) rfl rfl rfl hpoint fun r => by rw [hone]

/-- The disk manager passes a request to the disk, which accepts it. -/
theorem ServiceInv.serves (h : ServiceInv k H) (hk : KernelInv k') (halive : ¬ Hung k')
    (hc : k.current = 1) (hp : k.point 1 = .manager .loop) {r : Nat}
    (hq : queueItem k.requests = some r)
    (hpoint : k'.point = Function.update k.point 1 (.manager (.served r)))
    (hrequests : k'.requests = k.requests)
    (hrequest : k'.request = Function.update k.request r { k.request r with
      returnValue := (hwDiskCmd k.disk (k.request r).type (k.request r).block
        (k.request r).buffer).1 })
    (hdisk : k'.disk = (hwDiskCmd k.disk (k.request r).type (k.request r).block
      (k.request r).buffer).2) : ServiceInv k' (H ++ diskEvents k .manager) := by
  have hhead : k.requests.items.head? = some r := by
    rw [← queueItem_of_passed h.kernel.disk.iterator, hq]
  have hmem := List.mem_of_mem_head? hhead
  obtain ⟨hidle, -⟩ := h.kernel.manager_idle hc
  have hblock := h.blocks r hmem
  have hcmd : hwDiskCmd k.disk (k.request r).type (k.request r).block (k.request r).buffer =
      (noError, { k.disk with
        buffer := (k.request r).buffer
        nextBlock := (k.request r).block
        status := if (k.request r).type = .read then .read else .write }) := by
    unfold hwDiskCmd
    rw [if_neg (by simp [hidle]), if_neg (h.kernel.disk.caller r hmem).2, if_neg (by omega)]
  have hevents : diskEvents k .manager = [.commanded (k.request r).op .idle noError] := by
    have hp' : k.point taskDiskHandler = .manager .loop := hp
    simp [diskEvents, hp', hq, hcmd, hidle]
  rw [hcmd] at hrequest hdisk
  simp only at hrequest hdisk
  have hop : ∀ x, (k'.request x).op = (k.request x).op ∧
      (k'.request x).block = (k.request x).block := by
    intro x
    rw [hrequest]
    by_cases hx : x = r
    · subst hx
      rw [Function.update_self]
      exact ⟨rfl, rfl⟩
    · rw [Function.update_of_ne hx]
      exact ⟨rfl, rfl⟩
  have hone : k'.point 1 = .manager (.served r) := by
    rw [hpoint, Function.update_self]
  rw [hevents]
  obtain ⟨answered, ha, hw, hphase⟩ := h.order
  refine ⟨hk, halive, fun x hx => ?_, fun t ht hnot => ?_, ?_, ?_, answered, ?_, ?_, ?_⟩
  · rw [hrequests] at hx
    rw [(hop x).2, hdisk]
    exact h.blocks x hx
  · have ht1 : t ≠ 1 := by
      rintro rfl
      rw [hone] at ht
      exact absurd ht (by simp)
    rw [hrequests] at hnot
    have htr : t ≠ r := by
      rintro rfl
      exact hnot hmem
    rw [hpoint, Function.update_of_ne ht1] at ht
    rw [hrequest, Function.update_of_ne htr]
    exact h.results t ht hnot
  · intro o status code hin
    rw [List.mem_append, List.mem_singleton] at hin
    rcases hin with hin | hin
    · exact h.accepted o status code hin
    · obtain ⟨-, rfl, rfl⟩ := DiskEvent.commanded.inj hin
      exact ⟨rfl, rfl⟩
  · intro t code hin
    exact h.returned t code (by simpa using hin)
  · rw [hrequests]
    simp only [(hop _).1]
    simpa [arrivals] using ha
  · simpa [wakeups] using hw
  · cases hphase with
    | waiting _ hcm ht =>
        apply ServicePhase.busy hone
        · rw [hdisk]
          simp only
          split <;> simp
        · rw [hdisk, (hop r).1]
          unfold Disk.op Request.op
          cases (k.request r).type <;> simp
        · rw [hrequest, Function.update_self]
        · rw [(hop r).1]
          simpa [commands] using hcm
        · simpa [transfers] using ht
    | busy hp' | done hp' =>
        rw [hp] at hp'
        exact absurd hp' (by simp)

/-- The disk transfers the block of the request at the head. -/
theorem ServiceInv.moves (h : ServiceInv k H) (hk : KernelInv k') (halive : ¬ Hung k')
    (hbusy : k.disk.status ≠ .idle) (hidle : k'.disk.status = .idle)
    (hnumblocks : k'.disk.numblocks = k.disk.numblocks) (hrequest : k'.request = k.request)
    (hrequests : k'.requests = k.requests) (hpoint : k'.point = k.point) :
    ServiceInv k' (H ++ diskEvents k .diskDone) := by
  obtain ⟨answered, ha, hw, hphase⟩ := h.order
  refine ⟨hk, halive, ?_, ?_, ?_, ?_, answered, ?_, ?_, ?_⟩
  · rw [hrequests, hrequest, hnumblocks]
    exact h.blocks
  · rw [hrequests, hrequest, hpoint]
    exact h.results
  · intro o status code hin
    exact h.accepted o status code (by simpa [diskEvents] using hin)
  · intro t code hin
    exact h.returned t code (by simpa [diskEvents] using hin)
  · rw [hrequests, hrequest]
    simpa [arrivals, diskEvents] using ha
  · simpa [wakeups, diskEvents] using hw
  · cases hphase with
    | waiting hp _ _ =>
        obtain ⟨⟨r, hr⟩, -⟩ := h.kernel.disk.busy (Or.inl hbusy)
        exact absurd (blockedAt_eq_some.mp hr).2 (hp r)
    | @busy r hp _ ho hr hcm ht =>
        apply ServicePhase.done (r := r) (hpoint ▸ hp) hidle
        · rw [hrequest]
          exact hr
        · rw [hrequest]
          simpa [commands, diskEvents] using hcm
        · rw [hrequest]
          simpa [transfers, diskEvents, ho] using ht
    | done _ hd => exact absurd hd hbusy

/-- The disk manager wakes the caller of the request at the head. -/
theorem ServiceInv.answers (h : ServiceInv k H) (hk : KernelInv k') (halive : ¬ Hung k')
    (hc : k.current = 1) {r : Nat} (hp : k.point 1 = .manager (.served r))
    (hpoint : k'.point = Function.update k.point 1 (.manager .loop))
    (hrequests : k'.requests = (queueDel k.requests r).2) (hrequest : k'.request = k.request)
    (hdisk : k'.disk = k.disk) : ServiceInv k' (H ++ diskEvents k .manager) := by
  have hhead := h.kernel.disk.served r hp
  have hitems : k'.requests.items = k.requests.items.tail := by
    rw [hrequests, queueDel_head hhead]
  have hsplit : k.requests.items = r :: k'.requests.items := by
    rw [hitems]
    exact List.eq_cons_of_mem_head? hhead
  have hmem : r ∈ k.requests.items := List.mem_of_mem_head? hhead
  obtain ⟨hidle, -⟩ := h.kernel.manager_idle hc
  have hevents : diskEvents k .manager = [.woken r] := by
    have hp' : k.point taskDiskHandler = .manager (.served r) := hp
    simp [diskEvents, hp', (h.kernel.disk.caller r hmem).1]
  rw [hevents]
  obtain ⟨answered, ha, hw, hphase⟩ := h.order
  obtain ⟨hr, hcm, ht⟩ : (k.request r).returnValue = noError ∧
      commands H = answered.map (·.2) ++ [(k.request r).op] ∧
      (transfers H).map (·.1) = answered.map (·.2) ++ [(k.request r).op] := by
    cases hphase with
    | waiting hp' _ _ => exact absurd hp (hp' r)
    | busy _ hd => exact absurd hidle hd
    | @done r' hp' _ hr hcm ht =>
        obtain rfl := ManagerPoint.served.inj (TaskPoint.manager.inj (hp.symm.trans hp'))
        exact ⟨hr, hcm, ht⟩
  refine ⟨hk, halive, fun x hx => ?_, fun t htp hnot => ?_, ?_, ?_,
    answered ++ [(r, (k.request r).op)], ?_, ?_, .waiting (fun x hx => ?_) ?_ ?_⟩
  · rw [hrequest, hdisk]
    exact h.blocks x (by rw [hsplit]; exact List.mem_cons_of_mem _ hx)
  · rw [hrequest]
    by_cases htr : t = r
    · rw [htr]
      exact hr
    · have ht1 : t ≠ 1 := by
        rintro rfl
        rw [hpoint, Function.update_self] at htp
        exact absurd htp (by simp)
      rw [hpoint, Function.update_of_ne ht1] at htp
      apply h.results t htp
      rw [hsplit, List.mem_cons, not_or]
      exact ⟨htr, hnot⟩
  · intro o status code hin
    exact h.accepted o status code (by simpa using hin)
  · intro t code hin
    exact h.returned t code (by simpa using hin)
  · rw [hsplit] at ha
    rw [hrequest]
    simpa [arrivals] using ha
  · simpa [wakeups] using hw
  · rw [hpoint, Function.update_self] at hx
    exact absurd hx (by simp)
  · simpa [commands] using hcm
  · simpa [transfers] using ht

/-- A store of a task. -/
theorem ServiceInv.stores (h : ServiceInv k H) {m : Nat → UInt8} {address : Nat} {byte : UInt8}
    (hk : KernelInv { k with memory := m }) (halive : ¬ Hung { k with memory := m }) :
    ServiceInv { k with memory := m } (H ++ diskEvents k (.store address byte)) := by
  obtain ⟨answered, ha, hw, hphase⟩ := h.order
  refine ⟨hk, halive, h.blocks, h.results, ?_, ?_, answered, ?_, ?_, ?_⟩
  · intro o status code hin
    exact h.accepted o status code (by simpa [diskEvents] using hin)
  · intro t code hin
    exact h.returned t code (by simpa [diskEvents] using hin)
  · simpa [arrivals, diskEvents] using ha
  · simpa [wakeups, diskEvents] using hw
  · refine hphase.congr (fun _ => Iff.rfl) rfl (fun _ _ => rfl) ?_ ?_
    · simp [commands, diskEvents]
    · simp [transfers, diskEvents]

/-- A disk operation does not change the size of the disk. -/
theorem diskSighandle_numblocks {m m' : Nat → UInt8} {d d' : Disk}
    (hd : diskSighandle m d = some (m', d')) : d'.numblocks = d.numblocks := by
  unfold diskSighandle at hd
  cases hs : d.status <;> rw [hs] at hd
  · exact absurd hd (by simp)
  · obtain ⟨-, rfl⟩ := Prod.mk.inj (Option.some.inj hd)
    rfl
  · obtain ⟨-, rfl⟩ := Prod.mk.inj (Option.some.inj hd)
    rfl

/-- A task that goes on elsewhere does not enter `block_read` or `block_write`. -/
theorem setPoint_block {p : TaskPoint} (hp : p ≠ .block) (t : Nat)
    (ht : (k.setPoint p).point t = .block) : k.point t = .block := by
  unfold Kernel.setPoint at ht
  by_cases htc : t = k.current
  · subst htc
    exact absurd ((Function.update_self ..).symm.trans ht) hp
  · exact (Function.update_of_ne htc ..).symm.trans ht

/-- What a user task does leaves the disk manager where it is. -/
theorem KernelInv.setPoint_manager (h : KernelInv k) (hu : ∀ q, k.point k.current ≠ .manager q)
    (p : TaskPoint) (r : Nat) :
    (k.setPoint p).point 1 = .manager (.served r) ↔ k.point 1 = .manager (.served r) := by
  have hne : (1 : Nat) ≠ k.current := by
    intro heq
    obtain ⟨q, hq⟩ := h.disk.manager
    exact hu q (heq ▸ hq)
  rw [show (k.setPoint p).point 1 = k.point 1 from Function.update_of_ne hne ..]

/-- **A step keeps the order of service**, if the call it makes, if any, names a block of
the disk. -/
theorem ServiceInv.step (h : ServiceInv k H) (hrange : inRange k a = true)
    (hs : k.step a = some k') : ServiceInv k' (H ++ diskEvents k a) := by
  obtain ⟨hk, heffect⟩ := h.kernel.step hs
  have halive := h.kernel.not_hung_step h.alive (h.accepts a) hs
  cases heffect with
  | tasks ha _ =>
      exact h.untouched hk halive (diskEvents_onTasks ha) rfl rfl rfl (fun _ hp => hp)
        fun _ => Iff.rfl
  | sleeps hu _ | joins hu _ =>
      exact h.untouched hk halive rfl rfl rfl rfl (setPoint_block (by simp))
        (h.kernel.setPoint_manager (by simp [hu]) _)
  | waits hu _ _ =>
      exact h.untouched hk halive rfl rfl rfl rfl (setPoint_block (by simp))
        (h.kernel.setPoint_manager (by simp [hu]) _)
  | creates _ | downs _ | ups _ _ _ _ | destroys _ | rejects | interrupts _ _ =>
      exact h.untouched hk halive rfl rfl rfl rfl (fun _ hp => hp) fun _ => Iff.rfl
  | asks hb hc _ _ => exact h.asks hk halive hb hc hrange
  | stores => exact h.stores hk halive
  | returns hc _ => exact h.returns hk halive hc
  | returnsDown hp _ =>
      exact h.untouched hk halive (if_neg (by simp [hp])) rfl rfl rfl (setPoint_block (by simp))
        (h.kernel.setPoint_manager (by simp [hp]) _)
  | starts hc hp =>
      have hp' : k.point taskDiskHandler = .manager .start := hp
      have hone : (k.setPoint (.manager .loop)).point 1 = .manager .loop := by
        unfold Kernel.setPoint
        rw [hc]
        exact Function.update_self 1 _ k.point
      refine h.untouched hk halive (by simp [diskEvents, hp']) rfl rfl rfl
        (setPoint_block (by simp)) fun r => ?_
      rw [hone, hp]
      simp
  | idles hc hp hq _ =>
      have hp' : k.point taskDiskHandler = .manager .loop := hp
      exact h.untouched hk halive (by simp [diskEvents, hp', hq]) rfl rfl rfl (fun _ hp => hp)
        fun _ => Iff.rfl
  | serves hc hp hq _ _ =>
      exact h.serves hk halive hc hp hq (by rw [← hc]; rfl) rfl rfl rfl
  | answers hc hp _ _ _ =>
      exact h.answers hk halive hc hp (by rw [← hc]; rfl) rfl rfl rfl
  | transfers hd =>
      obtain ⟨hbusy, hidle, -⟩ := h.kernel.diskDone hd
      exact h.moves hk halive hbusy hidle (diskSighandle_numblocks hd) rfl rfl rfl

end PingPongOS
