import PingPongOS.Kernel
import PingPongOS.Runs

/-!
# The disk and its timer

The kernel's disk is initiated, and an operation of it may end at any time.  The virtual
disk starts unknown, answers every command of `hw_disk_cmd`, and arms a timer for every
operation.  `disk_settimer` computes the time in `int`, and `timer_settime` refuses a
nanosecond part of a second or more and disarms the timer on zero; so an operation ends only
if the time fits.  It does on every disk of at most `maxBlocks` blocks, and beyond there is
a block whose time overflows.
-/

namespace PingPongOS

open Runs

/-- The image file of a disk: its size in bytes and its blocks. -/
structure ImageFile where
  size : Int
  blocks : Int → Block

/-- `struct disk_t`: the status is `none` for `DISK_STATUS_UNKNOWN`, and the timer is what
it was armed with, in seconds and nanoseconds. -/
structure DiskDevice where
  status : Option DiskStatus
  numblocks : Int
  blocksize : Int
  buffer : Nat
  prevBlock : Int
  nextBlock : Int
  delayMin : Int
  delayMax : Int
  timer : Option (Int × Int)
  image : Int → Block

/-- The commands of `hw_disk_cmd`, with what `open` and `random` return in them; `other` is
its default case. -/
inductive DeviceCmd
  | init (file : Option ImageFile)
  | transfer (cmd : DiskCmd) (block : Int) (buffer : Nat) (random : Int)
  | status
  | diskSize
  | blockSize
  | delayMin
  | delayMax
  | other

/-- The number of a status. -/
def statusNumber : Option DiskStatus → Int
  | none => 0
  | some .idle => 1
  | some .read => 2
  | some .write => 3

namespace DiskDevice

variable (d : DiskDevice)

/-- Before `main`. -/
def start : DiskDevice := ⟨none, 0, 0, 0, 0, 0, 0, 0, none, fun _ _ => 0⟩

/-- The product in `disk_settimer`, before it is cut to an `int`. -/
def distance : Int := |d.nextBlock - d.prevBlock| * (d.delayMax - d.delayMin)

/-- `time_ms`. -/
def timeMs (random : Int) : Int :=
  d.distance.tdiv d.numblocks + d.delayMin + (random.tmod (d.delayMax - d.delayMin)).tdiv 10

/-- `disk_settimer`; `none` where the product overflows or `timer_settime` fails. -/
def diskSettimer (random : Int) : Option DiskDevice :=
  let sec := (d.timeMs random).tdiv 1000
  let nsec := d.timeMs random * 1000000
  if 2 ^ 31 ≤ d.distance then none
  else if sec < 0 ∨ nsec < 0 ∨ 1000000000 ≤ nsec then none
  else some { d with timer := if sec = 0 ∧ nsec = 0 then none else some (sec, nsec) }

/-- `disk_init`; `none` where it aborts, as the image cannot be opened or no timer created. -/
def diskInit (file : Option ImageFile) : Option (Int × DiskDevice) :=
  if d.status ≠ none then some (error, d)
  else file.map fun f => (noError, { d with
    status := some .idle
    nextBlock := 0
    prevBlock := 0
    blocksize := 64
    numblocks := Int.bmod (f.size.tdiv 64) (2 ^ 32)
    delayMin := 30
    delayMax := 300
    image := f.blocks })

/-- A parameter of the disk, once it is initiated. -/
def parameter (n : Int) : Int := if d.status = none then error else n

/-- The status of an operation under way. -/
def busy (cmd : DiskCmd) : DiskStatus := if cmd = .read then .read else .write

/-- The registers of an operation that is accepted. -/
def pending (cmd : DiskCmd) (block : Int) (buffer : Nat) : DiskDevice :=
  { d with buffer := buffer, nextBlock := block, status := some (busy cmd) }

/-- `hw_disk_cmd`. -/
def hwDiskCmd : DeviceCmd → Option (Int × DiskDevice)
  | .init file => d.diskInit file
  | .status => some (statusNumber d.status, d)
  | .diskSize => some (d.parameter d.numblocks, d)
  | .blockSize => some (d.parameter d.blocksize, d)
  | .delayMin => some (d.parameter d.delayMin, d)
  | .delayMax => some (d.parameter d.delayMax, d)
  | .transfer cmd block buffer random =>
      if d.status ≠ some .idle then some (error, d)
      else if buffer = 0 then some (error, d)
      else if block < 0 ∨ d.numblocks ≤ block then some (error, d)
      else ((d.pending cmd block buffer).diskSettimer random).map fun e => (noError, e)
  | .other => some (error, d)

/-- `disk_sighandle`, after its timer expired; `none` where it aborts. -/
def diskSighandle (memory : Nat → UInt8) : Option ((Nat → UInt8) × DiskDevice) :=
  let done := { d with timer := none, prevBlock := d.nextBlock, status := some .idle }
  match d.status with
  | some .read => some (pread memory d.buffer (d.image d.nextBlock), done)
  | some .write => some (memory,
      { done with image := Function.update d.image d.nextBlock (pwrite memory d.buffer) })
  | _ => none

/-- The disk as the kernel's model has it. -/
def toDisk (s : DiskStatus) : Disk := ⟨s, d.numblocks, d.buffer, d.nextBlock, d.image⟩

end DiskDevice

/-- A command, or the timer expires while the memory is as given. -/
inductive DeviceEvent
  | command (c : DeviceCmd)
  | expires (memory : Nat → UInt8)

/-- One event. -/
def DiskDevice.step (d : DiskDevice) : DeviceEvent → Option DiskDevice
  | .command c => (d.hwDiskCmd c).map Prod.snd
  | .expires memory => (d.diskSighandle memory).map Prod.snd

/-- The largest disk whose times all fit an `int`. -/
def maxBlocks : Int := 7953644

/-- The image that initiates the disk can be opened and has at most `maxBlocks` blocks,
`random` is not negative, and a timer expires only if it is armed. -/
def DeviceAllowed (d : DiskDevice) : DeviceEvent → Prop
  | .command (.init file) => d.status = none →
      ∃ f, file = some f ∧ 0 ≤ f.size ∧ f.size < (maxBlocks + 1) * 64
  | .command (.transfer _ _ _ random) => 0 ≤ random
  | .command _ => True
  | .expires _ => d.timer ≠ none

/-- A block of the disk, or the first one. -/
def DiskDevice.Holds (d : DiskDevice) (b : Int) : Prop := 0 ≤ b ∧ (b = 0 ∨ b < d.numblocks)

/-- Between 30 and 325 ms. -/
def InTime (t : Int × Int) : Prop := t.1 = 0 ∧ 30000000 ≤ t.2 ∧ t.2 ≤ 325000000

/-- What `disk_init` set, and the positions of the last two operations. -/
structure Initiated (d : DiskDevice) : Prop where
  blocksize : d.blocksize = 64
  delayMin : d.delayMin = 30
  delayMax : d.delayMax = 300
  nonneg : 0 ≤ d.numblocks
  bounded : d.numblocks ≤ maxBlocks
  prev : d.Holds d.prevBlock
  next : d.Holds d.nextBlock

/-- The timer is armed exactly while an operation is under way. -/
structure DeviceInv (d : DiskDevice) : Prop where
  initiated : d.status ≠ none → Initiated d
  rests : d.status = none ∨ d.status = some .idle → d.timer = none
  armed : d.status = some .read ∨ d.status = some .write → ∃ t, d.timer = some t ∧ InTime t

variable {d d' : DiskDevice}

/-! ## The time of an operation -/

/-- The way from block to block takes less than 270 ms. -/
theorem seek_bound {n distance : Int} (hpos : 0 < n) (hnonneg : 0 ≤ distance)
    (hlt : distance < n) : 0 ≤ (distance * 270).tdiv n ∧ (distance * 270).tdiv n < 270 := by
  rw [Int.tdiv_eq_ediv_of_nonneg (by omega)]
  refine ⟨Int.ediv_nonneg (by omega) (by omega), ?_⟩
  rw [Int.ediv_lt_iff_lt_mul hpos, mul_comm 270]
  exact mul_lt_mul_of_pos_right hlt (by norm_num)

/-- The random part is less than 27 ms. -/
theorem random_bound {random : Int} (hnonneg : 0 ≤ random) :
    0 ≤ (random.tmod 270).tdiv 10 ∧ (random.tmod 270).tdiv 10 ≤ 26 := by
  rw [Int.tmod_eq_emod_of_nonneg hnonneg, Int.tdiv_eq_ediv_of_nonneg (by omega)]
  omega

theorem Initiated.distance (hd : Initiated d) :
    d.distance = |d.nextBlock - d.prevBlock| * 270 := by
  unfold DiskDevice.distance
  rw [hd.delayMax, hd.delayMin]
  rfl

/-- Two blocks of the disk are less than its size apart. -/
theorem Initiated.apart (hd : Initiated d) (hpos : 0 < d.numblocks) :
    |d.nextBlock - d.prevBlock| < d.numblocks := by
  obtain ⟨hprev, hprev'⟩ := hd.prev
  obtain ⟨hnext, hnext'⟩ := hd.next
  rw [abs_lt]
  omega

/-- An operation takes from 30 to 325 ms. -/
theorem Initiated.timeMs (hd : Initiated d) (hpos : 0 < d.numblocks) {random : Int}
    (hrandom : 0 ≤ random) : 30 ≤ d.timeMs random ∧ d.timeMs random ≤ 325 := by
  obtain ⟨hseek, hseek'⟩ := seek_bound hpos (abs_nonneg _) (hd.apart hpos)
  obtain ⟨hrand, hrand'⟩ := random_bound hrandom
  unfold DiskDevice.timeMs
  rw [hd.distance, hd.delayMax, hd.delayMin, show (300 : Int) - 30 = 270 by norm_num]
  omega

/-- **The timer can be armed.** -/
theorem Initiated.settimer (hd : Initiated d) (hpos : 0 < d.numblocks) {random : Int}
    (hrandom : 0 ≤ random) :
    ∃ t, d.diskSettimer random = some { d with timer := some t } ∧ InTime t := by
  have hbound := hd.bounded
  have hapart := hd.apart hpos
  obtain ⟨hlow, hhigh⟩ := hd.timeMs hpos hrandom
  have hfits : ¬ (2 : Int) ^ 31 ≤ d.distance := by
    rw [hd.distance]
    unfold maxBlocks at hbound
    omega
  have hsec : (d.timeMs random).tdiv 1000 = 0 := by
    rw [Int.tdiv_eq_ediv_of_nonneg (by omega)]
    omega
  unfold DiskDevice.diskSettimer
  simp only [hsec]
  rw [if_neg hfits, if_neg (by omega), if_neg (by omega)]
  exact ⟨(0, d.timeMs random * 1000000), rfl, rfl, by omega, by omega⟩

/-- The size in blocks, where it fits an `int`. -/
theorem numblocks_of_fits {size : Int} (hlow : 0 ≤ size) (hhigh : size < 2 ^ 37) :
    Int.bmod (size.tdiv 64) (2 ^ 32) = size / 64 := by
  rw [Int.tdiv_eq_ediv_of_nonneg hlow]
  exact Int.bmod_eq_of_le (by omega) (by omega)

/-! ## One event -/

theorem hwDiskCmd_transfer (d : DiskDevice) (cmd : DiskCmd) (block : Int) (buffer : Nat)
    (random : Int) : d.hwDiskCmd (.transfer cmd block buffer random) =
      if d.status ≠ some .idle then some (error, d)
      else if buffer = 0 then some (error, d)
      else if block < 0 ∨ d.numblocks ≤ block then some (error, d)
      else ((d.pending cmd block buffer).diskSettimer random).map fun e => (noError, e) := rfl

theorem busy_ne_idle (cmd : DiskCmd) : DiskDevice.busy cmd ≠ .idle := by
  cases cmd <;> decide

/-- A command for an operation, accepted: the timer is armed, and the rest is as pending. -/
theorem DeviceInv.accepts (hi : DeviceInv d) (hidle : d.status = some .idle) {cmd : DiskCmd}
    {block : Int} {buffer : Nat} {random : Int} (hlow : 0 ≤ block) (hhigh : block < d.numblocks)
    (hrandom : 0 ≤ random) :
    ∃ t, (d.pending cmd block buffer).diskSettimer random =
        some { d.pending cmd block buffer with timer := some t } ∧
      DeviceInv { d.pending cmd block buffer with timer := some t } := by
  have hd := hi.initiated (by rw [hidle]; exact nofun)
  have hd' : Initiated (d.pending cmd block buffer) :=
    { hd with next := ⟨hlow, Or.inr hhigh⟩ }
  obtain ⟨t, hset, htime⟩ := hd'.settimer (lt_of_le_of_lt hlow hhigh) hrandom
  refine ⟨t, hset, ⟨fun _ => { hd' with }, fun hrest => ?_, fun _ => ⟨t, rfl, htime⟩⟩⟩
  rcases hrest with hnone | hsome
  · exact absurd hnone nofun
  · exact absurd (Option.some.inj hsome) (busy_ne_idle cmd)

/-- **A command for an operation** does not fail, and does to the registers what it does in
the kernel's model. -/
theorem DeviceInv.transfers (hi : DeviceInv d) {s : DiskStatus} (hs : d.status = some s)
    (cmd : DiskCmd) (block : Int) (buffer : Nat) {random : Int} (hrandom : 0 ≤ random) :
    ∃ e s', d.hwDiskCmd (.transfer cmd block buffer random) =
        some ((PingPongOS.hwDiskCmd (d.toDisk s) cmd block buffer).1, e) ∧
      DeviceInv e ∧ e.status = some s' ∧
      e.toDisk s' = (PingPongOS.hwDiskCmd (d.toDisk s) cmd block buffer).2 := by
  have hstatus : (d.toDisk s).status = s := rfl
  have hblocks : (d.toDisk s).numblocks = d.numblocks := rfl
  rw [hwDiskCmd_transfer]
  unfold PingPongOS.hwDiskCmd
  rw [hstatus, hblocks]
  by_cases hidle : s = .idle
  · rw [hidle] at hs ⊢
    by_cases hbuffer : buffer = 0
    · exact ⟨d, .idle, by simp [hs, hbuffer], hi, hs, by simp [hbuffer]⟩
    · by_cases hblock : block < 0 ∨ d.numblocks ≤ block
      · exact ⟨d, .idle, by simp [hs, hbuffer, hblock], hi, hs, by simp [hbuffer, hblock]⟩
      · obtain ⟨hlow, hhigh⟩ := not_or.mp hblock
        obtain ⟨t, ht, hinv⟩ : ∃ t, (d.pending cmd block buffer).diskSettimer random =
            some { d.pending cmd block buffer with timer := some t } ∧ _ :=
          hi.accepts hs (not_lt.mp hlow) (not_le.mp hhigh) hrandom
        refine ⟨{ d.pending cmd block buffer with timer := some t }, DiskDevice.busy cmd,
          ?_, hinv, rfl, ?_⟩
        · simp [hs, hbuffer, hblock, ht]
        · rw [if_neg (not_not.mpr rfl), if_neg hbuffer, if_neg hblock]
          rfl
  · have hne : d.status ≠ some .idle := by
      rw [hs]
      exact fun heq => hidle (Option.some.inj heq)
    exact ⟨d, s, by rw [if_pos hne, if_pos hidle], hi, hs, by rw [if_pos hidle]⟩

/-- **The commands**: none fails, and the timer stays right. -/
theorem DeviceInv.command (hi : DeviceInv d) {c : DeviceCmd}
    (hallowed : DeviceAllowed d (.command c)) :
    ∃ r, d.hwDiskCmd c = some r ∧ DeviceInv r.2 := by
  cases c with
  | init file =>
      by_cases hstatus : d.status = none
      · obtain ⟨f, rfl, hlow, hhigh⟩ := hallowed hstatus
        have hsize : Int.bmod (f.size.tdiv 64) (2 ^ 32) = f.size / 64 :=
          numblocks_of_fits hlow (by unfold maxBlocks at hhigh; omega)
        have htimer := hi.rests (Or.inl hstatus)
        unfold maxBlocks at hhigh
        refine ⟨_, if_neg (not_not.mpr hstatus), ⟨fun _ => ⟨rfl, rfl, rfl, ?_, ?_, ?_, ?_⟩,
          fun _ => htimer, fun hbusy => ?_⟩⟩
        · simp only [hsize]
          omega
        · unfold maxBlocks
          simp only [hsize]
          omega
        · exact ⟨le_refl _, Or.inl rfl⟩
        · exact ⟨le_refl _, Or.inl rfl⟩
        · simp at hbusy
      · exact ⟨_, if_pos hstatus, hi⟩
  | transfer cmd block buffer random =>
      cases hs : d.status with
      | none =>
          have hne : d.status ≠ some .idle := by
            rw [hs]
            exact nofun
          exact ⟨(error, d), by rw [hwDiskCmd_transfer, if_pos hne], hi⟩
      | some s =>
          obtain ⟨e, -, he, hinv, -⟩ := hi.transfers hs cmd block buffer hallowed
          exact ⟨(_, e), he, hinv⟩
  | status | diskSize | blockSize | delayMin | delayMax | other => exact ⟨_, rfl, hi⟩

/-- **The timer expires**: an operation is under way, and it ends. -/
theorem DeviceInv.expires (hi : DeviceInv d) (harmed : d.timer ≠ none) (memory : Nat → UInt8) :
    ∃ r, d.diskSighandle memory = some r ∧ DeviceInv r.2 ∧ r.2.status = some .idle := by
  have hdone : ∀ image, DeviceInv { d with
      timer := none, prevBlock := d.nextBlock, status := some .idle, image := image } := by
    intro image
    have hd := hi.initiated fun hnone => harmed (hi.rests (Or.inl hnone))
    exact ⟨fun _ => { hd with prev := hd.next }, fun _ => rfl, fun hbusy => by simp at hbusy⟩
  unfold DiskDevice.diskSighandle
  cases hstatus : d.status with
  | none => exact absurd (hi.rests (Or.inl hstatus)) harmed
  | some s =>
      cases s with
      | idle => exact absurd (hi.rests (Or.inr hstatus)) harmed
      | read => exact ⟨_, rfl, hdone _, rfl⟩
      | write => exact ⟨_, rfl, hdone _, rfl⟩

/-- The end of an operation does to the registers what it does in the kernel's model. -/
theorem expires_toDisk {s : DiskStatus} (hs : d.status = some s) {memory : Nat → UInt8}
    {r : (Nat → UInt8) × DiskDevice} (hr : d.diskSighandle memory = some r) :
    PingPongOS.diskSighandle memory (d.toDisk s) = some (r.1, r.2.toDisk .idle) := by
  unfold DiskDevice.diskSighandle at hr
  rw [hs] at hr
  cases s with
  | idle => exact absurd hr nofun
  | read | write =>
      obtain rfl := Option.some.inj hr
      rfl

/-! ## Runs -/

theorem deviceInv_start : DeviceInv DiskDevice.start :=
  ⟨fun hne => absurd rfl hne, fun _ => rfl, fun hbusy => by
    rcases hbusy with hread | hwrite
    · exact absurd hread nofun
    · exact absurd hwrite nofun⟩

/-- No event fails. -/
theorem DeviceInv.step (hi : DeviceInv d) {e : DeviceEvent} (hallowed : DeviceAllowed d e) :
    ∃ d', d.step e = some d' ∧ DeviceInv d' := by
  cases e with
  | command c =>
      obtain ⟨r, hr, hinv⟩ := hi.command hallowed
      exact ⟨r.2, by rw [DiskDevice.step, hr, Option.map_some], hinv⟩
  | expires memory =>
      obtain ⟨r, hr, hinv, -⟩ := hi.expires hallowed memory
      exact ⟨r.2, by rw [DiskDevice.step, hr, Option.map_some], hinv⟩

/-- Events one after another, by induction on them. -/
theorem DeviceInv.run_events (hi : DeviceInv d) {evs : List DeviceEvent}
    (hallowed : AllSteps DiskDevice.step DeviceAllowed d evs) :
    ∃ d', run DiskDevice.step d evs = some d' ∧ DeviceInv d' := by
  induction evs generalizing d with
  | nil => exact ⟨d, rfl, hi⟩
  | cons e evs ih =>
      obtain ⟨d₁, hstep, hi₁⟩ := hi.step hallowed.1
      obtain ⟨d', hrun, hi'⟩ := ih hi₁ (hallowed.2 d₁ hstep)
      exact ⟨d', run_cons.mpr ⟨d₁, hstep, hrun⟩, hi'⟩

/-- **Every operation ends in time.**  In every run of commands and expiring timers on a
disk of at most `maxBlocks` blocks, no command and no signal handler fails.  In every state
reached the timer is armed exactly while an operation is under way, for 30 to 325 ms; then a
command for an operation, and the end of one, are those of the kernel's model. -/
theorem disk_operations_end {evs : List DeviceEvent}
    (hallowed : AllSteps DiskDevice.step DeviceAllowed DiskDevice.start evs) :
    ∃ d, run DiskDevice.step DiskDevice.start evs = some d ∧
      (d.timer = none ↔ d.status = none ∨ d.status = some .idle) ∧
      (∀ t, d.timer = some t → InTime t) ∧
      ∀ s, d.status = some s →
        (∀ cmd block buffer random, 0 ≤ random → ∃ e s',
          d.hwDiskCmd (.transfer cmd block buffer random) =
              some ((hwDiskCmd (d.toDisk s) cmd block buffer).1, e) ∧
            e.status = some s' ∧ e.toDisk s' = (hwDiskCmd (d.toDisk s) cmd block buffer).2) ∧
        (d.timer ≠ none → ∀ memory, ∃ r, d.diskSighandle memory = some r ∧
          r.2.status = some .idle ∧
          diskSighandle memory (d.toDisk s) = some (r.1, r.2.toDisk .idle)) := by
  obtain ⟨d, hrun, hi⟩ := deviceInv_start.run_events hallowed
  have hbusy : ¬ (d.status = none ∨ d.status = some .idle) →
      ∃ t, d.timer = some t ∧ InTime t := by
    intro hrest
    refine hi.armed ?_
    rcases hstatus : d.status with - | - | - | -
    · exact absurd (Or.inl hstatus) hrest
    · exact absurd (Or.inr hstatus) hrest
    · exact Or.inl rfl
    · exact Or.inr rfl
  refine ⟨d, hrun, ⟨fun hnone => ?_, hi.rests⟩, fun t ht => ?_, fun s hs => ⟨?_, ?_⟩⟩
  · by_contra hrest
    obtain ⟨t, ht, -⟩ := hbusy hrest
    exact absurd (hnone.symm.trans ht) nofun
  · have hrest : ¬ (d.status = none ∨ d.status = some .idle) :=
      fun h => absurd ((hi.rests h).symm.trans ht) nofun
    obtain ⟨t', ht', htime⟩ := hbusy hrest
    rw [Option.some.inj (ht.symm.trans ht')]
    exact htime
  · intro cmd block buffer random hrandom
    obtain ⟨e, s', he, -, hs', hdisk⟩ := hi.transfers hs cmd block buffer hrandom
    exact ⟨e, s', he, hs', hdisk⟩
  · intro harmed memory
    obtain ⟨r, hr, -, hidle⟩ := hi.expires harmed memory
    exact ⟨r, hr, hidle, expires_toDisk hs hr⟩

/-- A block of a small disk is written. -/
theorem disk_operations_end_write : ∃ d,
    run DiskDevice.step DiskDevice.start [.command (.init (some ⟨16384, fun _ _ => 0⟩)),
        .command (.transfer .write 255 4096 1804289383), .expires fun _ => 7] = some d ∧
      (d.timer = none ↔ d.status = none ∨ d.status = some .idle) ∧
      (∀ t, d.timer = some t → InTime t) ∧
      ∀ s, d.status = some s →
        (∀ cmd block buffer random, 0 ≤ random → ∃ e s',
          d.hwDiskCmd (.transfer cmd block buffer random) =
              some ((hwDiskCmd (d.toDisk s) cmd block buffer).1, e) ∧
            e.status = some s' ∧ e.toDisk s' = (hwDiskCmd (d.toDisk s) cmd block buffer).2) ∧
        (d.timer ≠ none → ∀ memory, ∃ r, d.diskSighandle memory = some r ∧
          r.2.status = some .idle ∧
          diskSighandle memory (d.toDisk s) = some (r.1, r.2.toDisk .idle)) := by
  refine disk_operations_end ⟨fun _ => ⟨_, rfl, by decide, by decide⟩,
    fun d₁ h₁ => ⟨show (0 : Int) ≤ 1804289383 by decide, fun d₂ h₂ => ⟨?_, fun _ _ => trivial⟩⟩⟩
  have harmed : ((DiskDevice.start.step (.command (.init (some ⟨16384, fun _ _ => 0⟩)))).bind
      fun d => (d.step (.command (.transfer .write 255 4096 1804289383))).map
        DiskDevice.timer) = some (some (0, 305000000)) := by decide +kernel
  rw [h₁, Option.bind_some, h₂, Option.map_some] at harmed
  have htimer : d₂.timer = some (0, 305000000) := Option.some.inj harmed
  exact fun hnone => absurd (htimer.symm.trans hnone) nofun

/-- **A larger disk fails**: from its first block to its last the product overflows. -/
theorem large_disk_overflows {f : ImageFile} (hlarge : (maxBlocks + 1) * 64 ≤ f.size)
    (hfits : f.size < 2 ^ 37) (cmd : DiskCmd) {buffer : Nat} (hbuffer : buffer ≠ 0)
    (random : Int) :
    run DiskDevice.step DiskDevice.start [.command (.init (some f)),
      .command (.transfer cmd (f.size / 64 - 1) buffer random)] = none := by
  unfold maxBlocks at hlarge
  have hsize : Int.bmod (f.size.tdiv 64) (2 ^ 32) = f.size / 64 :=
    numblocks_of_fits (by omega) hfits
  have hinit : ∃ d, DiskDevice.start.step (.command (.init (some f))) = some d ∧
      d.status = some .idle ∧ d.numblocks = f.size / 64 ∧ d.prevBlock = 0 ∧
      d.delayMin = 30 ∧ d.delayMax = 300 := ⟨_, rfl, rfl, hsize, rfl, rfl, rfl⟩
  obtain ⟨d, hstep, hidle, hblocks, hprev, hmin, hmax⟩ := hinit
  have hover : (2 : Int) ^ 31 ≤ (d.pending cmd (f.size / 64 - 1) buffer).distance := by
    have hdist : (d.pending cmd (f.size / 64 - 1) buffer).distance =
        |f.size / 64 - 1 - d.prevBlock| * (d.delayMax - d.delayMin) := rfl
    rw [hdist, hmin, hmax, hprev, sub_zero, abs_of_nonneg (by omega)]
    omega
  have hcmd : d.hwDiskCmd (.transfer cmd (f.size / 64 - 1) buffer random) = none := by
    rw [hwDiskCmd_transfer, if_neg (not_not.mpr hidle), if_neg hbuffer, if_neg (by omega),
      DiskDevice.diskSettimer, if_pos hover, Option.map_none]
  rw [run, hstep, Option.bind_some, run, DiskDevice.step, hcmd, Option.map_none, Option.bind_none]

end PingPongOS
