import Linux011.HardDisk

set_option autoImplicit false

/-!
# The sectors of one request (kernel/blk_drv/hd.c)

The request at the head of the queue, from its first `do_hd_request` to its `end_request`, with the
registers that `hd_out` loads and the data. The drive works on one sector after the other, beginning
with the one the command names, and interrupts after each; a sector that it fails to write may hold
anything. The first `do_hd_request` is one act here: interrupts are on in it, but none comes for this
request before its first sector. A controller that is never ready is left out.
-/
namespace Linux011.HardDisk.Sectors
open RequestQueue (Command MAX_ERRORS)

/-- The contents of a sector, by byte. -/
abbrev Sector : Type := ℕ → UInt8

/-- `hd_info`. The registers hold a head in 4 bits, a sector in 8, and a cylinder in 16. -/
structure Info where
  head : ℕ
  sect : ℕ
  cyl : ℕ
  head_pos : 0 < head
  head_le : head ≤ 16
  sect_pos : 0 < sect
  sect_le : sect ≤ 255
  cyl_le : cyl ≤ 65536

def Info.sectors (d : Info) : ℕ := d.cyl * d.head * d.sect

/-- An entry of `hd`: a part of the drive. -/
structure Partition (d : Info) where
  startSect : ℕ
  nrSects : ℕ
  fits : startSect + nrSects ≤ d.sectors

/-- `CURRENT`. -/
structure Request where
  cmd : Command
  errors : ℕ
  sector : ℕ
  nrSectors : ℕ
  buffer : ℕ

/-- The registers of the controller, as `hd_out` loads them. -/
structure Registers where
  nsect : ℕ
  sect : ℕ
  cyl : ℕ
  head : ℕ

/-- `next` is the sector that the drive works on, `data` what it has been given to write and `source`
    the address this came from. `moved` are the sectors that have been transferred, and the addresses
    of their data. -/
structure Hd where
  current : Option Request
  ended : Option (Bool × Request)
  reset : Bool
  recalibrate : Bool
  doHd : Option Intr
  next : ℕ
  data : Sector
  source : ℕ
  mem : ℕ → UInt8
  disk : ℕ → Sector
  moved : List (ℕ × ℕ)

/-- The sector that the registers mean. -/
def Registers.lba (r : Registers) (d : Info) : ℕ := (r.cyl * d.head + r.head) * d.sect + (r.sect - 1)

/-- `hd_out`; `none` is its panic. -/
def hdOut (d : Info) (s : Hd) (nsect sect head cyl : ℕ) (intr : Intr) : Option Hd :=
  if head > 15 then none
  else
    let regs : Registers := ⟨nsect % 256, sect % 256, cyl % 65536, head⟩
    some { s with doHd := some intr, next := regs.lba d }

/-- `port_read(HD_DATA,buf,256)` -/
def portRead (s : Hd) (buf : ℕ) : Hd :=
  { s with
    mem := fun a => if buf ≤ a ∧ a < buf + 512 then s.disk s.next (a - buf) else s.mem a
    moved := s.moved ++ [(s.next, buf)] }

/-- `port_write(HD_DATA,buf,256)` -/
def portWrite (s : Hd) (buf : ℕ) : Hd := { s with data := fun i => s.mem (buf + i), source := buf }

def endRequest (s : Hd) (r : Request) (uptodate : Bool) : Hd :=
  { s with current := none, ended := some (uptodate, r) }

/-- `bad_rw_intr`; once the request is ended, the next one says whether the drive is reset. -/
def badRwIntr (s : Hd) (r : Request) : Hd :=
  let r := { r with errors := r.errors + 1 }
  if r.errors ≥ MAX_ERRORS then endRequest s r false
  else { s with current := some r, reset := s.reset || decide (r.errors > MAX_ERRORS / 2) }

/-- `block+2 > hd[dev].nr_sects`, in unsigned ints. -/
def Request.behind (r : Request) (nrSects : ℕ) : Prop := nrSects < (r.sector + 2) % 4294967296

instance (r : Request) (nrSects : ℕ) : Decidable (r.behind nrSects) := inferInstanceAs (Decidable (_ < _))

section
variable {d : Info} (p : Partition d)

/-- `do_hd_request`; `drq` says of its write commands whether the drive asks for the data. -/
def doHdRequest (s : Hd) (drq : List Bool) : Option Hd :=
  match s.current with
  | none => some s
  | some r =>
    if r.behind p.nrSects then some (endRequest s r false)
    else
      let block := (r.sector + p.startSect) % 4294967296
      let sec := block % d.sect + 1
      let head := block / d.sect % d.head
      let cyl := block / d.sect / d.head
      if s.reset then
        hdOut d { s with reset := false, recalibrate := true } d.sect d.sect (d.head - 1) d.cyl .recal
      else if s.recalibrate then hdOut d { s with recalibrate := false } d.sect 0 0 0 .recal
      else match r.cmd with
        | .read => hdOut d s r.nrSectors sec head cyl .read
        | .write => (hdOut d s r.nrSectors sec head cyl .write).bind fun s => match drq with
          | false :: drq => doHdRequest (badRwIntr s r) drq
          | _ => some (portWrite s r.buffer)

def readIntr (s : Hd) (r : Request) (ok : Bool) (drq : List Bool) : Option Hd :=
  if !ok then doHdRequest p (badRwIntr s r) drq
  else
    let s := portRead s r.buffer
    let r := { r with
      errors := 0, buffer := r.buffer + 512, sector := r.sector + 1
      nrSectors := oneLess r.nrSectors }
    if r.nrSectors ≠ 0 then some { s with current := some r, doHd := some .read, next := s.next + 1 }
    else doHdRequest p (endRequest s r true) drq

/-- The drive has written the sector. -/
def written (s : Hd) : Hd :=
  { s with
    disk := Function.update s.disk s.next s.data
    moved := s.moved ++ [(s.next, s.source)]
    next := s.next + 1 }

def writeIntr (s : Hd) (r : Request) (ok : Bool) (drq : List Bool) : Option Hd :=
  if !ok then doHdRequest p (badRwIntr s r) drq
  else
    let s := written s
    let r := { r with nrSectors := oneLess r.nrSectors }
    if r.nrSectors ≠ 0 then
      let r := { r with sector := r.sector + 1, buffer := r.buffer + 512 }
      some (portWrite { s with current := some r, doHd := some .write } r.buffer)
    else doHdRequest p (endRequest s r true) drq

def recalIntr (s : Hd) (r : Request) (ok : Bool) (drq : List Bool) : Option Hd :=
  doHdRequest p (if !ok then badRwIntr s r else s) drq

/-- What an interrupt finds: whether the drive did what it was to do, what a sector holds that it
    failed to write, and how it answers the write commands that follow. -/
structure Interrupt where
  ok : Bool
  junk : Sector
  drq : List Bool

/-- The handler that the interrupt calls. -/
def handle (s : Hd) (r : Request) (i : Interrupt) : Intr → Option Hd
  | .read => readIntr p s r i.ok i.drq
  | .write =>
    let s := if i.ok then s else { s with disk := Function.update s.disk s.next i.junk }
    writeIntr p s r i.ok i.drq
  | .recal => recalIntr p s r i.ok i.drq

/-- An interrupt while the request is the first one. -/
def interrupt (s : Hd) (i : Interrupt) : Option Hd :=
  match s.current, s.doHd with
  | some r, some intr => handle p { s with doHd := none } r i intr
  | _, _ => some s

/-- A request as `make_request` fills it in, when it becomes the first one. -/
def fresh (cmd : Command) (block buffer : ℕ) (reset recalibrate : Bool) (mem : ℕ → UInt8)
    (disk : ℕ → Sector) : Hd where
  current := some ⟨cmd, 0, 2 * block % 4294967296, 2, buffer⟩
  ended := none
  reset := reset
  recalibrate := recalibrate
  doHd := none
  next := 0
  data := fun _ => 0
  source := 0
  mem := mem
  disk := disk
  moved := []

/-- `do_hd_request`, and then any interrupts. -/
def run (s : Hd) (drq : List Bool) (intrs : List Interrupt) : Option Hd :=
  (doHdRequest p s drq).bind fun s => intrs.foldlM (interrupt p) s

end

/-! ### What it is meant to do -/

/-- A request for a block, and what was in memory and on the disk before it. -/
structure Job {d : Info} (p : Partition d) where
  cmd : Command
  block : ℕ
  buffer : ℕ
  mem : ℕ → UInt8
  disk : ℕ → Sector
  inside : 2 * block + 2 ≤ p.nrSects

section
variable {d : Info} {p : Partition d} (job : Job p)

def Job.first : ℕ := p.startSect + 2 * job.block

/-- The transfers of the two sectors. -/
def Job.moves : List (ℕ × ℕ) := [(job.first, job.buffer), (job.first + 1, job.buffer + 512)]

/-- The data when `k` sectors have been transferred. -/
def Job.Copied (k : ℕ) (s : Hd) : Prop :=
  match job.cmd with
  | .read => s.disk = job.disk ∧ ∀ a, s.mem a =
      if job.buffer ≤ a ∧ a < job.buffer + 512 * k then
        job.disk (job.first + (a - job.buffer) / 512) ((a - job.buffer) % 512)
      else job.mem a
  | .write => s.mem = job.mem ∧
      (∀ j < k, s.disk (job.first + j) = fun i => job.mem (job.buffer + 512 * j + i)) ∧
      ∀ l, l < job.first ∨ job.first + 2 ≤ l → s.disk l = job.disk l

/-- The sectors are transferred in order, and a request fails for too many errors only. -/
structure Job.Transferred (s : Hd) : Prop where
  order : s.moved <+: job.moves
  copied : job.Copied s.moved.length s
  done : ∀ r, s.ended = some (true, r) → s.moved = job.moves
  failed : ∀ r, s.ended = some (false, r) → MAX_ERRORS ≤ r.errors

/-- An error between the two sectors does not find the block at the end of its partition, unless the
    request fails for it anyway. -/
def Fine (p : Partition d) (s : Hd) (i : Interrupt) : Prop :=
  i.ok = false → ∀ r, s.current = some r → r.nrSectors = 1 → r.errors + 1 < MAX_ERRORS →
    r.sector + 2 ≤ p.nrSects

/-- The drive did what it was to do, and answers a write command that follows. -/
def Interrupt.Good (i : Interrupt) : Prop := i.ok = true ∧ i.drq.head? ≠ some false

/-- What has been done is right, and four interrupts without an error end the request. -/
structure Job.Served (s : Hd) : Prop where
  transferred : job.Transferred s
  ends : ∀ good : List Interrupt, good.length = 4 → (∀ i ∈ good, i.Good) →
    ∃ s', good.foldlM (interrupt p) s = some s' ∧ s'.current = none ∧ job.Transferred s'

def FineRun (p : Partition d) : Hd → List Interrupt → Prop
  | _, [] => True
  | s, i :: intrs => Fine p s i ∧ ∀ s', interrupt p s i = some s' → FineRun p s' intrs

/-- The request with `k` sectors done and `e` errors. -/
def Job.request (k e : ℕ) : Request :=
  ⟨job.cmd, e, 2 * job.block + k, 2 - k, job.buffer + 512 * k⟩

/-- Before `do_hd_request`. -/
structure Job.Ready (k e : ℕ) (s : Hd) : Prop where
  few : k < 2
  errors : e < MAX_ERRORS
  current : s.current = some (job.request k e)
  ended : s.ended = none
  moved : s.moved = job.moves.take k
  copied : job.Copied k s

/-- The interrupts that are still needed, when they find no error. -/
def Hd.togo (s : Hd) : ℕ :=
  match s.current with
  | none => 0
  | some r => r.nrSectors +
      if s.doHd = some .recal then (if s.recalibrate then 2 else 1) else 0

/-- The interrupt that is waited for, with `k` sectors done. -/
inductive Job.Waits (k : ℕ) (s : Hd) : Prop where
  | read (h : s.doHd = some .read) (hc : job.cmd = .read) (hn : s.next = job.first + k)
    (hr : s.reset = false) (hl : s.recalibrate = false)
  | write (h : s.doHd = some .write) (hc : job.cmd = .write) (hn : s.next = job.first + k)
    (hs : s.source = job.buffer + 512 * k) (hd : s.data = fun i => job.mem (job.buffer + 512 * k + i))
    (hr : s.reset = false) (hl : s.recalibrate = false)
  | recal (h : s.doHd = some .recal) (hb : 2 * job.block + k + 2 ≤ p.nrSects) (hr : s.reset = false)

/-- Between two interrupts. -/
inductive Job.Working (s : Hd) : Prop where
  | waits {k e : ℕ} (h : job.Ready k e s) (hw : job.Waits k s)
  | done {r : Request} (hc : s.current = none) (he : s.ended = some (true, r))
    (hm : s.moved = job.moves) (h : job.Copied 2 s)
  | failed {r : Request} {k : ℕ} (hc : s.current = none) (he : s.ended = some (false, r))
    (hr : MAX_ERRORS ≤ r.errors) (hk : k < 2) (hm : s.moved = job.moves.take k) (h : job.Copied k s)

/-- The request has failed too early. -/
def Given (s : Hd) : Prop := s.current = none ∧ ∃ r, s.ended = some (false, r) ∧ r.errors < MAX_ERRORS

theorem take_moves (k : ℕ) (hk : k ≤ 2) : (job.moves.take k).length = k := by
  rw [List.length_take]
  exact Nat.min_eq_left hk

theorem Job.Working.transferred {s : Hd} (h : job.Working s) : job.Transferred s := by
  cases h with
  | waits h hw =>
    refine ⟨?_, ?_, ?_, ?_⟩
    · rw [h.moved]
      exact List.take_prefix _ _
    · rw [h.moved, take_moves job _ h.few.le]
      exact h.copied
    · intro r hr
      rw [h.ended] at hr
      cases hr
    · intro r hr
      rw [h.ended] at hr
      cases hr
  | done hc he hm h =>
    refine ⟨?_, ?_, fun _ _ => hm, ?_⟩
    · rw [hm]
    · rw [hm]
      exact h
    · intro r hr
      rw [he] at hr
      cases hr
  | failed hc he hr hk hm h =>
    refine ⟨?_, ?_, ?_, ?_⟩
    · rw [hm]
      exact List.take_prefix _ _
    · rw [hm, take_moves job _ hk.le]
      exact h
    · intro r' hr'
      rw [he] at hr'
      cases hr'
    · intro r' hr'
      rw [he] at hr'
      cases hr'
      exact hr

theorem Given.not_transferred {s : Hd} (h : Given s) : ¬ job.Transferred s := by
  obtain ⟨-, r, hr, hlt⟩ := h
  intro ht
  exact absurd (ht.failed r hr) (not_le.mpr hlt)

/-! ### One command -/

theorem Info.sectors_lt (d : Info) : d.sectors < 4294967294 := by
  have h1 : d.cyl * d.head ≤ 65536 * 16 := Nat.mul_le_mul d.cyl_le d.head_le
  have h2 : d.cyl * d.head * d.sect ≤ 65536 * 16 * 255 := Nat.mul_le_mul h1 d.sect_le
  unfold Info.sectors
  omega

/-- The registers name the sector. -/
theorem hdOut_lba {block : ℕ} (h : block < d.sectors) (s : Hd) (nsect : ℕ) (intr : Intr) :
    hdOut d s nsect (block % d.sect + 1) (block / d.sect % d.head) (block / d.sect / d.head) intr =
      some { s with doHd := some intr, next := block } := by
  have hhead : block / d.sect % d.head < d.head := Nat.mod_lt _ d.head_pos
  have hsect : block % d.sect < d.sect := Nat.mod_lt _ d.sect_pos
  have hcyl : block / d.sect / d.head < d.cyl := by
    apply Nat.div_lt_of_lt_mul
    apply Nat.div_lt_of_lt_mul
    unfold Info.sectors at h
    calc block < d.cyl * d.head * d.sect := h
      _ = d.sect * (d.head * d.cyl) := by ring
  have h16 := d.head_le
  have h255 := d.sect_le
  have h65536 := d.cyl_le
  have hlba : Registers.lba ⟨nsect % 256, (block % d.sect + 1) % 256,
      block / d.sect / d.head % 65536, block / d.sect % d.head⟩ d = block := by
    unfold Registers.lba
    rw [Nat.mod_eq_of_lt (show block % d.sect + 1 < 256 by omega),
      Nat.mod_eq_of_lt (show block / d.sect / d.head < 65536 by omega), Nat.add_sub_cancel,
      mul_comm (block / d.sect / d.head), Nat.div_add_mod, mul_comm, Nat.div_add_mod]
  unfold hdOut
  rw [if_neg (by omega)]
  dsimp only
  rw [hlba]

theorem Job.request_behind {k : ℕ} (hk : k < 2) (e : ℕ) :
    (job.request k e).behind p.nrSects ↔ p.nrSects < 2 * job.block + k + 2 := by
  have h := job.inside
  have hfit := p.fits
  have hlt := d.sectors_lt
  unfold Request.behind Job.request
  dsimp only
  rw [Nat.mod_eq_of_lt (by omega)]

theorem Job.Copied.congr {k : ℕ} {s s' : Hd} (h : job.Copied k s) (hm : s'.mem = s.mem)
    (hd : s'.disk = s.disk) : job.Copied k s' := by
  unfold Job.Copied at h ⊢
  rw [hm, hd]
  exact h

theorem Job.Ready.congr {k e : ℕ} {s s' : Hd} (h : job.Ready k e s) (hc : s'.current = s.current)
    (he : s'.ended = s.ended) (hv : s'.moved = s.moved) (hm : s'.mem = s.mem)
    (hd : s'.disk = s.disk) : job.Ready k e s' :=
  ⟨h.few, h.errors, hc.trans h.current, he.trans h.ended, hv.trans h.moved, h.copied.congr job hm hd⟩

/-- `bad_rw_intr` counts the error, or ends the request for it. -/
theorem Job.Ready.bad {k e : ℕ} {s : Hd} (h : job.Ready k e s) :
    (e + 1 < MAX_ERRORS ∧ job.Ready k (e + 1) (badRwIntr s (job.request k e))) ∨
    (MAX_ERRORS ≤ e + 1 ∧ job.Working (badRwIntr s (job.request k e)) ∧
      (badRwIntr s (job.request k e)).current = none) := by
  unfold badRwIntr
  dsimp only
  by_cases hlast : (job.request k e).errors + 1 ≥ MAX_ERRORS
  · rw [if_pos hlast]
    exact .inr ⟨hlast, .failed rfl rfl hlast h.few h.moved (h.copied.congr job rfl rfl), rfl⟩
  · rw [if_neg hlast]
    have hlt : e + 1 < MAX_ERRORS := not_le.mp hlast
    exact .inl ⟨hlt, h.few, hlt, rfl, h.ended, h.moved, h.copied.congr job rfl rfl⟩

theorem doHdRequest_none {s : Hd} (h : s.current = none) (drq : List Bool) :
    doHdRequest p s drq = some s := by
  cases drq <;> rw [doHdRequest, h]

/-- The test is made again for the sector that is left. -/
theorem doHdRequest_behind {k e : ℕ} {s : Hd} (h : job.Ready k e s)
    (hb : p.nrSects < 2 * job.block + k + 2) (drq : List Bool) :
    doHdRequest p s drq = some (endRequest s (job.request k e) false) := by
  have hbehind := (job.request_behind h.few e).mpr hb
  cases drq <;> rw [doHdRequest, h.current] <;> exact if_pos hbehind

theorem Job.first_lt {k : ℕ} (hk : k < 2) :
    (2 * job.block + k + p.startSect) % 4294967296 = job.first + k ∧
      job.first + k < d.sectors := by
  have h := job.inside
  have hfit := p.fits
  have hlt := d.sectors_lt
  unfold Job.first
  omega

/-- The request is inside its partition. -/
theorem doHdRequest_inside {k e : ℕ} {s : Hd} (h : job.Ready k e s)
    (hb : 2 * job.block + k + 2 ≤ p.nrSects) (drq : List Bool) :
    doHdRequest p s drq =
      if s.reset then
        hdOut d { s with reset := false, recalibrate := true } d.sect d.sect (d.head - 1) d.cyl .recal
      else if s.recalibrate then hdOut d { s with recalibrate := false } d.sect 0 0 0 .recal
      else match job.cmd with
        | .read => some { s with doHd := some .read, next := job.first + k }
        | .write => match drq with
          | false :: drq => doHdRequest p
              (badRwIntr { s with doHd := some .write, next := job.first + k } (job.request k e)) drq
          | _ => some (portWrite { s with doHd := some .write, next := job.first + k }
              (job.buffer + 512 * k)) := by
  have hbehind : ¬ (job.request k e).behind p.nrSects := by
    rw [job.request_behind h.few]
    exact not_lt.mpr hb
  obtain ⟨hblock, hin⟩ := job.first_lt h.few
  have hsector : (job.request k e).sector = 2 * job.block + k := rfl
  have hcmd : (job.request k e).cmd = job.cmd := rfl
  have hout (intr : Intr) := hdOut_lba hin s (job.request k e).nrSectors intr
  cases drq <;>
  · rw [doHdRequest]
    split
    · rename_i hnone
      rw [h.current] at hnone
      cases hnone
    · rename_i r hr
      rw [h.current] at hr
      cases hr
      dsimp only
      rw [if_neg hbehind, hcmd, hsector, hblock, hout, hout, Option.bind_some]
      rfl

theorem recal_working {k e : ℕ} {s : Hd} (h : job.Ready k e s)
    (hb : 2 * job.block + k + 2 ≤ p.nrSects) (hr : s.reset = false) {head : ℕ} (hh : head ≤ 15)
    (nsect sect cyl : ℕ) :
    ∃ s', hdOut d s nsect sect head cyl .recal = some s' ∧ job.Working s' := by
  unfold hdOut
  rw [if_neg (not_lt.mpr hh)]
  exact ⟨_, rfl, .waits (h.congr job rfl rfl rfl rfl rfl) (.recal rfl hb hr)⟩

/-- What the drive is given to write is what was in memory at first. -/
theorem portWrite_working {k e : ℕ} {s : Hd} (h : job.Ready k e s) (hr : s.reset = false)
    (hl : s.recalibrate = false) (hc : job.cmd = .write) (hd : s.doHd = some .write)
    (hn : s.next = job.first + k) : job.Working (portWrite s (job.buffer + 512 * k)) := by
  have hcopied := h.copied
  unfold Job.Copied at hcopied
  rw [hc] at hcopied
  have hdata : (portWrite s (job.buffer + 512 * k)).data =
      fun i => job.mem (job.buffer + 512 * k + i) := by
    funext i
    show s.mem _ = _
    rw [hcopied.1]
  exact .waits (h.congr job rfl rfl rfl rfl rfl) (.write hd hc hn rfl hdata hr hl)

theorem togo_moving {s : Hd} {r : Request} {intr : Intr} (hr : s.current = some r)
    (hi : s.doHd = some intr) (hne : intr ≠ .recal) : s.togo = r.nrSectors := by
  unfold Hd.togo
  rw [hr, hi]
  dsimp only
  rw [if_neg]
  · rfl
  · intro h
    cases h
    exact hne rfl

theorem togo_recal {s : Hd} {r : Request} (hr : s.current = some r) (hi : s.doHd = some .recal) :
    s.togo = r.nrSectors + (if s.recalibrate then 2 else 1) := by
  unfold Hd.togo
  rw [hr, hi]
  dsimp only
  rw [if_pos rfl]

/-- A command is under way, or the drive does not answer it. Without a reset there is at most one
    recalibration more. -/
theorem doHdRequest_started {k e : ℕ} {s : Hd} (h : job.Ready k e s)
    (hb : 2 * job.block + k + 2 ≤ p.nrSects) (drq : List Bool) :
    (∃ s', doHdRequest p s drq = some s' ∧ job.Working s' ∧
      (s.reset = false → s'.togo ≤ 2 - k + if s.recalibrate then 1 else 0)) ∨
    ∃ rest, drq = false :: rest ∧ doHdRequest p s drq = doHdRequest p
      (badRwIntr { s with doHd := some .write, next := job.first + k } (job.request k e)) rest := by
  have hhead := d.head_le
  rw [doHdRequest_inside job h hb]
  by_cases hr : s.reset = true
  · rw [if_pos hr]
    have hready : job.Ready k e { s with reset := false, recalibrate := true } :=
      h.congr job rfl rfl rfl rfl rfl
    obtain ⟨s', hs, hw⟩ := recal_working job hready hb rfl (show d.head - 1 ≤ 15 by omega)
      d.sect d.sect d.cyl
    refine .inl ⟨s', hs, hw, ?_⟩
    intro hn
    rw [hn] at hr
    cases hr
  · rw [if_neg hr]
    have hreset := Bool.eq_false_iff.mpr hr
    by_cases hl : s.recalibrate = true
    · rw [if_pos hl, if_pos hl]
      have hready : job.Ready k e { s with recalibrate := false } :=
        h.congr job rfl rfl rfl rfl rfl
      refine .inl ⟨_, rfl, .waits (hready.congr job rfl rfl rfl rfl rfl) (.recal rfl hb hreset), ?_⟩
      intro _
      refine le_of_eq (togo_recal (r := job.request k e) ?_ rfl)
      exact h.current
    · rw [if_neg hl, if_neg hl]
      have hrecal := Bool.eq_false_iff.mpr hl
      cases hc : job.cmd with
      | read =>
        refine .inl ⟨_, rfl, .waits (h.congr job rfl rfl rfl rfl rfl)
          (.read rfl hc rfl hreset hrecal), ?_⟩
        intro _
        refine le_of_eq (togo_moving (r := job.request k e) ?_ rfl Intr.noConfusion)
        exact h.current
      | write =>
        have hgiven : job.Working (portWrite { s with doHd := some .write, next := job.first + k }
            (job.buffer + 512 * k)) :=
          portWrite_working job (h.congr job rfl rfl rfl rfl rfl) hreset hrecal hc rfl rfl
        have htogo : (portWrite { s with doHd := some .write, next := job.first + k }
            (job.buffer + 512 * k)).togo = (job.request k e).nrSectors := by
          refine togo_moving ?_ rfl (by decide)
          exact h.current
        cases drq with
        | nil => exact .inl ⟨_, rfl, hgiven, fun _ => htogo.le⟩
        | cons answer rest =>
          cases answer with
          | false => exact .inr ⟨rest, rfl, rfl⟩
          | true => exact .inl ⟨_, rfl, hgiven, fun _ => htogo.le⟩

/-- The request goes on from the first sector that is left. By induction on the write commands that
    the drive does not answer. -/
theorem doHdRequest_working (drq : List Bool) {k e : ℕ} {s : Hd} (h : job.Ready k e s)
    (hb : 2 * job.block + k + 2 ≤ p.nrSects) :
    ∃ s', doHdRequest p s drq = some s' ∧ job.Working s' ∧
      (drq.head? ≠ some false → s.reset = false →
        s'.togo ≤ 2 - k + if s.recalibrate then 1 else 0) := by
  induction drq generalizing s e with
  | nil =>
    rcases doHdRequest_started job h hb [] with ⟨s', hs, hw, hle⟩ | ⟨rest, hrest, -⟩
    · exact ⟨s', hs, hw, fun _ => hle⟩
    · cases hrest
  | cons answer drq ih =>
    rcases doHdRequest_started job h hb (answer :: drq) with ⟨s', hs, hw, hle⟩ | ⟨rest, hrest, hs⟩
    · exact ⟨s', hs, hw, fun _ => hle⟩
    · cases hrest
      rw [hs]
      have hready : job.Ready k e { s with doHd := some .write, next := job.first + k } :=
        h.congr job rfl rfl rfl rfl rfl
      rcases hready.bad job with ⟨-, hbad⟩ | ⟨-, hbad, hnone⟩
      · obtain ⟨s', hs', hw, -⟩ := ih hbad
        exact ⟨s', hs', hw, fun hn => absurd rfl hn⟩
      · exact ⟨_, doHdRequest_none hnone drq, hbad, fun hn => absurd rfl hn⟩

/-- After a failing interrupt. -/
theorem doHdRequest_bad {k e : ℕ} {s : Hd} (h : job.Ready k e s) (drq : List Bool) :
    ∃ s', doHdRequest p (badRwIntr s (job.request k e)) drq = some s' ∧
      ((k = 1 → e + 1 < MAX_ERRORS → 2 * job.block + k + 2 ≤ p.nrSects) → job.Working s') ∧
      (¬ (k = 1 → e + 1 < MAX_ERRORS → 2 * job.block + k + 2 ≤ p.nrSects) → Given s') := by
  rcases h.bad job with ⟨hlt, hbad⟩ | ⟨hge, hbad, hnone⟩
  · by_cases hb : 2 * job.block + k + 2 ≤ p.nrSects
    · obtain ⟨s', hs, hw, -⟩ := doHdRequest_working job drq hbad hb
      exact ⟨s', hs, fun _ => hw, fun hn => absurd (fun _ _ => hb) hn⟩
    · refine ⟨_, doHdRequest_behind job hbad (not_le.mp hb) drq, ?_, ?_⟩
      · intro hfine
        have hk : k = 1 := by
          have hin := job.inside
          have hfew := h.few
          omega
        exact absurd (hfine hk hlt) hb
      · intro _
        exact ⟨rfl, _, rfl, hlt⟩
  · refine ⟨_, doHdRequest_none hnone drq, fun _ => hbad, ?_⟩
    intro hn
    exact absurd (fun _ hlt => absurd hlt (not_lt.mpr hge)) hn

/-! ### One interrupt -/

/-- A sector has been read. -/
theorem Job.Copied.portRead {k : ℕ} {s : Hd} (h : job.Copied k s) (hc : job.cmd = .read)
    (hn : s.next = job.first + k) : job.Copied (k + 1) (portRead s (job.buffer + 512 * k)) := by
  unfold Job.Copied at h ⊢
  rw [hc] at h ⊢
  dsimp only at h ⊢
  refine ⟨h.1, ?_⟩
  intro a
  unfold Sectors.portRead
  dsimp only
  by_cases hnew : job.buffer + 512 * k ≤ a ∧ a < job.buffer + 512 * k + 512
  · have hsector : (a - job.buffer) / 512 = k := by omega
    have hbyte : (a - job.buffer) % 512 = a - (job.buffer + 512 * k) := by omega
    rw [if_pos hnew, if_pos (by omega), h.1, hn, hsector, hbyte]
  · rw [if_neg hnew, h.2]
    by_cases hold : job.buffer ≤ a ∧ a < job.buffer + 512 * k
    · rw [if_pos hold, if_pos (by omega)]
    · rw [if_neg hold, if_neg (by omega)]

theorem Job.Copied.written {k : ℕ} {s : Hd} (h : job.Copied k s) (hk : k < 2)
    (hc : job.cmd = .write) (hn : s.next = job.first + k)
    (hd : s.data = fun i => job.mem (job.buffer + 512 * k + i)) :
    job.Copied (k + 1) (written s) := by
  unfold Job.Copied at h ⊢
  rw [hc] at h ⊢
  dsimp only at h ⊢
  unfold Sectors.written
  refine ⟨h.1, ?_, ?_⟩
  · intro j hj
    dsimp only
    rw [hn]
    by_cases hjk : j = k
    · rw [hjk, Function.update_self, hd]
    · rw [Function.update_of_ne (by omega), h.2.1 j (by omega)]
  · intro l hl
    dsimp only
    rw [hn, Function.update_of_ne (by omega), h.2.2 l hl]

/-- A sector that could not be written is one of those that are left. -/
theorem Job.Copied.spoilt {k : ℕ} {s : Hd} (h : job.Copied k s) (hk : k < 2)
    (hc : job.cmd = .write) (hn : s.next = job.first + k) (junk : Sector) :
    job.Copied k { s with disk := Function.update s.disk s.next junk } := by
  unfold Job.Copied at h ⊢
  rw [hc] at h ⊢
  dsimp only at h ⊢
  refine ⟨h.1, ?_, ?_⟩
  · intro j hj
    rw [hn, Function.update_of_ne (by omega), h.2.1 j hj]
  · intro l hl
    rw [hn, Function.update_of_ne (by omega), h.2.2 l hl]

theorem take_succ_moves {k : ℕ} (hk : k < 2) :
    job.moves.take (k + 1) = job.moves.take k ++ [(job.first + k, job.buffer + 512 * k)] := by
  obtain rfl | rfl : k = 0 ∨ k = 1 := by omega
  · rfl
  · rfl

theorem oneLess_left {k : ℕ} (hk : k < 2) : oneLess (2 - k) = 2 - (k + 1) := by
  unfold oneLess
  omega

/-- The request is one sector further. -/
theorem Job.request_succ {k : ℕ} (hk : k < 2) (e e' : ℕ) :
    job.request (k + 1) e' = { job.request k e with
      errors := e', buffer := (job.request k e).buffer + 512, sector := (job.request k e).sector + 1
      nrSectors := oneLess (job.request k e).nrSectors } := by
  unfold Job.request
  dsimp only
  rw [oneLess_left hk, Nat.mul_succ, ← Nat.add_assoc, ← Nat.add_assoc]

theorem readIntr_ok {k e : ℕ} {s : Hd} (h : job.Ready k e s) (hc : job.cmd = .read)
    (hn : s.next = job.first + k) (hr : s.reset = false) (hl : s.recalibrate = false)
    (drq : List Bool) :
    ∃ s', readIntr p s (job.request k e) true drq = some s' ∧ job.Working s' ∧ s'.togo < 2 - k := by
  have hcopied := h.copied.portRead job hc hn
  have hmoved : (portRead s (job.buffer + 512 * k)).moved = job.moves.take (k + 1) := by
    rw [take_succ_moves job h.few, ← h.moved, ← hn]
    rfl
  have hless : oneLess (job.request k e).nrSectors = 2 - (k + 1) := oneLess_left h.few
  have hrequest := job.request_succ h.few e 0
  unfold readIntr
  rw [if_neg (by decide)]
  dsimp only
  by_cases hlast : k + 1 < 2
  · rw [if_pos (by omega)]
    have hnext : s.next + 1 = job.first + (k + 1) := by
      rw [hn]
      rfl
    have hready : job.Ready (k + 1) 0 { portRead s (job.buffer + 512 * k) with
        current := some (job.request (k + 1) 0), doHd := some .read, next := s.next + 1 } :=
      ⟨hlast, by decide, rfl, h.ended, hmoved, hcopied.congr job rfl rfl⟩
    rw [hrequest] at hready
    refine ⟨_, rfl, .waits hready (.read rfl hc hnext hr hl), ?_⟩
    refine lt_of_eq_of_lt (togo_moving rfl rfl (by decide)) ?_
    exact lt_of_eq_of_lt hless (by omega)
  · rw [if_neg (by omega)]
    have htwo : k + 1 = 2 := by
      have hfew := h.few
      omega
    rw [htwo] at hcopied hmoved
    refine ⟨_, doHdRequest_none rfl drq, .done rfl rfl hmoved (hcopied.congr job rfl rfl), ?_⟩
    exact Nat.sub_pos_of_lt h.few

theorem writeIntr_ok {k e : ℕ} {s : Hd} (h : job.Ready k e s) (hc : job.cmd = .write)
    (hn : s.next = job.first + k) (hs : s.source = job.buffer + 512 * k)
    (hd : s.data = fun i => job.mem (job.buffer + 512 * k + i)) (hr : s.reset = false)
    (hl : s.recalibrate = false) (drq : List Bool) :
    ∃ s', writeIntr p s (job.request k e) true drq = some s' ∧ job.Working s' ∧ s'.togo < 2 - k := by
  have hcopied := h.copied.written job h.few hc hn hd
  have hmoved : (written s).moved = job.moves.take (k + 1) := by
    rw [take_succ_moves job h.few, ← h.moved, ← hn, ← hs]
    rfl
  have hless : oneLess (job.request k e).nrSectors = 2 - (k + 1) := oneLess_left h.few
  have hrequest := job.request_succ h.few e e
  unfold writeIntr
  rw [if_neg (by decide)]
  dsimp only
  by_cases hlast : k + 1 < 2
  · rw [if_pos (by omega)]
    have hnext : s.next + 1 = job.first + (k + 1) := by
      rw [hn]
      rfl
    have hready : job.Ready (k + 1) e { written s with
        current := some (job.request (k + 1) e), doHd := some .write } :=
      ⟨hlast, h.errors, rfl, h.ended, hmoved, hcopied.congr job rfl rfl⟩
    have hbuffer : (job.request k e).buffer + 512 = job.buffer + 512 * (k + 1) := by
      rw [Nat.mul_succ, ← Nat.add_assoc]
      rfl
    have hworking := portWrite_working job hready hr hl hc rfl hnext
    rw [← hbuffer, hrequest] at hworking
    refine ⟨_, rfl, hworking, ?_⟩
    refine lt_of_eq_of_lt (togo_moving rfl rfl (by decide)) ?_
    exact lt_of_eq_of_lt hless (by omega)
  · rw [if_neg (by omega)]
    have htwo : k + 1 = 2 := by
      have hfew := h.few
      omega
    rw [htwo] at hcopied hmoved
    refine ⟨_, doHdRequest_none rfl drq, .done rfl rfl hmoved (hcopied.congr job rfl rfl), ?_⟩
    exact Nat.sub_pos_of_lt h.few

/-- A failing interrupt, in the words of `Fine`. -/
theorem fine_iff {k e : ℕ} {s : Hd} (h : job.Ready k e s) {i : Interrupt} (hi : i.ok = false) :
    Fine p s i ↔ (k = 1 → e + 1 < MAX_ERRORS → 2 * job.block + k + 2 ≤ p.nrSects) := by
  have hfew := h.few
  have hleft : (job.request k e).nrSectors = 1 ↔ k = 1 := by
    show 2 - k = 1 ↔ k = 1
    omega
  constructor
  · intro hfine hk
    exact hfine hi _ h.current (hleft.mpr hk)
  · intro hfine _ r hr hn
    rw [h.current] at hr
    cases hr
    exact hfine (hleft.mp hn)

theorem interrupt_none {s : Hd} (h : s.current = none) (i : Interrupt) :
    interrupt p s i = some s := by
  unfold interrupt
  rw [h]

theorem fine_ok {s : Hd} {i : Interrupt} (h : i.ok = true) : Fine p s i := by
  intro hn
  rw [h] at hn
  cases hn

theorem fine_none {s : Hd} (h : s.current = none) (i : Interrupt) : Fine p s i := by
  intro _ r hr
  rw [h] at hr
  cases hr

theorem interrupt_some {s : Hd} {r : Request} {intr : Intr} (hr : s.current = some r)
    (hi : s.doHd = some intr) (i : Interrupt) :
    interrupt p s i = handle p { s with doHd := none } r i intr := by
  unfold interrupt
  rw [hr, hi]

theorem interrupt_ok {k e : ℕ} {s : Hd} (h : job.Ready k e s) (hw : job.Waits k s) {i : Interrupt}
    (hok : i.ok = true) : ∃ s', interrupt p s i = some s' ∧ job.Working s' ∧
      (i.drq.head? ≠ some false → s'.togo < s.togo) := by
  have hready : job.Ready k e { s with doHd := none } := h.congr job rfl rfl rfl rfl rfl
  cases hw with
  | read hi hc hn hr hl =>
    rw [interrupt_some h.current hi, togo_moving h.current hi (by decide)]
    unfold handle
    rw [hok]
    obtain ⟨s', hs, hw', hlt⟩ := readIntr_ok job hready hc hn hr hl i.drq
    exact ⟨s', hs, hw', fun _ => hlt⟩
  | write hi hc hn hs hd hr hl =>
    rw [interrupt_some h.current hi, togo_moving h.current hi (by decide)]
    unfold handle
    rw [hok]
    obtain ⟨s', hs', hw', hlt⟩ := writeIntr_ok job hready hc hn hs hd hr hl i.drq
    exact ⟨s', hs', hw', fun _ => hlt⟩
  | recal hi hb hr =>
    rw [interrupt_some h.current hi, togo_recal h.current hi]
    unfold handle recalIntr
    rw [hok]
    obtain ⟨s', hs, hw', hle⟩ := doHdRequest_working job i.drq hready hb
    refine ⟨s', hs, hw', ?_⟩
    intro hn
    refine lt_of_le_of_lt (hle hn hr) ?_
    show 2 - k + (if s.recalibrate then 1 else 0) < 2 - k + (if s.recalibrate then 2 else 1)
    split
    · omega
    · omega

/-- An interrupt goes on with the request, or gives it up. -/
theorem interrupt_working {s : Hd} (h : job.Working s) (i : Interrupt) :
    ∃ s', interrupt p s i = some s' ∧ (Fine p s i → job.Working s') ∧ (¬ Fine p s i → Given s') := by
  cases h with
  | done hc he hm h =>
    refine ⟨s, interrupt_none hc i, fun _ => .done hc he hm h, ?_⟩
    intro hn
    exact absurd (fine_none hc i) hn
  | failed hc he hr hk hm h =>
    refine ⟨s, interrupt_none hc i, fun _ => .failed hc he hr hk hm h, ?_⟩
    intro hn
    exact absurd (fine_none hc i) hn
  | @waits k e h hw =>
    have hready : job.Ready k e { s with doHd := none } := h.congr job rfl rfl rfl rfl rfl
    cases hok : i.ok with
    | true =>
      obtain ⟨s', hs, hw', -⟩ := interrupt_ok job h hw hok
      refine ⟨s', hs, fun _ => hw', ?_⟩
      intro hn
      exact absurd (fine_ok hok) hn
    | false =>
      rw [fine_iff job h hok]
      cases hw with
      | read hi hc hn hr hl =>
        rw [interrupt_some h.current hi]
        unfold handle readIntr
        rw [hok]
        exact doHdRequest_bad job hready i.drq
      | write hi hc hn hs hd hr hl =>
        rw [interrupt_some h.current hi]
        unfold handle writeIntr
        rw [hok]
        have hspoilt : job.Ready k e { s with
            doHd := none, disk := Function.update s.disk s.next i.junk } :=
          ⟨h.few, h.errors, h.current, h.ended, h.moved,
            hready.copied.spoilt job h.few hc hn i.junk⟩
        exact doHdRequest_bad job hspoilt i.drq
      | recal hi hb hr =>
        rw [interrupt_some h.current hi]
        unfold handle recalIntr
        rw [hok]
        exact doHdRequest_bad job hready i.drq

/-! ### All interrupts -/

theorem foldlM_none {s : Hd} (h : s.current = none) (intrs : List Interrupt) :
    intrs.foldlM (Sectors.interrupt p) s = some s := by
  induction intrs with
  | nil => rfl
  | cons i intrs ih =>
    rw [List.foldlM_cons, interrupt_none h i]
    exact ih

/-- Interrupts without an error end the request. By induction on the interrupts: each is one that was
    needed. -/
theorem good_interrupts (good : List Interrupt) {s : Hd} (h : job.Working s)
    (hlen : s.togo ≤ good.length) (hgood : ∀ i ∈ good, i.Good) :
    ∃ s', good.foldlM (Sectors.interrupt p) s = some s' ∧ s'.current = none ∧ job.Transferred s' := by
  induction good generalizing s with
  | nil =>
    cases h with
    | done hc he hm h => exact ⟨s, rfl, hc, (Job.Working.done hc he hm h).transferred⟩
    | failed hc he hr hk hm h => exact ⟨s, rfl, hc, (Job.Working.failed hc he hr hk hm h).transferred⟩
    | @waits k e h hw =>
      have hfew := h.few
      have hleft : 2 - k ≤ s.togo := by
        unfold Hd.togo
        rw [h.current]
        exact Nat.le_add_right _ _
      rw [List.length_nil] at hlen
      omega
  | cons i good ih =>
    obtain ⟨hok, hdrq⟩ := hgood i (List.mem_cons_self ..)
    have hrest : ∀ i ∈ good, i.Good := fun j hj => hgood j (List.mem_cons_of_mem i hj)
    cases h with
    | done hc he hm h =>
      exact ⟨s, foldlM_none hc _, hc, (Job.Working.done hc he hm h).transferred⟩
    | failed hc he hr hk hm h =>
      exact ⟨s, foldlM_none hc _, hc, (Job.Working.failed hc he hr hk hm h).transferred⟩
    | waits h hw =>
      obtain ⟨s₁, hs₁, hw₁, hlt⟩ := interrupt_ok job h hw hok
      rw [List.foldlM_cons, hs₁]
      rw [List.length_cons] at hlen
      exact ih hw₁ (Nat.le_of_lt_succ (lt_of_lt_of_le (hlt hdrq) hlen)) hrest

theorem Job.Working.togo_le {s : Hd} (h : job.Working s) : s.togo ≤ 4 := by
  cases h with
  | done hc he hm h =>
    unfold Hd.togo
    rw [hc]
    exact Nat.zero_le _
  | failed hc he hr hk hm h =>
    unfold Hd.togo
    rw [hc]
    exact Nat.zero_le _
  | @waits k e h hw =>
    unfold Hd.togo
    rw [h.current]
    show 2 - k + (if s.doHd = some .recal then (if s.recalibrate then 2 else 1) else 0) ≤ 4
    split_ifs <;> omega

theorem Job.Working.served {s : Hd} (h : job.Working s) : job.Served s :=
  ⟨h.transferred, fun good hlen hgood => good_interrupts job good h (hlen ▸ h.togo_le) hgood⟩

theorem interrupts_working (intrs : List Interrupt) {s : Hd} (h : job.Working s) :
    ∃ s', intrs.foldlM (Sectors.interrupt p) s = some s' ∧ (job.Served s' ↔ FineRun p s intrs) := by
  induction intrs generalizing s with
  | nil => exact ⟨s, rfl, fun _ => trivial, fun _ => h.served⟩
  | cons i intrs ih =>
    obtain ⟨s₁, hs₁, hgood, hbad⟩ := interrupt_working job h i
    rw [List.foldlM_cons, hs₁]
    by_cases hfine : Fine p s i
    · obtain ⟨s', hs', hiff⟩ := ih (hgood hfine)
      refine ⟨s', hs', hiff.trans ?_⟩
      constructor
      · intro hrun
        refine ⟨hfine, ?_⟩
        intro s₂ hs₂
        rw [hs₁] at hs₂
        cases hs₂
        exact hrun
      · intro hrun
        exact hrun.2 s₁ hs₁
    · refine ⟨s₁, foldlM_none (hbad hfine).1 intrs, ?_⟩
      constructor
      · intro ht
        exact absurd ht.transferred ((hbad hfine).not_transferred job)
      · intro hrun
        exact absurd hrun.1 hfine

theorem fresh_ready (reset recalibrate : Bool) :
    job.Ready 0 0 (fresh job.cmd job.block job.buffer reset recalibrate job.mem job.disk) := by
  have h := job.inside
  have hfit := p.fits
  have hlt := d.sectors_lt
  refine ⟨by decide, by decide, ?_, rfl, rfl, ?_⟩
  · have hsector : 2 * job.block % 4294967296 = 2 * job.block := Nat.mod_eq_of_lt (by omega)
    unfold fresh Job.request
    rw [hsector]
    rfl
  · unfold Job.Copied
    cases job.cmd with
    | read =>
      refine ⟨rfl, ?_⟩
      intro a
      rw [if_neg (by omega)]
      rfl
    | write => exact ⟨rfl, fun j hj => absurd hj (Nat.not_lt_zero j), fun _ _ => rfl⟩

/-- The request is served exactly when no error that it survives comes between its two sectors at the
    end of the partition. -/
theorem sectors_served_iff (reset recalibrate : Bool) (drq : List Bool) (intrs : List Interrupt) :
    ∃ s₀ s, doHdRequest p (fresh job.cmd job.block job.buffer reset recalibrate job.mem job.disk) drq =
        some s₀ ∧ intrs.foldlM (interrupt p) s₀ = some s ∧ (job.Served s ↔ FineRun p s₀ intrs) := by
  obtain ⟨s₀, hs₀, hw, -⟩ := doHdRequest_working job drq (fresh_ready job reset recalibrate) job.inside
  obtain ⟨s, hs, hiff⟩ := interrupts_working job intrs hw
  exact ⟨s₀, s, hs₀, hs, hiff⟩

end

/-- A drive with two sectors, which are one partition. -/
def smallDrive : Info where
  head := 1
  sect := 1
  cyl := 2
  head_pos := Nat.one_pos
  head_le := Nat.le_of_ble_eq_true rfl
  sect_pos := Nat.one_pos
  sect_le := Nat.le_of_ble_eq_true rfl
  cyl_le := Nat.le_of_ble_eq_true rfl

def smallPart : Partition smallDrive := ⟨0, 2, Nat.le_of_ble_eq_true rfl⟩

def lastBlock : Job smallPart := ⟨.read, 0, 0, fun _ => 0, fun _ _ => 0, Nat.le_of_ble_eq_true rfl⟩

/-- One error on the second sector of the last block fails the request. -/
theorem sectors_given_up : ∃ s r,
    run smallPart (fresh .read 0 0 false false (fun _ => 0) fun _ _ => 0) []
      [⟨true, fun _ => 0, []⟩, ⟨false, fun _ => 0, []⟩] = some s ∧
    s.ended = some (false, r) ∧ r.errors = 1 ∧ ¬ lastBlock.Served s := by
  refine ⟨_, _, rfl, rfl, rfl, ?_⟩
  intro h
  exact absurd (h.transferred.failed _ rfl) (by decide)

end Linux011.HardDisk.Sectors
