import Linux011.HardDisk

set_option autoImplicit false

/-!
# The interrupts and timers of the floppy driver (kernel/blk_drv/floppy.c)

The bytes sent to the controller and the DMA are left out. An interrupt brings the bytes that
`result` reads; the motor and the selected drive are what the rest of the kernel makes of them.
`add_request` calls `do_fd_request` with interrupts on, which may come before it. The handlers run
with interrupts on as well: an interrupt or a timer that comes in the middle of a function of the
driver is not modelled.
-/
namespace Linux011.Floppy
open RequestQueue (Command)
open DiskRequests

def MAX_ERRORS : ℕ := 8
def MAX_REPLIES : ℕ := 7

/-- What is used of `struct floppy_struct`. -/
structure Geometry where
  size : ℕ
  sect : ℕ
  head : ℕ
  stretch : ℕ
  rate : ℕ
  spec1 : ℕ

inductive Intr where
  | rw
  | seek
  | recal
  | reset
  deriving DecidableEq

/-- A function that `add_timer` was called with. -/
inductive Timer where
  | on
  | transfer
  deriving DecidableEq

/-- `issued` is the request that the last operation was for. `sends` says of the bytes sent next, in
    groups, whether the controller takes them, and `running` whether the motor has come up. -/
structure Fd extends Requests where
  reset : Bool
  recalibrate : Bool
  seek : Bool
  floppy : ℕ
  currentDrive : ℕ
  sector : ℕ
  head : ℕ
  track : ℕ
  seekTrack : ℕ
  currentTrack : ℕ
  command : Command
  curSpec1 : Option ℕ
  curRate : Option ℕ
  reply : ℕ → ℕ
  dor : ℕ
  selected : Bool
  doFloppy : Option Intr
  timers : List Timer
  issued : ℕ
  sends : List Bool
  running : Bool

/-- Some calls of `output_byte`. -/
def outputBytes (s : Fd) : Fd :=
  if s.reset then s
  else match s.sends with
    | [] => s
    | taken :: sends => { s with sends := sends, reset := !taken }

/-- What the controller has to say: some bytes, and then that there are no more, or nothing. -/
structure Reply where
  bytes : List ℕ
  done : Bool

/-- `result`: the number of bytes, -1 as `none`. -/
def result (s : Fd) (reply : Reply) : Option ℕ × Fd :=
  if s.reset then (none, s)
  else
    let s := { s with
      reply := fun i => if i < MAX_REPLIES then reply.bytes.getD i (s.reply i) else s.reply i }
    if reply.done ∧ reply.bytes.length ≤ MAX_REPLIES then (some reply.bytes.length, s)
    else (none, { s with reset := true })

/-- `floppy_deselect`, and `end_request(0)` or `end_request(1)`. -/
def deselectEnd (s : Fd) : Option Fd :=
  (endRequest s.toRequests).map fun q => { s with toRequests := q, selected := false }

def badFlpIntr (s : Fd) : Option Fd :=
  (countError s.issued s.toRequests).bind fun q =>
  q.queue.head?.bind fun current =>
  let s := { s with toRequests := q }
  (if current.errors > MAX_ERRORS then deselectEnd s else some s).bind fun s =>
  s.queue.head?.map fun current =>
  if current.errors > MAX_ERRORS / 2 then { s with reset := true }
  else { s with recalibrate := true }

def resetFloppy (s : Fd) : Fd :=
  { s with
    reset := false, curSpec1 := none, curRate := none, recalibrate := true, doFloppy := some .reset }

/-- `if (reset) do_fd_request()`. -/
def restart (s : Fd) : Fd := if s.reset then resetFloppy { s with seek := false } else s

/-- `setup_DMA` uses the buffer of `CURRENT`. -/
def setupRwFloppy (s : Fd) : Option Fd :=
  s.queue.head?.map fun r => restart (outputBytes { s with doFloppy := some .rw, issued := r.serial })

/-- The specify command and the data rate, where they are not those of the floppy's type. -/
def specify (types : ℕ → Geometry) (s : Fd) : Fd :=
  let g := types s.floppy
  let s := if s.curSpec1 ≠ some g.spec1 then outputBytes { s with curSpec1 := some g.spec1 } else s
  { s with curRate := some g.rate }

def transfer (types : ℕ → Geometry) (s : Fd) : Option Fd :=
  let s := specify types s
  if s.reset then some (restart s)
  else if !s.seek then setupRwFloppy s
  else some (restart (outputBytes { s with doFloppy := some .seek }))

def floppyOnInterrupt (types : ℕ → Geometry) (s : Fd) : Option Fd :=
  let s := { s with selected := true }
  if s.currentDrive ≠ s.dor then
    some { s with dor := s.currentDrive, timers := s.timers ++ [.transfer] }
  else transfer types s

def recalibrateFloppy (s : Fd) : Fd :=
  restart (outputBytes { s with recalibrate := false, currentTrack := 0, doFloppy := some .recal })

/-- The check of `do_fd_request`, for the geometry of the request's own type. -/
def bad (types : ℕ → Geometry) (r : Request) : Bool := decide (behind r (types (r.minor / 4)).size)

/-- Where the blocks of a request are, the tracks in unsigned chars. -/
def setUp (types : ℕ → Geometry) (s : Fd) (r : Request) : Fd :=
  let g := types s.floppy
  let block := r.sector / g.sect
  let track := block / g.head % 256
  let seekTrack := track * 2 ^ g.stretch % 256
  { s with
    sector := (r.sector % g.sect + 1) % 256
    head := block % g.head % 256
    track := track
    seekTrack := seekTrack
    seek := s.seek || decide (seekTrack ≠ s.currentTrack)
    command := r.cmd
    issued := r.serial }

/-- The loop of `do_fd_request`, which looks for a good request from the given ones on. -/
def findRequest (types : ℕ → Geometry) : List Request → Fd → Fd
  | [], s => { s with queue := [] }
  | r :: rest, s =>
    let s := { s with
      floppy := r.minor / 4
      seek := s.seek || decide (s.currentDrive ≠ r.minor % 4)
      currentDrive := r.minor % 4 }
    if bad types r then findRequest types rest { s with ended := s.ended ++ [r.serial] }
    else setUp types { s with queue := r :: rest } r

/-- `ticks_to_floppy_on`, which selects the drive if none is. -/
def selectDrive (s : Fd) : Fd := { s with dor := if s.selected then s.dor else s.currentDrive }

def doFdRequest (types : ℕ → Geometry) (s : Fd) : Option Fd :=
  let s := { s with seek := false }
  if s.reset then some (resetFloppy s)
  else if s.recalibrate then some (recalibrateFloppy s)
  else
    let s := findRequest types s.queue s
    if s.queue = [] then some s
    else
      let s := selectDrive s
      -- `add_timer` calls the function at once if there is no time to wait
      if s.running then floppyOnInterrupt types s else some { s with timers := s.timers ++ [.on] }

/-- The test of `rw_interrupt`: not the seven bytes of a success. -/
def rwFailed (n : Option ℕ) (s : Fd) : Bool :=
  decide (n ≠ some 7) || decide (s.reply 0 &&& 0xf8 ≠ 0) || decide (s.reply 1 &&& 0xbf ≠ 0) ||
    decide (s.reply 2 &&& 0x73 ≠ 0)

def writeProtected (s : Fd) : Bool := decide (s.reply 1 &&& 0x02 ≠ 0)

def rwInterrupt (types : ℕ → Geometry) (s : Fd) (bytes : Reply) : Option Fd :=
  let (n, s) := result s bytes
  (if rwFailed n s then
    if writeProtected s then deselectEnd s else badFlpIntr s
  else deselectEnd s).bind fun s => doFdRequest types s

/-- The test of `seek_interrupt`. -/
def seekFailed (n : Option ℕ) (s : Fd) : Bool :=
  decide (n ≠ some 2) || decide (s.reply 0 &&& 0xf8 ≠ 0x20) || decide (s.reply 1 ≠ s.seekTrack)

def seekInterrupt (types : ℕ → Geometry) (s : Fd) (bytes : Reply) : Option Fd :=
  let (n, s) := result (outputBytes s) bytes
  if seekFailed n s then (badFlpIntr s).bind fun s => doFdRequest types s
  else setupRwFloppy { s with currentTrack := s.reply 1 }

/-- The test of `recal_interrupt` and of `unexpected_floppy_interrupt`. -/
def recalFailed (n : Option ℕ) (s : Fd) : Bool :=
  decide (n ≠ some 2) || decide (s.reply 0 &&& 0xe0 = 0x60)

def recalInterrupt (types : ℕ → Geometry) (s : Fd) (bytes : Reply) : Option Fd :=
  let (n, s) := result (outputBytes s) bytes
  doFdRequest types
    (if recalFailed n s then { s with reset := true } else { s with recalibrate := false })

def resetInterrupt (types : ℕ → Geometry) (s : Fd) (bytes : Reply) : Option Fd :=
  let (_, s) := result (outputBytes s) bytes
  doFdRequest types (outputBytes s)

def unexpectedFloppyInterrupt (s : Fd) (bytes : Reply) : Fd :=
  let (n, s) := result (outputBytes s) bytes
  if recalFailed n s then { s with reset := true } else { s with recalibrate := true }

/-- `floppy_interrupt`, which is not among the sources, calls what `entry` takes out of
    `do_floppy`, or `unexpected_floppy_interrupt`. -/
def floppyInterrupt (entry : Option Intr → Option Intr × Option Intr) (types : ℕ → Geometry)
    (s : Fd) (bytes : Reply) : Option Fd :=
  let intr := (entry s.doFloppy).2
  let s := { s with doFloppy := (entry s.doFloppy).1 }
  match intr with
  | none => some (unexpectedFloppyInterrupt s bytes)
  | some .rw => rwInterrupt types s bytes
  | some .seek => seekInterrupt types s bytes
  | some .recal => recalInterrupt types s bytes
  | some .reset => resetInterrupt types s bytes

/-- `called`: a task has made its request the first one, and `do_fd_request` comes next. -/
structure Driver extends Fd where
  called : Bool

inductive Act where
  | add (minor : ℕ) (cmd : Command) (block : ℕ)
  | call
  | interrupt (bytes : Reply)
  | timer (i : ℕ)
  /-- `floppy_on`, `floppy_off` and `floppy_change` of other parts of the kernel -/
  | select (dor : ℕ) (selected : Bool)

def timerRuns (types : ℕ → Geometry) (s : Fd) (i : ℕ) : Option Fd :=
  match s.timers[i]? with
  | none => some s
  | some .on => floppyOnInterrupt types { s with timers := s.timers.eraseIdx i }
  | some .transfer => transfer types { s with timers := s.timers.eraseIdx i }

/-- `add_request`, its call of `do_fd_request`, an interrupt, or a timer that has run down. The task
    does not sleep between the first two. -/
def step (entry : Option Intr → Option Intr × Option Intr) (types : ℕ → Geometry) (s : Driver) :
    Act → Option Driver
  | .add minor cmd block =>
    let req := newRequest s.made minor cmd block
    if s.called then some s
    else if s.queue = [] then some { s with queue := [req], made := s.made + 1, called := true }
    else some { s with queue := addRequest req s.queue, made := s.made + 1 }
  | .call => if s.called then (doFdRequest types s.toFd).map fun fd => ⟨fd, false⟩ else some s
  | .interrupt bytes => (floppyInterrupt entry types s.toFd bytes).map fun fd => ⟨fd, s.called⟩
  | .timer i => (timerRuns types s.toFd i).map fun fd => ⟨fd, s.called⟩
  | .select dor selected => some { s with dor := dor, selected := selected }

/-- An act, with what the controller and the motor do meanwhile. -/
structure Event where
  act : Act
  sends : List Bool
  running : Bool

def react (entry : Option Intr → Option Intr × Option Intr) (types : ℕ → Geometry) (s : Driver)
    (e : Event) : Option Driver :=
  step entry types { s with sends := e.sends, running := e.running } e.act

def run (entry : Option Intr → Option Intr × Option Intr) (types : ℕ → Geometry) (s : Driver)
    (events : List Event) : Option Driver :=
  events.foldlM (react entry types) s

/-- The static variables of floppy.c. -/
def start : Driver where
  queue := []
  made := 0
  ended := []
  charged := []
  reset := false
  recalibrate := false
  seek := false
  floppy := 0
  currentDrive := 0
  sector := 0
  head := 0
  track := 0
  seekTrack := 0
  currentTrack := 255
  command := .read
  curSpec1 := none
  curRate := none
  reply _ := 0
  dor := 0
  selected := false
  doFloppy := none
  timers := []
  issued := 0
  sends := []
  running := true
  called := false

/-- The interrupt counts an error against the request at the head. -/
def CountsError (s : Fd) (bytes : Reply) : Prop :=
  (s.doFloppy = some .rw ∧ rwFailed (result s bytes).1 (result s bytes).2 = true ∧
    writeProtected (result s bytes).2 = false) ∨
  (s.doFloppy = some .seek ∧
    seekFailed (result (outputBytes s) bytes).1 (result (outputBytes s) bytes).2 = true)

instance (s : Fd) (bytes : Reply) : Decidable (CountsError s bytes) := by
  unfold CountsError; infer_instance

/-- An error that is the last one allowed finds another request queued, and no request comes to an
    empty queue while an operation is under way. -/
def Fine (s : Driver) (e : Event) : Prop :=
  match e.act with
  | .add _ _ _ => s.queue = [] → s.doFloppy = none ∧ s.timers = []
  | .interrupt bytes => ∀ r ∈ s.queue, s.queue = [r] → MAX_ERRORS ≤ r.errors →
      ¬ CountsError { s.toFd with sends := e.sends, running := e.running } bytes
  | .call | .timer _ | .select _ _ => True

instance (s : Driver) (e : Event) : Decidable (Fine s e) := by
  obtain ⟨act, sends, running⟩ := e
  cases act <;> unfold Fine <;> infer_instance

/-- All steps of a run meet the condition, as far as the run comes. -/
def FineRun (entry : Option Intr → Option Intr × Option Intr) (types : ℕ → Geometry) :
    Driver → List Event → Prop
  | _, [] => True
  | s, e :: events => Fine s e ∧ ∀ s' ∈ react entry types s e, FineRun entry types s' events

instance decidableFineRun (entry : Option Intr → Option Intr × Option Intr)
    (types : ℕ → Geometry) : ∀ s events, Decidable (FineRun entry types s events)
  | _, [] => .isTrue trivial
  | s, e :: events =>
    have _ := fun s' => decidableFineRun entry types s' events
    inferInstanceAs (Decidable (Fine s e ∧
      ∀ s' ∈ react entry types s e, FineRun entry types s' events))

/-- What holds in all states: as long as there is a request, something is under way. -/
structure Correct (s : Driver) : Prop where
  once : Once s.toRequests
  busy : s.queue ≠ [] → s.called = true ∨ s.doFloppy ≠ none ∨ s.timers ≠ []

/-! ### One operation at a time -/

/-- While a function of the driver is running, no timer is. -/
structure Base (s : Fd) : Prop where
  once : Once s.toRequests
  few : ∀ r ∈ s.queue, r.errors ≤ MAX_ERRORS
  timers : s.timers = []

/-- What is under way, and for whom. -/
inductive Flight (s : Fd) : Prop
  | idle (hq : s.queue = []) (hd : s.doFloppy = none) (ht : s.timers = [])
  | clearing (hd : s.doFloppy = some .recal ∨ s.doFloppy = some .reset) (ht : s.timers = [])
  | working {r : Request} {rest : List Request} (hq : s.queue = r :: rest)
      (hi : s.issued = r.serial) (hd : s.doFloppy = some .rw ∨ s.doFloppy = some .seek)
      (ht : s.timers = [])
  | waiting {r : Request} {rest : List Request} {t : Timer} (hq : s.queue = r :: rest)
      (hi : s.issued = r.serial) (hd : s.doFloppy = none) (ht : s.timers = [t])

structure Settled (s : Fd) : Prop where
  once : Once s.toRequests
  few : ∀ r ∈ s.queue, r.errors ≤ MAX_ERRORS
  flight : Flight s

/-- Before the call of `do_fd_request` nothing is under way. -/
inductive Between (s : Driver) : Prop
  | free (hc : s.called = false) (h : Settled s.toFd)
  | called (hc : s.called = true) (h : Base s.toFd) (hd : s.doFloppy = none)

section
variable {types : ℕ → Geometry} {s s' : Fd} {reply : Reply}

/-- Nothing else matters. -/
theorem Settled.congr (h : Settled s) (hr : s'.toRequests = s.toRequests)
    (hi : s'.issued = s.issued) (hd : s'.doFloppy = s.doFloppy) (ht : s'.timers = s.timers) :
    Settled s' := by
  refine ⟨hr ▸ h.once, hr ▸ h.few, ?_⟩
  have hq : s'.queue = s.queue := congrArg Requests.queue hr
  cases h.flight with
  | idle hq' hd' ht' => exact .idle (hq.trans hq') (hd.trans hd') (ht.trans ht')
  | clearing hd' ht' => exact .clearing (hd ▸ hd') (ht.trans ht')
  | working hq' hi' hd' ht' =>
    exact .working (hq.trans hq') (hi.trans hi') (hd ▸ hd') (ht.trans ht')
  | waiting hq' hi' hd' ht' =>
    exact .waiting (hq.trans hq') (hi.trans hi') (hd.trans hd') (ht.trans ht')

theorem Settled.busy (h : Settled s) (hq : s.queue ≠ []) : s.doFloppy ≠ none ∨ s.timers ≠ [] := by
  cases h.flight with
  | idle hq' _ _ => exact absurd hq' hq
  | clearing hd _ => exact .inl (by rcases hd with hd | hd <;> simp [hd])
  | working _ _ hd _ => exact .inl (by rcases hd with hd | hd <;> simp [hd])
  | waiting _ _ _ ht => exact .inr (by simp [ht])

theorem Between.correct {s : Driver} (h : Between s) : Correct s := by
  cases h with
  | free _ h => exact ⟨h.once, fun hq => .inr (h.busy hq)⟩
  | called hc h _ => exact ⟨h.once, fun _ => .inl hc⟩

theorem outputBytes_same (s : Fd) :
    ∃ reset sends, outputBytes s = { s with reset := reset, sends := sends } := by
  unfold outputBytes
  split_ifs
  · exact ⟨s.reset, s.sends, rfl⟩
  · split
    · exact ⟨s.reset, s.sends, rfl⟩
    · exact ⟨_, _, rfl⟩

theorem result_same (s : Fd) (reply : Reply) :
    ∃ reset bytes, (result s reply).2 = { s with reset := reset, reply := bytes } := by
  unfold result
  simp only
  split_ifs
  · exact ⟨s.reset, s.reply, rfl⟩
  · exact ⟨_, _, rfl⟩
  · exact ⟨_, _, rfl⟩

theorem Base.outputBytes (h : Base s) : Base (outputBytes s) := by
  obtain ⟨reset, sends, he⟩ := outputBytes_same s
  rw [he]
  exact ⟨h.once, h.few, h.timers⟩

theorem Base.result (h : Base s) (reply : Reply) : Base (result s reply).2 := by
  obtain ⟨reset, bytes, he⟩ := result_same s reply
  rw [he]
  exact ⟨h.once, h.few, h.timers⟩

theorem resetFloppy_settled (h : Base s) : Settled (resetFloppy s) :=
  ⟨h.once, h.few, .clearing (.inr rfl) h.timers⟩

theorem restart_settled (h : Base s) (hf : s.reset = false → Flight s) : Settled (restart s) := by
  unfold restart
  cases hr : s.reset with
  | true =>
    rw [if_pos rfl]
    exact resetFloppy_settled ⟨h.once, h.few, h.timers⟩
  | false =>
    rw [if_neg Bool.false_ne_true]
    exact ⟨h.once, h.few, hf hr⟩

theorem setupRwFloppy_settled (h : Base s) {r : Request} {rest : List Request}
    (hq : s.queue = r :: rest) : ∃ s', setupRwFloppy s = some s' ∧ Settled s' := by
  unfold setupRwFloppy
  rw [hq, List.head?_cons, Option.map_some]
  refine ⟨_, rfl, ?_⟩
  have hset : Base { s with doFloppy := some .rw, issued := r.serial } := ⟨h.once, h.few, h.timers⟩
  refine restart_settled hset.outputBytes fun _ => ?_
  obtain ⟨reset, sends, he⟩ := outputBytes_same { s with doFloppy := some .rw, issued := r.serial }
  rw [he]
  exact .working hq rfl (.inl rfl) h.timers

theorem specify_same (types : ℕ → Geometry) (s : Fd) : ∃ reset sends spec1 rate,
    specify types s = { s with
      reset := reset, sends := sends, curSpec1 := spec1, curRate := rate } := by
  unfold specify
  simp only
  split_ifs
  · obtain ⟨reset, sends, he⟩ :=
      outputBytes_same { s with curSpec1 := some (types s.floppy).spec1 }
    rw [he]
    exact ⟨_, _, _, _, rfl⟩
  · exact ⟨_, _, _, _, rfl⟩

theorem transfer_settled (h : Base s) {r : Request} {rest : List Request}
    (hq : s.queue = r :: rest) (hi : s.issued = r.serial) :
    ∃ s', transfer types s = some s' ∧ Settled s' := by
  unfold transfer
  simp only
  obtain ⟨reset, sends, spec1, rate, he⟩ := specify_same types s
  rw [he]
  have h₁ : Base { s with reset := reset, sends := sends, curSpec1 := spec1, curRate := rate } :=
    ⟨h.once, h.few, h.timers⟩
  split_ifs with hreset hseek
  · exact ⟨_, rfl, restart_settled h₁ fun hc => by cases hreset.symm.trans hc⟩
  · exact setupRwFloppy_settled h₁ hq
  · have hset : Base { s with
        reset := reset, sends := sends, curSpec1 := spec1, curRate := rate,
        doFloppy := some .seek } := ⟨h.once, h.few, h.timers⟩
    refine ⟨_, rfl, restart_settled hset.outputBytes fun _ => ?_⟩
    obtain ⟨reset', sends', he'⟩ := outputBytes_same { s with
      reset := reset, sends := sends, curSpec1 := spec1, curRate := rate, doFloppy := some .seek }
    rw [he']
    exact .working hq hi (.inr rfl) h.timers

theorem floppyOnInterrupt_settled (h : Base s) (hd : s.doFloppy = none) {r : Request}
    {rest : List Request} (hq : s.queue = r :: rest) (hi : s.issued = r.serial) :
    ∃ s', floppyOnInterrupt types s = some s' ∧ Settled s' := by
  unfold floppyOnInterrupt
  simp only
  split_ifs with hdor
  · refine ⟨_, rfl, h.once, h.few, .waiting (t := .transfer) hq hi hd ?_⟩
    change s.timers ++ [Timer.transfer] = [Timer.transfer]
    rw [h.timers, List.nil_append]
  · exact transfer_settled ⟨h.once, h.few, h.timers⟩ hq hi

theorem recalibrateFloppy_settled (h : Base s) : Settled (recalibrateFloppy s) := by
  have hset : Base { s with recalibrate := false, currentTrack := 0, doFloppy := some .recal } :=
    ⟨h.once, h.few, h.timers⟩
  refine restart_settled hset.outputBytes fun _ => ?_
  obtain ⟨reset, sends, he⟩ :=
    outputBytes_same { s with recalibrate := false, currentTrack := 0, doFloppy := some .recal }
  rw [he]
  exact .clearing (.inl rfl) h.timers

theorem findRequest_spec (l : List Request) (h : Base { s with queue := l })
    (hd : s.doFloppy = none) :
    Base (findRequest types l s) ∧ (findRequest types l s).doFloppy = none ∧
      ∀ r rest, (findRequest types l s).queue = r :: rest →
        (findRequest types l s).issued = r.serial := by
  induction l generalizing s with
  | nil => exact ⟨⟨h.once, h.few, h.timers⟩, hd, fun r rest hc => by cases hc⟩
  | cons r rest ih =>
    unfold findRequest
    simp only
    split_ifs with hb
    · exact ih ⟨h.once.end rfl, fun r' hr' => h.few r' (List.mem_cons_of_mem r hr'), h.timers⟩ hd
    · refine ⟨⟨h.once, h.few, h.timers⟩, hd, fun r' rest' hc => ?_⟩
      obtain ⟨rfl, -⟩ := List.cons.inj hc
      rfl

/-- With nothing under way, the driver starts on the next request, or does nothing. -/
theorem doFdRequest_settled (h : Base s) (hd : s.doFloppy = none) :
    ∃ s', doFdRequest types s = some s' ∧ Settled s' := by
  have h' : Base { s with seek := false } := ⟨h.once, h.few, h.timers⟩
  unfold doFdRequest
  simp only
  split_ifs with hreset hrecal hq hrun
  · exact ⟨_, rfl, resetFloppy_settled h'⟩
  · exact ⟨_, rfl, recalibrateFloppy_settled h'⟩
  all_goals
    obtain ⟨hb, hd', hi⟩ := @findRequest_spec types { s with seek := false } s.queue h' hd
    generalize findRequest types s.queue { s with seek := false } = s₁ at *
  · exact ⟨_, rfl, hb.once, hb.few, .idle hq hd' hb.timers⟩
  · obtain ⟨r, rest, hr⟩ := List.exists_cons_of_ne_nil hq
    exact floppyOnInterrupt_settled ⟨hb.once, hb.few, hb.timers⟩ hd' hr (hi r rest hr)
  · obtain ⟨r, rest, hr⟩ := List.exists_cons_of_ne_nil hq
    refine ⟨_, rfl, hb.once, hb.few, .waiting (t := .on) hr (hi r rest hr) hd' ?_⟩
    change s₁.timers ++ [Timer.on] = [Timer.on]
    rw [hb.timers, List.nil_append]

/-! ### Interrupts and timers -/

theorem deselectEnd_base (h : Base s) {r : Request} {rest : List Request} (hq : s.queue = r :: rest) :
    ∃ s', deselectEnd s = some s' ∧ Base s' ∧ s'.doFloppy = s.doFloppy ∧ s'.queue = rest := by
  unfold deselectEnd
  rw [endRequest_cons hq, Option.map_some]
  refine ⟨_, rfl, ⟨h.once.end hq, fun r' hr' => h.few r' ?_, h.timers⟩, rfl, rfl⟩
  rw [hq]
  exact List.mem_cons_of_mem r hr'

/-- `bad_flp_intr`, when the operation was for the head and the error is not the last one of a
    request that is alone. -/
theorem badFlpIntr_base (h : Base s) {r : Request} {rest : List Request} (hq : s.queue = r :: rest)
    (hi : s.issued = r.serial) (hlast : r.errors < MAX_ERRORS ∨ rest ≠ []) :
    ∃ s', badFlpIntr s = some s' ∧ Base s' ∧ s'.doFloppy = s.doFloppy := by
  have hcount : countError s.issued s.toRequests = some { s.toRequests with
      queue := { r with errors := r.errors + 1 } :: rest
      charged := s.charged ++ [(r.serial, r.serial)] } := by
    rw [hi]
    exact countError_cons _ hq
  have hrest : ∀ r' ∈ rest, r'.errors ≤ MAX_ERRORS := fun r' hr' => h.few r' (by
    rw [hq]
    exact List.mem_cons_of_mem r hr')
  -- the flags that are set at the end change nothing else
  have hflags : ∀ (s₁ : Fd) (c : Request), Base s₁ → s₁.doFloppy = s.doFloppy →
      Base (if c.errors > MAX_ERRORS / 2 then { s₁ with reset := true }
        else { s₁ with recalibrate := true }) ∧
      (if c.errors > MAX_ERRORS / 2 then { s₁ with reset := true }
        else { s₁ with recalibrate := true }).doFloppy = s.doFloppy := by
    intro s₁ c h₁ hd₁
    split_ifs
    · exact ⟨⟨h₁.once, h₁.few, h₁.timers⟩, hd₁⟩
    · exact ⟨⟨h₁.once, h₁.few, h₁.timers⟩, hd₁⟩
  unfold badFlpIntr
  rw [hcount, Option.bind_some]
  simp only [List.head?_cons, Option.bind_some]
  split_ifs with hmax
  · have hfull : MAX_ERRORS ≤ r.errors := by omega
    obtain ⟨c, rest', rfl⟩ := List.exists_cons_of_ne_nil (hlast.resolve_left (by omega))
    unfold deselectEnd
    rw [endRequest_cons rfl, Option.map_some, Option.bind_some]
    simp only [List.head?_cons, Option.map_some]
    have hb : Base { s with
        queue := c :: rest', ended := s.ended ++ [r.serial],
        charged := s.charged ++ [(r.serial, r.serial)], selected := false } := by
      have hcounted := h.once.count hq
      exact ⟨hcounted.end (r := { r with errors := r.errors + 1 }) rfl, hrest, h.timers⟩
    exact ⟨_, rfl, hflags _ c hb rfl⟩
  · rw [Option.bind_some]
    simp only [List.head?_cons, Option.map_some]
    have hb : Base { s with
        queue := { r with errors := r.errors + 1 } :: rest,
        charged := s.charged ++ [(r.serial, r.serial)] } := by
      refine ⟨h.once.count hq, fun r' hr' => ?_, h.timers⟩
      rcases List.mem_cons.mp hr' with rfl | hr'
      · simp only at hmax ⊢
        omega
      · exact hrest r' hr'
    exact ⟨_, rfl, hflags _ { r with errors := r.errors + 1 } hb rfl⟩

/-- The error is not the last one of a request that is alone. -/
theorem notLast {r : Request} {rest : List Request}
    (hq : s.queue = r :: rest) (hfine : ∀ r, s.queue = [r] → ¬ MAX_ERRORS ≤ r.errors) :
    r.errors < MAX_ERRORS ∨ rest ≠ [] := by
  by_cases hrest : rest = []
  · rw [hrest] at hq
    exact .inl (Nat.not_le.mp (hfine r hq))
  · exact .inr hrest

theorem rwInterrupt_settled (h : Base s) (hd : s.doFloppy = none) {r : Request}
    {rest : List Request} (hq : s.queue = r :: rest) (hi : s.issued = r.serial)
    (hlast : rwFailed (result s reply).1 (result s reply).2 = true →
      writeProtected (result s reply).2 = false → r.errors < MAX_ERRORS ∨ rest ≠ []) :
    ∃ s', rwInterrupt types s reply = some s' ∧ Settled s' := by
  have hb := h.result reply
  obtain ⟨reset, bytes, he⟩ := result_same s reply
  have hd₁ : (result s reply).2.doFloppy = none := by rw [he]; exact hd
  have hq₁ : (result s reply).2.queue = r :: rest := by rw [he]; exact hq
  have hi₁ : (result s reply).2.issued = r.serial := by rw [he]; exact hi
  have hend : ∃ s', (deselectEnd (result s reply).2).bind (doFdRequest types) = some s' ∧
      Settled s' := by
    obtain ⟨s₂, hs₂, hb₂, hd₂, -⟩ := deselectEnd_base hb hq₁
    rw [hs₂, Option.bind_some]
    exact doFdRequest_settled hb₂ (hd₂.trans hd₁)
  unfold rwInterrupt
  simp only
  cases hf : rwFailed (result s reply).1 (result s reply).2 with
  | false =>
    rw [if_neg Bool.false_ne_true]
    exact hend
  | true =>
    rw [if_pos rfl]
    cases hw : writeProtected (result s reply).2 with
    | true =>
      rw [if_pos rfl]
      exact hend
    | false =>
      rw [if_neg Bool.false_ne_true]
      obtain ⟨s₂, hs₂, hb₂, hd₂⟩ := badFlpIntr_base hb hq₁ hi₁ (hlast hf hw)
      rw [hs₂, Option.bind_some]
      exact doFdRequest_settled hb₂ (hd₂.trans hd₁)

theorem answer_same (s : Fd) (reply : Reply) : ∃ reset sends bytes,
    (result (outputBytes s) reply).2 =
      { s with reset := reset, sends := sends, reply := bytes } := by
  obtain ⟨reset, sends, he⟩ := outputBytes_same s
  rw [he]
  obtain ⟨reset', bytes, he'⟩ := result_same { s with reset := reset, sends := sends } reply
  exact ⟨reset', sends, bytes, he'⟩

theorem seekInterrupt_settled (h : Base s) (hd : s.doFloppy = none) {r : Request}
    {rest : List Request} (hq : s.queue = r :: rest) (hi : s.issued = r.serial)
    (hlast : seekFailed (result (outputBytes s) reply).1 (result (outputBytes s) reply).2 = true →
      r.errors < MAX_ERRORS ∨ rest ≠ []) :
    ∃ s', seekInterrupt types s reply = some s' ∧ Settled s' := by
  have hb := h.outputBytes.result reply
  obtain ⟨reset, sends, bytes, he⟩ := answer_same s reply
  have hq₁ : (result (outputBytes s) reply).2.queue = r :: rest := by rw [he]; exact hq
  unfold seekInterrupt
  simp only
  split_ifs with hf
  · obtain ⟨s₂, hs₂, hb₂, hd₂⟩ :=
      badFlpIntr_base hb hq₁ (by rw [he]; exact hi) (hlast hf)
    rw [hs₂, Option.bind_some]
    exact doFdRequest_settled hb₂ (hd₂.trans (by rw [he]; exact hd))
  · exact setupRwFloppy_settled ⟨hb.once, hb.few, hb.timers⟩ hq₁

theorem recalInterrupt_settled (h : Base s) (hd : s.doFloppy = none) :
    ∃ s', recalInterrupt types s reply = some s' ∧ Settled s' := by
  have hb := h.outputBytes.result reply
  have hd₁ : (result (outputBytes s) reply).2.doFloppy = none := by
    obtain ⟨reset, sends, bytes, he⟩ := answer_same s reply
    rw [he]
    exact hd
  unfold recalInterrupt
  simp only
  split_ifs
  · exact doFdRequest_settled ⟨hb.once, hb.few, hb.timers⟩ hd₁
  · exact doFdRequest_settled ⟨hb.once, hb.few, hb.timers⟩ hd₁

theorem resetInterrupt_settled (h : Base s) (hd : s.doFloppy = none) :
    ∃ s', resetInterrupt types s reply = some s' ∧ Settled s' := by
  have hd₁ : (outputBytes (result (outputBytes s) reply).2).doFloppy = none := by
    obtain ⟨reset, sends, bytes, he⟩ := answer_same s reply
    obtain ⟨reset', sends', he'⟩ := outputBytes_same (result (outputBytes s) reply).2
    rw [he', he]
    exact hd
  exact doFdRequest_settled (h.outputBytes.result reply).outputBytes hd₁

/-- An interrupt that nobody waits for sets a flag at most. -/
theorem unexpected_same (s : Fd) (reply : Reply) : ∃ reset recalibrate sends bytes,
    unexpectedFloppyInterrupt s reply = { s with
      reset := reset, recalibrate := recalibrate, sends := sends, reply := bytes } := by
  obtain ⟨reset, sends, bytes, he⟩ := answer_same s reply
  unfold unexpectedFloppyInterrupt
  simp only
  rw [he]
  split_ifs
  · exact ⟨true, s.recalibrate, sends, bytes, rfl⟩
  · exact ⟨reset, true, sends, bytes, rfl⟩

theorem unexpected_settled (h : Settled s) : Settled (unexpectedFloppyInterrupt s reply) := by
  obtain ⟨reset, recalibrate, sends, bytes, he⟩ := unexpected_same s reply
  rw [he]
  exact h.congr rfl rfl rfl rfl

variable {entry : Option Intr → Option Intr × Option Intr}

theorem floppyInterrupt_settled (he : ∀ intr, entry intr = (none, intr)) (h : Settled s)
    (hfine : ∀ r ∈ s.queue, s.queue = [r] → MAX_ERRORS ≤ r.errors → ¬ CountsError s reply) :
    ∃ s', floppyInterrupt entry types s reply = some s' ∧ Settled s' := by
  unfold floppyInterrupt
  rw [he]
  simp only
  have hbase : s.timers = [] → Base { s with doFloppy := none } := fun ht => ⟨h.once, h.few, ht⟩
  cases h.flight with
  | idle hq hd ht =>
    rw [hd]
    exact ⟨_, rfl, unexpected_settled ⟨h.once, h.few, .idle hq rfl ht⟩⟩
  | waiting hq hi hd ht =>
    rw [hd]
    exact ⟨_, rfl, unexpected_settled ⟨h.once, h.few, .waiting hq hi rfl ht⟩⟩
  | clearing hd ht =>
    rcases hd with hd | hd
    · rw [hd]
      exact recalInterrupt_settled (hbase ht) rfl
    · rw [hd]
      exact resetInterrupt_settled (hbase ht) rfl
  | @working r rest hq hi hd ht =>
    have hlast : CountsError s reply → r.errors < MAX_ERRORS ∨ rest ≠ [] := fun hc =>
      notLast hq fun r hr hmax => hfine r (by rw [hr]; exact List.mem_singleton_self r) hr hmax hc
    rcases hd with hd | hd
    · -- the handler variable is not what `result` looks at
      have hres : (result { s with doFloppy := none } reply).1 = (result s reply).1 ∧
          (result { s with doFloppy := none } reply).2 =
            { (result s reply).2 with doFloppy := none } := by
        unfold result
        simp only
        split_ifs <;> exact ⟨rfl, rfl⟩
      rw [hd]
      refine rwInterrupt_settled (hbase ht) rfl hq hi fun hf hw => hlast (.inl ⟨hd, ?_⟩)
      rw [hres.1, hres.2] at hf
      rw [hres.2] at hw
      exact ⟨hf, hw⟩
    · have hres : (result (outputBytes { s with doFloppy := none }) reply).1 =
          (result (outputBytes s) reply).1 ∧
          (result (outputBytes { s with doFloppy := none }) reply).2 =
            { (result (outputBytes s) reply).2 with doFloppy := none } := by
        have hout : outputBytes { s with doFloppy := none } =
            { outputBytes s with doFloppy := none } := by
          unfold outputBytes
          simp only
          split_ifs
          · rfl
          · split <;> rfl
        rw [hout]
        unfold result
        simp only
        split_ifs <;> exact ⟨rfl, rfl⟩
      rw [hd]
      refine seekInterrupt_settled (hbase ht) rfl hq hi fun hf => hlast (.inr ⟨hd, ?_⟩)
      rw [hres.1, hres.2] at hf
      exact hf

theorem timer_settled (h : Settled s) (i : ℕ) :
    ∃ s', timerRuns types s i = some s' ∧ Settled s' := by
  unfold timerRuns
  cases ht : s.timers[i]? with
  | none => exact ⟨s, rfl, h⟩
  | some t =>
    have hne : s.timers ≠ [] := fun hc => by
      rw [hc] at ht
      cases ht
    cases h.flight with
    | idle _ _ hts => exact absurd hts hne
    | clearing _ hts => exact absurd hts hne
    | working _ _ _ hts => exact absurd hts hne
    | @waiting r rest t' hq hi hd hts =>
      obtain ⟨rfl, hgone⟩ : i = 0 ∧ s.timers.eraseIdx i = [] := by
        rw [hts] at ht ⊢
        cases i with
        | zero => exact ⟨rfl, rfl⟩
        | succ i => cases ht
      have hbase : Base { s with timers := s.timers.eraseIdx 0 } := ⟨h.once, h.few, hgone⟩
      cases t with
      | on => exact floppyOnInterrupt_settled hbase hd hq hi
      | transfer => exact transfer_settled hbase hq hi

/-- A request that finds others before it. -/
theorem Settled.add (h : Settled s) {r : Request} {rest : List Request} (hr : s.queue = r :: rest)
    {req : Request} (hnew : req.serial = s.made) (hzero : req.errors = 0) :
    Settled { s with queue := addRequest req s.queue, made := s.made + 1 } := by
  obtain ⟨l, hl, hperm⟩ := @addRequest_head r rest req
  rw [hr, hl]
  have hall : (r :: l).Perm (req :: s.queue) := by
    rw [hr]
    exact (hperm.cons r).trans (List.Perm.swap _ _ _)
  refine ⟨h.once.made hnew hall, fun r' hr' => ?_, ?_⟩
  · rcases List.mem_cons.mp (hall.subset hr') with rfl | hr'
    · rw [hzero]
      exact Nat.zero_le _
    · exact h.few r' hr'
  · cases h.flight with
    | idle hq' _ _ => cases hr.symm.trans hq'
    | clearing hd ht => exact .clearing hd ht
    | working hq' hi hd ht =>
      obtain ⟨rfl, -⟩ := List.cons.inj (hr.symm.trans hq')
      exact .working rfl hi hd ht
    | waiting hq' hi hd ht =>
      obtain ⟨rfl, -⟩ := List.cons.inj (hr.symm.trans hq')
      exact .waiting rfl hi hd ht

/-! ### The driver -/

section
variable {s : Driver}

theorem add_between (h : Between s) {minor block : ℕ} {cmd : Command}
    (hfine : s.queue = [] → s.doFloppy = none ∧ s.timers = []) :
    ∃ s', step entry types s (.add minor cmd block) = some s' ∧ Between s' := by
  unfold step
  simp only
  split_ifs with hc hq
  · exact ⟨s, rfl, h⟩
  · obtain ⟨hd, ht⟩ := hfine hq
    have honce : Once s.toRequests := h.correct.once
    refine ⟨_, rfl, .called rfl ⟨honce.made rfl (by rw [hq]), fun r hr => ?_, ht⟩ hd⟩
    rw [List.mem_singleton.mp hr]
    exact Nat.zero_le _
  · obtain ⟨r, rest, hr⟩ := List.exists_cons_of_ne_nil hq
    cases h with
    | called hc' _ _ => exact absurd hc' hc
    | free hc' h =>
      exact ⟨_, rfl, .free hc' (h.add hr rfl rfl)⟩

theorem call_between (h : Between s) :
    ∃ s', step entry types s .call = some s' ∧ Between s' := by
  unfold step
  cases h with
  | free hc h =>
    simp only [hc, Bool.false_eq_true, if_false]
    exact ⟨s, rfl, .free hc h⟩
  | called hc h hd =>
    obtain ⟨fd, hfd, hs⟩ := @doFdRequest_settled types s.toFd h hd
    simp only [hc, if_true, hfd, Option.map_some]
    exact ⟨_, rfl, .free rfl hs⟩

theorem interrupt_between (he : ∀ intr, entry intr = (none, intr)) (h : Between s)
    (hfine : ∀ r ∈ s.queue, s.queue = [r] → MAX_ERRORS ≤ r.errors → ¬ CountsError s.toFd reply) :
    ∃ s', step entry types s (.interrupt reply) = some s' ∧ Between s' := by
  unfold step
  cases h with
  | free hc h =>
    obtain ⟨fd, hfd, hs⟩ := @floppyInterrupt_settled types s.toFd reply entry he h hfine
    simp only [hfd, Option.map_some]
    exact ⟨_, rfl, .free hc hs⟩
  | called hc h hd =>
    -- nobody waits for it
    obtain ⟨reset, recalibrate, sends, bytes, hu⟩ :=
      unexpected_same { s.toFd with doFloppy := none } reply
    unfold floppyInterrupt
    rw [he]
    simp only [hd, hu, Option.map_some]
    exact ⟨_, rfl, .called hc ⟨h.once, h.few, h.timers⟩ rfl⟩

theorem timer_between (h : Between s) (i : ℕ) :
    ∃ s', step entry types s (.timer i) = some s' ∧ Between s' := by
  unfold step
  cases h with
  | free hc h =>
    obtain ⟨fd, hfd, hs⟩ := @timer_settled types s.toFd h i
    simp only [hfd, Option.map_some]
    exact ⟨_, rfl, .free hc hs⟩
  | called hc h hd =>
    have hnone : timerRuns types s.toFd i = some s.toFd := by
      unfold timerRuns
      rw [h.timers, List.getElem?_nil]
    simp only [hnone, Option.map_some]
    exact ⟨_, rfl, .called hc h hd⟩

/-- Nothing that `Event` brings or `select` sets is under way. -/
theorem Between.congr {s' : Driver} (h : Between s) (hr : s'.toRequests = s.toRequests)
    (hi : s'.issued = s.issued) (hd : s'.doFloppy = s.doFloppy) (ht : s'.timers = s.timers)
    (hc : s'.called = s.called) : Between s' := by
  cases h with
  | free hc' h => exact .free (hc.trans hc') (h.congr hr hi hd ht)
  | called hc' h hd' =>
    exact .called (hc.trans hc') ⟨hr ▸ h.once, hr ▸ h.few, ht.trans h.timers⟩ (hd.trans hd')

theorem react_between (he : ∀ intr, entry intr = (none, intr)) (h : Between s) {e : Event}
    (hfine : Fine s e) : ∃ s', react entry types s e = some s' ∧ Between s' := by
  obtain ⟨act, sends, running⟩ := e
  have hline : Between { s with sends := sends, running := running } := h.congr rfl rfl rfl rfl rfl
  cases act with
  | add minor cmd block => exact add_between hline hfine
  | call => exact call_between hline
  | interrupt reply => exact interrupt_between he hline hfine
  | timer i => exact timer_between hline i
  | select dor selected => exact ⟨_, rfl, hline.congr rfl rfl rfl rfl rfl⟩

/-! ### Runs -/

theorem run_between (he : ∀ intr, entry intr = (none, intr)) (h : Between s) {events : List Event}
    (hfine : FineRun entry types s events) :
    ∃ s', run entry types s events = some s' ∧ Between s' := by
  induction events generalizing s with
  | nil => exact ⟨s, rfl, h⟩
  | cons e events ih =>
    obtain ⟨s₁, hs₁, h₁⟩ := @react_between types _ s he h _ hfine.1
    obtain ⟨s', hs', h'⟩ := ih h₁ (hfine.2 s₁ hs₁)
    refine ⟨s', ?_, h'⟩
    change (react entry types s e).bind (fun s => run entry types s events) = some s'
    rw [hs₁, Option.bind_some, hs']

theorem start_between : Between start :=
  .free rfl ⟨⟨List.Perm.refl _, fun _ hp => absurd hp List.not_mem_nil⟩,
    fun _ hr => absurd hr List.not_mem_nil, .idle rfl rfl rfl⟩

end

end

/-! ### Both drivers -/

/-- Every request is ended once, and an error is counted against the request it belongs to, as long
    as the drivers do not look at a request that is not there. -/
theorem requests_ended_once
    {hdEntry : Option HardDisk.Intr → Option HardDisk.Intr × Option HardDisk.Intr}
    {fdEntry : Option Intr → Option Intr × Option Intr}
    (hhd : ∀ intr, hdEntry intr = (none, intr)) (hfd : ∀ intr, fdEntry intr = (none, intr))
    (disks : HardDisk.Disks) (types : ℕ → Geometry) :
    (∀ acts, HardDisk.FineRun hdEntry disks HardDisk.start acts →
      ∃ s, HardDisk.run hdEntry disks HardDisk.start acts = some s ∧ HardDisk.Correct s) ∧
    (∀ events, FineRun fdEntry types start events →
      ∃ s, run fdEntry types start events = some s ∧ Correct s) := by
  refine ⟨fun acts hfine => ?_, fun events hfine => ?_⟩
  · obtain ⟨s, hs, h⟩ := @HardDisk.run_settled disks _ _ hhd HardDisk.start_settled _ hfine
    exact ⟨s, hs, h.correct⟩
  · obtain ⟨s, hs, h⟩ := @run_between types _ _ hfd start_between _ hfine
    exact ⟨s, hs, h.correct⟩

/-- Both drivers get over an error; on the hard disk the second request is a write whose first wait
    for the drive is broken off by an error and ends in another one. -/
theorem requests_ended_once_failing :
    (∃ s, HardDisk.run (fun intr => (none, intr)) ⟨1, fun _ => 1000⟩ HardDisk.start
      [.add 0 .read 5, .go true, .go true, .interrupt true [], .interrupt true [],
        .interrupt true [], .interrupt false [], .interrupt true [],
        .add 0 .write 7, .go true, .go true, .interrupt false [], .go false, .go true, .go true,
        .go true, .interrupt true [], .interrupt true []] = some s ∧ HardDisk.Correct s) ∧
    (∃ s, run (fun intr => (none, intr)) (fun _ => ⟨2880, 18, 2, 0, 0, 0xCF⟩) start
      [⟨.add 0 .read 5, [], true⟩, ⟨.interrupt ⟨[0, 0], true⟩, [], true⟩, ⟨.call, [], true⟩,
        ⟨.interrupt ⟨[], false⟩, [], true⟩, ⟨.interrupt ⟨[0x20, 0], true⟩, [], true⟩,
        ⟨.interrupt ⟨[0x20, 0], true⟩, [], false⟩, ⟨.timer 0, [], true⟩,
        ⟨.interrupt ⟨[0x40, 4, 0, 0, 0, 0, 2], true⟩, [], true⟩,
        ⟨.interrupt ⟨[0x20, 0], true⟩, [], true⟩,
        ⟨.interrupt ⟨[0, 0, 0, 0, 0, 0, 2], true⟩, [], true⟩] = some s ∧ Correct s) := by
  obtain ⟨hhd, hfd⟩ := @requests_ended_once (fun intr => (none, intr))
    (fun intr => (none, intr)) (fun _ => rfl) (fun _ => rfl) ⟨1, fun _ => 1000⟩
    (fun _ => ⟨2880, 18, 2, 0, 0, 0xCF⟩)
  exact ⟨hhd _ (by decide +kernel), hfd _ (by decide +kernel)⟩

/-- The seventh error ends a request, whose successor is then looked at. -/
theorem last_error_alone :
    ¬ ∃ s, HardDisk.run (fun intr => (none, intr)) ⟨1, fun _ => 1000⟩ HardDisk.start
      (.add 0 .read 5 :: .go true :: .go true :: List.replicate 7 (.interrupt false [])) = some s ∧
        HardDisk.Correct s := by
  rintro ⟨s, hs, -⟩
  have hnone : HardDisk.run (fun intr => (none, intr)) ⟨1, fun _ => 1000⟩ HardDisk.start
      (.add 0 .read 5 :: .go true :: .go true :: List.replicate 7 (.interrupt false [])) = none := by
    decide +kernel
  cases hnone.symm.trans hs

end Linux011.Floppy
