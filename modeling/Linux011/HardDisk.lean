import Linux011.DiskRequests

set_option autoImplicit false

/-!
# The interrupts of the hard disk driver (kernel/blk_drv/hd.c)

The registers of the controller are left out: an interrupt says whether `win_result` is good, and a
write command whether the drive asks for its data in time. The handlers run with interrupts off.
`add_request` calls `do_hd_request` with interrupts on: this call is made in steps, between which
interrupts come. What it does from `repeat` to the assignment of `do_hd` is one step; an interrupt
there can only be one for a write that was given up. Panics of `hd_out` (a controller that is never
ready) end a run and are left out as well.
-/
namespace Linux011.HardDisk
open RequestQueue (Command MAX_ERRORS)
open DiskRequests

/-- `NR_HD`, and the sizes of the partitions. -/
structure Disks where
  nrHd : ℕ
  nrSects : ℕ → ℕ

inductive Intr where
  | read
  | write
  | recal
  deriving DecidableEq

/-- Where the `do_hd_request` is that `add_request` has called: at `repeat`, in `hd_out` with `do_hd`
    set and the command, which is for request `serial`, not yet out, or waiting for `DRQ_STAT`. -/
inductive Task where
  | called
  | out (serial : ℕ) (intr : Intr)
  | poll
  deriving DecidableEq

/-- `issued` is the request that the last command was for. -/
structure Hd extends Requests where
  reset : Bool
  recalibrate : Bool
  doHd : Option Intr
  issued : ℕ
  task : Option Task
  deriving DecidableEq

/-- The check at the top of `do_hd_request`. -/
def Disks.bad (d : Disks) (r : Request) : Bool :=
  decide (5 * d.nrHd ≤ r.minor) || decide (behind r (d.nrSects r.minor))

def badRwIntr (s : Hd) : Option Hd :=
  (countError s.issued s.toRequests).bind fun q =>
  q.queue.head?.bind fun current =>
  (if current.errors ≥ MAX_ERRORS then endRequest q else some q).bind fun q =>
  q.queue.head?.map fun current =>
  { s with toRequests := q, reset := s.reset || decide (current.errors > MAX_ERRORS / 2) }

/-- `hd_out`, for the request at the head. -/
def hdOut (s : Hd) (r : Request) (intr : Intr) : Hd :=
  { s with doHd := some intr, issued := r.serial }

/-- `do_hd_request`; `drq` says of its write commands whether the drive asks for the data. -/
def doHdRequest (disks : Disks) (s : Hd) (drq : List Bool) : Option Hd :=
  let s := { s with toRequests := rejectBad disks.bad s.toRequests }
  match s.queue with
  | [] => some s
  | r :: _ =>
    if s.reset then some (hdOut { s with reset := false, recalibrate := true } r .recal)
    else if s.recalibrate then some (hdOut { s with recalibrate := false } r .recal)
    else match r.cmd with
      | .read => some (hdOut s r .read)
      | .write => match drq with
        | false :: drq => (badRwIntr (hdOut s r .write)).bind fun s => doHdRequest disks s drq
        | _ => some (hdOut s r .write)

/-- `--CURRENT->nr_sectors`, an unsigned long. -/
def oneLess (nrSectors : ℕ) : ℕ := (nrSectors + 4294967295) % 4294967296

def readIntr (disks : Disks) (s : Hd) (ok : Bool) (drq : List Bool) : Option Hd :=
  if !ok then (badRwIntr s).bind fun s => doHdRequest disks s drq
  else match s.queue with
    | [] => none
    | r :: rest =>
      let r := { r with errors := 0, sector := r.sector + 1, nrSectors := oneLess r.nrSectors }
      let s := { s with queue := r :: rest }
      if r.nrSectors ≠ 0 then some { s with doHd := some .read }
      else (endRequest s.toRequests).bind fun q => doHdRequest disks { s with toRequests := q } drq

def writeIntr (disks : Disks) (s : Hd) (ok : Bool) (drq : List Bool) : Option Hd :=
  if !ok then (badRwIntr s).bind fun s => doHdRequest disks s drq
  else match s.queue with
    | [] => none
    | r :: rest =>
      let r := { r with nrSectors := oneLess r.nrSectors }
      if r.nrSectors ≠ 0 then
        some { s with queue := { r with sector := r.sector + 1 } :: rest, doHd := some .write }
      else (endRequest { s.toRequests with queue := r :: rest }).bind fun q =>
        doHdRequest disks { s with toRequests := q } drq

def recalIntr (disks : Disks) (s : Hd) (ok : Bool) (drq : List Bool) : Option Hd :=
  (if !ok then badRwIntr s else some s).bind fun s => doHdRequest disks s drq

/-- `hd_interrupt`, which is not among the sources, calls what `entry` takes out of `do_hd`, or
    `unexpected_hd_interrupt`, which does nothing. -/
def hdInterrupt (entry : Option Intr → Option Intr × Option Intr) (disks : Disks) (s : Hd)
    (ok : Bool) (drq : List Bool) : Option Hd :=
  let intr := (entry s.doHd).2
  let s := { s with doHd := (entry s.doHd).1 }
  match intr with
  | none => some s
  | some .read => readIntr disks s ok drq
  | some .write => writeIntr disks s ok drq
  | some .recal => recalIntr disks s ok drq

/-- `do_hd_request` as far as the assignment of `do_hd`, if there is a good request. -/
def enter (disks : Disks) (s : Hd) : Hd :=
  let s := { s with toRequests := rejectBad disks.bad s.toRequests }
  let out (s : Hd) (r : Request) (intr : Intr) : Hd :=
    { s with doHd := some intr, task := some (.out r.serial intr) }
  match s.queue with
  | [] => { s with task := none }
  | r :: _ =>
    if s.reset then out { s with reset := false, recalibrate := true } r .recal
    else if s.recalibrate then out { s with recalibrate := false } r .recal
    else match r.cmd with
      | .read => out s r .read
      | .write => out s r .write

/-- A step of the task in `do_hd_request`; `asked` says at the end of the wait whether the drive asks
    for the data, which are in the buffer of `CURRENT`. -/
def go (disks : Disks) (s : Hd) (asked : Bool) : Option Hd :=
  match s.task with
  | none => some s
  | some .called => some (enter disks s)
  | some (.out serial intr) =>
    some { s with issued := serial, task := if intr = .write then some .poll else none }
  | some .poll =>
    if asked then s.queue.head?.map fun _ => { s with task := none }
    else (badRwIntr s).map fun s => { s with task := some .called }

inductive Act where
  | add (minor : ℕ) (cmd : Command) (block : ℕ)
  | go (asked : Bool)
  | interrupt (ok : Bool) (drq : List Bool)

/-- `add_request`, a step of the `do_hd_request` it has called, or an interrupt. A task in
    `do_hd_request` does not sleep, and no other one adds a request meanwhile. -/
def step (entry : Option Intr → Option Intr × Option Intr) (disks : Disks) (s : Hd) :
    Act → Option Hd
  | .add minor cmd block =>
    let req := newRequest s.made minor cmd block
    if s.task ≠ none then some s
    else if s.queue = [] then
      some { s with queue := [req], made := s.made + 1, task := some .called }
    else some { s with queue := addRequest req s.queue, made := s.made + 1 }
  | .go asked => go disks s asked
  | .interrupt ok drq => hdInterrupt entry disks s ok drq

def run (entry : Option Intr → Option Intr × Option Intr) (disks : Disks) (s : Hd)
    (acts : List Act) : Option Hd :=
  acts.foldlM (step entry disks) s

/-- The static variables of hd.c. -/
def start : Hd := ⟨⟨[], 0, [], []⟩, true, true, none, 0, none⟩

/-- The request is the only one, and one more error is the last one allowed. -/
def LastError (s : Hd) : Prop := ∃ r ∈ s.queue, s.queue = [r] ∧ MAX_ERRORS ≤ r.errors + 1

instance (s : Hd) : Decidable (LastError s) := by unfold LastError; infer_instance

/-- `do_hd_request` would charge the request its last error, and there is no other one. -/
def LastDrq (disks : Disks) (s : Hd) (drq : List Bool) : Prop :=
  LastError s ∧ s.reset = false ∧ s.recalibrate = false ∧ drq.head? = some false ∧
    ∀ r ∈ s.queue, disks.bad r = false ∧ r.cmd = .write

instance (disks : Disks) (s : Hd) (drq : List Bool) : Decidable (LastDrq disks s drq) := by
  unfold LastDrq; infer_instance

/-- The interrupt ends the only request: it is the one for its last sector, or one that lets
    `do_hd_request` look at it again when it is behind the end of its partition. -/
def Ends (disks : Disks) (s : Hd) (ok : Bool) : Prop :=
  ∃ r ∈ s.queue, s.queue = [r] ∧
    if ok = true ∧ s.doHd ≠ some .recal then oneLess r.nrSectors = 0 else disks.bad r = true

instance (disks : Disks) (s : Hd) (ok : Bool) : Decidable (Ends disks s ok) := by
  unfold Ends; infer_instance

/-- An interrupt that somebody waits for finds a request, and does not charge it its last error if
    it is alone. While a task is in `do_hd_request` it comes only in the wait for the drive, and does
    not end the request. The end of that wait does not charge the last error either. -/
def Fine (disks : Disks) (s : Hd) : Act → Prop
  | .add _ _ _ => True
  | .go asked => s.task = some .poll → asked = false → ¬ LastError s
  | .interrupt ok drq => s.doHd ≠ none →
      s.queue ≠ [] ∧ ¬ (LastError s ∧ ok = false) ∧
      ¬ (s.doHd = some .recal ∧ ok = true ∧ LastDrq disks s drq) ∧
      (s.task = none ∨ s.task = some .poll ∧ ¬ Ends disks s ok)

instance (disks : Disks) (s : Hd) (a : Act) : Decidable (Fine disks s a) := by
  cases a <;> unfold Fine <;> infer_instance

/-- All steps of a run meet the condition, as far as the run comes. -/
def FineRun (entry : Option Intr → Option Intr × Option Intr) (disks : Disks) : Hd → List Act → Prop
  | _, [] => True
  | s, a :: acts => Fine disks s a ∧ ∀ s' ∈ step entry disks s a, FineRun entry disks s' acts

instance decidableFineRun (entry : Option Intr → Option Intr × Option Intr) (disks : Disks) :
    ∀ s acts, Decidable (FineRun entry disks s acts)
  | _, [] => .isTrue trivial
  | s, a :: acts =>
    have _ := fun s' => decidableFineRun entry disks s' acts
    inferInstanceAs (Decidable (Fine disks s a ∧
      ∀ s' ∈ step entry disks s a, FineRun entry disks s' acts))

/-- What holds in all states: a request waits only for an operation that is for the first one, or for
    the task that is about to start one. -/
structure Correct (s : Hd) : Prop where
  once : Once s.toRequests
  busy : ∀ r rest, s.queue = r :: rest → s.task ≠ none ∨ s.doHd ≠ none ∧ s.issued = r.serial

/-! ### Errors -/

/-- Only the first request can have errors, less than would end it. -/
def FewErrors (queue : List Request) : Prop :=
  ∀ r rest, queue = r :: rest → r.errors < MAX_ERRORS ∧ ∀ r' ∈ rest, r'.errors = 0

theorem fewErrors_fresh {queue : List Request} (h : ∀ r ∈ queue, r.errors = 0) :
    FewErrors queue := by
  intro r rest hq
  subst hq
  refine ⟨?_, fun r' hr' => h r' (List.mem_cons_of_mem r hr')⟩
  rw [h r List.mem_cons_self]
  decide

theorem FewErrors.rest {queue : List Request} {r : Request} {rest : List Request}
    (h : FewErrors queue) (hq : queue = r :: rest) : ∀ r' ∈ rest, r'.errors = 0 := (h r rest hq).2

theorem FewErrors.reject {bad : Request → Bool} {q : Requests} (h : FewErrors q.queue) :
    FewErrors (rejectBad bad q).queue := by
  intro r rest hr
  obtain ⟨before, hb⟩ := rejectBad_suffix bad q
  rw [hr] at hb
  cases before with
  | nil => exact h r rest hb.symm
  | cons first before =>
    have hrest := (h first (before ++ r :: rest) hb.symm).2
    refine ⟨?_, fun r' hr' => hrest r' (by simp [hr'])⟩
    rw [hrest r (by simp)]
    decide

/-- Before `do_hd_request`. -/
structure Ready (s : Hd) : Prop where
  once : Once s.toRequests
  few : FewErrors s.queue

/-- The first request is the one that an interrupt is awaited for. -/
def Hd.Busy (s : Hd) : Prop := ∀ r rest, s.queue = r :: rest → s.doHd ≠ none ∧ s.issued = r.serial

/-- While a task is in `do_hd_request`, its request is the only one. -/
inductive Phase (s : Hd) : Prop
  | free (ht : s.task = none) (hb : s.Busy)
  | called {r : Request} (ht : s.task = some .called) (hq : s.queue = [r])
  | out {r : Request} {intr : Intr} (ht : s.task = some (.out r.serial intr)) (hq : s.queue = [r])
      (hd : s.doHd = some intr)
  | poll {r : Request} (ht : s.task = some .poll) (hq : s.queue = [r]) (hb : s.Busy)

/-- Between two steps. -/
structure Settled (s : Hd) : Prop extends Ready s where
  phase : Phase s

/-- What `do_hd_request` and the handlers that call it leave, and when a request that is alone stays. -/
structure Served (stays : Request → Prop) (s s' : Hd) : Prop extends Ready s' where
  busy : s'.Busy
  task : s'.task = s.task
  keeps : ∀ r, s.queue = [r] → stays r → ∃ r', s'.queue = [r']

def Disks.Good (disks : Disks) (r : Request) : Prop := disks.bad r = false

section
variable {disks : Disks} {s s' : Hd} {drq : List Bool}

theorem Settled.correct (h : Settled s) : Correct s := by
  refine ⟨h.once, fun r rest hq => ?_⟩
  cases h.phase with
  | free _ hb => exact .inr (hb r rest hq)
  | called ht _ => exact .inl (by rw [ht]; exact Option.some_ne_none _)
  | out ht _ _ => exact .inl (by rw [ht]; exact Option.some_ne_none _)
  | poll _ _ hb => exact .inr (hb r rest hq)

theorem not_lastError (hn : ¬ LastError s) {r : Request} {rest : List Request}
    (hq : s.queue = r :: rest) : r.errors + 1 < MAX_ERRORS ∨ rest ≠ [] := by
  by_cases hrest : rest = []
  · rw [hrest] at hq
    refine .inl (Nat.not_le.mp fun hmax => hn ⟨r, ?_, hq, hmax⟩)
    rw [hq]
    exact List.mem_singleton_self r
  · exact .inr hrest

/-- `bad_rw_intr`, when the command was for the head and the error is not the last one of a request
    that is alone. -/
theorem badRwIntr_cases (h : Ready s) {r : Request} {rest : List Request} (hq : s.queue = r :: rest)
    (hi : s.issued = r.serial) (hn : r.errors + 1 < MAX_ERRORS ∨ rest ≠ []) :
    ∃ s', badRwIntr s = some s' ∧ Ready s' ∧ s'.task = s.task ∧
      (s'.queue = { r with errors := r.errors + 1 } :: rest ∧
        (MAX_ERRORS / 2 < r.errors + 1 → s'.reset = true) ∨
        s'.queue = rest ∧ rest ≠ []) := by
  have hcount : countError s.issued s.toRequests = some { s.toRequests with
      queue := { r with errors := r.errors + 1 } :: rest
      charged := s.charged ++ [(r.serial, r.serial)] } := by
    rw [hi]
    exact countError_cons _ hq
  have honce := h.once.count hq
  unfold badRwIntr
  rw [hcount, Option.bind_some]
  simp only [List.head?_cons, Option.bind_some]
  by_cases hlast : r.errors + 1 ≥ MAX_ERRORS
  · rw [if_pos hlast, endRequest_cons rfl, Option.bind_some]
    obtain ⟨c, rest', rfl⟩ := List.exists_cons_of_ne_nil (hn.resolve_left (Nat.not_lt.mpr hlast))
    exact ⟨_, rfl, ⟨honce.end rfl, fewErrors_fresh (h.few.rest hq)⟩, rfl,
      .inr ⟨rfl, List.cons_ne_nil _ _⟩⟩
  · rw [if_neg hlast, Option.bind_some]
    refine ⟨_, rfl, ⟨honce, ?_⟩, rfl, .inl ⟨rfl, fun hhalf => ?_⟩⟩
    · rintro r' rest' he
      cases he
      exact ⟨Nat.not_le.mp hlast, h.few.rest hq⟩
    · simp only [Bool.or_eq_true, decide_eq_true_eq]
      exact .inr hhalf

/-- After an error the drive is reset before the next one can be the last. -/
theorem not_lastDrq_counted {r : Request} {rest : List Request} (hrest : ∀ r' ∈ rest, r'.errors = 0)
    (hq : s.queue = { r with errors := r.errors + 1 } :: rest ∧
        (MAX_ERRORS / 2 < r.errors + 1 → s.reset = true) ∨ s.queue = rest ∧ rest ≠ []) :
    ¬ LastDrq disks s drq := by
  rintro ⟨⟨c, hc, -, hlast⟩, hreset, -⟩
  rcases hq with ⟨hq, hhalf⟩ | ⟨hq, -⟩
  · rw [hq] at hc
    rcases List.mem_cons.mp hc with rfl | hc
    · have htrue := hhalf (by unfold MAX_ERRORS at *; simp only at hlast; omega)
      cases hreset.symm.trans htrue
    · rw [hrest c hc] at hlast
      exact absurd hlast (by decide)
  · rw [hq] at hc
    rw [hrest c hc] at hlast
    exact absurd hlast (by decide)

theorem not_lastDrq_fresh (h : ∀ r ∈ s.queue, r.errors = 0) : ¬ LastDrq disks s drq := by
  rintro ⟨⟨r, hr, -, hlast⟩, -⟩
  rw [h r hr] at hlast
  exact absurd hlast (by decide)

/-- A write command for which the drive does not ask for data. -/
def Refused (disks : Disks) (s : Hd) (drq : List Bool) : Prop :=
  ∃ r rest, (rejectBad disks.bad s.toRequests).queue = r :: rest ∧
    s.reset = false ∧ s.recalibrate = false ∧ r.cmd = .write ∧ drq.head? = some false

/-- A command is issued for the first good request, if there is one. -/
theorem doHdRequest_issues (h : Ready s) (hn : ¬ Refused disks s drq) :
    ∃ s', doHdRequest disks s drq = some s' ∧ Served disks.Good s s' := by
  have honce := h.once.reject disks.bad
  have hfew := @FewErrors.reject disks.bad s.toRequests h.few
  have hissue : ∀ {r : Request} {rest : List Request} (a b : Bool) (intr : Intr),
      (rejectBad disks.bad s.toRequests).queue = r :: rest →
      Served disks.Good s ⟨rejectBad disks.bad s.toRequests, a, b, some intr, r.serial, s.task⟩ := by
    intro r rest a b intr hq
    refine ⟨⟨honce, hfew⟩, fun r' rest' hq' => ⟨Option.some_ne_none _, ?_⟩, rfl, fun c hc hbad => ?_⟩
    · obtain ⟨rfl, -⟩ := List.cons.inj (hq.symm.trans hq')
      rfl
    · exact ⟨c, by rw [rejectBad_good hc hbad, hc]⟩
  unfold doHdRequest
  simp only
  cases hq : (rejectBad disks.bad s.toRequests).queue with
  | nil =>
    refine ⟨_, rfl, ⟨honce, hfew⟩, fun r rest hc => ?_, rfl, fun c hc hbad => ?_⟩
    · cases hq.symm.trans hc
    · rw [rejectBad_good hc hbad, hc] at hq
      cases hq
  | cons r rest =>
    simp only
    cases hreset : s.reset with
    | true => exact ⟨_, rfl, hissue _ _ _ hq⟩
    | false =>
      cases hrecal : s.recalibrate with
      | true => exact ⟨_, rfl, hissue _ _ _ hq⟩
      | false =>
        cases hcmd : r.cmd with
        | read => exact ⟨_, rfl, hissue _ _ _ hq⟩
        | write =>
          rcases drq with - | ⟨_ | _, drq⟩
          · exact ⟨_, rfl, hissue _ _ _ hq⟩
          · exact absurd ⟨r, rest, hq, hreset, hrecal, hcmd, rfl⟩ hn
          · exact ⟨_, rfl, hissue _ _ _ hq⟩

theorem doHdRequest_refused {r : Request} {rest : List Request}
    (hq : (rejectBad disks.bad s.toRequests).queue = r :: rest) (hreset : s.reset = false)
    (hrecal : s.recalibrate = false) (hcmd : r.cmd = .write) :
    doHdRequest disks s (false :: drq) =
      (badRwIntr (hdOut { s with toRequests := rejectBad disks.bad s.toRequests } r .write)).bind
        fun s => doHdRequest disks s drq := by
  rw [doHdRequest]
  simp only [hq, hreset, hrecal, hcmd, Bool.false_eq_true, if_false]

/-- Only the first request can have errors, so the last error is that of a request that is not
    rejected before. -/
theorem refused_not_last (h : Ready s) (hn : ¬ LastDrq disks s (false :: drq)) {r : Request}
    {rest : List Request} (hq : (rejectBad disks.bad s.toRequests).queue = r :: rest)
    (hreset : s.reset = false) (hrecal : s.recalibrate = false) (hcmd : r.cmd = .write) :
    r.errors + 1 < MAX_ERRORS ∨ rest ≠ [] := by
  by_contra hc
  rw [not_or, Nat.not_lt, not_ne_iff] at hc
  obtain ⟨hlast, rfl⟩ := hc
  obtain ⟨hmem, hbad⟩ := rejectBad_head hq
  obtain ⟨c, rest', hhead⟩ := List.exists_cons_of_ne_nil (List.ne_nil_of_mem hmem)
  have hsame : r = c := by
    by_contra hne
    rw [hhead] at hmem
    have hz := h.few.rest hhead r ((List.mem_cons.mp hmem).resolve_left hne)
    rw [hz] at hlast
    exact absurd hlast (by decide)
  subst hsame
  rw [rejectBad_good hhead hbad] at hq
  refine hn ⟨⟨r, hmem, hq, hlast⟩, hreset, hrecal, rfl, fun r' hr' => ?_⟩
  rw [hq] at hr'
  rw [List.mem_singleton.mp hr']
  exact ⟨hbad, hcmd⟩

/-- What `do_hd_request` needs and leaves. -/
theorem doHdRequest_spec (h : Ready s) (hn : ¬ LastDrq disks s drq) :
    ∃ s', doHdRequest disks s drq = some s' ∧ Served disks.Good s s' := by
  induction drq generalizing s with
  | nil =>
    refine doHdRequest_issues h fun hc => ?_
    obtain ⟨_, _, _, _, _, _, hc⟩ := hc
    cases hc
  | cons asked drq ih =>
    by_cases href : Refused disks s (asked :: drq)
    case neg => exact doHdRequest_issues h href
    obtain ⟨r, rest, hq, hreset, hrecal, hcmd, hasked⟩ := href
    obtain rfl : asked = false := by simpa using hasked
    have hready : Ready (hdOut { s with toRequests := rejectBad disks.bad s.toRequests } r .write) :=
      ⟨h.once.reject disks.bad, h.few.reject⟩
    obtain ⟨s₁, hs₁, h₁, ht₁, hq₁⟩ :=
      badRwIntr_cases hready hq rfl (refused_not_last h hn hq hreset hrecal hcmd)
    obtain ⟨s', hs', h'⟩ := ih h₁ (not_lastDrq_counted (h.few.reject.rest hq) hq₁)
    refine ⟨s', ?_, h'.toReady, h'.busy, h'.task.trans ht₁, fun c hc hbad => ?_⟩
    · rw [doHdRequest_refused hq hreset hrecal hcmd, hs₁, Option.bind_some, hs']
    · -- the request that is alone has an error more, and is as good as before
      rw [rejectBad_good hc hbad, hc] at hq
      cases hq
      rcases hq₁ with ⟨hq₁, -⟩ | ⟨-, hrest⟩
      · exact h'.keeps _ hq₁ hbad
      · exact absurd rfl hrest

/-! ### Interrupts -/

/-- A failed command: the error is counted, and the next command issued. -/
theorem failed_spec (h : Ready s) {r : Request} {rest : List Request} (hq : s.queue = r :: rest)
    (hi : s.issued = r.serial) (hn : r.errors + 1 < MAX_ERRORS ∨ rest ≠ []) :
    ∃ s', ((badRwIntr s).bind fun s => doHdRequest disks s drq) = some s' ∧ Served disks.Good s s' := by
  obtain ⟨s₁, hs₁, h₁, ht₁, hq₁⟩ := badRwIntr_cases h hq hi hn
  obtain ⟨s', hs', h'⟩ :=
    @doHdRequest_spec disks s₁ drq h₁ (not_lastDrq_counted (h.few.rest hq) hq₁)
  rw [hs₁, Option.bind_some]
  refine ⟨s', hs', h'.toReady, h'.busy, h'.task.trans ht₁, fun c hc hbad => ?_⟩
  obtain ⟨rfl, rfl⟩ := List.cons.inj (hq.symm.trans hc)
  rcases hq₁ with ⟨hq₁, -⟩ | ⟨-, hrest⟩
  · exact h'.keeps _ hq₁ hbad
  · exact absurd rfl hrest

/-- The last sector of the first request. -/
theorem finished_spec (h : Ready s) {r r' : Request} {rest : List Request}
    (hq : s.queue = r :: rest) (hr : r'.serial = r.serial) :
    ∃ s', ((endRequest { s.toRequests with queue := r' :: rest }).bind fun q =>
      doHdRequest disks { s with toRequests := q } drq) = some s' ∧ Served (fun _ => False) s s' := by
  rw [endRequest_cons rfl, Option.bind_some]
  have hready : Ready { s with queue := rest, ended := s.ended ++ [r'.serial] } :=
    ⟨(h.once.head hq hr).end rfl, fewErrors_fresh (h.few.rest hq)⟩
  obtain ⟨s', hs', h'⟩ := @doHdRequest_spec disks _ drq hready (not_lastDrq_fresh (h.few.rest hq))
  exact ⟨s', hs', h'.toReady, h'.busy, h'.task, fun _ _ hc => hc.elim⟩

/-- Another sector of the first request. -/
theorem Ready.sector (h : Ready s) {r : Request} {rest : List Request} (r' : Request)
    (hq : s.queue = r :: rest) (hi : s.issued = r.serial) (hr : r'.serial = r.serial)
    (he : r'.errors ≤ r.errors) (intr : Intr) :
    Served (fun _ => True) s { s with queue := r' :: rest, doHd := some intr } := by
  refine ⟨⟨h.once.head hq hr, fun c rest' hc => ?_⟩, fun c rest' hc => ?_, rfl, fun c hc _ => ?_⟩
  · obtain ⟨rfl, rfl⟩ := List.cons.inj hc
    exact ⟨he.trans_lt (h.few r rest hq).1, h.few.rest hq⟩
  · obtain ⟨rfl, -⟩ := List.cons.inj hc
    exact ⟨Option.some_ne_none _, hi.trans hr.symm⟩
  · obtain ⟨-, rfl⟩ := List.cons.inj (hq.symm.trans hc)
    exact ⟨r', rfl⟩

theorem Served.mono {stays stays' : Request → Prop} (h : Served stays s s')
    (hs : ∀ r, s.queue = [r] → stays' r → stays r) : Served stays' s s' :=
  ⟨h.toReady, h.busy, h.task, fun r hq hr => h.keeps r hq (hs r hq hr)⟩

theorem readIntr_ok (h : Ready s) {r : Request} {rest : List Request} (hq : s.queue = r :: rest)
    (hi : s.issued = r.serial) : ∃ s', readIntr disks s true drq = some s' ∧
      Served (fun r => oneLess r.nrSectors ≠ 0) s s' := by
  unfold readIntr
  simp only [Bool.not_true, Bool.false_eq_true, if_false, hq]
  split_ifs with hn
  · have hs := h.sector
      { r with errors := 0, sector := r.sector + 1, nrSectors := oneLess r.nrSectors }
      hq hi rfl (Nat.zero_le r.errors) .read
    exact ⟨_, rfl, hs.mono fun _ _ _ => trivial⟩
  · obtain ⟨s', hs', h'⟩ := @finished_spec disks s drq h _
      { r with errors := 0, sector := r.sector + 1, nrSectors := oneLess r.nrSectors } _ hq rfl
    refine ⟨s', hs', h'.mono fun c hc hne => hne ?_⟩
    obtain ⟨rfl, -⟩ := List.cons.inj (hq.symm.trans hc)
    exact not_ne_iff.mp hn

theorem writeIntr_ok (h : Ready s) {r : Request} {rest : List Request} (hq : s.queue = r :: rest)
    (hi : s.issued = r.serial) : ∃ s', writeIntr disks s true drq = some s' ∧
      Served (fun r => oneLess r.nrSectors ≠ 0) s s' := by
  unfold writeIntr
  simp only [Bool.not_true, Bool.false_eq_true, if_false, hq]
  split_ifs with hn
  · have hs := h.sector { r with sector := r.sector + 1, nrSectors := oneLess r.nrSectors }
      hq hi rfl (le_refl r.errors) .write
    exact ⟨_, rfl, hs.mono fun _ _ _ => trivial⟩
  · obtain ⟨s', hs', h'⟩ := @finished_spec disks s drq h _
      { r with nrSectors := oneLess r.nrSectors } _ hq rfl
    refine ⟨s', hs', h'.mono fun c hc hne => hne ?_⟩
    obtain ⟨rfl, -⟩ := List.cons.inj (hq.symm.trans hc)
    exact not_ne_iff.mp hn

variable {entry : Option Intr → Option Intr × Option Intr} {ok : Bool}

/-- An interrupt that a handler waits for, at a request. -/
theorem hdInterrupt_spec (he : ∀ intr, entry intr = (none, intr)) (h : Ready s) (hb : s.Busy)
    (hd : s.doHd ≠ none) (hq : s.queue ≠ []) (hlast : ¬ (LastError s ∧ ok = false))
    (hdrq : ¬ (s.doHd = some .recal ∧ ok = true ∧ LastDrq disks s drq)) :
    ∃ s', hdInterrupt entry disks s ok drq = some s' ∧ Served (fun _ => ¬ Ends disks s ok) s s' := by
  obtain ⟨r, rest, hq⟩ := List.exists_cons_of_ne_nil hq
  obtain ⟨intr, hintr⟩ := Option.ne_none_iff_exists'.mp hd
  have hi := (hb r rest hq).2
  have hready : Ready { s with doHd := none } := ⟨h.once, h.few⟩
  have hends : ∀ c, s.queue = [c] → ¬ Ends disks s ok →
      ¬ if ok = true ∧ s.doHd ≠ some .recal then oneLess c.nrSectors = 0 else disks.bad c = true :=
    fun c hc hn hif => hn ⟨c, by rw [hc]; exact List.mem_singleton_self c, hc, hif⟩
  unfold hdInterrupt
  rw [he]
  simp only [hintr]
  cases ok with
  | false =>
    have hfew := not_lastError (fun hc => hlast ⟨hc, rfl⟩) hq
    obtain ⟨s', hs', h'⟩ := @failed_spec disks { s with doHd := none } drq hready r rest hq hi hfew
    have hgood : Served (fun _ => ¬ Ends disks s false) s s' := by
      refine ⟨h'.toReady, h'.busy, h'.task, fun c hc hn => h'.keeps c hc ?_⟩
      have hbad := hends c hc hn
      rw [if_neg (by simp)] at hbad
      exact Bool.eq_false_of_not_eq_true hbad
    cases intr <;> exact ⟨s', hs', hgood⟩
  | true =>
    have hmore : ∀ s', intr ≠ .recal →
        Served (fun r => oneLess r.nrSectors ≠ 0) { s with doHd := none } s' →
        Served (fun _ => ¬ Ends disks s true) s s' := by
      intro s' hne h'
      refine ⟨h'.toReady, h'.busy, h'.task, fun c hc hn => h'.keeps c hc ?_⟩
      have hnr := hends c hc hn
      rw [hintr, if_pos ⟨rfl, fun hc => hne (Option.some.inj hc)⟩] at hnr
      exact hnr
    cases intr with
    | read =>
      obtain ⟨s', hs', h'⟩ := @readIntr_ok disks _ drq hready r rest hq hi
      exact ⟨s', hs', hmore s' (by decide) h'⟩
    | write =>
      obtain ⟨s', hs', h'⟩ := @writeIntr_ok disks _ drq hready r rest hq hi
      exact ⟨s', hs', hmore s' (by decide) h'⟩
    | recal =>
      obtain ⟨s', hs', h'⟩ := @doHdRequest_spec disks { s with doHd := none } drq hready
        fun hc => hdrq ⟨hintr, rfl, hc⟩
      refine ⟨s', hs', h'.toReady, h'.busy, h'.task, fun c hc hn => h'.keeps c hc ?_⟩
      have hbad := hends c hc hn
      rw [hintr, if_neg (by simp)] at hbad
      exact Bool.eq_false_of_not_eq_true hbad

theorem interrupt_settled (he : ∀ intr, entry intr = (none, intr)) (h : Settled s)
    (hf : Fine disks s (.interrupt ok drq)) :
    ∃ s', hdInterrupt entry disks s ok drq = some s' ∧ Settled s' := by
  by_cases hd : s.doHd = none
  · refine ⟨s, ?_, h⟩
    unfold hdInterrupt
    rw [he]
    simp only [hd]
    rw [← hd]
  · obtain ⟨hq, hlast, hdrq, ht⟩ := hf hd
    cases h.phase with
    | free hfree hb =>
      obtain ⟨s', hs', h'⟩ := hdInterrupt_spec he h.toReady hb hd hq hlast hdrq
      exact ⟨s', hs', h'.toReady, .free (h'.task.trans hfree) h'.busy⟩
    | called hcalled _ => rw [hcalled] at ht; simp at ht
    | out hout _ _ => rw [hout] at ht; simp at ht
    | @poll r hpoll halone hb =>
      have hends : ¬ Ends disks s ok := (ht.resolve_left (by rw [hpoll]; exact Option.some_ne_none _)).2
      obtain ⟨s', hs', h'⟩ := hdInterrupt_spec he h.toReady hb hd hq hlast hdrq
      obtain ⟨r', hr'⟩ := h'.keeps r halone hends
      exact ⟨s', hs', h'.toReady, .poll (h'.task.trans hpoll) hr' h'.busy⟩

/-! ### The task -/

/-- The request is issued, or it is rejected. -/
theorem enter_settled (h : Ready s) {r : Request} (hq : s.queue = [r]) :
    Settled (enter disks s) := by
  have hready : Ready { s with toRequests := rejectBad disks.bad s.toRequests } :=
    ⟨h.once.reject disks.bad, FewErrors.reject h.few⟩
  have hout : ∀ {c : Request} {rest : List Request} (a b : Bool) (intr : Intr),
      (rejectBad disks.bad s.toRequests).queue = c :: rest →
      Settled ⟨rejectBad disks.bad s.toRequests, a, b, some intr, s.issued,
        some (.out c.serial intr)⟩ := by
    intro c rest a b intr hc
    have hsub := (rejectBad_suffix disks.bad s.toRequests).length_le
    rw [hc, hq] at hsub
    obtain rfl : rest = [] := List.eq_nil_of_length_eq_zero (by simpa using hsub)
    exact ⟨⟨hready.once, hready.few⟩, .out rfl hc rfl⟩
  unfold enter
  simp only
  cases hc : (rejectBad disks.bad s.toRequests).queue with
  | nil =>
    refine ⟨⟨hready.once, hready.few⟩, .free rfl fun c rest hc' => ?_⟩
    cases hc.symm.trans hc'
  | cons c rest =>
    simp only
    split_ifs
    · exact hout _ _ _ hc
    · exact hout _ _ _ hc
    · cases c.cmd with
      | read => exact hout _ _ _ hc
      | write => exact hout _ _ _ hc

theorem go_settled (h : Settled s) {asked : Bool} (hf : Fine disks s (.go asked)) :
    ∃ s', go disks s asked = some s' ∧ Settled s' := by
  unfold go
  cases h.phase with
  | free ht _ =>
    rw [ht]
    exact ⟨s, rfl, h⟩
  | called ht hq =>
    rw [ht]
    exact ⟨_, rfl, enter_settled h.toReady hq⟩
  | @out r intr ht hq hd =>
    rw [ht]
    have hbusy : ∀ task, Hd.Busy { s with issued := r.serial, task := task } := by
      intro task c rest hc
      obtain ⟨rfl, -⟩ := List.cons.inj (hq.symm.trans hc)
      exact ⟨by rw [hd]; exact Option.some_ne_none _, rfl⟩
    refine ⟨_, rfl, ⟨h.once, h.few⟩, ?_⟩
    by_cases hw : intr = .write
    · exact .poll (if_pos hw) hq (hbusy _)
    · exact .free (if_neg hw) (hbusy _)
  | @poll r ht hq hb =>
    rw [ht]
    cases asked with
    | true =>
      refine ⟨{ s with task := none }, ?_, ⟨h.once, h.few⟩, .free rfl hb⟩
      simp only [if_true, hq, List.head?_cons, Option.map_some]
    | false =>
      obtain ⟨s', hs', h', -, hq'⟩ :=
        badRwIntr_cases h.toReady hq (hb r [] hq).2 (not_lastError (hf ht rfl) hq)
      refine ⟨{ s' with task := some .called }, ?_, ⟨h'.once, h'.few⟩, ?_⟩
      · simp only [Bool.false_eq_true, if_false, hs', Option.map_some]
      · rcases hq' with ⟨hq', -⟩ | ⟨-, hrest⟩
        · exact .called rfl hq'
        · exact absurd rfl hrest

theorem add_settled (h : Settled s) (minor block : ℕ) (cmd : Command) :
    ∃ s', step entry disks s (.add minor cmd block) = some s' ∧ Settled s' := by
  unfold step
  simp only
  split_ifs with ht hq
  · exact ⟨s, rfl, h⟩
  · have hone : Once { s.toRequests with
        queue := [newRequest s.made minor cmd block], made := s.made + 1 } :=
      h.once.made rfl (by rw [hq])
    refine ⟨_, rfl, ⟨hone, fewErrors_fresh fun r hr => ?_⟩, .called rfl rfl⟩
    rw [List.mem_singleton.mp hr]
    rfl
  · obtain ⟨r, rest, hr⟩ := List.exists_cons_of_ne_nil hq
    obtain ⟨l, hl, hperm⟩ := @addRequest_head r rest (newRequest s.made minor cmd block)
    rw [hr, hl]
    have hall : (r :: l).Perm (newRequest s.made minor cmd block :: s.queue) := by
      rw [hr]
      exact (hperm.cons r).trans (List.Perm.swap _ _ _)
    refine ⟨_, rfl, ⟨h.once.made rfl hall, fun c rest' hc => ?_⟩, ?_⟩
    · obtain ⟨rfl, rfl⟩ := List.cons.inj hc
      refine ⟨(h.few r rest hr).1, fun r' hr' => ?_⟩
      rcases List.mem_cons.mp (hperm.subset hr') with rfl | hr'
      · rfl
      · exact h.few.rest hr r' hr'
    · have hfree := not_ne_iff.mp ht
      cases h.phase with
      | free _ hb =>
        refine .free hfree fun c rest' hc => ?_
        obtain ⟨rfl, -⟩ := List.cons.inj hc
        exact hb r rest hr
      | called hc _ => cases hc.symm.trans hfree
      | out hc _ _ => cases hc.symm.trans hfree
      | poll hc _ _ => cases hc.symm.trans hfree

theorem step_settled (he : ∀ intr, entry intr = (none, intr)) (h : Settled s) {a : Act}
    (hf : Fine disks s a) : ∃ s', step entry disks s a = some s' ∧ Settled s' := by
  cases a with
  | add minor cmd block => exact add_settled h minor block cmd
  | go asked => exact go_settled h hf
  | interrupt ok drq => exact interrupt_settled he h hf

/-! ### Runs -/

theorem run_settled (he : ∀ intr, entry intr = (none, intr)) (h : Settled s) {acts : List Act}
    (hf : FineRun entry disks s acts) : ∃ s', run entry disks s acts = some s' ∧ Settled s' := by
  induction acts generalizing s with
  | nil => exact ⟨s, rfl, h⟩
  | cons a acts ih =>
    obtain ⟨s₁, hs₁, h₁⟩ := @step_settled disks s _ he h _ hf.1
    obtain ⟨s', hs', h'⟩ := ih h₁ (hf.2 s₁ hs₁)
    refine ⟨s', ?_, h'⟩
    change (step entry disks s a).bind (fun s => run entry disks s acts) = some s'
    rw [hs₁, Option.bind_some, hs']

theorem start_settled : Settled start :=
  ⟨⟨⟨List.Perm.refl _, fun _ hp => absurd hp List.not_mem_nil⟩, fun _ _ hc => by cases hc⟩,
    .free rfl fun _ _ hc => by cases hc⟩

end

end Linux011.HardDisk
