import Linux011.Tty

set_option autoImplicit false

/-! # Writers on the three terminals share one `cr_flag` -/
namespace Linux011.TtyWrite
open Tty TtyQueue

/-- Where a call of `tty_write` stands. -/
inductive Point where
  | loop
  | sleepIfFull
  | returned
  deriving DecidableEq

/-- A call of `tty_write`: `done` is what lies between `buf` and `b`, `rest` what follows. -/
structure Call where
  channel : Fin 3
  done : List UInt8
  rest : List UInt8
  point : Point
  /-- What the call has put in the queue, in order. -/
  puts : List UInt8

structure State where
  oflag : Fin 3 → UInt32
  writeQ : Fin 3 → TtyQueue
  crFlag : Bool
  calls : ℕ → Option Call

variable (ct : CType)

/-- The character to put for one of the buffer, or `none` if a carriage return goes first. -/
def outChar (oflag : UInt32) (crFlag : Bool) (c : UInt8) : Option UInt8 :=
  if flag oflag OPOST then
    let c := if c = CR ∧ flag oflag OCRNL then LF
      else if c = LF ∧ flag oflag ONLRET then CR else c
    if c = LF ∧ !crFlag ∧ flag oflag ONLCR then none
    else some (if flag oflag OLCUC then ct.toupper c else c)
  else some c

/-- What the inner loop of `tty_write` changes. -/
structure Loop where
  queue : TtyQueue
  crFlag : Bool
  call : Call

def Loop.put (l : Loop) (c : UInt8) : Loop :=
  { l with queue := l.queue.PUTCH c, call := { l.call with puts := l.call.puts ++ [c] } }

/-- One turn of the inner loop, at the next character and what follows it. -/
def Loop.turn (oflag : UInt32) (l : Loop) (c : UInt8) (rest : List UInt8) : Loop :=
  match outChar ct oflag l.crFlag c with
  | none => { l with crFlag := true }.put CR
  | some c' =>
    { l with crFlag := false,
             call := { l.call with done := l.call.done ++ [c], rest := rest } }.put c'

/-- The inner loop, in a queue with some room left. -/
def Loop.fill (oflag : UInt32) : ℕ → Loop → Loop
  | 0, l => l
  | left + 1, l => match l.call.rest with
    | [] => l
    | c :: rest => (l.turn ct oflag c rest).fill oflag left

def State.setCall (s : State) (i : ℕ) (c : Call) : State :=
  { s with calls := Function.update s.calls i (some c) }

/-- From the test of `current->signal` on, up to `schedule` or to the end. The device leaves the
    queue as `after`. -/
def body (i : ℕ) (c : Call) (signal : Bool) (after : TtyQueue) (s : State) : State :=
  if signal then s.setCall i { c with point := .returned }
  else
    let l := Loop.fill ct (s.oflag c.channel) (s.writeQ c.channel).LEFT
      ⟨s.writeQ c.channel, s.crFlag, c⟩
    { s with writeQ := Function.update s.writeQ c.channel after, crFlag := l.crFlag }.setCall i
      { l.call with point := if l.call.rest = [] then .returned else .loop }

inductive Act where
  /-- A task calls `tty_write`. -/
  | enter (i : ℕ) (channel : Fin 3) (buf : List UInt8)
  /-- A call goes on until it gives up the processor again. -/
  | resume (i : ℕ) (signal : Bool) (after : TtyQueue)
  /-- The device takes characters out of a queue, or an echo puts some in. -/
  | device (channel : Fin 3) (after : TtyQueue)

/-- Whether `sleep_if_full` sleeps: a call that comes there tests `FULL` first. -/
def sleeps (c : Call) (signal : Bool) (q : TtyQueue) : Prop :=
  (c.point = .sleepIfFull ∨ q.FULL) ∧ signal = false ∧ q.LEFT < 128

instance (c : Call) (signal : Bool) (q : TtyQueue) : Decidable (sleeps c signal q) :=
  inferInstanceAs (Decidable (_ ∧ _ ∧ _))

/-- `none` if the action is not possible. -/
def step (s : State) : Act → Option State
  | .enter i channel buf =>
    if (s.calls i).isSome then none else some (s.setCall i ⟨channel, [], buf, .loop, []⟩)
  | .resume i signal after => do
    let c ← s.calls i
    if c.point = .returned then none
    else if c.rest = [] then some (s.setCall i { c with point := .returned })
    else if sleeps c signal (s.writeQ c.channel) then
      some (s.setCall i { c with point := .sleepIfFull })
    else some (body ct i c signal after s)
  | .device channel after => some { s with writeQ := Function.update s.writeQ channel after }

/-- A property of every state of a run, as far as its actions are possible. -/
def Along (P : State → Prop) (s : State) : List Act → Prop
  | [] => P s
  | a :: l => P s ∧ ∀ s', step ct s a = some s' → Along P s' l

/-! ### The inner loop -/

theorem LEFT_PUTCH {q : TtyQueue} (h : ¬ q.FULL) (c : UInt8) : (q.PUTCH c).LEFT + 1 = q.LEFT := by
  unfold FULL LEFT at h
  unfold LEFT PUTCH
  simp only
  omega

/-- What a character becomes. -/
def newline (c : UInt8) : List UInt8 := if c = LF then [CR, LF] else [c]

def expand (l : List UInt8) : List UInt8 := l.flatMap newline

/-- `OPOST` and `ONLCR` are set, and no other output mapping. -/
structure OnlyNewlines (oflag : UInt32) : Prop where
  opost : flag oflag OPOST = true
  onlcr : flag oflag ONLCR = true
  ocrnl : flag oflag OCRNL = false
  onlret : flag oflag ONLRET = false
  olcuc : flag oflag OLCUC = false

/-- The carriage return of the next newline is already in the queue. -/
def Call.Half (c : Call) : Prop := c.puts = expand c.done ++ [CR] ∧ c.rest.head? = some LF

instance (c : Call) : Decidable c.Half := inferInstanceAs (Decidable (_ ∧ _))

/-- The call has put in the queue what it has taken from the buffer, with every newline
    expanded. -/
def Call.Exact (c : Call) : Prop := c.puts = expand c.done ∨ c.point ≠ .returned ∧ c.Half

def State.Exact (s : State) : Prop := ∀ i c, s.calls i = some c → c.Exact

/-- At a newline, the flag says whether the carriage return is in the queue. -/
def Loop.Fits (l : Loop) : Prop :=
  (l.call.puts = expand l.call.done ∨ l.call.Half) ∧
    (l.call.rest.head? = some LF → (l.crFlag = true ↔ l.call.Half))

variable {ct} {oflag : UInt32} {l : Loop}

theorem outChar_newlines (h : OnlyNewlines oflag) (f : Bool) (c : UInt8) :
    outChar ct oflag f c = if c = LF ∧ f = false then none else some c := by
  unfold outChar
  simp only [h.opost, h.onlcr, h.ocrnl, h.onlret, h.olcuc, if_true]
  simp

theorem expand_append (x y : List UInt8) : expand (x ++ y) = expand x ++ expand y :=
  List.flatMap_append

theorem Call.Half.not_exact {c : Call} (h : c.Half) : c.puts ≠ expand c.done := by
  intro he
  have hl := congrArg List.length (h.1.symm.trans he)
  simp at hl

/-- One turn, at a newline before and after its carriage return and at another character. -/
theorem Loop.Fits.turn (ho : OnlyNewlines oflag) (h : l.Fits) {c : UInt8} {rest : List UInt8}
    (hr : l.call.rest = c :: rest) : (l.turn ct oflag c rest).Fits := by
  obtain ⟨hputs, hflag⟩ := h
  unfold Loop.turn
  rw [outChar_newlines ho]
  rw [hr] at hflag
  by_cases hc : c = LF
  · have hiff := hflag (by rw [hc]; rfl)
    by_cases hhalf : l.call.Half
    · rw [if_neg (by rw [hiff.mpr hhalf]; simp)]
      have he : l.call.puts ++ [c] = expand (l.call.done ++ [c]) := by
        rw [hhalf.1, expand_append, hc, List.append_assoc]
        rfl
      refine ⟨.inl he, fun _ => ⟨fun hf => absurd hf Bool.false_ne_true, fun hh => ?_⟩⟩
      exact absurd he hh.not_exact
    · have hf : l.crFlag = false := Bool.eq_false_iff.mpr fun hf => hhalf (hiff.mp hf)
      have he := hputs.resolve_right hhalf
      rw [if_pos ⟨hc, hf⟩]
      have hnew : ({ l with crFlag := true }.put CR).call.Half := by
        refine ⟨?_, by rw [← hc]; exact congrArg List.head? hr⟩
        change l.call.puts ++ [CR] = _
        rw [he]
        rfl
      exact ⟨.inr hnew, fun _ => ⟨fun _ => hnew, fun _ => rfl⟩⟩
  · have he : l.call.puts = expand l.call.done := by
      refine hputs.resolve_right fun hh => hc ?_
      have h0 := hh.2
      rw [hr] at h0
      exact Option.some.inj h0
    rw [if_neg fun hh => hc hh.1]
    have hnew : l.call.puts ++ [c] = expand (l.call.done ++ [c]) := by
      rw [he, expand_append]
      unfold expand newline
      simp [hc]
    refine ⟨.inl hnew, fun _ => ⟨fun hf => absurd hf Bool.false_ne_true, fun hh => ?_⟩⟩
    exact absurd hnew hh.not_exact

theorem Loop.Fits.fill (ho : OnlyNewlines oflag) (left : ℕ) (h : l.Fits) :
    (l.fill ct oflag left).Fits := by
  induction left generalizing l with
  | zero => exact h
  | succ left ih =>
    unfold Loop.fill
    cases hr : l.call.rest with
    | nil => exact h
    | cons c rest => exact ih (h.turn ho hr)

/-- The loop ends at the end of the buffer or in a full queue. -/
theorem Loop.fill_ends (left : ℕ) (h : l.queue.LEFT = left) :
    (l.fill ct oflag left).call.rest = [] ∨ (l.fill ct oflag left).queue.FULL := by
  induction left generalizing l with
  | zero => exact .inr h
  | succ left ih =>
    unfold Loop.fill
    cases hr : l.call.rest with
    | nil => exact .inl hr
    | cons c rest =>
      have hput := fun c' => LEFT_PUTCH (q := l.queue) (by unfold FULL; omega) c'
      refine ih ?_
      unfold Loop.turn
      split
      · have := hput CR
        change (l.queue.PUTCH CR).LEFT = left
        omega
      · rename_i c' _
        have := hput c'
        change (l.queue.PUTCH c').LEFT = left
        omega

theorem Loop.turn_buffer {c : UInt8} {rest : List UInt8} (hr : l.call.rest = c :: rest) :
    (l.turn ct oflag c rest).call.done ++ (l.turn ct oflag c rest).call.rest =
      l.call.done ++ l.call.rest ∧
    l.call.puts <+: (l.turn ct oflag c rest).call.puts := by
  unfold Loop.turn
  split
  · exact ⟨rfl, List.prefix_append _ _⟩
  · refine ⟨?_, List.prefix_append _ _⟩
    rw [hr]
    exact List.append_assoc _ _ _

theorem Loop.fill_buffer (left : ℕ) :
    (l.fill ct oflag left).call.done ++ (l.fill ct oflag left).call.rest =
      l.call.done ++ l.call.rest ∧ l.call.puts <+: (l.fill ct oflag left).call.puts := by
  induction left generalizing l with
  | zero => exact ⟨rfl, List.prefix_refl _⟩
  | succ left ih =>
    unfold Loop.fill
    cases hr : l.call.rest with
    | nil => exact ⟨by rw [hr], List.prefix_refl _⟩
    | cons c rest =>
      obtain ⟨hbuffer, hputs⟩ := @Loop.turn_buffer ct oflag l c rest hr
      rw [hr] at hbuffer
      exact ⟨ih.1.trans hbuffer, hputs.trans ih.2⟩

theorem Call.Exact.puts_prefix {c : Call} (h : c.Exact) : c.puts <+: expand (c.done ++ c.rest) := by
  rw [expand_append]
  cases h with
  | inl h =>
    rw [h]
    exact List.prefix_append _ _
  | inr h =>
    obtain ⟨hputs, hrest⟩ := h.2
    obtain ⟨rest, hr⟩ := List.head?_eq_some_iff.mp hrest
    rw [hputs, hr]
    apply (List.prefix_append_right_inj _).mpr
    exact ⟨LF :: expand rest, rfl⟩

/-- At a newline, with the flag wrong, the queue gets what no expansion has. -/
theorem Loop.turn_spoils (ho : OnlyNewlines oflag)
    (hputs : l.call.puts = expand l.call.done ∨ l.call.Half) {rest : List UInt8}
    (hr : l.call.rest = LF :: rest) (hflag : ¬ (l.crFlag = true ↔ l.call.Half)) :
    ¬ (l.turn ct oflag LF rest).call.puts <+: expand (l.call.done ++ l.call.rest) := by
  have hexpand : expand (l.call.done ++ l.call.rest) =
      expand l.call.done ++ (CR :: LF :: expand rest) := by
    rw [hr, expand_append]
    rfl
  rw [hexpand]
  unfold Loop.turn
  rw [outChar_newlines ho]
  cases hputs with
  | inl he =>
    have hhalf : ¬ l.call.Half := fun hh => hh.not_exact he
    have hf : l.crFlag = true := by
      by_contra hf
      exact hflag ⟨fun h => absurd h hf, fun h => absurd h hhalf⟩
    rw [if_neg (by rw [hf]; simp)]
    change ¬ l.call.puts ++ [LF] <+: _
    rw [he, List.prefix_append_right_inj]
    intro hp
    exact absurd (List.cons_prefix_cons.mp hp).1 (by decide)
  | inr hh =>
    have hf : l.crFlag = false := by
      by_contra hf
      exact hflag ⟨fun _ => hh, fun _ => Bool.not_eq_false _ ▸ hf⟩
    rw [if_pos ⟨rfl, hf⟩]
    change ¬ l.call.puts ++ [CR] <+: _
    rw [hh.1, List.append_assoc, List.prefix_append_right_inj]
    intro hp
    exact absurd (List.cons_prefix_cons.mp (List.cons_prefix_cons.mp hp).2).1 (by decide)

/-! ### Runs -/

variable {s s' : State}

/-- A call that stops for a signal, or goes on at a newline, is safe if the flag is its own. -/
def Careful (s : State) : Act → Prop
  | .resume i signal _ => ∀ c, s.calls i = some c → c.rest ≠ [] →
      ¬ sleeps c signal (s.writeQ c.channel) →
      (signal = true → ¬ c.Half) ∧
      (signal = false → c.rest.head? = some LF → (s.crFlag = true ↔ c.Half))
  | _ => True

variable (ct) in
/-- Every action of a run is careful, as far as they are possible. -/
def CarefulRun (s : State) : List Act → Prop
  | [] => True
  | a :: l => ∀ s', step ct s a = some s' → Careful s a ∧ CarefulRun s' l

instance (s : State) : (a : Act) → Decidable (Careful s a)
  | .enter .. | .device .. => inferInstanceAs (Decidable True)
  | .resume i signal _ => inferInstanceAs (Decidable (∀ c ∈ s.calls i, c.rest ≠ [] →
      ¬ sleeps c signal (s.writeQ c.channel) →
      (signal = true → ¬ c.Half) ∧
      (signal = false → c.rest.head? = some LF → (s.crFlag = true ↔ c.Half))))

instance decidableCarefulRun (s : State) : (l : List Act) → Decidable (CarefulRun ct s l)
  | [] => inferInstanceAs (Decidable True)
  | a :: l =>
    have (s' : State) : Decidable (CarefulRun ct s' l) := decidableCarefulRun s' l
    inferInstanceAs (Decidable (∀ s' ∈ step ct s a, Careful s a ∧ CarefulRun ct s' l))

@[simp] theorem setCall_self (s : State) (i : ℕ) (c : Call) : (s.setCall i c).calls i = some c := by
  simp [State.setCall]

theorem setCall_of_ne (s : State) {i j : ℕ} (c : Call) (h : j ≠ i) :
    (s.setCall i c).calls j = s.calls j := by
  simp [State.setCall, h]

theorem State.Exact.setCall (h : s.Exact) (i : ℕ) {c : Call} :
    (s.setCall i c).Exact ↔ c.Exact := by
  constructor
  · intro hs
    exact hs i c (setCall_self s i c)
  · intro hc j c' hj
    by_cases he : j = i
    · subst he
      rw [setCall_self] at hj
      cases hj
      exact hc
    · rw [setCall_of_ne s c he] at hj
      exact h j c' hj

theorem body_exact {i : ℕ} {c : Call} {signal : Bool} {after : TtyQueue} (h : s.Exact)
    (ho : OnlyNewlines (s.oflag c.channel)) (hc : c.Exact)
    (hroom : signal = false → ¬ (s.writeQ c.channel).FULL) :
    (body ct i c signal after s).Exact ↔ (signal = true → ¬ c.Half) ∧
      (signal = false → c.rest.head? = some LF → (s.crFlag = true ↔ c.Half)) := by
  have hputs : c.puts = expand c.done ∨ c.Half := hc.imp_right And.right
  unfold body
  cases signal with
  | true =>
    rw [if_pos rfl, h.setCall]
    have hreturned : ({ c with point := .returned } : Call).Exact ↔ c.puts = expand c.done :=
      ⟨fun hx => hx.resolve_right fun hx => hx.1 rfl, Or.inl⟩
    rw [hreturned]
    constructor
    · intro he
      exact ⟨fun _ hh => hh.not_exact he, fun hf => nomatch hf⟩
    · intro hx
      exact hputs.resolve_right (hx.1 rfl)
  | false =>
    rw [if_neg Bool.false_ne_true]
    have hflags : ({ s with
        writeQ := Function.update s.writeQ c.channel after,
        crFlag := (Loop.fill ct (s.oflag c.channel) (s.writeQ c.channel).LEFT
          ⟨s.writeQ c.channel, s.crFlag, c⟩).crFlag } : State).Exact := h
    rw [hflags.setCall]
    constructor
    · intro hx
      refine ⟨fun hf => (nomatch hf), fun _ hhead => ?_⟩
      by_contra hflag
      obtain ⟨rest, hr⟩ := List.head?_eq_some_iff.mp hhead
      have hspoilt := @Loop.turn_spoils ct _ ⟨s.writeQ c.channel, s.crFlag, c⟩ ho hputs rest hr
        hflag
      obtain ⟨left, hleft⟩ := Nat.exists_eq_succ_of_ne_zero (hroom rfl)
      have hprefix := hx.puts_prefix
      rw [hleft] at hprefix
      unfold Loop.fill at hprefix
      rw [hr] at hprefix
      simp only at hprefix
      obtain ⟨hbuffer, hmore⟩ := @Loop.fill_buffer ct (s.oflag c.channel)
        (Loop.turn ct (s.oflag c.channel) ⟨s.writeQ c.channel, s.crFlag, c⟩ LF rest) left
      rw [hbuffer, (Loop.turn_buffer (l := ⟨s.writeQ c.channel, s.crFlag, c⟩) hr).1] at hprefix
      exact hspoilt (hmore.trans hprefix)
    · intro hx
      have hfits : Loop.Fits ⟨s.writeQ c.channel, s.crFlag, c⟩ := ⟨hputs, hx.2 rfl⟩
      have hend := (@Loop.Fits.fill ct _ _ ho (s.writeQ c.channel).LEFT hfits).1
      cases hend with
      | inl he => exact .inl he
      | inr hh =>
        refine .inr ⟨?_, hh⟩
        obtain ⟨rest, hr⟩ := List.head?_eq_some_iff.mp hh.2
        simp [hr]

theorem step_oflag {a : Act} (h : step ct s a = some s') : s'.oflag = s.oflag := by
  unfold step at h
  cases a with
  | enter i channel buf =>
    simp only at h
    split_ifs at h
    cases h
    rfl
  | device channel after =>
    cases h
    rfl
  | resume i signal after =>
    simp only [Option.bind_eq_bind, Option.bind_eq_some_iff] at h
    obtain ⟨c, -, h⟩ := h
    split_ifs at h
    · cases h
      rfl
    · cases h
      rfl
    · cases h
      unfold body
      split_ifs <;> rfl

/-- A step leaves every call exact just when it is careful. -/
theorem step_exact {a : Act} (hs : s.Exact) (ho : ∀ channel, OnlyNewlines (s.oflag channel))
    (h : step ct s a = some s') : s'.Exact ↔ Careful s a := by
  unfold step at h
  cases a with
  | enter i channel buf =>
    simp only at h
    split_ifs at h
    cases h
    rw [hs.setCall]
    exact ⟨fun _ => trivial, fun _ => .inl rfl⟩
  | device channel after =>
    cases h
    exact ⟨fun _ => trivial, fun _ => hs⟩
  | resume i signal after =>
    simp only [Option.bind_eq_bind, Option.bind_eq_some_iff] at h
    obtain ⟨c, hc, h⟩ := h
    have hexact := hs i c hc
    have hcareful : Careful s (.resume i signal after) ↔ (c.rest ≠ [] →
        ¬ sleeps c signal (s.writeQ c.channel) → (signal = true → ¬ c.Half) ∧
          (signal = false → c.rest.head? = some LF → (s.crFlag = true ↔ c.Half))) := by
      constructor
      · intro hall
        exact hall c hc
      · intro hall c' hc'
        rw [hc] at hc'
        cases hc'
        exact hall
    rw [hcareful]
    split_ifs at h with hret hrest hsleep
    · cases h
      rw [hs.setCall]
      refine ⟨fun _ hne => absurd hrest hne, fun _ => .inl ?_⟩
      refine hexact.resolve_right fun hh => ?_
      have hhead := hh.2.2
      rw [hrest] at hhead
      cases hhead
    · cases h
      rw [hs.setCall]
      refine ⟨fun _ _ hne => absurd hsleep hne, fun _ => ?_⟩
      exact hexact.imp_right fun hh => ⟨(fun hp => nomatch hp), hh.2⟩
    · cases h
      have hroom : signal = false → ¬ (s.writeQ c.channel).FULL := by
        intro hf hfull
        refine hsleep ⟨.inr hfull, hf, ?_⟩
        rw [hfull]
        decide
      rw [body_exact hs (ho c.channel) hexact hroom]
      exact ⟨fun hx _ _ => hx, fun hx => hx hrest hsleep⟩

/-- Every call puts in the queue what it reports, with every newline expanded, just as long as
    the flag is never that of another call. -/
theorem newlines_expanded (hfresh : ∀ i, s.calls i = none)
    (ho : ∀ channel, OnlyNewlines (s.oflag channel)) (acts : List Act) :
    Along ct State.Exact s acts ↔ CarefulRun ct s acts := by
  have hs : s.Exact := fun i c hc => by
    rw [hfresh i] at hc
    cases hc
  clear hfresh
  induction acts generalizing s with
  | nil => exact ⟨fun _ => trivial, fun _ => hs⟩
  | cons a acts ih =>
    constructor
    · intro h s' hstep
      have h' := h.2 s' hstep
      have hs' : s'.Exact := by
        cases acts with
        | nil => exact h'
        | cons _ _ => exact h'.1
      exact ⟨(step_exact hs ho hstep).mp hs', (ih (by rw [step_oflag hstep]; exact ho) hs').mp h'⟩
    · intro h
      refine ⟨hs, fun s' hstep => ?_⟩
      obtain ⟨hcareful, hrun⟩ := h s' hstep
      have hs' := (step_exact hs ho hstep).mpr hcareful
      exact (ih (by rw [step_oflag hstep]; exact ho) hs').mpr hrun

/-- Nobody writes; the queue of the first serial line has room for one character. -/
def idle : State where
  oflag _ := OPOST ||| ONLCR
  writeQ channel := if channel = 1 then ⟨0, 0, 2, fun _ => 0⟩ else ⟨0, 0, 0, fun _ => 0⟩
  crFlag := false
  calls _ := none

theorem onlyNewlines : OnlyNewlines (OPOST ||| ONLCR) where
  opost := by decide
  onlcr := by decide
  ocrnl := by decide
  onlret := by decide
  olcuc := by decide

/-- Two calls in turn: the first fills its queue before the newline, and sleeps until the device
    has made room, while the second writes a line on the console. -/
theorem newlines_expanded_console :
    Along .ascii State.Exact idle
      [.enter 0 1 [65, LF], .resume 0 false ⟨0, 1, 2, fun _ => 65⟩,
        .enter 1 0 [66, LF], .resume 1 false ⟨0, 0, 0, fun _ => 0⟩,
        .resume 0 false ⟨0, 1, 2, fun _ => 65⟩, .device 1 ⟨0, 1, 1, fun _ => 65⟩,
        .resume 0 false ⟨0, 1, 1, fun _ => 65⟩] :=
  (newlines_expanded (fun _ => rfl) (fun _ => onlyNewlines) _).mpr (by decide +kernel)

/-- A call whose carriage return fills the queue gives up the processor to another call. -/
theorem flag_of_another_call :
    ¬ Along .ascii State.Exact idle
      [.enter 0 1 [LF], .resume 0 false ⟨0, 1, 2, fun _ => 0⟩,
        .enter 1 0 [LF], .resume 1 false ⟨0, 1, 1, fun _ => 0⟩] := by
  intro h
  have hexact := (((h.2 _ rfl).2 _ rfl).2 _ rfl).2 _ rfl 1 _ rfl
  have hputs := hexact.resolve_right fun hh => hh.1 rfl
  exact absurd hputs (by decide)

end Linux011.TtyWrite
