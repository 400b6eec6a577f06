import Linux011.ElevatorList
import Mathlib

set_option autoImplicit false

/-!
# Block request queues (kernel/blk_drv/ll_rw_blk.c, blk.h and the interrupts of hd.c)

The request table is one array; each block device links its own requests through it.
-/
namespace Linux011.RequestQueue
open ElevatorList

abbrev NR_REQUEST : ℕ := 32
abbrev NR_BLK_DEV : ℕ := 7
def MAX_ERRORS : ℕ := 7

abbrev Slot := Fin NR_REQUEST
abbrev Major := Fin NR_BLK_DEV

inductive Command where
  | read
  | write
  deriving DecidableEq

def Command.code : Command → ℕ
  | .read => 0
  | .write => 1

/-- The `rw` argument of `make_request`. -/
inductive Rw where
  | read
  | write
  | reada
  | writea
  deriving DecidableEq

def Rw.ahead : Rw → Bool
  | .read | .write => false
  | .reada | .writea => true

def Rw.command : Rw → Command
  | .read | .reada => .read
  | .write | .writea => .write

/-- `dev` is -1 for a free slot. -/
structure Request where
  dev : ℤ
  cmd : Command
  errors : ℕ
  sector : ℕ
  nrSectors : ℕ
  buffer : ℕ
  bh : Option ℕ
  next : Option Slot
  deriving DecidableEq

structure BufferHead where
  data : ℕ
  dev : ℕ
  blocknr : ℕ
  uptodate : Bool
  dirt : Bool
  lock : Bool
  deriving DecidableEq

/-- `waiting bh` is a `make_request` asleep on `wait_for_request` with the buffer locked. -/
structure State where
  request : Slot → Request
  current : Major → Option Slot
  buffer : ℕ → BufferHead
  waiting : ℕ → Option (Major × Command)

def inOrder (s1 s2 : Request) : Prop :=
  s1.cmd.code < s2.cmd.code ∨ (s1.cmd.code = s2.cmd.code ∧
    (s1.dev < s2.dev ∨ (s1.dev = s2.dev ∧ s1.sector < s2.sector)))

instance : DecidableRel inOrder := fun _ _ => by unfold inOrder; infer_instance

def State.lockBuffer (s : State) (bh : ℕ) : State :=
  { s with buffer := Function.update s.buffer bh { s.buffer bh with lock := true } }

def State.unlockBuffer (s : State) (bh : ℕ) : State :=
  { s with buffer := Function.update s.buffer bh { s.buffer bh with lock := false } }

def nexts (request : Slot → Request) (i : Slot) : Option Slot := (request i).next

def setNext (request : Slot → Request) (i : Slot) (p : Option Slot) : Slot → Request :=
  Function.update request i { request i with next := p }

/-- The condition that ends the walk of `add_request` at `tmp`, whose successor is `n`. -/
def Stops (request : Slot → Request) (req tmp n : Slot) : Prop :=
  (inOrder (request tmp) (request req) ∨ ¬ inOrder (request tmp) (request n)) ∧
    inOrder (request req) (request n)

instance (request : Slot → Request) (req : Slot) : DecidableRel (Stops request req) :=
  fun _ _ => by unfold Stops; infer_instance

/-- `request_fn`, called when the list was empty, is one of the driver's own events. -/
def addRequest (major : Major) (req : Slot) (s : State) : Option State :=
  let request := setNext s.request req none
  let buffer := match (request req).bh with
    | some bh => Function.update s.buffer bh { s.buffer bh with dirt := false }
    | none => s.buffer
  match s.current major with
  | none => some { s with
      request := request, buffer := buffer,
      current := Function.update s.current major (some req) }
  | some tmp => (seek (nexts request) (Stops request req) NR_REQUEST tmp).map fun tmp =>
      { s with
        request := setNext (setNext request req (request tmp).next) tmp (some req),
        buffer := buffer }

/-- The search for an empty request, downwards from slot `n - 1`. -/
def emptyRequest (request : Slot → Request) : (n : ℕ) → n ≤ NR_REQUEST → Option Slot
  | 0, _ => none
  | n + 1, h => if (request ⟨n, h⟩).dev < 0 then some ⟨n, h⟩
    else emptyRequest request n (Nat.le_of_succ_le h)

def fillRequest (cmd : Command) (bh : ℕ) (b : BufferHead) : Request where
  dev := b.dev
  cmd := cmd
  errors := 0
  sector := 2 * b.blocknr % 4294967296
  nrSectors := 2
  buffer := b.data
  bh := some bh
  next := none

def slots : Command → {n : ℕ // n ≤ NR_REQUEST}
  | .read => ⟨NR_REQUEST, le_refl _⟩
  | .write => ⟨NR_REQUEST * 2 / 3, by decide⟩

/-- `make_request` from the label `repeat` on. -/
def repeatRequest (major : Major) (cmd : Command) (ahead : Bool) (bh : ℕ) (s : State) :
    Option State :=
  match emptyRequest s.request (slots cmd).val (slots cmd).property with
  | none =>
    if ahead then some (s.unlockBuffer bh)
    else some { s with waiting := Function.update s.waiting bh (some (major, cmd)) }
  | some req => addRequest major req { s with
      request := Function.update s.request req (fillRequest cmd bh (s.buffer bh)),
      waiting := Function.update s.waiting bh none }

/-- No step is taken on a locked buffer: `lock_buffer` sleeps there. -/
def makeRequest (major : Major) (rw : Rw) (bh : ℕ) (s : State) : Option State :=
  if (s.buffer bh).lock then if rw.ahead then some s else none
  else
    let s := s.lockBuffer bh
    if (rw.command = .write ∧ (s.buffer bh).dirt = false) ∨
        (rw.command = .read ∧ (s.buffer bh).uptodate = true) then some (s.unlockBuffer bh)
    else repeatRequest major rw.command rw.ahead bh s

def endRequest (major : Major) (uptodate : Bool) (s : State) : Option State :=
  match s.current major with
  | none => none
  | some i => some { s with
      buffer := match (s.request i).bh with
        | some bh => Function.update s.buffer bh
            { s.buffer bh with uptodate := uptodate, lock := false }
        | none => s.buffer
      request := Function.update s.request i { s.request i with dev := -1 }
      current := Function.update s.current major (s.request i).next }

/-- A change of the current request by its driver. -/
def setCurrent (major : Major) (f : Request → Request) (s : State) : Option State :=
  match s.current major with
  | none => none
  | some i => some { s with request := Function.update s.request i (f (s.request i)) }

def Request.cleared (r : Request) : Request := { r with errors := 0 }

def Request.nextSector (r : Request) : Request :=
  { r with
    buffer := (r.buffer + 512) % 4294967296,
    sector := (r.sector + 1) % 4294967296 }

def Request.countDown (r : Request) : Request :=
  { r with nrSectors := if r.nrSectors = 0 then 4294967295 else r.nrSectors - 1 }

def currentRequest (major : Major) (s : State) : Option Request :=
  (s.current major).map s.request

/-- A sector was read, the result being good. -/
def readIntr (major : Major) (s : State) : Option State :=
  (setCurrent major (fun r => r.cleared.nextSector.countDown) s).bind fun s =>
    (currentRequest major s).bind fun r =>
      if r.nrSectors ≠ 0 then some s else endRequest major true s

/-- A sector was written, the result being good. -/
def writeIntr (major : Major) (s : State) : Option State :=
  (setCurrent major Request.countDown s).bind fun s =>
    (currentRequest major s).bind fun r =>
      if r.nrSectors ≠ 0 then setCurrent major Request.nextSector s else endRequest major true s

def badRwIntr (major : Major) (s : State) : Option State :=
  (setCurrent major (fun r => { r with errors := r.errors + 1 }) s).bind fun s =>
    (currentRequest major s).bind fun r =>
      if r.errors ≥ MAX_ERRORS then endRequest major false s else some s

/-- `cache` is what the rest of the kernel does to a buffer, its lock apart. -/
inductive Event where
  | make (major : Major) (rw : Rw) (bh : ℕ)
  | retry (bh : ℕ)
  | readIntr (major : Major)
  | writeIntr (major : Major)
  | badRwIntr (major : Major)
  | endRequest (major : Major) (uptodate : Bool)
  | cache (bh : ℕ) (b : BufferHead)

def step (s : State) : Event → Option State
  | .make major rw bh => makeRequest major rw bh s
  | .retry bh => (s.waiting bh).bind fun w => repeatRequest w.1 w.2 false bh s
  | .readIntr major => readIntr major s
  | .writeIntr major => writeIntr major s
  | .badRwIntr major => badRwIntr major s
  | .endRequest major uptodate => endRequest major uptodate s
  | .cache bh b => if b.lock = (s.buffer bh).lock then
      some { s with buffer := Function.update s.buffer bh b } else none

/-- The states passed on the way, the first one left out. -/
inductive Run (s₀ : State) : List State → State → Prop
  | nil : Run s₀ [] s₀
  | snoc {tr : List State} {s s' : State} {ev : Event} (hr : Run s₀ tr s)
      (hs : step s ev = some s') : Run s₀ (tr ++ [s']) s'

/-- After `blk_dev_init`. -/
structure Initial (s : State) : Prop where
  free : ∀ i, (s.request i).dev = -1 ∧ (s.request i).next = none
  current : ∀ major, s.current major = none
  waiting : ∀ bh, s.waiting bh = none

def KeysDistinct (request : Slot → Request) : Prop :=
  ∀ i j, 0 ≤ (request i).dev → 0 ≤ (request j).dev → (request i).cmd = (request j).cmd →
    (request i).dev = (request j).dev → (request i).sector = (request j).sector → i = j

instance (request : Slot → Request) : Decidable (KeysDistinct request) := by
  unfold KeysDistinct
  infer_instance

/-- The neighbours in a list that are not in order. -/
def outOfOrder (request : Slot → Request) : List Slot → ℕ
  | i :: j :: l => (if inOrder (request i) (request j) then 0 else 1) + outOfOrder request (j :: l)
  | _ => 0

/-- The lists of the devices share out the slots in use. -/
structure Shared (request : Slot → Request) (list : Major → List Slot) : Prop where
  used : ∀ i, 0 ≤ (request i).dev →
    ∃ m, (list m).count i = 1 ∧ ∀ m', m' ≠ m → i ∉ list m'
  free : ∀ i, (request i).dev = -1 → ∀ m, i ∉ list m
  dev : ∀ i, 0 ≤ (request i).dev ∨ (request i).dev = -1

/-! ### The order of requests -/

/-- Reads before writes, then by device and sector. -/
def key (r : Request) : ℕ ×ₗ ℤ ×ₗ ℕ := toLex (r.cmd.code, toLex (r.dev, r.sector))

theorem inOrder_iff (s1 s2 : Request) : inOrder s1 s2 ↔ key s1 < key s2 := by
  simp only [inOrder, key, Prod.Lex.toLex_lt_toLex]

theorem code_injective : Function.Injective Command.code := by
  intro c d h
  cases c <;> cases d <;> first | rfl | exact absurd h (by decide)

theorem key_eq {r r' : Request} (h : key r = key r') :
    r.cmd = r'.cmd ∧ r.dev = r'.dev ∧ r.sector = r'.sector := by
  obtain ⟨hcmd, h⟩ := Prod.mk.inj (toLex.injective h)
  obtain ⟨hdev, hsector⟩ := Prod.mk.inj (toLex.injective h)
  exact ⟨code_injective hcmd, hdev, hsector⟩

theorem outOfOrder_eq (request : Slot → Request) (l : List Slot) :
    outOfOrder request l = descents (l.map fun i => key (request i)) := by
  induction l using outOfOrder.induct with
  | case1 i j l ih =>
    simp only [outOfOrder, List.map_cons, descents, inOrder_iff] at ih ⊢
    rw [ih]
  | case2 l h =>
    rcases l with - | ⟨i, - | ⟨j, l⟩⟩
    · rfl
    · rfl
    · exact absurd rfl (h i j l)

theorem outOfOrder_congr {request request' : Slot → Request} {l : List Slot}
    (h : ∀ i ∈ l, key (request' i) = key (request i)) :
    outOfOrder request' l = outOfOrder request l := by
  rw [outOfOrder_eq, outOfOrder_eq, List.map_congr_left h]

theorem stops_iff (request : Slot → Request) (req t n : Slot) :
    Stops request req t n ↔
      Between (key (request req)) (key (request t)) (key (request n)) := by
  simp only [Stops, Between, inOrder_iff]

/-! ### One list and all lists -/

def Whole (r : Request) : Prop := r.sector % 2 = 0 ∧ r.sector < 4294967296 ∧ r.nrSectors = 2
def Half (r : Request) : Prop := r.sector % 2 = 1 ∧ r.sector < 4294967296 ∧ r.nrSectors = 1

/-- `l` is the list at pointer `p`; only its head may be half done. -/
structure Sound (request : Slot → Request) (p : Option Slot) (l : List Slot) : Prop where
  follows : Follows (nexts request) p l
  nodup : l.Nodup
  writes : ∀ i ∈ l, (request i).cmd = .write → i.val < NR_REQUEST * 2 / 3
  sweep : outOfOrder request l ≤ 1
  head : ∀ i, l.head? = some i → Whole (request i) ∨ Half (request i)
  rest : ∀ i ∈ l.tail, Whole (request i)

structure Queued (request : Slot → Request) (current : Major → Option Slot)
    (list : Major → List Slot) : Prop where
  sound : ∀ m, Sound request (current m) (list m)
  apart : ∀ m m' i, i ∈ list m → i ∈ list m' → m = m'
  used : ∀ i, 0 ≤ (request i).dev ↔ ∃ m, i ∈ list m
  dev : ∀ i, 0 ≤ (request i).dev ∨ (request i).dev = -1

theorem Sound.congr {request request' : Slot → Request} {p : Option Slot} {l : List Slot}
    (h : Sound request p l) (heq : ∀ i ∈ l, request' i = request i) : Sound request' p l where
  follows := h.follows.congr fun i hi => congrArg Request.next (heq i hi)
  nodup := h.nodup
  writes i hi := by
    rw [heq i hi]
    exact h.writes i hi
  sweep := by
    rw [outOfOrder_congr fun i hi => congrArg key (heq i hi)]
    exact h.sweep
  head i hi := by
    rw [heq i (List.mem_of_mem_head? hi)]
    exact h.head i hi
  rest i hi := by
    rw [heq i (List.mem_of_mem_tail hi)]
    exact h.rest i hi

/-- One device's list is replaced; slots enter it from the free ones and leave it to them. -/
theorem Queued.replace {request request' : Slot → Request} {current : Major → Option Slot}
    {list : Major → List Slot} {major : Major} {p : Option Slot} {l : List Slot}
    (h : Queued request current list) (hl : Sound request' p l)
    (hsame : ∀ i, i ∉ list major → i ∉ l → request' i = request i)
    (hnew : ∀ i ∈ l, i ∉ list major → (request i).dev < 0)
    (hused : ∀ i ∈ l, 0 ≤ (request' i).dev)
    (hfreed : ∀ i ∈ list major, i ∉ l → (request' i).dev = -1) :
    Queued request' (Function.update current major p) (Function.update list major l) := by
  have hother : ∀ m, m ≠ major → ∀ i ∈ list m, i ∉ list major ∧ i ∉ l := by
    intro m hm i hi
    have hnot : i ∉ list major := fun hc => hm (h.apart m major i hi hc)
    refine ⟨hnot, fun hc => ?_⟩
    have := (h.used i).mpr ⟨m, hi⟩
    have := hnew i hc hnot
    omega
  have hfree : ∀ i, i ∉ l → i ∉ list major → 0 ≤ (request' i).dev → ∃ m, m ≠ major ∧ i ∈ list m := by
    intro i hil hil' hdev
    rw [hsame i hil' hil] at hdev
    obtain ⟨m, hm⟩ := (h.used i).mp hdev
    refine ⟨m, ?_, hm⟩
    rintro rfl
    exact hil' hm
  refine ⟨fun m => ?_, fun m m' i hi hi' => ?_, fun i => ?_, fun i => ?_⟩
  · by_cases hm : m = major
    · subst hm
      rwa [Function.update_self, Function.update_self]
    · rw [Function.update_of_ne hm, Function.update_of_ne hm]
      refine (h.sound m).congr fun i hi => ?_
      obtain ⟨h1, h2⟩ := hother m hm i hi
      exact hsame i h1 h2
  · by_cases hm : m = major <;> by_cases hm' : m' = major
    · rw [hm, hm']
    · subst hm
      rw [Function.update_self] at hi
      rw [Function.update_of_ne hm'] at hi'
      exact absurd hi (hother m' hm' i hi').2
    · subst hm'
      rw [Function.update_self] at hi'
      rw [Function.update_of_ne hm] at hi
      exact absurd hi' (hother m hm i hi).2
    · rw [Function.update_of_ne hm] at hi
      rw [Function.update_of_ne hm'] at hi'
      exact h.apart m m' i hi hi'
  · constructor
    · intro hdev
      by_cases hil : i ∈ l
      · exact ⟨major, by rwa [Function.update_self]⟩
      · have hil' : i ∉ list major := by
          intro hc
          have := hfreed i hc hil
          omega
        obtain ⟨m, hm, hmem⟩ := hfree i hil hil' hdev
        exact ⟨m, by rwa [Function.update_of_ne hm]⟩
    · rintro ⟨m, hm⟩
      by_cases hmm : m = major
      · subst hmm
        rw [Function.update_self] at hm
        exact hused i hm
      · rw [Function.update_of_ne hmm] at hm
        obtain ⟨h1, h2⟩ := hother m hmm i hm
        rw [hsame i h1 h2]
        exact (h.used i).mpr ⟨m, hm⟩
  · by_cases hil : i ∈ l
    · exact .inl (hused i hil)
    · by_cases hil' : i ∈ list major
      · exact .inr (hfreed i hil' hil)
      · rw [hsame i hil' hil]
        exact h.dev i

theorem Queued.shared {request : Slot → Request} {current : Major → Option Slot}
    {list : Major → List Slot} (h : Queued request current list) : Shared request list where
  used i hi := by
    obtain ⟨m, hm⟩ := (h.used i).mp hi
    refine ⟨m, List.count_eq_one_of_mem (h.sound m).nodup hm, fun m' hne hm' => ?_⟩
    exact hne (h.apart m' m i hm' hm)
  free i hi m hm := by
    have := (h.used i).mpr ⟨m, hm⟩
    omega
  dev := h.dev

theorem Queued.current_cons {request : Slot → Request} {current : Major → Option Slot}
    {list : Major → List Slot} {major : Major} {i : Slot} (h : Queued request current list)
    (hi : current major = some i) :
    ∃ l, list major = i :: l ∧ Follows (nexts request) (request i).next l := by
  have hf := (h.sound major).follows
  rw [hi] at hf
  cases hl : list major with
  | nil => rw [hl] at hf; exact absurd hf (by simp [Follows])
  | cons j l =>
    rw [hl] at hf
    obtain rfl := Option.some.inj hf.1
    exact ⟨l, rfl, hf.2⟩

/-! ### The driver -/

/-- The current request is finished, whatever the driver made of it. -/
theorem Queued.finish {s s₁ s' : State} {list : Major → List Slot} {major : Major} {u : Bool}
    {f : Request → Request} (h : Queued s.request s.current list)
    (h₁ : setCurrent major f s = some s₁) (h₂ : endRequest major u s₁ = some s')
    (hf : ∀ r, (f r).next = r.next) :
    Queued s'.request s'.current (Function.update list major (list major).tail) := by
  cases hi : s.current major with
  | none => simp [setCurrent, hi] at h₁
  | some i =>
    simp only [setCurrent, hi, Option.some.injEq] at h₁
    subst h₁
    simp only [endRequest, hi, Function.update_self, Option.some.injEq] at h₂
    subst h₂
    obtain ⟨l, hl, hfollows⟩ := h.current_cons hi
    have hsound := h.sound major
    rw [hl] at hsound
    have hil : i ∉ l := (List.nodup_cons.mp hsound.nodup).1
    have hkeep : ∀ r r' : Request, ∀ j, j ≠ i →
        Function.update (Function.update s.request i r) i r' j = s.request j := by
      intro r r' j hj
      rw [Function.update_of_ne hj, Function.update_of_ne hj]
    have hne : ∀ j ∈ l, j ≠ i := by
      rintro j hj rfl
      exact hil hj
    have htail : Sound s.request (s.request i).next l := by
      refine ⟨hfollows, (List.nodup_cons.mp hsound.nodup).2,
        fun j hj => hsound.writes j (List.mem_cons_of_mem i hj), ?_, ?_, ?_⟩
      · refine le_trans ?_ hsound.sweep
        rw [outOfOrder_eq, outOfOrder_eq, List.map_cons]
        exact descents_tail _ _
      · exact fun j hj => .inl (hsound.rest j (List.mem_of_mem_head? hj))
      · exact fun j hj => hsound.rest j (List.mem_of_mem_tail hj)
    rw [hl, List.tail_cons, hf]
    refine h.replace (htail.congr fun j hj => hkeep _ _ j (hne j hj)) ?_ ?_ ?_ ?_
    · intro j hj _
      rw [hl] at hj
      exact hkeep _ _ j (fun hc => hj (hc ▸ List.mem_cons_self))
    · intro j hj hc
      rw [hl] at hc
      exact absurd (List.mem_cons_of_mem i hj) hc
    · intro j hj
      dsimp only
      rw [hkeep _ _ j (hne j hj)]
      exact (h.used j).mpr ⟨major, by rw [hl]; exact List.mem_cons_of_mem i hj⟩
    · intro j hj hjl
      rw [hl] at hj
      obtain rfl : j = i := (List.mem_cons.mp hj).resolve_right hjl
      simp

/-- The current request goes on: it keeps its place, and its sector stays or moves one up. -/
theorem Queued.advance {s s' : State} {list : Major → List Slot} {major : Major}
    {f : Request → Request} (h : Queued s.request s.current list)
    (h' : setCurrent major f s = some s')
    (hf : ∀ r, (f r).next = r.next ∧ (f r).dev = r.dev ∧ (f r).cmd = r.cmd)
    (hgo : ∀ i, s.current major = some i →
      ((f (s.request i)).sector = (s.request i).sector ∧
        (f (s.request i)).nrSectors = (s.request i).nrSectors) ∨
      (Whole (s.request i) ∧ Half (f (s.request i)) ∧
        (f (s.request i)).sector = (s.request i).sector + 1)) :
    Queued s'.request s'.current list := by
  cases hi : s.current major with
  | none => simp [setCurrent, hi] at h'
  | some i =>
    simp only [setCurrent, hi, Option.some.injEq] at h'
    subst h'
    obtain ⟨l, hl, hfollows⟩ := h.current_cons hi
    have hsound := h.sound major
    rw [hl] at hsound
    have hkeep : ∀ j, j ≠ i →
        Function.update s.request i (f (s.request i)) j = s.request j :=
      fun j hj => Function.update_of_ne hj _ _
    have hself : Function.update s.request i (f (s.request i)) i = f (s.request i) :=
      Function.update_self _ _ _
    have hne : ∀ j ∈ l, j ≠ i := by
      rintro j hj rfl
      exact (List.nodup_cons.mp hsound.nodup).1 hj
    obtain ⟨hnext, hdev, hcmd⟩ := hf (s.request i)
    have hnexts : ∀ j, nexts (Function.update s.request i (f (s.request i))) j =
        nexts s.request j := by
      intro j
      unfold nexts
      by_cases hj : j = i
      · rw [hj, hself, hnext]
      · rw [hkeep j hj]
    have hnew : Sound (Function.update s.request i (f (s.request i))) (some i) (i :: l) := by
      refine ⟨?_, hsound.nodup, ?_, ?_, ?_, ?_⟩
      · have hfollows' : Follows (nexts s.request) (some i) (i :: l) := ⟨rfl, hfollows⟩
        exact hfollows'.congr fun j _ => hnexts j
      · intro j hj
        by_cases hji : j = i
        · subst hji
          rw [hself, hcmd]
          exact hsound.writes j hj
        · rw [hkeep j hji]
          exact hsound.writes j hj
      · have hsweep := hsound.sweep
        rw [outOfOrder_eq, List.map_cons] at hsweep ⊢
        have hmap : l.map (fun j => key (Function.update s.request i (f (s.request i)) j)) =
            l.map fun j => key (s.request j) :=
          List.map_congr_left fun j hj => by rw [hkeep j (hne j hj)]
        rw [hmap, hself]
        refine le_trans (descents_raise_head ?_) hsweep
        intro b hb hlt
        rw [List.head?_map] at hb
        obtain ⟨j, hj, rfl⟩ := Option.map_eq_some_iff.mp hb
        have hwhole := hsound.rest j (List.mem_of_mem_head? hj)
        rw [← inOrder_iff] at hlt ⊢
        unfold inOrder at hlt ⊢
        rw [hcmd, hdev]
        rcases hgo i hi with ⟨hsec, _⟩ | ⟨hw, _, hsec⟩
        · rwa [hsec]
        · -- both sectors were even
          have := hwhole.1
          have := hw.1
          rw [hsec]
          omega
      · rintro j hj
        obtain rfl := Option.some.inj hj
        rw [hself]
        rcases hgo i hi with ⟨hsec, hnr⟩ | ⟨_, hhalf, _⟩
        · have hhead := hsound.head i rfl
          unfold Whole Half at hhead ⊢
          rwa [hsec, hnr]
        · exact .inr hhalf
      · intro j hj
        rw [hkeep j (hne j hj)]
        exact hsound.rest j hj
    have hcur : s.current = Function.update s.current major (some i) := by
      rw [← hi, Function.update_eq_self]
    have hlist : list = Function.update list major (i :: l) := by
      rw [← hl, Function.update_eq_self]
    change Queued (Function.update s.request i (f (s.request i))) s.current list
    rw [hcur, hlist]
    refine h.replace hnew ?_ ?_ ?_ ?_
    · intro j hj _
      rw [hl] at hj
      exact hkeep j (fun hc => hj (hc ▸ List.mem_cons_self))
    · intro j hj hc
      exact absurd (hl ▸ hj) hc
    · intro j hj
      have hj' := (h.used j).mpr ⟨major, by rw [hl]; exact hj⟩
      by_cases hji : j = i
      · subst hji
        rwa [hself, hdev]
      · rwa [hkeep j hji]
    · intro j hj hc
      exact absurd (hl ▸ hj) hc

theorem setCurrent_current {s s' : State} {major : Major} {f : Request → Request}
    (h : setCurrent major f s = some s') : ∃ i, s.current major = some i ∧
      s'.current = s.current ∧ currentRequest major s' = some (f (s.request i)) := by
  cases hi : s.current major with
  | none => simp [setCurrent, hi] at h
  | some i =>
    simp only [setCurrent, hi, Option.some.injEq] at h
    subst h
    exact ⟨i, rfl, rfl, by simp [currentRequest, hi]⟩

theorem Queued.currentState {request : Slot → Request} {current : Major → Option Slot}
    {list : Major → List Slot} {major : Major} {i : Slot} (h : Queued request current list)
    (hi : current major = some i) : Whole (request i) ∨ Half (request i) := by
  obtain ⟨l, hl, _⟩ := h.current_cons hi
  exact (h.sound major).head i (by rw [hl]; rfl)

/-- The fields the drivers leave alone. -/
theorem Request.countDown_links (r : Request) :
    r.countDown.next = r.next ∧ r.countDown.dev = r.dev ∧ r.countDown.cmd = r.cmd := by
  simp only [Request.countDown, and_self]

theorem Request.nextSector_links (r : Request) :
    r.nextSector.next = r.next ∧ r.nextSector.dev = r.dev ∧ r.nextSector.cmd = r.cmd := by
  simp only [Request.nextSector, and_self]

theorem Request.countDown_sector (r : Request) : r.countDown.sector = r.sector := by
  simp only [Request.countDown]

theorem Request.nextSector_sector (r : Request) :
    r.nextSector.sector = (r.sector + 1) % 4294967296 := by
  simp only [Request.nextSector]

theorem Request.nextSector_nrSectors (r : Request) : r.nextSector.nrSectors = r.nrSectors := by
  simp only [Request.nextSector]

theorem countDown_two {r : Request} (h : r.nrSectors = 2) : r.countDown.nrSectors = 1 := by
  simp [Request.countDown, h]

theorem countDown_one {r : Request} (h : r.nrSectors = 1) : r.countDown.nrSectors = 0 := by
  simp [Request.countDown, h]

theorem Request.readOn_links (r : Request) :
    r.cleared.nextSector.countDown.next = r.next ∧ r.cleared.nextSector.countDown.dev = r.dev ∧
      r.cleared.nextSector.countDown.cmd = r.cmd := by
  simp only [Request.countDown, Request.nextSector, Request.cleared, and_self]

/-- After the first of two sectors. -/
theorem whole_advance {r r' : Request} (h : Whole r)
    (hs : r'.sector = (r.sector + 1) % 4294967296) (hn : r'.nrSectors = 1) :
    Half r' ∧ r'.sector = r.sector + 1 := by
  obtain ⟨heven, hlt, _⟩ := h
  have hsector : r'.sector = r.sector + 1 := by omega
  refine ⟨⟨?_, ?_, hn⟩, hsector⟩
  · omega
  · omega

theorem readIntr_queued {s s' : State} {list : Major → List Slot} {major : Major}
    (h : Queued s.request s.current list) (hs : readIntr major s = some s') :
    ∃ list', Queued s'.request s'.current list' := by
  obtain ⟨s₁, h₁, hs⟩ := Option.bind_eq_some_iff.mp hs
  obtain ⟨i, hi, _, hr⟩ := setCurrent_current h₁
  rw [hr, Option.bind_some] at hs
  rcases h.currentState hi with hw | hh
  · have hnr : (s.request i).cleared.nextSector.countDown.nrSectors = 1 :=
      countDown_two (by rw [Request.nextSector_nrSectors]; exact hw.2.2)
    rw [if_pos (by rw [hnr]; decide)] at hs
    obtain rfl := Option.some.inj hs
    refine ⟨list, h.advance h₁ Request.readOn_links ?_⟩
    intro j hj
    obtain rfl := Option.some.inj (hi.symm.trans hj)
    refine .inr ⟨hw, whole_advance hw ?_ hnr⟩
    rw [Request.countDown_sector, Request.nextSector_sector]
    rfl
  · have hnr : (s.request i).cleared.nextSector.countDown.nrSectors = 0 :=
      countDown_one (by rw [Request.nextSector_nrSectors]; exact hh.2.2)
    rw [if_neg (by rw [hnr]; decide)] at hs
    exact ⟨_, h.finish h₁ hs fun r => (Request.readOn_links r).1⟩

theorem setCurrent_comp {s s₁ s₂ : State} {major : Major} {f g : Request → Request}
    (h₁ : setCurrent major f s = some s₁) (h₂ : setCurrent major g s₁ = some s₂) :
    setCurrent major (g ∘ f) s = some s₂ := by
  cases hi : s.current major with
  | none => simp [setCurrent, hi] at h₁
  | some i =>
    simp only [setCurrent, hi, Option.some.injEq] at h₁
    subst h₁
    simp only [setCurrent, hi, Function.update_self, Function.update_idem] at h₂
    simpa [setCurrent, hi] using h₂

theorem writeIntr_queued {s s' : State} {list : Major → List Slot} {major : Major}
    (h : Queued s.request s.current list) (hs : writeIntr major s = some s') :
    ∃ list', Queued s'.request s'.current list' := by
  obtain ⟨s₁, h₁, hs⟩ := Option.bind_eq_some_iff.mp hs
  obtain ⟨i, hi, _, hr⟩ := setCurrent_current h₁
  rw [hr, Option.bind_some] at hs
  rcases h.currentState hi with hw | hh
  · rw [if_pos (by rw [countDown_two hw.2.2]; decide)] at hs
    refine ⟨list, h.advance (setCurrent_comp h₁ hs) (fun r => ?_) ?_⟩
    · obtain ⟨h1, h2, h3⟩ := r.countDown_links
      obtain ⟨h4, h5, h6⟩ := r.countDown.nextSector_links
      rw [Function.comp_apply, h4, h5, h6]
      exact ⟨h1, h2, h3⟩
    · intro j hj
      obtain rfl := Option.some.inj (hi.symm.trans hj)
      refine .inr ⟨hw, whole_advance hw ?_ ?_⟩
      · rw [Function.comp_apply, Request.nextSector_sector, Request.countDown_sector]
      · rw [Function.comp_apply, Request.nextSector_nrSectors, countDown_two hw.2.2]
  · rw [if_neg (by rw [countDown_one hh.2.2]; decide)] at hs
    exact ⟨_, h.finish h₁ hs fun r => r.countDown_links.1⟩

theorem badRwIntr_queued {s s' : State} {list : Major → List Slot} {major : Major}
    (h : Queued s.request s.current list) (hs : badRwIntr major s = some s') :
    ∃ list', Queued s'.request s'.current list' := by
  obtain ⟨s₁, h₁, hs⟩ := Option.bind_eq_some_iff.mp hs
  obtain ⟨i, hi, _, hr⟩ := setCurrent_current h₁
  rw [hr, Option.bind_some] at hs
  split_ifs at hs with hmax
  · exact ⟨_, h.finish h₁ hs (fun _ => rfl)⟩
  · obtain rfl := Option.some.inj hs
    exact ⟨list, h.advance h₁ (fun _ => ⟨rfl, rfl, rfl⟩) (fun _ _ => .inl ⟨rfl, rfl⟩)⟩

theorem endRequest_queued {s s' : State} {list : Major → List Slot} {major : Major} {u : Bool}
    (h : Queued s.request s.current list) (hs : endRequest major u s = some s') :
    ∃ list', Queued s'.request s'.current list' := by
  have hid : setCurrent major id s = some s := by
    cases hi : s.current major with
    | none => simp [endRequest, hi] at hs
    | some i => simp [setCurrent, hi]
  exact ⟨_, h.finish hid hs (fun _ => rfl)⟩

/-! ### Taking a request in -/

theorem emptyRequest_spec {request : Slot → Request} {n : ℕ} {hn : n ≤ NR_REQUEST} {i : Slot}
    (h : emptyRequest request n hn = some i) : (request i).dev < 0 ∧ i.val < n := by
  induction n with
  | zero => simp [emptyRequest] at h
  | succ n ih =>
    rw [emptyRequest] at h
    split_ifs at h with hdev
    · obtain rfl := Option.some.inj h
      exact ⟨hdev, Nat.lt_succ_self n⟩
    · obtain ⟨h1, h2⟩ := ih h
      exact ⟨h1, Nat.lt_succ_of_lt h2⟩

theorem nexts_setNext (request : Slot → Request) (i : Slot) (p : Option Slot) :
    nexts (setNext request i p) = Function.update (nexts request) i p := by
  funext j
  unfold nexts setNext
  by_cases hj : j = i
  · subst hj
    rw [Function.update_self, Function.update_self]
  · rw [Function.update_of_ne hj, Function.update_of_ne hj]

/-- Linking changes nothing but the pointers. -/
theorem setNext_apply (request : Slot → Request) (i j : Slot) (p : Option Slot) :
    setNext request i p j = { request j with next := (setNext request i p j).next } := by
  unfold setNext
  by_cases hj : j = i
  · subst hj
    rw [Function.update_self]
  · rw [Function.update_of_ne hj]

theorem setNext_key (request : Slot → Request) (i j : Slot) (p : Option Slot) :
    key (setNext request i p j) = key (request j) := by
  rw [setNext_apply]
  rfl

theorem whole_fill (cmd : Command) (bh : ℕ) (b : BufferHead) : Whole (fillRequest cmd bh b) := by
  refine ⟨?_, Nat.mod_lt _ (by decide), rfl⟩
  simp only [fillRequest]
  omega

/-- What `request` and `request'` agree on when they differ in pointers only. -/
def SameButNext (request request' : Slot → Request) : Prop :=
  ∀ j, (request' j).dev = (request j).dev ∧ (request' j).cmd = (request j).cmd ∧
    (request' j).sector = (request j).sector ∧ (request' j).nrSectors = (request j).nrSectors

theorem sameButNext_setNext {request request' : Slot → Request} (h : SameButNext request request')
    (i : Slot) (p : Option Slot) : SameButNext request (setNext request' i p) := by
  intro j
  rw [setNext_apply]
  exact h j

theorem SameButNext.key_eq {request request' : Slot → Request} (h : SameButNext request request')
    (j : Slot) : key (request' j) = key (request j) := by
  obtain ⟨h1, h2, h3, _⟩ := h j
  simp only [key, h1, h2, h3]

theorem SameButNext.whole_iff {request request' : Slot → Request} (h : SameButNext request request')
    (j : Slot) : (Whole (request' j) ↔ Whole (request j)) ∧
      (Half (request' j) ↔ Half (request j)) := by
  obtain ⟨_, _, h3, h4⟩ := h j
  simp only [Whole, Half, h3, h4, and_self]

/-- The table while a request is being linked in at the free slot `req`. -/
structure Linking (request request' : Slot → Request) (req : Slot) (r : Request) : Prop where
  same : SameButNext (Function.update request req r) request'
  whole : Whole r
  dev : 0 ≤ r.dev
  free : (request req).dev < 0
  write : r.cmd = .write → req.val < NR_REQUEST * 2 / 3

theorem Linking.fields {request request' : Slot → Request} {req : Slot} {r : Request}
    (h : Linking request request' req r) : key (request' req) = key r ∧ Whole (request' req) ∧
      0 ≤ (request' req).dev ∧ ((request' req).cmd = .write → req.val < NR_REQUEST * 2 / 3) := by
  have hsame := h.same req
  rw [Function.update_self] at hsame
  refine ⟨?_, ?_, hsame.1 ▸ h.dev, fun hc => h.write (hsame.2.1 ▸ hc)⟩
  · rw [h.same.key_eq, Function.update_self]
  · rw [(h.same.whole_iff req).1, Function.update_self]
    exact h.whole

/-- The list with the new request among the old ones, at a place where the order allows it. -/
theorem Queued.take {request request' : Slot → Request} {current : Major → Option Slot}
    {list : Major → List Slot} {major : Major} {req : Slot} {r : Request} {p : Option Slot}
    {l : List Slot} (h : Queued request current list) (hlink : Linking request request' req r)
    (hperm : l.Perm (req :: list major)) (hfollows : Follows (nexts request') p l)
    (hsweep : outOfOrder request' l ≤ 1) (hhead : l.head? = some req ∨ l.head? = (list major).head?)
    (htail : ∀ i ∈ l.tail, i = req ∨ i ∈ (list major).tail)
    (hsame : ∀ i, i ∉ l → request' i = request i) :
    Queued request' (Function.update current major p) (Function.update list major l) := by
  obtain ⟨_, hwhole, hdev, hwrite⟩ := hlink.fields
  have hold : ∀ i ∈ list major, i ≠ req := by
    rintro i hi rfl
    have := (h.used i).mpr ⟨major, hi⟩
    have := hlink.free
    omega
  have hsound := h.sound major
  have heq : ∀ i, i ≠ req → (request' i).dev = (request i).dev ∧
      (request' i).cmd = (request i).cmd ∧ (Whole (request' i) ↔ Whole (request i)) ∧
      (Half (request' i) ↔ Half (request i)) := by
    intro i hi
    obtain ⟨h1, h2, _, _⟩ := hlink.same i
    obtain ⟨h3, h4⟩ := hlink.same.whole_iff i
    rw [Function.update_of_ne hi] at h1 h2 h3 h4
    exact ⟨h1, h2, h3, h4⟩
  have hmem : ∀ i, i ∈ l ↔ i = req ∨ i ∈ list major := by
    intro i
    rw [hperm.mem_iff, List.mem_cons]
  have hnew : Sound request' p l := by
    refine ⟨hfollows, ?_, ?_, hsweep, ?_, ?_⟩
    · rw [hperm.nodup_iff, List.nodup_cons]
      exact ⟨fun hc => hold req hc rfl, hsound.nodup⟩
    · intro i hi hcmd
      rcases (hmem i).mp hi with rfl | hi
      · exact hwrite hcmd
      · rw [(heq i (hold i hi)).2.1] at hcmd
        exact hsound.writes i hi hcmd
    · intro i hi
      rcases hhead with hh | hh
      · obtain rfl := Option.some.inj (hh.symm.trans hi)
        exact .inl hwhole
      · rw [hh] at hi
        obtain ⟨_, _, h3, h4⟩ := heq i (hold i (List.mem_of_mem_head? hi))
        rw [h3, h4]
        exact hsound.head i hi
    · intro i hi
      rcases htail i hi with rfl | hi
      · exact hwhole
      · rw [(heq i (hold i (List.mem_of_mem_tail hi))).2.2.1]
        exact hsound.rest i hi
  refine h.replace hnew (fun i _ hi => hsame i hi) ?_ ?_ ?_
  · intro i hi hnot
    obtain rfl := ((hmem i).mp hi).resolve_right hnot
    exact hlink.free
  · intro i hi
    rcases (hmem i).mp hi with rfl | hi
    · exact hdev
    · rw [(heq i (hold i hi)).1]
      exact (h.used i).mpr ⟨major, hi⟩
  · intro i hi hnot
    exact absurd ((hmem i).mpr (.inr hi)) hnot

/-- The walk of `add_request` ends, and links the request in among the others. -/
theorem Queued.link {request request₁ : Slot → Request} {current : Major → Option Slot}
    {list : Major → List Slot} {major : Major} {req tmp : Slot} {r : Request}
    (h : Queued request current list) (hi : current major = some tmp)
    (hlink : Linking request request₁ req r) (hother : ∀ i, i ≠ req → request₁ i = request i) :
    ∃ w, seek (nexts request₁) (Stops request₁ req) NR_REQUEST tmp = some w ∧
      (KeysDistinct (setNext (setNext request₁ req (request₁ w).next) w (some req)) →
        ∃ list', Queued (setNext (setNext request₁ req (request₁ w).next) w (some req))
          current list') := by
  obtain ⟨l, hl, hfollows⟩ := h.current_cons hi
  have hnodup : (tmp :: l).Nodup := hl ▸ (h.sound major).nodup
  have hmem : req ∉ tmp :: l := by
    intro hc
    have := (h.used req).mpr ⟨major, hl ▸ hc⟩
    have := hlink.free
    omega
  have hne : ∀ i ∈ tmp :: l, i ≠ req := by
    rintro i hc rfl
    exact hmem hc
  have hfollows₁ : Follows (nexts request₁) (nexts request₁ tmp) l := by
    unfold nexts
    rw [hother tmp (hne tmp List.mem_cons_self)]
    exact hfollows.congr fun i hc =>
      congrArg Request.next (hother i (hne i (List.mem_cons_of_mem tmp hc)))
  have hlen : l.length < NR_REQUEST := by
    have hcard := hnodup.length_le_card
    rw [Fintype.card_fin, List.length_cons] at hcard
    omega
  obtain ⟨w, hw, hwl, hins⟩ := seek_insert (Stops request₁ req) hfollows₁ hlen hnodup hmem
  obtain ⟨l', hl', hperm⟩ := insertWhere_cons (Stops request₁ req) req tmp l
  refine ⟨w, hw, fun hdistinct => ?_⟩
  have hlink' : Linking request (setNext (setNext request₁ req (request₁ w).next) w (some req))
      req r := { hlink with same := sameButNext_setNext (sameButNext_setNext hlink.same _ _) _ _ }
  have hkeys : ∀ i, key (setNext (setNext request₁ req (request₁ w).next) w (some req) i) =
      key (request₁ i) := by
    intro i
    rw [setNext_key, setNext_key]
  have hold : ∀ i ∈ tmp :: l, key (request₁ i) = key (request i) :=
    fun i hc => congrArg key (hother i (hne i hc))
  refine ⟨Function.update list major (tmp :: l'), ?_⟩
  rw [show current = Function.update current major (some tmp) by rw [← hi, Function.update_eq_self]]
  refine h.take hlink' ?_ ?_ ?_ (.inr (by rw [hl]; rfl)) ?_ ?_
  · rw [hl]
    exact (hperm.cons tmp).trans (List.Perm.swap req tmp l)
  · rw [← hl', nexts_setNext, nexts_setNext]
    exact hins
  · rw [outOfOrder_eq, List.map_congr_left (fun i _ => hkeys i), ← hl',
      map_insertWhere _ (fun i => key (request₁ i)) (Between (key (request₁ req)))
        (fun t n => stops_iff _ req t n), List.map_cons]
    refine descents_insert ?_ ?_
    · -- a second request for the same sector would have the same key
      intro hc
      obtain ⟨i, hil, hkey⟩ := List.mem_map.mp hc
      have hil := List.mem_cons_of_mem tmp hil
      obtain ⟨h1, h2, h3⟩ := key_eq ((hkeys i).trans (hkey.trans (hkeys req).symm))
      have hki := key_eq ((hkeys i).trans (hold i hil))
      have hid := (h.used i).mpr ⟨major, by rw [hl]; exact hil⟩
      exact hne i hil (hdistinct i req (by rw [hki.2.1]; exact hid) hlink'.fields.2.2.1 h1 h2 h3)
    · rw [← List.map_cons (f := fun i => key (request₁ i)), List.map_congr_left hold,
        ← outOfOrder_eq, ← hl]
      exact (h.sound major).sweep
  · intro i hc
    rw [hl]
    exact List.mem_cons.mp (hperm.mem_iff.mp hc)
  · intro i hc
    have hireq : i ≠ req := by
      rintro rfl
      exact hc (List.mem_cons_of_mem tmp (hperm.mem_iff.mpr List.mem_cons_self))
    have hiw : i ≠ w := by
      rintro rfl
      refine hc ?_
      rcases List.mem_cons.mp hwl with rfl | hwl
      · exact List.mem_cons_self
      · exact List.mem_cons_of_mem tmp (hperm.mem_iff.mpr (List.mem_cons_of_mem req hwl))
    rw [← hother i hireq]
    unfold setNext
    rw [Function.update_of_ne hiw, Function.update_of_ne hireq]

theorem addRequest_spec {request : Slot → Request} {current : Major → Option Slot}
    {list : Major → List Slot} {major : Major} {req : Slot} {r : Request} {s : State}
    (h : Queued request current list) (hreq : s.request = Function.update request req r)
    (hcur : s.current = current) (hfree : (request req).dev < 0) (hdev : 0 ≤ r.dev)
    (hwhole : Whole r) (hwrite : r.cmd = .write → req.val < NR_REQUEST * 2 / 3) :
    ∃ s', addRequest major req s = some s' ∧
      (KeysDistinct s'.request → ∃ list', Queued s'.request s'.current list') := by
  have hother : ∀ i, i ≠ req → setNext s.request req none i = request i := by
    intro i hi
    unfold setNext
    rw [Function.update_of_ne hi, hreq, Function.update_of_ne hi]
  have hself : SameButNext (Function.update request req r) s.request := by
    rw [hreq]
    exact fun _ => ⟨rfl, rfl, rfl, rfl⟩
  have hlink : Linking request (setNext s.request req none) req r :=
    ⟨sameButNext_setNext hself req none, hwhole, hdev, hfree, hwrite⟩
  unfold addRequest
  rw [hcur]
  cases hi : current major with
  | none =>
    have hempty : list major = [] := by
      have hf := (h.sound major).follows
      rw [hi] at hf
      exact Follows.unique hf (rfl : Follows _ none [])
    have hnone : nexts (setNext s.request req none) req = none := by
      rw [nexts_setNext, Function.update_self]
    refine ⟨_, rfl, fun _ => ⟨Function.update list major [req], ?_⟩⟩
    refine h.take hlink ?_ ⟨rfl, hnone⟩ (Nat.zero_le _) (.inl rfl) ?_ ?_
    · rw [hempty]
    · intro i hc
      exact absurd hc (by simp)
    · intro i hc
      exact hother i (fun he => hc (by rw [he]; exact List.mem_singleton_self req))
  | some tmp =>
    obtain ⟨w, hw, hq⟩ := h.link hi hlink hother
    exact ⟨_, Option.map_eq_some_iff.mpr ⟨w, hw, rfl⟩, hq⟩

theorem repeatRequest_spec {s : State} {list : Major → List Slot} (major : Major) (cmd : Command)
    (ahead : Bool) (bh : ℕ) (h : Queued s.request s.current list) :
    ∃ s', repeatRequest major cmd ahead bh s = some s' ∧
      (KeysDistinct s'.request → ∃ list', Queued s'.request s'.current list') := by
  unfold repeatRequest
  cases he : emptyRequest s.request (slots cmd).val (slots cmd).property with
  | none =>
    cases ahead with
    | true => exact ⟨_, rfl, fun _ => ⟨list, h⟩⟩
    | false => exact ⟨_, rfl, fun _ => ⟨list, h⟩⟩
  | some req =>
    obtain ⟨hfree, hlt⟩ := emptyRequest_spec he
    refine addRequest_spec h rfl rfl hfree (Int.natCast_nonneg _) (whole_fill _ _ _) ?_
    rintro (hc : cmd = .write)
    subst hc
    exact hlt

theorem makeRequest_spec {s : State} {list : Major → List Slot} (major : Major) (rw' : Rw) (bh : ℕ)
    (h : Queued s.request s.current list) (hlock : (s.buffer bh).lock = false) :
    ∃ s', makeRequest major rw' bh s = some s' ∧
      (KeysDistinct s'.request → ∃ list', Queued s'.request s'.current list') := by
  unfold makeRequest
  rw [hlock, if_neg Bool.false_ne_true]
  dsimp only
  split_ifs with hneed
  · exact ⟨_, rfl, fun _ => ⟨list, h⟩⟩
  · exact repeatRequest_spec major rw'.command rw'.ahead bh h

/-! ### Runs -/

theorem step_queued {s s' : State} {ev : Event} {list : Major → List Slot}
    (h : Queued s.request s.current list) (hs : step s ev = some s')
    (hd : KeysDistinct s'.request) : ∃ list', Queued s'.request s'.current list' := by
  cases ev with
  | make major rw' bh =>
    cases hlock : (s.buffer bh).lock with
    | true =>
      simp only [step, makeRequest, hlock, if_true] at hs
      split_ifs at hs
      obtain rfl := Option.some.inj hs
      exact ⟨list, h⟩
    | false =>
      obtain ⟨s₁, h₁, hq⟩ := makeRequest_spec major rw' bh h hlock
      obtain rfl := Option.some.inj (h₁.symm.trans hs)
      exact hq hd
  | retry bh =>
    obtain ⟨w, _, hs⟩ := Option.bind_eq_some_iff.mp hs
    obtain ⟨s₁, h₁, hq⟩ := repeatRequest_spec w.1 w.2 false bh h
    obtain rfl := Option.some.inj (h₁.symm.trans hs)
    exact hq hd
  | readIntr major => exact readIntr_queued h hs
  | writeIntr major => exact writeIntr_queued h hs
  | badRwIntr major => exact badRwIntr_queued h hs
  | endRequest major u => exact endRequest_queued h hs
  | cache bh b =>
    simp only [step] at hs
    split_ifs at hs
    obtain rfl := Option.some.inj hs
    exact ⟨list, h⟩

theorem Initial.queued {s : State} (h : Initial s) : Queued s.request s.current fun _ => [] := by
  refine ⟨fun m => ⟨h.current m, List.nodup_nil, ?_, Nat.zero_le _, ?_, ?_⟩, ?_, ?_, ?_⟩
  · intro i hi
    exact absurd hi List.not_mem_nil
  · intro i hi
    exact absurd hi (by simp)
  · intro i hi
    exact absurd hi List.not_mem_nil
  · intro m m' i hi
    exact absurd hi List.not_mem_nil
  · intro i
    rw [(h.free i).1]
    simp
  · intro i
    exact .inr (h.free i).1

theorem Run.queued {s₀ s : State} {tr : List State} (h₀ : Initial s₀) (hr : Run s₀ tr s)
    (hd : ∀ x ∈ tr, KeysDistinct x.request) : ∃ list, Queued s.request s.current list := by
  induction hr with
  | nil => exact ⟨_, h₀.queued⟩
  | snoc _ hs ih =>
    obtain ⟨list, h⟩ := ih fun x hx => hd x (List.mem_append_left _ hx)
    exact step_queued h hs (hd _ (List.mem_append_right _ (List.mem_singleton_self _)))

/-- The order of every device's list, the ownership of the slots and the share of the writes;
    and a request on an unlocked buffer is always taken in, put off or dropped. -/
theorem elevator_queues {s₀ s : State} {tr : List State} (h₀ : Initial s₀) (hr : Run s₀ tr s)
    (hd : ∀ x ∈ tr, KeysDistinct x.request) :
    (∃ list : Major → List Slot,
      (∀ m, Follows (nexts s.request) (s.current m) (list m) ∧ outOfOrder s.request (list m) ≤ 1) ∧
      Shared s.request list) ∧
    (∀ i, 0 ≤ (s.request i).dev → (s.request i).cmd = .write → i.val < NR_REQUEST * 2 / 3) ∧
    ∀ major rw bh, (s.buffer bh).lock = false → (makeRequest major rw bh s).isSome := by
  obtain ⟨list, h⟩ := hr.queued h₀ hd
  refine ⟨⟨list, fun m => ⟨(h.sound m).follows, (h.sound m).sweep⟩, h.shared⟩, ?_, ?_⟩
  · intro i hi hw
    obtain ⟨m, hm⟩ := (h.used i).mp hi
    exact (h.sound m).writes i hm hw
  · intro major rw' bh hlock
    obtain ⟨s', hs', _⟩ := makeRequest_spec major rw' bh h hlock
    rw [hs']
    rfl

/-- Free slots, and two dirty blocks of one disk. -/
def idle : State where
  request _ := ⟨-1, .read, 0, 0, 0, 0, none, none⟩
  current _ := none
  buffer n := ⟨1024 * n, 769, n, false, true, false⟩
  waiting _ := none

theorem idle_initial : Initial idle := ⟨fun _ => ⟨rfl, rfl⟩, fun _ => rfl, fun _ => rfl⟩

local instance instNeZeroRequests : NeZero NR_REQUEST := ⟨by decide⟩

/-- A write waits behind another one, a read overtakes it, and the first write finishes. -/
theorem elevator_queues_three : ∃ (s : State) (tr : List State), Run idle tr s ∧
    s.current 3 = some 31 ∧ (s.request 31).next = some 19 ∧
    (∃ list : Major → List Slot, (∀ m, Follows (nexts s.request) (s.current m) (list m) ∧
      outOfOrder s.request (list m) ≤ 1) ∧ Shared s.request list) ∧
    ∀ i, 0 ≤ (s.request i).dev → (s.request i).cmd = .write → i.val < NR_REQUEST * 2 / 3 := by
  have h₁ := (Run.nil).snoc (show step idle (.make 3 .write 7) = some _ from rfl)
  have h₂ := h₁.snoc (show step _ (.make 3 .write 5) = some _ from rfl)
  have h₃ := h₂.snoc (show step _ (.make 3 .reada 9) = some _ from rfl)
  have h₄ := h₃.snoc (show step _ (.endRequest 3 true) = some _ from rfl)
  refine ⟨_, _, h₄, rfl, rfl, ?_⟩
  have h := elevator_queues idle_initial h₄ ?_
  · exact ⟨h.1, h.2.1⟩
  · intro x hx
    simp only [List.nil_append, List.cons_append, List.mem_cons, List.not_mem_nil, or_false] at hx
    rcases hx with rfl | rfl | rfl | rfl <;> decide +kernel

end Linux011.RequestQueue
