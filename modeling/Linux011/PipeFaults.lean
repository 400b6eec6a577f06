import Linux011.PipeFifo

set_option autoImplicit false

/-!
# Pipes under page faults

`put_fs_byte` and `get_fs_byte` may touch a page that is not there: `do_no_page` then
waits for the disk and another task runs, in the middle of a copy loop.
-/
namespace Linux011.PipeFaults
open CooperativeTasks Pipe PipeFifo

/-- A pipe, and the number of bytes by which its tail and its head have moved. The code keeps
    the two counts modulo a page only; here they name the positions of the stream. -/
structure Stream where
  pipe : PipeInode
  taken : ℕ
  published : ℕ

/-- A line of either call, where a copy loop is at position `i` of the stream. -/
inductive Spot where
  | line (f : Frame) (i : ℕ)
  -- the byte is in a register and `put_fs_byte` is under way, with `chars` more to come
  | putByte (count read : ℤ) (buf size chars i : ℕ) (b : UInt8)

inductive Mark where
  | quiet
  | took (i n : ℕ)
  | copied (i : ℕ) (b : UInt8)
  | stored (i : ℕ) (b : UInt8)

/-- Lines with a byte to copy, the only ones that touch user memory. -/
def moving : Frame → Bool
  | .readCopy _ _ _ _ (_ + 1) | .writeCopy _ _ _ _ _ (_ + 1) => true
  | _ => false

/-- The length of the chunk a pass has just started to copy. -/
def chars : Pipe.Exit → ℕ
  | .goto (.readCopy _ _ _ _ n) | .goto (.writeCopy _ _ _ _ _ n) => n
  | _ => 0

abbrev Exit := Ctl Spot Unit ℤ

def lift (i : ℕ) : Pipe.Exit → Exit
  | .goto f => .goto (.line f i)
  | .sleep f => .sleep (.line f i)
  | .call f k => .call (.line f i) k
  | .ret v => .ret v
  | .panic => .panic

/-- The calls as in `Pipe.Block`, except that each access to user memory may fault, any number
    of times. A reader has loaded its byte from the page when its access faults; a writer
    stores into the page when its access is over. -/
inductive Block : Spot → Stream → Mark → Stream → Exit → Prop where
  | yield (q : Stream) (i : ℕ) : Block (.line .user i) q .quiet q (.sleep (.line .user i))
  | read (q : Stream) (i : ℕ) (count : ℤ) :
      Block (.line .user i) q .quiet q (.call (.line (.readTest count 0 0) i) ())
  | write (q : Stream) (i : ℕ) (src : ℕ → UInt8) (count : ℤ) :
      Block (.line .user i) q .quiet q (.call (.line (.writeTest src count 0 0) i) ())
  | reading {q : Stream} {f : Frame} {s' : PipeInode} {e : Event} {c : Pipe.Exit} (i : ℕ)
      (hf : moving f = false) (h : readPipe q.pipe f = some (e, s', c)) :
      Block (.line f i) q (.took q.taken (chars c))
        { q with pipe := s', taken := q.taken + chars c } (lift q.taken c)
  | writing {q : Stream} {f : Frame} {s' : PipeInode} {e : Event} {c : Pipe.Exit} (i : ℕ)
      (hf : moving f = false) (h : writePipe q.pipe f = some (e, s', c)) :
      Block (.line f i) q .quiet
        { q with pipe := s', published := q.published + chars c } (lift q.published c)
  | load (q : Stream) (count read : ℤ) (buf size chars i : ℕ) :
      Block (.line (.readCopy count read buf size (chars + 1)) i) q .quiet q
        (.goto (.putByte count read buf size chars i (q.pipe.page size)))
  | putFault (q : Stream) (count read : ℤ) (buf size chars i : ℕ) (b : UInt8) :
      Block (.putByte count read buf size chars i b) q .quiet q
        (.sleep (.putByte count read buf size chars i b))
  | put (q : Stream) (count read : ℤ) (buf size chars i : ℕ) (b : UInt8) :
      Block (.putByte count read buf size chars i b) q (.copied i b) q
        (.goto (.line (.readCopy count read (buf + 1) (size + 1) chars) (i + 1)))
  | getFault (q : Stream) (src : ℕ → UInt8) (count written : ℤ) (buf size chars i : ℕ) :
      Block (.line (.writeCopy src count written buf size (chars + 1)) i) q .quiet q
        (.sleep (.line (.writeCopy src count written buf size (chars + 1)) i))
  | get {q : Stream} {src : ℕ → UInt8} {count written : ℤ} {buf size chars i : ℕ}
      {e : Event} {s' : PipeInode} {f : Frame}
      (h : writePipe q.pipe (.writeCopy src count written buf size (chars + 1)) =
        some (e, s', .goto f)) :
      Block (.line (.writeCopy src count written buf size (chars + 1)) i) q
        (.stored i (src buf)) { q with pipe := s' } (.goto (.line f (i + 1)))

def machine : Machine Stream Spot Unit ℤ Mark where
  block := Block
  resume _ _ := .line .user 0
  interrupt q q' := ∃ c, q' = { q with pipe := { q.pipe with count := c } }

def initial (T : Type) (page : ℕ → UInt8) : Sys T Stream Spot Unit where
  shared := { pipe := (Pipe.initial T page).shared, taken := 0, published := 0 }
  task _ := ⟨.line .user 0, []⟩
  running := none

/-- Positions a reader has removed and not yet copied to its caller. -/
def uncopied : Spot → Set ℕ
  | .line (.readCopy _ _ _ _ n) i => Set.Ico i (i + n)
  | .putByte _ _ _ _ n i _ => Set.Ico i (i + (n + 1))
  | _ => ∅

/-- Positions a writer has put before the head and not yet stored. -/
def unstored : Spot → Set ℕ
  | .line (.writeCopy _ _ _ _ _ n) i => Set.Ico i (i + n)
  | _ => ∅

/-- Bytes the next line removes from the queue. -/
def takes (s : PipeInode) : Spot → ℕ
  | .line (.readEmpty count _ _) _ => chunk s.tail count (pipeSize s)
  | _ => 0

/-- Bytes by which the next line moves the head. -/
def publishes (s : PipeInode) : Spot → ℕ
  | .line (.writeFull _ count _ _) _ => chunk s.head count (PAGE_SIZE - 1 - pipeSize s)
  | _ => 0

variable {T : Type}

/-- The positions some task stands before, among those `P` gives for its line. -/
def pending (P : Spot → Set ℕ) (task : T → Task Spot Unit) : Set ℕ :=
  {i | ∃ t, i ∈ P (task t).top}

/-- No reader takes a byte that a writer stopped by a fault has still to store, and no writer
    claims a cell that a reader stopped by a fault has still to copy out. -/
structure Clear (q : Stream) (task : T → Task Spot Unit) (f : Spot) : Prop where
  taking : ∀ i ∈ pending unstored task, q.taken ≤ i → q.taken + takes q.pipe f ≤ i
  claiming : ∀ i ∈ pending uncopied task, ∀ j, q.published ≤ j →
    j < q.published + publishes q.pipe f → i % PAGE_SIZE ≠ j % PAGE_SIZE

def Apart (σ : Sys T Stream Spot Unit) : Prop :=
  ∀ t, σ.running = some t → Clear σ.shared σ.task (σ.task t).top

/-- What a reader copies out was stored there before, and a writer stores over no byte that was
    removed but not yet copied out. -/
structure CopiesSafe (tr : List (T × Mark)) : Prop where
  copied : ∀ pre post t i b, tr = pre ++ (t, .copied i b) :: post → ∃ u, (u, .stored i b) ∈ pre
  stored : ∀ pre post t j b, tr = pre ++ (t, .stored j b) :: post → ∀ u i n k,
    (u, .took i n) ∈ pre → k ∈ Set.Ico i (i + n) → k % PAGE_SIZE = j % PAGE_SIZE →
    ∃ v c, (v, .copied k c) ∈ pre

/-- The counts against the zones of the inode. -/
structure Counts (q : Stream) : Prop where
  head : q.pipe.head = q.published % 4096
  tail : q.pipe.tail = q.taken % 4096
  taken_le : q.taken ≤ q.published
  room : q.published ≤ q.taken + 4095

theorem Counts.zones {q : Stream} (h : Counts q) : Zones q.pipe :=
  ⟨by rw [h.head]; omega, by rw [h.tail]; omega⟩

theorem Counts.size {q : Stream} (h : Counts q) : pipeSize q.pipe = q.published - q.taken := by
  have := h.taken_le
  have := h.room
  apply pipeSize_unique h.zones (by omega)
  rw [h.head, h.tail]
  omega

/-- The cell a copy loop is at is the one of its position. -/
def Fits (q : Stream) : Spot → Prop
  | .line (.readCopy _ _ _ size n) i =>
    size + n ≤ 4096 ∧ i % 4096 = size % 4096 ∧ i + n ≤ q.taken
  | .putByte _ _ _ size n i _ => size + (n + 1) ≤ 4096 ∧ i % 4096 = size ∧ i + (n + 1) ≤ q.taken
  | .line (.writeCopy _ _ _ _ size n) i =>
    size + n ≤ 4096 ∧ i % 4096 = size % 4096 ∧ i + n ≤ q.published
  | _ => True

/-- A byte in a register is one that was stored at its position. -/
def Loaded (tr : List (T × Mark)) : Spot → Prop
  | .putByte _ _ _ _ _ i b => ∃ u, (u, .stored i b) ∈ tr
  | _ => True

/-- What the trace and the page know of the stream, when the readers have still to copy `C` and
    the writers have still to store `W`. -/
structure Ledger (tr : List (T × Mark)) (q : Stream) (C W : Set ℕ) : Prop where
  counts : Counts q
  uncopied_lt : ∀ i ∈ C, i < q.taken
  unstored_lt : ∀ i ∈ W, i < q.published
  unstored_ge : ∀ i ∈ W, q.taken ≤ i
  apart : ∀ i ∈ C, ∀ j ∈ W, i % 4096 ≠ j % 4096
  took : ∀ u i n, (u, .took i n) ∈ tr → i + n ≤ q.taken
  kept : ∀ i, i < q.published → (q.taken ≤ i ∨ i ∈ C) →
    i ∈ W ∨ ∃ u, (u, .stored i (q.pipe.page (i % 4096))) ∈ tr
  delivered : ∀ i, i < q.taken → i ∈ C ∨ ∃ u b, (u, .copied i b) ∈ tr
  safe : CopiesSafe tr

theorem CopiesSafe.concat {tr : List (T × Mark)} {t : T} {e : Mark} (h : CopiesSafe tr)
    (hc : ∀ i b, e = .copied i b → ∃ u, (u, .stored i b) ∈ tr)
    (hs : ∀ j b, e = .stored j b → ∀ u i n k, (u, .took i n) ∈ tr → k ∈ Set.Ico i (i + n) →
      k % PAGE_SIZE = j % PAGE_SIZE → ∃ v c, (v, .copied k c) ∈ tr) :
    CopiesSafe (tr ++ [(t, e)]) := by
  constructor
  · intro pre post u i b hsplit
    rcases concat_split hsplit with ⟨rfl, hx⟩ | ⟨post', htr⟩
    · cases hx
      exact hc i b rfl
    · exact h.copied pre post' u i b htr
  · intro pre post u j b hsplit
    rcases concat_split hsplit with ⟨rfl, hx⟩ | ⟨post', htr⟩
    · cases hx
      exact hs j b rfl
    · exact h.stored pre post' u j b htr

/-- A step that moves no byte and claims none. -/
theorem Ledger.rest {tr : List (T × Mark)} {q : Stream} {C W : Set ℕ} {t : T} {e : Mark}
    (h : Ledger tr q C W) (he : e = .quiet ∨ e = .took q.taken 0) :
    Ledger (tr ++ [(t, e)]) q C W where
  counts := h.counts
  uncopied_lt := h.uncopied_lt
  unstored_lt := h.unstored_lt
  unstored_ge := h.unstored_ge
  apart := h.apart
  took := by
    intro u i n hm
    rcases List.mem_append.mp hm with hm | hm
    · exact h.took u i n hm
    · rcases he with rfl | rfl
      · simp at hm
      · simp only [List.mem_singleton, Prod.mk.injEq, Mark.took.injEq] at hm
        omega
  kept := by
    intro i hi hc
    rcases h.kept i hi hc with hw | ⟨u, hu⟩
    · exact .inl hw
    · exact .inr ⟨u, List.mem_append_left _ hu⟩
  delivered := by
    intro i hi
    rcases h.delivered i hi with hw | ⟨u, b, hu⟩
    · exact .inl hw
    · exact .inr ⟨u, b, List.mem_append_left _ hu⟩
  safe := by
    apply h.safe.concat
    · rintro i b rfl
      simp at he
    · rintro i b rfl
      simp at he

/-- A reader claims the chunk at the tail. -/
theorem Ledger.take {tr : List (T × Mark)} {q : Stream} {C W : Set ℕ} {t : T} {s : PipeInode}
    {n : ℕ} (h : Ledger tr q C W) (hn : q.taken + n ≤ q.published)
    (hclear : ∀ i ∈ W, q.taken + n ≤ i) (hpage : s.page = q.pipe.page)
    (hc : Counts { q with pipe := s, taken := q.taken + n }) :
    Ledger (tr ++ [(t, .took q.taken n)]) { q with pipe := s, taken := q.taken + n }
      (C ∪ Set.Ico q.taken (q.taken + n)) W where
  counts := hc
  uncopied_lt := by
    rintro i (hi | hi)
    · have := h.uncopied_lt i hi
      change i < q.taken + n
      omega
    · exact hi.2
  unstored_lt := h.unstored_lt
  unstored_ge := hclear
  apart := by
    rintro i (hi | hi) j hj
    · exact h.apart i hi j hj
    · have := hclear j hj
      have := h.unstored_lt j hj
      have := h.counts.room
      have := hi.1
      have := hi.2
      omega
  took := by
    intro u i k hm
    rcases List.mem_append.mp hm with hm | hm
    · have := h.took u i k hm
      change i + k ≤ q.taken + n
      omega
    · simp only [List.mem_singleton, Prod.mk.injEq, Mark.took.injEq] at hm
      obtain ⟨-, rfl, rfl⟩ := hm
      exact le_rfl
  kept := by
    intro i hi hcase
    have hbefore : q.taken ≤ i ∨ i ∈ C := by
      rcases hcase with hge | hC | hI
      · exact .inl (by change q.taken + n ≤ i at hge; omega)
      · exact .inr hC
      · exact .inl hI.1
    rcases h.kept i hi hbefore with hw | ⟨u, hu⟩
    · exact .inl hw
    · refine .inr ⟨u, List.mem_append_left _ ?_⟩
      change (u, Mark.stored i (s.page (i % 4096))) ∈ tr
      rw [hpage]
      exact hu
  delivered := by
    intro i hi
    change i < q.taken + n at hi
    by_cases hlt : i < q.taken
    · rcases h.delivered i hlt with hw | ⟨u, b, hu⟩
      · exact .inl (.inl hw)
      · exact .inr ⟨u, b, List.mem_append_left _ hu⟩
    · exact .inl (.inr ⟨by omega, hi⟩)
  safe := by
    apply h.safe.concat
    · rintro i b ⟨⟩
    · rintro i b ⟨⟩

/-- A writer claims the free cells before the head. -/
theorem Ledger.publish {tr : List (T × Mark)} {q : Stream} {C W : Set ℕ} {t : T} {s : PipeInode}
    {n : ℕ} (h : Ledger tr q C W)
    (hclear : ∀ i ∈ C, ∀ j, q.published ≤ j → j < q.published + n → i % 4096 ≠ j % 4096)
    (hpage : s.page = q.pipe.page)
    (hc : Counts { q with pipe := s, published := q.published + n }) :
    Ledger (tr ++ [(t, .quiet)]) { q with pipe := s, published := q.published + n }
      C (W ∪ Set.Ico q.published (q.published + n)) where
  counts := hc
  uncopied_lt := h.uncopied_lt
  unstored_lt := by
    rintro i (hi | hi)
    · have := h.unstored_lt i hi
      change i < q.published + n
      omega
    · exact hi.2
  unstored_ge := by
    rintro i (hi | hi)
    · exact h.unstored_ge i hi
    · exact h.counts.taken_le.trans hi.1
  apart := by
    rintro i hi j (hj | hj)
    · exact h.apart i hi j hj
    · exact hclear i hi j hj.1 hj.2
  took := by
    intro u i k hm
    rcases List.mem_append.mp hm with hm | hm
    · exact h.took u i k hm
    · simp at hm
  kept := by
    intro i hi hcase
    change i < q.published + n at hi
    by_cases hlt : i < q.published
    · rcases h.kept i hlt hcase with hw | ⟨u, hu⟩
      · exact .inl (.inl hw)
      · refine .inr ⟨u, List.mem_append_left _ ?_⟩
        change (u, Mark.stored i (s.page (i % 4096))) ∈ tr
        rw [hpage]
        exact hu
    · exact .inl (.inr ⟨by omega, hi⟩)
  delivered := by
    intro i hi
    rcases h.delivered i hi with hw | ⟨u, b, hu⟩
    · exact .inl hw
    · exact .inr ⟨u, b, List.mem_append_left _ hu⟩
  safe := by
    apply h.safe.concat
    · rintro i b ⟨⟩
    · rintro i b ⟨⟩

/-- A reader hands over the byte it had loaded. -/
theorem Ledger.copy {tr : List (T × Mark)} {q : Stream} {C C' W : Set ℕ} {t : T} {i : ℕ}
    {b : UInt8} (h : Ledger tr q C W) (hstored : ∃ u, (u, .stored i b) ∈ tr)
    (hsub : C' ⊆ C) (hrest : ∀ k ∈ C, k ≠ i → k ∈ C') :
    Ledger (tr ++ [(t, .copied i b)]) q C' W where
  counts := h.counts
  uncopied_lt k hk := h.uncopied_lt k (hsub hk)
  unstored_lt := h.unstored_lt
  unstored_ge := h.unstored_ge
  apart k hk := h.apart k (hsub hk)
  took := by
    intro u k n hm
    rcases List.mem_append.mp hm with hm | hm
    · exact h.took u k n hm
    · simp at hm
  kept := by
    intro k hk hcase
    rcases h.kept k hk (hcase.imp_right fun hC => hsub hC) with hw | ⟨u, hu⟩
    · exact .inl hw
    · exact .inr ⟨u, List.mem_append_left _ hu⟩
  delivered := by
    intro k hk
    rcases h.delivered k hk with hC | ⟨u, c, hu⟩
    · by_cases hki : k = i
      · subst hki
        exact .inr ⟨t, b, by simp⟩
      · exact .inl (hrest k hC hki)
    · exact .inr ⟨u, c, List.mem_append_left _ hu⟩
  safe := by
    apply h.safe.concat
    · rintro k c ⟨⟩
      exact hstored
    · rintro k c ⟨⟩

/-- A writer stores the byte at `j`: every byte that had lain in this cell was copied out. -/
theorem Ledger.store {tr : List (T × Mark)} {q : Stream} {C W W' : Set ℕ} {t : T} {j : ℕ}
    {b : UInt8} {s : PipeInode} (h : Ledger tr q C W) (hj : j ∈ W) (hsub : W' ⊆ W)
    (hrest : ∀ k ∈ W, k ≠ j → k ∈ W') (hzones : s.head = q.pipe.head ∧ s.tail = q.pipe.tail)
    (hpage : s.page = Function.update q.pipe.page (j % 4096) b) :
    Ledger (tr ++ [(t, .stored j b)]) { q with pipe := s } C W' where
  counts := ⟨hzones.1.trans h.counts.head, hzones.2.trans h.counts.tail, h.counts.taken_le,
    h.counts.room⟩
  uncopied_lt := h.uncopied_lt
  unstored_lt k hk := h.unstored_lt k (hsub hk)
  unstored_ge k hk := h.unstored_ge k (hsub hk)
  apart i hi k hk := h.apart i hi k (hsub hk)
  took := by
    intro u k n hm
    rcases List.mem_append.mp hm with hm | hm
    · exact h.took u k n hm
    · simp at hm
  kept := by
    intro k hk hcase
    change k < q.published at hk
    by_cases hkj : k = j
    · subst hkj
      refine .inr ⟨t, ?_⟩
      change (t, Mark.stored k (s.page (k % 4096))) ∈ _
      simp [hpage]
    · -- another position of the same cell would be a page away
      have hcell : k % 4096 ≠ j % 4096 := by
        have := h.unstored_lt j hj
        have := h.unstored_ge j hj
        have := h.counts.room
        rcases hcase with hge | hC
        · change q.taken ≤ k at hge
          omega
        · exact h.apart k hC j hj
      rcases h.kept k hk hcase with hw | ⟨u, hu⟩
      · exact .inl (hrest k hw hkj)
      · refine .inr ⟨u, List.mem_append_left _ ?_⟩
        change (u, Mark.stored k (s.page (k % 4096))) ∈ tr
        rw [hpage, Function.update_of_ne hcell]
        exact hu
  delivered := by
    intro k hk
    rcases h.delivered k hk with hC | ⟨u, c, hu⟩
    · exact .inl hC
    · exact .inr ⟨u, c, List.mem_append_left _ hu⟩
  safe := by
    apply h.safe.concat
    · rintro k c ⟨⟩
    · rintro k c ⟨⟩ u i n l hm hl hcell
      have hlt : l < q.taken := lt_of_lt_of_le hl.2 (h.took u i n hm)
      rcases h.delivered l hlt with hC | hdone
      · exact absurd hcell (h.apart l hC j hj)
      · exact hdone

/-- A line outside the copy loops owes nothing. -/
structure Resting (f : Spot) : Prop where
  uncopied : uncopied f = ∅
  unstored : unstored f = ∅
  fits : ∀ q, Fits q f
  loaded : ∀ tr : List (T × Mark), Loaded tr f

/-- The line a task stands at when a block is over. -/
def after : Exit → Spot
  | .goto f | .sleep f => f
  | .call g _ => g
  | .ret _ | .panic => .line .user 0

theorem next_top {τ τ' : Task Spot Unit} {c : Exit} (h : τ.next machine c = some τ') :
    τ'.top = after c := by
  cases c with
  | goto f | sleep f | call g k =>
    simp only [Task.next, Option.some.injEq] at h
    subst h
    rfl
  | ret v =>
    simp only [Task.next] at h
    split at h
    · exact absurd h (by simp)
    · simp only [Option.some.injEq] at h
      subst h
      rfl
  | panic => simp [Task.next] at h

theorem resting_line {f : Frame} (i : ℕ) (h : copying f = false) :
    Resting (T := T) (.line f i) := by
  cases f <;>
    first
    | exact ⟨rfl, rfl, fun _ => trivial, fun _ => trivial⟩
    | simp [copying] at h

/-- Outside its copy loop `read_pipe` only looks at the pipe, or takes a chunk. -/
theorem readPipe_line {s s' : PipeInode} {f : Frame} {e : Event} {c : Pipe.Exit}
    (hf : moving f = false) (h : readPipe s f = some (e, s', c)) :
    (chars c = 0 ∧ s' = s ∧ copying (PipeFifo.after c) = false ∧ ∀ i, uncopied (.line f i) = ∅) ∨
    ∃ count read buf, f = .readEmpty count read buf ∧ chars c = chunk s.tail count (pipeSize s) ∧
      s' = { s with tail := advance s.tail (chars c) } ∧
      c = .goto (.readCopy (count - chars c) (read + chars c) buf s.tail (chars c)) := by
  cases f with
  | readTest count read buf =>
    simp only [readPipe] at h
    split_ifs at h <;> cases h
    · exact .inl ⟨rfl, rfl, rfl, fun _ => rfl⟩
    · exact .inl ⟨rfl, rfl, rfl, fun _ => rfl⟩
  | readEmpty count read buf =>
    simp only [readPipe] at h
    split_ifs at h <;> cases h
    · exact .inl ⟨rfl, rfl, rfl, fun _ => rfl⟩
    · exact .inl ⟨rfl, rfl, rfl, fun _ => rfl⟩
    · exact .inr ⟨count, read, buf, rfl, rfl, rfl, rfl⟩
  | readCopy count read buf size n =>
    cases n with
    | zero =>
      cases h
      exact .inl ⟨rfl, rfl, rfl, fun i => Set.Ico_self i⟩
    | succ n => simp [moving] at hf
  | user | writeTest | writeFull | writeCopy => simp [readPipe] at h

theorem writePipe_line {s s' : PipeInode} {f : Frame} {e : Event} {c : Pipe.Exit}
    (hf : moving f = false) (h : writePipe s f = some (e, s', c)) :
    (chars c = 0 ∧ s' = s ∧ copying (PipeFifo.after c) = false ∧ ∀ i, unstored (.line f i) = ∅) ∨
    ∃ src count written buf, f = .writeFull src count written buf ∧
      chars c = chunk s.head count (PAGE_SIZE - 1 - pipeSize s) ∧
      s' = { s with head := advance s.head (chars c) } ∧
      c = .goto (.writeCopy src (count - chars c) (written + chars c) buf s.head (chars c)) := by
  cases f with
  | writeTest src count written buf =>
    simp only [writePipe] at h
    split_ifs at h <;> cases h
    · exact .inl ⟨rfl, rfl, rfl, fun _ => rfl⟩
    · exact .inl ⟨rfl, rfl, rfl, fun _ => rfl⟩
  | writeFull src count written buf =>
    simp only [writePipe] at h
    split_ifs at h <;> cases h
    · exact .inl ⟨rfl, rfl, rfl, fun _ => rfl⟩
    · exact .inl ⟨rfl, rfl, rfl, fun _ => rfl⟩
    · exact .inl ⟨rfl, rfl, rfl, fun _ => rfl⟩
    · exact .inr ⟨src, count, written, buf, rfl, rfl, rfl, rfl⟩
  | writeCopy src count written buf size n =>
    cases n with
    | zero =>
      cases h
      exact .inl ⟨rfl, rfl, rfl, fun i => Set.Ico_self i⟩
    | succ n => simp [moving] at hf
  | user | readTest | readEmpty | readCopy => simp [writePipe] at h

theorem after_lift {c : Pipe.Exit} (i : ℕ) (h : copying (PipeFifo.after c) = false) :
    Resting (T := T) (after (lift i c)) := by
  cases c with
  | goto f | sleep f => exact resting_line i h
  | call g k => exact resting_line i h
  | ret v => exact resting_line 0 rfl
  | panic => exact resting_line 0 rfl

theorem Fits.mono {q q' : Stream} {f : Spot} (h : Fits q f) (ht : q.taken ≤ q'.taken)
    (hp : q.published ≤ q'.published) : Fits q' f := by
  cases f with
  | line f i =>
    cases f with
    | readCopy count read buf size n => exact ⟨h.1, h.2.1, h.2.2.trans ht⟩
    | writeCopy src count written buf size n => exact ⟨h.1, h.2.1, h.2.2.trans hp⟩
    | user | readTest | readEmpty | writeTest | writeFull => trivial
  | putByte count read buf size n i b => exact ⟨h.1, h.2.1, h.2.2.trans ht⟩

theorem Loaded.mono {tr : List (T × Mark)} {f : Spot} (x : T × Mark) (h : Loaded tr f) :
    Loaded (tr ++ [x]) f := by
  cases f with
  | line f i => trivial
  | putByte count read buf size n i b => exact h.imp fun u hu => List.mem_append_left _ hu

theorem Ledger.recount {tr : List (T × Mark)} {q : Stream} {C W : Set ℕ} (h : Ledger tr q C W)
    (count : ℕ) : Ledger tr { q with pipe := { q.pipe with count := count } } C W where
  counts := ⟨h.counts.head, h.counts.tail, h.counts.taken_le, h.counts.room⟩
  uncopied_lt := h.uncopied_lt
  unstored_lt := h.unstored_lt
  unstored_ge := h.unstored_ge
  apart := h.apart
  took := h.took
  kept := h.kept
  delivered := h.delivered
  safe := h.safe

theorem pending_initial (P : Spot → Set ℕ) (hP : P (.line .user 0) = ∅) (page : ℕ → UInt8) :
    pending P (initial T page).task = ∅ := by
  ext i
  refine ⟨?_, fun h => absurd h (Set.notMem_empty i)⟩
  rintro ⟨t, hi⟩
  change i ∈ P (.line .user 0) at hi
  rwa [hP] at hi

structure Inv (tr : List (T × Mark)) (σ : Sys T Stream Spot Unit) : Prop where
  ledger : Ledger tr σ.shared (pending uncopied σ.task) (pending unstored σ.task)
  fits : ∀ t, Fits σ.shared (σ.task t).top
  loaded : ∀ t, Loaded tr (σ.task t).top

theorem inv_initial (page : ℕ → UInt8) : Inv [] (initial T page) := by
  refine ⟨?_, fun t => trivial, fun t => trivial⟩
  rw [pending_initial uncopied rfl, pending_initial unstored rfl]
  refine ⟨⟨rfl, rfl, le_rfl, Nat.zero_le _⟩, ?_, ?_, ?_, ?_, ?_, ?_, ?_, ?_⟩
  · rintro i ⟨⟩
  · rintro i ⟨⟩
  · rintro i ⟨⟩
  · rintro i ⟨⟩
  · rintro u i n ⟨⟩
  · intro i hi
    exact absurd hi (Nat.not_lt_zero i)
  · intro i hi
    exact absurd hi (Nat.not_lt_zero i)
  · constructor
    · intro pre post t i b h
      simp at h
    · intro pre post t j b h
      simp at h

section Undisturbed
variable {σ : Sys T Stream Spot Unit} {t : T}

theorem apart_none (h : σ.running = none) : Apart σ := by
  intro t ht
  rw [h] at ht
  exact absurd ht (by simp)

/-- A line that claims no chunk is in nobody's way. -/
theorem apart_line (h : σ.running = some t) (hk : takes σ.shared.pipe (σ.task t).top = 0)
    (hp : publishes σ.shared.pipe (σ.task t).top = 0) : Apart σ := by
  intro u hu
  obtain rfl : t = u := Option.some.inj (h.symm.trans hu)
  constructor
  · intro i _ hi
    rwa [hk, Nat.add_zero]
  · intro i _ j hj hlt
    rw [hp] at hlt
    omega

/-- Nor is any line when no task is inside a copy loop. -/
theorem apart_settled (h : ∀ u, uncopied (σ.task u).top = ∅ ∧ unstored (σ.task u).top = ∅) :
    Apart σ := by
  intro t _
  constructor
  · rintro i ⟨u, hu⟩
    rw [(h u).2] at hu
    exact absurd hu (Set.notMem_empty i)
  · rintro i ⟨u, hu⟩
    rw [(h u).1] at hu
    exact absurd hu (Set.notMem_empty i)

end Undisturbed

variable [DecidableEq T]

section Pending
variable {P : Spot → Set ℕ} {task : T → Task Spot Unit} {t : T} {τ : Task Spot Unit}

theorem mem_pending_update (i : ℕ) :
    i ∈ pending P (Function.update task t τ) ↔
      i ∈ P τ.top ∨ ∃ u, u ≠ t ∧ i ∈ P (task u).top := by
  constructor
  · rintro ⟨u, hu⟩
    by_cases hut : u = t
    · subst hut
      rw [Function.update_self] at hu
      exact .inl hu
    · rw [Function.update_of_ne hut] at hu
      exact .inr ⟨u, hut, hu⟩
  · rintro (h | ⟨u, hut, hu⟩)
    · exact ⟨t, by rwa [Function.update_self]⟩
    · exact ⟨u, by rwa [Function.update_of_ne hut]⟩

theorem mem_pending (i : ℕ) :
    i ∈ pending P task ↔ i ∈ P (task t).top ∨ ∃ u, u ≠ t ∧ i ∈ P (task u).top := by
  have h : i ∈ pending P (Function.update task t (task t)) ↔ _ := mem_pending_update i
  rwa [Function.update_eq_self] at h

theorem pending_same (h : P τ.top = P (task t).top) :
    pending P (Function.update task t τ) = pending P task := by
  ext i
  rw [mem_pending_update, mem_pending (t := t), h]

theorem pending_grow (h : P (task t).top = ∅) :
    pending P (Function.update task t τ) = pending P task ∪ P τ.top := by
  ext i
  rw [Set.mem_union, mem_pending_update, mem_pending (t := t), h]
  simp only [Set.mem_empty_iff_false, false_or]
  exact or_comm

theorem pending_mono (h : P τ.top ⊆ P (task t).top) :
    pending P (Function.update task t τ) ⊆ pending P task := by
  intro i hi
  rw [mem_pending_update] at hi
  rw [mem_pending (t := t)]
  exact hi.imp_left fun hm => h hm

theorem pending_rest {k : ℕ} (h : ∀ i ∈ P (task t).top, i ≠ k → i ∈ P τ.top) :
    ∀ i ∈ pending P task, i ≠ k → i ∈ pending P (Function.update task t τ) := by
  intro i hi hik
  rw [mem_pending (t := t)] at hi
  rw [mem_pending_update]
  exact hi.imp_left fun hm => h i hm hik

end Pending

/-- What one block preserves, told of the task that runs. -/
structure Kept (tr : List (T × Mark)) (q' : Stream) (task' : T → Task Spot Unit) (f' : Spot) :
    Prop where
  ledger : Ledger tr q' (pending uncopied task') (pending unstored task')
  fits : Fits q' f'
  loaded : Loaded tr f'

section Steps
variable {tr : List (T × Mark)} {q : Stream} {task : T → Task Spot Unit} {t : T} {f : Spot}
  {m : Mark} {τ : Task Spot Unit}

/-- A block after which the task owes what it owed before. -/
theorem kept_same (h : Ledger tr q (pending uncopied task) (pending unstored task))
    (hm : m = .quiet ∨ m = .took q.taken 0) (hc : uncopied τ.top = uncopied (task t).top)
    (hw : unstored τ.top = unstored (task t).top) (hf : Fits q τ.top)
    (hl : Loaded tr τ.top) :
    Kept (tr ++ [(t, m)]) q (Function.update task t τ) τ.top := by
  refine ⟨?_, hf, hl.mono _⟩
  rw [pending_same hc, pending_same hw]
  exact h.rest hm

theorem kept_reading {q : Stream} {g : Frame} {s' : PipeInode} {e : Event} {c : Pipe.Exit} {i : ℕ}
    (h : Ledger tr q (pending uncopied task) (pending unstored task))
    (ht : (task t).top = .line g i) (hclear : Clear q task (.line g i)) (hg : moving g = false)
    (hr : readPipe q.pipe g = some (e, s', c)) (hτ : τ.top = after (lift q.taken c)) :
    Kept (tr ++ [(t, .took q.taken (chars c))])
      { q with pipe := s', taken := q.taken + chars c } (Function.update task t τ) τ.top := by
  rcases readPipe_line hg hr with ⟨hn, rfl, hrest, hidle⟩ | ⟨count, read, buf, rfl, hn, rfl, hc⟩
  · have hafter := after_lift (T := T) q.taken hrest
    rw [← hτ] at hafter
    rw [hn]
    apply kept_same h (.inr rfl)
    · rw [hafter.uncopied, ht, hidle]
    · rw [hafter.unstored, ht]
      cases g <;> first | rfl | simp [readPipe] at hr
    · exact hafter.fits _
    · exact hafter.loaded _
  · have hle := chunk_le q.pipe.tail count (pipeSize q.pipe)
    have hpage := chunk_page q.pipe.tail count (pipeSize q.pipe) h.counts.zones.tail_lt
    have htake := hclear.taking
    simp only [takes] at htake
    rw [← hn] at hle hpage htake
    rw [h.counts.size] at hle
    have hle' := h.counts.taken_le
    have htop : τ.top = .line (.readCopy (count - chars c) (read + chars c) buf q.pipe.tail
        (chars c)) q.taken := by
      rw [hτ]
      conv_lhs => rw [hc]
      rfl
    generalize chars c = n at *
    have hcounts : Counts
        { q with pipe := { q.pipe with tail := advance q.pipe.tail n }, taken := q.taken + n } := by
      refine ⟨h.counts.head, ?_, by change q.taken + n ≤ q.published; omega, ?_⟩
      · change advance q.pipe.tail n = (q.taken + n) % 4096
        rw [advance_eq, h.counts.tail]
        omega
      · have := h.counts.room
        change q.published ≤ q.taken + n + 4095
        omega
    refine ⟨?_, ?_, ?_⟩
    · rw [pending_grow (P := uncopied) (by rw [ht]; rfl),
        pending_same (P := unstored) (by rw [htop, ht]; rfl), htop]
      apply h.take (by omega)
      · intro j hj
        exact htake j hj (h.unstored_ge j hj)
      · rfl
      · exact hcounts
    · rw [htop]
      refine ⟨hpage, ?_, le_rfl⟩
      rw [h.counts.tail]
      omega
    · rw [htop]
      trivial

theorem kept_writing {q : Stream} {g : Frame} {s' : PipeInode} {e : Event} {c : Pipe.Exit} {i : ℕ}
    (h : Ledger tr q (pending uncopied task) (pending unstored task))
    (ht : (task t).top = .line g i) (hclear : Clear q task (.line g i)) (hg : moving g = false)
    (hr : writePipe q.pipe g = some (e, s', c)) (hτ : τ.top = after (lift q.published c)) :
    Kept (tr ++ [(t, .quiet)])
      { q with pipe := s', published := q.published + chars c } (Function.update task t τ)
      τ.top := by
  rcases writePipe_line hg hr with
    ⟨hn, rfl, hrest, hidle⟩ | ⟨src, count, written, buf, rfl, hn, rfl, hc⟩
  · have hafter := after_lift (T := T) q.published hrest
    rw [← hτ] at hafter
    rw [hn]
    apply kept_same h (.inl rfl)
    · rw [hafter.uncopied, ht]
      cases g <;> first | rfl | simp [writePipe] at hr
    · rw [hafter.unstored, ht, hidle]
    · exact hafter.fits _
    · exact hafter.loaded _
  · have hle := chunk_le q.pipe.head count (PAGE_SIZE - 1 - pipeSize q.pipe)
    have hpage := chunk_page q.pipe.head count (PAGE_SIZE - 1 - pipeSize q.pipe)
      h.counts.zones.head_lt
    have hclaim := hclear.claiming
    simp only [publishes] at hclaim
    rw [← hn] at hle hpage hclaim
    rw [h.counts.size] at hle
    have hle' := h.counts.taken_le
    have htop : τ.top = .line (.writeCopy src (count - chars c) (written + chars c) buf
        q.pipe.head (chars c)) q.published := by
      rw [hτ]
      conv_lhs => rw [hc]
      rfl
    have hroom := h.counts.room
    simp only [PAGE_SIZE] at hle
    generalize chars c = n at *
    have hcounts : Counts { q with
        pipe := { q.pipe with head := advance q.pipe.head n }, published := q.published + n } := by
      refine ⟨?_, h.counts.tail, by change q.taken ≤ q.published + n; omega, ?_⟩
      · change advance q.pipe.head n = (q.published + n) % 4096
        rw [advance_eq, h.counts.head]
        omega
      · change q.published + n ≤ q.taken + 4095
        omega
    refine ⟨?_, ?_, ?_⟩
    · rw [pending_grow (P := unstored) (by rw [ht]; rfl),
        pending_same (P := uncopied) (by rw [htop, ht]; rfl), htop]
      apply h.publish
      · intro j hj k hk hlt
        exact hclaim j hj k hk hlt
      · rfl
      · exact hcounts
    · rw [htop]
      refine ⟨hpage, ?_, le_rfl⟩
      rw [h.counts.head]
      omega
    · rw [htop]
      trivial

theorem block_kept {q' : Stream} {c : Exit}
    (h : Ledger tr q (pending uncopied task) (pending unstored task)) (hf : Fits q f)
    (hl : Loaded tr f) (ht : (task t).top = f) (hclear : Clear q task f)
    (hb : Block f q m q' c) (hτ : τ.top = after c) :
    Kept (tr ++ [(t, m)]) q' (Function.update task t τ) τ.top := by
  cases hb with
  | yield _ i =>
    exact kept_same h (.inl rfl) (by rw [hτ, ht]; rfl) (by rw [hτ, ht]; rfl)
      (by rw [hτ]; trivial) (by rw [hτ]; trivial)
  | read _ i count =>
    exact kept_same h (.inl rfl) (by rw [hτ, ht]; rfl) (by rw [hτ, ht]; rfl)
      (by rw [hτ]; trivial) (by rw [hτ]; trivial)
  | write _ i src count =>
    exact kept_same h (.inl rfl) (by rw [hτ, ht]; rfl) (by rw [hτ, ht]; rfl)
      (by rw [hτ]; trivial) (by rw [hτ]; trivial)
  | reading i hg hr => exact kept_reading h ht hclear hg hr hτ
  | writing i hg hr => exact kept_writing h ht hclear hg hr hτ
  | load _ count read buf size n i =>
    -- the byte loaded is the one stored there, for no writer has still to store at `i`
    obtain ⟨hsize, hi, hlt⟩ := hf
    have hmod : size % 4096 = size := Nat.mod_eq_of_lt (by omega)
    have hmem : i ∈ pending uncopied task := by
      refine ⟨t, ?_⟩
      rw [ht]
      exact ⟨le_rfl, by omega⟩
    have hstored : ∃ u, (u, Mark.stored i (q.pipe.page size)) ∈ tr := by
      have hpub := h.counts.taken_le
      rcases h.kept i (by omega) (.inr hmem) with hw | hu
      · exact absurd rfl (h.apart i hmem i hw)
      · rwa [hi, hmod] at hu
    apply kept_same h (.inl rfl)
    · rw [hτ, ht]
      rfl
    · rw [hτ, ht]
      rfl
    · rw [hτ]
      exact ⟨hsize, hi.trans hmod, hlt⟩
    · rw [hτ]
      exact hstored
  | putFault _ count read buf size n i b =>
    exact kept_same h (.inl rfl) (by rw [hτ, ht]; rfl) (by rw [hτ, ht]; rfl)
      (by rw [hτ]; exact hf) (by rw [hτ]; exact hl)
  | getFault _ src count written buf size n i =>
    exact kept_same h (.inl rfl) (by rw [hτ, ht]; rfl) (by rw [hτ, ht]; rfl)
      (by rw [hτ]; exact hf) (by rw [hτ]; trivial)
  | put _ count read buf size n i b =>
    obtain ⟨hsize, hi, hlt⟩ := hf
    refine ⟨?_, ?_, ?_⟩
    · rw [pending_same (P := unstored) (by rw [hτ, ht]; rfl)]
      apply h.copy hl
      · apply pending_mono
        rw [hτ, ht]
        intro k hk
        exact ⟨(Nat.le_succ i).trans hk.1, by have := hk.2; omega⟩
      · apply pending_rest
        rw [hτ, ht]
        intro k hk hki
        exact ⟨by have := hk.1; omega, by have := hk.2; omega⟩
    · rw [hτ]
      exact ⟨by omega, by omega, by omega⟩
    · rw [hτ]
      trivial
  | get hw =>
    rename_i src count written buf size n i e s' g
    obtain ⟨hsize, hi, hlt⟩ := hf
    have hmod : size % 4096 = size := Nat.mod_eq_of_lt (by omega)
    cases hw
    refine ⟨?_, ?_, ?_⟩
    · rw [pending_same (P := uncopied) (by rw [hτ, ht]; rfl)]
      apply h.store (j := i)
      · refine ⟨t, ?_⟩
        rw [ht]
        exact ⟨le_rfl, by omega⟩
      · apply pending_mono
        rw [hτ, ht]
        intro k hk
        exact ⟨(Nat.le_succ i).trans hk.1, by have := hk.2; omega⟩
      · apply pending_rest
        rw [hτ, ht]
        intro k hk hki
        exact ⟨by have := hk.1; omega, by have := hk.2; omega⟩
      · exact ⟨rfl, rfl⟩
      · rw [hi, hmod]
    · rw [hτ]
      exact ⟨by omega, by omega, by change i + 1 + n ≤ q.published; omega⟩
    · rw [hτ]
      trivial

theorem Block.counts_le {q' : Stream} {c : Exit} (hb : Block f q m q' c) :
    q.taken ≤ q'.taken ∧ q.published ≤ q'.published := by
  cases hb <;> first | exact ⟨le_rfl, le_rfl⟩ | exact ⟨Nat.le_add_right _ _, le_rfl⟩ |
    exact ⟨le_rfl, Nat.le_add_right _ _⟩

end Steps

theorem Inv.step {tr : List (T × Mark)} {σ σ' : Sys T Stream Spot Unit} {l : Option (T × Mark)}
    (hp : Apart σ) (h : Inv tr σ) (hs : Step machine σ l σ') : Inv (tr ++ l.toList) σ' := by
  cases hs with
  | dispatch t hr =>
    rw [Option.toList_none, List.append_nil]
    exact ⟨h.ledger, h.fits, h.loaded⟩
  | interrupt s hi =>
    obtain ⟨count, rfl⟩ := hi
    rw [Option.toList_none, List.append_nil]
    refine ⟨h.ledger.recount count, ?_, h.loaded⟩
    intro t
    exact (h.fits t).mono le_rfl le_rfl
  | exec t m s c τ hr hb hn =>
    have hk := block_kept h.ledger (h.fits t) (h.loaded t) rfl (hp t hr) hb
      (next_top hn)
    have hle := hb.counts_le
    refine ⟨hk.ledger, ?_, ?_⟩
    · intro u
      change Fits s (Function.update σ.task t τ u).top
      by_cases hut : u = t
      · subst hut
        rw [Function.update_self]
        exact hk.fits
      · rw [Function.update_of_ne hut]
        exact (h.fits u).mono hle.1 hle.2
    · intro u
      change Loaded (tr ++ [(t, m)]) (Function.update σ.task t τ u).top
      by_cases hut : u = t
      · subst hut
        rw [Function.update_self]
        exact hk.loaded
      · rw [Function.update_of_ne hut]
        exact (h.loaded u).mono _

/-- As long as no reader takes a byte still to be stored, and no writer claims a cell still to
    be copied out, the copies are right, however many faults come between. -/
theorem faulting_copies_safe (page : ℕ → UInt8) (tr : List (T × Mark))
    (σ : Sys T Stream Spot Unit) (h : RunIn machine Apart (initial T page) tr σ) :
    CopiesSafe tr :=
  (h.invariant Inv (inv_initial page) fun _ _ _ _ hp hi hs => hi.step hp hs).ledger.safe

/-- Task 0 stores the byte 7 and task 1 reads it, each with a fault during which the other
    runs. -/
theorem faulting_copies_safe_byte :
    ∃ (tr : List (Fin 2 × Mark)) (σ : Sys (Fin 2) Stream Spot Unit),
      RunIn machine Apart (initial (Fin 2) fun _ => 0) tr σ ∧ (1, .copied 0 7) ∈ tr ∧
        CopiesSafe tr := by
  obtain ⟨tr, σ, h, hm⟩ : ∃ (tr : List (Fin 2 × Mark)) (σ : Sys (Fin 2) Stream Spot Unit),
      RunIn machine Apart (initial (Fin 2) fun _ => 0) tr σ ∧ (1, .copied 0 7) ∈ tr := by
    have h := RunIn.start (M := machine) (P := Apart)
      (apart_none (σ := initial (Fin 2) fun _ => 0) rfl)
    have h := h.step (.dispatch _ 0 rfl) (apart_line rfl rfl rfl)
    have h := h.step (.exec _ 0 _ _ _ _ rfl (.write _ _ (fun _ => 7) 1) rfl)
      (apart_line rfl rfl rfl)
    have h := h.step (.exec _ 0 _ _ _ _ rfl (.writing _ rfl rfl) rfl)
      (apart_settled fun u => by fin_cases u <;> exact ⟨rfl, rfl⟩)
    have h := h.step (.exec _ 0 _ _ _ _ rfl (.writing _ rfl rfl) rfl) (apart_line rfl rfl rfl)
    have h := h.step (.exec _ 0 _ _ _ _ rfl (.getFault _ _ _ _ _ _ _ _) rfl) (apart_none rfl)
    -- task 0 has moved the head and waits for its page
    have h := h.step (.dispatch _ 1 rfl) (apart_line rfl rfl rfl)
    have h := h.step (.exec _ 1 _ _ _ _ rfl (.yield _ _) rfl) (apart_none rfl)
    have h := h.step (.dispatch _ 0 rfl) (apart_line rfl rfl rfl)
    have h := h.step (.exec _ 0 _ _ _ _ rfl (.get rfl) rfl) (apart_line rfl rfl rfl)
    have h := h.step (.exec _ 0 _ _ _ _ rfl (.writing _ rfl rfl) rfl) (apart_line rfl rfl rfl)
    have h := h.step (.exec _ 0 _ _ _ _ rfl (.writing _ rfl rfl) rfl) (apart_line rfl rfl rfl)
    have h := h.step (.exec _ 0 _ _ _ _ rfl (.yield _ _) rfl) (apart_none rfl)
    have h := h.step (.dispatch _ 1 rfl) (apart_line rfl rfl rfl)
    have h := h.step (.exec _ 1 _ _ _ _ rfl (.read _ _ 1) rfl) (apart_line rfl rfl rfl)
    have h := h.step (.exec _ 1 _ _ _ _ rfl (.reading _ rfl rfl) rfl)
      (apart_settled fun u => by fin_cases u <;> exact ⟨rfl, rfl⟩)
    have h := h.step (.exec _ 1 _ _ _ _ rfl (.reading _ rfl rfl) rfl) (apart_line rfl rfl rfl)
    have h := h.step (.exec _ 1 _ _ _ _ rfl (.load _ _ _ _ _ _ _) rfl) (apart_line rfl rfl rfl)
    have h := h.step (.exec _ 1 _ _ _ _ rfl (.putFault _ _ _ _ _ _ _ _) rfl) (apart_none rfl)
    -- task 1 has moved the tail and waits for its page
    have h := h.step (.dispatch _ 0 rfl) (apart_line rfl rfl rfl)
    have h := h.step (.exec _ 0 _ _ _ _ rfl (.yield _ _) rfl) (apart_none rfl)
    have h := h.step (.dispatch _ 1 rfl) (apart_line rfl rfl rfl)
    have h := h.step (.exec _ 1 _ _ _ _ rfl (.put _ _ _ _ _ _ _ _) rfl) (apart_line rfl rfl rfl)
    exact ⟨_, _, h, List.mem_append_right _ (List.mem_singleton.mpr rfl)⟩
  exact ⟨tr, σ, h, hm, faulting_copies_safe _ tr σ h⟩

/-- A writer has moved the head and faults on its first byte; the reader that runs then copies
    out what the page happened to hold. -/
theorem faulting_copies_unsafe :
    ∃ (tr : List (Fin 2 × Mark)) (σ : Sys (Fin 2) Stream Spot Unit),
      Run machine (initial (Fin 2) fun _ => 0) tr σ ∧ ¬ CopiesSafe tr := by
  have h : Run machine (initial (Fin 2) fun _ => 0) [] _ := .start
  have h := h.step (.dispatch _ 0 rfl)
  have h := h.step (.exec _ 0 _ _ _ _ rfl (.write _ _ (fun _ => 7) 1) rfl)
  have h := h.step (.exec _ 0 _ _ _ _ rfl (.writing _ rfl rfl) rfl)
  have h := h.step (.exec _ 0 _ _ _ _ rfl (.writing _ rfl rfl) rfl)
  have h := h.step (.exec _ 0 _ _ _ _ rfl (.getFault _ _ _ _ _ _ _ _) rfl)
  have h := h.step (.dispatch _ 1 rfl)
  have h := h.step (.exec _ 1 _ _ _ _ rfl (.read _ _ 1) rfl)
  have h := h.step (.exec _ 1 _ _ _ _ rfl (.reading _ rfl rfl) rfl)
  have h := h.step (.exec _ 1 _ _ _ _ rfl (.reading _ rfl rfl) rfl)
  have h := h.step (.exec _ 1 _ _ _ _ rfl (.load _ _ _ _ _ _ _) rfl)
  have h := h.step (.exec _ 1 _ _ _ _ rfl (.put _ _ _ _ _ _ _ _) rfl)
  refine ⟨_, _, h, fun hsafe => ?_⟩
  obtain ⟨u, hu⟩ := hsafe.copied _ [] _ _ _ rfl
  simp [chars] at hu

end Linux011.PipeFaults
