import Linux011.Pipe
import Linux011.RingBuffer

set_option autoImplicit false

/-! # Every pipe is a queue, whoever reads and writes it and in whatever order -/
namespace Linux011.PipeFifo
open CooperativeTasks RingBuffer Pipe

variable {T : Type}

/-- The bytes accepted by writes, in the order they were stored. -/
def stored (tr : List (T × Event)) : List UInt8 :=
  tr.filterMap fun x => match x.2 with
    | .put _ b => some b
    | _ => none

/-- The bytes returned by reads, in the order they were removed. -/
def removed (tr : List (T × Event)) : List UInt8 :=
  tr.filterMap fun x => match x.2 with
    | .got _ b => some b
    | _ => none

def moved (n : ℕ) : Event → ℕ
  | .enterRead _ | .enterWrite .. => 0
  | .got _ _ | .put _ _ => n + 1
  | _ => n

def given (src : ℕ → UInt8) : Event → ℕ → UInt8
  | .enterWrite src _ => src
  | _ => src

structure Zones (s : PipeInode) : Prop where
  head_lt : s.head < 4096
  tail_lt : s.tail < 4096

theorem pipeSize_lt (s : PipeInode) : pipeSize s < 4096 := by
  unfold pipeSize PAGE_SIZE
  omega

theorem pipeSize_head {s : PipeInode} (h : Zones s) : (s.tail + pipeSize s) % 4096 = s.head := by
  have := h.head_lt
  have := h.tail_lt
  unfold pipeSize PAGE_SIZE
  omega

theorem pipeSize_unique {s : PipeInode} (h : Zones s) {n : ℕ} (hn : n < 4096)
    (he : (s.tail + n) % 4096 = s.head) : pipeSize s = n := by
  have := h.head_lt
  have := h.tail_lt
  unfold pipeSize PAGE_SIZE
  omega

theorem chunk_le (zone : ℕ) (count : ℤ) (size : ℕ) : chunk zone count size ≤ size := by
  simp only [chunk, PAGE_SIZE]
  split_ifs <;> omega

theorem chunk_page (zone : ℕ) (count : ℤ) (size : ℕ) (hz : zone < 4096) :
    zone + chunk zone count size ≤ 4096 := by
  simp only [chunk, PAGE_SIZE]
  split_ifs <;> omega

theorem advance_eq (zone chars : ℕ) :
    advance zone chars = (zone + chars) % 4096 := by
  unfold advance PAGE_SIZE
  omega

/-- What the page holds while the running task stands at a frame: a reader's chunk is still
    in front of the tail, a writer's chunk is not yet behind the head. -/
def Content (tr : List (T × Event)) (s : PipeInode) : Frame → Prop
  | .readCopy _ _ _ size chars =>
    size + chars ≤ 4096 ∧ chars + pipeSize s < 4096 ∧ (size + chars) % 4096 = s.tail ∧
      stored tr = removed tr ++ window 4096 s.page size (chars + pipeSize s)
  | .writeCopy _ _ _ _ size chars =>
    size + chars ≤ 4096 ∧ chars ≤ pipeSize s ∧ (size + chars) % 4096 = s.head ∧
      stored tr = removed tr ++ window 4096 s.page s.tail (pipeSize s - chars)
  | _ => stored tr = removed tr ++ window 4096 s.page s.tail (pipeSize s)

/-- A call's own count and user pointer, against the `n` bytes it has moved of the buffer `p`. -/
def Counted (n : ℕ) (p : ℕ → UInt8) : Frame → Prop
  | .user => True
  | .readTest _ read buf | .readEmpty _ read buf => read = n ∧ buf = n
  | .readCopy _ read buf _ chars => read = n + chars ∧ buf = n
  | .writeTest src _ written buf | .writeFull src _ written buf =>
    written = n ∧ buf = n ∧ src = p
  | .writeCopy src _ written buf _ chars => written = n + chars ∧ buf = n ∧ src = p

/-- The next byte goes to or comes from the next place of the caller's buffer, and the count
    returned is that of the bytes moved. -/
def Placed (n : ℕ) (p : ℕ → UInt8) : Event → Prop
  | .got k _ => k = n
  | .put k b => k = n ∧ b = p k
  | .exitRead m => m = n
  | .exitWrite m => 0 ≤ m → m = n
  | _ => True

def copying : Frame → Bool
  | .readCopy .. | .writeCopy .. => true
  | _ => false

theorem content_idle {tr : List (T × Event)} {s : PipeInode} {f : Frame}
    (h : copying f = false) : Content tr s f ↔ Content tr s .user := by
  cases f <;> simp_all [copying, Content]

/-- The frame a task stands at when a block is over. -/
def after : Exit → Frame
  | .goto f | .sleep f => f
  | .call g _ => g
  | .ret _ | .panic => .user

/-- What one block of either call preserves. -/
structure Kept (t : T) (tr : List (T × Event)) (n : ℕ) (p : ℕ → UInt8) (e : Event)
    (s' : PipeInode) (c : Exit) : Prop where
  zones : Zones s'
  content : Content (tr ++ [(t, e)]) s' (after c)
  asleep : c.sleeps = true → copying (after c) = false
  counted : Counted (moved n e) (given p e) (after c)
  placed : Placed n p e

theorem read_kept {t : T} {tr : List (T × Event)} {n : ℕ} {p : ℕ → UInt8} {f : Frame}
    {s s' : PipeInode} {e : Event} {c : Exit} (hz : Zones s) (hc : Content tr s f)
    (hn : Counted n p f) (h : readPipe s f = some (e, s', c)) : Kept t tr n p e s' c := by
  cases f with
  | readTest count read buf =>
    simp only [readPipe] at h
    split_ifs at h <;> cases h
    · exact ⟨hz, by simpa [Content, after, stored, removed] using hc, by simp [Ctl.sleeps],
        hn, trivial⟩
    · exact ⟨hz, by simpa [Content, after, stored, removed] using hc, by simp [Ctl.sleeps],
        trivial, hn.1⟩
  | readEmpty count read buf =>
    simp only [readPipe] at h
    split_ifs at h with hs hcount <;> cases h
    · exact ⟨hz, by simpa [Content, after, stored, removed] using hc, by simp [Ctl.sleeps],
        trivial, hn.1⟩
    · exact ⟨hz, by simpa [Content, after, stored, removed] using hc, by simp [after, copying],
        hn, trivial⟩
    · have hle := chunk_le s.tail count (pipeSize s)
      have hpage := chunk_page s.tail count (pipeSize s) hz.tail_lt
      have hsize := pipeSize_lt s
      have hhead := pipeSize_head hz
      generalize chunk s.tail count (pipeSize s) = chars at hle hpage
      have hadv := advance_eq s.tail chars
      have hz' : Zones { s with tail := advance s.tail chars } :=
        ⟨hz.head_lt, by rw [hadv]; exact Nat.mod_lt _ (by omega)⟩
      have hrest : pipeSize { s with tail := advance s.tail chars } = pipeSize s - chars := by
        apply pipeSize_unique hz' (by omega)
        change (advance s.tail chars + _) % 4096 = s.head
        rw [hadv]
        omega
      refine ⟨hz', ?_, by simp [Ctl.sleeps], ?_, trivial⟩
      · refine ⟨hpage, by omega, hadv.symm, ?_⟩
        rw [hrest, show chars + (pipeSize s - chars) = pipeSize s by omega]
        simpa [Content, stored, removed] using hc
      · simp only [Counted, after, moved] at hn ⊢
        omega
  | readCopy count read buf size chars =>
    obtain ⟨hpage, hlt, htail, hcont⟩ := hc
    cases chars with
    | zero =>
      cases h
      refine ⟨hz, ?_, by simp [Ctl.sleeps], by simpa [Counted, after, moved] using hn, trivial⟩
      have hw : window 4096 s.page size (pipeSize s) = window 4096 s.page s.tail (pipeSize s) :=
        window_congr _ _ (by have := hz.tail_lt; omega)
      rw [Nat.zero_add, hw] at hcont
      simpa [Content, after, stored, removed] using hcont
    | succ chars =>
      cases h
      refine ⟨hz, ⟨by omega, by omega, by rw [← htail]; congr 1; omega, ?_⟩,
        by simp [Ctl.sleeps], ?_, hn.2⟩
      · rw [show chars + 1 + pipeSize s = chars + pipeSize s + 1 by omega, window_front,
          Nat.mod_eq_of_lt (by omega)] at hcont
        simpa [stored, removed] using hcont
      · simp only [Counted, after, moved] at hn ⊢
        push_cast at hn ⊢
        omega
  | user | writeTest | writeFull | writeCopy => simp [readPipe] at h

theorem write_kept {t : T} {tr : List (T × Event)} {n : ℕ} {p : ℕ → UInt8} {f : Frame}
    {s s' : PipeInode} {e : Event} {c : Exit} (hz : Zones s) (hc : Content tr s f)
    (hn : Counted n p f) (h : writePipe s f = some (e, s', c)) : Kept t tr n p e s' c := by
  cases f with
  | writeTest src count written buf =>
    simp only [writePipe] at h
    split_ifs at h <;> cases h
    · exact ⟨hz, by simpa [Content, after, stored, removed] using hc, by simp [Ctl.sleeps],
        hn, trivial⟩
    · exact ⟨hz, by simpa [Content, after, stored, removed] using hc, by simp [Ctl.sleeps],
        trivial, fun _ => hn.1⟩
  | writeFull src count written buf =>
    simp only [writePipe] at h
    split_ifs at h with hs hcount hwritten <;> cases h
    · exact ⟨hz, by simpa [Content, after, stored, removed] using hc, by simp [Ctl.sleeps],
        trivial, fun _ => hn.1⟩
    · exact ⟨hz, by simpa [Content, after, stored, removed] using hc, by simp [Ctl.sleeps],
        trivial, fun h0 => absurd h0 (by decide)⟩
    · exact ⟨hz, by simpa [Content, after, stored, removed] using hc, by simp [after, copying],
        hn, trivial⟩
    · have hle := chunk_le s.head count (PAGE_SIZE - 1 - pipeSize s)
      have hpage := chunk_page s.head count (PAGE_SIZE - 1 - pipeSize s) hz.head_lt
      have hsize := pipeSize_lt s
      have hhead := pipeSize_head hz
      generalize chunk s.head count (PAGE_SIZE - 1 - pipeSize s) = chars at hle hpage
      simp only [PAGE_SIZE] at hle
      have hadv := advance_eq s.head chars
      have hz' : Zones { s with head := advance s.head chars } :=
        ⟨by rw [hadv]; exact Nat.mod_lt _ (by omega), hz.tail_lt⟩
      have hrest : pipeSize { s with head := advance s.head chars } = pipeSize s + chars := by
        apply pipeSize_unique hz' (by omega)
        change (s.tail + _) % 4096 = advance s.head chars
        rw [hadv]
        omega
      obtain ⟨hwritten, hbuf, hsrc⟩ := hn
      refine ⟨hz', ?_, by simp [Ctl.sleeps], ⟨?_, hbuf, hsrc⟩, trivial⟩
      · refine ⟨hpage, by omega, hadv.symm, ?_⟩
        rw [hrest, show pipeSize s + chars - chars = pipeSize s by omega]
        simpa [Content, stored, removed] using hc
      · simp only [moved]
        omega
  | writeCopy src count written buf size chars =>
    obtain ⟨hpage, hle, hhead, hcont⟩ := hc
    obtain ⟨hwritten, hbuf, hsrc⟩ := hn
    cases chars with
    | zero =>
      cases h
      refine ⟨hz, ?_, by simp [Ctl.sleeps], ⟨by simpa [moved] using hwritten, hbuf, hsrc⟩,
        trivial⟩
      simpa [Content, after, stored, removed] using hcont
    | succ chars =>
      cases h
      have hsize := pipeSize_lt s
      have hat : (s.tail + (pipeSize s - (chars + 1))) % 4096 = size := by
        have := pipeSize_head hz
        omega
      refine ⟨⟨hz.head_lt, hz.tail_lt⟩, ⟨by omega, ?_, by rw [← hhead]; congr 1; omega, ?_⟩,
        by simp [Ctl.sleeps], ⟨?_, by simp [moved, hbuf], hsrc⟩, hbuf, by rw [hsrc]⟩
      · change chars ≤ pipeSize s
        omega
      · change stored (tr ++ [(t, .put buf (src buf))]) = _ ++
          window 4096 (Function.update s.page size (src buf)) s.tail (pipeSize s - chars)
        rw [show pipeSize s - chars = pipeSize s - (chars + 1) + 1 by omega, ← hat,
          window_push _ _ _ _ (by omega), ← List.append_assoc]
        have hput : stored (tr ++ [(t, .put buf (src buf))]) = stored tr ++ [src buf] := by
          simp [stored]
        have hgot : removed (tr ++ [(t, .put buf (src buf))]) = removed tr := by
          simp [removed]
        rw [hput, hgot, ← hcont]
      · simp only [moved]
        push_cast at hwritten ⊢
        omega
  | user | readTest | readEmpty | readCopy => simp [writePipe] at h

theorem block_kept {t : T} {tr : List (T × Event)} {n : ℕ} {p : ℕ → UInt8} {f : Frame}
    {s s' : PipeInode} {e : Event} {c : Exit} (hz : Zones s) (hc : Content tr s f)
    (hn : Counted n p f) (h : Block f s e s' c) : Kept t tr n p e s' c := by
  cases h with
  | yield =>
    exact ⟨hz, by simpa [Content, after, stored, removed] using hc, by simp [after, copying],
      trivial, trivial⟩
  | read count =>
    exact ⟨hz, by simpa [Content, after, stored, removed] using hc, by simp [Ctl.sleeps],
      by simp [Counted, after, moved], trivial⟩
  | write src count =>
    exact ⟨hz, by simpa [Content, after, stored, removed] using hc, by simp [Ctl.sleeps],
      by simp [Counted, after, moved, given], trivial⟩
  | reading h => exact read_kept hz hc hn h
  | writing h => exact write_kept hz hc hn h

theorem content_buffered {tr : List (T × Event)} {s : PipeInode} {f : Frame}
    (h : Content tr s f) : ∃ buffered : List UInt8,
      stored tr = removed tr ++ buffered ∧ buffered.length ≤ PAGE_SIZE - 1 := by
  have hsize := pipeSize_lt s
  cases f with
  | readCopy count read buf size chars =>
    obtain ⟨_, hlt, _, hcont⟩ := h
    exact ⟨_, hcont, by simp only [window_length, PAGE_SIZE]; omega⟩
  | writeCopy src count written buf size chars =>
    obtain ⟨_, _, _, hcont⟩ := h
    exact ⟨_, hcont, by simp only [window_length, PAGE_SIZE]; omega⟩
  | user | readTest | readEmpty | writeTest | writeFull =>
    exact ⟨_, h, by simp only [window_length, PAGE_SIZE]; omega⟩

variable [DecidableEq T]

/-- How many bytes task `t` has moved since it last entered a call. -/
def transferred (t : T) (tr : List (T × Event)) : ℕ :=
  tr.foldl (fun n x => if x.1 = t then moved n x.2 else n) 0

theorem transferred_concat (t u : T) (tr : List (T × Event)) (e : Event) :
    transferred t (tr ++ [(u, e)]) =
      if u = t then moved (transferred t tr) e else transferred t tr := by
  simp [transferred]

/-- The buffer of the last write that task `t` entered. -/
def source (t : T) (tr : List (T × Event)) : ℕ → UInt8 :=
  tr.foldl (fun p x => if x.1 = t then given p x.2 else p) fun _ => 0

theorem source_concat (t u : T) (tr : List (T × Event)) (e : Event) :
    source t (tr ++ [(u, e)]) = if u = t then given (source t tr) e else source t tr := by
  simp [source]

/-- Where the running task stands, or anywhere outside a copy when none runs. -/
def current (σ : Sys T PipeInode Frame Unit) : Frame :=
  match σ.running with
  | none => .user
  | some t => (σ.task t).top

/-- Every event of the run, against what its task had done before. -/
def Recorded (tr : List (T × Event)) : Prop :=
  ∀ pre post t e, tr = pre ++ (t, e) :: post → Placed (transferred t pre) (source t pre) e

theorem concat_split {A : Type} {tr pre post : List A} {x y : A}
    (h : tr ++ [x] = pre ++ y :: post) :
    (tr = pre ∧ x = y) ∨ ∃ post', tr = pre ++ y :: post' := by
  rcases List.eq_nil_or_concat' post with rfl | ⟨post, last, rfl⟩
  · obtain ⟨hpre, hy⟩ := List.append_inj' h rfl
    exact .inl ⟨hpre, by simpa using hy⟩
  · rw [← List.cons_append, ← List.append_assoc] at h
    exact .inr ⟨post, (List.append_inj' h rfl).1⟩

theorem Recorded.concat {tr : List (T × Event)} {t : T} {e : Event} (h : Recorded tr)
    (he : Placed (transferred t tr) (source t tr) e) : Recorded (tr ++ [(t, e)]) := by
  intro pre post u m hsplit
  rcases concat_split hsplit with ⟨rfl, hx⟩ | ⟨post', htr⟩
  · cases hx
    exact he
  · exact h pre post' u m htr

structure Inv (tr : List (T × Event)) (σ : Sys T PipeInode Frame Unit) : Prop where
  zones : Zones σ.shared
  content : Content tr σ.shared (current σ)
  asleep : ∀ t, σ.running ≠ some t → copying (σ.task t).top = false
  counted : ∀ t, Counted (transferred t tr) (source t tr) (σ.task t).top
  recorded : Recorded tr

theorem next_top {τ τ' : Task Frame Unit} {c : Exit} (h : τ.next machine c = some τ') :
    τ'.top = after c := by
  cases c with
  | goto f | sleep f | call g k =>
    simp only [Task.next, Option.some.injEq] at h
    subst h
    rfl
  | ret v =>
    simp only [Task.next] at h
    split at h
    · exact absurd h (by simp)
    · simp only [Option.some.injEq] at h
      subst h
      rfl
  | panic => simp [Task.next] at h

theorem Inv.step {tr : List (T × Event)} {σ σ' : Sys T PipeInode Frame Unit}
    {l : Option (T × Event)} (h : Inv tr σ) (hs : Step machine σ l σ') :
    Inv (tr ++ l.toList) σ' := by
  cases hs with
  | dispatch t hr =>
    have hidle := h.asleep t (by simp [hr])
    have hcont := h.content
    simp only [Option.toList_none, List.append_nil]
    refine ⟨h.zones, ?_, fun u _ => h.asleep u (by simp [hr]), h.counted, h.recorded⟩
    simp only [current, hr] at hcont ⊢
    exact (content_idle hidle).mpr hcont
  | interrupt s hi =>
    obtain ⟨count, rfl⟩ := hi
    simp only [Option.toList_none, List.append_nil]
    refine ⟨⟨h.zones.head_lt, h.zones.tail_lt⟩, ?_, h.asleep, h.counted, h.recorded⟩
    have hcont := h.content
    change Content tr { σ.shared with count := count } (current σ)
    generalize current σ = f at hcont
    cases f <;> exact hcont
  | exec t e s c τ hr hb hn =>
    have hcont := h.content
    simp only [current, hr] at hcont
    obtain ⟨hz, hc, ha, hcnt, hplaced⟩ := block_kept (t := t) h.zones hcont (h.counted t) hb
    have htop := next_top hn
    refine ⟨hz, ?_, ?_, ?_, h.recorded.concat hplaced⟩
    · simp only [current, Option.toList_some]
      cases hsl : c.sleeps
      · simpa [htop] using hc
      · exact (content_idle (ha hsl)).mp hc
    · intro u hu
      by_cases hut : u = t
      · subst hut
        simp only [Function.update_self, htop]
        apply ha
        by_contra hsl
        simp [hsl] at hu
      · simp only [Function.update_of_ne hut]
        exact h.asleep u (by rw [hr]; simpa using Ne.symm hut)
    · intro u
      simp only [Option.toList_some, transferred_concat, source_concat]
      by_cases hut : u = t
      · subst hut
        simpa [htop] using hcnt
      · simpa [hut, Ne.symm hut] using h.counted u

theorem inv_run (page : ℕ → UInt8) {tr : List (T × Event)} {σ : Sys T PipeInode Frame Unit}
    (h : Run machine (initial T page) tr σ) : Inv tr σ := by
  apply h.invariant
  · refine ⟨⟨Nat.zero_lt_succ _, Nat.zero_lt_succ _⟩, ?_, fun _ _ => rfl, fun _ => trivial, ?_⟩
    · simp [current, initial, Content, stored, removed, pipeSize]
    · intro pre post t e he
      simp at he
  · exact fun _ _ _ _ => Inv.step

/-- Whatever the tasks do and in whatever order they are picked: what was read is a prefix of
    what was written and the rest, at most a page less one byte, is still there; between the
    copies it is exactly what lies from the tail to the head; a call stores the bytes of its
    caller's buffer one after the other, and the bytes read go one after the other into their
    caller's; every count returned is exact. -/
theorem pipe_fifo (page : ℕ → UInt8) (tr : List (T × Event))
    (σ : Sys T PipeInode Frame Unit) (h : Run machine (initial T page) tr σ) :
    (∃ buffered : List UInt8,
      stored tr = removed tr ++ buffered ∧ buffered.length ≤ PAGE_SIZE - 1) ∧
    (σ.running = none → stored tr = removed tr ++
      window PAGE_SIZE σ.shared.page σ.shared.tail (pipeSize σ.shared)) ∧
    σ.shared.head < PAGE_SIZE ∧ σ.shared.tail < PAGE_SIZE ∧
    (∀ pre post t k b, tr = pre ++ (t, .put k b) :: post →
      k = transferred t pre ∧ b = source t pre k) ∧
    (∀ pre post t k b, tr = pre ++ (t, .got k b) :: post → k = transferred t pre) ∧
    (∀ pre post t (n : ℤ), tr = pre ++ (t, .exitRead n) :: post ∧ 0 ≤ n ∨
      tr = pre ++ (t, .exitWrite n) :: post ∧ 0 ≤ n → n = transferred t pre) := by
  have hinv := inv_run page h
  refine ⟨content_buffered hinv.content, ?_, hinv.zones.head_lt, hinv.zones.tail_lt, ?_, ?_, ?_⟩
  · intro hr
    have hcont := hinv.content
    simp only [current, hr] at hcont
    exact hcont
  · intro pre post t k b htr
    exact hinv.recorded pre post t _ htr
  · intro pre post t k b htr
    exact hinv.recorded pre post t _ htr
  · rintro pre post t n (⟨htr, -⟩ | ⟨htr, h0⟩)
    · exact hinv.recorded pre post t _ htr
    · exact hinv.recorded pre post t _ htr h0

/-- Task 1 waits on the empty pipe, task 0 writes two bytes in one call, and task 1 wakes and
    reads both. -/
theorem pipe_fifo_bytes :
    ∃ (tr : List (Fin 2 × Event)) (σ : Sys (Fin 2) PipeInode Frame Unit),
      Run machine (initial (Fin 2) fun _ => 0) tr σ ∧ stored tr = [7, 8] ∧ removed tr = [7, 8] ∧
        (∃ pre post, tr = pre ++ (1, .exitRead 2) :: post) ∧
        (∀ pre post t k b, tr = pre ++ (t, .put k b) :: post →
          k = transferred t pre ∧ b = source t pre k) ∧
        (∀ pre post t k b, tr = pre ++ (t, .got k b) :: post → k = transferred t pre) := by
  obtain ⟨tr, σ, h, hs, hr, hex⟩ :
      ∃ (tr : List (Fin 2 × Event)) (σ : Sys (Fin 2) PipeInode Frame Unit),
        Run machine (initial (Fin 2) fun _ => 0) tr σ ∧ stored tr = [7, 8] ∧
          removed tr = [7, 8] ∧ ∃ pre, tr = pre ++ [(1, .exitRead 2)] := by
    have h : Run machine (initial (Fin 2) fun _ => 0) [] _ := .start
    have h := h.step (.dispatch _ 1 rfl)
    have h := h.step (.exec _ 1 _ _ _ _ rfl (.read _ 2) rfl)
    have h := h.step (.exec _ 1 _ _ _ _ rfl (.reading rfl) rfl)
    have h := h.step (.exec _ 1 _ _ _ _ rfl (.reading rfl) rfl)
    have h := h.step (.dispatch _ 0 rfl)
    have h := h.step (.exec _ 0 _ _ _ _ rfl (.write _ (fun k => if k = 0 then 7 else 8) 2) rfl)
    have h := h.step (.exec _ 0 _ _ _ _ rfl (.writing rfl) rfl)
    have h := h.step (.exec _ 0 _ _ _ _ rfl (.writing rfl) rfl)
    have h := h.step (.exec _ 0 _ _ _ _ rfl (.writing rfl) rfl)
    have h := h.step (.exec _ 0 _ _ _ _ rfl (.writing rfl) rfl)
    have h := h.step (.exec _ 0 _ _ _ _ rfl (.writing rfl) rfl)
    have h := h.step (.exec _ 0 _ _ _ _ rfl (.writing rfl) rfl)
    have h := h.step (.exec _ 0 _ _ _ _ rfl (.yield _) rfl)
    have h := h.step (.dispatch _ 1 rfl)
    have h := h.step (.exec _ 1 _ _ _ _ rfl (.reading rfl) rfl)
    have h := h.step (.exec _ 1 _ _ _ _ rfl (.reading rfl) rfl)
    have h := h.step (.exec _ 1 _ _ _ _ rfl (.reading rfl) rfl)
    have h := h.step (.exec _ 1 _ _ _ _ rfl (.reading rfl) rfl)
    have h := h.step (.exec _ 1 _ _ _ _ rfl (.reading rfl) rfl)
    exact ⟨_, _, h, rfl, rfl, _, rfl⟩
  obtain ⟨-, -, -, -, hput, hgot, -⟩ := pipe_fifo (fun _ => 0) tr σ h
  obtain ⟨pre, hpre⟩ := hex
  exact ⟨tr, σ, h, hs, hr, ⟨pre, [], hpre⟩, hput, hgot⟩

end Linux011.PipeFifo
