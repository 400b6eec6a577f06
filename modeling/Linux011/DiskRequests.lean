import Linux011.RequestQueue

set_option autoImplicit false

/-!
# The requests of one disk driver (kernel/blk_drv/blk.h)

`CURRENT` is the head of a list. `serial` numbers the requests in the order they are made, and what
`end_request` and the error counts were used for is written down; the code reads neither.
-/
namespace Linux011.DiskRequests
open RequestQueue (Command)

structure Request where
  serial : ℕ
  minor : ℕ
  cmd : Command
  errors : ℕ
  sector : ℕ
  nrSectors : ℕ
  deriving DecidableEq

/-- `charged`: the request an error was counted against, and the one the command was for. -/
structure Requests where
  queue : List Request
  made : ℕ
  ended : List ℕ
  charged : List (ℕ × ℕ)
  deriving DecidableEq

/-- What `make_request` fills in. -/
def newRequest (serial minor : ℕ) (cmd : Command) (block : ℕ) : Request :=
  ⟨serial, minor, cmd, 0, 2 * block % 4294967296, 2⟩

/-- `IN_ORDER`, for one major number. -/
def inOrder (s1 s2 : Request) : Prop :=
  s1.cmd.code < s2.cmd.code ∨ (s1.cmd.code = s2.cmd.code ∧
    (s1.minor < s2.minor ∨ (s1.minor = s2.minor ∧ s1.sector < s2.sector)))

instance : DecidableRel inOrder := fun _ _ => by unfold inOrder; infer_instance

/-- The condition that ends the walk of `add_request` at `tmp`, whose successor is `n`. -/
def Stops (req tmp n : Request) : Prop := (inOrder tmp req ∨ ¬ inOrder tmp n) ∧ inOrder req n

instance (req : Request) : DecidableRel (Stops req) := fun _ _ => by unfold Stops; infer_instance

/-- The tail of `add_request`: the head stays. -/
def addRequest (req : Request) (queue : List Request) : List Request :=
  ElevatorList.insertWhere (Stops req) req queue

/-- `end_request`; `none` is a use of `CURRENT` where it is null. -/
def endRequest (q : Requests) : Option Requests :=
  match q.queue with
  | [] => none
  | r :: rest => some { q with queue := rest, ended := q.ended ++ [r.serial] }

/-- `CURRENT->errors++`, for a command that was for request `issued`. -/
def countError (issued : ℕ) (q : Requests) : Option Requests :=
  match q.queue with
  | [] => none
  | r :: rest => some { q with
      queue := { r with errors := r.errors + 1 } :: rest
      charged := q.charged ++ [(r.serial, issued)] }

/-- `block+2 > size`, in unsigned ints. -/
def behind (r : Request) (size : ℕ) : Prop := size < (r.sector + 2) % 4294967296

instance (r : Request) (size : ℕ) : Decidable (behind r size) := inferInstanceAs (Decidable (_ < _))

/-- Every request that was made is queued, or was ended once; errors went where they belong. -/
structure Once (q : Requests) : Prop where
  once : (q.ended ++ q.queue.map Request.serial).Perm (List.range q.made)
  charged : ∀ p ∈ q.charged, p.1 = p.2

section
variable {q q' : Requests} {r : Request} {rest : List Request}

theorem endRequest_cons (h : q.queue = r :: rest) :
    endRequest q = some { q with queue := rest, ended := q.ended ++ [r.serial] } := by
  unfold endRequest
  rw [h]

theorem countError_cons (issued : ℕ) (h : q.queue = r :: rest) : countError issued q =
    some { q with
      queue := { r with errors := r.errors + 1 } :: rest
      charged := q.charged ++ [(r.serial, issued)] } := by
  unfold countError
  rw [h]

theorem Once.end (h : Once q) (hq : q.queue = r :: rest) :
    Once { q with queue := rest, ended := q.ended ++ [r.serial] } := by
  refine ⟨?_, h.charged⟩
  have honce := h.once
  rw [hq] at honce
  simpa only [List.append_assoc, List.singleton_append, List.map_cons] using honce

theorem Once.count (h : Once q) (hq : q.queue = r :: rest) :
    Once { q with
      queue := { r with errors := r.errors + 1 } :: rest
      charged := q.charged ++ [(r.serial, r.serial)] } := by
  refine ⟨?_, ?_⟩
  · have honce := h.once
    rw [hq] at honce
    exact honce
  · intro p hp
    rcases List.mem_append.mp hp with hp | hp
    · exact h.charged p hp
    · rw [List.mem_singleton.mp hp]

/-- The head is worked on. -/
theorem Once.head (h : Once q) (hq : q.queue = r :: rest) {r' : Request}
    (hr : r'.serial = r.serial) : Once { q with queue := r' :: rest } := by
  refine ⟨?_, h.charged⟩
  have honce := h.once
  rw [hq] at honce
  simpa only [List.map_cons, hr] using honce

/-- A request joins the queue, anywhere in it. -/
theorem Once.made (h : Once q) (hr : r.serial = q.made) {queue : List Request}
    (hp : queue.Perm (r :: q.queue)) :
    Once { q with queue := queue, made := q.made + 1 } := by
  refine ⟨?_, h.charged⟩
  have hmap := hp.map Request.serial
  rw [List.map_cons, hr] at hmap
  refine (hmap.append_left q.ended).trans ?_
  refine List.perm_middle.trans ?_
  rw [List.range_succ]
  exact (h.once.cons q.made).trans (List.perm_append_singleton _ _).symm

theorem addRequest_head (req : Request) :
    ∃ l, addRequest req (r :: rest) = r :: l ∧ l.Perm (req :: rest) :=
  ElevatorList.insertWhere_cons (Stops req) req r rest

end

/-! ### Requests that are rejected -/

/-- The requests at the head that fail the check of the driver are ended, one after another. -/
def reject (bad : Request → Bool) : List Request → List ℕ → List Request × List ℕ
  | [], ended => ([], ended)
  | r :: rest, ended =>
    if bad r then reject bad rest (ended ++ [r.serial]) else (r :: rest, ended)

def rejectBad (bad : Request → Bool) (q : Requests) : Requests :=
  { q with queue := (reject bad q.queue q.ended).1, ended := (reject bad q.queue q.ended).2 }

theorem Once.reject {q : Requests} (h : Once q) (bad : Request → Bool) :
    Once (rejectBad bad q) := by
  obtain ⟨queue, made, ended, charged⟩ := q
  induction queue generalizing ended with
  | nil => exact h
  | cons r rest ih =>
    have hend := h.end (r := r) rfl
    by_cases hb : bad r = true
    · have hstep := ih _ hend
      unfold rejectBad DiskRequests.reject
      simp only [hb, if_true]
      exact hstep
    · unfold rejectBad DiskRequests.reject
      rw [if_neg hb]
      exact h

theorem rejectBad_head {bad : Request → Bool} {q : Requests} {r : Request} {rest : List Request}
    (h : (rejectBad bad q).queue = r :: rest) : r ∈ q.queue ∧ bad r = false := by
  obtain ⟨queue, made, ended, charged⟩ := q
  induction queue generalizing ended with
  | nil => cases h
  | cons r' rest' ih =>
    unfold rejectBad reject at h
    by_cases hb : bad r' = true
    · simp only [hb, if_true] at h
      obtain ⟨hm, hbad⟩ := ih _ h
      exact ⟨List.mem_cons_of_mem r' hm, hbad⟩
    · simp only [hb, Bool.false_eq_true, if_false] at h
      cases h
      exact ⟨List.mem_cons_self, by simpa using hb⟩

/-- What is left is an end of the queue. -/
theorem rejectBad_suffix (bad : Request → Bool) (q : Requests) :
    (rejectBad bad q).queue <:+ q.queue := by
  obtain ⟨queue, made, ended, charged⟩ := q
  induction queue generalizing ended with
  | nil => exact List.suffix_rfl
  | cons r rest ih =>
    unfold rejectBad reject
    split_ifs
    · exact (ih (ended ++ [r.serial])).trans (List.suffix_cons r rest)
    · exact List.suffix_rfl

theorem rejectBad_good {bad : Request → Bool} {q : Requests} {r : Request} {rest : List Request}
    (h : q.queue = r :: rest) (hb : bad r = false) : rejectBad bad q = q := by
  obtain ⟨queue, made, ended, charged⟩ := q
  cases h
  unfold rejectBad reject
  simp only [hb, Bool.false_eq_true, if_false]

end Linux011.DiskRequests
