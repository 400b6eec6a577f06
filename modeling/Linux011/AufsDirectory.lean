import Linux011.AufsVolume
import Linux011.SlotTables

set_option autoImplicit false

/-!
# The root directory of aufs as a map

An entry is added to the first free slot of all that the directory has, and looked up and listed in
those before `i_size`. Both agree as the slots behind are free.
-/
namespace Linux011.Aufs
open SlotTables

variable {s s' : Vol} {dir : Inode} {name q : List UInt8} {k n ino room : ℕ}

/-- The name of an entry, of `strnlen` bytes. -/
def Dirent.text (e : Dirent) : List UInt8 :=
  ((List.range aufs_NAMELEN).map e.name).takeWhile fun c => decide (c ≠ 0)

/-! ### `aufs_readdir` -/

/-- The entries of the `n` slots from `k` on, of which `dir_emit` takes `room`, and the slot of the next
    one. -/
def emitSlots (s : Vol) : ℕ → ℕ → ℕ → ℕ × List (List UInt8 × ℕ)
  | 0, k, _ => (k, [])
  | n + 1, k, room =>
    if (s.disk.dirent k).ino = 0 then emitSlots s n (k + 1) room
    else match room with
      | 0 => (k, [])
      | room + 1 =>
        let r := emitSlots s n (k + 1) room
        (r.1, ((s.disk.dirent k).text, (s.disk.dirent k).ino.toNat) :: r.2)

def aufs_readdir (dir : Inode) (s : Vol) (pos room : ℕ) :
    Except Errno (ℕ × List (List UInt8 × ℕ)) :=
  if pos % 16 ≠ 0 then .error .EINVAL
  else if dir.size ≤ pos then .ok (pos, [])
  else
    let r := emitSlots s ((dir.size - pos + 15) / 16) (pos / 16) room
    .ok (r.1 * 16, r.2)

/-- What a row of calls lists, each of which goes on where the last one stopped. -/
def readAll (dir : Inode) (s : Vol) : ℕ → List ℕ → List (List UInt8 × ℕ)
  | _, [] => []
  | pos, room :: rooms => match aufs_readdir dir s pos room with
    | .error _ => []
    | .ok (pos, l) => l ++ readAll dir s pos rooms

/-! ### Entries and names -/

def dirents : Kind (List UInt8) Dirent where
  live e := decide (e.ino ≠ 0)
  answers name e := decide (aufs_namecmp name e.name)

/-- A name as the VFS passes it: without zeros, and not too long to be found. -/
structure Nameable (name : List UInt8) : Prop where
  zero : 0 ∉ name
  length : name.length ≤ aufs_NAMELEN

theorem takeWhile_range (f : ℕ → UInt8) (q : List UInt8) (m : ℕ) (hz : 0 ∉ q) (hm : q.length ≤ m) :
    ((List.range m).map f).takeWhile (fun c => decide (c ≠ 0)) = q ↔
      (q.length < m → f q.length = 0) ∧ (List.range q.length).map f = q := by
  induction q generalizing f m with
  | nil =>
    cases m with
    | zero => simp
    | succ m =>
      rw [List.range_succ_eq_map, List.map_cons, List.takeWhile_cons]
      by_cases h0 : f 0 = 0
      · simp [h0]
      · simp [h0]
  | cons c q ih =>
    cases m with
    | zero => exact absurd hm (Nat.not_succ_le_zero _)
    | succ m =>
      have hc : c ≠ 0 := fun h => hz (h ▸ List.mem_cons_self)
      have ih' := ih (fun j => f (j + 1)) m (fun h => hz (List.mem_cons_of_mem c h))
        (Nat.le_of_succ_le_succ hm)
      have htail : ∀ l : List ℕ, List.map f (List.map Nat.succ l) = List.map (fun j => f (j + 1)) l :=
        fun l => List.map_map
      rw [List.range_succ_eq_map, List.map_cons, List.takeWhile_cons, List.length_cons,
        List.range_succ_eq_map, List.map_cons, htail, htail, List.cons.injEq, Nat.succ_lt_succ_iff]
      by_cases h0 : f 0 = c
      · rw [if_pos (by simpa [h0] using hc), h0, List.cons.injEq, ih']
        simp
      · constructor
        · split
          · intro h
            exact absurd (List.cons.inj h).1 h0
          · intro h
            cases h
        · exact fun h => absurd h.2.1 h0

/-- `aufs_namecmp` compares the name with that of the entry. -/
theorem namecmp_iff (hq : Nameable q) (e : Dirent) : aufs_namecmp q e.name ↔ e.text = q :=
  (takeWhile_range e.name q aufs_NAMELEN hq.zero hq.length).symm

theorem answers_iff (hq : Nameable q) (e : Dirent) : dirents.answers q e = true ↔ e.text = q :=
  decide_eq_true_iff.trans (namecmp_iff hq e)

theorem live_iff (e : Dirent) : dirents.live e = true ↔ e.ino ≠ 0 := decide_eq_true_iff

theorem live_eq_false (e : Dirent) : dirents.live e = false ↔ e.ino = 0 := by
  rw [← Bool.not_eq_true, live_iff, not_not]

/-- The entry that `aufs_add_entry` makes. -/
def newDirent (name : List UInt8) (ino : ℕ) : Dirent := ⟨UInt16.ofNat ino, fun j => name.getD j 0⟩

theorem newDirent_text (hname : Nameable name) (ino : ℕ) : (newDirent name ino).text = name := by
  apply (takeWhile_range _ name aufs_NAMELEN hname.zero hname.length).mpr
  constructor
  · intro _
    exact List.getD_eq_default _ _ (le_refl _)
  · apply List.ext_getElem
    · simp
    · intro j hj _
      simp only [List.length_map, List.length_range] at hj
      simp only [newDirent, List.getElem_map, List.getElem_range]
      rw [List.getD_eq_getElem?_getD, List.getElem?_eq_getElem hj, Option.getD_some]

/-! ### The directory -/

/-- The slots behind `i_size` are free; the size is one of slots that the directory has. -/
structure Directory (s : Vol) (dir : Inode) : Prop where
  root : s.memory aufs_ROOT_INO = some dir
  size : dir.size % 16 = 0
  inside : dir.size ≤ dir.slots * 16
  tail : dirents.FreeTail s.disk.dirent (dir.size / 16) dir.slots

theorem Directory.find (h : Directory s dir) (hq : q.length ≤ aufs_NAMELEN) :
    aufs_find_entry dir q s = dirents.find s.disk.dirent (dir.size / 16) q := by
  have hsize := h.size
  have hslots : (dir.size + 15) / 16 = dir.size / 16 := by omega
  unfold aufs_find_entry Kind.find
  rw [if_neg (Nat.not_lt.mpr hq), hslots]
  congr 1
  funext k
  exact Bool.decide_and _ _

/-- A new entry goes to the first free slot, and the directory grows by it if it is behind the end. -/
theorem Directory.add (h : Directory s dir)
    (hok : aufs_add_entry dir name ino s = .ok s') :
    ∃ k dir', dirents.firstFree s.disk.dirent dir.slots = some k ∧ Directory s' dir' ∧
      dir'.slots = dir.slots ∧ s'.disk.dirent = Function.update s.disk.dirent k (newDirent name ino) ∧
      ((k < dir.size / 16 ∧ dir'.size = dir.size) ∨
        (k = dir.size / 16 ∧ dir'.size = dir.size + 16)) := by
  unfold aufs_add_entry at hok
  split at hok
  · cases hok
  · split at hok
    · cases hok
    · split at hok
      · cases hok
      · next k hk =>
        have hfirst : dirents.firstFree s.disk.dirent dir.slots = some k := by
          rw [← hk]
          unfold Kind.firstFree
          congr 1
          funext j
          simp [dirents]
        obtain ⟨hlt, hfree, hbefore⟩ := dirents.firstFree_some hfirst
        have hsize := h.size
        have hinside := h.inside
        have htail := h.tail
        -- the slot behind the end is free
        have hk16 : k ≤ dir.size / 16 := by
          by_contra hgt
          have hend := htail (dir.size / 16) (le_refl _) (by omega)
          rw [hbefore _ (Nat.not_le.mp hgt)] at hend
          cases hend
        cases hok
        by_cases hin : k < dir.size / 16
        · rw [if_neg (by omega)]
          refine ⟨k, { dir with dirty := true }, hfirst, ⟨?_, hsize, hinside, ?_⟩, rfl, rfl,
            .inl ⟨hin, rfl⟩⟩
          · exact setInode_self s aufs_ROOT_INO _
          · intro j hj hjs
            change dirents.live (Function.update s.disk.dirent k _ j) = false
            rw [Function.update_of_ne (by dsimp only at hj; omega)]
            exact htail j hj hjs
        · rw [if_pos (by omega)]
          refine ⟨k, { dir with size := dir.size + 16, dirty := true }, hfirst, ⟨?_, ?_, ?_, ?_⟩, rfl,
            rfl, .inr ⟨by omega, rfl⟩⟩
          · exact setInode_self s aufs_ROOT_INO _
          · change (dir.size + 16) % 16 = 0
            omega
          · change dir.size + 16 ≤ dir.slots * 16
            omega
          · intro j hj hjs
            change (dir.size + 16) / 16 ≤ j at hj
            change dirents.live (Function.update s.disk.dirent k _ j) = false
            rw [Function.update_of_ne (by omega)]
            exact htail j (by omega) hjs

/-- What `aufs_unlink` does to the directory: the entry of slot `k` is freed. -/
def clearEntry (s : Vol) (dir : Inode) (k : ℕ) : Vol :=
  (s.setDirent k { s.disk.dirent k with ino := 0 }).setInode aufs_ROOT_INO { dir with dirty := true }

theorem Directory.clear (h : Directory s dir) (k : ℕ) :
    Directory (clearEntry s dir k) { dir with dirty := true } := by
  constructor
  · exact setInode_self _ aufs_ROOT_INO _
  · exact h.size
  · exact h.inside
  · intro j hj hjs
    change dirents.live (Function.update s.disk.dirent k _ j) = false
    by_cases hjk : j = k
    · rw [hjk, Function.update_self]
      rfl
    · rw [Function.update_of_ne hjk]
      exact h.tail j hj hjs

/-- `aufs_unlink` does nothing else to it. -/
theorem unlink_clears {v : Inode} (hino : ino ≠ aufs_ROOT_INO) (hok : aufs_unlink dir ino v name s = .ok s') :
    ∃ k, aufs_find_entry dir name s = some k ∧ s'.disk = (clearEntry s dir k).disk ∧
      s'.memory aufs_ROOT_INO = (clearEntry s dir k).memory aufs_ROOT_INO := by
  unfold aufs_unlink at hok
  split at hok
  · cases hok
  · next k hk =>
    split at hok
    · cases hok
    · cases hok
      refine ⟨k, hk, rfl, ?_⟩
      exact Function.update_of_ne hino.symm _ _

/-! ### Listing -/

/-- The entries of some slots, as they are listed. -/
def listed (s : Vol) (l : List ℕ) : List (List UInt8 × ℕ) :=
  l.map fun k => ((s.disk.dirent k).text, (s.disk.dirent k).ino.toNat)

/-- The slots from `k` on with a live entry. -/
def liveFrom (s : Vol) (k n : ℕ) : List ℕ :=
  (List.range' k n).filter fun k => dirents.live (s.disk.dirent k)

/-- As many entries are listed as there is room for, and the slot is that of the next one. -/
theorem emitSlots_eq (s : Vol) (n : ℕ) : ∀ k room,
    (emitSlots s n k room).2 = listed s ((liveFrom s k n).take room) ∧
      ∃ m ≤ n, (emitSlots s n k room).1 = k + m ∧
        liveFrom s (k + m) (n - m) = (liveFrom s k n).drop room := by
  induction n with
  | zero =>
    intro k room
    unfold emitSlots liveFrom
    refine ⟨by simp [listed], 0, le_refl _, rfl, by simp⟩
  | succ n ih =>
    intro k room
    have hcons : liveFrom s k (n + 1) =
        if dirents.live (s.disk.dirent k) = true then k :: liveFrom s (k + 1) n
        else liveFrom s (k + 1) n := by
      unfold liveFrom
      rw [List.range'_succ, List.filter_cons]
    unfold emitSlots
    by_cases hfree : (s.disk.dirent k).ino = 0
    · rw [if_pos hfree, hcons, if_neg (by rw [live_iff]; exact not_not.mpr hfree)]
      obtain ⟨hlist, m, hm, hslot, hrest⟩ := ih (k + 1) room
      refine ⟨hlist, m + 1, by omega, by omega, ?_⟩
      rw [← hrest]
      congr 1 <;> omega
    · rw [if_neg hfree, hcons, if_pos ((live_iff _).mpr hfree)]
      cases room with
      | zero =>
        refine ⟨by simp [listed], 0, Nat.zero_le _, rfl, ?_⟩
        rw [if_pos ((live_iff _).mpr hfree)] at hcons
        exact hcons
      | succ room =>
        obtain ⟨hlist, m, hm, hslot, hrest⟩ := ih (k + 1) room
        refine ⟨?_, m + 1, by omega, by dsimp only; omega, ?_⟩
        · dsimp only
          rw [hlist]
          rfl
        · rw [List.drop_succ_cons, ← hrest]
          congr 1 <;> omega

/-- A row of calls lists as many of the live entries as there is room for in all of them. -/
theorem readAll_eq (hsize : dir.size % 16 = 0) (rooms : List ℕ) : ∀ k ≤ dir.size / 16,
    readAll dir s (k * 16) rooms = listed s ((liveFrom s k (dir.size / 16 - k)).take rooms.sum) := by
  induction rooms with
  | nil =>
    intro k _
    rw [List.sum_nil, List.take_zero]
    rfl
  | cons room rooms ih =>
    intro k hk
    unfold readAll aufs_readdir
    rw [if_neg (by omega)]
    by_cases hend : dir.size ≤ k * 16
    · have hzero : dir.size / 16 - k = 0 := by omega
      rw [if_pos hend]
      dsimp only
      rw [ih k hk, hzero]
      simp [liveFrom]
    · have hslots : (dir.size - k * 16 + 15) / 16 = dir.size / 16 - k := by omega
      have hfirst : k * 16 / 16 = k := by omega
      obtain ⟨hlist, m, hm, hslot, hrest⟩ := emitSlots_eq s (dir.size / 16 - k) k room
      rw [if_neg hend, hslots, hfirst]
      dsimp only
      have hleft : dir.size / 16 - (k + m) = dir.size / 16 - k - m := by omega
      rw [hlist, hslot, ih (k + m) (by omega), hleft, hrest, List.sum_cons, List.take_add]
      unfold listed
      rw [List.map_append]

/-- From position 0, the live entries of the whole directory are listed, once each, in their order. -/
theorem Directory.readAll (h : Directory s dir) (rooms : List ℕ) :
    readAll dir s 0 rooms =
      listed s ((dirents.listing s.disk.dirent dir.slots).take rooms.sum) := by
  have hsize := h.size
  have hinside := h.inside
  have hall := readAll_eq (s := s) hsize rooms 0 (Nat.zero_le _)
  rw [Nat.zero_mul] at hall
  rw [hall, dirents.listing_extend h.tail (by omega)]
  unfold liveFrom Kind.listing
  rw [List.range_eq_range', Nat.sub_zero]

/-! ### Runs -/

/-- The inode numbers under a name. There is one at most, but for what the directory held before. -/
def numbers (s : Vol) (dir : Inode) (name : List UInt8) : List ℕ :=
  (dirents.held s.disk.dirent (dir.size / 16) name).map fun k => (s.disk.dirent k).ino.toNat

/-- The inode number that is found for a name. -/
def lookup (s : Vol) (dir : Inode) (name : List UInt8) : Option ℕ :=
  (aufs_find_entry dir name s).map fun k => (s.disk.dirent k).ino.toNat

/-- Entries are added for names that are not found, and entries that are found are cleared. Beside the
    volume goes what is to be found under each name. -/
inductive DirRun (s₀ : Vol) (m₀ : List UInt8 → List ℕ) : Vol → (List UInt8 → List ℕ) → Prop where
  | start : DirRun s₀ m₀ s₀ m₀
  | add {s s' : Vol} {m : List UInt8 → List ℕ} {dir : Inode} {name : List UInt8} {ino : ℕ}
      (h : DirRun s₀ m₀ s m) (hdir : s.memory aufs_ROOT_INO = some dir) (hname : Nameable name)
      (hino : 0 < ino ∧ ino < 65536) (habsent : aufs_find_entry dir name s = none)
      (hok : aufs_add_entry dir name ino s = .ok s') : DirRun s₀ m₀ s' (Function.update m name [ino])
  | clear {s : Vol} {m : List UInt8 → List ℕ} {dir : Inode} {name : List UInt8} {k : ℕ}
      (h : DirRun s₀ m₀ s m) (hdir : s.memory aufs_ROOT_INO = some dir) (hname : Nameable name)
      (hfound : aufs_find_entry dir name s = some k) :
      DirRun s₀ m₀ (clearEntry s dir k) (Function.update m name (m name).tail)

theorem Directory.lookup (h : Directory s dir) (hq : q.length ≤ aufs_NAMELEN) :
    lookup s dir q = (numbers s dir q).head? := by
  unfold Aufs.lookup numbers
  rw [h.find hq, dirents.find_eq_head, List.head?_map]

theorem Directory.absent (h : Directory s dir) (hq : q.length ≤ aufs_NAMELEN)
    (hnone : aufs_find_entry dir q s = none) : dirents.held s.disk.dirent (dir.size / 16) q = [] := by
  rw [h.find hq, dirents.find_eq_head] at hnone
  exact List.head?_eq_none_iff.mp hnone

/-- The slots under each name after an entry is added: the new one, and the others as they were. -/
theorem Directory.add_held (h : Directory s dir) (hname : Nameable name) (hne : UInt16.ofNat ino ≠ 0)
    (habsent : aufs_find_entry dir name s = none) (hok : aufs_add_entry dir name ino s = .ok s') :
    ∃ k dir', dirents.firstFree s.disk.dirent dir.slots = some k ∧ Directory s' dir' ∧
      s'.disk.dirent = Function.update s.disk.dirent k (newDirent name ino) ∧
      ∀ q, Nameable q → dirents.held s'.disk.dirent (dir'.size / 16) q =
        if q = name then [k] else dirents.held s.disk.dirent (dir.size / 16) q := by
  obtain ⟨k, dir', hfirst, hdir', -, hupdate, hsize⟩ := h.add hok
  have hfree := (dirents.firstFree_some hfirst).2.1
  refine ⟨k, dir', hfirst, hdir', hupdate, fun q hq => ?_⟩
  -- the directory may have grown by the new slot
  have hgrown : dirents.held s.disk.dirent (dir'.size / 16) q =
      dirents.held s.disk.dirent (dir.size / 16) q := by
    apply dirents.held_extend _ (by omega)
    intro j hj hj'
    obtain rfl : j = k := by omega
    exact hfree
  rw [hupdate]
  by_cases hqn : q = name
  · subst hqn
    rw [if_pos rfl]
    apply dirents.held_update_new _ (by omega) ((live_iff _).mpr hne)
    · exact (answers_iff hq _).mpr (newDirent_text hname ino)
    · rw [hgrown]
      exact h.absent hq.length habsent
  · rw [if_neg hqn, dirents.held_update_other hfree, hgrown]
    rw [← Bool.not_eq_true, answers_iff hq, newDirent_text hname]
    exact fun h => hqn h.symm

theorem inode_number (hino : 0 < ino ∧ ino < 65536) :
    (UInt16.ofNat ino).toNat = ino ∧ UInt16.ofNat ino ≠ 0 := by
  have hnum : (UInt16.ofNat ino).toNat = ino := by
    rw [UInt16.toNat_ofNat']
    omega
  refine ⟨hnum, fun h0 => ?_⟩
  rw [h0] at hnum
  exact absurd hnum (Nat.ne_of_lt hino.1)

/-- The numbers after an entry is added: the new one under its name, and the others as they were. -/
theorem Directory.add_numbers (h : Directory s dir) (hname : Nameable name)
    (hino : 0 < ino ∧ ino < 65536) (habsent : aufs_find_entry dir name s = none)
    (hok : aufs_add_entry dir name ino s = .ok s') :
    ∃ dir', Directory s' dir' ∧ ∀ q, Nameable q →
      numbers s' dir' q = Function.update (numbers s dir) name [ino] q := by
  obtain ⟨hnum, hne⟩ := inode_number hino
  obtain ⟨k, dir', hfirst, hdir', hupdate, hheld⟩ := h.add_held hname hne habsent hok
  have hfree := (dirents.firstFree_some hfirst).2.1
  refine ⟨dir', hdir', fun q hq => ?_⟩
  unfold numbers
  rw [hheld q hq, hupdate]
  by_cases hqn : q = name
  · rw [if_pos hqn, List.map_singleton, Function.update_self, hqn, Function.update_self]
    exact congrArg (fun n => [n]) hnum
  · rw [if_neg hqn, Function.update_of_ne hqn]
    apply List.map_congr_left
    intro j hj
    have hjk : j ≠ k := by
      rintro rfl
      rw [((dirents.mem_held).mp hj).2.1] at hfree
      cases hfree
    rw [Function.update_of_ne hjk]

/-- The numbers after an entry is cleared. -/
theorem Directory.clear_numbers (h : Directory s dir) (hname : Nameable name)
    (hfound : aufs_find_entry dir name s = some k) (hq : Nameable q) :
    numbers (clearEntry s dir k) { dir with dirty := true } q =
      Function.update (numbers s dir) name (numbers s dir name).tail q := by
  rw [h.find hname.length] at hfound
  obtain ⟨-, -, hanswers⟩ := dirents.find_some hfound
  have htext := (answers_iff hname _).mp hanswers
  have hcleared : dirents.live { s.disk.dirent k with ino := 0 } = false := rfl
  have hother : ∀ l : List ℕ, k ∉ l →
      (l.map fun j => (Function.update s.disk.dirent k { s.disk.dirent k with ino := 0 } j).ino.toNat) =
        l.map fun j => (s.disk.dirent j).ino.toNat := by
    intro l hl
    apply List.map_congr_left
    intro j hj
    rw [Function.update_of_ne]
    rintro rfl
    exact hl hj
  unfold numbers
  change ((dirents.held (Function.update s.disk.dirent k _) (dir.size / 16) q).map fun j =>
    (Function.update s.disk.dirent k _ j).ino.toNat) = _
  by_cases hqn : q = name
  · subst hqn
    rw [Function.update_self, dirents.held_free_found hcleared hfound, hother, List.map_tail]
    intro hin
    rw [← dirents.held_free_found hcleared hfound] at hin
    have hlive := (dirents.mem_held.mp hin).2.1
    rw [Function.update_self, hcleared] at hlive
    cases hlive
  · have hno : dirents.answers q (s.disk.dirent k) = false := by
      rw [← Bool.not_eq_true, answers_iff hq, htext]
      exact fun h => hqn h.symm
    rw [Function.update_of_ne hqn, dirents.held_free_other hcleared hno, hother]
    intro hin
    rw [(dirents.mem_held.mp hin).2.2] at hno
    cases hno

/-- The invariant of a run. -/
theorem DirRun.numbers {s₀ : Vol} {dir₀ : Inode} {m : List UInt8 → List ℕ} (h₀ : Directory s₀ dir₀)
    (hrun : DirRun s₀ (numbers s₀ dir₀) s m) :
    ∃ dir, Directory s dir ∧ ∀ q, Nameable q → numbers s dir q = m q := by
  induction hrun with
  | start => exact ⟨dir₀, h₀, fun _ _ => rfl⟩
  | @add s s' m dir name ino _ hdir hname hino habsent hok ih =>
    obtain ⟨dir', hd, hm⟩ := ih
    obtain rfl : dir = dir' := Option.some.inj (hdir.symm.trans hd.root)
    obtain ⟨dir'', hd', hnumbers⟩ := hd.add_numbers hname hino habsent hok
    refine ⟨dir'', hd', fun q hq => ?_⟩
    rw [hnumbers q hq]
    by_cases hqn : q = name
    · rw [hqn, Function.update_self, Function.update_self]
    · rw [Function.update_of_ne hqn, Function.update_of_ne hqn, hm q hq]
  | @clear s m dir name k _ hdir hname hfound ih =>
    obtain ⟨dir', hd, hm⟩ := ih
    obtain rfl : dir = dir' := Option.some.inj (hdir.symm.trans hd.root)
    refine ⟨_, hd.clear k, fun q hq => ?_⟩
    rw [hd.clear_numbers hname hfound hq]
    by_cases hqn : q = name
    · rw [hqn, Function.update_self, Function.update_self, hm name hname]
    · rw [Function.update_of_ne hqn, Function.update_of_ne hqn, hm q hq]

/-- From a directory whose slots behind `i_size` are free, after any run: what was added last under a
    name is found, the size covers the live slots, each of them is listed once, and a free slot is used
    before the directory grows. -/
theorem directory_is_map {s₀ : Vol} {dir₀ : Inode} {m : List UInt8 → List ℕ} (h₀ : Directory s₀ dir₀)
    (hrun : DirRun s₀ (numbers s₀ dir₀) s m) :
    ∃ dir, s.memory aufs_ROOT_INO = some dir ∧
      (∀ q, Nameable q → lookup s dir q = (m q).head?) ∧
      (∀ q, aufs_NAMELEN < q.length → lookup s dir q = none) ∧
      dir.size % 16 = 0 ∧ (∀ k < dir.slots, (s.disk.dirent k).ino ≠ 0 → (k + 1) * 16 ≤ dir.size) ∧
      (∃ l : List ℕ, l.Nodup ∧ (∀ k, k ∈ l ↔ k < dir.slots ∧ (s.disk.dirent k).ino ≠ 0) ∧
        ∀ rooms, readAll dir s 0 rooms = listed s (l.take rooms.sum)) ∧
      ∀ name ino, name ≠ [] → name.length ≤ aufs_NAMELEN →
        (∃ k < dir.slots, (s.disk.dirent k).ino = 0) →
        ∃ k dir' s', aufs_add_entry dir name ino s = .ok s' ∧ s'.memory aufs_ROOT_INO = some dir' ∧
          (s.disk.dirent k).ino = 0 ∧ (∀ j < k, (s.disk.dirent j).ino ≠ 0) ∧
          s'.disk.dirent = Function.update s.disk.dirent k (newDirent name ino) ∧
          dir'.size = if k < dir.size / 16 then dir.size else dir.size + 16 := by
  obtain ⟨dir, hd, hm⟩ := hrun.numbers h₀
  have hsize := hd.size
  refine ⟨dir, hd.root, ?_, ?_, hsize, ?_, ?_, ?_⟩
  · intro q hq
    rw [hd.lookup hq.length, hm q hq]
  · intro q hq
    unfold lookup aufs_find_entry
    rw [if_pos hq]
    rfl
  · intro k hk hlive
    by_contra hbehind
    have hfree := hd.tail k (by omega) hk
    exact hlive ((live_eq_false _).mp hfree)
  · refine ⟨_, dirents.listing_nodup s.disk.dirent dir.slots, fun k => ?_, hd.readAll⟩
    rw [dirents.mem_listing, live_iff]
  · intro name ino hname hlength hroom
    cases hadd : aufs_add_entry dir name ino s with
    | error e =>
      exfalso
      unfold aufs_add_entry at hadd
      rw [if_neg hname, if_neg (Nat.not_lt.mpr hlength)] at hadd
      split at hadd
      · next hnone =>
        obtain ⟨k, hk, hfree⟩ := hroom
        have hlive := List.find?_eq_none.mp hnone k (List.mem_range.mpr hk)
        exact hlive (decide_eq_true hfree)
      · cases hadd
    | ok s' =>
      obtain ⟨k, dir', hfirst, hdir', -, hupdate, hgrows⟩ := hd.add hadd
      obtain ⟨-, hfree, hbefore⟩ := dirents.firstFree_some hfirst
      refine ⟨k, dir', s', rfl, hdir'.root, (live_eq_false _).mp hfree,
        fun j hj => (live_iff _).mp (hbefore j hj), hupdate, ?_⟩
      rcases hgrows with ⟨hin, hsame⟩ | ⟨hend, hmore⟩
      · rw [if_pos hin, hsame]
      · rw [if_neg (by omega), hmore]

theorem image_directory : Directory image.mounted (image.inode aufs_ROOT_INO).load where
  root := rfl
  size := by decide
  inside := by decide
  tail k hk _ := by
    have hk2 : ¬k < 2 := Nat.not_lt.mpr hk
    change decide ((if k < 2 then (⟨2, fun j => if j ≤ k then 46 else 0⟩ : Dirent)
      else ⟨0, fun _ => 0⟩).ino ≠ 0) = false
    rw [if_neg hk2]
    rfl

/-- One name is added and cleared, and another is added. -/
theorem directory_is_map_image : ∃ s dir, s.memory aufs_ROOT_INO = some dir ∧
    lookup s dir [66] = some 4 ∧ lookup s dir [65] = none ∧ lookup s dir [46] = some 2 := by
  have h₀ : DirRun image.mounted (numbers image.mounted (image.inode aufs_ROOT_INO).load) _ _ := .start
  have h₁ : DirRun image.mounted _ _ (Function.update _ [65] [3]) :=
    h₀.add rfl ⟨by decide, by decide⟩ (by decide) rfl rfl
  have h₂ : DirRun image.mounted _ _ (Function.update _ [65] _) :=
    h₁.clear rfl ⟨by decide, by decide⟩ rfl
  have h₃ : DirRun image.mounted _ _ (Function.update _ [66] [4]) :=
    h₂.add rfl ⟨by decide, by decide⟩ (by decide) rfl rfl
  obtain ⟨dir, hroot, hfind, -⟩ := directory_is_map image_directory h₃
  refine ⟨_, dir, hroot, ?_, ?_, ?_⟩
  · rw [hfind [66] ⟨by decide, by decide⟩]
    rfl
  · rw [hfind [65] ⟨by decide, by decide⟩]
    rfl
  · rw [hfind [46] ⟨by decide, by decide⟩]
    rfl

end Linux011.Aufs
