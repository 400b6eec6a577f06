import Linux011.AufsDirectory

set_option autoImplicit false

/-!
# `aufs_rename`

A new name is added for the inode only where it is not there yet. A name that is there keeps its inode,
while the old name is cleared all the same.
-/
namespace Linux011.Aufs
open SlotTables

variable {d : Disk} {s s' : Vol} {dir v : Inode} {name old new q : List UInt8} {k ino flags : ℕ}

def S_IFMT : UInt16 := 0o170000

/-- `aufs_rename` in the root directory, for the inodes that the VFS knows under the names.
    `RENAME_NOREPLACE` is 1, and `EPERM` is never returned. -/
def aufs_rename (dir : Inode) (old : List UInt8) (oldIno : ℕ) (oldInode : Inode) (new : List UInt8)
    (newInode : Option (ℕ × Inode)) (flags : ℕ) (s : Vol) : Except Errno Vol :=
  if 1 < flags then .error .EINVAL
  else if oldInode.mode &&& S_IFMT = S_IFDIR then .error .EINVAL
  else match aufs_find_entry dir old s with
  | none => .error .ENOENT
  | some k =>
    if (s.disk.dirent k).ino.toNat ≠ oldIno then .error .ENOENT
    else
      (if aufs_find_entry dir new s = none ∨ newInode = none then aufs_add_entry dir new oldIno s
        else .ok s).map fun s =>
      let s := clearEntry s ((s.memory aufs_ROOT_INO).getD dir) k
      match newInode with
      | none => s
      | some (ino, v) => s.setInode ino { v with nlink := v.nlink - 1, dirty := true }

/-! ### What `aufs_rename` starts from -/

/-- A volume whose root directory is in order: no two entries have one name, and the links of the files
    are right. -/
structure Orderly (d : Disk) (s : Vol) (dir : Inode) : Prop where
  sound : Sound d s
  directory : Directory s dir
  distinct : ∀ j < dir.slots, ∀ k < dir.slots, (s.disk.dirent j).ino ≠ 0 ∧ (s.disk.dirent k).ino ≠ 0 ∧
    (s.disk.dirent j).text = (s.disk.dirent k).text → j = k

/-- What the VFS knows of the names: the old one is that of a file, and the new one is absent or that of
    another file. -/
structure Renamed (s : Vol) (dir : Inode) (old : List UInt8) (oldIno : ℕ) (oldInode : Inode)
    (new : List UInt8) (newInode : Option (ℕ × Inode)) : Prop where
  oldName : Nameable old
  newName : Nameable new
  oldFile : s.file oldIno = some oldInode
  oldFound : lookup s dir old = some oldIno
  absent : newInode = none → lookup s dir new = none
  present : ∀ ino v, newInode = some (ino, v) →
    s.file ino = some v ∧ lookup s dir new = some ino ∧ ino ≠ oldIno

/-- What `aufs_rename` is to do. -/
structure RenameRight (d : Disk) (s : Vol) (dir : Inode) (old : List UInt8) (oldIno : ℕ)
    (new : List UInt8) (s' : Vol) (dir' : Inode) : Prop where
  root : s'.memory aufs_ROOT_INO = some dir'
  newName : lookup s' dir' new = some oldIno
  oldName : lookup s' dir' old = none
  others : ∀ q, Nameable q → q ≠ old → q ≠ new → lookup s' dir' q = lookup s dir q
  links : ∀ i n, s'.nlink i = some n → i ≠ aufs_ROOT_INO → n.toNat = s'.disk.links d.slots i

/-! ### The two ways -/

/-- At most one entry has a name. -/
theorem Orderly.numbers_le (h : Orderly d s dir) (hq : Nameable q) : (numbers s dir q).length ≤ 1 := by
  have hinside := h.directory.inside
  have hall : ∀ j ∈ dirents.held s.disk.dirent (dir.size / 16) q, j < dir.slots ∧
      (s.disk.dirent j).ino ≠ 0 ∧ (s.disk.dirent j).text = q := by
    intro j hj
    obtain ⟨hlt, hlive, hanswers⟩ := dirents.mem_held.mp hj
    exact ⟨by omega, (live_iff _).mp hlive, (answers_iff hq _).mp hanswers⟩
  unfold numbers
  rw [List.length_map, ← List.toFinset_card_of_nodup (dirents.held_nodup _ _ _), Finset.card_le_one]
  intro j hj k hk
  obtain ⟨hjs, hjl, hjt⟩ := hall j (List.mem_toFinset.mp hj)
  obtain ⟨hks, hkl, hkt⟩ := hall k (List.mem_toFinset.mp hk)
  exact h.distinct j hjs k hks ⟨hjl, hkl, hjt.trans hkt.symm⟩

theorem Renamed.distinct {oldIno : ℕ} {oldInode : Inode} {newInode : Option (ℕ × Inode)}
    (h : Renamed s dir old oldIno oldInode new newInode) : old ≠ new := by
  rintro rfl
  have hfound := h.oldFound
  cases newInode with
  | none =>
    rw [h.absent rfl] at hfound
    cases hfound
  | some x =>
    obtain ⟨-, hnew, hne⟩ := h.present x.1 x.2 rfl
    rw [hnew] at hfound
    exact hne (Option.some.inj hfound)

theorem lookup_none : lookup s dir q = none ↔ aufs_find_entry dir q s = none := by
  unfold lookup
  exact Option.map_eq_none_iff

/-- The old name loses its entry, and nothing else is changed. -/
theorem Orderly.clear_lookup (h : Directory s dir) (hdistinct : (numbers s dir old).length ≤ 1)
    (hold : Nameable old) (hfound : aufs_find_entry dir old s = some k) :
    lookup (clearEntry s dir k) { dir with dirty := true } old = none ∧
    ∀ q, Nameable q → q ≠ old →
      lookup (clearEntry s dir k) { dir with dirty := true } q = lookup s dir q := by
  have hd := h.clear k
  constructor
  · rw [hd.lookup hold.length, h.clear_numbers hold hfound hold, Function.update_self,
      List.head?_eq_none_iff, ← List.length_eq_zero_iff, List.length_tail]
    omega
  · intro q hq hne
    rw [hd.lookup hq.length, h.clear_numbers hold hfound hq, Function.update_of_ne hne,
      h.lookup hq.length]

/-- An entry that is added and one for the same inode that is cleared leave the links as they were. -/
theorem links_moved {disk₁ disk₂ : Disk} {disk : Disk} {slots j : ℕ} {e e₁ : Dirent} (hk : k < slots)
    (hj : j < slots) (hjk : j ≠ k) (hfree : (disk.dirent j).ino = 0) (he : e.ino = (disk.dirent k).ino)
    (h₁ : disk₁.dirent = Function.update disk.dirent j e) (he₁ : e₁.ino = 0)
    (h₂ : disk₂.dirent = Function.update disk₁.dirent k e₁) (i : ℕ) :
    disk₂.links slots i = disk.links slots i := by
  have hadd := links_update hj h₁ i
  have hclear := links_update hk h₂ i
  rw [h₁, Function.update_of_ne hjk.symm, he₁] at hclear
  rw [hfree, he] at hadd
  omega

/-- The root is not among the files that are renamed. -/
theorem clearEntry_nlink (h : Base d s) (hdir : s.memory aufs_ROOT_INO = some dir)
    (hsize : dir.size ≤ d.slots * 16) (k : ℕ) : (clearEntry s dir k).nlink = s.nlink :=
  ((h.setDirent k { s.disk.dirent k with ino := 0 }).setRoot hdir hsize).2.2

variable {oldIno : ℕ} {oldInode : Inode} {newInode : Option (ℕ × Inode)}

/-- Where the new name is absent, it is added before the old one is cleared. -/
theorem Orderly.rename_absent (h : Orderly d s dir)
    (hr : Renamed s dir old oldIno oldInode new newInode) (habsent : aufs_find_entry dir new s = none)
    (hfound : aufs_find_entry dir old s = some k) (hk : (s.disk.dirent k).ino.toNat = oldIno) {s₁ : Vol}
    (hadd : aufs_add_entry dir new oldIno s = .ok s₁) :
    ∃ dir', RenameRight d s dir old oldIno new
      (clearEntry s₁ ((s₁.memory aufs_ROOT_INO).getD dir) k) dir' := by
  obtain ⟨hroot, hm⟩ := file_some.mp hr.oldFile
  have hd := h.directory
  have hne := hr.distinct
  have hnumber := h.sound.accepted.number_lt (h.sound.number hm)
  have hlow := (mem_numbers.mp (h.sound.number hm)).1
  have hino : 0 < oldIno ∧ oldIno < 65536 := by
    unfold aufs_ROOT_INO at hlow
    omega
  obtain ⟨dirB, hdirB, -, hslots, -⟩ := h.sound.root
  obtain rfl : dirB = dir := Option.some.inj (hdirB.symm.trans hd.root)
  obtain ⟨j, dir₁, hfirst, hd₁, hupdate, hheld⟩ :=
    hd.add_held hr.newName (inode_number hino).2 habsent hadd
  obtain ⟨hj, hfree, -⟩ := dirents.firstFree_some hfirst
  obtain ⟨dir₂, hd₂, hnumbers⟩ := hd.add_numbers hr.newName hino habsent hadd
  obtain rfl : dir₁ = dir₂ := Option.some.inj (hd₁.root.symm.trans hd₂.root)
  -- the old entry is where it was
  have hold₁ : aufs_find_entry dir₁ old s₁ = some k := by
    rw [hd₁.find hr.oldName.length, dirents.find_eq_head, hheld old hr.oldName, if_neg hne,
      ← dirents.find_eq_head, ← hd.find hr.oldName.length]
    exact hfound
  have hkslots : k < dirB.slots ∧ dirents.live (s.disk.dirent k) = true := by
    rw [hd.find hr.oldName.length] at hfound
    obtain ⟨hlt, hlive, -⟩ := dirents.find_some hfound
    have hinside := hd.inside
    exact ⟨by omega, hlive⟩
  have hdistinct : (numbers s₁ dir₁ old).length ≤ 1 := by
    rw [hnumbers old hr.oldName, Function.update_of_ne hne]
    exact h.numbers_le hr.oldName
  obtain ⟨hgone, hothers⟩ := Orderly.clear_lookup hd₁ hdistinct hr.oldName hold₁
  have hlookup : ∀ q, Nameable q → q ≠ old → lookup (clearEntry s₁ dir₁ k) { dir₁ with dirty := true } q =
      (Function.update (numbers s dirB) new [oldIno] q).head? := by
    intro q hq hqo
    rw [hothers q hq hqo, hd₁.lookup hq.length, hnumbers q hq]
  rw [hd₁.root, Option.getD_some]
  refine ⟨_, (hd₁.clear k).root, ?_, hgone, ?_, ?_⟩
  · rw [hlookup new hr.newName hne.symm, Function.update_self]
    rfl
  · intro q hq hqo hqn
    rw [hlookup q hq hqo, Function.update_of_ne hqn, hd.lookup hq.length]
  · intro i n hn hi
    have hent := h.sound.toBase.add_entry hd.root hadd
    have hsize₁ : dir₁.size ≤ d.slots * 16 := by
      obtain ⟨dirC, hdirC, -, -, hsize⟩ := hent.base.root
      obtain rfl : dirC = dir₁ := Option.some.inj (hdirC.symm.trans hd₁.root)
      exact hsize
    rw [clearEntry_nlink hent.base hd₁.root hsize₁, hent.nlink] at hn
    rw [h.sound.links i n hn hi]
    have hjk : j ≠ k := by
      rintro rfl
      rw [hkslots.2] at hfree
      cases hfree
    rw [← hslots]
    refine (links_moved hkslots.1 hj hjk ((live_eq_false _).mp hfree) ?_ hupdate ?_ rfl i).symm
    · apply UInt16.toNat_inj.mp
      rw [hk]
      exact (inode_number hino).1
    · rfl

/-- Where it is present, it keeps its inode. -/
theorem Orderly.rename_present (h : Orderly d s dir) {w : Inode}
    (hr : Renamed s dir old oldIno oldInode new (some (ino, v)))
    (hfound : aufs_find_entry dir old s = some k) (dir' : Inode) :
    ¬RenameRight d s dir old oldIno new ((clearEntry s dir k).setInode ino w) dir' := by
  intro hright
  obtain ⟨hfile, hnew, hne⟩ := hr.present ino v rfl
  obtain ⟨hroot, -⟩ := file_some.mp hfile
  have hsame : ((clearEntry s dir k).setInode ino w).memory aufs_ROOT_INO =
      (clearEntry s dir k).memory aufs_ROOT_INO := Function.update_of_ne (Ne.symm hroot) _ _
  have hdir' := hright.root
  rw [hsame, (h.directory.clear k).root] at hdir'
  cases hdir'
  have hkept := (Orderly.clear_lookup h.directory (h.numbers_le hr.oldName) hr.oldName hfound).2
    new hr.newName hr.distinct.symm
  have hnow := hright.newName
  change lookup (clearEntry s dir k) { dir with dirty := true } new = some oldIno at hnow
  rw [hkept, hnew] at hnow
  exact hne (Option.some.inj hnow)

/-- A rename that succeeds is right if and only if the new name was absent. -/
theorem rename_right_iff (h : Orderly d s dir) (hr : Renamed s dir old oldIno oldInode new newInode)
    (hok : aufs_rename dir old oldIno oldInode new newInode flags s = .ok s') :
    (∃ dir', RenameRight d s dir old oldIno new s' dir') ↔ aufs_find_entry dir new s = none := by
  unfold aufs_rename at hok
  split at hok
  · cases hok
  · split at hok
    · cases hok
    · cases hfound : aufs_find_entry dir old s with
      | none =>
        rw [hfound] at hok
        cases hok
      | some k =>
        rw [hfound] at hok
        dsimp only at hok
        split at hok
        · cases hok
        · next hk =>
          have hk' := not_not.mp hk
          by_cases habsent : aufs_find_entry dir new s = none
          · refine iff_of_true ?_ habsent
            have hnone : newInode = none := by
              cases newInode with
              | none => rfl
              | some x =>
                have hnew := (hr.present x.1 x.2 rfl).2.1
                rw [lookup_none.mpr habsent] at hnew
                cases hnew
            subst hnone
            rw [if_pos (.inl habsent)] at hok
            cases hadd : aufs_add_entry dir new oldIno s with
            | error e =>
              rw [hadd] at hok
              cases hok
            | ok s₁ =>
              rw [hadd] at hok
              cases hok
              exact h.rename_absent hr habsent hfound hk' hadd
          · refine iff_of_false ?_ habsent
            cases newInode with
            | none => exact absurd (lookup_none.mp (hr.absent rfl)) habsent
            | some x =>
              rw [if_neg (not_or.mpr ⟨habsent, fun hc => nomatch hc⟩)] at hok
              cases hok
              rintro ⟨dir', hright⟩
              dsimp only at hright
              rw [h.directory.root, Option.getD_some] at hright
              exact h.rename_present hr hfound dir' hright

/-- A volume with one file, and one with two. -/
def oneFile : Vol := (run image.mounted [.create [65] 0o644 0 0]).getD image.mounted

def twoNames : Vol := (run oneFile [.create [66] 0o644 0 0]).getD oneFile

def rootOf (s : Vol) : Inode := (s.memory aufs_ROOT_INO).getD (image.inode aufs_ROOT_INO).load

def fileOf (s : Vol) (ino : ℕ) : Inode := (s.file ino).getD (image.inode aufs_ROOT_INO).load

theorem oneFile_orderly : Orderly image oneFile (rootOf oneFile) where
  sound := run_sound (mounted_sound image_consistent image_accepted) (rfl : run image.mounted
    [.create [65] 0o644 0 0] = some oneFile)
  directory := by
    have hfree : ∀ k < 32, 3 ≤ k → dirents.live (oneFile.disk.dirent k) = false := by decide +kernel
    exact ⟨rfl, by decide +kernel, by decide +kernel, fun k h3 h32 => hfree k h32 h3⟩
  distinct := by decide +kernel

theorem rename_right_iff_one : ∃ s', aufs_rename (rootOf oneFile) [65] 3 (fileOf oneFile 3) [66] none 0
      oneFile = .ok s' ∧
    ((∃ dir', RenameRight image oneFile (rootOf oneFile) [65] 3 [66] s' dir') ↔
      aufs_find_entry (rootOf oneFile) [66] oneFile = none) := by
  have hr : Renamed oneFile (rootOf oneFile) [65] 3 (fileOf oneFile 3) [66] none :=
    ⟨⟨by decide, by decide⟩, ⟨by decide, by decide⟩, rfl, rfl, fun _ => rfl, fun _ _ h => nomatch h⟩
  have hok : aufs_rename (rootOf oneFile) [65] 3 (fileOf oneFile 3) [66] none 0 oneFile = .ok _ := rfl
  exact ⟨_, hok, rename_right_iff oneFile_orderly hr hok⟩

/-- A file is renamed to the name of another: its own name is gone, and the new one still is that of the
    other file, which now has no link. -/
theorem rename_orphans : ∃ s', aufs_rename (rootOf twoNames) [65] 3 (fileOf twoNames 3) [66]
      (some (4, fileOf twoNames 4)) 0 twoNames = .ok s' ∧
    lookup s' (rootOf s') [65] = none ∧ lookup s' (rootOf s') [66] = some 4 ∧ s'.nlink 4 = some 0 ∧
    s'.disk.links 32 3 = 0 ∧ s'.nlink 3 = some 1 ∧
    ¬∃ dir', RenameRight image twoNames (rootOf twoNames) [65] 3 [66] s' dir' := by
  have hok : aufs_rename (rootOf twoNames) [65] 3 (fileOf twoNames 3) [66]
      (some (4, fileOf twoNames 4)) 0 twoNames = .ok _ := rfl
  refine ⟨_, hok, by decide +kernel, by decide +kernel, by decide +kernel, by decide +kernel,
    by decide +kernel, ?_⟩
  rintro ⟨dir', hright⟩
  have hnew := hright.newName
  have hroot := hright.root
  cases hroot
  exact absurd hnew (by decide +kernel)

end Linux011.Aufs
