import Linux011.FsTruncate

set_option autoImplicit false

/-!
# References that path walks keep

`open_namei` may make a file or truncate one. In any case one reference is taken if it succeeds, and
none if it fails.
-/
namespace Linux011.Minix
open Outcomes

/-- Apart from a reference to the inode that is returned, if one is, all counts are what they were, and
    the inodes that were in use are still where they were in the table. -/
structure Conserved (s s' : Fs) (r : Option Slot) : Prop where
  count : ∀ i, (s'.inodes i).count = (s.inodes i).count + if r = some i then 1 else 0
  bcount : s'.bcount = s.bcount
  same : ∀ i, (s.inodes i).count ≠ 0 → s'.slotId i = s.slotId i

/-- What `open_namei` returns by reference. -/
def openedInode : Except Errno Slot → Option Slot
  | .error _ => none
  | .ok i => some i

section
variable {live : ℕ → ℕ → Prop} {s₀ s s' : Fs} {held : List Slot} {bufs : List Buffer}

theorem Refs.conserved {r : Option Slot} (h : Refs s s' r.toList []) : Conserved s s' r := by
  refine ⟨fun i => ?_, funext fun b => h.bcount b, h.same⟩
  rw [h.count i]
  cases r with
  | none => rfl
  | some j => simp [List.count_singleton]

theorem Arrived.conserved {dest : Option (ℕ × ℕ)} {r : Option Slot}
    (h : Arrived live s s' [] [] dest r) : Conserved s s' r := by
  cases r with
  | none => exact h.1.refs.conserved
  | some i => exact Refs.conserved (r := some i) h.1.refs

/-! ### Opening a file that is there -/

theorem core_blockAt (d : DInode) (data : ℕ → Block) (p : Place) :
    d.core.blockAt data p = d.blockAt data p := by
  cases p <;> rfl

/-- An inode that is held is truncated. -/
theorem truncate_refs (h₀ : Tree live s₀) (hown : Owned live s₀) {i : Slot}
    (h : Walk live s₀ s (i :: held) []) (hd : (s.inodes i).dev ≠ 0) :
    (truncate i s).Sat (fun _ s' => Refs s₀ s' (i :: held) []) fun _ => True := by
  by_cases hm : isReg (s.inodes i).mode ∨ isDir (s.inodes i).mode
  · have hlive := h.inTheTree hd
    have hcore := h.slot h₀ hlive
    have hm₀ : isReg (s₀.inodeOf (s.inodes i).dev (s.inodes i).num).mode ∨
        isDir (s₀.inodeOf (s.inodes i).dev (s.inodes i).num).mode := by
      rw [← hcore]
      exact hm
    have hat : ∀ p, (s.inodes i).blockAt (s.blocks (s.inodes i).dev) p =
        (s₀.inodeOf (s.inodes i).dev (s.inodes i).num).blockAt (s₀.blocks (s.inodes i).dev) p := by
      intro p
      rw [← h.blockAt h₀ hlive hm₀ p, ← hcore, core_blockAt]
    have hway : OnTheWay i s s (List.finRange 7) := by
      refine ⟨.refl i s, rfl, fun _ _ => rfl, fun p p' => ?_, ?_⟩
      · rw [hat, hat]
        exact hown.distinct _ _ p p' hlive hm₀
      · rintro n ⟨hn, p, -, rfl⟩
        rw [hat] at hn ⊢
        have hunused := hown.unused _ _ p hlive hm₀ hn
        refine ⟨?_, fun hmap => ?_, rfl⟩
        · rw [h.bcount, hunused]
          rfl
        · unfold Fs.IsMap at hmap
          rw [h.supers] at hmap
          obtain ⟨k, n, hkn⟩ := hmap
          exact hown.maps k n _ hkn hunused
    exact (truncate_way hway).post fun _ s₁ ⟨hb, ht⟩ => h.refs.altered ht.altered hb
  · unfold truncate
    rw [if_pos hm]
    exact h.refs

theorem openFile_refs (h₀ : Tree live s₀) (hown : Owned live s₀) {dir : Slot} {b : Buffer} {j : ℕ}
    (h : Walk live s₀ s (dir :: held) [b]) (hh : held.length ≤ 80) (hk : Kept s dir)
    {child : Option (ℕ × ℕ)} (hled : Led live s₀ s dir child (some (b, j))) (flag : ℕ) :
    (openFile dir (b, j) flag s).Sat (fun r s' => Opened s₀ s' held [] r) fun _ => True := by
  obtain ⟨hlive, hlinks, -⟩ := hled
  have hgone : ∀ w, Gone w → True := fun _ _ => trivial
  unfold openFile
  simp only
  have h : Walk live s₀ s (dir :: held) ((some b).toList ++ []) := h
  have hrelease := brelse_walk h
  refine (hrelease.mono (fun _ _ hq => hq) hgone).bind fun _ s₁ ⟨⟨bcount, hs₁⟩, h₁⟩ => ?_
  have hk₁ : Kept s₁ dir := by
    subst hs₁
    exact ⟨hk.dev, hk.links⟩
  have hput := hk₁.put h₀ h₁ (by simp)
  refine (hput.mono (fun _ _ hq => hq) hgone).bind fun _ s₂ h₂ => ?_
  by_cases hexcl : flag &&& O_EXCL ≠ 0
  · rw [if_pos hexcl]
    exact h₂.refs
  rw [if_neg hexcl]
  have hget := iget_walk h₀ h₂ (by simp) (by omega) hlive hlinks
  refine (hget.mono (fun _ _ hq => hq) hgone).bind fun i s₃ ⟨h₃, hid⟩ => ?_
  obtain ⟨hlive₃, hlinks₃, -⟩ := h₀.cross hlive hlinks
  rw [← hid] at hlive₃ hlinks₃
  simp only at hlive₃ hlinks₃
  have hd₃ := (h₀.super hlive₃).1
  have hk₃ : Kept s₃ i := by
    refine ⟨hd₃, fun _ => ?_⟩
    rw [← h₃.slot h₀ hlive₃] at hlinks₃
    exact hlinks₃
  by_cases hbad : (isDir (s₃.inodes i).mode ∧ flag &&& O_ACCMODE ≠ 0) ∨
      permission (s₃.inodes i) (accMode flag) s₃.task = false
  · rw [if_pos hbad]
    have hput₃ := hk₃.put h₀ h₃ (by simp)
    exact (hput₃.mono (fun _ _ hq => hq) hgone).bind fun _ s₄ h₄ => h₄.refs
  · rw [if_neg hbad]
    by_cases htrunc : flag &&& O_TRUNC ≠ 0
    · rw [if_pos htrunc]
      exact (truncate_refs h₀ hown h₃ hd₃).bind fun _ s₄ h₄ => h₄
    · rw [if_neg htrunc]
      exact h₃.refs

/-! ### All path walks -/

/-- Without a root or a directory that it is in, no task walks along a path. -/
theorem getDir_task {path : List UInt8} {r : Option Slot} (h : getDir path s = .ok r s') :
    ∃ root pwd, s.task.root = some root ∧ s.task.pwd = some pwd := by
  unfold getDir at h
  cases hr : s.task.root with
  | none =>
    rw [hr] at h
    cases h
  | some root =>
    cases hp : s.task.pwd with
    | none =>
      have htask : taskInode s.task.root .noRootInode s = .stop .noRootInode ∨
          taskInode s.task.root .noRootInode s = .ok root s := by
        rw [hr]
        unfold taskInode
        simp only
        split_ifs
        · exact .inl rfl
        · exact .inr rfl
      rcases htask with ht | ht
      · rw [ht] at h
        cases h
      · rw [ht, Outcome.bind_ok, hp] at h
        cases h
    | some pwd => exact ⟨root, pwd, rfl, rfl⟩

theorem dirNamei_conserved (h₀ : Tree live s) (path : List UInt8) :
    (dirNamei path s).Sat (fun r s' => Conserved s s' (r.map Prod.fst)) fun _ => True := by
  cases hd : dirNamei path s with
  | stop w => trivial
  | ok r s' =>
    have hget : ∃ dir s₁, getDir path s = .ok dir s₁ := by
      unfold dirNamei at hd
      cases hg : getDir path s with
      | stop w =>
        rw [hg] at hd
        cases hd
      | ok dir s₁ => exact ⟨dir, s₁, rfl⟩
    obtain ⟨dir, s₁, hg⟩ := hget
    obtain ⟨root, pwd, hroot, hpwd⟩ := getDir_task hg
    have hwalk := dirNamei_walk h₀ h₀.walk (by simp) (by simp) hroot hpwd path
    exact (hwalk.of_ok hd).1.conserved

theorem namei_conserved (h₀ : Tree live s) (path : List UInt8) :
    (namei path s).Sat (fun r s' => Conserved s s' r) fun _ => True := by
  cases hn : namei path s with
  | stop w => trivial
  | ok r s' =>
    have hget : ∃ dir s₁, getDir path s = .ok dir s₁ := by
      unfold namei dirNamei at hn
      cases hg : getDir path s with
      | stop w =>
        rw [hg] at hn
        cases hn
      | ok dir s₁ => exact ⟨dir, s₁, rfl⟩
    obtain ⟨dir, s₁, hg⟩ := hget
    obtain ⟨root, pwd, hroot, hpwd⟩ := getDir_task hg
    have hwalk := namei_walk h₀ h₀.walk (by simp) (by simp) hroot hpwd path
    exact (hwalk.of_ok hn).conserved

theorem openNamei_refs (h₀ : Tree live s) (hown : Owned live s) {root pwd : Slot}
    (hroot : s.task.root = some root) (hpwd : s.task.pwd = some pwd) (path : List UInt8)
    (flag mode : ℕ) :
    (openNamei path flag mode s).Sat (fun r s' => Opened s s' [] [] r) fun _ => True := by
  have hgone : ∀ w, Gone w → True := fun _ _ => trivial
  unfold openNamei
  simp only
  generalize (if flag &&& O_TRUNC ≠ 0 ∧ flag &&& O_ACCMODE = 0 then flag ||| O_WRONLY else flag) =
    flag'
  have hdir := dirNamei_walk h₀ h₀.walk (by simp) (by simp) hroot hpwd path
  refine (hdir.mono (fun _ _ hq => hq) hgone).bind fun r s₁ ⟨harr, hmay⟩ => ?_
  cases r with
  | none => exact harr.1.refs
  | some p =>
    obtain ⟨dir, name⟩ := p
    obtain ⟨rfl, henter⟩ := hmay dir name rfl
    obtain ⟨h₁, hk₁, -⟩ := harr
    simp only
    by_cases hempty : basename path = []
    · rw [if_pos hempty]
      by_cases hflag : flag' &&& (O_ACCMODE ||| O_CREAT ||| O_TRUNC) = 0
      · rw [if_pos hflag]
        exact h₁.refs
      · rw [if_neg hflag]
        have hput := hk₁.put h₀ h₁ (by simp)
        exact (hput.mono (fun _ _ hq => hq) hgone).bind fun _ s₂ h₂ => h₂.refs
    · rw [if_neg hempty]
      have hfind := findEntry_walk h₀ h₁ (by simp) (by simp) hk₁.dev henter.1
        (mayEnter_links hk₁.dev henter) (basename path)
      refine (hfind.mono (fun _ _ hq => hq) hgone).bind fun r s₂ ⟨h₂, hd₂, hlinks₂, hled⟩ => ?_
      obtain ⟨dir', found⟩ := r
      have hk₂ : Kept s₂ dir' := ⟨hd₂, hlinks₂⟩
      cases found with
      | none =>
        have h₂ : Walk live s s₂ [dir'] [] := h₂
        simp only
        by_cases hcreate : flag' &&& O_CREAT = 0
        · rw [if_pos hcreate]
          have hput := hk₂.put h₀ h₂ (by simp)
          exact (hput.mono (fun _ _ hq => hq) hgone).bind fun _ s₃ h₃ => h₃.refs
        · rw [if_neg hcreate]
          exact createFile_refs h₀ h₂.refs (by simp) hk₂ _ _
      | some p =>
        obtain ⟨b, j⟩ := p
        have h₂ : Walk live s s₂ [dir'] [b] := h₂
        exact openFile_refs h₀ hown h₂ (by simp) hk₂ hled _

theorem openNamei_conserved (h₀ : Tree live s) (hown : Owned live s) (path : List UInt8)
    (flag mode : ℕ) : (openNamei path flag mode s).Sat
      (fun r s' => Conserved s s' (openedInode r)) fun _ => True := by
  cases ho : openNamei path flag mode s with
  | stop w => trivial
  | ok r s' =>
    have hget : ∃ dir s₁, getDir path s = .ok dir s₁ := by
      unfold openNamei dirNamei at ho
      cases hg : getDir path s with
      | stop w =>
        rw [hg] at ho
        cases ho
      | ok dir s₁ => exact ⟨dir, s₁, rfl⟩
    obtain ⟨dir, s₁, hg⟩ := hget
    obtain ⟨root, pwd, hroot, hpwd⟩ := getDir_task hg
    have hopen := (openNamei_refs h₀ hown hroot hpwd path flag mode).of_ok ho
    cases r with
    | error e => exact Refs.conserved (r := none) hopen
    | ok i => exact Refs.conserved (r := some i) hopen

/-- In every tree, along every path: if the call fails, no count has changed; if it succeeds, the inode
    that is returned has one reference more. Blocks that cannot be read change nothing in that. -/
theorem paths_conserve (h₀ : Tree live s) (hown : Owned live s) (path : List UInt8) :
    (∀ r s', namei path s = .ok r s' → Conserved s s' r) ∧
    (∀ r s', dirNamei path s = .ok r s' → Conserved s s' (r.map Prod.fst)) ∧
    ∀ flag mode r s', openNamei path flag mode s = .ok r s' →
      Conserved s s' (openedInode r) :=
  ⟨fun _ _ h => (namei_conserved h₀ path).of_ok h, fun _ _ h => (dirNamei_conserved h₀ path).of_ok h,
    fun flag mode _ _ h => (openNamei_conserved h₀ hown path flag mode).of_ok h⟩

end

/-! ### A disk with a root directory -/

def rootDirectory : DInode := ⟨0o040755, 0, 32, 0, 0, 2, fun z => if z = 0 then 5 else 0⟩

/-- The entries `.` and `..`. -/
def rootEntries : Block := fun o =>
  if o = 0 ∨ o = 16 then 1 else if o = 2 ∨ o = 18 ∨ o = 19 then dot else 0

/-- The root directory, on the only device. -/
def disk : Fs where
  inodes i :=
    if i = 0 then
      { toDInode := rootDirectory, dev := 1, num := ROOT_INO, count := 4, dirt := false, pipe := false,
        mount := false }
    else Inode.empty
  last := 0
  supers k :=
    { ninodes := 32, nzones := 64, imapBlocks := 1, zmapBlocks := 1, firstdatazone := 5,
      magic := SUPER_MAGIC, imap := fun n => if n = 0 then some (1, 2) else none,
      zmap := fun n => if n = 0 then some (1, 3) else none, dev := if k.val = 0 then 1 else 0,
      isup := if k.val = 0 then some 0 else none,
      imount := if k.val = 0 then some 0 else none }
  bcount b := if b = (1, 2) ∨ b = (1, 3) then 1 else 0
  data b :=
    if b = (1, 4) then encode rootDirectory 0 fun _ => 0
    else if b = (1, 5) then rootEntries else fun _ => 0
  reads := []
  stale _ := fun _ => 0
  time := 0
  task := ⟨some 0, some 0, 0, 0, 0⟩
  rootDev := 1

def onlyRoot (dev nr : ℕ) : Prop := dev = 1 ∧ nr = 1

theorem disk_inodeOf : disk.inodeOf 1 1 = rootDirectory.core := rfl

theorem disk_other {i : Slot} (h : i ≠ 0) : disk.inodes i = Inode.empty := if_neg h

theorem disk_slot {i : Slot} (h : (disk.inodes i).dev ≠ 0) : i = 0 := by
  by_contra hi
  rw [disk_other hi] at h
  exact h rfl

theorem disk_super {k : Fin NR_SUPER} (h : (disk.supers k).dev ≠ 0) : k.val = 0 := by
  by_contra hk
  exact h (if_neg hk)

/-- The directory has one block. -/
theorem disk_blockAt {p : Place} (h : (disk.inodeOf 1 1).blockAt (disk.blocks 1) p ≠ 0) :
    p = .direct 0 ∧ (disk.inodeOf 1 1).blockAt (disk.blocks 1) p = 5 := by
  rw [disk_inodeOf, core_blockAt] at h ⊢
  cases p with
  | direct z =>
    by_cases hz : z = 0
    · subst hz
      exact ⟨rfl, rfl⟩
    · refine absurd ?_ h
      have hz' : z.castLE (by decide) ≠ (0 : Fin 9) := fun hc =>
        hz (Fin.ext (congrArg Fin.val hc :))
      unfold DInode.blockAt rootDirectory
      simp only
      rw [if_neg hz']
      rfl
  | single => exact absurd rfl h
  | double => exact absurd rfl h
  | singleEntry n => exact absurd rfl h
  | doubleEntry n => exact absurd rfl h
  | doubleEntryEntry n m => exact absurd rfl h

theorem disk_block {k : ℕ} (h : (disk.inodeOf 1 1).block (disk.blocks 1) k ≠ 0) :
    k = 0 ∧ (disk.inodeOf 1 1).block (disk.blocks 1) k = 5 := by
  obtain ⟨hp, hb⟩ := disk_blockAt h
  refine ⟨?_, hb⟩
  unfold placeOf at hp
  split_ifs at hp with h7
  exact congrArg Fin.val (Place.direct.inj hp)

theorem disk_table : Table onlyRoot disk := by
  refine ⟨fun i j hi hd _ => ?_, fun i hl _ => ?_, fun i hc => ?_, fun i hd _ => ?_, fun i hd => ?_⟩
  · have hj : (disk.inodes j).dev ≠ 0 := by rwa [← hd]
    rw [disk_slot hi, disk_slot hj]
  · obtain rfl := disk_slot (i := i) (by rw [hl.1]; decide)
    exact (congrArg DInode.core (decode_encode rootDirectory 0 fun _ => 0)).symm
  · have hi : i ≠ 0 := by
      rintro rfl
      exact absurd hc (by decide)
    rw [disk_other hi]
    rfl
  · rw [disk_slot hd]
    exact ⟨rfl, rfl⟩
  · rw [disk_slot hd]
    rfl

theorem disk_tree : Tree onlyRoot disk where
  toTable := disk_table
  fewRefs i := by
    unfold disk
    simp only
    split_ifs <;> decide
  fewMaps b := by
    unfold disk
    simp only
    split_ifs <;> decide
  supers k k' hk hd := by
    have hk' : (disk.supers k').dev ≠ 0 := by rwa [← hd]
    exact Fin.ext ((disk_super hk).trans (disk_super hk').symm)
  layout k nr hk hn := by
    have hn : nr ≤ 32 := hn
    change 2 + 1 + 1 + (nr - 1) / 32 < 5
    omega
  imount k m hm := by
    unfold disk at hm
    simp only at hm
    split_ifs at hm with hk
    obtain rfl : 0 = m := Option.some.inj hm
    refine ⟨?_, by decide, by decide, by decide⟩
    change (if k.val = 0 then 1 else 0) ≠ 0
    rw [if_pos hk]
    decide
  mounted i hi := by
    unfold disk at hi
    simp only at hi
    split_ifs at hi
    cases hi
  device dev nr hl := by
    obtain ⟨rfl, rfl⟩ := hl
    exact ⟨by decide, ⟨0, by decide⟩, rfl, by decide, by decide⟩
  root k hk := by
    obtain rfl : k = ⟨0, by decide⟩ := Fin.ext (disk_super hk)
    exact ⟨⟨rfl, rfl⟩, by decide⟩
  task i hi := by
    have h0 : i = 0 := by
      rcases hi with hi | hi
      · exact (Option.some.inj hi).symm
      · exact (Option.some.inj hi).symm
    rw [h0]
    decide
  zones dev nr k p hl hk _ hb := by
    obtain ⟨rfl, rfl⟩ := hl
    rw [(disk_blockAt hb).2]
    exact le_rfl
  entries dev nr k j hl _ hb hj hlt he := by
    obtain ⟨rfl, rfl⟩ := hl
    obtain ⟨rfl, hb5⟩ := disk_block hb
    rw [hb5]
    have hsize : (disk.inodeOf 1 1).size.toNat / 16 = 2 := by decide
    unfold DIR_ENTRIES_PER_BLOCK at hlt
    have hj2 : j = 0 ∨ j = 1 := by omega
    rcases hj2 with rfl | rfl
    · exact ⟨⟨rfl, by decide⟩, by decide⟩
    · exact ⟨⟨rfl, by decide⟩, by decide⟩
  dots dev nr hl _ := by
    obtain ⟨rfl, rfl⟩ := hl
    decide

theorem disk_owned : Owned onlyRoot disk := by
  refine ⟨fun dev nr p p' hl _ hb he => ?_, fun dev nr p hl _ hb => ?_, fun k n b hb => ?_⟩
  · obtain ⟨rfl, rfl⟩ := hl
    have hb' : (disk.inodeOf 1 1).blockAt (disk.blocks 1) p' ≠ 0 := by rwa [← he]
    rw [(disk_blockAt hb).1, (disk_blockAt hb').1]
  · obtain ⟨rfl, rfl⟩ := hl
    rw [(disk_blockAt hb).2]
    decide
  · unfold disk at hb
    simp only at hb
    split_ifs at hb
    rw [← Option.some.inj hb]
    decide

/-- The path `/./.` leads through two entries back to the root directory, which gets one reference
    more. -/
theorem paths_conserve_root : ∃ s', namei [slash, dot, slash, dot] disk = .ok (some 0) s' ∧
    (s'.inodes 0).count = (disk.inodes 0).count + 1 ∧ Conserved disk s' (some 0) :=
  ⟨_, rfl, by decide +kernel,
    (paths_conserve disk_tree disk_owned [slash, dot, slash, dot]).1 _ _ rfl⟩

end Linux011.Minix
