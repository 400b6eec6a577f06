import Linux011.FsOpens

set_option autoImplicit false

/-!
# `sys_access` and `permission`

The one answers for the real ids of the task and the other for the effective ones. They read the same
bits of the mode but for the group of the file.
-/
namespace Linux011.Minix
open Outcomes

variable {s s₁ : Fs} {i j : Slot} {d : DInode}

/-- `sys_access`, with the real ids of the task. Those of the inode are read after it is put. -/
def sysAccess (path : List UInt8) (mode uid gid : ℕ) (s : Fs) : Out (Except Errno Unit) :=
  let mode := mode &&& 0o7
  (namei path s).bind fun r s => match r with
  | none => .ok (.error .EACCES) s
  | some i =>
    let imode := (s.inodes i).mode.toNat &&& 0o777
    (iput i s).bind fun _ s =>
      let inode := s.inodes i
      let res :=
        if uid = inode.uid.toNat then imode >>> 6
        else if gid = inode.gid.toNat then imode >>> 6
        else imode
      if res &&& 0o7 &&& mode = mode then .ok (.ok ()) s
      else if uid = 0 ∧ (mode &&& 1 = 0 ∨ imode &&& 0o111 ≠ 0) then .ok (.ok ()) s
      else .ok (.error .EACCES) s

/-! ### What `iput` leaves of an inode with links -/

theorem setInode_toDInode {x : Inode} (h : (s.inodes j).toDInode = d)
    (hx : x.toDInode = (s.inodes i).toDInode) : ((s.setInode i x).inodes j).toDInode = d := by
  by_cases hj : j = i
  · subst hj
    rw [Fs.setInode_self, hx, h]
  · rw [Fs.setInode_ne s x hj, h]

theorem writeInode_toDInode (h : (s.inodes j).toDInode = d) :
    (writeInode i s).Sat (fun _ s => (s.inodes j).toDInode = d) fun _ => True := by
  unfold writeInode
  dsimp only
  split
  · exact h
  · split
    · exact trivial
    · unfold bread
      split
      · exact trivial
      · rw [Outcome.bind_ok]
        dsimp only [brelse]
        split
        · exact trivial
        · exact setInode_toDInode (s := s) h rfl

theorem syncInodes_toDInode (h : (s.inodes j).toDInode = d) :
    (syncInodes s).Sat (fun _ s => (s.inodes j).toDInode = d) fun _ => True := by
  apply Outcome.each_sat (I := fun s : Fs => (s.inodes j).toDInode = d) h
  intro i _ s h
  split
  · exact writeInode_toDInode h
  · exact h

theorem iput_toDInode (h : (s.inodes i).toDInode = d) (hlinks : d.nlinks ≠ 0) :
    (iput i s).Sat (fun _ s => (s.inodes i).toDInode = d) fun _ => True := by
  unfold iput
  dsimp only
  split
  · exact trivial
  · split
    · split
      · exact setInode_toDInode h rfl
      · exact setInode_toDInode h rfl
    · split
      · exact setInode_toDInode h rfl
      · apply Outcome.Sat.bind (Q := fun _ s => (s.inodes i).toDInode = d)
        · split
          · exact syncInodes_toDInode h
          · exact h
        · intro _ s h
          split
          · exact setInode_toDInode h rfl
          · rw [if_neg (by rw [h]; exact hlinks)]
            apply (writeInode_toDInode h).bind
            intro _ s h
            exact setInode_toDInode h rfl

/-! ### The bits that are looked at -/

theorem owner_bits (m n : ℕ) : (m &&& 0o777) >>> 6 &&& 0o7 &&& n = m >>> 6 &&& n &&& 0o7 := by
  rw [Nat.shiftRight_and_distrib, Nat.and_assoc, Nat.and_assoc, Nat.and_assoc, Nat.and_comm n,
    ← Nat.and_assoc (0o777 >>> 6)]
  rfl

theorem other_bits (m n : ℕ) : m &&& 0o777 &&& 0o7 &&& n = m &&& n &&& 0o7 := by
  rw [Nat.and_assoc m, Nat.and_assoc m, Nat.and_assoc m, Nat.and_comm n]
  rfl

/-- What `sys_access` answers for an inode. -/
def accessGrants (d : DInode) (mask uid gid : ℕ) : Bool :=
  let imode := d.mode.toNat &&& 0o777
  let res :=
    if uid = d.uid.toNat then imode >>> 6 else if gid = d.gid.toNat then imode >>> 6 else imode
  decide (res &&& 0o7 &&& mask = mask) || decide (uid = 0 ∧ (mask &&& 1 = 0 ∨ imode &&& 0o111 ≠ 0))

/-- The task belongs to the group of the file but does not own it, it is not the superuser, and the
    owner and the group may do different parts of what is asked for. -/
def GroupMisread (d : DInode) (mask uid gid : ℕ) : Prop :=
  uid ≠ d.uid.toNat ∧ gid = d.gid.toNat ∧ uid ≠ 0 ∧
    ¬(d.mode.toNat >>> 6 &&& mask &&& 0o7 = mask ↔ d.mode.toNat >>> 3 &&& mask &&& 0o7 = mask)

theorem accessGrants_iff {x : Inode} (hlinks : x.nlinks ≠ 0) {mask uid gid : ℕ} (hmask : mask &&& 1 = 0)
    (task : Task) :
    accessGrants x.toDInode mask uid gid =
        permission x mask { task with euid := uid, egid := gid } ↔
      ¬GroupMisread x.toDInode mask uid gid := by
  unfold accessGrants permission GroupMisread
  rw [if_neg (fun h => hlinks h.2)]
  by_cases hroot : uid = 0
  · simp [hroot, hmask]
  · by_cases howner : uid = x.uid.toNat
    · simp only [if_pos howner, owner_bits, hroot, false_and, decide_false]
      simp [howner]
    · by_cases hgroup : gid = x.gid.toNat
      · simp only [if_neg howner, if_pos hgroup, owner_bits, hroot, false_and, decide_false,
          Bool.or_false, decide_eq_decide]
        simp [howner, hroot, hgroup]
      · simp only [if_neg howner, if_neg hgroup, other_bits, hroot, false_and, decide_false]
        simp [hgroup]

theorem sysAccess_eq {path : List UInt8} (hn : namei path s = .ok (some i) s₁)
    (hlinks : (s₁.inodes i).nlinks ≠ 0) (mode uid gid : ℕ) :
    sysAccess path mode uid gid s = (iput i s₁).bind fun _ s' =>
      .ok (if accessGrants (s₁.inodes i).toDInode (mode &&& 0o7) uid gid = true then .ok ()
        else .error .EACCES) s' := by
  unfold sysAccess
  dsimp only
  rw [hn, Outcome.bind_ok]
  have hput := iput_toDInode (s := s₁) (i := i) rfl hlinks
  cases h : iput i s₁ with
  | stop w =>
    dsimp only
    rw [h, Outcome.bind_stop, Outcome.bind_stop]
  | ok a s' =>
    rw [h] at hput
    dsimp only
    rw [h, Outcome.bind_ok, Outcome.bind_ok]
    have hd : (s'.inodes i).toDInode = (s₁.inodes i).toDInode := hput
    rw [hd]
    unfold accessGrants
    simp only [Bool.or_eq_true, decide_eq_true_eq]
    generalize (if uid = (s₁.inodes i).uid.toNat then _ else _ : ℕ) = res
    by_cases hbits : res &&& 0o7 &&& (mode &&& 0o7) = mode &&& 0o7
    · rw [if_pos hbits, if_pos (.inl hbits)]
    · rw [if_neg hbits]
      split
      · next hroot => rw [if_pos (.inr hroot)]
      · next hroot => rw [if_neg (not_or.mpr ⟨hbits, hroot⟩)]

/-- For reading and writing, `sys_access` puts the inode and grants what `permission` grants for the
    real ids, unless it takes the bits of the owner for those of the group. -/
theorem access_agrees_iff {path : List UInt8} (hn : namei path s = .ok (some i) s₁)
    (hlinks : (s₁.inodes i).nlinks ≠ 0) {mode : ℕ} (hmode : mode &&& 0o7 &&& MAY_EXEC = 0)
    (uid gid : ℕ) :
    ∃ grants : Bool,
      sysAccess path mode uid gid s = ((iput i s₁).bind fun _ s' =>
        .ok (if grants = true then .ok () else .error .EACCES) s') ∧
      (grants = permission (s₁.inodes i) (mode &&& 0o7) { s₁.task with euid := uid, egid := gid } ↔
        ¬GroupMisread (s₁.inodes i).toDInode (mode &&& 0o7) uid gid) :=
  ⟨_, sysAccess_eq hn hlinks mode uid gid, accessGrants_iff hlinks hmode s₁.task⟩

theorem access_agrees_iff_root : ∃ grants : Bool,
    sysAccess [slash] 6 5 7 disk = ((iput 0 (disk.grab 0)).bind fun _ s' =>
      .ok (if grants = true then .ok () else .error .EACCES) s') ∧
    (grants = permission ((disk.grab 0).inodes 0) 6 { disk.task with euid := 5, egid := 7 } ↔
      ¬GroupMisread ((disk.grab 0).inodes 0).toDInode 6 5 7) :=
  have hn : namei [slash] disk = .ok (some 0) (disk.grab 0) := rfl
  access_agrees_iff hn (by decide) rfl 5 7

/-- A member of the group of a directory of mode 755 is told that it may write there. -/
theorem access_misleads : (∃ s', sysAccess [slash] MAY_WRITE 5 0 disk = .ok (.ok ()) s') ∧
    namei [slash] disk = .ok (some 0) (disk.grab 0) ∧ ((disk.grab 0).inodes 0).nlinks ≠ 0 ∧
    permission ((disk.grab 0).inodes 0) MAY_WRITE { disk.task with euid := 5, egid := 0 } = false :=
  ⟨⟨_, rfl⟩, rfl, by decide, by decide⟩

end Linux011.Minix
