import Linux011.AufsAccounting

set_option autoImplicit false

/-!
# Files of aufs that are moved

The blocks of the device are added to the volume. `aufs_move_blocks` adds the old block to the new
start of the file, where the distance to its old start is meant.
-/
namespace Linux011.Aufs

/-- The blocks as the buffers have them, those that can be read, and those that were written. -/
structure Medium where
  data : ℕ → ℕ → UInt8
  readable : ℕ → Bool
  written : List ℕ

variable {s s' : Vol} {m m' : Medium} {bi : Inode} {ino block phys start stop dest n : ℕ}

def aufs_move_block (source dest : ℕ) (m : Medium) : Option Medium :=
  if m.readable source then
    some { m with data := Function.update m.data dest (m.data source), written := m.written ++ [dest] }
  else none

/-- The loop of `aufs_move_blocks` for the `n` blocks from `i` on, and whether it got to its end. -/
def moveFrom (dest : ℕ) : ℕ → ℕ → Medium → Bool × Medium
  | 0, _, m => (true, m)
  | n + 1, i, m => match aufs_move_block i (add64 dest i) m with
    | none => (false, m)
    | some m => moveFrom dest n (i + 1) m

def aufs_move_blocks (start stop dest : ℕ) (m : Medium) : Bool × Medium :=
  moveFrom dest (stop + 1 - start) start m

/-- `aufs_get_block` with `create` set, over the blocks. -/
def aufs_get_block_on (ino : ℕ) (bi : Inode) (block : ℕ) (s : Vol) (m : Medium) :
    Except Errno ℕ × Vol × Medium :=
  let phys := add64 bi.sblock block
  if bi.sblock ≠ 0 ∧ phys ≤ bi.eblock then (.ok phys, s, m)
  else if s.blocks ≤ phys then (.error .ENOSPC, s, m)
  else if bi.eblock = s.lfEblk then
    (.ok phys,
      { s with freeb := sub64 s.freeb (sub64 phys bi.eblock), lfEblk := phys }.setInode ino
        { bi with eblock := phys, dirty := true }, m)
  else
    let phys := add64 s.lfEblk 1
    if s.blocks ≤ add64 phys block then (.error .ENOSPC, s, m)
    else
      let r := if bi.sblock ≠ 0 then aufs_move_blocks bi.sblock bi.eblock phys m else (true, m)
      if r.1 = false then (.error Errno.EIO, s, r.2)
      else
        let eblock := add64 phys block
        (.ok eblock,
          { s with
            freeb := sub64 s.freeb (sub64 (add64 (sub64 eblock phys) 1) bi.blocks),
            lfEblk := eblock }.setInode ino
            { bi with sblock := phys, eblock := eblock, dirty := true }, r.2)

/-- It does to the volume what `aufs_get_block` does there. -/
theorem get_block_on_vol (ino : ℕ) (bi : Inode) (block : ℕ) (s : Vol) (m : Medium) :
    ∃ moved, ((aufs_get_block_on ino bi block s m).1, (aufs_get_block_on ino bi block s m).2.1) =
      aufs_get_block ino bi block moved s := by
  refine ⟨if bi.sblock ≠ 0 then
    (aufs_move_blocks bi.sblock bi.eblock (add64 s.lfEblk 1) m).1 else true, ?_⟩
  unfold aufs_get_block_on aufs_get_block
  dsimp only
  split
  · rfl
  · split
    · rfl
    · split
      · rfl
      · split
        · rfl
        · by_cases h0 : bi.sblock = 0
          · simp [h0]
          · simp only [ne_eq, h0, not_false_eq_true, if_true, true_and, Bool.not_eq_true',
              apply_ite Prod.fst, apply_ite Prod.snd]
            split <;> rfl

/-! ### What is moved -/

theorem moveFrom_ok (h : moveFrom dest n start m = (true, m')) :
    m'.written = m.written ++ (List.range' start n).map (add64 dest) := by
  induction n generalizing start m with
  | zero =>
    cases h
    exact (List.append_nil _).symm
  | succ n ih =>
    unfold moveFrom aufs_move_block at h
    by_cases hread : m.readable start = true
    · rw [if_pos hread] at h
      rw [ih h, List.range'_succ, List.map_cons, List.append_assoc]
      rfl
    · rw [if_neg hread] at h
      cases h

/-- Every block gets behind the old ones, at its own number from `dest` on. -/
theorem moveFrom_content (h : moveFrom dest n start m = (true, m')) (hbehind : start + n ≤ dest)
    (hword : dest + (start + n) ≤ 2 ^ 64) (b : ℕ) :
    m'.data b = if dest + start ≤ b ∧ b < dest + (start + n) then m.data (b - dest) else m.data b := by
  induction n generalizing start m with
  | zero =>
    cases h
    rw [if_neg (by omega)]
  | succ n ih =>
    unfold moveFrom aufs_move_block at h
    by_cases hread : m.readable start = true
    · rw [if_pos hread] at h
      have hto : add64 dest start = dest + start := Nat.mod_eq_of_lt (by omega)
      rw [ih h (by omega) (by omega), hto]
      dsimp only
      by_cases hb : b = dest + start
      · subst hb
        rw [if_neg (by omega), if_pos (by omega), Function.update_self, Nat.add_sub_cancel_left]
      · rw [Function.update_of_ne hb]
        by_cases hin : dest + (start + 1) ≤ b ∧ b < dest + (start + 1 + n)
        · rw [if_pos hin, if_pos (by omega), Function.update_of_ne (by omega)]
        · rw [if_neg hin, if_neg (by omega)]
    · rw [if_neg hread] at h
      cases h

/-- A file that is moved to block `dest` is the same there, and no other block is written. -/
structure Preserved (s : Vol) (m m' : Medium) (start stop dest : ℕ) : Prop where
  content : ∀ j ≤ stop - start, m'.data (dest + j) = m.data (start + j)
  written : ∃ l, m'.written = m.written ++ l ∧
    ∀ b ∈ l, dest ≤ b ∧ b ≤ dest + (stop - start) ∧ b < s.blocks

/-- The last block goes behind the new extent, or before it where the sum is too big for a word. -/
theorem move_blocks_outside (hstart : start ≠ 0) (hle : start ≤ stop) (hstop : stop < 2 ^ 64 - 1)
    (hdest : dest < 2 ^ 64) (h : aufs_move_blocks start stop dest m = (true, m')) :
    ¬Preserved s m m' start stop dest := by
  intro hp
  obtain ⟨l, hl, hinside⟩ := hp.written
  have hmoved := moveFrom_ok h
  rw [hl] at hmoved
  have hlast : add64 dest stop ∈ l := by
    rw [List.append_cancel_left hmoved]
    apply List.mem_map_of_mem
    rw [List.mem_range'_1]
    omega
  obtain ⟨hlo, hhi, -⟩ := hinside _ hlast
  unfold add64 at hlo hhi
  omega

/-- A file that has blocks never survives its move. -/
theorem relocation_never_preserves (hstart : bi.sblock ≠ 0) (hle : bi.sblock ≤ bi.eblock)
    (hstop : bi.eblock < 2 ^ 64 - 1) (hmoves : Relocates s bi block true)
    (h : aufs_get_block_on ino bi block s m = (.ok phys, s', m')) :
    ¬Preserved s m m' bi.sblock bi.eblock (add64 s.lfEblk 1) := by
  obtain ⟨hgranted, hspace, hlast, hroom, -⟩ := hmoves
  unfold aufs_get_block_on at h
  dsimp only at h
  rw [if_neg hgranted, if_neg hspace, if_neg hlast, if_neg hroom] at h
  simp only [if_pos hstart] at h
  split at h
  · cases h
  · next hmoved =>
    cases h
    have hok : (aufs_move_blocks bi.sblock bi.eblock (add64 s.lfEblk 1) m).1 = true :=
      Bool.not_eq_false _ ▸ hmoved
    exact move_blocks_outside hstart hle hstop (Nat.mod_lt _ (by decide)) (Prod.ext hok rfl)

/-- A medium of which every block holds its own number. -/
def numbered : Medium := ⟨fun b _ => UInt8.ofNat b, fun _ => true, []⟩

/-- A file with one block and another file behind it. -/
def twoFiles : List Act :=
  [.create [65] 0o644 0 0, .getBlock 3 0 true, .create [66] 0o644 0 0, .getBlock 4 0 true]

def filled : Vol := (run image.mounted twoFiles).getD image.mounted

def firstFile : Inode := (filled.file 3).getD (image.inode 3).load

theorem relocation_never_preserves_two : ∃ s' m',
    aufs_get_block_on 3 firstFile 1 filled numbered = (.ok 6, s', m') ∧
    ¬Preserved filled numbered m' firstFile.sblock firstFile.eblock (add64 filled.lfEblk 1) := by
  have h : aufs_get_block_on 3 firstFile 1 filled numbered = (.ok 6, _, _) := rfl
  refine ⟨_, _, h, relocation_never_preserves ?_ ?_ ?_ ?_ h⟩
  · decide +kernel
  · decide +kernel
  · decide +kernel
  · unfold Relocates
    decide +kernel

/-- The first file is moved from block 3 to block 5, where the file ends up without its content: that
    goes to block 8. -/
theorem relocation_misplaces : ∃ s m', run image.mounted twoFiles = some filled ∧
    filled.file 3 = some firstFile ∧ firstFile.sblock = 3 ∧ firstFile.eblock = 3 ∧
    aufs_get_block_on 3 firstFile 1 filled numbered = (.ok 6, s, m') ∧
    (s.file 3).map Inode.sblock = some 5 ∧ m'.written = [8] ∧ m'.data 5 ≠ numbered.data 3 ∧
    ¬Preserved filled numbered m' 3 3 5 := by
  refine ⟨_, _, rfl, rfl, rfl, rfl, rfl, rfl, rfl, ?_, ?_⟩
  · intro h
    exact absurd (congrFun h 0) (by decide +kernel)
  · intro hp
    exact absurd (congrFun (hp.content 0 (Nat.zero_le _)) 0) (by decide +kernel)

end Linux011.Aufs
