import Linux011.FsTrees

set_option autoImplicit false

/-!
# Calls without read errors

Where every block can be read and no buffer is held too often to be held once more, reading is pure.
-/
namespace Linux011.Minix
open Outcomes

variable {s : Fs} {dev k : ℕ} {i : Slot} {b : Buffer}

structure Quiet (s : Fs) : Prop where
  reads : s.reads = []
  bcount : ∀ b, s.bcount b < 255

/-- The state in which a buffer is held once more. -/
def Fs.hold (s : Fs) (b : Buffer) : Fs := s.setBcount b (s.bcount b + 1)

@[simp] theorem hold_inodes (s : Fs) (b : Buffer) : (s.hold b).inodes = s.inodes := rfl
@[simp] theorem hold_data (s : Fs) (b : Buffer) : (s.hold b).data = s.data := rfl

theorem hold_ne (s : Fs) (b : Buffer) : s.hold b ≠ s := by
  intro h
  have hb := congrArg (fun s : Fs => s.bcount b) h
  change Function.update s.bcount b (s.bcount b + 1) b = s.bcount b at hb
  rw [Function.update_self] at hb
  omega

theorem Quiet.bread (h : Quiet s) (dev k : ℕ) :
    bread dev k s = .ok (some (dev, k)) (s.hold (dev, k)) := by
  have hreads : { s with reads := s.reads.tail } = s := by
    rw [h.reads, List.tail_nil, ← h.reads]
  have hcount := h.bcount (dev, k)
  unfold Minix.bread
  rw [if_neg (by rw [h.reads]; exact fun hc => nomatch hc), hreads, Nat.mod_eq_of_lt (by omega)]
  rfl

theorem brelse_hold (s : Fs) (b : Buffer) : brelse (some b) (s.hold b) = .ok () s := by
  have hb : (s.hold b).bcount b = s.bcount b + 1 := Function.update_self ..
  unfold brelse
  simp only [hb]
  rw [if_neg (Nat.succ_ne_zero _), Nat.add_sub_cancel]
  unfold Fs.hold Fs.setBcount
  simp only [Function.update_idem, Function.update_eq_self]

theorem fillZone_read (i : Slot) (z : Fin 9) (s : Fs) :
    fillZone false i z s = .ok ((s.inodes i).zone z).toNat s :=
  if_neg fun h => nomatch h.1

theorem Quiet.fillEntry (h : Quiet s) (dev k n : ℕ) :
    fillEntry false dev k n s = .ok (word (s.data (dev, k)) (2 * n)).toNat s := by
  unfold Minix.fillEntry
  rw [h.bread, Outcome.bind_ok]
  simp only [Bool.false_eq_true, false_and, if_false, Outcome.bind_ok]
  rw [brelse_hold, Outcome.bind_ok]
  rfl

theorem bmapWith_big (create : Bool) (i : Slot) (hk : 7 + 512 + 512 * 512 ≤ k) (s : Fs) :
    bmapWith create i k s = .stop .blockTooBig := if_pos hk

/-- Block `k` of a file. -/
def Fs.blockOf (s : Fs) (i : Slot) (k : ℕ) : ℕ :=
  (s.inodes i).block (s.blocks (s.inodes i).dev) k

theorem Quiet.bmap (h : Quiet s) (i : Slot) (hk : k < 7 + 512 + 512 * 512) :
    bmap i k s = .ok (s.blockOf i k) s := by
  unfold Minix.bmap bmapWith Fs.blockOf DInode.block placeOf
  rw [if_neg (Nat.not_le.mpr hk)]
  split
  · next h7 =>
    rw [fillZone_read]
    unfold DInode.blockAt
    congr 3
    apply Fin.ext
    exact Nat.mod_eq_of_lt (by omega)
  · next h7 =>
    split
    · next h512 =>
      rw [fillZone_read, Outcome.bind_ok]
      unfold DInode.blockAt entryOf
      dsimp only
      split
      · rfl
      · rw [h.fillEntry]
        congr 3
        exact congrArg (2 * ·) (Nat.mod_eq_of_lt h512).symm
    · next h512 =>
      rw [fillZone_read, Outcome.bind_ok]
      unfold DInode.blockAt entryOf
      dsimp only
      have hind : (k - 7 - 512) / 512 % 512 = (k - 7 - 512) / 512 := Nat.mod_eq_of_lt (by omega)
      split
      · rfl
      · rw [h.fillEntry, Outcome.bind_ok]
        simp only [Fin.val_ofNat, hind, Nat.mod_mod]
        split
        · next h0 => exact congrArg (fun n => Outcome.ok n s) (if_pos h0).symm
        · next h0 =>
          rw [h.fillEntry]
          exact congrArg (fun n => Outcome.ok n s) (if_neg h0).symm

end Linux011.Minix
