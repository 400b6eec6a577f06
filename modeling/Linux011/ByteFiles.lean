import Mathlib.Data.List.Range

set_option autoImplicit false

/-!
# Files as bytes

A file has a size, and zeros behind it. What is written past the end leaves zeros in between.
-/
namespace Linux011.ByteFiles

@[ext] structure ByteFile where
  size : ℕ
  byte : ℕ → UInt8
  zero : ∀ o, size ≤ o → byte o = 0

namespace ByteFile
variable {F : ByteFile} {pos m n : ℕ} {src : ℕ → UInt8}

def empty : ByteFile := ⟨0, fun _ => 0, fun _ _ => rfl⟩

/-- The bytes from `pos` on, be they in the file or behind it. -/
def window (F : ByteFile) (pos n : ℕ) : List UInt8 := (List.range n).map fun t => F.byte (pos + t)

/-- At most `n` bytes of the file. -/
def read (F : ByteFile) (pos n : ℕ) : List UInt8 := F.window pos (min n (F.size - pos))

def write (F : ByteFile) (pos n : ℕ) (src : ℕ → UInt8) : ByteFile where
  size := if n = 0 then F.size else max F.size (pos + n)
  byte o := if pos ≤ o ∧ o < pos + n then src (o - pos) else F.byte o
  zero o ho := by
    split_ifs at ho with h0
    · rw [if_neg (by omega)]
      exact F.zero o ho
    · rw [if_neg (by omega)]
      exact F.zero o (by omega)

/-- Where a write begins: at the position, or at the end. -/
def start (F : ByteFile) (append : Bool) (pos : ℕ) : ℕ := if append then F.size else pos

theorem write_size : (F.write pos n src).size = if n = 0 then F.size else max F.size (pos + n) := rfl

theorem write_byte (o : ℕ) :
    (F.write pos n src).byte o = if pos ≤ o ∧ o < pos + n then src (o - pos) else F.byte o := rfl

theorem write_zero : F.write pos 0 src = F := by
  refine ByteFile.ext ?_ (funext fun o => ?_)
  · rw [write_size, if_pos rfl]
  · rw [write_byte, if_neg (by omega)]

/-- Two writes, of which one begins where the other ends. -/
theorem write_write : (F.write pos m src).write (pos + m) n (fun t => src (m + t)) =
    F.write pos (m + n) src := by
  refine ByteFile.ext ?_ (funext fun o => ?_)
  · rw [write_size, write_size, write_size]
    split_ifs
    all_goals omega
  · rw [write_byte, write_byte, write_byte]
    by_cases ho : pos ≤ o ∧ o < pos + m
    · have hnot : ¬(pos + m ≤ o ∧ o < pos + m + n) := by omega
      have hall : pos ≤ o ∧ o < pos + (m + n) := by omega
      rw [if_neg hnot, if_pos ho, if_pos hall]
    · by_cases ho' : pos + m ≤ o ∧ o < pos + m + n
      · have hall : pos ≤ o ∧ o < pos + (m + n) := by omega
        have harg : m + (o - (pos + m)) = o - pos := by omega
        rw [if_pos ho', if_pos hall]
        exact congrArg src harg
      · have hnot : ¬(pos ≤ o ∧ o < pos + (m + n)) := by omega
        rw [if_neg ho', if_neg ho, if_neg hnot]

theorem window_zero : F.window pos 0 = [] := rfl

theorem window_length : (F.window pos n).length = n := by
  unfold window
  rw [List.length_map, List.length_range]

theorem window_append : F.window pos m ++ F.window (pos + m) n = F.window pos (m + n) := by
  unfold window
  rw [List.range_add, List.map_append, List.map_map]
  congr 1
  refine List.map_congr_left fun t _ => ?_
  rw [Function.comp_apply, Nat.add_assoc]

theorem read_length : (F.read pos n).length = min n (F.size - pos) := window_length

end ByteFile

end Linux011.ByteFiles
