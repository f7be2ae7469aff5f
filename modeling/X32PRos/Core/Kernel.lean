import X32PRos.Core.Word
import X32PRos.Foundation.Bytes

/-!
`memcpy` and `memset` of `core/kernel.c`. The count is a signed `size_t`: the
loops do nothing for a count of 2 GB or more.
-/

namespace X32PRos

open Foundation

/-- The number of turns of `for (i = 0; i < count; ++i)`. -/
def turns (count : Nat) : Nat := (signed count).toNat

/-- The first `n` turns of the loop of `memcpy`. -/
def copyBytes (dest src : Nat) : Nat → Memory → Memory
  | 0, m => m
  | n + 1, m =>
      let m := copyBytes dest src n m
      m.store8 (dest + n) (m (src + n))

def memcpy (dest src count : Nat) (m : Memory) : Memory := copyBytes dest src (turns count) m

def fillBytes (b : Nat) (val : UInt8) : Nat → Memory → Memory
  | 0, m => m
  | n + 1, m => (fillBytes b val n m).store8 (b + n) val

def memset (b : Nat) (val : UInt8) (count : Nat) (m : Memory) : Memory :=
  fillBytes b val (turns count) m

theorem turns_of_lt {count : Nat} (h : count < 2 ^ 31) : turns count = count := by
  rw [turns, signed_of_lt h, Int.toNat_natCast]

theorem turns_of_le {count : Nat} (h : 2 ^ 31 ≤ count) (hword : count < 2 ^ 32) :
    turns count = 0 := by
  rw [turns, signed_of_le h]
  omega

/-- A copy between ranges that do not meet moves the bytes and nothing else. -/
theorem copyBytes_eq {dest src : Nat} {m : Memory} {n : Nat}
    (hapart : dest + n ≤ src ∨ src + n ≤ dest) (x : Nat) :
    copyBytes dest src n m x = if dest ≤ x ∧ x < dest + n then m (src + (x - dest)) else m x := by
  induction n generalizing x with
  | zero => rw [if_neg (by omega), copyBytes]
  | succ n ih =>
      have ih := ih (by omega)
      rw [copyBytes]
      by_cases hx : x = dest + n
      · subst hx
        rw [Memory.store8, if_pos rfl, ih, if_neg (by omega), if_pos (by omega),
          Nat.add_sub_cancel_left]
      · rw [Memory.store8_of_ne hx, ih]
        by_cases hin : dest ≤ x ∧ x < dest + n
        · rw [if_pos hin, if_pos (by omega)]
        · rw [if_neg hin, if_neg (by omega)]

theorem fillBytes_eq {b : Nat} {val : UInt8} {m : Memory} {n : Nat} (x : Nat) :
    fillBytes b val n m x = if b ≤ x ∧ x < b + n then val else m x := by
  induction n with
  | zero => rw [if_neg (by omega), fillBytes]
  | succ n ih =>
      rw [fillBytes]
      by_cases hx : x = b + n
      · rw [Memory.store8, if_pos hx, if_pos (by omega)]
      · rw [Memory.store8_of_ne hx, ih]
        by_cases hin : b ≤ x ∧ x < b + n
        · rw [if_pos hin, if_pos (by omega)]
        · rw [if_neg hin, if_neg (by omega)]

end X32PRos
