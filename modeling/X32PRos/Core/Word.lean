import Mathlib.Data.Nat.Bitwise
import Mathlib.Data.Int.Order.Basic

/-!
32-bit machine words as natural numbers below `2 ^ 32`: the unsigned operations
of C that can leave that range, and the signed reading of a word.
-/

namespace X32PRos

def wordAdd (x y : Nat) : Nat := (x + y) % 2 ^ 32

def wordSub (x y : Nat) : Nat := (x + (2 ^ 32 - y % 2 ^ 32)) % 2 ^ 32

def wordMul (x y : Nat) : Nat := x * y % 2 ^ 32

/-- The word as `int`, `long` or this kernel's `size_t`. -/
def signed (x : Nat) : Int := if x < 2 ^ 31 then x else (x : Int) - 2 ^ 32

theorem wordAdd_of_lt {x y : Nat} (h : x + y < 2 ^ 32) : wordAdd x y = x + y :=
  Nat.mod_eq_of_lt h

theorem wordSub_of_le {x y : Nat} (hx : x < 2 ^ 32) (h : y ≤ x) : wordSub x y = x - y := by
  unfold wordSub
  omega

theorem signed_of_lt {x : Nat} (h : x < 2 ^ 31) : signed x = x := if_pos h

theorem signed_of_le {x : Nat} (h : 2 ^ 31 ≤ x) : signed x = (x : Int) - 2 ^ 32 :=
  if_neg (Nat.not_lt.mpr h)

theorem signed_inj {x y : Nat} (hx : x < 2 ^ 32) (hy : y < 2 ^ 32) :
    signed x = signed y ↔ x = y := by
  unfold signed
  split <;> split <;> omega

/-- `x | (y << n)` is a sum when `x` fits below the shifted bits. -/
theorem or_shiftLeft {x n : Nat} (hx : x < 2 ^ n) (y : Nat) : x ||| (y <<< n) = y * 2 ^ n + x := by
  rw [Nat.or_comm, ← Nat.shiftLeft_add_eq_or_of_lt hx, Nat.shiftLeft_eq]

end X32PRos
