import X32PRos.Foundation.Bitmap
import X32PRos.Foundation.Bytes
import Mathlib.Data.Nat.Bitwise

/-!
Arrays of 32-bit words in byte-addressed memory, and the bitmaps in them: bit
`f` of the array is bit `f % 8` of byte `f / 8`.
-/

namespace Foundation.Memory

def words (m : Memory) (base : Nat) : Nat → BitVec 32 := fun i => BitVec.ofNat 32 (m.load32 (base + 4 * i))

variable {m : Memory} {base : Nat}

/-- A word of zero bytes. -/
theorem load32_of_zero {a : Nat} (h : ∀ x, a ≤ x → x < a + 4 → m x = 0) : m.load32 a = 0 := by
  unfold load32
  rw [h a (by omega) (by omega), h (a + 1) (by omega) (by omega), h (a + 2) (by omega) (by omega),
    h (a + 3) (by omega) (by omega)]
  rfl

/-! ### Bits -/

theorem load32_testBit {a i : Nat} (hi : i < 32) :
    (m.load32 a).testBit i = (m (a + i / 8)).toNat.testBit (i % 8) := by
  have h₀ := (m a).toNat_lt
  have h₁ := (m (a + 1)).toNat_lt
  have h₂ := (m (a + 2)).toNat_lt
  have hword : m.load32 a = 2 ^ 8 * (2 ^ 8 * (2 ^ 8 * (m (a + 3)).toNat + (m (a + 2)).toNat) +
      (m (a + 1)).toNat) + (m a).toNat := by
    unfold load32
    omega
  rw [hword, Nat.testBit_two_pow_mul_add _ h₀, Nat.testBit_two_pow_mul_add _ h₁,
    Nat.testBit_two_pow_mul_add _ h₂]
  have hbyte : i / 8 = 0 ∨ i / 8 = 1 ∨ i / 8 = 2 ∨ i / 8 = 3 := by omega
  rcases hbyte with hq | hq | hq | hq
  · rw [if_pos (by omega), hq, show i % 8 = i by omega, Nat.add_zero]
  · rw [if_neg (by omega), if_pos (by omega), hq, show i % 8 = i - 8 by omega]
  · rw [if_neg (by omega), if_neg (by omega), if_pos (by omega), hq,
      show i % 8 = i - 8 - 8 by omega]
  · rw [if_neg (by omega), if_neg (by omega), if_neg (by omega), hq,
      show i % 8 = i - 8 - 8 - 8 by omega]

theorem words_bit (f : Nat) :
    Bitmap.bit (m.words base) f = (m (base + f / 8)).toNat.testBit (f % 8) := by
  have hi : f % 32 < 32 := Nat.mod_lt f (by decide)
  rw [Bitmap.bit, words, BitVec.getLsbD_ofNat, load32_testBit hi,
    show base + 4 * (f / 32) + f % 32 / 8 = base + f / 8 by omega,
    show f % 32 % 8 = f % 8 by omega, decide_eq_true hi, Bool.true_and]

def setBit (m : Memory) (base f : Nat) : Memory :=
  m.store8 (base + f / 8) (UInt8.ofNat ((m (base + f / 8)).toNat ||| 1 <<< (f % 8)))

theorem setBit_of_ne {f x : Nat} (h : x ≠ base + f / 8) : m.setBit base f x = m x :=
  store8_of_ne h

theorem setBit_byte_testBit (f o : Nat) (ho : o < 8) :
    (m.setBit base f (base + f / 8)).toNat.testBit o =
      (decide (o = f % 8) || (m (base + f / 8)).toNat.testBit o) := by
  rw [setBit, store8, if_pos rfl, UInt8.toNat_ofNat', Nat.testBit_mod_two_pow, Nat.testBit_or,
    Nat.one_shiftLeft, Nat.testBit_two_pow, decide_eq_true ho, Bool.true_and, Bool.or_comm]
  congr 1
  exact decide_eq_decide.mpr eq_comm

theorem words_setBit (f g : Nat) : Bitmap.bit ((m.setBit base f).words base) g =
    (decide (g = f) || Bitmap.bit (m.words base) g) := by
  rw [words_bit, words_bit]
  by_cases hbyte : g / 8 = f / 8
  · have hiff : (g % 8 = f % 8) ↔ g = f := by omega
    rw [hbyte, setBit_byte_testBit f _ (Nat.mod_lt _ (by decide)), decide_eq_decide.mpr hiff]
  · rw [setBit_of_ne (by omega), decide_eq_false (by omega), Bool.false_or]

/-- `words[f / 32] |= 1 << f % 32` -/
theorem store32_or (f : Nat) :
    m.store32 (base + 4 * (f / 32)) (m.load32 (base + 4 * (f / 32)) ||| 1 <<< (f % 32)) =
      m.setBit base f := by
  funext x
  by_cases hin : base + 4 * (f / 32) ≤ x ∧ x < base + 4 * (f / 32) + 4
  · obtain ⟨q, hq, rfl⟩ : ∃ q < 4, x = base + 4 * (f / 32) + q :=
      ⟨x - (base + 4 * (f / 32)), by omega, by omega⟩
    rw [store32, if_pos hin, Nat.add_sub_cancel_left]
    apply UInt8.toNat_inj.mp
    apply Nat.eq_of_testBit_eq
    intro o
    by_cases ho : o < 8
    · rw [UInt8.toNat_ofNat', Nat.testBit_mod_two_pow, Nat.testBit_div_two_pow, Nat.testBit_or,
        Nat.one_shiftLeft, Nat.testBit_two_pow, load32_testBit (show o + 8 * q < 32 by omega),
        decide_eq_true ho, Bool.true_and, show (o + 8 * q) / 8 = q by omega,
        show (o + 8 * q) % 8 = o by omega]
      by_cases hbyte : q = f % 32 / 8
      · rw [show base + 4 * (f / 32) + q = base + f / 8 by omega, setBit_byte_testBit f o ho,
          Bool.or_comm]
        congr 1
        exact decide_eq_decide.mpr (by omega)
      · rw [setBit_of_ne (by omega), decide_eq_false (by omega), Bool.or_false]
    · have hhigh : ∀ b : UInt8, b.toNat.testBit o = false := fun b => Nat.testBit_lt_two_pow
        (Nat.lt_of_lt_of_le b.toNat_lt (Nat.pow_le_pow_right (by decide) (Nat.le_of_not_lt ho)))
      rw [hhigh, hhigh]
  · rw [store32_of_outside (by omega), setBit_of_ne (by omega)]

end Foundation.Memory
