import Mathlib.Algebra.Group.Nat.Defs
import Mathlib.Logic.Function.Basic
import X32PRos.Foundation.Region

/-!
Byte-addressed memory with 32-bit little-endian words: loads and stores, and
what a store leaves alone.
-/

namespace Foundation

abbrev Memory := Nat → UInt8

namespace Memory

def store8 (m : Memory) (a : Nat) (v : UInt8) : Memory := fun x => if x = a then v else m x

def load32 (m : Memory) (a : Nat) : Nat :=
  (m a).toNat + 2 ^ 8 * (m (a + 1)).toNat + 2 ^ 16 * (m (a + 2)).toNat + 2 ^ 24 * (m (a + 3)).toNat

def store32 (m : Memory) (a v : Nat) : Memory :=
  fun x => if a ≤ x ∧ x < a + 4 then UInt8.ofNat (v / 2 ^ (8 * (x - a))) else m x

theorem load32_lt (m : Memory) (a : Nat) : m.load32 a < 2 ^ 32 := by
  have h₀ := (m a).toNat_lt
  have h₁ := (m (a + 1)).toNat_lt
  have h₂ := (m (a + 2)).toNat_lt
  have h₃ := (m (a + 3)).toNat_lt
  unfold load32
  omega

theorem load32_congr {m m' : Memory} {a : Nat} (h : ∀ x, a ≤ x → x < a + 4 → m' x = m x) :
    m'.load32 a = m.load32 a := by
  unfold load32
  rw [h a (by omega) (by omega), h (a + 1) (by omega) (by omega), h (a + 2) (by omega) (by omega),
    h (a + 3) (by omega) (by omega)]

theorem store8_of_ne {m : Memory} {a x : Nat} {v : UInt8} (h : x ≠ a) : m.store8 a v x = m x :=
  if_neg h

theorem store32_of_outside {m : Memory} {a v x : Nat} (h : x < a ∨ a + 4 ≤ x) :
    m.store32 a v x = m x :=
  if_neg (by omega)

@[simp] theorem load32_store32_self {m : Memory} {a v : Nat} (hv : v < 2 ^ 32) :
    (m.store32 a v).load32 a = v := by
  have hbyte : ∀ j, j < 4 → (m.store32 a v (a + j)).toNat = v / 2 ^ (8 * j) % 2 ^ 8 := by
    intro j hj
    rw [store32, if_pos (by omega), Nat.add_sub_cancel_left, UInt8.toNat_ofNat']
  have h₀ : (m.store32 a v a).toNat = v % 2 ^ 8 := by
    have h := hbyte 0 (by decide)
    rwa [Nat.mul_zero, Nat.pow_zero, Nat.div_one] at h
  have h₁ : (m.store32 a v (a + 1)).toNat = v / 2 ^ 8 % 2 ^ 8 := hbyte 1 (by decide)
  have h₂ : (m.store32 a v (a + 2)).toNat = v / 2 ^ 16 % 2 ^ 8 := hbyte 2 (by decide)
  have h₃ : (m.store32 a v (a + 3)).toNat = v / 2 ^ 24 % 2 ^ 8 := hbyte 3 (by decide)
  rw [load32, h₀, h₁, h₂, h₃]
  omega

theorem load32_store32_of_apart {m : Memory} {a b v : Nat} (h : a + 4 ≤ b ∨ b + 4 ≤ a) :
    (m.store32 a v).load32 b = m.load32 b :=
  load32_congr fun _ _ _ => store32_of_outside (by omega)

/-- A string of these bytes, none of them a NUL, with its NUL lies at `a`. -/
def StringAt (m : Memory) : Nat → List UInt8 → Prop
  | a, [] => m a = 0
  | a, c :: cs => m a = c ∧ c ≠ 0 ∧ StringAt m (a + 1) cs

instance (m : Memory) : (a : Nat) → (text : List UInt8) → Decidable (m.StringAt a text)
  | a, [] => inferInstanceAs (Decidable (m a = 0))
  | a, c :: cs =>
      have := instDecidableStringAt m (a + 1) cs
      inferInstanceAs (Decidable (m a = c ∧ c ≠ 0 ∧ m.StringAt (a + 1) cs))

/-- What is behind a part of a string is a string. -/
theorem StringAt.drop {m : Memory} (front : List UInt8) {a : Nat} {rest : List UInt8}
    (h : m.StringAt a (front ++ rest)) : m.StringAt (a + front.length) rest := by
  induction front generalizing a with
  | nil => exact h
  | cons c cs ih =>
      rw [List.length_cons, Nat.add_comm cs.length, ← Nat.add_assoc]
      exact ih h.2.2

theorem StringAt.congr {m m' : Memory} {a : Nat} {text : List UInt8} (h : m.StringAt a text)
    (hsame : ∀ x, a ≤ x → x ≤ a + text.length → m' x = m x) : m'.StringAt a text := by
  induction text generalizing a with
  | nil => exact (hsame a (Nat.le_refl a) (Nat.le_refl a)).trans h
  | cons c cs ih =>
      refine ⟨(hsame a (Nat.le_refl a) (Nat.le_add_right a _)).trans h.1, h.2.1, ih h.2.2 ?_⟩
      intro x hle hlt
      apply hsame x (Nat.le_of_succ_le hle)
      rw [List.length_cons]
      omega

/-- Where a string lies does not matter to its bytes. -/
theorem StringAt.byte_eq {m : Memory} {a a' : Nat} {text : List UInt8} (h : m.StringAt a text)
    (h' : m.StringAt a' text) {i : Nat} (hi : i ≤ text.length) : m (a' + i) = m (a + i) := by
  induction text generalizing a a' i with
  | nil =>
      rw [Nat.le_zero.mp hi]
      exact h'.trans h.symm
  | cons c cs ih =>
      cases i with
      | zero => exact h'.1.trans h.1.symm
      | succ i =>
          rw [Nat.add_comm i, ← Nat.add_assoc, ← Nat.add_assoc]
          exact ih h.2.2 h'.2.2 (Nat.le_of_succ_le_succ hi)

/-- The characters of a list and a NUL behind them. -/
theorem stringAt_getD {m : Memory} {a : Nat} {text : List UInt8} (hnul : 0 ∉ text)
    (h : ∀ i ≤ text.length, m (a + i) = text.getD i 0) : m.StringAt a text := by
  induction text generalizing a with
  | nil => exact h 0 (Nat.le_refl 0)
  | cons c cs ih =>
      refine ⟨h 0 (Nat.zero_le _), fun hc => hnul (hc ▸ List.mem_cons_self), ?_⟩
      apply ih fun hmem => hnul (List.mem_cons_of_mem c hmem)
      intro i hi
      have hnext := h (i + 1) (Nat.succ_le_succ hi)
      rw [← Nat.add_assoc, Nat.add_right_comm] at hnext
      exact hnext

/-- A NUL behind so many equal characters. -/
theorem stringAt_replicate {m : Memory} {c : UInt8} (hne : c ≠ 0) {n a : Nat}
    (hc : ∀ x < n, m (a + x) = c) (hnul : m (a + n) = 0) : m.StringAt a (List.replicate n c) := by
  induction n generalizing a with
  | zero => exact hnul
  | succ n ih =>
      refine ⟨hc 0 (Nat.succ_pos n), hne, ih (fun x hx => ?_) ?_⟩
      · rw [Nat.add_assoc, Nat.add_comm 1]
        exact hc (x + 1) (Nat.succ_lt_succ hx)
      · rwa [Nat.add_assoc, Nat.add_comm 1]

theorem StringAt.unique {m : Memory} {a : Nat} {text text' : List UInt8} (h : m.StringAt a text)
    (h' : m.StringAt a text') : text = text' := by
  induction text generalizing a text' with
  | nil =>
      cases text' with
      | nil => rfl
      | cons c cs =>
          have hc : c = 0 := h'.1.symm.trans h
          exact absurd hc h'.2.1
  | cons c cs ih =>
      cases text' with
      | nil =>
          have hc : c = 0 := h.1.symm.trans h'
          exact absurd hc h.2.1
      | cons d ds => rw [h.1.symm.trans h'.1, ih h.2.2 h'.2.2]

/-- A string runs up to the first NUL, however far that is. -/
theorem exists_stringAt {m : Memory} (n : Nat) {a : Nat} (h : m (a + n) = 0) :
    ∃ text, m.StringAt a text := by
  induction n generalizing a with
  | zero => exact ⟨[], h⟩
  | succ n ih =>
      by_cases ha : m a = 0
      · exact ⟨[], ha⟩
      · rw [Nat.add_comm n, ← Nat.add_assoc] at h
        obtain ⟨text, htext⟩ := ih h
        exact ⟨m a :: text, rfl, ha, htext⟩

end Memory

end Foundation
