import Mathlib.Data.Nat.Digits.Lemmas

/-!
Numerals with the most significant digit first, as they are printed: of free
length and without leading zeros, or of a fixed length. Both are written from
the last digit, and both read back to the number.
-/

namespace Foundation.Numeral

/-- The digits of `n` in base `b`, at least one. -/
def free (b n : Nat) : List Nat := if n = 0 then [0] else (Nat.digits b n).reverse

/-- The last `len` digits of `n` in base `b`, if there are no more. -/
def fixed (b len n : Nat) : List Nat := (Nat.digitsAppend b len n).reverse

def value (b : Nat) (digits : List Nat) : Nat := Nat.ofDigits b digits.reverse

variable {b n : Nat}

theorem value_free (b n : Nat) : value b (free b n) = n := by
  unfold value free
  split
  case isTrue hzero => simp [hzero]
  case isFalse => rw [List.reverse_reverse, Nat.ofDigits_digits]

theorem value_fixed (b len n : Nat) : value b (fixed b len n) = n := by
  rw [value, fixed, List.reverse_reverse, Nat.digitsAppend, Nat.ofDigits_append_replicate_zero,
    Nat.ofDigits_digits]

theorem free_of_lt (h : n < b) : free b n = [n] := by
  unfold free
  split
  case isTrue hzero => rw [hzero]
  case isFalse hne => rw [Nat.digits_of_lt b n hne h, List.reverse_singleton]

/-- A numeral of more digits ends with the last one. -/
theorem free_of_le (hb : 1 < b) (h : b ≤ n) : free b n = free b (n / b) ++ [n % b] := by
  have hpos : n / b ≠ 0 := Nat.ne_of_gt (Nat.div_pos h (Nat.lt_trans Nat.zero_lt_one hb))
  unfold free
  rw [if_neg (by omega), if_neg hpos, Nat.digits_def' hb (by omega), List.reverse_cons]

theorem free_ne_nil (b n : Nat) : free b n ≠ [] := by
  unfold free
  split
  case isTrue => exact List.cons_ne_nil 0 []
  case isFalse hne => exact List.reverse_ne_nil_iff.mpr (Nat.digits_ne_nil_iff_ne_zero.mpr hne)

theorem free_head_ne_zero (hn : n ≠ 0) : (free b n).head (free_ne_nil b n) ≠ 0 := by
  have hlast := Nat.getLast_digit_ne_zero b hn
  simpa only [free, if_neg hn, List.head_reverse] using hlast

theorem lt_of_mem_free (hb : 1 < b) {d : Nat} (h : d ∈ free b n) : d < b := by
  unfold free at h
  split at h
  case isTrue =>
    rw [List.mem_singleton.mp h]
    omega
  case isFalse => exact Nat.digits_lt_base hb (List.mem_reverse.mp h)

theorem length_free (hb : 1 < b) (n : Nat) : (free b n).length = Nat.log b n + 1 := by
  unfold free
  split
  case isTrue hzero => rw [hzero, Nat.log_zero_right, List.length_singleton]
  case isFalse hne => rw [List.length_reverse, Nat.length_digits b n hb hne]

theorem length_fixed (hb : 1 < b) {len : Nat} (h : n < b ^ len) : (fixed b len n).length = len := by
  rw [fixed, List.length_reverse, Nat.length_digitsAppend hb len h]

theorem lt_of_mem_fixed (hb : 1 < b) {len d : Nat} (h : d ∈ fixed b len n) : d < b :=
  Nat.lt_of_mem_digitsAppend hb len d (List.mem_reverse.mp h)

/-- Two fixed numerals of one length that denote the same number are the same. -/
theorem eq_fixed_of_value (hb : 1 < b) {len : Nat} {digits : List Nat} (hlen : digits.length = len)
    (hlt : ∀ d ∈ digits, d < b) (hvalue : value b digits = n) : digits = fixed b len n := by
  have hmem : digits.reverse ∈ {L : List Nat | L.length = len ∧ ∀ d ∈ L, d < b} :=
    ⟨by rw [List.length_reverse, hlen], fun d hd => hlt d (List.mem_reverse.mp hd)⟩
  have hinverse := (Nat.setInvOn_digitsAppend_ofDigits hb len).1 hmem
  rw [fixed, ← hvalue, value, hinverse, List.reverse_reverse]

theorem value_cons (b d : Nat) (digits : List Nat) :
    value b (d :: digits) = value b digits + b ^ digits.length * d :=
  Nat.ofDigits_reverse_cons digits d

/-- The digits at the positions below `len`, each by a division of its own. -/
def positions (b : Nat) : Nat → Nat → List Nat
  | 0, _ => []
  | i + 1, n => n / b ^ i % b :: positions b i n

theorem length_positions (b len n : Nat) : (positions b len n).length = len := by
  induction len with
  | zero => rfl
  | succ i ih => rw [positions, List.length_cons, ih]

theorem lt_of_mem_positions (hb : 1 < b) {len d : Nat} (h : d ∈ positions b len n) : d < b := by
  induction len with
  | zero => cases h
  | succ i ih =>
      cases List.mem_cons.mp h with
      | inl heq =>
          rw [heq]
          exact Nat.mod_lt _ (Nat.lt_trans Nat.zero_lt_one hb)
      | inr hmem => exact ih hmem

theorem value_positions (b len n : Nat) : value b (positions b len n) = n % b ^ len := by
  induction len with
  | zero => simp [positions, value, Nat.mod_one]
  | succ i ih => rw [positions, value_cons, length_positions, ih, Nat.mod_pow_succ]

theorem positions_eq_fixed (hb : 1 < b) {len : Nat} (h : n < b ^ len) :
    positions b len n = fixed b len n :=
  eq_fixed_of_value hb (length_positions b len n) (fun _ hd => lt_of_mem_positions hb hd)
    (by rw [value_positions, Nat.mod_eq_of_lt h])

end Foundation.Numeral
