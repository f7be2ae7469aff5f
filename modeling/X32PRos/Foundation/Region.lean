import Mathlib.Algebra.Ring.Nat

/-!
Half-open address ranges, and when two of them share no address.
-/

namespace Foundation

/-- The addresses `base, …, base + len - 1`. -/
structure Region where
  base : Nat
  len : Nat
deriving DecidableEq, Repr

namespace Region

instance : Membership Nat Region where
  mem r x := r.base ≤ x ∧ x < r.base + r.len

theorem mem_iff {r : Region} {x : Nat} : x ∈ r ↔ r.base ≤ x ∧ x < r.base + r.len := Iff.rfl

instance (r : Region) (x : Nat) : Decidable (x ∈ r) :=
  decidable_of_iff (r.base ≤ x ∧ x < r.base + r.len) Iff.rfl

def Apart (r s : Region) : Prop := ∀ x, x ∈ r → x ∉ s

theorem Apart.symm {r s : Region} (h : Apart r s) : Apart s r := fun x hs hr => h x hr hs

theorem apart_of_end_le {r s : Region} (h : r.base + r.len ≤ s.base) : Apart r s := by
  intro x hr hs
  rw [mem_iff] at hr hs
  omega

theorem apart_of_le_or {r s : Region} (h : r.base + r.len ≤ s.base ∨ s.base + s.len ≤ r.base) :
    Apart r s := by
  cases h with
  | inl h => exact apart_of_end_le h
  | inr h => exact (apart_of_end_le h).symm

/-- The ranges fill `lo, …, hi - 1` in order, without gaps. -/
def Consecutive : Nat → Nat → List Region → Prop
  | lo, hi, [] => lo = hi
  | lo, hi, r :: rs => r.base = lo ∧ Consecutive (lo + r.len) hi rs

theorem Consecutive.base_ge {lo hi : Nat} {rs : List Region} (h : Consecutive lo hi rs) :
    ∀ r ∈ rs, lo ≤ r.base := by
  induction rs generalizing lo with
  | nil => simp
  | cons r rs ih =>
      intro s hs
      rcases List.mem_cons.mp hs with rfl | hs
      · exact Nat.le_of_eq h.1.symm
      · exact Nat.le_trans (Nat.le_add_right lo r.len) (ih h.2 s hs)

theorem Consecutive.pairwise_apart {lo hi : Nat} {rs : List Region} (h : Consecutive lo hi rs) :
    rs.Pairwise Apart := by
  induction rs generalizing lo with
  | nil => exact List.Pairwise.nil
  | cons r rs ih =>
      refine List.pairwise_cons.mpr ⟨?_, ih h.2⟩
      intro s hs
      apply apart_of_end_le
      rw [h.1]
      exact h.2.base_ge s hs

/-- One more range at the end. -/
theorem Consecutive.concat {lo hi : Nat} {rs : List Region} {r : Region}
    (h : Consecutive lo hi rs) (hr : r.base = hi) : Consecutive lo (hi + r.len) (rs ++ [r]) := by
  induction rs generalizing lo with
  | nil =>
      have hlo : lo = hi := h
      exact ⟨hr.trans hlo.symm, by rw [hlo]; rfl⟩
  | cons s rs ih => exact ⟨h.1, ih h.2⟩

/-- Their lengths add up to what lies between the ends. -/
theorem Consecutive.sum_len {lo hi : Nat} {rs : List Region} (h : Consecutive lo hi rs) :
    lo + (rs.map len).sum = hi := by
  induction rs generalizing lo with
  | nil => exact h
  | cons r rs ih =>
      have hrest := ih h.2
      rw [List.map_cons, List.sum_cons]
      omega

end Region

end Foundation
