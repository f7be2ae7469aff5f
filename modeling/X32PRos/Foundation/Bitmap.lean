import Mathlib.Data.Nat.Basic

/-!
Bitmaps kept in `w`-bit words: bit `f` is bit `f % w` of word `f / w`. Setting
and clearing one bit, and the word-by-word search for the lowest clear bit,
are related to the flat reading of the map.
-/

namespace Foundation

abbrev Bitmap (w : Nat) := Nat → BitVec w

namespace Bitmap

variable {w : Nat}

def bit (b : Bitmap w) (f : Nat) : Bool := (b (f / w)).getLsbD (f % w)

def setWord (b : Bitmap w) (i : Nat) (x : BitVec w) : Bitmap w :=
  fun j => if j = i then x else b j

def setBit (b : Bitmap w) (i o : Nat) : Bitmap w := b.setWord i (b i ||| (1#w <<< o))

def clearBit (b : Bitmap w) (i o : Nat) : Bitmap w := b.setWord i (b i &&& ~~~(1#w <<< o))

theorem getLsbD_mask {o : Nat} (ho : o < w) (j : Nat) :
    (1#w <<< o).getLsbD j = decide (j = o) := by
  rw [← BitVec.twoPow_eq, BitVec.getLsbD_twoPow]
  simp [ho, eq_comm]

theorem div_mod_inj {f g : Nat} (hdiv : f / w = g / w) (hmod : f % w = g % w) : f = g := by
  rw [← Nat.div_add_mod f w, ← Nat.div_add_mod g w, hdiv, hmod]

theorem bit_setBit (hw : 0 < w) (b : Bitmap w) (f g : Nat) :
    (b.setBit (f / w) (f % w)).bit g = (decide (g = f) || b.bit g) := by
  have hf : f % w < w := Nat.mod_lt _ hw
  by_cases hdiv : g / w = f / w
  · have hiff : (g % w = f % w) ↔ g = f := ⟨div_mod_inj hdiv, fun h => by rw [h]⟩
    simp [bit, setBit, setWord, hdiv, getLsbD_mask hf, hiff, Bool.or_comm]
  · have hne : g ≠ f := fun h => hdiv (by rw [h])
    simp [bit, setBit, setWord, hdiv, hne]

/-- Testing with a one-bit mask is reading the bit. -/
theorem and_mask_eq_zero (hw : 0 < w) (b : Bitmap w) (i : Nat) {o : Nat} (ho : o < w) :
    b i &&& (1#w <<< o) = 0#w ↔ b.bit (i * w + o) = false := by
  have hdiv : (i * w + o) / w = i := by
    rw [Nat.mul_comm, Nat.mul_add_div hw, Nat.div_eq_of_lt ho, Nat.add_zero]
  have hmod : (i * w + o) % w = o := by
    rw [Nat.mul_comm, Nat.mul_add_mod, Nat.mod_eq_of_lt ho]
  rw [bit, hdiv, hmod]
  constructor
  · intro h
    have hbit := congrArg (fun x => x.getLsbD o) h
    simpa [getLsbD_mask ho] using hbit
  · intro h
    apply BitVec.eq_of_getLsbD_eq
    intro j hj
    rw [BitVec.getLsbD_and, getLsbD_mask ho]
    by_cases hjo : j = o
    · simp [hjo, h]
    · simp [hjo]

theorem word_full_iff (hw : 0 < w) (b : Bitmap w) (i : Nat) :
    b i = BitVec.allOnes w ↔ ∀ o, o < w → b.bit (i * w + o) = true := by
  have hbit : ∀ o, o < w → b.bit (i * w + o) = (b i).getLsbD o := by
    intro o ho
    rw [bit, Nat.mul_comm, Nat.mul_add_div hw, Nat.div_eq_of_lt ho, Nat.add_zero,
      Nat.mul_add_mod, Nat.mod_eq_of_lt ho]
  constructor
  · intro h o ho
    simp [hbit o ho, h, ho]
  · intro h
    apply BitVec.eq_of_getLsbD_eq
    intro o ho
    rw [← hbit o ho, h o ho]
    simp [ho]

/-- The first index below `n` that yields a value. -/
theorem findSome?_range_eq_some {β : Type} {p : Nat → Option β} {n : Nat} {x : β} :
    (List.range n).findSome? p = some x ↔ ∃ i < n, p i = some x ∧ ∀ j < i, p j = none := by
  induction n with
  | zero => simp
  | succ n ih =>
      rw [List.range_succ, List.findSome?_append, Option.or_eq_some_iff, ih]
      constructor
      · rintro (⟨i, hi, hx, hlt⟩ | ⟨hnone, hlast⟩)
        · exact ⟨i, Nat.lt_succ_of_lt hi, hx, hlt⟩
        · refine ⟨n, Nat.lt_succ_self n, by simpa using hlast, ?_⟩
          intro j hj
          exact List.findSome?_eq_none_iff.mp hnone j (List.mem_range.mpr hj)
      · rintro ⟨i, hi, hx, hlt⟩
        by_cases hin : i = n
        · subst hin
          refine Or.inr ⟨?_, by simpa using hx⟩
          exact List.findSome?_eq_none_iff.mpr fun j hj => hlt j (List.mem_range.mp hj)
        · exact Or.inl ⟨i, by omega, hx, hlt⟩

theorem findSome?_range_eq_none {β : Type} {p : Nat → Option β} {n : Nat} :
    (List.range n).findSome? p = none ↔ ∀ i < n, p i = none := by
  simp

/-- Words below `words` are scanned in order, full words are skipped, and the
first clear bit of a word that is not full is returned. -/
def firstClear (b : Bitmap w) (words : Nat) : Option Nat :=
  (List.range words).findSome? fun i =>
    if b i ≠ BitVec.allOnes w then
      (List.range w).findSome? fun j =>
        if b i &&& (1#w <<< j) = 0#w then some (i * w + j) else none
    else none

theorem firstClear_inner (hw : 0 < w) (b : Bitmap w) (i f : Nat) :
    ((List.range w).findSome? fun j =>
        if b i &&& (1#w <<< j) = 0#w then some (i * w + j) else none) = some f ↔
      f / w = i ∧ b.bit f = false ∧ ∀ g < f, g / w = i → b.bit g = true := by
  have hdiv : ∀ j, j < w → (i * w + j) / w = i := fun j hj => by
    rw [Nat.mul_comm, Nat.mul_add_div hw, Nat.div_eq_of_lt hj, Nat.add_zero]
  rw [findSome?_range_eq_some]
  constructor
  · rintro ⟨j, hj, hsome, hlt⟩
    split at hsome
    case isFalse => simp at hsome
    case isTrue hclear =>
      cases hsome
      refine ⟨hdiv j hj, (and_mask_eq_zero hw b i hj).mp hclear, ?_⟩
      intro g hg hgi
      have hgw : g % w < j := by
        have hsplit := Nat.div_add_mod g w
        rw [hgi, Nat.mul_comm] at hsplit
        omega
      have hnone := hlt (g % w) hgw
      split at hnone
      case isTrue => simp at hnone
      case isFalse hset =>
        rw [and_mask_eq_zero hw b i (Nat.mod_lt _ hw), ← hgi, Nat.mul_comm,
          Nat.div_add_mod] at hset
        simpa using hset
  · rintro ⟨hfi, hclear, hlt⟩
    have hf : i * w + f % w = f := by rw [← hfi, Nat.mul_comm, Nat.div_add_mod]
    refine ⟨f % w, Nat.mod_lt _ hw, ?_, ?_⟩
    · have hzero := (and_mask_eq_zero hw b i (Nat.mod_lt f hw)).mpr (by rw [hf]; exact hclear)
      rw [if_pos hzero, hf]
    · intro j hj
      have hjw : j < w := Nat.lt_trans hj (Nat.mod_lt _ hw)
      have hset := hlt (i * w + j) (by omega) (hdiv j hjw)
      rw [if_neg]
      intro hzero
      rw [(and_mask_eq_zero hw b i hjw).mp hzero] at hset
      exact Bool.false_ne_true hset

/-- The search finds the least clear bit of the scanned words. -/
theorem firstClear_eq_some_iff (hw : 0 < w) (b : Bitmap w) (words f : Nat) :
    b.firstClear words = some f ↔
      f < words * w ∧ b.bit f = false ∧ ∀ g < f, b.bit g = true := by
  rw [firstClear, findSome?_range_eq_some]
  constructor
  · rintro ⟨i, hi, hsome, hlt⟩
    split at hsome
    case isFalse => simp at hsome
    case isTrue hne =>
      obtain ⟨hfi, hclear, hbelow⟩ := (firstClear_inner hw b i f).mp hsome
      refine ⟨(Nat.div_lt_iff_lt_mul hw).mp (hfi ▸ hi), hclear, ?_⟩
      intro g hg
      by_cases hgi : g / w = i
      · exact hbelow g hg hgi
      · -- an earlier word: the outer loop found nothing there, so it is full
        have hgi' : g / w < i := lt_of_le_of_ne (hfi ▸ Nat.div_le_div_right (Nat.le_of_lt hg)) hgi
        have hnone := hlt (g / w) hgi'
        have hfull : b (g / w) = BitVec.allOnes w := by
          by_contra hnot
          rw [if_pos hnot, findSome?_range_eq_none] at hnone
          apply hnot
          rw [word_full_iff hw]
          intro o ho
          have hbit := hnone o ho
          split at hbit
          case isTrue => simp at hbit
          case isFalse hset =>
            rw [and_mask_eq_zero hw b _ ho] at hset
            simpa using hset
        have hg' := (word_full_iff hw b (g / w)).mp hfull (g % w) (Nat.mod_lt _ hw)
        rwa [Nat.mul_comm, Nat.div_add_mod] at hg'
  · rintro ⟨hf, hclear, hbelow⟩
    refine ⟨f / w, (Nat.div_lt_iff_lt_mul hw).mpr hf, ?_, ?_⟩
    · have hne : b (f / w) ≠ BitVec.allOnes w := by
        intro hfull
        have hset := (word_full_iff hw b (f / w)).mp hfull (f % w) (Nat.mod_lt _ hw)
        rw [Nat.mul_comm, Nat.div_add_mod, hclear] at hset
        exact Bool.false_ne_true hset
      rw [if_pos hne]
      exact (firstClear_inner hw b (f / w) f).mpr ⟨rfl, hclear, fun g hg _ => hbelow g hg⟩
    · intro j hj
      have hfull : b j = BitVec.allOnes w := by
        rw [word_full_iff hw]
        intro o ho
        apply hbelow
        calc j * w + o < j * w + w := by omega
          _ = (j + 1) * w := by rw [Nat.succ_mul]
          _ ≤ f / w * w := Nat.mul_le_mul_right w hj
          _ ≤ f := Nat.div_mul_le_self f w
      simp [hfull]

theorem firstClear_eq_none_iff (hw : 0 < w) (b : Bitmap w) (words : Nat) :
    b.firstClear words = none ↔ ∀ g < words * w, b.bit g = true := by
  constructor
  · intro hnone g
    induction g using Nat.strong_induction_on with
    | _ g ih =>
        intro hg
        by_contra hclear
        have hsome := (firstClear_eq_some_iff hw b words g).mpr
          ⟨hg, by simpa using hclear, fun k hk => ih k hk (Nat.lt_trans hk hg)⟩
        rw [hnone] at hsome
        cases hsome
  · intro hall
    cases hf : b.firstClear words with
    | none => rfl
    | some f =>
        obtain ⟨hlt, hclear, -⟩ := (firstClear_eq_some_iff hw b words f).mp hf
        rw [hall f hlt] at hclear
        cases hclear

end Bitmap

end Foundation
