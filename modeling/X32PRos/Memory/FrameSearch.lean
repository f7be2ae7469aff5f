import Mathlib.Data.Nat.Count
import X32PRos.Memory.Frames

/-!
The search of `first_frame` against the flat bitmap, the words it reads, and how
many frames are left for it.
-/

namespace X32PRos

open Foundation

namespace FrameAllocator

def HasFree (a : FrameAllocator) : Prop := ∃ f < a.nframes.toNat, a.inUse f = false

/-- The search finds the least clear frame, it finds nothing exactly when every
frame is in use, and only then `alloc_frame` stops the machine. -/
structure ExactSearch (a : FrameAllocator) : Prop where
  least : ∀ f < a.nframes.toNat, a.inUse f = false → (∀ g < f, a.inUse g = true) → a.firstFrame = f
  none_iff : a.firstFrame = noFrame ↔ ∀ f < a.nframes.toNat, a.inUse f = true
  halts : ∀ page k w e, allocFrame page k w a = .error e → ∀ f < a.nframes.toNat, a.inUse f = true

variable {a : FrameAllocator}

theorem not_hasFree : ¬ a.HasFree ↔ ∀ f < a.nframes.toNat, a.inUse f = true := by
  simp [HasFree]

/-- `alloc_frame` stops the machine when the search finds nothing. -/
theorem allocFrame_error {page : Page} {k w : Int} {e : Fault}
    (h : allocFrame page k w a = .error e) :
    a.firstFrame = noFrame ∧ e = outOfFrames := by
  unfold allocFrame at h
  split at h
  case isTrue => cases h
  case isFalse =>
    dsimp only at h
    split at h
    case isTrue hnone =>
      cases h
      exact ⟨hnone, rfl⟩
    case isFalse => cases h

/-- The search is exact unless the only clear frames are in the last, partial word. -/
theorem exactSearch_iff (a : FrameAllocator) :
    a.ExactSearch ↔ (a.HasFree → ∃ f < a.scanned, a.inUse f = false) := by
  have hnone := a.firstFrame_eq_noFrame_iff
  constructor
  · intro h hfree
    by_contra hclear
    have hall : ∀ f < a.scanned, a.inUse f = true := by
      intro f hf
      by_contra hused
      exact hclear ⟨f, hf, Bool.eq_false_iff.mpr hused⟩
    exact not_hasFree.mpr (h.none_iff.mp (hnone.mpr hall)) hfree
  · intro h
    have hfull : a.firstFrame = noFrame → ∀ f < a.nframes.toNat, a.inUse f = true := by
      intro heq
      refine not_hasFree.mp fun hfree => ?_
      obtain ⟨f, hf, hclear⟩ := h hfree
      have hused := hnone.mp heq f hf
      rw [hclear] at hused
      cases hused
    refine ⟨?_, ⟨hfull, ?_⟩, ?_⟩
    · intro f hf hclear hbelow
      have hlt : f < a.scanned := by
        obtain ⟨g, hg, hgclear⟩ := h ⟨f, hf, hclear⟩
        by_contra hge
        have hused := hbelow g (by omega)
        rw [hgclear] at hused
        cases hused
      have hne : f ≠ noFrame := Nat.ne_of_lt (Nat.lt_of_lt_of_le hlt a.scanned_le_noFrame)
      exact (a.firstFrame_eq_iff hne).mpr ⟨hlt, hclear, hbelow⟩
    · intro hall
      exact hnone.mpr fun f hf => hall f (Nat.lt_of_lt_of_le hf a.scanned_le)
    · intro page k w e herr
      exact hfull (allocFrame_error herr).1

/-- With 33 frames, the last one is never found. -/
theorem exactSearch_33 : ∃ a : FrameAllocator, a.nframes = 33 ∧ ¬ a.ExactSearch := by
  refine ⟨⟨fun w => if w = 0 then 0xFFFFFFFF#32 else 0#32, 33⟩, rfl, ?_⟩
  intro h
  have hnone : (⟨fun w => if w = 0 then 0xFFFFFFFF#32 else 0#32, 33⟩ : FrameAllocator).firstFrame =
      noFrame := by decide
  have hused := h.none_iff.mp hnone 32 (by decide)
  revert hused
  decide

/-! ### What the search reads -/

/-- The words that the scan reads out of a list of words: all up to the first one
that is not full. -/
def scanReads (frames : Bitmap 32) : List Nat → List Nat
  | [] => []
  | i :: rest => i :: if frames i = 0xFFFFFFFF#32 then scanReads frames rest else []

def firstFrameReads (a : FrameAllocator) : List Nat :=
  scanReads a.frames (List.range (indexFromBit a.nframes.toNat))

theorem mem_scanReads (frames : Bitmap 32) (w n : Nat) : ∀ i : Nat,
    w ∈ scanReads frames (List.range' i n) ↔
      i ≤ w ∧ w < i + n ∧ ∀ v, i ≤ v → v < w → frames v = 0xFFFFFFFF#32 := by
  induction n with
  | zero =>
      intro i
      simp only [List.range'_zero, scanReads, List.not_mem_nil, false_iff]
      omega
  | succ n ih =>
      intro i
      rw [List.range'_succ, scanReads, List.mem_cons]
      by_cases hfull : frames i = 0xFFFFFFFF#32
      · rw [if_pos hfull, ih]
        constructor
        · intro h
          cases h with
          | inl hwi => exact ⟨by omega, by omega, fun v hle hlt => by omega⟩
          | inr h =>
              refine ⟨by omega, by omega, ?_⟩
              intro v hle hlt
              by_cases hvi : v = i
              · rw [hvi]
                exact hfull
              · exact h.2.2 v (by omega) hlt
        · intro h
          by_cases hwi : w = i
          · exact Or.inl hwi
          · exact Or.inr ⟨by omega, by omega, fun v hle hlt => h.2.2 v (by omega) hlt⟩
      · rw [if_neg hfull]
        constructor
        · intro h
          cases h with
          | inl hwi => exact ⟨by omega, by omega, fun v hle hlt => by omega⟩
          | inr h => cases h
        · intro h
          by_cases hwi : w = i
          · exact Or.inl hwi
          · exact absurd (h.2.2 i (Nat.le_refl i) (by omega)) hfull

theorem mem_firstFrameReads {w : Nat} :
    w ∈ a.firstFrameReads ↔
      w < indexFromBit a.nframes.toNat ∧ ∀ v < w, ∀ o < 32, a.inUse (v * 32 + o) = true := by
  rw [firstFrameReads, List.range_eq_range', mem_scanReads]
  have hfull : ∀ v, a.frames v = 0xFFFFFFFF#32 ↔ ∀ o < 32, a.inUse (v * 32 + o) = true :=
    fun v => Bitmap.word_full_iff (by decide) a.frames v
  constructor
  · intro h
    refine ⟨by omega, ?_⟩
    intro v hv
    exact (hfull v).mp (h.2.2 v (Nat.zero_le v) hv)
  · intro h
    refine ⟨Nat.zero_le w, by omega, ?_⟩
    intro v _ hv
    exact (hfull v).mpr (h.2 v hv)

/-- The search depends on the words it reads and on no others. -/
theorem firstFrame_of_reads {a' : FrameAllocator} (hn : a'.nframes = a.nframes)
    (h : ∀ w ∈ a.firstFrameReads, a'.frames w = a.frames w) : a'.firstFrame = a.firstFrame := by
  have hscanned : a'.scanned = a.scanned := by rw [scanned, scanned, hn]
  have hread : ∀ g < a.scanned, (∀ f < g, a.inUse f = true) → a'.inUse g = a.inUse g := by
    intro g hg hused
    have hmem : g / 32 ∈ a.firstFrameReads := by
      refine mem_firstFrameReads.mpr ⟨(Nat.div_lt_iff_lt_mul (by decide)).mpr hg, ?_⟩
      intro v hv o ho
      exact hused _ (by omega)
    exact congrArg (fun x => x.getLsbD (g % 32)) (h _ hmem)
  by_cases hnone : a.firstFrame = noFrame
  · have hall := a.firstFrame_eq_noFrame_iff.mp hnone
    rw [hnone, firstFrame_eq_noFrame_iff, hscanned]
    intro g hg
    rw [hread g hg fun f hf => hall f (Nat.lt_trans hf hg)]
    exact hall g hg
  · obtain ⟨hlt, hclear, hbelow⟩ := (a.firstFrame_eq_iff hnone).mp rfl
    rw [firstFrame_eq_iff _ hnone, hscanned]
    refine ⟨hlt, ?_, ?_⟩
    · rw [hread _ hlt hbelow, hclear]
    · intro g hg
      rw [hread g (Nat.lt_trans hg hlt) fun f hf => hbelow f (Nat.lt_trans hf hg)]
      exact hbelow g hg

/-- No word beyond the one of a clear frame is read. -/
theorem le_of_mem_firstFrameReads {w f : Nat} (hw : w ∈ a.firstFrameReads)
    (hclear : a.inUse f = false) : w ≤ f / 32 := by
  by_contra hlt
  have hused := (mem_firstFrameReads.mp hw).2 (f / 32) (by omega) (f % 32) (Nat.mod_lt _ (by decide))
  rw [Nat.mul_comm, Nat.div_add_mod, hclear] at hused
  cases hused

/-! ### Clear frames left -/

def clearBelow (a : FrameAllocator) (n : Nat) : Nat := n.count fun f => a.inUse f = false

theorem exists_of_clearBelow {n : Nat} (h : 0 < a.clearBelow n) : ∃ f < n, a.inUse f = false :=
  Nat.count_ne_iff_exists.mp (Nat.ne_of_gt h)

theorem clearBelow_of_clear {n : Nat} (h : ∀ f < n, a.inUse f = false) : a.clearBelow n = n :=
  Nat.count_iff_forall.mpr h

/-- Setting one bit takes one clear frame at most. -/
theorem clearBelow_setFrame (a : FrameAllocator) (x n : Nat) :
    a.clearBelow n ≤ (a.setFrame x).clearBelow n + 1 := by
  have hother : ∀ f, f ≠ x / 0x1000 → (a.setFrame x).inUse f = a.inUse f := by
    intro f hf
    rw [inUse_setFrame, decide_eq_false hf, Bool.false_or]
  have hstep : ∀ n, a.clearBelow n ≤ (a.setFrame x).clearBelow n + 1 ∧
      (n ≤ x / 0x1000 → a.clearBelow n = (a.setFrame x).clearBelow n) := by
    intro n
    unfold clearBelow
    induction n with
    | zero => exact ⟨Nat.zero_le _, fun _ => rfl⟩
    | succ n ih =>
        rw [Nat.count_succ, Nat.count_succ]
        by_cases hn : n = x / 0x1000
        · have heq := ih.2 (Nat.le_of_eq hn)
          constructor
          · split <;> omega
          · intro hle
            omega
        · rw [hother n hn]
          constructor
          · split <;> omega
          · intro hle
            rw [ih.2 (by omega)]
  exact (hstep n).1

end FrameAllocator

theorem allocFrame_clearBelow {page page' : Page} {k w : Int} {a a' : FrameAllocator}
    (h : allocFrame page k w a = .ok (page', a')) (n : Nat) :
    a.clearBelow n ≤ a'.clearBelow n + 1 := by
  by_cases hframe : page.frame = 0
  · obtain ⟨f, -, -, -, -, -, rfl⟩ := allocFrame_ok hframe h
    exact a.clearBelow_setFrame _ n
  · rw [allocFrame_of_frame hframe] at h
    cases h
    exact Nat.le_succ _

end X32PRos
