import Mathlib.Data.Nat.Log
import X32PRos.Heap.Alloc

/-!
What the heap is made of: chunks, each a header and the cells behind it. A page
of a small bin has many cells, a big block has one. The size word of the header,
which is a bin number or a byte count, determines everything else.
-/

namespace X32PRos

open Foundation

/-! ### Size classes -/

theorem klmallocBinSize_eq {size : Nat} (hpos : 0 < size) (hword : size < 2 ^ 32) :
    klmallocBinSize size =
      klmallocAdjustBin (size.log2 + 1 + if size = 2 ^ size.log2 then 0 else 1) := by
  have hlog : size.log2 < 32 := (Nat.log2_lt (by omega)).mpr hword
  have hpow : size &&& wordSub size 1 = 0 ↔ size = 2 ^ size.log2 := by
    rw [wordSub_of_le hword hpos, Nat.and_sub_one_eq_zero_iff_isPowerOfTwo (by omega)]
    constructor
    · rintro ⟨k, hk⟩
      rw [hk, Nat.log2_two_pow]
    · intro h
      exact ⟨size.log2, h⟩
  have hclz : 4 * 8 - builtinClzl size = size.log2 + 1 := by
    unfold builtinClzl
    omega
  simp only [klmallocBinSize, hclz, ne_eq, hpow, ite_not]

theorem klmallocAdjustBin_eq (bin : Nat) :
    klmallocAdjustBin bin = if bin ≤ 2 then 0 else min (bin - 3) 10 := by
  unfold klmallocAdjustBin smallestBinLog bigBin numBins
  dsimp only
  split_ifs <;> omega

/-- A request of up to 2048 bytes fits the cells of its bin. -/
theorem klmallocBinSize_small {size : Nat} (hpos : 0 < size) (hle : size ≤ 2048) :
    klmallocBinSize size < bigBin ∧ size ≤ 2 ^ (klmallocBinSize size + 2) := by
  have hlog : size.log2 < 12 := (Nat.log2_lt (by omega)).mpr (by omega)
  have hlow := Nat.log2_self_le (n := size) (by omega)
  have hhigh := Nat.lt_log2_self (n := size)
  rw [klmallocBinSize_eq hpos (by omega), klmallocAdjustBin_eq, show bigBin = 10 from rfl]
  by_cases hpow : size = 2 ^ size.log2
  · rw [if_pos hpow]
    refine ⟨by split <;> omega, Nat.le_trans (Nat.le_of_eq hpow) ?_⟩
    exact Nat.pow_le_pow_right (by decide) (by split <;> omega)
  · have hten : size.log2 ≠ 11 := by
      intro h
      rw [h] at hlow hpow
      omega
    rw [if_neg hpow]
    refine ⟨by split <;> omega, Nat.le_trans (Nat.le_of_lt hhigh) ?_⟩
    exact Nat.pow_le_pow_right (by decide) (by split <;> omega)

theorem klmallocBinSize_big {size : Nat} (hlt : 2048 < size) (hword : size < 2 ^ 32) :
    klmallocBinSize size = bigBin := by
  have hlow : 11 ≤ size.log2 := by
    by_contra hnot
    have h := (Nat.log2_lt (n := size) (by omega) (k := 11)).mp (by omega)
    omega
  have hpow : size.log2 = 11 → size ≠ 2 ^ size.log2 := by
    intro h
    rw [h]
    omega
  rw [klmallocBinSize_eq (by omega) hword, klmallocAdjustBin_eq, show bigBin = 10 from rfl]
  split <;> split <;> omega

theorem klmallocBinSize_lt_iff {size : Nat} (hpos : 0 < size) (hword : size < 2 ^ 32) :
    klmallocBinSize size < bigBin ↔ size ≤ 2048 := by
  constructor
  · intro h
    by_contra hnot
    rw [klmallocBinSize_big (by omega) hword] at h
    omega
  · intro h
    exact (klmallocBinSize_small hpos h).1

/-! ### Geometry of a chunk -/

def headerSize (size : Nat) : Nat := if numBins < size then bigBinHeaderSize else binHeaderSize

def cellSize (size : Nat) : Nat := if numBins < size then size else 2 ^ (size + 2)

def cellCount (size : Nat) : Nat :=
  if numBins < size then 1 else (pageSize - binHeaderSize) / 2 ^ (size + 2)

def span (size : Nat) : Nat := if numBins < size then size + bigBinHeaderSize else pageSize

def ValidSize (size : Nat) : Prop :=
  size < bigBin ∨ numBins < size ∧ pageSize ∣ size + bigBinHeaderSize ∧
    size + bigBinHeaderSize < 2 ^ 32

def cell (a size j : Nat) : Nat := a + headerSize size + j * cellSize size

/-- `x` is the address of a cell of the chunk at `a`. -/
def IsCell (a size x : Nat) : Prop := ∃ j < cellCount size, x = cell a size j

section Geometry

variable {size a j x y : Nat}

theorem ValidSize.word (h : ValidSize size) : size < 2 ^ 32 := by
  unfold ValidSize bigBin numBins at h
  omega

theorem four_le_cellSize (size : Nat) : 4 ≤ cellSize size := by
  unfold cellSize numBins
  split
  case isTrue h => omega
  case isFalse h =>
    calc 4 = 2 ^ 2 := rfl
      _ ≤ 2 ^ (size + 2) := Nat.pow_le_pow_right (by decide) (by omega)

theorem headerSize_ge (size : Nat) : 12 ≤ headerSize size := by
  unfold headerSize bigBinHeaderSize binHeaderSize
  split <;> omega

theorem headerSize_le (size : Nat) : headerSize size ≤ 44 := by
  unfold headerSize bigBinHeaderSize binHeaderSize
  split <;> omega

theorem headerSize_of_big (h : numBins < size) : headerSize size = 44 := if_pos h

theorem ValidSize.span_ge (h : ValidSize size) : 4096 ≤ span size ∧ 4096 ∣ span size := by
  unfold ValidSize bigBinHeaderSize pageSize bigBin numBins at h
  unfold span numBins bigBinHeaderSize pageSize
  split <;> omega

theorem cellCount_pos (h : ValidSize size) : 0 < cellCount size := by
  unfold ValidSize bigBin numBins at h
  unfold cellCount numBins
  split
  case isTrue => exact Nat.one_pos
  case isFalse =>
    refine Nat.div_pos ?_ (Nat.two_pow_pos _)
    have hpow : 2 ^ (size + 2) ≤ 2 ^ 11 := Nat.pow_le_pow_right (by decide) (by omega)
    exact Nat.le_trans hpow (by decide)

/-- The cells fill the chunk and no more. -/
theorem cell_end (hj : j < cellCount size) :
    headerSize size + j * cellSize size + cellSize size ≤ span size := by
  unfold cellCount at hj
  unfold headerSize cellSize span
  by_cases hbig : numBins < size
  · simp only [hbig, ite_true] at hj ⊢
    have hzero : j = 0 := by omega
    subst hzero
    omega
  · simp only [hbig, ite_false] at hj ⊢
    have hfit : (j + 1) * 2 ^ (size + 2) ≤ pageSize - binHeaderSize :=
      Nat.le_trans (Nat.mul_le_mul_right _ hj) (Nat.div_mul_le_self _ _)
    rw [Nat.succ_mul] at hfit
    unfold pageSize binHeaderSize at *
    omega

/-- A cell starts in the first page of its chunk. -/
theorem cell_start (hj : j < cellCount size) :
    headerSize size + j * cellSize size < pageSize := by
  by_cases hbig : numBins < size
  · simp only [cellCount, hbig, ite_true] at hj
    have hzero : j = 0 := by omega
    subst hzero
    rw [headerSize_of_big hbig, Nat.zero_mul]
    decide
  · have hend := cell_end hj
    have hcell := four_le_cellSize size
    rw [span, if_neg hbig] at hend
    omega

theorem IsCell.bounds (hx : IsCell a size x) :
    a + headerSize size ≤ x ∧ x + cellSize size ≤ a + span size := by
  obtain ⟨j, hj, rfl⟩ := hx
  have hend := cell_end hj
  unfold cell
  omega

theorem IsCell.pageBase (ha : pageSize ∣ a) (hlt : a + span size < 2 ^ 32)
    (hx : IsCell a size x) : pageBase x = a := by
  have hbounds := hx.bounds
  obtain ⟨j, hj, rfl⟩ := hx
  have hstart := cell_start hj
  unfold cell pageSize at *
  rw [pageBase_eq (by omega)]
  omega

theorem IsCell.apart (hx : IsCell a size x) (hy : IsCell a size y) (hne : x ≠ y) :
    x + cellSize size ≤ y ∨ y + cellSize size ≤ x := by
  obtain ⟨i, -, rfl⟩ := hx
  obtain ⟨j, -, rfl⟩ := hy
  unfold cell at hne ⊢
  rcases Nat.lt_trichotomy i j with hlt | rfl | hlt
  · have hstep : (i + 1) * cellSize size ≤ j * cellSize size := Nat.mul_le_mul_right _ hlt
    rw [Nat.succ_mul] at hstep
    omega
  · exact absurd rfl hne
  · have hstep : (j + 1) * cellSize size ≤ i * cellSize size := Nat.mul_le_mul_right _ hlt
    rw [Nat.succ_mul] at hstep
    omega

end Geometry

/-! ### The chunks of a heap -/

/-- A chunk: its size word, and its free cells from the top of the stack down. -/
structure Chunk where
  size : Nat
  free : List Nat

abbrev Chunks := Nat → Option Chunk

structure Layout (lo hi : Nat) (c : Chunks) : Prop where
  lo_pos : 0 < lo
  hi_page : pageSize ∣ hi
  le : lo ≤ hi
  hi_lt : hi < 2 ^ 32
  valid : ∀ {a k}, c a = some k → ValidSize k.size
  page : ∀ {a k}, c a = some k → pageSize ∣ a
  within : ∀ {a k}, c a = some k → lo ≤ a ∧ a + span k.size ≤ hi
  apart : ∀ {a a' k k'}, c a = some k → c a' = some k' → a ≠ a' →
    a + span k.size ≤ a' ∨ a' + span k'.size ≤ a
  nodup : ∀ {a k}, c a = some k → k.free.Nodup
  cells : ∀ {a k x}, c a = some k → x ∈ k.free → IsCell a k.size x

namespace Layout

variable {lo hi a a' x : Nat} {c : Chunks} {k k' : Chunk}

theorem pos (hl : Layout lo hi c) (h : c a = some k) : 0 < a :=
  Nat.lt_of_lt_of_le hl.lo_pos (hl.within h).1

theorem word (hl : Layout lo hi c) (h : c a = some k) : a + span k.size < 2 ^ 32 :=
  Nat.lt_of_le_of_lt (hl.within h).2 hl.hi_lt

theorem pageBase_cell (hl : Layout lo hi c) (h : c a = some k) (hx : IsCell a k.size x) :
    pageBase x = a :=
  hx.pageBase (hl.page h) (hl.word h)

/-- The link word of a free cell is in its chunk, behind the header. -/
theorem free_bounds (hl : Layout lo hi c) (h : c a = some k) (hx : x ∈ k.free) :
    a + headerSize k.size ≤ x ∧ x + 4 ≤ a + span k.size := by
  have hbounds := (hl.cells h hx).bounds
  have hcell := four_le_cellSize k.size
  omega

/-- Nothing of a chunk depends on which of its cells are free. -/
theorem update_free (hl : Layout lo hi c) (h : c a = some k) {l : List Nat} (hnodup : l.Nodup)
    (hcells : ∀ x ∈ l, IsCell a k.size x) :
    Layout lo hi (Function.update c a (some ⟨k.size, l⟩)) := by
  have hsize : ∀ {b k'}, Function.update c a (some ⟨k.size, l⟩) b = some k' →
      ∃ k₀, c b = some k₀ ∧ k'.size = k₀.size := by
    intro b k' hb
    by_cases hba : b = a
    · subst hba
      rw [Function.update_self] at hb
      cases hb
      exact ⟨k, h, rfl⟩
    · rw [Function.update_of_ne hba] at hb
      exact ⟨k', hb, rfl⟩
  refine ⟨hl.lo_pos, hl.hi_page, hl.le, hl.hi_lt, ?_, ?_, ?_, ?_, ?_, ?_⟩
  · intro b k' hb
    obtain ⟨k₀, hb₀, hs⟩ := hsize hb
    rw [hs]
    exact hl.valid hb₀
  · intro b k' hb
    obtain ⟨k₀, hb₀, -⟩ := hsize hb
    exact hl.page hb₀
  · intro b k' hb
    obtain ⟨k₀, hb₀, hs⟩ := hsize hb
    rw [hs]
    exact hl.within hb₀
  · intro b b' k' k'' hb hb' hne
    obtain ⟨k₀, hb₀, hs⟩ := hsize hb
    obtain ⟨k₁, hb₁, hs'⟩ := hsize hb'
    rw [hs, hs']
    exact hl.apart hb₀ hb₁ hne
  · intro b k' hb
    by_cases hba : b = a
    · subst hba
      rw [Function.update_self] at hb
      cases hb
      exact hnodup
    · rw [Function.update_of_ne hba] at hb
      exact hl.nodup hb
  · intro b k' x hb hx
    by_cases hba : b = a
    · subst hba
      rw [Function.update_self] at hb
      cases hb
      exact hcells x hx
    · rw [Function.update_of_ne hba] at hb
      exact hl.cells hb hx

/-- A new chunk at the end of the heap. -/
theorem extend (hl : Layout lo hi c) {hi' : Nat} {k : Chunk} (hvalid : ValidSize k.size)
    (hend : hi' = hi + span k.size) (hlt : hi' < 2 ^ 32) (hnodup : k.free.Nodup)
    (hcells : ∀ x ∈ k.free, IsCell hi k.size x) :
    c hi = none ∧ Layout lo hi' (Function.update c hi (some k)) := by
  have hspan := hvalid.span_ge
  have hpage : pageSize ∣ span k.size := hspan.2
  have hnone : c hi = none := by
    cases hc : c hi with
    | none => rfl
    | some k' =>
        have hspan' := (hl.valid hc).span_ge.1
        have hwithin := (hl.within hc).2
        omega
  have hcase : ∀ {b k'}, Function.update c hi (some k) b = some k' →
      (b = hi ∧ k' = k) ∨ (b ≠ hi ∧ c b = some k') := by
    intro b k' hb
    by_cases hbhi : b = hi
    · subst hbhi
      rw [Function.update_self] at hb
      exact Or.inl ⟨rfl, (Option.some.inj hb).symm⟩
    · rw [Function.update_of_ne hbhi] at hb
      exact Or.inr ⟨hbhi, hb⟩
  refine ⟨hnone, hl.lo_pos, ?_, ?_, hlt, ?_, ?_, ?_, ?_, ?_, ?_⟩
  · rw [hend]
    exact Nat.dvd_add hl.hi_page hpage
  · have hle := hl.le
    omega
  · intro b k' hb
    rcases hcase hb with ⟨-, rfl⟩ | ⟨-, hb⟩
    · exact hvalid
    · exact hl.valid hb
  · intro b k' hb
    rcases hcase hb with ⟨rfl, -⟩ | ⟨-, hb⟩
    · exact hl.hi_page
    · exact hl.page hb
  · intro b k' hb
    rcases hcase hb with ⟨rfl, rfl⟩ | ⟨-, hb⟩
    · exact ⟨hl.le, by omega⟩
    · have hwithin := hl.within hb
      exact ⟨hwithin.1, by omega⟩
  · intro b b' k' k'' hb hb' hne
    rcases hcase hb with ⟨rfl, rfl⟩ | ⟨-, hold⟩ <;>
      rcases hcase hb' with ⟨rfl, rfl⟩ | ⟨-, hold'⟩
    · exact absurd rfl hne
    · exact Or.inr (hl.within hold').2
    · exact Or.inl (hl.within hold).2
    · exact hl.apart hold hold' hne
  · intro b k' hb
    rcases hcase hb with ⟨-, rfl⟩ | ⟨-, hb⟩
    · exact hnodup
    · exact hl.nodup hb
  · intro b k' x hb hx
    rcases hcase hb with ⟨rfl, rfl⟩ | ⟨-, hb⟩
    · exact hcells x hx
    · exact hl.cells hb hx

end Layout

end X32PRos
