import X32PRos.Heap.Grow

/-!
The cells that callers have: those of a chunk that are not on its stack. What
the steps on chunks do to them, and what lies apart from them.
-/

namespace X32PRos

variable {lo hi a x y m n : Nat} {c : Chunks} {k : Chunk}

/-- A cell of `n` bytes at `x` that is not free. -/
def Busy (c : Chunks) (x n : Nat) : Prop :=
  ∃ a k, c a = some k ∧ IsCell a k.size x ∧ x ∉ k.free ∧ n = cellSize k.size

/-! ### Where they are -/

/-- A cell belongs to one chunk. -/
theorem Layout.chunk_unique (hl : Layout lo hi c) {b : Nat} {k' : Chunk} (hk : c a = some k)
    (hk' : c b = some k') (hx : IsCell a k.size x) (hx' : IsCell b k'.size x) : b = a := by
  rw [← hl.pageBase_cell hk hx, hl.pageBase_cell hk' hx']

theorem Busy.within (hl : Layout lo hi c) (hx : Busy c x n) : lo ≤ x ∧ x + n ≤ hi := by
  obtain ⟨a, k, hk, hcell, -, rfl⟩ := hx
  have hbounds := hcell.bounds
  have hwithin := hl.within hk
  omega

/-- NULL is no block. -/
theorem Busy.base_ne_zero (hl : Layout lo hi c) (hx : Busy c x n) : x ≠ 0 :=
  Nat.ne_of_gt (Nat.lt_of_lt_of_le hl.lo_pos (hx.within hl).1)

theorem Busy.four_le (hx : Busy c x n) : 4 ≤ n := by
  obtain ⟨a, k, -, -, -, rfl⟩ := hx
  exact four_le_cellSize k.size

theorem Busy.apart (hl : Layout lo hi c) (hx : Busy c x n) (hy : Busy c y m) (hne : x ≠ y) :
    x + n ≤ y ∨ y + m ≤ x := by
  obtain ⟨a, k, hk, hcell, -, rfl⟩ := hx
  obtain ⟨b, k', hk', hcell', -, rfl⟩ := hy
  by_cases hab : a = b
  · subst hab
    rw [hk] at hk'
    cases hk'
    exact hcell.apart hcell' hne
  · have hbounds := hcell.bounds
    have hbounds' := hcell'.bounds
    rcases hl.apart hk hk' hab with hle | hle <;> omega

theorem Busy.apart_header (hl : Layout lo hi c) (hx : Busy c x n) (hk : c a = some k) :
    x + n ≤ a ∨ a + headerSize k.size ≤ x := by
  obtain ⟨b, k', hk', hcell, -, rfl⟩ := hx
  have hbounds := hcell.bounds
  by_cases hab : a = b
  · subst hab
    rw [hk] at hk'
    cases hk'
    exact Or.inr hbounds.1
  · have hspan := (hl.valid hk).span_ge.1
    have hheader := headerSize_le k.size
    rcases hl.apart hk hk' hab with hle | hle <;> omega

theorem Busy.apart_free (hl : Layout lo hi c) (hx : Busy c x n) (hk : c a = some k)
    (hy : y ∈ k.free) : x + n ≤ y ∨ y + 4 ≤ x := by
  obtain ⟨b, k', hk', hcell, hnot, rfl⟩ := hx
  have hcell' := hl.cells hk hy
  have hfour := four_le_cellSize k.size
  by_cases hab : a = b
  · subst hab
    rw [hk] at hk'
    cases hk'
    have hapart := hcell.apart hcell' fun heq => hnot (heq ▸ hy)
    omega
  · have hbounds := hcell.bounds
    have hbounds' := hcell'.bounds
    rcases hl.apart hk hk' hab with hle | hle <;> omega

/-- The bytes of such a cell are not metadata. -/
theorem Busy.not_header (hl : Layout lo hi c) (hx : Busy c x n) (hlo : x ≤ y) (hhi : y < x + n) :
    ¬ HeaderByte c y := by
  rintro ⟨a, k, hk, hin⟩
  rcases hx.apart_header hl hk with hle | hle <;> omega

theorem Busy.not_metadata (hl : Layout lo hi c) (hx : Busy c x n) (hlo : x ≤ y)
    (hhi : y < x + n) : ¬ Metadata c y := by
  rintro (⟨hk, hin⟩ | ⟨hk, hfree, hin⟩)
  · rcases hx.apart_header hl hk with hle | hle <;> omega
  · rcases hx.apart_free hl hk hfree with hle | hle <;> omega

/-! ### What the steps do to them -/

/-- A free cell is taken. -/
theorem Busy.pop (hl : Layout lo hi c) (hk : c a = some k) {fs : List Nat}
    (hfree : k.free = x :: fs) :
    (∀ n, ¬ Busy c x n) ∧
      ∀ y m, Busy (Function.update c a (some ⟨k.size, fs⟩)) y m ↔
        Busy c y m ∨ y = x ∧ m = cellSize k.size := by
  have hcell : IsCell a k.size x := hl.cells hk (by rw [hfree]; exact List.mem_cons_self)
  have hnodup := hl.nodup hk
  rw [hfree] at hnodup
  have hnot := (List.nodup_cons.mp hnodup).1
  constructor
  · rintro n ⟨b, k', hk', hcell', hx, -⟩
    have hba := hl.chunk_unique hk hk' hcell hcell'
    subst hba
    rw [hk] at hk'
    cases hk'
    exact hx (by rw [hfree]; exact List.mem_cons_self)
  · intro y m
    constructor
    · rintro ⟨b, k', hb, hcell', hy, rfl⟩
      by_cases hba : b = a
      · subst hba
        rw [Function.update_self] at hb
        cases hb
        by_cases hyx : y = x
        · exact Or.inr ⟨hyx, rfl⟩
        · refine Or.inl ⟨b, k, hk, hcell', ?_, rfl⟩
          rw [hfree, List.mem_cons, not_or]
          exact ⟨hyx, hy⟩
      · rw [Function.update_of_ne hba] at hb
        exact Or.inl ⟨b, k', hb, hcell', hy, rfl⟩
    · rintro (⟨b, k', hk', hcell', hy, rfl⟩ | ⟨rfl, rfl⟩)
      · by_cases hba : b = a
        · subst hba
          rw [hk] at hk'
          cases hk'
          rw [hfree, List.mem_cons, not_or] at hy
          exact ⟨b, _, Function.update_self .., hcell', hy.2, rfl⟩
        · exact ⟨b, k', by rw [Function.update_of_ne hba]; exact hk', hcell', hy, rfl⟩
      · exact ⟨a, _, Function.update_self .., hcell, hnot, rfl⟩

/-- A cell is given back. -/
theorem Busy.push (hl : Layout lo hi c) (hk : c a = some k) (hcell : IsCell a k.size x) (y m : Nat) :
    Busy (Function.update c a (some ⟨k.size, x :: k.free⟩)) y m ↔ Busy c y m ∧ y ≠ x := by
  constructor
  · rintro ⟨b, k', hb, hcell', hy, rfl⟩
    by_cases hba : b = a
    · subst hba
      rw [Function.update_self] at hb
      cases hb
      rw [List.mem_cons, not_or] at hy
      exact ⟨⟨b, k, hk, hcell', hy.2, rfl⟩, hy.1⟩
    · rw [Function.update_of_ne hba] at hb
      refine ⟨⟨b, k', hb, hcell', hy, rfl⟩, ?_⟩
      rintro rfl
      exact hba (hl.chunk_unique hk hb hcell hcell')
  · rintro ⟨⟨b, k', hk', hcell', hy, rfl⟩, hyx⟩
    by_cases hba : b = a
    · subst hba
      rw [hk] at hk'
      cases hk'
      refine ⟨b, _, Function.update_self .., hcell', ?_, rfl⟩
      rw [List.mem_cons, not_or]
      exact ⟨hyx, hy⟩
    · exact ⟨b, k', by rw [Function.update_of_ne hba]; exact hk', hcell', hy, rfl⟩

/-- A new chunk has its own cells. -/
theorem Busy.extend (hnone : c a = none) (y m : Nat) :
    Busy (Function.update c a (some k)) y m ↔
      Busy c y m ∨ IsCell a k.size y ∧ y ∉ k.free ∧ m = cellSize k.size := by
  constructor
  · rintro ⟨b, k', hb, hcell, hy, rfl⟩
    by_cases hba : b = a
    · subst hba
      rw [Function.update_self] at hb
      cases hb
      exact Or.inr ⟨hcell, hy, rfl⟩
    · rw [Function.update_of_ne hba] at hb
      exact Or.inl ⟨b, k', hb, hcell, hy, rfl⟩
  · rintro (⟨b, k', hk', hcell, hy, rfl⟩ | ⟨hcell, hy, rfl⟩)
    · have hba : b ≠ a := by
        rintro rfl
        rw [hnone] at hk'
        cases hk'
      exact ⟨b, k', by rw [Function.update_of_ne hba]; exact hk', hcell, hy, rfl⟩
    · exact ⟨a, k, Function.update_self .., hcell, hy, rfl⟩

/-- The addresses of chunks do not change with their cells. -/
theorem exists_chunk_update (hk : c a = some k) (k' : Chunk) (b : Nat) :
    (∃ k₀, Function.update c a (some k') b = some k₀) ↔ ∃ k₀, c b = some k₀ := by
  by_cases hba : b = a
  · subst hba
    rw [Function.update_self]
    exact iff_of_true ⟨k', rfl⟩ ⟨k, hk⟩
  · rw [Function.update_of_ne hba]

theorem exists_chunk_extend (k : Chunk) (b : Nat) :
    (∃ k₀, Function.update c a (some k) b = some k₀) ↔ (∃ k₀, c b = some k₀) ∨ b = a := by
  by_cases hba : b = a
  · subst hba
    rw [Function.update_self]
    exact iff_of_true ⟨k, rfl⟩ (Or.inr rfl)
  · rw [Function.update_of_ne hba]
    exact ⟨Or.inl, fun hor => hor.resolve_right hba⟩

end X32PRos
