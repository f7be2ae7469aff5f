import Mathlib.Data.List.Range
import X32PRos.Heap.BigSteps

/-!
A chunk is made at the end of the heap: the page of a small bin, with all its
cells on the stack, or a big block, which is the caller's at once.
-/

namespace X32PRos

open Foundation SkipList

variable {σ : Type} {lo hi : Nat} {c : Chunks} {h h' : Heap σ} {a b x : Nat} {k : Chunk}

/-! ### One more chunk -/

/-- Only `next` words of big blocks may be written below the new chunk. -/
def OldWords (hi : Nat) (c : Chunks) (m m' : Memory) : Prop :=
  ∀ y < hi, (∀ b k, c b = some k → numBins < k.size → y < b ∨ b + 4 ≤ y) → m' y = m y

theorem Layout.load_old (hl : Layout lo hi c) {m m' : Memory} (hm : OldWords hi c m m')
    (hk : c a = some k) (hx : a + 4 ≤ x ∨ a ≤ x ∧ k.size < bigBin) (hend : x + 4 ≤ a + span k.size) :
    m'.load32 x = m.load32 x := by
  have hwithin := (hl.within hk).2
  refine Memory.load32_congr fun y hlo hhi => hm y (by omega) fun b k' hb hbig => ?_
  by_cases hba : b = a
  · subst hba
    rw [hk] at hb
    cases hb
    unfold bigBin at hx
    omega
  · have hspan := (hl.valid hb).span_ge.1
    rcases hl.apart hb hk hba with hle | hle <;> omega

/-- Which chunks have a free cell, with one more chunk. -/
theorem hasFree_extend (hnone : c hi = none) {P : Nat → Prop} (hP : P k.size → k.free = [])
    (b : Nat) :
    (∃ k', Function.update c hi (some k) b = some k' ∧ P k'.size ∧ k'.free ≠ []) ↔
      ∃ k', c b = some k' ∧ P k'.size ∧ k'.free ≠ [] := by
  by_cases hb : b = hi
  · subst hb
    rw [Function.update_self, hnone]
    constructor
    · rintro ⟨k', heq, hp, hne⟩
      cases heq
      exact absurd (hP hp) hne
    · rintro ⟨k', heq, -⟩
      cases heq
  · rw [Function.update_of_ne hb]

theorem HeapInv.extend (hinv : HeapInv lo hi c h) {hi' : Nat} (hvalid : ValidSize k.size)
    (hend : hi' = hi + span k.size) (hlt : hi' < 2 ^ 32) (hnodup : k.free.Nodup)
    (hcells : ∀ x ∈ k.free, IsCell hi k.size x) (hm : OldWords hi c h.mem h'.mem)
    (hat : ChunkAt h'.mem hi k) (hhead : ∀ b, b ≠ k.size → h'.binHead b = h.binHead b)
    (hbin : k.size < bigBin → ∃ l, BinList (Function.update c hi (some k)) h' k.size l)
    (hbig : numBins < k.size → k.free = []) (hbigHead : h'.bigHead = h.bigHead)
    (hlevel : h'.level = h.level) (hinserted : h'.inserted = h.inserted)
    (hnewest : h'.newestBig = h.newestBig ∨ h'.newestBig = hi ∧ numBins < k.size) :
    HeapInv lo hi' (Function.update c hi (some k)) h' := by
  obtain ⟨hc, l, hs, hl⟩ := hinv
  obtain ⟨hnone, hlayout⟩ := hc.layout.extend hvalid hend hlt hnodup hcells
  have hne : ∀ {b k'}, c b = some k' → b ≠ hi := by
    rintro b k' hb rfl
    rw [hnone] at hb
    cases hb
  have hspan : ∀ {b k'}, c b = some k' → 4096 ≤ span k'.size :=
    fun hb => (hc.layout.valid hb).span_ge.1
  have hword : ∀ {b k'} (o : Nat), c b = some k' → 4 ≤ o → o + 4 ≤ 44 →
      h'.mem.load32 (b + o) = h.mem.load32 (b + o) := by
    intro b k' o hb hlo hhi
    have hspan' := hspan hb
    exact hc.layout.load_old hm hb (Or.inl (by omega)) (by omega)
  refine ⟨⟨hlayout, ?_, ?_, ?_⟩, l, ?_, ?_⟩
  · intro b k' hb
    by_cases hbhi : b = hi
    · subst hbhi
      rw [Function.update_self] at hb
      cases hb
      exact hat
    · rw [Function.update_of_ne hbhi] at hb
      refine (hc.stored hb).congr (hword 4 hb (by decide) (by decide))
        (hword 8 hb (by decide) (by decide)) ?_
      intro y hy
      have hbounds := hc.layout.free_bounds hb hy
      have hheader := headerSize_ge k'.size
      exact hc.layout.load_old hm hb (Or.inl (by omega)) hbounds.2
  · intro b hb
    by_cases hbk : b = k.size
    · subst hbk
      exact hbin hb
    · obtain ⟨pages, hpages⟩ := hc.bins b hb
      refine ⟨pages, hpages.congr (hhead b hbk) ?_
        (hasFree_extend hnone (P := fun s => s = b) fun heq => absurd heq.symm hbk)⟩
      intro p hp
      obtain ⟨k', hk', hsize, -⟩ := (hpages.mem p).mp hp
      have hspan' := hspan hk'
      exact hc.layout.load_old hm hk' (Or.inr ⟨Nat.le_refl _, by rw [hsize]; exact hb⟩) (by omega)
  · rcases hnewest with heq | ⟨heq, hbig'⟩
    · rw [heq]
      apply hc.newest.imp id
      rintro ⟨k', hk', hbig'⟩
      exact ⟨k', by rw [Function.update_of_ne (hne hk')]; exact hk', hbig'⟩
    · refine Or.inr ⟨k, ?_, hbig'⟩
      rw [heq, Function.update_self]
  · refine hs.congr (fun i => by rw [hbigHead]) hlevel (fun b _ => by rw [hinserted]) ?_ ?_
    · intro b hb
      obtain ⟨k', hk', -⟩ := hl.big b hb
      exact hword 8 hk' (by decide) (by decide)
    · intro b hb i hi
      obtain ⟨k', hk', -⟩ := hl.big b hb
      have hi' : i ≤ 6 := hi
      have hload := hword (16 + 4 * i) hk' (by omega) (by omega)
      rwa [← Nat.add_assoc] at hload
  · intro b
    exact (hl b).trans (hasFree_extend hnone (P := fun s => numBins < s) hbig b).symm

/-! ### The page of a small bin -/

/-- Indices of `base[i << b]` as bytes. -/
theorem four_mul_shiftLeft (j b : Nat) : 4 * (j <<< b) = j * 2 ^ (b + 2) := by
  rw [Nat.shiftLeft_eq, Nat.pow_add, Nat.mul_comm, Nat.mul_assoc]

theorem linkCells_spec {base : Nat} (n : Nat) (m : Memory) (hword : base + n * 2 ^ (b + 2) < 2 ^ 32) :
    (∀ y, y < base ∨ base + n * 2 ^ (b + 2) ≤ y → Heap.linkCells base b n m y = m y) ∧
      ∀ j < n, (Heap.linkCells base b n m).load32 (base + j * 2 ^ (b + 2)) =
        base + (j + 1) * 2 ^ (b + 2) := by
  have hcell : 4 ≤ 2 ^ (b + 2) :=
    Nat.le_trans (by decide) (Nat.pow_le_pow_right (by decide) (Nat.le_add_left 2 b))
  induction n with
  | zero => exact ⟨fun _ _ => rfl, fun j hj => absurd hj (Nat.not_lt_zero j)⟩
  | succ n ih =>
      rw [Nat.succ_mul] at hword
      obtain ⟨hout, hlink⟩ := ih (by omega)
      simp only [Heap.linkCells, four_mul_shiftLeft]
      constructor
      · intro y hy
        rw [Nat.succ_mul] at hy
        rw [Memory.store32_of_outside (by omega)]
        exact hout y (by omega)
      · intro j hj
        rcases Nat.lt_succ_iff_lt_or_eq.mp hj with hlt | rfl
        · have hstep : (j + 1) * 2 ^ (b + 2) ≤ n * 2 ^ (b + 2) := Nat.mul_le_mul_right _ hlt
          rw [Nat.succ_mul] at hstep
          rw [Memory.load32_store32_of_apart (by omega)]
          exact hlink j hlt
        · apply Memory.load32_store32_self
          rw [Nat.succ_mul]
          exact hword

structure NewPage (b a : Nat) (h h' : Heap σ) : Prop where
  mem : ∀ y, y < a ∨ a + 4096 ≤ y → h'.mem y = h.mem y
  next : h'.mem.load32 a = h.binHead b
  head : h'.mem.load32 (a + 4) = cell a b 0
  size : h'.mem.load32 (a + 8) = b
  link : ∀ j, j + 1 < cellCount b → h'.mem.load32 (cell a b j) = cell a b (j + 1)
  last : h'.mem.load32 (cell a b (cellCount b - 1)) = 0
  binHead : h'.binHead = fun b' => if b' = b then a else h.binHead b'
  bigHead : h'.bigHead = h.bigHead
  level : h'.level = h.level
  inserted : h'.inserted = h.inserted
  newestBig : h'.newestBig = h.newestBig

theorem Heap.newBin_eq (E : Sbrk σ) {brk : σ} (hb : b < bigBin)
    (hcall : E.call pageSize h.brk = .ok (a, brk)) (hpage : pageSize ∣ a)
    (hword : a + 4096 ≤ 2 ^ 32) (hhead : h.binHead b < 2 ^ 32) :
    ∃ h', h.newBin E b = .ok (a, h') ∧ NewPage b a h h' ∧ h'.brk = brk := by
  obtain ⟨hheader, hspan⟩ := span_of_small hb
  have hb' : b < 10 := hb
  have hnot : ¬ numBins < b := by
    unfold numBins
    omega
  have hcellSize : cellSize b = 2 ^ (b + 2) := if_neg hnot
  have hcell : ∀ j, cell a b j = a + 12 + j * 2 ^ (b + 2) := by
    intro j
    rw [cell, hheader, hcellSize]
  have hcount : cellCount b = (4096 - 12) / 2 ^ (b + 2) := if_neg hnot
  have hfour := four_le_cellSize b
  rw [hcellSize] at hfour
  have hcountPos := cellCount_pos (Or.inl hb)
  have hlast := cell_end (show cellCount b - 1 < cellCount b by omega)
  rw [hheader, hcellSize, hspan] at hlast
  -- the stores of the function, one after the other
  let h₁ := ({ h with brk := brk }.set (a + 4) (a + 12)).listInsert b a
  have hbase : h₁.headOf a = a + 12 := by
    apply Eq.trans (Memory.load32_store32_of_apart (by omega))
    exact Memory.load32_store32_self (by omega)
  have hout₁ : ∀ y, y < a ∨ a + 8 ≤ y → h₁.mem y = h.mem y := by
    intro y hy
    apply Eq.trans (Memory.store32_of_outside (by omega))
    exact Memory.store32_of_outside (by omega)
  obtain ⟨hout₂, hlink₂⟩ := linkCells_spec (b := b) (cellCount b - 1) h₁.mem
    (show a + 12 + (cellCount b - 1) * 2 ^ (b + 2) < 2 ^ 32 by omega)
  let h₂ := { h₁ with mem := Heap.linkCells (a + 12) b (cellCount b - 1) h₁.mem }
  let h₃ := (h₂.set (a + 12 + (cellCount b - 1) * 2 ^ (b + 2)) 0).set (a + 8) b
  have hload₃ : ∀ x, x + 4 ≤ a + 8 ∨ a + 12 ≤ x →
      x + 4 ≤ a + 12 + (cellCount b - 1) * 2 ^ (b + 2) ∨
        a + 12 + (cellCount b - 1) * 2 ^ (b + 2) + 4 ≤ x →
      h₃.mem.load32 x = h₂.mem.load32 x := by
    intro x hlo hhi
    apply Eq.trans (Memory.load32_store32_of_apart (by omega))
    exact Memory.load32_store32_of_apart (by omega)
  have hlow₂ : ∀ x, x + 4 ≤ a + 12 → h₂.mem.load32 x = h₁.mem.load32 x := fun x hx =>
    Memory.load32_congr fun y hlo hhi => hout₂ y (by omega)
  refine ⟨h₃, ?_, ⟨?_, ?_, ?_, ?_, ?_, ?_, rfl, rfl, rfl, rfl, rfl⟩, rfl⟩
  · have havail : (pageSize - binHeaderSize) >>> (smallestBinLog + b) - 1 = cellCount b - 1 := by
      rw [hcount, Nat.shiftRight_eq_div_pow, Nat.add_comm]
      rfl
    have hmod : a % pageSize = 0 := Nat.mod_eq_zero_of_dvd hpage
    have hbase' : (({ h with brk := brk }.set (a + 4) (a + binHeaderSize)).listInsert b a).headOf a =
        a + 12 := hbase
    simp only [Heap.newBin, hcall, ok_bind, kassert_of hmod, havail, hbase', four_mul_shiftLeft]
    rfl
  · intro y hy
    have h₃y : h₃.mem y = h₂.mem y := by
      apply Eq.trans (Memory.store32_of_outside (by omega))
      exact Memory.store32_of_outside (by omega)
    exact h₃y.trans ((hout₂ y (by omega)).trans (hout₁ y (by omega)))
  · rw [hload₃ a (by omega) (by omega), hlow₂ a (by omega)]
    exact Memory.load32_store32_self hhead
  · rw [hload₃ (a + 4) (by omega) (by omega), hlow₂ (a + 4) (by omega), hcell, Nat.zero_mul]
    exact hbase
  · exact Memory.load32_store32_self (by omega)
  · intro j hj
    have hstep : (j + 1) * 2 ^ (b + 2) ≤ (cellCount b - 1) * 2 ^ (b + 2) :=
      Nat.mul_le_mul_right _ (by omega)
    have hjlink := hlink₂ j (by omega)
    rw [Nat.succ_mul] at hstep
    rw [hcell, hcell, hload₃ _ (by omega) (by omega)]
    exact hjlink
  · rw [hcell]
    apply Eq.trans (Memory.load32_store32_of_apart (by omega))
    exact Memory.load32_store32_self (by decide)

def pageCells (a b : Nat) : List Nat := (List.range' 0 (cellCount b)).map (cell a b)

theorem mem_pageCells : x ∈ pageCells a b ↔ IsCell a b x := by
  simp only [pageCells, IsCell, List.mem_map, List.mem_range'_1, Nat.zero_le, true_and,
    Nat.zero_add, eq_comm]

theorem nodup_pageCells (a b : Nat) : (pageCells a b).Nodup := by
  apply (List.nodup_range').map_on
  intro i _ j _ heq
  have hsize := four_le_cellSize b
  unfold cell at heq
  exact Nat.eq_of_mul_eq_mul_right (show 0 < cellSize b by omega) (by omega)

theorem pageCells_eq_cons (hb : b < bigBin) : ∃ fs, pageCells a b = cell a b 0 :: fs := by
  obtain ⟨n, hn⟩ := Nat.exists_eq_add_of_lt (cellCount_pos (Or.inl hb))
  refine ⟨(List.range' 1 n).map (cell a b), ?_⟩
  rw [pageCells, hn, Nat.zero_add, List.range'_succ, List.map_cons]

theorem NewPage.chunkAt (hnew : NewPage b a h h') (hb : b < bigBin) (ha : 0 < a) :
    ChunkAt h'.mem a ⟨b, pageCells a b⟩ := by
  have hpos : ∀ j, cell a b j ≠ 0 := by
    intro j
    unfold cell
    omega
  obtain ⟨n, hn⟩ := Nat.exists_eq_add_of_lt (cellCount_pos (Or.inl hb))
  rw [Nat.zero_add] at hn
  refine ⟨hnew.size, ?_⟩
  rw [pageCells, hn, List.range'_succ, List.map_cons]
  refine ⟨?_, Linked.of_range' ?_ ?_⟩
  · simp only [Heap.stackNext, hnew.head, pointer_of_ne (hpos 0)]
  · intro j _ hj
    have hlink := hnew.link j (by omega)
    simp only [Heap.stackNext, hlink, pointer_of_ne (hpos (j + 1))]
  · have hlast := hnew.last
    rw [hn, Nat.add_sub_cancel] at hlast
    simp only [Heap.stackNext, Nat.zero_add, hlast]
    rfl

/-- A page of a small bin, with all its cells on the stack. -/
theorem HeapInv.newBin (hinv : HeapInv lo hi c h) {E : Sbrk σ} {brk : σ} (hb : b < bigBin)
    (hnone : h.binHead b = 0) (hcall : E.call pageSize h.brk = .ok (hi, brk))
    (hfit : hi + 4096 < 2 ^ 32) :
    ∃ h', h.newBin E b = .ok (hi, h') ∧
      HeapInv lo (hi + 4096) (Function.update c hi (some ⟨b, pageCells hi b⟩)) h' ∧
        h'.binHead b = hi ∧ (∀ y < hi, h'.mem y = h.mem y) ∧ h'.brk = brk := by
  have hc := hinv.core
  have hpos : 0 < hi := Nat.lt_of_lt_of_le hc.layout.lo_pos hc.layout.le
  obtain ⟨pages, hpages⟩ := hc.bins b hb
  have hnil : pages = [] := hpages.linked.unique (pointer_eq_none.mpr hnone)
  subst hnil
  obtain ⟨h', hrun, hnew, hbrk⟩ := h.newBin_eq E hb hcall hc.layout.hi_page (Nat.le_of_lt hfit)
    (by rw [hnone]; decide)
  obtain ⟨-, hspan⟩ := span_of_small hb
  have hhead : h'.binHead b = hi := by
    rw [hnew.binHead]
    exact if_pos rfl
  have hnotbig : ¬ numBins < b := by
    unfold bigBin at hb
    omega
  obtain ⟨fs, hfs⟩ := pageCells_eq_cons (a := hi) hb
  refine ⟨h', hrun, hinv.extend (Or.inl hb) (by rw [hspan]) hfit (nodup_pageCells hi b)
    (fun x hx => mem_pageCells.mp hx) (fun y hy _ => hnew.mem y (Or.inl hy))
    (hnew.chunkAt hb hpos) ?_ ?_ (fun hbig => absurd hbig hnotbig) hnew.bigHead hnew.level
    hnew.inserted (Or.inl hnew.newestBig), hhead, fun y hy => hnew.mem y (Or.inl hy), hbrk⟩
  · intro b' hb'
    rw [hnew.binHead]
    exact if_neg hb'
  · intro _
    refine ⟨[hi], ⟨?_, ?_⟩, List.nodup_singleton hi, ?_⟩
    · simp only [Heap.pageNext, hhead, pointer_of_ne (Nat.ne_of_gt hpos)]
    · simp only [Linked, Heap.pageNext, Heap.nextOf, hnew.next, hnone]
      rfl
    · intro p
      by_cases hp : p = hi
      · subst hp
        rw [Function.update_self]
        exact iff_of_true List.mem_cons_self ⟨_, rfl, rfl, by simp [hfs]⟩
      · rw [Function.update_of_ne hp, ← hpages.mem p]
        simp [hp]

/-! ### A new big block -/

structure NewBlock (n a : Nat) (h h' : Heap σ) : Prop where
  mem : ∀ y, y < a ∨ a + 16 ≤ y → (h.newestBig ≠ 0 → y < h.newestBig ∨ h.newestBig + 4 ≤ y) →
    h'.mem y = h.mem y
  head : h'.mem.load32 (a + 4) = 0
  size : h'.mem.load32 (a + 8) = n
  binHead : h'.binHead = h.binHead
  bigHead : h'.bigHead = h.bigHead
  level : h'.level = h.level
  inserted : h'.inserted = h.inserted
  newestBig : h'.newestBig = a

def bigPages (size : Nat) : Nat := wordAdd (wordAdd size bigBinHeaderSize / pageSize) 1

theorem bigPages_le (size : Nat) : bigPages size ≤ 2 ^ 20 := by
  unfold bigPages wordAdd pageSize
  omega

/-- The size word of a new block, and its span. -/
theorem bigPages_size {pages : Nat} (hpos : 0 < pages) (hle : pages ≤ 2 ^ 20) :
    wordSub (wordMul pages pageSize) bigBinHeaderSize = 4096 * pages - 44 := by
  unfold wordSub wordMul pageSize bigBinHeaderSize
  omega

theorem Heap.newBig_eq (h : Heap σ) (E : Sbrk σ) {size : Nat} {brk : σ}
    (hcall : E.call (wordMul pageSize (bigPages size)) h.brk = .ok (a, brk)) (hpage : pageSize ∣ a)
    (hword : a + 4096 ≤ 2 ^ 32) (hnewest : h.newestBig + 4 ≤ a) (hpos : 0 < bigPages size) :
    ∃ h', h.newBig E size = .ok (a + 44, h') ∧ NewBlock (4096 * bigPages size - 44) a h h' ∧
      h'.brk = brk := by
  have hle := bigPages_le size
  have hn : wordSub (wordMul (bigPages size) pageSize) bigBinHeaderSize =
      4096 * bigPages size - 44 := bigPages_size hpos hle
  let n := 4096 * bigPages size - 44
  -- the stores of the function, one after the other
  let h₁ := { h with brk := brk }.set (a + 8) n
  have hassert : h₁.assertPages a
      "(bin_header->size + sizeof(klmalloc_big_bin_header)) % PAGE_SIZE == 0" 633 = .ok () := by
    have hsize : h₁.sizeOf a = n := Memory.load32_store32_self (by omega)
    refine kassert_of ?_ _ _ _
    rw [hsize]
    unfold wordAdd pageSize bigBinHeaderSize
    omega
  let h₂ := h₁.set (a + 12) h.newestBig
  have hprev : h₂.prevOf a = h.newestBig := Memory.load32_store32_self (by omega)
  let h₃ := if h.newestBig ≠ 0 then h₂.set h.newestBig a else h₂
  have hmem₃ : ∀ y, (h.newestBig ≠ 0 → y < h.newestBig ∨ h.newestBig + 4 ≤ y) →
      h₃.mem y = h₂.mem y := by
    intro y hy
    by_cases hne : h.newestBig ≠ 0
    · simp only [h₃, if_pos hne]
      exact Memory.store32_of_outside (hy hne)
    · simp only [h₃, if_neg hne]
  have hrest : h₃.binHead = h.binHead ∧ h₃.bigHead = h.bigHead ∧ h₃.level = h.level ∧
      h₃.inserted = h.inserted ∧ h₃.brk = brk := by
    simp only [h₃]
    split <;> exact ⟨rfl, rfl, rfl, rfl, rfl⟩
  let h₅ := ({ h₃ with newestBig := a }.set a 0).set (a + 4) 0
  have hmem₅ : ∀ y, y < a ∨ a + 8 ≤ y → h₅.mem y = h₃.mem y := by
    intro y hy
    apply Eq.trans (Memory.store32_of_outside (by omega))
    exact Memory.store32_of_outside (by omega)
  refine ⟨h₅, ?_, ⟨?_, Memory.load32_store32_self (by decide), ?_, hrest.1, hrest.2.1, hrest.2.2.1,
    hrest.2.2.2.1, rfl⟩, hrest.2.2.2.2⟩
  · have hmod : a % pageSize = 0 := Nat.mod_eq_zero_of_dvd hpage
    have hcall' : E.call (wordMul pageSize (wordAdd (wordAdd size bigBinHeaderSize / pageSize) 1))
        h.brk = .ok (a, brk) := hcall
    have hn' : wordSub (wordMul (wordAdd (wordAdd size bigBinHeaderSize / pageSize) 1) pageSize)
        bigBinHeaderSize = n := hn
    have hprev' : (h₁.set (a + 12) h₁.newestBig).prevOf a = h.newestBig := hprev
    simp only [Heap.newBig, hcall', ok_bind, kassert_of hmod, hn', h₁] at hassert hprev' ⊢
    simp only [hassert, hprev', ok_bind]
    rfl
  · intro y hya hynew
    rw [hmem₅ y (by omega), hmem₃ y hynew]
    apply Eq.trans (Memory.store32_of_outside (by omega))
    exact Memory.store32_of_outside (by omega)
  · have hload : h₅.mem.load32 (a + 8) = h₁.mem.load32 (a + 8) := by
      refine Memory.load32_congr fun y hlo hhi => ?_
      rw [hmem₅ y (by omega), hmem₃ y (fun _ => by omega)]
      exact Memory.store32_of_outside (by omega)
    exact hload.trans (Memory.load32_store32_self (by omega))

theorem HeapCore.newest_le (hc : HeapCore lo hi c h) : h.newestBig + 4 ≤ hi := by
  have hpage := hc.layout.hi_page
  have hpos := Nat.lt_of_lt_of_le hc.layout.lo_pos hc.layout.le
  unfold pageSize at hpage
  rcases hc.newest with hzero | ⟨k, hk, -⟩
  · omega
  · have hspan := (hc.layout.valid hk).span_ge.1
    have hwithin := hc.layout.within hk
    omega

/-- A big block that nobody else has. -/
theorem HeapInv.newBig (hinv : HeapInv lo hi c h) {E : Sbrk σ} {size : Nat} {brk : σ}
    (hcall : E.call (wordMul pageSize (bigPages size)) h.brk = .ok (hi, brk))
    (hpos : 0 < bigPages size) (hfit : hi + 4096 * bigPages size < 2 ^ 32) :
    ∃ h', h.newBig E size = .ok (hi + 44, h') ∧
      HeapInv lo (hi + 4096 * bigPages size)
        (Function.update c hi (some ⟨4096 * bigPages size - 44, []⟩)) h' ∧
          (∀ y < hi, ¬ HeaderByte c y → h'.mem y = h.mem y) ∧ h'.brk = brk := by
  have hc := hinv.core
  obtain ⟨h', hrun, hnew, hbrk⟩ := h.newBig_eq E hcall hc.layout.hi_page (by omega) hc.newest_le hpos
  have hbig : numBins < 4096 * bigPages size - 44 := by
    unfold numBins
    omega
  have hspan : span (4096 * bigPages size - 44) = 4096 * bigPages size := by
    rw [span, if_pos hbig]
    unfold bigBinHeaderSize
    omega
  have hvalid : ValidSize (4096 * bigPages size - 44) := by
    refine Or.inr ⟨hbig, ?_, ?_⟩
    · rw [show 4096 * bigPages size - 44 + bigBinHeaderSize = 4096 * bigPages size by
        unfold bigBinHeaderSize
        omega]
      exact Nat.dvd_mul_right _ _
    · unfold bigBinHeaderSize
      omega
  -- the newest block is one of the heap, if there is one
  have hmem : ∀ y < hi, (∀ b k, c b = some k → numBins < k.size → y < b ∨ b + 4 ≤ y) →
      h'.mem y = h.mem y := by
    intro y hy hout
    refine hnew.mem y (Or.inl hy) fun hne => ?_
    obtain ⟨k', hk', hbig'⟩ := hc.newest.resolve_left hne
    exact hout _ k' hk' hbig'
  refine ⟨h', hrun, hinv.extend hvalid (by rw [hspan]) hfit List.nodup_nil (by simp) hmem
    ⟨hnew.size, ?_⟩ (fun _ _ => by rw [hnew.binHead]) ?_ (fun _ => rfl) hnew.bigHead hnew.level
    hnew.inserted (Or.inr ⟨hnew.newestBig, hbig⟩), ?_, hbrk⟩
  · exact pointer_eq_none.mpr hnew.head
  · intro hsmall
    change 4096 * bigPages size - 44 < 10 at hsmall
    omega
  · intro y hy hnot
    refine hmem y hy fun b k' hb hbig' => ?_
    by_contra hin
    refine hnot ⟨b, k', hb, ?_, ?_⟩
    · omega
    · rw [headerSize_of_big hbig']
      omega

end X32PRos
