import X32PRos.Heap.Grants

/-!
What `klmalloc` does to the heap: the block it returns was free or is new, and
nothing but headers changes. When the block has the bytes that were asked for.
-/

namespace X32PRos

open Foundation SkipList

variable {σ : Type} {lo hi : Nat} {c : Chunks} {h : Heap σ} {E : Sbrk σ} {size a : Nat}

/-! ### The four ways -/

namespace Heap

theorem klmalloc_page (hne : size ≠ 0) (hb : klmallocBinSize size < bigBin)
    (hhead : h.binHead (klmallocBinSize size) ≠ 0) :
    h.klmalloc E size = (do
      let (item, h') ← h.stackPop (h.binHead (klmallocBinSize size))
      .ok (item, if h'.stackEmpty (h.binHead (klmallocBinSize size)) then
        h'.listDecouple (klmallocBinSize size) (h.binHead (klmallocBinSize size)) else h')) := by
  simp only [klmalloc, if_neg hne, if_pos hb, if_neg hhead, ok_bind]

theorem klmalloc_newPage (hne : size ≠ 0) (hb : klmallocBinSize size < bigBin)
    (hhead : h.binHead (klmallocBinSize size) = 0) :
    h.klmalloc E size = (do
      let (a, h) ← h.newBin E (klmallocBinSize size)
      let (item, h) ← h.stackPop a
      .ok (item, if h.stackEmpty a then h.listDecouple (klmallocBinSize size) a else h)) := by
  simp only [klmalloc, if_neg hne, if_pos hb, if_pos hhead]

theorem klmalloc_found (hne : size ≠ 0) (hb : ¬ klmallocBinSize size < bigBin)
    (hfind : h.skipListFindbest size = .ok (some a)) :
    h.klmalloc E size = (do
      let h ← h.skipListDelete a
      h.stackPop a) := by
  simp only [klmalloc, if_neg hne, if_neg hb, hfind, ok_bind]

theorem klmalloc_newBlock (hne : size ≠ 0) (hb : ¬ klmallocBinSize size < bigBin)
    (hfind : h.skipListFindbest size = .ok none) : h.klmalloc E size = h.newBig E size := by
  simp only [klmalloc, if_neg hne, if_neg hb, hfind, ok_bind]

/-- Without its page a call ends where `sbrk` does. -/
theorem klmalloc_newPage_halts (hne : size ≠ 0) (hb : klmallocBinSize size < bigBin)
    (hhead : h.binHead (klmallocBinSize size) = 0) {e : Fault}
    (hcall : E.call pageSize h.brk = .error e) : h.klmalloc E size = .error e := by
  rw [klmalloc_newPage hne hb hhead]
  simp only [newBin, hcall, error_bind]

theorem klmalloc_newBlock_halts (hne : size ≠ 0) (hb : ¬ klmallocBinSize size < bigBin)
    (hfind : h.skipListFindbest size = .ok none) {e : Fault}
    (hcall : E.call (wordMul pageSize (bigPages size)) h.brk = .error e) :
    h.klmalloc E size = .error e := by
  rw [klmalloc_newBlock hne hb hfind]
  unfold bigPages at hcall
  simp only [newBig, hcall, error_bind]

def OnChain (h : Heap σ) (a : Nat) : Prop := ∃ l, Linked (h.skipNext 0) none l ∧ a ∈ l

end Heap

theorem SkipAt.linked_zero {l : List Nat} (hs : SkipAt h l) : Linked (h.skipNext 0) none l := by
  have hlink := hs.represents.linked 0 (Nat.zero_le _)
  rwa [atLevel_zero] at hlink

theorem SkipAt.onChain_iff {l : List Nat} (hs : SkipAt h l) : h.OnChain a ↔ a ∈ l := by
  constructor
  · rintro ⟨l', hlink, ha⟩
    rwa [hlink.unique hs.linked_zero] at ha
  · intro ha
    exact ⟨l, hs.linked_zero, ha⟩

/-- The heap has, or can get, the bytes that a call asks for. -/
structure MallocFits (E : Sbrk σ) (size : Nat) (h : Heap σ) : Prop where
  page : size ≠ 0 → klmallocBinSize size < bigBin → h.binHead (klmallocBinSize size) = 0 →
    E.heapEnd h.brk + pageSize < 2 ^ 32
  reuse : bigBin ≤ klmallocBinSize size → (∃ a, h.OnChain a ∧ signed size ≤ h.sizeKey a) →
    2 ^ 31 ≤ size → ∃ a, h.OnChain a ∧ size ≤ h.sizeOf a
  grow : bigBin ≤ klmallocBinSize size → (∀ a, h.OnChain a → h.sizeKey a < signed size) →
    E.heapEnd h.brk + ((size + bigBinHeaderSize) / pageSize + 1) * pageSize < 2 ^ 32

/-- Requests below 2 GB fit, if there is room for them below 4 GB. -/
theorem MallocFits.of_room (hsize : size < 2 ^ 31)
    (hroom : E.heapEnd h.brk + size + 0x2000 < 2 ^ 32) : MallocFits E size h := by
  refine ⟨fun _ _ _ => ?_, fun _ _ hbig => absurd hsize (Nat.not_lt.mpr hbig), fun _ _ => ?_⟩
  · unfold pageSize
    omega
  · unfold bigBinHeaderSize pageSize
    omega

/-- Cells of `n` bytes are what `klmalloc` gives for `size`. -/
structure Suits (size n : Nat) : Prop where
  le : size ≤ n
  small : klmallocBinSize size < bigBin → n = 2 ^ (klmallocBinSize size + 2)

/-- What a call of `klmalloc` that returns a cell of `n` bytes at `p` has done. -/
structure Allocated (lo hi hi' : Nat) (c c' : Chunks) (p n : Nat) (h h' : Heap σ) : Prop where
  inv : HeapInv lo hi' c' h'
  fresh : ∀ m, ¬ Busy c p m
  busy : ∀ y m, Busy c' y m ↔ Busy c y m ∨ y = p ∧ m = n
  chunks : hi' = hi ∧ (∀ b, (∃ k, c' b = some k) ↔ ∃ k, c b = some k) ∨
    hi < hi' ∧ ∀ b, (∃ k, c' b = some k) ↔ (∃ k, c b = some k) ∨ b = hi
  frame : ∀ y < hi, ¬ HeaderByte c y → h'.mem y = h.mem y

theorem Allocated.busy_self {hi' p n : Nat} {c' : Chunks} {h' : Heap σ}
    (ha : Allocated lo hi hi' c c' p n h h') : Busy c' p n :=
  (ha.busy p n).mpr (Or.inr ⟨rfl, rfl⟩)

theorem bigPages_pos (size : Nat) : 0 < bigPages size := by
  unfold bigPages wordAdd pageSize
  omega

theorem bigPages_of_lt (hfit : hi + ((size + bigBinHeaderSize) / pageSize + 1) * pageSize < 2 ^ 32) :
    bigPages size = (size + 44) / 4096 + 1 := by
  unfold bigBinHeaderSize pageSize at hfit
  unfold bigPages wordAdd bigBinHeaderSize pageSize
  omega

/-- A block that the search returns is large enough. -/
theorem SkipAt.size_le {p q : List Nat} (hs : SkipAt h (p ++ a :: q))
    (hcut : CutAt h size p (a :: q)) (hword : size < 2 ^ 32)
    (hreuse : 2 ^ 31 ≤ size → ∃ b, h.OnChain b ∧ size ≤ h.sizeOf b) : size ≤ h.sizeOf a := by
  have hkey : signed size ≤ signed (h.sizeOf a) := hcut.above a List.mem_cons_self
  have hlt := Memory.load32_lt h.mem (a + 8)
  change h.sizeOf a < 2 ^ 32 at hlt
  by_cases hbig : 2 ^ 31 ≤ size
  · obtain ⟨b, hb, hle⟩ := hreuse hbig
    have hltb := Memory.load32_lt h.mem (b + 8)
    change h.sizeOf b < 2 ^ 32 at hltb
    -- the block that is large enough is not in front of the one found
    have hab : signed (h.sizeOf a) ≤ signed (h.sizeOf b) := by
      cases List.mem_append.mp (hs.onChain_iff.mp hb) with
      | inl hmem =>
          have hlow : signed (h.sizeOf b) < signed size := hcut.below b hmem
          rw [signed_of_le hbig, signed_of_le (Nat.le_trans hbig hle)] at hlow
          omega
      | inr hmem =>
          rcases List.mem_cons.mp hmem with rfl | hmem
          · exact Int.le_refl _
          · have hsorted := (List.pairwise_append.mp hs.represents.sorted).2.1
            exact (List.pairwise_cons.mp hsorted).1 b hmem
    rw [signed_of_le (Nat.le_trans hbig hle)] at hab
    rw [signed_of_le hbig] at hkey
    unfold signed at hab hkey
    split at hab <;> omega
  · rw [signed_of_lt (by omega)] at hkey
    unfold signed at hkey
    split at hkey <;> omega

/-! ### Calls that return -/

/-- From a page that has a free cell. -/
theorem HeapInv.klmalloc_page (hinv : HeapInv lo hi c h) (hne : size ≠ 0)
    (hword : size < 2 ^ 32) (hb : klmallocBinSize size < bigBin)
    (hhead : h.binHead (klmallocBinSize size) ≠ 0) :
    ∃ p n h' c', h.klmalloc E size = .ok (p, h') ∧ Suits size n ∧
      Allocated lo hi hi c c' p n h h' ∧ h'.brk = h.brk := by
  have hc := hinv.core
  have hsize := klmallocBinSize_small (Nat.pos_of_ne_zero hne)
    ((klmallocBinSize_lt_iff (Nat.pos_of_ne_zero hne) hword).mp hb)
  obtain ⟨pages, hpages⟩ := hc.bins _ hb
  obtain ⟨pages', rfl⟩ := hpages.eq_cons rfl hhead
  obtain ⟨k, hk, hksize, hfree⟩ := (hpages.mem _).mp List.mem_cons_self
  obtain ⟨x, fs, hcons⟩ := List.exists_cons_of_ne_nil hfree
  rw [← hksize] at hb
  obtain ⟨h', hrun, hinv', hmem, hbrk⟩ := hinv.takeSmall hk hb hcons (by rw [hksize])
  obtain ⟨hfresh, hbusy⟩ := Busy.pop hc.layout hk hcons
  obtain ⟨hheader, -⟩ := span_of_small hb
  have hcell : cellSize k.size = 2 ^ (klmallocBinSize size + 2) := by
    rw [← hksize]
    exact if_neg (by unfold bigBin at hb; omega)
  refine ⟨x, _, h', _, ?_, ?_, ⟨hinv', hfresh, hbusy, Or.inl ⟨rfl, exists_chunk_update hk _⟩, ?_⟩,
    hbrk⟩
  · rw [hksize] at hrun hb
    rw [Heap.klmalloc_page hne hb hhead]
    exact hrun
  · rw [hcell]
    exact ⟨hsize.2, fun _ => rfl⟩
  · intro y _ hy
    apply hmem y
    by_contra hin
    exact hy ⟨_, k, hk, by omega⟩

/-- From a new page. -/
theorem HeapInv.klmalloc_newPage (hinv : HeapInv lo hi c h) (hne : size ≠ 0)
    (hword : size < 2 ^ 32) (hb : klmallocBinSize size < bigBin)
    (hhead : h.binHead (klmallocBinSize size) = 0) {brk : σ}
    (hcall : E.call pageSize h.brk = .ok (hi, brk)) (hfit : hi + 4096 < 2 ^ 32) :
    ∃ p n h' c', h.klmalloc E size = .ok (p, h') ∧ Suits size n ∧
      Allocated lo hi (hi + 4096) c c' p n h h' ∧ h'.brk = brk := by
  have hsize := klmallocBinSize_small (Nat.pos_of_ne_zero hne)
    ((klmallocBinSize_lt_iff (Nat.pos_of_ne_zero hne) hword).mp hb)
  obtain ⟨h₁, hrun₁, hinv₁, hhead₁, hmem₁, hbrk₁⟩ := hinv.newBin hb hhead hcall hfit
  obtain ⟨fs, hcons⟩ := pageCells_eq_cons (a := hi) hb
  let page : Chunk := ⟨klmallocBinSize size, pageCells hi (klmallocBinSize size)⟩
  have hk : Function.update c hi (some page) hi = some page := Function.update_self ..
  obtain ⟨h', hrun, hinv', hmem, hbrk⟩ := hinv₁.takeSmall hk hb hcons hhead₁
  obtain ⟨-, hbusy⟩ := Busy.pop hinv₁.core.layout hk hcons
  obtain ⟨-, hspan⟩ := span_of_small hb
  obtain ⟨hnone, -⟩ := hinv.core.layout.extend (k := ⟨klmallocBinSize size, []⟩) (Or.inl hb) rfl
    (by rw [hspan]; exact hfit) List.nodup_nil (by simp)
  have hcell : cellSize (klmallocBinSize size) = 2 ^ (klmallocBinSize size + 2) :=
    if_neg (by unfold bigBin at hb; omega)
  have hnew : ∀ y m, Busy (Function.update c hi (some page)) y m ↔ Busy c y m := by
    intro y m
    rw [Busy.extend hnone]
    apply or_iff_left
    rintro ⟨hy, hnot, -⟩
    exact hnot (mem_pageCells.mpr hy)
  refine ⟨cell hi (klmallocBinSize size) 0, 2 ^ (klmallocBinSize size + 2), h', _, ?_,
    ⟨hsize.2, fun _ => rfl⟩, ⟨hinv', ?_, ?_, Or.inr ⟨by omega, ?_⟩, ?_⟩, hbrk.trans hbrk₁⟩
  · rw [Heap.klmalloc_newPage hne hb hhead, hrun₁]
    exact hrun
  · intro n hn
    have hwithin := (hn.within hinv.core.layout).2
    have hheader := headerSize_ge (klmallocBinSize size)
    unfold cell at hwithin
    omega
  · intro y m
    rw [hbusy, hnew, hcell]
  · intro b
    rw [exists_chunk_update hk, exists_chunk_extend]
  · intro y hlt hy
    rw [hmem y (Or.inl hlt), hmem₁ y hlt]

/-- A free big block. -/
theorem HeapInv.klmalloc_found (hinv : HeapInv lo hi c h) (hne : size ≠ 0)
    (hb : ¬ klmallocBinSize size < bigBin) {p q : List Nat} (hs : SkipAt h (p ++ a :: q))
    (hfree : FreeBig c (p ++ a :: q)) (hcut : CutAt h size p (a :: q)) :
    ∃ h' c', h.klmalloc E size = .ok (a + 44, h') ∧
      Allocated lo hi hi c c' (a + 44) (h.sizeOf a) h h' ∧ h'.brk = h.brk := by
  have hc := hinv.core
  obtain ⟨k, hk, hbig, hne'⟩ := (hfree a).mp (List.mem_append_right p List.mem_cons_self)
  have hcons := hc.layout.free_of_big hk hbig hne'
  obtain ⟨h', hrun, hinv', hmem, hbrk⟩ := hc.takeBig hs hfree hcut hk
  obtain ⟨hfresh, hbusy⟩ := Busy.pop hc.layout hk hcons
  have hsize : h.sizeOf a = cellSize k.size := (hc.stored hk).size.trans (if_pos hbig).symm
  refine ⟨h', _, ?_, ⟨hinv', hfresh, ?_, Or.inl ⟨rfl, exists_chunk_update hk _⟩,
    fun y _ hy => hmem y hy⟩, hbrk⟩
  · rw [Heap.klmalloc_found hne hb (hs.findbest_eq hcut (hc.blockAt_of_mem hfree))]
    exact hrun
  · rw [hsize]
    exact hbusy

/-- A new big block. -/
theorem HeapInv.klmalloc_newBlock (hinv : HeapInv lo hi c h) (hne : size ≠ 0)
    (hb : ¬ klmallocBinSize size < bigBin) (hfind : h.skipListFindbest size = .ok none) {brk : σ}
    (hcall : E.call (wordMul pageSize (bigPages size)) h.brk = .ok (hi, brk))
    (hfit : hi + 4096 * bigPages size < 2 ^ 32) :
    ∃ h' c', h.klmalloc E size = .ok (hi + 44, h') ∧
      Allocated lo hi (hi + 4096 * bigPages size) c c' (hi + 44) (4096 * bigPages size - 44) h h' ∧
        h'.brk = brk := by
  have hpos := bigPages_pos size
  obtain ⟨h', hrun, hinv', hmem, hbrk⟩ := hinv.newBig hcall hpos hfit
  have hbig : numBins < 4096 * bigPages size - 44 := by
    unfold numBins
    omega
  have hnone : c hi = none := by
    cases hk : c hi with
    | none => rfl
    | some k =>
        have hspan := (hinv.core.layout.valid hk).span_ge.1
        have hwithin := (hinv.core.layout.within hk).2
        omega
  refine ⟨h', _, ?_, ⟨hinv', ?_, ?_, Or.inr ⟨by omega, exists_chunk_extend _⟩, hmem⟩, hbrk⟩
  · rw [Heap.klmalloc_newBlock hne hb hfind]
    exact hrun
  · intro m hm
    have hwithin := (hm.within hinv.core.layout).2
    omega
  · intro y m
    have hcell : cellSize (4096 * bigPages size - 44) = 4096 * bigPages size - 44 := if_pos hbig
    rw [Busy.extend hnone, isCell_of_big hbig, hcell]
    simp

/-- With `sbrk` as it is: a call that fits gets its bytes, or the machine stops in `sbrk`. -/
theorem HeapInv.klmalloc_spec (hinv : HeapInv lo (E.heapEnd h.brk) c h) (hne : size ≠ 0)
    (hword : size < 2 ^ 32) (hfits : MallocFits E size h) :
    (∃ increment e, E.call increment h.brk = .error e ∧ h.klmalloc E size = .error e) ∨
      ∃ p n h' c', h.klmalloc E size = .ok (p, h') ∧ Suits size n ∧
        Allocated lo (E.heapEnd h.brk) (E.heapEnd h'.brk) c c' p n h h' := by
  by_cases hb : klmallocBinSize size < bigBin
  · by_cases hhead : h.binHead (klmallocBinSize size) = 0
    · have hfit : E.heapEnd h.brk + 4096 < 2 ^ 32 := hfits.page hne hb hhead
      cases hcall : E.call pageSize h.brk with
      | error e => exact Or.inl ⟨pageSize, e, hcall, Heap.klmalloc_newPage_halts hne hb hhead hcall⟩
      | ok r =>
          obtain ⟨address, brk⟩ := r
          obtain ⟨rfl, hend⟩ := E.returns hcall
          have hend' : E.heapEnd brk = E.heapEnd h.brk + 4096 := hend.trans (wordAdd_of_lt hfit)
          obtain ⟨p, n, h', c', hrun, hle, halloc, hbrk⟩ :=
            hinv.klmalloc_newPage hne hword hb hhead hcall hfit
          refine Or.inr ⟨p, n, h', c', hrun, hle, ?_⟩
          rw [hbrk, hend']
          exact halloc
    · obtain ⟨p, n, h', c', hrun, hle, halloc, hbrk⟩ := hinv.klmalloc_page (E := E) hne hword hb hhead
      refine Or.inr ⟨p, n, h', c', hrun, hle, ?_⟩
      rw [hbrk]
      exact halloc
  · have hbig : bigBin ≤ klmallocBinSize size := Nat.le_of_not_lt hb
    obtain ⟨l, hs, hfree⟩ := hinv.skip
    obtain ⟨p, q, rfl, hcut⟩ := hs.exists_cut size
    cases q with
    | cons a q =>
        obtain ⟨h', c', hrun, halloc, hbrk⟩ := hinv.klmalloc_found (E := E) hne hb hs hfree hcut
        have hreuse := hfits.reuse hbig ⟨a, hs.onChain_iff.mpr (by simp),
          hcut.above a List.mem_cons_self⟩
        refine Or.inr ⟨a + 44, h.sizeOf a, h', c', hrun,
          ⟨hs.size_le hcut hword hreuse, fun hsmall => absurd hsmall hb⟩, ?_⟩
        rw [hbrk]
        exact halloc
    | nil =>
        have hfind := hs.findbest_eq hcut (hinv.core.blockAt_of_mem hfree)
        have hfit := hfits.grow hbig fun a ha => by
          have hmem := hs.onChain_iff.mp ha
          rw [List.append_nil] at hmem
          exact hcut.below a hmem
        have hpages := bigPages_of_lt hfit
        change _ + ((size + 44) / 4096 + 1) * 4096 < _ at hfit
        have hmul : wordMul pageSize (bigPages size) = 4096 * bigPages size := by
          unfold wordMul pageSize
          omega
        cases hcall : E.call (wordMul pageSize (bigPages size)) h.brk with
        | error e => exact Or.inl ⟨_, e, hcall, Heap.klmalloc_newBlock_halts hne hb hfind hcall⟩
        | ok r =>
            obtain ⟨address, brk⟩ := r
            obtain ⟨rfl, hend⟩ := E.returns hcall
            rw [hmul, wordAdd_of_lt (by omega)] at hend
            obtain ⟨h', c', hrun, halloc, hbrk⟩ :=
              hinv.klmalloc_newBlock hne hb hfind hcall (by omega)
            have hle : size ≤ 4096 * bigPages size - 44 := by
              rw [hpages]
              omega
            refine Or.inr ⟨_, _, h', c', hrun, ⟨hle, fun hsmall => absurd hsmall hb⟩, ?_⟩
            rw [hbrk, hend]
            exact halloc

/-- A call that returns has taken a cell. -/
theorem HeapInv.klmalloc_ok (hinv : HeapInv lo (E.heapEnd h.brk) c h) (hne : size ≠ 0)
    (hword : size < 2 ^ 32) (hfits : MallocFits E size h) {p : Nat} {h' : Heap σ}
    (hrun : h.klmalloc E size = .ok (p, h')) :
    ∃ n c', Suits size n ∧
      Allocated lo (E.heapEnd h.brk) (E.heapEnd h'.brk) c c' p n h h' := by
  cases hinv.klmalloc_spec hne hword hfits with
  | inl hhalts =>
      obtain ⟨_, e, -, herr⟩ := hhalts
      rw [herr] at hrun
      cases hrun
  | inr hreturns =>
      obtain ⟨p', n, h'', c', hok, hsuits, ha⟩ := hreturns
      rw [hok] at hrun
      cases hrun
      exact ⟨n, c', hsuits, ha⟩

/-! ### Calls that do not fit -/

theorem Layout.hi_le (hl : Layout lo hi c) : hi + 4096 ≤ 2 ^ 32 := by
  have hpage := hl.hi_page
  have hlt := hl.hi_lt
  unfold pageSize at hpage
  omega

/-- Wherever `sbrk` has put the page. -/
theorem HeapInv.newPage_returns (hinv : HeapInv lo hi c h) (hne : size ≠ 0)
    (hb : klmallocBinSize size < bigBin) (hhead : h.binHead (klmallocBinSize size) = 0) {brk : σ}
    (hcall : E.call pageSize h.brk = .ok (hi, brk)) :
    ∃ p h', h.klmalloc E size = .ok (p, h') ∧ h'.brk = brk := by
  have hl := hinv.core.layout
  have hpos := Nat.lt_of_lt_of_le hl.lo_pos hl.le
  obtain ⟨h₁, hrun, hnew, hbrk⟩ := h.newBin_eq E hb hcall hl.hi_page hl.hi_le
    (by rw [hhead]; decide)
  have hcell : h₁.headOf hi ≠ 0 := by
    rw [show h₁.headOf hi = cell hi (klmallocBinSize size) 0 from hnew.head]
    unfold cell
    omega
  rw [Heap.klmalloc_newPage hne hb hhead, hrun]
  simp only [Heap.stackPop, kassert_of (Nat.ne_of_gt hpos), kassert_of hcell, ok_bind]
  refine ⟨_, _, rfl, ?_⟩
  split
  · exact hbrk
  · exact hbrk

theorem HeapInv.newBlock_returns (hinv : HeapInv lo hi c h) (hne : size ≠ 0)
    (hb : ¬ klmallocBinSize size < bigBin) (hfind : h.skipListFindbest size = .ok none) {brk : σ}
    (hcall : E.call (wordMul pageSize (bigPages size)) h.brk = .ok (hi, brk)) :
    ∃ h', h.klmalloc E size = .ok (hi + 44, h') ∧ h'.brk = brk ∧
      h'.sizeOf hi = 4096 * bigPages size - 44 := by
  have hl := hinv.core.layout
  obtain ⟨h', hrun, hnew, hbrk⟩ := h.newBig_eq E hcall hl.hi_page hl.hi_le hinv.core.newest_le
    (bigPages_pos size)
  rw [Heap.klmalloc_newBlock hne hb hfind]
  exact ⟨h', hrun, hbrk, hnew.size⟩

theorem dvd_wordMul_pageSize (pages : Nat) : pageSize ∣ wordMul pageSize pages := by
  unfold wordMul pageSize
  omega

/-- Nothing but `sbrk` stops the machine, and what it is asked for are pages. -/
theorem HeapInv.klmalloc_halts (hinv : HeapInv lo (E.heapEnd h.brk) c h) (hword : size < 2 ^ 32)
    {e : Fault} (herr : h.klmalloc E size = .error e) :
    ∃ increment, pageSize ∣ increment ∧ E.call increment h.brk = .error e := by
  by_cases hne : size = 0
  · subst hne
    cases herr
  by_cases hb : klmallocBinSize size < bigBin
  · by_cases hhead : h.binHead (klmallocBinSize size) = 0
    · cases hcall : E.call pageSize h.brk with
      | error e' =>
          rw [Heap.klmalloc_newPage_halts hne hb hhead hcall] at herr
          cases herr
          exact ⟨_, Nat.dvd_refl pageSize, hcall⟩
      | ok r =>
          obtain ⟨address, brk⟩ := r
          obtain ⟨rfl, -⟩ := E.returns hcall
          obtain ⟨p, h', hrun, -⟩ := hinv.newPage_returns hne hb hhead hcall
          rw [hrun] at herr
          cases herr
    · obtain ⟨p, n, h', c', hrun, -⟩ := hinv.klmalloc_page (E := E) hne hword hb hhead
      rw [hrun] at herr
      cases herr
  · obtain ⟨l, hs, hfree⟩ := hinv.skip
    obtain ⟨p, q, rfl, hcut⟩ := hs.exists_cut size
    cases q with
    | cons a q =>
        obtain ⟨h', c', hrun, -⟩ := hinv.klmalloc_found (E := E) hne hb hs hfree hcut
        rw [hrun] at herr
        cases herr
    | nil =>
        have hfind := hs.findbest_eq hcut (hinv.core.blockAt_of_mem hfree)
        cases hcall : E.call (wordMul pageSize (bigPages size)) h.brk with
        | error e' =>
            rw [Heap.klmalloc_newBlock_halts hne hb hfind hcall] at herr
            cases herr
            exact ⟨_, dvd_wordMul_pageSize _, hcall⟩
        | ok r =>
            obtain ⟨address, brk⟩ := r
            obtain ⟨rfl, -⟩ := E.returns hcall
            obtain ⟨h', hrun, -⟩ := hinv.newBlock_returns hne hb hfind hcall
            rw [hrun] at herr
            cases herr

/-! ### How large a block is -/

def Heap.capacity (h : Heap σ) (p : Nat) : Nat := cellSize (h.sizeOf (pageBase p))

/-- The block at `p` has `size` bytes, and they are memory that `sbrk` returned. -/
def HasBytes (E : Sbrk σ) (h : Heap σ) (p size : Nat) : Prop :=
  size ≤ h.capacity p ∧ p + size ≤ E.heapEnd h.brk

theorem Busy.capacity {x n : Nat} (hinv : HeapInv lo hi c h) (hx : Busy c x n) :
    h.capacity x = n := by
  obtain ⟨a, k, hk, hcell, -, rfl⟩ := hx
  have hsize : h.sizeOf a = k.size := (hinv.core.stored hk).size
  rw [Heap.capacity, hinv.core.layout.pageBase_cell hk hcell, hsize]

theorem Allocated.hasBytes {c' : Chunks} {p n : Nat} {h' : Heap σ}
    (halloc : Allocated lo hi (E.heapEnd h'.brk) c c' p n h h') (hle : size ≤ n) :
    HasBytes E h' p size := by
  have hbusy := halloc.busy_self
  have hwithin := (hbusy.within halloc.inv.core.layout).2
  refine ⟨?_, by omega⟩
  rw [hbusy.capacity halloc.inv]
  exact hle

/-- Where the word arithmetic of a new block wraps, its end is too low. -/
theorem bigPages_fits (hword : size < 2 ^ 32)
    (hle : size ≤ 4096 * bigPages size - 44)
    (hend : hi + 44 + size ≤ wordAdd hi (wordMul pageSize (bigPages size))) :
    hi + ((size + bigBinHeaderSize) / pageSize + 1) * pageSize < 2 ^ 32 := by
  have hpages : bigPages size = (size + 44) / 4096 + 1 := by
    unfold bigPages wordAdd bigBinHeaderSize pageSize at hle ⊢
    omega
  rw [hpages] at hend
  unfold wordAdd wordMul pageSize at hend
  unfold bigBinHeaderSize pageSize
  omega

/-- The end of the heap after a call that made a page. -/
theorem HeapInv.newPage_end (hinv : HeapInv lo (E.heapEnd h.brk) c h) (hne : size ≠ 0)
    (hb : klmallocBinSize size < bigBin) (hhead : h.binHead (klmallocBinSize size) = 0) {p : Nat}
    {h' : Heap σ} (hrun : h.klmalloc E size = .ok (p, h')) :
    E.heapEnd h'.brk = wordAdd (E.heapEnd h.brk) pageSize := by
  cases hcall : E.call pageSize h.brk with
  | error e =>
      rw [Heap.klmalloc_newPage_halts hne hb hhead hcall] at hrun
      cases hrun
  | ok r =>
      obtain ⟨address, brk⟩ := r
      obtain ⟨rfl, hend⟩ := E.returns hcall
      obtain ⟨p', h'', hrun', hbrk⟩ := hinv.newPage_returns hne hb hhead hcall
      rw [hrun'] at hrun
      cases hrun
      rw [hbrk, hend]

/-- The block of a call that made one. -/
theorem HeapInv.newBlock_end (hinv : HeapInv lo (E.heapEnd h.brk) c h) (hne : size ≠ 0)
    (hb : ¬ klmallocBinSize size < bigBin) (hfind : h.skipListFindbest size = .ok none) {p : Nat}
    {h' : Heap σ} (hrun : h.klmalloc E size = .ok (p, h')) :
    E.heapEnd h'.brk = wordAdd (E.heapEnd h.brk) (wordMul pageSize (bigPages size)) ∧
      p = E.heapEnd h.brk + 44 ∧ h'.sizeOf (E.heapEnd h.brk) = 4096 * bigPages size - 44 := by
  cases hcall : E.call (wordMul pageSize (bigPages size)) h.brk with
  | error e =>
      rw [Heap.klmalloc_newBlock_halts hne hb hfind hcall] at hrun
      cases hrun
  | ok r =>
      obtain ⟨address, brk⟩ := r
      obtain ⟨rfl, hend⟩ := E.returns hcall
      obtain ⟨h'', hrun', hbrk, hsize⟩ := hinv.newBlock_returns hne hb hfind hcall
      rw [hrun'] at hrun
      cases hrun
      exact ⟨by rw [hbrk, hend], rfl, hsize⟩

/-- A call whose block has the bytes is one that fits. -/
theorem HeapInv.klmalloc_fits (hinv : HeapInv lo (E.heapEnd h.brk) c h) (hne : size ≠ 0)
    (hword : size < 2 ^ 32) {p : Nat} {h' : Heap σ} (hrun : h.klmalloc E size = .ok (p, h'))
    (hbytes : HasBytes E h' p size) : MallocFits E size h := by
  have hl := hinv.core.layout
  have hhi := hl.hi_le
  by_cases hb : klmallocBinSize size < bigBin
  · have hnot : ¬ bigBin ≤ klmallocBinSize size := Nat.not_le.mpr hb
    refine ⟨fun _ _ hhead => ?_, fun hbig => absurd hbig hnot, fun hbig => absurd hbig hnot⟩
    have hle := hbytes.2
    rw [hinv.newPage_end hne hb hhead hrun] at hle
    unfold wordAdd pageSize at hle
    unfold pageSize
    omega
  · have hbig : bigBin ≤ klmallocBinSize size := Nat.le_of_not_lt hb
    obtain ⟨l, hs, hfree⟩ := hinv.skip
    obtain ⟨p₀, q, rfl, hcut⟩ := hs.exists_cut size
    cases q with
    | cons a q =>
        obtain ⟨h'', c', hrun', halloc, -⟩ := hinv.klmalloc_found (E := E) hne hb hs hfree hcut
        rw [hrun'] at hrun
        cases hrun
        have hamem : h.OnChain a := hs.onChain_iff.mpr (by simp)
        have hbusy := halloc.busy_self
        have hle := hbytes.1
        rw [hbusy.capacity halloc.inv] at hle
        refine ⟨fun _ hsmall => absurd hsmall hb, fun _ _ _ => ⟨a, hamem, hle⟩, fun _ hnone => ?_⟩
        exact absurd (hcut.above a List.mem_cons_self) (Int.not_le.mpr (hnone a hamem))
    | nil =>
        have hfind := hs.findbest_eq hcut (hinv.core.blockAt_of_mem hfree)
        refine ⟨fun _ hsmall => absurd hsmall hb, fun _ hsome => ?_, fun _ _ => ?_⟩
        · obtain ⟨a, ha, hle⟩ := hsome
          have hmem := hs.onChain_iff.mp ha
          rw [List.append_nil] at hmem
          exact absurd hle (Int.not_le.mpr (hcut.below a hmem))
        · obtain ⟨hend, rfl, hsize⟩ := hinv.newBlock_end hne hb hfind hrun
          have hpage : pageBase (E.heapEnd h.brk + 44) = E.heapEnd h.brk := by
            have hdvd := hl.hi_page
            unfold pageSize at hdvd
            rw [pageBase_eq (by omega)]
            omega
          have hpos := bigPages_pos size
          have hcell : cellSize (4096 * bigPages size - 44) = 4096 * bigPages size - 44 :=
            if_pos (by unfold numBins; omega)
          obtain ⟨hle, hle'⟩ := hbytes
          rw [Heap.capacity, hpage, hsize, hcell] at hle
          rw [hend] at hle'
          exact bigPages_fits hword hle hle'

/-- So is a call with a size below 2 GB after which the end of the heap is not lower. -/
theorem HeapInv.klmalloc_fits_of_le (hinv : HeapInv lo (E.heapEnd h.brk) c h) (hne : size ≠ 0)
    (hsize : size < 2 ^ 31 - 44) {p : Nat} {h' : Heap σ}
    (hrun : h.klmalloc E size = .ok (p, h')) (hle : E.heapEnd h.brk ≤ E.heapEnd h'.brk) :
    MallocFits E size h := by
  have hhi := hinv.core.layout.hi_le
  refine ⟨fun _ hb hhead => ?_, fun _ _ hbig => by omega, fun hb hnone => ?_⟩
  · rw [hinv.newPage_end hne hb hhead hrun] at hle
    unfold wordAdd pageSize at hle
    unfold pageSize
    omega
  · obtain ⟨l, hs, hfree⟩ := hinv.skip
    obtain ⟨p₀, q, rfl, hcut⟩ := hs.exists_cut size
    have hq : q = [] := by
      cases q with
      | nil => rfl
      | cons a q =>
          have hlt := hnone a (hs.onChain_iff.mpr (by simp))
          exact absurd (hcut.above a List.mem_cons_self) (Int.not_le.mpr hlt)
    subst hq
    have hfind := hs.findbest_eq hcut (hinv.core.blockAt_of_mem hfree)
    obtain ⟨hend, -⟩ := hinv.newBlock_end hne (Nat.not_lt.mpr hb) hfind hrun
    have hpages : bigPages size = (size + 44) / 4096 + 1 := by
      unfold bigPages wordAdd bigBinHeaderSize pageSize
      omega
    rw [hend, hpages] at hle
    unfold wordAdd wordMul pageSize at hle
    unfold bigBinHeaderSize pageSize
    omega

end X32PRos
