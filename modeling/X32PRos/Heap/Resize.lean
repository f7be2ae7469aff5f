import X32PRos.Heap.Capacity
import X32PRos.Heap.Locality

/-!
`klrealloc`: the block that is returned holds the old bytes, and nothing else is
changed but by the calls of `klmalloc` and `klfree` it makes. The copy is as long
as the old cell, so that it is exactly the step to a smaller bin that breaks it.
-/

namespace X32PRos

open Foundation

variable {σ : Type} {lo hi : Nat} {c : Chunks} {h : Heap σ} {E : Sbrk σ}

/-- The size word of the block at `p`: a bin number, or bytes. -/
def Heap.sizeWord (h : Heap σ) (p : Nat) : Nat := h.sizeOf (pageBase p)

def Heap.copied (h : Heap σ) (p : Nat) : Nat :=
  turns (if h.sizeWord p < bigBin then 1 <<< (smallestBinLog + h.sizeWord p) else h.sizeWord p)

/-- The block has moved to `q`: `klmalloc` has returned it, the copy stays inside
it, and outside of it the heap is that of `klmalloc(size)` and `klfree(ptr)`. -/
structure MovedTo (E : Sbrk σ) (ptr size level : Nat) (h : Heap σ) (q : Nat) (h₁ h' : Heap σ) :
    Prop where
  malloc : h.klmalloc E size = .ok (q, h₁)
  bytes : HasBytes E h₁ q size
  copied : h₁.copied ptr ≤ h₁.capacity q
  rest : ∃ h₂, h₁.klfree ptr level = .ok h₂ ∧ SameOutside q (h₁.capacity q) h₂ h'

/-- What a call of `klrealloc` is to do. It stops only where `klmalloc` stops in
`sbrk`. -/
def ReallocMoves (E : Sbrk σ) (ptr size level : Nat) (h : Heap σ) : Prop :=
  match h.klrealloc E ptr size level with
  | .error e => h.klmalloc E size = .error e ∧ ∃ increment, E.call increment h.brk = .error e
  | .ok (q, h') =>
      HasBytes E h' q size ∧
      (∀ j < min (h.capacity ptr) size, h'.mem (q + j) = h.mem (ptr + j)) ∧
      (StaysInPlace ptr size h ∧ q = ptr ∧ h' = h ∨
        ¬ StaysInPlace ptr size h ∧ ∃ h₁, MovedTo E ptr size level h q h₁ h')

/-- The new block is not in a smaller bin than the old one. A block of 2 GB and
more is not copied at all, so that its bytes must be there already. -/
structure MoveFits (E : Sbrk σ) (ptr size : Nat) (h : Heap σ) : Prop where
  fits : MallocFits E size h
  bin : h.sizeWord ptr < bigBin → h.sizeWord ptr ≤ klmallocBinSize size
  short : 2 ^ 31 ≤ h.sizeWord ptr → ∀ q h₁, h.klmalloc E size = .ok (q, h₁) →
    ∀ j < size, h₁.mem (q + j) = h.mem (ptr + j)

def ReallocSafe (E : Sbrk σ) (ptr size : Nat) (h : Heap σ) : Prop :=
  StaysInPlace ptr size h ∨ (∃ e, h.klmalloc E size = .error e) ∨ MoveFits E ptr size h

/-! ### The size word of a block that is somebody's -/

theorem Busy.sizeWord {x n : Nat} (hinv : HeapInv lo hi c h) (hx : Busy c x n) :
    ValidSize (h.sizeWord x) ∧ n = cellSize (h.sizeWord x) := by
  obtain ⟨a, k, hk, hcell, -, rfl⟩ := hx
  have hsize : h.sizeOf a = k.size := (hinv.core.stored hk).size
  rw [Heap.sizeWord, hinv.core.layout.pageBase_cell hk hcell, hsize]
  exact ⟨hinv.core.layout.valid hk, rfl⟩

theorem cellSize_of_small {size : Nat} (hsmall : size < bigBin) :
    cellSize size = 2 ^ (size + 2) ∧ cellSize size ≤ 2048 := by
  have hnot : ¬ numBins < size := by
    unfold bigBin at hsmall
    omega
  have hle : size + 2 ≤ 11 := by
    unfold bigBin numBins at hsmall
    omega
  rw [cellSize, if_neg hnot]
  exact ⟨rfl, Nat.le_trans (Nat.pow_le_pow_right (by decide) hle) (by decide)⟩

/-- The capacity of a cell determines the size word of its chunk. -/
theorem cellSize_inj {s s' : Nat} (hs : ValidSize s) (hs' : ValidSize s')
    (heq : cellSize s = cellSize s') : s = s' := by
  have hbig : ∀ {s}, numBins < s ∧ pageSize ∣ s + bigBinHeaderSize ∧
      s + bigBinHeaderSize < 2 ^ 32 → cellSize s = s ∧ 2048 < s := by
    rintro s ⟨hlt, hdvd, -⟩
    unfold pageSize bigBinHeaderSize at hdvd
    exact ⟨if_pos hlt, by omega⟩
  rcases hs with hsmall | hlarge <;> rcases hs' with hsmall' | hlarge'
  · rw [(cellSize_of_small hsmall).1, (cellSize_of_small hsmall').1] at heq
    exact Nat.add_right_cancel (Nat.pow_right_injective (Nat.le_refl 2) heq)
  · have hle := (cellSize_of_small hsmall).2
    obtain ⟨hcell, hlt⟩ := hbig hlarge'
    omega
  · have hle := (cellSize_of_small hsmall').2
    obtain ⟨hcell, hlt⟩ := hbig hlarge
    omega
  · rw [(hbig hlarge).1, (hbig hlarge').1] at heq
    exact heq

/-- The copy is as long as the cell, or there is none. -/
theorem Busy.copied {x n : Nat} (hinv : HeapInv lo hi c h) (hx : Busy c x n) :
    h.sizeWord x < 2 ^ 31 ∧ h.copied x = n ∨ 2 ^ 31 ≤ h.sizeWord x ∧ h.copied x = 0 := by
  obtain ⟨hvalid, rfl⟩ := hx.sizeWord hinv
  unfold Heap.copied
  generalize h.sizeWord x = s at *
  by_cases hsmall : s < bigBin
  · obtain ⟨hcell, hle⟩ := cellSize_of_small hsmall
    refine Or.inl ⟨?_, ?_⟩
    · unfold bigBin numBins at hsmall
      omega
    · have hshift : 1 <<< (smallestBinLog + s) = cellSize s := by
        rw [hcell, Nat.one_shiftLeft, Nat.add_comm]
        rfl
      rw [if_pos hsmall, hshift, turns_of_lt (by omega)]
  · obtain ⟨hbig, -, hlt⟩ := hvalid.resolve_left hsmall
    have hcell : cellSize s = s := if_pos hbig
    rw [if_neg hsmall, hcell]
    by_cases hshort : s < 2 ^ 31
    · exact Or.inl ⟨hshort, turns_of_lt hshort⟩
    · exact Or.inr ⟨Nat.le_of_not_lt hshort,
        turns_of_le (Nat.le_of_not_lt hshort) hvalid.word⟩

/-! ### A block that moves -/

theorem Heap.klrealloc_stays {ptr size : Nat} (level : Nat) (hne : size ≠ 0)
    (hstay : StaysInPlace ptr size h) : h.klrealloc E ptr size level = .ok (ptr, h) := by
  simp only [Heap.klrealloc, if_neg hstay.1, if_neg hne, ge_iff_le, if_pos hstay.2]

theorem Heap.klrealloc_moves {ptr size : Nat} (level : Nat) (hptr : ptr ≠ 0) (hne : size ≠ 0)
    (hstay : ¬ StaysInPlace ptr size h) :
    h.klrealloc E ptr size level = (do
      let (q, h₁) ← h.klmalloc E size
      if q ≠ 0 then
        let h' ← { h₁ with mem := copyBytes q ptr (h₁.copied ptr) h₁.mem }.klfree ptr level
        .ok (q, h')
      else .ok (0, h₁)) := by
  have hlt : ¬ signed size ≤ signed (h.sizeOf (pageBase ptr)) := fun hle => hstay ⟨hptr, hle⟩
  simp only [Heap.klrealloc, if_neg hptr, if_neg hne, ge_iff_le, if_neg hlt]
  rfl

/-- A call of `klmalloc` leaves the size word of a block that is somebody's. -/
theorem Allocated.sizeWord_eq {hi' p n x m : Nat} {c' : Chunks} {h' : Heap σ}
    (ha : Allocated lo hi hi' c c' p n h h') (hinv : HeapInv lo hi c h) (hx : Busy c x m) :
    h'.sizeWord x = h.sizeWord x := by
  obtain ⟨hvalid, hcell⟩ := hx.sizeWord hinv
  obtain ⟨hvalid', hcell'⟩ := ((ha.busy x m).mpr (Or.inl hx)).sizeWord ha.inv
  exact cellSize_inj hvalid' hvalid (hcell'.symm.trans hcell)

/-- The copy fits the new cell if and only if that is in no smaller bin. -/
theorem copied_le_iff {ptr size n n' L : Nat} (hw : ValidSize (h.sizeWord ptr))
    (hn : n = cellSize (h.sizeWord ptr)) (hsuits : Suits size n') (hpos : 0 < size)
    (hsize : size < 2 ^ 31) (hstay : ¬ signed size ≤ signed (h.sizeWord ptr))
    (hL : h.sizeWord ptr < 2 ^ 31 ∧ L = n ∨ 2 ^ 31 ≤ h.sizeWord ptr ∧ L = 0) :
    L ≤ n' ↔ (h.sizeWord ptr < bigBin → h.sizeWord ptr ≤ klmallocBinSize size) := by
  generalize h.sizeWord ptr = w at *
  by_cases hsmall : w < bigBin
  · obtain ⟨hcell, hle⟩ := cellSize_of_small hsmall
    have hLn : L = 2 ^ (w + 2) := by
      unfold bigBin numBins at hsmall
      omega
    rw [hLn, imp_iff_right hsmall]
    by_cases hbin : klmallocBinSize size < bigBin
    · rw [hsuits.small hbin, Nat.pow_le_pow_iff_right (by decide)]
      omega
    · have hlarge := mt (klmallocBinSize_lt_iff hpos (by omega)).mpr hbin
      have hsuits' := hsuits.le
      exact iff_of_true (by omega) (by omega)
  · have hbig := (hw.resolve_left hsmall).1
    have hcell : cellSize w = w := if_pos hbig
    refine iff_of_true ?_ fun hlt => absurd hlt hsmall
    have hsuits' := hsuits.le
    rcases hL with ⟨hshort, rfl⟩ | ⟨-, rfl⟩
    · rw [signed_of_lt hsize, signed_of_lt hshort] at hstay
      omega
    · exact Nat.zero_le n'

/-- What the copy and `klfree` leave in the new block. -/
theorem Allocated.moved {ptr q n n' level L : Nat} {hi' : Nat} {c' : Chunks} {h₁ : Heap σ}
    (ha : Allocated lo hi hi' c c' q n' h h₁) (hbusy : Busy c ptr n) (hL : L ≤ n)
    (hL' : L ≤ n') (hlevel : level ≤ skipMaxLevel) :
    ∃ h' h₂ c'', { h₁ with mem := copyBytes q ptr L h₁.mem }.klfree ptr level = .ok h' ∧
      h₁.klfree ptr level = .ok h₂ ∧ SameOutside q n' h₂ h' ∧ HeapInv lo hi' c'' h' ∧
        Busy c'' q n' ∧ h'.brk = h₁.brk ∧
          ∀ j < n', h'.mem (q + j) = if j < L then h₁.mem (ptr + j) else h₁.mem (q + j) := by
  have hl := ha.inv.core.layout
  have hne : q ≠ ptr := by
    rintro rfl
    exact ha.fresh n hbusy
  have hp : Busy c' ptr n := (ha.busy ptr n).mpr (Or.inl hbusy)
  have hq := ha.busy_self
  have hapart := hq.apart hl hp hne
  have hcopy := copyBytes_eq (m := h₁.mem) (show q + L ≤ ptr ∨ ptr + L ≤ q by omega)
  have hsame : SameOutside q n' h₁ { h₁ with mem := copyBytes q ptr L h₁.mem } := by
    refine ⟨fun y hy => ?_, rfl, rfl, rfl, rfl, rfl, rfl⟩
    exact (hcopy y).trans (if_neg (by omega))
  have hinv' : HeapInv lo hi' c' { h₁ with mem := copyBytes q ptr L h₁.mem } := by
    refine ha.inv.of_agree fun y hmeta => hsame.mem y ?_
    by_contra hin
    exact hq.not_metadata hl (by omega) (by omega) hmeta
  obtain ⟨h₂, -, hrun₂, -⟩ := ha.inv.klfree_spec hp hlevel
  obtain ⟨h', c'', hrun, hr⟩ := hinv'.klfree_spec hp hlevel
  refine ⟨h', h₂, c'', hrun, hrun₂, ha.inv.klfree_sameOutside hinv' hp hq hsame hlevel hrun₂ hrun,
    hr.inv, (hr.busy q n').mpr ⟨hq, hne⟩, hr.brk, ?_⟩
  intro j hj
  have hfour := hp.four_le
  have hframe := hr.frame (q + j) (hq.not_header hl (by omega) (by omega)) (by omega)
  refine hframe.trans ((hcopy (q + j)).trans ?_)
  by_cases hjL : j < L
  · rw [if_pos (by omega), if_pos hjL, Nat.add_sub_cancel_left]
  · rw [if_neg (by omega), if_neg hjL]

/-- The bytes of the old block while the new one is taken. -/
theorem Allocated.mem_eq {hi' p n x m j : Nat} {c' : Chunks} {h' : Heap σ}
    (ha : Allocated lo hi hi' c c' p n h h') (hl : Layout lo hi c) (hx : Busy c x m) (hj : j < m) :
    h'.mem (x + j) = h.mem (x + j) := by
  have hwithin := (hx.within hl).2
  exact ha.frame _ (by omega) (hx.not_header hl (by omega) (by omega))

/-- The block that a move takes, and when the copy fits it. -/
theorem HeapInv.moveTarget (hinv : HeapInv lo (E.heapEnd h.brk) c h) {ptr n size q : Nat}
    {h₁ : Heap σ} (hbusy : Busy c ptr n) (hpos : 0 < size) (hsize : size < 2 ^ 31 - 44)
    (hstay : ¬ StaysInPlace ptr size h) (hfits : MallocFits E size h)
    (hmalloc : h.klmalloc E size = .ok (q, h₁)) :
    ∃ n' c', Suits size n' ∧
      Allocated lo (E.heapEnd h.brk) (E.heapEnd h₁.brk) c c' q n' h h₁ ∧
      (h.sizeWord ptr < 2 ^ 31 ∧ h₁.copied ptr = n ∨
        2 ^ 31 ≤ h.sizeWord ptr ∧ h₁.copied ptr = 0) ∧
      (h₁.copied ptr ≤ n' ↔ (h.sizeWord ptr < bigBin → h.sizeWord ptr ≤ klmallocBinSize size)) := by
  obtain ⟨n', c', hsuits, ha⟩ := hinv.klmalloc_ok (Nat.ne_of_gt hpos) (by omega) hfits hmalloc
  obtain ⟨hvalid, hn⟩ := hbusy.sizeWord hinv
  have hcopied := ((ha.busy ptr n).mpr (Or.inl hbusy)).copied ha.inv
  rw [ha.sizeWord_eq hinv hbusy] at hcopied
  have hlt : ¬ signed size ≤ signed (h.sizeWord ptr) := fun hle =>
    hstay ⟨hbusy.base_ne_zero hinv.core.layout, hle⟩
  exact ⟨n', c', hsuits, ha, hcopied,
    copied_le_iff hvalid hn hsuits hpos (by omega) hlt hcopied⟩

theorem HeapInv.realloc_of_safe (hinv : HeapInv lo (E.heapEnd h.brk) c h) {ptr n size level : Nat}
    (hbusy : Busy c ptr n) (hpos : 0 < size) (hsize : size < 2 ^ 31 - 44)
    (hlevel : level ≤ skipMaxLevel) (hsafe : ReallocSafe E ptr size h) :
    ReallocMoves E ptr size level h := by
  have hl := hinv.core.layout
  have hptr := hbusy.base_ne_zero hl
  have hne := Nat.ne_of_gt hpos
  unfold ReallocMoves
  by_cases hstay : StaysInPlace ptr size h
  · rw [Heap.klrealloc_stays level hne hstay]
    exact ⟨(hbusy.stays_iff hinv (by omega) hstay.2).mpr (Or.inl (by omega)), fun _ _ => rfl,
      Or.inl ⟨hstay, rfl, rfl⟩⟩
  rw [Heap.klrealloc_moves level hptr hne hstay]
  cases hmalloc : h.klmalloc E size with
  | error e =>
      obtain ⟨increment, -, hcall⟩ := hinv.klmalloc_halts (by omega) hmalloc
      exact ⟨rfl, increment, hcall⟩
  | ok r =>
      obtain ⟨q, h₁⟩ := r
      have hfits : MoveFits E ptr size h := by
        rcases hsafe with hstays | ⟨e, herr⟩ | hfits
        · exact absurd hstays hstay
        · rw [hmalloc] at herr
          cases herr
        · exact hfits
      obtain ⟨n', c', hsuits, ha, hcopied, hiff⟩ :=
        hinv.moveTarget hbusy hpos hsize hstay hfits.fits hmalloc
      have hL' := hiff.mpr hfits.bin
      have hL : h₁.copied ptr ≤ n := by omega
      obtain ⟨h', h₂, c'', hrun, hrun₂, hsame, hinv', hq, hbrk, hmem⟩ :=
        ha.moved hbusy hL hL' hlevel
      have hqbusy := ha.busy_self
      have hq0 := hqbusy.base_ne_zero ha.inv.core.layout
      have hcapacity := hqbusy.capacity ha.inv
      simp only [ok_bind, ne_eq, hq0, not_false_eq_true, if_true, hrun]
      refine ⟨?_, ?_, Or.inr ⟨hstay, h₁, hmalloc, ha.hasBytes hsuits.le, ?_, h₂, hrun₂, ?_⟩⟩
      · have hwithin := (hq.within hinv'.core.layout).2
        have hle := hsuits.le
        refine ⟨by rw [hq.capacity hinv']; exact hle, ?_⟩
        rw [hbrk]
        omega
      · intro j hj
        rw [hbusy.capacity hinv] at hj
        have hle := hsuits.le
        rw [hmem j (by omega)]
        rcases hcopied with ⟨-, hLn⟩ | ⟨hlong, hzero⟩
        · rw [if_pos (by omega)]
          exact ha.mem_eq hl hbusy (by omega)
        · rw [if_neg (by omega)]
          exact hfits.short hlong q h₁ hmalloc j (by omega)
      · rw [hcapacity]
        exact hL'
      · rw [hcapacity]
        exact hsame

theorem HeapInv.safe_of_realloc (hinv : HeapInv lo (E.heapEnd h.brk) c h) {ptr n size level : Nat}
    (hbusy : Busy c ptr n) (hpos : 0 < size) (hsize : size < 2 ^ 31 - 44)
    (hlevel : level ≤ skipMaxLevel) (hmoves : ReallocMoves E ptr size level h) :
    ReallocSafe E ptr size h := by
  have hl := hinv.core.layout
  have hptr := hbusy.base_ne_zero hl
  have hne := Nat.ne_of_gt hpos
  by_cases hstay : StaysInPlace ptr size h
  · exact Or.inl hstay
  cases hmalloc : h.klmalloc E size with
  | error e => exact Or.inr (Or.inl ⟨e, hmalloc⟩)
  | ok r =>
      obtain ⟨q, h₁⟩ := r
      refine Or.inr (Or.inr ?_)
      unfold ReallocMoves at hmoves
      cases hrun : h.klrealloc E ptr size level with
      | error e =>
          rw [hrun] at hmoves
          rw [hmalloc] at hmoves
          cases hmoves.1
      | ok r' =>
          obtain ⟨q', h'⟩ := r'
          rw [hrun] at hmoves
          obtain ⟨-, hcontents, ⟨hstay', -⟩ | ⟨-, h₁', hmoved⟩⟩ := hmoves
          · exact absurd hstay' hstay
          have hmalloc' := hmoved.malloc
          rw [hmalloc] at hmalloc'
          cases hmalloc'
          have hfits := hinv.klmalloc_fits hne (by omega) hmalloc hmoved.bytes
          obtain ⟨n', c', hsuits, ha, hcopied, hiff⟩ :=
            hinv.moveTarget hbusy hpos hsize hstay hfits hmalloc
          obtain ⟨hvalid, hn⟩ := hbusy.sizeWord hinv
          have hqbusy := ha.busy_self
          have hL' := hmoved.copied
          rw [hqbusy.capacity ha.inv] at hL'
          refine ⟨hfits, hiff.mp hL', ?_⟩
          intro hlong q' h₁' hmalloc' j hj
          rw [hmalloc] at hmalloc'
          cases hmalloc'
          have hzero : h₁.copied ptr = 0 := by omega
          obtain ⟨h'', h₂, c'', hfree, -, -, -, -, -, hmem⟩ :=
            ha.moved hbusy (Nat.zero_le n) (Nat.zero_le n') hlevel
          have hq0 := hqbusy.base_ne_zero ha.inv.core.layout
          rw [Heap.klrealloc_moves level hptr hne hstay, hmalloc] at hrun
          simp only [ok_bind, ne_eq, hq0, not_false_eq_true, if_true, hzero, hfree] at hrun
          cases hrun
          have hle := hsuits.le
          have hcell : cellSize (h.sizeWord ptr) = h.sizeWord ptr := by
            apply if_pos
            unfold numBins
            omega
          have hj' := hcontents j (by rw [hbusy.capacity hinv]; omega)
          rw [hmem j (by omega), if_neg (Nat.not_lt_zero j)] at hj'
          exact hj'

namespace Session

/-- In every session whose requests fit: `klrealloc` moves a live block as it is
to do if and only if the block stays, memory is out, or the move fits. -/
theorem realloc_moves_iff (E : Sbrk σ) (mem : Memory) (brk : σ) (hpos : 0 < E.heapEnd brk)
    (hpage : pageSize ∣ E.heapEnd brk) (hlt : E.heapEnd brk < 2 ^ 32) {s : Session σ}
    (hreached : Reached E mem brk s) {b : Region} (hb : b ∈ s.live) {size level : Nat}
    (hsize : 0 < size ∧ size < 2 ^ 31 - 44) (hlevel : level ≤ skipMaxLevel) :
    ReallocMoves E b.base size level s.heap ↔ ReallocSafe E b.base size s.heap := by
  obtain ⟨c, hinv⟩ := hreached.inv hpos hpage hlt
  obtain ⟨n, -, hbusy⟩ := hinv.live b hb
  exact ⟨hinv.heap.safe_of_realloc hbusy hsize.1 hsize.2 hlevel,
    hinv.heap.realloc_of_safe hbusy hsize.1 hsize.2 hlevel⟩

theorem realloc_moves_bump : ∃ (s : Session Nat) (b : Region), b ∈ s.live ∧ b.len = 64 ∧
    (ReallocMoves Sbrk.bump b.base 4000 6 s.heap ↔ ReallocSafe Sbrk.bump b.base 4000 s.heap) := by
  obtain ⟨s, p, hstep, hlive, -, hallowed, -⟩ :=
    start_malloc_bump 64 (by decide) (by decide)
  have hreached : Reached Sbrk.bump (fun _ => 0) 0x100000 s := .tail .refl hallowed hstep
  have hmem : ⟨p, 64⟩ ∈ s.live := by
    rw [hlive]
    exact List.mem_cons_self
  exact ⟨s, ⟨p, 64⟩, hmem, rfl, realloc_moves_iff Sbrk.bump (fun _ => 0) 0x100000 (by decide)
    (by decide) (by decide) hreached hmem ⟨by decide, by decide⟩ (by decide)⟩

/-- The 64 bytes of a cell are copied into one of 16 bytes. -/
theorem realloc_shrink_overruns : ∃ (s : Session Nat) (p : Nat),
    Reached Sbrk.bump (fun _ => 0) 0x100000 s ∧ ⟨p, 64⟩ ∈ s.live ∧
      ¬ ReallocMoves Sbrk.bump p 16 0 s.heap := by
  obtain ⟨s, p, hstep, hlive, -, hallowed, n, c', hsuits, hbusy, hinv⟩ :=
    start_malloc_bump 64 (by decide) (by decide)
  refine ⟨s, p, .tail .refl hallowed hstep, by rw [hlive]; exact List.mem_cons_self, ?_⟩
  intro hmoves
  obtain ⟨hvalid, hn⟩ := hbusy.sizeWord hinv
  have hbin : klmallocBinSize 64 = 4 := by decide
  have hword : s.heap.sizeWord p = 4 := by
    apply cellSize_inj hvalid (Or.inl (by decide))
    rw [← hn, hsuits.small (by rw [hbin]; decide), hbin]
    rfl
  rcases HeapInv.safe_of_realloc (E := Sbrk.bump) hinv hbusy (by decide) (by decide) (by decide)
    hmoves with hstay | ⟨e, herr⟩ | hmove
  · have hle := hstay.2
    rw [show s.heap.sizeOf (pageBase p) = 4 from hword] at hle
    revert hle
    decide
  · obtain ⟨_, -, hcall⟩ := HeapInv.klmalloc_halts (E := Sbrk.bump) hinv (by decide) herr
    cases hcall
  · have hle := hmove.bin (by rw [hword]; decide)
    rw [hword] at hle
    revert hle
    decide

end Session

end X32PRos
