import X32PRos.Heap.Safety

/-!
Whether a block is as large as it was asked for, for every 32-bit size. The
comparisons and the page arithmetic of the allocator are those of words, some
of them signed: exactly which calls get what they ask for.
-/

namespace X32PRos

open Foundation

variable {σ : Type} {lo hi : Nat} {c : Chunks} {h : Heap σ} {E : Sbrk σ}

/-! ### `klmalloc` -/

theorem HeapInv.klmalloc_hasBytes_iff (hinv : HeapInv lo (E.heapEnd h.brk) c h) {size p : Nat}
    {h' : Heap σ} (hword : size < 2 ^ 32) (hrun : h.klmalloc E size = .ok (p, h')) (hp : p ≠ 0) :
    HasBytes E h' p size ↔ MallocFits E size h := by
  have hne : size ≠ 0 := by
    rintro rfl
    cases hrun
    exact hp rfl
  constructor
  · exact hinv.klmalloc_fits hne hword hrun
  · intro hfits
    obtain ⟨n, c', hsuits, ha⟩ := hinv.klmalloc_ok hne hword hfits hrun
    exact ha.hasBytes hsuits.le

/-! ### `klcalloc` -/

def CallocEnough (E : Sbrk σ) (nmemb size : Nat) (h : Heap σ) (p : Nat) (h' : Heap σ) : Prop :=
  (∃ h₁, h.klmalloc E (wordMul nmemb size) = .ok (p, h₁) ∧ HasBytes E h₁ p (nmemb * size)) ∧
    ∀ j < nmemb * size, h'.mem (p + j) = 0

/-- The product is a word, the heap has it, and it is below 2 GB or the bytes are
zero anyway. -/
structure CallocFits (E : Sbrk σ) (nmemb size : Nat) (h : Heap σ) : Prop where
  word : nmemb * size < 2 ^ 32
  fits : MallocFits E (nmemb * size) h
  zero : 2 ^ 31 ≤ nmemb * size → ∀ p h₁, h.klmalloc E (nmemb * size) = .ok (p, h₁) →
    ∀ j < nmemb * size, h₁.mem (p + j) = 0

theorem Heap.capacity_lt (h : Heap σ) (p : Nat) : h.capacity p < 2 ^ 32 := by
  have hlt : h.sizeOf (pageBase p) < 2 ^ 32 := Memory.load32_lt _ _
  unfold Heap.capacity cellSize numBins
  split
  · exact hlt
  · exact Nat.pow_lt_pow_right (by decide) (by omega)

theorem Heap.klcalloc_eq_ok {nmemb size p : Nat} {h' : Heap σ}
    (hrun : h.klcalloc E nmemb size = .ok (p, h')) (hp : p ≠ 0) :
    ∃ h₁, h.klmalloc E (wordMul nmemb size) = .ok (p, h₁) ∧
      h'.mem = memset p 0 (wordMul nmemb size) h₁.mem := by
  unfold Heap.klcalloc at hrun
  obtain ⟨⟨p', h₁⟩, hmalloc, hrest⟩ := bind_eq_ok.mp hrun
  cases hrest
  exact ⟨h₁, hmalloc, by rw [if_pos hp]⟩

theorem HeapInv.klcalloc_enough_iff (hinv : HeapInv lo (E.heapEnd h.brk) c h)
    {nmemb size p : Nat} {h' : Heap σ} (hrun : h.klcalloc E nmemb size = .ok (p, h')) (hp : p ≠ 0) :
    CallocEnough E nmemb size h p h' ↔ CallocFits E nmemb size h := by
  obtain ⟨h₁, hmalloc, hmem⟩ := Heap.klcalloc_eq_ok hrun hp
  have htotal : wordMul nmemb size < 2 ^ 32 := Nat.mod_lt _ (by decide)
  have hiff := hinv.klmalloc_hasBytes_iff htotal hmalloc hp
  have hproduct : nmemb * size < 2 ^ 32 → wordMul nmemb size = nmemb * size := Nat.mod_eq_of_lt
  constructor
  · rintro ⟨⟨h₂, hmalloc', hbytes⟩, hzero⟩
    rw [hmalloc] at hmalloc'
    cases hmalloc'
    have hlt := Nat.lt_of_le_of_lt hbytes.1 (h₁.capacity_lt p)
    rw [hproduct hlt] at hiff hmalloc hmem
    refine ⟨hlt, hiff.mp hbytes, fun hbig p' h₂ hmalloc' j hj => ?_⟩
    rw [hmalloc] at hmalloc'
    cases hmalloc'
    -- the loop of `memset` has no turns
    rw [← hzero j hj, hmem, memset, turns_of_le hbig hlt, fillBytes]
  · rintro ⟨hlt, hfits, hbig⟩
    rw [hproduct hlt] at hiff hmalloc hmem
    refine ⟨⟨h₁, by rw [hproduct hlt]; exact hmalloc, hiff.mpr hfits⟩, ?_⟩
    intro j hj
    by_cases hsmall : nmemb * size < 2 ^ 31
    · rw [hmem, memset, turns_of_lt hsmall, fillBytes_eq, if_pos (by omega)]
    · have hge : 2 ^ 31 ≤ nmemb * size := Nat.le_of_not_lt hsmall
      rw [hmem, memset, turns_of_le hge hlt, fillBytes]
      exact hbig hge p h₁ hmalloc j hj

/-! ### `klrealloc` -/

/-- `header_old->size >= size`: the block stays where it is. -/
def StaysInPlace (ptr size : Nat) (h : Heap σ) : Prop :=
  ptr ≠ 0 ∧ signed size ≤ signed (h.sizeOf (pageBase ptr))

instance (ptr size : Nat) (h : Heap σ) : Decidable (StaysInPlace ptr size h) :=
  inferInstanceAs (Decidable (_ ∧ _))

/-- The block that is returned has the bytes: the old one, or the one that
`klmalloc` has returned. -/
def ReallocEnough (E : Sbrk σ) (ptr size : Nat) (h : Heap σ) (q : Nat) : Prop :=
  if StaysInPlace ptr size h then q = ptr ∧ HasBytes E h ptr size
  else ∃ h₁, h.klmalloc E size = .ok (q, h₁) ∧ HasBytes E h₁ q size

/-- A block stays in place for a size of its own sign only. -/
def ReallocFits (E : Sbrk σ) (ptr size : Nat) (h : Heap σ) : Prop :=
  if StaysInPlace ptr size h then size < 2 ^ 31 ∨ 2 ^ 31 ≤ h.sizeOf (pageBase ptr)
  else MallocFits E size h

/-- How `klrealloc` comes to the block it returns. -/
theorem Heap.klrealloc_eq_ok {ptr size level q : Nat} {h' : Heap σ}
    (hrun : h.klrealloc E ptr size level = .ok (q, h')) (hq : q ≠ 0) :
    if StaysInPlace ptr size h then q = ptr ∧ h' = h
    else ∃ h₁, h.klmalloc E size = .ok (q, h₁) := by
  unfold Heap.klrealloc at hrun
  by_cases hptr : ptr = 0
  · rw [if_neg fun hstay => hstay.1 hptr]
    rw [if_pos hptr] at hrun
    exact ⟨h', hrun⟩
  rw [if_neg hptr] at hrun
  by_cases hsize : size = 0
  · rw [if_pos hsize] at hrun
    obtain ⟨h₁, -, hrest⟩ := bind_eq_ok.mp hrun
    cases hrest
    exact absurd rfl hq
  rw [if_neg hsize] at hrun
  by_cases hstay : StaysInPlace ptr size h
  · rw [if_pos hstay]
    simp only [ge_iff_le, if_pos hstay.2] at hrun
    cases hrun
    exact ⟨rfl, rfl⟩
  · rw [if_neg hstay]
    have hlt : ¬ signed size ≤ signed (h.sizeOf (pageBase ptr)) := fun hle => hstay ⟨hptr, hle⟩
    simp only [ge_iff_le, if_neg hlt] at hrun
    obtain ⟨⟨q', h₁⟩, hmalloc, hrest⟩ := bind_eq_ok.mp hrun
    dsimp only at hrest
    by_cases hq' : q' = 0
    · rw [if_neg (not_not.mpr hq')] at hrest
      cases hrest
      exact absurd rfl hq
    · rw [if_pos hq'] at hrest
      obtain ⟨h₂, -, hend⟩ := bind_eq_ok.mp hrest
      cases hend
      exact ⟨h₁, hmalloc⟩

/-- The bytes of a block that stays. -/
theorem Busy.stays_iff (hinv : HeapInv lo (E.heapEnd h.brk) c h) {ptr n size : Nat}
    (hbusy : Busy c ptr n) (hword : size < 2 ^ 32)
    (hle : signed size ≤ signed (h.sizeOf (pageBase ptr))) :
    HasBytes E h ptr size ↔ size < 2 ^ 31 ∨ 2 ^ 31 ≤ h.sizeOf (pageBase ptr) := by
  have hwithin := (hbusy.within hinv.core.layout).2
  have hcapacity := hbusy.capacity hinv
  have hlt : h.sizeOf (pageBase ptr) < 2 ^ 32 := Memory.load32_lt _ _
  unfold HasBytes
  unfold Heap.capacity at hcapacity ⊢
  generalize h.sizeOf (pageBase ptr) = header at *
  have hsmall : ¬ numBins < header → cellSize header < 2 ^ 31 ∧ header ≤ cellSize header := by
    intro hnot
    rw [cellSize, if_neg hnot]
    unfold numBins at hnot
    refine ⟨Nat.pow_lt_pow_right (by decide) (by omega), ?_⟩
    exact Nat.le_of_lt (Nat.lt_trans (Nat.lt_two_pow_self) (Nat.pow_lt_pow_right (by decide)
      (by omega)))
  have hbig : numBins < header → cellSize header = header := fun h => if_pos h
  unfold signed at hle
  constructor
  · rintro ⟨hbytes, -⟩
    by_cases hhead : numBins < header
    · rw [hbig hhead] at hbytes
      omega
    · have h := (hsmall hhead).1
      omega
  · intro hsign
    have hsize : size ≤ header := by
      split at hle <;> split at hle <;> omega
    have hcell : size ≤ cellSize header := by
      by_cases hhead : numBins < header
      · rw [hbig hhead]
        exact hsize
      · exact Nat.le_trans hsize (hsmall hhead).2
    exact ⟨hcell, by omega⟩

theorem HeapInv.klrealloc_enough_iff (hinv : HeapInv lo (E.heapEnd h.brk) c h)
    {ptr size level q : Nat} {h' : Heap σ} (hptr : ptr = 0 ∨ ∃ n, Busy c ptr n)
    (hword : size < 2 ^ 32) (hrun : h.klrealloc E ptr size level = .ok (q, h')) (hq : q ≠ 0) :
    ReallocEnough E ptr size h q ↔ ReallocFits E ptr size h := by
  have hcase := Heap.klrealloc_eq_ok hrun hq
  unfold ReallocEnough ReallocFits
  by_cases hstay : StaysInPlace ptr size h
  · simp only [if_pos hstay] at hcase ⊢
    obtain ⟨n, hbusy⟩ := hptr.resolve_left hstay.1
    rw [and_iff_right hcase.1]
    exact hbusy.stays_iff hinv hword hstay.2
  · simp only [if_neg hstay] at hcase ⊢
    obtain ⟨h₁, hmalloc⟩ := hcase
    rw [← hinv.klmalloc_hasBytes_iff hword hmalloc hq]
    constructor
    · rintro ⟨h₂, hmalloc', hbytes⟩
      rw [hmalloc] at hmalloc'
      cases hmalloc'
      exact hbytes
    · intro hbytes
      exact ⟨h₁, hmalloc, hbytes⟩

namespace Session

/-- In every session whose requests fit: a call gets the bytes it asks for if and
only if it fits itself. -/
theorem allocation_enough_iff (E : Sbrk σ) (mem : Memory) (brk : σ) (hpos : 0 < E.heapEnd brk)
    (hpage : pageSize ∣ E.heapEnd brk) (hlt : E.heapEnd brk < 2 ^ 32) {s : Session σ}
    (hreached : Reached E mem brk s) :
    (∀ size p h', size < 2 ^ 32 → s.heap.klmalloc E size = .ok (p, h') → p ≠ 0 →
      (HasBytes E h' p size ↔ MallocFits E size s.heap)) ∧
    (∀ nmemb size p h', nmemb < 2 ^ 32 → size < 2 ^ 32 →
      s.heap.klcalloc E nmemb size = .ok (p, h') → p ≠ 0 →
        (CallocEnough E nmemb size s.heap p h' ↔ CallocFits E nmemb size s.heap)) ∧
    ∀ ptr size level q h', (ptr = 0 ∨ ∃ b ∈ s.live, b.base = ptr) → size < 2 ^ 32 →
      s.heap.klrealloc E ptr size level = .ok (q, h') → q ≠ 0 →
        (ReallocEnough E ptr size s.heap q ↔ ReallocFits E ptr size s.heap) := by
  obtain ⟨c, hinv⟩ := hreached.inv hpos hpage hlt
  refine ⟨?_, ?_, ?_⟩
  · intro size p h' hword hrun hp
    exact hinv.heap.klmalloc_hasBytes_iff hword hrun hp
  · intro nmemb size p h' _ _ hrun hp
    exact hinv.heap.klcalloc_enough_iff hrun hp
  · intro ptr size level q h' hptr hword hrun hq
    refine hinv.heap.klrealloc_enough_iff (hptr.imp id ?_) hword hrun hq
    rintro ⟨b, hb, rfl⟩
    obtain ⟨n, -, hbusy⟩ := hinv.live b hb
    exact ⟨n, hbusy⟩

theorem allocation_enough_bump : ∃ s : Session Nat, s.live = [⟨0x10204C, 64⟩, ⟨0x10200C, 64⟩] ∧
    (∀ size p h', size < 2 ^ 32 → s.heap.klmalloc Sbrk.bump size = .ok (p, h') → p ≠ 0 →
      (HasBytes Sbrk.bump h' p size ↔ MallocFits Sbrk.bump size s.heap)) ∧
    (∀ nmemb size p h', nmemb < 2 ^ 32 → size < 2 ^ 32 →
      s.heap.klcalloc Sbrk.bump nmemb size = .ok (p, h') → p ≠ 0 →
        (CallocEnough Sbrk.bump nmemb size s.heap p h' ↔ CallocFits Sbrk.bump nmemb size s.heap)) ∧
    ∀ size level q h', size < 2 ^ 32 →
      s.heap.klrealloc Sbrk.bump 0x10200C size level = .ok (q, h') → q ≠ 0 →
        (ReallocEnough Sbrk.bump 0x10200C size s.heap q ↔ ReallocFits Sbrk.bump 0x10200C size s.heap) := by
  obtain ⟨s, hserved, hlive, -⟩ := exists_served_bump
  obtain ⟨hmalloc, hcalloc, hrealloc⟩ := allocation_enough_iff Sbrk.bump (fun _ => 0) 0x100000
    (by decide) (by decide) (by decide) (Served.reached hserved (by decide) (by decide) (by decide))
  refine ⟨s, hlive, hmalloc, hcalloc, fun size level q h' => hrealloc 0x10200C size level q h' ?_⟩
  rw [hlive]
  exact Or.inr ⟨⟨0x10200C, 64⟩, by decide, rfl⟩

/-- The size of a first request wraps, and the block is one page. -/
theorem malloc_max_one_page : ∃ h', (start (fun _ => 0) (0x100000 : Nat)).heap.klmalloc Sbrk.bump
    0xFFFFFFFF = .ok (0x10002C, h') ∧ ¬ HasBytes Sbrk.bump h' 0x10002C 0xFFFFFFFF := by
  have hinv := (inv_start Sbrk.bump (fun _ => 0) 0x100000 (by decide) (by decide)
    (by decide)).heap
  obtain ⟨l, hs, hfree⟩ := hinv.skip
  have hnil : l = [] := by
    refine List.eq_nil_iff_forall_not_mem.mpr fun a ha => ?_
    obtain ⟨k, hk, -⟩ := (hfree a).mp ha
    cases hk
  subst hnil
  have hb : klmallocBinSize 0xFFFFFFFF = bigBin := klmallocBinSize_big (by decide) (by decide)
  have hcut : CutAt (start (fun _ => 0) (0x100000 : Nat)).heap 0xFFFFFFFF [] [] :=
    ⟨by simp, by simp⟩
  have hfind := SkipAt.findbest_eq (p := []) (q := []) hs hcut (by simp)
  obtain ⟨h', hrun, -⟩ := hinv.newBlock_returns (E := Sbrk.bump) (by decide)
    (by rw [hb]; exact Nat.lt_irrefl _) hfind rfl
  refine ⟨h', hrun, fun hbytes => ?_⟩
  have hfits := hinv.klmalloc_fits (by decide) (by decide) hrun hbytes
  have hroom := hfits.grow (Nat.le_of_eq hb.symm) fun a ha => by
    have hmem := hs.onChain_iff.mp ha
    cases hmem
  revert hroom
  decide

end Session

end X32PRos
