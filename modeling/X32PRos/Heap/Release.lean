import X32PRos.Heap.Malloc

/-!
What `klfree` does to the heap: it returns for every block that a caller has,
and writes in headers and in the link word of the block.
-/

namespace X32PRos

variable {σ : Type} {lo hi : Nat} {c : Chunks} {h : Heap σ} {a p level : Nat} {k : Chunk}

theorem Heap.klfree_null (h : Heap σ) (level : Nat) : h.klfree 0 level = .ok h := rfl

/-- A cell of a small bin. -/
theorem HeapCore.klfree_small (hc : HeapCore lo hi c h) (hk : c a = some k)
    (hcell : IsCell a k.size p) (hsmall : k.size < bigBin) (level : Nat) :
    h.klfree p level =
      (if h.stackEmpty a then h.listInsert k.size a else h).stackPush a p := by
  have hbase := hc.layout.pageBase_cell hk hcell
  have hbounds := hcell.bounds
  have hpos := hc.layout.pos hk
  have hne : p ≠ 0 := by omega
  have hmod : a % pageSize = 0 := Nat.mod_eq_zero_of_dvd (hc.layout.page hk)
  have hsize : h.sizeOf a = k.size := (hc.stored hk).size
  have hnot : ¬ k.size > numBins := by
    unfold bigBin at hsmall
    omega
  simp only [Heap.klfree, if_neg hne, hbase, kassert_of hmod, ok_bind, hsize, if_neg hnot]

/-- A big block. -/
theorem HeapCore.klfree_big (hc : HeapCore lo hi c h) (hk : c a = some k)
    (hbig : numBins < k.size) (hfree : k.free = []) (level : Nat) :
    h.klfree (a + 44) level = (do
      let h ← h.stackPush a (a + bigBinHeaderSize)
      kassert (h.headOf a ≠ 0) "bheader->head != NULL" "alloc.c" 752
      h.skipListInsert a level) := by
  have hblock := hc.blockAt hk hbig
  have hbase := hc.layout.pageBase_cell hk ((isCell_of_big hbig).mpr rfl)
  have hsize : h.sizeOf a = k.size := (hc.stored hk).size
  have hhead : h.headOf a = 0 := (hc.stored hk).head_zero_iff.mpr hfree
  have hne : a + 44 ≠ 0 := by omega
  simp only [Heap.klfree, if_neg hne, hbase, kassert_of hblock.page, ok_bind, hsize, if_pos hbig,
    kassert_of hblock.ne_zero, kassert_of hhead, Heap.assertPages_of hblock]

structure Released (lo hi : Nat) (c c' : Chunks) (p : Nat) (h h' : Heap σ) : Prop where
  inv : HeapInv lo hi c' h'
  busy : ∀ y m, Busy c' y m ↔ Busy c y m ∧ y ≠ p
  chunks : ∀ b, (∃ k, c' b = some k) ↔ ∃ k, c b = some k
  frame : ∀ y, ¬ HeaderByte c y → y < p ∨ p + 4 ≤ y → h'.mem y = h.mem y
  brk : h'.brk = h.brk

theorem HeapInv.klfree_spec (hinv : HeapInv lo hi c h) {n : Nat} (hp : Busy c p n)
    (hlevel : level ≤ skipMaxLevel) :
    ∃ h' c', h.klfree p level = .ok h' ∧ Released lo hi c c' p h h' := by
  have hc := hinv.core
  obtain ⟨a, k, hk, hcell, hnot, -⟩ := hp
  rcases hc.layout.valid hk with hsmall | ⟨hbig, -⟩
  · obtain ⟨h', hrun, hinv', hmem, hbrk⟩ := hinv.putSmall hk hsmall hcell hnot
    refine ⟨h', _, ?_, hinv', Busy.push hc.layout hk hcell, exists_chunk_update hk _, ?_, hbrk⟩
    · rw [hc.klfree_small hk hcell hsmall]
      exact hrun
    · intro y hy hyp
      refine hmem y ?_ hyp
      by_contra hin
      have hheader := headerSize_ge k.size
      exact hy ⟨a, k, hk, by omega⟩
  · have hpa := (isCell_of_big hbig).mp hcell
    subst hpa
    have hfree : k.free = [] := by
      by_contra hne
      rw [hc.layout.free_of_big hk hbig hne] at hnot
      exact hnot List.mem_cons_self
    obtain ⟨h', hrun, hinv', hmem, hbrk⟩ := hinv.putBig hk hbig hfree hlevel
    refine ⟨h', _, ?_, hinv', ?_, exists_chunk_update hk _, hmem, hbrk⟩
    · rw [hc.klfree_big hk hbig hfree]
      exact hrun
    · have hpush := Busy.push hc.layout hk hcell
      rwa [hfree] at hpush

end X32PRos
