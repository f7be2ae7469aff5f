import X32PRos.Heap.Steps

/-!
A big block is taken from the skip list, or goes back to it. It has one cell, so
that its stack is empty or full.
-/

namespace X32PRos

open Foundation SkipList

variable {σ : Type} {lo hi : Nat} {c : Chunks} {h h' : Heap σ} {a x : Nat} {k : Chunk}

def HeaderByte (c : Chunks) (x : Nat) : Prop :=
  ∃ a k, c a = some k ∧ a ≤ x ∧ x < a + headerSize k.size

theorem isCell_of_big {size : Nat} (hbig : numBins < size) : IsCell a size x ↔ x = a + 44 := by
  have hcount : cellCount size = 1 := if_pos hbig
  unfold IsCell cell
  rw [hcount, headerSize_of_big hbig]
  constructor
  · rintro ⟨j, hj, rfl⟩
    rw [Nat.lt_one_iff.mp hj, Nat.zero_mul, Nat.add_zero]
  · rintro rfl
    exact ⟨0, Nat.one_pos, by rw [Nat.zero_mul, Nat.add_zero]⟩

theorem Layout.free_of_big (hl : Layout lo hi c) (hk : c a = some k) (hbig : numBins < k.size)
    (hfree : k.free ≠ []) : k.free = [a + 44] := by
  have hall : ∀ y ∈ k.free, y = a + 44 := fun y hy => (isCell_of_big hbig).mp (hl.cells hk hy)
  have hnodup := hl.nodup hk
  match hlist : k.free with
  | [] => exact absurd hlist hfree
  | [y] =>
      rw [hlist] at hall
      rw [hall y List.mem_cons_self]
  | y :: z :: rest =>
      rw [hlist] at hall hnodup
      have hne := (List.nodup_cons.mp hnodup).1
      rw [hall y List.mem_cons_self, hall z (by simp)] at hne
      exact absurd List.mem_cons_self hne

/-- `forward` words are in headers. -/
theorem ForwardOnly.mem_eq {l : List Nat} (hf : ForwardOnly l h h')
    (hl : ∀ a ∈ l, ∃ k, c a = some k ∧ numBins < k.size) {y : Nat} (hy : ¬ HeaderByte c y) :
    h'.mem y = h.mem y := by
  refine hf.mem y fun b hb => ?_
  obtain ⟨k, hk, hbig⟩ := hl b hb
  by_contra hin
  refine hy ⟨b, k, hk, ?_, ?_⟩
  · omega
  · rw [headerSize_of_big hbig]
    omega

theorem FreeBig.big {l : List Nat} (hl : FreeBig c l) :
    ∀ a ∈ l, ∃ k, c a = some k ∧ numBins < k.size := by
  intro a ha
  obtain ⟨k, hk, hbig, -⟩ := (hl a).mp ha
  exact ⟨k, hk, hbig⟩

/-- A step inside a big block that is not in the skip list. -/
theorem HeapCore.of_big (h' : Heap σ) {l : List Nat} (hc : HeapCore lo hi c h) (hs : SkipAt h l)
    (hl : ∀ b ∈ l, b ≠ a ∧ ∃ k', c b = some k') (hk : c a = some k) (hbig : numBins < k.size)
    {free : List Nat} (hnodup : free.Nodup) (hcells : ∀ x ∈ free, IsCell a k.size x)
    (hm : ∀ x, x < a ∨ a + span k.size ≤ x → h'.mem x = h.mem x)
    (hat : ChunkAt h'.mem a ⟨k.size, free⟩) (hbins : h'.binHead = h.binHead)
    (hheads : h'.bigHead = h.bigHead) (hlevel : h'.level = h.level)
    (hinserted : h'.inserted = h.inserted) (hnewest : h'.newestBig = h.newestBig) :
    HeapCore lo hi (Function.update c a (some ⟨k.size, free⟩)) h' ∧ SkipAt h' l := by
  constructor
  · refine hc.of_region hk hnodup hcells hm hat (fun b _ => by rw [hbins]) ?_ hnewest
    intro hsmall
    unfold bigBin at hsmall
    omega
  · exact hs.of_region hc.layout hk hl hm hheads hlevel hinserted

/-- The block that the search found becomes the caller's. -/
theorem HeapCore.takeBig {size : Nat} {p q : List Nat} (hc : HeapCore lo hi c h)
    (hs : SkipAt h (p ++ a :: q)) (hfree : FreeBig c (p ++ a :: q))
    (hcut : CutAt h size p (a :: q)) (hk : c a = some k) :
    ∃ h', (do
        let h ← h.skipListDelete a
        h.stackPop a) = .ok (a + 44, h') ∧
      HeapInv lo hi (Function.update c a (some ⟨k.size, []⟩)) h' ∧
        (∀ y, ¬ HeaderByte c y → h'.mem y = h.mem y) ∧ h'.brk = h.brk := by
  have hamem : a ∈ p ++ a :: q := List.mem_append_right p List.mem_cons_self
  have hka : numBins < k.size ∧ k.free ≠ [] := by
    obtain ⟨k', hk', hprop⟩ := (hfree a).mp hamem
    rw [hk] at hk'
    cases hk'
    exact hprop
  have hcell := hc.layout.free_of_big hk hka.1 hka.2
  have hspan := (hc.layout.valid hk).span_ge.1
  have hnodup := List.nodup_cons.mp (List.nodup_middle.mp hs.represents.nodup)
  -- it is the first of its size
  have hsorted := (List.pairwise_append.mp hs.represents.sorted).2.1
  have hcut' : CutAt h (h.sizeOf a) p (a :: q) := by
    constructor
    · intro b hb
      exact lt_of_lt_of_le (hcut.below b hb) (hcut.above a List.mem_cons_self)
    · intro b hb
      rcases List.mem_cons.mp hb with rfl | hb
      · exact le_refl _
      · exact (List.pairwise_cons.mp hsorted).1 b hb
  have hhead : h.headOf a ≠ 0 := by
    intro hzero
    exact hka.2 ((hc.stored hk).head_zero_iff.mp hzero)
  obtain ⟨h₁, hrun, hs₁, hforward, -⟩ := hs.delete hcut' (hc.blockAt_of_mem hfree) hhead
  have hc₁ := hc.of_forward hforward hfree.big
  obtain ⟨-, hat⟩ := hc₁.pop_words hk hcell
  have hother : ∀ b ∈ p ++ q, b ≠ a ∧ ∃ k', c b = some k' := by
    intro b hb
    have hmem : b ∈ p ++ a :: q :=
      (List.Sublist.append_left (List.sublist_cons_self a q) p).subset hb
    obtain ⟨k', hk', -⟩ := (hfree b).mp hmem
    exact ⟨fun heq => hnodup.1 (heq ▸ hb), k', hk'⟩
  obtain ⟨hc₂, hs₂⟩ := HeapCore.of_big (h₁.set (a + 4) (h₁.mem.load32 (a + 44))) hc₁ hs₁ hother hk
    hka.1 List.nodup_nil (by simp)
    (fun y hy => Memory.store32_of_outside (by omega)) hat rfl rfl rfl rfl rfl
  refine ⟨_, ?_, ⟨hc₂, p ++ q, hs₂, ?_⟩, ?_, hforward.brk⟩
  · rw [hrun, ok_bind, hc₁.stackPop_eq hk hcell]
  · intro b
    by_cases hba : b = a
    · subst hba
      rw [Function.update_self]
      apply iff_of_false hnodup.1
      rintro ⟨k', heq, -, hne⟩
      cases heq
      exact hne rfl
    · rw [Function.update_of_ne hba, ← hfree b]
      simp only [List.mem_append, List.mem_cons, hba, false_or]
  · intro y hy
    rw [← hforward.mem_eq hfree.big hy]
    apply Memory.store32_of_outside
    by_contra hin
    refine hy ⟨a, k, hk, ?_, ?_⟩
    · omega
    · rw [headerSize_of_big hka.1]
      omega

/-- The stack of a big block is filled, before it enters the skip list. -/
theorem HeapInv.pushBig (hinv : HeapInv lo hi c h) (hk : c a = some k) (hbig : numBins < k.size)
    (hfree : k.free = []) :
    ∃ h₁ l, h.stackPush a (a + 44) = .ok h₁ ∧
      HeapCore lo hi (Function.update c a (some ⟨k.size, [a + 44]⟩)) h₁ ∧ SkipAt h₁ l ∧
        FreeBig c l ∧ a ∉ l ∧ h₁.headOf a = a + 44 ∧ h₁.brk = h.brk ∧
          ∀ y, y < a + 4 ∨ a + 8 ≤ y → y < a + 44 ∨ a + 48 ≤ y → h₁.mem y = h.mem y := by
  obtain ⟨hc, l, hs, hl⟩ := hinv
  have hword := hc.layout.word hk
  have hspan := (hc.layout.valid hk).span_ge.1
  have hnot : a ∉ l := by
    intro hmem
    obtain ⟨k', hk', -, hne⟩ := (hl a).mp hmem
    rw [hk] at hk'
    cases hk'
    exact hne hfree
  have hother : ∀ b ∈ l, b ≠ a ∧ ∃ k', c b = some k' := by
    intro b hb
    obtain ⟨k', hk', -⟩ := (hl b).mp hb
    exact ⟨fun heq => hnot (heq ▸ hb), k', hk'⟩
  let h₁ := (h.set (a + 44) (h.headOf a)).set (a + 4) (a + 44)
  have hm₁ : ∀ y, y < a + 4 ∨ a + 8 ≤ y → y < a + 44 ∨ a + 48 ≤ y → h₁.mem y = h.mem y := by
    intro y hya hyx
    rw [← Memory.store32_of_outside (m := h.mem) (a := a + 44) (v := h.headOf a) (by omega)]
    exact Memory.store32_of_outside (by omega)
  have hhead : h₁.headOf a = a + 44 := Memory.load32_store32_self (by omega)
  have hat : ChunkAt h₁.mem a ⟨k.size, [a + 44]⟩ := by
    have hpush := ChunkAt.push h₁.mem (hc.stored hk) (show a + 44 ≠ 0 by omega) hhead ?_ ?_ ?_
    · rwa [hfree] at hpush
    · apply Eq.trans (Memory.load32_store32_of_apart (by omega))
      exact Memory.load32_store32_self (Memory.load32_lt _ _)
    · exact Memory.load32_congr fun y hlo hhi => hm₁ y (by omega) (by omega)
    · simp [hfree]
  have hregion : ∀ y, y < a ∨ a + span k.size ≤ y → h₁.mem y = h.mem y :=
    fun y hy => hm₁ y (by omega) (by omega)
  obtain ⟨hc₁, hs₁⟩ := HeapCore.of_big h₁ hc hs hother hk hbig (List.nodup_singleton _)
    (by simp [isCell_of_big hbig]) hregion hat rfl rfl rfl rfl rfl
  have hne : a + 44 ≠ 0 := by omega
  refine ⟨h₁, l, ?_, hc₁, hs₁, hl, hnot, hhead, rfl, hm₁⟩
  simp only [Heap.stackPush, kassert_of hne, ok_bind, h₁]

/-- A big block goes back to the skip list, at any level. -/
theorem HeapInv.putBig {level : Nat} (hinv : HeapInv lo hi c h) (hk : c a = some k)
    (hbig : numBins < k.size) (hfree : k.free = []) (hlevel : level ≤ skipMaxLevel) :
    ∃ h', (do
        let h ← h.stackPush a (a + bigBinHeaderSize)
        kassert (h.headOf a ≠ 0) "bheader->head != NULL" "alloc.c" 752
        h.skipListInsert a level) = .ok h' ∧
      HeapInv lo hi (Function.update c a (some ⟨k.size, [a + 44]⟩)) h' ∧
        (∀ y, ¬ HeaderByte c y → y < a + 44 ∨ a + 48 ≤ y → h'.mem y = h.mem y) ∧
          h'.brk = h.brk := by
  obtain ⟨h₁, l, hpush, hc₁, hs₁, hl, hnot, hhead, hbrk, hm₁⟩ := hinv.pushBig hk hbig hfree
  have hk₁ : Function.update c a (some ⟨k.size, [a + 44]⟩) a = some ⟨k.size, [a + 44]⟩ :=
    Function.update_self ..
  have hold : ∀ b ∈ l, ∃ k', Function.update c a (some ⟨k.size, [a + 44]⟩) b = some k' ∧
      numBins < k'.size := by
    intro b hb
    rw [Function.update_of_ne fun heq : b = a => hnot (heq ▸ hb)]
    exact hl.big b hb
  have hblock : BlockAt h₁ a := hc₁.blockAt hk₁ hbig
  have hblocks : ∀ b ∈ l, BlockAt h₁ b := by
    intro b hb
    obtain ⟨k', hk', hbig'⟩ := hold b hb
    exact hc₁.blockAt hk' hbig'
  have hsize : h₁.sizeOf a = k.size := (hc₁.stored hk₁).size
  have hne : h₁.headOf a ≠ 0 := by
    rw [hhead]
    omega
  obtain ⟨p, q, rfl, hcut⟩ := hs₁.exists_cut (h₁.sizeOf a)
  obtain ⟨h', hrun, hs', hforward, -⟩ :=
    hs₁.insert hcut hblocks hblock hne (by rw [hsize]; omega) hnot hlevel
  have hmem : ∀ b ∈ a :: (p ++ q), ∃ k',
      Function.update c a (some ⟨k.size, [a + 44]⟩) b = some k' ∧ numBins < k'.size := by
    intro b hb
    rcases List.mem_cons.mp hb with rfl | hb
    · exact ⟨_, hk₁, hbig⟩
    · exact hold b hb
  refine ⟨h', ?_, ⟨hc₁.of_forward hforward hmem, p ++ a :: q, hs', ?_⟩, ?_,
    hforward.brk.trans hbrk⟩
  · simp only [bigBinHeaderSize, hpush, ok_bind, kassert_of hne, hrun]
  · intro b
    by_cases hba : b = a
    · subst hba
      rw [Function.update_self]
      exact iff_of_true (by simp) ⟨_, rfl, hbig, by simp⟩
    · rw [Function.update_of_ne hba, ← hl b]
      simp only [List.mem_append, List.mem_cons, hba, false_or]
  · intro y hy hya
    have hy' : ¬ HeaderByte (Function.update c a (some ⟨k.size, [a + 44]⟩)) y := by
      rintro ⟨b, k', hb, hin⟩
      by_cases hba : b = a
      · subst hba
        rw [Function.update_self] at hb
        cases hb
        exact hy ⟨b, k, hk, hin⟩
      · rw [Function.update_of_ne hba] at hb
        exact hy ⟨b, k', hb, hin⟩
    rw [hforward.mem_eq hmem hy']
    refine hm₁ y ?_ hya
    by_contra hin
    refine hy ⟨a, k, hk, ?_, ?_⟩
    · omega
    · rw [headerSize_of_big hbig]
      omega

end X32PRos
