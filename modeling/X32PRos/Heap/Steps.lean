import X32PRos.Heap.SkipUpdate

/-!
What the stores of one allocation or release do to the heap in memory: a cell
taken from a stack or put back, and a chunk made at the end of the heap. Each
step writes in one chunk only, and the other parts carry over.
-/

namespace X32PRos

open Foundation SkipList

variable {σ : Type} {lo hi : Nat} {c : Chunks} {h h' : Heap σ} {a x : Nat} {k : Chunk}

/-! ### One chunk changes -/

/-- Words of the other chunks. -/
theorem Layout.load_other (hl : Layout lo hi c) (hk : c a = some k) {m m' : Memory}
    (hm : ∀ x, x < a ∨ a + span k.size ≤ x → m' x = m x) {b : Nat} {k' : Chunk}
    (hk' : c b = some k') (hne : b ≠ a) :
    (∀ o, o + 4 ≤ 44 → m'.load32 (b + o) = m.load32 (b + o)) ∧
      ∀ y ∈ k'.free, m'.load32 y = m.load32 y := by
  have hspan := (hl.valid hk').span_ge.1
  have hapart := hl.apart hk' hk hne
  constructor
  · intro o ho
    refine Memory.load32_congr fun x hlo hhi => hm x ?_
    rcases hapart with hle | hle <;> omega
  · intro y hy
    have hbounds := hl.free_bounds hk' hy
    refine Memory.load32_congr fun x hlo hhi => hm x ?_
    rcases hapart with hle | hle <;> omega

/-- Which chunks have a free cell, when the cells of one chunk change. -/
theorem hasFree_update (hk : c a = some k) {free : List Nat} {P : Nat → Prop}
    (hP : P k.size → (free ≠ [] ↔ k.free ≠ [])) (b : Nat) :
    (∃ k', Function.update c a (some ⟨k.size, free⟩) b = some k' ∧ P k'.size ∧ k'.free ≠ []) ↔
      ∃ k', c b = some k' ∧ P k'.size ∧ k'.free ≠ [] := by
  by_cases hba : b = a
  · subst hba
    rw [Function.update_self]
    constructor
    · rintro ⟨k', heq, hp, hne⟩
      cases heq
      exact ⟨k, hk, hp, (hP hp).mp hne⟩
    · rintro ⟨k', heq, hp, hne⟩
      rw [hk] at heq
      cases heq
      exact ⟨_, rfl, hp, (hP hp).mpr hne⟩
  · rw [Function.update_of_ne hba]

/-- A step inside the chunk at `a` that leaves it with other free cells. -/
theorem HeapCore.of_region (hc : HeapCore lo hi c h) (hk : c a = some k) {free : List Nat}
    (hnodup : free.Nodup) (hcells : ∀ x ∈ free, IsCell a k.size x)
    (hm : ∀ x, x < a ∨ a + span k.size ≤ x → h'.mem x = h.mem x)
    (hat : ChunkAt h'.mem a ⟨k.size, free⟩)
    (hhead : ∀ b, b ≠ k.size → h'.binHead b = h.binHead b)
    (hbin : k.size < bigBin →
      ∃ l, BinList (Function.update c a (some ⟨k.size, free⟩)) h' k.size l)
    (hnewest : h'.newestBig = h.newestBig) :
    HeapCore lo hi (Function.update c a (some ⟨k.size, free⟩)) h' := by
  refine ⟨hc.layout.update_free hk hnodup hcells, ?_, ?_, ?_⟩
  · intro b k' hb
    by_cases hba : b = a
    · subst hba
      rw [Function.update_self] at hb
      cases hb
      exact hat
    · rw [Function.update_of_ne hba] at hb
      obtain ⟨hword, hfree⟩ := hc.layout.load_other hk hm hb hba
      exact (hc.stored hb).congr (hword 4 (by decide)) (hword 8 (by decide)) hfree
  · intro b hb
    by_cases hbk : b = k.size
    · subst hbk
      exact hbin hb
    · obtain ⟨l, hl⟩ := hc.bins b hb
      refine ⟨l, hl.congr (hhead b hbk) ?_
        (hasFree_update hk (P := fun s => s = b) fun heq => absurd heq.symm hbk)⟩
      intro p hp
      obtain ⟨k', hk', hsize, -⟩ := (hl.mem p).mp hp
      have hpa : p ≠ a := by
        rintro rfl
        rw [hk] at hk'
        cases hk'
        exact hbk hsize.symm
      exact (hc.layout.load_other hk hm hk' hpa).1 0 (by decide)
  · rw [hnewest]
    apply hc.newest.imp id
    rintro ⟨k', hk', hbig⟩
    by_cases hba : h.newestBig = a
    · rw [hba, Function.update_self]
      rw [hba, hk] at hk'
      cases hk'
      exact ⟨_, rfl, hbig⟩
    · rw [Function.update_of_ne hba]
      exact ⟨k', hk', hbig⟩

/-- The skip list does not notice a step inside another chunk. -/
theorem SkipAt.of_region {l : List Nat} (hs : SkipAt h l) (hl : Layout lo hi c) (hk : c a = some k)
    (hmem : ∀ b ∈ l, b ≠ a ∧ ∃ k', c b = some k')
    (hm : ∀ x, x < a ∨ a + span k.size ≤ x → h'.mem x = h.mem x)
    (hhead : h'.bigHead = h.bigHead) (hlevel : h'.level = h.level)
    (hinserted : h'.inserted = h.inserted) : SkipAt h' l := by
  refine hs.congr (fun i => by rw [hhead]) hlevel (fun b _ => by rw [hinserted]) ?_ ?_
  · intro b hb
    obtain ⟨hne, k', hk'⟩ := hmem b hb
    exact (hl.load_other hk hm hk' hne).1 8 (by decide)
  · intro b hb i hi
    obtain ⟨hne, k', hk'⟩ := hmem b hb
    have hi' : i ≤ 6 := hi
    have hload := (hl.load_other hk hm hk' hne).1 (16 + 4 * i) (by omega)
    rwa [← Nat.add_assoc] at hload

/-! ### The stack of a chunk -/

theorem ChunkAt.head_eq {m : Memory} (hk : ChunkAt m a k) :
    pointer (m.load32 (a + 4)) = k.free.head? := by
  have hstack := hk.stack
  cases hfree : k.free with
  | nil =>
      rw [hfree] at hstack
      exact hstack
  | cons x fs =>
      rw [hfree] at hstack
      exact hstack.1

theorem ChunkAt.head_zero_iff {m : Memory} (hk : ChunkAt m a k) :
    m.load32 (a + 4) = 0 ↔ k.free = [] := by
  rw [← pointer_eq_none, hk.head_eq, List.head?_eq_none_iff]

theorem ChunkAt.head_cons {m : Memory} {fs : List Nat} (hk : ChunkAt m a k)
    (hfree : k.free = x :: fs) : m.load32 (a + 4) = x ∧ x ≠ 0 := by
  have hhead := hk.head_eq
  rw [hfree, List.head?_cons] at hhead
  exact pointer_eq_some.mp hhead

theorem ChunkAt.pop {m m' : Memory} {fs : List Nat} (hk : ChunkAt m a k)
    (hfree : k.free = x :: fs) (hhead : m'.load32 (a + 4) = m.load32 x)
    (hsize : m'.load32 (a + 8) = m.load32 (a + 8)) (hfs : ∀ y ∈ fs, m'.load32 y = m.load32 y) :
    ChunkAt m' a ⟨k.size, fs⟩ := by
  have hstack := hk.stack
  rw [hfree] at hstack
  refine ⟨hsize.trans hk.size, hstack.pop ?_ ?_⟩
  · simp only [Heap.stackNext, hhead]
  · intro y hy
    simp only [Heap.stackNext, hfs y hy]

theorem ChunkAt.push {m : Memory} (m' : Memory) (hk : ChunkAt m a k) (hx : x ≠ 0)
    (hhead : m'.load32 (a + 4) = x) (hlink : m'.load32 x = m.load32 (a + 4))
    (hsize : m'.load32 (a + 8) = m.load32 (a + 8))
    (hfree : ∀ y ∈ k.free, m'.load32 y = m.load32 y) : ChunkAt m' a ⟨k.size, x :: k.free⟩ := by
  refine ⟨hsize.trans hk.size, hk.stack.push ?_ ?_ ?_⟩
  · simp only [Heap.stackNext, hhead, pointer_of_ne hx]
  · simp only [Heap.stackNext, hlink]
  · intro y hy
    simp only [Heap.stackNext, hfree y hy]

/-! ### Small bins -/

theorem span_of_small {size : Nat} (hsmall : size < bigBin) :
    headerSize size = 12 ∧ span size = 4096 := by
  have hnot : ¬ numBins < size := by
    unfold bigBin at hsmall
    omega
  exact ⟨if_neg hnot, if_neg hnot⟩

/-- The first page of a bin is the first of its list. -/
theorem BinList.eq_cons {b : Nat} {l : List Nat} (hl : BinList c h b l) (hfirst : h.binHead b = a)
    (ha : a ≠ 0) : ∃ l', l = a :: l' := by
  have hnext : h.pageNext b none = some a := by
    simp only [Heap.pageNext, hfirst, pointer_of_ne ha]
  have hlink := hl.linked
  cases l with
  | nil => exact absurd (hlink.symm.trans hnext) (by simp)
  | cons a' l' => exact ⟨l', by rw [Option.some.inj (hlink.1.symm.trans hnext)]⟩

/-- A page with no free cell gets one, and leads the list. -/
theorem BinList.push {b : Nat} {l free : List Nat} (hl : BinList c h b l) (hk : c a = some k)
    (hsize : k.size = b) (hfull : k.free = []) (hfree : free ≠ []) (ha : a ≠ 0)
    (hhead : h'.binHead b = a) (hnext : h'.nextOf a = h.binHead b)
    (hother : ∀ p ∈ l, p ≠ a → h'.nextOf p = h.nextOf p) :
    BinList (Function.update c a (some ⟨k.size, free⟩)) h' b (a :: l) := by
  have hnot : a ∉ l := by
    intro hmem
    obtain ⟨k', hk', -, hne⟩ := (hl.mem a).mp hmem
    rw [hk] at hk'
    cases hk'
    exact hne hfull
  refine ⟨hl.linked.push ?_ ?_ ?_, List.nodup_cons.mpr ⟨hnot, hl.nodup⟩, ?_⟩
  · simp only [Heap.pageNext, hhead, pointer_of_ne ha]
  · simp only [Heap.pageNext, hnext]
  · intro p hp
    simp only [Heap.pageNext, hother p hp fun heq => hnot (heq ▸ hp)]
  · intro p
    by_cases hpa : p = a
    · subst hpa
      rw [Function.update_self]
      exact iff_of_true List.mem_cons_self ⟨_, rfl, hsize, hfree⟩
    · rw [Function.update_of_ne hpa, ← hl.mem p, List.mem_cons]
      exact ⟨fun hp => hp.resolve_left hpa, Or.inr⟩

/-- The leading page loses its last free cell, and leaves the list. -/
theorem BinList.pop {b s : Nat} {l : List Nat} (hl : BinList c h b (a :: l))
    (hhead : h'.binHead b = h.nextOf a)
    (hother : ∀ p ∈ l, p ≠ a → h'.nextOf p = h.nextOf p) :
    BinList (Function.update c a (some ⟨s, []⟩)) h' b l := by
  have hnot := List.nodup_cons.mp hl.nodup
  refine ⟨hl.linked.pop ?_ ?_, hnot.2, ?_⟩
  · simp only [Heap.pageNext, hhead]
  · intro p hp
    simp only [Heap.pageNext, hother p hp fun heq => hnot.1 (heq ▸ hp)]
  · intro p
    by_cases hpa : p = a
    · subst hpa
      rw [Function.update_self]
      apply iff_of_false hnot.1
      rintro ⟨k', heq, -, hne⟩
      cases heq
      exact hne rfl
    · rw [Function.update_of_ne hpa, ← hl.mem p, List.mem_cons]
      exact ⟨Or.inr, fun hp => hp.resolve_left hpa⟩

/-- The first page of a bin is an address. -/
theorem HeapCore.binHead_lt (hc : HeapCore lo hi c h) {b : Nat} {l : List Nat}
    (hl : BinList c h b l) : h.binHead b < 2 ^ 32 := by
  have hhead := hl.linked
  cases l with
  | nil =>
      rw [pointer_eq_none.mp hhead]
      decide
  | cons p l =>
      obtain ⟨heq, -⟩ := pointer_eq_some.mp hhead.1
      obtain ⟨k', hk', -⟩ := (hl.mem p).mp List.mem_cons_self
      have hlt := hc.layout.word hk'
      rw [heq]
      omega

/-- A step inside a page of a small bin. -/
theorem HeapInv.of_small (hinv : HeapInv lo hi c h) (hk : c a = some k) (hsmall : k.size < bigBin)
    {free : List Nat} (hnodup : free.Nodup) (hcells : ∀ x ∈ free, IsCell a k.size x)
    (hm : ∀ x, x < a ∨ a + span k.size ≤ x → h'.mem x = h.mem x)
    (hat : ChunkAt h'.mem a ⟨k.size, free⟩)
    (hhead : ∀ b, b ≠ k.size → h'.binHead b = h.binHead b)
    (hbin : ∃ l, BinList (Function.update c a (some ⟨k.size, free⟩)) h' k.size l)
    (hbigHead : h'.bigHead = h.bigHead) (hlevel : h'.level = h.level)
    (hinserted : h'.inserted = h.inserted) (hnewest : h'.newestBig = h.newestBig) :
    HeapInv lo hi (Function.update c a (some ⟨k.size, free⟩)) h' := by
  obtain ⟨hc, l, hs, hbig⟩ := hinv
  have hnotbig : ¬ numBins < k.size := by
    unfold bigBin at hsmall
    omega
  refine ⟨hc.of_region hk hnodup hcells hm hat hhead (fun _ => hbin) hnewest, l,
    hs.of_region hc.layout hk ?_ hm hbigHead hlevel hinserted, ?_⟩
  · intro b hb
    obtain ⟨k', hk', hlt, -⟩ := (hbig b).mp hb
    refine ⟨?_, k', hk'⟩
    rintro rfl
    rw [hk] at hk'
    cases hk'
    exact hnotbig hlt
  · intro b
    exact (hbig b).trans (hasFree_update hk (P := fun s => numBins < s)
      (fun hlt => absurd hlt hnotbig) b).symm

/-- The memory after a cell has been taken. -/
theorem HeapCore.pop_words (hc : HeapCore lo hi c h) (hk : c a = some k) {fs : List Nat}
    (hfree : k.free = x :: fs) :
    (h.set (a + 4) (h.mem.load32 x)).mem.load32 a = h.mem.load32 a ∧
      ChunkAt (h.set (a + 4) (h.mem.load32 x)).mem a ⟨k.size, fs⟩ := by
  have hbounds := fun y (hy : y ∈ k.free) => hc.layout.free_bounds hk hy
  have hheader := headerSize_ge k.size
  constructor
  · exact Memory.load32_store32_of_apart (by omega)
  · refine (hc.stored hk).pop hfree ?_ ?_ ?_
    · exact Memory.load32_store32_self (Memory.load32_lt _ _)
    · exact Memory.load32_store32_of_apart (by omega)
    · intro y hy
      have hy' := hbounds y (by rw [hfree]; exact List.mem_cons_of_mem x hy)
      exact Memory.load32_store32_of_apart (by omega)

theorem HeapCore.stackPop_eq (hc : HeapCore lo hi c h) (hk : c a = some k) {fs : List Nat}
    (hfree : k.free = x :: fs) : h.stackPop a = .ok (x, h.set (a + 4) (h.mem.load32 x)) := by
  obtain ⟨hhead, hx⟩ := (hc.stored hk).head_cons hfree
  have hhead' : h.headOf a = x := hhead
  have hpos : a ≠ 0 := Nat.ne_of_gt (hc.layout.pos hk)
  simp only [Heap.stackPop, kassert_of hpos, hhead', kassert_of hx, ok_bind]

/-- A cell is taken from the first page of its bin. -/
theorem HeapInv.takeSmall (hinv : HeapInv lo hi c h) (hk : c a = some k)
    (hsmall : k.size < bigBin) {fs : List Nat} (hfree : k.free = x :: fs)
    (hfirst : h.binHead k.size = a) :
    ∃ h', (do
        let (item, h) ← h.stackPop a
        .ok (item, if h.stackEmpty a then h.listDecouple k.size a else h)) = .ok (x, h') ∧
      HeapInv lo hi (Function.update c a (some ⟨k.size, fs⟩)) h' ∧
        (∀ y, y < a ∨ a + 12 ≤ y → h'.mem y = h.mem y) ∧ h'.brk = h.brk := by
  have hc := hinv.core
  rw [hc.stackPop_eq hk hfree, ok_bind]
  have hpos : a ≠ 0 := Nat.ne_of_gt (hc.layout.pos hk)
  obtain ⟨hheader, hspan⟩ := span_of_small hsmall
  have hnodup := hc.layout.nodup hk
  rw [hfree] at hnodup
  have hcells : ∀ y ∈ fs, IsCell a k.size y := fun y hy =>
    hc.layout.cells hk (by rw [hfree]; exact List.mem_cons_of_mem x hy)
  obtain ⟨hnext₁, hat₁⟩ := hc.pop_words hk hfree
  obtain ⟨pages, hpages⟩ := hc.bins k.size hsmall
  obtain ⟨pages', rfl⟩ := hpages.eq_cons hfirst hpos
  let h₁ := h.set (a + 4) (h.mem.load32 x)
  have hm₁ : ∀ y, y < a + 4 ∨ a + 8 ≤ y → h₁.mem y = h.mem y := fun y hy =>
    Memory.store32_of_outside hy
  have hempty : h₁.stackEmpty a = decide (fs = []) := decide_eq_decide.mpr hat₁.head_zero_iff
  have hnext : ∀ {m : Memory}, (∀ y, y < a ∨ a + span k.size ≤ y → m y = h.mem y) →
      ∀ p ∈ a :: pages', p ≠ a → m.load32 p = h.mem.load32 p := by
    intro m hm p hp hpa
    obtain ⟨k', hk', -⟩ := (hpages.mem p).mp hp
    exact (hc.layout.load_other hk hm hk' hpa).1 0 (by decide)
  by_cases hfs : fs = []
  · -- the page leaves the list of its bin
    subst hfs
    let h₂ := h₁.listDecouple k.size a
    have hm₂ : ∀ y, y < a ∨ a + 12 ≤ y → h₂.mem y = h.mem y := by
      intro y hy
      rw [← hm₁ y (by omega)]
      exact Memory.store32_of_outside (by omega)
    have hregion : ∀ y, y < a ∨ a + span k.size ≤ y → h₂.mem y = h.mem y :=
      fun y hy => hm₂ y (by omega)
    have hat₂ : ChunkAt h₂.mem a ⟨k.size, []⟩ := by
      refine hat₁.congr ?_ ?_ (by simp)
      · exact Memory.load32_store32_of_apart (by omega)
      · exact Memory.load32_store32_of_apart (by omega)
    refine ⟨h₂, by simp only [h₂, h₁, hempty, decide_true, ite_true],
      hinv.of_small hk hsmall List.nodup_nil hcells hregion hat₂ (fun b hb => if_neg hb)
        ⟨pages', hpages.pop ?_ fun p hp => hnext hregion p (List.mem_cons_of_mem a hp)⟩
        rfl rfl rfl rfl, hm₂, rfl⟩
    simp only [h₂, Heap.listDecouple, ite_true]
    exact hnext₁
  · have hregion : ∀ y, y < a ∨ a + span k.size ≤ y → h₁.mem y = h.mem y :=
      fun y hy => hm₁ y (by omega)
    refine ⟨h₁, by simp only [h₁, hempty, hfs, decide_false, Bool.false_eq_true, ite_false],
      hinv.of_small hk hsmall (List.nodup_cons.mp hnodup).2 hcells hregion hat₁ (fun _ _ => rfl)
        ⟨a :: pages', hpages.congr rfl ?_ (hasFree_update hk (P := fun s => s = k.size)
          fun _ => iff_of_true hfs (by rw [hfree]; simp))⟩ rfl rfl rfl rfl,
      fun y hy => hm₁ y (by omega), rfl⟩
    intro p hp
    by_cases hpa : p = a
    · rw [hpa]
      exact hnext₁
    · exact hnext hregion p hp hpa

/-- The memory after a cell has been put back; the link of the page may have changed. -/
theorem HeapCore.push_words (hc : HeapCore lo hi c h) (hk : c a = some k) (hsmall : k.size < bigBin)
    (hcell : IsCell a k.size x) (hx : x ∉ k.free) {h₁ : Heap σ}
    (hm₁ : ∀ y, y < a ∨ a + 4 ≤ y → h₁.mem y = h.mem y) :
    let h₂ := (h₁.set x (h₁.headOf a)).set (a + 4) x
    h₂.mem.load32 a = h₁.mem.load32 a ∧ ChunkAt h₂.mem a ⟨k.size, x :: k.free⟩ ∧
      ∀ y, y < a ∨ a + 12 ≤ y → y < x ∨ x + 4 ≤ y → h₂.mem y = h.mem y := by
  intro h₂
  obtain ⟨hheader, hspan⟩ := span_of_small hsmall
  have hword := hc.layout.word hk
  have hbounds := hcell.bounds
  have hxword : x < 2 ^ 32 := by omega
  have hhead₁ : h₁.headOf a = h.headOf a :=
    Memory.load32_congr fun y hlo hhi => hm₁ y (by omega)
  have hword₂ : ∀ b, (b + 4 ≤ a + 4 ∨ a + 8 ≤ b) → (b + 4 ≤ x ∨ x + 4 ≤ b) →
      h₂.mem.load32 b = h₁.mem.load32 b := by
    intro b hba hbx
    apply Eq.trans (Memory.load32_store32_of_apart (by omega))
    exact Memory.load32_store32_of_apart (by omega)
  have hold : ∀ b, (b + 4 ≤ a ∨ a + 8 ≤ b) → (b + 4 ≤ x ∨ x + 4 ≤ b) →
      h₂.mem.load32 b = h.mem.load32 b := by
    intro b hba hbx
    apply (hword₂ b (by omega) hbx).trans
    exact Memory.load32_congr fun y hlo hhi => hm₁ y (by omega)
  refine ⟨hword₂ a (by omega) (by omega), ?_, ?_⟩
  · refine ChunkAt.push _ (hc.stored hk) (by omega) (Memory.load32_store32_self hxword) ?_ ?_ ?_
    · apply Eq.trans (Memory.load32_store32_of_apart (by omega))
      exact (Memory.load32_store32_self (Memory.load32_lt _ _)).trans hhead₁
    · exact hold (a + 8) (by omega) (by omega)
    · intro y hy
      have hy' := hc.layout.free_bounds hk hy
      have hapart := hcell.apart (hc.layout.cells hk hy) (fun heq => hx (heq ▸ hy))
      have hcellSize := four_le_cellSize k.size
      exact hold y (by omega) (by omega)
  · intro y hya hyx
    rw [← hm₁ y (by omega), ← Memory.store32_of_outside (m := h₁.mem) (v := h₁.headOf a) hyx]
    exact Memory.store32_of_outside (by omega)

/-- A cell goes back to its page. -/
theorem HeapInv.putSmall (hinv : HeapInv lo hi c h) (hk : c a = some k)
    (hsmall : k.size < bigBin) (hcell : IsCell a k.size x) (hx : x ∉ k.free) :
    ∃ h', (if h.stackEmpty a then h.listInsert k.size a else h).stackPush a x = .ok h' ∧
      HeapInv lo hi (Function.update c a (some ⟨k.size, x :: k.free⟩)) h' ∧
        (∀ y, y < a ∨ a + 12 ≤ y → y < x ∨ x + 4 ≤ y → h'.mem y = h.mem y) ∧ h'.brk = h.brk := by
  have hc := hinv.core
  have hpos := hc.layout.pos hk
  obtain ⟨hheader, hspan⟩ := span_of_small hsmall
  have hbounds := hcell.bounds
  have hcellSize := four_le_cellSize k.size
  obtain ⟨pages, hpages⟩ := hc.bins k.size hsmall
  have hempty : h.stackEmpty a = decide (k.free = []) :=
    decide_eq_decide.mpr (hc.stored hk).head_zero_iff
  -- the page enters the list of its bin if it was full
  let h₁ := if h.stackEmpty a then h.listInsert k.size a else h
  have hm₁ : ∀ y, y < a ∨ a + 4 ≤ y → h₁.mem y = h.mem y := by
    intro y hy
    simp only [h₁]
    split
    · exact Memory.store32_of_outside hy
    · rfl
  have hbin₁ : ∀ b, b ≠ k.size → h₁.binHead b = h.binHead b := by
    intro b hb
    simp only [h₁]
    split
    · exact if_neg hb
    · rfl
  have hrest : h₁.bigHead = h.bigHead ∧ h₁.level = h.level ∧ h₁.inserted = h.inserted ∧
      h₁.newestBig = h.newestBig ∧ h₁.brk = h.brk := by
    simp only [h₁]
    split <;> exact ⟨rfl, rfl, rfl, rfl, rfl⟩
  -- and the cell is stored on its stack
  let h₂ := (h₁.set x (h₁.headOf a)).set (a + 4) x
  have hpush : h₁.stackPush a x = .ok h₂ := by
    have hxpos : x ≠ 0 := by omega
    simp only [Heap.stackPush, kassert_of hxpos, ok_bind, h₂]
  obtain ⟨hlink, hat₂, hm₂⟩ := hc.push_words hk hsmall hcell hx hm₁
  have hregion : ∀ y, y < a ∨ a + span k.size ≤ y → h₂.mem y = h.mem y :=
    fun y hy => hm₂ y (by omega) (by omega)
  have hnext : ∀ p ∈ pages, p ≠ a → h₂.nextOf p = h.nextOf p := by
    intro p hp hpa
    obtain ⟨k', hk', -⟩ := (hpages.mem p).mp hp
    exact (hc.layout.load_other hk hregion hk' hpa).1 0 (by decide)
  refine ⟨h₂, hpush, hinv.of_small hk hsmall (List.nodup_cons.mpr ⟨hx, hc.layout.nodup hk⟩) ?_
    hregion hat₂ hbin₁ ?_ hrest.1 hrest.2.1 hrest.2.2.1 hrest.2.2.2.1, hm₂, hrest.2.2.2.2⟩
  · exact List.forall_mem_cons.mpr ⟨hcell, fun y hy => hc.layout.cells hk hy⟩
  · by_cases hfree : k.free = []
    · have hinsert : h₁ = h.listInsert k.size a := by
        simp only [h₁, hempty, hfree, decide_true, ite_true]
      refine ⟨a :: pages, hpages.push hk rfl hfree (by simp) (Nat.ne_of_gt hpos) ?_ ?_ hnext⟩
      · simp only [h₂, Heap.set, hinsert, Heap.listInsert, ite_true]
      · apply hlink.trans
        rw [hinsert]
        exact Memory.load32_store32_self (hc.binHead_lt hpages)
    · have hsame : h₁ = h := by
        simp only [h₁, hempty, hfree, decide_false, Bool.false_eq_true, ite_false]
      refine ⟨pages, hpages.congr ?_ ?_ (hasFree_update hk (P := fun s => s = k.size)
        fun _ => iff_of_true (by simp) hfree)⟩
      · simp only [h₂, Heap.set, hsame]
      · intro p hp
        by_cases hpa : p = a
        · rw [hpa]
          apply hlink.trans
          rw [hsame]
          rfl
        · exact hnext p hp hpa

end X32PRos
