import X32PRos.Heap.Release

/-!
`klfree` and the bytes of other blocks: where two heaps differ in one cell only,
they still differ in that cell only after a block was freed in both.
-/

namespace X32PRos

open Foundation SkipList

variable {σ : Type}

/-- The heaps differ in the `n` bytes at `q`, if at all. -/
structure SameOutside (q n : Nat) (h h' : Heap σ) : Prop where
  mem : ∀ y, y < q ∨ q + n ≤ y → h'.mem y = h.mem y
  binHead : h'.binHead = h.binHead
  bigHead : h'.bigHead = h.bigHead
  level : h'.level = h.level
  newestBig : h'.newestBig = h.newestBig
  brk : h'.brk = h.brk
  inserted : h'.inserted = h.inserted

namespace SameOutside

variable {q n a v : Nat} {h h' h₁ h₁' : Heap σ}

theorem load (hs : SameOutside q n h h') (ha : a + 4 ≤ q ∨ q + n ≤ a) :
    h'.mem.load32 a = h.mem.load32 a :=
  Memory.load32_congr fun y hlo hhi => hs.mem y (by omega)

theorem set (hs : SameOutside q n h h') (a v : Nat) : SameOutside q n (h.set a v) (h'.set a v) := by
  refine ⟨?_, hs.binHead, hs.bigHead, hs.level, hs.newestBig, hs.brk, hs.inserted⟩
  intro y hy
  simp only [Heap.set, Memory.store32, hs.mem y hy]

theorem setForward (hs : SameOutside q n h h') (u : Heap.BigPtr) (i : Nat) (x : Option Nat) :
    SameOutside q n (h.setForward u i x) (h'.setForward u i x) := by
  cases u with
  | none =>
      refine ⟨hs.mem, hs.binHead, ?_, hs.level, hs.newestBig, hs.brk, hs.inserted⟩
      simp only [Heap.setForward, hs.bigHead]
  | some a => exact hs.set _ _

theorem readForward (hs : SameOutside q n h h') {u : Heap.BigPtr} {i : Nat}
    (hu : ∀ a, u = some a → a + 44 ≤ q ∨ q + n ≤ a) (hi : i ≤ skipMaxLevel) :
    h'.readForward u i = h.readForward u i := by
  cases u with
  | none => simp only [Heap.readForward, hs.bigHead]
  | some a =>
      have hi' : i ≤ 6 := hi
      have hout := hu a rfl
      have hload : h'.forwardOf a i = h.forwardOf a i := hs.load (by omega)
      simp only [Heap.readForward, hs.inserted, hload]

theorem listInsert (hs : SameOutside q n h h') (b a : Nat) :
    SameOutside q n (h.listInsert b a) (h'.listInsert b a) := by
  have hset := hs.set a (h.binHead b)
  unfold Heap.listInsert
  rw [hs.binHead]
  exact ⟨hset.mem, rfl, hset.bigHead, hset.level, hset.newestBig, hset.brk, hset.inserted⟩

theorem stackPush (hs : SameOutside q n h h') {x : Nat} (ha : a + 8 ≤ q ∨ q + n ≤ a)
    (hrun : h.stackPush a x = .ok h₁) (hrun' : h'.stackPush a x = .ok h₁') :
    SameOutside q n h₁ h₁' := by
  have hhead : h'.headOf a = h.headOf a := hs.load (by omega)
  obtain ⟨_, _, hrun⟩ := bind_eq_ok.mp hrun
  obtain ⟨_, _, hrun'⟩ := bind_eq_ok.mp hrun'
  cases hrun
  cases hrun'
  rw [hhead]
  exact (hs.set _ _).set _ _

/-- One level: what is linked in there is the same in both. -/
theorem linkLevel (hs : SameOutside q n h h') {update : Nat → Heap.BigPtr} {i : Nat}
    (hi : i ≤ skipMaxLevel) (hu : ∀ a, update i = some a → a + 44 ≤ q ∨ q + n ≤ a)
    (hrun : h.linkLevel v update i = .ok h₁) (hrun' : h'.linkLevel v update i = .ok h₁') :
    SameOutside q n h₁ h₁' := by
  unfold Heap.linkLevel at hrun hrun'
  rw [hs.readForward hu hi] at hrun'
  obtain ⟨next, hnext, hrun⟩ := bind_eq_ok.mp hrun
  obtain ⟨next', hnext', hrun'⟩ := bind_eq_ok.mp hrun'
  rw [hnext] at hnext'
  cases hnext'
  obtain ⟨_, _, hrun⟩ := bind_eq_ok.mp hrun
  obtain ⟨_, _, hrun⟩ := bind_eq_ok.mp hrun
  obtain ⟨_, _, hrun'⟩ := bind_eq_ok.mp hrun'
  obtain ⟨_, _, hrun'⟩ := bind_eq_ok.mp hrun'
  cases hrun
  cases hrun'
  exact (hs.setForward _ _ _).setForward _ _ _

theorem linkLevels {update : Nat → Heap.BigPtr} {levels : Nat} (hs : SameOutside q n h h')
    (hlevels : levels ≤ skipMaxLevel + 1)
    (hu : ∀ i < levels, ∀ a, update i = some a → a + 44 ≤ q ∨ q + n ≤ a)
    (hrun : h.linkLevels v update levels = .ok h₁)
    (hrun' : h'.linkLevels v update levels = .ok h₁') : SameOutside q n h₁ h₁' := by
  induction levels generalizing h₁ h₁' with
  | zero =>
      cases hrun
      cases hrun'
      exact hs
  | succ i ih =>
      obtain ⟨h₂, hrun₂, hrun⟩ := bind_eq_ok.mp hrun
      obtain ⟨h₂', hrun₂', hrun'⟩ := bind_eq_ok.mp hrun'
      have hs₂ := ih (Nat.le_of_succ_le hlevels)
        (fun j hj => hu j (Nat.lt_succ_of_lt hj)) hrun₂ hrun₂'
      exact hs₂.linkLevel (Nat.le_of_succ_le_succ hlevels) (hu i (Nat.lt_succ_self i)) hrun hrun'

theorem raised (hs : SameOutside q n h h') (v level : Nat) :
    SameOutside q n (h.raised v level) (h'.raised v level) := by
  refine ⟨hs.mem, hs.binHead, hs.bigHead, ?_, hs.newestBig, hs.brk, ?_⟩
  · simp only [Heap.raised, hs.level]
  · simp only [Heap.raised, hs.inserted]

/-- The skip list does not notice the difference. -/
theorem skipAt (hs : SameOutside q n h h') {l : List Nat} (hl : SkipAt h l)
    (hout : ∀ a ∈ l, a + 44 ≤ q ∨ q + n ≤ a) : SkipAt h' l := by
  refine hl.congr (fun i => by rw [hs.bigHead]) hs.level (fun a _ => by rw [hs.inserted]) ?_ ?_
  · intro a ha
    have h := hout a ha
    exact hs.load (by omega)
  · intro a ha i hi
    have hi' : i ≤ 6 := hi
    have h := hout a ha
    exact hs.load (by omega)

theorem skipListInsert (hs : SameOutside q n h h') {l : List Nat} {level : Nat} (hl : SkipAt h l)
    (hblocks : ∀ a ∈ l, BlockAt h a) (hv : BlockAt h v) (hhead : h.headOf v ≠ 0)
    (hsize : h.sizeOf v ≠ 0) (hfresh : v ∉ l) (hlevel : level ≤ skipMaxLevel)
    (hout : ∀ a ∈ v :: l, a + 44 ≤ q ∨ q + n ≤ a)
    (hrun : h.skipListInsert v level = .ok h₁) (hrun' : h'.skipListInsert v level = .ok h₁') :
    SameOutside q n h₁ h₁' := by
  have hsizes : ∀ a ∈ v :: l, h'.sizeOf a = h.sizeOf a := by
    intro a ha
    have h := hout a ha
    exact hs.load (by omega)
  have hheads : h'.headOf v = h.headOf v := by
    have h := hout v List.mem_cons_self
    exact hs.load (by omega)
  have hblocks' : ∀ a ∈ v :: l, BlockAt h' a := by
    intro a ha
    have hb : BlockAt h a := (List.mem_cons.mp ha).elim (fun heq => heq ▸ hv) (hblocks a)
    exact ⟨hb.ne_zero, hb.word, hb.page, by rw [hsizes a ha]; exact hb.pages⟩
  have hsizev := hsizes v List.mem_cons_self
  have hl' := hs.skipAt hl fun a ha => hout a (List.mem_cons_of_mem v ha)
  obtain ⟨p, r, rfl, hcut⟩ := hl.exists_cut (h.sizeOf v)
  have hkey : ∀ a ∈ p ++ r, h'.sizeKey a = h.sizeKey a := by
    intro a ha
    rw [Heap.sizeKey, hsizes a (List.mem_cons_of_mem v ha)]
    rfl
  have hcut' : CutAt h' (h'.sizeOf v) p r := by
    rw [hsizev]
    constructor
    · intro a ha
      rw [hkey a (List.mem_append_left r ha)]
      exact hcut.below a ha
    · intro a ha
      rw [hkey a (List.mem_append_right p ha)]
      exact hcut.above a ha
  rw [hl.skipListInsert_eq hcut hblocks hv hhead hsize hfresh] at hrun
  rw [hl'.skipListInsert_eq hcut' (fun a ha => hblocks' a (List.mem_cons_of_mem v ha))
    (hblocks' v List.mem_cons_self) (by rw [hheads]; exact hhead) (by rw [hsizev]; exact hsize)
    hfresh, hs.inserted] at hrun'
  refine (hs.raised v level).linkLevels (Nat.succ_le_succ hlevel) ?_ hrun hrun'
  intro i _ a ha
  have hmem := (mem_atLevel.mp (mem_of_tip_eq ha)).1
  exact hout a (List.mem_cons_of_mem v (List.mem_append_left r hmem))

end SameOutside

/-- Freeing another block keeps the difference where it is. -/
theorem HeapInv.klfree_sameOutside {lo hi : Nat} {c : Chunks} {h h' h₁ h₁' : Heap σ}
    (hinv : HeapInv lo hi c h) (hinv' : HeapInv lo hi c h') {p q n m level : Nat} (hp : Busy c p m)
    (hq : Busy c q n) (hs : SameOutside q n h h') (hlevel : level ≤ skipMaxLevel)
    (hrun : h.klfree p level = .ok h₁) (hrun' : h'.klfree p level = .ok h₁') :
    SameOutside q n h₁ h₁' := by
  have hc := hinv.core
  have hl := hc.layout
  obtain ⟨a, k, hk, hcell, hnot, -⟩ := hp
  have hheader := headerSize_ge k.size
  have hapart := hq.apart_header hl hk
  rcases hl.valid hk with hsmall | ⟨hbig, -⟩
  · rw [hc.klfree_small hk hcell hsmall] at hrun
    rw [hinv'.core.klfree_small hk hcell hsmall] at hrun'
    have hhead : h'.headOf a = h.headOf a := hs.load (by omega)
    have hempty : h'.stackEmpty a = h.stackEmpty a := by
      simp only [Heap.stackEmpty, hhead]
    rw [hempty] at hrun'
    by_cases hfull : h.stackEmpty a
    · rw [if_pos hfull] at hrun hrun'
      exact (hs.listInsert k.size a).stackPush (by omega) hrun hrun'
    · rw [if_neg hfull] at hrun hrun'
      exact hs.stackPush (by omega) hrun hrun'
  · have hpa := (isCell_of_big hbig).mp hcell
    subst hpa
    have hfree : k.free = [] := by
      by_contra hne
      rw [hl.free_of_big hk hbig hne] at hnot
      exact hnot List.mem_cons_self
    rw [headerSize_of_big hbig] at hapart
    rw [hc.klfree_big hk hbig hfree] at hrun
    rw [hinv'.core.klfree_big hk hbig hfree] at hrun'
    obtain ⟨h₂, l, hpush, hc₂, hs₂, hfreeBig, hfresh, hhead₂, -, -⟩ := hinv.pushBig hk hbig hfree
    have hk₂ : Function.update c a (some ⟨k.size, [a + 44]⟩) a = some ⟨k.size, [a + 44]⟩ :=
      Function.update_self ..
    obtain ⟨h₂', hpush', hrun'⟩ := bind_eq_ok.mp hrun'
    obtain ⟨h₃, hpush₃, hrun⟩ := bind_eq_ok.mp hrun
    rw [show h.stackPush a (a + bigBinHeaderSize) = .ok h₂ from hpush] at hpush₃
    cases hpush₃
    have hs' := hs.stackPush (by omega) hpush hpush'
    obtain ⟨_, _, hrun⟩ := bind_eq_ok.mp hrun
    obtain ⟨_, _, hrun'⟩ := bind_eq_ok.mp hrun'
    have hsize : h₂.sizeOf a = k.size := (hc₂.stored hk₂).size
    refine hs'.skipListInsert hs₂ ?_ (hc₂.blockAt hk₂ hbig) (by rw [hhead₂]; omega)
      (by rw [hsize]; omega) hfresh hlevel ?_ hrun hrun'
    · intro b hb
      obtain ⟨k', hk', hbig'⟩ := hfreeBig.big b hb
      have hba : b ≠ a := fun heq => hfresh (heq ▸ hb)
      refine hc₂.blockAt (k := k') ?_ hbig'
      rw [Function.update_of_ne hba]
      exact hk'
    · intro b hb
      rcases List.mem_cons.mp hb with rfl | hb
      · exact hapart.symm
      · obtain ⟨k', hk', hbig'⟩ := hfreeBig.big b hb
        have hout := hq.apart_header hl hk'
        rw [headerSize_of_big hbig'] at hout
        exact hout.symm

end X32PRos
