import X32PRos.Heap.Safety

/-!
What a call does to the chunks of the heap: the size word of a chunk never
changes, and a call makes one more chunk at the end of the heap or none.
-/

namespace X32PRos

open Foundation SkipList

variable {σ : Type} {lo hi : Nat} {c c' : Chunks} {h h' : Heap σ} {E : Sbrk σ} {size a : Nat}
  {k : Chunk}

/-- The chunks are where they were, with the size words they had. -/
def SameSizes (c c' : Chunks) : Prop := ∀ a, (c' a).map Chunk.size = (c a).map Chunk.size

theorem sameSizes_update (hk : c a = some k) (free : List Nat) :
    SameSizes c (Function.update c a (some ⟨k.size, free⟩)) := by
  intro b
  by_cases hb : b = a
  · subst hb
    rw [Function.update_self, hk]
    rfl
  · rw [Function.update_of_ne hb]

theorem SameSizes.exists_size (h : SameSizes c c') (hk : c a = some k) :
    ∃ k', c' a = some k' ∧ k'.size = k.size := by
  have hsize := h a
  rw [hk] at hsize
  obtain ⟨k', hk', heq⟩ := Option.map_eq_some_iff.mp hsize
  exact ⟨k', hk', heq⟩

def chunkSize (size : Nat) : Nat :=
  if klmallocBinSize size < bigBin then klmallocBinSize size else 4096 * bigPages size - 44

/-- The chunks after a call of `klmalloc`, and what it has asked of `sbrk`. -/
inductive Makes (E : Sbrk σ) (size : Nat) (c c' : Chunks) (h h' : Heap σ) : Prop
  | nothing (brk : h'.brk = h.brk) (sizes : SameSizes c c')
  | chunk (call : E.call (span (chunkSize size)) h.brk = .ok (E.heapEnd h.brk, h'.brk))
      (fits : E.heapEnd h'.brk = E.heapEnd h.brk + span (chunkSize size))
      (free : List Nat)
      (sizes : SameSizes (Function.update c (E.heapEnd h.brk) (some ⟨chunkSize size, free⟩)) c')
      (empty : klmallocBinSize size < bigBin → h.binHead (klmallocBinSize size) = 0)

theorem HeapInv.klmalloc_makes_page (hinv : HeapInv lo (E.heapEnd h.brk) c h)
    (hne : size ≠ 0) (hb : klmallocBinSize size < bigBin)
    (hhead : h.binHead (klmallocBinSize size) = 0) {p : Nat}
    (hfit : E.heapEnd h.brk + 4096 < 2 ^ 32) (hrun : h.klmalloc E size = .ok (p, h')) :
    ∃ c', HeapInv lo (E.heapEnd h'.brk) c' h' ∧ Makes E size c c' h h' := by
  have hsize : chunkSize size = klmallocBinSize size := if_pos hb
  obtain ⟨-, hspan⟩ := span_of_small hb
  cases hcall : E.call pageSize h.brk with
  | error e =>
      rw [Heap.klmalloc_newPage_halts hne hb hhead hcall] at hrun
      cases hrun
  | ok r =>
      obtain ⟨address, brk⟩ := r
      obtain ⟨rfl, hend⟩ := E.returns hcall
      have hend' : E.heapEnd brk = E.heapEnd h.brk + 4096 := hend.trans (wordAdd_of_lt hfit)
      obtain ⟨h₁, hrun₁, hinv₁, hhead₁, -, hbrk₁⟩ := hinv.newBin hb hhead hcall hfit
      obtain ⟨fs, hcons⟩ := pageCells_eq_cons (a := E.heapEnd h.brk) hb
      have hk : Function.update c (E.heapEnd h.brk) (some ⟨klmallocBinSize size,
          pageCells (E.heapEnd h.brk) (klmallocBinSize size)⟩) (E.heapEnd h.brk) = some _ :=
        Function.update_self ..
      obtain ⟨h'', hrun', hinv', -, hbrk⟩ := hinv₁.takeSmall hk hb hcons hhead₁
      rw [Heap.klmalloc_newPage hne hb hhead, hrun₁] at hrun
      cases hrun'.symm.trans hrun
      rw [← hbrk₁, ← hbrk] at hcall hend'
      refine ⟨_, by rw [hend']; exact hinv', .chunk ?_ ?_
        (pageCells (E.heapEnd h.brk) (klmallocBinSize size)) ?_ fun _ => hhead⟩
      · rw [hsize, hspan]
        exact hcall
      · rw [hsize, hspan, hend']
      · rw [hsize]
        exact sameSizes_update hk fs

theorem HeapInv.klmalloc_makes_block (hinv : HeapInv lo (E.heapEnd h.brk) c h)
    (hne : size ≠ 0) (hb : ¬ klmallocBinSize size < bigBin)
    (hfind : h.skipListFindbest size = .ok none) {p : Nat}
    (hfit : E.heapEnd h.brk + 4096 * bigPages size < 2 ^ 32)
    (hrun : h.klmalloc E size = .ok (p, h')) :
    ∃ c', HeapInv lo (E.heapEnd h'.brk) c' h' ∧ Makes E size c c' h h' := by
  have hpos := bigPages_pos size
  have hsize : chunkSize size = 4096 * bigPages size - 44 := if_neg hb
  have hspan : span (chunkSize size) = 4096 * bigPages size := by
    rw [hsize, span, if_pos (by unfold numBins; omega)]
    unfold bigBinHeaderSize
    omega
  have hmul : wordMul pageSize (bigPages size) = 4096 * bigPages size := by
    unfold wordMul pageSize
    omega
  cases hcall : E.call (wordMul pageSize (bigPages size)) h.brk with
  | error e =>
      rw [Heap.klmalloc_newBlock_halts hne hb hfind hcall] at hrun
      cases hrun
  | ok r =>
      obtain ⟨address, brk⟩ := r
      obtain ⟨rfl, hend⟩ := E.returns hcall
      rw [hmul, wordAdd_of_lt hfit] at hend
      obtain ⟨h'', hrun', hinv', -, hbrk⟩ := hinv.newBig hcall hpos hfit
      rw [Heap.klmalloc_newBlock hne hb hfind] at hrun
      cases hrun'.symm.trans hrun
      rw [← hbrk, hmul] at hcall
      rw [← hbrk] at hend
      refine ⟨_, by rw [hend]; exact hinv', .chunk ?_ ?_ [] ?_ fun hsmall => absurd hsmall hb⟩
      · rw [hspan]
        exact hcall
      · rw [hspan, hend]
      · rw [hsize]
        exact fun _ => rfl

/-- One more chunk, or none. -/
theorem HeapInv.klmalloc_makes (hinv : HeapInv lo (E.heapEnd h.brk) c h) (hne : size ≠ 0)
    (hfits : MallocFits E size h) {p : Nat}
    (hrun : h.klmalloc E size = .ok (p, h')) :
    ∃ c', HeapInv lo (E.heapEnd h'.brk) c' h' ∧ Makes E size c c' h h' := by
  by_cases hb : klmallocBinSize size < bigBin
  · by_cases hhead : h.binHead (klmallocBinSize size) = 0
    · exact hinv.klmalloc_makes_page hne hb hhead (hfits.page hne hb hhead) hrun
    · obtain ⟨pages, hpages⟩ := hinv.core.bins _ hb
      obtain ⟨pages', rfl⟩ := hpages.eq_cons rfl hhead
      obtain ⟨k, hk, hksize, hfree⟩ := (hpages.mem _).mp List.mem_cons_self
      obtain ⟨x, fs, hcons⟩ := List.exists_cons_of_ne_nil hfree
      rw [Heap.klmalloc_page hne hb hhead] at hrun
      rw [← hksize] at hb
      obtain ⟨h'', hrun', hinv', -, hbrk⟩ := hinv.takeSmall hk hb hcons (by rw [hksize])
      rw [hksize] at hrun'
      cases hrun'.symm.trans hrun
      exact ⟨_, by rw [hbrk]; exact hinv', .nothing hbrk (sameSizes_update hk fs)⟩
  · obtain ⟨l, hs, hfree⟩ := hinv.skip
    obtain ⟨q, r, rfl, hcut⟩ := hs.exists_cut size
    have hfind := hs.findbest_eq hcut (hinv.core.blockAt_of_mem hfree)
    cases r with
    | cons a r =>
        obtain ⟨k, hk, -⟩ := (hfree a).mp (List.mem_append_right q List.mem_cons_self)
        obtain ⟨h'', hrun', hinv', -, hbrk⟩ := hinv.core.takeBig hs hfree hcut hk
        rw [Heap.klmalloc_found hne hb hfind] at hrun
        cases hrun'.symm.trans hrun
        exact ⟨_, by rw [hbrk]; exact hinv', .nothing hbrk (sameSizes_update hk [])⟩
    | nil =>
        have hgrow := hfits.grow (Nat.le_of_not_lt hb) fun a ha => by
          have hmem := hs.onChain_iff.mp ha
          rw [List.append_nil] at hmem
          exact hcut.below a hmem
        have hpages := bigPages_of_lt hgrow
        refine hinv.klmalloc_makes_block hne hb hfind ?_ hrun
        unfold bigBinHeaderSize pageSize at hgrow
        omega

/-! ### `klfree` makes none -/

namespace Heap

theorem setForward_brk (node : BigPtr) (i : Nat) (value : Option Nat) (h : Heap σ) :
    (h.setForward node i value).brk = h.brk := by
  cases node <;> rfl

theorem linkLevel_brk {value i : Nat} {update : Nat → BigPtr}
    (hrun : h.linkLevel value update i = .ok h') : h'.brk = h.brk := by
  unfold linkLevel at hrun
  obtain ⟨next, -, hrun⟩ := bind_eq_ok.mp hrun
  obtain ⟨link, -, hrun⟩ := bind_eq_ok.mp hrun
  obtain ⟨u, -, hrun⟩ := bind_eq_ok.mp hrun
  rw [← Except.ok.inj hrun, setForward_brk, setForward_brk]

theorem linkLevels_brk {value : Nat} {update : Nat → BigPtr} {n : Nat}
    (hrun : linkLevels value update n h = .ok h') : h'.brk = h.brk := by
  induction n generalizing h' with
  | zero => rw [← Except.ok.inj hrun]
  | succ n ih =>
      obtain ⟨h₁, hrun₁, hrun⟩ := bind_eq_ok.mp hrun
      exact (linkLevel_brk hrun).trans (ih hrun₁)

theorem skipListInsert_brk {value level : Nat} (hrun : h.skipListInsert value level = .ok h') :
    h'.brk = h.brk := by
  unfold skipListInsert at hrun
  obtain ⟨-, -, hrun⟩ := bind_eq_ok.mp hrun
  obtain ⟨-, -, hrun⟩ := bind_eq_ok.mp hrun
  obtain ⟨-, -, hrun⟩ := bind_eq_ok.mp hrun
  obtain ⟨-, -, hrun⟩ := bind_eq_ok.mp hrun
  obtain ⟨-, -, hrun⟩ := bind_eq_ok.mp hrun
  obtain ⟨⟨node, update⟩, -, hrun⟩ := bind_eq_ok.mp hrun
  obtain ⟨node', -, hrun⟩ := bind_eq_ok.mp hrun
  split at hrun
  case isTrue =>
    have hlinked := linkLevels_brk hrun
    exact hlinked
  case isFalse => rw [← Except.ok.inj hrun]

theorem stackPush_brk {header p : Nat} (hrun : h.stackPush header p = .ok h') :
    h'.brk = h.brk := by
  unfold stackPush at hrun
  obtain ⟨-, -, hrun⟩ := bind_eq_ok.mp hrun
  rw [← Except.ok.inj hrun]
  rfl

/-- Whatever the heap, `sbrk` is not called. -/
theorem klfree_brk {p level : Nat} (hrun : h.klfree p level = .ok h') : h'.brk = h.brk := by
  unfold klfree at hrun
  split at hrun
  case isTrue => rw [← Except.ok.inj hrun]
  case isFalse =>
    obtain ⟨-, -, hrun⟩ := bind_eq_ok.mp hrun
    dsimp only at hrun
    split at hrun
    case isTrue =>
      obtain ⟨-, -, hrun⟩ := bind_eq_ok.mp hrun
      obtain ⟨-, -, hrun⟩ := bind_eq_ok.mp hrun
      obtain ⟨-, -, hrun⟩ := bind_eq_ok.mp hrun
      obtain ⟨h₁, hpush, hrun⟩ := bind_eq_ok.mp hrun
      obtain ⟨-, -, hrun⟩ := bind_eq_ok.mp hrun
      exact (skipListInsert_brk hrun).trans (stackPush_brk hpush)
    case isFalse =>
      have hpush := stackPush_brk hrun
      split at hpush <;> exact hpush

end Heap

/-- The chunks keep their sizes. -/
theorem HeapInv.klfree_sizes (hinv : HeapInv lo hi c h) {p n level : Nat} (hp : Busy c p n)
    (hlevel : level ≤ skipMaxLevel) (hrun : h.klfree p level = .ok h') :
    ∃ c', HeapInv lo hi c' h' ∧ h'.brk = h.brk ∧ SameSizes c c' := by
  have hc := hinv.core
  obtain ⟨a, k, hk, hcell, hnot, -⟩ := hp
  cases hc.layout.valid hk with
  | inl hsmall =>
      obtain ⟨h'', hrun', hinv', -, hbrk⟩ := hinv.putSmall hk hsmall hcell hnot
      rw [hc.klfree_small hk hcell hsmall] at hrun
      cases hrun'.symm.trans hrun
      exact ⟨_, hinv', hbrk, sameSizes_update hk _⟩
  | inr hlarge =>
      obtain ⟨hbig, -⟩ := hlarge
      have hpa := (isCell_of_big hbig).mp hcell
      subst hpa
      have hfree : k.free = [] := by
        by_contra hne
        rw [hc.layout.free_of_big hk hbig hne] at hnot
        exact hnot List.mem_cons_self
      obtain ⟨h'', hrun', hinv', -, hbrk⟩ := hinv.putBig hk hbig hfree hlevel
      rw [hc.klfree_big hk hbig hfree] at hrun
      cases hrun'.symm.trans hrun
      exact ⟨_, hinv', hbrk, sameSizes_update hk _⟩

/-- The chunk map says nothing that the memory does not say. -/
theorem HeapInv.sizeOf_eq (hinv : HeapInv lo hi c h) {hi' : Nat} (hinv' : HeapInv lo hi' c' h')
    (hsame : SameSizes c c') (hk : c a = some k) : h'.sizeOf a = h.sizeOf a := by
  obtain ⟨k', hk', hsize⟩ := hsame.exists_size hk
  have hold : h.sizeOf a = k.size := (hinv.core.stored hk).size
  have hnew : h'.sizeOf a = k'.size := (hinv'.core.stored hk').size
  rw [hnew, hold, hsize]

namespace Session

variable {s s' s'' : Session σ}

/-- From `s` to `s'` the chunks have kept their sizes, and there may be one more,
for a request of `size` bytes, at the old end of the heap. -/
structure Grows (E : Sbrk σ) (size : Nat) (s s' : Session σ) : Prop where
  sizes : ∀ a ∈ s.chunks, s'.heap.sizeOf a = s.heap.sizeOf a
  growth : s'.chunks = s.chunks ∧ s'.heap.brk = s.heap.brk ∨
    s'.chunks = E.heapEnd s.heap.brk :: s.chunks ∧
      s'.heap.sizeOf (E.heapEnd s.heap.brk) = chunkSize size ∧
      E.call (span (chunkSize size)) s.heap.brk = .ok (E.heapEnd s.heap.brk, s'.heap.brk) ∧
      E.heapEnd s'.heap.brk = E.heapEnd s.heap.brk + span (chunkSize size) ∧
      (klmallocBinSize size < bigBin → s.heap.binHead (klmallocBinSize size) = 0)

def Stays (s s' : Session σ) : Prop :=
  (∀ a ∈ s.chunks, s'.heap.sizeOf a = s.heap.sizeOf a) ∧ s'.chunks = s.chunks ∧
    s'.heap.brk = s.heap.brk

theorem Stays.refl (s : Session σ) : Stays s s := ⟨fun _ _ => rfl, rfl, rfl⟩

theorem Stays.trans (h : Stays s s') (h' : Stays s' s'') : Stays s s'' := by
  obtain ⟨hsizes, hchunks, hbrk⟩ := h
  obtain ⟨hsizes', hchunks', hbrk'⟩ := h'
  refine ⟨?_, hchunks'.trans hchunks, hbrk'.trans hbrk⟩
  intro a ha
  rw [hsizes' a (hchunks ▸ ha), hsizes a ha]

theorem Stays.grows (h : Stays s s') (size : Nat) : Grows E size s s' :=
  ⟨h.1, Or.inl h.2⟩

theorem Grows.trans_stays (h : Grows E size s s') (h' : Stays s' s'') :
    Grows E size s s'' := by
  obtain ⟨hsizes', hchunks', hbrk'⟩ := h'
  have hsub : ∀ a ∈ s.chunks, a ∈ s'.chunks := by
    intro a ha
    cases h.growth with
    | inl hsame => exact hsame.1.symm ▸ ha
    | inr hmore =>
        rw [hmore.1]
        exact List.mem_cons_of_mem _ ha
  refine ⟨fun a ha => (hsizes' a (hsub a ha)).trans (h.sizes a ha), ?_⟩
  rw [hchunks', hbrk']
  apply h.growth.imp id
  rintro ⟨hchunks, hsize, hrest⟩
  refine ⟨hchunks, ?_, hrest⟩
  rw [hsizes' _ (by rw [hchunks]; exact List.mem_cons_self), hsize]

/-! ### Single calls -/

theorem Inv.malloc_grows (hinv : Inv E lo c s)
    (hfits : MallocFits E size s.heap) (hstep : s.step E (.malloc size) = .ok s') :
    Grows E size s s' := by
  simp only [Session.step] at hstep
  obtain ⟨⟨p, h'⟩, hrun, hstep⟩ := bind_eq_ok.mp hstep
  dsimp only at hstep
  rw [← Except.ok.inj hstep]
  by_cases hne : size = 0
  · subst hne
    cases hrun
    exact ⟨fun _ _ => rfl, Or.inl ⟨if_pos rfl, rfl⟩⟩
  have hchunk : ∀ a ∈ s.chunks, ∃ k, c a = some k := fun a ha => (hinv.chunks a).mp ha
  obtain ⟨c', hinv', hmakes⟩ := hinv.heap.klmalloc_makes hne hfits hrun
  cases hmakes with
  | nothing hbrk hsizes =>
      refine ⟨?_, Or.inl ⟨if_pos (congrArg E.heapEnd hbrk), hbrk⟩⟩
      intro a ha
      obtain ⟨k, hk⟩ := hchunk a ha
      exact hinv.heap.sizeOf_eq hinv' hsizes hk
  | chunk hcall hend free hsizes hempty =>
      have hl := hinv.heap.core.layout
      have hnew : Function.update c (E.heapEnd s.heap.brk) (some ⟨chunkSize size, free⟩)
          (E.heapEnd s.heap.brk) = some _ := Function.update_self ..
      obtain ⟨k', hk', hksize⟩ := hsizes.exists_size hnew
      have hspan := (hinv'.core.layout.valid hk').span_ge.1
      dsimp only at hksize
      rw [hksize] at hspan
      refine ⟨?_, Or.inr ⟨if_neg (by omega), ?_, hcall, hend, hempty⟩⟩
      · intro a ha
        obtain ⟨k, hk⟩ := hchunk a ha
        have hne : a ≠ E.heapEnd s.heap.brk := by
          have hspan' := (hl.valid hk).span_ge.1
          have hwithin := (hl.within hk).2
          omega
        obtain ⟨k'', hk'', hsize⟩ :=
          hsizes.exists_size ((Function.update_of_ne hne ..).trans hk)
        have hold : s.heap.sizeOf a = k.size := (hinv.heap.core.stored hk).size
        exact ((hinv'.core.stored hk'').size.trans hsize).trans hold.symm
      · exact (hinv'.core.stored hk').size.trans hksize

theorem Inv.free_stays (hinv : Inv E lo c s) {ptr level : Nat}
    (hptr : ptr = 0 ∨ ∃ b ∈ s.live, b.base = ptr) (hlevel : level ≤ skipMaxLevel)
    (hstep : s.step E (.free ptr level) = .ok s') : Stays s s' := by
  simp only [Session.step] at hstep
  obtain ⟨h', hrun, hstep⟩ := bind_eq_ok.mp hstep
  rw [← Except.ok.inj hstep]
  by_cases hne : ptr = 0
  · subst hne
    cases hrun
    exact Stays.refl _
  obtain ⟨b, hb, rfl⟩ := hptr.resolve_left hne
  obtain ⟨n, -, hbusy⟩ := hinv.live b hb
  obtain ⟨c', hinv', hbrk, hsizes⟩ := hinv.heap.klfree_sizes hbusy hlevel hrun
  refine ⟨?_, rfl, hbrk⟩
  intro a ha
  obtain ⟨k, hk⟩ := (hinv.chunks a).mp ha
  exact hinv.heap.sizeOf_eq hinv' hsizes hk

/-- Stores into a live block. -/
theorem Inv.store (hinv : Inv E lo c s) {m : Memory} {x n : Nat} (hx : Busy c x n)
    (hm : ∀ y, y < x ∨ x + n ≤ y → m y = s.heap.mem y) :
    Inv E lo c { s with heap := { s.heap with mem := m } } ∧
      Stays s { s with heap := { s.heap with mem := m } } := by
  have hl := hinv.heap.core.layout
  have hinv' : HeapInv lo (E.heapEnd s.heap.brk) c { s.heap with mem := m } := by
    refine hinv.heap.of_agree fun y hmeta => hm y ?_
    by_contra hin
    exact hx.not_metadata hl (by omega) (by omega) hmeta
  refine ⟨⟨hinv', hinv.chunks, hinv.nodup, hinv.live, hinv.busy⟩, ?_, rfl, rfl⟩
  intro a ha
  obtain ⟨k, hk⟩ := (hinv.chunks a).mp ha
  exact hinv.heap.sizeOf_eq hinv' (fun _ => rfl) hk

end Session

end X32PRos
