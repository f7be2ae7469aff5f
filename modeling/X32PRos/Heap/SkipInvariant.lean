import X32PRos.Heap.Safety

/-!
The skip list of free big blocks in every session: its chains, its level, and
that no search reads a pointer that was never written.
-/

namespace X32PRos

open Foundation SkipList

variable {σ : Type}

namespace Session

/-- `chain i` are the blocks of level `i`. Sizes are ordered as `size_t` orders
them, and a big block is free if no live block is in it. -/
structure SkipListOk (s : Session σ) (chain : Nat → List Nat) : Prop where
  linked : ∀ i ≤ skipMaxLevel, Linked (s.heap.skipNext i) none (chain i)
  sorted : (chain 0).Pairwise fun a b => signed (s.heap.sizeOf a) ≤ signed (s.heap.sizeOf b)
  once : (chain 0).Nodup
  free : ∀ a, a ∈ chain 0 ↔ a ∈ s.chunks ∧ numBins < s.heap.sizeOf a ∧
    ∀ b ∈ s.live, b.base ≠ a + bigBinHeaderSize
  sublist : ∀ i < skipMaxLevel, (chain (i + 1)).Sublist (chain i)
  height : ∀ i ≤ skipMaxLevel, ∀ a, a ∈ chain i ↔ a ∈ chain 0 ∧ i ≤ s.heap.inserted a
  above : ∀ i ≤ skipMaxLevel, s.heap.level < i → s.heap.bigHead i = 0
  level : s.heap.level ≤ skipMaxLevel ∧ (s.heap.level = 0 ∨ s.heap.bigHead s.heap.level ≠ 0)

variable {E : Sbrk σ} {lo : Nat} {c : Chunks} {s : Session σ}

/-- A big block has a free cell as long as its cell is nobody's. -/
theorem Inv.free_big_iff (hinv : Inv E lo c s) (a : Nat) :
    (∃ k, c a = some k ∧ numBins < k.size ∧ k.free ≠ []) ↔
      a ∈ s.chunks ∧ numBins < s.heap.sizeOf a ∧ ∀ b ∈ s.live, b.base ≠ a + bigBinHeaderSize := by
  have hl := hinv.heap.core.layout
  constructor
  · rintro ⟨k, hk, hbig, hne⟩
    have hsize : s.heap.sizeOf a = k.size := (hinv.heap.core.stored hk).size
    refine ⟨(hinv.chunks a).mpr ⟨k, hk⟩, by rw [hsize]; exact hbig, ?_⟩
    intro b hb heq
    obtain ⟨n, -, a', k', hk', hcell, hnot, -⟩ := hinv.live b hb
    rw [heq] at hcell hnot
    have haa := hl.chunk_unique hk hk' ((isCell_of_big hbig).mpr rfl) hcell
    subst haa
    rw [hk] at hk'
    cases hk'
    rw [hl.free_of_big hk hbig hne] at hnot
    exact hnot List.mem_cons_self
  · rintro ⟨ha, hbig, hlive⟩
    obtain ⟨k, hk⟩ := (hinv.chunks a).mp ha
    have hsize : s.heap.sizeOf a = k.size := (hinv.heap.core.stored hk).size
    rw [hsize] at hbig
    refine ⟨k, hk, hbig, ?_⟩
    intro hfree
    have hbusy : Busy c (a + 44) (cellSize k.size) :=
      ⟨a, k, hk, (isCell_of_big hbig).mpr rfl, by simp [hfree], rfl⟩
    obtain ⟨b, hb, heq⟩ := hinv.busy _ _ hbusy
    exact hlive b hb heq

theorem Inv.skipListOk (hinv : Inv E lo c s) :
    ∃ l, SkipListOk s fun i => atLevel s.heap.inserted i l := by
  obtain ⟨l, hs, hfree⟩ := hinv.heap.skip
  refine ⟨l, ⟨hs.represents.linked, ?_, ?_, ?_, fun i _ => atLevel_succ_sublist _, ?_, ?_,
    hs.level_le, ?_⟩⟩
  · rw [atLevel_zero]
    exact hs.represents.sorted
  · rw [atLevel_zero]
    exact hs.represents.nodup
  · intro a
    rw [atLevel_zero, hfree a]
    exact hinv.free_big_iff a
  · intro i _ a
    rw [atLevel_zero, mem_atLevel]
  · -- a level above the top one has no blocks
    intro i hi hlt
    have hnil : atLevel s.heap.inserted i l = [] :=
      atLevel_eq_nil fun a ha => Nat.lt_of_le_of_lt (hs.level.bound a ha) hlt
    have hlink := hs.represents.linked i hi
    rw [hnil] at hlink
    exact pointer_eq_none.mp hlink
  · apply hs.level.used.imp id
    rintro ⟨a, ha, heq⟩ hzero
    have hlink := hs.represents.linked s.heap.level hs.level_le
    have hmem : a ∈ atLevel s.heap.inserted s.heap.level l :=
      mem_atLevel.mpr ⟨ha, Nat.le_of_eq heq.symm⟩
    have hnil := hlink.unique (show Linked _ none [] from pointer_eq_none.mpr hzero)
    rw [hnil] at hmem
    cases hmem

/-- The calls of such callers stop in `sbrk` only. -/
theorem Inv.step_halts (hinv : Inv E lo c s) {o : HeapOp} (hrequest : s.Request o) {e : Fault}
    (herr : s.step E o = .error e) :
    ∃ increment, pageSize ∣ increment ∧ E.call increment s.heap.brk = .error e := by
  cases o with
  | malloc size =>
      obtain ⟨-, hsize⟩ := hrequest
      cases hrun : s.heap.klmalloc E size with
      | error e' =>
          simp only [Session.step, hrun, error_bind] at herr
          cases herr
          exact hinv.heap.klmalloc_halts (by omega) hrun
      | ok r =>
          simp only [Session.step, hrun, ok_bind] at herr
          cases herr
  | free ptr level =>
      obtain ⟨s', hrun, -⟩ := hinv.free hrequest.1 hrequest.2
      rw [hrun] at herr
      cases herr
  | write address value => cases herr

/-- After every call the skip list is as it should be, and no call reads a
`forward` pointer above the level its block was inserted with. -/
theorem skipList_ok (E : Sbrk σ) (mem : Memory) (brk : σ) (hpos : 0 < E.heapEnd brk)
    (hpage : pageSize ∣ E.heapEnd brk) (hlt : E.heapEnd brk < 2 ^ 32)
    (hsbrk : ∀ increment b, E.call increment b ≠ .error .uninitialised) {s : Session σ}
    (hserved : Served E mem brk s) :
    (∃ chain, SkipListOk s chain) ∧
      ∀ o, s.Request o → s.step E o ≠ .error .uninitialised := by
  obtain ⟨c, hinv⟩ := hserved.inv hpos hpage hlt
  obtain ⟨l, hl⟩ := hinv.skipListOk
  refine ⟨⟨_, hl⟩, ?_⟩
  intro o hrequest herr
  obtain ⟨increment, -, hcall⟩ := hinv.step_halts hrequest herr
  exact hsbrk increment _ hcall

theorem skipList_ok_bump : ∃ s : Session Nat, s.live = [⟨0x10204C, 64⟩, ⟨0x10200C, 64⟩] ∧ s.chunks = [0x102000, 0x100000] ∧
    (∃ chain, SkipListOk s chain) ∧
      ∀ o, s.Request o → s.step Sbrk.bump o ≠ .error .uninitialised := by
  obtain ⟨s, hserved, hlive, hchunks, -⟩ := exists_served_bump
  exact ⟨s, hlive, hchunks, skipList_ok Sbrk.bump (fun _ => 0) 0x100000 (by decide) (by decide) (by decide)
    (fun _ _ herr => by cases herr) hserved⟩

end Session

end X32PRos
