import X32PRos.Heap.SkipInvariant

/-!
No assertion fires: in every session a call stops in `sbrk` or not at all, what
`sbrk` is asked for are pages, and the blocks are as the assertions have them.
-/

namespace X32PRos

open Foundation SkipList

variable {σ : Type}

/-- `sbrk` with the assertion it begins with. -/
def Sbrk.asserting (E : Sbrk σ) : Sbrk σ where
  heapEnd := E.heapEnd
  call increment s :=
    match kassert (increment % 0x1000 = 0) "increment % 0x1000 == 0" "mem.c" 253 with
    | .error e => .error e
    | .ok () => E.call increment s
  returns {increment s address s'} h := by
    by_cases hassert : increment % 0x1000 = 0
    · rw [kassert_of hassert] at h
      exact E.returns h
    · simp only [kassert, if_neg hassert, reduceCtorEq] at h

theorem Sbrk.asserting_call (E : Sbrk σ) {increment : Nat} (h : pageSize ∣ increment) (s : σ) :
    E.asserting.call increment s = E.call increment s := by
  have hassert : increment % 0x1000 = 0 := Nat.mod_eq_zero_of_dvd h
  simp only [Sbrk.asserting, kassert_of hassert]

namespace Heap

variable (E : Sbrk σ)

theorem newBin_asserting (b : Nat) (h : Heap σ) : h.newBin E.asserting b = h.newBin E b := by
  simp only [newBin, E.asserting_call (Nat.dvd_refl pageSize)]

theorem newBig_asserting (size : Nat) (h : Heap σ) :
    h.newBig E.asserting size = h.newBig E size := by
  simp only [newBig, E.asserting_call (dvd_wordMul_pageSize _)]

/-- The assertion of `sbrk` makes no difference to `klmalloc`. -/
theorem klmalloc_asserting (size : Nat) (h : Heap σ) :
    h.klmalloc E.asserting size = h.klmalloc E size := by
  simp only [klmalloc, newBin_asserting, newBig_asserting]

end Heap

namespace Session

/-- No assertion on the way of a call fires. -/
structure NoAssertFires (E : Sbrk σ) (s : Session σ) (o : HeapOp) : Prop where
  /-- a call that stops does so behind the assertion of `sbrk` -/
  halts : ∀ e, s.step E o = .error e →
    ∃ increment, pageSize ∣ increment ∧ E.call increment s.heap.brk = .error e
  sbrk : s.step E.asserting o = s.step E o

structure ListedOk (s : Session σ) (a : Nat) : Prop where
  aligned : a % pageSize = 0
  pages : (s.heap.sizeOf a + bigBinHeaderSize) % pageSize = 0
  head : s.heap.headOf a ≠ 0

variable {E : Sbrk σ} {lo : Nat} {c : Chunks} {s : Session σ}

theorem step_asserting (E : Sbrk σ) (s : Session σ) (o : HeapOp) :
    s.step E.asserting o = s.step E o := by
  cases o with
  | malloc size =>
      simp only [step, Heap.klmalloc_asserting]
      rfl
  | free ptr level => rfl
  | write address value => rfl

theorem Inv.noAssertFires (hinv : Inv E lo c s) {o : HeapOp} (hrequest : s.Request o) :
    NoAssertFires E s o :=
  ⟨fun _ herr => hinv.step_halts hrequest herr, step_asserting E s o⟩

theorem Inv.listedOk (hinv : Inv E lo c s) {a : Nat} (ha : a ∈ s.chunks)
    (hbig : numBins < s.heap.sizeOf a) (hlive : ∀ b ∈ s.live, b.base ≠ a + bigBinHeaderSize) :
    ListedOk s a := by
  have hc := hinv.heap.core
  obtain ⟨k, hk, hlarge, hne⟩ := (hinv.free_big_iff a).mpr ⟨ha, hbig, hlive⟩
  have hblock := hc.blockAt hk hlarge
  refine ⟨hblock.page, ?_, fun hzero => hne ((hc.stored hk).head_zero_iff.mp hzero)⟩
  have hpages := hblock.pages
  unfold wordAdd pageSize at hpages
  unfold pageSize
  omega

/-- The head of a big block that is live is NULL, whatever has been stored in the block. -/
theorem Inv.live_head (hinv : Inv E lo c s) {b : Region} (hb : b ∈ s.live)
    (hbig : numBins < s.heap.sizeOf (pageBase b.base)) : s.heap.headOf (pageBase b.base) = 0 := by
  have hc := hinv.heap.core
  obtain ⟨n, -, a, k, hk, hcell, hnot, -⟩ := hinv.live b hb
  have hsize : s.heap.sizeOf a = k.size := (hc.stored hk).size
  rw [hc.layout.pageBase_cell hk hcell] at hbig ⊢
  rw [hsize] at hbig
  apply (hc.stored hk).head_zero_iff.mpr
  by_contra hne
  rw [hc.layout.free_of_big hk hbig hne, (isCell_of_big hbig).mp hcell] at hnot
  exact hnot List.mem_cons_self

/-- In every session, and for every request in it, whatever levels the random generator
yields: no assertion fires, the blocks on every level of the skip list are whole pages
with a free cell, and the big blocks that callers can release have none. -/
theorem asserts_hold (E : Sbrk σ) (mem : Memory) (brk : σ) (hpos : 0 < E.heapEnd brk)
    (hpage : pageSize ∣ E.heapEnd brk) (hlt : E.heapEnd brk < 2 ^ 32) {s : Session σ}
    (hserved : Served E mem brk s) :
    (∀ o, s.Request o → NoAssertFires E s o) ∧
      (∃ chain, SkipListOk s chain ∧ ∀ i ≤ skipMaxLevel, ∀ a ∈ chain i, ListedOk s a) ∧
      ∀ b ∈ s.live, numBins < s.heap.sizeOf (pageBase b.base) →
        s.heap.headOf (pageBase b.base) = 0 := by
  obtain ⟨c, hinv⟩ := hserved.inv hpos hpage hlt
  obtain ⟨l, hl⟩ := hinv.skipListOk
  refine ⟨fun o hrequest => hinv.noAssertFires hrequest, ⟨_, hl, ?_⟩,
    fun b hb hbig => hinv.live_head hb hbig⟩
  intro i hi a ha
  obtain ⟨hchunk, hbig, hlive⟩ := (hl.free a).mp ((hl.height i hi a).mp ha).1
  exact hinv.listedOk hchunk hbig hlive

theorem asserts_hold_bump : ∃ s : Session Nat, s.live = [⟨0x10204C, 64⟩, ⟨0x10200C, 64⟩] ∧
    (∀ o, s.Request o → NoAssertFires Sbrk.bump s o) ∧
      (∃ chain, SkipListOk s chain ∧ ∀ i ≤ skipMaxLevel, ∀ a ∈ chain i, ListedOk s a) ∧
      ∀ b ∈ s.live, numBins < s.heap.sizeOf (pageBase b.base) →
        s.heap.headOf (pageBase b.base) = 0 := by
  obtain ⟨s, hserved, hlive, -⟩ := exists_served_bump
  exact ⟨s, hlive, asserts_hold Sbrk.bump (fun _ => 0) 0x100000 (by decide) (by decide) (by decide)
    hserved⟩

end Session

end X32PRos
