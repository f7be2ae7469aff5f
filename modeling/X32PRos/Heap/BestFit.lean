import X32PRos.Heap.SkipDelete
import X32PRos.Heap.SkipInvariant

/-!
Big requests: the block that `klmalloc_skip_list_findbest` chooses, the deletion
that follows in `klmalloc`, and when `sbrk` is called. Sizes are ordered as
`size_t` orders them.
-/

namespace X32PRos

open Foundation SkipList

variable {σ : Type}

/-- An `sbrk` in the place of `E` that stops the machine. -/
def Sbrk.refusing (E : Sbrk σ) (e : Fault) : Sbrk σ where
  heapEnd := E.heapEnd
  call _ _ := .error e
  returns h := by cases h

/-- The call of `klmalloc` asks `sbrk` for memory: any fault of it comes out. -/
def CallsSbrk (E : Sbrk σ) (h : Heap σ) (size : Nat) : Prop :=
  ∀ e, h.klmalloc (E.refusing e) size = .error e

theorem not_callsSbrk {E : Sbrk σ} {h : Heap σ} {size : Nat}
    (hok : ∀ e, ∃ r, h.klmalloc (E.refusing e) size = .ok r) : ¬ CallsSbrk E h size := by
  intro hcall
  obtain ⟨r, hr⟩ := hok .diverges
  rw [hcall] at hr
  cases hr

/-- How `klmalloc` serves a request for `size` bytes from the free big blocks `l`. -/
structure BestFit (E : Sbrk σ) (h : Heap σ) (l : List Nat) (size : Nat) : Prop where
  returns : ∃ found, h.skipListFindbest size = .ok found
  none_iff : h.skipListFindbest size = .ok none ↔ ∀ a ∈ l, h.sizeKey a < size
  least : ∀ v, h.skipListFindbest size = .ok (some v) →
    v ∈ l ∧ size ≤ h.sizeKey v ∧ ∀ a ∈ l, size ≤ h.sizeKey a → h.sizeKey v ≤ h.sizeKey a
  /-- behind the search of the deletion the block is found -/
  found : ∀ v, h.skipListFindbest size = .ok (some v) → ∃ node update,
    h.search 416 (h.sizeOf v) = .ok (node, update) ∧ h.readForward node 0 = .ok (some v)
  unlinks : ∀ v, h.skipListFindbest size = .ok (some v) →
    Deletes h l v ∧ ∀ h', h.skipListDelete v = .ok h' → ForwardOnly l h h'
  sbrk : CallsSbrk E h size ↔ ∀ a ∈ l, h.sizeKey a < size

theorem HeapCore.blockList {lo hi : Nat} {c : Chunks} {h : Heap σ} {l : List Nat}
    (hc : HeapCore lo hi c h) (hs : SkipAt h l) (hfree : FreeBig c l) : BlockList h l := by
  refine ⟨hs, hc.blockAt_of_mem hfree, ?_⟩
  intro a ha hzero
  obtain ⟨k, hk, -, hne⟩ := (hfree a).mp ha
  exact hne ((hc.stored hk).head_zero_iff.mp hzero)

section Cut

variable {h : Heap σ} {p q : List Nat} {v size : Nat}

/-- The cut at the request is the cut at the size of the block behind it. -/
theorem CutAt.at_found (hs : SkipAt h (p ++ v :: q)) (hcut : CutAt h size p (v :: q)) :
    CutAt h (h.sizeOf v) p (v :: q) := by
  constructor
  · intro a ha
    exact lt_of_lt_of_le (hcut.below a ha) (hcut.above v List.mem_cons_self)
  · intro a ha
    rcases List.mem_cons.mp ha with rfl | ha
    · exact le_refl _
    · exact (List.pairwise_cons.mp (List.pairwise_append.mp hs.represents.sorted).2.1).1 a ha

/-- In front of the block that is found there is none of its size. -/
theorem CutAt.firstOfSize (hcut : CutAt h size p (v :: q)) : FirstOfSize h (p ++ v :: q) v := by
  refine ⟨p, q, rfl, ?_⟩
  intro a ha heq
  have hlt := hcut.below a ha
  have hle := hcut.above v List.mem_cons_self
  rw [Heap.sizeKey, heq] at hlt
  exact lt_irrefl _ (lt_of_lt_of_le hlt hle)

end Cut

variable {lo hi : Nat} {c : Chunks} {h : Heap σ} {size : Nat}

theorem HeapInv.bestFit (E : Sbrk σ) (hinv : HeapInv lo hi c h) {l : List Nat} (hs : SkipAt h l)
    (hfree : FreeBig c l) (hlow : 2048 < size) (hhigh : size < 2 ^ 31) :
    BestFit E h l size := by
  have hc := hinv.core
  have hlist := hc.blockList hs hfree
  have hsigned : signed size = size := signed_of_lt hhigh
  have hb : ¬ klmallocBinSize size < bigBin := by
    rw [klmallocBinSize_lt_iff (by omega) (by omega)]
    omega
  obtain ⟨p, q, rfl, hcut⟩ := hs.exists_cut size
  have hfind := hs.findbest_eq hcut hlist.blocks
  have hbelow : ∀ a ∈ p, h.sizeKey a < size := by
    intro a ha
    rw [← hsigned]
    exact hcut.below a ha
  cases q with
  | nil =>
      have hall : ∀ a ∈ p ++ [], h.sizeKey a < size := by
        intro a ha
        rw [List.append_nil] at ha
        exact hbelow a ha
      have hnone : ∀ v, h.skipListFindbest size ≠ .ok (some v) := by
        intro v hv
        rw [hfind] at hv
        cases hv
      refine ⟨⟨_, hfind⟩, iff_of_true hfind hall, fun v hv => absurd hv (hnone v),
        fun v hv => absurd hv (hnone v), fun v hv => absurd hv (hnone v), iff_of_true ?_ hall⟩
      intro e
      rw [Heap.klmalloc_newBlock (by omega) hb hfind]
      rfl
  | cons v q =>
      have hvmem : v ∈ p ++ v :: q := List.mem_append_right p List.mem_cons_self
      have hfits : (size : Int) ≤ h.sizeKey v := by
        rw [← hsigned]
        exact hcut.above v List.mem_cons_self
      have hnot : ¬ ∀ a ∈ p ++ v :: q, h.sizeKey a < size :=
        fun hall => absurd (hall v hvmem) (not_lt.mpr hfits)
      have hsome : ∀ w, h.skipListFindbest size = .ok (some w) → w = v := by
        intro w hw
        rw [hfind] at hw
        cases hw
        rfl
      have hcut' := hcut.at_found hs
      refine ⟨⟨_, hfind⟩, iff_of_false (fun hn => ?_) hnot, ?_, ?_, ?_, iff_of_false ?_ hnot⟩
      · rw [hfind] at hn
        cases hn
      · intro w hw
        rw [hsome w hw]
        refine ⟨hvmem, hfits, ?_⟩
        intro a ha hle
        cases List.mem_append.mp ha with
        | inl ha => exact absurd (hbelow a ha) (not_lt.mpr hle)
        | inr ha => exact hcut'.above a ha
      · intro w hw
        rw [hsome w hw]
        obtain ⟨update, hsearch, -⟩ := hs.search_eq hcut' hlist.blocks 416
        exact ⟨_, update, hsearch, hs.readForward_zero⟩
      · intro w hw
        rw [hsome w hw]
        refine ⟨hlist.deletes_of_first hcut.firstOfSize, ?_⟩
        intro h' hrun
        obtain ⟨h'', hrun', -, hforward, -⟩ := hs.delete hcut' hlist.blocks (hlist.heads v hvmem)
        rw [hrun'] at hrun
        cases hrun
        exact hforward
      · refine not_callsSbrk fun e => ?_
        obtain ⟨h', c', hrun, -⟩ :=
          hinv.klmalloc_found (E := E.refusing e) (by omega) hb hs hfree hcut
        exact ⟨_, hrun⟩

namespace Session

def FreeBlock (s : Session σ) (a : Nat) : Prop :=
  a ∈ s.chunks ∧ numBins < s.heap.sizeOf a ∧ ∀ b ∈ s.live, b.base ≠ a + bigBinHeaderSize

/-- A big request is served by the least free block that is large enough, which
then is in no chain of the skip list; `sbrk` is called if there is none. -/
theorem klmalloc_bestFit (E : Sbrk σ) (mem : Memory) (brk : σ) (hpos : 0 < E.heapEnd brk)
    (hpage : pageSize ∣ E.heapEnd brk) (hlt : E.heapEnd brk < 2 ^ 32) {s : Session σ}
    (hreached : Reached E mem brk s) {size : Nat} (hlow : 2048 < size)
    (hhigh : size < 2 ^ 31 - 44) :
    ∃ l, (∀ a, a ∈ l ↔ s.FreeBlock a) ∧ BlockList s.heap l ∧ BestFit E s.heap l size := by
  obtain ⟨c, hinv⟩ := hreached.inv hpos hpage hlt
  obtain ⟨l, hs, hfree⟩ := hinv.heap.skip
  refine ⟨l, ?_, hinv.heap.core.blockList hs hfree,
    hinv.heap.bestFit E hs hfree hlow (by omega)⟩
  intro a
  rw [hfree a]
  exact hinv.free_big_iff a

/-- A released block of two pages serves a request of 3000 bytes. -/
theorem klmalloc_bestFit_bump : ∃ s : Session Nat, s.FreeBlock 0x100000 ∧
    ∃ l, (∀ a, a ∈ l ↔ s.FreeBlock a) ∧ BlockList s.heap l ∧
      BestFit Sbrk.bump s.heap l 3000 := by
  obtain ⟨s, hserved, hlive, hchunks, hsize⟩ := exists_served_bump
  refine ⟨s, ⟨by rw [hchunks]; decide, by rw [hsize]; decide, by rw [hlive]; decide⟩, ?_⟩
  exact klmalloc_bestFit Sbrk.bump (fun _ => 0) 0x100000 (by decide) (by decide) (by decide)
    (Served.reached hserved (by decide) (by decide) (by decide)) (by decide) (by decide)

end Session

end X32PRos
