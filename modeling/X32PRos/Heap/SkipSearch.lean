import Mathlib.Data.Finset.Card
import Mathlib.Data.Finset.Range
import X32PRos.Heap.Invariant

/-!
The search of the skip list: where it leaves every level, and what
`klmalloc_skip_list_findbest` makes of it.
-/

namespace X32PRos

open Foundation SkipList

variable {σ : Type}

structure BlockAt (h : Heap σ) (a : Nat) : Prop where
  ne_zero : a ≠ 0
  word : a + bigBinHeaderSize < 2 ^ 32
  page : a % pageSize = 0
  pages : wordAdd (h.sizeOf a) bigBinHeaderSize % pageSize = 0

theorem HeapCore.blockAt {lo hi : Nat} {c : Chunks} {h : Heap σ} (hc : HeapCore lo hi c h)
    {a : Nat} {k : Chunk} (hk : c a = some k) (hbig : numBins < k.size) : BlockAt h a := by
  have hspan := (hc.layout.valid hk).span_ge.1
  have hword := hc.layout.word hk
  have hpos := hc.layout.pos hk
  rcases hc.layout.valid hk with hsmall | ⟨-, hdvd, hfit⟩
  · unfold bigBin at hsmall
    omega
  · refine ⟨by omega, ?_, Nat.mod_eq_zero_of_dvd (hc.layout.page hk), ?_⟩
    · unfold bigBinHeaderSize
      omega
    · have hsize : h.sizeOf a = k.size := (hc.stored hk).size
      rw [hsize, wordAdd_of_lt hfit]
      exact Nat.mod_eq_zero_of_dvd hdvd

theorem HeapCore.blockAt_of_mem {lo hi : Nat} {c : Chunks} {h : Heap σ} (hc : HeapCore lo hi c h)
    {l : List Nat} (hl : FreeBig c l) : ∀ a ∈ l, BlockAt h a := by
  intro a ha
  obtain ⟨k, hk, hbig, -⟩ := (hl a).mp ha
  exact hc.blockAt hk hbig

theorem length_le_of_nodup {l : List Nat} {n : Nat} (hnodup : l.Nodup) (hlt : ∀ a ∈ l, a < n) :
    l.length ≤ n := by
  rw [← List.toFinset_card_of_nodup hnodup, ← Finset.card_range n]
  apply Finset.card_le_card
  intro a ha
  exact Finset.mem_range.mpr (hlt a (List.mem_toFinset.mp ha))

namespace Heap

/-- Reading a pointer that has been written. -/
theorem readForward_eq {h : Heap σ} {u : BigPtr} {i : Nat}
    (hu : ∀ a, u = some a → i ≤ h.inserted a) : h.readForward u i = .ok (h.skipNext i u) := by
  cases u with
  | none => rfl
  | some a => exact if_pos (hu a rfl)

theorem assertPages_of {h : Heap σ} {a : Nat} (ha : BlockAt h a) (desc : String) (line : Nat) :
    h.assertPages a desc line = .ok () :=
  kassert_of ha.pages desc "alloc.c" line

theorem assertLink_of {h : Heap σ} {p : Option Nat} (hp : ∀ a, p = some a → BlockAt h a)
    (desc : String) (line : Nat) : h.assertLink p desc line = .ok () := by
  cases p with
  | none => rfl
  | some a => exact assertPages_of (hp a rfl) desc line

theorem assertBlock_of {h : Heap σ} {p : Option Nat} (hp : ∀ a, p = some a → BlockAt h a)
    (desc : String) (line : Nat) (desc' : String) (line' : Nat) :
    h.assertBlock p desc line desc' line' = .ok () := by
  cases p with
  | none => rfl
  | some a =>
      simp only [assertBlock, kassert_of (hp a rfl).page, assertPages_of (hp a rfl), ok_bind]

end Heap

/-- A cut of the list at a size: the smaller blocks are in front. -/
structure CutAt (h : Heap σ) (size : Nat) (p q : List Nat) : Prop where
  below : ∀ a ∈ p, h.sizeKey a < signed size
  above : ∀ a ∈ q, signed size ≤ h.sizeKey a

namespace SkipAt

variable {h : Heap σ} {p q : List Nat} {size line : Nat}

theorem exists_cut {l : List Nat} (hs : SkipAt h l) (size : Nat) :
    ∃ p q, l = p ++ q ∧ CutAt h size p q := by
  obtain ⟨p, q, hl, hp, hq⟩ := exists_split h.sizeKey hs.represents.sorted (signed size)
  exact ⟨p, q, hl, hp, hq⟩

/-- One level of the search. -/
theorem seek_eq (hs : SkipAt h (p ++ q)) (hcut : CutAt h size p q)
    (hblocks : ∀ a ∈ p ++ q, BlockAt h a) {i : Nat} (hi : i ≤ skipMaxLevel) {s r : List Nat}
    (hsr : atLevel h.inserted i p = s ++ r) :
    h.seek line size i (tip none s) = .ok (tip none (atLevel h.inserted i p)) := by
  have hlink := hs.represents.linked i hi
  rw [atLevel_append] at hlink
  have hread : ∀ u ∈ none :: (atLevel h.inserted i p).map some,
      h.readForward u i = .ok (h.skipNext i u) := by
    intro u hu
    apply Heap.readForward_eq
    rintro a rfl
    simp only [List.mem_cons, List.mem_map, Option.some.injEq, exists_eq_right, reduceCtorEq,
      false_or] at hu
    exact (mem_atLevel.mp hu).2
  apply seek_returns hlink ?_ ?_ r s _ hsr ?_
  · intro u a hu hnext ha
    have hap := (mem_atLevel.mp ha).1
    have hlt := hcut.below a hap
    constructor
    · simp only [Heap.seekGuard, hread u hu, ok_bind, hnext]
      exact congrArg Except.ok (decide_eq_true hlt)
    · simp only [Heap.seekBody, hread u hu, ok_bind, hnext,
        Heap.assertPages_of (hblocks a (List.mem_append_left q hap))]
  · have hend := hread _ (tip_mem none (atLevel h.inserted i p))
    cases hq : atLevel h.inserted i q with
    | nil =>
        rw [hq, List.append_nil] at hlink
        simp only [Heap.seekGuard, hend, ok_bind, hlink.next_tip]
    | cons b rest =>
        rw [hq] at hlink
        have hb : b ∈ atLevel h.inserted i q := by
          rw [hq]
          exact List.mem_cons_self
        have hge := hcut.above b (mem_atLevel.mp hb).1
        simp only [Heap.seekGuard, hend, ok_bind, hlink.next_tip_cons]
        exact congrArg Except.ok (decide_eq_false (not_lt.mpr hge))
  · -- the nodes are different addresses, so the loop ends before its fuel does
    have hsub : r.Sublist (p ++ q) := by
      have hrp : r.Sublist p := (List.sublist_append_right s r).trans (hsr ▸ atLevel_sublist)
      exact hrp.trans (List.sublist_append_left p q)
    have hlen := length_le_of_nodup (n := 2 ^ 32) (hs.represents.nodup.sublist hsub) fun a ha =>
      Nat.lt_of_le_of_lt (Nat.le_add_right a _) (hblocks a (hsub.subset ha)).word
    exact Nat.lt_succ_of_le hlen

/-- The search ends at the last of the smaller blocks, on every level. -/
theorem search_eq (hs : SkipAt h (p ++ q)) (hcut : CutAt h size p q)
    (hblocks : ∀ a ∈ p ++ q, BlockAt h a) (line : Nat) :
    ∃ update, h.search line size = .ok (tip none p, update) ∧
      ∀ j ≤ h.level, update j = tip none (atLevel h.inserted j p) := by
  obtain ⟨update, hdesc, hupdate, -⟩ := descend_returns (h.seek line size) h.inserted p
    (fun i hi s r hsr => hs.seek_eq hcut hblocks (Nat.le_trans hi hs.level_le) hsr)
    h.level none (fun _ => none) (Nat.le_refl _) ⟨[], _, rfl, rfl⟩
  exact ⟨update, hdesc, hupdate⟩

/-- The pointer behind the smaller blocks. -/
theorem readForward_zero (hs : SkipAt h (p ++ q)) :
    h.readForward (tip none p) 0 = .ok q.head? := by
  have hlink := hs.represents.linked 0 (Nat.zero_le _)
  rw [atLevel_zero] at hlink
  rw [Heap.readForward_eq fun a _ => Nat.zero_le _]
  cases q with
  | nil =>
      rw [List.append_nil] at hlink
      rw [hlink.next_tip]
      rfl
  | cons b q =>
      rw [hlink.next_tip_cons]
      rfl

/-- The best fit is the first block that is not smaller. -/
theorem findbest_eq (hs : SkipAt h (p ++ q)) (hcut : CutAt h size p q)
    (hblocks : ∀ a ∈ p ++ q, BlockAt h a) : h.skipListFindbest size = .ok q.head? := by
  obtain ⟨update, hsearch, -⟩ := hs.search_eq hcut hblocks 307
  have hhead : ∀ a, q.head? = some a → BlockAt h a := fun a ha =>
    hblocks a (List.mem_append_right p (List.mem_of_mem_head? ha))
  simp only [Heap.skipListFindbest, hsearch, ok_bind, hs.readForward_zero,
    Heap.assertBlock_of hhead]

end SkipAt

end X32PRos
