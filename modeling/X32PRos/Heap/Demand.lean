import X32PRos.Heap.Tiling

/-!
How many pages the small bins take. A page of a bin is never given back, but one
more is taken only when every cell of the others is live, so that the pages a
heap has are those that its callers have once needed at the same time.
-/

namespace X32PRos

open Foundation

variable {σ : Type}

namespace Session

def pagesOf (s : Session σ) (b : Nat) : List Nat := s.chunks.filter fun a => s.heap.sizeOf a = b

/-- How many live blocks are cells of such chunks. -/
def liveIn (s : Session σ) (b : Nat) : Nat :=
  s.live.countP fun r => s.heap.sizeWord r.base = b

abbrev Step (E : Sbrk σ) (s : Session σ) (o : HeapOp) (s' : Session σ) : Prop :=
  s.Request o ∧ E.heapEnd s.heap.brk ≤ E.heapEnd s'.heap.brk

variable {E : Sbrk σ} {lo size b : Nat} {c : Chunks} {s s' : Session σ}

/-! ### When all cells are live -/

/-- Cells in the chunks of `l` with the size word `b`. -/
theorem Inv.countP_cells (hinv : Inv E lo c s) {l : List Nat} (hl : ∀ a ∈ l, a ∈ s.chunks) :
    (l.flatMap fun a => pageCells a (s.heap.sizeOf a)).countP
        (fun x => s.heap.sizeWord x = b) =
      (l.filter fun a => s.heap.sizeOf a = b).length * cellCount b := by
  induction l with
  | nil => rw [List.flatMap_nil, List.countP_nil, List.filter_nil, List.length_nil, Nat.zero_mul]
  | cons a l ih =>
      have ha : a ∈ s.chunks := hl a List.mem_cons_self
      have hword : ∀ x ∈ pageCells a (s.heap.sizeOf a), s.heap.sizeWord x = s.heap.sizeOf a :=
        fun x hx => congrArg s.heap.sizeOf (hinv.pageBase_of_mem ha hx)
      have hlength : (pageCells a (s.heap.sizeOf a)).length = cellCount (s.heap.sizeOf a) := by
        rw [pageCells, List.length_map, List.length_range']
      rw [List.flatMap_cons, List.countP_append, ih fun x hx => hl x (List.mem_cons_of_mem _ hx)]
      by_cases hsize : s.heap.sizeOf a = b
      · have hall : (pageCells a (s.heap.sizeOf a)).countP (fun x => s.heap.sizeWord x = b) =
            cellCount b := by
          rw [List.countP_eq_length.mpr, hlength, hsize]
          intro x hx
          exact decide_eq_true ((hword x hx).trans hsize)
        rw [hall, List.filter_cons, if_pos (decide_eq_true hsize), List.length_cons, Nat.succ_mul,
          Nat.add_comm]
      · have hnone : (pageCells a (s.heap.sizeOf a)).countP (fun x => s.heap.sizeWord x = b) =
            0 := by
          apply List.countP_eq_zero.mpr
          intro x hx heq
          exact hsize ((hword x hx).symm.trans (of_decide_eq_true heq))
        rw [hnone, Nat.zero_add, List.filter_cons, if_neg (by rw [decide_eq_true_eq]; exact hsize)]

/-- A bin without a free cell has as many live blocks as its pages have cells. -/
theorem Inv.liveIn_eq (hinv : Inv E lo c s) (hnodup : s.chunks.Nodup) (hb : b < bigBin)
    (hempty : s.heap.binHead b = 0) : s.liveIn b = (s.pagesOf b).length * cellCount b := by
  have hfree : (s.chunks.flatMap (stackOf c)).countP (fun x => s.heap.sizeWord x = b) = 0 := by
    apply List.countP_eq_zero.mpr
    intro x hx heq
    obtain ⟨a, ha, hmem⟩ := List.mem_flatMap.mp hx
    have hbase := hinv.pageBase_of_mem ha (hinv.stackOf_sub ha x hmem)
    obtain ⟨k, hk⟩ := (hinv.chunks a).mp ha
    have hsize : k.size = b := by
      rw [← hinv.sizeOf_eq hk, ← hbase]
      exact of_decide_eq_true heq
    rw [stackOf, hk] at hmem
    have hcell := hinv.heap.core.layout.cells hk hmem
    refine (hinv.liveAt_iff hk hcell).mp ?_ hmem
    rw [hsize] at hcell
    exact (hinv.allLive_iff hb).mpr hempty a x (hinv.binPage_iff.mpr ⟨k, hk, hsize⟩)
      ((isCell_of_small hb).mp hcell)
  have hcount := (hinv.cells_perm hnodup).countP_eq fun x => s.heap.sizeWord x = b
  rw [List.countP_append, hfree, Nat.add_zero, List.countP_map] at hcount
  unfold allCells at hcount
  rw [hinv.countP_cells fun _ ha => ha] at hcount
  exact hcount.symm

/-! ### One call -/

/-- The chunk of a new block of a small bin. -/
theorem Inv.sizeWord_malloc (hinv : Inv E lo c s) (hpos : 0 < size) (hsize : size < 2 ^ 31 - 44)
    (hb : klmallocBinSize size < bigBin) {p : Nat} {h : Heap σ}
    (hrun : s.heap.klmalloc E size = .ok (p, h))
    (hle : E.heapEnd s.heap.brk ≤ E.heapEnd h.brk) :
    h.sizeWord p = klmallocBinSize size := by
  obtain ⟨-, s₁, rfl, hs₁⟩ := hinv.served hpos hsize hrun hle
  obtain ⟨c₁, n, hinv₁, hbusy, hsuits⟩ := hs₁.inv
  obtain ⟨hvalid, hn⟩ := hbusy.sizeWord hinv₁.heap
  apply cellSize_inj hvalid (Or.inl hb)
  rw [← hn, hsuits.small hb, (cellSize_of_small hb).1]

/-- The request that takes a page of a bin finds all its cells live, and makes one
block more. -/
theorem Inv.newPage_demanded (hinv : Inv E lo c s) (hnodup : s.chunks.Nodup)
    (hpos : 0 < size) (hsize : size < 2 ^ 31 - 44) (hb : klmallocBinSize size < bigBin)
    (hle : E.heapEnd s.heap.brk ≤ E.heapEnd s'.heap.brk)
    (hstep : s.step E (.malloc size) = .ok s')
    (hempty : s.heap.binHead (klmallocBinSize size) = 0) :
    s'.liveIn (klmallocBinSize size) =
      (s.pagesOf (klmallocBinSize size)).length * cellCount (klmallocBinSize size) + 1 := by
  rw [step_malloc] at hstep
  obtain ⟨⟨p, h⟩, hrun, hgrant⟩ := bind_eq_ok.mp hstep
  dsimp only at hgrant
  have hs' := Except.ok.inj hgrant
  have hle' : E.heapEnd s.heap.brk ≤ E.heapEnd h.brk := by
    rw [← hs'] at hle
    exact hle
  have hword := hinv.sizeWord_malloc hpos hsize hb hrun hle'
  obtain ⟨hp, s₁, hheap, hs₁⟩ := hinv.served hpos hsize hrun hle'
  have hs₁' : s₁ = s' := by
    rw [hs₁.eq, hheap, hs']
  rw [hs₁'] at hs₁ hheap
  have hkeep : s.live.countP (fun r => s'.heap.sizeWord r.base = klmallocBinSize size) =
      s.liveIn (klmallocBinSize size) := by
    apply List.countP_congr
    intro r hr
    obtain ⟨n, -, hbusy⟩ := hinv.live r hr
    have hsame : s'.heap.sizeWord r.base = s.heap.sizeWord r.base :=
      hs₁.grows.sizes _ (hinv.chunk_mem hbusy)
    rw [hsame]
  rw [← hinv.liveIn_eq hnodup hb hempty, liveIn, hs₁.live,
    List.countP_cons_of_pos (by rw [hheap]; exact decide_eq_true hword), hkeep]

theorem pagesOf_same (hsizes : ∀ a ∈ s.chunks, s'.heap.sizeOf a = s.heap.sizeOf a) (b : Nat) :
    s.chunks.filter (fun a => s'.heap.sizeOf a = b) = s.pagesOf b := by
  apply List.filter_congr
  intro a ha
  rw [hsizes a ha]

/-! ### Runs -/

/-- The pages of bin `b` are no more than were needed: in an earlier session of the
run the live blocks of the bin did not fit on fewer. -/
def Demanded (E : Sbrk σ) (mem : Memory) (brk : σ) (s : Session σ) (b : Nat) : Prop :=
  s.pagesOf b = [] ∨ ∃ s₀, Served E mem brk s₀ ∧ Run.Reaches (step E) (Step E) s₀ s ∧
    s₀.liveIn b = ((s.pagesOf b).length - 1) * cellCount b + 1

theorem Demanded.later {mem : Memory} {brk : σ} {o : HeapOp} (h : Demanded E mem brk s b)
    (hok : Step E s o s') (hstep : s.step E o = .ok s') (hsame : s'.pagesOf b = s.pagesOf b) :
    Demanded E mem brk s' b := by
  cases h with
  | inl hnil => exact Or.inl (hsame.trans hnil)
  | inr hpeak =>
      obtain ⟨s₀, hserved, hreaches, hlive⟩ := hpeak
      exact Or.inr ⟨s₀, hserved, .tail hreaches hok hstep, by rw [hsame]; exact hlive⟩

/-- The chunk that a step makes, if it makes one, is for a request of its own. -/
theorem Inv.step_grows (hinv : Inv E lo c s) {o : HeapOp} (hok : Step E s o s')
    (hstep : s.step E o = .ok s') :
    Stays s s' ∨ ∃ size, o = .malloc size ∧ Grows E size s s' := by
  have hallowed := hinv.allowed hok.1 hok.2 hstep
  cases o with
  | malloc size => exact Or.inr ⟨size, rfl, hinv.malloc_grows hallowed.2 hstep⟩
  | free ptr level => exact Or.inl (hinv.free_stays hok.1.1 hok.1.2 hstep)
  | write address value =>
      obtain ⟨r, hr, hx⟩ := hok.1
      obtain ⟨n, hbusy, hlo, hhi⟩ := hinv.mem_cell hr hx
      rw [← Except.ok.inj hstep]
      exact Or.inl (hinv.store hbusy (m := s.heap.mem.store8 address value) fun y hy =>
        Memory.store8_of_ne (by omega)).2

/-- In every session of `malloc` and `free` the small bins have no more pages than
some earlier moment of the session needed. -/
theorem pages_demanded (E : Sbrk σ) (mem : Memory) (brk : σ) (hpos : 0 < E.heapEnd brk)
    (hpage : pageSize ∣ E.heapEnd brk) (hlt : E.heapEnd brk < 2 ^ 32) {s : Session σ}
    (hserved : Served E mem brk s) {b : Nat} (hb : b < bigBin) : Demanded E mem brk s b := by
  induction hserved with
  | refl => exact Or.inl rfl
  | @tail s s' o hserved hok hstep ih =>
      obtain ⟨c, hinv⟩ := Served.inv hserved hpos hpage hlt
      have hnodup := hinv.chunks_nodup ((Served.api hserved).tiles hpos hpage hlt)
      cases hinv.step_grows hok hstep with
      | inl hstays =>
          refine ih.later hok hstep ?_
          rw [← pagesOf_same hstays.1 b, pagesOf, hstays.2.1]
      | inr hmalloc =>
          obtain ⟨size, rfl, hgrows⟩ := hmalloc
          have hsame := pagesOf_same hgrows.sizes b
          rcases hgrows.growth with ⟨hchunks, -⟩ | ⟨hchunks, hnew, -, -, hempty⟩
          · refine ih.later hok hstep ?_
            rw [← hsame, pagesOf, hchunks]
          · by_cases hsize : chunkSize size = b
            · -- a page for bin `b`
              have hbin : klmallocBinSize size < bigBin := by
                by_contra hbig
                rw [chunkSize, if_neg hbig] at hsize
                have hpages := bigPages_pos size
                unfold bigBin numBins at hb
                omega
              have hbeq : klmallocBinSize size = b := by
                rw [← hsize, chunkSize, if_pos hbin]
              have hcount : s'.pagesOf b = E.heapEnd s.heap.brk :: s.pagesOf b := by
                rw [pagesOf, hchunks, List.filter_cons, if_pos (decide_eq_true (hnew.trans hsize)),
                  hsame]
              have hlive := hinv.newPage_demanded hnodup hok.1.1 hok.1.2 hbin hok.2 hstep
                (hempty hbin)
              rw [hbeq] at hlive
              refine Or.inr ⟨s', .tail hserved hok hstep, .refl, ?_⟩
              rw [hlive, hcount, List.length_cons, Nat.add_sub_cancel]
            · refine ih.later hok hstep ?_
              rw [pagesOf, hchunks, List.filter_cons, if_neg (by
                rw [decide_eq_true_eq, hnew]
                exact hsize), hsame]

theorem pages_demanded_bump : ∃ s : Session Nat, s.live = [⟨0x10204C, 64⟩, ⟨0x10200C, 64⟩] ∧
    Demanded Sbrk.bump (fun _ => 0) 0x100000 s 4 := by
  obtain ⟨s, hserved, hlive, -⟩ := exists_served_bump
  exact ⟨s, hlive, pages_demanded Sbrk.bump (fun _ => 0) 0x100000 (by decide) (by decide)
    (by decide) hserved (by decide)⟩

end Session

end X32PRos
