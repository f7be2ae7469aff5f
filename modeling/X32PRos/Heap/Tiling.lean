import Mathlib.Data.List.Nodup
import X32PRos.Heap.Api
import X32PRos.Heap.SmallBins

/-!
Where the memory is that `sbrk` has returned. The chunks fill it without a gap,
and each cell of a chunk is a live block or a free cell, once: no call loses
memory, and none has it twice.
-/

namespace X32PRos

open Foundation

variable {σ : Type}

/-- The bytes of a chunk that are in no cell: its header, and what is left of the
page of a small bin. -/
def overhead (size : Nat) : Nat := span size - cellCount size * cellSize size

namespace Session

def chunkRegions (s : Session σ) : List Region :=
  s.chunks.reverse.map fun a => ⟨a, span (s.heap.sizeOf a)⟩

def allCells (s : Session σ) : List Nat :=
  s.chunks.flatMap fun a => pageCells a (s.heap.sizeOf a)

/-- With `stack a` the free cells of the chunk at `a`: the chunks fill the heap, and
the cells of the chunks are the live blocks and the free cells. -/
structure Accounted (E : Sbrk σ) (start : Nat) (s : Session σ) (stack : Nat → List Nat) : Prop where
  tiles : Region.Consecutive start (E.heapEnd s.heap.brk) s.chunkRegions
  linked : ∀ a ∈ s.chunks, Linked (Heap.stackNext s.heap.mem a) none (stack a)
  cells : s.allCells.Perm (s.live.map Region.base ++ s.chunks.flatMap stack)
  bytes : start + (s.live.map fun b => s.heap.capacity b.base).sum +
    ((s.chunks.flatMap stack).map s.heap.capacity).sum +
      (s.chunks.map fun a => overhead (s.heap.sizeOf a)).sum = E.heapEnd s.heap.brk

variable {E : Sbrk σ} {lo size : Nat} {c : Chunks} {s s' : Session σ}

/-! ### The chunks fill the heap -/

theorem chunkRegions_grows (hgrows : Grows E size s s')
    (htiles : Region.Consecutive lo (E.heapEnd s.heap.brk) s.chunkRegions) :
    Region.Consecutive lo (E.heapEnd s'.heap.brk) s'.chunkRegions := by
  have hold : s.chunks.reverse.map (fun a => (⟨a, span (s'.heap.sizeOf a)⟩ : Region)) =
      s.chunkRegions := by
    apply List.map_congr_left
    intro a ha
    rw [hgrows.sizes a (List.mem_reverse.mp ha)]
  rcases hgrows.growth with ⟨hchunks, hbrk⟩ | ⟨hchunks, hnew, -, hend, -⟩
  · rw [chunkRegions, hchunks, hold, hbrk]
    exact htiles
  · rw [chunkRegions, hchunks, List.reverse_cons, List.map_append, hold, hend]
    have hlast : (⟨E.heapEnd s.heap.brk, span (chunkSize size)⟩ : Region).base =
        E.heapEnd s.heap.brk := rfl
    rw [List.map_singleton, hnew]
    exact htiles.concat hlast

theorem ApiServed.tiles {mem : Memory} {brk : σ} (hserved : ApiServed E mem brk s)
    (hpos : 0 < E.heapEnd brk) (hpage : pageSize ∣ E.heapEnd brk) (hlt : E.heapEnd brk < 2 ^ 32) :
    Region.Consecutive (E.heapEnd brk) (E.heapEnd s.heap.brk) s.chunkRegions := by
  induction hserved with
  | refl => rfl
  | @tail s s' o hserved hok hstep ih =>
      obtain ⟨⟨c, hinv⟩, hshort⟩ := ApiServed.inv hserved hpos hpage hlt
      obtain ⟨-, ⟨size, -, hgrows⟩, -⟩ := hinv.apply_spec hshort hok.1 hok.2 hstep
      exact chunkRegions_grows hgrows ih

/-! ### The cells are live or free -/

def stackOf (c : Chunks) (a : Nat) : List Nat := (c a).elim [] Chunk.free

theorem Inv.sizeOf_eq (hinv : Inv E lo c s) {a : Nat} {k : Chunk} (hk : c a = some k) :
    s.heap.sizeOf a = k.size := (hinv.heap.core.stored hk).size

/-- The chunk that a cell is in. -/
theorem Inv.pageBase_of_mem (hinv : Inv E lo c s) {a x : Nat} (ha : a ∈ s.chunks)
    (hx : x ∈ pageCells a (s.heap.sizeOf a)) : pageBase x = a := by
  obtain ⟨k, hk⟩ := (hinv.chunks a).mp ha
  rw [hinv.sizeOf_eq hk] at hx
  exact hinv.heap.core.layout.pageBase_cell hk (mem_pageCells.mp hx)

theorem Inv.stackOf_sub (hinv : Inv E lo c s) {a : Nat} (ha : a ∈ s.chunks) :
    ∀ x ∈ stackOf c a, x ∈ pageCells a (s.heap.sizeOf a) := by
  obtain ⟨k, hk⟩ := (hinv.chunks a).mp ha
  intro x hx
  rw [stackOf, hk] at hx
  rw [hinv.sizeOf_eq hk]
  exact mem_pageCells.mpr (hinv.heap.core.layout.cells hk hx)

/-- Cells of different chunks are different. -/
theorem Inv.nodup_flatMap (hinv : Inv E lo c s) (hnodup : s.chunks.Nodup) {f : Nat → List Nat}
    (hf : ∀ a ∈ s.chunks, (f a).Nodup ∧ ∀ x ∈ f a, x ∈ pageCells a (s.heap.sizeOf a)) :
    (s.chunks.flatMap f).Nodup := by
  refine List.nodup_flatMap.mpr ⟨fun a ha => (hf a ha).1, ?_⟩
  refine hnodup.imp_of_mem ?_
  intro a b ha hb hne x hxa hxb
  exact hne ((hinv.pageBase_of_mem ha ((hf a ha).2 x hxa)).symm.trans
    (hinv.pageBase_of_mem hb ((hf b hb).2 x hxb)))

/-- A cell is live unless it is on the stack of its chunk. -/
theorem Inv.mem_allCells (hinv : Inv E lo c s) (x : Nat) :
    x ∈ s.allCells ↔ s.LiveAt x ∨ x ∈ s.chunks.flatMap (stackOf c) := by
  rw [allCells, List.mem_flatMap, List.mem_flatMap]
  constructor
  · rintro ⟨a, ha, hx⟩
    obtain ⟨k, hk⟩ := (hinv.chunks a).mp ha
    rw [hinv.sizeOf_eq hk] at hx
    by_cases hfree : x ∈ k.free
    · exact Or.inr ⟨a, ha, by rw [stackOf, hk]; exact hfree⟩
    · exact Or.inl ((hinv.liveAt_iff hk (mem_pageCells.mp hx)).mpr hfree)
  · rintro (⟨b, hb, rfl⟩ | ⟨a, ha, hx⟩)
    · obtain ⟨n, -, a, k, hk, hcell, -⟩ := hinv.live b hb
      refine ⟨a, (hinv.chunks a).mpr ⟨k, hk⟩, ?_⟩
      rw [hinv.sizeOf_eq hk]
      exact mem_pageCells.mpr hcell
    · exact ⟨a, ha, hinv.stackOf_sub ha x hx⟩

theorem Inv.cells_perm (hinv : Inv E lo c s) (hnodup : s.chunks.Nodup) :
    s.allCells.Perm (s.live.map Region.base ++ s.chunks.flatMap (stackOf c)) := by
  have hstack : (s.chunks.flatMap (stackOf c)).Nodup := by
    refine hinv.nodup_flatMap hnodup fun a ha => ⟨?_, hinv.stackOf_sub ha⟩
    obtain ⟨k, hk⟩ := (hinv.chunks a).mp ha
    rw [stackOf, hk]
    exact hinv.heap.core.layout.nodup hk
  have hdisjoint : List.Disjoint (s.live.map Region.base) (s.chunks.flatMap (stackOf c)) := by
    intro x hlive hfree
    obtain ⟨b, hb, rfl⟩ := List.mem_map.mp hlive
    obtain ⟨a, ha, hx⟩ := List.mem_flatMap.mp hfree
    obtain ⟨k, hk⟩ := (hinv.chunks a).mp ha
    rw [stackOf, hk] at hx
    exact (hinv.liveAt_iff hk (hinv.heap.core.layout.cells hk hx)).mp ⟨b, hb, rfl⟩ hx
  refine (List.perm_ext_iff_of_nodup ?_ (hinv.nodup.append hstack hdisjoint)).mpr ?_
  · exact hinv.nodup_flatMap hnodup fun a _ => ⟨nodup_pageCells a _, fun _ hx => hx⟩
  · intro x
    rw [hinv.mem_allCells, List.mem_append, List.mem_map]
    rfl

/-! ### The bytes add up -/

/-- The cells of a chunk and its overhead are its span. -/
theorem Inv.span_eq (hinv : Inv E lo c s) {a : Nat} (ha : a ∈ s.chunks) :
    ((pageCells a (s.heap.sizeOf a)).map s.heap.capacity).sum + overhead (s.heap.sizeOf a) =
      span (s.heap.sizeOf a) := by
  obtain ⟨k, hk⟩ := (hinv.chunks a).mp ha
  have hcapacity : ∀ x ∈ pageCells a (s.heap.sizeOf a),
      s.heap.capacity x = cellSize (s.heap.sizeOf a) := by
    intro x hx
    rw [Heap.capacity, hinv.pageBase_of_mem ha hx]
  have hlength : (pageCells a (s.heap.sizeOf a)).length = cellCount (s.heap.sizeOf a) := by
    rw [pageCells, List.length_map, List.length_range']
  have hvalid := hinv.heap.core.layout.valid hk
  rw [← hinv.sizeOf_eq hk] at hvalid
  have hpos := cellCount_pos hvalid
  have hend := cell_end (Nat.sub_lt hpos Nat.one_pos)
  rw [List.map_congr_left hcapacity, List.map_const', List.sum_replicate_nat, hlength, overhead]
  have hmul : (cellCount (s.heap.sizeOf a) - 1) * cellSize (s.heap.sizeOf a) +
      cellSize (s.heap.sizeOf a) = cellCount (s.heap.sizeOf a) * cellSize (s.heap.sizeOf a) := by
    rw [← Nat.succ_mul, Nat.succ_eq_add_one, Nat.sub_add_cancel hpos]
  omega

theorem Inv.sum_allCells (hinv : Inv E lo c s) {l : List Nat} (hl : ∀ a ∈ l, a ∈ s.chunks) :
    ((l.flatMap fun a => pageCells a (s.heap.sizeOf a)).map s.heap.capacity).sum +
      (l.map fun a => overhead (s.heap.sizeOf a)).sum =
        (l.map fun a => span (s.heap.sizeOf a)).sum := by
  induction l with
  | nil => rfl
  | cons a l ih =>
      have hrest := ih fun b hb => hl b (List.mem_cons_of_mem _ hb)
      have hspan := hinv.span_eq (hl a List.mem_cons_self)
      simp only [List.flatMap_cons, List.map_append, List.map_cons, List.sum_append, List.sum_cons]
      omega

theorem chunkRegions_sum (s : Session σ) :
    (s.chunkRegions.map Region.len).sum = (s.chunks.map fun a => span (s.heap.sizeOf a)).sum := by
  rw [chunkRegions, List.map_map, List.map_reverse, List.sum_reverse]
  rfl

/-- Consecutive chunks are different ones. -/
theorem Inv.chunks_nodup (hinv : Inv E lo c s) {hi : Nat}
    (htiles : Region.Consecutive lo hi s.chunkRegions) : s.chunks.Nodup := by
  have hapart := htiles.pairwise_apart
  rw [chunkRegions, List.pairwise_map, List.pairwise_reverse] at hapart
  refine hapart.imp_of_mem ?_
  rintro a b ha - hab rfl
  obtain ⟨k, hk⟩ := (hinv.chunks a).mp ha
  have hspan := (hinv.heap.core.layout.valid hk).span_ge.1
  rw [← hinv.sizeOf_eq hk] at hspan
  have hself : a ∈ (⟨a, span (s.heap.sizeOf a)⟩ : Region) := by
    rw [Region.mem_iff]
    dsimp only
    omega
  exact hab a hself hself

/-- In every session of the whole interface, all memory from `sbrk` is accounted for. -/
theorem heap_accounted (E : Sbrk σ) (mem : Memory) (brk : σ) (hpos : 0 < E.heapEnd brk)
    (hpage : pageSize ∣ E.heapEnd brk) (hlt : E.heapEnd brk < 2 ^ 32) {s : Session σ}
    (hserved : ApiServed E mem brk s) : ∃ stack, Accounted E (E.heapEnd brk) s stack := by
  obtain ⟨⟨c, hinv⟩, -⟩ := hserved.inv hpos hpage hlt
  have htiles := hserved.tiles hpos hpage hlt
  have hperm := hinv.cells_perm (hinv.chunks_nodup htiles)
  refine ⟨stackOf c, htiles, ?_, hperm, ?_⟩
  · intro a ha
    obtain ⟨k, hk⟩ := (hinv.chunks a).mp ha
    rw [stackOf, hk]
    exact (hinv.heap.core.stored hk).stack
  · have hsum := htiles.sum_len
    have hcells := (hperm.map s.heap.capacity).sum_eq
    have hall := hinv.sum_allCells (l := s.chunks) fun _ ha => ha
    rw [List.map_append, List.sum_append, List.map_map] at hcells
    rw [chunkRegions_sum] at hsum
    change _ = (s.live.map fun b => s.heap.capacity b.base).sum + _ at hcells
    unfold allCells at hcells
    omega

theorem heap_accounted_bump : ∃ s : Session Nat, s.live = [⟨0x10204C, 64⟩, ⟨0x10200C, 64⟩] ∧
    ∃ stack, Accounted Sbrk.bump 0x100000 s stack := by
  obtain ⟨s, hserved, hlive, -⟩ := exists_served_bump
  exact ⟨s, hlive, heap_accounted Sbrk.bump (fun _ => 0) 0x100000 (by decide) (by decide)
    (by decide) hserved.api⟩

end Session

end X32PRos
