import X32PRos.Heap.BestFit

/-!
The small bins in every session: the cells of a page are live or on the stack of
the page, a page is on the list of its bin as long as the stack has a cell, and
no page is taken while another one has a cell to give.
-/

namespace X32PRos

open Foundation

variable {σ : Type}

namespace Session

def BinPage (s : Session σ) (b a : Nat) : Prop := a ∈ s.chunks ∧ s.heap.sizeOf a = b

/-- `x` is the address of a cell that fits behind the header of the page at `a`. -/
def PageCell (b a x : Nat) : Prop :=
  ∃ j < (pageSize - binHeaderSize) / 2 ^ (b + 2), x = a + binHeaderSize + j * 2 ^ (b + 2)

def LiveAt (s : Session σ) (x : Nat) : Prop := ∃ r ∈ s.live, r.base = x

/-- The cells of the page at `a` are those on the stack and the live ones. -/
structure PageOk (s : Session σ) (b a : Nat) (stack : List Nat) : Prop where
  linked : Linked (Heap.stackNext s.heap.mem a) none stack
  nodup : stack.Nodup
  cells : ∀ x, PageCell b a x ↔ x ∈ stack ∨ (a ≤ x ∧ x < a + pageSize) ∧ s.LiveAt x
  apart : ∀ x ∈ stack, ¬ s.LiveAt x

/-- `pages` is the list of bin `b`, and `stack a` the free cells of the page at `a`. -/
structure SmallBinOk (s : Session σ) (b : Nat) (stack : Nat → List Nat) (pages : List Nat) :
    Prop where
  page : ∀ a, s.BinPage b a → s.PageOk b a (stack a)
  linked : Linked (s.heap.pageNext b) none pages
  nodup : pages.Nodup
  mem : ∀ a, a ∈ pages ↔ s.BinPage b a ∧ stack a ≠ []

def AllLive (s : Session σ) (b : Nat) : Prop := ∀ a x, s.BinPage b a → PageCell b a x → s.LiveAt x

theorem isCell_of_small {a b x : Nat} (hb : b < bigBin) : IsCell a b x ↔ PageCell b a x := by
  have hnot : ¬ numBins < b := by
    unfold bigBin at hb
    omega
  unfold IsCell PageCell cell cellCount headerSize cellSize
  rw [if_neg hnot, if_neg hnot, if_neg hnot]

variable {E : Sbrk σ} {lo : Nat} {c : Chunks} {s : Session σ} {a b x : Nat} {k : Chunk}

theorem Inv.binPage_iff (hinv : Inv E lo c s) : s.BinPage b a ↔ ∃ k, c a = some k ∧ k.size = b := by
  constructor
  · rintro ⟨ha, hsize⟩
    obtain ⟨k, hk⟩ := (hinv.chunks a).mp ha
    exact ⟨k, hk, (hinv.heap.core.stored hk).size.symm.trans hsize⟩
  · rintro ⟨k, hk, hsize⟩
    exact ⟨(hinv.chunks a).mpr ⟨k, hk⟩, (hinv.heap.core.stored hk).size.trans hsize⟩

/-- A cell is live unless it is free. -/
theorem Inv.liveAt_iff (hinv : Inv E lo c s) (hk : c a = some k) (hx : IsCell a k.size x) :
    s.LiveAt x ↔ x ∉ k.free := by
  constructor
  · rintro ⟨r, hr, rfl⟩ hfree
    obtain ⟨n, -, a', k', hk', hcell, hnot, -⟩ := hinv.live r hr
    have haa := hinv.heap.core.layout.chunk_unique hk hk' hx hcell
    subst haa
    rw [hk] at hk'
    cases hk'
    exact hnot hfree
  · intro hnot
    exact hinv.busy x _ ⟨a, k, hk, hx, hnot, rfl⟩

/-- A live block in the page of a small bin is one of its cells. -/
theorem Inv.isCell_of_live (hinv : Inv E lo c s) (hk : c a = some k) (hsmall : k.size < bigBin)
    (hlo : a ≤ x) (hhi : x < a + pageSize) (hlive : s.LiveAt x) : IsCell a k.size x := by
  have hl := hinv.heap.core.layout
  obtain ⟨r, hr, rfl⟩ := hlive
  obtain ⟨n, -, a', k', hk', hcell, -⟩ := hinv.live r hr
  have hbase := hl.pageBase_cell hk' hcell
  have hpage := hl.page hk
  have hword := hl.word hk
  obtain ⟨-, hspan⟩ := span_of_small hsmall
  have haa : a' = a := by
    rw [← hbase, pageBase_eq (by unfold pageSize at hhi; omega)]
    unfold pageSize at hpage hhi
    omega
  subst haa
  rw [hk] at hk'
  cases hk'
  exact hcell

theorem Inv.pageOk (hinv : Inv E lo c s) (hk : c a = some k) (hsmall : k.size < bigBin) :
    s.PageOk k.size a k.free := by
  have hl := hinv.heap.core.layout
  obtain ⟨hheader, hspan⟩ := span_of_small hsmall
  refine ⟨(hinv.heap.core.stored hk).stack, hl.nodup hk, ?_, ?_⟩
  · intro x
    rw [← isCell_of_small hsmall]
    constructor
    · intro hx
      have hbounds := hx.bounds
      have hcell := four_le_cellSize k.size
      by_cases hfree : x ∈ k.free
      · exact Or.inl hfree
      · refine Or.inr ⟨?_, (hinv.liveAt_iff hk hx).mpr hfree⟩
        unfold pageSize
        omega
    · rintro (hx | ⟨⟨hlo, hhi⟩, hlive⟩)
      · exact hl.cells hk hx
      · exact hinv.isCell_of_live hk hsmall hlo hhi hlive
  · intro x hx hlive
    exact (hinv.liveAt_iff hk (hl.cells hk hx)).mp hlive hx

theorem Inv.smallBinOk (hinv : Inv E lo c s) (hb : b < bigBin) :
    ∃ pages, SmallBinOk s b (fun a => (c a).elim [] Chunk.free) pages := by
  obtain ⟨pages, hpages⟩ := hinv.heap.core.bins b hb
  refine ⟨pages, ?_, hpages.linked, hpages.nodup, ?_⟩
  · intro a ha
    obtain ⟨k, hk, rfl⟩ := hinv.binPage_iff.mp ha
    rw [hk]
    exact hinv.pageOk hk hb
  · intro a
    rw [hpages.mem, hinv.binPage_iff]
    constructor
    · rintro ⟨k, hk, hsize, hfree⟩
      rw [hk]
      exact ⟨⟨k, rfl, hsize⟩, hfree⟩
    · rintro ⟨⟨k, hk, hsize⟩, hfree⟩
      rw [hk] at hfree
      exact ⟨k, hk, hsize, hfree⟩

/-- The list of a bin is empty exactly when no cell of the bin is left. -/
theorem Inv.allLive_iff (hinv : Inv E lo c s) (hb : b < bigBin) :
    s.AllLive b ↔ s.heap.binHead b = 0 := by
  have hl := hinv.heap.core.layout
  obtain ⟨pages, hpages⟩ := hinv.heap.core.bins b hb
  constructor
  · intro hall
    by_contra hhead
    obtain ⟨pages', rfl⟩ := hpages.eq_cons rfl hhead
    obtain ⟨k, hk, hsize, hfree⟩ := (hpages.mem _).mp List.mem_cons_self
    obtain ⟨x, fs, hcons⟩ := List.exists_cons_of_ne_nil hfree
    have hx : x ∈ k.free := by
      rw [hcons]
      exact List.mem_cons_self
    have hcell := hl.cells hk hx
    refine (hinv.liveAt_iff hk hcell).mp (hall _ x (hinv.binPage_iff.mpr ⟨k, hk, hsize⟩) ?_) hx
    rw [hsize] at hcell
    exact (isCell_of_small hb).mp hcell
  · intro hhead a x ha hx
    have hnil : pages = [] := hpages.linked.unique (show Linked _ none [] from
      pointer_eq_none.mpr hhead)
    subst hnil
    obtain ⟨k, hk, rfl⟩ := hinv.binPage_iff.mp ha
    rw [← isCell_of_small hb] at hx
    refine (hinv.liveAt_iff hk hx).mpr fun hfree => ?_
    have hmem := (hpages.mem a).mpr ⟨k, hk, rfl, List.ne_nil_of_mem hfree⟩
    cases hmem

/-- A page is taken when its bin has no cell left. -/
theorem Inv.callsSbrk_iff (hinv : Inv E lo c s) {size : Nat} (hne : size ≠ 0)
    (hword : size < 2 ^ 32) (hb : klmallocBinSize size < bigBin) :
    CallsSbrk E s.heap size ↔ s.AllLive (klmallocBinSize size) := by
  rw [hinv.allLive_iff hb]
  by_cases hhead : s.heap.binHead (klmallocBinSize size) = 0
  · refine iff_of_true ?_ hhead
    intro e
    rw [Heap.klmalloc_newPage hne hb hhead]
    rfl
  · refine iff_of_false ?_ hhead
    refine not_callsSbrk fun e => ?_
    obtain ⟨p, n, h', c', hrun, -⟩ :=
      hinv.heap.klmalloc_page (E := E.refusing e) hne hword hb hhead
    exact ⟨_, hrun⟩

/-- After every call the small bins have lost no cell and have none twice. -/
theorem smallBins_ok (E : Sbrk σ) (mem : Memory) (brk : σ) (hpos : 0 < E.heapEnd brk)
    (hpage : pageSize ∣ E.heapEnd brk) (hlt : E.heapEnd brk < 2 ^ 32) {s : Session σ}
    (hserved : Served E mem brk s) {b : Nat} (hb : b < bigBin) :
    (∃ stack pages, SmallBinOk s b stack pages) ∧
      ∀ size, s.Request (.malloc size) → klmallocBinSize size = b →
        (CallsSbrk E s.heap size ↔ s.AllLive b) := by
  obtain ⟨c, hinv⟩ := hserved.inv hpos hpage hlt
  refine ⟨⟨_, hinv.smallBinOk hb⟩, ?_⟩
  rintro size ⟨hsize, hhigh⟩ rfl
  exact hinv.callsSbrk_iff (Nat.ne_of_gt hsize) (by omega) hb

/-- Two cells of 64 bytes are live in the one page of their bin. -/
theorem smallBins_ok_bump : ∃ s : Session Nat, s.live = [⟨0x10204C, 64⟩, ⟨0x10200C, 64⟩] ∧
    (∃ stack pages, SmallBinOk s 4 stack pages) ∧
      ∀ size, s.Request (.malloc size) → klmallocBinSize size = 4 →
        (CallsSbrk Sbrk.bump s.heap size ↔ s.AllLive 4) := by
  obtain ⟨s, hserved, hlive, -⟩ := exists_served_bump
  exact ⟨s, hlive, smallBins_ok Sbrk.bump (fun _ => 0) 0x100000 (by decide) (by decide)
    (by decide) hserved (by decide)⟩

end Session

end X32PRos
