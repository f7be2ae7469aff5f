import X32PRos.Heap.Tiling
import X32PRos.Memory.SbrkPages

/-!
The allocator over the memory manager: `sbrk` is that of `core/mem.c`, with its
bitmap, its directory and its page tables in the one memory.
-/

namespace X32PRos

open Foundation

namespace Boot

variable {p : BootPlan} {old : List Nat} {k a n : Nat} {s s' : Boot}

/-! ### `sbrk` as the allocator calls it -/

theorem store32_heapEnd {v : Nat} (hrun : s.store32 a v = .ok s') : s'.heapEnd = s.heapEnd := by
  unfold Boot.store32 at hrun
  split at hrun
  case h_1 => rw [← Except.ok.inj hrun]
  case h_2 => cases hrun

theorem fill_heapEnd {val : UInt8} (hrun : s.fill a val n = .ok s') : s'.heapEnd = s.heapEnd := by
  induction n generalizing s' with
  | zero => rw [← Except.ok.inj hrun]
  | succ n ih =>
      obtain ⟨s₁, hfill, hstore⟩ := bind_eq_ok.mp hrun
      unfold store8 at hstore
      split at hstore
      case h_1 => cases hstore
      case h_2 =>
        rw [← Except.ok.inj hstore]
        change s₁.heapEnd = s.heapEnd
        exact ih hfill

theorem allocFrame_heapEnd {isKernel isWriteable : Int}
    (hrun : s.allocFrame a isKernel isWriteable = .ok s') : s'.heapEnd = s.heapEnd := by
  unfold Boot.allocFrame at hrun
  obtain ⟨entry, -, hrun⟩ := bind_eq_ok.mp hrun
  split at hrun
  case isTrue => rw [← Except.ok.inj hrun]
  case isFalse =>
    obtain ⟨index, -, hrun⟩ := bind_eq_ok.mp hrun
    split at hrun
    case isTrue => cases hrun
    case isFalse =>
      obtain ⟨s₁, hset, hrun⟩ := bind_eq_ok.mp hrun
      obtain ⟨entry', -, hstore⟩ := bind_eq_ok.mp hrun
      unfold Boot.setFrame at hset
      obtain ⟨word, -, hset⟩ := bind_eq_ok.mp hset
      exact (store32_heapEnd hstore).trans (store32_heapEnd hset)

theorem getPage_heapEnd {make : Int} {r : Nat × Boot} (hrun : s.getPage a make = .ok r) :
    r.2.heapEnd = s.heapEnd := by
  unfold Boot.getPage at hrun
  obtain ⟨table, -, hrun⟩ := bind_eq_ok.mp hrun
  split at hrun
  case isTrue => rw [← Except.ok.inj hrun]
  case isFalse =>
    split at hrun
    case isTrue =>
      obtain ⟨s₁, hmade, hrun⟩ := bind_eq_ok.mp hrun
      obtain ⟨table', -, hrun⟩ := bind_eq_ok.mp hrun
      unfold Boot.makeTable at hmade
      obtain ⟨s₂, hstore, hmade⟩ := bind_eq_ok.mp hmade
      obtain ⟨base, -, hmade⟩ := bind_eq_ok.mp hmade
      obtain ⟨s₃, hfill, hstore'⟩ := bind_eq_ok.mp hmade
      have hstored := store32_heapEnd hstore
      have hfilled := fill_heapEnd hfill
      rw [← Except.ok.inj hrun]
      exact (store32_heapEnd hstore').trans (hfilled.trans hstored)
    case isFalse => rw [← Except.ok.inj hrun]

theorem mapGrowthTurn_heapEnd {r r' : Nat × Boot} (hrun : mapGrowthTurn r = .ok r') :
    r'.2.heapEnd = r.2.heapEnd := by
  unfold mapGrowthTurn at hrun
  obtain ⟨first, hfirst, hrun⟩ := bind_eq_ok.mp hrun
  obtain ⟨second, hsecond, hrun⟩ := bind_eq_ok.mp hrun
  obtain ⟨b, halloc, hrun⟩ := bind_eq_ok.mp hrun
  rw [← Except.ok.inj hrun]
  exact (allocFrame_heapEnd halloc).trans ((getPage_heapEnd hsecond).trans (getPage_heapEnd hfirst))

theorem sbrk_heapEnd {increment address : Nat} (hrun : s.sbrk increment = .ok (address, s')) :
    address = s.heapEnd ∧ s'.heapEnd = wordAdd s.heapEnd increment := by
  unfold Boot.sbrk at hrun
  obtain ⟨_, -, hrun⟩ := bind_eq_ok.mp hrun
  obtain ⟨r, hloop, hrun⟩ := bind_eq_ok.mp hrun
  rw [Except.ok.injEq, Prod.mk.injEq] at hrun
  have hend := Loop.loop_invariant (I := fun r : Nat × Boot => r.2.heapEnd = wordAdd s.heapEnd increment)
    (fun r r' hr _ hturn => (mapGrowthTurn_heapEnd hturn).trans hr) _ _ _ rfl hloop
  rw [← hrun.1, ← hrun.2]
  exact ⟨rfl, hend.1⟩

def heapSbrk : Sbrk Boot where
  heapEnd := heapEnd
  call increment s := s.sbrk increment
  returns := sbrk_heapEnd

theorem heapSbrk_call (increment : Nat) (s : Boot) : heapSbrk.call increment s = s.sbrk increment := rfl

/-- The heap still fits after a call: its end has not wrapped, and every page up to there fits
that the frames suffice for. -/
structure GrowthFits (start : Nat) (memsize : UInt32) (s s' : Boot) : Prop where
  noWrap : s.heapEnd ≤ s'.heapEnd
  pages : ∀ k, k * 0x1000 < s'.heapEnd → k ≤ 32 * indexFromBit (memsize / 4).toNat →
    PageFits start memsize k

/-- All that the heap rests on lies in front of it. -/
theorem HeapMapped.tables_below (h : s.HeapMapped p old k)
    (hold : ∀ b ∈ old, b + 0x1000 ≤ p.pages * 0x1000) :
    ∀ b ∈ s.made, b + 0x1000 ≤ p.pages * 0x1000 := by
  have hlow := h.pages.low
  have hnear := p.near
  have hbehind := p.behind
  have hfixed := p.fixed
  have hframes : p.frames ≤ p.pages * 0x1000 := by omega
  intro b hb
  rw [h.pages.made] at hb
  cases List.mem_append.mp hb with
  | inr hboot => exact hold b hboot
  | inl hnew =>
      obtain ⟨j, hj, rfl⟩ := Mm.mem_growthTables.mp hnew
      have hle := Nat.mul_le_mul_right 0x1000 hj
      rw [Nat.succ_mul] at hle
      exact Nat.le_trans hle (Nat.le_trans hlow hframes)

end Boot

section Boot

variable {start : Nat} {memsize : UInt32} (hlow : 0x100000 ≤ start)
  (hhigh : Mm.bootEnd start memsize < 2 ^ 32) {old : List Nat} {k : Nat} {s s' : Boot}

theorem Boot.GrowthFits.call (h : GrowthFits start memsize s s') {increment address : Nat}
    (hend : s.heapEnd < 2 ^ 32) (hword : increment < 2 ^ 32)
    (hok : s.sbrk increment = .ok (address, s')) : SbrkFits start memsize s increment := by
  obtain ⟨-, hsum⟩ := sbrk_heapEnd hok
  have hle := h.noWrap
  have hrange : s.heapEnd + increment < 2 ^ 32 := by
    unfold wordAdd at hsum
    omega
  rw [wordAdd_of_lt hrange] at hsum
  exact ⟨hrange, fun k hk hscan => h.pages k (hsum ▸ hk) hscan⟩

theorem Boot.HeapMapped.grow (h : s.HeapMapped (bootPlan hlow hhigh) old k)
    {increment address : Nat} (hfits : SbrkFits start memsize s increment)
    (hok : s.sbrk increment = .ok (address, s')) :
    ∃ k', s'.HeapMapped (bootPlan hlow hhigh) old k' := by
  cases h.sbrk (sbrk_dvd hok) hfits.range
    (fun j hj hscan => hfits.admits hlow hhigh hj hscan) with
  | inl herr =>
      rw [herr.1] at hok
      cases hok
  | inr hret =>
      obtain ⟨k', s₁, hret, hs₁, -⟩ := hret
      rw [hok, Except.ok.injEq, Prod.mk.injEq] at hret
      rw [hret.2]
      exact ⟨k', hs₁⟩

end Boot

namespace Session

open Boot

abbrev Paged (start₀ : Nat) (memsize : UInt32) (boot : Boot) (mem : Memory) : Session Boot → Prop :=
  Run.Reaches (apply heapSbrk)
    (fun s o s' => s.ApiRequest o ∧ GrowthFits start₀ memsize s.heap.brk s'.heap.brk)
    (start mem boot.heapInstall)

/-- The live blocks in the machine: the processor finds each byte at its own address and
through no other one, and neither a page table nor the directory nor a bit of the bitmap that
stands for a mapped page is in a block. -/
structure Backed (s : Session Boot) : Prop where
  present : ∀ b ∈ s.live, ∀ x ∈ b, translateFrom s.heap.brk.mem s.heap.brk.cr3 x = some x
  own : ∀ b ∈ s.live, ∀ x ∈ b, ∀ y < 2 ^ 32,
    translateFrom s.heap.brk.mem s.heap.brk.cr3 y = some x → y = x
  tables : ∀ b ∈ s.live, ∀ t ∈ s.heap.brk.made, b.Apart ⟨t, 0x1000⟩
  directory : ∀ b ∈ s.live, b.Apart ⟨s.heap.brk.kernelDirectory, pageDirectorySize⟩
  bitmap : ∀ b ∈ s.live, ∀ j, j * 0x1000 < s.heap.brk.heapEnd → s.heap.brk.frames + j / 8 ∉ b

variable {start₀ : Nat} {memsize : UInt32} (hlow : 0x100000 ≤ start₀)
  (hhigh : Mm.bootEnd start₀ memsize < 2 ^ 32) {boot : Boot} {mem : Memory} {s s' : Session Boot}

theorem chunkSize_span {size : Nat} (hsize : size < 2 ^ 31 - 44) :
    span (chunkSize size) < 2 ^ 32 := by
  have hlt := chunkSize_lt hsize
  unfold span bigBinHeaderSize pageSize
  split <;> omega

structure PagedInv (p : BootPlan) (boot : Boot) (s : Session Boot) : Prop where
  inv : ∃ c, Inv heapSbrk boot.heapInstall.heapEnd c s
  short : s.Short
  mapped : ∃ k, s.heap.brk.HeapMapped p boot.made k

theorem PagedInv.step (hs : s.PagedInv (bootPlan hlow hhigh) boot) {o : ApiCall}
    (hrequest : s.ApiRequest o) (hfits : GrowthFits start₀ memsize s.heap.brk s'.heap.brk)
    (hstep : s.apply heapSbrk o = .ok s') : s'.PagedInv (bootPlan hlow hhigh) boot := by
  obtain ⟨c, hinv⟩ := hs.inv
  obtain ⟨k, hmapped⟩ := hs.mapped
  obtain ⟨hinv', ⟨size, hsize, hgrows⟩, -⟩ := hinv.apply_spec hs.short hrequest hfits.noWrap hstep
  refine ⟨hinv', hs.short.grows hgrows hsize, ?_⟩
  rcases hgrows.growth with ⟨-, hbrk⟩ | ⟨-, -, hcall, -⟩
  · rw [hbrk]
    exact ⟨k, hmapped⟩
  · exact hmapped.grow hlow hhigh
      (hfits.call (hmapped.heapEnd ▸ hmapped.word) (chunkSize_span hsize) hcall) hcall

theorem PagedInv.backed {p : BootPlan} (hs : s.PagedInv p boot)
    (hend : boot.heapInstall.heapEnd = p.pages * 0x1000)
    (hold : ∀ b ∈ boot.made, b + 0x1000 ≤ p.pages * 0x1000) : s.Backed := by
  obtain ⟨c, hinv⟩ := hs.inv
  obtain ⟨k, hmapped⟩ := hs.mapped
  have hplaced := hmapped.pages.grown.mapped.placed
  have hbehind := p.behind
  have hfixed := p.fixed
  have hpos := p.tables_pos
  have hblock : ∀ b ∈ s.live, p.pages * 0x1000 ≤ b.base ∧ ∀ x ∈ b, x < k * 0x1000 := by
    intro b hb
    obtain ⟨hbase, hlast⟩ := hinv.safe.obtained b hb
    refine ⟨hend ▸ hbase, fun x hx => ?_⟩
    rw [← hmapped.heapEnd]
    exact Nat.lt_of_lt_of_le (Region.mem_iff.mp hx).2 hlast
  have hfound : ∀ y < 2 ^ 32, translateFrom s.heap.brk.mem s.heap.brk.cr3 y =
      if y < k * 0x1000 then some y else none := fun y hy => hmapped.pages.translateFrom_eq hy
  constructor
  case present =>
    intro b hb x hx
    have hlt := (hblock b hb).2 x hx
    rw [hfound x (Nat.lt_trans hlt hmapped.word), if_pos hlt]
  case own =>
    intro b hb x hx y hy heq
    rw [hfound y hy] at heq
    by_cases hlt : y < k * 0x1000
    · rw [if_pos hlt, Option.some.injEq] at heq
      exact heq
    · rw [if_neg hlt] at heq
      cases heq
  case tables =>
    intro b hb t ht
    have hbelow := hmapped.tables_below hold t ht
    exact (Region.apart_of_end_le (Nat.le_trans hbelow (hblock b hb).1)).symm
  case directory =>
    intro b hb
    have hbase := (hblock b hb).1
    rw [hplaced.directory]
    refine (Region.apart_of_end_le (Nat.le_trans ?_ hbase)).symm
    unfold pageDirectorySize
    dsimp only
    omega
  case bitmap =>
    intro b hb j hj hin
    have hbase := (hblock b hb).1
    have hroom := hmapped.pages.grown.mapped.image.room
    rw [hmapped.heapEnd] at hj
    have hbit := p.bit_apart (Nat.lt_of_lt_of_le (Nat.lt_of_mul_lt_mul_right hj) hroom)
    rw [hplaced.frames, Region.mem_iff] at hin
    omega

include hlow hhigh in
/-- In every session on the heap of a booted machine: the live blocks are the
callers', and so are the bytes of the machine behind them. -/
theorem heap_on_paging {mem₀ : Memory} {fuel : Nat} (hapart : BitsApart start₀ memsize)
    (hboot : (Boot.initial start₀ mem₀).pagingInstall fuel memsize = .ok boot) (mem : Memory)
    (hpaged : Paged start₀ memsize boot mem s) :
    HeapSafe heapSbrk boot.heapInstall.heapEnd s ∧ s.Backed := by
  have hbooted := pagingInstall_returned hlow hhigh rfl rfl rfl hapart hboot
  obtain ⟨k, hmapped, -⟩ := HeapOf.install.mapped hlow hhigh hbooted
  have hend : boot.heapInstall.heapEnd = (bootPlan hlow hhigh).pages * 0x1000 := hbooted.pointer
  have hfixed := (bootPlan hlow hhigh).fixed
  have hbehind := (bootPlan hlow hhigh).behind
  have hinv : s.PagedInv (bootPlan hlow hhigh) boot := by
    refine Run.Reaches.invariant (I := PagedInv _ boot) hpaged ⟨⟨fun _ => none, ?_⟩, ?_, k, hmapped⟩ ?_
    · refine inv_start heapSbrk mem boot.heapInstall ?_ ?_ ?_
      · change 0 < boot.heapInstall.heapEnd
        omega
      · exact ⟨_, hend.trans (Nat.mul_comm _ _)⟩
      · change boot.heapInstall.heapEnd < 2 ^ 32
        rw [hmapped.heapEnd]
        exact hmapped.word
    · intro a ha
      cases ha
    · rintro s o s' hs ⟨hrequest, hfits⟩ hstep
      exact hs.step hlow hhigh hrequest hfits hstep
  obtain ⟨c, hheap⟩ := hinv.inv
  refine ⟨hheap.safe, hinv.backed hend fun b hb => ?_⟩
  obtain ⟨t, ht, rfl⟩ := hbooted.made b hb
  omega

/-- On a machine with 128 MB: the first block takes a page of the heap. -/
theorem heap_on_paging_128MB : ∃ (boot : Boot) (s : Session Boot),
    (Boot.initial 0x105060 fun _ => 0).pagingInstall 0x1000 0x20000 = .ok boot ∧
      s.live.map Region.len = [100] ∧ HeapSafe heapSbrk boot.heapInstall.heapEnd s ∧ s.Backed := by
  have hlow : 0x100000 ≤ 0x105060 := by decide
  have hhigh : Mm.bootEnd 0x105060 0x20000 < 2 ^ 32 := by decide
  obtain ⟨boot, b, hboot, hend, hfits, hcall⟩ := Boot.growth_returns hlow hhigh (fun _ => 0)
    (by decide) (by decide) (show _ < 0x1000 by decide) (show 0x1000 ∣ 0x1000 by decide) (by decide) (by decide)
    ⟨by decide, by decide, by decide⟩
  rw [show Mm.bootEnd 0x105060 0x20000 = 0x108000 by decide] at hend
  have hgrown := (sbrk_heapEnd hcall).2
  rw [hend, show wordAdd 0x108000 0x1000 = 0x109000 by decide] at hgrown
  have hheap : heapSbrk.heapEnd boot.heapInstall = 0x108000 := hend
  have hinv := (inv_start heapSbrk (fun _ => 0) boot.heapInstall (by rw [hheap]; decide)
    ⟨0x108, hheap⟩ (by rw [hheap]; decide)).heap
  have hhead : (start (fun _ => 0) boot.heapInstall).heap.binHead (klmallocBinSize 100) = 0 := rfl
  have hcall' : heapSbrk.call pageSize (start (fun _ => 0) boot.heapInstall).heap.brk =
      .ok (heapSbrk.heapEnd boot.heapInstall, b) := (heapSbrk_call _ _).trans hcall
  obtain ⟨q, n, h', c', hrun, -, ha, hbrk⟩ := hinv.klmalloc_newPage (E := heapSbrk)
    (show 100 ≠ 0 by decide) (by decide) (by decide) hhead hcall'
    (show heapSbrk.heapEnd boot.heapInstall + 4096 < 2 ^ 32 by rw [hheap]; decide)
  have hq : q ≠ 0 := ha.busy_self.base_ne_zero ha.inv.core.layout
  have hstep : (start (fun _ => 0) boot.heapInstall).apply heapSbrk (.basic (.malloc 100)) =
      .ok ((start (fun _ => 0) boot.heapInstall).grant heapSbrk [] q 100 h') := by
    change (start (fun _ => 0) boot.heapInstall).step heapSbrk (.malloc 100) = _
    rw [step_malloc, hrun]
    rfl
  have hgrowth : GrowthFits 0x105060 0x20000 boot.heapInstall h'.brk := by
    rw [hbrk]
    refine ⟨by rw [hgrown, hend]; decide, fun k hk hscan => hfits.pages k ?_ hscan⟩
    rw [hgrown] at hk
    rw [hend]
    exact hk
  have hrequest : (start (fun _ => 0) boot.heapInstall).ApiRequest (.basic (.malloc 100)) :=
    ⟨by decide, by decide⟩
  have hpaged : Paged 0x105060 0x20000 boot (fun _ => 0) ((start (fun _ => 0) boot.heapInstall).grant
      heapSbrk [] q 100 h') := .tail .refl ⟨hrequest, hgrowth⟩ hstep
  refine ⟨boot, _, hboot, ?_, heap_on_paging hlow hhigh (by decide) hboot _ hpaged⟩
  rw [grant, if_neg hq]
  rfl

end Session

end X32PRos
