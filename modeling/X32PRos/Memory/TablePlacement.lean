import X32PRos.Memory.SbrkPages

/-!
Where heap growth puts its page tables. `heap_install` resets the placement
pointer so that the placement allocator is of no more use, but `get_page` goes
on using it: the tables go up from address 0, towards screen memory.
-/

namespace X32PRos

open Foundation

def tableRegion (b : Nat) : Region := ⟨b, 0x1000⟩

/-- The tables of `new` lie outside screen and BIOS memory, the kernel image with
the boot-time blocks, the heap, and every table made before. -/
structure TablesClear (heapStart heapEnd : Nat) (older new : List Nat) : Prop where
  screen : ∀ b ∈ new, Region.Apart (tableRegion b) ⟨0xA0000, 0x60000⟩
  image : ∀ b ∈ new, Region.Apart (tableRegion b) ⟨0x100000, heapStart - 0x100000⟩
  heap : ∀ b ∈ new, Region.Apart (tableRegion b) ⟨heapStart, heapEnd - heapStart⟩
  older : ∀ b ∈ new, ∀ b' ∈ older, Region.Apart (tableRegion b) (tableRegion b')
  other : new.Pairwise fun b b' => Region.Apart (tableRegion b) (tableRegion b')

/-- The tables go up from 0, so what they can reach first is screen memory, with
the table of number 160. -/
theorem tablesClear_growthTables {heapStart heapEnd c : Nat} {older : List Nat}
    (hstart : 0x100000 ≤ heapStart) (holder : ∀ b ∈ older, 0x100000 ≤ b) :
    TablesClear heapStart heapEnd older (Mm.growthTables c) ↔ c ≤ 160 := by
  constructor
  · intro hclear
    by_contra hmany
    have hmem : 160 * 0x1000 ∈ Mm.growthTables c := Mm.mem_growthTables.mpr ⟨160, by omega, rfl⟩
    exact hclear.screen _ hmem 0xA0000 (by decide) (by decide)
  · intro hfew
    have hlow : ∀ b ∈ Mm.growthTables c, b + 0x1000 ≤ 0xA0000 := by
      intro b hb
      obtain ⟨j, hj, rfl⟩ := Mm.mem_growthTables.mp hb
      omega
    have hapart : ∀ b ∈ Mm.growthTables c, ∀ r : Region, 0xA0000 ≤ r.base →
        Region.Apart (tableRegion b) r := fun b hb r hr =>
      Region.apart_of_end_le (Nat.le_trans (hlow b hb) hr)
    constructor
    case screen =>
      intro b hb
      exact hapart b hb _ (Nat.le_refl _)
    case image =>
      intro b hb
      exact hapart b hb _ (show 0xA0000 ≤ 0x100000 by decide)
    case heap =>
      intro b hb
      exact hapart b hb _ (by dsimp only; omega)
    case older =>
      intro b hb b' hb'
      exact hapart b hb _ (Nat.le_trans (by decide) (holder b' hb'))
    case other =>
      apply (Mm.growthTables_pairwise c).imp
      intro b b' hle
      exact (Region.apart_of_end_le hle).symm

/-- Number 160 is the table for the 160th slot behind those of the boot. -/
theorem growthCount_le_iff {h k : Nat} (hboot : h ≤ k) : Mm.growthCount h k ≤ 160 ↔
    k * 0x1000 ≤ ((h * 0x1000 + 0x3FFFFF) / 0x400000 + 159) * 0x400000 := by
  unfold Mm.growthCount
  split <;> omega

section Boot

variable {start : Nat} {memsize : UInt32} (hlow : 0x100000 ≤ start)
  (hhigh : Mm.bootEnd start memsize < 2 ^ 32) {mem : Memory} {fuel : Nat} {increments : List Nat}
  {boot s : Boot}

include hlow hhigh in
/-- In every run of calls that fit, the page tables of the growth stay clear of live memory
exactly while the heap ends no more than 159 directory slots above the slots of the boot. -/
theorem growth_tablesClear_iff (hapart : BitsApart start memsize)
    (hboot : (Boot.initial start mem).pagingInstall fuel memsize = .ok boot)
    (hs : boot.HeapOf start memsize increments s) :
    ∃ new, s.made = new ++ boot.made ∧
      (TablesClear boot.heapInstall.heapEnd s.heapEnd boot.made new ↔
        boot.heapInstall.heapEnd + increments.sum ≤
          ((boot.heapInstall.heapEnd + 0x3FFFFF) / 0x400000 + 159) * 0x400000) := by
  have hbooted := pagingInstall_returned hlow hhigh rfl rfl rfl hapart hboot
  obtain ⟨k, hmapped, hsum⟩ := hs.mapped hlow hhigh hbooted
  have hstart : boot.heapInstall.heapEnd = (bootPlan hlow hhigh).pages * 0x1000 := hbooted.pointer
  have hbase := (bootPlan hlow hhigh).directory_low
  have hbehind := (bootPlan hlow hhigh).behind
  have hfixed := (bootPlan hlow hhigh).fixed
  refine ⟨_, hmapped.pages.made, ?_⟩
  rw [tablesClear_growthTables (by omega), growthCount_le_iff hmapped.pages.boot, hsum, hstart]
  intro b hb
  obtain ⟨t, -, rfl⟩ := hbooted.made b hb
  omega

/-- The first 4 MB of growth bring two tables, of which the one at address 0 is lost. -/
theorem growth_tablesClear_4MB : ∃ boot s new,
    (Boot.initial 0x105060 fun _ => 0).pagingInstall 0x1000 0x20000 = .ok boot ∧
      boot.HeapOf 0x105060 0x20000 [0x400000] s ∧ s.made = new ++ boot.made ∧
        (TablesClear boot.heapInstall.heapEnd s.heapEnd boot.made new ↔
          boot.heapInstall.heapEnd + [0x400000].sum ≤
            ((boot.heapInstall.heapEnd + 0x3FFFFF) / 0x400000 + 159) * 0x400000) := by
  obtain ⟨boot, s, hboot, -, hfits, hrun⟩ := Boot.growth_returns (show 0x100000 ≤ 0x105060 by decide)
    (show Mm.bootEnd 0x105060 0x20000 < 2 ^ 32 by decide) (fun _ => 0) (by decide) (by decide)
    (show _ < 0x1000 by decide) (show 0x1000 ∣ 0x400000 by decide) (by decide) (by decide)
    ⟨by decide, by decide, by decide⟩
  have hs := Boot.HeapOf.install.sbrk hfits hrun
  obtain ⟨new, hnew⟩ := growth_tablesClear_iff (by decide) (by decide) (by decide) hboot hs
  exact ⟨boot, s, new, hboot, hs, hnew⟩

/-- After 640 MB of growth a page table lies on screen memory. -/
theorem growth_reaches_screen : ∃ boot s new,
    (Boot.initial 0x105000 fun _ => 0).pagingInstall 0x1000 0x300000 = .ok boot ∧
      boot.heapInstall.sbrk 0x28000000 = .ok (boot.heapInstall.heapEnd, s) ∧
        s.made = new ++ boot.made ∧
          ¬TablesClear boot.heapInstall.heapEnd s.heapEnd boot.made new := by
  have hlow : 0x100000 ≤ 0x105000 := by decide
  have hhigh : Mm.bootEnd 0x105000 0x300000 < 2 ^ 32 := by decide
  obtain ⟨boot, s, hboot, hend, hfits, hrun⟩ := Boot.growth_returns hlow hhigh (fun _ => 0) (by decide)
    (by decide) (show _ < 0x1000 by decide) (show 0x1000 ∣ 0x28000000 by decide) (by decide)
    (by decide) ⟨by decide, by decide, by decide⟩
  have hbooted := pagingInstall_returned hlow hhigh rfl rfl rfl (by decide) hboot
  have hs := Boot.HeapOf.install.sbrk hfits hrun
  obtain ⟨k, hmapped, hsum⟩ := hs.mapped hlow hhigh hbooted
  rw [hend, show Mm.bootEnd 0x105000 0x300000 = 0x10E000 by decide] at hsum
  refine ⟨boot, s, _, hboot, hrun, hmapped.pages.made, ?_⟩
  rw [tablesClear_growthTables, growthCount_le_iff hmapped.pages.boot, hsum]
  · rw [show (bootPlan hlow hhigh).pages = 0x10E from
      show Mm.bootEnd 0x105000 0x300000 / 0x1000 = 0x10E by decide]
    decide
  · rw [hend]
    decide
  · intro b hb
    obtain ⟨t, -, rfl⟩ := hbooted.made b hb
    exact Nat.le_trans (show 0x100000 ≤ Mm.firstTable 0x105000 0x300000 by decide)
      (Nat.le_add_right _ _)

end Boot

end X32PRos
