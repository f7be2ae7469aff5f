import X32PRos.Memory.HeapGrowth
import X32PRos.Memory.MainBoot

/-!
The boot over one memory against the boot with a bitmap and tables of their own:
both come to the same tables, entry for entry, and so to the same translation.
-/

namespace X32PRos

open Foundation

namespace Mm

def flat (_slot base : Nat) : Nat := base

/-- Frames without a bit among those of the boot are left out. -/
def view (p : BootPlan) (m : Mm Nat) : View where
  table := m.tables
  physical := m.physicalTables
  entry := m.entries
  inUse f := decide (f < p.pages) && m.allocator.inUse f

structure BootAt (p : BootPlan) (n k : Nat) (m : Mm Nat) : Prop where
  image : PageImage p (p.bootTab n) k (m.view p)
  clean : ∀ t < 1024, n ≤ t → m.physicalTables t = 0
  pointer : m.placementPointer = if n = 0 then p.directory + 0x2004 else p.firstTable + 0x1000 * n
  scanned : m.allocator.scanned = p.words * 32

variable {p : BootPlan} {n k t base next : Nat} {m : Mm Nat}

theorem makes_table (hplace : kvmallocP pageTableSize m.placementPointer = (⟨base, some base⟩, next))
    (haligned : 0x1000 ∣ base) :
    View.Makes p t base (m.view p) ((m.makeTable flat t).view p) ∧
      (m.makeTable flat t).placementPointer = next := by
  unfold makeTable place
  rw [hplace]
  refine ⟨?_, rfl⟩
  constructor
  case table => exact fun _ _ => rfl
  case physical =>
    intro t' _
    change (if t' = t then base ||| 0x7 else m.physicalTables t') = _
    rw [or_seven haligned]
    rfl
  case blank =>
    intro i _
    exact congrFun (if_pos rfl) i
  case entry =>
    intro b _ hne i _
    exact congrFun (if_neg hne) i
  case inUse => exact fun _ _ => rfl

/-- The first blank page gets the frame of its own number. -/
theorem BootAt.alloc (h : m.BootAt p n k) (hk : k < p.pages) (hn : k / 1024 < n) (hclear : p.Clear k)
    (hplaces : p.Places (p.bootTab n)) :
    ∃ m', m.allocFrameAt (some (p.bootTab n (k / 1024), k % 1024)) 0 0 = .ok m' ∧
      m'.BootAt p n (k + 1) := by
  have hk20 : k < 2 ^ 20 := by
    have hnext := BootPlan.page_lt hk
    omega
  have hne := BootPlan.bootTab_ne_zero (p := p).mpr hn
  have hinUse : ∀ f ≤ k, m.allocator.inUse f = (m.view p).inUse f := by
    intro f hf
    change _ = (decide (f < p.pages) && m.allocator.inUse f)
    rw [decide_eq_true (Nat.lt_of_le_of_lt hf hk), Bool.true_and]
  have hfirst : m.allocator.firstFrame = k :=
    h.image.firstFrame hinUse (h.scanned ▸ hclear.frame) hclear.bit
  have hblank : m.entries (p.bootTab n (k / 1024)) (k % 1024) = Page.zero := by
    have hentry := h.image.entry _ hne (k % 1024) (Nat.mod_lt k (by decide))
    rwa [Nat.div_add_mod, if_neg (Nat.lt_irrefl k)] at hentry
  have hsome : m.allocator.firstFrame ≠ FrameAllocator.noFrame := by
    rw [hfirst]
    unfold FrameAllocator.noFrame
    omega
  have halloc := allocFrame_of_zero (show Page.zero.frame = 0 from rfl) hsome 0 0
  rw [hfirst, ← hblank] at halloc
  refine ⟨_, allocFrameAt_of_ok halloc, ?_⟩
  constructor
  case image =>
    refine h.image.allocates hplaces hclear.bit hne ?_
    constructor
    case table => exact fun _ _ => rfl
    case physical => exact fun _ _ => rfl
    case entry =>
      intro b _ i _
      change (if b = _ ∧ i = _ then _ else m.entries b i) = _
      rw [hblank]
      rfl
    case inUse =>
      intro f hf
      change (decide (f < p.pages) && FrameAllocator.inUse _ f) =
        (decide (f = k) || decide (f < p.pages) && m.allocator.inUse f)
      rw [FrameAllocator.inUse_setFrame, frame_addr_div hk20]
      by_cases heq : f = k
      · rw [heq, decide_eq_true hk, decide_eq_true rfl, Bool.true_or, Bool.true_or, Bool.true_and]
      · rw [decide_eq_false heq, Bool.false_or, Bool.false_or]
  case clean => exact h.clean
  case pointer => exact h.pointer
  case scanned => exact h.scanned

theorem BootAt.getPage (h : m.BootAt p ((k + 1023) / 1024) k) (hk : k < p.pages)
    (hslot : k / 1024 < p.slots) :
    ∃ m', m.getPage flat (k * 0x1000) 1 =
        (some (p.bootTab ((k + 1 + 1023) / 1024) (k / 1024), k % 1024), m') ∧
      m'.BootAt p ((k + 1 + 1023) / 1024) k := by
  have hpages := p.pages_le
  have hslots := p.slots_le
  have hpage : k * 0x1000 / 0x1000 = k := Nat.mul_div_cancel k (by decide)
  have htable : m.tables (k / 1024) = p.bootTab ((k + 1023) / 1024) (k / 1024) :=
    h.image.table _ hslot
  by_cases hfirst : k % 1024 = 0
  · have hn : (k + 1023) / 1024 = k / 1024 := by omega
    have hn' : (k + 1 + 1023) / 1024 = k / 1024 + 1 := by omega
    have htables : k / 1024 < p.tables := by omega
    rw [hn] at h htable
    have hnone := BootPlan.bootTab_of_le (p := p) (Nat.le_refl (k / 1024))
    have hroom := BootPlan.room_of_lt htables
    obtain ⟨hmakes, hpointer⟩ := makes_table (p := p) (t := k / 1024)
      (BootPlan.nextTable htables h.pointer) hroom.aligned
    have himage := h.image.makes (BootPlan.places_bootTab (Nat.le_of_lt htables) (Nat.le_of_lt hslot))
      hslot hnone (by
        intro _ t' heq
        have hlt := BootPlan.bootTab_ne_zero.mp (show p.bootTab (k / 1024) t' ≠ 0 by
          have hbehind := p.behind
          omega)
        rw [BootPlan.bootTab_of_lt hlt] at heq
        omega) hmakes
    rw [BootPlan.bootTab_succ] at himage
    have hnew := himage.table _ hslot
    rw [getPage_of_noTable (by rw [hpage, htable, hnone]), hpage, hn']
    refine ⟨_, congrArg (fun b => (some (b, k % 1024), _)) hnew, himage, ?_, ?_,
      by rw [makeTable_allocator]; exact h.scanned⟩
    · intro t ht hle
      exact (hmakes.physical t ht).trans (by
        rw [if_neg (by omega)]
        exact h.clean t ht (by omega))
    · rw [hpointer, if_neg (Nat.succ_ne_zero _)]
  · have hn : (k + 1023) / 1024 = (k + 1 + 1023) / 1024 := by omega
    have hne := BootPlan.bootTab_ne_zero (p := p).mpr (show k / 1024 < (k + 1023) / 1024 by omega)
    rw [getPage_of_table (by rw [hpage, htable]; exact hne), hpage, htable, ← hn]
    exact ⟨m, rfl, h⟩

theorem BootAt.turn (h : m.BootAt p ((k + 1023) / 1024) k) (hk : k < p.pages) (hclear : p.Clear k) :
    ∃ m', mapPlacedTurn flat (k * 0x1000, m) = .ok ((k + 1) * 0x1000, m') ∧
      m'.BootAt p ((k + 1 + 1023) / 1024) (k + 1) := by
  have hslot := hclear.slot
  have hpages := p.pages_le
  obtain ⟨m₁, hget, h₁⟩ := h.getPage hk hslot
  obtain ⟨m', halloc, h'⟩ := h₁.alloc hk (by omega) hclear
    (BootPlan.places_bootTab (by omega) (by omega))
  have hnext := BootPlan.page_lt hk
  rw [Nat.succ_mul] at hnext
  refine ⟨m', ?_, h'⟩
  unfold mapPlacedTurn mapPage
  dsimp only
  rw [hget, halloc]
  dsimp only
  rw [nextPage_of_lt hnext, Nat.succ_mul]

theorem translate_view (m : Mm Nat) (x : Nat) : m.translate flat x = (m.view p).translate x := by
  have hslot : x / 0x1000 / 1024 = x / 0x400000 := by omega
  unfold translate walk View.translate
  rw [hslot]
  exact (ite_and ..).symm

/-- The bytes that are cleared leave no frame of theirs in use. -/
theorem clearFrameBytes_bit {count f : Nat} (frames : Bitmap 32) (hf : f < 8 * count) :
    (clearFrameBytes count frames).bit f = false := by
  unfold Bitmap.bit clearFrameBytes
  rw [BitVec.getLsbD_shiftLeft]
  have hlow : f % 32 < 8 * min 4 (count - 4 * (f / 32)) := by omega
  simp [hlow]

end Mm

namespace MainFits

variable {s : Boot} {mbootPtr fuel : Nat} (h : MainFits s mbootPtr)

include h in
theorem mm_setup (hcleared : h.plan.pages ≤ 8 * indexFromBit (memUpper s mbootPtr / 4).toNat)
    (frames : Bitmap 32) (entries : Nat → Nat → Page) :
    ((Mm.initial (bitmapBase s mbootPtr) frames entries).pagingSetup (memUpper s mbootPtr)).BootAt
      h.plan 0 0 := by
  have hnear := h.plan.near
  have hbehind := h.plan.behind
  have hlast := BootPlan.table_lt h.plan.tables_pos
  have hlow := h.plan.low
  have hsum : bitmapBase s mbootPtr + indexFromBit (memUpper s mbootPtr / 4).toNat < 2 ^ 32 := by
    change h.plan.frames + indexFromBit h.plan.nframes.toNat < 2 ^ 32
    omega
  have hbase : pageBase (bitmapBase s mbootPtr + indexFromBit (memUpper s mbootPtr / 4).toNat) =
      h.plan.directory := pageBase_eq hsum
  constructor
  case image =>
    refine BootPlan.pageImage_start (fun _ _ => rfl) (fun f _ => ?_)
    by_cases hf : f < h.plan.pages
    · have hclear := Mm.clearFrameBytes_bit (f := f) frames (Nat.lt_of_lt_of_le hf hcleared)
      exact (congrArg _ hclear).trans (Bool.and_false _)
    · exact (congrArg (· && _) (decide_eq_false hf)).trans (Bool.false_and _)
  case clean => exact fun _ _ _ => rfl
  case pointer =>
    unfold Mm.pagingSetup Mm.place Mm.initial kmalloc kvmalloc
    dsimp only
    rw [kmallocReal_unaligned, Nat.mod_eq_of_lt hsum, kmallocReal_aligned _ _ hsum
      (show 0x1000 ≤ h.plan.frames + _ by omega), hbase, if_pos rfl]
    exact Nat.mod_eq_of_lt (show h.plan.directory + 0x2004 < 2 ^ 32 by omega)
  case scanned => rfl

include h in
theorem mm_pagingInstall
    (hcleared : h.plan.pages ≤ 8 * indexFromBit (memUpper s mbootPtr / 4).toNat)
    (frames : Bitmap 32) (entries : Nat → Nat → Page) (hfuel : h.plan.pages < fuel) :
    ∃ boot, Mm.pagingInstall Mm.flat fuel (memUpper s mbootPtr)
        (Mm.initial (bitmapBase s mbootPtr) frames entries) = .ok boot ∧
      boot.BootAt h.plan h.plan.tables h.plan.pages := by
  obtain ⟨i, boot, hloop, hboot⟩ := h.plan.loop_maps Mm.placementPointer
    (fun k m => m.BootAt h.plan ((k + 1023) / 1024) k) (fun _ _ hk => hk.pointer)
    (fun _ _ hk hlt => hk.turn hlt (clear_of_bitsApart _ h.high h.bits h.enough hlt))
    (h.mm_setup hcleared frames entries) hfuel
  have hmapped : Mm.mapPlaced Mm.flat fuel (0, (Mm.initial (bitmapBase s mbootPtr) frames
    entries).pagingSetup (memUpper s mbootPtr)) = .ok (i, boot) := hloop
  rw [h.plan.count_eq] at hboot
  exact ⟨boot, by rw [Mm.pagingInstall, hmapped], hboot⟩

end MainFits

/-- As long as the bits in use lie apart, and among those that are cleared, a bitmap, a
directory and tables that are objects of their own come to what the bytes come to: the
tables, their entries and the translation. -/
theorem main_refines (s : Boot) (mbootPtr fuel : Nat) (h : MainFits s mbootPtr)
    (hcleared : Mm.bootEnd (bitmapBase s mbootPtr) (memUpper s mbootPtr) / 0x1000 ≤
      8 * indexFromBit (memUpper s mbootPtr / 4).toNat)
    (hfuel : Mm.bootEnd (bitmapBase s mbootPtr) (memUpper s mbootPtr) / 0x1000 < fuel)
    (frames : Bitmap 32) (entries : Nat → Nat → Page) :
    ∃ s' boot, s.main fuel mbootPtr = .ok (headerBase s mbootPtr, s') ∧
      Mm.pagingInstall Mm.flat fuel (memUpper s mbootPtr)
        (Mm.initial (bitmapBase s mbootPtr) frames entries) = .ok boot ∧
      boot.placementPointer = s'.placementPointer ∧
      (∀ t < Mm.bootTables (bitmapBase s mbootPtr) (memUpper s mbootPtr),
        s'.mem.load32 (s'.slot t) = boot.tables t ∧
          s'.mem.load32 (s'.physicalSlot t) = boot.physicalTables t ∧
            ∀ i < 1024, s'.mem.load32 (boot.tables t + 4 * i) =
              (boot.entries (boot.tables t) i).encode) ∧
      (∀ f < boot.placementPointer / 0x1000, s'.allocator.inUse f = boot.allocator.inUse f) ∧
      ∀ x < 2 ^ 32, translateFrom s'.mem s'.cr3 x = boot.translate Mm.flat x := by
  obtain ⟨s', mem₀, hrun, hbooted, -⟩ := h.main_booted hfuel
  obtain ⟨boot, hboot, himage⟩ := h.mm_pagingInstall hcleared frames entries hfuel
  have htables := h.plan.tables_le
  have hpos := h.plan.tables_pos
  have hpointer : boot.placementPointer = h.plan.pages * 0x1000 := by
    rw [himage.pointer, if_neg (by omega), h.plan.fixed]
  refine ⟨s', boot, hrun, hboot, hpointer.trans hbooted.pointer.symm, ?_, ?_, ?_⟩
  · intro t ht
    have hne := BootPlan.bootTab_ne_zero (p := h.plan).mpr ht
    have hslot := hbooted.mapped.places.slot t hne
    have htable : boot.tables t = h.plan.bootTab h.plan.tables t := himage.image.table t hslot
    refine ⟨?_, ?_, ?_⟩
    · exact (hbooted.mapped.image.table t hslot).trans htable.symm
    · exact (hbooted.mapped.image.physical t hne).trans (himage.image.physical t hne).symm
    · intro i hi
      have hbytes := hbooted.mapped.image.entry t hne i hi
      have hentry := himage.image.entry t hne i hi
      rw [htable, ← Page.encode_decode (Memory.load32_lt s'.mem _)]
      exact congrArg Page.encode (hbytes.trans hentry.symm)
  · intro f hf
    rw [hpointer] at hf
    have hlt : f < h.plan.pages := by omega
    have hcap : f < h.plan.cap := Nat.lt_of_lt_of_le hlt hbooted.mapped.image.room
    have hinUse := himage.image.inUse f hcap
    change (decide (f < h.plan.pages) && boot.allocator.inUse f) = _ at hinUse
    rw [decide_eq_true hlt, Bool.true_and] at hinUse
    exact ((hbooted.mapped.image.inUse f hcap).trans (decide_eq_true hlt)).trans hinUse.symm
  · intro x hx
    have hword : h.plan.pages ≤ 2 ^ 20 := hbooted.mapped.word
    rw [hbooted.translateFrom_eq hx, Mm.translate_view (p := h.plan), hbooted.pointer]
    refine (himage.image.translate_eq hbooted.mapped.places hword (fun t ht hnone => ?_) hx).symm
    refine himage.clean t ht ?_
    by_contra hlt
    exact BootPlan.bootTab_ne_zero.mpr (Nat.lt_of_not_le hlt) hnone

theorem main_refines_128MB :
    ∃ s' boot, bootLoader.main 0x1000 0x9000 = .ok (headerBase bootLoader 0x9000, s') ∧
      Mm.pagingInstall Mm.flat 0x1000 (memUpper bootLoader 0x9000)
        (Mm.initial (bitmapBase bootLoader 0x9000) (fun _ => 0xFFFFFFFF)
          fun _ _ => Page.zero) = .ok boot ∧
      boot.placementPointer = s'.placementPointer ∧
      (∀ t < Mm.bootTables (bitmapBase bootLoader 0x9000) (memUpper bootLoader 0x9000),
        s'.mem.load32 (s'.slot t) = boot.tables t ∧
          s'.mem.load32 (s'.physicalSlot t) = boot.physicalTables t ∧
            ∀ i < 1024, s'.mem.load32 (boot.tables t + 4 * i) =
              (boot.entries (boot.tables t) i).encode) ∧
      (∀ f < boot.placementPointer / 0x1000, s'.allocator.inUse f = boot.allocator.inUse f) ∧
      ∀ x < 2 ^ 32, translateFrom s'.mem s'.cr3 x = boot.translate Mm.flat x :=
  main_refines bootLoader 0x9000 0x1000 bootLoader_fits (by decide) (by decide) _ _

end X32PRos
