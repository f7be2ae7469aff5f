import X32PRos.Memory.BootLoop

/-!
What `paging_install` maps, over one memory.
-/

namespace X32PRos

open Foundation

def bitmapBytes (start : Nat) (memsize : UInt32) : Nat := (Mm.bootEnd start memsize / 0x1000 + 7) / 8

/-- The bits for the pages of the boot lie in front of the directory, or between the slots
that are used and the physical addresses. -/
def BitsApart (start : Nat) (memsize : UInt32) : Prop :=
  start + bitmapBytes start memsize ≤ directoryBase start memsize ∨
    directoryBase start memsize + 4 * Mm.bootTables start memsize ≤ start ∧
      start + bitmapBytes start memsize ≤ directoryBase start memsize + 4096

def EnoughFrames (start : Nat) (memsize : UInt32) : Prop :=
  Mm.bootEnd start memsize / 0x1000 ≤ 32 * indexFromBit (memsize / 4).toNat

instance (start : Nat) (memsize : UInt32) : Decidable (BitsApart start memsize) :=
  inferInstanceAs (Decidable (_ ∨ _))

instance (start : Nat) (memsize : UInt32) : Decidable (EnoughFrames start memsize) :=
  inferInstanceAs (Decidable (_ ≤ _))

section Setup

variable {start : Nat} {memsize : UInt32} (hlow : 0x100000 ≤ start)
  (hhigh : Mm.bootEnd start memsize < 2 ^ 32) {s : Boot} (hpointer : s.placementPointer = start)

include hlow hhigh in
theorem bits_of_bitsApart (hapart : BitsApart start memsize) {k : Nat}
    (hk : k < (bootPlan hlow hhigh).pages) :
    k < (bootPlan hlow hhigh).cap ∧ k / 1024 < (bootPlan hlow hhigh).slots := by
  have hpages := (bootPlan hlow hhigh).pages_le
  have htables := (bootPlan hlow hhigh).tables_le
  unfold BitsApart bitmapBytes at hapart
  change k < Mm.bootEnd start memsize / 0x1000 at hk
  change Mm.bootEnd start memsize / 0x1000 ≤ 1024 * Mm.bootTables start memsize at hpages
  change Mm.bootTables start memsize ≤ 1024 at htables
  constructor
  · change k < if start < directoryBase start memsize then _ else _
    split
    case isTrue => change k < 8 * (directoryBase start memsize - start); omega
    case isFalse => change k < 8 * (directoryBase start memsize + 4096 - start); omega
  · change k / 1024 < if start < directoryBase start memsize then _ else _
    split
    case isTrue => omega
    case isFalse => change k / 1024 < (start - directoryBase start memsize) / 4; omega

include hlow hhigh in
theorem clear_of_bitsApart (hapart : BitsApart start memsize) (henough : EnoughFrames start memsize)
    {k : Nat} (hk : k < (bootPlan hlow hhigh).pages) : (bootPlan hlow hhigh).Clear k := by
  obtain ⟨hbit, hslot⟩ := bits_of_bitsApart hlow hhigh hapart hk
  unfold EnoughFrames at henough
  change k < Mm.bootEnd start memsize / 0x1000 at hk
  refine ⟨hbit, hslot, ?_⟩
  change k < indexFromBit (memsize / 4).toNat * 32
  omega

include hlow hhigh hpointer in
/-- The state in which the loop starts. -/
theorem pagingSetup_eq : s.pagingSetup memsize = { s with
    mem := memset (directoryBase start memsize) 0 pageDirectorySize
      (memset start 0 (indexFromBit (memsize / 4).toNat) s.mem)
    placementPointer := directoryBase start memsize + 0x2004
    frames := start
    nframes := memsize / 4
    kernelDirectory := directoryBase start memsize } := by
  have hnear := (bootPlan hlow hhigh).near
  have hend := BootPlan.table_lt (bootPlan hlow hhigh).tables_pos
  have hbehind := (bootPlan hlow hhigh).behind
  change directoryBase start memsize ≤ start + indexFromBit (memsize / 4).toNat ∧
    start + indexFromBit (memsize / 4).toNat < directoryBase start memsize + 0x1000 at hnear
  change (bootPlan hlow hhigh).firstTable = directoryBase start memsize + 0x2000 at hbehind
  have hsum : start + indexFromBit (memsize / 4).toNat < 2 ^ 32 := by omega
  have hbase : pageBase (start + indexFromBit (memsize / 4).toNat) = directoryBase start memsize :=
    pageBase_eq hsum
  unfold Boot.pagingSetup kmalloc kvmalloc
  simp only [hpointer, kmallocReal_unaligned, Nat.mod_eq_of_lt hsum,
    kmallocReal_aligned _ _ hsum (show 0x1000 ≤ start + _ by omega), hbase]
  rw [show pageDirectorySize = 0x2004 from rfl, Nat.mod_eq_of_lt (by omega)]

theorem memset_eq {b n : Nat} (val : UInt8) (m : Memory) (hn : n < 2 ^ 31) (x : Nat) :
    memset b val n m x = if b ≤ x ∧ x < b + n then val else m x := by
  rw [memset, turns_of_lt hn, fillBytes_eq]

include hlow hhigh hpointer in
theorem pagingSetup_byte (x : Nat) : (s.pagingSetup memsize).mem x =
    if directoryBase start memsize ≤ x ∧ x < directoryBase start memsize + 0x2004 then 0
    else if start ≤ x ∧ x < start + indexFromBit (memsize / 4).toNat then 0
    else s.mem x := by
  have hframes : indexFromBit (memsize / 4).toNat < 2 ^ 31 := by
    have hlt := (memsize / 4).toNat_lt
    unfold indexFromBit
    omega
  rw [pagingSetup_eq hlow hhigh hpointer]
  dsimp only
  rw [memset_eq _ _ (show pageDirectorySize < 2 ^ 31 by decide), memset_eq _ _ hframes]
  rfl

include hlow hhigh hpointer in
theorem pagingSetup_load32 {a : Nat} (hlo : directoryBase start memsize ≤ a)
    (hhi : a + 4 ≤ directoryBase start memsize + 0x2004) :
    (s.pagingSetup memsize).mem.load32 a = 0 := by
  apply Memory.load32_of_zero
  intro x hle hlt
  rw [pagingSetup_byte hlow hhigh hpointer, if_pos ⟨by omega, by omega⟩]

include hpointer in
theorem bootAt_setup (hoff : s.paging = false) (hmade : s.made = []) :
    (s.pagingSetup memsize).BootAt (bootPlan hlow hhigh) (s.pagingSetup memsize).mem 0 0 := by
  have hstate := pagingSetup_eq hlow hhigh hpointer
  have hslots := (bootPlan hlow hhigh).slots_le
  have hunpaged : (s.pagingSetup memsize).paging = false := by
    rw [hstate]
    exact hoff
  have hplaced : (s.pagingSetup memsize).Placed (bootPlan hlow hhigh) := by
    refine ⟨by rw [hstate]; rfl, by rw [hstate]; rfl, by rw [hstate]; rfl, fun hpaging => ?_⟩
    rw [hunpaged] at hpaging
    cases hpaging
  have hslot : ∀ t, (s.pagingSetup memsize).slot t = directoryBase start memsize + 4 * t := by
    intro t
    rw [Boot.slot, hplaced.directory]
    rfl
  have hphysical : ∀ t,
      (s.pagingSetup memsize).physicalSlot t = directoryBase start memsize + 4096 + 4 * t := by
    intro t
    rw [Boot.physicalSlot, hplaced.directory]
    rfl
  constructor
  case mapped =>
    constructor
    case placed => exact hplaced
    case places => exact BootPlan.places_bootTab (Nat.zero_le _) (Nat.zero_le _)
    case image =>
      refine BootPlan.pageImage_start (fun t ht => ?_) (fun f hf => ?_)
      · change (s.pagingSetup memsize).mem.load32 ((s.pagingSetup memsize).slot t) = 0
        rw [hslot]
        exact pagingSetup_load32 hlow hhigh hpointer (Nat.le_add_right _ _) (by omega)
      · have hbit := (bootPlan hlow hhigh).bit_apart hf
        have hnear := (bootPlan hlow hhigh).near
        have hzero : (s.pagingSetup memsize).mem (start + f / 8) = 0 := by
          rw [pagingSetup_byte hlow hhigh hpointer]
          change start + f / 8 < directoryBase start memsize ∨ _ ≤ start ∧
            start + f / 8 < directoryBase start memsize + 4096 at hbit
          change directoryBase start memsize ≤ start + indexFromBit (memsize / 4).toNat ∧ _ at hnear
          by_cases hin : directoryBase start memsize ≤ start + f / 8
          · rw [if_pos ⟨hin, by omega⟩]
          · rw [if_neg (by omega), if_pos ⟨by omega, by omega⟩]
        change (s.pagingSetup memsize).allocator.inUse f = _
        rw [Boot.inUse_byte, hplaced.frames]
        change ((s.pagingSetup memsize).mem (start + f / 8)).toNat.testBit (f % 8) = _
        rw [hzero]
        simp
    case word => exact Nat.zero_le _
    case low =>
      have hroom := (BootPlan.room_of_lt (bootPlan hlow hhigh).tables_pos).word
      rw [Boot.top, hunpaged]
      exact Nat.le_trans (Nat.le_add_right _ 0x1000) hroom
    case tables => exact fun t ht => absurd (BootPlan.bootTab_of_le (Nat.zero_le t)) ht
  case clean =>
    intro t ht _
    change (s.pagingSetup memsize).mem.load32 ((s.pagingSetup memsize).physicalSlot t) = 0
    rw [hphysical]
    exact pagingSetup_load32 hlow hhigh hpointer (by omega) (by omega)
  case unpaged => exact hunpaged
  case pointer =>
    rw [if_pos rfl, hstate]
    rfl
  case made =>
    intro b hb
    rw [hstate] at hb
    change b ∈ s.made at hb
    rw [hmade] at hb
    cases hb
  case scanned => exact Nat.zero_le _
  case rest => exact fun x _ => rfl

end Setup

namespace Boot

/-- The boot with all its pages mapped, and addresses translated. -/
structure Booted (p : BootPlan) (mem₀ : Memory) (s : Boot) : Prop where
  mapped : s.Mapped p (p.bootTab p.tables) p.pages
  clean : ∀ t < 1024, p.tables ≤ t → s.view.physical t = 0
  paged : s.paging = true
  pointer : s.placementPointer = p.pages * 0x1000
  made : ∀ b ∈ s.made, ∃ t < p.tables, b = p.firstTable + 0x1000 * t
  scanned : p.pages ≤ p.words * 32
  rest : ∀ x, p.Spare x → s.mem x = mem₀ x

variable {p : BootPlan} {mem₀ : Memory} {s : Boot}

theorem BootAt.booted (h : s.BootAt p mem₀ p.tables p.pages) :
    s.switchPageDirectory.Booted p mem₀ := by
  have hfixed := p.fixed
  have hslot : s.physicalSlot 0 = p.directory + 4096 := by
    rw [physicalSlot, h.mapped.placed.directory]
  have htop : s.switchPageDirectory.top p.pages = p.pages * 0x1000 := if_pos rfl
  constructor
  case mapped =>
    constructor
    case placed =>
      exact ⟨h.mapped.placed.frames, h.mapped.placed.nframes, h.mapped.placed.directory,
        fun _ => hslot⟩
    case places => exact h.mapped.places
    case image => exact h.mapped.image
    case word => exact h.mapped.word
    case low =>
      rw [htop]
      omega
    case tables =>
      intro t ht
      have hlt := BootPlan.bootTab_ne_zero.mp ht
      rw [htop, BootPlan.bootTab_of_lt hlt]
      omega
  case clean => exact h.clean
  case paged => rfl
  case pointer =>
    have hpos := p.tables_pos
    rw [hfixed]
    exact h.pointer.trans (if_neg (by omega))
  case made => exact h.made
  case scanned => exact h.scanned
  case rest => exact h.rest

theorem Booted.translateFrom_eq (h : s.Booted p mem₀) {x : Nat} (hx : x < 2 ^ 32) :
    translateFrom s.mem s.cr3 x = if x < s.placementPointer then some x else none := by
  rw [h.mapped.placed.cr3 h.paged, h.pointer]
  refine h.mapped.translateFrom_eq (fun t ht hnone => h.clean t ht ?_) hx
  by_contra hlt
  exact BootPlan.bootTab_ne_zero.mpr (Nat.lt_of_not_le hlt) hnone

end Boot

/-- The loop ends with every page of the boot mapped to itself. -/
theorem pagingInstall_booted {start : Nat} {memsize : UInt32} (hlow : 0x100000 ≤ start)
    (hhigh : Mm.bootEnd start memsize < 2 ^ 32) {s : Boot} (hpointer : s.placementPointer = start)
    (hoff : s.paging = false) (hmade : s.made = []) (hapart : BitsApart start memsize)
    (henough : EnoughFrames start memsize) {fuel : Nat}
    (hfuel : Mm.bootEnd start memsize / 0x1000 < fuel) :
    ∃ boot, s.pagingInstall fuel memsize = .ok boot ∧
      boot.Booted (bootPlan hlow hhigh) (s.pagingSetup memsize).mem := by
  obtain ⟨i, s', hloop, hs'⟩ := (bootPlan hlow hhigh).loop_maps Boot.placementPointer
    (fun k s' => s'.BootAt (bootPlan hlow hhigh) (s.pagingSetup memsize).mem ((k + 1023) / 1024) k)
    (fun _ _ hk => hk.pointer)
    (fun _ _ hk hlt => hk.turn hlt (clear_of_bitsApart hlow hhigh hapart henough hlt))
    (bootAt_setup hlow hhigh hpointer hoff hmade) hfuel
  have hmapped : Boot.mapPlaced fuel (0, s.pagingSetup memsize) = .ok (i, s') := hloop
  rw [(bootPlan hlow hhigh).count_eq] at hs'
  exact ⟨s'.switchPageDirectory, by rw [Boot.pagingInstall, hmapped], hs'.booted⟩

/-- A boot that returns with its bits apart has had its frames. -/
theorem pagingInstall_returned {start : Nat} {memsize : UInt32} (hlow : 0x100000 ≤ start)
    (hhigh : Mm.bootEnd start memsize < 2 ^ 32) {s boot : Boot}
    (hpointer : s.placementPointer = start) (hoff : s.paging = false) (hmade : s.made = [])
    (hapart : BitsApart start memsize) {fuel : Nat}
    (hrun : s.pagingInstall fuel memsize = .ok boot) :
    boot.Booted (bootPlan hlow hhigh) (s.pagingSetup memsize).mem := by
  unfold Boot.pagingInstall at hrun
  cases hloop : Boot.mapPlaced fuel (0, s.pagingSetup memsize) with
  | error e =>
      rw [hloop] at hrun
      cases hrun
  | ok r =>
      rw [hloop, Except.ok.injEq] at hrun
      obtain ⟨⟨k, hle, hi, hk⟩, hexit⟩ := Loop.loop_invariant
        (I := fun r => ∃ k ≤ (bootPlan hlow hhigh).pages, r.1 = k * 0x1000 ∧
          r.2.BootAt (bootPlan hlow hhigh) (s.pagingSetup memsize).mem ((k + 1023) / 1024) k)
        (by
          rintro ⟨i, s'⟩ r' ⟨k, hle, rfl, hk⟩ hgo hturn
          have hlt := hk.lt_pages_iff.mp (of_decide_eq_true (Except.ok.inj hgo))
          obtain ⟨hbit, hslot⟩ := bits_of_bitsApart hlow hhigh hapart hlt
          by_cases hscan : k < (bootPlan hlow hhigh).words * 32
          · obtain ⟨s'', hok, hs''⟩ := hk.turn hlt ⟨hbit, hslot, hscan⟩
            rw [hok, Except.ok.injEq] at hturn
            rw [← hturn]
            exact ⟨k + 1, hlt, rfl, hs''⟩
          · rw [hk.turn_none hlt hslot (Nat.le_of_not_lt hscan)] at hturn
            cases hturn)
        fuel _ _ ⟨0, Nat.zero_le _, rfl, bootAt_setup hlow hhigh hpointer hoff hmade⟩ hloop
      have hend : ¬r.1 < r.2.placementPointer := of_decide_eq_false (Except.ok.inj hexit)
      rw [hi, hk.lt_pages_iff] at hend
      rw [Nat.le_antisymm hle (Nat.le_of_not_lt hend), (bootPlan hlow hhigh).count_eq] at hk
      rw [← hrun]
      exact hk.booted

end X32PRos
