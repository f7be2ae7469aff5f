import X32PRos.Memory.BootMapped

/-!
`main` up to the heap, over one memory: what the processor finds mapped when it
is done, and what the boot has left of the header it copied first.
-/

namespace X32PRos

open Foundation

/-- The copy of the boot header, at the placement pointer. -/
theorem copyMultiboot_eq (mbootPtr : Nat) (s : Boot)
    (hend : s.placementPointer + multibootSize < 2 ^ 32) :
    s.copyMultiboot mbootPtr = (s.placementPointer, { s with
      mem := copyBytes s.placementPointer mbootPtr multibootSize s.mem
      placementPointer := s.placementPointer + multibootSize }) := by
  unfold Boot.copyMultiboot kmalloc memcpy
  simp only [kmallocReal_unaligned, Nat.mod_eq_of_lt hend]
  rw [turns_of_lt (show multibootSize < 2 ^ 31 by decide)]

/-- A word of the header is copied. -/
theorem load32_copy {start mbootPtr i : Nat} {m : Memory}
    (hapart : start + multibootSize ≤ mbootPtr ∨ mbootPtr + multibootSize ≤ start)
    (hi : i + 4 ≤ multibootSize) :
    (copyBytes start mbootPtr multibootSize m).load32 (start + i) = m.load32 (mbootPtr + i) := by
  have hbyte : ∀ j < multibootSize,
      copyBytes start mbootPtr multibootSize m (start + j) = m (mbootPtr + j) := by
    intro j hj
    rw [copyBytes_eq hapart, if_pos ⟨Nat.le_add_right _ _, Nat.add_lt_add_left hj _⟩,
      Nat.add_sub_cancel_left]
  unfold Memory.load32
  simp only [Nat.add_assoc]
  rw [hbyte i (by omega), hbyte (i + 1) (by omega), hbyte (i + 2) (by omega),
    hbyte (i + 3) (by omega)]

def headerBase (s : Boot) (mbootPtr : Nat) : Nat := (s.startAt mbootPtr).placementPointer

def memUpper (s : Boot) (mbootPtr : Nat) : UInt32 := UInt32.ofNat (s.mem.load32 (mbootPtr + 8))

def bitmapBase (s : Boot) (mbootPtr : Nat) : Nat := headerBase s mbootPtr + multibootSize

/-- What `main` needs: no tables before its own, a boot behind the copy of the header that
has its frames, its addresses and its bits, and a header over which the copy is not made. -/
structure MainFits (s : Boot) (mbootPtr : Nat) : Prop where
  unpaged : s.paging = false
  made : s.made = []
  low : 0x100000 ≤ headerBase s mbootPtr
  high : Mm.bootEnd (bitmapBase s mbootPtr) (memUpper s mbootPtr) < 2 ^ 32
  enough : EnoughFrames (bitmapBase s mbootPtr) (memUpper s mbootPtr)
  bits : BitsApart (bitmapBase s mbootPtr) (memUpper s mbootPtr)
  apart : headerBase s mbootPtr + multibootSize ≤ mbootPtr ∨
    mbootPtr + multibootSize ≤ headerBase s mbootPtr

namespace MainFits

variable {s : Boot} {mbootPtr fuel : Nat} (h : MainFits s mbootPtr)

def plan : BootPlan := bootPlan (Nat.le_trans h.low (Nat.le_add_right _ _)) h.high

include h in
/-- The state of the whole boot; `mem₀` is the memory in which its loop starts. -/
theorem main_booted (hfuel : Mm.bootEnd (bitmapBase s mbootPtr) (memUpper s mbootPtr) / 0x1000 < fuel) :
    ∃ s' mem₀, s.main fuel mbootPtr = .ok (headerBase s mbootPtr, s') ∧ s'.Booted h.plan mem₀ ∧
      ∀ x, mem₀ x =
        if h.plan.directory ≤ x ∧ x < h.plan.directory + 0x2004 then 0
        else if h.plan.frames ≤ x ∧
          x < h.plan.frames + indexFromBit (memUpper s mbootPtr / 4).toNat then 0
        else if headerBase s mbootPtr ≤ x ∧ x < headerBase s mbootPtr + multibootSize then
          s.mem (mbootPtr + (x - headerBase s mbootPtr))
        else s.mem x := by
  have hlow : 0x100000 ≤ bitmapBase s mbootPtr := Nat.le_trans h.low (Nat.le_add_right _ _)
  have hend : headerBase s mbootPtr + multibootSize < 2 ^ 32 := by
    have hhigh := h.high
    unfold Mm.bootEnd Mm.firstTable bitmapBase at hhigh
    omega
  have hmem : (s.startAt mbootPtr).mem = s.mem := by
    unfold Boot.startAt
    split <;> rfl
  have hpaging : (s.startAt mbootPtr).paging = s.paging := by
    unfold Boot.startAt
    split <;> rfl
  have hmade : (s.startAt mbootPtr).made = s.made := by
    unfold Boot.startAt
    split <;> rfl
  have hcopy : (s.startAt mbootPtr).copyMultiboot mbootPtr = (headerBase s mbootPtr,
      { s.startAt mbootPtr with
        mem := copyBytes (headerBase s mbootPtr) mbootPtr multibootSize s.mem
        placementPointer := headerBase s mbootPtr + multibootSize }) := by
    rw [← hmem]
    exact copyMultiboot_eq mbootPtr (s.startAt mbootPtr) hend
  have hupper : UInt32.ofNat ((copyBytes (headerBase s mbootPtr) mbootPtr multibootSize
      s.mem).load32 (headerBase s mbootPtr + 8)) = memUpper s mbootPtr := by
    rw [load32_copy h.apart (by decide)]
    rfl
  have hpointer : ((s.startAt mbootPtr).copyMultiboot mbootPtr).2.placementPointer =
      bitmapBase s mbootPtr := by
    rw [hcopy]
    rfl
  obtain ⟨s', hrun, hbooted⟩ := pagingInstall_booted hlow h.high hpointer
    (by rw [hcopy]; exact hpaging.trans h.unpaged) (by rw [hcopy]; exact hmade.trans h.made) h.bits
    h.enough hfuel
  refine ⟨s', _, ?_, hbooted, ?_⟩
  · unfold Boot.main
    rw [hcopy] at hrun ⊢
    dsimp only at hrun ⊢
    rw [hupper, hrun]
  · intro x
    rw [pagingSetup_byte hlow h.high hpointer, hcopy]
    dsimp only
    rw [copyBytes_eq h.apart]
    rfl

end MainFits

/-- After the boot the processor finds every address below the placement pointer at itself,
and nothing above. What lies below the copy of the header and below the directory, and what
lies above the tables, is as it was. -/
theorem main_maps (s : Boot) (mbootPtr fuel : Nat) (h : MainFits s mbootPtr)
    (hfuel : Mm.bootEnd (bitmapBase s mbootPtr) (memUpper s mbootPtr) / 0x1000 < fuel) :
    ∃ s', s.main fuel mbootPtr = .ok (headerBase s mbootPtr, s') ∧
      s'.placementPointer = Mm.bootEnd (bitmapBase s mbootPtr) (memUpper s mbootPtr) ∧
      (∀ x < 2 ^ 32, translateFrom s'.mem s'.cr3 x =
        if x < s'.placementPointer then some x else none) ∧
      (∀ x, x < headerBase s mbootPtr →
        x < directoryBase (bitmapBase s mbootPtr) (memUpper s mbootPtr) → s'.mem x = s.mem x) ∧
      ∀ x, s'.placementPointer ≤ x → s'.mem x = s.mem x := by
  obtain ⟨s', mem₀, hrun, hbooted, hmem₀⟩ := h.main_booted hfuel
  have hpointer := hbooted.pointer
  have hbehind := h.plan.behind
  have hfixed := h.plan.fixed
  have hnear := h.plan.near
  have hframes : h.plan.frames = headerBase s mbootPtr + multibootSize := rfl
  have hwords : h.plan.frames + indexFromBit (memUpper s mbootPtr / 4).toNat <
      h.plan.directory + 0x1000 := hnear.2
  refine ⟨s', hrun, hpointer.trans h.plan.fixed, fun x hx => hbooted.translateFrom_eq hx, ?_, ?_⟩
  · intro x hheader hdirectory
    have hplan : x < h.plan.directory := hdirectory
    rw [hbooted.rest x ⟨Or.inl (by omega), Or.inl hplan⟩, hmem₀, if_neg (by omega),
      if_neg (by omega), if_neg (by omega)]
  · intro x hx
    have htables := h.plan.tables_pos
    have hbits : h.plan.frames + (h.plan.pages + 7) / 8 ≤ h.plan.directory + 4096 := by
      have hapart : h.plan.frames + (h.plan.pages + 7) / 8 ≤ h.plan.directory ∨ _ ∧
          h.plan.frames + (h.plan.pages + 7) / 8 ≤ h.plan.directory + 4096 := h.bits
      omega
    rw [hbooted.rest x ⟨Or.inr (by omega), Or.inr (Or.inr (by omega))⟩, hmem₀, if_neg (by omega),
      if_neg (by omega), if_neg (by omega)]

def bootLoader : Boot :=
  Boot.initial 0x105000 fun x => if x = 0x900A then 2 else if x = 0x905F then 1 else 0

theorem bootLoader_fits : MainFits bootLoader 0x9000 := by
  have hbase : headerBase bootLoader 0x9000 = 0x105000 := by decide
  have hupper : memUpper bootLoader 0x9000 = 0x20000 := by decide
  have hbitmap : bitmapBase bootLoader 0x9000 = 0x105060 := by decide
  constructor
  case unpaged => rfl
  case made => rfl
  case low =>
    rw [hbase]
    decide
  case high =>
    rw [hbitmap, hupper]
    decide
  case enough =>
    rw [hbitmap, hupper]
    decide
  case bits =>
    rw [hbitmap, hupper]
    decide
  case apart =>
    rw [hbase]
    exact Or.inr (by decide)

theorem main_maps_128MB :
    ∃ s', bootLoader.main 0x1000 0x9000 = .ok (headerBase bootLoader 0x9000, s') ∧
      s'.placementPointer = Mm.bootEnd (bitmapBase bootLoader 0x9000) (memUpper bootLoader 0x9000) ∧
      (∀ x < 2 ^ 32, translateFrom s'.mem s'.cr3 x =
        if x < s'.placementPointer then some x else none) ∧
      (∀ x, x < headerBase bootLoader 0x9000 →
        x < directoryBase (bitmapBase bootLoader 0x9000) (memUpper bootLoader 0x9000) →
          s'.mem x = bootLoader.mem x) ∧
      ∀ x, s'.placementPointer ≤ x → s'.mem x = bootLoader.mem x :=
  main_maps bootLoader 0x9000 0x1000 bootLoader_fits (by decide)

/-- The directory is put at the base of the page in which the bitmap ends. From there on it
wipes out the copy of the header, and whatever of the kernel lies before it. -/
theorem header_kept_iff (s : Boot) (mbootPtr fuel : Nat) (h : MainFits s mbootPtr)
    (hfuel : Mm.bootEnd (bitmapBase s mbootPtr) (memUpper s mbootPtr) / 0x1000 < fuel)
    (hslots : directoryBase (bitmapBase s mbootPtr) (memUpper s mbootPtr) +
      4 * Mm.bootTables (bitmapBase s mbootPtr) (memUpper s mbootPtr) ≠ bitmapBase s mbootPtr)
    (hlast : s.mem (mbootPtr + 95) ≠ 0) :
    let directory := directoryBase (bitmapBase s mbootPtr) (memUpper s mbootPtr)
    ∃ s', s.main fuel mbootPtr = .ok (headerBase s mbootPtr, s') ∧
      (∀ x < multibootSize, headerBase s mbootPtr + x < directory →
        s'.mem (headerBase s mbootPtr + x) = s.mem (mbootPtr + x)) ∧
      (∀ x, directory + 4 * Mm.bootTables (bitmapBase s mbootPtr) (memUpper s mbootPtr) ≤ x →
        x < headerBase s mbootPtr + multibootSize → s'.mem x = 0) ∧
      ((∀ x < multibootSize, s'.mem (headerBase s mbootPtr + x) = s.mem (mbootPtr + x)) ↔
        headerBase s mbootPtr + multibootSize ≤ directory) := by
  intro directory
  obtain ⟨s', mem₀, hrun, hbooted, hmem₀⟩ := h.main_booted hfuel
  have hnear := h.plan.near
  have hframes : h.plan.frames = headerBase s mbootPtr + multibootSize := rfl
  have hdirectory : h.plan.directory = directory := rfl
  have htables : h.plan.tables = Mm.bootTables (bitmapBase s mbootPtr) (memUpper s mbootPtr) := rfl
  have hkept : ∀ x < multibootSize, headerBase s mbootPtr + x < directory →
      s'.mem (headerBase s mbootPtr + x) = s.mem (mbootPtr + x) := by
    intro x hx hbelow
    rw [hbooted.rest _ ⟨Or.inl (by omega), Or.inl (by omega)⟩, hmem₀, if_neg (by omega),
      if_neg (by omega), if_pos (by omega), Nat.add_sub_cancel_left]
  have hlost : ∀ x, directory + 4 * Mm.bootTables (bitmapBase s mbootPtr) (memUpper s mbootPtr) ≤ x →
      x < headerBase s mbootPtr + multibootSize → s'.mem x = 0 := by
    intro x hle hlt
    rw [hbooted.rest _ ⟨Or.inl (by omega), Or.inr (Or.inl (by omega))⟩, hmem₀, if_pos (by omega)]
  refine ⟨s', hrun, hkept, hlost, ?_, ?_⟩
  · -- the last byte of the copy is wiped out, unless the directory lies behind the bitmap
    intro hall
    have hsize : multibootSize = 96 := rfl
    have hbitmap : bitmapBase s mbootPtr = headerBase s mbootPtr + 96 := rfl
    cases h.bits with
    | inl hbefore => exact Nat.le_trans (Nat.le_add_right _ _) hbefore
    | inr hinside =>
        have hzero := hlost (headerBase s mbootPtr + 95) (by omega) (by omega)
        rw [hall 95 (by decide)] at hzero
        exact absurd hzero hlast
  · intro hle x hx
    exact hkept x hx (by omega)

theorem header_kept_iff_128MB :
    let directory := directoryBase (bitmapBase bootLoader 0x9000) (memUpper bootLoader 0x9000)
    ∃ s', bootLoader.main 0x1000 0x9000 = .ok (headerBase bootLoader 0x9000, s') ∧
      (∀ x < multibootSize, headerBase bootLoader 0x9000 + x < directory →
        s'.mem (headerBase bootLoader 0x9000 + x) = bootLoader.mem (0x9000 + x)) ∧
      (∀ x, directory + 4 * Mm.bootTables (bitmapBase bootLoader 0x9000)
        (memUpper bootLoader 0x9000) ≤ x →
          x < headerBase bootLoader 0x9000 + multibootSize → s'.mem x = 0) ∧
      ((∀ x < multibootSize,
          s'.mem (headerBase bootLoader 0x9000 + x) = bootLoader.mem (0x9000 + x)) ↔
        headerBase bootLoader 0x9000 + multibootSize ≤ directory) :=
  header_kept_iff bootLoader 0x9000 0x1000 bootLoader_fits (by decide) (by decide) (by decide)

end X32PRos
