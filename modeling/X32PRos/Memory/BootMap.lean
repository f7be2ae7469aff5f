import X32PRos.Memory.FrameSearch
import X32PRos.Memory.IdentityMap

/-!
The loop of `paging_install`: what holds each time it tests its bound, and that
it ends when there are frames enough.
-/

namespace X32PRos

open Foundation

namespace Mm

variable {κ : Type} (obj : Nat → Nat → κ)

/-- The layout of the placement area when the pages below `k` are mapped. The
pointer is page aligned from the first table on. -/
structure BootLayout (k : Nat) (m : Mm κ) : Prop where
  tables : TablesUpTo ((k + 1023) / 1024) m
  low : 0x100000 ≤ m.placementPointer
  pointer : m.placementPointer < 2 ^ 32
  within : k ≠ 0 → 0x1000 ∣ m.placementPointer ∧ k * 0x1000 ≤ m.placementPointer
  made : ∀ b ∈ m.made, 0x100000 ≤ b ∧ b + 0x1000 ≤ m.placementPointer

variable {obj} {m m' : Mm κ} {k : Nat}

/-- A page number that is being mapped fits the 20 bits of a frame field. -/
theorem BootLayout.page_lt (h : BootLayout k m) (hk : k * 0x1000 < m.placementPointer) :
    k < 2 ^ 20 := by
  have hpointer := h.pointer
  omega

/-- From the first table on the next one is put at the placement pointer. -/
theorem BootLayout.nextTable_eq (h : BootLayout k m) (hk : k ≠ 0) :
    m.nextTable = m.placementPointer :=
  nextTable_of_dvd h.pointer (h.within hk).1

/-! ### The state before the loop -/

/-- The directory is put at the last page boundary that is not above the bitmap. -/
theorem pagingSetup_pointer {start : Nat} {frames : Bitmap 32} {entries : κ → Nat → Page}
    {memsize : UInt32} (hstart : 0x100000 ≤ start)
    (hw : ((initial start frames entries).pagingSetup memsize).wrapped = false) :
    let bitmapSize := indexFromBit (memsize / 4).toNat
    start + bitmapSize < 2 ^ 32 ∧
      ((initial start frames entries).pagingSetup memsize).placementPointer =
        (start + bitmapSize) / 0x1000 * 0x1000 + pageDirectorySize ∧
      (start + bitmapSize) / 0x1000 * 0x1000 + pageDirectorySize < 2 ^ 32 := by
  intro bitmapSize
  simp only [pagingSetup, place, initial, kmalloc, kvmalloc, kmallocReal_unaligned,
    Bool.false_or, Bool.or_eq_false_iff, decide_eq_false_iff_not] at hw
  obtain ⟨hfirst, hsecond⟩ := hw
  have hsum : start + bitmapSize < 2 ^ 32 := Nat.lt_of_not_le hfirst
  rw [Nat.mod_eq_of_lt hsum, kmallocReal_aligned _ _ hsum (by omega), pageBase_eq hsum] at hsecond
  refine ⟨hsum, ?_, Nat.lt_of_not_le hsecond⟩
  simp only [pagingSetup, place, initial, kmalloc, kvmalloc, kmallocReal_unaligned]
  rw [Nat.mod_eq_of_lt hsum, kmallocReal_aligned _ _ hsum (by omega), pageBase_eq hsum,
    Nat.mod_eq_of_lt (Nat.lt_of_not_le hsecond)]

/-- The first page table is put two pages above the base of the directory. -/
theorem pagingSetup_nextTable {start : Nat} {frames : Bitmap 32} {entries : κ → Nat → Page}
    {memsize : UInt32} (hstart : 0x100000 ≤ start)
    (hw : ((initial start frames entries).pagingSetup memsize).wrapped = false) :
    ((initial start frames entries).pagingSetup memsize).nextTable =
      (start + indexFromBit (memsize / 4).toNat) / 0x1000 * 0x1000 + 0x2000 := by
  obtain ⟨-, hpointer, hlt⟩ := pagingSetup_pointer hstart hw
  have hsize : pageDirectorySize = 0x2004 := rfl
  unfold nextTable
  rw [hpointer, if_neg (by omega), pageBase_eq hlt]
  omega

theorem pagingSetup_layout {start : Nat} {frames : Bitmap 32} {entries : κ → Nat → Page}
    {memsize : UInt32} (hstart : 0x100000 ≤ start)
    (hw : ((initial start frames entries).pagingSetup memsize).wrapped = false) :
    BootLayout 0 ((initial start frames entries).pagingSetup memsize) := by
  obtain ⟨-, hpp, hlt⟩ := pagingSetup_pointer hstart hw
  refine ⟨⟨?_, ?_, ?_⟩, ?_, ?_, ?_, ?_⟩
  · intro t
    exact ⟨fun h => absurd rfl h, fun h => absurd h (Nat.not_lt_zero t)⟩
  · intro t ht
    exact absurd ht (Nat.not_lt_zero t)
  · intro t ht
    exact absurd ht (Nat.not_lt_zero t)
  · rw [hpp]
    omega
  · rw [hpp]
    exact hlt
  · intro h
    exact absurd rfl h
  · intro b hb
    cases hb

theorem pagingSetup_scanned (m : Mm κ) (memsize : UInt32) :
    (m.pagingSetup memsize).allocator.scanned = indexFromBit (memsize / 4).toNat * 0x20 := rfl

theorem pagingSetup_inUse (start : Nat) (entries : κ → Nat → Page) (memsize : UInt32) (f : Nat) :
    ((initial start (fun _ => 0) entries).pagingSetup memsize).allocator.inUse f = false := by
  simp [pagingSetup, initial, FrameAllocator.inUse, Bitmap.bit, clearFrameBytes]

theorem pagingSetup_identity (start : Nat) (entries : κ → Nat → Page) (memsize : UInt32) :
    IdentityUpTo obj 0 ((initial start (fun _ => 0) entries).pagingSetup memsize) := by
  refine ⟨?_, ?_, ?_⟩
  · intro f
    exact (pagingSetup_inUse start entries memsize f).trans
      (decide_eq_false (Nat.not_lt_zero f)).symm
  · intro j hj
    exact absurd hj (Nat.not_lt_zero j)
  · intro j _ h
    exact absurd rfl h

/-! ### The loop -/

variable [DecidableEq κ]

variable (obj) in
theorem BootLayout.next (h : BootLayout k m) (hk : k * 0x1000 < m.placementPointer)
    (hw : (m.getPage obj (k * 0x1000) 1).2.wrapped = false) :
    BootLayout (k + 1) (m.getPage obj (k * 0x1000) 1).2 := by
  have hlow := h.low
  have hpointer := h.pointer
  rw [h.tables.getPage] at hw ⊢
  by_cases hfirst : k % 1024 = 0
  · rw [if_pos hfirst] at hw ⊢
    obtain ⟨-, hnext⟩ := makeTable_noWrap h.pointer hw
    obtain ⟨hdvd, hle, -⟩ := nextTable_page h.pointer (Or.inr (by omega))
    have hbase : m.nextTable = pageBase m.placementPointer := if_neg (by omega)
    have hround : 0x100000 ≤ m.nextTable ∧ k * 0x1000 ≤ m.nextTable := by
      rw [hbase, pageBase_eq h.pointer]
      omega
    have htables := h.tables.makeTable obj h.pointer (by omega)
    have hpp := (makeTable_of_lt obj (t := k / 1024) h.pointer hnext).1
    refine ⟨?_, ?_, ?_, ?_, ?_⟩
    · rw [show (k + 1 + 1023) / 1024 = (k + 1023) / 1024 + 1 by omega,
        show k / 1024 = (k + 1023) / 1024 by omega]
      exact htables
    · omega
    · omega
    · intro _
      rw [hpp]
      exact ⟨by omega, by omega⟩
    · intro b hb
      rw [makeTable_eq _ h.pointer] at hb
      rw [hpp]
      rcases List.mem_cons.mp hb with rfl | hb
      · exact ⟨hround.1, Nat.le_refl _⟩
      · -- an earlier table; the pointer has been aligned since then
        have hold := h.made b hb
        by_cases hzero : k = 0
        · rw [hbase, pageBase_eq h.pointer]
          omega
        · have hdvd := (h.within hzero).1
          rw [hbase, pageBase_of_dvd h.pointer hdvd]
          omega
  · rw [if_neg hfirst]
    have hwithin := h.within (by omega)
    refine ⟨?_, h.low, h.pointer, ?_, h.made⟩
    · rw [show (k + 1 + 1023) / 1024 = (k + 1023) / 1024 by omega]
      exact h.tables
    · intro _
      exact ⟨hwithin.1, by omega⟩

theorem BootLayout.identity (h : BootLayout k m) (hobj : SlotsApart obj)
    (hid : IdentityUpTo obj k m) : IdentityUpTo obj k (m.getPage obj (k * 0x1000) 1).2 := by
  rw [h.tables.getPage]
  by_cases hfirst : k % 1024 = 0
  · rw [if_pos hfirst]
    exact hid.makeTable hobj h.pointer (by omega)
  · rwa [if_neg hfirst]

/-- One turn of the boot loop, up to the increment of `i`. -/
theorem BootLayout.mapPage (h : BootLayout k m) (hk : k * 0x1000 < m.placementPointer)
    (hok : m.mapPage obj (k * 0x1000) = .ok m') (hw : m'.wrapped = false) :
    BootLayout (k + 1) m' ∧
      (SlotsApart obj → IdentityUpTo obj k m → IdentityUpTo obj (k + 1) m') := by
  rw [mapPage_eq] at hok
  obtain ⟨entry, a, -, hm'⟩ := allocFrameAt_ok hok
  have hlayout := h.next obj hk (by rw [hm'] at hw; exact hw)
  constructor
  · rw [hm']
    exact ⟨⟨hlayout.tables.present, hlayout.tables.page, hlayout.tables.physical⟩, hlayout.low,
      hlayout.pointer, hlayout.within, hlayout.made⟩
  · intro hobj hid
    exact (h.identity hobj hid).alloc hobj (h.page_lt hk) (hlayout.tables.table_ne (by omega)) hok

theorem mapPlacedTurn_ok {s s' : Nat × Mm κ} (h : mapPlacedTurn obj s = .ok s') :
    ∃ m, s.2.mapPage obj s.1 = .ok m ∧ s' = m.nextPage s.1 := by
  unfold mapPlacedTurn at h
  split at h
  case h_1 => cases h
  case h_2 m hok => exact ⟨m, hok, (Except.ok.inj h).symm⟩

/-- What the boot loop keeps as long as no sum has wrapped. The identity mapping
depends on a frame bitmap that was clear at the start. -/
def BootInv (obj : Nat → Nat → κ) (clear : Prop) (s : Nat × Mm κ) : Prop :=
  s.2.wrapped = false → ∃ k, s.1 = k * 0x1000 ∧ BootLayout k s.2 ∧
    (clear → IdentityUpTo obj k s.2)

theorem BootInv.turn {clear : Prop} (hclear : clear → SlotsApart obj) {s s' : Nat × Mm κ}
    (h : BootInv obj clear s) (hlt : s.1 < s.2.placementPointer)
    (hturn : mapPlacedTurn obj s = .ok s') : BootInv obj clear s' := by
  obtain ⟨i, m⟩ := s
  obtain ⟨m', hok, rfl⟩ := mapPlacedTurn_ok hturn
  intro hw
  obtain ⟨hw', hi⟩ := nextPage_noWrap hw
  obtain ⟨k, rfl, hlayout, hid⟩ := h (mapPage_noWrap hok hw')
  obtain ⟨hlayout', hid'⟩ := hlayout.mapPage hlt hok hw'
  rw [nextPage_of_lt hi]
  exact ⟨k + 1, (Nat.succ_mul k 0x1000).symm, hlayout', fun hc => hid' (hclear hc) (hid hc)⟩

theorem pagingInstall_ok {fuel : Nat} {memsize : UInt32} {boot : Mm κ}
    (h : pagingInstall obj fuel memsize m = .ok boot) :
    ∃ i, mapPlaced obj fuel (0, m.pagingSetup memsize) = .ok (i, boot) := by
  unfold pagingInstall at h
  split at h
  case h_1 => cases h
  case h_2 s hok =>
    rw [← Except.ok.inj h]
    exact ⟨s.1, hok⟩

theorem getPage_allocator (i : Nat) (m : Mm κ) : (m.getPage obj i 1).2.allocator = m.allocator := by
  by_cases h : m.tables (i / 0x1000 / 1024) = 0
  · rw [getPage_of_noTable h, makeTable_allocator]
  · rw [getPage_of_table h]

theorem mapPage_scanned {i : Nat} (h : m.mapPage obj i = .ok m') :
    m'.allocator.scanned = m.allocator.scanned := by
  rw [mapPage, getPage_fst] at h
  obtain ⟨entry, a, halloc, rfl⟩ := allocFrameAt_ok h
  rw [getPage_allocator] at halloc
  exact allocFrame_scanned halloc

/-- The number of frames that are scanned is fixed from the start. -/
theorem pagingInstall_scanned {fuel : Nat} {memsize : UInt32} {boot : Mm κ}
    (h : pagingInstall obj fuel memsize m = .ok boot) :
    boot.allocator.scanned = indexFromBit (memsize / 4).toNat * 0x20 := by
  obtain ⟨i, hloop⟩ := pagingInstall_ok h
  have hkeeps := Loop.loop_invariant (I := fun s : Nat × Mm κ =>
    s.2.allocator.scanned = indexFromBit (memsize / 4).toNat * 0x20) (fun s s' hs _ hturn => by
      obtain ⟨m', hpage, rfl⟩ := mapPlacedTurn_ok hturn
      rw [nextPage_allocator]
      exact (mapPage_scanned hpage).trans hs)
    fuel (0, m.pagingSetup memsize) (i, boot) (pagingSetup_scanned m memsize) hloop
  exact hkeeps.1

/-! ### The state after the loop -/

/-- After `paging_install` every page below the placement pointer is mapped. -/
theorem pagingInstall_layout {clear : Prop} (hsep : clear → SlotsApart obj) {start fuel : Nat}
    {frames : Bitmap 32} (hframes : clear → frames = fun _ => 0) {entries : κ → Nat → Page}
    {memsize : UInt32} {boot : Mm κ} (hstart : 0x100000 ≤ start)
    (h : pagingInstall obj fuel memsize (initial start frames entries) = .ok boot)
    (hw : boot.wrapped = false) :
    ∃ k, boot.placementPointer = k * 0x1000 ∧ BootLayout k boot ∧
      (clear → IdentityUpTo obj k boot) := by
  obtain ⟨i, hloop⟩ := pagingInstall_ok h
  have hstart' : BootInv obj clear (0, (initial start frames entries).pagingSetup memsize) := by
    intro hw'
    refine ⟨0, rfl, pagingSetup_layout hstart hw', ?_⟩
    intro hc
    rw [hframes hc]
    exact pagingSetup_identity start entries memsize
  obtain ⟨hinv, hexit⟩ := Loop.loop_invariant (I := BootInv obj clear)
    (fun s s' hs hg hb => hs.turn hsep (of_decide_eq_true (Except.ok.inj hg)) hb) fuel _ _ hstart' hloop
  obtain ⟨k, hk, hlayout, hid⟩ := hinv hw
  have hlow : 0x100000 ≤ boot.placementPointer := hlayout.low
  have hend : ¬ i < boot.placementPointer := of_decide_eq_false (Except.ok.inj hexit)
  have hi : i = k * 0x1000 := hk
  have hle : k * 0x1000 ≤ boot.placementPointer := (hlayout.within (by omega)).2
  exact ⟨k, by omega, hlayout, hid⟩

/-! ### The loop ends -/

/-- The tables still to come, at most `S` in all, fit below page `L`, and there
is a clear frame for every page up to there. -/
structure BootRoom (L S : Nat) (s : Nat × Mm κ) : Prop where
  page : ∃ k, s.1 = k * 0x1000 ∧ BootLayout k s.2 ∧ (k + 1023) / 1024 ≤ S ∧
    s.2.nextTable + 0x1000 * S ≤ L * 0x1000 + 0x1000 * ((k + 1023) / 1024) ∧
      L ≤ k + s.2.allocator.clearBelow s.2.allocator.scanned
  noWrap : s.2.wrapped = false

variable (obj) in
/-- After `get_page` for the next page there is still room. -/
theorem BootLayout.getPage_room {L S : Nat} (h : BootLayout k m) (hL : L * 0x1000 < 2 ^ 32)
    (hS : L ≤ 1024 * S) (hk : k * 0x1000 < m.placementPointer)
    (hroom : m.nextTable + 0x1000 * S ≤ L * 0x1000 + 0x1000 * ((k + 1023) / 1024))
    (htables : (k + 1023) / 1024 ≤ S) (hw : m.wrapped = false) :
    k < L ∧ k / 1024 + 1 ≤ S ∧ (m.getPage obj (k * 0x1000) 1).2.wrapped = false ∧
      (m.getPage obj (k * 0x1000) 1).2.allocator = m.allocator ∧
      (m.getPage obj (k * 0x1000) 1).2.nextTable + 0x1000 * S ≤
        L * 0x1000 + 0x1000 * (k / 1024 + 1) := by
  have hlow := h.low
  have hbase : 0x1000 ≤ m.nextTable := (nextTable_page h.pointer (Or.inr (by omega))).2.2 (by omega)
  have hkL : k < L := by
    by_cases hzero : k = 0
    · omega
    · rw [h.nextTable_eq hzero] at hroom
      omega
  rw [h.tables.getPage]
  by_cases hfirst : k % 1024 = 0
  · have hfit : m.nextTable + 0x1000 < 2 ^ 32 := by omega
    obtain ⟨hpp, hwrapped, -, hallocator, -⟩ :=
      makeTable_of_lt obj (t := k / 1024) h.pointer hfit
    have hdvd := (nextTable_page h.pointer (Or.inr (by omega))).1
    rw [if_pos hfirst]
    refine ⟨hkL, by omega, hwrapped.trans hw, hallocator, ?_⟩
    rw [nextTable_of_dvd (by rw [hpp]; exact hfit) (by rw [hpp]; omega), hpp]
    omega
  · rw [if_neg hfirst]
    exact ⟨hkL, by omega, hw, rfl, by omega⟩

/-- Through a pointer to an entry, `alloc_frame` fails for want of frames only. -/
theorem allocFrameAt_error {o : κ} {i : Nat} {ik iw : Int} {e : Fault}
    (h : m.allocFrameAt (some (o, i)) ik iw = .error e) :
    m.allocator.firstFrame = FrameAllocator.noFrame ∧ e = outOfFrames := by
  simp only [allocFrameAt] at h
  split at h
  case h_1 e' halloc =>
    rw [← Except.error.inj h]
    exact FrameAllocator.allocFrame_error halloc
  case h_2 => cases h

theorem allocFrameAt_returns {o : κ} {i : Nat}
    (h : 0 < m.allocator.clearBelow m.allocator.scanned) (ik iw : Int) :
    ∃ m', m.allocFrameAt (some (o, i)) ik iw = .ok m' := by
  cases halloc : m.allocFrameAt (some (o, i)) ik iw with
  | ok m' => exact ⟨m', rfl⟩
  | error e =>
      obtain ⟨f, hf, hclear⟩ := FrameAllocator.exists_of_clearBelow h
      have hused := m.allocator.firstFrame_eq_noFrame_iff.mp (allocFrameAt_error halloc).1 f hf
      rw [hclear] at hused
      cases hused

theorem BootRoom.turn {L S : Nat} (hL : L * 0x1000 < 2 ^ 32) (hS : L ≤ 1024 * S)
    {s : Nat × Mm κ} (h : BootRoom L S s) (hlt : s.1 < s.2.placementPointer) :
    ∃ s', mapPlacedTurn obj s = .ok s' ∧ BootRoom L S s' ∧
      L - s'.1 / 0x1000 < L - s.1 / 0x1000 := by
  obtain ⟨i, m⟩ := s
  obtain ⟨⟨k, rfl, hlayout, htables, hroom, hframes⟩, hw⟩ := h
  dsimp only at hlayout hroom hw hframes hlt ⊢
  obtain ⟨hkL, hkS, hwget, hallocator, hroom'⟩ :=
    hlayout.getPage_room obj hL hS hlt hroom htables hw
  have hi : k * 0x1000 + 0x1000 < 2 ^ 32 := by
    have hstep : (k + 1) * 0x1000 ≤ L * 0x1000 := Nat.mul_le_mul_right 0x1000 hkL
    rw [← Nat.succ_mul]
    exact Nat.lt_of_le_of_lt hstep hL
  obtain ⟨m', hok⟩ := allocFrameAt_returns (m := (m.getPage obj (k * 0x1000) 1).2)
    (o := obj (k / 1024) ((m.getPage obj (k * 0x1000) 1).2.tables (k / 1024))) (i := k % 1024)
    (by rw [hallocator]; omega) 0 0
  rw [← mapPage_eq] at hok
  have hcopy := hok
  rw [mapPage_eq] at hcopy
  obtain ⟨entry, a, halloc, hm'⟩ := allocFrameAt_ok hcopy
  have hw' : m'.wrapped = false := by
    subst hm'
    exact hwget
  have hnext : m'.nextTable = (m.getPage obj (k * 0x1000) 1).2.nextTable := by
    rw [hm']
    rfl
  have hclear : m.allocator.clearBelow m.allocator.scanned ≤
      m'.allocator.clearBelow m'.allocator.scanned + 1 := by
    rw [hallocator] at halloc
    rw [hm', allocFrame_scanned halloc]
    exact allocFrame_clearBelow halloc _
  refine ⟨(k * 0x1000 + 0x1000, m'), ?_, ⟨⟨k + 1, (Nat.succ_mul k 0x1000).symm,
    (hlayout.mapPage hlt hok hw').1, by omega, ?_, ?_⟩, hw'⟩, by simp only; omega⟩
  · simp only [mapPlacedTurn, hok, nextPage_of_lt hi]
  · simp only [hnext]
    omega
  · dsimp only
    omega

/-- With room for the tables and frames for all pages, `paging_install` returns. -/
theorem pagingInstall_returns {L S start fuel : Nat} (obj : Nat → Nat → κ) (frames : Bitmap 32)
    (entries : κ → Nat → Page) (memsize : UInt32) (hstart : 0x100000 ≤ start)
    (hL : L * 0x1000 < 2 ^ 32) (hS : L ≤ 1024 * S)
    (hroom : (start + indexFromBit (memsize / 4).toNat) / 0x1000 * 0x1000 + 0x2000 + 0x1000 * S ≤
      L * 0x1000)
    (hframes : L ≤ ((initial start frames entries).pagingSetup memsize).allocator.clearBelow
      ((initial start frames entries).pagingSetup memsize).allocator.scanned) (hfuel : L < fuel) :
    ∃ boot, pagingInstall obj fuel memsize (initial start frames entries) = .ok boot ∧
      boot.wrapped = false ∧ boot.placementPointer ≤ L * 0x1000 := by
  have hsize : pageDirectorySize = 0x2004 := rfl
  have hw : ((initial start frames entries).pagingSetup memsize).wrapped = false := by
    have hsum : start + indexFromBit (memsize / 4).toNat < 2 ^ 32 := by omega
    simp only [pagingSetup, place, initial, kmalloc, kvmalloc, kmallocReal_unaligned,
      Bool.false_or, Bool.or_eq_false_iff, decide_eq_false_iff_not]
    rw [Nat.mod_eq_of_lt hsum, kmallocReal_aligned _ _ hsum (by omega), pageBase_eq hsum]
    dsimp only
    omega
  have hnext := pagingSetup_nextTable hstart hw
  have hinit : BootRoom L S (0, (initial start frames entries).pagingSetup memsize) := by
    refine ⟨⟨0, rfl, pagingSetup_layout hstart hw, Nat.zero_le S, ?_, ?_⟩, hw⟩
    · exact Nat.le_trans (Nat.add_le_add_right (Nat.le_of_eq hnext) _)
        (Nat.le_trans hroom (Nat.le_add_right _ _))
    · exact Nat.le_trans hframes (Nat.le_add_left _ 0)
  obtain ⟨⟨i, boot⟩, hloop, ⟨⟨k, hi, hlayout, hk, hpp, -⟩, hwrapped⟩, hexit⟩ :=
    Loop.loop_returns Fault.diverges (I := BootRoom L S)
      (fun s => L - s.1 / 0x1000) (fun s hs hg => hs.turn hL hS (of_decide_eq_true hg))
      fuel _ hinit (by omega)
  have hmap : mapPlaced obj fuel (0, (initial start frames entries).pagingSetup memsize) =
      .ok (i, boot) := hloop
  refine ⟨boot, by rw [pagingInstall, hmap], hwrapped, ?_⟩
  dsimp only at hi hpp hlayout
  have hend : ¬ i < boot.placementPointer := of_decide_eq_false hexit
  have hlow := hlayout.low
  rw [hlayout.nextTable_eq (by omega)] at hpp
  omega

/-- The boot of a machine with 128 MB, whose bitmap was clear. -/
theorem pagingInstall_128MB (obj : Nat → Nat → κ) :
    ∃ boot, pagingInstall obj 0x1000 0x20000
        (initial 0x105060 (fun _ => 0) fun _ _ => Page.zero) = .ok boot ∧
      boot.wrapped = false ∧ boot.placementPointer ≤ 0x200 * 0x1000 := by
  refine pagingInstall_returns (L := 0x200) (S := 1) obj (fun _ => 0) (fun _ _ => Page.zero) 0x20000
    (by decide) (by decide) (by decide) (by decide) ?_ (by decide)
  rw [FrameAllocator.clearBelow_of_clear fun f _ =>
    pagingSetup_inUse 0x105060 (fun _ _ => Page.zero) 0x20000 f, pagingSetup_scanned]
  decide

end Mm

end X32PRos
