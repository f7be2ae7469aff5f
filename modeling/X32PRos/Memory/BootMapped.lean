import X32PRos.Memory.BootOverrun

/-!
What `paging_install` maps of the boot, over the one memory. The directory is
aligned down onto the page in which the bitmap ends, so that a bit and an entry
can share a byte: the boot goes well as long as the bits for its own pages lie in
front of the directory, or between the slots that it uses and the physical
addresses.
-/

namespace X32PRos

open Foundation

namespace Boot

def initial (start : Nat) (mem : Memory) : Boot where
  mem := mem
  placementPointer := start
  frames := 0
  nframes := 0
  kernelDirectory := 0
  heapEnd := 0
  cr3 := 0
  paging := false
  made := []

def tableOf (s : Boot) (j : Nat) : Nat := s.mem.load32 (s.slot (j / 1024))

structure PagePresent (s : Boot) (j : Nat) : Prop where
  table : 0x1000 ∣ s.tableOf j
  directory : s.mem.load32 (s.physicalSlot (j / 1024)) = s.tableOf j ||| 0x7
  entry : (Page.decode (s.mem.load32 (s.tableOf j + 4 * (j % 1024)))).present = true

/-- The pages below the placement pointer are mapped, and with them all page tables; no
other page is. The heap starts on a page boundary. -/
structure BootMapped (s : Boot) : Prop where
  below : ∀ j, j * 0x1000 < s.placementPointer → s.PagePresent j
  above : ∀ x < 2 ^ 32, s.placementPointer ≤ x → translateFrom s.mem s.cr3 x = none
  tables : ∀ b ∈ s.made, ∀ x, b ≤ x → x < b + 0x1000 → s.PagePresent (x / 0x1000)
  aligned : 0x1000 ∣ s.placementPointer
  heapEnd : 0x1000 ∣ s.heapInstall.heapEnd

variable {p : BootPlan} {tab : Nat → Nat} {mem₀ : Memory} {k t : Nat} {s s₀ : Boot}

theorem Mapped.pagePresent (h : s.Mapped p tab k) {j : Nat} (hj : j < k) : s.PagePresent j := by
  have hne := h.image.mapped j hj
  have htable : s.tableOf j = tab (j / 1024) := h.image.table _ (h.places.slot _ hne)
  have haligned := (h.places.room _ hne).aligned
  constructor
  case table =>
    rw [htable]
    exact haligned
  case directory =>
    rw [htable, or_seven haligned]
    exact h.image.physical _ hne
  case entry =>
    have hentry := h.image.entry _ hne (j % 1024) (Nat.mod_lt j (by decide))
    rw [Nat.div_add_mod, if_pos hj] at hentry
    rw [htable]
    exact (congrArg Page.present hentry).trans rfl

theorem Booted.bootMapped (h : s.Booted p mem₀) : s.BootMapped := by
  have hpointer := h.pointer
  have hfixed := p.fixed
  constructor
  case below =>
    intro j hj
    exact h.mapped.pagePresent (by omega)
  case above =>
    intro x hx hle
    rw [h.translateFrom_eq hx, if_neg (Nat.not_lt_of_le hle)]
  case tables =>
    intro b hb x hle hlt
    obtain ⟨t, ht, rfl⟩ := h.made b hb
    exact h.mapped.pagePresent (by omega)
  case aligned => exact ⟨p.pages, by rw [hpointer, Nat.mul_comm]⟩
  case heapEnd => exact ⟨p.pages, by rw [heapInstall, hpointer, Nat.mul_comm]⟩

/-! ### Where the loop goes wrong -/

theorem Lost.not_present (h : s.Lost p t k) : ¬s.switchPageDirectory.PagePresent (1024 * t) := by
  intro hpage
  have htable := hpage.table
  have hdirectory := hpage.directory
  unfold tableOf slot at htable hdirectory
  unfold physicalSlot at hdirectory
  change _ ∣ s.mem.load32 (s.kernelDirectory + _) at htable
  change s.mem.load32 (s.kernelDirectory + _ + _) = s.mem.load32 (s.kernelDirectory + _) ||| _
    at hdirectory
  rw [Nat.mul_div_cancel_left t (by decide), h.directory] at htable hdirectory
  exact h.spoilt.not_named htable rfl hdirectory

/-- The loop with page `k` next: all is well so far, or a table is lost. -/
def OnTheWay (p : BootPlan) (s₀ : Boot) (k : Nat) (s : Boot) : Prop :=
  (s.BootAt p s₀.mem ((k + 1023) / 1024) k ∧ (∀ j < k, p.Clear j) ∧ (k = 0 → s = s₀)) ∨
    ∃ t, s.Lost p t k

theorem OnTheWay.turn (h : OnTheWay p s₀ k s) (hscan : p.pages ≤ p.words * 32)
    (hblank : s₀.mem.load32 p.directory = 0)
    (hhalf : p.directory ≤ p.frames → p.frames < p.directory + 4 * p.tables → p.frames % 4 < 2)
    (hlt : k * 0x1000 < s.placementPointer) {r : Nat × Boot}
    (hturn : mapPlacedTurn (k * 0x1000, s) = .ok r) :
    r.1 = (k + 1) * 0x1000 ∧ OnTheWay p s₀ (k + 1) r.2 := by
  have hlost : ∀ t s', mapPlacedTurn (k * 0x1000, s) = .ok ((k + 1) * 0x1000, s') →
      s'.Lost p t (k + 1) → r.1 = (k + 1) * 0x1000 ∧ OnTheWay p s₀ (k + 1) r.2 := by
    intro t s' hrun hs'
    rw [hrun, Except.ok.injEq] at hturn
    rw [← hturn]
    exact ⟨rfl, Or.inr ⟨t, hs'⟩⟩
  cases h with
  | inr hs =>
      obtain ⟨t, hs⟩ := hs
      obtain ⟨hi, hs'⟩ := hs.turn (hs.lt_pages hlt) hturn
      exact ⟨hi, Or.inr ⟨t, hs'⟩⟩
  | inl hs =>
      obtain ⟨hs, hclear, hfirst⟩ := hs
      have hk := hs.lt_pages_iff.mp hlt
      have haligned := p.aligned
      have hroom := hs.mapped.image.room
      by_cases hnext : k / 1024 < p.slots
      · by_cases hbit : k < p.cap
        · have hclear' : p.Clear k := ⟨hbit, hnext, by omega⟩
          obtain ⟨s', hrun, hs'⟩ := hs.turn hk hclear'
          rw [hrun, Except.ok.injEq] at hturn
          rw [← hturn]
          refine ⟨rfl, Or.inl ⟨hs', fun j hj => ?_, fun hzero => absurd hzero (Nat.succ_ne_zero k)⟩⟩
          by_cases heq : j = k
          · rw [heq]
            exact hclear'
          · exact hclear j (by omega)
        · obtain ⟨s', hrun, hs'⟩ := hs.turn_lost hk hnext (by omega) (by omega)
          exact hlost 0 s' hrun hs'
      · have hslots : p.slots = (p.frames - p.directory) / 4 ∧ p.directory ≤ p.frames := by
          have htables := p.tables_le
          have hpages := p.pages_le
          unfold BootPlan.slots at hnext ⊢
          split at hnext
          case isTrue => omega
          case isFalse hle =>
            rw [if_neg hle]
            exact ⟨rfl, Nat.le_of_not_lt hle⟩
        have hlow := hhalf hslots.2 (by
          have hpages := p.pages_le
          omega)
        by_cases hzero : k = 0
        · subst hzero
          rw [hfirst rfl] at hs hturn hlost
          obtain ⟨s', hrun, hs'⟩ := hs.first_lost (by omega) hblank (by omega)
          exact hlost 0 s' hrun hs'
        · have hlast := (hclear (k - 1) (by omega)).slot
          have hs' := hs.slot_lost hk (by omega) (by omega) (by omega)
          obtain ⟨hi, hs'⟩ := hs'.turn hk hturn
          exact ⟨hi, Or.inr ⟨_, hs'⟩⟩

end Boot

section Boot

variable {start : Nat} {memsize : UInt32} (hlow : 0x100000 ≤ start)
  (hhigh : Mm.bootEnd start memsize < 2 ^ 32) {mem : Memory} {fuel : Nat} {boot : Boot}

/-- The bitmap begins in the upper half of a slot that the boot uses. The tables are then
addresses of memory that the boot knows nothing of. -/
def Astride (start : Nat) (memsize : UInt32) : Prop :=
  directoryBase start memsize ≤ start ∧
    start < directoryBase start memsize + 4 * Mm.bootTables start memsize ∧ 2 ≤ start % 4

theorem bitsApart_of_clear (hclear : ∀ k < (bootPlan hlow hhigh).pages, (bootPlan hlow hhigh).Clear k) :
    BitsApart start memsize := by
  have hcount := (bootPlan hlow hhigh).count_eq
  have hpos := (bootPlan hlow hhigh).tables_pos
  change (Mm.bootEnd start memsize / 0x1000 + 1023) / 1024 = Mm.bootTables start memsize at hcount
  change 0 < Mm.bootTables start memsize at hpos
  obtain ⟨hbit, hslot, -⟩ := hclear (Mm.bootEnd start memsize / 0x1000 - 1)
    (show _ < Mm.bootEnd start memsize / 0x1000 by omega)
  unfold BitsApart bitmapBytes
  change _ < if start < directoryBase start memsize then 8 * (directoryBase start memsize - start)
    else 8 * (directoryBase start memsize + 4096 - start) at hbit
  change _ < if start < directoryBase start memsize then 1024
    else (start - directoryBase start memsize) / 4 at hslot
  split at hbit
  case isTrue => omega
  case isFalse hle =>
    rw [if_neg hle] at hslot
    omega

include hlow hhigh in
/-- A boot that has mapped its pages has kept its bits apart. -/
theorem Boot.BootMapped.bitsApart (hmapped : boot.BootMapped) (henough : EnoughFrames start memsize)
    (hslots : ¬Astride start memsize)
    (hrun : (Boot.initial start mem).pagingInstall fuel memsize = .ok boot) :
    BitsApart start memsize := by
  have hsetup := bootAt_setup hlow hhigh (s := Boot.initial start mem) rfl rfl rfl
  have hblank := pagingSetup_load32 hlow hhigh (s := Boot.initial start mem) rfl (Nat.le_refl _)
    (show directoryBase start memsize + 4 ≤ directoryBase start memsize + 0x2004 by omega)
  have hstart : Boot.OnTheWay (bootPlan hlow hhigh) ((Boot.initial start mem).pagingSetup memsize) 0
      ((Boot.initial start mem).pagingSetup memsize) :=
    Or.inl ⟨hsetup, fun j hj => absurd hj (Nat.not_lt_zero j), fun _ => rfl⟩
  unfold Boot.pagingInstall at hrun
  cases hloop : Boot.mapPlaced fuel (0, (Boot.initial start mem).pagingSetup memsize) with
  | error e =>
      rw [hloop] at hrun
      cases hrun
  | ok r =>
      rw [hloop, Except.ok.injEq] at hrun
      obtain ⟨⟨k, hi, hway⟩, hexit⟩ := Loop.loop_invariant
        (I := fun r => ∃ k, r.1 = k * 0x1000 ∧ Boot.OnTheWay (bootPlan hlow hhigh)
          ((Boot.initial start mem).pagingSetup memsize) k r.2)
        (by
          rintro ⟨i, s⟩ r' ⟨k, rfl, hs⟩ hgo hturn
          have hlt := of_decide_eq_true (Except.ok.inj hgo)
          obtain ⟨hi, hs'⟩ := hs.turn (by
            unfold EnoughFrames at henough
            change Mm.bootEnd start memsize / 0x1000 ≤ indexFromBit (memsize / 4).toNat * 32
            omega) hblank (fun hle hlt => by
              by_contra hhalf
              exact hslots ⟨hle, hlt, Nat.le_of_not_lt hhalf⟩) hlt hturn
          exact ⟨k + 1, hi, hs'⟩)
        fuel _ _ ⟨0, rfl, hstart⟩ hloop
      have hend : ¬r.1 < r.2.placementPointer := of_decide_eq_false (Except.ok.inj hexit)
      cases hway with
      | inl hway =>
          obtain ⟨hway, hclear, -⟩ := hway
          refine bitsApart_of_clear hlow hhigh fun j hj => hclear j ?_
          rw [hi, hway.lt_pages_iff] at hend
          omega
      | inr hway =>
          obtain ⟨t, hway⟩ := hway
          rw [← hrun] at hmapped
          exact absurd (hmapped.below (1024 * t) hway.page) hway.not_present

include hlow hhigh in
/-- With a frame for each of its pages, the boot maps its pages and its own tables exactly
when the bits for them meet neither the slots nor the physical addresses in use. The other
direction leaves out the starts from which the tables would be anywhere. -/
theorem pagingInstall_maps_iff (mem : Memory) (henough : EnoughFrames start memsize)
    (hfuel : Mm.bootEnd start memsize / 0x1000 < fuel) :
    (BitsApart start memsize → ∃ boot, (Boot.initial start mem).pagingInstall fuel memsize = .ok boot ∧
      boot.placementPointer = Mm.bootEnd start memsize ∧ boot.BootMapped) ∧
    ((∃ boot, (Boot.initial start mem).pagingInstall fuel memsize = .ok boot ∧ boot.BootMapped) →
      BitsApart start memsize ∨ Astride start memsize) := by
  constructor
  · intro hapart
    obtain ⟨boot, hrun, hbooted⟩ := pagingInstall_booted hlow hhigh (s := Boot.initial start mem)
      rfl rfl rfl hapart henough hfuel
    refine ⟨boot, hrun, ?_, hbooted.bootMapped⟩
    rw [hbooted.pointer]
    exact (bootPlan hlow hhigh).fixed
  · rintro ⟨boot, hrun, hmapped⟩
    by_contra hnot
    rw [not_or] at hnot
    exact hnot.1 (hmapped.bitsApart hlow hhigh henough hnot.2 hrun)

theorem pagingInstall_maps_128MB :
    (BitsApart 0x105060 0x20000 →
      ∃ boot, (Boot.initial 0x105060 fun _ => 0).pagingInstall 0x1000 0x20000 = .ok boot ∧
        boot.placementPointer = Mm.bootEnd 0x105060 0x20000 ∧ boot.BootMapped) ∧
    ((∃ boot, (Boot.initial 0x105060 fun _ => 0).pagingInstall 0x1000 0x20000 = .ok boot ∧
        boot.BootMapped) → BitsApart 0x105060 0x20000 ∨ Astride 0x105060 0x20000) :=
  pagingInstall_maps_iff (by decide) (by decide) (fun _ => 0) (by decide) (by decide)

/-- Behind a kernel that ends on a page boundary, bit 0 of the bitmap is bit 0 of slot 0. -/
theorem pagingInstall_loses_table : ¬∃ (mem : Memory) (fuel : Nat) (boot : Boot),
    (Boot.initial 0x105000 mem).pagingInstall fuel 0x20000 = .ok boot ∧ boot.BootMapped := by
  rintro ⟨mem, fuel, boot, hrun, hmapped⟩
  have hapart := hmapped.bitsApart (show 0x100000 ≤ 0x105000 by decide) (by decide) (by decide)
    (fun hastride => absurd hastride.2.2 (by decide)) hrun
  revert hapart
  decide

end Boot

end X32PRos
