import X32PRos.Memory.BootMapped
import X32PRos.Memory.GrowthLoop

/-!
What `sbrk` maps, over the one memory. As long as the end of the heap stays a
32-bit address, and the bits and slots for the new pages and their tables keep
apart, each page of the returned range gets an entry and a frame of its own, or
the machine stops because no frame is left.
-/

namespace X32PRos

open Foundation

/-- The slot of page `k` lies in front of the bitmap, and so do its table and those before it;
its bit, if there is a frame for it, lies in front of the directory, or in front of the
physical addresses. -/
structure PageFits (start : Nat) (memsize : UInt32) (k : Nat) : Prop where
  slot : directoryBase start memsize ≤ start →
    directoryBase start memsize + 4 * (k / 1024) + 4 ≤ start
  table : Mm.growthCount (Mm.bootEnd start memsize / 0x1000) (k + 1) * 0x1000 ≤ start ∧
    Mm.growthCount (Mm.bootEnd start memsize / 0x1000) (k + 1) * 0x1000 ≤
      directoryBase start memsize
  bit : k < 32 * indexFromBit (memsize / 4).toNat → start + k / 8 < directoryBase start memsize ∨
    directoryBase start memsize ≤ start ∧ start + k / 8 < directoryBase start memsize + 4096

namespace Boot

/-- The end of the heap stays a 32-bit address, and every page up to there fits that the call
comes to before the frames run out. -/
structure SbrkFits (start : Nat) (memsize : UInt32) (s : Boot) (increment : Nat) : Prop where
  range : s.heapEnd + increment < 2 ^ 32
  pages : ∀ k, k * 0x1000 < s.heapEnd + increment → k ≤ 32 * indexFromBit (memsize / 4).toNat →
    PageFits start memsize k

/-- The call comes to a page whose slot holds the beginning of the bitmap, the pages in front
of it all fitting. -/
structure SbrkStrikes (start : Nat) (memsize : UInt32) (s : Boot) (increment k : Nat) : Prop where
  range : s.heapEnd + increment < 2 ^ 32
  page : s.heapEnd ≤ k * 0x1000 ∧ k * 0x1000 < s.heapEnd + increment
  frames : k ≤ 32 * indexFromBit (memsize / 4).toNat
  fits : ∀ j < k, PageFits start memsize j
  slot : directoryBase start memsize ≤ start ∧
    start < directoryBase start memsize + 4 * (k / 1024) + 4

/-- The heaps that come out of calls of `sbrk` that fit, after a boot, with the increments,
latest first. -/
inductive HeapOf (start : Nat) (memsize : UInt32) (boot : Boot) : List Nat → Boot → Prop
  | install : HeapOf start memsize boot [] boot.heapInstall
  | sbrk {s s' : Boot} {increments : List Nat} {increment address : Nat} :
      HeapOf start memsize boot increments s → SbrkFits start memsize s increment →
        s.sbrk increment = .ok (address, s') →
          HeapOf start memsize boot (increment :: increments) s'

/-- Page `j` is present, and no other address comes to its frame. -/
structure PageOwned (s : Boot) (j : Nat) : Prop where
  page : j < 2 ^ 20
  present : s.PagePresent j
  own : ∀ x < 2 ^ 32, translateFrom s.mem s.cr3 x = translateFrom s.mem s.cr3 (j * 0x1000) →
    x = j * 0x1000

/-- `sbrk` stops the machine for want of frames, or returns the old end of the heap with every
page of the range it returns. -/
def SbrkMaps (s : Boot) (increment : Nat) : Prop :=
  s.sbrk increment = .error outOfFrames ∨
    ∃ s', s.sbrk increment = .ok (s.heapEnd, s') ∧ s.heapEnd ≤ s'.heapEnd ∧
      ∀ j, s.heapEnd < (j + 1) * 0x1000 → j * 0x1000 < s.heapEnd + increment → s'.PageOwned j

variable {p : BootPlan} {old : List Nat} {k : Nat} {s s' : Boot} {mem₀ : Memory}

structure HeapMapped (p : BootPlan) (old : List Nat) (k : Nat) (s : Boot) : Prop where
  pages : s.HeapPages p old k
  heapEnd : s.heapEnd = k * 0x1000
  word : k * 0x1000 < 2 ^ 32

theorem HeapPages.withHeapEnd (h : s.HeapPages p old k) (heapEnd : Nat) :
    HeapPages p old k { s with heapEnd := heapEnd } :=
  ⟨⟨⟨⟨h.grown.mapped.placed.frames, h.grown.mapped.placed.nframes, h.grown.mapped.placed.directory,
    h.grown.mapped.placed.cr3⟩, h.grown.mapped.places, h.grown.mapped.image, h.grown.mapped.word,
    h.grown.mapped.low, h.grown.mapped.tables⟩, h.grown.paged, h.grown.aligned, h.grown.fresh⟩,
    h.clean, h.pointer, h.made, h.low, h.boot, h.scanned⟩

/-- The processor finds the pages of the heap at themselves, and nothing behind them. -/
theorem HeapPages.translateFrom_eq (h : s.HeapPages p old k) {x : Nat} (hx : x < 2 ^ 32) :
    translateFrom s.mem s.cr3 x = if x < k * 0x1000 then some x else none := by
  rw [h.grown.mapped.placed.cr3 h.grown.paged]
  refine h.grown.mapped.translateFrom_eq (fun t ht hnone => h.clean t ht ?_) hx
  by_contra hlt
  exact (BootPlan.heapTab_ne_zero h.tables_le).mpr (Nat.lt_of_not_le hlt) hnone

theorem HeapMapped.owned (h : s.HeapMapped p old k) {j : Nat} (hj : j < k) : s.PageOwned j := by
  have hword := h.word
  have hlt : j * 0x1000 < k * 0x1000 := Nat.mul_lt_mul_of_pos_right hj (by decide)
  refine ⟨by omega, h.pages.grown.mapped.pagePresent hj, ?_⟩
  intro x hx heq
  rw [h.pages.translateFrom_eq hx, h.pages.translateFrom_eq (Nat.lt_trans hlt hword), if_pos hlt] at heq
  by_cases hmapped : x < k * 0x1000
  · rw [if_pos hmapped, Option.some.injEq] at heq
    exact heq
  · rw [if_neg hmapped] at heq
    cases heq

/-- A call that fits maps its pages, or runs out of frames. -/
theorem HeapMapped.sbrk (h : s.HeapMapped p old k) {increment : Nat} (hdvd : 0x1000 ∣ increment)
    (hrange : s.heapEnd + increment < 2 ^ 32)
    (hadmits : ∀ j, j * 0x1000 < s.heapEnd + increment → j ≤ p.words * 32 → Admits p j) :
    (s.sbrk increment = .error outOfFrames ∧ p.words * 32 * 0x1000 < s.heapEnd + increment) ∨
      ∃ k' s', s.sbrk increment = .ok (s.heapEnd, s') ∧ s'.HeapMapped p old k' ∧
        k' * 0x1000 = s.heapEnd + increment := by
  have hstart := h.pages.withHeapEnd (s.heapEnd + increment)
  cases sbrk_of_turns
    (E := fun e => e = outOfFrames ∧ p.words * 32 * 0x1000 < s.heapEnd + increment)
    (G := fun j s' => s'.HeapPages p old j ∧ s'.heapEnd = s.heapEnd + increment) h.heapEnd hdvd
    hrange ⟨hstart, rfl⟩ (fun _ _ hs => hs.2) (by
      rintro j s' ⟨hs, hend⟩ - hnext
      have hlt : j * 0x1000 < s.heapEnd + increment :=
        Nat.lt_of_lt_of_le (Nat.mul_lt_mul_of_pos_right (Nat.lt_succ_self j) (by decide)) hnext
      refine (hs.turn (hadmits j hlt hs.scanned) (Nat.lt_of_le_of_lt hnext hrange)).imp
        (fun herr => ⟨_, herr.2, rfl, ?_⟩) fun hok => ?_
      · exact Nat.lt_of_le_of_lt (Nat.mul_le_mul_right 0x1000 herr.1) hlt
      · obtain ⟨s'', hrun, hs'', hend'⟩ := hok.2
        exact ⟨s'', hrun, hs'', hend'.trans hend⟩) with
  | inl herr =>
      obtain ⟨e, herr, rfl, hlt⟩ := herr
      exact Or.inl ⟨herr, hlt⟩
  | inr hok =>
      obtain ⟨k', s', hok, ⟨hs, hend⟩, hk'⟩ := hok
      exact Or.inr ⟨k', s', hok, ⟨hs, by rw [hend, hk'], by rw [hk']; exact hrange⟩, hk'⟩

theorem sbrk_dvd {increment : Nat} {r : Nat × Boot} (hok : s.sbrk increment = .ok r) :
    0x1000 ∣ increment := by
  unfold Boot.sbrk at hok
  obtain ⟨_, hassert, -⟩ := bind_eq_ok.mp hok
  exact Nat.dvd_of_mod_eq_zero (kassert_eq_ok.mp hassert)

/-- Past the last address the loop is not entered at all, and the end of the heap goes
down. -/
theorem sbrk_wraps {increment : Nat} (hend : s.heapEnd < 2 ^ 32) (hinc : increment < 2 ^ 32)
    (hdvd : 0x1000 ∣ increment) (hwraps : 2 ^ 32 ≤ s.heapEnd + increment) :
    ∃ s', s.sbrk increment = .ok (s.heapEnd, s') ∧ s'.heapEnd < s.heapEnd := by
  have hassert : increment % 0x1000 = 0 := Nat.mod_eq_zero_of_dvd hdvd
  have hlower : wordAdd s.heapEnd increment < s.heapEnd := by
    unfold wordAdd
    omega
  have hexit : mapGrowth (2 ^ 20 + 1)
      (s.heapEnd, { s with heapEnd := wordAdd s.heapEnd increment }) =
      .ok (s.heapEnd, { s with heapEnd := wordAdd s.heapEnd increment }) :=
    Loop.loop_of_exit _ (congrArg Except.ok (decide_eq_false (Nat.not_lt_of_lt hlower)))
  refine ⟨{ s with heapEnd := wordAdd s.heapEnd increment }, ?_, hlower⟩
  rw [Boot.sbrk, kassert_of hassert]
  dsimp only
  rw [ok_bind, hexit]
  rfl

theorem not_sbrkMaps_of_wraps {increment : Nat} (hend : s.heapEnd < 2 ^ 32)
    (hinc : increment < 2 ^ 32) (hdvd : 0x1000 ∣ increment)
    (hwraps : 2 ^ 32 ≤ s.heapEnd + increment) : ¬s.SbrkMaps increment := by
  obtain ⟨s', hok, hlower⟩ := sbrk_wraps hend hinc hdvd hwraps
  intro hmaps
  cases hmaps with
  | inl herr =>
      rw [hok] at herr
      cases herr
  | inr hret =>
      obtain ⟨s₁, hret, hle, -⟩ := hret
      rw [hok, Except.ok.injEq, Prod.mk.injEq] at hret
      rw [← hret.2] at hle
      exact absurd hlower (Nat.not_lt_of_le hle)

/-! ### The bitmap in a slot -/

/-- The upper byte of the slot is a byte of the bitmap, all of whose bits are set. -/
theorem HeapPages.struck (h : s.HeapPages p old k) (hslot : k = 1024 * p.slots)
    (hbegins : p.directory + 4 * p.slots ≤ p.frames ∧ p.frames < p.directory + 4 * p.slots + 4) :
    0xFF000000 ≤ s.mem.load32 (s.slot p.slots) := by
  have hroom := h.grown.mapped.image.room
  have hlow := p.directory_low
  have hbehind := p.behind
  have hfixed := p.fixed
  have hboot := h.boot
  have hfull : s.allocator.frames 0 = 0xFFFFFFFF#32 := by
    refine (Bitmap.word_full_iff (by decide) s.allocator.frames 0).mpr fun o ho => ?_
    exact (h.grown.mapped.image.inUse _ (by omega)).trans (decide_eq_true (by omega))
  have hword : s.mem.load32 p.frames = 0xFFFFFFFF := by
    have hnat := congrArg BitVec.toNat hfull
    change s.mem.load32 (s.frames + 4 * 0) % 2 ^ 32 = 0xFFFFFFFF at hnat
    rw [Nat.mod_eq_of_lt (Memory.load32_lt s.mem _), h.grown.mapped.placed.frames] at hnat
    exact hnat
  have hbyte : ∀ r < 4, (s.mem (p.frames + r)).toNat = 255 := by
    intro r hr
    have h₀ := (s.mem p.frames).toNat_lt
    have h₁ := (s.mem (p.frames + 1)).toNat_lt
    have h₂ := (s.mem (p.frames + 2)).toNat_lt
    have h₃ := (s.mem (p.frames + 3)).toNat_lt
    unfold Memory.load32 at hword
    have hcases : r = 0 ∨ r = 1 ∨ r = 2 ∨ r = 3 := by omega
    rcases hcases with rfl | rfl | rfl | rfl
    · rw [Nat.add_zero]
      omega
    · omega
    · omega
    · omega
  have hupper := hbyte (p.directory + 4 * p.slots + 3 - p.frames) (by omega)
  rw [show p.frames + (p.directory + 4 * p.slots + 3 - p.frames) = p.directory + 4 * p.slots + 3 by
    omega] at hupper
  rw [slot, h.grown.mapped.placed.directory]
  unfold Memory.load32
  omega

/-- Such an entry is nowhere, and the machine stops with a page fault. -/
theorem HeapPages.turn_struck (h : s.HeapPages p old k) (hslot : k = 1024 * p.slots)
    (hbegins : p.directory + 4 * p.slots ≤ p.frames ∧ p.frames < p.directory + 4 * p.slots + 4) :
    mapGrowthTurn (k * 0x1000, s) = .error pageFault := by
  have htable := h.struck hslot hbegins
  have hword := Memory.load32_lt s.mem (s.slot p.slots)
  have hroom := h.grown.mapped.image.room
  have hcap : p.cap = 8 * (p.directory + 4096 - p.frames) := if_neg (by omega)
  have hlow := h.grown.mapped.low
  have hlast := BootPlan.table_lt p.tables_pos
  have hbehind := p.behind
  have hindex : k * 0x1000 / 0x1000 / 1024 = p.slots := by omega
  have hentry : k * 0x1000 / 0x1000 % 1024 = 0 := by omega
  have hplace : s.slot p.slots = p.directory + 4 * p.slots := by
    rw [slot, h.grown.mapped.placed.directory]
  have hslots := p.slots_le
  have hget := h.grown.mapped.reach.getPage_of_table (k * 0x1000) 1
    (by rw [hindex, hplace]; omega) (by rw [hindex]) (show s.mem.load32 (s.slot p.slots) ≠ 0 by omega)
  rw [hentry, Nat.mul_zero, show wordAdd (s.mem.load32 (s.slot p.slots)) 0 =
    s.mem.load32 (s.slot p.slots) from Nat.mod_eq_of_lt hword] at hget
  have hnone : s.load32 (s.mem.load32 (s.slot p.slots)) = .error pageFault := by
    have hphysical : s.physical (s.mem.load32 (s.slot p.slots)) = none := by
      rw [physical, if_pos h.grown.paged, Nat.mod_eq_of_lt hword, h.translateFrom_eq hword,
        if_neg (by omega)]
    unfold Boot.load32
    rw [hphysical]
  unfold mapGrowthTurn
  dsimp only
  rw [hget, ok_bind]
  dsimp only
  rw [hget, ok_bind]
  dsimp only
  rw [Boot.allocFrame, hnone]
  rfl

/-- A call that comes to such a slot does not return. -/
theorem HeapMapped.sbrk_struck (h : s.HeapMapped p old k) {increment j : Nat}
    (hdvd : 0x1000 ∣ increment) (hrange : s.heapEnd + increment < 2 ^ 32)
    (hpage : s.heapEnd ≤ j * 0x1000 ∧ j * 0x1000 < s.heapEnd + increment)
    (hframes : j ≤ p.words * 32) (hadmits : ∀ i < j, Admits p i) (hslot : j = 1024 * p.slots)
    (hbegins : p.directory + 4 * p.slots ≤ p.frames ∧ p.frames < p.directory + 4 * p.slots + 4) :
    s.sbrk increment = .error pageFault := by
  have hstart := h.pages.withHeapEnd (s.heapEnd + increment)
  have hend := h.heapEnd
  cases sbrk_of_turns (E := fun e => e = pageFault)
    (G := fun i s' => s'.HeapPages p old i ∧ i ≤ j ∧ s'.heapEnd = s.heapEnd + increment)
    h.heapEnd hdvd hrange ⟨hstart, by omega, rfl⟩ (fun _ _ hs => hs.2.2) (by
      rintro i s' ⟨hs, hle, hend'⟩ - hnext
      by_cases hlast : i = j
      · subst hlast
        exact Or.inl ⟨_, hs.turn_struck hslot hbegins, rfl⟩
      · have hlt : i < j := Nat.lt_of_le_of_ne hle hlast
        refine Or.inr ?_
        cases hs.turn (hadmits i hlt) (Nat.lt_of_le_of_lt hnext hrange) with
        | inl herr => exact absurd (Nat.lt_of_lt_of_le hlt hframes) (Nat.not_lt_of_le herr.1)
        | inr hok =>
            obtain ⟨s'', hrun, hs'', hend''⟩ := hok.2
            exact ⟨s'', hrun, hs'', hlt, hend''.trans hend'⟩) with
  | inl herr =>
      obtain ⟨e, herr, rfl⟩ := herr
      exact herr
  | inr hok =>
      obtain ⟨k', s', -, ⟨-, hle, -⟩, hk'⟩ := hok
      omega

end Boot

section Boot

variable {start : Nat} {memsize : UInt32} (hlow : 0x100000 ≤ start)
  (hhigh : Mm.bootEnd start memsize < 2 ^ 32) {mem : Memory} {fuel k increment : Nat} {increments : List Nat}
  {boot s : Boot}

theorem PageFits.admits (h : PageFits start memsize k) (hk : k < 2 ^ 20) :
    Boot.Admits (bootPlan hlow hhigh) k := by
  have hbit := h.bit
  constructor
  case slot =>
    change _ < if start < directoryBase start memsize then 1024
      else (start - directoryBase start memsize) / 4
    split
    case isTrue => omega
    case isFalse hle =>
      have hslot := h.slot (Nat.le_of_not_lt hle)
      omega
  case frames => exact h.table.1
  case directory => exact h.table.2
  case bit =>
    intro hscan
    change k < indexFromBit (memsize / 4).toNat * 32 at hscan
    change k < if start < directoryBase start memsize then 8 * (directoryBase start memsize - start)
      else 8 * (directoryBase start memsize + 4096 - start)
    split
    case isTrue => omega
    case isFalse hle => omega

theorem Boot.SbrkFits.admits (h : SbrkFits start memsize s increment) (hpage : k * 0x1000 <
    s.heapEnd + increment) (hscan : k ≤ (bootPlan hlow hhigh).words * 32) :
    Boot.Admits (bootPlan hlow hhigh) k := by
  have hrange := h.range
  refine (h.pages k hpage ?_).admits hlow hhigh (by omega)
  change k ≤ indexFromBit (memsize / 4).toNat * 32 at hscan
  omega

/-- The page is the first one of its slot, and the bitmap begins there. -/
theorem Boot.SbrkStrikes.slot_eq (h : SbrkStrikes start memsize s increment k)
    (hboot : (bootPlan hlow hhigh).pages * 0x1000 ≤ s.heapEnd) :
    k = 1024 * (bootPlan hlow hhigh).slots ∧
      directoryBase start memsize + 4 * (bootPlan hlow hhigh).slots ≤ start ∧
      start < directoryBase start memsize + 4 * (bootPlan hlow hhigh).slots + 4 := by
  have hbase := (bootPlan hlow hhigh).directory_low
  have hbehind := (bootPlan hlow hhigh).behind
  have hfixed := (bootPlan hlow hhigh).fixed
  have hpage := h.page
  obtain ⟨hle, hslot⟩ := h.slot
  have hlast := (h.fits (k - 1) (by omega)).slot hle
  have hslots : (bootPlan hlow hhigh).slots = (start - directoryBase start memsize) / 4 :=
    if_neg (Nat.not_lt_of_le hle)
  omega

/-- Every heap that comes out of calls that fit is mapped. -/
theorem Boot.HeapOf.mapped (h : HeapOf start memsize boot increments s)
    (hboot : boot.Booted (bootPlan hlow hhigh) ((initial start mem).pagingSetup memsize).mem) :
    ∃ k, s.HeapMapped (bootPlan hlow hhigh) boot.made k ∧
      k * 0x1000 = boot.heapInstall.heapEnd + increments.sum := by
  induction h with
  | install =>
      exact ⟨_, ⟨hboot.heapInstall, hboot.pointer, (bootPlan hlow hhigh).fits⟩, hboot.pointer.symm⟩
  | @sbrk s s' increments increment address _ hfits hok ih =>
      obtain ⟨k, hs, hsum⟩ := ih
      cases hs.sbrk (sbrk_dvd hok) hfits.range
        (fun j hj hscan => hfits.admits hlow hhigh hj hscan) with
      | inl herr =>
          rw [herr.1] at hok
          cases hok
      | inr hret =>
          obtain ⟨k', s₁, hret, hs₁, hk'⟩ := hret
          rw [hok, Except.ok.injEq, Prod.mk.injEq] at hret
          rw [hret.2, List.sum_cons]
          refine ⟨k', hs₁, ?_⟩
          rw [hk', hs.heapEnd, hsum, Nat.add_assoc, Nat.add_comm increment]

include hlow in
/-- With its bit in front of the directory or of the physical addresses, the pages in front
of it fit too. -/
theorem PageFits.mono {k' : Nat} (h : PageFits start memsize k') (hk : k ≤ k')
    (hscan : k' < 32 * indexFromBit (memsize / 4).toNat) : PageFits start memsize k := by
  have hbase : 0x1000 ≤ directoryBase start memsize := by
    unfold directoryBase
    omega
  have hcount : ∀ n, Mm.growthCount n (k + 1) ≤ 1 ∨
      Mm.growthCount n (k + 1) ≤ Mm.growthCount n (k' + 1) := by
    intro n
    unfold Mm.growthCount
    split <;> split <;> omega
  have htable := h.table
  constructor
  case slot =>
    intro hle
    have hslot := h.slot hle
    omega
  case table =>
    cases hcount (Mm.bootEnd start memsize / 0x1000) with
    | inl hone =>
        have hpage := Nat.mul_le_mul_right 0x1000 hone
        exact ⟨Nat.le_trans hpage (Nat.le_trans (by decide) hlow), Nat.le_trans hpage hbase⟩
    | inr hcount =>
        have hpage := Nat.mul_le_mul_right 0x1000 hcount
        exact ⟨Nat.le_trans hpage htable.1, Nat.le_trans hpage htable.2⟩
  case bit =>
    intro _
    have hbit := h.bit hscan
    omega

include hlow hhigh in
/-- With frames for all its pages, the first call returns. -/
theorem Boot.growth_returns (mem : Memory) (hapart : BitsApart start memsize)
    (henough : EnoughFrames start memsize) (hfuel : Mm.bootEnd start memsize / 0x1000 < fuel)
    (hdvd : 0x1000 ∣ increment) (hrange : Mm.bootEnd start memsize + increment < 2 ^ 32)
    (hframes : Mm.bootEnd start memsize + increment ≤
      32 * indexFromBit (memsize / 4).toNat * 0x1000)
    (hfits : PageFits start memsize ((Mm.bootEnd start memsize + increment) / 0x1000 - 1)) :
    ∃ boot s, (Boot.initial start mem).pagingInstall fuel memsize = .ok boot ∧
      boot.heapInstall.heapEnd = Mm.bootEnd start memsize ∧
        boot.heapInstall.SbrkFits start memsize increment ∧
          boot.heapInstall.sbrk increment = .ok (boot.heapInstall.heapEnd, s) := by
  obtain ⟨boot, hboot, hbooted⟩ := pagingInstall_booted hlow hhigh (s := Boot.initial start mem)
    rfl rfl rfl hapart henough hfuel
  have hend : boot.heapInstall.heapEnd = Mm.bootEnd start memsize :=
    hbooted.pointer.trans (bootPlan hlow hhigh).fixed
  have hbase := (bootPlan hlow hhigh).directory_low
  have hbehind := (bootPlan hlow hhigh).behind
  have hfixed := (bootPlan hlow hhigh).fixed
  change _ = Mm.bootEnd start memsize at hfixed
  have hcall : boot.heapInstall.SbrkFits start memsize increment := by
    constructor
    case range => rw [hend]; exact hrange
    case pages =>
      intro k hk _
      rw [hend] at hk
      exact hfits.mono hlow (by omega) (by omega)
  obtain ⟨k, hmapped, -⟩ := HeapOf.install.mapped hlow hhigh hbooted
  cases hmapped.sbrk hdvd hcall.range (fun j hj hscan => hcall.admits hlow hhigh hj hscan) with
  | inl herr =>
      have hlt := herr.2
      rw [hend] at hlt
      change indexFromBit (memsize / 4).toNat * 32 * 0x1000 < _ at hlt
      omega
  | inr hok =>
      obtain ⟨k', s, hok, -⟩ := hok
      exact ⟨boot, s, hboot, hend, hcall, hok⟩

include hlow hhigh in
/-- In every heap that comes out of calls that fit, a call that fits maps all that it
returns. One that takes the end of the heap past 32 bits never does, nor does one that
comes to a slot in which the bitmap begins. -/
theorem sbrk_maps (hapart : BitsApart start memsize)
    (hboot : (Boot.initial start mem).pagingInstall fuel memsize = .ok boot)
    (hs : boot.HeapOf start memsize increments s) (hinc : increment < 2 ^ 32)
    (hdvd : 0x1000 ∣ increment) :
    (s.SbrkFits start memsize increment → s.SbrkMaps increment) ∧
    (2 ^ 32 ≤ s.heapEnd + increment → ¬s.SbrkMaps increment) ∧
      ∀ k, s.SbrkStrikes start memsize increment k → ¬s.SbrkMaps increment := by
  obtain ⟨k, hmapped, -⟩ := hs.mapped hlow hhigh
    (pagingInstall_returned hlow hhigh rfl rfl rfl hapart hboot)
  have hend := hmapped.heapEnd
  refine ⟨fun hfits => ?_, ?_, fun k' hstrikes => ?_⟩
  · refine (hmapped.sbrk hdvd hfits.range fun j hj hscan =>
      hfits.admits hlow hhigh hj hscan).imp And.left fun hret => ?_
    obtain ⟨k', s', hok, hs', hk'⟩ := hret
    refine ⟨s', hok, ?_, fun j _ hj => hs'.owned ?_⟩
    · rw [hs'.heapEnd, hk']
      exact Nat.le_add_right _ _
    · rw [← hk'] at hj
      exact Nat.lt_of_mul_lt_mul_right hj
  · exact Boot.not_sbrkMaps_of_wraps (hend ▸ hmapped.word) hinc hdvd
  · have hrange := hstrikes.range
    obtain ⟨hslot, hbegins⟩ := hstrikes.slot_eq hlow hhigh (by
      rw [hend]
      exact Nat.mul_le_mul_right 0x1000 hmapped.pages.boot)
    have hpage := hstrikes.page
    have hframes := hstrikes.frames
    have hfault := hmapped.sbrk_struck hdvd hrange hpage
      (show _ ≤ indexFromBit (memsize / 4).toNat * 32 by omega)
      (fun i hi => (hstrikes.fits i hi).admits hlow hhigh (by omega)) hslot hbegins
    rintro (herr | ⟨s', hok, -⟩)
    · rw [hfault] at herr
      exact absurd herr (by simp [Boot.pageFault, outOfFrames])
    · rw [hfault] at hok
      cases hok

/-- The first page of a heap of a machine with 128 MB. -/
theorem sbrk_maps_one_page : ∃ boot,
    (Boot.initial 0x105060 fun _ => 0).pagingInstall 0x1000 0x20000 = .ok boot ∧
      boot.heapInstall.SbrkMaps 0x1000 := by
  obtain ⟨boot, s, hboot, -, hfits, -⟩ := Boot.growth_returns (show 0x100000 ≤ 0x105060 by decide)
    (show Mm.bootEnd 0x105060 0x20000 < 2 ^ 32 by decide) (fun _ => 0) (by decide) (by decide)
    (show _ < 0x1000 by decide) (show 0x1000 ∣ 0x1000 by decide) (by decide) (by decide)
    ⟨by decide, by decide, by decide⟩
  exact ⟨boot, hboot, (sbrk_maps (by decide) (by decide) (by decide) hboot Boot.HeapOf.install
    (by decide) (by decide)).1 hfits⟩

/-- An increment of 4 GB less one page returns the end of the heap and moves it down. -/
theorem sbrk_wraps_4GB : ∃ boot,
    (Boot.initial 0x105060 fun _ => 0).pagingInstall 0x1000 0x20000 = .ok boot ∧
      ¬boot.heapInstall.SbrkMaps 0xFFFFF000 := by
  obtain ⟨boot, hboot, hbooted⟩ := pagingInstall_booted (show 0x100000 ≤ 0x105060 by decide)
    (show Mm.bootEnd 0x105060 0x20000 < 2 ^ 32 by decide) (s := Boot.initial 0x105060 fun _ => 0) rfl rfl rfl (by decide)
    (by decide) (show _ < 0x1000 by decide)
  have hend : boot.heapInstall.heapEnd = 0x108000 := hbooted.pointer
  refine ⟨boot, hboot, Boot.not_sbrkMaps_of_wraps ?_ (by decide) (by decide) ?_⟩
  · rw [hend]
    decide
  · rw [hend]
    decide

end Boot

end X32PRos
