import X32PRos.Memory.BitmapOverrun

/-!
The turn of `paging_install` in which the bitmap meets the directory.
-/

namespace X32PRos

open Foundation

namespace Boot

variable {p : BootPlan} {mem₀ : Memory} {n k f : Nat} {s : Boot}

/-- The first clear bit is set, wherever it lies before the entry. -/
theorem allocFrame_sets (hoff : s.paging = false) {page : Nat} (hpage : page + 4 ≤ 2 ^ 32)
    (hblank : s.mem.load32 page = 0) (hfirst : s.allocator.firstFrame = f) (hf : f < 2 ^ 20)
    (hbefore : s.frames + 4 * (f / 32) + 4 ≤ page) :
    ∃ mem, s.allocFrame page 0 0 = .ok { s with mem := mem } ∧ Keeps s.mem mem ∧
      (mem (s.frames + f / 8)).toNat.testBit (f % 8) = true := by
  have hrun := (reach_of_unpaged hoff).allocFrame page hpage (by rw [hblank, Page.decode_zero]; rfl)
    hfirst hf (by omega) trivial
  obtain ⟨mem, hmem, hkept⟩ := allocFrame_keeps hoff hrun
  have heq := congrArg Boot.mem hmem
  dsimp only at heq
  refine ⟨mem, by rw [hrun, hmem], hkept, ?_⟩
  rw [← heq, Memory.store32_of_outside (by omega),
    Memory.setBit_byte_testBit f _ (Nat.mod_lt f (by decide)), decide_eq_true rfl, Bool.true_or]

/-- The bit of the first clear frame is bit 0 of the two low bytes of slot 0, or bit 3 beside
the flags of its physical address. -/
def Strikes (p : BootPlan) (f : Nat) : Prop :=
  f % 8 = 0 ∧ (p.frames + f / 8 = p.directory ∨ p.frames + f / 8 = p.directory + 1) ∨
    f % 8 = 3 ∧ p.frames + f / 8 = p.directory + 4096

theorem Strikes.spoilt (h : Strikes p f) {m : Memory}
    (hbit : (m (p.frames + f / 8)).toNat.testBit (f % 8) = true) : Spoilt p 0 m := by
  rw [Nat.testBit_eq_decide_div_mod_eq] at hbit
  have hset := of_decide_eq_true hbit
  unfold Spoilt
  cases h with
  | inl hfirst =>
      obtain ⟨hf, hbyte⟩ := hfirst
      rw [hf, Nat.pow_zero, Nat.div_one] at hset
      cases hbyte with
      | inl heq => exact Or.inl (heq ▸ hset)
      | inr heq => exact Or.inr (Or.inl (heq ▸ hset))
  | inr hfourth =>
      obtain ⟨hf, heq⟩ := hfourth
      rw [hf, heq] at hset
      exact Or.inr (Or.inr hset)

theorem Strikes.low (h : Strikes p f) : p.frames + 4 * (f / 32) + 4 ≤ p.firstTable := by
  have hbehind := p.behind
  unfold Strikes at h
  omega

/-- With its bit in slot 0, the next page takes the table of the slot with it. -/
theorem Strikes.lost (h : Strikes p f) (hplaced : s.Placed p) (hoff : s.paging = false)
    (hpointer : s.placementPointer = p.firstTable + 0x1000 * (k / 1024 + 1)) (hk : k < p.pages)
    (hblank : s.mem.load32 (p.firstTable + 4 * k) = 0)
    (hnamed : ∀ t, 1024 * t < k + 1 → s.mem.load32 (p.directory + 4 * t) ≠ 0)
    (hfirst : s.allocator.firstFrame = f) (hf : f < 2 ^ 20) :
    ∃ s', s.allocFrame (p.firstTable + 4 * k) 0 0 = .ok s' ∧ s'.Lost p 0 (k + 1) := by
  have hbehind := p.behind
  have hpos : 0 < p.firstTable + 0x1000 * (k / 1024 + 1) := by omega
  have hlow := h.low
  have hroom := BootPlan.room_of_lt (p := p) (n := k / 1024) (by
    have hpages := p.pages_le
    omega)
  have hword := hroom.word
  have hframes := hplaced.frames
  obtain ⟨mem, hrun, hkept, hbit⟩ := allocFrame_sets hoff (by omega) hblank hfirst hf (by omega)
  refine ⟨_, hrun, ?_⟩
  constructor
  case unpaged => exact hoff
  case directory => exact hplaced.directory
  case pointer => exact ⟨k / 1024 + 1, by omega, by rw [if_neg (Nat.succ_ne_zero _)]; exact hpointer⟩
  case visited => exact fun t ht => hkept.load32_ne (hnamed t ht)
  case index => decide
  case named => exact hkept.load32_ne (hnamed 0 (by omega))
  case spoilt => exact h.spoilt (hframes ▸ hbit)
  case page =>
    change 1024 * 0 * 0x1000 < s.placementPointer
    rw [hpointer]
    exact hpos

theorem mapPlacedTurn_eq {page : Nat} {s₁ s₂ : Boot} (hk : k < p.pages)
    (hget : s.getPage (k * 0x1000) 1 = .ok (page, s₁)) (halloc : s₁.allocFrame page 0 0 = .ok s₂) :
    mapPlacedTurn (k * 0x1000, s) = .ok ((k + 1) * 0x1000, s₂) := by
  have hnext := BootPlan.page_lt hk
  rw [Nat.succ_mul] at hnext
  unfold mapPlacedTurn
  dsimp only
  rw [hget, ok_bind]
  dsimp only
  rw [halloc, ok_bind, wordAdd_of_lt hnext, Nat.succ_mul]

/-- The bitmap reaches the directory behind it, or the physical addresses. -/
theorem BootAt.strikes (h : s.BootAt p mem₀ n k) (hn : 0 < n) (hk : k < p.pages) (hcap : k = p.cap)
    (hscan : k < p.words * 32) :
    ∃ f, Strikes p f ∧ f < 2 ^ 20 ∧ s.allocator.firstFrame = f := by
  have hnear := p.near
  have hfits := p.fits
  have haligned := p.firstTable_aligned
  have hframes := h.mapped.placed.frames
  have hdirectory := h.mapped.placed.directory
  have hzero := BootPlan.bootTab_ne_zero (p := p).mpr hn
  have htab := BootPlan.bootTab_of_lt (p := p) hn
  have hused : ∀ g < k, s.allocator.inUse g = true := by
    intro g hg
    exact (h.mapped.image.inUse g (by omega)).trans (decide_eq_true hg)
  have hbyte : ∀ f, s.allocator.inUse f =
      decide ((s.mem (p.frames + f / 8)).toNat / 2 ^ (f % 8) % 2 = 1) := by
    intro f
    rw [inUse_byte, hframes, Nat.testBit_eq_decide_div_mod_eq]
  by_cases hbefore : p.frames < p.directory
  · -- bit 0 of slot 0, in front of which the bitmap is full
    have hbound : k = 8 * (p.directory - p.frames) := by rw [hcap, BootPlan.cap, if_pos hbefore]
    have hplace : p.frames + k / 8 = p.directory := by omega
    have htable : s.mem.load32 (s.slot 0) = p.firstTable := by
      exact (h.mapped.image.table 0 (h.mapped.places.slot 0 hzero)).trans htab
    have hlow : (s.mem p.directory).toNat % 2 = 0 := by
      rw [slot, hdirectory] at htable
      unfold Memory.load32 at htable
      simp only [Nat.mul_zero, Nat.add_zero] at htable
      omega
    refine ⟨k, Or.inl ⟨by omega, Or.inl hplace⟩, by omega, ?_⟩
    refine (s.allocator.firstFrame_eq_iff (by unfold FrameAllocator.noFrame; omega)).mpr
      ⟨by rw [h.mapped.scanned]; exact hscan, ?_, hused⟩
    rw [hbyte, hplace, decide_eq_false_iff_not, show k % 8 = 0 by omega]
    omega
  · -- the three flags of the physical address are set already
    have hbound : k = 8 * (p.directory + 4096 - p.frames) := by
      rw [hcap, BootPlan.cap, if_neg hbefore]
    have hplace : ∀ o < 8, p.frames + (k + o) / 8 = p.directory + 4096 := by
      intro o ho
      omega
    have hphysical : s.mem.load32 (s.physicalSlot 0) = p.firstTable + 7 := by
      rw [show p.firstTable + 7 = p.bootTab n 0 + 7 by rw [htab]]
      exact h.mapped.image.physical 0 hzero
    have hlow : (s.mem (p.directory + 4096)).toNat % 16 = 7 := by
      rw [physicalSlot, hdirectory] at hphysical
      unfold Memory.load32 at hphysical
      simp only [Nat.mul_zero, Nat.add_zero] at hphysical
      omega
    refine ⟨k + 3, Or.inr ⟨by omega, hplace 3 (by decide)⟩, by omega, ?_⟩
    refine (s.allocator.firstFrame_eq_iff (by unfold FrameAllocator.noFrame; omega)).mpr
      ⟨by rw [h.mapped.scanned]; omega, ?_, ?_⟩
    · rw [hbyte, hplace 3 (by decide), decide_eq_false_iff_not, show (k + 3) % 8 = 3 by omega]
      omega
    · intro g hg
      by_cases hlt : g < k
      · exact hused g hlt
      · obtain ⟨o, ho, rfl⟩ : ∃ o < 3, g = k + o := ⟨g - k, by omega, by omega⟩
        rw [hbyte, hplace o (by omega), decide_eq_true_iff, show (k + o) % 8 = o by omega]
        have hcases : o = 0 ∨ o = 1 ∨ o = 2 := by omega
        rcases hcases with rfl | rfl | rfl
        · omega
        · omega
        · omega

theorem BootAt.turn_lost (h : s.BootAt p mem₀ ((k + 1023) / 1024) k) (hk : k < p.pages)
    (hslot : k / 1024 < p.slots) (hcap : k = p.cap) (hscan : k < p.words * 32) :
    ∃ s', mapPlacedTurn (k * 0x1000, s) = .ok ((k + 1) * 0x1000, s') ∧ s'.Lost p 0 (k + 1) := by
  obtain ⟨s₁, hget, h₁⟩ := h.getPage hk hslot
  have hn : (k + 1 + 1023) / 1024 = k / 1024 + 1 := by omega
  rw [hn] at h₁
  obtain ⟨f, hstrikes, hf, hfirst⟩ := h₁.strikes (Nat.succ_pos _) hk hcap hscan
  have hdirectory := h₁.mapped.placed.directory
  have hblank := h₁.mapped.blank (BootPlan.bootTab_ne_zero.mpr (Nat.lt_succ_self _))
  rw [BootPlan.bootTab_of_lt (Nat.lt_succ_self _),
    show p.firstTable + 0x1000 * (k / 1024) + 4 * (k % 1024) = p.firstTable + 4 * k by omega]
    at hblank
  have hnamed : ∀ t, 1024 * t < k + 1 → s₁.mem.load32 (p.directory + 4 * t) ≠ 0 := by
    intro t ht
    have hne := BootPlan.bootTab_ne_zero (p := p).mpr (show t < k / 1024 + 1 by omega)
    have htable : s₁.mem.load32 (s₁.slot t) = p.bootTab (k / 1024 + 1) t :=
      h₁.mapped.image.table t (h₁.mapped.places.slot t hne)
    rw [slot, hdirectory] at htable
    rwa [htable]
  obtain ⟨s', halloc, hlost⟩ := hstrikes.lost h₁.mapped.placed h₁.unpaged
    (by rw [h₁.pointer, if_neg (Nat.succ_ne_zero _)]) hk hblank hnamed hfirst hf
  exact ⟨s', mapPlacedTurn_eq hk hget halloc, hlost⟩

/-- The bitmap begins in the slot of the next page: its word is no address of a table. -/
theorem BootAt.slot_lost (h : s.BootAt p mem₀ ((k + 1023) / 1024) k) (hk : k < p.pages)
    (hpos : 0 < k) (hslot : k = 1024 * p.slots)
    (hbegins : p.frames = p.directory + 4 * p.slots ∨ p.frames = p.directory + 4 * p.slots + 1) :
    s.Lost p p.slots k := by
  have hroom := h.mapped.image.room
  have hpages := p.pages_le
  have htables := p.tables_le
  have hpointer := h.pointer
  have hframes := h.mapped.placed.frames
  have hdirectory := h.mapped.placed.directory
  have hn : (k + 1023) / 1024 = p.slots := by omega
  have hbit : (s.mem p.frames).toNat % 2 = 1 := by
    have hused : s.allocator.inUse 0 = true :=
      (h.mapped.image.inUse 0 (by omega)).trans (decide_eq_true hpos)
    rw [inUse_byte, hframes, Nat.testBit_eq_decide_div_mod_eq] at hused
    have hset := of_decide_eq_true hused
    rwa [Nat.zero_div, Nat.add_zero, Nat.zero_mod, Nat.pow_zero, Nat.div_one] at hset
  have hspoilt : Spoilt p p.slots s.mem := by
    cases hbegins with
    | inl heq => exact Or.inl (heq ▸ hbit)
    | inr heq => exact Or.inr (Or.inl (heq ▸ hbit))
  constructor
  case unpaged => exact h.unpaged
  case directory => exact hdirectory
  case pointer => exact ⟨_, Nat.le_refl _, hpointer⟩
  case visited =>
    intro t ht
    have hne := BootPlan.bootTab_ne_zero (p := p).mpr (show t < (k + 1023) / 1024 by omega)
    have htable : s.mem.load32 (s.slot t) = p.bootTab ((k + 1023) / 1024) t :=
      h.mapped.image.table t (h.mapped.places.slot t hne)
    rw [slot, hdirectory] at htable
    rwa [htable]
  case index => omega
  case named =>
    unfold Memory.load32
    unfold Spoilt at hspoilt
    cases hbegins with
    | inl heq =>
        rw [heq] at hbit
        omega
    | inr heq =>
        rw [heq] at hbit
        omega
  case spoilt => exact hspoilt
  case page =>
    have hlt := (p.lt_pages_iff k).mpr hk
    rw [hpointer, ← hslot, if_neg (by omega)]
    exact hlt

/-- The bitmap begins in slot 0, over which the first table is written. -/
theorem BootAt.first_lost (h : s.BootAt p mem₀ 0 0) (hscan : 0 < p.words)
    (hblank : s.mem.load32 p.directory = 0)
    (hbegins : p.frames = p.directory ∨ p.frames = p.directory + 1) :
    ∃ s', mapPlacedTurn (0, s) = .ok (0x1000, s') ∧ s'.Lost p 0 1 := by
  have hbehind := p.behind
  have hdirectory := h.mapped.placed.directory
  have hframes := h.mapped.placed.frames
  have htables := p.tables_pos
  have hroom := BootPlan.room_of_lt htables
  have hword := hroom.word
  have haligned := p.firstTable_aligned
  have hreach := reach_of_unpaged h.unpaged
  have hslot : s.slot 0 = p.directory := hdirectory
  have hphysical : s.physicalSlot 0 = p.directory + 4096 := by rw [physicalSlot, hdirectory]
  have hplace := BootPlan.nextTable htables h.pointer
  simp only [Nat.mul_zero, Nat.add_zero, Nat.zero_add, Nat.mul_one] at hplace hword
  have hmade := hreach.makeTable (t := 0) hplace (by omega) (by omega) (by omega) hword
    (fun _ _ _ => trivial) (fun _ _ _ => trivial)
  have hnew : (s.tableMem 0 p.firstTable).load32 (s.slot 0) = p.firstTable := by
    rw [tableMem, Memory.load32_store32_of_apart (by omega), load32_fillBytes_other (by omega),
      Memory.load32_store32_self (by omega)]
  have hget := hreach.getPage_of_noTable 0 (show s.slot 0 + 4 ≤ 2 ^ 32 by omega)
    (by rw [hslot]; exact hblank) hmade (reach_of_unpaged h.unpaged) rfl hnew
  have hentry : wordAdd p.firstTable (4 * (0 / 0x1000 % 1024)) = p.firstTable := wordAdd_of_lt (by omega)
  rw [hentry] at hget
  have hzero : (s.tableMem 0 p.firstTable).load32 p.firstTable = 0 := by
    rw [tableMem, Memory.load32_store32_of_apart (by omega), load32_fillBytes_zero (by omega)
      (by omega)]
  -- the table is aligned, so that the first bit of the bitmap is clear in its address
  have hfirst : (s.tableAt 0 p.firstTable (p.firstTable + 0x1000)).allocator.firstFrame = 0 := by
    refine (FrameAllocator.firstFrame_eq_iff _ (by decide)).mpr ⟨?_, ?_, fun g hg => absurd hg (by omega)⟩
    · change 0 < s.allocator.scanned
      rw [h.mapped.scanned]
      omega
    · rw [inUse_byte, Nat.testBit_eq_decide_div_mod_eq, decide_eq_false_iff_not]
      change ¬(s.tableMem 0 p.firstTable s.frames).toNat / 2 ^ 0 % 2 = 1
      rw [hslot] at hnew
      have h₀ := (s.tableMem 0 p.firstTable p.directory).toNat_lt
      have h₁ := (s.tableMem 0 p.firstTable (p.directory + 1)).toNat_lt
      unfold Memory.load32 at hnew
      rw [hframes]
      cases hbegins with
      | inl heq => rw [heq]; omega
      | inr heq => rw [heq]; omega
  have hstrikes : Strikes p 0 := Or.inl ⟨rfl, by omega⟩
  obtain ⟨s', halloc, hlost⟩ := hstrikes.lost (s := s.tableAt 0 p.firstTable (p.firstTable + 0x1000))
    (k := 0) ⟨h.mapped.placed.frames, h.mapped.placed.nframes, hdirectory, h.mapped.placed.cr3⟩
    h.unpaged rfl (by have hfixed := p.fixed; omega) hzero (by
      intro t ht
      rw [show t = 0 by omega]
      change (s.tableMem 0 p.firstTable).load32 p.directory ≠ 0
      rw [hslot] at hnew
      omega) hfirst (by decide)
  have hturn := mapPlacedTurn_eq (p := p) (k := 0) (by have hfixed := p.fixed; omega) hget halloc
  exact ⟨s', hturn, hlost⟩

end Boot

end X32PRos
