import X32PRos.Memory.PageSteps

/-!
The loop of `paging_install` over one memory. The page tables follow one another
behind the directory; the loop goes well as long as the bits for its pages and the
slots that it uses do not meet.
-/

namespace X32PRos

open Foundation

namespace BootPlan

variable (p : BootPlan)

def bootTab (n t : Nat) : Nat := if t < n then p.firstTable + 0x1000 * t else 0

/-- Page `k` has its bit and its slot apart from everything else, and there is a frame for it. -/
structure Clear (k : Nat) : Prop where
  bit : k < p.cap
  slot : k / 1024 < p.slots
  frame : k < p.words * 32

def Spare (x : Nat) : Prop :=
  (x < p.frames ∨ p.frames + (p.pages + 7) / 8 ≤ x) ∧
    (x < p.directory ∨ p.directory + 4 * p.tables ≤ x ∧ x < p.directory + 4096 ∨
      p.pages * 0x1000 ≤ x)

theorem firstTable_aligned : 0x1000 ∣ p.firstTable := by
  have haligned := p.aligned
  have hbehind := p.behind
  omega

theorem tables_pos : 0 < p.tables := by
  have hleast := p.least
  have hbehind := p.behind
  have hlow := p.directory_low
  omega

theorem tables_le : p.tables ≤ 1024 := by
  have hfixed := p.fixed
  have hleast := p.least
  have hfits := p.fits
  omega

theorem pages_le : p.pages ≤ 1024 * p.tables := by
  have hfixed := p.fixed
  have hleast := p.least
  omega

/-- The loop goes on exactly while there are pages left. -/
theorem lt_pages_iff (k : Nat) :
    k * 0x1000 < p.firstTable + 0x1000 * ((k + 1023) / 1024) ↔ k < p.pages := by
  have hfixed := p.fixed
  have hleast := p.least
  have hbehind := p.behind
  have haligned := p.aligned
  omega

theorem count_eq : (p.pages + 1023) / 1024 = p.tables := by
  have hpages := p.pages_le
  have hfixed := p.fixed
  have hleast := p.least
  omega

variable {p}

theorem bootTab_of_lt {n t : Nat} (h : t < n) : p.bootTab n t = p.firstTable + 0x1000 * t := if_pos h

theorem bootTab_of_le {n t : Nat} (h : n ≤ t) : p.bootTab n t = 0 := if_neg (by omega)

theorem bootTab_ne_zero {n t : Nat} : p.bootTab n t ≠ 0 ↔ t < n := by
  have hbehind := p.behind
  constructor
  · intro hne
    by_contra hle
    exact hne (bootTab_of_le (Nat.le_of_not_lt hle))
  · intro h
    rw [bootTab_of_lt h]
    omega

/-- With no table and no frame given out, no page is mapped. -/
theorem pageImage_start {v : View} (htable : ∀ t < p.slots, v.table t = 0)
    (hfree : ∀ f < p.cap, v.inUse f = false) : PageImage p (p.bootTab 0) 0 v := by
  have hnone : ∀ t, ¬p.bootTab 0 t ≠ 0 := fun t ht => ht (bootTab_of_le (Nat.zero_le t))
  constructor
  case room => exact Nat.zero_le _
  case table =>
    intro t ht
    rw [htable t ht, bootTab_of_le (Nat.zero_le t)]
  case physical => exact fun t ht => absurd ht (hnone t)
  case entry => exact fun t ht => absurd ht (hnone t)
  case mapped => exact fun j hj => absurd hj (Nat.not_lt_zero j)
  case inUse =>
    intro f hf
    rw [hfree f hf, decide_eq_false (Nat.not_lt_zero f)]

theorem bootTab_succ (n : Nat) :
    Function.update (p.bootTab n) n (p.firstTable + 0x1000 * n) = p.bootTab (n + 1) := by
  funext t
  rw [Function.update_apply]
  unfold bootTab
  by_cases heq : t = n
  · rw [if_pos heq, if_pos (by omega), heq]
  · rw [if_neg heq]
    by_cases hlt : t < n
    · rw [if_pos hlt, if_pos (by omega)]
    · rw [if_neg hlt, if_neg (by omega)]

theorem table_lt {n : Nat} (h : n < p.tables) : p.firstTable + 0x1000 * (n + 1) < 2 ^ 32 := by
  have hfixed := p.fixed
  have hfits := p.fits
  omega

theorem page_lt {k : Nat} (h : k < p.pages) : (k + 1) * 0x1000 < 2 ^ 32 :=
  Nat.lt_of_le_of_lt (Nat.mul_le_mul_right 0x1000 h) p.fits

theorem room_of_lt {n : Nat} (h : n < p.tables) : p.Room (p.firstTable + 0x1000 * n) := by
  have haligned := p.firstTable_aligned
  have hlt := table_lt h
  exact ⟨by omega, by omega, Or.inr (Nat.le_add_right _ _)⟩

theorem places_bootTab {n : Nat} (hn : n ≤ p.tables) (hslots : n ≤ p.slots) :
    p.Places (p.bootTab n) := by
  constructor
  case slot => exact fun t ht => Nat.lt_of_lt_of_le (bootTab_ne_zero.mp ht) hslots
  case room =>
    intro t ht
    have hlt := bootTab_ne_zero.mp ht
    rw [bootTab_of_lt hlt]
    exact room_of_lt (Nat.lt_of_lt_of_le hlt hn)
  case own =>
    intro t t' ht heq
    have hlt := bootTab_ne_zero.mp ht
    have hlt' := bootTab_ne_zero.mp (heq ▸ ht)
    rw [bootTab_of_lt hlt, bootTab_of_lt hlt'] at heq
    omega

/-- The next table is put behind the last one, over the end of the directory the first time. -/
theorem nextTable {n q : Nat} (hn : n < p.tables)
    (hq : q = if n = 0 then p.directory + 0x2004 else p.firstTable + 0x1000 * n) :
    kvmallocP pageTableSize q =
      (⟨p.firstTable + 0x1000 * n, some (p.firstTable + 0x1000 * n)⟩,
        p.firstTable + 0x1000 * (n + 1)) := by
  have hfit := table_lt hn
  have hbehind := p.behind
  have hdvd := p.firstTable_aligned
  have hsize : pageTableSize = 0x1000 := rfl
  obtain ⟨rest, hrest, hsum⟩ : ∃ rest < 0x1000,
      q = p.firstTable + 0x1000 * n + rest := by
    by_cases hzero : n = 0
    · rw [if_pos hzero] at hq
      exact ⟨4, by decide, by omega⟩
    · rw [if_neg hzero] at hq
      exact ⟨0, by decide, by rw [hq, Nat.add_zero]⟩
  have hlt : q < 2 ^ 32 := by omega
  have hbase : pageBase q = p.firstTable + 0x1000 * n := by
    rw [pageBase_eq hlt]
    omega
  have hnext : p.firstTable + 0x1000 * n + 0x1000 = p.firstTable + 0x1000 * (n + 1) := by omega
  rw [kvmallocP_eq _ hlt, if_neg (by omega), hbase, hsize, hnext, Nat.mod_eq_of_lt (by omega)]

/-- A loop that maps page after page while its counter is below the placement pointer
maps all pages of the boot, and ends. -/
theorem loop_maps (p : BootPlan) {σ : Type} (pointer : σ → Nat)
    {turn : Nat × σ → Except Fault (Nat × σ)} (Good : Nat → σ → Prop)
    (hpointer : ∀ k s, Good k s → pointer s = if (k + 1023) / 1024 = 0 then p.directory + 0x2004
      else p.firstTable + 0x1000 * ((k + 1023) / 1024))
    (hturn : ∀ k s, Good k s → k < p.pages →
      ∃ s', turn (k * 0x1000, s) = .ok ((k + 1) * 0x1000, s') ∧ Good (k + 1) s')
    {s : σ} (hs : Good 0 s) {fuel : Nat} (hfuel : p.pages < fuel) :
    ∃ i s', Loop.loop (fun s => .ok (decide (s.1 < pointer s.2))) turn .diverges fuel (0, s) =
      .ok (i, s') ∧ Good p.pages s' := by
  have hgo : ∀ k s, Good k s → (k * 0x1000 < pointer s ↔ k < p.pages) := by
    intro k s hk
    rw [← p.lt_pages_iff k, hpointer k s hk]
    have hbehind := p.behind
    by_cases hzero : (k + 1023) / 1024 = 0
    · rw [if_pos hzero]
      omega
    · rw [if_neg hzero]
  have hstep : ∀ r : Nat × σ, (∃ k ≤ p.pages, r.1 = k * 0x1000 ∧ Good k r.2) →
      decide (r.1 < pointer r.2) = true → ∃ r', turn r = .ok r' ∧
        (∃ k ≤ p.pages, r'.1 = k * 0x1000 ∧ Good k r'.2) ∧
          p.pages - r'.1 / 0x1000 < p.pages - r.1 / 0x1000 := by
    intro r hr hlt
    obtain ⟨i, s⟩ := r
    obtain ⟨k, hle, rfl, hk⟩ := hr
    have hmore := (hgo k s hk).mp (of_decide_eq_true hlt)
    obtain ⟨s', hrun, hs'⟩ := hturn k s hk hmore
    exact ⟨_, hrun, ⟨k + 1, hmore, rfl, hs'⟩, by dsimp only; omega⟩
  obtain ⟨⟨i, s'⟩, hloop, ⟨k, hle, hi, hk⟩, hexit⟩ :=
    Loop.loop_returns Fault.diverges (fun r => p.pages - r.1 / 0x1000) hstep fuel (0, s)
      ⟨0, Nat.zero_le _, rfl, hs⟩ (Nat.lt_of_le_of_lt (Nat.sub_le _ _) hfuel)
  have hend : ¬k < p.pages := by
    rw [← hgo k s' hk]
    exact hi ▸ of_decide_eq_false hexit
  rw [Nat.le_antisymm hle (Nat.le_of_not_lt hend)] at hk
  exact ⟨i, s', hloop, hk⟩

end BootPlan

namespace Boot

/-- The loop of `paging_install` with `n` tables made and `k` pages mapped, from the memory
`mem₀`. -/
structure BootAt (p : BootPlan) (mem₀ : Memory) (n k : Nat) (s : Boot) : Prop where
  mapped : s.Mapped p (p.bootTab n) k
  clean : ∀ t < 1024, n ≤ t → s.view.physical t = 0
  unpaged : s.paging = false
  pointer : s.placementPointer =
    if n = 0 then p.directory + 0x2004 else p.firstTable + 0x1000 * n
  made : ∀ b ∈ s.made, ∃ t < n, b = p.firstTable + 0x1000 * t
  scanned : k ≤ p.words * 32
  rest : ∀ x, p.Spare x → s.mem x = mem₀ x

namespace BootAt

variable {p : BootPlan} {mem₀ : Memory} {n k : Nat} {s : Boot}

/-- The entry of page `k`, in a table that is there or is made now. -/
theorem getPage (h : s.BootAt p mem₀ ((k + 1023) / 1024) k) (hk : k < p.pages)
    (hslot : k / 1024 < p.slots) :
    ∃ s', s.getPage (k * 0x1000) 1 = .ok (p.firstTable + 4 * k, s') ∧
      s'.BootAt p mem₀ ((k + 1 + 1023) / 1024) k := by
  have hpages := p.pages_le
  have hbehind := p.behind
  have hfixed := p.fixed
  have hslots := p.slots_le
  have hpage : k * 0x1000 / 0x1000 = k := Nat.mul_div_cancel k (by decide)
  by_cases hfirst : k % 1024 = 0
  · have hn : (k + 1023) / 1024 = k / 1024 := by omega
    have hn' : (k + 1 + 1023) / 1024 = k / 1024 + 1 := by omega
    have htables : k / 1024 < p.tables := by omega
    have hroom := BootPlan.room_of_lt htables
    rw [hn] at h
    obtain ⟨hrun, hmapped⟩ := h.mapped.getPage_of_noTable (k * 0x1000)
      (BootPlan.nextTable htables h.pointer) (by rw [hpage]; exact hslot)
      (by rw [hpage]; exact BootPlan.bootTab_of_le (Nat.le_refl _)) hroom
      (by rw [top, h.unpaged]; exact hroom.word) (by
        intro _ t' heq
        have hlt := BootPlan.bootTab_ne_zero.mp (show p.bootTab (k / 1024) t' ≠ 0 by omega)
        rw [BootPlan.bootTab_of_lt hlt] at heq
        omega)
    rw [hpage] at hrun hmapped
    rw [BootPlan.bootTab_succ] at hmapped
    have hmakes := h.mapped.placed.makes (p.firstTable + 0x1000 * (k / 1024 + 1)) hslot hroom
    refine ⟨s.tableAt (k / 1024) (p.firstTable + 0x1000 * (k / 1024))
      (p.firstTable + 0x1000 * (k / 1024 + 1)), ?_, ?_⟩
    · rw [hrun, show p.firstTable + 0x1000 * (k / 1024) + 4 * (k % 1024) = p.firstTable + 4 * k by
        omega]
    · rw [hn']
      constructor
      case mapped => exact hmapped
      case clean =>
        intro t ht hle
        rw [hmakes.physical t ht, if_neg (by omega), h.clean t ht (by omega)]
      case unpaged => exact h.unpaged
      case pointer => rw [if_neg (Nat.succ_ne_zero _)]; rfl
      case made =>
        intro b hb
        cases List.mem_cons.mp hb with
        | inl heq => exact ⟨k / 1024, Nat.lt_succ_self _, heq⟩
        | inr hb =>
            obtain ⟨t, ht, heq⟩ := h.made b hb
            exact ⟨t, Nat.lt_succ_of_lt ht, heq⟩
      case scanned => exact h.scanned
      case rest =>
        intro x hx
        have hdirectory := h.mapped.placed.directory
        rw [← h.rest x hx]
        unfold BootPlan.Spare at hx
        apply tableMem_of_apart
        · unfold slot
          omega
        · omega
        · unfold physicalSlot
          omega
  · have hn : (k + 1023) / 1024 = (k + 1 + 1023) / 1024 := by omega
    have htab := BootPlan.bootTab_of_lt (p := p) (show k / 1024 < (k + 1023) / 1024 by omega)
    refine ⟨s, ?_, hn ▸ h⟩
    rw [h.mapped.getPage_of_table _ 1 (by rw [hpage, htab]; omega), hpage, htab,
      show p.firstTable + 0x1000 * (k / 1024) + 4 * (k % 1024) = p.firstTable + 4 * k by omega]

theorem allocFrame (h : s.BootAt p mem₀ n k) (hk : k < p.pages) (hn : k / 1024 < n)
    (hclear : p.Clear k) :
    ∃ s', s.allocFrame (p.firstTable + 4 * k) 0 0 = .ok s' ∧ s'.BootAt p mem₀ n (k + 1) := by
  have hbehind := p.behind
  have hfits := p.fits
  have hfixed := p.fixed
  have htab := BootPlan.bootTab_of_lt (p := p) hn
  have hentry : p.bootTab n (k / 1024) + 4 * (k % 1024) = p.firstTable + 4 * k := by omega
  have hne : p.bootTab n (k / 1024) ≠ 0 := by omega
  obtain ⟨hrun, hmapped⟩ := h.mapped.allocFrame hne hclear.bit hclear.frame (by omega)
  have hallocates := h.mapped.placed.allocates (Nat.mod_lt k (by decide)) hclear.bit
    (by omega) (h.mapped.places.room _ hne)
  rw [hentry] at hrun hmapped hallocates
  refine ⟨_, hrun, ?_⟩
  constructor
  case mapped => exact hmapped
  case clean =>
    intro t ht hle
    rw [hallocates.physical t ht, h.clean t ht hle]
  case unpaged => exact h.unpaged
  case pointer => exact h.pointer
  case made => exact h.made
  case scanned => exact hclear.frame
  case rest =>
    intro x hx
    have hframes := h.mapped.placed.frames
    have hpages := p.pages_le
    rw [← h.rest x hx]
    unfold BootPlan.Spare at hx
    apply frameMem_of_apart
    · omega
    · omega

theorem turn (h : s.BootAt p mem₀ ((k + 1023) / 1024) k) (hk : k < p.pages) (hclear : p.Clear k) :
    ∃ s', mapPlacedTurn (k * 0x1000, s) = .ok ((k + 1) * 0x1000, s') ∧
      s'.BootAt p mem₀ ((k + 1 + 1023) / 1024) (k + 1) := by
  have hnext := BootPlan.page_lt hk
  obtain ⟨s₁, hget, h₁⟩ := h.getPage hk hclear.slot
  obtain ⟨s', halloc, h'⟩ := h₁.allocFrame hk (by omega) hclear
  rw [Nat.succ_mul] at hnext
  refine ⟨s', ?_, h'⟩
  unfold mapPlacedTurn
  dsimp only
  rw [hget, ok_bind]
  dsimp only
  rw [halloc, ok_bind, wordAdd_of_lt hnext, Nat.succ_mul]

theorem lt_pages_iff (h : s.BootAt p mem₀ ((k + 1023) / 1024) k) :
    k * 0x1000 < s.placementPointer ↔ k < p.pages := by
  have hpointer := h.pointer
  have hbehind := p.behind
  rw [← p.lt_pages_iff k, hpointer]
  by_cases hzero : (k + 1023) / 1024 = 0
  · rw [if_pos hzero]
    omega
  · rw [if_neg hzero]

/-- Without a frame for the next page the machine stops. -/
theorem turn_none (h : s.BootAt p mem₀ ((k + 1023) / 1024) k) (hk : k < p.pages)
    (hslot : k / 1024 < p.slots) (hscan : p.words * 32 ≤ k) :
    mapPlacedTurn (k * 0x1000, s) = .error outOfFrames := by
  obtain ⟨s₁, hget, h₁⟩ := h.getPage hk hslot
  have htab := BootPlan.bootTab_of_lt (p := p) (show k / 1024 < (k + 1 + 1023) / 1024 by omega)
  have hne := BootPlan.bootTab_ne_zero (p := p).mpr (show k / 1024 < (k + 1 + 1023) / 1024 by omega)
  have halloc := h₁.mapped.allocFrame_none hne hscan
  rw [htab, show p.firstTable + 0x1000 * (k / 1024) + 4 * (k % 1024) = p.firstTable + 4 * k by
    omega] at halloc
  unfold mapPlacedTurn
  dsimp only
  rw [hget, ok_bind]
  dsimp only
  rw [halloc]
  rfl

end BootAt

end Boot

end X32PRos
