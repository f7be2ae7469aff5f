import X32PRos.Memory.PagingInstall

/-!
One turn of the loop of `sbrk` over the one memory. `heap_install` has set the
placement pointer to 0, and a table there is not found again: `get_page` is
called twice, and its second call makes another one.
-/

namespace X32PRos

open Foundation

namespace Boot

/-- Where the table for a new slot comes to stay. -/
def growthTable (pointer : Nat) : Nat := if pointer = 0 then 0x1000 else pointer

def withTable (tab : Nat → Nat) (t pointer : Nat) : Nat → Nat :=
  if tab t = 0 then Function.update tab t (growthTable pointer) else tab

/-- The heap with `k` pages mapped, and its tables where no other one will be put. -/
structure Grown (p : BootPlan) (tab : Nat → Nat) (k : Nat) (s : Boot) : Prop where
  mapped : s.Mapped p tab k
  paged : s.paging = true
  aligned : 0x1000 ∣ s.placementPointer
  fresh : ∀ t, tab t ≠ 0 → tab t + 0x1000 ≤ s.placementPointer ∨ p.firstTable ≤ tab t

structure TableRoom (p : BootPlan) (s : Boot) : Prop where
  frames : growthTable s.placementPointer + 0x1000 ≤ p.frames
  directory : growthTable s.placementPointer + 0x1000 ≤ p.directory

structure Tabled (p : BootPlan) (tab : Nat → Nat) (k t : Nat) (s s' : Boot) : Prop where
  grown : s'.Grown p (withTable tab t s.placementPointer) k
  pointer : s'.placementPointer =
    if tab t = 0 then growthTable s.placementPointer + 0x1000 else s.placementPointer
  made : s'.made = (if tab t = 0 then
    if s.placementPointer = 0 then [0x1000, 0] else [s.placementPointer] else []) ++ s.made
  physical : ∀ t' < 1024, t' ≠ t → s'.view.physical t' = s.view.physical t'
  heapEnd : s'.heapEnd = s.heapEnd

variable {p : BootPlan} {tab : Nat → Nat} {k t base : Nat} {s s' : Boot}

theorem kvmallocP_page {pointer : Nat} (hdvd : 0x1000 ∣ pointer) (hlt : pointer + 0x1000 < 2 ^ 32) :
    kvmallocP pageTableSize pointer = (⟨pointer, some pointer⟩, pointer + 0x1000) := by
  have hbase : (if pointer < 0x1000 then pointer else pageBase pointer) = pointer := by
    rw [pageBase_of_dvd (by omega) hdvd, ite_self]
  rw [kvmallocP_eq _ (by omega), hbase, show pageTableSize = 0x1000 from rfl, Nat.mod_eq_of_lt hlt]

/-- A blank table at the placement pointer, for a slot that has none. -/
theorem Grown.newTable (h : s.Grown p tab k) {address : Nat}
    (ht : address / 0x1000 / 1024 < p.slots) (hnone : tab (address / 0x1000 / 1024) = 0)
    (hframes : s.placementPointer + 0x1000 ≤ p.frames)
    (hdirectory : s.placementPointer + 0x1000 ≤ p.directory) :
    ∃ s', s.getPage address 1 =
        .ok (s.placementPointer + 4 * (address / 0x1000 % 1024), s') ∧
      s'.Grown p (Function.update tab (address / 0x1000 / 1024) s.placementPointer) k ∧
      s'.placementPointer = s.placementPointer + 0x1000 ∧ s'.made = s.placementPointer :: s.made ∧
      (∀ t' < 1024, t' ≠ address / 0x1000 / 1024 → s'.view.physical t' = s.view.physical t') ∧
      s'.heapEnd = s.heapEnd := by
  have hbehind := p.behind
  have hlast := BootPlan.table_lt p.tables_pos
  have hlow := h.mapped.low
  have hroom : p.Room s.placementPointer :=
    ⟨h.aligned, by omega, Or.inl ⟨hframes, hdirectory⟩⟩
  have hfresh : s.placementPointer ≠ 0 → ∀ t', tab t' ≠ s.placementPointer := by
    intro hne t' heq
    cases h.fresh t' (heq ▸ hne) with
    | inl hle => omega
    | inr hle => omega
  obtain ⟨hrun, hmapped⟩ := h.mapped.getPage_of_noTable _ (kvmallocP_page h.aligned (by omega)) ht hnone
    hroom (by omega) hfresh
  have hmakes := h.mapped.placed.makes (s.placementPointer + 0x1000) ht hroom
  refine ⟨_, hrun, ?_, rfl, rfl, ?_, rfl⟩
  · constructor
    case mapped => exact hmapped
    case paged => exact h.paged
    case aligned => exact (Nat.dvd_add_self_right).mpr h.aligned
    case fresh =>
      intro t' hne
      change _ ≤ s.placementPointer + 0x1000 ∨ _
      by_cases heq : t' = address / 0x1000 / 1024
      · rw [heq, Function.update_self]
        exact Or.inl (Nat.le_refl _)
      · rw [Function.update_of_ne heq] at hne ⊢
        exact (h.fresh t' hne).imp (fun hle => Nat.le_trans hle (Nat.le_add_right _ _)) id
  · intro t' ht' hne
    rw [hmakes.physical t' ht', if_neg hne]

/-- After two calls of `get_page` the slot has a table. -/
theorem Grown.getPage_twice (h : s.Grown p tab k) (address : Nat)
    (ht : address / 0x1000 / 1024 < p.slots)
    (hroom : tab (address / 0x1000 / 1024) = 0 → s.TableRoom p) :
    ∃ page s₁ s₂, s.getPage address 1 = .ok (page, s₁) ∧
      s₁.getPage address 1 = .ok (withTable tab (address / 0x1000 / 1024) s.placementPointer
        (address / 0x1000 / 1024) + 4 * (address / 0x1000 % 1024), s₂) ∧
      s.Tabled p tab k (address / 0x1000 / 1024) s₂ := by
  have hbehind := p.behind
  by_cases hnone : tab (address / 0x1000 / 1024) = 0
  · obtain ⟨hframes, hdirectory⟩ := hroom hnone
    have htab : withTable tab (address / 0x1000 / 1024) s.placementPointer =
        Function.update tab (address / 0x1000 / 1024) (growthTable s.placementPointer) := if_pos hnone
    unfold growthTable at hframes hdirectory htab
    by_cases hzero : s.placementPointer = 0
    · -- the first table is put at address 0, which means none, the second one behind it
      rw [if_pos hzero] at hframes hdirectory htab
      obtain ⟨s₁, hrun₁, h₁, hpointer₁, hmade₁, hphysical₁, hend₁⟩ :=
        h.newTable ht hnone (by omega) (by omega)
      rw [hzero, ← hnone, Function.update_eq_self] at h₁
      rw [hzero] at hpointer₁ hmade₁
      obtain ⟨s₂, hrun₂, h₂, hpointer₂, hmade₂, hphysical₂, hend₂⟩ :=
        h₁.newTable ht hnone (by omega) (by omega)
      rw [hpointer₁] at hrun₂ h₂ hpointer₂ hmade₂
      refine ⟨_, s₁, s₂, hrun₁, ?_, ?_⟩
      · rw [htab, Function.update_self]
        exact hrun₂
      · constructor
        case grown =>
          rw [htab]
          exact h₂
        case pointer => rw [hpointer₂, if_pos hnone, growthTable, if_pos hzero]
        case made =>
          rw [hmade₂, hmade₁, if_pos hnone, if_pos hzero]
          rfl
        case physical =>
          intro t' ht' hne
          rw [hphysical₂ t' ht' hne, hphysical₁ t' ht' hne]
        case heapEnd => rw [hend₂, hend₁]
    · rw [if_neg hzero] at hframes hdirectory htab
      obtain ⟨s₁, hrun₁, h₁, hpointer₁, hmade₁, hphysical₁, hend₁⟩ :=
        h.newTable ht hnone hframes hdirectory
      rw [← htab] at h₁
      have hself : withTable tab (address / 0x1000 / 1024) s.placementPointer
          (address / 0x1000 / 1024) = s.placementPointer := by
        rw [htab, Function.update_self]
      refine ⟨_, s₁, s₁, hrun₁, h₁.mapped.getPage_of_table _ 1 (by rw [hself]; exact hzero), ?_⟩
      constructor
      case grown => exact h₁
      case pointer => rw [hpointer₁, if_pos hnone, growthTable, if_neg hzero]
      case made =>
        rw [hmade₁, if_pos hnone, if_neg hzero]
        rfl
      case physical => exact hphysical₁
      case heapEnd => exact hend₁
  · have htab : withTable tab (address / 0x1000 / 1024) s.placementPointer = tab := if_neg hnone
    have hrun := h.mapped.getPage_of_table address 1 hnone
    refine ⟨_, s, s, hrun, by rw [htab]; exact hrun, ?_⟩
    constructor
    case grown =>
      rw [htab]
      exact h
    case pointer => rw [if_neg hnone]
    case made =>
      rw [if_neg hnone]
      rfl
    case physical => exact fun _ _ _ => rfl
    case heapEnd => rfl

theorem withTable_ne (h : growthTable s.placementPointer ≠ 0) :
    withTable tab t s.placementPointer t ≠ 0 := by
  unfold withTable
  by_cases hnone : tab t = 0
  · rw [if_pos hnone, Function.update_self]
    exact h
  · rw [if_neg hnone]
    exact hnone

theorem growthTable_ne (pointer : Nat) : growthTable pointer ≠ 0 := by
  unfold growthTable
  by_cases hzero : pointer = 0
  · rw [if_pos hzero]
    decide
  · rw [if_neg hzero]
    exact hzero

structure PageMapped (p : BootPlan) (tab : Nat → Nat) (k : Nat) (s s' : Boot) : Prop where
  grown : s'.Grown p (withTable tab (k / 1024) s.placementPointer) (k + 1)
  pointer : s'.placementPointer =
    if tab (k / 1024) = 0 then growthTable s.placementPointer + 0x1000 else s.placementPointer
  made : s'.made = (if tab (k / 1024) = 0 then
    if s.placementPointer = 0 then [0x1000, 0] else [s.placementPointer] else []) ++ s.made
  physical : ∀ t' < 1024, t' ≠ k / 1024 → s'.view.physical t' = s.view.physical t'
  heapEnd : s'.heapEnd = s.heapEnd

theorem Tabled.pageMapped (h : s.Tabled p tab k (k / 1024) s') (hbit : k < p.cap)
    (hscan : k < p.words * 32) (hk : (k + 1) * 0x1000 < 2 ^ 32) :
    ∃ s'', s'.allocFrame (withTable tab (k / 1024) s.placementPointer (k / 1024) +
        4 * (k % 1024)) 0 0 = .ok s'' ∧ s.PageMapped p tab k s'' := by
  have hne : withTable tab (k / 1024) s.placementPointer (k / 1024) ≠ 0 :=
    withTable_ne (growthTable_ne _)
  have hroom := h.grown.mapped.places.room _ hne
  obtain ⟨hrun, hmapped⟩ := h.grown.mapped.allocFrame hne hbit hscan (by omega)
  have hallocates := h.grown.mapped.placed.allocates (Nat.mod_lt k (by decide)) hbit (by omega) hroom
  refine ⟨_, hrun, ?_⟩
  constructor
  case grown => exact ⟨hmapped, h.grown.paged, h.grown.aligned, h.grown.fresh⟩
  case pointer => exact h.pointer
  case made => exact h.made
  case physical =>
    intro t' ht' hne'
    rw [hallocates.physical t' ht', h.physical t' ht' hne']
  case heapEnd => exact h.heapEnd

/-- The next page is mapped, unless there is no frame for it. -/
theorem Grown.turn (h : s.Grown p tab k) (hk : (k + 1) * 0x1000 < 2 ^ 32)
    (hslot : k / 1024 < p.slots) (hroom : tab (k / 1024) = 0 → s.TableRoom p)
    (hbit : k < p.words * 32 → k < p.cap) :
    (p.words * 32 ≤ k ∧ mapGrowthTurn (k * 0x1000, s) = .error outOfFrames) ∨
      k < p.words * 32 ∧ ∃ s', mapGrowthTurn (k * 0x1000, s) = .ok ((k + 1) * 0x1000, s') ∧
        s.PageMapped p tab k s' := by
  have hpage : k * 0x1000 / 0x1000 = k := Nat.mul_div_cancel k (by decide)
  obtain ⟨page, s₁, s₂, hrun₁, hrun₂, htabled⟩ := h.getPage_twice (k * 0x1000)
    (by rw [hpage]; exact hslot) (by rw [hpage]; exact hroom)
  rw [hpage] at hrun₂ htabled
  have hnext : wordAdd (k * 0x1000) 0x1000 = (k + 1) * 0x1000 := by
    rw [wordAdd_of_lt (by omega), Nat.succ_mul]
  have hturn : mapGrowthTurn (k * 0x1000, s) = s₂.allocFrame (withTable tab (k / 1024)
      s.placementPointer (k / 1024) + 4 * (k % 1024)) 0 0 >>= fun b => .ok ((k + 1) * 0x1000, b) := by
    unfold mapGrowthTurn
    dsimp only
    rw [hrun₁, ok_bind]
    dsimp only
    rw [hrun₂, ok_bind]
    dsimp only
    rw [hnext]
  by_cases hscan : k < p.words * 32
  · obtain ⟨s', halloc, hs'⟩ := htabled.pageMapped (hbit hscan) hscan hk
    exact Or.inr ⟨hscan, s', by rw [hturn, halloc, ok_bind], hs'⟩
  · have hne : withTable tab (k / 1024) s.placementPointer (k / 1024) ≠ 0 :=
      withTable_ne (growthTable_ne _)
    have hnone := htabled.grown.mapped.allocFrame_none hne (Nat.le_of_not_lt hscan)
    exact Or.inl ⟨Nat.le_of_not_lt hscan, by rw [hturn, hnone]; rfl⟩

end Boot

end X32PRos
