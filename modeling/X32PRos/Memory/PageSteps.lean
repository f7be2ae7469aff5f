import X32PRos.Memory.TableBytes

/-!
One step further: a table for a slot that has none, and a frame for the next page.
-/

namespace X32PRos

open Foundation

namespace Boot

variable {p : BootPlan} {tab : Nat → Nat} {k t base next : Nat} {s : Boot}

/-- Every entry that is walked lies in the directory or in a table. -/
theorem Mapped.walked_cases (h : s.Mapped p tab k) {x : Nat} (hx : Walked p tab k x) :
    p.directory + 4096 ≤ x ∧ x < p.firstTable ∨ ∃ t, tab t ≠ 0 ∧ tab t ≤ x ∧ x < tab t + 0x1000 := by
  obtain ⟨j, hj, hx⟩ := hx
  have hne := h.image.mapped j hj
  have hslot := h.places.slot _ hne
  have hslots := p.slots_le
  have hbehind := p.behind
  cases hx with
  | inl hdirectory => exact Or.inl ⟨by omega, by omega⟩
  | inr htable => exact Or.inr ⟨_, hne, by omega, by omega⟩

/-! ### A table -/

theorem Mapped.makeTable_run (h : s.Mapped p tab k)
    (hplace : kvmallocP pageTableSize s.placementPointer = (⟨base, some base⟩, next))
    (ht : t < 1024) (hroom : p.Room base) (htop : base + 0x1000 ≤ s.top k)
    (hfresh : base ≠ 0 → ∀ t', tab t' ≠ base) : s.makeTable t = .ok (s.tableAt t base next) := by
  have hbehind := p.behind
  have hlow := h.low
  have hapart := hroom.apart
  have hword := hroom.word
  have hdirectory := h.placed.directory
  apply h.reach.makeTable hplace (by omega)
  · unfold slot
    omega
  · unfold physicalSlot
    omega
  · exact htop
  · intro x hle hlt hwalked
    cases h.walked_cases hwalked with
    | inl hdir => omega
    | inr htable =>
        obtain ⟨t', hne, hle', hlt'⟩ := htable
        have haligned := (h.places.room t' hne).aligned
        have haligned' := hroom.aligned
        have hother : tab t' ≠ base := by
          intro hsame
          exact hfresh (hsame ▸ hne) t' hsame
        omega
  · intro x hle hlt hwalked
    unfold slot at hle hlt
    cases h.walked_cases hwalked with
    | inl hdir => omega
    | inr htable =>
        obtain ⟨t', hne, hle', hlt'⟩ := htable
        have hroom' := (h.places.room t' hne).apart
        omega

theorem Mapped.makeTable (h : s.Mapped p tab k)
    (hplace : kvmallocP pageTableSize s.placementPointer = (⟨base, some base⟩, next))
    (ht : t < p.slots) (hnone : tab t = 0) (hroom : p.Room base) (htop : base + 0x1000 ≤ s.top k)
    (hfresh : base ≠ 0 → ∀ t', tab t' ≠ base) :
    s.makeTable t = .ok (s.tableAt t base next) ∧
      (s.tableAt t base next).Mapped p (Function.update tab t base) k := by
  refine ⟨h.makeTable_run hplace (Nat.lt_of_lt_of_le ht p.slots_le) hroom htop hfresh, ?_⟩
  constructor
  case placed => exact ⟨h.placed.frames, h.placed.nframes, h.placed.directory, h.placed.cr3⟩
  case places => exact h.places.update ht (fun _ => hroom) hfresh
  case image => exact h.image.makes h.places ht hnone hfresh (h.placed.makes next ht hroom)
  case word => exact h.word
  case low => exact h.low
  case tables =>
    intro t' hne
    change _ ≤ s.top k
    by_cases heq : t' = t
    · rw [heq, Function.update_self]
      exact htop
    · rw [Function.update_of_ne heq] at hne ⊢
      exact h.tables t' hne

/-! ### A page -/

theorem Mapped.blank (h : s.Mapped p tab k) (htab : tab (k / 1024) ≠ 0) :
    s.mem.load32 (tab (k / 1024) + 4 * (k % 1024)) = 0 := by
  rw [h.pte htab, if_neg (Nat.lt_irrefl k)]

theorem Mapped.scanned (h : s.Mapped p tab k) : s.allocator.scanned = p.words * 32 := by
  unfold FrameAllocator.scanned allocator BootPlan.words
  dsimp only
  rw [h.placed.nframes]

theorem Mapped.allocFrame (h : s.Mapped p tab k) (htab : tab (k / 1024) ≠ 0) (hk : k < p.cap)
    (hscan : k < p.words * 32) (hk20 : k < 2 ^ 20) :
    s.allocFrame (tab (k / 1024) + 4 * (k % 1024)) 0 0 =
        .ok (s.frameAt (tab (k / 1024) + 4 * (k % 1024)) k) ∧
      (s.frameAt (tab (k / 1024) + 4 * (k % 1024)) k).Mapped p tab (k + 1) := by
  have hlow := h.low
  have hbehind := p.behind
  have htable := h.tables _ htab
  have hroom := h.places.room _ htab
  have hapart := hroom.apart
  have hbit := p.bit_apart hk
  have hframes := h.placed.frames
  have hblank := h.blank htab
  have hfirst : s.allocator.firstFrame = k :=
    h.image.firstFrame (fun _ _ => rfl) (by rw [h.scanned]; exact hscan) hk
  constructor
  · have halloc := h.reach.allocFrame (tab (k / 1024) + 4 * (k % 1024)) (by omega)
      (by rw [hblank, Page.decode_zero]; rfl) hfirst hk20 (by omega) (by
        intro hwalked
        cases h.walked_cases hwalked with
        | inl hdir => omega
        | inr htable =>
            obtain ⟨t, hne, hle, hlt⟩ := htable
            have hroom' := (h.places.room t hne).apart
            omega)
    have hkept : (s.mem.setBit s.frames k).load32 (tab (k / 1024) + 4 * (k % 1024)) = 0 := by
      rw [← hblank]
      apply Memory.load32_congr
      intro x hle hlt
      exact Memory.setBit_of_ne (by omega)
    rw [halloc, hkept, Page.decode_zero, ← Page.mapped, Page.encode_mapped hk20]
    rfl
  · have hmono : s.top k ≤ s.top (k + 1) := by
      unfold top
      split <;> omega
    constructor
    case placed => exact ⟨h.placed.frames, h.placed.nframes, h.placed.directory, h.placed.cr3⟩
    case places => exact h.places
    case image =>
      exact h.image.allocates h.places hk htab
        (h.placed.allocates (Nat.mod_lt k (by decide)) hk hk20 hroom)
    case word => exact hk20
    case low => exact Nat.le_trans hlow hmono
    case tables => exact fun t hne => Nat.le_trans (h.tables t hne) hmono

theorem Mapped.allocFrame_none (h : s.Mapped p tab k) (htab : tab (k / 1024) ≠ 0)
    (hscan : p.words * 32 ≤ k) :
    s.allocFrame (tab (k / 1024) + 4 * (k % 1024)) 0 0 = .error outOfFrames := by
  have hlow := h.low
  have hbehind := p.behind
  have htable := h.tables _ htab
  have hroom := h.image.room
  have hframes := h.placed.frames
  have hwords : indexFromBit s.nframes.toNat = p.words := by rw [h.placed.nframes, BootPlan.words]
  have hend : p.frames + 4 * p.words ≤ p.firstTable := by
    have hnear := p.near
    unfold BootPlan.cap at hroom
    split at hroom <;> omega
  apply h.reach.allocFrame_none (by omega) (by rw [h.blank htab, Page.decode_zero]; rfl)
  · exact h.image.firstFrame_none rfl (by rw [h.scanned]; exact hscan)
  · omega

/-! ### A lookup -/

theorem Mapped.getPage_of_table (h : s.Mapped p tab k) (address : Nat) (make : Int)
    (htab : tab (address / 0x1000 / 1024) ≠ 0) :
    s.getPage address make =
      .ok (tab (address / 0x1000 / 1024) + 4 * (address / 0x1000 % 1024), s) := by
  have hlow := h.low
  have hbehind := p.behind
  have hslot := h.places.slot _ htab
  have hslots := p.slots_le
  have hword := (h.places.room _ htab).word
  have hdirectory := h.placed.directory
  have htable : s.mem.load32 (s.slot (address / 0x1000 / 1024)) = tab (address / 0x1000 / 1024) :=
    h.image.table _ hslot
  rw [h.reach.getPage_of_table address make (by unfold slot; omega) htable htab, wordAdd_of_lt (by omega)]

theorem Mapped.getPage_of_noTable (h : s.Mapped p tab k) (address : Nat)
    (hplace : kvmallocP pageTableSize s.placementPointer = (⟨base, some base⟩, next))
    (ht : address / 0x1000 / 1024 < p.slots) (hnone : tab (address / 0x1000 / 1024) = 0)
    (hroom : p.Room base) (htop : base + 0x1000 ≤ s.top k)
    (hfresh : base ≠ 0 → ∀ t', tab t' ≠ base) :
    s.getPage address 1 = .ok (base + 4 * (address / 0x1000 % 1024),
        s.tableAt (address / 0x1000 / 1024) base next) ∧
      (s.tableAt (address / 0x1000 / 1024) base next).Mapped p
        (Function.update tab (address / 0x1000 / 1024) base) k := by
  have hlow := h.low
  have hbehind := p.behind
  have hslots := p.slots_le
  have hword := hroom.word
  have hdirectory := h.placed.directory
  obtain ⟨hrun, hmade⟩ := h.makeTable hplace ht hnone hroom htop hfresh
  have htable : s.mem.load32 (s.slot (address / 0x1000 / 1024)) = 0 :=
    (h.image.table _ ht).trans hnone
  have hnew := hmade.image.table _ ht
  rw [Function.update_self] at hnew
  refine ⟨?_, hmade⟩
  rw [h.reach.getPage_of_noTable address (by unfold slot; omega) htable hrun hmade.reach rfl hnew,
    wordAdd_of_lt (by omega)]

end Boot

end X32PRos
