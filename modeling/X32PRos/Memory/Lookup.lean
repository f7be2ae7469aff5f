import X32PRos.Memory.SbrkPages

/-!
`get_page` as a lookup. It finds what it made as long as a slot holds the address
of a page table or nothing: a slot behind the beginning of the bitmap does not, and
a table at address 0 is no table.
-/

namespace X32PRos

open Foundation

namespace Boot

def slotOf (address : Nat) : Nat := address / 0x1000 / 1024

def tableWord (s : Boot) (t : Nat) : Nat := s.mem.load32 (s.slot t)

def nextTable (s : Boot) : Nat :=
  if s.placementPointer < 0x1000 then s.placementPointer else pageBase s.placementPointer

/-- Slot `t` holds no part of the bitmap. -/
def InFront (s : Boot) (t : Nat) : Prop := s.kernelDirectory ≤ s.frames → s.slot t + 4 ≤ s.frames

def entryFor (s : Boot) (address : Nat) : Nat :=
  wordAdd (if s.tableWord (slotOf address) = 0 then s.nextTable else s.tableWord (slotOf address))
    (4 * (address / 0x1000 % 1024))

/-- Once the processor translates addresses, the next table lies below the bitmap and the
directory. -/
def TableFits (s : Boot) : Prop :=
  s.paging = true → s.nextTable + 0x1000 ≤ s.frames ∧ s.nextTable + 0x1000 ≤ s.kernelDirectory

/-- What a lookup relies on, in every phase of the placement pointer. -/
structure LookupReady (p : BootPlan) (tab : Nat → Nat) (k : Nat) (s : Boot) : Prop where
  mapped : s.Mapped p tab k
  clean : ∀ t < 1024, p.slots ≤ t → s.view.physical t = 0
  word : s.placementPointer < 2 ^ 32
  aligned : 0x1000 ∣ s.nextTable
  fresh : ∀ t, tab t ≠ 0 → tab t + 0x1000 ≤ s.nextTable ∨ s.paging = true ∧ p.firstTable ≤ tab t
  made : ∀ b ∈ s.made, p.Room b ∧
    (b + 0x1000 ≤ s.nextTable ∨ s.paging = true ∧ p.firstTable ≤ b)
  boot : s.paging = false → p.Room s.nextTable

variable {p : BootPlan} {tab : Nat → Nat} {k address : Nat} {s : Boot}

theorem slotOf_lt (h : address < 2 ^ 32) : slotOf address < 1024 := by
  unfold slotOf
  omega

theorem Placed.inFront_iff (h : s.Placed p) {t : Nat} (ht : t < 1024) :
    s.InFront t ↔ t < p.slots := by
  unfold InFront BootPlan.slots slot
  rw [h.directory, h.frames]
  split <;> omega

/-! ### Words of the directory -/

theorem Mapped.slot_le (h : s.Mapped p tab k) (haddress : address < 2 ^ 32) :
    s.slot (slotOf address) + 4 ≤ s.top k := by
  have hlow := h.low
  have hbehind := p.behind
  have hslot := slotOf_lt haddress
  rw [slot, h.placed.directory]
  omega

/-- What `get_page` finds, whatever the slot holds. -/
theorem Reach.getPage_of_word {top : Nat} {free : Nat → Prop} (h : s.Reach top free)
    (hslot : s.slot (slotOf address) + 4 ≤ top) (make : Int)
    (hword : s.tableWord (slotOf address) ≠ 0) :
    s.getPage address make = .ok (s.entryFor address, s) := by
  rw [entryFor, if_neg hword]
  exact h.getPage_of_table address make hslot rfl hword

theorem Reach.getPage_of_zero {top : Nat} {free : Nat → Prop} (h : s.Reach top free)
    (hslot : s.slot (slotOf address) + 4 ≤ top) (hword : s.tableWord (slotOf address) = 0) :
    s.getPage address 0 = .ok (0, s) := by
  have hzero : s.load32 (s.slot (address / 0x1000 / 1024)) = .ok 0 := by
    have hload := h.load32 hslot
    rw [show s.mem.load32 (s.slot (slotOf address)) = 0 from hword] at hload
    exact hload
  unfold Boot.getPage
  dsimp only
  rw [hzero, ok_bind, if_neg (by decide), if_neg (by decide)]

theorem Mapped.getPage_of_word (h : s.Mapped p tab k) (haddress : address < 2 ^ 32) (make : Int)
    (hword : s.tableWord (slotOf address) ≠ 0) :
    s.getPage address make = .ok (s.entryFor address, s) :=
  h.reach.getPage_of_word (h.slot_le haddress) make hword

theorem Mapped.getPage_of_zero (h : s.Mapped p tab k) (haddress : address < 2 ^ 32)
    (hword : s.tableWord (slotOf address) = 0) : s.getPage address 0 = .ok (0, s) :=
  h.reach.getPage_of_zero (h.slot_le haddress) hword

theorem Mapped.tableWord_eq (h : s.Mapped p tab k) {t : Nat} (ht : t < p.slots) :
    s.tableWord t = tab t := h.image.table t ht

/-- The next table is mapped, and no other table is there. -/
theorem LookupReady.room (h : s.LookupReady p tab k) (hfits : s.TableFits) :
    p.Room s.nextTable ∧ s.nextTable + 0x1000 ≤ s.top k ∧
      (∀ t, tab t ≠ 0 → tab t ≠ s.nextTable) ∧ ∀ b ∈ s.made, b ≠ s.nextTable := by
  have hlow := h.mapped.low
  have hbehind := p.behind
  have hlast := BootPlan.table_lt p.tables_pos
  have haligned := h.aligned
  cases hpaging : s.paging with
  | false =>
      have hroom := h.boot hpaging
      have hword := hroom.word
      refine ⟨hroom, ?_, ?_, ?_⟩
      · rw [top, hpaging]
        exact hword
      · intro t ht heq
        cases h.fresh t ht with
        | inl hle => omega
        | inr hpaged => exact absurd hpaged.1 (by simp [hpaging])
      · intro b hb heq
        cases (h.made b hb).2 with
        | inl hle => omega
        | inr hpaged => exact absurd hpaged.1 (by simp [hpaging])
  | true =>
      obtain ⟨hframes, hdirectory⟩ := hfits hpaging
      rw [h.mapped.placed.frames] at hframes
      rw [h.mapped.placed.directory] at hdirectory
      refine ⟨⟨haligned, by omega, Or.inl ⟨hframes, hdirectory⟩⟩, by omega, ?_, ?_⟩
      · intro t ht heq
        cases h.fresh t ht with
        | inl hle => omega
        | inr hpaged => omega
      · intro b hb heq
        cases (h.made b hb).2 with
        | inl hle => omega
        | inr hpaged => omega

/-- A slot that holds 0 names no table, the bitmap's words included. -/
theorem Mapped.tab_eq_zero (h : s.Mapped p tab k) {t : Nat} (hzero : s.tableWord t = 0) : tab t = 0 := by
  by_contra hne
  rw [h.tableWord_eq (h.places.slot t hne)] at hzero
  exact hne hzero

end Boot

end X32PRos
