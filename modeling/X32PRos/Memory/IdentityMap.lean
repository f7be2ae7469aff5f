import X32PRos.Memory.Paging

/-!
What one turn of the two mapping loops does, in any phase of the placement
pointer, and the identity mapping that the runs of both loops build up.
-/

namespace X32PRos

open Foundation

namespace Mm

variable {κ : Type} (obj : Nat → Nat → κ)

/-- Tables of different directory slots are different objects. -/
def SlotsApart : Prop := ∀ s b s' b', obj s b = obj s' b' → s = s'

def entryOf (m : Mm κ) (j : Nat) : Page :=
  m.entries (obj (j / 1024) (m.tables (j / 1024))) (j % 1024)

structure TablesUpTo (T : Nat) (m : Mm κ) : Prop where
  present : ∀ t, m.tables t ≠ 0 ↔ t < T
  page : ∀ t < T, 0x1000 ∣ m.tables t ∧ m.tables t < 2 ^ 32
  physical : ∀ t < T, m.physicalTables t = m.tables t ||| 0x7

/-- Pages below `k` are mapped to the frames of the same number, the other
entries hold no frame, and no other frame is in use. -/
structure IdentityUpTo (k : Nat) (m : Mm κ) : Prop where
  inUse : ∀ f, m.allocator.inUse f = decide (f < k)
  mapped : ∀ j < k, (m.entryOf obj j).present = true ∧ (m.entryOf obj j).frame.toNat = j
  blank : ∀ j, k ≤ j → m.tables (j / 1024) ≠ 0 → (m.entryOf obj j).frame = 0

/-! ### Effects of the operations -/

variable {obj} {m m' : Mm κ} {k T : Nat}

def nextTable (m : Mm κ) : Nat :=
  if m.placementPointer < 0x1000 then m.placementPointer else pageBase m.placementPointer

theorem nextTable_page (hp : m.placementPointer < 2 ^ 32)
    (hlow : m.placementPointer = 0 ∨ 0x1000 ≤ m.placementPointer) :
    0x1000 ∣ m.nextTable ∧ m.nextTable ≤ m.placementPointer ∧
      (m.placementPointer ≠ 0 → 0x1000 ≤ m.nextTable) := by
  unfold nextTable
  have hbase := pageBase_eq hp
  split <;> omega

theorem nextTable_of_dvd (hp : m.placementPointer < 2 ^ 32) (h : 0x1000 ∣ m.placementPointer) :
    m.nextTable = m.placementPointer := by
  unfold nextTable
  rw [pageBase_of_dvd hp h, ite_self]

theorem TablesUpTo.table_ne (h : TablesUpTo T m) {t : Nat} (ht : t < T) : m.tables t ≠ 0 :=
  (h.present t).mpr ht

theorem TablesUpTo.table_eq_zero (h : TablesUpTo T m) {t : Nat} (ht : T ≤ t) : m.tables t = 0 := by
  by_contra hne
  exact absurd ((h.present t).mp hne) (by omega)

theorem nextPage_noWrap {i : Nat} (h : (m.nextPage i).2.wrapped = false) :
    m.wrapped = false ∧ i + 0x1000 < 2 ^ 32 := by
  rw [nextPage, Bool.or_eq_false_iff, decide_eq_false_iff_not] at h
  exact ⟨h.1, Nat.lt_of_not_le h.2⟩

theorem nextPage_of_lt {i : Nat} (h : i + 0x1000 < 2 ^ 32) : m.nextPage i = (i + 0x1000, m) := by
  have hfit : decide (2 ^ 32 ≤ i + 0x1000) = false := decide_eq_false (Nat.not_le_of_lt h)
  simp only [nextPage, wordAdd_of_lt h, hfit, Bool.or_false]

@[simp] theorem nextPage_allocator (i : Nat) (m : Mm κ) :
    (m.nextPage i).2.allocator = m.allocator := rfl

variable [DecidableEq κ]

theorem getPage_of_table {i : Nat} (h : m.tables (i / 0x1000 / 1024) ≠ 0) :
    m.getPage obj i 1 = (some (obj (i / 0x1000 / 1024) (m.tables (i / 0x1000 / 1024)),
      i / 0x1000 % 1024), m) :=
  if_pos h

theorem getPage_of_noTable {i : Nat} (h : m.tables (i / 0x1000 / 1024) = 0) :
    m.getPage obj i 1 = (some (obj (i / 0x1000 / 1024)
      ((m.makeTable obj (i / 0x1000 / 1024)).tables (i / 0x1000 / 1024)), i / 0x1000 % 1024),
      m.makeTable obj (i / 0x1000 / 1024)) := by
  unfold getPage
  rw [if_neg (not_not_intro h), if_pos (by decide)]

/-- In every phase `get_page` returns the entry of the directory it leaves. -/
theorem getPage_fst (i : Nat) (m : Mm κ) :
    (m.getPage obj i 1).1 = some (obj (i / 0x1000 / 1024)
      ((m.getPage obj i 1).2.tables (i / 0x1000 / 1024)), i / 0x1000 % 1024) := by
  by_cases h : m.tables (i / 0x1000 / 1024) = 0
  · rw [getPage_of_noTable h]
  · rw [getPage_of_table h]

theorem getPage_snd (address : Nat) (make : Int) (m : Mm κ) :
    (m.getPage obj address make).2 =
      if m.tables (address / 0x1000 / 1024) = 0 ∧ make ≠ 0 then
        m.makeTable obj (address / 0x1000 / 1024)
      else m := by
  unfold getPage
  by_cases htab : m.tables (address / 0x1000 / 1024) = 0
  · by_cases hmake : make = 0 <;> simp [htab, hmake]
  · simp [htab]

@[simp] theorem makeTable_framesAddr (t : Nat) (m : Mm κ) :
    (m.makeTable obj t).framesAddr = m.framesAddr := by
  simp only [makeTable, place]

@[simp] theorem makeTable_allocator (t : Nat) (m : Mm κ) :
    (m.makeTable obj t).allocator = m.allocator := by
  simp only [makeTable, place]

theorem makeTable_eq (t : Nat) (hp : m.placementPointer < 2 ^ 32) :
    m.makeTable obj t =
      { m with
        placementPointer := (m.nextTable + 0x1000) % 2 ^ 32
        wrapped := m.wrapped || decide (2 ^ 32 ≤ m.nextTable + 0x1000)
        tables := fun t' => if t' = t then m.nextTable else m.tables t'
        entries := fun o => if o = obj t m.nextTable then fun _ => Page.zero else m.entries o
        physicalTables := fun t' => if t' = t then m.nextTable ||| 0x7 else m.physicalTables t'
        made := m.nextTable :: m.made } := by
  simp only [makeTable, place, kvmallocP_eq _ hp]
  rfl

theorem makeTable_noWrap {t : Nat} (hp : m.placementPointer < 2 ^ 32)
    (h : (m.makeTable obj t).wrapped = false) :
    m.wrapped = false ∧ m.nextTable + 0x1000 < 2 ^ 32 := by
  rw [makeTable_eq t hp, Bool.or_eq_false_iff, decide_eq_false_iff_not] at h
  exact ⟨h.1, Nat.lt_of_not_le h.2⟩

variable (obj) in
theorem makeTable_of_lt {t : Nat} (hp : m.placementPointer < 2 ^ 32)
    (h : m.nextTable + 0x1000 < 2 ^ 32) :
    (m.makeTable obj t).placementPointer = m.nextTable + 0x1000 ∧
      (m.makeTable obj t).wrapped = m.wrapped ∧
      (m.makeTable obj t).made = m.nextTable :: m.made ∧
      (m.makeTable obj t).allocator = m.allocator ∧
      (m.makeTable obj t).heapEnd = m.heapEnd := by
  have hfit : decide (2 ^ 32 ≤ m.nextTable + 0x1000) = false :=
    decide_eq_false (Nat.not_le_of_lt h)
  rw [makeTable_eq t hp]
  simp only [Nat.mod_eq_of_lt h, hfit, Bool.or_false, and_self]

/-- A table is made when the page is the first one of its slot. -/
theorem TablesUpTo.getPage (h : TablesUpTo ((k + 1023) / 1024) m) :
    (m.getPage obj (k * 0x1000) 1).2 = if k % 1024 = 0 then m.makeTable obj (k / 1024) else m := by
  have hk : k * 0x1000 / 0x1000 = k := Nat.mul_div_cancel k (by decide)
  by_cases hfirst : k % 1024 = 0
  · rw [getPage_of_noTable (by rw [hk]; exact h.table_eq_zero (by omega)), hk, if_pos hfirst]
  · rw [getPage_of_table (by rw [hk]; exact h.table_ne (by omega)), if_neg hfirst]

theorem mapPage_eq (k : Nat) (m : Mm κ) :
    m.mapPage obj (k * 0x1000) =
      (m.getPage obj (k * 0x1000) 1).2.allocFrameAt (some (obj (k / 1024)
        ((m.getPage obj (k * 0x1000) 1).2.tables (k / 1024)), k % 1024)) 0 0 := by
  simp only [mapPage, getPage_fst, Nat.mul_div_cancel k (show 0 < 0x1000 by decide)]

variable (obj) in
/-- A new table that is not at address 0 fills the next slot. -/
theorem TablesUpTo.makeTable (h : TablesUpTo T m) (hp : m.placementPointer < 2 ^ 32)
    (hlow : 0x1000 ≤ m.placementPointer) : TablesUpTo (T + 1) (m.makeTable obj T) := by
  obtain ⟨hdvd, hle, hne⟩ := nextTable_page hp (Or.inr hlow)
  have hpos : m.nextTable ≠ 0 := by
    have h1 := hne (by omega)
    omega
  rw [makeTable_eq T hp]
  refine ⟨?_, ?_, ?_⟩
  · intro t
    by_cases ht : t = T
    · simp [ht, hpos]
    · simp only [ht, ite_false, h.present t]
      omega
  · intro t hlt
    by_cases ht : t = T
    · simp only [ht, ite_true]
      exact ⟨hdvd, by omega⟩
    · simp only [ht, ite_false]
      exact h.page t (by omega)
  · intro t hlt
    by_cases ht : t = T
    · simp only [ht, ite_true]
    · simp only [ht, ite_false]
      exact h.physical t (by omega)

/-- The first table after `heap_install` is put at address 0, where it looks
like no table at all. -/
theorem TablesUpTo.makeTable_zero (h : TablesUpTo T m) (hp : m.placementPointer = 0) :
    TablesUpTo T (m.makeTable obj T) := by
  have hzero : m.nextTable = 0 := by simp [nextTable, hp]
  rw [makeTable_eq T (by omega)]
  refine ⟨?_, ?_, ?_⟩
  · intro t
    by_cases ht : t = T
    · simp [ht, hzero]
    · simp only [ht, ite_false, h.present t]
  · intro t hlt
    simp only [show t ≠ T by omega, ite_false]
    exact h.page t hlt
  · intro t hlt
    simp only [show t ≠ T by omega, ite_false]
    exact h.physical t hlt

/-- A new table is blank and disturbs no other slot's entries. -/
theorem IdentityUpTo.makeTable (hobj : SlotsApart obj) (h : IdentityUpTo obj k m)
    (hp : m.placementPointer < 2 ^ 32) (hk : k ≤ 1024 * T) :
    IdentityUpTo obj k (m.makeTable obj T) := by
  have hother : ∀ j, j / 1024 ≠ T → (m.makeTable obj T).entryOf obj j = m.entryOf obj j := by
    intro j hj
    rw [makeTable_eq T hp]
    simp only [entryOf, hj, ite_false]
    rw [if_neg (fun heq => hj (hobj _ _ _ _ heq))]
  have hnew : ∀ j, j / 1024 = T → (m.makeTable obj T).entryOf obj j = Page.zero := by
    intro j hj
    rw [makeTable_eq T hp]
    simp [entryOf, hj]
  refine ⟨?_, ?_, ?_⟩
  · rw [makeTable_eq T hp]
    exact h.inUse
  · intro j hj
    rw [hother j (by omega)]
    exact h.mapped j hj
  · intro j hj htab
    by_cases hjT : j / 1024 = T
    · rw [hnew j hjT]
      rfl
    · rw [hother j hjT]
      apply h.blank j hj
      rw [makeTable_eq T hp] at htab
      simpa only [hjT, ite_false] using htab

/-- The fields that an allocation through an entry pointer leaves alone. -/
theorem allocFrameAt_ok {o : κ} {i : Nat} {ik iw : Int}
    (h : m.allocFrameAt (some (o, i)) ik iw = .ok m') :
    ∃ entry a, allocFrame (m.entries o i) ik iw m.allocator = .ok (entry, a) ∧
      m' = { m with
        allocator := a
        entries := fun o' i' => if o' = o ∧ i' = i then entry else m.entries o' i' } := by
  simp only [allocFrameAt] at h
  split at h
  case h_1 => cases h
  case h_2 entry a hok =>
    cases h
    exact ⟨entry, a, hok, rfl⟩

theorem allocFrameAt_of_ok {o : κ} {i : Nat} {ik iw : Int} {entry : Page} {a : FrameAllocator}
    (h : allocFrame (m.entries o i) ik iw m.allocator = .ok (entry, a)) :
    m.allocFrameAt (some (o, i)) ik iw = .ok { m with
      allocator := a
      entries := fun o' i' => if o' = o ∧ i' = i then entry else m.entries o' i' } := by
  simp only [allocFrameAt, h]

/-- With a frame left to scan, the first blank page is given one. -/
theorem IdentityUpTo.alloc_returns (h : IdentityUpTo obj k m) (hk : k < m.allocator.scanned)
    (htab : m.tables (k / 1024) ≠ 0) (ik iw : Int) :
    ∃ m', m.allocFrameAt (some (obj (k / 1024) (m.tables (k / 1024)), k % 1024)) ik iw =
      .ok m' := by
  have hblank : (m.entries (obj (k / 1024) (m.tables (k / 1024))) (k % 1024)).frame = 0 :=
    h.blank k (Nat.le_refl k) htab
  have hfree : m.allocator.firstFrame ≠ FrameAllocator.noFrame := by
    intro hnone
    have hused := (m.allocator.firstFrame_eq_noFrame_iff.mp hnone) k hk
    rw [h.inUse k] at hused
    simp at hused
  simp only [allocFrameAt, allocFrame, hblank, ne_eq, not_true_eq_false, ite_false, hfree]
  exact ⟨_, rfl⟩

theorem getPage_noWrap {i : Nat} (h : (m.getPage obj i 1).2.wrapped = false) :
    m.wrapped = false := by
  by_cases htab : m.tables (i / 0x1000 / 1024) = 0
  · rw [getPage_of_noTable htab] at h
    exact (Bool.or_eq_false_iff.mp h).1
  · rwa [getPage_of_table htab] at h

theorem mapPage_noWrap {i : Nat} (hok : m.mapPage obj i = .ok m') (h : m'.wrapped = false) :
    m.wrapped = false := by
  rw [mapPage, getPage_fst] at hok
  obtain ⟨entry, a, -, rfl⟩ := allocFrameAt_ok hok
  exact getPage_noWrap h

/-- The first blank page gets the frame of its own number. -/
theorem IdentityUpTo.alloc (hobj : SlotsApart obj) (h : IdentityUpTo obj k m) (hk : k < 2 ^ 20)
    (htab : m.tables (k / 1024) ≠ 0) {ik iw : Int}
    (hok : m.allocFrameAt (some (obj (k / 1024) (m.tables (k / 1024)), k % 1024)) ik iw = .ok m') :
    IdentityUpTo obj (k + 1) m' := by
  obtain ⟨entry, a, halloc, rfl⟩ := allocFrameAt_ok hok
  obtain ⟨f, -, hclear, hbelow, hpres, hframe, rfl⟩ :=
    allocFrame_ok (h.blank k (Nat.le_refl k) htab) halloc
  have hfk : f = k := by
    rw [h.inUse f, decide_eq_false_iff_not] at hclear
    by_contra hne
    have hused := hbelow k (by omega)
    rw [h.inUse k] at hused
    simp at hused
  subst hfk
  have hentry : ∀ j, Mm.entryOf obj { m with
      allocator := m.allocator.setFrame (f * 0x1000 % 2 ^ 32)
      entries := fun o' i' => if o' = obj (f / 1024) (m.tables (f / 1024)) ∧ i' = f % 1024 then entry
        else m.entries o' i' } j = if j = f then entry else m.entryOf obj j := by
    intro j
    simp only [entryOf]
    by_cases hj : j = f
    · simp [hj]
    · rw [if_neg, if_neg hj]
      rintro ⟨ho, hi⟩
      have hslot := hobj _ _ _ _ ho
      omega
  refine ⟨?_, ?_, ?_⟩
  · intro g
    rw [FrameAllocator.inUse_setFrame, frame_addr_div hk, h.inUse g]
    simp only [← Bool.decide_or, decide_eq_decide]
    omega
  · intro j hj
    rw [hentry]
    by_cases hjf : j = f
    · rw [if_pos hjf, hframe, BitVec.toNat_ofNat, Nat.mod_eq_of_lt hk]
      exact ⟨hpres, hjf.symm⟩
    · rw [if_neg hjf]
      exact h.mapped j (by omega)
  · intro j hj hne
    rw [hentry, if_neg (by omega)]
    exact h.blank j (by omega) hne

end Mm

end X32PRos
