import X32PRos.Memory.BootMap
import X32PRos.Foundation.Region

/-!
Heap growth after `heap_install`: the mapping of the new pages, and where the
page tables go that `get_page` still takes from the placement allocator.
-/

namespace X32PRos

open Foundation

namespace Mm

variable {κ : Type} (obj : Nat → Nat → κ)

def growthTables : Nat → List Nat
  | 0 => []
  | c + 1 => c * 0x1000 :: growthTables c

/-- Tables made when the heap, once `h` pages long from address 0, has `k`: one
for each new slot, and one more that was lost because its address is 0. -/
def growthCount (h k : Nat) : Nat :=
  if (k + 1023) / 1024 = (h + 1023) / 1024 then 0
  else (k + 1023) / 1024 - (h + 1023) / 1024 + 1

theorem mem_growthTables {c b : Nat} : b ∈ growthTables c ↔ ∃ j < c, b = j * 0x1000 := by
  induction c with
  | zero => simp [growthTables]
  | succ c ih =>
      rw [growthTables, List.mem_cons, ih]
      constructor
      · rintro (rfl | ⟨j, hj, rfl⟩)
        · exact ⟨c, Nat.lt_succ_self c, rfl⟩
        · exact ⟨j, Nat.lt_succ_of_lt hj, rfl⟩
      · rintro ⟨j, hj, rfl⟩
        by_cases hjc : j = c
        · exact Or.inl (by rw [hjc])
        · exact Or.inr ⟨j, by omega, rfl⟩

theorem growthTables_pairwise (c : Nat) :
    (growthTables c).Pairwise fun b b' => b' + 0x1000 ≤ b := by
  induction c with
  | zero => exact List.Pairwise.nil
  | succ c ih =>
      refine List.pairwise_cons.mpr ⟨?_, ih⟩
      intro b hb
      obtain ⟨j, hj, rfl⟩ := mem_growthTables.mp hb
      omega

/-- The layout when the pages below `k` are mapped, after a boot that ended with
`h` pages and the tables `old`. -/
structure GrowthLayout (h : Nat) (old : List Nat) (k : Nat) (m : Mm κ) : Prop where
  tables : TablesUpTo ((k + 1023) / 1024) m
  boot : h ≤ k
  pointer : m.placementPointer = growthCount h k * 0x1000
  made : m.made = growthTables (growthCount h k) ++ old

variable {obj} {m m' : Mm κ} {k h : Nat} {old : List Nat}

theorem growthCount_le (hk : k ≤ 2 ^ 20) : growthCount h k ≤ 1025 := by
  unfold growthCount
  split <;> omega

theorem GrowthLayout.pointer_lt (hl : GrowthLayout h old k m) (hk : k ≤ 2 ^ 20) :
    m.placementPointer + 0x1000 < 2 ^ 32 := by
  have hcount := growthCount_le (h := h) hk
  rw [hl.pointer]
  omega

structure GrowthInv (obj : Nat → Nat → κ) (clear : Prop) (h : Nat) (old : List Nat)
    (heapEnd k : Nat) (m : Mm κ) : Prop where
  layout : GrowthLayout h old k m
  identity : clear → IdentityUpTo obj k m
  heapEnd_eq : m.heapEnd = heapEnd
  within : k * 0x1000 ≤ heapEnd
  noWrap : m.wrapped = false

def Grown (obj : Nat → Nat → κ) (clear : Prop) (h : Nat) (old : List Nat) (m : Mm κ) : Prop :=
  ∃ k, m.heapEnd = k * 0x1000 ∧ GrowthInv obj clear h old (k * 0x1000) k m

/-- The state in which the loop of `sbrk` starts. -/
theorem Grown.start {clear : Prop} {increment : Nat} (hm : Grown obj clear h old m)
    (hfit : m.heapEnd + increment < 2 ^ 32) :
    ∃ k, m.heapEnd = k * 0x1000 ∧ GrowthInv obj clear h old (m.heapEnd + increment) k { m with
      heapEnd := wordAdd m.heapEnd increment
      wrapped := m.wrapped || decide (2 ^ 32 ≤ m.heapEnd + increment) } := by
  obtain ⟨k, hk, hinv⟩ := hm
  refine ⟨k, hk, ⟨⟨hinv.layout.tables.present, hinv.layout.tables.page,
    hinv.layout.tables.physical⟩, hinv.layout.boot, hinv.layout.pointer, hinv.layout.made⟩, ?_,
    wordAdd_of_lt hfit, by omega, ?_⟩
  · intro hc
    have hid := hinv.identity hc
    exact ⟨hid.inUse, hid.mapped, hid.blank⟩
  · rw [hinv.noWrap, Bool.false_or]
    exact decide_eq_false (Nat.not_le_of_lt hfit)

/-- The heap starts where the boot mapping ends. -/
theorem BootLayout.heapInstall {clear : Prop} (hl : BootLayout k m)
    (hk : m.placementPointer = k * 0x1000) (hw : m.wrapped = false)
    (hid : clear → IdentityUpTo obj k m) : Grown obj clear k m.made m.heapInstall := by
  have hcount : growthCount k k = 0 := if_pos rfl
  refine ⟨k, hk, ⟨⟨⟨hl.tables.present, hl.tables.page, hl.tables.physical⟩, Nat.le_refl k, ?_, ?_⟩,
    ?_, hk, Nat.le_refl _, hw⟩⟩
  · rw [hcount]
    rfl
  · rw [hcount]
    rfl
  · intro hc
    exact ⟨(hid hc).inUse, (hid hc).mapped, (hid hc).blank⟩

/-! ### The identity mapping -/

def walk (obj : Nat → Nat → κ) (m : Mm κ) (k : Nat) : Page :=
  m.entries (obj (k / 1024) (pageBase (m.physicalTables (k / 1024)))) (k % 1024)

/-- The physical address that the processor makes of a linear one: the entry of
the directory, the entry of the table it names, and the offset in the page. -/
def translate (obj : Nat → Nat → κ) (m : Mm κ) (x : Nat) : Option Nat :=
  if m.physicalTables (x / 0x1000 / 1024) % 2 = 1 then
    if (walk obj m (x / 0x1000)).present then
      some ((walk obj m (x / 0x1000)).frame.toNat * 0x1000 + x % 0x1000)
    else none
  else none

/-- Every page below the end of the heap is mapped to the frame of its number,
through the table that the kernel's own view of the directory names. -/
structure IdentityMapped (obj : Nat → Nat → κ) (m : Mm κ) : Prop where
  directory : ∀ k, k * 0x1000 < m.heapEnd → m.physicalTables (k / 1024) % 2 = 1
  sameTable : ∀ k, k * 0x1000 < m.heapEnd →
    m.tables (k / 1024) = pageBase (m.physicalTables (k / 1024))
  present : ∀ k, k * 0x1000 < m.heapEnd → (walk obj m k).present = true
  frame : ∀ k, k * 0x1000 < m.heapEnd → (walk obj m k).frame.toNat = k

theorem TablesUpTo.directory_entry {T t : Nat} (ht : TablesUpTo T m) (hlt : t < T) :
    m.physicalTables t % 2 = 1 ∧ pageBase (m.physicalTables t) = m.tables t := by
  obtain ⟨hdvd, hword⟩ := ht.page t hlt
  rw [ht.physical t hlt, or_seven hdvd, pageBase_eq (by omega)]
  omega

theorem Grown.identityMapped {clear : Prop} (hc : clear) (hm : Grown obj clear h old m) :
    IdentityMapped obj m := by
  obtain ⟨k, hk, hinv⟩ := hm
  have htables := hinv.layout.tables
  have hid := hinv.identity hc
  have hslot : ∀ j, j * 0x1000 < m.heapEnd → j < k ∧ j / 1024 < (k + 1023) / 1024 := by
    intro j hj
    omega
  refine ⟨?_, ?_, ?_, ?_⟩
  · intro j hj
    exact (htables.directory_entry (hslot j hj).2).1
  · intro j hj
    exact (htables.directory_entry (hslot j hj).2).2.symm
  · intro j hj
    rw [walk, (htables.directory_entry (hslot j hj).2).2]
    exact (hid.mapped j (hslot j hj).1).1
  · intro j hj
    rw [walk, (htables.directory_entry (hslot j hj).2).2]
    exact (hid.mapped j (hslot j hj).1).2

variable [DecidableEq κ]

def getPageTwice (obj : Nat → Nat → κ) (k : Nat) (m : Mm κ) : Mm κ :=
  ((m.getPage obj (k * 0x1000) 1).2.getPage obj (k * 0x1000) 1).2

/-- In the first new slot both calls make a table, because the first one is
put at address 0. -/
theorem GrowthLayout.getPage_twice (hl : GrowthLayout h old k m) (hk : k ≤ 2 ^ 20) :
    m.getPageTwice obj k =
      if k % 1024 ≠ 0 then m
      else if growthCount h k = 0 then (m.makeTable obj (k / 1024)).makeTable obj (k / 1024)
      else m.makeTable obj (k / 1024) := by
  have hpointer := hl.pointer_lt hk
  unfold getPageTwice
  by_cases hfirst : k % 1024 = 0
  · have hT : k / 1024 = (k + 1023) / 1024 := by omega
    rw [if_neg (not_not_intro hfirst), hl.tables.getPage, if_pos hfirst, hT]
    by_cases hzero : growthCount h k = 0
    · have hpp : m.placementPointer = 0 := by rw [hl.pointer, hzero, Nat.zero_mul]
      rw [if_pos hzero, (hl.tables.makeTable_zero hpp).getPage, if_pos hfirst, hT]
    · have hlow : 0x1000 ≤ m.placementPointer := by
        rw [hl.pointer]
        omega
      have hmade := hl.tables.makeTable obj (by omega) hlow
      have hslot : k * 0x1000 / 0x1000 / 1024 = (k + 1023) / 1024 := by omega
      rw [if_neg hzero, getPage_of_table (by rw [hslot]; exact hmade.table_ne (by omega))]
  · rw [if_pos hfirst, hl.tables.getPage, if_neg hfirst, hl.tables.getPage, if_neg hfirst]

theorem growthCount_succ_of_mod {k : Nat} (hk : k % 1024 ≠ 0) :
    growthCount h (k + 1) = growthCount h k := by
  unfold growthCount
  rw [show (k + 1 + 1023) / 1024 = (k + 1023) / 1024 by omega]

theorem growthCount_succ_of_zero {k : Nat} (hk : k % 1024 = 0)
    (hzero : growthCount h k = 0) : growthCount h (k + 1) = 2 := by
  unfold growthCount at hzero ⊢
  split at hzero <;> split <;> omega

theorem growthCount_succ_of_pos {k : Nat} (hle : h ≤ k) (hk : k % 1024 = 0)
    (hpos : growthCount h k ≠ 0) : growthCount h (k + 1) = growthCount h k + 1 := by
  unfold growthCount at hpos ⊢
  split at hpos <;> split <;> omega

variable (obj) in
theorem GrowthLayout.next (hl : GrowthLayout h old k m) (hk : k < 2 ^ 20) :
    GrowthLayout h old (k + 1) (m.getPageTwice obj k) ∧
      (m.getPageTwice obj k).wrapped = m.wrapped ∧
      (m.getPageTwice obj k).allocator = m.allocator ∧
      (m.getPageTwice obj k).heapEnd = m.heapEnd ∧
      (SlotsApart obj → IdentityUpTo obj k m → IdentityUpTo obj k (m.getPageTwice obj k)) := by
  have hpointer := hl.pointer_lt (Nat.le_of_lt hk)
  have hpp : m.placementPointer < 2 ^ 32 := Nat.lt_of_le_of_lt (Nat.le_add_right _ _) hpointer
  have hbase : m.nextTable = m.placementPointer :=
    nextTable_of_dvd hpp (by rw [hl.pointer]; exact Nat.dvd_mul_left _ _)
  obtain ⟨hpp₁, hw₁, hmade₁, ha₁, he₁⟩ :=
    makeTable_of_lt obj (t := k / 1024) hpp (by rw [hbase]; exact hpointer)
  rw [hl.getPage_twice (Nat.le_of_lt hk)]
  by_cases hfirst : k % 1024 = 0
  · have hT : k / 1024 = (k + 1023) / 1024 := by omega
    have hT' : (k + 1 + 1023) / 1024 = (k + 1023) / 1024 + 1 := by omega
    have hid₁ : SlotsApart obj → IdentityUpTo obj k m →
        IdentityUpTo obj k (m.makeTable obj (k / 1024)) :=
      fun hobj hid => hid.makeTable hobj hpp (by omega)
    rw [if_neg (not_not_intro hfirst)]
    by_cases hzero : growthCount h k = 0
    · rw [if_pos hzero]
      have hp₀ : m.placementPointer = 0 := by rw [hl.pointer, hzero, Nat.zero_mul]
      rw [hbase, hp₀] at hpp₁ hmade₁
      have hpp₂ : (m.makeTable obj (k / 1024)).placementPointer < 2 ^ 32 := by
        rw [hpp₁]
        decide
      have hbase₂ : (m.makeTable obj (k / 1024)).nextTable = 0x1000 := by
        rw [nextTable_of_dvd hpp₂ (by rw [hpp₁]), hpp₁]
      obtain ⟨hpp₃, hw₃, hmade₃, ha₃, he₃⟩ :=
        makeTable_of_lt obj (t := k / 1024) hpp₂ (by rw [hbase₂]; decide)
      refine ⟨⟨?_, Nat.le_succ_of_le hl.boot, ?_, ?_⟩, hw₃.trans hw₁, ha₃.trans ha₁,
        he₃.trans he₁, ?_⟩
      · rw [hT', hT]
        exact (hl.tables.makeTable_zero hp₀).makeTable obj (by rwa [hT] at hpp₂)
          (by rw [hT] at hpp₁; rw [hpp₁])
      · rw [hpp₃, hbase₂, growthCount_succ_of_zero hfirst hzero]
      · rw [hmade₃, hbase₂, hmade₁, hl.made, hzero, growthCount_succ_of_zero hfirst hzero]
        rfl
      · intro hobj hid
        exact (hid₁ hobj hid).makeTable hobj hpp₂ (by omega)
    · rw [if_neg hzero]
      refine ⟨⟨?_, Nat.le_succ_of_le hl.boot, ?_, ?_⟩, hw₁, ha₁, he₁, hid₁⟩
      · rw [hT', hT]
        apply hl.tables.makeTable obj hpp
        rw [hl.pointer]
        omega
      · rw [hpp₁, hbase, hl.pointer, growthCount_succ_of_pos hl.boot hfirst hzero, Nat.succ_mul]
      · rw [hmade₁, hbase, hl.made, hl.pointer, growthCount_succ_of_pos hl.boot hfirst hzero]
        rfl
  · rw [if_pos hfirst]
    refine ⟨⟨?_, Nat.le_succ_of_le hl.boot, ?_, ?_⟩, rfl, rfl, rfl, fun _ hid => hid⟩
    · rw [show (k + 1 + 1023) / 1024 = (k + 1023) / 1024 by omega]
      exact hl.tables
    · rw [growthCount_succ_of_mod hfirst]
      exact hl.pointer
    · rw [growthCount_succ_of_mod hfirst]
      exact hl.made

theorem mapGrowthTurn_eq (k : Nat) (m : Mm κ) :
    mapGrowthTurn obj (k * 0x1000, m) =
      match (m.getPageTwice obj k).allocFrameAt (some (obj (k / 1024)
        ((m.getPageTwice obj k).tables (k / 1024)), k % 1024)) 0 0 with
      | .error e => .error e
      | .ok m => .ok (m.nextPage (k * 0x1000)) := by
  simp only [mapGrowthTurn, mapPage_eq]
  rfl

theorem mapGrowthTurn_ok (h : (m.getPageTwice obj k).allocFrameAt (some (obj (k / 1024)
      ((m.getPageTwice obj k).tables (k / 1024)), k % 1024)) 0 0 = .ok m') :
    mapGrowthTurn obj (k * 0x1000, m) = .ok (m'.nextPage (k * 0x1000)) := by
  rw [mapGrowthTurn_eq, h]

theorem mapGrowthTurn_noWrap {s s' : Nat × Mm κ} (hok : mapGrowthTurn obj s = .ok s')
    (hw : s'.2.wrapped = false) : s.2.wrapped = false := by
  unfold mapGrowthTurn at hok
  dsimp only at hok
  split at hok
  case h_1 => cases hok
  case h_2 m hpage =>
    rw [← Except.ok.inj hok] at hw
    exact getPage_noWrap (mapPage_noWrap hpage (nextPage_noWrap hw).1)

theorem mapGrowth_noWrap {fuel : Nat} {s s' : Nat × Mm κ} (hok : mapGrowth obj fuel s = .ok s')
    (hw : s'.2.wrapped = false) : s.2.wrapped = false := by
  by_contra hne
  have hkeeps := Loop.loop_invariant (I := fun s : Nat × Mm κ => ¬ s.2.wrapped = false)
    (fun s s' hs _ hturn hw => hs (mapGrowthTurn_noWrap hturn hw)) fuel s s' hne hok
  exact hkeeps.1 hw

theorem GrowthInv.turn {clear : Prop} (hclear : clear → SlotsApart obj) {e : Nat}
    (he : 0x1000 ∣ e) (he' : e < 2 ^ 32) (hm : GrowthInv obj clear h old e k m)
    (hlt : k * 0x1000 < e) {s' : Nat × Mm κ} (hok : mapGrowthTurn obj (k * 0x1000, m) = .ok s') :
    s'.1 = (k + 1) * 0x1000 ∧ GrowthInv obj clear h old e (k + 1) s'.2 ∧
      s'.2.allocator.scanned = m.allocator.scanned := by
  have hk : k < 2 ^ 20 := by omega
  have hi : k * 0x1000 + 0x1000 ≤ e := by omega
  have hfit : k * 0x1000 + 0x1000 < 2 ^ 32 := Nat.lt_of_le_of_lt hi he'
  obtain ⟨hlayout, hw₁, ha₁, he₁, hid₁⟩ := hm.layout.next obj hk
  have htable := hlayout.tables.table_ne (t := k / 1024) (by omega)
  rw [mapGrowthTurn_eq] at hok
  split at hok
  case h_1 => cases hok
  case h_2 m' hpage =>
    rw [nextPage_of_lt hfit] at hok
    have hs' := Except.ok.inj hok
    subst hs'
    have hid' : clear → IdentityUpTo obj (k + 1) m' := fun hc =>
      (hid₁ (hclear hc) (hm.identity hc)).alloc (hclear hc) hk htable hpage
    obtain ⟨entry, a, halloc, rfl⟩ := allocFrameAt_ok hpage
    refine ⟨(Nat.succ_mul k 0x1000).symm, ⟨⟨⟨hlayout.tables.present, hlayout.tables.page,
      hlayout.tables.physical⟩, hlayout.boot, hlayout.pointer, hlayout.made⟩, hid',
      he₁.trans hm.heapEnd_eq, ?_, hw₁.trans hm.noWrap⟩, ?_⟩
    · rw [Nat.succ_mul]
      exact hi
    · dsimp only
      rw [allocFrame_scanned halloc, ha₁]

/-- With a frame left for it, the next page of the growth is mapped. -/
theorem GrowthInv.turn_returns {clear : Prop} (hclear : clear → SlotsApart obj) (hc : clear)
    {e : Nat} (he' : e < 2 ^ 32) (hm : GrowthInv obj clear h old e k m) (hlt : k * 0x1000 < e)
    (hframes : k < m.allocator.scanned) :
    ∃ s', mapGrowthTurn obj (k * 0x1000, m) = .ok s' := by
  have hk : k < 2 ^ 20 := by omega
  obtain ⟨hlayout, -, ha₁, -, hid₁⟩ := hm.layout.next obj hk
  obtain ⟨m', hok⟩ := (hid₁ (hclear hc) (hm.identity hc)).alloc_returns (by rwa [ha₁])
    (hlayout.tables.table_ne (by omega)) 0 0
  exact ⟨_, mapGrowthTurn_ok hok⟩

theorem sbrk_ok {increment address : Nat} (hok : m.sbrk obj increment = .ok (address, m')) :
    increment % 0x1000 = 0 ∧ address = m.heapEnd ∧
      ∃ i, mapGrowth obj (2 ^ 20 + 1) (m.heapEnd, { m with
        heapEnd := wordAdd m.heapEnd increment
        wrapped := m.wrapped || decide (2 ^ 32 ≤ m.heapEnd + increment) }) = .ok (i, m') := by
  unfold sbrk at hok
  split at hok
  case h_1 => cases hok
  case h_2 hassert =>
    dsimp only at hok
    split at hok
    case h_1 => cases hok
    case h_2 s hloop =>
      rw [Except.ok.injEq, Prod.mk.injEq] at hok
      refine ⟨kassert_eq_ok.mp hassert, hok.1.symm, s.1, ?_⟩
      rw [hloop, ← hok.2]

theorem sbrk_noWrap {increment address : Nat} (hok : m.sbrk obj increment = .ok (address, m'))
    (hw : m'.wrapped = false) : m.wrapped = false ∧ m.heapEnd + increment < 2 ^ 32 := by
  obtain ⟨-, -, i, hloop⟩ := sbrk_ok hok
  have hgrown := mapGrowth_noWrap hloop hw
  rw [Bool.or_eq_false_iff, decide_eq_false_iff_not] at hgrown
  exact ⟨hgrown.1, Nat.lt_of_not_le hgrown.2⟩

theorem Grown.sbrk {clear : Prop} (hclear : clear → SlotsApart obj) {increment address : Nat}
    (hm : Grown obj clear h old m) (hok : m.sbrk obj increment = .ok (address, m'))
    (hw : m'.wrapped = false) :
    Grown obj clear h old m' ∧ 0x1000 ∣ increment ∧ address = m.heapEnd ∧
      m'.heapEnd = m.heapEnd + increment := by
  obtain ⟨hinc, haddr, i, hloop⟩ := sbrk_ok hok
  have hfit := (sbrk_noWrap hok hw).2
  obtain ⟨k, hk, hstart⟩ := hm.start hfit
  have hdvd : 0x1000 ∣ m.heapEnd + increment := by omega
  obtain ⟨⟨k', hk', hinv⟩, hexit⟩ := Loop.loop_invariant
    (I := fun s : Nat × Mm κ => ∃ k, s.1 = k * 0x1000 ∧
      GrowthInv obj clear h old (m.heapEnd + increment) k s.2)
    (by
      rintro ⟨i, m⟩ s' ⟨k, rfl, hs⟩ hg hturn
      have hlt : k * 0x1000 < m.heapEnd := of_decide_eq_true (Except.ok.inj hg)
      rw [hs.heapEnd_eq] at hlt
      obtain ⟨hs₁, hs₂, -⟩ := hs.turn hclear hdvd hfit hlt hturn
      exact ⟨k + 1, hs₁, hs₂⟩)
    _ _ _ ⟨k, hk, hstart⟩ hloop
  dsimp only at hk' hinv
  have hend : ¬ i < m'.heapEnd := of_decide_eq_false (Except.ok.inj hexit)
  have hle := hinv.within
  have hheap := hinv.heapEnd_eq
  have hsum : m.heapEnd + increment = k' * 0x1000 := by omega
  exact ⟨⟨k', by omega, hsum ▸ hinv⟩, Nat.dvd_of_mod_eq_zero hinc, haddr, hheap⟩

/-- The loop of `sbrk` ends when there is a frame for every page. -/
theorem GrowthInv.mapGrowth_returns {clear : Prop} (hclear : clear → SlotsApart obj) (hc : clear)
    {e : Nat} (he : 0x1000 ∣ e) (he' : e < 2 ^ 32) (hm : GrowthInv obj clear h old e k m)
    (hframes : e ≤ m.allocator.scanned * 0x1000) :
    ∃ i m', mapGrowth obj (2 ^ 20 + 1) (k * 0x1000, m) = .ok (i, m') ∧ m'.wrapped = false ∧
      m'.allocator.scanned = m.allocator.scanned := by
  have hturn : ∀ s : Nat × Mm κ,
      (∃ k, s.1 = k * 0x1000 ∧ GrowthInv obj clear h old e k s.2 ∧
        s.2.allocator.scanned = m.allocator.scanned) →
      decide (s.1 < s.2.heapEnd) = true →
      ∃ s', mapGrowthTurn obj s = .ok s' ∧
        (∃ k, s'.1 = k * 0x1000 ∧ GrowthInv obj clear h old e k s'.2 ∧
          s'.2.allocator.scanned = m.allocator.scanned) ∧
        (e - s'.1) / 0x1000 < (e - s.1) / 0x1000 := by
    rintro ⟨i, m₁⟩ ⟨k, hi, hs, hscan⟩ hg
    dsimp only at hi hs hscan hg
    subst hi
    have hlt : k * 0x1000 < e := by
      rw [← hs.heapEnd_eq]
      exact of_decide_eq_true hg
    obtain ⟨s', hok⟩ := hs.turn_returns hclear hc he' hlt (by omega)
    obtain ⟨hs₁, hs₂, hs₃⟩ := hs.turn hclear he he' hlt hok
    refine ⟨s', hok, ⟨k + 1, hs₁, hs₂, hs₃.trans hscan⟩, ?_⟩
    rw [hs₁]
    dsimp only
    omega
  have hvariant : (e - k * 0x1000) / 0x1000 < 2 ^ 20 + 1 := by omega
  obtain ⟨⟨i, m'⟩, hloop, ⟨k', -, hinv, hscan⟩, -⟩ := Loop.loop_returns Fault.diverges
    (fun s : Nat × Mm κ => (e - s.1) / 0x1000) hturn (2 ^ 20 + 1) (k * 0x1000, m)
    ⟨k, rfl, hm, rfl⟩ hvariant
  exact ⟨i, m', hloop, hinv.noWrap, hscan⟩

/-- With frames for all pages of the heap, `sbrk` returns. -/
theorem Grown.sbrk_returns {clear : Prop} (hclear : clear → SlotsApart obj) (hc : clear)
    {increment : Nat} (hm : Grown obj clear h old m) (hinc : 0x1000 ∣ increment)
    (hfit : m.heapEnd + increment < 2 ^ 32)
    (hframes : m.heapEnd + increment ≤ m.allocator.scanned * 0x1000) :
    ∃ m', m.sbrk obj increment = .ok (m.heapEnd, m') ∧ m'.wrapped = false ∧
      m'.allocator.scanned = m.allocator.scanned := by
  obtain ⟨k, hk, hstart⟩ := hm.start hfit
  have hdvd : 0x1000 ∣ m.heapEnd + increment := by omega
  obtain ⟨i, m', hloop, hw, hscan⟩ := hstart.mapGrowth_returns hclear hc hdvd hfit hframes
  rw [← hk] at hloop
  refine ⟨m', ?_, hw, hscan⟩
  simp only [Mm.sbrk, kassert_of (Nat.mod_eq_zero_of_dvd hinc), hloop]

/-! ### Runs of `sbrk` -/

theorem sbrkRun_cons_ok {increment : Nat} {rest : List Nat} {regions : List Region}
    (hok : m.sbrkRun obj (increment :: rest) = .ok (regions, m')) :
    ∃ address m₁ regions', m.sbrk obj increment = .ok (address, m₁) ∧
      m₁.sbrkRun obj rest = .ok (regions', m') ∧ regions = ⟨address, increment⟩ :: regions' := by
  unfold sbrkRun at hok
  split at hok
  case h_1 => cases hok
  case h_2 address m₁ hsbrk =>
    split at hok
    case h_1 => cases hok
    case h_2 regions' m₂ hrest =>
      rw [Except.ok.injEq, Prod.mk.injEq] at hok
      exact ⟨address, m₁, regions', hsbrk, hok.2 ▸ hrest, hok.1.symm⟩

theorem sbrkRun_noWrap {incs : List Nat} {regions : List Region}
    (hok : m.sbrkRun obj incs = .ok (regions, m')) (hw : m'.wrapped = false) :
    m.wrapped = false := by
  induction incs generalizing m regions with
  | nil =>
      rw [sbrkRun, Except.ok.injEq, Prod.mk.injEq] at hok
      rw [hok.2]
      exact hw
  | cons inc rest ih =>
      obtain ⟨address, m₁, regions', hsbrk, hrest, -⟩ := sbrkRun_cons_ok hok
      exact (sbrk_noWrap hsbrk (ih hrest)).1

/-- What a run of `sbrk` calls has returned, page by page. -/
structure SbrkRanges (lo hi : Nat) (regions : List Region) : Prop where
  consecutive : Region.Consecutive lo hi regions
  aligned : ∀ r ∈ regions, 0x1000 ∣ r.base ∧ 0x1000 ∣ r.len

theorem Grown.sbrkRun {clear : Prop} (hclear : clear → SlotsApart obj) {incs : List Nat}
    {regions : List Region} (hm : Grown obj clear h old m)
    (hok : m.sbrkRun obj incs = .ok (regions, m')) (hw : m'.wrapped = false) :
    Grown obj clear h old m' ∧ SbrkRanges m.heapEnd m'.heapEnd regions ∧
      m'.heapEnd = m.heapEnd + incs.sum := by
  induction incs generalizing m regions with
  | nil =>
      rw [Mm.sbrkRun, Except.ok.injEq, Prod.mk.injEq] at hok
      obtain ⟨rfl, rfl⟩ := hok
      exact ⟨hm, ⟨rfl, by simp⟩, rfl⟩
  | cons inc rest ih =>
      obtain ⟨address, m₁, regions', hsbrk, hrest, rfl⟩ := sbrkRun_cons_ok hok
      obtain ⟨hm₁, hdvd, rfl, hend⟩ := hm.sbrk hclear hsbrk (sbrkRun_noWrap hrest hw)
      obtain ⟨hm', hranges, hsum⟩ := ih hm₁ hrest
      refine ⟨hm', ⟨⟨rfl, ?_⟩, ?_⟩, ?_⟩
      · rw [← hend]
        exact hranges.consecutive
      · intro r hr
        rcases List.mem_cons.mp hr with rfl | hr
        · obtain ⟨k, hk, -⟩ := hm
          exact ⟨⟨k, by rw [Nat.mul_comm]; exact hk⟩, hdvd⟩
        · exact hranges.aligned r hr
      · rw [hsum, hend, List.sum_cons, Nat.add_assoc]

/-- The state after `paging_install` and `heap_install`. -/
theorem heapInstall_grown (clear : Prop) (hsep : clear → SlotsApart obj) {start fuel : Nat}
    {frames : Bitmap 32} (hframes : clear → frames = fun _ => 0) {entries : κ → Nat → Page}
    {memsize : UInt32} {boot : Mm κ} (hstart : 0x100000 ≤ start)
    (hboot : pagingInstall obj fuel memsize (initial start frames entries) = .ok boot)
    (hw : boot.wrapped = false) :
    ∃ h, 0x100000 ≤ h * 0x1000 ∧ boot.placementPointer = h * 0x1000 ∧
      (∀ b ∈ boot.made, 0x100000 ≤ b ∧ b + 0x1000 ≤ h * 0x1000) ∧
      Grown obj clear h boot.made boot.heapInstall := by
  obtain ⟨h, hh, hlayout, hid⟩ := pagingInstall_layout hsep hframes hstart hboot hw
  have hlow := hlayout.low
  have hmade := hlayout.made
  rw [hh] at hlow hmade
  exact ⟨h, hlow, hh, hmade, hlayout.heapInstall hh hw hid⟩

theorem room_of_pages {bitmap directory S L : Nat} (hdirectory : directory = 0x2004)
    (hroom : bitmap + directory + 0x1000 * S ≤ L * 0x1000) :
    bitmap / 0x1000 * 0x1000 + 0x2000 + 0x1000 * S ≤ L * 0x1000 := by
  omega

/-- With frames enough, the boot and one growth of the heap return. -/
theorem boot_sbrk_returns {L S : Nat} (start fuel increment : Nat) (hobj : SlotsApart obj)
    (entries : κ → Nat → Page) (memsize : UInt32) (hstart : 0x100000 ≤ start)
    (hL : L * 0x1000 < 2 ^ 32) (hS : L ≤ 1024 * S)
    (hroom : start + indexFromBit (memsize / 4).toNat + pageDirectorySize + 0x1000 * S ≤
      L * 0x1000)
    (hfuel : L < fuel) (hinc : 0x1000 ∣ increment) (hfit : L * 0x1000 + increment < 2 ^ 32)
    (hframes : L * 0x1000 + increment ≤ indexFromBit (memsize / 4).toNat * 0x20 * 0x1000) :
    ∃ boot m, pagingInstall obj fuel memsize (initial start (fun _ => 0) entries) = .ok boot ∧
      boot.heapInstall.sbrkRun obj [increment] = .ok ([⟨boot.placementPointer, increment⟩], m) ∧
        boot.placementPointer ≤ L * 0x1000 ∧ m.wrapped = false := by
  have hroom' := room_of_pages rfl hroom
  have hL' : L ≤ indexFromBit (memsize / 4).toNat * 0x20 := by omega
  have hclear : indexFromBit (memsize / 4).toNat * 0x20 ≤
      ((initial start (fun _ => 0) entries).pagingSetup memsize).allocator.clearBelow
        ((initial start (fun _ => 0) entries).pagingSetup memsize).allocator.scanned :=
    Nat.le_of_eq (FrameAllocator.clearBelow_of_clear fun f _ =>
      (pagingSetup_inUse start entries memsize f)).symm
  obtain ⟨boot, hboot, hw, hpp⟩ := pagingInstall_returns obj (fun _ => 0) entries memsize hstart hL
    hS hroom' (Nat.le_trans hL' hclear) hfuel
  have hscan : boot.allocator.scanned = indexFromBit (memsize / 4).toNat * 0x20 :=
    pagingInstall_scanned hboot
  obtain ⟨h, -, -, -, hgrown⟩ :=
    heapInstall_grown True (fun _ => hobj) (fun _ => rfl) hstart hboot hw
  have hheap : boot.heapInstall.heapEnd = boot.placementPointer := rfl
  have hscan' : boot.heapInstall.allocator.scanned = boot.allocator.scanned := rfl
  obtain ⟨m, hsbrk, hw', -⟩ := hgrown.sbrk_returns (fun _ => hobj) trivial hinc
    (by rw [hheap]; omega) (by rw [hheap, hscan']; omega)
  refine ⟨boot, m, hboot, ?_, hpp, hw'⟩
  simp only [Mm.sbrkRun, hsbrk, hheap]

/-- The kernel address space stays identity mapped, whatever the start of the
placement area, the reported memory size and the growth of the heap. -/
theorem identity_mapped (hobj : SlotsApart obj) {start fuel : Nat} (entries : κ → Nat → Page)
    (memsize : UInt32) (hstart : 0x100000 ≤ start) {boot m : Mm κ} {incs : List Nat}
    {regions : List Region}
    (hboot : pagingInstall obj fuel memsize (initial start (fun _ => 0) entries) = .ok boot)
    (hrun : boot.heapInstall.sbrkRun obj incs = .ok (regions, m)) (hw : m.wrapped = false) :
    IdentityMapped obj m ∧ SbrkRanges boot.placementPointer m.heapEnd regions ∧
      regions.Pairwise Region.Apart := by
  have hboot' : boot.heapInstall.wrapped = false := sbrkRun_noWrap hrun hw
  obtain ⟨h, -, -, -, hgrown⟩ :=
    heapInstall_grown True (fun _ => hobj) (fun _ => rfl) hstart hboot hboot'
  obtain ⟨hgrown', hranges, -⟩ := hgrown.sbrkRun (fun _ => hobj) hrun hw
  exact ⟨hgrown'.identityMapped trivial, hranges, hranges.consecutive.pairwise_apart⟩

theorem identity_mapped_boot :
    ∃ (boot m : Mm (Nat × Nat)) (regions : List Region),
      pagingInstall Prod.mk 0x1000 0x20000
        (initial 0x105000 (fun _ => 0) fun _ _ => Page.zero) = .ok boot ∧
      boot.heapInstall.sbrkRun Prod.mk [0x3000] = .ok (regions, m) ∧
      IdentityMapped Prod.mk m ∧ SbrkRanges boot.placementPointer m.heapEnd regions ∧
        regions.Pairwise Region.Apart := by
  have hobj : SlotsApart (Prod.mk : Nat → Nat → Nat × Nat) :=
    fun _ _ _ _ heq => congrArg Prod.fst heq
  obtain ⟨boot, m, hboot, hrun, -, hw⟩ := boot_sbrk_returns (L := 0x200) (S := 1)
    0x105000 0x1000 0x3000 hobj (fun _ _ => Page.zero)
    0x20000 (by decide) (by decide) (by decide) (by decide) (by decide) (by decide) (by decide)
    (by decide)
  exact ⟨boot, m, _, hboot, hrun, identity_mapped hobj _ _ (by decide) hboot hrun hw⟩

end Mm

end X32PRos
