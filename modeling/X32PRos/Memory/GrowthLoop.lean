import X32PRos.Memory.GrowthSteps
import X32PRos.Memory.HeapGrowth

/-!
Calls of `sbrk` over the one memory: the tables of the boot are followed by those
of the growth, which go up from address 0.
-/

namespace X32PRos

open Foundation

namespace BootPlan

def heapTab (p : BootPlan) (n t : Nat) : Nat :=
  if t < p.tables then p.firstTable + 0x1000 * t
  else if t < n then 0x1000 * (t - p.tables + 1) else 0

variable {p : BootPlan} {n t : Nat}

theorem heapTab_of_le (hn : p.tables ≤ n) (h : n ≤ t) : p.heapTab n t = 0 := by
  rw [heapTab, if_neg (by omega), if_neg (by omega)]

theorem heapTab_ne_zero (hn : p.tables ≤ n) : p.heapTab n t ≠ 0 ↔ t < n := by
  have hbehind := p.behind
  constructor
  · intro hne
    by_contra hle
    exact hne (heapTab_of_le hn (Nat.le_of_not_lt hle))
  · intro hlt
    unfold heapTab
    by_cases hboot : t < p.tables
    · rw [if_pos hboot]
      omega
    · rw [if_neg hboot, if_pos hlt]
      omega

theorem heapTab_succ (hn : p.tables ≤ n) :
    Function.update (p.heapTab n) n (0x1000 * (n - p.tables + 1)) = p.heapTab (n + 1) := by
  funext t
  rw [Function.update_apply]
  unfold heapTab
  by_cases heq : t = n
  · rw [if_pos heq, if_neg (by omega), if_pos (by omega), heq]
  · rw [if_neg heq]
    by_cases hlt : t < n
    · rw [if_pos hlt, if_pos (show t < n + 1 by omega)]
    · rw [if_neg hlt, if_neg (show ¬t < n + 1 by omega)]

theorem heapTab_tables : p.heapTab p.tables = p.bootTab p.tables := by
  funext t
  unfold heapTab bootTab
  by_cases hlt : t < p.tables
  · rw [if_pos hlt, if_pos hlt]
  · rw [if_neg hlt, if_neg hlt, if_neg hlt]

end BootPlan

namespace Boot

/-- The heap with `k` pages mapped, all of them by `sbrk` after the boot, whose tables were `old`. -/
structure HeapPages (p : BootPlan) (old : List Nat) (k : Nat) (s : Boot) : Prop where
  grown : s.Grown p (p.heapTab ((k + 1023) / 1024)) k
  clean : ∀ t < 1024, (k + 1023) / 1024 ≤ t → s.view.physical t = 0
  pointer : s.placementPointer = Mm.growthCount p.pages k * 0x1000
  made : s.made = Mm.growthTables (Mm.growthCount p.pages k) ++ old
  low : Mm.growthCount p.pages k * 0x1000 ≤ p.frames
  boot : p.pages ≤ k
  scanned : k ≤ p.words * 32

/-- The slot of page `k` and its table, and its bit if there is a frame for it, lie apart from
everything else. -/
structure Admits (p : BootPlan) (k : Nat) : Prop where
  slot : k / 1024 < p.slots
  frames : Mm.growthCount p.pages (k + 1) * 0x1000 ≤ p.frames
  directory : Mm.growthCount p.pages (k + 1) * 0x1000 ≤ p.directory
  bit : k < p.words * 32 → k < p.cap

variable {p : BootPlan} {old : List Nat} {k : Nat} {s s' : Boot} {mem₀ : Memory}

theorem HeapPages.tables_le (h : s.HeapPages p old k) : p.tables ≤ (k + 1023) / 1024 := by
  have hboot := h.boot
  have hcount := p.count_eq
  omega

/-- The next page is mapped, and the layout goes on. -/
theorem HeapPages.pageMapped (h : s.HeapPages p old k)
    (hs : s.PageMapped p (p.heapTab ((k + 1023) / 1024)) k s') (hscan : k < p.words * 32)
    (hlow : Mm.growthCount p.pages (k + 1) * 0x1000 ≤ p.frames) : s'.HeapPages p old (k + 1) := by
  have htables := h.tables_le
  have hcount := p.count_eq
  have hpointer := h.pointer
  have hgrown := hs.grown
  have hpointer' := hs.pointer
  have hmade' := hs.made
  by_cases hfirst : k % 1024 = 0
  · have hn : (k + 1023) / 1024 = k / 1024 := by omega
    have hn' : (k + 1 + 1023) / 1024 = k / 1024 + 1 := by omega
    have hnone := BootPlan.heapTab_of_le htables (Nat.le_of_eq hn)
    have htab : growthTable s.placementPointer = 0x1000 * (k / 1024 - p.tables + 1) ∧
        withTable (p.heapTab ((k + 1023) / 1024)) (k / 1024) s.placementPointer =
          p.heapTab (k / 1024 + 1) := by
      have hplace : growthTable s.placementPointer = 0x1000 * (k / 1024 - p.tables + 1) := by
        rw [hpointer]
        unfold growthTable Mm.growthCount
        rw [hcount, hn]
        by_cases hzero : k / 1024 = p.tables
        · rw [if_pos hzero, Nat.zero_mul, if_pos rfl, hzero, Nat.sub_self]
        · rw [if_neg hzero, if_neg (by omega), Nat.mul_comm]
      refine ⟨hplace, ?_⟩
      rw [withTable, if_pos hnone, hplace, hn, BootPlan.heapTab_succ (hn ▸ htables)]
    rw [if_pos hnone] at hpointer' hmade'
    constructor
    case grown =>
      rw [hn', ← htab.2]
      exact hgrown
    case clean =>
      intro t ht hle
      rw [hs.physical t ht (by omega), h.clean t ht (by omega)]
    case pointer =>
      rw [hpointer', htab.1]
      unfold Mm.growthCount
      rw [hcount, hn', if_neg (by omega)]
      omega
    case made =>
      rw [hmade', h.made]
      by_cases hzero : Mm.growthCount p.pages k = 0
      · rw [hpointer, hzero, Nat.zero_mul, if_pos rfl, Mm.growthCount_succ_of_zero hfirst hzero]
        rfl
      · rw [hpointer, if_neg (by omega), Mm.growthCount_succ_of_pos h.boot hfirst hzero]
        rfl
    case low => exact hlow
    case boot => exact Nat.le_succ_of_le h.boot
    case scanned => exact hscan
  · have hn : (k + 1 + 1023) / 1024 = (k + 1023) / 1024 := by omega
    have hne := (BootPlan.heapTab_ne_zero htables).mpr (show k / 1024 < (k + 1023) / 1024 by omega)
    rw [if_neg hne] at hpointer' hmade'
    rw [withTable, if_neg hne] at hgrown
    constructor
    case grown =>
      rw [hn]
      exact hgrown
    case clean =>
      intro t ht hle
      rw [hs.physical t ht (by omega), h.clean t ht (by omega)]
    case pointer => rw [hpointer', hpointer, Mm.growthCount_succ_of_mod hfirst]
    case made => rw [hmade', h.made, Mm.growthCount_succ_of_mod hfirst]; rfl
    case low => exact hlow
    case boot => exact Nat.le_succ_of_le h.boot
    case scanned => exact hscan

/-- The first table for a new slot is put where nothing else is. -/
theorem HeapPages.tableRoom (h : s.HeapPages p old k) (hadmits : Admits p k)
    (hnone : p.heapTab ((k + 1023) / 1024) (k / 1024) = 0) : s.TableRoom p := by
  have htables := h.tables_le
  have hfirst : k % 1024 = 0 := by
    by_contra hne
    exact (BootPlan.heapTab_ne_zero htables).mpr (by omega) hnone
  have hplace : growthTable s.placementPointer + 0x1000 =
      Mm.growthCount p.pages (k + 1) * 0x1000 := by
    rw [h.pointer, growthTable]
    by_cases hzero : Mm.growthCount p.pages k = 0
    · rw [hzero, Nat.zero_mul, if_pos rfl, Mm.growthCount_succ_of_zero hfirst hzero]
    · rw [if_neg (by omega), Mm.growthCount_succ_of_pos h.boot hfirst hzero, Nat.succ_mul]
  constructor
  case frames => exact hplace ▸ hadmits.frames
  case directory => exact hplace ▸ hadmits.directory

/-- The next page is mapped, or no frame is left for it. -/
theorem HeapPages.turn (h : s.HeapPages p old k) (hadmits : Admits p k)
    (hk : (k + 1) * 0x1000 < 2 ^ 32) :
    (p.words * 32 ≤ k ∧ mapGrowthTurn (k * 0x1000, s) = .error outOfFrames) ∨
      k < p.words * 32 ∧ ∃ s', mapGrowthTurn (k * 0x1000, s) = .ok ((k + 1) * 0x1000, s') ∧
        s'.HeapPages p old (k + 1) ∧ s'.heapEnd = s.heapEnd := by
  refine (h.grown.turn hk hadmits.slot (h.tableRoom hadmits) hadmits.bit).imp id fun hok => ⟨hok.1, ?_⟩
  obtain ⟨s', hrun, hs'⟩ := hok.2
  exact ⟨s', hrun, h.pageMapped hs' hok.1 hadmits.frames, hs'.heapEnd⟩

theorem Booted.heapInstall (h : s.Booted p mem₀) : s.heapInstall.HeapPages p s.made p.pages := by
  have hcount : Mm.growthCount p.pages p.pages = 0 := if_pos rfl
  constructor
  case grown =>
    rw [p.count_eq, BootPlan.heapTab_tables]
    constructor
    case mapped =>
      exact ⟨⟨h.mapped.placed.frames, h.mapped.placed.nframes, h.mapped.placed.directory,
        h.mapped.placed.cr3⟩, h.mapped.places, h.mapped.image, h.mapped.word, h.mapped.low,
        h.mapped.tables⟩
    case paged => exact h.paged
    case aligned => exact Nat.dvd_zero _
    case fresh =>
      intro t hne
      rw [BootPlan.bootTab_of_lt (BootPlan.bootTab_ne_zero.mp hne)]
      exact Or.inr (Nat.le_add_right _ _)
  case clean =>
    intro t ht hle
    exact h.clean t ht (by rw [← p.count_eq]; exact hle)
  case pointer =>
    rw [hcount, Nat.zero_mul]
    rfl
  case made =>
    rw [hcount]
    rfl
  case low =>
    rw [hcount, Nat.zero_mul]
    exact Nat.zero_le _
  case boot => exact Nat.le_refl _
  case scanned => exact h.scanned

/-! ### Calls -/

/-- A call whose turns keep `G`, or end the machine in a known way. -/
theorem sbrk_of_turns {E : Fault → Prop} {G : Nat → Boot → Prop} {increment : Nat}
    (hend : s.heapEnd = k * 0x1000) (hdvd : 0x1000 ∣ increment)
    (hrange : s.heapEnd + increment < 2 ^ 32)
    (hstart : G k { s with heapEnd := s.heapEnd + increment })
    (hheap : ∀ j s', G j s' → s'.heapEnd = s.heapEnd + increment)
    (hturn : ∀ j s', G j s' → k ≤ j → (j + 1) * 0x1000 ≤ s.heapEnd + increment →
      (∃ e, mapGrowthTurn (j * 0x1000, s') = .error e ∧ E e) ∨
        ∃ s'', mapGrowthTurn (j * 0x1000, s') = .ok ((j + 1) * 0x1000, s'') ∧ G (j + 1) s'') :
    (∃ e, s.sbrk increment = .error e ∧ E e) ∨ ∃ k' s', s.sbrk increment = .ok (s.heapEnd, s') ∧
      G k' s' ∧ k' * 0x1000 = s.heapEnd + increment := by
  have hassert : increment % 0x1000 = 0 := Nat.mod_eq_zero_of_dvd hdvd
  obtain ⟨last, hlast⟩ : ∃ last, s.heapEnd + increment = last * 0x1000 := by
    obtain ⟨c, hc⟩ := hdvd
    exact ⟨k + c, by omega⟩
  have hsbrk : s.sbrk increment = mapGrowth (2 ^ 20 + 1)
      (k * 0x1000, { s with heapEnd := s.heapEnd + increment }) >>= fun r => .ok (s.heapEnd, r.2) := by
    rw [sbrk, kassert_of hassert, wordAdd_of_lt hrange, hend]
    rfl
  have hstep : ∀ r : Nat × Boot,
      (∃ j, r.1 = j * 0x1000 ∧ k ≤ j ∧ j * 0x1000 ≤ s.heapEnd + increment ∧ G j r.2) →
      decide (r.1 < r.2.heapEnd) = true → (∃ e, mapGrowthTurn r = .error e ∧ E e) ∨
        ∃ r', mapGrowthTurn r = .ok r' ∧
          (∃ j, r'.1 = j * 0x1000 ∧ k ≤ j ∧ j * 0x1000 ≤ s.heapEnd + increment ∧ G j r'.2) ∧
          (s.heapEnd + increment - r'.1) / 0x1000 < (s.heapEnd + increment - r.1) / 0x1000 := by
    rintro ⟨i, s'⟩ ⟨j, rfl, hkj, hle, hgood⟩ hgo
    have hlt : j * 0x1000 < s.heapEnd + increment := by
      rw [← hheap j s' hgood]
      exact of_decide_eq_true hgo
    have hnext : (j + 1) * 0x1000 ≤ s.heapEnd + increment := by
      rw [hlast] at hlt ⊢
      exact Nat.mul_le_mul_right 0x1000 (Nat.lt_of_mul_lt_mul_right hlt)
    refine (hturn j s' hgood hkj hnext).imp id fun hok => ?_
    obtain ⟨s'', hrun, hgood'⟩ := hok
    refine ⟨_, hrun, ⟨j + 1, rfl, by omega, hnext, hgood'⟩, ?_⟩
    dsimp only
    omega
  have hvariant : (s.heapEnd + increment - k * 0x1000) / 0x1000 < 2 ^ 20 + 1 := by omega
  cases Loop.loop_ends Fault.diverges (fun r : Nat × Boot => (s.heapEnd + increment - r.1) / 0x1000)
    hstep (2 ^ 20 + 1) (k * 0x1000, { s with heapEnd := s.heapEnd + increment })
    ⟨k, rfl, Nat.le_refl _, hend ▸ Nat.le_add_right _ _, hstart⟩ hvariant with
  | inl herr =>
      obtain ⟨e, herr, he⟩ := herr
      have hloop : mapGrowth (2 ^ 20 + 1) (k * 0x1000, { s with heapEnd := s.heapEnd + increment }) =
        .error e := herr
      exact Or.inl ⟨e, by rw [hsbrk, hloop]; rfl, he⟩
  | inr hok =>
      obtain ⟨⟨i, s'⟩, hloop, ⟨j, hi, -, hle, hgood⟩, hexit⟩ := hok
      dsimp only at hi hgood
      subst hi
      have hloop' : mapGrowth (2 ^ 20 + 1) (k * 0x1000, { s with heapEnd := s.heapEnd + increment }) =
        .ok (j * 0x1000, s') := hloop
      have hend' : ¬j * 0x1000 < s'.heapEnd := of_decide_eq_false hexit
      rw [hheap j s' hgood] at hend'
      exact Or.inr ⟨j, s', by rw [hsbrk, hloop']; rfl, hgood,
        Nat.le_antisymm hle (Nat.le_of_not_lt hend')⟩

end Boot

end X32PRos
