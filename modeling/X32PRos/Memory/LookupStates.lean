import X32PRos.Memory.Lookup

/-!
The states in which `get_page` is asked: those of the boot loop, and those that
calls of `get_page` and turns of the loop of `sbrk` lead to after `heap_install`.
-/

namespace X32PRos

open Foundation

namespace Boot

/-- The page at `i` has its slot and its bit, if there is a frame for it, apart from
everything else. -/
structure PageApart (s : Boot) (i : Nat) : Prop where
  slot : s.InFront (slotOf i)
  bit : i / 0x1000 < 32 * indexFromBit s.nframes.toNat →
    s.frames + i / 0x1000 / 8 < s.kernelDirectory ∨
      s.kernelDirectory ≤ s.frames ∧ s.frames + i / 0x1000 / 8 < s.kernelDirectory + 4096

/-- The states of `paging_install`, with the counter of its loop. -/
inductive BootReached (start : Nat) (memsize : UInt32) (mem : Memory) : Nat → Boot → Prop
  | setup : BootReached start memsize mem 0 ((initial start mem).pagingSetup memsize)
  | turn {i : Nat} {s : Boot} {r : Nat × Boot} : BootReached start memsize mem i s →
      i < s.placementPointer → s.PageApart i → mapPlacedTurn (i, s) = .ok r →
        BootReached start memsize mem r.1 r.2
  | switch {i : Nat} {s : Boot} : BootReached start memsize mem i s → s.paging = false →
      ¬i < s.placementPointer → BootReached start memsize mem i s.switchPageDirectory

/-- The states after `heap_install`, with the counter of the loop of `sbrk`, between the turns
of which `get_page` may be called for any address. -/
inductive HeapReached (start : Nat) (memsize : UInt32) (mem : Memory) : Nat → Boot → Prop
  | install {i : Nat} {s : Boot} : BootReached start memsize mem i s → s.paging = true →
      HeapReached start memsize mem s.heapInstall.heapEnd s.heapInstall
  | getPage {i address : Nat} {make : Int} {s : Boot} {r : Nat × Boot} :
      HeapReached start memsize mem i s → address < 2 ^ 32 →
        (make ≠ 0 → s.tableWord (slotOf address) = 0 → s.InFront (slotOf address) ∧ s.TableFits) →
          s.getPage address make = .ok r → HeapReached start memsize mem i r.2
  | sbrk {i increment : Nat} {s : Boot} : HeapReached start memsize mem i s → ¬i < s.heapEnd →
      0x1000 ∣ increment → s.heapEnd + increment < 2 ^ 32 →
        HeapReached start memsize mem s.heapEnd { s with heapEnd := wordAdd s.heapEnd increment }
  | turn {i : Nat} {s : Boot} {r : Nat × Boot} : HeapReached start memsize mem i s →
      i < s.heapEnd → s.PageApart i →
        (s.tableWord (slotOf i) = 0 → growthTable s.placementPointer + 0x1000 ≤ s.frames ∧
          growthTable s.placementPointer + 0x1000 ≤ s.kernelDirectory) →
          mapGrowthTurn (i, s) = .ok r → HeapReached start memsize mem r.1 r.2

structure HeapTables (p : BootPlan) (tab : Nat → Nat) (k : Nat) (s : Boot) : Prop where
  grown : s.Grown p tab k
  clean : ∀ t < 1024, p.slots ≤ t → s.view.physical t = 0
  word : s.placementPointer < 2 ^ 32
  made : ∀ b ∈ s.made, p.Room b ∧ (b + 0x1000 ≤ s.placementPointer ∨ p.firstTable ≤ b)

variable {p : BootPlan} {tab : Nat → Nat} {mem₀ : Memory} {k i address : Nat} {s s' : Boot}

theorem nextTable_of_dvd (haligned : 0x1000 ∣ s.placementPointer) (hword : s.placementPointer < 2 ^ 32) :
    s.nextTable = s.placementPointer := by
  rw [nextTable, pageBase_of_dvd hword haligned, ite_self]

/-! ### While the boot goes on -/

theorem BootAt.nextTable (h : s.BootAt p mem₀ ((k + 1023) / 1024) k) (hk : k ≤ p.pages) :
    (k + 1023) / 1024 ≤ p.tables ∧ s.placementPointer < 2 ^ 32 ∧
      s.nextTable = p.firstTable + 0x1000 * ((k + 1023) / 1024) := by
  have hcount : (k + 1023) / 1024 ≤ p.tables := by
    rw [← p.count_eq]
    exact Nat.div_le_div_right (Nat.add_le_add_right hk 1023)
  have hbehind := p.behind
  have haligned := p.firstTable_aligned
  have hpointer := h.pointer
  refine ⟨hcount, ?_⟩
  by_cases hzero : (k + 1023) / 1024 = 0
  · have hlast := BootPlan.table_lt p.tables_pos
    rw [if_pos hzero] at hpointer
    have hword : s.placementPointer < 2 ^ 32 := by omega
    refine ⟨hword, ?_⟩
    rw [Boot.nextTable, pageBase_eq hword, if_neg (by omega)]
    omega
  · rw [if_neg hzero] at hpointer
    have hword : s.placementPointer < 2 ^ 32 := by
      refine Nat.lt_of_le_of_lt ?_ p.fits
      rw [hpointer, p.fixed]
      omega
    exact ⟨hword, (nextTable_of_dvd (by omega) hword).trans hpointer⟩

theorem HeapTables.withHeapEnd (h : s.HeapTables p tab k) (heapEnd : Nat) :
    HeapTables p tab k { s with heapEnd := heapEnd } :=
  ⟨⟨⟨⟨h.grown.mapped.placed.frames, h.grown.mapped.placed.nframes, h.grown.mapped.placed.directory,
    h.grown.mapped.placed.cr3⟩, h.grown.mapped.places, h.grown.mapped.image, h.grown.mapped.word,
    h.grown.mapped.low, h.grown.mapped.tables⟩, h.grown.paged, h.grown.aligned, h.grown.fresh⟩,
    h.clean, h.word, h.made⟩

/-- A table below the bitmap and the directory. -/
theorem room_of_le {base : Nat} (haligned : 0x1000 ∣ base) (hframes : base + 0x1000 ≤ p.frames)
    (hdirectory : base + 0x1000 ≤ p.directory) : p.Room base := by
  have hlast := BootPlan.table_lt p.tables_pos
  have hbehind := p.behind
  exact ⟨haligned, by omega, Or.inl ⟨hframes, hdirectory⟩⟩

theorem getPage_of_make {make : Int} (h : make ≠ 0) : s.getPage address make = s.getPage address 1 := by
  unfold Boot.getPage
  simp only [if_pos h, if_pos (show (1 : Int) ≠ 0 by decide)]

theorem HeapTables.getPage (h : s.HeapTables p tab k) (haddress : address < 2 ^ 32) {make : Int}
    (hfits : make ≠ 0 → s.tableWord (slotOf address) = 0 → s.InFront (slotOf address) ∧ s.TableFits)
    {r : Nat × Boot}
    (hrun : s.getPage address make = .ok r) :
    ∃ tab', r.2.HeapTables p tab' k ∧ r.2.heapEnd = s.heapEnd := by
  have hsame : r.2 = s → ∃ tab', r.2.HeapTables p tab' k ∧ r.2.heapEnd = s.heapEnd := by
    intro heq
    rw [heq]
    exact ⟨tab, h, rfl⟩
  by_cases hword : s.tableWord (slotOf address) = 0
  · by_cases hmake : make = 0
    · rw [hmake, h.grown.mapped.getPage_of_zero haddress hword, Except.ok.injEq] at hrun
      exact hsame (by rw [← hrun])
    · obtain ⟨hfront, hroom⟩ := hfits hmake hword
      have hslot := (h.grown.mapped.placed.inFront_iff (slotOf_lt haddress)).mp hfront
      have hnone := h.grown.mapped.tab_eq_zero hword
      obtain ⟨hframes, hdirectory⟩ := hroom h.grown.paged
      rw [nextTable_of_dvd h.grown.aligned h.word] at hframes hdirectory
      rw [h.grown.mapped.placed.frames] at hframes
      rw [h.grown.mapped.placed.directory] at hdirectory
      have hroom := room_of_le h.grown.aligned hframes hdirectory
      obtain ⟨s', hrun', hgrown, hpointer, hmade, hphysical, hend⟩ :=
        h.grown.newTable hslot hnone hframes hdirectory
      rw [getPage_of_make hmake, hrun', Except.ok.injEq] at hrun
      rw [← hrun]
      refine ⟨_, ⟨hgrown, ?_, ?_, ?_⟩, hend⟩
      · intro t ht hle
        rw [hphysical t ht (by unfold slotOf at hslot; omega)]
        exact h.clean t ht hle
      · have hlast := BootPlan.table_lt p.tables_pos
        have hbehind := p.behind
        dsimp only
        omega
      · intro b hb
        dsimp only at hb ⊢
        rw [hmade] at hb
        rw [hpointer]
        cases List.mem_cons.mp hb with
        | inl heq =>
            rw [heq]
            exact ⟨hroom, Or.inl (Nat.le_refl _)⟩
        | inr hb =>
            exact (h.made b hb).imp id (Or.imp (fun hle => Nat.le_trans hle (Nat.le_add_right _ _)) id)
  · rw [h.grown.mapped.getPage_of_word haddress make hword, Except.ok.injEq] at hrun
    exact hsame (by rw [← hrun])

theorem HeapTables.pageMapped (h : s.HeapTables p tab k) (hslot : k / 1024 < p.slots)
    (hroom : tab (k / 1024) = 0 → s.TableRoom p) (hs : s.PageMapped p tab k s') :
    s'.HeapTables p (withTable tab (k / 1024) s.placementPointer) (k + 1) := by
  have hlast := BootPlan.table_lt p.tables_pos
  have hbehind := p.behind
  have haligned := h.grown.aligned
  have hpointer := hs.pointer
  have hmade := hs.made
  constructor
  case grown => exact hs.grown
  case clean =>
    intro t ht hle
    rw [hs.physical t ht (by omega)]
    exact h.clean t ht hle
  case word =>
    by_cases hnone : tab (k / 1024) = 0
    · obtain ⟨hframes, hdirectory⟩ := hroom hnone
      rw [if_pos hnone] at hpointer
      omega
    · rw [hpointer, if_neg hnone]
      exact h.word
  case made =>
    by_cases hnone : tab (k / 1024) = 0
    · obtain ⟨hframes, hdirectory⟩ := hroom hnone
      rw [if_pos hnone] at hpointer hmade
      unfold growthTable at hframes hdirectory hpointer
      intro b hb
      rw [hmade] at hb
      by_cases hzero : s.placementPointer = 0
      · rw [if_pos hzero] at hframes hdirectory hpointer hb
        cases List.mem_append.mp hb with
        | inl hnew =>
            have hcases : b = 0x1000 ∨ b = 0 := by simpa using hnew
            exact ⟨room_of_le (by omega) (by omega) (by omega), Or.inl (by omega)⟩
        | inr hold => exact (h.made b hold).imp id (Or.imp (by omega) id)
      · rw [if_neg hzero] at hframes hdirectory hpointer hb
        cases List.mem_append.mp hb with
        | inl hnew =>
            have heq : b = s.placementPointer := by simpa using hnew
            exact ⟨room_of_le (by omega) (by omega) (by omega), Or.inl (by omega)⟩
        | inr hold => exact (h.made b hold).imp id (Or.imp (by omega) id)
    · rw [if_neg hnone] at hpointer hmade
      intro b hb
      rw [hmade] at hb
      rw [hpointer]
      exact h.made b hb

/-- The slot and the bit of a page that lies apart. -/
theorem Placed.bit_of_pageApart (h : s.Placed p) (hapart : s.PageApart (k * 0x1000))
    (hk : k < 2 ^ 20) : k / 1024 < p.slots ∧ (k < p.words * 32 → k < p.cap) := by
  have hslot := hapart.slot
  have hbit := hapart.bit
  have hpage : k * 0x1000 / 0x1000 = k := Nat.mul_div_cancel k (by decide)
  unfold slotOf at hslot
  rw [hpage] at hslot hbit
  rw [h.frames, h.nframes, h.directory] at hbit
  refine ⟨(h.inFront_iff (by omega)).mp hslot, fun hscan => ?_⟩
  unfold BootPlan.words at hscan
  have hbit := hbit (by omega)
  unfold BootPlan.cap
  split <;> omega

theorem Placed.pageApart (h : s.Placed p) (hk : k < 2 ^ 20) (hslot : k / 1024 < p.slots)
    (hbit : k < p.words * 32 → k < p.cap) : s.PageApart (k * 0x1000) := by
  have hpage : k * 0x1000 / 0x1000 = k := Nat.mul_div_cancel k (by decide)
  constructor
  case slot =>
    unfold slotOf
    rw [hpage]
    exact (h.inFront_iff (by omega)).mpr hslot
  case bit =>
    rw [hpage, h.frames, h.nframes, h.directory]
    intro hscan
    have hcap := hbit (by unfold BootPlan.words; omega)
    unfold BootPlan.cap at hcap
    split at hcap <;> omega

/-! ### Runs -/

structure Growing (p : BootPlan) (i : Nat) (s : Boot) : Prop where
  tables : ∃ tab, s.HeapTables p tab (i / 0x1000)
  page : 0x1000 ∣ i
  range : i ≤ s.heapEnd
  heapEnd : 0x1000 ∣ s.heapEnd
  word : s.heapEnd < 2 ^ 32

theorem Growing.turn (h : s.Growing p i) (hlt : i < s.heapEnd) (hapart : s.PageApart i)
    (hroom : s.tableWord (slotOf i) = 0 → growthTable s.placementPointer + 0x1000 ≤ s.frames ∧
      growthTable s.placementPointer + 0x1000 ≤ s.kernelDirectory) {r : Nat × Boot}
    (hrun : mapGrowthTurn (i, s) = .ok r) : r.2.Growing p r.1 := by
  obtain ⟨⟨tab, htables⟩, ⟨k, rfl⟩, hrange, hdvd, hword⟩ := h
  rw [Nat.mul_comm] at hlt hapart hroom hrun
  rw [Nat.mul_div_cancel_left k (by decide)] at htables
  have hnext : (k + 1) * 0x1000 ≤ s.heapEnd := by omega
  have hpage : slotOf (k * 0x1000) = k / 1024 := by
    unfold slotOf
    rw [Nat.mul_div_cancel k (by decide)]
  have hplaced := htables.grown.mapped.placed
  obtain ⟨hslot, hbit⟩ := hplaced.bit_of_pageApart hapart (by omega)
  have htable : tab (k / 1024) = 0 → s.TableRoom p := by
    intro hnone
    rw [hpage, htables.grown.mapped.tableWord_eq hslot, hplaced.frames, hplaced.directory] at hroom
    obtain ⟨hframes, hdirectory⟩ := hroom hnone
    exact ⟨hframes, hdirectory⟩
  cases htables.grown.turn (Nat.lt_of_le_of_lt hnext hword) hslot htable hbit with
  | inl herr =>
      rw [hrun] at herr
      cases herr.2
  | inr hok =>
      obtain ⟨-, s', hrun', hs'⟩ := hok
      rw [hrun, Except.ok.injEq] at hrun'
      rw [hrun']
      refine ⟨⟨withTable tab (k / 1024) s.placementPointer, ?_⟩, Nat.dvd_mul_left _ _, ?_, ?_, ?_⟩
      · dsimp only
        rw [Nat.mul_div_cancel _ (by decide)]
        exact htables.pageMapped hslot htable hs'
      · rw [hs'.heapEnd]
        exact hnext
      · rw [hs'.heapEnd]
        exact hdvd
      · rw [hs'.heapEnd]
        exact hword

end Boot

section Boot

variable {start : Nat} {memsize : UInt32} (hlow : 0x100000 ≤ start)
  (hhigh : Mm.bootEnd start memsize < 2 ^ 32) {mem : Memory} {i address : Nat} {s : Boot}

theorem Boot.BootReached.state (h : BootReached start memsize mem i s) :
    ∃ k ≤ (bootPlan hlow hhigh).pages, i = k * 0x1000 ∧
      (s.BootAt (bootPlan hlow hhigh) ((initial start mem).pagingSetup memsize).mem
        ((k + 1023) / 1024) k ∨ k = (bootPlan hlow hhigh).pages ∧
          s.Booted (bootPlan hlow hhigh) ((initial start mem).pagingSetup memsize).mem) := by
  induction h with
  | setup =>
      exact ⟨0, Nat.zero_le _, rfl, Or.inl (bootAt_setup hlow hhigh rfl rfl rfl)⟩
  | @turn i s r _ hlt hapart hrun ih =>
      obtain ⟨k, hle, rfl, hs⟩ := ih
      cases hs with
      | inr hs =>
          have hpointer := hs.2.pointer
          rw [hs.1] at hlt
          exact absurd hlt (by rw [hpointer]; exact Nat.lt_irrefl _)
      | inl hs =>
          have hk := hs.lt_pages_iff.mp hlt
          have hnext := BootPlan.page_lt hk
          obtain ⟨hslot, hbit⟩ := hs.mapped.placed.bit_of_pageApart hapart (by omega)
          by_cases hscan : k < (bootPlan hlow hhigh).words * 32
          · obtain ⟨s', hrun', hs'⟩ := hs.turn hk ⟨hbit hscan, hslot, hscan⟩
            rw [hrun, Except.ok.injEq] at hrun'
            rw [hrun']
            exact ⟨k + 1, hk, rfl, Or.inl hs'⟩
          · rw [hs.turn_none hk hslot (Nat.le_of_not_lt hscan)] at hrun
            cases hrun
  | @switch i s _ hoff hend ih =>
      obtain ⟨k, hle, rfl, hs⟩ := ih
      cases hs with
      | inr hs =>
          rw [hs.2.paged] at hoff
          cases hoff
      | inl hs =>
          rw [hs.lt_pages_iff] at hend
          have hk := Nat.le_antisymm hle (Nat.le_of_not_lt hend)
          rw [hk, (bootPlan hlow hhigh).count_eq] at hs
          exact ⟨k, hle, rfl, Or.inr ⟨hk, hs.booted⟩⟩

include hlow hhigh in
/-- A boot with its bits apart goes through such states. -/
theorem Boot.pagingInstall_reached {fuel : Nat} {boot : Boot} (hapart : BitsApart start memsize)
    (hrun : (initial start mem).pagingInstall fuel memsize = .ok boot) :
    ∃ i, BootReached start memsize mem i boot := by
  unfold Boot.pagingInstall at hrun
  cases hloop : mapPlaced fuel (0, (initial start mem).pagingSetup memsize) with
  | error e =>
      rw [hloop] at hrun
      cases hrun
  | ok r =>
      rw [hloop, Except.ok.injEq] at hrun
      obtain ⟨⟨hs, hoff⟩, hexit⟩ := Loop.loop_invariant
        (I := fun r => BootReached start memsize mem r.1 r.2 ∧ r.2.paging = false)
        (by
          rintro ⟨i, s⟩ r' ⟨hs, hoff⟩ hgo hturn
          have hlt : i < s.placementPointer := of_decide_eq_true (Except.ok.inj hgo)
          obtain ⟨k, hle, rfl, hstate⟩ := hs.state hlow hhigh
          cases hstate with
          | inr hstate =>
              rw [hstate.2.paged] at hoff
              cases hoff
          | inl hstate =>
              have hk := hstate.lt_pages_iff.mp hlt
              have hnext := BootPlan.page_lt hk
              obtain ⟨hbit, hslot⟩ := bits_of_bitsApart hlow hhigh hapart hk
              have hpage := hstate.mapped.placed.pageApart (by omega) hslot fun _ => hbit
              have hs' := hs.turn hlt hpage hturn
              refine ⟨hs', ?_⟩
              by_cases hscan : k < (bootPlan hlow hhigh).words * 32
              · obtain ⟨s', hok, hstate'⟩ := hstate.turn hk ⟨hbit, hslot, hscan⟩
                rw [hok, Except.ok.injEq] at hturn
                rw [← hturn]
                exact hstate'.unpaged
              · rw [hstate.turn_none hk hslot (Nat.le_of_not_lt hscan)] at hturn
                cases hturn)
        fuel _ _ ⟨BootReached.setup, rfl⟩ hloop
      rw [← hrun]
      exact ⟨_, hs.switch hoff (of_decide_eq_false (Except.ok.inj hexit))⟩

include hlow hhigh in
/-- So does a heap after calls of `sbrk` that fit. -/
theorem Boot.HeapOf.reached {fuel : Nat} {boot : Boot} {increments : List Nat}
    (h : HeapOf start memsize boot increments s) (hapart : BitsApart start memsize)
    (hrun : (initial start mem).pagingInstall fuel memsize = .ok boot) :
    HeapReached start memsize mem s.heapEnd s := by
  have hbooted := pagingInstall_returned hlow hhigh rfl rfl rfl hapart hrun
  induction h with
  | install =>
      obtain ⟨i, hs⟩ := pagingInstall_reached hlow hhigh hapart hrun
      exact HeapReached.install hs hbooted.paged
  | @sbrk s s' increments increment address hs hfits hok ih =>
      obtain ⟨k, hmapped, -⟩ := hs.mapped hlow hhigh hbooted
      have hdvd := sbrk_dvd hok
      have hstart := ih.sbrk (Nat.lt_irrefl _) hdvd hfits.range
      rw [wordAdd_of_lt hfits.range, hmapped.heapEnd] at hstart
      cases sbrk_of_turns (E := fun _ => True)
        (G := fun j s₁ => s₁.HeapPages (bootPlan hlow hhigh) boot.made j ∧
          HeapReached start memsize mem (j * 0x1000) s₁ ∧ s₁.heapEnd = s.heapEnd + increment)
        hmapped.heapEnd hdvd hfits.range
        ⟨hmapped.pages.withHeapEnd _, by rw [hmapped.heapEnd]; exact hstart, rfl⟩
        (fun _ _ hs => hs.2.2) (by
          rintro j s₁ ⟨hpages, hreached, hend⟩ - hnext
          have hlt : j * 0x1000 < s.heapEnd + increment :=
            Nat.lt_of_lt_of_le (Nat.mul_lt_mul_of_pos_right (Nat.lt_succ_self j) (by decide)) hnext
          have hrange := hfits.range
          have hadmits := hfits.admits hlow hhigh hlt hpages.scanned
          have hplaced := hpages.grown.mapped.placed
          have hpage : slotOf (j * 0x1000) = j / 1024 := by
            unfold slotOf
            rw [Nat.mul_div_cancel j (by decide)]
          refine (hpages.turn hadmits (Nat.lt_of_le_of_lt hnext hrange)).imp
            (fun herr => ⟨_, herr.2, trivial⟩) fun hok => ?_
          obtain ⟨s₂, hrun₂, hpages₂, hend₂⟩ := hok.2
          refine ⟨s₂, hrun₂, hpages₂, ?_, hend₂.trans hend⟩
          refine hreached.turn (by rw [hend]; exact hlt)
            (hplaced.pageApart (by omega) hadmits.slot hadmits.bit) ?_ hrun₂
          rw [hpage, hpages.grown.mapped.tableWord_eq hadmits.slot, hplaced.frames, hplaced.directory]
          intro hnone
          obtain ⟨hframes, hdirectory⟩ := hpages.tableRoom hadmits hnone
          exact ⟨hframes, hdirectory⟩) with
      | inl herr =>
          obtain ⟨e, herr, -⟩ := herr
          rw [hok] at herr
          cases herr
      | inr hret =>
          obtain ⟨k', s₁, hret, ⟨-, hreached, hend⟩, hk'⟩ := hret
          rw [hok, Except.ok.injEq, Prod.mk.injEq] at hret
          rw [hret.2, hend, ← hk']
          exact hreached

end Boot

end X32PRos
