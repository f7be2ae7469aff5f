import X32PRos.Memory.PagingInstall

/-!
The loop of `paging_install` after the bitmap has met the directory. The tables
that the slots name are then anywhere in memory, and what is read there is
anything; but no write clears bit 0 or bit 3 of a byte, so that what the bitmap
has done to the directory is not undone.
-/

namespace X32PRos

open Foundation

namespace Boot

/-- What a byte keeps when a bit of the bitmap is set or an entry is served: bits 0 and 3,
and a half that is not zero. -/
structure ByteKept (v v' : Nat) : Prop where
  first : v % 2 = 1 → v' % 2 = 1
  fourth : v / 8 % 2 = 1 → v' / 8 % 2 = 1
  low : v % 16 ≠ 0 → v' % 16 ≠ 0
  high : v / 16 ≠ 0 → v' / 16 ≠ 0

theorem ByteKept.refl (v : Nat) : ByteKept v v := ⟨id, id, id, id⟩

def Keeps (m m' : Memory) : Prop := ∀ x, ByteKept (m x).toNat (m' x).toNat

variable {s s' : Boot} {m m' : Memory}

theorem Keeps.refl (m : Memory) : Keeps m m := fun x => ByteKept.refl (m x).toNat

theorem Keeps.load32_ne (h : Keeps m m') {a : Nat} (hne : m.load32 a ≠ 0) : m'.load32 a ≠ 0 := by
  have hbyte : ∀ x, (m x).toNat ≠ 0 → (m' x).toNat ≠ 0 := by
    intro x hx
    have hlow := (h x).low
    have hhigh := (h x).high
    omega
  have h₀ := hbyte a
  have h₁ := hbyte (a + 1)
  have h₂ := hbyte (a + 2)
  have h₃ := hbyte (a + 3)
  unfold Memory.load32 at hne ⊢
  omega

/-! ### Words before addresses are translated -/

theorem physical_unpaged (hoff : s.paging = false) (x : Nat) : s.physical x = some (x % 2 ^ 32) := by
  rw [physical, if_neg (by simp [hoff])]

theorem load32_unpaged (hoff : s.paging = false) {a w : Nat} (h : s.load32 a = .ok w) {i : Nat}
    (hi : i < 4) : w / 2 ^ (8 * i) % 256 = (s.mem ((a + i) % 2 ^ 32)).toNat := by
  unfold Boot.load32 at h
  simp only [physical_unpaged hoff, Except.ok.injEq] at h
  have h₀ := (s.mem (a % 2 ^ 32)).toNat_lt
  have h₁ := (s.mem ((a + 1) % 2 ^ 32)).toNat_lt
  have h₂ := (s.mem ((a + 2) % 2 ^ 32)).toNat_lt
  have h₃ := (s.mem ((a + 3) % 2 ^ 32)).toNat_lt
  have hcases : i = 0 ∨ i = 1 ∨ i = 2 ∨ i = 3 := by omega
  rcases hcases with rfl | rfl | rfl | rfl
  · rw [Nat.add_zero]
    omega
  · omega
  · omega
  · omega

theorem load32_word (hoff : s.paging = false) {a w : Nat} (h : s.load32 a = .ok w) : w < 2 ^ 32 := by
  unfold Boot.load32 at h
  simp only [physical_unpaged hoff, Except.ok.injEq] at h
  have h₀ := (s.mem (a % 2 ^ 32)).toNat_lt
  have h₁ := (s.mem ((a + 1) % 2 ^ 32)).toNat_lt
  have h₂ := (s.mem ((a + 2) % 2 ^ 32)).toNat_lt
  have h₃ := (s.mem ((a + 3) % 2 ^ 32)).toNat_lt
  omega

/-- A word is written that keeps what was at its place before. -/
theorem store32_keeps (hoff : s.paging = false) (hkept : Keeps m s.mem) {a v : Nat}
    (hstore : s.store32 a v = .ok s')
    (hv : ∀ i < 4, ByteKept (m ((a + i) % 2 ^ 32)).toNat (v / 2 ^ (8 * i) % 256)) :
    ∃ mem, s' = { s with mem := mem } ∧ Keeps m mem := by
  unfold Boot.store32 at hstore
  simp only [physical_unpaged hoff, Except.ok.injEq] at hstore
  refine ⟨_, hstore.symm, fun x => ?_⟩
  unfold Memory.store8
  by_cases hx₃ : x = (a + 3) % 2 ^ 32
  · rw [if_pos hx₃, hx₃, UInt8.toNat_ofNat']
    exact hv 3 (by decide)
  rw [if_neg hx₃]
  by_cases hx₂ : x = (a + 2) % 2 ^ 32
  · rw [if_pos hx₂, hx₂, UInt8.toNat_ofNat']
    exact hv 2 (by decide)
  rw [if_neg hx₂]
  by_cases hx₁ : x = (a + 1) % 2 ^ 32
  · rw [if_pos hx₁, hx₁, UInt8.toNat_ofNat']
    exact hv 1 (by decide)
  rw [if_neg hx₁]
  by_cases hx₀ : x = a % 2 ^ 32
  · have hv₀ := hv 0 (by decide)
    rw [Nat.mul_zero, Nat.pow_zero, Nat.div_one, Nat.add_zero] at hv₀
    rw [if_pos hx₀, hx₀, UInt8.toNat_ofNat']
    exact hv₀
  · rw [if_neg hx₀]
    exact hkept x

/-! ### Bits are set, entries are served -/

theorem byteKept_or (w y i : Nat) :
    ByteKept (w / 2 ^ (8 * i) % 256) ((w ||| y) / 2 ^ (8 * i) % 256) := by
  have hor : ∀ q n : Nat, (w ||| y) / 2 ^ q % 2 ^ n = w / 2 ^ q % 2 ^ n ||| y / 2 ^ q % 2 ^ n := by
    intro q n
    rw [Nat.or_div_two_pow, Nat.or_mod_two_pow]
  have hle : ∀ q n : Nat, w / 2 ^ q % 2 ^ n ≤ (w ||| y) / 2 ^ q % 2 ^ n := by
    intro q n
    rw [hor]
    exact Nat.left_le_or
  have h₀ := hle (8 * i) 1
  have h₃ := hle (8 * i + 3) 1
  have hlow := hle (8 * i) 4
  have hhigh := hle (8 * i + 4) 4
  rw [Nat.pow_add, ← Nat.div_div_eq_div_mul, ← Nat.div_div_eq_div_mul] at h₃ hhigh
  generalize w / 2 ^ (8 * i) = b at *
  generalize (w ||| y) / 2 ^ (8 * i) = c at *
  constructor
  case first => omega
  case fourth => omega
  case low => omega
  case high => omega

theorem setFrame_keeps (hoff : s.paging = false) {frameAddr : Nat}
    (h : s.setFrame frameAddr = .ok s') : ∃ mem, s' = { s with mem := mem } ∧ Keeps s.mem mem := by
  unfold Boot.setFrame at h
  obtain ⟨w, hload, hstore⟩ := bind_eq_ok.mp h
  refine store32_keeps hoff (Keeps.refl s.mem) hstore fun i hi => ?_
  rw [← load32_unpaged hoff hload hi]
  exact byteKept_or _ _ i

theorem served_word (w index : Nat) : (served (Page.decode w) index).encode =
    4096 * (index % 2 ^ 20) + w % 4096 / 8 * 8 + 5 := by
  unfold served Page.decode Page.encode
  simp only [Nat.toNat_testBit, BitVec.toNat_ofNat, Bool.toNat_true]
  simp
  omega

/-- An entry without a frame has its twelve low bits and nothing else. Whatever the bitmap
has set in it meanwhile, they are kept. -/
theorem byteKept_served {w w' index : Nat} (hw : w < 4096)
    (hkept : ∀ i < 4, ByteKept (w / 2 ^ (8 * i) % 256) (w' / 2 ^ (8 * i) % 256)) (i : Nat)
    (hi : i < 4) : ByteKept (w / 2 ^ (8 * i) % 256)
      ((served (Page.decode w') index).encode / 2 ^ (8 * i) % 256) := by
  rw [served_word]
  have hcases : i = 0 ∨ i = 1 ∨ i = 2 ∨ i = 3 := by omega
  rcases hcases with rfl | rfl | rfl | rfl
  · obtain ⟨h₀, h₃, hlow, hhigh⟩ := hkept 0 (by decide)
    constructor
    case first => omega
    case fourth => omega
    case low => omega
    case high => omega
  · obtain ⟨h₀, h₃, hlow, hhigh⟩ := hkept 1 (by decide)
    constructor
    case first => omega
    case fourth => omega
    case low => omega
    case high => omega
  · rw [show w / 2 ^ (8 * 2) % 256 = 0 by omega]
    exact ⟨by omega, by omega, by omega, by omega⟩
  · rw [show w / 2 ^ (8 * 3) % 256 = 0 by omega]
    exact ⟨by omega, by omega, by omega, by omega⟩

/-- Whatever the entry is, `alloc_frame` clears no bit but the one for writes. -/
theorem allocFrame_keeps (hoff : s.paging = false) {page : Nat}
    (h : s.allocFrame page 0 0 = .ok s') : ∃ mem, s' = { s with mem := mem } ∧ Keeps s.mem mem := by
  unfold Boot.allocFrame at h
  obtain ⟨w, hload, h⟩ := bind_eq_ok.mp h
  split at h
  case isTrue =>
    cases h
    exact ⟨s.mem, rfl, Keeps.refl _⟩
  case isFalse hblank =>
    obtain ⟨index, -, h⟩ := bind_eq_ok.mp h
    split at h
    case isTrue => cases h
    case isFalse =>
      obtain ⟨s₁, hset, h⟩ := bind_eq_ok.mp h
      obtain ⟨mem₁, rfl, hkept⟩ := setFrame_keeps hoff hset
      obtain ⟨w', hload', hstore⟩ := bind_eq_ok.mp h
      have hlow : w < 4096 := by
        have hword := load32_word hoff hload
        have hframe := congrArg BitVec.toNat (not_not.mp hblank)
        change w / 4096 % 2 ^ 20 = 0 at hframe
        omega
      refine store32_keeps (s := { s with mem := mem₁ }) hoff hkept hstore fun i hi => ?_
      rw [← load32_unpaged hoff hload hi]
      refine byteKept_served hlow (fun i hi => ?_) i hi
      rw [load32_unpaged hoff hload hi, load32_unpaged (s := { s with mem := mem₁ }) hoff hload' hi]
      exact hkept _

/-! ### Lost for good -/

/-- A bit of the bitmap in slot `t`, below the address of a table, or beside the flags of
its physical address. -/
def Spoilt (p : BootPlan) (t : Nat) (m : Memory) : Prop :=
  (m (p.directory + 4 * t)).toNat % 2 = 1 ∨ (m (p.directory + 4 * t + 1)).toNat % 2 = 1 ∨
    (m (p.directory + 4096 + 4 * t)).toNat / 8 % 2 = 1

/-- The loop of `paging_install` with page `k` next, after the bitmap has met slot `t`. -/
structure Lost (p : BootPlan) (t k : Nat) (s : Boot) : Prop where
  unpaged : s.paging = false
  directory : s.kernelDirectory = p.directory
  pointer : ∃ n ≤ (k + 1023) / 1024, s.placementPointer =
    if n = 0 then p.directory + 0x2004 else p.firstTable + 0x1000 * n
  visited : ∀ t', 1024 * t' < k → s.mem.load32 (p.directory + 4 * t') ≠ 0
  index : t < 1024
  named : s.mem.load32 (p.directory + 4 * t) ≠ 0
  spoilt : Spoilt p t s.mem
  page : 1024 * t * 0x1000 < s.placementPointer

variable {p : BootPlan} {t k : Nat}

theorem Spoilt.keeps (h : Spoilt p t m) (hkept : Keeps m m') : Spoilt p t m' :=
  h.imp (hkept _).first (Or.imp (hkept _).first (hkept _).fourth)

/-- The entry is misplaced, or the processor's table is not the kernel's. -/
theorem Spoilt.not_named (h : Spoilt p t m) {base : Nat} (haligned : 0x1000 ∣ base)
    (hslot : m.load32 (p.directory + 4 * t) = base)
    (hphysical : m.load32 (p.directory + 4096 + 4 * t) = base ||| 0x7) : False := by
  rw [or_seven haligned] at hphysical
  have h₀ := (m (p.directory + 4 * t)).toNat_lt
  have h₁ := (m (p.directory + 4 * t + 1)).toNat_lt
  have h₂ := (m (p.directory + 4096 + 4 * t)).toNat_lt
  unfold Memory.load32 at hslot hphysical
  unfold Spoilt at h
  omega

theorem Lost.keeps {mem : Memory} (h : s.Lost p t k) (hkept : Keeps s.mem mem) :
    Lost p t k { s with mem := mem } :=
  ⟨h.unpaged, h.directory, h.pointer, fun t' ht' => hkept.load32_ne (h.visited t' ht'), h.index,
    hkept.load32_ne h.named, h.spoilt.keeps hkept, h.page⟩

theorem Lost.lt_pages (h : s.Lost p t k) (hlt : k * 0x1000 < s.placementPointer) : k < p.pages := by
  obtain ⟨n, hn, hpointer⟩ := h.pointer
  have hbehind := p.behind
  rw [← p.lt_pages_iff k]
  by_cases hzero : n = 0
  · rw [if_pos hzero] at hpointer
    have haligned := p.aligned
    omega
  · rw [if_neg hzero] at hpointer
    omega

/-- A table for the next page is put behind the directory, and takes none of the slots
that are in use. -/
theorem Lost.makeTable (h : s.Lost p t k) (hk : k < p.pages)
    (hnone : s.mem.load32 (p.directory + 4 * (k / 1024)) = 0) :
    ∃ s', s.makeTable (k / 1024) = .ok s' ∧ s'.Lost p t (k + 1) := by
  have hpages := p.pages_le
  have htables := p.tables_le
  have hbehind := p.behind
  have hslot := h.index
  obtain ⟨n, hn, hpointer⟩ := h.pointer
  have hfirst : 1024 * (k / 1024) = k := by
    by_contra hne
    exact h.visited (k / 1024) (by omega) hnone
  have hother : k / 1024 ≠ t := by
    intro heq
    rw [heq] at hnone
    exact h.named hnone
  have hroom := BootPlan.room_of_lt (p := p) (show n < p.tables by omega)
  have hword := hroom.word
  have hreach := reach_of_unpaged h.unpaged
  have hrun := hreach.makeTable (t := k / 1024)
    (BootPlan.nextTable (show n < p.tables by omega) hpointer)
    (by omega) (by rw [slot, h.directory]; omega) (by rw [physicalSlot, h.directory]; omega) hword
    (fun _ _ _ => trivial) (fun _ _ _ => trivial)
  refine ⟨_, hrun, ?_⟩
  have hbyte : ∀ x, x < p.directory + 4096 + 4 * 1024 →
      (x < p.directory + 4 * (k / 1024) ∨ p.directory + 4 * (k / 1024) + 4 ≤ x) →
      (x < p.directory + 4096 + 4 * (k / 1024) ∨ p.directory + 4096 + 4 * (k / 1024) + 4 ≤ x) →
      s.tableMem (k / 1024) (p.firstTable + 0x1000 * n) x = s.mem x := by
    intro x hx hapart hapart'
    apply tableMem_of_apart
    · rw [slot, h.directory]
      exact hapart
    · omega
    · rw [physicalSlot, h.directory]
      exact hapart'
  have hkept : ∀ t' < 1024, t' ≠ k / 1024 →
      (s.tableMem (k / 1024) (p.firstTable + 0x1000 * n)).load32 (p.directory + 4 * t') =
        s.mem.load32 (p.directory + 4 * t') := by
    intro t' ht' hne
    apply Memory.load32_congr
    intro x hle hlt
    exact hbyte x (by omega) (by omega) (by omega)
  constructor
  case unpaged => exact h.unpaged
  case directory => exact h.directory
  case pointer =>
    refine ⟨n + 1, by omega, ?_⟩
    rw [if_neg (Nat.succ_ne_zero n)]
    rfl
  case visited =>
    intro t' ht'
    change (s.tableMem (k / 1024) (p.firstTable + 0x1000 * n)).load32 _ ≠ 0
    by_cases heq : t' = k / 1024
    · rw [heq, tableMem, Memory.load32_store32_of_apart (by rw [physicalSlot, h.directory]; omega),
        load32_fillBytes_other (by omega), slot, h.directory,
        Memory.load32_store32_self (by omega)]
      omega
    · rw [hkept t' (by omega) heq]
      exact h.visited t' (by omega)
  case index => exact hslot
  case named =>
    change (s.tableMem (k / 1024) (p.firstTable + 0x1000 * n)).load32 _ ≠ 0
    rw [hkept t hslot (Ne.symm hother)]
    exact h.named
  case spoilt =>
    have hspoilt := h.spoilt
    unfold Spoilt at hspoilt ⊢
    change (s.tableMem (k / 1024) (p.firstTable + 0x1000 * n) _).toNat % 2 = 1 ∨
      (s.tableMem (k / 1024) (p.firstTable + 0x1000 * n) _).toNat % 2 = 1 ∨
        (s.tableMem (k / 1024) (p.firstTable + 0x1000 * n) _).toNat / 8 % 2 = 1
    rw [hbyte _ (by omega) (by omega) (by omega), hbyte _ (by omega) (by omega) (by omega),
      hbyte _ (by omega) (by omega) (by omega)]
    exact hspoilt
  case page =>
    have hpage := h.page
    change 1024 * t * 0x1000 < p.firstTable + 0x1000 * (n + 1)
    by_cases hzero : n = 0
    · rw [if_pos hzero] at hpointer
      omega
    · rw [if_neg hzero] at hpointer
      omega

/-- Every further turn that comes to an end leaves the table lost. -/
theorem Lost.turn (h : s.Lost p t k) (hk : k < p.pages) {r : Nat × Boot}
    (hturn : mapPlacedTurn (k * 0x1000, s) = .ok r) :
    r.1 = (k + 1) * 0x1000 ∧ r.2.Lost p t (k + 1) := by
  have hpages := p.pages_le
  have htables := p.tables_le
  have hpage : k * 0x1000 / 0x1000 = k := Nat.mul_div_cancel k (by decide)
  have hreach := reach_of_unpaged h.unpaged
  have hslot : s.slot (k / 1024) = p.directory + 4 * (k / 1024) := by rw [slot, h.directory]
  have hlast := BootPlan.table_lt p.tables_pos
  have hbehind := p.behind
  have htop : s.slot (k * 0x1000 / 0x1000 / 1024) + 4 ≤ 2 ^ 32 := by
    rw [hpage, hslot]
    omega
  have hget : ∃ page s₁, s.getPage (k * 0x1000) 1 = .ok (page, s₁) ∧ s₁.Lost p t (k + 1) := by
    by_cases hnone : s.mem.load32 (p.directory + 4 * (k / 1024)) = 0
    · obtain ⟨s₁, hmade, hlost⟩ := h.makeTable hk hnone
      exact ⟨_, s₁, hreach.getPage_of_noTable _ htop (by rw [hpage, hslot]; exact hnone)
        (by rw [hpage]; exact hmade) (reach_of_unpaged hlost.unpaged)
        (hlost.directory.trans h.directory.symm) rfl, hlost⟩
    · obtain ⟨n, hn, hpointer⟩ := h.pointer
      refine ⟨_, s, hreach.getPage_of_table _ 1 htop (by rw [hpage, hslot]) hnone, h.unpaged,
        h.directory, ⟨n, by omega, hpointer⟩, ?_, h.index, h.named, h.spoilt, h.page⟩
      intro t' ht'
      by_cases heq : 1024 * t' = k
      · rw [show t' = k / 1024 by omega]
        exact hnone
      · exact h.visited t' (by omega)
  obtain ⟨page, s₁, hget, hlost⟩ := hget
  have hnext := BootPlan.page_lt hk
  rw [Nat.succ_mul] at hnext
  unfold mapPlacedTurn at hturn
  dsimp only at hturn
  rw [hget, ok_bind] at hturn
  dsimp only at hturn
  obtain ⟨s₂, halloc, hr⟩ := bind_eq_ok.mp hturn
  obtain ⟨mem, rfl, hkept⟩ := allocFrame_keeps hlost.unpaged halloc
  rw [← Except.ok.inj hr, wordAdd_of_lt hnext, ← Nat.succ_mul]
  exact ⟨rfl, hlost.keeps hkept⟩

end Boot

end X32PRos
