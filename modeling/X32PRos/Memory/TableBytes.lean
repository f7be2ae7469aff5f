import X32PRos.Memory.PageImage

/-!
Page tables, directory and bitmap as bytes of one memory: what a new table and a
new page write, and that neither is among the entries that the processor walks
for the pages mapped so far.
-/

namespace X32PRos

open Foundation

namespace Boot

def view (s : Boot) : View where
  table t := s.mem.load32 (s.slot t)
  physical t := s.mem.load32 (s.physicalSlot t)
  entry b i := Page.decode (s.mem.load32 (b + 4 * i))
  inUse := s.allocator.inUse

structure Placed (p : BootPlan) (s : Boot) : Prop where
  frames : s.frames = p.frames
  nframes : s.nframes = p.nframes
  directory : s.kernelDirectory = p.directory
  cr3 : s.paging = true → s.cr3 = p.directory + 4096

def top (s : Boot) (k : Nat) : Nat := if s.paging then k * 0x1000 else 2 ^ 32

/-- The first `k` pages are mapped to themselves, and all that is needed to map more is
within reach. -/
structure Mapped (p : BootPlan) (tab : Nat → Nat) (k : Nat) (s : Boot) : Prop where
  placed : s.Placed p
  places : p.Places tab
  image : PageImage p tab k s.view
  word : k ≤ 2 ^ 20
  low : p.firstTable ≤ s.top k
  tables : ∀ t, tab t ≠ 0 → tab t + 0x1000 ≤ s.top k

/-- The entries that the processor walks for the pages below `k`. -/
def Walked (p : BootPlan) (tab : Nat → Nat) (k x : Nat) : Prop :=
  ∃ j < k, (p.directory + 4096 + 4 * (j / 1024) ≤ x ∧ x < p.directory + 4096 + 4 * (j / 1024) + 4) ∨
    (tab (j / 1024) + 4 * (j % 1024) ≤ x ∧ x < tab (j / 1024) + 4 * (j % 1024) + 4)

variable {p : BootPlan} {tab : Nat → Nat} {k t base : Nat} {s : Boot}

/-! ### The walk -/

theorem Mapped.pde (h : s.Mapped p tab k) {j : Nat} (hj : tab (j / 1024) ≠ 0) :
    s.mem.load32 (p.directory + 4096 + 4 * (j / 1024)) = tab (j / 1024) + 7 := by
  rw [← h.placed.directory]
  exact h.image.physical _ hj

theorem Mapped.pte (h : s.Mapped p tab k) {j : Nat} (hj : tab (j / 1024) ≠ 0) :
    s.mem.load32 (tab (j / 1024) + 4 * (j % 1024)) = if j < k then 4096 * j + 5 else 0 := by
  have hentry := h.image.entry _ hj (j % 1024) (Nat.mod_lt j (by decide))
  have hword := h.word
  rw [Nat.div_add_mod] at hentry
  rw [← Page.encode_decode (Memory.load32_lt s.mem _)]
  refine (congrArg Page.encode hentry).trans ?_
  by_cases hlt : j < k
  · rw [if_pos hlt, if_pos hlt, Page.encode_mapped (by omega)]
  · rw [if_neg hlt, if_neg hlt, Page.encode_zero]

theorem directory_base (p : BootPlan) : pageBase (p.directory + 4096) = p.directory + 4096 := by
  have haligned := p.aligned
  have hbehind := p.behind
  have hfixed := p.fixed
  have hfits := p.fits
  exact pageBase_of_dvd (by omega) (by omega)

/-- The processor finds a mapped page at itself, as long as the entries on the way are kept. -/
theorem Mapped.translateFrom (h : s.Mapped p tab k) {mem : Memory}
    (hmem : ∀ x, Walked p tab k x → mem x = s.mem x) {x : Nat} (hx : x < k * 0x1000) :
    translateFrom mem (p.directory + 4096) x = some x := by
  have hword := h.word
  have hj : x / 0x1000 < k := by omega
  have hne := h.image.mapped _ hj
  have hroom := h.places.room _ hne
  have haligned := hroom.aligned
  have hfit := hroom.word
  have hslot : x / 0x400000 = x / 0x1000 / 1024 := by omega
  have hpde : mem.load32 (p.directory + 4096 + 4 * (x / 0x1000 / 1024)) =
      tab (x / 0x1000 / 1024) + 7 := by
    rw [← h.pde hne]
    exact Memory.load32_congr fun y hle hlt => hmem y ⟨_, hj, Or.inl ⟨hle, hlt⟩⟩
  have hpte : mem.load32 (tab (x / 0x1000 / 1024) + 4 * (x / 0x1000 % 1024)) =
      4096 * (x / 0x1000) + 5 := by
    have hentry := h.pte hne
    rw [if_pos hj] at hentry
    rw [← hentry]
    exact Memory.load32_congr fun y hle hlt => hmem y ⟨_, hj, Or.inr ⟨hle, hlt⟩⟩
  have hbase : pageBase (tab (x / 0x1000 / 1024) + 7) = tab (x / 0x1000 / 1024) := by
    rw [pageBase_eq (by omega)]
    omega
  unfold X32PRos.translateFrom
  simp only [directory_base, hslot, hpde, hbase, hpte]
  rw [if_pos (by omega), pageBase_eq (by omega)]
  congr 1
  omega

theorem Placed.translate_view (h : s.Placed p) (x : Nat) :
    X32PRos.translateFrom s.mem (p.directory + 4096) x = s.view.translate x := by
  have hpresent : ∀ w, (Page.decode w).present = true ↔ w % 2 = 1 := by
    intro w
    change w.testBit 0 = true ↔ _
    rw [Nat.testBit_zero, decide_eq_true_iff]
  have hframe : ∀ w < 2 ^ 32, pageBase w = (Page.decode w).frame.toNat * 0x1000 := by
    intro w hw
    rw [pageBase_eq hw]
    change _ = w / 4096 % 2 ^ 20 * 0x1000
    omega
  unfold X32PRos.translateFrom View.translate view physicalSlot
  simp only [directory_base, h.directory, hpresent, ← hframe _ (Memory.load32_lt s.mem _)]

/-- The processor finds the mapped pages at themselves, and no other page. -/
theorem Mapped.translateFrom_eq (h : s.Mapped p tab k)
    (hclean : ∀ t < 1024, tab t = 0 → s.view.physical t = 0) {x : Nat} (hx : x < 2 ^ 32) :
    X32PRos.translateFrom s.mem (p.directory + 4096) x = if x < k * 0x1000 then some x else none := by
  rw [h.placed.translate_view]
  exact h.image.translate_eq h.places h.word hclean hx

theorem Mapped.reach (h : s.Mapped p tab k) : s.Reach (s.top k) fun x => ¬Walked p tab k x := by
  have hword := h.word
  intro mem hmem x hx
  unfold top at hx
  unfold physical
  cases hpaging : s.paging with
  | false =>
      rw [if_neg (by simp [hpaging])] at hx ⊢
      rw [Nat.mod_eq_of_lt hx]
  | true =>
      rw [if_pos hpaging] at hx
      rw [if_pos rfl, Nat.mod_eq_of_lt (by omega), h.placed.cr3 hpaging]
      exact h.translateFrom (fun y hy => hmem y (not_not_intro hy)) hx

/-! ### What is written -/

theorem load32_fillBytes_zero {a b n : Nat} {m : Memory} (hlo : b ≤ a) (hhi : a + 4 ≤ b + n) :
    (fillBytes b 0 n m).load32 a = 0 := by
  apply Memory.load32_of_zero
  intro x hle hlt
  rw [fillBytes_eq, if_pos (by omega)]

theorem load32_fillBytes_other {a b n : Nat} {val : UInt8} {m : Memory}
    (h : a + 4 ≤ b ∨ b + n ≤ a) : (fillBytes b val n m).load32 a = m.load32 a := by
  apply Memory.load32_congr
  intro x hle hlt
  rw [fillBytes_eq, if_neg (by omega)]

/-- What a table writes: its slot, its bytes, its physical address. -/
theorem tableMem_of_apart {x : Nat} (hslot : x < s.slot t ∨ s.slot t + 4 ≤ x)
    (htable : x < base ∨ base + 0x1000 ≤ x)
    (hphysical : x < s.physicalSlot t ∨ s.physicalSlot t + 4 ≤ x) :
    s.tableMem t base x = s.mem x := by
  rw [tableMem, Memory.store32_of_outside hphysical, fillBytes_eq, if_neg (by omega),
    Memory.store32_of_outside hslot]

theorem tableMem_load32 {a : Nat} (hslot : a + 4 ≤ s.slot t ∨ s.slot t + 4 ≤ a)
    (htable : a + 4 ≤ base ∨ base + 0x1000 ≤ a)
    (hphysical : a + 4 ≤ s.physicalSlot t ∨ s.physicalSlot t + 4 ≤ a) :
    (s.tableMem t base).load32 a = s.mem.load32 a := by
  apply Memory.load32_congr
  intro x hle hlt
  exact tableMem_of_apart (by omega) (by omega) (by omega)

def frameMem (s : Boot) (page k : Nat) : Memory :=
  (s.mem.setBit s.frames k).store32 page (4096 * k + 5)

def frameAt (s : Boot) (page k : Nat) : Boot := { s with mem := s.frameMem page k }

theorem frameMem_of_apart {page x : Nat} (hbit : x ≠ s.frames + k / 8)
    (hpage : x < page ∨ page + 4 ≤ x) : s.frameMem page k x = s.mem x := by
  rw [frameMem, Memory.store32_of_outside hpage, Memory.setBit_of_ne hbit]

theorem frameMem_load32 {page a : Nat} (hbit : s.frames + k / 8 < a ∨ a + 4 ≤ s.frames + k / 8)
    (hpage : a + 4 ≤ page ∨ page + 4 ≤ a) :
    (s.frameMem page k).load32 a = s.mem.load32 a := by
  apply Memory.load32_congr
  intro x hle hlt
  exact frameMem_of_apart (by omega) (by omega)

theorem inUse_byte (s : Boot) (f : Nat) :
    s.allocator.inUse f = (s.mem (s.frames + f / 8)).toNat.testBit (f % 8) :=
  Memory.words_bit f

/-! ### What the tables say then -/

theorem Placed.makes (h : s.Placed p) (next : Nat) (ht : t < p.slots) (hroom : p.Room base) :
    View.Makes p t base s.view (s.tableAt t base next).view := by
  have hslots := p.slots_le
  have hbehind := p.behind
  have hword := hroom.word
  have hapart := hroom.apart
  have hdirectory := h.directory
  have hframes := h.frames
  have hfixed := p.fixed
  have hfits := p.fits
  constructor
  case table =>
    intro t' ht'
    change (s.tableMem t base).load32 (s.slot t') = _
    by_cases heq : t' = t
    · rw [heq, if_pos rfl, tableMem, Memory.load32_store32_of_apart (by unfold slot physicalSlot; omega),
        load32_fillBytes_other (by unfold slot; omega), Memory.load32_store32_self (by omega)]
    · rw [if_neg heq]
      apply tableMem_load32
      · unfold slot
        omega
      · unfold slot
        omega
      · unfold slot physicalSlot
        omega
  case physical =>
    intro t' ht'
    change (s.tableMem t base).load32 (s.physicalSlot t') = _
    by_cases heq : t' = t
    · have hseven := or_seven hroom.aligned
      rw [heq, if_pos rfl, tableMem, hseven, Memory.load32_store32_self (by omega)]
    · rw [if_neg heq]
      apply tableMem_load32
      · unfold slot physicalSlot
        omega
      · unfold physicalSlot
        omega
      · unfold physicalSlot
        omega
  case blank =>
    intro i hi
    change Page.decode ((s.tableMem t base).load32 (base + 4 * i)) = _
    rw [tableMem, Memory.load32_store32_of_apart (by unfold physicalSlot; omega),
      load32_fillBytes_zero (by omega) (by omega), Page.decode_zero]
  case entry =>
    intro b hb hne i hi
    have hb' := hb.apart
    have haligned := hb.aligned
    have haligned' := hroom.aligned
    change Page.decode ((s.tableMem t base).load32 (b + 4 * i)) = _
    rw [tableMem_load32]
    · rfl
    · unfold slot
      omega
    · omega
    · unfold physicalSlot
      omega
  case inUse =>
    intro f hf
    have hbit := p.bit_apart hf
    change (s.tableAt t base next).allocator.inUse f = s.allocator.inUse f
    rw [inUse_byte, inUse_byte]
    congr 2
    apply tableMem_of_apart
    · unfold slot tableAt
      dsimp only
      omega
    · unfold tableAt
      dsimp only
      omega
    · unfold physicalSlot tableAt
      dsimp only
      omega

theorem Placed.allocates (h : s.Placed p) {i : Nat} (hi : i < 1024) (hk : k < p.cap)
    (hk20 : k < 2 ^ 20) (hroom : p.Room base) :
    View.Allocates p base i k s.view (s.frameAt (base + 4 * i) k).view := by
  have hslots := p.slots_le
  have hbehind := p.behind
  have hapart := hroom.apart
  have hdirectory := h.directory
  have hframes := h.frames
  have hbit := p.bit_apart hk
  constructor
  case table =>
    intro t ht
    change (s.frameMem (base + 4 * i) k).load32 (s.slot t) = s.mem.load32 (s.slot t)
    unfold slot
    apply frameMem_load32
    · omega
    · omega
  case physical =>
    intro t ht
    change (s.frameMem (base + 4 * i) k).load32 (s.physicalSlot t) = s.mem.load32 (s.physicalSlot t)
    unfold physicalSlot
    apply frameMem_load32
    · omega
    · omega
  case entry =>
    intro b hb i' hi'
    have hb' := hb.apart
    have haligned := hb.aligned
    have haligned' := hroom.aligned
    change Page.decode ((s.frameMem (base + 4 * i) k).load32 (b + 4 * i')) = _
    by_cases heq : b = base ∧ i' = i
    · rw [if_pos heq, heq.1, heq.2, frameMem, Memory.load32_store32_self (by omega),
        ← Page.encode_mapped hk20, Page.decode_encode]
    · rw [if_neg heq, frameMem_load32]
      · rfl
      · omega
      · omega
  case inUse =>
    intro f hf
    have hbit' := p.bit_apart hf
    change (s.frameAt (base + 4 * i) k).allocator.inUse f = (decide (f = k) || s.allocator.inUse f)
    rw [← s.inUse_setBit k f, inUse_byte, inUse_byte]
    congr 2
    apply Memory.store32_of_outside
    change s.frames + f / 8 < base + 4 * i ∨ base + 4 * i + 4 ≤ s.frames + f / 8
    omega

end Boot

end X32PRos
