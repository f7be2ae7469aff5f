import X32PRos.Memory.FrameSearch
import X32PRos.Memory.OneMemory

/-!
Accesses through the page tables that are being written. As long as the tables
map the addresses in question to themselves, and what is written is not among
the entries that the processor walks for them, the functions of `core/mem.c` work
on memory as if no address were translated.
-/

namespace X32PRos

open Foundation

namespace Boot

/-- Linear addresses below `top` are physical ones, whatever is written to `free` bytes. -/
def Reach (s : Boot) (top : Nat) (free : Nat → Prop) : Prop :=
  ∀ mem : Memory, (∀ x, ¬free x → mem x = s.mem x) → ∀ x < top,
    { s with mem := mem }.physical x = some x

variable {s s' : Boot} {top : Nat} {free : Nat → Prop}

/-- Before CR0 is written there are no tables to walk. -/
theorem reach_of_unpaged (h : s.paging = false) : s.Reach (2 ^ 32) fun _ => True := by
  intro mem _ x hx
  unfold physical
  rw [if_neg (by simp [h]), Nat.mod_eq_of_lt hx]

theorem Reach.congr (h : s.Reach top free) (hpaging : s'.paging = s.paging) (hcr3 : s'.cr3 = s.cr3)
    (hmem : ∀ x, ¬free x → s'.mem x = s.mem x) : s'.Reach top free := by
  intro mem hsame x hx
  have hphysical := h mem (fun y hy => (hsame y hy).trans (hmem y hy)) x hx
  unfold physical at hphysical ⊢
  rw [hpaging, hcr3]
  exact hphysical

theorem Reach.physical_eq (h : s.Reach top free) {x : Nat} (hx : x < top) : s.physical x = some x :=
  h s.mem (fun _ _ => rfl) x hx

/-! ### Words and ranges -/

theorem Reach.load32 (h : s.Reach top free) {a : Nat} (ha : a + 4 ≤ top) :
    s.load32 a = .ok (s.mem.load32 a) := by
  unfold Boot.load32
  rw [h.physical_eq (by omega), h.physical_eq (by omega), h.physical_eq (by omega),
    h.physical_eq (by omega)]
  rfl

theorem store8_four (m : Memory) (a v : Nat) :
    (((m.store8 a (UInt8.ofNat v)).store8 (a + 1) (UInt8.ofNat (v / 2 ^ 8))).store8 (a + 2)
      (UInt8.ofNat (v / 2 ^ 16))).store8 (a + 3) (UInt8.ofNat (v / 2 ^ 24)) = m.store32 a v := by
  funext x
  unfold Memory.store8 Memory.store32
  by_cases hin : a ≤ x ∧ x < a + 4
  · rw [if_pos hin]
    have hbyte : x = a ∨ x = a + 1 ∨ x = a + 2 ∨ x = a + 3 := by omega
    rcases hbyte with rfl | rfl | rfl | rfl
    · simp
    · simp
    · simp
    · simp
  · rw [if_neg hin, if_neg (by omega), if_neg (by omega), if_neg (by omega), if_neg (by omega)]

theorem Reach.store32 (h : s.Reach top free) {a : Nat} (ha : a + 4 ≤ top) (v : Nat) :
    s.store32 a v = .ok { s with mem := s.mem.store32 a v } := by
  unfold Boot.store32
  rw [h.physical_eq (by omega), h.physical_eq (by omega), h.physical_eq (by omega),
    h.physical_eq (by omega), ← store8_four]

theorem Reach.fill (h : s.Reach top free) {b n : Nat} (val : UInt8) (hb : b + n ≤ top)
    (hfree : ∀ x, b ≤ x → x < b + n → free x) :
    s.fill b val n = .ok { s with mem := fillBytes b val n s.mem } := by
  induction n with
  | zero => rfl
  | succ n ih =>
      have hkept : Reach { s with mem := fillBytes b val n s.mem } top free := by
        refine h.congr rfl rfl fun x hx => ?_
        dsimp only
        rw [fillBytes_eq, if_neg fun hin => hx (hfree x hin.1 (by omega))]
      rw [Boot.fill, ih (by omega) fun x hle hlt => hfree x hle (by omega), ok_bind, store8,
        hkept.physical_eq (by omega)]
      rfl

/-! ### The bitmap -/

theorem scanFrames_of_reads {n : Nat} : ∀ i : Nat,
    (∀ w ∈ FrameAllocator.scanReads s.allocator.frames (List.range' i n),
      s.load32 (s.frames + 4 * w) = .ok (s.mem.load32 (s.frames + 4 * w))) →
    s.scanFrames i n = .ok (((List.range' i n).findSome? fun i =>
      if s.allocator.frames i ≠ 0xFFFFFFFF#32 then
        (List.range 32).findSome? fun j =>
          if s.allocator.frames i &&& (1#32 <<< j) = 0#32 then some (i * 0x20 + j) else none
      else none).getD FrameAllocator.noFrame) := by
  induction n with
  | zero =>
      intro i _
      rfl
  | succ n ih =>
      intro i hreads
      rw [List.range'_succ, FrameAllocator.scanReads] at hreads
      have hword : BitVec.ofNat 32 (s.mem.load32 (s.frames + 4 * i)) = s.allocator.frames i := rfl
      rw [scanFrames, hreads i List.mem_cons_self, ok_bind, hword, List.range'_succ,
        List.findSome?_cons]
      by_cases hfull : s.allocator.frames i = 0xFFFFFFFF#32
      · rw [if_pos hfull] at hreads
        rw [if_neg (not_not_intro hfull), if_neg (not_not_intro hfull)]
        exact ih (i + 1) fun w hw => hreads w (List.mem_cons_of_mem i hw)
      · rw [if_pos hfull, if_pos hfull]
        -- a word that is not full has a clear bit
        have hclear : ∃ o < 32, s.allocator.inUse (i * 32 + o) = false := by
          by_contra hnone
          apply hfull
          refine (Bitmap.word_full_iff (by decide) s.allocator.frames i).mpr fun o ho => ?_
          by_contra hbit
          exact hnone ⟨o, ho, Bool.eq_false_iff.mpr hbit⟩
        cases hsome : (List.range 32).findSome? fun j =>
          if s.allocator.frames i &&& (1#32 <<< j) = 0#32 then some (i * 0x20 + j) else none with
        | some f => rfl
        | none =>
            obtain ⟨o, ho, hbit⟩ := hclear
            have hmask := (Bitmap.and_mask_eq_zero (by decide) s.allocator.frames i ho).mpr hbit
            have hskip := List.findSome?_eq_none_iff.mp hsome o (List.mem_range.mpr ho)
            rw [if_pos hmask] at hskip
            cases hskip

theorem firstFrame_of_reads (h : ∀ w ∈ s.allocator.firstFrameReads,
    s.load32 (s.frames + 4 * w) = .ok (s.mem.load32 (s.frames + 4 * w))) :
    s.firstFrame = .ok s.allocator.firstFrame := by
  rw [FrameAllocator.firstFrameReads, List.range_eq_range'] at h
  have hscan := scanFrames_of_reads 0 h
  rw [← List.range_eq_range'] at hscan
  exact hscan

/-- As far as the first clear frame the bitmap is read where it lies. -/
theorem Reach.firstFrame (h : s.Reach top free) {f : Nat} (hf : s.allocator.firstFrame = f)
    (hne : f ≠ FrameAllocator.noFrame) (htop : s.frames + 4 * (f / 32) + 4 ≤ top) :
    s.firstFrame = .ok f := by
  have hclear := ((s.allocator.firstFrame_eq_iff hne).mp hf).2.1
  rw [firstFrame_of_reads fun w hw => ?_, hf]
  have hle := FrameAllocator.le_of_mem_firstFrameReads hw hclear
  exact h.load32 (by omega)

theorem Reach.firstFrame_none (h : s.Reach top free)
    (hnone : s.allocator.firstFrame = FrameAllocator.noFrame)
    (htop : s.frames + 4 * indexFromBit s.nframes.toNat ≤ top) :
    s.firstFrame = .ok FrameAllocator.noFrame := by
  rw [firstFrame_of_reads fun w hw => ?_, hnone]
  have hlt : w < indexFromBit s.nframes.toNat := (FrameAllocator.mem_firstFrameReads.mp hw).1
  exact h.load32 (by omega)

theorem Reach.setFrame (h : s.Reach top free) {f : Nat} (hf : f < 2 ^ 20)
    (htop : s.frames + 4 * (f / 32) + 4 ≤ top) :
    s.setFrame (f * 0x1000 % 2 ^ 32) = .ok { s with mem := s.mem.setBit s.frames f } := by
  unfold Boot.setFrame
  dsimp only
  rw [frame_addr_div hf, indexFromBit, offsetFromBit, h.load32 htop, ok_bind, h.store32 htop,
    Memory.store32_or]

theorem inUse_setBit (s : Boot) (f g : Nat) :
    (allocator { s with mem := s.mem.setBit s.frames f }).inUse g =
      (decide (g = f) || s.allocator.inUse g) :=
  Memory.words_setBit f g

/-! ### `alloc_frame` -/

def served (page : Page) (index : Nat) : Page :=
  { page with
    present := true
    rw := decide ((0 : Int) ≠ 0)
    user := !decide ((0 : Int) ≠ 0)
    frame := BitVec.ofNat 20 index }

/-- One bit of the bitmap and one entry are written. -/
theorem Reach.allocFrame (h : s.Reach top free) (page : Nat) {f : Nat} (hpage : page + 4 ≤ top)
    (hblank : (Page.decode (s.mem.load32 page)).frame = 0) (hf : s.allocator.firstFrame = f)
    (hlt : f < 2 ^ 20) (htop : s.frames + 4 * (f / 32) + 4 ≤ top) (hbit : free (s.frames + f / 8)) :
    s.allocFrame page 0 0 = .ok { s with
      mem := (s.mem.setBit s.frames f).store32 page
        (served (Page.decode ((s.mem.setBit s.frames f).load32 page)) f).encode } := by
  have hne : f ≠ FrameAllocator.noFrame := by
    unfold FrameAllocator.noFrame
    omega
  have hkept : Reach { s with mem := s.mem.setBit s.frames f } top free := by
    refine h.congr rfl rfl fun x hx => Memory.setBit_of_ne fun heq => ?_
    rw [heq] at hx
    exact hx hbit
  rw [Boot.allocFrame, h.load32 hpage, ok_bind, if_neg (not_not_intro hblank),
    h.firstFrame hf hne htop, ok_bind, if_neg hne, h.setFrame hlt htop, ok_bind,
    hkept.load32 hpage, ok_bind, hkept.store32 hpage]
  rfl

theorem Reach.allocFrame_none (h : s.Reach top free) {page : Nat} (hpage : page + 4 ≤ top)
    (hblank : (Page.decode (s.mem.load32 page)).frame = 0)
    (hnone : s.allocator.firstFrame = FrameAllocator.noFrame)
    (htop : s.frames + 4 * indexFromBit s.nframes.toNat ≤ top) :
    s.allocFrame page 0 0 = .error outOfFrames := by
  rw [Boot.allocFrame, h.load32 hpage, ok_bind, if_neg (not_not_intro hblank),
    h.firstFrame_none hnone htop, ok_bind, if_pos rfl]

/-! ### `get_page` -/

def tableMem (s : Boot) (t base : Nat) : Memory :=
  (fillBytes base 0 0x1000 (s.mem.store32 (s.slot t) base)).store32 (s.physicalSlot t) (base ||| 0x7)

def tableAt (s : Boot) (t base next : Nat) : Boot :=
  { s with placementPointer := next, made := base :: s.made, mem := s.tableMem t base }

theorem Reach.makeTable (h : s.Reach top free) {t base next : Nat}
    (hplace : kvmallocP pageTableSize s.placementPointer = (⟨base, some base⟩, next))
    (hword : base < 2 ^ 32) (hslot : s.slot t + 4 ≤ top) (hphysical : s.physicalSlot t + 4 ≤ top)
    (htable : base + 0x1000 ≤ top) (hfree : ∀ x, base ≤ x → x < base + 0x1000 → free x)
    (hentry : ∀ x, s.slot t ≤ x → x < s.slot t + 4 → free x) :
    s.makeTable t = .ok (s.tableAt t base next) := by
  unfold slot at hslot hentry
  unfold physicalSlot at hphysical
  have hstart : Reach { s with placementPointer := next, made := base :: s.made } top free :=
    h.congr rfl rfl fun _ _ => rfl
  have hnamed : Reach { s with
      placementPointer := next
      made := base :: s.made
      mem := s.mem.store32 (s.kernelDirectory + 4 * t) base } top free := by
    refine h.congr rfl rfl fun x hx => Memory.store32_of_outside ?_
    by_contra hin
    exact hx (hentry x (by omega) (by omega))
  have hcleared : Reach { s with
      placementPointer := next
      made := base :: s.made
      mem := fillBytes base 0 0x1000 (s.mem.store32 (s.kernelDirectory + 4 * t) base) } top free := by
    refine hnamed.congr rfl rfl fun x hx => ?_
    dsimp only
    rw [fillBytes_eq, if_neg fun hin => hx (hfree x hin.1 hin.2)]
  unfold Boot.makeTable slot physicalSlot
  rw [hplace]
  dsimp only [Option.getD_some]
  rw [hstart.store32 hslot, ok_bind]
  dsimp only
  rw [hnamed.load32 hslot, ok_bind]
  dsimp only
  rw [Memory.load32_store32_self hword, hnamed.fill 0 htable hfree, ok_bind]
  exact hcleared.store32 hphysical _

theorem Reach.getPage_of_table (h : s.Reach top free) (address : Nat) {base : Nat} (make : Int)
    (hslot : s.slot (address / 0x1000 / 1024) + 4 ≤ top)
    (htable : s.mem.load32 (s.slot (address / 0x1000 / 1024)) = base) (hne : base ≠ 0) :
    s.getPage address make = .ok (wordAdd base (4 * (address / 0x1000 % 1024)), s) := by
  unfold Boot.getPage
  dsimp only
  rw [h.load32 hslot, ok_bind, htable, if_pos hne]

theorem Reach.getPage_of_noTable (h : s.Reach top free) {free' : Nat → Prop} (address : Nat)
    {base : Nat}
    (hslot : s.slot (address / 0x1000 / 1024) + 4 ≤ top)
    (htable : s.mem.load32 (s.slot (address / 0x1000 / 1024)) = 0)
    (hmade : s.makeTable (address / 0x1000 / 1024) = .ok s') (hreach : s'.Reach top free')
    (hdirectory : s'.kernelDirectory = s.kernelDirectory)
    (hnew : s'.mem.load32 (s.slot (address / 0x1000 / 1024)) = base) :
    s.getPage address 1 = .ok (wordAdd base (4 * (address / 0x1000 % 1024)), s') := by
  have hslot' : s'.slot (address / 0x1000 / 1024) = s.slot (address / 0x1000 / 1024) := by
    rw [slot, hdirectory, slot]
  unfold Boot.getPage
  dsimp only
  rw [h.load32 hslot, ok_bind, htable, if_neg (by simp), if_pos (by decide), hmade, ok_bind, hslot',
    hreach.load32 hslot, ok_bind, hnew]

end Boot

end X32PRos
