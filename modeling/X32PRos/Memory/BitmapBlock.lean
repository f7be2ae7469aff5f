import X32PRos.Memory.Calls
import X32PRos.Memory.FrameOwnership

/-!
The words of the frame bitmap that `alloc_frame` and `free_frame` touch, against
the block that `paging_install` takes for them: as many bytes as there are words
to scan, and a word has four.
-/

namespace X32PRos

open Foundation

namespace FrameAllocator

def WordInBlock (a : FrameAllocator) (w : Nat) : Prop := 4 * (w + 1) ≤ indexFromBit a.nframes.toNat

variable {a : FrameAllocator}

/-- While no frame of the block is clear, the first word past it is read. -/
theorem mem_firstFrameReads_past (hpos : 0 < indexFromBit a.nframes.toNat)
    (hused : ∀ f, a.WordInBlock (f / 32) → a.inUse f = true) :
    indexFromBit a.nframes.toNat / 4 ∈ a.firstFrameReads := by
  refine mem_firstFrameReads.mpr ⟨by omega, ?_⟩
  intro v hv o ho
  apply hused
  have hdiv : (v * 32 + o) / 32 = v := by omega
  rw [hdiv, WordInBlock]
  omega

end FrameAllocator

namespace Mm

variable {κ : Type}

/-- The numbers of the frames for which a call reads or writes a word of the bitmap;
a word that is scanned goes by its first frame. -/
def touches (m : Mm κ) : FrameOp (κ × Nat) → List Nat
  | .allocFrame page _ _ =>
      if (m.entries page.1 page.2).frame ≠ 0 then []
      else m.allocator.firstFrameReads.map (· * 0x20) ++
        if m.allocator.firstFrame = FrameAllocator.noFrame then []
        else [m.allocator.firstFrame * 0x1000 % 2 ^ 32 / 0x1000]
  | .freeFrame page =>
      if (m.entries page.1 page.2).frame = 0 then []
      else [(m.entries page.1 page.2).frame.toNat / 0x1000]

def wordRegion (m : Mm κ) (number : Nat) : Region := ⟨m.framesAddr + 4 * indexFromBit number, 4⟩

/-- The block that `paging_install` gets from `kmalloc` for the bitmap, and clears. -/
def bitmapBlock (start : Nat) (memsize : UInt32) : Region :=
  ⟨(kmalloc (indexFromBit (memsize / 4).toNat) start).1.address, indexFromBit (memsize / 4).toNat⟩

/-- Every word that a call touches for a frame of the machine lies in the block. -/
def InBlock (block : Region) (m : Mm κ) (op : FrameOp (κ × Nat)) : Prop :=
  ∀ number ∈ m.touches op, number < m.allocator.nframes.toNat →
    ∀ x ∈ m.wordRegion number, x ∈ block

/-- When a call stays in the block: an allocation finds a clear frame there, and what
`free_frame` takes for the number of the frame has its bit there. -/
def FitsBlock (m : Mm κ) : FrameOp (κ × Nat) → Prop
  | .allocFrame page _ _ => (m.entries page.1 page.2).frame ≠ 0 ∨ m.allocator.nframes.toNat < 0x20 ∨
      ∃ f, m.allocator.inUse f = false ∧ m.allocator.WordInBlock (f / 0x20)
  | .freeFrame page => (m.entries page.1 page.2).frame = 0 ∨
      m.allocator.nframes.toNat ≤ (m.entries page.1 page.2).frame.toNat / 0x1000 ∨
      m.allocator.WordInBlock ((m.entries page.1 page.2).frame.toNat / 0x1000 / 0x20)

structure BitmapPlace (start : Nat) (memsize : UInt32) (m : Mm κ) : Prop where
  address : m.framesAddr = start
  nframes : m.allocator.nframes = memsize / 4

variable {m : Mm κ} {start : Nat} {memsize : UInt32}

theorem BitmapPlace.word_subset (h : BitmapPlace start memsize m) (number : Nat) :
    (∀ x ∈ m.wordRegion number, x ∈ bitmapBlock start memsize) ↔
      m.allocator.WordInBlock (number / 0x20) := by
  rw [FrameAllocator.WordInBlock, h.nframes]
  simp only [Region.mem_iff, wordRegion, bitmapBlock, kmalloc, kmallocReal_unaligned, h.address,
    indexFromBit]
  constructor
  · intro hsub
    have hlast := hsub (start + 4 * (number / 0x20) + 3) (by omega)
    omega
  · intro hle x hx
    omega

theorem BitmapPlace.inBlock_iff (h : BitmapPlace start memsize m) (op : FrameOp (κ × Nat)) :
    InBlock (bitmapBlock start memsize) m op ↔ ∀ number ∈ m.touches op,
      number < m.allocator.nframes.toNat → m.allocator.WordInBlock (number / 0x20) := by
  simp only [InBlock, h.word_subset]

theorem free_inBlock_iff (h : BitmapPlace start memsize m) (page : κ × Nat) :
    InBlock (bitmapBlock start memsize) m (.freeFrame page) ↔ FitsBlock m (.freeFrame page) := by
  rw [h.inBlock_iff, FitsBlock, touches]
  by_cases hzero : (m.entries page.1 page.2).frame = 0
  · rw [if_pos hzero]
    exact ⟨fun _ => Or.inl hzero, fun _ _ hmem => absurd hmem List.not_mem_nil⟩
  · rw [if_neg hzero, ← Nat.not_lt]
    constructor
    · intro hin
      exact Or.inr (imp_iff_not_or.mp (hin _ List.mem_cons_self))
    · intro hfits number hmem
      rw [List.mem_singleton.mp hmem]
      exact imp_iff_not_or.mpr (hfits.resolve_left hzero)

/-- An allocation that stays in the block finds a clear frame there. -/
theorem exists_clear_of_inBlock {page : κ × Nat} {k w : Int}
    (hzero : (m.entries page.1 page.2).frame = 0) (hmany : 0x20 ≤ m.allocator.nframes.toNat)
    (hin : ∀ number ∈ m.touches (.allocFrame page k w), number < m.allocator.nframes.toNat →
      m.allocator.WordInBlock (number / 0x20)) :
    ∃ f, m.allocator.inUse f = false ∧ m.allocator.WordInBlock (f / 0x20) := by
  by_contra hnone
  have hused : ∀ f, m.allocator.WordInBlock (f / 32) → m.allocator.inUse f = true := by
    intro f hf
    by_contra hclear
    exact hnone ⟨f, Bool.eq_false_iff.mpr hclear, hf⟩
  have hwords : 0 < indexFromBit m.allocator.nframes.toNat := by
    unfold indexFromBit
    omega
  have hread := FrameAllocator.mem_firstFrameReads_past hwords hused
  have hpast := hin (indexFromBit m.allocator.nframes.toNat / 4 * 0x20) (by
    rw [touches, if_neg (not_not_intro hzero)]
    exact List.mem_append_left _ (List.mem_map_of_mem hread)) (by
    unfold indexFromBit
    omega)
  rw [FrameAllocator.WordInBlock] at hpast
  omega

/-- With a clear frame in the block, no word past it is touched. -/
theorem inBlock_of_clear {page : κ × Nat} {k w : Int}
    (hzero : (m.entries page.1 page.2).frame = 0) {f : Nat} (hclear : m.allocator.inUse f = false)
    (hf : m.allocator.WordInBlock (f / 0x20)) :
    ∀ number ∈ m.touches (.allocFrame page k w), m.allocator.WordInBlock (number / 0x20) := by
  have hbelow : ∀ n, n / 0x20 ≤ f / 0x20 → m.allocator.WordInBlock (n / 0x20) := by
    intro n hn
    exact Nat.le_trans (Nat.mul_le_mul_left 4 (Nat.succ_le_succ hn)) hf
  intro number hmem
  rw [touches, if_neg (not_not_intro hzero)] at hmem
  cases List.mem_append.mp hmem with
  | inl hread =>
      obtain ⟨i, hi, rfl⟩ := List.mem_map.mp hread
      have hle := FrameAllocator.le_of_mem_firstFrameReads hi hclear
      exact hbelow _ (by omega)
  | inr hset =>
      by_cases hnone : m.allocator.firstFrame = FrameAllocator.noFrame
      · rw [if_pos hnone] at hset
        cases hset
      · rw [if_neg hnone] at hset
        have hleast := ((m.allocator.firstFrame_eq_iff hnone).mp rfl).2.2
        have hle : m.allocator.firstFrame ≤ f := by
          by_contra hlt
          have hused := hleast f (by omega)
          rw [hclear] at hused
          cases hused
        rw [List.mem_singleton.mp hset]
        exact hbelow _ (by omega)

theorem touches_of_no_words {page : κ × Nat} {k w : Int}
    (hfew : m.allocator.nframes.toNat < 0x20) : m.touches (.allocFrame page k w) = [] := by
  have hwords : indexFromBit m.allocator.nframes.toNat = 0 := Nat.div_eq_of_lt hfew
  have hnone : m.allocator.firstFrame = FrameAllocator.noFrame := by
    rw [FrameAllocator.firstFrame_eq_noFrame_iff, FrameAllocator.scanned, hwords]
    intro g hg
    omega
  rw [touches, hnone, if_pos rfl, FrameAllocator.firstFrameReads, hwords]
  split <;> rfl

theorem alloc_inBlock_iff (h : BitmapPlace start memsize m) (page : κ × Nat) (k w : Int) :
    InBlock (bitmapBlock start memsize) m (.allocFrame page k w) ↔
      FitsBlock m (.allocFrame page k w) := by
  rw [h.inBlock_iff, FitsBlock]
  by_cases hzero : (m.entries page.1 page.2).frame = 0
  · by_cases hfew : m.allocator.nframes.toNat < 0x20
    · rw [touches_of_no_words hfew]
      exact ⟨fun _ => Or.inr (Or.inl hfew), fun _ _ hmem => absurd hmem List.not_mem_nil⟩
    · constructor
      · intro hin
        exact Or.inr (Or.inr (exists_clear_of_inBlock hzero (Nat.le_of_not_lt hfew) hin))
      · intro hfits number hmem _
        obtain ⟨f, hclear, hf⟩ := (hfits.resolve_left (not_not_intro hzero)).resolve_left hfew
        exact inBlock_of_clear hzero hclear hf number hmem
  · rw [touches, if_pos hzero]
    exact ⟨fun _ => Or.inl hzero, fun _ _ hmem => absurd hmem List.not_mem_nil⟩

/-- Inside the block, an allocation gets its frame whatever lies behind it. -/
theorem firstFrame_of_fitsBlock {m' : Mm κ} {page : κ × Nat} {k w : Int}
    (hn : m'.allocator.nframes = m.allocator.nframes)
    (hblock : ∀ i, m.allocator.WordInBlock i → m'.allocator.frames i = m.allocator.frames i)
    (hzero : (m.entries page.1 page.2).frame = 0) (hfits : FitsBlock m (.allocFrame page k w)) :
    m'.allocator.firstFrame = m.allocator.firstFrame := by
  apply FrameAllocator.firstFrame_of_reads hn
  intro i hi
  rcases hfits with hserved | hfew | ⟨f, hclear, hf⟩
  · exact absurd hzero hserved
  · have hwords : i < m.allocator.nframes.toNat / 0x20 := (FrameAllocator.mem_firstFrameReads.mp hi).1
    omega
  · have hle := FrameAllocator.le_of_mem_firstFrameReads hi hclear
    exact hblock i (Nat.le_trans (Nat.mul_le_mul_left 4 (Nat.succ_le_succ hle)) hf)

/-! ### Every run -/

theorem bitmapPlace_kept [DecidableEq κ] (obj : Nat → Nat → κ) (start : Nat) (memsize : UInt32) :
    Kept obj (BitmapPlace start memsize) := by
  refine ⟨?_, ?_, ?_, ?_, ?_⟩
  · intro m address make h
    rw [getPage_snd]
    split
    case isTrue => exact ⟨by rw [makeTable_framesAddr, h.address],
      by rw [makeTable_allocator, h.nframes]⟩
    case isFalse => exact h
  · intro m m' page k w h hok
    obtain ⟨entry, a, halloc, rfl⟩ := allocFrameAt_ok hok
    exact ⟨h.address, (allocFrame_nframes halloc).trans h.nframes⟩
  · intro m page h
    exact ⟨h.address, (freeFrame_nframes _ _).trans h.nframes⟩
  · intro m h
    exact ⟨h.address, h.nframes⟩
  · intro m e w h
    exact ⟨h.address, h.nframes⟩

theorem pagingSetup_bitmapPlace (start : Nat) (frames : Bitmap 32) (entries : κ → Nat → Page)
    (memsize : UInt32) :
    BitmapPlace start memsize ((initial start frames entries).pagingSetup memsize) := by
  refine ⟨?_, rfl⟩
  simp only [pagingSetup, place, initial, kmalloc, kmallocReal_unaligned]

variable [DecidableEq κ] {obj : Nat → Nat → κ}

/-- In every state, a call stays in the block of the bitmap exactly when there is a clear
frame in it for `alloc_frame`, or the bit that `free_frame` clears lies in it. -/
theorem bitmap_inBlock_iff {frames : Bitmap 32} {entries : κ → Nat → Page}
    (hm : Reached obj ((initial start frames entries).pagingSetup memsize) m)
    (op : FrameOp (κ × Nat)) :
    InBlock (bitmapBlock start memsize) m op ↔ FitsBlock m op := by
  have hplace := hm.keeps (bitmapPlace_kept obj start memsize)
    (pagingSetup_bitmapPlace start frames entries memsize)
  cases op with
  | allocFrame page k w => exact alloc_inBlock_iff hplace page k w
  | freeFrame page => exact free_inBlock_iff hplace page

theorem bitmap_inBlock_boot :
    ∃ boot : Mm Nat, pagingInstall (fun _ base => base) 0x1000 0x20000
        (initial 0x105060 (fun _ => 0) fun _ _ => Page.zero) = .ok boot ∧
      ∀ page, InBlock (bitmapBlock 0x105060 0x20000) boot (.freeFrame page) ↔
        FitsBlock boot (.freeFrame page) := by
  obtain ⟨boot, hboot, -⟩ := pagingInstall_128MB fun _ base => base
  exact ⟨boot, hboot, fun page => bitmap_inBlock_iff (pagingInstall_reached hboot) (.freeFrame page)⟩

/-- With 2 MB the block has 16 bytes, four words, and the boot uses more frames than
these have bits: the next allocation reads on. -/
theorem bitmap_past_block :
    ∃ boot : Mm (Nat × Nat), pagingInstall Prod.mk 0x1000 0x800
        (initial 0x105060 (fun _ => 0) fun _ _ => Page.zero) = .ok boot ∧
      ¬ InBlock (bitmapBlock 0x105060 0x800) boot (.allocFrame ((0, boot.tables 0), 1000) 0 0) := by
  have hobj : SlotsApart (Prod.mk : Nat → Nat → Nat × Nat) :=
    fun _ _ _ _ heq => congrArg Prod.fst heq
  obtain ⟨boot, hboot, hw, hle⟩ := pagingInstall_returns (L := 0x108) (S := 1)
    (Prod.mk : Nat → Nat → Nat × Nat) (fun _ => 0) (fun _ _ => Page.zero) 0x800
    (show 0x100000 ≤ 0x105060 by decide) (by decide) (by decide) (by decide) (by
      rw [FrameAllocator.clearBelow_of_clear fun f _ =>
        pagingSetup_inUse 0x105060 (fun _ _ => Page.zero) 0x800 f, pagingSetup_scanned]
      decide) (show 0x108 < 0x1000 by decide)
  have hlayout : ∃ k, boot.placementPointer = k * 0x1000 ∧ BootLayout k boot ∧
      (True → IdentityUpTo Prod.mk k boot) :=
    pagingInstall_layout (fun _ => hobj) (fun _ => rfl) (by decide) hboot hw
  obtain ⟨k, hk, hlow, hid⟩ := hlayout
  have hpointer := hlow.low
  have hplace := (pagingInstall_reached hboot).keeps (bitmapPlace_kept Prod.mk 0x105060 0x800)
    (pagingSetup_bitmapPlace 0x105060 _ _ 0x800)
  have hcount : boot.allocator.nframes.toNat = 512 := by
    rw [hplace.nframes]
    decide
  have htable : boot.tables 0 ≠ 0 := hlow.tables.table_ne (by omega)
  have hblank : (boot.entries (0, boot.tables 0) 1000).frame = 0 :=
    (hid trivial).blank 1000 (by omega) htable
  refine ⟨boot, hboot, ?_⟩
  intro hin
  have hfits := (alloc_inBlock_iff hplace ((0, boot.tables 0), 1000) 0 0).mp hin
  obtain ⟨f, hclear, hf⟩ := (hfits.resolve_left (not_not_intro hblank)).resolve_left (by omega)
  rw [(hid trivial).inUse f, decide_eq_false_iff_not] at hclear
  rw [FrameAllocator.WordInBlock, hcount, indexFromBit] at hf
  omega

end Mm

end X32PRos
