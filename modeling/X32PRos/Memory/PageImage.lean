import X32PRos.Memory.Access

/-!
What the bitmap, the directory and the page tables say, whether they are bytes of
one memory or objects of their own, and when they say that the first pages are
mapped to themselves. What a new table and a new page change is stated once, for
both.
-/

namespace X32PRos

open Foundation

namespace Mm

/-- The address of the first page table, two pages above the base of the directory. -/
def firstTable (start : Nat) (memsize : UInt32) : Nat :=
  (start + indexFromBit (memsize / 4).toNat) / 0x1000 * 0x1000 + 0x2000

/-- One table for each 4 MB, of which 4 KB are the table's own. -/
def bootTables (start : Nat) (memsize : UInt32) : Nat :=
  (firstTable start memsize + 0x3FEFFF) / 0x3FF000

def bootEnd (start : Nat) (memsize : UInt32) : Nat :=
  firstTable start memsize + 0x1000 * bootTables start memsize

end Mm

/-- The base of the page directory, from the address of the bitmap on. -/
def directoryBase (start : Nat) (memsize : UInt32) : Nat :=
  (start + indexFromBit (memsize / 4).toNat) / 0x1000 * 0x1000

/-- The addresses that a boot gives out, with as many tables as it needs to map
itself and them. -/
structure BootPlan where
  frames : Nat
  nframes : UInt32
  directory : Nat
  firstTable : Nat
  tables : Nat
  pages : Nat
  low : 0x100000 ≤ frames
  near : directory ≤ frames + indexFromBit nframes.toNat ∧
    frames + indexFromBit nframes.toNat < directory + 0x1000
  aligned : 0x1000 ∣ directory
  behind : firstTable = directory + 0x2000
  fixed : pages * 0x1000 = firstTable + 0x1000 * tables
  least : tables = (firstTable + 0x3FEFFF) / 0x3FF000
  fits : pages * 0x1000 < 2 ^ 32

def bootPlan {start : Nat} {memsize : UInt32} (hlow : 0x100000 ≤ start)
    (hhigh : Mm.bootEnd start memsize < 2 ^ 32) : BootPlan where
  frames := start
  nframes := memsize / 4
  directory := directoryBase start memsize
  firstTable := Mm.firstTable start memsize
  tables := Mm.bootTables start memsize
  pages := Mm.bootEnd start memsize / 0x1000
  low := hlow
  near := by
    unfold directoryBase
    omega
  aligned := ⟨_, Nat.mul_comm _ _⟩
  behind := rfl
  fixed := by
    unfold Mm.bootEnd Mm.firstTable
    omega
  least := rfl
  fits := Nat.lt_of_le_of_lt (Nat.div_mul_le_self _ _) hhigh

namespace BootPlan

variable (p : BootPlan)

def words : Nat := indexFromBit p.nframes.toNat

/-- The frames whose bits lie in front of the directory, or in front of its physical addresses. -/
def cap : Nat :=
  if p.frames < p.directory then 8 * (p.directory - p.frames)
  else 8 * (p.directory + 4096 - p.frames)

def slots : Nat := if p.frames < p.directory then 1024 else (p.frames - p.directory) / 4

/-- A table at `base` meets neither the bitmap nor the directory. -/
structure Room (base : Nat) : Prop where
  aligned : 0x1000 ∣ base
  word : base + 0x1000 ≤ 2 ^ 32
  apart : base + 0x1000 ≤ p.frames ∧ base + 0x1000 ≤ p.directory ∨ p.firstTable ≤ base

structure Places (tab : Nat → Nat) : Prop where
  slot : ∀ t, tab t ≠ 0 → t < p.slots
  room : ∀ t, tab t ≠ 0 → p.Room (tab t)
  own : ∀ t t', tab t ≠ 0 → tab t' = tab t → t' = t

theorem directory_low : 0x100000 ≤ p.directory := by
  have hlow := p.low
  have hnear := p.near
  have haligned := p.aligned
  omega

theorem slots_le : p.slots ≤ 1024 := by
  have hnear := p.near
  unfold slots
  split
  case isTrue => exact Nat.le_refl _
  case isFalse => omega

/-- Where the byte with the bit of a frame lies. -/
theorem bit_apart {f : Nat} (hf : f < p.cap) : p.frames + f / 8 < p.directory ∨
    p.directory + 4 * p.slots ≤ p.frames ∧ p.frames + f / 8 < p.directory + 4096 := by
  unfold cap slots at *
  split at hf
  case isTrue hbefore => omega
  case isFalse hbehind =>
    rw [if_neg hbehind]
    omega

variable {p} {tab : Nat → Nat} {t base : Nat}

theorem Places.update (h : p.Places tab) (ht : t < p.slots) (hbase : base ≠ 0 → p.Room base)
    (hfresh : base ≠ 0 → ∀ t', tab t' ≠ base) : p.Places (Function.update tab t base) := by
  constructor
  case slot =>
    intro t' ht'
    by_cases heq : t' = t
    · rw [heq]
      exact ht
    · rw [Function.update_of_ne heq] at ht'
      exact h.slot t' ht'
  case room =>
    intro t' ht'
    by_cases heq : t' = t
    · rw [heq, Function.update_self] at ht' ⊢
      exact hbase ht'
    · rw [Function.update_of_ne heq] at ht' ⊢
      exact h.room t' ht'
  case own =>
    intro t₁ t₂ ht₁ hsame
    by_cases h₁ : t₁ = t
    · by_cases h₂ : t₂ = t
      · rw [h₁, h₂]
      · rw [h₁, Function.update_self] at ht₁ hsame
        rw [Function.update_of_ne h₂] at hsame
        exact absurd hsame (hfresh ht₁ t₂)
    · rw [Function.update_of_ne h₁] at ht₁ hsame
      by_cases h₂ : t₂ = t
      · rw [h₂, Function.update_self] at hsame
        exact absurd hsame.symm (hfresh (hsame ▸ ht₁) t₁)
      · rw [Function.update_of_ne h₂] at hsame
        exact h.own t₁ t₂ ht₁ hsame

end BootPlan

/-! ### Entries -/

namespace Page

def mapped (k : Nat) : Page := Boot.served zero k

theorem decode_encode (page : Page) : decode page.encode = page := by
  obtain ⟨present, rw, user, accessed, dirty, unused, frame⟩ := page
  have hpresent := present.toNat_lt
  have hrw := rw.toNat_lt
  have huser := user.toNat_lt
  have haccessed := accessed.toNat_lt
  have hdirty := dirty.toNat_lt
  have hunused := unused.isLt
  have hframe := frame.isLt
  have hbit : ∀ {b : Bool} {word i : Nat}, word / 2 ^ i % 2 = b.toNat → word.testBit i = b := by
    intro b word i h
    rw [Nat.testBit_eq_decide_div_mod_eq, h]
    cases b <;> rfl
  unfold decode encode
  dsimp only
  congr 1
  · exact hbit (by omega)
  · exact hbit (by omega)
  · exact hbit (by omega)
  · exact hbit (by omega)
  · exact hbit (by omega)
  · apply BitVec.eq_of_toNat_eq
    rw [BitVec.toNat_ofNat]
    omega
  · apply BitVec.eq_of_toNat_eq
    rw [BitVec.toNat_ofNat]
    omega

theorem encode_decode {word : Nat} (h : word < 2 ^ 32) : (decode word).encode = word := by
  unfold decode encode
  simp only [Nat.toNat_testBit, BitVec.toNat_ofNat]
  omega

theorem mapped_frame {k : Nat} (hk : k < 2 ^ 20) : (mapped k).frame.toNat = k :=
  Nat.mod_eq_of_lt hk

theorem encode_mapped {k : Nat} (hk : k < 2 ^ 20) : (mapped k).encode = 4096 * k + 5 := by
  have hframe := mapped_frame hk
  unfold mapped Boot.served at hframe ⊢
  simp only [encode, zero, hframe]
  exact Nat.add_comm _ _

theorem encode_zero : zero.encode = 0 := by decide

theorem decode_zero : decode 0 = zero := by decide

end Page

/-! ### What the tables say -/

/-- The two halves of the directory, the entries of the table at an address, and the frames. -/
structure View where
  table : Nat → Nat
  physical : Nat → Nat
  entry : Nat → Nat → Page
  inUse : Nat → Bool

def View.translate (v : View) (x : Nat) : Option Nat :=
  let pde := v.physical (x / 0x400000)
  let page := v.entry (pageBase pde) (x / 0x1000 % 1024)
  if pde % 2 = 1 ∧ page.present = true then some (page.frame.toNat * 0x1000 + x % 0x1000) else none

/-- The first `k` pages are mapped to themselves, through the tables `tab`. -/
structure PageImage (p : BootPlan) (tab : Nat → Nat) (k : Nat) (v : View) : Prop where
  room : k ≤ p.cap
  table : ∀ t < p.slots, v.table t = tab t
  physical : ∀ t, tab t ≠ 0 → v.physical t = tab t + 7
  entry : ∀ t, tab t ≠ 0 → ∀ i < 1024,
    v.entry (tab t) i = if 1024 * t + i < k then Page.mapped (1024 * t + i) else Page.zero
  mapped : ∀ j < k, tab (j / 1024) ≠ 0
  inUse : ∀ f < p.cap, v.inUse f = decide (f < k)

structure View.Makes (p : BootPlan) (t base : Nat) (v v' : View) : Prop where
  table : ∀ t' < p.slots, v'.table t' = if t' = t then base else v.table t'
  physical : ∀ t' < 1024, v'.physical t' = if t' = t then base + 7 else v.physical t'
  blank : ∀ i < 1024, v'.entry base i = Page.zero
  entry : ∀ b, p.Room b → b ≠ base → ∀ i < 1024, v'.entry b i = v.entry b i
  inUse : ∀ f < p.cap, v'.inUse f = v.inUse f

structure View.Allocates (p : BootPlan) (base i k : Nat) (v v' : View) : Prop where
  table : ∀ t < p.slots, v'.table t = v.table t
  physical : ∀ t < 1024, v'.physical t = v.physical t
  entry : ∀ b, p.Room b → ∀ i' < 1024,
    v'.entry b i' = if b = base ∧ i' = i then Page.mapped k else v.entry b i'
  inUse : ∀ f < p.cap, v'.inUse f = (decide (f = k) || v.inUse f)

namespace PageImage

variable {p : BootPlan} {tab : Nat → Nat} {k t base : Nat} {v v' : View}

theorem makes (h : PageImage p tab k v) (hplaces : p.Places tab) (hslot : t < p.slots)
    (ht : tab t = 0) (hfresh : base ≠ 0 → ∀ t', tab t' ≠ base) (hv : v.Makes p t base v') :
    PageImage p (Function.update tab t base) k v' := by
  have hold : ∀ t', Function.update tab t base t' ≠ 0 → t' ≠ t → tab t' ≠ 0 := by
    intro t' hne heq
    rwa [Function.update_of_ne heq] at hne
  constructor
  case room => exact h.room
  case table =>
    intro t' ht'
    rw [hv.table t' ht', Function.update_apply, h.table t' ht']
  case physical =>
    intro t' hne
    by_cases heq : t' = t
    · rw [heq, hv.physical t (Nat.lt_of_lt_of_le hslot p.slots_le), if_pos rfl,
        Function.update_self]
    · have hne' := hold t' hne heq
      rw [hv.physical t' (Nat.lt_of_lt_of_le (hplaces.slot t' hne') p.slots_le), if_neg heq,
        Function.update_of_ne heq, h.physical t' hne']
  case entry =>
    intro t' hne i hi
    by_cases heq : t' = t
    · -- the slot had no table, so none of its pages is mapped
      subst heq
      have hpage : ¬1024 * t' + i < k := by
        intro hlt
        have hmapped := h.mapped _ hlt
        rw [show (1024 * t' + i) / 1024 = t' by omega] at hmapped
        exact hmapped ht
      rw [Function.update_self, hv.blank i hi, if_neg hpage]
    · have hne' := hold t' hne heq
      have hbase : tab t' ≠ base := by
        intro hsame
        exact hfresh (hsame ▸ hne') t' hsame
      rw [Function.update_of_ne heq, hv.entry _ (hplaces.room t' hne') hbase i hi,
        h.entry t' hne' i hi]
  case mapped =>
    intro j hj
    have hne := h.mapped j hj
    have heq : j / 1024 ≠ t := by
      intro heq
      rw [heq] at hne
      exact hne ht
    rwa [Function.update_of_ne heq]
  case inUse =>
    intro f hf
    rw [hv.inUse f hf, h.inUse f hf]

theorem allocates (h : PageImage p tab k v) (hplaces : p.Places tab) (hk : k < p.cap)
    (htab : tab (k / 1024) ≠ 0) (hv : v.Allocates p (tab (k / 1024)) (k % 1024) k v') :
    PageImage p tab (k + 1) v' := by
  constructor
  case room => exact hk
  case table =>
    intro t ht
    rw [hv.table t ht, h.table t ht]
  case physical =>
    intro t ht
    rw [hv.physical t (Nat.lt_of_lt_of_le (hplaces.slot t ht) p.slots_le), h.physical t ht]
  case entry =>
    intro t ht i hi
    rw [hv.entry _ (hplaces.room t ht) i hi, h.entry t ht i hi]
    by_cases hk' : 1024 * t + i = k
    · rw [if_pos ⟨by rw [show k / 1024 = t by omega], by omega⟩, if_pos (by omega), hk']
    · have hother : ¬(tab t = tab (k / 1024) ∧ i = k % 1024) := by
        rintro ⟨hsame, hindex⟩
        have hslot := hplaces.own _ _ htab hsame
        omega
      rw [if_neg hother]
      by_cases hlt : 1024 * t + i < k
      · rw [if_pos hlt, if_pos (by omega)]
      · rw [if_neg hlt, if_neg (by omega)]
  case mapped =>
    intro j hj
    by_cases hjk : j = k
    · rw [hjk]
      exact htab
    · exact h.mapped j (by omega)
  case inUse =>
    intro f hf
    rw [hv.inUse f hf, h.inUse f hf, ← Bool.decide_or, decide_eq_decide]
    omega

/-- The next blank page gets the frame of its own number. -/
theorem firstFrame (h : PageImage p tab k v) {a : FrameAllocator}
    (ha : ∀ f ≤ k, a.inUse f = v.inUse f) (hscanned : k < a.scanned) (hk : k < p.cap) :
    a.firstFrame = k := by
  have hne : k ≠ FrameAllocator.noFrame :=
    Nat.ne_of_lt (Nat.lt_of_lt_of_le hscanned a.scanned_le_noFrame)
  refine (a.firstFrame_eq_iff hne).mpr ⟨hscanned, ?_, ?_⟩
  · rw [ha k (Nat.le_refl k), h.inUse k hk, decide_eq_false_iff_not]
    exact Nat.lt_irrefl k
  · intro g hg
    rw [ha g (Nat.le_of_lt hg), h.inUse g (Nat.lt_trans hg hk), decide_eq_true hg]

theorem firstFrame_none (h : PageImage p tab k v) {a : FrameAllocator} (ha : a.inUse = v.inUse)
    (hscanned : a.scanned ≤ k) : a.firstFrame = FrameAllocator.noFrame := by
  refine a.firstFrame_eq_noFrame_iff.mpr fun g hg => ?_
  have hlt : g < k := Nat.lt_of_lt_of_le hg hscanned
  rw [ha, h.inUse g (Nat.lt_of_lt_of_le hlt h.room), decide_eq_true hlt]

/-- The processor finds the mapped pages at themselves, and no other page. -/
theorem translate_eq (h : PageImage p tab k v) (hplaces : p.Places tab) (hk : k ≤ 2 ^ 20)
    (hclean : ∀ t < 1024, tab t = 0 → v.physical t = 0) {x : Nat} (hx : x < 2 ^ 32) :
    v.translate x = if x < k * 0x1000 then some x else none := by
  have hslot : x / 0x400000 = x / 0x1000 / 1024 := by omega
  have hpage : 1024 * (x / 0x1000 / 1024) + x / 0x1000 % 1024 = x / 0x1000 := Nat.div_add_mod _ _
  unfold View.translate
  simp only [hslot]
  by_cases hnone : tab (x / 0x1000 / 1024) = 0
  · have hle : ¬x < k * 0x1000 := by
      intro hlt
      exact h.mapped (x / 0x1000) (by omega) hnone
    rw [hclean _ (by omega) hnone, if_neg (by simp), if_neg hle]
  · have hroom := hplaces.room _ hnone
    have haligned := hroom.aligned
    have hfit := hroom.word
    have hbase : pageBase (tab (x / 0x1000 / 1024) + 7) = tab (x / 0x1000 / 1024) := by
      rw [pageBase_eq (by omega)]
      omega
    rw [h.physical _ hnone, hbase, h.entry _ hnone _ (Nat.mod_lt _ (by decide)), hpage]
    by_cases hlt : x / 0x1000 < k
    · have hpresent : (Page.mapped (x / 0x1000)).present = true := rfl
      rw [if_pos hlt, if_pos ⟨by omega, hpresent⟩, Page.mapped_frame (by omega), if_pos (by omega)]
      congr 1
      omega
    · have habsent : ¬Page.zero.present = true := nofun
      rw [if_neg hlt, if_neg fun hboth => habsent hboth.2, if_neg (by omega)]

end PageImage

end X32PRos
