import X32PRos.Core.Panic
import X32PRos.Foundation.Bitmap
import X32PRos.Foundation.Run
import Mathlib.Algebra.Group.Nat.Defs
import Mathlib.Logic.Function.Basic

/-!
Physical frames: the bitmap of `core/mem.c` and the two operations that move a
frame between the bitmap and a page entry.
-/

namespace X32PRos

open Foundation

structure Page where
  present : Bool
  rw : Bool
  user : Bool
  accessed : Bool
  dirty : Bool
  unused : BitVec 7
  frame : BitVec 20
deriving DecidableEq, Repr

def Page.zero : Page := ⟨false, false, false, false, false, 0, 0⟩

@[simp] theorem Page.zero_present : Page.zero.present = false := rfl

@[simp] theorem Page.zero_frame : Page.zero.frame = 0 := rfl

structure FrameAllocator where
  frames : Bitmap 32
  nframes : UInt32

def indexFromBit (b : Nat) : Nat := b / 0x20

def offsetFromBit (b : Nat) : Nat := b % 0x20

namespace FrameAllocator

def setFrame (frameAddr : Nat) (a : FrameAllocator) : FrameAllocator :=
  let frame := frameAddr / 0x1000
  { a with frames := a.frames.setBit (indexFromBit frame) (offsetFromBit frame) }

def clearFrame (frameAddr : Nat) (a : FrameAllocator) : FrameAllocator :=
  let frame := frameAddr / 0x1000
  { a with frames := a.frames.clearBit (indexFromBit frame) (offsetFromBit frame) }

/-- The `(uint32)-1` that `first_frame` returns when it finds nothing. -/
def noFrame : Nat := 0xFFFFFFFF

def firstFrame (a : FrameAllocator) : Nat :=
  ((List.range (indexFromBit a.nframes.toNat)).findSome? fun i =>
    if a.frames i ≠ 0xFFFFFFFF#32 then
      (List.range 32).findSome? fun j =>
        if a.frames i &&& (1#32 <<< j) = 0#32 then some (i * 0x20 + j) else none
    else none).getD noFrame

def inUse (a : FrameAllocator) (f : Nat) : Bool := a.frames.bit f

/-- Frames `first_frame` looks at: whole words only. -/
def scanned (a : FrameAllocator) : Nat := indexFromBit a.nframes.toNat * 0x20

@[simp] theorem inUse_setFrame (x : Nat) (a : FrameAllocator) (g : Nat) :
    (a.setFrame x).inUse g = (decide (g = x / 0x1000) || a.inUse g) :=
  Bitmap.bit_setBit (by decide) a.frames (x / 0x1000) g

theorem firstFrame_eq (a : FrameAllocator) :
    a.firstFrame = (a.frames.firstClear (indexFromBit a.nframes.toNat)).getD noFrame := rfl

theorem scanned_le (a : FrameAllocator) : a.scanned ≤ a.nframes.toNat :=
  Nat.div_mul_le_self _ _

theorem scanned_le_noFrame (a : FrameAllocator) : a.scanned ≤ noFrame := by
  have hle := a.scanned_le
  have hlt : a.nframes.toNat < 2 ^ 32 := a.nframes.toNat_lt
  simp only [noFrame]
  omega

theorem firstFrame_eq_iff (a : FrameAllocator) {f : Nat} (hf : f ≠ noFrame) :
    a.firstFrame = f ↔ f < a.scanned ∧ a.inUse f = false ∧ ∀ g < f, a.inUse g = true := by
  have hspec := Bitmap.firstClear_eq_some_iff (by decide) a.frames (indexFromBit a.nframes.toNat) f
  rw [firstFrame_eq]
  cases hc : a.frames.firstClear (indexFromBit a.nframes.toNat) with
  | none =>
      rw [hc] at hspec
      exact ⟨fun h => absurd h.symm hf, fun h => absurd (hspec.mpr h) (by simp)⟩
  | some g =>
      rw [hc, Option.some.injEq] at hspec
      exact hspec

theorem firstFrame_eq_noFrame_iff (a : FrameAllocator) :
    a.firstFrame = noFrame ↔ ∀ g < a.scanned, a.inUse g = true := by
  rw [firstFrame_eq]
  cases hc : a.frames.firstClear (indexFromBit a.nframes.toNat) with
  | none => exact ⟨fun _ => (Bitmap.firstClear_eq_none_iff (by decide) _ _).mp hc, fun _ => rfl⟩
  | some f =>
      obtain ⟨hlt, hclear, -⟩ := (Bitmap.firstClear_eq_some_iff (by decide) _ _ f).mp hc
      have hle := a.scanned_le_noFrame
      constructor
      · intro h
        rw [Option.getD_some] at h
        exact absurd (Nat.lt_of_lt_of_le hlt hle) (by omega)
      · intro h
        have hset : a.frames.bit f = true := h f hlt
        rw [hclear] at hset
        cases hset

end FrameAllocator

def allocFrame (page : Page) (isKernel isWriteable : Int) (a : FrameAllocator) :
    Except Fault (Page × FrameAllocator) :=
  if page.frame ≠ 0 then .ok (page, a)
  else
    let index := a.firstFrame
    if index = FrameAllocator.noFrame then
      .error (.haltAndCatchFire "Failed to allocate a frame: out of frames" "mem.c" 143)
    else
      .ok ({ page with
              present := true
              rw := decide (isWriteable ≠ 0)
              user := !decide (isKernel ≠ 0)
              frame := BitVec.ofNat 20 index },
        a.setFrame (index * 0x1000 % 2 ^ 32))

/-- `clear_frame` is handed the frame number where it expects an address. -/
def freeFrame (page : Page) (a : FrameAllocator) : Page × FrameAllocator :=
  if page.frame = 0 then (page, a)
  else ({ page with frame := 0 }, a.clearFrame page.frame.toNat)

@[simp] theorem freeFrame_frame (page : Page) (a : FrameAllocator) :
    (freeFrame page a).1.frame = 0 := by
  unfold freeFrame
  split
  case isTrue hzero => exact hzero
  case isFalse => rfl

@[simp] theorem freeFrame_present (page : Page) (a : FrameAllocator) :
    (freeFrame page a).1.present = page.present := by
  unfold freeFrame
  split <;> rfl

@[simp] theorem freeFrame_nframes (page : Page) (a : FrameAllocator) :
    (freeFrame page a).2.nframes = a.nframes := by
  unfold freeFrame
  split <;> rfl

theorem allocFrame_of_frame {page : Page} (h : page.frame ≠ 0) (k w : Int) (a : FrameAllocator) :
    allocFrame page k w a = .ok (page, a) :=
  if_pos h

def outOfFrames : Fault :=
  .haltAndCatchFire "Failed to allocate a frame: out of frames" "mem.c" 143

theorem allocFrame_of_none {page : Page} {a : FrameAllocator} (hzero : page.frame = 0)
    (hnone : a.firstFrame = FrameAllocator.noFrame) (k w : Int) :
    allocFrame page k w a = .error outOfFrames := by
  unfold allocFrame
  rw [if_neg (not_not_intro hzero)]
  exact if_pos hnone

theorem allocFrame_of_zero {page : Page} {a : FrameAllocator} (hzero : page.frame = 0)
    (hsome : a.firstFrame ≠ FrameAllocator.noFrame) (k w : Int) :
    allocFrame page k w a = .ok ({ page with
        present := true
        rw := decide (w ≠ 0)
        user := !decide (k ≠ 0)
        frame := BitVec.ofNat 20 a.firstFrame }, a.setFrame (a.firstFrame * 0x1000 % 2 ^ 32)) := by
  unfold allocFrame
  rw [if_neg (not_not_intro hzero)]
  exact if_neg hsome

/-- A completed allocation on an entry without a frame number takes the least
clear frame. -/
theorem allocFrame_ok {page page' : Page} {k w : Int} {a a' : FrameAllocator}
    (hzero : page.frame = 0) (h : allocFrame page k w a = .ok (page', a')) :
    ∃ f, f < a.scanned ∧ a.inUse f = false ∧ (∀ g < f, a.inUse g = true) ∧
      page'.present = true ∧ page'.frame = BitVec.ofNat 20 f ∧
      a' = a.setFrame (f * 0x1000 % 2 ^ 32) := by
  simp only [allocFrame, hzero, ne_eq, not_true_eq_false, ite_false] at h
  split at h
  case isTrue => cases h
  case isFalse hne =>
    obtain ⟨hlt, hclear, hbelow⟩ := (a.firstFrame_eq_iff hne).mp rfl
    cases h
    exact ⟨a.firstFrame, hlt, hclear, hbelow, rfl, rfl, rfl⟩

theorem allocFrame_nframes {page page' : Page} {k w : Int} {a a' : FrameAllocator}
    (h : allocFrame page k w a = .ok (page', a')) : a'.nframes = a.nframes := by
  by_cases hzero : page.frame = 0
  · obtain ⟨f, -, -, -, -, -, rfl⟩ := allocFrame_ok hzero h
    rfl
  · rw [allocFrame_of_frame hzero] at h
    cases h
    rfl

theorem allocFrame_scanned {page page' : Page} {k w : Int} {a a' : FrameAllocator}
    (h : allocFrame page k w a = .ok (page', a')) : a'.scanned = a.scanned := by
  rw [FrameAllocator.scanned, FrameAllocator.scanned, allocFrame_nframes h]

theorem frame_addr_div {f : Nat} (hf : f < 2 ^ 20) : f * 0x1000 % 2 ^ 32 / 0x1000 = f := by
  omega

end X32PRos
