import Mathlib.Data.Nat.Bitwise
import Mathlib.Algebra.BigOperators.Group.List.Basic
import X32PRos.Foundation.Region

/-!
The placement allocator of `core/mem.c`: one pointer, moved by every request,
and moved to a page boundary first when an aligned block is asked for.

A 32-bit word is a natural number; the pointer is reduced modulo `2 ^ 32` where
the code adds to it.
-/

namespace X32PRos

open Foundation

/-- `x & 0xFFFFF000`: the address of the page that holds `x`. -/
def pageBase (x : Nat) : Nat := x &&& 0xFFFFF000

theorem pageBase_eq {x : Nat} (hx : x < 2 ^ 32) : pageBase x = x / 0x1000 * 0x1000 := by
  have hmask : (0xFFFFF000 : Nat) = (2 ^ 20 - 1) <<< 12 := by decide
  apply Nat.eq_of_testBit_eq
  intro i
  rw [pageBase, Nat.testBit_and, hmask, Nat.testBit_shiftLeft, Nat.testBit_two_pow_sub_one,
    show (0x1000 : Nat) = 2 ^ 12 by decide, Nat.testBit_mul_two_pow, Nat.testBit_div_two_pow]
  by_cases hi : 12 ≤ i
  · by_cases hlt : i < 32
    · simp [hi, show i - 12 < 20 by omega, Nat.sub_add_cancel hi]
    · have hbit : x.testBit i = false :=
        Nat.testBit_lt_two_pow (lt_of_lt_of_le hx (Nat.pow_le_pow_right (by decide) (by omega)))
      simp [hbit, Nat.sub_add_cancel hi]
  · simp [hi]

theorem pageBase_of_dvd {x : Nat} (hx : x < 2 ^ 32) (h : 0x1000 ∣ x) : pageBase x = x := by
  rw [pageBase_eq hx]
  omega

/-- The low bits of the address of a page are free for flags. -/
theorem or_seven {t : Nat} (h : 0x1000 ∣ t) : t ||| 0x7 = t + 7 := by
  obtain ⟨c, rfl⟩ := h
  have hshift : 0x1000 * c = (0x200 * c) <<< 3 := by
    rw [Nat.shiftLeft_eq]
    omega
  rw [hshift, ← Nat.shiftLeft_add_eq_or_of_lt (by decide)]

/-- What one request gives back: the returned address, and `*phys` when asked for. -/
structure Allocation where
  address : Nat
  phys : Option Nat
deriving DecidableEq, Repr

def kmallocReal (size : Nat) (align : Int) (phys : Bool) (placementPointer : Nat) :
    Allocation × Nat :=
  let placementPointer :=
    if align ≠ 0 ∧ placementPointer &&& 0xFFFFF000 ≠ 0 then placementPointer &&& 0xFFFFF000
    else placementPointer
  ({ address := placementPointer, phys := if phys then some placementPointer else none },
    (placementPointer + size) % 2 ^ 32)

def kmalloc (size : Nat) : Nat → Allocation × Nat := kmallocReal size 0 false

def kvmalloc (size : Nat) : Nat → Allocation × Nat := kmallocReal size 1 false

def kmallocP (size : Nat) : Nat → Allocation × Nat := kmallocReal size 0 true

def kvmallocP (size : Nat) : Nat → Allocation × Nat := kmallocReal size 1 true

theorem kmallocReal_unaligned (size : Nat) (phys : Bool) (p : Nat) :
    kmallocReal size 0 phys p =
      ({ address := p, phys := if phys then some p else none }, (p + size) % 2 ^ 32) := by
  simp [kmallocReal]

/-- From the second page on, an aligned request starts at the page base. -/
theorem kmallocReal_aligned (size : Nat) (phys : Bool) {p : Nat} (hp : p < 2 ^ 32)
    (hlow : 0x1000 ≤ p) :
    kmallocReal size 1 phys p =
      ({ address := pageBase p, phys := if phys then some (pageBase p) else none },
        (pageBase p + size) % 2 ^ 32) := by
  have hne : pageBase p ≠ 0 := by
    rw [pageBase_eq hp]
    omega
  have hcond : (1 : Int) ≠ 0 ∧ p &&& 0xFFFFF000 ≠ 0 := ⟨by decide, hne⟩
  simp only [kmallocReal, if_pos hcond]
  rfl

/-- While the pointer is still inside the first page, alignment is skipped. -/
theorem kmallocReal_firstPage (size : Nat) (align : Int) (phys : Bool) {p : Nat} (hp : p < 0x1000) :
    kmallocReal size align phys p =
      ({ address := p, phys := if phys then some p else none }, (p + size) % 2 ^ 32) := by
  have hzero : pageBase p = 0 := by
    rw [pageBase_eq (by omega)]
    omega
  have hcond : ¬ (align ≠ 0 ∧ p &&& 0xFFFFF000 ≠ 0) := fun h => h.2 hzero
  simp only [kmallocReal, if_neg hcond]

theorem kvmallocP_eq (size : Nat) {p : Nat} (hp : p < 2 ^ 32) :
    kvmallocP size p = (⟨if p < 0x1000 then p else pageBase p,
      some (if p < 0x1000 then p else pageBase p)⟩,
      ((if p < 0x1000 then p else pageBase p) + size) % 2 ^ 32) := by
  unfold kvmallocP
  by_cases hlow : p < 0x1000
  · rw [kmallocReal_firstPage _ _ _ hlow]
    simp [hlow]
  · rw [kmallocReal_aligned _ _ hp (by omega)]
    simp [hlow]

inductive PlacementCall
  | kmalloc (size : Nat)
  | kvmalloc (size : Nat)
  | kmallocP (size : Nat)
  | kvmallocP (size : Nat)
deriving DecidableEq, Repr

namespace PlacementCall

def size : PlacementCall → Nat
  | .kmalloc n | .kvmalloc n | .kmallocP n | .kvmallocP n => n

def aligned : PlacementCall → Bool
  | .kmalloc _ | .kmallocP _ => false
  | .kvmalloc _ | .kvmallocP _ => true

def asksPhys : PlacementCall → Bool
  | .kmalloc _ | .kvmalloc _ => false
  | .kmallocP _ | .kvmallocP _ => true

def perform : PlacementCall → Nat → Allocation × Nat
  | .kmalloc n => X32PRos.kmalloc n
  | .kvmalloc n => X32PRos.kvmalloc n
  | .kmallocP n => X32PRos.kmallocP n
  | .kvmallocP n => X32PRos.kvmallocP n

theorem perform_eq (c : PlacementCall) (p : Nat) :
    c.perform p = kmallocReal c.size (if c.aligned then 1 else 0) c.asksPhys p := by
  cases c <;> rfl

end PlacementCall

structure Grant where
  call : PlacementCall
  result : Allocation

/-- The range `[addr, addr + size)` the caller may use. -/
def Grant.region (g : Grant) : Region := ⟨g.result.address, g.call.size⟩

def placementRun : Nat → List PlacementCall → List Grant
  | _, [] => []
  | p, c :: cs => ⟨c, (c.perform p).1⟩ :: placementRun (c.perform p).2 cs

def totalSize (cs : List PlacementCall) : Nat := (cs.map PlacementCall.size).sum

/-- No address is granted twice or taken from below the start value, aligned
requests are page aligned, and `*phys` is the returned address. -/
structure NeverTwice (start : Nat) (gs : List Grant) : Prop where
  apart : gs.Pairwise fun g g' => Region.Apart g.region g'.region
  above : ∀ g ∈ gs, start ≤ g.result.address
  aligned : ∀ g ∈ gs, g.call.aligned → 0x1000 ∣ g.result.address
  phys : ∀ g ∈ gs, g.call.asksPhys → g.result.phys = some g.result.address

/-- Each aligned request finds the pointer on a page boundary already. -/
def AlignedOnBoundary : Nat → List PlacementCall → Prop
  | _, [] => True
  | p, c :: cs => (c.aligned → 0x1000 ∣ p) ∧ AlignedOnBoundary (p + c.size) cs

theorem alignedOnBoundary_iff (p : Nat) (cs : List PlacementCall) :
    AlignedOnBoundary p cs ↔
      ∀ before c after, cs = before ++ c :: after → c.aligned →
        0x1000 ∣ p + totalSize before := by
  induction cs generalizing p with
  | nil => simp [AlignedOnBoundary]
  | cons d ds ih =>
      rw [AlignedOnBoundary, ih]
      constructor
      · rintro ⟨hd, hds⟩ before c after heq hc
        cases before with
        | nil =>
            obtain ⟨rfl, -⟩ := List.cons.inj heq
            simpa [totalSize] using hd hc
        | cons b bs =>
            obtain ⟨rfl, hrest⟩ := List.cons.inj heq
            have hsum := hds bs c after hrest hc
            rwa [Nat.add_assoc] at hsum
      · intro h
        refine ⟨fun hd => by simpa [totalSize] using h [] d ds rfl hd, ?_⟩
        intro before c after heq hc
        have hsum := h (d :: before) c after (by rw [heq]; rfl) hc
        rwa [Nat.add_assoc]

/-- When the pointer is already where the request wants it, the block starts there. -/
theorem perform_of_boundary (c : PlacementCall) {p : Nat} (hp : p < 2 ^ 32) (hlow : 0x1000 ≤ p)
    (hc : c.aligned → 0x1000 ∣ p) (hfit : p + c.size < 2 ^ 32) :
    c.perform p = (⟨p, if c.asksPhys then some p else none⟩, p + c.size) := by
  rw [c.perform_eq]
  cases hal : c.aligned with
  | false =>
      simp only [Bool.false_eq_true, ite_false]
      rw [kmallocReal_unaligned, Nat.mod_eq_of_lt hfit]
  | true =>
      simp only [ite_true]
      rw [kmallocReal_aligned _ _ hp hlow, pageBase_of_dvd hp (hc hal), Nat.mod_eq_of_lt hfit]

theorem placementRun_neverTwice {p : Nat} {cs : List PlacementCall} (hlow : 0x1000 ≤ p)
    (hfit : p + totalSize cs < 2 ^ 32) (hb : AlignedOnBoundary p cs) :
    NeverTwice p (placementRun p cs) := by
  induction cs generalizing p with
  | nil => exact ⟨List.Pairwise.nil, by simp [placementRun], by simp [placementRun],
      by simp [placementRun]⟩
  | cons c cs ih =>
      have hsum : totalSize (c :: cs) = c.size + totalSize cs := rfl
      have hstep := perform_of_boundary c (by omega) hlow hb.1 (by omega)
      have hrest := ih (p := p + c.size) (by omega) (by omega) hb.2
      rw [placementRun, hstep]
      refine ⟨List.pairwise_cons.mpr ⟨?_, hrest.apart⟩, ?_, ?_, ?_⟩
      · intro g hg
        exact Region.apart_of_end_le (hrest.above g hg)
      · intro g hg
        rcases List.mem_cons.mp hg with rfl | hg
        · exact Nat.le_refl p
        · exact Nat.le_trans (Nat.le_add_right _ _) (hrest.above g hg)
      · intro g hg hal
        rcases List.mem_cons.mp hg with rfl | hg
        · exact hb.1 hal
        · exact hrest.aligned g hg hal
      · intro g hg hph
        rcases List.mem_cons.mp hg with rfl | hg
        · exact if_pos hph
        · exact hrest.phys g hg hph

def Covered (start p : Nat) (gs : List Grant) : Prop :=
  ∀ x, start ≤ x → x < p → ∃ g ∈ gs, x ∈ g.region

/-- An aligned request off the boundary goes back below the pointer, where the
memory is either granted already or not the allocator's. -/
theorem alignedOnBoundary_of_neverTwice {start : Nat} (hstart : 0x1000 ≤ start) :
    ∀ (cs : List PlacementCall) (p : Nat) (earlier : List Grant), start ≤ p →
      (∀ c ∈ cs, 0 < c.size) → p + totalSize cs < 2 ^ 32 → Covered start p earlier →
      NeverTwice start (earlier ++ placementRun p cs) → AlignedOnBoundary p cs := by
  intro cs
  induction cs with
  | nil => intros; trivial
  | cons c cs ih =>
      intro p earlier hle hpos hfit hcov hsafe
      have hsum : totalSize (c :: cs) = c.size + totalSize cs := rfl
      have hc : 0 < c.size := hpos c List.mem_cons_self
      have hp : p < 2 ^ 32 := by omega
      have hbound : c.aligned → 0x1000 ∣ p := by
        intro hal
        by_contra hnot
        have hmem : (⟨c, (c.perform p).1⟩ : Grant) ∈ earlier ++ placementRun p (c :: cs) :=
          List.mem_append_right _ List.mem_cons_self
        have haddr : (c.perform p).1.address = pageBase p := by
          rw [c.perform_eq, hal, if_pos rfl, kmallocReal_aligned _ _ hp (by omega)]
        have hlt : pageBase p < p := by
          rw [pageBase_eq hp]
          omega
        have habove := hsafe.above _ hmem
        rw [haddr] at habove
        obtain ⟨g, hg, hx⟩ := hcov (pageBase p) habove hlt
        have hapart : Region.Apart g.region (⟨c, (c.perform p).1⟩ : Grant).region :=
          (List.pairwise_append.mp hsafe.apart).2.2 g hg _ List.mem_cons_self
        apply hapart (pageBase p) hx
        rw [Grant.region, haddr]
        exact ⟨Nat.le_refl _, Nat.lt_add_of_pos_right hc⟩
      refine ⟨hbound, ?_⟩
      have hstep := perform_of_boundary c hp (by omega) hbound (by omega)
      apply ih (p + c.size) (earlier ++ [⟨c, (c.perform p).1⟩]) (by omega)
        (fun d hd => hpos d (List.mem_cons_of_mem _ hd)) (by omega)
      · intro x hx hlt
        by_cases hxp : x < p
        · obtain ⟨g, hg, hxg⟩ := hcov x hx hxp
          exact ⟨g, List.mem_append_left _ hg, hxg⟩
        · refine ⟨_, List.mem_append_right _ List.mem_cons_self, ?_⟩
          rw [Grant.region, hstep]
          exact ⟨Nat.le_of_not_lt hxp, hlt⟩
      · rw [placementRun, hstep] at hsafe
        simpa [hstep] using hsafe

/-- The allocator meets its purpose exactly on the runs in which every aligned
request comes while the pointer, which is then the start value plus all sizes
so far, is on a page boundary. -/
theorem placement_neverTwice_iff (start : Nat) (cs : List PlacementCall)
    (hstart : 0x1000 ≤ start) (hpos : ∀ c ∈ cs, 0 < c.size)
    (hfit : start + totalSize cs < 2 ^ 32) :
    NeverTwice start (placementRun start cs) ↔
      ∀ before c after, cs = before ++ c :: after → c.aligned →
        0x1000 ∣ start + totalSize before := by
  rw [← alignedOnBoundary_iff]
  constructor
  · intro h
    apply alignedOnBoundary_of_neverTwice hstart cs start [] (Nat.le_refl _) hpos hfit
    · intro x hle hlt
      omega
    · simpa using h
  · exact placementRun_neverTwice hstart hfit

theorem placement_neverTwice_pages :
    NeverTwice 0x105000 (placementRun 0x105000 [.kvmalloc 0x1000, .kvmallocP 0x2000, .kmalloc 96]) ↔
      ∀ before c after,
        [PlacementCall.kvmalloc 0x1000, .kvmallocP 0x2000, .kmalloc 96] = before ++ c :: after →
          c.aligned → 0x1000 ∣ 0x105000 + totalSize before :=
  placement_neverTwice_iff _ _ (by decide) (by decide) (by decide)

/-- The boot sequence of `main` on 128 MB with no module: the multiboot copy,
the frame bitmap, the page directory. -/
def bootRequests : List PlacementCall := [.kmalloc 96, .kmalloc 1024, .kvmalloc 8196]

/-- The page directory is put on top of the multiboot copy and the bitmap. -/
theorem bootRequests_overlap :
    0x1000 ≤ 0x105000 ∧ (∀ c ∈ bootRequests, 0 < c.size) ∧
      0x105000 + (bootRequests.map fun c => (c.size + 0xFFF) / 0x1000 * 0x1000).sum < 2 ^ 32 ∧
      ¬ NeverTwice 0x105000 (placementRun 0x105000 bootRequests) := by
  refine ⟨by decide, by decide, by decide, ?_⟩
  intro h
  have happart : Region.Apart ⟨0x105000, 96⟩ ⟨0x105000, 8196⟩ :=
    (List.pairwise_cons.mp h.apart).1 ⟨.kvmalloc 8196, ⟨0x105000, none⟩⟩ (by
      simp [placementRun, PlacementCall.perform, kmalloc, kvmalloc, kmallocReal])
  exact happart 0x105000 (by decide) (by decide)

end X32PRos
