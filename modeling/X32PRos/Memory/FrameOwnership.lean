import X32PRos.Memory.Frames

/-!
Page entries and the frame bitmap under arbitrary sequences of `alloc_frame`
and `free_frame`: who owns which frame, and the exact steps after which the
ownership is lost. The entries are indexed by an arbitrary type.
-/

namespace X32PRos

open Foundation

variable {ι : Type}

structure FrameSystem (ι : Type) where
  allocator : FrameAllocator
  pages : ι → Page

inductive FrameOp (ι : Type)
  | allocFrame (page : ι) (isKernel isWriteable : Int)
  | freeFrame (page : ι)

namespace FrameSystem

def initial (ι : Type) (nframes : UInt32) : FrameSystem ι :=
  ⟨⟨fun _ => 0#32, nframes⟩, fun _ => Page.zero⟩

def step [DecidableEq ι] (s : FrameSystem ι) : FrameOp ι → Except Fault (FrameSystem ι)
  | .allocFrame p k w =>
      match allocFrame (s.pages p) k w s.allocator with
      | .error e => .error e
      | .ok (page, a) => .ok ⟨a, Function.update s.pages p page⟩
  | .freeFrame p =>
      let r := freeFrame (s.pages p) s.allocator
      .ok ⟨r.2, Function.update s.pages p r.1⟩

/-- Present entries hold distinct frames, and exactly the frames in use. -/
structure OneOwner (s : FrameSystem ι) : Prop where
  unique : ∀ p q, (s.pages p).present → (s.pages q).present →
    (s.pages p).frame = (s.pages q).frame → p = q
  exact : ∀ f, (∃ p, (s.pages p).present ∧ (s.pages p).frame.toNat = f) ↔
    s.allocator.inUse f = true

/-- The property after one step: one owner for each frame, and an entry that
held a frame is not present once it has been freed. -/
def StepKeepsOwners (s : FrameSystem ι) (o : FrameOp ι) (s' : FrameSystem ι) : Prop :=
  s'.OneOwner ∧
    ∀ p, o = .freeFrame p → (s.pages p).present → (s'.pages p).present = false

def HasClearFrame (a : FrameAllocator) : Prop :=
  ∃ f < 2 ^ 20, f < a.scanned ∧ a.inUse f = false

/-- What a step has to meet: it frees no present entry, and it allocates for an
entry whose frame field is zero only if that entry is not present and a frame
number that fits the field is left (or both fail, when nothing is changed). -/
def GoodStep (s : FrameSystem ι) : FrameOp ι → Prop
  | .allocFrame p _ _ =>
      (s.pages p).frame ≠ 0 ∨ ((s.pages p).present = false ↔ HasClearFrame s.allocator)
  | .freeFrame p => (s.pages p).present = false

structure Owned (s : FrameSystem ι) : Prop extends OneOwner s where
  blank : ∀ p, (s.pages p).present = false → (s.pages p).frame = 0

theorem owned_initial (nframes : UInt32) : (initial ι nframes).Owned where
  unique p _ hp _ _ := by simp [initial] at hp
  exact f := by simp [initial, FrameAllocator.inUse, Bitmap.bit]
  blank _ _ := rfl

theorem Owned.inUse_lt {s : FrameSystem ι} (h : s.Owned) {f : Nat}
    (hf : s.allocator.inUse f = true) : f < 2 ^ 20 := by
  obtain ⟨p, -, rfl⟩ := (h.exact f).mpr hf
  exact (s.pages p).frame.isLt

variable [DecidableEq ι]

/-- Writing an entry back unchanged changes nothing. -/
theorem update_pages_self (s : FrameSystem ι) (p : ι) :
    (⟨s.allocator, Function.update s.pages p (s.pages p)⟩ : FrameSystem ι) = s := by
  rw [Function.update_eq_self]

/-- A fresh frame given to an entry that was not present keeps the invariant. -/
theorem Owned.give {s : FrameSystem ι} (h : s.Owned) {p : ι} {page : Page} {f : Nat}
    (habs : (s.pages p).present = false) (hf : f < 2 ^ 20) (hclear : s.allocator.inUse f = false)
    (hpres : page.present = true) (hframe : page.frame = BitVec.ofNat 20 f) :
    Owned (⟨s.allocator.setFrame (f * 0x1000 % 2 ^ 32), Function.update s.pages p page⟩ :
      FrameSystem ι) := by
  have hnat : page.frame.toNat = f := by
    rw [hframe, BitVec.toNat_ofNat, Nat.mod_eq_of_lt hf]
  have hother : ∀ q, q ≠ p → (s.pages q).present → (s.pages q).frame ≠ page.frame := by
    intro q _ hq heq
    have huse := (h.exact f).mp ⟨q, hq, by rw [heq, hnat]⟩
    rw [hclear] at huse
    cases huse
  refine ⟨⟨?_, ?_⟩, ?_⟩
  · intro q r hq hr heq
    by_cases hqp : q = p <;> by_cases hrp : r = p
    · rw [hqp, hrp]
    · subst hqp
      simp only [Function.update_self, Function.update_of_ne hrp] at hr heq
      exact absurd heq.symm (hother r hrp hr)
    · subst hrp
      simp only [Function.update_self, Function.update_of_ne hqp] at hq heq
      exact absurd heq (hother q hqp hq)
    · simp only [Function.update_of_ne hqp, Function.update_of_ne hrp] at hq hr heq
      exact h.unique q r hq hr heq
  · intro g
    rw [FrameAllocator.inUse_setFrame, frame_addr_div hf]
    constructor
    · rintro ⟨q, hq, hqg⟩
      by_cases hqp : q = p
      · subst hqp
        simp only [Function.update_self] at hqg
        simp [← hqg, hnat]
      · simp only [Function.update_of_ne hqp] at hq hqg
        simp [(h.exact g).mp ⟨q, hq, hqg⟩]
    · intro hg
      rw [Bool.or_eq_true, decide_eq_true_eq] at hg
      rcases hg with rfl | hg
      · exact ⟨p, by simpa using hpres, by simpa using hnat⟩
      · obtain ⟨q, hq, hqg⟩ := (h.exact g).mpr hg
        have hqp : q ≠ p := fun heq => by rw [heq, habs] at hq; cases hq
        exact ⟨q, by simpa [Function.update_of_ne hqp] using hq,
          by simpa [Function.update_of_ne hqp] using hqg⟩
  · intro q hq
    by_cases hqp : q = p
    · subst hqp
      simp [hpres] at hq
    · simp only [Function.update_of_ne hqp] at hq ⊢
      exact h.blank q hq

/-- Rewriting a present entry's other bits keeps the invariant. -/
theorem Owned.touch {s : FrameSystem ι} (h : s.Owned) {p : ι} {page : Page} {a : FrameAllocator}
    (hpage : page.present = (s.pages p).present) (hframe : page.frame = (s.pages p).frame)
    (ha : ∀ f, a.inUse f = s.allocator.inUse f) :
    Owned (⟨a, Function.update s.pages p page⟩ : FrameSystem ι) := by
  have hpres : ∀ q, (Function.update s.pages p page q).present = (s.pages q).present := by
    intro q
    by_cases hq : q = p
    · subst hq; simpa using hpage
    · simp [Function.update_of_ne hq]
  have hfr : ∀ q, (Function.update s.pages p page q).frame = (s.pages q).frame := by
    intro q
    by_cases hq : q = p
    · subst hq; simpa using hframe
    · simp [Function.update_of_ne hq]
  refine ⟨⟨?_, ?_⟩, ?_⟩
  · intro q r
    simp only [hpres, hfr]
    exact h.unique q r
  · intro f
    simp only [hpres, hfr, ha]
    exact h.exact f
  · intro q
    simp only [hpres, hfr]
    exact h.blank q

omit [DecidableEq ι] in
theorem not_hasClearFrame {s : FrameSystem ι} (h : s.Owned) {f : Nat} (hf : 2 ^ 20 ≤ f)
    (hbelow : ∀ g < f, s.allocator.inUse g = true) :
    ¬ HasClearFrame s.allocator ∧ f = 2 ^ 20 := by
  constructor
  · rintro ⟨g, hg, -, hclear⟩
    rw [hbelow g (by omega)] at hclear
    cases hclear
  · -- frame numbers in use fit the field, so the first clear one is at most `2 ^ 20`
    by_contra hne
    have hlt := h.inUse_lt (hbelow (2 ^ 20) (by omega))
    omega

theorem step_alloc (s s' : FrameSystem ι) (p : ι) (k w : Int) (h : s.Owned)
    (hstep : s.step (.allocFrame p k w) = .ok s') :
    (StepKeepsOwners s (.allocFrame p k w) s' ↔ GoodStep s (.allocFrame p k w)) ∧
      (GoodStep s (.allocFrame p k w) → s'.Owned) := by
  have hfree : ∀ q : ι, (FrameOp.allocFrame p k w : FrameOp ι) ≠ .freeFrame q := fun q => nofun
  have hkeep : StepKeepsOwners s (.allocFrame p k w) s' ↔ s'.OneOwner :=
    ⟨fun hk => hk.1, fun hk => ⟨hk, fun q hq => absurd hq (hfree q)⟩⟩
  rw [hkeep]
  by_cases hframe : (s.pages p).frame = 0
  case neg =>
    have hs : s' = s := by
      simp only [step, allocFrame_of_frame hframe, update_pages_self] at hstep
      exact (Except.ok.inj hstep).symm
    subst hs
    exact ⟨⟨fun _ => Or.inl hframe, fun _ => h.toOneOwner⟩, fun _ => h⟩
  case pos =>
    have hgood : GoodStep s (.allocFrame p k w) ↔
        ((s.pages p).present = false ↔ HasClearFrame s.allocator) := by
      simp [GoodStep, hframe]
    rw [hgood]
    simp only [step] at hstep
    split at hstep
    case h_1 => cases hstep
    case h_2 page a hok =>
      cases hstep
      obtain ⟨f, hscan, hclear, hbelow, hpres, hfr, rfl⟩ := allocFrame_ok hframe hok
      by_cases hf : f < 2 ^ 20
      · have hhas : HasClearFrame s.allocator := ⟨f, hf, hscan, hclear⟩
        simp only [hhas, iff_true]
        cases habs : (s.pages p).present with
        | false =>
            have hgive := h.give habs hf hclear hpres hfr
            exact ⟨⟨fun _ => rfl, fun _ => hgive.toOneOwner⟩, fun _ => hgive⟩
        | true =>
            -- frame 0 stays marked, but the entry that held it now holds `f`
            refine ⟨⟨fun hone => ?_, fun hno => absurd hno (by decide)⟩,
              fun hno => absurd hno (by decide)⟩
            have hzero : s.allocator.inUse 0 = true := (h.exact 0).mp ⟨p, habs, by simp [hframe]⟩
            have hne : f ≠ 0 := fun heq => by rw [heq, hzero] at hclear; cases hclear
            obtain ⟨q, hq, hq0⟩ := (hone.exact 0).mpr (by simp [hzero])
            by_cases hqp : q = p
            · subst hqp
              simp only [Function.update_self, hfr, BitVec.toNat_ofNat, Nat.mod_eq_of_lt hf] at hq0
              exact absurd hq0 hne
            · simp only [Function.update_of_ne hqp] at hq hq0
              refine absurd (h.unique q p hq habs ?_) hqp
              rw [hframe]
              exact BitVec.eq_of_toNat_eq (by simpa using hq0)
      · obtain ⟨hnone, rfl⟩ := not_hasClearFrame h (Nat.le_of_not_lt hf) hbelow
        have hzero : s.allocator.inUse 0 = true := hbelow 0 (by decide)
        have huse : ∀ g, (s.allocator.setFrame (2 ^ 20 * 0x1000 % 2 ^ 32)).inUse g =
            s.allocator.inUse g := by
          intro g
          rw [FrameAllocator.inUse_setFrame]
          by_cases hg : g = 0
          · simp [hg, hzero]
          · simp [hg]
        have hfr0 : page.frame = 0 := by rw [hfr]; rfl
        simp only [hnone, iff_false]
        cases habs : (s.pages p).present with
        | false =>
            -- the truncated frame number 0 already belongs to another entry
            refine ⟨⟨fun hone => ?_, fun hno => absurd rfl hno⟩, fun hno => absurd rfl hno⟩
            obtain ⟨q, hq, hq0⟩ := (h.exact 0).mpr hzero
            have hqp : q ≠ p := fun heq => by rw [heq, habs] at hq; cases hq
            refine absurd (hone.unique q p ?_ ?_ ?_) hqp
            · simpa [Function.update_of_ne hqp] using hq
            · simpa using hpres
            · simp only [Function.update_of_ne hqp, Function.update_self, hfr0]
              exact BitVec.eq_of_toNat_eq (by simpa using hq0)
        | true =>
            have htouch := h.touch (p := p) (hpres.trans habs.symm)
              (hfr0.trans hframe.symm) huse
            exact ⟨⟨fun _ => by decide, fun _ => htouch.toOneOwner⟩, fun _ => htouch⟩

theorem step_free (s s' : FrameSystem ι) (p : ι) (h : s.Owned)
    (hstep : s.step (.freeFrame p) = .ok s') :
    (StepKeepsOwners s (.freeFrame p) s' ↔ GoodStep s (.freeFrame p)) ∧
      (GoodStep s (.freeFrame p) → s'.Owned) := by
  cases hstep
  have hpres : (freeFrame (s.pages p) s.allocator).1.present = (s.pages p).present := by
    unfold freeFrame
    split <;> rfl
  cases habs : (s.pages p).present with
  | true =>
      simp only [GoodStep, habs]
      refine ⟨⟨fun hk => ?_, fun hno => absurd hno (by decide)⟩, fun hno => absurd hno (by decide)⟩
      have hgone := hk.2 p rfl habs
      simp only [Function.update_self, hpres, habs] at hgone
      exact hgone
  | false =>
      have hframe := h.blank p habs
      have hsame : (⟨(freeFrame (s.pages p) s.allocator).2, Function.update s.pages p
          (freeFrame (s.pages p) s.allocator).1⟩ : FrameSystem ι) = s := by
        simp only [freeFrame, hframe, ite_true, update_pages_self]
      rw [hsame]
      simp only [GoodStep, habs]
      refine ⟨⟨fun _ => trivial, fun _ => ⟨h.toOneOwner, ?_⟩⟩, fun _ => h⟩
      intro q hq hp
      cases hq
      rw [habs] at hp
      cases hp

theorem step_exact (s : FrameSystem ι) (o : FrameOp ι) (s' : FrameSystem ι) (h : s.Owned)
    (hstep : s.step o = .ok s') :
    (StepKeepsOwners s o s' ↔ GoodStep s o) ∧ (GoodStep s o → s'.Owned) := by
  cases o with
  | allocFrame p k w => exact step_alloc s s' p k w h hstep
  | freeFrame p => exact step_free s s' p h hstep

/-- From an all-clear bitmap and all-zero entries, every frame keeps exactly one
owner after each step of a run if and only if each step of the run is good. -/
theorem oneOwner_along_iff (nframes : UInt32) (ops : List (FrameOp ι)) :
    Run.Along step StepKeepsOwners (initial ι nframes) ops ↔
      Run.Along step (fun s o _ => GoodStep s o) (initial ι nframes) ops :=
  Run.along_iff step_exact ops _ (owned_initial nframes)

/-- Two entries are mapped and the second is freed: it stays present, and with
frame 0, which is the frame of the first. -/
theorem freeFrame_keeps_present :
    ¬ Run.Along step StepKeepsOwners (initial Bool 64)
      [.allocFrame false 0 0, .allocFrame true 0 0, .freeFrame true] := by
  intro h
  have hfreed := (((h _ rfl).2 _ rfl).2 _ rfl).1.2 true rfl (by decide)
  revert hfreed
  decide

end FrameSystem

end X32PRos
