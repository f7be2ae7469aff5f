import X32PRos.Memory.Calls

/-!
What `alloc_frame` does to an entry that it has served before. It takes the frame
number in the entry for the mark of a served entry, so that all depends on the
numbers handed out: a log of them is kept beside the states.
-/

namespace X32PRos

open Foundation

/-- What an entry has got from `alloc_frame`: nothing yet, a frame number, or one that
is gone from the entry since, with its table or by `free_frame`. -/
inductive Handout
  | never
  | frame (number : Nat)
  | cleared
deriving DecidableEq, Repr

def Handout.clear : Handout → Handout
  | .never => .never
  | _ => .cleared

@[simp] theorem Handout.clear_eq_never {h : Handout} : h.clear = .never ↔ h = .never := by
  cases h <;> simp [clear]

theorem Handout.clear_ne_frame (h : Handout) (f : Nat) : h.clear ≠ .frame f := by
  cases h <;> simp [clear]

namespace Mm

variable {κ : Type} [DecidableEq κ] (obj : Nat → Nat → κ)

def entryAt (m : Mm κ) (page : κ × Nat) : Page := m.entries page.1 page.2

def logGetPage (address : Nat) (make : Int) (m : Mm κ) (log : κ × Nat → Handout) :
    κ × Nat → Handout :=
  let slot := address / 0x1000 / 1024
  if m.tables slot = 0 ∧ make ≠ 0 then fun page =>
    if page.1 = obj slot ((m.makeTable obj slot).tables slot) then (log page).clear else log page
  else log

def logAllocFrame (page : κ × Nat) (m : Mm κ) (log : κ × Nat → Handout) : κ × Nat → Handout :=
  if (m.entryAt page).frame = 0 then
    Function.update log page (.frame m.allocator.firstFrame)
  else log

def logFreeFrame (page : κ × Nat) (log : κ × Nat → Handout) : κ × Nat → Handout :=
  Function.update log page (log page).clear

inductive Traced (setup : Mm κ) : (κ × Nat → Handout) → Mm κ → Prop
  | setup : Traced setup (fun _ => .never) setup
  | getPage {log : κ × Nat → Handout} {m : Mm κ} (address : Nat) (make : Int) :
      Traced setup log m →
      Traced setup (logGetPage obj address make m log) (m.getPage obj address make).2
  | allocFrame {log : κ × Nat → Handout} {m m' : Mm κ} (page : κ × Nat) (k w : Int) :
      Traced setup log m → m.allocFrameAt (some page) k w = .ok m' →
      Traced setup (logAllocFrame page m log) m'
  | freeFrame {log : κ × Nat → Handout} {m : Mm κ} (page : κ × Nat) :
      Traced setup log m → Traced setup (logFreeFrame page log) (m.freeFrameAt page)
  | heapInstall {log : κ × Nat → Handout} {m : Mm κ} :
      Traced setup log m → Traced setup log m.heapInstall
  | moved {log : κ × Nat → Handout} {m : Mm κ} (e : Nat) (w : Bool) :
      Traced setup log m → Traced setup log { m with heapEnd := e, wrapped := w }

/-- Every completed `alloc_frame` on the entry, with any flags, leaves the entry and the
bitmap as they are. -/
def Idempotent (m : Mm κ) (page : κ × Nat) : Prop :=
  ∀ k w m', m.allocFrameAt (some page) k w = .ok m' →
    m'.entryAt page = m.entryAt page ∧
      ∀ f, m'.allocator.inUse f = m.allocator.inUse f

variable {obj} {m m' setup : Mm κ} {log : κ × Nat → Handout}

/-! ### What the calls write -/

theorem entryAt_write {page : κ × Nat} {a : FrameAllocator} {entry : Page} :
    entryAt { m with
      allocator := a
      entries := fun o i => if o = page.1 ∧ i = page.2 then entry else m.entries o i } =
      Function.update m.entryAt page entry := by
  funext other
  by_cases hother : other = page
  · rw [hother, Function.update_self]
    exact if_pos ⟨rfl, rfl⟩
  · rw [Function.update_of_ne hother]
    exact if_neg fun hsame => hother (Prod.ext hsame.1 hsame.2)

theorem allocFrameAt_entry {page : κ × Nat} {k w : Int}
    (hok : m.allocFrameAt (some page) k w = .ok m') :
    ∃ entry, allocFrame (m.entryAt page) k w m.allocator = .ok (entry, m'.allocator) ∧
      m'.entryAt = Function.update m.entryAt page entry := by
  obtain ⟨entry, a, halloc, rfl⟩ := allocFrameAt_ok (o := page.1) (i := page.2) hok
  exact ⟨entry, halloc, entryAt_write⟩

theorem entryAt_makeTable (T : Nat) (m : Mm κ) (page : κ × Nat) :
    (m.makeTable obj T).entryAt page =
      if page.1 = obj T ((m.makeTable obj T).tables T) then Page.zero else m.entryAt page := by
  have htable : (m.makeTable obj T).tables T =
      (m.place (kvmallocP pageTableSize) pageTableSize).1.address := if_pos rfl
  rw [htable]
  by_cases hsame : page.1 = obj T (m.place (kvmallocP pageTableSize) pageTableSize).1.address
  · rw [if_pos hsame]
    exact congrFun (if_pos hsame) page.2
  · rw [if_neg hsame]
    exact congrFun (if_neg hsame) page.2

/-! ### One call on one entry -/

theorem allocFrameAt_of_frame {page : κ × Nat} {k w : Int} (hframe : (m.entryAt page).frame ≠ 0)
    (hok : m.allocFrameAt (some page) k w = .ok m') :
    m'.entryAt = m.entryAt ∧ m'.allocator = m.allocator := by
  obtain ⟨entry, halloc, hentry⟩ := allocFrameAt_entry hok
  rw [allocFrame_of_frame hframe] at halloc
  obtain ⟨hsame, hallocator⟩ := Prod.mk.inj (Except.ok.inj halloc)
  rw [hentry, ← hsame, Function.update_eq_self]
  exact ⟨rfl, hallocator.symm⟩

theorem allocFrameAt_of_zero {page : κ × Nat} {k w : Int} (hzero : (m.entryAt page).frame = 0)
    (hok : m.allocFrameAt (some page) k w = .ok m') :
    m.allocator.firstFrame ≠ FrameAllocator.noFrame ∧
      ∃ entry, m'.entryAt = Function.update m.entryAt page entry ∧ entry.rw = decide (w ≠ 0) ∧
        entry.frame = BitVec.ofNat 20 m.allocator.firstFrame := by
  obtain ⟨entry, halloc, hentry⟩ := allocFrameAt_entry hok
  by_cases hnone : m.allocator.firstFrame = FrameAllocator.noFrame
  · rw [allocFrame_of_none hzero hnone] at halloc
    cases halloc
  · rw [allocFrame_of_zero hzero hnone] at halloc
    obtain ⟨rfl, -⟩ := Prod.mk.inj (Except.ok.inj halloc)
    exact ⟨hnone, _, hentry, rfl, rfl⟩

/-- The second call finds the frame number of the first, or takes another frame and
writes the flags anew. -/
theorem idempotent_iff (m : Mm κ) (page : κ × Nat) :
    m.Idempotent page ↔
      (m.entryAt page).frame ≠ 0 ∨ m.allocator.firstFrame = FrameAllocator.noFrame := by
  constructor
  · intro h
    by_contra hnot
    obtain ⟨hzero, hsome⟩ := not_or.mp hnot
    rw [not_not] at hzero
    -- a writeable flag that the entry does not have
    let w : Int := if (m.entryAt page).rw then 0 else 1
    have hok := allocFrameAt_of_ok (allocFrame_of_zero hzero hsome 0 w)
    have hsame := (h 0 w _ hok).1
    obtain ⟨-, entry, hentry, hrw, -⟩ := allocFrameAt_of_zero hzero hok
    rw [hentry, Function.update_self] at hsame
    rw [hsame] at hrw
    cases hflag : (m.entryAt page).rw <;> simp [w, hflag] at hrw
  · intro h k w m' hok
    by_cases hframe : (m.entryAt page).frame = 0
    · have hsome := (allocFrameAt_of_zero hframe hok).1
      exact absurd (h.resolve_left (not_not_intro hframe)) hsome
    · obtain ⟨hentry, hallocator⟩ := allocFrameAt_of_frame hframe hok
      rw [hentry, hallocator]
      exact ⟨rfl, fun _ => rfl⟩

/-! ### The log against the entries -/

/-- What the log says an entry holds is what it holds. An entry that has got nothing is
as it was, or blank. -/
structure LogOk (before entry : κ × Nat → Page) (log : κ × Nat → Handout) : Prop where
  frame : ∀ page f, log page = .frame f → (entry page).frame = BitVec.ofNat 20 f
  cleared : ∀ page, log page = .cleared → (entry page).frame = 0
  never : ∀ page, log page = .never → (entry page).present = true → (before page).present = true

variable {before : κ × Nat → Page}

/-- One entry and its place in the log. -/
theorem LogOk.update {entry : κ × Nat → Page} (h : LogOk before entry log) {page : κ × Nat}
    {new : Page} {handout : Handout}
    (hframe : ∀ f, handout = .frame f → new.frame = BitVec.ofNat 20 f)
    (hcleared : handout = .cleared → new.frame = 0)
    (hnever : handout = .never → new.present = true → (before page).present = true) :
    LogOk before (Function.update entry page new) (Function.update log page handout) := by
  refine ⟨?_, ?_, ?_⟩
  · intro other f hlog
    by_cases hother : other = page
    · subst hother
      rw [Function.update_self] at hlog ⊢
      exact hframe f hlog
    · rw [Function.update_of_ne hother] at hlog ⊢
      exact h.frame other f hlog
  · intro other hlog
    by_cases hother : other = page
    · subst hother
      rw [Function.update_self] at hlog ⊢
      exact hcleared hlog
    · rw [Function.update_of_ne hother] at hlog ⊢
      exact h.cleared other hlog
  · intro other hlog
    by_cases hother : other = page
    · subst hother
      rw [Function.update_self] at hlog ⊢
      exact hnever hlog
    · rw [Function.update_of_ne hother] at hlog ⊢
      exact h.never other hlog

theorem LogOk.getPage (h : LogOk before m.entryAt log) (address : Nat) (make : Int) :
    LogOk before (m.getPage obj address make).2.entryAt (logGetPage obj address make m log) := by
  rw [getPage_snd]
  unfold logGetPage
  dsimp only
  split
  case isFalse => exact h
  case isTrue =>
    refine ⟨?_, ?_, ?_⟩
    · intro page f hlog
      rw [entryAt_makeTable]
      split at hlog
      case isTrue => exact absurd hlog (Handout.clear_ne_frame _ f)
      case isFalse hother =>
        rw [if_neg hother]
        exact h.frame page f hlog
    · intro page hlog
      rw [entryAt_makeTable]
      split at hlog
      case isTrue hsame => rw [if_pos hsame, Page.zero_frame]
      case isFalse hother =>
        rw [if_neg hother]
        exact h.cleared page hlog
    · intro page hlog hpresent
      rw [entryAt_makeTable] at hpresent
      split at hlog
      case isTrue hsame =>
        rw [if_pos hsame] at hpresent
        cases hpresent
      case isFalse hother =>
        rw [if_neg hother] at hpresent
        exact h.never page hlog hpresent

theorem LogOk.allocFrame (h : LogOk before m.entryAt log) {page : κ × Nat} {k w : Int}
    (hok : m.allocFrameAt (some page) k w = .ok m') :
    LogOk before m'.entryAt (logAllocFrame page m log) := by
  by_cases hzero : (m.entryAt page).frame = 0
  · obtain ⟨-, entry, hentry, -, hframe⟩ := allocFrameAt_of_zero hzero hok
    rw [hentry, logAllocFrame, if_pos hzero]
    apply h.update
    · intro f hf
      rw [hframe, Handout.frame.inj hf]
    · intro hf
      cases hf
    · intro hf
      cases hf
  · rw [(allocFrameAt_of_frame hzero hok).1, logAllocFrame, if_neg hzero]
    exact h

theorem LogOk.freeFrame (h : LogOk before m.entryAt log) (page : κ × Nat) :
    LogOk before (m.freeFrameAt page).entryAt (logFreeFrame page log) := by
  rw [freeFrameAt, entryAt_write]
  apply h.update
  · intro f hf
    exact absurd hf (Handout.clear_ne_frame _ f)
  · intro _
    exact freeFrame_frame _ _
  · intro hnever hpresent
    rw [freeFrame_present] at hpresent
    exact h.never page (Handout.clear_eq_never.mp hnever) hpresent

theorem Traced.logOk (h : Traced obj setup log m) : LogOk setup.entryAt m.entryAt log := by
  induction h with
  | setup => exact ⟨fun _ _ hlog => Handout.noConfusion hlog, fun _ hlog => Handout.noConfusion hlog,
      fun _ _ hpresent => hpresent⟩
  | getPage address make _ ih => exact ih.getPage address make
  | allocFrame page k w _ hok ih => exact ih.allocFrame hok
  | freeFrame page _ ih => exact ih.freeFrame page
  | heapInstall _ ih => exact ih
  | moved e w _ ih => exact ih

/-- Every state that is reached has a log. -/
theorem Reached.traced (hm : Reached obj setup m) : ∃ log, Traced obj setup log m := by
  refine Reached.keeps (P := fun m => ∃ log, Traced obj setup log m) ⟨?_, ?_, ?_, ?_, ?_⟩
    ⟨_, .setup⟩ hm
  · intro m address make ⟨log, h⟩
    exact ⟨_, h.getPage address make⟩
  · intro m m' page k w ⟨log, h⟩ hok
    exact ⟨_, h.allocFrame page k w hok⟩
  · intro m page ⟨log, h⟩
    exact ⟨_, h.freeFrame page⟩
  · intro m ⟨log, h⟩
    exact ⟨log, h.heapInstall⟩
  · intro m e w ⟨log, h⟩
    exact ⟨log, h.moved e w⟩

/-- A repeated `alloc_frame` is harmless exactly on the entries that hold a frame whose
number is not 0 in its 20 bits, or when no frame is left and the call does not come
back. -/
theorem allocFrame_idempotent_iff {start : Nat} {frames : Bitmap 32} {entries : κ → Nat → Page}
    {memsize : UInt32} (hm : Reached obj ((initial start frames entries).pagingSetup memsize) m) :
    (∃ log, Traced obj ((initial start frames entries).pagingSetup memsize) log m) ∧
      ∀ log, Traced obj ((initial start frames entries).pagingSetup memsize) log m →
        ∀ page, log page ≠ .never →
          (m.Idempotent page ↔ (∃ f, log page = .frame f ∧ f % 2 ^ 20 ≠ 0) ∨
            m.allocator.firstFrame = FrameAllocator.noFrame) := by
  refine ⟨hm.traced, ?_⟩
  intro log htraced page hgot
  have hlog := htraced.logOk
  have hheld : (m.entryAt page).frame ≠ 0 ↔ ∃ f, log page = .frame f ∧ f % 2 ^ 20 ≠ 0 := by
    cases hpage : log page with
    | never => exact absurd hpage hgot
    | cleared => simp [hlog.cleared page hpage]
    | frame f =>
        rw [hlog.frame page f hpage]
        have hzero : BitVec.ofNat 20 f = 0#20 ↔ f % 2 ^ 20 = 0 := by
          rw [← BitVec.toNat_inj, BitVec.toNat_ofNat]
          rfl
        constructor
        · intro hne
          exact ⟨f, rfl, fun hmod => hne (hzero.mpr hmod)⟩
        · rintro ⟨f', hf, hne⟩ heq
          cases hf
          exact hne (hzero.mp heq)
  rw [idempotent_iff, hheld]

theorem allocFrame_idempotent_boot :
    ∃ boot : Mm Nat, pagingInstall (fun _ base => base) 0x1000 0x20000
        (initial 0x105060 (fun _ => 0) fun _ _ => Page.zero) = .ok boot ∧
      ∃ log, Traced (fun _ base => base)
          ((initial 0x105060 (fun _ => 0) fun _ _ => Page.zero).pagingSetup 0x20000) log boot ∧
        ∀ page, log page ≠ .never →
          (boot.Idempotent page ↔ (∃ f, log page = .frame f ∧ f % 2 ^ 20 ≠ 0) ∨
            boot.allocator.firstFrame = FrameAllocator.noFrame) := by
  obtain ⟨boot, hboot, -⟩ := pagingInstall_128MB fun _ base => base
  obtain ⟨⟨log, htraced⟩, hiff⟩ := allocFrame_idempotent_iff (pagingInstall_reached hboot)
  exact ⟨boot, hboot, log, htraced, hiff log htraced⟩

/-- Page 0 got frame 0 in the boot loop, and gets another frame from the next call. -/
theorem allocFrame_again_on_page_zero :
    ∃ (boot : Mm (Nat × Nat)) (log : (Nat × Nat) × Nat → Handout),
      pagingInstall Prod.mk 0x1000 0x20000
        (initial 0x105060 (fun _ => 0) fun _ _ => Page.zero) = .ok boot ∧
      Traced Prod.mk ((initial 0x105060 (fun _ => 0) fun _ _ => Page.zero).pagingSetup 0x20000)
        log boot ∧
      log ((0, boot.tables 0), 0) ≠ .never ∧ ¬ boot.Idempotent ((0, boot.tables 0), 0) := by
  have hobj : SlotsApart (Prod.mk : Nat → Nat → Nat × Nat) :=
    fun _ _ _ _ heq => congrArg Prod.fst heq
  obtain ⟨boot, hboot, hw, hle⟩ := pagingInstall_128MB (Prod.mk : Nat → Nat → Nat × Nat)
  have hlayout : ∃ k, boot.placementPointer = k * 0x1000 ∧ BootLayout k boot ∧
      (True → IdentityUpTo Prod.mk k boot) :=
    pagingInstall_layout (fun _ => hobj) (fun _ => rfl) (by decide) hboot hw
  obtain ⟨k, hk, hlow, hid⟩ := hlayout
  have hpos : 0 < k := by
    have hpointer := hlow.low
    omega
  obtain ⟨hpresent, hframe⟩ := (hid trivial).mapped 0 hpos
  obtain ⟨log, htraced⟩ := (pagingInstall_reached hboot).traced
  refine ⟨boot, log, hboot, htraced, ?_, ?_⟩
  · intro hnever
    have hbefore := htraced.logOk.never _ hnever hpresent
    cases hbefore
  · rw [idempotent_iff, not_or]
    constructor
    · intro hne
      exact hne (BitVec.eq_of_toNat_eq hframe)
    · intro hnone
      have hscanned : k < boot.allocator.scanned := by
        rw [pagingInstall_scanned hboot]
        have hsize : indexFromBit ((0x20000 : UInt32) / 4).toNat * 0x20 = 0x8000 := by decide
        omega
      have hused := boot.allocator.firstFrame_eq_noFrame_iff.mp hnone k hscanned
      rw [(hid trivial).inUse k] at hused
      simp at hused

end Mm

end X32PRos
