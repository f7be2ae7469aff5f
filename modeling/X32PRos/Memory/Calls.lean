import X32PRos.Memory.HeapGrowth

/-!
The functions of `core/mem.c` as calls in any order, and the induction over the
states they reach. The loops of `paging_install` and `sbrk` reach tables and
entries through `get_page` and `alloc_frame` only, so that a property which the
single calls keep is kept by the loops.
-/

namespace X32PRos

open Foundation

/-- A call into the memory manager. An entry is named by its table and its index. -/
inductive MmCall (κ : Type)
  | allocFrame (page : κ × Nat) (isKernel isWriteable : Int)
  | freeFrame (page : κ × Nat)
  | getPage (address : Nat) (make : Int)
  | sbrk (increment : Nat)
  | heapInstall

namespace Mm

variable {κ : Type} [DecidableEq κ] (obj : Nat → Nat → κ)

def freeFrameAt (page : κ × Nat) (m : Mm κ) : Mm κ :=
  let r := freeFrame (m.entries page.1 page.2) m.allocator
  { m with
    allocator := r.2
    entries := fun o i => if o = page.1 ∧ i = page.2 then r.1 else m.entries o i }

def call (m : Mm κ) : MmCall κ → Except Fault (Mm κ)
  | .allocFrame page isKernel isWriteable => m.allocFrameAt (some page) isKernel isWriteable
  | .freeFrame page => .ok (m.freeFrameAt page)
  | .getPage address make => .ok (m.getPage obj address make).2
  | .sbrk increment =>
      match m.sbrk obj increment with
      | .error e => .error e
      | .ok r => .ok r.2
  | .heapInstall => .ok m.heapInstall

inductive Reached (setup : Mm κ) : Mm κ → Prop
  | setup : Reached setup setup
  | turn {m m' : Mm κ} {i i' : Nat} : Reached setup m →
      mapPlacedTurn obj (i, m) = .ok (i', m') → Reached setup m'
  | call {m m' : Mm κ} (c : MmCall κ) : Reached setup m → m.call obj c = .ok m' →
      Reached setup m'

/-- A property that the single calls keep. The loops move the end of the heap and
the ghost flag besides. -/
structure Kept (P : Mm κ → Prop) : Prop where
  getPage : ∀ m address make, P m → P (m.getPage obj address make).2
  allocFrame : ∀ m m' page k w, P m → m.allocFrameAt (some page) k w = .ok m' → P m'
  freeFrame : ∀ m page, P m → P (m.freeFrameAt page)
  heapInstall : ∀ m, P m → P m.heapInstall
  moved : ∀ m e w, P m → P { m with heapEnd := e, wrapped := w }

variable {obj} {P : Mm κ → Prop} {m m' setup : Mm κ}

theorem Kept.mapPage (h : Kept obj P) {i : Nat} (hm : P m) (hok : m.mapPage obj i = .ok m') :
    P m' := by
  rw [Mm.mapPage, getPage_fst] at hok
  exact h.allocFrame _ _ _ _ _ (h.getPage m i 1 hm) hok

theorem Kept.nextPage (h : Kept obj P) (i : Nat) (hm : P m) : P (m.nextPage i).2 :=
  h.moved m m.heapEnd _ hm

theorem Kept.mapPlacedTurn (h : Kept obj P) {s s' : Nat × Mm κ} (hm : P s.2)
    (hok : Mm.mapPlacedTurn obj s = .ok s') : P s'.2 := by
  obtain ⟨m', hpage, rfl⟩ := mapPlacedTurn_ok hok
  exact h.nextPage s.1 (h.mapPage hm hpage)

theorem Kept.mapGrowthTurn (h : Kept obj P) {s s' : Nat × Mm κ} (hm : P s.2)
    (hok : Mm.mapGrowthTurn obj s = .ok s') : P s'.2 := by
  unfold Mm.mapGrowthTurn at hok
  dsimp only at hok
  split at hok
  case h_1 => cases hok
  case h_2 m' hpage =>
    rw [← Except.ok.inj hok]
    exact h.nextPage s.1 (h.mapPage (h.getPage s.2 s.1 1 hm) hpage)

theorem Kept.sbrk (h : Kept obj P) {increment address : Nat} (hm : P m)
    (hok : m.sbrk obj increment = .ok (address, m')) : P m' := by
  obtain ⟨-, -, i, hloop⟩ := sbrk_ok hok
  have hend := Loop.loop_invariant (I := fun s : Nat × Mm κ => P s.2)
    (fun s s' hs _ hturn => h.mapGrowthTurn hs hturn) _ _ _ (h.moved m _ _ hm) hloop
  exact hend.1

theorem Kept.call (h : Kept obj P) (c : MmCall κ) (hm : P m) (hok : m.call obj c = .ok m') :
    P m' := by
  cases c with
  | allocFrame page k w => exact h.allocFrame _ _ _ _ _ hm hok
  | freeFrame page =>
      rw [← Except.ok.inj hok]
      exact h.freeFrame m page hm
  | getPage address make =>
      rw [← Except.ok.inj hok]
      exact h.getPage m address make hm
  | sbrk increment =>
      simp only [Mm.call] at hok
      split at hok
      case h_1 => cases hok
      case h_2 r hsbrk =>
        rw [← Except.ok.inj hok]
        exact h.sbrk hm hsbrk
  | heapInstall =>
      rw [← Except.ok.inj hok]
      exact h.heapInstall m hm

/-- What the single calls keep holds in every state. -/
theorem Reached.keeps (h : Kept obj P) (hsetup : P setup) (hm : Reached obj setup m) : P m := by
  induction hm with
  | setup => exact hsetup
  | turn _ hturn ih => exact h.mapPlacedTurn ih hturn
  | call c _ hok ih => exact h.call c ih hok

/-- The state that `paging_install` leaves is one of them. -/
theorem pagingInstall_reached {fuel : Nat} {memsize : UInt32} {boot : Mm κ}
    (hok : pagingInstall obj fuel memsize m = .ok boot) :
    Reached obj (m.pagingSetup memsize) boot := by
  obtain ⟨i, hloop⟩ := pagingInstall_ok hok
  have hend := Loop.loop_invariant
    (I := fun s : Nat × Mm κ => Reached obj (m.pagingSetup memsize) s.2)
    (fun _ _ hs _ hturn => Reached.turn hs hturn) fuel (0, m.pagingSetup memsize) (i, boot)
    Reached.setup hloop
  exact hend.1

end Mm

end X32PRos
