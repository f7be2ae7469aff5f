import Mathlib.Data.List.Nodup
import Mathlib.Data.List.Basic
import Mathlib.Data.Option.Basic

/-!
Singly linked lists with a sentinel: `next none` is the pointer kept outside the
nodes, `next (some a)` the one in node `a`, and a pointer that is `none` is null.
Linking in and out of the middle is read off from the two pointers it changes.
-/

namespace Foundation

variable {α : Type}

/-- The nodes after `u` are those of the list, and then the chain ends. -/
def Linked (next : Option α → Option α) : Option α → List α → Prop
  | u, [] => next u = none
  | u, a :: l => next u = some a ∧ Linked next (some a) l

/-- The position reached from `u` over the nodes of the list. -/
def tip : Option α → List α → Option α
  | u, [] => u
  | _, a :: l => tip (some a) l

@[simp] theorem tip_nil (u : Option α) : tip u [] = u := rfl

@[simp] theorem tip_concat (u : Option α) (l : List α) (x : α) : tip u (l ++ [x]) = some x := by
  induction l generalizing u with
  | nil => rfl
  | cons a l ih => exact ih (some a)

theorem tip_mem (u : Option α) (l : List α) : tip u l ∈ u :: l.map some := by
  induction l generalizing u with
  | nil => exact List.mem_cons_self
  | cons a l ih => exact List.mem_cons_of_mem u (ih (some a))

theorem mem_of_tip_eq {l : List α} {x : α} (h : tip none l = some x) : x ∈ l := by
  have hmem := tip_mem none l
  rw [h] at hmem
  simpa using hmem

/-- Where a sublist ends, the list can be cut. -/
theorem exists_prefix_tip {l l' : List α} (h : l'.Sublist l) :
    ∃ p r, l = p ++ r ∧ tip none p = tip none l' := by
  cases hl : tip none l' with
  | none => exact ⟨[], l, rfl, rfl⟩
  | some x =>
      obtain ⟨s, t, hst⟩ := List.append_of_mem (h.subset (mem_of_tip_eq hl))
      exact ⟨s ++ [x], t, by rw [hst, List.append_assoc]; rfl, tip_concat none s x⟩

namespace Linked

variable {next next' : Option α → Option α} {u : Option α} {l p q : List α} {v : α}

theorem congr (h : Linked next u l) (hu : next' u = next u)
    (hl : ∀ a ∈ l, next' (some a) = next (some a)) : Linked next' u l := by
  induction l generalizing u with
  | nil => exact hu.trans h
  | cons a l ih =>
      exact ⟨hu.trans h.1, ih h.2 (hl a List.mem_cons_self)
        fun b hb => hl b (List.mem_cons_of_mem a hb)⟩

/-- The nodes of a chain are determined by its pointers. -/
theorem unique {l' : List α} (h : Linked next u l) (h' : Linked next u l') : l = l' := by
  induction l generalizing u l' with
  | nil =>
      cases l' with
      | nil => rfl
      | cons b l' => exact absurd (h.symm.trans h'.1) (by simp)
  | cons a l ih =>
      cases l' with
      | nil => exact absurd (h'.symm.trans h.1) (by simp)
      | cons b l' =>
          have hab : a = b := Option.some.inj (h.1.symm.trans h'.1)
          subst hab
          rw [ih h.2 h'.2]

theorem drop (h : Linked next u (p ++ q)) : Linked next (tip u p) q := by
  induction p generalizing u with
  | nil => exact h
  | cons a p ih => exact ih h.2

theorem next_tip (h : Linked next u l) : next (tip u l) = none := by
  induction l generalizing u with
  | nil => exact h
  | cons a l ih => exact ih h.2

/-- The pointer at the end of a part that is followed by `v`. -/
theorem next_tip_cons (h : Linked next u (p ++ v :: q)) : next (tip u p) = some v :=
  h.drop.1

theorem nodup_none_cons (hl : l.Nodup) : (none :: l.map some).Nodup :=
  List.nodup_cons.mpr ⟨by simp, hl.map (Option.some_injective α)⟩

/-- A position inside a chain is not the one it ends at. -/
theorem ne_tip_of_nodup {a : α} (hnodup : (u :: (a :: p ++ q).map some).Nodup) :
    u ≠ tip (some a) p := by
  intro heq
  have hmem := tip_mem (some a) p
  rw [← heq] at hmem
  apply (List.nodup_cons.mp hnodup).1
  rw [List.map_append]
  exact List.mem_append_left _ hmem

/-- Behind the first position every pointer is an old one. -/
theorem rest_eq (hu : u ∉ q.map some)
    (hother : ∀ w ∈ u :: q.map some, w ≠ u → next' w = next w) :
    ∀ b ∈ q, next' (some b) = next (some b) := by
  intro b hb
  have hmem : some b ∈ q.map some := List.mem_map_of_mem hb
  apply hother (some b) (List.mem_cons_of_mem u hmem)
  intro heq
  exact hu (heq ▸ hmem)

theorem insert_at (h : Linked next u (p ++ q)) (hnodup : (u :: (p ++ q).map some).Nodup)
    (hv : some v ∉ u :: (p ++ q).map some) (hprev : next' (tip u p) = some v)
    (hnew : next' (some v) = next (tip u p))
    (hother : ∀ w ∈ u :: (p ++ q).map some, w ≠ tip u p → next' w = next w) :
    Linked next' u (p ++ v :: q) := by
  induction p generalizing u with
  | nil =>
      refine ⟨hprev, ?_⟩
      have hrest := rest_eq (List.nodup_cons.mp hnodup).1 hother
      cases q with
      | nil => exact hnew.trans h
      | cons b q =>
          exact ⟨hnew.trans h.1, h.2.congr (hrest b List.mem_cons_self)
            fun a ha => hrest a (List.mem_cons_of_mem b ha)⟩
  | cons a p ih =>
      refine ⟨?_, ih h.2 (List.nodup_cons.mp hnodup).2
        (fun hmem => hv (List.mem_cons_of_mem u hmem)) hprev hnew
        fun w hw => hother w (List.mem_cons_of_mem u hw)⟩
      rw [hother u List.mem_cons_self (ne_tip_of_nodup hnodup)]
      exact h.1

theorem remove_at (h : Linked next u (p ++ v :: q))
    (hnodup : (u :: (p ++ v :: q).map some).Nodup)
    (hprev : next' (tip u p) = next (some v))
    (hother : ∀ w ∈ u :: (p ++ q).map some, w ≠ tip u p → next' w = next w) :
    Linked next' u (p ++ q) := by
  induction p generalizing u with
  | nil =>
      have hu : u ∉ q.map some := fun hmem =>
        (List.nodup_cons.mp hnodup).1 (List.mem_cons_of_mem (some v) hmem)
      have hrest := rest_eq hu hother
      cases q with
      | nil => exact hprev.trans h.2
      | cons b q =>
          exact ⟨hprev.trans h.2.1, h.2.2.congr (hrest b List.mem_cons_self)
            fun a ha => hrest a (List.mem_cons_of_mem b ha)⟩
  | cons a p ih =>
      refine ⟨?_, ih h.2 (List.nodup_cons.mp hnodup).2 hprev
        fun w hw => hother w (List.mem_cons_of_mem u hw)⟩
      rw [hother u List.mem_cons_self (ne_tip_of_nodup hnodup)]
      exact h.1

/-- Nodes with consecutive numbers. -/
theorem of_range' {f : Nat → α} {n i : Nat}
    (hstep : ∀ j, i ≤ j → j < i + n → next (some (f j)) = some (f (j + 1)))
    (hend : next (some (f (i + n))) = none) :
    Linked next (some (f i)) ((List.range' (i + 1) n).map f) := by
  induction n generalizing i with
  | zero => exact hend
  | succ n ih =>
      rw [List.range'_succ, List.map_cons]
      refine ⟨hstep i (Nat.le_refl i) (by omega), ih ?_ ?_⟩
      · intro j hlo hhi
        exact hstep j (by omega) (by omega)
      · rw [Nat.add_assoc, Nat.add_comm 1 n]
        exact hend

/-- `v` becomes the first node. -/
theorem push (h : Linked next none l) (hhead : next' none = some v)
    (hnew : next' (some v) = next none)
    (hother : ∀ a ∈ l, next' (some a) = next (some a)) : Linked next' none (v :: l) := by
  refine ⟨hhead, ?_⟩
  cases l with
  | nil => exact hnew.trans h
  | cons a l =>
      exact ⟨hnew.trans h.1, h.2.congr (hother a List.mem_cons_self)
        fun b hb => hother b (List.mem_cons_of_mem a hb)⟩

/-- The first node leaves. -/
theorem pop (h : Linked next none (v :: l)) (hhead : next' none = next (some v))
    (hother : ∀ a ∈ l, next' (some a) = next (some a)) : Linked next' none l := by
  cases l with
  | nil => exact hhead.trans h.2
  | cons a l =>
      exact ⟨hhead.trans h.2.1, h.2.2.congr (hother a List.mem_cons_self)
        fun b hb => hother b (List.mem_cons_of_mem a hb)⟩

end Linked

end Foundation
