import Mathlib.Order.Lattice
import Mathlib.Data.List.Nodup
import Mathlib.Data.List.Pairwise
import X32PRos.Foundation.Linked
import X32PRos.Foundation.Loop

/-!
Skip lists: the nodes of one sorted list, linked once for every level up to
their own height. The search goes down the levels and remembers where it left
each of them; a node is linked in or out at those positions.
-/

namespace Foundation.SkipList

variable {α κ ε : Type} [LinearOrder κ]

def atLevel (height : α → Nat) (i : Nat) (l : List α) : List α :=
  l.filter fun a => decide (i ≤ height a)

/-- Level `i` links the nodes of height `i` and more, for every level up to
`top`, in the order of their keys. -/
structure Represents (top : Nat) (key : α → κ) (height : α → Nat)
    (next : Nat → Option α → Option α) (l : List α) : Prop where
  linked : ∀ i ≤ top, Linked (next i) none (atLevel height i l)
  sorted : l.Pairwise fun a b => key a ≤ key b
  nodup : l.Nodup

/-- The level the list is searched from: none is higher, and it is used. -/
structure Level (height : α → Nat) (l : List α) (level : Nat) : Prop where
  bound : ∀ a ∈ l, height a ≤ level
  used : level = 0 ∨ ∃ a ∈ l, height a = level

section AtLevel

variable {height : α → Nat} {i : Nat} {l p q : List α} {v : α}

theorem mem_atLevel {a : α} : a ∈ atLevel height i l ↔ a ∈ l ∧ i ≤ height a := by
  simp [atLevel]

@[simp] theorem atLevel_append :
    atLevel height i (p ++ q) = atLevel height i p ++ atLevel height i q :=
  List.filter_append ..

theorem atLevel_cons_of_le (h : i ≤ height v) :
    atLevel height i (v :: l) = v :: atLevel height i l := by
  simp [atLevel, h]

theorem atLevel_cons_of_lt (h : height v < i) :
    atLevel height i (v :: l) = atLevel height i l := by
  simp [atLevel, Nat.not_le.mpr h]

theorem atLevel_zero : atLevel height 0 l = l := by
  simp [atLevel]

theorem atLevel_sublist : (atLevel height i l).Sublist l := List.filter_sublist

variable (height) in
theorem atLevel_succ_sublist : (atLevel height (i + 1) l).Sublist (atLevel height i l) :=
  List.monotone_filter_right l fun a h => by
    simp only [decide_eq_true_eq] at h ⊢
    omega

theorem atLevel_eq_nil (h : ∀ a ∈ l, height a < i) : atLevel height i l = [] := by
  simpa [atLevel] using h

theorem atLevel_congr {height' : α → Nat} (h : ∀ a ∈ l, height' a = height a) :
    atLevel height' i l = atLevel height i l :=
  List.filter_congr fun a ha => by rw [h a ha]

end AtLevel

/-- The nodes with a smaller key come first. -/
theorem exists_split (key : α → κ) {l : List α} (hsorted : l.Pairwise fun a b => key a ≤ key b)
    (s : κ) :
    ∃ p q, l = p ++ q ∧ (∀ a ∈ p, key a < s) ∧ ∀ a ∈ q, s ≤ key a := by
  induction l with
  | nil => exact ⟨[], [], rfl, by simp, by simp⟩
  | cons a l ih =>
      obtain ⟨ha, hl⟩ := List.pairwise_cons.mp hsorted
      by_cases hlt : key a < s
      · obtain ⟨p, q, rfl, hp, hq⟩ := ih hl
        exact ⟨a :: p, q, rfl, List.forall_mem_cons.mpr ⟨hlt, hp⟩, hq⟩
      · refine ⟨[], a :: l, rfl, by simp, ?_⟩
        intro b hb
        rcases List.mem_cons.mp hb with rfl | hb
        · exact le_of_not_gt hlt
        · exact le_trans (le_of_not_gt hlt) (ha b hb)

/-! ### The search -/

/-- One level: the loop passes the nodes that are `below` and stops in front of
the first other one. -/
theorem seek_returns {next : Option α → Option α} {guard : Option α → Except ε Bool}
    {body : Option α → Except ε (Option α)} {stuck : ε} {p q : List α}
    (hlink : Linked next none (p ++ q))
    (hpass : ∀ u a, u ∈ none :: p.map some → next u = some a → a ∈ p →
      guard u = .ok true ∧ body u = .ok (some a))
    (hstop : guard (tip none p) = .ok false) :
    ∀ (r s : List α) (fuel : Nat), p = s ++ r → r.length < fuel →
      Loop.loop guard body stuck fuel (tip none s) = .ok (tip none p) := by
  intro r
  induction r with
  | nil =>
      intro s fuel hp hfuel
      obtain ⟨fuel, rfl⟩ := Nat.exists_eq_succ_of_ne_zero (Nat.ne_zero_of_lt hfuel)
      rw [List.append_nil] at hp
      subst hp
      exact Loop.loop_of_exit fuel hstop
  | cons a r ih =>
      intro s fuel hp hfuel
      obtain ⟨fuel, rfl⟩ := Nat.exists_eq_succ_of_ne_zero (Nat.ne_zero_of_lt hfuel)
      have hnext : next (tip none s) = some a := by
        rw [hp, List.append_assoc] at hlink
        exact hlink.next_tip_cons
      have hmem : tip none s ∈ none :: p.map some := by
        cases List.mem_cons.mp (tip_mem none s) with
        | inl hnone =>
            rw [hnone]
            exact List.mem_cons_self
        | inr hs =>
            rw [hp, List.map_append]
            exact List.mem_cons_of_mem _ (List.mem_append_left _ hs)
      obtain ⟨hg, hb⟩ := hpass _ a hmem hnext (by rw [hp]; simp)
      rw [Loop.loop_of_turn fuel hg hb]
      have hstep := ih (s ++ [a]) fuel (by rw [hp, List.append_assoc]; rfl)
        (by rw [List.length_cons] at hfuel; omega)
      rwa [tip_concat] at hstep

/-- `for (i = level; i >= 0; --i) { node = seek i node; update[i] = node; }` -/
def descend (seek : Nat → Option α → Except ε (Option α)) :
    Nat → Option α → (Nat → Option α) → Except ε (Option α × (Nat → Option α))
  | 0, node, update =>
      match seek 0 node with
      | .error e => .error e
      | .ok node => .ok (node, fun j => if j = 0 then node else update j)
  | i + 1, node, update =>
      match seek (i + 1) node with
      | .error e => .error e
      | .ok node => descend seek i node fun j => if j = i + 1 then node else update j

/-- On every level the search leaves at the last of the smaller nodes there. -/
theorem descend_returns (seek : Nat → Option α → Except ε (Option α)) (height : α → Nat)
    (p : List α) {level : Nat}
    (hseek : ∀ i ≤ level, ∀ s r, atLevel height i p = s ++ r →
      seek i (tip none s) = .ok (tip none (atLevel height i p))) :
    ∀ (i : Nat) (u : Option α) (update : Nat → Option α), i ≤ level →
      (∃ s r, atLevel height i p = s ++ r ∧ u = tip none s) →
      ∃ update', descend seek i u update = .ok (tip none p, update') ∧
        (∀ j ≤ i, update' j = tip none (atLevel height j p)) ∧ ∀ j, i < j → update' j = update j := by
  intro i
  induction i with
  | zero =>
      rintro u update hi ⟨s, r, hsr, rfl⟩
      refine ⟨fun j => if j = 0 then tip none p else update j, ?_, ?_, ?_⟩
      · simp only [descend, hseek 0 hi s r hsr, atLevel_zero]
      · intro j hj
        have hzero := Nat.le_zero.mp hj
        subst hzero
        rw [atLevel_zero]
        rfl
      · intro j hj
        exact if_neg (Nat.ne_of_gt hj)
  | succ i ih =>
      rintro u update hi ⟨s, r, hsr, rfl⟩
      obtain ⟨s', r', hsr', htip⟩ :=
        exists_prefix_tip (atLevel_succ_sublist height (i := i) (l := p))
      obtain ⟨update', hdesc, hlow, hhigh⟩ := ih (tip none (atLevel height (i + 1) p))
        (fun j => if j = i + 1 then tip none (atLevel height (i + 1) p) else update j)
        (Nat.le_of_succ_le hi) ⟨s', r', hsr', htip.symm⟩
      refine ⟨update', ?_, ?_, ?_⟩
      · simp only [descend, hseek (i + 1) hi s r hsr]
        exact hdesc
      · intro j hj
        rcases Nat.lt_or_eq_of_le hj with hlt | rfl
        · exact hlow j (Nat.le_of_lt_succ hlt)
        · rw [hhigh (i + 1) (Nat.lt_succ_self i), if_pos rfl]
      · intro j hj
        rw [hhigh j (by omega), if_neg (by omega)]

/-! ### Linking a node in and out -/

variable {top : Nat} {key : α → κ} {height height' : α → Nat}
  {next next' : Nat → Option α → Option α} {p q : List α} {v : α}

theorem Represents.at_nodup (h : Represents top key height next (p ++ q)) (i : Nat) :
    (none :: (atLevel height i p ++ atLevel height i q).map some).Nodup := by
  rw [← atLevel_append]
  exact Linked.nodup_none_cons (h.nodup.sublist atLevel_sublist)

theorem mem_positions {i : Nat} {w : Option α}
    (hw : w ∈ none :: (atLevel height i p ++ atLevel height i q).map some) :
    w ∈ none :: (p ++ q).map some := by
  rw [← atLevel_append] at hw
  exact (List.cons_sublist_cons.mpr (atLevel_sublist.map some)).subset hw

theorem Represents.of_key {key' : α → κ} {l : List α} (h : Represents top key height next l)
    (hkey : ∀ a ∈ l, key' a = key a) : Represents top key' height next l :=
  ⟨h.linked, h.sorted.imp_of_mem fun ha hb hle => by rwa [hkey _ ha, hkey _ hb], h.nodup⟩

/-- A level that no pointer of the list is written on. -/
theorem linked_other {i : Nat}
    (h : Linked (next i) none (atLevel height i p ++ atLevel height i q))
    (hother : ∀ w ∈ none :: (p ++ q).map some, next' i w = next i w) :
    Linked (next' i) none (atLevel height i p ++ atLevel height i q) := by
  apply h.congr (hother none List.mem_cons_self)
  intro a ha
  exact hother (some a) (mem_positions (List.mem_cons_of_mem _ (List.mem_map_of_mem ha)))

/-- What has to be written to put `v` between `p` and `q`. -/
theorem Represents.insert_at (height' : α → Nat) (next' : Nat → Option α → Option α)
    (h : Represents top key height next (p ++ q)) (hv : v ∉ p ++ q)
    (hp : ∀ a ∈ p, key a ≤ key v) (hq : ∀ a ∈ q, key v ≤ key a)
    (hheight : ∀ a, a ≠ v → height' a = height a)
    (hprev : ∀ i ≤ top, i ≤ height' v → next' i (tip none (atLevel height i p)) = some v)
    (hnew : ∀ i ≤ top, i ≤ height' v → next' i (some v) = next i (tip none (atLevel height i p)))
    (hother : ∀ i ≤ top, ∀ w ∈ none :: (p ++ q).map some,
      (i ≤ height' v → w ≠ tip none (atLevel height i p)) → next' i w = next i w) :
    Represents top key height' next' (p ++ v :: q) := by
  have hcongr : ∀ i, ∀ l : List α, v ∉ l → atLevel height' i l = atLevel height i l := by
    intro i l hl
    exact atLevel_congr fun a ha => hheight a fun heq => hl (heq ▸ ha)
  have hvp : v ∉ p := fun hmem => hv (List.mem_append_left _ hmem)
  have hvq : v ∉ q := fun hmem => hv (List.mem_append_right _ hmem)
  refine ⟨?_, ?_, ?_⟩
  · intro i hi
    have hlink := h.linked i hi
    rw [atLevel_append] at hlink
    have hvi : some v ∉ none :: (atLevel height i p ++ atLevel height i q).map some := by
      simp only [List.mem_cons, List.mem_map, Option.some.injEq, exists_eq_right,
        List.mem_append, mem_atLevel, reduceCtorEq, false_or]
      rintro (⟨hmem, -⟩ | ⟨hmem, -⟩)
      · exact hvp hmem
      · exact hvq hmem
    rw [atLevel_append, hcongr i p hvp]
    by_cases hle : i ≤ height' v
    · rw [atLevel_cons_of_le hle, hcongr i q hvq]
      exact hlink.insert_at (h.at_nodup i) hvi (hprev i hi hle) (hnew i hi hle)
        fun w hw hne => hother i hi w (mem_positions hw) fun _ => hne
    · rw [atLevel_cons_of_lt (Nat.lt_of_not_le hle), hcongr i q hvq]
      exact linked_other hlink fun w hw => hother i hi w hw fun hle' => absurd hle' hle
  · have hsorted := List.pairwise_append.mp h.sorted
    refine List.pairwise_append.mpr ⟨hsorted.1, List.pairwise_cons.mpr ⟨hq, hsorted.2.1⟩, ?_⟩
    intro a ha b hb
    rcases List.mem_cons.mp hb with rfl | hb
    · exact hp a ha
    · exact hsorted.2.2 a ha b hb
  · exact List.nodup_middle.mpr (List.nodup_cons.mpr ⟨hv, h.nodup⟩)

/-- What has to be written to take `v` out from between `p` and `q`. -/
theorem Represents.remove_at (next' : Nat → Option α → Option α)
    (h : Represents top key height next (p ++ v :: q))
    (hprev : ∀ i ≤ top, i ≤ height v →
      next' i (tip none (atLevel height i p)) = next i (some v))
    (hother : ∀ i ≤ top, ∀ w ∈ none :: (p ++ q).map some,
      (i ≤ height v → w ≠ tip none (atLevel height i p)) → next' i w = next i w) :
    Represents top key height next' (p ++ q) := by
  have hnodup := List.nodup_cons.mp (List.nodup_middle.mp h.nodup)
  refine ⟨?_, ?_, hnodup.2⟩
  · intro i hi
    have hlink := h.linked i hi
    rw [atLevel_append] at hlink ⊢
    by_cases hle : i ≤ height v
    · rw [atLevel_cons_of_le hle] at hlink
      have hnd := h.at_nodup i
      rw [atLevel_cons_of_le hle] at hnd
      exact hlink.remove_at hnd (hprev i hi hle)
        fun w hw hne => hother i hi w (mem_positions hw) fun _ => hne
    · rw [atLevel_cons_of_lt (Nat.lt_of_not_le hle)] at hlink
      exact linked_other hlink fun w hw => hother i hi w hw fun hle' => absurd hle' hle
  · have hsorted := List.pairwise_append.mp h.sorted
    refine List.pairwise_append.mpr ⟨hsorted.1, (List.pairwise_cons.mp hsorted.2.1).2, ?_⟩
    intro a ha b hb
    exact hsorted.2.2 a ha b (List.mem_cons_of_mem v hb)

end Foundation.SkipList
