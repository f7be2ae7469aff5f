import X32PRos.Heap.SkipUpdate

/-!
`klmalloc_skip_list_delete` on any member of a skip list. The search ends in
front of the first block of the wanted size; the walk goes on to the member
itself, and `update` stays where the search left it.
-/

namespace X32PRos

open Foundation SkipList

variable {σ : Type}

/-- A skip list of free big blocks, in any order among blocks of one size. -/
structure BlockList (h : Heap σ) (l : List Nat) : Prop where
  skip : SkipAt h l
  blocks : ∀ a ∈ l, BlockAt h a
  heads : ∀ a ∈ l, h.headOf a ≠ 0

def chainWithout (h : Heap σ) (l : List Nat) (v i : Nat) : List Nat :=
  (atLevel h.inserted i l).filter fun a => decide (a ≠ v)

/-- The deletion returns, every level has lost `v` and nothing else, and the
level of the list is its highest one with a block, or 0. -/
def Deletes (h : Heap σ) (l : List Nat) (v : Nat) : Prop :=
  ∃ h', h.skipListDelete v = .ok h' ∧
    (∀ i ≤ skipMaxLevel, Linked (h'.skipNext i) none (chainWithout h l v i)) ∧
    (∀ i, h'.level < i → chainWithout h l v i = []) ∧
    (h'.level = 0 ∨ chainWithout h l v h'.level ≠ [])

def FirstOfSize (h : Heap σ) (l : List Nat) (v : Nat) : Prop :=
  ∃ p q, l = p ++ v :: q ∧ ∀ a ∈ p, h.sizeOf a ≠ h.sizeOf v

theorem sizeKey_inj {h : Heap σ} {a b : Nat} (heq : h.sizeKey a = h.sizeKey b) :
    h.sizeOf a = h.sizeOf b :=
  (signed_inj (Memory.load32_lt _ _) (Memory.load32_lt _ _)).mp heq

theorem filter_ne_of_nodup {p q : List Nat} {v : Nat} (hnodup : (p ++ v :: q).Nodup) :
    (p ++ v :: q).filter (fun a => decide (a ≠ v)) = p ++ q := by
  have hnot := List.nodup_cons.mp (List.nodup_middle.mp hnodup)
  have hkeep : ∀ a ∈ p ++ q, decide (a ≠ v) = true := by
    intro a ha
    exact decide_eq_true fun heq => hnot.1 (heq ▸ ha)
  rw [List.filter_append, List.filter_cons_of_neg (by simp), ← List.filter_append]
  exact List.filter_eq_self.mpr hkeep

theorem chainWithout_eq {h : Heap σ} {p q : List Nat} {v : Nat} (hnodup : (p ++ v :: q).Nodup)
    (i : Nat) : chainWithout h (p ++ v :: q) v i = atLevel h.inserted i (p ++ q) := by
  rw [← filter_ne_of_nodup hnodup]
  unfold chainWithout atLevel
  rw [List.filter_filter, List.filter_filter]
  exact List.filter_congr fun a _ => Bool.and_comm _ _

/-- The walk along level 0 to a block that is on it. -/
theorem walk_returns {h : Heap σ} {v : Nat} {body : Option Nat → Except Fault (Option Nat)}
    (hbody : ∀ x, body (some x) = h.readForward (some x) 0) :
    ∀ (r : List Nat) (a fuel : Nat), Linked (h.skipNext 0) (some a) r → v ∈ a :: r →
      r.length < fuel →
      Loop.loop (fun node => .ok (decide (node ≠ some v))) body .diverges fuel (some a) =
        .ok (some v) := by
  intro r
  induction r with
  | nil =>
      intro a fuel _ hv hfuel
      obtain ⟨fuel, rfl⟩ := Nat.exists_eq_succ_of_ne_zero (Nat.ne_of_gt hfuel)
      rw [List.mem_singleton.mp hv]
      exact Loop.loop_of_exit fuel (by simp)
  | cons b r ih =>
      intro a fuel hlink hv hfuel
      obtain ⟨fuel, rfl⟩ := Nat.exists_eq_succ_of_ne_zero (Nat.ne_of_gt (Nat.zero_lt_of_lt hfuel))
      by_cases hav : a = v
      · rw [hav]
        exact Loop.loop_of_exit fuel (by simp)
      · have hne : (some a : Heap.BigPtr) ≠ some v := fun heq => hav (Option.some.inj heq)
        have hread : body (some a) = .ok (some b) := by
          rw [hbody, Heap.readForward_eq fun _ _ => Nat.zero_le _, hlink.1]
        have hmem : v ∈ b :: r := (List.mem_cons.mp hv).resolve_left fun heq => hav heq.symm
        refine Eq.trans (Loop.loop_of_turn fuel ?_ hread) ?_
        · exact congrArg Except.ok (decide_eq_true hne)
        · exact ih b fuel hlink.2 hmem (Nat.lt_of_succ_lt_succ hfuel)

/-- Behind another block of its size, a block stays where it is. -/
theorem BlockList.delete_other {h : Heap σ} {p q : List Nat} {v b : Nat}
    (hs : BlockList h (p ++ b :: q)) (hcut : CutAt h (h.sizeOf v) p (b :: q)) (hv : v ∈ q) :
    h.skipListDelete v = .ok { h with level := Heap.lowerLevel h.bigHead h.level } := by
  have hmem : v ∈ p ++ b :: q := List.mem_append_right p (List.mem_cons_of_mem b hv)
  obtain ⟨update, hsearch, hupdate⟩ := hs.skip.search_eq hcut hs.blocks 416
  have hzero := hs.skip.readForward_zero
  have hlink := hs.skip.represents.linked 0 (Nat.zero_le _)
  rw [atLevel_zero] at hlink
  have hnodup := hs.skip.represents.nodup
  have hsub : q.Sublist (p ++ b :: q) :=
    (List.sublist_cons_self b q).trans (List.sublist_append_right p _)
  have hlen := length_le_of_nodup (n := 2 ^ 32) (hnodup.sublist hsub) fun a ha =>
    (hs.blocks a (hsub.subset ha)).lt
  have hwalk : h.walkTo v (some b) = .ok (some v) :=
    walk_returns (fun _ => rfl) q b _ hlink.drop.2 (List.mem_cons_of_mem b hv) (Nat.lt_succ_of_le hlen)
  have hbv : b ≠ v := by
    intro heq
    have hnot := List.nodup_cons.mp (List.nodup_append.mp hnodup).2.1
    exact hnot.1 (heq ▸ hv)
  -- the pointer in front of the first block of the size is not `v`
  have hbreak : Heap.unlinkLevels v update (h.level + 1) 0 h = .ok h := by
    have hup : update 0 = tip none p := by
      rw [hupdate 0 (Nat.zero_le _), atLevel_zero]
    have hne : (some b : Option Nat) ≠ some v := fun heq => hbv (Option.some.inj heq)
    simp only [Heap.unlinkLevels, hup, hzero, List.head?_cons, ok_bind, ne_eq, hne,
      not_false_eq_true, ite_true]
  simp only [Heap.skipListDelete, kassert_of (hs.blocks v hmem).ne_zero,
    kassert_of (hs.heads v hmem), hsearch, hzero, List.head?_cons, hwalk, hbreak, ok_bind]

/-- The first block of its size leaves every level. -/
theorem BlockList.deletes_of_first {h : Heap σ} {l : List Nat} {v : Nat} (hs : BlockList h l)
    (hfirst : FirstOfSize h l v) : Deletes h l v := by
  obtain ⟨p, q, rfl, hp⟩ := hfirst
  have hmem : v ∈ p ++ v :: q := List.mem_append_right p List.mem_cons_self
  have hnodup := hs.skip.represents.nodup
  have hsorted := List.pairwise_append.mp hs.skip.represents.sorted
  have hcut : CutAt h (h.sizeOf v) p (v :: q) := by
    constructor
    · intro a ha
      refine lt_of_le_of_ne (hsorted.2.2 a ha v List.mem_cons_self) fun heq => ?_
      exact hp a ha (sizeKey_inj heq)
    · intro a ha
      rcases List.mem_cons.mp ha with rfl | ha
      · exact le_refl _
      · exact (List.pairwise_cons.mp hsorted.2.1).1 a ha
  obtain ⟨h', hrun, hskip, -, hins⟩ := hs.skip.delete hcut hs.blocks (hs.heads v hmem)
  refine ⟨h', hrun, ?_, ?_, ?_⟩
  · intro i hi
    have hlink := hskip.represents.linked i hi
    rwa [hins, ← chainWithout_eq hnodup] at hlink
  · intro i hi
    rw [chainWithout_eq hnodup, ← hins]
    exact atLevel_eq_nil fun a ha => Nat.lt_of_le_of_lt (hskip.level.bound a ha) hi
  · apply hskip.level.used.imp id
    rintro ⟨a, ha, heq⟩
    rw [chainWithout_eq hnodup, ← hins]
    exact List.ne_nil_of_mem (mem_atLevel.mpr ⟨ha, Nat.le_of_eq heq.symm⟩)

/-- Only the first block of its size is deleted. -/
theorem BlockList.first_of_deletes {h : Heap σ} {l : List Nat} {v : Nat} (hs : BlockList h l)
    (hv : v ∈ l) (hdel : Deletes h l v) : FirstOfSize h l v := by
  obtain ⟨p, q, rfl, hcut⟩ := hs.skip.exists_cut (h.sizeOf v)
  have hvq : v ∈ q := by
    refine (List.mem_append.mp hv).resolve_left fun hvp => ?_
    exact lt_irrefl _ (hcut.below v hvp)
  cases q with
  | nil => cases hvq
  | cons b q =>
      by_cases hbv : b = v
      · subst hbv
        refine ⟨p, q, rfl, ?_⟩
        intro a ha heq
        have hlt := hcut.below a ha
        rw [Heap.sizeKey, heq] at hlt
        exact lt_irrefl _ hlt
      · have hvq : v ∈ q := (List.mem_cons.mp hvq).resolve_left fun heq => hbv heq.symm
        obtain ⟨h', hrun, hchains, -⟩ := hdel
        rw [hs.delete_other hcut hvq] at hrun
        cases hrun
        have hlink := hs.skip.represents.linked 0 (Nat.zero_le _)
        rw [atLevel_zero] at hlink
        have hsame := (hchains 0 (Nat.zero_le _)).unique hlink
        rw [← hsame] at hv
        unfold chainWithout at hv
        simp at hv

/-- A member is deleted exactly if it is the first one of its size. -/
theorem skipListDelete_removes_iff {h : Heap σ} {l : List Nat} {v : Nat} (hs : BlockList h l)
    (hv : v ∈ l) : Deletes h l v ↔ FirstOfSize h l v :=
  ⟨hs.first_of_deletes hv, hs.deletes_of_first⟩

def twoPages : Heap Unit where
  mem :=
    let m := Memory.store32 (fun _ => 0) 0x1004 0x102C
    let m := Memory.store32 m 0x1008 4052
    let m := Memory.store32 m 0x1010 0x2000
    let m := Memory.store32 m 0x2004 0x202C
    Memory.store32 m 0x2008 4052
  binHead := fun _ => 0
  bigHead := fun i => if i = 0 then 0x1000 else 0
  level := 0
  newestBig := 0x2000
  brk := ()
  inserted := fun _ => 0

theorem twoPages_blockList : BlockList twoPages [0x1000, 0x2000] := by
  refine ⟨⟨⟨?_, by decide, by decide⟩, ⟨by decide, Or.inl rfl⟩, Nat.zero_le _⟩, ?_, by decide⟩
  · intro i hi
    cases i with
    | zero =>
      have hend : twoPages.skipNext 0 (some 0x2000) = none := by decide
      exact ⟨by decide, by decide, hend⟩
    | succ i => rfl
  · have hblock : ∀ a ∈ [0x1000, 0x2000], a ≠ 0 ∧ a + bigBinHeaderSize < 2 ^ 32 ∧
        a % pageSize = 0 ∧ wordAdd (twoPages.sizeOf a) bigBinHeaderSize % pageSize = 0 := by
      decide
    intro a ha
    obtain ⟨hne, hword, hpage, hpages⟩ := hblock a ha
    exact ⟨hne, hword, hpage, hpages⟩

theorem skipListDelete_removes_first :
    Deletes twoPages [0x1000, 0x2000] 0x1000 ↔ FirstOfSize twoPages [0x1000, 0x2000] 0x1000 :=
  skipListDelete_removes_iff twoPages_blockList (by decide)

/-- The second of two blocks of one size stays in the list. -/
theorem skipListDelete_keeps_second : ∃ (h : Heap Unit) (l : List Nat) (v : Nat),
    BlockList h l ∧ v ∈ l ∧ ¬ Deletes h l v := by
  refine ⟨twoPages, [0x1000, 0x2000], 0x2000, twoPages_blockList, by decide, ?_⟩
  intro hdel
  obtain ⟨p, q, hl, hp⟩ := twoPages_blockList.first_of_deletes (by decide) hdel
  cases p with
  | nil => cases hl
  | cons a p =>
      obtain ⟨rfl, -⟩ := List.cons.inj hl
      exact hp 0x1000 List.mem_cons_self (by decide)

end X32PRos
