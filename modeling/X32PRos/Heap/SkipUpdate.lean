import X32PRos.Heap.SkipSearch

/-!
Insertion into the skip list and deletion from it: the pointers that are
written, and that nothing else is.
-/

namespace X32PRos

open Foundation SkipList

variable {σ : Type}

/-- The two heaps differ in `forward` words of blocks of `l`, and in the fields
that belong to the skip list. -/
structure ForwardOnly (l : List Nat) (h h' : Heap σ) : Prop where
  mem : ∀ x, (∀ a ∈ l, x < a + 16 ∨ a + 44 ≤ x) → h'.mem x = h.mem x
  binHead : h'.binHead = h.binHead
  newestBig : h'.newestBig = h.newestBig
  brk : h'.brk = h.brk

namespace ForwardOnly

variable {l : List Nat} {h h' h'' : Heap σ}

theorem refl (l : List Nat) (h : Heap σ) : ForwardOnly l h h := ⟨fun _ _ => rfl, rfl, rfl, rfl⟩

theorem trans (h₁ : ForwardOnly l h h') (h₂ : ForwardOnly l h' h'') : ForwardOnly l h h'' :=
  ⟨fun x hx => (h₂.mem x hx).trans (h₁.mem x hx), h₂.binHead.trans h₁.binHead,
    h₂.newestBig.trans h₁.newestBig, h₂.brk.trans h₁.brk⟩

theorem setForward {u : Heap.BigPtr} {i : Nat} {x : Option Nat} (hi : i ≤ skipMaxLevel)
    (hu : ∀ a, u = some a → a ∈ l) : ForwardOnly l h (h.setForward u i x) := by
  cases u with
  | none => exact ⟨fun _ _ => rfl, rfl, rfl, rfl⟩
  | some a =>
      refine ⟨?_, rfl, rfl, rfl⟩
      intro y hy
      have hi' : i ≤ 6 := hi
      have hout := hy a (hu a rfl)
      exact Memory.store32_of_outside (by omega)

/-- The words in front of `forward` stay. -/
theorem load (hf : ForwardOnly l h h') (hl : ∀ a ∈ l, a % pageSize = 0) {a o : Nat}
    (ha : a % pageSize = 0) (ho : o + 4 ≤ 16) : h'.mem.load32 (a + o) = h.mem.load32 (a + o) := by
  refine Memory.load32_congr fun x hlo hhi => hf.mem x fun b hb => ?_
  have hbpage := hl b hb
  unfold pageSize at ha hbpage
  omega

theorem sizeOf (hf : ForwardOnly l h h') (hl : ∀ a ∈ l, a % pageSize = 0) {a : Nat}
    (ha : a % pageSize = 0) : h'.sizeOf a = h.sizeOf a :=
  hf.load hl ha (by decide)

theorem headOf (hf : ForwardOnly l h h') (hl : ∀ a ∈ l, a % pageSize = 0) {a : Nat}
    (ha : a % pageSize = 0) : h'.headOf a = h.headOf a :=
  hf.load hl ha (by decide)

end ForwardOnly

/-- The rest of the heap does not depend on `forward` words. -/
theorem HeapCore.of_forward {lo hi : Nat} {c : Chunks} {h h' : Heap σ} {l : List Nat}
    (hc : HeapCore lo hi c h) (hf : ForwardOnly l h h')
    (hl : ∀ a ∈ l, ∃ k, c a = some k ∧ numBins < k.size) : HeapCore lo hi c h' := by
  have hpages : ∀ a ∈ l, a % pageSize = 0 := by
    intro a ha
    obtain ⟨k, hk, -⟩ := hl a ha
    exact Nat.mod_eq_zero_of_dvd (hc.layout.page hk)
  have hpage : ∀ {a k}, c a = some k → a % pageSize = 0 :=
    fun hk => Nat.mod_eq_zero_of_dvd (hc.layout.page hk)
  refine ⟨hc.layout, ?_, ?_, ?_⟩
  · intro a k hk
    apply (hc.stored hk).congr (hf.headOf hpages (hpage hk)) (hf.sizeOf hpages (hpage hk))
    intro x hx
    refine Memory.load32_congr fun y hlo hhi => hf.mem y fun b hb => ?_
    obtain ⟨kb, hkb, hbig⟩ := hl b hb
    have hbounds := hc.layout.free_bounds hk hx
    have hspan := (hc.layout.valid hkb).span_ge.1
    by_cases hab : a = b
    · subst hab
      rw [hk] at hkb
      cases hkb
      rw [headerSize_of_big hbig] at hbounds
      omega
    · rcases hc.layout.apart hk hkb hab with hle | hle <;> omega
  · intro b hb
    obtain ⟨pages, hlist⟩ := hc.bins b hb
    refine ⟨pages, hlist.congr (by rw [hf.binHead]) ?_ fun _ => Iff.rfl⟩
    intro a ha
    obtain ⟨k, hk, -⟩ := (hlist.mem a).mp ha
    exact hf.load (o := 0) hpages (hpage hk) (by decide)
  · rw [hf.newestBig]
    exact hc.newest

namespace Heap

/-- One pointer is written. -/
theorem skipNext_setForward {h : Heap σ} {w u : BigPtr} {i j : Nat} {x : Option Nat}
    (hw : ∀ a, w = some a → a % pageSize = 0) (hu : ∀ a, u = some a → a % pageSize = 0)
    (hi : i ≤ skipMaxLevel) (hj : j ≤ skipMaxLevel) (hx : ∀ y, x = some y → y ≠ 0 ∧ y < 2 ^ 32) :
    (h.setForward w j x).skipNext i u = if u = w ∧ i = j then x else h.skipNext i u := by
  have hstored : pointer (x.getD 0) = x := pointer_getD fun y hy => (hx y hy).1
  have hword : x.getD 0 < 2 ^ 32 := by
    cases x with
    | none => exact Nat.two_pow_pos 32
    | some y => exact (hx y rfl).2
  have hi' : i ≤ 6 := hi
  have hj' : j ≤ 6 := hj
  cases w with
  | none =>
      cases u with
      | none =>
          by_cases hij : i = j
          · simp only [setForward, skipNext, hij, ite_true, hstored, and_self]
          · simp only [setForward, skipNext, hij, ite_false, and_false]
      | some b => simp [setForward, skipNext, forwardOf]
  | some a =>
      cases u with
      | none => simp [setForward, skipNext, set]
      | some b =>
          by_cases hab : b = a ∧ i = j
          · obtain ⟨rfl, rfl⟩ := hab
            simp only [setForward, skipNext, forwardOf, set, Memory.load32_store32_self hword,
              hstored, and_self, ite_true]
          · have hne : ¬ ((some b : BigPtr) = some a ∧ i = j) := by
              rwa [Option.some.injEq]
            have ha := hw a rfl
            have hb := hu b rfl
            rw [if_neg hne]
            simp only [setForward, skipNext, forwardOf, set]
            rw [Memory.load32_store32_of_apart]
            unfold pageSize at ha hb
            omega

@[simp] theorem setForward_inserted (h : Heap σ) (u : BigPtr) (i : Nat) (x : Option Nat) :
    (h.setForward u i x).inserted = h.inserted := by
  cases u <;> rfl

@[simp] theorem setForward_level (h : Heap σ) (u : BigPtr) (i : Nat) (x : Option Nat) :
    (h.setForward u i x).level = h.level := by
  cases u <;> rfl

theorem lowerLevel_spec (bigHead : Nat → Nat) (level : Nat) :
    lowerLevel bigHead level ≤ level ∧
      (lowerLevel bigHead level = 0 ∨ bigHead (lowerLevel bigHead level) ≠ 0) ∧
        ∀ j, lowerLevel bigHead level < j → j ≤ level → bigHead j = 0 := by
  induction level with
  | zero => exact ⟨Nat.le_refl 0, Or.inl rfl, fun j hj hle => absurd hle (by omega)⟩
  | succ level ih =>
      rw [lowerLevel]
      split
      case isTrue hzero =>
        refine ⟨Nat.le_succ_of_le ih.1, ih.2.1, ?_⟩
        intro j hj hle
        rcases Nat.lt_or_eq_of_le hle with hlt | rfl
        · exact ih.2.2 j hj (Nat.le_of_lt_succ hlt)
        · exact hzero
      case isFalse hne => exact ⟨Nat.le_refl _, Or.inr hne, fun j hj hle => absurd hle (by omega)⟩

end Heap

theorem BlockAt.of_forward {l : List Nat} {h h' : Heap σ} {a : Nat} (ha : BlockAt h a)
    (hf : ForwardOnly l h h') (hl : ∀ b ∈ l, b % pageSize = 0) : BlockAt h' a :=
  ⟨ha.ne_zero, ha.word, ha.page, by rw [hf.sizeOf hl ha.page]; exact ha.pages⟩

/-- Addresses of blocks are words. -/
theorem BlockAt.lt {h : Heap σ} {a : Nat} (ha : BlockAt h a) : a < 2 ^ 32 :=
  Nat.lt_of_le_of_lt (Nat.le_add_right a _) ha.word

/-- The positions from which a list of blocks is read. -/
theorem page_of_position {h : Heap σ} {l : List Nat} (hl : ∀ a ∈ l, BlockAt h a)
    {u : Heap.BigPtr} (hu : u ∈ none :: l.map some) : ∀ a, u = some a → a % pageSize = 0 := by
  rintro a rfl
  simp only [List.mem_cons, List.mem_map, Option.some.injEq, exists_eq_right, reduceCtorEq,
    false_or] at hu
  exact (hl a hu).page

theorem mem_of_position {l : List Nat} {u : Heap.BigPtr} (hu : u ∈ none :: l.map some) :
    ∀ a, u = some a → a ∈ l := by
  rintro a rfl
  simpa using hu

/-- What follows a block that leads its part of the list. -/
theorem head_mem_of_linked {next : Option Nat → Option Nat} {height : Nat → Nat} {i x : Nat}
    {u : Option Nat} {l : List Nat} (hlink : Linked next u (atLevel height i l))
    (hx : next u = some x) : x ∈ l := by
  cases hl : atLevel height i l with
  | nil =>
      rw [hl] at hlink
      rw [show next u = none from hlink] at hx
      cases hx
  | cons b rest =>
      have hb : b ∈ atLevel height i l := by
        rw [hl]
        exact List.mem_cons_self
      rw [hl] at hlink
      rw [hlink.1] at hx
      rw [← Option.some.inj hx]
      exact (mem_atLevel.mp hb).1

/-! ### Insertion -/

/-- Where a new block is linked in: a position for every level up to its own. -/
structure InsertPlan (h : Heap σ) (l : List Nat) (v : Nat) (update : Nat → Heap.BigPtr) :
    Prop where
  blocks : ∀ a ∈ v :: l, BlockAt h a
  fresh : v ∉ l
  level_le : h.inserted v ≤ skipMaxLevel
  position : ∀ i ≤ h.inserted v, update i ∈ none :: l.map some
  written : ∀ i ≤ h.inserted v, ∀ a, update i = some a → i ≤ h.inserted a
  next_mem : ∀ i ≤ h.inserted v, ∀ x, h.skipNext i (update i) = some x → x ∈ l

def linkedNext (h : Heap σ) (v : Nat) (update : Nat → Heap.BigPtr) (n i : Nat)
    (u : Heap.BigPtr) : Option Nat :=
  if i < n ∧ u = update i then some v
  else if i < n ∧ u = some v then h.skipNext i (update i)
  else h.skipNext i u

theorem InsertPlan.linkLevels {h : Heap σ} {l : List Nat} {v : Nat} {update : Nat → Heap.BigPtr}
    (hp : InsertPlan h l v update) (n : Nat) (hn : n ≤ h.inserted v + 1) :
    ∃ h', Heap.linkLevels v update n h = .ok h' ∧ ForwardOnly (v :: l) h h' ∧
      h'.inserted = h.inserted ∧ h'.level = h.level ∧
        ∀ i ≤ skipMaxLevel, ∀ u ∈ none :: (v :: l).map some,
          h'.skipNext i u = linkedNext h v update n i u := by
  induction n with
  | zero => exact ⟨h, rfl, ForwardOnly.refl _ _, rfl, rfl, fun i _ u _ => by simp [linkedNext]⟩
  | succ n ih =>
      obtain ⟨h₁, hrun, hf₁, hins₁, hlev₁, hnext₁⟩ := ih (Nat.le_of_succ_le hn)
      have hnv : n ≤ h.inserted v := Nat.le_of_succ_le_succ hn
      have hn6 : n ≤ skipMaxLevel := Nat.le_trans hnv hp.level_le
      have hpages : ∀ a ∈ v :: l, a % pageSize = 0 := fun a ha => (hp.blocks a ha).page
      have hup : update n ∈ none :: (v :: l).map some := by
        cases List.mem_cons.mp (hp.position n hnv) with
        | inl hnone =>
            rw [hnone]
            exact List.mem_cons_self
        | inr hmem => exact List.mem_cons_of_mem _ (List.mem_cons_of_mem _ hmem)
      have hvmem : (some v : Heap.BigPtr) ∈ none :: (v :: l).map some := by simp
      -- level `n` itself has not been written yet
      have hold : h₁.skipNext n (update n) = h.skipNext n (update n) := by
        rw [hnext₁ n hn6 _ hup, linkedNext, if_neg (by simp), if_neg (by simp)]
      have hread : h₁.readForward (update n) n = .ok (h.skipNext n (update n)) := by
        rw [Heap.readForward_eq, hold]
        intro a ha
        rw [hins₁]
        exact hp.written n hnv a ha
      have hvalue : ∀ x, h.skipNext n (update n) = some x → x ≠ 0 ∧ x < 2 ^ 32 := by
        intro x hx
        have hb := hp.blocks x (List.mem_cons_of_mem v (hp.next_mem n hnv x hx))
        exact ⟨hb.ne_zero, hb.lt⟩
      have hvb := hp.blocks v List.mem_cons_self
      -- the two stores of this turn
      let h₂ := h₁.setForward (some v) n (h.skipNext n (update n))
      have hnext₂ : ∀ i ≤ skipMaxLevel, ∀ u ∈ none :: (v :: l).map some,
          h₂.skipNext i u = if u = some v ∧ i = n then h.skipNext n (update n)
            else h₁.skipNext i u := fun i hi u hu =>
        Heap.skipNext_setForward (page_of_position hp.blocks hvmem) (page_of_position hp.blocks hu)
          hi hn6 hvalue
      have hf₂ : ForwardOnly (v :: l) h h₂ :=
        hf₁.trans (ForwardOnly.setForward hn6 (mem_of_position hvmem))
      have hins₂ : h₂.inserted = h.inserted := by
        rw [Heap.setForward_inserted, hins₁]
      have hread₂ : h₂.readForward (some v) n = .ok (h.skipNext n (update n)) := by
        rw [Heap.readForward_eq, hnext₂ n hn6 _ hvmem, if_pos ⟨rfl, rfl⟩]
        intro a ha
        rw [hins₂, ← Option.some.inj ha]
        exact hnv
      let h₃ := h₂.setForward (update n) n (some v)
      have hnext₃ : ∀ i ≤ skipMaxLevel, ∀ u ∈ none :: (v :: l).map some,
          h₃.skipNext i u = if u = update n ∧ i = n then some v else h₂.skipNext i u :=
        fun i hi u hu => Heap.skipNext_setForward (page_of_position hp.blocks hup)
          (page_of_position hp.blocks hu) hi hn6 fun y hy => by
            cases hy
            exact ⟨hvb.ne_zero, hvb.lt⟩
      refine ⟨h₃, ?_, hf₂.trans (ForwardOnly.setForward hn6 (mem_of_position hup)), ?_, ?_, ?_⟩
      · have hassert : ∀ x, h.skipNext n (update n) = some x → BlockAt h₂ x := fun x hx =>
          (hp.blocks x (List.mem_cons_of_mem v (hp.next_mem n hnv x hx))).of_forward hf₂ hpages
        simp only [Heap.linkLevels, hrun, ok_bind, Heap.linkLevel, hread]
        rw [show h₁.setForward (some v) n (h.skipNext n (update n)) = h₂ from rfl, hread₂]
        simp only [ok_bind, Heap.assertLink_of hassert]
        rfl
      · rw [Heap.setForward_inserted, hins₂]
      · rw [Heap.setForward_level, Heap.setForward_level, hlev₁]
      · intro i hi u hu
        rw [hnext₃ i hi u hu, hnext₂ i hi u hu, hnext₁ i hi u hu]
        unfold linkedNext
        by_cases hin : i = n
        · subst hin
          simp
        · have hlt : i < n + 1 ↔ i < n := by omega
          simp [hin, hlt]

/-- The positions of the search, on the levels that the list does not have yet too. -/
theorem SkipAt.update_eq {h : Heap σ} {p q : List Nat} (hs : SkipAt h (p ++ q))
    {update : Nat → Heap.BigPtr}
    (hupdate : ∀ j ≤ h.level, update j = tip none (atLevel h.inserted j p)) (i : Nat) :
    (if h.level < i then none else update i) = tip none (atLevel h.inserted i p) := by
  by_cases hi : h.level < i
  · rw [if_pos hi, atLevel_eq_nil, tip_nil]
    intro a ha
    exact Nat.lt_of_le_of_lt (hs.level.bound a (List.mem_append_left q ha)) hi
  · rw [if_neg hi, hupdate i (Nat.le_of_not_lt hi)]

/-- The pointer at such a position is to a block of the list. -/
theorem SkipAt.next_mem {h : Heap σ} {p q : List Nat} (hs : SkipAt h (p ++ q)) {i x : Nat}
    (hi : i ≤ skipMaxLevel) (hx : h.skipNext i (tip none (atLevel h.inserted i p)) = some x) :
    x ∈ p ++ q := by
  have hlink := hs.represents.linked i hi
  rw [atLevel_append] at hlink
  exact List.mem_append_right p (head_mem_of_linked hlink.drop hx)

def Heap.raised (h : Heap σ) (v level : Nat) : Heap σ :=
  { h with
    level := if level > h.level then level else h.level
    inserted := fun a => if a = v then level else h.inserted a }

/-- The positions at which a block is linked in are those of the smaller blocks. -/
theorem SkipAt.skipListInsert_eq {h : Heap σ} {v level : Nat} {p q : List Nat}
    (hs : SkipAt h (p ++ q)) (hcut : CutAt h (h.sizeOf v) p q)
    (hblocks : ∀ a ∈ p ++ q, BlockAt h a) (hv : BlockAt h v) (hhead : h.headOf v ≠ 0)
    (hsize : h.sizeOf v ≠ 0) (hfresh : v ∉ p ++ q) :
    h.skipListInsert v level =
      Heap.linkLevels v (fun i => tip none (atLevel h.inserted i p)) (level + 1)
        (h.raised v level) := by
  obtain ⟨update, hsearch, hupdate⟩ := hs.search_eq hcut hblocks 351
  have hnode : q.head? ≠ some v :=
    fun heq => hfresh (List.mem_append_right p (List.mem_of_mem_head? heq))
  simp only [Heap.skipListInsert, kassert_of hv.ne_zero, kassert_of hhead, kassert_of hv.page,
    Heap.assertPages_of hv, kassert_of hsize, hsearch, hs.readForward_zero, ok_bind,
    ne_eq, hnode, not_false_eq_true, ite_true, hs.update_eq hupdate]
  rfl

/-- The new block stands in front of the blocks that are not smaller. -/
theorem SkipAt.insert {h : Heap σ} {v level : Nat} {p q : List Nat} (hs : SkipAt h (p ++ q))
    (hcut : CutAt h (h.sizeOf v) p q) (hblocks : ∀ a ∈ p ++ q, BlockAt h a) (hv : BlockAt h v)
    (hhead : h.headOf v ≠ 0) (hsize : h.sizeOf v ≠ 0) (hfresh : v ∉ p ++ q)
    (hlevel : level ≤ skipMaxLevel) :
    ∃ h', h.skipListInsert v level = .ok h' ∧ SkipAt h' (p ++ v :: q) ∧
      ForwardOnly (v :: (p ++ q)) h h' ∧
        h'.inserted = fun a => if a = v then level else h.inserted a := by
  let update' : Nat → Heap.BigPtr := fun i => tip none (atLevel h.inserted i p)
  have hupdate' : ∀ i, update' i = tip none (atLevel h.inserted i p) := fun _ => rfl
  let h₀ := h.raised v level
  have hsame : ∀ a, a ≠ v → h₀.inserted a = h.inserted a := fun a ha => if_neg ha
  have hheight : h₀.inserted v = level := if_pos rfl
  have hpos : ∀ i, update' i ∈ none :: (p ++ q).map some := by
    intro i
    rw [hupdate' i]
    have hmem := tip_mem none (atLevel h.inserted i p)
    have hsub : (atLevel h.inserted i p).Sublist (p ++ q) :=
      atLevel_sublist.trans (List.sublist_append_left p q)
    exact (List.cons_sublist_cons.mpr (hsub.map some)).subset hmem
  have hblocks₀ : ∀ a ∈ v :: (p ++ q), BlockAt h₀ a := by
    intro a ha
    have hb : BlockAt h a := (List.mem_cons.mp ha).elim (fun heq => heq ▸ hv) (hblocks a)
    exact ⟨hb.ne_zero, hb.word, hb.page, hb.pages⟩
  have hplan : InsertPlan h₀ (p ++ q) v update' := by
    refine ⟨hblocks₀, hfresh, by rw [hheight]; exact hlevel, fun i _ => hpos i, ?_, ?_⟩
    · intro i _ a ha
      have hmem := mem_of_position (hpos i) a ha
      rw [hupdate' i] at ha
      rw [hsame a fun heq => hfresh (heq ▸ hmem)]
      exact (mem_atLevel.mp (mem_of_tip_eq ha)).2
    · intro i hi x hx
      rw [hheight] at hi
      rw [hupdate' i] at hx
      exact hs.next_mem (Nat.le_trans hi hlevel) hx
  obtain ⟨h', hrun, hforward, hins, hlev, hnext⟩ :=
    hplan.linkLevels (level + 1) (by rw [hheight])
  have hpages : ∀ a ∈ v :: (p ++ q), a % pageSize = 0 := fun a ha => (hblocks₀ a ha).page
  have hforward' : ForwardOnly (v :: (p ++ q)) h h' :=
    ⟨hforward.mem, hforward.binHead, hforward.newestBig, hforward.brk⟩
  have hvw : ∀ {i}, (some v : Heap.BigPtr) ≠ update' i :=
    fun heq => hfresh (mem_of_position (hpos _) v heq.symm)
  refine ⟨h', ?_, ⟨?_, ⟨?_, ?_⟩, ?_⟩, hforward', hins⟩
  · rw [hs.skipListInsert_eq hcut hblocks hv hhead hsize hfresh]
    exact hrun
  · rw [hins]
    have hrep := Represents.insert_at h₀.inserted h'.skipNext hs.represents hfresh
      (fun a ha => le_of_lt (hcut.below a ha)) hcut.above hsame ?_ ?_ ?_
    · apply hrep.of_key
      intro a ha
      have ha' : a ∈ v :: (p ++ q) := by simpa [or_left_comm] using ha
      rw [Heap.sizeKey, hforward'.sizeOf hpages (hpages a ha')]
      rfl
    · intro i hi hle
      have hmem : update' i ∈ none :: (v :: (p ++ q)).map some :=
        (List.cons_sublist_cons.mpr (List.sublist_cons_self _ _)).subset (hpos i)
      rw [hheight] at hle
      rw [← hupdate' i, hnext i hi _ hmem, linkedNext, if_pos ⟨Nat.lt_succ_of_le hle, rfl⟩]
    · intro i hi hle
      rw [hheight] at hle
      rw [← hupdate' i, hnext i hi _ (by simp), linkedNext, if_neg fun hand => hvw hand.2,
        if_pos ⟨Nat.lt_succ_of_le hle, rfl⟩]
      rfl
    · intro i hi w hw hne
      have hmem : w ∈ none :: (v :: (p ++ q)).map some :=
        (List.cons_sublist_cons.mpr (List.sublist_cons_self _ _)).subset hw
      have hwv : w ≠ some v := fun heq => hfresh (mem_of_position hw v heq)
      rw [hheight] at hne
      rw [hnext i hi w hmem, linkedNext, if_neg, if_neg fun hand => hwv hand.2]
      · rfl
      · rintro ⟨hlt, heq⟩
        exact hne (Nat.le_of_lt_succ hlt) (heq.trans (hupdate' i))
  · intro a ha
    rw [hins, hlev]
    by_cases hav : a = v
    · simp only [h₀, Heap.raised, hav, ite_true]
      split <;> omega
    · have hmem : a ∈ p ++ q := by
        rw [List.mem_append, List.mem_cons] at ha
        rw [List.mem_append]
        exact ha.imp id fun h => h.resolve_left hav
      have hbound := hs.level.bound a hmem
      simp only [h₀, Heap.raised, hav, ite_false]
      split <;> omega
  · rw [hins, hlev]
    by_cases hraise : level > h.level
    · refine Or.inr ⟨v, by simp, ?_⟩
      simp only [h₀, Heap.raised, hraise, ite_true]
    · simp only [h₀, Heap.raised, hraise, ite_false]
      apply hs.level.used.imp id
      rintro ⟨a, ha, heq⟩
      refine ⟨a, by simpa [or_left_comm] using Or.inr (List.mem_append.mp ha), ?_⟩
      rw [if_neg fun hav : a = v => hfresh (hav ▸ ha), heq]
  · have hle := hs.level_le
    rw [hlev]
    simp only [h₀, Heap.raised]
    split <;> omega

/-! ### Deletion -/

def unlinkedNext (h : Heap σ) (v : Nat) (update : Nat → Heap.BigPtr) (n i : Nat)
    (u : Heap.BigPtr) : Option Nat :=
  if i < n ∧ i ≤ h.inserted v ∧ u = update i then h.skipNext i (some v) else h.skipNext i u

structure DeletePlan (h : Heap σ) (l : List Nat) (v : Nat) (update : Nat → Heap.BigPtr) :
    Prop where
  blocks : ∀ a ∈ l, BlockAt h a
  mem : v ∈ l
  level_le : h.level ≤ skipMaxLevel
  bound : h.inserted v ≤ h.level
  position : ∀ i ≤ h.level, update i ∈ none :: l.map some
  written : ∀ i ≤ h.level, ∀ a, update i = some a → i ≤ h.inserted a
  next_iff : ∀ i ≤ h.level, h.skipNext i (update i) = some v ↔ i ≤ h.inserted v
  next_mem : ∀ i ≤ h.inserted v, ∀ x, h.skipNext i (some v) = some x → x ∈ l

/-- The loop stops at the first level that `v` is not on. -/
theorem DeletePlan.unlinkLevels {h : Heap σ} {l : List Nat} {v : Nat} {update : Nat → Heap.BigPtr}
    (hp : DeletePlan h l v update) :
    ∀ (n i : Nat) (h₁ : Heap σ), i + n = h.level + 1 → ForwardOnly l h h₁ →
      h₁.inserted = h.inserted → h₁.level = h.level →
      (∀ j ≤ skipMaxLevel, ∀ u ∈ none :: l.map some,
        h₁.skipNext j u = unlinkedNext h v update i j u) →
      ∃ h', Heap.unlinkLevels v update n i h₁ = .ok h' ∧ ForwardOnly l h h' ∧
        h'.inserted = h.inserted ∧ h'.level = h.level ∧
          ∀ j ≤ skipMaxLevel, ∀ u ∈ none :: l.map some,
            h'.skipNext j u = unlinkedNext h v update (h.level + 1) j u := by
  intro n
  induction n with
  | zero =>
      intro i h₁ hi hf hins hlev hnext
      rw [Nat.add_zero] at hi
      subst hi
      exact ⟨h₁, rfl, hf, hins, hlev, hnext⟩
  | succ n ih =>
      intro i h₁ hi hf hins hlev hnext
      have hile : i ≤ h.level := by omega
      have hi6 : i ≤ skipMaxLevel := Nat.le_trans hile hp.level_le
      have hup := hp.position i hile
      have hvmem : (some v : Heap.BigPtr) ∈ none :: l.map some :=
        List.mem_cons_of_mem _ (List.mem_map_of_mem hp.mem)
      have hpages : ∀ a ∈ l, a % pageSize = 0 := fun a ha => (hp.blocks a ha).page
      have hold : ∀ u ∈ none :: l.map some, h₁.skipNext i u = h.skipNext i u := by
        intro u hu
        rw [hnext i hi6 u hu, unlinkedNext, if_neg (by simp)]
      have hread : ∀ u ∈ none :: l.map some, (∀ a, u = some a → i ≤ h.inserted a) →
          h₁.readForward u i = .ok (h.skipNext i u) := by
        intro u hu hw
        rw [Heap.readForward_eq, hold u hu]
        rw [hins]
        exact hw
      by_cases hiv : i ≤ h.inserted v
      · have hmatch := (hp.next_iff i hile).mpr hiv
        have hvalue : ∀ x, h.skipNext i (some v) = some x → x ≠ 0 ∧ x < 2 ^ 32 := fun x hx =>
          ⟨(hp.blocks x (hp.next_mem i hiv x hx)).ne_zero, (hp.blocks x (hp.next_mem i hiv x hx)).lt⟩
        let h₂ := h₁.setForward (update i) i (h.skipNext i (some v))
        have hnext₂ : ∀ j ≤ skipMaxLevel, ∀ u ∈ none :: l.map some,
            h₂.skipNext j u = if u = update i ∧ j = i then h.skipNext i (some v)
              else h₁.skipNext j u := fun j hj u hu =>
          Heap.skipNext_setForward (page_of_position hp.blocks hup) (page_of_position hp.blocks hu)
            hj hi6 hvalue
        have hf₂ : ForwardOnly l h h₂ := hf.trans (ForwardOnly.setForward hi6 (mem_of_position hup))
        have hins₂ : h₂.inserted = h.inserted := by rw [Heap.setForward_inserted, hins]
        have hlev₂ : h₂.level = h.level := by rw [Heap.setForward_level, hlev]
        have hread₂ : h₂.readForward (update i) i = .ok (h.skipNext i (some v)) := by
          rw [Heap.readForward_eq, hnext₂ i hi6 _ hup, if_pos ⟨rfl, rfl⟩]
          rw [hins₂]
          exact hp.written i hile
        have hassert : ∀ x, h.skipNext i (some v) = some x → BlockAt h₂ x := fun x hx =>
          (hp.blocks x (hp.next_mem i hiv x hx)).of_forward hf₂ hpages
        obtain ⟨h', hrun, hrest⟩ := ih (i + 1) h₂ (by omega) hf₂ hins₂ hlev₂ (by
          intro j hj u hu
          rw [hnext₂ j hj u hu, hnext j hj u hu]
          unfold unlinkedNext
          by_cases hji : j = i
          · subst hji
            simp [hiv]
          · have hlt : j < i + 1 ↔ j < i := by omega
            simp [hji, hlt])
        refine ⟨h', ?_, hrest⟩
        have hv : h₁.readForward (some v) i = .ok (h.skipNext i (some v)) :=
          hread _ hvmem fun a ha => by
            rw [← Option.some.inj ha]
            exact hiv
        simp only [Heap.unlinkLevels, hread _ hup (hp.written i hile), ok_bind, hmatch, ne_eq,
          not_true_eq_false, ite_false, hv]
        rw [show h₁.setForward (update i) i (h.skipNext i (some v)) = h₂ from rfl, hread₂]
        simp only [ok_bind, Heap.assertBlock_of hassert]
        exact hrun
      · have hmatch : h.skipNext i (update i) ≠ some v := fun heq =>
          hiv ((hp.next_iff i hile).mp heq)
        refine ⟨h₁, ?_, hf, hins, hlev, ?_⟩
        · simp only [Heap.unlinkLevels, hread _ hup (hp.written i hile), ok_bind, ne_eq, hmatch,
            not_false_eq_true, ite_true]
        · intro j hj u hu
          rw [hnext j hj u hu]
          unfold unlinkedNext
          have hbound := hp.bound
          have hiff : (j < i ∧ j ≤ h.inserted v) ↔ (j < h.level + 1 ∧ j ≤ h.inserted v) := by omega
          simp only [← and_assoc, hiff]

theorem SkipAt.deletePlan {h : Heap σ} {v : Nat} {p q : List Nat} (hs : SkipAt h (p ++ v :: q))
    (hblocks : ∀ a ∈ p ++ v :: q, BlockAt h a) {update : Nat → Heap.BigPtr}
    (hupdate : ∀ j ≤ h.level, update j = tip none (atLevel h.inserted j p)) :
    DeletePlan h (p ++ v :: q) v update := by
  have hvmem : v ∈ p ++ v :: q := List.mem_append_right p List.mem_cons_self
  have hnodup := List.nodup_cons.mp (List.nodup_middle.mp hs.represents.nodup)
  have hbound := hs.level.bound v hvmem
  have hlink := fun i (hi : i ≤ skipMaxLevel) => hs.represents.linked i hi
  simp only [atLevel_append] at hlink
  refine ⟨hblocks, hvmem, hs.level_le, hbound, ?_, ?_, ?_, ?_⟩
  · intro i hi
    rw [hupdate i hi]
    have hsub : (atLevel h.inserted i p).Sublist (p ++ v :: q) :=
      atLevel_sublist.trans (List.sublist_append_left p _)
    exact (List.cons_sublist_cons.mpr (hsub.map some)).subset (tip_mem none _)
  · intro i hi a ha
    rw [hupdate i hi] at ha
    exact (mem_atLevel.mp (mem_of_tip_eq ha)).2
  · intro i hi
    have hlinki := hlink i (Nat.le_trans hi hs.level_le)
    rw [hupdate i hi]
    by_cases hiv : i ≤ h.inserted v
    · rw [atLevel_cons_of_le hiv] at hlinki
      exact iff_of_true hlinki.next_tip_cons hiv
    · refine iff_of_false ?_ hiv
      intro heq
      rw [atLevel_cons_of_lt (Nat.lt_of_not_le hiv)] at hlinki
      exact hnodup.1 (List.mem_append_right p (head_mem_of_linked hlinki.drop heq))
  · intro i hi x hx
    have hlinki := hlink i (Nat.le_trans (Nat.le_trans hi hbound) hs.level_le)
    rw [atLevel_cons_of_le hi] at hlinki
    exact List.mem_append_right p (List.mem_cons_of_mem v (head_mem_of_linked hlinki.drop.2 hx))

/-- The level is lowered to the highest one that still has a block. -/
theorem level_lowerLevel {h : Heap σ} {l : List Nat} (hbound : ∀ a ∈ l, h.inserted a ≤ h.level)
    (hrep : Represents skipMaxLevel h.sizeKey h.inserted h.skipNext l)
    (hle : h.level ≤ skipMaxLevel) :
    Level h.inserted l (Heap.lowerLevel h.bigHead h.level) := by
  obtain ⟨hlow, hused, hempty⟩ := Heap.lowerLevel_spec h.bigHead h.level
  have hbound' : ∀ a ∈ l, h.inserted a ≤ Heap.lowerLevel h.bigHead h.level := by
    intro a ha
    by_contra hlt
    -- the top level of `a` would be empty
    have hzero := hempty (h.inserted a) (Nat.lt_of_not_le hlt) (hbound a ha)
    have hlink := hrep.linked (h.inserted a) (Nat.le_trans (hbound a ha) hle)
    have hmem : a ∈ atLevel h.inserted (h.inserted a) l := mem_atLevel.mpr ⟨ha, Nat.le_refl _⟩
    have hnil : atLevel h.inserted (h.inserted a) l = [] :=
      hlink.unique (pointer_eq_none.mpr hzero)
    rw [hnil] at hmem
    cases hmem
  refine ⟨hbound', hused.imp id ?_⟩
  intro hne
  have hlink := hrep.linked (Heap.lowerLevel h.bigHead h.level) (Nat.le_trans hlow hle)
  cases hl : atLevel h.inserted (Heap.lowerLevel h.bigHead h.level) l with
  | nil =>
      rw [hl] at hlink
      exact absurd (pointer_eq_none.mp hlink) hne
  | cons b rest =>
      have hb : b ∈ atLevel h.inserted (Heap.lowerLevel h.bigHead h.level) l := by
        rw [hl]
        exact List.mem_cons_self
      obtain ⟨hbmem, hble⟩ := mem_atLevel.mp hb
      exact ⟨b, hbmem, Nat.le_antisymm (hbound' b hbmem) hble⟩

/-- The first of the blocks of its size is linked out of all its levels. -/
theorem SkipAt.delete {h : Heap σ} {v : Nat} {p q : List Nat} (hs : SkipAt h (p ++ v :: q))
    (hcut : CutAt h (h.sizeOf v) p (v :: q)) (hblocks : ∀ a ∈ p ++ v :: q, BlockAt h a)
    (hhead : h.headOf v ≠ 0) :
    ∃ h', h.skipListDelete v = .ok h' ∧ SkipAt h' (p ++ q) ∧ ForwardOnly (p ++ v :: q) h h' ∧
      h'.inserted = h.inserted := by
  obtain ⟨update, hsearch, hupdate⟩ := hs.search_eq hcut hblocks 416
  have hplan := hs.deletePlan hblocks hupdate
  have hv := hblocks v hplan.mem
  obtain ⟨h', hrun, hforward, hins, hlev, hnext⟩ := hplan.unlinkLevels (h.level + 1) 0 h
    (Nat.zero_add _) (ForwardOnly.refl _ _) rfl rfl fun j _ u _ => by simp [unlinkedNext]
  have hpages : ∀ a ∈ p ++ v :: q, a % pageSize = 0 := fun a ha => (hblocks a ha).page
  have hsub : (p ++ q).Sublist (p ++ v :: q) :=
    List.Sublist.append_left (List.sublist_cons_self v q) p
  have hrep : Represents skipMaxLevel h'.sizeKey h'.inserted h'.skipNext (p ++ q) := by
    rw [hins]
    refine (Represents.remove_at h'.skipNext hs.represents ?_ ?_).of_key ?_
    · intro i hi hiv
      have hilev := Nat.le_trans hiv hplan.bound
      rw [← hupdate i hilev, hnext i hi _ (hplan.position i hilev), unlinkedNext,
        if_pos ⟨Nat.lt_succ_of_le hilev, hiv, rfl⟩]
    · intro i hi w hw hne
      have hmem := (List.cons_sublist_cons.mpr (hsub.map some)).subset hw
      rw [hnext i hi w hmem, unlinkedNext, if_neg]
      rintro ⟨hlt, hiv, heq⟩
      exact hne hiv (heq.trans (hupdate i (Nat.le_of_lt_succ hlt)))
    · intro a ha
      rw [Heap.sizeKey, hforward.sizeOf hpages (hpages a (hsub.subset ha))]
      rfl
  have hle : h'.level ≤ skipMaxLevel := by
    rw [hlev]
    exact hs.level_le
  have hbound : ∀ a ∈ p ++ q, h'.inserted a ≤ h'.level := by
    intro a ha
    rw [hins, hlev]
    exact hs.level.bound a (hsub.subset ha)
  refine ⟨{ h' with level := Heap.lowerLevel h'.bigHead h'.level }, ?_,
    ⟨⟨hrep.linked, hrep.sorted, hrep.nodup⟩, level_lowerLevel hbound hrep hle, ?_⟩,
    ⟨hforward.mem, hforward.binHead, hforward.newestBig, hforward.brk⟩, hins⟩
  · have hwalk : h.walkTo v (some v) = .ok (some v) := by
      apply Loop.loop_of_exit _
      simp
    simp only [Heap.skipListDelete, kassert_of hv.ne_zero, kassert_of hhead, hsearch,
      hs.readForward_zero, List.head?_cons, hwalk, hrun, ok_bind]
  · exact Nat.le_trans (Heap.lowerLevel_spec _ _).1 hle

end X32PRos
