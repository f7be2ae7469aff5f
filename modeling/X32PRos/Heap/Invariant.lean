import X32PRos.Heap.Chunks

/-!
The heap in memory: what the words of headers and free cells say about the
chunks, and which of these words each part of it depends on.
-/

namespace X32PRos

open Foundation

@[simp] theorem pointer_eq_none {w : Nat} : pointer w = none ↔ w = 0 := by
  unfold pointer
  split <;> simp_all

theorem pointer_eq_some {w x : Nat} : pointer w = some x ↔ w = x ∧ x ≠ 0 := by
  unfold pointer
  split
  · simp
    omega
  · simp
    omega

theorem pointer_of_ne {w : Nat} (h : w ≠ 0) : pointer w = some w := if_neg h

/-- Storing a pointer and reading it back. -/
theorem pointer_getD {o : Option Nat} (h : ∀ x, o = some x → x ≠ 0) : pointer (o.getD 0) = o := by
  cases o with
  | none => rfl
  | some x => exact pointer_of_ne (h x rfl)

namespace Heap

variable {σ : Type}

def stackNext (m : Memory) (a : Nat) : Option Nat → Option Nat
  | none => pointer (m.load32 (a + 4))
  | some x => pointer (m.load32 x)

def pageNext (b : Nat) (h : Heap σ) : Option Nat → Option Nat
  | none => pointer (h.binHead b)
  | some a => pointer (h.nextOf a)

def skipNext (h : Heap σ) (i : Nat) : Option Nat → Option Nat
  | none => pointer (h.bigHead i)
  | some a => pointer (h.forwardOf a i)

/-- Sizes are compared as the source compares them. -/
def sizeKey (h : Heap σ) (a : Nat) : Int := signed (h.sizeOf a)

end Heap

variable {σ : Type}

/-- The header at `a` and its stack are those of the chunk. -/
structure ChunkAt (m : Memory) (a : Nat) (k : Chunk) : Prop where
  size : m.load32 (a + 8) = k.size
  stack : Linked (Heap.stackNext m a) none k.free

structure BinList (c : Chunks) (h : Heap σ) (b : Nat) (l : List Nat) : Prop where
  linked : Linked (h.pageNext b) none l
  nodup : l.Nodup
  mem : ∀ a, a ∈ l ↔ ∃ k, c a = some k ∧ k.size = b ∧ k.free ≠ []

structure SkipAt (h : Heap σ) (l : List Nat) : Prop where
  represents : SkipList.Represents skipMaxLevel h.sizeKey h.inserted h.skipNext l
  level : SkipList.Level h.inserted l h.level
  level_le : h.level ≤ skipMaxLevel

def FreeBig (c : Chunks) (l : List Nat) : Prop :=
  ∀ a, a ∈ l ↔ ∃ k, c a = some k ∧ numBins < k.size ∧ k.free ≠ []

/-- All of the heap but the skip list. -/
structure HeapCore (lo hi : Nat) (c : Chunks) (h : Heap σ) : Prop where
  layout : Layout lo hi c
  stored : ∀ {a k}, c a = some k → ChunkAt h.mem a k
  bins : ∀ b < bigBin, ∃ l, BinList c h b l
  newest : h.newestBig = 0 ∨ ∃ k, c h.newestBig = some k ∧ numBins < k.size

structure HeapInv (lo hi : Nat) (c : Chunks) (h : Heap σ) : Prop where
  core : HeapCore lo hi c h
  skip : ∃ l, SkipAt h l ∧ FreeBig c l

/-! ### What the parts depend on -/

theorem ChunkAt.congr {m m' : Memory} {a : Nat} {k : Chunk} (hk : ChunkAt m a k)
    (hhead : m'.load32 (a + 4) = m.load32 (a + 4)) (hsize : m'.load32 (a + 8) = m.load32 (a + 8))
    (hfree : ∀ x ∈ k.free, m'.load32 x = m.load32 x) : ChunkAt m' a k := by
  refine ⟨hsize.trans hk.size, hk.stack.congr ?_ ?_⟩
  · simp only [Heap.stackNext, hhead]
  · intro x hx
    simp only [Heap.stackNext, hfree x hx]

theorem BinList.congr {c c' : Chunks} {h h' : Heap σ} {b : Nat} {l : List Nat}
    (hl : BinList c h b l) (hhead : h'.binHead b = h.binHead b)
    (hnext : ∀ a ∈ l, h'.nextOf a = h.nextOf a)
    (hmem : ∀ a, (∃ k, c' a = some k ∧ k.size = b ∧ k.free ≠ []) ↔
      ∃ k, c a = some k ∧ k.size = b ∧ k.free ≠ []) : BinList c' h' b l := by
  refine ⟨hl.linked.congr ?_ ?_, hl.nodup, fun a => (hl.mem a).trans (hmem a).symm⟩
  · simp only [Heap.pageNext, hhead]
  · intro a ha
    simp only [Heap.pageNext, hnext a ha]

theorem SkipAt.congr {h h' : Heap σ} {l : List Nat} (hl : SkipAt h l)
    (hhead : ∀ i, h'.bigHead i = h.bigHead i) (hlevel : h'.level = h.level)
    (hinserted : ∀ a ∈ l, h'.inserted a = h.inserted a)
    (hsize : ∀ a ∈ l, h'.sizeOf a = h.sizeOf a)
    (hforward : ∀ a ∈ l, ∀ i ≤ skipMaxLevel, h'.forwardOf a i = h.forwardOf a i) :
    SkipAt h' l := by
  refine ⟨⟨?_, ?_, hl.represents.nodup⟩, ⟨?_, ?_⟩, ?_⟩
  · intro i hi
    rw [SkipList.atLevel_congr hinserted]
    refine (hl.represents.linked i hi).congr ?_ ?_
    · simp only [Heap.skipNext, hhead]
    · intro a ha
      simp only [Heap.skipNext, hforward a (SkipList.mem_atLevel.mp ha).1 i hi]
  · apply hl.represents.sorted.imp_of_mem
    intro a b ha hb hle
    simpa only [Heap.sizeKey, hsize a ha, hsize b hb] using hle
  · intro a ha
    rw [hinserted a ha, hlevel]
    exact hl.level.bound a ha
  · rw [hlevel]
    apply hl.level.used.imp id
    rintro ⟨a, ha, heq⟩
    exact ⟨a, ha, (hinserted a ha).trans heq⟩
  · rw [hlevel]
    exact hl.level_le

/-- The bytes of headers, and of the link words of free cells. -/
inductive Metadata (c : Chunks) (x : Nat) : Prop
  | header {a : Nat} {k : Chunk} (h : c a = some k) (hx : a ≤ x ∧ x < a + headerSize k.size)
  | link {a y : Nat} {k : Chunk} (h : c a = some k) (hy : y ∈ k.free) (hx : y ≤ x ∧ x < y + 4)

/-- Memory outside the metadata may hold anything. -/
theorem HeapInv.of_agree {lo hi : Nat} {c : Chunks} {h : Heap σ} (hinv : HeapInv lo hi c h)
    {m : Memory} (hm : ∀ x, Metadata c x → m x = h.mem x) : HeapInv lo hi c { h with mem := m } := by
  have hword : ∀ {a k} (o : Nat), c a = some k → o + 4 ≤ headerSize k.size →
      m.load32 (a + o) = h.mem.load32 (a + o) := by
    intro a k o hk ho
    exact Memory.load32_congr fun x hlo hhi => hm x (.header hk ⟨by omega, by omega⟩)
  have hfree : ∀ {a k y}, c a = some k → y ∈ k.free → m.load32 y = h.mem.load32 y := by
    intro a k y hk hy
    exact Memory.load32_congr fun x hlo hhi => hm x (.link hk hy ⟨hlo, hhi⟩)
  have hsmall : ∀ size, 12 ≤ headerSize size := headerSize_ge
  obtain ⟨⟨hlayout, hstored, hbins, hnewest⟩, l, hskip, hbig⟩ := hinv
  refine ⟨⟨hlayout, ?_, ?_, hnewest⟩, l, ?_, hbig⟩
  · intro a k hk
    have hheader := hsmall k.size
    exact (hstored hk).congr (hword 4 hk (by omega)) (hword 8 hk (by omega)) fun x hx => hfree hk hx
  · intro b hb
    obtain ⟨pages, hpages⟩ := hbins b hb
    refine ⟨pages, hpages.congr rfl ?_ fun _ => Iff.rfl⟩
    intro a ha
    obtain ⟨k, hk, -, -⟩ := (hpages.mem a).mp ha
    have hheader := hsmall k.size
    exact hword 0 hk (by omega)
  · refine hskip.congr (fun _ => rfl) rfl (fun _ _ => rfl) ?_ ?_
    · intro a ha
      obtain ⟨k, hk, -, -⟩ := (hbig a).mp ha
      have hheader := hsmall k.size
      exact hword 8 hk (by omega)
    · intro a ha i hi
      obtain ⟨k, hk, hsize, -⟩ := (hbig a).mp ha
      have hheader := headerSize_of_big hsize
      have hi' : i ≤ 6 := hi
      have hload := hword (16 + 4 * i) hk (by omega)
      rwa [← Nat.add_assoc] at hload

end X32PRos
