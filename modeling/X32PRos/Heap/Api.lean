import X32PRos.Heap.Growth
import X32PRos.Heap.Resize

/-!
Runs of the whole interface of the heap: `malloc`, `calloc`, `realloc` and `free`
in any order, with stores of the callers in between. A call of `realloc` that
moves a block is a `malloc`, a copy and a `free`, and `calloc` is a `malloc` and
stores, so that what those keep is kept here.
-/

namespace X32PRos

open Foundation

variable {σ : Type}

inductive ApiCall
  | basic (o : HeapOp)
  | calloc (nmemb size : Nat)
  | realloc (ptr size level : Nat)

/-- `klrealloc` does not move the block at `ptr` from a small bin to a smaller one. -/
def Heap.KeepsBin (ptr size : Nat) (h : Heap σ) : Prop :=
  StaysInPlace ptr size h ∨ (h.sizeWord ptr < bigBin → h.sizeWord ptr ≤ klmallocBinSize size)

namespace Session

variable (E : Sbrk σ)

/-- The session when a call has returned `p` for `len` bytes, with `live` left of
the blocks before. -/
def grant (s : Session σ) (live : List Region) (p len : Nat) (h : Heap σ) : Session σ where
  heap := h
  chunks :=
    if E.heapEnd h.brk = E.heapEnd s.heap.brk then s.chunks else E.heapEnd s.heap.brk :: s.chunks
  live := if p = 0 then live else ⟨p, len⟩ :: live

def apply (s : Session σ) : ApiCall → Except Fault (Session σ)
  | .basic o => s.step E o
  | .calloc nmemb size => do
      let (p, h) ← s.heap.klcalloc E nmemb size
      .ok (s.grant E s.live p (wordMul nmemb size) h)
  | .realloc ptr size level => do
      let (q, h) ← s.heap.klrealloc E ptr size level
      .ok (s.grant E (s.live.filter fun b => b.base ≠ ptr) q size h)

def ApiRequest (s : Session σ) : ApiCall → Prop
  | .basic o => s.Request o
  | .calloc nmemb size => 0 < nmemb * size ∧ nmemb * size < 2 ^ 31 - 44
  | .realloc ptr size level => (ptr = 0 ∨ ∃ b ∈ s.live, b.base = ptr) ∧ level ≤ skipMaxLevel ∧
      size < 2 ^ 31 - 44 ∧ (ptr = 0 ∨ size = 0 ∨ s.heap.KeepsBin ptr size)

abbrev ApiServed (mem : Memory) (brk : σ) : Session σ → Prop :=
  Run.Reaches (apply E)
    (fun s o s' => s.ApiRequest o ∧ E.heapEnd s.heap.brk ≤ E.heapEnd s'.heap.brk) (start mem brk)

def KeepsBytes (s s' : Session σ) (keep : Region → Prop) : Prop :=
  ∀ b ∈ s.live, keep b → ∀ x ∈ b, s'.heap.mem x = s.heap.mem x

/-- What a call is to do to the bytes of the callers. -/
def ApiEffect (s s' : Session σ) : ApiCall → Prop
  | .basic o => KeepsBlocks s o s'
  | .calloc nmemb size => KeepsBytes s s' (fun _ => True) ∧
      ∃ p, s'.live = ⟨p, nmemb * size⟩ :: s.live ∧ ∀ j < nmemb * size, s'.heap.mem (p + j) = 0
  | .realloc ptr size _ => KeepsBytes s s' (fun b => b.base ≠ ptr) ∧
      ∀ b ∈ s.live, b.base = ptr → size ≠ 0 → ∃ q,
        s'.live = ⟨q, size⟩ :: s.live.filter (fun b => b.base ≠ ptr) ∧
          ∀ j < min b.len size, s'.heap.mem (q + j) = s.heap.mem (ptr + j)

def Short (s : Session σ) : Prop := ∀ a ∈ s.chunks, s.heap.sizeOf a < 2 ^ 31

variable {E} {lo : Nat} {c : Chunks} {s s' s₁ : Session σ} {size : Nat}

theorem step_malloc (s : Session σ) (size : Nat) : s.step E (.malloc size) = (do
    let (p, h) ← s.heap.klmalloc E size
    .ok (s.grant E s.live p size h)) := rfl

theorem apply_calloc (s : Session σ) (nmemb size : Nat) : s.apply E (.calloc nmemb size) = (do
    let (p, h) ← s.heap.klcalloc E nmemb size
    .ok (s.grant E s.live p (wordMul nmemb size) h)) := rfl

theorem apply_realloc (s : Session σ) (ptr size level : Nat) :
    s.apply E (.realloc ptr size level) = (do
      let (q, h) ← s.heap.klrealloc E ptr size level
      .ok (s.grant E (s.live.filter fun b => b.base ≠ ptr) q size h)) := rfl

theorem chunkSize_lt (hsize : size < 2 ^ 31 - 44) : chunkSize size < 2 ^ 31 := by
  unfold chunkSize
  split
  case isTrue hb =>
    unfold bigBin numBins at hb
    omega
  case isFalse =>
    unfold bigPages wordAdd bigBinHeaderSize pageSize
    omega

theorem Short.grows (hshort : s.Short) (hgrows : Grows E size s s')
    (hsize : size < 2 ^ 31 - 44) : s'.Short := by
  have hold : ∀ a ∈ s.chunks, s'.heap.sizeOf a < 2 ^ 31 := by
    intro a ha
    rw [hgrows.sizes a ha]
    exact hshort a ha
  intro a ha
  rcases hgrows.growth with ⟨hchunks, -⟩ | ⟨hchunks, hnew, -⟩
  · exact hold a (hchunks ▸ ha)
  · rw [hchunks] at ha
    cases List.mem_cons.mp ha with
    | inl heq =>
        rw [heq, hnew]
        exact chunkSize_lt hsize
    | inr ha => exact hold a ha

/-- No block that is somebody's starts at NULL. -/
theorem Inv.filter_null (hinv : Inv E lo c s) : s.live.filter (fun b => b.base ≠ 0) = s.live := by
  refine List.filter_eq_self.mpr fun b hb => ?_
  obtain ⟨n, -, hbusy⟩ := hinv.live b hb
  exact decide_eq_true (hbusy.base_ne_zero hinv.heap.core.layout)

/-! ### `malloc` in the other calls -/

/-- What there is after a request of `size` bytes has been served. -/
structure Served₁ (E : Sbrk σ) (lo size : Nat) (s : Session σ) (p : Nat) (s₁ : Session σ) :
    Prop where
  eq : s₁ = s.grant E s.live p size s₁.heap
  live : s₁.live = ⟨p, size⟩ :: s.live
  inv : ∃ c n, Inv E lo c s₁ ∧ Busy c p n ∧ Suits size n
  grows : Grows E size s s₁
  keeps : KeepsBytes s s₁ fun _ => True
  fresh : ∀ b ∈ s.live, b.base ≠ p

theorem Inv.served (hinv : Inv E lo c s) (hpos : 0 < size) (hsize : size < 2 ^ 31 - 44) {p : Nat}
    {h : Heap σ} (hrun : s.heap.klmalloc E size = .ok (p, h))
    (hle : E.heapEnd s.heap.brk ≤ E.heapEnd h.brk) :
    p ≠ 0 ∧ ∃ s₁, s₁.heap = h ∧ Served₁ E lo size s p s₁ := by
  have hne := Nat.ne_of_gt hpos
  have hword : size < 2 ^ 32 := by omega
  have hfits := hinv.heap.klmalloc_fits_of_le hne hsize hrun hle
  obtain ⟨n, c', hsuits, ha⟩ := hinv.heap.klmalloc_ok hne hword hfits hrun
  have hp : p ≠ 0 := ha.busy_self.base_ne_zero ha.inv.core.layout
  have hstep : s.step E (.malloc size) = .ok (s.grant E s.live p size h) := by
    rw [step_malloc, hrun]
    rfl
  have hlive : (s.grant E s.live p size h).live = ⟨p, size⟩ :: s.live := if_neg hp
  obtain ⟨⟨c₁, hinv₁⟩, hkeeps⟩ := hinv.malloc hword hfits hstep
  have hmem : (⟨p, size⟩ : Region) ∈ (s.grant E s.live p size h).live := by
    rw [hlive]
    exact List.mem_cons_self
  obtain ⟨n₁, hle₁, hbusy₁⟩ := hinv₁.live _ hmem
  have hn : n₁ = n := by
    rw [← hbusy₁.capacity hinv₁.heap]
    exact ha.busy_self.capacity ha.inv
  refine ⟨hp, _, rfl, rfl, hlive, ⟨c₁, n₁, hinv₁, hbusy₁, hn ▸ hsuits⟩,
    hinv.malloc_grows hfits hstep, fun b hb _ => hkeeps b hb, ?_⟩
  intro b hb heq
  have hnodup := hinv₁.nodup
  rw [hlive, List.map_cons, List.nodup_cons] at hnodup
  exact hnodup.1 (List.mem_map.mpr ⟨b, hb, heq⟩)

/-! ### `calloc` -/

theorem Inv.calloc (hinv : Inv E lo c s) {nmemb size : Nat} (hpos : 0 < nmemb * size)
    (hsize : nmemb * size < 2 ^ 31 - 44) (hle : E.heapEnd s.heap.brk ≤ E.heapEnd s'.heap.brk)
    (hstep : s.apply E (.calloc nmemb size) = .ok s') :
    (∃ c', Inv E lo c' s') ∧ Grows E (nmemb * size) s s' ∧
      ApiEffect s s' (.calloc nmemb size) := by
  have hproduct : wordMul nmemb size = nmemb * size := Nat.mod_eq_of_lt (by omega)
  rw [apply_calloc, Heap.klcalloc, hproduct] at hstep
  cases hrun : s.heap.klmalloc E (nmemb * size) with
  | error e =>
      rw [hrun] at hstep
      cases hstep
  | ok r =>
      obtain ⟨p, h⟩ := r
      rw [hrun] at hstep
      simp only [ok_bind, memset, turns_of_lt (show nmemb * size < 2 ^ 31 by omega)] at hstep
      have hbrk : E.heapEnd s.heap.brk ≤ E.heapEnd h.brk := by
        rw [← Except.ok.inj hstep] at hle
        simp only [grant] at hle
        split at hle <;> exact hle
      obtain ⟨hp, s₁, rfl, hs₁⟩ := hinv.served hpos hsize hrun hbrk
      obtain ⟨c₁, n, hinv₁, hbusy, hsuits⟩ := hs₁.inv
      have hfill : ∀ x, fillBytes p 0 (nmemb * size) s₁.heap.mem x =
          if p ≤ x ∧ x < p + nmemb * size then 0 else s₁.heap.mem x := fun x => fillBytes_eq x
      have hsize' := hsuits.le
      obtain ⟨hinv₂, hstays⟩ := hinv₁.store hbusy (m := fillBytes p 0 (nmemb * size) s₁.heap.mem)
        fun y hy => (hfill y).trans (if_neg (by omega))
      have hs' : s' = { s₁ with
          heap := { s₁.heap with mem := fillBytes p 0 (nmemb * size) s₁.heap.mem } } := by
        rw [← Except.ok.inj hstep, hs₁.eq]
        simp only [grant, ne_eq, hp, not_false_eq_true, if_true]
      rw [hs']
      refine ⟨⟨c₁, hinv₂⟩, hs₁.grows.trans_stays hstays, ?_, p, hs₁.live, ?_⟩
      · intro b hb _ x hx
        have hapart : x < p ∨ p + nmemb * size ≤ x := by
          have hdisjoint := hinv₁.disjoint
          rw [hs₁.live, List.pairwise_cons] at hdisjoint
          have hnot := (hdisjoint.1 b hb).symm x hx
          rw [Region.mem_iff] at hnot
          dsimp only at hnot
          omega
        exact ((hfill x).trans (if_neg (by omega))).trans (hs₁.keeps b hb trivial x hx)
      · intro j hj
        exact (hfill (p + j)).trans (if_pos (by omega))

/-! ### `realloc` -/

/-- The block keeps its cell, and its caller has another size of it. -/
theorem Inv.resized (hinv : Inv E lo c s) {b : Region} {n : Nat} (hbusy : Busy c b.base n) (hle : size ≤ n) :
    Inv E lo c { s with live := ⟨b.base, size⟩ :: s.live.filter fun b' => b'.base ≠ b.base } := by
  refine ⟨hinv.heap, hinv.chunks, ?_, ?_, ?_⟩
  · refine List.nodup_cons.mpr ⟨?_, hinv.nodup.sublist (List.filter_sublist.map Region.base)⟩
    intro hmem
    obtain ⟨b', hb', heq⟩ := List.mem_map.mp hmem
    exact of_decide_eq_true (List.mem_filter.mp hb').2 heq
  · intro b' hb'
    cases List.mem_cons.mp hb' with
    | inl heq =>
        rw [heq]
        exact ⟨n, hle, hbusy⟩
    | inr hb' => exact hinv.live b' (List.mem_filter.mp hb').1
  · intro x m hx
    obtain ⟨b', hb', rfl⟩ := hinv.busy x m hx
    by_cases heq : b'.base = b.base
    · exact ⟨_, List.mem_cons_self, heq.symm⟩
    · exact ⟨b', List.mem_cons_of_mem _ (List.mem_filter.mpr ⟨hb', decide_eq_true heq⟩), rfl⟩

theorem Inv.realloc_stays (hinv : Inv E lo c s) {b : Region} (hb : b ∈ s.live) {level : Nat}
    (hpos : 0 < size) (hsize : size < 2 ^ 31 - 44) (hstay : StaysInPlace b.base size s.heap)
    (hstep : s.apply E (.realloc b.base size level) = .ok s') :
    (∃ c', Inv E lo c' s') ∧ Grows E size s s' ∧ ApiEffect s s' (.realloc b.base size level) := by
  obtain ⟨n, hlen, hbusy⟩ := hinv.live b hb
  have hle : size ≤ n := by
    have hbytes := (hbusy.stays_iff hinv.heap (by omega) hstay.2).mpr (Or.inl (by omega))
    rw [← hbusy.capacity hinv.heap]
    exact hbytes.1
  rw [apply_realloc, Heap.klrealloc_stays level (Nat.ne_of_gt hpos) hstay, ok_bind] at hstep
  have hs' : s' = { s with
      live := ⟨b.base, size⟩ :: s.live.filter fun b' => b'.base ≠ b.base } := by
    rw [← Except.ok.inj hstep]
    simp only [grant, if_true, if_neg hstay.1]
  rw [hs']
  refine ⟨⟨c, hinv.resized hbusy hle⟩, ⟨fun _ _ => rfl, Or.inl ⟨rfl, rfl⟩⟩, ?_, ?_⟩
  · intro b' _ _ x _
    rfl
  · intro b' _ _ _
    exact ⟨b.base, rfl, fun _ _ => rfl⟩

/-- The chunk of a live block is a chunk of the session. -/
theorem Inv.chunk_mem (hinv : Inv E lo c s) {x n : Nat} (hbusy : Busy c x n) :
    pageBase x ∈ s.chunks := by
  obtain ⟨a, k, hk, hcell, -⟩ := hbusy
  rw [hinv.heap.core.layout.pageBase_cell hk hcell]
  exact (hinv.chunks a).mpr ⟨k, hk⟩

/-- The copy into the new block, and the release of the old one. -/
theorem Inv.realloc_copy (hinv : Inv E lo c s) (hshort : s.Short) {b : Region} (hb : b ∈ s.live)
    {level q : Nat} (hpos : 0 < size) (hsize : size < 2 ^ 31 - 44) (hlevel : level ≤ skipMaxLevel)
    (hstay : ¬ StaysInPlace b.base size s.heap)
    (hbin : s.heap.sizeWord b.base < bigBin → s.heap.sizeWord b.base ≤ klmallocBinSize size)
    (hs₁ : Served₁ E lo size s q s₁) (hq : q ≠ 0) {h' : Heap σ}
    (hfree : ({ s₁.heap with
      mem := copyBytes q b.base (s₁.heap.copied b.base) s₁.heap.mem } : Heap σ).klfree b.base level =
        .ok h')
    (hs' : s' = s.grant E (s.live.filter fun b' => b'.base ≠ b.base) q size h') :
    (∃ c', Inv E lo c' s') ∧ Grows E size s s' ∧ ApiEffect s s' (.realloc b.base size level) := by
  obtain ⟨n, hlen, hbusy⟩ := hinv.live b hb
  obtain ⟨c₁, n', hinv₁, hbusyq, hsuits⟩ := hs₁.inv
  have hl₁ := hinv₁.heap.core.layout
  have hb₁ : b ∈ s₁.live := by
    rw [hs₁.live]
    exact List.mem_cons_of_mem _ hb
  obtain ⟨n₁, hlen₁, hbusy₁⟩ := hinv₁.live b hb₁
  have hword : s₁.heap.sizeWord b.base = s.heap.sizeWord b.base :=
    hs₁.grows.sizes _ (hinv.chunk_mem hbusy)
  obtain ⟨hvalid, hn₁⟩ := hbusy₁.sizeWord hinv₁.heap
  have hcopied := hbusy₁.copied hinv₁.heap
  have hlow : s₁.heap.sizeWord b.base < 2 ^ 31 := by
    rw [hword]
    exact hshort _ (hinv.chunk_mem hbusy)
  have hL : s₁.heap.copied b.base = n₁ := by omega
  have hnot : ¬ signed size ≤ signed (s₁.heap.sizeWord b.base) := by
    rw [hword]
    exact fun hle => hstay ⟨hbusy.base_ne_zero hinv.heap.core.layout, hle⟩
  have hfit : n₁ ≤ n' := (copied_le_iff hvalid hn₁ hsuits hpos (by omega) hnot
    (Or.inl ⟨hlow, rfl⟩)).mpr (by rw [hword]; exact hbin)
  have hne : q ≠ b.base := fun heq => hs₁.fresh b hb heq.symm
  have hapart := hbusyq.apart hl₁ hbusy₁ hne
  rw [hL] at hfree
  have hcopy := copyBytes_eq (m := s₁.heap.mem) (show q + n₁ ≤ b.base ∨ b.base + n₁ ≤ q by omega)
  obtain ⟨hinv₂, hstays₂⟩ := hinv₁.store hbusyq (m := copyBytes q b.base n₁ s₁.heap.mem)
    fun y hy => (hcopy y).trans (if_neg (by omega))
  let s₂ : Session σ := { s₁ with
    heap := { s₁.heap with mem := copyBytes q b.base n₁ s₁.heap.mem } }
  have hstep₂ : s₂.step E (.free b.base level) = .ok s' := by
    have hgrant : s.grant E (s.live.filter fun b' => b'.base ≠ b.base) q size h' = { s₂ with
        heap := h', live := s₂.live.filter fun b' => b'.base ≠ b.base } := by
      have hbrk : h'.brk = s₁.heap.brk := (Heap.klfree_brk hfree).trans rfl
      have hkeep : decide ((⟨q, size⟩ : Region).base ≠ b.base) = true := decide_eq_true hne
      have hlive : s₂.live.filter (fun b' => b'.base ≠ b.base) =
          ⟨q, size⟩ :: s.live.filter fun b' => b'.base ≠ b.base := by
        change s₁.live.filter _ = _
        rw [hs₁.live, List.filter_cons, if_pos hkeep]
      have hchunks := congrArg Session.chunks hs₁.eq
      rw [hlive, grant, hbrk, if_neg hq]
      exact congrArg (fun l => Session.mk h' l _) hchunks.symm
    simp only [Session.step, s₂, hfree, ok_bind, hs', hgrant]
  obtain ⟨s'', hrun, hinv', hkeeps⟩ := hinv₂.free (Or.inr ⟨b, hb₁, rfl⟩) hlevel
  rw [hstep₂] at hrun
  cases hrun
  have hstays := hstays₂.trans (hinv₂.free_stays (Or.inr ⟨b, hb₁, rfl⟩) hlevel hstep₂)
  have hlive' : s'.live = ⟨q, size⟩ :: s.live.filter fun b' => b'.base ≠ b.base := by
    rw [hs']
    exact if_neg hq
  refine ⟨hinv', hs₁.grows.trans_stays hstays, ?_, ?_⟩
  · intro b' hb' hne' x hx
    have hb'₁ : b' ∈ s₁.live := by
      rw [hs₁.live]
      exact List.mem_cons_of_mem _ hb'
    obtain ⟨m, hm, hlo, hhi⟩ := hinv₁.mem_cell hb'₁ hx
    have hapart' := hbusyq.apart hl₁ hm fun heq => hs₁.fresh b' hb' heq.symm
    rw [hkeeps b' hb'₁ hne' x hx]
    exact ((hcopy x).trans (if_neg (by omega))).trans (hs₁.keeps b' hb' trivial x hx)
  · intro b' hb' heq _
    have hbb : b' = b := List.inj_on_of_nodup_map hinv.nodup hb' hb heq
    subst hbb
    refine ⟨q, hlive', ?_⟩
    intro j hj
    have hqmem : (⟨q, size⟩ : Region) ∈ s₂.live := by
      change _ ∈ s₁.live
      rw [hs₁.live]
      exact List.mem_cons_self
    have hbytes : q + j ∈ (⟨q, size⟩ : Region) := by
      rw [Region.mem_iff]
      dsimp only
      omega
    have hold : b'.base + j ∈ b' := by
      rw [Region.mem_iff]
      omega
    rw [hkeeps ⟨q, size⟩ hqmem hne (q + j) hbytes]
    refine ((hcopy (q + j)).trans (if_pos (by omega))).trans ?_
    rw [Nat.add_sub_cancel_left]
    exact hs₁.keeps b' hb trivial _ hold

theorem Inv.realloc_moves (hinv : Inv E lo c s) (hshort : s.Short) {b : Region} (hb : b ∈ s.live)
    {level : Nat} (hpos : 0 < size) (hsize : size < 2 ^ 31 - 44) (hlevel : level ≤ skipMaxLevel)
    (hstay : ¬ StaysInPlace b.base size s.heap)
    (hbin : s.heap.sizeWord b.base < bigBin → s.heap.sizeWord b.base ≤ klmallocBinSize size)
    (hle : E.heapEnd s.heap.brk ≤ E.heapEnd s'.heap.brk)
    (hstep : s.apply E (.realloc b.base size level) = .ok s') :
    (∃ c', Inv E lo c' s') ∧ Grows E size s s' ∧ ApiEffect s s' (.realloc b.base size level) := by
  have hl := hinv.heap.core.layout
  obtain ⟨n, hlen, hbusy⟩ := hinv.live b hb
  have hptr := hbusy.base_ne_zero hl
  rw [apply_realloc, Heap.klrealloc_moves level hptr (Nat.ne_of_gt hpos) hstay] at hstep
  cases hrun : s.heap.klmalloc E size with
  | error e =>
      rw [hrun] at hstep
      cases hstep
  | ok r =>
      obtain ⟨q, h₁⟩ := r
      rw [hrun] at hstep
      simp only [ok_bind] at hstep
      by_cases hq : q = 0
      · -- `klmalloc` returns NULL for no such size
        exfalso
        rw [if_neg (not_not.mpr hq)] at hstep
        have hbrk : E.heapEnd s.heap.brk ≤ E.heapEnd h₁.brk := by
          rw [← Except.ok.inj hstep] at hle
          exact hle
        exact (hinv.served hpos hsize hrun hbrk).1 hq
      rw [if_pos hq] at hstep
      cases hfree : ({ h₁ with mem := copyBytes q b.base (h₁.copied b.base) h₁.mem }).klfree
          b.base level with
      | error e =>
          rw [hfree] at hstep
          cases hstep
      | ok h' =>
          rw [hfree] at hstep
          simp only [ok_bind] at hstep
          have hbrk : h'.brk = h₁.brk := (Heap.klfree_brk hfree).trans rfl
          have hend : E.heapEnd s.heap.brk ≤ E.heapEnd h₁.brk := by
            rw [← Except.ok.inj hstep] at hle
            rw [← hbrk]
            exact hle
          obtain ⟨-, s₁, rfl, hs₁⟩ := hinv.served hpos hsize hrun hend
          exact hinv.realloc_copy hshort hb hpos hsize hlevel hstay hbin hs₁ hq hfree
            (Except.ok.inj hstep).symm

theorem Inv.realloc (hinv : Inv E lo c s) (hshort : s.Short) {ptr level : Nat}
    (hrequest : s.ApiRequest (.realloc ptr size level))
    (hle : E.heapEnd s.heap.brk ≤ E.heapEnd s'.heap.brk)
    (hstep : s.apply E (.realloc ptr size level) = .ok s') :
    (∃ c', Inv E lo c' s') ∧ Grows E size s s' ∧ ApiEffect s s' (.realloc ptr size level) := by
  obtain ⟨hptr, hlevel, hsize, hkeep⟩ := hrequest
  have hl := hinv.heap.core.layout
  by_cases hnull : ptr = 0
  · -- a call of `malloc`
    subst hnull
    have hstep' : s.step E (.malloc size) = .ok s' := by
      rw [apply_realloc, hinv.filter_null, Heap.klrealloc, if_pos rfl] at hstep
      exact hstep
    have hallowed : s.Allowed E (.malloc size) := by
      by_cases hzero : size = 0
      · subst hzero
        exact ⟨by decide, ⟨fun hne => absurd rfl hne, fun hbig => absurd hbig (by decide),
          fun hbig => absurd hbig (by decide)⟩⟩
      · exact hinv.allowed ⟨Nat.pos_of_ne_zero hzero, hsize⟩ hle hstep'
    obtain ⟨hinv', hkeeps⟩ := hinv.malloc hallowed.1 hallowed.2 hstep'
    refine ⟨hinv', hinv.malloc_grows hallowed.2 hstep', fun b hb _ => hkeeps b hb, ?_⟩
    intro b hb heq
    obtain ⟨n, -, hbusy⟩ := hinv.live b hb
    exact absurd heq (hbusy.base_ne_zero hl)
  obtain ⟨b, hb, rfl⟩ := hptr.resolve_left hnull
  by_cases hzero : size = 0
  · -- a call of `free`
    subst hzero
    have hstep' : s.step E (.free b.base level) = .ok s' := by
      rw [apply_realloc, Heap.klrealloc, if_neg hnull, if_pos rfl] at hstep
      rw [← hstep]
      cases hfree : s.heap.klfree b.base level with
      | error e => simp only [Session.step, hfree, error_bind]
      | ok h' =>
          simp only [Session.step, hfree, ok_bind, grant, if_true, Heap.klfree_brk hfree]
    obtain ⟨s'', hrun, hinv', hkeeps⟩ := hinv.free (Or.inr ⟨b, hb, rfl⟩) hlevel
    rw [hstep'] at hrun
    cases hrun
    exact ⟨hinv', (hinv.free_stays (Or.inr ⟨b, hb, rfl⟩) hlevel hstep').grows 0, hkeeps,
      fun _ _ _ hne => absurd rfl hne⟩
  have hpos := Nat.pos_of_ne_zero hzero
  by_cases hstay : StaysInPlace b.base size s.heap
  · exact hinv.realloc_stays hb hpos hsize hstay hstep
  · have hbin := ((hkeep.resolve_left hnull).resolve_left hzero).resolve_left hstay
    exact hinv.realloc_moves hshort hb hpos hsize hlevel hstay hbin hle hstep

/-! ### Runs -/

/-- What every call keeps, and what it does. -/
theorem Inv.apply_spec (hinv : Inv E lo c s) (hshort : s.Short) {o : ApiCall}
    (hrequest : s.ApiRequest o) (hle : E.heapEnd s.heap.brk ≤ E.heapEnd s'.heap.brk)
    (hstep : s.apply E o = .ok s') :
    (∃ c', Inv E lo c' s') ∧ (∃ size < 2 ^ 31 - 44, Grows E size s s') ∧ ApiEffect s s' o := by
  cases o with
  | basic o =>
      have hallowed := hinv.allowed hrequest hle hstep
      refine ⟨hinv.step hallowed hstep, ?_, hinv.keepsBlocks hallowed hstep⟩
      cases o with
      | malloc size => exact ⟨size, hrequest.2, hinv.malloc_grows hallowed.2 hstep⟩
      | free ptr level =>
          exact ⟨0, by decide, (hinv.free_stays hrequest.1 hrequest.2 hstep).grows 0⟩
      | write address value =>
          obtain ⟨b, hb, hx⟩ := hrequest
          obtain ⟨n, hbusy, hlo, hhi⟩ := hinv.mem_cell hb hx
          have hstays := (hinv.store hbusy (m := s.heap.mem.store8 address value) fun y hy =>
            Memory.store8_of_ne (by omega)).2
          rw [← Except.ok.inj hstep]
          exact ⟨0, by decide, hstays.grows 0⟩
  | calloc nmemb size =>
      obtain ⟨hinv', hgrows, heffect⟩ := hinv.calloc hrequest.1 hrequest.2 hle hstep
      exact ⟨hinv', ⟨_, hrequest.2, hgrows⟩, heffect⟩
  | realloc ptr size level =>
      obtain ⟨hinv', hgrows, heffect⟩ := hinv.realloc hshort hrequest hle hstep
      exact ⟨hinv', ⟨size, hrequest.2.2.1, hgrows⟩, heffect⟩

theorem ApiServed.inv {mem : Memory} {brk : σ} (hserved : ApiServed E mem brk s)
    (hpos : 0 < E.heapEnd brk) (hpage : pageSize ∣ E.heapEnd brk) (hlt : E.heapEnd brk < 2 ^ 32) :
    (∃ c, Inv E (E.heapEnd brk) c s) ∧ s.Short := by
  refine Run.Reaches.invariant (I := fun s => (∃ c, Inv E (E.heapEnd brk) c s) ∧ s.Short) hserved
    ⟨⟨_, inv_start E mem brk hpos hpage hlt⟩, fun a ha => by cases ha⟩ ?_
  rintro s o s' ⟨⟨c, hinv⟩, hshort⟩ ⟨hrequest, hle⟩ hstep
  obtain ⟨hinv', ⟨size, hsize, hgrows⟩, -⟩ := hinv.apply_spec hshort hrequest hle hstep
  exact ⟨hinv', hshort.grows hgrows hsize⟩

/-- Sessions of `malloc` and `free` are such sessions. -/
theorem Served.api {mem : Memory} {brk : σ} (hserved : Served E mem brk s) :
    ApiServed E mem brk s := by
  induction hserved with
  | refl => exact .refl
  | tail _ hok hstep ih => exact .tail ih (o := .basic _) hok hstep

/-- In every session of the whole interface the live blocks are the callers', and
every call does to their bytes what it is to do. -/
theorem api_safe (E : Sbrk σ) (mem : Memory) (brk : σ) (hpos : 0 < E.heapEnd brk)
    (hpage : pageSize ∣ E.heapEnd brk) (hlt : E.heapEnd brk < 2 ^ 32) {s : Session σ}
    (hserved : ApiServed E mem brk s) :
    HeapSafe E (E.heapEnd brk) s ∧
      ∀ o s', s.ApiRequest o → s.apply E o = .ok s' →
        E.heapEnd s.heap.brk ≤ E.heapEnd s'.heap.brk → ApiEffect s s' o := by
  obtain ⟨⟨c, hinv⟩, hshort⟩ := hserved.inv hpos hpage hlt
  refine ⟨hinv.safe, ?_⟩
  intro o s' hrequest hstep hle
  exact (hinv.apply_spec hshort hrequest hle hstep).2.2

theorem api_safe_bump : ∃ s : Session Nat, s.live = [⟨0x10204C, 64⟩, ⟨0x10200C, 64⟩] ∧
    HeapSafe Sbrk.bump 0x100000 s ∧ ∀ o s', s.ApiRequest o → s.apply Sbrk.bump o = .ok s' →
      s.heap.brk ≤ s'.heap.brk → ApiEffect s s' o := by
  obtain ⟨s, hserved, hlive, -⟩ := exists_served_bump
  exact ⟨s, hlive, api_safe Sbrk.bump (fun _ => 0) 0x100000 (by decide) (by decide) (by decide)
    hserved.api⟩

end Session

end X32PRos
