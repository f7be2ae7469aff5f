import X32PRos.Foundation.Run
import X32PRos.Heap.Release

/-!
Runs of the heap: calls of `klmalloc` and `klfree` in any order, and stores of
the callers into the blocks they have. Beside the heap a session records which
ranges `sbrk` has returned and which blocks are live.
-/

namespace X32PRos

open Foundation

variable {σ : Type}

def Sbrk.bump : Sbrk Nat where
  heapEnd := id
  call increment s := .ok (s, wordAdd s increment)
  returns h := by
    cases h
    exact ⟨rfl, rfl⟩

structure Session (σ : Type) where
  heap : Heap σ
  /-- the addresses that `sbrk` has returned -/
  chunks : List Nat
  /-- the blocks that `klmalloc` has returned, as long as they were requested -/
  live : List Region

inductive HeapOp
  | malloc (size : Nat)
  /-- with the level that the random generator yields, if it is asked -/
  | free (ptr level : Nat)
  | write (address : Nat) (value : UInt8)

namespace Session

def start (mem : Memory) (brk : σ) : Session σ := ⟨Heap.initial mem brk, [], []⟩

variable (E : Sbrk σ)

def step (s : Session σ) : HeapOp → Except Fault (Session σ)
  | .malloc size => do
      let (p, h) ← s.heap.klmalloc E size
      .ok {
        heap := h
        chunks :=
          if E.heapEnd h.brk = E.heapEnd s.heap.brk then s.chunks
          else E.heapEnd s.heap.brk :: s.chunks
        live := if p = 0 then s.live else ⟨p, size⟩ :: s.live }
  | .free ptr level => do
      let h ← s.heap.klfree ptr level
      .ok { s with heap := h, live := s.live.filter fun b => b.base ≠ ptr }
  | .write address value =>
      .ok { s with heap := { s.heap with mem := s.heap.mem.store8 address value } }

/-- What the callers keep to, and that a request fits. -/
def Allowed (s : Session σ) : HeapOp → Prop
  | .malloc size => size < 2 ^ 32 ∧ MallocFits E size s.heap
  | .free ptr level => (ptr = 0 ∨ ∃ b ∈ s.live, b.base = ptr) ∧ level ≤ skipMaxLevel
  | .write address _ => ∃ b ∈ s.live, address ∈ b

abbrev Reached (mem : Memory) (brk : σ) : Session σ → Prop :=
  Run.Reaches (step E) (fun s o _ => s.Allowed E o) (start mem brk)

/-- The chunks are those that `sbrk` has returned, and the cells that are not
free are the live blocks. -/
structure Inv (lo : Nat) (c : Chunks) (s : Session σ) : Prop where
  heap : HeapInv lo (E.heapEnd s.heap.brk) c s.heap
  chunks : ∀ a, a ∈ s.chunks ↔ ∃ k, c a = some k
  nodup : (s.live.map Region.base).Nodup
  live : ∀ b ∈ s.live, ∃ n, b.len ≤ n ∧ Busy c b.base n
  busy : ∀ x n, Busy c x n → ∃ b ∈ s.live, b.base = x

/-- Before the first call there are no chunks. -/
theorem inv_start (mem : Memory) (brk : σ) (hpos : 0 < E.heapEnd brk)
    (hpage : pageSize ∣ E.heapEnd brk) (hlt : E.heapEnd brk < 2 ^ 32) :
    Inv E (E.heapEnd brk) (fun _ => none) (start mem brk) := by
  refine ⟨⟨⟨⟨hpos, hpage, Nat.le_refl _, hlt, ?_, ?_, ?_, ?_, ?_, ?_⟩, ?_, ?_, Or.inl rfl⟩,
    [], ⟨⟨?_, List.Pairwise.nil, List.nodup_nil⟩, ⟨by simp, Or.inl rfl⟩, Nat.zero_le _⟩, ?_⟩,
    ?_, List.nodup_nil, by simp [start], ?_⟩
  · intro a k hk
    cases hk
  · intro a k hk
    cases hk
  · intro a k hk
    cases hk
  · intro a b k k' hk
    cases hk
  · intro a k hk
    cases hk
  · intro a k x hk
    cases hk
  · intro a k hk
    cases hk
  · intro b _
    exact ⟨[], ⟨rfl, List.nodup_nil, by simp⟩⟩
  · intro i _
    rfl
  · intro a
    simp
  · intro a
    simp [start]
  · rintro x n ⟨a, k, hk, -⟩
    cases hk

variable {E} {lo : Nat} {c : Chunks} {s s' : Session σ}

/-! ### One step -/

/-- The bytes of a live block are in its cell. -/
theorem Inv.mem_cell (hinv : Inv E lo c s) {b : Region} (hb : b ∈ s.live) {x : Nat} (hx : x ∈ b) :
    ∃ n, Busy c b.base n ∧ b.base ≤ x ∧ x < b.base + n := by
  obtain ⟨n, hle, hbusy⟩ := hinv.live b hb
  rw [Region.mem_iff] at hx
  exact ⟨n, hbusy, hx.1, by omega⟩

theorem Inv.malloc (hinv : Inv E lo c s) {size : Nat} (hword : size < 2 ^ 32)
    (hfits : MallocFits E size s.heap) (hstep : s.step E (.malloc size) = .ok s') :
    (∃ c', Inv E lo c' s') ∧ ∀ b ∈ s.live, ∀ x ∈ b, s'.heap.mem x = s.heap.mem x := by
  by_cases hne : size = 0
  · -- NULL is no block
    subst hne
    have hsame : s' = s := by
      simp only [step, Heap.klmalloc, ite_true, ok_bind] at hstep
      exact (Except.ok.inj hstep).symm
    rw [hsame]
    exact ⟨⟨c, hinv⟩, fun _ _ _ _ => rfl⟩
  rcases hinv.heap.klmalloc_spec hne hword hfits with ⟨-, e, -, hrun⟩ | ⟨p, n, h', c', hrun, hsuits, ha⟩
  · simp only [step, hrun, error_bind] at hstep
    cases hstep
  simp only [step, hrun, ok_bind] at hstep
  have hl := hinv.heap.core.layout
  have hbusy := ha.busy_self
  rw [if_neg (hbusy.base_ne_zero ha.inv.core.layout)] at hstep
  cases hstep
  refine ⟨⟨c', ha.inv, ?_, ?_, ?_, ?_⟩, ?_⟩
  · intro a
    rcases ha.chunks with ⟨heq, hchunks⟩ | ⟨hlt, hchunks⟩
    · rw [if_pos heq, hchunks]
      exact hinv.chunks a
    · rw [if_neg (Nat.ne_of_gt hlt), hchunks, List.mem_cons, hinv.chunks a, or_comm]
  · refine List.nodup_cons.mpr ⟨?_, hinv.nodup⟩
    intro hmem
    obtain ⟨b, hb, heq⟩ := List.mem_map.mp hmem
    obtain ⟨m, -, hm⟩ := hinv.live b hb
    rw [heq] at hm
    exact ha.fresh m hm
  · intro b hb
    rcases List.mem_cons.mp hb with rfl | hb
    · exact ⟨n, hsuits.le, hbusy⟩
    · obtain ⟨m, hm, hmbusy⟩ := hinv.live b hb
      exact ⟨m, hm, (ha.busy _ _).mpr (Or.inl hmbusy)⟩
  · intro x m hm
    rcases (ha.busy x m).mp hm with hold | ⟨rfl, -⟩
    · obtain ⟨b, hb, heq⟩ := hinv.busy x m hold
      exact ⟨b, List.mem_cons_of_mem _ hb, heq⟩
    · exact ⟨_, List.mem_cons_self, rfl⟩
  · intro b hb x hx
    obtain ⟨m, hm, hlo, hhi⟩ := hinv.mem_cell hb hx
    have hwithin := (hm.within hl).2
    exact ha.frame x (by omega) (hm.not_header hl hlo hhi)

theorem Inv.free (hinv : Inv E lo c s) {ptr level : Nat} (hptr : ptr = 0 ∨ ∃ b ∈ s.live, b.base = ptr)
    (hlevel : level ≤ skipMaxLevel) :
    ∃ s', s.step E (.free ptr level) = .ok s' ∧ (∃ c', Inv E lo c' s') ∧
      ∀ b ∈ s.live, b.base ≠ ptr → ∀ x ∈ b, s'.heap.mem x = s.heap.mem x := by
  have hl := hinv.heap.core.layout
  by_cases hne : ptr = 0
  · -- nothing is done for NULL, which no block is
    subst hne
    refine ⟨s, ?_, ⟨c, hinv⟩, fun _ _ _ _ _ => rfl⟩
    have hall : s.live.filter (fun b => b.base ≠ 0) = s.live := by
      refine List.filter_eq_self.mpr fun b hb => ?_
      obtain ⟨n, -, hbusy⟩ := hinv.live b hb
      exact decide_eq_true (hbusy.base_ne_zero hl)
    simp only [step, Heap.klfree_null, ok_bind, hall]
  obtain ⟨b₀, hb₀, rfl⟩ := hptr.resolve_left hne
  obtain ⟨n₀, -, hbusy₀⟩ := hinv.live b₀ hb₀
  obtain ⟨h', c', hrun, hr⟩ := hinv.heap.klfree_spec hbusy₀ hlevel
  refine ⟨{ s with heap := h', live := s.live.filter fun b => b.base ≠ b₀.base }, ?_,
    ⟨c', ?_, ?_, ?_, ?_, ?_⟩, ?_⟩
  · simp only [step, hrun, ok_bind]
  · dsimp only
    rw [hr.brk]
    exact hr.inv
  · intro a
    exact (hinv.chunks a).trans (hr.chunks a).symm
  · exact hinv.nodup.sublist (List.filter_sublist.map Region.base)
  · intro b hb
    obtain ⟨hmem, hne'⟩ := List.mem_filter.mp hb
    obtain ⟨n, hle, hbusy⟩ := hinv.live b hmem
    exact ⟨n, hle, (hr.busy _ _).mpr ⟨hbusy, of_decide_eq_true hne'⟩⟩
  · intro x n hx
    obtain ⟨hold, hne'⟩ := (hr.busy x n).mp hx
    obtain ⟨b, hb, rfl⟩ := hinv.busy x n hold
    exact ⟨b, List.mem_filter.mpr ⟨hb, decide_eq_true hne'⟩, rfl⟩
  · intro b hb hne' x hx
    obtain ⟨n, hbusy, hlo, hhi⟩ := hinv.mem_cell hb hx
    apply hr.frame x (hbusy.not_header hl hlo hhi)
    -- the link word of the freed cell is in another cell
    have hapart := hbusy.apart hl hbusy₀ hne'
    have hfour := hbusy₀.four_le
    omega

theorem Inv.write (hinv : Inv E lo c s) {address : Nat} {value : UInt8} {b : Region}
    (hb : b ∈ s.live) (hx : address ∈ b) :
    Inv E lo c { s with heap := { s.heap with mem := s.heap.mem.store8 address value } } := by
  obtain ⟨n, hbusy, hlo, hhi⟩ := hinv.mem_cell hb hx
  refine ⟨hinv.heap.of_agree fun x hmeta => ?_, hinv.chunks, hinv.nodup, hinv.live, hinv.busy⟩
  apply Memory.store8_of_ne
  rintro rfl
  exact hbusy.not_metadata hinv.heap.core.layout hlo hhi hmeta

/-- Every allowed step that returns keeps the invariant. -/
theorem Inv.step (hinv : Inv E lo c s) {o : HeapOp} (hallowed : s.Allowed E o)
    (hstep : s.step E o = .ok s') : ∃ c', Inv E lo c' s' := by
  cases o with
  | malloc size => exact (hinv.malloc hallowed.1 hallowed.2 hstep).1
  | free ptr level =>
      obtain ⟨s'', hrun, hinv', -⟩ := hinv.free hallowed.1 hallowed.2
      rw [hrun] at hstep
      cases hstep
      exact hinv'
  | write address value =>
      obtain ⟨b, hb, hx⟩ := hallowed
      cases hstep
      exact ⟨c, hinv.write hb hx⟩

/-- The invariant holds in every session that is reached. -/
theorem Reached.inv {mem : Memory} {brk : σ} (hreached : Reached E mem brk s)
    (hpos : 0 < E.heapEnd brk) (hpage : pageSize ∣ E.heapEnd brk) (hlt : E.heapEnd brk < 2 ^ 32) :
    ∃ c, Inv E (E.heapEnd brk) c s := by
  refine Run.Reaches.invariant (I := fun s => ∃ c, Inv E (E.heapEnd brk) c s) hreached
    ⟨_, inv_start E mem brk hpos hpage hlt⟩ ?_
  rintro s o s' ⟨c, hinv⟩ hallowed hstep
  exact hinv.step hallowed hstep

/-- A first request in a heap that starts at 1 MB. -/
theorem start_malloc_bump (size : Nat) (hpos : 0 < size) (hsize : size < 2 ^ 30) :
    ∃ s p, (start (fun _ => 0) 0x100000).step Sbrk.bump (.malloc size) = .ok s ∧
      s.live = [⟨p, size⟩] ∧ 0x100000 ≤ s.heap.brk ∧
      (start (fun _ => 0) (0x100000 : Nat)).Allowed Sbrk.bump (.malloc size) ∧
      ∃ n c', Suits size n ∧ Busy c' p n ∧ HeapInv 0x100000 s.heap.brk c' s.heap := by
  have hinv := inv_start Sbrk.bump (fun _ => 0) 0x100000 (by decide) (by decide)
    (by decide)
  have hfits : MallocFits Sbrk.bump size (start (fun _ => 0) (0x100000 : Nat)).heap := by
    refine .of_room (by omega) ?_
    change 0x100000 + size + 0x2000 < 2 ^ 32
    omega
  rcases hinv.heap.klmalloc_spec (Nat.ne_of_gt hpos) (by omega) hfits with
    ⟨_, e, herr, -⟩ | ⟨p, n, h', c', hrun, hsuits, ha⟩
  · cases herr
  have hbusy := ha.busy_self
  have hp : p ≠ 0 := hbusy.base_ne_zero ha.inv.core.layout
  have hle : 0x100000 ≤ h'.brk := by
    rcases ha.chunks with ⟨heq, -⟩ | ⟨hlt, -⟩
    · exact Nat.le_of_eq heq.symm
    · exact Nat.le_of_lt hlt
  have hstep : (start (fun _ => 0) (0x100000 : Nat)).step Sbrk.bump (.malloc size) =
      .ok ⟨h', if h'.brk = 0x100000 then [] else [0x100000], [⟨p, size⟩]⟩ := by
    simp only [step, hrun, ok_bind, if_neg hp]
    rfl
  exact ⟨_, p, hstep, rfl, hle, ⟨by omega, hfits⟩, n, c', hsuits, hbusy, ha.inv⟩

end Session

end X32PRos
