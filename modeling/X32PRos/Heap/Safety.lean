import X32PRos.Heap.Session

/-!
Safety of the heap: whatever the callers request, release and store, live blocks
are memory of their own, apart from all that the allocator keeps in memory.
-/

namespace X32PRos

open Foundation

variable {σ : Type}

namespace Session

/-- What callers may do: sizes are positive and below 2 GB by a header. -/
def Request (s : Session σ) : HeapOp → Prop
  | .malloc size => 0 < size ∧ size < 2 ^ 31 - 44
  | .free ptr level => (ptr = 0 ∨ ∃ b ∈ s.live, b.base = ptr) ∧ level ≤ skipMaxLevel
  | .write address _ => ∃ b ∈ s.live, address ∈ b

variable (E : Sbrk σ)

abbrev Served (mem : Memory) (brk : σ) : Session σ → Prop :=
  Run.Reaches (step E)
    (fun s o s' => s.Request o ∧ E.heapEnd s.heap.brk ≤ E.heapEnd s'.heap.brk) (start mem brk)

structure HeapSafe (base : Nat) (s : Session σ) : Prop where
  obtained : ∀ b ∈ s.live, base ≤ b.base ∧ b.base + b.len ≤ E.heapEnd s.heap.brk
  disjoint : s.live.Pairwise Region.Apart
  headers : ∀ b ∈ s.live, ∀ a ∈ s.chunks, b.Apart ⟨a, headerSize (s.heap.sizeOf a)⟩
  links : ∀ a ∈ s.chunks, ∃ cells, Linked (Heap.stackNext s.heap.mem a) none cells ∧
    ∀ x ∈ cells, ∀ b ∈ s.live, b.Apart ⟨x, 4⟩

/-- Calls change no byte of a live block, but for the one that is released. -/
def KeepsBlocks (s : Session σ) (o : HeapOp) (s' : Session σ) : Prop :=
  match o with
  | .malloc _ => ∀ b ∈ s.live, ∀ x ∈ b, s'.heap.mem x = s.heap.mem x
  | .free ptr _ => ∀ b ∈ s.live, b.base ≠ ptr → ∀ x ∈ b, s'.heap.mem x = s.heap.mem x
  | .write _ _ => True

variable {E} {lo : Nat} {c : Chunks} {s s' : Session σ} {o : HeapOp}

/-- The steps of such callers are allowed. -/
theorem Inv.allowed (hinv : Inv E lo c s) (hrequest : s.Request o)
    (hle : E.heapEnd s.heap.brk ≤ E.heapEnd s'.heap.brk) (hstep : s.step E o = .ok s') :
    s.Allowed E o := by
  cases o with
  | malloc size =>
      obtain ⟨hpos, hsize⟩ := hrequest
      simp only [Session.step] at hstep
      obtain ⟨⟨p, h'⟩, hrun, hstep⟩ := bind_eq_ok.mp hstep
      cases hstep
      exact ⟨by omega,
        hinv.heap.klmalloc_fits_of_le (Nat.ne_of_gt hpos) hsize hrun hle⟩
  | free ptr level => exact hrequest
  | write address value => exact hrequest

theorem Served.inv {mem : Memory} {brk : σ} (hserved : Served E mem brk s)
    (hpos : 0 < E.heapEnd brk) (hpage : pageSize ∣ E.heapEnd brk) (hlt : E.heapEnd brk < 2 ^ 32) :
    ∃ c, Inv E (E.heapEnd brk) c s := by
  refine Run.Reaches.invariant (I := fun s => ∃ c, Inv E (E.heapEnd brk) c s) hserved
    ⟨_, inv_start E mem brk hpos hpage hlt⟩ ?_
  rintro s o s' ⟨c, hinv⟩ ⟨hrequest, hle⟩ hstep
  exact hinv.step (hinv.allowed hrequest hle hstep) hstep

/-- Blocks with different addresses are in different cells. -/
theorem Inv.disjoint (hinv : Inv E lo c s) : s.live.Pairwise Region.Apart := by
  have hne : s.live.Pairwise fun b b' => b.base ≠ b'.base := List.pairwise_map.mp hinv.nodup
  apply hne.imp_of_mem
  intro b b' hb hb' hne
  obtain ⟨n, hle, hbusy⟩ := hinv.live b hb
  obtain ⟨n', hle', hbusy'⟩ := hinv.live b' hb'
  have hapart := hbusy.apart hinv.heap.core.layout hbusy' hne
  exact Region.apart_of_le_or (by omega)

theorem Inv.safe (hinv : Inv E lo c s) : HeapSafe E lo s := by
  have hc := hinv.heap.core
  refine ⟨?_, hinv.disjoint, ?_, ?_⟩
  · intro b hb
    obtain ⟨n, hle, hbusy⟩ := hinv.live b hb
    have hwithin := hbusy.within hc.layout
    exact ⟨hwithin.1, by omega⟩
  · intro b hb a ha
    obtain ⟨n, hle, hbusy⟩ := hinv.live b hb
    obtain ⟨k, hk⟩ := (hinv.chunks a).mp ha
    have hsize : s.heap.sizeOf a = k.size := (hc.stored hk).size
    have hapart := hbusy.apart_header hc.layout hk
    apply Region.apart_of_le_or
    dsimp only
    rw [hsize]
    omega
  · intro a ha
    obtain ⟨k, hk⟩ := (hinv.chunks a).mp ha
    refine ⟨k.free, (hc.stored hk).stack, ?_⟩
    intro x hx b hb
    obtain ⟨n, hle, hbusy⟩ := hinv.live b hb
    have hapart := hbusy.apart_free hc.layout hk hx
    apply Region.apart_of_le_or
    dsimp only
    omega

theorem Inv.keepsBlocks (hinv : Inv E lo c s) (hallowed : s.Allowed E o)
    (hstep : s.step E o = .ok s') : KeepsBlocks s o s' := by
  cases o with
  | malloc size => exact (hinv.malloc hallowed.1 hallowed.2 hstep).2
  | free ptr level =>
      obtain ⟨s'', hrun, -, hkeeps⟩ := hinv.free hallowed.1 hallowed.2
      rw [hrun] at hstep
      cases hstep
      exact hkeeps
  | write address value => trivial

/-- Live blocks are the callers', in every session and after every call. -/
theorem heap_safe (E : Sbrk σ) (mem : Memory) (brk : σ) (hpos : 0 < E.heapEnd brk)
    (hpage : pageSize ∣ E.heapEnd brk) (hlt : E.heapEnd brk < 2 ^ 32) {s : Session σ}
    (hserved : Served E mem brk s) :
    HeapSafe E (E.heapEnd brk) s ∧
      ∀ o s', s.Request o → s.step E o = .ok s' →
        E.heapEnd s.heap.brk ≤ E.heapEnd s'.heap.brk → KeepsBlocks s o s' := by
  obtain ⟨c, hinv⟩ := hserved.inv hpos hpage hlt
  refine ⟨hinv.safe, ?_⟩
  intro o s' hrequest hstep hle
  exact hinv.keepsBlocks (hinv.allowed hrequest hle hstep) hstep

/-! ### Sessions that are run -/

instance (s : Session σ) : (o : HeapOp) → Decidable (s.Request o)
  | .malloc _ => inferInstanceAs (Decidable (_ ∧ _))
  | .free _ _ => inferInstanceAs (Decidable (_ ∧ _))
  | .write _ _ => inferInstanceAs (Decidable (∃ b ∈ s.live, _))

def serve (E : Sbrk σ) : List HeapOp → Session σ → Option (Session σ)
  | [], s => some s
  | o :: os, s =>
      match s.step E o with
      | .error _ => none
      | .ok s' =>
          if s.Request o ∧ E.heapEnd s.heap.brk ≤ E.heapEnd s'.heap.brk then serve E os s' else none

theorem Served.serve {mem : Memory} {brk : σ} {os : List HeapOp} (hserved : Served E mem brk s)
    (hrun : Session.serve E os s = some s') : Served E mem brk s' := by
  induction os generalizing s with
  | nil =>
      rw [← Option.some.inj hrun]
      exact hserved
  | cons o os ih =>
      unfold Session.serve at hrun
      split at hrun
      case h_1 => cases hrun
      case h_2 s₁ hstep =>
        split at hrun
        case isTrue hok => exact ih (.tail hserved hok hstep) hrun
        case isFalse => cases hrun

theorem Served.reached {mem : Memory} {brk : σ} (hserved : Served E mem brk s)
    (hpos : 0 < E.heapEnd brk) (hpage : pageSize ∣ E.heapEnd brk) (hlt : E.heapEnd brk < 2 ^ 32) :
    Reached E mem brk s := by
  induction hserved with
  | refl => exact .refl
  | tail hserved hok hstep ih =>
      obtain ⟨c, hinv⟩ := Served.inv hserved hpos hpage hlt
      exact .tail ih (hinv.allowed hok.1 hok.2 hstep) hstep

/-- A heap that starts at 1 MB: a block of 5000 bytes is released, two small ones are live. -/
theorem exists_served_bump : ∃ s : Session Nat, Served Sbrk.bump (fun _ => 0) 0x100000 s ∧
    s.live = [⟨0x10204C, 64⟩, ⟨0x10200C, 64⟩] ∧ s.chunks = [0x102000, 0x100000] ∧
      s.heap.sizeOf 0x100000 = 8148 := by
  have hrun : (serve Sbrk.bump [.malloc 5000, .malloc 64, .free 0x10002C 0, .malloc 64]
      (start (fun _ => 0) 0x100000)).map (fun s => (s.live, s.chunks, s.heap.sizeOf 0x100000)) =
        some ([⟨0x10204C, 64⟩, ⟨0x10200C, 64⟩], [0x102000, 0x100000], 8148) := by decide +kernel
  obtain ⟨s, hs, heq⟩ := Option.map_eq_some_iff.mp hrun
  obtain ⟨hlive, hchunks, hsize⟩ : s.live = _ ∧ s.chunks = _ ∧ s.heap.sizeOf _ = _ := by
    simpa using heq
  exact ⟨s, Served.serve .refl hs, hlive, hchunks, hsize⟩

theorem heap_safe_bump : ∃ s : Session Nat, s.live = [⟨0x10204C, 64⟩, ⟨0x10200C, 64⟩] ∧
    HeapSafe Sbrk.bump 0x100000 s ∧ ∀ o s', s.Request o → s.step Sbrk.bump o = .ok s' →
      s.heap.brk ≤ s'.heap.brk → KeepsBlocks s o s' := by
  obtain ⟨s, hserved, hlive, -⟩ := exists_served_bump
  exact ⟨s, hlive, heap_safe Sbrk.bump (fun _ => 0) 0x100000 (by decide) (by decide) (by decide)
    hserved⟩

end Session

end X32PRos
