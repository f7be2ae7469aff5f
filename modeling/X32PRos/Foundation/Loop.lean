import Mathlib.Logic.Basic

/-!
`while` loops of a partial program, unrolled on fuel: what holds after a loop
that ended, and a variant for loops that must end. A guard or a body that fails
ends the loop. What a loop meets on its way, also when it never ends, is the
list of the states at which it tests the guard.
-/

namespace Foundation.Loop

variable {σ ε : Type}

/-- `while (guard) body`; `stuck` when it has not ended after `fuel` tests. -/
def loop (guard : σ → Except ε Bool) (body : σ → Except ε σ) (stuck : ε) : Nat → σ → Except ε σ
  | 0, _ => .error stuck
  | fuel + 1, s =>
      match guard s with
      | .error e => .error e
      | .ok false => .ok s
      | .ok true =>
          match body s with
          | .error e => .error e
          | .ok s' => loop guard body stuck fuel s'

/-- The states at which the guard is tested, for at most `fuel` tests. -/
def visits (guard : σ → Except ε Bool) (body : σ → Except ε σ) : Nat → σ → List σ
  | 0, _ => []
  | fuel + 1, s =>
      match guard s with
      | .ok true =>
          match body s with
          | .error _ => [s]
          | .ok s' => s :: visits guard body fuel s'
      | _ => [s]

inductive Turns (guard : σ → Except ε Bool) (body : σ → Except ε σ) : Nat → σ → σ → Prop
  | none {s : σ} : Turns guard body 0 s s
  | turn {n : Nat} {s s' t : σ} (go : guard s = .ok true) (run : body s = .ok s')
      (rest : Turns guard body n s' t) : Turns guard body (n + 1) s t

variable {guard : σ → Except ε Bool} {body : σ → Except ε σ} {stuck : ε}

theorem loop_of_exit {s : σ} (fuel : Nat) (h : guard s = .ok false) :
    loop guard body stuck (fuel + 1) s = .ok s := by
  simp only [loop, h]

theorem loop_of_turn {s s' : σ} (fuel : Nat) (h : guard s = .ok true) (hbody : body s = .ok s') :
    loop guard body stuck (fuel + 1) s = loop guard body stuck fuel s' := by
  simp only [loop, h, hbody]

/-- Partial correctness: an invariant of the body holds at the exit. -/
theorem loop_invariant {I : σ → Prop}
    (hstep : ∀ s s', I s → guard s = .ok true → body s = .ok s' → I s') :
    ∀ (fuel : Nat) (s t : σ), I s → loop guard body stuck fuel s = .ok t →
      I t ∧ guard t = .ok false := by
  intro fuel
  induction fuel with
  | zero =>
      intro s t _ h
      cases h
  | succ fuel ih =>
      intro s t hs h
      simp only [loop] at h
      cases hg : guard s with
      | error e => simp [hg] at h
      | ok go =>
          cases go with
          | false =>
              rw [hg] at h
              cases h
              exact ⟨hs, hg⟩
          | true =>
              cases hb : body s with
              | error e => simp [hg, hb] at h
              | ok s' =>
                  simp only [hg, hb] at h
                  exact ih s' t (hstep s s' hs hg hb) h

/-- Total correctness for a guard that cannot fail: when each turn lowers the
variant or fails in a known way, the loop ends or fails so. -/
theorem loop_ends {test : σ → Bool} {I : σ → Prop} {P : ε → Prop} (stuck : ε) (variant : σ → Nat)
    (hstep : ∀ s, I s → test s = true → (∃ e, body s = .error e ∧ P e) ∨
      ∃ s', body s = .ok s' ∧ I s' ∧ variant s' < variant s) :
    ∀ (fuel : Nat) (s : σ), I s → variant s < fuel →
      (∃ e, loop (fun s => .ok (test s)) body stuck fuel s = .error e ∧ P e) ∨
        ∃ t, loop (fun s => .ok (test s)) body stuck fuel s = .ok t ∧ I t ∧ test t = false := by
  intro fuel
  induction fuel with
  | zero =>
      intro s _ hlt
      exact absurd hlt (Nat.not_lt_zero _)
  | succ fuel ih =>
      intro s hs hlt
      cases htest : test s with
      | false => exact Or.inr ⟨s, loop_of_exit fuel (congrArg Except.ok htest), hs, htest⟩
      | true =>
          have hguard : (Except.ok (test s) : Except ε Bool) = .ok true := congrArg Except.ok htest
          rcases hstep s hs htest with ⟨e, hb, he⟩ | ⟨s', hb, hs', hdec⟩
          · exact Or.inl ⟨e, by simp only [loop, hguard, hb], he⟩
          · refine (ih s' hs' (by omega)).imp ?_ ?_
            · rintro ⟨e, herr, he⟩
              exact ⟨e, by simp only [loop, hguard, hb, herr], he⟩
            · rintro ⟨t, ht, hI, hend⟩
              exact ⟨t, by simp only [loop, hguard, hb, ht], hI, hend⟩

/-- A loop returns when each turn does. -/
theorem loop_returns {test : σ → Bool} {I : σ → Prop} (stuck : ε) (variant : σ → Nat)
    (hstep : ∀ s, I s → test s = true →
      ∃ s', body s = .ok s' ∧ I s' ∧ variant s' < variant s)
    (fuel : Nat) (s : σ) (hs : I s) (hlt : variant s < fuel) :
    ∃ t, loop (fun s => .ok (test s)) body stuck fuel s = .ok t ∧ I t ∧ test t = false := by
  refine (loop_ends (P := fun _ => False) stuck variant ?_ fuel s hs hlt).resolve_left ?_
  · intro s hs htest
    exact Or.inr (hstep s hs htest)
  · rintro ⟨e, -, he⟩
    exact he

section Turns

variable {n : Nat} {s t : σ}

theorem visits_of_turn {s' : σ} (fuel : Nat) (h : guard s = .ok true) (hbody : body s = .ok s') :
    visits guard body (fuel + 1) s = s :: visits guard body fuel s' := by
  simp only [visits, h, hbody]

theorem mem_visits_self (fuel : Nat) (s : σ) : s ∈ visits guard body (fuel + 1) s := by
  rw [visits]
  split
  case h_1 => split <;> exact List.mem_cons_self
  case h_2 => exact List.mem_singleton_self s

theorem Turns.invariant {I : σ → Prop} (h : Turns guard body n s t) (hs : I s)
    (hstep : ∀ s s', I s → guard s = .ok true → body s = .ok s' → I s') : I t := by
  induction h with
  | none => exact hs
  | turn go run _ ih => exact ih (hstep _ _ hs go run)

theorem Turns.snoc {u : σ} (h : Turns guard body n s t) (go : guard t = .ok true)
    (run : body t = .ok u) : Turns guard body (n + 1) s u := by
  induction h with
  | none => exact .turn go run .none
  | turn go' run' _ ih => exact .turn go' run' (ih go run)

/-- A loop ends where its turns lead to the exit. -/
theorem Turns.loop_exit (h : Turns guard body n s t) (stuck : ε) {fuel : Nat}
    (hexit : guard t = .ok false) (hfuel : n < fuel) : loop guard body stuck fuel s = .ok t := by
  obtain ⟨fuel, rfl⟩ := Nat.exists_eq_add_of_lt hfuel
  clear hfuel
  induction h with
  | none => exact loop_of_exit _ hexit
  | @turn n s s' t go run _ ih =>
      rw [Nat.add_right_comm n, loop_of_turn _ go run]
      exact ih hexit

theorem Turns.mem_visits (h : Turns guard body n s t) {fuel : Nat} (hfuel : n < fuel) :
    t ∈ visits guard body fuel s := by
  obtain ⟨fuel, rfl⟩ := Nat.exists_eq_add_of_lt hfuel
  clear hfuel
  induction h with
  | none => exact mem_visits_self _ _
  | @turn n s s' t go run _ ih =>
      rw [Nat.add_right_comm n, visits_of_turn _ go run]
      exact List.mem_cons_of_mem s ih

theorem turns_of_mem_visits {fuel : Nat} (h : t ∈ visits guard body fuel s) :
    ∃ n < fuel, Turns guard body n s t := by
  induction fuel generalizing s with
  | zero => cases h
  | succ fuel ih =>
      have hself : t = s → ∃ n < fuel + 1, Turns guard body n s t := by
        rintro rfl
        exact ⟨0, Nat.succ_pos fuel, .none⟩
      rw [visits] at h
      split at h
      case h_1 go =>
        split at h
        case h_1 => exact hself (List.mem_singleton.mp h)
        case h_2 s' run =>
          cases List.mem_cons.mp h with
          | inl heq => exact hself heq
          | inr hrest =>
              obtain ⟨n, hn, hturns⟩ := ih hrest
              exact ⟨n + 1, Nat.succ_lt_succ hn, .turn go run hturns⟩
      case h_2 => exact hself (List.mem_singleton.mp h)

/-- The exit of a loop is visited. -/
theorem mem_visits_of_loop {fuel : Nat} (h : loop guard body stuck fuel s = .ok t) :
    t ∈ visits guard body fuel s ∧ guard t = .ok false := by
  induction fuel generalizing s with
  | zero => cases h
  | succ fuel ih =>
      rw [loop] at h
      split at h
      case h_1 => cases h
      case h_2 hexit =>
        cases h
        exact ⟨mem_visits_self fuel _, hexit⟩
      case h_3 go =>
        split at h
        case h_1 => cases h
        case h_2 s' run =>
          rw [visits_of_turn fuel go run]
          exact (ih h).imp_left (List.mem_cons_of_mem _)

/-- Every state that is visited satisfies an invariant of the turns. -/
theorem visits_invariant {I : σ → Prop} {fuel : Nat} (h : t ∈ visits guard body fuel s) (hs : I s)
    (hstep : ∀ s s', I s → guard s = .ok true → body s = .ok s' → I s') : I t := by
  obtain ⟨n, -, hturns⟩ := turns_of_mem_visits h
  exact hturns.invariant hs hstep

/-- A loop is determined by its guard and its body at the states it visits. -/
theorem loop_congr {guard' : σ → Except ε Bool} {body' : σ → Except ε σ} (stuck : ε) {fuel : Nat}
    (h : ∀ t ∈ visits guard body fuel s, guard' t = guard t ∧ body' t = body t) :
    loop guard' body' stuck fuel s = loop guard body stuck fuel s := by
  induction fuel generalizing s with
  | zero => rfl
  | succ fuel ih =>
      obtain ⟨hguard, hbody⟩ := h s (mem_visits_self fuel s)
      rw [loop, loop, hguard, hbody]
      split
      case h_1 => rfl
      case h_2 => rfl
      case h_3 go =>
        split
        case h_1 => rfl
        case h_2 s' run =>
          refine ih fun t ht => h t ?_
          rw [visits_of_turn fuel go run]
          exact List.mem_cons_of_mem s ht

end Turns

end Foundation.Loop
