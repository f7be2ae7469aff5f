import Mathlib.Logic.Basic

/-!
Finite runs of a partial step function, and the induction rules the
developments above use: a property of every completed step follows from a step
lemma and an invariant, and so does a property of every reachable state.
A failing step ends the run.
-/

namespace Foundation.Run

variable {σ ο ε : Type}

/-- Execute the operations in order; the first failure is the result. -/
def exec (step : σ → ο → Except ε σ) : σ → List ο → Except ε σ
  | s, [] => .ok s
  | s, o :: os =>
      match step s o with
      | .error e => .error e
      | .ok s' => exec step s' os

/-- `Q before op after` holds at every step the run completes. -/
def Along (step : σ → ο → Except ε σ) (Q : σ → ο → σ → Prop) : σ → List ο → Prop
  | _, [] => True
  | s, o :: os => ∀ s', step s o = .ok s' → Q s o s' ∧ Along step Q s' os

/-- `P before op` holds of every operation that the run comes to. -/
def Each (step : σ → ο → Except ε σ) (P : σ → ο → Prop) : σ → List ο → Prop
  | _, [] => True
  | s, o :: os => P s o ∧ ∀ s', step s o = .ok s' → Each step P s' os

inductive Reaches (step : σ → ο → Except ε σ) (ok : σ → ο → σ → Prop) (start : σ) : σ → Prop
  | refl : Reaches step ok start start
  | tail {s s' : σ} {o : ο} : Reaches step ok start s → ok s o s' → step s o = .ok s' →
      Reaches step ok start s'

/-- Two step properties agree along a run when they agree at every step taken
from the invariant, and the second one re-establishes it. This is how an exact
condition on the steps of a run is proved: the first failing step is already
outside the property. -/
theorem along_iff {step : σ → ο → Except ε σ} {P G : σ → ο → σ → Prop} {I : σ → Prop}
    (hstep : ∀ s o s', I s → step s o = .ok s' → (P s o s' ↔ G s o s') ∧ (G s o s' → I s')) :
    ∀ (os : List ο) (s : σ), I s → (Along step P s os ↔ Along step G s os) := by
  intro os
  induction os with
  | nil => intro s _; exact Iff.rfl
  | cons o os ih =>
      intro s hs
      constructor
      · intro h s' hs'
        obtain ⟨hp, hrest⟩ := h s' hs'
        obtain ⟨hiff, hinv⟩ := hstep s o s' hs hs'
        exact ⟨hiff.mp hp, (ih s' (hinv (hiff.mp hp))).mp hrest⟩
      · intro h s' hs'
        obtain ⟨hg, hrest⟩ := h s' hs'
        obtain ⟨hiff, hinv⟩ := hstep s o s' hs hs'
        exact ⟨hiff.mpr hg, (ih s' (hinv hg)).mpr hrest⟩

theorem each_congr {step : σ → ο → Except ε σ} {P Q : σ → ο → Prop} (h : ∀ s o, P s o ↔ Q s o) :
    ∀ (os : List ο) (s : σ), Each step P s os ↔ Each step Q s os := by
  intro os
  induction os with
  | nil => intro s; exact Iff.rfl
  | cons o os ih =>
      intro s
      exact and_congr (h s o) (forall_congr' fun s' => imp_congr_right fun _ => ih s')

/-- A run returns when every operation that it comes to does. -/
theorem exec_returns {step : σ → ο → Except ε σ} {P : σ → ο → Prop}
    (hstep : ∀ s o, P s o → ∃ s', step s o = .ok s') :
    ∀ (os : List ο) (s : σ), Each step P s os → ∃ t, exec step s os = .ok t := by
  intro os
  induction os with
  | nil => intro s _; exact ⟨s, rfl⟩
  | cons o os ih =>
      intro s h
      obtain ⟨s', hs'⟩ := hstep s o h.1
      obtain ⟨t, ht⟩ := ih s' (h.2 s' hs')
      exact ⟨t, by rw [exec, hs']; exact ht⟩

/-- What every completed step keeps, a completed run keeps. -/
theorem exec_invariant {step : σ → ο → Except ε σ} {I : σ → Prop}
    (hstep : ∀ s o s', I s → step s o = .ok s' → I s') {os : List ο} {s t : σ} (hs : I s)
    (hrun : exec step s os = .ok t) : I t := by
  induction os generalizing s with
  | nil =>
      cases hrun
      exact hs
  | cons o os ih =>
      rw [exec] at hrun
      cases ho : step s o with
      | error e =>
          rw [ho] at hrun
          cases hrun
      | ok s' =>
          rw [ho] at hrun
          exact ih (hstep s o s' hs ho) hrun

/-- Reachability induction: initial state, then one step at a time. -/
theorem Reaches.invariant {step : σ → ο → Except ε σ} {ok : σ → ο → σ → Prop} {I : σ → Prop}
    {start t : σ} (h : Reaches step ok start t) (hinit : I start)
    (hstep : ∀ s o s', I s → ok s o s' → step s o = .ok s' → I s') : I t := by
  induction h with
  | refl => exact hinit
  | tail _ hok hs ih => exact hstep _ _ _ ih hok hs

end Foundation.Run
