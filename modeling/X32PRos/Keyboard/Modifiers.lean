import X32PRos.Foundation.Run
import X32PRos.Keyboard.Kbd
import Mathlib.Logic.Function.Basic

/-!
The modifier flags against the keys that are physically held. A key sends its
make code when it is pressed and may repeat it while it is held; it sends the
make code with bit 7 set when it is released.
-/

namespace X32PRos

open Foundation

abbrev Key := Fin 128

namespace Key

def leftShift : Key := 0x2A
def rightShift : Key := 0x36
def control : Key := 0x1D
def alt : Key := 0x38

def IsModifier (k : Key) : Prop := k = leftShift ∨ k = rightShift ∨ k = control ∨ k = alt

instance (k : Key) : Decidable k.IsModifier := by
  unfold IsModifier
  infer_instance

end Key

inductive KeyEvent
  | press (k : Key)
  | typematic (k : Key)
  | release (k : Key)
deriving DecidableEq, Repr

def KeyEvent.key : KeyEvent → Key
  | .press k | .typematic k | .release k => k

def KeyEvent.scancode : KeyEvent → UInt8
  | .press k | .typematic k => UInt8.ofNat k
  | .release k => UInt8.ofNat k ||| 0x80

structure KeyboardSystem where
  console : Console
  held : Key → Bool

namespace KeyboardSystem

def initial (vga : Vga) : KeyboardSystem := ⟨⟨⟨false, false, false⟩, vga⟩, fun _ => false⟩

/-- The keys after an event; an event that does not fit the keys held is refused. -/
def nextHeld (held : Key → Bool) : KeyEvent → Except Unit (Key → Bool)
  | .press k => if held k then .error () else .ok (Function.update held k true)
  | .typematic k => if held k then .ok held else .error ()
  | .release k => if held k then .ok (Function.update held k false) else .error ()

def step (s : KeyboardSystem) (e : KeyEvent) : Except Unit KeyboardSystem :=
  match nextHeld s.held e with
  | .error u => .error u
  | .ok held => .ok ⟨keyboardHandler e.scancode s.console, held⟩

/-- Each flag is 1 exactly while one of its keys is held. -/
structure Tracks (s : KeyboardSystem) : Prop where
  shift : s.console.keyboard.shift = (s.held Key.leftShift || s.held Key.rightShift)
  ctrl : s.console.keyboard.ctrl = s.held Key.control
  alt : s.console.keyboard.alt = s.held Key.alt

/-- The property of one step. Every `putch` reports the cursor to the ports, so
an unchanged driver state means that nothing was put on the screen. -/
def StepTracks (s : KeyboardSystem) (e : KeyEvent) (s' : KeyboardSystem) : Prop :=
  s'.Tracks ∧ ∀ k, e = .release k → s'.console.vga = s.console.vga

/-- No modifier repeats, and the two shift keys are not held together. -/
def GoodEvent (s : KeyboardSystem) : KeyEvent → Prop
  | .press k => ¬ (k = Key.leftShift ∧ s.held Key.rightShift) ∧
      ¬ (k = Key.rightShift ∧ s.held Key.leftShift)
  | .typematic k => ¬ k.IsModifier
  | .release _ => True

structure Inv (s : KeyboardSystem) : Prop extends Tracks s where
  oneShift : ¬ (s.held Key.leftShift ∧ s.held Key.rightShift)

def flip (k : Key) (f : KeyboardStates) : KeyboardStates where
  shift := f.shift ^^ decide (k = Key.leftShift ∨ k = Key.rightShift)
  alt := f.alt ^^ decide (k = Key.alt)
  ctrl := f.ctrl ^^ decide (k = Key.control)

theorem scancode_key (e : KeyEvent) : (e.scancode &&& 0x7f).toNat = e.key.val := by
  have make : ∀ k : Key, (UInt8.ofNat k &&& 0x7f).toNat = k.val := by decide
  have brk : ∀ k : Key, ((UInt8.ofNat k ||| 0x80) &&& 0x7f).toNat = k.val := by decide
  cases e with
  | press k | typematic k => exact make k
  | release k => exact brk k

/-- The four modifiers, and the handlers every other key can have. -/
theorem keyMethod_cases (k : Key) :
    ((k = Key.leftShift ∨ k = Key.rightShift) ∧ keyMethod.getD k.val none = some .shft) ∨
      (k = Key.control ∧ keyMethod.getD k.val none = some .ctlk) ∨
      (k = Key.alt ∧ keyMethod.getD k.val none = some .altk) ∨
      (¬ k.IsModifier ∧ keyMethod.getD k.val none ∈ [none, some .norm, some .func]) := by
  revert k
  decide

theorem flip_of_not_modifier {k : Key} (h : ¬ k.IsModifier) (f : KeyboardStates) : flip k f = f := by
  simp only [Key.IsModifier, not_or] at h
  simp [flip, h]

theorem norm_keyboard (b : UInt8) (s : Console) : (norm b s).keyboard = s.keyboard := by
  unfold norm
  dsimp only
  repeat' split
  all_goals rfl

/-- Make and break codes alike flip the flag of their key and no other. -/
theorem keyboardHandler_keyboard (e : KeyEvent) (s : Console) :
    (keyboardHandler e.scancode s).keyboard = flip e.key s.keyboard := by
  unfold keyboardHandler
  rw [scancode_key]
  rcases keyMethod_cases e.key with ⟨hk, hm⟩ | ⟨hk, hm⟩ | ⟨hk, hm⟩ | ⟨hk, hm⟩
  · rw [hm]
    rcases hk with hk | hk <;>
      simp [hk, flip, KeyHandler.run, shft, Key.leftShift, Key.rightShift, Key.control, Key.alt]
  · rw [hm]
    simp [hk, flip, KeyHandler.run, ctlk, Key.leftShift, Key.rightShift, Key.control, Key.alt]
  · rw [hm]
    simp [hk, flip, KeyHandler.run, altk, Key.leftShift, Key.rightShift, Key.control, Key.alt]
  · rw [flip_of_not_modifier hk]
    simp only [List.mem_cons, List.not_mem_nil, or_false] at hm
    rcases hm with hm | hm | hm <;> rw [hm]
    · exact norm_keyboard e.scancode s
    · rfl

/-- A break code reaches no `putch`. -/
theorem keyboardHandler_release (k : Key) (s : Console) :
    (keyboardHandler (KeyEvent.release k).scancode s).vga = s.vga := by
  have hbreak : ∀ k : Key, (UInt8.ofNat k ||| 0x80) &&& 0x80 ≠ 0 := by decide
  unfold keyboardHandler
  split
  case h_1 handler _ =>
    cases handler with
    | norm =>
        exact congrArg Console.vga (if_pos (hbreak k))
    | shft | altk | ctlk | func => rfl
  case h_2 => rfl

theorem initial_inv (vga : Vga) : (initial vga).Inv :=
  ⟨⟨rfl, rfl, rfl⟩, by simp [initial]⟩

/-- The flags after `k` was toggled, over the keys held then. -/
theorem tracks_iff (s : KeyboardSystem) (h : s.Tracks) {e : KeyEvent} {k : Key} (he : e.key = k)
    (held : Key → Bool) :
    Tracks ⟨keyboardHandler e.scancode s.console, held⟩ ↔
      ((s.held Key.leftShift || s.held Key.rightShift) ^^
          decide (k = Key.leftShift ∨ k = Key.rightShift)) =
        (held Key.leftShift || held Key.rightShift) ∧
      (s.held Key.control ^^ decide (k = Key.control)) = held Key.control ∧
      (s.held Key.alt ^^ decide (k = Key.alt)) = held Key.alt := by
  subst he
  have hk := keyboardHandler_keyboard e s.console
  rw [← h.shift, ← h.ctrl, ← h.alt]
  constructor
  · rintro ⟨hs, hc, ha⟩
    dsimp only at hs hc ha
    rw [hk] at hs hc ha
    exact ⟨hs, hc, ha⟩
  · rintro ⟨hs, hc, ha⟩
    refine ⟨?_, ?_, ?_⟩ <;> dsimp only <;> rw [hk]
    exacts [hs, hc, ha]

/-- A key that goes down or up changes its own entry, as the handler flips its flag. -/
theorem update_eq_xor {held : Key → Bool} {k : Key} {v : Bool} (hk : held k = !v) (j : Key) :
    Function.update held k v j = (held j ^^ decide (k = j)) := by
  by_cases hj : j = k
  · subst hj
    rw [Function.update_self, hk, decide_eq_true rfl, Bool.xor_true, Bool.not_not]
  · rw [Function.update_of_ne hj, decide_eq_false (Ne.symm hj), Bool.xor_false]

/-- One flag for two keys can be flipped only while the other key is up. -/
theorem shift_flipped (l r : Bool) (k : Key) :
    ((l || r) ^^ decide (k = Key.leftShift ∨ k = Key.rightShift)) =
        ((l ^^ decide (k = Key.leftShift)) || (r ^^ decide (k = Key.rightShift))) ↔
      ¬ (k = Key.leftShift ∧ r) ∧ ¬ (k = Key.rightShift ∧ l) := by
  by_cases hL : k = Key.leftShift
  · have hR : k ≠ Key.rightShift := by
      rw [hL]
      decide
    simp only [hL ▸ hR, hL, decide_true, decide_false, true_or, true_and, false_and,
      not_false_eq_true, and_true, Bool.xor_false, Bool.xor_true]
    cases l <;> cases r <;> decide
  · by_cases hR : k = Key.rightShift
    · simp only [hR ▸ hL, hR, decide_true, decide_false, false_or, true_and, false_and,
        not_false_eq_true, Bool.xor_false, Bool.xor_true]
      cases l <;> cases r <;> decide
    · simp only [hL, hR, decide_false, false_or, false_and, not_false_eq_true, and_true,
        Bool.xor_false]

theorem flipped_tracks (s : KeyboardSystem) (h : s.Tracks) {e : KeyEvent} {k : Key} {v : Bool}
    (he : e.key = k) (hk : s.held k = !v) :
    Tracks ⟨keyboardHandler e.scancode s.console, Function.update s.held k v⟩ ↔
      ¬ (k = Key.leftShift ∧ s.held Key.rightShift) ∧
        ¬ (k = Key.rightShift ∧ s.held Key.leftShift) := by
  rw [tracks_iff s h he, ← shift_flipped]
  simp only [update_eq_xor hk, and_true]

theorem press_tracks (s : KeyboardSystem) (h : s.Inv) (k : Key) (hk : s.held k = false) :
    Tracks ⟨keyboardHandler (KeyEvent.press k).scancode s.console, Function.update s.held k true⟩ ↔
      GoodEvent s (.press k) :=
  flipped_tracks s h.toTracks rfl hk

theorem xor_decide_eq_self (b : Bool) (p : Prop) [Decidable p] : (b ^^ decide p) = b ↔ ¬ p := by
  by_cases hp : p <;> simp [hp]

/-- A repeated make code toggles the flag of a key that is still held. -/
theorem typematic_tracks (s : KeyboardSystem) (h : s.Inv) (k : Key) :
    Tracks ⟨keyboardHandler (KeyEvent.typematic k).scancode s.console, s.held⟩ ↔
      GoodEvent s (.typematic k) := by
  rw [tracks_iff s h.toTracks (show (KeyEvent.typematic k).key = k from rfl)]
  simp only [GoodEvent, Key.IsModifier, xor_decide_eq_self, not_or, and_assoc]

/-- A key that is released is held, so that the other shift key is not. -/
theorem release_tracks (s : KeyboardSystem) (h : s.Inv) (k : Key) (hk : s.held k = true) :
    Tracks ⟨keyboardHandler (KeyEvent.release k).scancode s.console,
      Function.update s.held k false⟩ := by
  have hone := h.oneShift
  refine (flipped_tracks (e := .release k) (v := false) s h.toTracks rfl hk).mpr ⟨?_, ?_⟩
  · intro ⟨hL, hr⟩
    exact hone ⟨hL ▸ hk, hr⟩
  · intro ⟨hR, hl⟩
    exact hone ⟨hl, hR ▸ hk⟩

/-- No event makes both shift keys held unless it is a bad press. -/
theorem oneShift_press (s : KeyboardSystem) (h : s.Inv) (k : Key) (hg : GoodEvent s (.press k)) :
    ¬ (Function.update s.held k true Key.leftShift ∧
      Function.update s.held k true Key.rightShift) := by
  have hone := h.oneShift
  obtain ⟨hL, hR⟩ := hg
  by_cases hkL : k = Key.leftShift
  · subst hkL
    simpa [Function.update, Key.leftShift, Key.rightShift] using hL
  · by_cases hkR : k = Key.rightShift
    · subst hkR
      simpa [Function.update, Key.leftShift, Key.rightShift] using hR
    · simpa [Function.update, Ne.symm hkL, Ne.symm hkR] using hone

theorem oneShift_release (s : KeyboardSystem) (h : s.Inv) (k : Key) :
    ¬ (Function.update s.held k false Key.leftShift ∧
      Function.update s.held k false Key.rightShift) := by
  have hone := h.oneShift
  intro ⟨hl, hr⟩
  simp only [Function.update_apply] at hl hr
  split at hl
  · cases hl
  · split at hr
    · cases hr
    · exact hone ⟨hl, hr⟩

theorem step_exact (s : KeyboardSystem) (e : KeyEvent) (s' : KeyboardSystem) (h : s.Inv)
    (hstep : s.step e = .ok s') :
    (StepTracks s e s' ↔ GoodEvent s e) ∧ (GoodEvent s e → s'.Inv) := by
  cases e with
  | press k =>
      cases hk : s.held k with
      | true => simp [step, nextHeld, hk] at hstep
      | false =>
          simp only [step, nextHeld, hk, Bool.false_eq_true, ite_false] at hstep
          cases hstep
          have htracks := press_tracks s h k hk
          exact ⟨⟨fun hp => htracks.mp hp.1, fun hg => ⟨htracks.mpr hg, nofun⟩⟩,
            fun hg => ⟨htracks.mpr hg, oneShift_press s h k hg⟩⟩
  | typematic k =>
      cases hk : s.held k with
      | false => simp [step, nextHeld, hk] at hstep
      | true =>
          simp only [step, nextHeld, hk, ite_true] at hstep
          cases hstep
          have htracks := typematic_tracks s h k
          exact ⟨⟨fun hp => htracks.mp hp.1, fun hg => ⟨htracks.mpr hg, nofun⟩⟩,
            fun hg => ⟨htracks.mpr hg, h.oneShift⟩⟩
  | release k =>
      cases hk : s.held k with
      | false => simp [step, nextHeld, hk] at hstep
      | true =>
          simp only [step, nextHeld, hk, ite_true] at hstep
          cases hstep
          have htracks := release_tracks s h k hk
          have hvga := keyboardHandler_release k s.console
          exact ⟨⟨fun _ => trivial, fun _ => ⟨htracks, fun j hj => by cases hj; exact hvga⟩⟩,
            fun _ => ⟨htracks, oneShift_release s h k⟩⟩

/-- The flags follow the held keys through a run if and only if no modifier
key repeats in it and no shift key is pressed while the other one is held. -/
theorem modifiers_track_iff (vga : Vga) (events : List KeyEvent) :
    Run.Along step StepTracks (initial vga) events ↔
      Run.Along step (fun s e _ => GoodEvent s e) (initial vga) events :=
  Run.along_iff step_exact events _ (initial_inv vga)

/-- Holding the left shift key until it repeats leaves the flag at 0. -/
theorem typematic_shift_inverts :
    ¬ Run.Along step StepTracks (initial (Vga.boot fun _ => 0))
      [.press Key.leftShift, .typematic Key.leftShift] := by
  intro h
  have hshift := ((h _ rfl).2 _ rfl).1.1.shift
  revert hshift
  decide

end KeyboardSystem

end X32PRos
