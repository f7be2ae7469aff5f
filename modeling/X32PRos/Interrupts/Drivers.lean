import X32PRos.Core.Word
import X32PRos.Interrupts.Dispatch
import X32PRos.Keyboard.Kbd

/-!
The two drivers that hang on interrupts: the tick counter of `core/timer.c` and
the keyboard of `core/kbd.c`. The keyboard controller keeps one byte at a time and
sends no other before that one has been read.
-/

namespace X32PRos

open Foundation

/-- The data of the drivers with the output buffer of the keyboard controller.
Two fields are ghosts: `received` lists the bytes that have entered the buffer,
`edges` counts the ticks that found line 0 down. -/
structure Devices where
  timerTicks : Nat
  ticker : Nat
  console : Console
  port60 : UInt8
  full : Bool
  received : List UInt8
  edges : Nat

namespace Devices

def start (console : Console) (port60 : UInt8) : Devices where
  timerTicks := 0
  ticker := 0
  console := console
  port60 := port60
  full := false
  received := []
  edges := 0

/-- The count is a signed `long` and wraps around. -/
def timerHandler (d : Devices) : Devices :=
  let ticks := wordAdd d.timerTicks 1
  { d with
    timerTicks := ticks
    ticker := if (signed ticks).tmod 18 = 0 then wordAdd d.ticker 1 else d.ticker }

def keyboardIrq (d : Devices) : Devices :=
  { d with console := X32PRos.keyboardHandler d.port60 d.console, full := false }

def buffer (b : UInt8) (d : Devices) : Devices :=
  { d with port60 := b, full := true, received := d.received ++ [b] }

def countEdge (d : Devices) : Devices := { d with edges := d.edges + 1 }

def keyboardPart (d : Devices) : Console × UInt8 × Bool × List UInt8 :=
  (d.console, d.port60, d.full, d.received)

def clockPart (d : Devices) : Nat × Nat × Nat := (d.timerTicks, d.ticker, d.edges)

def Counted (n : Nat) (d : Devices) : Prop :=
  d.timerTicks = n % 2 ^ 32 ∧ (n < 2 ^ 31 → d.ticker = n / 18)

theorem Counted.timerHandler {n : Nat} {d : Devices} (h : d.Counted n) :
    d.timerHandler.Counted (n + 1) := by
  have hticks : wordAdd d.timerTicks 1 = (n + 1) % 2 ^ 32 := by
    rw [wordAdd, h.1, Nat.mod_add_mod]
  constructor
  · exact hticks
  · intro hfits
    have hticker := h.2 (by omega)
    have hsmall : (n + 1) % 2 ^ 32 = n + 1 := Nat.mod_eq_of_lt (by omega)
    have hsigned : (signed (n + 1)).tmod 18 = ((n + 1) % 18 : Nat) := by
      rw [signed_of_lt hfits]
      rfl
    change (if (signed (wordAdd d.timerTicks 1)).tmod 18 = 0 then wordAdd d.ticker 1 else d.ticker) =
      (n + 1) / 18
    rw [hticks, hsmall, hsigned, hticker]
    by_cases hround : (n + 1) % 18 = 0
    · rw [if_pos (by rw [hround]; rfl), wordAdd_of_lt (by omega)]
      omega
    · rw [if_neg (by omega)]
      omega

end Devices

/-- What happens outside of interrupts: the timer ticks, the keyboard has a byte,
another device raises or withdraws its line, `main` installs a driver. -/
inductive Input
  | tick
  | key (b : UInt8)
  | request (line : Nat)
  | withdraw (line : Nat)
  | timerInstall
  | keyboardInstall

/-- The signal, given the lines that are up. A byte stays in the keyboard as long
as the buffer is full. -/
def Input.toSignal (lines : Nat → Bool) (d : Devices) : Input → Option (Signal Devices)
  | .tick => some (.request 0 (if lines 0 then id else Devices.countEdge))
  | .key b => if d.full then none else some (.request 1 (Devices.buffer b))
  | .request line => if 3 ≤ line then some (.request line id) else none
  | .withdraw line => if 3 ≤ line then some (.withdraw line) else none
  | .timerInstall => some (.install 0 (some Devices.timerHandler))
  | .keyboardInstall => some (.install 1 (some Devices.keyboardIrq))

def Irqs.input (i : Input) (s : Irqs Devices) : Irqs Devices :=
  match i.toSignal s.pics.pendingLines s.data with
  | some g => s.signal g
  | none => s

def Pending.input (i : Input) (s : Pending Devices) : Pending Devices :=
  match i.toSignal s.lines s.data with
  | some g => s.signal g
  | none => s

theorem input_simulated : Irqs.Simulated Irqs.input Pending.input := by
  intro i s h
  have hsame : i.toSignal s.pics.pendingLines s.data =
      i.toSignal s.toPending.lines s.toPending.data := rfl
  unfold Irqs.input Pending.input
  rw [hsame]
  cases i.toSignal s.toPending.lines s.toPending.data with
  | none => exact ⟨h, rfl⟩
  | some g => exact h.signal g

def Irqs.events (s : Irqs Devices) (events : List (Event Input)) : Except Unit (Irqs Devices) :=
  Run.exec (kernelNext Irqs.irqHandler Irqs.input Irqs.acknowledge) s events

namespace Pending

/-- Only the two drivers are ever installed, each on its line. -/
structure Drivers (s : Pending Devices) : Prop where
  timer : s.routines 0 = none ∨ s.routines 0 = some Devices.timerHandler
  keyboard : s.routines 1 = none ∨ s.routines 1 = some Devices.keyboardIrq
  others : ∀ irq, 2 ≤ irq → s.routines irq = none

/-- The bytes that have been read, `read`, and the one in the buffer are all that
came in; they were handled in that order. -/
def Typed (console : Console) (d : Devices) : Prop :=
  ∃ read, d.received = read ++ (if d.full then [d.port60] else []) ∧
    d.console = read.foldl (fun c b => keyboardHandler b c) console

structure KeyInv (console : Console) (s : Pending Devices) : Prop where
  drivers : s.Drivers
  waits : s.lines 1 = true → s.data.full = true
  typed : Typed console s.data

variable {s s' : Pending Devices} {irq : Nat}

/-- An interrupt takes its line down and calls what is installed; a line below 2 was up. -/
theorem accept_cases (h : s.accept = some (irq, s')) :
    s' = { s with
      lines := Function.update s.lines irq false, withdrawn := none
      data := handled s.routines s.data irq } ∧ (s.lines irq = true ∨ 2 ≤ irq) := by
  unfold accept at h
  cases hfirst : priority.find? s.lines with
  | some line =>
      simp only [hfirst, call_data, Option.some.injEq, Prod.mk.injEq] at h
      obtain ⟨rfl, rfl⟩ := h
      exact ⟨rfl, Or.inl (List.find?_some hfirst)⟩
  | none =>
      cases hwithdrawn : s.withdrawn with
      | none =>
          simp only [hfirst, hwithdrawn] at h
          cases h
      | some chip =>
          simp only [hfirst, hwithdrawn, call_data, Option.some.injEq, Prod.mk.injEq] at h
          obtain ⟨rfl, rfl⟩ := h
          have hmem : chip.lowest ∈ priority := by cases chip <;> decide
          have hdown : s.lines chip.lowest = false := by
            have hall := List.find?_eq_none.mp hfirst chip.lowest hmem
            exact Bool.eq_false_iff.mpr hall
          have hlines : Function.update s.lines chip.lowest false = s.lines := by
            rw [← hdown]
            exact Function.update_eq_self _ _
          rw [hlines]
          refine ⟨rfl, Or.inr ?_⟩
          cases chip <;> decide

/-- What each line amounts to. -/
theorem Drivers.handled_cases (h : s.Drivers) (irq : Nat) (d : Devices) :
    (irq = 0 ∧ s.routines 0 = some Devices.timerHandler ∧
        handled s.routines d irq = d.timerHandler) ∨
      (irq = 1 ∧ s.routines 1 = some Devices.keyboardIrq ∧
        handled s.routines d irq = d.keyboardIrq) ∨
      (s.routines irq = none ∧ handled s.routines d irq = d) := by
  have hsilent : ∀ irq, s.routines irq = none → handled s.routines d irq = d := by
    intro irq hnone
    unfold handled
    rw [hnone]
  match irq with
  | 0 =>
      cases h.timer with
      | inl hnone => exact Or.inr (Or.inr ⟨hnone, hsilent 0 hnone⟩)
      | inr hsome =>
          refine Or.inl ⟨rfl, hsome, ?_⟩
          unfold handled
          rw [hsome]
  | 1 =>
      cases h.keyboard with
      | inl hnone => exact Or.inr (Or.inr ⟨hnone, hsilent 1 hnone⟩)
      | inr hsome =>
          refine Or.inr (Or.inl ⟨rfl, hsome, ?_⟩)
          unfold handled
          rw [hsome]
  | irq + 2 =>
      have hnone := h.others (irq + 2) (Nat.le_add_left 2 irq)
      exact Or.inr (Or.inr ⟨hnone, hsilent _ hnone⟩)

theorem input_tick (s : Pending Devices) :
    s.input .tick = { s with
      lines := Function.update s.lines 0 true
      data := if s.lines 0 then s.data else s.data.countEdge } := by
  have hline : DeviceLine 0 := by decide
  simp only [input, Input.toSignal, signal, if_pos hline]
  cases s.lines 0 <;> rfl

theorem input_key (b : UInt8) (s : Pending Devices) :
    s.input (.key b) =
      if s.data.full then s
      else { s with lines := Function.update s.lines 1 true, data := s.data.buffer b } := by
  have hline : DeviceLine 1 := by decide
  unfold input Input.toSignal
  cases s.data.full with
  | true => rfl
  | false => exact if_pos (e := s) hline

/-- The drivers, what they hold and their two lines are left alone. -/
structure Unconcerned (s s' : Pending Devices) : Prop where
  routines : s'.routines = s.routines
  data : s'.data = s.data
  lines : ∀ i < 2, s'.lines i = s.lines i

theorem unconcerned_request (line : Nat) (s : Pending Devices) :
    s.Unconcerned (s.input (.request line)) := by
  unfold input Input.toSignal
  dsimp only
  by_cases hlow : 3 ≤ line
  · rw [if_pos hlow]
    dsimp only [signal]
    by_cases hline : DeviceLine line
    · rw [if_pos hline]
      exact ⟨rfl, rfl, fun i hi => Function.update_of_ne (show i ≠ line by omega) _ _⟩
    · rw [if_neg hline]
      exact ⟨rfl, rfl, fun _ _ => rfl⟩
  · rw [if_neg hlow]
    exact ⟨rfl, rfl, fun _ _ => rfl⟩

theorem unconcerned_withdraw (line : Nat) (s : Pending Devices) :
    s.Unconcerned (s.input (.withdraw line)) := by
  unfold input Input.toSignal
  dsimp only
  by_cases hlow : 3 ≤ line
  · rw [if_pos hlow]
    dsimp only [signal]
    by_cases hline : DeviceLine line
    · rw [if_pos hline]
      exact ⟨rfl, rfl, fun i hi => Function.update_of_ne (show i ≠ line by omega) _ _⟩
    · rw [if_neg hline]
      exact ⟨rfl, rfl, fun _ _ => rfl⟩
  · rw [if_neg hlow]
    exact ⟨rfl, rfl, fun _ _ => rfl⟩

theorem input_timerInstall (s : Pending Devices) :
    s.input .timerInstall =
      { s with routines := Function.update s.routines 0 (some Devices.timerHandler) } := rfl

theorem input_keyboardInstall (s : Pending Devices) :
    s.input .keyboardInstall =
      { s with routines := Function.update s.routines 1 (some Devices.keyboardIrq) } := rfl

theorem Drivers.unconcerned (h : s.Drivers) (hs' : s.Unconcerned s') : s'.Drivers := by
  obtain ⟨hroutines, -, -⟩ := hs'
  constructor
  · rw [hroutines]
    exact h.timer
  · rw [hroutines]
    exact h.keyboard
  · rw [hroutines]
    exact h.others

theorem Drivers.input (h : s.Drivers) (i : Input) : (s.input i).Drivers := by
  cases i with
  | tick =>
      rw [input_tick]
      exact ⟨h.timer, h.keyboard, h.others⟩
  | key b =>
      rw [input_key]
      cases s.data.full with
      | true => exact h
      | false => exact ⟨h.timer, h.keyboard, h.others⟩
  | request line => exact h.unconcerned (unconcerned_request line s)
  | withdraw line => exact h.unconcerned (unconcerned_withdraw line s)
  | timerInstall =>
      rw [input_timerInstall]
      constructor
      · exact Or.inr rfl
      · exact h.keyboard
      · intro irq hirq
        simp only [Function.update_of_ne (show irq ≠ 0 by omega)]
        exact h.others irq hirq
  | keyboardInstall =>
      rw [input_keyboardInstall]
      constructor
      · exact h.timer
      · exact Or.inr rfl
      · intro irq hirq
        simp only [Function.update_of_ne (show irq ≠ 1 by omega)]
        exact h.others irq hirq

theorem Drivers.accept (h : s.Drivers) (haccept : s.accept = some (irq, s')) : s'.Drivers := by
  obtain ⟨rfl, _⟩ := accept_cases haccept
  exact ⟨h.timer, h.keyboard, h.others⟩

/-- Nothing but the keyboard's own data and its line matters. -/
theorem KeyInv.congr {console : Console} (h : s.KeyInv console) (hdrivers : s'.Drivers)
    (hline : s'.lines 1 = true → s.lines 1 = true)
    (hdata : s'.data.keyboardPart = s.data.keyboardPart) : s'.KeyInv console := by
  simp only [Devices.keyboardPart, Prod.mk.injEq] at hdata
  obtain ⟨hconsole, hport, hfull, hreceived⟩ := hdata
  constructor
  · exact hdrivers
  · rw [hfull]
    exact fun hup => h.waits (hline hup)
  · unfold Typed
    rw [hconsole, hport, hfull, hreceived]
    exact h.typed

theorem KeyInv.unconcerned {console : Console} (h : s.KeyInv console)
    (hs' : s.Unconcerned s') : s'.KeyInv console := by
  apply h.congr (h.drivers.unconcerned hs')
  · rw [hs'.lines 1 (by decide)]
    exact id
  · rw [hs'.data]

theorem KeyInv.input {console : Console} (h : s.KeyInv console) (i : Input) :
    (s.input i).KeyInv console := by
  have hdrivers := h.drivers.input i
  cases i with
  | tick =>
      apply h.congr hdrivers
      · rw [input_tick]
        exact id
      · rw [input_tick]
        cases s.lines 0 <;> rfl
  | key b =>
      rw [input_key] at hdrivers ⊢
      cases hfull : s.data.full with
      | true => exact h
      | false =>
          rw [hfull] at hdrivers
          obtain ⟨read, hreceived, hconsole⟩ := h.typed
          rw [hfull, if_neg Bool.false_ne_true, List.append_nil] at hreceived
          refine ⟨hdrivers, fun _ => rfl, read, ?_, hconsole⟩
          exact congrArg (fun bytes => bytes ++ [b]) hreceived
  | request line => exact h.unconcerned (unconcerned_request line s)
  | withdraw line => exact h.unconcerned (unconcerned_withdraw line s)
  | timerInstall => exact ⟨hdrivers, h.waits, h.typed⟩
  | keyboardInstall => exact ⟨hdrivers, h.waits, h.typed⟩

theorem KeyInv.accept {console : Console} (h : s.KeyInv console)
    (haccept : s.accept = some (irq, s')) : s'.KeyInv console := by
  have hdrivers := h.drivers.accept haccept
  obtain ⟨rfl, hup⟩ := accept_cases haccept
  have hdown : ∀ i, Function.update s.lines irq false i = true → s.lines i = true := by
    intro i hi
    by_cases hirq : i = irq
    · rw [hirq, Function.update_self] at hi
      cases hi
    · rwa [Function.update_of_ne hirq] at hi
  obtain ⟨hirq, _, hdata⟩ | ⟨hirq, _, hdata⟩ | ⟨_, hdata⟩ := h.drivers.handled_cases irq s.data
  · apply h.congr hdrivers (hdown 1)
    rw [hdata]
    rfl
  · -- the byte that is read is the one in the buffer
    subst hirq
    have hfull : s.data.full = true := h.waits (hup.resolve_right (by decide))
    obtain ⟨read, hreceived, hconsole⟩ := h.typed
    rw [hfull, if_pos rfl] at hreceived
    rw [hdata] at hdrivers ⊢
    refine ⟨hdrivers, ?_, read ++ [s.data.port60], ?_, ?_⟩
    · intro hone
      change Function.update s.lines 1 false 1 = true at hone
      rw [Function.update_self] at hone
      cases hone
    · exact hreceived.trans (List.append_nil _).symm
    · rw [List.foldl_append, ← hconsole]
      rfl
  · apply h.congr hdrivers (hdown 1)
    rw [hdata]

/-- Only a tick and the installation of its driver concern the clock. -/
theorem input_clock (s : Pending Devices) {i : Input} (htick : i ≠ .tick)
    (hinstall : i ≠ .timerInstall) : (s.input i).routines 0 = s.routines 0 ∧
      (s.input i).lines 0 = s.lines 0 ∧ (s.input i).data.clockPart = s.data.clockPart := by
  cases i with
  | tick => exact absurd rfl htick
  | key b =>
      rw [input_key]
      cases s.data.full with
      | true => exact ⟨rfl, rfl, rfl⟩
      | false => exact ⟨rfl, rfl, rfl⟩
  | request line =>
      obtain ⟨hroutines, hdata, hlines⟩ := unconcerned_request line s
      rw [hroutines, hdata]
      exact ⟨rfl, hlines 0 (by decide), rfl⟩
  | withdraw line =>
      obtain ⟨hroutines, hdata, hlines⟩ := unconcerned_withdraw line s
      rw [hroutines, hdata]
      exact ⟨rfl, hlines 0 (by decide), rfl⟩
  | timerInstall => exact absurd rfl hinstall
  | keyboardInstall => exact ⟨rfl, rfl, rfl⟩

/-- An interrupt of another line leaves the clock alone, and so does one of its own before the
driver is installed. -/
theorem accept_clock (h : s.Drivers) (haccept : s.accept = some (irq, s'))
    (hother : irq ≠ 0 ∨ s.routines 0 = none) : s'.routines 0 = s.routines 0 ∧
      s'.data.clockPart = s.data.clockPart ∧ (irq ≠ 0 → s'.lines 0 = s.lines 0) := by
  obtain ⟨rfl, -⟩ := accept_cases haccept
  refine ⟨rfl, ?_, fun hne => Function.update_of_ne hne.symm _ _⟩
  obtain ⟨hirq, hsome, -⟩ | ⟨-, -, hdata⟩ | ⟨-, hdata⟩ := h.handled_cases irq s.data
  · cases hother with
    | inl hne => exact absurd hirq hne
    | inr hnone =>
        rw [hsome] at hnone
        cases hnone
  · rw [hdata]
    rfl
  · rw [hdata]

structure Unticked (s : Pending Devices) : Prop where
  drivers : s.Drivers
  counted : s.routines 0 = none → s.data.Counted 0

theorem Unticked.congr (h : s.Unticked) (hdrivers : s'.Drivers) (hroutine : s'.routines 0 = s.routines 0)
    (hticks : s'.data.timerTicks = s.data.timerTicks) (hticker : s'.data.ticker = s.data.ticker) :
    s'.Unticked := by
  refine ⟨hdrivers, fun hnone => ?_⟩
  unfold Devices.Counted
  rw [hticks, hticker]
  exact h.counted (hroutine ▸ hnone)

theorem Unticked.input (h : s.Unticked) (i : Input) : (s.input i).Unticked := by
  have hdrivers := h.drivers.input i
  by_cases htick : i = .tick
  · subst htick
    rw [input_tick] at hdrivers ⊢
    cases hup : s.lines 0 with
    | true => exact h.congr (by rw [hup] at hdrivers; exact hdrivers) rfl rfl rfl
    | false => exact h.congr (by rw [hup] at hdrivers; exact hdrivers) rfl rfl rfl
  by_cases hinstall : i = .timerInstall
  · subst hinstall
    refine ⟨hdrivers, fun hnone => ?_⟩
    change some Devices.timerHandler = none at hnone
    cases hnone
  · obtain ⟨hroutine, -, hdata⟩ := input_clock s htick hinstall
    simp only [Devices.clockPart, Prod.mk.injEq] at hdata
    exact h.congr hdrivers hroutine hdata.1 hdata.2.1

theorem Unticked.accept (h : s.Unticked) (haccept : s.accept = some (irq, s')) : s'.Unticked := by
  have hdrivers := h.drivers.accept haccept
  refine ⟨hdrivers, fun hnone => ?_⟩
  have hroutine : s'.routines 0 = s.routines 0 := by
    obtain ⟨rfl, -⟩ := accept_cases haccept
    rfl
  rw [hroutine] at hnone
  obtain ⟨-, hdata, -⟩ := accept_clock h.drivers haccept (Or.inr hnone)
  simp only [Devices.clockPart, Prod.mk.injEq] at hdata
  unfold Devices.Counted
  rw [hdata.1, hdata.2.1]
  exact h.counted hnone

/-- With the timer installed when its line had seen `before` edges and `waiting` of them still
waited, what is counted and what waits are the edges since then. -/
structure TickInv (before waiting : Nat) (s : Pending Devices) : Prop where
  drivers : s.Drivers
  timer : s.routines 0 = some Devices.timerHandler
  counted : ∃ n, n + (if s.lines 0 then 1 else 0) + before = waiting + s.data.edges ∧
    s.data.Counted n

variable {before waiting : Nat}

/-- What waits when the timer is installed is counted later. -/
theorem Unticked.timerInstall (h : s.Unticked) (hmissing : s.routines 0 = none) :
    (s.input .timerInstall).TickInv s.data.edges (if s.lines 0 then 1 else 0) := by
  refine ⟨h.drivers.input .timerInstall, rfl, 0, ?_, h.counted hmissing⟩
  rw [Nat.zero_add]
  rfl

theorem TickInv.congr (h : s.TickInv before waiting) (hdrivers : s'.Drivers)
    (hroutine : s'.routines 0 = s.routines 0) (hline : s'.lines 0 = s.lines 0)
    (hdata : s'.data.clockPart = s.data.clockPart) : s'.TickInv before waiting := by
  simp only [Devices.clockPart, Prod.mk.injEq] at hdata
  obtain ⟨hticks, hticker, hedges⟩ := hdata
  obtain ⟨n, hcount, hcounted⟩ := h.counted
  refine ⟨hdrivers, hroutine.trans h.timer, n, ?_, ?_⟩
  · rw [hline, hedges]
    exact hcount
  · unfold Devices.Counted
    rw [hticks, hticker]
    exact hcounted

theorem TickInv.input (h : s.TickInv before waiting) (i : Input) :
    (s.input i).TickInv before waiting := by
  have hdrivers := h.drivers.input i
  by_cases htick : i = .tick
  · subst htick
    obtain ⟨n, hcount, hcounted⟩ := h.counted
    rw [input_tick] at hdrivers ⊢
    refine ⟨hdrivers, h.timer, n, ?_, ?_⟩
    · cases hup : s.lines 0 with
      | true =>
          rw [hup] at hcount
          exact hcount
      | false =>
          -- the tick raises the line and is an edge
          rw [hup, if_neg Bool.false_ne_true] at hcount
          change n + 1 + before = waiting + (s.data.edges + 1)
          omega
    · cases s.lines 0 <;> exact hcounted
  by_cases hinstall : i = .timerInstall
  · subst hinstall
    exact ⟨hdrivers, rfl, h.counted⟩
  · obtain ⟨hroutine, hline, hdata⟩ := input_clock s htick hinstall
    exact h.congr hdrivers hroutine hline hdata

theorem TickInv.accept (h : s.TickInv before waiting) (haccept : s.accept = some (irq, s')) :
    s'.TickInv before waiting := by
  have hdrivers := h.drivers.accept haccept
  by_cases hirq : irq = 0
  · subst hirq
    obtain ⟨rfl, hup⟩ := accept_cases haccept
    have hline : s.lines 0 = true := hup.resolve_right (by decide)
    have hdata : handled s.routines s.data 0 = s.data.timerHandler := by
      unfold handled
      rw [h.timer]
    obtain ⟨n, hcount, hcounted⟩ := h.counted
    rw [hline, if_pos rfl] at hcount
    rw [hdata] at hdrivers ⊢
    exact ⟨hdrivers, h.timer, n + 1, hcount, hcounted.timerHandler⟩
  · obtain ⟨hroutine, hdata, hline⟩ := accept_clock h.drivers haccept (Or.inl hirq)
    exact h.congr hdrivers hroutine (hline hirq) hdata

/-- A byte is in the buffer and no interrupt is due for it. -/
structure Stuck (console : Console) (received : List UInt8) (s : Pending Devices) : Prop where
  drivers : s.Drivers
  full : s.data.full = true
  down : s.lines 1 = false
  shown : s.data.console = console
  received : s.data.received = received

theorem Stuck.unconcerned {console : Console} {received : List UInt8}
    (h : s.Stuck console received) (hs' : s.Unconcerned s') : s'.Stuck console received := by
  constructor
  case drivers => exact h.drivers.unconcerned hs'
  case full =>
    rw [hs'.data]
    exact h.full
  case down =>
    rw [hs'.lines 1 (by decide)]
    exact h.down
  case shown =>
    rw [hs'.data]
    exact h.shown
  case received =>
    rw [hs'.data]
    exact h.received

theorem Stuck.input {console : Console} {received : List UInt8} (h : s.Stuck console received)
    (i : Input) : (s.input i).Stuck console received := by
  have hdrivers := h.drivers.input i
  cases i with
  | tick =>
      rw [input_tick] at hdrivers ⊢
      refine ⟨hdrivers, ?_, h.down, ?_, ?_⟩
      · cases s.lines 0 <;> exact h.full
      · cases s.lines 0 <;> exact h.shown
      · cases s.lines 0 <;> exact h.received
  | key b =>
      rw [input_key, h.full, if_pos rfl]
      exact h
  | request line => exact h.unconcerned (unconcerned_request line s)
  | withdraw line => exact h.unconcerned (unconcerned_withdraw line s)
  | timerInstall => exact ⟨hdrivers, h.full, h.down, h.shown, h.received⟩
  | keyboardInstall => exact ⟨hdrivers, h.full, h.down, h.shown, h.received⟩

theorem Stuck.accept {console : Console} {received : List UInt8} (h : s.Stuck console received)
    (haccept : s.accept = some (irq, s')) : s'.Stuck console received := by
  have hdrivers := h.drivers.accept haccept
  obtain ⟨rfl, hup⟩ := accept_cases haccept
  have hdown : Function.update s.lines irq false 1 = false := by
    by_cases hirq : 1 = irq
    · rw [hirq, Function.update_self]
    · rw [Function.update_of_ne hirq]
      exact h.down
  obtain ⟨_, _, hdata⟩ | ⟨hirq, _, _⟩ | ⟨_, hdata⟩ := h.drivers.handled_cases irq s.data
  · rw [hdata] at hdrivers ⊢
    exact ⟨hdrivers, h.full, hdown, h.shown, h.received⟩
  · -- line 1 is down, so it is not the one served
    subst hirq
    rw [h.down] at hup
    exact absurd hup (by decide)
  · rw [hdata] at hdrivers ⊢
    exact ⟨hdrivers, h.full, hdown, h.shown, h.received⟩

/-- A property that inputs and interrupts keep is kept by every event. -/
theorem next_invariant {I : Pending Devices → Prop} (hinput : ∀ s i, I s → I (s.input i))
    (haccept : ∀ s irq s', I s → s.accept = some (irq, s') → I s') (s : Pending Devices)
    (e : Event Input) (s' : Pending Devices) (hs : I s)
    (hnext : next Pending.input s e = .ok s') : I s' := by
  cases e with
  | step =>
      cases hnext
      exact hs
  | device i =>
      cases hnext
      exact hinput s i hs
  | accept =>
      unfold next at hnext
      cases hanswer : s.accept with
      | none =>
          rw [hanswer] at hnext
          cases hnext
      | some answer =>
          rw [hanswer] at hnext
          cases hnext
          exact haccept s answer.1 answer.2 hs hanswer

end Pending

namespace Irqs

def booted (pics : Pics) (console : Console) (port60 : UInt8) : Irqs Devices :=
  installed pics (fun _ => none) (Devices.start console port60)

/-- What the pending lines keep, the kernel keeps. -/
theorem Idle.keeps {I : Pending Devices → Prop} (hinput : ∀ s i, I s → I (s.input i))
    (haccept : ∀ s irq s', I s → s.accept = some (irq, s') → I s') {s t : Irqs Devices}
    (hidle : s.Idle) (hs : I s.toPending) {events : List (Event Input)}
    (hrun : s.events events = .ok t) : t.Idle ∧ I t.toPending := by
  obtain ⟨hsame, hend⟩ := hidle.run input_simulated events
  unfold Irqs.events at hrun
  refine ⟨hend t hrun, ?_⟩
  rw [hrun] at hsame
  exact Run.exec_invariant (Pending.next_invariant hinput haccept) hs hsame.symm

theorem booted_drivers (pics : Pics) (console : Console) (port60 : UInt8) :
    (booted pics console port60).toPending.Drivers :=
  ⟨Or.inl rfl, Or.inl rfl, fun _ _ => rfl⟩

theorem booted_line (pics : Pics) (console : Console) (port60 : UInt8) (i : Nat) (hi : i < 8) :
    (booted pics console port60).toPending.lines i = false := by
  have hdown := ((Pics.irqRemap_idle pics).2 i).1
  exact (if_pos hi).trans hdown

theorem booted_keys (pics : Pics) (console : Console) (port60 : UInt8) :
    (booted pics console port60).toPending.KeyInv console := by
  refine ⟨booted_drivers pics console port60, ?_, [], rfl, rfl⟩
  rw [booted_line pics console port60 1 (by decide)]
  exact fun hup => absurd hup Bool.false_ne_true

/-- From `irq_install` on, in any order of keys, ticks, other devices and
interrupts, and whenever the drivers are installed: no scancode is lost, none is
handled twice, and the handler sees them in the order in which the keyboard sent
them. At most the last one still waits in the buffer. -/
theorem keys_in_order (pics : Pics) (console : Console) (port60 : UInt8)
    (events : List (Event Input)) (t : Irqs Devices)
    (hrun : (booted pics console port60).events events = .ok t) :
    ∃ read, t.data.received = read ++ (if t.data.full then [t.data.port60] else []) ∧
      t.data.console = read.foldl (fun c b => keyboardHandler b c) console := by
  exact (Idle.keeps (fun _ i h => h.input i) (fun _ _ _ h => h.accept)
    (installed_idle _ _ _) (booted_keys pics console port60) hrun).2.typed

/-- From any state since `irq_remap` in which the timer is not installed yet: with it
installed, `timer_ticks` is the number of ticks from there on that find their line down, with
one that waited already, but for one that still waits; `ticker` follows at every 18th. -/
theorem ticks_counted (pics : Pics) (console : Console) (port60 : UInt8)
    (before after : List (Event Input)) (s t : Irqs Devices)
    (hbefore : (booted pics console port60).events before = .ok s) (hmissing : s.routines 0 = none)
    (hrun : (s.input .timerInstall).events after = .ok t) :
    ∃ n, n + (if t.pics.pendingLines 0 then 1 else 0) + s.data.edges =
        (if s.pics.pendingLines 0 then 1 else 0) + t.data.edges ∧
      t.data.timerTicks = n % 2 ^ 32 ∧ (n < 2 ^ 31 → t.data.ticker = n / 18) := by
  have hstart : (booted pics console port60).toPending.Unticked :=
    ⟨booted_drivers pics console port60, fun _ => ⟨rfl, fun _ => rfl⟩⟩
  obtain ⟨hidle, hunticked⟩ := Idle.keeps (fun _ i h => h.input i) (fun _ _ _ h => h.accept)
    (installed_idle _ _ _) hstart hbefore
  obtain ⟨hidle', hsame⟩ := input_simulated .timerInstall s hidle
  have hinstalled : (s.input .timerInstall).toPending.TickInv s.data.edges
      (if s.pics.pendingLines 0 then 1 else 0) := by
    rw [hsame]
    exact hunticked.timerInstall hmissing
  exact (Idle.keeps (fun _ i h => h.input i) (fun _ _ _ h => h.accept) hidle' hinstalled
    hrun).2.counted

/-- An interrupt of the keyboard that is taken before `keyboardInstall` was its last:
the byte is never read, so that the controller sends no other, and no key reaches
the screen any more, whatever is installed later. -/
theorem early_key_sticks (pics : Pics) (console : Console) (port60 : UInt8)
    (before after : List (Event Input)) (s t : Irqs Devices)
    (hbefore : (booted pics console port60).events before = .ok s)
    (hmissing : s.routines 1 = none) (hkey : s.pics.pendingLines 1 = true)
    (hfirst : s.pics.pendingLines 0 = false) (hrun : s.events (.accept :: after) = .ok t) :
    t.data.console = s.data.console ∧ t.data.received = s.data.received := by
  obtain ⟨hidle, hinv⟩ := Idle.keeps (fun _ i h => h.input i) (fun _ _ _ h => h.accept)
    (installed_idle _ _ _) (booted_keys pics console port60) hbefore
  have hline : priority.find? s.toPending.lines = some 1 := by
    have hzero : s.toPending.lines 0 = false := hfirst
    have hone : s.toPending.lines 1 = true := hkey
    simp [priority, hzero, hone]
  have haccept : s.toPending.accept = some (1, { s.toPending with
      lines := Function.update s.toPending.lines 1 false, withdrawn := none }) := by
    have hnone : s.toPending.routines 1 = none := hmissing
    simp only [Pending.accept, Pending.call, hline, hnone]
  have hstuck : Pending.Stuck s.data.console s.data.received { s.toPending with
      lines := Function.update s.toPending.lines 1 false, withdrawn := none } :=
    ⟨hinv.drivers.accept haccept, hinv.waits hkey,
      by simp only [Function.update_self], rfl, rfl⟩
  obtain ⟨hsame, _⟩ := hidle.run input_simulated (.accept :: after)
  unfold Irqs.events at hrun
  rw [hrun, Run.exec] at hsame
  simp only [Pending.next, haccept] at hsame
  have hend := Run.exec_invariant (Pending.next_invariant
    (I := Pending.Stuck s.data.console s.data.received) (fun _ i h => h.input i)
    (fun _ _ _ h => h.accept)) hstuck hsame.symm
  exact ⟨hend.shown, hend.received⟩

def blankConsole : Console := ⟨⟨false, false, false⟩, (Vga.boot fun _ => 0).initVideo⟩

/-- Two keys, the first of them handled. -/
theorem keys_in_order_two :
    ∃ t, (booted ⟨Pic.stray, Pic.stray⟩ blankConsole 0).events [.device .keyboardInstall,
        .device (.key 0x1E), .accept, .device (.key 0x30)] = .ok t ∧
      ∃ read, t.data.received = read ++ (if t.data.full then [t.data.port60] else []) ∧
        t.data.console = read.foldl (fun c b => keyboardHandler b c) blankConsole := by
  obtain ⟨t, hrun⟩ : ∃ t, (booted ⟨Pic.stray, Pic.stray⟩ blankConsole 0).events
      [.device .keyboardInstall, .device (.key 0x1E), .accept, .device (.key 0x30)] = .ok t :=
    ⟨_, rfl⟩
  exact ⟨t, hrun, keys_in_order ⟨Pic.stray, Pic.stray⟩ blankConsole 0 _ t hrun⟩

/-- A tick that is taken before the timer is installed, one that waits then, and three more, of
which the first finds it still waiting. -/
theorem ticks_counted_late :
    ∃ s t, (booted ⟨Pic.stray, Pic.stray⟩ blankConsole 0).events
        [.device .tick, .accept, .device .tick] = .ok s ∧
      (s.input .timerInstall).events [.device .tick, .accept, .device .tick, .accept,
        .device .tick] = .ok t ∧
      ∃ n, n + (if t.pics.pendingLines 0 then 1 else 0) + s.data.edges =
          (if s.pics.pendingLines 0 then 1 else 0) + t.data.edges ∧
        t.data.timerTicks = n % 2 ^ 32 ∧ (n < 2 ^ 31 → t.data.ticker = n / 18) := by
  obtain ⟨s, hbefore, hmissing, t, hrun⟩ : ∃ s, (booted ⟨Pic.stray, Pic.stray⟩ blankConsole 0).events
      [.device .tick, .accept, .device .tick] = .ok s ∧ s.routines 0 = none ∧
        ∃ t, (s.input .timerInstall).events [.device .tick, .accept, .device .tick, .accept,
          .device .tick] = .ok t := ⟨_, rfl, rfl, _, rfl⟩
  exact ⟨s, t, hbefore, hrun,
    ticks_counted ⟨Pic.stray, Pic.stray⟩ blankConsole 0 _ _ s t hbefore hmissing hrun⟩

/-- A key between `irq_install` and `keyboardInstall`, and another one later. -/
theorem early_key_sticks_one :
    ∃ t, (booted ⟨Pic.stray, Pic.stray⟩ blankConsole 0).events [.device (.key 0x1E), .accept,
        .device .keyboardInstall, .device (.key 0x30)] = .ok t ∧
      t.data.console = blankConsole ∧ t.data.received = [0x1E] := by
  obtain ⟨t, hrun⟩ : ∃ t, ((booted ⟨Pic.stray, Pic.stray⟩ blankConsole 0).input
      (.key 0x1E)).events [.accept, .device .keyboardInstall, .device (.key 0x30)] = .ok t :=
    ⟨_, rfl⟩
  exact ⟨t, hrun, early_key_sticks ⟨Pic.stray, Pic.stray⟩ blankConsole 0 [.device (.key 0x1E)] _
    _ t rfl rfl rfl rfl hrun⟩

end Irqs

end X32PRos
