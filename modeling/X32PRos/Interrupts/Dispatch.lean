import X32PRos.Interrupts.Interleaving
import X32PRos.Interrupts.Pic

/-!
The controllers with `irq_handler` on one side, a set of pending lines on the
other. No line is in service between two interrupts, so that all that is left of
the cascade, the vectors and the end-of-interrupt commands is an order of
priority.
-/

namespace X32PRos

open Foundation

/-- What the controllers and the dispatcher amount to: lines that wait, and what to
do about each. -/
structure Pending (κ : Type) where
  lines : Nat → Bool
  withdrawn : Option Chip
  routines : Nat → Option (κ → κ)
  data : κ

/-- The lines in the order in which they get through; those of the slave stand
where line 2 of the master would. -/
def priority : List Nat := [0, 1] ++ Pic.lines.map (8 + ·) ++ [3, 4, 5, 6, 7]

def Chip.lowest : Chip → Nat
  | .master => 7
  | .slave => 15

namespace Pending

variable {κ : Type}

def signal (s : Pending κ) : Signal κ → Pending κ
  | .request line effect =>
      if DeviceLine line then
        { s with lines := Function.update s.lines line true, data := effect s.data }
      else s
  | .withdraw line =>
      if DeviceLine line then
        { s with
          lines := Function.update s.lines line false
          withdrawn := some (if line < 8 then .master else .slave) }
      else s
  | .install irq handler => { s with routines := Function.update s.routines irq handler }

def call (irq : Nat) (s : Pending κ) : Pending κ :=
  match s.routines irq with
  | some handler => { s with data := handler s.data }
  | none => s

/-- The pending line that comes first, no longer pending and its handler called. -/
def accept (s : Pending κ) : Option (Nat × Pending κ) :=
  match priority.find? s.lines with
  | some irq => some (irq,
      call irq { s with lines := Function.update s.lines irq false, withdrawn := none })
  | none =>
      match s.withdrawn with
      | none => none
      | some chip => some (chip.lowest, call chip.lowest { s with withdrawn := none })

def next {δ : Type} (raise : δ → Pending κ → Pending κ) (s : Pending κ) :
    Event δ → Except Unit (Pending κ)
  | .step => .ok s
  | .device d => .ok (raise d s)
  | .accept =>
      match s.accept with
      | none => .error ()
      | some (_, s') => .ok s'

end Pending

/-- A controller as `irq_remap` leaves it and every handler finds and leaves it. -/
structure Pic.Idle (base : Nat) (p : Pic) : Prop where
  done : p.awaits = .done
  base : p.base = base
  unmasked : ∀ i, p.masked i = false
  idle : ∀ i, p.inService i = false

/-- Both controllers, and nothing at line 2 but the slave. -/
structure Pics.Idle (s : Pics) : Prop where
  master : s.master.Idle 32
  slave : s.slave.Idle 40
  cascade : s.master.requested 2 = false

namespace Pic

variable {p : Pic} {base : Nat}

theorem Idle.ready_eq (h : p.Idle base) (request : Nat → Bool) :
    p.ready request = lines.find? request := by
  have hfound : (fun i => p.inService i || (request i && !p.masked i)) = request := by
    funext i
    rw [h.idle, h.unmasked, Bool.false_or, Bool.not_false, Bool.and_true]
  rw [Pic.ready, hfound]
  cases lines.find? request with
  | none => rfl
  | some i =>
      have hfree : ¬ (p.inService i = true ∨ p.awaits ≠ .done) := by
        rw [h.idle, h.done]
        decide
      exact if_neg hfree

theorem Idle.eoi_eq (h : p.Idle base) : p.eoi = p := by
  have hnone : lines.find? p.inService = none := by
    apply List.find?_eq_none.mpr
    intro i _
    rw [h.idle]
    exact Bool.false_ne_true
  rw [Pic.eoi, hnone]

/-- The command ends the one line in service. -/
theorem Idle.eoi_serve (h : p.Idle base) {i : Nat} (hi : i ∈ lines) :
    (p.serve i).eoi = { p with requested := Function.update p.requested i false } := by
  have hall : p.inService = fun _ => false := by
    funext j
    exact h.idle j
  have hfirst : lines.find? (p.serve i).inService = some i := by
    have hserve : (p.serve i).inService = Function.update (fun _ => false) i true := by
      rw [← hall]
      rfl
    rw [hserve]
    simp only [lines, List.mem_cons, List.not_mem_nil, or_false] at hi
    obtain rfl | rfl | rfl | rfl | rfl | rfl | rfl | rfl := hi <;> rfl
  have hback : Function.update (p.serve i).inService i false = p.inService := by
    funext j
    change Function.update (Function.update p.inService i true) i false j = p.inService j
    rw [Function.update_idem, hall]
    by_cases hj : j = i
    · rw [hj, Function.update_self]
    · rw [Function.update_of_ne hj]
  simp only [Pic.eoi, hfirst, hback]
  rfl

theorem Idle.setRequested (h : p.Idle base) (requested : Nat → Bool) :
    Idle base { p with requested := requested } := ⟨h.done, h.base, h.unmasked, h.idle⟩

end Pic

/-- From whatever state the firmware left the controllers in. -/
theorem Pics.irqRemap_idle (s : Pics) :
    s.irqRemap.Idle ∧ ∀ i, s.irqRemap.master.requested i = false ∧
      s.irqRemap.slave.requested i = false := by
  have hmask : ∀ i, (0 : UInt8).toNat.testBit i = false := Nat.zero_testBit
  refine ⟨⟨⟨rfl, rfl, hmask, fun _ => rfl⟩, ⟨rfl, rfl, hmask, fun _ => rfl⟩, rfl⟩, ?_⟩
  intro i
  exact ⟨rfl, rfl⟩

namespace Pics

def pendingLines (s : Pics) (line : Nat) : Bool :=
  if line < 8 then s.master.requested line else s.slave.requested (line - 8)

/-- The line in service that a device line takes up: at the slave's end line 2 too. -/
def serve (line : Nat) (s : Pics) : Pics :=
  if line < 8 then { s with master := s.master.serve line }
  else ⟨s.master.serve 2, s.slave.serve (line - 8)⟩

variable {s : Pics}

theorem find_slave (s : Pics) :
    (Pic.lines.map (8 + ·)).find? s.pendingLines =
      (Pic.lines.find? s.slave.requested).map (8 + ·) := by
  have hback : s.pendingLines ∘ (8 + ·) = s.slave.requested := by
    funext i
    change (if 8 + i < 8 then _ else s.slave.requested (8 + i - 8)) = _
    rw [if_neg (by omega), Nat.add_sub_cancel_left]
  rw [List.find?_map, hback]

theorem mem_priority {line : Nat} (h : line ∈ priority) : DeviceLine line := by
  have hall : ∀ line ∈ priority, DeviceLine line := by decide
  exact hall line h

/-- The answer of the pair is the first pending line in the order of priority. -/
theorem Idle.acknowledge_eq (h : s.Idle) :
    s.acknowledge = (priority.find? s.pendingLines).map fun line => (32 + line, s.serve line) := by
  have hslave : s.slaveReady = Pic.lines.find? s.slave.requested := h.slave.ready_eq _
  have hmaster := h.master.ready_eq fun i =>
    if i = 2 then s.slaveReady.isSome else s.master.requested i
  have hlow : ∀ i, i < 8 → s.pendingLines i = s.master.requested i := fun i hi => if_pos hi
  have hsplit : priority.find? s.pendingLines =
      (([0, 1].find? s.pendingLines).or ((Pic.lines.find? s.slave.requested).map (8 + ·))).or
        ([3, 4, 5, 6, 7].find? s.pendingLines) := by
    rw [priority, List.find?_append, List.find?_append, find_slave]
  have h₀ := hlow 0 (by decide)
  have h₁ := hlow 1 (by decide)
  have h₃ := hlow 3 (by decide)
  have h₄ := hlow 4 (by decide)
  have h₅ := hlow 5 (by decide)
  have h₆ := hlow 6 (by decide)
  have h₇ := hlow 7 (by decide)
  rw [Pics.acknowledge, Pics.masterReady, hmaster, hsplit]
  cases e₀ : s.master.requested 0 with
  | true => simp [Pic.lines, h₀, e₀, h.master.base, Pics.serve]
  | false =>
      cases e₁ : s.master.requested 1 with
      | true => simp [Pic.lines, h₀, e₀, h₁, e₁, h.master.base, Pics.serve]
      | false =>
          cases hfound : Pic.lines.find? s.slave.requested with
          | some j =>
              have hvector : 40 + j = 32 + (8 + j) := by omega
              rw [hfound] at hslave
              have hfirst : Pic.lines.find? (fun i => if i = 2 then s.slaveReady.isSome
                  else s.master.requested i) = some 2 := by
                simp [Pic.lines, e₀, e₁, hslave]
              rw [hfirst]
              simp only [hslave, h.slave.base, hvector]
              simp [h₀, e₀, h₁, e₁, Pics.serve]
          | none =>
              rw [hfound] at hslave
              have hrest : Pic.lines.find? (fun i => if i = 2 then s.slaveReady.isSome
                  else s.master.requested i) = [3, 4, 5, 6, 7].find? s.pendingLines := by
                simp [Pic.lines, e₀, e₁, hslave, h₃, h₄, h₅, h₆, h₇, List.find?_cons]
              rw [hrest]
              cases hline : [3, 4, 5, 6, 7].find? s.pendingLines with
              | none => simp [h₀, e₀, h₁, e₁]
              | some i =>
                  have hmem := List.mem_of_find?_eq_some hline
                  simp only [List.mem_cons, List.not_mem_nil, or_false] at hmem
                  obtain rfl | rfl | rfl | rfl | rfl := hmem <;>
                    simp [h₀, e₀, h₁, e₁, h.master.base, Pics.serve]

/-- The end-of-interrupt commands that `irq_handler` sends for a vector. -/
def endOfInterrupt (intNo : Nat) (s : Pics) : Pics :=
  (if 40 ≤ intNo then s.outportb 0xA0 0x20 else s).outportb 0x20 0x20

theorem endOfInterrupt_low {n : Nat} (h : n < 40) (s : Pics) :
    s.endOfInterrupt n = ⟨s.master.eoi, s.slave⟩ := by
  rw [endOfInterrupt, if_neg (by omega)]
  rfl

theorem endOfInterrupt_high {n : Nat} (h : 40 ≤ n) (s : Pics) :
    s.endOfInterrupt n = ⟨s.master.eoi, s.slave.eoi⟩ := by
  rw [endOfInterrupt, if_pos h]
  rfl

/-- Line 2 was never requested by a device, so that serving the slave changes
nothing of the master in the end. -/
theorem Idle.eoi_cascade (h : s.Idle) : (s.master.serve 2).eoi = s.master := by
  have hline : Function.update s.master.requested 2 false = s.master.requested := by
    rw [← h.cascade]
    exact Function.update_eq_self 2 s.master.requested
  rw [h.master.eoi_serve (by decide), hline]

/-- The commands end what the answer put in service, on both controllers. -/
theorem Idle.eoi_serve (h : s.Idle) {line : Nat} (hline : DeviceLine line) :
    (s.serve line).endOfInterrupt (32 + line) = s.setLine line false := by
  obtain ⟨hlast, _⟩ := hline
  have hmem : ∀ i < 8, i ∈ Pic.lines := by decide
  by_cases hlow : line < 8
  · rw [endOfInterrupt_low (by omega), serve, if_pos hlow, setLine, if_pos hlow]
    dsimp only
    rw [h.master.eoi_serve (hmem line hlow)]
  · rw [endOfInterrupt_high (by omega), serve, if_neg hlow, setLine, if_neg hlow]
    dsimp only
    rw [h.eoi_cascade, h.slave.eoi_serve (hmem (line - 8) (by omega))]

/-- The same commands after an interrupt without a request. -/
theorem Idle.eoi_spurious (h : s.Idle) (chip : Chip) :
    (s.spurious chip).1 = 32 + chip.lowest ∧
      (s.spurious chip).2.endOfInterrupt (32 + chip.lowest) = s := by
  cases chip with
  | master =>
      constructor
      · change s.master.base + 7 = 39
        rw [h.master.base]
      · rw [endOfInterrupt_low (by decide)]
        change (⟨s.master.eoi, s.slave⟩ : Pics) = s
        rw [h.master.eoi_eq]
  | slave =>
      constructor
      · change s.slave.base + 7 = 47
        rw [h.slave.base]
      · rw [endOfInterrupt_high (by decide)]
        change (⟨(s.master.serve 2).eoi, s.slave.eoi⟩ : Pics) = s
        rw [h.eoi_cascade, h.slave.eoi_eq]

theorem Idle.setLine (h : s.Idle) {line : Nat} (hline : DeviceLine line) (up : Bool) :
    (s.setLine line up).Idle := by
  unfold Pics.setLine
  by_cases hlow : line < 8
  · rw [if_pos hlow]
    refine ⟨h.master.setRequested _, h.slave, ?_⟩
    change Function.update s.master.requested line up 2 = false
    rw [Function.update_of_ne (Ne.symm hline.2), h.cascade]
  · rw [if_neg hlow]
    exact ⟨h.master, h.slave.setRequested _, h.cascade⟩

theorem pendingLines_setLine (s : Pics) (line : Nat) (up : Bool) :
    (s.setLine line up).pendingLines = Function.update s.pendingLines line up := by
  funext i
  unfold Pics.setLine pendingLines
  by_cases hi : i = line
  · subst hi
    rw [Function.update_self]
    by_cases hlow : i < 8
    · simp only [if_pos hlow, Function.update_self]
    · simp only [if_neg hlow, Function.update_self]
  · rw [Function.update_of_ne hi]
    by_cases hline : line < 8
    · rw [if_pos hline]
      by_cases hlow : i < 8
      · simp only [if_pos hlow, Function.update_of_ne hi]
      · rw [if_neg hlow, if_neg hlow]
    · rw [if_neg hline]
      by_cases hlow : i < 8
      · rw [if_pos hlow, if_pos hlow]
      · have hne : i - 8 ≠ line - 8 := by omega
        simp only [if_neg hlow, Function.update_of_ne hne]

end Pics

namespace Pending

variable {κ δ : Type} {raise : δ → Pending κ → Pending κ}

def waiting (s : Pending κ) : List Nat := priority.filter s.lines

def handled (routines : Nat → Option (κ → κ)) (data : κ) (irq : Nat) : κ :=
  match routines irq with
  | some handler => handler data
  | none => data

theorem call_data (irq : Nat) (s : Pending κ) :
    s.call irq = { s with data := handled s.routines s.data irq } := by
  unfold call handled
  cases s.routines irq <;> rfl

/-- The lines that still wait when the first of them has been served. -/
theorem waiting_update {irq : Nat} {rest : List Nat} {s : Pending κ}
    (h : s.waiting = irq :: rest) (data : κ) :
    waiting { s with lines := Function.update s.lines irq false, data := data } = rest := by
  have hdistinct : (irq :: rest).Nodup := by
    have hpriority : priority.Nodup := by decide
    rw [← h]
    exact hpriority.filter s.lines
  have hfilter : (fun i => Function.update s.lines irq false i) =
      fun i => decide (i ≠ irq) && s.lines i := by
    funext i
    by_cases hi : i = irq
    · rw [hi, Function.update_self, decide_eq_false (fun h => h rfl), Bool.false_and]
    · rw [Function.update_of_ne hi, decide_eq_true hi, Bool.true_and]
  have hagain : waiting { s with lines := Function.update s.lines irq false, data := data } =
      (irq :: rest).filter fun i => decide (i ≠ irq) := by
    rw [← h, waiting, waiting, List.filter_filter]
    exact congrArg (fun f => priority.filter f) hfilter
  have hrest : rest.filter (fun i => decide (i ≠ irq)) = rest := by
    apply List.filter_eq_self.mpr
    intro i hi
    apply decide_eq_true
    rintro rfl
    exact (List.nodup_cons.mp hdistinct).1 hi
  rw [hagain, List.filter_cons_of_neg (by simp), hrest]

/-- If no device interferes, so many interrupts as there are lines waiting serve
each of them once, in the order of priority. -/
theorem serve_waiting (raise : δ → Pending κ → Pending κ) (s : Pending κ)
    (hwithdrawn : s.withdrawn = none) :
    ∃ lines, Run.exec (next raise) s (List.replicate s.waiting.length Event.accept) =
        .ok { s with lines := lines, data := s.waiting.foldl (handled s.routines) s.data } ∧
      priority.filter lines = [] := by
  generalize hwaiting : s.waiting = list
  induction list generalizing s with
  | nil => exact ⟨s.lines, rfl, hwaiting⟩
  | cons irq rest ih =>
      have hfirst : priority.find? s.lines = some irq := by
        rw [← List.head?_filter]
        change s.waiting.head? = some irq
        rw [hwaiting]
        rfl
      have hnext : next raise s .accept = .ok { s with
          lines := Function.update s.lines irq false, withdrawn := none
          data := handled s.routines s.data irq } := by
        simp only [next, accept, hfirst, call_data]
      have hrest := waiting_update hwaiting (handled s.routines s.data irq)
      obtain ⟨lines, hrun, hnone⟩ := ih { s with
        lines := Function.update s.lines irq false, withdrawn := none
        data := handled s.routines s.data irq } rfl hrest
      refine ⟨lines, ?_, hnone⟩
      rw [List.length_cons, List.replicate_succ, Run.exec, hnext]
      refine hrun.trans ?_
      rw [hwithdrawn]
      rfl

end Pending

namespace Irqs

variable {κ : Type} {s : Irqs κ}

def toPending (s : Irqs κ) : Pending κ where
  lines := s.pics.pendingLines
  withdrawn := s.withdrawn
  routines := s.routines
  data := s.data

def Idle (s : Irqs κ) : Prop := s.pics.Idle

theorem pics_callHandler (irq : Nat) (s : Irqs κ) : (s.callHandler irq).pics = s.pics := by
  unfold callHandler
  cases s.routines irq <;> rfl

/-- The handler, then the end-of-interrupt commands. -/
theorem irqHandler_eq (irq : Nat) (s : Irqs κ) :
    irqHandler (32 + irq) s =
      { s.callHandler irq with pics := s.pics.endOfInterrupt (32 + irq) } := by
  rw [irqHandler, Nat.add_sub_cancel_left, ← pics_callHandler irq s, Pics.endOfInterrupt]
  by_cases hhigh : 40 ≤ 32 + irq
  · rw [if_pos hhigh, if_pos hhigh]
    rfl
  · rw [if_neg hhigh, if_neg hhigh]
    rfl

theorem toPending_irqHandler (irq : Nat) (s : Irqs κ) :
    (irqHandler (32 + irq) s).toPending =
      Pending.call irq { s.toPending with
        lines := (s.pics.endOfInterrupt (32 + irq)).pendingLines } := by
  have hsame : s.toPending.routines irq = s.routines irq := rfl
  rw [irqHandler_eq]
  unfold callHandler Pending.call
  rw [hsame]
  cases s.routines irq <;> rfl

/-- A signal leaves the controllers idle and does the same to the pending lines. -/
theorem Idle.signal (h : s.Idle) (g : Signal κ) :
    (s.signal g).Idle ∧ (s.signal g).toPending = s.toPending.signal g := by
  cases g with
  | request line effect =>
      by_cases hline : DeviceLine line
      · have hlines := Pics.pendingLines_setLine s.pics line true
        simp only [Irqs.signal, Pending.signal, if_pos hline]
        refine ⟨Pics.Idle.setLine h hline true, ?_⟩
        simp only [toPending, hlines]
      · simp only [Irqs.signal, Pending.signal, if_neg hline]
        exact ⟨h, trivial⟩
  | withdraw line =>
      by_cases hline : DeviceLine line
      · have hlines := Pics.pendingLines_setLine s.pics line false
        simp only [Irqs.signal, Pending.signal, if_pos hline]
        refine ⟨Pics.Idle.setLine h hline false, ?_⟩
        simp only [toPending, hlines]
      · simp only [Irqs.signal, Pending.signal, if_neg hline]
        exact ⟨h, trivial⟩
  | install irq handler =>
      cases handler with
      | none => exact ⟨h, rfl⟩
      | some handler => exact ⟨h, rfl⟩

theorem Idle.acknowledge_none (h : s.Idle) (hack : s.acknowledge = none) :
    s.toPending.accept = none := by
  have hpics := Pics.Idle.acknowledge_eq h
  unfold acknowledge at hack
  cases hfirst : priority.find? s.pics.pendingLines with
  | some line =>
      rw [hpics, hfirst] at hack
      cases hack
  | none =>
      rw [hpics, hfirst] at hack
      have hnone : priority.find? s.toPending.lines = none := hfirst
      cases hwithdrawn : s.withdrawn with
      | none =>
          have hwithdrawn : s.toPending.withdrawn = none := hwithdrawn
          simp only [Pending.accept, hnone, hwithdrawn]
      | some chip =>
          simp only [Option.map_none, hwithdrawn] at hack
          cases hack

/-- Taking an interrupt and handling it to the end is one step of the pending lines. -/
theorem Idle.acknowledge_some (h : s.Idle) {n : Nat} {s' : Irqs κ}
    (hack : s.acknowledge = some (n, s')) :
    ∃ irq, n = 32 + irq ∧ irq < 16 ∧ (irqHandler n s').Idle ∧
      s.toPending.accept = some (irq, (irqHandler n s').toPending) := by
  have hpics := Pics.Idle.acknowledge_eq h
  unfold acknowledge at hack
  cases hfirst : priority.find? s.pics.pendingLines with
  | some line =>
      rw [hpics, hfirst] at hack
      cases hack
      have hline := Pics.mem_priority (List.mem_of_find?_eq_some hfirst)
      have hdone := Pics.Idle.eoi_serve h hline
      have hfirst : priority.find? s.toPending.lines = some line := hfirst
      refine ⟨line, rfl, hline.1, ?_, ?_⟩
      · rw [irqHandler_eq]
        change Pics.Idle (Pics.endOfInterrupt _ _)
        rw [hdone]
        exact Pics.Idle.setLine h hline false
      · simp only [Pending.accept, hfirst]
        rw [toPending_irqHandler]
        change _ = some (line, Pending.call line (Pending.mk (Pics.pendingLines
          (Pics.endOfInterrupt _ _)) _ _ _))
        rw [hdone, Pics.pendingLines_setLine]
        rfl
  | none =>
      rw [hpics, hfirst] at hack
      have hnone : priority.find? s.toPending.lines = none := hfirst
      cases hwithdrawn : s.withdrawn with
      | none =>
          simp only [Option.map_none, hwithdrawn] at hack
          cases hack
      | some chip =>
          simp only [Option.map_none, hwithdrawn] at hack
          cases hack
          obtain ⟨hvector, hdone⟩ := Pics.Idle.eoi_spurious h chip
          have hlast : chip.lowest < 16 := by cases chip <;> decide
          have hwithdrawn : s.toPending.withdrawn = some chip := hwithdrawn
          refine ⟨chip.lowest, hvector, hlast, ?_, ?_⟩
          · rw [hvector, irqHandler_eq]
            change Pics.Idle (Pics.endOfInterrupt _ _)
            rw [hdone]
            exact h
          · simp only [Pending.accept, hnone, hwithdrawn]
            rw [hvector, toPending_irqHandler]
            change _ = some (chip.lowest, Pending.call _ (Pending.mk (Pics.pendingLines
              (Pics.endOfInterrupt _ _)) _ _ _))
            rw [hdone]
            rfl

section

variable {δ : Type} {raise : δ → Irqs κ → Irqs κ} {raise' : δ → Pending κ → Pending κ}

/-- What a device does keeps the controllers idle, and is known of the lines alone. -/
def Simulated (raise : δ → Irqs κ → Irqs κ) (raise' : δ → Pending κ → Pending κ) : Prop :=
  ∀ d s, Idle s → (raise d s).Idle ∧ (raise d s).toPending = raise' d s.toPending

theorem Idle.next (h : s.Idle) (hraise : Simulated raise raise') (e : Event δ) :
    (kernelNext irqHandler raise acknowledge s e).map toPending =
        Pending.next raise' s.toPending e ∧
      ∀ t, kernelNext irqHandler raise acknowledge s e = .ok t → t.Idle := by
  cases e with
  | step =>
      refine ⟨rfl, fun t ht => ?_⟩
      cases ht
      exact h
  | device d =>
      obtain ⟨hidle, hsame⟩ := hraise d s h
      refine ⟨congrArg Except.ok hsame, fun t ht => ?_⟩
      cases ht
      exact hidle
  | accept =>
      unfold kernelNext Pending.next
      cases hack : s.acknowledge with
      | none =>
          rw [h.acknowledge_none hack]
          refine ⟨rfl, fun t ht => ?_⟩
          cases ht
      | some answer =>
          obtain ⟨n, s'⟩ := answer
          obtain ⟨irq, _, _, hidle, haccept⟩ := h.acknowledge_some hack
          rw [haccept]
          refine ⟨rfl, fun t ht => ?_⟩
          cases ht
          exact hidle

/-- Over a whole run the controllers and the dispatcher are the pending lines, and
no interrupt leaves a line in service behind. -/
theorem Idle.run (h : s.Idle) (hraise : Simulated raise raise') (events : List (Event δ)) :
    (Run.exec (kernelNext irqHandler raise acknowledge) s events).map toPending =
        Run.exec (Pending.next raise') s.toPending events ∧
      ∀ t, Run.exec (kernelNext irqHandler raise acknowledge) s events = .ok t → t.Idle := by
  induction events generalizing s with
  | nil =>
      refine ⟨rfl, fun t ht => ?_⟩
      cases ht
      exact h
  | cons e es ih =>
      obtain ⟨hstep, hidle⟩ := h.next hraise e
      rw [Run.exec, Run.exec, ← hstep]
      cases hnext : kernelNext irqHandler raise acknowledge s e with
      | error u =>
          refine ⟨rfl, fun t ht => ?_⟩
          cases ht
      | ok s₁ => exact ih (hidle s₁ hnext)

end

/-- What `irq_install` starts from: whatever the firmware left in the controllers,
initialised by `irq_remap`. -/
def installed (pics : Pics) (routines : Nat → Option (κ → κ)) (data : κ) : Irqs κ :=
  ⟨pics.irqRemap, none, routines, data⟩

theorem installed_idle (pics : Pics) (routines : Nat → Option (κ → κ)) (data : κ) :
    (installed pics routines data).Idle := (Pics.irqRemap_idle pics).1

theorem signal_simulated :
    Simulated (fun (g : Signal κ) s => s.signal g) (fun g s => s.signal g) :=
  fun g _ h => h.signal g

/-- From `irq_remap` on, in any order of requests, withdrawals, changes of handlers
and interrupts taken, the controllers and the dispatcher do exactly what a set of
pending lines does that calls the handler of the first one. Between two interrupts
neither controller has a line in service. -/
theorem dispatch_refines (pics : Pics) (routines : Nat → Option (κ → κ)) (data : κ)
    (events : List (Event (Signal κ))) :
    (Run.exec (kernelNext irqHandler (fun g s => s.signal g) acknowledge)
        (installed pics routines data) events).map toPending =
      Run.exec (Pending.next fun g s => s.signal g) ⟨fun _ => false, none, routines, data⟩ events ∧
    ∀ t, Run.exec (kernelNext irqHandler (fun g s => s.signal g) acknowledge)
        (installed pics routines data) events = .ok t →
      ∀ i, t.pics.master.inService i = false ∧ t.pics.slave.inService i = false := by
  have hstart := installed_idle pics routines data
  have hlines : (installed pics routines data).toPending =
      ⟨fun _ => false, none, routines, data⟩ := by
    have hnone : pics.irqRemap.pendingLines = fun _ => false := by
      funext i
      unfold Pics.pendingLines
      by_cases hlow : i < 8
      · rw [if_pos hlow]
        exact ((Pics.irqRemap_idle pics).2 i).1
      · rw [if_neg hlow]
        exact ((Pics.irqRemap_idle pics).2 (i - 8)).2
    change Pending.mk pics.irqRemap.pendingLines none routines data = _
    rw [hnone]
  obtain ⟨hrun, hidle⟩ := hstart.run signal_simulated events
  constructor
  · rw [hrun, hlines]
  · intro t ht i
    have hend := hidle t ht
    exact ⟨hend.master.idle i, hend.slave.idle i⟩

/-- Whatever has happened since `irq_remap`: when the devices are quiet, every line
that was raised is served once, in the order of priority, and none is left. -/
theorem raised_served (pics : Pics) (routines : Nat → Option (κ → κ)) (data : κ)
    (events : List (Event (Signal κ))) (s : Irqs κ)
    (hrun : Run.exec (kernelNext irqHandler (fun g s => s.signal g) acknowledge)
      (installed pics routines data) events = .ok s) (hwithdrawn : s.withdrawn = none) :
    ∃ t, Run.exec (kernelNext irqHandler (fun (g : Signal κ) s => s.signal g) acknowledge) s
        (List.replicate (priority.filter s.pics.pendingLines).length .accept) = .ok t ∧
      t.data = (priority.filter s.pics.pendingLines).foldl (Pending.handled s.routines) s.data ∧
      priority.filter t.pics.pendingLines = [] ∧ t.acknowledge = none := by
  have hidle : s.Idle := ((installed_idle pics routines data).run signal_simulated events).2 s hrun
  obtain ⟨lines, hserved, hnone⟩ := s.toPending.serve_waiting
    (fun (g : Signal κ) s => s.signal g) hwithdrawn
  obtain ⟨hsame, hend⟩ := hidle.run signal_simulated
    (List.replicate (priority.filter s.pics.pendingLines).length Event.accept)
  have hserved := hsame.trans hserved
  generalize Run.exec (kernelNext irqHandler (fun (g : Signal κ) s => s.signal g) acknowledge) s
    (List.replicate (priority.filter s.pics.pendingLines).length Event.accept) = result
    at hserved hend ⊢
  cases result with
  | error u => cases hserved
  | ok t =>
      have hpending := Except.ok.inj hserved
      have hlines : t.pics.pendingLines = lines := congrArg Pending.lines hpending
      have hdata : t.data = _ := congrArg Pending.data hpending
      have hquiet : t.toPending.withdrawn = none :=
        (congrArg Pending.withdrawn hpending).trans hwithdrawn
      have hfirst : priority.find? t.toPending.lines = none := by
        change priority.find? t.pics.pendingLines = none
        rw [hlines, ← List.head?_filter, hnone]
        rfl
      refine ⟨t, rfl, hdata, by rw [hlines, hnone], ?_⟩
      cases hack : t.acknowledge with
      | none => rfl
      | some answer =>
          obtain ⟨irq, _, _, _, haccept⟩ := (hend t rfl).acknowledge_some hack
          simp only [Pending.accept, hfirst, hquiet] at haccept
          cases haccept

/-- Lines 10, 4 and 1, raised in this order. -/
theorem raised_served_three :
    ∃ s t, Run.exec (kernelNext irqHandler (fun (g : Signal (List Nat)) s => s.signal g) acknowledge)
        (installed ⟨Pic.stray, Pic.stray⟩ (fun irq => some fun served => served ++ [irq]) [])
        [.device (.request 10 id), .device (.request 4 id), .device (.request 1 id)] = .ok s ∧
      Run.exec (kernelNext irqHandler (fun (g : Signal (List Nat)) s => s.signal g) acknowledge) s
        [.accept, .accept, .accept] = .ok t ∧ t.data = [1, 10, 4] := by
  refine ⟨(((installed ⟨Pic.stray, Pic.stray⟩ (fun irq => some fun served => served ++ [irq])
    []).signal (.request 10 id)).signal (.request 4 id)).signal (.request 1 id), ?_⟩
  obtain ⟨t, hrun, hdata, _⟩ := raised_served ⟨Pic.stray, Pic.stray⟩
    (fun irq => some fun served => served ++ [irq]) [] [.device (.request 10 id),
      .device (.request 4 id), .device (.request 1 id)] _ rfl rfl
  exact ⟨t, rfl, hrun, hdata⟩

end Irqs

end X32PRos
