import Mathlib.Logic.Function.Basic
import X32PRos.Foundation.Run

/-!
The two interrupt controllers and what `core/irq.c` does with them: the
initialisation words of `irq_remap`, the table of handlers, and the dispatch with
its end-of-interrupt commands.
-/

namespace X32PRos

open Foundation

inductive Icw
  | vectors | cascade | mode | done
deriving DecidableEq, Repr

/-- An 8259, its lines numbered from 0, the one with the highest priority. -/
structure Pic where
  requested : Nat → Bool
  inService : Nat → Bool
  masked : Nat → Bool
  base : Nat
  link : UInt8
  mode : UInt8
  awaits : Icw

namespace Pic

def lines : List Nat := [0, 1, 2, 3, 4, 5, 6, 7]

def eoi (p : Pic) : Pic :=
  match lines.find? p.inService with
  | none => p
  | some i => { p with inService := Function.update p.inService i false }

/-- A byte to the command port: the first initialisation word, which this kernel
sends with a cascade and a fourth word to follow, or the plain end of interrupt.
The commands that the kernel never sends do nothing here. -/
def command (v : UInt8) (p : Pic) : Pic :=
  if v = 0x11 then
    { p with
      requested := fun _ => false, inService := fun _ => false, masked := fun _ => false
      awaits := .vectors }
  else if v = 0x20 then p.eoi
  else p

def data (v : UInt8) (p : Pic) : Pic :=
  match p.awaits with
  | .vectors => { p with base := (v &&& 0xF8).toNat, awaits := .cascade }
  | .cascade => { p with link := v, awaits := .mode }
  | .mode => { p with mode := v, awaits := .done }
  | .done => { p with masked := fun i => v.toNat.testBit i }

/-- The line that gets through: the first that is in service or requested and not
masked, unless it is in service. -/
def ready (request : Nat → Bool) (p : Pic) : Option Nat :=
  match lines.find? fun i => p.inService i || (request i && !p.masked i) with
  | none => none
  | some i => if p.inService i ∨ p.awaits ≠ .done then none else some i

def serve (i : Nat) (p : Pic) : Pic :=
  { p with
    requested := Function.update p.requested i false
    inService := Function.update p.inService i true }

end Pic

def Pic.stray : Pic where
  requested := fun _ => true
  inService := fun _ => true
  masked := fun _ => true
  base := 0
  link := 0
  mode := 0
  awaits := .cascade

structure Pics where
  master : Pic
  slave : Pic

inductive Chip
  | master | slave
deriving DecidableEq, Repr

namespace Pics

def outportb (port : Nat) (v : UInt8) (s : Pics) : Pics :=
  if port = 0x20 then { s with master := s.master.command v }
  else if port = 0x21 then { s with master := s.master.data v }
  else if port = 0xA0 then { s with slave := s.slave.command v }
  else if port = 0xA1 then { s with slave := s.slave.data v }
  else s

def irqRemap (s : Pics) : Pics :=
  let s := s.outportb 0x20 0x11
  let s := s.outportb 0xA0 0x11
  let s := s.outportb 0x21 0x20
  let s := s.outportb 0xA1 0x28
  let s := s.outportb 0x21 0x04
  let s := s.outportb 0xA1 0x02
  let s := s.outportb 0x21 0x01
  let s := s.outportb 0xA1 0x01
  let s := s.outportb 0x21 0x0
  s.outportb 0xA1 0x0

def slaveReady (s : Pics) : Option Nat := s.slave.ready s.slave.requested

/-- The requests at the master, that of the slave among them. -/
def masterReady (s : Pics) : Option Nat :=
  s.master.ready fun i => if i = 2 then s.slaveReady.isSome else s.master.requested i

/-- The answer to the processor: a vector, and the line in service. -/
def acknowledge (s : Pics) : Option (Nat × Pics) :=
  match s.masterReady with
  | none => none
  | some 2 =>
      match s.slaveReady with
      | none => none
      | some j => some (s.slave.base + j, ⟨s.master.serve 2, s.slave.serve j⟩)
  | some i => some (s.master.base + i, ⟨s.master.serve i, s.slave⟩)

/-- The answer when the request is gone again: the lowest line, not in service. -/
def spurious (s : Pics) : Chip → Nat × Pics
  | .master => (s.master.base + 7, s)
  | .slave => (s.slave.base + 7, ⟨s.master.serve 2, s.slave⟩)

def setLine (line : Nat) (up : Bool) (s : Pics) : Pics :=
  if line < 8 then
    { s with master := { s.master with
        requested := Function.update s.master.requested line up } }
  else
    { s with slave := { s.slave with
        requested := Function.update s.slave.requested (line - 8) up } }

end Pics

/-- Line 2 has no device. -/
def DeviceLine (line : Nat) : Prop := line < 16 ∧ line ≠ 2

instance (line : Nat) : Decidable (DeviceLine line) := by
  unfold DeviceLine
  infer_instance

/-- `irq_routines`, the controllers, and the data that the handlers work on. The
handlers of this kernel do not look at the registers they are given. A request
that is withdrawn leaves the processor with an interrupt to take. -/
structure Irqs (κ : Type) where
  pics : Pics
  withdrawn : Option Chip
  routines : Nat → Option (κ → κ)
  data : κ

namespace Irqs

variable {κ : Type}

def outportb (port : Nat) (v : UInt8) (s : Irqs κ) : Irqs κ :=
  { s with pics := s.pics.outportb port v }

def irqInstallHandler (irq : Nat) (handler : κ → κ) (s : Irqs κ) : Irqs κ :=
  { s with routines := Function.update s.routines irq (some handler) }

def irqUninstallHandler (irq : Nat) (s : Irqs κ) : Irqs κ :=
  { s with routines := Function.update s.routines irq none }

def callHandler (irq : Nat) (s : Irqs κ) : Irqs κ :=
  match s.routines irq with
  | some handler => { s with data := handler s.data }
  | none => s

def irqHandler (intNo : Nat) (s : Irqs κ) : Irqs κ :=
  let s := s.callHandler (intNo - 32)
  let s := if 40 ≤ intNo then s.outportb 0xA0 0x20 else s
  s.outportb 0x20 0x20

def acknowledge (s : Irqs κ) : Option (Nat × Irqs κ) :=
  match s.pics.acknowledge with
  | some (n, pics) => some (n, { s with pics := pics, withdrawn := none })
  | none =>
      match s.withdrawn with
      | none => none
      | some chip => some ((s.pics.spurious chip).1,
          { s with pics := (s.pics.spurious chip).2, withdrawn := none })

end Irqs

/-- What happens around the controllers between two interrupts. -/
inductive Signal (κ : Type)
  /-- A device changes what its ports show and raises its line. -/
  | request (line : Nat) (effect : κ → κ)
  /-- A request goes away after the processor was told of it. -/
  | withdraw (line : Nat)
  /-- The kernel calls `irq_install_handler` or `irq_uninstall_handler`. -/
  | install (irq : Nat) (handler : Option (κ → κ))

namespace Irqs

variable {κ : Type}

def signal (s : Irqs κ) : Signal κ → Irqs κ
  | .request line effect =>
      if DeviceLine line then { s with pics := s.pics.setLine line true, data := effect s.data }
      else s
  | .withdraw line =>
      if DeviceLine line then
        { s with
          pics := s.pics.setLine line false
          withdrawn := some (if line < 8 then .master else .slave) }
      else s
  | .install irq (some handler) => s.irqInstallHandler irq handler
  | .install irq none => s.irqUninstallHandler irq

end Irqs

end X32PRos
