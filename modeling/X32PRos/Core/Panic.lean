import Mathlib.Logic.Basic

/-!
The ways in which a call of the kernel does not return: the two messages of
`core/panic.c`, after which the machine spins, an access through NULL, and a loop
that never ends. Reading a word that holds nothing yet goes on in the machine;
here it is a fault of its own, so that a run without it is one that never does.
-/

namespace X32PRos

/-- The data a panic screen shows, with `__FILE__` and `__LINE__`. -/
inductive Fault
  | assertFailed (desc file : String) (line : Nat)
  | haltAndCatchFire (message file : String) (line : Nat)
  | nullPointer
  | uninitialised
  | diverges
deriving DecidableEq, Repr

/-- `ASSERT(statement)`: it is compiled in whether or not `NDEBUG` is defined. -/
def kassert (statement : Prop) [Decidable statement] (desc file : String) (line : Nat) :
    Except Fault Unit :=
  if statement then .ok () else .error (.assertFailed desc file line)

@[simp] theorem kassert_of {statement : Prop} [Decidable statement] (h : statement)
    (desc file : String) (line : Nat) : kassert statement desc file line = .ok () :=
  if_pos h

@[simp] theorem kassert_eq_ok {statement : Prop} [Decidable statement]
    {desc file : String} {line : Nat} {u : Unit} :
    kassert statement desc file line = .ok u ↔ statement := by
  unfold kassert
  split <;> simp_all

/-! Sequencing of calls that may not return -/

@[simp] theorem ok_bind {α β : Type} (a : α) (f : α → Except Fault β) :
    ((Except.ok a : Except Fault α) >>= f) = f a := rfl

@[simp] theorem error_bind {α β : Type} (e : Fault) (f : α → Except Fault β) :
    ((Except.error e : Except Fault α) >>= f) = .error e := rfl

theorem bind_eq_ok {α β : Type} {x : Except Fault α} {f : α → Except Fault β} {b : β} :
    (x >>= f) = .ok b ↔ ∃ a, x = .ok a ∧ f a = .ok b := by
  cases x with
  | error e => simp
  | ok a => simp

end X32PRos
