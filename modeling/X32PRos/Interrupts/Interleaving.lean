import Mathlib.Logic.Function.Iterate
import X32PRos.Foundation.Run
import X32PRos.Interrupts.Stubs

/-!
Interrupts between the instructions of a program. Whatever the order of the
instructions, the requests of the devices and the interrupts taken, a run is the
run of the program alone and the run of the handlers alone, side by side.
-/

namespace X32PRos

open Foundation

structure MemoryMap where
  floor : Nat
  ceiling : Nat
  table : UInt32
  apart : table.toNat + 2048 ≤ floor ∨ ceiling ≤ table.toNat

/-- The processor states agree in the registers and in the bytes that matter to
the first of them. -/
def Cpu.Alike (live : Cpu → Nat → Prop) (c c' : Cpu) : Prop :=
  { c' with mem := c.mem } = c ∧ ∀ x, live c x → c'.mem x = c.mem x

/-- Code that runs with interrupts on: no byte between the floor and the top of its
stack matters to it, and it leaves the interrupt table alone. -/
structure Program (layout : MemoryMap) where
  step : Cpu → Cpu
  live : Cpu → Nat → Prop
  above : ∀ c x, live c x → x < layout.floor ∨ c.esp.toNat ≤ x
  insensitive : ∀ c c', Cpu.Alike live c c' → Cpu.Alike live (step c) (step c')
  spares : ∀ c x, layout.table.toNat ≤ x → x < layout.table.toNat + 2048 →
    (step c).mem x = c.mem x

/-- The next instruction of the program, something a device does, or the processor
takes the interrupt that is due. -/
inductive Event (δ : Type)
  | step
  | device (d : δ)
  | accept

def ownSteps {δ : Type} : List (Event δ) → Nat
  | [] => 0
  | .step :: es => ownSteps es + 1
  | .device _ :: es => ownSteps es
  | .accept :: es => ownSteps es

def Machine.take {σ : Type} (p : Processor) (image : Image σ) (idtr : TablePtr) (n : Nat)
    (error : UInt32) (m : Machine σ) : Option (Machine σ) :=
  match fetchGate m.cpu.mem idtr n with
  | none => none
  | some gate =>
      some (Machine.run p image.text (image.code gate.offset)
        ⟨m.cpu.deliver p n error gate, m.kernel⟩)

section

variable {σ δ : Type} {layout : MemoryMap}

/-- One event of the machine. `acknowledge` is how the interrupt controller answers
with a vector, if it has one; nothing is taken while interrupts are off. -/
def Machine.next (p : Processor) (image : Image σ) (program : Program layout)
    (raise : δ → σ → σ) (acknowledge : σ → Option (Nat × σ)) (m : Machine σ) :
    Event δ → Except Unit (Machine σ)
  | .step => .ok ⟨program.step m.cpu, m.kernel⟩
  | .device d => .ok ⟨m.cpu, raise d m.kernel⟩
  | .accept =>
      if m.cpu.Enabled then
        match acknowledge m.kernel with
        | none => .error ()
        | some (n, k) =>
            match Machine.take p image ⟨8 * 256 - 1, layout.table⟩ n 0 ⟨m.cpu, k⟩ with
            | none => .error ()
            | some m' => .ok m'
      else .error ()

/-- The same event without the program. `act n` is what the handler does about
vector `n`. -/
def kernelNext (act : Nat → σ → σ) (raise : δ → σ → σ) (acknowledge : σ → Option (Nat × σ))
    (k : σ) : Event δ → Except Unit σ
  | .step => .ok k
  | .device d => .ok (raise d k)
  | .accept =>
      match acknowledge k with
      | none => .error ()
      | some (n, k) => .ok (act n k)

def Machine.Room (layout : MemoryMap) (image : Image σ) (m : Machine σ) : Prop :=
  m.cpu.esp.toNat ≤ layout.ceiling ∧
    ∀ n < 48, layout.floor + image.reach n ≤ m.cpu.esp.toNat

/-- What the projections rest on: the stubs are where the table says, the
controller answers with the vectors of `irq_remap` as long as `inv` holds, none of
them has an error code, and the handler acts on the number alone. -/
structure Wired (p : Processor) (image : Image σ) (inv : σ → Prop) (raise : δ → σ → σ)
    (acknowledge : σ → Option (Nat × σ)) (act : Nat → σ → σ) : Prop where
  loaded : image.Loaded
  plain : ∀ n, 32 ≤ n → n < 48 → p.pushesError n = false
  acts : ∀ n, 32 ≤ n → n < 48 → ∀ r : Regs, r.intNo.toNat = n →
    ∀ k, (image.handler n).body r k = act n k
  vectors : ∀ k n k', inv k → acknowledge k = some (n, k') → 32 ≤ n ∧ n < 48
  raised : ∀ d k, inv k → inv (raise d k)
  handled : ∀ k n k', inv k → acknowledge k = some (n, k') → inv (act n k')

def Image.idt (image : Image σ) (table : UInt32) : Idt :=
  (bootIdt table image.entry fun i => image.entry (32 + i)).1

structure Cpu.Beside (image : Image σ) (program : Program layout) (alone c : Cpu) : Prop where
  alike : Cpu.Alike program.live alone c
  table : IdtAt c.mem layout.table.toNat (image.idt layout.table)

theorem BytesAt.congr {m m' : Memory} {bytes : List UInt8} {a : Nat} (h : BytesAt m a bytes)
    (hsame : ∀ x, a ≤ x → x < a + bytes.length → m' x = m x) : BytesAt m' a bytes := by
  induction bytes generalizing a with
  | nil => exact trivial
  | cons b bytes ih =>
      rw [List.length_cons] at hsame
      constructor
      · rw [hsame a (Nat.le_refl a) (by omega)]
        exact h.1
      · apply ih h.2
        intro x hlow hhigh
        apply hsame x <;> omega

theorem IdtAt.congr {m m' : Memory} {base : Nat} {idt : Idt} (h : IdtAt m base idt)
    (hsame : ∀ x, base ≤ x → x < base + 2048 → m' x = m x) : IdtAt m' base idt := by
  intro v
  have hv := v.toNat_lt
  apply (h v).congr
  intro x hlow hhigh
  have hlength : (idt v).bytes.length = 8 := rfl
  rw [hlength] at hhigh
  apply hsame x <;> omega

/-- The processor reaches the stub of every vector that the controller gives. -/
theorem Machine.take_eq {p : Processor} {image : Image σ} {table : UInt32} {n : Nat}
    {error : UInt32} {m : Machine σ} (hloaded : image.Loaded) (hn : n < 48)
    (htable : IdtAt m.cpu.mem table.toNat (image.idt table)) :
    Machine.take p image ⟨8 * 256 - 1, table⟩ n error m =
      some (m.interrupt p image (stubGate (image.entry n)) n error) := by
  have hfetch := boot_vectors m.cpu.mem table image.entry (fun i => image.entry (32 + i)) htable n
  have hgate : vectorGate image.entry (fun i => image.entry (32 + i)) n =
      some (stubGate (image.entry n)) := by
    unfold vectorGate
    by_cases hisr : n < 32
    · rw [if_pos hisr]
    · have hback : 32 + (n - 32) = n := by omega
      rw [if_neg hisr, if_pos hn]
      dsimp only
      rw [hback]
  have hcode : image.code (stubGate (image.entry n)).offset = image.stub n := hloaded n hn
  rw [hgate] at hfetch
  have hfetch : fetchGate m.cpu.mem ⟨8 * 256 - 1, table⟩ n = _ := hfetch
  rw [Machine.take, hfetch, Machine.interrupt, ← hcode]

variable {p : Processor} {image : Image σ} {program : Program layout} {raise : δ → σ → σ}
  {acknowledge : σ → Option (Nat × σ)} {act : Nat → σ → σ} {inv : σ → Prop}

/-- An interrupt taken beside the program: the program does not see it, and the
kernel's data is as the handler left it. -/
theorem Cpu.Beside.take (hwired : Wired p image inv raise acknowledge act) {alone c : Cpu}
    {k k' : σ} {n : Nat} (hinv : inv k) (h : Cpu.Beside image program alone c)
    (hroom : Machine.Room layout image ⟨c, k⟩) (hack : acknowledge k = some (n, k')) :
    ∃ c', Machine.take p image ⟨8 * 256 - 1, layout.table⟩ n 0 ⟨c, k'⟩ = some ⟨c', act n k'⟩ ∧
      Cpu.Beside image program alone c' := by
  obtain ⟨hlow, hn⟩ := hwired.vectors k n k' hinv hack
  have hceiling : c.esp.toNat ≤ layout.ceiling := hroom.1
  have hfloor : layout.floor + image.reach n ≤ c.esp.toNat := hroom.2 n hn
  have hcode : p.pushesError n = decide (n ∈ isrErr) := by
    have houtside : n ∉ isrErr := by
      unfold isrErr
      simp only [List.mem_cons, List.not_mem_nil, or_false]
      omega
    rw [hwired.plain n hlow hn, decide_eq_false houtside]
  generalize hm' : Machine.interrupt p image (stubGate (image.entry n)) n 0 ⟨c, k'⟩ = m'
  have hunseen : Machine.Transparent image n 0 ⟨c, k'⟩ m' := by
    rw [← hm']
    exact Machine.interrupt_transparent ⟨c, k'⟩ hn hcode (by
      change image.reach n ≤ c.esp.toNat
      omega)
  obtain ⟨⟨entry, hentered, hkernel⟩, hregisters, hkept⟩ := hunseen
  have hacted : m'.kernel = act n k' :=
    hkernel.trans (hwired.acts n hlow hn _ hentered.regs.intNo k')
  have hoff : ∀ x, x < layout.floor ∨ c.esp.toNat ≤ x → m'.cpu.mem x = c.mem x := by
    intro x hx
    apply hkept
    change x < c.esp.toNat - image.reach n ∨ c.esp.toNat ≤ x
    omega
  refine ⟨m'.cpu, ?_, ?_, ?_⟩
  · rw [Machine.take_eq hwired.loaded hn (m := ⟨c, k'⟩) h.table, hm', ← hacted]
  · obtain ⟨hsame, hlive⟩ := h.alike
    constructor
    · rw [hregisters]
      exact hsame
    · intro x hx
      have hesp := congrArg Cpu.esp hsame
      have hesp : c.esp = alone.esp := hesp
      have houtside := program.above alone x hx
      rw [← hesp] at houtside
      exact (hoff x houtside).trans (hlive x hx)
  · apply h.table.congr
    intro x hlowTable hhighTable
    apply hoff
    have hapart := layout.apart
    omega

theorem Machine.next_accept (program : Program layout) (raise : δ → σ → σ) {m m' : Machine σ}
    {n : Nat} {k : σ} (henabled : m.cpu.Enabled) (hack : acknowledge m.kernel = some (n, k))
    (htake : Machine.take p image ⟨8 * 256 - 1, layout.table⟩ n 0 ⟨m.cpu, k⟩ = some m') :
    Machine.next p image program raise acknowledge m .accept = .ok m' := by
  simp only [Machine.next, if_pos henabled, hack, htake]

/-- One event keeps the machine beside the program and the handlers alone. -/
theorem Cpu.Beside.next (hwired : Wired p image inv raise acknowledge act) {alone : Cpu}
    {m m' : Machine σ} {e : Event δ} (hinv : inv m.kernel)
    (h : Cpu.Beside image program alone m.cpu)
    (hroom : e = .accept → Machine.Room layout image m)
    (hnext : Machine.next p image program raise acknowledge m e = .ok m') :
    kernelNext act raise acknowledge m.kernel e = .ok m'.kernel ∧ inv m'.kernel ∧
      Cpu.Beside image program (program.step^[ownSteps [e]] alone) m'.cpu := by
  cases e with
  | step =>
      cases hnext
      refine ⟨rfl, hinv, program.insensitive _ _ h.alike, ?_⟩
      apply h.table.congr
      exact program.spares m.cpu
  | device d =>
      cases hnext
      exact ⟨rfl, hwired.raised d _ hinv, h⟩
  | accept =>
      have hroom := hroom rfl
      unfold Machine.next at hnext
      unfold kernelNext
      by_cases henabled : m.cpu.Enabled
      · cases hack : acknowledge m.kernel with
        | none =>
            rw [if_pos henabled, hack] at hnext
            cases hnext
        | some answer =>
            obtain ⟨n, k'⟩ := answer
            obtain ⟨c', htake, hbeside⟩ := h.take hwired hinv hroom hack
            rw [if_pos henabled, hack] at hnext
            simp only [htake] at hnext
            cases hnext
            exact ⟨rfl, hwired.handled _ n k' hinv hack, hbeside⟩
      · rw [if_neg henabled] at hnext
        cases hnext

theorem ownSteps_cons (e : Event δ) (es : List (Event δ)) :
    ownSteps (e :: es) = ownSteps es + ownSteps [e] := by
  cases e <;> rfl

theorem Cpu.Beside.run (hwired : Wired p image inv raise acknowledge act)
    {events : List (Event δ)} {alone : Cpu} {m m' : Machine σ} (hinv : inv m.kernel)
    (h : Cpu.Beside image program alone m.cpu)
    (hroom : Run.Each (Machine.next p image program raise acknowledge)
      (fun m e => e = .accept → Machine.Room layout image m) m events)
    (hrun : Run.exec (Machine.next p image program raise acknowledge) m events = .ok m') :
    Run.exec (kernelNext act raise acknowledge) m.kernel events = .ok m'.kernel ∧
      Cpu.Beside image program (program.step^[ownSteps events] alone) m'.cpu := by
  induction events generalizing m alone with
  | nil =>
      cases hrun
      exact ⟨rfl, h⟩
  | cons e es ih =>
      rw [Run.exec] at hrun
      cases hnext : Machine.next p image program raise acknowledge m e with
      | error u =>
          rw [hnext] at hrun
          cases hrun
      | ok m₁ =>
          rw [hnext] at hrun
          obtain ⟨hkernel, hinv₁, hbeside⟩ := h.next hwired hinv hroom.1 hnext
          obtain ⟨hrest, hdone⟩ := ih hinv₁ hbeside (hroom.2 m₁ hnext) hrun
          rw [← Function.iterate_add_apply, ← ownSteps_cons] at hdone
          constructor
          · rw [Run.exec, hkernel]
            exact hrest
          · exact hdone

/-- Whatever the interleaving, the program ends where it ends by itself, in all its
registers and in every byte that matters to it, and the kernel's data is what the
handlers alone make of the same devices. -/
theorem interrupts_unseen (hwired : Wired p image inv raise acknowledge act)
    (events : List (Event δ)) (m m' : Machine σ) (hinv : inv m.kernel)
    (htable : IdtAt m.cpu.mem layout.table.toNat (image.idt layout.table))
    (hroom : Run.Each (Machine.next p image program raise acknowledge)
      (fun m e => e = .accept → Machine.Room layout image m) m events)
    (hrun : Run.exec (Machine.next p image program raise acknowledge) m events = .ok m') :
    Cpu.Alike program.live (program.step^[ownSteps events] m.cpu) m'.cpu ∧
      Run.exec (kernelNext act raise acknowledge) m.kernel events = .ok m'.kernel := by
  have hstart : Cpu.Beside image program m.cpu m.cpu := ⟨⟨rfl, fun _ _ => rfl⟩, htable⟩
  obtain ⟨hkernel, hbeside⟩ := hstart.run hwired hinv hroom hrun
  exact ⟨hbeside.alike, hkernel⟩

end

end X32PRos
