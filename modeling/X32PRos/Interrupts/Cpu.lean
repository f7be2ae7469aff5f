import X32PRos.Foundation.CallStack
import X32PRos.Interrupts.Descriptors

/-!
The part of the processor that the stubs of `start.asm` use, in 32-bit protected
mode at ring 0, and `struct regs` of `include/kernel.h`. The stubs run straight
through, so the instruction pointer is followed only into and out of them.
-/

namespace X32PRos

open Foundation

structure Cpu where
  eax : UInt32
  ecx : UInt32
  edx : UInt32
  ebx : UInt32
  esp : UInt32
  ebp : UInt32
  esi : UInt32
  edi : UInt32
  eip : UInt32
  eflags : UInt32
  cs : UInt16
  ds : UInt16
  es : UInt16
  fs : UInt16
  gs : UInt16
  ss : UInt16
  mem : Memory

structure Processor where
  /-- The vectors that come with an error code. -/
  pushesError : Nat → Bool
  /-- A pushed selector is written as a word with a zero upper half; if not, the
  upper half of the slot stays as it was. -/
  zeroExtends : Bool

inductive Seg
  | ds | es | fs | gs
deriving DecidableEq, Repr

inductive Instr
  | cli
  | pushByte (n : UInt8)
  | pusha
  | popa
  | pushSeg (s : Seg)
  | popSeg (s : Seg)
  | movAx (v : UInt16)
  | movSegAx (s : Seg)
  | movEaxEsp
  | movEax (v : UInt32)
  | pushEax
  | popEax
  | callEax
  | addEsp (n : UInt32)
  | iret
deriving DecidableEq, Repr

namespace Cpu

def push (v : UInt32) (c : Cpu) : Cpu :=
  { c with esp := c.esp - 4, mem := c.mem.store32 (c.esp - 4).toNat v.toNat }

def pushSelector (p : Processor) (v : UInt16) (c : Cpu) : Cpu :=
  { c with
    esp := c.esp - 4
    mem :=
      if p.zeroExtends then c.mem.store32 (c.esp - 4).toNat v.toNat
      else c.mem.store16 (c.esp - 4).toNat v.toNat }

def selector (c : Cpu) : Seg → UInt16
  | .ds => c.ds
  | .es => c.es
  | .fs => c.fs
  | .gs => c.gs

def setSelector (v : UInt16) (c : Cpu) : Seg → Cpu
  | .ds => { c with ds := v }
  | .es => { c with es := v }
  | .fs => { c with fs := v }
  | .gs => { c with gs := v }

def pushSeg (p : Processor) (s : Seg) (c : Cpu) : Cpu := c.pushSelector p (c.selector s)

def interruptFlag : UInt32 := 0x200

/-- The flags that entering an interrupt gate clears: IF, TF, NT, RF and VM. -/
def gateFlags : UInt32 := 0x34300

def statusFlags : UInt32 := 0x8D5

def Enabled (c : Cpu) : Prop := c.eflags &&& interruptFlag ≠ 0

instance (c : Cpu) : Decidable c.Enabled := by
  unfold Enabled
  infer_instance

/-- Entering vector `n` through its gate, without a change of ring. -/
def deliver (p : Processor) (n : Nat) (error : UInt32) (gate : Gate) (c : Cpu) : Cpu :=
  let saved := ((c.push c.eflags).pushSelector p c.cs).push c.eip
  let saved := if p.pushesError n then saved.push error else saved
  { saved with
    eip := gate.offset, cs := gate.selector, eflags := saved.eflags &&& ~~~gateFlags }

/-- `pusha` stores the stack pointer as it was before the first push. -/
def pusha (c : Cpu) : Cpu :=
  ((((((((c.push c.eax).push c.ecx).push c.edx).push c.ebx).push c.esp).push c.ebp).push c.esi).push
    c.edi)

def peek (i : Nat) (c : Cpu) : UInt32 :=
  UInt32.ofNat (c.mem.load32 (c.esp + UInt32.ofNat (4 * i)).toNat)

def peekSelector (i : Nat) (c : Cpu) : UInt16 :=
  UInt16.ofNat (c.mem.load16 (c.esp + UInt32.ofNat (4 * i)).toNat)

/-- Eight words are popped; the stored stack pointer, the fourth, goes nowhere. -/
def popa (c : Cpu) : Cpu :=
  { c with
    edi := c.peek 0, esi := c.peek 1, ebp := c.peek 2, ebx := c.peek 4, edx := c.peek 5
    ecx := c.peek 6, eax := c.peek 7, esp := c.esp + 32 }

def popSeg (s : Seg) (c : Cpu) : Cpu :=
  { c.setSelector (c.peekSelector 0) s with esp := c.esp + 4 }

def iret (c : Cpu) : Cpu :=
  { c with eip := c.peek 0, cs := c.peekSelector 1, eflags := c.peek 2, esp := c.esp + 12 }

end Cpu

structure Regs where
  gs : UInt32
  fs : UInt32
  es : UInt32
  ds : UInt32
  edi : UInt32
  esi : UInt32
  ebp : UInt32
  esp : UInt32
  ebx : UInt32
  edx : UInt32
  ecx : UInt32
  eax : UInt32
  intNo : UInt32
  errCode : UInt32
  eip : UInt32
  cs : UInt32
  eflags : UInt32
  useresp : UInt32
  ss : UInt32

def Regs.load (m : Memory) (r : Nat) : Regs :=
  let field := fun i => UInt32.ofNat (m.load32 (r + 4 * i))
  { gs := field 0, fs := field 1, es := field 2, ds := field 3, edi := field 4, esi := field 5,
    ebp := field 6, esp := field 7, ebx := field 8, edx := field 9, ecx := field 10,
    eax := field 11, intNo := field 12, errCode := field 13, eip := field 14, cs := field 15,
    eflags := field 16, useresp := field 17, ss := field 18 }

/-- What a compiled function leaves in places it need not restore: three
registers, the status flags, and the stack from its own argument down. -/
structure Leftover where
  eax : UInt32
  ecx : UInt32
  edx : UInt32
  flags : UInt32
  mem : Memory

/-- A function of the kernel with one parameter, a pointer to `struct regs`.
`body` is what it does to the kernel, `depth` how far below its argument it uses
the stack, its return address included. -/
structure CFunction (σ : Type) where
  body : Regs → σ → σ
  depth : Nat
  leftover : Cpu → σ → Leftover

structure Machine (σ : Type) where
  cpu : Cpu
  kernel : σ

namespace CFunction

variable {σ : Type}

def call (f : CFunction σ) (m : Machine σ) : Machine σ :=
  let c := m.cpu
  let l := f.leftover c m.kernel
  { cpu := { c with
      eax := l.eax, ecx := l.ecx, edx := l.edx
      eflags := (c.eflags &&& ~~~Cpu.statusFlags) ||| (l.flags &&& Cpu.statusFlags)
      mem := fun x =>
        if c.esp.toNat - f.depth ≤ x ∧ x < c.esp.toNat + 4 then l.mem x else c.mem x }
    kernel := f.body (Regs.load c.mem (c.mem.load32 c.esp.toNat)) m.kernel }

end CFunction

namespace Machine

variable {σ : Type}

/-- The operand of `push byte` as a word. -/
def signExtend (n : UInt8) : UInt32 :=
  if n < 0x80 then n.toUInt32 else n.toUInt32 ||| 0xFFFFFF00

def exec (p : Processor) (text : UInt32 → CFunction σ) (m : Machine σ) : Instr → Machine σ
  | .cli => ⟨{ m.cpu with eflags := m.cpu.eflags &&& ~~~Cpu.interruptFlag }, m.kernel⟩
  | .pushByte n => ⟨m.cpu.push (signExtend n), m.kernel⟩
  | .pusha => ⟨m.cpu.pusha, m.kernel⟩
  | .popa => ⟨m.cpu.popa, m.kernel⟩
  | .pushSeg s => ⟨m.cpu.pushSeg p s, m.kernel⟩
  | .popSeg s => ⟨m.cpu.popSeg s, m.kernel⟩
  | .movAx v => ⟨{ m.cpu with eax := (m.cpu.eax &&& 0xFFFF0000) ||| v.toUInt32 }, m.kernel⟩
  | .movSegAx s => ⟨m.cpu.setSelector m.cpu.eax.toUInt16 s, m.kernel⟩
  | .movEaxEsp => ⟨{ m.cpu with eax := m.cpu.esp }, m.kernel⟩
  | .movEax v => ⟨{ m.cpu with eax := v }, m.kernel⟩
  | .pushEax => ⟨m.cpu.push m.cpu.eax, m.kernel⟩
  | .popEax => ⟨{ m.cpu with eax := m.cpu.peek 0, esp := m.cpu.esp + 4 }, m.kernel⟩
  | .callEax => (text m.cpu.eax).call m
  | .addEsp n => ⟨{ m.cpu with esp := m.cpu.esp + n }, m.kernel⟩
  | .iret => ⟨m.cpu.iret, m.kernel⟩

def run (p : Processor) (text : UInt32 → CFunction σ) (code : List Instr) (m : Machine σ) :
    Machine σ :=
  code.foldl (exec p text) m

end Machine

/-! Pushes and pops against the list of what lies on the stack -/

/-- `items` lie on the stack of `c`, in memory as in `m₀` outside `low` to `top`. -/
def Cpu.Stacked (low top : Nat) (m₀ : Memory) (items : List StackItem) (c : Cpu) : Prop :=
  OnStack low top m₀ c.mem c.esp.toNat items

namespace Cpu.Stacked

variable {low top : Nat} {m₀ : Memory} {items : List StackItem} {item : StackItem} {c : Cpu}

theorem room_below (h : Stacked low top m₀ items c)
    (hroom : low + 4 * (items.length + 1) ≤ top) : low + 4 ≤ c.esp.toNat := by
  have hcount := h.count
  omega

theorem lowered (h : Stacked low top m₀ items c) (hroom : low + 4 * (items.length + 1) ≤ top) :
    (c.esp - 4).toNat = c.esp.toNat - 4 := by
  have hle := h.room_below hroom
  apply UInt32.toNat_sub_of_le
  change (4 : Nat) ≤ c.esp.toNat
  omega

theorem push (h : Stacked low top m₀ items c) (v : UInt32)
    (hroom : low + 4 * (items.length + 1) ≤ top) :
    Stacked low top m₀ (.word v :: items) (c.push v) := by
  change OnStack low top m₀ (c.mem.store32 (c.esp - 4).toNat v.toNat) (c.esp - 4).toNat _
  rw [h.lowered hroom]
  exact h.push_word (h.room_below hroom) v

theorem pushSelector (h : Stacked low top m₀ items c) (p : Processor) (v : UInt16)
    (hroom : low + 4 * (items.length + 1) ≤ top) :
    Stacked low top m₀ (.half v :: items) (c.pushSelector p v) := by
  have hle := h.room_below hroom
  change OnStack low top m₀ (if _ then _ else _) (c.esp - 4).toNat _
  rw [h.lowered hroom]
  cases p.zeroExtends with
  | true => exact h.push_extended hle v
  | false => exact h.push_half hle v

theorem pushAll (values : List UInt32) (h : Stacked low top m₀ items c)
    (hroom : low + 4 * (items.length + values.length) ≤ top) :
    Stacked low top m₀ (values.reverse.map .word ++ items)
      (values.foldl (fun c v => c.push v) c) := by
  induction values generalizing items c with
  | nil => exact h
  | cons v values ih =>
      rw [List.length_cons] at hroom
      have hpushed := h.push v (by omega)
      have hall := ih hpushed (by rw [List.length_cons]; omega)
      rw [List.reverse_cons, List.map_append, List.append_assoc]
      exact hall

/-- Only the memory and the stack pointer matter. -/
theorem congr (h : Stacked low top m₀ items c) {c' : Cpu} (hmem : c'.mem = c.mem)
    (hesp : c'.esp = c.esp) : Stacked low top m₀ items c' := by
  unfold Stacked
  rw [hmem, hesp]
  exact h

/-- Moving the stack pointer up inside what was pushed does not wrap around. -/
theorem raised (h : Stacked low top m₀ items c) (htop : top < 2 ^ 32) {n : Nat}
    (hn : n ≤ 4 * items.length) : (c.esp + UInt32.ofNat n).toNat = c.esp.toNat + n := by
  have hcount := h.count
  rw [UInt32.toNat_add, UInt32.toNat_ofNat']
  omega

theorem discard (front : List StackItem) (h : Stacked low top m₀ (front ++ items) c)
    (htop : top < 2 ^ 32) {c' : Cpu} (hmem : c'.mem = c.mem)
    (hesp : c'.esp = c.esp + UInt32.ofNat (4 * front.length)) : Stacked low top m₀ items c' := by
  unfold Stacked
  rw [hmem, hesp, h.raised htop (by rw [List.length_append]; omega)]
  exact OnStack.discard h

theorem peek_eq (h : Stacked low top m₀ items c) (htop : top < 2 ^ 32) {i : Nat} {v : UInt32}
    (hi : items[i]? = some (.word v)) : c.peek i = v := by
  have hlt : i < items.length := (List.getElem?_eq_some_iff.mp hi).1
  have hword : c.mem.load32 (c.esp.toNat + 4 * i) = v.toNat := h.item_at hi
  rw [Cpu.peek, h.raised htop (by omega), hword, UInt32.ofNat_toNat]

theorem peekSelector_eq (h : Stacked low top m₀ items c) (htop : top < 2 ^ 32) {i : Nat}
    {v : UInt16} (hi : items[i]? = some (.half v)) : c.peekSelector i = v := by
  have hlt : i < items.length := (List.getElem?_eq_some_iff.mp hi).1
  have hhalf : c.mem.load16 (c.esp.toNat + 4 * i) = v.toNat := h.item_at hi
  rw [Cpu.peekSelector, h.raised htop (by omega), hhalf, UInt16.ofNat_toNat]

end Cpu.Stacked

end X32PRos
