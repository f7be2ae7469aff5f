import X32PRos.Core.Panic
import X32PRos.Foundation.Bytes
import X32PRos.Foundation.Loop
import X32PRos.Video.Vga

/-!
`core/kprintf.c`: one scanner over the format, with the write index `ptr` shared
by the printers of numbers. The format and the strings it prints lie in memory;
`buf` is an object of its own, also past its 1024 bytes.
-/

namespace X32PRos

open Foundation

def code (c : Char) : UInt8 := UInt8.ofNat c.toNat

def percent : UInt8 := 0x25

def backslash : UInt8 := 0x5C

/-- `buf` and `ptr`; `stored` is a ghost log of the indices written, latest first. -/
structure PrintBuf where
  buf : Nat → UInt8
  ptr : Nat
  stored : List Nat

namespace PrintBuf

def set (c : UInt8) (b : PrintBuf) : PrintBuf :=
  { b with
    buf := fun j => if j = b.ptr then c else b.buf j
    stored := b.ptr :: b.stored }

def put (c : UInt8) (b : PrintBuf) : PrintBuf := { b.set c with ptr := b.ptr + 1 }

/-- The remainder is an `int`; a negative one would be moved into range. -/
def parseNum : Nat → Nat → Nat → PrintBuf → Except Fault PrintBuf
  | 0, _, _, _ => .error .diverges
  | fuel + 1, value, base, b =>
      let n := value / base
      let r := signed (value % base)
      let n' := if r < 0 then wordSub n 1 else n
      let r' := if r < 0 then r + base else r
      if value ≥ base then
        match parseNum fuel n' base b with
        | .error e => .error e
        | .ok b => .ok (b.put (UInt8.ofInt (r' + 48)))
      else .ok (b.put (UInt8.ofInt (r' + 48)))

def hexDigits : List UInt8 :=
  ['0', '1', '2', '3', '4', '5', '6', '7', '8', '9', 'a', 'b', 'c', 'd', 'e', 'f'].map code

/-- The turns of `while (i-- > 0)` that are left. -/
def parseHexFrom : Nat → Nat → PrintBuf → PrintBuf
  | 0, _, b => b
  | i + 1, value, b => parseHexFrom i value (b.put (hexDigits.getD ((value >>> (i * 4)) &&& 0xF) 0))

def parseHex (value : Nat) (b : PrintBuf) : PrintBuf := b.parseHexFrom 8 value

def copyString (mem : Memory) (fuel : Nat) (s : Nat) (b : PrintBuf) :
    Except Fault (Nat × PrintBuf) :=
  Loop.loop (fun s => .ok (decide (mem s.1 ≠ 0))) (fun s => .ok (s.1 + 1, s.2.put (mem s.1)))
    .diverges fuel (s, b)

def escape (c : UInt8) (b : PrintBuf) : PrintBuf :=
  if c = code 'a' then b.put 7
  else if c = code 'b' then b.put 8
  else if c = code 't' then b.put 9
  else if c = code 'n' then b.put 10
  else if c = code 'r' then b.put 13
  else if c = backslash then b.put backslash
  else b

end PrintBuf

/-- The locals `i` and `args` of the scan, with the buffer. `args` counts the words
taken by `args_next` so far. -/
structure Scan where
  i : Nat
  args : Nat
  out : PrintBuf

namespace Scan

def convert (fuel : Nat) (mem : Memory) (args : Nat → Nat) (c : UInt8) (s : Scan) :
    Except Fault Scan :=
  if c = code 's' then
    match s.out.copyString mem fuel (args s.args) with
    | .error e => .error e
    | .ok r => .ok { s with args := s.args + 1, out := r.2 }
  else if c = code 'c' then
    .ok { s with args := s.args + 1, out := s.out.put (UInt8.ofNat (args s.args)) }
  else if c = code 'x' then
    .ok { s with args := s.args + 1, out := s.out.parseHex (args s.args) }
  else if c = code 'd' then
    match s.out.parseNum fuel (args s.args) 10 with
    | .error e => .error e
    | .ok b => .ok { s with args := s.args + 1, out := b }
  else if c = percent then .ok { s with out := s.out.put percent }
  else .ok { s with out := s.out.put c }

/-- The body of the scan and its `++i`. -/
def turn (fuel : Nat) (mem : Memory) (fmt : Nat) (args : Nat → Nat) (s : Scan) :
    Except Fault Scan :=
  if mem (fmt + s.i) ≠ percent ∧ mem (fmt + s.i) ≠ backslash then
    .ok { s with i := s.i + 1, out := s.out.put (mem (fmt + s.i)) }
  else if mem (fmt + s.i) = backslash then
    .ok { s with i := s.i + 1 + 1, out := s.out.escape (mem (fmt + (s.i + 1))) }
  else
    match s.convert fuel mem args (mem (fmt + (s.i + 1))) with
    | .error e => .error e
    | .ok s => .ok { s with i := s.i + 1 + 1 }

end Scan

/-- The words behind `fmt` on the stack are `args`. What `puts` is handed is `buf`, in which
there is a NUL at `ptr` at the latest. -/
def kprintf (fuel : Nat) (mem : Memory) (fmt : Nat) (args : Nat → Nat) (b : PrintBuf) (v : Vga) :
    Except Fault (PrintBuf × Vga) :=
  match Loop.loop (fun s : Scan => .ok (decide (mem (fmt + s.i) ≠ 0))) (Scan.turn fuel mem fmt args)
      .diverges fuel ⟨0, 0, { b with ptr := 0 }⟩ with
  | .error e => .error e
  | .ok s =>
      let b := s.out.set 0
      .ok (b, v.puts ((List.range (b.ptr + 1)).map b.buf))

end X32PRos
