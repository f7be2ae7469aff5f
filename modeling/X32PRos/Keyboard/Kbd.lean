import X32PRos.Video.Vga

/-!
The keyboard driver of `core/kbd.c`: the two character tables, the table of
handlers, and the interrupt handler that dispatches on the low seven bits of
the scancode. Characters go to the screen through `putch`.
-/

namespace X32PRos

structure KeyboardStates where
  shift : Bool
  alt : Bool
  ctrl : Bool
deriving DecidableEq, Repr

structure Console where
  keyboard : KeyboardStates
  vga : Vga

/-- Rows of a `char` table; what follows the last row is zero. -/
def charTable (rows : List (List Char)) : List UInt8 :=
  rows.flatten.map fun c => UInt8.ofNat c.toNat

def nul : Char := Char.ofNat 0

def kbdUs : List UInt8 := charTable [
  [nul, Char.ofNat 27],
  ['1', '2', '3', '4', '5', '6', '7', '8', '9', '0'],
  ['-', '=', Char.ofNat 8],
  [Char.ofNat 9],
  ['q', 'w', 'e', 'r', 't', 'y', 'u', 'i', 'o', 'p', '[', ']', Char.ofNat 10],
  [nul],
  ['a', 's', 'd', 'f', 'g', 'h', 'j', 'k', 'l', ';', Char.ofNat 39, Char.ofNat 96],
  [nul],
  [Char.ofNat 92, 'z', 'x', 'c', 'v', 'b', 'n', 'm', ',', '.', '/'],
  [nul],
  ['*'],
  [nul],
  [' '],
  [nul, nul, nul, nul, nul, nul, nul, nul, nul, nul, nul],
  [nul, nul, nul, nul, nul],
  ['-', nul, nul, nul, '+']]

def kbdUsL2 : List UInt8 := charTable [
  [nul, Char.ofNat 27],
  ['!', '@', '#', '$', '%', '^', '&', '*', '(', ')'],
  ['_', '+', Char.ofNat 8],
  [Char.ofNat 9],
  ['Q', 'W', 'E', 'R', 'T', 'Y', 'U', 'I', 'O', 'P', Char.ofNat 123, Char.ofNat 125, Char.ofNat 10],
  [nul],
  ['A', 'S', 'D', 'F', 'G', 'H', 'J', 'K', 'L', ':', Char.ofNat 34, '~'],
  [nul],
  ['|', 'Z', 'X', 'C', 'V', 'B', 'N', 'M', '<', '>', '?'],
  [nul],
  ['*'],
  [nul],
  [' '],
  [nul, nul, nul, nul, nul, nul, nul, nul, nul, nul, nul],
  [nul, nul, nul, nul, nul],
  ['-', nul, nul, nul, '+']]

def norm (scancode : UInt8) (s : Console) : Console :=
  let plain := kbdUs.getD scancode.toNat 0
  let level2 := kbdUsL2.getD scancode.toNat 0
  if scancode &&& 0x80 ≠ 0 then s
  else if plain = 0 then s
  else if s.keyboard.shift then { s with vga := s.vga.putch level2 }
  else if s.keyboard.ctrl then { s with vga := (s.vga.putch 94).putch level2 }
  else { s with vga := s.vga.putch plain }

def shft (_scancode : UInt8) (s : Console) : Console :=
  { s with keyboard := { s.keyboard with shift := s.keyboard.shift ^^ true } }

def altk (_scancode : UInt8) (s : Console) : Console :=
  { s with keyboard := { s.keyboard with alt := s.keyboard.alt ^^ true } }

def ctlk (_scancode : UInt8) (s : Console) : Console :=
  { s with keyboard := { s.keyboard with ctrl := s.keyboard.ctrl ^^ true } }

def func (_scancode : UInt8) (s : Console) : Console := s

inductive KeyHandler
  | norm | shft | altk | ctlk | func
deriving DecidableEq, Repr

def KeyHandler.run : KeyHandler → UInt8 → Console → Console
  | .norm => X32PRos.norm
  | .shft => X32PRos.shft
  | .altk => X32PRos.altk
  | .ctlk => X32PRos.ctlk
  | .func => X32PRos.func

def keyMethod : List (Option KeyHandler) :=
  let n := some KeyHandler.norm
  let f := some KeyHandler.func
  let z := (none : Option KeyHandler)
  [ z, z, n, n, n, n, n, n,
    n, n, n, n, n, n, n, n,
    n, n, n, n, n, n, n, n,
    n, n, n, n, n, some .ctlk, n, n,
    n, n, n, n, n, n, n, n,
    n, n, some .shft, n, n, n, n, n,
    n, n, n, n, n, n, some .shft, n,
    some .altk, n, z, f, f, f, f, f,
    f, f, f, f, f, z, z, z,
    z, z, z, z, z, z, z, z,
    z, z, z, z, z, z, z, f,
    f, z, z, z, z, z, z, z,
    z, z, z, z, z, z, z, z,
    z, z, z, z, z, z, z, z,
    z, z, z, z, z, z, z, z,
    z, z, z, z, z, z, z, z ]

/-- One keyboard interrupt, with the byte read from port 0x60. -/
def keyboardHandler (scancode : UInt8) (s : Console) : Console :=
  match keyMethod.getD (scancode &&& 0x7f).toNat none with
  | some handler => handler.run scancode s
  | none => s

end X32PRos
