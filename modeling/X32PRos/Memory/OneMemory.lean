import X32PRos.Core.Kernel
import X32PRos.Foundation.Words
import X32PRos.Memory.Paging

/-!
`core/mem.c` and what `main.c` does with it, over one memory: the copy of the
boot header, the frame bitmap, the page directory and the page tables are bytes
at the addresses that the placement allocator gives out, and nothing keeps them
apart but these addresses. Once the processor translates addresses, every access
goes through the same tables that the code writes.

The accessed and dirty bits that the processor sets in an entry are left out:
nothing reads them.
-/

namespace X32PRos

open Foundation

def multibootSize : Nat := 24 * 4

/-- A `page_t` as a word: the flags from bit 0 on, the frame in the top 20 bits. -/
def Page.encode (page : Page) : Nat :=
  page.present.toNat + 2 * page.rw.toNat + 4 * page.user.toNat + 8 * page.accessed.toNat +
    16 * page.dirty.toNat + 32 * page.unused.toNat + 4096 * page.frame.toNat

def Page.decode (word : Nat) : Page where
  present := word.testBit 0
  rw := word.testBit 1
  user := word.testBit 2
  accessed := word.testBit 3
  dirty := word.testBit 4
  unused := BitVec.ofNat 7 (word / 32)
  frame := BitVec.ofNat 20 (word / 4096)

/-- The walk of the processor. An entry that is not present ends it. -/
def translateFrom (mem : Memory) (cr3 x : Nat) : Option Nat :=
  let pde := mem.load32 (pageBase cr3 + 4 * (x / 0x400000))
  let pte := mem.load32 (pageBase pde + 4 * (x / 0x1000 % 1024))
  if pde % 2 = 1 ∧ pte % 2 = 1 then some (pageBase pte + x % 0x1000) else none

/-- The globals of `core/mem.c`, the register that the processor walks from, and
bit 31 of CR0. The addresses of the page tables made, latest first, are a ghost. -/
structure Boot where
  mem : Memory
  placementPointer : Nat
  frames : Nat
  nframes : UInt32
  kernelDirectory : Nat
  heapEnd : Nat
  cr3 : Nat
  paging : Bool
  made : List Nat

namespace Boot

/-! ### Accesses -/

def physical (s : Boot) (x : Nat) : Option Nat :=
  if s.paging then translateFrom s.mem s.cr3 (x % 2 ^ 32) else some (x % 2 ^ 32)

def pageFault : Fault := .haltAndCatchFire "Page fault" "mem.c" 230

def store8 (a : Nat) (v : UInt8) (s : Boot) : Except Fault Boot :=
  match s.physical a with
  | none => .error pageFault
  | some p => .ok { s with mem := s.mem.store8 p v }

def load32 (a : Nat) (s : Boot) : Except Fault Nat :=
  match s.physical a, s.physical (a + 1), s.physical (a + 2), s.physical (a + 3) with
  | some p₀, some p₁, some p₂, some p₃ =>
      .ok ((s.mem p₀).toNat + 2 ^ 8 * (s.mem p₁).toNat + 2 ^ 16 * (s.mem p₂).toNat +
        2 ^ 24 * (s.mem p₃).toNat)
  | _, _, _, _ => .error pageFault

/-- All bytes of the word are looked up before the first one is written. -/
def store32 (a v : Nat) (s : Boot) : Except Fault Boot :=
  match s.physical a, s.physical (a + 1), s.physical (a + 2), s.physical (a + 3) with
  | some p₀, some p₁, some p₂, some p₃ =>
      .ok { s with
        mem := (((s.mem.store8 p₀ (UInt8.ofNat v)).store8 p₁ (UInt8.ofNat (v / 2 ^ 8))).store8 p₂
          (UInt8.ofNat (v / 2 ^ 16))).store8 p₃ (UInt8.ofNat (v / 2 ^ 24)) }
  | _, _, _, _ => .error pageFault

def fill (b : Nat) (val : UInt8) : Nat → Boot → Except Fault Boot
  | 0, s => .ok s
  | n + 1, s => s.fill b val n >>= store8 (b + n) val

/-! ### Frames -/

def allocator (s : Boot) : FrameAllocator := ⟨s.mem.words s.frames, s.nframes⟩

def scanFrames (s : Boot) : Nat → Nat → Except Fault Nat
  | _, 0 => .ok FrameAllocator.noFrame
  | i, n + 1 => do
      let word := BitVec.ofNat 32 (← s.load32 (s.frames + 4 * i))
      if word ≠ 0xFFFFFFFF#32 then
        match (List.range 32).findSome? fun j =>
          if word &&& (1#32 <<< j) = 0#32 then some (i * 0x20 + j) else none with
        | some f => .ok f
        | none => s.scanFrames (i + 1) n
      else s.scanFrames (i + 1) n

def firstFrame (s : Boot) : Except Fault Nat := s.scanFrames 0 (indexFromBit s.nframes.toNat)

def setFrame (frameAddr : Nat) (s : Boot) : Except Fault Boot := do
  let frame := frameAddr / 0x1000
  let index := indexFromBit frame
  let offset := offsetFromBit frame
  let word ← s.load32 (s.frames + 4 * index)
  s.store32 (s.frames + 4 * index) (word ||| 1 <<< offset)

/-- The entry is read again once the bitmap is written. -/
def allocFrame (page : Nat) (isKernel isWriteable : Int) (s : Boot) : Except Fault Boot := do
  let entry ← s.load32 page
  if (Page.decode entry).frame ≠ 0 then .ok s
  else
    let index ← s.firstFrame
    if index = FrameAllocator.noFrame then .error outOfFrames
    else
      let s ← s.setFrame (index * 0x1000 % 2 ^ 32)
      let entry ← s.load32 page
      s.store32 page { Page.decode entry with
        present := true
        rw := decide (isWriteable ≠ 0)
        user := !decide (isKernel ≠ 0)
        frame := BitVec.ofNat 20 index }.encode

/-! ### Page tables -/

def slot (s : Boot) (t : Nat) : Nat := s.kernelDirectory + 4 * t

def physicalSlot (s : Boot) (t : Nat) : Nat := s.kernelDirectory + 4096 + 4 * t

def makeTable (tableIndex : Nat) (s : Boot) : Except Fault Boot := do
  let r := kvmallocP pageTableSize s.placementPointer
  let temp := r.1.phys.getD 0
  let s := { s with placementPointer := r.2, made := r.1.address :: s.made }
  let s ← s.store32 (s.slot tableIndex) r.1.address
  let table ← s.load32 (s.slot tableIndex)
  let s ← s.fill table 0 0x1000
  s.store32 (s.physicalSlot tableIndex) (temp ||| 0x7)

/-- The address of the entry, or NULL. -/
def getPage (address : Nat) (make : Int) (s : Boot) : Except Fault (Nat × Boot) := do
  let address := address / 0x1000
  let tableIndex := address / 1024
  let table ← s.load32 (s.slot tableIndex)
  if table ≠ 0 then .ok (wordAdd table (4 * (address % 1024)), s)
  else if make ≠ 0 then
    let s ← s.makeTable tableIndex
    let table ← s.load32 (s.slot tableIndex)
    .ok (wordAdd table (4 * (address % 1024)), s)
  else .ok (0, s)

/-! ### `paging_install` -/

def mapPlacedTurn (s : Nat × Boot) : Except Fault (Nat × Boot) := do
  let r ← s.2.getPage s.1 1
  let b ← r.2.allocFrame r.1 0 0
  .ok (wordAdd s.1 0x1000, b)

def mapPlaced (fuel : Nat) (s : Nat × Boot) : Except Fault (Nat × Boot) :=
  Loop.loop (fun s => .ok (decide (s.1 < s.2.placementPointer))) mapPlacedTurn .diverges fuel s

/-- `paging_install` up to its loop. No address is translated yet. -/
def pagingSetup (memsize : UInt32) (s : Boot) : Boot :=
  let nframes := memsize / 4
  let bitmapSize := indexFromBit nframes.toNat
  let r := kmalloc bitmapSize s.placementPointer
  let mem := memset r.1.address 0 bitmapSize s.mem
  let d := kvmalloc pageDirectorySize r.2
  { s with
    mem := memset d.1.address 0 pageDirectorySize mem
    placementPointer := d.2
    frames := r.1.address
    nframes := nframes
    kernelDirectory := d.1.address }

/-- CR3 is given the address of `physical_tables`, and CR0 its bit 31. -/
def switchPageDirectory (s : Boot) : Boot := { s with cr3 := s.physicalSlot 0, paging := true }

/-- The fault handler is registered in a table of its own. -/
def pagingInstall (fuel : Nat) (memsize : UInt32) (s : Boot) : Except Fault Boot :=
  match mapPlaced fuel (0, s.pagingSetup memsize) with
  | .error e => .error e
  | .ok r => .ok r.2.switchPageDirectory

/-! ### The heap -/

def heapInstall (s : Boot) : Boot :=
  { s with heapEnd := s.placementPointer, placementPointer := 0 }

def mapGrowthTurn (s : Nat × Boot) : Except Fault (Nat × Boot) := do
  let first ← s.2.getPage s.1 1
  let r ← first.2.getPage s.1 1
  let b ← r.2.allocFrame r.1 0 0
  .ok (wordAdd s.1 0x1000, b)

def mapGrowth (fuel : Nat) (s : Nat × Boot) : Except Fault (Nat × Boot) :=
  Loop.loop (fun s => .ok (decide (s.1 < s.2.heapEnd))) mapGrowthTurn .diverges fuel s

/-- The loop counter takes `2 ^ 20` values before it is back where it started,
so a loop that has not ended by then does not end. -/
def sbrk (increment : Nat) (s : Boot) : Except Fault (Nat × Boot) := do
  kassert (increment % 0x1000 = 0) "increment % 0x1000 == 0" "mem.c" 253
  let address := s.heapEnd
  let r ← mapGrowth (2 ^ 20 + 1) (address, { s with heapEnd := wordAdd s.heapEnd increment })
  .ok (address, r.2)

/-! ### `main` -/

def copyMultiboot (mbootPtr : Nat) (s : Boot) : Nat × Boot :=
  let r := kmalloc multibootSize s.placementPointer
  (r.1.address, { s with
    mem := memcpy r.1.address mbootPtr multibootSize s.mem
    placementPointer := r.2 })

/-- `kmalloc_startat` with the end of the first module, where there is one. -/
def startAt (mbootPtr : Nat) (s : Boot) : Boot :=
  if s.mem.load32 (mbootPtr + 20) > 0 then
    { s with placementPointer := s.mem.load32 (s.mem.load32 (mbootPtr + 24) + 4) }
  else s

/-- What `main` does with memory before it installs the heap, and its `mboot_ptr`. -/
def main (fuel mbootPtr : Nat) (s : Boot) : Except Fault (Nat × Boot) :=
  let r := (s.startAt mbootPtr).copyMultiboot mbootPtr
  match r.2.pagingInstall fuel (UInt32.ofNat (r.2.mem.load32 (r.1 + 8))) with
  | .error e => .error e
  | .ok s => .ok (r.1, s)

end Boot

end X32PRos
