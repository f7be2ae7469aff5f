import X32PRos.Core.Word
import X32PRos.Foundation.Loop
import X32PRos.Memory.Frames
import X32PRos.Memory.Placement

/-!
Page directory, page tables and heap growth of `core/mem.c`, idealised: the frame
bitmap, the directory and the page tables are objects of their own. In the kernel's
memory they need not be, since the directory is aligned down onto the page in which
the bitmap ends; that memory is `Boot`, and `main_refines` says when the two agree.

Which object a page table is, is a parameter: `obj slot base` names the table that
directory slot `slot` refers to at address `base`. An injective `obj` keeps all
tables separate, and `fun _ base => base` shares those at one address.

Two fields are ghosts: `made` lists the addresses of the page tables made so
far, latest first, and `wrapped` records that the sum of an address and an
increment has left the 32-bit range.
-/

namespace X32PRos

open Foundation

/-- The globals of `core/mem.c`, with bitmap, directory and tables kept apart. -/
structure Mm (κ : Type) where
  placementPointer : Nat
  allocator : FrameAllocator
  framesAddr : Nat
  directoryAddr : Nat
  tables : Nat → Nat
  physicalTables : Nat → Nat
  entries : κ → Nat → Page
  heapEnd : Nat
  made : List Nat
  wrapped : Bool

def pageDirectorySize : Nat := 1024 * 4 + 1024 * 4 + 4

def pageTableSize : Nat := 1024 * 4

/-- `memset(frames, 0, count)`: a byte count, over little-endian words. -/
def clearFrameBytes (count : Nat) (frames : Bitmap 32) : Bitmap 32 :=
  fun w => frames w >>> (8 * min 4 (count - 4 * w)) <<< (8 * min 4 (count - 4 * w))

namespace Mm

variable {κ : Type}

/-- The state in which `main` calls `paging_install`: the heap not installed,
and anything in the memory of the frame bitmap and the tables to come. -/
def initial (start : Nat) (frames : Bitmap 32) (entries : κ → Nat → Page) : Mm κ where
  placementPointer := start
  allocator := ⟨frames, 0⟩
  framesAddr := 0
  directoryAddr := 0
  tables := fun _ => 0
  physicalTables := fun _ => 0
  entries := entries
  heapEnd := 0
  made := []
  wrapped := false

def place (request : Nat → Allocation × Nat) (size : Nat) (m : Mm κ) : Allocation × Mm κ :=
  let r := request m.placementPointer
  (r.1, { m with
    placementPointer := r.2
    wrapped := m.wrapped || decide (2 ^ 32 ≤ r.1.address + size) })

variable [DecidableEq κ] (obj : Nat → Nat → κ)

def makeTable (tableIndex : Nat) (m : Mm κ) : Mm κ :=
  let r := m.place (kvmallocP pageTableSize) pageTableSize
  let table := r.1.address
  let temp := r.1.phys.getD 0
  { r.2 with
    tables := fun t => if t = tableIndex then table else r.2.tables t
    entries := fun o => if o = obj tableIndex table then fun _ => Page.zero else r.2.entries o
    physicalTables := fun t => if t = tableIndex then temp ||| 0x7 else r.2.physicalTables t
    made := table :: r.2.made }

/-- A pointer to an entry is its table and its index in it; `none` is NULL. -/
def getPage (address : Nat) (make : Int) (m : Mm κ) : Option (κ × Nat) × Mm κ :=
  let address := address / 0x1000
  let tableIndex := address / 1024
  if m.tables tableIndex ≠ 0 then
    (some (obj tableIndex (m.tables tableIndex), address % 1024), m)
  else if make ≠ 0 then
    let made := m.makeTable obj tableIndex
    (some (obj tableIndex (made.tables tableIndex), address % 1024), made)
  else (none, m)

def allocFrameAt (page : Option (κ × Nat)) (isKernel isWriteable : Int) (m : Mm κ) :
    Except Fault (Mm κ) :=
  match page with
  | none => .error .nullPointer
  | some (o, i) =>
      match allocFrame (m.entries o i) isKernel isWriteable m.allocator with
      | .error e => .error e
      | .ok (entry, a) =>
          .ok { m with
            allocator := a
            entries := fun o' i' => if o' = o ∧ i' = i then entry else m.entries o' i' }

def mapPage (i : Nat) (m : Mm κ) : Except Fault (Mm κ) :=
  let r := m.getPage obj i 1
  r.2.allocFrameAt r.1 0 0

def nextPage (i : Nat) (m : Mm κ) : Nat × Mm κ :=
  (wordAdd i 0x1000, { m with wrapped := m.wrapped || decide (2 ^ 32 ≤ i + 0x1000) })

def mapPlacedTurn (s : Nat × Mm κ) : Except Fault (Nat × Mm κ) :=
  match s.2.mapPage obj s.1 with
  | .error e => .error e
  | .ok m => .ok (m.nextPage s.1)

/-- `while (i < placement_pointer)`: the bound moves with every table made. -/
def mapPlaced (fuel : Nat) (s : Nat × Mm κ) : Except Fault (Nat × Mm κ) :=
  Loop.loop (fun s => .ok (decide (s.1 < s.2.placementPointer))) (mapPlacedTurn obj) .diverges fuel s

def pagingSetup (memsize : UInt32) (m : Mm κ) : Mm κ :=
  let nframes := memsize / 4
  let bitmapSize := indexFromBit nframes.toNat
  let r := m.place (kmalloc bitmapSize) bitmapSize
  let d := r.2.place (kvmalloc pageDirectorySize) pageDirectorySize
  { d.2 with
    allocator := ⟨clearFrameBytes bitmapSize m.allocator.frames, nframes⟩
    framesAddr := r.1.address
    directoryAddr := d.1.address
    tables := fun _ => 0
    physicalTables := fun _ => 0 }

/-- The data effect of `paging_install`. Registering the fault handler and
loading CR3 and CR0 touch nothing modelled here. -/
def pagingInstall (fuel : Nat) (memsize : UInt32) (m : Mm κ) : Except Fault (Mm κ) :=
  match mapPlaced obj fuel (0, m.pagingSetup memsize) with
  | .error e => .error e
  | .ok s => .ok s.2

def heapInstall (m : Mm κ) : Mm κ :=
  { m with heapEnd := m.placementPointer, placementPointer := 0 }

def mapGrowthTurn (s : Nat × Mm κ) : Except Fault (Nat × Mm κ) :=
  let first := s.2.getPage obj s.1 1
  match first.2.mapPage obj s.1 with
  | .error e => .error e
  | .ok m => .ok (m.nextPage s.1)

def mapGrowth (fuel : Nat) (s : Nat × Mm κ) : Except Fault (Nat × Mm κ) :=
  Loop.loop (fun s => .ok (decide (s.1 < s.2.heapEnd))) (mapGrowthTurn obj) .diverges fuel s

/-- The loop counter takes `2 ^ 20` values before it is back where it started,
so a loop that has not ended by then does not end. -/
def sbrk (increment : Nat) (m : Mm κ) : Except Fault (Nat × Mm κ) :=
  match kassert (increment % 0x1000 = 0) "increment % 0x1000 == 0" "mem.c" 253 with
  | .error e => .error e
  | .ok () =>
      let address := m.heapEnd
      let grown := { m with
        heapEnd := wordAdd m.heapEnd increment
        wrapped := m.wrapped || decide (2 ^ 32 ≤ m.heapEnd + increment) }
      match mapGrowth obj (2 ^ 20 + 1) (address, grown) with
      | .error e => .error e
      | .ok s => .ok (address, s.2)

/-- Successive `sbrk` calls and the ranges they return. -/
def sbrkRun : Mm κ → List Nat → Except Fault (List Region × Mm κ)
  | m, [] => .ok ([], m)
  | m, increment :: rest =>
      match m.sbrk obj increment with
      | .error e => .error e
      | .ok (address, m) =>
          match sbrkRun m rest with
          | .error e => .error e
          | .ok (regions, m) => .ok (⟨address, increment⟩ :: regions, m)

end Mm

end X32PRos
