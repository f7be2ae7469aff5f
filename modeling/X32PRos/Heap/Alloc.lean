import X32PRos.Core.Kernel
import X32PRos.Core.Panic
import X32PRos.Foundation.SkipList
import X32PRos.Memory.Placement

/-!
The slab allocator of `core/alloc.c`, on byte memory. Pointers are addresses,
NULL is 0, and sizes are 32-bit words that are read as signed numbers where the
source compares two `size_t` values. Neither `SIZE_MAX` nor `UINT32_MAX` is
defined when the file is compiled, so that its 32-bit constants are in force.

`sbrk` is a parameter. The levels that the random generator yields are inputs of
the calls that insert into the skip list.
-/

namespace X32PRos

open Foundation

def numBins : Nat := 11

def smallestBinLog : Nat := 2

def bigBin : Nat := numBins - 1

def pageSize : Nat := 0x1000

def skipMaxLevel : Nat := 6

def binHeaderSize : Nat := 12

def bigBinHeaderSize : Nat := 44

def pointer (w : Nat) : Option Nat := if w = 0 then none else some w

/-- A heap that grows at its end: what the allocator relies on in `sbrk`. -/
structure Sbrk (σ : Type) where
  heapEnd : σ → Nat
  call : Nat → σ → Except Fault (Nat × σ)
  returns : ∀ {increment s address s'}, call increment s = .ok (address, s') →
    address = heapEnd s ∧ heapEnd s' = wordAdd (heapEnd s) increment

/-- The static variables of the file, the memory, and the state of `sbrk`.
`inserted` is a ghost: the level with which a big block was last inserted, above
which the words of its `forward` hold nothing. -/
structure Heap (σ : Type) where
  mem : Memory
  binHead : Nat → Nat
  bigHead : Nat → Nat
  level : Nat
  newestBig : Nat
  brk : σ
  inserted : Nat → Nat

def Heap.initial {σ : Type} (mem : Memory) (brk : σ) : Heap σ where
  mem := mem
  binHead := fun _ => 0
  bigHead := fun _ => 0
  level := 0
  newestBig := 0
  brk := brk
  inserted := fun _ => 0

/-! ### Size classes -/

/-- `__builtin_clzl` of a word that is not 0. -/
def builtinClzl (x : Nat) : Nat := 31 - x.log2

def klmallocAdjustBin (bin : Nat) : Nat :=
  if bin ≤ smallestBinLog then 0
  else
    let bin := bin - (smallestBinLog + 1)
    if bin > bigBin then bigBin else bin

def klmallocBinSize (size : Nat) : Nat :=
  let bin := 4 * 8 - builtinClzl size
  let bin := bin + if size &&& wordSub size 1 ≠ 0 then 1 else 0
  klmallocAdjustBin bin

namespace Heap

variable {σ : Type}

/-! ### Fields of a header: `next`, `head`, `size`, `prev`, `forward` -/

def nextOf (h : Heap σ) (a : Nat) : Nat := h.mem.load32 a

def headOf (h : Heap σ) (a : Nat) : Nat := h.mem.load32 (a + 4)

def sizeOf (h : Heap σ) (a : Nat) : Nat := h.mem.load32 (a + 8)

def prevOf (h : Heap σ) (a : Nat) : Nat := h.mem.load32 (a + 12)

def forwardOf (h : Heap σ) (a i : Nat) : Nat := h.mem.load32 (a + 16 + 4 * i)

def set (a v : Nat) (h : Heap σ) : Heap σ := { h with mem := h.mem.store32 a v }

def assertPages (node : Nat) (desc : String) (line : Nat) (h : Heap σ) : Except Fault Unit :=
  kassert (wordAdd (h.sizeOf node) bigBinHeaderSize % pageSize = 0) desc "alloc.c" line

def assertLink (p : Option Nat) (desc : String) (line : Nat) (h : Heap σ) : Except Fault Unit :=
  match p with
  | none => .ok ()
  | some x => h.assertPages x desc line

/-- `ASSERT((uintptr_t)p % PAGE_SIZE == 0)` and the assertion on the size, behind `if (p)`. -/
def assertBlock (p : Option Nat) (desc : String) (line : Nat) (desc' : String) (line' : Nat)
    (h : Heap σ) : Except Fault Unit :=
  match p with
  | none => .ok ()
  | some x => do
      kassert (x % pageSize = 0) desc "alloc.c" line
      h.assertPages x desc' line'

/-! ### Page lists -/

def listDecouple (b node : Nat) (h : Heap σ) : Heap σ :=
  let next := h.nextOf node
  { h.set node 0 with binHead := fun b' => if b' = b then next else h.binHead b' }

def listInsert (b node : Nat) (h : Heap σ) : Heap σ :=
  { h.set node (h.binHead b) with binHead := fun b' => if b' = b then node else h.binHead b' }

/-! ### The skip list -/

/-- A header in the skip list; `none` is `&klmalloc_big_bins.head`. -/
abbrev BigPtr := Option Nat

def readForward (node : BigPtr) (i : Nat) (h : Heap σ) : Except Fault (Option Nat) :=
  match node with
  | none => .ok (pointer (h.bigHead i))
  | some a => if i ≤ h.inserted a then .ok (pointer (h.forwardOf a i)) else .error .uninitialised

def setForward (node : BigPtr) (i : Nat) (value : Option Nat) (h : Heap σ) : Heap σ :=
  match node with
  | none => { h with bigHead := fun j => if j = i then value.getD 0 else h.bigHead j }
  | some a => h.set (a + 16 + 4 * i) (value.getD 0)

def seekGuard (size i : Nat) (h : Heap σ) (node : BigPtr) : Except Fault Bool := do
  match ← h.readForward node i with
  | none => .ok false
  | some x => .ok (decide (signed (h.sizeOf x) < signed size))

/-- `node = node->forward[i]` and the assertion on it. -/
def seekBody (line i : Nat) (h : Heap σ) (node : BigPtr) : Except Fault BigPtr := do
  match ← h.readForward node i with
  | none => .error .nullPointer
  | some x =>
      h.assertPages x "(node->size + sizeof(klmalloc_big_bin_header)) % PAGE_SIZE == 0" line
      .ok (some x)

/-- The inner loop on level `i`. It only moves a pointer, so that a loop that has
not ended after as many turns as there are pointers does not end. -/
def seek (line size : Nat) (h : Heap σ) (i : Nat) (node : BigPtr) : Except Fault BigPtr :=
  Loop.loop (h.seekGuard size i) (h.seekBody line i) .diverges (2 ^ 32 + 1) node

/-- The way down the levels, which the three functions share: the last node on it,
and `update`. -/
def search (line size : Nat) (h : Heap σ) : Except Fault (BigPtr × (Nat → BigPtr)) :=
  SkipList.descend (h.seek line size) h.level none fun _ => none

def skipListFindbest (searchSize : Nat) (h : Heap σ) : Except Fault (Option Nat) := do
  let (node, _) ← h.search 307 searchSize
  let node ← h.readForward node 0
  h.assertBlock node "(uintptr_t)node % PAGE_SIZE == 0" 316
    "(node->size + sizeof(klmalloc_big_bin_header)) % PAGE_SIZE == 0" 317
  .ok node

def linkLevel (value : Nat) (update : Nat → BigPtr) (i : Nat) (h : Heap σ) :
    Except Fault (Heap σ) := do
  let next ← h.readForward (update i) i
  let h := h.setForward (some value) i next
  h.assertLink (← h.readForward (some value) i)
    "(node->forward[i]->size + sizeof(klmalloc_big_bin_header)) % PAGE_SIZE == 0" 385
  .ok (h.setForward (update i) i (some value))

def linkLevels (value : Nat) (update : Nat → BigPtr) : Nat → Heap σ → Except Fault (Heap σ)
  | 0, h => .ok h
  | n + 1, h => do
      let h ← linkLevels value update n h
      h.linkLevel value update n

/-- `level` is what `klmalloc_random_level()` returns, if it is called. -/
def skipListInsert (value level : Nat) (h : Heap σ) : Except Fault (Heap σ) := do
  kassert (value ≠ 0) "value != NULL" "alloc.c" 330
  kassert (h.headOf value ≠ 0) "value->head != NULL" "alloc.c" 331
  kassert (value % pageSize = 0) "(uintptr_t)value % PAGE_SIZE == 0" "alloc.c" 332
  h.assertPages value "(value->size + sizeof(klmalloc_big_bin_header)) % PAGE_SIZE == 0" 333
  kassert (h.sizeOf value ≠ 0) "value->size != 0" "alloc.c" 334
  let (node, update) ← h.search 351 (h.sizeOf value)
  let node ← h.readForward node 0
  if node ≠ some value then
    -- the new levels start at the list head
    let update := fun i => if h.level < i then none else update i
    linkLevels value update (level + 1)
      { h with
        level := if level > h.level then level else h.level
        inserted := fun a => if a = value then level else h.inserted a }
  else .ok h

/-- The loop that unlinks `value`, from level `i` on and for `n` levels at most. -/
def unlinkLevels (value : Nat) (update : Nat → BigPtr) :
    Nat → Nat → Heap σ → Except Fault (Heap σ)
  | 0, _, h => .ok h
  | n + 1, i, h => do
      if (← h.readForward (update i) i) ≠ some value then .ok h
      else
        let next ← h.readForward (some value) i
        let h := h.setForward (update i) i next
        h.assertBlock (← h.readForward (update i) i)
          "(uintptr_t)(update[i]->forward[i]) % PAGE_SIZE == 0" 443
          "(update[i]->forward[i]->size + sizeof(klmalloc_big_bin_header)) % PAGE_SIZE == 0" 444
        unlinkLevels value update n (i + 1) h

def lowerLevel (bigHead : Nat → Nat) : Nat → Nat
  | 0 => 0
  | level + 1 => if bigHead (level + 1) = 0 then lowerLevel bigHead level else level + 1

def walkTo (value : Nat) (h : Heap σ) (node : Option Nat) : Except Fault (Option Nat) :=
  Loop.loop (fun node => .ok (decide (node ≠ some value)))
    (fun node => match node with
      | none => .error .nullPointer
      | some x => h.readForward (some x) 0) .diverges (2 ^ 32 + 1) node

/-- Behind `walkTo` the node is `value`: the search from the list head that the
source has for the other case is never run. -/
def skipListDelete (value : Nat) (h : Heap σ) : Except Fault (Heap σ) := do
  kassert (value ≠ 0) "value != NULL" "alloc.c" 399
  kassert (h.headOf value ≠ 0) "value->head" "alloc.c" 400
  let (node, update) ← h.search 416 (h.sizeOf value)
  let node ← h.readForward node 0
  let _ ← h.walkTo value node
  let h ← unlinkLevels value update (h.level + 1) 0 h
  .ok { h with level := lowerLevel h.bigHead h.level }

/-! ### Stacks of free cells -/

def stackPop (header : Nat) (h : Heap σ) : Except Fault (Nat × Heap σ) := do
  kassert (header ≠ 0) "header" "alloc.c" 462
  kassert (h.headOf header ≠ 0) "header->head != NULL" "alloc.c" 463
  let item := h.headOf header
  .ok (item, h.set (header + 4) (h.mem.load32 item))

def stackPush (header ptr : Nat) (h : Heap σ) : Except Fault (Heap σ) := do
  kassert (ptr ≠ 0) "ptr != NULL" "alloc.c" 484
  .ok ((h.set ptr (h.headOf header)).set (header + 4) ptr)

def stackEmpty (header : Nat) (h : Heap σ) : Bool := decide (h.headOf header = 0)

/-! ### `klmalloc` -/

variable (E : Sbrk σ)

def linkCells (base b : Nat) : Nat → Memory → Memory
  | 0, m => m
  | i + 1, m => (linkCells base b i m).store32 (base + 4 * (i <<< b)) (base + 4 * ((i + 1) <<< b))

def newBin (b : Nat) (h : Heap σ) : Except Fault (Nat × Heap σ) := do
  let (binHeader, brk) ← E.call pageSize h.brk
  kassert (binHeader % pageSize = 0) "(uintptr_t)bin_header % PAGE_SIZE == 0" "alloc.c" 526
  let h := { h with brk := brk }
  let h := h.set (binHeader + 4) (binHeader + binHeaderSize)
  let h := h.listInsert b binHeader
  let adj := smallestBinLog + b
  let available := ((pageSize - binHeaderSize) >>> adj) - 1
  let base := h.headOf binHeader
  let h := { h with mem := linkCells base b available h.mem }
  let h := h.set (base + 4 * (available <<< b)) 0
  .ok (binHeader, h.set (binHeader + 8) b)

def newBig (size : Nat) (h : Heap σ) : Except Fault (Nat × Heap σ) := do
  let pages := wordAdd (wordAdd size bigBinHeaderSize / pageSize) 1
  let (binHeader, brk) ← E.call (wordMul pageSize pages) h.brk
  kassert (binHeader % pageSize = 0) "(uintptr_t)bin_header % PAGE_SIZE == 0" "alloc.c" 628
  let h := { h with brk := brk }
  let h := h.set (binHeader + 8) (wordSub (wordMul pages pageSize) bigBinHeaderSize)
  h.assertPages binHeader "(bin_header->size + sizeof(klmalloc_big_bin_header)) % PAGE_SIZE == 0" 633
  let h := h.set (binHeader + 12) h.newestBig
  let h := if h.prevOf binHeader ≠ 0 then h.set (h.prevOf binHeader) binHeader else h
  let h := { h with newestBig := binHeader }
  let h := h.set binHeader 0
  .ok (binHeader + bigBinHeaderSize, h.set (binHeader + 4) 0)

def klmalloc (size : Nat) (h : Heap σ) : Except Fault (Nat × Heap σ) := do
  if size = 0 then .ok (0, h)
  else
    let bucketId := klmallocBinSize size
    if bucketId < bigBin then
      let (binHeader, h) ← if h.binHead bucketId = 0 then h.newBin E bucketId
        else .ok (h.binHead bucketId, h)
      let (item, h) ← h.stackPop binHeader
      .ok (item, if h.stackEmpty binHeader then h.listDecouple bucketId binHeader else h)
    else
      match ← h.skipListFindbest size with
      | some binHeader =>
          let h ← h.skipListDelete binHeader
          h.stackPop binHeader
      | none => h.newBig E size

/-! ### `klfree`, `klrealloc`, `klcalloc` -/

def klfree (ptr level : Nat) (h : Heap σ) : Except Fault (Heap σ) := do
  if ptr = 0 then .ok h
  else
    let header := pageBase ptr
    kassert (header % pageSize = 0) "(uintptr_t)header % PAGE_SIZE == 0" "alloc.c" 665
    let bucketId := h.sizeOf header
    if bucketId > numBins then
      kassert (header ≠ 0) "bheader" "alloc.c" 678
      kassert (h.headOf header = 0) "bheader->head == NULL" "alloc.c" 679
      h.assertPages header "(bheader->size + sizeof(klmalloc_big_bin_header)) % PAGE_SIZE == 0" 680
      let h ← h.stackPush header (header + bigBinHeaderSize)
      kassert (h.headOf header ≠ 0) "bheader->head != NULL" "alloc.c" 752
      h.skipListInsert header level
    else
      let h := if h.stackEmpty header then h.listInsert bucketId header else h
      h.stackPush header ptr

def klrealloc (ptr size level : Nat) (h : Heap σ) : Except Fault (Nat × Heap σ) := do
  if ptr = 0 then h.klmalloc E size
  else if size = 0 then
    let h ← h.klfree ptr level
    .ok (0, h)
  else
    let headerOld := pageBase ptr
    if signed (h.sizeOf headerOld) ≥ signed size then .ok (ptr, h)
    else
      let (newptr, h) ← h.klmalloc E size
      if newptr ≠ 0 then
        let oldSize := h.sizeOf headerOld
        let oldSize := if oldSize < bigBin then 1 <<< (smallestBinLog + oldSize) else oldSize
        let h ← { h with mem := memcpy newptr ptr oldSize h.mem }.klfree ptr level
        .ok (newptr, h)
      else .ok (0, h)

def klcalloc (nmemb size : Nat) (h : Heap σ) : Except Fault (Nat × Heap σ) := do
  let (ptr, h) ← h.klmalloc E (wordMul nmemb size)
  .ok (ptr, if ptr ≠ 0 then { h with mem := memset ptr 0 (wordMul nmemb size) h.mem } else h)

end Heap

end X32PRos
