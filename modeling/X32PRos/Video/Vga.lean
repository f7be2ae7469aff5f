import X32PRos.Core.Word

/-!
The text-mode driver of `core/vga.c`, with the word copies of `core/kernel.c`
it scrolls and clears with. Text cells are numbered from `textmemptr`; the
numbers of the cells stored to are logged.
-/

namespace X32PRos

/-- The 16-bit cells behind `textmemptr`; `stored` is a ghost log of the indices
written, latest first. -/
structure TextMem where
  cell : Nat → BitVec 16
  stored : List Nat

namespace TextMem

def store (i : Nat) (value : BitVec 16) (m : TextMem) : TextMem where
  cell := fun j => if j = i then value else m.cell j
  stored := i :: m.stored

def memcpyw (dest src : Nat) (count : Int) (m : TextMem) : TextMem :=
  (List.range count.toNat).foldl (fun m i => m.store (dest + i) (m.cell (src + i))) m

def memsetw (dest : Nat) (val : BitVec 16) (count : Int) (m : TextMem) : TextMem :=
  (List.range count.toNat).foldl (fun m i => m.store (dest + i) val) m

@[simp] theorem store_cell (i j : Nat) (value : BitVec 16) (m : TextMem) :
    (m.store i value).cell j = if j = i then value else m.cell j := rfl

@[simp] theorem mem_store_stored (i k : Nat) (value : BitVec 16) (m : TextMem) :
    k ∈ (m.store i value).stored ↔ k = i ∨ k ∈ m.stored := List.mem_cons

theorem memsetw_cell (dest : Nat) (val : BitVec 16) (n : Nat) (m : TextMem) (k : Nat) :
    (m.memsetw dest val n).cell k = if dest ≤ k ∧ k < dest + n then val else m.cell k := by
  simp only [memsetw, Int.toNat_natCast]
  induction n with
  | zero =>
      rw [if_neg (by omega)]
      rfl
  | succ n ih =>
      rw [List.range_succ, List.foldl_append, List.foldl_cons, List.foldl_nil, store_cell, ih]
      by_cases hk : k = dest + n
      · rw [if_pos hk, if_pos (by omega)]
      · rw [if_neg hk]
        by_cases hin : dest ≤ k ∧ k < dest + n
        · rw [if_pos hin, if_pos (by omega)]
        · rw [if_neg hin, if_neg (by omega)]

/-- The numbers that `n` stores from `dest` on leave in the log, whatever they store. -/
theorem mem_stores_stored (dest n : Nat) (value : TextMem → Nat → BitVec 16) (m : TextMem) (k : Nat) :
    k ∈ ((List.range n).foldl (fun m i => m.store (dest + i) (value m i)) m).stored ↔
      (dest ≤ k ∧ k < dest + n) ∨ k ∈ m.stored := by
  induction n with
  | zero =>
      simp only [List.range_zero, List.foldl_nil]
      exact ⟨Or.inr, fun h => h.resolve_left (by omega)⟩
  | succ n ih =>
      rw [List.range_succ, List.foldl_append, List.foldl_cons, List.foldl_nil, mem_store_stored, ih,
        ← or_assoc]
      exact or_congr_left (by omega)

theorem mem_memsetw_stored (dest : Nat) (val : BitVec 16) (n : Nat) (m : TextMem) (k : Nat) :
    k ∈ (m.memsetw dest val n).stored ↔ (dest ≤ k ∧ k < dest + n) ∨ k ∈ m.stored :=
  mem_stores_stored dest n (fun _ _ => val) m k

/-- Copying towards lower addresses reads every source word before it is
overwritten, also where the two ranges overlap. -/
theorem memcpyw_cell {dest src : Nat} (h : dest ≤ src) (n : Nat) (m : TextMem) (k : Nat) :
    (m.memcpyw dest src n).cell k =
      if dest ≤ k ∧ k < dest + n then m.cell (src + (k - dest)) else m.cell k := by
  simp only [memcpyw, Int.toNat_natCast]
  induction n generalizing k with
  | zero =>
      rw [if_neg (by omega)]
      rfl
  | succ n ih =>
      rw [List.range_succ, List.foldl_append, List.foldl_cons, List.foldl_nil, store_cell, ih, ih]
      by_cases hk : k = dest + n
      · rw [if_pos hk, if_neg (by omega), if_pos (by omega), hk, Nat.add_sub_cancel_left]
      · rw [if_neg hk]
        by_cases hin : dest ≤ k ∧ k < dest + n
        · rw [if_pos hin, if_pos (by omega)]
        · rw [if_neg hin, if_neg (by omega)]

theorem mem_memcpyw_stored (dest src n : Nat) (m : TextMem) (k : Nat) :
    k ∈ (m.memcpyw dest src n).stored ↔ (dest ≤ k ∧ k < dest + n) ∨ k ∈ m.stored :=
  mem_stores_stored dest n (fun m i => m.cell (src + i)) m k

end TextMem

/-- The globals of the driver and the bytes sent to its ports, latest first. -/
structure Vga where
  text : TextMem
  attrib : Nat
  csrX : Nat
  csrY : Nat
  ports : List (Nat × Nat)

namespace Vga

/-- `0x20 | (attrib << 8)`, passed on as an `unsigned short`. -/
def blank (v : Vga) : BitVec 16 := BitVec.ofNat 16 (0x20 ||| (v.attrib <<< 8))

def scroll (v : Vga) : Vga :=
  if v.csrY ≥ 25 then
    let temp := wordAdd (wordSub v.csrY 25) 1
    { v with
      text := (v.text.memcpyw 0 (wordMul temp 80) (signed (wordMul (wordSub 25 temp) 80))).memsetw
        (wordMul (wordSub 25 temp) 80) v.blank 80
      csrY := 25 - 1 }
  else v

def outportb (port data : Nat) (v : Vga) : Vga :=
  { v with ports := (port, data % 256) :: v.ports }

def moveCsr (v : Vga) : Vga :=
  let temp := v.csrY * 80 + v.csrX
  (((v.outportb 0x3D4 14).outportb 0x3D5 (temp >>> 8)).outportb 0x3D4 15).outportb 0x3D5 temp

def cls (v : Vga) : Vga :=
  moveCsr
    { v with
      text := (List.range 25).foldl (fun m i => m.memsetw (i * 80) v.blank 80) v.text
      csrX := 0
      csrY := 0 }

def place (c : UInt8) (v : Vga) : Vga :=
  let att := v.attrib <<< 8
  if c = 0x08 then
    if v.csrX ≠ 0 then { v with csrX := v.csrX - 1 } else v
  else if c = 0x09 then { v with csrX := (v.csrX + 8) &&& 0xFFFFFFF8 }
  else if c = 13 then { v with csrX := 0 }
  else if c = 10 then { v with csrX := 0, csrY := v.csrY + 1 }
  else if c ≥ 32 then
    { v with
      text := v.text.store (v.csrY * 80 + v.csrX) (BitVec.ofNat 16 (c.toNat ||| att))
      csrX := v.csrX + 1 }
  else v

/-- The test after the chain: past column 79 the next row begins. -/
def wrap (v : Vga) : Vga :=
  if v.csrX ≥ 80 then { v with csrX := 0, csrY := v.csrY + 1 } else v

def putch (c : UInt8) (v : Vga) : Vga := (v.place c).wrap.scroll.moveCsr

/-- Length up to the terminating NUL; the end of the list stands for it. -/
def strlen : List UInt8 → Nat
  | [] => 0
  | c :: cs => if c = 0 then 0 else strlen cs + 1

def puts (text : List UInt8) (v : Vga) : Vga :=
  (List.range (strlen text)).foldl (fun v i => v.putch (text.getD i 0)) v

def settextcolor (forecolor backcolor : UInt8) (v : Vga) : Vga :=
  { v with attrib := (backcolor.toNat <<< 4) ||| (forecolor.toNat &&& 0x0F) }

def resettextcolor (v : Vga) : Vga := v.settextcolor 15 0

/-- The static initial values, over the given text memory. -/
def boot (content : Nat → BitVec 16) : Vga := ⟨⟨content, []⟩, 0x0F, 0, 0, []⟩

def initVideo (v : Vga) : Vga := { v with csrY := 10 }.moveCsr

end Vga

end X32PRos
