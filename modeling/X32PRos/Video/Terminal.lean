import X32PRos.Video.Vga

/-!
A terminal on an unbounded grid of rows, and the driver as a window of 25 rows
onto it. The terminal is stated on its own terms: it never moves text, the
window moves down instead, and a row is blanked when it enters the window.
-/

namespace X32PRos

structure Colour where
  fore : Fin 16
  back : Fin 16
deriving DecidableEq, Repr

structure Glyph where
  char : Fin 256
  colour : Colour
deriving DecidableEq, Repr

def Glyph.encode (g : Glyph) : BitVec 16 :=
  BitVec.ofNat 16 (g.colour.back * 4096 + g.colour.fore * 256 + g.char)

def Glyph.decode (x : BitVec 16) : Glyph where
  char := ⟨x.toNat % 256, Nat.mod_lt _ (by decide)⟩
  colour :=
    { fore := ⟨x.toNat / 256 % 16, Nat.mod_lt _ (by decide)⟩
      back := ⟨x.toNat / 4096, by have h := x.isLt; omega⟩ }

theorem Glyph.encode_decode (x : BitVec 16) : (decode x).encode = x := by
  apply BitVec.eq_of_toNat_eq
  have hx := x.isLt
  simp only [encode, decode, BitVec.toNat_ofNat]
  omega

structure Terminal where
  grid : Nat → Nat → Glyph
  top : Nat
  row : Nat
  col : Nat
  colour : Colour

namespace Terminal

def space (t : Terminal) : Glyph := ⟨32, t.colour⟩

/-- One row down; a row entering the window is filled with spaces. -/
def lineFeed (t : Terminal) : Terminal :=
  if t.row + 1 < t.top + 25 then { t with row := t.row + 1 }
  else
    { t with
      row := t.row + 1
      top := t.top + 1
      grid := fun r c => if r = t.row + 1 then t.space else t.grid r c }

/-- The cursor to a column, and past the last one to the next row. -/
def moveTo (col : Nat) (t : Terminal) : Terminal :=
  if col < 80 then { t with col := col } else { t with col := 0 }.lineFeed

def printGlyph (g : Glyph) (t : Terminal) : Terminal :=
  { t with grid := fun r c => if r = t.row ∧ c = t.col then g else t.grid r c }

def write (c : UInt8) (t : Terminal) : Terminal :=
  if c = 0x08 then { t with col := t.col - 1 }
  else if c = 0x09 then t.moveTo ((t.col / 8 + 1) * 8)
  else if c = 13 then { t with col := 0 }
  else if c = 10 then { t with col := 0 }.lineFeed
  else if c < 32 then t
  else (t.printGlyph ⟨⟨c.toNat, c.toNat_lt⟩, t.colour⟩).moveTo (t.col + 1)

def writeString (text : List UInt8) (t : Terminal) : Terminal :=
  (text.takeWhile (· ≠ 0)).foldl (fun t c => t.write c) t

def setColour (fore back : UInt8) (t : Terminal) : Terminal :=
  { t with colour :=
      { fore := ⟨fore.toNat % 16, Nat.mod_lt _ (by decide)⟩
        back := ⟨back.toNat % 16, Nat.mod_lt _ (by decide)⟩ } }

def clear (t : Terminal) : Terminal :=
  { t with
    grid := fun r c => if t.top ≤ r ∧ r < t.top + 25 then t.space else t.grid r c
    row := t.top
    col := 0 }

/-- White on black, at the start of row 10, over the content found on the screen. -/
def start (content : Nat → BitVec 16) : Terminal where
  grid := fun r c => .decode (content (r * 80 + c))
  top := 0
  row := 10
  col := 0
  colour := ⟨15, 0⟩

end Terminal

inductive VideoCall
  | putch (c : UInt8)
  | puts (text : List UInt8)
  | settextcolor (fore back : UInt8)
  | cls

def VideoCall.onVga : VideoCall → Vga → Vga
  | .putch c, v => v.putch c
  | .puts text, v => v.puts text
  | .settextcolor fore back, v => v.settextcolor fore back
  | .cls, v => v.cls

def VideoCall.onTerminal : VideoCall → Terminal → Terminal
  | .putch c, t => t.write c
  | .puts text, t => t.writeString text
  | .settextcolor fore back, t => t.setColour fore back
  | .cls, t => t.clear

def Colour.numbered (fore back : UInt8) : Colour where
  fore := ⟨fore.toNat % 16, Nat.mod_lt _ (by decide)⟩
  back := ⟨back.toNat % 16, Nat.mod_lt _ (by decide)⟩

def VideoCall.recolour (colour : Colour) : VideoCall → Colour
  | .settextcolor fore back => .numbered fore back
  | .putch _ => colour
  | .puts _ => colour
  | .cls => colour

/-- The cells of the driver are the window of the terminal. -/
structure Shows (v : Vga) (t : Terminal) : Prop where
  csrX : v.csrX = t.col
  csrY : t.row = t.top + v.csrY
  col_lt : v.csrX < 80
  row_lt : v.csrY < 25
  attrib : v.attrib % 256 = t.colour.back * 16 + t.colour.fore
  cells : ∀ r < 25, ∀ c < 80, v.text.cell (r * 80 + c) = (t.grid (t.top + r) c).encode
  stored : ∀ k ∈ v.text.stored, k < 2000

namespace Shows

variable {v : Vga} {t : Terminal}

/-- A character with the attribute byte is the glyph in the current colour. -/
theorem encode_attrib {n : Nat} (hn : n < 256) {attrib : Nat} {colour : Colour}
    (h : attrib % 256 = colour.back * 16 + colour.fore) :
    BitVec.ofNat 16 (n ||| (attrib <<< 8)) = Glyph.encode ⟨⟨n, hn⟩, colour⟩ := by
  apply BitVec.eq_of_toNat_eq
  rw [or_shiftLeft (by simpa using hn)]
  simp only [Glyph.encode, BitVec.toNat_ofNat]
  omega

theorem blank (h : Shows v t) : v.blank = t.space.encode :=
  encode_attrib (by decide) h.attrib

theorem moveCsr (h : Shows v t) : Shows v.moveCsr t :=
  ⟨h.csrX, h.csrY, h.col_lt, h.row_lt, h.attrib, h.cells, h.stored⟩

theorem withCol (h : Shows v t) {x : Nat} (hx : x < 80) :
    Shows { v with csrX := x } { t with col := x } :=
  ⟨rfl, h.csrY, hx, h.row_lt, h.attrib, h.cells, h.stored⟩

theorem wrap_of_lt {v : Vga} (h : v.csrX < 80) : v.wrap = v :=
  if_neg (by omega)

theorem scroll_of_lt {v : Vga} (h : v.csrY < 25) : v.scroll = v :=
  if_neg (by omega)

/-- Inside the screen neither test after the chain does anything. -/
theorem settled (h : Shows v t) : Shows v.wrap.scroll t := by
  rw [wrap_of_lt h.col_lt, scroll_of_lt h.row_lt]
  exact h

/-- Leaving the last row scrolls by exactly one row. -/
theorem scroll_lastRow {v : Vga} (h : v.csrY = 25) :
    v.scroll = { v with
      text := (v.text.memcpyw 0 80 (1920 : Nat)).memsetw 1920 v.blank (80 : Nat)
      csrY := 24 } := by
  have hge : v.csrY ≥ 25 := by omega
  unfold Vga.scroll
  rw [if_pos hge, h]
  rfl

/-- The next row: by moving the cursor, or by scrolling the text under it. -/
theorem lineFeed (h : Shows v t) :
    Shows (Vga.scroll { v with csrX := 0, csrY := v.csrY + 1 }) { t with col := 0 }.lineFeed := by
  have hrow := h.csrY
  have hlt := h.row_lt
  by_cases hlast : v.csrY + 1 < 25
  · rw [scroll_of_lt hlast, Terminal.lineFeed, if_pos (show t.row + 1 < t.top + 25 by omega)]
    exact ⟨rfl, show t.row + 1 = t.top + (v.csrY + 1) by omega, Nat.zero_lt_succ 79, hlast,
      h.attrib, h.cells, h.stored⟩
  · rw [scroll_lastRow (show v.csrY + 1 = 25 by omega), Terminal.lineFeed,
      if_neg (show ¬ t.row + 1 < t.top + 25 by omega)]
    refine ⟨rfl, show t.row + 1 = t.top + 1 + 24 by omega, Nat.zero_lt_succ 79,
      Nat.lt_succ_self 24, h.attrib, ?_, ?_⟩
    · intro r hr c hc
      rw [TextMem.memsetw_cell, TextMem.memcpyw_cell (by omega)]
      by_cases hbottom : r = 24
      · have hentered : t.top + 1 + r = t.row + 1 := by omega
        rw [if_pos (by omega)]
        simp only [hentered, ite_true]
        exact h.blank
      · have hkept : t.top + 1 + r ≠ t.row + 1 := by omega
        rw [if_neg (by omega), if_pos (by omega)]
        simp only [hkept, ite_false]
        have hcell := h.cells (r + 1) (by omega) c hc
        rw [show (r + 1) * 80 + c = 80 + (r * 80 + c - 0) by omega,
          show t.top + (r + 1) = t.top + 1 + r by omega] at hcell
        exact hcell
    · intro k hk
      rw [TextMem.mem_memsetw_stored, TextMem.mem_memcpyw_stored] at hk
      rcases hk with hk | hk | hk
      · omega
      · omega
      · exact h.stored k hk

/-- The two tests after the chain, once the cursor is in column `x`. -/
theorem moveTo (h : Shows v t) (x : Nat) :
    Shows (Vga.wrap { v with csrX := x }).scroll (t.moveTo x) := by
  by_cases hx : x < 80
  · rw [Terminal.moveTo, if_pos hx]
    exact (h.withCol hx).settled
  · rw [Terminal.moveTo, if_neg hx, Vga.wrap, if_pos (show x ≥ 80 by omega)]
    exact h.lineFeed

theorem printGlyph (h : Shows v t) (c : UInt8) :
    Shows { v with text := v.text.store (v.csrY * 80 + v.csrX)
                      (BitVec.ofNat 16 (c.toNat ||| (v.attrib <<< 8))) }
      (t.printGlyph ⟨⟨c.toNat, c.toNat_lt⟩, t.colour⟩) := by
  have hx := h.csrX
  have hy := h.csrY
  have hcol := h.col_lt
  have hlt := h.row_lt
  refine ⟨hx, hy, hcol, hlt, h.attrib, ?_, ?_⟩
  · intro r hr d hd
    simp only [TextMem.store_cell, Terminal.printGlyph]
    by_cases hhere : t.top + r = t.row ∧ d = t.col
    · rw [if_pos (by omega), if_pos hhere]
      exact encode_attrib c.toNat_lt h.attrib
    · rw [if_neg (by omega), if_neg hhere]
      exact h.cells r hr d hd
  · intro k hk
    rw [TextMem.mem_store_stored] at hk
    cases hk with
    | inl hk => omega
    | inr hk => exact h.stored k hk

theorem tab_column {x : Nat} (hx : x < 80) : (x + 8) &&& 0xFFFFFFF8 = (x / 8 + 1) * 8 := by
  revert x
  decide

theorem place (h : Shows v t) (c : UInt8) : Shows (v.place c).wrap.scroll (t.write c) := by
  have hx := h.csrX
  have hcol := h.col_lt
  unfold Vga.place Terminal.write
  by_cases hbs : c = 0x08
  · simp only [if_pos hbs]
    by_cases hzero : v.csrX = 0
    · have hsame : ({ t with col := t.col - 1 } : Terminal) = t := by
        rw [show t.col - 1 = t.col by omega]
      rw [if_neg (not_not_intro hzero), hsame]
      exact h.settled
    · rw [if_pos hzero, ← hx]
      exact (h.withCol (by omega)).settled
  · simp only [if_neg hbs]
    by_cases htab : c = 0x09
    · simp only [if_pos htab, tab_column hcol, ← hx]
      exact h.moveTo _
    · simp only [if_neg htab]
      by_cases hcr : c = 13
      · simp only [if_pos hcr]
        exact (h.withCol (by decide)).settled
      · simp only [if_neg hcr]
        by_cases hlf : c = 10
        · simp only [if_pos hlf]
          exact h.lineFeed
        · simp only [if_neg hlf]
          by_cases hctl : c < 32
          · rw [if_pos hctl, if_neg (UInt8.not_le.mpr hctl)]
            exact h.settled
          · rw [if_neg hctl, if_pos (UInt8.not_lt.mp hctl), ← hx]
            exact (h.printGlyph c).moveTo _

theorem putch (h : Shows v t) (c : UInt8) : Shows (v.putch c) (t.write c) :=
  (h.place c).moveCsr

/-- `puts` hands on the characters before the NUL, in order. -/
theorem puts_eq (text : List UInt8) (v : Vga) :
    v.puts text = (text.takeWhile (· ≠ 0)).foldl (fun v c => v.putch c) v := by
  have hgen : ∀ (text : List UInt8) (v : Vga), (List.range (Vga.strlen text)).foldl
      (fun v i => v.putch (text.getD i 0)) v =
        (text.takeWhile (· ≠ 0)).foldl (fun v c => v.putch c) v := by
    intro text
    induction text with
    | nil => intro v; rfl
    | cons c cs ih =>
        intro v
        by_cases hc : c = 0
        · simp [Vga.strlen, hc]
        · rw [Vga.strlen, if_neg hc, List.range_succ_eq_map, List.foldl_cons, List.foldl_map,
            List.takeWhile_cons_of_pos (by simpa using hc), List.foldl_cons]
          exact ih _
  exact hgen text v

theorem puts (h : Shows v t) (text : List UInt8) : Shows (v.puts text) (t.writeString text) := by
  rw [puts_eq, Terminal.writeString]
  generalize text.takeWhile (· ≠ 0) = chars
  induction chars generalizing v t with
  | nil => exact h
  | cons c cs ih => exact ih (h.putch c)

theorem settextcolor (h : Shows v t) (fore back : UInt8) :
    Shows (v.settextcolor fore back) (t.setColour fore back) := by
  refine ⟨h.csrX, h.csrY, h.col_lt, h.row_lt, ?_, h.cells, h.stored⟩
  have hfore : fore.toNat &&& 0x0F = fore.toNat % 16 := Nat.and_two_pow_sub_one_eq_mod _ 4
  have hback := back.toNat_lt
  simp only [Vga.settextcolor, Terminal.setColour, hfore, Nat.or_comm]
  have hlow : fore.toNat % 16 < 2 ^ 4 := Nat.mod_lt _ (by decide)
  rw [or_shiftLeft hlow]
  omega

/-- The row-by-row fill of `cls`. -/
theorem clearRows_cell (b : BitVec 16) (m : TextMem) (n k : Nat) :
    ((List.range n).foldl (fun m i => m.memsetw (i * 80) b 80) m).cell k =
      if k < n * 80 then b else m.cell k := by
  induction n with
  | zero => simp
  | succ n ih =>
      rw [List.range_succ, List.foldl_append, List.foldl_cons, List.foldl_nil]
      have hrow : ∀ m' : TextMem, (m'.memsetw (n * 80) b 80).cell k =
          if n * 80 ≤ k ∧ k < n * 80 + 80 then b else m'.cell k :=
        fun m' => TextMem.memsetw_cell (n * 80) b 80 m' k
      rw [hrow, ih]
      by_cases hlast : n * 80 ≤ k ∧ k < n * 80 + 80
      · rw [if_pos hlast, if_pos (by omega)]
      · rw [if_neg hlast]
        by_cases hk : k < n * 80
        · rw [if_pos hk, if_pos (by omega)]
        · rw [if_neg hk, if_neg (by omega)]

theorem mem_clearRows_stored (b : BitVec 16) (m : TextMem) (n k : Nat) :
    k ∈ ((List.range n).foldl (fun m i => m.memsetw (i * 80) b 80) m).stored →
      k < n * 80 ∨ k ∈ m.stored := by
  induction n with
  | zero => exact Or.inr
  | succ n ih =>
      rw [List.range_succ, List.foldl_append, List.foldl_cons, List.foldl_nil]
      intro hk
      cases (TextMem.mem_memsetw_stored _ _ 80 _ _).mp hk with
      | inl hk => left; omega
      | inr hk =>
          cases ih hk with
          | inl hk => left; omega
          | inr hk => exact Or.inr hk

theorem cls (h : Shows v t) : Shows v.cls t.clear := by
  apply Shows.moveCsr
  refine ⟨rfl, rfl, Nat.zero_lt_succ 79, Nat.zero_lt_succ 24, h.attrib, ?_, ?_⟩
  · intro r hr c hc
    simp only [clearRows_cell, Terminal.clear]
    rw [if_pos (by omega), if_pos (by omega)]
    exact h.blank
  · intro k hk
    cases mem_clearRows_stored _ _ _ _ hk with
    | inl hk => exact hk
    | inr hk => exact h.stored k hk

theorem call (h : Shows v t) (o : VideoCall) : Shows (o.onVga v) (o.onTerminal t) := by
  cases o with
  | putch c => exact h.putch c
  | puts text => exact h.puts text
  | settextcolor fore back => exact h.settextcolor fore back
  | cls => exact h.cls

theorem start (content : Nat → BitVec 16) :
    Shows (Vga.boot content).initVideo (Terminal.start content) := by
  apply Shows.moveCsr
  refine ⟨rfl, rfl, Nat.zero_lt_succ 79, show 10 < 25 by decide, rfl, ?_, by simp [Vga.boot]⟩
  intro r _ c _
  simp only [Vga.boot, Terminal.start, Glyph.encode_decode, Nat.zero_add]

/-- Every sequence of calls keeps the driver a window onto the terminal. -/
theorem calls (h : Shows v t) (os : List VideoCall) :
    Shows (os.foldl (fun v o => o.onVga v) v) (os.foldl (fun t o => o.onTerminal t) t) := by
  induction os generalizing v t with
  | nil => exact h
  | cons o os ih => exact ih (h.call o)

end Shows

/-- From `init_video` on, whatever the screen held and whatever is called, the
cursor is on the screen, only cells of the screen were written, and the screen
is the terminal's window. -/
theorem vga_window (content : Nat → BitVec 16) (os : List VideoCall) :
    let v := os.foldl (fun v o => o.onVga v) (Vga.boot content).initVideo
    let t := os.foldl (fun t o => o.onTerminal t) (Terminal.start content)
    v.csrX < 80 ∧ v.csrY < 25 ∧ (∀ k ∈ v.text.stored, k < 2000) ∧
      v.csrX = t.col ∧ t.row = t.top + v.csrY ∧
      ∀ r < 25, ∀ c < 80, v.text.cell (r * 80 + c) = (t.grid (t.top + r) c).encode := by
  have h := (Shows.start content).calls os
  exact ⟨h.col_lt, h.row_lt, h.stored, h.csrX, h.csrY, h.cells⟩

end X32PRos
