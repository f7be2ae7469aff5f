import Mathlib.Data.List.TakeWhile
import X32PRos.Video.Terminal

/-!
What can be read off the screen. Printed text lies in the cells from the cursor on,
row after row, until its row leaves the window.
-/

namespace X32PRos

/-- What printing leaves: a glyph, or the jump to the next row. -/
inductive Ink
  | glyph (g : Glyph)
  | newline
deriving DecidableEq, Repr

namespace Ink

/-- Where printing goes on; the cells are numbered row after row. -/
def advance (p : Nat) : Ink → Nat
  | .glyph _ => p + 1
  | .newline => (p / 80 + 1) * 80

def ending (p : Nat) (inks : List Ink) : Nat := inks.foldl advance p

/-- This is what the cells from `p` on read. -/
def At (cell : Nat → Glyph) : Nat → List Ink → Prop
  | _, [] => True
  | p, .glyph g :: rest => cell p = g ∧ At cell (p + 1) rest
  | p, .newline :: rest => At cell ((p / 80 + 1) * 80) rest

theorem lt_advance (p : Nat) (i : Ink) : p < i.advance p := by
  cases i with
  | glyph g => exact Nat.lt_succ_self p
  | newline =>
      change p < (p / 80 + 1) * 80
      omega

theorem le_ending (p : Nat) (inks : List Ink) : p ≤ ending p inks := by
  induction inks generalizing p with
  | nil => exact Nat.le_refl p
  | cons i inks ih => exact Nat.le_trans (Nat.le_of_lt (i.lt_advance p)) (ih (i.advance p))

/-- A newline takes a row at most. -/
theorem ending_le (p : Nat) (inks : List Ink) :
    ending p inks ≤ p + inks.length + 79 * inks.count .newline := by
  induction inks generalizing p with
  | nil => exact Nat.le_refl p
  | cons i inks ih =>
      have hrest := ih (i.advance p)
      change ending (i.advance p) inks ≤ _
      rw [List.length_cons]
      cases i with
      | glyph g =>
          have hne : Ink.glyph g ≠ .newline := Ink.noConfusion
          rw [List.count_cons_of_ne hne]
          change _ ≤ p + 1 + _ + _ at hrest
          omega
      | newline =>
          rw [List.count_cons_self]
          change _ ≤ (p / 80 + 1) * 80 + _ + _ at hrest
          omega

theorem ending_append (p : Nat) (front back : List Ink) :
    ending p (front ++ back) = ending (ending p front) back := List.foldl_append

variable {cell cell' : Nat → Glyph} {p : Nat} {inks : List Ink}

theorem At.congr (h : At cell p inks) (hsame : ∀ q, p ≤ q → q < ending p inks → cell' q = cell q) :
    At cell' p inks := by
  induction inks generalizing p with
  | nil => trivial
  | cons i inks ih =>
      have hlt := i.lt_advance p
      have hrest : ∀ q, i.advance p ≤ q → q < ending (i.advance p) inks → cell' q = cell q :=
        fun q hle => hsame q (Nat.le_trans (Nat.le_of_lt hlt) hle)
      cases i with
      | glyph g =>
          exact ⟨(hsame p (Nat.le_refl p) (Nat.lt_of_lt_of_le hlt (le_ending _ inks))).trans h.1,
            ih h.2 hrest⟩
      | newline => exact ih (p := (p / 80 + 1) * 80) h hrest

theorem At.append {front back : List Ink} (hfront : At cell p front)
    (hback : At cell (ending p front) back) : At cell p (front ++ back) := by
  induction front generalizing p with
  | nil => exact hback
  | cons i front ih =>
      cases i with
      | glyph g => exact ⟨hfront.1, ih hfront.2 hback⟩
      | newline => exact ih (p := (p / 80 + 1) * 80) hfront hback

/-- Whole rows may be left out of the count. -/
theorem advance_rows (rows p : Nat) (i : Ink) :
    i.advance (rows * 80 + p) = rows * 80 + i.advance p := by
  cases i with
  | glyph g => rfl
  | newline =>
      change ((rows * 80 + p) / 80 + 1) * 80 = rows * 80 + (p / 80 + 1) * 80
      omega

theorem ending_rows (rows p : Nat) (inks : List Ink) :
    ending (rows * 80 + p) inks = rows * 80 + ending p inks := by
  induction inks generalizing p with
  | nil => rfl
  | cons i inks ih =>
      change ending (i.advance (rows * 80 + p)) inks = rows * 80 + ending (i.advance p) inks
      rw [advance_rows, ih]

theorem At.rows {rows : Nat} (h : At cell (rows * 80 + p) inks) :
    At (fun q => cell (rows * 80 + q)) p inks := by
  induction inks generalizing p with
  | nil => trivial
  | cons i inks ih =>
      cases i with
      | glyph g => exact ⟨h.1, ih h.2⟩
      | newline =>
          have hrow : ((rows * 80 + p) / 80 + 1) * 80 = rows * 80 + (p / 80 + 1) * 80 :=
            advance_rows rows p .newline
          apply ih
          rw [← hrow]
          exact h

end Ink

namespace Terminal

def place (t : Terminal) : Nat := t.row * 80 + t.col

def cell (t : Terminal) (q : Nat) : Glyph := t.grid (q / 80) (q % 80)

def ink (t : Terminal) : Ink → Terminal
  | .glyph g => (t.printGlyph g).moveTo (t.col + 1)
  | .newline => { t with col := 0 }.lineFeed

structure Printed (t : Terminal) (inks : List Ink) (t' : Terminal) : Prop where
  reads : Ink.At t'.cell t.place inks
  place : t'.place = Ink.ending t.place inks
  kept : ∀ q < t.place, t'.cell q = t.cell q
  col_lt : t'.col < 80
  row_lt : t'.row < t'.top + 25
  top : t'.top = max t.top (t'.row - 24)

structure Inside (t : Terminal) : Prop where
  col_lt : t.col < 80
  row_le : t.top ≤ t.row
  row_lt : t.row < t.top + 25

theorem lineFeed_grid (t : Terminal) {r : Nat} (hr : r ≤ t.row) (c : Nat) :
    t.lineFeed.grid r c = t.grid r c := by
  unfold lineFeed
  by_cases hlast : t.row + 1 < t.top + 25
  · rw [if_pos hlast]
  · rw [if_neg hlast]
    exact if_neg (by omega)

theorem lineFeed_top (t : Terminal) (h : t.row < t.top + 25) :
    t.lineFeed.top = max t.top (t.row + 1 - 24) := by
  unfold lineFeed
  by_cases hlast : t.row + 1 < t.top + 25
  · rw [if_pos hlast]
    exact (Nat.max_eq_left (show t.row + 1 - 24 ≤ t.top by omega)).symm
  · rw [if_neg hlast]
    change t.top + 1 = _
    omega

theorem lineFeed_row (t : Terminal) : t.lineFeed.row = t.row + 1 := by
  unfold lineFeed
  split <;> rfl

theorem lineFeed_col (t : Terminal) : t.lineFeed.col = t.col := by
  unfold lineFeed
  split <;> rfl

theorem lineFeed_colour (t : Terminal) : t.lineFeed.colour = t.colour := by
  unfold lineFeed
  split <;> rfl

theorem moveTo_colour (t : Terminal) (col : Nat) : (t.moveTo col).colour = t.colour := by
  unfold moveTo
  split
  · rfl
  · exact lineFeed_colour _

theorem Inside.lineFeed {t : Terminal} (h : t.Inside) : { t with col := 0 }.lineFeed.Inside := by
  have htop := lineFeed_top { t with col := 0 } h.row_lt
  have hrow := lineFeed_row { t with col := 0 }
  have hcol := lineFeed_col { t with col := 0 }
  dsimp only at htop hrow hcol
  have hle := h.row_le
  have hlt := h.row_lt
  exact ⟨by omega, by omega, by omega⟩

/-- The next row begins where a newline goes, and nothing above it changes. -/
theorem printed_newline {t : Terminal} (h : t.Inside) :
    t.Printed [.newline] (t.ink .newline) := by
  have htop := lineFeed_top { t with col := 0 } h.row_lt
  have hrow := lineFeed_row { t with col := 0 }
  have hcol := lineFeed_col { t with col := 0 }
  have hinside := h.lineFeed
  have hlt := h.col_lt
  dsimp only at htop hrow hcol
  constructor
  case reads => trivial
  case place =>
    change Terminal.place (Terminal.lineFeed _) = (t.place / 80 + 1) * 80
    rw [place, place, hrow, hcol]
    omega
  case kept =>
    intro q hq
    apply lineFeed_grid
    change q / 80 ≤ t.row
    rw [place] at hq
    omega
  case col_lt => exact hinside.col_lt
  case row_lt => exact hinside.row_lt
  case top =>
    change Terminal.top (Terminal.lineFeed _) = max t.top (Terminal.row (Terminal.lineFeed _) - 24)
    rw [htop, hrow]

/-- A glyph goes to the cell of the cursor. -/
theorem printed_glyph {t : Terminal} (h : t.Inside) (g : Glyph) :
    t.Printed [.glyph g] (t.ink (.glyph g)) := by
  have hlt := h.col_lt
  have hle := h.row_le
  have hrow := h.row_lt
  have hcell : ∀ q, (t.printGlyph g).cell q = if q = t.place then g else t.cell q := by
    intro q
    change (if q / 80 = t.row ∧ q % 80 = t.col then g else t.cell q) = _
    rw [place]
    by_cases hq : q / 80 = t.row ∧ q % 80 = t.col
    · rw [if_pos hq, if_pos (by omega)]
    · rw [if_neg hq, if_neg (by omega)]
  by_cases hcol : t.col + 1 < 80
  · have hmove : t.ink (.glyph g) = { t.printGlyph g with col := t.col + 1 } := if_pos hcol
    rw [hmove]
    constructor
    case reads => exact ⟨(hcell t.place).trans (if_pos rfl), trivial⟩
    case place => rfl
    case kept => exact fun q hq => (hcell q).trans (if_neg (Nat.ne_of_lt hq))
    case col_lt => exact hcol
    case row_lt => exact hrow
    case top => exact (Nat.max_eq_left (show t.row - 24 ≤ t.top by omega)).symm
  · -- past the last column the text goes on in the next row
    have hmove : t.ink (.glyph g) = { t.printGlyph g with col := 0 }.lineFeed := if_neg hcol
    have hfed := printed_newline (t := t.printGlyph g) ⟨hlt, hle, hrow⟩
    have hnext : (t.place / 80 + 1) * 80 = t.place + 1 := by
      rw [place]
      omega
    have hplace : (t.printGlyph g).place = t.place := rfl
    rw [hmove]
    constructor
    case reads =>
      refine ⟨?_, trivial⟩
      have hrow : t.place / 80 ≤ t.row := by
        rw [place]
        omega
      exact (lineFeed_grid { t.printGlyph g with col := 0 } hrow _).trans
        ((hcell t.place).trans (if_pos rfl))
    case place => exact hfed.place.trans hnext
    case kept =>
      intro q hq
      exact (hfed.kept q hq).trans ((hcell q).trans (if_neg (Nat.ne_of_lt hq)))
    case col_lt => exact hfed.col_lt
    case row_lt => exact hfed.row_lt
    case top => exact hfed.top

theorem Printed.nil {t : Terminal} (h : t.Inside) (colour : Colour) :
    t.Printed [] { t with colour := colour } :=
  have htop : t.row - 24 ≤ t.top := by
    have hlt := h.row_lt
    omega
  ⟨trivial, rfl, fun _ _ => rfl, h.col_lt, h.row_lt, (Nat.max_eq_left htop).symm⟩

theorem Printed.row_le {t t' : Terminal} {inks : List Ink} (h : t.Printed inks t')
    (ht : t.Inside) : t.row ≤ t'.row := by
  have hplace := Ink.le_ending t.place inks
  have hcol := h.col_lt
  rw [← h.place, Terminal.place, Terminal.place] at hplace
  have hlt := ht.col_lt
  omega

theorem Printed.inside {t t' : Terminal} {inks : List Ink} (h : t.Printed inks t')
    (ht : t.Inside) : t'.Inside := by
  have hrow := h.row_le ht
  have htop := h.top
  have hle := ht.row_le
  exact ⟨h.col_lt, by omega, h.row_lt⟩

theorem Printed.trans {t t' t'' : Terminal} {front back : List Ink} (h : t.Printed front t')
    (h' : t'.Printed back t'') (ht : t.Inside) : t.Printed (front ++ back) t'' := by
  have hforth : t.place ≤ t'.place := by
    rw [h.place]
    exact Ink.le_ending _ _
  constructor
  case reads =>
    apply Ink.At.append
    · apply h.reads.congr
      intro q _ hq
      apply h'.kept
      rw [h.place]
      exact hq
    · rw [← h.place]
      exact h'.reads
  case place => rw [h'.place, h.place, Ink.ending_append]
  case kept =>
    intro q hq
    exact (h'.kept q (Nat.lt_of_lt_of_le hq hforth)).trans (h.kept q hq)
  case col_lt => exact h'.col_lt
  case row_lt => exact h'.row_lt
  case top =>
    have hrow := h'.row_le (h.inside ht)
    have htop := h.top
    have htop' := h'.top
    omega

/-- Printing one glyph or newline. -/
theorem printed_ink {t : Terminal} (h : t.Inside) (i : Ink) : t.Printed [i] (t.ink i) := by
  cases i with
  | glyph g => exact printed_glyph h g
  | newline => exact printed_newline h

end Terminal

/-! ### Texts and colours -/

def Legible (c : UInt8) : Prop := c = 10 ∨ 32 ≤ c

instance (c : UInt8) : Decidable (Legible c) := inferInstanceAs (Decidable (c = 10 ∨ 32 ≤ c))

def inkOf (colour : Colour) (c : UInt8) : Ink :=
  if c = 10 then .newline else .glyph ⟨⟨c.toNat, c.toNat_lt⟩, colour⟩

theorem count_newline (colour : Colour) (text : List UInt8) :
    (text.map (inkOf colour)).count .newline = text.count 10 := by
  induction text with
  | nil => rfl
  | cons c cs ih =>
      by_cases hc : c = 10
      · have hink : inkOf colour c = .newline := if_pos hc
        rw [List.map_cons, hink, List.count_cons_self, ih, hc, List.count_cons_self]
      · have hink : inkOf colour c = .glyph ⟨⟨c.toNat, c.toNat_lt⟩, colour⟩ := if_neg hc
        have hne : Ink.glyph ⟨⟨c.toNat, c.toNat_lt⟩, colour⟩ ≠ .newline := Ink.noConfusion
        rw [List.map_cons, hink, List.count_cons_of_ne hne, ih, List.count_cons_of_ne hc]

theorem Terminal.write_ink (t : Terminal) {c : UInt8} (hc : Legible c) :
    t.write c = t.ink (inkOf t.colour c) := by
  cases hc with
  | inl hnewline =>
      rw [hnewline]
      rfl
  | inr hglyph =>
      have hnot : ∀ d : UInt8, d < 32 → c ≠ d := fun d hd heq =>
        absurd (heq ▸ hglyph) (UInt8.not_le.mpr hd)
      unfold write inkOf
      rw [if_neg (hnot _ (by decide)), if_neg (hnot _ (by decide)), if_neg (hnot _ (by decide)),
        if_neg (hnot _ (by decide)), if_neg (UInt8.not_lt.mpr hglyph), if_neg (hnot _ (by decide))]
      rfl

theorem Terminal.ink_colour (t : Terminal) (i : Ink) : (t.ink i).colour = t.colour := by
  cases i with
  | glyph g => exact moveTo_colour _ _
  | newline => exact lineFeed_colour _

namespace VideoCall

def Legible : VideoCall → Prop
  | .putch c => X32PRos.Legible c
  | .puts text => ∀ c ∈ text, X32PRos.Legible c
  | .settextcolor _ _ => True
  | .cls => False

instance : (o : VideoCall) → Decidable o.Legible
  | .putch c => inferInstanceAs (Decidable (X32PRos.Legible c))
  | .puts text => List.decidableBAll X32PRos.Legible text
  | .settextcolor _ _ => inferInstanceAs (Decidable True)
  | .cls => inferInstanceAs (Decidable False)

def inks (colour : Colour) : VideoCall → List Ink
  | .putch c => [inkOf colour c]
  | .puts text => text.map (inkOf colour)
  | .settextcolor _ _ => []
  | .cls => []

def inksFrom : Colour → List VideoCall → List Ink
  | _, [] => []
  | colour, o :: os => o.inks colour ++ inksFrom (o.recolour colour) os

end VideoCall

theorem VideoCall.Legible.puts_append {front back : List UInt8}
    (hfront : (VideoCall.puts front).Legible) (hback : (VideoCall.puts back).Legible) :
    (VideoCall.puts (front ++ back)).Legible := List.forall_mem_append.mpr ⟨hfront, hback⟩

theorem VideoCall.inksFrom_puts (colour : Colour) (texts : List (List UInt8)) (os : List VideoCall) :
    inksFrom colour (texts.map .puts ++ os) =
      texts.flatten.map (inkOf colour) ++ inksFrom colour os := by
  induction texts with
  | nil => rfl
  | cons t ts ih =>
      rw [List.flatten_cons, List.map_append, List.append_assoc, ← ih]
      rfl

theorem Terminal.printed_text {t : Terminal} (h : t.Inside) {text : List UInt8}
    (htext : ∀ c ∈ text, Legible c) :
    t.Printed (text.map (inkOf t.colour)) (t.writeString text) ∧
      (t.writeString text).colour = t.colour := by
  have hwhole : text.takeWhile (· ≠ 0) = text := by
    apply List.takeWhile_eq_self_iff.mpr
    intro c hc
    apply decide_eq_true
    intro hzero
    rw [hzero] at hc
    exact absurd (htext 0 hc) (by decide)
  rw [writeString, hwhole]
  clear hwhole
  induction text generalizing t with
  | nil => exact ⟨.nil h t.colour, rfl⟩
  | cons c cs ih =>
      have hwrite := t.write_ink (htext c List.mem_cons_self)
      have hprinted := printed_ink h (inkOf t.colour c)
      have hcolour := t.ink_colour (inkOf t.colour c)
      rw [List.foldl_cons, hwrite]
      obtain ⟨hrest, hcolours⟩ := ih (hprinted.inside h) fun d hd =>
        htext d (List.mem_cons_of_mem c hd)
      rw [hcolour] at hrest hcolours
      exact ⟨hprinted.trans hrest h, hcolours⟩

theorem Terminal.printed_calls {t : Terminal} (h : t.Inside) {os : List VideoCall}
    (hos : ∀ o ∈ os, o.Legible) :
    t.Printed (VideoCall.inksFrom t.colour os) (os.foldl (fun t o => o.onTerminal t) t) := by
  induction os generalizing t with
  | nil => exact .nil h t.colour
  | cons o os ih =>
      have hrest := fun d hd => hos d (List.mem_cons_of_mem o hd)
      have hcall := hos o List.mem_cons_self
      have hone : t.Printed (o.inks t.colour) (o.onTerminal t) ∧
          (o.onTerminal t).colour = o.recolour t.colour := by
        cases o with
        | putch c =>
            have hwrite := t.write_ink hcall
            change t.Printed _ (t.write c) ∧ (t.write c).colour = t.colour
            rw [hwrite]
            exact ⟨printed_ink h _, t.ink_colour _⟩
        | puts text => exact printed_text h hcall
        | settextcolor fore back => exact ⟨.nil h _, rfl⟩
        | cls => exact absurd hcall not_false
      obtain ⟨hprinted, hcolour⟩ := hone
      have hrun := ih (hprinted.inside h) hrest
      rw [hcolour] at hrun
      exact hprinted.trans hrun h

/-! ### On the screen -/

def Vga.glyph (v : Vga) (q : Nat) : Glyph := .decode (v.text.cell q)

def Vga.colour (v : Vga) : Colour where
  fore := ⟨v.attrib % 16, Nat.mod_lt _ (by decide)⟩
  back := ⟨v.attrib / 16 % 16, Nat.mod_lt _ (by decide)⟩

/-- The screen shows what it showed before, moved up by some rows, and behind that, from the
old cursor to the new one, what has been printed. -/
def Vga.Adds (v : Vga) (inks : List Ink) (v' : Vga) : Prop :=
  ∃ up start, up * 80 + start = v.csrY * 80 + v.csrX ∧
    (∀ q < start, v'.glyph q = v.glyph (up * 80 + q)) ∧ Ink.At v'.glyph start inks ∧
      Ink.ending start inks = v'.csrY * 80 + v'.csrX

theorem Glyph.decode_encode (g : Glyph) : decode g.encode = g := by
  obtain ⟨⟨char, hchar⟩, ⟨⟨fore, hfore⟩, ⟨back, hback⟩⟩⟩ := g
  simp only [decode, encode, BitVec.toNat_ofNat, Glyph.mk.injEq, Colour.mk.injEq, Fin.mk.injEq]
  omega

namespace Shows

variable {v v' : Vga} {t t' : Terminal} {inks : List Ink}

theorem inside (h : Shows v t) : t.Inside := by
  have hrow := h.csrY
  have hlt := h.row_lt
  exact ⟨h.csrX ▸ h.col_lt, by omega, by omega⟩

theorem glyph_eq (h : Shows v t) {q : Nat} (hq : q < 2000) :
    v.glyph q = t.cell (t.top * 80 + q) := by
  have hcell := h.cells (q / 80) (by omega) (q % 80) (Nat.mod_lt q (by decide))
  have hnumber : q / 80 * 80 + q % 80 = q := by omega
  have hrow : (t.top * 80 + q) / 80 = t.top + q / 80 := by omega
  have hcol : (t.top * 80 + q) % 80 = q % 80 := by omega
  rw [hnumber] at hcell
  rw [Vga.glyph, hcell, Glyph.decode_encode, Terminal.cell, hrow, hcol]

/-- What fits on the screen can be read there, and what was above it has moved up. -/
theorem adds (h : Shows v t) (h' : Shows v' t') (hprinted : t.Printed inks t')
    (hfits : Ink.ending v.csrX inks < 2000) : v.Adds inks v' := by
  have hplace := hprinted.place
  have htop := hprinted.top
  have hrow := h.csrY
  have hcol := h.csrX
  have hlt := h.col_lt
  have hrowlt := h.row_lt
  have hrow' := h'.csrY
  have hcol' := h'.csrX
  have hrowlt' := h'.row_lt
  have hcollt' := h'.col_lt
  rw [Terminal.place, Terminal.place, Ink.ending_rows, ← hcol] at hplace
  have hseen : t'.top ≤ t.row := by omega
  generalize hbegin : (t.row - t'.top) * 80 + t.col = start
  have hstart : t.place = t'.top * 80 + start := by
    rw [Terminal.place]
    omega
  have hending : Ink.ending start inks = v'.csrY * 80 + v'.csrX := by
    rw [← hbegin, Ink.ending_rows, ← hcol]
    omega
  refine ⟨t'.top - t.top, start, by omega, ?_, ?_, hending⟩
  · intro q hq
    have hcell : t.top * 80 + ((t'.top - t.top) * 80 + q) = t'.top * 80 + q := by omega
    rw [h'.glyph_eq (by omega), h.glyph_eq (by omega), hcell]
    apply hprinted.kept
    omega
  · have hreads := hprinted.reads
    rw [hstart] at hreads
    apply hreads.rows.congr
    intro q _ hq
    rw [hending] at hq
    exact h'.glyph_eq (by omega)

/-- The same for calls of the driver. -/
theorem adds_calls (h : Shows v t) {os : List VideoCall} (hos : ∀ o ∈ os, o.Legible)
    (h' : Shows v' (os.foldl (fun t o => o.onTerminal t) t))
    (hfits : Ink.ending v.csrX (VideoCall.inksFrom t.colour os) < 2000) :
    v.Adds (VideoCall.inksFrom t.colour os) v' :=
  h.adds h' (Terminal.printed_calls h.inside hos) hfits

theorem colour_eq (h : Shows v t) : v.colour = t.colour := by
  have hattrib := h.attrib
  cases hcolour : t.colour with
  | mk fore back =>
      obtain ⟨fore, hfore⟩ := fore
      obtain ⟨back, hback⟩ := back
      rw [hcolour] at hattrib
      dsimp only at hattrib
      simp only [Vga.colour, Colour.mk.injEq, Fin.mk.injEq]
      omega

end Shows

/-- After any calls, those that print text which fits on the screen can be read off its cells:
from where the cursor stood up to where it stands, in their colours, below all that stood
there before. -/
theorem screen_reads (content : Nat → BitVec 16) (before os : List VideoCall)
    (hos : ∀ o ∈ os, o.Legible) :
    let v := before.foldl (fun v o => o.onVga v) (Vga.boot content).initVideo
    let inks := VideoCall.inksFrom v.colour os
    Ink.ending v.csrX inks < 2000 → v.Adds inks (os.foldl (fun v o => o.onVga v) v) := by
  intro v inks hfits
  have h := (Shows.start content).calls before
  have hcolour := h.colour_eq
  have hinks : inks = VideoCall.inksFrom _ os := congrArg (VideoCall.inksFrom · os) hcolour
  rw [hinks] at hfits ⊢
  exact h.adds_calls hos (h.calls os) hfits

/-- Three texts in two colours below an old one. -/
theorem screen_reads_panic :
    let old := [VideoCall.puts ([0x61, 0x62].map UInt8.ofNat)]
    let os := [VideoCall.settextcolor 14 4, .puts [0x50, 0x21, 10], .settextcolor 15 0, .putch 0x7E]
    let v := old.foldl (fun v o => o.onVga v) (Vga.boot fun _ => 0).initVideo
    let inks := VideoCall.inksFrom v.colour os
    v.Adds inks (os.foldl (fun v o => o.onVga v) v) := by
  intro old os v inks
  exact screen_reads (fun _ => 0) old os (by decide) (by decide)

end X32PRos
