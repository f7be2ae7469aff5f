import X32PRos.Console.Calls

/-!
Calls of `kprintf` with a format of the source: plain text with conversions in it,
each for one argument.
-/

namespace X32PRos

open Foundation

/-- Where the string literals lie. -/
abbrev Literals := List UInt8 → Nat

def Literals.In (lit : Literals) (mem : Memory) (texts : List (List UInt8)) : Prop :=
  ∀ text ∈ texts, mem.StringAt (lit text) text

namespace Literals

theorem In.mono {lit : Literals} {mem : Memory} {texts texts' : List (List UInt8)}
    (h : lit.In mem texts) (hsub : ∀ text ∈ texts', text ∈ texts) : lit.In mem texts' :=
  fun text htext => h text (hsub text htext)

/-- The linker lays each behind the NUL of the one before. -/
def link (base : Nat) : List (List UInt8) → Literals
  | [], _ => base
  | t :: ts, text => if text = t then base else link (base + (t.length + 1)) ts text

def memory (base : Nat) : List (List UInt8) → Memory
  | [], _ => 0
  | t :: ts, a =>
      if a < base + (t.length + 1) then t.getD (a - base) 0 else memory (base + (t.length + 1)) ts a

theorem le_link (base : Nat) (texts : List (List UInt8)) (text : List UInt8) :
    base ≤ link base texts text := by
  induction texts generalizing base with
  | nil => exact Nat.le_refl base
  | cons t ts ih =>
      unfold link
      split
      · exact Nat.le_refl base
      · exact Nat.le_trans (Nat.le_add_right _ _) (ih _)

theorem link_in (base : Nat) {texts : List (List UInt8)} (hnul : ∀ t ∈ texts, 0 ∉ t) :
    (link base texts).In (memory base texts) texts := by
  induction texts generalizing base with
  | nil => exact fun text h => absurd h List.not_mem_nil
  | cons t ts ih =>
      intro text hmem
      by_cases htext : text = t
      · have hlink : link base (t :: ts) text = base := if_pos htext
        rw [hlink, htext]
        apply Memory.stringAt_getD (hnul t List.mem_cons_self)
        intro i hi
        have hhere : memory base (t :: ts) (base + i) = t.getD (base + i - base) 0 :=
          if_pos (Nat.add_lt_add_left (Nat.lt_succ_of_le hi) base)
        rw [hhere, Nat.add_sub_cancel_left]
      · have hrest : text ∈ ts := (List.mem_cons.mp hmem).resolve_left htext
        have hlink : link base (t :: ts) text = link (base + (t.length + 1)) ts text :=
          if_neg htext
        have hstring := ih (base + (t.length + 1)) (fun t' ht' => hnul t' (List.mem_cons_of_mem t ht'))
          text hrest
        rw [hlink]
        apply hstring.congr
        intro x hx _
        have hle := Nat.le_trans (le_link _ ts text) hx
        exact if_neg (Nat.not_lt.mpr hle)

end Literals

def Plain (text : List UInt8) : Prop := ∀ c ∈ text, c ≠ percent ∧ c ≠ backslash

instance (text : List UInt8) : Decidable (Plain text) :=
  List.decidableBAll (fun c => c ≠ percent ∧ c ≠ backslash) text

theorem tokenize_plain {front : List UInt8} (h : Plain front) (rest : List UInt8) :
    tokenize (front ++ rest) = (tokenize rest).map (front.map Token.literal ++ ·) := by
  induction front with
  | nil => simp
  | cons c cs ih =>
      obtain ⟨hpercent, hbackslash⟩ := h c List.mem_cons_self
      rw [List.cons_append, tokenize_literal hpercent hbackslash,
        ih fun d hd => h d (List.mem_cons_of_mem c hd), Option.map_map]
      rfl

theorem render_literal (c : UInt8) (tokens : List Token) (as : List Arg) :
    render (.literal c :: tokens) as = (render tokens as).map (c :: ·) := rfl

theorem render_plain (front : List UInt8) (tokens : List Token) (as : List Arg) :
    render (front.map Token.literal ++ tokens) as = (render tokens as).map (front ++ ·) := by
  induction front with
  | nil => simp
  | cons c cs ih =>
      have hrest := Option.map_map (c :: ·) (cs ++ ·) (render tokens as)
      rw [← ih] at hrest
      exact (render_literal c _ as).trans hrest

/-- A word has ten decimal digits at most. -/
theorem length_decimalText_le (v : UInt32) : (decimalText v).length ≤ 10 := by
  rw [decimalText, List.length_map, Numeral.length_free (by decide)]
  by_cases hv : v.toNat = 0
  · rw [hv, Nat.log_zero_right]
    decide
  · have hlt : v.toNat < 10 ^ 10 := Nat.lt_trans v.toNat_lt (by decide)
    exact Nat.log_lt_of_lt_pow hv hlt

/-- Three digits, if the first is not zero. -/
theorem decimalText_three {v : UInt32} {a b c : Nat} (ha : v.toNat / 10 / 10 = a)
    (hb : v.toNat / 10 % 10 = b) (hc : v.toNat % 10 = c) (hpos : 0 < a) (hlt : a < 10) :
    decimalText v = [a, b, c].map digitChar := by
  have hfree : Numeral.free 10 v.toNat = [a, b, c] := by
    rw [Numeral.free_of_le (by decide) (by omega), Numeral.free_of_le (by decide) (by omega),
      Numeral.free_of_lt (by omega), ha, hb, hc]
    rfl
  exact congrArg (List.map digitChar) hfree

/-- Numbers stay on their line. -/
theorem count_decimalText (v : UInt32) : (decimalText v).count 10 = 0 :=
  List.count_eq_zero.mpr fun hmem => absurd (decimalText_digits v 10 hmem).1 (by decide)

theorem count_hexText (v : UInt32) : (hexText v).count 10 = 0 :=
  List.count_eq_zero.mpr fun hmem => absurd (hexText_digits v 10 hmem) (by decide)

theorem legible_decimalText (v : UInt32) : (VideoCall.puts (decimalText v)).Legible := fun c hc =>
  Or.inr (UInt8.le_trans (by decide) (decimalText_digits v c hc).1)

theorem legible_hexText (v : UInt32) : (VideoCall.puts (hexText v)).Legible := by
  have hdigits : (VideoCall.puts PrintBuf.hexDigits).Legible := by decide
  exact fun c hc => hdigits c (hexText_digits v c hc)

inductive Field
  | string (text : List UInt8)
  | hex (v : UInt32)
  | decimal (v : UInt32)

namespace Field

def conversion : Field → UInt8
  | .string _ => code 's'
  | .hex _ => code 'x'
  | .decimal _ => code 'd'

def arg : Field → Arg
  | .string text => .string text
  | .hex v => .number v
  | .decimal v => .number v

def text : Field → List UInt8
  | .string text => text
  | .hex v => hexText v
  | .decimal v => decimalText v

theorem render_eq (f : Field) (rest : List Arg) :
    (Token.ofConversion f.conversion).render (f.arg :: rest) = some (f.text, rest) := by
  cases f with
  | string text => rfl
  | hex v => rfl
  | decimal v => rfl

end Field

/-- Some plain text and a conversion behind it. -/
structure Piece where
  front : List UInt8
  field : Field

namespace Piece

/-- The format of so many pieces, with plain text behind them. -/
def format (pieces : List Piece) (back : List UInt8) : List UInt8 :=
  pieces.foldr (fun p rest => p.front ++ percent :: p.field.conversion :: rest) back

def text (pieces : List Piece) (back : List UInt8) : List UInt8 :=
  pieces.foldr (fun p rest => p.front ++ p.field.text ++ rest) back

def args (pieces : List Piece) : List Arg := pieces.map fun p => p.field.arg

variable {pieces : List Piece} {back : List UInt8}

theorem read_format (hfronts : ∀ p ∈ pieces, Plain p.front) (hback : Plain back) :
    ∃ tokens, tokenize (format pieces back) = some tokens ∧
      render tokens (args pieces) = some (text pieces back) := by
  induction pieces with
  | nil =>
      have hread := tokenize_plain hback []
      have hrender := render_plain back [] []
      rw [List.append_nil] at hread hrender
      refine ⟨back.map Token.literal, hread.trans ?_, hrender.trans ?_⟩
      · exact congrArg some (List.append_nil _)
      · exact congrArg some (List.append_nil _)
  | cons p ps ih =>
      obtain ⟨tokens, hread, hrender⟩ := ih fun q hq => hfronts q (List.mem_cons_of_mem p hq)
      refine ⟨p.front.map Token.literal ++ Token.ofConversion p.field.conversion :: tokens, ?_, ?_⟩
      · have hpiece : format (p :: ps) back =
            p.front ++ percent :: p.field.conversion :: format ps back := rfl
        rw [hpiece, tokenize_plain (hfronts p List.mem_cons_self), tokenize, if_pos rfl, hread]
        rfl
      · have hargs : args (p :: ps) = p.field.arg :: args ps := rfl
        rw [render_plain, hargs, render, p.field.render_eq]
        dsimp only
        rw [hrender]
        exact congrArg some (List.append_assoc _ _ _).symm

/-- A call of `kprintf` with a format of pieces prints their text. -/
theorem prints {mem : Memory} {fmt : Nat} {words : Nat → Nat}
    (hfronts : ∀ p ∈ pieces, Plain p.front) (hback : Plain back)
    (hstring : mem.StringAt fmt (format pieces back)) (hpassed : ArgsAt mem words 0 (args pieces))
    (hfits : (text pieces back).length ≤ 1023) :
    ConsoleCall.Prints mem fmt words (text pieces back) := by
  obtain ⟨tokens, hread, hrender⟩ := read_format hfronts hback
  exact .intro hstring hread hpassed hrender hfits

end Piece

def passed (words : List Nat) : Nat → Nat := fun k => words.getD k 0

/-- A format with one conversion. -/
theorem Field.prints {mem : Memory} {fmt word : Nat} {front back : List UInt8} {f : Field}
    (hfront : Plain front) (hback : Plain back)
    (hstring : mem.StringAt fmt (front ++ percent :: f.conversion :: back))
    (hpassed : ArgsAt mem (passed [word]) 0 [f.arg])
    (hfits : (front ++ f.text ++ back).length ≤ 1023) :
    ConsoleCall.Prints mem fmt (passed [word]) (front ++ f.text ++ back) := by
  have hfronts : ∀ p ∈ [Piece.mk front f], Plain p.front := by
    intro p hp
    rw [List.mem_singleton.mp hp]
    exact hfront
  exact Piece.prints hfronts hback hstring hpassed hfits

end X32PRos
