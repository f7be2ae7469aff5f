import X32PRos.Console.Kprintf
import X32PRos.Foundation.Numeral

/-!
What a format denotes: its bytes are read as tokens, and each token is rendered
with the arguments that are left. Nothing here mentions the buffer.
-/

namespace X32PRos

open Foundation

inductive Token
  | literal (c : UInt8)
  /-- A backslash and a character. -/
  | escape (c : UInt8)
  | string
  | char
  | hex
  | decimal
  /-- A percent sign and a character that names no conversion. -/
  | alone (c : UInt8)
deriving DecidableEq, Repr

inductive Arg
  | string (text : List UInt8)
  | char (v : UInt32)
  | number (v : UInt32)
deriving DecidableEq, Repr

namespace Token

def ofConversion (c : UInt8) : Token :=
  if c = code 's' then .string
  else if c = code 'c' then .char
  else if c = code 'x' then .hex
  else if c = code 'd' then .decimal
  else .alone c

def bytes : Token → List UInt8
  | .literal c => [c]
  | .escape c => [backslash, c]
  | .string => [percent, code 's']
  | .char => [percent, code 'c']
  | .hex => [percent, code 'x']
  | .decimal => [percent, code 'd']
  | .alone c => [percent, c]

/-- The tokens that a format is read as. -/
inductive Proper : Token → Prop
  | literal {c : UInt8} (hpercent : c ≠ percent) (hbackslash : c ≠ backslash) : Proper (.literal c)
  | escape (c : UInt8) : Proper (.escape c)
  | conversion (c : UInt8) : Proper (ofConversion c)

theorem bytes_ofConversion (c : UInt8) : (ofConversion c).bytes = [percent, c] := by
  unfold ofConversion
  by_cases hs : c = code 's'
  · rw [if_pos hs, hs, bytes]
  · rw [if_neg hs]
    by_cases hc : c = code 'c'
    · rw [if_pos hc, hc, bytes]
    · rw [if_neg hc]
      by_cases hx : c = code 'x'
      · rw [if_pos hx, hx, bytes]
      · rw [if_neg hx]
        by_cases hd : c = code 'd'
        · rw [if_pos hd, hd, bytes]
        · rw [if_neg hd, bytes]

theorem bytes_ne_nil (t : Token) : t.bytes ≠ [] := by
  cases t <;> exact List.cons_ne_nil _ _

end Token

/-- A token takes at least one byte. -/
theorem length_le_of_bytes (tokens : List Token) :
    tokens.length ≤ (tokens.flatMap Token.bytes).length := by
  induction tokens with
  | nil => exact Nat.le_refl 0
  | cons t ts ih =>
      rw [List.flatMap_cons, List.length_append, List.length_cons, Nat.add_comm]
      exact Nat.add_le_add (List.length_pos_of_ne_nil t.bytes_ne_nil) ih

/-- The tokens of a format; none when it ends inside a sequence. -/
def tokenize : List UInt8 → Option (List Token)
  | [] => some []
  | [c] => if c = percent ∨ c = backslash then none else some [.literal c]
  | c :: d :: rest =>
      if c = percent then (tokenize rest).map (Token.ofConversion d :: ·)
      else if c = backslash then (tokenize rest).map (Token.escape d :: ·)
      else (tokenize (d :: rest)).map (Token.literal c :: ·)

/-- The tokens spell the format. -/
theorem bytes_of_tokenize {format : List UInt8} {tokens : List Token}
    (h : tokenize format = some tokens) :
    tokens.flatMap Token.bytes = format ∧ ∀ t ∈ tokens, t.Proper := by
  induction format using tokenize.induct generalizing tokens with
  | case1 =>
      cases h
      exact ⟨rfl, List.forall_mem_nil _⟩
  | case2 c hc => simp only [tokenize, if_pos hc, reduceCtorEq] at h
  | case3 c hc =>
      simp only [tokenize, if_neg hc, Option.some.injEq] at h
      rw [← h]
      have hne := not_or.mp hc
      exact ⟨rfl, List.forall_mem_singleton.mpr (.literal hne.1 hne.2)⟩
  | case4 d rest ih =>
      rw [tokenize, if_pos rfl, Option.map_eq_some_iff] at h
      obtain ⟨ts, hts, rfl⟩ := h
      refine ⟨?_, List.forall_mem_cons.mpr ⟨.conversion d, (ih hts).2⟩⟩
      rw [List.flatMap_cons, (ih hts).1, Token.bytes_ofConversion]
      rfl
  | case5 d rest hc ih =>
      rw [tokenize, if_neg hc, if_pos rfl, Option.map_eq_some_iff] at h
      obtain ⟨ts, hts, rfl⟩ := h
      refine ⟨?_, List.forall_mem_cons.mpr ⟨.escape d, (ih hts).2⟩⟩
      rw [List.flatMap_cons, (ih hts).1]
      rfl
  | case6 c d rest hc hb ih =>
      rw [tokenize, if_neg hc, if_neg hb, Option.map_eq_some_iff] at h
      obtain ⟨ts, hts, rfl⟩ := h
      refine ⟨?_, List.forall_mem_cons.mpr ⟨.literal hc hb, (ih hts).2⟩⟩
      rw [List.flatMap_cons, (ih hts).1]
      rfl

theorem tokenize_literal {c : UInt8} (hpercent : c ≠ percent) (hbackslash : c ≠ backslash)
    (rest : List UInt8) : tokenize (c :: rest) = (tokenize rest).map (Token.literal c :: ·) := by
  cases rest with
  | nil => exact if_neg (not_or.mpr ⟨hpercent, hbackslash⟩)
  | cons d rest => rw [tokenize, if_neg hpercent, if_neg hbackslash]

/-- A format that ends inside a sequence has tokens up to its last character. -/
theorem tokens_before_end {format : List UInt8} (h : tokenize format = none) :
    ∃ front c tokens, format = front ++ [c] ∧ (c = percent ∨ c = backslash) ∧
      tokenize front = some tokens := by
  induction format using tokenize.induct with
  | case1 => cases h
  | case2 c hc => exact ⟨[], c, [], rfl, hc, rfl⟩
  | case3 c hc => simp only [tokenize, if_neg hc, reduceCtorEq] at h
  | case4 d rest ih =>
      rw [tokenize, if_pos rfl, Option.map_eq_none_iff] at h
      obtain ⟨front, c, tokens, rfl, hc, htokens⟩ := ih h
      refine ⟨percent :: d :: front, c, Token.ofConversion d :: tokens, rfl, hc, ?_⟩
      rw [tokenize, if_pos rfl, htokens]
      rfl
  | case5 d rest hc ih =>
      rw [tokenize, if_neg hc, if_pos rfl, Option.map_eq_none_iff] at h
      obtain ⟨front, c, tokens, rfl, hlast, htokens⟩ := ih h
      refine ⟨backslash :: d :: front, c, Token.escape d :: tokens, rfl, hlast, ?_⟩
      rw [tokenize, if_neg hc, if_pos rfl, htokens]
      rfl
  | case6 c d rest hc hb ih =>
      rw [tokenize_literal hc hb, Option.map_eq_none_iff] at h
      obtain ⟨front, c', tokens, hrest, hlast, htokens⟩ := ih h
      refine ⟨c :: front, c', Token.literal c :: tokens, ?_, hlast, ?_⟩
      · rw [hrest]
        rfl
      · rw [tokenize_literal hc hb, htokens]
        rfl

def escapes : List (UInt8 × UInt8) :=
  [(code 'a', 7), (code 'b', 8), (code 't', 9), (code 'n', 10), (code 'r', 13),
    (backslash, backslash)]

/-- A pair that is not in the table vanishes. -/
def escapeText (c : UInt8) : List UInt8 := (escapes.lookup c).toList

def digitChar (d : Nat) : UInt8 := UInt8.ofNat (if d < 10 then 48 + d else 87 + d)

def digitValue (c : UInt8) : Nat := if c.toNat < 97 then c.toNat - 48 else c.toNat - 87

def decimalText (v : UInt32) : List UInt8 := (Numeral.free 10 v.toNat).map digitChar

def hexText (v : UInt32) : List UInt8 := (Numeral.fixed 16 8 v.toNat).map digitChar

def readNumber (base : Nat) (text : List UInt8) : Nat :=
  Numeral.value base (text.map digitValue)

/-- The text of a token, and the arguments it leaves. -/
def Token.render : Token → List Arg → Option (List UInt8 × List Arg)
  | .literal c, args => some ([c], args)
  | .escape c, args => some (escapeText c, args)
  | .alone c, args => some ([c], args)
  | .string, .string text :: args => some (text, args)
  | .char, .char v :: args => some ([UInt8.ofNat v.toNat], args)
  | .hex, .number v :: args => some (hexText v, args)
  | .decimal, .number v :: args => some (decimalText v, args)
  | _, _ => none

/-- The text of a format; none when an argument is missing or of the wrong kind. -/
def render : List Token → List Arg → Option (List UInt8)
  | [], _ => some []
  | t :: ts, args =>
      match t.render args with
      | none => none
      | some (text, rest) => (render ts rest).map (text ++ ·)

section Numbers

structure NumberTexts (n : UInt32) : Prop where
  decimal_head : n ≠ 0 → (decimalText n).head? ≠ some (code '0')
  decimal_zero : n = 0 → decimalText n = [code '0']
  decimal_digits : ∀ c ∈ decimalText n, code '0' ≤ c ∧ c ≤ code '9'
  decimal_reads : readNumber 10 (decimalText n) = n.toNat
  hex_length : (hexText n).length = 8
  hex_digits : ∀ c ∈ hexText n, c ∈ PrintBuf.hexDigits
  hex_reads : readNumber 16 (hexText n) = n.toNat

theorem digitValue_digitChar {d : Nat} (h : d < 16) : digitValue (digitChar d) = d := by
  have hall : ∀ d < 16, digitValue (digitChar d) = d := by decide
  exact hall d h

theorem digitChar_hex {d : Nat} (h : d < 16) : digitChar d ∈ PrintBuf.hexDigits := by
  have hall : ∀ d < 16, digitChar d ∈ PrintBuf.hexDigits := by decide
  exact hall d h

theorem digitChar_eq_zero {d : Nat} (h : d < 16) : digitChar d = code '0' ↔ d = 0 := by
  have hall : ∀ d < 16, digitChar d = code '0' ↔ d = 0 := by decide
  exact hall d h

theorem map_digitValue {digits : List Nat} (h : ∀ d ∈ digits, d < 16) :
    (digits.map digitChar).map digitValue = digits := by
  rw [List.map_map]
  exact (List.map_congr_left fun d hd => digitValue_digitChar (h d hd)).trans (List.map_id digits)

theorem readNumber_decimalText (v : UInt32) : readNumber 10 (decimalText v) = v.toNat := by
  have hlt : ∀ d ∈ Numeral.free 10 v.toNat, d < 16 := by
    intro d hd
    exact Nat.lt_trans (Numeral.lt_of_mem_free (by decide) hd) (by decide)
  rw [readNumber, decimalText, map_digitValue hlt, Numeral.value_free]

theorem readNumber_hexText (v : UInt32) : readNumber 16 (hexText v) = v.toNat := by
  rw [readNumber, hexText, map_digitValue fun d hd => Numeral.lt_of_mem_fixed (by decide) hd,
    Numeral.value_fixed]

theorem length_hexText (v : UInt32) : (hexText v).length = 8 := by
  rw [hexText, List.length_map]
  exact Numeral.length_fixed (by decide) (Nat.lt_of_lt_of_eq v.toNat_lt (by decide))

theorem hexText_digits (v : UInt32) : ∀ c ∈ hexText v, c ∈ PrintBuf.hexDigits := by
  intro c hc
  obtain ⟨d, hd, rfl⟩ := List.mem_map.mp hc
  exact digitChar_hex (Numeral.lt_of_mem_fixed (by decide) hd)

theorem decimalText_digits (v : UInt32) : ∀ c ∈ decimalText v, code '0' ≤ c ∧ c ≤ code '9' := by
  intro c hc
  obtain ⟨d, hd, rfl⟩ := List.mem_map.mp hc
  have hall : ∀ d < 10, code '0' ≤ digitChar d ∧ digitChar d ≤ code '9' := by decide
  exact hall d (Numeral.lt_of_mem_free (by decide) hd)

/-- A number other than zero is printed without a leading zero. -/
theorem decimalText_head {v : UInt32} (hv : v ≠ 0) : (decimalText v).head? ≠ some (code '0') := by
  have hnat : v.toNat ≠ 0 := by
    intro h
    exact hv (UInt32.toNat_inj.mp h)
  have hne := Numeral.free_ne_nil 10 v.toNat
  have hlt := Numeral.lt_of_mem_free (by decide) (List.head_mem hne)
  intro h
  rw [decimalText, List.head?_map, List.head?_eq_some_head hne, Option.map_some,
    Option.some.injEq, digitChar_eq_zero (Nat.lt_trans hlt (by decide))] at h
  exact Numeral.free_head_ne_zero hnat h

theorem numberTexts (n : UInt32) : NumberTexts n where
  decimal_head := decimalText_head
  decimal_zero h := by
    rw [h]
    decide
  decimal_digits := decimalText_digits n
  decimal_reads := readNumber_decimalText n
  hex_length := length_hexText n
  hex_digits := hexText_digits n
  hex_reads := readNumber_hexText n

end Numbers

end X32PRos
