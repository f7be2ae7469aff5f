import X32PRos.Console.Format

/-!
What the scanner does with a token: every printer appends its text at `ptr`, and
a turn of the scan appends the text that the token stands for with the word that
is next on the stack. A string that has no NUL stands for no text.
-/

namespace X32PRos

open Foundation

namespace PrintBuf

def putAll (text : List UInt8) (b : PrintBuf) : PrintBuf := text.foldl (fun b c => b.put c) b

theorem putAll_append (front back : List UInt8) (b : PrintBuf) :
    b.putAll (front ++ back) = (b.putAll front).putAll back := List.foldl_append

theorem putAll_ptr (text : List UInt8) (b : PrintBuf) :
    (b.putAll text).ptr = b.ptr + text.length := by
  induction text generalizing b with
  | nil => rfl
  | cons c cs ih => exact (ih (b.put c)).trans (Nat.add_right_comm b.ptr 1 cs.length)

theorem putAll_buf_of_lt {text : List UInt8} {b : PrintBuf} {j : Nat} (h : j < b.ptr) :
    (b.putAll text).buf j = b.buf j := by
  induction text generalizing b with
  | nil => rfl
  | cons c cs ih => exact (ih (b := b.put c) (Nat.lt_succ_of_lt h)).trans (if_neg (Nat.ne_of_lt h))

/-- The indices a text is stored at. -/
theorem mem_putAll_stored (text : List UInt8) (b : PrintBuf) (k : Nat) :
    k ∈ (b.putAll text).stored ↔ k ∈ b.stored ∨ (b.ptr ≤ k ∧ k < b.ptr + text.length) := by
  induction text generalizing b with
  | nil => exact ⟨Or.inl, fun h => h.resolve_right (by rw [List.length_nil]; omega)⟩
  | cons c cs ih =>
      have hput : k ∈ (b.put c).stored ↔ k = b.ptr ∨ k ∈ b.stored := List.mem_cons
      have hptr : (b.put c).ptr = b.ptr + 1 := rfl
      rw [putAll, List.foldl_cons, ← putAll, ih, hput, hptr, List.length_cons, or_right_comm,
        or_comm]
      exact or_congr_right (by omega)

/-- A text that starts at the beginning of `buf` is stored below its length, the NUL at it. -/
theorem mem_stored_set_putAll {text : List UInt8} {b : PrintBuf} {k : Nat} (hptr : b.ptr = 0)
    (c : UInt8) : k ∈ ((b.putAll text).set c).stored ↔ k ∈ b.stored ∨ k ≤ text.length := by
  have hset : k ∈ ((b.putAll text).set c).stored ↔
      k = (b.putAll text).ptr ∨ k ∈ (b.putAll text).stored := List.mem_cons
  rw [hset, mem_putAll_stored, putAll_ptr, hptr, or_left_comm]
  exact or_congr_right (by omega)

/-- A text without a NUL is a string in the buffer once the NUL behind it is written. -/
theorem stringAt_putAll {text : List UInt8} (hnul : 0 ∉ text) (b : PrintBuf) :
    Memory.StringAt ((b.putAll text).set 0).buf b.ptr text := by
  induction text generalizing b with
  | nil => exact if_pos rfl
  | cons c cs ih =>
      have hlt : b.ptr < ((b.put c).putAll cs).ptr := by
        rw [putAll_ptr]
        exact Nat.lt_of_lt_of_le (Nat.lt_succ_self b.ptr) (Nat.le_add_right _ _)
      have hkept : (((b.put c).putAll cs).set 0).buf b.ptr = c := by
        have hset : (((b.put c).putAll cs).set 0).buf b.ptr = ((b.put c).putAll cs).buf b.ptr :=
          if_neg (Nat.ne_of_lt hlt)
        rw [hset, putAll_buf_of_lt (Nat.lt_succ_self b.ptr)]
        exact if_pos rfl
      refine ⟨hkept, fun h => hnul (h ▸ List.mem_cons_self), ?_⟩
      exact ih (fun h => hnul (List.mem_cons_of_mem c h)) (b.put c)

section Numbers

/-- A remainder below ten is not negative as an `int`, so nothing is moved into range. -/
theorem signed_digit {d : Nat} (h : d < 10) :
    signed d = (d : Int) ∧ ¬(d : Int) < 0 ∧ UInt8.ofInt ((d : Int) + 48) = digitChar d := by
  have hall : ∀ d < 10, UInt8.ofInt (((d : Nat) : Int) + 48) = digitChar d := by decide
  exact ⟨signed_of_lt (Nat.lt_trans h (by decide)), Int.not_lt.mpr (Int.natCast_nonneg d), hall d h⟩

theorem parseNum_of_lt {base value : Nat} (hten : base ≤ 10) (h : value < base) (fuel : Nat)
    (b : PrintBuf) : parseNum (fuel + 1) value base b = .ok (b.put (digitChar value)) := by
  have hmod : value % base = value := Nat.mod_eq_of_lt h
  obtain ⟨hsigned, hnot, hdigit⟩ := signed_digit (Nat.lt_of_lt_of_le h hten)
  simp only [parseNum, hmod, hsigned, if_neg hnot, if_neg (Nat.not_le.mpr h), hdigit]

theorem parseNum_of_le {base value : Nat} (hbase : 0 < base) (hten : base ≤ 10)
    (h : base ≤ value) (fuel : Nat) (b : PrintBuf) :
    parseNum (fuel + 1) value base b =
      (parseNum fuel (value / base) base b).map (put (digitChar (value % base))) := by
  obtain ⟨hsigned, hnot, hdigit⟩ := signed_digit (Nat.lt_of_lt_of_le (Nat.mod_lt value hbase) hten)
  simp only [parseNum, hsigned, if_neg hnot, if_pos h, hdigit]
  cases parseNum fuel (value / base) base b <;> rfl

/-- The quotient is printed first, then the last digit; there are as many calls as digits. -/
theorem parseNum_eq {base : Nat} (hbase : 1 < base) (hten : base ≤ 10) (fuel value : Nat)
    (b : PrintBuf) :
    parseNum fuel value base b =
      if (Numeral.free base value).length ≤ fuel then
        .ok (b.putAll ((Numeral.free base value).map digitChar))
      else .error .diverges := by
  induction fuel generalizing value with
  | zero =>
      -- every number has a digit, so a call without fuel is one too few
      have hpos := List.length_pos_of_ne_nil (Numeral.free_ne_nil base value)
      exact (if_neg (Nat.not_le.mpr hpos)).symm
  | succ fuel ih =>
      by_cases hge : base ≤ value
      · rw [parseNum_of_le (Nat.lt_trans Nat.zero_lt_one hbase) hten hge, ih,
          Numeral.free_of_le hbase hge, List.length_append, List.length_singleton,
          List.map_append, putAll_append]
        simp only [Nat.add_le_add_iff_right]
        split
        case isTrue => rfl
        case isFalse => rfl
      · have hlt := Nat.not_le.mp hge
        rw [parseNum_of_lt hten hlt, Numeral.free_of_lt hlt]
        exact (if_pos (Nat.succ_le_succ (Nat.zero_le fuel))).symm

theorem hexDigits_getD {d : Nat} (h : d < 16) : hexDigits.getD d 0 = digitChar d := by
  have hall : ∀ d < 16, hexDigits.getD d 0 = digitChar d := by decide
  exact hall d h

theorem parseHexFrom_eq (i value : Nat) (b : PrintBuf) :
    b.parseHexFrom i value = b.putAll ((Numeral.positions 16 i value).map digitChar) := by
  induction i generalizing b with
  | zero => rfl
  | succ i ih =>
      have hdigit : (value >>> (i * 4)) &&& 0xF = value / 16 ^ i % 16 := by
        have hpow : 2 ^ (i * 4) = 16 ^ i := by rw [Nat.mul_comm, Nat.pow_mul]
        rw [Nat.shiftRight_eq_div_pow, hpow]
        exact Nat.and_two_pow_sub_one_eq_mod _ 4
      rw [parseHexFrom, ih, hdigit, hexDigits_getD (Nat.mod_lt _ (by decide))]
      rfl

end Numbers

theorem escape_eq (c : UInt8) (b : PrintBuf) : b.escape c = b.putAll (escapeText c) := by
  unfold escape
  split_ifs with ha hb ht hn hr hs
  · rw [ha]
    rfl
  · rw [hb]
    rfl
  · rw [ht]
    rfl
  · rw [hn]
    rfl
  · rw [hr]
    rfl
  · rw [hs]
    rfl
  · have hnone : escapeText c = [] := by
      rw [escapeText, List.lookup_eq_none_iff.mpr, Option.toList_none]
      simp only [escapes, List.forall_mem_cons, List.not_mem_nil, false_imp_iff, implies_true,
        bne_iff_ne, and_true]
      exact ⟨ha, hb, ht, hn, hr, hs⟩
    rw [hnone]
    rfl

theorem copyString_of_turn {mem : Memory} {s : Nat} (hne : mem s ≠ 0) (fuel : Nat) (b : PrintBuf) :
    b.copyString mem (fuel + 1) s = (b.put (mem s)).copyString mem fuel (s + 1) :=
  Loop.loop_of_turn fuel (congrArg Except.ok (decide_eq_true hne)) rfl

/-- The loop over a string ends behind its last character. -/
theorem copyString_of_stringAt {mem : Memory} {text : List UInt8} {fuel s : Nat} {b : PrintBuf}
    (h : mem.StringAt s text) (hfuel : text.length < fuel) :
    b.copyString mem fuel s = .ok (s + text.length, b.putAll text) := by
  obtain ⟨n, rfl⟩ := Nat.exists_eq_add_of_lt hfuel
  clear hfuel
  induction text generalizing s b with
  | nil =>
      have hend : decide (mem s ≠ 0) = false := decide_eq_false fun hne => hne h
      exact Loop.loop_of_exit _ (congrArg Except.ok hend)
  | cons c cs ih =>
      obtain ⟨rfl, hne, hrest⟩ := h
      rw [List.length_cons, Nat.add_right_comm cs.length, copyString_of_turn hne, ih hrest,
        Nat.add_assoc s, Nat.add_comm 1]
      rfl

/-- A copy that ended has met a NUL. -/
theorem stringAt_of_copyString {mem : Memory} {fuel s : Nat} {b : PrintBuf} {r : Nat × PrintBuf}
    (h : b.copyString mem fuel s = .ok r) :
    ∃ text, mem.StringAt s text ∧ r = (s + text.length, b.putAll text) := by
  induction fuel generalizing s b with
  | zero => cases h
  | succ fuel ih =>
      by_cases hne : mem s ≠ 0
      · rw [copyString_of_turn hne] at h
        obtain ⟨text, htext, hr⟩ := ih h
        refine ⟨mem s :: text, ⟨rfl, hne, htext⟩, ?_⟩
        rw [hr, List.length_cons, Nat.add_assoc s, Nat.add_comm 1]
        rfl
      · have hnil : mem.StringAt s [] := Decidable.not_not.mp hne
        rw [copyString_of_stringAt hnil (Nat.succ_pos fuel)] at h
        cases h
        exact ⟨[], hnil, rfl⟩

end PrintBuf

def Token.takes : Token → Nat
  | .string | .char | .hex | .decimal => 1
  | .literal _ | .escape _ | .alone _ => 0

/-- The text of a token when `word` is next on the stack. -/
inductive Token.Text (mem : Memory) (word : Nat) : Token → List UInt8 → Prop
  | literal (c : UInt8) : Text mem word (.literal c) [c]
  | escape (c : UInt8) : Text mem word (.escape c) (escapeText c)
  | alone (c : UInt8) : Text mem word (.alone c) [c]
  | string {text : List UInt8} (h : mem.StringAt word text) : Text mem word .string text
  | char : Text mem word .char [UInt8.ofNat word]
  | hex : Text mem word .hex ((Numeral.positions 16 8 word).map digitChar)
  | decimal : Text mem word .decimal ((Numeral.free 10 word).map digitChar)

/-- The text of tokens that take their words from the `k`th on. -/
inductive Denotes (mem : Memory) (args : Nat → Nat) : Nat → List Token → List UInt8 → Prop
  | nil {k : Nat} : Denotes mem args k [] []
  | cons {k : Nat} {t : Token} {ts : List Token} {text rest : List UInt8}
      (head : t.Text mem (args k) text) (tail : Denotes mem args (k + t.takes) ts rest) :
      Denotes mem args k (t :: ts) (text ++ rest)

def takenBy (tokens : List Token) : Nat := (tokens.map Token.takes).sum

theorem takenBy_cons (t : Token) (ts : List Token) : takenBy (t :: ts) = t.takes + takenBy ts :=
  List.sum_cons

section Denotes

variable {mem : Memory} {args : Nat → Nat} {k : Nat}

theorem Denotes.append {front back : List Token} {out rest : List UInt8}
    (hfront : Denotes mem args k front out)
    (hback : Denotes mem args (k + takenBy front) back rest) :
    Denotes mem args k (front ++ back) (out ++ rest) := by
  induction hfront with
  | nil => exact hback
  | cons head _ ih =>
      rw [takenBy_cons, ← Nat.add_assoc] at hback
      rw [List.append_assoc]
      exact .cons head (ih hback)

theorem Denotes.split {front back : List Token} {out : List UInt8}
    (h : Denotes mem args k (front ++ back) out) :
    ∃ text rest, out = text ++ rest ∧ Denotes mem args k front text ∧
      Denotes mem args (k + takenBy front) back rest := by
  induction front generalizing k out with
  | nil => exact ⟨[], out, rfl, .nil, h⟩
  | cons t ts ih =>
      cases h with
      | @cons _ _ _ text rest head tail =>
          obtain ⟨text', rest', rfl, hfront, hback⟩ := ih tail
          refine ⟨text ++ text', rest', (List.append_assoc ..).symm, .cons head hfront, ?_⟩
          rwa [takenBy_cons, ← Nat.add_assoc]

theorem Token.Text.unique {t : Token} {word : Nat} {text text' : List UInt8}
    (h : t.Text mem word text) (h' : t.Text mem word text') : text = text' := by
  cases h with
  | string h =>
      cases h' with
      | string h' => exact h.unique h'
  | _ =>
      cases h'
      rfl

theorem Denotes.unique {tokens : List Token} {out out' : List UInt8}
    (h : Denotes mem args k tokens out) (h' : Denotes mem args k tokens out') : out = out' := by
  induction h generalizing out' with
  | nil =>
      cases h'
      rfl
  | cons head _ ih =>
      cases h' with
      | cons head' tail' => rw [head.unique head', ih tail']

/-- Only a string without a NUL has no text. -/
theorem Token.text_or (mem : Memory) (word : Nat) (t : Token) :
    (∃ text, t.Text mem word text) ∨ t = .string ∧ ∀ text, ¬mem.StringAt word text := by
  cases t with
  | literal c => exact Or.inl ⟨_, .literal c⟩
  | escape c => exact Or.inl ⟨_, .escape c⟩
  | alone c => exact Or.inl ⟨_, .alone c⟩
  | char => exact Or.inl ⟨_, .char⟩
  | hex => exact Or.inl ⟨_, .hex⟩
  | decimal => exact Or.inl ⟨_, .decimal⟩
  | string =>
      by_cases h : ∃ text, mem.StringAt word text
      · exact Or.inl (h.imp fun _ => .string)
      · exact Or.inr ⟨rfl, not_exists.mp h⟩

/-- What has no text has a string without a NUL behind tokens that have one. -/
theorem exists_denotes_or (mem : Memory) (args : Nat → Nat) (k : Nat) (tokens : List Token) :
    (∃ out, Denotes mem args k tokens out) ∨
      ∃ front back out, tokens = front ++ .string :: back ∧ Denotes mem args k front out ∧
        ∀ text, ¬mem.StringAt (args (k + takenBy front)) text := by
  induction tokens generalizing k with
  | nil => exact Or.inl ⟨[], .nil⟩
  | cons t ts ih =>
      cases Token.text_or mem (args k) t with
      | inr hstring =>
          obtain ⟨rfl, hnone⟩ := hstring
          exact Or.inr ⟨[], ts, [], rfl, .nil, hnone⟩
      | inl htext =>
          obtain ⟨text, htext⟩ := htext
          refine (ih (k + t.takes)).imp ?_ ?_
          · exact fun ⟨out, hout⟩ => ⟨text ++ out, .cons htext hout⟩
          · rintro ⟨front, back, out, rfl, hout, hnone⟩
            refine ⟨t :: front, back, text ++ out, rfl, .cons htext hout, ?_⟩
            rwa [takenBy_cons, ← Nat.add_assoc]

end Denotes

namespace Scan

variable {fuel : Nat} {mem : Memory} {fmt : Nat} {args : Nat → Nat} {s : Scan}

def past (t : Token) (text : List UInt8) (s : Scan) : Scan :=
  ⟨s.i + t.bytes.length, s.args + t.takes, s.out.putAll text⟩

/-- A conversion appends the text of its token and takes the word the token takes. -/
theorem convert_of_text {c : UInt8} {text : List UInt8}
    (htext : (Token.ofConversion c).Text mem (args s.args) text) (hfuel : text.length < fuel) :
    s.convert fuel mem args c =
      .ok { s with args := s.args + (Token.ofConversion c).takes, out := s.out.putAll text } := by
  unfold Token.ofConversion at htext ⊢
  unfold convert
  split_ifs at htext ⊢ with hs hc hx hd hp
  · cases htext with
    | string h =>
        rw [PrintBuf.copyString_of_stringAt h hfuel]
        rfl
  · cases htext
    rfl
  · cases htext
    rw [PrintBuf.parseHex, PrintBuf.parseHexFrom_eq]
    rfl
  · cases htext
    rw [List.length_map] at hfuel
    rw [PrintBuf.parseNum_eq (by decide) (Nat.le_refl 10), if_pos (Nat.le_of_lt hfuel)]
    rfl
  · cases htext
    rw [hp]
    rfl
  · cases htext
    rfl

/-- A conversion that ended has found the text of its token. -/
theorem text_of_convert {c : UInt8} {s' : Scan} (h : s.convert fuel mem args c = .ok s') :
    ∃ text, (Token.ofConversion c).Text mem (args s.args) text ∧
      s' = { s with args := s.args + (Token.ofConversion c).takes, out := s.out.putAll text } := by
  unfold convert at h
  unfold Token.ofConversion
  split_ifs at h ⊢ with hs hc hx hd hp
  · cases hcopy : s.out.copyString mem fuel (args s.args) with
    | error e => simp only [hcopy, reduceCtorEq] at h
    | ok r =>
        obtain ⟨text, htext, rfl⟩ := PrintBuf.stringAt_of_copyString hcopy
        rw [hcopy] at h
        cases h
        exact ⟨text, .string htext, rfl⟩
  · cases h
    exact ⟨_, .char, rfl⟩
  · cases h
    rw [PrintBuf.parseHex, PrintBuf.parseHexFrom_eq]
    exact ⟨_, .hex, rfl⟩
  · rw [PrintBuf.parseNum_eq (by decide) (Nat.le_refl 10)] at h
    by_cases hfuel : (Numeral.free 10 (args s.args)).length ≤ fuel
    · rw [if_pos hfuel] at h
      cases h
      exact ⟨_, .decimal, rfl⟩
    · simp only [if_neg hfuel, reduceCtorEq] at h
  · cases h
    rw [hp]
    exact ⟨_, .alone percent, rfl⟩
  · cases h
    exact ⟨_, .alone c, rfl⟩

/-- A token has a first byte, and it is not the NUL. -/
theorem guard_token {t : Token} {behind : List UInt8}
    (hfmt : mem.StringAt (fmt + s.i) (t.bytes ++ behind)) : mem (fmt + s.i) ≠ 0 := by
  cases hbytes : t.bytes ++ behind with
  | nil => exact absurd (List.append_eq_nil_iff.mp hbytes).1 t.bytes_ne_nil
  | cons c cs =>
      rw [hbytes] at hfmt
      rw [hfmt.1]
      exact hfmt.2.1

/-- What a turn does on each kind of token. -/
theorem turn_literal {c : UInt8} {behind : List UInt8} (hpercent : c ≠ percent)
    (hbackslash : c ≠ backslash)
    (hfmt : mem.StringAt (fmt + s.i) ((Token.literal c).bytes ++ behind)) :
    s.turn fuel mem fmt args = .ok (s.past (.literal c) [c]) := by
  have hread : mem (fmt + s.i) = c := hfmt.1
  rw [turn, hread, if_pos ⟨hpercent, hbackslash⟩]
  rfl

theorem turn_escape {c : UInt8} {behind : List UInt8}
    (hfmt : mem.StringAt (fmt + s.i) ((Token.escape c).bytes ++ behind)) :
    s.turn fuel mem fmt args = .ok (s.past (.escape c) (escapeText c)) := by
  have hread : mem (fmt + s.i) = backslash := hfmt.1
  have hnext : mem (fmt + (s.i + 1)) = c := hfmt.2.2.1
  rw [turn, hread, hnext, if_neg (fun hne => hne.2 rfl), if_pos rfl, PrintBuf.escape_eq]
  rfl

theorem turn_conversion {c : UInt8} {behind : List UInt8}
    (hfmt : mem.StringAt (fmt + s.i) ((Token.ofConversion c).bytes ++ behind)) :
    s.turn fuel mem fmt args =
      (s.convert fuel mem args c).map fun s' => { s' with i := s'.i + 1 + 1 } := by
  rw [Token.bytes_ofConversion] at hfmt
  have hread : mem (fmt + s.i) = percent := hfmt.1
  have hnext : mem (fmt + (s.i + 1)) = c := hfmt.2.2.1
  rw [turn, hread, hnext, if_neg (fun hne => hne.1 rfl), if_neg (by decide)]
  cases s.convert fuel mem args c <;> rfl

/-- A turn on a token appends its text. -/
theorem turn_of_text {t : Token} {behind text : List UInt8} (ht : t.Proper)
    (hfmt : mem.StringAt (fmt + s.i) (t.bytes ++ behind)) (htext : t.Text mem (args s.args) text)
    (hfuel : text.length < fuel) : s.turn fuel mem fmt args = .ok (s.past t text) := by
  cases ht with
  | literal hpercent hbackslash =>
      cases htext
      exact turn_literal hpercent hbackslash hfmt
  | escape c =>
      cases htext
      exact turn_escape hfmt
  | conversion c =>
      rw [turn_conversion hfmt, convert_of_text htext hfuel, past, Token.bytes_ofConversion]
      rfl

/-- A turn that ended has found the text of its token. -/
theorem text_of_turn {t : Token} {behind : List UInt8} {s' : Scan} (ht : t.Proper)
    (hfmt : mem.StringAt (fmt + s.i) (t.bytes ++ behind)) (h : s.turn fuel mem fmt args = .ok s') :
    ∃ text, t.Text mem (args s.args) text ∧ s' = s.past t text := by
  cases ht with
  | @literal c hpercent hbackslash =>
      rw [turn_literal hpercent hbackslash hfmt] at h
      cases h
      exact ⟨[c], .literal c, rfl⟩
  | escape c =>
      rw [turn_escape hfmt] at h
      cases h
      exact ⟨escapeText c, .escape c, rfl⟩
  | conversion c =>
      rw [turn_conversion hfmt] at h
      cases hconvert : s.convert fuel mem args c with
      | error e =>
          rw [hconvert] at h
          cases h
      | ok r =>
          obtain ⟨text, htext, rfl⟩ := text_of_convert hconvert
          rw [hconvert] at h
          cases h
          refine ⟨text, htext, ?_⟩
          rw [past, Token.bytes_ofConversion]
          rfl

def more (mem : Memory) (fmt : Nat) (s : Scan) : Except Fault Bool :=
  .ok (decide (mem (fmt + s.i) ≠ 0))

theorem more_iff : s.more mem fmt = .ok true ↔ mem (fmt + s.i) ≠ 0 := by
  rw [more, Except.ok.injEq, decide_eq_true_iff]

/-- The scan once it has read tokens that denote a text. -/
def pastAll (tokens : List Token) (text : List UInt8) (s : Scan) : Scan :=
  ⟨s.i + (tokens.flatMap Token.bytes).length, s.args + takenBy tokens, s.out.putAll text⟩

theorem pastAll_append (front back : List Token) (text rest : List UInt8) (s : Scan) :
    s.pastAll (front ++ back) (text ++ rest) = (s.pastAll front text).pastAll back rest := by
  have hlength : ((front ++ back).flatMap Token.bytes).length =
      (front.flatMap Token.bytes).length + (back.flatMap Token.bytes).length := by
    rw [List.flatMap_append, List.length_append]
  have htaken : takenBy (front ++ back) = takenBy front + takenBy back := by
    rw [takenBy, List.map_append, List.sum_append]
    rfl
  rw [pastAll, hlength, htaken, PrintBuf.putAll_append, ← Nat.add_assoc, ← Nat.add_assoc]
  rfl

theorem pastAll_singleton (t : Token) (text : List UInt8) (s : Scan) :
    s.pastAll [t] text = s.past t text := by
  rw [pastAll, List.flatMap_singleton]
  rfl

theorem stringAt_pastAll {tokens : List Token} {behind text : List UInt8}
    (hfmt : mem.StringAt (fmt + s.i) (tokens.flatMap Token.bytes ++ behind)) :
    mem.StringAt (fmt + (s.pastAll tokens text).i) behind := by
  rw [pastAll, ← Nat.add_assoc]
  exact hfmt.drop

/-- The turns over tokens that denote a text append it. -/
theorem turns_of_denotes {tokens : List Token} {behind out : List UInt8}
    (hproper : ∀ t ∈ tokens, t.Proper)
    (hfmt : mem.StringAt (fmt + s.i) (tokens.flatMap Token.bytes ++ behind))
    (hout : Denotes mem args s.args tokens out) (hfuel : out.length < fuel) :
    Loop.Turns (more mem fmt) (turn fuel mem fmt args) tokens.length s (s.pastAll tokens out) := by
  induction tokens generalizing s out with
  | nil =>
      cases hout
      exact .none
  | cons t ts ih =>
      cases hout with
      | @cons _ _ _ text rest head tail =>
          rw [List.length_append] at hfuel
          rw [List.flatMap_cons, List.append_assoc] at hfmt
          have htext : text.length < fuel := by omega
          have hrest : rest.length < fuel := by omega
          have hturn := turn_of_text (hproper t List.mem_cons_self) hfmt head htext
          have hbehind : mem.StringAt (fmt + (s.past t text).i)
              (ts.flatMap Token.bytes ++ behind) := by
            rw [← pastAll_singleton]
            apply stringAt_pastAll
            rwa [List.flatMap_singleton]
          have hturns := ih (fun t ht => hproper t (List.mem_cons_of_mem _ ht)) hbehind tail hrest
          rw [← List.singleton_append (x := t), pastAll_append, pastAll_singleton]
          exact .turn (more_iff.mpr (guard_token hfmt)) hturn hturns

/-- Where the scan of a format can be. The format may end in something that is no
token, if the scan cannot come so far. -/
theorem denotes_of_visits {tokens : List Token} {behind : List UInt8} {n : Nat} {t : Scan}
    (h : t ∈ Loop.visits (more mem fmt) (turn fuel mem fmt args) n s)
    (hproper : ∀ t ∈ tokens, t.Proper)
    (hfmt : mem.StringAt (fmt + s.i) (tokens.flatMap Token.bytes ++ behind))
    (hbehind : behind = [] ∨ ∀ out, ¬Denotes mem args s.args tokens out) :
    ∃ front rest out, tokens = front ++ rest ∧ Denotes mem args s.args front out ∧
      t = s.pastAll front out ∧ (rest = [] → behind = []) := by
  refine Loop.visits_invariant (I := fun u => ∃ front rest out, tokens = front ++ rest ∧
    Denotes mem args s.args front out ∧ u = s.pastAll front out ∧ (rest = [] → behind = []))
    h ?_ ?_
  · refine ⟨[], tokens, [], rfl, .nil, rfl, ?_⟩
    rintro rfl
    exact hbehind.resolve_right fun hnone => hnone [] .nil
  · rintro u u' ⟨front, rest, out, rfl, hout, rfl, hrest⟩ hmore hturn
    rw [List.flatMap_append, List.append_assoc] at hfmt
    have hleft : mem.StringAt (fmt + (s.pastAll front out).i)
        (rest.flatMap Token.bytes ++ behind) := stringAt_pastAll hfmt
    cases rest with
    | nil =>
        -- behind the last token is the NUL, and the guard has not let it pass
        rw [hrest rfl] at hleft
        exact absurd hleft (more_iff.mp hmore)
    | cons r rest =>
        rw [List.flatMap_cons, List.append_assoc] at hleft
        obtain ⟨text, htext, rfl⟩ :=
          text_of_turn (hproper r (List.mem_append_right _ List.mem_cons_self)) hleft hturn
        have hfront : Denotes mem args s.args (front ++ [r]) (out ++ text) := by
          apply hout.append
          rw [← List.append_nil text]
          exact .cons htext .nil
        refine ⟨front ++ [r], rest, out ++ text, ?_, hfront, ?_, ?_⟩
        · rw [List.append_assoc, List.singleton_append]
        · rw [pastAll_append, pastAll_singleton]
        · rintro rfl
          exact hbehind.resolve_right fun hnone => hnone _ hfront

end Scan

def Scan.start (b : PrintBuf) : Scan := ⟨0, 0, { b with ptr := 0 }⟩

/-- A format that denotes a text is scanned to its NUL. -/
theorem loop_of_denotes {fuel : Nat} {mem : Memory} {fmt : Nat} {args : Nat → Nat}
    {tokens : List Token} {out : List UInt8} (hproper : ∀ t ∈ tokens, t.Proper)
    (hfmt : mem.StringAt fmt (tokens.flatMap Token.bytes)) (hout : Denotes mem args 0 tokens out)
    (hturns : tokens.length < fuel) (hfuel : out.length < fuel) (b : PrintBuf) :
    Loop.loop (Scan.more mem fmt) (Scan.turn fuel mem fmt args) .diverges fuel (Scan.start b) =
      .ok ((Scan.start b).pastAll tokens out) := by
  rw [← List.append_nil (tokens.flatMap Token.bytes)] at hfmt
  have hrun := Scan.turns_of_denotes (s := Scan.start b) hproper hfmt hout hfuel
  have hnul : mem (fmt + ((Scan.start b).pastAll tokens out).i) = 0 :=
    Scan.stringAt_pastAll (s := Scan.start b) hfmt
  have hexit : ((Scan.start b).pastAll tokens out).more mem fmt = .ok false :=
    congrArg Except.ok (decide_eq_false fun hne => hne hnul)
  exact hrun.loop_exit _ hexit hturns

/-- `kprintf` is the scan, the NUL and `puts`. -/
theorem kprintf_eq (fuel : Nat) (mem : Memory) (fmt : Nat) (args : Nat → Nat) (b : PrintBuf)
    (v : Vga) :
    kprintf fuel mem fmt args b v =
      (Loop.loop (Scan.more mem fmt) (Scan.turn fuel mem fmt args) .diverges fuel
        (Scan.start b)).map fun s =>
          (s.out.set 0, v.puts ((List.range (s.out.ptr + 1)).map (s.out.set 0).buf)) := by
  unfold kprintf Scan.more Scan.start
  cases Loop.loop (fun s : Scan => .ok (decide (mem (fmt + s.i) ≠ 0))) (Scan.turn fuel mem fmt args)
    .diverges fuel ⟨0, 0, { b with ptr := 0 }⟩ <;> rfl

/-- A format that denotes a text leaves it in `buf`, with a NUL behind it. -/
theorem kprintf_of_denotes {fuel : Nat} {mem : Memory} {fmt : Nat} {args : Nat → Nat}
    {tokens : List Token} {out : List UInt8} (hproper : ∀ t ∈ tokens, t.Proper)
    (hfmt : mem.StringAt fmt (tokens.flatMap Token.bytes)) (hout : Denotes mem args 0 tokens out)
    (hturns : tokens.length < fuel) (hfuel : out.length < fuel) (b : PrintBuf) (v : Vga) :
    kprintf fuel mem fmt args b v =
      .ok (((Scan.start b).out.putAll out).set 0,
        v.puts ((List.range (out.length + 1)).map (((Scan.start b).out.putAll out).set 0).buf)) := by
  have hptr : ((Scan.start b).out.putAll out).ptr = out.length :=
    (PrintBuf.putAll_ptr out _).trans (Nat.zero_add _)
  rw [← hptr, kprintf_eq, loop_of_denotes hproper hfmt hout hturns hfuel]
  rfl

end X32PRos
