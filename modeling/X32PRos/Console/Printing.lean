import X32PRos.Console.Scan
import X32PRos.Video.Terminal

/-!
The scanner prints what the format denotes: every printer appends its text at
`ptr`, a turn of the scan renders one token, and the rest follows by induction
over the tokens.
-/

namespace X32PRos

open Foundation

/-- The words the arguments are passed as, from the `k`th on. -/
def ArgsAt (mem : Memory) (args : Nat → Nat) : Nat → List Arg → Prop
  | _, [] => True
  | k, .string text :: rest => mem.StringAt (args k) text ∧ ArgsAt mem args (k + 1) rest
  | k, .char v :: rest => args k = v.toNat ∧ ArgsAt mem args (k + 1) rest
  | k, .number v :: rest => args k = v.toNat ∧ ArgsAt mem args (k + 1) rest

/-- A token is rendered as the words of its arguments say. -/
theorem text_of_render {mem : Memory} {args : Nat → Nat} {k : Nat} {t : Token} {as rest : List Arg}
    {text : List UInt8} (hargs : ArgsAt mem args k as) (h : t.render as = some (text, rest)) :
    t.Text mem (args k) text ∧ ArgsAt mem args (k + t.takes) rest := by
  cases t with
  | literal c =>
      cases h
      exact ⟨.literal c, hargs⟩
  | escape c =>
      cases h
      exact ⟨.escape c, hargs⟩
  | alone c =>
      cases h
      exact ⟨.alone c, hargs⟩
  | string =>
      cases as with
      | nil => cases h
      | cons a as =>
          cases a with
          | string text =>
              cases h
              exact ⟨.string hargs.1, hargs.2⟩
          | char => cases h
          | number => cases h
  | char =>
      cases as with
      | nil => cases h
      | cons a as =>
          cases a with
          | string => cases h
          | char v =>
              cases h
              rw [← hargs.1]
              exact ⟨.char, hargs.2⟩
          | number => cases h
  | hex =>
      cases as with
      | nil => cases h
      | cons a as =>
          cases a with
          | string => cases h
          | char => cases h
          | number v =>
              cases h
              have hlt : v.toNat < 16 ^ 8 := Nat.lt_of_lt_of_eq v.toNat_lt (by decide)
              rw [hexText, ← Numeral.positions_eq_fixed (by decide) hlt, ← hargs.1]
              exact ⟨.hex, hargs.2⟩
  | decimal =>
      cases as with
      | nil => cases h
      | cons a as =>
          cases a with
          | string => cases h
          | char => cases h
          | number v =>
              cases h
              rw [decimalText, ← hargs.1]
              exact ⟨.decimal, hargs.2⟩

/-- The text that is rendered is the one the format denotes on the stack. -/
theorem denotes_of_render {mem : Memory} {args : Nat → Nat} {k : Nat} {tokens : List Token}
    {as : List Arg} {out : List UInt8} (hargs : ArgsAt mem args k as)
    (h : render tokens as = some out) : Denotes mem args k tokens out := by
  induction tokens generalizing k as out with
  | nil =>
      cases h
      exact .nil
  | cons t ts ih =>
      cases hstep : t.render as with
      | none => simp only [render, hstep, reduceCtorEq] at h
      | some r =>
          obtain ⟨text, rest⟩ := r
          simp only [render, hstep, Option.map_eq_some_iff] at h
          obtain ⟨tail, htail, rfl⟩ := h
          obtain ⟨htext, hrest⟩ := text_of_render hargs hstep
          exact .cons htext (ih hrest htail)

/-- What a string is read as up to its NUL. -/
theorem takeWhile_stringAt {m : Memory} {text : List UInt8} {a : Nat} (h : m.StringAt a text) :
    ((List.range' a (text.length + 1)).map m).takeWhile (· ≠ 0) = text := by
  induction text generalizing a with
  | nil =>
      have hend : m a = 0 := h
      rw [List.range'_succ, List.map_cons, List.takeWhile_cons_of_neg]
      simpa using hend
  | cons c cs ih =>
      obtain ⟨hc, hne, hrest⟩ := h
      rw [List.length_cons, List.range'_succ, List.map_cons, List.takeWhile_cons_of_pos,
        ih hrest, hc]
      simpa [hc] using hne

/-- A format whose text fits is printed as it is rendered, and every store is inside `buf`. -/
theorem kprintf_prints {fuel : Nat} {mem : Memory} {fmt : Nat} {args : Nat → Nat}
    {format : List UInt8} {tokens : List Token} {as : List Arg} {out : List UInt8}
    (hfmt : mem.StringAt fmt format) (htokens : tokenize format = some tokens)
    (hargs : ArgsAt mem args 0 as) (hrender : render tokens as = some out)
    (hlength : out.length ≤ 1023) (hnul : 0 ∉ out) (hfuel : format.length + out.length + 10 ≤ fuel)
    (b : PrintBuf) (v : Vga) :
    (∃ b', kprintf fuel mem fmt args b v = .ok (b', out.foldl (fun v c => v.putch c) v) ∧
      Memory.StringAt b'.buf 0 out ∧ ∀ k ∈ b'.stored, k ∈ b.stored ∨ k < 1024) ∧
      ∀ n : UInt32, NumberTexts n := by
  obtain ⟨hbytes, hproper⟩ := bytes_of_tokenize htokens
  have hcount : tokens.length ≤ format.length := by
    rw [← hbytes]
    exact length_le_of_bytes tokens
  have hturns : tokens.length < fuel := by omega
  have hcopies : out.length < fuel := by omega
  have hprinted := kprintf_of_denotes hproper (hbytes.symm ▸ hfmt)
    (denotes_of_render hargs hrender) hturns hcopies b v
  have hstring : Memory.StringAt (((Scan.start b).out.putAll out).set 0).buf 0 out :=
    PrintBuf.stringAt_putAll hnul { b with ptr := 0 }
  refine ⟨⟨((Scan.start b).out.putAll out).set 0, ?_, hstring, ?_⟩, numberTexts⟩
  · have hread := takeWhile_stringAt hstring
    rw [← List.range_eq_range'] at hread
    rw [hprinted, Shows.puts_eq, hread]
  · intro k hk
    exact ((PrintBuf.mem_stored_set_putAll rfl 0).mp hk).imp_right fun hle => by omega

/-- `kprintf("%s=%x %d\\n%%", "heap", 255, 1000)`, with the backslash in the format. -/
theorem kprintf_prints_heap :
    let format := ['%', 's', '=', '%', 'x', ' ', '%', 'd', '\\', 'n', '%', '%'].map code
    let mem : Memory := fun a =>
      if a < 200 then format.getD (a - 100) 0 else (['h', 'e', 'a', 'p'].map code).getD (a - 200) 0
    let args := fun k => [200, 255, 1000].getD k 0
    let out := ['h', 'e', 'a', 'p', '=', '0', '0', '0', '0', '0', '0', 'f', 'f', ' ', '1', '0', '0',
      '0', '\n', '%'].map code
    (∃ b', kprintf 64 mem 100 args ⟨fun _ => 0xFF, 0, []⟩ (Vga.boot fun _ => 0) =
        .ok (b', out.foldl (fun v c => v.putch c) (Vga.boot fun _ => 0)) ∧
      Memory.StringAt b'.buf 0 out ∧ ∀ k ∈ b'.stored, k ∈ ([] : List Nat) ∨ k < 1024) ∧
      ∀ n : UInt32, NumberTexts n := by
  intro format mem args out
  have hfmt : mem.StringAt 100 format := by decide
  have htokens : tokenize format = some [.string, .literal (code '='), .hex, .literal (code ' '),
      .decimal, .escape (code 'n'), .alone percent] := by decide
  have hargs : ArgsAt mem args 0
      [.string (['h', 'e', 'a', 'p'].map code), .number 255, .number 1000] :=
    ⟨by decide, rfl, rfl, trivial⟩
  exact kprintf_prints hfmt htokens hargs (by decide) (by decide) (by decide) (by decide) _ _

end X32PRos
