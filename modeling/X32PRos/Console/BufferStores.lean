import X32PRos.Console.Scan

/-!
Where `kprintf` stores, also on a run that does not end: from the beginning of
`buf`, one character after the other. What decides is how many characters the
format and its arguments come to.
-/

namespace X32PRos

open Foundation

section Widths

inductive Token.Width (mem : Memory) (word : Nat) : Token → Nat → Prop
  | literal (c : UInt8) : Width mem word (.literal c) 1
  | escape (c : UInt8) : Width mem word (.escape c) (if c ∈ escapes.map Prod.fst then 1 else 0)
  | alone (c : UInt8) : Width mem word (.alone c) 1
  | string {text : List UInt8} (h : mem.StringAt word text) : Width mem word .string text.length
  | char : Width mem word .char 1
  | hex : Width mem word .hex 8
  | decimal : Width mem word .decimal (Nat.log 10 word + 1)

inductive Widths (mem : Memory) (args : Nat → Nat) : Nat → List Token → Nat → Prop
  | nil {k : Nat} : Widths mem args k [] 0
  | cons {k : Nat} {t : Token} {ts : List Token} {w n : Nat} (head : t.Width mem (args k) w)
      (tail : Widths mem args (k + t.takes) ts n) : Widths mem args k (t :: ts) (w + n)

variable {mem : Memory} {args : Nat → Nat}

theorem length_escapeText (c : UInt8) :
    (escapeText c).length = if c ∈ escapes.map Prod.fst then 1 else 0 := by
  have hnone : escapes.lookup c = none ↔ c ∉ escapes.map Prod.fst := by
    simp only [List.lookup_eq_none_iff, List.mem_map, not_exists, not_and, bne_iff_ne, ne_comm]
  rw [escapeText]
  cases hlookup : escapes.lookup c with
  | none => exact (if_neg (hnone.mp hlookup)).symm
  | some d =>
      have hmem : c ∈ escapes.map Prod.fst := by
        by_contra hnot
        rw [hnone.mpr hnot] at hlookup
        cases hlookup
      exact (if_pos hmem).symm

theorem Token.width_of_text {t : Token} {word : Nat} {text : List UInt8}
    (h : t.Text mem word text) : t.Width mem word text.length := by
  cases h with
  | literal c => exact .literal c
  | escape c =>
      rw [length_escapeText]
      exact .escape c
  | alone c => exact .alone c
  | string h => exact .string h
  | char => exact .char
  | hex =>
      rw [List.length_map, Numeral.length_positions]
      exact .hex
  | decimal =>
      rw [List.length_map, Numeral.length_free (by decide)]
      exact .decimal

theorem Token.text_of_width {t : Token} {word w : Nat} (h : t.Width mem word w) :
    ∃ text, t.Text mem word text ∧ text.length = w := by
  cases h with
  | literal c => exact ⟨[c], .literal c, rfl⟩
  | escape c => exact ⟨escapeText c, .escape c, length_escapeText c⟩
  | alone c => exact ⟨[c], .alone c, rfl⟩
  | string h => exact ⟨_, .string h, rfl⟩
  | char => exact ⟨_, .char, rfl⟩
  | hex => exact ⟨_, .hex, by rw [List.length_map, Numeral.length_positions]⟩
  | decimal => exact ⟨_, .decimal, by rw [List.length_map, Numeral.length_free (by decide)]⟩

/-- The widths are those of the text. -/
theorem widths_iff {k n : Nat} {tokens : List Token} :
    Widths mem args k tokens n ↔ ∃ out, Denotes mem args k tokens out ∧ out.length = n := by
  constructor
  · intro h
    induction h with
    | nil => exact ⟨[], .nil, rfl⟩
    | cons head _ ih =>
        obtain ⟨text, htext, rfl⟩ := Token.text_of_width head
        obtain ⟨out, hout, rfl⟩ := ih
        exact ⟨text ++ out, .cons htext hout, List.length_append⟩
  · rintro ⟨out, hout, rfl⟩
    induction hout with
    | nil => exact .nil
    | cons head _ ih =>
        rw [List.length_append]
        exact .cons (Token.width_of_text head) ih

theorem Widths.literals {k n : Nat} {tokens : List Token} (text : List UInt8)
    (h : Widths mem args k tokens n) :
    Widths mem args k (text.map .literal ++ tokens) (text.length + n) := by
  induction text with
  | nil => rwa [List.length_nil, Nat.zero_add]
  | cons c cs ih =>
      rw [List.length_cons, Nat.add_comm cs.length, Nat.add_assoc]
      exact .cons (.literal c) ih

end Widths

namespace PrintBuf

def cleared (b : PrintBuf) : PrintBuf := { b with stored := [] }

/-- The indices stored at until the copy of a string ends, if it ends. -/
def copyStores (mem : Memory) (fuel : Nat) (s : Nat) (b : PrintBuf) : List Nat :=
  (Loop.visits (fun s : Nat × PrintBuf => (.ok (decide (mem s.1 ≠ 0)) : Except Fault Bool))
    (fun s => .ok (s.1 + 1, s.2.put (mem s.1))) fuel (s, b)).flatMap fun s => s.2.stored

variable {mem : Memory} {fuel : Nat} {s : Nat} {b : PrintBuf}

theorem copyStores_of_stringAt {text : List UInt8} (h : mem.StringAt s text) {k : Nat}
    (hk : k ∈ b.copyStores mem fuel s) : k ∈ b.stored ∨ k < b.ptr + text.length := by
  obtain ⟨⟨a, b'⟩, hvisit, hk⟩ := List.mem_flatMap.mp hk
  have hreached : ∃ front rest, text = front ++ rest ∧ mem.StringAt a rest ∧
      b' = b.putAll front := by
    refine Loop.visits_invariant (I := fun r : Nat × PrintBuf => ∃ front rest,
      text = front ++ rest ∧ mem.StringAt r.1 rest ∧ r.2 = b.putAll front) hvisit ?_ ?_
    · exact ⟨[], text, rfl, h, rfl⟩
    · rintro ⟨a, b'⟩ r ⟨front, rest, rfl, hrest, rfl⟩ hguard hbody
      cases hbody
      have hne : mem a ≠ 0 := of_decide_eq_true (Except.ok.inj hguard)
      cases rest with
      | nil => exact absurd hrest hne
      | cons c cs =>
          obtain ⟨rfl, -, hcs⟩ := hrest
          refine ⟨front ++ [mem a], cs, ?_, hcs, ?_⟩
          · rw [List.append_assoc, List.singleton_append]
          · rw [putAll_append]
            rfl
  obtain ⟨front, rest, rfl, -, rfl⟩ := hreached
  refine ((mem_putAll_stored front b k).mp hk).imp_right fun hrange => ?_
  rw [List.length_append]
  omega

/-- A copy without an end stores everywhere from `ptr` on. -/
theorem mem_copyStores_of_endless (h : ∀ text, ¬mem.StringAt s text) {n : Nat}
    (hfuel : n + 1 < fuel) : b.ptr + n ∈ b.copyStores mem fuel s := by
  have hne : ∀ n, mem (s + n) ≠ 0 := by
    intro n hnul
    obtain ⟨text, htext⟩ := Memory.exists_stringAt n hnul
    exact h text htext
  have hturns : ∀ n, ∃ text, text.length = n ∧
      Loop.Turns (fun s : Nat × PrintBuf => (.ok (decide (mem s.1 ≠ 0)) : Except Fault Bool))
        (fun s => .ok (s.1 + 1, s.2.put (mem s.1))) n (s, b) (s + n, b.putAll text) := by
    intro n
    induction n with
    | zero => exact ⟨[], rfl, .none⟩
    | succ n ih =>
        obtain ⟨text, hlength, hturns⟩ := ih
        refine ⟨text ++ [mem (s + n)], ?_, ?_⟩
        · rw [List.length_append, hlength, List.length_singleton]
        · rw [putAll_append]
          exact hturns.snoc (congrArg Except.ok (decide_eq_true (hne n))) rfl
  obtain ⟨text, hlength, hturns⟩ := hturns (n + 1)
  refine List.mem_flatMap.mpr ⟨_, hturns.mem_visits hfuel, ?_⟩
  rw [mem_putAll_stored, hlength]
  exact Or.inr ⟨Nat.le_add_right _ _, Nat.lt_succ_self _⟩

end PrintBuf

/-- The indices stored at before the guard is tested, and by the copy of a string that
follows; the other conversions always end. -/
def Scan.stores (fuel : Nat) (mem : Memory) (fmt : Nat) (args : Nat → Nat) (s : Scan) : List Nat :=
  if mem (fmt + s.i) = percent ∧ mem (fmt + (s.i + 1)) = code 's' then
    s.out.stored ++ s.out.copyStores mem fuel (args s.args)
  else s.out.stored

/-- The indices at which `kprintf`, `parse_num` and `parse_hex` store in a call. -/
def kprintfStores (fuel : Nat) (mem : Memory) (fmt : Nat) (args : Nat → Nat) (b : PrintBuf)
    (v : Vga) : List Nat :=
  (Loop.visits (Scan.more mem fmt) (Scan.turn fuel mem fmt args) fuel
      (Scan.start b.cleared)).flatMap (Scan.stores fuel mem fmt args) ++
    match kprintf fuel mem fmt args b.cleared v with
    | .ok (b, _) => b.stored
    | .error _ => []

section Format

variable {mem : Memory} {fmt : Nat} {args : Nat → Nat} {format : List UInt8} {tokens : List Token}

theorem mem_kprintfStores_iff {fuel k : Nat} {b : PrintBuf} {v : Vga} :
    k ∈ kprintfStores fuel mem fmt args b v ↔
      (∃ t ∈ Loop.visits (Scan.more mem fmt) (Scan.turn fuel mem fmt args) fuel
        (Scan.start b.cleared), k ∈ t.stores fuel mem fmt args) ∨
      ∃ r, kprintf fuel mem fmt args b.cleared v = .ok r ∧ k ∈ r.1.stored := by
  rw [kprintfStores, List.mem_append, List.mem_flatMap]
  apply or_congr_right
  cases kprintf fuel mem fmt args b.cleared v with
  | ok r => simp only [Except.ok.injEq, exists_eq_left']
  | error e => simp only [List.not_mem_nil, reduceCtorEq, false_and, exists_false]

/-- The scan that meets a percent sign and an `s` is at a string. -/
theorem string_of_reads {s : Scan} {rest : List Token} (hproper : ∀ t ∈ rest, t.Proper)
    (hfmt : mem.StringAt (fmt + s.i) (rest.flatMap Token.bytes))
    (hpercent : mem (fmt + s.i) = percent) (hs : mem (fmt + (s.i + 1)) = code 's') :
    ∃ back, rest = .string :: back := by
  cases rest with
  | nil =>
      have hnul : mem (fmt + s.i) = 0 := hfmt
      rw [hpercent] at hnul
      exact absurd hnul (by decide)
  | cons t back =>
      refine ⟨back, congrArg (· :: back) ?_⟩
      rw [List.flatMap_cons] at hfmt
      cases hproper t List.mem_cons_self with
      | literal hne _ => exact absurd (hfmt.1.symm.trans hpercent) hne
      | escape c => exact absurd (hfmt.1.symm.trans hpercent) (by decide)
      | conversion c =>
          rw [Token.bytes_ofConversion] at hfmt
          have hc : c = code 's' := hfmt.2.2.1.symm.trans hs
          exact if_pos hc

/-- Where the scan of a text can be, and what is left of the text there. -/
theorem left_of_visits {out : List UInt8} (hproper : ∀ t ∈ tokens, t.Proper)
    (hfmt : mem.StringAt fmt (tokens.flatMap Token.bytes)) (hout : Denotes mem args 0 tokens out)
    {fuel n : Nat} {b : PrintBuf} {t : Scan}
    (ht : t ∈ Loop.visits (Scan.more mem fmt) (Scan.turn fuel mem fmt args) n (Scan.start b)) :
    ∃ front rest text left, tokens = front ++ rest ∧ out = text ++ left ∧
      t = (Scan.start b).pastAll front text ∧ Denotes mem args t.args rest left := by
  rw [← List.append_nil (tokens.flatMap Token.bytes)] at hfmt
  obtain ⟨front, rest, text, rfl, hfront, rfl, -⟩ :=
    Scan.denotes_of_visits (s := Scan.start b) ht hproper hfmt (Or.inl rfl)
  obtain ⟨text', left, rfl, hfront', hleft⟩ := hout.split
  rw [hfront'.unique hfront]
  exact ⟨front, rest, text, left, rfl, rfl, rfl, hleft⟩

/-- A text is stored below its length. -/
theorem lt_of_stored {front : List Token} {text : List UInt8} {b : PrintBuf} {k : Nat}
    (h : k ∈ ((Scan.start b.cleared).pastAll front text).out.stored) : k < text.length := by
  have hrange := ((PrintBuf.mem_putAll_stored text _ k).mp h).resolve_left List.not_mem_nil
  exact Nat.lt_of_lt_of_eq hrange.2 (Nat.zero_add _)

/-- At a token the stores are below the length of the text so far and of the token. -/
theorem lt_of_stores {front rest : List Token} {text left : List UInt8} {b : PrintBuf}
    (hproper : ∀ t ∈ rest, t.Proper)
    (hfmt : mem.StringAt fmt ((front ++ rest).flatMap Token.bytes))
    (hleft : Denotes mem args ((Scan.start b.cleared).pastAll front text).args rest left)
    {fuel k : Nat}
    (hk : k ∈ ((Scan.start b.cleared).pastAll front text).stores fuel mem fmt args) :
    k < text.length + left.length := by
  unfold Scan.stores at hk
  split at hk
  case isFalse => exact Nat.lt_add_right _ (lt_of_stored hk)
  case isTrue hread =>
    -- the copy stores behind the text so far; the string is what is left of the text first
    have hbehind : mem.StringAt (fmt + ((Scan.start b.cleared).pastAll front text).i)
        (rest.flatMap Token.bytes) := by
      apply Scan.stringAt_pastAll (s := Scan.start b.cleared)
      rwa [← List.flatMap_append]
    obtain ⟨back, rfl⟩ := string_of_reads hproper hbehind hread.1 hread.2
    cases hleft with
    | cons head tail =>
        cases head with
        | string hstring =>
            cases List.mem_append.mp hk with
            | inl hstored => exact Nat.lt_add_right _ (lt_of_stored hstored)
            | inr hcopy =>
                cases PrintBuf.copyStores_of_stringAt hstring hcopy with
                | inl hstored => exact Nat.lt_add_right _ (lt_of_stored hstored)
                | inr hlt =>
                    have hptr : ((Scan.start b.cleared).pastAll front text).out.ptr =
                        text.length := (PrintBuf.putAll_ptr text _).trans (Nat.zero_add _)
                    rw [List.length_append]
                    omega

/-- No store is behind the NUL of the text. -/
theorem stores_le {out : List UInt8} (hproper : ∀ t ∈ tokens, t.Proper)
    (hfmt : mem.StringAt fmt (tokens.flatMap Token.bytes)) (hout : Denotes mem args 0 tokens out)
    {fuel k : Nat} {b : PrintBuf} {v : Vga} (hk : k ∈ kprintfStores fuel mem fmt args b v) :
    k ≤ out.length := by
  cases mem_kprintfStores_iff.mp hk with
  | inl hvisit =>
      obtain ⟨t, ht, hk⟩ := hvisit
      obtain ⟨front, rest, text, left, rfl, rfl, rfl, hleft⟩ := left_of_visits hproper hfmt hout ht
      have hrest : ∀ t ∈ rest, t.Proper := fun t ht => hproper t (List.mem_append_right _ ht)
      rw [List.length_append]
      exact Nat.le_of_lt (lt_of_stores hrest hfmt hleft hk)
  | inr hreturn =>
      obtain ⟨r, hr, hk⟩ := hreturn
      rw [kprintf_eq] at hr
      cases hloop : Loop.loop (Scan.more mem fmt) (Scan.turn fuel mem fmt args) Fault.diverges fuel
          (Scan.start b.cleared) with
      | error e =>
          rw [hloop] at hr
          cases hr
      | ok t =>
          obtain ⟨front, rest, text, left, rfl, rfl, rfl, -⟩ :=
            left_of_visits hproper hfmt hout (Loop.mem_visits_of_loop hloop).1
          rw [hloop] at hr
          cases hr
          have hle := ((PrintBuf.mem_stored_set_putAll rfl 0).mp hk).resolve_left List.not_mem_nil
          rw [List.length_append]
          exact Nat.le_add_right_of_le hle

/-- The NUL is stored behind the text. -/
theorem length_mem_stores {out : List UInt8} (hproper : ∀ t ∈ tokens, t.Proper)
    (hfmt : mem.StringAt fmt (tokens.flatMap Token.bytes)) (hout : Denotes mem args 0 tokens out)
    (b : PrintBuf) (v : Vga) : ∃ fuel, out.length ∈ kprintfStores fuel mem fmt args b v := by
  have hturns : tokens.length < tokens.length + out.length + 1 := by omega
  have hcopies : out.length < tokens.length + out.length + 1 := by omega
  refine ⟨_, mem_kprintfStores_iff.mpr (Or.inr ⟨_, kprintf_of_denotes hproper hfmt hout hturns
    hcopies b.cleared v, ?_⟩)⟩
  exact (PrintBuf.mem_stored_set_putAll rfl 0).mpr (Or.inr (Nat.le_refl out.length))

/-- A string without a NUL is stored behind every bound. -/
theorem stores_endless {front back : List Token} {out : List UInt8}
    (hproper : ∀ t ∈ front ++ .string :: back, t.Proper)
    (hfmt : mem.StringAt fmt ((front ++ .string :: back).flatMap Token.bytes))
    (hout : Denotes mem args 0 front out)
    (hnone : ∀ text, ¬mem.StringAt (args (0 + takenBy front)) text) (b : PrintBuf) (v : Vga)
    (n : Nat) : ∃ fuel, out.length + n ∈ kprintfStores fuel mem fmt args b v := by
  rw [List.flatMap_append] at hfmt
  have hcopies : out.length < front.length + out.length + n + 2 := by omega
  have hturns : front.length < front.length + out.length + n + 2 := by omega
  have hfuel : n + 1 < front.length + out.length + n + 2 := by omega
  have hrun := Scan.turns_of_denotes (s := Scan.start b.cleared)
    (fun t ht => hproper t (List.mem_append_left _ ht)) hfmt hout hcopies
  have hleft : mem.StringAt (fmt + ((Scan.start b.cleared).pastAll front out).i)
      ((Token.string :: back).flatMap Token.bytes) :=
    Scan.stringAt_pastAll (s := Scan.start b.cleared) hfmt
  have hread : mem (fmt + ((Scan.start b.cleared).pastAll front out).i) = percent ∧
      mem (fmt + (((Scan.start b.cleared).pastAll front out).i + 1)) = code 's' :=
    ⟨hleft.1, hleft.2.2.1⟩
  have hptr : ((Scan.start b.cleared).pastAll front out).out.ptr = out.length :=
    (PrintBuf.putAll_ptr out _).trans (Nat.zero_add _)
  have hcopy := PrintBuf.mem_copyStores_of_endless
    (b := ((Scan.start b.cleared).pastAll front out).out) hnone hfuel
  rw [hptr] at hcopy
  refine ⟨_, mem_kprintfStores_iff.mpr (Or.inl ⟨_, hrun.mem_visits hturns, ?_⟩)⟩
  rw [Scan.stores, if_pos hread]
  exact List.mem_append_right _ hcopy

/-- The stores are inside `buf` when the widths leave room for the NUL. -/
theorem kprintf_stores_iff (hfmt : mem.StringAt fmt format)
    (htokens : tokenize format = some tokens) (b : PrintBuf) (v : Vga) :
    (∀ fuel, ∀ k ∈ kprintfStores fuel mem fmt args b v, k < 1024) ↔
      ∃ n ≤ 1023, Widths mem args 0 tokens n := by
  obtain ⟨rfl, hproper⟩ := bytes_of_tokenize htokens
  constructor
  · intro h
    cases exists_denotes_or mem args 0 tokens with
    | inl hdenotes =>
        obtain ⟨out, hout⟩ := hdenotes
        obtain ⟨fuel, hstored⟩ := length_mem_stores hproper hfmt hout b v
        exact ⟨out.length, Nat.le_of_lt_succ (h fuel _ hstored), widths_iff.mpr ⟨out, hout, rfl⟩⟩
    | inr hendless =>
        obtain ⟨front, back, out, rfl, hout, hnone⟩ := hendless
        obtain ⟨fuel, hstored⟩ := stores_endless hproper hfmt hout hnone b v 1024
        exact absurd (h fuel _ hstored) (Nat.not_lt.mpr (Nat.le_add_left 1024 out.length))
  · rintro ⟨n, hn, hwidths⟩ fuel k hk
    obtain ⟨out, hout, rfl⟩ := widths_iff.mp hwidths
    exact Nat.lt_succ_of_le (Nat.le_trans (stores_le hproper hfmt hout hk) hn)

/-- `kprintf("%s", "heap")` -/
theorem kprintf_stores_heap :
    let mem : Memory := fun a =>
      if a < 200 then [percent, code 's'].getD (a - 100) 0
      else (['h', 'e', 'a', 'p'].map code).getD (a - 200) 0
    ∀ fuel, ∀ k ∈ kprintfStores fuel mem 100 (fun _ => 200) ⟨fun _ => 0xFF, 0, []⟩
      (Vga.boot fun _ => 0), k < 1024 := by
  intro mem
  have hfmt : mem.StringAt 100 [percent, code 's'] := by decide
  have hstring : mem.StringAt 200 (['h', 'e', 'a', 'p'].map code) := by decide
  exact (kprintf_stores_iff hfmt rfl _ _).mpr ⟨4, by decide, .cons (w := 4) (.string hstring) .nil⟩

end Format

/-- `kprintf("Started with: %s\n", cmdline)` with a command line of 1009 characters. -/
theorem kprintf_stores_past_cmdline :
    let front := ['S', 't', 'a', 'r', 't', 'e', 'd', ' ', 'w', 'i', 't', 'h', ':', ' '].map code
    let format := front ++ [percent, code 's', code '\n']
    let mem : Memory := fun a =>
      if a < 4096 then format.getD (a - 100) 0 else if a < 4096 + 1009 then code 'x' else 0
    mem.StringAt 100 format ∧
      tokenize format = some (front.map .literal ++ [.string, .literal (code '\n')]) ∧
      mem.StringAt 4096 (List.replicate 1009 (code 'x')) ∧
      ¬∀ fuel, ∀ k ∈ kprintfStores fuel mem 100 (fun _ => 4096) ⟨fun _ => 0xFF, 0, []⟩
        (Vga.boot fun _ => 0), k < 1024 := by
  intro front format mem
  have hfmt : mem.StringAt 100 format := by decide
  have htokens :
      tokenize format = some (front.map .literal ++ [.string, .literal (code '\n')]) := by decide
  have hcmdline : mem.StringAt 4096 (List.replicate 1009 (code 'x')) := by
    refine Memory.stringAt_replicate (by decide) (fun x hx => ?_) ?_
    · exact (if_neg (by omega)).trans (if_pos (by omega))
    · exact (if_neg (by omega)).trans (if_neg (by omega))
  refine ⟨hfmt, htokens, hcmdline, fun h => ?_⟩
  obtain ⟨hbytes, hproper⟩ := bytes_of_tokenize htokens
  have hstring : Widths mem (fun _ => 4096) 0 [.string, .literal (code '\n')]
      ((List.replicate 1009 (code 'x')).length + 1) :=
    .cons (.string hcmdline) (.cons (.literal _) .nil)
  obtain ⟨out, hout, hlength⟩ := widths_iff.mp (hstring.literals front)
  obtain ⟨fuel, hstored⟩ := length_mem_stores hproper (hbytes.symm ▸ hfmt) hout
    ⟨fun _ => 0xFF, 0, []⟩ (Vga.boot fun _ => 0)
  have hend : out.length = 1024 := by
    rw [hlength, List.length_replicate]
    rfl
  exact absurd (h fuel _ hstored) (by omega)

end X32PRos
