import X32PRos.Console.Scan

/-!
Which characters of its format `kprintf` reads. The scan stays inside the format
as long as a token is left; a lone percent sign or backslash at the end takes
the NUL for its second character, and the scan goes on behind it.
-/

namespace X32PRos

open Foundation

namespace Scan

def reads (mem : Memory) (fmt : Nat) (s : Scan) : List Nat :=
  if mem (fmt + s.i) = percent ∨ mem (fmt + s.i) = backslash then [s.i, s.i + 1] else [s.i]

variable {fuel : Nat} {mem : Memory} {fmt : Nat} {args : Nat → Nat} {s : Scan}

theorem mem_reads_self : s.i ∈ s.reads mem fmt := by
  unfold reads
  split <;> exact List.mem_cons_self

/-- Another format is scanned alike where it agrees on what is read. -/
theorem congr_reads {fmt' : Nat} (h : ∀ i ∈ s.reads mem fmt, mem (fmt' + i) = mem (fmt + i)) :
    s.more mem fmt' = s.more mem fmt ∧ s.turn fuel mem fmt' args = s.turn fuel mem fmt args := by
  have hself := h s.i mem_reads_self
  refine ⟨by rw [more, more, hself], ?_⟩
  unfold turn
  rw [hself]
  by_cases hplain : mem (fmt + s.i) ≠ percent ∧ mem (fmt + s.i) ≠ backslash
  · rw [if_pos hplain, if_pos hplain]
  · have hpair : mem (fmt + s.i) = percent ∨ mem (fmt + s.i) = backslash := by
      rwa [not_and_or, not_not, not_not] at hplain
    have hnext : s.i + 1 ∈ s.reads mem fmt := by
      rw [reads, if_pos hpair]
      exact List.mem_cons_of_mem _ List.mem_cons_self
    rw [if_neg hplain, if_neg hplain, h (s.i + 1) hnext]

/-- A token is read to its end, and no further. -/
theorem reads_token {t : Token} {behind : List UInt8} (ht : t.Proper)
    (hfmt : mem.StringAt (fmt + s.i) (t.bytes ++ behind)) :
    ∀ i ∈ s.reads mem fmt, i < s.i + t.bytes.length := by
  intro i hi
  have hpair : i ≤ s.i + 1 := by
    unfold reads at hi
    split at hi
    · cases List.mem_cons.mp hi with
      | inl heq => omega
      | inr hi => exact Nat.le_of_eq (List.mem_singleton.mp hi)
    · rw [List.mem_singleton.mp hi]
      exact Nat.le_succ s.i
  cases ht with
  | @literal c hpercent hbackslash =>
      have hread : mem (fmt + s.i) = c := hfmt.1
      rw [reads, hread, if_neg (not_or.mpr ⟨hpercent, hbackslash⟩)] at hi
      rw [List.mem_singleton.mp hi]
      exact Nat.lt_succ_self s.i
  | escape c => exact Nat.lt_succ_of_le hpair
  | conversion c =>
      rw [Token.bytes_ofConversion]
      exact Nat.lt_succ_of_le hpair

/-- At the NUL only the NUL is read. -/
theorem reads_nul (h : mem (fmt + s.i) = 0) : s.reads mem fmt = [s.i] := by
  rw [reads, h, if_neg (by decide)]

/-- The NUL is taken for the second character of a pair. -/
theorem turn_over_nul (h : mem (fmt + s.i) = percent ∨ mem (fmt + s.i) = backslash)
    (hnul : mem (fmt + (s.i + 1)) = 0) :
    ∃ s', s.turn fuel mem fmt args = .ok s' ∧ s'.i = s.i + 2 := by
  cases h with
  | inl hpercent =>
      have hconvert : s.convert fuel mem args 0 = .ok { s with out := s.out.put 0 } := rfl
      rw [turn, hpercent, hnul, if_neg (fun hne => hne.1 rfl), if_neg (by decide), hconvert]
      exact ⟨_, rfl, rfl⟩
  | inr hbackslash =>
      rw [turn, hbackslash, hnul, if_neg (fun hne => hne.2 rfl), if_pos rfl]
      exact ⟨_, rfl, rfl⟩

end Scan

/-- The indices at which `kprintf` reads its format, also when it does not end. -/
def kprintfReads (fuel : Nat) (mem : Memory) (fmt : Nat) (args : Nat → Nat) (b : PrintBuf) :
    List Nat :=
  (Loop.visits (Scan.more mem fmt) (Scan.turn fuel mem fmt args) fuel (Scan.start b)).flatMap
    (Scan.reads mem fmt)

/-- Nothing else of the format has an influence. -/
theorem kprintf_congr_reads {fuel : Nat} {mem : Memory} {fmt fmt' : Nat} {args : Nat → Nat}
    {b : PrintBuf} (h : ∀ i ∈ kprintfReads fuel mem fmt args b, mem (fmt' + i) = mem (fmt + i))
    (v : Vga) : kprintf fuel mem fmt' args b v = kprintf fuel mem fmt args b v := by
  rw [kprintf_eq, kprintf_eq]
  refine congrArg _ (Loop.loop_congr _ fun t ht => Scan.congr_reads fun i hi => ?_)
  exact h i (List.mem_flatMap.mpr ⟨t, ht, hi⟩)

/-- A percent sign or a backslash is left at the end, and the scan comes so far. -/
def EndsInside (mem : Memory) (args : Nat → Nat) (format : List UInt8) : Prop :=
  ∃ front c tokens out, format = front ++ [c] ∧ (c = percent ∨ c = backslash) ∧
    tokenize front = some tokens ∧ Denotes mem args 0 tokens out

section Format

variable {mem : Memory} {fmt : Nat} {args : Nat → Nat} {b : PrintBuf} {format : List UInt8}

/-- The scan stays inside a format of which it has not read the last token. -/
theorem reads_le {tokens : List Token} {behind : List UInt8} (hproper : ∀ t ∈ tokens, t.Proper)
    (hfmt : mem.StringAt fmt (tokens.flatMap Token.bytes ++ behind))
    (hbehind : behind = [] ∨ ∀ out, ¬Denotes mem args 0 tokens out) {fuel i : Nat}
    (hi : i ∈ kprintfReads fuel mem fmt args b) :
    i ≤ (tokens.flatMap Token.bytes ++ behind).length := by
  obtain ⟨t, ht, hi⟩ := List.mem_flatMap.mp hi
  obtain ⟨front, rest, out, rfl, -, rfl, hrest⟩ :=
    Scan.denotes_of_visits (s := Scan.start b) ht hproper hfmt hbehind
  have hleft : mem.StringAt (fmt + ((Scan.start b).pastAll front out).i)
      (rest.flatMap Token.bytes ++ behind) := by
    apply Scan.stringAt_pastAll (s := Scan.start b)
    rwa [← List.append_assoc, ← List.flatMap_append]
  have hplace : ((Scan.start b).pastAll front out).i = (front.flatMap Token.bytes).length :=
    Nat.zero_add _
  rw [List.flatMap_append, List.append_assoc, List.length_append]
  cases rest with
  | nil =>
      rw [hrest rfl] at hleft
      rw [Scan.reads_nul hleft, List.mem_singleton, hplace] at hi
      omega
  | cons r rest =>
      rw [List.flatMap_cons, List.append_assoc] at hleft ⊢
      have hr := hproper r (List.mem_append_right _ List.mem_cons_self)
      have hlt := Scan.reads_token hr hleft i hi
      rw [List.length_append]
      omega

/-- A lone character at the end is read past. -/
theorem reads_past (hfmt : mem.StringAt fmt format) (h : EndsInside mem args format) :
    ∃ fuel, format.length + 1 ∈ kprintfReads fuel mem fmt args b := by
  obtain ⟨front, c, tokens, out, rfl, hc, htokens, hout⟩ := h
  obtain ⟨rfl, hproper⟩ := bytes_of_tokenize htokens
  have hcopies : out.length < tokens.length + out.length + 2 := by omega
  have hturns : tokens.length + 1 < tokens.length + out.length + 2 := by omega
  have hrun := Scan.turns_of_denotes (s := Scan.start b) hproper hfmt hout hcopies
  have hleft : mem.StringAt (fmt + ((Scan.start b).pastAll tokens out).i) [c] :=
    Scan.stringAt_pastAll (s := Scan.start b) hfmt
  obtain ⟨rfl, hne, hnul⟩ := hleft
  obtain ⟨s', hturn, hplace⟩ := Scan.turn_over_nul hc hnul
  have hvisit := (hrun.snoc (Scan.more_iff.mpr hne) hturn).mem_visits hturns
  have hstart : ((Scan.start b).pastAll tokens out).i = (tokens.flatMap Token.bytes).length :=
    Nat.zero_add _
  have hpast : (tokens.flatMap Token.bytes ++
      [mem (fmt + ((Scan.start b).pastAll tokens out).i)]).length + 1 = s'.i := by
    rw [List.length_append, hplace, hstart]
    rfl
  rw [hpast]
  exact ⟨_, List.mem_flatMap.mpr ⟨s', hvisit, Scan.mem_reads_self⟩⟩

/-- Without a lone character at the end, nothing behind the NUL is read. -/
theorem reads_le_length (hfmt : mem.StringAt fmt format) (hends : ¬EndsInside mem args format)
    {fuel i : Nat} (hi : i ∈ kprintfReads fuel mem fmt args b) : i ≤ format.length := by
  cases htokens : tokenize format with
  | some tokens =>
      obtain ⟨hbytes, hproper⟩ := bytes_of_tokenize htokens
      rw [← hbytes, ← List.append_nil (tokens.flatMap Token.bytes)] at hfmt ⊢
      exact reads_le hproper hfmt (Or.inl rfl) hi
  | none =>
      obtain ⟨front, c, tokens, rfl, hc, htokens⟩ := tokens_before_end htokens
      obtain ⟨rfl, hproper⟩ := bytes_of_tokenize htokens
      refine reads_le hproper hfmt (Or.inr fun out hout => hends ?_) hi
      exact ⟨_, c, tokens, out, rfl, hc, htokens, hout⟩

/-- What `kprintf` does with such a format depends on its characters alone, wherever it lies and
whatever lies behind it. -/
theorem kprintf_of_format {fmt' : Nat} (hfmt : mem.StringAt fmt format)
    (hfmt' : mem.StringAt fmt' format) (hends : ¬EndsInside mem args format) (fuel : Nat)
    (b : PrintBuf) (v : Vga) : kprintf fuel mem fmt' args b v = kprintf fuel mem fmt args b v :=
  kprintf_congr_reads (fun _ hi => hfmt.byte_eq hfmt' (reads_le_length hfmt hends hi)) v

/-- No character behind the NUL is read, and the scan comes to the NUL if it can get
through the strings. -/
structure StopsAtNul (mem : Memory) (fmt : Nat) (args : Nat → Nat) (b : PrintBuf)
    (format : List UInt8) : Prop where
  reads : ∀ fuel, ∀ i ∈ kprintfReads fuel mem fmt args b, i ≤ format.length
  ends : ∀ tokens out, tokenize format = some tokens → Denotes mem args 0 tokens out →
    ∀ fuel, format.length + out.length < fuel →
      ∃ s, Loop.loop (Scan.more mem fmt) (Scan.turn fuel mem fmt args) Fault.diverges fuel
          (Scan.start b) = .ok s ∧ s.i = format.length

/-- `kprintf` stays inside its format unless that ends inside a sequence. -/
theorem kprintf_stopsAtNul_iff (hfmt : mem.StringAt fmt format) (b : PrintBuf) :
    StopsAtNul mem fmt args b format ↔ ¬EndsInside mem args format := by
  constructor
  · intro h hends
    obtain ⟨fuel, hread⟩ := reads_past (b := b) hfmt hends
    exact absurd (h.reads fuel _ hread) (Nat.not_succ_le_self format.length)
  · intro hends
    constructor
    case reads =>
      intro fuel i hi
      exact reads_le_length hfmt hends hi
    case ends =>
      intro tokens out htokens hout fuel hfuel
      obtain ⟨rfl, hproper⟩ := bytes_of_tokenize htokens
      have hcount := length_le_of_bytes tokens
      have hcopies : out.length < fuel := by omega
      have hturns : tokens.length < fuel := by omega
      exact ⟨_, loop_of_denotes hproper hfmt hout hturns hcopies b, Nat.zero_add _⟩

/-- `kprintf("%")` -/
theorem kprintf_stopsAtNul_iff_percent :
    let mem : Memory := fun a => [percent, 0, percent, code 'd', 0].getD (a - 100) 0
    StopsAtNul mem 100 (fun _ => 7) ⟨fun _ => 0xFF, 0, []⟩ [percent] ↔
      ¬EndsInside mem (fun _ => 7) [percent] := by
  intro mem
  have hfmt : mem.StringAt 100 [percent] := by decide
  exact kprintf_stopsAtNul_iff hfmt _

/-- The format `"%"`, and a directive behind it. -/
theorem kprintf_reads_past_percent :
    let mem : Memory := fun a => [percent, 0, percent, code 'd', 0].getD (a - 100) 0
    mem.StringAt 100 [percent] ∧
      ¬∀ fuel, ∀ i ∈ kprintfReads fuel mem 100 (fun _ => 7) ⟨fun _ => 0xFF, 0, []⟩, i ≤ 1 := by
  intro mem
  refine ⟨by decide, fun h => ?_⟩
  have hread : 3 ∈ kprintfReads 16 mem 100 (fun _ => 7) ⟨fun _ => 0xFF, 0, []⟩ := by decide
  exact absurd (h 16 3 hread) (by decide)

end Format

end X32PRos
