import X32PRos.Console.Panic
import X32PRos.Interrupts.Stubs

/-!
The exceptions of the processor: from the stub over `fault_handler` of `core/isrs.c` or
`page_fault` of `core/mem.c` to the report on the screen, behind which the kernel spins
with interrupts off.
-/

namespace X32PRos

open Foundation

/-- What a handler calls, and whether it spins then. -/
structure Outcome where
  calls : List ConsoleCall
  halted : Bool

def exceptionMessages : List (List UInt8) :=
  ["division by zero", "debug", "non-maskable interrupt", "breakpoint", "detected overflow",
    "out-of-bounds", "invalid opcode", "no coprocessor", "double fault",
    "coprocessor segment overrun", "bad TSS", "segment not present", "stack fault",
    "general protection fault", "page fault", "unknown interrupt", "coprocessor fault",
    "alignment check", "machine check", "reserved", "reserved", "reserved", "reserved", "reserved",
    "reserved", "reserved", "reserved", "reserved", "reserved", "reserved", "reserved",
    "reserved"].map ascii

abbrev IsrsRoutines := Nat → Option (Regs → Outcome)

def isrsInstallHandler (isrs : Nat) (handler : Regs → Outcome) (routines : IsrsRoutines) :
    IsrsRoutines := fun i => if i = isrs then some handler else routines i

def exceptionFormat : List UInt8 := ascii "%s exception encountered.\n"

def faultHandler (lit : Literals) (routines : IsrsRoutines) (r : Regs) : Outcome :=
  if r.intNo < 32 then
    match routines r.intNo.toNat with
    | some handler => handler r
    | none =>
        let message := exceptionMessages.getD r.intNo.toNat []
        let halt := haltAndCatchFire lit (lit (ascii "System halted.")) (lit (ascii "isrs.c")) 135
        ⟨.kprintf (lit exceptionFormat) (passed [lit message]) :: .video (.puts message) :: halt,
          true⟩
  else ⟨[], false⟩

def pageFaultFormat : List UInt8 := ascii "Page fault! (p:%d,rw:%d,user:%d,res:%d) at 0x%x\n"

/-- `cr2` is what the register of that name holds. -/
def pageFault (lit : Literals) (cr2 : UInt32) (r : Regs) : Outcome :=
  let present : UInt32 := if r.errCode &&& 0x1 = 0 then 1 else 0
  let rw := r.errCode &&& 0x2
  let user := r.errCode &&& 0x4
  let reserved := r.errCode &&& 0x8
  let halt := haltAndCatchFire lit (lit (ascii "Page fault")) (lit (ascii "mem.c")) 230
  ⟨.kprintf (lit pageFaultFormat)
    (passed [present.toNat, rw.toNat, user.toNat, reserved.toNat, cr2.toNat]) :: halt, true⟩

/-- The handlers that `paging_install` leaves. -/
def bootRoutines (lit : Literals) (cr2 : UInt32) : IsrsRoutines :=
  isrsInstallHandler 14 (pageFault lit cr2) fun _ => none

/-! ### What is printed -/

structure Exception where
  vector : Nat
  error : UInt32
  cr2 : UInt32

namespace Exception

def message (e : Exception) : List UInt8 := exceptionMessages.getD e.vector []

def heading (e : Exception) : List UInt8 :=
  if e.vector = 14 then
    Piece.text [⟨ascii "Page fault! (p:", .decimal (if e.error &&& 0x1 = 0 then 1 else 0)⟩,
      ⟨ascii ",rw:", .decimal (e.error &&& 0x2)⟩, ⟨ascii ",user:", .decimal (e.error &&& 0x4)⟩,
      ⟨ascii ",res:", .decimal (e.error &&& 0x8)⟩, ⟨ascii ") at 0x", .hex e.cr2⟩] [10]
  else e.message ++ ascii " exception encountered.\n"

def report (e : Exception) : Report :=
  if e.vector = 14 then ⟨.panic, ascii "Page fault", ascii "mem.c", 230⟩
  else ⟨.panic, ascii "System halted.", ascii "isrs.c", 135⟩

def videoCalls (e : Exception) : List VideoCall :=
  .puts e.heading :: (if e.vector = 14 then [] else [.puts e.message]) ++ e.report.videoCalls

/-- The exception that a heading is about: its number, or for a page fault its number, the low
bits of the error code and the address. -/
def read (heading : List UInt8) : Nat × Nat × Nat :=
  if heading.head? = some (code 'P') then
    let digit := fun i => readNumber 10 ((heading.drop i).take 1)
    (14, (1 - digit 15) + digit 20 + digit 27 + digit 33, readNumber 16 ((heading.drop 41).take 8))
  else (exceptionMessages.idxOf (heading.take (heading.length - 24)), 0, 0)

def texts : List (List UInt8) :=
  [pageFaultFormat, exceptionFormat, ascii "Page fault", ascii "mem.c", ascii "System halted.",
    ascii "isrs.c"] ++ PanicKind.panic.formats ++ exceptionMessages

theorem decimal_digit {v : UInt32} (h : v.toNat < 10) : ∃ c, decimalText v = [c] :=
  ⟨_, congrArg (List.map digitChar) (Numeral.free_of_lt h)⟩

/-- The four low bits of a word, one by one. -/
theorem low_bits (w : UInt32) :
    (1 - (if w &&& 0x1 = 0 then 1 else 0 : UInt32).toNat) + (w &&& 0x2).toNat + (w &&& 0x4).toNat +
      (w &&& 0x8).toNat = w.toNat % 16 := by
  have hone : (w &&& 0x1).toNat = w.toNat % 2 := by
    rw [UInt32.toNat_and]
    exact Nat.and_two_pow_sub_one_eq_mod w.toNat 1
  have hbit : ∀ i : Nat, w.toNat &&& 2 ^ i = w.toNat / 2 ^ i % 2 * 2 ^ i := by
    intro i
    rw [Nat.and_two_pow, Nat.toNat_testBit]
  have htwo : (w &&& 0x2).toNat = w.toNat / 2 % 2 * 2 := by
    rw [UInt32.toNat_and]
    exact hbit 1
  have hfour : (w &&& 0x4).toNat = w.toNat / 4 % 2 * 4 := by
    rw [UInt32.toNat_and]
    exact hbit 2
  have height : (w &&& 0x8).toNat = w.toNat / 8 % 2 * 8 := by
    rw [UInt32.toNat_and]
    exact hbit 3
  have hzero : (w &&& 0x1 = 0) ↔ w.toNat % 2 = 0 := by
    rw [← UInt32.toNat_inj, hone]
    rfl
  by_cases h : w &&& 0x1 = 0
  · have hlow := hzero.mp h
    rw [if_pos h, htwo, hfour, height]
    change 1 - 1 + _ + _ + _ = _
    omega
  · have hlow : w.toNat % 2 ≠ 0 := fun hlow => h (hzero.mpr hlow)
    rw [if_neg h, htwo, hfour, height]
    change 1 - 0 + _ + _ + _ = _
    omega

/-- Every message is at its own place, but for the reserved ones, and none begins like a page
fault's. -/
theorem messages_apart : ∀ v < 32,
    exceptionMessages.idxOf (exceptionMessages.getD v []) = min v 19 ∧
      (exceptionMessages.getD v []).head?.any (· ≠ code 'P') = true := by
  decide

theorem read_heading (e : Exception) (h : e.vector < 32) :
    read e.heading =
      if e.vector = 14 then (14, e.error.toNat % 16, e.cr2.toNat) else (min e.vector 19, 0, 0) := by
  by_cases hpage : e.vector = 14
  · rw [if_pos hpage, heading, if_pos hpage]
    have hpresent : (if e.error &&& 0x1 = 0 then 1 else 0 : UInt32).toNat < 10 := by
      split <;> decide
    have hsmall : ∀ m : UInt32, m.toNat < 10 → (e.error &&& m).toNat < 10 := by
      intro m hm
      rw [UInt32.toNat_and]
      exact Nat.lt_of_le_of_lt Nat.and_le_right hm
    obtain ⟨c₀, h₀⟩ := decimal_digit hpresent
    obtain ⟨c₁, h₁⟩ := decimal_digit (hsmall 0x2 (by decide))
    obtain ⟨c₂, h₂⟩ := decimal_digit (hsmall 0x4 (by decide))
    obtain ⟨c₃, h₃⟩ := decimal_digit (hsmall 0x8 (by decide))
    have hvalue : ∀ {v : UInt32} {c : UInt8}, decimalText v = [c] →
        readNumber 10 [c] = v.toNat := by
      intro v c hc
      rw [← hc, readNumber_decimalText]
    have hhex : (hexText e.cr2 ++ [10]).take 8 = hexText e.cr2 :=
      List.take_left' (length_hexText e.cr2)
    have hbits := low_bits e.error
    rw [← hvalue h₀, ← hvalue h₁, ← hvalue h₂, ← hvalue h₃] at hbits
    rw [← hbits, ← readNumber_hexText e.cr2, ← hhex]
    simp only [Piece.text, List.foldr, Field.text, h₀, h₁, h₂, h₃]
    rfl
  · obtain ⟨hplace, hhead⟩ := messages_apart e.vector h
    have hname : ∀ m : List UInt8, m.head?.any (· ≠ code 'P') = true →
        read (m ++ exceptionFormat.drop 2) = (exceptionMessages.idxOf m, 0, 0) := by
      intro m hm
      have hfirst : (m ++ exceptionFormat.drop 2).head? ≠ some (code 'P') := by
        cases m with
        | nil => exact absurd hm Bool.false_ne_true
        | cons c cs =>
            intro hc
            have hne : c ≠ code 'P' := of_decide_eq_true hm
            exact hne (Option.some.inj hc)
      have hlength : (m ++ exceptionFormat.drop 2).length - 24 = m.length := by
        have hback : (exceptionFormat.drop 2).length = 24 := by decide
        rw [List.length_append, hback, Nat.add_sub_cancel]
      rw [read, if_neg hfirst, hlength, List.take_left]
    rw [if_neg hpage, heading, if_neg hpage, ← hplace]
    exact hname _ hhead

theorem messages_short : ∀ v < 32, exceptionMessages.getD v [] ∈ exceptionMessages ∧
    (exceptionMessages.getD v []).length ≤ 32 ∧
      (VideoCall.puts (exceptionMessages.getD v [])).Legible := by
  decide

theorem messages_lines : ∀ v < 32, (exceptionMessages.getD v []).count 10 = 0 := by
  decide

theorem heading_size (e : Exception) (h : e.vector < 32) :
    e.heading.length ≤ 100 ∧ e.heading.count 10 = 1 := by
  unfold heading
  split
  · have hpresent := length_decimalText_le (if e.error &&& 0x1 = 0 then 1 else 0)
    have hrw := length_decimalText_le (e.error &&& 0x2)
    have huser := length_decimalText_le (e.error &&& 0x4)
    have hreserved := length_decimalText_le (e.error &&& 0x8)
    have hlengths : (ascii "Page fault! (p:").length = 15 ∧ (ascii ",rw:").length = 4 ∧
        (ascii ",user:").length = 6 ∧ (ascii ",res:").length = 5 ∧
          (ascii ") at 0x").length = 7 := by decide
    have hcounts : (ascii "Page fault! (p:").count 10 = 0 ∧ (ascii ",rw:").count 10 = 0 ∧
        (ascii ",user:").count 10 = 0 ∧ (ascii ",res:").count 10 = 0 ∧
          (ascii ") at 0x").count 10 = 0 ∧ [(10 : UInt8)].count 10 = 1 := by decide
    simp only [Piece.text, List.foldr, Field.text, List.length_append, List.count_append,
      length_hexText, List.length_singleton, hlengths, hcounts, count_hexText, count_decimalText,
      and_true]
    omega
  · obtain ⟨_, hlength, _⟩ := messages_short e.vector h
    have hback : (ascii " exception encountered.\n").length = 24 ∧
        (ascii " exception encountered.\n").count 10 = 1 := by decide
    have hlength : e.message.length ≤ 32 := hlength
    have hmessage : e.message.count 10 = 0 := messages_lines e.vector h
    rw [List.length_append, List.count_append, hback.1, hback.2, hmessage]
    omega

/-! ### What is on the screen -/

variable {mem : Memory} {lit : Literals}

theorem report_means (hlit : lit.In mem texts) (e : Exception) :
    List.Forall₂ (ConsoleCall.Means mem)
      (haltAndCatchFire lit (lit e.report.message) (lit e.report.file) e.report.line)
      e.report.videoCalls := by
  have hformats : lit.In mem PanicKind.panic.formats := hlit.mono (by decide)
  have hmessage : e.report.message ∈ texts ∧ e.report.file ∈ texts ∧ e.report.kind = .panic ∧
      e.report.Short := by
    unfold report
    split <;> exact ⟨by decide, by decide, rfl, ⟨by decide, by decide⟩⟩
  obtain ⟨hmessage, hfile, hkind, hshort⟩ := hmessage
  have hmeans := Report.means (r := e.report) (hkind ▸ hformats) (hlit _ hmessage) (hlit _ hfile)
    hshort
  rw [Report.calls_eq, hkind] at hmeans
  exact hmeans

/-- The handlers of the boot, called for an exception, come to its calls and spin. -/
theorem faultHandler_means (hlit : lit.In mem texts) {r : Regs} (e : Exception)
    (hvector : r.intNo.toNat = e.vector) (hlt : e.vector < 32)
    (herror : e.vector = 14 → r.errCode = e.error) :
    (faultHandler lit (bootRoutines lit e.cr2) r).halted = true ∧
      List.Forall₂ (ConsoleCall.Means mem) (faultHandler lit (bootRoutines lit e.cr2) r).calls
        e.videoCalls := by
  have hintNo : r.intNo < 32 := by
    apply UInt32.lt_iff_toNat_lt.mpr
    rw [hvector]
    exact hlt
  have hreport := report_means hlit e
  rw [faultHandler, if_pos hintNo, hvector]
  by_cases hpage : e.vector = 14
  · have hroutine : bootRoutines lit e.cr2 e.vector = some (pageFault lit e.cr2) := if_pos hpage
    have hhalt : e.report = ⟨.panic, ascii "Page fault", ascii "mem.c", 230⟩ := if_pos hpage
    rw [hhalt] at hreport
    rw [hroutine, videoCalls, if_pos hpage, hhalt]
    refine ⟨rfl, .cons (.kprintf ?_) hreport⟩
    rw [herror hpage, heading, if_pos hpage]
    have hplain : Plain [10] := by decide
    refine Piece.prints ?_ hplain (hlit _ (by decide)) ⟨rfl, rfl, rfl, rfl, rfl, trivial⟩ ?_
    · simp only [List.forall_mem_cons]
      exact ⟨by decide, by decide, by decide, by decide, by decide, fun p hp =>
        absurd hp List.not_mem_nil⟩
    · obtain ⟨hlength, _⟩ := e.heading_size hlt
      rw [heading, if_pos hpage] at hlength
      exact Nat.le_trans hlength (by decide)
  · have hroutine : bootRoutines lit e.cr2 e.vector = none := if_neg hpage
    have hhalt : e.report = ⟨.panic, ascii "System halted.", ascii "isrs.c", 135⟩ := if_neg hpage
    rw [hhalt] at hreport
    rw [hroutine, videoCalls, if_neg hpage, hhalt]
    refine ⟨rfl, .cons (.kprintf ?_) (.cons (.video _) hreport)⟩
    rw [heading, if_neg hpage]
    obtain ⟨hmem, hlength, _⟩ := messages_short e.vector hlt
    have hmessage : mem.StringAt (lit e.message) e.message := hlit _ (List.mem_append_right _ hmem)
    have hback : Plain (exceptionFormat.drop 2) := by decide
    refine @Field.prints mem _ _ [] _ (.string e.message) (by decide) hback
      (hlit exceptionFormat (by decide)) ⟨hmessage, trivial⟩ ?_
    rw [List.length_append]
    change e.message.length + 24 ≤ 1023
    have hlength : e.message.length ≤ 32 := hlength
    omega

theorem heading_legible (e : Exception) (h : e.vector < 32) :
    (VideoCall.puts e.heading).Legible ∧ (VideoCall.puts e.message).Legible := by
  have hmessage : (VideoCall.puts e.message).Legible := (messages_short e.vector h).2.2
  refine ⟨?_, hmessage⟩
  unfold heading
  split
  · have hpiece : ∀ {front back : List UInt8} (v : UInt32), (VideoCall.puts front).Legible →
        (VideoCall.puts back).Legible → (VideoCall.puts (front ++ decimalText v ++ back)).Legible :=
      fun v hfront hback => .puts_append (.puts_append hfront (legible_decimalText v)) hback
    simp only [Piece.text, List.foldr, Field.text]
    refine hpiece _ (by decide) (hpiece _ (by decide) (hpiece _ (by decide)
      (hpiece _ (by decide) ?_)))
    exact .puts_append (.puts_append (by decide) (legible_hexText _)) (by decide)
  · exact .puts_append hmessage (by decide)

theorem legible (e : Exception) (h : e.vector < 32) : ∀ o ∈ e.videoCalls, o.Legible := by
  obtain ⟨hheading, hmessage⟩ := e.heading_legible h
  have hprintable : e.report.Printable := by
    unfold report
    split <;> exact ⟨by decide, by decide⟩
  have hreport := Report.legible hprintable
  rw [videoCalls, List.forall_mem_append, List.forall_mem_cons]
  refine ⟨⟨hheading, ?_⟩, hreport⟩
  intro o ho
  split at ho
  · exact absurd ho List.not_mem_nil
  · rw [List.mem_singleton.mp ho]
    exact hmessage

def inks (e : Exception) (colour : Colour) : List Ink :=
  (e.heading ++ if e.vector = 14 then [] else e.message).map (inkOf colour) ++
    e.report.text.map (inkOf (.numbered 14 4))

theorem inks_eq (e : Exception) (colour : Colour) :
    VideoCall.inksFrom colour e.videoCalls = e.inks colour := by
  have hreport := e.report.inks_eq colour
  rw [videoCalls, inks]
  split
  · change _ ++ VideoCall.inksFrom colour e.report.videoCalls = _
    rw [hreport, List.append_nil]
    rfl
  · change _ ++ (_ ++ VideoCall.inksFrom colour e.report.videoCalls) = _
    rw [hreport, List.map_append, List.append_assoc]
    rfl

theorem report_size (e : Exception) :
    e.report.text.length ≤ 60 ∧ e.report.text.count 10 = 3 := by
  unfold report
  split
  · have hline : decimalText 230 = [2, 3, 0].map digitChar :=
      decimalText_three (by decide) (by decide) (by decide) (by decide) (by decide)
    rw [Report.text, hline]
    decide
  · have hline : decimalText 135 = [1, 3, 5].map digitChar :=
      decimalText_three (by decide) (by decide) (by decide) (by decide) (by decide)
    rw [Report.text, hline]
    decide

/-- A report of an exception always fits on the screen. -/
theorem inks_fit (e : Exception) (h : e.vector < 32) (colour : Colour) {x : Nat} (hx : x < 80) :
    Ink.ending x (e.inks colour) < 2000 := by
  obtain ⟨hreport, hlines⟩ := e.report_size
  obtain ⟨hheading, hline⟩ := e.heading_size h
  obtain ⟨_, hlength, _⟩ := messages_short e.vector h
  have hlength : e.message.length ≤ 32 := hlength
  have hmessage : e.message.count 10 = 0 := messages_lines e.vector h
  have hshort : (if e.vector = 14 then [] else e.message).length ≤ 32 ∧
      (if e.vector = 14 then [] else e.message).count 10 = 0 := by
    split
    · decide
    · exact ⟨hlength, hmessage⟩
  have hending := Ink.ending_le x (e.inks colour)
  rw [inks, List.length_append, List.length_map, List.length_map, List.count_append,
    count_newline, count_newline, List.length_append, List.count_append, hline, hlines,
    hshort.2] at hending
  rw [inks]
  omega

end Exception

/-- An exception of the processor, from the stub to the screen. Whatever was interrupted and
whatever the screen shows: the stub calls `fault_handler` with interrupts off, the handler gets
through its printing and spins, and what it has printed is on the screen behind what stood
there. From its first line the exception can be told, and for a page fault the address and the
low four bits of the error code. -/
theorem exception_told {σ : Type} (p : Processor) (lit : Literals) (text : UInt32 → CFunction σ)
    (handler : UInt32) (gate : Gate) (c : Cpu) (k : σ) (e : Exception) (hvector : e.vector < 32)
    (hcode : p.pushesError e.vector = decide (e.vector ∈ isrErr)) (hroom : 72 ≤ c.esp.toNat)
    (hlit : lit.In c.mem Exception.texts)
    (haside : ∀ t ∈ Exception.texts,
      lit t + t.length < c.esp.toNat - 72 ∨ c.esp.toNat ≤ lit t)
    (content : Nat → BitVec 16) (before : List VideoCall) (b : PrintBuf) :
    let v := before.foldl (fun v o => o.onVga v) (Vga.boot content).initVideo
    (∃ entry, Machine.run p text (stubEntry e.vector ++ saveContext handler)
        ⟨c.deliver p e.vector e.error gate, k⟩ = ⟨entry, k⟩ ∧
      entry.eax = handler ∧ ¬ entry.Enabled ∧
      let out := faultHandler lit (bootRoutines lit e.cr2)
        (Regs.load entry.mem (entry.mem.load32 entry.esp.toNat))
      out.halted = true ∧ ∃ n, ∀ fuel ≥ n, ∃ d',
        Run.exec (ConsoleCall.run fuel entry.mem) ⟨b, v⟩ out.calls = .ok d' ∧
          v.Adds (e.inks v.colour) d'.vga ∧ ∀ k ∈ d'.print.stored, k ∈ b.stored ∨ k < 1024) ∧
    Exception.read e.heading =
      if e.vector = 14 then (14, e.error.toNat % 16, e.cr2.toNat) else (min e.vector 19, 0, 0) := by
  intro v
  refine ⟨?_, e.read_heading hvector⟩
  obtain ⟨saved, entry, frame, hrun, _, heax, _, hstack, hentered⟩ :=
    Machine.run_entry (c.esp.toNat - 72) c k p gate e.error text handler (by omega) hcode (by omega)
  have hin : lit.In entry.mem Exception.texts := by
    intro t ht
    apply (hlit t ht).congr
    intro x hle hlt
    apply hstack.kept
    cases haside t ht with
    | inl hbelow => exact Or.inl (by omega)
    | inr habove => exact Or.inr (by omega)
  have hregs := hentered.regs
  have herror : e.vector = 14 →
      (Regs.load entry.mem (entry.mem.load32 entry.esp.toNat)).errCode = e.error := by
    intro hpage
    rw [hregs.errCode, if_pos (by rw [hpage]; decide)]
  obtain ⟨hhalted, hmeans⟩ := Exception.faultHandler_means hin e hregs.intNo hvector herror
  have hcol := ((Shows.start content).calls before).col_lt
  have htold := ConsoleCall.exec_adds_booted hmeans (e.legible hvector) content before b (v := v) rfl
  rw [Exception.inks_eq] at htold
  exact ⟨entry, hrun, heax, hentered.disabled, hhalted, htold (e.inks_fit hvector _ hcol)⟩

/-- A page fault of a write to a page that is not there. -/
theorem exception_told_write :
    let lit := Literals.link 0x100000 Exception.texts
    let c := { plainCpu with mem := Literals.memory 0x100000 Exception.texts }
    let e : Exception := ⟨14, 2, 0xDEADBEEF⟩
    let v := (Vga.boot fun _ => 0).initVideo
    (∃ entry, Machine.run i486 countingImage.text (stubEntry e.vector ++ saveContext 0x200000)
        ⟨c.deliver i486 e.vector e.error ⟨0, 8, 0, 14⟩, (0 : Nat)⟩ = ⟨entry, 0⟩ ∧
      entry.eax = 0x200000 ∧ ¬ entry.Enabled ∧
      let out := faultHandler lit (bootRoutines lit e.cr2)
        (Regs.load entry.mem (entry.mem.load32 entry.esp.toNat))
      out.halted = true ∧ ∃ n, ∀ fuel ≥ n, ∃ d',
        Run.exec (ConsoleCall.run fuel entry.mem) ⟨⟨fun _ => 0xFF, 0, []⟩, v⟩ out.calls = .ok d' ∧
          v.Adds (e.inks v.colour) d'.vga ∧
            ∀ k ∈ d'.print.stored, k ∈ ([] : List Nat) ∨ k < 1024) ∧
    Exception.read e.heading =
      if e.vector = 14 then (14, e.error.toNat % 16, e.cr2.toNat)
      else (min e.vector 19, 0, 0) := by
  intro lit c e v
  have hbelow : c.esp.toNat ≤ 0x100000 := by decide
  exact exception_told i486 lit countingImage.text 0x200000 ⟨0, 8, 0, 14⟩ c 0 e (by decide)
    (by decide) (by decide) (Literals.link_in 0x100000 (by decide))
    (fun t _ => Or.inr (Nat.le_trans hbelow (Literals.le_link _ _ t))) (fun _ => 0) [] _

end X32PRos
