import X32PRos.Console.Literals

/-!
How the kernel stops: the two functions of `core/panic.c` switch interrupts off,
print what has happened and spin. What they have printed can be read off the screen.
-/

namespace X32PRos

open Foundation

def Glyphs (text : List UInt8) : Prop := ∀ c ∈ text, 32 ≤ c

instance (text : List UInt8) : Decidable (Glyphs text) :=
  List.decidableBAll (fun c => 32 ≤ c) text

/-! ### Reports -/

inductive PanicKind
  | panic
  | assertion
deriving DecidableEq, Repr

def PanicKind.head : PanicKind → List UInt8
  | .panic => ascii "PANIC! "
  | .assertion => ascii "ASSERTION FAILED! "

/-- What is reported, with `__FILE__` and `__LINE__`. -/
structure Report where
  kind : PanicKind
  message : List UInt8
  file : List UInt8
  line : UInt32
deriving DecidableEq, Repr

def firstLine (text : List UInt8) : List UInt8 := text.takeWhile (· ≠ 10)

def otherLines (text : List UInt8) : List UInt8 := (text.dropWhile (· ≠ 10)).drop 1

theorem firstLine_append {line : List UInt8} (h : 10 ∉ line) (rest : List UInt8) :
    firstLine (line ++ 10 :: rest) = line := by
  induction line with
  | nil => rfl
  | cons c cs ih =>
      have hc : c ≠ 10 := fun hc => h (hc ▸ List.mem_cons_self)
      rw [List.cons_append, firstLine, List.takeWhile_cons_of_pos (by simpa using hc)]
      exact congrArg (c :: ·) (ih fun hmem => h (List.mem_cons_of_mem c hmem))

theorem otherLines_append {line : List UInt8} (h : 10 ∉ line) (rest : List UInt8) :
    otherLines (line ++ 10 :: rest) = rest := by
  induction line with
  | nil => rfl
  | cons c cs ih =>
      have hc : c ≠ 10 := fun hc => h (hc ▸ List.mem_cons_self)
      rw [List.cons_append, otherLines, List.dropWhile_cons_of_pos (by simpa using hc)]
      exact ih fun hmem => h (List.mem_cons_of_mem c hmem)

namespace Report

/-- The three lines of the screen. -/
def text (r : Report) : List UInt8 :=
  r.kind.head ++ r.message ++ 10 :: (ascii "File: " ++ r.file ++ 10 ::
    (ascii "Line: " ++ decimalText r.line ++ [10]))

def read (text : List UInt8) : Report :=
  let kind := if text.head? = some (code 'P') then PanicKind.panic else .assertion
  let rest := otherLines text
  { kind
    message := (firstLine text).drop kind.head.length
    file := (firstLine rest).drop 6
    line := UInt32.ofNat (readNumber 10 ((firstLine (otherLines rest)).drop 6)) }

structure Printable (r : Report) : Prop where
  message : Glyphs r.message
  file : Glyphs r.file

theorem no_newline {text : List UInt8} (h : Glyphs text) : 10 ∉ text :=
  fun hmem => absurd (h 10 hmem) (by decide)

theorem read_text {r : Report} (h : r.Printable) : read r.text = r := by
  obtain ⟨kind, message, file, line⟩ := r
  have hmessage : 10 ∉ message := no_newline h.message
  have hfile : 10 ∉ file := no_newline h.file
  have hhead : 10 ∉ kind.head ++ message := by
    intro hmem
    cases List.mem_append.mp hmem with
    | inl hmem => cases kind <;> exact absurd hmem (by decide)
    | inr hmem => exact hmessage hmem
  have hname : 10 ∉ ascii "File: " ++ file := by
    intro hmem
    cases List.mem_append.mp hmem with
    | inl hmem => exact absurd hmem (by decide)
    | inr hmem => exact hfile hmem
  have hnumber : 10 ∉ ascii "Line: " ++ decimalText line := by
    intro hmem
    cases List.mem_append.mp hmem with
    | inl hmem => exact absurd hmem (by decide)
    | inr hmem => exact absurd (decimalText_digits line 10 hmem).1 (by decide)
  have hfirst : (text ⟨kind, message, file, line⟩).head? = some (code 'P') ↔ kind = .panic := by
    cases kind with
    | panic => exact iff_of_true rfl rfl
    | assertion => exact iff_of_false (by decide : some (code 'A') ≠ some (code 'P')) nofun
  have hkind : (if (text ⟨kind, message, file, line⟩).head? = some (code 'P') then
      PanicKind.panic else .assertion) = kind := by
    cases kind with
    | panic => exact if_pos (hfirst.mpr rfl)
    | assertion => exact if_neg fun h => nomatch hfirst.mp h
  have hline : UInt32.ofNat (readNumber 10 (decimalText line)) = line := by
    rw [readNumber_decimalText, UInt32.ofNat_toNat]
  unfold read
  dsimp only
  rw [hkind]
  unfold text
  dsimp only
  rw [firstLine_append hhead, otherLines_append hhead, firstLine_append hname,
    otherLines_append hname, firstLine_append hnumber, List.drop_left]
  have hfile6 : (ascii "File: ").length = 6 := by decide
  have hline6 : (ascii "Line: ").length = 6 := by decide
  rw [← hfile6, List.drop_left, hfile6, ← hline6, List.drop_left, hline]

end Report

/-! ### The two functions -/

/-- What both do, under their own headings. -/
def stopCalls (lit : Literals) (kind : PanicKind) (message file : Nat) (line : UInt32) :
    List ConsoleCall :=
  [.video (.settextcolor 14 4),
    .kprintf (lit (kind.head ++ ascii "%s\n")) (passed [message]),
    .kprintf (lit (ascii "File: %s\n")) (passed [file]),
    .kprintf (lit (ascii "Line: %d\n")) (passed [line.toNat])]

def haltAndCatchFire (lit : Literals) (errorMessage file : Nat) (line : UInt32) :
    List ConsoleCall := stopCalls lit .panic errorMessage file line

def assertFailed (lit : Literals) (file : Nat) (line : UInt32) (desc : Nat) : List ConsoleCall :=
  stopCalls lit .assertion desc file line

def PanicKind.formats (kind : PanicKind) : List (List UInt8) :=
  [kind.head ++ ascii "%s\n", ascii "File: %s\n", ascii "Line: %d\n"]

namespace Report

def calls (lit : Literals) (r : Report) (message file : Nat) : List ConsoleCall :=
  match r.kind with
  | .panic => haltAndCatchFire lit message file r.line
  | .assertion => assertFailed lit file r.line message

def videoCalls (r : Report) : List VideoCall :=
  [.settextcolor 14 4, .puts (r.kind.head ++ r.message ++ [10]),
    .puts (ascii "File: " ++ r.file ++ [10]),
    .puts (ascii "Line: " ++ decimalText r.line ++ [10])]

/-- The lines fit the buffer of `kprintf`. -/
structure Short (r : Report) : Prop where
  message : r.kind.head.length + r.message.length ≤ 1022
  file : r.file.length ≤ 1016

variable {mem : Memory} {lit : Literals} {r : Report} {message file : Nat}

theorem calls_eq (lit : Literals) (r : Report) (message file : Nat) :
    r.calls lit message file = stopCalls lit r.kind message file r.line := by
  unfold calls
  cases r.kind <;> rfl

theorem means (hlit : lit.In mem r.kind.formats) (hmessage : mem.StringAt message r.message)
    (hfile : mem.StringAt file r.file) (hshort : r.Short) :
    List.Forall₂ (ConsoleCall.Means mem) (r.calls lit message file) r.videoCalls := by
  have hplain : Plain [10] := by decide
  have hhead : Plain r.kind.head := by
    cases r.kind <;> decide
  have hformats : ∀ text ∈ r.kind.formats, mem.StringAt (lit text) text := hlit
  simp only [PanicKind.formats, List.forall_mem_cons] at hformats
  obtain ⟨hfirst, hsecond, hthird, _⟩ := hformats
  rw [calls_eq]
  refine .cons (.video _) (.cons (.kprintf ?_) (.cons (.kprintf ?_) (.cons (.kprintf ?_) .nil)))
  · have hfits := hshort.message
    refine Field.prints (f := .string r.message) hhead hplain hfirst ⟨hmessage, trivial⟩ ?_
    rw [List.length_append, List.length_append]
    exact Nat.succ_le_succ hfits
  · have hfits := hshort.file
    refine Field.prints (f := .string r.file) (by decide) hplain hsecond ⟨hfile, trivial⟩ ?_
    rw [List.length_append, List.length_append]
    change 6 + r.file.length + 1 ≤ 1023
    omega
  · have hfits := length_decimalText_le r.line
    refine Field.prints (f := .decimal r.line) (by decide) hplain hthird ⟨rfl, trivial⟩ ?_
    rw [List.length_append, List.length_append]
    change 6 + (decimalText r.line).length + 1 ≤ 1023
    omega

theorem legible (h : r.Printable) : ∀ o ∈ r.videoCalls, o.Legible := by
  have hhead : (VideoCall.puts r.kind.head).Legible := by
    cases r.kind <;> decide
  have hmessage : (VideoCall.puts r.message).Legible := fun c hc => Or.inr (h.message c hc)
  have hfile : (VideoCall.puts r.file).Legible := fun c hc => Or.inr (h.file c hc)
  simp only [videoCalls, List.forall_mem_cons]
  refine ⟨trivial, ?_, ?_, ?_, fun o ho => absurd ho List.not_mem_nil⟩
  · exact .puts_append (.puts_append hhead hmessage) (by decide)
  · exact .puts_append (.puts_append (by decide) hfile) (by decide)
  · exact .puts_append (.puts_append (by decide) (legible_decimalText r.line)) (by decide)

theorem inks_eq (r : Report) (colour : Colour) :
    VideoCall.inksFrom colour r.videoCalls = r.text.map (inkOf (.numbered 14 4)) := by
  simp only [videoCalls, VideoCall.inksFrom, VideoCall.inks, VideoCall.recolour, text,
    List.map_append, List.map_cons, List.append_assoc, List.append_nil, List.nil_append,
    List.map_nil, List.cons_append]

end Report

/-- A call of `halt_and_catch_fire` or `assert_failed` returns from its printing, and what it
reports, if it fits, can be read off the screen below what stood there; from that text the
report can be had back. -/
theorem panic_told {mem : Memory} {lit : Literals} {message file : Nat} (r : Report)
    (hlit : lit.In mem r.kind.formats) (hmessage : mem.StringAt message r.message)
    (hfile : mem.StringAt file r.file) (hprintable : r.Printable) (hshort : r.Short)
    (content : Nat → BitVec 16) (before : List VideoCall) (b : PrintBuf) :
    let v := before.foldl (fun v o => o.onVga v) (Vga.boot content).initVideo
    let inks := r.text.map (inkOf (.numbered 14 4))
    Ink.ending v.csrX inks < 2000 →
      (∃ n, ∀ fuel ≥ n, ∃ d', Run.exec (ConsoleCall.run fuel mem) ⟨b, v⟩
          (r.calls lit message file) = .ok d' ∧
        v.Adds inks d'.vga ∧ ∀ k ∈ d'.print.stored, k ∈ b.stored ∨ k < 1024) ∧
      Report.read r.text = r := by
  intro v inks hfits
  have htold := ConsoleCall.exec_adds_booted (Report.means hlit hmessage hfile hshort)
    (Report.legible hprintable) content before b (v := v) rfl
  rw [Report.inks_eq] at htold
  exact ⟨htold hfits, Report.read_text hprintable⟩

/-- A page fault, reported by `page_fault`. -/
theorem panic_told_page_fault :
    let r : Report := ⟨.panic, ascii "Page fault", ascii "mem.c", 230⟩
    let texts := r.kind.formats ++ [r.message, r.file]
    let lit := Literals.link 0x100000 texts
    let mem := Literals.memory 0x100000 texts
    let v := (Vga.boot fun _ => 0).initVideo
    let inks := r.text.map (inkOf (.numbered 14 4))
    (∃ n, ∀ fuel ≥ n, ∃ d', Run.exec (ConsoleCall.run fuel mem) ⟨⟨fun _ => 0xFF, 0, []⟩, v⟩
        (r.calls lit (lit r.message) (lit r.file)) = .ok d' ∧
      v.Adds inks d'.vga ∧ ∀ k ∈ d'.print.stored, k ∈ ([] : List Nat) ∨ k < 1024) ∧
    Report.read r.text = r := by
  intro r texts lit mem v inks
  have hin : lit.In mem texts := Literals.link_in 0x100000 (by decide)
  have hformats : lit.In mem r.kind.formats := hin.mono fun text => List.mem_append_left _
  have hmessage : mem.StringAt (lit r.message) r.message := hin _ (by decide)
  have hfile : mem.StringAt (lit r.file) r.file := hin _ (by decide)
  have hline : decimalText r.line = [2, 3, 0].map digitChar :=
    decimalText_three (by decide) (by decide) (by decide) (by decide) (by decide)
  have hfits : Ink.ending v.csrX inks < 2000 := by
    have hinks : inks = (ascii "PANIC! Page fault\nFile: mem.c\nLine: 230\n").map
        (inkOf (.numbered 14 4)) := by
      change (Report.text r).map _ = _
      rw [Report.text, hline]
      rfl
    rw [hinks]
    decide
  exact panic_told r hformats hmessage hfile ⟨by decide, by decide⟩ ⟨by decide, by decide⟩
    (fun _ => 0) [] _ hfits

end X32PRos
