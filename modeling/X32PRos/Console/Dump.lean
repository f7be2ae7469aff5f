import Mathlib.Data.List.Forall2
import X32PRos.Console.Panic

/-!
`dump_multiboot` of `core/multiboot.c`. The table that it prints gives the whole header back.
-/

namespace X32PRos

open Foundation

inductive MultibootField
  | flags | memLower | memUpper | bootDevice | cmdline | modsCount | modsAddr | num | size | addr
  | shndx | mmapLength | mmapAddr | drivesLength | drivesAddr | configTable | bootLoaderName
  | apmTable | vbeControlInfo | vbeModeInfo | vbeMode | vbeInterfaceSeg | vbeInterfaceOff
  | vbeInterfaceLen
deriving DecidableEq, Repr

namespace MultibootField

def all : List MultibootField :=
  [flags, memLower, memUpper, bootDevice, cmdline, modsCount, modsAddr, num, size, addr, shndx,
    mmapLength, mmapAddr, drivesLength, drivesAddr, configTable, bootLoaderName, apmTable,
    vbeControlInfo, vbeModeInfo, vbeMode, vbeInterfaceSeg, vbeInterfaceOff, vbeInterfaceLen]

def offset (f : MultibootField) : Nat := 4 * all.idxOf f

def load (mem : Memory) (mbootPtr : UInt32) (f : MultibootField) : UInt32 :=
  UInt32.ofNat (mem.load32 (mbootPtr.toNat + f.offset))

end MultibootField

/-- A field of the table, with what stands before and behind it. -/
structure DumpEntry where
  label : String
  field : MultibootField
  back : String

namespace DumpEntry

def format (e : DumpEntry) : List UInt8 := ascii e.label ++ percent :: code 'x' :: ascii e.back

def text (header : MultibootField → UInt32) (e : DumpEntry) : List UInt8 :=
  ascii e.label ++ hexText (header e.field) ++ ascii e.back

end DumpEntry

def dumpEntries : List DumpEntry :=
  [⟨"Flags : 0x", .flags, " "⟩, ⟨"Mem Lo: 0x", .memLower, " "⟩, ⟨"Mem Hi: 0x", .memUpper, " "⟩,
    ⟨"Boot d: 0x", .bootDevice, "\n"⟩, ⟨"cmdlin: 0x", .cmdline, " "⟩,
    ⟨"Mods  : 0x", .modsCount, " "⟩, ⟨"Addr  : 0x", .modsAddr, " "⟩, ⟨"Syms  : 0x", .num, "\n"⟩,
    ⟨"Syms  : 0x", .size, " "⟩, ⟨"Syms  : 0x", .addr, " "⟩, ⟨"Syms  : 0x", .shndx, " "⟩,
    ⟨"MMap  : 0x", .mmapLength, "\n"⟩, ⟨"Addr  : 0x", .mmapAddr, " "⟩,
    ⟨"Drives: 0x", .drivesLength, " "⟩, ⟨"Addr  : 0x", .drivesAddr, " "⟩,
    ⟨"Config: 0x", .configTable, "\n"⟩, ⟨"Loader: 0x", .bootLoaderName, " "⟩,
    ⟨"APM   : 0x", .apmTable, " "⟩, ⟨"VBE Co: 0x", .vbeControlInfo, " "⟩,
    ⟨"VBE Mo: 0x", .vbeModeInfo, "\n"⟩, ⟨"VBE In: 0x", .vbeMode, " "⟩,
    ⟨"VBE se: 0x", .vbeInterfaceSeg, " "⟩, ⟨"VBE of: 0x", .vbeInterfaceOff, " "⟩,
    ⟨"VBE le: 0x", .vbeInterfaceLen, "\n"⟩]

def DumpEntry.call (lit : Literals) (header : MultibootField → UInt32) (e : DumpEntry) :
    ConsoleCall := .kprintf (lit e.format) (passed [(header e.field).toNat])

def dumpMultiboot (lit : Literals) (mem : Memory) (mbootPtr : UInt32) : List ConsoleCall :=
  let header := MultibootField.load mem mbootPtr
  let memMb := header .memUpper / 1024
  [.resettextcolor, .kprintf (lit (ascii "MULTIBOOT header at 0x%x:\n")) (passed [mbootPtr.toNat]),
    .video (.settextcolor 7 0)] ++ (dumpEntries.map (DumpEntry.call lit header) ++
  [.resettextcolor,
    .kprintf (lit (ascii "Started with: %s\n")) (passed [(header .cmdline).toNat]),
    .kprintf (lit (ascii "Booted from: %s\n")) (passed [(header .bootLoaderName).toNat]),
    .kprintf (lit (ascii "%dkB lower memory\n")) (passed [(header .memLower).toNat]),
    .kprintf (lit (ascii "%dkB higher memory ")) (passed [(header .memUpper).toNat]),
    .kprintf (lit (ascii "(%dMB)\n")) (passed [memMb.toNat])])

def dumpFormats : List (List UInt8) :=
  [ascii "MULTIBOOT header at 0x%x:\n", ascii "Started with: %s\n", ascii "Booted from: %s\n",
    ascii "%dkB lower memory\n", ascii "%dkB higher memory ", ascii "(%dMB)\n"] ++
    dumpEntries.map DumpEntry.format

/-- What is dumped: the header with its address, and the two strings that it refers to. -/
structure Dumped where
  pointer : UInt32
  header : MultibootField → UInt32
  started : List UInt8
  booted : List UInt8

namespace Dumped

structure In (d : Dumped) (mem : Memory) : Prop where
  header : ∀ f, MultibootField.load mem d.pointer f = d.header f
  started : mem.StringAt (d.header .cmdline).toNat d.started
  booted : mem.StringAt (d.header .bootLoaderName).toNat d.booted

def top (d : Dumped) : List UInt8 := ascii "MULTIBOOT header at 0x" ++ hexText d.pointer ++ ascii ":\n"

def table (d : Dumped) : List UInt8 := dumpEntries.flatMap (DumpEntry.text d.header)

def rest (d : Dumped) : List (List UInt8) :=
  [ascii "Started with: " ++ d.started ++ ascii "\n", ascii "Booted from: " ++ d.booted ++ ascii "\n",
    decimalText (d.header .memLower) ++ ascii "kB lower memory\n",
    decimalText (d.header .memUpper) ++ ascii "kB higher memory ",
    ascii "(" ++ decimalText (d.header .memUpper / 1024) ++ ascii "MB)\n"]

def videoCalls (d : Dumped) : List VideoCall :=
  [.settextcolor 15 0, .puts d.top, .settextcolor 7 0] ++
    (dumpEntries.map (fun e => .puts (e.text d.header)) ++ (.settextcolor 15 0 :: d.rest.map .puts))

def inks (d : Dumped) : List Ink :=
  d.top.map (inkOf (.numbered 15 0)) ++ (d.table.map (inkOf (.numbered 7 0)) ++ d.rest.flatten.map (inkOf (.numbered 15 0)))

/-- The field that the table has a value of at this place. -/
def read (text : List UInt8) (f : MultibootField) : Nat :=
  readNumber 16 ((text.drop (32 + (19 * dumpEntries.findIdx (·.field = f) + 10))).take 8)

theorem entries_shape : ∀ e ∈ dumpEntries, (ascii e.label).length = 10 ∧ (ascii e.back).length = 1 ∧
    Plain (ascii e.label) ∧ Plain (ascii e.back) ∧ (VideoCall.puts (ascii e.label)).Legible ∧
      (VideoCall.puts (ascii e.back)).Legible := by
  decide

theorem length_entry {e : DumpEntry} (he : e ∈ dumpEntries) (header : MultibootField → UInt32) :
    (e.text header).length = 19 := by
  obtain ⟨hlabel, hback, _⟩ := entries_shape e he
  rw [DumpEntry.text, List.length_append, List.length_append, hlabel, hback, length_hexText]

/-- In a row of entries of 19 characters each the value of one is where its number says. -/
theorem entry_at {entries : List DumpEntry} (header : MultibootField → UInt32) (rest : List UInt8)
    (hentries : ∀ e ∈ entries, e ∈ dumpEntries) {i : Nat} {e : DumpEntry} (he : entries[i]? = some e) :
    ((entries.flatMap (DumpEntry.text header) ++ rest).drop (19 * i + 10)).take 8 =
      hexText (header e.field) := by
  induction entries generalizing i with
  | nil => exact absurd he (by simp)
  | cons d entries ih =>
      have hd := hentries d List.mem_cons_self
      rw [List.flatMap_cons, List.append_assoc]
      cases i with
      | zero =>
          have hsame : d = e := by simpa using he
          obtain ⟨hlabel, _⟩ := entries_shape d hd
          rw [← hsame, DumpEntry.text, List.append_assoc, List.append_assoc, ← hlabel,
            Nat.mul_zero, Nat.zero_add, List.drop_left, List.take_left' (length_hexText _)]
      | succ i =>
          have hrest : entries[i]? = some e := by simpa using he
          have hlength := length_entry hd header
          have hdrop : 19 * (i + 1) + 10 = (d.text header).length + (19 * i + 10) := by
            rw [hlength]
            omega
          rw [hdrop, ← List.drop_drop, List.drop_left]
          exact ih (fun e he => hentries e (List.mem_cons_of_mem d he)) hrest

theorem entry_of_field : ∀ f : MultibootField, ∃ e,
    dumpEntries[dumpEntries.findIdx (·.field = f)]? = some e ∧ e.field = f := by
  intro f
  cases f <;> exact ⟨_, rfl, rfl⟩

/-- Every field of the header can be had back from the text. -/
theorem read_text (d : Dumped) (f : MultibootField) :
    read (d.top ++ d.table ++ d.rest.flatten) f = (d.header f).toNat := by
  obtain ⟨e, hentry, hfield⟩ := entry_of_field f
  have htop : d.top.length = 32 := by
    have hlengths : (ascii "MULTIBOOT header at 0x").length = 22 ∧ (ascii ":\n").length = 2 := by
      decide
    rw [top, List.length_append, List.length_append, length_hexText, hlengths.1, hlengths.2]
  have hvalue := entry_at d.header d.rest.flatten (fun e he => he) hentry
  rw [read, ← List.drop_drop, List.append_assoc, ← htop, List.drop_left, table, hvalue,
    readNumber_hexText, hfield]

/-- The strings have glyphs and fit the buffer of `kprintf` with what is printed around them. -/
structure Short (d : Dumped) : Prop where
  started : Glyphs d.started ∧ d.started.length ≤ 1008
  booted : Glyphs d.booted ∧ d.booted.length ≤ 1009

variable {mem : Memory} {lit : Literals}

theorem means (d : Dumped) (hin : d.In mem) (hlit : lit.In mem dumpFormats) (hshort : d.Short) :
    List.Forall₂ (ConsoleCall.Means mem) (dumpMultiboot lit mem d.pointer) d.videoCalls := by
  have hheader : MultibootField.load mem d.pointer = d.header := funext hin.header
  have hsix : ∀ t, t ∈ [ascii "MULTIBOOT header at 0x%x:\n", ascii "Started with: %s\n",
      ascii "Booted from: %s\n", ascii "%dkB lower memory\n", ascii "%dkB higher memory ",
      ascii "(%dMB)\n"] → mem.StringAt (lit t) t := fun t ht => hlit t (List.mem_append_left _ ht)
  simp only [List.forall_mem_cons] at hsix
  obtain ⟨htop, hstarted, hbooted, hlower, hhigher, hmb, _⟩ := hsix
  have hentries : List.Forall₂ (ConsoleCall.Means mem) (dumpEntries.map (DumpEntry.call lit d.header))
      (dumpEntries.map fun e => .puts (e.text d.header)) := by
    rw [List.forall₂_map_left_iff, List.forall₂_map_right_iff, List.forall₂_same]
    intro e he
    obtain ⟨hlabel, hback, hplain, hplain', _⟩ := entries_shape e he
    have hstring := hlit e.format (List.mem_append_right _ (List.mem_map_of_mem he))
    refine .kprintf (Field.prints (f := .hex (d.header e.field)) hplain hplain' hstring
      ⟨rfl, trivial⟩ ?_)
    have hlength := length_entry he d.header
    exact hlength ▸ (by decide : 19 ≤ 1023)
  have hdecimal := length_decimalText_le
  rw [dumpMultiboot, hheader, videoCalls]
  refine .cons .resettextcolor (.cons (.kprintf ?_) (.cons (.video _) (List.rel_append hentries
    (.cons .resettextcolor (.cons (.kprintf ?_) (.cons (.kprintf ?_) (.cons (.kprintf ?_)
      (.cons (.kprintf ?_) (.cons (.kprintf ?_) .nil)))))))))
  · refine Field.prints (f := .hex d.pointer) (by decide) (by decide) htop ⟨rfl, trivial⟩ ?_
    rw [List.length_append, List.length_append]
    exact Nat.le_trans (Nat.le_of_eq (congrArg (22 + · + 2) (length_hexText d.pointer))) (by decide)
  · refine Field.prints (f := .string d.started) (by decide) (by decide) hstarted
      ⟨hin.started, trivial⟩ ?_
    have hlength := hshort.started.2
    rw [List.length_append, List.length_append]
    change 14 + d.started.length + 1 ≤ 1023
    omega
  · refine Field.prints (f := .string d.booted) (by decide) (by decide) hbooted
      ⟨hin.booted, trivial⟩ ?_
    have hlength := hshort.booted.2
    rw [List.length_append, List.length_append]
    change 13 + d.booted.length + 1 ≤ 1023
    omega
  · refine @Field.prints mem _ _ [] _ (.decimal (d.header .memLower)) (by decide) (by decide) hlower
      ⟨rfl, trivial⟩ ?_
    have hlength := hdecimal (d.header .memLower)
    rw [List.length_append]
    change (decimalText (d.header .memLower)).length + 16 ≤ 1023
    omega
  · refine @Field.prints mem _ _ [] _ (.decimal (d.header .memUpper)) (by decide) (by decide) hhigher
      ⟨rfl, trivial⟩ ?_
    have hlength := hdecimal (d.header .memUpper)
    rw [List.length_append]
    change (decimalText (d.header .memUpper)).length + 17 ≤ 1023
    omega
  · refine Field.prints (f := .decimal (d.header .memUpper / 1024)) (by decide) (by decide) hmb
      ⟨rfl, trivial⟩ ?_
    have hlength := hdecimal (d.header .memUpper / 1024)
    rw [List.length_append, List.length_append]
    change 1 + (decimalText (d.header .memUpper / 1024)).length + 4 ≤ 1023
    omega

theorem legible (d : Dumped) (hshort : d.Short) : ∀ o ∈ d.videoCalls, o.Legible := by
  have hstarted : (VideoCall.puts d.started).Legible := fun c hc => Or.inr (hshort.started.1 c hc)
  have hbooted : (VideoCall.puts d.booted).Legible := fun c hc => Or.inr (hshort.booted.1 c hc)
  simp only [videoCalls, rest, List.forall_mem_append, List.forall_mem_cons, List.map_cons,
    List.map_nil, List.forall_mem_map]
  refine ⟨⟨trivial, ?_, trivial, fun o ho => absurd ho List.not_mem_nil⟩, ?_, trivial, ?_, ?_, ?_,
    ?_, ?_, fun o ho => absurd ho List.not_mem_nil⟩
  · exact .puts_append (.puts_append (by decide) (legible_hexText _)) (by decide)
  · intro e he
    obtain ⟨_, _, _, _, hlabel, hback⟩ := entries_shape e he
    exact .puts_append (.puts_append hlabel (legible_hexText _)) hback
  · exact .puts_append (.puts_append (by decide) hstarted) (by decide)
  · exact .puts_append (.puts_append (by decide) hbooted) (by decide)
  · exact .puts_append (legible_decimalText _) (by decide)
  · exact .puts_append (legible_decimalText _) (by decide)
  · exact .puts_append (.puts_append (by decide) (legible_decimalText _)) (by decide)

theorem inks_eq (d : Dumped) (colour : Colour) :
    VideoCall.inksFrom colour d.videoCalls = d.inks := by
  have hrest := VideoCall.inksFrom_puts (.numbered 15 0) d.rest []
  have htable := VideoCall.inksFrom_puts (.numbered 7 0) (dumpEntries.map (DumpEntry.text d.header))
    (.settextcolor 15 0 :: d.rest.map .puts)
  rw [List.append_nil] at hrest
  rw [List.map_map] at htable
  change _ ++ VideoCall.inksFrom (.numbered 7 0) _ = _
  refine congrArg (d.top.map (inkOf (.numbered 15 0)) ++ ·) (htable.trans ?_)
  refine congrArg (d.table.map (inkOf (.numbered 7 0)) ++ ·) (hrest.trans ?_)
  exact List.append_nil _

end Dumped

/-- What `dump_multiboot` prints, if it fits, is on the screen behind what stood there, and every
field of the header can be had back from it. -/
theorem dump_told {mem : Memory} {lit : Literals} (d : Dumped) (hin : d.In mem)
    (hlit : lit.In mem dumpFormats) (hshort : d.Short) (content : Nat → BitVec 16)
    (before : List VideoCall) (b : PrintBuf) :
    let v := before.foldl (fun v o => o.onVga v) (Vga.boot content).initVideo
    Ink.ending v.csrX d.inks < 2000 →
      (∃ n, ∀ fuel ≥ n, ∃ d', Run.exec (ConsoleCall.run fuel mem) ⟨b, v⟩
          (dumpMultiboot lit mem d.pointer) = .ok d' ∧
        v.Adds d.inks d'.vga ∧ ∀ k ∈ d'.print.stored, k ∈ b.stored ∨ k < 1024) ∧
      ∀ f, Dumped.read (d.top ++ d.table ++ d.rest.flatten) f = (d.header f).toNat := by
  intro v hfits
  have htold := ConsoleCall.exec_adds_booted (d.means hin hlit hshort) (d.legible hshort) content
    before b (v := v) rfl
  rw [Dumped.inks_eq] at htold
  exact ⟨htold hfits, d.read_text⟩

namespace Dumped

theorem count_entry {e : DumpEntry} (he : e ∈ dumpEntries) (header : MultibootField → UInt32) :
    (e.text header).count 10 = (ascii e.back).count 10 := by
  have hlabels : ∀ e ∈ dumpEntries, (ascii e.label).count 10 = 0 := by decide
  rw [DumpEntry.text, List.count_append, List.count_append, hlabels e he, count_hexText,
    Nat.zero_add]

/-- The table has six rows. -/
theorem table_size (d : Dumped) : d.table.length = 456 ∧ d.table.count 10 = 6 := by
  have hlengths : dumpEntries.map (fun e => (e.text d.header).length) =
      dumpEntries.map fun _ => 19 := List.map_congr_left fun e he => length_entry he d.header
  have hcounts : dumpEntries.map (fun e => (e.text d.header).count 10) =
      dumpEntries.map fun e => (ascii e.back).count 10 :=
    List.map_congr_left fun e he => count_entry he d.header
  constructor
  · rw [table, List.length_flatMap, hlengths]
    decide
  · rw [table, List.count_flatMap]
    change (dumpEntries.map fun e => (e.text d.header).count 10).sum = 6
    rw [hcounts]
    decide

/-- With short strings the dump fits on the screen. -/
theorem inks_fit (d : Dumped) (hshort : d.Short) (h : d.started.length + d.booted.length ≤ 400)
    {x : Nat} (hx : x < 80) : Ink.ending x d.inks < 2000 := by
  obtain ⟨hlength, hcount⟩ := d.table_size
  have hglyphs : ∀ t : List UInt8, Glyphs t → t.count 10 = 0 := fun t ht =>
    List.count_eq_zero.mpr (Report.no_newline ht)
  have hlower := length_decimalText_le (d.header .memLower)
  have hupper := length_decimalText_le (d.header .memUpper)
  have hmb := length_decimalText_le (d.header .memUpper / 1024)
  have hstarted := hglyphs _ hshort.started.1
  have hbooted := hglyphs _ hshort.booted.1
  have hlengths : (ascii "MULTIBOOT header at 0x").length = 22 ∧ (ascii ":\n").length = 2 ∧
      (ascii "Started with: ").length = 14 ∧ (ascii "\n").length = 1 ∧
        (ascii "Booted from: ").length = 13 ∧ (ascii "kB lower memory\n").length = 16 ∧
          (ascii "kB higher memory ").length = 17 ∧ (ascii "(").length = 1 ∧
            (ascii "MB)\n").length = 4 := by decide
  have hcounts : (ascii "MULTIBOOT header at 0x").count 10 = 0 ∧ (ascii ":\n").count 10 = 1 ∧
      (ascii "Started with: ").count 10 = 0 ∧ (ascii "\n").count 10 = 1 ∧
        (ascii "Booted from: ").count 10 = 0 ∧ (ascii "kB lower memory\n").count 10 = 1 ∧
          (ascii "kB higher memory ").count 10 = 0 ∧ (ascii "(").count 10 = 0 ∧
            (ascii "MB)\n").count 10 = 1 := by decide
  have hending := Ink.ending_le x d.inks
  generalize Ink.ending x d.inks = ending at hending ⊢
  simp only [inks, List.length_append, List.length_map, List.count_append, count_newline, top, rest,
    List.flatten_cons, List.flatten_nil, List.length_nil, List.count_nil, hlength, hcount,
    length_hexText, count_hexText, count_decimalText, hlengths, hcounts, hstarted,
    hbooted] at hending
  omega

end Dumped

theorem dump_told_quiet :
    let started := ascii "kernel quiet"
    let booted := ascii "GRUB"
    let texts := dumpFormats ++ [started, booted]
    let lit := Literals.link 0x100000 texts
    let mem := ((Literals.memory 0x100000 texts).store32 0x9010 (lit started)).store32 0x9040
      (lit booted)
    let d : Dumped := ⟨0x9000, MultibootField.load mem 0x9000, started, booted⟩
    let v := (Vga.boot fun _ => 0).initVideo
    (∃ n, ∀ fuel ≥ n, ∃ d', Run.exec (ConsoleCall.run fuel mem) ⟨⟨fun _ => 0xFF, 0, []⟩, v⟩
        (dumpMultiboot lit mem d.pointer) = .ok d' ∧
      v.Adds d.inks d'.vga ∧ ∀ k ∈ d'.print.stored, k ∈ ([] : List Nat) ∨ k < 1024) ∧
    ∀ f, Dumped.read (d.top ++ d.table ++ d.rest.flatten) f = (d.header f).toNat := by
  intro started booted texts lit mem d v
  have hnul : ∀ t ∈ texts, 0 ∉ t := by decide
  have hlinked : lit.In (Literals.memory 0x100000 texts) texts := Literals.link_in 0x100000 hnul
  have hin : lit.In mem texts := by
    intro t ht
    apply (hlinked t ht).congr
    intro x hx _
    have hle := Nat.le_trans (Literals.le_link 0x100000 texts t) hx
    have hlow : 0x9044 ≤ x := Nat.le_trans (by decide) hle
    exact (Memory.store32_of_outside (Or.inr hlow)).trans
      (Memory.store32_of_outside (Or.inr (Nat.le_trans (by decide) hlow)))
  have hsmall : lit started < 2 ^ 32 ∧ lit booted < 2 ^ 32 := by decide
  have hcmdline : (d.header .cmdline).toNat = lit started := by
    change (UInt32.ofNat (mem.load32 0x9010)).toNat = lit started
    rw [Memory.load32_store32_of_apart (by decide), Memory.load32_store32_self hsmall.1,
      UInt32.toNat_ofNat', Nat.mod_eq_of_lt hsmall.1]
  have hloader : (d.header .bootLoaderName).toNat = lit booted := by
    change (UInt32.ofNat (mem.load32 0x9040)).toNat = lit booted
    rw [Memory.load32_store32_self hsmall.2, UInt32.toNat_ofNat', Nat.mod_eq_of_lt hsmall.2]
  have hmem : d.In mem := by
    constructor
    case header => exact fun _ => rfl
    case started =>
      rw [hcmdline]
      exact hin started (List.mem_append_right _ (by decide))
    case booted =>
      rw [hloader]
      exact hin booted (List.mem_append_right _ (by decide))
  have hshort : d.Short := ⟨by decide, by decide⟩
  exact dump_told d hmem (hin.mono fun t => List.mem_append_left _) hshort (fun _ => 0) [] _
    (d.inks_fit hshort (by decide) (by decide))

end X32PRos
