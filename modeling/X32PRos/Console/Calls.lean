import X32PRos.Console.Printing
import X32PRos.Foundation.Run
import X32PRos.Video.Lines

/-!
What the kernel writes on the screen, call after call: `kprintf` over `puts` over
`putch`, with the colours and the cursor of the display between them.
-/

namespace X32PRos

open Foundation

/-! ### The cursor of the display -/

/-- The index register of the display controller, and its two cursor registers. -/
structure Crtc where
  index : Nat
  high : Nat
  low : Nat

namespace Crtc

def out (write : Nat × Nat) (c : Crtc) : Crtc :=
  if write.1 = 0x3D4 then { c with index := write.2 }
  else if write.1 = 0x3D5 then
    if c.index = 14 then { c with high := write.2 }
    else if c.index = 15 then { c with low := write.2 }
    else c
  else c

def cursor (c : Crtc) : Nat := c.high * 256 + c.low

end Crtc

def Vga.crtc (v : Vga) : Crtc := v.ports.foldr Crtc.out ⟨0, 0, 0⟩

/-- The cursor is where the next character goes. -/
def Vga.Follows (v : Vga) : Prop := v.crtc.cursor = v.csrY * 80 + v.csrX

theorem Vga.moveCsr_follows (v : Vga) (h : v.csrY * 80 + v.csrX < 65536) : v.moveCsr.Follows := by
  have hhigh : (v.csrY * 80 + v.csrX) >>> 8 = (v.csrY * 80 + v.csrX) / 256 :=
    Nat.shiftRight_eq_div_pow _ 8
  have hcursor : v.moveCsr.crtc.cursor =
      (v.csrY * 80 + v.csrX) >>> 8 % 256 * 256 + (v.csrY * 80 + v.csrX) % 256 := rfl
  have hcell : v.moveCsr.csrY * 80 + v.moveCsr.csrX = v.csrY * 80 + v.csrX := rfl
  rw [Vga.Follows, hcursor, hcell, hhigh]
  omega

/-- On the screen every cell has a number that the controller takes. -/
theorem Shows.cell_lt {v : Vga} {t : Terminal} (h : Shows v t) : v.csrY * 80 + v.csrX < 65536 := by
  have hcol := h.col_lt
  have hrow := h.row_lt
  omega

theorem Shows.putch_follows {v : Vga} {t : Terminal} (h : Shows v t) (c : UInt8) :
    (v.putch c).Follows :=
  Vga.moveCsr_follows _ (h.place c).cell_lt

theorem Shows.puts_follows {v : Vga} {t : Terminal} (h : Shows v t) (hv : v.Follows)
    (text : List UInt8) : (v.puts text).Follows := by
  rw [Shows.puts_eq]
  generalize text.takeWhile (· ≠ 0) = chars
  induction chars generalizing v t with
  | nil => exact hv
  | cons c cs ih => exact ih (h.putch c) (h.putch_follows c)

theorem Shows.call_follows {v : Vga} {t : Terminal} (h : Shows v t) (hv : v.Follows)
    (o : VideoCall) : (o.onVga v).Follows := by
  cases o with
  | putch c => exact h.putch_follows c
  | puts text => exact h.puts_follows hv text
  | settextcolor fore back => exact hv
  | cls => exact Vga.moveCsr_follows _ (Nat.zero_lt_succ _)

theorem Vga.initVideo_follows (content : Nat → BitVec 16) :
    (Vga.boot content).initVideo.Follows :=
  Vga.moveCsr_follows _ (show 10 * 80 + 0 < 65536 by decide)

theorem Shows.calls_follow {v : Vga} {t : Terminal} (h : Shows v t) (hv : v.Follows)
    (os : List VideoCall) : (os.foldl (fun v o => o.onVga v) v).Follows := by
  induction os generalizing v t with
  | nil => exact hv
  | cons o os ih => exact ih (h.call o) (h.call_follows hv o)

/-! ### Calls of the kernel -/

def ascii (s : String) : List UInt8 := s.toList.map code

inductive ConsoleCall
  | video (call : VideoCall)
  | resettextcolor
  | kprintf (fmt : Nat) (args : Nat → Nat)

structure Display where
  print : PrintBuf
  vga : Vga

namespace ConsoleCall

def run (fuel : Nat) (mem : Memory) (d : Display) : ConsoleCall → Except Fault Display
  | .video call => .ok { d with vga := call.onVga d.vga }
  | .resettextcolor => .ok { d with vga := d.vga.resettextcolor }
  | .kprintf fmt args =>
      match X32PRos.kprintf fuel mem fmt args d.print d.vga with
      | .error e => .error e
      | .ok r => .ok ⟨r.1, r.2⟩

/-- The format and its arguments come to this text, and the text fits the buffer. -/
inductive Prints (mem : Memory) (fmt : Nat) (args : Nat → Nat) : List UInt8 → Prop
  | intro {format : List UInt8} {tokens : List Token} {as : List Arg} {out : List UInt8}
      (string : mem.StringAt fmt format) (read : tokenize format = some tokens)
      (passed : ArgsAt mem args 0 as) (rendered : render tokens as = some out)
      (fits : out.length ≤ 1023) : Prints mem fmt args out

inductive Means (mem : Memory) : ConsoleCall → VideoCall → Prop
  | video (call : VideoCall) : Means mem (.video call) call
  | resettextcolor : Means mem .resettextcolor (.settextcolor 15 0)
  | kprintf {fmt : Nat} {args : Nat → Nat} {out : List UInt8} (prints : Prints mem fmt args out) :
      Means mem (.kprintf fmt args) (.puts out)

end ConsoleCall

namespace PrintBuf

/-- The buffer holds the text with a NUL behind it, also if the text has NULs of its own. -/
theorem map_putAll (out : List UInt8) (b : PrintBuf) :
    (List.range' b.ptr (out.length + 1)).map ((b.putAll out).set 0).buf = out ++ [0] := by
  induction out generalizing b with
  | nil =>
      have hend : ((b.putAll []).set 0).buf b.ptr = 0 := if_pos rfl
      rw [List.length_nil, List.range'_one, List.map_singleton, hend, List.nil_append]
  | cons c cs ih =>
      have hlt : b.ptr < ((b.put c).putAll cs).ptr := by
        rw [putAll_ptr]
        exact Nat.lt_of_lt_of_le (Nat.lt_succ_self b.ptr) (Nat.le_add_right _ _)
      have hkept : ((b.putAll (c :: cs)).set 0).buf b.ptr = c := by
        have hset : (((b.put c).putAll cs).set 0).buf b.ptr = ((b.put c).putAll cs).buf b.ptr :=
          if_neg (Nat.ne_of_lt hlt)
        have hput : ((b.put c).putAll cs).buf b.ptr = (b.put c).buf b.ptr :=
          putAll_buf_of_lt (Nat.lt_succ_self b.ptr)
        exact hset.trans (hput.trans (if_pos rfl))
      rw [List.length_cons, List.range'_succ, List.map_cons, hkept, List.cons_append]
      exact congrArg (c :: ·) (ih (b.put c))

end PrintBuf

/-- `puts` stops at the first NUL, whether it belongs to the text or follows it. -/
theorem Shows.puts_nul (out : List UInt8) (v : Vga) : v.puts (out ++ [0]) = v.puts out := by
  have hstop : (out ++ [0]).takeWhile (· ≠ 0) = out.takeWhile (· ≠ 0) := by
    induction out with
    | nil => rfl
    | cons c cs ih =>
        rw [List.cons_append, List.takeWhile_cons, List.takeWhile_cons, ih]
  rw [puts_eq, puts_eq, hstop]

namespace ConsoleCall

variable {mem : Memory}

/-- A call does with the screen what the call of the driver does, and `kprintf` stores
inside its buffer. -/
theorem Means.run {o : ConsoleCall} {call : VideoCall} (h : o.Means mem call) :
    ∃ n, ∀ fuel ≥ n, ∀ d, ∃ b, o.run fuel mem d = .ok ⟨b, call.onVga d.vga⟩ ∧
      ∀ k ∈ b.stored, k ∈ d.print.stored ∨ k < 1024 := by
  cases h with
  | video call => exact ⟨0, fun fuel _ d => ⟨d.print, rfl, fun k hk => Or.inl hk⟩⟩
  | resettextcolor => exact ⟨0, fun fuel _ d => ⟨d.print, rfl, fun k hk => Or.inl hk⟩⟩
  | @kprintf fmt args out prints =>
      obtain @⟨_, tokens, as, _, string, read, passed, rendered, fits⟩ := prints
      obtain ⟨hbytes, hproper⟩ := bytes_of_tokenize read
      rw [← hbytes] at string
      refine ⟨tokens.length + out.length + 1, ?_⟩
      intro fuel hfuel d
      have hprinted := kprintf_of_denotes hproper string (denotes_of_render passed rendered)
        (show tokens.length < fuel by omega) (show out.length < fuel by omega) d.print d.vga
      have hbuffer : (List.range' 0 (out.length + 1)).map
          (((Scan.start d.print).out.putAll out).set 0).buf = out ++ [0] :=
        PrintBuf.map_putAll out (Scan.start d.print).out
      rw [List.range_eq_range', hbuffer, Shows.puts_nul] at hprinted
      refine ⟨((Scan.start d.print).out.putAll out).set 0, ?_, ?_⟩
      · simp only [ConsoleCall.run, hprinted, VideoCall.onVga]
      · intro k hk
        exact ((PrintBuf.mem_stored_set_putAll rfl 0).mp hk).imp_right fun hle => by omega

/-- A run keeps the screen the window of the terminal that is handed the texts, the cursor of
the display where the next character goes, and the texts in the buffer. -/
theorem exec_shows {calls : List ConsoleCall} {os : List VideoCall}
    (h : List.Forall₂ (Means mem) calls os) :
    ∃ n, ∀ fuel ≥ n, ∀ (d : Display) (t : Terminal), Shows d.vga t → d.vga.Follows →
      ∃ d', Run.exec (run fuel mem) d calls = .ok d' ∧
        Shows d'.vga (os.foldl (fun t o => o.onTerminal t) t) ∧ d'.vga.Follows ∧
          ∀ k ∈ d'.print.stored, k ∈ d.print.stored ∨ k < 1024 := by
  induction h with
  | nil => exact ⟨0, fun fuel _ d t ht hd => ⟨d, rfl, ht, hd, fun k hk => Or.inl hk⟩⟩
  | @cons o call calls os hmeans _ ih =>
      obtain ⟨n, hcall⟩ := hmeans.run
      obtain ⟨n', hrest⟩ := ih
      refine ⟨max n n', ?_⟩
      intro fuel hfuel d t ht hd
      obtain ⟨b, hrun, hb⟩ := hcall fuel (Nat.le_trans (Nat.le_max_left n n') hfuel) d
      obtain ⟨d', hexec, hshows, hfollows, hstored⟩ := hrest fuel
        (Nat.le_trans (Nat.le_max_right n n') hfuel) ⟨b, call.onVga d.vga⟩ (call.onTerminal t)
        (ht.call call) (ht.call_follows hd call)
      refine ⟨d', ?_, hshows, hfollows, ?_⟩
      · rw [Run.exec, hrun]
        exact hexec
      · intro k hk
        cases hstored k hk with
        | inl hold => exact hb k hold
        | inr hlt => exact Or.inr hlt

/-- Text that fits on the screen can be read there when the calls are done. -/
theorem exec_adds {calls : List ConsoleCall} {os : List VideoCall}
    (h : List.Forall₂ (Means mem) calls os) (hos : ∀ o ∈ os, o.Legible) :
    ∃ n, ∀ fuel ≥ n, ∀ (d : Display) (t : Terminal), Shows d.vga t → d.vga.Follows →
      Ink.ending d.vga.csrX (VideoCall.inksFrom d.vga.colour os) < 2000 →
      ∃ d', Run.exec (run fuel mem) d calls = .ok d' ∧
        d.vga.Adds (VideoCall.inksFrom d.vga.colour os) d'.vga ∧
          ∀ k ∈ d'.print.stored, k ∈ d.print.stored ∨ k < 1024 := by
  obtain ⟨n, hrun⟩ := exec_shows h
  refine ⟨n, ?_⟩
  intro fuel hfuel d t ht hd hfits
  obtain ⟨d', hexec, hshows, _, hstored⟩ := hrun fuel hfuel d t ht hd
  rw [ht.colour_eq] at hfits ⊢
  exact ⟨d', hexec, ht.adds_calls hos hshows hfits, hstored⟩

/-- From `init_video` on, behind any earlier calls. -/
theorem exec_adds_booted {calls : List ConsoleCall} {os : List VideoCall}
    (h : List.Forall₂ (Means mem) calls os) (hos : ∀ o ∈ os, o.Legible)
    (content : Nat → BitVec 16) (before : List VideoCall) (b : PrintBuf) {v : Vga}
    (hv : v = before.foldl (fun v o => o.onVga v) (Vga.boot content).initVideo)
    (hfits : Ink.ending v.csrX (VideoCall.inksFrom v.colour os) < 2000) :
    ∃ n, ∀ fuel ≥ n, ∃ d', Run.exec (run fuel mem) ⟨b, v⟩ calls = .ok d' ∧
      v.Adds (VideoCall.inksFrom v.colour os) d'.vga ∧
        ∀ k ∈ d'.print.stored, k ∈ b.stored ∨ k < 1024 := by
  have hshows := (Shows.start content).calls before
  have hfollows := (Shows.start content).calls_follow (Vga.initVideo_follows content) before
  rw [← hv] at hshows hfollows
  obtain ⟨n, hrun⟩ := exec_adds h hos
  exact ⟨n, fun fuel hfuel => hrun fuel hfuel ⟨b, v⟩ _ hshows hfollows hfits⟩

end ConsoleCall

/-- From `init_video` on, whatever the screen held and whatever the kernel prints, every call
returns, the screen is the window of the terminal that is handed the texts, and the cursor
blinks where the terminal's is. -/
theorem console_window {mem : Memory} {calls : List ConsoleCall} {os : List VideoCall}
    (h : List.Forall₂ (ConsoleCall.Means mem) calls os) (content : Nat → BitVec 16)
    (b : PrintBuf) :
    let t := os.foldl (fun t o => o.onTerminal t) (Terminal.start content)
    ∃ n, ∀ fuel ≥ n, ∃ d', Run.exec (ConsoleCall.run fuel mem)
        ⟨b, (Vga.boot content).initVideo⟩ calls = .ok d' ∧
      (∀ r < 25, ∀ c < 80, d'.vga.text.cell (r * 80 + c) = (t.grid (t.top + r) c).encode) ∧
      t.top * 80 + d'.vga.crtc.cursor = t.row * 80 + t.col ∧
      (∀ k ∈ d'.vga.text.stored, k < 2000) ∧ ∀ k ∈ d'.print.stored, k ∈ b.stored ∨ k < 1024 := by
  intro t
  obtain ⟨n, hrun⟩ := ConsoleCall.exec_shows h
  refine ⟨n, ?_⟩
  intro fuel hfuel
  obtain ⟨d', hexec, hshows, hfollows, hstored⟩ := hrun fuel hfuel
    ⟨b, (Vga.boot content).initVideo⟩ _ (Shows.start content) (Vga.initVideo_follows content)
  refine ⟨d', hexec, hshows.cells, ?_, hshows.stored, hstored⟩
  have hrow : t.row = t.top + d'.vga.csrY := hshows.csrY
  have hcol : d'.vga.csrX = t.col := hshows.csrX
  rw [hfollows, hrow, ← hcol]
  omega

/-- The first words of the kernel. -/
theorem console_window_banner :
    let format := ascii "[%s %s]\n"
    let mem : Memory := fun a =>
      if a < 200 then format.getD (a - 100) 0
      else if a < 300 then (ascii "PRos").getD (a - 200) 0 else (ascii "0.0.1").getD (a - 300) 0
    let args := fun k => [200, 300].getD k 0
    let os := [VideoCall.settextcolor 12 0, .puts (ascii "[PRos 0.0.1]\n")]
    let t := os.foldl (fun t o => o.onTerminal t) (Terminal.start fun _ => 0)
    ∃ n, ∀ fuel ≥ n, ∃ d', Run.exec (ConsoleCall.run fuel mem)
        ⟨⟨fun _ => 0xFF, 0, []⟩, (Vga.boot fun _ => 0).initVideo⟩
        [.video (.settextcolor 12 0), .kprintf 100 args] = .ok d' ∧
      (∀ r < 25, ∀ c < 80, d'.vga.text.cell (r * 80 + c) = (t.grid (t.top + r) c).encode) ∧
      t.top * 80 + d'.vga.crtc.cursor = t.row * 80 + t.col ∧
      (∀ k ∈ d'.vga.text.stored, k < 2000) ∧
        ∀ k ∈ d'.print.stored, k ∈ ([] : List Nat) ∨ k < 1024 := by
  intro format mem args os t
  have hformat : mem.StringAt 100 format := by decide
  have hargs : ArgsAt mem args 0 [.string (ascii "PRos"), .string (ascii "0.0.1")] :=
    ⟨by decide, by decide, trivial⟩
  have hprints : ConsoleCall.Prints mem 100 args (ascii "[PRos 0.0.1]\n") :=
    .intro hformat rfl hargs rfl (by decide)
  exact console_window (.cons (.video _) (.cons (.kprintf hprints) .nil)) _ _

end X32PRos
