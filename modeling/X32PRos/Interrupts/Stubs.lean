import X32PRos.Interrupts.Cpu

/-!
The stubs of `start.asm`. A stub hands the C handler a `struct regs` of the
interrupted code and puts everything back, which works out exactly for the
vectors whose error code it expects.
-/

namespace X32PRos

open Foundation

/-- What the linker resolved: the addresses of the stubs by vector and of the two
handlers, and the instructions and the function at an address. -/
structure Image (σ : Type) where
  entry : Nat → UInt32
  faultHandler : UInt32
  irqHandler : UInt32
  code : UInt32 → List Instr
  text : UInt32 → CFunction σ

def saveContext (handler : UInt32) : List Instr :=
  [.pusha, .pushSeg .ds, .pushSeg .es, .pushSeg .fs, .pushSeg .gs,
    .movAx 0x10, .movSegAx .ds, .movSegAx .es, .movSegAx .fs, .movSegAx .gs,
    .movEaxEsp, .pushEax, .movEax handler]

def restoreContext : List Instr :=
  [.popEax, .popSeg .gs, .popSeg .fs, .popSeg .es, .popSeg .ds, .popa, .addEsp 8, .iret]

def commonStub (handler : UInt32) : List Instr :=
  saveContext handler ++ [.callEax] ++ restoreContext

def isrErr : List Nat := [8, 10, 11, 12, 13, 14]

/-- What a stub pushes before it jumps to the common one: `ISR_NOERR`, `ISR_ERR`
or `IRQ_ENTRY`. -/
def stubEntry (n : Nat) : List Instr :=
  if n ∈ isrErr then [.cli, .pushByte (UInt8.ofNat n)]
  else [.cli, .pushByte 0, .pushByte (UInt8.ofNat n)]

namespace Image

variable {σ : Type} (image : Image σ)

def handlerAddress (n : Nat) : UInt32 := if n < 32 then image.faultHandler else image.irqHandler

def handler (n : Nat) : CFunction σ := image.text (image.handlerAddress n)

def stub (n : Nat) : List Instr := stubEntry n ++ commonStub (image.handlerAddress n)

end Image

def Image.Loaded {σ : Type} (image : Image σ) : Prop :=
  ∀ n < 48, image.code (image.entry n) = image.stub n

/-- Vector `n` taken through `gate`, up to the `iret` of its stub. -/
def Machine.interrupt {σ : Type} (p : Processor) (image : Image σ) (gate : Gate) (n : Nat)
    (error : UInt32) (m : Machine σ) : Machine σ :=
  Machine.run p image.text (image.stub n) ⟨m.cpu.deliver p n error gate, m.kernel⟩

/-- The structure describes the interrupted code `c`. Selectors fill the lower
halves of their fields; `esp` is as `pusha` found it, five words further down;
without a change of ring the last two fields are what lies on the interrupted
stack. -/
structure Regs.Describes (n : Nat) (error : UInt32) (c : Cpu) (r : Regs) : Prop where
  gs : r.gs.toUInt16 = c.gs
  fs : r.fs.toUInt16 = c.fs
  es : r.es.toUInt16 = c.es
  ds : r.ds.toUInt16 = c.ds
  edi : r.edi = c.edi
  esi : r.esi = c.esi
  ebp : r.ebp = c.ebp
  esp : r.esp.toNat + 20 = c.esp.toNat
  ebx : r.ebx = c.ebx
  edx : r.edx = c.edx
  ecx : r.ecx = c.ecx
  eax : r.eax = c.eax
  intNo : r.intNo.toNat = n
  errCode : r.errCode = if n ∈ isrErr then error else 0
  eip : r.eip = c.eip
  cs : r.cs.toUInt16 = c.cs
  eflags : r.eflags = c.eflags
  useresp : r.useresp = UInt32.ofNat (c.mem.load32 c.esp.toNat)
  ss : r.ss = UInt32.ofNat (c.mem.load32 (c.esp.toNat + 4))

structure Cpu.Entered (n : Nat) (error : UInt32) (c entry : Cpu) : Prop where
  disabled : ¬ entry.Enabled
  segments : ∀ s, entry.selector s = 0x10
  regs : (Regs.load entry.mem (entry.mem.load32 entry.esp.toNat)).Describes n error c

/-- The bytes below the stack pointer of the interrupted code that the interrupt
may use. -/
def Image.reach {σ : Type} (image : Image σ) (n : Nat) : Nat := 72 + (image.handler n).depth

/-- An interrupt calls its handler with the interrupted context, and what was
interrupted sees none of it: every register is as it was, and every byte but those
below the stack. -/
def Machine.Transparent {σ : Type} (image : Image σ) (n : Nat) (error : UInt32)
    (m m' : Machine σ) : Prop :=
  (∃ entry, Cpu.Entered n error m.cpu entry ∧
    m'.kernel = ((image.handler n).call ⟨entry, m.kernel⟩).kernel) ∧
  m'.cpu = { m.cpu with mem := m'.cpu.mem } ∧
  ∀ x, x < m.cpu.esp.toNat - image.reach n ∨ m.cpu.esp.toNat ≤ x →
    m'.cpu.mem x = m.cpu.mem x

namespace Cpu

/-- `c'` is `c` but for the stack and what entering a gate replaces. -/
def Displaced (c c' : Cpu) : Prop :=
  { c' with esp := c.esp, mem := c.mem, eip := c.eip, cs := c.cs, eflags := c.eflags } = c

theorem Displaced.push {c c' : Cpu} (h : c.Displaced c') (v : UInt32) : c.Displaced (c'.push v) :=
  h

theorem Displaced.pushSelector {c c' : Cpu} (h : c.Displaced c') (p : Processor) (v : UInt16) :
    c.Displaced (c'.pushSelector p v) := h

theorem Displaced.ss {c c' : Cpu} (h : c.Displaced c') : c'.ss = c.ss := by
  unfold Displaced at h
  have hss := congrArg Cpu.ss h
  exact hss

theorem Displaced.enter {c c' : Cpu} (h : c.Displaced c') (eip eflags : UInt32) (cs : UInt16) :
    c.Displaced { c' with eip := eip, cs := cs, eflags := eflags } := h

theorem Displaced.setFlags {c c' : Cpu} (h : c.Displaced c') (v : UInt32) :
    c.Displaced { c' with eflags := v } := h

def contextItems (c : Cpu) : List StackItem :=
  [.half c.gs, .half c.fs, .half c.es, .half c.ds, .word c.edi, .word c.esi, .word c.ebp,
    .word c.esp, .word c.ebx, .word c.edx, .word c.ecx, .word c.eax]

def pushContext (p : Processor) (c : Cpu) : Cpu :=
  ((((c.pusha).pushSeg p .ds).pushSeg p .es).pushSeg p .fs).pushSeg p .gs

def popContext (c : Cpu) : Cpu := ((((c.popSeg .gs).popSeg .fs).popSeg .es).popSeg .ds).popa

variable {low top : Nat} {m₀ : Memory} {items : List StackItem} {c : Cpu}

theorem selector_push (c : Cpu) (v : UInt32) (s : Seg) :
    (c.push v).selector s = c.selector s := by
  cases s <;> rfl

theorem selector_pusha (c : Cpu) (s : Seg) : c.pusha.selector s = c.selector s := by
  simp only [Cpu.pusha, selector_push]

theorem selector_pushSeg (c : Cpu) (p : Processor) (s s' : Seg) :
    (c.pushSeg p s).selector s' = c.selector s' := by
  cases s' <;> rfl

theorem eflags_pushContext (p : Processor) (c : Cpu) : (c.pushContext p).eflags = c.eflags := by
  have hpush : ∀ (c : Cpu) (v : UInt32), (c.push v).eflags = c.eflags := fun _ _ => rfl
  have hseg : ∀ (c : Cpu) (s : Seg), (c.pushSeg p s).eflags = c.eflags := fun _ _ => rfl
  simp only [Cpu.pushContext, Cpu.pusha, hseg, hpush]

theorem ss_pushContext (p : Processor) (c : Cpu) : (c.pushContext p).ss = c.ss := by
  have hpush : ∀ (c : Cpu) (v : UInt32), (c.push v).ss = c.ss := fun _ _ => rfl
  have hseg : ∀ (c : Cpu) (s : Seg), (c.pushSeg p s).ss = c.ss := fun _ _ => rfl
  simp only [Cpu.pushContext, Cpu.pusha, hseg, hpush]

theorem Stacked.pusha (h : Stacked low top m₀ items c)
    (hroom : low + 4 * (items.length + 8) ≤ top) :
    Stacked low top m₀ (.word c.edi :: .word c.esi :: .word c.ebp :: .word c.esp :: .word c.ebx ::
      .word c.edx :: .word c.ecx :: .word c.eax :: items) c.pusha :=
  h.pushAll [c.eax, c.ecx, c.edx, c.ebx, c.esp, c.ebp, c.esi, c.edi] hroom

theorem Stacked.pushSeg (h : Stacked low top m₀ items c) (p : Processor) {s : Seg} {v : UInt16}
    (hv : c.selector s = v) (hroom : low + 4 * (items.length + 1) ≤ top) :
    Stacked low top m₀ (.half v :: items) (c.pushSeg p s) := by
  subst hv
  exact h.pushSelector p (c.selector s) hroom

theorem Stacked.pushContext (h : Stacked low top m₀ items c) (p : Processor)
    (hroom : low + 4 * (items.length + 12) ≤ top) :
    Stacked low top m₀ (c.contextItems ++ items) (c.pushContext p) := by
  have hpusha := h.pusha (by omega)
  have hds := hpusha.pushSeg p (selector_pusha c .ds) (by simp only [List.length_cons]; omega)
  have hes := hds.pushSeg p (v := c.es) (s := .es) (by rw [selector_pushSeg, selector_pusha]; rfl)
    (by simp only [List.length_cons]; omega)
  have hfs := hes.pushSeg p (v := c.fs) (s := .fs)
    (by rw [selector_pushSeg, selector_pushSeg, selector_pusha]; rfl)
    (by simp only [List.length_cons]; omega)
  exact hfs.pushSeg p (v := c.gs) (s := .gs)
    (by rw [selector_pushSeg, selector_pushSeg, selector_pushSeg, selector_pusha]; rfl)
    (by simp only [List.length_cons]; omega)

theorem Stacked.popSeg {v : UInt16} (h : Stacked low top m₀ (.half v :: items) c)
    (htop : top < 2 ^ 32) (s : Seg) :
    c.popSeg s = { c.setSelector v s with esp := c.esp + 4 } ∧
      Stacked low top m₀ items { c.setSelector v s with esp := c.esp + 4 } := by
  have hv : c.peekSelector 0 = v := h.peekSelector_eq htop rfl
  constructor
  · rw [Cpu.popSeg, hv]
  · refine Stacked.discard [.half v] h htop ?_ rfl
    cases s <;> rfl

theorem Stacked.popa {edi esi ebp skipped ebx edx ecx eax : UInt32}
    (h : Stacked low top m₀ ([.word edi, .word esi, .word ebp, .word skipped, .word ebx,
      .word edx, .word ecx, .word eax] ++ items) c) (htop : top < 2 ^ 32) :
    c.popa = { c with
        edi := edi, esi := esi, ebp := ebp, ebx := ebx, edx := edx, ecx := ecx, eax := eax
        esp := c.esp + 32 } ∧
      Stacked low top m₀ items c.popa := by
  constructor
  · rw [Cpu.popa, h.peek_eq (i := 0) htop rfl, h.peek_eq (i := 1) htop rfl,
      h.peek_eq (i := 2) htop rfl, h.peek_eq (i := 4) htop rfl, h.peek_eq (i := 5) htop rfl,
      h.peek_eq (i := 6) htop rfl, h.peek_eq (i := 7) htop rfl]
  · exact Stacked.discard _ h htop rfl rfl

/-- The pops undo the pushes, whatever the registers hold in between. -/
theorem Stacked.popContext {r : Cpu} (h : Stacked low top m₀ (r.contextItems ++ items) c)
    (htop : top < 2 ^ 32) :
    c.popContext = { r with
        esp := c.esp + 4 + 4 + 4 + 4 + 32
        eip := c.eip, eflags := c.eflags, cs := c.cs, ss := c.ss, mem := c.mem } ∧
      Stacked low top m₀ items c.popContext := by
  obtain ⟨hgs, h⟩ := Stacked.popSeg h htop .gs
  obtain ⟨hfs, h⟩ := h.popSeg htop .fs
  obtain ⟨hes, h⟩ := h.popSeg htop .es
  obtain ⟨hds, h⟩ := h.popSeg htop .ds
  obtain ⟨hpopa, h⟩ := h.popa htop
  rw [Cpu.popContext, hgs, hfs, hes, hds]
  constructor
  · exact hpopa
  · exact h

theorem Stacked.deliver (low : Nat) (c : Cpu) (p : Processor) (n : Nat) (error : UInt32) (gate : Gate)
    (hroom : low + 16 ≤ c.esp.toNat) :
    Stacked low c.esp.toNat c.mem
        ((if p.pushesError n then [.word error] else []) ++
          [.word c.eip, .half c.cs, .word c.eflags]) (c.deliver p n error gate) ∧
      c.Displaced (c.deliver p n error gate) := by
  have hempty : Stacked low c.esp.toNat c.mem [] c := OnStack.empty (by omega)
  have hframe := ((hempty.push c.eflags (by rw [List.length_nil]; omega)).pushSelector p c.cs
    (by rw [List.length_singleton]; omega)).push c.eip (by change low + 4 * 3 ≤ _; omega)
  have hsame : c.Displaced (((c.push c.eflags).pushSelector p c.cs).push c.eip) :=
    Displaced.push (Displaced.pushSelector (Displaced.push (Eq.refl c) _) p _) _
  unfold Cpu.deliver
  cases p.pushesError n with
  | true =>
      constructor
      · exact (hframe.push error (by change low + 4 * 4 ≤ _; omega)).congr rfl rfl
      · exact (hsame.push error).enter _ _ _
  | false =>
      constructor
      · exact hframe.congr rfl rfl
      · exact hsame.enter _ _ _

theorem cli_clears (flags : UInt32) : flags &&& ~~~interruptFlag &&& interruptFlag = 0 := by
  rw [UInt32.and_assoc, UInt32.not_and_self, UInt32.and_zero]

end Cpu

theorem Machine.signExtend_vector {n : Nat} (hn : n < 48) :
    signExtend (UInt8.ofNat n) = UInt32.ofNat n := by
  have hsmall : (UInt8.ofNat n).toNat = n := by
    rw [UInt8.toNat_ofNat', Nat.mod_eq_of_lt (by omega)]
  have hlow : UInt8.ofNat n < 0x80 := by
    rw [UInt8.lt_iff_toNat_lt, hsmall]
    exact Nat.lt_of_lt_of_le hn (by decide)
  rw [signExtend, if_pos hlow]
  apply UInt32.toNat_inj.mp
  rw [UInt8.toNat_toUInt32, hsmall, UInt32.toNat_ofNat', Nat.mod_eq_of_lt (by omega)]

section

variable {σ : Type} {p : Processor} {image : Image σ} {gate : Gate} {n : Nat} {error : UInt32}
  {low : Nat} {c : Cpu} {k : σ}

def frameItems (n : Nat) (error : UInt32) (c : Cpu) : List StackItem :=
  [.word (UInt32.ofNat n), .word (if n ∈ isrErr then error else 0), .word c.eip, .half c.cs,
    .word c.eflags]

theorem Machine.run_stubEntry (low : Nat) (c : Cpu) (k : σ) (p : Processor) (gate : Gate)
    (error : UInt32) (text : UInt32 → CFunction σ) (hn : n < 48)
    (hcode : p.pushesError n = decide (n ∈ isrErr)) (hroom : low + 20 ≤ c.esp.toNat) :
    ∃ c', Machine.run p text (stubEntry n) ⟨c.deliver p n error gate, k⟩ = ⟨c', k⟩ ∧
      c.Displaced c' ∧ ¬ c'.Enabled ∧
      Cpu.Stacked low c.esp.toNat c.mem (frameItems n error c) c' := by
  obtain ⟨hstack, hsame⟩ := Cpu.Stacked.deliver low c p n error gate (by omega)
  let start := { c.deliver p n error gate with
    eflags := (c.deliver p n error gate).eflags &&& ~~~Cpu.interruptFlag }
  have hstart : Cpu.Stacked low c.esp.toNat c.mem _ start := hstack.congr rfl rfl
  have hvector := signExtend_vector hn
  have hzero : signExtend 0 = 0 := by decide
  unfold stubEntry
  by_cases herr : n ∈ isrErr
  · rw [hcode, if_pos (decide_eq_true herr)] at hstart
    rw [if_pos herr]
    refine ⟨start.push (signExtend (UInt8.ofNat n)), rfl, ?_, ?_, ?_⟩
    · exact (hsame.setFlags _).push _
    · intro henabled
      exact henabled (Cpu.cli_clears _)
    · rw [hvector, frameItems, if_pos herr]
      apply hstart.push
      change low + 4 * 5 ≤ _
      omega
  · rw [hcode, if_neg (by rwa [decide_eq_true_iff])] at hstart
    rw [if_neg herr]
    refine ⟨(start.push (signExtend 0)).push (signExtend (UInt8.ofNat n)), rfl, ?_, ?_, ?_⟩
    · exact ((hsame.setFlags _).push _).push _
    · intro henabled
      exact henabled (Cpu.cli_clears _)
    · rw [hvector, hzero, frameItems, if_neg herr]
      apply (hstart.push 0 (by change low + 4 * 4 ≤ _; omega)).push
      change low + 4 * 5 ≤ _
      omega

theorem Machine.run_append (text : UInt32 → CFunction σ) (first second : List Instr)
    (m : Machine σ) :
    Machine.run p text (first ++ second) m = Machine.run p text second (Machine.run p text first m) :=
  List.foldl_append

def Cpu.forHandler (handler : UInt32) (c : Cpu) : Cpu :=
  { c.push c.esp with eax := handler, ds := 0x10, es := 0x10, fs := 0x10, gs := 0x10 }

theorem Cpu.Stacked.forHandler {top : Nat} {m₀ : Memory} {items : List StackItem}
    (h : Cpu.Stacked low top m₀ items c) (hroom : low + 4 * (items.length + 1) ≤ top)
    (handler : UInt32) :
    Cpu.Stacked low top m₀ (.word c.esp :: items) (c.forHandler handler) :=
  (h.push c.esp hroom).congr rfl rfl

theorem Cpu.selector_forHandler (handler : UInt32) (c : Cpu) (s : Seg) :
    (c.forHandler handler).selector s = 0x10 := by
  cases s <;> rfl

theorem Machine.run_saveContext (text : UInt32 → CFunction σ) (handler : UInt32) :
    Machine.run p text (saveContext handler) ⟨c, k⟩ =
      ⟨(c.pushContext p).forHandler handler, k⟩ := by
  have hpushes : Machine.run p text [.pusha, .pushSeg .ds, .pushSeg .es, .pushSeg .fs,
      .pushSeg .gs] ⟨c, k⟩ = ⟨c.pushContext p, k⟩ := rfl
  have hpass : ∀ saved : Cpu, Machine.run p text [.movAx 0x10, .movSegAx .ds, .movSegAx .es,
      .movSegAx .fs, .movSegAx .gs, .movEaxEsp, .pushEax, .movEax handler] ⟨saved, k⟩ =
      ⟨saved.forHandler handler, k⟩ := by
    intro saved
    have hax : ((saved.eax &&& 0xFFFF0000) ||| (0x10 : UInt16).toUInt32).toUInt16 = 0x10 := by
      have hmask : (0xFFFF0000 : UInt32).toUInt16 = 0 := by decide
      rw [UInt32.toUInt16_or, UInt32.toUInt16_and, hmask, UInt16.and_zero, UInt16.zero_or]
      decide
    simp only [Machine.run, List.foldl, Machine.exec, Cpu.setSelector, hax]
    rfl
  have hsplit : saveContext handler = [.pusha, .pushSeg .ds, .pushSeg .es, .pushSeg .fs,
      .pushSeg .gs] ++ [.movAx 0x10, .movSegAx .ds, .movSegAx .es, .movSegAx .fs, .movSegAx .gs,
      .movEaxEsp, .pushEax, .movEax handler] := rfl
  rw [hsplit, run_append, hpushes, hpass]

theorem word_field {m : Memory} {a : Nat} {v : UInt32} (h : (StackItem.word v).At m a) :
    UInt32.ofNat (m.load32 a) = v := by
  have hload : m.load32 a = v.toNat := h
  rw [hload, UInt32.ofNat_toNat]

theorem half_field {m : Memory} {a : Nat} {v : UInt16} (h : (StackItem.half v).At m a) :
    (UInt32.ofNat (m.load32 a)).toUInt16 = v := by
  have hload : m.load16 a = v.toNat := h
  have hlt := m.load32_lt a
  apply UInt16.toNat_inj.mp
  rw [UInt32.toNat_toUInt16, UInt32.toNat_ofNat', Nat.mod_eq_of_lt hlt, ← hload, Memory.load16_eq]

/-- The structure that the pushes built, read through the pointer. -/
theorem Regs.load_describes {saved entry : Cpu} {frame : UInt32} (hn : n < 48)
    (h : Cpu.Stacked low c.esp.toNat c.mem
      (.word frame :: (saved.contextItems ++ frameItems n error c)) entry)
    (hframe : frame.toNat = entry.esp.toNat + 4) (hsame : c.Displaced saved)
    (hesp : saved.esp.toNat + 20 = c.esp.toNat) :
    (Regs.load entry.mem (entry.mem.load32 entry.esp.toNat)).Describes n error c := by
  have hpointer : entry.mem.load32 entry.esp.toNat = frame.toNat := h.top_word
  have hitems : OnStack low c.esp.toNat c.mem entry.mem frame.toNat
      (saved.contextItems ++ frameItems n error c) := by
    rw [hframe]
    exact OnStack.pop h
  have htop : frame.toNat + 68 = c.esp.toNat := hitems.count
  have hlive : ∀ a, c.esp.toNat ≤ a → entry.mem.load32 a = c.mem.load32 a := by
    intro a ha
    apply Memory.load32_congr
    intro x hx _
    exact hitems.kept x (Or.inr (Nat.le_trans ha hx))
  rw [hpointer, ← hsame]
  constructor
  case gs => exact half_field (hitems.item_at (i := 0) rfl)
  case fs => exact half_field (hitems.item_at (i := 1) rfl)
  case es => exact half_field (hitems.item_at (i := 2) rfl)
  case ds => exact half_field (hitems.item_at (i := 3) rfl)
  case edi => exact word_field (hitems.item_at (i := 4) rfl)
  case esi => exact word_field (hitems.item_at (i := 5) rfl)
  case ebp => exact word_field (hitems.item_at (i := 6) rfl)
  case esp =>
    have hfield : (Regs.load entry.mem frame.toNat).esp = saved.esp :=
      word_field (hitems.item_at (i := 7) rfl)
    rw [hfield]
    exact hesp
  case ebx => exact word_field (hitems.item_at (i := 8) rfl)
  case edx => exact word_field (hitems.item_at (i := 9) rfl)
  case ecx => exact word_field (hitems.item_at (i := 10) rfl)
  case eax => exact word_field (hitems.item_at (i := 11) rfl)
  case intNo =>
    have hfield : (Regs.load entry.mem frame.toNat).intNo = UInt32.ofNat n :=
      word_field (hitems.item_at (i := 12) rfl)
    rw [hfield, UInt32.toNat_ofNat', Nat.mod_eq_of_lt (by omega)]
  case errCode => exact word_field (hitems.item_at (i := 13) rfl)
  case eip => exact word_field (hitems.item_at (i := 14) rfl)
  case cs => exact half_field (hitems.item_at (i := 15) rfl)
  case eflags => exact word_field (hitems.item_at (i := 16) rfl)
  case useresp =>
    change UInt32.ofNat (entry.mem.load32 (frame.toNat + 4 * 17)) = _
    rw [htop, hlive _ (Nat.le_refl _)]
  case ss =>
    have haddress : frame.toNat + 4 * 18 = c.esp.toNat + 4 := by omega
    change UInt32.ofNat (entry.mem.load32 (frame.toNat + 4 * 18)) = _
    rw [haddress, hlive _ (Nat.le_add_right _ _)]

/-- The call returns with the stack above its argument as it was. -/
theorem CFunction.call_stacked (f : CFunction σ) {top : Nat} {m₀ : Memory}
    {items : List StackItem} {frame : UInt32} (htop : top < 2 ^ 32)
    (h : Cpu.Stacked low top m₀ (.word frame :: items) c) (hdepth : low + f.depth ≤ c.esp.toNat) :
    Cpu.Stacked low top m₀ items
      { (f.call ⟨c, k⟩).cpu with
        eax := (f.call ⟨c, k⟩).cpu.peek 0, esp := (f.call ⟨c, k⟩).cpu.esp + 4 } := by
  have hraised : (c.esp + 4).toNat = c.esp.toNat + 4 :=
    h.raised (n := 4) htop (by rw [List.length_cons]; omega)
  change OnStack low top m₀ (f.call ⟨c, k⟩).cpu.mem (c.esp + 4).toNat items
  rw [hraised]
  apply OnStack.scratch (OnStack.pop h)
  intro x hx
  have hout : ¬ (c.esp.toNat - f.depth ≤ x ∧ x < c.esp.toNat + 4) := by omega
  exact if_neg hout

theorem Cpu.Stacked.iret {top : Nat} {m₀ : Memory} {eip eflags : UInt32} {cs : UInt16}
    (htop : top < 2 ^ 32)
    (h : Cpu.Stacked low top m₀ [.word eip, .half cs, .word eflags] c) :
    c.iret = { c with eip := eip, cs := cs, eflags := eflags, esp := UInt32.ofNat top } := by
  have hesp : c.esp + 12 = UInt32.ofNat top := by
    have hcount : c.esp.toNat + 4 * 3 = top := h.count
    apply UInt32.toNat_inj.mp
    rw [UInt32.toNat_ofNat', Nat.mod_eq_of_lt htop, ← hcount]
    exact h.raised (n := 12) htop (Nat.le_refl 12)
  rw [Cpu.iret, h.peek_eq (i := 0) htop rfl, h.peekSelector_eq (i := 1) htop rfl,
    h.peek_eq (i := 2) htop rfl, hesp]

def Cpu.resume (c : Cpu) : Cpu :=
  let context := Cpu.popContext { c with eax := c.peek 0, esp := c.esp + 4 }
  { context with esp := context.esp + 8 }.iret

theorem Machine.run_pops (text : UInt32 → CFunction σ) (d : Cpu) :
    Machine.run p text restoreContext ⟨d, k⟩ = ⟨d.resume, k⟩ := by
  have hpops : ∀ start : Cpu, Machine.run p text [.popSeg .gs, .popSeg .fs, .popSeg .es,
      .popSeg .ds, .popa] ⟨start, k⟩ = ⟨start.popContext, k⟩ := by
    intro start
    simp only [Machine.run, List.foldl, Machine.exec, Cpu.popContext]
  have hleave : ∀ start : Cpu, Machine.run p text [.addEsp 8, .iret] ⟨start, k⟩ =
      ⟨{ start with esp := start.esp + 8 }.iret, k⟩ := by
    intro start
    simp only [Machine.run, List.foldl, Machine.exec]
  have hfirst : Machine.run p text [.popEax] ⟨d, k⟩ =
      ⟨{ d with eax := d.peek 0, esp := d.esp + 4 }, k⟩ := by
    simp only [Machine.run, List.foldl, Machine.exec]
  have hsplit : restoreContext = [.popEax] ++ ([.popSeg .gs, .popSeg .fs, .popSeg .es, .popSeg .ds,
      .popa] ++ [.addEsp 8, .iret]) := rfl
  rw [hsplit, run_append, run_append, hfirst, hpops, hleave]
  rfl

/-- From the return of the handler on, everything is taken from the stack. -/
theorem Machine.run_restoreContext (text : UInt32 → CFunction σ) {top : Nat} {m₀ : Memory}
    {r d : Cpu} {vector code : StackItem} {eip eflags : UInt32} {cs : UInt16}
    (htop : top < 2 ^ 32)
    (h : Cpu.Stacked low top m₀ (r.contextItems ++ [vector, code, .word eip, .half cs,
      .word eflags]) { d with eax := d.peek 0, esp := d.esp + 4 }) :
    Machine.run p text restoreContext ⟨d, k⟩ =
      ⟨{ r with
        esp := UInt32.ofNat top, eip := eip, cs := cs, eflags := eflags, ss := d.ss
        mem := d.mem }, k⟩ := by
  rw [run_pops, Cpu.resume]
  generalize hstart : { d with eax := d.peek 0, esp := d.esp + 4 } = start at h ⊢
  have hss : d.ss = start.ss := by rw [← hstart]
  have hmem : d.mem = start.mem := by rw [← hstart]
  obtain ⟨hcontext, hstack⟩ := h.popContext htop
  have hframe : Cpu.Stacked low top m₀ [.word eip, .half cs, .word eflags]
      { start.popContext with esp := start.popContext.esp + 8 } :=
    Cpu.Stacked.discard [vector, code] hstack htop rfl rfl
  rw [hframe.iret htop, hcontext, hss, hmem]

/-- Up to the call of the handler: the context lies on the stack, and nothing else has
been stored to. -/
theorem Machine.run_entry (low : Nat) (c : Cpu) (k : σ) (p : Processor) (gate : Gate)
    (error : UInt32) (text : UInt32 → CFunction σ) (handler : UInt32) (hn : n < 48)
    (hcode : p.pushesError n = decide (n ∈ isrErr)) (hroom : low + 72 ≤ c.esp.toNat) :
    ∃ (saved entry : Cpu) (frame : UInt32),
      Machine.run p text (stubEntry n ++ saveContext handler) ⟨c.deliver p n error gate, k⟩ =
        ⟨entry, k⟩ ∧ c.Displaced saved ∧ entry.eax = handler ∧ entry.ss = c.ss ∧
      Cpu.Stacked low c.esp.toNat c.mem
        (.word frame :: (saved.contextItems ++ frameItems n error c)) entry ∧
      Cpu.Entered n error c entry := by
  obtain ⟨saved, hentry, hsame, hdisabled, hframe⟩ :=
    run_stubEntry low c k p gate error text hn hcode (by omega)
  have hcount : saved.esp.toNat + 4 * 5 = c.esp.toNat := hframe.count
  have hcontext := hframe.pushContext p (by change low + 4 * (5 + 12) ≤ _; omega)
  generalize hpushed : saved.pushContext p = pushed at hcontext
  generalize hentered : pushed.forHandler handler = entry
  have hstack : Cpu.Stacked low c.esp.toNat c.mem
      (.word pushed.esp :: (saved.contextItems ++ frameItems n error c)) entry := by
    rw [← hentered]
    exact hcontext.forHandler (by change low + 4 * (12 + 5 + 1) ≤ _; omega) _
  have hbelow : entry.esp.toNat + 4 * 18 = c.esp.toNat := hstack.count
  have hpointer : pushed.esp.toNat = entry.esp.toNat + 4 := by
    have hat : pushed.esp.toNat + 4 * 17 = c.esp.toNat := hcontext.count
    omega
  have hflags : entry.eflags = saved.eflags := by
    rw [← Cpu.eflags_pushContext p saved, hpushed, ← hentered]
    rfl
  refine ⟨saved, entry, pushed.esp, ?_, hsame, ?_, ?_, hstack, ?_⟩
  · rw [run_append, hentry, run_saveContext, hpushed, hentered]
  · rw [← hentered]
    rfl
  · rw [← hsame.ss, ← Cpu.ss_pushContext p saved, hpushed, ← hentered]
    rfl
  · constructor
    case disabled =>
      intro henabled
      apply hdisabled
      rw [Cpu.Enabled, ← hflags]
      exact henabled
    case segments =>
      intro s
      rw [← hentered]
      exact Cpu.selector_forHandler _ _ s
    case regs => exact Regs.load_describes hn hstack hpointer hsame (by omega)

/-- With the error code that the stub expects, the interrupt is transparent. -/
theorem Machine.interrupt_transparent (m : Machine σ) (hn : n < 48)
    (hcode : p.pushesError n = decide (n ∈ isrErr))
    (hroom : image.reach n ≤ m.cpu.esp.toNat) :
    Machine.Transparent image n error m (m.interrupt p image gate n error) := by
  obtain ⟨c, k⟩ := m
  have htop : c.esp.toNat < 2 ^ 32 := c.esp.toNat_lt
  have hreach : 72 + (image.handler n).depth ≤ c.esp.toNat := hroom
  generalize hlow : c.esp.toNat - image.reach n = low
  have hsum : low + 72 + (image.handler n).depth = c.esp.toNat := by
    change c.esp.toNat - (72 + _) = low at hlow
    omega
  obtain ⟨saved, entry, frame, hentry, hsame, hhandler, hss, hstack, hentered⟩ :=
    run_entry low c k p gate error image.text (image.handlerAddress n) hn hcode (by omega)
  have hbelow : entry.esp.toNat + 4 * 18 = c.esp.toNat := hstack.count
  have hreturned := (image.handler n).call_stacked (k := k) htop hstack (by omega)
  have hrun : Machine.interrupt p image gate n error ⟨c, k⟩ =
      Machine.run p image.text restoreContext ((image.handler n).call ⟨entry, k⟩) := by
    have hcall : Machine.run p image.text [.callEax] ⟨entry, k⟩ =
        (image.handler n).call ⟨entry, k⟩ := by
      rw [Image.handler, ← hhandler]
      rfl
    rw [Machine.interrupt, Image.stub, commonStub, List.append_assoc, ← List.append_assoc,
      run_append, hentry, run_append, hcall]
  have hdone := run_restoreContext (p := p) (k := ((image.handler n).call ⟨entry, k⟩).kernel)
    image.text htop hreturned
  have hregisters : Machine.interrupt p image gate n error ⟨c, k⟩ =
      ⟨{ c with mem := ((image.handler n).call ⟨entry, k⟩).cpu.mem },
        ((image.handler n).call ⟨entry, k⟩).kernel⟩ := by
    have hcallSs : ((image.handler n).call ⟨entry, k⟩).cpu.ss = c.ss := hss
    rw [hrun]
    refine hdone.trans ?_
    rw [UInt32.ofNat_toNat, hcallSs, ← hsame]
  rw [hregisters]
  refine ⟨⟨entry, hentered, rfl⟩, rfl, ?_⟩
  intro x hx
  change x < c.esp.toNat - image.reach n ∨ c.esp.toNat ≤ x at hx
  rw [hlow] at hx
  exact hreturned.kept x hx

/-! Where the stack pointer ends up, whatever the processor pushed -/

theorem Cpu.esp_pushContext (c : Cpu) :
    (c.pushContext p).esp = c.esp - 4 - 4 - 4 - 4 - 4 - 4 - 4 - 4 - 4 - 4 - 4 - 4 := by
  have hpush : ∀ (c : Cpu) (v : UInt32), (c.push v).esp = c.esp - 4 := fun _ _ => rfl
  have hseg : ∀ (c : Cpu) (s : Seg), (c.pushSeg p s).esp = c.esp - 4 := fun _ _ => rfl
  simp only [Cpu.pushContext, Cpu.pusha, hseg, hpush]

theorem Cpu.esp_popContext (c : Cpu) : c.popContext.esp = c.esp + 4 + 4 + 4 + 4 + 32 := by
  have hseg : ∀ (c : Cpu) (s : Seg), (c.popSeg s).esp = c.esp + 4 := fun _ _ => rfl
  have hpopa : ∀ c : Cpu, c.popa.esp = c.esp + 32 := fun _ => rfl
  simp only [Cpu.popContext, hseg, hpopa]

theorem Machine.esp_commonStub (text : UInt32 → CFunction σ) (handler : UInt32) :
    (Machine.run p text (commonStub handler) ⟨c, k⟩).cpu.esp = c.esp + 20 := by
  have hcall : ∀ entry : Cpu, Machine.run p text [.callEax] ⟨entry, k⟩ =
      (text entry.eax).call ⟨entry, k⟩ := fun _ => rfl
  have hresume : ∀ d : Cpu, d.resume.esp = d.esp + 4 + 4 + 4 + 4 + 4 + 32 + 8 + 12 := by
    intro d
    change (Cpu.popContext _).esp + 8 + 12 = _
    rw [Cpu.esp_popContext]
  have hentry : ((c.pushContext p).forHandler handler).esp = (c.pushContext p).esp - 4 := rfl
  rw [commonStub, run_append, run_append, run_saveContext, hcall]
  generalize hentered : (c.pushContext p).forHandler handler = entry at hentry ⊢
  have hreturn : ((text entry.eax).call ⟨entry, k⟩).cpu.esp = entry.esp := rfl
  rw [run_pops, hresume, hreturn, hentry, Cpu.esp_pushContext]
  grind

/-- A missing error code leaves the stack one word short, an unexpected one a word
behind. -/
theorem Machine.esp_interrupt (p : Processor) (image : Image σ) (gate : Gate) (n : Nat)
    (error : UInt32) (m : Machine σ) :
    (m.interrupt p image gate n error).cpu.esp + 4 * (if n ∈ isrErr then 0 else 1) =
      m.cpu.esp + 4 - 4 * (if p.pushesError n then 1 else 0) := by
  have hdeliver : (m.cpu.deliver p n error gate).esp =
      m.cpu.esp - 4 - 4 - 4 - 4 * (if p.pushesError n then 1 else 0) := by
    unfold Cpu.deliver
    cases p.pushesError n with
    | true => rfl
    | false =>
        change m.cpu.esp - 4 - 4 - 4 = m.cpu.esp - 4 - 4 - 4 - 4 * 0
        grind
  generalize hdelivered : m.cpu.deliver p n error gate = delivered at hdeliver
  have hentry : ∀ c : Cpu, ∃ c', Machine.run p image.text (stubEntry n) ⟨c, m.kernel⟩ =
      ⟨c', m.kernel⟩ ∧ c'.esp = c.esp - 4 - 4 * (if n ∈ isrErr then 0 else 1) := by
    intro c
    unfold stubEntry
    by_cases herr : n ∈ isrErr
    · rw [if_pos herr, if_pos herr]
      refine ⟨_, rfl, ?_⟩
      change c.esp - 4 = c.esp - 4 - 4 * 0
      grind
    · rw [if_neg herr, if_neg herr]
      exact ⟨_, rfl, rfl⟩
  obtain ⟨c', hrun, hesp⟩ := hentry delivered
  rw [Machine.interrupt, Image.stub, run_append, hdelivered, hrun, esp_commonStub, hesp, hdeliver]
  grind

/-- A stub returns to the interrupted code unseen exactly when the processor
pushes an error code where the stub leaves room for one. -/
theorem Machine.transparent_iff (p : Processor) (image : Image σ) (gate : Gate) (n : Nat)
    (error : UInt32) (m : Machine σ) (hn : n < 48) (hroom : image.reach n ≤ m.cpu.esp.toNat) :
    Machine.Transparent image n error m (m.interrupt p image gate n error) ↔
      (p.pushesError n = true ↔ n ∈ isrErr) := by
  constructor
  · intro h
    have hesp : (m.interrupt p image gate n error).cpu.esp = m.cpu.esp := by
      rw [h.2.1]
    have hwords := m.esp_interrupt p image gate n error
    rw [hesp] at hwords
    by_cases herr : n ∈ isrErr
    · rw [if_pos herr] at hwords
      cases hpushes : p.pushesError n with
      | true => exact ⟨fun _ => herr, fun _ => rfl⟩
      | false =>
          rw [hpushes] at hwords
          grind
    · rw [if_neg herr] at hwords
      cases hpushes : p.pushesError n with
      | true =>
          rw [hpushes] at hwords
          grind
      | false => exact ⟨fun h => absurd h (by decide), fun h => absurd h herr⟩
  · intro h
    apply m.interrupt_transparent hn _ hroom
    by_cases herr : n ∈ isrErr
    · rw [decide_eq_true herr, h.mpr herr]
    · rw [decide_eq_false herr, Bool.eq_false_iff]
      exact fun hpushes => herr (h.mp hpushes)

end

/-- The processor this kernel is written for: error codes as `ISR_ERR` has them. -/
def i386 : Processor where
  pushesError n := decide (n ∈ isrErr)
  zeroExtends := true

def i486 : Processor where
  pushesError n := decide (n ∈ isrErr ∨ n = 17)
  zeroExtends := true

def countingImage : Image Nat where
  entry n := UInt32.ofNat (16 * n)
  faultHandler := 0
  irqHandler := 0
  code _ := []
  text _ := ⟨fun _ k => k + 1, 64, fun c _ => ⟨0, 0, 0, 0, c.mem⟩⟩

def plainCpu : Cpu where
  eax := 1
  ecx := 2
  edx := 3
  ebx := 4
  esp := 256
  ebp := 5
  esi := 6
  edi := 7
  eip := 8
  eflags := 0x202
  cs := 0x08
  ds := 0x10
  es := 0x10
  fs := 0x10
  gs := 0x10
  ss := 0x10
  mem := fun _ => 0

/-- A page fault returns to where it came from; an alignment check on a processor
that pushes an error code for it does not. -/
theorem transparent_iff_i486 :
    Machine.Transparent countingImage 14 2 ⟨plainCpu, 0⟩
        (Machine.interrupt i486 countingImage (stubGate 0) 14 2 ⟨plainCpu, 0⟩) ∧
      ¬ Machine.Transparent countingImage 17 0 ⟨plainCpu, 0⟩
        (Machine.interrupt i486 countingImage (stubGate 0) 17 0 ⟨plainCpu, 0⟩) := by
  have hroom : ∀ n, countingImage.reach n ≤ plainCpu.esp.toNat := by
    intro n
    change 72 + 64 ≤ plainCpu.esp.toNat
    decide
  constructor
  · apply (Machine.transparent_iff i486 countingImage (stubGate 0) 14 2 ⟨plainCpu, 0⟩ (by decide)
      (hroom 14)).mpr
    decide
  · intro h
    have hcode := (Machine.transparent_iff i486 countingImage (stubGate 0) 17 0 ⟨plainCpu, 0⟩
      (by decide) (hroom 17)).mp h
    exact absurd hcode (by decide)

end X32PRos
