import Mathlib.Logic.Function.Basic
import X32PRos.Core.Word
import X32PRos.Foundation.CallStack

/-!
The descriptor tables of `core/GDT.c` and `core/IDT.c`: how a gate is put
together from a base and its flags, and what the processor reads in the packed
bytes of the table.
-/

namespace X32PRos

open Foundation

structure GdtEntry where
  limitLow : UInt16
  baseLow : UInt16
  baseMiddle : UInt8
  access : UInt8
  gran : UInt8
  baseHigh : UInt8
deriving DecidableEq, Repr

structure IdtEntry where
  baseLow : UInt16
  sel : UInt16
  zero : UInt8
  flags : UInt8
  baseHigh : UInt16
deriving DecidableEq, Repr

structure TablePtr where
  limit : UInt16
  base : UInt32
deriving DecidableEq, Repr

abbrev Gdt := Fin 3 → GdtEntry

abbrev Idt := UInt8 → IdtEntry

def gdtEntry (base limit : UInt32) (access gran : UInt8) : GdtEntry where
  baseLow := (base &&& 0xFFFF).toUInt16
  baseMiddle := ((base >>> 16) &&& 0xFF).toUInt8
  baseHigh := ((base >>> 24) &&& 0xFF).toUInt8
  limitLow := (limit &&& 0xFFFF).toUInt16
  gran := ((limit >>> 16) &&& 0x0F).toUInt8 ||| (gran &&& 0xF0)
  access := access

def gdtSetGate (num : Fin 3) (base limit : UInt32) (access gran : UInt8) (gdt : Gdt) : Gdt :=
  Function.update gdt num (gdtEntry base limit access gran)

def gdtInstall (address : UInt32) (gdt : Gdt) : Gdt × TablePtr :=
  let gdt := gdtSetGate 0 0 0 0 0 gdt
  let gdt := gdtSetGate 1 0 0xFFFFFFFF 0x9A 0xCF gdt
  let gdt := gdtSetGate 2 0 0xFFFFFFFF 0x92 0xCF gdt
  (gdt, ⟨8 * 3 - 1, address⟩)

def idtSetGate (num : UInt8) (base : UInt32) (sel : UInt16) (flags : UInt8) (idt : Idt) : Idt :=
  Function.update idt num {
    baseLow := (base &&& 0xFFFF).toUInt16
    baseHigh := ((base >>> 16) &&& 0xFFFF).toUInt16
    sel := sel
    zero := 0
    flags := flags }

def idtInstall (address : UInt32) : Idt × TablePtr :=
  (fun _ => ⟨0, 0, 0, 0, 0⟩, ⟨8 * 256 - 1, address⟩)

/-- `count` calls of `idt_set_gate` in order, for the vectors from `first` on. -/
def setGates (first : Nat) (stub : Nat → UInt32) (count : Nat) (idt : Idt) : Idt :=
  (List.range count).foldl
    (fun idt i => idtSetGate (UInt8.ofNat (first + i)) (stub i) 0x08 0x8E idt) idt

/-- `isr i` is the address of `_isr`i. -/
def isrsInstall (isr : Nat → UInt32) (idt : Idt) : Idt := setGates 0 isr 32 idt

/-- The calls of `idt_set_gate` in `irq_install`; `irq i` is the address of `_irq`i. -/
def irqGates (irq : Nat → UInt32) (idt : Idt) : Idt := setGates 32 irq 16 idt

/-! What the processor makes of the bytes -/

def BytesAt (m : Memory) : Nat → List UInt8 → Prop
  | _, [] => True
  | a, b :: bs => m a = b ∧ BytesAt m (a + 1) bs

def halfBytes (v : UInt16) : List UInt8 := [UInt8.ofNat v.toNat, UInt8.ofNat (v.toNat / 2 ^ 8)]

def GdtEntry.bytes (e : GdtEntry) : List UInt8 :=
  halfBytes e.limitLow ++ halfBytes e.baseLow ++ [e.baseMiddle, e.access, e.gran, e.baseHigh]

def IdtEntry.bytes (e : IdtEntry) : List UInt8 :=
  halfBytes e.baseLow ++ halfBytes e.sel ++ [e.zero, e.flags] ++ halfBytes e.baseHigh

structure Segment where
  base : Nat
  /-- The offset of the last byte. -/
  limit : Nat
  access : UInt8
  /-- The default size of operands is 32 bits. -/
  wide : Bool
deriving DecidableEq, Repr

/-- The descriptor that a selector points to, the null descriptor read like any
other; none behind the limit of the table. -/
def fetchSegment (m : Memory) (gdtr : TablePtr) (selector : Nat) : Option Segment :=
  let a := gdtr.base.toNat + 8 * (selector / 8)
  let attributes := (m (a + 6)).toNat
  let raw := m.load16 a + 2 ^ 16 * (attributes % 2 ^ 4)
  if gdtr.limit.toNat < 8 * (selector / 8) + 7 then none
  else some {
    base := m.load16 (a + 2) + 2 ^ 16 * (m (a + 4)).toNat + 2 ^ 24 * (m (a + 7)).toNat
    limit := if attributes / 2 ^ 7 = 1 then raw * 2 ^ 12 + (2 ^ 12 - 1) else raw
    access := m (a + 5)
    wide := decide (attributes / 2 ^ 6 % 2 = 1) }

structure Gate where
  offset : UInt32
  selector : UInt16
  dpl : Nat
  kind : Nat
deriving DecidableEq, Repr

/-- The gate of a vector; none behind the limit, and none that is not present. -/
def fetchGate (m : Memory) (idtr : TablePtr) (n : Nat) : Option Gate :=
  let a := idtr.base.toNat + 8 * n
  let flags := (m (a + 5)).toNat
  if idtr.limit.toNat < 8 * n + 7 then none
  else if flags / 2 ^ 7 = 0 then none
  else some {
    offset := UInt32.ofNat (m.load16 a + 2 ^ 16 * m.load16 (a + 6))
    selector := UInt16.ofNat (m.load16 (a + 2))
    dpl := flags / 2 ^ 5 % 2 ^ 2
    kind := flags % 2 ^ 5 }

def IdtAt (m : Memory) (base : Nat) (idt : Idt) : Prop :=
  ∀ v : UInt8, BytesAt m (base + 8 * v.toNat) (idt v).bytes

def GdtAt (m : Memory) (base : Nat) (gdt : Gdt) : Prop :=
  ∀ num : Fin 3, BytesAt m (base + 8 * num.val) (gdt num).bytes

def entriesAt (base : Nat) (entry : Nat → List UInt8) : Memory :=
  fun x => (entry ((x - base) / 8)).getD ((x - base) % 8) 0

theorem entriesAt_bytes (base : Nat) (entry : Nat → List UInt8) {n : Nat}
    (hn : (entry n).length = 8) : BytesAt (entriesAt base entry) (base + 8 * n) (entry n) := by
  have hat : ∀ i < 8, entriesAt base entry (base + 8 * n + i) = (entry n).getD i 0 := by
    intro i hi
    have hindex : (base + 8 * n + i - base) / 8 = n := by omega
    have hoffset : (base + 8 * n + i - base) % 8 = i := by omega
    rw [entriesAt, hindex, hoffset]
  generalize entriesAt base entry = m at hat
  generalize entry n = bytes at hn hat
  match bytes, hn with
  | [_, _, _, _, _, _, _, _], _ =>
      exact ⟨hat 0 (by decide), hat 1 (by decide), hat 2 (by decide), hat 3 (by decide),
        hat 4 (by decide), hat 5 (by decide), hat 6 (by decide), hat 7 (by decide), trivial⟩

theorem idtAt_entries (base : Nat) (idt : Idt) :
    IdtAt (entriesAt base fun n => (idt (UInt8.ofNat n)).bytes) base idt := by
  intro v
  have hbytes := entriesAt_bytes base (fun n => (idt (UInt8.ofNat n)).bytes) (n := v.toNat) rfl
  rwa [UInt8.ofNat_toNat] at hbytes

theorem gdtAt_entries (base : Nat) (gdt : Gdt) :
    GdtAt (entriesAt base fun n => (gdt (Fin.ofNat 3 n)).bytes) base gdt := by
  intro num
  have hbytes := entriesAt_bytes base (fun n => (gdt (Fin.ofNat 3 n)).bytes) (n := num.val) rfl
  have hnum : Fin.ofNat 3 num.val = num := Fin.ext (Nat.mod_eq_of_lt num.isLt)
  rwa [hnum] at hbytes

theorem load16_of_bytes {m : Memory} {a : Nat} {v : UInt16} (rest : List UInt8)
    (h : BytesAt m a (halfBytes v ++ rest)) : m.load16 a = v.toNat := by
  have hlt : v.toNat < 2 ^ 16 := v.toNat_lt
  obtain ⟨hlow, hhigh, _⟩ := h
  rw [Memory.load16, hlow, hhigh, UInt8.toNat_ofNat', UInt8.toNat_ofNat']
  omega

def IdtEntry.gate (e : IdtEntry) : Option Gate :=
  if e.flags.toNat / 2 ^ 7 = 0 then none
  else some {
    offset := UInt32.ofNat (e.baseLow.toNat + 2 ^ 16 * e.baseHigh.toNat)
    selector := e.sel
    dpl := e.flags.toNat / 2 ^ 5 % 2 ^ 2
    kind := e.flags.toNat % 2 ^ 5 }

theorem fetchGate_eq {m : Memory} {address : UInt32} {idt : Idt} (h : IdtAt m address.toNat idt)
    (n : Nat) :
    fetchGate m ⟨8 * 256 - 1, address⟩ n = if n < 256 then (idt (UInt8.ofNat n)).gate else none := by
  have hlimit : (8 * 256 - 1 : UInt16).toNat = 2047 := rfl
  unfold fetchGate
  rw [hlimit]
  by_cases hn : n < 256
  · have hentry := h (UInt8.ofNat n)
    rw [UInt8.toNat_ofNat', Nat.mod_eq_of_lt hn] at hentry
    have hbase := load16_of_bytes _ hentry
    have hsel : m.load16 (address.toNat + 8 * n + 2) = _ :=
      load16_of_bytes ([_, _] ++ halfBytes _) hentry.2.2
    have hflags : m (address.toNat + 8 * n + 5) = _ := hentry.2.2.2.2.2.1
    have hhigh : m.load16 (address.toNat + 8 * n + 6) = _ :=
      load16_of_bytes [] hentry.2.2.2.2.2.2
    rw [if_neg (by omega), if_pos hn, hflags, hbase, hsel, hhigh, UInt16.ofNat_toNat]
    rfl
  · rw [if_pos (by omega), if_neg hn]

def GdtEntry.segment (e : GdtEntry) : Segment :=
  let attributes := e.gran.toNat
  let raw := e.limitLow.toNat + 2 ^ 16 * (attributes % 2 ^ 4)
  { base := e.baseLow.toNat + 2 ^ 16 * e.baseMiddle.toNat + 2 ^ 24 * e.baseHigh.toNat
    limit := if attributes / 2 ^ 7 = 1 then raw * 2 ^ 12 + (2 ^ 12 - 1) else raw
    access := e.access
    wide := decide (attributes / 2 ^ 6 % 2 = 1) }

theorem fetchSegment_eq {m : Memory} {address : UInt32} {gdt : Gdt}
    (h : GdtAt m address.toNat gdt) (num : Fin 3) :
    fetchSegment m ⟨8 * 3 - 1, address⟩ (8 * num.val) = some (gdt num).segment := by
  have hlimit : (8 * 3 - 1 : UInt16).toNat = 23 := rfl
  have hindex : 8 * num.val / 8 = num.val := Nat.mul_div_cancel_left _ (by decide)
  have hnum := num.isLt
  have hentry := h num
  have hraw := load16_of_bytes _ hentry
  have hbase : m.load16 (address.toNat + 8 * num.val + 2) = _ :=
    load16_of_bytes [_, _, _, _] hentry.2.2
  obtain ⟨_, _, _, _, hmiddle, haccess, hgran, hhigh, _⟩ := hentry
  have hmiddle : m (address.toNat + 8 * num.val + 4) = _ := hmiddle
  have haccess : m (address.toNat + 8 * num.val + 5) = _ := haccess
  have hgran : m (address.toNat + 8 * num.val + 6) = _ := hgran
  have hhigh : m (address.toNat + 8 * num.val + 7) = _ := hhigh
  unfold fetchSegment
  rw [hlimit, hindex, if_neg (by omega), hraw, hbase, hmiddle, haccess, hgran, hhigh]
  rfl

/-! The halves of a base put together again -/

theorem low_half (x : UInt32) : ((x &&& 0xFFFF).toUInt16).toNat = x.toNat % 2 ^ 16 := by
  have hand : x.toNat &&& 0xFFFF = x.toNat % 2 ^ 16 := Nat.and_two_pow_sub_one_eq_mod _ 16
  rw [UInt32.toNat_toUInt16, UInt32.toNat_and]
  change (x.toNat &&& 0xFFFF) % 2 ^ 16 = _
  rw [hand, Nat.mod_mod]

theorem shift_sixteen (x : UInt32) : (x >>> 16).toNat = x.toNat / 2 ^ 16 := by
  rw [UInt32.toNat_shiftRight, Nat.shiftRight_eq_div_pow]
  rfl

theorem shift_half (x : UInt32) :
    (((x >>> 16) &&& 0xFFFF).toUInt16).toNat = x.toNat / 2 ^ 16 := by
  have hlt := x.toNat_lt
  rw [low_half, shift_sixteen]
  omega

theorem byte_of_word (x : UInt32) : (x &&& 0xFF).toUInt8.toNat = x.toNat % 2 ^ 8 := by
  have hand : x.toNat &&& 0xFF = x.toNat % 2 ^ 8 := Nat.and_two_pow_sub_one_eq_mod _ 8
  rw [UInt32.toNat_toUInt8, UInt32.toNat_and]
  change (x.toNat &&& 0xFF) % 2 ^ 8 = _
  rw [hand, Nat.mod_mod]

theorem nibble_of_word (x : UInt32) : (x &&& 0x0F).toUInt8.toNat = x.toNat % 2 ^ 4 := by
  have hand : x.toNat &&& 0x0F = x.toNat % 2 ^ 4 := Nat.and_two_pow_sub_one_eq_mod _ 4
  rw [UInt32.toNat_toUInt8, UInt32.toNat_and]
  change (x.toNat &&& 0x0F) % 2 ^ 8 = _
  omega

theorem shift_twentyfour (x : UInt32) : (x >>> 24).toNat = x.toNat / 2 ^ 24 := by
  rw [UInt32.toNat_shiftRight, Nat.shiftRight_eq_div_pow]
  rfl

theorem high_nibble (gran : UInt8) : (gran &&& 0xF0).toNat = gran.toNat / 2 ^ 4 * 2 ^ 4 := by
  have hlt := gran.toNat_lt
  have hall : ∀ high low : Fin 16, (high.val * 2 ^ 4 + low.val) &&& 0xF0 = high.val * 2 ^ 4 := by
    decide
  have hsplit : gran.toNat / 2 ^ 4 * 2 ^ 4 + gran.toNat % 2 ^ 4 = gran.toNat :=
    Nat.div_add_mod' _ _
  have hthis := hall ⟨gran.toNat / 2 ^ 4, by omega⟩ ⟨gran.toNat % 2 ^ 4, by omega⟩
  rw [hsplit] at hthis
  exact hthis

/-- The upper half of the byte is the caller's flags, the lower one the limit's. -/
theorem gran_byte (limit : UInt32) (gran : UInt8) :
    (((limit >>> 16) &&& 0x0F).toUInt8 ||| (gran &&& 0xF0)).toNat =
      gran.toNat / 2 ^ 4 * 2 ^ 4 + limit.toNat / 2 ^ 16 % 2 ^ 4 := by
  have hlow : limit.toNat / 2 ^ 16 % 2 ^ 4 < 2 ^ 4 := Nat.mod_lt _ (by decide)
  rw [UInt8.toNat_or, nibble_of_word, shift_sixteen, high_nibble, ← Nat.shiftLeft_eq,
    or_shiftLeft hlow, Nat.shiftLeft_eq]

/-- What the processor reads in a descriptor that was set: the base as given,
and the lower 20 bits of the limit, in bytes or in pages. -/
def segmentOf (base limit : UInt32) (access gran : UInt8) : Segment where
  base := base.toNat
  limit :=
    if gran.toNat / 2 ^ 7 = 1 then limit.toNat % 2 ^ 20 * 2 ^ 12 + (2 ^ 12 - 1)
    else limit.toNat % 2 ^ 20
  access := access
  wide := decide (gran.toNat / 2 ^ 6 % 2 = 1)

theorem gdtEntry_segment (base limit : UInt32) (access gran : UInt8) :
    (gdtEntry base limit access gran).segment = segmentOf base limit access gran := by
  have hlt := base.toNat_lt
  have hgran := gran.toNat_lt
  have hbase : base.toNat % 2 ^ 16 + 2 ^ 16 * (base.toNat / 2 ^ 16 % 2 ^ 8) +
      2 ^ 24 * (base.toNat / 2 ^ 24 % 2 ^ 8) = base.toNat := by omega
  have hraw : limit.toNat % 2 ^ 16 + 2 ^ 16 *
      ((gran.toNat / 2 ^ 4 * 2 ^ 4 + limit.toNat / 2 ^ 16 % 2 ^ 4) % 2 ^ 4) =
      limit.toNat % 2 ^ 20 := by omega
  have hunit : (gran.toNat / 2 ^ 4 * 2 ^ 4 + limit.toNat / 2 ^ 16 % 2 ^ 4) / 2 ^ 7 =
      gran.toNat / 2 ^ 7 := by omega
  have hwide : (gran.toNat / 2 ^ 4 * 2 ^ 4 + limit.toNat / 2 ^ 16 % 2 ^ 4) / 2 ^ 6 % 2 =
      gran.toNat / 2 ^ 6 % 2 := by omega
  unfold GdtEntry.segment gdtEntry segmentOf
  simp only [low_half, byte_of_word, shift_sixteen, shift_twentyfour, gran_byte, hbase, hraw,
    hunit, hwide]

/-- The gate that is set, and all others as they were. -/
theorem idtSetGate_gate (num v : UInt8) (base : UInt32) (sel : UInt16) (flags : UInt8) (idt : Idt) :
    (idtSetGate num base sel flags idt v).gate =
      if v = num then
        if flags.toNat / 2 ^ 7 = 0 then none
        else some ⟨base, sel, flags.toNat / 2 ^ 5 % 2 ^ 2, flags.toNat % 2 ^ 5⟩
      else (idt v).gate := by
  by_cases hv : v = num
  · subst hv
    have hwhole : base.toNat % 2 ^ 16 + 2 ^ 16 * (base.toNat / 2 ^ 16) = base.toNat :=
      Nat.mod_add_div _ _
    rw [if_pos rfl, idtSetGate, Function.update_self, IdtEntry.gate]
    change (if _ then none else some (Gate.mk (UInt32.ofNat (UInt16.toNat _ + _)) sel _ _)) = _
    rw [shift_half, low_half, hwhole, UInt32.ofNat_toNat]
  · rw [if_neg hv, idtSetGate, Function.update_of_ne hv]

/-- The gate of stub code in the kernel's code segment: an interrupt gate of ring 0. -/
def stubGate (stub : UInt32) : Gate := ⟨stub, 0x08, 0, 0x0E⟩

theorem setGates_gate {first count : Nat} (stub : Nat → UInt32) (idt : Idt)
    (hlast : first + count ≤ 256) {n : Nat} (hn : n < 256) :
    (setGates first stub count idt (UInt8.ofNat n)).gate =
      if first ≤ n ∧ n < first + count then some (stubGate (stub (n - first)))
      else (idt (UInt8.ofNat n)).gate := by
  induction count with
  | zero => rw [if_neg (by omega), setGates, List.range_zero, List.foldl_nil]
  | succ count ih =>
      have ih := ih (by omega)
      have hsame : UInt8.ofNat n = UInt8.ofNat (first + count) ↔ n = first + count := by
        rw [← UInt8.toNat_inj, UInt8.toNat_ofNat', UInt8.toNat_ofNat', Nat.mod_eq_of_lt hn,
          Nat.mod_eq_of_lt (by omega)]
      have hpresent : ¬ (0x8E : UInt8).toNat / 2 ^ 7 = 0 := by decide
      rw [setGates, List.range_succ, List.foldl_append, List.foldl_cons, List.foldl_nil,
        idtSetGate_gate, if_neg hpresent]
      by_cases hlastGate : n = first + count
      · rw [if_pos (hsame.mpr hlastGate), if_pos (by omega), hlastGate, Nat.add_sub_cancel_left]
        rfl
      · rw [if_neg (fun h => hlastGate (hsame.mp h))]
        refine ih.trans ?_
        by_cases hin : first ≤ n ∧ n < first + count
        · rw [if_pos hin, if_pos (by omega)]
        · rw [if_neg hin, if_neg (by omega)]

theorem blank_gate (address : UInt32) (v : UInt8) : ((idtInstall address).1 v).gate = none := by
  change IdtEntry.gate ⟨0, 0, 0, 0, 0⟩ = none
  decide

def bootIdt (address : UInt32) (isr irq : Nat → UInt32) : Idt × TablePtr :=
  let r := idtInstall address
  (irqGates irq (isrsInstall isr r.1), r.2)

/-- Where the processor goes on with vector `n` after the boot. -/
def vectorGate (isr irq : Nat → UInt32) (n : Nat) : Option Gate :=
  if n < 32 then some (stubGate (isr n))
  else if n < 48 then some (stubGate (irq (n - 32)))
  else none

/-- Wherever the linker put the table and the stubs, the processor finds the 32
exception stubs and the 16 interrupt stubs behind their vectors, and nothing
behind any other number. -/
theorem boot_vectors (m : Memory) (address : UInt32) (isr irq : Nat → UInt32)
    (hat : IdtAt m address.toNat (bootIdt address isr irq).1) (n : Nat) :
    fetchGate m (bootIdt address isr irq).2 n = vectorGate isr irq n := by
  have hfetch : fetchGate m (bootIdt address isr irq).2 n = _ := fetchGate_eq hat n
  rw [hfetch, vectorGate]
  by_cases hn : n < 256
  · rw [if_pos hn, bootIdt, irqGates, setGates_gate irq _ (by decide) hn, isrsInstall,
      setGates_gate isr _ (by decide) hn, blank_gate]
    by_cases hisr : n < 32
    · rw [if_neg (by omega), if_pos (by omega), if_pos hisr, Nat.sub_zero]
    · rw [if_neg hisr]
      by_cases hirq : n < 48
      · rw [if_pos (by omega), if_pos hirq]
      · rw [if_neg (by omega), if_neg (by omega), if_neg hirq]
  · rw [if_neg hn, if_neg (by omega), if_neg (by omega)]

/-- A descriptor survives its encoding: for every base, limit and flags the
processor reads back the base and the limit modulo 1 MB (in the unit the flags
give), and the other two descriptors as they were. -/
theorem segment_round_trip (m : Memory) (address : UInt32) (gdt : Gdt) (num : Fin 3)
    (base limit : UInt32) (access gran : UInt8)
    (hat : GdtAt m address.toNat (gdtSetGate num base limit access gran gdt)) (other : Fin 3) :
    fetchSegment m ⟨8 * 3 - 1, address⟩ (8 * other.val) =
      some (if other = num then segmentOf base limit access gran else (gdt other).segment) := by
  rw [fetchSegment_eq hat, gdtSetGate]
  by_cases hnum : other = num
  · rw [hnum, Function.update_self, if_pos rfl, gdtEntry_segment]
  · rw [Function.update_of_ne hnum, if_neg hnum]

/-- The data segment of `gdt_install` is all of memory, so that an offset in it is
the address. -/
theorem segment_round_trip_data :
    fetchSegment (entriesAt 64 fun n => ((gdtInstall 64 fun _ => ⟨0, 0, 0, 0, 0, 0⟩).1
        (Fin.ofNat 3 n)).bytes) ⟨8 * 3 - 1, 64⟩ 0x10 = some ⟨0, 2 ^ 32 - 1, 0x92, true⟩ := by
  have hat := gdtAt_entries 64 (gdtInstall 64 fun _ => ⟨0, 0, 0, 0, 0, 0⟩).1
  exact segment_round_trip _ 64 _ 2 0 0xFFFFFFFF 0x92 0xCF hat 2

structure GateCall where
  num : UInt8
  base : UInt32
  sel : UInt16
  flags : UInt8
deriving DecidableEq, Repr

def GateCall.onIdt (idt : Idt) (call : GateCall) : Idt :=
  idtSetGate call.num call.base call.sel call.flags idt

/-- The gate that a call asks for, if its flags say that it is present. -/
def GateCall.gate (call : GateCall) : Option Gate :=
  if call.flags.toNat / 2 ^ 7 = 0 then none
  else some ⟨call.base, call.sel, call.flags.toNat / 2 ^ 5 % 2 ^ 2, call.flags.toNat % 2 ^ 5⟩

theorem onIdt_gate (idt : Idt) (call : GateCall) (v : UInt8) :
    (call.onIdt idt v).gate = if call.num = v then call.gate else (idt v).gate := by
  rw [GateCall.onIdt, idtSetGate_gate]
  by_cases hv : call.num = v
  · rw [if_pos hv, if_pos hv.symm, GateCall.gate]
  · rw [if_neg hv, if_neg (Ne.symm hv)]

/-- What the table holds for a vector after some calls is what the last call for
it asked for. -/
theorem calls_gate (calls : List GateCall) (idt : Idt) (v : UInt8) :
    (calls.foldl GateCall.onIdt idt v).gate =
      (calls.reverse.find? fun call => call.num = v).elim (idt v).gate GateCall.gate := by
  induction calls generalizing idt with
  | nil => rfl
  | cons call calls ih =>
      rw [List.foldl_cons, ih, List.reverse_cons, List.find?_append]
      cases hlater : calls.reverse.find? fun call => call.num = v with
      | some later => rfl
      | none =>
          rw [Option.none_or, Option.elim_none, onIdt_gate]
          by_cases hv : call.num = v
          · rw [if_pos hv, List.find?_cons_of_pos (by rwa [decide_eq_true_iff])]
            rfl
          · rw [if_neg hv, List.find?_cons_of_neg (by rwa [decide_eq_true_iff])]
            rfl

/-- After `idt_install` and any calls of `idt_set_gate`, wherever the table lies, the
processor finds behind every number the present gate of the last call for it, and
nothing behind a number without a call or from 256 on. -/
theorem gates_of_calls (m : Memory) (address : UInt32) (calls : List GateCall)
    (hat : IdtAt m address.toNat (calls.foldl GateCall.onIdt (idtInstall address).1)) (n : Nat) :
    fetchGate m (idtInstall address).2 n =
      if n < 256 then
        (calls.reverse.find? fun call => call.num.toNat = n).bind GateCall.gate
      else none := by
  have hfetch : fetchGate m (idtInstall address).2 n = _ := fetchGate_eq hat n
  rw [hfetch]
  by_cases hn : n < 256
  · have hnum : (fun call : GateCall => decide (call.num = UInt8.ofNat n)) =
        fun call => decide (call.num.toNat = n) := by
      funext call
      apply decide_eq_decide.mpr
      rw [← UInt8.toNat_inj, UInt8.toNat_ofNat', Nat.mod_eq_of_lt hn]
    rw [if_pos hn, if_pos hn, calls_gate, blank_gate, hnum]
    cases calls.reverse.find? fun call => call.num.toNat = n <;> rfl
  · rw [if_neg hn, if_neg hn]

/-- A vector that is set twice, the second time as not present. -/
theorem gates_of_calls_twice :
    fetchGate (entriesAt 64 fun n => (([⟨14, 0x100000, 8, 0x8E⟩, ⟨14, 0x100000, 8, 0x0E⟩].foldl
        GateCall.onIdt (idtInstall 64).1) (UInt8.ofNat n)).bytes) (idtInstall 64).2 14 = none := by
  have hat := idtAt_entries 64 ([⟨14, 0x100000, 8, 0x8E⟩, ⟨14, 0x100000, 8, 0x0E⟩].foldl
    GateCall.onIdt (idtInstall 64).1)
  exact gates_of_calls _ 64 [⟨14, 0x100000, 8, 0x8E⟩, ⟨14, 0x100000, 8, 0x0E⟩] hat 14

end X32PRos
