import X32PRos.Interrupts.Drivers

/-!
The whole way of an interrupt: device, controllers, interrupt table, stub,
`irq_handler`, driver, and back to the program.
-/

namespace X32PRos

open Foundation

namespace Irqs

/-- `irq_handler` is what the linker put at its address. -/
def Linked (image : Image (Irqs Devices)) : Prop :=
  image.Loaded ∧ ∀ r k, (image.text image.irqHandler).body r k = irqHandler r.intNo.toNat k

/-- The code of the kernel is wired as the interleaving of its interrupts needs it. -/
theorem wired {p : Processor} {image : Image (Irqs Devices)} (hlinked : Linked image)
    (hplain : ∀ n, 32 ≤ n → n < 48 → p.pushesError n = false) :
    Wired p image Idle Irqs.input acknowledge irqHandler := by
  constructor
  case loaded => exact hlinked.1
  case plain => exact hplain
  case acts =>
    intro n hlow hn r hr k
    have haddress : image.handlerAddress n = image.irqHandler := if_neg (by omega)
    rw [Image.handler, haddress, hlinked.2, hr]
  case vectors =>
    intro k n k' hidle hack
    obtain ⟨irq, hn, hirq, _, _⟩ := hidle.acknowledge_some hack
    omega
  case raised => exact fun i k hidle => (input_simulated i k hidle).1
  case handled =>
    intro k n k' hidle hack
    obtain ⟨_, _, _, hdone, _⟩ := hidle.acknowledge_some hack
    exact hdone

variable {layout : MemoryMap} (p : Processor) (image : Image (Irqs Devices))
  (program : Program layout)

def machine (m : Machine (Irqs Devices)) (events : List (Event Input)) :
    Except Unit (Machine (Irqs Devices)) :=
  Run.exec (Machine.next p image program Irqs.input acknowledge) m events

/-- Machine code and drivers together. Whatever the program and whatever the order
of its instructions, of the devices and of the interrupts taken: the program comes
to where it comes without them, and every scancode has been handled once and in
order, but for one that may still wait. -/
theorem machine_run (hlinked : Linked image)
    (hplain : ∀ n, 32 ≤ n → n < 48 → p.pushesError n = false)
    (pics : Pics) (console : Console) (port60 : UInt8) (c : Cpu)
    (htable : IdtAt c.mem layout.table.toNat (image.idt layout.table))
    (events : List (Event Input))
    (hroom : Run.Each (Machine.next p image program Irqs.input acknowledge)
      (fun m e => e = .accept → Machine.Room layout image m) ⟨c, booted pics console port60⟩ events)
    (m' : Machine (Irqs Devices))
    (hrun : machine p image program ⟨c, booted pics console port60⟩ events = .ok m') :
    Cpu.Alike program.live (program.step^[ownSteps events] c) m'.cpu ∧
      ∃ read, m'.kernel.data.received =
          read ++ (if m'.kernel.data.full then [m'.kernel.data.port60] else []) ∧
        m'.kernel.data.console = read.foldl (fun c b => keyboardHandler b c) console := by
  have hidle := installed_idle pics (fun _ => none) (Devices.start console port60)
  obtain ⟨halike, hkernel⟩ := interrupts_unseen (wired hlinked hplain) events
    ⟨c, booted pics console port60⟩ m' hidle htable hroom hrun
  obtain ⟨_, hkeys⟩ := Idle.keeps (fun _ i h => h.input i) (fun _ _ _ h => h.accept) hidle
    (booted_keys pics console port60) hkernel
  exact ⟨halike, hkeys.typed⟩

/-! One key beside a program that counts -/

def smallMap : MemoryMap := ⟨0x1000, 0x3000, 0, Or.inl (by decide)⟩

def smallImage : Image (Irqs Devices) where
  entry n := UInt32.ofNat (0x100000 + 16 * n)
  faultHandler := 0x200000
  irqHandler := 0x201000
  code a :=
    let n := (a.toNat - 0x100000) / 16
    stubEntry n ++ commonStub (if n < 32 then 0x200000 else 0x201000)
  text _ := {
    body := fun r k => irqHandler r.intNo.toNat k
    depth := 256
    leftover := fun c _ => ⟨0, 0, 0, 0, c.mem⟩ }

theorem smallImage_linked : Linked smallImage := by
  constructor
  · intro n hn
    have haddress : (smallImage.entry n).toNat = 0x100000 + 16 * n := by
      change (UInt32.ofNat (0x100000 + 16 * n)).toNat = _
      rw [UInt32.toNat_ofNat', Nat.mod_eq_of_lt (by omega)]
    have hindex : ((smallImage.entry n).toNat - 0x100000) / 16 = n := by
      rw [haddress]
      omega
    change stubEntry (((smallImage.entry n).toNat - 0x100000) / 16) ++ commonStub
      (if ((smallImage.entry n).toNat - 0x100000) / 16 < 32 then _ else _) = _
    rw [hindex]
    rfl
  · intro r k
    rfl

def counter : Program smallMap where
  step c := { c with eax := c.eax + 1 }
  live c x := x < 0x1000 ∨ c.esp.toNat ≤ x
  above _ _ h := h
  insensitive c c' h := by
    obtain ⟨hsame, hlive⟩ := h
    refine ⟨?_, hlive⟩
    have hcount := congrArg (fun c : Cpu => { c with eax := c.eax + 1 }) hsame
    exact hcount
  spares _ _ _ _ := rfl

def counterMemory (base : Nat) (idt : Idt) : Memory :=
  entriesAt base fun n => (idt (UInt8.ofNat n)).bytes

def counterCpu : Cpu where
  eax := 0
  ecx := 0
  edx := 0
  ebx := 0
  esp := 0x3000
  ebp := 0
  esi := 0
  edi := 0
  eip := 0
  eflags := 0x202
  cs := 0x08
  ds := 0x10
  es := 0x10
  fs := 0x10
  gs := 0x10
  ss := 0x10
  mem := counterMemory smallMap.table.toNat (smallImage.idt smallMap.table)

theorem counterCpu_table :
    IdtAt counterCpu.mem smallMap.table.toNat (smallImage.idt smallMap.table) := by
  have hmem : counterCpu.mem =
      counterMemory smallMap.table.toNat (smallImage.idt smallMap.table) := rfl
  rw [hmem]
  exact idtAt_entries _ _

theorem counterCpu_room (k : Irqs Devices) :
    Machine.Room smallMap smallImage ⟨counterCpu, k⟩ := by
  have hesp : counterCpu.esp.toNat = 0x3000 := by decide
  constructor
  · exact Nat.le_of_eq hesp
  · intro n _
    have hreach : smallImage.reach n = 328 := rfl
    have hfloor : smallMap.floor = 0x1000 := rfl
    change _ ≤ counterCpu.esp.toNat
    rw [hesp, hreach, hfloor]
    decide

theorem i386_plain (n : Nat) (hlow : 32 ≤ n) (hn : n < 48) : i386.pushesError n = false := by
  apply decide_eq_false
  unfold isrErr
  simp only [List.mem_cons, List.not_mem_nil, or_false]
  omega

theorem machine_run_counter :
    ∃ m', machine i386 smallImage counter
        ⟨counterCpu, booted ⟨Pic.stray, Pic.stray⟩ blankConsole 0⟩
        [.device .keyboardInstall, .device (.key 0x1E), .accept, .step] = .ok m' ∧
      Cpu.Alike counter.live (counter.step^[1] counterCpu) m'.cpu ∧
      ∃ read, m'.kernel.data.received =
          read ++ (if m'.kernel.data.full then [m'.kernel.data.port60] else []) ∧
        m'.kernel.data.console = read.foldl (fun c b => keyboardHandler b c) blankConsole := by
  let start := booted ⟨Pic.stray, Pic.stray⟩ blankConsole 0
  let keyed := (start.input .keyboardInstall).input (.key 0x1E)
  have hbeside : Cpu.Beside smallImage counter counterCpu counterCpu :=
    ⟨⟨rfl, fun _ _ => rfl⟩, counterCpu_table⟩
  have hidle : keyed.Idle :=
    (input_simulated (.key 0x1E) _ (input_simulated .keyboardInstall _ (installed_idle _ _ _)).1).1
  have hack : ∃ k, keyed.acknowledge = some (33, k) := ⟨_, rfl⟩
  obtain ⟨k, hack⟩ := hack
  obtain ⟨c, htake, _⟩ := hbeside.take (wired smallImage_linked i386_plain) hidle
    (counterCpu_room keyed) hack
  have hnext := Machine.next_accept (m := ⟨counterCpu, keyed⟩) counter Irqs.input (by decide) hack
    htake
  have hrun : machine i386 smallImage counter ⟨counterCpu, start⟩
      [.device .keyboardInstall, .device (.key 0x1E), .accept, .step] =
      .ok ⟨counter.step c, irqHandler 33 k⟩ := by
    change Run.exec (Machine.next i386 smallImage counter Irqs.input acknowledge)
      ⟨counterCpu, keyed⟩ [Event.accept, Event.step] = _
    rw [Run.exec, hnext]
    rfl
  refine ⟨_, hrun, machine_run i386 smallImage counter smallImage_linked i386_plain
    ⟨Pic.stray, Pic.stray⟩ blankConsole 0 counterCpu counterCpu_table _ ?_ _ hrun⟩
  constructor
  · intro h
    cases h
  intro _ h₁
  cases h₁
  constructor
  · intro h
    cases h
  intro _ h₂
  cases h₂
  constructor
  · intro _
    exact counterCpu_room _
  intro _ _
  constructor
  · intro h
    cases h
  · intro _ _
    trivial

end Irqs

end X32PRos
