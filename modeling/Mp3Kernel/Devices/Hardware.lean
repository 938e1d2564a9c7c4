import Mp3Kernel.Console.Keyboard
import Mp3Kernel.Devices.I8259
import Mp3Kernel.Devices.Rate
import Mp3Kernel.Machine.I8259A

/-!
# The interrupts of the devices

The keyboard, the real-time clock, the two interrupt controllers and the code of the kernel that
talks to them, one access to a port after the other. A key may be pressed and the clock may tick
between any two accesses.

## Main definitions

* `Hardware`, `Io`: the devices, and the statements of the kernel's code.
* `bootCode`, `keyboardCode`, `rtcCode`: what is left of the boot after `i8259_init`, and the
  handlers.
* `HardwareStep`: a statement, an interrupt that the processor takes, a key, a tick, or a step of
  the code that is interrupted.

## Main results

* `finish_scan`, `finish_tick`: keys and ticks commute with code that does not read what they
  change.

Source: `i8259.c`, lines 32–129; `RTC.c`, lines 16–52 and 83–93; `keyboard.c`, lines 91–95 and
119–178.
-/

namespace Mp3Kernel

open I8259A Transition

/-! ### The devices -/

/-- `KEYBOARD_PORT_DATA`. -/
def keyboardPortData : BitVec 16 := 0x60

/-- `RTC_CMD`. -/
def rtcCmd : BitVec 16 := 0x70

/-- `RTC_CMOS`. -/
def rtcCmos : BitVec 16 := 0x71

/-- `RegA`. -/
def regA : BitVec 8 := 0x8A

/-- `RegB`. -/
def regB : BitVec 8 := 0x8B

/-- `RegC`. -/
def regC : BitVec 8 := 0x8C

/-- The output of the keyboard controller. -/
structure KeyboardPort where
  /-- A scancode waits. -/
  full : Bool
  /-- The scancode. -/
  data : UInt8

/-- The real-time clock. -/
structure Cmos where
  /-- The register selected, with the bit that disables the non-maskable interrupt. -/
  index : BitVec 8
  /-- Register A. -/
  a : BitVec 8
  /-- Register B. -/
  b : BitVec 8
  /-- The periodic flag of register C. -/
  periodic : Bool

/-- The input of the clock to the controllers. -/
def Cmos.irq (c : Cmos) : Bool := c.b.getLsbD 6 && c.periodic

/-- Register C. -/
def Cmos.c (c : Cmos) : BitVec 8 :=
  (if c.irq then 0x80#8 else 0) ||| if c.periodic then 0x40#8 else 0

/-- What the handlers change in the kernel. -/
structure KernelData where
  /-- The console. -/
  console : Console
  /-- `rtc_interrupt`. -/
  rtcInterrupt : ℤ

/-- The devices, and the data of the kernel. -/
structure Hardware where
  /-- The controllers. -/
  pics : Cascade
  /-- The keyboard. -/
  keyboard : KeyboardPort
  /-- The clock. -/
  cmos : Cmos
  /-- The byte read last. -/
  prev : BitVec 8
  /-- The data of the kernel. -/
  kernel : KernelData

namespace Hardware

/-- The clock changes, and makes a request when its input rises. -/
def setCmos (c : Cmos) (b : Hardware) : Hardware :=
  { b with cmos := c, pics := b.pics.raiseSlave (c.irq && !b.cmos.irq) 0 }

/-- The keyboard sends a scancode. -/
def scan (s : UInt8) (b : Hardware) : Hardware :=
  { b with keyboard := ⟨true, s⟩, pics := { b.pics with master := b.pics.master.raise 1 } }

/-- The clock ticks. -/
def tick (b : Hardware) : Hardware := b.setCmos { b.cmos with periodic := true }

/-- The byte `d` written to the register that is selected. -/
def writeCmos (d : BitVec 8) (b : Hardware) : Option Hardware :=
  if b.cmos.index &&& 0x7F = 0x0A then some (b.setCmos { b.cmos with a := d })
  else if b.cmos.index &&& 0x7F = 0x0B then some (b.setCmos { b.cmos with b := d })
  else none

/-- The register that is selected. Register C is cleared. -/
def readCmos (b : Hardware) : Option Hardware :=
  if b.cmos.index &&& 0x7F = 0x0A then some { b with prev := b.cmos.a }
  else if b.cmos.index &&& 0x7F = 0x0B then some { b with prev := b.cmos.b }
  else if b.cmos.index &&& 0x7F = 0x0C then
    some { b.setCmos { b.cmos with periodic := false } with prev := b.cmos.c }
  else none

/-- `outb(data, port)`. -/
def outb (d : BitVec 8) (port : BitVec 16) (b : Hardware) : Option Hardware :=
  if port = master8259Port then
    (b.pics.master.command d).map fun c => { b with pics := { b.pics with master := c } }
  else if port = masterDataPort then
    some { b with pics := { b.pics with master := b.pics.master.data d } }
  else if port = slave8259Port then
    (b.pics.slave.command d).map fun c => { b with pics := { b.pics with slave := c } }
  else if port = slaveDataPort then
    some { b with pics := { b.pics with slave := b.pics.slave.data d } }
  else if port = rtcCmd then some { b with cmos := { b.cmos with index := d } }
  else if port = rtcCmos then b.writeCmos d
  else none

/-- `inb(port)`. -/
def inb (port : BitVec 16) (b : Hardware) : Option Hardware :=
  if port = keyboardPortData then
    some { b with prev := b.keyboard.data.toBitVec, keyboard := { b.keyboard with full := false } }
  else if port = rtcCmos then b.readCmos
  else none

end Hardware

/-! ### The code of the kernel -/

/-- A statement. -/
inductive Io
  /-- `outb(data, port)`. -/
  | outb (data : BitVec 8) (port : BitVec 16)
  /-- `outb(f(prev), RTC_CMOS)`. -/
  | outbCmos (f : BitVec 8 → BitVec 8)
  /-- `prev = inb(port)`. -/
  | inb (port : BitVec 16)
  /-- A statement without accesses to ports, with the byte read last. -/
  | call (f : BitVec 8 → KernelData → KernelData)

/-- The effect of a statement. -/
def Io.exec (b : Hardware) : Io → Option Hardware
  | outb d port => b.outb d port
  | outbCmos f => b.outb (f b.prev) rtcCmos
  | inb port => b.inb port
  | call f => some { b with kernel := f b.prev b.kernel }

/-- The writes of a function of the driver of the controllers. -/
def Pic.writes (f : Pic → Pic) (s : Pic) : List Io :=
  (f { s with log := [] }).log.reverse.map fun w => .outb w.2 w.1

/-- `keyboard_init` and `rtc_init`, behind `i8259_init`. -/
def bootCode (s : Pic) : List Io :=
  let s := s.i8259Init
  let rate := ((getRate 16 1024#32).getD 0).setWidth 8
  Pic.writes (Pic.enableIrq 1#32) s ++
  Pic.writes (Pic.disableIrq 8#32) (s.enableIrq 1#32) ++
  [.outb regB rtcCmd, .inb rtcCmos, .outb regB rtcCmd, .outbCmos (· ||| 0x40#8),
    .outb regA rtcCmd, .inb rtcCmos, .outb regA rtcCmd,
    .outbCmos fun prev => (prev &&& 0xF0#8) ||| rate] ++
  Pic.writes (Pic.enableIrq 8#32) ((s.enableIrq 1#32).disableIrq 8#32)

/-- `handle_keyboard_irq`. -/
def keyboardCode : List Io :=
  Pic.writes (Pic.sendEoi 1#32) ⟨0, 0, []⟩ ++
  [.inb keyboardPortData,
    .call fun prev k => { k with console := k.console.handleKeyboardIrq (.ofBitVec prev) }]

/-- `rtc_interrupt_handler`. -/
def rtcCode : List Io :=
  [.outb regC rtcCmd, .inb rtcCmos, .call fun _ k => { k with rtcInterrupt := 1 }] ++
  Pic.writes (Pic.sendEoi 8#32) ⟨0, 0, []⟩

/-- The rest of the code. -/
def finish (code : List Io) (b : Hardware) : Option Hardware := code.foldlM Io.exec b

/-- What happens next. -/
inductive HardwareEvent
  /-- A statement. -/
  | io
  /-- The processor takes an interrupt. -/
  | take
  /-- The keyboard sends a scancode. -/
  | scan (s : UInt8)
  /-- The clock ticks. -/
  | tick
  /-- The code that is interrupted changes the data of the kernel. -/
  | main (f : KernelData → KernelData)

/-- The handler for a vector. -/
def handlerCode (v : BitVec 8) : Option (List Io) :=
  if v = 0x21#8 then some keyboardCode else if v = 0x28#8 then some rtcCode else none

/-- The steps, from the devices and the code that runs to the next ones. An interrupt is taken when
no such code runs, since the gates of both devices disable interrupts, and the keyboard sends a
scancode when the last one has been read. -/
inductive HardwareStep : Hardware × List Io → HardwareEvent → Hardware × List Io → Prop
  | io {b b' : Hardware} {i : Io} {code : List Io} : i.exec b = some b' →
      HardwareStep (b, i :: code) .io (b', code)
  | take {b : Hardware} {v : BitVec 8} {pics : Cascade} {code : List Io} :
      b.pics.acknowledge = some (v, pics) → handlerCode v = some code →
        HardwareStep (b, []) .take ({ b with pics := pics }, code)
  | scan {b : Hardware} {code : List Io} (s : UInt8) : b.keyboard.full = false →
      HardwareStep (b, code) (.scan s) (b.scan s, code)
  | tick {b : Hardware} {code : List Io} : HardwareStep (b, code) .tick (b.tick, code)
  | main {b : Hardware} (f : KernelData → KernelData) :
      HardwareStep (b, []) (.main f) ({ b with kernel := f b.kernel }, [])

/-! ### Keys and ticks commute with statements -/

/-- The register that is selected behind a statement. -/
def Io.select (index : BitVec 8) : Io → BitVec 8
  | outb d port => if port = rtcCmd then d else index
  | _ => index

/-- The number of times that code reads a scancode. -/
def scancodeReads (code : List Io) : ℕ :=
  code.countP fun i => match i with
    | .inb port => port = keyboardPortData
    | _ => false

/-- The number of times that code reads register C. -/
def clockReads : BitVec 8 → List Io → ℕ
  | _, [] => 0
  | index, i :: code =>
    (match i with
    | .inb port => if port = rtcCmos ∧ index &&& 0x7F = 0x0C then 1 else 0
    | _ => 0) + clockReads (i.select index) code

/-- A statement that begins no initialisation of a controller and leaves the interrupts of the clock
enabled. -/
def Io.Safe (index : BitVec 8) : Io → Prop
  | outb d port => (port = master8259Port ∨ port = slave8259Port → d.getLsbD 4 = false) ∧
      port ≠ rtcCmos
  | outbCmos f => index &&& 0x7F = 0x0B → ∀ p, (f p).getLsbD 6 = true
  | _ => True

/-- Code of such statements. -/
def SafeCode : BitVec 8 → List Io → Prop
  | _, [] => True
  | index, i :: code => i.Safe index ∧ SafeCode (i.select index) code

section Statements

variable {b b' : Hardware} {i : Io}

theorem Hardware.tick_of_periodic (h : b.cmos.periodic = true) : b.tick = b := by
  have hcmos : ({ b.cmos with periodic := true } : Cmos) = b.cmos := by
    rw [← h]
  rw [tick, hcmos, setCmos, Bool.and_not_self]
  rfl

/-- Whether a tick makes a request. -/
def Hardware.requests (b : Hardware) : Bool :=
  Cmos.irq { b.cmos with periodic := true } && !b.cmos.irq

theorem Hardware.pics_tick (b : Hardware) : b.tick.pics = b.pics.raiseSlave b.requests 0 := rfl

theorem Hardware.cmos_tick (b : Hardware) : b.tick.cmos = { b.cmos with periodic := true } := rfl

/-- A change of the clock before a tick or after it, when it does not disable the interrupts. -/
theorem Hardware.setCmos_tick {c : Cmos} (hb : b.cmos.periodic = false)
    (hperiodic : c.periodic = false)
    (hc : b.cmos.b.getLsbD 6 = true → c.b.getLsbD 6 = true) :
    b.tick.setCmos { c with periodic := true } = (b.setCmos c).tick := by
  have hraise : (b.cmos.b.getLsbD 6 || c.b.getLsbD 6 && !b.cmos.b.getLsbD 6) = c.b.getLsbD 6 := by
    cases h : b.cmos.b.getLsbD 6
    · rw [Bool.false_or, Bool.not_false, Bool.and_true]
    · rw [Bool.true_or, hc h]
  simp only [tick, setCmos, Cmos.irq, hb, hperiodic, Bool.and_true, Bool.and_false, Bool.not_false,
    Cascade.raiseSlave_false, Cascade.raiseSlave_raiseSlave, hraise]

theorem Hardware.setCmos_scan (c : Cmos) (s : UInt8) (b : Hardware) :
    (b.scan s).setCmos c = (b.setCmos c).scan s := by
  have hirq : (b.scan s).cmos.irq = b.cmos.irq := rfl
  rw [setCmos, setCmos, hirq]
  cases c.irq && !b.cmos.irq <;> rfl

theorem Hardware.cmos_scan (s : UInt8) (b : Hardware) : (b.scan s).cmos = b.cmos := rfl

theorem Hardware.writeCmos_scan (d : BitVec 8) (s : UInt8) (b : Hardware) :
    (b.scan s).writeCmos d = (b.writeCmos d).map (Hardware.scan s) := by
  rw [writeCmos, writeCmos, cmos_scan]
  split_ifs
  · exact congrArg some (setCmos_scan ..)
  · exact congrArg some (setCmos_scan ..)
  · rfl

/-- A write that leaves the interrupts of the clock enabled, before a tick or after it. -/
theorem Hardware.writeCmos_tick (hb : b.cmos.periodic = false) {d : BitVec 8}
    (hd : b.cmos.index &&& 0x7F = 0x0B → d.getLsbD 6 = true) :
    b.tick.writeCmos d = (b.writeCmos d).map Hardware.tick := by
  rw [writeCmos, writeCmos, cmos_tick]
  split_ifs with ha hregB
  · exact congrArg some (setCmos_tick (c := { b.cmos with a := d }) hb hb id)
  · exact congrArg some (setCmos_tick (c := { b.cmos with b := d }) hb hb fun _ => hd hregB)
  · rfl

theorem scancodeReads_inb : scancodeReads [.inb keyboardPortData] = 1 := by decide

theorem clockReads_inb {index : BitVec 8} (h : index &&& 0x7F = 0x0C) :
    clockReads index [.inb rtcCmos] = 1 := by
  rw [clockReads, if_pos ⟨rfl, h⟩]
  rfl

/-- A scancode sent before a statement or after it. -/
theorem Io.exec_scan (hsafe : i.Safe b.cmos.index) (hread : scancodeReads [i] = 0) (s : UInt8) :
    i.exec (b.scan s) = (i.exec b).map (Hardware.scan s) := by
  cases i with
  | outb d port =>
    rw [Io.exec, Io.exec, Hardware.outb, Hardware.outb]
    split_ifs with hmaster hdata hslave hdata' hcmd hcmos
    · show ((b.pics.master.raise 1).command d).map _ = _
      rw [Chip.raise_command _ _ (hsafe.1 (.inl hmaster)), Option.map_map, Option.map_map]
      rfl
    · show some ({ b.scan s with
        pics := { b.pics with master := (b.pics.master.raise 1).data d } } : Hardware) = _
      rw [Chip.raise_data]
      rfl
    · rw [Option.map_map]
      rfl
    · rfl
    · rfl
    · exact Hardware.writeCmos_scan d s b
    · rfl
  | outbCmos f => exact Hardware.writeCmos_scan (f b.prev) s b
  | inb port =>
    rw [Io.exec, Io.exec, Hardware.inb, Hardware.inb]
    split_ifs with hkeyboard hcmos
    · rw [hkeyboard, scancodeReads_inb] at hread
      cases hread
    · rw [Hardware.readCmos, Hardware.readCmos, Hardware.cmos_scan]
      split_ifs
      · rfl
      · rfl
      · exact congrArg (fun x : Hardware => some { x with prev := b.cmos.c })
          (Hardware.setCmos_scan { b.cmos with periodic := false } s b)
      · rfl
    · rfl
  | call f => rfl

/-- What a statement does to the keyboard and to the clock. -/
structure Io.Effect (i : Io) (b b' : Hardware) : Prop where
  index : b'.cmos.index = i.select b.cmos.index
  periodic : clockReads b.cmos.index [i] = 0 → b'.cmos.periodic = b.cmos.periodic
  keyboard : scancodeReads [i] = 0 → b'.keyboard = b.keyboard

theorem Io.effect_of_ne {d : BitVec 8} {port : BitVec 16} (hport : port ≠ rtcCmd)
    (hcmos : b'.cmos = b.cmos) (hkeyboard : b'.keyboard = b.keyboard) :
    (Io.outb d port).Effect b b' where
  index := by rw [hcmos, Io.select, if_neg hport]
  periodic _ := by rw [hcmos]
  keyboard _ := hkeyboard

theorem Hardware.frame_writeCmos {d : BitVec 8} (h : b.writeCmos d = some b') :
    b'.cmos.index = b.cmos.index ∧ b'.cmos.periodic = b.cmos.periodic ∧
      b'.keyboard = b.keyboard := by
  rw [writeCmos] at h
  split_ifs at h
  · cases h
    exact ⟨rfl, rfl, rfl⟩
  · cases h
    exact ⟨rfl, rfl, rfl⟩

theorem Io.effect_of_exec (hsafe : i.Safe b.cmos.index) (h : i.exec b = some b') :
    i.Effect b b' := by
  cases i with
  | outb d port =>
    rw [Io.exec, Hardware.outb] at h
    split_ifs at h with hmaster hdata hslave hdata' hcmd hcmos
    · obtain ⟨c, -, rfl⟩ := Option.map_eq_some_iff.mp h
      exact Io.effect_of_ne (by rw [hmaster]; decide) rfl rfl
    · cases h
      exact Io.effect_of_ne (by rw [hdata]; decide) rfl rfl
    · obtain ⟨c, -, rfl⟩ := Option.map_eq_some_iff.mp h
      exact Io.effect_of_ne (by rw [hslave]; decide) rfl rfl
    · cases h
      exact Io.effect_of_ne (by rw [hdata']; decide) rfl rfl
    · cases h
      exact ⟨by rw [Io.select, if_pos hcmd], fun _ => rfl, fun _ => rfl⟩
    · exact absurd hcmos hsafe.2
  | outbCmos f =>
    obtain ⟨hindex, hperiodic, hkeyboard⟩ := Hardware.frame_writeCmos h
    exact ⟨hindex, fun _ => hperiodic, fun _ => hkeyboard⟩
  | inb port =>
    rw [Io.exec, Hardware.inb] at h
    split_ifs at h with hkeyboard hcmos
    · cases h
      refine ⟨rfl, fun _ => rfl, fun hread => ?_⟩
      rw [hkeyboard, scancodeReads_inb] at hread
      cases hread
    · rw [Hardware.readCmos] at h
      split_ifs at h with ha hb hc
      · cases h
        exact ⟨rfl, fun _ => rfl, fun _ => rfl⟩
      · cases h
        exact ⟨rfl, fun _ => rfl, fun _ => rfl⟩
      · cases h
        refine ⟨rfl, fun hread => ?_, fun _ => rfl⟩
        rw [hcmos, clockReads_inb hc] at hread
        cases hread
  | call f =>
    cases h
    exact ⟨rfl, fun _ => rfl, fun _ => rfl⟩

/-- A tick before a statement or after it. -/
theorem Io.exec_tick (hsafe : i.Safe b.cmos.index) (hread : clockReads b.cmos.index [i] = 0) :
    i.exec b.tick = (i.exec b).map Hardware.tick := by
  by_cases hperiodic : b.cmos.periodic = true
  · rw [Hardware.tick_of_periodic hperiodic]
    cases h : i.exec b with
    | none => rfl
    | some b' =>
      have hb' := ((Io.effect_of_exec hsafe h).periodic hread).trans hperiodic
      exact congrArg some (Hardware.tick_of_periodic hb').symm
  · rw [Bool.not_eq_true] at hperiodic
    cases i with
    | outb d port =>
      have hmap {P Q : Cascade} (h : P = Q) :
          { b.tick with pics := P } = { b.tick with pics := Q } :=
        congrArg (fun pics => { b.tick with pics := pics }) h
      rw [Io.exec, Io.exec, Hardware.outb, Hardware.outb]
      split_ifs with hmaster hdata hslave hdata' hcmd hcmos
      · rw [Option.map_map, Hardware.pics_tick, Cascade.master_raiseSlave]
        exact Option.map_congr fun c _ => hmap (Cascade.raiseSlave_master ..)
      · rw [Hardware.pics_tick, Cascade.master_raiseSlave]
        exact congrArg some (hmap (Cascade.raiseSlave_master ..))
      · have hraise := Cascade.raiseSlave_command b.pics b.requests 0 (hsafe.1 (.inr hslave))
        have hraise := congrArg (Option.map fun pics => { b.tick with pics := pics }) hraise
        rw [Option.map_map, Option.map_map] at hraise
        rw [Option.map_map]
        exact hraise
      · exact congrArg some (hmap (Cascade.raiseSlave_data ..))
      · rfl
      · exact absurd hcmos hsafe.2
      · rfl
    | outbCmos f => exact Hardware.writeCmos_tick hperiodic fun hb => hsafe hb _
    | inb port =>
      rw [Io.exec, Io.exec, Hardware.inb, Hardware.inb]
      split_ifs with hkeyboard hcmos
      · rfl
      · rw [Hardware.readCmos, Hardware.readCmos, Hardware.cmos_tick]
        split_ifs with ha hb hc
        · rfl
        · rfl
        · rw [hcmos, clockReads_inb hc] at hread
          cases hread
        · rfl
      · rfl
    | call f => rfl

/-! ### Code -/

variable {code : List Io} {t : Hardware}

theorem scancodeReads_cons :
    scancodeReads (i :: code) = scancodeReads [i] + scancodeReads code := by
  rw [scancodeReads, scancodeReads, scancodeReads, ← List.countP_append, List.singleton_append]

theorem clockReads_cons (index : BitVec 8) :
    clockReads index (i :: code) = clockReads index [i] + clockReads (i.select index) code := by
  cases i <;> simp [clockReads]

theorem finish_cons (h : i.exec b = some b') : finish (i :: code) b = finish code b' := by
  rw [finish, List.foldlM_cons, h]
  rfl

/-- A scancode sent before the rest of the code or after it. -/
theorem finish_scan (hsafe : SafeCode b.cmos.index code) (hread : scancodeReads code = 0)
    (s : UInt8) : finish code (b.scan s) = (finish code b).map (Hardware.scan s) := by
  induction code generalizing b with
  | nil => rfl
  | cons i code ih =>
    obtain ⟨hi, hcode⟩ := hsafe
    rw [scancodeReads_cons, Nat.add_eq_zero_iff] at hread
    have hscan := Io.exec_scan hi hread.1 s
    cases h : i.exec b with
    | none =>
      rw [h] at hscan
      rw [finish, finish, List.foldlM_cons, List.foldlM_cons, hscan, h]
      rfl
    | some b' =>
      rw [h] at hscan
      rw [finish_cons hscan, finish_cons h]
      exact ih (by rw [(Io.effect_of_exec hi h).index]; exact hcode) hread.2

/-- A tick before the rest of the code or after it. -/
theorem finish_tick (hsafe : SafeCode b.cmos.index code)
    (hread : clockReads b.cmos.index code = 0) :
    finish code b.tick = (finish code b).map Hardware.tick := by
  induction code generalizing b with
  | nil => rfl
  | cons i code ih =>
    obtain ⟨hi, hcode⟩ := hsafe
    rw [clockReads_cons, Nat.add_eq_zero_iff] at hread
    have htick := Io.exec_tick hi hread.1
    cases h : i.exec b with
    | none =>
      rw [h] at htick
      rw [finish, finish, List.foldlM_cons, List.foldlM_cons, htick, h]
      rfl
    | some b' =>
      rw [h] at htick
      rw [finish_cons htick, finish_cons h]
      have hindex := (Io.effect_of_exec hi h).index
      exact ih (by rw [hindex]; exact hcode) (by rw [hindex]; exact hread.2)

theorem keyboard_finish (hsafe : SafeCode b.cmos.index code) (hread : scancodeReads code = 0)
    (h : finish code b = some t) : t.keyboard = b.keyboard := by
  induction code generalizing b with
  | nil =>
    cases h
    rfl
  | cons i code ih =>
    obtain ⟨hi, hcode⟩ := hsafe
    rw [scancodeReads_cons, Nat.add_eq_zero_iff] at hread
    obtain ⟨b', hb', h⟩ := Option.bind_eq_some_iff.mp h
    have heffect := Io.effect_of_exec hi hb'
    exact (ih (by rw [heffect.index]; exact hcode) hread.2 h).trans (heffect.keyboard hread.1)

end Statements

end Mp3Kernel
