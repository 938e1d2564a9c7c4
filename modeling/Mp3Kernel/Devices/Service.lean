import Mp3Kernel.Console.LineEditor
import Mp3Kernel.Devices.Hardware
import Mp3Kernel.Transition.Run

/-!
# The service of the devices

While no handler runs, no line of the controllers is in service, and exactly the devices that wait
have made a request. The code that runs ends in such a state whatever happens meanwhile, since keys
and ticks commute with its statements.

## Main definitions

* `Change`: a change of the data of the kernel.
* `restingPics`, `Served`: the controllers, and all the devices, while no handler runs.
* `Sound`: the invariant.

## Main results

* `bootCode_eq`, `finish_boot`, `finish_keyboard`, `finish_clock`: the code without keys and ticks.
* `Sound.step`: every step keeps the invariant.
* `devices_served`: every scancode is handled once and in its order, and the processor is offered an
  interrupt as long as a device waits.

Source: `kernel.c`, lines 147–162; `i8259.c`, lines 32–129; `RTC.c`, lines 16–52 and 83–93;
`keyboard.c`, lines 91–95 and 119–178.
-/

namespace Mp3Kernel

open I8259A Transition

/-! ### The code without keys and ticks -/

section Exec

variable {pics : Cascade} {m s c : Chip} {keyboard : KeyboardPort} {cmos : Cmos}
  {index a b prev d : BitVec 8} {p : Bool} {k : KernelData} {f : BitVec 8 → BitVec 8}

theorem exec_masterCommand (h : m.command d = some c) :
    (Io.outb d master8259Port).exec ⟨⟨m, s⟩, keyboard, cmos, prev, k⟩ =
      some ⟨⟨c, s⟩, keyboard, cmos, prev, k⟩ := by
  rw [Io.exec, Hardware.outb, if_pos rfl, h]
  rfl

theorem exec_slaveCommand (h : s.command d = some c) :
    (Io.outb d slave8259Port).exec ⟨⟨m, s⟩, keyboard, cmos, prev, k⟩ =
      some ⟨⟨m, c⟩, keyboard, cmos, prev, k⟩ := by
  show (s.command d).map _ = _
  rw [h]
  rfl

theorem exec_masterData :
    (Io.outb d masterDataPort).exec ⟨⟨m, s⟩, keyboard, cmos, prev, k⟩ =
      some ⟨⟨m.data d, s⟩, keyboard, cmos, prev, k⟩ := rfl

theorem exec_slaveData :
    (Io.outb d slaveDataPort).exec ⟨⟨m, s⟩, keyboard, cmos, prev, k⟩ =
      some ⟨⟨m, s.data d⟩, keyboard, cmos, prev, k⟩ := rfl

theorem exec_rtcCmd :
    (Io.outb d rtcCmd).exec ⟨pics, keyboard, ⟨index, a, b, p⟩, prev, k⟩ =
      some ⟨pics, keyboard, ⟨d, a, b, p⟩, prev, k⟩ := rfl

theorem selects_regA : regA &&& 0x7F = 0x0A := by decide

theorem selects_regB : regB &&& 0x7F = 0x0B := by decide

theorem selects_regC : regC &&& 0x7F = 0x0C := by decide

theorem exec_readA :
    (Io.inb rtcCmos).exec ⟨pics, keyboard, ⟨regA, a, b, p⟩, prev, k⟩ =
      some ⟨pics, keyboard, ⟨regA, a, b, p⟩, a, k⟩ := by
  show Hardware.readCmos _ = _
  rw [Hardware.readCmos, selects_regA]
  rfl

theorem exec_readB :
    (Io.inb rtcCmos).exec ⟨pics, keyboard, ⟨regB, a, b, p⟩, prev, k⟩ =
      some ⟨pics, keyboard, ⟨regB, a, b, p⟩, b, k⟩ := by
  show Hardware.readCmos _ = _
  rw [Hardware.readCmos, selects_regB]
  rfl

theorem exec_readC :
    (Io.inb rtcCmos).exec ⟨pics, keyboard, ⟨regC, a, b, p⟩, prev, k⟩ =
      some ⟨pics, keyboard, ⟨regC, a, b, false⟩, Cmos.c ⟨regC, a, b, p⟩, k⟩ := by
  show Hardware.readCmos _ = _
  rw [Hardware.readCmos, selects_regC, Hardware.setCmos, Cmos.irq, Bool.and_false]
  rfl

theorem exec_writeA :
    (Io.outbCmos f).exec ⟨pics, keyboard, ⟨regA, a, b, p⟩, prev, k⟩ =
      some ⟨pics, keyboard, ⟨regA, f prev, b, p⟩, prev, k⟩ := by
  show Hardware.writeCmos _ _ = _
  rw [Hardware.writeCmos, if_pos selects_regA, Hardware.setCmos, Cmos.irq, Cmos.irq,
    Bool.and_not_self]
  rfl

/-- The interrupts of the clock are enabled: a tick that has come before makes its request. -/
theorem exec_writeB (hb : b.getLsbD 6 = false) (hf : (f prev).getLsbD 6 = true) :
    (Io.outbCmos f).exec ⟨pics, keyboard, ⟨regB, a, b, p⟩, prev, k⟩ =
      some ⟨pics.raiseSlave p 0, keyboard, ⟨regB, a, f prev, p⟩, prev, k⟩ := by
  show Hardware.writeCmos _ _ = _
  have hne : regB &&& 0x7F ≠ 0x0A := by decide
  rw [Hardware.writeCmos, if_neg hne, if_pos selects_regB, Hardware.setCmos, Cmos.irq, Cmos.irq, hb,
    hf, Bool.true_and, Bool.false_and, Bool.not_false, Bool.and_true]

end Exec

theorem masks_i8259Init (s : Pic) :
    s.i8259Init.masterMask = 0xFB#8 ∧ s.i8259Init.slaveMask = 0x00#8 := by
  constructor
  · show 0xFF#8 &&& ~~~Pic.signal 2 &&& ~~~Pic.signal 2 = 0xFB#8
    decide
  · show 0x00#8 &&& ~~~Pic.signal (8 - 8) = 0x00#8
    decide

theorem masks_enableIrq (s : Pic) :
    (s.enableIrq 1#32).masterMask = s.masterMask &&& ~~~Pic.signal 1 ∧
      (s.enableIrq 1#32).slaveMask = s.slaveMask :=
  ⟨rfl, rfl⟩

theorem masks_disableIrq (s : Pic) :
    (s.disableIrq 8#32).masterMask = s.masterMask ∧
      (s.disableIrq 8#32).slaveMask = s.slaveMask ||| Pic.signal 0 :=
  ⟨rfl, rfl⟩

theorem logs_boot : (Pic.enableIrq 1#32 ⟨0xFB#8, 0x00#8, []⟩).log = [(masterDataPort, 0xF9#8)] ∧
    (Pic.disableIrq 8#32 ⟨0xF9#8, 0x00#8, []⟩).log = [(slave8259Port, 0x01#8)] ∧
    (Pic.enableIrq 8#32 ⟨0xF9#8, 0x01#8, []⟩).log =
      [(masterDataPort, 0xF9#8), (slaveDataPort, 0x00#8)] := by
  decide

/-- The code of the boot, with the masks of the controllers. -/
theorem bootCode_eq (s : Pic) : bootCode s =
    [.outb 0xF9#8 masterDataPort, .outb 0x01#8 slave8259Port, .outb regB rtcCmd, .inb rtcCmos,
      .outb regB rtcCmd, .outbCmos (· ||| 0x40#8), .outb regA rtcCmd, .inb rtcCmos,
      .outb regA rtcCmd, .outbCmos fun p => (p &&& 0xF0#8) ||| 0x06#8,
      .outb 0x00#8 slaveDataPort, .outb 0xF9#8 masterDataPort] := by
  have hmaster : 0xFB#8 &&& ~~~Pic.signal 1 = 0xF9#8 := by decide
  have hslave : 0x00#8 ||| Pic.signal 0 = 0x01#8 := by decide
  have hrate : ((getRate 16 1024#32).getD 0).setWidth 8 = 0x06#8 := by decide
  simp only [bootCode, Pic.writes, masks_disableIrq, masks_enableIrq, masks_i8259Init, hmaster,
    hslave, logs_boot, hrate]
  rfl

theorem writes_i8259Init (s : Pic) : Pic.writes Pic.i8259Init s =
    [.outb 0xFF#8 masterDataPort, .outb 0xFF#8 slaveDataPort,
      .outb 0x11#8 master8259Port, .outb 0x20#8 masterDataPort, .outb 0x04#8 masterDataPort,
      .outb 0x01#8 masterDataPort,
      .outb 0x11#8 slave8259Port, .outb 0x28#8 slaveDataPort, .outb 0x02#8 slaveDataPort,
      .outb 0x01#8 slaveDataPort,
      .outb s.masterMask masterDataPort, .outb s.slaveMask slaveDataPort,
      .outb 0xFB#8 masterDataPort, .outb 0x00#8 slaveDataPort,
      .outb 0x00#8 slaveDataPort, .outb 0xFB#8 masterDataPort] := by
  simp [Pic.writes, Pic.i8259Init, Pic.enableIrq, Pic.outb, Pic.signal]

theorem log_sendEoi :
    (Pic.sendEoi 8#32 ⟨0, 0, []⟩).log = [(master8259Port, 0x62#8), (slave8259Port, 0x60#8)] := by
  decide

theorem rtcCode_eq : rtcCode =
    [.outb regC rtcCmd, .inb rtcCmos, .call fun _ k => { k with rtcInterrupt := 1 },
      .outb 0x60#8 slave8259Port, .outb 0x62#8 master8259Port] := by
  rw [rtcCode, Pic.writes, log_sendEoi]
  rfl

/-! ### The invariant -/

/-- A change of the data of the kernel. -/
inductive Change
  /-- A scancode that the handler of the keyboard has read. -/
  | scancode (s : UInt8)
  /-- The handler of the clock. -/
  | clock
  /-- The code that is interrupted. -/
  | main (f : KernelData → KernelData)

namespace Change

/-- The data behind a change. -/
def apply (k : KernelData) : Change → KernelData
  | scancode s => { k with console := k.console.handleKeyboardIrq s }
  | clock => { k with rtcInterrupt := 1 }
  | main f => f k

/-- The scancode handled. -/
def handled : Change → Option UInt8
  | scancode s => some s
  | _ => none

/-- The change of the code that is interrupted. -/
def interrupted : Change → Option (KernelData → KernelData)
  | main f => some f
  | _ => none

end Change

namespace HardwareEvent

/-- The scancode that the keyboard sends. -/
def sent : HardwareEvent → Option UInt8
  | scan s => some s
  | _ => none

/-- The change of the code that is interrupted. -/
def interrupted : HardwareEvent → Option (KernelData → KernelData)
  | main f => some f
  | _ => none

end HardwareEvent

/-- The scancode that waits. -/
def KeyboardPort.waiting (p : KeyboardPort) : List UInt8 := if p.full then [p.data] else []

/-- The controllers while no handler runs: no line is in service, and exactly the devices that wait
have made a request. -/
def restingPics (keyboard clock : Bool) : Cascade where
  master :=
    { stage := .ready
      cascade := true
      needs4 := true
      autoEoi := false
      base := 0x20
      icw3 := 0x04
      imr := 0xF9
      irr := if keyboard then line 1 else 0
      isr := 0 }
  slave :=
    { stage := .ready
      cascade := true
      needs4 := true
      autoEoi := false
      base := 0x28
      icw3 := 0x02
      imr := 0
      irr := if clock then line 0 else 0
      isr := 0 }

/-- What `restingPics` offers the processor: the keyboard first. -/
theorem acknowledge_restingPics (keyboard clock : Bool) :
    (restingPics keyboard clock).acknowledge =
      if keyboard then
        some (0x21#8,
          ⟨(restingPics keyboard clock).master.accept 1, (restingPics keyboard clock).slave⟩)
      else if clock then
        some (0x28#8,
          ⟨(restingPics keyboard clock).master.accept 2,
            (restingPics keyboard clock).slave.accept 0⟩)
      else none := by
  cases keyboard <;> cases clock <;> rfl

/-! ### The handlers and the boot -/

theorem master_eoi_keyboard : ((restingPics true false).master.accept 1).command 0x61#8 =
    some (restingPics false false).master := by
  decide

theorem master_eoi_slave : ((restingPics false true).master.accept 2).command 0x62#8 =
    some (restingPics false false).master := by
  decide

theorem slave_eoi_clock : ((restingPics false true).slave.accept 0).command 0x60#8 =
    some (restingPics false false).slave := by
  decide

/-- The processor is offered an interrupt with a handler exactly when a device waits. -/
theorem offers_restingPics (keyboard clock : Bool) :
    (∃ v pics code, (restingPics keyboard clock).acknowledge = some (v, pics) ∧
      handlerCode v = some code) ↔ keyboard = true ∨ clock = true := by
  rw [acknowledge_restingPics]
  cases keyboard with
  | true => exact iff_of_true ⟨_, _, _, rfl, rfl⟩ (.inl rfl)
  | false =>
    cases clock with
    | true => exact iff_of_true ⟨_, _, _, rfl, rfl⟩ (.inr rfl)
    | false =>
      refine iff_of_false ?_ (by simp)
      rintro ⟨v, pics, code, h, -⟩
      cases h

theorem safeCode_rtc (index : BitVec 8) : SafeCode index rtcCode := by
  rw [rtcCode_eq]
  exact ⟨⟨fun _ => rfl, by decide⟩, trivial, trivial, ⟨fun _ => rfl, by decide⟩,
    ⟨fun _ => rfl, by decide⟩, trivial⟩

theorem scancodeReads_rtc : scancodeReads rtcCode = 0 := by
  rw [rtcCode_eq]
  decide

theorem clockReads_rtc (index : BitVec 8) : clockReads index rtcCode = 1 := by
  rw [rtcCode_eq, clockReads_cons]
  show 0 + clockReads regC _ = 1
  decide

theorem safeCode_boot (s : Pic) (index : BitVec 8) : SafeCode index (bootCode s) := by
  rw [bootCode_eq]
  have hdata {index d : BitVec 8} : Io.Safe index (.outb d masterDataPort) :=
    ⟨fun h => absurd h (by decide), by decide⟩
  have hcmd {index d : BitVec 8} : Io.Safe index (.outb d rtcCmd) :=
    ⟨fun h => absurd h (by decide), by decide⟩
  refine ⟨hdata, ⟨fun _ => rfl, by decide⟩, hcmd, trivial, hcmd, fun _ p => ?_, hcmd, trivial, hcmd,
    fun h => ?_, ⟨fun h => absurd h (by decide), by decide⟩, hdata, trivial⟩
  · rw [BitVec.getLsbD_or]
    exact Bool.or_true _
  · have hne : regA &&& 0x7F ≠ 0x0B := by decide
    exact absurd h hne

theorem scancodeReads_boot (s : Pic) : scancodeReads (bootCode s) = 0 := by
  rw [bootCode_eq]
  decide

theorem clockReads_boot (s : Pic) (index : BitVec 8) : clockReads index (bootCode s) = 0 := by
  rw [bootCode_eq, clockReads_cons, clockReads_cons, clockReads_cons]
  show 0 + (0 + (0 + clockReads regB _)) = 0
  decide

section Runs

variable {keyboard : KeyboardPort} {cmos : Cmos} {index a b prev : BitVec 8} {k : KernelData}

theorem finish_keyboard (clock : Bool) (data : UInt8) :
    finish keyboardCode
        ⟨⟨(restingPics true clock).master.accept 1, (restingPics true clock).slave⟩, ⟨true, data⟩,
          cmos, prev, k⟩ =
      some ⟨restingPics false clock, ⟨false, data⟩, cmos, data.toBitVec,
        Change.apply k (.scancode data)⟩ :=
  (finish_cons (exec_masterCommand master_eoi_keyboard)).trans rfl

theorem finish_clock :
    finish rtcCode
        ⟨⟨(restingPics false true).master.accept 2, (restingPics false true).slave.accept 0⟩,
          keyboard, ⟨index, a, b, true⟩, prev, k⟩ =
      some ⟨restingPics false false, keyboard, ⟨regC, a, b, false⟩, Cmos.c ⟨regC, a, b, true⟩,
        Change.apply k .clock⟩ := by
  rw [rtcCode_eq, finish_cons exec_rtcCmd, finish_cons exec_readC]
  refine (finish_cons rfl).trans ?_
  exact (finish_cons (exec_slaveCommand slave_eoi_clock)).trans
    (finish_cons (exec_masterCommand master_eoi_slave))

/-- `i8259_init`, whatever state the controllers are in. -/
theorem finish_i8259Init (s : Pic) (pics : Cascade) :
    finish (Pic.writes Pic.i8259Init s) ⟨pics, keyboard, cmos, prev, k⟩ =
      some ⟨{ restingPics false false with
        master := (restingPics false false).master.data 0xFB#8 }, keyboard, cmos, prev, k⟩ := by
  obtain ⟨m, s'⟩ := pics
  have hmaster := (m.data 0xFF#8).initialised 0x20#8 0x04#8
  have hslave := (s'.data 0xFF#8).initialised 0x28#8 0x02#8
  obtain ⟨m₁, hm₁, hm⟩ := Option.map_eq_some_iff.mp hmaster
  obtain ⟨s₁, hs₁, hs⟩ := Option.map_eq_some_iff.mp hslave
  rw [writes_i8259Init, finish_cons exec_masterData, finish_cons exec_slaveData,
    finish_cons (exec_masterCommand hm₁), finish_cons exec_masterData, finish_cons exec_masterData,
    finish_cons exec_masterData, finish_cons (exec_slaveCommand hs₁), finish_cons exec_slaveData,
    finish_cons exec_slaveData, finish_cons exec_slaveData, hm, hs, finish_cons exec_masterData,
    finish_cons exec_slaveData, finish_cons exec_masterData, finish_cons exec_slaveData,
    finish_cons exec_slaveData, finish_cons exec_masterData]
  rfl

/-- The rest of the boot. -/
theorem finish_boot (s : Pic) (clock : Bool) (hb : b.getLsbD 6 = false) :
    finish (bootCode s)
        ⟨{ restingPics false false with
          master := (restingPics false false).master.data 0xFB#8 }, keyboard, ⟨index, a, b, clock⟩,
          prev, k⟩ =
      some ⟨restingPics false clock, keyboard,
        ⟨regA, (a &&& 0xF0#8) ||| 0x06#8, b ||| 0x40#8, clock⟩, a, k⟩ := by
  have hpie : (b ||| 0x40#8).getLsbD 6 = true := by
    rw [BitVec.getLsbD_or]
    exact Bool.or_true _
  rw [bootCode_eq, finish_cons exec_masterData, finish_cons (exec_slaveCommand rfl),
    finish_cons exec_rtcCmd, finish_cons exec_readB, finish_cons exec_rtcCmd,
    finish_cons (exec_writeB (f := (· ||| 0x40#8)) hb hpie), finish_cons exec_rtcCmd,
    finish_cons exec_readA, finish_cons exec_rtcCmd, finish_cons exec_writeA]
  cases clock
  · exact (finish_cons exec_slaveData).trans (finish_cons exec_masterData)
  · exact (finish_cons exec_slaveData).trans (finish_cons exec_masterData)

end Runs

/-! ### The steps -/

/-- The devices while no handler runs, and the changes of the data since `k`: the scancodes sent
have been handled once, in their order, up to the one that waits. -/
structure Served (k : KernelData) (as : List HardwareEvent) (b : Hardware) : Prop where
  pics : b.pics = restingPics b.keyboard.full b.cmos.periodic
  enabled : b.cmos.b.getLsbD 6 = true
  changes : ∃ l : List Change, b.kernel = l.foldl Change.apply k ∧
    as.filterMap HardwareEvent.sent = l.filterMap Change.handled ++ b.keyboard.waiting ∧
    as.filterMap HardwareEvent.interrupted = l.filterMap Change.interrupted

/-- The code that runs reads only what waits, and ends with the devices at rest. -/
structure Sound (k : KernelData) (x : Hardware × List Io) (as : List HardwareEvent) : Prop where
  safe : SafeCode x.1.cmos.index x.2
  keyboard : scancodeReads x.2 ≤ x.1.keyboard.full.toNat
  clock : clockReads x.1.cmos.index x.2 ≤ x.1.cmos.periodic.toNat
  ends : ∃ t, finish x.2 x.1 = some t ∧ Served k as t

section Steps

variable {k : KernelData} {as : List HardwareEvent} {b b' : Hardware}

/-- One more event, and the changes that it brings. -/
theorem Served.append {a : HardwareEvent} (h : Served k as b) (l : List Change)
    (hpics : b'.pics = restingPics b'.keyboard.full b'.cmos.periodic)
    (henabled : b'.cmos.b.getLsbD 6 = true) (hkernel : b'.kernel = l.foldl Change.apply b.kernel)
    (hsent : b.keyboard.waiting ++ [a].filterMap HardwareEvent.sent =
      l.filterMap Change.handled ++ b'.keyboard.waiting)
    (hmain : [a].filterMap HardwareEvent.interrupted = l.filterMap Change.interrupted) :
    Served k (as ++ [a]) b' where
  pics := hpics
  enabled := henabled
  changes := by
    obtain ⟨l₀, hk, hl, hl'⟩ := h.changes
    refine ⟨l₀ ++ l, ?_, ?_, ?_⟩
    · rw [List.foldl_append, ← hk, hkernel]
    · rw [List.filterMap_append, List.filterMap_append, hl, List.append_assoc, List.append_assoc,
        hsent]
    · rw [List.filterMap_append, List.filterMap_append, hl', hmain]

/-- An event after which the devices are as they were. -/
theorem Served.silent {a : HardwareEvent} (h : Served k as b) (hsent : a.sent = none)
    (hmain : a.interrupted = none) : Served k (as ++ [a]) b := by
  refine h.append [] h.pics h.enabled rfl ?_ (List.filterMap_cons_none hmain)
  rw [List.filterMap_cons_none hsent]
  exact List.append_nil _

theorem Served.scan (h : Served k as b) (hfull : b.keyboard.full = false) (s : UInt8) :
    Served k (as ++ [.scan s]) (b.scan s) := by
  refine h.append [] ?_ h.enabled rfl ?_ rfl
  · have hpics : (b.scan s).pics = { b.pics with master := b.pics.master.raise 1 } := rfl
    rw [hpics, h.pics, hfull]
    show _ = restingPics true b.cmos.periodic
    cases b.cmos.periodic <;> rfl
  · rw [KeyboardPort.waiting, hfull]
    rfl

theorem Served.tick (h : Served k as b) : Served k (as ++ [.tick]) b.tick := by
  refine h.append [] ?_ h.enabled rfl (List.append_nil _) rfl
  rw [Hardware.pics_tick, Hardware.requests, h.pics, Hardware.cmos_tick, Cmos.irq, Cmos.irq,
    h.enabled]
  show _ = restingPics b.keyboard.full true
  cases b.keyboard.full <;> cases b.cmos.periodic <;> rfl

theorem Served.main (h : Served k as b) (f : KernelData → KernelData) :
    Served k (as ++ [.main f]) { b with kernel := f b.kernel } :=
  h.append [.main f] h.pics h.enabled rfl (List.append_nil _) rfl

/-- The handler of the keyboard. -/
theorem Served.keyboard {data : UInt8} {clock : Bool} {cmos : Cmos} {prev : BitVec 8}
    {d : KernelData} (h : Served k as ⟨restingPics true clock, ⟨true, data⟩, cmos, prev, d⟩) :
    Served k (as ++ [.take]) ⟨restingPics false cmos.periodic, ⟨false, data⟩, cmos, data.toBitVec,
      Change.apply d (.scancode data)⟩ :=
  h.append [.scancode data] rfl h.enabled rfl rfl rfl

/-- The handler of the clock. -/
theorem Served.clock {keyboard : KeyboardPort} {pics : Cascade} {index index' a b prev : BitVec 8}
    {d : KernelData} (hfull : keyboard.full = false)
    (h : Served k as ⟨pics, keyboard, ⟨index, a, b, true⟩, prev, d⟩) (prev' : BitVec 8) :
    Served k (as ++ [.take]) ⟨restingPics false false, keyboard, ⟨index', a, b, false⟩, prev',
      Change.apply d .clock⟩ :=
  h.append [.clock] (by rw [hfull]) h.enabled rfl (List.append_nil _) rfl

/-- An interrupt that the processor takes. -/
theorem Served.take {v : BitVec 8} {pics : Cascade} {code : List Io} (h : Served k as b)
    (hack : b.pics.acknowledge = some (v, pics)) (hcode : handlerCode v = some code) :
    Sound k ({ b with pics := pics }, code) (as ++ [.take]) := by
  obtain ⟨pics₀, ⟨full, data⟩, ⟨index, a, breg, periodic⟩, prev, d⟩ := b
  obtain rfl : pics₀ = restingPics full periodic := h.pics
  rw [acknowledge_restingPics] at hack
  cases full with
  | true =>
    obtain ⟨rfl, rfl⟩ : 0x21#8 = v ∧ _ = pics := Prod.mk.inj (Option.some.inj hack)
    obtain rfl : keyboardCode = code := Option.some.inj hcode
    exact
      { safe := ⟨⟨fun _ => rfl, by decide⟩, trivial, trivial, trivial⟩
        keyboard := Nat.le_of_ble_eq_true rfl
        clock := Nat.zero_le _
        ends := ⟨_, finish_keyboard periodic data, h.keyboard⟩ }
  | false =>
    cases periodic with
    | true =>
      obtain ⟨rfl, rfl⟩ : 0x28#8 = v ∧ _ = pics := Prod.mk.inj (Option.some.inj hack)
      obtain rfl : rtcCode = code := Option.some.inj hcode
      exact
        { safe := safeCode_rtc index
          keyboard := scancodeReads_rtc.le
          clock := (clockReads_rtc index).le
          ends := ⟨_, finish_clock, h.clock rfl _⟩ }
    | false => cases hack

end Steps

/-- **Every step keeps the invariant.** -/
theorem Sound.step {k : KernelData} {as : List HardwareEvent} {x y : Hardware × List Io}
    {a : HardwareEvent} (h : Sound k x as) (hs : HardwareStep x a y) : Sound k y (as ++ [a]) := by
  obtain ⟨hsafe, hscancode, hclock, t, ht, hserved⟩ := h
  cases hs with
  | @io b b' i code hi =>
    obtain ⟨hisafe, hcode⟩ := hsafe
    have heffect := Io.effect_of_exec hisafe hi
    have hscancode : scancodeReads [i] + scancodeReads code ≤ b.keyboard.full.toNat :=
      scancodeReads_cons.symm.trans_le hscancode
    have hclock : clockReads b.cmos.index [i] + clockReads (i.select b.cmos.index) code ≤
        b.cmos.periodic.toNat := (clockReads_cons b.cmos.index).symm.trans_le hclock
    rw [finish_cons hi] at ht
    refine ⟨?_, ?_, ?_, t, ht, hserved.silent rfl rfl⟩
    · rw [heffect.index]
      exact hcode
    · by_cases hread : scancodeReads [i] = 0
      · rw [heffect.keyboard hread]
        exact (Nat.le_add_left ..).trans hscancode
      · -- The scancode has been read, and is not read again.
        have hle := hscancode.trans (Bool.toNat_le _)
        have hcode : scancodeReads code = 0 := by omega
        exact hcode.trans_le (Nat.zero_le _)
    · rw [heffect.index]
      by_cases hread : clockReads b.cmos.index [i] = 0
      · rw [heffect.periodic hread]
        exact (Nat.le_add_left ..).trans hclock
      · have hle := hclock.trans (Bool.toNat_le _)
        have hcode : clockReads (i.select b.cmos.index) code = 0 := by omega
        exact hcode.trans_le (Nat.zero_le _)
  | take hack hcode =>
    cases ht
    exact hserved.take hack hcode
  | @scan b code s hfull =>
    -- The code that runs does not read a scancode any more: it ends as if the key came behind it.
    have hread : scancodeReads code = 0 := by
      rw [hfull] at hscancode
      exact Nat.le_zero.mp hscancode
    have htfull : t.keyboard.full = false := by
      rw [keyboard_finish hsafe hread ht]
      exact hfull
    refine ⟨hsafe, ?_, hclock, t.scan s, ?_, hserved.scan htfull s⟩
    · rw [hread]
      exact Nat.zero_le _
    · rw [finish_scan hsafe hread, ht]
      rfl
  | @tick b code =>
    cases hperiodic : b.cmos.periodic with
    | true =>
      rw [Hardware.tick_of_periodic hperiodic]
      exact ⟨hsafe, hscancode, hclock, t, ht, hserved.silent rfl rfl⟩
    | false =>
      have hread : clockReads b.cmos.index code = 0 := by
        rw [hperiodic] at hclock
        exact Nat.le_zero.mp hclock
      refine ⟨hsafe, hscancode, ?_, t.tick, ?_, hserved.tick⟩
      · rw [Hardware.cmos_tick, hread]
        exact Nat.zero_le _
      · rw [finish_tick hsafe hread, ht]
        rfl
  | main f =>
    cases ht
    exact ⟨trivial, Nat.zero_le _, Nat.zero_le _, _, rfl, hserved.main f⟩

/-- The code that runs can be run to its end. -/
theorem run_of_finish {code : List Io} {b t : Hardware} (h : finish code b = some t) :
    ∃ as, Run HardwareStep (b, code) as (t, []) ∧ as.filterMap HardwareEvent.sent = [] := by
  induction code generalizing b with
  | nil =>
    cases h
    exact ⟨[], .nil _, rfl⟩
  | cons i code ih =>
    obtain ⟨b', hb', h⟩ := Option.bind_eq_some_iff.mp h
    obtain ⟨as, hrun, hsent⟩ := ih h
    exact ⟨.io :: as, .cons (.io hb') hrun, hsent⟩

/-- The devices before `i8259_init`: the keyboard is empty, and the interrupts of the clock are
disabled. -/
structure PowerOn (b : Hardware) : Prop where
  keyboard : b.keyboard.full = false
  clock : b.cmos.b.getLsbD 6 = false

/-- The invariant holds behind `i8259_init`. -/
theorem sound_boot {s : Pic} {b₀ b : Hardware} (hpower : PowerOn b₀)
    (hinit : finish (Pic.writes Pic.i8259Init s) b₀ = some b) :
    Sound b₀.kernel (b, bootCode s) [] := by
  obtain ⟨pics, ⟨full, data⟩, ⟨index, a, breg, periodic⟩, prev, k⟩ := b₀
  obtain rfl : full = false := hpower.keyboard
  rw [finish_i8259Init] at hinit
  cases hinit
  refine ⟨safeCode_boot s index, (scancodeReads_boot s).le, ?_, _,
    finish_boot s periodic hpower.clock, ⟨rfl, ?_, [], rfl, rfl, rfl⟩⟩
  · rw [clockReads_boot]
    exact Nat.zero_le _
  · rw [BitVec.getLsbD_or]
    exact Bool.or_true _

/-- **The devices are served.** After `i8259_init` and whatever follows it, the code that runs can
be run to its end. Behind it every scancode sent has been handled once and in its order, up to the
one that waits; no line is in service; and the processor is offered an interrupt with a handler
exactly when a device waits. -/
theorem devices_served {s : Pic} {b₀ b b' : Hardware} {as : List HardwareEvent} {code : List Io}
    (hpower : PowerOn b₀) (hinit : finish (Pic.writes Pic.i8259Init s) b₀ = some b)
    (h : Run HardwareStep (b, bootCode s) as (b', code)) :
    ∃ t, finish code b' = some t ∧ Served b₀.kernel as t ∧
      ((∃ v pics code, t.pics.acknowledge = some (v, pics) ∧ handlerCode v = some code) ↔
        t.keyboard.full = true ∨ t.cmos.periodic = true) := by
  obtain ⟨t, ht, hserved⟩ :=
    (h.trace_invariant (fun _ _ _ _ => Sound.step) (sound_boot hpower hinit)).ends
  refine ⟨t, ht, hserved, ?_⟩
  rw [hserved.pics]
  exact offers_restingPics _ _

/-- Devices for the samples: the clock has ticked. -/
def sampleHardware : Hardware :=
  ⟨restingPics true true, ⟨false, 0⟩, ⟨0, 0x26, 0x02, true⟩, 0, ⟨bootConsole, 0⟩⟩

/-- The boot, and behind it a key. -/
theorem exists_run_sampleHardware : ∃ b as t,
    finish (Pic.writes Pic.i8259Init ⟨0, 0, []⟩) sampleHardware = some b ∧
      Run HardwareStep (b, bootCode ⟨0, 0, []⟩) as (t, keyboardCode) ∧
      as.filterMap HardwareEvent.sent = [0x1E] := by
  let pics : Cascade := { restingPics false false with
    master := (restingPics false false).master.data 0xFB#8 }
  obtain ⟨as, hrun, hsent⟩ := run_of_finish (b := { sampleHardware with pics := pics })
    (finish_boot ⟨0, 0, []⟩ true rfl)
  refine ⟨_, as ++ [.scan 0x1E, .take], _, finish_i8259Init _ _,
    hrun.append (.cons (.scan 0x1E rfl) (.single (.take rfl rfl))), ?_⟩
  rw [List.filterMap_append, hsent]
  rfl

theorem devices_served_sample : ∃ b as t,
    Run HardwareStep (b, bootCode ⟨0, 0, []⟩) as (t, keyboardCode) ∧
      as.filterMap HardwareEvent.sent = [0x1E] ∧
      ∃ t', finish keyboardCode t = some t' ∧ Served sampleHardware.kernel as t' ∧
        ((∃ v pics code, t'.pics.acknowledge = some (v, pics) ∧ handlerCode v = some code) ↔
          t'.keyboard.full = true ∨ t'.cmos.periodic = true) := by
  obtain ⟨b, as, t, hinit, hrun, hsent⟩ := exists_run_sampleHardware
  exact ⟨b, as, t, hrun, hsent, devices_served ⟨rfl, rfl⟩ hinit hrun⟩

end Mp3Kernel
