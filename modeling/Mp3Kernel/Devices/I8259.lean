import Mathlib.Data.List.Induction
import Mathlib.Tactic.Common

/-!
# The interrupt controllers

The driver keeps a copy of the mask of each controller, and writes the copy to the data port of the
controller whenever it changes. What it writes is recorded in a log.

When a line of the slave is disabled, the mask goes to the command port instead.

## Main definitions

* `Pic`: the copies of the masks, and the log of the bytes written.
* `Pic.i8259Init`, `Pic.enableIrq`, `Pic.disableIrq`, `Pic.sendEoi`: the driver.
* `latestRequest`: whether the last request for a line enabled it.
* `Pic.Agrees`: the masks in the controllers are the copies, and no command port is written.

## Main results

* `agrees_iff`: after the initialisation and any calls, the controllers agree with the copies
  exactly when no call has disabled a line of the slave.
* `disable_rtc`: a call that disables the line of the real-time clock.

Source: `i8259.c`, lines 32–129.
-/

namespace Mp3Kernel

/-! ### The driver -/

/-- `MASTER_8259_PORT`. -/
def master8259Port : BitVec 16 := 0x20

/-- `SLAVE_8259_PORT`. -/
def slave8259Port : BitVec 16 := 0xA0

/-- `MASTER_8259_PORT+1`. -/
def masterDataPort : BitVec 16 := master8259Port + 1

/-- `SLAVE_8259_PORT+1`. -/
def slaveDataPort : BitVec 16 := slave8259Port + 1

/-- The driver of the controllers. -/
structure Pic where
  /-- `master_mask`. -/
  masterMask : BitVec 8
  /-- `slave_mask`. -/
  slaveMask : BitVec 8
  /-- The ports and the bytes written to them, the last first. -/
  log : List (BitVec 16 × BitVec 8)

namespace Pic

/-- `outb(data, port)`. -/
def outb (data : BitVec 8) (port : BitVec 16) (s : Pic) : Pic :=
  { s with log := (port, data) :: s.log }

/-- The mask with only the bit of a line, `1 << line`. -/
def signal (line : ℕ) : BitVec 8 := 1#8 <<< line

/-- `void enable_irq(uint32_t irq_num)`. -/
def enableIrq (irqNum : BitVec 32) (s : Pic) : Pic :=
  if 15#32 < irqNum then s
  else if irqNum ≤ 7#32 then
    let s := { s with masterMask := s.masterMask &&& ~~~signal irqNum.toNat }
    let s := s.outb s.masterMask masterDataPort
    if irqNum = 2#32 then
      let s := { s with slaveMask := 0 }
      s.outb s.slaveMask slaveDataPort
    else s
  else
    let s := { s with slaveMask := s.slaveMask &&& ~~~signal (irqNum.toNat - 8) }
    let s := s.outb s.slaveMask slaveDataPort
    let s := { s with masterMask := s.masterMask &&& ~~~signal 2 }
    s.outb s.masterMask masterDataPort

/-- `void disable_irq(uint32_t irq_num)`. The mask of the slave goes to its command port. -/
def disableIrq (irqNum : BitVec 32) (s : Pic) : Pic :=
  if 15#32 < irqNum then s
  else if irqNum ≤ 7#32 then
    let s := { s with masterMask := s.masterMask ||| signal irqNum.toNat }
    let s := s.outb s.masterMask masterDataPort
    if irqNum = 2#32 then
      let s := { s with slaveMask := 0xFF }
      s.outb s.slaveMask slaveDataPort
    else s
  else
    let s := { s with slaveMask := s.slaveMask ||| signal (irqNum.toNat - 8) }
    s.outb s.slaveMask slave8259Port

/-- `EOI`. -/
def eoi : BitVec 32 := 0x60

/-- `void send_eoi(uint32_t irq_num)`. Line 2 takes the branch of the slave, where the number minus
eight wraps. -/
def sendEoi (irqNum : BitVec 32) (s : Pic) : Pic :=
  if 15#32 < irqNum then s
  else if irqNum ≤ 7#32 ∧ irqNum ≠ 2#32 then
    s.outb ((irqNum ||| eoi).setWidth 8) master8259Port
  else
    let s := s.outb (((irqNum - 8#32) ||| eoi).setWidth 8) slave8259Port
    s.outb ((2#32 ||| eoi).setWidth 8) master8259Port

/-- `void i8259_init(void)`. -/
def i8259Init (s : Pic) : Pic :=
  let s := (s.outb 0xFF masterDataPort).outb 0xFF slaveDataPort
  let s := (((s.outb 0x11 master8259Port).outb 0x20 masterDataPort).outb 0x04 masterDataPort).outb
    0x01 masterDataPort
  let s := (((s.outb 0x11 slave8259Port).outb 0x28 slaveDataPort).outb 0x02 slaveDataPort).outb
    0x01 slaveDataPort
  let s := (s.outb s.masterMask masterDataPort).outb s.slaveMask slaveDataPort
  let s := { s with masterMask := 0xFF, slaveMask := 0xFF }
  (s.enableIrq 2#32).enableIrq 8#32

end Pic

/-! ### The calls -/

/-- A request for a line. -/
inductive IrqCall where
  /-- `enable_irq(irq_num)`. -/
  | enable (irqNum : BitVec 32)
  /-- `disable_irq(irq_num)`. -/
  | disable (irqNum : BitVec 32)
  deriving DecidableEq

namespace IrqCall

/-- The line. -/
def irqNum : IrqCall → BitVec 32
  | enable n => n
  | disable n => n

/-- The call. -/
def run (s : Pic) : IrqCall → Pic
  | enable n => s.enableIrq n
  | disable n => s.disableIrq n

/-- The call is a request for the line: it names the line itself, or line 2, through which all lines
of the slave come. -/
def Concerns (line : ℕ) (c : IrqCall) : Prop := c.irqNum.toNat = line ∨ c.irqNum = 2#32

instance (line : ℕ) (c : IrqCall) : Decidable (c.Concerns line) :=
  inferInstanceAs (Decidable (_ ∨ _))

/-- The call enables its line. -/
def enables : IrqCall → Bool
  | enable _ => true
  | disable _ => false

/-- The call disables a line of the slave. -/
def DisablesSlave : IrqCall → Prop
  | enable _ => False
  | disable n => 8#32 ≤ n ∧ n ≤ 15#32

instance (c : IrqCall) : Decidable c.DisablesSlave :=
  match c with
  | enable _ => inferInstanceAs (Decidable False)
  | disable _ => inferInstanceAs (Decidable (_ ∧ _))

end IrqCall

/-- Whether the last request for a line of the slave enabled it, when there was one. -/
def latestRequest (line : ℕ) (calls : List IrqCall) : Option Bool :=
  calls.foldl (fun r c => if c.Concerns line then some c.enables else r) none

namespace Pic

/-- The number of bytes written to a command port. -/
def commandWrites (s : Pic) : ℕ :=
  s.log.countP fun w => w.1 = master8259Port ∨ w.1 = slave8259Port

/-- After the initialisation of `s₀` and the calls, the driver agrees with the controllers. -/
structure Agrees (s₀ : Pic) (calls : List IrqCall) (s : Pic) : Prop where
  /-- The last byte written to the data port of the master. -/
  master : s.log.lookup masterDataPort = some s.masterMask
  /-- The last byte written to the data port of the slave. -/
  slave : s.log.lookup slaveDataPort = some s.slaveMask
  /-- No call has written to a command port. -/
  command : s.commandWrites = s₀.i8259Init.commandWrites
  /-- A line of the slave whose last request disabled it is masked in the controller. -/
  masked : ∀ line, 8 ≤ line → line ≤ 15 → latestRequest line calls = some false →
    ∃ mask : BitVec 8, s.log.lookup slaveDataPort = some mask ∧ mask.getLsbD (line - 8) = true

end Pic

/-! ### The copies of the masks -/

theorem eight_le_iff {n : BitVec 32} : 8#32 ≤ n ↔ ¬ n ≤ 7#32 := by
  simp only [BitVec.le_def, BitVec.toNat_ofNat]
  omega

namespace Pic

/-- The last bytes written to the data ports are the copies. -/
structure Synced (s : Pic) : Prop where
  /-- The master. -/
  master : s.log.lookup masterDataPort = some s.masterMask
  /-- The slave. -/
  slave : s.log.lookup slaveDataPort = some s.slaveMask

variable {s : Pic}

/-- The mask of the master is changed and written. -/
theorem Synced.setMaster (h : s.Synced) (mask : BitVec 8) :
    (outb mask masterDataPort { s with masterMask := mask }).Synced :=
  ⟨rfl, h.slave⟩

/-- The mask of the slave is changed and written. -/
theorem Synced.setSlave (h : s.Synced) (mask : BitVec 8) :
    (outb mask slaveDataPort { s with slaveMask := mask }).Synced :=
  ⟨h.master, rfl⟩

theorem synced_i8259Init (s : Pic) : s.i8259Init.Synced := ⟨rfl, rfl⟩

theorem Synced.enableIrq (h : s.Synced) (n : BitVec 32) : (s.enableIrq n).Synced := by
  rw [Pic.enableIrq]
  split_ifs with h15 h7 h2
  · exact h
  · exact (h.setMaster _).setSlave 0
  · exact h.setMaster _
  · exact (h.setSlave _).setMaster _

/-- A call that disables a line of the master, or the slave as a whole. -/
theorem Synced.disableIrq (h : s.Synced) {n : BitVec 32} (hn : n ≤ 7#32 ∨ 15#32 < n) :
    (s.disableIrq n).Synced := by
  rw [Pic.disableIrq]
  split_ifs with h15 h7 h2
  · exact h
  · exact (h.setMaster _).setSlave 0xFF
  · exact h.setMaster _
  · exact absurd hn (not_or.mpr ⟨h7, h15⟩)

/-- The bits of a mask that a line does not have stay when the bit of the line is cleared. -/
theorem getLsbD_and_not_signal (mask : BitVec 8) {k j : ℕ} (hj : j < 8) (h : j ≠ k) :
    (mask &&& ~~~signal k).getLsbD j = mask.getLsbD j := by
  have hbit : (signal k).getLsbD j = false := by
    simp only [signal, BitVec.getLsbD_shiftLeft, BitVec.getLsbD_one, Bool.and_eq_false_iff]
    by_cases hlt : j < k
    · simp [hlt]
    · have hpos : j - k ≠ 0 := by omega
      simp [hpos]
  rw [BitVec.getLsbD_and, BitVec.getLsbD_not, hbit]
  simp [hj]

/-- Enabling another line leaves the bit of a line alone, unless it is line 2. -/
theorem getLsbD_slaveMask_enableIrq (s : Pic) {n : BitVec 32} {line : ℕ} (h8 : 8 ≤ line)
    (hle : line ≤ 15) (hline : n.toNat ≠ line) (h2 : n ≠ 2#32) :
    (s.enableIrq n).slaveMask.getLsbD (line - 8) = s.slaveMask.getLsbD (line - 8) := by
  rw [Pic.enableIrq]
  split_ifs with h15 h7
  · rfl
  · rfl
  · have hn : 7 < n.toNat := BitVec.lt_def.mp (BitVec.not_le.mp h7)
    exact getLsbD_and_not_signal _ (by omega) (by omega)

/-- Disabling a line of the master leaves the mask of the slave alone, unless it is line 2. -/
theorem slaveMask_disableIrq (s : Pic) {n : BitVec 32} (hn : n ≤ 7#32 ∨ 15#32 < n)
    (h2 : n ≠ 2#32) : (s.disableIrq n).slaveMask = s.slaveMask := by
  rw [Pic.disableIrq]
  split_ifs with h15 h7
  · rfl
  · rfl
  · exact absurd hn (not_or.mpr ⟨h7, h15⟩)

/-- A byte written to a port. -/
theorem commandWrites_outb (s : Pic) (data : BitVec 8) (port : BitVec 16) :
    (s.outb data port).commandWrites =
      s.commandWrites + if port = master8259Port ∨ port = slave8259Port then 1 else 0 := by
  rw [commandWrites, outb, List.countP_cons]
  simp only [decide_eq_true_eq]
  rfl

@[simp] theorem commandWrites_outb_masterDataPort (s : Pic) (data : BitVec 8) :
    (s.outb data masterDataPort).commandWrites = s.commandWrites :=
  s.commandWrites_outb data masterDataPort

@[simp] theorem commandWrites_outb_slaveDataPort (s : Pic) (data : BitVec 8) :
    (s.outb data slaveDataPort).commandWrites = s.commandWrites :=
  s.commandWrites_outb data slaveDataPort

@[simp] theorem commandWrites_outb_slave8259Port (s : Pic) (data : BitVec 8) :
    (s.outb data slave8259Port).commandWrites = s.commandWrites + 1 :=
  s.commandWrites_outb data slave8259Port

theorem commandWrites_enableIrq (s : Pic) (n : BitVec 32) :
    (s.enableIrq n).commandWrites = s.commandWrites := by
  rw [Pic.enableIrq]
  split_ifs
  · rfl
  · simp
    rfl
  · simp
    rfl
  · simp
    rfl

theorem commandWrites_disableIrq (s : Pic) (n : BitVec 32) : (s.disableIrq n).commandWrites =
    s.commandWrites + if 8#32 ≤ n ∧ n ≤ 15#32 then 1 else 0 := by
  rw [Pic.disableIrq]
  by_cases h15 : 15#32 < n
  · rw [if_pos h15, if_neg fun h => BitVec.not_lt.mpr h.2 h15]
    rfl
  · rw [if_neg h15]
    by_cases h7 : n ≤ 7#32
    · have hnot : ¬ (8#32 ≤ n ∧ n ≤ 15#32) := fun h => eight_le_iff.mp h.1 h7
      rw [if_pos h7, if_neg hnot]
      split_ifs
      · simp
        rfl
      · simp
        rfl
    · rw [if_neg h7, if_pos ⟨eight_le_iff.mpr h7, BitVec.not_lt.mp h15⟩]
      simp
      rfl

end Pic

namespace IrqCall

variable {s : Pic} {c : IrqCall}

/-- A call that does not disable a line of the slave is for the master, or invalid. -/
theorem le_or_lt_of_not_disablesSlave {n : BitVec 32} (hc : ¬ (disable n).DisablesSlave) :
    n ≤ 7#32 ∨ 15#32 < n := by
  by_contra hn
  obtain ⟨h7, h15⟩ := not_or.mp hn
  exact hc ⟨eight_le_iff.mpr h7, BitVec.not_lt.mp h15⟩

/-- A call that does not disable a line of the slave keeps the copies and the controllers in step.
-/
theorem synced_run (h : s.Synced) (hc : ¬ c.DisablesSlave) : (c.run s).Synced := by
  cases c with
  | enable n => exact h.enableIrq n
  | disable n => exact h.disableIrq (le_or_lt_of_not_disablesSlave hc)

/-- Only a call that disables a line of the slave writes to a command port. -/
theorem commandWrites_run (s : Pic) (c : IrqCall) :
    (c.run s).commandWrites = s.commandWrites + if c.DisablesSlave then 1 else 0 := by
  cases c with
  | enable n => exact s.commandWrites_enableIrq n
  | disable n => exact s.commandWrites_disableIrq n

theorem commandWrites_foldl (s : Pic) (calls : List IrqCall) :
    (calls.foldl run s).commandWrites = s.commandWrites + calls.countP (DisablesSlave ·) := by
  induction calls generalizing s with
  | nil => rfl
  | cons c calls ih =>
    rw [List.foldl_cons, ih, commandWrites_run, List.countP_cons]
    simp only [decide_eq_true_eq]
    omega

end IrqCall

/-! ### The lines of the slave -/

/-- A line of the slave whose last request disabled it is masked in the copy. -/
def MaskedLatest (calls : List IrqCall) (s : Pic) : Prop :=
  ∀ line, 8 ≤ line → line ≤ 15 → latestRequest line calls = some false →
    s.slaveMask.getLsbD (line - 8) = true

theorem latestRequest_append (line : ℕ) (calls : List IrqCall) (c : IrqCall) :
    latestRequest line (calls ++ [c]) =
      if c.Concerns line then some c.enables else latestRequest line calls := by
  rw [latestRequest, List.foldl_append]
  rfl

/-- The step lemma: a call that does not disable a line of the slave by itself. -/
theorem MaskedLatest.run {calls : List IrqCall} {s : Pic} (h : MaskedLatest calls s) {c : IrqCall}
    (hc : ¬ c.DisablesSlave) : MaskedLatest (calls ++ [c]) (c.run s) := by
  intro line h8 h15 hlatest
  rw [latestRequest_append] at hlatest
  cases c with
  | enable n =>
    by_cases hn : (IrqCall.enable n).Concerns line
    · rw [if_pos hn] at hlatest
      cases hlatest
    · rw [if_neg hn] at hlatest
      obtain ⟨hline, h2⟩ := not_or.mp hn
      exact (s.getLsbD_slaveMask_enableIrq h8 h15 hline h2).trans (h line h8 h15 hlatest)
  | disable n =>
    have hmaster := IrqCall.le_or_lt_of_not_disablesSlave hc
    by_cases h2 : n = 2#32
    · subst h2
      have hmask : (s.disableIrq 2#32).slaveMask = 0xFF#8 := rfl
      have hall : ∀ k < 8, (0xFF#8).getLsbD k = true := by decide
      show (s.disableIrq 2#32).slaveMask.getLsbD (line - 8) = true
      rw [hmask]
      exact hall _ (by omega)
    · have hline : n.toNat ≠ line := by
        rintro rfl
        rcases hmaster with h7 | h15'
        · exact absurd (BitVec.le_def.mp h7) (by simp only [BitVec.toNat_ofNat]; omega)
        · exact absurd (BitVec.lt_def.mp h15') (by simp only [BitVec.toNat_ofNat]; omega)
      have hn : ¬ (IrqCall.disable n).Concerns line := not_or.mpr ⟨hline, h2⟩
      rw [if_neg hn] at hlatest
      show (s.disableIrq n).slaveMask.getLsbD (line - 8) = true
      rw [s.slaveMask_disableIrq hmaster h2]
      exact h line h8 h15 hlatest

/-- The run lemma. -/
theorem synced_maskedLatest_foldl (s₀ : Pic) (calls : List IrqCall)
    (hc : ∀ c ∈ calls, ¬ c.DisablesSlave) :
    (calls.foldl IrqCall.run s₀.i8259Init).Synced ∧
      MaskedLatest calls (calls.foldl IrqCall.run s₀.i8259Init) := by
  induction calls using List.reverseRecOn with
  | nil => exact ⟨s₀.synced_i8259Init, fun _ _ _ h => by cases h⟩
  | append_singleton calls c ih =>
    obtain ⟨hsynced, hmasked⟩ := ih fun c hmem => hc c (List.mem_append_left _ hmem)
    have hlast := hc c (List.mem_append_right _ (List.mem_singleton_self c))
    rw [List.foldl_append]
    exact ⟨IrqCall.synced_run hsynced hlast, hmasked.run hlast⟩

/-! ### The controllers -/

/-- **The controllers agree with the copies** after the initialisation and any calls exactly when no
call has disabled a line of the slave. -/
theorem agrees_iff (s₀ : Pic) (calls : List IrqCall) :
    Pic.Agrees s₀ calls (calls.foldl IrqCall.run s₀.i8259Init) ↔
      ∀ c ∈ calls, ¬ c.DisablesSlave := by
  have hwrites := IrqCall.commandWrites_foldl s₀.i8259Init calls
  constructor
  · intro h c hmem hc
    have hzero : calls.countP (IrqCall.DisablesSlave ·) = 0 := by
      have := h.command
      omega
    exact List.countP_eq_zero.mp hzero c hmem (decide_eq_true hc)
  · intro hc
    obtain ⟨hsynced, hmasked⟩ := synced_maskedLatest_foldl s₀ calls hc
    have hzero : calls.countP (IrqCall.DisablesSlave ·) = 0 :=
      List.countP_eq_zero.mpr fun c hmem h => hc c hmem (of_decide_eq_true h)
    refine ⟨hsynced.master, hsynced.slave, by omega, fun line h8 h15 hlatest => ?_⟩
    exact ⟨_, hsynced.slave, hmasked line h8 h15 hlatest⟩

/-- The masks at boot, with nothing written. -/
def bootPic : Pic := ⟨0, 0, []⟩

/-- The line of the real-time clock is disabled: its bit is set in the copy, and the last byte
written to the data port of the slave leaves it clear. -/
theorem disable_rtc :
    ¬ Pic.Agrees bootPic [.disable 8#32] (([.disable 8#32] : List IrqCall).foldl IrqCall.run
      bootPic.i8259Init) := by
  intro h
  exact absurd h.slave (by decide)

end Mp3Kernel
