import Mathlib.Data.List.GetD
import Mp3Kernel.Console.Keyboard
import Mp3Kernel.Transition.Fold

/-!
# The accesses to the keyboard buffer stay in bounds

The keyboard driver with its accesses checked: a character stored or read outside the 128 bytes of
`keyboard_buffer`, an entry read outside the rows and columns of `scancode_map`, or a position
beyond `MAX_BUFFER_SIZE` fails. No sequence of interrupts, clears and reads fails.

## Main definitions

* `Keyboard.trySetChar`, `Keyboard.trySetPosition`, `Keyboard.tryKeyboardRead`, `tryKeyPressed`: the
  checked accesses.
* `Console.tryHandleKeyboardIrq`, `Keyboard.tryTerminalRead`: the functions over them.
* `ConsoleCall`, `ConsoleCall.run`, `ConsoleCall.tryRun`: the calls, and the checked calls.

## Main results

* `ConsoleCall.tryRun_eq_some`: with the position within `MAX_BUFFER_SIZE`, a checked call does not
  fail, and keeps it there.
* `calls_buffer_inBounds`: the runs from boot.

Source: `keyboard.c`, lines 105–263; `terminal.c`, lines 29–59.
-/

namespace Mp3Kernel

open ByteMemory

/-! ### Checked accesses -/

/-- An entry of `scancode_map`. -/
def tryKeyPressed (shiftPressed capslockState : Bool) (scancode : UInt8) : Option UInt8 := do
  let mode := if shiftPressed then if capslockState then 3 else 1
    else if capslockState then 2 else 0
  let row ← scancodeMap[scancode.toNat]?
  row[mode]?

namespace Keyboard

/-- A character stored in the buffer. -/
def trySetChar (k : Keyboard) (index : ℕ) (c : UInt8) : Option Keyboard :=
  if index < maxBufferSize + 1 then
    some { k with keyboardBuffer := Function.update k.keyboardBuffer index c }
  else none

/-- The position moved. -/
def trySetPosition (k : Keyboard) (position : UInt8) : Option Keyboard :=
  if position.toNat ≤ maxBufferSize then some { k with bufferPosition := position } else none

/-- `keyboard_read`, checked. -/
def tryKeyboardRead (k : Keyboard) (index : ℕ) : Option UInt8 :=
  if index < maxBufferSize + 1 then some (k.keyboardRead index) else none

/-- `push`, checked. -/
def tryPush (k : Keyboard) (c : UInt8) : Option Keyboard := do
  let k ← k.trySetChar k.bufferPosition.toNat c
  k.trySetPosition (k.bufferPosition + 1)

/-- `clean_buffer`, checked. -/
def tryCleanBuffer (k : Keyboard) : Option Keyboard := k.trySetPosition 0

/-- `terminal_read`, checked. -/
def tryTerminalRead {β : Type} [DecidableEq β] [Inhabited β] (k : Keyboard) (buf : Ptr β)
    (nbytes : BitVec 32) (m : Mem β) : Option (BitVec 32 × Mem β) :=
  if buf = Ptr.null then some (-1, m)
  else if nbytes.toInt < 0 then some (-1, m)
  else if (maxBufferSize : ℤ) < nbytes.toInt then some (-1, m)
  else do
    let m ← (List.range nbytes.toNat).foldlM
      (fun m i => do
        let c ← k.tryKeyboardRead i
        return store m (buf.shift i) c) m
    return (nbytes, m)

end Keyboard

namespace Console

/-- `typeChar`, checked. -/
def tryTypeChar (t : Console) (c : UInt8) : Option Console :=
  if t.keyboard.bufferPosition.toNat < maxBufferSize then do
    let keyboard ← t.keyboard.tryPush c
    return { t with keyboard := keyboard, screen := t.screen.putc c }
  else some t

/-- `handle_special_key`, checked. Keys other than Backspace and Tab leave the buffer and the
position alone. -/
def tryHandleSpecialKey (scancode : UInt8) (t : Console) : Option (Bool × Console) :=
  if scancode = backspaceKey then
    if 0 < t.keyboard.bufferPosition then do
      let keyboard ← t.keyboard.trySetPosition (t.keyboard.bufferPosition - 1)
      return (true, { t with keyboard := keyboard, screen := t.screen.backspaceHandler })
    else some (true, t)
  else if scancode = tabKey then do
    let t ← (List.range 4).foldlM (fun t _ => t.tryTypeChar (ascii ' ')) t
    return (true, t)
  else some (t.handleSpecialKey scancode)

/-- `handleKey`, checked. Enter stores the newline, and `terminal_write` reads the line. -/
def tryHandleKey (key : UInt8) (t : Console) : Option Console :=
  if t.keyboard.ctrlPressed ∧ (key = ascii 'L' ∨ key = ascii 'l') then do
    let keyboard ← t.keyboard.tryCleanBuffer
    return { t with screen := t.screen.cleanScreen, keyboard := keyboard }
  else if key = ascii '\n' then do
    let position := t.keyboard.bufferPosition
    let keyboard ← t.keyboard.trySetChar position.toNat (ascii '\n')
    let screen ← (List.range position.toNat).foldlM
      (fun s count => do
        let c ← keyboard.tryKeyboardRead count
        return s.putc c) t.screen
    let keyboard ← keyboard.tryCleanBuffer
    return { t with screen := screen, keyboard := keyboard }
  else t.tryTypeChar key

/-- `handle_keyboard_irq`, checked. -/
def tryHandleKeyboardIrq (scancode : UInt8) (t : Console) : Option Console := do
  let (handled, t) ← t.tryHandleSpecialKey scancode
  if handled then return t
  else if scancode.toNat < keyCount then
    let key ← tryKeyPressed t.keyboard.shiftPressed t.keyboard.capslockState scancode
    t.tryHandleKey key
  else return t

/-- `terminal_close`, checked. -/
def tryTerminalClose (t : Console) : Option Console := do
  let keyboard ← t.keyboard.tryCleanBuffer
  return cleanTerminalBuffer { t with screen := t.screen.cleanScreen, keyboard := keyboard }

end Console

/-! ### The checked functions do not fail -/

/-- The table has 58 rows of four entries. -/
theorem tryKeyPressed_eq {scancode : UInt8} (h : scancode.toNat < keyCount) (shift caps : Bool) :
    tryKeyPressed shift caps scancode = some (keyPressed shift caps scancode) := by
  have hrows : scancode.toNat < scancodeMap.length := h
  have hcols : ∀ row ∈ scancodeMap, row.length = 4 := by decide
  have hrow : scancodeMap[scancode.toNat].length = 4 := hcols _ (List.getElem_mem hrows)
  have hmode : (if shift then if caps then 3 else 1 else if caps then 2 else 0) <
      scancodeMap[scancode.toNat].length := by
    rw [hrow]
    split_ifs <;> decide
  rw [tryKeyPressed, keyPressed, List.getElem?_eq_getElem hrows, List.getD_eq_getElem _ _ hrows]
  simp only [Option.bind_eq_bind, Option.bind_some]
  rw [List.getElem?_eq_getElem hmode, List.getD_eq_getElem _ _ hmode]

namespace Keyboard

/-- The position is in the buffer. -/
def PositionOk (k : Keyboard) : Prop := k.bufferPosition.toNat ≤ maxBufferSize

variable {k : Keyboard}

theorem trySetChar_eq {index : ℕ} (h : index < maxBufferSize + 1) (c : UInt8) :
    k.trySetChar index c =
      some { k with keyboardBuffer := Function.update k.keyboardBuffer index c } :=
  if_pos h

theorem trySetPosition_eq {position : UInt8} (h : position.toNat ≤ maxBufferSize) :
    k.trySetPosition position = some { k with bufferPosition := position } :=
  if_pos h

theorem tryKeyboardRead_eq {index : ℕ} (h : index < maxBufferSize + 1) :
    k.tryKeyboardRead index = some (k.keyboardRead index) :=
  if_pos h

theorem tryCleanBuffer_eq (k : Keyboard) : k.tryCleanBuffer = some k.cleanBuffer :=
  trySetPosition_eq (Nat.zero_le _)

theorem positionOk_cleanBuffer (k : Keyboard) : k.cleanBuffer.PositionOk := Nat.zero_le _

theorem tryPush_eq (h : k.bufferPosition.toNat < maxBufferSize) (c : UInt8) :
    k.tryPush c = some (k.push c) ∧ (k.push c).PositionOk := by
  have hsum : (k.bufferPosition + 1).toNat ≤ maxBufferSize := by
    rw [UInt8.toNat_add, UInt8.toNat_one]
    simp only [maxBufferSize] at h ⊢
    omega
  refine ⟨?_, hsum⟩
  rw [tryPush, trySetChar_eq (Nat.lt_succ_of_lt h)]
  exact trySetPosition_eq hsum

theorem tryTerminalRead_eq {β : Type} [DecidableEq β] [Inhabited β] (fname : Ptr β) (fd : BitVec 32)
    (buf : Ptr β) (nbytes : BitVec 32) (m : Mem β) :
    k.tryTerminalRead buf nbytes m = some (k.terminalRead fname fd buf nbytes m) := by
  rw [tryTerminalRead, terminalRead]
  split_ifs with h0 hneg hmax
  · rfl
  · rfl
  · rfl
  · have hle : nbytes.toNat < maxBufferSize + 1 := by
      rw [BitVec.toInt_eq_toNat_cond] at hneg hmax
      have := nbytes.isLt
      omega
    have hloop := Transition.foldlM_range_eq_some (n := nbytes.toNat)
      (f := fun (m : Mem β) i => store m (buf.shift i) (k.keyboardRead i))
      (g := fun m i => (k.tryKeyboardRead i).bind fun c => pure (store m (buf.shift i) c))
      (fun m i hi => by
        rw [tryKeyboardRead_eq (hi.trans hle)]
        rfl) m
    simp only [Option.bind_eq_bind, hloop, Option.bind_some]
    rfl

/-- The line is read and written to the screen. -/
theorem tryWriteChars_eq (k : Keyboard) {n : ℕ} (hn : n ≤ maxBufferSize + 1) (s : Screen) :
    (List.range n).foldlM
        (fun s count => (k.tryKeyboardRead count).bind fun c => pure (s.putc c)) s =
      some (s.writeChars k.keyboardBuffer n) := by
  refine Transition.foldlM_range_eq_some (fun s count hc => ?_) s
  rw [tryKeyboardRead_eq (hc.trans_le hn)]
  rfl

end Keyboard

/-- A byte as a count of `terminal_write`. -/
theorem toNat_toInt_ofNat (c : UInt8) : (BitVec.ofNat 32 c.toNat).toInt.toNat = c.toNat := by
  have hlt := c.toNat_lt
  rw [BitVec.toInt_eq_toNat_cond, BitVec.toNat_ofNat]
  omega

namespace Console

variable {t : Console}

theorem tryTypeChar_eq (h : t.keyboard.PositionOk) (c : UInt8) :
    t.tryTypeChar c = some (t.typeChar c) ∧ (t.typeChar c).keyboard.PositionOk := by
  rw [tryTypeChar, typeChar]
  by_cases hlt : t.keyboard.bufferPosition.toNat < maxBufferSize
  · obtain ⟨hpush, hok⟩ := Keyboard.tryPush_eq hlt c
    rw [if_pos hlt, if_pos hlt, hpush]
    exact ⟨rfl, hok⟩
  · rw [if_neg hlt, if_neg hlt]
    exact ⟨rfl, h⟩

/-- The keys that leave the buffer alone leave the position alone. -/
theorem bufferPosition_handleSpecialKey {scancode : UInt8} (hb : scancode ≠ backspaceKey)
    (ht : scancode ≠ tabKey) :
    (t.handleSpecialKey scancode).2.keyboard.bufferPosition = t.keyboard.bufferPosition := by
  simp only [handleSpecialKey, if_neg hb, if_neg ht]
  split_ifs <;> rfl

theorem tryHandleSpecialKey_eq (h : t.keyboard.PositionOk) (scancode : UInt8) :
    t.tryHandleSpecialKey scancode = some (t.handleSpecialKey scancode) ∧
      (t.handleSpecialKey scancode).2.keyboard.PositionOk := by
  rw [tryHandleSpecialKey]
  by_cases hb : scancode = backspaceKey
  · subst hb
    rw [if_pos rfl]
    by_cases h0 : 0 < t.keyboard.bufferPosition
    · have hstep : t.handleSpecialKey backspaceKey = (true, { t with
          keyboard := { t.keyboard with bufferPosition := t.keyboard.bufferPosition - 1 }
          screen := t.screen.backspaceHandler }) := if_pos h0
      have hle : (t.keyboard.bufferPosition - 1).toNat ≤ maxBufferSize := by
        have h1 : 1 ≤ t.keyboard.bufferPosition := UInt8.le_iff_toNat_le.mpr
          (UInt8.lt_iff_toNat_lt.mp h0)
        rw [UInt8.toNat_sub_of_le _ _ h1]
        exact (Nat.sub_le _ _).trans h
      rw [if_pos h0, hstep, Keyboard.trySetPosition_eq hle]
      exact ⟨rfl, hle⟩
    · have hstep : t.handleSpecialKey backspaceKey = (true, t) := if_neg h0
      rw [if_neg h0, hstep]
      exact ⟨rfl, h⟩
  · rw [if_neg hb]
    by_cases ht : scancode = tabKey
    · subst ht
      obtain ⟨hrun, hok⟩ := Transition.foldlM_eq_some (l := List.range 4)
        (f := fun (t : Console) _ => t.typeChar (ascii ' '))
        (fun t _ _ (h : t.keyboard.PositionOk) => tryTypeChar_eq h (ascii ' ')) h
      rw [if_pos rfl, hrun]
      exact ⟨rfl, hok⟩
    · rw [if_neg ht]
      have hpos :
          (t.handleSpecialKey scancode).2.keyboard.bufferPosition.toNat ≤ maxBufferSize := by
        rw [bufferPosition_handleSpecialKey hb ht]
        exact h
      exact ⟨rfl, hpos⟩

theorem tryHandleKey_eq (h : t.keyboard.PositionOk) (key : UInt8) :
    t.tryHandleKey key = some (t.handleKey key) ∧ (t.handleKey key).keyboard.PositionOk := by
  rw [tryHandleKey, handleKey]
  by_cases hclear : t.keyboard.ctrlPressed ∧ (key = ascii 'L' ∨ key = ascii 'l')
  · rw [if_pos hclear, if_pos hclear, Keyboard.tryCleanBuffer_eq]
    exact ⟨rfl, Keyboard.positionOk_cleanBuffer _⟩
  · rw [if_neg hclear, if_neg hclear]
    by_cases hnl : key = ascii '\n'
    · have hset := Keyboard.trySetChar_eq (k := t.keyboard) (Nat.lt_succ_of_le h) (ascii '\n')
      have hcount := toNat_toInt_ofNat t.keyboard.bufferPosition
      rw [if_pos hnl, if_pos hnl]
      simp only [hset, Option.bind_eq_bind, Option.bind_some, Keyboard.tryCleanBuffer_eq,
        Keyboard.tryWriteChars_eq _ (Nat.le_succ_of_le h), Screen.terminalWrite, hcount]
      exact ⟨rfl, Keyboard.positionOk_cleanBuffer _⟩
    · rw [if_neg hnl, if_neg hnl]
      exact tryTypeChar_eq h key

theorem tryHandleKeyboardIrq_eq (h : t.keyboard.PositionOk) (scancode : UInt8) :
    t.tryHandleKeyboardIrq scancode = some (t.handleKeyboardIrq scancode) ∧
      (t.handleKeyboardIrq scancode).keyboard.PositionOk := by
  obtain ⟨hspecial, hok⟩ := tryHandleSpecialKey_eq h scancode
  rw [tryHandleKeyboardIrq, handleKeyboardIrq, hspecial]
  simp only [Option.bind_eq_bind, Option.bind_some]
  cases (t.handleSpecialKey scancode).1
  · by_cases hlt : scancode.toNat < keyCount
    · simp only [if_pos hlt, tryKeyPressed_eq hlt, Option.bind_some]
      exact tryHandleKey_eq hok _
    · simp only [if_neg hlt]
      exact ⟨rfl, hok⟩
  · exact ⟨rfl, hok⟩

theorem tryTerminalClose_eq (t : Console) :
    t.tryTerminalClose = some t.terminalClose.2 ∧ t.terminalClose.2.keyboard.PositionOk := by
  rw [tryTerminalClose, Keyboard.tryCleanBuffer_eq]
  exact ⟨rfl, Keyboard.positionOk_cleanBuffer _⟩

end Console

/-! ### The calls -/

/-- An interrupt, or a call of one of the functions that touch the keyboard buffer. -/
inductive ConsoleCall (β : Type) where
  /-- A keyboard interrupt with a scancode. -/
  | scancode (c : UInt8)
  /-- `clean_buffer()`. -/
  | cleanBuffer
  /-- `terminal_close(fname)`. -/
  | terminalClose
  /-- `terminal_read(fname, fd, buf, nbytes)`. -/
  | terminalRead (fname : Ptr β) (fd : BitVec 32) (buf : Ptr β) (nbytes : BitVec 32)

namespace ConsoleCall

variable {β : Type} [DecidableEq β] [Inhabited β]

/-- The call, on the console and the memory. -/
def run (s : Console × Mem β) : ConsoleCall β → Console × Mem β
  | scancode c => (s.1.handleKeyboardIrq c, s.2)
  | cleanBuffer => ({ s.1 with keyboard := s.1.keyboard.cleanBuffer }, s.2)
  | terminalClose => (s.1.terminalClose.2, s.2)
  | terminalRead fname fd buf nbytes =>
    (s.1, (s.1.keyboard.terminalRead fname fd buf nbytes s.2).2)

/-- The call with its accesses checked. -/
def tryRun (s : Console × Mem β) : ConsoleCall β → Option (Console × Mem β)
  | scancode c => do
    let t ← s.1.tryHandleKeyboardIrq c
    return (t, s.2)
  | cleanBuffer => do
    let keyboard ← s.1.keyboard.tryCleanBuffer
    return ({ s.1 with keyboard := keyboard }, s.2)
  | terminalClose => do
    let t ← s.1.tryTerminalClose
    return (t, s.2)
  | terminalRead _ _ buf nbytes => do
    let r ← s.1.keyboard.tryTerminalRead buf nbytes s.2
    return (s.1, r.2)

/-- **A checked call** does not fail, and keeps the position in the buffer. -/
theorem tryRun_eq_some {s : Console × Mem β} (h : s.1.keyboard.PositionOk) (call : ConsoleCall β) :
    call.tryRun s = some (call.run s) ∧ (call.run s).1.keyboard.PositionOk := by
  cases call with
  | scancode c =>
    obtain ⟨hrun, hok⟩ := Console.tryHandleKeyboardIrq_eq h c
    rw [tryRun, hrun]
    exact ⟨rfl, hok⟩
  | cleanBuffer =>
    rw [tryRun, Keyboard.tryCleanBuffer_eq]
    exact ⟨rfl, Keyboard.positionOk_cleanBuffer _⟩
  | terminalClose =>
    obtain ⟨hrun, hok⟩ := s.1.tryTerminalClose_eq
    rw [tryRun, hrun]
    exact ⟨rfl, hok⟩
  | terminalRead fname fd buf nbytes =>
    rw [tryRun, Keyboard.tryTerminalRead_eq fname fd]
    exact ⟨rfl, h⟩

end ConsoleCall

/-- **Runs from boot.** No sequence of interrupts, clears and reads accesses the keyboard buffer or
the table out of bounds, and the position stays within `MAX_BUFFER_SIZE`. -/
theorem calls_buffer_inBounds {β : Type} [DecidableEq β] [Inhabited β] (screen : Screen)
    (terminalBuffer : ℕ → UInt8) (m : Mem β) (calls : List (ConsoleCall β)) :
    ∃ s, calls.foldlM ConsoleCall.tryRun (⟨.init, screen, terminalBuffer⟩, m) = some s ∧
      s = calls.foldl ConsoleCall.run (⟨.init, screen, terminalBuffer⟩, m) ∧
      s.1.keyboard.bufferPosition.toNat ≤ maxBufferSize := by
  have hboot : Keyboard.init.PositionOk := Nat.zero_le _
  obtain ⟨hrun, hok⟩ := Transition.foldlM_eq_some (f := ConsoleCall.run) (l := calls)
    (I := fun s => s.1.keyboard.PositionOk)
    (fun s call _ h => ConsoleCall.tryRun_eq_some h call)
    (s := (⟨.init, screen, terminalBuffer⟩, m)) hboot
  exact ⟨_, hrun, rfl, hok⟩

end Mp3Kernel
