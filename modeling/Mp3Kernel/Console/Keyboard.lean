import Mp3Kernel.ByteMemory.Basic
import Mp3Kernel.Console.Screen

/-!
# The keyboard driver and the terminal

The keyboard handler turns one scancode after the other into the line in `keyboard_buffer`, which
it echoes on the screen; `terminal_read` copies from that buffer, and `terminal_write` writes to
the screen. Acknowledging the interrupt is left out: it does not touch this state.

## Main definitions

* `Keyboard`, `Console`: the state of the driver, and the driver with the screen.
* `scancodeMap`, `keyPressed`: the characters of the keys.
* `Console.handleSpecialKey`, `Console.handleKeyboardIrq`: the interrupt handler.
* `terminalOpen`, `Console.terminalClose`, `Keyboard.terminalRead`, `Screen.terminalWrite`.

## Main results

* `Keyboard.terminalRead_of_le`: the bytes that `terminal_read` stores.
* `Keyboard.terminalRead_of_lt`: the counts it rejects.

Source: `keyboard.h`; `keyboard.c`; `terminal.c`.
-/

namespace Mp3Kernel

open ByteMemory

/-! ### The keys -/

/-- `MAX_BUFFER_SIZE`. -/
def maxBufferSize : ℕ := 127

/-- `KEY_COUNT`. -/
def keyCount : ℕ := 58

/-- `CAPSLOCK_PRESSED`. -/
def capslockMake : UInt8 := 0x3A
/-- `CAPSLOCK_RELEASED`. -/
def capslockBreak : UInt8 := 0xBA
/-- `LEFT_SHIFT_PRESSED`. -/
def leftShiftMake : UInt8 := 0x2A
/-- `RIGHT_SHIFT_PRESSED`. -/
def rightShiftMake : UInt8 := 0x36
/-- `LEFT_SHIFT_RELEASED`. -/
def leftShiftBreak : UInt8 := 0xAA
/-- `RIGHT_SHIFT_RELEASED`. -/
def rightShiftBreak : UInt8 := 0xB6
/-- `LEFT_ALT_PRESSED`. -/
def leftAltMake : UInt8 := 0x38
/-- `LEFT_ALT_RELEASED`. -/
def leftAltBreak : UInt8 := 0xB8
/-- `LEFT_CTRL_PRESSED`. -/
def leftCtrlMake : UInt8 := 0x1D
/-- `LEFT_CTRL_RELEASED`. -/
def leftCtrlBreak : UInt8 := 0x9D
/-- `TAB`. -/
def tabKey : UInt8 := 0x0F
/-- `BAKCSPACE`. -/
def backspaceKey : UInt8 := 0x0E
/-- The scancode of the row of `scancode_map` that holds the newlines. -/
def enterKey : UInt8 := 0x1C

/-- A row of `scancode_map`. -/
def keyRow (plain shift caps both : Char) : List UInt8 :=
  [ascii plain, ascii shift, ascii caps, ascii both]

/-- A row of `scancode_map` with the same entry in every mode. -/
def sameRow (c : UInt8) : List UInt8 := [c, c, c, c]

/-- `scancode_map`. -/
def scancodeMap : List (List UInt8) :=
  [sameRow 0, sameRow 0,
    keyRow '1' '!' '1' '!', keyRow '2' '@' '2' '@', keyRow '3' '#' '3' '#',
    keyRow '4' '$' '4' '$', keyRow '5' '%' '5' '%', keyRow '6' '^' '6' '^',
    keyRow '7' '&' '7' '&', keyRow '8' '*' '8' '*', keyRow '9' '(' '9' '(',
    keyRow '0' ')' '0' ')', keyRow '-' '_' '-' '_', keyRow '=' '+' '=' '+',
    sameRow 8, sameRow 0,
    keyRow 'q' 'Q' 'Q' 'q', keyRow 'w' 'W' 'W' 'w', keyRow 'e' 'E' 'E' 'e',
    keyRow 'r' 'R' 'R' 'r', keyRow 't' 'T' 'T' 't', keyRow 'y' 'Y' 'Y' 'y',
    keyRow 'u' 'U' 'U' 'u', keyRow 'i' 'I' 'I' 'i', keyRow 'o' 'O' 'O' 'o',
    keyRow 'p' 'P' 'P' 'p', keyRow '[' '\x7b' '[' '\x7b', keyRow ']' '\x7d' ']' '\x7d',
    sameRow (ascii '\n'), sameRow 0,
    keyRow 'a' 'A' 'A' 'a', keyRow 's' 'S' 'S' 's', keyRow 'd' 'D' 'D' 'd',
    keyRow 'f' 'F' 'F' 'f', keyRow 'g' 'G' 'G' 'g', keyRow 'h' 'H' 'H' 'h',
    keyRow 'j' 'J' 'J' 'j', keyRow 'k' 'K' 'K' 'k', keyRow 'l' 'L' 'L' 'l',
    keyRow ';' ':' ':' ':', [39, 34, 39, 34], keyRow '\x60' '~' '\x60' '~', sameRow 0,
    keyRow '\x5c' '|' '\x5c' '|',
    keyRow 'z' 'Z' 'Z' 'z', keyRow 'x' 'X' 'X' 'x', keyRow 'c' 'C' 'C' 'c',
    keyRow 'v' 'V' 'V' 'v', keyRow 'b' 'B' 'V' 'b', keyRow 'n' 'N' 'N' 'n',
    keyRow 'm' 'M' 'M' 'm', keyRow ',' '<' ',' '<', keyRow '.' '>' '.' '>',
    keyRow '/' '?' '/' '?', sameRow 0, sameRow 0, sameRow 0, sameRow (ascii ' ')]

/-- The character of a key: the columns of `scancode_map` are for no modifier, Shift, Caps Lock,
and both. -/
def keyPressed (shiftPressed capslockState : Bool) (scancode : UInt8) : UInt8 :=
  let mode := if shiftPressed then if capslockState then 3 else 1
    else if capslockState then 2 else 0
  (scancodeMap.getD scancode.toNat []).getD mode 0

/-! ### The state -/

/-- The variables of `keyboard.c`. -/
structure Keyboard where
  /-- `keyboard_buffer`. -/
  keyboardBuffer : ℕ → UInt8
  /-- `buffer_position`. -/
  bufferPosition : UInt8
  /-- `Ctrl_pressed`. -/
  ctrlPressed : Bool
  /-- `Shift_pressed`. -/
  shiftPressed : Bool
  /-- `Capslock_pressed`. -/
  capslockPressed : Bool
  /-- `Capslock_state`. -/
  capslockState : Bool
  /-- `Alt_pressed`. -/
  altPressed : Bool

namespace Keyboard

/-- The variables at boot. -/
def init : Keyboard where
  keyboardBuffer _ := 0
  bufferPosition := 0
  ctrlPressed := false
  shiftPressed := false
  capslockPressed := false
  capslockState := false
  altPressed := false

/-- `void clean_buffer(void)`: the contents of the buffer stay. -/
def cleanBuffer (k : Keyboard) : Keyboard := { k with bufferPosition := 0 }

/-- `char keyboard_read(int index)`. -/
def keyboardRead (k : Keyboard) (index : ℕ) : UInt8 := k.keyboardBuffer index

/-- The character `c` stored at the end of the line. -/
def push (k : Keyboard) (c : UInt8) : Keyboard :=
  { k with
    keyboardBuffer := Function.update k.keyboardBuffer k.bufferPosition.toNat c
    bufferPosition := k.bufferPosition + 1 }

end Keyboard

/-- The keyboard driver, the screen and `terminal_buffer`. -/
structure Console where
  /-- The driver. -/
  keyboard : Keyboard
  /-- The screen. -/
  screen : Screen
  /-- `terminal_buffer`. -/
  terminalBuffer : ℕ → UInt8

/-! ### Writing to the terminal -/

/-- The loop of `terminal_write`. -/
def Screen.writeChars (s : Screen) (bytes : ℕ → UInt8) (n : ℕ) : Screen :=
  (List.range n).foldl (fun s count => s.putc (bytes count)) s

/-- `int32_t terminal_write(int32_t fd, const void* input_buf, int32_t nbytes)`, where `buf` is
`none` for the null pointer and else gives the bytes from the pointer on. -/
def Screen.terminalWrite (_fd : BitVec 32) (buf : Option (ℕ → UInt8)) (nbytes : BitVec 32)
    (s : Screen) : BitVec 32 × Screen :=
  match buf with
  | none => (-1, s)
  | some bytes =>
    let count := nbytes.toInt.toNat
    (BitVec.ofNat 32 count, s.writeChars bytes count)

namespace Console

/-! ### The interrupt handler -/

/-- The character `c` typed: stored at the end of the line and echoed, if the line is not full. -/
def typeChar (t : Console) (c : UInt8) : Console :=
  if t.keyboard.bufferPosition.toNat < maxBufferSize then
    { t with keyboard := t.keyboard.push c, screen := t.screen.putc c }
  else t

/-- `int handle_special_key(uint8_t scancode)`: whether the key was handled, and the state. -/
def handleSpecialKey (scancode : UInt8) (t : Console) : Bool × Console :=
  if scancode = capslockMake then
    (true, { t with keyboard := { t.keyboard with
      capslockPressed := true, capslockState := !t.keyboard.capslockState } })
  else if scancode = capslockBreak then
    (true, { t with keyboard := { t.keyboard with capslockPressed := false } })
  else if scancode = leftShiftMake ∨ scancode = rightShiftMake then
    (true, { t with keyboard := { t.keyboard with shiftPressed := true } })
  else if scancode = leftShiftBreak ∨ scancode = rightShiftBreak then
    (true, { t with keyboard := { t.keyboard with shiftPressed := false } })
  else if scancode = leftAltMake then
    (true, { t with keyboard := { t.keyboard with altPressed := true } })
  else if scancode = leftAltBreak then
    (true, { t with keyboard := { t.keyboard with altPressed := false } })
  else if scancode = leftCtrlMake then
    (true, { t with keyboard := { t.keyboard with ctrlPressed := true } })
  else if scancode = leftCtrlBreak then
    (true, { t with keyboard := { t.keyboard with ctrlPressed := false } })
  else if scancode = backspaceKey then
    if 0 < t.keyboard.bufferPosition then
      (true, { t with
        keyboard := { t.keyboard with bufferPosition := t.keyboard.bufferPosition - 1 }
        screen := t.screen.backspaceHandler })
    else (true, t)
  else if scancode = tabKey then
    (true, (List.range 4).foldl (fun t _ => t.typeChar (ascii ' ')) t)
  else (false, t)

/-- The part of `handle_keyboard_irq` for a key of the table, whose character is `key`. -/
def handleKey (key : UInt8) (t : Console) : Console :=
  if t.keyboard.ctrlPressed ∧ (key = ascii 'L' ∨ key = ascii 'l') then
    { t with screen := t.screen.cleanScreen, keyboard := t.keyboard.cleanBuffer }
  else if key = ascii '\n' then
    let position := t.keyboard.bufferPosition
    let buffer := Function.update t.keyboard.keyboardBuffer position.toNat (ascii '\n')
    { t with
      screen := (t.screen.terminalWrite 0 (some buffer) (BitVec.ofNat 32 position.toNat)).2
      keyboard := { t.keyboard with keyboardBuffer := buffer }.cleanBuffer }
  else t.typeChar key

/-- `void handle_keyboard_irq()`, with the scancode it reads from the port. -/
def handleKeyboardIrq (scancode : UInt8) (t : Console) : Console :=
  let (handled, t) := t.handleSpecialKey scancode
  if handled then t
  else if scancode.toNat < keyCount then
    t.handleKey (keyPressed t.keyboard.shiftPressed t.keyboard.capslockState scancode)
  else t

/-- The scancodes of the list, one interrupt after the other. -/
def scancodes (l : List UInt8) (t : Console) : Console :=
  l.foldl (fun t scancode => t.handleKeyboardIrq scancode) t

/-! ### The terminal driver -/

/-- `void clean_terminal_buffer()`. -/
def cleanTerminalBuffer (t : Console) : Console :=
  let terminalBuffer := (List.range (maxBufferSize + 1)).foldl
    (fun b i => Function.update b i 0) t.terminalBuffer
  { t with terminalBuffer := terminalBuffer }

/-- `int32_t terminal_close(const char* fname)`. -/
def terminalClose (t : Console) : BitVec 32 × Console :=
  (1, cleanTerminalBuffer
    { t with screen := t.screen.cleanScreen, keyboard := t.keyboard.cleanBuffer })

end Console

/-- `int32_t terminal_open(const char* filename)`. -/
def terminalOpen : BitVec 32 := 1

namespace Keyboard

variable {β : Type} [DecidableEq β] [Inhabited β]

omit [Inhabited β] in
/-- The loop of `terminal_read`. -/
def readChars (k : Keyboard) (buf : Ptr β) (n : ℕ) (m : Mem β) : Mem β :=
  (List.range n).foldl (fun m i => store m (buf.shift i) (k.keyboardRead i)) m

/-- `int32_t terminal_read(const char* fname, uint32_t fd, void* buf, int32_t nbytes)`. -/
def terminalRead (k : Keyboard) (_fname : Ptr β) (_fd : BitVec 32) (buf : Ptr β)
    (nbytes : BitVec 32) (m : Mem β) : BitVec 32 × Mem β :=
  if buf = Ptr.null then (-1, m)
  else if nbytes.toInt < 0 then (-1, m)
  else if (maxBufferSize : ℤ) < nbytes.toInt then (-1, m)
  else (nbytes, k.readChars buf nbytes.toNat m)

/-! ### What `terminal_read` stores -/

omit [Inhabited β] in
theorem readChars_shift (k : Keyboard) (buf : Ptr β) {n : ℕ} (hn : n ≤ 2 ^ 32) (m : Mem β) {i : ℕ}
    (hi : i < n) : k.readChars buf n m (buf.shift i) = k.keyboardBuffer i := by
  induction n with
  | zero => omega
  | succ n ih =>
    rw [readChars, List.range_succ, List.foldl_append]
    show store (k.readChars buf n m) (buf.shift n) (k.keyboardBuffer n) (buf.shift i) = _
    by_cases h : i = n
    · rw [h, store_self]
    · rw [store_of_ne _ fun he => h ((Ptr.shift_inj (by omega) (by omega)).mp he)]
      exact ih (by omega) (by omega)

omit [Inhabited β] in
theorem readChars_eqOn (k : Keyboard) (buf : Ptr β) (n : ℕ) (m : Mem β) :
    Set.EqOn (k.readChars buf n m) m (buf.span n)ᶜ := by
  induction n with
  | zero => exact Set.eqOn_refl ..
  | succ n ih =>
    rw [readChars, List.range_succ, List.foldl_append]
    have hlast : buf.shift n ∉ (buf.span (n + 1))ᶜ :=
      fun h => h (Ptr.shift_mem_span (Nat.lt_succ_self n))
    exact (store_eqOn hlast).trans
      (ih.mono (Set.compl_subset_compl.mpr (Ptr.span_mono (Nat.le_succ n))))

variable {k : Keyboard} {fname buf : Ptr β} {fd nbytes : BitVec 32} {m : Mem β}

/-- A count of at most `MAX_BUFFER_SIZE` is read in full, whatever the line is. -/
theorem terminalRead_of_le (h0 : buf ≠ Ptr.null) (hn : 0 ≤ nbytes.toInt)
    (h : nbytes.toInt ≤ maxBufferSize) :
    k.terminalRead fname fd buf nbytes m = (nbytes, k.readChars buf nbytes.toNat m) := by
  rw [terminalRead, if_neg h0, if_neg (Int.not_lt.mpr hn), if_neg (Int.not_lt.mpr h)]

/-- A larger count is rejected. -/
theorem terminalRead_of_lt (h0 : buf ≠ Ptr.null) (hn : 0 ≤ nbytes.toInt)
    (h : maxBufferSize < nbytes.toInt) : k.terminalRead fname fd buf nbytes m = (-1, m) := by
  rw [terminalRead, if_neg h0, if_neg (Int.not_lt.mpr hn), if_pos h]

end Keyboard

end Mp3Kernel
