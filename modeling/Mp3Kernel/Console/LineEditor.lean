import Mathlib.Data.List.Basic
import Mp3Kernel.ByteMemory.CString
import Mp3Kernel.Console.Keyboard

/-!
# The keyboard driver as a line editor

A reference editor folds over the scancodes: it tracks the modifiers and holds a line of at most
`MAX_BUFFER_SIZE` characters, which Backspace shortens and Ctrl+L and Enter clear. The keyboard
buffer holds the line of this editor, and when Enter is pressed a newline behind it.

A key whose entry in `scancode_map` is zero types no character. The driver nevertheless appends
the NUL, so the editor comes in two versions: `typedLine` leaves such keys out, and `heldLine`,
what the driver really holds, has a NUL for each of them.

## Main definitions

* `Editor`, `Editor.key`, `typedLine`, `heldLine`.
* `Keyboard.Holds`: the keyboard buffer holds the line of an editor.
* `DeliversLine`: what a reader of the terminal expects.

## Main results

* `holds_scancodes`: the driver refines the editor, over any run of scancodes.
* `deliversLine_terminalRead_iff`: when `terminal_read` delivers the line just submitted.
* `not_deliversLine_long_read`: it does not when more bytes are asked for than the line has.

Source: `keyboard.c`, lines 105–263; `terminal.c`, lines 45–59.
-/

namespace Mp3Kernel

open ByteMemory

/-! ### The reference editor -/

/-- The state of the editor. -/
structure Editor where
  /-- Ctrl is held. -/
  ctrl : Bool
  /-- Shift is held. -/
  shift : Bool
  /-- Caps Lock is on. -/
  caps : Bool
  /-- The characters held. -/
  line : List UInt8

namespace Editor

/-- The editor at boot. -/
def init : Editor := ⟨false, false, false, []⟩

/-- A character appended, when fewer than `MAX_BUFFER_SIZE` are held. -/
def type (e : Editor) (c : UInt8) : Editor :=
  if e.line.length < maxBufferSize then { e with line := e.line ++ [c] } else e

/-- A key with the character `c`. A key without one is ignored, or held as a NUL when `keep` says
so. -/
def typeKey (keep : Bool) (e : Editor) (c : UInt8) : Editor :=
  if e.ctrl ∧ (c = ascii 'L' ∨ c = ascii 'l') then { e with line := [] }
  else if c = ascii '\n' then { e with line := [] }
  else if c = 0 ∧ keep = false then e
  else e.type c

/-- One scancode. -/
def key (keep : Bool) (e : Editor) (scancode : UInt8) : Editor :=
  if scancode = capslockMake then { e with caps := !e.caps }
  else if scancode = leftShiftMake ∨ scancode = rightShiftMake then { e with shift := true }
  else if scancode = leftShiftBreak ∨ scancode = rightShiftBreak then { e with shift := false }
  else if scancode = leftCtrlMake then { e with ctrl := true }
  else if scancode = leftCtrlBreak then { e with ctrl := false }
  else if scancode = leftAltMake then e
  else if scancode = backspaceKey then { e with line := e.line.dropLast }
  else if scancode = tabKey then (List.range 4).foldl (fun e _ => e.type (ascii ' ')) e
  else if scancode.toNat < keyCount then
    e.typeKey keep (keyPressed e.shift e.caps scancode)
  else e

end Editor

/-- The characters typed and not erased since the last Enter or clear. -/
def typedLine (keys : List UInt8) : List UInt8 := (keys.foldl (Editor.key false) .init).line

/-- The line with a NUL for every key without a character. -/
def heldLine (keys : List UInt8) : List UInt8 := (keys.foldl (Editor.key true) .init).line

/-! ### The driver refines the editor -/

/-- The keyboard buffer holds the line of the editor, and the modifiers agree. -/
structure Keyboard.Holds (k : Keyboard) (e : Editor) : Prop where
  /-- Ctrl. -/
  ctrl : k.ctrlPressed = e.ctrl
  /-- Shift. -/
  shift : k.shiftPressed = e.shift
  /-- Caps Lock. -/
  caps : k.capslockState = e.caps
  /-- The position is the length of the line. -/
  position : k.bufferPosition.toNat = e.line.length
  /-- The line is not longer than the buffer. -/
  length_le : e.line.length ≤ maxBufferSize
  /-- The characters. -/
  buffer : ∀ i (h : i < e.line.length), k.keyboardBuffer i = e.line[i]

namespace Keyboard

theorem holds_init : init.Holds .init :=
  ⟨rfl, rfl, rfl, rfl, Nat.zero_le _, fun i h => absurd h (Nat.not_lt_zero i)⟩

variable {k : Keyboard} {e : Editor}

/-- The line is cleared. -/
theorem Holds.clear (h : k.Holds e) : k.cleanBuffer.Holds { e with line := [] } :=
  ⟨h.ctrl, h.shift, h.caps, rfl, Nat.zero_le _, fun i hi => absurd hi (Nat.not_lt_zero i)⟩

/-- The last character is erased. -/
theorem Holds.backspace (h : k.Holds e) (h0 : 0 < k.bufferPosition) :
    Holds { k with bufferPosition := k.bufferPosition - 1 } { e with line := e.line.dropLast } where
  ctrl := h.ctrl
  shift := h.shift
  caps := h.caps
  position := by
    have h1 : 1 ≤ k.bufferPosition := UInt8.le_iff_toNat_le.mpr (UInt8.lt_iff_toNat_lt.mp h0)
    show (k.bufferPosition - 1).toNat = e.line.dropLast.length
    rw [List.length_dropLast, UInt8.toNat_sub_of_le _ _ h1, h.position]
    rfl
  length_le := by
    have hle := h.length_le
    rw [List.length_dropLast]
    omega
  buffer i hi := by
    rw [List.getElem_dropLast]
    exact h.buffer i (by simp only [List.length_dropLast] at hi; omega)

/-- A character is appended. -/
theorem Holds.push (h : k.Holds e) (c : UInt8) (hlt : k.bufferPosition.toNat < maxBufferSize) :
    (k.push c).Holds (e.type c) := by
  have hpos := h.position
  rw [Editor.type, if_pos (hpos ▸ hlt)]
  have hsum : (k.bufferPosition + 1).toNat = k.bufferPosition.toNat + 1 := by
    rw [UInt8.toNat_add, UInt8.toNat_one]
    simp only [maxBufferSize] at hlt
    omega
  refine ⟨h.ctrl, h.shift, h.caps, ?_, ?_, fun i hi => ?_⟩
  · show (k.bufferPosition + 1).toNat = (e.line ++ [c]).length
    rw [hsum, List.length_append, hpos]
    rfl
  · show (e.line ++ [c]).length ≤ maxBufferSize
    rw [List.length_append, List.length_singleton]
    omega
  · show Function.update k.keyboardBuffer k.bufferPosition.toNat c i = (e.line ++ [c])[i]
    simp only [List.length_append, List.length_singleton] at hi
    by_cases hin : i < e.line.length
    · rw [Function.update_of_ne (by omega), List.getElem_append_left hin]
      exact h.buffer i hin
    · have hi' : i = k.bufferPosition.toNat := by omega
      simp [hi', hpos]

end Keyboard

namespace Console

variable {t : Console} {e : Editor}

theorem holds_typeChar (h : t.keyboard.Holds e) (c : UInt8) :
    (t.typeChar c).keyboard.Holds (e.type c) := by
  rw [typeChar]
  by_cases hlt : t.keyboard.bufferPosition.toNat < maxBufferSize
  · rw [if_pos hlt]
    exact h.push c hlt
  · rw [if_neg hlt, Editor.type, if_neg (h.position ▸ hlt)]
    exact h

/-- Tab types four spaces. -/
theorem holds_tab (h : t.keyboard.Holds e) (l : List ℕ) (c : UInt8) :
    (l.foldl (fun t _ => t.typeChar c) t).keyboard.Holds (l.foldl (fun e _ => e.type c) e) := by
  induction l generalizing t e with
  | nil => exact h
  | cons _ l ih => exact ih (holds_typeChar h c)

theorem holds_backspace (h : t.keyboard.Holds e) :
    (t.handleKeyboardIrq backspaceKey).keyboard.Holds { e with line := e.line.dropLast } := by
  by_cases h0 : 0 < t.keyboard.bufferPosition
  · have hstep : (t.handleSpecialKey backspaceKey) = (true, { t with
        keyboard := { t.keyboard with bufferPosition := t.keyboard.bufferPosition - 1 }
        screen := t.screen.backspaceHandler }) := if_pos h0
    rw [handleKeyboardIrq, hstep]
    exact h.backspace h0
  · have hstep : (t.handleSpecialKey backspaceKey) = (true, t) := if_neg h0
    have hnil : e.line = [] := by
      rw [UInt8.lt_iff_toNat_lt, h.position] at h0
      exact List.length_eq_zero_iff.mp (Nat.eq_zero_of_not_pos h0)
    have hdrop : e.line.dropLast = e.line := by
      rw [hnil]
      rfl
    rw [handleKeyboardIrq, hstep, hdrop]
    exact h

theorem holds_handleKey (h : t.keyboard.Holds e) (c : UInt8) :
    (t.handleKey c).keyboard.Holds (e.typeKey true c) := by
  rw [handleKey, Editor.typeKey, h.ctrl]
  by_cases hclear : e.ctrl ∧ (c = ascii 'L' ∨ c = ascii 'l')
  · rw [if_pos hclear, if_pos hclear]
    exact h.clear
  · rw [if_neg hclear, if_neg hclear]
    by_cases hnl : c = ascii '\n'
    · rw [if_pos hnl, if_pos hnl]
      exact ⟨h.ctrl, h.shift, h.caps, rfl, Nat.zero_le _, fun i hi => absurd hi (Nat.not_lt_zero i)⟩
    · rw [if_neg hnl, if_neg hnl, if_neg (by simp)]
      exact holds_typeChar h c

/-- One scancode: the cases are those of `handle_special_key` and then of the rest of the
handler. -/
theorem holds_handleKeyboardIrq (h : t.keyboard.Holds e) (scancode : UInt8) :
    (t.handleKeyboardIrq scancode).keyboard.Holds (e.key true scancode) := by
  by_cases h1 : scancode = capslockMake
  · subst h1
    exact ⟨h.ctrl, h.shift, congrArg not h.caps, h.position, h.length_le, h.buffer⟩
  by_cases h2 : scancode = capslockBreak
  · subst h2
    exact ⟨h.ctrl, h.shift, h.caps, h.position, h.length_le, h.buffer⟩
  by_cases h3 : scancode = leftShiftMake ∨ scancode = rightShiftMake
  · rcases h3 with h3 | h3 <;> subst h3 <;>
      exact ⟨h.ctrl, rfl, h.caps, h.position, h.length_le, h.buffer⟩
  by_cases h4 : scancode = leftShiftBreak ∨ scancode = rightShiftBreak
  · rcases h4 with h4 | h4 <;> subst h4 <;>
      exact ⟨h.ctrl, rfl, h.caps, h.position, h.length_le, h.buffer⟩
  by_cases h5 : scancode = leftAltMake
  · subst h5
    exact ⟨h.ctrl, h.shift, h.caps, h.position, h.length_le, h.buffer⟩
  by_cases h6 : scancode = leftAltBreak
  · subst h6
    exact ⟨h.ctrl, h.shift, h.caps, h.position, h.length_le, h.buffer⟩
  by_cases h7 : scancode = leftCtrlMake
  · subst h7
    exact ⟨rfl, h.shift, h.caps, h.position, h.length_le, h.buffer⟩
  by_cases h8 : scancode = leftCtrlBreak
  · subst h8
    exact ⟨rfl, h.shift, h.caps, h.position, h.length_le, h.buffer⟩
  by_cases h9 : scancode = backspaceKey
  · subst h9
    exact holds_backspace h
  by_cases h10 : scancode = tabKey
  · subst h10
    exact holds_tab h (List.range 4) (ascii ' ')
  have hspecial : t.handleSpecialKey scancode = (false, t) := by
    simp only [handleSpecialKey, if_neg h1, if_neg h2, if_neg h3, if_neg h4, if_neg h5, if_neg h6,
      if_neg h7, if_neg h8, if_neg h9, if_neg h10]
  have hkey : e.key true scancode = if scancode.toNat < keyCount then
      e.typeKey true (keyPressed e.shift e.caps scancode) else e := by
    simp only [Editor.key, if_neg h1, if_neg h3, if_neg h4, if_neg h5, if_neg h7, if_neg h8,
      if_neg h9, if_neg h10]
  rw [handleKeyboardIrq, hspecial, hkey]
  by_cases hlt : scancode.toNat < keyCount
  · simp only [if_pos hlt, h.shift, h.caps]
    exact holds_handleKey h _
  · simpa [hlt] using h

/-- **The driver refines the editor** over any run of scancodes. -/
theorem holds_scancodes (h : t.keyboard.Holds e) (keys : List UInt8) :
    (t.scancodes keys).keyboard.Holds (keys.foldl (Editor.key true) e) := by
  induction keys generalizing t e with
  | nil => exact h
  | cons scancode keys ih => exact ih (holds_handleKeyboardIrq h scancode)

theorem keyPressed_enterKey (shift caps : Bool) : keyPressed shift caps enterKey = ascii '\n' := by
  cases shift <;> cases caps <;> rfl

/-- Enter leaves the line in the buffer, with a newline behind it. -/
theorem keyboardBuffer_enter (h : t.keyboard.Holds e) {i : ℕ}
    (hi : i < (e.line ++ [ascii '\n']).length) :
    (t.handleKeyboardIrq enterKey).keyboard.keyboardBuffer i = (e.line ++ [ascii '\n'])[i] := by
  have hspecial : t.handleSpecialKey enterKey = (false, t) := rfl
  have hbuf : (t.handleKeyboardIrq enterKey).keyboard.keyboardBuffer =
      Function.update t.keyboard.keyboardBuffer t.keyboard.bufferPosition.toNat (ascii '\n') := by
    have hlt : enterKey.toNat < keyCount := by decide
    have hclear : ¬ (t.keyboard.ctrlPressed ∧ (ascii '\n' = ascii 'L' ∨ ascii '\n' = ascii 'l')) :=
      fun h => absurd h.2 (by decide)
    simp only [handleKeyboardIrq, hspecial, keyPressed_enterKey, Bool.false_eq_true, if_false,
      if_pos hlt, handleKey, if_neg hclear, if_true]
    rfl
  rw [hbuf]
  simp only [List.length_append, List.length_singleton] at hi
  by_cases hin : i < e.line.length
  · rw [Function.update_of_ne (by have := h.position; omega), List.getElem_append_left hin]
    exact h.buffer i hin
  · have hi' : i = t.keyboard.bufferPosition.toNat := by
      have := h.position
      omega
    simp [hi', h.position]

end Console

/-! ### The two versions of the editor -/

/-- The first editor holds no more characters than the second, with the same modifiers. -/
structure Editor.Behind (e e' : Editor) : Prop where
  /-- Ctrl. -/
  ctrl : e.ctrl = e'.ctrl
  /-- Shift. -/
  shift : e.shift = e'.shift
  /-- Caps Lock. -/
  caps : e.caps = e'.caps
  /-- The lines. -/
  length_le : e.line.length ≤ e'.line.length

namespace Editor

variable {e e' : Editor}

theorem Behind.type (h : e.Behind e') (c : UInt8) : (e.type c).Behind (e'.type c) := by
  obtain ⟨hctrl, hshift, hcaps, hle⟩ := h
  rw [Editor.type, Editor.type]
  split_ifs with h₁ h₂ h₂
  · exact ⟨hctrl, hshift, hcaps, by simpa using hle⟩
  · exact ⟨hctrl, hshift, hcaps, by simp only [List.length_append, List.length_singleton]; omega⟩
  · omega
  · exact ⟨hctrl, hshift, hcaps, hle⟩

/-- A key that types nothing, while the other editor appends a NUL. -/
theorem Behind.type_right (h : e.Behind e') (c : UInt8) : e.Behind (e'.type c) := by
  obtain ⟨hctrl, hshift, hcaps, hle⟩ := h
  rw [Editor.type]
  split_ifs
  · exact ⟨hctrl, hshift, hcaps, by simp only [List.length_append]; omega⟩
  · exact ⟨hctrl, hshift, hcaps, hle⟩

theorem Behind.tab (h : e.Behind e') (l : List ℕ) (c : UInt8) :
    (l.foldl (fun e _ => e.type c) e).Behind (l.foldl (fun e _ => e.type c) e') := by
  induction l generalizing e e' with
  | nil => exact h
  | cons _ l ih => exact ih (h.type c)

theorem Behind.typeKey (h : e.Behind e') (c : UInt8) :
    (e.typeKey false c).Behind (e'.typeKey true c) := by
  rw [Editor.typeKey, Editor.typeKey, h.ctrl]
  split_ifs with hclear hnl h₁ h₂ h₂
  · exact ⟨rfl, h.shift, h.caps, le_rfl⟩
  · exact ⟨rfl, h.shift, h.caps, le_rfl⟩
  · exact absurd h₂.2 (by decide)
  · exact h.type_right c
  · exact absurd h₂.2 (by decide)
  · exact h.type c

/-- Both editors take the branch of one condition. -/
theorem Behind.ite {p : Prop} [Decidable p] {d d' : Editor} (h : e.Behind e') (h' : d.Behind d') :
    (if p then e else d).Behind (if p then e' else d') := by
  by_cases hp : p
  · rwa [if_pos hp, if_pos hp]
  · rwa [if_neg hp, if_neg hp]

theorem Behind.key (h : e.Behind e') (scancode : UInt8) :
    (e.key false scancode).Behind (e'.key true scancode) := by
  have hdrop : e.line.dropLast.length ≤ e'.line.dropLast.length := by
    rw [List.length_dropLast, List.length_dropLast]
    exact Nat.sub_le_sub_right h.length_le 1
  have hkey : (e.typeKey false (keyPressed e.shift e.caps scancode)).Behind
      (e'.typeKey true (keyPressed e'.shift e'.caps scancode)) := by
    rw [h.shift, h.caps]
    exact h.typeKey _
  rw [Editor.key, Editor.key]
  refine .ite ⟨h.ctrl, h.shift, congrArg not h.caps, h.length_le⟩ ?_
  refine .ite ⟨h.ctrl, rfl, h.caps, h.length_le⟩ ?_
  refine .ite ⟨h.ctrl, rfl, h.caps, h.length_le⟩ ?_
  refine .ite ⟨rfl, h.shift, h.caps, h.length_le⟩ ?_
  refine .ite ⟨rfl, h.shift, h.caps, h.length_le⟩ ?_
  refine .ite h ?_
  refine .ite ⟨h.ctrl, h.shift, h.caps, hdrop⟩ ?_
  refine .ite (h.tab (List.range 4) (ascii ' ')) ?_
  exact .ite hkey h

theorem Behind.foldl (h : e.Behind e') (keys : List UInt8) :
    (keys.foldl (Editor.key false) e).Behind (keys.foldl (Editor.key true) e') := by
  induction keys generalizing e e' with
  | nil => exact h
  | cons scancode keys ih => exact ih (h.key scancode)

end Editor

theorem length_typedLine_le (keys : List UInt8) :
    (typedLine keys).length ≤ (heldLine keys).length :=
  (Editor.Behind.foldl ⟨rfl, rfl, rfl, le_rfl⟩ keys).length_le

/-! ### Reading the line submitted -/

variable {β : Type} [DecidableEq β] [Inhabited β]

omit [DecidableEq β] [Inhabited β] in
/-- What a reader expects of a call that asks for `nbytes` bytes: the number of bytes of the line
and its newline, as far as they were asked for, and these bytes in the buffer. -/
def DeliversLine (line : List UInt8) (nbytes : BitVec 32) (buf : Ptr β) (r : BitVec 32 × Mem β) :
    Prop :=
  r.1.toInt = min nbytes.toInt (line.length + 1) ∧
    bytesAt r.2 buf r.1.toNat = (line ++ [ascii '\n']).take nbytes.toNat

omit [Inhabited β] in
/-- After Enter, a reader gets the line that the driver holds. -/
theorem bytesAt_readChars {t : Console} (h0 : t.keyboard = .init) (keys : List UInt8) (buf : Ptr β)
    (m : Mem β) {n : ℕ} (hn : n ≤ (heldLine keys).length + 1) :
    bytesAt ((t.scancodes (keys ++ [enterKey])).keyboard.readChars buf n m) buf n =
      (heldLine keys ++ [ascii '\n']).take n := by
  have hholds := Console.holds_scancodes (t := t) (h0 ▸ Keyboard.holds_init) keys
  have hlen := hholds.length_le
  change (heldLine keys).length ≤ maxBufferSize at hlen
  simp only [maxBufferSize] at hlen
  apply List.ext_getElem
  · simpa using hn
  · intro i hi hi'
    have hin : i < n := by simpa using hi
    rw [getElem_bytesAt, Keyboard.readChars_shift _ _ (by omega) _ hin, List.getElem_take,
      Console.scancodes, List.foldl_append]
    exact Console.keyboardBuffer_enter hholds (by rw [List.length_append]; exact hin.trans_le hn)

/-- **Reading the line.** From boot, after any scancodes and Enter, `terminal_read` delivers the
line typed exactly when no more bytes are asked for than the line and its newline have, nor than
`MAX_BUFFER_SIZE`, and no key without a character has disturbed the part asked for. -/
theorem deliversLine_terminalRead_iff {t : Console} (h0 : t.keyboard = .init) (keys : List UInt8)
    (fname buf : Ptr β) (fd nbytes : BitVec 32) (m : Mem β) (hbuf : buf ≠ Ptr.null)
    (hn : 0 ≤ nbytes.toInt) :
    DeliversLine (typedLine keys) nbytes buf
        ((t.scancodes (keys ++ [enterKey])).keyboard.terminalRead fname fd buf nbytes m) ↔
      nbytes.toInt ≤ maxBufferSize ∧ nbytes.toInt ≤ (typedLine keys).length + 1 ∧
        (heldLine keys ++ [ascii '\n']).take nbytes.toNat =
          (typedLine keys ++ [ascii '\n']).take nbytes.toNat := by
  have hnat : nbytes.toInt = nbytes.toNat := by
    rw [BitVec.toInt_eq_toNat_cond] at hn ⊢
    have := nbytes.isLt
    omega
  have hlen := length_typedLine_le keys
  by_cases hmax : nbytes.toInt ≤ maxBufferSize
  · rw [Keyboard.terminalRead_of_le hbuf hn hmax, DeliversLine]
    constructor
    · rintro ⟨hcount, hbytes⟩
      have hle : nbytes.toInt ≤ (typedLine keys).length + 1 := by
        rw [hcount]
        exact min_le_right _ _
      refine ⟨hmax, hle, ?_⟩
      rw [← hbytes, bytesAt_readChars h0 keys buf m (by omega)]
    · rintro ⟨-, hle, htake⟩
      refine ⟨(min_eq_left hle).symm, ?_⟩
      rw [bytesAt_readChars h0 keys buf m (by omega), htake]
  · rw [Keyboard.terminalRead_of_lt hbuf hn (Int.not_le.mp hmax), DeliversLine]
    constructor
    · rintro ⟨hcount, -⟩
      have hneg : (-1 : BitVec 32).toInt = -1 := rfl
      rw [hneg] at hcount
      omega
    · exact fun h => absurd h.1 hmax

/-! ### A short line after a longer one -/

/-- The console at boot, with a blank screen. -/
def bootConsole : Console := ⟨.init, ⟨fun _ => 0, 0, 0, 0, 0⟩, fun _ => 0⟩

/-- The keys `a`, `b`, `c`, Enter, `x`. -/
def sampleKeys : List UInt8 := [0x1E, 0x30, 0x2E, enterKey, 0x2D]

/-- A buffer for the samples. -/
def sampleBuf : Ptr Unit := ⟨(), 0x800⟩

/-- Two bytes asked for are the `x` and the newline. -/
theorem deliversLine_sampleKeys :
    DeliversLine (typedLine sampleKeys) 2 sampleBuf
      ((bootConsole.scancodes (sampleKeys ++ [enterKey])).keyboard.terminalRead sampleBuf 0
        sampleBuf 2 fun _ => 0) :=
  (deliversLine_terminalRead_iff rfl sampleKeys sampleBuf sampleBuf 0 2 _ (by decide)
    (by decide)).mpr ⟨by decide, by decide, by decide⟩

/-- Four bytes asked for are four bytes returned: the last two are left of the line `abc`. -/
theorem not_deliversLine_long_read :
    ¬ DeliversLine (typedLine sampleKeys) 4 sampleBuf
      ((bootConsole.scancodes (sampleKeys ++ [enterKey])).keyboard.terminalRead sampleBuf 0
        sampleBuf 4 fun _ => 0) := by
  rw [Keyboard.terminalRead_of_le (by decide) (by decide) (by decide)]
  rintro ⟨hcount, -⟩
  exact absurd hcount (by decide)

end Mp3Kernel
