import Mathlib.Data.Int.Notation
import Mathlib.Logic.Function.Basic
import Mathlib.Tactic.Common

/-!
# The text screen

The part of `lib.c` that writes video memory: two bytes for each of the 25 rows of 80 cells, a
character and its attribute, and the position of the next character. Video memory is a map from
byte offsets, which the C code computes in signed arithmetic, and the two bytes last sent to the
cursor registers are kept with it.

## Main definitions

* `Screen`: video memory, the position and the cursor registers.
* `Screen.putc`, `Screen.verticalScrolling`, `Screen.backspaceHandler`, `Screen.cleanScreen`,
  `Screen.clear`, `Screen.updateCursor`.

## Main results

* `Screen.InBounds`: the position is on the screen, and every function keeps it there.

Source: `lib.c`, lines 22–28 and 167–283; `cursor.c`, lines 40–52.
-/

namespace Mp3Kernel

/-- `NUM_COLS`. -/
def numCols : ℤ := 80

/-- `NUM_ROWS`. -/
def numRows : ℤ := 25

/-- `ATTRIB`. -/
def attrib : UInt8 := 0x7

/-- The byte of an ASCII character. -/
def ascii (c : Char) : UInt8 := UInt8.ofNat c.toNat

/-- The screen. -/
structure Screen where
  /-- The bytes at the offsets from `video_mem`. -/
  video : ℤ → UInt8
  /-- `screen_x`. -/
  screenX : ℤ
  /-- `screen_y`. -/
  screenY : ℤ
  /-- The byte last sent to cursor register `0x0F`. -/
  cursorLow : UInt8
  /-- The byte last sent to cursor register `0x0E`. -/
  cursorHigh : UInt8

namespace Screen

/-- The screen with a byte of video memory stored. -/
def poke (s : Screen) (offset : ℤ) (c : UInt8) : Screen :=
  { s with video := Function.update s.video offset c }

/-- The offset of the character in row `i` and column `j`; its attribute follows it. -/
def cell (i j : ℤ) : ℤ := 2 * (numCols * i + j)

/-- `update_cursor(screen_x, screen_y)`. The position is cut to 16 bits. -/
def updateCursor (s : Screen) : Screen :=
  let pos := BitVec.ofInt 16 (numCols * s.screenY + s.screenX)
  { s with cursorLow := UInt8.ofNat pos.toNat, cursorHigh := UInt8.ofNat (pos.toNat / 256) }

/-- The copy of one cell from the row below. -/
def rowUp (s : Screen) (i j : ℤ) : Screen :=
  let s := s.poke (cell i j) (s.video (cell (i + 1) j))
  s.poke (cell i j + 1) (s.video (cell (i + 1) j + 1))

/-- A blank cell with its attribute. -/
def blank (s : Screen) (i j : ℤ) : Screen :=
  (s.poke (cell i j) (ascii ' ')).poke (cell i j + 1) attrib

/-- The loop that moves every row up by one. -/
def rowsUp (s : Screen) : Screen :=
  (List.range (numRows - 1).toNat).foldl
    (fun s (i : ℕ) => (List.range numCols.toNat).foldl (fun s (j : ℕ) => s.rowUp i j) s) s

/-- The loop that blanks row `i`. -/
def blankRow (s : Screen) (i : ℤ) : Screen :=
  (List.range numCols.toNat).foldl (fun s (j : ℕ) => s.blank i j) s

/-- `void vertical_scrolling(void)`. -/
def verticalScrolling (s : Screen) : Screen :=
  if numRows ≤ s.screenY then
    let s := { s with screenY := numRows - 1 }
    let s := s.rowsUp
    s.blankRow s.screenY
  else s

/-- `void putc(uint8_t c)`. -/
def putc (s : Screen) (c : UInt8) : Screen :=
  if c = ascii '\n' ∨ c = ascii '\r' then
    updateCursor (verticalScrolling { s with screenY := s.screenY + 1, screenX := 0 })
  else
    let s := (s.poke (cell s.screenY s.screenX) c).poke (cell s.screenY s.screenX + 1) attrib
    let s := { s with screenX := s.screenX + 1 }
    let s := if 80 ≤ s.screenX then { s with screenX := 0, screenY := s.screenY + 1 } else s
    updateCursor (verticalScrolling s)

/-- `void backspace_handler(void)`. -/
def backspaceHandler (s : Screen) : Screen :=
  if s.screenX = 0 ∧ s.screenY = 0 then s
  else
    let s := if s.screenX = 0 then
        { s with screenY := s.screenY - 1, screenX := numCols - 1 }
      else { s with screenX := s.screenX - 1 }
    updateCursor (s.poke (cell s.screenY s.screenX) (ascii ' '))

/-- `void clean_screen(void)`. -/
def cleanScreen (s : Screen) : Screen :=
  let s := (List.range numRows.toNat).foldl (fun s (i : ℕ) => s.blankRow i) s
  updateCursor { s with screenX := 0, screenY := 0 }

/-- `void clear(void)`. -/
def clear (s : Screen) : Screen :=
  (List.range (numRows * numCols).toNat).foldl
    (fun s (i : ℕ) => (s.poke (2 * i) (ascii ' ')).poke (2 * i + 1) attrib) s

/-! ### The position stays on the screen -/

/-- The position is that of a cell of the screen. -/
structure InBounds (s : Screen) : Prop where
  /-- The column. -/
  x : 0 ≤ s.screenX ∧ s.screenX < numCols
  /-- The row. -/
  y : 0 ≤ s.screenY ∧ s.screenY < numRows

/-- A loop whose body leaves the position alone leaves it alone. -/
theorem position_foldl {α : Type} {f : Screen → α → Screen}
    (hf : ∀ s a, (f s a).screenX = s.screenX ∧ (f s a).screenY = s.screenY) (l : List α)
    (s : Screen) : (l.foldl f s).screenX = s.screenX ∧ (l.foldl f s).screenY = s.screenY := by
  induction l generalizing s with
  | nil => exact ⟨rfl, rfl⟩
  | cons a l ih =>
    have h := ih (f s a)
    exact ⟨h.1.trans (hf s a).1, h.2.trans (hf s a).2⟩

theorem position_rowsUp (s : Screen) :
    s.rowsUp.screenX = s.screenX ∧ s.rowsUp.screenY = s.screenY := by
  rw [rowsUp]
  exact position_foldl (fun s i => position_foldl (fun s j => by simp [rowUp, poke]) _ s) _ s

theorem position_blankRow (s : Screen) (i : ℤ) :
    (s.blankRow i).screenX = s.screenX ∧ (s.blankRow i).screenY = s.screenY := by
  rw [blankRow]
  exact position_foldl (fun s j => by simp [blank, poke]) _ s

/-- Scrolling brings the position from the row below the screen back onto it. -/
theorem inBounds_verticalScrolling {s : Screen} (hx : 0 ≤ s.screenX ∧ s.screenX < numCols)
    (hy : 0 ≤ s.screenY) : s.verticalScrolling.InBounds := by
  rw [verticalScrolling]
  by_cases h : numRows ≤ s.screenY
  · rw [if_pos h]
    constructor
    · rw [(position_blankRow _ _).1, (position_rowsUp _).1]
      exact hx
    · rw [(position_blankRow _ _).2, (position_rowsUp _).2]
      simp only [numRows]
      omega
  · rw [if_neg h]
    exact ⟨hx, hy, Int.not_le.mp h⟩

theorem InBounds.updateCursor {s : Screen} (h : s.InBounds) : s.updateCursor.InBounds :=
  ⟨h.x, h.y⟩

theorem InBounds.putc {s : Screen} (h : s.InBounds) (c : UInt8) : (s.putc c).InBounds := by
  obtain ⟨hx, hy⟩ := h
  simp only [numCols] at hx
  rw [Screen.putc]
  by_cases hnl : c = ascii '\n' ∨ c = ascii '\r'
  · rw [if_pos hnl]
    refine InBounds.updateCursor (inBounds_verticalScrolling ?_ ?_)
    · simp [numCols]
    · show 0 ≤ s.screenY + 1
      omega
  · rw [if_neg hnl]
    by_cases h80 : 80 ≤ s.screenX + 1
    · refine InBounds.updateCursor (inBounds_verticalScrolling ?_ ?_)
      · simp [poke, h80, numCols]
      · simp only [poke, h80, if_true]
        omega
    · refine InBounds.updateCursor (inBounds_verticalScrolling ?_ ?_)
      · simp only [poke, h80, if_false, numCols]
        omega
      · simp only [poke, h80, if_false]
        exact hy.1

theorem InBounds.backspaceHandler {s : Screen} (h : s.InBounds) : s.backspaceHandler.InBounds := by
  rw [Screen.backspaceHandler]
  obtain ⟨hx, hy⟩ := h
  simp only [numCols, numRows] at hx hy
  by_cases h0 : s.screenX = 0 ∧ s.screenY = 0
  · rw [if_pos h0]
    exact ⟨hx, hy⟩
  · rw [if_neg h0]
    by_cases hx0 : s.screenX = 0
    · have hy0 : s.screenY ≠ 0 := fun hy0 => h0 ⟨hx0, hy0⟩
      refine InBounds.updateCursor ⟨?_, ?_⟩
      · simp [poke, hx0, numCols]
      · simp only [poke, hx0, if_true, numRows]
        omega
    · refine InBounds.updateCursor ⟨?_, ?_⟩
      · simp only [poke, hx0, if_false, numCols]
        omega
      · simp only [poke, hx0, if_false]
        exact hy

theorem inBounds_cleanScreen (s : Screen) : s.cleanScreen.InBounds := by
  rw [cleanScreen]
  exact InBounds.updateCursor ⟨by simp [numCols], by simp [numRows]⟩

theorem InBounds.clear {s : Screen} (h : s.InBounds) : s.clear.InBounds := by
  have hp : s.clear.screenX = s.screenX ∧ s.clear.screenY = s.screenY := by
    rw [Screen.clear]
    exact position_foldl (fun s i => by simp [poke]) _ s
  constructor
  · rw [hp.1]
    exact h.x
  · rw [hp.2]
    exact h.y

end Screen

end Mp3Kernel
