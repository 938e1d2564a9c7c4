import Mp3Kernel.Console.Keyboard
import Mp3Kernel.Transition.Fold

/-!
# The writes to video memory stay on the screen

The functions of the screen with their accesses to video memory checked: an access at an offset that
is not one of the 4000 bytes of the screen fails. No sequence of calls fails, the position is on the
screen after each call, and the cursor registers hold the position that a call has moved to.

## Main definitions

* `Screen.tryPeek`, `Screen.tryPoke`: the checked accesses.
* `Screen.tryPutc` and the other functions over them.
* `Screen.Call`, `Screen.Call.run`, `Screen.Call.tryRun`: the calls, and the checked calls.
* `Screen.CursorAt`: the cursor registers hold the position.

## Main results

* `Screen.Call.tryRun_eq_some`: where the position is on the screen, a checked call does not fail.
* `Screen.calls_inBounds`: the runs from boot.

Source: `lib.c`, lines 22–28 and 173–283; `terminal.c`, lines 70–81; `cursor.c`, lines 45–53.
-/

namespace Mp3Kernel

namespace Screen

/-! ### Checked accesses -/

/-- The number of bytes of the screen. -/
def videoSize : ℤ := 2 * (numRows * numCols)

/-- A byte of video memory read. -/
def tryPeek (s : Screen) (offset : ℤ) : Option UInt8 :=
  if 0 ≤ offset ∧ offset < videoSize then some (s.video offset) else none

/-- A byte of video memory stored. -/
def tryPoke (s : Screen) (offset : ℤ) (c : UInt8) : Option Screen :=
  if 0 ≤ offset ∧ offset < videoSize then some (s.poke offset c) else none

/-- `rowUp`, checked. -/
def tryRowUp (s : Screen) (i j : ℤ) : Option Screen := do
  let c ← s.tryPeek (cell (i + 1) j)
  let s ← s.tryPoke (cell i j) c
  let c ← s.tryPeek (cell (i + 1) j + 1)
  s.tryPoke (cell i j + 1) c

/-- `blank`, checked. -/
def tryBlank (s : Screen) (i j : ℤ) : Option Screen := do
  let s ← s.tryPoke (cell i j) (ascii ' ')
  s.tryPoke (cell i j + 1) attrib

/-- `rowsUp`, checked. -/
def tryRowsUp (s : Screen) : Option Screen :=
  (List.range (numRows - 1).toNat).foldlM
    (fun s (i : ℕ) => (List.range numCols.toNat).foldlM (fun s (j : ℕ) => s.tryRowUp i j) s) s

/-- `blankRow`, checked. -/
def tryBlankRow (s : Screen) (i : ℤ) : Option Screen :=
  (List.range numCols.toNat).foldlM (fun s (j : ℕ) => s.tryBlank i j) s

/-- `vertical_scrolling`, checked. -/
def tryVerticalScrolling (s : Screen) : Option Screen :=
  if numRows ≤ s.screenY then do
    let s ← tryRowsUp { s with screenY := numRows - 1 }
    s.tryBlankRow s.screenY
  else some s

/-- `putc`, checked. -/
def tryPutc (s : Screen) (c : UInt8) : Option Screen :=
  if c = ascii '\n' ∨ c = ascii '\r' then do
    let s ← tryVerticalScrolling { s with screenY := s.screenY + 1, screenX := 0 }
    return s.updateCursor
  else do
    let t ← s.tryPoke (cell s.screenY s.screenX) c
    let s ← t.tryPoke (cell s.screenY s.screenX + 1) attrib
    let s := { s with screenX := s.screenX + 1 }
    let s := if 80 ≤ s.screenX then { s with screenX := 0, screenY := s.screenY + 1 } else s
    let s ← s.tryVerticalScrolling
    return s.updateCursor

/-- `backspace_handler`, checked. -/
def tryBackspaceHandler (s : Screen) : Option Screen :=
  if s.screenX = 0 ∧ s.screenY = 0 then some s
  else do
    let s := if s.screenX = 0 then
        { s with screenY := s.screenY - 1, screenX := numCols - 1 }
      else { s with screenX := s.screenX - 1 }
    let s ← s.tryPoke (cell s.screenY s.screenX) (ascii ' ')
    return s.updateCursor

/-- `clean_screen`, checked. -/
def tryCleanScreen (s : Screen) : Option Screen := do
  let s ← (List.range numRows.toNat).foldlM (fun s (i : ℕ) => s.tryBlankRow i) s
  return updateCursor { s with screenX := 0, screenY := 0 }

/-- `clear`, checked. -/
def tryClear (s : Screen) : Option Screen :=
  (List.range (numRows * numCols).toNat).foldlM
    (fun s (i : ℕ) => do
      let s ← s.tryPoke (2 * i) (ascii ' ')
      s.tryPoke (2 * i + 1) attrib) s

/-- `terminal_write`, checked. -/
def tryTerminalWrite (buf : Option (ℕ → UInt8)) (nbytes : BitVec 32) (s : Screen) :
    Option Screen :=
  match buf with
  | none => some s
  | some bytes => (List.range nbytes.toInt.toNat).foldlM (fun s count => s.tryPutc (bytes count)) s

/-! ### The checked functions do not fail -/

section Checked

variable (s : Screen) {i j : ℤ}

/-- A row of the screen. -/
def IsRow (i : ℤ) : Prop := 0 ≤ i ∧ i < numRows

/-- A column of the screen. -/
def IsCol (j : ℤ) : Prop := 0 ≤ j ∧ j < numCols

/-- The bytes of a cell are on the screen. -/
theorem cell_bounds (hi : IsRow i) (hj : IsCol j) :
    (0 ≤ cell i j ∧ cell i j < videoSize) ∧ 0 ≤ cell i j + 1 ∧ cell i j + 1 < videoSize := by
  simp only [IsRow, IsCol, numRows, numCols, cell, videoSize] at *
  omega

theorem tryPoke_cell (hi : IsRow i) (hj : IsCol j) (c : UInt8) :
    s.tryPoke (cell i j) c = some (s.poke (cell i j) c) :=
  if_pos (cell_bounds hi hj).1

theorem tryPoke_cell_succ (hi : IsRow i) (hj : IsCol j) (c : UInt8) :
    s.tryPoke (cell i j + 1) c = some (s.poke (cell i j + 1) c) :=
  if_pos (cell_bounds hi hj).2

theorem tryPeek_cell (hi : IsRow i) (hj : IsCol j) :
    s.tryPeek (cell i j) = some (s.video (cell i j)) :=
  if_pos (cell_bounds hi hj).1

theorem tryPeek_cell_succ (hi : IsRow i) (hj : IsCol j) :
    s.tryPeek (cell i j + 1) = some (s.video (cell i j + 1)) :=
  if_pos (cell_bounds hi hj).2

theorem tryRowUp_eq (hi : IsRow i) (hi' : IsRow (i + 1)) (hj : IsCol j) :
    s.tryRowUp i j = some (s.rowUp i j) := by
  simp only [tryRowUp, tryPeek_cell s hi' hj, tryPoke_cell s hi hj, Option.bind_eq_bind,
    Option.bind_some, tryPeek_cell_succ _ hi' hj, tryPoke_cell_succ _ hi hj]
  rfl

theorem tryBlank_eq (hi : IsRow i) (hj : IsCol j) : s.tryBlank i j = some (s.blank i j) := by
  simp only [tryBlank, tryPoke_cell s hi hj, Option.bind_eq_bind, Option.bind_some,
    tryPoke_cell_succ _ hi hj]
  rfl

theorem isCol_of_lt {k : ℕ} (h : k < numCols.toNat) : IsCol k :=
  ⟨Int.natCast_nonneg k, Int.lt_toNat.mp h⟩

theorem isRow_of_lt {k : ℕ} (h : k < numRows.toNat) : IsRow k :=
  ⟨Int.natCast_nonneg k, Int.lt_toNat.mp h⟩

theorem tryRowsUp_eq : s.tryRowsUp = some s.rowsUp := by
  refine Transition.foldlM_range_eq_some (fun s i hi => ?_) s
  refine Transition.foldlM_range_eq_some (fun s j hj => ?_) s
  have hi' : i < 24 := hi
  refine s.tryRowUp_eq (isRow_of_lt ?_) (isRow_of_lt (k := i + 1) ?_) (isCol_of_lt hj)
  · exact Nat.lt_succ_of_lt hi'
  · exact Nat.succ_lt_succ hi'

theorem tryBlankRow_eq (hi : IsRow i) : s.tryBlankRow i = some (s.blankRow i) :=
  Transition.foldlM_range_eq_some (fun s _ hj => s.tryBlank_eq hi (isCol_of_lt hj)) s

theorem tryVerticalScrolling_eq : s.tryVerticalScrolling = some s.verticalScrolling := by
  rw [tryVerticalScrolling, verticalScrolling]
  by_cases h : numRows ≤ s.screenY
  · rw [if_pos h, if_pos h, tryRowsUp_eq, Option.bind_eq_bind, Option.bind_some]
    refine tryBlankRow_eq _ ?_
    rw [(position_rowsUp _).2]
    simp [IsRow, numRows]
  · rw [if_neg h, if_neg h]

variable {s}

theorem tryPutc_eq (h : s.InBounds) (c : UInt8) : s.tryPutc c = some (s.putc c) := by
  rw [tryPutc, Screen.putc]
  by_cases hnl : c = ascii '\n' ∨ c = ascii '\r'
  · rw [if_pos hnl, if_pos hnl, tryVerticalScrolling_eq]
    rfl
  · rw [if_neg hnl, if_neg hnl, tryPoke_cell _ h.y h.x, Option.bind_eq_bind, Option.bind_some,
      tryPoke_cell_succ _ h.y h.x]
    simp only [tryVerticalScrolling_eq, Option.bind_some]
    rfl

theorem tryBackspaceHandler_eq (h : s.InBounds) :
    s.tryBackspaceHandler = some s.backspaceHandler := by
  have hback := h.backspaceHandler
  rw [Screen.backspaceHandler] at hback ⊢
  rw [tryBackspaceHandler]
  by_cases h0 : s.screenX = 0 ∧ s.screenY = 0
  · rw [if_pos h0, if_pos h0]
  · rw [if_neg h0] at hback ⊢
    rw [if_neg h0]
    generalize (if s.screenX = 0 then
        { s with screenY := s.screenY - 1, screenX := numCols - 1 }
      else { s with screenX := s.screenX - 1 } : Screen) = t at hback ⊢
    have hrow : IsRow t.screenY := hback.y
    have hcol : IsCol t.screenX := hback.x
    simp only [tryPoke_cell t hrow hcol]
    rfl

theorem tryCleanScreen_eq (s : Screen) : s.tryCleanScreen = some s.cleanScreen := by
  have hrows := Transition.foldlM_range_eq_some (n := numRows.toNat)
    (fun (s : Screen) i hi => s.tryBlankRow_eq (isRow_of_lt hi)) s
  rw [tryCleanScreen, hrows]
  rfl

theorem tryClear_eq (s : Screen) : s.tryClear = some s.clear := by
  refine Transition.foldlM_range_eq_some (fun s i hi => ?_) s
  have hi' : i < 2000 := hi
  have hlow : 0 ≤ (2 * i : ℤ) ∧ (2 * i : ℤ) < videoSize := by
    simp only [videoSize, numRows, numCols]
    omega
  have hhigh : 0 ≤ (2 * i + 1 : ℤ) ∧ (2 * i + 1 : ℤ) < videoSize := by
    simp only [videoSize, numRows, numCols]
    omega
  rw [tryPoke, if_pos hlow, Option.bind_eq_bind, Option.bind_some, tryPoke, if_pos hhigh]

theorem writeChars_succ (s : Screen) (bytes : ℕ → UInt8) (n : ℕ) :
    s.writeChars bytes (n + 1) = (s.writeChars bytes n).putc (bytes n) := by
  rw [writeChars, List.range_succ, List.foldl_append]
  rfl

theorem InBounds.writeChars (h : s.InBounds) (bytes : ℕ → UInt8) (n : ℕ) :
    (s.writeChars bytes n).InBounds := by
  induction n with
  | zero => exact h
  | succ n ih =>
    rw [writeChars_succ]
    exact ih.putc (bytes n)

/-- `terminal_write` is a run of `putc`. -/
theorem tryTerminalWrite_eq (h : s.InBounds) (fd : BitVec 32) (buf : Option (ℕ → UInt8))
    (nbytes : BitVec 32) :
    s.tryTerminalWrite buf nbytes = some (s.terminalWrite fd buf nbytes).2 ∧
      (s.terminalWrite fd buf nbytes).2.InBounds := by
  cases buf with
  | none => exact ⟨rfl, h⟩
  | some bytes =>
    exact Transition.foldlM_eq_some
      (fun s count _ h => ⟨tryPutc_eq h (bytes count), h.putc (bytes count)⟩) h

end Checked

/-! ### The cursor -/

/-- The cursor registers hold the position. -/
def CursorAt (s : Screen) : Prop :=
  (s.cursorLow.toNat + 256 * s.cursorHigh.toNat : ℤ) = numCols * s.screenY + s.screenX

theorem InBounds.cursorAt_updateCursor {s : Screen} (h : s.InBounds) : s.updateCursor.CursorAt := by
  obtain ⟨⟨hx, hx'⟩, hy, hy'⟩ := h
  simp only [numCols, numRows] at hx' hy'
  simp only [CursorAt, Screen.updateCursor, numCols, BitVec.toNat_ofInt, UInt8.toNat_ofNat']
  omega

/-- `putc` ends with `update_cursor`. -/
theorem InBounds.cursorAt_putc {s : Screen} (h : s.InBounds) (c : UInt8) : (s.putc c).CursorAt := by
  have hput := h.putc c
  rw [Screen.putc] at hput ⊢
  split_ifs at hput ⊢
  · exact InBounds.cursorAt_updateCursor ⟨hput.x, hput.y⟩
  · exact InBounds.cursorAt_updateCursor ⟨hput.x, hput.y⟩

/-- So does `backspace_handler`, unless the position is the first one. -/
theorem InBounds.cursorAt_backspaceHandler {s : Screen} (h : s.InBounds)
    (h0 : ¬ (s.screenX = 0 ∧ s.screenY = 0)) : s.backspaceHandler.CursorAt := by
  have hback := h.backspaceHandler
  rw [Screen.backspaceHandler, if_neg h0] at hback ⊢
  exact InBounds.cursorAt_updateCursor ⟨hback.x, hback.y⟩

theorem cursorAt_cleanScreen (s : Screen) : s.cleanScreen.CursorAt := by
  have hclean := s.inBounds_cleanScreen
  rw [cleanScreen] at hclean ⊢
  exact InBounds.cursorAt_updateCursor ⟨hclean.x, hclean.y⟩

/-- `terminal_write` ends with a `putc`, unless there is nothing to write. -/
theorem InBounds.cursorAt_writeChars {s : Screen} (h : s.InBounds) (bytes : ℕ → UInt8) {n : ℕ}
    (hn : 0 < n) : (s.writeChars bytes n).CursorAt := by
  obtain ⟨k, rfl⟩ := Nat.exists_eq_succ_of_ne_zero hn.ne'
  rw [writeChars_succ]
  exact (h.writeChars bytes k).cursorAt_putc (bytes k)

/-! ### The calls -/

/-- A call of one of the functions that write video memory. -/
inductive Call where
  /-- `putc(c)`. -/
  | putc (c : UInt8)
  /-- `backspace_handler()`. -/
  | backspaceHandler
  /-- `clear()`. -/
  | clear
  /-- `clean_screen()`. -/
  | cleanScreen
  /-- `terminal_write(fd, buf, nbytes)`. -/
  | terminalWrite (fd : BitVec 32) (buf : Option (ℕ → UInt8)) (nbytes : BitVec 32)

namespace Call

/-- The call. -/
def run (s : Screen) : Call → Screen
  | putc c => s.putc c
  | backspaceHandler => s.backspaceHandler
  | clear => s.clear
  | cleanScreen => s.cleanScreen
  | terminalWrite fd buf nbytes => (s.terminalWrite fd buf nbytes).2

/-- The call with its accesses checked. -/
def tryRun (s : Screen) : Call → Option Screen
  | putc c => s.tryPutc c
  | backspaceHandler => s.tryBackspaceHandler
  | clear => s.tryClear
  | cleanScreen => s.tryCleanScreen
  | terminalWrite _ buf nbytes => s.tryTerminalWrite buf nbytes

/-- The call moves the cursor: `putc` and `clean_screen` do, `backspace_handler` unless it is at the
first position already, and `terminal_write` if it has a byte to write. -/
def MovesCursor (s : Screen) : Call → Prop
  | putc _ => True
  | backspaceHandler => ¬ (s.screenX = 0 ∧ s.screenY = 0)
  | clear => False
  | cleanScreen => True
  | terminalWrite _ buf nbytes => buf.isSome ∧ 0 < nbytes.toInt

variable {s : Screen}

theorem inBounds_run (h : s.InBounds) (call : Call) : (call.run s).InBounds := by
  cases call with
  | putc c => exact h.putc c
  | backspaceHandler => exact h.backspaceHandler
  | clear => exact h.clear
  | cleanScreen => exact s.inBounds_cleanScreen
  | terminalWrite fd buf nbytes => exact (tryTerminalWrite_eq h fd buf nbytes).2

/-- **A checked call** does not fail, where the position is on the screen. -/
theorem tryRun_eq_some (h : s.InBounds) (call : Call) : call.tryRun s = some (call.run s) := by
  cases call with
  | putc c => exact tryPutc_eq h c
  | backspaceHandler => exact tryBackspaceHandler_eq h
  | clear => exact s.tryClear_eq
  | cleanScreen => exact s.tryCleanScreen_eq
  | terminalWrite fd buf nbytes => exact (tryTerminalWrite_eq h fd buf nbytes).1

theorem cursorAt_run (h : s.InBounds) {call : Call} (hmove : call.MovesCursor s) :
    (call.run s).CursorAt := by
  cases call with
  | putc c => exact h.cursorAt_putc c
  | backspaceHandler => exact h.cursorAt_backspaceHandler hmove
  | clear => exact hmove.elim
  | cleanScreen => exact s.cursorAt_cleanScreen
  | terminalWrite fd buf nbytes =>
    obtain ⟨hbuf, hn⟩ := hmove
    obtain ⟨bytes, rfl⟩ := Option.isSome_iff_exists.mp hbuf
    exact h.cursorAt_writeChars bytes (Int.pos_iff_toNat_pos.mp hn)

end Call

/-- **Runs from boot.** Whatever video memory and the cursor registers hold at boot, no sequence of
calls accesses video memory outside the screen, the position is on the screen after it, and the next
call that moves the cursor sends its position to the cursor registers. -/
theorem calls_inBounds (video : ℤ → UInt8) (low high : UInt8) (calls : List Call) :
    ∃ s, calls.foldlM Call.tryRun ⟨video, 0, 0, low, high⟩ = some s ∧
      s = calls.foldl Call.run ⟨video, 0, 0, low, high⟩ ∧ s.InBounds ∧
      ∀ call : Call, call.MovesCursor s → (call.run s).CursorAt := by
  have hboot : InBounds ⟨video, 0, 0, low, high⟩ := ⟨by simp [numCols], by simp [numRows]⟩
  obtain ⟨hrun, hin⟩ := Transition.foldlM_eq_some (f := Call.run) (l := calls)
    (fun s call _ h => ⟨Call.tryRun_eq_some h call, Call.inBounds_run h call⟩) hboot
  exact ⟨_, hrun, rfl, hin, fun call hmove => Call.cursorAt_run hin hmove⟩

end Screen

end Mp3Kernel
