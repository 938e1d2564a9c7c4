import Mp3Kernel.Console.Screen
import Mp3Kernel.Transition.Fold

/-!
# The screen shows the last rows of the text

The text written with `putc` is laid out on an unbounded sheet of rows of 80 columns. The screen
is a window on the last 25 rows of the sheet: scrolling moves the window, by copying every row over
the one above it in video memory.

## Main definitions

* `Sheet`, `Sheet.putc`, `Sheet.ofText`: the layout of a text.
* `Sheet.top`: the first row in the window.
* `Screen.Shows`: video memory and the position are those of the window.

## Main results

* `Screen.entry_verticalScrolling`: what scrolling leaves in each cell.
* `Screen.Shows.putc`: one character.
* `Screen.shows_ofText`: the screen shows the text, from `clean_screen` on.

Source: `lib.c`, lines 173–230 and 270–283.
-/

namespace Mp3Kernel

/-! ### The sheet -/

/-- A sheet of rows of 80 columns, and the end of the text on it. -/
structure Sheet where
  /-- The character in a row and a column. -/
  cells : ℕ → ℕ → UInt8
  /-- The row of the next character. -/
  row : ℕ
  /-- The column of the next character. -/
  col : ℕ
  /-- A row that is full has been left. -/
  col_lt : col < 80
  /-- The rows behind the text are blank. -/
  blank_behind : ∀ i, row < i → ∀ j, cells i j = ascii ' '

namespace Sheet

/-- The sheet without text. -/
def blank : Sheet where
  cells _ _ := ascii ' '
  row := 0
  col := 0
  col_lt := by decide
  blank_behind _ _ _ := rfl

/-- A new row is started. -/
def newRow (s : Sheet) : Sheet where
  cells := s.cells
  row := s.row + 1
  col := 0
  col_lt := by decide
  blank_behind i hi := s.blank_behind i (Nat.lt_of_succ_lt hi)

/-- A character at the end of the text, which stays where it is. -/
def write (s : Sheet) (c : UInt8) : Sheet where
  cells := Function.update s.cells s.row (Function.update (s.cells s.row) s.col c)
  row := s.row
  col := s.col
  col_lt := s.col_lt
  blank_behind i hi j := by
    rw [Function.update_of_ne (Nat.ne_of_gt hi)]
    exact s.blank_behind i hi j

/-- The next column, or the next row when the row is full. -/
def advance (s : Sheet) : Sheet :=
  if h : s.col + 1 < 80 then { s with col := s.col + 1, col_lt := h } else s.newRow

/-- A character is written. -/
def putc (s : Sheet) (c : UInt8) : Sheet :=
  if c = ascii '\n' ∨ c = ascii '\r' then s.newRow else (s.write c).advance

/-- The layout of a text. -/
def ofText (text : List UInt8) : Sheet := text.foldl putc blank

/-- The first of the last 25 rows, or the first row when there are fewer. -/
def top (s : Sheet) : ℕ := s.row + 1 - numRows.toNat

end Sheet

namespace Screen

/-- **The screen shows the sheet.** -/
structure Shows (s : Screen) (sheet : Sheet) : Prop where
  /-- The characters. -/
  char : ∀ i j : ℕ, i < numRows.toNat → j < numCols.toNat →
    s.video (cell i j) = sheet.cells (sheet.top + i) j
  /-- The attributes. -/
  attr : ∀ i j : ℕ, i < numRows.toNat → j < numCols.toNat → s.video (cell i j + 1) = attrib
  /-- The column. -/
  x : s.screenX = sheet.col
  /-- The row in the window. -/
  y : s.screenY = sheet.row - sheet.top

/-! ### The cells of the screen -/

/-- The character and the attribute of a cell. -/
def entry (s : Screen) (i j : ℕ) : UInt8 × UInt8 := (s.video (cell i j), s.video (cell i j + 1))

/-- A blank cell. -/
def blankEntry : UInt8 × UInt8 := (ascii ' ', attrib)

variable (s : Screen) {i j i' j' : ℕ}

theorem cell_inj (hj : j < 80) (hj' : j' < 80) :
    cell i j = cell i' j' ↔ i = i' ∧ j = j' := by
  simp only [cell, numCols]
  omega

/-- A character and an attribute stored in one cell. -/
theorem entry_poke (c a : UInt8) (hj : j < 80) (hj' : j' < 80) :
    ((s.poke (cell i' j') c).poke (cell i' j' + 1) a).entry i j =
      if i = i' ∧ j = j' then (c, a) else s.entry i j := by
  by_cases h : i = i' ∧ j = j'
  · obtain ⟨rfl, rfl⟩ := h
    have hodd : cell i j ≠ cell i j + 1 := by omega
    simp [entry, poke, hodd]
  · have hne : cell i j ≠ cell i' j' := fun he => h ((cell_inj hj hj').mp he)
    have hodd : cell i j ≠ cell i' j' + 1 := by
      simp only [cell]
      omega
    have hodd' : cell i j + 1 ≠ cell i' j' := by
      simp only [cell]
      omega
    rw [if_neg h]
    simp [entry, poke, hne, hodd, hodd']

theorem entry_rowUp (hj : j < 80) (hj' : j' < 80) :
    (s.rowUp i' j').entry i j = if i = i' ∧ j = j' then s.entry (i' + 1) j' else s.entry i j := by
  have hodd : cell (i' + 1) j' + 1 ≠ cell i' j' := by
    simp only [cell, numCols]
    omega
  have hup : s.rowUp i' j' = (s.poke (cell i' j') (s.entry (i' + 1) j').1).poke (cell i' j' + 1)
      (s.entry (i' + 1) j').2 := by
    simp [rowUp, entry, poke, hodd]
  rw [hup, entry_poke _ _ _ hj hj']

theorem entry_blank (hj : j < 80) (hj' : j' < 80) :
    (s.blank i' j').entry i j = if i = i' ∧ j = j' then blankEntry else s.entry i j :=
  entry_poke s _ _ hj hj'

/-- The loop that copies row `i'` from the row below. -/
theorem entry_rowUp_foldl (hj : j < numCols.toNat) :
    ((List.range numCols.toNat).foldl (fun s (k : ℕ) => s.rowUp i' k) s).entry i j =
      if i = i' then s.entry (i' + 1) j else s.entry i j := by
  by_cases hi : i = i'
  · rw [if_pos hi]
    refine Transition.foldl_range_sets (v := (entry · i j)) (w := (entry · (i' + 1) j)) hj
      ?_ ?_ ?_ s
    · intro s
      rw [entry_rowUp s hj hj, if_pos ⟨hi, rfl⟩]
    · intro s k hk
      rw [entry_rowUp s hj (Nat.lt_trans hk hj), if_neg (by omega)]
    · intro s k hk hk'
      rw [entry_rowUp s hj hk', if_neg (by omega)]
  · rw [if_neg hi]
    refine Transition.foldl_range_keeps (v := (entry · i j)) (fun s k hk => ?_) s
    rw [entry_rowUp s hj hk, if_neg fun h => hi h.1]

/-- Every row is copied before it is overwritten. -/
theorem entry_rowsUp (hj : j < numCols.toNat) :
    s.rowsUp.entry i j = if i < (numRows - 1).toNat then s.entry (i + 1) j else s.entry i j := by
  rw [rowsUp]
  by_cases hi : i < (numRows - 1).toNat
  · rw [if_pos hi]
    refine Transition.foldl_range_sets (v := (entry · i j)) (w := (entry · (i + 1) j)) hi ?_ ?_ ?_ s
    · intro s
      rw [entry_rowUp_foldl s hj, if_pos rfl]
    · intro s k hk
      rw [entry_rowUp_foldl s hj, if_neg (by omega)]
    · intro s k hk _
      rw [entry_rowUp_foldl s hj, if_neg (Nat.ne_of_lt hk)]
  · rw [if_neg hi]
    refine Transition.foldl_range_keeps (v := (entry · i j)) (fun s k hk => ?_) s
    rw [entry_rowUp_foldl s hj, if_neg (by omega)]

theorem entry_blankRow (hj : j < numCols.toNat) :
    (s.blankRow i').entry i j = if i = i' then blankEntry else s.entry i j := by
  rw [blankRow]
  by_cases hi : i = i'
  · rw [if_pos hi]
    refine Transition.foldl_range_sets (v := (entry · i j)) (w := fun _ => blankEntry) hj
      ?_ (fun _ _ _ => rfl) ?_ s
    · intro s
      rw [entry_blank s hj hj, if_pos ⟨hi, rfl⟩]
    · intro s k hk hk'
      rw [entry_blank s hj hk', if_neg (by omega)]
  · rw [if_neg hi]
    refine Transition.foldl_range_keeps (v := (entry · i j)) (fun s k hk => ?_) s
    rw [entry_blank s hj hk, if_neg fun h => hi h.1]

theorem entry_cleanScreen (hi : i < numRows.toNat) (hj : j < numCols.toNat) :
    s.cleanScreen.entry i j = blankEntry := by
  have hcursor : ∀ t : Screen,
      (updateCursor { t with screenX := 0, screenY := 0 }).entry i j = t.entry i j := fun _ => rfl
  rw [cleanScreen, hcursor]
  refine Transition.foldl_range_sets (v := (entry · i j)) (w := fun _ => blankEntry) hi
    ?_ (fun _ _ _ => rfl) ?_ s
  · intro s
    rw [entry_blankRow s hj, if_pos rfl]
  · intro s k hk _
    rw [entry_blankRow s hj, if_neg (Nat.ne_of_lt hk)]

/-- Scrolling moves every row up and blanks the last one. -/
theorem entry_verticalScrolling (hy : numRows ≤ s.screenY) (hj : j < numCols.toNat) :
    s.verticalScrolling.entry i j =
      if i = (numRows - 1).toNat then blankEntry
      else if i < (numRows - 1).toNat then s.entry (i + 1) j else s.entry i j := by
  have hlast : numRows - 1 = ((numRows - 1).toNat : ℤ) := rfl
  rw [verticalScrolling, if_pos hy]
  simp only [(position_rowsUp _).2]
  rw [hlast, entry_blankRow _ hj, entry_rowsUp _ hj]
  rfl

/-! ### The simulation -/

variable {s} {sheet : Sheet}

/-- The fields of `Screen.Shows` about video memory, cell by cell. -/
theorem Shows.of_entry
    (hcells : ∀ i j : ℕ, i < numRows.toNat → j < numCols.toNat →
      s.entry i j = (sheet.cells (sheet.top + i) j, attrib))
    (hx : s.screenX = sheet.col) (hy : s.screenY = sheet.row - sheet.top) : s.Shows sheet where
  char i j hi hj := congrArg Prod.fst (hcells i j hi hj)
  attr i j hi hj := congrArg Prod.snd (hcells i j hi hj)
  x := hx
  y := hy

theorem Shows.entry_eq (h : s.Shows sheet) (hi : i < numRows.toNat) (hj : j < numCols.toNat) :
    s.entry i j = (sheet.cells (sheet.top + i) j, attrib) :=
  Prod.ext (h.char i j hi hj) (h.attr i j hi hj)

theorem Shows.updateCursor (h : s.Shows sheet) : s.updateCursor.Shows sheet :=
  ⟨h.char, h.attr, h.x, h.y⟩

/-- The window moves with the text when a row is started. -/
theorem Shows.newRow (h : s.Shows sheet) :
    (verticalScrolling { s with screenY := s.screenY + 1, screenX := 0 }).Shows sheet.newRow := by
  have hy := h.y
  have htop : sheet.newRow.top = sheet.row + 2 - 25 := rfl
  have htop' : sheet.top = sheet.row + 1 - 25 := rfl
  by_cases hscroll : numRows ≤ s.screenY + 1
  · have hrow : sheet.row = sheet.top + 24 := by
      simp only [numRows] at hscroll
      omega
    refine .of_entry (fun i j hi hj => ?_) ?_ ?_
    · change i < 25 at hi
      have hlast : (numRows - 1).toNat = 24 := rfl
      rw [entry_verticalScrolling _ hscroll hj, hlast]
      by_cases hi' : i = 24
      · rw [if_pos hi']
        have hblank := sheet.blank_behind (sheet.newRow.top + i) (by omega) j
        exact Prod.ext hblank.symm rfl
      · rw [if_neg hi', if_pos (by omega)]
        have hrow' : sheet.newRow.top + i = sheet.top + (i + 1) := by omega
        rw [hrow']
        exact h.entry_eq (by simp only [numRows]; omega) hj
    · rw [verticalScrolling, if_pos hscroll, (position_blankRow _ _).1, (position_rowsUp _).1]
      rfl
    · rw [verticalScrolling, if_pos hscroll, (position_blankRow _ _).2, (position_rowsUp _).2]
      simp only [numRows, Sheet.newRow] at htop ⊢
      omega
  · have hsame : sheet.newRow.top = sheet.top := by
      simp only [numRows] at hscroll
      omega
    rw [verticalScrolling, if_neg hscroll]
    refine .of_entry (fun i j hi hj => ?_) rfl ?_
    · rw [hsame]
      exact h.entry_eq hi hj
    · rw [hsame]
      simp only [Sheet.newRow]
      omega

/-- A character is stored in the cell at the position. -/
theorem Shows.write (h : s.Shows sheet) (c : UInt8) :
    ((s.poke (cell s.screenY s.screenX) c).poke (cell s.screenY s.screenX + 1) attrib).Shows
      (sheet.write c) := by
  have htop : sheet.top ≤ sheet.row := by
    simp only [Sheet.top, numRows]
    omega
  have hy : s.screenY = ((sheet.row - sheet.top : ℕ) : ℤ) := by
    rw [h.y]
    omega
  rw [h.x, hy]
  refine .of_entry (fun i j hi hj => ?_) h.x h.y
  rw [entry_poke _ _ _ hj sheet.col_lt, h.entry_eq hi hj]
  have htop' : (sheet.write c).top = sheet.top := rfl
  rw [htop']
  by_cases hij : i = sheet.row - sheet.top ∧ j = sheet.col
  · have hrow : sheet.top + i = sheet.row := by omega
    rw [if_pos hij, hrow, hij.2]
    simp [Sheet.write]
  · rw [if_neg hij]
    by_cases hrow : sheet.top + i = sheet.row
    · have hcol : j ≠ sheet.col := fun hj' => hij ⟨by omega, hj'⟩
      simp [Sheet.write, hrow, hcol]
    · simp [Sheet.write, hrow]

/-- The position moves to the next column, or to a new row when the row is full. -/
theorem Shows.advance (h : s.Shows sheet) :
    (verticalScrolling
      (if 80 ≤ s.screenX + 1 then { s with screenX := 0, screenY := s.screenY + 1 }
        else { s with screenX := s.screenX + 1 })).Shows sheet.advance := by
  have hx := h.x
  by_cases h80 : 80 ≤ s.screenX + 1
  · rw [if_pos h80, Sheet.advance, dif_neg (by omega)]
    exact h.newRow
  · have hlt : sheet.col + 1 < 80 := by omega
    have hy : ¬ numRows ≤ s.screenY := by
      have := h.y
      simp only [Sheet.top, numRows] at this ⊢
      omega
    rw [if_neg h80, Sheet.advance, dif_pos hlt, verticalScrolling, if_neg hy]
    exact ⟨h.char, h.attr, congrArg (· + 1) hx, h.y⟩

/-- **One character.** -/
theorem Shows.putc (h : s.Shows sheet) (c : UInt8) : (s.putc c).Shows (sheet.putc c) := by
  rw [Screen.putc, Sheet.putc]
  by_cases hnl : c = ascii '\n' ∨ c = ascii '\r'
  · rw [if_pos hnl, if_pos hnl]
    exact h.newRow.updateCursor
  · rw [if_neg hnl, if_neg hnl]
    exact (h.write c).advance.updateCursor

/-- A cleared screen shows the sheet without text. -/
theorem shows_cleanScreen (s : Screen) : s.cleanScreen.Shows .blank :=
  .of_entry (fun _ _ hi hj => s.entry_cleanScreen hi hj) rfl rfl

theorem Shows.foldl (h : s.Shows sheet) (text : List UInt8) :
    (text.foldl Screen.putc s).Shows (text.foldl Sheet.putc sheet) := by
  induction text generalizing s sheet with
  | nil => exact h
  | cons c text ih => exact ih (h.putc c)

/-- **The screen shows the text.** From `clean_screen` on, whatever was on the screen, the cells are
those of the last rows of the layout, and the position is the end of the text. -/
theorem shows_ofText (s : Screen) (text : List UInt8) :
    (text.foldl Screen.putc s.cleanScreen).Shows (.ofText text) :=
  s.shows_cleanScreen.foldl text

end Screen

end Mp3Kernel
