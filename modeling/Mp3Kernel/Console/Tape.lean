import Mathlib.Logic.Function.Iterate
import Mp3Kernel.Console.Sheet

/-!
# The screen as a window on a tape

Whatever the screen holds, its cells are those of the first 25 rows of a tape that is blank behind
them. Characters are written at the position on the tape, and scrolling moves the window down by one
row, so that a cell that has been scrolled off is still on the tape. Backspace moves the position
back by one cell, within the window.

## Main definitions

* `Tape`, `Tape.type`, `Tape.erase`: the tape with its window, a character and a Backspace.
* `Screen.tape`: the tape of a screen.
* `Screen.Views`: the screen is the window.

## Main results

* `Tape.erase_type`: erasing as many characters as have been typed restores the tape, but for the
  cells typed, as long as the first of them is still in the window.
* `Screen.Views.putc`, `Screen.Views.backspaceHandler`: the simulation.

Source: `lib.c`, lines 173–259.
-/

namespace Mp3Kernel

/-- A tape of cells, in rows of 80, with a position in the window of 25 rows. -/
structure Tape where
  /-- The characters and attributes. -/
  cells : ℕ → UInt8 × UInt8
  /-- The cell of the next character. -/
  pos : ℕ
  /-- The first row of the window. -/
  top : ℕ
  /-- The position is not above the window. -/
  top_le : 80 * top ≤ pos
  /-- It is not below the window. -/
  pos_lt : pos < 80 * (top + 25)
  /-- The rows below the window are blank. -/
  blank_below : ∀ p, 80 * (top + 25) ≤ p → cells p = Screen.blankEntry

namespace Tape

/-- A character is written, and the window moves down when the position leaves it. -/
def type (t : Tape) (c : UInt8) : Tape where
  cells := Function.update t.cells t.pos (c, attrib)
  pos := t.pos + 1
  top := if t.pos + 1 < 80 * (t.top + 25) then t.top else t.top + 1
  top_le := by
    have htop := t.top_le
    split_ifs <;> omega
  pos_lt := by
    have hpos := t.pos_lt
    split_ifs <;> omega
  blank_below p hp := by
    have hpos := t.pos_lt
    have hp' : 80 * (t.top + 25) ≤ p := by
      split_ifs at hp <;> omega
    rw [Function.update_of_ne (by omega)]
    exact t.blank_below p hp'

/-- The cell before the position is made blank, and is the position then. -/
def erase (t : Tape) : Tape :=
  if h : 80 * t.top < t.pos then
    { t with
      cells := Function.update t.cells (t.pos - 1) (ascii ' ', (t.cells (t.pos - 1)).2)
      pos := t.pos - 1
      top_le := Nat.le_sub_one_of_lt h
      pos_lt := Nat.lt_of_le_of_lt (Nat.sub_le ..) t.pos_lt
      blank_below := fun p hp => by
        have hpos := t.pos_lt
        rw [Function.update_of_ne (by omega)]
        exact t.blank_below p hp }
  else t

variable {t : Tape}

theorem cells_type_apply (t : Tape) (c : UInt8) (p : ℕ) :
    (t.type c).cells p = if p = t.pos then (c, attrib) else t.cells p :=
  Function.update_apply ..

theorem erase_of_lt (h : 80 * t.top < t.pos) :
    t.erase.cells = Function.update t.cells (t.pos - 1) (ascii ' ', (t.cells (t.pos - 1)).2) ∧
      t.erase.pos = t.pos - 1 ∧ t.erase.top = t.top := by
  rw [erase, dif_pos h]
  exact ⟨rfl, rfl, rfl⟩

/-- The position and the window after a text. -/
theorem position_type (t : Tape) (text : List UInt8) :
    (text.foldl type t).pos = t.pos + text.length ∧
      (text.foldl type t).top = max t.top ((t.pos + text.length) / 80 - 24) := by
  induction text generalizing t with
  | nil =>
    have htop := t.top_le
    have hpos := t.pos_lt
    refine ⟨rfl, ?_⟩
    show t.top = max t.top ((t.pos + 0) / 80 - 24)
    omega
  | cons c text ih =>
    obtain ⟨hpos, htop⟩ := ih (t.type c)
    have hlt := t.pos_lt
    rw [List.foldl_cons, hpos, htop, List.length_cons]
    simp only [type]
    refine ⟨by omega, ?_⟩
    split_ifs <;> omega

/-- The cells in front of the text stay, those of the text have their attribute, and those behind it
stay. -/
theorem cells_type (t : Tape) (text : List UInt8) (p : ℕ) :
    (t.pos ≤ p ∧ p < t.pos + text.length → ((text.foldl type t).cells p).2 = attrib) ∧
      (¬ (t.pos ≤ p ∧ p < t.pos + text.length) → (text.foldl type t).cells p = t.cells p) := by
  induction text generalizing t with
  | nil => exact ⟨fun h => absurd h.2 (by rw [List.length_nil]; omega), fun _ => rfl⟩
  | cons c text ih =>
    obtain ⟨hin, hout⟩ := ih (t.type c)
    rw [List.foldl_cons, List.length_cons]
    simp only [type] at hin hout ⊢
    by_cases hp : p = t.pos
    · have hcell := hout (by omega)
      rw [hp, Function.update_self] at hcell
      refine ⟨fun _ => ?_, fun h => absurd ⟨by omega, by omega⟩ h⟩
      rw [hp]
      exact congrArg Prod.snd hcell
    · rw [Function.update_of_ne hp] at hout
      exact ⟨fun h => hin (by omega), fun h => hout (by omega)⟩

/-- Erasing a number of cells of the window. -/
theorem erase_iterate {n : ℕ} (h : 80 * t.top + n ≤ t.pos) :
    (erase^[n] t).pos = t.pos - n ∧ (erase^[n] t).top = t.top ∧
      ∀ p, (erase^[n] t).cells p =
        if t.pos - n ≤ p ∧ p < t.pos then (ascii ' ', (t.cells p).2) else t.cells p := by
  induction n with
  | zero => exact ⟨rfl, rfl, fun p => (if_neg (by omega)).symm⟩
  | succ n ih =>
    obtain ⟨hpos, htop, hcells⟩ := ih (by omega)
    obtain ⟨hcells', hpos', htop'⟩ := erase_of_lt (t := erase^[n] t) (by omega)
    rw [Function.iterate_succ_apply']
    refine ⟨by omega, htop'.trans htop, fun p => ?_⟩
    rw [hcells', hpos, Function.update_apply, hcells, hcells]
    by_cases hp : p = t.pos - n - 1
    · rw [if_pos hp, ← hp, if_neg (by omega), if_pos (by omega)]
    · simp only [if_neg hp]
      split_ifs <;> first | rfl | omega

/-- **Erasing undoes typing**: as many Backspaces as characters restore the position, and leave the
cells typed blank and all others as they were. -/
theorem erase_type (t : Tape) {text : List UInt8}
    (h : 80 * (text.foldl type t).top ≤ t.pos) :
    (erase^[text.length] (text.foldl type t)).pos = t.pos ∧
      (erase^[text.length] (text.foldl type t)).top = (text.foldl type t).top ∧
      ∀ p, (erase^[text.length] (text.foldl type t)).cells p =
        if t.pos ≤ p ∧ p < t.pos + text.length then Screen.blankEntry else t.cells p := by
  have hpos := (t.position_type text).1
  obtain ⟨hpos', htop', hcells'⟩ := erase_iterate (t := text.foldl type t) (n := text.length)
    (by omega)
  rw [hpos, Nat.add_sub_cancel] at hpos' hcells'
  refine ⟨hpos', htop', fun p => ?_⟩
  obtain ⟨hin, hout⟩ := t.cells_type text p
  rw [hcells']
  by_cases hp : t.pos ≤ p ∧ p < t.pos + text.length
  · rw [if_pos hp, if_pos hp, hin hp]
    rfl
  · rw [if_neg hp, if_neg hp, hout hp]

end Tape

namespace Screen

/-- **The screen is the window of the tape.** -/
structure Views (s : Screen) (t : Tape) : Prop where
  /-- The cells. -/
  entry_eq : ∀ i j : ℕ, i < 25 → j < 80 → s.entry i j = t.cells (80 * (t.top + i) + j)
  /-- The position is that of a cell. -/
  inBounds : s.InBounds
  /-- It is the position on the tape. -/
  position : 80 * s.screenY + s.screenX = t.pos - 80 * t.top

/-- The position of a screen is in the window of its tape. -/
theorem InBounds.position_lt {s : Screen} (h : s.InBounds) :
    (80 * s.screenY + s.screenX).toNat < 80 * (0 + 25) := by
  obtain ⟨hx, hy⟩ := h
  simp only [numCols, numRows] at hx hy
  omega

/-- The tape of a screen. -/
def tape (s : Screen) (h : s.InBounds) : Tape where
  cells p := if p < 2000 then s.entry (p / 80) (p % 80) else blankEntry
  pos := (80 * s.screenY + s.screenX).toNat
  top := 0
  top_le := Nat.zero_le _
  pos_lt := h.position_lt
  blank_below _ hp := if_neg (Nat.not_lt.mpr hp)

theorem views_tape {s : Screen} (h : s.InBounds) : s.Views (s.tape h) where
  entry_eq i j hi hj := by
    have hlt : 80 * (0 + i) + j < 2000 := by omega
    have hdiv : (80 * (0 + i) + j) / 80 = i := by omega
    have hmod : (80 * (0 + i) + j) % 80 = j := by omega
    simp only [tape]
    rw [if_pos hlt, hdiv, hmod]
  inBounds := h
  position := by
    obtain ⟨hx, hy⟩ := h
    simp only [tape]
    omega

variable {s : Screen} {t : Tape}

/-- The position, as a row and a column of the screen. -/
theorem Views.exists_position (h : s.Views t) :
    ∃ r q : ℕ, r < 25 ∧ q < 80 ∧ s.screenY = r ∧ s.screenX = q ∧ t.pos = 80 * (t.top + r) + q := by
  obtain ⟨hx, hy⟩ := h.inBounds
  have hpos := h.position
  simp only [numCols, numRows] at hx hy
  exact ⟨s.screenY.toNat, s.screenX.toNat, by omega, by omega, by omega, by omega, by omega⟩

/-- A screen with its position behind the last row scrolls: the window moves down by one row. -/
theorem views_verticalScrolling {top : ℕ}
    (hcells : ∀ i j : ℕ, i < 25 → j < 80 → s.entry i j = t.cells (80 * (top + i) + j))
    (hblank : ∀ p, 80 * (top + 25) ≤ p → t.cells p = blankEntry) (htop : t.top = top + 1)
    (hx : s.screenX = 0) (hy : s.screenY = 25) (hpos : t.pos = 80 * (top + 25)) :
    s.verticalScrolling.Views t := by
  have hlow : numRows ≤ s.screenY := by
    rw [hy]
    decide
  have hlast : (numRows - 1).toNat = 24 := rfl
  refine ⟨fun i j hi hj => ?_, inBounds_verticalScrolling ?_ ?_, ?_⟩
  · rw [entry_verticalScrolling s hlow hj, hlast, htop]
    by_cases hi' : i = 24
    · rw [if_pos hi']
      exact (hblank _ (by omega)).symm
    · have hrow : top + 1 + i = top + (i + 1) := by omega
      rw [if_neg hi', if_pos (by omega), hrow]
      exact hcells (i + 1) j (by omega) hj
  · rw [hx]
    decide
  · rw [hy]
    decide
  · rw [verticalScrolling, if_pos hlow, (position_blankRow _ _).1, (position_rowsUp _).1,
      (position_blankRow _ _).2, (position_rowsUp _).2, htop, hpos]
    simp only [hx, numRows]
    omega

/-- The position moves to the next cell, and the screen scrolls when it leaves the last row. -/
theorem Views.advance (h : s.Views t) (c : UInt8) :
    (verticalScrolling
      (let s₁ := (s.poke (cell s.screenY s.screenX) c).poke (cell s.screenY s.screenX + 1) attrib
        let s₂ := { s₁ with screenX := s₁.screenX + 1 }
        if 80 ≤ s₂.screenX then { s₂ with screenX := 0, screenY := s₂.screenY + 1 } else s₂)).Views
      (t.type c) := by
  obtain ⟨r, q, hr, hq, hy, hx, hpos⟩ := h.exists_position
  rw [hx, hy]
  dsimp only
  set s₁ : Screen := (s.poke (cell r q) c).poke (cell r q + 1) attrib with hs₁
  have hx₁ : s₁.screenX = q := hx
  have hy₁ : s₁.screenY = r := hy
  have hcells (i j : ℕ) (hi : i < 25) (hj : j < 80) :
      s₁.entry i j = (t.type c).cells (80 * (t.top + i) + j) := by
    rw [hs₁, entry_poke s c attrib hj hq, Tape.cells_type_apply, h.entry_eq i j hi hj]
    by_cases hij : i = r ∧ j = q
    · rw [if_pos hij, if_pos (by omega)]
    · rw [if_neg hij, if_neg (by omega)]
  have hpos' : (t.type c).pos = t.pos + 1 := rfl
  rw [hx₁, hy₁]
  by_cases hscroll : r = 24 ∧ q = 79
  · -- The last cell of the screen has been written.
    obtain ⟨rfl, rfl⟩ := hscroll
    rw [if_pos (by omega)]
    refine views_verticalScrolling hcells (fun p hp => ?_) (if_neg (by omega)) rfl rfl (by omega)
    rw [Tape.cells_type_apply, if_neg (by omega)]
    exact t.blank_below p hp
  have htop : (t.type c).top = t.top := if_pos (by omega)
  rw [← htop] at hcells
  by_cases h80 : (80 : ℤ) ≤ q + 1
  · -- The position goes to the next row.
    rw [if_pos h80, verticalScrolling, if_neg (by simp only [numRows]; omega)]
    refine ⟨hcells, ⟨by simp [numCols], ?_⟩, ?_⟩
    · simp only [numRows]
      omega
    · rw [htop, hpos']
      dsimp only
      omega
  · rw [if_neg h80, verticalScrolling, if_neg (by simp only [numRows]; omega)]
    refine ⟨hcells, ⟨?_, ?_⟩, ?_⟩
    · simp only [numCols]
      omega
    · simp only [numRows]
      omega
    · rw [htop, hpos']
      dsimp only
      omega

/-- **A character.** -/
theorem Views.putc (h : s.Views t) {c : UInt8} (hc : ¬ (c = ascii '\n' ∨ c = ascii '\r')) :
    (s.putc c).Views (t.type c) := by
  have hadv := h.advance c
  rw [Screen.putc, if_neg hc]
  exact ⟨hadv.entry_eq, hadv.inBounds.updateCursor, hadv.position⟩

/-- A text without new lines. -/
theorem Views.foldl_putc (h : s.Views t) {text : List UInt8}
    (hc : ∀ c ∈ text, ¬ (c = ascii '\n' ∨ c = ascii '\r')) :
    (text.foldl Screen.putc s).Views (text.foldl Tape.type t) := by
  induction text generalizing s t with
  | nil => exact h
  | cons c text ih =>
    exact ih (h.putc (hc c List.mem_cons_self)) fun d hd => hc d (List.mem_cons_of_mem c hd)

/-- One byte stored in a cell. -/
theorem entry_poke_char (s : Screen) (c : UInt8) {i j i' j' : ℕ} (hj : j < 80) (hj' : j' < 80) :
    (s.poke (cell i' j') c).entry i j =
      if i = i' ∧ j = j' then (c, (s.entry i j).2) else s.entry i j := by
  have hodd : cell i j + 1 ≠ cell i' j' := by
    simp only [cell]
    omega
  by_cases h : i = i' ∧ j = j'
  · rw [if_pos h]
    obtain ⟨rfl, rfl⟩ := h
    simp only [entry, poke, Function.update_self, Function.update_of_ne hodd]
  · have hne : cell i j ≠ cell i' j' := fun he => h ((cell_inj hj hj').mp he)
    rw [if_neg h]
    simp [entry, poke, hne, hodd]

/-- The cell in row `r` and column `q` is the one before the position: it is made blank, and is the
position then. -/
theorem Views.back (h : s.Views t) {r q : ℕ} (hr : r < 25) (hq : q < 80)
    (hprev : 80 * (t.top + r) + q + 1 = t.pos) :
    (updateCursor ({ s with screenX := (q : ℤ), screenY := (r : ℤ) }.poke (cell r q)
      (ascii ' '))).Views t.erase := by
  obtain ⟨hcells, hpos, htop⟩ := Tape.erase_of_lt (t := t) (by omega)
  have hlast : t.pos - 1 = 80 * (t.top + r) + q := by omega
  rw [hlast] at hcells hpos
  refine ⟨fun i j hi hj => ?_,
    ⟨⟨by simp [updateCursor, poke], ?_⟩, ⟨by simp [updateCursor, poke], ?_⟩⟩, ?_⟩
  · refine (entry_poke_char s (ascii ' ') hj hq).trans ?_
    rw [hcells, htop, Function.update_apply, h.entry_eq i j hi hj]
    by_cases hij : i = r ∧ j = q
    · rw [if_pos hij, if_pos (by omega), hij.1, hij.2]
    · rw [if_neg hij, if_neg (by omega)]
  · simp only [updateCursor, poke, numCols]
    omega
  · simp only [updateCursor, poke, numRows]
    omega
  · simp only [updateCursor, poke]
    omega

/-- **Backspace.** -/
theorem Views.backspaceHandler (h : s.Views t) : s.backspaceHandler.Views t.erase := by
  obtain ⟨r, q, hr, hq, hy, hx, hpos⟩ := h.exists_position
  rw [Screen.backspaceHandler, hx, hy]
  by_cases h0 : r = 0 ∧ q = 0
  · have herase : t.erase = t := dif_neg (by omega)
    rw [if_pos (by omega), herase]
    exact h
  rw [if_neg (by omega)]
  by_cases hq0 : q = 0
  · -- Back to the end of the row above.
    obtain ⟨r, rfl⟩ := Nat.exists_eq_succ_of_ne_zero fun hr0 => h0 ⟨hr0, hq0⟩
    have hrow : ((r + 1 : ℕ) : ℤ) - 1 = r := by omega
    rw [if_pos (by omega), hrow]
    exact h.back (q := 79) (by omega) (by omega) (by omega)
  · obtain ⟨q, rfl⟩ := Nat.exists_eq_succ_of_ne_zero hq0
    have hcol : ((q + 1 : ℕ) : ℤ) - 1 = q := by omega
    rw [if_neg (by omega), hcol]
    exact h.back hr (by omega) (by omega)

theorem Views.backspaceHandler_iterate (h : s.Views t) (n : ℕ) :
    (Screen.backspaceHandler^[n] s).Views (Tape.erase^[n] t) := by
  induction n generalizing s t with
  | zero => exact h
  | succ n ih => exact ih h.backspaceHandler

end Screen

end Mp3Kernel
