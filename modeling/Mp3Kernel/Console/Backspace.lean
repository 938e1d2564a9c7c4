import Mp3Kernel.Console.Modifiers
import Mp3Kernel.Console.Tape
import Mp3Kernel.Console.VideoBounds

/-!
# Backspace undoes typing

A run of keys other than Enter, Backspace and Ctrl appends a text to the line and writes the same
text to the screen. As many Backspaces as it has characters take it back from both, although typing
may have scrolled the screen: a line has at most 127 characters, so that its first cell is never
scrolled off while it is typed.

## Main definitions

* `TypingKey`: the keys of a run.
* `Console.Appends`: a text has been appended to the line and echoed.
* `Screen.scrolledBy`: the number of rows that a number of characters scrolls.
* `Console.Restores`: the console is as it was, up to the rows scrolled.

## Main results

* `Console.exists_appends_scancodes`: a run of typing keys appends a text.
* `backspace_undoes_typing`: Backspace undoes typing.

Source: `keyboard.c`, lines 119–249; `lib.c`, lines 173–259.
-/

namespace Mp3Kernel

/-! ### Typing -/

/-- The keys that type a character, Tab, the modifiers but Ctrl, and the releases. -/
def TypingKey (scancode : UInt8) : Prop :=
  scancode ≠ leftCtrlMake ∧ scancode ≠ enterKey ∧ scancode ≠ backspaceKey

/-- Only Enter has a line break in the table. -/
theorem keyPressed_not_break {scancode : UInt8} (h : scancode ≠ enterKey) (shift caps : Bool) :
    ¬ (keyPressed shift caps scancode = ascii '\n' ∨
      keyPressed shift caps scancode = ascii '\r') := by
  revert shift caps h
  refine forall_byte scancode ?_
  decide +kernel

namespace Console

/-- The text has been appended to the line and written to the screen. -/
structure Appends (t : Console) (text : List UInt8) (t' : Console) : Prop where
  /-- The screen. -/
  screen : t'.screen = text.foldl Screen.putc t.screen
  /-- The text is part of one line. -/
  noBreak : ∀ c ∈ text, ¬ (c = ascii '\n' ∨ c = ascii '\r')
  /-- The position. -/
  position : t'.keyboard.bufferPosition.toNat = t.keyboard.bufferPosition.toNat + text.length
  /-- The line before. -/
  buffer : ∀ i < t.keyboard.bufferPosition.toNat,
    t'.keyboard.keyboardBuffer i = t.keyboard.keyboardBuffer i
  /-- Ctrl. -/
  ctrl : t.keyboard.ctrlPressed = false → t'.keyboard.ctrlPressed = false

variable {t t₁ t₂ : Console} {text text' : List UInt8} {scancode : UInt8}

theorem Appends.refl (t : Console) : t.Appends [] t :=
  ⟨rfl, fun _ h => absurd h List.not_mem_nil, rfl, fun _ _ => rfl, id⟩

theorem Appends.trans (h : t.Appends text t₁) (h' : t₁.Appends text' t₂) :
    t.Appends (text ++ text') t₂ where
  screen := by rw [h'.screen, h.screen, List.foldl_append]
  noBreak c hc := (List.mem_append.mp hc).elim (h.noBreak c) (h'.noBreak c)
  position := by rw [h'.position, h.position, List.length_append, Nat.add_assoc]
  buffer i hi := by
    have hpos := h.position
    rw [h'.buffer i (by omega), h.buffer i hi]
  ctrl := h'.ctrl ∘ h.ctrl

/-- A character is appended, or the line is full. -/
theorem exists_appends_typeChar (t : Console) {c : UInt8}
    (hc : ¬ (c = ascii '\n' ∨ c = ascii '\r')) : ∃ text, t.Appends text (t.typeChar c) := by
  rw [typeChar]
  by_cases hlt : t.keyboard.bufferPosition.toNat < maxBufferSize
  · rw [if_pos hlt]
    refine ⟨[c], rfl, fun d hd => ?_, ?_, fun i hi => ?_, id⟩
    · rw [List.mem_singleton.mp hd]
      exact hc
    · show (t.keyboard.bufferPosition + 1).toNat = _
      rw [UInt8.toNat_add, UInt8.toNat_one, List.length_singleton]
      simp only [maxBufferSize] at hlt
      omega
    · exact Function.update_of_ne (Nat.ne_of_lt hi) ..
  · rw [if_neg hlt]
    exact ⟨[], .refl t⟩

/-- Tab appends spaces. -/
theorem exists_appends_tab (t : Console) (l : List ℕ) {c : UInt8}
    (hc : ¬ (c = ascii '\n' ∨ c = ascii '\r')) :
    ∃ text, t.Appends text (l.foldl (fun t _ => t.typeChar c) t) := by
  induction l generalizing t with
  | nil => exact ⟨[], .refl t⟩
  | cons _ l ih =>
    obtain ⟨text, h⟩ := t.exists_appends_typeChar hc
    obtain ⟨text', h'⟩ := ih (t.typeChar c)
    exact ⟨text ++ text', h.trans h'⟩

/-- The keys that are handled apart append nothing, but for Tab. -/
theorem exists_appends_handleSpecialKey (t : Console) (hk : TypingKey scancode) :
    ∃ text, t.Appends text (t.handleSpecialKey scancode).2 := by
  obtain ⟨hctrl, -, hback⟩ := hk
  by_cases htab : scancode = tabKey
  · subst htab
    have hspace : ¬ (ascii ' ' = ascii '\n' ∨ ascii ' ' = ascii '\r') := by decide
    have hstep : t.handleSpecialKey tabKey =
        (true, (List.range 4).foldl (fun t _ => t.typeChar (ascii ' ')) t) := rfl
    rw [hstep]
    dsimp only
    exact t.exists_appends_tab (List.range 4) hspace
  · refine ⟨[], ?_⟩
    simp only [handleSpecialKey, if_neg hctrl, if_neg hback, if_neg htab]
    split_ifs
    all_goals
      refine ⟨rfl, fun _ h => absurd h List.not_mem_nil, rfl, fun _ _ => rfl, ?_⟩
      first | exact id | exact fun _ => rfl

/-- **One scancode** appends a text. -/
theorem exists_appends_handleKeyboardIrq (hctrl : t.keyboard.ctrlPressed = false)
    (hk : TypingKey scancode) : ∃ text, t.Appends text (t.handleKeyboardIrq scancode) := by
  obtain ⟨text, h⟩ := t.exists_appends_handleSpecialKey hk
  rw [handleKeyboardIrq]
  dsimp only
  set t₁ := (t.handleSpecialKey scancode).2
  split_ifs
  · exact ⟨text, h⟩
  · have hnot := keyPressed_not_break hk.2.1 t₁.keyboard.shiftPressed t₁.keyboard.capslockState
    have hctrl₁ := h.ctrl hctrl
    obtain ⟨text', h'⟩ := t₁.exists_appends_typeChar hnot
    rw [handleKey, if_neg (by simp [hctrl₁]), if_neg (not_or.mp hnot).1]
    exact ⟨text ++ text', h.trans h'⟩
  · exact ⟨text, h⟩

/-- **A run of typing keys** appends a text. -/
theorem exists_appends_scancodes (hctrl : t.keyboard.ctrlPressed = false) {keys : List UInt8}
    (hkeys : ∀ k ∈ keys, TypingKey k) : ∃ text, t.Appends text (t.scancodes keys) := by
  induction keys generalizing t with
  | nil => exact ⟨[], .refl t⟩
  | cons k keys ih =>
    obtain ⟨text, h⟩ := exists_appends_handleKeyboardIrq hctrl (hkeys k List.mem_cons_self)
    obtain ⟨text', h'⟩ := ih (h.ctrl hctrl) fun k hk => hkeys k (List.mem_cons_of_mem _ hk)
    exact ⟨text ++ text', h.trans h'⟩

/-! ### Backspace -/

theorem handleKeyboardIrq_backspace (h : 0 < t.keyboard.bufferPosition.toNat) :
    t.handleKeyboardIrq backspaceKey = { t with
      keyboard := { t.keyboard with bufferPosition := t.keyboard.bufferPosition - 1 }
      screen := t.screen.backspaceHandler } := by
  have hstep : t.handleSpecialKey backspaceKey = (true, { t with
      keyboard := { t.keyboard with bufferPosition := t.keyboard.bufferPosition - 1 }
      screen := t.screen.backspaceHandler }) :=
    if_pos (UInt8.lt_iff_toNat_lt.mpr (by rwa [UInt8.toNat_zero]))
  rw [handleKeyboardIrq, hstep]
  rfl

/-- **A run of Backspaces** within the line. -/
theorem scancodes_backspace {n : ℕ} (h : n ≤ t.keyboard.bufferPosition.toNat) :
    (t.scancodes (List.replicate n backspaceKey)).screen = Screen.backspaceHandler^[n] t.screen ∧
      (t.scancodes (List.replicate n backspaceKey)).keyboard.bufferPosition.toNat =
        t.keyboard.bufferPosition.toNat - n ∧
      (t.scancodes (List.replicate n backspaceKey)).keyboard.keyboardBuffer =
        t.keyboard.keyboardBuffer := by
  induction n generalizing t with
  | zero => exact ⟨rfl, rfl, rfl⟩
  | succ n ih =>
    have hpos : (t.keyboard.bufferPosition - 1).toNat = t.keyboard.bufferPosition.toNat - 1 :=
      UInt8.toNat_sub_of_le _ _ (UInt8.le_iff_toNat_le.mpr (by rw [UInt8.toNat_one]; omega))
    have hrun : t.scancodes (List.replicate (n + 1) backspaceKey) =
        scancodes (List.replicate n backspaceKey) { t with
          keyboard := { t.keyboard with bufferPosition := t.keyboard.bufferPosition - 1 }
          screen := t.screen.backspaceHandler } := by
      rw [← handleKeyboardIrq_backspace (by omega)]
      rfl
    rw [hrun]
    obtain ⟨hscreen, hposition, hbuffer⟩ := ih (t := { t with
      keyboard := { t.keyboard with bufferPosition := t.keyboard.bufferPosition - 1 }
      screen := t.screen.backspaceHandler }) (by dsimp only; omega)
    refine ⟨hscreen, ?_, hbuffer⟩
    rw [hposition]
    dsimp only
    omega

end Console

/-! ### The round trip -/

namespace Screen

/-- The number of the cell at the position, row by row. -/
def offset (s : Screen) : ℕ := (80 * s.screenY + s.screenX).toNat

/-- The number of rows that `m` characters scroll: the rows by which their end lies below the last
row of the screen. -/
def scrolledBy (s : Screen) (m : ℕ) : ℕ := (s.offset + m) / 80 - 24

variable {s : Screen}

theorem cursorAt_foldl_putc (h : s.InBounds) (hc : s.CursorAt) (text : List UInt8) :
    (text.foldl putc s).InBounds ∧ (text.foldl putc s).CursorAt := by
  induction text generalizing s with
  | nil => exact ⟨h, hc⟩
  | cons c text ih => exact ih (h.putc c) (h.cursorAt_putc c)

theorem cursorAt_backspaceHandler_iterate (h : s.InBounds) (hc : s.CursorAt) (n : ℕ) :
    (backspaceHandler^[n] s).CursorAt := by
  induction n generalizing s with
  | zero => exact hc
  | succ n ih =>
    refine ih h.backspaceHandler ?_
    by_cases h0 : s.screenX = 0 ∧ s.screenY = 0
    · rw [backspaceHandler, if_pos h0]
      exact hc
    · exact h.cursorAt_backspaceHandler h0

/-- The screen is as it was, moved up by the rows scrolled, with the `m` cells from the position on
and the rows below blank. -/
structure Restores (s : Screen) (m : ℕ) (s' : Screen) : Prop where
  /-- The column. -/
  x : s'.screenX = s.screenX
  /-- The row. -/
  y : s'.screenY = s.screenY - s.scrolledBy m
  /-- The cells typed. -/
  typed : ∀ i j : ℕ, i < 25 → j < 80 → s.offset ≤ 80 * (i + s.scrolledBy m) + j →
    80 * (i + s.scrolledBy m) + j < s.offset + m → s'.entry i j = blankEntry
  /-- The other cells. -/
  other : ∀ i j : ℕ, i + s.scrolledBy m < 25 → j < 80 →
    ¬ (s.offset ≤ 80 * (i + s.scrolledBy m) + j ∧ 80 * (i + s.scrolledBy m) + j < s.offset + m) →
      s'.entry i j = s.entry (i + s.scrolledBy m) j
  /-- The rows scrolled in. -/
  below : ∀ i j : ℕ, i < 25 → j < 80 → 25 ≤ i + s.scrolledBy m → s'.entry i j = blankEntry
  /-- The cursor registers. -/
  cursor : s.CursorAt → s'.CursorAt

/-- **The screen**: a text of at most 127 characters and as many Backspaces. -/
theorem restores_putc_backspace (h : s.InBounds) {text : List UInt8}
    (hc : ∀ c ∈ text, ¬ (c = ascii '\n' ∨ c = ascii '\r')) (hlen : text.length ≤ maxBufferSize) :
    s.Restores text.length (backspaceHandler^[text.length] (text.foldl putc s)) := by
  rw [maxBufferSize] at hlen
  have hrow := h.y
  have hcol := h.x
  simp only [numCols, numRows] at hrow hcol
  have hoffset : (s.offset : ℤ) = 80 * s.screenY + s.screenX := by
    rw [offset]
    omega
  set k := s.scrolledBy text.length with hk
  rw [scrolledBy] at hk
  have htop : (text.foldl Tape.type (s.tape h)).top = k := by
    rw [(Tape.position_type _ _).2]
    exact Nat.max_eq_right (Nat.zero_le _)
  have hstart : (s.tape h).pos = s.offset := rfl
  -- The first cell typed is still in the window.
  have hfirst : 80 * (text.foldl Tape.type (s.tape h)).top ≤ (s.tape h).pos := by
    rw [htop, hstart]
    omega
  obtain ⟨hpos, htop', hcells⟩ := Tape.erase_type (s.tape h) hfirst
  rw [htop] at htop'
  rw [hstart] at hpos hcells
  have hviews := ((views_tape h).foldl_putc hc).backspaceHandler_iterate text.length
  have hin := hviews.inBounds.x
  have hposition := hviews.position
  simp only [numCols] at hin
  rw [hpos, htop', hoffset] at hposition
  have hentry (i j : ℕ) (hi : i < 25) (hj : j < 80) := hviews.entry_eq i j hi hj
  simp only [htop', hcells, Nat.add_comm k] at hentry
  refine ⟨by omega, by omega, fun i j hi hj hlow hhigh => ?_, fun i j hi hj hout => ?_,
    fun i j hi hj hlow => ?_, fun hcur => ?_⟩
  · rw [hentry i j hi hj, if_pos ⟨hlow, hhigh⟩]
  · have hdiv : (80 * (i + k) + j) / 80 = i + k := by omega
    have hmod : (80 * (i + k) + j) % 80 = j := by omega
    rw [hentry i j (by omega) hj, if_neg hout]
    simp only [tape]
    rw [if_pos (by omega), hdiv, hmod]
  · rw [hentry i j hi hj]
    split_ifs
    · rfl
    · exact if_neg (by omega)
  · obtain ⟨hin', hcur'⟩ := cursorAt_foldl_putc h hcur text
    exact cursorAt_backspaceHandler_iterate hin' hcur' _

end Screen

namespace Console

/-- The line and the screen are as they were, up to the rows that the `m` characters have scrolled.
-/
structure Restores (t : Console) (m : ℕ) (t' : Console) : Prop where
  /-- `buffer_position`. -/
  position : t'.keyboard.bufferPosition = t.keyboard.bufferPosition
  /-- The line. -/
  buffer : ∀ i < t.keyboard.bufferPosition.toNat,
    t'.keyboard.keyboardBuffer i = t.keyboard.keyboardBuffer i
  /-- The screen. -/
  screen : t.screen.Restores m t'.screen

end Console

/-- **Backspace undoes typing.** For every screen and every position on it, every line and every run
of typing keys without Ctrl that adds `m` characters to the line, `m` Backspaces behind it restore
the line, the position and the screen, up to the rows scrolled, and leave the cells typed blank. -/
theorem backspace_undoes_typing {t : Console} (hs : t.screen.InBounds)
    (hctrl : t.keyboard.ctrlPressed = false) {keys : List UInt8} (hkeys : ∀ k ∈ keys, TypingKey k)
    {m : ℕ} (hm : (t.scancodes keys).keyboard.bufferPosition.toNat =
      t.keyboard.bufferPosition.toNat + m)
    (hle : t.keyboard.bufferPosition.toNat + m ≤ maxBufferSize) :
    t.Restores m (t.scancodes (keys ++ List.replicate m backspaceKey)) := by
  obtain ⟨text, h⟩ := Console.exists_appends_scancodes hctrl hkeys
  have hpos := h.position
  obtain rfl : m = text.length := by omega
  obtain ⟨hscreen, hposition, hbuffer⟩ :=
    Console.scancodes_backspace (t := t.scancodes keys) (n := text.length) (by omega)
  rw [Console.scancodes_append]
  refine ⟨UInt8.toNat_inj.mp (by omega), fun i hi => ?_, ?_⟩
  · rw [hbuffer]
    exact h.buffer i hi
  · rw [hscreen, h.screen]
    exact Screen.restores_putc_backspace hs h.noBreak (by omega)

/-- A full screen, with the position near its end. -/
def fullScreen : Console := ⟨.init, ⟨fun _ => 0x2A, 77, 24, 0, 0⟩, fun _ => 0⟩

/-- Tab and `a` scroll the screen, and five Backspaces take them back. -/
theorem backspace_undoes_typing_fullScreen : fullScreen.Restores 5
    (fullScreen.scancodes ([tabKey, 0x1E] ++ List.replicate 5 backspaceKey)) := by
  have htab : TypingKey tabKey := ⟨by decide, by decide, by decide⟩
  have ha : TypingKey 0x1E := ⟨by decide, by decide, by decide⟩
  exact backspace_undoes_typing ⟨by decide, by decide⟩ rfl
    (List.forall_mem_cons.mpr ⟨htab, List.forall_mem_singleton.mpr ha⟩) rfl (by decide)

end Mp3Kernel
