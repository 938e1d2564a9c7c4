import Mp3Kernel.Console.LineEditor
import Mp3Kernel.Transition.Fold

/-!
# The driver and the layout of the keys

A second reference editor takes the characters from the legends of the keys instead of the table
of the driver: a letter takes upper case when exactly one of Shift and Caps Lock is active, every
other key follows Shift, and a key without a legend types nothing.

The table departs from the legends in two entries of its Caps Lock column, where `;` becomes `:`
and `b` becomes `V`, and the driver appends the zero of its table for the keys without a legend.
These keys are the only ones for which the driver departs from the layout.

## Main definitions

* `legend`, `legendChar`: the layout.
* `Editor.layoutKey`, `typedText`: the reference editor.
* `Keyboard.contents`: the line in the keyboard buffer.
* `Keyboard.Types`: the driver is not about to append a character that the layout does not have.

## Main results

* `legendChar_eq_keyPressed_iff`: where the table agrees with the layout.
* `contents_eq_typedText_iff`: the driver holds the line of the reference editor throughout exactly
  when every key is one that it types as the layout has it.
* `contents_caps_b`: Caps Lock and `b` leave a `V`.

Source: `keyboard.c`, lines 21–80, 119–178 and 189–249.
-/

namespace Mp3Kernel

/-! ### The layout -/

/-- The keys of one row of the keyboard, from a scancode on, with the characters on them. -/
structure KeyBlock where
  /-- The scancode of the first key. -/
  first : ℕ
  /-- The characters typed without modifiers. -/
  plain : List Char
  /-- The characters typed with Shift. -/
  shifted : List Char

/-- The keys of a row of letters. -/
def KeyBlock.letters (first : ℕ) (plain : List Char) : KeyBlock :=
  ⟨first, plain, plain.map Char.toUpper⟩

/-- The printing keys. -/
def keyBlocks : List KeyBlock :=
  [⟨0x02, ['1', '2', '3', '4', '5', '6', '7', '8', '9', '0', '-', '='],
      ['!', '@', '#', '$', '%', '^', '&', '*', '(', ')', '_', '+']⟩,
    .letters 0x10 ['q', 'w', 'e', 'r', 't', 'y', 'u', 'i', 'o', 'p'],
    ⟨0x1A, ['[', ']'], ['\x7b', '\x7d']⟩,
    .letters 0x1E ['a', 's', 'd', 'f', 'g', 'h', 'j', 'k', 'l'],
    ⟨0x27, [';', '\x27', '\x60'], [':', '\x22', '~']⟩,
    ⟨0x2B, ['\x5c'], ['|']⟩,
    .letters 0x2C ['z', 'x', 'c', 'v', 'b', 'n', 'm'],
    ⟨0x33, [',', '.', '/'], ['<', '>', '?']⟩,
    ⟨0x39, [' '], [' ']⟩]

/-- The characters on a key, without modifiers and with Shift. -/
def legend (scancode : UInt8) : Option (Char × Char) :=
  keyBlocks.findSome? fun b =>
    if b.first ≤ scancode.toNat then (b.plain.zip b.shifted)[scancode.toNat - b.first]? else none

/-- The character that a key types. -/
def legendChar (shift caps : Bool) (scancode : UInt8) : Option UInt8 :=
  (legend scancode).map fun (plain, shifted) =>
    ascii (if (if plain.isAlpha then shift != caps else shift) then shifted else plain)

/-- The scancode of the key `L`. -/
def keyL : UInt8 := 0x26

/-! ### The reference editor -/

/-- One scancode. -/
def Editor.layoutKey (e : Editor) (scancode : UInt8) : Editor :=
  if scancode = capslockMake then { e with caps := !e.caps }
  else if scancode = leftShiftMake ∨ scancode = rightShiftMake then { e with shift := true }
  else if scancode = leftShiftBreak ∨ scancode = rightShiftBreak then { e with shift := false }
  else if scancode = leftCtrlMake then { e with ctrl := true }
  else if scancode = leftCtrlBreak then { e with ctrl := false }
  else if scancode = backspaceKey then { e with line := e.line.dropLast }
  else if scancode = tabKey then (List.range 4).foldl (fun e _ => e.type (ascii ' ')) e
  else if scancode = enterKey then { e with line := [] }
  else if e.ctrl ∧ scancode = keyL then { e with line := [] }
  else
    match legendChar e.shift e.caps scancode with
    | some c => e.type c
    | none => e

/-- The line of the reference editor. -/
def typedText (keys : List UInt8) : List UInt8 := (keys.foldl Editor.layoutKey .init).line

namespace Keyboard

/-- `keyboard_buffer[0..buffer_position)`. -/
def contents (k : Keyboard) : List UInt8 :=
  (List.range k.bufferPosition.toNat).map k.keyboardRead

/-- The keys of the table without a legend: none, Escape and the `*` of the keypad. -/
def noLegend : List UInt8 := [0x00, 0x01, 0x37]

/-- The keys with a wrong entry in the Caps Lock column: `;` and `b`. -/
def misprinted : List UInt8 := [0x27, 0x30]

/-- The key either finds the line full, or has a legend and is not one of the two keys with a wrong
entry while Caps Lock is on and Shift is not. -/
def Types (k : Keyboard) (scancode : UInt8) : Prop :=
  k.bufferPosition.toNat = maxBufferSize ∨
    scancode ∉ noLegend ∧
      ¬ (k.capslockState = true ∧ k.shiftPressed = false ∧ scancode ∈ misprinted)

end Keyboard

/-! ### The table and the layout -/

/-- The scancodes that the reference editor treats alike whatever the layout is. -/
def controlKeys : List UInt8 :=
  [capslockMake, leftShiftMake, rightShiftMake, leftShiftBreak, rightShiftBreak, leftCtrlMake,
    leftCtrlBreak, leftAltMake, backspaceKey, tabKey, enterKey]

/-- A property of a byte holds when it holds of all of them. -/
@[elab_as_elim]
theorem forall_byte {P : UInt8 → Prop} (c : UInt8) (h : ∀ i : Fin 256, P (UInt8.ofNat i)) :
    P c := by
  have hi := h ⟨c.toNat, c.toNat_lt⟩
  simpa only [UInt8.ofNat_toNat] using hi

/-- The table has the character of the layout, except on the keys without a legend and on the two
with a wrong entry. -/
theorem legendChar_eq_keyPressed_iff {scancode : UInt8} (hlt : scancode.toNat < keyCount)
    (hc : scancode ∉ controlKeys) (shift caps : Bool) :
    legendChar shift caps scancode = some (keyPressed shift caps scancode) ↔
      scancode ∉ Keyboard.noLegend ∧
        ¬ (caps = true ∧ shift = false ∧ scancode ∈ Keyboard.misprinted) := by
  revert shift caps hlt hc
  refine forall_byte scancode ?_
  decide +kernel

/-- Only the key `L` has the letter in the table, and only Enter the newline. -/
theorem keyPressed_ne {scancode : UInt8} (hlt : scancode.toNat < keyCount)
    (hc : scancode ∉ controlKeys) (shift caps : Bool) :
    keyPressed shift caps scancode ≠ ascii '\n' ∧
      (keyPressed shift caps scancode = ascii 'L' ∨ keyPressed shift caps scancode = ascii 'l' ↔
        scancode = keyL) := by
  revert shift caps hlt hc
  refine forall_byte scancode ?_
  decide +kernel

/-- A scancode behind the table has no legend. -/
theorem legendChar_of_le {scancode : UInt8} (h : keyCount ≤ scancode.toNat) (shift caps : Bool) :
    legendChar shift caps scancode = none := by
  have hnone : legend scancode = none := by
    revert h
    refine forall_byte scancode ?_
    decide +kernel
  rw [legendChar, hnone]
  rfl

/-! ### The two reference editors -/

namespace Editor

variable {e : Editor} {scancode : UInt8}

theorem key_enterKey : e.key true enterKey = { e with line := [] } := by
  have hkey : e.key true enterKey = e.typeKey true (keyPressed e.shift e.caps enterKey) := rfl
  rw [hkey, Console.keyPressed_enterKey, typeKey, if_neg fun h => absurd h.2 (by decide),
    if_pos rfl]

theorem layoutKey_leftAltMake : e.layoutKey leftAltMake = e := by
  have hl : legend leftAltMake = none := by decide +kernel
  have hkey : e.layoutKey leftAltMake =
      if e.ctrl ∧ leftAltMake = keyL then { e with line := [] } else
        match legendChar e.shift e.caps leftAltMake with
        | some c => e.type c
        | none => e := rfl
  rw [hkey, if_neg fun h => absurd h.2 (by decide), legendChar, hl]
  rfl

theorem key_eq_of_mem_controlKeys (h : scancode ∈ controlKeys) :
    e.key true scancode = e.layoutKey scancode := by
  simp only [controlKeys, List.mem_cons, List.not_mem_nil, or_false] at h
  rcases h with rfl | rfl | rfl | rfl | rfl | rfl | rfl | rfl | rfl | rfl | rfl
  case inr.inr.inr.inr.inr.inr.inr.inl => exact layoutKey_leftAltMake.symm
  case inr.inr.inr.inr.inr.inr.inr.inr.inr.inr => exact key_enterKey
  all_goals rfl

theorem key_of_not_mem_controlKeys (h : scancode ∉ controlKeys) :
    e.key true scancode = if scancode.toNat < keyCount then
      e.typeKey true (keyPressed e.shift e.caps scancode) else e := by
  simp only [controlKeys, List.mem_cons, List.not_mem_nil, or_false, not_or] at h
  obtain ⟨h1, h2, h3, h4, h5, h6, h7, h8, h9, h10, -⟩ := h
  simp only [key, h1, h2, h3, h4, h5, h6, h7, h8, h9, h10, or_self, if_false]

theorem layoutKey_of_not_mem_controlKeys (h : scancode ∉ controlKeys) :
    e.layoutKey scancode = if e.ctrl ∧ scancode = keyL then { e with line := [] } else
      match legendChar e.shift e.caps scancode with
      | some c => e.type c
      | none => e := by
  simp only [controlKeys, List.mem_cons, List.not_mem_nil, or_false, not_or] at h
  obtain ⟨h1, h2, h3, h4, h5, h6, h7, -, h9, h10, h11⟩ := h
  simp only [layoutKey, h1, h2, h3, h4, h5, h6, h7, h9, h10, h11, or_self, if_false]

theorem line_type_of_lt (h : e.line.length < maxBufferSize) (c : UInt8) :
    (e.type c).line = e.line ++ [c] := by
  rw [type, if_pos h]

theorem type_of_not_lt (h : ¬ e.line.length < maxBufferSize) (c : UInt8) : e.type c = e := by
  rw [type, if_neg h]

theorem typeKey_of_ne (e : Editor) {c : UInt8} (h : c ≠ ascii '\n') :
    e.typeKey true c = if e.ctrl ∧ (c = ascii 'L' ∨ c = ascii 'l') then { e with line := [] }
      else e.type c := by
  simp [typeKey, h]

/-- The condition of `Keyboard.Types` on an editor. -/
def Types (e : Editor) (scancode : UInt8) : Prop :=
  e.line.length = maxBufferSize ∨
    scancode ∉ Keyboard.noLegend ∧
      ¬ (e.caps = true ∧ e.shift = false ∧ scancode ∈ Keyboard.misprinted)

/-- One scancode: the editor with the driver's table keeps the line of the reference editor exactly
when it types the key as the layout has it. -/
theorem line_key_eq_iff (hle : e.line.length ≤ maxBufferSize) :
    (e.key true scancode).line = (e.layoutKey scancode).line ↔ e.Types scancode := by
  by_cases hc : scancode ∈ controlKeys
  · have htypes : ∀ s ∈ controlKeys, s ∉ Keyboard.noLegend ∧ s ∉ Keyboard.misprinted := by
      decide +kernel
    have hs := htypes scancode hc
    exact iff_of_true (by rw [key_eq_of_mem_controlKeys hc]) (.inr ⟨hs.1, fun h => hs.2 h.2.2⟩)
  rw [key_of_not_mem_controlKeys hc, layoutKey_of_not_mem_controlKeys hc]
  by_cases hlt : scancode.toNat < keyCount
  · obtain ⟨hnl, hL⟩ := keyPressed_ne hlt hc e.shift e.caps
    rw [if_pos hlt, typeKey_of_ne e hnl]
    simp only [hL]
    by_cases hclear : e.ctrl ∧ scancode = keyL
    · rw [if_pos hclear, if_pos hclear, hclear.2]
      exact iff_of_true rfl (.inr ⟨by decide, fun h => absurd h.2.2 (by decide)⟩)
    · rw [if_neg hclear, if_neg hclear, Types, ← legendChar_eq_keyPressed_iff hlt hc]
      by_cases hfull : e.line.length < maxBufferSize
      · rw [or_iff_right hfull.ne]
        cases hl : legendChar e.shift e.caps scancode with
        | none => simp [line_type_of_lt hfull]
        | some c => simp [line_type_of_lt hfull, eq_comm]
      · rw [or_iff_left_of_imp fun _ => hle.antisymm (Nat.not_lt.mp hfull)]
        refine iff_of_true ?_ (hle.antisymm (Nat.not_lt.mp hfull))
        cases legendChar e.shift e.caps scancode <;> simp only [type_of_not_lt hfull]
  · have hge : keyCount ≤ scancode.toNat := Nat.not_lt.mp hlt
    have hL : scancode ≠ keyL := by
      rintro rfl
      exact absurd hge (by decide)
    rw [if_neg hlt, if_neg fun h => hL h.2, legendChar_of_le hge]
    refine iff_of_true rfl (.inr ⟨?_, ?_⟩)
    · intro hmem
      have hall : ∀ s ∈ Keyboard.noLegend, s.toNat < keyCount := by
        simp [Keyboard.noLegend, keyCount]
      exact hlt (hall _ hmem)
    · rintro ⟨-, -, hmem⟩
      have hall : ∀ s ∈ Keyboard.misprinted, s.toNat < keyCount := by
        simp [Keyboard.misprinted, keyCount]
      exact hlt (hall _ hmem)

/-- The two editors have the same modifiers. -/
structure SameModifiers (e e' : Editor) : Prop where
  /-- Ctrl. -/
  ctrl : e.ctrl = e'.ctrl
  /-- Shift. -/
  shift : e.shift = e'.shift
  /-- Caps Lock. -/
  caps : e.caps = e'.caps

theorem SameModifiers.symm {e' : Editor} (h : e.SameModifiers e') : e'.SameModifiers e :=
  ⟨h.ctrl.symm, h.shift.symm, h.caps.symm⟩

theorem SameModifiers.trans {e' e'' : Editor} (h : e.SameModifiers e')
    (h' : e'.SameModifiers e'') : e.SameModifiers e'' :=
  ⟨h.ctrl.trans h'.ctrl, h.shift.trans h'.shift, h.caps.trans h'.caps⟩

theorem sameModifiers_type (e : Editor) (c : UInt8) : (e.type c).SameModifiers e := by
  rw [type]
  split_ifs <;> exact ⟨rfl, rfl, rfl⟩

theorem sameModifiers_tab (e : Editor) (l : List ℕ) (c : UInt8) :
    (l.foldl (fun e _ => e.type c) e).SameModifiers e := by
  induction l generalizing e with
  | nil => exact ⟨rfl, rfl, rfl⟩
  | cons _ l ih => exact (ih (e.type c)).trans (e.sameModifiers_type c)

theorem sameModifiers_typeKey (e : Editor) (c : UInt8) : (e.typeKey true c).SameModifiers e := by
  rw [typeKey]
  split_ifs
  · exact ⟨rfl, rfl, rfl⟩
  · exact ⟨rfl, rfl, rfl⟩
  · exact ⟨rfl, rfl, rfl⟩
  · exact e.sameModifiers_type c

theorem sameModifiers_layoutKey (e : Editor) (h : scancode ∉ controlKeys) :
    (e.layoutKey scancode).SameModifiers e := by
  rw [layoutKey_of_not_mem_controlKeys h]
  split_ifs
  · exact ⟨rfl, rfl, rfl⟩
  · cases legendChar e.shift e.caps scancode with
    | none => exact ⟨rfl, rfl, rfl⟩
    | some c => exact e.sameModifiers_type c

variable {e' : Editor}

/-- Every scancode changes the modifiers of the two editors alike, whatever their lines are. -/
theorem SameModifiers.key (h : e.SameModifiers e') (scancode : UInt8) :
    (e.key true scancode).SameModifiers (e'.layoutKey scancode) := by
  by_cases hc : scancode ∈ controlKeys
  · rw [key_eq_of_mem_controlKeys hc]
    simp only [controlKeys, List.mem_cons, List.not_mem_nil, or_false] at hc
    rcases hc with rfl | rfl | rfl | rfl | rfl | rfl | rfl | rfl | rfl | rfl | rfl
    · exact ⟨h.ctrl, h.shift, congrArg not h.caps⟩
    · exact ⟨h.ctrl, rfl, h.caps⟩
    · exact ⟨h.ctrl, rfl, h.caps⟩
    · exact ⟨h.ctrl, rfl, h.caps⟩
    · exact ⟨h.ctrl, rfl, h.caps⟩
    · exact ⟨rfl, h.shift, h.caps⟩
    · exact ⟨rfl, h.shift, h.caps⟩
    · rwa [layoutKey_leftAltMake, layoutKey_leftAltMake]
    · exact ⟨h.ctrl, h.shift, h.caps⟩
    · have htab := e.sameModifiers_tab (List.range 4) (ascii ' ')
      exact (htab.trans h).trans (e'.sameModifiers_tab (List.range 4) (ascii ' ')).symm
    · exact ⟨h.ctrl, h.shift, h.caps⟩
  · rw [key_of_not_mem_controlKeys hc]
    refine SameModifiers.trans ?_ (h.trans (e'.sameModifiers_layoutKey hc).symm)
    split_ifs
    · exact e.sameModifiers_typeKey _
    · exact ⟨rfl, rfl, rfl⟩

theorem SameModifiers.foldl (h : e.SameModifiers e') (keys : List UInt8) :
    (keys.foldl (Editor.key true) e).SameModifiers (keys.foldl layoutKey e') := by
  induction keys generalizing e e' with
  | nil => exact h
  | cons scancode keys ih => exact ih (h.key scancode)

theorem SameModifiers.eq_of_line (h : e.SameModifiers e') (hline : e.line = e'.line) : e = e' := by
  obtain ⟨ctrl, shift, caps, line⟩ := e
  obtain ⟨hctrl, hshift, hcaps⟩ := h
  simp_all

end Editor

/-! ### The driver and the layout -/

/-- The keyboard buffer contains the line of the editor it holds. -/
theorem Keyboard.Holds.contents_eq {k : Keyboard} {e : Editor} (h : k.Holds e) :
    k.contents = e.line := by
  apply List.ext_getElem
  · simp [contents, h.position]
  · intro i hi hi'
    simp only [contents, List.getElem_map, List.getElem_range, keyboardRead]
    exact h.buffer i hi'

/-- The line that the driver holds is the one with a NUL for every key without a character. -/
theorem contents_scancodes {t : Console} (h0 : t.keyboard = .init) (keys : List UInt8) :
    (t.scancodes keys).keyboard.contents = heldLine keys :=
  (Console.holds_scancodes (t := t) (h0 ▸ Keyboard.holds_init) keys).contents_eq

/-- **The driver and the layout.** From boot, the driver holds the line of the reference editor
after every scancode exactly when it meets each key with the line full, or the key has a legend and
is not one of the two with a wrong entry while Caps Lock is on and Shift is not. -/
theorem contents_eq_typedText_iff (screen : Screen) (terminalBuffer : ℕ → UInt8)
    (keys : List UInt8) :
    (∀ p, p <+: keys →
        (Console.scancodes p ⟨.init, screen, terminalBuffer⟩).keyboard.contents = typedText p) ↔
      ∀ p scancode, p ++ [scancode] <+: keys →
        (Console.scancodes p ⟨.init, screen, terminalBuffer⟩).keyboard.Types scancode := by
  refine Transition.forall_prefix_iff rfl fun p scancode _ hp => ?_
  have hholds := Console.holds_scancodes
    (t := ⟨.init, screen, terminalBuffer⟩) Keyboard.holds_init p
  have hinit : Editor.init.SameModifiers .init := ⟨rfl, rfl, rfl⟩
  rw [contents_scancodes rfl] at hp
  have heq := (hinit.foldl p).eq_of_line hp
  rw [contents_scancodes rfl, heldLine, typedText, List.foldl_append, List.foldl_append, ← heq]
  refine (Editor.line_key_eq_iff hholds.length_le).trans ?_
  rw [Editor.Types, Keyboard.Types, hholds.position, hholds.caps, hholds.shift]

/-- Caps Lock, and then `b`: the driver holds a `V`. -/
theorem contents_caps_b :
    (bootConsole.scancodes [capslockMake, capslockBreak, 0x30]).keyboard.contents ≠
      typedText [capslockMake, capslockBreak, 0x30] := by
  rw [contents_scancodes rfl]
  decide +kernel

end Mp3Kernel
