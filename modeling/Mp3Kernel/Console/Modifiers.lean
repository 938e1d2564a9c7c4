import Mp3Kernel.Console.Layout

/-!
# The modifiers of the driver and the keys held

A board follows the scancodes that a keyboard sends: which keys are down, and how often Caps Lock
has been pressed. A key of the extended block sends its scancode behind the prefix `0xE0`, and a key
that is held repeats its make code.

The driver knows neither. It clears its Shift flag when either Shift key is released, takes the
scancode behind a prefix for that of the key in the main block, and flips the Caps Lock state with
every make code, although it records in `Capslock_pressed` that the key is down.

## Main definitions

* `Board`, `Board.send`: the keys held.
* `Board.Sends`: a sequence that a keyboard can send.
* `Console.capsFlips`: how often the Caps Lock state has changed.
* `Board.TracksShift`, `Board.TracksCaps`: the scancode is none of those that mislead the driver.

## Main results

* `modifiers_eq_iff`: the Shift flag and the flips of the Caps Lock state are right throughout
  exactly when no scancode misleads the driver.
* `shift_released_while_held`: with both Shift keys down, releasing one clears the flag.

Source: `keyboard.c`, lines 119–148 and 189–224.
-/

namespace Mp3Kernel

/-! ### The keys held -/

/-- The prefix of the extended block. -/
def extendedPrefix : UInt8 := 0xE0

/-- What the scancodes say about the keys. A key is its block, extended or not, and its make code.
-/
structure Board where
  /-- The last scancode was the prefix. -/
  extended : Bool
  /-- The keys that are down. -/
  held : Bool × UInt8 → Bool
  /-- The number of times that Caps Lock went down. -/
  capsPresses : ℕ

namespace Board

/-- No key is down. -/
def init : Board := ⟨false, fun _ => false, 0⟩

/-- The key of a make or break code. -/
def key (b : Board) (scancode : UInt8) : Bool × UInt8 := (b.extended, scancode &&& 0x7F)

/-- Caps Lock goes down with this scancode. -/
def PressesCaps (b : Board) (scancode : UInt8) : Prop :=
  scancode = capslockMake ∧ b.extended = false ∧ b.held (false, capslockMake) = false

instance (b : Board) (scancode : UInt8) : Decidable (b.PressesCaps scancode) :=
  inferInstanceAs (Decidable (_ ∧ _))

/-- One scancode. -/
def send (b : Board) (scancode : UInt8) : Board :=
  if scancode = extendedPrefix then { b with extended := true }
  else
    { extended := false
      held := Function.update b.held (b.key scancode) (decide (scancode < 0x80))
      capsPresses := if b.PressesCaps scancode then b.capsPresses + 1 else b.capsPresses }

/-- The scancodes of the list. -/
def sendAll (b : Board) (keys : List UInt8) : Board := keys.foldl send b

/-- A Shift key is down. -/
def shiftHeld (b : Board) : Bool := b.held (false, leftShiftMake) || b.held (false, rightShiftMake)

/-- A keyboard can send the scancodes: a key is released only when it is down. -/
def Sends (b : Board) : List UInt8 → Prop
  | [] => True
  | scancode :: keys =>
    (0x80 ≤ scancode → scancode ≠ extendedPrefix → b.held (b.key scancode) = true) ∧
      (b.send scancode).Sends keys

/-- The scancode does not mislead the driver about Shift: the make code of a Shift key comes without
the prefix unless a Shift key is down, and the break code of one leaves none down. -/
def TracksShift (b : Board) (scancode : UInt8) : Prop :=
  (scancode = leftShiftMake ∨ scancode = rightShiftMake →
      b.extended = true → b.shiftHeld = true) ∧
    (scancode = leftShiftBreak ∨ scancode = rightShiftBreak → (b.send scancode).shiftHeld = false)

/-- The scancode does not mislead the driver about Caps Lock: the make code of Caps Lock comes
without the prefix, and only when the key goes down. -/
def TracksCaps (b : Board) (scancode : UInt8) : Prop :=
  scancode = capslockMake → b.PressesCaps scancode

end Board

/-! ### The flags of the driver -/

/-- What one scancode does to Shift and Caps Lock. -/
theorem Editor.flags_key (e : Editor) (scancode : UInt8) :
    (e.key true scancode).shift =
        (if scancode = leftShiftMake ∨ scancode = rightShiftMake then true
          else if scancode = leftShiftBreak ∨ scancode = rightShiftBreak then false else e.shift) ∧
      (e.key true scancode).caps = (if scancode = capslockMake then !e.caps else e.caps) := by
  by_cases hc : scancode ∈ controlKeys
  · have htab := e.sameModifiers_tab (List.range 4) (ascii ' ')
    simp only [controlKeys, List.mem_cons, List.not_mem_nil, or_false] at hc
    rcases hc with rfl | rfl | rfl | rfl | rfl | rfl | rfl | rfl | rfl | rfl | rfl
    case inr.inr.inr.inr.inr.inr.inr.inr.inr.inl => exact ⟨htab.shift, htab.caps⟩
    case inr.inr.inr.inr.inr.inr.inr.inr.inr.inr =>
      rw [key_enterKey]
      exact ⟨rfl, rfl⟩
    all_goals exact ⟨rfl, rfl⟩
  · have hkeep : (e.key true scancode).SameModifiers e := by
      rw [key_of_not_mem_controlKeys hc]
      split_ifs
      · exact e.sameModifiers_typeKey _
      · exact ⟨rfl, rfl, rfl⟩
    simp only [controlKeys, List.mem_cons, List.not_mem_nil, or_false, not_or] at hc
    obtain ⟨h1, h2, h3, h4, h5, -⟩ := hc
    simp only [h1, h2, h3, h4, h5, or_self, if_false]
    exact ⟨hkeep.shift, hkeep.caps⟩

namespace Console

/-- How often the Caps Lock state changes over the scancodes. -/
def capsFlips (t : Console) : List UInt8 → ℕ
  | [] => 0
  | scancode :: keys =>
    (if (t.handleKeyboardIrq scancode).keyboard.capslockState = t.keyboard.capslockState then 0
      else 1) + (t.handleKeyboardIrq scancode).capsFlips keys

variable {t : Console}

theorem scancodes_append (t : Console) (keys keys' : List UInt8) :
    t.scancodes (keys ++ keys') = (t.scancodes keys).scancodes keys' :=
  List.foldl_append

theorem capsFlips_append (t : Console) (keys keys' : List UInt8) :
    t.capsFlips (keys ++ keys') = t.capsFlips keys + (t.scancodes keys).capsFlips keys' := by
  induction keys generalizing t with
  | nil => exact (Nat.zero_add _).symm
  | cons scancode keys ih =>
    rw [List.cons_append, capsFlips, ih, capsFlips, Nat.add_assoc]
    rfl

/-- The flags of the driver change as those of the editor whose line it holds. -/
theorem flags_handleKeyboardIrq {e : Editor} (h : t.keyboard.Holds e) (scancode : UInt8) :
    (t.handleKeyboardIrq scancode).keyboard.shiftPressed =
        (if scancode = leftShiftMake ∨ scancode = rightShiftMake then true
          else if scancode = leftShiftBreak ∨ scancode = rightShiftBreak then false
          else t.keyboard.shiftPressed) ∧
      (t.handleKeyboardIrq scancode).keyboard.capslockState =
        (if scancode = capslockMake then !t.keyboard.capslockState
          else t.keyboard.capslockState) := by
  have h' := holds_handleKeyboardIrq h scancode
  rw [h'.shift, h'.caps, h.shift, h.caps]
  exact e.flags_key scancode

/-- The Caps Lock state changes with every make code of Caps Lock and with no other scancode. -/
theorem capsFlips_singleton {e : Editor} (h : t.keyboard.Holds e) (scancode : UInt8) :
    t.capsFlips [scancode] = if scancode = capslockMake then 1 else 0 := by
  rw [capsFlips, (flags_handleKeyboardIrq h scancode).2]
  by_cases hs : scancode = capslockMake <;> simp [hs, capsFlips]

end Console

/-! ### The driver and the board -/

namespace Board

variable (b : Board) (scancode : UInt8)

/-- A Shift key is down after a make code of one exactly when it came without the prefix or one was
down before. -/
theorem shiftHeld_send_make (h : scancode = leftShiftMake ∨ scancode = rightShiftMake) :
    (b.send scancode).shiftHeld = true ↔ (b.extended = true → b.shiftHeld = true) := by
  have hkey : b.key scancode = (b.extended, scancode) := by
    rcases h with rfl | rfl <;> rfl
  have hsend : (b.send scancode).held = Function.update b.held (b.extended, scancode) true := by
    rw [send, if_neg (by rcases h with rfl | rfl <;> decide), hkey]
    rcases h with rfl | rfl <;> rfl
  cases hext : b.extended
  · rcases h with rfl | rfl <;> simp [shiftHeld, hsend, hext]
  · simp [shiftHeld, hsend, hext]

/-- The make code of a Shift key in a scancode that is neither its make nor its break code. -/
theorem mask_eq_shift : (scancode &&& 0x7F = leftShiftMake → scancode = leftShiftMake ∨
      scancode = leftShiftBreak) ∧
    (scancode &&& 0x7F = rightShiftMake → scancode = rightShiftMake ∨
      scancode = rightShiftBreak) := by
  refine forall_byte scancode ?_
  decide +kernel

/-- The other scancodes leave the Shift keys alone, unless they are their break codes. -/
theorem shiftHeld_send_other (hm : ¬ (scancode = leftShiftMake ∨ scancode = rightShiftMake))
    (hb : ¬ (scancode = leftShiftBreak ∨ scancode = rightShiftBreak)) :
    (b.send scancode).shiftHeld = b.shiftHeld := by
  obtain ⟨hl, hr⟩ := mask_eq_shift scancode
  have hl' : ∀ x, (false, leftShiftMake) ≠ (x, scancode &&& 0x7F) := by
    intro x h
    rcases hl (congrArg Prod.snd h).symm with h | h
    · exact hm (.inl h)
    · exact hb (.inl h)
  have hr' : ∀ x, (false, rightShiftMake) ≠ (x, scancode &&& 0x7F) := by
    intro x h
    rcases hr (congrArg Prod.snd h).symm with h | h
    · exact hm (.inr h)
    · exact hb (.inr h)
  rw [send]
  by_cases hp : scancode = extendedPrefix
  · rw [if_pos hp]
    rfl
  · rw [if_neg hp]
    simp only [shiftHeld, key, Function.update_of_ne (hl' b.extended),
      Function.update_of_ne (hr' b.extended)]

theorem capsPresses_send : (b.send scancode).capsPresses =
    b.capsPresses + if b.PressesCaps scancode then 1 else 0 := by
  rw [send]
  by_cases hp : scancode = extendedPrefix
  · have hnot : ¬ b.PressesCaps scancode := by
      rintro ⟨hcaps, -⟩
      exact absurd (hp.symm.trans hcaps) (by decide)
    rw [if_pos hp, if_neg hnot]
    rfl
  · rw [if_neg hp]
    by_cases hc : b.PressesCaps scancode
    · simp only [if_pos hc]
    · simp only [if_neg hc, Nat.add_zero]

/-- The flag that the driver computes from a right one is right. -/
theorem shift_eq_iff :
    (if scancode = leftShiftMake ∨ scancode = rightShiftMake then true
      else if scancode = leftShiftBreak ∨ scancode = rightShiftBreak then false
      else b.shiftHeld) = (b.send scancode).shiftHeld ↔ b.TracksShift scancode := by
  rw [TracksShift]
  by_cases hm : scancode = leftShiftMake ∨ scancode = rightShiftMake
  · have hb : ¬ (scancode = leftShiftBreak ∨ scancode = rightShiftBreak) := by
      rcases hm with rfl | rfl <;> decide
    rw [if_pos hm, eq_comm, b.shiftHeld_send_make scancode hm]
    exact ⟨fun h => ⟨fun _ => h, fun h' => absurd h' hb⟩, fun h => h.1 hm⟩
  · rw [if_neg hm]
    by_cases hb : scancode = leftShiftBreak ∨ scancode = rightShiftBreak
    · rw [if_pos hb, eq_comm]
      exact ⟨fun h => ⟨fun h' => absurd h' hm, fun _ => h⟩, fun h => h.2 hb⟩
    · rw [if_neg hb, b.shiftHeld_send_other scancode hm hb]
      exact iff_of_true rfl ⟨fun h => absurd h hm, fun h => absurd h hb⟩

theorem caps_eq_iff :
    (if scancode = capslockMake then 1 else 0) = (if b.PressesCaps scancode then 1 else 0) ↔
      b.TracksCaps scancode := by
  rw [TracksCaps]
  by_cases hs : scancode = capslockMake
  · simp [hs]
  · have hp : ¬ b.PressesCaps scancode := fun h => hs h.1
    simp [hs, hp]

end Board

open Board

/-- The driver agrees with the board: the Shift flag is set exactly when a Shift key is down, and
the Caps Lock state has changed as often as Caps Lock was pressed. -/
structure Tracks (t : Console) (b : Board) (keys : List UInt8) : Prop where
  /-- Shift. -/
  shift : (t.scancodes keys).keyboard.shiftPressed = (b.sendAll keys).shiftHeld
  /-- Caps Lock. -/
  caps : t.capsFlips keys = (b.sendAll keys).capsPresses

/-- One scancode keeps the agreement exactly when it does not mislead the driver. -/
theorem tracks_append_iff {t : Console} {b : Board} {keys : List UInt8} {e : Editor}
    (hholds : (t.scancodes keys).keyboard.Holds e) (h : Tracks t b keys) (scancode : UInt8) :
    Tracks t b (keys ++ [scancode]) ↔
      (b.sendAll keys).TracksShift scancode ∧ (b.sendAll keys).TracksCaps scancode := by
  have hb : b.sendAll (keys ++ [scancode]) = (b.sendAll keys).send scancode := by
    rw [sendAll, List.foldl_append]
    rfl
  have hflag := (Console.flags_handleKeyboardIrq hholds scancode).1
  have hflips := Console.capsFlips_singleton hholds scancode
  have hshift : (t.scancodes (keys ++ [scancode])).keyboard.shiftPressed =
      ((b.sendAll keys).send scancode).shiftHeld ↔ (b.sendAll keys).TracksShift scancode := by
    rw [Console.scancodes_append]
    change ((t.scancodes keys).handleKeyboardIrq scancode).keyboard.shiftPressed = _ ↔ _
    rw [hflag, h.shift]
    exact (b.sendAll keys).shift_eq_iff scancode
  have hcaps : t.capsFlips (keys ++ [scancode]) = ((b.sendAll keys).send scancode).capsPresses ↔
      (b.sendAll keys).TracksCaps scancode := by
    rw [Console.capsFlips_append, hflips, h.caps, capsPresses_send, Nat.add_left_cancel_iff]
    exact (b.sendAll keys).caps_eq_iff scancode
  constructor
  · rintro ⟨h1, h2⟩
    rw [hb] at h1 h2
    exact ⟨hshift.mp h1, hcaps.mp h2⟩
  · rintro ⟨h1, h2⟩
    exact ⟨hb ▸ hshift.mpr h1, hb ▸ hcaps.mpr h2⟩

/-- **The modifiers.** From boot, whatever scancodes arrive, the Shift flag and the Caps Lock state
are right after every scancode exactly when no scancode misleads the driver. -/
theorem modifiers_eq_iff (screen : Screen) (terminalBuffer : ℕ → UInt8) (keys : List UInt8) :
    (∀ p, p <+: keys → Tracks ⟨.init, screen, terminalBuffer⟩ .init p) ↔
      ∀ p scancode, p ++ [scancode] <+: keys →
        (Board.init.sendAll p).TracksShift scancode ∧
          (Board.init.sendAll p).TracksCaps scancode := by
  refine Transition.forall_prefix_iff ⟨rfl, rfl⟩ fun p scancode _ hp => ?_
  have hholds := Console.holds_scancodes
    (t := ⟨.init, screen, terminalBuffer⟩) Keyboard.holds_init p
  exact tracks_append_iff hholds hp scancode

/-- Both Shift keys go down, and the left one is released. -/
def bothShifts : List UInt8 := [leftShiftMake, rightShiftMake, leftShiftBreak]

/-- The right Shift key is still down, and the flag is cleared. -/
theorem shift_released_while_held :
    Board.init.Sends bothShifts ∧ (Board.init.sendAll bothShifts).shiftHeld = true ∧
      (bootConsole.scancodes bothShifts).keyboard.shiftPressed = false := by
  refine ⟨⟨fun h => ?_, fun h => ?_, fun _ _ => rfl, trivial⟩, by decide, by decide⟩
  · exact absurd h (by decide)
  · exact absurd h (by decide)

end Mp3Kernel
