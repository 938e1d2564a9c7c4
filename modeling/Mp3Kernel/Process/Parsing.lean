import Mp3Kernel.Process.Execute

/-!
# The words of a command

`execute` is to split a command into the name of a file and an argument. Its second loop tests the
byte at `cmd_curindex`, the first of the file name, where it means the byte that it copies, so that
it never stops at a space: the name is all that follows the leading spaces, however long, and
nothing is left for the argument.

## Main definitions

* `TwoWords`: a command of one or two words.
* `ParsesTo`: the two arrays hold the words after parsing.
* `ParsesInBuffers`: parsing ends, and stores into the arrays only.

## Main results

* `parse_eq`: what parsing stores.
* `parsesTo_iff`, `parsesInBuffers_iff`: for which commands this is as it should be.

Source: `process.c`, lines 33–103.
-/

namespace Mp3Kernel

/-! ### What is stored -/

variable {command w₁ w₂ : List UInt8}

theorem drop_length_takeWhile (p : UInt8 → Bool) (l : List UInt8) :
    l.drop (l.takeWhile p).length = l.dropWhile p := by
  have h : (l.takeWhile p ++ l.dropWhile p).drop (l.takeWhile p).length = l.dropWhile p :=
    List.drop_left
  rwa [List.takeWhile_append_dropWhile] at h

theorem commandByte_of_lt {i : ℕ} (h : i < command.length) :
    commandByte command i = command[i] := by
  rw [commandByte, List.getD_eq_getElem?_getD, List.getElem?_eq_getElem h]
  rfl

/-- Where the byte at `cmd_curindex` is no space, the loop copies every byte. -/
theorem copyFileCommand_of_ne {cmdCurindex k i : ℕ} {file : List UInt8}
    (hne : commandByte command cmdCurindex ≠ space) (hik : i + k ≤ command.length) :
    copyFileCommand command cmdCurindex k i file = file ++ (command.drop i).take k := by
  induction k generalizing i file with
  | zero => simp [copyFileCommand]
  | succ k ih =>
    have hi : i < command.length := by omega
    rw [copyFileCommand, if_pos hne, ih (by omega), commandByte_of_lt hi, List.append_assoc,
      List.drop_eq_getElem_cons hi]
    rfl

/-- **What parsing stores**: all that follows the leading spaces, with a NUL, and no argument. -/
theorem parse_eq (command : List UInt8) :
    parse command = some (command.dropWhile (· = space) ++ [0], []) := by
  set a := skipSpaces command 0 with ha
  have hdrop : command.drop a = command.dropWhile (· = space) := by
    rw [ha, skipSpaces, Nat.zero_add, List.drop_zero, drop_length_takeWhile]
  have hfile : copyFileCommand command a (command.length - a) a [] = command.drop a := by
    rcases Nat.lt_or_ge a command.length with hlt | hge
    · have hne : commandByte command a ≠ space := by
        have hhead := List.head?_dropWhile_not (· = space) command
        rw [← hdrop, List.head?_drop, List.getElem?_eq_getElem hlt] at hhead
        rw [commandByte_of_lt hlt]
        simpa using hhead
      rw [copyFileCommand_of_ne hne (by omega), List.nil_append, List.take_of_length_le]
      rw [List.length_drop]
    · rw [Nat.sub_eq_zero_of_le hge, List.drop_of_length_le hge, copyFileCommand]
  have hstart : command.length ≤ skipSpaces command (a + (command.drop a).length) := by
    rw [skipSpaces, List.length_drop]
    omega
  rw [parse, ← ha, hfile, copyArgCommand, if_pos hstart, hdrop]
  rfl

/-! ### The two words -/

/-- An array after the listed bytes have been stored at its start. -/
def stored (l : List UInt8) (old : ℕ → UInt8) (i : ℕ) : UInt8 := l.getD i (old i)

/-- The array holds the string `w`, with its NUL. -/
def HoldsString (a : ℕ → UInt8) (w : List UInt8) : Prop :=
  (∀ k (hk : k < w.length), a k = w[k]) ∧ a w.length = 0

/-- A command of one word, or of two with a space between them, and spaces anywhere. The words have
at most 31 characters, and the second may be missing. -/
structure TwoWords (command w₁ w₂ : List UInt8) : Prop where
  /-- The words and the spaces. -/
  layout : ∃ a b c, command = List.replicate a space ++
    (w₁ ++ (List.replicate b space ++ (w₂ ++ List.replicate c space))) ∧ (w₂ ≠ [] → 0 < b)
  /-- There is a first word. -/
  first_ne : w₁ ≠ []
  /-- It fits. -/
  first_length : w₁.length < Dentry.fileNameLength
  /-- The second word fits. -/
  second_length : w₂.length < Dentry.fileNameLength
  /-- The words have no spaces. -/
  not_space : ∀ x ∈ w₁ ++ w₂, x ≠ space

/-- After the parsing of a command, `file_command` and `arg_command`, which held `oldFile` and
`oldArg` before, hold the two words. -/
def ParsesTo (command : List UInt8) (oldFile oldArg : ℕ → UInt8) (w₁ w₂ : List UInt8) : Prop :=
  ∃ file arg, parse command = some (file, arg) ∧ HoldsString (stored file oldFile) w₁ ∧
    HoldsString (stored arg oldArg) w₂

/-- An array to which a word and something more is stored holds the word when there is nothing more,
or when that begins with a NUL. -/
theorem holdsString_stored_iff {w t : List UInt8} {old : ℕ → UInt8} :
    HoldsString (stored (w ++ t ++ [0]) old) w ↔ ∀ x ∈ t.head?, x = 0 := by
  have hword (k : ℕ) (hk : k < w.length) : stored (w ++ t ++ [0]) old k = w[k] := by
    simp [stored, List.getElem?_append_left hk, List.getElem?_eq_getElem hk]
  have hnext : stored (w ++ t ++ [0]) old w.length = t.head?.getD 0 := by
    cases t <;> simp [stored]
  rw [HoldsString, and_iff_right hword, hnext]
  cases t <;> simp

namespace TwoWords

variable (h : TwoWords command w₁ w₂)

include h

/-- Behind the leading spaces there are the first word and what follows it, which does not begin
with a NUL. -/
theorem exists_rest : ∃ t, command.dropWhile (· = space) = w₁ ++ t ∧ (∀ x ∈ t.head?, x ≠ 0) ∧
    (t = [] ↔ w₂ = [] ∧ w₁ <:+ command) := by
  obtain ⟨a, b, c, hlayout, hb⟩ := h.layout
  obtain ⟨x, w, rfl⟩ := List.exists_cons_of_ne_nil h.first_ne
  have hx : x ≠ space := h.not_space x (by simp)
  set t := List.replicate b space ++ (w₂ ++ List.replicate c space) with ht
  have hhead : ∀ y ∈ t.head?, y = space := by
    intro y hy
    by_cases hw : w₂ = []
    · have hmem := List.mem_of_mem_head? hy
      simp only [ht, hw, List.nil_append, List.mem_append, List.mem_replicate] at hmem
      tauto
    · obtain ⟨b', rfl⟩ := Nat.exists_eq_add_one.mpr (hb hw)
      simpa [ht, List.replicate_succ] using hy.symm
  refine ⟨t, ?_, fun y hy => ?_, ?_⟩
  · rw [hlayout, List.dropWhile_append_of_pos (by simp)]
    simp [hx]
  · rw [hhead y hy]
    decide
  · constructor
    · intro hnil
      rw [hnil, List.append_nil] at hlayout
      refine ⟨?_, hlayout ▸ List.suffix_append ..⟩
      simp_all
    · -- A command that ends with the first word does not end with a space.
      rintro ⟨rfl, hsuffix⟩
      by_contra hne
      have hspace : t.getLast hne = space := by
        have hmem := List.getLast_mem hne
        simp only [ht, List.nil_append, List.mem_append, List.mem_replicate] at hmem
        tauto
      have hlast : command.getLast? = some space := by
        rw [hlayout, List.getLast?_append, List.getLast?_append,
          List.getLast?_eq_some_getLast hne, hspace]
        rfl
      obtain ⟨l, rfl⟩ := hsuffix
      rw [List.getLast?_append, List.getLast?_eq_some_getLast h.first_ne] at hlast
      exact h.not_space _ (List.mem_append_left _ (List.getLast_mem h.first_ne))
        (Option.some.inj hlast)

end TwoWords

/-- **A command is split into its words** exactly when it ends with the first one, and `arg_command`
happened to begin with a NUL before. -/
theorem parsesTo_iff {oldFile oldArg : ℕ → UInt8} (h : TwoWords command w₁ w₂) :
    ParsesTo command oldFile oldArg w₁ w₂ ↔ w₂ = [] ∧ w₁ <:+ command ∧ oldArg 0 = 0 := by
  obtain ⟨t, ht, hhead, hnil⟩ := h.exists_rest
  have hfile : HoldsString (stored (w₁ ++ t ++ [0]) oldFile) w₁ ↔ w₂ = [] ∧ w₁ <:+ command := by
    rw [holdsString_stored_iff, ← hnil]
    cases t with
    | nil => simp
    | cons y t => simpa using hhead y rfl
  have hparse : ParsesTo command oldFile oldArg w₁ w₂ ↔
      HoldsString (stored (w₁ ++ t ++ [0]) oldFile) w₁ ∧ HoldsString (stored [] oldArg) w₂ := by
    simp [ParsesTo, parse_eq, ht]
  rw [hparse, hfile, and_assoc]
  refine and_congr_right fun hw => and_congr_right fun _ => ?_
  subst hw
  exact ⟨fun harg => harg.2, fun harg => ⟨fun k hk => absurd hk (Nat.not_lt_zero k), harg⟩⟩

theorem parsesTo_ls : ParsesTo [0x6C, 0x73] (fun _ => 0) (fun _ => 0) [0x6C, 0x73] [] := by
  have h : TwoWords [0x6C, 0x73] [0x6C, 0x73] [] :=
    ⟨⟨0, 0, 0, rfl, fun h => absurd rfl h⟩, by decide, by decide, by decide, by simp [space]⟩
  exact (parsesTo_iff h).mpr ⟨rfl, List.suffix_refl _, rfl⟩

/-- The command `a b` is taken for a file name. -/
theorem argument_not_split : ¬ ∀ (command w₁ w₂ : List UInt8) (oldFile oldArg : ℕ → UInt8),
    TwoWords command w₁ w₂ → ParsesTo command oldFile oldArg w₁ w₂ := by
  intro hall
  obtain ⟨file, arg, hparse, -, harg⟩ := hall [0x61, 0x20, 0x62] [0x61] [0x62] (fun _ => 0)
    (fun _ => 0)
    ⟨⟨0, 1, 0, rfl, fun _ => Nat.one_pos⟩, by decide, by decide, by decide, by simp [space]⟩
  rw [parse_eq] at hparse
  cases hparse
  have hfirst := harg.1 0 (by decide)
  revert hfirst
  decide

/-! ### The two buffers -/

/-- The parsing of a command ends, and every byte it stores lies in `file_command` or in
`arg_command`. -/
def ParsesInBuffers (command : List UInt8) : Prop :=
  ∃ file arg, parse command = some (file, arg) ∧ file.length ≤ Dentry.fileNameLength ∧
    arg.length ≤ Dentry.fileNameLength

/-- **Parsing stays in its buffers** exactly when the command has less than 32 characters behind its
leading spaces. -/
theorem parsesInBuffers_iff (command : List UInt8) : ParsesInBuffers command ↔
    (command.dropWhile (· = space)).length < Dentry.fileNameLength := by
  have h : ParsesInBuffers command ↔
      (command.dropWhile (· = space)).length + 1 ≤ Dentry.fileNameLength := by
    simp [ParsesInBuffers, parse_eq]
  exact h.trans Nat.succ_le_iff

/-- A command of 32 characters stores its NUL behind `file_command`. -/
theorem parse_overflows : ¬ ∀ command : List UInt8, 0 ∉ command → ParsesInBuffers command := by
  intro hall
  obtain ⟨file, arg, hparse, hfile, -⟩ := hall (List.replicate 32 0x61) (by decide)
  rw [parse_eq] at hparse
  cases hparse
  revert hfile
  decide

end Mp3Kernel
