import Mathlib.Computability.DFA
import Mp3Kernel.Lib.Printf

/-!
# The scan of a format and what it prints

`printf` reads a format like an automaton with two states: it is in the text, or between a `%` and
its specifier. A format that ends in the text is read up to its NUL. In a conversion the NUL is
taken for a specifier without a case, `buf` steps over it, and the next byte is read.

## Main definitions

* `Scan`, `completeFormat`: the automaton, and the formats it accepts.
* `Scan.arguments`: the number of arguments that the conversions of a format take.
* `Converted`, `Output`: what a conversion and a format print.
* `Scanned`: the invariant of the scan.

## Main results

* `printf_output`: `printf` returns and prints the output of a complete format.
* `number_printing_exact`: the strings of `itoa`, `%u`, `%x`, `%d` and `%#x` are numerals.
* `printf_staysInside_iff`: `printf` stays within a format when it accepts it.

Source: `lib.c`, lines 47–154.
-/

namespace Mp3Kernel

open ByteMemory Numerals

variable {β : Type}

/-! ### The automaton -/

/-- Where a scan of a format stands. -/
inductive Scan
  /-- In the text. -/
  | text
  /-- Between a `%` and its specifier. -/
  | conversion

namespace Scan

/-- The scan behind one more letter. -/
def next : Scan → UInt8 → Scan
  | text, c => if c = ascii '%' then conversion else text
  | conversion, c => if c = ascii '#' then conversion else text

/-- The specifiers that take an argument. -/
def argSpecifiers : List UInt8 := ['x', 'u', 'd', 'c', 's'].map ascii

/-- The number of arguments that a letter takes. -/
def takes : Scan → UInt8 → ℕ
  | text, _ => 0
  | conversion, c => if c ∈ argSpecifiers then 1 else 0

/-- The number of arguments that the rest of a format takes. -/
def arguments : Scan → List UInt8 → ℕ
  | _, [] => 0
  | s, c :: l => s.takes c + (s.next c).arguments l

end Scan

/-- The formats in which every conversion has its specifier. -/
def completeFormat : DFA UInt8 Scan := ⟨Scan.next, .text, {.text}⟩

/-! ### The output of a format -/

section Output

variable (m : Mem β) (format : Ptr β)

/-- What the conversion with the specifier `c` prints for the argument `arg`; the flag says whether
a `#` stands in front of the specifier. A string is in the block of the format. -/
inductive Converted (arg : BitVec 32) : Bool → UInt8 → List UInt8 → Prop
  /-- `%%`. -/
  | percent {alternate : Bool} : Converted arg alternate (ascii '%') [ascii '%']
  /-- `%x`. -/
  | hex {l : List UInt8} (h : IsNumeral digitValue 16 arg.toNat l) :
    Converted arg false (ascii 'x') l
  /-- `%#x`. -/
  | alternateHex {l : List UInt8} (h : IsPaddedHex arg l) : Converted arg true (ascii 'x') l
  /-- `%u`. -/
  | unsigned {alternate : Bool} {l : List UInt8} (h : IsNumeral digitValue 10 arg.toNat l) :
    Converted arg alternate (ascii 'u') l
  /-- `%d`. -/
  | signed {alternate : Bool} {l : List UInt8}
    (h : IsSignedNumeral digitValue 10 (ascii '-') arg.toInt l) :
    Converted arg alternate (ascii 'd') l
  /-- `%c`. -/
  | char {alternate : Bool} : Converted arg alternate (ascii 'c') [UInt8.ofBitVec (arg.setWidth 8)]
  /-- `%s`. -/
  | string {alternate : Bool} {n : ℕ} (h : HasLength m ⟨format.blk, arg⟩ n) :
    Converted arg alternate (ascii 's') (bytesAt m ⟨format.blk, arg⟩ n)
  /-- A specifier without a case. -/
  | other {alternate : Bool} {c : UInt8} (h : c ∉ ascii '%' :: Scan.argSpecifiers) :
    Converted arg alternate c []

/-- The letters of the text are printed as they are, and each conversion, behind any number of
`#`, prints the next argument. The number counts the arguments in front. -/
inductive Output (args : ℕ → BitVec 32) : List UInt8 → ℕ → List UInt8 → Prop
  /-- The end of the format. -/
  | nil {k : ℕ} : Output args [] k []
  /-- A letter of the text. -/
  | letter {c : UInt8} {rest out : List UInt8} {k : ℕ} (hc : c ≠ ascii '%')
    (h : Output args rest k out) : Output args (c :: rest) k (c :: out)
  /-- A conversion. -/
  | conversion {c : UInt8} {rest l out : List UInt8} {flags k : ℕ} (hc : c ≠ ascii '#')
    (hl : Converted m format (args k) (decide (0 < flags)) c l)
    (h : Output args rest (k + Scan.conversion.takes c) out) :
    Output args (ascii '%' :: (List.replicate flags (ascii '#') ++ c :: rest)) k (l ++ out)

end Output

/-! ### The invariant -/

variable (m : Mem β) (format : Ptr β) (n : ℕ)

/-- The bytes of the format from position `i` on. -/
def remaining (i : ℕ) : List UInt8 := bytesAt m (format.shift i) (n - i)

/-- The scan stands at `s`: it has read nothing behind the NUL, and what it has done and what is
left are the whole format. -/
structure Scanned (s : Scan) (st : Printf) : Prop where
  buf_le : st.buf ≤ n
  reads_le : ∀ k ∈ st.reads, k ≤ n
  eval_eq : completeFormat.evalFrom s (remaining m format n st.buf) =
    completeFormat.eval (bytesAt m format n)
  esp_add : st.esp + s.arguments (remaining m format n st.buf) =
    Scan.text.arguments (bytesAt m format n)

variable {m format n} {s : Scan} {st st' : Printf} {args : ℕ → BitVec 32} {scratch : ℕ → Mem Unit}
  {fuel : ℕ}

theorem remaining_self : remaining m format n n = [] := by
  rw [remaining, Nat.sub_self]
  rfl

theorem remaining_of_lt {i : ℕ} (hi : i < n) :
    remaining m format n i = m (format.shift i) :: remaining m format n (i + 1) := by
  have hsucc : n - i = n - (i + 1) + 1 := by omega
  rw [remaining, hsucc, bytesAt_succ, Ptr.shift_shift]
  rfl

theorem scanned_start (m : Mem β) (format : Ptr β) (n : ℕ) :
    Scanned m format n .text ⟨0, 0, [], []⟩ where
  buf_le := Nat.zero_le n
  reads_le _ hk := absurd hk List.not_mem_nil
  eval_eq := by rw [remaining, Ptr.shift_zero]; rfl
  esp_add := by rw [remaining, Ptr.shift_zero, Nat.zero_add]; rfl

namespace Scanned

/-- A letter of the format is read. -/
theorem read (h : Scanned m format n s st) : Scanned m format n s st.read where
  buf_le := h.buf_le
  reads_le := List.forall_mem_cons.mpr ⟨h.buf_le, h.reads_le⟩
  eval_eq := h.eval_eq
  esp_add := h.esp_add

/-- The scan is past a letter, with the argument that the letter takes. -/
theorem letter {c : UInt8} (h : Scanned m format n s st) (hlt : st.buf < n)
    (hc : m (format.shift st.buf) = c) (hbuf : st'.buf = st.buf + 1)
    (hreads : st'.reads = st.reads) (hesp : st'.esp = st.esp + s.takes c) :
    Scanned m format n (s.next c) st' where
  buf_le := hbuf ▸ hlt
  reads_le := hreads ▸ h.reads_le
  eval_eq := by
    rw [hbuf, ← h.eval_eq, remaining_of_lt hlt, hc]
    rfl
  esp_add := by
    rw [hbuf, hesp, ← h.esp_add, remaining_of_lt hlt, hc, Scan.arguments, Nat.add_assoc]

/-- In front of the NUL there are letters. -/
theorem lt_of_ne (h : Scanned m format n s st) (hlen : HasLength m format n)
    (hne : m (format.shift st.buf) ≠ 0) : st.buf < n :=
  Nat.lt_of_le_of_ne h.buf_le fun hn => hne (hn ▸ hlen.2)

/-- At the NUL the whole format is read. -/
theorem eval_eq_of_eq (h : Scanned m format n s st) (hn : st.buf = n) :
    completeFormat.eval (bytesAt m format n) = s := by
  rw [← h.eval_eq, hn, remaining_self]
  rfl

end Scanned

/-! ### The conversions -/

theorem exists_hexConversion (alternate : Bool) (arg : BitVec 32) (scratch : Mem Unit) :
    ∃ l, hexConversion alternate arg scratch = some l ∧
      Converted m format arg alternate (ascii 'x') l := by
  cases alternate with
  | false =>
    exact ⟨_, hexConversion_false arg scratch,
      .hex (isNumeral_numeral_digitOf (by decide) (by decide) _)⟩
  | true =>
    obtain ⟨l, hrun, hl⟩ := hexConversion_isPaddedHex arg scratch
    exact ⟨l, hrun, .alternateHex hl⟩

/-- A conversion comes to an end, prints what it should, and uses the argument that its specifier
takes. -/
theorem exists_conversion (h : HasLength m format n) {c : UInt8} (hc : c ≠ ascii '#')
    (args : ℕ → BitVec 32) (scratch : ℕ → Mem Unit) (alternate : Bool) (st : Printf) :
    ∃ l st', conversion m format args scratch alternate c st = some st' ∧
      Converted m format (args st.esp) alternate c l ∧ st'.out = st.out ++ l ∧ st'.buf = st.buf ∧
      st'.reads = st.reads ∧ st'.esp = st.esp + Scan.conversion.takes c := by
  have harg (l : List UInt8) (hmem : c ∈ Scan.argSpecifiers) :
      (st.printArg l).esp = st.esp + Scan.conversion.takes c := by
    rw [Scan.takes, if_pos hmem]
    rfl
  rw [conversion]
  split_ifs with hpercent hx hu hd hchar hs
  · subst hpercent
    exact ⟨_, _, rfl, .percent, rfl, rfl, rfl, rfl⟩
  · subst hx
    obtain ⟨l, hrun, hl⟩ := exists_hexConversion alternate (args st.esp) (scratch st.buf)
    rw [hrun]
    exact ⟨l, _, rfl, hl, rfl, rfl, rfl, harg l (by decide)⟩
  · subst hu
    rw [unsignedConversion_eq]
    exact ⟨_, _, rfl, .unsigned (isNumeral_numeral_digitOf (by decide) (by decide) _), rfl, rfl,
      rfl, harg _ (by decide)⟩
  · subst hd
    obtain ⟨l, hrun, hl⟩ := signedConversion_isSignedNumeral (args st.esp) (scratch st.buf)
    rw [hrun]
    exact ⟨l, _, rfl, .signed hl, rfl, rfl, rfl, harg l (by decide)⟩
  · subst hchar
    exact ⟨_, _, rfl, .char, rfl, rfl, rfl, harg _ (by decide)⟩
  · -- The string ends, because the format's block has a NUL.
    subst hs
    obtain ⟨k, hk⟩ := exists_hasLength_of_blk (p := ⟨format.blk, args st.esp⟩) (q := format.shift n)
      rfl h.2
    rw [puts_of_hasLength hk]
    exact ⟨_, _, rfl, .string hk, rfl, rfl, rfl, harg _ (by decide)⟩
  · have hmem : c ∉ Scan.argSpecifiers := by
      simp only [Scan.argSpecifiers, List.map_cons, List.map_nil, List.mem_cons, List.not_mem_nil]
      tauto
    refine ⟨[], st, rfl, .other (List.not_mem_cons_of_ne_of_not_mem hpercent hmem),
      (List.append_nil _).symm, rfl, rfl, ?_⟩
    rw [Scan.takes, if_neg hmem]
    rfl

/-- The letters from `st` on are the rest of a conversion, and between `st` and `st'` it has been
done. -/
structure ConvertedTo (m : Mem β) (format : Ptr β) (n : ℕ) (args : ℕ → BitVec 32) (alternate : Bool)
    (st st' : Printf) (flags : ℕ) (c : UInt8) (l : List UInt8) : Prop where
  ne_flag : c ≠ ascii '#'
  letters : remaining m format n st.buf =
    List.replicate flags (ascii '#') ++ c :: remaining m format n st'.next.buf
  converted : Converted m format (args st.esp) (alternate || decide (0 < flags)) c l
  out : st'.out = st.out ++ l
  esp : st'.esp = st.esp + Scan.conversion.takes c

/-- A conversion ends behind its specifier, or at the NUL of the format. -/
theorem exists_formatCharSwitch (h : HasLength m format n)
    (hscan : Scanned m format n .conversion st) (hfuel : n < st.buf + fuel)
    (args : ℕ → BitVec 32) (scratch : ℕ → Mem Unit) (alternate : Bool) :
    ∃ st', formatCharSwitch m format args scratch fuel alternate st = some st' ∧
      st.buf ≤ st'.buf ∧ ((Scanned m format n .text st'.next ∧
          ∃ flags c l, ConvertedTo m format n args alternate st st' flags c l) ∨
        st'.buf = n ∧ completeFormat.eval (bytesAt m format n) = .conversion) := by
  induction fuel generalizing st alternate with
  | zero => exact absurd hfuel (Nat.not_lt.mpr hscan.buf_le)
  | succ fuel ih =>
    by_cases hflag : m (format.shift st.buf) = ascii '#'
    · have hne : m (format.shift st.buf) ≠ 0 := by
        rw [hflag]
        decide
      have hlt := hscan.lt_of_ne h hne
      have hnext : Scanned m format n .conversion st.read.next :=
        hscan.read.letter hlt hflag rfl rfl rfl
      have hrounds : n < st.read.next.buf + fuel := by
        change n < st.buf + 1 + fuel
        omega
      obtain ⟨st', hrun, hbuf, hend⟩ := ih hnext hrounds true
      rw [formatCharSwitch_flag (Nat.succ_pos fuel) hflag]
      refine ⟨st', hrun, (Nat.le_succ st.buf).trans hbuf, hend.imp_left fun hend => ?_⟩
      obtain ⟨hscan', flags, c, l, hc⟩ := hend
      refine ⟨hscan', flags + 1, c, l, hc.ne_flag, ?_, ?_, hc.out, hc.esp⟩
      · rw [remaining_of_lt hlt, hflag, List.replicate_succ, List.cons_append]
        exact congrArg _ hc.letters
      · rw [decide_eq_true (Nat.succ_pos flags), Bool.or_true]
        exact hc.converted
    · rw [formatCharSwitch_of_ne (Nat.succ_pos fuel) hflag]
      obtain ⟨l, st', hrun, hl, hout, hbuf, hreads, hesp⟩ :=
        exists_conversion h hflag args scratch alternate st.read
      refine ⟨st', hrun, hbuf.ge, ?_⟩
      rcases Nat.lt_or_eq_of_le hscan.buf_le with hlt | hn
      · have hnext : Scanned m format n (Scan.conversion.next (m (format.shift st.buf))) st'.next :=
          hscan.read.letter hlt rfl (congrArg (· + 1) hbuf) hreads hesp
        have hstate : Scan.conversion.next (m (format.shift st.buf)) = .text := if_neg hflag
        refine .inl ⟨hstate ▸ hnext, 0, m (format.shift st.buf), l, hflag, ?_, ?_, hout, hesp⟩
        · rw [remaining_of_lt hlt]
          exact congrArg (fun i => _ :: remaining m format n (i + 1)) hbuf.symm
        · rw [decide_eq_false (Nat.lt_irrefl 0), Bool.or_false]
          exact hl
      · exact .inr ⟨hbuf.trans hn, hscan.eval_eq_of_eq hn⟩

/-! ### The reads of a run -/

theorem reads_conversion {c : UInt8} {alternate : Bool}
    (h : conversion m format args scratch alternate c st = some st') : st'.reads = st.reads := by
  have harg {o : Option (List UInt8)} (h : (o.bind fun l => some (st.printArg l)) = some st') :
      st'.reads = st.reads := by
    obtain ⟨l, -, h⟩ := Option.bind_eq_some_iff.mp h
    cases h
    rfl
  rw [conversion] at h
  split_ifs at h
  · cases h
    rfl
  · exact harg h
  · exact harg h
  · exact harg h
  · cases h
    rfl
  · exact harg h
  · cases h
    rfl

theorem reads_subset_formatCharSwitch {alternate : Bool}
    (h : formatCharSwitch m format args scratch fuel alternate st = some st') :
    st.reads ⊆ st'.reads := by
  induction fuel generalizing st alternate with
  | zero => exact absurd h (by simp [formatCharSwitch])
  | succ fuel ih =>
    by_cases hflag : m (format.shift st.buf) = ascii '#'
    · rw [formatCharSwitch_flag (Nat.succ_pos fuel) hflag] at h
      exact fun k hk => ih h (List.mem_cons_of_mem _ hk)
    · rw [formatCharSwitch_of_ne (Nat.succ_pos fuel) hflag] at h
      rw [reads_conversion h]
      exact fun k hk => List.mem_cons_of_mem _ hk

theorem reads_subset_printfStep (h : printfStep m format args scratch st = some st') :
    st.reads ⊆ st'.reads := by
  obtain ⟨st₁, hrun, rfl⟩ := Option.map_eq_some_iff.mp h
  split_ifs at hrun
  · exact fun k hk => reads_subset_formatCharSwitch hrun (List.mem_cons_of_mem _ hk)
  · cases hrun
    exact fun k hk => List.mem_cons_of_mem _ (List.mem_cons_of_mem _ hk)

/-- A run reads the position at which it stands, and reads on. -/
theorem reads_subset_printfLoop (h : printfLoop m format args scratch fuel st = some st') :
    st.buf :: st.reads ⊆ st'.reads := by
  induction fuel generalizing st with
  | zero => exact absurd h (by simp [printfLoop])
  | succ fuel ih =>
    by_cases h0 : m (format.shift st.buf) = 0
    · rw [printfLoop, if_pos h0] at h
      cases h
      exact List.Subset.refl _
    · rw [printfLoop_of_ne (Nat.succ_pos fuel) h0] at h
      obtain ⟨st₁, hstep, hrest⟩ := Option.bind_eq_some_iff.mp h
      exact fun k hk => ih hrest (List.mem_cons_of_mem _ (reads_subset_printfStep hstep hk))

/-! ### The loop -/

/-- The run ends at the NUL with the output of the rest, or the format ends in a conversion and the
run reads behind it. -/
theorem printfLoop_spec (h : HasLength m format n) (hscan : Scanned m format n .text st)
    (hfuel : n < st.buf + fuel) (args : ℕ → BitVec 32) (scratch : ℕ → Mem Unit) :
    (∃ st' out, printfLoop m format args scratch fuel st = some st' ∧
      Scanned m format n .text st' ∧ st'.buf = n ∧ st'.out = st.out ++ out ∧
      Output m format args (remaining m format n st.buf) st.esp out) ∨
    completeFormat.eval (bytesAt m format n) = .conversion ∧
      ∀ st', printfLoop m format args scratch fuel st = some st' → n + 1 ∈ st'.reads := by
  induction fuel generalizing st with
  | zero => exact absurd hfuel (Nat.not_lt.mpr hscan.buf_le)
  | succ fuel ih =>
    by_cases h0 : m (format.shift st.buf) = 0
    · have hn : st.buf = n := by
        by_contra hn
        exact h.1 st.buf (Nat.lt_of_le_of_ne hscan.buf_le hn) h0
      refine .inl ⟨st.read, [], ?_, hscan.read, hn, (List.append_nil _).symm, ?_⟩
      · rw [printfLoop, if_pos h0]
      · rw [hn, remaining_self]
        exact .nil
    have hlt := hscan.lt_of_ne h h0
    by_cases hpercent : m (format.shift st.buf) = ascii '%'
    · have hnext : Scanned m format n .conversion st.read.read.next :=
        hscan.read.read.letter hlt hpercent rfl rfl rfl
      have hblock : n < st.read.read.next.buf + addressSpace :=
        h.lt.trans_le (Nat.le_add_left ..)
      obtain ⟨st₁, hrun, hbuf, hend⟩ :=
        exists_formatCharSwitch h hnext hblock args scratch false
      rw [printfLoop_percent (Nat.succ_pos fuel) hpercent, hrun]
      rcases hend with ⟨hend, flags, c, l, hc⟩ | ⟨hn, hend⟩
      · have hrounds : n < st₁.next.buf + fuel := by
          change st.buf + 1 ≤ st₁.buf at hbuf
          change n < st₁.buf + 1 + fuel
          omega
        refine (ih hend hrounds).imp_left ?_
        rintro ⟨st', out, hrun', hscan', hn, hout, houtput⟩
        refine ⟨st', l ++ out, hrun', hscan', hn, ?_, ?_⟩
        · rw [hout, ← List.append_assoc]
          exact congrArg (· ++ out) hc.out
        · rw [remaining_of_lt hlt, hpercent]
          change Output m format args (_ :: remaining m format n st.read.read.next.buf) _ _
          rw [hc.letters]
          exact .conversion hc.ne_flag hc.converted (hc.esp ▸ houtput)
      · -- The NUL is the specifier, and the run goes on behind it.
        refine .inr ⟨hend, fun st' hst' => ?_⟩
        have hread : st₁.next.buf = n + 1 := congrArg (· + 1) hn
        exact hread ▸ reads_subset_printfLoop hst' List.mem_cons_self
    · have hnext : Scanned m format n (Scan.text.next (m (format.shift st.buf)))
          (st.read.read.read.print [m (format.shift st.buf)]).next :=
        hscan.read.read.read.letter hlt rfl rfl rfl rfl
      have hstate : Scan.text.next (m (format.shift st.buf)) = .text := if_neg hpercent
      have hstep : printfStep m format args scratch st.read =
          some (st.read.read.read.print [m (format.shift st.buf)]).next := by
        rw [printfStep, if_neg (show m (format.shift st.read.buf) ≠ ascii '%' from hpercent)]
        rfl
      have hrounds : n < (st.read.read.read.print [m (format.shift st.buf)]).next.buf + fuel := by
        change n < st.buf + 1 + fuel
        omega
      rw [printfLoop_of_ne (Nat.succ_pos fuel) h0, hstep]
      refine (ih (hstate ▸ hnext) hrounds).imp_left ?_
      rintro ⟨st', out, hrun, hscan', hn, hout, houtput⟩
      refine ⟨st', m (format.shift st.buf) :: out, hrun, hscan', hn, ?_, ?_⟩
      · rw [hout]
        exact List.append_assoc ..
      · rw [remaining_of_lt hlt]
        exact .letter hpercent houtput

/-- `printf` comes to an end, reads nothing of the format behind its NUL, and uses one argument for
each conversion that takes one. -/
def StaysInside (m : Mem β) (format : Ptr β) (n : ℕ) (args : ℕ → BitVec 32)
    (scratch : ℕ → Mem Unit) : Prop :=
  ∃ st, printf m format args scratch = some st ∧ (∀ k ∈ st.reads, k ≤ n) ∧
    st.esp = Scan.text.arguments (bytesAt m format n)

/-- `printf` returns the length of the format, and prints the output of the format. -/
def PrintsOutput (m : Mem β) (format : Ptr β) (n : ℕ) (args : ℕ → BitVec 32)
    (scratch : ℕ → Mem Unit) : Prop :=
  ∃ st, printf m format args scratch = some st ∧ st.buf = n ∧
    Output m format args (bytesAt m format n) 0 st.out

/-- What a run of `printf` does with a format. -/
theorem printf_spec (h : HasLength m format n) (args : ℕ → BitVec 32) (scratch : ℕ → Mem Unit) :
    (StaysInside m format n args scratch ∧ PrintsOutput m format n args scratch ∧
      bytesAt m format n ∈ completeFormat.accepts) ∨
    bytesAt m format n ∉ completeFormat.accepts ∧
      ∀ st, printf m format args scratch = some st → n + 1 ∈ st.reads := by
  have hblock : n < 0 + addressSpace := h.lt.trans_le (Nat.le_add_left ..)
  rcases printfLoop_spec h (scanned_start m format n) hblock args scratch with
    ⟨st, out, hrun, hscan, hn, hout, houtput⟩ | ⟨hend, hread⟩
  · have hesp := hscan.esp_add
    rw [hn, remaining_self] at hesp
    rw [remaining, Ptr.shift_zero] at houtput
    exact .inl ⟨⟨st, hrun, hscan.reads_le, hesp⟩, ⟨st, hrun, hn, hout ▸ houtput⟩,
      hscan.eval_eq_of_eq hn⟩
  · refine .inr ⟨fun hacc => ?_, hread⟩
    exact Scan.noConfusion (hend.symm.trans hacc)

/-- **`printf` stays within its format when every conversion of it has its specifier.** -/
theorem printf_staysInside_iff (h : HasLength m format n) :
    StaysInside m format n args scratch ↔ bytesAt m format n ∈ completeFormat.accepts := by
  rcases printf_spec h args scratch with ⟨hinside, -, hacc⟩ | ⟨hacc, hread⟩
  · exact iff_of_true hinside hacc
  · refine iff_of_false (fun hinside => ?_) hacc
    obtain ⟨st, hrun, hle, -⟩ := hinside
    exact absurd (hle _ (hread st hrun)) (Nat.not_succ_le_self n)

/-! ### Numbers -/

/-- **`printf` prints a complete format**, whatever its conversions and arguments. -/
theorem printf_output (h : HasLength m format n)
    (hacc : bytesAt m format n ∈ completeFormat.accepts) :
    PrintsOutput m format n args scratch := by
  rcases printf_spec h args scratch with ⟨-, houtput, -⟩ | ⟨hnot, -⟩
  · exact houtput
  · exact absurd hacc hnot

/-- **The strings of numbers are exact.** `itoa` writes the numeral in every radix. A round of the
loop of `printf` over `%u` or `%x` prints it, over `%d` with the sign, and over `%#x` as eight
digits; and `printf` of every complete format returns, and has printed the letters and, for each
conversion of a number, such a string. -/
theorem number_printing_exact :
    (∀ {β : Type} [DecidableEq β] (value radix : BitVec 32) (buf : Ptr β) (m : Mem β),
      2 ≤ radix.toNat → radix.toNat ≤ 36 →
        ∃ m', ∃ n ≤ 32, itoa value buf radix m = some m' ∧ HasLength m' buf n ∧
          IsNumeral digitValue radix.toNat value.toNat (bytesAt m' buf n) ∧
          Set.EqOn m' m (buf.span (n + 1))ᶜ) ∧
    Prints ['%', 'u'] (fun arg l => IsNumeral digitValue 10 arg.toNat l) ∧
    Prints ['%', 'x'] (fun arg l => IsNumeral digitValue 16 arg.toNat l) ∧
    Prints ['%', 'd'] (fun arg l => IsSignedNumeral digitValue 10 (ascii '-') arg.toInt l) ∧
    Prints ['%', '#', 'x'] (fun arg l =>
      l.length = 8 ∧ (∀ c ∈ l, digitValue c < 16) ∧ value digitValue 16 l = arg.toNat) ∧
    ∀ {β : Type} (m : Mem β) (format : Ptr β) (n : ℕ) (args : ℕ → BitVec 32)
      (scratch : ℕ → Mem Unit), HasLength m format n →
        bytesAt m format n ∈ completeFormat.accepts →
          ∃ st, printf m format args scratch = some st ∧ st.buf = n ∧
            Output m format args (bytesAt m format n) 0 st.out := by
  refine ⟨fun v radix buf m h2 h36 => ?_, prints_u, prints_x, prints_d, prints_alternate_x,
    fun m format n args scratch h hacc => printf_output h hacc⟩
  obtain ⟨m', hrun, hbytes, hlen, hout⟩ := itoa_spec radix h2 h36 v buf m
  refine ⟨m', _, length_numeral_le_32 radix h2 h36 v, hrun, hlen, ?_, hout⟩
  rw [hbytes]
  exact isNumeral_numeral_digitOf h2 h36 _

/-! ### Two formats -/

/-- The format of the samples, at the address zero. -/
def sampleFormat : Ptr Unit := ⟨(), 0⟩

/-- A memory with the letters at `sampleFormat`, and zeros elsewhere. -/
def sampleText (letters : List Char) : Mem Unit :=
  writeBytes (fun _ => 0) sampleFormat (letters.map ascii)

theorem hasLength_sampleText {letters : List Char} (hl : (letters.map ascii).length < 2 ^ 32)
    (h0 : 0 ∉ letters.map ascii) :
    HasLength (sampleText letters) sampleFormat (letters.map ascii).length := by
  have hnul : HasLength (fun _ : Ptr Unit => 0) (sampleFormat.shift (letters.map ascii).length) 0 :=
    ⟨fun _ hk => absurd hk (Nat.not_lt_zero _), rfl⟩
  exact hnul.writeBytes hl h0

/-- The string `%#x%%`. -/
theorem printf_staysInside_sample :
    StaysInside (sampleText ['%', '#', 'x', '%', '%']) sampleFormat 5 (fun _ => 0)
      fun _ _ => 0 := by
  have hlen : HasLength (sampleText ['%', '#', 'x', '%', '%']) sampleFormat 5 :=
    hasLength_sampleText (by decide) (by decide)
  have hbytes : bytesAt (sampleText ['%', '#', 'x', '%', '%']) sampleFormat 5 =
      ['%', '#', 'x', '%', '%'].map ascii :=
    bytesAt_writeBytes _ _ (by decide)
  refine (printf_staysInside_iff hlen).mpr ?_
  rw [hbytes]
  exact (DFA.mem_accepts completeFormat).mpr rfl

/-- Behind the string `%` one more byte is read. -/
theorem percent_not_staysInside :
    HasLength (sampleText ['%']) sampleFormat 1 ∧
      ¬StaysInside (sampleText ['%']) sampleFormat 1 (fun _ => 0) fun _ _ => 0 := by
  have hlen : HasLength (sampleText ['%']) sampleFormat 1 :=
    hasLength_sampleText (by decide) (by decide)
  have hbytes : bytesAt (sampleText ['%']) sampleFormat 1 = [ascii '%'] :=
    bytesAt_writeBytes _ _ (by decide)
  refine ⟨hlen, fun hinside => ?_⟩
  rcases printf_spec hlen (fun _ => 0) (fun _ _ => 0) with ⟨-, -, hacc⟩ | ⟨-, hread⟩
  · rw [hbytes] at hacc
    exact Scan.noConfusion hacc
  · obtain ⟨st, hrun, hle, -⟩ := hinside
    exact absurd (hle 2 (hread st hrun)) (by decide)

end Mp3Kernel
