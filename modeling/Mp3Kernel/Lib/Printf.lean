import Mp3Kernel.Lib.Itoa

/-!
# `printf`

The scan of the format, with the conversions of numbers. The position of the format pointer, the
arguments used and the bytes passed to `putc` are the state, and the positions of the format that
were read are kept with it. The value returned is the last position. A loop that does not come to
an end is `none`: after `addressSpace` rounds it has seen every byte of the block.

The arguments are the words of the stack from the first one on. The buffer `conv_buf` of a
conversion is not initialised, and its bytes are those of `scratch` at the position of the
specifier. A string argument is a pointer into the block of the format.

## Main definitions

* `puts`, `Printf`, `conversion`, `formatCharSwitch`, `printfStep`, `printf`.
* `Prints`: what one round of the loop prints, at every place of every format.

## Main results

* `prints_u`, `prints_x`, `prints_d`, `prints_alternate_x`: the conversions of numbers.

Source: `lib.c`, lines 30–167.
-/

namespace Mp3Kernel

open ByteMemory Numerals

variable {β : Type}

/-! ### `puts` -/

/-- The loop of `puts`, with `index` bytes passed to `putc` already. -/
def putsFrom (m : Mem β) (s : Ptr β) : ℕ → ℕ → Option (List UInt8)
  | 0, _ => none
  | fuel + 1, index =>
    if m (s.shift index) = 0 then some []
    else do
      let l ← putsFrom m s fuel (index + 1)
      some (m (s.shift index) :: l)

/-- `int32_t puts(int8_t* s)`: the bytes passed to `putc`. -/
def puts (m : Mem β) (s : Ptr β) : Option (List UInt8) := putsFrom m s addressSpace 0

theorem putsFrom_of_hasLength {m : Mem β} {s : Ptr β} {n : ℕ} (h : HasLength m s n) {fuel index : ℕ}
    (hindex : index ≤ n) (hfuel : n < index + fuel) :
    putsFrom m s fuel index = some (bytesAt m (s.shift index) (n - index)) := by
  induction fuel generalizing index with
  | zero => omega
  | succ fuel ih =>
    rw [putsFrom]
    rcases Nat.eq_or_lt_of_le hindex with rfl | hlt
    · rw [if_pos h.2, Nat.sub_self]
      rfl
    · have hsucc : n - index = n - (index + 1) + 1 := by omega
      rw [if_neg (h.1 index hlt), ih hlt (by omega), hsucc, bytesAt_succ, Ptr.shift_shift]
      rfl

/-- `puts` prints the string. -/
theorem puts_of_hasLength {m : Mem β} {s : Ptr β} {n : ℕ} (h : HasLength m s n) :
    puts m s = some (bytesAt m s n) := by
  have hlt : n < 0 + addressSpace := by simpa [addressSpace] using h.lt
  simpa [puts] using putsFrom_of_hasLength h (Nat.zero_le n) hlt

/-! ### The conversions of numbers -/

/-- The buffer `conv_buf`. -/
def convBuf : Ptr Unit := ⟨(), 0⟩

/-- `%x`, and `%#x` for `alternate`. The loop that pads the string stores zeros up to index 8. -/
def hexConversion (alternate : Bool) (arg : BitVec 32) (m : Mem Unit) : Option (List UInt8) :=
  if alternate = false then do
    let m ← itoa arg convBuf 16 m
    puts m convBuf
  else do
    let m ← itoa arg (convBuf.shift 8) 16 m
    let startingIndex ← strlen m (convBuf.shift 8)
    let m := writeBytes m (convBuf.shift startingIndex)
      (List.replicate (8 - startingIndex) (ascii '0'))
    puts m (convBuf.shift startingIndex)

/-- `%u`. -/
def unsignedConversion (arg : BitVec 32) (m : Mem Unit) : Option (List UInt8) := do
  let m ← itoa arg convBuf 10 m
  puts m convBuf

/-- `%d`. The negation wraps. -/
def signedConversion (value : BitVec 32) (m : Mem Unit) : Option (List UInt8) :=
  if value.toInt < 0 then do
    let m ← itoa (-value) (convBuf.shift 1) 10 (store m convBuf (ascii '-'))
    puts m convBuf
  else do
    let m ← itoa value convBuf 10 m
    puts m convBuf

/-- `puts` prints what `itoa` stores. -/
theorem itoa_bind_puts (radix : BitVec 32) (h2 : 2 ≤ radix.toNat) (h36 : radix.toNat ≤ 36)
    (arg : BitVec 32) (m : Mem Unit) : ((itoa arg convBuf radix m).bind fun m => puts m convBuf) =
      some (numeral digitOf radix.toNat arg.toNat) := by
  obtain ⟨m', hrun, hbytes, hlen, -⟩ := itoa_spec radix h2 h36 arg convBuf m
  rw [hrun, Option.bind_some, puts_of_hasLength hlen, hbytes]

theorem unsignedConversion_eq (arg : BitVec 32) (m : Mem Unit) :
    unsignedConversion arg m = some (numeral digitOf 10 arg.toNat) :=
  itoa_bind_puts 10 (by decide) (by decide) arg m

theorem hexConversion_false (arg : BitVec 32) (m : Mem Unit) :
    hexConversion false arg m = some (numeral digitOf 16 arg.toNat) := by
  rw [hexConversion, if_pos rfl]
  exact itoa_bind_puts 16 (by decide) (by decide) arg m

/-- The string is the digits of the number, with zeros in front up to the length eight. -/
theorem hexConversion_true (arg : BitVec 32) (m : Mem Unit) :
    ∃ k, k + (numeral digitOf 16 arg.toNat).length = 8 ∧ hexConversion true arg m =
      some (List.replicate k (ascii '0') ++ numeral digitOf 16 arg.toNat) := by
  obtain ⟨m₁, hrun, hbytes, hlen₁, -⟩ :=
    itoa_spec 16 (by decide) (by decide) arg (convBuf.shift 8) m
  have hle : (numeral digitOf 16 arg.toNat).length ≤ 8 :=
    length_numeral_le (by decide) (by decide) arg.isLt
  set l := numeral digitOf 16 arg.toNat
  change bytesAt m₁ (convBuf.shift 8) l.length = l at hbytes
  change HasLength m₁ (convBuf.shift 8) l.length at hlen₁
  obtain ⟨k, hk⟩ := Nat.exists_eq_add_of_le hle
  have hsub : 8 - l.length = k := by omega
  set zeros := List.replicate k (ascii '0')
  have hzlen : zeros.length = k := List.length_replicate
  -- The zeros end where the digits begin.
  have hbehind : convBuf.shift 8 = (convBuf.shift l.length).shift zeros.length := by
    rw [Ptr.shift_shift, hzlen, ← hk]
  have hzero : 0 ∉ zeros := fun h0 => absurd (List.eq_of_mem_replicate h0) (by decide)
  refine ⟨k, by omega, ?_⟩
  rw [hexConversion, if_neg (by decide), hrun]
  change (strlen m₁ (convBuf.shift 8)).bind _ = _
  rw [strlen_of_hasLength hlen₁, Option.bind_some, hsub]
  rw [hbehind] at hbytes hlen₁
  rw [puts_of_hasLength (hlen₁.writeBytes (by omega) hzero),
    bytesAt_writeBytes_append _ _ (by omega), hbytes]

theorem signedConversion_isSignedNumeral (value : BitVec 32) (m : Mem Unit) :
    ∃ l, signedConversion value m = some l ∧
      IsSignedNumeral digitValue 10 (ascii '-') value.toInt l := by
  have hnumeral (n : ℕ) : IsNumeral digitValue 10 n (numeral digitOf 10 n) :=
    isNumeral_numeral_digitOf (by decide) (by decide) n
  rw [signedConversion]
  by_cases hneg : value.toInt < 0
  · set m₀ := store m convBuf (ascii '-') with hm₀
    obtain ⟨m', hrun, hbytes, hlen, hout⟩ :=
      itoa_spec 10 (by decide) (by decide) (-value) (convBuf.shift 1) m₀
    have hpos : 0 < (-value).toNat ∧ -((-value).toNat : ℤ) = value.toInt := by
      have hlt := value.isLt
      rw [BitVec.toInt_eq_toNat_cond] at hneg ⊢
      rw [BitVec.toNat_neg]
      split_ifs at hneg ⊢ <;> omega
    set l := numeral digitOf 10 (-value).toNat
    change bytesAt m' (convBuf.shift 1) l.length = l at hbytes
    change HasLength m' (convBuf.shift 1) l.length at hlen
    have hsign : bytesAt m' convBuf 1 = [ascii '-'] := by
      have hle : l.length ≤ 32 := length_numeral_le_32 10 (by decide) (by decide) _
      have hself : convBuf ∉ (convBuf.shift 1).span (l.length + 1) :=
        Ptr.notMem_span_shift Nat.one_pos (by omega)
      rw [bytesAt_succ, hout hself, hm₀, store_self]
      rfl
    have hlen' : HasLength m' convBuf (1 + l.length) := by
      refine hlen.append fun c hc => ?_
      rw [hsign, List.mem_singleton] at hc
      rw [hc]
      decide
    rw [if_pos hneg, hrun, ← hpos.2]
    refine ⟨ascii '-' :: l, ?_, .neg hpos.1 (hnumeral _)⟩
    refine (puts_of_hasLength hlen').trans ?_
    rw [bytesAt_add, hsign, hbytes]
    rfl
  · have hvalue : value.toInt = value.toNat := by
      rw [BitVec.toInt_eq_toNat_cond] at hneg ⊢
      split_ifs at hneg ⊢ with h
      · rfl
      · omega
    rw [if_neg hneg, hvalue]
    exact ⟨_, unsignedConversion_eq value m, .natCast (hnumeral _)⟩

/-! ### The scan of the format -/

/-- The state of `printf`. -/
structure Printf where
  /-- The position of `buf` in the format. -/
  buf : ℕ
  /-- The number of arguments in front of `esp`. -/
  esp : ℕ
  /-- The bytes passed to `putc`, in order. -/
  out : List UInt8
  /-- The positions of the format that were read. -/
  reads : List ℕ

namespace Printf

/-- `*buf` is read. -/
def read (st : Printf) : Printf := { st with reads := st.buf :: st.reads }

/-- `buf++`. -/
def next (st : Printf) : Printf := { st with buf := st.buf + 1 }

/-- Bytes are passed to `putc`. -/
def print (st : Printf) (l : List UInt8) : Printf := { st with out := st.out ++ l }

/-- Bytes are passed to `putc`, and `esp++`. -/
def printArg (st : Printf) (l : List UInt8) : Printf := { st.print l with esp := st.esp + 1 }

end Printf

section Scan

variable (m : Mem β) (format : Ptr β) (args : ℕ → BitVec 32) (scratch : ℕ → Mem Unit)

/-- The cases of the inner `switch` other than `'#'`. -/
def conversion (alternate : Bool) (c : UInt8) (st : Printf) : Option Printf :=
  if c = ascii '%' then some (st.print [ascii '%'])
  else if c = ascii 'x' then do
    let l ← hexConversion alternate (args st.esp) (scratch st.buf)
    some (st.printArg l)
  else if c = ascii 'u' then do
    let l ← unsignedConversion (args st.esp) (scratch st.buf)
    some (st.printArg l)
  else if c = ascii 'd' then do
    let l ← signedConversion (args st.esp) (scratch st.buf)
    some (st.printArg l)
  else if c = ascii 'c' then some (st.printArg [UInt8.ofBitVec ((args st.esp).setWidth 8)])
  else if c = ascii 's' then do
    let l ← puts m ⟨format.blk, args st.esp⟩
    some (st.printArg l)
  else some st

/-- The inner `switch` at the label `format_char_switch`, and the jumps back to it. -/
def formatCharSwitch : ℕ → Bool → Printf → Option Printf
  | 0, _, _ => none
  | fuel + 1, alternate, st =>
    let c := m (format.shift st.buf)
    if c = ascii '#' then formatCharSwitch fuel true st.read.next
    else conversion m format args scratch alternate c st.read

/-- The body of the loop: the outer `switch` and `buf++`. -/
def printfStep (st : Printf) : Option Printf :=
  let c := m (format.shift st.buf)
  let st := st.read
  let st' :=
    if c = ascii '%' then formatCharSwitch m format args scratch addressSpace false st.next
    else some (st.read.print [c])
  st'.map .next

/-- The loop of `printf`. -/
def printfLoop : ℕ → Printf → Option Printf
  | 0, _ => none
  | fuel + 1, st =>
    let c := m (format.shift st.buf)
    let st := st.read
    if c = 0 then some st
    else do
      let st ← printfStep m format args scratch st
      printfLoop fuel st

/-- `int32_t printf(int8_t *format, ...)`. The value returned is `buf`. -/
def printf : Option Printf := printfLoop m format args scratch addressSpace ⟨0, 0, [], []⟩

end Scan

section Conversions

variable {m : Mem β} {format : Ptr β} {args : ℕ → BitVec 32} {scratch : ℕ → Mem Unit}
  {fuel : ℕ} {alternate : Bool} {st : Printf}

theorem formatCharSwitch_flag (hfuel : 0 < fuel) (h : m (format.shift st.buf) = ascii '#') :
    formatCharSwitch m format args scratch fuel alternate st =
      formatCharSwitch m format args scratch (fuel - 1) true st.read.next := by
  obtain ⟨k, rfl⟩ := Nat.exists_eq_add_of_le' hfuel
  rw [formatCharSwitch, if_pos h]
  rfl

theorem formatCharSwitch_of_ne (hfuel : 0 < fuel) (h : m (format.shift st.buf) ≠ ascii '#') :
    formatCharSwitch m format args scratch fuel alternate st =
      conversion m format args scratch alternate (m (format.shift st.buf)) st.read := by
  obtain ⟨k, rfl⟩ := Nat.exists_eq_add_of_le' hfuel
  rw [formatCharSwitch, if_neg h]

theorem printfLoop_of_ne (hfuel : 0 < fuel) (h : m (format.shift st.buf) ≠ 0) :
    printfLoop m format args scratch fuel st =
      (printfStep m format args scratch st.read).bind
        (printfLoop m format args scratch (fuel - 1)) := by
  obtain ⟨k, rfl⟩ := Nat.exists_eq_add_of_le' hfuel
  rw [printfLoop, if_neg h]
  rfl

theorem printfStep_percent (h : m (format.shift st.buf) = ascii '%') :
    printfStep m format args scratch st =
      (formatCharSwitch m format args scratch addressSpace false st.read.next).map .next := by
  rw [printfStep, if_pos h]

/-- One conversion, with its specifier at the position behind the `%`. -/
theorem printfLoop_percent (hfuel : 0 < fuel) (h : m (format.shift st.buf) = ascii '%') :
    printfLoop m format args scratch fuel st =
      (formatCharSwitch m format args scratch addressSpace false st.read.read.next).bind fun st =>
        printfLoop m format args scratch (fuel - 1) st.next := by
  have hne : m (format.shift st.buf) ≠ 0 := by
    rw [h]
    decide
  have hstep : printfStep m format args scratch st.read =
      (formatCharSwitch m format args scratch addressSpace false st.read.read.next).map .next :=
    printfStep_percent h
  rw [printfLoop_of_ne hfuel hne, hstep, Option.bind_map]
  rfl

end Conversions

/-- One round of the loop over the letters prints a string that `spec` allows for the argument, at
every place of every format, and the scan stands behind the letters with the next argument. -/
def Prints (letters : List Char) (spec : BitVec 32 → List UInt8 → Prop) : Prop :=
  ∀ (β : Type) (m : Mem β) (format : Ptr β) (args : ℕ → BitVec 32) (scratch : ℕ → Mem Unit)
    (st : Printf), bytesAt m (format.shift st.buf) letters.length = letters.map ascii →
      ∃ l st', printfStep m format args scratch st = some st' ∧ spec (args st.esp) l ∧
        st'.out = st.out ++ l ∧ st'.esp = st.esp + 1 ∧ st'.buf = st.buf + letters.length

theorem prints_specifier {c : Char} {spec : BitVec 32 → List UInt8 → Prop}
    (hc : ascii c ≠ ascii '#')
    (hconv : ∀ (β : Type) (m : Mem β) (format : Ptr β) args scratch (st : Printf),
      ∃ l, spec (args st.esp) l ∧
        conversion m format args scratch false (ascii c) st = some (st.printArg l)) :
    Prints ['%', c] spec := by
  intro β m format args scratch st hbytes
  have hletter (k : ℕ) (hk : k < 2) : m (format.shift (st.buf + k)) = (['%', c].map ascii)[k] := by
    simp only [← hbytes, getElem_bytesAt, Ptr.shift_shift]
  obtain ⟨l, hl, hrun⟩ := hconv β m format args scratch st.read.next.read
  have hspecifier : m (format.shift st.read.next.buf) = ascii c := hletter 1 (by omega)
  rw [printfStep_percent (hletter 0 (by omega)), formatCharSwitch_of_ne (by decide)
    (hspecifier ▸ hc), hspecifier, hrun]
  exact ⟨l, _, rfl, hl, rfl, rfl, rfl⟩

theorem prints_flag_specifier {c : Char} {spec : BitVec 32 → List UInt8 → Prop}
    (hc : ascii c ≠ ascii '#')
    (hconv : ∀ (β : Type) (m : Mem β) (format : Ptr β) args scratch (st : Printf),
      ∃ l, spec (args st.esp) l ∧
        conversion m format args scratch true (ascii c) st = some (st.printArg l)) :
    Prints ['%', '#', c] spec := by
  intro β m format args scratch st hbytes
  have hletter (k : ℕ) (hk : k < 3) :
      m (format.shift (st.buf + k)) = (['%', '#', c].map ascii)[k] := by
    simp only [← hbytes, getElem_bytesAt, Ptr.shift_shift]
  obtain ⟨l, hl, hrun⟩ := hconv β m format args scratch st.read.next.read.next.read
  have hflag : m (format.shift st.read.next.buf) = ascii '#' := hletter 1 (by omega)
  have hspecifier : m (format.shift st.read.next.read.next.buf) = ascii c := hletter 2 (by omega)
  rw [printfStep_percent (hletter 0 (by omega)), formatCharSwitch_flag (by decide) hflag,
    formatCharSwitch_of_ne (by decide) (hspecifier ▸ hc), hspecifier, hrun]
  exact ⟨l, _, rfl, hl, rfl, rfl, rfl⟩

/-- The padded hexadecimal number of `%#x`. -/
def IsPaddedHex (arg : BitVec 32) (l : List UInt8) : Prop :=
  l.length = 8 ∧ (∀ c ∈ l, digitValue c < 16) ∧ value digitValue 16 l = arg.toNat

theorem hexConversion_isPaddedHex (arg : BitVec 32) (m : Mem Unit) :
    ∃ l, hexConversion true arg m = some l ∧ IsPaddedHex arg l := by
  obtain ⟨k, hk, hrun⟩ := hexConversion_true arg m
  have hl : IsNumeral digitValue 16 arg.toNat (numeral digitOf 16 arg.toNat) :=
    isNumeral_numeral_digitOf (by decide) (by decide) _
  refine ⟨_, hrun, ?_, fun c hc => ?_, ?_⟩
  · rw [List.length_append, List.length_replicate, hk]
  · rcases List.mem_append.mp hc with hc | hc
    · rw [List.eq_of_mem_replicate hc]
      decide
    · exact hl.val_lt c hc
  · rw [value_replicate_append (by decide), hl.value_eq]

theorem prints_u : Prints ['%', 'u'] fun arg l => IsNumeral digitValue 10 arg.toNat l := by
  refine prints_specifier (c := 'u') (by decide) fun β m format args scratch st => ?_
  refine ⟨_, isNumeral_numeral_digitOf (by decide) (by decide) _, ?_⟩
  change (unsignedConversion _ _).bind _ = _
  rw [unsignedConversion_eq]
  rfl

theorem prints_x : Prints ['%', 'x'] fun arg l => IsNumeral digitValue 16 arg.toNat l := by
  refine prints_specifier (c := 'x') (by decide) fun β m format args scratch st => ?_
  refine ⟨_, isNumeral_numeral_digitOf (by decide) (by decide) _, ?_⟩
  change (hexConversion false _ _).bind _ = _
  rw [hexConversion_false]
  rfl

theorem prints_d :
    Prints ['%', 'd'] fun arg l => IsSignedNumeral digitValue 10 (ascii '-') arg.toInt l := by
  refine prints_specifier (c := 'd') (by decide) fun β m format args scratch st => ?_
  obtain ⟨l, hrun, hl⟩ := signedConversion_isSignedNumeral (args st.esp) (scratch st.buf)
  refine ⟨l, hl, ?_⟩
  change (signedConversion _ _).bind _ = _
  rw [hrun]
  rfl

theorem prints_alternate_x : Prints ['%', '#', 'x'] IsPaddedHex := by
  refine prints_flag_specifier (c := 'x') (by decide) fun β m format args scratch st => ?_
  obtain ⟨l, hrun, hl⟩ := hexConversion_isPaddedHex (args st.esp) (scratch st.buf)
  refine ⟨l, hl, ?_⟩
  change (hexConversion true _ _).bind _ = _
  rw [hrun]
  rfl

end Mp3Kernel
