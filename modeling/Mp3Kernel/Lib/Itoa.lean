import Mp3Kernel.Console.Screen
import Mp3Kernel.Lib.Strings
import Mp3Kernel.Numerals.Basic

/-!
# The conversion of numbers to strings

`itoa` stores the digits of a number from the lowest place on, and then reverses them in place with
`strrev`. Both return the pointer they are given, and memory is what the functions here return. A
loop of `itoa` that does not come to an end lowers the number in no round, and the result is `none`,
as it is for the radix zero and for a digit without a letter.

## Main definitions

* `lookup`, `digitOf`, `digitValue`: the letters of the digits.
* `itoa`, `strrev`.

## Main results

* `strrev_spec`: a string is reversed.
* `itoa_spec`: the string stored is the numeral.

Source: `lib.c`, lines 289–345.
-/

namespace Mp3Kernel

open ByteMemory Numerals

variable {β : Type}

/-! ### The letters -/

/-- `lookup`, with the NUL at its end. -/
def lookup : List UInt8 :=
  ['0', '1', '2', '3', '4', '5', '6', '7', '8', '9', 'A', 'B', 'C', 'D', 'E', 'F', 'G', 'H', 'I',
    'J', 'K', 'L', 'M', 'N', 'O', 'P', 'Q', 'R', 'S', 'T', 'U', 'V', 'W', 'X', 'Y', 'Z',
    Char.ofNat 0].map ascii

/-- The letter of a digit. -/
def digitOf (d : ℕ) : UInt8 := lookup.getD d 0

/-- The digit of a letter. -/
def digitValue (c : UInt8) : ℕ := lookup.idxOf c

theorem lookup_getElem? {d : ℕ} (hd : d < 36) : lookup[d]? = some (digitOf d) := by
  revert d
  decide

theorem digitValue_digitOf {d : ℕ} (hd : d < 36) : digitValue (digitOf d) = d := by
  revert d
  decide

theorem digitOf_ne_zero {d : ℕ} (hd : d < 36) : digitOf d ≠ 0 := by
  revert d
  decide

theorem isNumeral_numeral_digitOf {b : ℕ} (hb : 1 < b) (hb' : b ≤ 36) (n : ℕ) :
    IsNumeral digitValue b n (numeral digitOf b n) :=
  isNumeral_numeral hb (fun d hd => digitValue_digitOf (by omega)) n

variable [DecidableEq β]

/-! ### The conversions -/

/-- The loop of `strrev`. It ends before `fuel` rounds, which is not less than the length. -/
def strrevFrom (s : Ptr β) : ℕ → ℤ → ℤ → Mem β → Mem β
  | 0, _, _, m => m
  | fuel + 1, beg, end', m =>
    if beg < end' then
      let tmp := m (s.shift end'.toNat)
      let m := store m (s.shift end'.toNat) (m (s.shift beg.toNat))
      let m := store m (s.shift beg.toNat) tmp
      strrevFrom s fuel (beg + 1) (end' - 1) m
    else m

/-- `int8_t* strrev(int8_t* s)`. -/
def strrev (s : Ptr β) (m : Mem β) : Option (Mem β) := do
  let n ← strlen m s
  some (strrevFrom s n 0 (BitVec.ofNat 32 n - 1#32).toInt m)

/-- The loop of `itoa`, with the number `newval` left: the pointer behind the digits, and memory. -/
def itoaDigits (radix : BitVec 32) : ℕ → BitVec 32 → Ptr β → Mem β → Option (Ptr β × Mem β)
  | 0, _, _, _ => none
  | fuel + 1, newval, newbuf, m =>
    if newval = 0#32 then some (newbuf, m)
    else if radix = 0#32 then none
    else do
      let c ← lookup[(newval % radix).toNat]?
      itoaDigits radix fuel (newval / radix) (newbuf.shift 1) (store m newbuf c)

/-- `int8_t* itoa(uint32_t value, int8_t* buf, int32_t radix)`. -/
def itoa (value : BitVec 32) (buf : Ptr β) (radix : BitVec 32) (m : Mem β) : Option (Mem β) :=
  if value = 0#32 then some (store (store m buf (ascii '0')) (buf.shift 1) 0)
  else do
    let (newbuf, m) ← itoaDigits radix addressSpace value buf m
    strrev buf (store m newbuf 0)

/-! ### Reversing -/

variable {m : Mem β} {s : Ptr β}

/-- The loop reverses the bytes from `i` to `j`. -/
theorem strrevFrom_spec {fuel i j : ℕ} (hj : j < 2 ^ 32) (hfuel : j ≤ i + fuel) :
    (∀ k, i ≤ k → k ≤ j →
      strrevFrom s fuel i j m (s.shift k) = m (s.shift (i + j - k))) ∧
    ∀ q, (∀ k, i ≤ k → k ≤ j → q ≠ s.shift k) → strrevFrom s fuel i j m q = m q := by
  induction fuel generalizing i j m with
  | zero =>
    refine ⟨fun k hi hk => ?_, fun _ _ => rfl⟩
    have hkj : k = i + j - k := by omega
    rw [strrevFrom, ← hkj]
  | succ fuel ih =>
    rw [strrevFrom]
    by_cases hlt : i < j
    · rw [if_pos (Int.ofNat_lt.mpr hlt), Int.toNat_natCast, Int.toNat_natCast]
      set m₁ := store (store m (s.shift j) (m (s.shift i))) (s.shift i) (m (s.shift j)) with hm₁
      have hbeg : (i : ℤ) + 1 = (i + 1 : ℕ) := rfl
      have hend : (j : ℤ) - 1 = (j - 1 : ℕ) := by omega
      have hne (k : ℕ) (hk : k < 2 ^ 32) (hki : k ≠ i) : s.shift k ≠ s.shift i := fun h =>
        hki ((Ptr.shift_inj hk (by omega)).mp h)
      have hne' (k : ℕ) (hk : k < 2 ^ 32) (hkj : k ≠ j) : s.shift k ≠ s.shift j := fun h =>
        hkj ((Ptr.shift_inj hk hj).mp h)
      have hrest (q : Ptr β) (hi : q ≠ s.shift i) (hj : q ≠ s.shift j) : m₁ q = m q := by
        rw [hm₁, store_of_ne _ hi, store_of_ne _ hj]
      obtain ⟨hin, hout⟩ := ih (i := i + 1) (j := j - 1) (m := m₁) (by omega) (by omega)
      rw [hbeg, hend]
      refine ⟨fun k hi hk => ?_, fun q hq => ?_⟩
      · by_cases hki : k = i
        · rw [hki, hout _ fun k' _ _ => (hne k' (by omega) (by omega)).symm, hm₁, store_self,
            Nat.add_sub_cancel_left]
        by_cases hkj : k = j
        · rw [hkj, hout _ fun k' _ _ => (hne' k' (by omega) (by omega)).symm, hm₁,
            store_of_ne _ (hne j hj (by omega)), store_self, Nat.add_sub_cancel]
        · have hsum : i + 1 + (j - 1) - k = i + j - k := by omega
          rw [hin k (by omega) (by omega), hsum,
            hrest _ (hne _ (by omega) (by omega)) (hne' _ (by omega) (by omega))]
      · rw [hout q fun k _ _ => hq k (by omega) (by omega),
          hrest q (hq i le_rfl hlt.le) (hq j hlt.le le_rfl)]
    · rw [if_neg (fun h => hlt (Int.ofNat_lt.mp h))]
      refine ⟨fun k hi hk => ?_, fun _ _ => rfl⟩
      have hkj : k = i + j - k := by omega
      rw [← hkj]

theorem strrev_spec {n : ℕ} (h : HasLength m s n) (hn : n ≤ 2 ^ 31) :
    ∃ m', strrev s m = some m' ∧ bytesAt m' s n = (bytesAt m s n).reverse ∧
      HasLength m' s n ∧ Set.EqOn m' m (s.span n)ᶜ := by
  suffices hrev : ∃ m', strrev s m = some m' ∧ bytesAt m' s n = (bytesAt m s n).reverse ∧
      Set.EqOn m' m (s.span n)ᶜ by
    obtain ⟨m', hrun, hbytes, hout⟩ := hrev
    refine ⟨m', hrun, hbytes, hasLength_iff_bytesAt.mpr ⟨fun c hc => ?_, ?_⟩, hout⟩
    · rw [hbytes] at hc
      exact (hasLength_iff_bytesAt.mp h).1 c (List.mem_reverse.mp hc)
    · rw [hout (Ptr.shift_notMem_span le_rfl (by omega)), h.2]
  rw [strrev, strlen_of_hasLength h]
  refine ⟨_, rfl, ?_⟩
  cases n with
  | zero => exact ⟨rfl, fun _ _ => rfl⟩
  | succ n =>
    have hlast : (BitVec.ofNat 32 (n + 1) - 1#32).toInt = n := by
      have hsub : (BitVec.ofNat 32 (n + 1) - 1#32).toNat = n := by bv_omega
      rw [BitVec.toInt_eq_toNat_cond, hsub, if_pos (by omega)]
    have hrounds : n ≤ 0 + (n + 1) := by omega
    obtain ⟨hin, hout⟩ := strrevFrom_spec (m := m) (s := s) (by omega) hrounds
    rw [hlast]
    refine ⟨List.ext_getElem (by simp) fun k hk _ => ?_, fun q hq => ?_⟩
    · rw [length_bytesAt] at hk
      rw [getElem_bytesAt, List.getElem_reverse, getElem_bytesAt, length_bytesAt]
      have hsum : 0 + n - k = n + 1 - 1 - k := by omega
      rw [← hsum]
      exact hin k (Nat.zero_le k) (by omega)
    · exact hout q fun k _ hk he => hq (he ▸ Ptr.shift_mem_span (by omega))

/-! ### The digits -/

section Digits

variable (radix : BitVec 32) (h2 : 2 ≤ radix.toNat) (h36 : radix.toNat ≤ 36)

include h2 h36

/-- A number of 32 bits has at most 32 digits. -/
theorem length_numeral_le_32 (value : BitVec 32) :
    (numeral digitOf radix.toNat value.toNat).length ≤ 32 := by
  refine length_numeral_le (by omega) (by omega) (value.isLt.trans_le ?_)
  exact Nat.pow_le_pow_left h2 32

/-- The loop stores the digits from the lowest place on. -/
theorem itoaDigits_spec {fuel : ℕ} {newval : BitVec 32} (hfuel : newval.toNat < fuel)
    (newbuf : Ptr β) (m : Mem β) :
    let ds := (radix.toNat.digits newval.toNat).map digitOf
    ∃ m', itoaDigits radix fuel newval newbuf m = some (newbuf.shift ds.length, m') ∧
      bytesAt m' newbuf ds.length = ds ∧ Set.EqOn m' m (newbuf.span ds.length)ᶜ := by
  induction fuel generalizing newval newbuf m with
  | zero => exact absurd hfuel (Nat.not_lt_zero _)
  | succ fuel ih =>
    rw [itoaDigits]
    by_cases h0 : newval = 0#32
    · subst h0
      exact ⟨m, by simp, by simp [bytesAt], fun _ _ => rfl⟩
    · have hpos : 0 < newval.toNat := Nat.pos_of_ne_zero fun h => h0 (BitVec.eq_of_toNat_eq h)
      have hradix : radix ≠ 0#32 := fun h => by
        rw [h] at h2
        exact absurd h2 (by decide)
      have hdiv : (newval / radix).toNat = newval.toNat / radix.toNat := BitVec.toNat_udiv
      have hlt : newval.toNat / radix.toNat < newval.toNat := Nat.div_lt_self hpos h2
      have hdigit : newval.toNat % radix.toNat < radix.toNat := Nat.mod_lt _ (by omega)
      have hrounds : (newval / radix).toNat < fuel := by omega
      obtain ⟨m', hrun, hbytes, hout⟩ := ih hrounds (newbuf.shift 1)
        (store m newbuf (digitOf (newval.toNat % radix.toNat)))
      rw [hdiv] at hrun hbytes hout
      set ds := ((radix.toNat.digits (newval.toNat / radix.toNat)).map digitOf) with hds
      have hlen : ds.length ≤ 32 := by
        rw [hds, List.length_map, Nat.digits_length_le_iff h2]
        have hpow := Nat.pow_le_pow_left h2 32
        have hval := newval.isLt
        omega
      have hself : newbuf ∉ (newbuf.shift 1).span ds.length :=
        Ptr.notMem_span_shift Nat.one_pos (by omega)
      intro ds'
      have hds' : ds' = digitOf (newval.toNat % radix.toNat) :: ds := by
        rw [hds, ← List.map_cons, ← Nat.digits_def' h2 hpos]
      rw [if_neg h0, if_neg hradix, BitVec.toNat_umod, lookup_getElem? (by omega), hds',
        List.length_cons]
      refine ⟨m', ?_, ?_, fun q hq => ?_⟩
      · rw [Nat.add_comm, ← Ptr.shift_shift]
        exact hrun
      · rw [bytesAt_succ, hbytes, hout hself, store_self]
      · have hq' : q ∉ (newbuf.shift 1).span ds.length := fun h =>
          hq (Ptr.span_shift_subset (by omega) h)
        rw [hout hq']
        exact store_of_ne _ fun h => hq (h ▸ Ptr.self_mem_span (by omega))

/-- The loop and the NUL store the digits as a string, the lowest place first. -/
theorem exists_digits_string (value : BitVec 32) (buf : Ptr β) (m : Mem β) :
    let ds := (radix.toNat.digits value.toNat).map digitOf
    ∃ m₁, itoaDigits radix addressSpace value buf m = some (buf.shift ds.length, m₁) ∧
      bytesAt (store m₁ (buf.shift ds.length) 0) buf ds.length = ds ∧
      HasLength (store m₁ (buf.shift ds.length) 0) buf ds.length ∧
      Set.EqOn (store m₁ (buf.shift ds.length) 0) m (buf.span (ds.length + 1))ᶜ := by
  intro ds
  have hlen : ds.length ≤ 32 := by
    rw [List.length_map, Nat.digits_length_le_iff h2]
    exact value.isLt.trans_le (Nat.pow_le_pow_left h2 32)
  have hrounds : value.toNat < addressSpace := value.isLt
  obtain ⟨m₁, hrun, hbytes, hout⟩ := itoaDigits_spec radix h2 h36 hrounds buf m
  have hstring : bytesAt (store m₁ (buf.shift ds.length) 0) buf ds.length = ds := by
    have hnul : Set.EqOn (store m₁ (buf.shift ds.length) 0) m₁ (buf.span ds.length) :=
      store_eqOn (Ptr.shift_notMem_span le_rfl (by omega))
    refine Eq.trans ?_ hbytes
    exact bytesAt_eq_iff.mpr fun k hk => hnul (Ptr.shift_mem_span hk)
  refine ⟨m₁, hrun, hstring, hasLength_iff_bytesAt.mpr ⟨fun c hc => ?_, store_self ..⟩, ?_⟩
  · rw [hstring] at hc
    obtain ⟨d, hd, rfl⟩ := List.mem_map.mp hc
    have hlt := Nat.digits_lt_base h2 hd
    exact digitOf_ne_zero (by omega)
  · exact eqOn_compl_span_trans le_rfl hout (store_eqOn fun h => h (Ptr.self_mem_span Nat.one_pos))

omit h2 h36 in
/-- The case of zero. -/
theorem itoa_zero (buf : Ptr β) (m : Mem β) :
    ∃ m', itoa 0#32 buf radix m = some m' ∧ bytesAt m' buf 1 = [digitOf 0] ∧
      HasLength m' buf 1 ∧ Set.EqOn m' m (buf.span 2)ᶜ := by
  have hself : buf ≠ buf.shift 1 := by
    intro h
    have hout : buf ∉ (buf.shift 1).span 1 := Ptr.notMem_span_shift Nat.one_pos (by omega)
    rw [← h] at hout
    exact hout (Ptr.self_mem_span Nat.one_pos)
  have hbytes : bytesAt (store (store m buf (ascii '0')) (buf.shift 1) 0) buf 1 = [digitOf 0] := by
    rw [bytesAt_succ, store_of_ne _ hself, store_self]
    rfl
  have hfirst : Set.EqOn (store m buf (ascii '0')) m (buf.span 1)ᶜ :=
    store_eqOn fun h => h (Ptr.self_mem_span Nat.one_pos)
  rw [itoa, if_pos rfl]
  refine ⟨_, rfl, hbytes, hasLength_iff_bytesAt.mpr ⟨fun c hc => ?_, store_self ..⟩, ?_⟩
  · rw [hbytes, List.mem_singleton] at hc
    exact hc ▸ digitOf_ne_zero (by omega)
  · exact eqOn_compl_span_trans le_rfl hfirst
      (store_eqOn fun h => h (Ptr.self_mem_span Nat.one_pos))

/-- **The string is the numeral.** -/
theorem itoa_spec (value : BitVec 32) (buf : Ptr β) (m : Mem β) :
    let l := numeral digitOf radix.toNat value.toNat
    ∃ m', itoa value buf radix m = some m' ∧ bytesAt m' buf l.length = l ∧
      HasLength m' buf l.length ∧ Set.EqOn m' m (buf.span (l.length + 1))ᶜ := by
  intro l
  have hle : l.length ≤ 32 := length_numeral_le_32 radix h2 h36 value
  by_cases h0 : value = 0#32
  · subst h0
    exact itoa_zero radix buf m
  · have hne : value.toNat ≠ 0 := fun h => h0 (BitVec.eq_of_toNat_eq h)
    obtain ⟨m₁, hrun, hstring, hterm, hout⟩ := exists_digits_string radix h2 h36 value buf m
    set ds := (radix.toNat.digits value.toNat).map digitOf with hds
    have hl : l = ds.reverse := by
      rw [hds, ← List.map_reverse]
      exact numeral_of_ne_zero hne
    rw [hl, List.length_reverse] at hle ⊢
    obtain ⟨m₂, hrev, hback, hterm₂, hout₂⟩ := strrev_spec hterm (by omega)
    rw [hstring] at hback
    rw [itoa, if_neg h0, hrun]
    refine ⟨m₂, hrev, hback, hterm₂, fun q hq => ?_⟩
    have hq' : q ∉ buf.span ds.length := fun h => hq (Ptr.span_mono (by omega) h)
    rw [hout₂ hq', hout hq]

end Digits

end Mp3Kernel
