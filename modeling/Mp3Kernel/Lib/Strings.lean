import Mp3Kernel.ByteMemory.CString

/-!
# The string and copy routines of the kernel library

`strlen`, `strncmp`, `strcpy` and `memcpy` of `lib.c`, on a byte memory. A loop that looks for a
terminating NUL is bounded by `2 ^ 32` rounds, the number of addresses of a block: a string that
has no NUL there has none at all, the loop of the source never ends, and the result is `none`.

`memcpy` is the routine's assembly: single bytes until the destination is aligned to four
bytes, then double words, then the remaining bytes.

## Main definitions

* `strlen`, `strncmp`, `strcpy`, `memcpy`.

## Main results

* `strlen_eq_some_iff`, `strncmp_eq_zero_iff`.
* `strcpy_of_read_first`: what `strcpy` copies, also when the ranges overlap.
* `copied_memcpy`: on ranges that do not meet, `memcpy` copies the range and nothing else;
  `memcpy_eqOn`: it writes nothing outside the destination, whatever the ranges.

Source: `lib.c`, lines 347–356, 441–484, 512–553.
-/

namespace Mp3Kernel

open ByteMemory

variable {β : Type}

/-- The number of addresses in a block. -/
def addressSpace : ℕ := 2 ^ 32

/-! ### `strlen` -/

/-- The loop of `strlen`, with `len` bytes passed already. -/
def strlenFrom (m : Mem β) (s : Ptr β) : ℕ → ℕ → Option ℕ
  | 0, _ => none
  | fuel + 1, len => if m (s.shift len) = 0 then some len else strlenFrom m s fuel (len + 1)

/-- `uint32_t strlen(const int8_t* s)`. -/
def strlen (m : Mem β) (s : Ptr β) : Option ℕ := strlenFrom m s addressSpace 0

theorem strlenFrom_eq_some_iff {m : Mem β} {s : Ptr β} {fuel len n : ℕ} :
    strlenFrom m s fuel len = some n ↔
      len ≤ n ∧ n < len + fuel ∧ (∀ k, len ≤ k → k < n → m (s.shift k) ≠ 0) ∧
        m (s.shift n) = 0 := by
  induction fuel generalizing len with
  | zero => simp only [strlenFrom]; grind
  | succ fuel ih =>
    rw [strlenFrom]
    split_ifs with h0
    · constructor
      · rintro ⟨⟩
        exact ⟨le_rfl, by omega, fun k h h' => by omega, h0⟩
      · rintro ⟨hle, -, hne, -⟩
        rcases Nat.eq_or_lt_of_le hle with rfl | hlt
        · rfl
        · exact absurd h0 (hne len le_rfl hlt)
    · rw [ih]
      constructor
      · rintro ⟨hle, hlt, hne, hn⟩
        refine ⟨by omega, by omega, fun k hk hk' => ?_, hn⟩
        rcases Nat.eq_or_lt_of_le hk with rfl | hk
        · exact h0
        · exact hne k hk hk'
      · rintro ⟨hle, hlt, hne, hn⟩
        have hlen : len ≠ n := fun h => h0 (h ▸ hn)
        exact ⟨by omega, by omega, fun k hk hk' => hne k (by omega) hk', hn⟩

/-- `strlen` finds the first NUL. -/
theorem strlen_eq_some_iff {m : Mem β} {s : Ptr β} {n : ℕ} :
    strlen m s = some n ↔ HasLength m s n := by
  rw [strlen, strlenFrom_eq_some_iff]
  constructor
  · rintro ⟨-, hlt, hne, hn⟩
    exact ⟨fun k hk => hne k (by omega) hk, hn⟩
  · intro h
    have hlt : n < 0 + addressSpace := by simpa [addressSpace] using h.lt
    exact ⟨by omega, hlt, fun k _ hk => h.1 k hk, h.2⟩

theorem strlen_of_hasLength {m : Mem β} {s : Ptr β} {n : ℕ} (h : HasLength m s n) :
    strlen m s = some n :=
  strlen_eq_some_iff.mpr h

/-- `strlen` is a matter of the bytes of the string. -/
theorem strlen_congr {m m' : Mem β} {s s' : Ptr β}
    (h : ∀ k, m' (s'.shift k) = m (s.shift k)) : strlen m' s' = strlen m s := by
  apply Option.ext
  intro n
  show strlen m' s' = some n ↔ strlen m s = some n
  rw [strlen_eq_some_iff, strlen_eq_some_iff]
  exact ⟨fun hl => hl.congr fun k _ => (h k).symm, fun hl => hl.congr fun k _ => h k⟩

/-! ### `strncmp` -/

/-- The value of a byte as an `int8_t`. -/
def int8 (b : UInt8) : ℤ := b.toBitVec.toInt

theorem int8_injective : Function.Injective int8 := fun _ _ h =>
  UInt8.toBitVec_inj.mp (BitVec.toInt_inj.mp h)

/-- The loop of `strncmp`, at index `i` with `k` rounds left. -/
def strncmpFrom (m : Mem β) (s1 s2 : Ptr β) : ℕ → ℕ → ℤ
  | 0, _ => 0
  | k + 1, i =>
    if m (s1.shift i) ≠ m (s2.shift i) ∨ m (s1.shift i) = 0 then
      int8 (m (s1.shift i)) - int8 (m (s2.shift i))
    else strncmpFrom m s1 s2 k (i + 1)

/-- `int32_t strncmp(const int8_t* s1, const int8_t* s2, uint32_t n)`. -/
def strncmp (m : Mem β) (s1 s2 : Ptr β) (n : ℕ) : ℤ := strncmpFrom m s1 s2 n 0

/-- `strncmp` is a matter of the bytes of the strings. -/
theorem strncmp_congr {m m' : Mem β} {s1 s1' s2 s2' : Ptr β}
    (h1 : ∀ k, m' (s1'.shift k) = m (s1.shift k)) (h2 : ∀ k, m' (s2'.shift k) = m (s2.shift k))
    (n : ℕ) : strncmp m' s1' s2' n = strncmp m s1 s2 n := by
  have hfrom (k i : ℕ) : strncmpFrom m' s1' s2' k i = strncmpFrom m s1 s2 k i := by
    induction k generalizing i with
    | zero => rfl
    | succ k ih => rw [strncmpFrom, strncmpFrom, h1, h2, ih]
  exact hfrom n 0

/-- `strncmp` stops at the NUL of the first string. -/
theorem strncmp_congr_of_hasLength {m m' : Mem β} {s1 s1' s2 s2' : Ptr β} {l : ℕ}
    (hl : HasLength m s1 l) (h1 : ∀ k ≤ l, m' (s1'.shift k) = m (s1.shift k))
    (h2 : ∀ k, m' (s2'.shift k) = m (s2.shift k)) (n : ℕ) :
    strncmp m' s1' s2' n = strncmp m s1 s2 n := by
  have hfrom (k i : ℕ) (hi : i ≤ l) : strncmpFrom m' s1' s2' k i = strncmpFrom m s1 s2 k i := by
    induction k generalizing i with
    | zero => rfl
    | succ k ih =>
      rw [strncmpFrom, strncmpFrom, h1 i hi, h2]
      by_cases hstop : m (s1.shift i) ≠ m (s2.shift i) ∨ m (s1.shift i) = 0
      · rw [if_pos hstop, if_pos hstop]
      · have hil : i ≠ l := fun he => hstop (.inr (he ▸ hl.2))
        rw [if_neg hstop, if_neg hstop, ih (i + 1) (by omega)]
  exact hfrom n 0 (Nat.zero_le l)

theorem strncmpFrom_eq_zero_iff {m : Mem β} {s1 s2 : Ptr β} {k i : ℕ}
    (h : ∀ j, i ≤ j → j < i + k → m (s2.shift j) ≠ 0) :
    strncmpFrom m s1 s2 k i = 0 ↔ ∀ j, i ≤ j → j < i + k → m (s1.shift j) = m (s2.shift j) := by
  induction k generalizing i with
  | zero => simp only [strncmpFrom, true_iff]; omega
  | succ k ih =>
    rw [strncmpFrom]
    have hi := h i le_rfl (by omega)
    split_ifs with hstop
    · rw [Int.sub_eq_zero, int8_injective.eq_iff]
      refine ⟨fun he => absurd hstop ?_, fun hall => hall i le_rfl (by omega)⟩
      rw [he]
      simpa using hi
    · rw [ih fun j hj hj' => h j (by omega) (by omega)]
      constructor
      · intro hall j hj hj'
        rcases Nat.eq_or_lt_of_le hj with rfl | hj
        · simp only [ne_eq, not_or, not_not] at hstop
          exact hstop.1
        · exact hall j hj (by omega)
      · exact fun hall j hj hj' => hall j (by omega) (by omega)

/-- Compared over the length of the second string, the strings are found equal when the second
is a prefix of the first. -/
theorem strncmp_eq_zero_iff {m : Mem β} {s1 s2 : Ptr β} {n : ℕ} (h : HasLength m s2 n) :
    strncmp m s1 s2 n = 0 ↔ IsPrefix m s1 s2 n := by
  rw [strncmp, strncmpFrom_eq_zero_iff fun j _ hj => h.1 j (by omega)]
  exact ⟨fun hall k hk => hall k (by omega) (by omega), fun hall j _ hj => hall j (by omega)⟩

variable [DecidableEq β]

/-! ### `strcpy` -/

/-- The loop of `strcpy` at index `i`. -/
def strcpyFrom (dest src : Ptr β) : ℕ → ℕ → Mem β → Option (Mem β)
  | 0, _, _ => none
  | fuel + 1, i, m =>
    if m (src.shift i) = 0 then some (store m (dest.shift i) 0)
    else strcpyFrom dest src fuel (i + 1) (store m (dest.shift i) (m (src.shift i)))

/-- `int8_t* strcpy(int8_t* dest, const int8_t* src)`. -/
def strcpy (m : Mem β) (dest src : Ptr β) : Option (Mem β) :=
  strcpyFrom dest src addressSpace 0 m

/-- The invariant of the loop: the first `i` bytes are copied. Every byte of the source is read
before it is overwritten. -/
theorem strcpyFrom_spec {m₀ m : Mem β} {dest src : Ptr β} {fuel i n : ℕ}
    (hlen : HasLength m₀ src n) (hn : n < i + fuel) (hi : i ≤ n) (hn' : n < 2 ^ 32)
    (hd : ∀ k ≤ n, src.shift k ∉ dest.span k) (hm : Copied m₀ m dest src i) :
    ∃ m', strcpyFrom dest src fuel i m = some m' ∧ Copied m₀ m' dest src (n + 1) := by
  induction fuel generalizing i m with
  | zero => omega
  | succ fuel ih =>
    have hsrc : m (src.shift i) = m₀ (src.shift i) := hm.eqOn (hd i hi)
    have hstep : Copied m₀ (store m (dest.shift i) (m (src.shift i))) dest src (i + 1) :=
      hm.store (by omega) (hd i hi)
    rw [strcpyFrom]
    split_ifs with h0
    · have hin : i = n := by
        rcases Nat.eq_or_lt_of_le hi with h | h
        · exact h
        · exact absurd (hsrc ▸ h0) (hlen.1 i h)
      subst hin
      exact ⟨_, rfl, h0 ▸ hstep⟩
    · have hin : i ≠ n := fun h => h0 (by rw [hsrc, h, hlen.2])
      exact ih (by omega) (by omega) hstep

/-- `strcpy` copies a string with its NUL, and nothing else, where no byte of the string is
overwritten before it is read. -/
theorem strcpy_of_read_first {m : Mem β} {dest src : Ptr β} {n : ℕ} (hlen : HasLength m src n)
    (hd : ∀ k ≤ n, src.shift k ∉ dest.span k) :
    ∃ m', strcpy m dest src = some m' ∧ Copied m m' dest src (n + 1) :=
  have hn : n < 0 + addressSpace := by simpa [addressSpace] using hlen.lt
  strcpyFrom_spec hlen hn (Nat.zero_le _) hlen.lt hd (.refl ..)

/-- `strcpy` copies a string to a place that does not meet it. -/
theorem strcpy_eq_some {m : Mem β} {dest src : Ptr β} {n : ℕ} (hlen : HasLength m src n)
    (hd : Disjoint (src.span (n + 1)) (dest.span (n + 1))) :
    ∃ m', strcpy m dest src = some m' ∧ Copied m m' dest src (n + 1) :=
  strcpy_of_read_first hlen fun _ hk hin => Set.disjoint_left.mp hd
    (Ptr.shift_mem_span (Nat.lt_succ_of_le hk)) (Ptr.span_mono (by omega) hin)

/-- `strcpy` copies a string to a place in front of it, also when the two meet. -/
theorem strcpy_forward {m : Mem β} {dest : Ptr β} {d n : ℕ} (hd : 0 < d) (hn : d + n < 2 ^ 32)
    (hlen : HasLength m (dest.shift d) n) :
    ∃ m', strcpy m dest (dest.shift d) = some m' ∧ Copied m m' dest (dest.shift d) (n + 1) := by
  refine strcpy_of_read_first hlen fun k hk => ?_
  rw [Ptr.shift_shift]
  exact Ptr.shift_notMem_span (by omega) (by omega)

/-- What `strcpy` leaves alone, when the string and its copy do not meet. -/
theorem strcpy_eqOn {m m' : Mem β} {dest src : Ptr β} {n : ℕ} (h : strcpy m dest src = some m')
    (hlen : HasLength m src n) (hd : Disjoint (src.span (n + 1)) (dest.span (n + 1))) :
    Set.EqOn m' m (dest.span (n + 1))ᶜ := by
  obtain ⟨m'', hm'', hc⟩ := strcpy_eq_some hlen hd
  obtain rfl := Option.some.inj (hm''.symm.trans h)
  exact hc.eqOn

/-- A `strcpy` to another block that ends has found the NUL. -/
theorem exists_hasLength_of_strcpy {m m' : Mem β} {dest src : Ptr β} (hd : dest.blk ≠ src.blk)
    (h : strcpy m dest src = some m') : ∃ n, HasLength m src n := by
  have hfrom (fuel i : ℕ) (m₁ : Mem β) (hm₁ : ∀ k, m₁ (src.shift k) = m (src.shift k))
      (hi : ∀ k < i, m (src.shift k) ≠ 0) (h : strcpyFrom dest src fuel i m₁ = some m') :
      ∃ n, HasLength m src n := by
    induction fuel generalizing i m₁ with
    | zero => cases h
    | succ fuel ih =>
      rw [strcpyFrom] at h
      split_ifs at h with h0
      · exact ⟨i, hi, hm₁ i ▸ h0⟩
      · refine ih (i + 1) _ (fun k => ?_) (fun k hk => ?_) h
        · have hne : src.shift k ≠ dest.shift i := fun he => hd (congrArg Ptr.blk he).symm
          rw [store_of_ne _ hne, hm₁]
        · rcases Nat.lt_succ_iff_lt_or_eq.mp hk with hk | rfl
          · exact hi k hk
          · rwa [hm₁] at h0
  exact hfrom addressSpace 0 m (fun _ => rfl) (fun k hk => absurd hk (Nat.not_lt_zero k)) h

/-- A `strcpy` to another block that ends has copied a string. -/
theorem copied_strcpy {m m' : Mem β} {dest src : Ptr β} (hd : dest.blk ≠ src.blk)
    (h : strcpy m dest src = some m') : ∃ n, HasLength m src n ∧ Copied m m' dest src (n + 1) := by
  obtain ⟨n, hn⟩ := exists_hasLength_of_strcpy hd h
  obtain ⟨m'', hm'', hc⟩ := strcpy_eq_some hn (Ptr.disjoint_span_of_blk_ne hd.symm _ _)
  obtain rfl := Option.some.inj (hm''.symm.trans h)
  exact ⟨n, hn, hc⟩

/-! ### `memcpy` -/

/-- The byte loop `.memcpy_bottom`, with `n` bytes left. -/
def copyBytes (m : Mem β) : ℕ → Ptr β → Ptr β → Mem β
  | 0, _, _ => m
  | n + 1, dest, src => copyBytes (store m dest (m src)) n (dest.shift 1) (src.shift 1)

/-- `rep movsl`, with `k` double words left. -/
def repMovsl (m : Mem β) : ℕ → Ptr β → Ptr β → Mem β
  | 0, _, _ => m
  | k + 1, dest, src =>
    repMovsl (writeWord m dest (readWord m src)) k (dest.shift 4) (src.shift 4)

/-- The part from `.memcpy_aligned` on: `n / 4` double words, then `n % 4` bytes. -/
def memcpyAligned (m : Mem β) (n : ℕ) (dest src : Ptr β) : Mem β :=
  copyBytes (repMovsl m (n / 4) dest src) (n % 4) (dest.shift (4 * (n / 4)))
    (src.shift (4 * (n / 4)))

/-- The loop `.memcpy_top`, with `n` bytes left. -/
def memcpyTop (m : Mem β) : ℕ → Ptr β → Ptr β → Mem β
  | 0, _, _ => m
  | n + 1, dest, src =>
    if dest.off.toNat % 4 = 0 then memcpyAligned m (n + 1) dest src
    else memcpyTop (store m dest (m src)) n (dest.shift 1) (src.shift 1)

/-- `void* memcpy(void* dest, const void* src, uint32_t n)`. -/
def memcpy (m : Mem β) (dest src : Ptr β) (n : ℕ) : Mem β := memcpyTop m n dest src

theorem copied_copyBytes {m : Mem β} {n : ℕ} {dest src : Ptr β} (hn : n ≤ 2 ^ 32)
    (hd : Disjoint (src.span n) (dest.span n)) : Copied m (copyBytes m n dest src) dest src n := by
  induction n generalizing m dest src with
  | zero => exact .refl ..
  | succ n ih =>
    exact Copied.step (by omega) hn hd (copied_store m dest src) fun hd' => ih (by omega) hd'

theorem copied_repMovsl {m : Mem β} {k : ℕ} {dest src : Ptr β} (hk : 4 * k ≤ 2 ^ 32)
    (hd : Disjoint (src.span (4 * k)) (dest.span (4 * k))) :
    Copied m (repMovsl m k dest src) dest src (4 * k) := by
  induction k generalizing m dest src with
  | zero => exact .refl ..
  | succ k ih =>
    exact Copied.step (by omega) hk hd (copied_writeWord m dest src) fun hd' => ih (by omega) hd'

theorem copied_memcpyAligned {m : Mem β} {n : ℕ} {dest src : Ptr β} (hn : n ≤ 2 ^ 32)
    (hd : Disjoint (src.span n) (dest.span n)) :
    Copied m (memcpyAligned m n dest src) dest src n :=
  have hle : 4 * (n / 4) ≤ n := Nat.mul_div_le n 4
  Copied.step (by omega) hn hd
    (copied_repMovsl (by omega) (hd.mono (Ptr.span_mono hle) (Ptr.span_mono hle)))
    fun hd' => copied_copyBytes (by omega) hd'

/-- **`memcpy` copies.** On ranges that do not meet, for every alignment of both addresses. -/
theorem copied_memcpy {m : Mem β} {n : ℕ} {dest src : Ptr β} (hn : n ≤ 2 ^ 32)
    (hd : Disjoint (src.span n) (dest.span n)) : Copied m (memcpy m dest src n) dest src n := by
  rw [memcpy]
  induction n generalizing m dest src with
  | zero => exact .refl ..
  | succ n ih =>
    rw [memcpyTop]
    split_ifs
    · exact copied_memcpyAligned hn hd
    · exact Copied.step (by omega) hn hd (copied_store m dest src) fun hd' => ih (by omega) hd'

/-! ### What `memcpy` leaves alone -/

theorem copyBytes_eqOn (m : Mem β) (n : ℕ) (dest src : Ptr β) :
    Set.EqOn (copyBytes m n dest src) m (dest.span n)ᶜ := by
  induction n generalizing m dest src with
  | zero => exact Set.eqOn_refl ..
  | succ n ih => exact eqOn_compl_span_trans (by omega) (copied_store m dest src).eqOn (ih ..)

theorem repMovsl_eqOn (m : Mem β) (k : ℕ) (dest src : Ptr β) :
    Set.EqOn (repMovsl m k dest src) m (dest.span (4 * k))ᶜ := by
  induction k generalizing m dest src with
  | zero => exact Set.eqOn_refl ..
  | succ k ih => exact eqOn_compl_span_trans (by omega) (writeWord_eqOn ..) (ih ..)

/-- `memcpy` writes nothing outside the destination, also when the ranges overlap. -/
theorem memcpy_eqOn (m : Mem β) (dest src : Ptr β) (n : ℕ) :
    Set.EqOn (memcpy m dest src n) m (dest.span n)ᶜ := by
  rw [memcpy]
  induction n generalizing m dest src with
  | zero => exact Set.eqOn_refl ..
  | succ n ih =>
    rw [memcpyTop]
    split_ifs
    · exact eqOn_compl_span_trans (by omega) (repMovsl_eqOn ..) (copyBytes_eqOn ..)
    · exact eqOn_compl_span_trans (by omega) (copied_store m dest src).eqOn (ih ..)

end Mp3Kernel
