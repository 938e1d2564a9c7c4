import Mathlib.Data.Nat.Find
import Mp3Kernel.ByteMemory.Basic

/-!
# Terminated strings and copied ranges in byte memory

`HasLength m p n` says that the string at `p` has its first zero byte at position `n`.
`Copied m m' dest src n` says that `m'` is `m` with the `n` bytes from `src` on copied to `dest`;
two copies of adjacent ranges compose when the source range and the destination range do not
meet, which is the rule every copying loop is proved with.

## Main definitions

* `HasLength`, `bytesAt`, `IsPrefix`.
* `Copied`, `CopiedAt`.

## Main results

* `HasLength.unique`, `HasLength.congr`, `exists_hasLength_le`, `exists_hasLength_of_blk`.
* `Copied.trans`: adjacent copies compose; `CopiedAt.trans`: so do partial copies of a record.
-/

namespace ByteMemory

variable {β : Type}

/-! ### Strings -/

/-- The string at `p` has length `n`: its first zero byte is at position `n`. -/
def HasLength (m : Mem β) (p : Ptr β) (n : ℕ) : Prop :=
  (∀ k < n, m (p.shift k) ≠ 0) ∧ m (p.shift n) = 0

theorem HasLength.unique {m : Mem β} {p : Ptr β} {n n' : ℕ} (h : HasLength m p n)
    (h' : HasLength m p n') : n = n' := by
  rcases Nat.lt_trichotomy n n' with hlt | heq | hlt
  · exact absurd h.2 (h'.1 n hlt)
  · exact heq
  · exact absurd h'.2 (h.1 n' hlt)

/-- The length is a matter of the bytes up to the first zero. -/
theorem HasLength.congr {m m' : Mem β} {p p' : Ptr β} {n : ℕ} (h : HasLength m p n)
    (he : ∀ k ≤ n, m' (p'.shift k) = m (p.shift k)) : HasLength m' p' n :=
  ⟨fun k hk => (he k hk.le).symm ▸ h.1 k hk, (he n le_rfl).trans h.2⟩

/-- A length is less than the number of offsets, which wrap. -/
theorem HasLength.lt {m : Mem β} {p : Ptr β} {n : ℕ} (h : HasLength m p n) : n < 2 ^ 32 := by
  by_contra hn
  obtain ⟨k, rfl⟩ := Nat.exists_eq_add_of_le (Nat.not_lt.mp hn)
  have h0 := h.2
  rw [Ptr.shift_add_two_pow] at h0
  exact h.1 k (by omega) h0

/-- A zero byte at position `k` bounds the length. -/
theorem exists_hasLength_le {m : Mem β} {p : Ptr β} {k : ℕ} (h : m (p.shift k) = 0) :
    ∃ n ≤ k, HasLength m p n := by
  classical
  have hex : ∃ n, m (p.shift n) = 0 := ⟨k, h⟩
  exact ⟨Nat.find hex, Nat.find_min' hex h, fun j hj => Nat.find_min hex hj, Nat.find_spec hex⟩

/-- A string ends where its block has a zero byte anywhere. -/
theorem exists_hasLength_of_blk {m : Mem β} {p q : Ptr β} (hb : q.blk = p.blk) (h0 : m q = 0) :
    ∃ n, HasLength m p n := by
  obtain ⟨j, -, -, rfl⟩ := Ptr.exists_shift_of_mem_span (n := 2 ^ 32) (p := p) (q := q)
    ⟨hb, BitVec.isLt _⟩
  obtain ⟨n, -, hn⟩ := exists_hasLength_le h0
  exact ⟨n, hn⟩

/-- The first `n` bytes of the string at `q` begin the string at `p`. -/
def IsPrefix (m : Mem β) (p q : Ptr β) (n : ℕ) : Prop :=
  ∀ k < n, m (p.shift k) = m (q.shift k)

/-- A prefix without zero bytes is no longer than the string. -/
theorem IsPrefix.le_length {m : Mem β} {p q : Ptr β} {n l : ℕ} (h : IsPrefix m p q n)
    (hq : HasLength m q n) (hp : HasLength m p l) : n ≤ l := by
  by_contra hlt
  exact hq.1 l (by omega) ((h l (by omega)).symm.trans hp.2)

/-- The `n` bytes from `p` on. -/
def bytesAt (m : Mem β) (p : Ptr β) (n : ℕ) : List UInt8 :=
  (List.range n).map fun k => m (p.shift k)

@[simp] theorem length_bytesAt (m : Mem β) (p : Ptr β) (n : ℕ) : (bytesAt m p n).length = n := by
  simp [bytesAt]

@[simp] theorem getElem_bytesAt (m : Mem β) (p : Ptr β) {n k : ℕ} (h : k < (bytesAt m p n).length) :
    (bytesAt m p n)[k] = m (p.shift k) := by
  simp [bytesAt]

theorem bytesAt_succ (m : Mem β) (p : Ptr β) (n : ℕ) :
    bytesAt m p (n + 1) = m p :: bytesAt m (p.shift 1) n := by
  simp [bytesAt, List.range_succ_eq_map, Function.comp_def, Nat.add_comm]

theorem bytesAt_add (m : Mem β) (p : Ptr β) (n k : ℕ) :
    bytesAt m p (n + k) = bytesAt m p n ++ bytesAt m (p.shift n) k := by
  simp [bytesAt, List.range_add, Function.comp_def]

theorem take_bytesAt (m : Mem β) (p : Ptr β) {n k : ℕ} (hk : k ≤ n) :
    (bytesAt m p n).take k = bytesAt m p k := by
  rw [bytesAt, bytesAt, ← List.map_take, List.take_range, Nat.min_eq_left hk]

/-- Two ranges have the same bytes when they agree at every position. -/
theorem bytesAt_eq_iff {m m' : Mem β} {p q : Ptr β} {n : ℕ} :
    bytesAt m p n = bytesAt m' q n ↔ ∀ k < n, m (p.shift k) = m' (q.shift k) := by
  rw [bytesAt, bytesAt, List.map_inj_left]
  exact forall_congr' fun k => by rw [List.mem_range]

/-- A string is a range of bytes other than zero with a zero byte behind it. -/
theorem hasLength_iff_bytesAt {m : Mem β} {p : Ptr β} {n : ℕ} :
    HasLength m p n ↔ (∀ c ∈ bytesAt m p n, c ≠ 0) ∧ m (p.shift n) = 0 := by
  simp [HasLength, bytesAt]

/-- Bytes other than zero in front of a string lengthen it. -/
theorem HasLength.append {m : Mem β} {p : Ptr β} {k n : ℕ} (h : HasLength m (p.shift k) n)
    (hne : ∀ c ∈ bytesAt m p k, c ≠ 0) : HasLength m p (k + n) := by
  rw [hasLength_iff_bytesAt, Ptr.shift_shift] at h
  rw [hasLength_iff_bytesAt, bytesAt_add]
  exact ⟨fun c hc => (List.mem_append.mp hc).elim (hne c) (h.1 c), h.2⟩

/-- The bytes in front of the first zero byte, where it is at position `k`, or where there is none.
-/
theorem takeWhile_bytesAt {m : Mem β} {p : Ptr β} {n k : ℕ} (hk : k ≤ n)
    (hne : ∀ j < k, m (p.shift j) ≠ 0) (h0 : k < n → m (p.shift k) = 0) :
    (bytesAt m p n).takeWhile (· ≠ 0) = bytesAt m p k := by
  have hall : ∀ b ∈ bytesAt m p k, decide (b ≠ 0) = true := by
    simpa [bytesAt] using hne
  obtain ⟨r, rfl⟩ := Nat.exists_eq_add_of_le hk
  rw [bytesAt_add, List.takeWhile_append_of_pos hall]
  cases r with
  | zero => simp [bytesAt]
  | succ r =>
    have hzero : m (p.shift k) = 0 := h0 (by omega)
    simp [bytesAt, List.range_succ_eq_map, hzero]

/-! ### Copied ranges -/

/-- A loop that writes a piece and goes on behind it writes nothing outside the whole range. -/
theorem eqOn_compl_span_trans {m m₁ m₂ : Mem β} {dest : Ptr β} {a b n : ℕ} (hn : a + b ≤ n)
    (h₁ : Set.EqOn m₁ m (dest.span a)ᶜ) (h₂ : Set.EqOn m₂ m₁ ((dest.shift a).span b)ᶜ) :
    Set.EqOn m₂ m (dest.span n)ᶜ := by
  have hsub₁ : (dest.span n)ᶜ ⊆ (dest.span a)ᶜ :=
    Set.compl_subset_compl.mpr (Ptr.span_mono (by omega))
  have hsub₂ : (dest.span n)ᶜ ⊆ ((dest.shift a).span b)ᶜ :=
    Set.compl_subset_compl.mpr (Ptr.span_shift_subset hn)
  exact (h₂.mono hsub₂).trans (h₁.mono hsub₁)

/-- `m'` is `m` with the `n` bytes from `src` on copied to `dest`. -/
structure Copied (m m' : Mem β) (dest src : Ptr β) (n : ℕ) : Prop where
  /-- Every byte of the destination is the source's. -/
  copied : ∀ k < n, m' (dest.shift k) = m (src.shift k)
  /-- Nothing else changes. -/
  eqOn : Set.EqOn m' m (dest.span n)ᶜ

theorem Copied.refl (m : Mem β) (dest src : Ptr β) : Copied m m dest src 0 :=
  ⟨fun _ h => absurd h (Nat.not_lt_zero _), Set.eqOn_refl ..⟩

/-- **Adjacent copies compose**, when the whole source and the whole destination do not meet. -/
theorem Copied.trans {m m₁ m₂ : Mem β} {dest src : Ptr β} {a b : ℕ} (hab : a + b ≤ 2 ^ 32)
    (hd : Disjoint (src.span (a + b)) (dest.span (a + b))) (h₁ : Copied m m₁ dest src a)
    (h₂ : Copied m₁ m₂ (dest.shift a) (src.shift a) b) : Copied m m₂ dest src (a + b) where
  copied k hk := by
    by_cases hka : k < a
    · have hout : dest.shift k ∉ (dest.shift a).span b :=
        Ptr.shift_notMem_span_shift (.inl hka) (by omega) hab
      rw [h₂.eqOn hout, h₁.copied k hka]
    · obtain ⟨j, rfl⟩ := Nat.exists_eq_add_of_le (Nat.not_lt.mp hka)
      have hsrc : src.shift (a + j) ∉ dest.span a := fun hin =>
        Set.disjoint_left.mp hd (Ptr.shift_mem_span hk) (Ptr.span_mono (by omega) hin)
      rw [← Ptr.shift_shift, h₂.copied j (by omega), Ptr.shift_shift, h₁.eqOn hsrc]
  eqOn := eqOn_compl_span_trans le_rfl h₁.eqOn h₂.eqOn

/-- A loop that copies a piece and goes on behind it copies the whole range. -/
theorem Copied.step {m m₁ m₂ : Mem β} {dest src : Ptr β} {a b n : ℕ} (hn : a + b = n)
    (hn' : n ≤ 2 ^ 32) (hd : Disjoint (src.span n) (dest.span n)) (h₁ : Copied m m₁ dest src a)
    (h₂ : Disjoint ((src.shift a).span b) ((dest.shift a).span b) →
      Copied m₁ m₂ (dest.shift a) (src.shift a) b) : Copied m m₂ dest src n := by
  subst hn
  exact h₁.trans hn' hd
    (h₂ (hd.mono (Ptr.span_shift_subset le_rfl) (Ptr.span_shift_subset le_rfl)))

/-! ### Records copied in part -/

/-- `m'` is `m` with the bytes at the positions `P` of the record at `src` copied to the same
positions of the record at `dest`. -/
structure CopiedAt (m m' : Mem β) (dest src : Ptr β) (P : Set ℕ) : Prop where
  /-- Every byte copied is the source's. -/
  copied : ∀ k ∈ P, m' (dest.shift k) = m (src.shift k)
  /-- Nothing else changes. -/
  eqOn : Set.EqOn m' m (dest.shift '' P)ᶜ

theorem Copied.copiedAt {m m' : Mem β} {dest src : Ptr β} {a n : ℕ}
    (h : Copied m m' (dest.shift a) (src.shift a) n) :
    CopiedAt m m' dest src (Set.Ico a (a + n)) where
  copied k hk := by
    obtain ⟨j, rfl⟩ := Nat.exists_eq_add_of_le hk.1
    have hj : j < n := by have := hk.2; omega
    simpa using h.copied j hj
  eqOn := by
    refine h.eqOn.mono (Set.compl_subset_compl.mpr fun q hq => ?_)
    obtain ⟨j, hj, _, rfl⟩ := Ptr.exists_shift_of_mem_span hq
    exact ⟨a + j, ⟨by omega, by omega⟩, by rw [Ptr.shift_shift]⟩

/-- Two partial copies of one record compose, when the records do not meet. -/
theorem CopiedAt.trans {m m₁ m₂ : Mem β} {dest src : Ptr β} {P Q : Set ℕ} {n : ℕ}
    (hn : n ≤ 2 ^ 32) (hd : Disjoint (src.span n) (dest.span n)) (hP : P ⊆ Set.Iio n)
    (hQ : Q ⊆ Set.Iio n) (h₁ : CopiedAt m m₁ dest src P) (h₂ : CopiedAt m₁ m₂ dest src Q) :
    CopiedAt m m₂ dest src (P ∪ Q) where
  copied k hk := by
    by_cases hkQ : k ∈ Q
    · have hsrc : src.shift k ∉ dest.shift '' P := by
        rintro ⟨j, hj, h⟩
        exact Set.disjoint_left.mp hd (Ptr.shift_mem_span (hQ hkQ))
          (h ▸ Ptr.shift_mem_span (hP hj))
      rw [h₂.copied k hkQ, h₁.eqOn hsrc]
    · have hkP : k ∈ P := hk.resolve_right hkQ
      have hout : dest.shift k ∉ dest.shift '' Q := by
        rintro ⟨j, hj, h⟩
        have hjn : j < n := hQ hj
        have hkn : k < n := hP hkP
        rw [Ptr.shift_inj (by omega) (by omega)] at h
        exact hkQ (h ▸ hj)
      rw [h₂.eqOn hout, h₁.copied k hkP]
  eqOn := by
    rw [Set.image_union, Set.compl_union]
    exact (h₂.eqOn.mono Set.inter_subset_right).trans (h₁.eqOn.mono Set.inter_subset_left)

/-- A partial copy writes nothing outside the record. -/
theorem CopiedAt.eqOn_span {m m' : Mem β} {dest src : Ptr β} {P : Set ℕ} {n : ℕ}
    (hP : P ⊆ Set.Iio n) (h : CopiedAt m m' dest src P) : Set.EqOn m' m (dest.span n)ᶜ := by
  refine h.eqOn.mono (Set.compl_subset_compl.mpr ?_)
  rintro _ ⟨k, hk, rfl⟩
  exact Ptr.shift_mem_span (hP hk)

/-- A byte of the record that is not copied stays. -/
theorem CopiedAt.kept {m m' : Mem β} {dest src : Ptr β} {P : Set ℕ} {n k : ℕ} (hn : n ≤ 2 ^ 32)
    (hP : P ⊆ Set.Iio n) (h : CopiedAt m m' dest src P) (hk : k < n) (hkP : k ∉ P) :
    m' (dest.shift k) = m (dest.shift k) := by
  refine h.eqOn ?_
  rintro ⟨j, hj, he⟩
  have hjn : j < n := hP hj
  rw [Ptr.shift_inj (by omega) (by omega)] at he
  exact hkP (he ▸ hj)

/-- A word of the record that is copied reads as the source's. -/
theorem CopiedAt.readWord {m m' : Mem β} {dest src : Ptr β} {P : Set ℕ} {a : ℕ}
    (h : CopiedAt m m' dest src P) (ha : Set.Ico a (a + 4) ⊆ P) :
    ByteMemory.readWord m' (dest.shift a) = ByteMemory.readWord m (src.shift a) := by
  refine readWord_of_bytes fun i hi => ?_
  rw [Ptr.shift_shift, Ptr.shift_shift]
  exact h.copied _ (ha ⟨by omega, by omega⟩)

variable [DecidableEq β]

theorem copied_store (m : Mem β) (dest src : Ptr β) :
    Copied m (store m dest (m src)) dest src 1 where
  copied k hk := by
    obtain rfl : k = 0 := by omega
    simp
  eqOn := store_eqOn fun h => h (Ptr.self_mem_span (by omega))

/-- One more byte copied, when the copy has not overwritten it. -/
theorem Copied.store {m m₁ : Mem β} {dest src : Ptr β} {i : ℕ} (hi : i < 2 ^ 32)
    (h : Copied m m₁ dest src i) (hd : src.shift i ∉ dest.span i) :
    Copied m (ByteMemory.store m₁ (dest.shift i) (m₁ (src.shift i))) dest src (i + 1) where
  copied k hk := by
    rcases Nat.lt_succ_iff_lt_or_eq.mp hk with hlt | rfl
    · have hne : dest.shift k ≠ dest.shift i := fun he => by
        rw [Ptr.shift_inj (by omega) hi] at he
        omega
      rw [store_of_ne _ hne, h.copied k hlt]
    · rw [store_self, h.eqOn hd]
  eqOn := eqOn_compl_span_trans le_rfl h.eqOn
    (store_eqOn fun hin => hin (Ptr.self_mem_span Nat.one_pos))

/-- Bytes written are the bytes of the range. -/
theorem bytesAt_writeBytes (m : Mem β) (p : Ptr β) {l : List UInt8} (hl : l.length ≤ 2 ^ 32) :
    bytesAt (writeBytes m p l) p l.length = l := by
  refine List.ext_getElem (length_bytesAt ..) fun i _ hi => ?_
  rw [getElem_bytesAt]
  exact writeBytes_shift m p l hl hi

/-- The bytes behind a range that is written stay. -/
theorem writeBytes_shift_of_le (m : Mem β) (p : Ptr β) {l : List UInt8} {k : ℕ}
    (hk : l.length + k < 2 ^ 32) :
    writeBytes m p l ((p.shift l.length).shift k) = m ((p.shift l.length).shift k) := by
  refine writeBytes_eqOn m p l ?_
  rw [Ptr.shift_shift]
  exact Ptr.shift_notMem_span (by omega) hk

theorem bytesAt_writeBytes_append (m : Mem β) (p : Ptr β) {l : List UInt8} {n : ℕ}
    (hn : l.length + n ≤ 2 ^ 32) :
    bytesAt (writeBytes m p l) p (l.length + n) = l ++ bytesAt m (p.shift l.length) n := by
  rw [bytesAt_add, bytesAt_writeBytes m p (by omega), List.append_cancel_left_eq, bytesAt_eq_iff]
  exact fun k hk => writeBytes_shift_of_le m p (by omega)

/-- Bytes other than zero, written in front of a string, lengthen it. -/
theorem HasLength.writeBytes {m : Mem β} {p : Ptr β} {l : List UInt8} {n : ℕ}
    (h : HasLength m (p.shift l.length) n) (hn : l.length + n < 2 ^ 32) (hl : 0 ∉ l) :
    HasLength (writeBytes m p l) p (l.length + n) := by
  refine (h.congr fun k hk => writeBytes_shift_of_le m p (by omega)).append fun c hc h0 => ?_
  rw [bytesAt_writeBytes m p (by omega)] at hc
  exact hl (h0 ▸ hc)

theorem copied_writeBytes (m : Mem β) (dest src : Ptr β) {n : ℕ} (hn : n ≤ 2 ^ 32) :
    Copied m (writeBytes m dest (bytesAt m src n)) dest src n where
  copied k hk := by
    rw [writeBytes_shift _ _ _ (by simpa using hn) (by simpa using hk), getElem_bytesAt]
  eqOn := by simpa using writeBytes_eqOn m dest (bytesAt m src n)

theorem copied_writeWord (m : Mem β) (dest src : Ptr β) :
    Copied m (writeWord m dest (readWord m src)) dest src 4 := by
  have h : wordBytes (readWord m src) = bytesAt m src 4 := by
    rw [readWord, wordBytes_wordOf]
    simp [bytesAt, List.range_succ]
  rw [writeWord, h]
  exact copied_writeBytes m dest src (by omega)

end ByteMemory
