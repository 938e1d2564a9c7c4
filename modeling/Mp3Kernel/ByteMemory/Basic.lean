import Mathlib.Algebra.Group.Nat.Defs
import Mathlib.Data.Set.Function
import Mathlib.Data.Set.Lattice
import Mathlib.Logic.Function.Basic
import Mathlib.Order.CompletePartialOrder

/-!
# Byte memory addressed by blocks and 32-bit offsets

A pointer is a block together with a 32-bit offset, and pointer arithmetic wraps inside the
block. A memory gives a byte to every pointer. A block is either a whole address space or one
object whose address is not known; two objects of unknown address never overlap, while the
pointers of one address space alias as their offsets say.

The file has the operations the programs need (storing a byte, a list of bytes, a
little-endian word) and the rules by which they compose: what is read back, and what is left
alone. A frame condition is stated with `Set.EqOn`: `Set.EqOn m' m S` says that `m'` and `m`
agree on `S`.

## Main definitions

* `Ptr`, `Ptr.shift`, `Ptr.span`: pointers, their arithmetic, and the `n` bytes from a pointer.
* `Mem`, `store`, `writeBytes`, `readWord`, `writeWord`.

## Main results

* `writeBytes_shift`, `writeBytes_eqOn`: the bytes that a block of stores leaves.
* `readWord_writeWord`, `readWord_congr`: words read back.
-/

namespace ByteMemory

variable {β : Type}

/-- A pointer: a block and an offset into it. -/
@[ext]
structure Ptr (β : Type) where
  /-- The block the pointer points into. -/
  blk : β
  /-- The offset, which wraps at `2 ^ 32`. -/
  off : BitVec 32
deriving DecidableEq

namespace Ptr

/-- The pointer `k` bytes further on in the same block. -/
def shift (p : Ptr β) (k : ℕ) : Ptr β := ⟨p.blk, p.off + BitVec.ofNat 32 k⟩

@[simp] theorem shift_blk (p : Ptr β) (k : ℕ) : (p.shift k).blk = p.blk := rfl

@[simp] theorem shift_zero (p : Ptr β) : p.shift 0 = p := by
  simp [shift]

@[simp] theorem shift_shift (p : Ptr β) (i j : ℕ) : (p.shift i).shift j = p.shift (i + j) := by
  simp only [shift, BitVec.ofNat_add, BitVec.add_assoc]

/-- Offsets wrap. -/
theorem shift_add_two_pow (p : Ptr β) (k : ℕ) : p.shift (2 ^ 32 + k) = p.shift k := by
  simp only [shift, mk.injEq, true_and]
  bv_omega

theorem shift_inj {p : Ptr β} {i j : ℕ} (hi : i < 2 ^ 32) (hj : j < 2 ^ 32) :
    p.shift i = p.shift j ↔ i = j := by
  refine ⟨fun h => ?_, fun h => h ▸ rfl⟩
  simp only [shift, mk.injEq, true_and] at h
  bv_omega

/-- The `n` bytes from `p` on, offsets taken modulo `2 ^ 32`. -/
def span (p : Ptr β) (n : ℕ) : Set (Ptr β) :=
  {q | q.blk = p.blk ∧ (q.off - p.off).toNat < n}

theorem shift_mem_span {p : Ptr β} {i n : ℕ} (h : i < n) : p.shift i ∈ p.span n := by
  refine ⟨rfl, ?_⟩
  simp only [shift]
  bv_omega

theorem self_mem_span {p : Ptr β} {n : ℕ} (h : 0 < n) : p ∈ p.span n := by
  simpa using shift_mem_span (p := p) h

/-- A byte of a span is a shift of its start. -/
theorem exists_shift_of_mem_span {p q : Ptr β} {n : ℕ} (h : q ∈ p.span n) :
    ∃ i < n, i < 2 ^ 32 ∧ q = p.shift i := by
  refine ⟨(q.off - p.off).toNat, h.2, (q.off - p.off).isLt, Ptr.ext h.1 ?_⟩
  simp only [shift]
  bv_omega

theorem span_mono {p : Ptr β} {n n' : ℕ} (h : n ≤ n') : p.span n ⊆ p.span n' :=
  fun _ hq => ⟨hq.1, hq.2.trans_le h⟩

@[simp] theorem span_zero (p : Ptr β) : p.span 0 = ∅ :=
  Set.eq_empty_of_forall_notMem fun _ hq => absurd hq.2 (Nat.not_lt_zero _)

/-- A part of a span that starts inside it. -/
theorem span_shift_subset {p : Ptr β} {i n k : ℕ} (h : i + k ≤ n) :
    (p.shift i).span k ⊆ p.span n := by
  intro q hq
  obtain ⟨j, hj, _, rfl⟩ := exists_shift_of_mem_span hq
  rw [shift_shift]
  exact shift_mem_span (by omega)

/-- A byte in front of a part of a span or behind it. -/
theorem shift_notMem_span_shift {p : Ptr β} {i j n : ℕ} (h : i < j ∨ j + n ≤ i) (hi : i < 2 ^ 32)
    (hj : j + n ≤ 2 ^ 32) : p.shift i ∉ (p.shift j).span n := by
  intro hin
  obtain ⟨a, ha, -, he⟩ := exists_shift_of_mem_span hin
  rw [shift_shift, shift_inj hi (by omega)] at he
  omega

/-- A byte behind a span. -/
theorem shift_notMem_span {p : Ptr β} {i n : ℕ} (hn : n ≤ i) (hi : i < 2 ^ 32) :
    p.shift i ∉ p.span n := by
  have h := shift_notMem_span_shift (p := p) (i := i) (j := 0) (n := n) (.inr (by omega)) hi
    (by omega)
  rwa [shift_zero] at h

/-- The byte in front of a span. -/
theorem notMem_span_shift {p : Ptr β} {j n : ℕ} (hj : 0 < j) (hn : j + n ≤ 2 ^ 32) :
    p ∉ (p.shift j).span n := by
  have h := shift_notMem_span_shift (p := p) (i := 0) (.inl hj) (by omega) hn
  rwa [shift_zero] at h

/-- Two parts of one span that do not meet. -/
theorem disjoint_span_shift {p : Ptr β} {i j n k : ℕ} (h : i + n ≤ j) (hj : j + k ≤ 2 ^ 32) :
    Disjoint ((p.shift i).span n) ((p.shift j).span k) := by
  rw [Set.disjoint_left]
  intro q hq
  obtain ⟨a, ha, _, rfl⟩ := exists_shift_of_mem_span hq
  rw [shift_shift]
  exact shift_notMem_span_shift (.inl (by omega)) (by omega) hj

/-- Spans of different blocks do not meet. -/
theorem disjoint_span_of_blk_ne {p q : Ptr β} (h : p.blk ≠ q.blk) (n k : ℕ) :
    Disjoint (p.span n) (q.span k) := by
  rw [Set.disjoint_left]
  exact fun x hx hx' => h (hx.1.symm.trans hx'.1)

/-- The pointers into a block. -/
def inBlock (b : β) : Set (Ptr β) := {p | p.blk = b}

@[simp] theorem mem_inBlock {p : Ptr β} {b : β} : p ∈ inBlock b ↔ p.blk = b := Iff.rfl

theorem span_subset_inBlock (p : Ptr β) (n : ℕ) : p.span n ⊆ inBlock p.blk := fun _ hq => hq.1

theorem inBlock_subset_compl_span {p : Ptr β} {b : β} (h : p.blk ≠ b) (n : ℕ) :
    inBlock b ⊆ (p.span n)ᶜ := fun _ hq hp => h (hp.1.symm.trans hq)

theorem inBlock_subset_compl_inBlock {b b' : β} (h : b ≠ b') : inBlock b ⊆ (inBlock b')ᶜ :=
  fun _ hq hq' => h (hq.symm.trans hq')

theorem compl_inBlock_subset {p : Ptr β} {b : β} (h : p.blk = b) (n : ℕ) :
    (inBlock b)ᶜ ⊆ (p.span n)ᶜ :=
  Set.compl_subset_compl.mpr fun _ hq => hq.1.trans h

/-- The null pointer: offset `0` of the default block, the address space. -/
def null [Inhabited β] : Ptr β := ⟨default, 0⟩

end Ptr

/-- A memory: a byte at every pointer. -/
abbrev Mem (β : Type) := Ptr β → UInt8

variable [DecidableEq β]

/-! ### Storing bytes -/

/-- The memory with the byte `b` stored at `p`. -/
def store (m : Mem β) (p : Ptr β) (b : UInt8) : Mem β := Function.update m p b

@[simp] theorem store_self (m : Mem β) (p : Ptr β) (b : UInt8) : store m p b p = b :=
  Function.update_self ..

theorem store_of_ne {m : Mem β} {p q : Ptr β} (b : UInt8) (h : q ≠ p) : store m p b q = m q :=
  Function.update_of_ne h ..

theorem store_eqOn {m : Mem β} {p : Ptr β} {b : UInt8} {S : Set (Ptr β)} (h : p ∉ S) :
    Set.EqOn (store m p b) m S :=
  fun _ hq => store_of_ne b fun e => h (e ▸ hq)

/-- The memory with the bytes of a list stored one after the other from `p` on. -/
def writeBytes (m : Mem β) (p : Ptr β) : List UInt8 → Mem β
  | [] => m
  | b :: l => writeBytes (store m p b) (p.shift 1) l

@[simp] theorem writeBytes_nil (m : Mem β) (p : Ptr β) : writeBytes m p [] = m := rfl

theorem writeBytes_eqOn (m : Mem β) (p : Ptr β) (l : List UInt8) :
    Set.EqOn (writeBytes m p l) m (p.span l.length)ᶜ := by
  induction l generalizing m p with
  | nil => exact Set.eqOn_refl ..
  | cons b l ih =>
    have hsub : (p.span (l.length + 1))ᶜ ⊆ ((p.shift 1).span l.length)ᶜ :=
      Set.compl_subset_compl.mpr (Ptr.span_shift_subset (by omega))
    have hp : p ∉ (p.span (l.length + 1))ᶜ := fun h => h (Ptr.self_mem_span (by omega))
    exact ((ih _ _).mono hsub).trans (store_eqOn hp)

/-- Bytes stored are read back, as long as they do not run round the block. -/
theorem writeBytes_shift (m : Mem β) (p : Ptr β) (l : List UInt8) (hl : l.length ≤ 2 ^ 32)
    {i : ℕ} (hi : i < l.length) : writeBytes m p l (p.shift i) = l[i] := by
  induction l generalizing m p i with
  | nil => simp at hi
  | cons b l ih =>
    simp only [List.length_cons] at hl hi
    cases i with
    | zero =>
      have hp : p ∉ (p.shift 1).span l.length := Ptr.notMem_span_shift Nat.one_pos (by omega)
      rw [Ptr.shift_zero, writeBytes, writeBytes_eqOn _ _ _ hp, store_self]
      rfl
    | succ i =>
      have h := ih (store m p b) (p.shift 1) (by omega) (i := i) (by omega)
      rwa [Ptr.shift_shift, Nat.add_comm 1] at h

/-! ### Little-endian words -/

/-- The byte of weight `256 ^ i` of a word. -/
def wordByte (w : BitVec 32) (i : ℕ) : UInt8 := UInt8.ofNat (w.toNat / 256 ^ i)

/-- The bytes of a word, the least significant first. -/
def wordBytes (w : BitVec 32) : List UInt8 :=
  [wordByte w 0, wordByte w 1, wordByte w 2, wordByte w 3]

@[simp] theorem length_wordBytes (w : BitVec 32) : (wordBytes w).length = 4 := rfl

/-- The word with the given bytes, the least significant first. -/
def wordOf (b₀ b₁ b₂ b₃ : UInt8) : BitVec 32 :=
  BitVec.ofNat 32 (b₀.toNat + 256 * b₁.toNat + 65536 * b₂.toNat + 16777216 * b₃.toNat)

theorem wordOf_wordByte (w : BitVec 32) :
    wordOf (wordByte w 0) (wordByte w 1) (wordByte w 2) (wordByte w 3) = w := by
  apply BitVec.eq_of_toNat_eq
  have hw := w.isLt
  simp only [wordOf, wordByte, UInt8.toNat_ofNat', BitVec.toNat_ofNat]
  omega

theorem wordBytes_wordOf (b₀ b₁ b₂ b₃ : UInt8) :
    wordBytes (wordOf b₀ b₁ b₂ b₃) = [b₀, b₁, b₂, b₃] := by
  have h₀ := b₀.toNat_lt
  have h₁ := b₁.toNat_lt
  have h₂ := b₂.toNat_lt
  have h₃ := b₃.toNat_lt
  simp only [wordBytes, wordByte, wordOf, BitVec.toNat_ofNat, List.cons.injEq, and_true,
    ← UInt8.toNat_inj, UInt8.toNat_ofNat']
  omega

/-- The little-endian word at `p`. -/
def readWord (m : Mem β) (p : Ptr β) : BitVec 32 :=
  wordOf (m p) (m (p.shift 1)) (m (p.shift 2)) (m (p.shift 3))

/-- The memory with the word `w` stored at `p`. -/
def writeWord (m : Mem β) (p : Ptr β) (w : BitVec 32) : Mem β := writeBytes m p (wordBytes w)

omit [DecidableEq β] in
theorem readWord_of_bytes {m m' : Mem β} {p p' : Ptr β}
    (h : ∀ i < 4, m' (p'.shift i) = m (p.shift i)) : readWord m' p' = readWord m p := by
  have h₀ := h 0 (by omega)
  rw [Ptr.shift_zero, Ptr.shift_zero] at h₀
  rw [readWord, readWord, h₀, h 1 (by omega), h 2 (by omega), h 3 (by omega)]

omit [DecidableEq β] in
theorem readWord_congr {m m' : Mem β} {p : Ptr β} {S : Set (Ptr β)} (h : Set.EqOn m m' S)
    (hp : p.span 4 ⊆ S) : readWord m p = readWord m' p :=
  readWord_of_bytes fun _ hi => h (hp (Ptr.shift_mem_span hi))

omit [DecidableEq β] in
/-- The bytes of a small word behind the first are zero. -/
theorem byte_eq_zero_of_readWord_lt {m : Mem β} {p : Ptr β} (h : (readWord m p).toNat < 256) :
    m (p.shift 1) = 0 := by
  have h₀ := (m p).toNat_lt
  have h₁ := (m (p.shift 1)).toNat_lt
  have h₂ := (m (p.shift 2)).toNat_lt
  have h₃ := (m (p.shift 3)).toNat_lt
  rw [readWord, wordOf, BitVec.toNat_ofNat] at h
  apply UInt8.toNat_inj.mp
  rw [UInt8.toNat_zero]
  omega

@[simp] theorem readWord_writeWord (m : Mem β) (p : Ptr β) (w : BitVec 32) :
    readWord (writeWord m p w) p = w := by
  have hb (i : ℕ) (hi : i < 4) : writeWord m p w (p.shift i) = (wordBytes w)[i] :=
    writeBytes_shift m p (wordBytes w) (by simp) hi
  have h₀ := hb 0 (by omega)
  rw [Ptr.shift_zero] at h₀
  rw [readWord, h₀, hb 1 (by omega), hb 2 (by omega), hb 3 (by omega)]
  exact wordOf_wordByte w

theorem writeWord_eqOn (m : Mem β) (p : Ptr β) (w : BitVec 32) :
    Set.EqOn (writeWord m p w) m (p.span 4)ᶜ :=
  writeBytes_eqOn m p (wordBytes w)

end ByteMemory
