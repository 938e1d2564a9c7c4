import Mathlib.Algebra.Group.Nat.Defs
import Mathlib.Logic.Function.Basic
import Mathlib.Tactic.Common

/-!
# Page tables

The page directory `DT` and the page table `PT` of `paging.c`, the initialisation loops, the
entry that `execute` and `halt` store for the user page, and the walk of the processor over the
two tables, with 4 MB pages enabled as `set_crreg` does.

## Main definitions

* `Paging`, `Paging.pagingInit`, `Paging.mapUser`.
* `walk`: the address that a virtual address translates to, or `none` for a page fault.
* `translation`: what the address space of the process in frame `2 + pid` should be.

## Main results

* `Paging.DT_pagingInit`, `Paging.PT_pagingInit`: the tables after the loops.
* `walk_eq_translation`: the walk over tables that map one user page computes `translation`.

Source: `paging.h`; `paging.c`, lines 20–131; `process.c`, lines 139–144 and 299–304.
-/

namespace Mp3Kernel

/-! ### The tables -/

/-- `PTE_P` and `PDE_P`: the entry is present. -/
def pageP : BitVec 32 := 0x00000001#32
/-- `PTE_RW` and `PDE_RW`: the page may be written. -/
def pageRW : BitVec 32 := 0x00000002#32
/-- `PDE_US`: the page may be used in user mode. -/
def pageUS : BitVec 32 := 0x00000004#32
/-- `PDE_PS`: the entry maps a 4 MB page. -/
def pagePS : BitVec 32 := 0x00000080#32
/-- `PTE_G` and `PDE_G`: the translation is global. -/
def pageG : BitVec 32 := 0x00000100#32
/-- `PD_MASK`. -/
def pdMask : BitVec 32 := 0x87#32
/-- `VIDEO_MEM`. -/
def videoMem : BitVec 32 := 0x000B8000#32
/-- `USER_MEM`. -/
def userMem : BitVec 32 := 0x08000000#32
/-- `USER_END`. -/
def userEnd : BitVec 32 := 0x08400000#32

/-- `DIC_SIZE` and `TABLE_SIZE`. -/
def tableSize : ℕ := 1024

/-- The tables `DT` and `PT`. -/
structure Paging where
  /-- The page directory. -/
  DT : ℕ → BitVec 32
  /-- The page table for the first 4 MB. -/
  PT : ℕ → BitVec 32

namespace Paging

/-- The entry that `PT_init(index)` builds. -/
def ptEntry (index : ℕ) : BitVec 32 :=
  let page := BitVec.ofNat 32 index <<< 12
  if page ≠ videoMem then 0#32 ||| pageRW ||| page
  else 0#32 ||| pageP ||| pageRW ||| pageG ||| page

/-- The entry that `DT_init(index)` builds, with `PT` at `ptAddr`. -/
def dtEntry (ptAddr : BitVec 32) (index : ℕ) : BitVec 32 :=
  if index = 0 then 0#32 ||| pageP ||| pageRW ||| pageUS ||| (ptAddr >>> 12) <<< 12
  else if index = 1 then 0#32 ||| pageP ||| pageRW ||| pagePS ||| pageG ||| 1#32 <<< 22
  else 0#32 ||| pagePS ||| pageG ||| 1#32 <<< 22

/-- `void PT_init(int index)`. -/
def ptInit (p : Paging) (index : ℕ) : Paging :=
  { p with PT := Function.update p.PT index (ptEntry index) }

/-- `void DT_init(int index)`. -/
def dtInit (ptAddr : BitVec 32) (p : Paging) (index : ℕ) : Paging :=
  { p with DT := Function.update p.DT index (dtEntry ptAddr index) }

/-- `void paging_init()`, with `PT` at `ptAddr`. -/
def pagingInit (ptAddr : BitVec 32) (p : Paging) : Paging :=
  (List.range tableSize).foldl (fun p i =>
    if i = 0 then dtInit ptAddr ((List.range tableSize).foldl ptInit p) i
    else dtInit ptAddr p i) p

/-- `USER_MEM >> 22`, the index of the entry for the user page. -/
def userIndex : ℕ := 32

/-- The three stores by which `execute` and `halt` set the entry for the user page. -/
def mapUser (p : Paging) (pdAddr : BitVec 32) : Paging :=
  { p with DT := Function.update p.DT userIndex (0#32 ||| pdMask ||| pdAddr <<< 22) }

/-! ### The loops -/

@[simp] theorem DT_dtInit (ptAddr : BitVec 32) (p : Paging) (index : ℕ) :
    (dtInit ptAddr p index).DT = Function.update p.DT index (dtEntry ptAddr index) := rfl

@[simp] theorem PT_dtInit (ptAddr : BitVec 32) (p : Paging) (index : ℕ) :
    (dtInit ptAddr p index).PT = p.PT := rfl

@[simp] theorem DT_ptInit (p : Paging) (index : ℕ) : (p.ptInit index).DT = p.DT := rfl

@[simp] theorem PT_ptInit (p : Paging) (index : ℕ) :
    (p.ptInit index).PT = Function.update p.PT index (ptEntry index) := rfl

theorem PT_foldl_ptInit (p : Paging) (n i : ℕ) :
    ((List.range n).foldl ptInit p).PT i = if i < n then ptEntry i else p.PT i := by
  induction n with
  | zero => simp
  | succ n ih =>
    rw [List.range_succ, List.foldl_append, List.foldl_cons, List.foldl_nil, PT_ptInit]
    by_cases h : i = n
    · simp [h]
    · rw [Function.update_of_ne h, ih]
      have : i < n ↔ i < n + 1 := by omega
      simp [this]

theorem DT_foldl_ptInit (p : Paging) (l : List ℕ) : (l.foldl ptInit p).DT = p.DT := by
  induction l generalizing p with
  | nil => rfl
  | cons i l ih => exact ih (p.ptInit i)

/-- The tables after `n` rounds of the loop of `paging_init`. -/
theorem pagingInit_rounds (ptAddr : BitVec 32) (p : Paging) (n : ℕ) :
    let q := (List.range n).foldl (fun p i =>
      if i = 0 then dtInit ptAddr ((List.range tableSize).foldl ptInit p) i
      else dtInit ptAddr p i) p
    (∀ i, q.DT i = if i < n then dtEntry ptAddr i else p.DT i) ∧
      ∀ i, q.PT i = if 0 < n ∧ i < tableSize then ptEntry i else p.PT i := by
  induction n with
  | zero => simp
  | succ n ih =>
    obtain ⟨hdt, hpt⟩ := ih
    rw [List.range_succ, List.foldl_append]
    set q := (List.range n).foldl (fun p i =>
      if i = 0 then dtInit ptAddr ((List.range tableSize).foldl ptInit p) i
      else dtInit ptAddr p i) p
    simp only [List.foldl_cons, List.foldl_nil]
    by_cases hn : n = 0
    · subst hn
      rw [if_pos rfl]
      constructor
      · intro i
        rw [DT_dtInit, DT_foldl_ptInit]
        by_cases h : i = 0
        · simp [h]
        · rw [Function.update_of_ne h, hdt]
          simp [h]
      · intro i
        rw [PT_dtInit, PT_foldl_ptInit, hpt]
        simp
    · rw [if_neg hn]
      constructor
      · intro i
        rw [DT_dtInit]
        by_cases h : i = n
        · simp [h]
        · rw [Function.update_of_ne h, hdt]
          have : i < n ↔ i < n + 1 := by omega
          simp [this]
      · intro i
        rw [PT_dtInit, hpt]
        simp [Nat.pos_of_ne_zero hn]

theorem DT_pagingInit (ptAddr : BitVec 32) (p : Paging) {i : ℕ} (h : i < tableSize) :
    (p.pagingInit ptAddr).DT i = dtEntry ptAddr i := by
  rw [pagingInit, (pagingInit_rounds ptAddr p tableSize).1 i, if_pos h]

theorem PT_pagingInit (ptAddr : BitVec 32) (p : Paging) {i : ℕ} (h : i < tableSize) :
    (p.pagingInit ptAddr).PT i = ptEntry i := by
  rw [pagingInit, (pagingInit_rounds ptAddr p tableSize).2 i, if_pos ⟨by decide, h⟩]

end Paging

/-! ### The walk -/

/-- The mode of the processor. -/
inductive Privilege
  | user
  | supervisor
deriving DecidableEq

/-- The kind of an access. -/
inductive Access
  | read
  | write
deriving DecidableEq

/-- An entry lets an access through: it is present, and in user mode it allows user accesses, and
writes only if it is writable. The kernel leaves `CR0.WP` clear, so supervisor writes are not
checked. -/
def permits (priv : Privilege) (acc : Access) (entry : BitVec 32) : Bool :=
  entry.getLsbD 0 && (priv = .supervisor || (entry.getLsbD 2 && (acc = .read || entry.getLsbD 1)))

/-- The two-level walk of the processor with `CR4.PSE` set: `tables base i` is entry `i` of the
page table at the physical address `base`. -/
def walk (dt : ℕ → BitVec 32) (tables : BitVec 32 → ℕ → BitVec 32) (priv : Privilege)
    (acc : Access) (v : BitVec 32) : Option (BitVec 32) :=
  let pde := dt (v >>> 22).toNat
  if permits priv acc pde then
    if pde.getLsbD 7 then some (pde &&& 0xFFC00000#32 ||| v &&& 0x003FFFFF#32)
    else
      let pte := tables (pde &&& 0xFFFFF000#32) ((v >>> 12).toNat % 1024)
      if permits priv acc pte then some (pte &&& 0xFFFFF000#32 ||| v &&& 0x00000FFF#32) else none
  else none

/-- The physical address of the user page of process `pid`. -/
def userFrame (pid : BitVec 32) : BitVec 32 := (2 + pid) <<< 22

/-- The address space of process `pid`: the user page, and in supervisor mode the video page and
the kernel page besides. -/
def translation (pid : BitVec 32) (priv : Privilege) (v : BitVec 32) : Option (BitVec 32) :=
  if userMem ≤ v ∧ v < userEnd then some (userFrame pid + (v - userMem))
  else if priv = .supervisor ∧
      (0xB8000#32 ≤ v ∧ v ≤ 0xB8FFF#32 ∨ 0x400000#32 ≤ v ∧ v < 0x800000#32) then some v
  else none

/-- The tables of `paging_init` with one user page mapped to the frame of process `pid`. -/
structure Paging.Maps (p : Paging) (ptAddr pid : BitVec 32) : Prop where
  /-- The user page. -/
  user : p.DT Paging.userIndex = pdMask ||| (2 + pid) <<< 22
  /-- The rest of the directory. -/
  dt : ∀ i < tableSize, i ≠ Paging.userIndex → p.DT i = dtEntry ptAddr i
  /-- The page table. -/
  pt : ∀ i < tableSize, p.PT i = ptEntry i

theorem Paging.maps_mapUser {p : Paging} {ptAddr pid : BitVec 32}
    (hdt : ∀ i < tableSize, i ≠ Paging.userIndex → p.DT i = dtEntry ptAddr i)
    (hpt : ∀ i < tableSize, p.PT i = ptEntry i) : (p.mapUser (2 + pid)).Maps ptAddr pid where
  user := by
    show Function.update p.DT Paging.userIndex (0#32 ||| pdMask ||| (2 + pid) <<< 22)
      Paging.userIndex = _
    rw [Function.update_self]
    exact congrArg (· ||| (2 + pid) <<< 22) BitVec.zero_or
  dt i hi hne := by
    show Function.update p.DT Paging.userIndex _ i = _
    rw [Function.update_of_ne hne, hdt i hi hne]
  pt := hpt

/-! ### Bits and numbers -/

theorem toNat_and_low22 (v : BitVec 32) : (v &&& 0x003FFFFF#32).toNat = v.toNat % 2 ^ 22 := by
  rw [BitVec.toNat_and]
  exact Nat.and_two_pow_sub_one_eq_mod v.toNat 22

theorem toNat_and_low12 (v : BitVec 32) : (v &&& 0x00000FFF#32).toNat = v.toNat % 2 ^ 12 := by
  rw [BitVec.toNat_and]
  exact Nat.and_two_pow_sub_one_eq_mod v.toNat 12

/-- A 4 MB frame and an offset into it. -/
theorem toNat_frame_or {b : BitVec 32} (v : BitVec 32) (hb : b &&& 0x003FFFFF#32 = 0) :
    (b ||| v &&& 0x003FFFFF#32).toNat = (b.toNat + v.toNat % 2 ^ 22) % 2 ^ 32 := by
  have hand : b &&& (v &&& 0x003FFFFF#32) = 0 := by
    rw [BitVec.and_comm v, ← BitVec.and_assoc, hb]
    exact BitVec.zero_and
  rw [← BitVec.add_eq_or_of_and_eq_zero _ _ hand, BitVec.toNat_add, toNat_and_low22]

/-- A 4 KB frame and an offset into it. -/
theorem toNat_page_or {b : BitVec 32} (v : BitVec 32) (hb : b &&& 0x00000FFF#32 = 0) :
    (b ||| v &&& 0x00000FFF#32).toNat = (b.toNat + v.toNat % 2 ^ 12) % 2 ^ 32 := by
  have hand : b &&& (v &&& 0x00000FFF#32) = 0 := by
    rw [BitVec.and_comm v, ← BitVec.and_assoc, hb]
    exact BitVec.zero_and
  rw [← BitVec.add_eq_or_of_and_eq_zero _ _ hand, BitVec.toNat_add, toNat_and_low12]

theorem shiftLeft22_and_high (x : BitVec 32) : x <<< 22 &&& 0xFFC00000#32 = x <<< 22 := by
  rw [show 0xFFC00000#32 = BitVec.allOnes 32 <<< 22 from rfl,
    ← BitVec.shiftLeft_and_distrib, BitVec.and_allOnes]

theorem shiftLeft12_and_high (x : BitVec 32) : x <<< 12 &&& 0xFFFFF000#32 = x <<< 12 := by
  rw [show 0xFFFFF000#32 = BitVec.allOnes 32 <<< 12 from rfl,
    ← BitVec.shiftLeft_and_distrib, BitVec.and_allOnes]

theorem shiftLeft22_and_low (x : BitVec 32) : x <<< 22 &&& 0x003FFFFF#32 = 0 := by
  rw [← shiftLeft22_and_high, BitVec.and_assoc,
    show 0xFFC00000#32 &&& 0x003FFFFF#32 = 0 from rfl]
  exact BitVec.and_zero

theorem toNat_pdeIndex (v : BitVec 32) : (v >>> 22).toNat = v.toNat / 2 ^ 22 := by
  rw [BitVec.toNat_ushiftRight, Nat.shiftRight_eq_div_pow]

theorem toNat_pteIndex (v : BitVec 32) : (v >>> 12).toNat = v.toNat / 2 ^ 12 := by
  rw [BitVec.toNat_ushiftRight, Nat.shiftRight_eq_div_pow]

/-- An entry that is not present lets nothing through. -/
theorem permits_of_not_present {priv : Privilege} {acc : Access} {entry : BitVec 32}
    (h : entry.getLsbD 0 = false) : permits priv acc entry = false := by
  rw [permits, h, Bool.false_and]

/-! ### The walk over the kernel's tables -/

variable {p : Paging} {ptAddr pid : BitVec 32} {tables : BitVec 32 → ℕ → BitVec 32}
  {priv : Privilege} {acc : Access} {v : BitVec 32}

/-- The user page. -/
theorem walk_user (h : p.Maps ptAddr pid) (hv : v.toNat / 2 ^ 22 = Paging.userIndex) :
    walk p.DT tables priv acc v = translation pid priv v := by
  have hpde : p.DT (v >>> 22).toNat = pdMask ||| (2 + pid) <<< 22 := by
    rw [toNat_pdeIndex, hv, h.user]
  have hbits : permits priv acc (pdMask ||| (2 + pid) <<< 22) = true := by
    simp [permits, pdMask]
  have hps : (pdMask ||| (2 + pid) <<< 22).getLsbD 7 = true := by
    simp [pdMask]
  have hframe : (pdMask ||| (2 + pid) <<< 22) &&& 0xFFC00000#32 = userFrame pid := by
    rw [BitVec.and_or_distrib_right, shiftLeft22_and_high, userFrame,
      show pdMask &&& 0xFFC00000#32 = 0 from rfl]
    exact BitVec.zero_or
  have hrange : userMem ≤ v ∧ v < userEnd := by
    simp only [Paging.userIndex] at hv
    rw [BitVec.le_def, BitVec.lt_def]
    simp only [userMem, userEnd, BitVec.toNat_ofNat]
    omega
  have haddr : (userFrame pid ||| v &&& 0x003FFFFF#32) = userFrame pid + (v - userMem) := by
    apply BitVec.eq_of_toNat_eq
    rw [toNat_frame_or v (b := userFrame pid) (shiftLeft22_and_low (2 + pid)), BitVec.toNat_add,
      BitVec.toNat_sub]
    simp only [Paging.userIndex] at hv
    simp only [userMem, BitVec.toNat_ofNat]
    omega
  simp only [walk, hpde, hbits, hps, hframe, if_true, haddr, translation, if_pos hrange]

/-- The kernel page. -/
theorem walk_kernel (h : p.Maps ptAddr pid) (hv : v.toNat / 2 ^ 22 = 1) :
    walk p.DT tables priv acc v = translation pid priv v := by
  have hpde : p.DT (v >>> 22).toNat = 0x00400183#32 := by
    rw [toNat_pdeIndex, hv, h.dt 1 (by decide) (by decide)]
    rfl
  have hrange : ¬ (userMem ≤ v ∧ v < userEnd) := by
    rw [BitVec.le_def, BitVec.lt_def]
    simp only [userMem, userEnd, BitVec.toNat_ofNat]
    omega
  have hkernel : 0x400000#32 ≤ v ∧ v < 0x800000#32 := by
    rw [BitVec.le_def, BitVec.lt_def]
    simp only [BitVec.toNat_ofNat]
    omega
  have haddr : ((0x00400183#32 &&& 0xFFC00000#32) ||| v &&& 0x003FFFFF#32) = v := by
    apply BitVec.eq_of_toNat_eq
    rw [toNat_frame_or v rfl, show (0x00400183#32 &&& 0xFFC00000#32).toNat = 2 ^ 22 from rfl]
    omega
  cases priv with
  | user =>
    have hbits : permits .user acc 0x00400183#32 = false := by simp [permits]
    simp only [walk, hpde, hbits, Bool.false_eq_true, if_false, translation, if_neg hrange,
      reduceCtorEq, false_and]
  | supervisor =>
    have hbits : permits .supervisor acc 0x00400183#32 = true := by simp [permits]
    have hps : (0x00400183#32).getLsbD 7 = true := rfl
    simp only [walk, hpde, hbits, hps, if_true, haddr, translation, if_neg hrange, hkernel,
      and_self, or_true]

/-- The first 4 MB go through the page table. -/
theorem walk_table (h : p.Maps ptAddr pid) (hpt : ptAddr &&& 0x00000FFF#32 = 0)
    (htab : ∀ i, tables ptAddr i = p.PT i) (hv : v.toNat / 2 ^ 22 = 0) :
    walk p.DT tables priv acc v =
      if permits priv acc (Paging.ptEntry (v.toNat / 2 ^ 12)) then
        some (Paging.ptEntry (v.toNat / 2 ^ 12) &&& 0xFFFFF000#32 ||| v &&& 0x00000FFF#32)
      else none := by
  have hpt' : (ptAddr >>> 12) <<< 12 = ptAddr := by
    have hmod : ptAddr.toNat % 2 ^ 12 = 0 := by
      rw [← toNat_and_low12, hpt]
      rfl
    have := ptAddr.isLt
    apply BitVec.eq_of_toNat_eq
    rw [BitVec.toNat_shiftLeft, toNat_pteIndex, Nat.shiftLeft_eq]
    omega
  have hpde : p.DT (v >>> 22).toNat = 0x7#32 ||| (ptAddr >>> 12) <<< 12 := by
    rw [toNat_pdeIndex, hv, h.dt 0 (by decide) (by decide)]
    rfl
  have hbits : permits priv acc (0x7#32 ||| (ptAddr >>> 12) <<< 12) = true := by
    simp [permits]
  have hps : (0x7#32 ||| (ptAddr >>> 12) <<< 12).getLsbD 7 = false := by
    simp
  have hbase : (0x7#32 ||| (ptAddr >>> 12) <<< 12) &&& 0xFFFFF000#32 = ptAddr := by
    rw [BitVec.and_or_distrib_right, shiftLeft12_and_high, hpt',
      show 0x7#32 &&& 0xFFFFF000#32 = 0 from rfl]
    exact BitVec.zero_or
  have hindex : (v >>> 12).toNat % 1024 = v.toNat / 2 ^ 12 := by
    rw [toNat_pteIndex]
    omega
  have hpte : tables ptAddr ((v >>> 12).toNat % 1024) = Paging.ptEntry (v.toNat / 2 ^ 12) := by
    rw [htab, hindex, h.pt _ (by simp only [tableSize]; omega)]
  simp only [walk, hpde, hbits, hps, hbase, hpte, if_true, Bool.false_eq_true, if_false]

/-- Only the entry of the video page is present. -/
theorem ptEntry_absent {i : ℕ} (hi : i < tableSize) (hvideo : i ≠ 0xB8) :
    (Paging.ptEntry i).getLsbD 0 = false := by
  have hne : BitVec.ofNat 32 i <<< 12 ≠ videoMem := by
    intro he
    have he' := congrArg BitVec.toNat he
    rw [BitVec.toNat_shiftLeft, BitVec.toNat_ofNat, Nat.shiftLeft_eq] at he'
    simp only [videoMem, BitVec.toNat_ofNat] at he'
    simp only [tableSize] at hi
    omega
  rw [Paging.ptEntry, if_pos hne]
  simp [pageRW]

/-- The first 4 MB: only the video page is present. -/
theorem walk_low (h : p.Maps ptAddr pid) (hpt : ptAddr &&& 0x00000FFF#32 = 0)
    (htab : ∀ i, tables ptAddr i = p.PT i) (hv : v.toNat / 2 ^ 22 = 0) :
    walk p.DT tables priv acc v = translation pid priv v := by
  have hrange : ¬ (userMem ≤ v ∧ v < userEnd) := by
    rw [BitVec.le_def, BitVec.lt_def]
    simp only [userMem, userEnd, BitVec.toNat_ofNat]
    omega
  rw [walk_table h hpt htab hv, translation, if_neg hrange]
  by_cases hvideo : v.toNat / 2 ^ 12 = 0xB8
  · have hin : 0xB8000#32 ≤ v ∧ v ≤ 0xB8FFF#32 := by
      rw [BitVec.le_def, BitVec.le_def]
      simp only [BitVec.toNat_ofNat]
      omega
    have hentry : Paging.ptEntry (v.toNat / 2 ^ 12) = 0x000B8103#32 := by
      rw [hvideo]
      rfl
    have haddr : ((0x000B8103#32 &&& 0xFFFFF000#32) ||| v &&& 0x00000FFF#32) = v := by
      apply BitVec.eq_of_toNat_eq
      rw [toNat_page_or v rfl, show (0x000B8103#32 &&& 0xFFFFF000#32).toNat = 0xB8000 from rfl]
      omega
    rw [hentry, haddr]
    cases priv with
    | user =>
      have hbits : permits .user acc 0x000B8103#32 = false := by simp [permits]
      simp [hbits]
    | supervisor =>
      have hbits : permits .supervisor acc 0x000B8103#32 = true := by simp [permits]
      simp [hbits, hin]
  · have hout : ¬ (0xB8000#32 ≤ v ∧ v ≤ 0xB8FFF#32 ∨ 0x400000#32 ≤ v ∧ v < 0x800000#32) := by
      rw [BitVec.le_def, BitVec.le_def, BitVec.le_def, BitVec.lt_def]
      simp only [BitVec.toNat_ofNat]
      omega
    have habsent := ptEntry_absent (by simp only [tableSize]; omega) hvideo
    rw [permits_of_not_present habsent]
    simp [hout]

/-- Everything else. -/
theorem walk_absent (h : p.Maps ptAddr pid) (hu : v.toNat / 2 ^ 22 ≠ Paging.userIndex)
    (h1 : v.toNat / 2 ^ 22 ≠ 1) (h0 : v.toNat / 2 ^ 22 ≠ 0) :
    walk p.DT tables priv acc v = translation pid priv v := by
  have hlt : v.toNat / 2 ^ 22 < tableSize := by
    have := v.isLt
    simp only [tableSize]
    omega
  have hpde : p.DT (v >>> 22).toNat = 0x00400180#32 := by
    rw [toNat_pdeIndex, h.dt _ hlt hu, Paging.dtEntry, if_neg h0, if_neg h1]
    rfl
  have hrange : ¬ (userMem ≤ v ∧ v < userEnd) := by
    simp only [Paging.userIndex] at hu
    rw [BitVec.le_def, BitVec.lt_def]
    simp only [userMem, userEnd, BitVec.toNat_ofNat]
    omega
  have hout : ¬ (0xB8000#32 ≤ v ∧ v ≤ 0xB8FFF#32 ∨ 0x400000#32 ≤ v ∧ v < 0x800000#32) := by
    rw [BitVec.le_def, BitVec.le_def, BitVec.le_def, BitVec.lt_def]
    simp only [BitVec.toNat_ofNat]
    omega
  have hbits : permits priv acc 0x00400180#32 = false := permits_of_not_present rfl
  simp only [walk, hpde, hbits, Bool.false_eq_true, if_false, translation, if_neg hrange, hout,
    and_false]

/-- **The address space.** Over tables that map the user page of process `pid`, the walk computes
`translation`, in either mode, for either kind of access and for every virtual address. -/
theorem walk_eq_translation (h : p.Maps ptAddr pid) (hpt : ptAddr &&& 0x00000FFF#32 = 0)
    (htab : ∀ i, tables ptAddr i = p.PT i) (priv : Privilege) (acc : Access) (v : BitVec 32) :
    walk p.DT tables priv acc v = translation pid priv v := by
  by_cases hu : v.toNat / 2 ^ 22 = Paging.userIndex
  · exact walk_user h hu
  by_cases h1 : v.toNat / 2 ^ 22 = 1
  · exact walk_kernel h h1
  by_cases h0 : v.toNat / 2 ^ 22 = 0
  · exact walk_low h hpt htab h0
  · exact walk_absent h hu h1 h0

end Mp3Kernel
