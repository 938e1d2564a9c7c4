import Mp3Kernel.Boot.Segments
import Mp3Kernel.Machine.Core
import Mp3Kernel.Transition.Fold

/-!
# The interrupt descriptor table

The bit fields of a gate, the table that `idt_init` fills, and what the processor reads from it:
trap gates for the exceptions, interrupt gates for the two devices, a trap gate that user programs
may use for system calls, and no other gate.

## Main definitions

* `IdtDesc`, `IdtDesc.val`, `IdtDesc.setEntry`: the bit fields, the bytes, and the macro.
* `Gate.ofVal`: what the processor reads.
* `idtInit`: the table.

## Main results

* `gate_idtInit`: the gate of every vector.
* `idtInit_entries`: what an interrupt of a device, and the instruction `int` of a user program,
  come to.

Source: `idt.c`, lines 37–248; `x86_desc.h`, lines 147–176.
-/

namespace Mp3Kernel

open BitFields X86

/-! ### Gates -/

/-- `idt_desc_t`. -/
structure IdtDesc where
  /-- `offset_15_00`. -/
  offset1500 : BitVec 16
  /-- `seg_selector`. -/
  segSelector : BitVec 16
  /-- `reserved4`. -/
  reserved4 : BitVec 8
  /-- `reserved3`. -/
  reserved3 : BitVec 1
  /-- `reserved2`. -/
  reserved2 : BitVec 1
  /-- `reserved1`. -/
  reserved1 : BitVec 1
  /-- `size`. -/
  size : BitVec 1
  /-- `reserved0`. -/
  reserved0 : BitVec 1
  /-- `dpl`. -/
  dpl : BitVec 2
  /-- `present`. -/
  present : BitVec 1
  /-- `offset_31_16`. -/
  offset3116 : BitVec 16

/-- The bit fields, the first in the lowest bits. -/
def IdtDesc.fields (d : IdtDesc) : Fields :=
  [⟨16, d.offset1500⟩, ⟨16, d.segSelector⟩, ⟨8, d.reserved4⟩, ⟨1, d.reserved3⟩, ⟨1, d.reserved2⟩,
    ⟨1, d.reserved1⟩, ⟨1, d.size⟩, ⟨1, d.reserved0⟩, ⟨2, d.dpl⟩, ⟨1, d.present⟩,
    ⟨16, d.offset3116⟩]

/-- The eight bytes of a gate. -/
def IdtDesc.val (d : IdtDesc) : BitVec 64 := .ofNat 64 d.fields.pack

/-- `SET_IDT_ENTRY`. -/
def IdtDesc.setEntry (d : IdtDesc) (handler : BitVec 32) : IdtDesc :=
  { d with
    offset3116 := ((handler &&& 0xFFFF0000#32) >>> 16).setWidth 16
    offset1500 := (handler &&& 0xFFFF#32).setWidth 16 }

/-- What the processor reads from a gate. A gate of 32 bits has the type 14, for an interrupt gate,
or 15, for a trap gate. -/
def gateOfVal (v : BitVec 64) : Option Gate :=
  if v.extractLsb' 41 4 = 7#4 then
    some
      { offset := v.extractLsb' 48 16 ++ v.extractLsb' 0 16
        selector := v.extractLsb' 16 16
        dpl := v.extractLsb' 45 2
        present := v.extractLsb' 47 1 == 1#1
        trap := v.extractLsb' 40 1 == 1#1 }
  else none

/-- The processor reads the fields of a gate whose type is that of a gate of 32 bits. -/
theorem gateOfVal_val (d : IdtDesc) (h2 : d.reserved2 = 1#1) (h1 : d.reserved1 = 1#1)
    (hsize : d.size = 1#1) (h0 : d.reserved0 = 0#1) : gateOfVal d.val = some
      { offset := d.offset3116 ++ d.offset1500
        selector := d.segSelector
        dpl := d.dpl
        present := d.present == 1#1
        trap := d.reserved3 == 1#1 } := by
  have hwidth : d.fields.width ≤ 64 := Nat.le_refl 64
  have hlow : d.val.extractLsb' 0 16 = d.offset1500 := d.fields.extract_pack 0 _ rfl hwidth
  have hselector : d.val.extractLsb' 16 16 = d.segSelector :=
    d.fields.extract_pack 1 _ rfl hwidth
  have htrap : d.val.extractLsb' 40 1 = d.reserved3 := d.fields.extract_pack 3 _ rfl hwidth
  have hlow' : d.val.extractLsb' 41 2 = d.reserved1 ++ d.reserved2 :=
    d.fields.extract_pack_two 4 _ _ rfl hwidth
  have hhigh : d.val.extractLsb' 43 2 = d.reserved0 ++ d.size :=
    d.fields.extract_pack_two 6 _ _ rfl hwidth
  have hdpl : d.val.extractLsb' 45 2 = d.dpl := d.fields.extract_pack 8 _ rfl hwidth
  have hpresent : d.val.extractLsb' 47 1 = d.present := d.fields.extract_pack 9 _ rfl hwidth
  have hoffset : d.val.extractLsb' 48 16 = d.offset3116 := d.fields.extract_pack 10 _ rfl hwidth
  have htype : d.val.extractLsb' 41 4 = 7#4 := by
    have hjoin : d.val.extractLsb' 43 2 ++ d.val.extractLsb' 41 2 = d.val.extractLsb' 41 4 :=
      BitVec.extractLsb'_append_extractLsb'_eq_extractLsb' rfl
    rw [← hjoin, hlow', hhigh, h2, h1, hsize, h0]
    rfl
  rw [gateOfVal, if_pos htype, hlow, hselector, htrap, hdpl, hpresent, hoffset]

/-- The address that the macro sets is the address that the processor reads. -/
theorem offset_setEntry (d : IdtDesc) (handler : BitVec 32) :
    (d.setEntry handler).offset3116 ++ (d.setEntry handler).offset1500 = handler := by
  have hhigh : ((handler &&& 0xFFFF0000#32) >>> 16).setWidth 16 = handler.extractLsb' 16 16 :=
    setWidth_masked handler _ rfl (Nat.le_refl 32)
  have hlow : (handler &&& 0xFFFF#32).setWidth 16 = handler.extractLsb' 0 16 :=
    setWidth_masked (s := 0) handler _ rfl (Nat.le_of_ble_eq_true rfl)
  rw [IdtDesc.setEntry]
  dsimp only
  rw [hhigh, hlow]
  exact (BitVec.extractLsb'_append_extractLsb'_eq_extractLsb' rfl).trans BitVec.extractLsb'_eq_self

/-! ### The table -/

/-- The code that the table leads to. -/
inductive Entry
  /-- `e0` to `e19`. -/
  | exception (k : ℕ)
  /-- `keyboard_irq_wrap`. -/
  | keyboardIrqWrap
  /-- `rtc_irq_wrap`. -/
  | rtcIrqWrap
  /-- `systemcall`. -/
  | systemcall
deriving DecidableEq

/-- `idt`. -/
abbrev Idt := ℕ → IdtDesc

/-- `num_exception`. -/
def numException : ℕ := 20

/-- `itr_rtc`. -/
def itrRtc : ℕ := 0x28

/-- `itr_keyboard`. -/
def itrKeyboard : ℕ := 0x21

/-- `idt_size`. -/
def idtSize : ℕ := 256

/-- `system_call`. -/
def systemCall : ℕ := 0x80

/-- An entry changed. -/
def Idt.modify (t : Idt) (v : ℕ) (f : IdtDesc → IdtDesc) : Idt := Function.update t v (f (t v))

/-- What the first loop of `idt_init` does to an entry. -/
def IdtDesc.prepare (d : IdtDesc) : IdtDesc :=
  { d with
    segSelector := kernelCS
    reserved3 := 1#1
    reserved2 := 1#1
    reserved1 := 1#1
    size := 1#1
    reserved0 := 0#1
    dpl := 0#2
    present := 0#1 }

/-- `idt_init`, with the addresses of the code. The second loop stands for the twenty uses of the
macro, one for each exception. -/
def idtInit (address : Entry → BitVec 32) (t : Idt) : Idt :=
  let t := (List.range idtSize).foldl (fun t v => Idt.modify t v .prepare) t
  let t := (List.range numException).foldl
    (fun t v => Idt.modify t v fun d => d.setEntry (address (.exception v))) t
  let t := (List.range numException).foldl
    (fun t v => Idt.modify t v fun d => { d with present := 1#1 }) t
  let t := Idt.modify t itrRtc fun d => d.setEntry (address .rtcIrqWrap)
  let t := Idt.modify t itrRtc fun d => { d with reserved3 := 0#1 }
  let t := Idt.modify t itrRtc fun d => { d with present := 1#1 }
  let t := Idt.modify t itrKeyboard fun d => d.setEntry (address .keyboardIrqWrap)
  let t := Idt.modify t itrKeyboard fun d => { d with reserved3 := 0#1 }
  let t := Idt.modify t itrKeyboard fun d => { d with present := 1#1 }
  let t := Idt.modify t systemCall fun d => d.setEntry (address .systemcall)
  let t := Idt.modify t systemCall fun d => { d with dpl := 3#2 }
  Idt.modify t systemCall fun d => { d with present := 1#1 }

/-- The code for a vector. -/
def entryOf (v : ℕ) : Option Entry :=
  if v < numException then some (.exception v)
  else if v = itrKeyboard then some .keyboardIrqWrap
  else if v = itrRtc then some .rtcIrqWrap
  else if v = systemCall then some .systemcall
  else none

theorem Idt.modify_self (t : Idt) (v : ℕ) (f : IdtDesc → IdtDesc) : t.modify v f v = f (t v) :=
  Function.update_self ..

theorem Idt.modify_of_ne (t : Idt) {v w : ℕ} (f : IdtDesc → IdtDesc) (h : v ≠ w) :
    t.modify w f v = t v :=
  Function.update_of_ne h ..

/-- A loop that changes each of the first `n` entries once. -/
theorem Idt.foldl_modify (f : ℕ → IdtDesc → IdtDesc) (t : Idt) (n v : ℕ) :
    (List.range n).foldl (fun t v => Idt.modify t v (f v)) t v =
      if v < n then f v (t v) else t v := by
  induction n with
  | zero => rfl
  | succ n ih =>
    rw [List.range_succ, List.foldl_append, List.foldl_cons, List.foldl_nil]
    rcases Nat.lt_trichotomy v n with h | rfl | h
    · rw [Idt.modify_of_ne _ _ (Nat.ne_of_lt h), ih, if_pos h, if_pos (by omega)]
    · rw [Idt.modify_self, ih, if_neg (Nat.lt_irrefl v), if_pos (Nat.lt_succ_self v)]
    · rw [Idt.modify_of_ne _ _ (Nat.ne_of_gt h), ih, if_neg (by omega), if_neg (by omega)]

/-! ### The gate of every vector -/

/-- The gate that leads to the code. -/
def gateOf (address : Entry → BitVec 32) (e : Entry) : Gate where
  offset := address e
  selector := kernelCS
  dpl := if e = .systemcall then 3#2 else 0#2
  present := true
  trap := e ≠ .keyboardIrqWrap ∧ e ≠ .rtcIrqWrap

section Gates

variable {address : Entry → BitVec 32} {t : Idt} {v : ℕ}

theorem idtInit_of_exception (h : v < numException) : idtInit address t v =
    { (t v).prepare.setEntry (address (.exception v)) with present := 1#1 } := by
  have hlt : v < 20 := h
  have hkeyboard : v ≠ itrKeyboard := by rw [itrKeyboard]; omega
  have hrtc : v ≠ itrRtc := by rw [itrRtc]; omega
  have hcall : v ≠ systemCall := by rw [systemCall]; omega
  have hsize : v < idtSize := by rw [idtSize]; omega
  simp only [idtInit, Idt.modify_of_ne _ _ hkeyboard, Idt.modify_of_ne _ _ hrtc,
    Idt.modify_of_ne _ _ hcall]
  rw [Idt.foldl_modify, if_pos h, Idt.foldl_modify, if_pos h, Idt.foldl_modify, if_pos hsize]

theorem idtInit_keyboard : idtInit address t itrKeyboard =
    { (t itrKeyboard).prepare.setEntry (address .keyboardIrqWrap) with
      reserved3 := 0#1
      present := 1#1 } := by
  have hrtc : itrKeyboard ≠ itrRtc := by decide
  have hcall : itrKeyboard ≠ systemCall := by decide
  simp only [idtInit, Idt.modify_self, Idt.modify_of_ne _ _ hrtc, Idt.modify_of_ne _ _ hcall]
  rw [Idt.foldl_modify, if_neg (by decide), Idt.foldl_modify, if_neg (by decide),
    Idt.foldl_modify, if_pos (by decide)]

theorem idtInit_rtc : idtInit address t itrRtc =
    { (t itrRtc).prepare.setEntry (address .rtcIrqWrap) with
      reserved3 := 0#1
      present := 1#1 } := by
  have hkeyboard : itrRtc ≠ itrKeyboard := by decide
  have hcall : itrRtc ≠ systemCall := by decide
  simp only [idtInit, Idt.modify_self, Idt.modify_of_ne _ _ hkeyboard, Idt.modify_of_ne _ _ hcall]
  rw [Idt.foldl_modify, if_neg (by decide), Idt.foldl_modify, if_neg (by decide),
    Idt.foldl_modify, if_pos (by decide)]

theorem idtInit_systemCall : idtInit address t systemCall =
    { (t systemCall).prepare.setEntry (address .systemcall) with
      dpl := 3#2
      present := 1#1 } := by
  have hkeyboard : systemCall ≠ itrKeyboard := by decide
  have hrtc : systemCall ≠ itrRtc := by decide
  simp only [idtInit, Idt.modify_self, Idt.modify_of_ne _ _ hkeyboard, Idt.modify_of_ne _ _ hrtc]
  rw [Idt.foldl_modify, if_neg (by decide), Idt.foldl_modify, if_neg (by decide),
    Idt.foldl_modify, if_pos (by decide)]

theorem entryOf_eq_none_iff : entryOf v = none ↔
    numException ≤ v ∧ v ≠ itrKeyboard ∧ v ≠ itrRtc ∧ v ≠ systemCall := by
  rw [entryOf]
  split_ifs with h h' h' h'
  all_goals simp_all

theorem entryOf_eq_systemcall_iff : entryOf v = some .systemcall ↔ v = systemCall := by
  constructor
  · intro h
    rw [entryOf] at h
    split_ifs at h with hv hkeyboard hrtc hcall
    · cases h
    · cases h
    · cases h
    · exact hcall
  · rintro rfl
    rfl

theorem idtInit_of_none (h : entryOf v = none) (hv : v < idtSize) :
    idtInit address t v = (t v).prepare := by
  obtain ⟨hle, hkeyboard, hrtc, hcall⟩ := entryOf_eq_none_iff.mp h
  have hlt := Nat.not_lt.mpr hle
  simp only [idtInit, Idt.modify_of_ne _ _ hkeyboard, Idt.modify_of_ne _ _ hrtc,
    Idt.modify_of_ne _ _ hcall]
  rw [Idt.foldl_modify, if_neg hlt, Idt.foldl_modify, if_neg hlt, Idt.foldl_modify, if_pos hv]

/-- **The gate of a vector with code.** -/
theorem gate_idtInit {e : Entry} (h : entryOf v = some e) :
    gateOfVal (idtInit address t v).val = some (gateOf address e) := by
  rw [entryOf] at h
  split_ifs at h with hv hkeyboard hrtc hcall
  · obtain rfl := Option.some.inj h
    rw [idtInit_of_exception hv, gateOfVal_val _ rfl rfl rfl rfl]
    exact congrArg some (congrArg (Gate.mk · _ _ _ _) (offset_setEntry (t v).prepare _))
  · obtain rfl := Option.some.inj h
    rw [hkeyboard, idtInit_keyboard, gateOfVal_val _ rfl rfl rfl rfl]
    exact congrArg some (congrArg (Gate.mk · _ _ _ _) (offset_setEntry (t itrKeyboard).prepare _))
  · obtain rfl := Option.some.inj h
    rw [hrtc, idtInit_rtc, gateOfVal_val _ rfl rfl rfl rfl]
    exact congrArg some (congrArg (Gate.mk · _ _ _ _) (offset_setEntry (t itrRtc).prepare _))
  · obtain rfl := Option.some.inj h
    rw [hcall, idtInit_systemCall, gateOfVal_val _ rfl rfl rfl rfl]
    exact congrArg some (congrArg (Gate.mk · _ _ _ _) (offset_setEntry (t systemCall).prepare _))

/-- The gate of a vector without code is not present. -/
theorem gate_idtInit_of_none (h : entryOf v = none) (hv : v < idtSize) :
    ∃ g, gateOfVal (idtInit address t v).val = some g ∧ g.present = false ∧ g.dpl = 0#2 := by
  rw [idtInit_of_none h hv, gateOfVal_val _ rfl rfl rfl rfl]
  exact ⟨_, rfl, rfl, rfl⟩

end Gates

/-! ### Interrupts and the instruction `int` -/

/-- The tables of the processor: the segments, the gates of `idt_init`, and the stack of level 0
that the task state segment has. -/
def tables (address : Entry → BitVec 32) (t : Idt) (tss ldt : SegDesc) (ss0 : BitVec 16)
    (esp0 : BitVec 32) : Tables where
  segDpl selector := (segment? (gdt tss ldt) selector).map (·.dpl)
  gate v := if v < idtSize then gateOfVal (idtInit address t v).val else none
  ss0 := ss0
  esp0 := esp0

variable (address : Entry → BitVec 32) (t : Idt) (tss ldt : SegDesc) (ss0 : BitVec 16)
  (esp0 : BitVec 32)

theorem select_of_some {v : ℕ} {e : Entry} (h : entryOf v = some e) (hv : v < idtSize)
    (software : Bool) (c : Core) : (tables address t tss ldt ss0 esp0).select software v c =
      if software ∧ (gateOf address e).dpl < c.cpl then .error .generalProtection
      else .ok (gateOf address e) := by
  have hgate : (tables address t tss ldt ss0 esp0).gate v = some (gateOf address e) :=
    (if_pos hv).trans (gate_idtInit h)
  rw [Tables.select, hgate]
  rfl

theorem select_of_none {v : ℕ} (h : entryOf v = none) (hv : v < idtSize) (software : Bool)
    (c : Core) : (tables address t tss ldt ss0 esp0).select software v c =
      if software ∧ 0#2 < c.cpl then .error .generalProtection else .error .segmentNotPresent := by
  obtain ⟨g, hg, hpresent, hdpl⟩ := @gate_idtInit_of_none address t v h hv
  have hgate : (tables address t tss ldt ss0 esp0).gate v = some g := (if_pos hv).trans hg
  rw [Tables.select, hgate]
  dsimp only
  rw [hdpl, hpresent]
  rfl

/-- The gate of the system calls, and only it, may be used by user programs. -/
theorem dpl_gateOf_lt (e : Entry) : (gateOf address e).dpl < rpl userCS ↔ e ≠ .systemcall := by
  by_cases he : e = .systemcall
  · subst he
    exact iff_of_false (BitVec.lt_irrefl 3#2) fun h => h rfl
  · have hdpl : (gateOf address e).dpl = 0#2 := if_neg he
    rw [hdpl]
    exact iff_of_true (by decide) he

/-- **Who comes in.** An interrupt of a device enters the code of its vector, and faults when there
is none. The instruction `int` of a user program enters the code of the system calls, and faults
with every other vector. -/
theorem idtInit_entries (c : Core) (v : BitVec 8) :
    (tables address t tss ldt ss0 esp0).select false v.toNat c =
      (match entryOf v.toNat with
      | some e => .ok (gateOf address e)
      | none => .error .segmentNotPresent) ∧
    (tables address t tss ldt ss0 esp0).select true v.toNat { c with cs := userCS } =
      if v = 0x80#8 then .ok (gateOf address .systemcall) else .error .generalProtection := by
  have hv : v.toNat < idtSize := v.isLt
  have hcall : entryOf v.toNat = some .systemcall ↔ v = 0x80#8 := by
    rw [entryOf_eq_systemcall_iff, ← BitVec.toNat_inj]
    rfl
  cases h : entryOf v.toNat with
  | none =>
    refine ⟨select_of_none address t tss ldt ss0 esp0 h hv false c, ?_⟩
    have hne : v ≠ 0x80#8 := fun hv => by cases h.symm.trans (hcall.mpr hv)
    have hlevel : 0#2 < rpl userCS := (BitVec.pos_iff_ne_zero _).mpr (by decide)
    rw [select_of_none address t tss ldt ss0 esp0 h hv, if_neg hne]
    exact if_pos ⟨rfl, hlevel⟩
  | some e =>
    refine ⟨select_of_some address t tss ldt ss0 esp0 h hv false c, ?_⟩
    rw [select_of_some address t tss ldt ss0 esp0 h hv]
    by_cases he : e = .systemcall
    · subst he
      rw [if_pos (hcall.mp h), if_neg fun hlt => (dpl_gateOf_lt address _).mp hlt.2 rfl]
    · have hne : v ≠ 0x80#8 := fun hv => he (Option.some.inj (h.symm.trans (hcall.mpr hv)))
      rw [if_neg hne]
      exact if_pos ⟨rfl, (dpl_gateOf_lt address e).mpr he⟩

end Mp3Kernel
