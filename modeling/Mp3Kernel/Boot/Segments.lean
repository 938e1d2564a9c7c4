import Mp3Kernel.ByteMemory.BitFields
import Mp3Kernel.Process.State

/-!
# Segment descriptors

The bit fields of a segment descriptor, the macros that set its base address and limit, and what
the processor reads from the eight bytes. The descriptor table holds four segments that cover the
address space, and two descriptors that the kernel constructs at boot.

## Main definitions

* `SegDesc`, `SegDesc.val`, `SegDesc.setParams`: the bit fields, the bytes, and the macros.
* `Segment`, `Segment.ofVal`: what the processor reads.
* `gdt`, `segment?`: the descriptor table, and the segment that a selector designates.

## Main results

* `descriptors_round_trip`: the processor reads the base and the limit that the macros have set.
* `segment?_of_flat`: the segments of the kernel and of user programs cover the address space.

Source: `x86_desc.h`, lines 35–57 and 127–145; `x86_desc.S`, lines 46–97.
-/

namespace Mp3Kernel

open BitFields

/-! ### Descriptors -/

/-- `struct seg_desc`. -/
structure SegDesc where
  /-- `seg_lim_15_00`. -/
  segLim1500 : BitVec 16
  /-- `base_15_00`. -/
  base1500 : BitVec 16
  /-- `base_23_16`. -/
  base2316 : BitVec 8
  /-- `type`. -/
  type : BitVec 4
  /-- `sys`. -/
  sys : BitVec 1
  /-- `dpl`. -/
  dpl : BitVec 2
  /-- `present`. -/
  present : BitVec 1
  /-- `seg_lim_19_16`. -/
  segLim1916 : BitVec 4
  /-- `avail`. -/
  avail : BitVec 1
  /-- `reserved`. -/
  reserved : BitVec 1
  /-- `opsize`. -/
  opsize : BitVec 1
  /-- `granularity`. -/
  granularity : BitVec 1
  /-- `base_31_24`. -/
  base3124 : BitVec 8

/-- The bit fields of a descriptor, the first in the lowest bits. -/
def SegDesc.fields (d : SegDesc) : Fields :=
  [⟨16, d.segLim1500⟩, ⟨16, d.base1500⟩, ⟨8, d.base2316⟩, ⟨4, d.type⟩, ⟨1, d.sys⟩, ⟨2, d.dpl⟩,
    ⟨1, d.present⟩, ⟨4, d.segLim1916⟩, ⟨1, d.avail⟩, ⟨1, d.reserved⟩, ⟨1, d.opsize⟩,
    ⟨1, d.granularity⟩, ⟨8, d.base3124⟩]

/-- The eight bytes of a descriptor. -/
def SegDesc.val (d : SegDesc) : BitVec 64 := .ofNat 64 d.fields.pack

/-- `SET_LDT_PARAMS` and `SET_TSS_PARAMS`, which are the same. -/
def SegDesc.setParams (d : SegDesc) (addr lim : BitVec 32) : SegDesc :=
  { d with
    base3124 := ((addr &&& 0xFF000000#32) >>> 24).setWidth 8
    base2316 := ((addr &&& 0x00FF0000#32) >>> 16).setWidth 8
    base1500 := (addr &&& 0x0000FFFF#32).setWidth 16
    segLim1916 := ((lim &&& 0x000F0000#32) >>> 16).setWidth 4
    segLim1500 := (lim &&& 0x0000FFFF#32).setWidth 16 }

/-- A segment, as the processor reads it. -/
structure Segment where
  /-- The base address. -/
  base : BitVec 32
  /-- The limit, in bytes or in pages. -/
  limit : BitVec 20
  /-- The type. -/
  type : BitVec 4
  /-- One for a segment of code or data, zero for one of the system. -/
  codeOrData : BitVec 1
  /-- The privilege level. -/
  dpl : BitVec 2
  /-- One for a segment that is present. -/
  present : BitVec 1
  /-- The bit that is free for the system. -/
  available : BitVec 1
  /-- The reserved bit. -/
  reserved : BitVec 1
  /-- One for a segment of 32-bit code or data. -/
  wide : BitVec 1
  /-- One for a limit that counts pages. -/
  pages : BitVec 1
deriving DecidableEq

/-- What the processor reads from a descriptor. -/
def Segment.ofVal (v : BitVec 64) : Segment where
  base := v.extractLsb' 56 8 ++ v.extractLsb' 16 24
  limit := v.extractLsb' 48 4 ++ v.extractLsb' 0 16
  type := v.extractLsb' 40 4
  codeOrData := v.extractLsb' 44 1
  dpl := v.extractLsb' 45 2
  present := v.extractLsb' 47 1
  available := v.extractLsb' 52 1
  reserved := v.extractLsb' 53 1
  wide := v.extractLsb' 54 1
  pages := v.extractLsb' 55 1

/-- The processor reads the fields of a descriptor, with the parts of the base and of the limit put
together. -/
theorem Segment.ofVal_val (d : SegDesc) : Segment.ofVal d.val =
    { base := d.base3124 ++ (d.base2316 ++ d.base1500)
      limit := d.segLim1916 ++ d.segLim1500
      type := d.type
      codeOrData := d.sys
      dpl := d.dpl
      present := d.present
      available := d.avail
      reserved := d.reserved
      wide := d.opsize
      pages := d.granularity } := by
  have hwidth : d.fields.width ≤ 64 := Nat.le_refl 64
  have hlim0 : d.val.extractLsb' 0 16 = d.segLim1500 := d.fields.extract_pack 0 _ rfl hwidth
  have hbase0 : d.val.extractLsb' 16 24 = d.base2316 ++ d.base1500 :=
    d.fields.extract_pack_two 1 _ _ rfl hwidth
  have htype : d.val.extractLsb' 40 4 = d.type := d.fields.extract_pack 3 _ rfl hwidth
  have hsys : d.val.extractLsb' 44 1 = d.sys := d.fields.extract_pack 4 _ rfl hwidth
  have hdpl : d.val.extractLsb' 45 2 = d.dpl := d.fields.extract_pack 5 _ rfl hwidth
  have hpresent : d.val.extractLsb' 47 1 = d.present := d.fields.extract_pack 6 _ rfl hwidth
  have hlim16 : d.val.extractLsb' 48 4 = d.segLim1916 := d.fields.extract_pack 7 _ rfl hwidth
  have havail : d.val.extractLsb' 52 1 = d.avail := d.fields.extract_pack 8 _ rfl hwidth
  have hreserved : d.val.extractLsb' 53 1 = d.reserved := d.fields.extract_pack 9 _ rfl hwidth
  have hopsize : d.val.extractLsb' 54 1 = d.opsize := d.fields.extract_pack 10 _ rfl hwidth
  have hpages : d.val.extractLsb' 55 1 = d.granularity := d.fields.extract_pack 11 _ rfl hwidth
  have hbase24 : d.val.extractLsb' 56 8 = d.base3124 := d.fields.extract_pack 12 _ rfl hwidth
  rw [ofVal, hlim0, hbase0, htype, hsys, hdpl, hpresent, hlim16, havail, hreserved, hopsize,
    hpages, hbase24]

/-- **Descriptors round-trip.** From a descriptor on which a macro has been used, the processor
reads the address and the low twenty bits of the limit, and the other fields as they were. -/
theorem descriptors_round_trip (d : SegDesc) (addr lim : BitVec 32) :
    Segment.ofVal (d.setParams addr lim).val =
      { base := addr
        limit := lim.setWidth 20
        type := d.type
        codeOrData := d.sys
        dpl := d.dpl
        present := d.present
        available := d.avail
        reserved := d.reserved
        wide := d.opsize
        pages := d.granularity } := by
  have hb24 : ((addr &&& 0xFF000000#32) >>> 24).setWidth 8 = addr.extractLsb' 24 8 :=
    setWidth_masked addr _ rfl (Nat.le_refl 32)
  have hb16 : ((addr &&& 0x00FF0000#32) >>> 16).setWidth 8 = addr.extractLsb' 16 8 :=
    setWidth_masked addr _ rfl (Nat.le_of_ble_eq_true rfl)
  have hb0 : (addr &&& 0x0000FFFF#32).setWidth 16 = addr.extractLsb' 0 16 :=
    setWidth_masked (s := 0) addr _ rfl (Nat.le_of_ble_eq_true rfl)
  have hl16 : ((lim &&& 0x000F0000#32) >>> 16).setWidth 4 = lim.extractLsb' 16 4 :=
    setWidth_masked lim _ rfl (Nat.le_of_ble_eq_true rfl)
  have hl0 : (lim &&& 0x0000FFFF#32).setWidth 16 = lim.extractLsb' 0 16 :=
    setWidth_masked (s := 0) lim _ rfl (Nat.le_of_ble_eq_true rfl)
  have hlow : addr.extractLsb' 16 8 ++ addr.extractLsb' 0 16 = addr.extractLsb' 0 24 :=
    BitVec.extractLsb'_append_extractLsb'_eq_extractLsb' rfl
  have hbase : addr.extractLsb' 24 8 ++ addr.extractLsb' 0 24 = addr :=
    (BitVec.extractLsb'_append_extractLsb'_eq_extractLsb' rfl).trans BitVec.extractLsb'_eq_self
  have hlim : lim.extractLsb' 16 4 ++ lim.extractLsb' 0 16 = lim.setWidth 20 :=
    (BitVec.extractLsb'_append_extractLsb'_eq_extractLsb' rfl).trans
      (BitVec.setWidth_eq_extractLsb' (by omega)).symm
  rw [Segment.ofVal_val, SegDesc.setParams]
  dsimp only
  rw [hb24, hb16, hb0, hl16, hl0, hlow, hbase, hlim]

/-! ### The descriptor table -/

/-- `gdt`, with the descriptors of the task state segment and of the local table. -/
def gdt (tssDesc ldtDesc : SegDesc) : List (BitVec 64) :=
  [0, 0, 0x00CF9A000000FFFF#64, 0x00CF92000000FFFF#64, 0x00CFFA000000FFFF#64,
    0x00CFF2000000FFFF#64, tssDesc.val, ldtDesc.val]

/-- The segment that a selector designates. The descriptors of the local table are all zero, so
that a selector of that table designates none. -/
def segment? (table : List (BitVec 64)) (selector : BitVec 16) : Option Segment := do
  let v ← if selector.getLsbD 2 then none else table[(selector >>> 3).toNat]?
  let s := Segment.ofVal v
  if s.present = 1#1 then some s else none

/-- `KERNEL_CS`. -/
def kernelCS : BitVec 16 := 0x0010#16

/-- `USER_CS`. -/
def userCS : BitVec 16 := 0x0023#16

/-- `USER_DS`. -/
def userDS : BitVec 16 := 0x002B#16

/-- The selectors of code and data. -/
def flatSelectors : List (BitVec 16) := [kernelCS, kernelDS.setWidth 16, userCS, userDS]

/-- A segment of code or data that covers the address space. -/
def Segment.flat (type : BitVec 4) (dpl : BitVec 2) : Segment where
  base := 0#32
  limit := 0xFFFFF#20
  type := type
  codeOrData := 1#1
  dpl := dpl
  present := 1#1
  available := 0#1
  reserved := 0#1
  wide := 1#1
  pages := 1#1

/-- The segments of the kernel have privilege level 0 and those of user programs level 3, as the
selectors say. -/
theorem segment?_of_flat (tss ldt : SegDesc) {selector : BitVec 16} (h : selector ∈ flatSelectors) :
    ∃ type, segment? (gdt tss ldt) selector = some (.flat type (selector.setWidth 2)) := by
  rcases List.mem_cons.mp h with rfl | h
  · exact ⟨0xA#4, rfl⟩
  rcases List.mem_cons.mp h with rfl | h
  · exact ⟨0x2#4, rfl⟩
  rcases List.mem_cons.mp h with rfl | h
  · exact ⟨0xA#4, rfl⟩
  obtain rfl := List.mem_singleton.mp h
  exact ⟨0x2#4, rfl⟩

end Mp3Kernel
