import Mathlib.Tactic.IntervalCases
import Mp3Kernel.Boot.Interrupts
import Mp3Kernel.Machine.Calls
import Mp3Kernel.Process.SystemCall

/-!
# System calls with interrupts

The gate of the system calls leaves interrupts enabled, so that the keyboard and the clock come
between the instructions of `systemcall` as well as between those of the program. The registers and
the words on the stack at each instruction of `systemcall` are an invariant that interrupts keep.

## Main definitions

* `dispatch`: the function for a number in `eax`.
* `withCalls`: the processor with the code of the system calls.
* `Stage`: the registers and the stack at an instruction of `systemcall`.
* `Serving`: the processor runs the program, `systemcall` or a wrapper.

## Main results

* `Stage.step`, `Stage.function`, `Stage.iret`: the instructions of `systemcall`.
* `Serving.step`: a step of the processor is one that the program sees, or none.
* `exists_run_call`: a call whose function returns comes back to the program.

Source: `syscall.S`; `idt.c`, lines 186–248; `Keyboard_Interrupt_wrapper.S`.
-/

namespace Mp3Kernel

open ByteMemory X86 Transition

/-- The function of `sysJumpTable` for a number. -/
def dispatch (eax : BitVec 32) : Option Handler :=
  if 1 ≤ eax.toInt ∧ eax.toInt ≤ 10 then sysJumpTable[eax.toNat]?.join else none

theorem dispatch_eq_none_iff {eax : BitVec 32} :
    dispatch eax = none ↔ ¬ (1 ≤ eax.toInt ∧ eax.toInt ≤ 10) := by
  by_cases hvalid : 1 ≤ eax.toInt ∧ eax.toInt ≤ 10
  · obtain ⟨⟨h, hslot⟩, -⟩ := SystemCall.exists_handler hvalid.1 hvalid.2
    rw [dispatch, if_pos hvalid, hslot]
    exact iff_of_false (Option.some_ne_none h) (not_not.mpr hvalid)
  · exact iff_of_true (if_neg hvalid) hvalid

/-- The registers in the order in which `systemcall` pushes them. -/
def savedRegs : List Reg := [.esi, .edi, .esp, .edx, .ecx, .ebx]

/-- The values that `systemcall` pushes on the stack `top`. -/
def savedWords (top : BitVec 32) (e : Core) : List (BitVec 32) :=
  [e.regs .esi, e.regs .edi, top - 28#32, e.regs .edx, e.regs .ecx, e.regs .ebx]

/-- What the program sees of a call, made in the state `e`, before its function returns. -/
def Pending (P : Program) (e t : Core) : Prop :=
  match dispatch (e.regs .eax) with
  | none => t = e.called e.eip (-1#32)
  | some _ => P.int t = some e.eip ∧ e = { t with eip := e.eip }

/-- What the checks of `systemcall` have found out at an instruction. -/
def Checked (m : Machine) (eax : BitVec 32) : ℕ → Prop
  | 6 => True
  | 7 => m.greater = true ↔ 10 < eax.toInt
  | 8 => eax.toInt ≤ 10
  | 9 => eax.toInt ≤ 10 ∧ (m.less = true ↔ eax.toInt < 1)
  | 10 => 1 ≤ eax.toInt ∧ eax.toInt ≤ 10
  | 18 => ¬ (1 ≤ eax.toInt ∧ eax.toInt ≤ 10)
  | _ => False

/-- The registers of the state `d` at the instruction `pc` of `systemcall`, behind an entry from the
state `e` and with the words `ws` pushed. -/
inductive Known (P : Program) (top : BitVec 32) (t d : Core) :
    Core → List (BitVec 32) → ℕ → Prop
  | saving {e : Core} {k : ℕ} : k < 6 → (∀ r, r ≠ .esp → d.regs r = e.regs r) → Pending P e t →
      Known P top t d e ((savedWords top e).take k).reverse k
  | checking {e : Core} {pc : ℕ} : Checked d.toMachine (e.regs .eax) pc →
      (∀ r, r ≠ .esp → d.regs r = e.regs r) → Pending P e t →
        Known P top t d e (savedWords top e).reverse pc
  | refusing : (∀ r ∈ [Reg.eax, .ebp], d.regs r = t.regs r) →
      Known P top t d t (savedWords top t).reverse 19
  | restoring {k : ℕ} : k ≤ 6 →
      (∀ r ∈ [Reg.eax, .ebp] ++ savedRegs.reverse.take k, r ≠ .esp → d.regs r = t.regs r) →
        Known P top t d t ((savedWords top t).reverse.drop k) (SystemCall.done + k)

section

variable (P : Program) (loc : ℕ → BitVec 32) (top : BitVec 32) (A : Set (Ptr Unit))

/-- The processor is at an instruction of `systemcall`. -/
structure Stage (t d e : Core) (ws : List (BitVec 32)) (pc : ℕ) : Prop where
  eip : d.eip = loc pc
  inside : Inside top A e ws d
  known : Known P top t d e ws pc
  level : e.cpl ≠ 0

end

/-- The instructions of `systemcall` are at its addresses. -/
theorem Stage.lt {P : Program} {loc : ℕ → BitVec 32} {top : BitVec 32} {A : Set (Ptr Unit)}
    {t d e : Core} {ws : List (BitVec 32)} {pc : ℕ} (h : Stage P loc top A t d e ws pc) :
    pc < SystemCall.listing.length := by
  have hlen : SystemCall.listing.length = 20 := rfl
  rw [hlen]
  cases h.known with
  | saving hk => omega
  | checking hchecked =>
    unfold Checked at hchecked
    split at hchecked
    all_goals first | exact hchecked.elim | exact Nat.le_of_ble_eq_true rfl
  | refusing => exact Nat.le_refl 20
  | restoring hk =>
    rw [SystemCall.done]
    omega

theorem Known.congr {P : Program} {top : BitVec 32} {t d d' e : Core} {ws : List (BitVec 32)}
    {pc : ℕ} (h : Known P top t d e ws pc) (hregs : d'.regs = d.regs)
    (heflags : d'.eflags = d.eflags) : Known P top t d' e ws pc := by
  cases h with
  | saving hk hd hpending => exact .saving hk (by rwa [hregs]) hpending
  | checking hchecked hd hpending =>
    refine .checking ?_ (by rwa [hregs]) hpending
    have hgreater : d'.toMachine.greater = d.toMachine.greater := by
      simp only [Machine.greater, Core.toMachine, heflags]
    have hless : d'.toMachine.less = d.toMachine.less := by
      simp only [Machine.less, Core.toMachine, heflags]
    unfold Checked at hchecked ⊢
    rwa [hgreater, hless]
  | refusing hd => exact .refusing (by rwa [hregs])
  | restoring hk hd => exact .restoring hk (by rwa [hregs])

/-! ### The instructions of `systemcall` -/

/-- The processor with the code of the system calls. -/
def withCalls (S : System IrqHandler) {loc : ℕ → BitVec 32}
    (hloc : Set.InjOn loc (Set.Iio SystemCall.listing.length))
    (functions : Handler → Core → Core → Prop) : Kernel IrqHandler Handler where
  toSystem := S
  code := systemcall loc hloc
  functions := functions
  vector := systemCall

section Instructions

variable {S : System IrqHandler} {loc : ℕ → BitVec 32}
  {hloc : Set.InjOn loc (Set.Iio SystemCall.listing.length)}
  {functions : Handler → Core → Core → Prop} {P : Program} {A : Set (Ptr Unit)}
  {top : BitVec 32} {t d d' e : Core} {ws : List (BitVec 32)} {pc : ℕ}

theorem Inside.length_eq (h : e.cpl ≠ 0) (ws : List (BitVec 32)) :
    (ws ++ System.entryFrame e).length = ws.length + 5 := by
  rw [List.length_append, System.entryFrame_of_pos ((BitVec.pos_iff_ne_zero _).mpr h)]
  rfl

/-- A register that `systemcall` pushes, and its value. -/
theorem exists_saved (hlevel : e.cpl ≠ 0) {k : ℕ} (hk : k < 6)
    (h : Inside top A e ((savedWords top e).take k).reverse d)
    (hregs : ∀ r, r ≠ .esp → d.regs r = e.regs r) : ∃ r,
      SystemCall.listing[k]? = some (.push r) ∧
        ((savedWords top e).take (k + 1)).reverse =
          d.regs r :: ((savedWords top e).take k).reverse := by
  have hesp := h.esp
  rw [Inside.length_eq hlevel] at hesp
  interval_cases k
  · exact ⟨.esi, rfl, by rw [hregs .esi (by decide)]; rfl⟩
  · exact ⟨.edi, rfl, by rw [hregs .edi (by decide)]; rfl⟩
  · exact ⟨.esp, rfl, by rw [hesp]; rfl⟩
  · exact ⟨.edx, rfl, by rw [hregs .edx (by decide)]; rfl⟩
  · exact ⟨.ecx, rfl, by rw [hregs .ecx (by decide)]; rfl⟩
  · exact ⟨.ebx, rfl, by rw [hregs .ebx (by decide)]; rfl⟩

/-- A register that `systemcall` pops, and its value. -/
theorem exists_restored (top : BitVec 32) (t : Core) {k : ℕ} (hk : k < 6) : ∃ r v,
    SystemCall.listing[SystemCall.done + k]? = some (.pop r) ∧
      (savedWords top t).reverse.drop k = v :: (savedWords top t).reverse.drop (k + 1) ∧
        savedRegs.reverse.take (k + 1) = savedRegs.reverse.take k ++ [r] ∧
          (r ≠ .esp → v = t.regs r) ∧ (r = .esp → k = 3 ∧ v = top - 28#32) := by
  interval_cases k
  · exact ⟨.ebx, _, rfl, rfl, rfl, fun _ => rfl, (nomatch ·)⟩
  · exact ⟨.ecx, _, rfl, rfl, rfl, fun _ => rfl, (nomatch ·)⟩
  · exact ⟨.edx, _, rfl, rfl, rfl, fun _ => rfl, (nomatch ·)⟩
  · exact ⟨.esp, _, rfl, rfl, rfl, fun h => absurd rfl h, fun _ => ⟨rfl, rfl⟩⟩
  · exact ⟨.edi, _, rfl, rfl, rfl, fun _ => rfl, (nomatch ·)⟩
  · exact ⟨.esi, _, rfl, rfl, rfl, fun _ => rfl, (nomatch ·)⟩

/-- The step at an instruction of `systemcall`. -/
theorem codeStep_eq (hd : d.eip = loc pc) {i : Instr Handler}
    (hi : SystemCall.listing[pc]? = some i) :
    (withCalls S hloc functions).codeStep d = i.exec loc pc d.toMachine := by
  obtain ⟨hpc, rfl⟩ := List.getElem?_eq_some_iff.mp hi
  exact Kernel.codeStep_loc (K := withCalls S hloc functions) hpc hd

theorem Stage.save {k : ℕ} (h : Stage P loc top A t d e ((savedWords top e).take k).reverse k)
    (hk : k < 6) (hregs : ∀ r, r ≠ .esp → d.regs r = e.regs r) (hpending : Pending P e t)
    (hA : Disjoint A (below top 100)) {a : BitVec 32} {m : Machine}
    (hstep : (withCalls S hloc functions).codeStep d = some (none, .loc a, m))
    (hm : d.Becomes m d') (ha : d'.eip = a) :
    Stage P loc top A t d' e ((savedWords top e).take (k + 1)).reverse (k + 1) := by
  obtain ⟨r, hlisting, hwords⟩ := exists_saved h.level hk h.inside hregs
  rw [codeStep_eq h.eip hlisting] at hstep
  cases hstep
  have hlen := Inside.length_eq h.level (d.regs r :: ((savedWords top e).take k).reverse)
  rw [List.length_cons, List.length_reverse, List.length_take] at hlen
  have hinside : Inside top A e (d.regs r :: ((savedWords top e).take k).reverse) d' :=
    h.inside.push hm hA (hlen ▸ by omega) (by omega)
  rw [← hwords] at hinside
  have hregs' (r' : Reg) (hr' : r' ≠ .esp) : d'.regs r' = e.regs r' := by
    have hpush := congrArg (fun m => m.regs r') hm.machine
    exact hpush.trans ((Machine.regs_push hr').trans (hregs r' hr'))
  refine ⟨ha, hinside, ?_, h.level⟩
  rcases Nat.lt_or_ge (k + 1) 6 with hlt | hge
  · exact .saving hlt hregs' hpending
  · obtain rfl : k = 5 := by omega
    exact .checking trivial hregs' hpending

/-- An instruction that leaves the registers and the memory alone goes on with the checks. -/
theorem Stage.checked {pc' : ℕ} {m : Machine}
    (h : Stage P loc top A t d e (savedWords top e).reverse pc)
    (hregs : ∀ r, r ≠ .esp → d.regs r = e.regs r) (hpending : Pending P e t)
    (hm : d.Becomes m d') (hregs' : m.regs = d.regs) (hmem : m.mem = d.mem)
    (ha : d'.eip = loc pc') (hchecked : Checked m (e.regs .eax) pc') :
    Stage P loc top A t d' e (savedWords top e).reverse pc' := by
  have hd' : d'.regs = d.regs := (congrArg Machine.regs hm.machine).trans hregs'
  refine ⟨ha, h.inside.keep hm (congrFun hregs' _) hmem, ?_, h.level⟩
  exact .checking (hm.machine ▸ hchecked) (fun r hr => by rw [hd', hregs r hr]) hpending

/-- A call without a function is refused. -/
theorem Stage.refuse (h : Stage P loc top A t d e (savedWords top e).reverse pc)
    (hinvalid : ¬ (1 ≤ (e.regs .eax).toInt ∧ (e.regs .eax).toInt ≤ 10))
    (hregs : ∀ r, r ≠ .esp → d.regs r = e.regs r) (hpending : Pending P e t)
    (hm : d.Becomes (d.toMachine.setReg .eax (-1#32)) d') (ha : d'.eip = loc 19) :
    Stage P loc top A t d' t (savedWords top t).reverse 19 := by
  rw [Pending, dispatch_eq_none_iff.mpr hinvalid] at hpending
  dsimp only at hpending
  subst hpending
  set t := e.called e.eip (-1#32) with ht
  have hesp : (d.toMachine.setReg .eax (-1#32)).regs .esp = d.regs .esp :=
    Machine.regs_setReg (by decide)
  have hinside : Inside top A t (savedWords top t).reverse d' :=
    (h.inside.keep hm hesp rfl).of_frame rfl rfl (h.inside.keep hm hesp rfl).mem
  refine ⟨ha, hinside, .refusing fun r hr => ?_, h.level⟩
  have hd' := congrArg (fun m => m.regs r) hm.machine
  rcases List.mem_pair.mp hr with rfl | rfl
  · exact hd'.trans (Machine.regs_setReg_self.trans (e.regs_called_self ..).symm)
  · rw [ht, e.regs_called _ _ (by decide), ← hregs .ebp (by decide)]
    exact hd'.trans (Machine.regs_setReg (by decide))

/-- The instructions of the checks. Those of a valid call are executed one after the other. -/
theorem Stage.check (h : Stage P loc top A t d e (savedWords top e).reverse pc)
    (hchecked : Checked d.toMachine (e.regs .eax) pc)
    (hregs : ∀ r, r ≠ .esp → d.regs r = e.regs r) (hpending : Pending P e t)
    {a : BitVec 32} {m : Machine}
    (hstep : (withCalls S hloc functions).codeStep d = some (none, .loc a, m))
    (hm : d.Becomes m d') (ha : d'.eip = a) :
    ∃ e' pc', Stage P loc top A t d' e' (savedWords top e').reverse pc' ∧
      (1 ≤ (e.regs .eax).toInt ∧ (e.regs .eax).toInt ≤ 10 → e' = e ∧ pc' = pc + 1) := by
  have heax : d.regs .eax = e.regs .eax := hregs .eax (by decide)
  unfold Checked at hchecked
  split at hchecked
  · rw [codeStep_eq h.eip (i := .cmp 10#32 .eax) rfl] at hstep
    cases hstep
    refine ⟨e, 7, h.checked hregs hpending hm rfl rfl ha ?_, fun _ => ⟨rfl, rfl⟩⟩
    rw [← heax]
    exact d.toMachine.greater_compare (d.regs .eax) 10#32
  · rw [codeStep_eq h.eip (i := .jg SystemCall.invalid) rfl] at hstep
    cases hstep
    by_cases hgreater : d.toMachine.greater = true
    · have hout : ¬ (1 ≤ (e.regs .eax).toInt ∧ (e.regs .eax).toInt ≤ 10) :=
        fun hvalid => Int.not_lt.mpr hvalid.2 (hchecked.mp hgreater)
      rw [if_pos hgreater] at ha
      exact ⟨e, 18, h.checked hregs hpending hm rfl rfl ha hout, fun hvalid => absurd hvalid hout⟩
    · rw [if_neg hgreater] at ha
      refine ⟨e, 8, h.checked hregs hpending hm rfl rfl ha ?_, fun _ => ⟨rfl, rfl⟩⟩
      exact Int.not_lt.mp (mt hchecked.mpr hgreater)
  · rw [codeStep_eq h.eip (i := .cmp 1#32 .eax) rfl] at hstep
    cases hstep
    refine ⟨e, 9, h.checked hregs hpending hm rfl rfl ha ⟨hchecked, ?_⟩, fun _ => ⟨rfl, rfl⟩⟩
    rw [← heax]
    exact d.toMachine.less_compare (d.regs .eax) 1#32
  · obtain ⟨hle, hless⟩ := hchecked
    rw [codeStep_eq h.eip (i := .jl SystemCall.invalid) rfl] at hstep
    cases hstep
    by_cases hlt : d.toMachine.less = true
    · have hout : ¬ (1 ≤ (e.regs .eax).toInt ∧ (e.regs .eax).toInt ≤ 10) :=
        fun hvalid => Int.not_lt.mpr hvalid.1 (hless.mp hlt)
      rw [if_pos hlt] at ha
      exact ⟨e, 18, h.checked hregs hpending hm rfl rfl ha hout, fun hvalid => absurd hvalid hout⟩
    · rw [if_neg hlt] at ha
      refine ⟨e, 10, h.checked hregs hpending hm rfl rfl ha ?_, fun _ => ⟨rfl, rfl⟩⟩
      exact ⟨Int.not_lt.mp (mt hless.mpr hlt), hle⟩
  · rw [codeStep_eq h.eip (i := .call sysJumpTable .eax) rfl] at hstep
    obtain ⟨f, -, hf⟩ := Option.map_eq_some_iff.mp hstep
    cases hf
  · rw [codeStep_eq h.eip (i := .mov (-1#32) .eax) rfl] at hstep
    cases hstep
    exact ⟨t, 19, h.refuse hchecked hregs hpending hm ha, fun hvalid => absurd hvalid hchecked⟩
  · exact hchecked.elim

/-- The instructions behind `done`. -/
theorem Stage.restore {k : ℕ}
    (h : Stage P loc top A t d t ((savedWords top t).reverse.drop k) (SystemCall.done + k))
    (hk : k ≤ 6) (hregs : ∀ r ∈ [Reg.eax, .ebp] ++ savedRegs.reverse.take k, r ≠ .esp →
      d.regs r = t.regs r) {a : BitVec 32} {m : Machine}
    (hstep : (withCalls S hloc functions).codeStep d = some (none, .loc a, m))
    (hm : d.Becomes m d') (ha : d'.eip = a) :
    Stage P loc top A t d' t ((savedWords top t).reverse.drop (k + 1))
      (SystemCall.done + (k + 1)) := by
  rcases Nat.lt_or_eq_of_le hk with hk | rfl
  · obtain ⟨r, v, hlisting, hwords, htake, hv, hesp⟩ := exists_restored top t hk
    have hinside := h.inside
    rw [codeStep_eq h.eip hlisting] at hstep
    cases hstep
    have htop : r = .esp → v = d.regs .esp + 4#32 := by
      intro hr
      obtain ⟨rfl, rfl⟩ := hesp hr
      rw [hinside.esp, Inside.length_eq h.level]
      show top - 28#32 = top - 32#32 + 4#32
      bv_omega
    rw [hwords] at hinside
    obtain ⟨hinside', hr', hothers⟩ := hinside.pop hm htop
    refine ⟨ha, hinside', .restoring hk fun r' hr'' hne => ?_, h.level⟩
    rw [htake, ← List.append_assoc, List.mem_append, List.mem_singleton] at hr''
    by_cases heq : r' = r
    · rw [heq]
      exact (hr' (heq ▸ hne)).trans (hv (heq ▸ hne))
    · rw [hothers r' heq hne]
      exact hregs r' (hr''.resolve_right heq) hne
  · rw [codeStep_eq h.eip (i := .iret) rfl] at hstep
    cases hstep

/-- **An instruction of `systemcall`.** -/
theorem Stage.step (h : Stage P loc top A t d e ws pc) (hA : Disjoint A (below top 100))
    {a : BitVec 32} {m : Machine}
    (hstep : (withCalls S hloc functions).codeStep d = some (none, .loc a, m))
    (hm : d.Becomes m d') (ha : d'.eip = a) :
    ∃ e' ws' pc', Stage P loc top A t d' e' ws' pc' := by
  have hstage := h
  cases h.known with
  | saving hk hregs hpending => exact ⟨_, _, _, hstage.save hk hregs hpending hA hstep hm ha⟩
  | checking hchecked hregs hpending =>
    obtain ⟨e', pc', h', -⟩ := hstage.check hchecked hregs hpending hstep hm ha
    exact ⟨e', _, pc', h'⟩
  | refusing hregs =>
    rw [codeStep_eq h.eip (i := .jmp SystemCall.done) rfl] at hstep
    cases hstep
    have hd' : d'.regs = d.regs := congrArg Machine.regs hm.machine
    refine ⟨t, _, SystemCall.done + 0, ha, hstage.inside.keep hm rfl rfl, ?_, hstage.level⟩
    exact .restoring (k := 0) (Nat.zero_le 6) fun r hr _ => (congrFun hd' r).trans (hregs r hr)
  | restoring hk hregs => exact ⟨_, _, _, hstage.restore hk hregs hstep hm ha⟩

/-- `systemcall` is at the call, with the number of the function in `eax`. -/
theorem Stage.of_enters {h : Handler} {c₁ : Core} (hstage : Stage P loc top A t d e ws pc)
    (henters : (withCalls S hloc functions).Enters d h c₁) :
    pc = 10 ∧ ws = (savedWords top e).reverse ∧ dispatch (e.regs .eax) = some h ∧
      (∀ r, r ≠ .esp → d.regs r = e.regs r) ∧ Pending P e t ∧
        d.Becomes (d.toMachine.push (loc SystemCall.done)) c₁ := by
  obtain ⟨m, hstep, hm⟩ := henters
  have heip := hstage.eip
  cases hstage.known with
  | saving hk hregs =>
    obtain ⟨r, hlisting, -⟩ := exists_saved hstage.level hk hstage.inside hregs
    rw [codeStep_eq heip hlisting] at hstep
    cases hstep
  | checking hchecked hregs hpending =>
    unfold Checked at hchecked
    split at hchecked
    · rw [codeStep_eq heip (i := .cmp 10#32 .eax) rfl] at hstep
      cases hstep
    · rw [codeStep_eq heip (i := .jg SystemCall.invalid) rfl] at hstep
      cases hstep
    · rw [codeStep_eq heip (i := .cmp 1#32 .eax) rfl] at hstep
      cases hstep
    · rw [codeStep_eq heip (i := .jl SystemCall.invalid) rfl] at hstep
      cases hstep
    · rw [codeStep_eq heip (i := .call sysJumpTable .eax) rfl] at hstep
      obtain ⟨f, hslot, hf⟩ := Option.map_eq_some_iff.mp hstep
      obtain ⟨-, hindex⟩ := SystemCall.exists_handler hchecked.1 hchecked.2
      have heax : d.toMachine.regs .eax = e.regs .eax := hregs .eax (by decide)
      cases hf
      refine ⟨rfl, rfl, ?_, hregs, hpending, hm⟩
      rw [heax, hindex] at hslot
      rw [dispatch, if_pos hchecked, hslot]
    · rw [codeStep_eq heip (i := .mov (-1#32) .eax) rfl] at hstep
      cases hstep
    · exact hchecked.elim
  | refusing =>
    rw [codeStep_eq heip (i := .jmp SystemCall.done) rfl] at hstep
    cases hstep
  | @restoring k hk hregs =>
    rcases Nat.lt_or_eq_of_le hk with hk | rfl
    · obtain ⟨r, v, hlisting, -⟩ := exists_restored top t hk
      rw [codeStep_eq heip hlisting] at hstep
      cases hstep
    · rw [codeStep_eq heip (i := .iret) rfl] at hstep
      cases hstep

/-- **A function of the table** is served. -/
theorem Stage.function {h : Handler} {c₁ : Core} (hstage : Stage P loc top A t d e ws pc)
    (hA : Disjoint A (below top 100)) (hf : Core.ReturnsTo 44 (functions h))
    (henters : (withCalls S hloc functions).Enters d h c₁) (hd : functions h c₁ d') :
    ∃ t', P.Step dispatch functions A t (.served h) t' ∧ t'.cs = t.cs ∧ t'.ds = t.ds ∧
      ∃ ws', Stage P loc top A t' d' t' ws' SystemCall.done := by
  obtain ⟨-, hws, hdispatch, hregs, hpending, hm⟩ := hstage.of_enters henters
  rw [Pending, hdispatch] at hpending
  obtain ⟨hint, he⟩ := hpending
  have hlen := Inside.length_eq hstage.level (loc SystemCall.done :: ws)
  have hlen' := Inside.length_eq hstage.level ws
  have hws' : ws.length = 6 := by
    rw [hws]
    rfl
  rw [List.length_cons, hws'] at hlen
  have hinside : Inside top A e (loc SystemCall.done :: ws) c₁ :=
    hstage.inside.push hm hA (hlen ▸ Nat.le_of_ble_eq_true rfl) (by omega)
  obtain ⟨hreturned, heip⟩ := hinside.function hf hd (by rw [hlen', hws'])
  have hstack : c₁.toMachine.Stack (loc SystemCall.done :: (savedWords top e).reverse ++
      System.entryFrame e) := hws ▸ hinside.stack
  obtain ⟨h₀, h₁, h₂⟩ := Machine.Stack.arg hstack
  have hmem : Set.EqOn c₁.mem t.mem A := by
    have hinside := hinside.mem
    rwa [he] at hinside
  have heregs : e.regs = t.regs := by rw [he]
  rw [heregs] at h₀ h₁ h₂ hdispatch
  set t' : Core := { t.called e.eip (d'.regs .eax) with mem := d'.mem } with ht'
  have hinside' : Inside top A t' ws d' := by
    refine hreturned.of_frame ?_ ?_ (Set.eqOn_refl ..)
    · rw [he]
      rfl
    · rw [he]
      rfl
  refine ⟨t', .served hint hdispatch h₀ h₁ h₂ hmem hd, rfl, rfl, ws, heip, hinside', ?_, ?_⟩
  · have hwords : ws = (savedWords top t').reverse.drop 0 := by
      rw [hws, he]
      rfl
    rw [hwords]
    refine .restoring (k := 0) (Nat.zero_le 6) fun r hr _ => ?_
    rcases List.mem_pair.mp hr with rfl | rfl
    · exact (t.regs_called_self e.eip _).symm
    · have hebp : d'.regs .ebp = e.regs .ebp := by
        rw [hf.ebp _ _ hd, ← hregs .ebp (by decide)]
        exact (congrArg (fun m => m.regs .ebp) hm.machine).trans (Machine.regs_push (by decide))
      rw [hebp, heregs]
      exact (t.regs_called e.eip (d'.regs .eax) (by decide)).symm
  · have hcpl : t'.cpl = e.cpl := by
      rw [he]
      rfl
    rw [hcpl]
    exact hstage.level

variable (S hloc functions) in
/-- `systemcall` executes an instruction, calls a function, or is at `iret` with everything
restored. -/
theorem Stage.next (hstage : Stage P loc top A t d e ws pc) :
    (∃ a m, (withCalls S hloc functions).codeStep d = some (none, .loc a, m)) ∨
    (∃ h m, (withCalls S hloc functions).codeStep d = some (some (h, m), .inside h, m)) ∨
    d.eip = loc SystemCall.iret ∧ Inside top A t [] d ∧ t.cpl ≠ 0 ∧
      ∀ r, r ≠ .esp → d.regs r = t.regs r := by
  have heip := hstage.eip
  cases hstage.known with
  | saving hk hregs =>
    obtain ⟨r, hlisting, -⟩ := exists_saved hstage.level hk hstage.inside hregs
    exact .inl ⟨_, _, codeStep_eq heip hlisting⟩
  | checking hchecked hregs =>
    unfold Checked at hchecked
    split at hchecked
    · exact .inl ⟨_, _, codeStep_eq heip (i := .cmp 10#32 .eax) rfl⟩
    · exact .inl ⟨_, _, codeStep_eq heip (i := .jg SystemCall.invalid) rfl⟩
    · exact .inl ⟨_, _, codeStep_eq heip (i := .cmp 1#32 .eax) rfl⟩
    · exact .inl ⟨_, _, codeStep_eq heip (i := .jl SystemCall.invalid) rfl⟩
    · obtain ⟨⟨h, hslot⟩, hindex⟩ := SystemCall.exists_handler hchecked.1 hchecked.2
      have heax : d.toMachine.regs .eax = e.regs .eax := hregs .eax (by decide)
      refine .inr (.inl ⟨h, d.toMachine.push (loc SystemCall.done), ?_⟩)
      rw [codeStep_eq heip (i := .call sysJumpTable .eax) rfl]
      rw [Instr.exec, heax, hindex, hslot]
      rfl
    · exact .inl ⟨_, _, codeStep_eq heip (i := .mov (-1#32) .eax) rfl⟩
    · exact hchecked.elim
  | refusing => exact .inl ⟨_, _, codeStep_eq heip (i := .jmp SystemCall.done) rfl⟩
  | @restoring k hk hregs =>
    rcases Nat.lt_or_eq_of_le hk with hk | rfl
    · obtain ⟨r, v, hlisting, -⟩ := exists_restored top t hk
      exact .inl ⟨_, _, codeStep_eq heip hlisting⟩
    · refine .inr (.inr ⟨heip, hstage.inside, hstage.level, fun r hr => hregs r ?_ hr⟩)
      cases r <;> decide

/-- **The end of `systemcall`** comes back to what the program sees. -/
theorem Stage.exists_iret (hinside : Inside S.tables.esp0 A t [] d) (hlevel : t.cpl ≠ 0)
    (hregs : ∀ r, r ≠ .esp → d.regs r = t.regs r) (hdata : System.DataOk S.tables t) :
    ∃ d', d.iret S.tables.segDpl = some d' ∧ SameView A t d' :=
  System.iret_of_pos ((BitVec.pos_iff_ne_zero _).mpr hlevel) hdata hinside.cpl hinside.ds
    hinside.stack hregs hinside.mem

theorem Stage.iret (hstage : Stage P loc S.tables.esp0 A t d e ws pc)
    (hd : (withCalls S hloc functions).codeStep d = none) (hdata : System.DataOk S.tables t)
    (hiret : d.iret S.tables.segDpl = some d') : SameView A t d' := by
  rcases hstage.next S hloc functions with
    ⟨a, m, hstep⟩ | ⟨h, m, hstep⟩ | ⟨-, hinside, hlevel, hregs⟩
  · cases hd.symm.trans hstep
  · cases hd.symm.trans hstep
  · obtain ⟨d'', hd'', hview⟩ := Stage.exists_iret hinside hlevel hregs hdata
    obtain rfl := Option.some.inj (hiret.symm.trans hd'')
    exact hview

/-- **An interrupt of `systemcall`** comes back to it. -/
theorem Stage.interrupt {g : Gate} (hstage : Stage P loc S.tables.esp0 A t d e ws pc)
    (hA : Disjoint A (below S.tables.esp0 100)) (hg : S.Serves A 10 g) :
    ∃ c₀, S.tables.enter g d = some c₀ ∧ Returns S.kernelStep System.Masked
      (fun d' => Stage P loc S.tables.esp0 A t d' e ws pc) c₀ := by
  have hlen := Inside.length_eq hstage.level ws
  have hwords : ws.length ≤ 6 := by
    cases hstage.known with
    | saving hk =>
      rw [List.length_reverse, List.length_take]
      omega
    | checking => exact Nat.le_refl 6
    | refusing => exact Nat.le_refl 6
    | restoring =>
      rw [List.length_drop]
      exact Nat.sub_le 6 _
  obtain ⟨c₀, henter, hback⟩ := hstage.inside.interrupt (n := 10) (by omega) hg (by omega) hA
    (by omega)
  refine ⟨c₀, henter, hback.mono fun d' hview => ⟨hview.eip.trans hstage.eip,
    hstage.inside.congr hview, hstage.known.congr hview.regs hview.eflags, hstage.level⟩⟩

/-! ### A call comes back -/

variable (S hloc functions) in
/-- An instruction before the call of the function. -/
theorem Stage.exists_ahead {V : Set ℕ} (hstage : Stage P loc top A t d e ws pc) (hpc : pc < 10)
    (hA : Disjoint A (below top 100))
    (hvalid : 1 ≤ (e.regs .eax).toInt ∧ (e.regs .eax).toInt ≤ 10) :
    ∃ d' ws', (withCalls S hloc functions).Step P V d .kernel d' ∧
      Stage P loc top A t d' e ws' (pc + 1) := by
  rcases hstage.next S hloc functions with ⟨a, m, hstep⟩ | ⟨h, m, hstep⟩ | ⟨heip, -⟩
  · obtain ⟨d', hm, ha⟩ := d.exists_becomes m a
    have hcode : (withCalls S hloc functions).Step P V d .kernel d' :=
      .code hstage.inside.cpl hstep hm ha
    have hstage' := hstage
    cases hstage.known with
    | saving hk hregs hpending =>
      exact ⟨d', _, hcode, hstage'.save hk hregs hpending hA hstep hm ha⟩
    | checking hchecked hregs hpending =>
      obtain ⟨e', pc', hnext, hahead⟩ := hstage'.check hchecked hregs hpending hstep hm ha
      obtain ⟨rfl, rfl⟩ := hahead hvalid
      exact ⟨d', _, hcode, hnext⟩
    | refusing => exact absurd hpc (by decide)
    | restoring => exact absurd hpc (by rw [SystemCall.done]; omega)
  · obtain ⟨c₁, hm, -⟩ := d.exists_becomes m 0#32
    obtain ⟨rfl, -⟩ := hstage.of_enters ⟨m, hstep, hm⟩
    exact absurd hpc (Nat.lt_irrefl 10)
  · obtain rfl : pc = SystemCall.iret :=
      hloc hstage.lt (Nat.le_of_ble_eq_true rfl) (hstage.eip.symm.trans heip)
    exact absurd hpc (by decide)

variable (S hloc functions) in
/-- A valid call comes to its function. -/
theorem Stage.exists_enters {V : Set ℕ} {n : ℕ} (hstage : Stage P loc top A t d e ws pc)
    (hpc : pc + n = 10) (hA : Disjoint A (below top 100))
    (hvalid : 1 ≤ (e.regs .eax).toInt ∧ (e.regs .eax).toInt ≤ 10) :
    ∃ d' ws', Run ((withCalls S hloc functions).Step P V) d (List.replicate n .kernel) d' ∧
      Stage P loc top A t d' e ws' 10 ∧
        ∃ h c₁, (withCalls S hloc functions).Enters d' h c₁ := by
  induction n generalizing d ws pc with
  | zero =>
    obtain rfl : pc = 10 := hpc
    refine ⟨d, ws, .nil _, hstage, ?_⟩
    have heip := hstage.eip
    generalize hten : 10 = pc at hstage heip
    cases hstage.known with
    | saving hk => omega
    | checking _ hregs =>
      subst hten
      obtain ⟨⟨h, hslot⟩, hindex⟩ := SystemCall.exists_handler hvalid.1 hvalid.2
      have heax : d.toMachine.regs .eax = e.regs .eax := hregs .eax (by decide)
      obtain ⟨c₁, hm, -⟩ := d.exists_becomes (d.toMachine.push (loc SystemCall.done)) 0#32
      refine ⟨h, c₁, _, ?_, hm⟩
      rw [codeStep_eq heip (i := .call sysJumpTable .eax) rfl, Instr.exec, heax, hindex, hslot]
      rfl
    | refusing => cases hten
    | restoring =>
      rw [SystemCall.done] at hten
      omega
  | succ n ih =>
    obtain ⟨d₁, ws₁, hstep, hstage₁⟩ := hstage.exists_ahead S hloc functions (V := V) (by omega)
      hA hvalid
    obtain ⟨d', ws', hrun, hend⟩ := ih hstage₁ (by omega)
    exact ⟨d', ws', .cons hstep hrun, hend⟩

/-- From `done` to `iret`, the registers that have been popped are those of the program. -/
theorem Stage.restored (hstage : Stage P loc top A t d e ws pc) (hdone : SystemCall.done ≤ pc)
    (hiret : pc ≤ SystemCall.iret) : ∃ k ≤ 6, pc = SystemCall.done + k ∧ e = t ∧
      ws = (savedWords top t).reverse.drop k ∧
        ∀ r ∈ [Reg.eax, .ebp] ++ savedRegs.reverse.take k, r ≠ .esp → d.regs r = t.regs r := by
  cases hstage.known with
  | saving hk =>
    rw [SystemCall.done] at hdone
    omega
  | checking hchecked =>
    unfold Checked at hchecked
    split at hchecked
    all_goals first
      | exact hchecked.elim
      | exact absurd hdone (by decide)
      | exact absurd hiret (by decide)
  | refusing => exact absurd hiret (by decide)
  | restoring hk hregs => exact ⟨_, hk, rfl, rfl, rfl, hregs⟩

variable (hloc functions) in
/-- The instructions behind `done` come back to the program. -/
theorem Stage.exists_back {V : Set ℕ} {n : ℕ} (hstage : Stage P loc S.tables.esp0 A t d e ws pc)
    (hpc : pc + n = SystemCall.iret) (hdone : SystemCall.done ≤ pc)
    (hdata : System.DataOk S.tables t) :
    ∃ d', Run ((withCalls S hloc functions).Step P V) d (List.replicate (n + 1) .kernel) d' ∧
      SameView A t d' := by
  induction n generalizing d e ws pc with
  | zero =>
    obtain ⟨k, -, rfl, rfl, rfl, hregs⟩ := hstage.restored hdone hpc.le
    obtain rfl : k = 6 := Nat.add_left_cancel (hpc : SystemCall.done + k = SystemCall.done + 6)
    obtain ⟨d', hiret, hview⟩ := Stage.exists_iret hstage.inside hstage.level
      (fun r hr => hregs r (by cases r <;> decide) hr) hdata
    exact ⟨d', .single (.iret hstage.inside.cpl hstage.eip rfl hiret), hview⟩
  | succ n ih =>
    obtain ⟨k, hk, rfl, rfl, rfl, hregs⟩ := hstage.restored hdone (hpc ▸ Nat.le_add_right ..)
    have hk' : k < 6 := by
      rw [SystemCall.done, SystemCall.iret] at hpc
      omega
    obtain ⟨r, v, hlisting, -⟩ := exists_restored S.tables.esp0 e hk'
    have hstep : (withCalls S hloc functions).codeStep d = _ := codeStep_eq hstage.eip hlisting
    obtain ⟨d₁, hm, ha⟩ := d.exists_becomes (d.toMachine.pop r) (loc (SystemCall.done + k + 1))
    obtain ⟨d', hrun, hview⟩ := ih (hstage.restore hk hregs hstep hm ha) (by omega) (by omega)
    exact ⟨d', .cons (.code hstage.inside.cpl hstep hm ha) hrun, hview⟩

end Instructions

/-! ### Runs -/

/-- The code stands at its addresses, and the functions that it calls follow the calling convention
and leave the memory `A` and the stack of level 0 alone. -/
structure CallLinked (l : Link) (S : System IrqHandler) (loc : ℕ → BitVec 32)
    (functions : Handler → Core → Core → Prop) (A : Set (Ptr Unit)) : Prop where
  keyboard : S.Placed (l.address .keyboardIrqWrap) keyboardIrqWrap
  rtc : S.Placed (l.address .rtcIrqWrap) rtcIrqWrap
  systemcall : loc 0 = l.address .systemcall
  apart : ∀ i < SystemCall.listing.length, S.fetch (loc i) = none
  keepsFrame : ∀ h, ∀ k ≤ 10,
    Core.KeepsFrame (56 + 4 * k) (S.tables.esp0 - BitVec.ofNat 32 (60 + 4 * k)) A (l.impl h)
  returns : ∀ h, Core.ReturnsTo 44 (functions h)

/-- The processor shows the program the state `t`, or is on the way to it: in `systemcall`, or in a
wrapper. -/
structure Serving (S : System IrqHandler) (P : Program) (loc : ℕ → BitVec 32)
    (A : Set (Ptr Unit)) (c t : Core) : Prop where
  level : t.cpl ≠ 0
  data : System.DataOk S.tables t
  back : Returns S.kernelStep System.Masked
    (fun d => SameView A t d ∨ ∃ e ws pc, Stage P loc S.tables.esp0 A t d e ws pc) c

section Runs

variable {l : Link} {ss0 : BitVec 16} {esp0 : BitVec 32} {loc : ℕ → BitVec 32}
  {hloc : Set.InjOn loc (Set.Iio SystemCall.listing.length)}
  {functions : Handler → Core → Core → Prop} {P : Program} {A : Set (Ptr Unit)} {c c' t : Core}

theorem serves (hl : CallLinked l (irqSystem l ss0 esp0) loc functions A) {v : ℕ}
    (hv : v ∈ irqVectors) : ∃ g, (∀ c, (irqSystem l ss0 esp0).tables.select false v c = .ok g) ∧
      (irqSystem l ss0 esp0).Serves A 10 g := by
  have hlevel := segDpl_of_flat l ss0 esp0 (List.mem_cons_self ..)
  rcases hv with rfl | rfl
  · exact ⟨gateOf l.address .keyboardIrqWrap,
      select_of_some _ _ _ _ _ _ rfl (Nat.le_of_ble_eq_true rfl) false,
      hlevel, rfl, .handleKeyboardIrq, hl.keyboard, hl.keepsFrame _⟩
  · exact ⟨gateOf l.address .rtcIrqWrap,
      select_of_some _ _ _ _ _ _ rfl (Nat.le_of_ble_eq_true rfl) false,
      hlevel, rfl, .rtcInterruptHandler, hl.rtc, hl.keepsFrame _⟩

/-- The gate of the system calls may be used by user programs. -/
theorem select_systemCall (l : Link) (ss0 : BitVec 16) (esp0 : BitVec 32) (c : Core) :
    (irqSystem l ss0 esp0).tables.select true systemCall c =
      .ok (gateOf l.address .systemcall) := by
  have hsize : systemCall < idtSize := Nat.le_of_ble_eq_true rfl
  have hle : c.cpl ≤ 3#2 := BitVec.le_def.mpr (Nat.le_of_lt_succ c.cpl.isLt)
  exact (select_of_some l.address l.idt l.tss l.ldt ss0 esp0 rfl hsize true c).trans
    (if_neg fun h => BitVec.not_lt.mpr hle h.2)

/-- The instruction `int` enters `systemcall`. -/
theorem entered_systemcall (hl : CallLinked l (irqSystem l ss0 esp0) loc functions A)
    (hA : Disjoint A (below esp0 100)) {next : BitVec 32} (hlevel : t.cpl ≠ 0)
    (hview : SameView A t c) (hint : P.int t = some next) :
    ∃ c₀, (irqSystem l ss0 esp0).tables.enter (gateOf l.address .systemcall)
        { c with eip := next } = some c₀ ∧
      ∃ t', P.Advances dispatch functions A t ((CallAction.int (t.regs .eax)).own dispatch) t' ∧
        t'.cs = t.cs ∧ t'.ds = t.ds ∧
        ∃ e, e.regs = t.regs ∧
          Stage P loc esp0 A t' c₀ e ((savedWords esp0 e).take 0).reverse 0 := by
  have hlevel' : ({ c with eip := next } : Core).cpl ≠ 0 := by
    have hcpl : c.cpl = t.cpl := congrArg rpl hview.cs
    rwa [← hcpl] at hlevel
  have hesp := System.esp_onStack (irqSystem l ss0 esp0).tables
    ((BitVec.pos_iff_ne_zero _).mpr hlevel')
  obtain ⟨c₀, henter, h⟩ := System.entered (irqSystem l ss0 esp0).tables (A := A)
    (g := gateOf l.address .systemcall) (c := { c with eip := next })
    (segDpl_of_flat l ss0 esp0 (List.mem_cons_self ..))
    (hesp ▸ hA.mono_right (below_mono (Nat.le_of_ble_eq_true rfl)))
  refine ⟨c₀, henter, ?_⟩
  set e : Core := { t with eip := next } with he
  have hframe : System.entryFrame e = System.entryFrame { c with eip := next } := by
    simp only [he, System.entryFrame, Core.entryWords, Core.cpl, hview.regs, hview.cs, hview.ss,
      hview.eflags]
  have hinside : Inside esp0 A e [] c₀ :=
    (Inside.of_entered h hlevel').of_frame hframe hview.ds.symm (h.mem.trans hview.mem)
  have hregs (r : Reg) (hr : r ≠ .esp) : c₀.regs r = e.regs r :=
    (h.regs r hr).trans (congrFun hview.regs r)
  have hstage {t' : Core} (hpending : Pending P e t') :
      Stage P loc esp0 A t' c₀ e ((savedWords esp0 e).take 0).reverse 0 :=
    ⟨h.eip.trans hl.systemcall.symm, hinside, .saving (Nat.succ_pos 5) hregs hpending, hlevel⟩
  cases hdispatch : dispatch (t.regs .eax) with
  | none =>
    refine ⟨t.called next (-1#32), ?_, rfl, rfl, e, rfl, hstage ?_⟩
    · rw [CallAction.own, hdispatch]
      exact .refused hint hdispatch
    · rw [Pending, hdispatch]
      rfl
  | some f =>
    refine ⟨t, ?_, rfl, rfl, e, rfl, hstage ?_⟩
    · rw [CallAction.own, hdispatch]
      rfl
    · rw [Pending, hdispatch]
      exact ⟨hint, rfl⟩

theorem Serving.of_stage {S : System IrqHandler} {t' d e : Core} {ws : List (BitVec 32)} {pc : ℕ}
    (h : Serving S P loc A c t) (hcs : t'.cs = t.cs) (hds : t'.ds = t.ds)
    (hstage : Stage P loc S.tables.esp0 A t' d e ws pc) : Serving S P loc A d t' where
  level := by
    rw [Core.cpl, hcs]
    exact h.level
  data := h.data.congr hcs hds
  back := .back (.inr ⟨e, ws, pc, hstage⟩)

/-- **A step while the program is shown.** -/
theorem Serving.step_of_view (hl : CallLinked l (irqSystem l ss0 esp0) loc functions A)
    (hA : Disjoint A (below esp0 100)) (hP : P.Confined A) {a : CallAction Handler}
    (h : Serving (irqSystem l ss0 esp0) P loc A c t) (hview : SameView A t c)
    (hstep : (withCalls (irqSystem l ss0 esp0) hloc functions).Step P irqVectors c a c') :
    ∃ t', P.Advances dispatch functions A t (a.own dispatch) t' ∧
      Serving (irqSystem l ss0 esp0) P loc A c' t' := by
  have hcpl : c.cpl ≠ 0 := by
    have hcpl : c.cpl = t.cpl := congrArg rpl hview.cs
    rw [hcpl]
    exact h.level
  cases hstep with
  | program _ hprogram =>
    obtain ⟨t', ht', hview'⟩ := hP.step.view c t c' hprogram hview.symm
    have hcs := hP.step.cs t t' ht'
    refine ⟨t', .program ht', ?_, h.data.congr hcs (hP.step.ds t t' ht'), .back (.inl hview'.symm)⟩
    rw [Core.cpl, hcs]
    exact h.level
  | int _ hint hselect henter =>
    have hgate := hselect.symm.trans (select_systemCall l ss0 esp0 c)
    obtain rfl := Except.ok.inj hgate
    rw [← hP.int c t hview.symm] at hint
    obtain ⟨c₀, henter₀, t', ht', hcs, hds, e, -, hstage⟩ :=
      entered_systemcall (P := P) hl hA h.level hview hint
    obtain rfl := Option.some.inj (henter.symm.trans henter₀)
    rw [hview.regs]
    exact ⟨t', ht', h.of_stage hcs hds hstage⟩
  | wrapper hc => exact absurd hc hcpl
  | code hc => exact absurd hc hcpl
  | iret hc => exact absurd hc hcpl
  | function hc => exact absurd hc hcpl
  | interrupt hflag hv hselect henter =>
    obtain ⟨g, hselect', hg⟩ := serves hl hv
    obtain rfl := Except.ok.inj ((hselect' c).symm.trans hselect)
    obtain ⟨c₀, henter₀, hback⟩ := hg.handles.returns h.level h.data hview
      (hA.mono_right (below_mono (Nat.le_of_ble_eq_true rfl)))
    obtain rfl := Option.some.inj (henter.symm.trans henter₀)
    exact ⟨t, rfl, h.level, h.data, hback.mono fun d hd => .inl hd⟩

/-- **A step in `systemcall`.** -/
theorem Serving.step_of_stage (hl : CallLinked l (irqSystem l ss0 esp0) loc functions A)
    (hA : Disjoint A (below esp0 100)) {a : CallAction Handler}
    (h : Serving (irqSystem l ss0 esp0) P loc A c t) {e : Core} {ws : List (BitVec 32)} {pc : ℕ}
    (hstage : Stage P loc esp0 A t c e ws pc)
    (hstep : (withCalls (irqSystem l ss0 esp0) hloc functions).Step P irqVectors c a c') :
    ∃ t', P.Advances dispatch functions A t (a.own dispatch) t' ∧
      Serving (irqSystem l ss0 esp0) P loc A c' t' := by
  have hcpl : c.cpl = 0 := hstage.inside.cpl
  cases hstep with
  | program hc => exact absurd hcpl hc
  | int hc => exact absurd hcpl hc
  | wrapper _ hkernel =>
    have hpc := hstage.lt
    have hnone := hl.apart pc hpc
    rw [← hstage.eip] at hnone
    cases (System.kernelStep_of_none hnone).symm.trans hkernel
  | code _ hcode hm ha =>
    obtain ⟨e', ws', pc', hstage'⟩ := hstage.step hA hcode hm ha
    exact ⟨t, rfl, h.of_stage rfl rfl hstage'⟩
  | iret _ hi hlisting hiret =>
    have hnone : (withCalls (irqSystem l ss0 esp0) hloc functions).codeStep c = none :=
      codeStep_eq hi hlisting
    exact ⟨t, rfl, h.level, h.data, .back (.inl (hstage.iret hnone h.data hiret))⟩
  | function _ henters hf =>
    obtain ⟨t', ht', hcs, hds, ws', hstage'⟩ :=
      hstage.function hA (hl.returns _) henters hf
    exact ⟨t', ht', h.of_stage hcs hds hstage'⟩
  | interrupt hflag hv hselect henter =>
    obtain ⟨g, hselect', hg⟩ := serves hl hv
    obtain rfl := Except.ok.inj ((hselect' c).symm.trans hselect)
    obtain ⟨c₀, henter₀, hback⟩ := Stage.interrupt (S := irqSystem l ss0 esp0) hstage hA hg
    obtain rfl := Option.some.inj (henter.symm.trans henter₀)
    exact ⟨t, rfl, h.level, h.data, hback.mono fun d hd => .inr ⟨e, ws, pc, hd⟩⟩

/-- **A step of the processor** is one that the program sees, or none. -/
theorem Serving.step (hl : CallLinked l (irqSystem l ss0 esp0) loc functions A)
    (hA : Disjoint A (below esp0 100)) (hP : P.Confined A) {a : CallAction Handler}
    (h : Serving (irqSystem l ss0 esp0) P loc A c t)
    (hstep : (withCalls (irqSystem l ss0 esp0) hloc functions).Step P irqVectors c a c') :
    ∃ t', P.Advances dispatch functions A t (a.own dispatch) t' ∧
      Serving (irqSystem l ss0 esp0) P loc A c' t' := by
  cases h.back with
  | back hback =>
    rcases hback with hview | ⟨e, ws, pc, hstage⟩
    · exact h.step_of_view hl hA hP hview hstep
    · exact h.step_of_stage hl hA hstage hstep
  | step hmasked hkernel hback =>
    -- The wrapper is masked, and its instructions are not those of `systemcall`.
    have hnot {i : ℕ} (hi : i < SystemCall.listing.length) (heip : c.eip = loc i) : False := by
      have hnone := hl.apart i hi
      rw [← heip] at hnone
      cases (System.kernelStep_of_none hnone).symm.trans hkernel
    cases hstep with
    | program hc => exact absurd hmasked.1 hc
    | int hc => exact absurd hmasked.1 hc
    | wrapper _ hkernel' =>
      obtain rfl := Option.some.inj (hkernel.symm.trans hkernel')
      exact ⟨t, rfl, h.level, h.data, hback⟩
    | code _ hcode =>
      obtain ⟨i, hi, heip⟩ := Kernel.exists_loc hcode
      exact (hnot hi heip).elim
    | iret _ heip hlisting =>
      exact (hnot (List.getElem?_eq_some_iff.mp hlisting).1 heip).elim
    | function _ henters =>
      obtain ⟨m, hcode, -⟩ := henters
      obtain ⟨i, hi, heip⟩ := Kernel.exists_loc hcode
      exact (hnot hi heip).elim
    | interrupt hflag =>
      rw [hmasked.2] at hflag
      cases hflag

/-- **The processor goes on**: at level 0 with an instruction or into a function, and with an
interrupt or a call whenever it may. -/
theorem Serving.goes_on (hl : CallLinked l (irqSystem l ss0 esp0) loc functions A)
    (hA : Disjoint A (below esp0 100)) (hP : P.Confined A)
    (h : Serving (irqSystem l ss0 esp0) P loc A c t) :
    (c.cpl = 0 →
      (∃ c', (withCalls (irqSystem l ss0 esp0) hloc functions).Step P irqVectors c .kernel c') ∨
        ∃ f c₁, (withCalls (irqSystem l ss0 esp0) hloc functions).Enters c f c₁) ∧
    (c.cpl ≠ 0 → ∀ next, P.int c = some next → ∃ c',
      (withCalls (irqSystem l ss0 esp0) hloc functions).Step P irqVectors c
        (.int (c.regs .eax)) c') ∧
    (c.interruptFlag = true → ∀ v ∈ irqVectors, ∃ c',
      (withCalls (irqSystem l ss0 esp0) hloc functions).Step P irqVectors c (.interrupt v) c') := by
  cases h.back with
  | step hmasked hkernel =>
    refine ⟨fun hc => .inl ⟨_, .wrapper hc hkernel⟩, fun hc => absurd hmasked.1 hc, fun hflag => ?_⟩
    rw [hmasked.2] at hflag
    cases hflag
  | back hback =>
    rcases hback with hview | ⟨e, ws, pc, hstage⟩
    · have hcpl : c.cpl ≠ 0 := by
        have hcpl : c.cpl = t.cpl := congrArg rpl hview.cs
        rw [hcpl]
        exact h.level
      refine ⟨fun hc => absurd hc hcpl, fun _ next hint => ?_, fun hflag v hv => ?_⟩
      · have hint' := hint
        rw [← hP.int c t hview.symm] at hint'
        obtain ⟨c₀, henter, -⟩ := entered_systemcall (P := P) hl hA h.level hview hint'
        exact ⟨c₀, .int hcpl hint (select_systemCall l ss0 esp0 c) henter⟩
      · obtain ⟨g, hselect, hg⟩ := serves hl hv
        obtain ⟨c₀, henter, -⟩ := hg.handles.returns h.level h.data hview
          (hA.mono_right (below_mono (Nat.le_of_ble_eq_true rfl)))
        exact ⟨c₀, .interrupt hflag hv (hselect c) henter⟩
    · have hcpl : c.cpl = 0 := hstage.inside.cpl
      refine ⟨fun _ => ?_, fun hc => absurd hcpl hc, fun hflag v hv => ?_⟩
      · rcases hstage.next (irqSystem l ss0 esp0) hloc functions with
          ⟨a, m, hcode⟩ | ⟨f, m, hcode⟩ | ⟨heip, hinside, hlevel, hregs⟩
        · obtain ⟨c', hm, ha⟩ := c.exists_becomes m a
          exact .inl ⟨c', .code hcpl hcode hm ha⟩
        · obtain ⟨c₁, hm, -⟩ := c.exists_becomes m 0#32
          exact .inr ⟨f, c₁, m, hcode, hm⟩
        · obtain ⟨c', hiret, -⟩ :=
            Stage.exists_iret (S := irqSystem l ss0 esp0) hinside hlevel hregs h.data
          exact .inl ⟨c', .iret hcpl heip rfl hiret⟩
      · obtain ⟨g, hselect, hg⟩ := serves hl hv
        obtain ⟨c₀, henter, -⟩ := Stage.interrupt (S := irqSystem l ss0 esp0) hstage hA hg
        exact ⟨c₀, .interrupt hflag hv (hselect c) henter⟩

variable (hloc) in
/-- **A call whose function returns** comes back to the program. -/
theorem exists_run_call (hl : CallLinked l (irqSystem l ss0 esp0) loc functions A)
    (hA : Disjoint A (below esp0 100)) (hP : P.Confined A) (hlevel : t.cpl ≠ 0)
    (hdata : System.DataOk (irqSystem l ss0 esp0).tables t) (hview : SameView A t c)
    {next : BitVec 32} (hint : P.int t = some next)
    (hvalid : 1 ≤ (t.regs .eax).toInt ∧ (t.regs .eax).toInt ≤ 10)
    (htotal : ∀ h c₁, ∃ c₂, functions h c₁ c₂) : ∃ h c' t',
      P.Step dispatch functions A t (.served h) t' ∧ SameView A t' c' ∧
        Run ((withCalls (irqSystem l ss0 esp0) hloc functions).Step P irqVectors) c
          (.int (c.regs .eax) :: (List.replicate 10 .kernel ++
            .function h :: List.replicate 7 .kernel)) c' := by
  have hcpl : c.cpl ≠ 0 := by
    have hcpl : c.cpl = t.cpl := congrArg rpl hview.cs
    rwa [← hcpl] at hlevel
  obtain ⟨c₀, henter, t₀, ht₀, -, -, e, he, hstage⟩ :=
    entered_systemcall (P := P) hl hA hlevel hview hint
  have hown : (CallAction.int (t.regs .eax)).own dispatch = none :=
    if_neg fun hnone => dispatch_eq_none_iff.mp (Option.isNone_iff_eq_none.mp hnone) hvalid
  rw [hown] at ht₀
  obtain rfl : t₀ = t := ht₀
  obtain ⟨c₁, ws, hrun, hstage₁, h, c₂, henters⟩ :=
    hstage.exists_enters (irqSystem l ss0 esp0) hloc functions (V := irqVectors) (n := 10) rfl hA
      (he ▸ hvalid)
  obtain ⟨c₃, hf⟩ := htotal h c₂
  obtain ⟨t', ht', hcs, hds, ws', hstage₃⟩ := hstage₁.function hA (hl.returns h) henters hf
  obtain ⟨c', hback, hview'⟩ := hstage₃.exists_back (S := irqSystem l ss0 esp0) hloc functions
    (V := irqVectors) (n := 6) rfl le_rfl (hdata.congr hcs hds)
  have hint' : P.int c = some next := (hP.int c t₀ hview.symm).symm.trans hint
  refine ⟨h, c', t', ht', hview', .cons (.int hcpl hint' (select_systemCall ..) henter) ?_⟩
  exact hrun.append (.cons (.function hstage₁.inside.cpl henters hf) hback)

/-- A run of the processor is one that the program sees. -/
theorem Serving.run (hl : CallLinked l (irqSystem l ss0 esp0) loc functions A)
    (hA : Disjoint A (below esp0 100)) (hP : P.Confined A) {as : List (CallAction Handler)}
    (h : Serving (irqSystem l ss0 esp0) P loc A c t)
    (hrun : Run ((withCalls (irqSystem l ss0 esp0) hloc functions).Step P irqVectors) c as c') :
    ∃ t', Run (P.Step dispatch functions A) t (as.filterMap (·.own dispatch)) t' ∧
      Serving (irqSystem l ss0 esp0) P loc A c' t' := by
  refine hrun.simulates (fun c a c' t b h hstep hb => ?_) (fun c a c' t h hstep ha => ?_) h
  · obtain ⟨t', ht', h'⟩ := h.step hl hA hP hstep
    rw [hb] at ht'
    exact ⟨t', ht', h'⟩
  · obtain ⟨t', ht', h'⟩ := h.step hl hA hP hstep
    rw [ha] at ht'
    exact ht' ▸ h'

end Runs

/-- **System calls are atomic, and interrupts invisible, to user programs.** In every reachable
state of the kernel, the user program runs with interrupts between any two instructions, its own and
those of `systemcall`. What it executes is a run of the program alone in which each call is one
step. In user mode the processor shows it the state of this run, and the processor goes on. -/
theorem Reachable.calls_atomic {wild : Wild} {ptAddr : BitVec 32} {s : KState} {l : Link}
    {loc : ℕ → BitVec 32} {functions : Handler → Core → Core → Prop} {P : Program} {u c : Core}
    {as : List (CallAction Handler)} (hw : Benign wild) (h : Reachable wild ptAddr s)
    (ss0 : BitVec 16) (hloc : Set.InjOn loc (Set.Iio SystemCall.listing.length))
    (hl : CallLinked l (irqSystem l ss0 s.procs.tssEsp0) loc functions userPage)
    (hP : P.Confined userPage) (hu : InUserMode u)
    (hrun : Run ((withCalls (irqSystem l ss0 s.procs.tssEsp0) hloc functions).Step P irqVectors)
      u as c) :
    (∃ u', Run (P.Step dispatch functions userPage) u (as.filterMap (·.own dispatch)) u' ∧
      (c.cpl ≠ 0 → SameView userPage u' c)) ∧
    (c.cpl = 0 → (∃ c', (withCalls (irqSystem l ss0 s.procs.tssEsp0) hloc functions).Step P
        irqVectors c .kernel c') ∨
      ∃ f c₁, (withCalls (irqSystem l ss0 s.procs.tssEsp0) hloc functions).Enters c f c₁) ∧
    (c.cpl ≠ 0 → ∀ next, P.int c = some next →
      ∃ c', (withCalls (irqSystem l ss0 s.procs.tssEsp0) hloc functions).Step P irqVectors c
        (.int (c.regs .eax)) c') ∧
    (c.interruptFlag = true → ∀ v ∈ irqVectors,
      ∃ c', (withCalls (irqSystem l ss0 s.procs.tssEsp0) hloc functions).Step P irqVectors c
        (.interrupt v) c') := by
  obtain ⟨n, hchain⟩ := h.exists_chain hw
  have hA := disjoint_userPage hchain
  have hlevel : u.cpl ≠ 0 := by
    rw [hu.cpl]
    decide
  have hstart : Serving (irqSystem l ss0 s.procs.tssEsp0) P loc userPage u u :=
    ⟨hlevel, hu.dataOk .., .back (.inl (.refl ..))⟩
  obtain ⟨u', hrun', hserving⟩ := hstart.run hl hA hP hrun
  refine ⟨⟨u', hrun', fun hc => ?_⟩, hserving.goes_on hl hA hP⟩
  cases hserving.back with
  | step hmasked => exact absurd hmasked.1 hc
  | back hback =>
    rcases hback with hview | ⟨e, ws, pc, hstage⟩
    · exact hview
    · exact absurd hstage.inside.cpl hc

/-! ### A program that calls `vidmap` -/

/-- The program `movl $8, %eax; int $0x80` at `0x8048000`. -/
def sampleProgram : Program where
  step c c' := c.eip = 0x8048000#32 ∧ c' = c.called 0x8048005#32 8#32
  int c := if c.eip = 0x8048005#32 then some 0x8048007#32 else none

theorem confined_sampleProgram (A : Set (Ptr Unit)) : sampleProgram.Confined A where
  step.cs c c' h := by rw [h.2]; rfl
  step.ds c c' h := by rw [h.2]; rfl
  step.view := by
    rintro c d c' ⟨heip, rfl⟩ ⟨hregs, heip', hcs, hss, hds, heflags, hmem⟩
    refine ⟨_, ⟨heip'.trans heip, rfl⟩, ?_, rfl, hcs, hss, hds, heflags, hmem⟩
    rw [Core.called, Core.called, hregs]
  int c d h := by
    show (if d.eip = _ then _ else _) = if c.eip = _ then _ else _
    rw [h.eip]

/-- A function that returns zero. -/
def sampleHandler (_ : Handler) (c c' : Core) : Prop := c' = sampleFunction c

theorem returnsTo_sampleHandler (h : Handler) : Core.ReturnsTo 44 (sampleHandler h) where
  eip c c' h := by rw [h]; rfl
  esp c c' h := by rw [h]; rfl
  ebp c c' h := by rw [h]; rfl
  cs c c' h := by rw [h]; rfl
  ds c c' h := by rw [h]; rfl
  frame c c' h := by
    rw [h]
    exact Set.eqOn_refl ..

theorem callLinked_sampleLink (ss0 : BitVec 16) (esp0 : BitVec 32) (A : Set (Ptr Unit)) :
    CallLinked sampleLink (irqSystem sampleLink ss0 esp0) sampleLoc sampleHandler A where
  keyboard := (linked_sampleLink ss0 esp0 esp0 A).keyboard
  rtc := (linked_sampleLink ss0 esp0 esp0 A).rtc
  systemcall := rfl
  apart i hi := by
    have hlen : SystemCall.listing.length = 20 := rfl
    rw [hlen] at hi
    interval_cases i <;> rfl
  keepsFrame _ _ _ := keepsFrame_sampleFunction ..
  returns := returnsTo_sampleHandler

theorem calls_atomic_sample : ∃ s c u' as, Reachable sampleWild 0x401000#32 s ∧
    .interrupt itrRtc ∈ as ∧ .function .vidmap ∈ as ∧
    Run ((withCalls (irqSystem sampleLink 0x18#16 s.procs.tssEsp0) injOn_sampleLoc
        sampleHandler).Step sampleProgram irqVectors)
      (sampleCore userCS userDS 0x8048000#32 0x83FFFFC#32) as c ∧
    Run (sampleProgram.Step dispatch sampleHandler userPage)
      (sampleCore userCS userDS 0x8048000#32 0x83FFFFC#32) [.program, .served .vidmap] u' ∧
    c.cpl ≠ 0 ∧ SameView userPage u' c := by
  obtain ⟨s, h, -⟩ := exists_reachable_sample
  obtain ⟨n, hchain⟩ := h.exists_chain benign_sampleWild
  have hA := disjoint_userPage hchain
  have hl := callLinked_sampleLink 0x18#16 s.procs.tssEsp0 userPage
  have hP := confined_sampleProgram userPage
  set u := sampleCore userCS userDS 0x8048000#32 0x83FFFFC#32
  set u₁ := u.called 0x8048005#32 8#32
  have hlevel : u₁.cpl ≠ 0 := by decide
  have hmode : InUserMode u₁ := ⟨rfl, rfl⟩
  have hdata := hmode.dataOk sampleLink 0x18#16 s.procs.tssEsp0
  -- The clock interrupts the program between its two instructions.
  obtain ⟨g, hselect, hg⟩ := serves hl (v := itrRtc) (.inr rfl)
  obtain ⟨c₀, henter, hback⟩ := hg.handles.returns hlevel hdata (.refl ..)
    (hA.mono_right (below_mono (Nat.le_of_ble_eq_true rfl)))
  obtain ⟨m, c₁, hwrapper, hview⟩ := Kernel.exists_run_of_returns (P := sampleProgram)
    (K := withCalls (irqSystem sampleLink 0x18#16 s.procs.tssEsp0) injOn_sampleLoc sampleHandler)
    (V := irqVectors) hback
  obtain ⟨f, c, t, hserved, hview', hcall⟩ := exists_run_call injOn_sampleLoc hl hA hP
    hlevel hdata hview rfl (by decide) fun _ _ => ⟨_, rfl⟩
  have hrun := Run.cons (.program (by decide) ⟨rfl, rfl⟩)
    (Run.cons (.interrupt (by decide) (.inr rfl) (hselect u₁) henter) (hwrapper.append hcall))
  obtain ⟨⟨u', hrun', hatomic⟩, -⟩ := h.calls_atomic benign_sampleWild 0x18#16 injOn_sampleLoc hl hP
    ⟨rfl, rfl⟩ hrun
  have heax : c₁.regs .eax = 8#32 := congrFun hview.regs .eax
  have hvidmap : dispatch 8#32 = some .vidmap := rfl
  simp only [List.filterMap_cons, List.filterMap_append, List.filterMap_replicate_of_none,
    CallAction.own, heax, hvidmap, Option.isNone_some, Bool.false_eq_true, if_false,
    List.nil_append] at hrun'
  cases hserved with
  | served _ hf =>
    obtain rfl : f = .vidmap := Option.some.inj (hf.symm.trans hvidmap)
    have hcpl : c.cpl ≠ 0 := by
      rw [Core.cpl, hview'.cs]
      exact hlevel
    exact ⟨s, c, u', _, h, by simp, by simp, hrun, hrun', hcpl, hatomic hcpl⟩

end Mp3Kernel
