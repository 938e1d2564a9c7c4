import Mp3Kernel.Machine.X86

/-!
# The linkage of the system calls

`systemcall` saves the registers of the process on the kernel stack, where they are also the
arguments of the handler, calls the handler through a table, and restores the registers. The stack
pointer is among the registers saved: `pushl %esp` stores the value before the push, which is the
address of the word behind it, and `popl %esp` sets the stack pointer to this value.

## Main definitions

* `Handler`, `sysJumpTable`, `SystemCall.listing`, `systemcall`: the code.
* `SystemCall.Saved`: the registers are saved on the stack.
* `SystemCall.Restores`, `SystemCall.Links`: what a run from the entry to `iret` should do.

## Main results

* `SystemCall.run_checks`: the way to the call, and to the exit without it.
* `SystemCall.Saved.restores`: the way from the exit to `iret`.
* `systemcall_linkage`: every complete run from the entry does what it should.

Source: `syscall.S`.
-/

namespace Mp3Kernel

open X86 Transition

/-- The functions in `sysJumpTable`. -/
inductive Handler
  | halt
  | execute
  | read
  | write
  | «open»
  | close
  | getargs
  | vidmap
  | setHandler
  | sigreturn
  deriving DecidableEq

/-- `sysJumpTable`. The first entry is zero. -/
def sysJumpTable : List (Option Handler) :=
  [none, some .halt, some .execute, some .read, some .write, some .«open», some .close,
    some .getargs, some .vidmap, some .setHandler, some .sigreturn]

namespace SystemCall

/-- The label `done`. -/
def done : ℕ := 11

/-- The position of `iret`. -/
def iret : ℕ := 17

/-- The label `invalid`. -/
def invalid : ℕ := 18

/-- The instructions from `systemcall` to the table. -/
def listing : List (Instr Handler) :=
  [.push .esi, .push .edi, .push .esp, .push .edx, .push .ecx, .push .ebx,
    .cmp 10#32 .eax, .jg invalid, .cmp 1#32 .eax, .jl invalid,
    .call sysJumpTable .eax,
    -- `done`
    .pop .ebx, .pop .ecx, .pop .edx, .pop .esp, .pop .edi, .pop .esi, .iret,
    -- `invalid`
    .mov (-1#32) .eax, .jmp done]

end SystemCall

/-- `systemcall`, assembled at some addresses. -/
def systemcall (loc : ℕ → BitVec 32) (hloc : Set.InjOn loc (Set.Iio SystemCall.listing.length)) :
    Code Handler :=
  ⟨SystemCall.listing, loc, hloc⟩

namespace SystemCall

/-- The words that the processor has pushed on the way from the process: `eip`, `cs`, `eflags`,
`esp` and `ss`. -/
def interruptFrame (m : Machine) : List (BitVec 32) := wordsAt m.mem (m.regs .esp) 5

/-- The registers but `eax` and the interrupt frame are as they were. -/
structure Restores (m t : Machine) : Prop where
  regs : ∀ r ≠ .eax, t.regs r = m.regs r
  frame : interruptFrame t = interruptFrame m

/-- What a run from `systemcall` should do: it enters the handler at the place of the table that
`eax` says, with `ebx`, `ecx` and `edx` as arguments, and no other function. If the handler returns,
or if there is none, it ends at `iret`, with the result or with `-1` in `eax`. -/
def Links (loc : ℕ → BitVec 32) (impl : Functions Handler) (m : Machine)
    (entries : List (Entry Handler)) (t : Config Handler) : Prop :=
  if 1 ≤ (m.regs .eax).toInt ∧ (m.regs .eax).toInt ≤ 10 then
    ∃ h m₁, sysJumpTable[(m.regs .eax).toNat]?.join = some h ∧
      entries.reduceOption = [(h, m₁)] ∧
      m₁.arg 0 = m.regs .ebx ∧ m₁.arg 1 = m.regs .ecx ∧ m₁.arg 2 = m.regs .edx ∧
      ∀ a m₂, impl h m₁ = some (a, m₂) →
        t.1 = .loc (loc iret) ∧ Restores m t.2 ∧ t.2.regs .eax = m₂.regs .eax
  else
    entries.reduceOption = [] ∧
      t.1 = .loc (loc iret) ∧ Restores m t.2 ∧ t.2.regs .eax = -1#32

/-! ### The steps -/

section Steps

variable {loc : ℕ → BitVec 32} {hloc : Set.InjOn loc (Set.Iio listing.length)}
  {impl : Functions Handler} {m : Machine}

/-- The step at a position of the listing. -/
theorem step_listing {i : ℕ} {l : Entry Handler} {t : Config Handler} (hi : i < listing.length)
    (h : listing[i].exec loc i m = some (l, t)) :
    (systemcall loc hloc).Step impl (.loc (loc i), m) l t :=
  (Code.step_loc hi).trans h

theorem stuck_iret : Stuck ((systemcall loc hloc).Step impl) (.loc (loc iret), m) := by
  intro l t h
  have hi : iret < listing.length := by decide
  exact nomatch (Code.step_loc (c := systemcall loc hloc) hi).symm.trans h

/-- The registers pushed at the entry. -/
def saves (m : Machine) : Machine :=
  [Reg.esi, .edi, .esp, .edx, .ecx, .ebx].foldl (fun m r => m.push (m.regs r)) m

theorem run_saves : Run ((systemcall loc hloc).Step impl) (.loc (loc 0), m)
    (List.replicate 6 none) (.loc (loc 6), saves m) :=
  .cons (step_listing (i := 0) (by decide) rfl) <|
    .cons (step_listing (i := 1) (by decide) rfl) <|
    .cons (step_listing (i := 2) (by decide) rfl) <|
    .cons (step_listing (i := 3) (by decide) rfl) <|
    .cons (step_listing (i := 4) (by decide) rfl) <|
    .single (step_listing (i := 5) (by decide) rfl)

/-- The registers popped at `done`. -/
def restores (m : Machine) : Machine :=
  [Reg.ebx, .ecx, .edx, .esp, .edi, .esi].foldl Machine.pop m

theorem run_restores : Run ((systemcall loc hloc).Step impl) (.loc (loc done), m)
    (List.replicate 6 none) (.loc (loc iret), restores m) :=
  .cons (step_listing (i := 11) (by decide) rfl) <|
    .cons (step_listing (i := 12) (by decide) rfl) <|
    .cons (step_listing (i := 13) (by decide) rfl) <|
    .cons (step_listing (i := 14) (by decide) rfl) <|
    .cons (step_listing (i := 15) (by decide) rfl) <|
    .single (step_listing (i := 16) (by decide) rfl)

end Steps

/-! ### The saved registers -/

/-- The registers of `m` are saved on the stack of `m'`. -/
structure Saved (m m' : Machine) : Prop where
  stack : m'.Stack (m.regs .ebx :: m.regs .ecx :: m.regs .edx :: (m.regs .esp - 8#32) ::
    m.regs .edi :: m.regs .esi :: interruptFrame m)
  esp : m'.regs .esp = m.regs .esp - 24#32
  ebp : m'.regs .ebp = m.regs .ebp

variable {m m' m'' : Machine}

/-- The values pushed at the entry. -/
theorem saves_eq (m : Machine) : saves m =
    (((((m.push (m.regs .esi)).push (m.regs .edi)).push (m.regs .esp - 8#32)).push
      (m.regs .edx)).push (m.regs .ecx)).push (m.regs .ebx) := by
  have hesp : m.regs .esp - 4#32 - 4#32 = m.regs .esp - 8#32 := by bv_omega
  simp (disch := decide) only [saves, List.foldl_cons, List.foldl_nil, Machine.regs_push,
    Machine.esp_push, hesp]

theorem saved_saves (m : Machine) : Saved m (saves m) ∧ (saves m).regs .eax = m.regs .eax := by
  have hframe : m.Stack (interruptFrame m) := words_wordsAt ..
  have hlen : (interruptFrame m).length = 5 := length_wordsAt ..
  have hesi := hframe.push (by rw [hlen]; decide) (m.regs .esi)
  have hedi := hesi.push (by simp [hlen]) (m.regs .edi)
  have hesp := hedi.push (by simp [hlen]) (m.regs .esp - 8#32)
  have hedx := hesp.push (by simp [hlen]) (m.regs .edx)
  have hecx := hedx.push (by simp [hlen]) (m.regs .ecx)
  have hebx := hecx.push (by simp [hlen]) (m.regs .ebx)
  rw [saves_eq]
  refine ⟨⟨hebx, ?_, ?_⟩, ?_⟩
  · simp only [Machine.esp_push]
    bv_omega
  · simp (disch := decide) only [Machine.regs_push]
  · simp (disch := decide) only [Machine.regs_push]

/-- **The exit.** The registers saved are restored, whatever has become of the others, and `eax`
stays. -/
theorem Saved.restores (h : Saved m m') :
    Restores m (restores m') ∧ (restores m').regs .eax = m'.regs .eax := by
  obtain ⟨hstack, hesp, hebp⟩ := h
  set m₁ := m'.pop .ebx
  set m₂ := m₁.pop .ecx
  set m₃ := m₂.pop .edx
  set m₄ := m₃.pop .esp
  set m₅ := m₄.pop .edi
  obtain ⟨h₁, hebx⟩ := hstack.pop (r := .ebx) (by decide)
  obtain ⟨h₂, hecx⟩ := h₁.pop (r := .ecx) (by decide)
  obtain ⟨h₃, hedx⟩ := h₂.pop (r := .edx) (by decide)
  have hesp₃ : m₃.regs .esp + 4#32 = m.regs .esp - 8#32 := by
    rw [Machine.esp_pop (by decide), Machine.esp_pop (by decide), Machine.esp_pop (by decide), hesp]
    bv_omega
  rw [← hesp₃] at h₃
  obtain ⟨h₄, hesp₄⟩ := h₃.pop_esp
  obtain ⟨h₅, hedi⟩ := h₄.pop (r := .edi) (by decide)
  obtain ⟨h₆, hesi⟩ := h₅.pop (r := .esi) (by decide)
  show Restores m (m₅.pop .esi) ∧ (m₅.pop .esi).regs .eax = _
  have hkept (r : Reg) (hr : r ≠ .esi ∧ r ≠ .edi ∧ r ≠ .esp) :
      (m₅.pop .esi).regs r = m₃.regs r := by
    rw [Machine.regs_pop hr.1 hr.2.2, Machine.regs_pop hr.2.1 hr.2.2,
      Machine.regs_pop hr.2.2 hr.2.2]
  refine ⟨⟨fun r hr => ?_, ?_⟩, ?_⟩
  · cases r with
    | eax => exact absurd rfl hr
    | ebx =>
      rw [hkept _ (by decide), Machine.regs_pop (by decide) (by decide),
        Machine.regs_pop (by decide) (by decide), hebx]
    | ecx => rw [hkept _ (by decide), Machine.regs_pop (by decide) (by decide), hecx]
    | edx => rw [hkept _ (by decide), hedx]
    | ebp =>
      rw [hkept _ (by decide), Machine.regs_pop (by decide) (by decide),
        Machine.regs_pop (by decide) (by decide), Machine.regs_pop (by decide) (by decide), hebp]
    | edi => rw [Machine.regs_pop (by decide) (by decide), hedi]
    | esi => exact hesi
    | esp =>
      rw [Machine.esp_pop (by decide), Machine.esp_pop (by decide), hesp₄, hesp₃]
      bv_omega
  · have hlen : (interruptFrame m).length = 5 := length_wordsAt ..
    rw [interruptFrame, ← hlen]
    exact h₆.wordsAt_eq
  · rw [hkept _ (by decide), Machine.regs_pop (by decide) (by decide),
      Machine.regs_pop (by decide) (by decide), Machine.regs_pop (by decide) (by decide)]

/-! ### The way to the handler -/

section Steps

variable {loc : ℕ → BitVec 32} (hloc : Set.InjOn loc (Set.Iio listing.length))
  (impl : Functions Handler)

/-- The registers and memory are the same. -/
def SameButFlags (m m' : Machine) : Prop := m'.regs = m.regs ∧ m'.mem = m.mem

theorem Saved.congr (h : Saved m m') (hs : SameButFlags m' m'') : Saved m m'' := by
  obtain ⟨hregs, hmem⟩ := hs
  refine ⟨?_, ?_, ?_⟩
  · rw [Machine.Stack, hregs, hmem]
    exact h.stack
  · rw [hregs]
    exact h.esp
  · rw [hregs]
    exact h.ebp

theorem Saved.setEax (h : Saved m m') (v : BitVec 32) : Saved m (m'.setReg .eax v) := by
  refine ⟨?_, ?_, ?_⟩
  · rw [Machine.Stack, Machine.regs_setReg (by decide)]
    exact h.stack
  · rw [Machine.regs_setReg (by decide), h.esp]
  · rw [Machine.regs_setReg (by decide), h.ebp]

/-- **The checks** lead to the call when the signed number in `eax` is one of `1` to `10`, and else
to `invalid`. -/
theorem run_checks (m : Machine) : ∃ entries m', entries.reduceOption = [] ∧ SameButFlags m m' ∧
    Run ((systemcall loc hloc).Step impl) (.loc (loc 6), m) entries
      (.loc (loc (if 1 ≤ (m.regs .eax).toInt ∧ (m.regs .eax).toInt ≤ 10 then 10 else invalid)),
        m') := by
  set m₁ := m.compare (m.regs .eax) 10#32
  set m₂ := m₁.compare (m.regs .eax) 1#32
  have hcmp : (systemcall loc hloc).Step impl (.loc (loc 6), m) none (.loc (loc 7), m₁) :=
    step_listing (i := 6) (by decide) rfl
  have hjg : (systemcall loc hloc).Step impl (.loc (loc 7), m₁) none
      (.loc (loc (if m₁.greater then invalid else 8)), m₁) := step_listing (i := 7) (by decide) rfl
  have hcmp' : (systemcall loc hloc).Step impl (.loc (loc 8), m₁) none (.loc (loc 9), m₂) :=
    step_listing (i := 8) (by decide) rfl
  have hjl : (systemcall loc hloc).Step impl (.loc (loc 9), m₂) none
      (.loc (loc (if m₂.less then invalid else 10)), m₂) := step_listing (i := 9) (by decide) rfl
  have hgreater : m₁.greater ↔ 10 < (m.regs .eax).toInt := m.greater_compare (m.regs .eax) 10#32
  have hless : m₂.less ↔ (m.regs .eax).toInt < 1 := m₁.less_compare (m.regs .eax) 1#32
  by_cases hle : (m.regs .eax).toInt ≤ 10
  · rw [if_neg (fun h => Int.not_lt.mpr hle (hgreater.mp h))] at hjg
    have hrun := Run.cons hcmp (.cons hjg (.cons hcmp' (.single hjl)))
    refine ⟨[none, none, none, none], m₂, rfl, ⟨rfl, rfl⟩, ?_⟩
    by_cases hge : 1 ≤ (m.regs .eax).toInt
    · rw [if_neg (fun h => Int.not_lt.mpr hge (hless.mp h))] at hrun
      rwa [if_pos ⟨hge, hle⟩]
    · rw [if_pos (hless.mpr (Int.not_le.mp hge))] at hrun
      rwa [if_neg fun h => hge h.1]
  · rw [if_pos (hgreater.mpr (Int.not_le.mp hle))] at hjg
    rw [if_neg fun h => hle h.2]
    exact ⟨[none, none], m₁, rfl, ⟨rfl, rfl⟩, .cons hcmp (.single hjg)⟩

/-- The entry, up to the call or to `invalid`. -/
theorem run_entry (m : Machine) : ∃ entries m', entries.reduceOption = [] ∧ Saved m m' ∧
    m'.regs .eax = m.regs .eax ∧ Run ((systemcall loc hloc).Step impl) (.loc (loc 0), m) entries
      (.loc (loc (if 1 ≤ (m.regs .eax).toInt ∧ (m.regs .eax).toInt ≤ 10 then 10 else invalid)),
        m') := by
  obtain ⟨hsaved, heax⟩ := saved_saves m
  obtain ⟨entries, m', hentries, hsame, hrun⟩ := run_checks hloc impl (saves m)
  rw [heax] at hrun
  refine ⟨_, m', ?_, hsaved.congr hsame, hsame.1 ▸ heax, run_saves.append hrun⟩
  rw [List.reduceOption_append, hentries, List.reduceOption_replicate_none]
  rfl

/-- The table has a handler for every number that passes the checks. -/
theorem exists_handler {eax : BitVec 32} (h1 : 1 ≤ eax.toInt) (h10 : eax.toInt ≤ 10) :
    (∃ h, sysJumpTable[eax.toNat]?.join = some h) ∧ (eax * 4#32).toNat / 4 = eax.toNat := by
  have hcond := BitVec.toInt_eq_toNat_cond eax
  have hlt := eax.isLt
  have hrange : 1 ≤ eax.toNat ∧ eax.toNat < 11 := by
    split_ifs at hcond <;> omega
  have htable : ∀ k < 11, 1 ≤ k → sysJumpTable[k]?.join.isSome := by decide
  refine ⟨Option.isSome_iff_exists.mp (htable _ hrange.2 hrange.1), ?_⟩
  rw [BitVec.toNat_mul]
  show eax.toNat * 4 % 2 ^ 32 / 4 = _
  omega

/-- The call, when the handler returns. -/
theorem Saved.call (h : Saved m m') {f : Machine → Option (BitVec 32 × Machine)}
    (hf : FollowsConvention 44 f) {v a : BitVec 32} (hret : f (m'.push v) = some (a, m'')) :
    a = v ∧ Saved m m'' := by
  have hlen : (interruptFrame m).length = 5 := length_wordsAt ..
  have hstack := h.stack.push (by simp [hlen]) v
  obtain ⟨ha, hstack'⟩ := hf.stack hstack (by simp [hlen]) hret
  refine ⟨ha, hstack', ?_, ?_⟩
  · rw [hf.esp _ _ _ hret, Machine.esp_push, h.esp]
    bv_omega
  · rw [hf.saved _ _ _ hret .ebp (by decide), Machine.regs_push (by decide), h.ebp]

/-- The run for a number that is not valid. -/
theorem exists_complete_of_invalid {impl : Functions Handler} {m : Machine}
    (hinvalid : ¬ (1 ≤ (m.regs .eax).toInt ∧ (m.regs .eax).toInt ≤ 10)) : ∃ entries t,
      Run ((systemcall loc hloc).Step impl) (.loc (loc 0), m) entries t ∧
        Stuck ((systemcall loc hloc).Step impl) t ∧ Links loc impl m entries t := by
  obtain ⟨entries, m₁, hentries, hsaved, -, hrun⟩ := run_entry hloc impl m
  rw [if_neg hinvalid] at hrun
  set m₂ := m₁.setReg .eax (-1#32)
  have hmov : (systemcall loc hloc).Step impl (.loc (loc invalid), m₁) none (.loc (loc 19), m₂) :=
    step_listing (i := 18) (by decide) rfl
  have hjmp : (systemcall loc hloc).Step impl (.loc (loc 19), m₂) none (.loc (loc done), m₂) :=
    step_listing (i := 19) (by decide) rfl
  obtain ⟨hrestores, heax₂⟩ := (hsaved.setEax (-1#32)).restores
  refine ⟨_, _, hrun.append (.cons hmov (.cons hjmp run_restores)), stuck_iret, ?_⟩
  rw [Links, if_neg hinvalid]
  refine ⟨?_, rfl, hrestores, heax₂.trans Machine.regs_setReg_self⟩
  rw [List.reduceOption_append, hentries]
  rfl

/-- The run for a valid number: the handler returns, or the run stays inside it. -/
theorem exists_complete_of_valid {impl : Functions Handler}
    (hconv : ∀ h, FollowsConvention 44 (impl h)) {m : Machine}
    (hvalid : 1 ≤ (m.regs .eax).toInt ∧ (m.regs .eax).toInt ≤ 10) : ∃ entries t,
      Run ((systemcall loc hloc).Step impl) (.loc (loc 0), m) entries t ∧
        Stuck ((systemcall loc hloc).Step impl) t ∧ Links loc impl m entries t := by
  obtain ⟨entries, m₁, hentries, hsaved, heax, hrun⟩ := run_entry hloc impl m
  rw [if_pos hvalid] at hrun
  obtain ⟨⟨h, hslot⟩, hindex⟩ := exists_handler hvalid.1 hvalid.2
  set m₂ := m₁.push (loc done)
  have hcall : (systemcall loc hloc).Step impl (.loc (loc 10), m₁) (some (h, m₂))
      (.inside h, m₂) := by
    refine step_listing (i := 10) (by decide) ?_
    show (sysJumpTable[(m₁.regs .eax * 4#32).toNat / 4]?).join.map _ = _
    rw [heax, hindex, hslot]
    rfl
  have hlen : (interruptFrame m).length = 5 := length_wordsAt ..
  obtain ⟨h₀, h₁, h₂⟩ := (hsaved.stack.push (by simp [hlen]) (loc done)).arg
  have hrun' := hrun.append (.single hcall)
  cases hret : impl h m₂ with
  | none =>
    refine ⟨_, _, hrun', fun l t hstep => ?_, ?_⟩
    · rw [Code.Step, Code.step_inside, hret] at hstep
      cases hstep
    · rw [Links, if_pos hvalid]
      refine ⟨h, m₂, hslot, ?_, h₀, h₁, h₂, fun a m₃ ha => ?_⟩
      · rw [List.reduceOption_append, hentries]
        rfl
      · cases hret.symm.trans ha
  | some r =>
    obtain ⟨a, m₃⟩ := r
    obtain ⟨rfl, hsaved₃⟩ := hsaved.call (hconv h) hret
    obtain ⟨hrestores, heax₃⟩ := hsaved₃.restores
    have hreturn : (systemcall loc hloc).Step impl (.inside h, m₂) none
        (.loc (loc done), m₃) := by
      rw [Code.Step, Code.step_inside, hret]
      rfl
    refine ⟨_, _, hrun'.append (.cons hreturn run_restores), stuck_iret, ?_⟩
    rw [Links, if_pos hvalid]
    refine ⟨h, m₂, hslot, ?_, h₀, h₁, h₂, fun a m₃' ha => ?_⟩
    · rw [List.reduceOption_append, List.reduceOption_append, hentries]
      rfl
    · obtain ⟨-, rfl⟩ := Prod.mk.inj (Option.some.inj (hret.symm.trans ha))
      exact ⟨rfl, hrestores, heax₃⟩

/-- There is a complete run, and it does what it should. -/
theorem exists_complete {impl : Functions Handler} (hconv : ∀ h, FollowsConvention 44 (impl h))
    (m : Machine) : ∃ entries t,
      Run ((systemcall loc hloc).Step impl) (.loc (loc 0), m) entries t ∧
        Stuck ((systemcall loc hloc).Step impl) t ∧ Links loc impl m entries t := by
  by_cases hvalid : 1 ≤ (m.regs .eax).toInt ∧ (m.regs .eax).toInt ≤ 10
  · exact exists_complete_of_valid hloc hconv hvalid
  · exact exists_complete_of_invalid hloc hvalid

end Steps

end SystemCall

/-- **The linkage of the system calls.** From every state of the machine at the entry there is one
complete run, which enters the handler and reaches `iret` as it should, when the handlers follow the
calling convention and leave the 44 bytes behind the return address alone: their arguments, the
other saved registers and the interrupt frame. -/
theorem systemcall_linkage {loc : ℕ → BitVec 32}
    (hloc : Set.InjOn loc (Set.Iio SystemCall.listing.length)) {impl : Functions Handler}
    (hconv : ∀ h, FollowsConvention 44 (impl h)) (m : Machine) :
    (∃ entries t, Run ((systemcall loc hloc).Step impl) (.loc (loc 0), m) entries t ∧
      Stuck ((systemcall loc hloc).Step impl) t) ∧
    ∀ entries t, Run ((systemcall loc hloc).Step impl) (.loc (loc 0), m) entries t →
      Stuck ((systemcall loc hloc).Step impl) t → SystemCall.Links loc impl m entries t := by
  obtain ⟨entries, t, hrun, hstuck, hlinks⟩ := SystemCall.exists_complete hloc hconv m
  refine ⟨⟨entries, t, hrun, hstuck⟩, fun entries' t' hrun' hstuck' => ?_⟩
  obtain ⟨rfl, rfl⟩ := hrun.eq_of_stuck Code.Step.deterministic hstuck hrun' hstuck'
  exact hlinks

/-! ### A call of `vidmap` -/

/-- A function that returns a value. -/
def returning (v : BitVec 32) (m : Machine) : Option (BitVec 32 × Machine) :=
  some (m.top, (m.setReg .esp (m.regs .esp + 4#32)).setReg .eax v)

theorem followsConvention_returning (n : ℕ) (v : BitVec 32) :
    FollowsConvention n (returning v) where
  returns _ _ _ h := by
    cases h
    rfl
  esp _ _ _ h := by
    cases h
    rw [Machine.regs_setReg (by decide), Machine.regs_setReg_self]
  saved _ _ _ h r hr := by
    cases h
    have hne : r ≠ .eax ∧ r ≠ .esp := by
      revert r
      decide
    rw [Machine.regs_setReg hne.1, Machine.regs_setReg hne.2]
  frame _ _ _ h := by
    cases h
    exact Set.eqOn_refl ..

/-- Addresses of the instructions. -/
def sampleLoc (i : ℕ) : BitVec 32 := BitVec.ofNat 32 (0x400000 + i)

theorem injOn_sampleLoc : Set.InjOn sampleLoc (Set.Iio SystemCall.listing.length) := by
  intro i hi j hj h
  have hlen : SystemCall.listing.length = 20 := rfl
  rw [hlen, Set.mem_Iio] at hi hj
  have htoNat := congrArg BitVec.toNat h
  rw [sampleLoc, sampleLoc, BitVec.toNat_ofNat, BitVec.toNat_ofNat] at htoNat
  omega

/-- The number of `vidmap` is in `eax`. -/
def vidmapCall : Machine where
  regs := Function.update (Function.update (fun _ => 0#32) .esp 0x800000#32) .eax 8#32
  zf := false
  sf := false
  ovf := false
  mem := fun _ => 0

/-- `vidmap` returns zero. The other handlers do not matter. -/
def sampleFunctions : Functions Handler := fun h => returning (if h = .vidmap then 0#32 else -1#32)

theorem systemcall_linkage_vidmap :
    let step := (systemcall sampleLoc injOn_sampleLoc).Step sampleFunctions
    (∃ entries t, Run step (.loc (sampleLoc 0), vidmapCall) entries t ∧ Stuck step t) ∧
      ∀ entries t, Run step (.loc (sampleLoc 0), vidmapCall) entries t → Stuck step t →
        SystemCall.Links sampleLoc sampleFunctions vidmapCall entries t :=
  systemcall_linkage injOn_sampleLoc (fun _ => followsConvention_returning ..) vidmapCall

end Mp3Kernel
