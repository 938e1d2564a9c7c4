import Mp3Kernel.Process.Reading
import Mp3Kernel.Process.RtcDivisor

/-!
# Setting the frequency of the clock

A process should set the frequency of the real-time clock by writing it to a descriptor, and a read
should then wait accordingly. But the entry of the table for `write` does not look at the buffer: it
passes the constant 2 to `rtc_write` and drops the result.

## Main definitions

* `rtcWrite`: the function of the device.
* `RtcWrite`, `RtcWrite.Step`: a write to a descriptor of the clock.
* `RtcWrite.Sets`: the write does what it should; `RtcWrite.Fits`: the condition for this.
* `KState.ReadsWait`: how long the reads wait.

## Main results

* `RtcRead.i_eq_of_done`: `rtc_read` waits as often as the frequency says.
* `RtcWrite.Step.sets_iff`: for which numbers one write does what it should.
* `setsFrequency_iff`: the same for all writes of a run.
* `write_ignores_buffer`: a write that does not.

Source: `process.c`, lines 531–560; `fileoptable.c`, lines 111–115; `RTC.c`, lines 103–136.
-/

namespace Mp3Kernel

open ByteMemory Transition

/-! ### The rounds of `rtc_read` -/

namespace RtcRead

variable {rtcFreq flag : ℤ} {s t : RtcRead} {e : RtcEvent} {events : List RtcEvent}

/-- The loop variable of `rtc_read` does not pass the bound, and is below it in the body. -/
def InLoop (rtcFreq : ℤ) (s : RtcRead) : Prop :=
  s.i ≤ rtcTicks rtcFreq ∧ (s.pc ≠ .test → s.pc ≠ .done → s.i < rtcTicks rtcFreq)

theorem inLoop_step (h : RtcStep rtcFreq s e t) (hs : s.InLoop rtcFreq) : t.InLoop rtcFreq := by
  obtain ⟨pc, i, flag⟩ := s
  obtain ⟨hle, hlt⟩ := hs
  cases h with
  | step h =>
    cases pc with
    | test =>
      simp only [next]
      split_ifs with hcond
      · exact ⟨hle, fun _ _ => hcond⟩
      · exact ⟨hle, fun _ hdone => absurd rfl hdone⟩
    | wait =>
      simp only [next]
      split_ifs
      · exact ⟨hle, hlt⟩
      · exact ⟨hle, fun _ _ => hlt RtcPc.noConfusion RtcPc.noConfusion⟩
    | cli => exact ⟨hle, fun _ _ => hlt RtcPc.noConfusion RtcPc.noConfusion⟩
    | reset => exact ⟨hle, fun _ _ => hlt RtcPc.noConfusion RtcPc.noConfusion⟩
    | sti =>
      exact ⟨Int.add_one_le_of_lt (hlt RtcPc.noConfusion RtcPc.noConfusion),
        fun htest => absurd rfl htest⟩
    | done => exact absurd rfl h
  | interrupt h => exact ⟨hle, hlt⟩

/-- **A call that has returned** has waited as often as the frequency says. -/
theorem i_eq_of_done (hpos : 0 ≤ rtcTicks rtcFreq)
    (h : Run (RtcStep rtcFreq) (call flag) events t) (hdone : t.pc = .done) :
    t.i = rtcTicks rtcFreq := by
  have hin := h.invariant (P := InLoop rtcFreq) (fun _ _ _ hs h => inLoop_step h hs)
    ⟨hpos, fun htest => absurd rfl htest⟩
  exact Int.le_antisymm hin.1 (ticks_le_of_done h hdone)

end RtcRead

/-! ### The device -/

instance : DecidablePred FreqValid := fun _ => inferInstanceAs (Decidable (_ ∧ _))

/-- `int rtc_write(int freq)`. -/
def rtcWrite (freq : ℤ) (s : KState) : BitVec 32 × KState :=
  if freq < 2 ∨ 1024 < freq then (-1#32, s) else (1#32, { s with rtcFreq := freq })

theorem rtcWrite_of_valid {freq : ℤ} (h : FreqValid freq) (s : KState) :
    rtcWrite freq s = (1#32, { s with rtcFreq := freq }) :=
  if_neg (not_or.mpr ⟨Int.not_lt.mpr h.1, Int.not_lt.mpr h.2⟩)

/-- The entry of the table calls the device with 2. -/
theorem rtcwrite_eq (s : KState) : rtcwrite s = (0#32, (rtcWrite 2 s).2) := by
  rw [rtcWrite_of_valid freqValid_two]
  rfl

/-! ### Writes -/

/-- Descriptor `fd` is in use for the clock. -/
def KState.HasClock (s : KState) (fd : BitVec 32) : Prop :=
  fd.toNat < fdarrayMax ∧ (s.procs.fds fd.toNat).flags ≠ 0#32 ∧
    (s.procs.fds fd.toNat).fileotPointer.driver? = some .rtc

/-- A call of `write` to the clock returns: it does nothing, where it rejects the descriptor, or it
sets the frequency 2. -/
theorem KState.HasClock.sysWrite_eq {wild : Wild} {s : KState} {fd buf : BitVec 32}
    (h : s.HasClock fd) (hbuf : PageBuffer buf 4#32) : sysWrite wild fd buf 4#32 s =
      some (if 7#32 ≤ fd ∨ fd = 0#32 then (failure, s) else rtcwrite s) := by
  split_ifs with hfd
  · exact sysWrite_of_not_accepts fun ha => ha.2.1 hfd
  · rw [sysWrite_of_accepts ⟨hbuf.accepts, hfd, h.2.1⟩, driverWrite, h.2.2]

/-- A call of `write` with a buffer of four bytes, and its result. -/
structure RtcWrite where
  /-- The descriptor. -/
  fd : BitVec 32
  /-- The address of the buffer. -/
  buf : BitVec 32
  /-- The number in the buffer. -/
  f : BitVec 32
  /-- The result. -/
  result : BitVec 32

namespace RtcWrite

/-- The process stores the number in its page, and calls `write`. -/
def Step (wild : Wild) (s : KState) (w : RtcWrite) (s' : KState) : Prop :=
  s.HasClock w.fd ∧ PageBuffer w.buf 4#32 ∧
    ∃ mem, readWord mem (s.userPtr w.buf) = w.f ∧
      sysWrite wild w.fd w.buf 4#32 { s with mem := mem } = some (w.result, s')

/-- The write sets the frequency to the number if this is valid, and else returns `-1` and leaves
the frequency alone. -/
def Sets (s : KState) (w : RtcWrite) (s' : KState) : Prop :=
  if FreqValid w.f.toInt then s'.rtcFreq = w.f.toInt
  else w.result = failure ∧ s'.rtcFreq = s.rtcFreq

/-- The number is 2; or `write` rejects the descriptor, and the number is not valid or the frequency
already. -/
def Fits (s : KState) (w : RtcWrite) : Prop :=
  if 7#32 ≤ w.fd ∨ w.fd = 0#32 then FreqValid w.f.toInt → s.rtcFreq = w.f.toInt
  else w.f.toInt = 2

/-- The last valid number of a list of writes. -/
def lastAccepted (writes : List RtcWrite) : Option ℤ :=
  writes.foldl (fun g w => if FreqValid w.f.toInt then some w.f.toInt else g) none

variable {wild : Wild} {s s' : KState} {w : RtcWrite} {writes : List RtcWrite}

theorem Step.result (h : Step wild s w s') :
    if 7#32 ≤ w.fd ∨ w.fd = 0#32 then w.result = failure ∧ s'.rtcFreq = s.rtcFreq
    else w.result = 0#32 ∧ s'.rtcFreq = 2 := by
  obtain ⟨hclock, hbuf, mem, -, hwrite⟩ := h
  have hclock' : KState.HasClock { s with mem := mem } w.fd := hclock
  rw [hclock'.sysWrite_eq hbuf] at hwrite
  split_ifs at hwrite ⊢
  · obtain ⟨hr, hs⟩ := Prod.mk.inj (Option.some.inj hwrite)
    exact ⟨hr.symm, hs ▸ rfl⟩
  · obtain ⟨hr, hs⟩ := Prod.mk.inj (Option.some.inj hwrite)
    exact ⟨hr.symm, hs ▸ rfl⟩

/-- **One write** does what it should if and only if it fits. -/
theorem Step.sets_iff (h : Step wild s w s') : w.Sets s s' ↔ w.Fits s := by
  have hresult := h.result
  rw [Sets, Fits]
  by_cases hfd : 7#32 ≤ w.fd ∨ w.fd = 0#32
  · rw [if_pos hfd] at hresult ⊢
    split_ifs with hvalid
    · rw [hresult.2]
      exact ⟨fun he _ => he, fun he => he hvalid⟩
    · exact iff_of_true hresult fun hv => absurd hv hvalid
  · rw [if_neg hfd] at hresult ⊢
    split_ifs with hvalid
    · rw [hresult.2]
      exact eq_comm
    · refine iff_of_false (fun hsets => ?_) fun h2 => hvalid (h2 ▸ freqValid_two)
      exact absurd (hresult.1.symm.trans hsets.1) (by decide)

/-- After writes that do what they should, the frequency is the last valid number. -/
theorem rtcFreq_of_sets (h : Run (Ensured (Step wild) Sets) s writes s') :
    ∀ f ∈ lastAccepted writes, FreqValid f ∧ s'.rtcFreq = f := by
  refine h.fold_invariant (P := fun s g => ∀ f ∈ g, FreqValid f ∧ s.rtcFreq = f)
    (fun s w t g hg hw f hf => ?_) fun f hf => absurd hf (Option.not_mem_none f)
  have hsets := hw.2
  rw [Sets] at hsets
  split_ifs at hf hsets with hvalid
  · obtain rfl := Option.some.inj hf
    exact ⟨hvalid, hsets⟩
  · rw [hsets.2]
    exact hg f hf

end RtcWrite

/-! ### Reads -/

/-- Every call of `read` on a descriptor of the clock that reaches `rtc_read` waits for the RTC
`ticks` times. -/
def KState.ReadsWait (wild : Wild) (s : KState) (ticks : ℤ) : Prop :=
  ∀ fd buf n probe s₁, s.HasClock fd → CallsRtcRead wild s fd buf n probe s₁ →
    ∀ flag events t, Run (RtcStep s₁.rtcFreq) (RtcRead.call flag) events t → t.pc = .done →
      t.i = ticks

variable {wild : Wild} {s s' s₁ : KState} {fd buf n : BitVec 32} {probe : Ptr Block} {f : ℤ}
  {writes : List RtcWrite}

/-- On a descriptor of the clock, `rtc_read` is reached in the state of the call: it returns zero,
and `read` does not call it again. -/
theorem KState.HasClock.eq_of_callsRtcRead (h : s.HasClock fd)
    (hcall : CallsRtcRead wild s fd buf n probe s₁) : s₁ = s := by
  cases hcall with
  | first => rfl
  | second ha hread hne =>
    rw [driverRead, h.2.2, rtcread] at hread
    split_ifs at hread
    obtain ⟨rfl, -⟩ := Prod.mk.inj (Option.some.inj hread)
    exact absurd rfl hne

/-- The reads wait as the frequency says. -/
theorem KState.readsWait_of_valid (hvalid : FreqValid s.rtcFreq) :
    s.ReadsWait wild (1024 / s.rtcFreq) := by
  intro fd buf n probe s₁ hclock hcall flag events t hrun hdone
  obtain rfl := hclock.eq_of_callsRtcRead hcall
  rw [RtcRead.i_eq_of_done (rtcTicks_pos hvalid).le hrun hdone, rtcTicks,
    Int.tdiv_eq_ediv_of_nonneg (by decide)]

/-! ### Runs of writes -/

/-- **Every write of a run does what it should**, and the reads after it wait for the last valid
number, if and only if every write fits the state in which it comes. -/
theorem setsFrequency_iff (wild : Wild) (s s' : KState) (writes : List RtcWrite) :
    (Run (Ensured (RtcWrite.Step wild) RtcWrite.Sets) s writes s' ∧
      ∀ f ∈ RtcWrite.lastAccepted writes, s'.ReadsWait wild (1024 / f)) ↔
        Run (Guarded RtcWrite.Fits (RtcWrite.Step wild)) s writes s' := by
  have hiff (s : KState) (w : RtcWrite) (s' : KState) (h : RtcWrite.Step wild s w s') :
      w.Sets s s' ↔ w.Fits s := h.sets_iff
  rw [← Run.ensured_iff_guarded hiff]
  refine ⟨And.left, fun hsets => ⟨hsets, fun f hf => ?_⟩⟩
  obtain ⟨hvalid, rfl⟩ := RtcWrite.rtcFreq_of_sets hsets f hf
  exact KState.readsWait_of_valid hvalid

/-- With the sample image, the first process opens the clock and writes 100 to it: the frequency is
2. -/
theorem write_ignores_buffer : ¬ ∀ (s s' : KState) (writes : List RtcWrite),
    Reachable sampleWild 0x401000#32 s → Run (RtcWrite.Step sampleWild) s writes s' →
      Run (Ensured (RtcWrite.Step sampleWild) RtcWrite.Sets) s writes s' ∧
        ∀ f ∈ RtcWrite.lastAccepted writes, s'.ReadsWait sampleWild (1024 / f) := by
  intro hall
  obtain ⟨s, h, hclock, -⟩ := exists_opened_sample (k := 3) le_rfl (by decide)
  have hfd : s.HasClock 2#32 := by
    obtain ⟨⟨-, -, hflags⟩, hdriver⟩ := hclock.readAccepts (by decide)
    exact ⟨by decide, hflags, hdriver⟩
  set m := writeWord s.mem (s.userPtr userMem) 100#32
  have hwrite : RtcWrite.Step sampleWild s ⟨2#32, userMem, 100#32, 0#32⟩
      (rtcwrite { s with mem := m }).2 := by
    refine ⟨hfd, ⟨by decide, by decide⟩, m, readWord_writeWord .., ?_⟩
    have hfd' : KState.HasClock { s with mem := m } 2#32 := hfd
    rw [hfd'.sysWrite_eq ⟨by decide, by decide⟩]
    rfl
  have hrejected : ¬ (7#32 ≤ 2#32 ∨ 2#32 = 0#32) := by decide
  cases (hall s _ _ h (.single hwrite)).1 with
  | cons hstep _ =>
    have hfits := hstep.1.sets_iff.mp hstep.2
    rw [RtcWrite.Fits, if_neg hrejected] at hfits
    exact absurd hfits (by decide)

end Mp3Kernel
