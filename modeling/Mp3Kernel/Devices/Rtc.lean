import Mathlib.Algebra.Order.Ring.Int
import Mathlib.Data.List.Count
import Mathlib.Tactic.Common
import Mp3Kernel.Transition.Run

/-!
# Waiting for RTC interrupts

`rtc_read` waits for `1024 / rtc_freq` interrupts, which it counts through the flag that the
interrupt handler sets: it waits until the flag is set, and then resets it with interrupts disabled.
An interrupt may come between any two of its steps.

The flag is not reset before the first wait. An interrupt that came before the call is counted, so
the call may return one interrupt early.

## Main definitions

* `RtcRead`: the state of a call of `rtc_read`, with the flag.
* `RtcStep`: a step of the call, or an interrupt.
* `RtcRead.counted`: the interrupts that the call has counted or will count at its next wait.

## Main results

* `RtcRead.counted_run`: every interrupt is counted at most once.
* `rtcTicks_le`: a call returns at most one interrupt early.
* `rtcRead_waits_iff`: no call returns early, whenever the interrupts come, exactly when the flag is
  zero at the call.
* `rtcRead_returns_early`: a call that returns without any interrupt.

Source: `RTC.c`, lines 73–118.
-/

namespace Mp3Kernel

open Transition

/-! ### The steps -/

/-- The statement that a call of `rtc_read` is about to execute. -/
inductive RtcPc where
  /-- `i < (1024/issue.rtc_freq)`. -/
  | test
  /-- `while( rtc_interrupt == 0 ){}`. -/
  | wait
  /-- `cli()`. -/
  | cli
  /-- `rtc_interrupt = 0`. -/
  | reset
  /-- `sti()`, and `++i`. -/
  | sti
  /-- The call has returned. -/
  | done
  deriving DecidableEq

/-- A call of `rtc_read`. -/
structure RtcRead where
  /-- The next statement. -/
  pc : RtcPc
  /-- `i`. -/
  i : ℤ
  /-- `rtc_interrupt`. -/
  rtcInterrupt : ℤ

/-- What happens next: a step of the call, or an interrupt. -/
inductive RtcEvent where
  /-- A step of `rtc_read`. -/
  | step
  /-- An RTC interrupt. -/
  | interrupt
  deriving DecidableEq

/-- The number of interrupts that `rtc_read` is to wait for. -/
def rtcTicks (rtcFreq : ℤ) : ℤ := Int.tdiv 1024 rtcFreq

namespace RtcRead

/-- `rtc_read` is called. -/
def call (rtcInterrupt : ℤ) : RtcRead := ⟨.test, 0, rtcInterrupt⟩

/-- One step of `int rtc_read(int freq)`. -/
def next (rtcFreq : ℤ) (s : RtcRead) : RtcRead :=
  match s.pc with
  | .test => if s.i < rtcTicks rtcFreq then { s with pc := .wait } else { s with pc := .done }
  | .wait => if s.rtcInterrupt = 0 then s else { s with pc := .cli }
  | .cli => { s with pc := .reset }
  | .reset => { s with rtcInterrupt := 0, pc := .sti }
  | .sti => { s with i := s.i + 1, pc := .test }
  | .done => s

/-- `void rtc_interrupt_handler()`. -/
def rtcInterruptHandler (s : RtcRead) : RtcRead := { s with rtcInterrupt := 1 }

end RtcRead

/-- An event, before the call has returned. -/
inductive RtcStep (rtcFreq : ℤ) : RtcRead → RtcEvent → RtcRead → Prop
  | step {s : RtcRead} (h : s.pc ≠ .done) : RtcStep rtcFreq s .step (s.next rtcFreq)
  | interrupt {s : RtcRead} (h : s.pc ≠ .done) : RtcStep rtcFreq s .interrupt s.rtcInterruptHandler

/-! ### Every interrupt is counted once -/

namespace RtcRead

/-- The flag is set: the next wait will count an interrupt. -/
def pending (s : RtcRead) : ℤ := if s.rtcInterrupt = 0 then 0 else 1

/-- The interrupts counted so far, or to be counted at the next wait. From the wait to the reset the
flag stands for the interrupt that is being counted. -/
def counted (s : RtcRead) : ℤ :=
  match s.pc with
  | .test | .wait | .done => s.i + s.pending
  | .cli | .reset => s.i + 1
  | .sti => s.i + 1 + s.pending

variable {rtcFreq : ℤ} {s t : RtcRead} {e : RtcEvent} {events : List RtcEvent}

theorem pending_nonneg (s : RtcRead) : 0 ≤ s.pending ∧ s.pending ≤ 1 := by
  rw [pending]
  split_ifs <;> decide

/-- A step of the call counts nothing, and an interrupt is counted at most once. -/
theorem counted_step (h : RtcStep rtcFreq s e t) :
    t.counted ≤ s.counted + [e].count .interrupt := by
  obtain ⟨pc, i, flag⟩ := s
  cases h with
  | step h =>
    cases pc with
    | test =>
      simp only [next]
      split_ifs <;> simp [counted, pending]
    | wait =>
      simp only [next]
      split_ifs with h0 <;> simp [counted, pending, h0]
    | cli => simp [next, counted]
    | reset => simp [next, counted, pending]
    | sti =>
      simp only [next, counted, pending, List.count_singleton]
      omega
    | done => exact absurd rfl h
  | interrupt h =>
    have hp := pending_nonneg ⟨pc, i, flag⟩
    cases pc <;> simp [rtcInterruptHandler, counted, pending] at hp ⊢ <;> omega

theorem counted_run (h : Run (RtcStep rtcFreq) s events t) :
    t.counted ≤ s.counted + events.count .interrupt := by
  induction h with
  | nil s => simp
  | cons h _ ih =>
    have hstep := counted_step h
    rw [← List.singleton_append, List.count_append]
    push_cast
    omega

/-- The call returns only after its last round. -/
theorem ticks_le_of_done_step (hs : s.pc = .done → rtcTicks rtcFreq ≤ s.i)
    (h : RtcStep rtcFreq s e t) : t.pc = .done → rtcTicks rtcFreq ≤ t.i := by
  obtain ⟨pc, i, flag⟩ := s
  cases h with
  | step h =>
    cases pc with
    | test =>
      simp only [next]
      split_ifs with hlt
      · exact fun hdone => by cases hdone
      · exact fun _ => Int.not_lt.mp hlt
    | wait =>
      simp only [next]
      split_ifs <;> exact fun hdone => by cases hdone
    | cli => exact fun hdone => by cases hdone
    | reset => exact fun hdone => by cases hdone
    | sti => exact fun hdone => by cases hdone
    | done => exact absurd rfl h
  | interrupt h => exact hs

theorem ticks_le_of_done {flag : ℤ} (h : Run (RtcStep rtcFreq) (call flag) events t)
    (hdone : t.pc = .done) : rtcTicks rtcFreq ≤ t.i :=
  h.invariant (P := fun s => s.pc = .done → rtcTicks rtcFreq ≤ s.i)
    (fun _ _ _ => ticks_le_of_done_step) (fun hcall => by cases hcall) hdone

end RtcRead

open RtcRead

variable {rtcFreq flag : ℤ} {events : List RtcEvent} {t : RtcRead}

/-- When the call returns, the interrupts since it was called and the flag at the call make up the
number it waits for. -/
theorem rtcTicks_le (h : Run (RtcStep rtcFreq) (call flag) events t) (hdone : t.pc = .done) :
    rtcTicks rtcFreq ≤ (call flag).pending + events.count .interrupt := by
  have hrun := counted_run h
  have hle := ticks_le_of_done h hdone
  have hcall : (call flag).counted = 0 + (call flag).pending := rfl
  have hcounted : t.counted = t.i + t.pending := by
    rw [counted, hdone]
  have hpending := t.pending_nonneg
  omega

/-! ### A flag that is set at the call -/

/-- The test lets the call into another round. -/
theorem step_test_of_lt {i : ℤ} (h : i < rtcTicks rtcFreq) :
    RtcStep rtcFreq ⟨.test, i, flag⟩ .step ⟨.wait, i, flag⟩ := by
  have hnext : next rtcFreq ⟨.test, i, flag⟩ = ⟨.wait, i, flag⟩ := if_pos h
  exact hnext ▸ .step nofun

theorem step_test_of_le {i : ℤ} (h : rtcTicks rtcFreq ≤ i) :
    RtcStep rtcFreq ⟨.test, i, flag⟩ .step ⟨.done, i, flag⟩ := by
  have hnext : next rtcFreq ⟨.test, i, flag⟩ = ⟨.done, i, flag⟩ := if_neg (Int.not_lt.mpr h)
  exact hnext ▸ .step nofun

/-- A round from the end of the wait on. -/
theorem run_round {i : ℤ} (h0 : flag ≠ 0) :
    Run (RtcStep rtcFreq) ⟨.wait, i, flag⟩ [.step, .step, .step, .step] ⟨.test, i + 1, 0⟩ := by
  have hnext : next rtcFreq ⟨.wait, i, flag⟩ = ⟨.cli, i, flag⟩ := if_neg h0
  have hwait : RtcStep rtcFreq ⟨.wait, i, flag⟩ .step ⟨.cli, i, flag⟩ := hnext ▸ .step nofun
  exact .cons hwait (.cons (.step nofun) (.cons (.step nofun) (.single (.step nofun))))

/-- With the flag reset, `n` more rounds can take `n` interrupts, each of which ends a wait. -/
theorem exists_run_rounds (n : ℕ) {i : ℤ} (hi : i + n = rtcTicks rtcFreq) :
    ∃ events t, Run (RtcStep rtcFreq) ⟨.test, i, 0⟩ events t ∧ t.pc = .done ∧
      events.count .interrupt = n := by
  induction n generalizing i with
  | zero => exact ⟨_, _, .single (step_test_of_le (by omega)), rfl, rfl⟩
  | succ n ih =>
    obtain ⟨events, t, hrun, hdone, hcount⟩ := ih (i := i + 1) (by push_cast at hi; omega)
    have htest : RtcStep rtcFreq ⟨.test, i, 0⟩ .step ⟨.wait, i, 0⟩ :=
      step_test_of_lt (by push_cast at hi; omega)
    have hinterrupt : RtcStep rtcFreq ⟨.wait, i, 0⟩ .interrupt ⟨.wait, i, 1⟩ := .interrupt nofun
    have hround : Run (RtcStep rtcFreq) ⟨.wait, i, 1⟩ _ ⟨.test, i + 1, 0⟩ := run_round (by decide)
    refine ⟨_, t, .cons htest (.cons hinterrupt (hround.append hrun)), hdone, ?_⟩
    simp [hcount]

/-- With the flag set, the first round takes none. -/
theorem exists_run_early (h0 : flag ≠ 0) (hticks : 0 < rtcTicks rtcFreq) :
    ∃ events t, Run (RtcStep rtcFreq) (call flag) events t ∧ t.pc = .done ∧
      (events.count .interrupt : ℤ) < rtcTicks rtcFreq := by
  obtain ⟨n, hn⟩ := Int.eq_ofNat_of_zero_le (Int.le_sub_one_of_lt hticks)
  have hsum : (0 + 1 : ℤ) + n = rtcTicks rtcFreq := by omega
  obtain ⟨events, t, hrun, hdone, hcount⟩ := exists_run_rounds n hsum
  have htest : RtcStep rtcFreq (call flag) .step ⟨.wait, 0, flag⟩ := step_test_of_lt hticks
  refine ⟨_, t, .cons htest ((run_round h0).append hrun), hdone, ?_⟩
  have hlist :
      (RtcEvent.step :: ([.step, .step, .step, .step] ++ events)).count .interrupt = n := by
    simp [hcount]
  omega

theorem rtcTicks_pos (hf : 2 ≤ rtcFreq ∧ rtcFreq ≤ 1024) : 0 < rtcTicks rtcFreq := by
  have hpos : 0 < rtcFreq := by omega
  rw [rtcTicks, Int.tdiv_eq_ediv_of_nonneg (by decide)]
  exact Int.le_ediv_of_mul_le hpos (by omega)

/-- **No period is cut short** exactly when the flag is zero at the call: then the call returns only
after `1024 / rtc_freq` interrupts, wherever they fall. -/
theorem rtcRead_waits_iff (hf : 2 ≤ rtcFreq ∧ rtcFreq ≤ 1024) :
    (∀ events t, Run (RtcStep rtcFreq) (call flag) events t → t.pc = .done →
        rtcTicks rtcFreq ≤ events.count .interrupt) ↔ flag = 0 := by
  constructor
  · intro h
    by_contra h0
    obtain ⟨events, t, hrun, hdone, hlt⟩ := exists_run_early h0 (rtcTicks_pos hf)
    exact absurd (h events t hrun hdone) (Int.not_le.mpr hlt)
  · rintro rfl events t hrun hdone
    have hle := rtcTicks_le hrun hdone
    have hcall : (call 0).pending = 0 := rfl
    omega

/-- At the default frequency the call waits with the flag reset, and not with the flag set. -/
theorem rtcRead_waits_default :
    (∀ events t, Run (RtcStep 2) (call 0) events t → t.pc = .done →
      rtcTicks 2 ≤ events.count .interrupt) ∧
    ¬ ∀ events t, Run (RtcStep 2) (call 1) events t → t.pc = .done →
      rtcTicks 2 ≤ events.count .interrupt :=
  have hf : 2 ≤ (2 : ℤ) ∧ (2 : ℤ) ≤ 1024 := by decide
  ⟨(rtcRead_waits_iff hf).mpr rfl, fun h => absurd ((rtcRead_waits_iff hf).mp h) (by decide)⟩

/-- At the highest frequency, an interrupt before the call lets it return without another. -/
theorem rtcRead_returns_early :
    Run (RtcStep 1024) (call 1) [.step, .step, .step, .step, .step, .step] ⟨.done, 1, 0⟩ ∧
      ([.step, .step, .step, .step, .step, .step] : List RtcEvent).count .interrupt <
        rtcTicks 1024 := by
  have htest : RtcStep 1024 (call 1) .step ⟨.wait, 0, 1⟩ := step_test_of_lt (by decide)
  have hround : Run (RtcStep 1024) ⟨.wait, 0, 1⟩ _ ⟨.test, 0 + 1, 0⟩ := run_round (by decide)
  have hlast : RtcStep 1024 ⟨.test, 1, 0⟩ .step ⟨.done, 1, 0⟩ := step_test_of_le (by decide)
  exact ⟨.cons htest (hround.append (.single hlast)), by decide⟩

end Mp3Kernel
