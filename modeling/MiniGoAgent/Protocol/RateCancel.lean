/-
# `Protocol.RateCancel` — what a cancelled wait leaves behind

`Wait` charges a call before it sleeps, and a call whose context is done while
it sleeps returns with the charge in place.  Two runs are compared here: one
with the cancelled call, and the same later calls without it.

`cancelled_neutral_iff` says for which calls they cannot be told apart.  Otherwise some
later call sleeps in one of the runs and not in the other; `probe` builds it.
-/
import MiniGoAgent.Protocol.RateLimit

open Go

namespace MiniGoAgent

/-! ## What later calls see -/

/-- What a caller of `Wait` observes: the error, and how long it has to sleep. -/
structure WaitAnswer where
  err : Option Err
  slept : Int
  deriving DecidableEq, Repr

namespace RateLimiter

def answer (rl : RateLimiter) (c : WaitCall) : WaitAnswer := ⟨(rl.wait c).2, rl.sleep c⟩

def answers : RateLimiter → List WaitCall → List WaitAnswer
  | _, [] => []
  | rl, c :: rest => rl.answer c :: answers (rl.wait c).1 rest

end RateLimiter

/-- No later call is answered differently because of `c`. -/
def NeutralWait (s : LimiterState) (c : WaitCall) : Prop :=
  ∀ later,
    ((limiterMachine s.rl.rpm s.rl.tpm s.clock).run (s.after c) later).isSome = true →
      (s.after c).rl.answers later = s.rl.answers later

/-- The charge of a call that is cancelled at `at_` makes no difference: its
minute is over by then, or was full before the call, or only tokens are limited
and the call has none. -/
def Uncharged (rl : RateLimiter) (c : WaitCall) (at_ : Int) : Prop :=
  (rl.renew c.now).expired at_ = true ∨
    (rl.expired c.now = false ∧
      ((0 < rl.rpm ∧ rl.rpm ≤ rl.rCount) ∨ (rl.rpm ≤ 0 ∧ c.tokens = 0)))

/-! ## Limiters that answer alike -/

/-- One window, and counters that decide the same. -/
structure Matched (rl rl' : RateLimiter) : Prop where
  rpm : rl.rpm = rl'.rpm
  tpm : rl.tpm = rl'.tpm
  window : rl.window = rl'.window
  counts : (0 < rl.rpm ∧ rl.rpm ≤ rl.rCount ∧ rl.rpm ≤ rl'.rCount) ∨
    (rl.tCount = rl'.tCount ∧ (rl.rpm ≤ 0 ∨ rl.rCount = rl'.rCount))

/-- Matched, or about to start a new window each. -/
def Alike (clock : Int) (rl rl' : RateLimiter) : Prop :=
  Matched rl rl' ∨
    (rl.rpm = rl'.rpm ∧ rl.tpm = rl'.tpm ∧ rl.expired clock = true ∧ rl'.expired clock = true)

section Alike

variable {rl rl' : RateLimiter} {clock now : Int} {c : WaitCall}

theorem expired_mono (h : rl.expired clock = true) (hle : clock ≤ now) : rl.expired now = true := by
  cases hw : rl.window with
  | none => simp [RateLimiter.expired, hw]
  | some w =>
    rw [rl.expired_iff _ hw] at h ⊢
    omega

theorem Matched.expired_eq (h : Matched rl rl') : rl.expired now = rl'.expired now := by
  simp only [RateLimiter.expired, h.window]

theorem charge_of_both_expired (hrpm : rl.rpm = rl'.rpm) (htpm : rl.tpm = rl'.tpm)
    (h : rl.expired c.now = true) (h' : rl'.expired c.now = true) :
    rl.charge c.now c.tokens = rl'.charge c.now c.tokens := by
  rw [rl.charge_of_expired _ _ h, rl'.charge_of_expired _ _ h', hrpm, htpm]

theorem Alike.charge (h : Alike clock rl rl') (hle : clock ≤ c.now) :
    Matched (rl.charge c.now c.tokens) (rl'.charge c.now c.tokens) ∧
      rl.overLimit c = rl'.overLimit c := by
  have hboth : rl.charge c.now c.tokens = rl'.charge c.now c.tokens →
      Matched (rl.charge c.now c.tokens) (rl'.charge c.now c.tokens) ∧
      rl.overLimit c = rl'.overLimit c := by
    intro heq
    simp only [RateLimiter.overLimit, heq, and_true]
    exact ⟨rfl, rfl, rfl, Or.inr ⟨rfl, Or.inr rfl⟩⟩
  rcases h with hm | ⟨hrpm, htpm, he, he'⟩
  · cases hexp : rl.expired c.now with
    | true =>
      exact hboth (charge_of_both_expired hm.rpm hm.tpm hexp (by rw [← hm.expired_eq, hexp]))
    | false =>
      have hexp' : rl'.expired c.now = false := by rw [← hm.expired_eq, hexp]
      have hcounts := hm.counts
      rw [← Bool.not_inj_iff, Bool.eq_iff_iff, Bool.not_eq_true', Bool.not_eq_true',
        RateLimiter.over_eq_false_iff, RateLimiter.over_eq_false_iff,
        rl.charge_of_not_expired _ _ hexp, rl'.charge_of_not_expired _ _ hexp', ← hm.rpm, ← hm.tpm]
      refine ⟨⟨rfl, rfl, hm.window, ?_⟩, ?_⟩
      · dsimp only
        omega
      · dsimp only
        omega
  · exact hboth (charge_of_both_expired hrpm htpm (expired_mono he hle) (expired_mono he' hle))

theorem Matched.sleep_eq (h : Matched (rl.charge c.now c.tokens) (rl'.charge c.now c.tokens))
    (hoff : rl.off = false) (hoff' : rl'.off = false) (hover : rl.overLimit c = rl'.overLimit c) :
    rl.sleep c = rl'.sleep c := by
  cases ho : rl.overLimit c with
  | false =>
    rw [RateLimiter.sleep_of_not_over ho, RateLimiter.sleep_of_not_over (by rw [← hover, ho])]
  | true =>
    rw [RateLimiter.sleep_of_over hoff ho, RateLimiter.sleep_of_over hoff' (by rw [← hover, ho])]
    simp only [RateLimiter.remaining, h.window]

theorem Alike.wait (h : Alike clock rl rl') (hle : clock ≤ c.now) (hoff : rl.off = false)
    (hoff' : rl'.off = false) :
    rl.answer c = rl'.answer c ∧ Matched (rl.wait c).1 (rl'.wait c).1 := by
  obtain ⟨hm, hover⟩ := h.charge hle
  have hsleep := hm.sleep_eq hoff hoff' hover
  simp only [RateLimiter.answer, hsleep, WaitAnswer.mk.injEq, and_true]
  cases ho : rl.overLimit c with
  | false =>
    rw [RateLimiter.wait_of_not_over hoff ho,
      RateLimiter.wait_of_not_over hoff' (by rw [← hover, ho])]
    exact ⟨rfl, hm⟩
  | true =>
    have ho' : rl'.overLimit c = true := by rw [← hover, ho]
    cases hexit : c.exit with
    | done at_ err =>
      rw [RateLimiter.wait_of_done hoff ho hexit, RateLimiter.wait_of_done hoff' ho' hexit]
      exact ⟨rfl, hm⟩
    | after wake =>
      rw [RateLimiter.wait_of_after hoff ho hexit, RateLimiter.wait_of_after hoff' ho' hexit]
      exact ⟨rfl, hm.rpm, hm.tpm, rfl, Or.inr ⟨rfl, Or.inr rfl⟩⟩

theorem off_wait (rl : RateLimiter) (c : WaitCall) : (rl.wait c).1.off = rl.off := by
  obtain ⟨hrpm, htpm⟩ := @RateLimiter.wait_limits rl c
  simp only [RateLimiter.off, hrpm, htpm]

theorem Alike.answers {M : Machine LimiterState WaitCall} (hM : M.step = LimiterState.step)
    {s : LimiterState} (h : Alike s.clock s.rl rl') (hoff : s.rl.off = false)
    (hoff' : rl'.off = false) {later : List WaitCall} (hrun : (M.run s later).isSome = true) :
    s.rl.answers later = rl'.answers later := by
  induction later generalizing s rl' with
  | nil => rfl
  | cons c rest ih =>
    obtain ⟨last, hlast⟩ := Option.isSome_iff_exists.mp hrun
    rw [Machine.run, Option.bind_eq_some_iff, hM] at hlast
    obtain ⟨t, hstep, hrest⟩ := hlast
    obtain ⟨hf, rfl⟩ := LimiterState.step_eq_some.mp hstep
    simp only [WaitCall.feasible, Bool.and_eq_true, decide_eq_true_eq] at hf
    obtain ⟨hanswer, hmatched⟩ := h.wait hf.1 hoff hoff'
    rw [RateLimiter.answers, RateLimiter.answers, hanswer]
    have hnext : Alike (s.after c).clock (s.after c).rl (rl'.wait c).1 := Or.inl hmatched
    rw [← ih hnext (by rw [← hoff]; exact off_wait s.rl c) (by rw [← hoff']; exact off_wait rl' c)
      (by rw [hrest]; rfl)]
    rfl

end Alike

/-! ## Telling two limiters apart -/

/-- A call at `now` whose context is done already. -/
def probe (now tokens : Int) : WaitCall := ⟨now, tokens, .done now .canceled⟩

/-- Some later calls are answered differently. -/
def ToldApart (M : Machine LimiterState WaitCall) (s : LimiterState) (rl' : RateLimiter) : Prop :=
  ∃ later, (M.run s later).isSome = true ∧ s.rl.answers later ≠ rl'.answers later

section Apart

variable {M : Machine LimiterState WaitCall} (hM : M.step = LimiterState.step) {s : LimiterState}
  {rl' : RateLimiter}

include hM

theorem probe_step (tokens : Int) : M.step s (probe s.clock tokens) =
    some (s.after (probe s.clock tokens)) := by
  rw [hM, LimiterState.step_eq_some]
  simp [WaitCall.feasible, probe]

theorem toldApart_of_probe (tokens : Int) (hoff : s.rl.off = false) (hoff' : rl'.off = false)
    (h : s.rl.overLimit (probe s.clock tokens) ≠ rl'.overLimit (probe s.clock tokens)) :
    ToldApart M s rl' := by
  refine ⟨[probe s.clock tokens], ?_, ?_⟩
  · rw [M.run_cons (probe_step hM tokens)]
    rfl
  · intro heq
    simp only [RateLimiter.answers, RateLimiter.answer, List.cons.injEq, WaitAnswer.mk.injEq,
      and_true] at heq
    apply h
    rw [Bool.eq_iff_iff, ← RateLimiter.sleep_pos_iff hoff, ← RateLimiter.sleep_pos_iff hoff', heq.2]

theorem toldApart_of_next (tokens : Int)
    (h : ToldApart M (s.after (probe s.clock tokens)) (rl'.wait (probe s.clock tokens)).1) :
    ToldApart M s rl' := by
  obtain ⟨later, hrun, hne⟩ := h
  refine ⟨probe s.clock tokens :: later, ?_, ?_⟩
  · rw [M.run_cons (probe_step hM tokens)]
    exact hrun
  · intro heq
    simp only [RateLimiter.answers, List.cons.injEq] at heq
    exact hne heq.2

end Apart

theorem over_probe {rl : RateLimiter} {now : Int} (h : rl.expired now = false) (tokens : Int) :
    rl.overLimit (probe now tokens) = false ↔
      (0 < rl.rpm → (rl.rCount : Int) + 1 ≤ rl.rpm) ∧
        (0 < rl.tpm → rl.tCount + tokens ≤ rl.tpm) := by
  rw [RateLimiter.over_eq_false_iff, probe, RateLimiter.charge_of_not_expired _ _ _ h]
  exact Iff.rfl

/-- Two limiters in one window, one of them with a request more. -/
structure Ahead (s : LimiterState) (rl' : RateLimiter) : Prop where
  off : s.rl.off = false
  rpm : s.rl.rpm = rl'.rpm
  tpm : s.rl.tpm = rl'.tpm
  window : s.rl.window = rl'.window
  current : s.rl.expired s.clock = false
  requests : s.rl.rCount = rl'.rCount + 1

namespace Ahead

variable {M : Machine LimiterState WaitCall} {s : LimiterState} {rl' : RateLimiter}

theorem off' (h : Ahead s rl') : rl'.off = false := by
  rw [← h.off]
  simp only [RateLimiter.off, h.rpm, h.tpm]

theorem current' (h : Ahead s rl') : rl'.expired s.clock = false := by
  rw [← h.current]
  simp only [RateLimiter.expired, h.window]

theorem probed (h : Ahead s rl') {tokens : Int}
    (hover : s.rl.overLimit (probe s.clock tokens) = false)
    (hover' : rl'.overLimit (probe s.clock tokens) = false) :
    s.after (probe s.clock tokens) =
        { s with
          rl := ⟨s.rl.rpm, s.rl.tpm, s.rl.window, s.rl.rCount + 1, s.rl.tCount + tokens⟩
          admitted := s.admitted ++ [s.rl.window] } ∧
      (rl'.wait (probe s.clock tokens)).1 =
        ⟨rl'.rpm, rl'.tpm, rl'.window, rl'.rCount + 1, rl'.tCount + tokens⟩ := by
  constructor
  · rw [LimiterState.after_of_not_over h.off hover]
    simp [probe, RateLimiter.charge_of_not_expired _ _ _ h.current, h.current,
      LimiterState.cancelledIn]
  · rw [RateLimiter.wait_of_not_over h.off' hover', probe,
      RateLimiter.charge_of_not_expired _ _ _ h.current']

variable (hM : M.step = LimiterState.step)

include hM

theorem toldApart_of_counts (h : Ahead s rl') (tokens : Int)
    (hne : ¬ ((0 < rl'.rpm → (rl'.rCount : Int) + 2 ≤ rl'.rpm) ∧
        (0 < rl'.tpm → s.rl.tCount + tokens ≤ rl'.tpm) ↔
      (0 < rl'.rpm → (rl'.rCount : Int) + 1 ≤ rl'.rpm) ∧
        (0 < rl'.tpm → rl'.tCount + tokens ≤ rl'.tpm))) : ToldApart M s rl' := by
  refine toldApart_of_probe hM tokens h.off h.off' fun heq => hne ?_
  rw [← over_probe h.current', ← heq, over_probe h.current, h.rpm, h.tpm, h.requests]
  omega

theorem toldApart_of_last (h : Ahead s rl') (hlast : (rl'.rCount : Int) + 1 = rl'.rpm) :
    ToldApart M s rl' :=
  h.toldApart_of_counts hM (rl'.tpm - rl'.tCount) (by omega)

theorem toldApart (h : Ahead s rl')
    (htokens : s.rl.tCount = rl'.tCount) (left : Nat)
    (hleft : (rl'.rCount : Int) + left + 1 = rl'.rpm) : ToldApart M s rl' := by
  induction left generalizing s rl' with
  | zero => exact h.toldApart_of_last hM (by omega)
  | succ left ih =>
    have hover' : rl'.overLimit (probe s.clock (rl'.tpm - rl'.tCount)) = false := by
      rw [over_probe h.current']
      omega
    have hover : s.rl.overLimit (probe s.clock (rl'.tpm - rl'.tCount)) = false := by
      rw [over_probe h.current, h.rpm, h.tpm, h.requests, htokens]
      omega
    obtain ⟨hs, hrl⟩ := h.probed hover hover'
    refine toldApart_of_next hM (rl'.tpm - rl'.tCount) ?_
    rw [hs, hrl]
    refine ih ⟨?_, h.rpm, h.tpm, h.window, h.current, ?_⟩ ?_ ?_
    · exact h.off
    · dsimp only
      rw [h.requests]
    · dsimp only
      rw [htokens]
    · dsimp only
      omega

theorem toldApart_of_tokens (h : Ahead s rl') (htpm : 0 < rl'.tpm)
    (htokens : s.rl.tCount ≠ rl'.tCount)
    (hroom : rl'.rpm ≤ 0 ∨ (rl'.rCount : Int) + 1 < rl'.rpm) : ToldApart M s rl' := by
  rcases Int.lt_or_gt_of_ne htokens with hlt | hgt
  · exact h.toldApart_of_counts hM (rl'.tpm - s.rl.tCount) (by omega)
  · exact h.toldApart_of_counts hM (rl'.tpm - rl'.tCount) (by omega)

theorem toldApart_of_room (h : Ahead s rl') (htpm : 0 < rl'.tpm)
    (hroom : rl'.rpm ≤ 0 ∨ (rl'.rCount : Int) < rl'.rpm)
    (hcharge : 0 < rl'.rpm ∨ s.rl.tCount ≠ rl'.tCount) : ToldApart M s rl' := by
  by_cases hlast : (rl'.rCount : Int) + 1 = rl'.rpm
  · exact h.toldApart_of_last hM hlast
  · by_cases htokens : s.rl.tCount = rl'.tCount
    · have hpos := hcharge.resolve_right (fun hne => hne htokens)
      obtain ⟨left, hleft⟩ := Int.le.dest (show (rl'.rCount : Int) + 1 ≤ rl'.rpm by omega)
      refine h.toldApart hM htokens left ?_
      omega
    · exact h.toldApart_of_tokens hM htpm htokens (by omega)

end Ahead

/-! ## When a cancelled call is neutral -/

section Cancelled

variable {s s' : LimiterState} {c : WaitCall} {at_ : Int} {err : Err}

theorem over_of_cancelled {rl : RateLimiter} (h : (rl.wait c).2 = some err) :
    rl.off = false ∧ rl.overLimit c = true := by
  cases hoff : rl.off with
  | true => simp [RateLimiter.wait, hoff] at h
  | false =>
    refine ⟨rfl, ?_⟩
    cases hover : rl.overLimit c with
    | true => rfl
    | false =>
      rw [RateLimiter.wait_of_not_over hoff hover] at h
      cases h

theorem toldApart_of_expired {M : Machine LimiterState WaitCall} (hM : M.step = LimiterState.step)
    (hoff : s.rl.off = false) (hover : s.rl.overLimit c = true) (hexit : c.exit = .done at_ err)
    (hexp : s.rl.expired c.now = true) (hle : c.now ≤ at_)
    (hcurrent : (s.rl.renew c.now).expired at_ = false) : ToldApart M (s.after c) s.rl := by
  rw [LimiterState.after_of_done hoff hover hexit, RateLimiter.charge_of_expired _ _ _ hexp]
  have htokens : 0 < s.rl.tpm ∧ s.rl.tpm < c.tokens := by
    have hnot : ¬ s.rl.overLimit c = false := by rw [hover]; simp
    rw [RateLimiter.over_eq_false_iff, RateLimiter.charge_of_expired _ _ _ hexp] at hnot
    dsimp only at hnot
    omega
  have hopen : RateLimiter.expired ⟨s.rl.rpm, s.rl.tpm, some c.now, 1, c.tokens⟩ at_ = false := by
    rw [← hcurrent, ← RateLimiter.charge_of_expired _ _ _ hexp]
    rfl
  refine toldApart_of_probe hM 0 hoff hoff ?_
  have hthere : s.rl.overLimit (probe at_ 0) = false := by
    rw [RateLimiter.over_eq_false_iff, probe,
      RateLimiter.charge_of_expired _ _ _ (expired_mono hexp hle)]
    dsimp only
    omega
  have hhere : RateLimiter.overLimit ⟨s.rl.rpm, s.rl.tpm, some c.now, 1, c.tokens⟩ (probe at_ 0) ≠
      false := by
    rw [Ne, over_probe hopen]
    dsimp only
    omega
  dsimp only
  rw [hthere]
  exact hhere

theorem uncharged_of_neutral (hoff : s.rl.off = false) (hover : s.rl.overLimit c = true)
    (hexit : c.exit = .done at_ err) (hle : c.now ≤ at_) (h : NeutralWait s c) :
    Uncharged s.rl c at_ := by
  by_contra hnot
  simp only [Uncharged, not_or, Bool.not_eq_true] at hnot
  obtain ⟨hcurrent, hcounts⟩ := hnot
  have happart : ToldApart (limiterMachine s.rl.rpm s.rl.tpm s.clock) (s.after c) s.rl := by
    cases hexp : s.rl.expired c.now with
    | true => exact toldApart_of_expired rfl hoff hover hexit hexp hle hcurrent
    | false =>
      rw [LimiterState.after_of_done hoff hover hexit,
        RateLimiter.charge_of_not_expired _ _ _ hexp]
      have hopen : s.rl.expired at_ = false := by
        rw [← hcurrent]
        simp [RateLimiter.renew, hexp]
      have hnotover : ¬ s.rl.overLimit c = false := by rw [hover]; simp
      rw [RateLimiter.over_eq_false_iff, RateLimiter.charge_of_not_expired _ _ _ hexp] at hnotover
      dsimp only at hnotover
      simp only [hexp, true_and] at hcounts
      refine Ahead.toldApart_of_room rfl ⟨hoff, rfl, rfl, rfl, hopen, rfl⟩ ?_ ?_ ?_
      · omega
      · omega
      · dsimp only
        omega
  obtain ⟨later, hrun, hne⟩ := happart
  exact hne (h later hrun)

theorem alike_of_uncharged (hoff : s.rl.off = false) (hover : s.rl.overLimit c = true)
    (hexit : c.exit = .done at_ err) (hle : c.now ≤ at_) (h : Uncharged s.rl c at_) :
    Alike (s.after c).clock (s.after c).rl s.rl := by
  rw [LimiterState.after_of_done hoff hover hexit]
  dsimp only
  rcases h with hpast | ⟨hexp, hcounts⟩
  · refine Or.inr ⟨s.rl.charge_rpm _ _, s.rl.charge_tpm _ _, hpast, ?_⟩
    cases hexp : s.rl.expired c.now with
    | true => exact expired_mono hexp hle
    | false => simpa [RateLimiter.renew, hexp] using hpast
  · rw [RateLimiter.charge_of_not_expired _ _ _ hexp]
    refine Or.inl ⟨rfl, rfl, rfl, ?_⟩
    dsimp only
    omega

/-- A cancelled call goes unnoticed by all later calls exactly if its charge makes
no difference. -/
theorem cancelled_neutral_iff (hstep : s.step c = some s') (hexit : c.exit = .done at_ err)
    (hcancelled : (s.rl.wait c).2 = some err) : NeutralWait s c ↔ Uncharged s.rl c at_ := by
  obtain ⟨hoff, hover⟩ := over_of_cancelled hcancelled
  obtain ⟨hf, -⟩ := LimiterState.step_eq_some.mp hstep
  simp only [WaitCall.feasible, hexit, Bool.and_eq_true, decide_eq_true_eq] at hf
  constructor
  · exact uncharged_of_neutral hoff hover hexit hf.2
  · intro h later hrun
    have halike := alike_of_uncharged hoff hover hexit hf.2 h
    exact halike.answers rfl (by rw [← hoff]; exact off_wait s.rl c) hoff hrun

end Cancelled

/-- One request a minute: cancelling the second call of the minute changes nothing. -/
theorem cancelled_neutral_iff_full :
    NeutralWait ⟨⟨1, 0, some 0, 1, 5⟩, 0, false, 0, [some 0]⟩ ⟨1, 5, .done 2 .canceled⟩ :=
  (cancelled_neutral_iff rfl rfl rfl).mpr (Or.inr ⟨by decide, Or.inl ⟨by decide, by decide⟩⟩)

/-- Ten tokens a minute.  A call with five is let through and one with a hundred is
cancelled; the next one, with three, has to sleep because of it. -/
theorem cancelled_charge_stays :
    ∃ s, (limiterMachine 0 10 0).run (limiterMachine 0 10 0).init [⟨0, 5, .done 0 .canceled⟩] =
        some s ∧
      (s.rl.wait ⟨1, 100, .done 2 .canceled⟩).2 = some .canceled ∧
      ¬ NeutralWait s ⟨1, 100, .done 2 .canceled⟩ :=
  ⟨_, rfl, rfl, fun h => absurd (h [⟨3, 3, .after 60000000000⟩] rfl) (by decide)⟩

end MiniGoAgent
