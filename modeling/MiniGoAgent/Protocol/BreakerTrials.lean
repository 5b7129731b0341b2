/-
# `Protocol.BreakerTrials` — how many requests a half-open breaker lets through

`HalfOpenMaxCalls` is meant to bound the trial requests of a half-open phase: the
calls of `Check` without an error that answer yes from the transition into the
half-open state (that call included) to the transition out of it.  No code reads the
option, and a half-open breaker says yes to everyone who asks.

`TrialLog` runs the breaker together with two counts the breaker itself does not
keep, the trials of the phase and the requests in flight.
-/
import MiniGoAgent.Protocol.Breaker

open Go

namespace MiniGoAgent

variable {op : BreakerOp} {opts : BreakerOptions}

/-- A breaker, the trials of its present half-open phase, and the requests that were
let through and have not reported yet. -/
structure TrialLog where
  clock : BreakerClock
  trials : Nat := 0
  inFlight : Nat := 0

/-- The call is `Check(nil)` and answers yes. -/
def admits (cb : CircuitBreaker) : BreakerOp → Bool
  | .check now none => (cb.check now none).2
  | _ => false

/-- The call reports a failure or a success. -/
def BreakerOp.reports : BreakerOp → Bool
  | .check _ none => false
  | .check _ (some _) => true
  | .success _ => true

/-- The trials of the phase behind a call: a phase that begins counts from zero. -/
def trialsAfter (cb : CircuitBreaker) (trials : Nat) (op : BreakerOp) : Nat :=
  if (cb.apply op).state = .halfOpen then
    (if cb.state = .halfOpen then trials else 0) + (if admits cb op then 1 else 0)
  else 0

def inFlightAfter (cb : CircuitBreaker) (inFlight : Nat) (op : BreakerOp) : Nat :=
  if op.reports then inFlight - 1 else inFlight + (if admits cb op then 1 else 0)

/-- `breakerMachine` with the two counts. -/
def trialMachine (opts : BreakerOptions) : Machine TrialLog BreakerOp where
  init := { clock := (breakerMachine opts).init }
  step t op :=
    ((breakerMachine opts).step t.clock op).map (fun clock =>
      { clock
        trials := trialsAfter t.clock.breaker t.trials op
        inFlight := inFlightAfter t.clock.breaker t.inFlight op })

theorem trialMachine_step {t t' : TrialLog} (h : (trialMachine opts).step t op = some t') :
    t'.clock.breaker = t.clock.breaker.apply op ∧
      t'.trials = trialsAfter t.clock.breaker t.trials op ∧
      t'.inFlight = inFlightAfter t.clock.breaker t.inFlight op := by
  obtain ⟨clock, hclock, rfl⟩ := Option.map_eq_some_iff.mp h
  obtain ⟨_, hbreaker, _⟩ := breakerMachine_step hclock
  exact ⟨hbreaker, rfl, rfl⟩

/-- The caller of `Check(nil)` on a half-open breaker finds fewer than `k` requests in
flight. -/
def FewInFlight (k : Int) (t : TrialLog) (op : BreakerOp) : Prop :=
  t.clock.breaker.state = .halfOpen → op.reports = false → (t.inFlight : Int) < k

/-- The trials of a half-open phase are in flight, and there are at most `k`. -/
def TrialsKept (k : Int) (t : TrialLog) : Prop :=
  t.clock.breaker.state = .halfOpen → t.trials ≤ t.inFlight ∧ (t.trials : Int) ≤ k

theorem admits_of_reports (cb : CircuitBreaker) (h : op.reports = true) : admits cb op = false := by
  cases op with
  | success now => rfl
  | check now err =>
    cases err with
    | none => cases h
    | some err => rfl

theorem halfOpen_after {cb : CircuitBreaker} (h : (cb.apply op).state = .halfOpen) :
    cb.state = .opened ∨
      (cb.state = .halfOpen ∧ op.reports = false ∧ admits cb op = true) := by
  cases op with
  | success now =>
    cases hstate : cb.state with
    | opened => exact Or.inl rfl
    | closed | halfOpen => simp [CircuitBreaker.apply, success_eq, hstate] at h
  | check now err =>
    obtain ⟨cb', answer, hcheck, hchecks⟩ := exists_checks cb now err
    rw [CircuitBreaker.apply, hcheck] at h
    cases hchecks with
    | passes hstate => exact Or.inr ⟨h, rfl, by rw [admits, hcheck]⟩
    | counts hstate _ => cases hstate.symm.trans h
    | trips | reopens => cases h
    | waits hstate | probes hstate => exact Or.inl hstate

theorem trialsKept_step {k : Int} (hk : 0 < k) {t t' : TrialLog}
    (h : TrialsKept k t) (hfew : FewInFlight k t op)
    (hstep : (trialMachine opts).step t op = some t') : TrialsKept k t' := by
  obtain ⟨hbreaker, htrials, hflight⟩ := trialMachine_step hstep
  intro hhalf
  rw [hbreaker] at hhalf
  rw [htrials, hflight, trialsAfter, if_pos hhalf, inFlightAfter]
  rcases halfOpen_after hhalf with hopened | ⟨hsame, hasks, hyes⟩
  · have hnot : ¬ t.clock.breaker.state = .halfOpen := by
      rw [hopened]
      decide
    rw [if_neg hnot]
    by_cases hreports : op.reports = true
    · rw [admits_of_reports _ hreports]
      simp only [Bool.false_eq_true, if_false]
      omega
    · rw [if_neg hreports]
      split_ifs <;> omega
  · obtain ⟨hle, -⟩ := h hsame
    have hlt := hfew hsame hasks
    rw [if_pos hsame, hasks, hyes]
    simp only [if_true, Bool.false_eq_true, if_false]
    omega

/-- In a run in which every caller that asks a half-open breaker finds fewer than
`HalfOpenMaxCalls` requests in flight, no half-open phase has more trials than that. -/
theorem trials_bounded (hk : 0 < opts.halfOpenMaxCalls)
    {ops : List BreakerOp} {t : TrialLog}
    (hfew : (trialMachine opts).Along (FewInFlight opts.halfOpenMaxCalls)
      (trialMachine opts).init ops)
    (hrun : (trialMachine opts).run (trialMachine opts).init ops = some t) :
    t.clock.breaker.state = .halfOpen → (t.trials : Int) ≤ opts.halfOpenMaxCalls := by
  have hinit : TrialsKept opts.halfOpenMaxCalls (trialMachine opts).init := by
    exact nofun
  have hkept := (trialMachine opts).run_invariant
    (fun _ _ _ hkept hfew hstep => trialsKept_step hk hkept hfew hstep) hinit hfew hrun
  intro hhalf
  exact (hkept hhalf).2

/-- Two trials of two, the second with one request in flight. -/
theorem trials_bounded_two :
    ∃ t : TrialLog,
      (trialMachine { timeout := 10, halfOpenMaxCalls := 2, failureThreshold := 1 }).run
          (trialMachine { timeout := 10, halfOpenMaxCalls := 2, failureThreshold := 1 }).init
          [.check 0 (some .eof), .check 10 none, .check 11 none] = some t ∧
        t.clock.breaker.state = .halfOpen ∧ t.trials = 2 ∧ (t.trials : Int) ≤ 2 := by
  refine ⟨_, rfl, by decide, by decide, ?_⟩
  refine @trials_bounded { timeout := 10, halfOpenMaxCalls := 2, failureThreshold := 1 } (by decide)
    [.check 0 (some .eof), .check 10 none, .check 11 none] _ ?_ rfl (by decide)
  refine Machine.along_cons _ rfl ?_ (Machine.along_cons _ rfl ?_
    (Machine.along_cons _ rfl ?_ trivial))
  · intro hhalf
    exact absurd hhalf (by decide)
  · intro hhalf
    exact absurd hhalf (by decide)
  · intro _ _
    decide

/-- With `HalfOpenMaxCalls = 1` three callers are let through before any of them has
reported. -/
theorem three_trials_of_one :
    ((trialMachine { timeout := 10, halfOpenMaxCalls := 1, failureThreshold := 1 }).run
        (trialMachine { timeout := 10, halfOpenMaxCalls := 1, failureThreshold := 1 }).init
        [.check 0 (some .eof), .check 10 none, .check 10 none, .check 10 none]).map
      (fun t => (t.clock.breaker.state, t.trials)) = some (.halfOpen, 3) := by
  decide

end MiniGoAgent
