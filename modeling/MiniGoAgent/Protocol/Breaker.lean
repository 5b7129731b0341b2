/-
# `Protocol.Breaker` — the circuit breaker (`types.go`)

`CircuitBreaker` counts failures down in the field `failureThreshold`, next to
the configured threshold of the same name in its options.  `Check` is both the
question whether a request may go out (with no error) and the report of a
failure (with one); `Success` reports a success.

Every operation comes with the moment at which it takes the lock, and
`breakerMachine` runs them in the order of these moments.  `Checks` lists what
`Check` does, one rule a branch; everything below is a case analysis on it.
`circuitBreaker_spec` is the contract of the breaker over all runs.
-/
import MiniGoAgent.Go.Machine
import MiniGoAgent.Protocol.Types

open Go

namespace MiniGoAgent

/-! ## The breaker -/

/-- `CircuitBreakerState`. -/
inductive BreakerState where
  | closed
  | opened
  | halfOpen
  deriving DecidableEq, Repr

/-- `CircuitBreakerOptions`. -/
structure BreakerOptions where
  timeout : Int
  /-- read nowhere -/
  halfOpenMaxCalls : Int := 0
  checkHTTPCodes : List Nat := []
  checkErrors : List Err := []
  failureThreshold : Int := 0
  deriving Repr

structure CircuitBreaker where
  failureThreshold : Int
  /-- set whenever the breaker opens, and read only while it is open -/
  lastFailure : Int := 0
  state : BreakerState := .closed
  options : BreakerOptions
  deriving Repr

def newCircuitBreaker (opts : BreakerOptions) : CircuitBreaker :=
  let opts := if opts.failureThreshold ≤ 0 then { opts with failureThreshold := 5 } else opts
  { failureThreshold := opts.failureThreshold, options := opts }

/-- The status of the first `*AuthError` of the chain. -/
def Err.authStatus (err : Err) : Option Nat :=
  err.chain.findSome? (fun e => match e with
    | .authError _ status _ => some status
    | _ => none)

namespace CircuitBreaker

/-- `isFailure`: the options are consulted, and the answer is the same without them. -/
def isFailure (cb : CircuitBreaker) : Option Err → Bool
  | none => false
  | some err =>
    if cb.options.checkErrors.any (fun e => err.is e) then true
    else if cb.options.checkHTTPCodes.any (fun code => err.authStatus == some code) then true
    else true

/-- `Check`, at the moment `now`. -/
def check (cb : CircuitBreaker) (now : Int) (err : Option Err) : CircuitBreaker × Bool :=
  match cb.state with
  | .closed =>
    if cb.isFailure err then
      let cb := { cb with failureThreshold := cb.failureThreshold - 1 }
      if cb.failureThreshold ≤ 0 then
        ({ cb with state := .opened, lastFailure := now }, false)
      else (cb, true)
    else (cb, true)
  | .opened =>
    if cb.options.timeout ≤ now - cb.lastFailure then ({ cb with state := .halfOpen }, true)
    else (cb, false)
  | .halfOpen =>
    if cb.isFailure err then ({ cb with state := .opened, lastFailure := now }, false)
    else (cb, true)

def success (cb : CircuitBreaker) : CircuitBreaker :=
  match cb.state with
  | .halfOpen => { cb with failureThreshold := cb.options.failureThreshold, state := .closed }
  | .closed => { cb with failureThreshold := cb.options.failureThreshold }
  | .opened => cb

end CircuitBreaker

theorem isFailure_eq (cb : CircuitBreaker) (err : Option Err) : cb.isFailure err = err.isSome := by
  cases err with
  | none => rfl
  | some err =>
    show (if _ then true else if _ then true else true) = true
    split
    · rfl
    · split <;> rfl

/-- What `Check` does at `now`, and its answer. -/
inductive Checks (cb : CircuitBreaker) (now : Int) : Option Err → CircuitBreaker → Bool → Prop
  | passes : cb.state ≠ .opened → Checks cb now none cb true
  | counts {err : Err} : cb.state = .closed → 1 < cb.failureThreshold →
      Checks cb now (some err) { cb with failureThreshold := cb.failureThreshold - 1 } true
  | trips {err : Err} : cb.state = .closed → cb.failureThreshold ≤ 1 →
      Checks cb now (some err)
        { cb with
          failureThreshold := cb.failureThreshold - 1
          state := .opened
          lastFailure := now } false
  | waits {err : Option Err} : cb.state = .opened → now - cb.lastFailure < cb.options.timeout →
      Checks cb now err cb false
  | probes {err : Option Err} : cb.state = .opened → cb.options.timeout ≤ now - cb.lastFailure →
      Checks cb now err { cb with state := .halfOpen } true
  | reopens {err : Err} : cb.state = .halfOpen →
      Checks cb now (some err) { cb with state := .opened, lastFailure := now } false

theorem check_checks (cb : CircuitBreaker) (now : Int) (err : Option Err) :
    Checks cb now err (cb.check now err).1 (cb.check now err).2 := by
  have hfailure := isFailure_eq cb err
  fun_cases CircuitBreaker.check cb now err
  case case3 hstate hpass | case7 hstate hpass =>
    obtain rfl : err = none := by simpa [hfailure] using hpass
    exact .passes (by simp [hstate])
  case case4 hstate helapsed => exact .probes hstate helapsed
  case case5 hstate helapsed => exact .waits hstate (Int.not_le.mp helapsed)
  case case1 hstate hfail _ hlast =>
    obtain ⟨err, rfl⟩ := Option.isSome_iff_exists.mp (hfailure.symm.trans hfail)
    exact .trips hstate (Int.le_of_sub_nonpos hlast)
  case case2 hstate hfail _ hmore =>
    obtain ⟨err, rfl⟩ := Option.isSome_iff_exists.mp (hfailure.symm.trans hfail)
    exact .counts hstate (Int.lt_of_sub_pos (Int.not_le.mp hmore))
  case case6 hstate hfail =>
    obtain ⟨err, rfl⟩ := Option.isSome_iff_exists.mp (hfailure.symm.trans hfail)
    exact .reopens hstate

theorem exists_checks (cb : CircuitBreaker) (now : Int) (err : Option Err) :
    ∃ cb' answer, cb.check now err = (cb', answer) ∧ Checks cb now err cb' answer :=
  ⟨_, _, rfl, check_checks cb now err⟩

/-! ## Runs -/

inductive BreakerOp where
  | check (now : Int) (err : Option Err)
  | success (now : Int)

namespace BreakerOp

def now : BreakerOp → Int
  | .check now _ => now
  | .success now => now

def fails : BreakerOp → Bool
  | .check _ (some _) => true
  | _ => false

def succeeds : BreakerOp → Bool
  | .success _ => true
  | _ => false

end BreakerOp

/-- A breaker, and the moment of its last operation. -/
structure BreakerClock where
  breaker : CircuitBreaker
  now : Option Int := none

def CircuitBreaker.apply (cb : CircuitBreaker) : BreakerOp → CircuitBreaker
  | .check now err => (cb.check now err).1
  | .success _ => cb.success

/-- Operations on a new breaker, in the order of their moments. -/
def breakerMachine (opts : BreakerOptions) : Machine BreakerClock BreakerOp where
  init := { breaker := newCircuitBreaker opts }
  step s op :=
    if ∀ t ∈ s.now, t ≤ op.now then
      some { breaker := s.breaker.apply op, now := some op.now }
    else none

theorem breakerMachine_step {opts : BreakerOptions} {s s' : BreakerClock} {op : BreakerOp}
    (h : (breakerMachine opts).step s op = some s') :
    (∀ t ∈ s.now, t ≤ op.now) ∧ s'.breaker = s.breaker.apply op ∧ s'.now = some op.now := by
  simp only [breakerMachine, Option.ite_none_right_eq_some, Option.some.injEq] at h
  obtain ⟨hle, rfl⟩ := h
  exact ⟨hle, rfl, rfl⟩

/-- The failures reported behind the last success.  A breaker closes only with a
success, so they are also those reported since it has closed. -/
def failuresSince (ops : List BreakerOp) : Nat :=
  ops.foldl (fun n op => if op.succeeds then 0 else if op.fails then n + 1 else n) 0

theorem failuresSince_snoc (ops : List BreakerOp) (op : BreakerOp) :
    failuresSince (ops ++ [op]) =
      if op.succeeds then 0 else if op.fails then failuresSince ops + 1 else failuresSince ops := by
  rw [failuresSince, List.foldl_append]
  rfl

/-- The configured threshold: five unless set. -/
def BreakerOptions.threshold (opts : BreakerOptions) : Int :=
  if opts.failureThreshold ≤ 0 then 5 else opts.failureThreshold

theorem BreakerOptions.threshold_pos (opts : BreakerOptions) : 0 < opts.threshold := by
  unfold threshold
  split <;> omega

theorem success_eq (cb : CircuitBreaker) :
    cb.success = if cb.state = .opened then cb else
      { cb with failureThreshold := cb.options.failureThreshold, state := .closed } := by
  cases hstate : cb.state <;> simp [CircuitBreaker.success, hstate]

variable {opts : BreakerOptions} {ops : List BreakerOp} {cb : CircuitBreaker} {op : BreakerOp}

/-- The options stay, and a closed breaker has counted the failures since the
last success, fewer than the threshold. -/
structure Counted (opts : BreakerOptions) (ops : List BreakerOp) (cb : CircuitBreaker) : Prop where
  threshold : cb.options.failureThreshold = opts.threshold
  timeout : cb.options.timeout = opts.timeout
  closed : cb.state = .closed →
    cb.failureThreshold = opts.threshold - failuresSince ops ∧ failuresSince ops < opts.threshold

theorem counted_new (opts : BreakerOptions) : Counted opts [] (newCircuitBreaker opts) := by
  have hpos := opts.threshold_pos
  have hfields : (newCircuitBreaker opts).options.failureThreshold = opts.threshold ∧
      (newCircuitBreaker opts).options.timeout = opts.timeout ∧
      (newCircuitBreaker opts).failureThreshold = opts.threshold := by
    unfold newCircuitBreaker BreakerOptions.threshold
    dsimp only
    split <;> exact ⟨rfl, rfl, rfl⟩
  obtain ⟨hthreshold, htimeout, hcounter⟩ := hfields
  refine ⟨hthreshold, htimeout, fun _ => ⟨?_, hpos⟩⟩
  rw [hcounter]
  exact (Int.sub_zero _).symm

theorem Counted.success (h : Counted opts ops cb) (now : Int) :
    Counted opts (ops ++ [.success now]) cb.success := by
  have hzero : failuresSince (ops ++ [.success now]) = 0 := failuresSince_snoc ops (.success now)
  rw [success_eq]
  split
  next hstate => exact ⟨h.threshold, h.timeout, fun hclosed => nomatch hstate.symm.trans hclosed⟩
  next =>
    refine ⟨h.threshold, h.timeout, fun _ => ?_⟩
    rw [hzero]
    exact ⟨h.threshold.trans (Int.sub_zero _).symm, opts.threshold_pos⟩

theorem Counted.check (h : Counted opts ops cb) (now : Int) (err : Option Err) :
    Counted opts (ops ++ [.check now err]) (cb.check now err).1 := by
  have hsnoc := failuresSince_snoc ops (.check now err)
  obtain ⟨cb', answer, hcheck, hchecks⟩ := exists_checks cb now err
  rw [hcheck]
  cases hchecks with
  | passes hstate => exact ⟨h.threshold, h.timeout, fun hclosed => hsnoc ▸ h.closed hclosed⟩
  | counts hstate hmore =>
    refine ⟨h.threshold, h.timeout, fun _ => ?_⟩
    obtain ⟨hcount, hlt⟩ := h.closed hstate
    have hone : failuresSince (ops ++ [.check now (some _)]) = failuresSince ops + 1 := hsnoc
    rw [hone]
    dsimp only
    omega
  | trips | probes | reopens =>
    exact ⟨h.threshold, h.timeout, fun hclosed => nomatch hclosed⟩
  | waits hstate _ =>
    exact ⟨h.threshold, h.timeout, fun hclosed => nomatch hstate.symm.trans hclosed⟩

theorem counted_run {s : BreakerClock}
    (hrun : (breakerMachine opts).run (breakerMachine opts).init ops = some s) :
    Counted opts ops s.breaker := by
  refine (breakerMachine opts).run_rule (P := fun ops s => Counted opts ops s.breaker)
    (counted_new opts) ?_ hrun
  intro ops s op s' _ hs hstep
  obtain ⟨_, hbreaker, _⟩ := breakerMachine_step hstep
  rw [hbreaker]
  cases op with
  | check now err => exact hs.check now err
  | success now => exact hs.success now

/-! ## Transitions -/

theorem opens_iff (h : Counted opts ops cb) (hclosed : cb.state = .closed) (op : BreakerOp) :
    (cb.apply op).state = .opened ↔
      op.fails = true ∧ (failuresSince (ops ++ [op]) : Int) = opts.threshold := by
  obtain ⟨hcount, hlt⟩ := h.closed hclosed
  have hsnoc := failuresSince_snoc ops op
  cases op with
  | success now => simp [CircuitBreaker.apply, success_eq, hclosed, BreakerOp.fails]
  | check now err =>
    show (cb.check now err).1.state = .opened ↔ _
    obtain ⟨cb', answer, hcheck, hchecks⟩ := exists_checks cb now err
    rw [hcheck]
    cases hchecks with
    | passes hstate => exact iff_of_false hstate (fun hf => absurd hf.1 (by simp [BreakerOp.fails]))
    | counts _ hmore =>
      have hone : failuresSince (ops ++ [.check now (some _)]) = failuresSince ops + 1 := hsnoc
      refine iff_of_false (by simp [hclosed]) ?_
      rintro ⟨_, hfull⟩
      rw [hone] at hfull
      push_cast at hfull
      omega
    | trips _ hlast =>
      have hone : failuresSince (ops ++ [.check now (some _)]) = failuresSince ops + 1 := hsnoc
      refine iff_of_true rfl ⟨rfl, ?_⟩
      rw [hone]
      push_cast
      omega
    | waits hstate | probes hstate | reopens hstate => cases hclosed.symm.trans hstate

theorem closes_only (hnot : cb.state ≠ .closed) (h : (cb.apply op).state = .closed) :
    op.succeeds = true ∧ cb.state = .halfOpen := by
  cases op with
  | success now =>
    cases hstate : cb.state with
    | closed => exact absurd hstate hnot
    | opened => simp [CircuitBreaker.apply, success_eq, hstate] at h
    | halfOpen => exact ⟨rfl, rfl⟩
  | check now err =>
    obtain ⟨cb', answer, hcheck, hchecks⟩ := exists_checks cb now err
    rw [CircuitBreaker.apply, hcheck] at h
    cases hchecks with
    | passes | waits => exact absurd h hnot
    | counts hstate | trips hstate => exact absurd hstate hnot
    | probes | reopens => cases h

theorem lastFailure_of_opens (hnot : cb.state ≠ .opened) (h : (cb.apply op).state = .opened) :
    (cb.apply op).lastFailure = op.now := by
  cases op with
  | success now => simp [CircuitBreaker.apply, success_eq, hnot] at h
  | check now err =>
    obtain ⟨cb', answer, hcheck, hchecks⟩ := exists_checks cb now err
    rw [CircuitBreaker.apply, hcheck] at h ⊢
    cases hchecks with
    | passes | counts => exact absurd h hnot
    | trips | reopens => rfl
    | waits hstate | probes hstate => exact absurd hstate hnot

/-! ## Isolation -/

/-- What is left of an opening at `opening`: the breaker is open, since then or
later, or the timeout has passed. -/
def OpenSince (timeout opening : Int) (s : BreakerClock) : Prop :=
  (s.breaker.state = .opened ∧ opening ≤ s.breaker.lastFailure) ∨
    ∃ now ∈ s.now, timeout ≤ now - opening

theorem openSince_step {opening : Int} {s s' : BreakerClock}
    (htimeout : s.breaker.options.timeout = opts.timeout)
    (h : OpenSince opts.timeout opening s) (hstep : (breakerMachine opts).step s op = some s') :
    OpenSince opts.timeout opening s' := by
  obtain ⟨hclock, hbreaker, hnow⟩ := breakerMachine_step hstep
  rcases h with ⟨hopen, hafter⟩ | ⟨t, ht, helapsed⟩
  · cases op with
    | success now =>
      have heq : s.breaker.apply (.success now) = s.breaker := by
        simp [CircuitBreaker.apply, success_eq, hopen]
      rw [heq] at hbreaker
      rw [OpenSince, hbreaker]
      exact Or.inl ⟨hopen, hafter⟩
    | check now err =>
      obtain ⟨cb', answer, hcheck, hchecks⟩ := exists_checks s.breaker now err
      rw [CircuitBreaker.apply, hcheck] at hbreaker
      cases hchecks with
      | passes hnot => exact absurd hopen hnot
      | counts hstate | trips hstate | reopens hstate =>
        cases hopen.symm.trans hstate
      | waits _ _ =>
        rw [OpenSince, hbreaker]
        exact Or.inl ⟨hopen, hafter⟩
      | probes _ helapsed =>
        refine Or.inr ⟨now, hnow, ?_⟩
        omega
  · have hle := hclock t ht
    refine Or.inr ⟨op.now, hnow, ?_⟩
    omega

theorem elapsed_of_check {timeout opening now : Int} {s : BreakerClock} {err : Option Err}
    (htimeout : s.breaker.options.timeout = timeout) (h : OpenSince timeout opening s)
    (hnow : ∀ t ∈ s.now, t ≤ now) (hyes : (s.breaker.check now err).2 = true) :
    timeout ≤ now - opening := by
  rcases h with ⟨hopen, hafter⟩ | ⟨t, ht, helapsed⟩
  · have hpassed : s.breaker.options.timeout ≤ now - s.breaker.lastFailure := by
      by_contra hearly
      simp [CircuitBreaker.check, hopen, hearly] at hyes
    omega
  · have hle := hnow t ht
    omega

/-- **The circuit breaker, over all runs.**  A closed breaker counts down from
the threshold by the failures since the last success and stays between one and
the threshold; it opens exactly with the failure that makes up the threshold;
it closes again only with a success in the half-open state; and once it has
opened, every later `Check` that says yes comes at least the timeout behind
that opening. -/
theorem circuitBreaker_spec {opts : BreakerOptions} {ops : List BreakerOp} {s : BreakerClock}
    (hrun : (breakerMachine opts).run (breakerMachine opts).init ops = some s) :
    (s.breaker.state = .closed →
      1 ≤ s.breaker.failureThreshold ∧ s.breaker.failureThreshold ≤ opts.threshold ∧
        s.breaker.failureThreshold = opts.threshold - failuresSince ops) ∧
    ∀ op s', (breakerMachine opts).step s op = some s' →
      (s.breaker.state = .closed → (s'.breaker.state = .opened ↔
        op.fails = true ∧ (failuresSince (ops ++ [op]) : Int) = opts.threshold)) ∧
      (s.breaker.state ≠ .closed → s'.breaker.state = .closed →
        op.succeeds = true ∧ s.breaker.state = .halfOpen) ∧
      (s.breaker.state ≠ .opened → s'.breaker.state = .opened →
        ∀ later s'' now err, (breakerMachine opts).run s' later = some s'' →
          (∀ t ∈ s''.now, t ≤ now) → (s''.breaker.check now err).2 = true →
            opts.timeout ≤ now - op.now) := by
  have hcounted := counted_run hrun
  constructor
  · intro hclosed
    obtain ⟨hcount, hlt⟩ := hcounted.closed hclosed
    refine ⟨?_, ?_, hcount⟩ <;> omega
  · intro op s' hstep
    obtain ⟨_, hbreaker, _⟩ := breakerMachine_step hstep
    refine ⟨?_, ?_, ?_⟩
    · intro hclosed
      rw [hbreaker]
      exact opens_iff hcounted hclosed op
    · intro hnot hclosed
      rw [hbreaker] at hclosed
      exact closes_only hnot hclosed
    · intro hnot hopen later s'' now err hlater hnow hyes
      have hafter : s'.breaker.lastFailure = op.now := by
        rw [hbreaker] at hopen ⊢
        exact lastFailure_of_opens hnot hopen
      have hrun' : (breakerMachine opts).run (breakerMachine opts).init (ops ++ [op]) =
          some s' := by
        rw [Machine.run_append, hrun, Option.bind_some, Machine.run_cons _ hstep]
        rfl
      have htimeout : ∀ l t, (breakerMachine opts).run s' l = some t →
          t.breaker.options.timeout = opts.timeout := by
        intro l t hl
        refine (@counted_run opts ((ops ++ [op]) ++ l) t ?_).timeout
        rw [Machine.run_append, hrun', Option.bind_some]
        exact hl
      have hsince : OpenSince opts.timeout op.now s'' := by
        refine (breakerMachine opts).run_rule (P := fun _ t => OpenSince opts.timeout op.now t)
          (Or.inl ⟨hopen, Int.le_of_eq hafter.symm⟩) ?_ hlater
        intro l t e t' hl ht hnext
        exact openSince_step (htimeout l t hl) ht hnext
      exact elapsed_of_check (htimeout later s'' hlater) hsince hnow hyes

/-- Two failures open a breaker of threshold two, and it says yes again after its timeout. -/
theorem circuitBreaker_spec_two_failures :
    ∃ s s' : BreakerClock,
      (breakerMachine { timeout := 10, failureThreshold := 2 }).run
          (breakerMachine { timeout := 10, failureThreshold := 2 }).init
          [.check 0 (some .eof)] = some s ∧
        s.breaker.state = .closed ∧ s.breaker.failureThreshold = 1 ∧
        (breakerMachine { timeout := 10, failureThreshold := 2 }).step s
          (.check 3 (some .eof)) = some s' ∧
        s'.breaker.state = .opened ∧ (s'.breaker.check 12 none).2 = false ∧
        (s'.breaker.check 13 none).2 = true ∧ (10 : Int) ≤ 13 - 3 := by
  refine ⟨_, _, rfl, by decide, by decide, rfl, by decide, by decide, by decide, ?_⟩
  have hspec := @circuitBreaker_spec { timeout := 10, failureThreshold := 2 }
    [.check 0 (some .eof)] _ rfl
  exact (hspec.2 (.check 3 (some .eof)) _ rfl).2.2 (by decide) (by decide) [] _ 13 none rfl
    (by decide) (by decide)

end MiniGoAgent
