/-
# `Protocol.Guarded` — `SendWithRetry` behind the breaker and the health manager

`sendLoop` asks at every pass what the health manager and the breaker say, and
reports to the breaker how the request ended.  Here the two are not asked of an
environment any more: `VendorState` is the vendor's entry in `vendorCircuitBreaker`
together with its health checker, `GetStatus` and `Check` move it, and so do the
reports of earlier passes (`SendScript.stateAt`).

What a pass does (`sendOnce_spec`) gives by induction what a whole call has done
(`Passes`).
-/
import MiniGoAgent.Protocol.Isolation
import MiniGoAgent.Protocol.OneAttempt

open Go

namespace MiniGoAgent

variable (i : Nat) (outcome : HttpOutcome)

/-! ## Answers -/

/-- An answer of 200, 401 or 403: the vendor is up. -/
def HttpOutcome.accepted : HttpOutcome → Bool
  | .response status _ _ => status == 200 || status == 401 || status == 403
  | _ => false

theorem not_retryable_of_accepted {outcome : HttpOutcome} (h : outcome.accepted = true) :
    outcome.retryable = false := by
  cases outcome with
  | buildError err => rfl
  | transport err => cases h
  | response status msg body =>
    simp only [HttpOutcome.accepted, Bool.or_eq_true, beq_iff_eq] at h
    rcases h with (rfl | rfl) | rfl <;> rfl

/-! ## The passes of a call -/

/-- A call from `pass` on, with `left` passes behind that one, has made `n` passes, logged
`new` and returned `r`.  In front of every pass but the first one the context is looked
at, for the first time at `tick`. -/
structure Passes (registered : Bool) (tries : Nat → HttpTry) (tag : Nat) (vendor : Vendor)
    (req : HttpRequest) (ctx : Ctx) (tick left pass n : Nat) (new : List Event)
    (r : Except Err Body) : Prop where
  begun : n = 0 ↔ 0 < pass ∧ ctx.cancelled (tick + (pass - 1)) = true
  /-- which passes are followed by another one -/
  more : ∀ i, i + 1 < n ↔ i < n ∧ i < left ∧ (tries (pass + i)).goesOn registered = true ∧
    ctx.cancelled (tick + (pass + i)) = false
  logged : new = (List.range' pass n).flatMap
    (fun i => (tries i).events registered tag vendor req)
  answer : ∀ body, r = .ok body ↔ ∃ i, i < n ∧ (tries (pass + i)).Answers registered body

namespace Passes

variable {registered : Bool} {tries : Nat → HttpTry} {tag : Nat} {vendor : Vendor}
  {req : HttpRequest} {ctx : Ctx} {tick left pass : Nat}

theorem cut (h : 0 < pass ∧ ctx.cancelled (tick + (pass - 1)) = true) (err : Err) :
    Passes registered tries tag vendor req ctx tick left pass 0 [] (.error err) := by
  refine ⟨iff_of_true rfl h, fun i => ?_, rfl, fun body => ?_⟩
  · simp
  · refine iff_of_false (by simp) ?_
    rintro ⟨i, hi, -⟩
    exact absurd hi (Nat.not_lt_zero i)

theorem not_goesOn {t : HttpTry} {body : Body} (h : t.Answers registered body) :
    t.goesOn registered = false := by
  obtain ⟨-, msg, hout⟩ := h
  rw [HttpTry.goesOn, hout, Bool.and_eq_false_iff]
  exact Or.inr rfl

theorem last (hgo : ¬ (0 < pass ∧ ctx.cancelled (tick + (pass - 1)) = true)) {e : Pass}
    (h : PassEnds registered (tries pass) e) {r : Except Err Body}
    (hr : e = .done r ∨ left = 0 ∧ ∃ err, e = .retry err ∧ r = .error err) :
    Passes registered tries tag vendor req ctx tick left pass 1
      ((tries pass).events registered tag vendor req) r := by
  have hone : ∀ body, (∃ i, i < 1 ∧ (tries (pass + i)).Answers registered body) ↔
      (tries pass).Answers registered body := by
    intro body
    constructor
    · rintro ⟨i, hi, hanswers⟩
      rwa [Nat.lt_one_iff.mp hi] at hanswers
    · intro hanswers
      exact ⟨0, Nat.one_pos, hanswers⟩
  have hends : left = 0 ∨ (tries pass).goesOn registered = false := by
    rcases hr with rfl | ⟨hleft, -⟩
    · cases h with
      | ok _ hanswers => exact Or.inr (not_goesOn hanswers)
      | failed _ hon _ => exact Or.inr hon
    · exact Or.inl hleft
  refine ⟨iff_of_false Nat.one_ne_zero hgo, fun i => ?_, (List.append_nil _).symm, ?_⟩
  · refine iff_of_false (by omega) ?_
    rintro ⟨hi, hleft, hon, -⟩
    rw [Nat.lt_one_iff.mp hi] at hleft hon
    rcases hends with hend | hend
    · omega
    · rw [Nat.add_zero, hend] at hon
      cases hon
  · intro body
    rw [hone]
    rcases hr with rfl | ⟨-, err, rfl, rfl⟩
    · cases h with
      | ok body' hanswers =>
        rw [Except.ok.injEq]
        constructor
        · rintro rfl
          exact hanswers
        · rintro ⟨-, msg, hout⟩
          obtain ⟨-, msg', hout'⟩ := hanswers
          rw [hout, HttpOutcome.response.injEq] at hout'
          exact hout'.2.2.symm
      | failed err _ hno => exact iff_of_false (by simp) (hno body)
    · refine iff_of_false (by simp) ?_
      intro hanswers
      cases h with
      | retry _ hon =>
        rw [not_goesOn hanswers] at hon
        cases hon

theorem cons {n : Nat} {new : List Event} {r : Except Err Body}
    (hgo : ¬ (0 < pass ∧ ctx.cancelled (tick + (pass - 1)) = true))
    (hon : (tries pass).goesOn registered = true)
    (h : Passes registered tries tag vendor req ctx tick left (pass + 1) n new r) :
    Passes registered tries tag vendor req ctx tick (left + 1) pass (n + 1)
      ((tries pass).events registered tag vendor req ++ new) r := by
  refine ⟨iff_of_false (Nat.succ_ne_zero n) hgo, ?_, ?_, ?_⟩
  · intro i
    cases i with
    | zero =>
      have hbegun := h.begun
      rw [Nat.add_sub_cancel] at hbegun
      rw [show 0 + 1 < n + 1 ↔ ¬ n = 0 by omega, hbegun]
      simp [hon]
    | succ i =>
      have hmore := h.more i
      rw [show pass + 1 + i = pass + (i + 1) by omega] at hmore
      rw [Nat.add_lt_add_iff_right, Nat.add_lt_add_iff_right, Nat.add_lt_add_iff_right]
      exact hmore
  · rw [h.logged, List.range'_succ, List.flatMap_cons]
  · intro body
    rw [h.answer body]
    constructor
    · rintro ⟨i, hi, hanswers⟩
      refine ⟨i + 1, by omega, ?_⟩
      rwa [show pass + (i + 1) = pass + 1 + i by omega]
    · rintro ⟨i, hi, hanswers⟩
      cases i with
      | zero =>
        rw [Nat.add_zero] at hanswers
        rw [not_goesOn hanswers] at hon
        cases hon
      | succ i =>
        refine ⟨i, by omega, ?_⟩
        rwa [show pass + 1 + i = pass + (i + 1) by omega]

end Passes

theorem sendLoop_passes (env : Env) (tag : Nat) (vendor : Vendor) (req : HttpRequest)
    (tick left pass : Nat) (c : Call) (htick : c.tick = tick + (pass - 1)) :
    ∃ n new, n ≤ left + 1 ∧
      (sendLoop env tag vendor req left pass c).1.trace = c.trace ++ new ∧
      Passes (env.registered vendor) (env.tries tag) tag vendor req env.ctx tick left pass n new
        (sendLoop env tag vendor req left pass c).2 := by
  have hpass : ∀ {pass : Nat} {c c' : Call} {p : Pass},
      sendOnce env tag vendor req (env.tries tag pass) (if 0 < pass then c.next else c) = (c', p) →
        c'.tick = (if 0 < pass then c.tick + 1 else c.tick) ∧
        c'.trace = c.trace ++
            (env.tries tag pass).events (env.registered vendor) tag vendor req ∧
          PassEnds (env.registered vendor) (env.tries tag pass) p := by
    intro pass c c' p heq
    obtain ⟨e, hspec, hends⟩ := sendOnce_spec env tag vendor req (env.tries tag pass)
      (if 0 < pass then c.next else c)
    rw [heq, Prod.mk.injEq] at hspec
    obtain ⟨rfl, rfl⟩ := hspec
    refine ⟨?_, ?_, hends⟩
    all_goals
      dsimp only
      split <;> rfl
  fun_induction sendLoop env tag vendor req left pass c with
  | case1 left pass c hcut =>
    rw [htick] at hcut
    exact ⟨0, [], by omega, (List.append_nil _).symm, .cut hcut _⟩
  | case2 left pass c hgo c' r heq =>
    obtain ⟨-, htrace, hends⟩ := hpass heq
    rw [htick] at hgo
    exact ⟨1, _, by omega, htrace, .last hgo hends (Or.inl rfl)⟩
  | case3 pass c hgo c' err heq =>
    obtain ⟨-, htrace, hends⟩ := hpass heq
    rw [htick] at hgo
    exact ⟨1, _, by omega, htrace, .last hgo hends (Or.inr ⟨rfl, err, rfl, rfl⟩)⟩
  | case4 pass c hgo c' err heq left ih =>
    obtain ⟨htick', htrace, hends⟩ := hpass heq
    rw [htick] at hgo
    have hnext : c'.tick = tick + (pass + 1 - 1) := by
      rw [htick', htick]
      split <;> omega
    obtain ⟨n, new, hn, hmore, hpasses⟩ := ih hnext
    have hon : (env.tries tag pass).goesOn (env.registered vendor) = true := by
      cases hends with
      | retry _ hon => exact hon
    refine ⟨n + 1, _, by omega, ?_, .cons hgo hon hpasses⟩
    rw [hmore, htrace, List.append_assoc]

/-! ## Counting events -/

namespace Event

def isFailure : Event → Bool
  | .breakerFailure _ _ => true
  | _ => false

def isSuccess : Event → Bool
  | .breakerSuccess _ => true
  | _ => false

end Event

theorem countP_flatMap {f : Nat → List Event} {p : Event → Bool} {q : Nat → Bool}
    (h : ∀ i, (f i).countP p = if q i then 1 else 0) (l : List Nat) :
    (l.flatMap f).countP p = l.countP q := by
  induction l with
  | nil => rfl
  | cons i l ih =>
    rw [List.flatMap_cons, List.countP_append, h, ih, List.countP_cons, Nat.add_comm]

theorem countP_last {q : Nat → Bool} {n : Nat} (h : ∀ i, i + 1 < n → q i = false) :
    (List.range n).countP q = if 0 < n ∧ q (n - 1) = true then 1 else 0 := by
  cases n with
  | zero => rfl
  | succ n =>
    have hfront : (List.range n).countP q = 0 := by
      rw [List.countP_eq_zero]
      intro i hi
      rw [h i (Nat.succ_lt_succ (List.mem_range.mp hi))]
      exact Bool.false_ne_true
    rw [List.range_succ, List.countP_append, hfront, List.countP_singleton, Nat.zero_add]
    simp only [Nat.succ_pos, true_and, Nat.add_sub_cancel]

theorem countP_reports (vendor : Vendor) (outcome : HttpOutcome) :
    (outcome.reports vendor).countP Event.isRequest = 0 ∧
      (outcome.reports vendor).countP Event.isFailure = (if outcome.retryable then 1 else 0) ∧
      (outcome.reports vendor).countP Event.isSuccess = if outcome.accepted then 1 else 0 := by
  cases outcome with
  | buildError err => exact ⟨rfl, rfl, rfl⟩
  | transport err =>
    by_cases htransient : transientErr err = true
    · simp only [HttpOutcome.reports, HttpOutcome.retryable, htransient, if_true]
      exact ⟨rfl, rfl, rfl⟩
    · simp only [HttpOutcome.reports, HttpOutcome.retryable, htransient]
      exact ⟨rfl, rfl, rfl⟩
  | response status msg body =>
    by_cases hup : status = 200 ∨ status = 401 ∨ status = 403
    · have haccepted : (HttpOutcome.response status msg body).accepted = true := by
        simpa only [HttpOutcome.accepted, Bool.or_eq_true, beq_iff_eq, or_assoc] using hup
      rw [not_retryable_of_accepted haccepted, haccepted, HttpOutcome.reports, if_pos hup]
      exact ⟨rfl, rfl, rfl⟩
    · have haccepted : (HttpOutcome.response status msg body).accepted = false := by
        rw [Bool.eq_false_iff]
        simpa only [HttpOutcome.accepted, Bool.or_eq_true, beq_iff_eq, or_assoc, ne_eq] using hup
      rw [haccepted, HttpOutcome.reports, if_neg hup]
      by_cases hretry : retryableStatus status = true
      · simp only [HttpOutcome.retryable, hretry, if_true]
        exact ⟨rfl, rfl, rfl⟩
      · simp only [HttpOutcome.retryable, hretry]
        exact ⟨rfl, rfl, rfl⟩

theorem countP_isRequest (registered : Bool) (tag : Nat) (vendor : Vendor) (req : HttpRequest)
    (t : HttpTry) :
    (t.events registered tag vendor req).countP Event.isRequest =
      if t.sends registered then 1 else 0 := by
  have hnone := (countP_reports vendor t.outcome).1
  rw [HttpTry.events]
  cases t.sends registered with
  | false => rfl
  | true =>
    cases registered with
    | false => rfl
    | true =>
      show List.countP _ (.request tag req :: t.outcome.reports vendor) = 1
      rw [List.countP_cons, hnone]
      rfl

theorem countP_events {p : Event → Bool} {q : HttpOutcome → Bool} (tag : Nat) (vendor : Vendor)
    (req : HttpRequest) (t : HttpTry) (hp : p (.request tag req) = false)
    (hq : ∀ outcome, q outcome = true → outcome.isSent = true)
    (hcount : (t.outcome.reports vendor).countP p = if q t.outcome then 1 else 0) :
    (t.events true tag vendor req).countP p =
      if !t.refused true && q t.outcome then 1 else 0 := by
  rw [HttpTry.events, HttpTry.sends]
  cases t.refused true with
  | true => rfl
  | false =>
    cases hsent : t.outcome.isSent with
    | true =>
      show List.countP p (.request tag req :: t.outcome.reports vendor) = _
      rw [List.countP_cons, hp, hcount]
      rfl
    | false =>
      have hno : q t.outcome = false := by
        rw [Bool.eq_false_iff]
        intro hyes
        rw [hq _ hyes] at hsent
        exact Bool.noConfusion hsent
      rw [hno]
      rfl

theorem isSent_of_retryable (h : outcome.retryable = true) : outcome.isSent = true := by
  cases outcome with
  | buildError err => cases h
  | transport | response => rfl

theorem isSent_of_accepted (h : outcome.accepted = true) : outcome.isSent = true := by
  cases outcome with
  | buildError err => cases h
  | transport | response => rfl

/-! ## The vendor's breaker and health -/

inductive HealthStatus where
  | unknown
  | healthy
  | unhealthy
  | circuitOpen
  deriving DecidableEq, Repr

/-- The breaker a health checker was registered with: none, the vendor's entry in
`vendorCircuitBreaker`, or one that has since been replaced there. -/
inductive HealthBreaker where
  | none
  | shared
  | former (cb : CircuitBreaker)

/-- The vendor's entry in the `HealthManager`. -/
structure VendorHealth where
  status : HealthStatus
  breaker : HealthBreaker

structure VendorState where
  /-- the entry in `vendorCircuitBreaker` -/
  breaker : Option CircuitBreaker := none
  health : Option VendorHealth := none

variable (v : VendorState)

namespace VendorState

/-- `Check(nil)` of the vendor's entry in `vendorCircuitBreaker`; without one there is
no objection. -/
def ask (v : VendorState) (now : Int) : VendorState × Bool :=
  match v.breaker with
  | none => (v, true)
  | some cb => ({ v with breaker := some (cb.check now none).1 }, (cb.check now none).2)

def getStatus (v : VendorState) (now : Int) : VendorState × HealthStatus :=
  match v.health with
  | none => (v, .unknown)
  | some h =>
    if h.status = .unhealthy then
      match h.breaker with
      | .none => (v, h.status)
      | .shared =>
        let (v, ok) := v.ask now
        (v, if ok then h.status else .circuitOpen)
      | .former cb =>
        ({ v with health := some { h with breaker := .former (cb.check now none).1 } },
          if (cb.check now none).2 then h.status else .circuitOpen)
    else (v, h.status)

def hear (now : Int) (cb : CircuitBreaker) (e : Event) : CircuitBreaker :=
  (e.breakerOp now).elim cb (fun op => cb.apply op.2)

/-- The reports on the outcome of a request. -/
def report (v : VendorState) (vendor : Vendor) (now : Int) (outcome : HttpOutcome) : VendorState :=
  { v with breaker := v.breaker.map (fun cb => (outcome.reports vendor).foldl (hear now) cb) }

end VendorState

structure PassTimes where
  status : Int
  ask : Int
  report : Int

/-- A pass with the vendor's own state: the state behind it, and what the loop has
seen. -/
def VendorState.pass (v : VendorState) (vendor : Vendor) (times : PassTimes)
    (outcome : HttpOutcome) : VendorState × HttpTry :=
  let (v, status) := v.getStatus times.status
  if status = .circuitOpen then (v, { circuitOpen := true, outcome })
  else
    let (v, ok) := v.ask times.ask
    if ok then (v.report vendor times.report outcome, { outcome })
    else (v, { allowed := false, outcome })

/-! ## A call behind the vendor's state -/

/-- A call of `SendWithRetry`: how its requests would end one after the other, the
state of the vendor it finds, and when its passes are made. -/
structure SendScript where
  ctx : Ctx
  vendor : Vendor
  initial : VendorState
  outcome : Nat → HttpOutcome
  times : Nat → PassTimes

namespace SendScript

variable (s : SendScript)

/-- The vendor's state before a pass. -/
def stateAt : Nat → VendorState
  | 0 => s.initial
  | i + 1 => ((stateAt i).pass s.vendor (s.times i) (s.outcome i)).1

def tryAt (i : Nat) : HttpTry := ((s.stateAt i).pass s.vendor (s.times i) (s.outcome i)).2

def registered : Bool := s.initial.breaker.isSome

def env : Env where
  ctx := s.ctx
  tries := fun _ => s.tryAt
  registered := fun _ => s.registered

/-- `SendWithRetry`. -/
def send (tag : Nat) (req : HttpRequest) (c : Call) : Call × Except Err Body :=
  sendLoop s.env tag s.vendor req maxRetries 0 c

/-- At pass `i` the vendor's health is circuit-open, or else its breaker refuses. -/
def refusedAt (i : Nat) : Bool :=
  ((s.stateAt i).getStatus (s.times i).status).2 == .circuitOpen ||
    !(((s.stateAt i).getStatus (s.times i).status).1.ask (s.times i).ask).2

end SendScript

namespace VendorState

theorem ask_none {v : VendorState} (h : v.breaker = none) (now : Int) : v.ask now = (v, true) := by
  simp only [ask, h]

theorem isSome_ask (now : Int) : (v.ask now).1.breaker.isSome = v.breaker.isSome := by
  cases h : v.breaker with
  | none => rw [ask_none h, h]
  | some cb => simp only [ask, h, Option.isSome_some]

theorem isSome_getStatus (now : Int) : (v.getStatus now).1.breaker.isSome = v.breaker.isSome := by
  cases hhealth : v.health with
  | none => simp only [getStatus, hhealth]
  | some h =>
    by_cases hstatus : h.status = .unhealthy
    · cases hbreaker : h.breaker with
      | none | former => simp only [getStatus, hhealth, hstatus, if_true, hbreaker]
      | shared =>
        simp only [getStatus, hhealth, hstatus, if_true, hbreaker]
        exact v.isSome_ask now
    · simp only [getStatus, hhealth, hstatus, if_false]

theorem pass_eq (vendor : Vendor) (times : PassTimes) (outcome : HttpOutcome) :
    v.pass vendor times outcome =
      if (v.getStatus times.status).2 = .circuitOpen then
        ((v.getStatus times.status).1, { circuitOpen := true, outcome })
      else if ((v.getStatus times.status).1.ask times.ask).2 then
        (((v.getStatus times.status).1.ask times.ask).1.report vendor times.report outcome,
          { outcome })
      else (((v.getStatus times.status).1.ask times.ask).1, { allowed := false, outcome }) :=
  rfl

theorem isSome_pass (vendor : Vendor) (times : PassTimes)
    (outcome : HttpOutcome) : (v.pass vendor times outcome).1.breaker.isSome =
      v.breaker.isSome := by
  rw [pass_eq, ← v.isSome_getStatus times.status]
  split_ifs
  · rfl
  · rw [← isSome_ask (v.getStatus times.status).1 times.ask]
    exact Option.isSome_map
  · exact isSome_ask _ _

end VendorState

namespace SendScript

variable (s : SendScript)

theorem isSome_stateAt : (s.stateAt i).breaker.isSome = s.registered := by
  induction i with
  | zero => rfl
  | succ i ih => rw [stateAt, VendorState.isSome_pass, ih]

theorem outcome_tryAt : (s.tryAt i).outcome = s.outcome i := by
  rw [tryAt, VendorState.pass_eq]
  split_ifs <;> rfl

theorem refused_tryAt : (s.tryAt i).refused s.registered = s.refusedAt i := by
  rw [tryAt, VendorState.pass_eq, refusedAt]
  by_cases hopen : ((s.stateAt i).getStatus (s.times i).status).2 = .circuitOpen
  · rw [if_pos hopen, beq_iff_eq.mpr hopen]
    rfl
  · rw [if_neg hopen, beq_false_of_ne hopen, Bool.false_or]
    cases hask : (((s.stateAt i).getStatus (s.times i).status).1.ask (s.times i).ask).2 with
    | true =>
      show (false || (s.registered && false)) = false
      rw [Bool.and_false]
      rfl
    | false =>
      have hregistered : s.registered = true := by
        rw [← s.isSome_stateAt i, ← VendorState.isSome_getStatus _ (s.times i).status]
        cases hbreaker : ((s.stateAt i).getStatus (s.times i).status).1.breaker with
        | some cb => rfl
        | none =>
          rw [VendorState.ask_none hbreaker] at hask
          exact Bool.noConfusion hask
      rw [hregistered]
      rfl

end SendScript

/-- **A call of `SendWithRetry`, over all scripts.**  It makes one pass at least and eleven
at most: a pass is followed by another one exactly if it is let through and fails in a way
that is tried again, passes are left, and the context is alive behind the delay.  The
requests sent are those of the passes that were let through and could build one, and a
refused pass does nothing; a response is returned exactly when a pass is answered with
200, that one; and a registered breaker hears a failure for each pass that failed in
a way that is tried again, and a success if the last one was answered with 200, 401 or
403. -/
theorem sendWithRetry_spec (s : SendScript) (tag : Nat) (req : HttpRequest) (c : Call) :
    ∃ n new, 0 < n ∧ n ≤ maxRetries + 1 ∧ (s.send tag req c).1.trace = c.trace ++ new ∧
      new.countP Event.isRequest ≤ maxRetries + 1 ∧
      new.countP Event.isRequest =
        (List.range n).countP (fun i => !s.refusedAt i && (s.outcome i).isSent) ∧
      (∀ i, i + 1 < n ↔ i < n ∧ i < maxRetries ∧ s.refusedAt i = false ∧
        (s.outcome i).retryable = true ∧ s.ctx.cancelled (c.tick + i) = false) ∧
      new = (List.range n).flatMap
        (fun i => (s.tryAt i).events s.registered tag s.vendor req) ∧
      (∀ i, s.refusedAt i = true → (s.tryAt i).events s.registered tag s.vendor req = []) ∧
      (∀ body, (s.send tag req c).2 = .ok body ↔
        ∃ i, i < n ∧ s.refusedAt i = false ∧ ∃ msg, s.outcome i = .response 200 msg body) ∧
      (s.registered = true →
        new.countP Event.isFailure =
          (List.range n).countP (fun i => !s.refusedAt i && (s.outcome i).retryable) ∧
        new.countP Event.isSuccess =
          if 0 < n ∧ (!s.refusedAt (n - 1) && (s.outcome (n - 1)).accepted) = true then 1
          else 0) := by
  obtain ⟨n, new, hn, htrace, hpasses⟩ :=
    sendLoop_passes s.env tag s.vendor req c.tick maxRetries 0 c rfl
  have hmore : ∀ i, i + 1 < n ↔ i < n ∧ i < maxRetries ∧ s.refusedAt i = false ∧
      (s.outcome i).retryable = true ∧ s.ctx.cancelled (c.tick + i) = false := by
    intro i
    have hmore : i + 1 < n ↔ i < n ∧ i < maxRetries ∧ (s.tryAt i).goesOn s.registered = true ∧
        s.ctx.cancelled (c.tick + i) = false := by
      have hmore := hpasses.more i
      rwa [Nat.zero_add] at hmore
    rwa [HttpTry.goesOn, s.refused_tryAt, s.outcome_tryAt, Bool.and_eq_true, Bool.not_eq_true',
      and_assoc] at hmore
  have hpos : 0 < n := Nat.pos_of_ne_zero fun hzero =>
    absurd (hpasses.begun.mp hzero).1 (Nat.lt_irrefl 0)
  have hlogged : new = (List.range n).flatMap
      (fun i => (s.tryAt i).events s.registered tag s.vendor req) := by
    rw [hpasses.logged, ← List.range_eq_range']
    rfl
  have hrequests : new.countP Event.isRequest =
      (List.range n).countP (fun i => !s.refusedAt i && (s.outcome i).isSent) := by
    rw [hlogged]
    refine countP_flatMap (fun i => ?_) _
    rw [countP_isRequest, HttpTry.sends, s.refused_tryAt, s.outcome_tryAt]
  refine ⟨n, new, hpos, hn, htrace, ?_, hrequests, hmore, hlogged, ?_, ?_, ?_⟩
  · rw [hrequests]
    refine le_trans List.countP_le_length ?_
    rwa [List.length_range]
  · intro i hrefused
    rw [HttpTry.events, HttpTry.sends, s.refused_tryAt, hrefused]
    rfl
  · intro body
    refine (hpasses.answer body).trans ?_
    refine exists_congr fun i => and_congr_right fun _ => ?_
    rw [Nat.zero_add]
    show (s.tryAt i).refused s.registered = false ∧ (∃ msg, (s.tryAt i).outcome = _) ↔ _
    rw [s.refused_tryAt, s.outcome_tryAt]
  · intro hregistered
    have hcount : ∀ {p : Event → Bool} {q : HttpOutcome → Bool}, p (.request tag req) = false →
        (∀ outcome, q outcome = true → outcome.isSent = true) →
        (∀ outcome : HttpOutcome,
          (outcome.reports s.vendor).countP p = if q outcome then 1 else 0) →
        new.countP p = (List.range n).countP (fun i => !s.refusedAt i && q (s.outcome i)) := by
      intro p q hp hq hreports
      rw [hlogged, hregistered]
      refine countP_flatMap (fun i => ?_) _
      rw [countP_events tag s.vendor req _ hp hq (hreports _), ← hregistered, s.refused_tryAt,
        s.outcome_tryAt]
    constructor
    · exact hcount rfl isSent_of_retryable (fun outcome => (countP_reports s.vendor outcome).2.1)
    · rw [hcount rfl isSent_of_accepted (fun outcome => (countP_reports s.vendor outcome).2.2)]
      refine countP_last (fun i hi => ?_)
      have hretry := ((hmore i).mp hi).2.2.2.1
      rw [Bool.and_eq_false_iff]
      right
      rw [Bool.eq_false_iff]
      intro haccepted
      rw [not_retryable_of_accepted haccepted] at hretry
      exact Bool.noConfusion hretry

end MiniGoAgent
