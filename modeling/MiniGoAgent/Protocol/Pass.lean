/-
# `Protocol.Pass` — one pass of `SendWithRetry`

What a pass logs is decided by its try (`HttpTry.events`), and so are whether it is
tried again (`HttpTry.goesOn`) and whether it hands out a body (`HttpTry.Answers`).
`sendOnce_spec` says so once, for whatever is to be proved about the requests of a call.
-/
import MiniGoAgent.Protocol.Retry

open Go

namespace MiniGoAgent

namespace HttpOutcome

/-- A transient transport error, or an answer of 408, 429 or 5xx. -/
def retryable : HttpOutcome → Bool
  | .buildError _ => false
  | .transport err => transientErr err
  | .response status _ _ => retryableStatus status

/-- A request goes out: it could be built. -/
def isSent : HttpOutcome → Bool
  | .buildError _ => false
  | _ => true

def reports (vendor : Vendor) : HttpOutcome → List Event
  | .buildError _ => []
  | .transport err => if transientErr err then [.breakerFailure vendor err] else []
  | .response status msg _ =>
    if status = 200 ∨ status = 401 ∨ status = 403 then [.breakerSuccess vendor]
    else if retryableStatus status then
      [.breakerFailure vendor (.apiError vendor status (trimSpace (msg.take 4096)))]
    else []

end HttpOutcome

namespace HttpTry

/-- The health manager or a registered breaker says no. -/
def refused (registered : Bool) (t : HttpTry) : Bool := t.circuitOpen || (registered && !t.allowed)

/-- The pass fails in a way that is tried again. -/
def goesOn (registered : Bool) (t : HttpTry) : Bool := !t.refused registered && t.outcome.retryable

def sends (registered : Bool) (t : HttpTry) : Bool := !t.refused registered && t.outcome.isSent

def events (registered : Bool) (tag : Nat) (vendor : Vendor) (req : HttpRequest) (t : HttpTry) :
    List Event :=
  if t.sends registered then
    .request tag req :: (if registered then t.outcome.reports vendor else [])
  else []

/-- The pass is answered with 200 and this body. -/
def Answers (registered : Bool) (t : HttpTry) (body : Body) : Prop :=
  t.refused registered = false ∧ ∃ msg, t.outcome = .response 200 msg body

end HttpTry

inductive PassEnds (registered : Bool) (t : HttpTry) : Pass → Prop
  | ok (body : Body) (h : t.Answers registered body) : PassEnds registered t (.done (.ok body))
  | failed (err : Err) (hon : t.goesOn registered = false)
      (hok : ∀ body, ¬ t.Answers registered body) : PassEnds registered t (.done (.error err))
  | retry (err : Err) (hon : t.goesOn registered = true) : PassEnds registered t (.retry err)

theorem log_logIf (c : Call) (e e' : Event) (b : Bool) :
    (c.log e).logIf b e' = { c with trace := c.trace ++ (e :: (if b then [e'] else [])) } := by
  cases b with
  | false => rfl
  | true => exact congrArg (Call.mk c.tick) (List.append_assoc c.trace [e] [e'])

theorem sendOnce_spec (env : Env) (tag : Nat) (vendor : Vendor) (req : HttpRequest) (t : HttpTry)
    (c : Call) :
    ∃ e, sendOnce env tag vendor req t c =
        ({ c with trace := c.trace ++ t.events (env.registered vendor) tag vendor req }, e) ∧
      PassEnds (env.registered vendor) t e := by
  have hrefused : t.refused (env.registered vendor) = true → ∀ err,
      c = { c with trace := c.trace ++ t.events (env.registered vendor) tag vendor req } ∧
        PassEnds (env.registered vendor) t (.done (.error err)) := by
    intro h err
    refine ⟨by simp [HttpTry.events, HttpTry.sends, h],
      .failed err (by simp [HttpTry.goesOn, h]) ?_⟩
    simp [HttpTry.Answers, h]
  have hlet : ∀ {out : HttpOutcome}, t.circuitOpen ≠ true →
      (env.registered vendor && !t.allowed) ≠ true → t.outcome = out →
      t.events (env.registered vendor) tag vendor req = (if out.isSent then
        .request tag req :: (if env.registered vendor then out.reports vendor else []) else []) ∧
      t.goesOn (env.registered vendor) = out.retryable ∧
      ∀ body, t.Answers (env.registered vendor) body ↔ ∃ msg, out = .response 200 msg body := by
    rintro _ hopen hgate rfl
    have h : t.refused (env.registered vendor) = false := by simp [HttpTry.refused, hopen, hgate]
    simp [HttpTry.events, HttpTry.sends, HttpTry.goesOn, HttpTry.Answers, h]
  suffices h : (sendOnce env tag vendor req t c).1 =
      { c with trace := c.trace ++ t.events (env.registered vendor) tag vendor req } ∧
      PassEnds (env.registered vendor) t (sendOnce env tag vendor req t c).2 from
    ⟨_, Prod.ext h.1 rfl, h.2⟩
  fun_cases sendOnce env tag vendor req t c
  case case1 hopen => exact hrefused (by rw [HttpTry.refused, hopen]; rfl) _
  case case2 hgate => exact hrefused (by rw [HttpTry.refused, hgate, Bool.or_true]) _
  case case3 hopen hgate err hout =>
    obtain ⟨he, hon, hno⟩ := hlet hopen hgate hout
    exact ⟨by rw [he]; simp [HttpOutcome.isSent], .failed _ hon (by simp [hno])⟩
  case case4 hopen hgate err hout _ _ htransient =>
    obtain ⟨he, hon, -⟩ := hlet hopen hgate hout
    rw [he, log_logIf]
    refine ⟨?_, .retry _ (hon.trans htransient)⟩
    simp [HttpOutcome.isSent, HttpOutcome.reports, htransient]
  case case5 hopen hgate err hout logged _ htransient =>
    obtain ⟨he, hon, hno⟩ := hlet hopen hgate hout
    rw [he]
    refine ⟨?_, .failed _ (hon.trans (Bool.eq_false_iff.mpr htransient)) (by simp [hno])⟩
    simp [HttpOutcome.isSent, HttpOutcome.reports, htransient, logged, Call.log]
  case case6 hopen hgate msg body _ hout =>
    obtain ⟨he, -, hok⟩ := hlet hopen hgate hout
    rw [he, log_logIf]
    exact ⟨by simp [HttpOutcome.isSent, HttpOutcome.reports], .ok body ((hok body).mpr ⟨msg, rfl⟩)⟩
  case case7 hopen hgate status msg body hout _ hok hauth =>
    obtain ⟨he, hon, hno⟩ := hlet hopen hgate hout
    rw [he, log_logIf]
    refine ⟨?_, .failed _ (hon.trans ?_) (by simp [hno, hok])⟩
    · simp [HttpOutcome.isSent, HttpOutcome.reports, hauth]
    · rcases hauth with rfl | rfl <;> rfl
  case case8 hopen hgate status msg body hout _ hok hauth apiErr hretry =>
    obtain ⟨he, hon, -⟩ := hlet hopen hgate hout
    rw [he, log_logIf]
    refine ⟨?_, .retry _ (hon.trans hretry)⟩
    simp [HttpOutcome.isSent, HttpOutcome.reports, hok, hauth, hretry, apiErr]
  case case9 hopen hgate status msg body hout logged hok hauth _ hretry =>
    obtain ⟨he, hon, hno⟩ := hlet hopen hgate hout
    rw [he]
    refine ⟨?_, .failed _ (hon.trans (Bool.eq_false_iff.mpr hretry)) (by simp [hno, hok])⟩
    simp [HttpOutcome.isSent, HttpOutcome.reports, hok, hauth, hretry, logged, Call.log]

theorem mem_events {registered : Bool} {tag : Nat} {vendor : Vendor} {req : HttpRequest}
    {t : HttpTry}
    {e : Event} (he : e ∈ t.events registered tag vendor req) :
    e = .request tag req ∨ (∃ err, e = .breakerFailure vendor err) ∨
      e = .breakerSuccess vendor := by
  have hreports : e ∈ t.outcome.reports vendor →
      (∃ err, e = .breakerFailure vendor err) ∨ e = .breakerSuccess vendor := by
    intro h
    cases hout : t.outcome with
    | buildError err =>
      rw [hout] at h
      cases h
    | transport err =>
      rw [hout, HttpOutcome.reports] at h
      split at h
      · exact Or.inl ⟨err, List.mem_singleton.mp h⟩
      · cases h
    | response status msg body =>
      rw [hout, HttpOutcome.reports] at h
      split at h
      · exact Or.inr (List.mem_singleton.mp h)
      · split at h
        · exact Or.inl ⟨_, List.mem_singleton.mp h⟩
        · cases h
  unfold HttpTry.events at he
  split at he
  · rcases List.mem_cons.mp he with he | he
    · exact Or.inl he
    · split at he
      · exact Or.inr (hreports he)
      · cases he
  · cases he

end MiniGoAgent
