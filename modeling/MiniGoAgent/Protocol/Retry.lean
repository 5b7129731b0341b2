/-
# `Protocol.Retry` — one connection attempt (`retry.go`)

`sendWithRetry` sends a request until it is answered with 200, or until an
answer says that trying again is useless, eleven times at most.  It is run
against an environment that fixes everything the code cannot decide:

* `Ctx` — when the context is cancelled, which ready branch a `select` takes,
  and when the output channel is full.  Cancellation is for good, which is a
  field of the structure.
* `HttpTry` — at one pass of the loop: what the health manager and the circuit
  breaker answer, and how the request ends.

What a call does is kept as a list of events.  The back-off delays are left
out: no function of this model looks at them.
-/
import MiniGoAgent.Protocol.OpenAI

open Go

namespace MiniGoAgent

/-! ## The context -/

/-- A context with the scheduler's choices, indexed by the channel operations
of the call in their order. -/
structure Ctx where
  /-- the context is done at this operation -/
  cancelled : Nat → Bool := fun _ => false
  /-- once done, done -/
  mono : ∀ n, cancelled n = true → cancelled (n + 1) = true
  /-- a `select` with a ready send and a done context takes the latter -/
  pick : Nat → Bool := fun _ => false
  /-- the channel is full at this operation -/
  full : Nat → Bool := fun _ => false
  /-- the context ended by its deadline -/
  deadline : Bool := false

namespace Ctx

/-- `ctx.Err()`. -/
def err (ctx : Ctx) : Err := if ctx.deadline then .deadlineExceeded else .canceled

/-- Never cancelled, and the consumer keeps up. -/
def Live (ctx : Ctx) : Prop := ∀ n, ctx.cancelled n = false ∧ ctx.full n = false

/-- `context.Background()` with a consumer that keeps up. -/
def background : Ctx where
  mono := by simp

theorem background_live : background.Live := fun _ => ⟨rfl, rfl⟩

theorem cancelled_of_le (ctx : Ctx) {n m : Nat} (hle : n ≤ m) (h : ctx.cancelled n = true) :
    ctx.cancelled m = true := by
  induction hle with
  | refl => exact h
  | step _ ih => exact ctx.mono _ ih

end Ctx

/-! ## Requests, responses and events -/

/-- What identifies an HTTP request: where it goes, for which model, under
which key. -/
structure HttpRequest where
  url : Str
  model : Str
  key : Str
  deriving DecidableEq, Repr

/-- A response body as `bufio.Scanner` sees it: the lines it yields, what
`scanner.Err()` is when the loop is left, and whether the stall watchdog has
fired by then. -/
structure Body where
  lines : List Str := []
  err : Option Err := none
  stalled : Bool := false
  deriving DecidableEq, Repr

inductive HttpOutcome where
  | buildError (err : Err)
  | transport (err : Err)
  /-- `msg` is what can be read of the body of a refusal -/
  | response (status : Nat) (msg : Str) (body : Body)

structure HttpTry where
  /-- the health manager reports `HealthCircuitOpen` -/
  circuitOpen : Bool := false
  /-- what `Check(nil)` of a registered breaker answers -/
  allowed : Bool := true
  outcome : HttpOutcome

inductive Event where
  /-- a request sent, with the attempt it belongs to -/
  | request (attempt : Nat) (r : HttpRequest)
  /-- a chunk delivered on the output channel, with the attempt it comes from -/
  | chunk (attempt : Nat) (c : Chunk)
  /-- `Check(err)` of the vendor's breaker -/
  | breakerFailure (vendor : Vendor) (err : Err)
  /-- `Success()` of the vendor's breaker -/
  | breakerSuccess (vendor : Vendor)
  /-- `Telemetry.RecordFromContext` -/
  | telemetry (model : Str) (vendor : Vendor) (usage : Option Usage)
  | onErrorHooks (err : Err)
  deriving DecidableEq, Repr

/-- The outside of a call. -/
structure Env where
  ctx : Ctx
  /-- pass by pass for every attempt -/
  tries : Nat → Nat → HttpTry
  /-- `vendorCircuitBreaker` has an entry for the vendor -/
  registered : Vendor → Bool := fun _ => false
  /-- the error `RunBeforeProcessHooks` returns -/
  beforeHook : Option Err := none
  /-- `rateLimiter.Wait` makes the call wait -/
  throttled : Bool := false
  /-- the error `RunAfterProcessHooks` returns -/
  afterHook : Option Err := none

/-- What a call has done so far: channel operations, and events. -/
structure Call where
  tick : Nat := 0
  trace : List Event := []

namespace Call

def log (c : Call) (e : Event) : Call := { c with trace := c.trace ++ [e] }

def next (c : Call) : Call := { c with tick := c.tick + 1 }

def logIf (c : Call) (b : Bool) (e : Event) : Call := if b then c.log e else c

end Call

/-! ## Classification of errors and answers -/

def retryableStatus (s : Nat) : Bool := s == 408 || s == 429 || (500 ≤ s && s ≤ 599)

def transientErr (err : Err) : Bool := !(err.is .canceled || err.is .deadlineExceeded)

def isConnReset (err : Err) : Bool :=
  if err.is .canceled || err.is .deadlineExceeded then false
  else if err.is .unexpectedEOF || err.is .eof || err.is .netClosed || err.is .connReset ||
      err.is .connAborted then true
  else err.asNetError

def maxRetries : Nat := 10

/-! ## The loop -/

inductive Pass where
  | done (r : Except Err Body)
  | retry (err : Err)

/-- One pass of the loop of `SendWithRetry`, behind the wait. -/
def sendOnce (env : Env) (tag : Nat) (vendor : Vendor) (req : HttpRequest) (t : HttpTry)
    (c : Call) : Call × Pass :=
  if t.circuitOpen then
    (c, .done (.error (.other (lit "vendor " ++ vendor.string ++ lit " unhealthy (circuit open)"))))
  else if env.registered vendor && !t.allowed then
    (c, .done (.error (.other (lit "circuit breaker open for vendor " ++ vendor.string))))
  else
    match t.outcome with
    | .buildError err => (c, .done (.error (.wrap (lit "build request: ") err)))
    | .transport err =>
      let c := c.log (.request tag req)
      let failed := Err.wrap (lit "request failed: ") err
      if transientErr err then
        (c.logIf (env.registered vendor) (.breakerFailure vendor err), .retry failed)
      else (c, .done (.error failed))
    | .response status msg body =>
      let c := c.log (.request tag req)
      if status = 200 then
        (c.logIf (env.registered vendor) (.breakerSuccess vendor), .done (.ok body))
      else if status = 401 ∨ status = 403 then
        (c.logIf (env.registered vendor) (.breakerSuccess vendor),
          .done (.error (.authError vendor status true)))
      else
        let apiErr := Err.apiError vendor status (trimSpace (msg.take 4096))
        if retryableStatus status then
          (c.logIf (env.registered vendor) (.breakerFailure vendor apiErr), .retry apiErr)
        else (c, .done (.error apiErr))

/-- The loop of `SendWithRetry` from `pass` on, with `left` passes behind this
one; `tag` is the attempt of the stream it is called from. -/
def sendLoop (env : Env) (tag : Nat) (vendor : Vendor) (req : HttpRequest) :
    Nat → Nat → Call → Call × Except Err Body
  | left, pass, c =>
    if 0 < pass ∧ env.ctx.cancelled c.tick = true then (c.next, .error env.ctx.err)
    else
      match sendOnce env tag vendor req (env.tries tag pass)
          (if 0 < pass then c.next else c) with
      | (c, .done r) => (c, r)
      | (c, .retry err) =>
        match left with
        | 0 => (c, .error err)
        | left + 1 => sendLoop env tag vendor req left (pass + 1) c

/-- The request `buildHTTPRequest` makes. -/
def OpenAI.httpRequest (o : OpenAI) : HttpRequest := ⟨o.baseURL, o.model, o.currentKey⟩

/-- `SendWithRetry` as `streamWithFailover` calls it in an attempt. -/
def sendWithRetry (env : Env) (attempt : Nat) (o : OpenAI) (c : Call) : Call × Except Err Body :=
  sendLoop env attempt o.vendor o.httpRequest maxRetries 0 c

end MiniGoAgent
