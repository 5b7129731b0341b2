/-
# `Protocol.Failover` — the attempts of a call (`streamWithFailover`, `chatWithFailover`)

`streamWithFailover` counts reconnects and failovers with one counter.  An
attempt past `maxReconnect` switches the endpoint and goes to the next round
of the loop; every other attempt sends, reads and decides from the outcome
whether there is another one.

The loop is run for the number of rounds its bound allows, so it is total
without fuel.  `StreamCall` holds its variables; the deferred error hooks run
when it is left.
-/
import MiniGoAgent.Protocol.Stream

open Go

namespace MiniGoAgent

structure StreamCall where
  o : OpenAI
  call : Call := {}
  emitted : Bool := false
  lastErr : Option Err := none

inductive Round where
  | again (s : StreamCall)
  | finished (s : StreamCall)

namespace OpenAI

def failoverMax (o : OpenAI) : Int := if 0 < o.failover.retries then o.failover.retries else 0

/-- `totalAttempts`, a Go `int`. -/
def totalAttempts (o : OpenAI) : Int :=
  wrap64 (wrap64 (o.maxReconnect + o.failoverMax) + 1)

/-- The round is a failover: `failoverMax > 0 && attempt > maxReconnect`. -/
def failsOver (o : OpenAI) (attempt : Nat) : Bool :=
  0 < attempt && (0 < o.failoverMax && o.maxReconnect < attempt)

end OpenAI

namespace StreamCall

/-- `sendChunk` of a `ChunkError` with `lastErr`. -/
def sendLastErr (ctx : Ctx) (attempt : Nat) (s : StreamCall) : StreamCall :=
  { s with call := sendChunk ctx attempt (errorChunk s.lastErr) s.call }

def recordStreamCall (s : StreamCall) (err : Option Err) : StreamCall :=
  { s with
    o := { s.o with lastUsage := none }
    call :=
      match err with
      | some _ => s.call
      | none => s.call.log (.telemetry s.o.model s.o.vendor s.o.lastUsage) }

end StreamCall

def failoverRound (env : Env) (attempt : Nat) (s : StreamCall) : Round :=
  if s.o.failover.shouldFailover s.o.model s.o.vendor.string s.lastErr = false then
    .finished (s.sendLastErr env.ctx attempt)
  else
    match s.o.failover.getFailoverModel s.o.model s.o.vendor.string with
    | none => .finished (s.sendLastErr env.ctx attempt)
    | some (model, baseURL) => .again { s with o := s.o.applyFailover model baseURL }

/-- `SendWithRetry` failed. -/
def sendFailed (s : StreamCall) (err : Err) : StreamCall :=
  { s with
    o := if err.asAuthError then s.o.rotateKey.1 else s.o
    lastErr := some err }

/-- What follows `readStream`. -/
def afterRead (env : Env) (attempt : Nat) (s : StreamCall) : Option Err → Round
  | some err =>
    let s := { s with lastErr := some err }
    if s.emitted then .finished s
    else if isConnReset err then .again s
    else .finished (s.sendLastErr env.ctx attempt)
  | none =>
    let s := s.recordStreamCall none
    let s :=
      match env.afterHook with
      | some hookErr => { s with call := s.call.log (.onErrorHooks hookErr) }
      | none => s
    .finished
      { s with call := s.call.logIf (env.registered s.o.vendor) (.breakerSuccess s.o.vendor) }

/-- The send and the read of an attempt. -/
def sendRound (env : Env) (attempt : Nat) (s : StreamCall) : Round :=
  match sendWithRetry env attempt s.o s.call with
  | (call, .error err) => .again (sendFailed { s with call } err)
  | (call, .ok body) =>
    match readStream env.ctx attempt body s.o call with
    | (o, outlet, err) =>
      afterRead env attempt { s with o, call := outlet.call, emitted := outlet.emitted } err

def streamRound (env : Env) (attempt : Nat) (s : StreamCall) : Round :=
  if 0 < attempt ∧ s.emitted = true then .finished (s.sendLastErr env.ctx attempt)
  else if s.o.failsOver attempt then failoverRound env attempt s
  else if attempt = 0 then sendRound env attempt s
  else if env.ctx.cancelled s.call.tick then
    .finished { s with call := s.call.next, lastErr := some env.ctx.err }
  else sendRound env attempt { s with call := s.call.next }

/-- The loop from `attempt` on, with the rounds that are left, and what follows
it when they are used up. -/
def streamLoop (env : Env) : Nat → Nat → StreamCall → StreamCall
  | 0, attempt, s => (s.sendLastErr env.ctx attempt).recordStreamCall s.lastErr
  | left + 1, attempt, s =>
    match streamRound env attempt s with
    | .again s => streamLoop env left (attempt + 1) s
    | .finished s => s

/-- The number of rounds `attempt <= totalAttempts` allows. -/
def OpenAI.rounds (o : OpenAI) : Nat := (o.totalAttempts + 1).toNat

/-- The deferred error hooks. -/
def StreamCall.deferred (s : StreamCall) : StreamCall :=
  match s.lastErr with
  | some err => { s with call := s.call.log (.onErrorHooks err) }
  | none => s

def streamWithFailover (env : Env) (o : OpenAI) : StreamCall :=
  if env.throttled && env.ctx.cancelled 0 then
    let call : Call := { tick := 1, trace := [.onErrorHooks env.ctx.err] }
    { o, call := sendChunk env.ctx 0 (errorChunk (some env.ctx.err)) call }
  else
    (streamLoop env o.rounds 0
      { o, call := { tick := if env.throttled then 1 else 0 } }).deferred

/-- `Stream`: the error of the hooks in front, or the whole call. -/
def OpenAI.stream (env : Env) (o : OpenAI) : Except Err StreamCall :=
  match env.beforeHook with
  | some err => .error err
  | none => .ok (streamWithFailover env o)

/-! ## The rounds that send -/

/-- The state with which a round of `streamWithFailover` sends, if it does. -/
def sends (env : Env) (attempt : Nat) (s : StreamCall) : Option StreamCall :=
  if 0 < attempt ∧ s.emitted = true then none
  else if s.o.failsOver attempt then none
  else if attempt = 0 then some s
  else if env.ctx.cancelled s.call.tick then none
  else some { s with call := s.call.next }

theorem streamRound_of_sends {env : Env} {attempt : Nat} {s s' : StreamCall}
    (h : sends env attempt s = some s') : streamRound env attempt s = sendRound env attempt s' := by
  revert h
  fun_cases sends env attempt s
  all_goals intro h; cases h
  case case3 hgo hover hfirst =>
    rw [streamRound, if_neg hgo, if_neg hover, if_pos hfirst]
  case case5 hgo hover hfirst hlive =>
    rw [streamRound, if_neg hgo, if_neg hover, if_neg hfirst, if_neg hlive]

/-- The rounds of the loop that send, from `attempt` on. -/
def sendingRounds (env : Env) : Nat → Nat → StreamCall → List (Nat × StreamCall)
  | 0, _, _ => []
  | left + 1, attempt, s =>
    (sends env attempt s).toList.map (attempt, ·) ++
      match streamRound env attempt s with
      | .again s => sendingRounds env left (attempt + 1) s
      | .finished _ => []

/-- The rounds of `streamWithFailover` that send. -/
def streamRounds (env : Env) (o : OpenAI) : List (Nat × StreamCall) :=
  if env.throttled && env.ctx.cancelled 0 then []
  else sendingRounds env o.rounds 0 { o, call := { tick := if env.throttled then 1 else 0 } }

/-! ## What a call has delivered -/

/-- The chunks on the output channel, with their attempts. -/
def Call.chunks (c : Call) : List (Nat × Chunk) :=
  c.trace.filterMap (fun e => match e with
    | .chunk attempt ch => some (attempt, ch)
    | _ => none)

def Call.requests (c : Call) : List (Nat × HttpRequest) :=
  c.trace.filterMap (fun e => match e with
    | .request attempt r => some (attempt, r)
    | _ => none)

/-! ## Chat -/

/-- How `chatDirect` ends on the side of the server; what is read of a response
does not touch the `OpenAI` value. -/
inductive ChatOutcome where
  /-- no request could be built, so none is sent -/
  | buildError (err : Err)
  /-- the transport, the status or the body is bad -/
  | failed (err : Err)
  | ok (resp : Response)

/-- `chatDirect`: the request, and its answer. -/
def chatDirect (outcome : ChatOutcome) (attempt : Nat) (o : OpenAI) (c : Call) :
    Call × Except Err Response :=
  let sent := c.log (.request attempt o.httpRequest)
  match outcome with
  | .buildError err => (c, .error err)
  | .failed err => (sent, .error err)
  | .ok resp => (sent.log (.telemetry o.model o.vendor resp.usage), .ok resp)

/-- The loop of `chatWithFailover` from `attempt` on. -/
def chatLoop (outcomes : Nat → ChatOutcome) :
    Nat → Nat → OpenAI → Err → Call → OpenAI × Call × Except Err Response
  | left, attempt, o, lastErr, c =>
    let next : Option OpenAI :=
      if attempt = 0 then some o
      else if o.failover.shouldFailover o.model o.vendor.string (some lastErr) = false then none
      else (o.failover.getFailoverModel o.model o.vendor.string).map
        (fun target => o.applyFailover target.1 target.2)
    match next with
    | none => (o, c, .error lastErr)
    | some o =>
      match chatDirect (outcomes attempt) attempt o c with
      | (c, .ok resp) => (o, c, .ok resp)
      | (c, .error err) =>
        match left with
        | 0 => (o, c, .error err)
        | left + 1 => chatLoop outcomes left (attempt + 1) o err c

theorem chatLoop_rule (outcomes : Nat → ChatOutcome) {I : OpenAI → Call → Prop}
    (hover : ∀ o c lastErr target, I o c →
      o.failover.shouldFailover o.model o.vendor.string (some lastErr) ≠ false →
      o.failover.getFailoverModel o.model o.vendor.string = some target →
        I (o.applyFailover target.1 target.2) c)
    (hdirect : ∀ attempt o c, I o c → I o (chatDirect (outcomes attempt) attempt o c).1)
    (left attempt : Nat) (o : OpenAI) (lastErr : Err) (c : Call) (h : I o c) :
    I (chatLoop outcomes left attempt o lastErr c).1
      (chatLoop outcomes left attempt o lastErr c).2.1 := by
  have hnext : ∀ {attempt : Nat} {o o' : OpenAI} {lastErr : Err} {c : Call}, I o c →
      (if attempt = 0 then some o
        else if o.failover.shouldFailover o.model o.vendor.string (some lastErr) = false then none
        else (o.failover.getFailoverModel o.model o.vendor.string).map
          (fun target => o.applyFailover target.1 target.2)) = some o' → I o' c := by
    intro attempt o o' lastErr c ho heq
    split at heq
    · rw [Option.some.injEq] at heq
      rwa [← heq]
    · split at heq
      · cases heq
      next hshould =>
        obtain ⟨target, hget, rfl⟩ := Option.map_eq_some_iff.mp heq
        exact hover o c lastErr target ho hshould hget
  have hsent : ∀ {attempt : Nat} {o : OpenAI} {c c' : Call} {r : Except Err Response}, I o c →
      chatDirect (outcomes attempt) attempt o c = (c', r) → I o c' := by
    intro attempt o c c' r ho heq
    have hkept := hdirect attempt o c ho
    rwa [heq] at hkept
  fun_induction chatLoop outcomes left attempt o lastErr c with
  | case1 => exact h
  | case2 _ _ _ _ _ _ _ hnew _ _ heq | case3 _ _ _ _ _ _ hnew _ _ heq =>
    exact hsent (hnext h hnew) heq
  | case4 _ _ _ _ _ _ hnew _ _ heq _ ih => exact ih (hsent (hnext h hnew) heq)

/-- `chatWithFailover`; the error in front of the first attempt is never read. -/
def chatWithFailover (outcomes : Nat → ChatOutcome) (o : OpenAI) :
    OpenAI × Call × Except Err Response :=
  chatLoop outcomes o.failover.retries.toNat 0 o (.other []) {}

end MiniGoAgent
