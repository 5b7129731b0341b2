/-
# `Protocol.Hooks` — lifecycle hooks, and when `OnError` runs (`hooks.go`)

`Chat` calls `RunOnErrorHooks` in front of every return with an error.
`streamWithFailover` has three places for it: the wait for the limiter, a
`defer` that looks at `lastErr`, and the error of the hooks behind a success.
But `lastErr` is what the last failed attempt has left, and stays when a later
one succeeds.

`onError_once_iff` says when the hooks run exactly once.

`OnError` itself is not modelled beyond being called: what it returns is dropped.
-/
import MiniGoAgent.Protocol.LiveCall

open Go

namespace MiniGoAgent

/-! ## The hooks -/

/-- `LifecycleHook`, on requests `ρ`; `none` is a nil result. -/
structure LifecycleHook (ρ : Type) where
  name : Str
  beforeProcess : ρ → Except Err (Option ρ)
  afterProcess : ρ → Response → Except Err (Option Response)

section Hooks

variable {ρ : Type}

def runBeforeProcessHooks : List (LifecycleHook ρ) → ρ → Except Err ρ
  | [], req => .ok req
  | h :: rest, req =>
    match h.beforeProcess req with
    | .error err => .error err
    | .ok none =>
      .error (.other (lit "lifecycle hook " ++ quote h.name ++ lit " returned nil request"))
    | .ok (some req) => runBeforeProcessHooks rest req

def runAfterProcessHooks : List (LifecycleHook ρ) → ρ → Response → Except Err Response
  | [], _, resp => .ok resp
  | h :: rest, req, resp =>
    match h.afterProcess req resp with
    | .error err => .error err
    | .ok none =>
      .error (.other (lit "lifecycle hook " ++ quote h.name ++ lit " returned nil response"))
    | .ok (some resp) => runAfterProcessHooks rest req resp

def errorOf {α : Type} : Except Err α → Option Err
  | .error err => some err
  | .ok _ => none

/-- The runs of the `OnError` hooks. -/
def Call.onErrors (c : Call) : List Err :=
  c.trace.filterMap (fun e => match e with
    | .onErrorHooks err => some err
    | _ => none)

def OpenAI.chat (hooks : List (LifecycleHook ρ)) (env : Env) (outcomes : ρ → Nat → ChatOutcome)
    (o : OpenAI) (req : ρ) : OpenAI × Call × Except Err Response :=
  let failed (o : OpenAI) (c : Call) (err : Err) : OpenAI × Call × Except Err Response :=
    (o, c.log (.onErrorHooks err), .error err)
  if env.throttled && env.ctx.cancelled 0 then failed o { tick := 1 } env.ctx.err
  else
    match runBeforeProcessHooks hooks req with
    | .error err => failed o {} err
    | .ok req =>
      match chatWithFailover (outcomes req) o with
      | (o, c, .error err) => failed o c err
      | (o, c, .ok resp) =>
        match runAfterProcessHooks hooks req resp with
        | .error err => failed o c err
        | .ok resp => (o, c, .ok resp)

/-- The usage that `recordStreamCall` returns. -/
def Call.recordedUsage (c : Call) : Option Usage :=
  c.trace.findSome? (fun e => match e with
    | .telemetry _ _ usage => usage
    | _ => none)

/-- The environment in which `Stream` finds the hooks: their answer to the request,
and to the usage at the end of the call, on which they have no influence. -/
def Env.withHooks (env : Env) (hooks : List (LifecycleHook ρ)) (o : OpenAI) (req : ρ) : Env :=
  match runBeforeProcessHooks hooks req with
  | .error err => { env with beforeHook := some err, afterHook := none }
  | .ok req =>
    let usage := (streamWithFailover { env with afterHook := none } o).call.recordedUsage
    { env with
      beforeHook := none
      afterHook := errorOf (runAfterProcessHooks hooks req { usage := usage }) }

end Hooks

/-! ## The attempt that ends a stream -/

/-- The attempt is answered, and its body read to the end without an error. -/
def readsToEnd (env : Env) (attempt : Nat) (s : StreamCall) : Bool :=
  match sendWithRetry env attempt s.o s.call with
  | (_, .error _) => false
  | (call, .ok body) => (readStream env.ctx attempt body s.o call).2.2.isNone

/-- The first of the sends whose answer is read to the end. -/
def readAmong (env : Env) (rounds : List (Nat × StreamCall)) : Option Nat :=
  (rounds.find? (fun r => readsToEnd env r.1 r.2)).map Prod.fst

/-- The attempt that ends a stream with success. -/
def OpenAI.readBy (env : Env) (o : OpenAI) : Option Nat := readAmong env (streamRounds env o)

theorem readAmong_round (env : Env) (attempt : Nat) (sent : Option StreamCall)
    (later : List (Nat × StreamCall)) :
    readAmong env (sent.toList.map (attempt, ·) ++ later) =
      if sent.any (readsToEnd env attempt) then some attempt else readAmong env later := by
  cases sent with
  | none => rfl
  | some s =>
    rw [Option.any_some, readAmong, Option.toList_some]
    by_cases hread : readsToEnd env attempt s = true
    · rw [if_pos hread]
      exact congrArg (Option.map Prod.fst) (List.find?_cons_of_pos hread)
    · rw [if_neg hread]
      exact congrArg (Option.map Prod.fst) (List.find?_cons_of_neg hread)

/-! ## In a live context -/

theorem sendingRounds_failover (env : Env) (left attempt : Nat) {s : StreamCall}
    (hover : ∀ k, attempt ≤ k → s.o.failsOver k = true) :
    sendingRounds env left attempt s = [] := by
  induction left generalizing attempt s with
  | zero => rfl
  | succ left ih =>
    have hhere := hover attempt (Nat.le_refl _)
    have hnone : sends env attempt s = none := by
      rw [sends, if_pos hhere, ite_self]
    rw [sendingRounds, hnone]
    fun_cases streamRound env attempt s
    case case1 => rfl
    case case2 =>
      fun_cases failoverRound env attempt s
      case case3 => exact ih (attempt + 1) fun k hk => hover k (Nat.le_of_succ_le hk)
      all_goals rfl
    all_goals contradiction

section Live

variable {env : Env} (hlive : env.ctx.Live) {o : OpenAI} {s : StreamCall} (hw : Waiting o s)

include hlive hw

theorem readsToEnd_live (attempt : Nat) :
    readsToEnd env attempt s =
      match outcome env o.vendor attempt with
      | .error _ => false
      | .ok body => (body.error false).isNone := by
  obtain ⟨i, hi⟩ := hw.value
  have hsent := sendWithRetry_live hlive attempt s.o s.call
  rw [show s.o.vendor = o.vendor by rw [hi]] at hsent
  rw [← hsent, readsToEnd]
  rcases sendWithRetry env attempt s.o s.call with ⟨call, err | body⟩
  · rfl
  · dsimp only
    rw [readStream_live hlive]
    exact Body.error_isNone _ body

theorem readAmong_live (left attempt : Nat) :
    readAmong env (sendingRounds env left attempt s) = (fate env o left attempt).bind
      (fun r => if (r.2.error false).isNone then some r.1 else none) := by
  induction left generalizing attempt s with
  | zero => rfl
  | succ left ih =>
    rw [fate]
    by_cases hf : o.failsOver attempt = true
    · have hover : ∀ k, attempt ≤ k → s.o.failsOver k = true :=
        fun k hk => hw.failsOver (failsOver_mono o hk hf)
      rw [if_pos hf, sendingRounds_failover env (left + 1) attempt hover]
      rfl
    · obtain ⟨c, hw', hsends⟩ := sends_live hlive hw (Bool.not_eq_true _ ▸ hf)
      have hsend := sendRound_live hlive o attempt hw'
      rw [if_neg hf, sendingRounds, hsends, readAmong_round, Option.any_some,
        readsToEnd_live hlive hw' attempt, streamRound_of_sends hsends]
      cases hout : outcome env o.vendor attempt with
      | error err =>
        rw [hout] at hsend
        obtain ⟨s', hagain, hs'⟩ := hsend
        rw [hagain]
        exact ih hs' (attempt + 1)
      | ok body =>
        rw [hout] at hsend
        dsimp only at hsend ⊢
        by_cases hret : body.retried o.vendor = true
        · obtain ⟨_, err, herr, _⟩ := (retried_iff o body).mp hret
          rw [if_pos hret] at hsend ⊢
          obtain ⟨s', hagain, hs'⟩ := hsend
          rw [hagain, if_neg (by rw [herr]; exact Bool.false_ne_true)]
          exact ih hs' (attempt + 1)
        · rw [if_neg hret] at hsend ⊢
          obtain ⟨s', hfin, _⟩ := hsend
          rw [hfin]
          rfl

end Live

theorem readBy_live {env : Env} (hlive : env.ctx.Live) (o : OpenAI) :
    o.readBy env = (settling env o).bind
      (fun r => if (r.2.error false).isNone then some r.1 else none) := by
  rw [OpenAI.readBy, streamRounds, (hlive 0).1, Bool.and_false, if_neg Bool.false_ne_true]
  exact readAmong_live hlive ⟨rfl, Sending.nil, o.keyIndex, rfl⟩ o.rounds 0

/-! ## What a round does to the hooks -/

namespace Call

variable {c : Call}

theorem onErrors_of_trace {c' : Call} {l : List Event} (htrace : c'.trace = c.trace ++ l)
    (hl : ∀ e ∈ l, ∀ err, e ≠ .onErrorHooks err) : c'.onErrors = c.onErrors := by
  have hnone : l.filterMap (fun e => match e with
      | Event.onErrorHooks err => some err
      | _ => none) = [] := by
    rw [List.filterMap_eq_nil_iff]
    intro e he
    cases e with
    | onErrorHooks err => exact absurd rfl (hl _ he err)
    | _ => rfl
  rw [onErrors, htrace, List.filterMap_append, hnone, List.append_nil]
  rfl

theorem onErrors_log (err : Err) : (c.log (.onErrorHooks err)).onErrors = c.onErrors ++ [err] := by
  simp [onErrors, log]

theorem onErrors_log_other {e : Event} (he : ∀ err, e ≠ .onErrorHooks err) :
    (c.log e).onErrors = c.onErrors :=
  onErrors_of_trace rfl (by
    exact List.forall_mem_singleton.mpr (he))

theorem onErrors_logIf (b : Bool) {e : Event} (he : ∀ err, e ≠ .onErrorHooks err) :
    (c.logIf b e).onErrors = c.onErrors := by
  cases b with
  | false => rfl
  | true => exact onErrors_log_other he

end Call

theorem onErrors_sendChunk (ctx : Ctx) (attempt : Nat) (ch : Chunk) (c : Call) :
    (sendChunk ctx attempt ch c).onErrors = c.onErrors := by
  rcases sendChunk_trace ctx attempt ch c with htrace | htrace
  · simp only [Call.onErrors, htrace]
  · exact Call.onErrors_of_trace htrace (by simp)

theorem onErrors_sendWithRetry (env : Env) (attempt : Nat) (o : OpenAI) (c : Call) :
    (sendWithRetry env attempt o c).1.onErrors = c.onErrors := by
  obtain ⟨_, l, htrace, hl⟩ := sendLoop_sending env attempt o.vendor o.httpRequest maxRetries 0 c
  refine Call.onErrors_of_trace htrace ?_
  intro e he err heq
  have := hl e he
  rw [heq] at this
  cases this

theorem onErrors_readStream (ctx : Ctx) (attempt : Nat) (body : Body) (o : OpenAI) (c : Call) :
    (readStream ctx attempt body o c).2.1.call.onErrors = c.onErrors := by
  obtain ⟨l, htrace, _⟩ := readStream_chunks ctx attempt body o c
  refine Call.onErrors_of_trace htrace ?_
  intro e he err heq
  obtain ⟨ch, _, hch⟩ := List.mem_map.mp he
  rw [heq] at hch
  cases hch

/-- At the head of the loop no hook has run, and `lastErr` is set from the second
round on. -/
structure HooksAt (attempt : Nat) (s : StreamCall) : Prop where
  none : s.call.onErrors = []
  lastErr : s.lastErr.isSome = true ↔ 0 < attempt

/-- What a round leaves, given that it reads to the end or not. -/
def RoundHooks (env : Env) (s : StreamCall) (reads : Bool) : Round → Prop
  | .again s' => reads = false ∧ s'.call.onErrors = [] ∧ s'.lastErr.isSome = true
  | .finished s' =>
    if reads then s'.call.onErrors = env.afterHook.toList ∧ s'.lastErr = s.lastErr
    else s'.call.onErrors = [] ∧ s'.lastErr.isSome = true

section Round

variable {env : Env} {attempt : Nat} {s : StreamCall}

theorem roundHooks_lastErr (hnone : s.call.onErrors = []) (hlast : s.lastErr.isSome = true) :
    RoundHooks env s false (.finished (s.sendLastErr env.ctx attempt)) :=
  ⟨by rw [← hnone]; exact onErrors_sendChunk _ _ _ _, hlast⟩

theorem afterRead_hooks (s₀ : StreamCall) (hnone : s.call.onErrors = [])
    (hlast : s.lastErr = s₀.lastErr) (err : Option Err) :
    RoundHooks env s₀ err.isNone (afterRead env attempt s err) := by
  cases err with
  | some err =>
    simp only [afterRead]
    split
    · exact ⟨hnone, rfl⟩
    · split
      · exact ⟨rfl, hnone, rfl⟩
      · exact roundHooks_lastErr (s := { s with lastErr := some err }) hnone rfl
  | none =>
    simp only [afterRead, StreamCall.recordStreamCall]
    have hrecord : ∀ e : Event, (∀ err, e ≠ .onErrorHooks err) → (s.call.log e).onErrors = [] := by
      intro e he
      rw [Call.onErrors_log_other he, hnone]
    cases hhook : env.afterHook with
    | none =>
      refine ⟨?_, hlast⟩
      rw [hhook, Call.onErrors_logIf _ (by simp)]
      exact hrecord _ (by simp)
    | some hookErr =>
      refine ⟨?_, hlast⟩
      rw [hhook, Call.onErrors_logIf _ (by simp), Call.onErrors_log, hrecord _ (by simp)]
      rfl

theorem sendRound_hooks (s₀ : StreamCall) (hnone : s.call.onErrors = [])
    (hlast : s.lastErr = s₀.lastErr) :
    RoundHooks env s₀ (readsToEnd env attempt s) (sendRound env attempt s) := by
  have hsend := onErrors_sendWithRetry env attempt s.o s.call
  rw [hnone] at hsend
  simp only [readsToEnd, sendRound]
  cases hcall : sendWithRetry env attempt s.o s.call with
  | mk call r =>
    rw [hcall] at hsend
    cases r with
    | error err => exact ⟨rfl, hsend, rfl⟩
    | ok body =>
      have hread := onErrors_readStream env.ctx attempt body s.o call
      rw [hsend] at hread
      dsimp only
      generalize readStream env.ctx attempt body s.o call = result at hread ⊢
      obtain ⟨o, outlet, err⟩ := result
      exact afterRead_hooks (s := { s with o, call := outlet.call, emitted := outlet.emitted })
        s₀ hread hlast err

theorem streamRound_hooks (h : HooksAt attempt s) :
    RoundHooks env s ((sends env attempt s).any (readsToEnd env attempt))
      (streamRound env attempt s) := by
  simp only [sends, streamRound]
  split
  next hagain => exact roundHooks_lastErr h.none (h.lastErr.mpr hagain.1)
  next =>
    split
    next hover =>
      have hpos : 0 < attempt := by
        simp only [OpenAI.failsOver, Bool.and_eq_true, decide_eq_true_eq] at hover
        exact hover.1
      have hlast := h.lastErr.mpr hpos
      simp only [failoverRound]
      split
      · exact roundHooks_lastErr h.none hlast
      · split
        · exact roundHooks_lastErr h.none hlast
        · exact ⟨rfl, h.none, hlast⟩
    next =>
      split
      · exact sendRound_hooks s h.none rfl
      · split
        · exact ⟨h.none, rfl⟩
        · exact sendRound_hooks s h.none rfl

end Round

/-! ## The loop -/

theorem streamLoop_hooks (env : Env) (left attempt : Nat) {s : StreamCall} (h : HooksAt attempt s) :
    (streamLoop env left attempt s).call.onErrors =
        (if (readAmong env (sendingRounds env left attempt s)).isSome then env.afterHook.toList
          else []) ∧
      ((streamLoop env left attempt s).lastErr.isSome = true ↔
        match readAmong env (sendingRounds env left attempt s) with
        | some by_ => 0 < by_
        | none => 0 < attempt + left) := by
  induction left generalizing attempt s with
  | zero =>
    have hsent : (s.sendLastErr env.ctx attempt).call.onErrors = [] := by
      rw [← h.none]
      exact onErrors_sendChunk _ _ _ _
    refine ⟨?_, h.lastErr⟩
    simp only [streamLoop, sendingRounds, StreamCall.recordStreamCall]
    cases s.lastErr with
    | some err => exact hsent
    | none =>
      rw [Call.onErrors_log_other (by simp)]
      exact hsent
  | succ left ih =>
    have hround : RoundHooks env s _ (streamRound env attempt s) := streamRound_hooks h
    rw [streamLoop, sendingRounds, readAmong_round]
    cases hr : streamRound env attempt s with
    | again s' =>
      rw [hr] at hround
      obtain ⟨hreads, hnone, hlast⟩ := hround
      rw [hreads, if_neg Bool.false_ne_true]
      have hnext := ih (attempt + 1) (s := s') ⟨hnone, by simp [hlast]⟩
      rwa [Nat.add_right_comm, Nat.add_assoc attempt left 1] at hnext
    | finished s' =>
      rw [hr] at hround
      dsimp only
      cases hreads : (sends env attempt s).any (readsToEnd env attempt) with
      | true =>
        rw [hreads] at hround
        obtain ⟨hhooks, hlast⟩ := hround
        refine ⟨hhooks, ?_⟩
        rw [hlast]
        exact h.lastErr
      | false =>
        rw [hreads] at hround
        obtain ⟨hnone, hlast⟩ := hround
        refine ⟨hnone, ?_⟩
        simp only [hlast, Bool.false_eq_true, if_false, true_iff, readAmong, List.find?_nil,
          Option.map_none]
        omega

theorem onErrors_streamWithFailover {env : Env} (o : OpenAI)
    (hlet : (env.throttled && env.ctx.cancelled 0) = false) :
    (streamWithFailover env o).call.onErrors.length =
      match o.readBy env with
      | some attempt => env.afterHook.toList.length + if 0 < attempt then 1 else 0
      | none => if 0 < o.rounds then 1 else 0 := by
  have hstart : ∀ tick, HooksAt 0 { o, call := { tick } } := fun _ => ⟨rfl, by simp⟩
  obtain ⟨hhooks, hlast⟩ := streamLoop_hooks env o.rounds 0
      (hstart (if env.throttled then 1 else 0))
  have hdeferred : ∀ s : StreamCall, s.deferred.call.onErrors.length =
      s.call.onErrors.length + if s.lastErr.isSome = true then 1 else 0 := by
    intro s
    simp only [StreamCall.deferred]
    cases s.lastErr with
    | none => rfl
    | some err => rw [Call.onErrors_log, List.length_append]; rfl
  have hgo := Bool.not_eq_true _ ▸ hlet
  rw [streamWithFailover, OpenAI.readBy, streamRounds, if_neg hgo, if_neg hgo, hdeferred, hhooks]
  cases hby : readAmong env (sendingRounds env o.rounds 0
      { o, call := { tick := if env.throttled then 1 else 0 } }) with
  | none =>
    rw [hby] at hlast
    simp only [hlast, Nat.zero_add, Option.isSome_none, Bool.false_eq_true, if_false,
      List.length_nil]
  | some attempt =>
    rw [hby] at hlast
    simp only [hlast]
    rfl

/-! ## Chats and streams -/

/-- How a call ends, and the errors its `OnError` hooks have been run with. -/
structure Ended where
  failed : Bool
  onErrors : List Err

/-- Once for a failure, and never for a success. -/
def Ended.HooksOnce (e : Ended) : Prop := e.onErrors.length = if e.failed then 1 else 0

/-- A call of the protocol on an `OpenAI` value. -/
inductive HookedCall (ρ : Type) where
  | chat (outcomes : ρ → Nat → ChatOutcome) (o : OpenAI) (req : ρ)
  | stream (o : OpenAI) (req : ρ)

namespace HookedCall

variable {ρ : Type} (hooks : List (LifecycleHook ρ)) (env : Env)

/-- A stream fails if `Stream` returns an error, if the limiter refuses it, or if no
attempt is read to the end without an error. -/
def ended : HookedCall ρ → Ended
  | .chat outcomes o req =>
    let answer := o.chat hooks env outcomes req
    ⟨(errorOf answer.2.2).isSome, answer.2.1.onErrors⟩
  | .stream o req =>
    let env := env.withHooks hooks o req
    match o.stream env with
    | .error err => ⟨true, [err]⟩
    | .ok s =>
      ⟨(env.throttled && env.ctx.cancelled 0) || (o.readBy env).isNone, s.call.onErrors⟩

/-- A stream that is refused before its first attempt; or is read to the end at its
first attempt, with no error of the hooks behind it; or at none of its attempts, of
which there is at least one. -/
def Straight : HookedCall ρ → Prop
  | .chat _ _ _ => True
  | .stream o req =>
    let env := env.withHooks hooks o req
    env.beforeHook.isSome = true ∨ (env.throttled && env.ctx.cancelled 0) = true ∨
      match o.readBy env with
      | some attempt => attempt = 0 ∧ env.afterHook = none
      | none => 0 < o.rounds

end HookedCall

theorem onErrors_chatLoop (outcomes : Nat → ChatOutcome) (left attempt : Nat) (o : OpenAI)
    (lastErr : Err) (c : Call) :
    (chatLoop outcomes left attempt o lastErr c).2.1.onErrors = c.onErrors := by
  refine chatLoop_rule outcomes (I := fun _ c' => c'.onErrors = c.onErrors) ?_ ?_ left attempt o
    lastErr c rfl
  · intro o c' _ target h _ _
    exact h
  · intro attempt o c' h
    have hsent : (c'.log (.request attempt o.httpRequest)).onErrors = c.onErrors :=
      (Call.onErrors_log_other (by simp)).trans h
    cases outcomes attempt with
    | buildError err => exact h
    | failed err => exact hsent
    | ok resp => exact (Call.onErrors_log_other (by simp)).trans hsent

variable {ρ : Type}

theorem chat_hooksOnce (hooks : List (LifecycleHook ρ)) (env : Env)
    (outcomes : ρ → Nat → ChatOutcome) (o : OpenAI) (req : ρ) :
    ((HookedCall.chat outcomes o req).ended hooks env).HooksOnce := by
  have hloop : ∀ req, (chatWithFailover (outcomes req) o).2.1.onErrors = [] :=
    fun req => onErrors_chatLoop _ _ _ _ _ _
  simp only [HookedCall.ended, Ended.HooksOnce, OpenAI.chat]
  split
  · rfl
  · cases runBeforeProcessHooks hooks req with
    | error err => rfl
    | ok req =>
      have hnone := hloop req
      rcases hchat : chatWithFailover (outcomes req) o with ⟨o', c, err | resp⟩
      · rw [hchat] at hnone
        simp only [hchat, Call.onErrors_log, hnone]
        rfl
      · rw [hchat] at hnone
        cases hafter : runAfterProcessHooks hooks req resp with
        | error err =>
          simp only [hchat, hafter, Call.onErrors_log, hnone]
          rfl
        | ok resp =>
          simp only [hchat, hafter, hnone]
          rfl

theorem stream_hooksOnce_iff (hooks : List (LifecycleHook ρ)) (env : Env) (o : OpenAI) (req : ρ) :
    ((HookedCall.stream o req).ended hooks env).HooksOnce ↔
      (HookedCall.stream o req).Straight hooks env := by
  simp only [HookedCall.ended, HookedCall.Straight, OpenAI.stream]
  generalize env.withHooks hooks o req = env
  cases hbefore : env.beforeHook with
  | some err => exact iff_of_true rfl (Or.inl rfl)
  | none =>
    cases hlet : env.throttled && env.ctx.cancelled 0 with
    | true =>
      refine iff_of_true ?_ (Or.inr (Or.inl rfl))
      simp only [Ended.HooksOnce, streamWithFailover, hlet, if_true, Bool.true_or,
        onErrors_sendChunk]
      rfl
    | false =>
      have hcount := onErrors_streamWithFailover o hlet
      simp only [Ended.HooksOnce, hcount, Option.isSome_none, Bool.false_eq_true, false_or,
        Bool.false_or]
      cases o.readBy env with
      | none =>
        simp only [Option.isNone_none, if_true]
        by_cases hrounds : 0 < o.rounds <;> simp [hrounds]
      | some attempt =>
        simp only [Option.isNone_some, Bool.false_eq_true, if_false]
        cases env.afterHook with
        | none =>
          by_cases hpos : 0 < attempt
          · simp [hpos]
            omega
          · simp [hpos]
            omega
        | some err => simp

/-- The `OnError` hooks of a call run once if it fails and never if it succeeds,
exactly if the call is a `Chat` or a straight stream.  The attempt that counts is told from
the outcomes of the attempts if the context is live: it is the one that settles the call,
if its body has no error. -/
theorem onError_once_iff (hooks : List (LifecycleHook ρ)) (env : Env)
    (c : HookedCall ρ) : ((c.ended hooks env).HooksOnce ↔ c.Straight hooks env) ∧
      (env.ctx.Live → ∀ o : OpenAI, o.readBy env = (settling env o).bind
        (fun r => if (r.2.error false).isNone then some r.1 else none)) := by
  refine ⟨?_, readBy_live⟩
  cases c with
  | chat outcomes o req => exact iff_of_true (chat_hooksOnce hooks env outcomes o req) trivial
  | stream o req => exact stream_hooksOnce_iff hooks env o req

/-- The first attempt is answered with 401 and the second one with a whole body: the
stream ends well, and the hooks have been told of the 401. -/
theorem onError_after_success :
    ∃ err, HookedCall.ended
        [{ name := lit "audit"
           beforeProcess := fun req => .ok (some req)
           afterProcess := fun _ resp => .ok (some resp) }]
        { ctx := Ctx.background
          tries := fun attempt _ =>
            { outcome := if attempt = 0 then .response 401 [] {}
                else .response 200 [] { lines := [lit "data: [DONE]"] } } }
        (.stream { maxReconnect := 1 } ()) = ⟨false, [err]⟩ ∧
      ¬ Ended.HooksOnce ⟨false, [err]⟩ :=
  ⟨_, rfl, by simp [Ended.HooksOnce]⟩

end MiniGoAgent
