/-
# `Protocol.Fallback` — a stream never asks its fallback

When every attempt against the endpoint fails, `streamWithFailover` fails over:
it switches endpoint and model, and goes to the next round with `continue`.
That round is past `maxReconnect` as well, so it fails over again, and the loop
ends without a request to the fallback.  The switch is for good, so a later call
starts at the fallback.

`fallbackTried_iff` puts this as an equivalence: the fallback is asked only by a
call that has it for its own endpoint already.
-/
import MiniGoAgent.Protocol.LiveCall
import MiniGoAgent.Protocol.Endpoint

open Go

namespace MiniGoAgent

/-! ## Requests that are sent -/

theorem sendOnce_sends (env : Env) (tag : Nat) (vendor : Vendor) (req : HttpRequest) {t : HttpTry}
    (h : t.letsOut env vendor = true) (c : Call) :
    .request tag req ∈ (sendOnce env tag vendor req t c).1.trace := by
  have hsends : t.sends (env.registered vendor) = true := by
    rw [HttpTry.letsOut, ← Bool.not_or] at h
    cases hout : t.outcome with
    | buildError err => simp [hout] at h
    | transport err => simpa [HttpTry.sends, HttpTry.refused, HttpOutcome.isSent, hout] using h
    | response status msg body =>
      simpa [HttpTry.sends, HttpTry.refused, HttpOutcome.isSent, hout] using h
  obtain ⟨e, heq, _⟩ := sendOnce_spec env tag vendor req t c
  rw [heq, HttpTry.events, if_pos hsends]
  exact List.mem_append_right _ List.mem_cons_self

variable {env : Env} {o : OpenAI}

theorem sendWithRetry_sends {attempt : Nat}
    (h : (env.tries attempt 0).letsOut env o.vendor = true) (c : Call) :
    .request attempt o.httpRequest ∈ (sendWithRetry env attempt o c).1.trace := by
  have hfirst := sendOnce_sends env attempt o.vendor o.httpRequest h c
  rw [sendWithRetry, sendLoop, if_neg (by simp), if_neg (Nat.lt_irrefl 0)]
  split
  next c' r heq =>
    rw [heq] at hfirst
    exact hfirst
  next c' err heq =>
    rw [heq] at hfirst
    obtain ⟨_, l, hl, _⟩ := sendLoop_sending env attempt o.vendor o.httpRequest 9 1 c'
    show _ ∈ (sendLoop env attempt o.vendor o.httpRequest 9 1 c').1.trace
    rw [hl]
    exact List.mem_append_left _ hfirst

theorem Grows.mem {Q : Event → Prop} {c c' : Call} (h : Grows Q c c') {e : Event}
    (he : e ∈ c.trace) : e ∈ c'.trace := by
  obtain ⟨l, hl, _⟩ := h
  rw [hl]
  exact List.mem_append_left l he

theorem mem_rule (env : Env) (n : Nat) (e : Event) :
    CallRule env n (fun _ s => e ∈ s.call.trace) (fun s => e ∈ s.call.trace) where
  aside h _ hc := hc.mem h
  returned h _ hc := hc.mem h
  abort h := h
  record h err := by
    cases err with
    | some err => exact h
    | none => exact List.mem_append_left _ h
  next h := h
  failover h _ _ := h
  failed {k s call err} _ _ h hsend := by
    have hsent := (sendWithRetry_asks env k s.o s.call).mem h
    rwa [hsend] at hsent
  read {k s call body} _ _ h hsend := by
    have hsent := (sendWithRetry_asks env k s.o s.call).mem h
    rw [hsend] at hsent
    exact (readStream_aside env.ctx k body s.o call).mem hsent

section Asked

variable {env : Env} (hlive : env.ctx.Live) {o : OpenAI}

include hlive

theorem streamLoop_sends {k : Nat} (hover : o.failsOver k = false)
    (hout : (env.tries k 0).letsOut env o.vendor = true) (left attempt : Nat) {s : StreamCall}
    (hw : Waiting o s) (hle : attempt ≤ k) (hlt : k < attempt + left) :
    ∃ (j : Nat) (key : Str),
      .request j ⟨o.baseURL, o.model, key⟩ ∈ (streamLoop env left attempt s).call.trace := by
  induction left generalizing attempt s with
  | zero => omega
  | succ left ih =>
    have hf : o.failsOver attempt = false := by
      rw [← Bool.not_eq_true] at hover ⊢
      exact fun h => hover (failsOver_mono o hle h)
    obtain ⟨i, hi⟩ := hw.value
    obtain ⟨c, hw', hsends⟩ := sends_live hlive hw hf
    rw [streamLoop, streamRound_of_sends hsends]
    have hvendor : s.o.vendor = o.vendor := by rw [hi]
    by_cases hfirst : (env.tries attempt 0).letsOut env s.o.vendor = true
    · -- the request is on the trace, and the rest of the call only adds to it
      have hsent := sendWithRetry_sends hfirst c
      have hreq : s.o.httpRequest = ⟨o.baseURL, o.model, s.o.currentKey⟩ := by
        rw [OpenAI.httpRequest, hi]
      rw [hreq] at hsent
      have hrule := mem_rule env (attempt + (left + 1))
        (.request attempt ⟨o.baseURL, o.model, s.o.currentKey⟩)
      have hround := hrule.sendRound (k := attempt) (s := { s with call := c })
        (fun call err heq => by rw [heq] at hsent; exact hsent)
        (fun call body heq => by
          rw [heq] at hsent
          exact (readStream_aside env.ctx attempt body s.o call).mem hsent)
      refine ⟨attempt, s.o.currentKey, ?_⟩
      cases hr : sendRound env attempt { s with call := c } with
      | again s' =>
        rw [hr] at hround
        exact hrule.streamLoop (by omega) hround
      | finished s' =>
        rw [hr] at hround
        exact hround
    · rw [Bool.not_eq_true] at hfirst
      obtain ⟨err, herr⟩ := sendWithRetry_held hfirst c
      have hne : attempt ≠ k := by
        rintro rfl
        rw [hvendor, hout] at hfirst
        cases hfirst
      rw [sendRound, herr]
      exact ih (attempt + 1) (hw'.sendFailed err) (by omega) (by omega)

end Asked

/-! ## The property -/

/-- The model and the base URL failover would switch to. -/
def OpenAI.fallback (o : OpenAI) : Option (Str × Str) :=
  o.failover.getFailoverModel o.model o.vendor.string

/-- The attempt fails before anything is emitted: its request fails, or its body
puts nothing on the channel and ends with an error. -/
def FailsUnheard (env : Env) (o : OpenAI) (attempt : Nat) : Prop :=
  ∀ body, outcome env o.vendor attempt = .ok body →
    body.chunks o = [] ∧ (body.error false).isSome = true

/-- The call is recorded, and no error is reported. -/
def Succeeded (c : Call) : Prop :=
  (∃ model vendor usage, .telemetry model vendor usage ∈ c.trace) ∧
    ∀ k ch, .chunk k ch ∈ c.trace → ch.type ≠ .error

def attemptVendor (o : OpenAI) (target : Str × Str) (attempt : Nat) : Vendor :=
  if o.failsOver attempt then detectVendor target.2 else o.vendor

/-- Before anything is reported a request goes to the fallback and asks for its
model, and if it is answered well the call succeeds. -/
def FallbackTried (env : Env) (o : OpenAI) : Prop :=
  ∃ target, o.fallback = some target ∧
    ∃ (attempt : Nat) (key : Str) (before after : List Event),
      (streamWithFailover env o).call.trace = before ++ after ∧ Quiet before ∧
      .request attempt ⟨trimRight target.2 (lit "/") ++ chatCompletions, target.1, key⟩ ∈ before ∧
      ∀ body, outcome env (attemptVendor o target attempt) attempt = .ok body →
        body.error false = none → Succeeded (streamWithFailover env o).call

/-- The value has been failed over already: its endpoint and its model are those
of the fallback. -/
def AtFallback (o : OpenAI) : Prop :=
  ∃ target, o.fallback = some target ∧
    o.baseURL = trimRight target.2 (lit "/") ++ chatCompletions ∧ o.model = target.1

theorem request_before {e : Event} (hreq : e.isRequest = true)
    (h : e ∈ (streamWithFailover env o).call.trace) :
    ∃ before after, (streamWithFailover env o).call.trace = before ++ after ∧ Quiet before ∧
      e ∈ before := by
  obtain ⟨_, before, after, htrace, hquiet, hafter⟩ := streamWithFailover_orderly env o
  refine ⟨before, after, htrace, hquiet, ?_⟩
  rw [htrace] at h
  rcases List.mem_append.mp h with h | h
  · exact h
  · have hfollows := hafter e h
    cases e with
    | request _ _ => exact hfollows.elim
    | _ => cases hreq

/-- If no attempt against the endpoint gets through, the fallback is asked if and
only if it is that endpoint, and some attempt lets its request out. -/
theorem fallbackTried_iff (hlive : env.ctx.Live)
    (hfail : ∀ k, o.failsOver k = false → FailsUnheard env o k) :
    FallbackTried env o ↔
      AtFallback o ∧
        ∃ k < o.rounds, o.failsOver k = false ∧ (env.tries k 0).letsOut env o.vendor = true := by
  constructor
  · rintro ⟨target, htarget, attempt, key, before, after, htrace, _, hreq, _⟩
    have hmem : Event.request attempt
        ⟨trimRight target.2 (lit "/") ++ chatCompletions, target.1, key⟩ ∈
          (streamWithFailover env o).call.trace := by
      rw [htrace]
      exact List.mem_append_left _ hreq
    obtain ⟨hurl, hmodel, hlt, hover, hout⟩ := request_aims hmem
    exact ⟨⟨target, htarget, hurl.symm, hmodel.symm⟩, attempt, hlt, hover, hout⟩
  · rintro ⟨⟨target, htarget, hurl, hmodel⟩, k, hlt, hover, hout⟩
    obtain ⟨attempt, key, hmem⟩ : ∃ (j : Nat) (key : Str),
        .request j ⟨o.baseURL, o.model, key⟩ ∈ (streamWithFailover env o).call.trace := by
      obtain ⟨j, key, hloop⟩ := streamLoop_sends hlive hover hout o.rounds 0
        (s := { o, call := { tick := if env.throttled then 1 else 0 } })
        ⟨rfl, Sending.nil, o.keyIndex, rfl⟩ (Nat.zero_le k) (by omega)
      refine ⟨j, key, ?_⟩
      rw [streamWithFailover, (hlive 0).1, Bool.and_false, if_neg (by simp)]
      unfold StreamCall.deferred
      split
      · exact List.mem_append_left _ hloop
      · exact hloop
    have hdirect := (request_aims hmem).2.2.2.1
    obtain ⟨before, after, htrace, hquiet, hbefore⟩ := request_before rfl hmem
    rw [hurl, hmodel] at hbefore
    refine ⟨target, htarget, attempt, key, before, after, htrace, hquiet, hbefore, ?_⟩
    intro body hbody hgood
    rw [attemptVendor, hdirect, if_neg (by simp)] at hbody
    have herr := (hfail attempt hdirect body hbody).2
    rw [hgood] at herr
    cases herr

def refusing : Env where
  ctx := .background
  tries := fun _ _ => { outcome := .response 400 [] {} }

theorem failsUnheard_refusing (o : OpenAI) (k : Nat) : FailsUnheard refusing o k := by
  intro body h
  have hrefused : ∃ err, outcome refusing o.vendor k = .error err := ⟨_, rfl⟩
  obtain ⟨err, herr⟩ := hrefused
  rw [herr] at h
  cases h

theorem fallbackTried_iff_refusing :
    refusing.ctx.Live ∧
    ∃ o, newOpenAI [] (configWithFallback "https://api.deepseek.com") = .ok o ∧
      (∀ k, o.failsOver k = false → FailsUnheard refusing o k) ∧
      (FallbackTried refusing o ↔
        AtFallback o ∧ ∃ k < o.rounds, o.failsOver k = false ∧
          (refusing.tries k 0).letsOut refusing o.vendor = true) := by
  obtain ⟨o, hnew⟩ := newOpenAI_configWithFallback "https://api.deepseek.com"
  exact ⟨Ctx.background_live, o, hnew, fun k _ => failsUnheard_refusing o k,
    fallbackTried_iff Ctx.background_live (fun k _ => failsUnheard_refusing o k)⟩

/-- With a fallback configured and the endpoint refusing every request, all the
requests of the call go to the endpoint. -/
theorem fallback_never_asked :
    ∃ o, newOpenAI [] (configWithFallback "https://api.deepseek.com") = .ok o ∧
      o.fallback = some (lit "deepseek-chat", lit "https://api.deepseek.com") ∧
      (∀ k, FailsUnheard refusing o k) ∧
      (∀ p ∈ (streamWithFailover refusing o).call.requests,
        p.2.url = lit "https://api.openai.com/v1/chat/completions") ∧
      ¬ FallbackTried refusing o := by
  obtain ⟨o, hnew⟩ := newOpenAI_configWithFallback "https://api.deepseek.com"
  obtain ⟨hbase, hmodel, hfailover⟩ := newOpenAI_fields hnew
  have hurl : o.baseURL = lit "https://api.openai.com/v1/chat/completions" := by
    rw [hbase]
    decide +kernel
  have hfallback : o.fallback = some (lit "deepseek-chat", lit "https://api.deepseek.com") := by
    rw [OpenAI.fallback, hfailover]
    rfl
  refine ⟨o, hnew, hfallback, failsUnheard_refusing o, ?_, ?_⟩
  · intro p hp
    rw [(request_aims (mem_requests hp)).1, hurl]
  · rintro ⟨target, htarget, attempt, key, before, after, htrace, _, hreq, _⟩
    have hmem : Event.request attempt
        ⟨trimRight target.2 (lit "/") ++ chatCompletions, target.1, key⟩ ∈
          (streamWithFailover refusing o).call.trace := by
      rw [htrace]
      exact List.mem_append_left _ hreq
    have hasked := (request_aims hmem).2.1
    rw [hfallback, Option.some.injEq] at htarget
    rw [← htarget, hmodel] at hasked
    change lit "deepseek-chat" = lit "gpt-4o" at hasked
    exact absurd hasked (by decide)

end MiniGoAgent
