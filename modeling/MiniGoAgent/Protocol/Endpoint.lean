/-
# `Protocol.Endpoint` — where requests go

The endpoint of an `OpenAI` value is mutable: `NewOpenAI` validates it and
failover rewrites it, from both loops.  `chatWithFailover` sends to the endpoint it
found or one that failover names, and `streamWithFailover` to the one it found only,
since every round behind a failover fails over again (`streamWithFailover_aims`).

`newOpenAI_guarded_iff` says when the endpoints a value can come to all pass
the validation the first one has passed.
-/
import MiniGoAgent.Protocol.Scan

open Go

namespace MiniGoAgent

variable (ctx : Ctx) (attempt : Nat)

variable {o v : OpenAI}

/-! ## Growing traces -/

/-- The trace grows by events of the kind `Q`. -/
def Grows (Q : Event → Prop) (c c' : Call) : Prop :=
  ∃ l, c'.trace = c.trace ++ l ∧ ∀ e ∈ l, Q e

namespace Grows

variable {Q Q' : Event → Prop} {c c' c'' : Call}

theorem refl (c : Call) : Grows Q c c := ⟨[], (List.append_nil _).symm, fun _ he => nomatch he⟩

theorem trans (h : Grows Q c c') (h' : Grows Q c' c'') : Grows Q c c'' := by
  obtain ⟨l, hl, hq⟩ := h
  obtain ⟨l', hl', hq'⟩ := h'
  refine ⟨l ++ l', by rw [hl', hl, List.append_assoc], ?_⟩
  exact List.forall_mem_append.mpr ⟨hq, hq'⟩

theorem mono (hsub : ∀ e, Q e → Q' e) (h : Grows Q c c') : Grows Q' c c' := by
  obtain ⟨l, hl, hq⟩ := h
  exact ⟨l, hl, fun e he => hsub e (hq e he)⟩

theorem log {e : Event} (he : Q e) : Grows Q c (c.log e) := by
  refine ⟨[e], rfl, ?_⟩
  exact List.forall_mem_singleton.mpr he

theorem logIf (b : Bool) {e : Event} (he : Q e) : Grows Q c (c.logIf b e) := by
  cases b with
  | false => exact refl c
  | true => exact log he

theorem chunk (hchunk : ∀ k ch, Q (.chunk k ch)) (ctx : Ctx) (attempt : Nat) (ch : Chunk) :
    Grows Q c (sendChunk ctx attempt ch c) := by
  rcases sendChunk_trace ctx attempt ch c with htr | htr
  · exact ⟨[], by rw [htr, List.append_nil], fun _ he => nomatch he⟩
  · refine ⟨[.chunk attempt ch], htr, ?_⟩
    exact List.forall_mem_singleton.mpr (hchunk attempt ch)

end Grows

/-! ## Requests of an attempt -/

/-- If it is a request, then `req` in `tag`. -/
def Event.Asks (tag : Nat) (req : HttpRequest) : Event → Prop
  | .request k r => k = tag ∧ r = req
  | _ => True

theorem sendOnce_asks (env : Env) (tag : Nat) (vendor : Vendor) (req : HttpRequest)
    (t : HttpTry) (c : Call) :
    Grows (Event.Asks tag req) c (sendOnce env tag vendor req t c).1 := by
  obtain ⟨e, heq, _⟩ := sendOnce_spec env tag vendor req t c
  rw [heq]
  refine ⟨_, rfl, ?_⟩
  intro e he
  rcases mem_events he with rfl | ⟨err, rfl⟩ | rfl
  · exact ⟨rfl, rfl⟩
  · trivial
  · trivial

theorem sendWithRetry_asks (env : Env) (attempt : Nat) (o : OpenAI) (c : Call) :
    Grows (Event.Asks attempt o.httpRequest) c (sendWithRetry env attempt o c).1 := by
  refine sendLoop_rel env attempt o.vendor o.httpRequest
    (R := Grows (Event.Asks attempt o.httpRequest)) Grows.refl ?_ ?_ ?_ maxRetries 0 c
  · intro _ _ _ h h'
    exact h.trans h'
  · intro c
    exact .refl c
  · intro t c
    exact sendOnce_asks env attempt o.vendor o.httpRequest t c

/-- The try gets as far as sending the request. -/
def HttpTry.letsOut (env : Env) (vendor : Vendor) (t : HttpTry) : Bool :=
  !t.circuitOpen && !(env.registered vendor && !t.allowed) &&
    match t.outcome with
    | .buildError _ => false
    | _ => true

theorem sendOnce_held (env : Env) (tag : Nat) (vendor : Vendor) (req : HttpRequest) {t : HttpTry}
    (h : t.letsOut env vendor = false) (c : Call) :
    ∃ err, sendOnce env tag vendor req t c = (c, .done (.error err)) := by
  unfold HttpTry.letsOut at h
  unfold sendOnce
  split
  · exact ⟨_, rfl⟩
  next hopen =>
    split
    · exact ⟨_, rfl⟩
    next hallowed =>
      cases hout : t.outcome with
      | buildError err => exact ⟨_, rfl⟩
      | transport | response => simp_all

variable {env : Env}

theorem sendWithRetry_held {attempt : Nat}
    (h : (env.tries attempt 0).letsOut env o.vendor = false) (c : Call) :
    ∃ err, sendWithRetry env attempt o c = (c, .error err) := by
  obtain ⟨err, herr⟩ := sendOnce_held env attempt o.vendor o.httpRequest h c
  refine ⟨err, ?_⟩
  rw [sendWithRetry, sendLoop, if_neg (by simp), if_neg (Nat.lt_irrefl 0), herr]

/-! ## Reading keeps the endpoint -/

theorem processSSEData_note (sr : StreamRecord) (s : ReadStreamState) :
    (processSSEData ctx attempt sr s).1.o = s.o.note sr.recordedUsage.toList := by
  unfold processSSEData
  dsimp only
  cases sr.recordedUsage with
  | none | some => split <;> rfl

/-- The usages of the records a reading processes, up to the one at which it ends. -/
def readUsages (ctx : Ctx) (attempt : Nat) : List Str → ReadStreamState → List Usage
  | [], _ => []
  | text :: rest, s =>
    match parseLine text with
    | .skip => readUsages ctx attempt rest s
    | .done => []
    | .record sr =>
      sr.recordedUsage.toList ++
        match processSSEData ctx attempt sr s with
        | (s, .more) => readUsages ctx attempt rest s
        | _ => []

theorem readLines_note (lines : List Str) (s : ReadStreamState) :
    (readLines ctx attempt lines s).1.o = s.o.note (readUsages ctx attempt lines s) := by
  induction lines generalizing s with
  | nil => rfl
  | cons text rest ih =>
    rw [readLines, readUsages]
    cases parseLine text with
    | skip => exact ih s
    | done => rfl
    | record sr =>
      have hnote := processSSEData_note ctx attempt sr s
      dsimp only
      rcases hdata : processSSEData ctx attempt sr s with ⟨s', verdict⟩
      rw [hdata] at hnote
      cases verdict with
      | more =>
        show (readLines ctx attempt rest s').1.o = _
        rw [ih, hnote, OpenAI.note_note]
      | stop | failed =>
        rw [List.append_nil]
        exact hnote

theorem readStream_note (body : Body) (o : OpenAI) (c : Call) :
    (readStream ctx attempt body o c).1 =
      o.note (readUsages ctx attempt body.lines { o, outlet := { call := c } }) := by
  have hvalue := readLines_note ctx attempt body.lines { o, outlet := { call := c } }
  fun_cases readStream ctx attempt body o c
  case case1 heq | case2 heq | case3 heq _ _ | case4 heq _ _ | case5 heq _ _ =>
    rw [heq] at hvalue
    exact hvalue

/-! ## Heirs -/

/-- The endpoints a value may come to: its own, and those failover names. -/
def OpenAI.Endpoint (o : OpenAI) (url : Str) : Prop :=
  url = o.baseURL ∨
    ∃ (model vendor : Str) (target : Str × Str),
      o.failover.getFailoverModel model vendor = some target ∧
        url = trimRight target.2 (lit "/") ++ chatCompletions

/-- What calls may make of a value, as far as the endpoint is concerned. -/
structure Heir (o v : OpenAI) : Prop where
  failover : v.failover = o.failover
  maxReconnect : v.maxReconnect = o.maxReconnect
  endpoint : o.Endpoint v.baseURL

namespace Heir

theorem refl (o : OpenAI) : Heir o o := ⟨rfl, rfl, Or.inl rfl⟩

theorem endpoint_of (h : Heir o v) {url : Str} (hurl : v.Endpoint url) : o.Endpoint url := by
  rcases hurl with rfl | ⟨model, vendor, target, hget, rfl⟩
  · exact h.endpoint
  · rw [h.failover] at hget
    exact Or.inr ⟨model, vendor, target, hget, rfl⟩

theorem trans {w : OpenAI} (h : Heir o v) (h' : Heir v w) : Heir o w :=
  ⟨h'.failover.trans h.failover, h'.maxReconnect.trans h.maxReconnect, h.endpoint_of h'.endpoint⟩

theorem applyFailover (o : OpenAI) {model vendor : Str} {target : Str × Str}
    (h : o.failover.getFailoverModel model vendor = some target) :
    Heir o (o.applyFailover target.1 target.2) :=
  ⟨rfl, rfl, Or.inr ⟨model, vendor, target, h, rfl⟩⟩

theorem usage (h : Heir o v) (u : Option Usage) : Heir o { v with lastUsage := u } :=
  ⟨h.failover, h.maxReconnect, h.endpoint⟩

theorem failsOver (h : Heir o v) (k : Nat) : v.failsOver k = o.failsOver k := by
  unfold OpenAI.failsOver OpenAI.failoverMax
  rw [h.failover, h.maxReconnect]

end Heir

theorem rotateKey_fields (o : OpenAI) :
    o.rotateKey.1.failover = o.failover ∧ o.rotateKey.1.maxReconnect = o.maxReconnect ∧
      o.rotateKey.1.baseURL = o.baseURL ∧ o.rotateKey.1.model = o.model ∧
      o.rotateKey.1.vendor = o.vendor := by
  unfold OpenAI.rotateKey
  split <;> exact ⟨rfl, rfl, rfl, rfl, rfl⟩

/-! ## Chat -/

/-- If it is a request, then to one of the endpoints. -/
def Event.StaysWith (o : OpenAI) : Event → Prop
  | .request _ r => o.Endpoint r.url
  | _ => True

theorem chatDirect_grows (outcome : ChatOutcome) (attempt : Nat) (h : Heir o v)
    (c : Call) : Grows (Event.StaysWith o) c (chatDirect outcome attempt v c).1 := by
  have hsent : Grows (Event.StaysWith o) c (c.log (.request attempt v.httpRequest)) :=
    .log h.endpoint
  cases outcome with
  | buildError err => exact .refl c
  | failed err => exact hsent
  | ok resp => exact hsent.trans (.log trivial)

theorem chatLoop_heir (outcomes : Nat → ChatOutcome) (left attempt : Nat)
    (h : Heir o v) (lastErr : Err) (c : Call) :
    Heir o (chatLoop outcomes left attempt v lastErr c).1 ∧
      Grows (Event.StaysWith o) c (chatLoop outcomes left attempt v lastErr c).2.1 := by
  refine chatLoop_rule outcomes (I := fun v c' => Heir o v ∧ Grows (Event.StaysWith o) c c')
    ?_ ?_ left attempt v lastErr c ⟨h, .refl c⟩
  · rintro v c' _ target ⟨hv, hgrows⟩ _ hget
    exact ⟨hv.trans (Heir.applyFailover v hget), hgrows⟩
  · rintro attempt v c' ⟨hv, hgrows⟩
    exact ⟨hv, hgrows.trans (chatDirect_grows (outcomes attempt) attempt hv c')⟩

/-! ## Stream -/

/-- Neither a request nor telemetry. -/
def Event.Aside : Event → Prop
  | .request .. | .telemetry .. => False
  | _ => True

theorem readStream_aside (body : Body) (o : OpenAI) (c : Call) :
    Grows Event.Aside c (readStream ctx attempt body o c).2.1.call := by
  obtain ⟨l, hl, _⟩ := readStream_chunks ctx attempt body o c
  refine ⟨l.map (.chunk attempt), hl, ?_⟩
  intro e he
  obtain ⟨ch, _, rfl⟩ := List.mem_map.mp he
  trivial

/-- What a walk through a call has to show of the steps that neither send nor read:
`I` holds in front of an attempt, `Q` behind the call.  Both are about the value, the
requests and the telemetry. -/
structure CallFrame (I : Nat → StreamCall → Prop) (Q : StreamCall → Prop) : Prop where
  aside {k s s'} : I k s → s'.o = s.o → Grows Event.Aside s.call s'.call → I k s'
  returned {s s'} : Q s → s'.o = s.o → Grows Event.Aside s.call s'.call → Q s'
  abort {k s} : I k s → Q s
  record {k s} : I k s → ∀ err, Q (s.recordStreamCall err)
  next {k s} : I k s → I (k + 1) s

/-- What a walk through a whole call has to show. -/
structure CallRule (env : Env) (n : Nat) (I : Nat → StreamCall → Prop)
    (Q : StreamCall → Prop) : Prop extends CallFrame I Q where
  failover {k s target} : I k s → s.o.failsOver k = true →
    s.o.failover.getFailoverModel s.o.model s.o.vendor.string = some target →
      I (k + 1) { s with o := s.o.applyFailover target.1 target.2 }
  failed {k s call err} : k < n → s.o.failsOver k = false → I k s →
    sendWithRetry env k s.o s.call = (call, .error err) →
      I (k + 1) { s with o := if err.asAuthError then s.o.rotateKey.1 else s.o, call }
  read {k s call body} : k < n → s.o.failsOver k = false → I k s →
    sendWithRetry env k s.o s.call = (call, .ok body) →
      I k { s with
        o := (readStream env.ctx k body s.o call).1
        call := (readStream env.ctx k body s.o call).2.1.call }

/-- What a round owes the loop. -/
def Round.Keeps (I : Nat → StreamCall → Prop) (Q : StreamCall → Prop) (k : Nat) : Round → Prop
  | .again s => I (k + 1) s
  | .finished s => Q s

namespace CallFrame

variable {env : Env} {k : Nat} {s : StreamCall} {I : Nat → StreamCall → Prop}
  {Q : StreamCall → Prop} (rule : CallFrame I Q)

include rule

theorem next_call (h : I k s) : I k { s with call := s.call.next } :=
  rule.aside h rfl ⟨[], (List.append_nil _).symm, fun _ he => nomatch he⟩

theorem sendLastErr (h : I k s) (attempt : Nat) : I k (s.sendLastErr env.ctx attempt) :=
  rule.aside h rfl (.chunk (fun _ _ => trivial) env.ctx attempt _)

theorem afterRead (h : I k s) (err : Option Err) : (afterRead env k s err).Keeps I Q k := by
  cases err with
  | some err =>
    have hfailed : I k { s with lastErr := some err } := rule.aside h rfl (.refl _)
    simp only [MiniGoAgent.afterRead]
    split
    · exact rule.abort hfailed
    · split
      · exact rule.next hfailed
      · exact rule.abort (rule.sendLastErr hfailed k)
  | none =>
    have hrec := rule.record h none
    simp only [MiniGoAgent.afterRead]
    cases env.afterHook with
    | none => exact rule.returned hrec rfl (.logIf _ trivial)
    | some hookErr =>
      have hhook := Grows.log (c := (s.recordStreamCall none).call)
        (show (Event.onErrorHooks hookErr).Aside from trivial)
      exact rule.returned hrec rfl (hhook.trans (.logIf _ trivial))

theorem sendRound (hfailed : ∀ call err, sendWithRetry env k s.o s.call = (call, .error err) →
      I (k + 1) { s with o := if err.asAuthError then s.o.rotateKey.1 else s.o, call })
    (hread : ∀ call body, sendWithRetry env k s.o s.call = (call, .ok body) →
      I k { s with
        o := (readStream env.ctx k body s.o call).1
        call := (readStream env.ctx k body s.o call).2.1.call }) :
    (sendRound env k s).Keeps I Q k := by
  unfold MiniGoAgent.sendRound
  split
  next call err heq => exact rule.aside (hfailed call err heq) rfl (.refl _)
  next call body heq =>
    refine rule.afterRead ?_ _
    exact rule.aside (hread call body heq) rfl (.refl _)

theorem throttled (h : I 0 { o, call := { tick := 1 } }) (err : Err) (ch : Chunk) :
    Q { o, call := sendChunk env.ctx 0 ch { tick := 1, trace := [.onErrorHooks err] } } := by
  have hhooks : Grows Event.Aside { tick := 1 } { tick := 1, trace := [.onErrorHooks err] } :=
    .log trivial
  exact rule.returned (rule.abort h) rfl
    (hhooks.trans (.chunk (fun _ _ => trivial) env.ctx 0 _))

theorem deferred (h : Q s) : Q s.deferred := by
  unfold StreamCall.deferred
  split
  · exact rule.returned h rfl (.log trivial)
  · exact h

end CallFrame

namespace CallRule

variable {env : Env} {n k : Nat} {s : StreamCall} {I : Nat → StreamCall → Prop}
  {Q : StreamCall → Prop} (rule : CallRule env n I Q)

include rule

theorem streamRound (hk : k < n) (h : I k s) : (streamRound env k s).Keeps I Q k := by
  have hsend : ∀ s, I k s → s.o.failsOver k = false →
      (MiniGoAgent.sendRound env k s).Keeps I Q k := fun s h hover =>
    rule.sendRound (fun _ _ => rule.failed hk hover h) (fun _ _ => rule.read hk hover h)
  fun_cases MiniGoAgent.streamRound env k s
  case case1 => exact rule.abort (rule.sendLastErr h k)
  case case2 hover =>
    fun_cases failoverRound env k s
    case case3 target hget => exact rule.failover h hover hget
    all_goals exact rule.abort (rule.sendLastErr h k)
  case case3 hover _ => exact hsend s h (Bool.not_eq_true _ ▸ hover)
  case case4 => exact rule.abort (rule.aside (rule.next_call h) rfl (.refl _))
  case case5 hover _ _ => exact hsend _ (rule.next_call h) (Bool.not_eq_true _ ▸ hover)

theorem streamLoop {left : Nat} (hn : k + left ≤ n) (h : I k s) : Q (streamLoop env left k s) :=
  streamLoop_rule env n (fun _ _ hlt hs => rule.streamRound hlt hs)
    (fun k s hs => rule.record (rule.sendLastErr hs k) s.lastErr) left k s hn h

end CallRule

theorem CallRule.streamWithFailover {I : Nat → StreamCall → Prop}
    {Q : StreamCall → Prop} (rule : CallRule env o.rounds I Q)
    (hfirst : ∀ tick, I 0 { o, call := { tick } }) : Q (streamWithFailover env o) := by
  unfold MiniGoAgent.streamWithFailover
  split
  · exact rule.throttled (hfirst 1) _ _
  · exact rule.deferred (rule.streamLoop (Nat.le_of_eq (Nat.zero_add o.rounds)) (hfirst _))

/-- If it is a request, then to the endpoint and for the model of the value, in
one of the first `n` attempts that is no failover and lets a request out. -/
def Event.AimsAt (env : Env) (o : OpenAI) (n : Nat) : Event → Prop
  | .request k r => r.url = o.baseURL ∧ r.model = o.model ∧ k < n ∧ o.failsOver k = false ∧
      (env.tries k 0).letsOut env o.vendor = true
  | _ => True

/-- The invariant at the head of the loop, for what was logged since `c₀`: an
heir, and up to the first failover one with the endpoint and the model of the
value. -/
structure Aimed (env : Env) (o : OpenAI) (n : Nat) (c₀ : Call) (attempt : Nat)
    (s : StreamCall) : Prop where
  heir : Heir o s.o
  same : o.failsOver attempt = false →
    s.o.baseURL = o.baseURL ∧ s.o.model = o.model ∧ s.o.vendor = o.vendor
  trace : Grows (Event.AimsAt env o n) c₀ s.call

/-- What holds behind the loop. -/
structure Kept (env : Env) (o : OpenAI) (n : Nat) (c₀ : Call) (s : StreamCall) : Prop where
  heir : Heir o s.o
  trace : Grows (Event.AimsAt env o n) c₀ s.call

theorem failsOver_of_succ {attempt : Nat} (h : o.failsOver (attempt + 1) = false) :
    o.failsOver attempt = false := by
  rw [← Bool.not_eq_true] at h ⊢
  exact fun hover => h (failsOver_mono o (Nat.le_succ attempt) hover)

theorem Event.Aside.aimsAt {env : Env} {n : Nat} : ∀ e : Event, e.Aside → e.AimsAt env o n
  | .request .., h => h.elim
  | .chunk .., _ | .telemetry .., _ | .onErrorHooks _, _ | .breakerSuccess _, _
  | .breakerFailure .., _ => trivial

theorem Aimed.sent {n k : Nat} {c₀ : Call} {s : StreamCall}
    (h : Aimed env o n c₀ k s) (hn : k < n) (hnot : s.o.failsOver k = false) :
    Grows (Event.AimsAt env o n) c₀ (sendWithRetry env k s.o s.call).1 := by
  rw [h.heir.failsOver] at hnot
  obtain ⟨hurl, hmodel, hvendor⟩ := h.same hnot
  refine h.trace.trans ?_
  by_cases hout : (env.tries k 0).letsOut env s.o.vendor = true
  · refine (sendWithRetry_asks env k s.o s.call).mono ?_
    intro e he
    cases e with
    | request k r =>
      obtain ⟨rfl, rfl⟩ := he
      exact ⟨hurl, hmodel, hn, hnot, hvendor ▸ hout⟩
    | _ => trivial
  · obtain ⟨err, herr⟩ := sendWithRetry_held (Bool.not_eq_true _ ▸ hout) s.call
    rw [herr]
    exact .refl s.call

theorem aimed_rule (env : Env) (o : OpenAI) (n : Nat) (c₀ : Call) :
    CallRule env n (Aimed env o n c₀) (Kept env o n c₀) where
  aside h ho hc := ⟨ho ▸ h.heir, ho ▸ h.same, h.trace.trans (hc.mono Event.Aside.aimsAt)⟩
  returned h ho hc := ⟨ho ▸ h.heir, h.trace.trans (hc.mono Event.Aside.aimsAt)⟩
  abort h := ⟨h.heir, h.trace⟩
  record h err := by
    cases err with
    | some err => exact ⟨h.heir.usage none, h.trace⟩
    | none => exact ⟨h.heir.usage none, h.trace.trans (.log trivial)⟩
  next h := ⟨h.heir, fun hnot => h.same (failsOver_of_succ hnot), h.trace⟩
  failover h hover hget := by
    refine ⟨h.heir.trans (Heir.applyFailover _ hget), fun hnot => ?_, h.trace⟩
    rw [h.heir.failsOver, failsOver_of_succ hnot] at hover
    cases hover
  failed {k s call err} hn hnot h hsend := by
    have hsent := h.sent hn hnot
    rw [hsend] at hsent
    have hnext := fun hsucc => h.same (failsOver_of_succ hsucc)
    cases err.asAuthError with
    | false => exact ⟨h.heir, hnext, hsent⟩
    | true =>
      obtain ⟨hf, hm, hb, hmod, hv⟩ := rotateKey_fields s.o
      refine ⟨⟨hf.trans h.heir.failover, hm.trans h.heir.maxReconnect, hb ▸ h.heir.endpoint⟩,
        fun hsucc => ?_, hsent⟩
      obtain ⟨hb', hmod', hv'⟩ := hnext hsucc
      exact ⟨hb.trans hb', hmod.trans hmod', hv.trans hv'⟩
  read {k s call body} hn hnot h hsend := by
    have hsent := h.sent hn hnot
    rw [hsend] at hsent
    have hread := readStream_aside env.ctx k body s.o call
    rw [readStream_note]
    exact ⟨h.heir.usage _, h.same, hsent.trans (hread.mono Event.Aside.aimsAt)⟩

theorem streamWithFailover_aims (env : Env) (o : OpenAI) :
    Kept env o o.rounds {} (streamWithFailover env o) :=
  (aimed_rule env o o.rounds {}).streamWithFailover
    (fun _ => ⟨Heir.refl o, fun _ => ⟨rfl, rfl, rfl⟩, [], rfl, fun _ he => nomatch he⟩)

theorem request_aims {k : Nat} {r : HttpRequest}
    (h : .request k r ∈ (streamWithFailover env o).call.trace) :
    r.url = o.baseURL ∧ r.model = o.model ∧ k < o.rounds ∧ o.failsOver k = false ∧
      (env.tries k 0).letsOut env o.vendor = true := by
  obtain ⟨l, hl, hall⟩ := (streamWithFailover_aims env o).trace
  rw [hl] at h
  exact hall _ h

/-! ## The guard over all calls -/

/-- The values calls can make of `o`, with any outcomes. -/
inductive Reachable (o : OpenAI) : OpenAI → Prop
  | start : Reachable o o
  | chat {v : OpenAI} (outcomes : Nat → ChatOutcome) :
      Reachable o v → Reachable o (chatWithFailover outcomes v).1
  | stream {v : OpenAI} (env : Env) : Reachable o v → Reachable o (streamWithFailover env v).o

/-- Some call on the value sends a request to the URL. -/
def OpenAI.SendsTo (v : OpenAI) (url : Str) : Prop :=
  (∃ outcomes, ∃ p ∈ (chatWithFailover outcomes v).2.1.requests, p.2.url = url) ∨
    ∃ env, ∃ p ∈ (streamWithFailover env v).call.requests, p.2.url = url

/-- In every state that calls can reach the endpoint passes the validation, and
so do the URLs of all requests. -/
def Guarded (allowPrivate : Str) (o : OpenAI) : Prop :=
  ∀ v, Reachable o v →
    validateBaseURL allowPrivate v.baseURL = none ∧
      ∀ url, v.SendsTo url → validateBaseURL allowPrivate url = none

theorem Reachable.heir (h : Reachable o v) : Heir o v := by
  induction h with
  | start => exact Heir.refl o
  | chat outcomes _ ih => exact ih.trans (chatLoop_heir outcomes _ 0 (Heir.refl _) _ _).1
  | stream env _ ih => exact ih.trans (streamWithFailover_aims env _).heir

theorem mem_requests {c : Call} {p : Nat × HttpRequest} (h : p ∈ c.requests) :
    .request p.1 p.2 ∈ c.trace := by
  obtain ⟨e, he, hsome⟩ := List.mem_filterMap.mp h
  cases e with
  | request k r =>
    rw [Option.some.injEq] at hsome
    subst hsome
    exact he
  | _ => cases hsome

theorem OpenAI.SendsTo.endpoint {url : Str} (h : v.SendsTo url) : v.Endpoint url := by
  rcases h with ⟨outcomes, p, hp, rfl⟩ | ⟨env, p, hp, rfl⟩
  · have hgrows :=
      (chatLoop_heir outcomes v.failover.retries.toNat 0 (Heir.refl v) (.other []) {}).2
    obtain ⟨l, hl, hall⟩ := hgrows
    refine hall (.request p.1 p.2) ?_
    have hmem := mem_requests hp
    rwa [chatWithFailover, hl] at hmem
  · exact Or.inl (request_aims (mem_requests hp)).1

variable {allowPrivate : Str}

theorem guarded_of_endpoints (h : ∀ url, o.Endpoint url → validateBaseURL allowPrivate url = none) :
    Guarded allowPrivate o := by
  intro v hv
  refine ⟨h _ hv.heir.endpoint, ?_⟩
  intro url hurl
  exact h url (hv.heir.endpoint_of hurl.endpoint)

theorem chatWithFailover_refused (o : OpenAI) {model baseURL : Str}
    (h : o.failover = fallbackTo model baseURL) :
    (chatWithFailover (fun _ => .failed (.other [])) o).1 =
      ((o.applyFailover model baseURL).applyFailover model baseURL) := by
  have hretries : o.failover.retries.toNat = 2 := by rw [h]; rfl
  rw [chatWithFailover, hretries]
  simp [chatLoop, chatDirect, h, fallbackTo, FailoverConfig.shouldFailover,
    FailoverConfig.getFailoverModel, OpenAI.applyFailover]

/-- The base URL a value is built from: as configured, without slashes at its
end, it has to be there and to pass. -/
def Usable (allowPrivate baseURL : Str) : Prop :=
  trimRight baseURL (lit "/") ≠ [] ∧
    validateBaseURL allowPrivate (trimRight baseURL (lit "/")) = none

theorem usable_iff (allowPrivate baseURL : Str) :
    validateBaseURL allowPrivate (trimRight baseURL (lit "/") ++ chatCompletions) = none ↔
      Usable allowPrivate baseURL :=
  validateBaseURL_append (getLast?_trimRight_slash baseURL)

theorem newOpenAI_ok_iff (allowPrivate : Str) (cfg : Config) :
    (∃ o, newOpenAI allowPrivate cfg = .ok o) ↔
      validateBaseURL allowPrivate (trimRight cfg.baseURL (lit "/")) = none := by
  unfold newOpenAI
  dsimp only
  split
  next reason hreason =>
    rw [hreason]
    simp
  next hvalid => exact iff_of_true ⟨_, rfl⟩ hvalid

theorem newOpenAI_fields {cfg : Config} {o : OpenAI} (h : newOpenAI allowPrivate cfg = .ok o) :
    o.baseURL = trimRight cfg.baseURL (lit "/") ++ chatCompletions ∧ o.model = cfg.model ∧
      o.failover = if cfg.fallbackModel ≠ [] ∧ cfg.fallbackBaseURL ≠ [] then
        fallbackTo cfg.fallbackModel cfg.fallbackBaseURL else {} := by
  unfold newOpenAI at h
  dsimp only at h
  split at h
  · cases h
  · rw [Except.ok.injEq] at h
    rw [← h]
    exact ⟨rfl, rfl, rfl⟩

/-- A constructed value stays guarded if and only if its base URL is not empty
and its fallback, if it has one, is a base URL that would itself be accepted. -/
theorem newOpenAI_guarded_iff {cfg : Config} {o : OpenAI}
    (hnew : newOpenAI allowPrivate cfg = .ok o) :
    Guarded allowPrivate o ↔
      trimRight cfg.baseURL (lit "/") ≠ [] ∧
        (cfg.fallbackModel ≠ [] → cfg.fallbackBaseURL ≠ [] →
          Usable allowPrivate cfg.fallbackBaseURL) := by
  have hvalid := (newOpenAI_ok_iff allowPrivate cfg).mp ⟨o, hnew⟩
  obtain ⟨hbase, _, hfailover⟩ := newOpenAI_fields hnew
  constructor
  · intro hguarded
    have hstart := (hguarded o .start).1
    rw [hbase, usable_iff] at hstart
    refine ⟨hstart.1, ?_⟩
    intro hmodel hurl
    rw [if_pos ⟨hmodel, hurl⟩] at hfailover
    have hchat := (hguarded _ (.chat (fun _ => .failed (.other [])) .start)).1
    rw [chatWithFailover_refused o hfailover] at hchat
    exact (usable_iff allowPrivate cfg.fallbackBaseURL).mp hchat
  · rintro ⟨hne, hfallback⟩
    refine guarded_of_endpoints ?_
    rintro url (rfl | ⟨model, vendor, target, hget, rfl⟩)
    · rw [hbase, usable_iff]
      exact ⟨hne, hvalid⟩
    · rw [usable_iff]
      by_cases hconf : cfg.fallbackModel ≠ [] ∧ cfg.fallbackBaseURL ≠ []
      · rw [hfailover, if_pos hconf] at hget
        change some (cfg.fallbackModel, cfg.fallbackBaseURL) = some target at hget
        rw [Option.some.injEq] at hget
        rw [← hget]
        exact hfallback hconf.1 hconf.2
      · rw [hfailover, if_neg hconf] at hget
        cases hget

/-- A public endpoint with a fallback. -/
def configWithFallback (fallbackBaseURL : String) : Config where
  baseURL := lit "https://api.openai.com/v1"
  model := lit "gpt-4o"
  fallbackModel := lit "deepseek-chat"
  fallbackBaseURL := lit fallbackBaseURL

theorem newOpenAI_configWithFallback (fallbackBaseURL : String) :
    ∃ o, newOpenAI [] (configWithFallback fallbackBaseURL) = .ok o := by
  rw [newOpenAI_ok_iff]
  show validateBaseURL [] (trimRight (lit "https://api.openai.com/v1") (lit "/")) = none
  decide +kernel

theorem newOpenAI_guarded_iff_public :
    ∃ o, newOpenAI [] (configWithFallback "https://api.deepseek.com") = .ok o ∧
      (Guarded [] o ↔
        trimRight (configWithFallback "https://api.deepseek.com").baseURL (lit "/") ≠ [] ∧
          ((configWithFallback "https://api.deepseek.com").fallbackModel ≠ [] →
            (configWithFallback "https://api.deepseek.com").fallbackBaseURL ≠ [] →
              Usable [] (configWithFallback "https://api.deepseek.com").fallbackBaseURL)) := by
  obtain ⟨o, hnew⟩ := newOpenAI_configWithFallback "https://api.deepseek.com"
  exact ⟨o, hnew, newOpenAI_guarded_iff hnew⟩

/-- A fallback on the local host is accepted, and one refused chat makes it the
endpoint. -/
theorem fallback_reaches_private_host :
    ∃ o v, newOpenAI [] (configWithFallback "http://localhost:11434/v1") = .ok o ∧
      Reachable o v ∧
      v.baseURL = lit "http://localhost:11434/v1/chat/completions" ∧
      validateBaseURL [] v.baseURL = some .privateURL ∧ ¬ Guarded [] o := by
  obtain ⟨o, hnew⟩ := newOpenAI_configWithFallback "http://localhost:11434/v1"
  obtain ⟨_, _, hfailover⟩ := newOpenAI_fields hnew
  have hreach : Reachable o (chatWithFailover (fun _ => .failed (.other [])) o).1 :=
    .chat _ .start
  have hurl : (chatWithFailover (fun _ => .failed (.other [])) o).1.baseURL =
      lit "http://localhost:11434/v1/chat/completions" := by
    rw [chatWithFailover_refused o hfailover]
    show trimRight (lit "http://localhost:11434/v1") (lit "/") ++ chatCompletions = _
    decide +kernel
  have hprivate : validateBaseURL [] (lit "http://localhost:11434/v1/chat/completions") =
      some .privateURL := by decide +kernel
  refine ⟨o, _, hnew, hreach, hurl, by rw [hurl]; exact hprivate, ?_⟩
  intro hguarded
  have hpass := (hguarded _ hreach).1
  rw [hurl, hprivate] at hpass
  cases hpass

end MiniGoAgent
