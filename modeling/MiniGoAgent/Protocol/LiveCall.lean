/-
# `Protocol.LiveCall` — a call in a live context comes down to one body

With a context that is never done and a consumer that keeps up, what a call
does is decided by the outcomes of its attempts.  `settling` finds the attempt
that decides: the first that is answered and not retried.  `streamLoop_live`
says that the call is then the reading of that body, and a single error chunk
when there is no such attempt.
-/
import MiniGoAgent.Protocol.Said

open Go

namespace MiniGoAgent

variable {s : StreamCall}

/-! ## The outcome of an attempt -/

/-- What `SendWithRetry` comes to in an attempt. -/
def outcome (env : Env) (vendor : Vendor) (attempt : Nat) : Except Err Body :=
  (sendLoop env attempt vendor ⟨[], [], []⟩ maxRetries 0 {}).2

theorem sendOnce_result (env : Env) (tag : Nat) (vendor : Vendor) (req req' : HttpRequest)
    (t : HttpTry) (c c' : Call) :
    (sendOnce env tag vendor req t c).2 = (sendOnce env tag vendor req' t c').2 := by
  unfold sendOnce
  cases t.outcome <;> dsimp only <;> repeat' first | rfl | split

theorem sendLoop_result {env : Env} (hlive : env.ctx.Live) (tag : Nat) (vendor : Vendor)
    (req req' : HttpRequest) (left pass : Nat) (c c' : Call) :
    (sendLoop env tag vendor req left pass c).2 =
      (sendLoop env tag vendor req' left pass c').2 := by
  have hgo : ∀ pass tick, ¬ (0 < pass ∧ env.ctx.cancelled tick = true) := by
    rintro pass tick ⟨_, h⟩
    rw [(hlive tick).1] at h
    cases h
  have hpass : ∀ {pass : Nat} {c c₁ : Call} (c' : Call) {p : Pass},
      sendOnce env tag vendor req (env.tries tag pass) (if 0 < pass then c.next else c) = (c₁, p) →
        ∃ c₂, sendOnce env tag vendor req' (env.tries tag pass)
          (if 0 < pass then c'.next else c') = (c₂, p) := by
    intro pass c c₁ c' p heq
    have hsame := sendOnce_result env tag vendor req req' (env.tries tag pass)
      (if 0 < pass then c.next else c) (if 0 < pass then c'.next else c')
    rw [heq] at hsame
    exact ⟨_, Prod.ext rfl hsame.symm⟩
  fun_induction sendLoop env tag vendor req left pass c generalizing c' with
  | case1 _ pass c hcancelled => exact absurd hcancelled (hgo pass c.tick)
  | case2 _ _ _ _ _ _ heq | case3 _ _ _ _ _ heq =>
    obtain ⟨c₂, heq'⟩ := hpass c' heq
    rw [sendLoop, if_neg (hgo _ _), heq']
  | case4 pass _ _ _ _ heq left ih =>
    obtain ⟨c₂, heq'⟩ := hpass c' heq
    have hother : sendLoop env tag vendor req' (left + 1) pass c' =
        sendLoop env tag vendor req' left (pass + 1) c₂ := by
      rw [sendLoop, if_neg (hgo _ _), heq']
    exact (ih c₂).trans (congrArg Prod.snd hother.symm)

theorem sendWithRetry_live {env : Env} (hlive : env.ctx.Live) (attempt : Nat) (o : OpenAI)
    (c : Call) : (sendWithRetry env attempt o c).2 = outcome env o.vendor attempt :=
  sendLoop_result hlive attempt o.vendor o.httpRequest ⟨[], [], []⟩ maxRetries 0 c {}

/-! ## Reading a body -/

namespace Body

def chunks (o : OpenAI) (body : Body) : List Chunk := (scan o body.lines {} false).chunks

/-- The error `readStream` returns. -/
def error (emitted : Bool) (body : Body) : Option Err :=
  match ending body.lines with
  | .failed err => some (streamErr emitted err)
  | .stop => none
  | _ =>
    match body.err with
    | some err => some (streamErr emitted (.wrap (lit "scanner error: ") err))
    | none => if body.stalled then some (streamErr emitted stallErr) else none

/-- The lines are used up or end with `[DONE]`, and the watchdog has fired. -/
def stalls (body : Body) : Bool :=
  (ending body.lines = .eof || ending body.lines = .done) && body.err.isNone && body.stalled

/-- The chunk `readStream` sends itself. -/
def stallChunks (body : Body) : List Chunk :=
  if body.stalls then [errorChunk (some stallErr)] else []

/-- A body that puts nothing on the channel and breaks off with a reset
connection is tried again. -/
def retried (vendor : Vendor) (body : Body) : Bool :=
  ending body.lines = .eof && silent vendor (processed body.lines) {} &&
    match body.err with
    | some err => isConnReset err
    | none => false

end Body

theorem Call.deliverAll_snoc (c : Call) (attempt : Nat) (l : List Chunk) (ch : Chunk) :
    c.deliverAll attempt (l ++ [ch]) = (c.deliverAll attempt l).deliver attempt ch := by
  simp [deliverAll, deliver, log, next, Nat.add_assoc]

theorem readStream_live {ctx : Ctx} (hlive : ctx.Live) (attempt : Nat) (body : Body)
    (o : OpenAI) (c : Call) :
    readStream ctx attempt body o c =
      (o.note (scan o body.lines {} false).usages,
        ⟨c.deliverAll attempt (body.chunks o ++ body.stallChunks), !(body.chunks o).isEmpty⟩,
        body.error (!(body.chunks o).isEmpty)) := by
  have hexit := scan_exit o body.lines {} false
  rw [readStream, readLines_live hlive]
  dsimp only
  rw [hexit]
  cases hend : ending body.lines with
  | stop | failed => simp [Body.error, Body.stallChunks, Body.stalls, Body.chunks, hend]
  | eof | done =>
    cases herr : body.err with
    | some err => simp [Body.error, Body.stallChunks, Body.stalls, Body.chunks, hend, herr]
    | none =>
      cases hst : body.stalled <;>
        simp [Body.error, Body.stallChunks, Body.stalls, Body.chunks, hend, herr, hst,
          sendChunk_live hlive, Call.deliverAll_snoc]

/-! ## Bodies that are tried again -/

theorem is_wrap (text : Str) (err target : Err) (h : ∀ t e, target ≠ .wrap t e) :
    (Err.wrap text err).is target = err.is target := by
  have hne : (target == Err.wrap text err) = false := by
    rw [beq_eq_false_iff_ne]
    exact h text err
  show (Err.wrap text err :: err.chain).contains target = err.chain.contains target
  rw [List.contains_cons, hne, Bool.false_or]

theorem isConnReset_wrap (text : Str) (err : Err) :
    isConnReset (.wrap text err) = isConnReset err := by
  have hnet : (Err.wrap text err).asNetError = err.asNetError := rfl
  unfold isConnReset
  rw [hnet, is_wrap _ _ .canceled (by simp), is_wrap _ _ .deadlineExceeded (by simp),
    is_wrap _ _ .unexpectedEOF (by simp), is_wrap _ _ .eof (by simp),
    is_wrap _ _ .netClosed (by simp), is_wrap _ _ .connReset (by simp),
    is_wrap _ _ .connAborted (by simp)]

theorem nameless_nil : Nameless [] := List.forall_mem_nil _

theorem chunks_eq_nil_iff (o : OpenAI) (body : Body) :
    body.chunks o = [] ↔
      ending body.lines = .eof ∧ silent o.vendor (processed body.lines) {} = true := by
  have hreads := reads body.lines
  rw [Body.chunks, scan_chunks, List.append_eq_nil_iff]
  have hsilent : ending body.lines = .eof →
      (said o (processed body.lines) {} false = [] ↔
        silent o.vendor (processed body.lines) {} = true) := by
    intro heof
    exact said_eq_nil o hreads (by rw [heof]; simp) (by rw [heof]; simp) nameless_nil {} false
  constructor
  · rintro ⟨hsaid, hdone⟩
    have heof : ending body.lines = .eof := by
      obtain ⟨before, _, hends⟩ := said_shape o hreads {} false
      rw [hsaid] at hends
      cases hend : ending body.lines with
      | eof => rfl
      | done =>
        rw [hend] at hdone
        cases hdone
      | stop =>
        rw [hend] at hends
        exact absurd hends (by simp [EndsAs])
      | failed err =>
        rw [hend] at hends
        obtain ⟨e, he⟩ := hends
        exact absurd he (by simp)
    exact ⟨heof, (hsilent heof).mp hsaid⟩
  · rintro ⟨heof, hs⟩
    exact ⟨(hsilent heof).mpr hs, by rw [heof]; rfl⟩

theorem retried_iff (o : OpenAI) (body : Body) :
    body.retried o.vendor = true ↔
      body.chunks o = [] ∧ ∃ err, body.error false = some err ∧ isConnReset err = true := by
  rw [chunks_eq_nil_iff, Body.retried, Bool.and_eq_true, Bool.and_eq_true, decide_eq_true_eq]
  refine and_congr_right ?_
  rintro ⟨heof, _⟩
  rw [Body.error, heof]
  cases body.err with
  | some err =>
    show isConnReset err = true ↔ ∃ e, some (Err.wrap (lit "scanner error: ") err) = some e ∧ _
    constructor
    · intro h
      exact ⟨_, rfl, by rw [isConnReset_wrap]; exact h⟩
    · rintro ⟨e, he, h⟩
      rw [Option.some.injEq] at he
      rwa [← he, isConnReset_wrap] at h
  | none =>
    constructor
    · intro h
      cases h
    · rintro ⟨e, he, h⟩
      dsimp only at he
      split at he
      · rw [Option.some.injEq] at he
        rw [← he] at h
        exact absurd h (by decide)
      · cases he

/-! ## The attempt that decides -/

/-- The first attempt from `attempt` on that is answered and not retried. -/
def fate (env : Env) (o : OpenAI) : Nat → Nat → Option (Nat × Body)
  | 0, _ => none
  | left + 1, attempt =>
    if o.failsOver attempt then none
    else
      match outcome env o.vendor attempt with
      | .error _ => fate env o left (attempt + 1)
      | .ok body =>
        if body.retried o.vendor then fate env o left (attempt + 1)
        else some (attempt, body)

/-- The attempt that decides a call, with its body. -/
def settling (env : Env) (o : OpenAI) : Option (Nat × Body) := fate env o o.rounds 0

namespace Body

/-- All that a call puts on the channel when the body decides it. -/
def delivered (o : OpenAI) (body : Body) : List Chunk :=
  body.chunks o ++ body.stallChunks ++
    match body.error false with
    | some err => if body.chunks o = [] then [errorChunk (some err)] else []
    | none => []

def record (o : OpenAI) (body : Body) : List Event :=
  if (body.error false).isNone then
    [.telemetry o.model o.vendor (o.note (scan o body.lines {} false).usages).lastUsage]
  else []

end Body

/-- Hooks and reports: what may follow the telemetry. -/
def Event.isClosing : Event → Bool
  | .onErrorHooks _ | .breakerSuccess _ => true
  | _ => false

/-- The trace of a call that the outcome `r` decides. -/
def CallTrace (o : OpenAI) : Option (Nat × Body) → List Event → Prop
  | none, t => ∃ (before after : List Event) (tag : Nat) (err : Option Err),
      t = before ++ .chunk tag (errorChunk err) :: after ∧ Sending before ∧ Quiet after
  | some (attempt, body), t => ∃ before after : List Event,
      t = before ++ ((body.delivered o).map (.chunk attempt) ++ body.record o) ++ after ∧
        Sending before ∧ ∀ e ∈ after, e.isClosing = true

theorem CallTrace.log {o : OpenAI} {r : Option (Nat × Body)} {c : Call} {e : Event}
    (h : CallTrace o r c.trace) (he : e.isClosing = true) : CallTrace o r (c.log e).trace := by
  cases r with
  | none =>
    have hquiet : e.isChunk = false := by
      cases e with
      | chunk _ _ => cases he
      | _ => rfl
    obtain ⟨before, after, tag, err, htrace, hbefore, hafter⟩ := h
    exact ⟨before, after ++ [e], tag, err, by rw [Call.log, htrace, List.append_assoc]; rfl,
      hbefore, hafter.append (List.forall_mem_singleton.mpr hquiet)⟩
  | some decided =>
    obtain ⟨before, after, htrace, hbefore, hafter⟩ := h
    exact ⟨before, after ++ [e], by rw [Call.log, htrace, List.append_assoc], hbefore,
      List.forall_mem_append.mpr ⟨hafter, List.forall_mem_singleton.mpr he⟩⟩

/-! ## The loop -/

/-- Between two attempts: nothing delivered, and of the `OpenAI` value only the
key may have moved on. -/
structure Waiting (o : OpenAI) (s : StreamCall) : Prop where
  unsent : s.emitted = false
  sending : Sending s.call.trace
  value : ∃ i, s.o = { o with keyIndex := i }

theorem rotateKey_value (o : OpenAI) (i : Nat) :
    ∃ j, (OpenAI.rotateKey { o with keyIndex := i }).1 = { o with keyIndex := j } := by
  unfold OpenAI.rotateKey
  split
  · exact ⟨i, rfl⟩
  · exact ⟨_, rfl⟩

theorem Waiting.sendFailed {o : OpenAI} (h : Waiting o s) (err : Err) :
    Waiting o (sendFailed s err) := by
  obtain ⟨i, hi⟩ := h.value
  refine ⟨h.unsent, h.sending, ?_⟩
  show ∃ j, (if err.asAuthError then s.o.rotateKey.1 else s.o) = _
  rw [hi]
  split
  · exact rotateKey_value o i
  · exact ⟨i, rfl⟩

theorem Waiting.failsOver {o : OpenAI} (h : Waiting o s) {k : Nat} (hover : o.failsOver k = true) :
    s.o.failsOver k = true := by
  obtain ⟨i, hi⟩ := h.value
  rw [hi]
  exact hover

theorem Body.error_isNone (emitted : Bool) (body : Body) :
    (body.error emitted).isNone = (body.error false).isNone := by
  unfold Body.error
  cases ending body.lines with
  | failed | stop => rfl
  | eof | done =>
    cases body.err with
    | some err => rfl
    | none => dsimp only; split <;> rfl

theorem usages_of_silent (o : OpenAI) (body : Body) (h : body.chunks o = []) :
    (scan o body.lines {} false).usages = [] := by
  obtain ⟨_, hs⟩ := (chunks_eq_nil_iff o body).mp h
  rw [scan_usages, List.filterMap_eq_nil_iff]
  have hall : ∀ (records : List StreamRecord) (think : ThinkSplitter),
      silent o.vendor records think = true → ∀ sr ∈ records, sr.recordedUsage = none := by
    intro records
    induction records with
    | nil => intro _ _ sr hsr; cases hsr
    | cons sr rest ih =>
      intro think hsilent t ht
      rw [silent, Bool.and_eq_true] at hsilent
      rcases List.mem_cons.mp ht with rfl | ht
      · have hu : t.usage = none := by
          have := hsilent.1
          simp only [StreamRecord.silent, Bool.and_eq_true] at this
          exact Option.isNone_iff_eq_none.mp this.1.1.1.1
        rw [StreamRecord.recordedUsage, hu, ite_self]
      · exact ih _ hsilent.2 t ht
  exact hall _ _ hs

section Loop

variable {env : Env} (hlive : env.ctx.Live) (o : OpenAI)

include hlive

theorem afterRead_decided (attempt : Nat) (body : Body) (hnot : body.retried o.vendor = false)
    (i : Nat) (s : StreamCall) (before : List Event) (hbefore : Sending before)
    (ho : s.o = OpenAI.note { o with keyIndex := i } (scan o body.lines {} false).usages)
    (hem : s.emitted = !(body.chunks o).isEmpty) (htrace : s.call.trace =
      before ++ (body.chunks o ++ body.stallChunks).map (.chunk attempt)) :
    ∃ s', afterRead env attempt s (body.error (!(body.chunks o).isEmpty)) = .finished s' ∧
      CallTrace o (some (attempt, body)) s'.call.trace := by
  cases herr : body.error (!(body.chunks o).isEmpty) with
  | none =>
    have hnone : body.error false = none := by
      rw [← Option.isNone_iff_eq_none, ← Body.error_isNone, herr]
      rfl
    have hrecord : body.record o = [.telemetry s.o.model s.o.vendor s.o.lastUsage] := by
      rw [Body.record, hnone, ho]
      rfl
    have hdel : body.delivered o = body.chunks o ++ body.stallChunks := by
      rw [Body.delivered, hnone]
      exact List.append_nil _
    have hrecorded : CallTrace o (some (attempt, body)) (s.recordStreamCall none).call.trace := by
      refine ⟨before, [], ?_, hbefore, by simp⟩
      rw [hrecord, hdel]
      simp [StreamCall.recordStreamCall, Call.log, htrace]
    have hreported : ∀ {c : Call}, CallTrace o (some (attempt, body)) c.trace →
        CallTrace o (some (attempt, body))
          (c.logIf (env.registered s.o.vendor) (.breakerSuccess s.o.vendor)).trace := by
      intro c hc
      cases env.registered s.o.vendor with
      | true => exact hc.log rfl
      | false => exact hc
    refine ⟨_, rfl, ?_⟩
    cases env.afterHook with
    | none => exact hreported hrecorded
    | some hookErr => exact hreported (hrecorded.log rfl)
  | some err =>
    have hsome : (body.error false).isNone = false := by
      rw [← Body.error_isNone, herr]
      rfl
    have hrecord : body.record o = [] := by
      rw [Body.record, hsome]
      rfl
    rw [afterRead]
    dsimp only
    by_cases hnil : body.chunks o = []
    · have hunsent : s.emitted = false := by rw [hem, hnil]; rfl
      have hfalse : body.error false = some err := by
        rw [hnil] at herr
        exact herr
      have hreset : isConnReset err = false := by
        rw [← Bool.not_eq_true]
        intro h
        have hret := (retried_iff o body).mpr ⟨hnil, err, hfalse, h⟩
        rw [hret] at hnot
        cases hnot
      simp only [hunsent, hreset, Bool.false_eq_true, if_false]
      refine ⟨_, rfl, before, [], ?_, hbefore, by simp⟩
      rw [hrecord, Body.delivered, hfalse]
      show (sendChunk env.ctx attempt (errorChunk (some err)) s.call).trace = _
      rw [sendChunk_live hlive]
      simp [Call.deliver, Call.log, Call.next, htrace, hnil]
    · have hsent : s.emitted = true := by
        rw [hem]
        cases hl : body.chunks o with
        | nil => exact absurd hl hnil
        | cons c l => rfl
      simp only [hsent, if_true]
      refine ⟨_, rfl, before, [], ?_, hbefore, by simp⟩
      obtain ⟨e, he⟩ := Option.isSome_iff_exists.mp
        (by rw [← Option.not_isNone, hsome]; rfl : (body.error false).isSome = true)
      rw [hrecord, Body.delivered, he]
      simp [htrace, hnil]

theorem sendRound_live (attempt : Nat) (hw : Waiting o s) :
    match outcome env o.vendor attempt with
    | .error _ => ∃ s', sendRound env attempt s = .again s' ∧ Waiting o s'
    | .ok body =>
      if body.retried o.vendor then ∃ s', sendRound env attempt s = .again s' ∧ Waiting o s'
      else ∃ s', sendRound env attempt s = .finished s' ∧
        CallTrace o (some (attempt, body)) s'.call.trace := by
  obtain ⟨i, hi⟩ := hw.value
  have hvendor : s.o.vendor = o.vendor := by rw [hi]
  have hresult := sendWithRetry_live hlive attempt s.o s.call
  obtain ⟨_, l, htrace, hl⟩ :=
    sendLoop_sending env attempt s.o.vendor s.o.httpRequest maxRetries 0 s.call
  change (sendWithRetry env attempt s.o s.call).1.trace = _ at htrace
  rw [hvendor] at hresult
  rw [← hresult]
  unfold sendRound
  rcases hsend : sendWithRetry env attempt s.o s.call with ⟨call, r⟩
  rw [hsend] at htrace
  have hsending : Sending call.trace := by
    rw [show call.trace = s.call.trace ++ l from htrace]
    exact hw.sending.append hl
  cases r with
  | error err =>
    exact ⟨_, rfl, Waiting.sendFailed (s := { s with call }) ⟨hw.unsent, hsending, i, hi⟩ err⟩
  | ok body =>
    have hscan : scan s.o body.lines {} false = scan o body.lines {} false := by
      rw [hi]
      exact scan_update o o.lastUsage i body.lines {} false
    have hchunks : body.chunks s.o = body.chunks o := by rw [Body.chunks, hscan]; rfl
    dsimp only
    rw [readStream_live hlive, hscan, hchunks]
    dsimp only
    by_cases hret : body.retried o.vendor = true
    · rw [if_pos hret]
      obtain ⟨hnil, err, herr, hreset⟩ := (retried_iff o body).mp hret
      obtain ⟨heof, _⟩ := (chunks_eq_nil_iff o body).mp hnil
      have hstall : body.stallChunks = [] := by
        rw [Body.stallChunks, if_neg]
        intro hst
        rw [Body.stalls, Bool.and_eq_true, Bool.and_eq_true] at hst
        rw [Body.error, heof, Option.isNone_iff_eq_none.mp hst.1.2, hst.2] at herr
        change some stallErr = some err at herr
        rw [Option.some.injEq] at herr
        rw [← herr] at hreset
        exact absurd hreset (by decide)
      have husages := usages_of_silent o body hnil
      rw [hnil, hstall, husages, List.append_nil, Call.deliverAll_nil]
      refine ⟨{ s with call, emitted := false, lastErr := some err }, ?_, rfl, hsending, i, hi⟩
      show afterRead env attempt _ (body.error false) = _
      rw [herr, afterRead]
      simp only [List.isEmpty_nil, Bool.not_true, Bool.false_eq_true, if_false, hreset, if_true]
      rfl
    · rw [if_neg hret]
      refine afterRead_decided hlive o attempt body (Bool.not_eq_true _ ▸ hret) i _ call.trace
        hsending ?_ rfl rfl
      show s.o.note _ = _
      rw [hi]

theorem callTrace_sendLastErr (attempt : Nat) (h : Sending s.call.trace) :
    CallTrace o none (s.sendLastErr env.ctx attempt).call.trace := by
  refine ⟨s.call.trace, [], attempt, s.lastErr, ?_, h, Quiet.nil⟩
  show (sendChunk env.ctx attempt (errorChunk s.lastErr) s.call).trace = _
  rw [sendChunk_live hlive]
  rfl

theorem streamLoop_zero (attempt : Nat) (h : Sending s.call.trace) :
    CallTrace o none (streamLoop env 0 attempt s).call.trace := by
  obtain ⟨before, after, tag, err, htrace, hbefore, hafter⟩ :=
    callTrace_sendLastErr hlive o attempt h
  rw [streamLoop]
  unfold StreamCall.recordStreamCall
  cases s.lastErr with
  | some e => exact ⟨before, after, tag, err, htrace, hbefore, hafter⟩
  | none =>
    refine ⟨before, after ++ [.telemetry s.o.model s.o.vendor s.o.lastUsage], tag, err, ?_,
      hbefore, hafter.append ?_⟩
    · show (s.sendLastErr env.ctx attempt).call.trace ++ [_] = _
      rw [htrace, List.append_assoc]
      rfl
    · exact List.forall_mem_singleton.mpr rfl

theorem streamLoop_failover (left attempt : Nat) (hunsent : s.emitted = false)
    (h : Sending s.call.trace) (hover : ∀ k, attempt ≤ k → s.o.failsOver k = true) :
    CallTrace o none (streamLoop env left attempt s).call.trace := by
  induction left generalizing attempt s with
  | zero => exact streamLoop_zero hlive o attempt h
  | succ left ih =>
    have hemit : ¬ (0 < attempt ∧ s.emitted = true) := by
      rintro ⟨_, hem⟩
      rw [hunsent] at hem
      cases hem
    have hclosed := callTrace_sendLastErr hlive o attempt h
    rw [streamLoop, streamRound, if_neg hemit, if_pos (hover attempt (Nat.le_refl _))]
    fun_cases failoverRound env attempt s
    case case3 => exact ih (attempt + 1) hunsent h (fun k hk => hover k (Nat.le_of_succ_le hk))
    all_goals exact hclosed

omit o in
theorem sends_live {o : OpenAI} {attempt : Nat} (hw : Waiting o s)
    (hf : o.failsOver attempt = false) :
    ∃ c, Waiting o { s with call := c } ∧ sends env attempt s = some { s with call := c } := by
  obtain ⟨i, hi⟩ := hw.value
  have hemit : ¬ (0 < attempt ∧ s.emitted = true) := by
    rintro ⟨_, hem⟩
    rw [hw.unsent] at hem
    cases hem
  rw [sends, if_neg hemit, show s.o.failsOver attempt = false by rw [hi]; exact hf,
    if_neg (by simp)]
  split
  · exact ⟨s.call, hw, rfl⟩
  · rw [(hlive s.call.tick).1, if_neg (by simp)]
    exact ⟨s.call.next, ⟨hw.unsent, hw.sending, i, hi⟩, rfl⟩

theorem streamLoop_live (left attempt : Nat) (hw : Waiting o s) :
    CallTrace o (fate env o left attempt) (streamLoop env left attempt s).call.trace := by
  induction left generalizing attempt s with
  | zero => exact streamLoop_zero hlive o attempt hw.sending
  | succ left ih =>
    rw [fate]
    by_cases hf : o.failsOver attempt = true
    · rw [if_pos hf]
      refine streamLoop_failover hlive o (left + 1) attempt hw.unsent hw.sending ?_
      exact fun k hk => hw.failsOver (failsOver_mono o hk hf)
    · rw [if_neg hf]
      obtain ⟨c, hw', hsends⟩ := sends_live hlive hw (Bool.not_eq_true _ ▸ hf)
      have hsend := sendRound_live hlive o attempt hw'
      rw [streamLoop, streamRound_of_sends hsends]
      cases hout : outcome env o.vendor attempt with
      | error err =>
        rw [hout] at hsend
        obtain ⟨s', hagain, hs'⟩ := hsend
        rw [hagain]
        exact ih (attempt + 1) hs'
      | ok body =>
        rw [hout] at hsend
        dsimp only at hsend ⊢
        by_cases hret : body.retried o.vendor = true
        · rw [if_pos hret] at hsend ⊢
          obtain ⟨s', hagain, hs'⟩ := hsend
          rw [hagain]
          exact ih (attempt + 1) hs'
        · rw [if_neg hret] at hsend ⊢
          obtain ⟨s', hfin, hs'⟩ := hsend
          rw [hfin]
          exact hs'

theorem streamWithFailover_live :
    CallTrace o (settling env o) (streamWithFailover env o).call.trace := by
  have hloop : CallTrace o (settling env o) (streamLoop env o.rounds 0
      { o, call := { tick := if env.throttled then 1 else 0 } }).call.trace :=
    streamLoop_live hlive o o.rounds 0 ⟨rfl, Sending.nil, o.keyIndex, rfl⟩
  rw [streamWithFailover, (hlive 0).1, Bool.and_false, if_neg (by simp)]
  unfold StreamCall.deferred
  split
  · exact hloop.log rfl
  · exact hloop

end Loop

end MiniGoAgent
