/-
# `Protocol.RawLog` — the raw chunks of a call and the log that is written of them

With an event bus set, `chatDirect`, `streamWithFailover` and `readStream`
publish what they send and what comes back as `ChunkRawRequest`,
`ChunkRawResponse` and `ChunkRawError`, and `RawLogProcessor` writes each as a
line of JSON.  The request of a `Chat` goes through `RedactBody`.  Nothing else
goes through any of the functions of `redact.go`: the body of a refused `Chat`,
the status line and the headers of a stream, and the text of every error are
published as they came.

`TryPublish` may drop a chunk, so the processor is given any sublist of what
was published, in any state and with any outcome of its file operations.
-/
import MiniGoAgent.Protocol.Failover
import MiniGoAgent.Protocol.Redact
import MiniGoAgent.Protocol.Scan

open Go

namespace MiniGoAgent

open Json (NumberFormat escape encode)

variable (ctx : Ctx) (emitted : Bool) (vendor : Vendor) (status : Nat)

variable {c : Chunk} {env : Env} {err : Err} {kind : Str} {attempt : Nat}

/-! ## Literal texts -/

/-- The literal texts in which letters of a pattern occur. -/
def literals : List String :=
  ["context canceled", "context deadline exceeded", "build request", " has_key=true)",
    " has_key=false)", "kind", "\n"]

def vendors : List Vendor :=
  [.unspecified, .deepSeek, .miniMax, .miMo, .zhipu, .longCat, .ollamaCloud, .stepFun, .qwen]

theorem mem_vendors : vendor ∈ vendors := by
  cases vendor <;> simp [vendors]

theorem clean_literals : (∀ s ∈ literals, clean (lit s) = true) ∧ ∀ vendor ∈ vendors,
      clean (lit "vendor " ++ vendor.string ++ lit " unhealthy (circuit open)") = true ∧
        clean (lit "circuit breaker open for vendor " ++ vendor.string) = true := by
  decide +kernel

theorem clean_lit {s : String} (hs : s ∈ literals) : clean (lit s) = true := clean_literals.1 s hs

/-! ## The texts of errors -/

theorem clean_numbered {w : Str} (hw : w ⊆ harmlessBytes) (n : Nat) :
    clean (w ++ itoa n) = true := by
  have h := clean_itoa (u := []) hw (by decide) n
  rwa [List.append_nil] at h

theorem clean_apiHead :
    clean (lit "api error (vendor=" ++ itoa vendor.number ++ lit ", status=" ++ itoa status ++
      lit ")") = true := by
  have happ : lit "api error (vendor=" ++ itoa vendor.number ++ lit ", status=" ++ itoa status ++
      lit ")" = (lit "api error (vendor=" ++ itoa vendor.number) ++
        byte ',' :: (lit " status=" ++ itoa status ++ lit ")") := by
    simp only [List.append_assoc]
    rfl
  rw [happ, clean_at_punctuation (by decide), clean_numbered (by decide),
    clean_itoa (by decide) (by decide), Bool.and_self]

theorem clean_apiError (body : Str) :
    clean (Err.apiError vendor status body).error = clean body := by
  rw [Err.error]
  split
  · rename_i hbody
    rw [hbody, List.append_nil, clean_apiHead, clean_splits.nil]
  · rw [← List.append_assoc, clean_prefixed (clean_apiHead vendor status)]

theorem clean_authError (hasKey : Bool) :
    clean (Err.authError vendor status hasKey).error = true := by
  have happ : (Err.authError vendor status hasKey).error =
      (lit "auth error (vendor=" ++ itoa vendor.number) ++
        byte ',' :: ((lit " status=" ++ itoa status) ++
          byte ',' :: (lit " has_key=" ++ (if hasKey then lit "true" else lit "false") ++
            lit ")")) := by
    simp only [Err.error, List.append_assoc]
    rfl
  have hkey : clean (lit " has_key=" ++ (if hasKey then lit "true" else lit "false") ++ lit ")") =
      true := by
    cases hasKey with
    | true => exact clean_lit (s := " has_key=true)") (by simp [literals])
    | false => exact clean_lit (s := " has_key=false)") (by simp [literals])
  rw [happ, clean_at_punctuation (by decide), clean_at_punctuation (by decide),
    clean_numbered (by decide), clean_numbered (by decide), hkey]
  rfl

theorem clean_literal {w : Str} {p : Str} (hp : p = w ++ lit ": ") (hw : clean w = true)
    (s : Str) : clean (p ++ s) = clean s := by
  rw [hp, clean_prefixed hw]

theorem clean_wrap {w : Str} {p : Str} (hp : p = w ++ lit ": ") (hw : clean w = true)
    (err : Err) : clean (Err.wrap p err).error = clean err.error := clean_literal hp hw err.error

theorem clean_streamErr (err : Err) : clean (streamErr emitted err).error = clean err.error := by
  cases emitted with
  | false => rfl
  | true =>
    have happ : lit "stream interrupted (emitted=" ++ lit "true" ++ lit "): " =
        lit "stream interrupted (emitted=true)" ++ lit ": " := by decide
    exact clean_literal happ (clean_of_harmless (by decide)) err.error

theorem clean_ctxErr : clean ctx.err.error = true := by
  unfold Ctx.err
  split
  · exact clean_lit (s := "context deadline exceeded") (by simp [literals])
  · exact clean_lit (s := "context canceled") (by simp [literals])

/-! ## Chat -/

def rawRequestChunk (text : Str) : Chunk := { type := .rawRequest, text }
def rawResponseChunk (text : Str) : Chunk := { type := .rawResponse, text }
def rawErrorChunk (text : Str) : Chunk := { type := .rawError, text }

/-- How the request of `chatDirect` is answered. -/
inductive ChatAnswer where
  | buildError (err : Err)
  | transport (err : Err)
  /-- `decoded` is what is made of the body of a success -/
  | response (status : Nat) (body : Str) (decoded : Except Err Response)

/-- What `chatDirect` makes of the answer. -/
def ChatAnswer.outcome : ChatAnswer → ChatOutcome
  | .buildError err => .buildError err
  | .transport err => .failed (.wrap (lit "request failed: ") err)
  | .response status body decoded =>
    if status = 200 then
      match decoded with
      | .ok resp => .ok resp
      | .error err => .failed err
    else
      .failed (.other (lit "API error (status=" ++ itoa status ++ lit "): " ++ trimSpace body))

/-- The raw chunks of `chatDirect`, with the body it sends. -/
def chatDirectRaw (num : NumberFormat) (body : Str) : ChatAnswer → List Chunk
  | .buildError _ => []
  | .transport err =>
    [rawRequestChunk (redactBody num body), rawErrorChunk (lit "request failed: " ++ err.error)]
  | .response status msg _ =>
    rawRequestChunk (redactBody num body) ::
      if status = 200 then []
      else [rawResponseChunk (lit "HTTP " ++ itoa status ++ lit ": " ++ trimSpace msg)]

def chatDirectQuoted (num : NumberFormat) (body : Str) : ChatAnswer → List Str
  | .buildError _ => []
  | .transport err => shownOfBody num body ++ [err.error]
  | .response status msg _ =>
    shownOfBody num body ++ if status = 200 then [] else [trimSpace msg]

theorem clean_chatDirectRaw (num : NumberFormat) (body : Str) (answer : ChatAnswer) :
    (chatDirectRaw num body answer).all (fun c => clean c.text) =
      (chatDirectQuoted num body answer).all clean := by
  cases answer with
  | buildError err => rfl
  | transport err =>
    have hfailed : clean (lit "request failed: " ++ err.error) = clean err.error :=
      clean_literal (w := lit "request failed") (by decide)
        (clean_of_harmless (by decide)) err.error
    rw [chatDirectRaw, chatDirectQuoted, List.all_append, ← clean_redactBody]
    simp only [List.all_cons, List.all_nil, rawRequestChunk, rawErrorChunk, hfailed]
  | response status msg decoded =>
    have hhttp : clean (lit "HTTP " ++ itoa status ++ lit ": " ++ trimSpace msg) =
        clean (trimSpace msg) := clean_prefixed (clean_numbered (by decide) status) _
    rw [chatDirectRaw, chatDirectQuoted, List.all_append, ← clean_redactBody]
    split
    · rfl
    · simp only [List.all_cons, List.all_nil, rawRequestChunk, rawResponseChunk, hhttp]

/-! ## SendWithRetry -/

/-- What the error of a pass quotes: an error of the transport, or the start of
the body of a refusal that is not about the key. -/
def tryQuoted (env : Env) (vendor : Vendor) (t : HttpTry) : List Str :=
  if t.circuitOpen then []
  else if env.registered vendor && !t.allowed then []
  else
    match t.outcome with
    | .buildError err => [err.error]
    | .transport err => [err.error]
    | .response status msg _ =>
      if status = 200 then []
      else if status = 401 ∨ status = 403 then []
      else [trimSpace (msg.take 4096)]

def Pass.err? : Pass → Option Err
  | .done (.ok _) => none
  | .done (.error err) => some err
  | .retry err => some err

theorem clean_sendOnce {tag : Nat} {vendor : Vendor} {req : HttpRequest} {t : HttpTry}
    {c : Call} (h : (sendOnce env tag vendor req t c).2.err? = some err) :
    clean err.error = (tryQuoted env vendor t).all clean := by
  have hone : ∀ text : Str, [text].all clean = clean text := fun text => by simp
  obtain ⟨hunhealthy, hbreaker⟩ := clean_literals.2 vendor (mem_vendors vendor)
  revert h
  fun_cases sendOnce env tag vendor req t c
  case case6 =>
    intro h
    cases h
  all_goals
    intro h
    rw [tryQuoted, ← Option.some.inj h]
  case case1 hopen =>
    rw [if_pos hopen]
    exact hunhealthy
  case case2 hopen hrefused =>
    rw [if_neg hopen, if_pos hrefused]
    exact hbreaker
  case case3 hopen hrefused err' hout =>
    simp only [if_neg hopen, if_neg hrefused, hout, hone]
    exact clean_wrap (w := lit "build request") (by decide) (clean_lit (by simp [literals])) err'
  case case4 hopen hrefused err' hout _ _ _ | case5 hopen hrefused err' hout _ _ _ =>
    simp only [if_neg hopen, if_neg hrefused, hout, hone]
    exact clean_wrap (w := lit "request failed") (by decide) (clean_of_harmless (by decide)) err'
  case case7 hopen hrefused status _ _ hout _ hok hauth =>
    simp only [if_neg hopen, if_neg hrefused, hout, if_neg hok, if_pos hauth]
    exact clean_authError vendor status true
  case case8 hopen hrefused status _ _ hout _ hok hauth _ _
      | case9 hopen hrefused status _ _ hout _ hok hauth _ _ =>
    simp only [if_neg hopen, if_neg hrefused, hout, if_neg hok, if_neg hauth, hone]
    exact clean_apiError vendor status _

/-- What the error of the loop quotes: what that of its last pass does. -/
def sendLoopQuoted (env : Env) (tag : Nat) (vendor : Vendor) (req : HttpRequest) :
    Nat → Nat → Call → List Str
  | left, pass, c =>
    if 0 < pass ∧ env.ctx.cancelled c.tick = true then []
    else
      match sendOnce env tag vendor req (env.tries tag pass)
          (if 0 < pass then c.next else c) with
      | (_, .done _) => tryQuoted env vendor (env.tries tag pass)
      | (c, .retry _) =>
        match left with
        | 0 => tryQuoted env vendor (env.tries tag pass)
        | left + 1 => sendLoopQuoted env tag vendor req left (pass + 1) c

theorem clean_sendLoop {tag : Nat} {vendor : Vendor} {req : HttpRequest} {left pass : Nat}
    {c : Call} (h : (sendLoop env tag vendor req left pass c).2 = .error err) :
    clean err.error = (sendLoopQuoted env tag vendor req left pass c).all clean := by
  fun_induction sendLoop env tag vendor req left pass c with
  | case1 left pass c hdone =>
    cases h
    rw [sendLoopQuoted.eq_def]
    simp only [if_pos hdone]
    exact clean_ctxErr env.ctx
  | case2 left pass c hgo c' r hpass =>
    rw [sendLoopQuoted.eq_def]
    simp only [if_neg hgo, hpass]
    exact clean_sendOnce (by rw [hpass, show r = .error err from h]; rfl)
  | case3 pass c hgo c' e hpass =>
    cases h
    rw [sendLoopQuoted.eq_def]
    simp only [if_neg hgo, hpass]
    exact clean_sendOnce (by rw [hpass]; rfl)
  | case4 pass c hgo c' e hpass left ih =>
    rw [sendLoopQuoted.eq_def]
    simp only [if_neg hgo, hpass]
    exact ih h

/-! ## Reading a stream -/

/-- The message of the record at which the reading fails. -/
def recordQuoted (ctx : Ctx) (attempt : Nat) : List Str → ReadStreamState → List Str
  | [], _ => []
  | text :: rest, s =>
    match parseLine text with
    | .skip => recordQuoted ctx attempt rest s
    | .done => []
    | .record sr =>
      match processSSEData ctx attempt sr s with
      | (s, .more) => recordQuoted ctx attempt rest s
      | (_, .stop) => []
      | (_, .failed _) => sr.error.toList

def errText (err : Option Err) : List Str := (err.map Err.error).toList

def Verdict.err? : Verdict → Option Err
  | .failed err => some err
  | _ => none

def Exit.err? : Exit → Option Err
  | .failed err => some err
  | _ => none

theorem processRecord_err? (o : OpenAI) (emitted : Bool) (g : Gathered) {sr : StreamRecord}
    (h : sr.error = none) : (processRecord o emitted g sr).verdict.err? = none := by
  rw [processRecord_ok o emitted g h]
  split <;> rfl

theorem clean_processSSEData {ctx : Ctx} {sr : StreamRecord} {s s' : ReadStreamState}
    (h : processSSEData ctx attempt sr s = (s', .failed err)) :
    clean err.error = sr.error.toList.all clean := by
  cases herror : sr.error with
  | some msg =>
    have happ : lit "API stream error: " = lit "API stream error" ++ lit ": " := by decide
    have hclean := clean_literal happ (clean_of_harmless (by decide)) msg
    simp only [processSSEData, processRecord, herror, exec, Prod.mk.injEq,
      Verdict.failed.injEq] at h
    rw [← h.2, Option.toList_some, List.all_cons, List.all_nil, Bool.and_true]
    exact hclean
  | none =>
    have hctx : err = ctx.err := by
      have hverdict := processRecord_err? s.o s.outlet.emitted s.gathered herror
      unfold processSSEData at h
      dsimp only at h
      split at h
      · simp only [Prod.mk.injEq] at h
        rw [h.2] at hverdict
        cases hverdict
      · simp only [Prod.mk.injEq, Verdict.failed.injEq] at h
        exact h.2.symm
    rw [hctx, clean_ctxErr]
    rfl

theorem clean_readLines (attempt : Nat) (lines : List Str) (s : ReadStreamState) :
    (errText (readLines ctx attempt lines s).2.err?).all clean =
      (recordQuoted ctx attempt lines s).all clean := by
  fun_induction readLines ctx attempt lines s with
  | case1 s => rfl
  | case2 text rest s hline ih =>
    simp only [recordQuoted, hline]
    exact ih
  | case3 text rest s hline =>
    simp only [recordQuoted, hline]
    rfl
  | case4 text rest s sr hline s' hmore ih =>
    simp only [recordQuoted, hline, hmore]
    exact ih
  | case5 text rest s sr hline s' hstop =>
    simp only [recordQuoted, hline, hstop]
    rfl
  | case6 text rest s sr hline s' err hfailed =>
    simp only [recordQuoted, hline, hfailed]
    rw [← clean_processSSEData hfailed]
    simp [errText, Exit.err?]

/-- What the error of `readStream` quotes: the message of the record that
failed, or the error of the scanner. -/
def readQuoted (ctx : Ctx) (attempt : Nat) (body : Body) (o : OpenAI) (c : Call) : List Str :=
  let s : ReadStreamState := { o, outlet := { call := c } }
  match (readLines ctx attempt body.lines s).2 with
  | .failed _ => recordQuoted ctx attempt body.lines s
  | .stop => []
  | _ => errText body.err

theorem all_errText (err : Err) : (errText (some err)).all clean = clean err.error := by
  simp [errText]

theorem clean_scannerErr (err : Err) :
    clean (streamErr emitted (.wrap (lit "scanner error: ") err)).error = clean err.error := by
  rw [clean_streamErr]
  exact clean_wrap (w := lit "scanner error") (by decide) (clean_of_harmless (by decide)) err

theorem clean_stallErr : clean (streamErr emitted stallErr).error = true := by
  rw [clean_streamErr]
  exact clean_of_harmless (s := lit "stream idle timeout") (by decide)

theorem clean_readStream (attempt : Nat) (body : Body) (o : OpenAI) (c : Call) :
    (errText (readStream ctx attempt body o c).2.2).all clean =
      (readQuoted ctx attempt body o c).all clean := by
  have hlines := clean_readLines ctx attempt body.lines { o, outlet := { call := c } }
  rcases hread : readLines ctx attempt body.lines { o, outlet := { call := c } } with ⟨s, exit⟩
  rw [hread] at hlines
  simp only [readStream, readQuoted, hread]
  cases exit with
  | failed err =>
    rw [← hlines, all_errText, clean_streamErr]
    exact (all_errText err).symm
  | stop => rfl
  | _ =>
    cases body.err with
    | some err =>
      rw [all_errText, all_errText, clean_scannerErr]
    | none =>
      dsimp only
      split
      · rw [all_errText, clean_stallErr]
        rfl
      · rfl

/-! ## Streams -/

structure ResponseHead where
  protoMajor : Nat
  protoMinor : Nat
  statusCode : Nat
  status : Str
  /-- in the order in which the map is walked -/
  header : List (Str × List Str)

/-- The text `readStream` publishes. -/
def ResponseHead.text (h : ResponseHead) : Str :=
  lit "HTTP/" ++ itoa h.protoMajor ++ lit "." ++ itoa h.protoMinor ++ lit " " ++
    itoa h.statusCode ++ lit " " ++ h.status ++ lit "\n" ++
    h.header.flatMap (fun kv => kv.2.flatMap (fun v => kv.1 ++ lit ": " ++ v ++ lit "\n"))

def sendRoundRaw (env : Env) (head : ResponseHead) (attempt : Nat) (s : StreamCall) : List Chunk :=
  match sendWithRetry env attempt s.o s.call with
  | (_, .error err) => [rawErrorChunk (lit "send_with_retry: " ++ err.error)]
  | (call, .ok body) =>
    rawResponseChunk head.text ::
      (errText (readStream env.ctx attempt body s.o call).2.2).map
        (fun text => rawErrorChunk (lit "readStream: " ++ text))

def sendRoundQuoted (env : Env) (head : ResponseHead) (attempt : Nat) (s : StreamCall) :
    List Str :=
  match sendWithRetry env attempt s.o s.call with
  | (_, .error _) => sendLoopQuoted env attempt s.o.vendor s.o.httpRequest maxRetries 0 s.call
  | (call, .ok body) => head.text :: readQuoted env.ctx attempt body s.o call

theorem clean_sendRoundRaw (env : Env) (head : ResponseHead) (attempt : Nat) (s : StreamCall) :
    (sendRoundRaw env head attempt s).all (fun c => clean c.text) =
      (sendRoundQuoted env head attempt s).all clean := by
  rcases hsend : sendWithRetry env attempt s.o s.call with ⟨call, err | body⟩
  · have hretry : clean (lit "send_with_retry: " ++ err.error) = clean err.error :=
      clean_literal (w := lit "send_with_retry") (by decide)
        (clean_of_harmless (by decide)) err.error
    have hloop : clean err.error =
        (sendLoopQuoted env attempt s.o.vendor s.o.httpRequest maxRetries 0 s.call).all clean := by
      refine clean_sendLoop ?_
      rw [sendWithRetry] at hsend
      rw [hsend]
    simp only [sendRoundRaw, sendRoundQuoted, hsend, List.all_cons, List.all_nil, Bool.and_true,
      rawErrorChunk, hretry, hloop]
  · have hread : ∀ text : Str, clean (lit "readStream: " ++ text) = clean text :=
      clean_literal (w := lit "readStream") (by decide) (clean_of_harmless (by decide))
    simp only [sendRoundRaw, sendRoundQuoted, hsend, List.all_cons, List.all_map, rawErrorChunk,
      rawResponseChunk, Function.comp_def, hread, ← clean_readStream]

/-! ## Calls -/

/-- A call of the client, with everything that comes from outside. -/
inductive RawCall where
  /-- `chatWithFailover`: attempt by attempt the body sent and the answer -/
  | chat (bodies : Nat → Str) (answers : Nat → ChatAnswer) (o : OpenAI)
  /-- `streamWithFailover`: attempt by attempt the head of the response -/
  | stream (env : Env) (heads : Nat → ResponseHead) (o : OpenAI)

/-- The attempts of a `Chat` that send a request. -/
def chatAttempts (answers : Nat → ChatAnswer) (o : OpenAI) : List Nat :=
  (chatWithFailover (fun attempt => (answers attempt).outcome) o).2.1.requests.map Prod.fst

/-- The raw chunks a call publishes. -/
def RawCall.published (num : NumberFormat) : RawCall → List Chunk
  | .chat bodies answers o =>
    (chatAttempts answers o).flatMap (fun a => chatDirectRaw num (bodies a) (answers a))
  | .stream env heads o =>
    (streamRounds env o).flatMap (fun r => sendRoundRaw env (heads r.1) r.1 r.2)

/-- The texts from outside that those chunks quote. -/
def RawCall.quoted (num : NumberFormat) : RawCall → List Str
  | .chat bodies answers o =>
    (chatAttempts answers o).flatMap (fun a => chatDirectQuoted num (bodies a) (answers a))
  | .stream env heads o =>
    (streamRounds env o).flatMap (fun r => sendRoundQuoted env (heads r.1) r.1 r.2)

theorem clean_published (num : NumberFormat) (call : RawCall) :
    (call.published num).all (fun c => clean c.text) = (call.quoted num).all clean := by
  cases call with
  | chat bodies answers o =>
    simp only [RawCall.published, RawCall.quoted, List.all_flatMap, clean_chatDirectRaw]
  | stream env heads o =>
    simp only [RawCall.published, RawCall.quoted, List.all_flatMap, clean_sendRoundRaw]

/-! ## The log -/

structure Timestamp where
  text : Str
  bytes : text ⊆ timeBytes

/-- `ChunkType.String` for the types the processor writes. -/
def rawKind : ChunkType → Option Str
  | .rawRequest => some (lit "raw_request")
  | .rawResponse => some (lit "raw_response")
  | .rawError => some (lit "raw_error")
  | _ => none

def logLine (ts : Timestamp) (kind : Str) (c : Chunk) : Str :=
  encode (.obj [(lit "ts", .str ts.text), (lit "kind", .str kind), (lit "data", .str c.text)]) ++
    lit "\n"

/-- What the outside answers to a write: the lock, the date, the file. -/
structure LogWrite where
  locked : Bool := true
  newDate : Bool := false
  opens : Bool := true
  fails : Bool := false
  ts : Timestamp

structure RawLogProcessor where
  enabled : Bool := true
  /-- `file` is not nil -/
  file : Bool := false

namespace RawLogProcessor

def rotate (p : RawLogProcessor) (w : LogWrite) : RawLogProcessor :=
  if w.opens then { p with file := true } else { p with enabled := false }

/-- `tryWrite`, with the line written. -/
def tryWrite (p : RawLogProcessor) (w : LogWrite) (kind : Str) (c : Chunk) :
    RawLogProcessor × Option Str :=
  if w.locked = false then (p, none)
  else
    let p := if p.file = false ∨ w.newDate = true then p.rotate w else p
    if p.file = false then (p, none)
    else if w.fails then ({ p with enabled := false }, none)
    else (p, some (logLine w.ts kind c))

def process (p : RawLogProcessor) (w : LogWrite) (c : Chunk) : RawLogProcessor × Option Str :=
  if p.enabled = false then (p, none)
  else
    match rawKind c.type with
    | some kind => p.tryWrite w kind c
    | none => (p, none)

def lines (writes : Nat → LogWrite) : Nat → RawLogProcessor → List Chunk → List Str
  | _, _, [] => []
  | i, p, c :: rest =>
    (p.process (writes i) c).2.toList ++ lines writes (i + 1) (p.process (writes i) c).1 rest

end RawLogProcessor

theorem mem_process {p : RawLogProcessor} {w : LogWrite} {line : Str}
    (h : (p.process w c).2 = some line) :
    ∃ kind, rawKind c.type = some kind ∧ line = logLine w.ts kind c := by
  revert h
  fun_cases RawLogProcessor.process p w c
  case case2 kind hkind =>
    fun_cases RawLogProcessor.tryWrite p w kind c
    case case4 => exact fun h => ⟨kind, hkind, (Option.some.inj h).symm⟩
    all_goals nofun
  all_goals nofun

theorem mem_lines {writes : Nat → LogWrite} {i : Nat} {p : RawLogProcessor} {chunks : List Chunk}
    {line : Str} (h : line ∈ p.lines writes i chunks) :
    ∃ c ∈ chunks, ∃ kind, rawKind c.type = some kind ∧ ∃ ts, line = logLine ts kind c := by
  induction chunks generalizing i p with
  | nil => cases h
  | cons c rest ih =>
    rw [RawLogProcessor.lines, List.mem_append, Option.mem_toList] at h
    rcases h with h | h
    · obtain ⟨kind, hkind, hline⟩ := mem_process h
      exact ⟨c, List.mem_cons_self, kind, hkind, _, hline⟩
    · obtain ⟨c', hc', hrest⟩ := ih h
      exact ⟨c', List.mem_cons_of_mem c hc', hrest⟩

theorem secretFree_escape {text : Str} (h : clean text = true) :
    secretFree (escape text) = true := (Bool.and_eq_true_iff.mp h).2

theorem secretFree_encode_newline (ms : List (Str × Json.Value)) :
    secretFree (encode (.obj ms) ++ lit "\n") = secretFree (encode (.obj ms)) := by
  have hnewline : secretFree (lit "\n") = true :=
    secretFree_of_clean (clean_lit (by simp [literals]))
  have hends : ∀ x : Str, secretFree (byte '{' :: (x ++ byte '}' :: lit "\n")) =
      secretFree (byte '{' :: (x ++ [byte '}'])) := by
    intro x
    have hfront := secretFree_splits.split (byte '{') (by decide) [] (x ++ byte '}' :: lit "\n")
    rw [List.nil_append, secretFree_nil, Bool.true_and] at hfront
    rw [hfront, secretFree_splits.split (byte '}') (by decide), hnewline, Bool.and_true,
      secretFree_splits.between (by decide) (by decide)]
  rw [encode, List.cons_append, List.append_assoc]
  exact hends _

theorem secretFree_rawKind {t : ChunkType} (h : rawKind t = some kind) :
    secretFree (escape kind) = true := by
  have hkind : kind ⊆ harmlessBytes := by
    cases t with
    | rawRequest | rawResponse | rawError =>
      cases h
      decide
    | _ => cases h
  exact secretFree_escape (clean_of_harmless hkind)

theorem secretFree_logLine (ts : Timestamp) (hkind : rawKind c.type = some kind) :
    secretFree (logLine ts kind c) = secretFree (escape c.text) := by
  have hstrings : Json.strings (.obj [(lit "ts", .str ts.text), (lit "kind", .str kind),
      (lit "data", .str c.text)]) = [escape (lit "ts"), escape ts.text, escape (lit "kind"),
        escape kind, escape (lit "data"), escape c.text] := rfl
  have hts : secretFree (escape (lit "ts")) = true :=
    secretFree_escape (clean_of_harmless (by decide))
  have hname : secretFree (escape (lit "kind")) = true :=
    secretFree_escape (clean_lit (by simp [literals]))
  have hdata : secretFree (escape (lit "data")) = true :=
    secretFree_escape (clean_of_harmless (by decide))
  rw [logLine, secretFree_encode_newline, Json.encode_splits secretFree_splits _ rfl, hstrings]
  simp only [List.all_cons, List.all_nil, hts, hname, hdata, secretFree_rawKind hkind,
    secretFree_escape (clean_of_time ts.bytes), Bool.true_and, Bool.and_true]

/-! ## What is written -/

theorem rawKind_of_mem_chatDirectRaw {num : NumberFormat} {body : Str} {answer : ChatAnswer}
    (hc : c ∈ chatDirectRaw num body answer) : ∃ kind, rawKind c.type = some kind := by
  cases answer with
  | buildError err => cases hc
  | transport err =>
    simp only [chatDirectRaw, List.mem_cons, List.not_mem_nil, or_false] at hc
    rcases hc with rfl | rfl <;> exact ⟨_, rfl⟩
  | response status msg decoded =>
    rw [chatDirectRaw, List.mem_cons] at hc
    rcases hc with rfl | hc
    · exact ⟨_, rfl⟩
    · split at hc
      · cases hc
      · rw [List.mem_singleton.mp hc]
        exact ⟨_, rfl⟩

theorem rawKind_of_mem_sendRoundRaw {head : ResponseHead} {s : StreamCall}
    (hc : c ∈ sendRoundRaw env head attempt s) : ∃ kind, rawKind c.type = some kind := by
  unfold sendRoundRaw at hc
  split at hc
  · rw [List.mem_singleton.mp hc]
    exact ⟨_, rfl⟩
  · rcases List.mem_cons.mp hc with rfl | hc
    · exact ⟨_, rfl⟩
    · obtain ⟨text, _, rfl⟩ := List.mem_map.mp hc
      exact ⟨_, rfl⟩

theorem rawKind_of_mem_published {num : NumberFormat} {call : RawCall}
    (hc : c ∈ call.published num) : ∃ kind, rawKind c.type = some kind := by
  cases call with
  | chat bodies answers o =>
    obtain ⟨a, _, hc⟩ := List.mem_flatMap.mp hc
    exact rawKind_of_mem_chatDirectRaw hc
  | stream env heads o =>
    obtain ⟨r, _, hc⟩ := List.mem_flatMap.mp hc
    exact rawKind_of_mem_sendRoundRaw hc

/-- The raw chunks and every line that can be written of them are left alone by
`RedactString`: whichever of the chunks reach the processor, among whatever
others, in whatever state it is and however its file operations end. -/
structure RawLogMasked (published : List Chunk) : Prop where
  chunks : ∀ c ∈ published, redactString c.text = c.text
  lines : ∀ received : List Chunk,
    (∀ c ∈ received, (rawKind c.type).isSome = true → c ∈ published) →
      ∀ (writes : Nat → LogWrite) (p : RawLogProcessor), ∀ line ∈ p.lines writes 0 received,
        redactString line = line

/-- A moment at which a line can be written. -/
def Timestamp.epoch : Timestamp := ⟨lit "1970-01-01T00:00:00Z", by decide⟩

theorem lines_singleton (hkind : rawKind c.type = some kind) :
    RawLogProcessor.lines (fun _ => { ts := Timestamp.epoch }) 0 {} [c] =
      [logLine Timestamp.epoch kind c] := by
  simp [RawLogProcessor.lines, RawLogProcessor.process, hkind, RawLogProcessor.tryWrite,
    RawLogProcessor.rotate]

theorem rawLogMasked_iff_clean {published : List Chunk}
    (hraw : ∀ c ∈ published, ∃ kind, rawKind c.type = some kind) :
    RawLogMasked published ↔ ∀ c ∈ published, clean c.text = true := by
  constructor
  · intro h c hc
    obtain ⟨kind, hkind⟩ := hraw c hc
    have htext := (redactString_eq_self_iff _).mp (h.chunks c hc)
    have hline : redactString (logLine Timestamp.epoch kind c) =
        logLine Timestamp.epoch kind c := by
      refine h.lines [c] ?_ (fun _ => { ts := Timestamp.epoch }) {} _ ?_
      · intro c' hc' _
        rw [List.mem_singleton.mp hc']
        exact hc
      · rw [lines_singleton hkind]
        exact List.mem_singleton_self _
    rw [redactString_eq_self_iff, secretFree_logLine _ hkind] at hline
    rw [clean, htext, hline, Bool.and_self]
  · intro h
    have hboth : ∀ c ∈ published, secretFree c.text = true ∧ secretFree (escape c.text) = true :=
      fun c hc => Bool.and_eq_true_iff.mp (h c hc)
    refine ⟨fun c hc => (redactString_eq_self_iff _).mpr (hboth c hc).1, ?_⟩
    intro received hreceived writes p line hline
    obtain ⟨c, hc, kind, hkind, ts, rfl⟩ := mem_lines hline
    have hmem := hreceived c hc (by rw [hkind]; rfl)
    rw [redactString_eq_self_iff, secretFree_logLine ts hkind]
    exact (hboth c hmem).2

/-- Over any calls: the raw chunks and the lines of the log are left alone by
`RedactString` exactly when every text quoted in them is, as it is and as JSON
writes it. -/
theorem rawLog_masked_iff (num : NumberFormat) (calls : List RawCall) :
    RawLogMasked (calls.flatMap (RawCall.published num)) ↔
      ∀ text ∈ calls.flatMap (RawCall.quoted num),
        redactString text = text ∧ redactString (escape text) = escape text := by
  have hraw : ∀ c ∈ calls.flatMap (RawCall.published num), ∃ kind, rawKind c.type = some kind := by
    intro c hc
    obtain ⟨call, _, hc⟩ := List.mem_flatMap.mp hc
    exact rawKind_of_mem_published hc
  have hclean : (∀ c ∈ calls.flatMap (RawCall.published num), clean c.text = true) ↔
      ∀ text ∈ calls.flatMap (RawCall.quoted num), clean text = true := by
    have hall : (calls.flatMap (RawCall.published num)).all (fun c => clean c.text) =
        (calls.flatMap (RawCall.quoted num)).all clean := by
      simp only [List.all_flatMap, clean_published]
    rwa [Bool.eq_iff_iff, List.all_eq_true, List.all_eq_true] at hall
  rw [rawLogMasked_iff_clean hraw, hclean]
  refine forall₂_congr ?_
  intro text _
  rw [redactString_eq_self_iff, redactString_eq_self_iff, clean, Bool.and_eq_true]

/-- A refusal of a `Chat` in which the provider repeats a key. -/
def refusedChat : RawCall :=
  .chat (fun _ => lit "\x7b\"api_key\":\"k\"\x7d")
    (fun _ => .response 401 (lit "Incorrect API key: AKIA0123456789ABCDEF\n") (.error .eof)) {}

/-- The request is masked, the answer and its line in the log are not. -/
theorem refusal_publishes_key :
    (refusedChat.published NumberFormat.same).map Chunk.text =
        [lit "\x7b\"api_key\":\"[REDACTED]\"\x7d",
          lit "HTTP 401: Incorrect API key: AKIA0123456789ABCDEF"] ∧
      redactString (lit "HTTP 401: Incorrect API key: AKIA0123456789ABCDEF") =
        lit "HTTP 401: Incorrect API key: AKIA************CDEF" ∧
      ¬ RawLogMasked ([refusedChat].flatMap (RawCall.published NumberFormat.same)) := by
  have hmem : rawResponseChunk (lit "HTTP 401: Incorrect API key: AKIA0123456789ABCDEF") ∈
      [refusedChat].flatMap (RawCall.published NumberFormat.same) := by decide +kernel
  refine ⟨by decide +kernel, by decide +kernel, ?_⟩
  intro h
  exact absurd (h.chunks _ hmem) (by decide +kernel)

end MiniGoAgent
