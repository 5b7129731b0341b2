/-
# `Protocol.Stream` — reading one response body (`readStream`, `processSSEData`)

`readStream` reads the server-sent events of one response line by line and
turns them into chunks on the output channel.  What a record makes it do is a
`Plan`: the chunks it sends in their order, how it takes a failed send, what it
has accumulated then and whether it goes on.  A plan is pure; `exec` carries it
out against a context.

The source sends in three ways, and they differ when the context is done:

* `must` — `if !state.send(c) { return false, ctx.Err() }`;
* `may` — `state.send(c)` with the answer ignored;
* `offer` — `sendChunk`, which also gives up when the channel is full and does
  not set `emitted`.

Nothing that a plan leaves behind is read once a `must` has failed, which is
why the accumulated state can be computed before the sends.  The event bus and
the log are left out: they get copies of the chunks and answer nothing.
-/
import MiniGoAgent.Protocol.Retry
import MiniGoAgent.Protocol.Think

open Go

namespace MiniGoAgent

/-! ## Records -/

structure ToolCallDelta where
  index : Int := 0
  id : Str := []
  name : Str := []
  arguments : Str := []
  deriving DecidableEq, Repr

structure Delta where
  content : Str := []
  reasoningContent : Str := []
  reasoning : Str := []
  toolCalls : List ToolCallDelta := []
  deriving DecidableEq, Repr

structure Choice where
  delta : Delta := {}
  finishReason : Option Str := none
  deriving DecidableEq, Repr

/-- The target `sr` of `processSSEData`; `error` is its message.  The `type` of
a tool call is decoded but never used, so only its kind is checked. -/
structure StreamRecord where
  choices : List Choice := []
  usage : Option Usage := none
  error : Option Str := none
  deriving DecidableEq, Repr

section Decoding

open Json

def decodeFunction : Decoder ToolCallDelta :=
  decodeStruct
    [field "name" decodeString (·.name) (fun t v => { t with name := v }),
     field "arguments" decodeString (·.arguments) (fun t v => { t with arguments := v })]

def decodeToolCall : Decoder ToolCallDelta :=
  decodeStruct
    [field "index" decodeInt (·.index) (fun t v => { t with index := v }),
     field "id" decodeString (·.id) (fun t v => { t with id := v }),
     field "type" decodeString (fun _ => []) (fun t _ => t),
     ⟨lit "function", decodeFunction⟩]

def decodeDelta : Decoder Delta :=
  decodeStruct
    [field "content" decodeString (·.content) (fun t v => { t with content := v }),
     field "reasoning_content" decodeString (·.reasoningContent)
       (fun t v => { t with reasoningContent := v }),
     field "reasoning" decodeString (·.reasoning) (fun t v => { t with reasoning := v }),
     field "tool_calls" (decodeSlice {} decodeToolCall) (·.toolCalls)
       (fun t v => { t with toolCalls := v })]

def decodeChoice : Decoder Choice :=
  decodeStruct
    [field "delta" decodeDelta (·.delta) (fun t v => { t with delta := v }),
     field "finish_reason" (decodePtr [] decodeString) (·.finishReason)
       (fun t v => { t with finishReason := v })]

def decodeUsage : Decoder Usage :=
  decodeStruct
    [field "prompt_tokens" decodeInt (·.promptTokens) (fun t v => { t with promptTokens := v }),
     field "completion_tokens" decodeInt (·.completionTokens)
       (fun t v => { t with completionTokens := v }),
     field "total_tokens" decodeInt (·.totalTokens) (fun t v => { t with totalTokens := v })]

def decodeRecord : Decoder StreamRecord :=
  decodeStruct
    [field "choices" (decodeSlice {} decodeChoice) (·.choices)
       (fun t v => { t with choices := v }),
     field "usage" (decodePtr {} decodeUsage) (·.usage) (fun t v => { t with usage := v }),
     field "error"
       (decodePtr [] (decodeStruct [field "Message" decodeString id (fun _ v => v)]))
       (·.error) (fun t v => { t with error := v })]

end Decoding

inductive Line where
  /-- no data, or data that is not a record: the loop goes on -/
  | skip
  /-- `[DONE]` -/
  | done
  | record (sr : StreamRecord)
  deriving DecidableEq, Repr

def parseLine (text : Str) : Line :=
  let line := trimSpace text
  if line = [] ∨ hasPrefix line (lit "data:") = false then .skip
  else
    let data := trimSpace (trimPrefix line (lit "data:"))
    if data = lit "[DONE]" then .done
    else
      match Json.unmarshal {} decodeRecord data with
      | none => .skip
      | some sr => .record sr

/-! ## What is accumulated -/

/-- The part of `readStreamState` that is built up from the deltas. -/
structure Gathered where
  acc : Int → Option ToolCall := fun _ => none
  started : Int → Bool := fun _ => false
  order : List Int := []
  think : ThinkSplitter := {}

def textChunk (text : Str) : Chunk := { type := .text, text }
def reasoningChunk (text : Str) : Chunk := { type := .reasoning, text }
def startChunk (tc : ToolCall) : Chunk :=
  { type := .toolCallStart, toolCall := some { id := tc.id, name := tc.name } }
def toolCallChunk (tc : ToolCall) : Chunk := { type := .toolCall, toolCall := some tc }
def usageChunk (u : Usage) : Chunk := { type := .usage, usage := some u }
def warnChunk (warning : Str) : Chunk := { type := .warn, warning }
def doneChunk : Chunk := { type := .done }
def errorChunk (err : Option Err) : Chunk := { type := .error, error := err }

/-- A chunk of text, sent only if there is any. -/
def ifText (make : Str → Chunk) (text : Str) : List Chunk :=
  if text = [] then [] else [make text]

def Delta.reasoningDelta (d : Delta) : Str :=
  if d.reasoningContent = [] then d.reasoning else d.reasoningContent

def ToolCall.extend (cur : ToolCall) (tc : ToolCallDelta) : ToolCall :=
  { cur with
    id := if tc.id ≠ [] then tc.id else cur.id
    name := if tc.name ≠ [] then tc.name else cur.name
    arguments := cur.arguments ++ tc.arguments }

namespace Gathered

/-- The content of a delta: split for MiniMax, passed on for the others. -/
def content (vendor : Vendor) (g : Gathered) (text : Str) : Gathered × List Chunk :=
  if text = [] then (g, [])
  else if vendor = .miniMax then
    let (think, out) := g.think.push text
    ({ g with think }, ifText reasoningChunk out.thought ++ ifText textChunk out.visible)
  else (g, [textChunk text])

def fragment (g : Gathered) (tc : ToolCallDelta) : Gathered × List Chunk :=
  let cur := ((g.acc tc.index).getD {}).extend tc
  let order := if (g.acc tc.index).isSome then g.order else g.order ++ [tc.index]
  let acc := Function.update g.acc tc.index (some cur)
  if g.started tc.index = false ∧ cur.name ≠ [] then
    ({ g with acc, order, started := Function.update g.started tc.index true },
      [startChunk cur])
  else ({ g with acc, order }, [])

def fragments (g : Gathered) : List ToolCallDelta → Gathered × List Chunk
  | [] => (g, [])
  | tc :: rest =>
    let (g, here) := g.fragment tc
    let (g, later) := g.fragments rest
    (g, here ++ later)

/-- A delta: its reasoning, its content, its tool calls. -/
def delta (vendor : Vendor) (g : Gathered) (d : Delta) : Gathered × List Chunk :=
  let (g, text) := g.content vendor d.content
  let (g, calls) := g.fragments d.toolCalls
  (g, ifText reasoningChunk d.reasoningDelta ++ text ++ calls)

/-- A call as it is delivered at the end: with an ID. -/
def named (idx : Int) (tc : ToolCall) : ToolCall :=
  if tc.id = [] then { tc with id := lit "call_" ++ itoa idx } else tc

/-- What a `finish_reason` delivers: the rest of the reasoning, and the calls. -/
def finish (g : Gathered) : List Chunk :=
  ifText reasoningChunk g.think.flush.2.thought ++
    g.order.filterMap (fun idx => (g.acc idx).map (fun tc => toolCallChunk (named idx tc)))

end Gathered

/-! ## Plans -/

inductive Send where
  | must (c : Chunk)
  | may (c : Chunk)
  | offer (c : Chunk)
  deriving DecidableEq, Repr

def Send.chunk : Send → Chunk
  | .must c | .may c | .offer c => c

/-- How `processSSEData` returns. -/
inductive Verdict where
  /-- `false, nil` -/
  | more
  /-- `true, nil` -/
  | stop
  /-- `false, err` -/
  | failed (err : Err)
  deriving DecidableEq, Repr

structure Plan where
  gathered : Gathered
  sends : List Send
  verdict : Verdict

/-- `streamErr` on a non-nil error. -/
def streamErr (emitted : Bool) (err : Err) : Err :=
  if emitted then .streamInterrupted true err else err

/-- `sendContextWarning` for a non-nil usage; the product and the quotient are
Go `int`s. -/
def sendContextWarning (o : OpenAI) (u : Usage) : List Send :=
  let maxCtx := modelContextWindow o.model
  if maxCtx ≤ 0 then []
  else
    let pct := (wrap64 (u.promptTokens * 100)).tdiv maxCtx
    if o.comprPct ≤ pct then
      [.offer (warnChunk (lit "context at " ++ itoa pct ++ lit "% — compression recommended"))]
    else if o.warnPct ≤ pct then
      [.offer (warnChunk (lit "context at " ++ itoa pct ++ lit "%"))]
    else []

/-- The sends for the usage of a record. -/
def usageSends (o : OpenAI) : Option Usage → List Send
  | none => []
  | some u => .may (usageChunk u) :: sendContextWarning o u

/-- The choice ends the stream: a non-empty `finish_reason`. -/
def Choice.finished (c : Choice) : Bool := c.finishReason.getD [] != []

/-- `processSSEData` on a record. -/
def processRecord (o : OpenAI) (emitted : Bool) (g : Gathered) (sr : StreamRecord) : Plan :=
  match sr.error with
  | some msg =>
    { gathered := g
      sends := [.may (errorChunk (some (streamErr emitted (.other msg))))]
      verdict := .failed (.other (lit "API stream error: " ++ msg)) }
  | none =>
    match sr.choices with
    | [] => { gathered := g, sends := usageSends o sr.usage, verdict := .more }
    | choice :: _ =>
      let (g, chunks) := g.delta o.vendor choice.delta
      if choice.finished then
        { gathered := g
          sends := usageSends o sr.usage ++ (chunks ++ g.finish).map .must ++ [.may doneChunk]
          verdict := .stop }
      else
        { gathered := g
          sends := usageSends o sr.usage ++ chunks.map .must
          verdict := .more }

/-- The usage a record leaves in `lastUsage`. -/
def StreamRecord.recordedUsage (sr : StreamRecord) : Option Usage :=
  if sr.error.isSome then none else sr.usage

/-! ## Carrying out a plan -/

/-- The channel side of a stream. -/
structure Outlet where
  call : Call := {}
  emitted : Bool := false

namespace Call

def deliver (c : Call) (attempt : Nat) (ch : Chunk) : Call := (c.log (.chunk attempt ch)).next

end Call

/-- A send that the context can refuse. -/
def Ctx.refuses (ctx : Ctx) (tick : Nat) : Bool := ctx.cancelled tick && ctx.pick tick

def sendChunk (ctx : Ctx) (attempt : Nat) (ch : Chunk) (c : Call) : Call :=
  if ctx.refuses c.tick || ctx.full c.tick then c.next else c.deliver attempt ch

def send (ctx : Ctx) (attempt : Nat) (ch : Chunk) (s : Outlet) : Outlet × Bool :=
  if ctx.refuses s.call.tick then ({ s with call := s.call.next }, false)
  else ({ call := s.call.deliver attempt ch, emitted := true }, true)

/-- Carries out the sends; `false` when a `must` failed. -/
def exec (ctx : Ctx) (attempt : Nat) : List Send → Outlet → Outlet × Bool
  | [], s => (s, true)
  | .must c :: rest, s =>
    match send ctx attempt c s with
    | (s, true) => exec ctx attempt rest s
    | (s, false) => (s, false)
  | .may c :: rest, s => exec ctx attempt rest (send ctx attempt c s).1
  | .offer c :: rest, s =>
    exec ctx attempt rest { s with call := sendChunk ctx attempt c s.call }

/-! ## The loop of `readStream` -/

/-- `readStreamState`, with the `OpenAI` value it points to. -/
structure ReadStreamState where
  o : OpenAI
  gathered : Gathered := {}
  outlet : Outlet := {}

def processSSEData (ctx : Ctx) (attempt : Nat) (sr : StreamRecord) (s : ReadStreamState) :
    ReadStreamState × Verdict :=
  let plan := processRecord s.o s.outlet.emitted s.gathered sr
  let o :=
    match sr.recordedUsage with
    | none => s.o
    | some u => { s.o with lastUsage := some u }
  match exec ctx attempt plan.sends s.outlet with
  | (outlet, true) => ({ o, gathered := plan.gathered, outlet }, plan.verdict)
  | (outlet, false) => ({ o, gathered := plan.gathered, outlet }, .failed ctx.err)

inductive Exit where
  /-- no more lines -/
  | eof
  /-- `[DONE]` -/
  | done
  /-- `finish_reason` -/
  | stop
  | failed (err : Err)
  deriving DecidableEq, Repr

def readLines (ctx : Ctx) (attempt : Nat) :
    List Str → ReadStreamState → ReadStreamState × Exit
  | [], s => (s, .eof)
  | text :: rest, s =>
    match parseLine text with
    | .skip => readLines ctx attempt rest s
    | .done => ({ s with outlet := (send ctx attempt doneChunk s.outlet).1 }, .done)
    | .record sr =>
      match processSSEData ctx attempt sr s with
      | (s, .more) => readLines ctx attempt rest s
      | (s, .stop) => (s, .stop)
      | (s, .failed err) => (s, .failed err)

def stallErr : Err := .other (lit "stream idle timeout")

/-- `readStream`: the `OpenAI` value, the channel with `emitted`, and the error. -/
def readStream (ctx : Ctx) (attempt : Nat) (body : Body) (o : OpenAI) (c : Call) :
    OpenAI × Outlet × Option Err :=
  match readLines ctx attempt body.lines { o, outlet := { call := c } } with
  | (s, .failed err) => (s.o, s.outlet, some (streamErr s.outlet.emitted err))
  | (s, .stop) => (s.o, s.outlet, none)
  | (s, _) =>
    match body.err with
    | some err =>
      (s.o, s.outlet, some (streamErr s.outlet.emitted (.wrap (lit "scanner error: ") err)))
    | none =>
      if body.stalled then
        (s.o,
          { s.outlet with
            call := sendChunk ctx attempt (errorChunk (some stallErr)) s.outlet.call },
          some (streamErr s.outlet.emitted stallErr))
      else (s.o, s.outlet, none)

end MiniGoAgent
