/-
# `Adk.Bridge` — the message made of a stream (`Bridge.stream`)

The goroutine of `Bridge.stream` takes the chunks of a call off the channel and
puts one message together.  A tool call enters it when it is announced, and its
arguments are put in when the call is complete: into the first call of the
message with the same ID.

It is run against the choices of its `select` (`done n`: the context is done
when it waits for the `n`-th time) and the outcome of the `Chat` that is to
recover an interrupted stream.  The flag `streamInterrupted` is left out: where
it is set the goroutine returns.
-/
import MiniGoAgent.Adk.Schema

open Go

namespace MiniGoAgent

/-- The variables of the goroutine. -/
structure StreamAcc where
  fullContent : Str := []
  fullReasoning : Str := []
  toolCalls : List Schema.ToolCall := []

def StreamAcc.message (s : StreamAcc) : Schema.Message :=
  { role := roleAssistant, content := s.fullContent, reasoningContent := s.fullReasoning,
    toolCalls := s.toolCalls }

/-- What the reader gets from `sw.Send`. -/
inductive Sent where
  | message (m : Schema.Message)
  | error (err : Err)
  deriving DecidableEq, Repr

/-- Sets the arguments of the first call with the ID. -/
def setArguments (id arguments : Str) : List Schema.ToolCall → List Schema.ToolCall
  | [] => []
  | tc :: rest =>
    if tc.id = id then { tc with function := { tc.function with arguments } } :: rest
    else tc :: setArguments id arguments rest

/-- What a chunk does to the calls. -/
def absorbCall (calls : List Schema.ToolCall) (c : Chunk) : List Schema.ToolCall :=
  match c.type, c.toolCall with
  | .toolCallStart, some tc =>
    calls ++ [{ id := tc.id, type := lit "function", function := { name := tc.name } }]
  | .toolCall, some tc => setArguments tc.id tc.arguments calls
  | _, _ => calls

/-- A chunk that does not end the stream. -/
def StreamAcc.absorb (s : StreamAcc) (c : Chunk) : StreamAcc :=
  match c.type with
  | .text => { s with fullContent := s.fullContent ++ c.text }
  | .reasoning => { s with fullReasoning := s.fullReasoning ++ c.text }
  | _ => { s with toolCalls := absorbCall s.toolCalls c }

/-- The answer to a `ChunkError`: an interrupted stream is recovered by `Chat`. -/
def answerError (chat : Except Err Response) : Option Err → List Sent
  | none => [.error (.other (lit "stream failed without an error"))]
  | some err =>
    if err.asStreamInterrupted then
      .message { role := roleAssistant, content := lit "[流中断，正在恢复...]" } ::
        match chat with
        | .error _ => []
        | .ok resp => [.message (fromProtoResp resp)]
    else [.error err]

/-- The loop of the goroutine; the empty list is the closed channel. -/
def bridgeStream (done : Nat → Bool) (chat : Except Err Response) :
    List Chunk → Nat → StreamAcc → List Sent
  | chunks, n, s =>
    if done n then []
    else
      match chunks with
      | [] => [.message s.message]
      | c :: rest =>
        match c.type with
        | .done => [.message s.message]
        | .error => answerError chat c.error
        | _ => bridgeStream done chat rest (n + 1) (s.absorb c)

section Loop

variable {done : Nat → Bool} (chat : Except Err Response) {n : Nat} (s : StreamAcc)

theorem bridgeStream_of_done (h : done n = true) (chunks : List Chunk) :
    bridgeStream done chat chunks n s = [] := by
  cases chunks with
  | nil | cons => rw [bridgeStream, if_pos h]

theorem bridgeStream_error (h : done n = false) {c : Chunk} (hc : c.type = .error)
    (rest : List Chunk) : bridgeStream done chat (c :: rest) n s = answerError chat c.error := by
  rw [bridgeStream, if_neg (by rw [h]; simp)]
  simp only [hc]

theorem bridgeStream_absorb (h : done n = false) {c : Chunk} (hc : c.isTerminal = false)
    (rest : List Chunk) :
    bridgeStream done chat (c :: rest) n s = bridgeStream done chat rest (n + 1) (s.absorb c) := by
  unfold Chunk.isTerminal at hc
  rw [bridgeStream, if_neg (by rw [h]; simp)]
  cases ht : c.type with
  | done | error => rw [ht] at hc; cases hc
  | _ => rfl

end Loop

end MiniGoAgent
