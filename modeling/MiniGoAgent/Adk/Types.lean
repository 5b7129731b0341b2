/-
# `Adk.Types` — messages, requests and events of the agent kit (`internal/adk/types`)

The kit passes messages around as pointers.  A pointer that may be nil is an
`Option`; where the code only moves pointers the models are generic in what they
point to.
-/
import MiniGoAgent.Protocol.Types

open Go

namespace MiniGoAgent

namespace Adk

structure ToolCall where
  id : Str := []
  type : Str := []
  name : Str := []
  arguments : Str := []
  deriving DecidableEq, Repr

structure Message where
  role : Role := []
  content : Str := []
  reasoningContent : Str := []
  toolCalls : List ToolCall := []
  toolCallID : Str := []
  name : Str := []
  multiContent : List (List (Str × Json.Value)) := []
  deriving DecidableEq, Repr

inductive EventType where
  | text
  | reasoning
  | toolCall
  | toolResult
  | error
  | done
  deriving DecidableEq, Repr

structure Event where
  type : EventType
  content : Str := []
  toolID : Str := []
  error : Option Err := none
  deriving DecidableEq, Repr

end Adk

end MiniGoAgent
