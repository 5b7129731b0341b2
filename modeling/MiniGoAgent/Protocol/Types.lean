/-
# `Protocol.Types` — the data model of package `protocol`

Messages, tool calls, stream chunks, usage records and errors, with the
fields and the constants of `types.go` (and `Vendor` of `host.go`).

* `Role` is a string in the source and any string can reach the code, so it
  stays one; the four named roles are constants.
* A pointer that may be nil is an `Option`; a pointer that is only shared for
  reading is the value.
* An `error` is a value of `Err`: the sentinels the code tests with
  `errors.Is`, the three error types of the package it tests with
  `errors.As`, `fmt.Errorf` with `%w` (`wrap`) and without (`other`).
-/
import MiniGoAgent.Go.JsonDecode

open Go

namespace MiniGoAgent

/-! ## Messages -/

/-- The role of a message: any string. -/
abbrev Role := Str

def roleSystem : Role := lit "system"
def roleUser : Role := lit "user"
def roleAssistant : Role := lit "assistant"
def roleTool : Role := lit "tool"

theorem roleAssistant_ne_roleTool : roleAssistant ≠ roleTool := by decide

structure ToolCall where
  id : Str := []
  type : Str := []
  name : Str := []
  arguments : Str := []
  deriving DecidableEq, Repr

/-- A conversation message; a part of `multiContent` is a Go
`map[string]any`. -/
structure Message where
  role : Role := []
  content : Str := []
  reasoningContent : Str := []
  toolCalls : List ToolCall := []
  toolCallID : Str := []
  name : Str := []
  multiContent : List (List (Str × Json.Value)) := []

/-- Token counts; Go `int`s. -/
structure Usage where
  promptTokens : Int := 0
  completionTokens : Int := 0
  totalTokens : Int := 0
  deriving DecidableEq, Repr

structure Response where
  content : Str := []
  reasoningContent : Str := []
  toolCalls : List ToolCall := []
  usage : Option Usage := none
  warning : Str := []
  deriving DecidableEq, Repr

/-! ## Vendors -/

inductive Vendor where
  | unspecified
  | deepSeek
  | miniMax
  | miMo
  | zhipu
  | longCat
  | ollamaCloud
  | stepFun
  | qwen
  deriving DecidableEq, Repr

def Vendor.string : Vendor → Str
  | .deepSeek => lit "deepseek"
  | .miniMax => lit "minimax"
  | .miMo => lit "mimo"
  | .zhipu => lit "zhipu"
  | .longCat => lit "longcat"
  | .ollamaCloud => lit "ollama"
  | .stepFun => lit "stepfun"
  | .qwen => lit "qwen"
  | .unspecified => lit "openai"

/-- The constant behind a vendor, as `%d` prints it. -/
def Vendor.number : Vendor → Nat
  | .unspecified => 0
  | .deepSeek => 1
  | .miniMax => 2
  | .miMo => 3
  | .zhipu => 4
  | .longCat => 5
  | .ollamaCloud => 6
  | .stepFun => 7
  | .qwen => 8

/-! ## Errors -/

inductive Err where
  /-- `context.Canceled` -/
  | canceled
  /-- `context.DeadlineExceeded` -/
  | deadlineExceeded
  /-- `io.ErrUnexpectedEOF` -/
  | unexpectedEOF
  /-- `io.EOF` -/
  | eof
  /-- `net.ErrClosed` -/
  | netClosed
  /-- `syscall.ECONNRESET` -/
  | connReset
  /-- `syscall.ECONNABORTED` -/
  | connAborted
  /-- any other error that implements `net.Error` -/
  | net (msg : Str)
  /-- an error of no type the code knows -/
  | other (msg : Str)
  | authError (vendor : Vendor) (status : Nat) (hasKey : Bool)
  | apiError (vendor : Vendor) (status : Nat) (body : Str)
  | streamInterrupted (emitted : Bool) (err : Err)
  /-- `fmt.Errorf` with a text in front of `%w` -/
  | wrap (text : Str) (err : Err)
  deriving DecidableEq, Repr

namespace Err

/-- `Error()`. -/
def error : Err → Str
  | .canceled => lit "context canceled"
  | .deadlineExceeded => lit "context deadline exceeded"
  | .unexpectedEOF => lit "unexpected EOF"
  | .eof => lit "EOF"
  | .netClosed => lit "use of closed network connection"
  | .connReset => lit "connection reset by peer"
  | .connAborted => lit "software caused connection abort"
  | .net msg => msg
  | .other msg => msg
  | .authError vendor status hasKey =>
    lit "auth error (vendor=" ++ itoa vendor.number ++ lit ", status=" ++ itoa status ++
      lit ", has_key=" ++ (if hasKey then lit "true" else lit "false") ++ lit ")"
  | .apiError vendor status body =>
    lit "api error (vendor=" ++ itoa vendor.number ++ lit ", status=" ++ itoa status ++ lit ")" ++
      (if body = [] then [] else lit ": " ++ body)
  | .streamInterrupted emitted err =>
    lit "stream interrupted (emitted=" ++ (if emitted then lit "true" else lit "false") ++
      lit "): " ++ err.error
  | .wrap text err => text ++ err.error

/-- The error chain from the outside in, as `errors.Is` and `errors.As` walk it. -/
def chain : Err → List Err
  | .wrap t e => .wrap t e :: e.chain
  | .streamInterrupted b e => .streamInterrupted b e :: e.chain
  | e => [e]

/-- `errors.Is` against a sentinel. -/
def is (err target : Err) : Bool := err.chain.contains target

/-- `errors.As` with a `net.Error` target; `context.DeadlineExceeded` is one. -/
def asNetError (err : Err) : Bool :=
  err.chain.any (fun e => match e with
    | .net _ | .deadlineExceeded | .netClosed => true
    | .connReset | .connAborted => true
    | _ => false)

/-- `errors.As` with an `*AuthError` target. -/
def asAuthError (err : Err) : Bool :=
  err.chain.any (fun e => match e with
    | .authError _ _ _ => true
    | _ => false)

/-- `errors.As` with a `*StreamInterruptedError` target. -/
def asStreamInterrupted (err : Err) : Bool :=
  err.chain.any (fun e => match e with
    | .streamInterrupted _ _ => true
    | _ => false)

end Err

/-! ## Chunks -/

inductive ChunkType where
  | text
  | reasoning
  | toolCallStart
  | toolCall
  | usage
  | warn
  | done
  | error
  | rawRequest
  | rawResponse
  | rawError
  deriving DecidableEq, Repr

/-- What a stream delivers; the fields a constructor of the source leaves out
are zero. -/
structure Chunk where
  type : ChunkType
  text : Str := []
  toolCall : Option ToolCall := none
  usage : Option Usage := none
  warning : Str := []
  error : Option Err := none
  deriving DecidableEq, Repr

/-- A terminal chunk ends a stream. -/
def Chunk.isTerminal (c : Chunk) : Bool := c.type == .done || c.type == .error

end MiniGoAgent
