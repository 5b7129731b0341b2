/-
# `Adk.Schema` — messages of the agent side, and their way to the protocol

The agent works with `*schema.Message` of the eino library; `bridge.go` turns
them into protocol messages.  A pointer that may be nil is an `Option`, and a
function that dereferences one gives `none` where the source panics.

Of the library's message the fields are kept that the repository reads or
writes.
-/
import MiniGoAgent.Protocol.Types

open Go

namespace MiniGoAgent

namespace Schema

structure FunctionCall where
  name : Str := []
  arguments : Str := []
  deriving DecidableEq, Repr

structure ToolCall where
  id : Str := []
  type : Str := []
  function : FunctionCall := {}
  deriving DecidableEq, Repr

/-- `MessageInputImage`. -/
structure InputImage where
  url : Option Str := none
  base64Data : Option Str := none
  mimeType : Str := []
  deriving DecidableEq, Repr

/-- `MessageInputPart`. -/
structure InputPart where
  type : Str := []
  text : Str := []
  image : Option InputImage := none
  deriving DecidableEq, Repr

/-- `ChatMessagePart`; of the image its URL. -/
structure ChatPart where
  type : Str := []
  text : Str := []
  imageURL : Option Str := none
  deriving DecidableEq, Repr

structure Message where
  role : Role := []
  content : Str := []
  reasoningContent : Str := []
  toolCalls : List ToolCall := []
  toolCallID : Str := []
  name : Str := []
  userInputMultiContent : List InputPart := []
  multiContent : List ChatPart := []
  deriving DecidableEq, Repr

def userMessage (content : Str) : Message := { role := roleUser, content }

def textItem (text : Str) : List (Str × Json.Value) :=
  if text = [] then [] else [(lit "text", .str text)]

/-- The map a part with an image becomes: data goes before a URL. -/
def InputImage.item (img : InputImage) : Json.Value :=
  match img.base64Data, img.url with
  | some data, _ =>
    .obj [(lit "url", .str (lit "data:" ++ img.mimeType ++ lit ";base64," ++ data))]
  | none, some url => .obj [(lit "url", .str url)]
  | none, none => .obj []

/-- The `map[string]any` of a part. -/
def InputPart.item (part : InputPart) : List (Str × Json.Value) :=
  (lit "type", .str part.type) :: textItem part.text ++
    (part.image.map (fun img => (lit "image_url", img.item))).toList

end Schema

/-- `toProtoMsg` on a pointer. -/
def toProtoMsg : Option Schema.Message → Option Message
  | none => none
  | some m => some {
      role := m.role
      content := m.content
      reasoningContent := m.reasoningContent
      toolCallID := m.toolCallID
      name := m.name
      multiContent := m.userInputMultiContent.map Schema.InputPart.item
      toolCalls := m.toolCalls.map (fun tc =>
        { id := tc.id, type := tc.type, name := tc.function.name,
          arguments := tc.function.arguments }) }

def toProtoMsgs (msgs : List (Option Schema.Message)) : Option (List Message) :=
  msgs.mapM toProtoMsg

def fromProtoResp (resp : Response) : Schema.Message :=
  { role := roleAssistant
    content := resp.content
    reasoningContent := resp.reasoningContent
    toolCalls := resp.toolCalls.map (fun tc =>
      { id := tc.id
        type := tc.type
        function := { name := tc.name, arguments := tc.arguments } }) }

/-! ## Nil messages -/

theorem isSome_mapM_pointers {α β : Type} {f : Option α → Option β}
    (hf : ∀ a, (f a).isSome = a.isSome) (l : List (Option α)) :
    (l.mapM f).isSome = true ↔ none ∉ l := by
  rw [isSome_mapM_iff]
  constructor
  · intro h hnone
    have := h none hnone
    rw [hf] at this
    cases this
  · intro h a ha
    rw [hf]
    cases a with
    | none => exact absurd ha h
    | some a => rfl

theorem isSome_toProtoMsgs_iff (msgs : List (Option Schema.Message)) :
    (toProtoMsgs msgs).isSome = true ↔ none ∉ msgs := by
  refine isSome_mapM_pointers ?_ msgs
  intro m
  cases m <;> rfl

end MiniGoAgent
