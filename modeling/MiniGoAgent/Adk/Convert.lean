/-
# `Adk.Convert` — messages between the agent kit and eino (`internal/adk/convert`)

One message is written in four types on its way: eino's, the kit's, the history
file's and the protocol's, and each pair of neighbours has its own pair of
converters.  The parts of a multi-part message go through an untyped map in three
of them, by three copies of the same lines; the copies are `InputPart.item` and
`toEinoPart` here, under the name of each.

What the provider is sent is the protocol's message.  It is the same whether an
eino message goes to it directly, through the kit or through the history file
(`toProtoMsg_hops`).
-/
import MiniGoAgent.Adk.Types
import MiniGoAgent.Session.Manager

open Go

namespace MiniGoAgent

namespace Convert

def toEinoMultiContent (mc : List (List (Str × Json.Value))) : List Schema.InputPart :=
  mc.map toEinoPart

def fromEinoMultiContent (mc : List Schema.InputPart) : List (List (Str × Json.Value)) :=
  mc.map Schema.InputPart.item

/-- `ToEino` on a pointer. -/
def toEino : Option Adk.Message → Option Schema.Message
  | none => none
  | some m => some {
      role := m.role
      content := m.content
      reasoningContent := m.reasoningContent
      toolCallID := m.toolCallID
      name := m.name
      userInputMultiContent :=
        if m.multiContent ≠ [] then toEinoMultiContent m.multiContent else []
      toolCalls := m.toolCalls.map (fun tc =>
        { id := tc.id, type := tc.type,
          function := { name := tc.name, arguments := tc.arguments } }) }

/-- `FromEino` on a pointer. -/
def fromEino : Option Schema.Message → Option Adk.Message
  | none => none
  | some m => some {
      role := m.role
      content := m.content
      reasoningContent := m.reasoningContent
      toolCallID := m.toolCallID
      name := m.name
      multiContent :=
        if m.userInputMultiContent ≠ [] then fromEinoMultiContent m.userInputMultiContent else []
      toolCalls := m.toolCalls.map (fun tc =>
        { id := tc.id, type := tc.type, name := tc.function.name,
          arguments := tc.function.arguments }) }

/-! ## The two hops -/

theorem ite_ne_nil_map {α β : Type} (f : α → β) (l : List α) :
    (if l ≠ [] then l.map f else []) = l.map f := by
  cases l <;> rfl

variable {m : Schema.Message}

theorem toEino_fromEino (h : m.Carries) :
    toEino (fromEino (some m)) = some { m with
      userInputMultiContent := m.userInputMultiContent.map Schema.InputPart.addressed
      multiContent := [] } := by
  simp only [fromEino, toEino, fromEinoMultiContent, toEinoMultiContent, ite_ne_nil_map]
  simp only [map_toEinoPart_item h, List.map_map]
  congr
  exact List.map_id _

theorem fromHistoryMsg_toHistoryMsg (h : m.Carries) (hchat : m.multiContent = []) :
    (toHistoryMsg (some m)).map fromHistoryMsg = some { m with
      userInputMultiContent := m.userInputMultiContent.map Schema.InputPart.addressed } := by
  simp only [toHistoryMsg, fromHistoryMsg, Option.map_some, hchat, List.map_nil, ite_ne_nil_map,
    map_toEinoPart_item h, List.map_map]
  congr
  exact List.map_id _

theorem toProtoMsg_addressed (h : m.Carries) (chat : List Schema.ChatPart) :
    toProtoMsg (some { m with
      userInputMultiContent := m.userInputMultiContent.map Schema.InputPart.addressed
      multiContent := chat }) = toProtoMsg (some m) := by
  simp only [toProtoMsg, map_item_addressed h]

/-- The hops through the agent runtime cannot be told by the provider: a message that
went to the kit and back is sent as it would have been, and so is one that went
through the history format, if it has no parts of the deprecated kind. -/
theorem toProtoMsg_hops (m : Schema.Message) (h : m.Carries) :
    toProtoMsg (toEino (fromEino (some m))) = toProtoMsg (some m) ∧
      (m.multiContent = [] →
        toProtoMsg ((toHistoryMsg (some m)).map fromHistoryMsg) = toProtoMsg (some m)) := by
  constructor
  · rw [toEino_fromEino h]
    exact toProtoMsg_addressed h []
  · intro hchat
    rw [fromHistoryMsg_toHistoryMsg h hchat]
    exact toProtoMsg_addressed h m.multiContent

/-- A question with a picture, once by data and once by its address. -/
def pictured : Schema.Message where
  role := roleUser
  userInputMultiContent :=
    [{ type := lit "text", text := lit "which one?" },
     { type := lit "image_url",
       image := some { base64Data := some (lit "aGk="), mimeType := lit "image/png" } },
     { type := lit "image_url", image := some { url := some (lit "https://x/y.png") } }]

theorem carries_pictured : pictured.Carries := by
  intro part hpart img himg
  rcases List.mem_cons.mp hpart with rfl | hpart
  · cases himg
  rcases List.mem_cons.mp hpart with rfl | hpart
  · cases himg
    exact Or.inr (by simp)
  · obtain rfl := List.mem_singleton.mp hpart
    cases himg
    exact Or.inl (by simp)

theorem toProtoMsg_hops_pictured :
    toProtoMsg (toEino (fromEino (some pictured))) = toProtoMsg (some pictured) ∧
      toProtoMsg ((toHistoryMsg (some pictured)).map fromHistoryMsg) =
        toProtoMsg (some pictured) :=
  ⟨(toProtoMsg_hops pictured carries_pictured).1,
    (toProtoMsg_hops pictured carries_pictured).2 rfl⟩

end Convert

end MiniGoAgent
