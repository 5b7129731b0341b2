/-
# `Protocol.Normalize` — repairing a conversation before it is sent (`normalize.go`)

A provider refuses a request whose tool calls and tool results do not match.
`normalizeMessages` repairs any history: it answers every call with exactly
one result, drops results nobody asked for, fills in missing names and closes
truncated argument JSON.  A history with nothing to repair takes the fast path
and is returned as it is.

The loops of the source walk a slice with an index `i` and jump to the end `j`
of the results behind an assistant turn.  Here a loop is a recursion on the
rest of the slice: `msgs[i+1:j]` is `takeWhile isTool` and the jump is
`dropWhile isTool`.
-/
import MiniGoAgent.Protocol.Types

open Go

namespace MiniGoAgent

/-- The content of a result that was never received. -/
def interruptedToolResult : Str :=
  lit "[no result: the previous turn was interrupted before this tool call completed]"

/-- `m.Role == RoleTool`. -/
def Message.isTool (m : Message) : Bool := m.role == roleTool

/-- `m.Role == RoleAssistant && len(m.ToolCalls) > 0`. -/
def Message.isTurn (m : Message) : Bool := m.role == roleAssistant && !m.toolCalls.isEmpty

/-! ## Argument repair -/

/-- `tc.Arguments != "" && !json.Valid([]byte(tc.Arguments))`. -/
def ToolCall.broken (tc : ToolCall) : Bool := tc.arguments ≠ [] && !Json.valid tc.arguments

def needsArgRepair (calls : List ToolCall) : Bool := calls.any ToolCall.broken

/-- The locals of the scanning loop of `closeTruncatedJSON`; `stack` holds the
closing brackets that are still owed, the innermost first. -/
structure CloseState where
  stack : Str := []
  inStr : Bool := false
  esc : Bool := false

/-- One byte of the scanning loop. -/
def closeStep (st : CloseState) (c : UInt8) : CloseState :=
  if st.inStr then
    if st.esc then { st with esc := false }
    else if c == byte '\\' then { st with esc := true }
    else if c == byte '"' then { st with inStr := false }
    else st
  else if c == byte '"' then { st with inStr := true }
  else if c == byte '{' then { st with stack := byte '}' :: st.stack }
  else if c == byte '[' then { st with stack := byte ']' :: st.stack }
  else if c == byte '}' || c == byte ']' then { st with stack := st.stack.tail }
  else st

/-- Ends a dangling separator: a comma is dropped, a colon gets a `null`. -/
def closeSeparator (out : Str) : Str :=
  let trimmed := trimRight out (lit " \t\r\n")
  if hasSuffix trimmed (lit ",") then trimmed.dropLast
  else if hasSuffix trimmed (lit ":") then trimmed ++ lit "null"
  else out

def closeTruncatedJSON (s : Str) : Str :=
  let st := s.foldl closeStep {}
  let out := if st.esc then s.dropLast else s
  let out := if st.inStr then out ++ lit "\"" else out
  let out := closeSeparator out ++ st.stack
  if Json.valid out then out else lit "\x7b\x7d"

/-- The repair of one call: `calls[i].Arguments` of the copying loop. -/
def ToolCall.repair (tc : ToolCall) : ToolCall :=
  if tc.broken then { tc with arguments := closeTruncatedJSON tc.arguments } else tc

def repairToolCallArgs (m : Message) : Message :=
  if needsArgRepair m.toolCalls then { m with toolCalls := m.toolCalls.map ToolCall.repair }
  else m

/-! ## Pairing calls and results -/

/-- The loop of `idDistinct`, with the IDs seen so far. -/
def idDistinctFrom (seen : List Str) : List ToolCall → Bool
  | [] => true
  | tc :: rest =>
    if tc.id == [] then false
    else if seen.contains tc.id then false
    else idDistinctFrom (tc.id :: seen) rest

def idDistinct (calls : List ToolCall) : Bool := idDistinctFrom [] calls

/-- A Go map filled by a loop over `l`: a later entry replaces an earlier one
of the same key. -/
def mapOf {α β : Type} (key : α → Str) (val : α → β) (l : List α) : Str → Option β :=
  l.foldl (fun m a => Function.update m (key a) (some (val a))) (fun _ => none)

/-- The result that stands for a call nobody answered. -/
def placeholder (tc : ToolCall) : Message :=
  { role := roleTool, toolCallID := tc.id, name := tc.name, content := interruptedToolResult }

/-- The first loop of `pairToolResults`: results by ID. -/
def pairByID (byID : Str → Option Message) (tc : ToolCall) : Message :=
  match byID tc.id with
  | some r => { r with name := tc.name }
  | none => placeholder tc

/-- The second loop of `pairToolResults`: results by position. -/
def pairByPosition : List ToolCall → List Message → List Message
  | [], _ => []
  | tc :: calls, [] => placeholder tc :: pairByPosition calls []
  | tc :: calls, r :: avail =>
    { r with toolCallID := tc.id, name := tc.name } :: pairByPosition calls avail

def pairToolResults (calls : List ToolCall) (avail : List Message) : List Message :=
  if idDistinct calls then calls.map (pairByID (mapOf (·.toolCallID) id avail))
  else pairByPosition calls avail

/-- The first loop of `backfillToolCallNames`: names by ID. -/
def backfillByID (byID : Str → Option Str) (tc : ToolCall) : ToolCall :=
  if tc.name == [] then
    match byID tc.id with
    | some n => { tc with name := n }
    | none => tc
  else tc

/-- The second loop of `backfillToolCallNames`: names by position. -/
def backfillByPosition : List ToolCall → List Message → List ToolCall
  | [], _ => []
  | tc :: calls, [] => tc :: backfillByPosition calls []
  | tc :: calls, r :: results =>
    (if tc.name == [] then { tc with name := r.name } else tc) ::
      backfillByPosition calls results

def backfillToolCallNames (calls : List ToolCall) (results : List Message) : List ToolCall :=
  if calls.any (fun c => c.name == []) then
    if idDistinct calls then
      calls.map (backfillByID
        (mapOf (·.toolCallID) (·.name) (results.filter (fun r => r.name ≠ []))))
    else backfillByPosition calls results
  else calls

/-! ## The fast path -/

/-- The second loop of `toolTurnWellFormed`; the lengths agree by then. -/
def answersMatch : List ToolCall → List Message → Bool
  | tc :: calls, r :: results =>
    r.toolCallID == tc.id && r.name == tc.name && answersMatch calls results
  | _, _ => true

def toolTurnWellFormed (calls : List ToolCall) (results : List Message) : Bool :=
  calls.length == results.length &&
    calls.all (fun tc => !(tc.name == [] || tc.id == [])) && answersMatch calls results

theorem length_dropWhile_le {α : Type} (p : α → Bool) (l : List α) :
    (l.dropWhile p).length ≤ l.length :=
  (List.dropWhile_suffix p).length_le

/-- `tryFastPath`: whether the loop runs through. -/
def tryFastPath : List Message → Bool
  | [] => true
  | m :: rest =>
    if m.isTurn then
      if !toolTurnWellFormed m.toolCalls (rest.takeWhile Message.isTool) ||
          needsArgRepair m.toolCalls then false
      else tryFastPath (rest.dropWhile Message.isTool)
    else if m.isTool then false
    else tryFastPath rest
termination_by msgs => msgs.length
decreasing_by
  · have := length_dropWhile_le Message.isTool rest
    simp only [List.length_cons]; omega
  · simp

/-! ## The repairing loop -/

/-- The loop of `NormalizeMessages`. -/
def normalizeLoop : List Message → List Message
  | [] => []
  | m :: rest =>
    if m.isTurn then
      let results := rest.takeWhile Message.isTool
      let calls := backfillToolCallNames m.toolCalls results
      repairToolCallArgs { m with toolCalls := calls } ::
        (pairToolResults calls results ++ normalizeLoop (rest.dropWhile Message.isTool))
    else if m.isTool then normalizeLoop rest
    else m :: normalizeLoop rest
termination_by msgs => msgs.length
decreasing_by
  · have := length_dropWhile_le Message.isTool rest
    simp only [List.length_cons]; omega
  · simp
  · simp

def normalizeMessages (msgs : List Message) : List Message :=
  if tryFastPath msgs then msgs else normalizeLoop msgs

end MiniGoAgent
