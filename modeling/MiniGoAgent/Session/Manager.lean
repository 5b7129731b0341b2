/-
# `Session.Manager` — the histories of the sessions (`internal/session`)

A history is a slice of pointers, so its entries may be nil; nothing in
`Append` keeps a nil message out, and `SnapshotWith` hands it on.  Where it is
followed — by `toHistoryMsg` when the histories are saved, by `toProtoMsg` in the
next request — the source panics, which is `none` here.

The maps are `AList`s: the keys of one are distinct by construction, and the order
of the entries is of no consequence.  Every method holds the lock from its first
line to its last, so each is one step; `now` is what `time.Now` gives it.

The file of `Save` and `Load` is the value that `json.Marshal` is applied to; its text
is the matter of `Session.HistoryText`.
-/
import Mathlib.Data.List.AList
import MiniGoAgent.Adk.Schema
import MiniGoAgent.Go.Map

open Go

namespace MiniGoAgent

/-- `[]*schema.Message`. -/
abbrev History := List (Option Schema.Message)

abbrev Sessions := AList (fun _ : Str => History)

/-! ## The format of the file -/

structure HistoryToolCall where
  id : Str := []
  type : Str := []
  name : Str := []
  arguments : Str := []
  deriving DecidableEq, Repr

structure HistoryMessage where
  role : Str := []
  content : Str := []
  reasoningContent : Str := []
  toolCalls : List HistoryToolCall := []
  toolCallID : Str := []
  name : Str := []
  multiContent : List (List (Str × Json.Value)) := []

/-- The `map[string]any` of a part in `chatMessagePartsToMaps`. -/
def Schema.ChatPart.item (part : Schema.ChatPart) : List (Str × Json.Value) :=
  (lit "type", .str part.type) :: Schema.textItem part.text ++
    (part.imageURL.map (fun url => (lit "image_url", .obj [(lit "url", .str url)]))).toList

/-- `toHistoryMsg` on a pointer. -/
def toHistoryMsg : Option Schema.Message → Option HistoryMessage
  | none => none
  | some m => some {
      role := m.role
      content := m.content
      reasoningContent := m.reasoningContent
      toolCallID := m.toolCallID
      name := m.name
      multiContent :=
        if m.userInputMultiContent ≠ [] then m.userInputMultiContent.map Schema.InputPart.item
        else m.multiContent.map Schema.ChatPart.item
      toolCalls := m.toolCalls.map (fun tc =>
        { id := tc.id, type := tc.type, name := tc.function.name,
          arguments := tc.function.arguments }) }

/-- `item[key].(string)`. -/
def stringAt (item : List (Str × Json.Value)) (key : Str) : Option Str :=
  match item.lookup key with
  | some (.str s) => some s
  | _ => none

def toEinoPart (item : List (Str × Json.Value)) : Schema.InputPart where
  type := (stringAt item (lit "type")).getD []
  text := (stringAt item (lit "text")).getD []
  image :=
    match item.lookup (lit "image_url") with
    | some (.obj img) => some { url := some ((stringAt img (lit "url")).getD []) }
    | _ => none

def fromHistoryMsg (hm : HistoryMessage) : Schema.Message where
  role := hm.role
  content := hm.content
  reasoningContent := hm.reasoningContent
  toolCallID := hm.toolCallID
  name := hm.name
  userInputMultiContent := hm.multiContent.map toEinoPart
  toolCalls := hm.toolCalls.map (fun tc =>
    { id := tc.id, type := tc.type, function := { name := tc.name, arguments := tc.arguments } })

abbrev HistoryFile := List (Str × List HistoryMessage)

def marshal (sessions : Sessions) : Option HistoryFile :=
  sessions.entries.mapM (fun e => (e.2.mapM toHistoryMsg).map (fun hmsgs => (e.1, hmsgs)))

/-- `Unmarshal`. -/
def unmarshalHistory (file : HistoryFile) : List (Str × History) :=
  file.map (fun e => (e.1, e.2.map (fun hm => some (fromHistoryMsg hm))))

/-! ## The manager -/

structure Manager where
  sessions : Sessions := ∅
  lastAccess : AList (fun _ : Str => Int) := ∅
  defaultSession : Str

def newManager (defaultSession : Str) : Manager where
  defaultSession := if defaultSession = [] then lit "default" else defaultSession

namespace Manager

/-- `m.sessions[sid]`. -/
def history (m : Manager) (sid : Str) : History := (m.sessions.lookup sid).getD []

def snapshotWith (m : Manager) (now : Int) (sid : Str) (extra : History) :
    Manager × History :=
  ({ m with lastAccess := m.lastAccess.insert sid now }, m.history sid ++ extra)

def append (m : Manager) (now : Int) (sid : Str) (msgs : History) : Manager :=
  { m with
    sessions := m.sessions.insert sid (m.history sid ++ msgs)
    lastAccess := m.lastAccess.insert sid now }

def count (m : Manager) : Nat := m.sessions.entries.length

/-- The sessions `Cleanup` removes. -/
def expired (m : Manager) (now maxAge : Int) : List Str :=
  (m.lastAccess.entries.filter (fun e => decide (maxAge < now - e.2))).map Sigma.fst

/-- `Cleanup`, with the number it returns. -/
def cleanup (m : Manager) (now maxAge : Int) : Manager × Nat :=
  let gone := m.expired now maxAge
  ({ m with
      sessions := gone.foldl (fun s sid => s.erase sid) m.sessions
      lastAccess := gone.foldl (fun s sid => s.erase sid) m.lastAccess },
    gone.length)

/-- `Save`: what is written, if anything is. -/
def save (m : Manager) : Option (Option HistoryFile) :=
  if m.sessions.entries = [] then some none else (marshal m.sessions).map some

/-- `Load` of a file that can be read, with the number it returns. -/
def load (m : Manager) (file : HistoryFile) : Manager × Nat :=
  ({ m with
      sessions := (unmarshalHistory file).foldl (fun s e => s.insert e.1 e.2) m.sessions },
    file.length)

/-! ## Histories -/

variable (m : Manager)

theorem history_snapshotWith (now : Int) (sid : Str) (extra : History) (k : Str) :
    (m.snapshotWith now sid extra).1.history k = m.history k := rfl

theorem history_append_self (now : Int) (sid : Str) (msgs : History) :
    (m.append now sid msgs).history sid = m.history sid ++ msgs := by
  show ((m.sessions.insert sid (m.history sid ++ msgs)).lookup sid).getD [] = _
  rw [AList.lookup_insert]
  rfl

theorem history_append_of_ne (now : Int) {sid k : Str} (h : k ≠ sid) (msgs : History) :
    (m.append now sid msgs).history k = m.history k := by
  show ((m.sessions.insert sid (m.history sid ++ msgs)).lookup k).getD [] = _
  rw [AList.lookup_insert_ne h]
  rfl

theorem history_cleanup (now maxAge : Int) (k : Str) :
    (m.cleanup now maxAge).1.history k = m.history k ∨
      (m.cleanup now maxAge).1.history k = [] := by
  have hlookup : (m.cleanup now maxAge).1.sessions.lookup k =
      if k ∈ m.expired now maxAge then none else m.sessions.lookup k :=
    lookup_eraseAll (m.expired now maxAge) m.sessions k
  by_cases hk : k ∈ m.expired now maxAge
  · rw [if_pos hk] at hlookup
    exact Or.inr (congrArg (fun o => o.getD []) hlookup)
  · rw [if_neg hk] at hlookup
    exact Or.inl (congrArg (fun o => o.getD []) hlookup)

theorem history_load (file : HistoryFile) (k : Str) :
    (m.load file).1.history k = m.history k ∨
      ∃ e ∈ unmarshalHistory file, (m.load file).1.history k = e.2 := by
  rcases lookup_insertAll (unmarshalHistory file) m.sessions k with h | ⟨e, he, h⟩
  · exact Or.inl (congrArg (fun o => o.getD []) h)
  · exact Or.inr ⟨e, he, congrArg (fun o => o.getD []) h⟩

end Manager

/-! ## Nil messages -/

def Manager.NilFree (m : Manager) : Prop := ∀ sid, none ∉ m.history sid

theorem isSome_marshal_iff (m : Manager) : (marshal m.sessions).isSome = true ↔ m.NilFree := by
  have hentry : ∀ msgs : History,
      (msgs.mapM toHistoryMsg).isSome = true ↔ none ∉ msgs := by
    refine isSome_mapM_pointers ?_
    intro m
    cases m <;> rfl
  rw [marshal, isSome_mapM_iff]
  constructor
  · intro h sid
    rcases Option.eq_none_or_eq_some (m.sessions.lookup sid) with hl | ⟨msgs, hl⟩
    · rw [Manager.history, hl]
      exact List.not_mem_nil
    · have he := h ⟨sid, msgs⟩ (AList.mem_lookup_iff.mp hl)
      rw [Option.isSome_map, hentry] at he
      rw [Manager.history, hl]
      exact he
  · rintro h ⟨sid, msgs⟩ he
    have hl : m.sessions.lookup sid = some msgs := AList.mem_lookup_iff.mpr he
    have hnone := h sid
    rw [Manager.history, hl] at hnone
    rw [Option.isSome_map, hentry]
    exact hnone

theorem none_notMem_unmarshalHistory {file : HistoryFile} {e : Str × History}
    (h : e ∈ unmarshalHistory file) : none ∉ e.2 := by
  obtain ⟨e', _, rfl⟩ := List.mem_map.mp h
  intro hnone
  obtain ⟨hm, _, hhm⟩ := List.mem_map.mp hnone
  cases hhm

/-! ## Parts of a message, there and back -/

namespace Schema

def InputImage.Carries (img : InputImage) : Prop := img.url ≠ none ∨ img.base64Data ≠ none

/-- The address an image goes by in the map of its part. -/
def InputImage.address (img : InputImage) : Str :=
  match img.base64Data, img.url with
  | some data, _ => lit "data:" ++ img.mimeType ++ lit ";base64," ++ data
  | none, some url => url
  | none, none => []

theorem InputImage.item_eq {img : InputImage} (h : img.Carries) :
    img.item = .obj [(lit "url", .str img.address)] := by
  obtain ⟨url, base64Data, mimeType⟩ := img
  cases base64Data with
  | some data => rfl
  | none =>
    cases url with
    | some url => rfl
    | none => exact h.elim (absurd rfl) (absurd rfl)

/-- The images of the part carry a URL or data. -/
def InputPart.Carries (part : InputPart) : Prop := ∀ img ∈ part.image, img.Carries

/-- The part with the address of its image in place of the image. -/
def InputPart.addressed (part : InputPart) : InputPart :=
  { part with image := part.image.map (fun img => { url := some img.address }) }

theorem InputPart.item_addressed {part : InputPart} (h : part.Carries) :
    part.addressed.item = part.item := by
  obtain ⟨type, text, image⟩ := part
  cases image with
  | none => rfl
  | some img =>
    have himg : img.item = .obj [(lit "url", .str img.address)] := InputImage.item_eq (h img rfl)
    simp only [InputPart.item, InputPart.addressed, Option.map_some, himg]
    rfl

/-- The image parts of the message carry a URL or data. -/
def Message.Carries (m : Message) : Prop := ∀ part ∈ m.userInputMultiContent, part.Carries

end Schema

theorem toEinoPart_item {part : Schema.InputPart} (h : part.Carries) :
    toEinoPart part.item = part.addressed := by
  obtain ⟨type, text, image⟩ := part
  obtain ⟨htext, himage, hboth, hback⟩ :
      (lit "text" == lit "type") = false ∧ (lit "image_url" == lit "type") = false ∧
        (lit "image_url" == lit "text") = false ∧ (lit "text" == lit "image_url") = false := by
    decide
  cases image with
  | none =>
    by_cases ht : text = []
    · simp [toEinoPart, Schema.InputPart.item, Schema.InputPart.addressed, stringAt,
        Schema.textItem, List.lookup_cons, ht, htext, himage]
    · simp [toEinoPart, Schema.InputPart.item, Schema.InputPart.addressed, stringAt,
        Schema.textItem, List.lookup_cons, ht, htext, himage, hboth]
  | some img =>
    have himg := Schema.InputImage.item_eq (h img rfl)
    by_cases ht : text = []
    · simp [toEinoPart, Schema.InputPart.item, Schema.InputPart.addressed, stringAt,
        Schema.textItem, List.lookup_cons, ht, htext, himage, hback, himg]
    · simp [toEinoPart, Schema.InputPart.item, Schema.InputPart.addressed, stringAt,
        Schema.textItem, List.lookup_cons, ht, htext, himage, hboth, himg]

theorem map_toEinoPart_item {parts : List Schema.InputPart} (h : ∀ part ∈ parts, part.Carries) :
    (parts.map Schema.InputPart.item).map toEinoPart =
      parts.map Schema.InputPart.addressed := by
  rw [List.map_map]
  refine List.map_congr_left ?_
  intro part hpart
  exact toEinoPart_item (h part hpart)

theorem map_item_addressed {parts : List Schema.InputPart} (h : ∀ part ∈ parts, part.Carries) :
    (parts.map Schema.InputPart.addressed).map Schema.InputPart.item =
      parts.map Schema.InputPart.item := by
  rw [List.map_map]
  refine List.map_congr_left ?_
  intro part hpart
  exact Schema.InputPart.item_addressed (h part hpart)

end MiniGoAgent
