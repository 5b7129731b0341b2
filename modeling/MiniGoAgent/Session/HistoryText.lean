/-
# `Session.HistoryText` — the history file, written and read again

`Marshal` turns the messages into records (`toHistoryMsg`) and hands them to
`json.Marshal`; `Unmarshal` reads records from the text and turns them back
(`fromHistoryMsg`).  The strings come back as UTF-8, and the maps that stand for the parts
of a message come back with their keys in order.

A part is in the file with its type, its text and the URL of its image (`HistoryPart`);
data is there as a `data:` URL.
-/
import Mathlib.Data.List.ReduceOption
import MiniGoAgent.Go.JsonTarget
import MiniGoAgent.Session.Manager

open Go

namespace MiniGoAgent

open Json (Value NumberFormat Decoder field findField decodeStruct decodeString decodeSlice
  decodeMap decodeAny omitEmpty sortMembers lastOfKey)

variable {m : Str × Value} {s : Sessions}

/-! ## The records as JSON -/

def HistoryToolCall.value (tc : HistoryToolCall) : Value :=
  .obj [(lit "id", .str tc.id), (lit "type", .str tc.type), (lit "name", .str tc.name),
    (lit "arguments", .str tc.arguments)]

def HistoryMessage.value (hm : HistoryMessage) : Value :=
  .obj ((lit "role", .str hm.role) :: (lit "content", .str hm.content) ::
    (omitEmpty "reasoning_content" hm.reasoningContent (.str hm.reasoningContent) ++
    (omitEmpty "tool_calls" hm.toolCalls (.arr (hm.toolCalls.map HistoryToolCall.value)) ++
    (omitEmpty "tool_call_id" hm.toolCallID (.str hm.toolCallID) ++
    (omitEmpty "name" hm.name (.str hm.name) ++
    (omitEmpty "multi_content" hm.multiContent
      (.arr (hm.multiContent.map (fun item => (Value.obj item).sorted))) ++ []))))))

/-- The map of the sessions: its keys are written in order. -/
def HistoryFile.value (file : HistoryFile) : Value :=
  .obj (sortMembers (file.map (fun e => (e.1, .arr (e.2.map HistoryMessage.value)))))

def HistoryFile.text (file : HistoryFile) : Str := (HistoryFile.value file).print

def HistoryToolCall.fields : List (Json.Field HistoryToolCall) :=
  [field "id" decodeString (·.id) (fun t v => { t with id := v }),
   field "type" decodeString (·.type) (fun t v => { t with type := v }),
   field "name" decodeString (·.name) (fun t v => { t with name := v }),
   field "arguments" decodeString (·.arguments) (fun t v => { t with arguments := v })]

def HistoryToolCall.decode : Decoder HistoryToolCall := decodeStruct HistoryToolCall.fields

section Decoding

variable (num : NumberFormat)

/-- `map[string]any`. -/
def decodeItem : Decoder (List (Str × Value)) := decodeMap .null (decodeAny num)

def HistoryMessage.fields : List (Json.Field HistoryMessage) :=
  [field "role" decodeString (·.role) (fun t v => { t with role := v }),
   field "content" decodeString (·.content) (fun t v => { t with content := v }),
   field "reasoning_content" decodeString (·.reasoningContent)
     (fun t v => { t with reasoningContent := v }),
   field "tool_calls" (decodeSlice {} HistoryToolCall.decode) (·.toolCalls)
     (fun t v => { t with toolCalls := v }),
   field "tool_call_id" decodeString (·.toolCallID) (fun t v => { t with toolCallID := v }),
   field "name" decodeString (·.name) (fun t v => { t with name := v }),
   field "multi_content" (decodeSlice [] (decodeItem num)) (·.multiContent)
     (fun t v => { t with multiContent := v })]

def HistoryMessage.decode : Decoder HistoryMessage := decodeStruct (HistoryMessage.fields num)

def HistoryFile.decode : Decoder HistoryFile :=
  decodeMap [] (decodeSlice {} (HistoryMessage.decode num))

/-- `Marshal`, the text: `none` is the panic on a nil message. -/
def marshalText (sessions : Sessions) : Option Str :=
  (marshal sessions).map HistoryFile.text

/-- `Unmarshal`, of a text: `none` is an error. -/
def unmarshalText (text : Str) : Option Sessions :=
  (Json.unmarshal [] (HistoryFile.decode num) text).map
    (fun file => insertAll (unmarshalHistory file) ∅)

end Decoding

/-! ## Parts -/

/-- A part as it is in the file; an image may have no URL. -/
structure HistoryPart where
  type : Str
  text : Str
  image : Option (Option Str)

namespace HistoryPart

def imageItem (p : HistoryPart) : List (Str × Value) :=
  (p.image.map (fun url =>
    (lit "image_url", Value.obj (url.map (fun u => (lit "url", Value.str u))).toList))).toList

def item (p : HistoryPart) : List (Str × Value) :=
  (lit "type", .str p.type) :: Schema.textItem p.text ++ p.imageItem

def sortedItem (p : HistoryPart) : List (Str × Value) :=
  p.imageItem ++ (Schema.textItem p.text ++ [(lit "type", .str p.type)])

def utf8 (p : HistoryPart) : HistoryPart where
  type := toValid p.type
  text := toValid p.text
  image := p.image.map (fun url => url.map toValid)

def toInput (p : HistoryPart) : Schema.InputPart where
  type := p.type
  text := p.text
  image := p.image.map (fun url => { url := some (url.getD []) })

end HistoryPart

namespace Schema

/-- The URL an image has in the file. -/
def InputImage.link (img : InputImage) : Option Str :=
  match img.base64Data with
  | some data => some (lit "data:" ++ img.mimeType ++ lit ";base64," ++ data)
  | none => img.url

def InputPart.toHistory (part : InputPart) : HistoryPart where
  type := part.type
  text := part.text
  image := part.image.map InputImage.link

def ChatPart.toHistory (part : ChatPart) : HistoryPart where
  type := part.type
  text := part.text
  image := part.imageURL.map some

theorem InputPart.item_toHistory (part : InputPart) : part.toHistory.item = part.item := by
  obtain ⟨type, text, image⟩ := part
  cases image with
  | none => rfl
  | some img =>
    obtain ⟨url, base64Data, mimeType⟩ := img
    cases base64Data with
    | some data => rfl
    | none => cases url <;> rfl

theorem ChatPart.item_toHistory (part : ChatPart) : part.toHistory.item = part.item := by
  obtain ⟨type, text, imageURL⟩ := part
  cases imageURL <;> rfl

def Message.historyParts (m : Message) : List HistoryPart :=
  if m.userInputMultiContent ≠ [] then m.userInputMultiContent.map InputPart.toHistory
  else m.multiContent.map ChatPart.toHistory

end Schema

namespace HistoryPart

variable (p : HistoryPart)

theorem toValid_key : ∀ key ∈ [lit "image_url", lit "url", lit "text", lit "type"],
    toValid key = key := by
  decide +kernel

theorem keys_sortedItem :
    (p.sortedItem.map Prod.fst).Sublist [lit "image_url", lit "text", lit "type"] := by
  have himage : (p.imageItem.map Prod.fst).Sublist [lit "image_url"] := by
    rw [imageItem]
    cases p.image with
    | none => exact List.nil_sublist _
    | some url => exact List.Sublist.refl _
  have htext : ((Schema.textItem p.text).map Prod.fst).Sublist [lit "text"] := by
    rw [Schema.textItem]
    split
    · exact List.nil_sublist _
    · exact List.Sublist.refl _
  rw [sortedItem, List.map_append, List.map_append]
  exact himage.append (htext.append (List.Sublist.refl _))

theorem pairwise_keys_sortedItem : (p.sortedItem.map Prod.fst).Pairwise (· < ·) := by
  have hkeys : [lit "image_url", lit "text", lit "type"].Pairwise (· < ·) := by decide
  exact hkeys.sublist p.keys_sortedItem

theorem mem_sortedItem (h : m ∈ p.sortedItem) :
    (∃ url : Option Str, m.2 = .obj (url.map (fun u => (lit "url", Value.str u))).toList) ∨
      ∃ s, m.2 = .str s := by
  rw [sortedItem, List.mem_append, List.mem_append, List.mem_singleton] at h
  rcases h with h | h | rfl
  · rw [imageItem, Option.mem_toList] at h
    obtain ⟨url, -, rfl⟩ := Option.map_eq_some_iff.mp h
    exact Or.inl ⟨url, rfl⟩
  · rw [Schema.textItem] at h
    split at h
    · cases h
    · rw [List.mem_singleton.mp h]
      exact Or.inr ⟨p.text, rfl⟩
  · exact Or.inr ⟨p.type, rfl⟩

theorem decodeAny_value (num : NumberFormat) (h : m ∈ p.sortedItem) :
    Json.renumber num m.2 = some m.2 ∧ m.2.sorted = m.2 := by
  rcases p.mem_sortedItem h with ⟨url, heq⟩ | ⟨s, heq⟩
  · rw [heq]
    cases url <;> exact ⟨rfl, rfl⟩
  · rw [heq]
    exact ⟨rfl, rfl⟩

theorem fits_value (h : m ∈ p.sortedItem) : m.2.Fits 1 := by
  rcases p.mem_sortedItem h with ⟨url, heq⟩ | ⟨s, heq⟩
  · rw [heq]
    refine Json.fits_obj ?_
    intro member hmember
    obtain ⟨u, -, rfl⟩ := Option.map_eq_some_iff.mp (Option.mem_toList.mp hmember)
    exact Json.fits_str 0 u
  · rw [heq]
    exact Json.fits_str 1 s

theorem item_perm_sortedItem : p.item.Perm p.sortedItem := by
  have hfront : p.item.Perm (p.imageItem ++
      ((lit "type", .str p.type) :: Schema.textItem p.text)) :=
    List.perm_append_comm
  refine hfront.trans (List.Perm.append_left _ ?_)
  exact (List.perm_append_singleton _ _).symm

theorem sorted_item : (Value.obj p.item).sorted = .obj p.sortedItem := by
  refine Json.sorted_obj ?_ p.item_perm_sortedItem p.pairwise_keys_sortedItem
  intro m hm
  exact (p.decodeAny_value NumberFormat.same (p.item_perm_sortedItem.mem_iff.mp hm)).2

theorem sorted_sortedItem : (Value.obj p.sortedItem).sorted = .obj p.sortedItem := by
  refine Json.sorted_obj ?_ (List.Perm.refl _) p.pairwise_keys_sortedItem
  intro m hm
  exact (p.decodeAny_value NumberFormat.same hm).2

theorem decodeItem_sortedItem (num : NumberFormat) :
    decodeItem num [] (.obj p.sortedItem) = some p.sortedItem := by
  have hread : ∀ m ∈ p.sortedItem, decodeAny num .null m.2 = some m.2 := by
    intro m hm
    obtain ⟨hnum, hsorted⟩ := p.decodeAny_value num hm
    rw [decodeAny, hnum, Option.map_some, hsorted]
  have hnodup := Json.nodup_of_increasing p.pairwise_keys_sortedItem
  have hmap := Json.decodeMap_map Prod.fst hread
  rw [List.map_id'' (fun _ => rfl), Json.lastOfKey_of_nodup hnodup] at hmap
  exact hmap

theorem utf8_sortedItem : (Value.obj p.sortedItem).utf8 = .obj p.utf8.sortedItem := by
  have hkeys := toValid_key
  simp only [List.forall_mem_cons, List.not_mem_nil, false_implies, implies_true, and_true] at hkeys
  obtain ⟨himage, hurl, htext, htype⟩ := hkeys
  have himages : p.imageItem.map (fun m => (toValid m.1, m.2.utf8)) = p.utf8.imageItem := by
    rw [imageItem, imageItem, utf8]
    cases p.image with
    | none => rfl
    | some url => cases url <;> simp [Value.utf8, Json.utf8Members, himage, hurl]
  have htexts : (Schema.textItem p.text).map (fun m => (toValid m.1, m.2.utf8)) =
      Schema.textItem p.utf8.text := by
    rw [Schema.textItem, Schema.textItem, utf8]
    by_cases hempty : p.text = []
    · simp [hempty, toValid_eq_nil]
    · simp [hempty, toValid_eq_nil, Value.utf8, htext]
  rw [Value.utf8, Json.utf8Members_eq_map, sortedItem, List.map_append, List.map_append, himages,
    htexts]
  simp [sortedItem, utf8, Value.utf8, htype]

theorem utf8_eq {p : HistoryPart} (htype : utf8Valid p.type = true)
    (htext : utf8Valid p.text = true)
    (himage : p.image.map (fun url => url.map toValid) = p.image) : p.utf8 = p := by
  rw [utf8, toValid_of_utf8Valid htype, toValid_of_utf8Valid htext, himage]

theorem toEinoPart_sortedItem : toEinoPart p.sortedItem = p.toInput := by
  obtain ⟨hti, hxi, htx, hit, hix, hxt⟩ :
      (lit "type" == lit "image_url") = false ∧ (lit "text" == lit "image_url") = false ∧
        (lit "type" == lit "text") = false ∧ (lit "image_url" == lit "type") = false ∧
        (lit "image_url" == lit "text") = false ∧ (lit "text" == lit "type") = false := by
    decide
  have hlookup : ∀ key, p.sortedItem.lookup key = (p.imageItem.lookup key).or
      (((Schema.textItem p.text).lookup key).or (List.lookup key [(lit "type", .str p.type)])) := by
    intro key
    rw [sortedItem, List.lookup_append, List.lookup_append]
  obtain ⟨type, text, image⟩ := p
  simp only [toEinoPart, stringAt, hlookup, toInput, imageItem, Schema.textItem]
  rcases image with _ | _ | url <;> by_cases hempty : text = [] <;>
    simp [List.lookup_cons, hempty, hti, hxi, htx, hit, hix, hxt]

end HistoryPart

/-! ## Messages -/

def Schema.Message.record (m : Schema.Message) : HistoryMessage := (toHistoryMsg (some m)).getD {}

theorem toHistoryMsg_some (m : Schema.Message) : toHistoryMsg (some m) = some m.record := rfl

theorem multiContent_record (m : Schema.Message) :
    m.record.multiContent = m.historyParts.map HistoryPart.item := by
  show (if m.userInputMultiContent ≠ [] then m.userInputMultiContent.map Schema.InputPart.item
    else m.multiContent.map Schema.ChatPart.item) = _
  rw [Schema.Message.historyParts]
  split
  · rw [List.map_map]
    refine List.map_congr_left ?_
    intro part _
    exact part.item_toHistory.symm
  · rw [List.map_map]
    refine List.map_congr_left ?_
    intro part _
    exact part.item_toHistory.symm

def HistoryToolCall.utf8 (tc : HistoryToolCall) : HistoryToolCall where
  id := toValid tc.id
  type := toValid tc.type
  name := toValid tc.name
  arguments := toValid tc.arguments

def Schema.Message.reread (m : Schema.Message) : HistoryMessage where
  role := toValid m.record.role
  content := toValid m.record.content
  reasoningContent := toValid m.record.reasoningContent
  toolCalls := m.record.toolCalls.map HistoryToolCall.utf8
  toolCallID := toValid m.record.toolCallID
  name := toValid m.record.name
  multiContent := m.historyParts.map (fun p => p.utf8.sortedItem)

theorem toValid_name : ∀ name ∈ ["id", "type", "name", "arguments", "role", "content",
    "reasoning_content", "tool_calls", "tool_call_id", "multi_content"],
    toValid (lit name) = lit name := by
  decide +kernel

theorem HistoryToolCall.value_utf8 (tc : HistoryToolCall) : tc.value.utf8 = tc.utf8.value := by
  have hnames := toValid_name
  simp only [List.forall_mem_cons, List.not_mem_nil, false_implies, implies_true,
    and_true] at hnames
  simp [HistoryToolCall.value, HistoryToolCall.utf8, Value.utf8, Json.utf8Members, hnames]

theorem value_record_utf8 (m : Schema.Message) : m.record.value.utf8 = m.reread.value := by
  have hnames := toValid_name
  simp only [List.forall_mem_cons, List.not_mem_nil, false_implies, implies_true,
    and_true] at hnames
  obtain ⟨-, -, hname, -, hrole, hcontent, hreasoning, hcalls, hcallID, hmulti⟩ := hnames
  have hcallsValue : (Value.arr (m.record.toolCalls.map HistoryToolCall.value)).utf8 =
      .arr (m.reread.toolCalls.map HistoryToolCall.value) := by
    rw [Value.utf8, Json.utf8Elements_eq_map, Schema.Message.reread, List.map_map, List.map_map]
    refine congrArg Value.arr (List.map_congr_left ?_)
    intro tc _
    exact tc.value_utf8
  have hpartsValue :
      (Value.arr (m.record.multiContent.map (fun item => (Value.obj item).sorted))).utf8 =
        .arr (m.reread.multiContent.map (fun item => (Value.obj item).sorted)) := by
    rw [Value.utf8, Json.utf8Elements_eq_map, multiContent_record, Schema.Message.reread,
      List.map_map, List.map_map, List.map_map]
    refine congrArg Value.arr (List.map_congr_left ?_)
    intro p _
    show (Value.obj p.item).sorted.utf8 = (Value.obj p.utf8.sortedItem).sorted
    rw [p.sorted_item, p.utf8_sortedItem, p.utf8.sorted_sortedItem]
  have hcallsEmpty : m.reread.toolCalls.isEmpty = m.record.toolCalls.isEmpty := by
    simp [Schema.Message.reread]
  have hpartsEmpty : m.reread.multiContent.isEmpty = m.record.multiContent.isEmpty := by
    simp [Schema.Message.reread, multiContent_record]
  have hopt : ∀ {name : String}, toValid (lit name) = lit name → ∀ s : Str,
      (omitEmpty name s (.str s)).map (fun k => (toValid k.1, k.2.utf8)) =
        omitEmpty name (toValid s) (.str (toValid s)) := by
    intro name h s
    exact Json.utf8Members_omitEmpty h (Json.isEmpty_toValid s) (.str s)
  rw [HistoryMessage.value, Value.utf8, Json.utf8Members_eq_map]
  simp only [List.map_cons, List.map_append, List.map_nil, hopt hreasoning, hopt hcallID,
    hopt hname, Json.utf8Members_omitEmpty hcalls hcallsEmpty,
    Json.utf8Members_omitEmpty hmulti hpartsEmpty, hcallsValue, hpartsValue, hrole, hcontent]
  rfl

theorem HistoryToolCall.decode_value (tc : HistoryToolCall) :
    HistoryToolCall.decode {} tc.value = some tc := rfl

theorem decode_reread (num : NumberFormat) (m : Schema.Message) :
    HistoryMessage.decode num {} m.reread.value = some m.reread := by
  have hcalls : decodeSlice {} HistoryToolCall.decode []
      (.arr (m.reread.toolCalls.map HistoryToolCall.value)) = some m.reread.toolCalls := by
    have hmap := Json.decodeSlice_map (fun tc (_ : tc ∈ m.reread.toolCalls) => tc.decode_value)
    rw [List.map_id'] at hmap
    exact hmap
  have hparts : decodeSlice [] (decodeItem num) []
      (.arr (m.reread.multiContent.map (fun item => (Value.obj item).sorted))) =
        some m.reread.multiContent := by
    rw [Schema.Message.reread, List.map_map]
    refine Json.decodeSlice_map ?_
    intro p _
    show decodeItem num [] (Value.obj p.utf8.sortedItem).sorted = _
    rw [p.utf8.sorted_sortedItem, p.utf8.decodeItem_sortedItem]
  generalize m.reread = hm at hcalls hparts ⊢
  rw [HistoryMessage.decode, HistoryMessage.value,
    Json.decodeStruct_field rfl rfl, Json.decodeStruct_field rfl rfl,
    Json.decodeStruct_omitEmpty rfl rfl rfl rfl, Json.decodeStruct_omitEmpty rfl rfl rfl hcalls,
    Json.decodeStruct_omitEmpty rfl rfl rfl rfl, Json.decodeStruct_omitEmpty rfl rfl rfl rfl,
    Json.decodeStruct_omitEmpty rfl rfl rfl hparts]
  rfl

def Schema.Message.restored (m : Schema.Message) : Schema.Message := fromHistoryMsg m.reread

theorem fits_record (m : Schema.Message) : m.record.value.Fits 4 := by
  have hcalls : (Value.arr (m.record.toolCalls.map HistoryToolCall.value)).Fits 3 := by
    refine Json.fits_arr (List.forall_mem_map.mpr ?_)
    intro tc _
    refine Json.fits_obj ?_
    simp only [List.forall_mem_cons, List.not_mem_nil, false_implies, implies_true, and_true]
    exact ⟨Json.fits_str 1 _, Json.fits_str 1 _, Json.fits_str 1 _, Json.fits_str 1 _⟩
  have hparts :
      (Value.arr (m.record.multiContent.map (fun item => (Value.obj item).sorted))).Fits 3 := by
    rw [multiContent_record, List.map_map]
    refine Json.fits_arr (List.forall_mem_map.mpr ?_)
    intro p _
    show (Value.obj p.item).sorted.Fits 2
    rw [p.sorted_item]
    exact Json.fits_obj (fun member hmember => p.fits_value hmember)
  refine Json.fits_obj ?_
  simp only [List.forall_mem_cons, List.forall_mem_append, List.append_nil]
  exact ⟨Json.fits_str 3 _, Json.fits_str 3 _, Json.fits_omitEmpty (Json.fits_str 3 _),
    Json.fits_omitEmpty hcalls, Json.fits_omitEmpty (Json.fits_str 3 _),
    Json.fits_omitEmpty (Json.fits_str 3 _), Json.fits_omitEmpty hparts⟩

/-! ## The file -/

def messagesOf (s : Sessions) : List (Str × List Schema.Message) :=
  s.entries.map (fun e => (e.1, e.2.reduceOption))

def HistoryFile.of (sessions : List (Str × List Schema.Message)) : HistoryFile :=
  sessions.map (fun e => (e.1, e.2.map Schema.Message.record))

def Sessions.NilFree (s : Sessions) : Prop := ∀ e ∈ s.entries, none ∉ e.2

theorem map_some_reduceOption {α : Type} {l : List (Option α)} (h : none ∉ l) :
    l.reduceOption.map some = l := by
  induction l with
  | nil => rfl
  | cons a l ih =>
    rw [List.mem_cons, not_or] at h
    cases a with
    | none => exact absurd rfl h.1
    | some a => rw [List.reduceOption_cons_of_some, List.map_cons, ih h.2]

theorem marshal_eq (h : Sessions.NilFree s) : marshal s = some (HistoryFile.of (messagesOf s)) := by
  rw [marshal, HistoryFile.of, messagesOf, List.map_map]
  refine Json.mapM_eq_some_map ?_
  intro e he
  have hrecords : e.2.mapM toHistoryMsg = some (e.2.reduceOption.map Schema.Message.record) := by
    rw [← map_some_reduceOption (h e he), List.mapM_map, map_some_reduceOption (h e he)]
    exact Json.mapM_eq_some_map (fun m _ => toHistoryMsg_some m)
  rw [hrecords]
  rfl

theorem nilFree_of_marshal (h : (marshal s).isSome = true) : Sessions.NilFree s := by
  rw [marshal, isSome_mapM_iff] at h
  intro e he
  have hentry := h e he
  rw [Option.isSome_map] at hentry
  refine (isSome_mapM_pointers ?_ e.2).mp hentry
  intro m
  cases m <;> rfl

theorem unmarshal_text (num : NumberFormat) (sessions : List (Str × List Schema.Message)) :
    Json.unmarshal [] (HistoryFile.decode num) (HistoryFile.of sessions).text =
      some (lastOfKey ((sortMembers sessions).map
        (fun e => (toValid e.1, e.2.map Schema.Message.reread)))) := by
  have hvalue : HistoryFile.value (HistoryFile.of sessions) =
      .obj ((sortMembers sessions).map
        (fun e => (e.1, .arr (e.2.map (fun m => m.record.value))))) := by
    have hmap := Json.sortMembers_map
      (fun msgs : List Schema.Message => Value.arr (msgs.map (fun m => m.record.value))) sessions
    rw [HistoryFile.value, HistoryFile.of, List.map_map, ← hmap]
    simp only [Function.comp_def, List.map_map]
  have hfits : (HistoryFile.value (HistoryFile.of sessions)).Fits 6 := by
    rw [hvalue]
    refine Json.fits_obj (List.forall_mem_map.mpr ?_)
    intro e _
    refine Json.fits_arr (List.forall_mem_map.mpr ?_)
    intro m _
    exact fits_record m
  rw [HistoryFile.text, Json.unmarshal_print [] _ hfits (by decide), hvalue, Value.utf8,
    Json.utf8Members_eq_map, List.map_map]
  refine Json.decodeMap_map _ ?_
  intro e _
  show decodeSlice {} (HistoryMessage.decode num) [] (Value.arr (e.2.map _)).utf8 = _
  rw [Value.utf8, Json.utf8Elements_eq_map, List.map_map]
  refine Json.decodeSlice_map ?_
  intro m _
  show HistoryMessage.decode num {} m.record.value.utf8 = _
  rw [value_record_utf8, decode_reread]

/-- The messages as they come back from the file, session by session. -/
def restoredHistories (sessions : List (Str × List Schema.Message)) :
    List (Str × History) :=
  sessions.map (fun e => (e.1, e.2.map (fun m => some m.restored)))

theorem keys_restoredHistories (sessions : List (Str × List Schema.Message)) :
    (restoredHistories sessions).map Prod.fst = sessions.map Prod.fst := by
  rw [restoredHistories, List.map_map]
  rfl

theorem unmarshalText_text (num : NumberFormat) {sessions : List (Str × List Schema.Message)}
    (hkeys : (sessions.map Prod.fst).Nodup) (hids : ∀ e ∈ sessions, utf8Valid e.1 = true) :
    unmarshalText num (HistoryFile.of sessions).text =
      some (insertAll (restoredHistories (sortMembers sessions)) ∅) := by
  have hsorted := Json.sortMembers_perm sessions
  have hread : (sortMembers sessions).map (fun e => (toValid e.1, e.2.map Schema.Message.reread)) =
      (sortMembers sessions).map (fun e => (e.1, e.2.map Schema.Message.reread)) := by
    refine List.map_congr_left ?_
    intro e he
    rw [toValid_of_utf8Valid (hids e (hsorted.mem_iff.mp he))]
  have hnodup : (((sortMembers sessions).map
      (fun e => (e.1, e.2.map Schema.Message.reread))).map Prod.fst).Nodup := by
    rw [List.map_map]
    exact (hsorted.map Prod.fst).nodup_iff.mpr hkeys
  have hhistories : unmarshalHistory ((sortMembers sessions).map
      (fun e => (e.1, e.2.map Schema.Message.reread))) =
        restoredHistories (sortMembers sessions) := by
    rw [unmarshalHistory, restoredHistories, List.map_map]
    refine List.map_congr_left ?_
    intro e _
    exact congrArg (Prod.mk e.1) List.map_map
  rw [unmarshalText, unmarshal_text, hread, Json.lastOfKey_of_nodup hnodup, Option.map_some,
    hhistories]

theorem keys_messagesOf (s : Sessions) : (messagesOf s).map Prod.fst = s.keys := by
  rw [messagesOf, List.map_map]
  rfl

/-- What a map of sessions becomes on its way to the file and back. -/
def restoredEntry (e : (_ : Str) × History) : (_ : Str) × History :=
  ⟨e.1, e.2.map (Option.map Schema.Message.restored)⟩

theorem entries_back (hnil : Sessions.NilFree s) :
    (insertAll (restoredHistories (sortMembers (messagesOf s))) ∅).entries.Perm
      (s.entries.map restoredEntry) := by
  have hsorted := Json.sortMembers_perm (messagesOf s)
  have hkeys : ((restoredHistories (sortMembers (messagesOf s))).map Prod.fst).Nodup := by
    rw [keys_restoredHistories, (hsorted.map Prod.fst).nodup_iff, keys_messagesOf]
    exact s.keys_nodup
  have hentries := entries_insertAll hkeys (fun k _ => AList.notMem_empty (β := fun _ => History) k)
  refine hentries.trans ?_
  rw [AList.empty_entries, List.append_nil, restoredHistories, List.map_map]
  refine (hsorted.map _).trans (List.Perm.of_eq ?_)
  rw [messagesOf, List.map_map]
  refine List.map_congr_left ?_
  intro e he
  have hmsgs : (e.2.reduceOption.map some).map (Option.map Schema.Message.restored) =
      e.2.reduceOption.map (fun m => some m.restored) := by
    rw [List.map_map]
    rfl
  rw [map_some_reduceOption (hnil e he)] at hmsgs
  exact congrArg (Sigma.mk e.1) hmsgs.symm

end MiniGoAgent
