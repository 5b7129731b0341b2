/-
# `Session.RoundTrip` — which sessions the history file gives back

A message in UTF-8 comes back with the parts the file has (`Utf8.restored`).  So one that
has nothing else is as it was (`restored_of_inFormat`), and the record of any other whose
images carry a URL or data is (`record_restored`): what is written after a restart is what
was written before.

The hypotheses are what the format loses.
-/
import MiniGoAgent.Session.HistoryText

open Go

namespace MiniGoAgent

open Json (Value NumberFormat)

variable {m : Schema.Message}

/-! ## Messages that come back -/

namespace Schema

def ToolCall.strings (tc : ToolCall) : List Str :=
  [tc.id, tc.type, tc.function.name, tc.function.arguments]

def InputImage.strings (img : InputImage) : List Str :=
  img.mimeType :: (img.url.toList ++ img.base64Data.toList)

def InputPart.strings (part : InputPart) : List Str :=
  part.type :: part.text :: part.image.toList.flatMap InputImage.strings

def ChatPart.strings (part : ChatPart) : List Str :=
  part.type :: part.text :: part.imageURL.toList

def Message.strings (m : Message) : List Str :=
  [m.role, m.content, m.reasoningContent, m.toolCallID, m.name] ++
    (m.toolCalls.flatMap ToolCall.strings ++
      (m.userInputMultiContent.flatMap InputPart.strings ++
        m.multiContent.flatMap ChatPart.strings))

def Message.Utf8 (m : Message) : Prop := ∀ s ∈ m.strings, utf8Valid s = true

instance (m : Message) : Decidable m.Utf8 :=
  inferInstanceAs (Decidable (∀ s ∈ m.strings, utf8Valid s = true))

/-- The message has only what the file has: of its images the URL. -/
def Message.InFormat (m : Message) : Prop :=
  m.multiContent = [] ∧ ∀ part ∈ m.userInputMultiContent, ∀ img ∈ part.image,
    img.url ≠ none ∧ img.base64Data = none ∧ img.mimeType = []

instance (m : Message) : Decidable m.InFormat :=
  inferInstanceAs (Decidable (m.multiContent = [] ∧ ∀ part ∈ m.userInputMultiContent,
    ∀ img ∈ part.image, img.url ≠ none ∧ img.base64Data = none ∧ img.mimeType = []))

instance (m : Message) : Decidable m.Carries :=
  inferInstanceAs (Decidable (∀ part ∈ m.userInputMultiContent, ∀ img ∈ part.image,
    img.url ≠ none ∨ img.base64Data ≠ none))

theorem utf8Valid_dataURL {mimeType data : Str} (hmime : utf8Valid mimeType = true)
    (hdata : utf8Valid data = true) :
    utf8Valid (lit "data:" ++ mimeType ++ lit ";base64," ++ data) = true := by
  have hsplit : lit "data:" ++ mimeType ++ lit ";base64," ++ data =
      lit "data" ++ byte ':' :: (mimeType ++ byte ';' :: (lit "base64" ++ byte ',' :: data)) := by
    have hfront : lit "data:" = lit "data" ++ [byte ':'] := by decide
    have hmiddle : lit ";base64," = byte ';' :: (lit "base64" ++ [byte ',']) := by decide
    rw [hfront, hmiddle]
    simp
  have hwords : utf8Valid (lit "data") = true ∧ utf8Valid (lit "base64") = true := by decide
  rw [hsplit, utf8Valid_append_ascii (by decide), utf8Valid_append_ascii (by decide),
    utf8Valid_append_ascii (by decide), hwords.1, hwords.2, hmime, hdata]
  rfl

theorem InputImage.utf8_link {img : InputImage} (h : ∀ s ∈ img.strings, utf8Valid s = true) :
    img.link.map toValid = img.link := by
  obtain ⟨url, base64Data, mimeType⟩ := img
  cases base64Data with
  | some data =>
    have hmime : utf8Valid mimeType = true := h mimeType (by simp [InputImage.strings])
    have hdata : utf8Valid data = true := h data (by simp [InputImage.strings])
    exact congrArg some (toValid_of_utf8Valid (utf8Valid_dataURL hmime hdata))
  | none =>
    cases url with
    | none => rfl
    | some url =>
      have hurl : utf8Valid url = true := h url (by simp [InputImage.strings])
      exact congrArg some (toValid_of_utf8Valid hurl)

theorem InputPart.utf8_toHistory {part : InputPart} (h : ∀ s ∈ part.strings, utf8Valid s = true) :
    part.toHistory.utf8 = part.toHistory := by
  refine HistoryPart.utf8_eq (h part.type (by simp [strings])) (h part.text (by simp [strings])) ?_
  show (part.image.map InputImage.link).map (fun url => url.map toValid) = _
  rw [InputPart.strings] at h
  cases himage : part.image with
  | none => simp [InputPart.toHistory, himage]
  | some img =>
    have himg : img.link.map toValid = img.link :=
      InputImage.utf8_link (fun s hs => h s (by simp [himage, hs]))
    simp [InputPart.toHistory, himage, himg]

theorem ChatPart.utf8_toHistory {part : ChatPart} (h : ∀ s ∈ part.strings, utf8Valid s = true) :
    part.toHistory.utf8 = part.toHistory := by
  refine HistoryPart.utf8_eq (h part.type (by simp [strings])) (h part.text (by simp [strings])) ?_
  show (part.imageURL.map some).map (fun url => url.map toValid) = _
  rw [ChatPart.strings] at h
  cases himage : part.imageURL with
  | none => simp [ChatPart.toHistory, himage]
  | some url =>
    have hurl : toValid url = url := toValid_of_utf8Valid (h url (by simp [himage]))
    simp [ChatPart.toHistory, himage, hurl]

theorem Message.Utf8.historyParts {m : Message} (h : m.Utf8) :
    ∀ p ∈ m.historyParts, p.utf8 = p := by
  intro p hp
  rw [Message.historyParts] at hp
  split at hp
  · obtain ⟨part, hpart, rfl⟩ := List.mem_map.mp hp
    refine InputPart.utf8_toHistory ?_
    intro s hs
    refine h s ?_
    simp only [Message.strings, List.mem_append, List.mem_flatMap]
    exact Or.inr (Or.inr (Or.inl ⟨part, hpart, hs⟩))
  · obtain ⟨part, hpart, rfl⟩ := List.mem_map.mp hp
    refine ChatPart.utf8_toHistory ?_
    intro s hs
    refine h s ?_
    simp only [Message.strings, List.mem_append, List.mem_flatMap]
    exact Or.inr (Or.inr (Or.inr ⟨part, hpart, hs⟩))

theorem InputPart.Carries.toHistory {part : InputPart} (h : part.Carries) :
    part.toHistory.image ≠ some none := by
  obtain ⟨type, text, image⟩ := part
  intro himage
  obtain ⟨img, rfl, hlink⟩ := Option.map_eq_some_iff.mp himage
  obtain ⟨url, base64Data, mimeType⟩ := img
  cases base64Data with
  | some data => exact absurd hlink (Option.some_ne_none _)
  | none => exact (h _ rfl).elim (absurd hlink) (absurd rfl)

theorem Message.Carries.historyParts {m : Message} (h : m.Carries) :
    ∀ p ∈ m.historyParts, p.image ≠ some none := by
  intro p hp
  rw [Message.historyParts] at hp
  split at hp
  · obtain ⟨part, hpart, rfl⟩ := List.mem_map.mp hp
    exact (h part hpart).toHistory
  · obtain ⟨part, hpart, rfl⟩ := List.mem_map.mp hp
    intro himage
    obtain ⟨url, -, hurl⟩ := Option.map_eq_some_iff.mp himage
    exact absurd hurl (Option.some_ne_none _)

end Schema

theorem HistoryPart.toHistory_toInput {p : HistoryPart} (h : p.image ≠ some none) :
    p.toInput.toHistory = p := by
  obtain ⟨type, text, image⟩ := p
  rcases image with _ | _ | url
  · rfl
  · exact absurd rfl h
  · rfl

theorem Schema.Message.Utf8.reread (h : m.Utf8) :
    m.reread = { m.record with multiContent := m.historyParts.map HistoryPart.sortedItem } := by
  have hstrings : ∀ s ∈ [m.role, m.content, m.reasoningContent, m.toolCallID, m.name],
      toValid s = s := by
    intro s hs
    exact toValid_of_utf8Valid (h s (List.mem_append_left _ hs))
  simp only [List.forall_mem_cons, List.not_mem_nil, false_implies, implies_true,
    and_true] at hstrings
  obtain ⟨hrole, hcontent, hreasoning, hcallID, hname⟩ := hstrings
  have hcalls : m.record.toolCalls.map HistoryToolCall.utf8 = m.record.toolCalls := by
    refine (List.map_congr_left ?_).trans (List.map_id' _)
    intro call hcall
    obtain ⟨tc, htc, rfl⟩ := List.mem_map.mp hcall
    have hcallStrings : ∀ s ∈ tc.strings, toValid s = s := by
      intro s hs
      refine toValid_of_utf8Valid (h s ?_)
      simp only [Schema.Message.strings, List.mem_append, List.mem_flatMap]
      exact Or.inr (Or.inl ⟨tc, htc, hs⟩)
    simp only [Schema.ToolCall.strings, List.forall_mem_cons, List.not_mem_nil, false_implies,
      implies_true, and_true] at hcallStrings
    simp [HistoryToolCall.utf8, hcallStrings]
  have hparts : m.historyParts.map (fun p => p.utf8.sortedItem) =
      m.historyParts.map HistoryPart.sortedItem := by
    refine List.map_congr_left ?_
    intro p hp
    rw [h.historyParts p hp]
  rw [Schema.Message.reread, hcalls, hparts]
  show HistoryMessage.mk (toValid m.role) (toValid m.content) (toValid m.reasoningContent) _
    (toValid m.toolCallID) (toValid m.name) _ = _
  rw [hrole, hcontent, hreasoning, hcallID, hname]
  rfl

theorem toolCalls_fromHistoryMsg_record (m : Schema.Message) :
    (fromHistoryMsg m.record).toolCalls = m.toolCalls := by
  show (m.toolCalls.map _).map _ = _
  rw [List.map_map]
  exact List.map_id' m.toolCalls

theorem Schema.Message.Utf8.restored (h : m.Utf8) :
    m.restored = { m with
      userInputMultiContent := m.historyParts.map HistoryPart.toInput, multiContent := [] } := by
  have hparts : (m.historyParts.map HistoryPart.sortedItem).map toEinoPart =
      m.historyParts.map HistoryPart.toInput := by
    rw [List.map_map]
    refine List.map_congr_left ?_
    intro p _
    exact p.toEinoPart_sortedItem
  rw [Schema.Message.restored, h.reread]
  show Schema.Message.mk m.role m.content m.reasoningContent (fromHistoryMsg m.record).toolCalls
    m.toolCallID m.name ((m.historyParts.map HistoryPart.sortedItem).map toEinoPart) [] = _
  rw [toolCalls_fromHistoryMsg_record, hparts]

theorem restored_of_inFormat (hutf8 : m.Utf8) (h : m.InFormat) : m.restored = m := by
  obtain ⟨hmulti, hurls⟩ := h
  have hparts : m.historyParts = m.userInputMultiContent.map Schema.InputPart.toHistory := by
    rw [Schema.Message.historyParts, hmulti]
    split
    next => rfl
    next hempty =>
      rw [not_not.mp hempty]
      rfl
  have hback : m.historyParts.map HistoryPart.toInput = m.userInputMultiContent := by
    rw [hparts, List.map_map]
    refine (List.map_congr_left ?_).trans (List.map_id' _)
    rintro ⟨type, text, image⟩ hpart
    cases image with
    | none => rfl
    | some img =>
      obtain ⟨url, base64Data, mimeType⟩ := img
      obtain ⟨hurl, hdata, hmime⟩ := hurls _ hpart _ rfl
      obtain ⟨url, rfl⟩ := Option.ne_none_iff_exists'.mp hurl
      cases hdata
      cases hmime
      rfl
  rw [hutf8.restored, hback, ← hmulti]

theorem record_restored (hutf8 : m.Utf8) (h : m.Carries) : m.restored.record = m.record := by
  have hback : (m.historyParts.map HistoryPart.toInput).map Schema.InputPart.toHistory =
      m.historyParts := by
    rw [List.map_map]
    refine (List.map_congr_left ?_).trans (List.map_id' _)
    intro p hp
    exact HistoryPart.toHistory_toInput (h.historyParts p hp)
  have hparts : m.restored.historyParts = m.historyParts := by
    rw [hutf8.restored, Schema.Message.historyParts]
    split
    next => exact hback
    next hempty => exact (List.map_eq_nil_iff.mp (not_not.mp hempty)).symm
  have hrest : m.restored.record =
      { m.record with multiContent := m.restored.record.multiContent } := by
    rw [hutf8.restored]
    rfl
  rw [hrest, multiContent_record, hparts, ← multiContent_record]

/-! ## Round trips -/

/-- Every message of the sessions has the property. -/
def Sessions.All (P : Schema.Message → Prop) (s : Sessions) : Prop :=
  ∀ e ∈ s.entries, ∀ m, some m ∈ e.2 → P m

/-- The ids of the sessions and the strings of their messages are UTF-8. -/
structure Sessions.Utf8 (s : Sessions) : Prop where
  sids : ∀ e ∈ s.entries, utf8Valid e.1 = true
  messages : Sessions.All Schema.Message.Utf8 s

theorem unmarshalText_marshalText (num : NumberFormat) {s : Sessions} (hnil : Sessions.NilFree s)
    (hsids : ∀ e ∈ s.entries, utf8Valid e.1 = true) :
    ∃ text back, marshalText s = some text ∧ unmarshalText num text = some back ∧
      back.entries.Perm (s.entries.map restoredEntry) := by
  have hkeys : ((messagesOf s).map Prod.fst).Nodup := by
    rw [keys_messagesOf]
    exact s.keys_nodup
  have hids : ∀ e ∈ messagesOf s, utf8Valid e.1 = true := by
    intro e he
    obtain ⟨entry, hentry, rfl⟩ := List.mem_map.mp he
    exact hsids entry hentry
  refine ⟨(HistoryFile.of (messagesOf s)).text, _, ?_, unmarshalText_text num hkeys hids,
    entries_back hnil⟩
  rw [marshalText, marshal_eq hnil, Option.map_some]

theorem marshalText_of_perm {s back : Sessions} (hnil : Sessions.NilFree s)
    (hperm : back.entries.Perm (s.entries.map restoredEntry))
    (hrecords : Sessions.All (fun m => m.restored.record = m.record) s) :
    marshalText back = marshalText s := by
  have hnilBack : Sessions.NilFree back := by
    intro e he hnone
    obtain ⟨entry, hentry, rfl⟩ := List.mem_map.mp (hperm.mem_iff.mp he)
    obtain ⟨m, hm, hrestored⟩ := List.mem_map.mp hnone
    rw [Option.map_eq_none_iff] at hrestored
    exact hnil entry hentry (hrestored ▸ hm)
  have hfile : (HistoryFile.of (messagesOf back)).Perm (HistoryFile.of (messagesOf s)) := by
    rw [HistoryFile.of, HistoryFile.of, messagesOf, messagesOf, List.map_map, List.map_map]
    refine (hperm.map _).trans (List.Perm.of_eq ?_)
    rw [List.map_map]
    refine List.map_congr_left ?_
    intro e he
    refine congrArg (Prod.mk e.1) ?_
    show (e.2.map (Option.map Schema.Message.restored)).reduceOption.map Schema.Message.record = _
    rw [List.reduceOption_map, List.map_map]
    refine List.map_congr_left ?_
    intro m hm
    exact hrecords e he m (List.reduceOption_mem_iff.mp hm)
  have hkeys : ((HistoryFile.of (messagesOf back)).map Prod.fst).Nodup := by
    rw [HistoryFile.of, List.map_map]
    show ((messagesOf back).map Prod.fst).Nodup
    rw [keys_messagesOf]
    exact back.keys_nodup
  have hvalue : HistoryFile.value (HistoryFile.of (messagesOf back)) =
      HistoryFile.value (HistoryFile.of (messagesOf s)) := by
    refine congrArg Value.obj (Json.sortMembers_eq_of_perm (hfile.map _) ?_)
    rw [List.map_map]
    exact hkeys
  rw [marshalText, marshalText, marshal_eq hnil, marshal_eq hnilBack, Option.map_some,
    Option.map_some, HistoryFile.text, HistoryFile.text, hvalue]

/-- Sessions without nil messages, in UTF-8: `Unmarshal` of what `Marshal` writes gives them
back if they have only what the file has, and if the images carry a URL or data it gives
sessions for which `Marshal` writes the same. -/
theorem marshal_there_and_back (num : NumberFormat) :
    (∀ s : Sessions, Sessions.NilFree s → Sessions.Utf8 s → Sessions.All Schema.Message.InFormat s →
      ∃ text back, marshalText s = some text ∧ unmarshalText num text = some back ∧
        ∀ sid, back.lookup sid = s.lookup sid) ∧
    (∀ s : Sessions, Sessions.NilFree s → Sessions.Utf8 s → Sessions.All Schema.Message.Carries s →
      ∃ text back, marshalText s = some text ∧ unmarshalText num text = some back ∧
        marshalText back = some text) := by
  constructor
  · intro s hnil hutf8 hformat
    obtain ⟨text, back, htext, hback, hperm⟩ := unmarshalText_marshalText num hnil hutf8.sids
    refine ⟨text, back, htext, hback, ?_⟩
    have hsame : s.entries.map restoredEntry = s.entries := by
      refine (List.map_congr_left ?_).trans (List.map_id' _)
      intro e he
      refine congrArg (Sigma.mk e.1) ((List.map_congr_left ?_).trans (List.map_id' _))
      intro m hm
      cases m with
      | none => rfl
      | some m =>
        exact congrArg some (restored_of_inFormat (hutf8.messages e he m hm) (hformat e he m hm))
    rw [hsame] at hperm
    intro sid
    exact AList.perm_lookup hperm
  · intro s hnil hutf8 hcarries
    obtain ⟨text, back, htext, hback, hperm⟩ := unmarshalText_marshalText num hnil hutf8.sids
    refine ⟨text, back, htext, hback, ?_⟩
    rw [← htext]
    refine marshalText_of_perm hnil hperm ?_
    intro e he m hm
    exact record_restored (hutf8.messages e he m hm) (hcarries e he m hm)

theorem Sessions.all_singleton {P : Schema.Message → Prop} (sid : Str) {msgs : History}
    (h : ∀ m ∈ msgs.reduceOption, P m) : Sessions.All P (AList.singleton sid msgs) := by
  intro e he m hm
  rw [List.mem_singleton.mp he] at hm
  exact h m (List.reduceOption_mem_iff.mpr hm)

/-- A question with a picture, and an answer with a call. -/
def picturedChat : History :=
  [some { role := roleUser, content := lit "look",
          userInputMultiContent :=
            [{ type := lit "text", text := lit "this" },
             { type := lit "image_url", image := some { url := some (lit "a.png") } }] },
   some { role := roleAssistant,
          toolCalls := [{ id := lit "c1", type := lit "function",
                          function := { name := lit "f", arguments := lit "\x7b\x7d" } }] }]

/-- A picture as data, and one of the deprecated kind. -/
def embeddedChat : History :=
  [some { role := roleUser,
          userInputMultiContent :=
            [{ type := lit "image_url",
               image := some { base64Data := some (lit "AAAA"), mimeType := lit "image/png" } }] },
   some { role := roleUser,
          multiContent := [{ type := lit "image_url", imageURL := some (lit "a.png") }] }]

theorem marshal_there_and_back_chats :
    (∃ text back, marshalText (AList.singleton (lit "s") picturedChat) = some text ∧
      unmarshalText NumberFormat.same text = some back ∧
        ∀ sid, back.lookup sid = AList.lookup sid
          (AList.singleton (lit "s") picturedChat : Sessions)) ∧
    (∃ text back, marshalText (AList.singleton (lit "s") embeddedChat) = some text ∧
      unmarshalText NumberFormat.same text = some back ∧ marshalText back = some text) := by
  obtain ⟨hsame, hfixed⟩ := marshal_there_and_back NumberFormat.same
  constructor
  · refine hsame (AList.singleton (lit "s") picturedChat) ?_ ⟨?_, ?_⟩ ?_
    · rw [Sessions.NilFree]
      decide
    · decide
    · exact Sessions.all_singleton _ (by decide)
    · exact Sessions.all_singleton _ (by decide)
  · refine hfixed (AList.singleton (lit "s") embeddedChat) ?_ ⟨?_, ?_⟩ ?_
    · rw [Sessions.NilFree]
      decide
    · decide
    · exact Sessions.all_singleton _ (by decide)
    · exact Sessions.all_singleton _ (by decide)

end MiniGoAgent
