/-
# `Session.Restart` — `Save`, and `Load` in the next process

`Save` writes the file and `Load` reads it at the start; what a manager holds after a
restart is to be what was saved, with every message as the format gives it back
(`throughFile`).

Two things stand in the way.  `Save` of a manager without sessions returns at once and
leaves the file of an earlier `Save` in place, so that sessions which `Cleanup` has
removed come back; and an id that is not UTF-8 is another id in the file.  There is
nothing else: `saveRestores_iff`.
-/
import MiniGoAgent.Session.Eviction
import MiniGoAgent.Session.RoundTrip

open Go

namespace MiniGoAgent

open Json (NumberFormat)

variable (num : NumberFormat)

namespace Manager

/-- `Save(path)`: the content of the file behind a `Save` that returns nil, or the error.
`prior` is the content before and `fault` what `os.WriteFile` answers; outside, `none` is
the panic on a nil message. -/
def saveFile (m : Manager) (fault prior : Option Str) :
    Option (Except Str (Option Str)) :=
  m.save.map (fun written =>
    match written, fault with
    | none, _ => .ok prior
    | some file, none => .ok (some (HistoryFile.text file))
    | some _, some err => .error (lit "write history: " ++ err))

/-- `Load(path)`: `none` is an error, and the manager is as it was. -/
def loadFile (num : NumberFormat) (m : Manager) (content : Option Str) :
    Option (Manager × Nat) :=
  content.bind (fun text => (Json.unmarshal [] (HistoryFile.decode num) text).map m.load)

/-- The manager behind a `Load`. -/
def afterLoad (num : NumberFormat) (m : Manager) (content : Option Str) : Manager :=
  ((m.loadFile num content).map Prod.fst).getD m

end Manager

/-- A message as it comes back from the file it is written to. -/
def throughFile (num : NumberFormat) (m : Option Schema.Message) : Option Schema.Message :=
  (toHistoryMsg m).bind (fun hm =>
    (Json.unmarshal {} (HistoryMessage.decode num) hm.value.print).map fromHistoryMsg)

/-- Behind a `Save` that returns nil, a new manager that loads the file has the sessions
that were saved. -/
def SaveRestores (num : NumberFormat) (m : Manager) (prior : Option Str) : Prop :=
  ∀ fault content, m.saveFile fault prior = some (.ok content) → ∀ defaultSession sid,
    ((newManager defaultSession).afterLoad num content).sessions.lookup sid =
      (m.sessions.lookup sid).map (fun msgs => msgs.map (throughFile num))

theorem throughFile_some (m : Schema.Message) : throughFile num (some m) = some m.restored := by
  rw [throughFile, toHistoryMsg_some, Option.bind_some,
    Json.unmarshal_print _ _ (fits_record m) (by decide), value_record_utf8, decode_reread]
  rfl

theorem sessions_afterLoad (defaultSession : Str) (content : Option Str) :
    ((newManager defaultSession).afterLoad num content).sessions =
      (content.bind (unmarshalText num)).getD ∅ := by
  cases content with
  | none => rfl
  | some text =>
    show _ = (unmarshalText num text).getD ∅
    rw [unmarshalText, Manager.afterLoad, Manager.loadFile, Option.bind_some]
    cases Json.unmarshal [] (HistoryFile.decode num) text with
    | none => rfl
    | some file => rfl

theorem throughFile_eq : throughFile num = Option.map Schema.Message.restored := by
  funext m
  cases m with
  | none => rfl
  | some m => exact throughFile_some num m

theorem utf8Valid_of_lookup {sessions : List (Str × List Schema.Message)}
    {back : Sessions} (hback : unmarshalText num (HistoryFile.of sessions).text = some back)
    {sid : Str} (hsid : (back.lookup sid).isSome = true) : utf8Valid sid = true := by
  rw [unmarshalText, unmarshal_text, Option.map_some, Option.some.injEq] at hback
  rw [← hback, isSome_lookup_insertAll] at hsid
  have hkey := hsid.resolve_right (by simp)
  rw [unmarshalHistory, List.map_map] at hkey
  obtain ⟨e, he, rfl⟩ := List.mem_map.mp hkey
  obtain ⟨e', -, rfl⟩ := List.mem_map.mp (Json.mem_of_mem_lastOfKey he)
  exact utf8Valid_toValid e'.1

section Save

variable {m : Manager} {fault prior content : Option Str}

theorem saveFile_of_empty (h : m.sessions.entries = []) :
    m.saveFile fault prior = some (.ok prior) := by
  rw [Manager.saveFile, Manager.save, if_pos h]
  rfl

theorem saveFile_of_nilFree (h : m.sessions.entries ≠ []) (hnil : Sessions.NilFree m.sessions) :
    m.saveFile none prior = some (.ok (some (HistoryFile.of (messagesOf m.sessions)).text)) := by
  rw [Manager.saveFile, Manager.save, if_neg h, marshal_eq hnil]
  rfl

theorem written_of_saveFile (h : m.sessions.entries ≠ [])
    (hsave : m.saveFile fault prior = some (.ok content)) :
    Sessions.NilFree m.sessions ∧ content = some (HistoryFile.of (messagesOf m.sessions)).text := by
  rw [Manager.saveFile, Manager.save, if_neg h] at hsave
  cases hfile : marshal m.sessions with
  | none =>
    rw [hfile] at hsave
    cases hsave
  | some file =>
    have hnil : Sessions.NilFree m.sessions := nilFree_of_marshal (by rw [hfile]; rfl)
    rw [marshal_eq hnil] at hsave
    cases fault with
    | some err => cases hsave
    | none =>
      cases hsave
      exact ⟨hnil, rfl⟩

end Save

theorem lookup_afterLoad {s : Sessions} (hnil : Sessions.NilFree s)
    (hsids : ∀ e ∈ s.entries, utf8Valid e.1 = true) (defaultSession sid : Str) :
    ((newManager defaultSession).afterLoad num
      (some (HistoryFile.of (messagesOf s)).text)).sessions.lookup sid =
        (s.lookup sid).map (fun msgs => msgs.map (throughFile num)) := by
  obtain ⟨text, back, htext, hback, hperm⟩ := unmarshalText_marshalText num hnil hsids
  rw [marshalText, marshal_eq hnil, Option.map_some, Option.some.injEq] at htext
  rw [sessions_afterLoad, Option.bind_some, htext, hback, Option.getD_some, throughFile_eq]
  calc back.lookup sid
      = (s.entries.map restoredEntry).dlookup sid := List.perm_dlookup sid back.nodupKeys hperm
    _ = (s.lookup sid).map (fun msgs => msgs.map (Option.map Schema.Message.restored)) :=
        List.dlookup_map₂
          (f := fun (_ : Str) (msgs : History) =>
            msgs.map (Option.map Schema.Message.restored)) sid

theorem afterLoad_empty_iff (content : Option Str) :
    (∀ defaultSession sid,
      ((newManager defaultSession).afterLoad num content).sessions.lookup sid = none) ↔
      ∀ text ∈ content, ∀ file ∈ Json.unmarshal [] (HistoryFile.decode num) text, file = [] := by
  constructor
  · rintro h text rfl file hfile
    refine List.eq_nil_iff_forall_not_mem.mpr ?_
    intro e he
    have hnone := h [] e.1
    rw [sessions_afterLoad, Option.bind_some, unmarshalText, hfile, Option.map_some,
      Option.getD_some] at hnone
    have hsome : ((insertAll (unmarshalHistory file) ∅).lookup e.1).isSome = true := by
      rw [isSome_lookup_insertAll, unmarshalHistory, List.map_map]
      exact Or.inl (List.mem_map.mpr ⟨e, he, rfl⟩)
    rw [hnone] at hsome
    cases hsome
  · intro h defaultSession sid
    rw [sessions_afterLoad]
    cases content with
    | none => rfl
    | some text =>
      rw [Option.bind_some, unmarshalText]
      cases hfile : Json.unmarshal [] (HistoryFile.decode num) text with
      | none => rfl
      | some file =>
        rw [h text rfl file hfile]
        rfl

/-- **`Save` and `Load`.**  A new manager has the sessions that were saved exactly if there
was a session to save, or the file that is left in place holds none, and their ids are
UTF-8. -/
theorem saveRestores_iff (num : NumberFormat) (m : Manager) (prior : Option Str) :
    SaveRestores num m prior ↔
      (m.sessions.entries = [] → ∀ text ∈ prior,
        ∀ file ∈ Json.unmarshal [] (HistoryFile.decode num) text, file = []) ∧
      (Sessions.NilFree m.sessions → ∀ e ∈ m.sessions.entries, utf8Valid e.1 = true) := by
  have hnone : m.sessions.entries = [] → ∀ sid, m.sessions.lookup sid = none := by
    intro hempty sid
    exact congrArg (List.dlookup sid) hempty
  constructor
  · intro h
    constructor
    · intro hempty
      refine (afterLoad_empty_iff num prior).mp ?_
      intro defaultSession sid
      have hlookup := h none prior (saveFile_of_empty hempty) defaultSession sid
      rw [hnone hempty sid] at hlookup
      exact hlookup
    · intro hnil e he
      have hfull : m.sessions.entries ≠ [] := List.ne_nil_of_mem he
      have hlookup := h none _ (saveFile_of_nilFree hfull hnil) [] e.1
      have hsaved : m.sessions.lookup e.1 = some e.2 := AList.mem_lookup_iff.mpr he
      rw [hsaved, Option.map_some, sessions_afterLoad, Option.bind_some] at hlookup
      cases hback : unmarshalText num (HistoryFile.of (messagesOf m.sessions)).text with
      | none =>
        rw [hback] at hlookup
        cases hlookup
      | some back =>
        rw [hback, Option.getD_some] at hlookup
        exact utf8Valid_of_lookup num hback (by rw [hlookup]; rfl)
  · rintro ⟨hprior, hsids⟩ fault content hsave defaultSession sid
    by_cases hempty : m.sessions.entries = []
    · rw [saveFile_of_empty hempty] at hsave
      cases hsave
      rw [hnone hempty sid]
      exact (afterLoad_empty_iff num prior).mpr (hprior hempty) defaultSession sid
    · obtain ⟨hnil, rfl⟩ := written_of_saveFile hempty hsave
      exact lookup_afterLoad num hnil (hsids hnil) defaultSession sid

theorem not_saveRestores_of_empty {num : NumberFormat} {m : Manager} {content : Option Str}
    {defaultSession sid : Str} (hempty : m.sessions.entries = [])
    (hsid : (((newManager defaultSession).afterLoad num content).sessions.lookup sid).isSome
      = true) : ¬ SaveRestores num m content := by
  intro h
  have hnone : m.sessions.lookup sid = none := congrArg (List.dlookup sid) hempty
  rw [h none content (saveFile_of_empty hempty) defaultSession sid, hnone] at hsid
  cases hsid

/-- A session is saved, removed by a `Cleanup`, and saved again, when there is none left:
the next manager has it. -/
theorem removed_session_comes_back :
    ∃ s₀ s₁ text,
      (trackMachine []).run (trackMachine []).init
        [.append 0 (lit "a") [some (Schema.userMessage (lit "hi"))]] = some s₀ ∧
      s₀.manager.saveFile none none = some (.ok (some text)) ∧
      (trackMachine []).run s₀ [.cleanup 100 10] = some s₁ ∧
      s₁.manager.saveFile none (some text) = some (.ok (some text)) ∧
      s₁.manager.sessions.lookup (lit "a") = none ∧
      (((newManager []).afterLoad NumberFormat.same (some text)).sessions.lookup (lit "a")).isSome
        = true ∧
      ¬ SaveRestores NumberFormat.same s₁.manager (some text) := by
  have hnil : Sessions.NilFree
      ((newManager []).append 0 (lit "a") [some (Schema.userMessage (lit "hi"))]).sessions := by
    rw [Sessions.NilFree]
    decide
  have hloaded := lookup_afterLoad NumberFormat.same hnil (by decide) [] (lit "a")
  have hsome : (((newManager []).afterLoad NumberFormat.same (some (HistoryFile.of (messagesOf
      ((newManager []).append 0 (lit "a") [some (Schema.userMessage (lit "hi"))]).sessions)).text)
        ).sessions.lookup (lit "a")).isSome = true := by
    rw [hloaded, Option.isSome_map]
    decide
  refine ⟨_, _, _, rfl, saveFile_of_nilFree (by decide) hnil, rfl, saveFile_of_empty (by decide),
    by decide, hsome, not_saveRestores_of_empty (by decide) hsome⟩

end MiniGoAgent
