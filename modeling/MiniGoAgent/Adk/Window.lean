/-
# `Adk.Window` — the messages an agent's model gets to see (`internal/adk/react.go`)

A ReAct run collects messages: those it was called with, and for every step the
message of the model with its tool calls and one result for each of them.  In front
of every call of the model `MessageRewriter` keeps the last six, and
`MessageModifier` puts the system prompt before them.  On the way out
`NormalizeMessages` drops the results whose call it does not find.

Six messages are cut off wherever they fall.  `agent_window` says what that does to
the question and to the results, for every run.  Results belong to their calls by ID
(`Answers`): those the framework makes have no name.
-/
import MiniGoAgent.Adk.Schema
import MiniGoAgent.Protocol.NormalForm

open Go

namespace MiniGoAgent

variable {msgs : List Message} {r : Message} {calls : List ToolCall} {results : List Message}

/-! ## Results behind their calls -/

/-- The results stand under the IDs of the calls, those of the calls without one left out:
in the order of the calls or, where the IDs tell the calls apart, in any. -/
def Answers (ids : List Str) (results : List Message) : Prop :=
  ∃ unanswered, ids = results.map Message.toolCallID ++ unanswered ∨
    ids.Nodup ∧ [] ∉ ids ∧ ids.Perm (results.map Message.toolCallID ++ unanswered)

/-- Every result stands in a row of results right behind a turn, and answers a call of it. -/
inductive Paired : List Message → Prop
  | nil : Paired []
  | plain {m : Message} {rest : List Message} :
      m.isTurn = false → m.isTool = false → Paired rest → Paired (m :: rest)
  | turn {m : Message} {results rest : List Message} :
      m.isTurn = true → (∀ r ∈ results, r.isTool = true) →
      Answers (m.toolCalls.map ToolCall.id) results → Paired rest →
      Paired (m :: (results ++ rest))

/-- Of the messages in front of the result, a turn has made its call, and nothing but
results follows that turn. -/
def CalledIn (before : List Message) (r : Message) : Prop :=
  ∃ front turn row, before = front ++ turn :: row ∧ turn.isTurn = true ∧
    (∀ m ∈ row, m.isTool = true) ∧ r.toolCallID ∈ turn.toolCalls.map ToolCall.id

theorem Answers.mem {ids : List Str} (h : Answers ids results) (hr : r ∈ results) :
    r.toolCallID ∈ ids := by
  have hmem : ∀ unanswered, r.toolCallID ∈ results.map Message.toolCallID ++ unanswered :=
    fun _ => List.mem_append_left _ (List.mem_map_of_mem hr)
  obtain ⟨unanswered, rfl | ⟨_, _, hperm⟩⟩ := h
  · exact hmem unanswered
  · exact hperm.mem_iff.mpr (hmem unanswered)

theorem CalledIn.append {before : List Message} (h : CalledIn before r) (front : List Message) :
    CalledIn (front ++ before) r := by
  obtain ⟨front', turn, row, rfl, hcalled⟩ := h
  exact ⟨front ++ front', turn, row, (List.append_assoc ..).symm, hcalled⟩

namespace Paired

theorem head_not_tool (h : Paired msgs) : msgs.takeWhile Message.isTool = [] := by
  cases h with
  | nil => rfl
  | plain _ htool _ => simp [htool]
  | turn hturn _ _ _ => simp [not_isTool_of_isTurn hturn]

theorem dropWhile_eq (h : Paired msgs) : msgs.dropWhile Message.isTool = msgs := by
  have hsplit := List.takeWhile_append_dropWhile (p := Message.isTool) (l := msgs)
  rwa [h.head_not_tool, List.nil_append] at hsplit

theorem append {msgs' : List Message} (h : Paired msgs) (h' : Paired msgs') :
    Paired (msgs ++ msgs') := by
  induction h with
  | nil => exact h'
  | plain hturn htool _ ih => exact .plain hturn htool ih
  | turn hturn htools hanswers _ ih =>
    rw [List.cons_append, List.append_assoc]
    exact .turn hturn htools hanswers ih

theorem takeWhile_results (htools : ∀ r ∈ results, r.isTool = true) (h : Paired msgs) :
    (results ++ msgs).takeWhile Message.isTool = results := by
  rw [List.takeWhile_append_of_pos htools, h.head_not_tool, List.append_nil]

theorem dropWhile_results (htools : ∀ r ∈ results, r.isTool = true) (h : Paired msgs) :
    (results ++ msgs).dropWhile Message.isTool = msgs := by
  rw [List.dropWhile_append_of_pos htools, h.dropWhile_eq]

theorem drop (h : Paired msgs) (n : Nat) : Paired ((msgs.drop n).dropWhile Message.isTool) := by
  induction h generalizing n with
  | nil =>
    rw [List.drop_nil]
    exact .nil
  | plain hturn htool hrest ih =>
    cases n with
    | zero =>
      rw [List.drop_zero, (Paired.plain hturn htool hrest).dropWhile_eq]
      exact .plain hturn htool hrest
    | succ n => exact ih n
  | @turn m results rest hturn htools hanswers hrest ih =>
    cases n with
    | zero =>
      rw [List.drop_zero, (Paired.turn hturn htools hanswers hrest).dropWhile_eq]
      exact .turn hturn htools hanswers hrest
    | succ n =>
      rw [List.drop_succ_cons, List.drop_append]
      by_cases hle : n ≤ results.length
      · -- the cut is among the results: those behind it go too
        rw [Nat.sub_eq_zero_of_le hle, List.drop_zero,
          dropWhile_results (fun r hr => htools r (List.mem_of_mem_drop hr)) hrest]
        exact hrest
      · rw [List.drop_eq_nil_of_le (by omega), List.nil_append]
        exact ih _

theorem calledIn (h : Paired msgs) {before behind : List Message}
    (hmsgs : msgs = before ++ r :: behind) (hr : r.isTool = true) : CalledIn before r := by
  induction h generalizing before with
  | nil => simp at hmsgs
  | @plain m rest _ htool _ ih =>
    cases before with
    | nil =>
      obtain ⟨rfl, _⟩ := List.cons.inj hmsgs
      rw [hr] at htool
      cases htool
    | cons _ before =>
      obtain ⟨rfl, hrest⟩ := List.cons.inj hmsgs
      exact (ih hrest).append [m]
  | @turn m results rest hturn htools hanswers _ ih =>
    cases before with
    | nil =>
      obtain ⟨rfl, _⟩ := List.cons.inj hmsgs
      rw [not_isTool_of_isTurn hturn] at hr
      cases hr
    | cons _ before =>
      obtain ⟨rfl, hrest⟩ := List.cons.inj hmsgs
      rcases List.append_eq_append_iff.mp hrest with ⟨between, rfl, hbehind⟩ | ⟨more, rfl, hmore⟩
      · exact (ih hbehind).append (m :: results)
      · cases more with
        | nil =>
          have hfirst : CalledIn [] r := ih hmore.symm
          have hcalled := hfirst.append (m :: before)
          rwa [List.append_nil] at hcalled
        | cons _ more =>
          -- one of the results of this turn
          obtain ⟨rfl, _⟩ := List.cons.inj hmore
          exact ⟨[], m, before, rfl, hturn,
            fun m' hm' => htools m' (List.mem_append_left _ hm'),
            hanswers.mem (List.mem_append_right _ List.mem_cons_self)⟩

end Paired

theorem calledIn_iff (h : Paired (msgs.dropWhile Message.isTool)) {before behind : List Message}
    (hmsgs : msgs = before ++ r :: behind) (hr : r.isTool = true) :
    CalledIn before r ↔ ∃ m ∈ before, m.isTool = false := by
  constructor
  · rintro ⟨front, turn, row, rfl, hturn, _⟩
    exact ⟨turn, List.mem_append_right _ List.mem_cons_self, not_isTool_of_isTurn hturn⟩
  · rintro ⟨m, hm, hother⟩
    have hleft : before.dropWhile Message.isTool ≠ [] := by
      rw [ne_eq, List.dropWhile_eq_nil_iff]
      intro hall
      rw [hall m hm] at hother
      cases hother
    rw [hmsgs, List.dropWhile_append, if_neg (by simpa using hleft)] at h
    have hcalled := (h.calledIn rfl hr).append (before.takeWhile Message.isTool)
    rwa [List.takeWhile_append_dropWhile] at hcalled

/-! ## What the normaliser keeps -/

/-- A result but for its name, which `pairToolResults` takes from the call. -/
def Message.unnamed (m : Message) : Message := { m with name := [] }

/-- What stands for the result of an unanswered call, but for the name. -/
def unansweredResult (id : Str) : Message :=
  { role := roleTool, toolCallID := id, content := interruptedToolResult }

theorem unnamed_pairByID (byID : Str → Option Message) (tc : ToolCall) :
    (pairByID byID tc).unnamed = (byID tc.id).elim (unansweredResult tc.id) Message.unnamed := by
  fun_cases pairByID byID tc
  case case1 hfound | case2 hfound =>
    rw [hfound]
    rfl

theorem unnamed_pairByPosition {unanswered : List Str}
    (hids : calls.map ToolCall.id = results.map Message.toolCallID ++ unanswered) :
    (pairByPosition calls results).map Message.unnamed =
      results.map Message.unnamed ++ unanswered.map unansweredResult := by
  induction calls generalizing results unanswered with
  | nil =>
    obtain ⟨hresults, rfl⟩ := List.append_eq_nil_iff.mp hids.symm
    rw [List.map_eq_nil_iff.mp hresults]
    rfl
  | cons tc calls ih =>
    cases results with
    | nil =>
      obtain rfl : tc.id :: calls.map ToolCall.id = unanswered := hids
      rw [pairByPosition, List.map_cons, @ih [] _ rfl]
      rfl
    | cons r results =>
      obtain ⟨hid, hrest⟩ := List.cons.inj hids
      rw [pairByPosition, List.map_cons, ih hrest, hid]
      rfl

theorem Answers.pairToolResults (h : Answers (calls.map ToolCall.id) results) :
    ∃ unanswered, ((pairToolResults calls results).map Message.unnamed).Perm
      (results.map Message.unnamed ++ List.map unansweredResult unanswered) := by
  obtain ⟨unanswered, h⟩ := h
  refine ⟨unanswered, ?_⟩
  fun_cases MiniGoAgent.pairToolResults calls results
  case case1 hdistinct =>
    have hperm : (calls.map ToolCall.id).Perm (results.map Message.toolCallID ++ unanswered) := by
      rcases h with heq | ⟨_, _, hperm⟩
      · rw [heq]
      · exact hperm
    obtain ⟨hnodup, _, hother⟩ := List.nodup_append.mp
      (hperm.nodup_iff.mp (ids_of_idDistinctFrom hdistinct).1)
    -- the answer depends on the ID alone
    have hmap := hperm.map fun id =>
      (mapOf (·.toolCallID) (fun r => r) results id).elim (unansweredResult id) Message.unnamed
    rw [List.map_map, List.map_append, List.map_map] at hmap
    rw [List.map_map, show Message.unnamed ∘ pairByID (mapOf (·.toolCallID) id results) = _ from
      funext (unnamed_pairByID _)]
    refine hmap.trans (.of_eq (congrArg₂ _ (List.map_congr_left ?_) (List.map_congr_left ?_)))
    · intro r hr
      exact congrArg (Option.elim · _ _) (mapOf_mem hnodup hr)
    · intro id hid
      cases hfound : mapOf (·.toolCallID) (fun r => r) results id with
      | none => rfl
      | some r =>
        obtain ⟨r, hr, hkey, _⟩ := mapOf_some hfound
        exact absurd hkey (hother _ (List.mem_map_of_mem hr) id hid)
  case case2 hsame =>
    rcases h with heq | ⟨hnodup, hids, _⟩
    · rw [unnamed_pairByPosition heq]
    · refine absurd (idDistinctFrom_of_nodup hnodup ?_ fun _ _ => List.not_mem_nil) hsame
      intro tc htc hnil
      exact hids (hnil ▸ List.mem_map_of_mem htc)

theorem backfillToolCallNames_ids (calls : List ToolCall) (results : List Message) :
    (backfillToolCallNames calls results).map ToolCall.id = calls.map ToolCall.id := by
  have hids := congrArg (List.map Prod.fst) (backfillToolCallNames_frames calls results)
  rwa [List.map_map, List.map_map] at hids

theorem Paired.filter_normalizeLoop (h : Paired msgs) :
    ∃ unanswered, (((normalizeLoop msgs).filter Message.isTool).map Message.unnamed).Perm
      ((msgs.filter Message.isTool).map Message.unnamed ++
        List.map unansweredResult unanswered) := by
  induction h with
  | nil => exact ⟨[], by rw [normalizeLoop]; rfl⟩
  | plain hturn htool _ ih =>
    rw [normalizeLoop, if_neg (by simp [hturn]), if_neg (by simp [htool])]
    rwa [List.filter_cons_of_neg (by simp [htool]), List.filter_cons_of_neg (by simp [htool])]
  | @turn m results rest hturn htools hanswers hrest ih =>
    obtain ⟨unanswered, ih⟩ := ih
    have hnot : m.isTool = false := not_isTool_of_isTurn hturn
    have hrepaired (calls : List ToolCall) :
        (repairToolCallArgs { m with toolCalls := calls }).isTool = false := by
      rw [Message.isTool, repairToolCallArgs_role]
      exact hnot
    rw [← backfillToolCallNames_ids m.toolCalls results] at hanswers
    obtain ⟨unanswered', hpaired⟩ := hanswers.pairToolResults
    have hall := (pairToolResults_spec (backfillToolCallNames m.toolCalls results) htools).1
    refine ⟨unanswered' ++ unanswered, ?_⟩
    rw [normalizeLoop, if_pos hturn]
    simp only [takeWhile_results htools hrest, dropWhile_results htools hrest]
    rw [List.filter_cons_of_neg (by simp [hrepaired]), List.filter_cons_of_neg (by simp [hnot]),
      List.filter_append, List.filter_append, List.filter_eq_self.mpr hall,
      List.filter_eq_self.mpr htools, List.map_append, List.map_append, List.map_append]
    refine (hpaired.append ih).trans ?_
    rw [List.append_assoc, List.append_assoc]
    refine List.Perm.append_left _ ?_
    rw [← List.append_assoc, ← List.append_assoc]
    exact List.perm_append_comm.append_right _

theorem normalizeLoop_dropWhile (msgs : List Message) :
    normalizeLoop (msgs.dropWhile Message.isTool) = normalizeLoop msgs := by
  induction msgs with
  | nil => rfl
  | cons m rest ih =>
    by_cases htool : m.isTool = true
    · have hturn : ¬ m.isTurn = true := by
        intro hturn
        rw [not_isTool_of_isTurn hturn] at htool
        cases htool
      rw [List.dropWhile_cons_of_pos htool, ih]
      conv => rhs; rw [normalizeLoop, if_neg hturn, if_pos htool]
    · rw [List.dropWhile_cons_of_neg htool]

/-! ## Runs of the agent -/

namespace Adk

def messageRewriter {α : Type} (msgs : List α) : List α :=
  if msgs.length ≤ 6 then msgs else msgs.drop (msgs.length - 6)

def messageModifier (prompt : Str) (input : List Schema.Message) : List Schema.Message :=
  { role := roleSystem, content := prompt } :: input

/-- The protocol message of a message that is there. -/
def proto (m : Schema.Message) : MiniGoAgent.Message := (toProtoMsg (some m)).get rfl

/-- A step of the run: the model has called for tools, and results answer the calls. -/
structure AgentStep where
  turn : Schema.Message
  results : List Schema.Message
  calls : (proto turn).isTurn = true
  tools : ∀ r ∈ results.map proto, r.isTool = true
  answers : Answers ((proto turn).toolCalls.map MiniGoAgent.ToolCall.id) (results.map proto)

def AgentStep.messages (s : AgentStep) : List Schema.Message := s.turn :: s.results

/-- A run up to a call of the model. -/
structure AgentRun where
  input : List Schema.Message
  steps : List AgentStep

namespace AgentRun

variable (run : AgentRun)

def messages : List Schema.Message := run.input ++ run.steps.flatMap AgentStep.messages

def window : List Schema.Message := messageRewriter run.messages

/-- What `NormalizeMessages` makes of it, behind the prompt; `none` is a panic. -/
def sent (prompt : Str) : Option (List MiniGoAgent.Message) :=
  (toProtoMsgs ((messageModifier prompt run.window).map some)).map normalizeMessages

end AgentRun

/-! ## The window -/

theorem messageRewriter_eq {α : Type} (msgs : List α) :
    messageRewriter msgs = msgs.drop (msgs.length - 6) := by
  unfold messageRewriter
  split
  next hle => rw [Nat.sub_eq_zero_of_le hle, List.drop_zero]
  next => rfl

theorem messageRewriter_append {α : Type} (msgs msgs' : List α) :
    messageRewriter (messageRewriter msgs ++ msgs') = messageRewriter (msgs ++ msgs') := by
  by_cases hle : msgs.length ≤ 6
  · rw [show messageRewriter msgs = msgs from if_pos hle]
  · rw [messageRewriter_eq msgs, messageRewriter_eq, messageRewriter_eq, List.length_append,
      List.length_append, List.length_drop, List.drop_append, List.drop_append, List.drop_drop,
      List.length_drop]
    congr 2 <;> omega

/-- The messages behind some steps, if what the rewriter cuts off is not kept. -/
def keptMessages (input : List Schema.Message) (steps : List (List Schema.Message)) :
    List Schema.Message :=
  steps.foldl (fun msgs s => messageRewriter msgs ++ s) input

theorem toolCalls_proto (m : Schema.Message) :
    (proto m).toolCalls = m.toolCalls.map (fun tc =>
      { id := tc.id, type := tc.type, name := tc.function.name,
        arguments := tc.function.arguments }) := rfl

theorem toProtoMsgs_map_some (msgs : List Schema.Message) :
    toProtoMsgs (msgs.map some) = some (msgs.map proto) := by
  induction msgs with
  | nil => rfl
  | cons m rest ih =>
    rw [toProtoMsgs] at ih ⊢
    rw [List.map_cons, List.mapM_cons, ih]
    rfl

namespace AgentRun

variable {run : AgentRun}

theorem paired_messages (hinput : Paired (run.input.map proto)) :
    Paired (run.messages.map proto) := by
  have hsteps : ∀ steps : List AgentStep,
      Paired ((steps.flatMap AgentStep.messages).map proto) := by
    intro steps
    induction steps with
    | nil => exact .nil
    | cons s steps ih =>
      rw [List.flatMap_cons, List.map_append, AgentStep.messages, List.map_cons, List.cons_append]
      exact .turn s.calls s.tools s.answers ih
  rw [messages, List.map_append]
  exact hinput.append (hsteps run.steps)

theorem paired_window (hinput : Paired (run.input.map proto)) :
    Paired ((run.window.map proto).dropWhile MiniGoAgent.Message.isTool) := by
  rw [window, messageRewriter_eq, List.map_drop]
  exact (paired_messages hinput).drop _

theorem user_in_window {i : Nat} {m : Schema.Message} (hi : run.messages[i]? = some m)
    (huser : m.role = roleUser)
    (hlatest : ∀ j m', i < j → run.messages[j]? = some m' → m'.role ≠ roleUser) :
    (∃ u ∈ run.window, u.role = roleUser) ↔ run.messages.length ≤ i + 6 := by
  have hbound : i < run.messages.length := (List.getElem?_eq_some_iff.mp hi).1
  rw [window, messageRewriter_eq]
  constructor
  · rintro ⟨u, hu, hrole⟩
    obtain ⟨k, hk⟩ := List.mem_iff_getElem?.mp hu
    rw [List.getElem?_drop] at hk
    by_contra hnot
    exact hlatest _ u (by omega) hk hrole
  · intro hle
    refine ⟨m, List.mem_iff_getElem?.mpr ⟨i - (run.messages.length - 6), ?_⟩, huser⟩
    rw [List.getElem?_drop, show run.messages.length - 6 + (i - (run.messages.length - 6)) = i by
      omega]
    exact hi

end AgentRun

/-- What the tool of the steps below answers; the framework leaves the name out. -/
def searchResult : Schema.Message where
  role := roleTool
  toolCallID := lit "c"
  content := lit "found"

/-- A step with one call of the tool, and `n` more. -/
def searchStep (n : Nat) : AgentStep where
  turn :=
    { role := roleAssistant
      toolCalls :=
        List.replicate (n + 1) { id := lit "c", function := { name := lit "search" } } }
  results := List.replicate (n + 1) searchResult
  calls := rfl
  tools := by
    intro r hr
    rw [List.map_replicate] at hr
    rw [List.eq_of_mem_replicate hr]
    rfl
  answers := by
    refine ⟨[], Or.inl ?_⟩
    rw [toolCalls_proto, List.map_replicate, List.map_replicate, List.map_replicate,
      List.map_replicate, List.append_nil]
    rfl

end Adk

end MiniGoAgent
