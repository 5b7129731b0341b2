/-
# `Server.Histories` — what interleaved requests leave in the histories

`serverMachine` interleaves the two halves of the handlers with `Cleanup` and
`Load`.  The model name and the answers of the tools come with each request.

A request about an image stores the message `prepareVisionMessage` has made of
it.  For a model without vision there is none: the image is described by a tool,
the description is shown to the agent, and what is stored is nil.  So histories
stay free of nil messages exactly as long as no such request gets its answer
(`histories_usable_iff`).
-/
import MiniGoAgent.Go.Machine
import MiniGoAgent.Server.Handlers

open Go

namespace MiniGoAgent

variable {outcome : AgentOutcome}

/-! ## The machine -/

/-- A request whose handler waits for the agent. -/
structure InFlight where
  req : Request
  model : Str
  running : Running

structure ServerState where
  manager : Manager
  inFlight : Nat → Option InFlight := fun _ => none

inductive ServerEvent where
  /-- a request under a number that is free, up to the agent -/
  | arrive (id : Nat) (now : Int) (req : Request) (r : HttpCall) (model : Str)
      (tools : VisionTools)
  /-- the rest of it -/
  | agentDone (id : Nat) (now : Int) (outcome : AgentOutcome)
  | cleanup (now maxAge : Int)
  | load (file : HistoryFile)

def serverMachine (defaultSession : Str) : Machine ServerState ServerEvent where
  init := { manager := newManager defaultSession }
  step s
    | .arrive id now req r model tools =>
      match s.inFlight id with
      | some _ => none
      | none =>
        some {
          manager := (req.arrive tools model now r s.manager).1
          inFlight := Function.update s.inFlight id
            ((req.arrive tools model now r s.manager).2.map
              (fun running => { req, model, running })) }
    | .agentDone id now outcome =>
      (s.inFlight id).bind (fun f =>
        (f.running.agentDone now outcome s.manager).map (fun manager =>
          { manager, inFlight := Function.update s.inFlight id none }))
    | .cleanup now maxAge => some { s with manager := (s.manager.cleanup now maxAge).1 }
    | .load file => some { s with manager := (s.manager.load file).1 }

/-! ## Which requests store nil -/

def Request.isVision : Request → Bool
  | .chat (some message) localImage => hasPrefix (chatText message localImage) (lit "data:image/")
  | .chat none _ => false
  | .chatStream _ => false
  | .vision _ => true
  | .visionStream _ => true

def InFlight.viaTool (f : InFlight) : Bool := f.req.isVision && !supportsVision f.model

/-- The handler gets to its `Append`. -/
def AgentOutcome.answers (call : AgentCall) : AgentOutcome → Bool
  | .failed => false
  | .generated _ => true
  | .streamed chunks _ gone =>
    match call with
    | .generate => true
    | .stream watched => !(watched && gone) && !chunks.contains none

/-- The agent gives no nil message, and no answer to a request whose image went
to the tool. -/
def Harmless (s : ServerState) : ServerEvent → Prop
  | .agentDone id _ outcome =>
    ∀ f, s.inFlight id = some f →
      outcome.answers f.running.call = true → f.viaTool = false ∧
        ∀ result, outcome = .generated result → result ≠ none
  | _ => True

/-- The histories are free of nil messages; they can be saved, and be handed to the
provider with the next message. -/
def Manager.Usable (m : Manager) : Prop :=
  m.NilFree ∧ m.save.isSome = true ∧
    ∀ (now : Int) (sid : Str) (next : Schema.Message),
      (toProtoMsgs (m.snapshotWith now sid [some next]).2).isSome = true

theorem usable_iff_nilFree (m : Manager) : m.Usable ↔ m.NilFree := by
  constructor
  · intro h
    exact h.1
  · intro h
    refine ⟨h, ?_, ?_⟩
    · rw [Manager.save]
      split
      · rfl
      · rw [Option.isSome_map]
        exact (isSome_marshal_iff m).mpr h
    · intro now sid next
      rw [isSome_toProtoMsgs_iff]
      intro hnone
      rcases List.mem_append.mp hnone with hnone | hnone
      · exact h sid hnone
      · exact absurd hnone (by simp)

/-! ## Arrivals -/

/-- What an arrival leaves: the histories as they were, and a handler that is to
store nil exactly if `toNil`. -/
structure Arrived (m : Manager) (toNil : Prop) (p : Manager × Option Running) : Prop where
  history : ∀ k, p.1.history k = m.history k
  userMsg : ∀ q, p.2 = some q → (q.userMsg = none ↔ toNil)

namespace Arrived

variable {m : Manager} {toNil : Prop}

theorem refused : Arrived m toNil (m, none) :=
  ⟨fun _ => rfl, fun _ hq => nomatch hq⟩

theorem ask (now : Int) (sid : Str) {userMsg : Option Schema.Message}
    (h : userMsg = none ↔ toNil) (extra : Option Schema.Message) (call : AgentCall) :
    Arrived m toNil (m.ask now sid userMsg extra call) := by
  refine ⟨fun k => m.history_snapshotWith now sid [extra] k, ?_⟩
  rintro q ⟨⟩
  exact h

end Arrived

theorem prepareVisionMessage_userMsg {tools : VisionTools} {model imageURL prompt : Str}
    {userMsg : Option Schema.Message} {visionResult : Str} {isNative : Bool}
    (h : prepareVisionMessage tools model imageURL prompt =
      .ok (userMsg, visionResult, isNative)) : userMsg = none ↔ supportsVision model = false := by
  revert h
  fun_cases prepareVisionMessage tools model imageURL prompt
  case case2 hvision _ _ _ _ =>
    rintro ⟨⟩
    simp [hvision]
  case case4 hvision _ _ =>
    rintro ⟨⟩
    simpa using hvision
  all_goals nofun

section Arrive

variable (tools : VisionTools) (model : Str) (now : Int) (m : Manager)

theorem processVisionNonStream_arrived (sid imageURL prompt : Str) :
    Arrived m (supportsVision model = false)
      (processVisionNonStream tools model now sid imageURL prompt m) := by
  fun_cases processVisionNonStream tools model now sid imageURL prompt m
  case case1 => exact .refused
  case case2 heq | case3 heq _ _ => exact .ask now sid (prepareVisionMessage_userMsg heq) _ _

theorem processVisionStream_arrived (sid imageURL prompt : Str) :
    Arrived m (supportsVision model = false)
      (processVisionStream tools model now sid imageURL prompt m) := by
  fun_cases processVisionStream tools model now sid imageURL prompt m
  case case1 => exact .refused
  case case2 heq | case3 heq _ _ => exact .ask now sid (prepareVisionMessage_userMsg heq) _ _

theorem arrive_arrived (req : Request) (r : HttpCall) :
    Arrived m (req.isVision = true ∧ supportsVision model = false)
      (req.arrive tools model now r m) := by
  have hvision : ∀ {p : Manager × Option Running}, req.isVision = true →
      Arrived m (supportsVision model = false) p →
        Arrived m (req.isVision = true ∧ supportsVision model = false) p := by
    intro p hreq hp
    refine ⟨hp.history, ?_⟩
    intro q hq
    rw [hp.userMsg q hq]
    exact ⟨fun h => ⟨hreq, h⟩, fun h => h.2⟩
  have htext : ∀ {userMsg : Schema.Message}, req.isVision = false →
      (some userMsg = none ↔ req.isVision = true ∧ supportsVision model = false) := by
    intro userMsg hreq
    rw [hreq]
    exact ⟨fun h => absurd h (by simp), fun h => absurd h.1 (by simp)⟩
  cases req with
  | chat message localImage =>
    show Arrived m _ (handleChat tools model now r message localImage m)
    fun_cases handleChat tools model now r message localImage m
    case case1 himage =>
      exact hvision himage (processVisionNonStream_arrived tools model now m _ _ _)
    case case2 himage _ => exact .ask now _ (htext (Bool.not_eq_true _ ▸ himage)) _ _
    case case3 => exact .refused
  | chatStream message =>
    show Arrived m _ (handleChatStream now r message m)
    fun_cases handleChatStream now r message m
    case case1 message _ _ _ _ heq =>
      have hask : Arrived m _ (m.ask now (m.sessionID r) (some (Schema.userMessage message))
          (some (Schema.userMessage message)) (.stream true)) := .ask now _ (htext rfl) _ _
      rw [heq] at hask
      refine ⟨hask.history, ?_⟩
      intro q hq
      exact hask.userMsg q (Option.ite_none_right_eq_some.mp hq).2
    case case2 => exact .refused
  | vision body =>
    show Arrived m _ (handleVision tools model now r body m)
    fun_cases handleVision tools model now r body m
    case case1 => exact hvision rfl (processVisionNonStream_arrived tools model now m _ _ _)
    case case2 => exact .refused
  | visionStream body =>
    show Arrived m _ (handleVisionNativeStream tools model now r body m)
    fun_cases handleVisionNativeStream tools model now r body m
    case case1 => exact hvision rfl (processVisionStream_arrived tools model now m _ _ _)
    all_goals exact .refused

end Arrive

/-! ## Answers -/

theorem isSome_fullContent_iff (chunks : List (Option Schema.Message)) :
    (fullContent chunks).isSome = true ↔ none ∉ chunks := by
  rw [fullContent, Option.isSome_map]
  refine isSome_mapM_pointers ?_ chunks
  intro c
  exact Option.isSome_map

/-- The answer a run of the agent comes to, if it comes to one. -/
def AgentOutcome.reply : AgentCall → AgentOutcome → Option (Option Schema.Message)
  | .generate, .generated result => some result
  | .stream watched, .streamed chunks _ gone =>
    if watched && gone then none
    else (fullContent chunks).map (fun content => some { role := roleAssistant, content })
  | _, _ => none

theorem appended_reply {q : Running} {msgs : Option History} (h : q.appended outcome = some msgs) :
    msgs = (outcome.reply q.call).map (fun reply => [q.userMsg, reply]) ∧
      outcome.answers q.call = (outcome.reply q.call).isSome := by
  revert h
  fun_cases q.appended outcome
  case case1 =>
    rintro ⟨⟩
    cases q.call <;> exact ⟨rfl, rfl⟩
  case case2 hcall =>
    rintro ⟨⟩
    rw [hcall]
    exact ⟨rfl, rfl⟩
  case case5 hcall hgone =>
    rintro ⟨⟩
    simp [AgentOutcome.reply, AgentOutcome.answers, hcall, hgone]
  case case6 chunks _ gone watched hcall hgone =>
    rintro ⟨⟩
    rw [Bool.not_eq_true] at hgone
    refine ⟨by simp [AgentOutcome.reply, hcall, hgone, Function.comp_def], ?_⟩
    rw [Bool.eq_iff_iff]
    simp [AgentOutcome.reply, AgentOutcome.answers, hcall, hgone, isSome_fullContent_iff]
  all_goals
    intro h
    cases h

variable {now : Int}

theorem agentDone_reply {q : Running} {m m' : Manager} (h : q.agentDone now outcome m = some m') :
    m' = (outcome.reply q.call).elim m (fun reply => m.append now q.sid [q.userMsg, reply]) ∧
      outcome.answers q.call = (outcome.reply q.call).isSome := by
  obtain ⟨msgs, hmsgs, rfl⟩ := Option.map_eq_some_iff.mp h
  obtain ⟨rfl, hanswers⟩ := appended_reply hmsgs
  refine ⟨?_, hanswers⟩
  cases outcome.reply q.call <;> rfl

theorem reply_not_nil_iff {call : AgentCall}
    {reply : Option Schema.Message} (h : outcome.reply call = some reply) :
    ¬ none = reply ↔ ∀ result, outcome = .generated result → result ≠ none := by
  revert h
  fun_cases outcome.reply call
  case case1 =>
    rintro ⟨⟩
    simp [eq_comm]
  case case3 =>
    intro h
    obtain ⟨content, _, rfl⟩ := Option.map_eq_some_iff.mp h
    simp
  all_goals nofun

theorem nilFree_append_iff {m : Manager} (h : m.NilFree) (now : Int) (sid : Str)
    (msgs : History) : (m.append now sid msgs).NilFree ↔ none ∉ msgs := by
  constructor
  · intro hall hnone
    have hsid := hall sid
    rw [m.history_append_self] at hsid
    exact hsid (List.mem_append_right _ hnone)
  · intro hmsgs k
    by_cases hk : k = sid
    · subst hk
      rw [m.history_append_self]
      intro hnone
      rcases List.mem_append.mp hnone with hnone | hnone
      · exact h k hnone
      · exact hmsgs hnone
    · rw [m.history_append_of_ne now hk]
      exact h k

/-! ## Steps and runs -/

/-- A waiting handler is to store nil exactly if its image went to the tool. -/
def Tagged (s : ServerState) : Prop :=
  ∀ id f, s.inFlight id = some f → (f.running.userMsg = none ↔ f.viaTool = true)

theorem InFlight.viaTool_iff (f : InFlight) :
    f.viaTool = true ↔ f.req.isVision = true ∧ supportsVision f.model = false := by
  rw [InFlight.viaTool, Bool.and_eq_true, Bool.not_eq_true']

variable {defaultSession : Str} {s s' : ServerState}

theorem step_arrive {id : Nat} {req : Request} {r : HttpCall} {model : Str}
    {tools : VisionTools}
    (hstep : (serverMachine defaultSession).step s (.arrive id now req r model tools) = some s') :
    s' = {
      manager := (req.arrive tools model now r s.manager).1
      inFlight := Function.update s.inFlight id
        ((req.arrive tools model now r s.manager).2.map
          (fun running => { req, model, running })) } := by
  cases hfree : s.inFlight id <;> simp only [serverMachine, hfree] at hstep <;> cases hstep
  rfl

theorem step_agentDone {id : Nat}
    (hstep : (serverMachine defaultSession).step s (.agentDone id now outcome) = some s') :
    ∃ f, s.inFlight id = some f ∧
      f.running.agentDone now outcome s.manager = some s'.manager ∧
      s'.inFlight = Function.update s.inFlight id none := by
  obtain ⟨f, hf, hstep⟩ := Option.bind_eq_some_iff.mp hstep
  obtain ⟨m', hm', rfl⟩ := Option.map_eq_some_iff.mp hstep
  exact ⟨f, hf, hm', rfl⟩

theorem tagged_step (e : ServerEvent) (h : Tagged s)
    (hstep : (serverMachine defaultSession).step s e = some s') : Tagged s' := by
  cases e with
  | arrive id now req r model tools =>
    intro k f hf
    rw [step_arrive hstep] at hf
    rcases update_eq_some hf with ⟨_, hf⟩ | ⟨_, hf⟩
    · obtain ⟨q, hq, rfl⟩ := Option.map_eq_some_iff.mp hf
      rw [InFlight.viaTool_iff]
      exact (arrive_arrived tools model now s.manager req r).userMsg q hq
    · exact h k f hf
  | agentDone id now outcome =>
    obtain ⟨f, _, _, hleft⟩ := step_agentDone hstep
    intro k g hg
    rw [hleft] at hg
    rcases update_eq_some hg with ⟨_, hg⟩ | ⟨_, hg⟩
    · cases hg
    · exact h k g hg
  | cleanup | load =>
    cases hstep
    exact h

theorem nilFree_step_iff (e : ServerEvent) (htag : Tagged s) (h : s.manager.NilFree)
    (hstep : (serverMachine defaultSession).step s e = some s') :
    Harmless s e ↔ s'.manager.NilFree := by
  cases e with
  | arrive id now req r model tools =>
    refine iff_of_true trivial ?_
    intro k
    rw [step_arrive hstep, (arrive_arrived tools model now s.manager req r).history k]
    exact h k
  | agentDone id now outcome =>
    obtain ⟨f, hf, hdone, _⟩ := step_agentDone hstep
    have hharmless : Harmless s (.agentDone id now outcome) ↔
        (outcome.answers f.running.call = true → f.viaTool = false ∧
          ∀ result, outcome = .generated result → result ≠ none) := by
      simp [Harmless, hf]
    obtain ⟨hleft, hanswers⟩ := agentDone_reply hdone
    rw [hharmless, hleft, hanswers]
    cases hreply : outcome.reply f.running.call with
    | none => exact iff_of_true nofun h
    | some reply =>
      rw [Option.elim_some, nilFree_append_iff h, List.mem_pair, not_or, eq_comm (a := none),
        htag id f hf, reply_not_nil_iff hreply, Bool.not_eq_true]
      exact ⟨fun hboth => hboth rfl, fun hboth _ => hboth⟩
  | cleanup now maxAge =>
    cases hstep
    refine iff_of_true trivial ?_
    intro k
    rcases s.manager.history_cleanup now maxAge k with hk | hk
    · rw [hk]
      exact h k
    · rw [hk]
      exact List.not_mem_nil
  | load file =>
    cases hstep
    refine iff_of_true trivial ?_
    intro k
    rcases s.manager.history_load file k with hk | ⟨e, he, hk⟩
    · rw [hk]
      exact h k
    · rw [hk]
      exact none_notMem_unmarshalHistory he

/-- The histories are usable in every state of a run exactly if every step of it is
harmless. -/
theorem histories_usable_iff {events : List ServerEvent}
    (hrun : ((serverMachine defaultSession).run (serverMachine defaultSession).init
      events).isSome = true) :
    (∀ front state, front <+: events →
        (serverMachine defaultSession).run (serverMachine defaultSession).init front = some state →
          state.manager.Usable) ↔
      (serverMachine defaultSession).Along Harmless (serverMachine defaultSession).init events := by
  have htag : Tagged (serverMachine defaultSession).init := by
    intro id f hf
    cases hf
  have hfree : (serverMachine defaultSession).init.manager.Usable :=
    (usable_iff_nilFree _).mpr (fun _ => List.not_mem_nil)
  refine ((serverMachine defaultSession).along_iff (I := fun s => s.manager.Usable) (J := Tagged)
    ?_ ?_ htag hfree hrun).symm
  · intro s e s' hs hstep
    exact tagged_step e hs hstep
  · intro s e s' htag hs hstep
    rw [usable_iff_nilFree] at hs ⊢
    exact nilFree_step_iff e htag hs hstep

/-- Tools that know no image but one they are handed themselves. -/
def seeing : VisionTools where
  imageToDataURL img := if hasPrefix img (lit "data:") then .ok img else .error (lit "no image")
  runVision img _ :=
    if hasPrefix img (lit "data:") then .ok (lit "a cat") else .error (lit "no image")

/-- A request to `HandleVision`, and its answer. -/
def visionRun (model : Str) : List ServerEvent :=
  [.arrive 0 0 (.vision (some (lit "data:image/png;base64,AA==", lit "what is it?"))) {} model
      seeing,
    .agentDone 0 1 (.generated (some { role := roleAssistant, content := lit "a cat" }))]

theorem histories_usable_iff_native :
    ((serverMachine []).run (serverMachine []).init (visionRun (lit "gpt-4o"))).isSome = true ∧
    ((∀ front state, front <+: visionRun (lit "gpt-4o") →
        (serverMachine []).run (serverMachine []).init front = some state →
          state.manager.Usable) ↔
      (serverMachine []).Along Harmless (serverMachine []).init (visionRun (lit "gpt-4o"))) := by
  have hrun : ((serverMachine []).run (serverMachine []).init
      (visionRun (lit "gpt-4o"))).isSome = true := by decide +kernel
  exact ⟨hrun, histories_usable_iff hrun⟩

/-- An image and a model without vision: nil is stored in front of the answer, and
neither saving nor the next request gets over it. -/
theorem described_image_stores_nil :
    ∃ state, (serverMachine []).run (serverMachine []).init (visionRun (lit "deepseek-chat")) =
        some state ∧
      state.manager.history (lit "default") =
        [none, some { role := roleAssistant, content := lit "a cat" }] ∧
      state.manager.save.isSome = false ∧
      (toProtoMsgs (state.manager.snapshotWith 2 (lit "default")
        [some (Schema.userMessage (lit "and now?"))]).2).isSome = false ∧
      ¬ state.manager.Usable := by
  have hrun : ((serverMachine []).run (serverMachine []).init
      (visionRun (lit "deepseek-chat"))).map (fun state =>
        (state.manager.history (lit "default"), state.manager.save.isSome,
          (toProtoMsgs (state.manager.snapshotWith 2 (lit "default")
            [some (Schema.userMessage (lit "and now?"))]).2).isSome)) =
      some ([none, some { role := roleAssistant, content := lit "a cat" }], false, false) := by
    decide +kernel
  obtain ⟨state, hstate, heq⟩ := Option.map_eq_some_iff.mp hrun
  obtain ⟨hhistory, hrest⟩ := Prod.mk.inj heq
  obtain ⟨hsave, hnext⟩ := Prod.mk.inj hrest
  refine ⟨state, hstate, hhistory, hsave, hnext, ?_⟩
  intro husable
  rw [husable.2.1] at hsave
  cases hsave

end MiniGoAgent
