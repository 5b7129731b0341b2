/-
# `Adk.Runner` — a turn of the agent and the session it belongs to (`internal/adk/runner.go`)

`Runner.Run` loads the history of the session, puts it in front of the messages of
the request, takes the result through the hooks and the agent, and appends the
messages of the request and those of the response to the session.

Messages are handed around as pointers, so the model has a heap.  An address that
nothing has used yet may hold anything: a message that the agent makes is one at
such an address, with its contents there from the beginning.  Slices are copied by
the runner before anyone else gets them, and what a hook does to its copy nobody
sees but through what the hook returns; they are lists.

`run_cases` says what a call is made of; a call that fails appends nothing
(`appended_of_failed`).
-/
import MiniGoAgent.Adk.Guardrails
import MiniGoAgent.Adk.Middleware

open Go

namespace MiniGoAgent

namespace Adk

/-- A `*Message`: nil or an address. -/
abbrev Ptr := Option Nat

abbrev Heap := Nat → Message

def contents (heap : Heap) (messages : List Ptr) : List (Option Message) :=
  messages.map (Option.map heap)

theorem contents_append (heap : Heap) (messages messages' : List Ptr) :
    contents heap (messages ++ messages') = contents heap messages ++ contents heap messages' :=
  List.map_append

structure Request where
  messages : List Ptr
  sessionID : Str := []
  toolNames : List Str := []

/-- The `ModelRequest` the hooks get for a request. -/
def Request.modelRequest (req : Request) : Middleware.ModelRequest Ptr where
  messages := req.messages
  tools := req.toolNames
  sessionID := req.sessionID

structure Response where
  messages : List Ptr := []
  stats : Str := []
  deriving DecidableEq, Repr

/-- What a `session.Store` answers to one call of the runner. -/
structure StoreAnswers where
  get : Except Err (List Ptr)
  append : Option Err := none

structure Runner where
  /-- `Run` of the agent -/
  agent : Request → Act Failure Heap (Option Response)
  guards : Option (Guardrails Str) := none
  mw : Option (Chain (Act Failure Heap) Ptr) := none

/-- What comes of a call of `Run`: with which messages it got to the model, what it
returned, and what it appended to the session. -/
structure Turn where
  entered : Option (List Ptr) := none
  outcome : Except Failure Response
  heap : Heap
  appended : List Ptr := []

namespace Runner

/-- The loop over the tool calls of the request: the error of the first that is refused. -/
def blocked (heap : Heap) (guards : Guardrails Str) (messages : List Ptr) : Option Err :=
  (messages.filterMap (Option.map heap)).flatMap (·.toolCalls) |>.findSome? fun tc =>
    let result := guards.check tc.name tc.arguments
    if result.allowed then none
    else some (.other (lit "tool " ++ tc.name ++ lit " blocked by guardrails: " ++ result.reason))

def prepareRequest (r : Runner) (store : Option StoreAnswers) (heap : Heap) :
    Option Request → Except Failure Request
  | none => .error (.error (.other (lit "agent request is nil")))
  | some req =>
    match r.guards.bind (fun guards => blocked heap guards req.messages) with
    | some err => .error (.error err)
    | none =>
      match store with
      | none => .ok req
      | some store =>
        if req.sessionID = [] then .ok req
        else
          match store.get with
          | .error err =>
            .error (.error (.wrap
              (lit "load session " ++ quote req.sessionID ++ lit ": ") err))
          | .ok existing => .ok { req with messages := existing ++ req.messages }

/-- `appendConversation`: the messages it appends. -/
def appendConversation {π : Type} (store : Option StoreAnswers) (sessionID : Str)
    (input output : List π) : Except Err (List π) :=
  match store with
  | none => .ok []
  | some store =>
    if sessionID = [] then .ok []
    else
      match store.append with
      | some err => .error (.wrap (lit "append session " ++ quote sessionID ++ lit ": ") err)
      | none => .ok (input ++ output)

/-- What the chain is put around: `agent.Run`. -/
def nextModel (r : Runner) :
    Option (Middleware.ModelRequest Ptr) → Act Failure Heap (Option (Middleware.ModelResponse Ptr))
  | none => throw .panic
  | some req => do
      match ← r.agent { messages := req.messages, sessionID := req.sessionID,
                        toolNames := req.tools } with
      | none => throw .panic
      | some resp => return some { messages := resp.messages, stats := resp.stats }

/-- `Run` from the prepared request to the response. -/
def modelPath (r : Runner) (req : Request) : Act Failure Heap Response :=
  match r.mw with
  | some mws => do
      match ← Chain.aroundModel mws (some req.modelRequest) r.nextModel with
      | none => throw .panic
      | some resp => return { messages := resp.messages, stats := resp.stats }
  | none => do
      return (← r.agent req).getD {}

def run (r : Runner) (store : Option StoreAnswers) (req : Option Request) (heap : Heap) : Turn :=
  match r.prepareRequest store heap req with
  | .error failure => { outcome := .error failure, heap }
  | .ok prepared =>
    let inputMessages := (req.map (·.messages)).getD []
    match (r.modelPath prepared).exec heap with
    | (.error failure, heap) =>
      { entered := some prepared.messages, outcome := .error failure, heap }
    | (.ok resp, heap) =>
      match appendConversation store prepared.sessionID inputMessages resp.messages with
      | .error err =>
        { entered := some prepared.messages, outcome := .error (.error err), heap }
      | .ok appended =>
        { entered := some prepared.messages, outcome := .ok resp, heap, appended }

/-! ## One call -/

variable {r : Runner} {store : Option StoreAnswers} {req : Option Request} {heap : Heap}

theorem sessionID_prepareRequest {prepared : Request}
    (h : r.prepareRequest store heap req = .ok prepared) :
    ∃ req', req = some req' ∧ prepared.sessionID = req'.sessionID := by
  cases req with
  | none => cases h
  | some req =>
    refine ⟨req, rfl, ?_⟩
    simp only [prepareRequest] at h
    split at h
    · cases h
    · split at h
      · obtain rfl := Except.ok.inj h
        rfl
      · split at h
        · obtain rfl := Except.ok.inj h
          rfl
        · split at h
          · cases h
          · obtain rfl := Except.ok.inj h
            rfl

theorem messages_prepareRequest {st : StoreAnswers} {req : Request} {prepared : Request}
    (hsid : req.sessionID ≠ []) (h : r.prepareRequest (some st) heap (some req) = .ok prepared) :
    ∃ existing, st.get = .ok existing ∧ prepared.messages = existing ++ req.messages := by
  simp only [prepareRequest, if_neg hsid] at h
  split at h
  · cases h
  · split at h
    · cases h
    next existing hget =>
      obtain rfl := Except.ok.inj h
      exact ⟨existing, hget, rfl⟩

theorem run_cases (r : Runner) (store : Option StoreAnswers) (req : Option Request) (heap : Heap) :
    (∃ failure, r.prepareRequest store heap req = .error failure ∧
      r.run store req heap = { outcome := .error failure, heap }) ∨
    ∃ prepared, r.prepareRequest store heap req = .ok prepared ∧
      ((∃ failure heap', (r.modelPath prepared).exec heap = (.error failure, heap') ∧
          r.run store req heap =
            { entered := some prepared.messages, outcome := .error failure, heap := heap' }) ∨
       ∃ resp heap', (r.modelPath prepared).exec heap = (.ok resp, heap') ∧
          ((∃ failure, r.run store req heap =
              { entered := some prepared.messages, outcome := .error failure, heap := heap' }) ∨
           ∃ appended, appendConversation store prepared.sessionID
                ((req.map (·.messages)).getD []) resp.messages = .ok appended ∧
              r.run store req heap =
                { entered := some prepared.messages, outcome := .ok resp, heap := heap',
                  appended })) := by
  cases hprepared : r.prepareRequest store heap req with
  | error failure => exact Or.inl ⟨failure, rfl, by simp only [run, hprepared]⟩
  | ok prepared =>
    refine Or.inr ⟨prepared, rfl, ?_⟩
    cases hpath : (r.modelPath prepared).exec heap with
    | mk outcome heap' =>
      cases outcome with
      | error failure =>
        exact Or.inl ⟨failure, heap', rfl, by simp only [run, hprepared, hpath]⟩
      | ok resp =>
        refine Or.inr ⟨resp, heap', rfl, ?_⟩
        cases happend : appendConversation store prepared.sessionID
            ((req.map (·.messages)).getD []) resp.messages with
        | error err =>
          exact Or.inl ⟨.error err, by simp only [run, hprepared, hpath, happend]⟩
        | ok appended =>
          exact Or.inr ⟨appended, rfl, by simp only [run, hprepared, hpath, happend]⟩

theorem appended_of_failed {failure : Failure}
    (h : (r.run store req heap).outcome = .error failure) :
    (r.run store req heap).appended = [] := by
  rcases run_cases r store req heap with
    ⟨_, _, hrun⟩ | ⟨_, _, ⟨_, _, _, hrun⟩ | ⟨_, _, _, ⟨_, hrun⟩ | ⟨_, _, hrun⟩⟩⟩
  · rw [hrun]
  · rw [hrun]
  · rw [hrun]
  · rw [hrun] at h
    cases h

/-- Neither the agent nor a hook writes to a message. -/
def ReadsOnly (r : Runner) : Prop :=
  (∀ req, (r.agent req).Reads) ∧
    ∀ mws ∈ r.mw, ∀ mw ∈ mws, (∀ req, (mw.beforeModel req).Reads) ∧
      ∀ req resp, (mw.afterModel req resp).Reads

theorem ReadsOnly.modelPath (hr : r.ReadsOnly) (req : Request) : (r.modelPath req).Reads := by
  obtain ⟨hagent, hhooks⟩ := hr
  have hnext : ∀ mwReq, (r.nextModel mwReq).Reads := by
    intro mwReq
    cases mwReq with
    | none => exact Act.reads_throw _
    | some mwReq =>
      refine (hagent _).bind ?_
      intro resp
      cases resp with
      | none => exact Act.reads_throw _
      | some resp => exact Act.reads_pure _
  unfold Runner.modelPath
  cases hmw : r.mw with
  | none => exact (hagent req).bind fun resp => Act.reads_pure _
  | some mws =>
    refine (Chain.reads_aroundModel (hhooks mws hmw) hnext _).bind ?_
    intro resp
    cases resp with
    | none => exact Act.reads_throw _
    | some resp => exact Act.reads_pure _

theorem heap_run (r : Runner) (store : Option StoreAnswers) (req : Option Request) (heap : Heap) :
    (r.run store req heap).heap = heap ∨
      ∃ prepared, (r.run store req heap).heap = ((r.modelPath prepared).exec heap).2 := by
  rcases run_cases r store req heap with
    ⟨_, _, hrun⟩ | ⟨prepared, _, ⟨_, _, hpath, hrun⟩ | ⟨_, _, hpath, ⟨_, hrun⟩ | ⟨_, _, hrun⟩⟩⟩
  · exact Or.inl (congrArg Turn.heap hrun)
  · exact Or.inr ⟨prepared, (congrArg Turn.heap hrun).trans (congrArg Prod.snd hpath).symm⟩
  · exact Or.inr ⟨prepared, (congrArg Turn.heap hrun).trans (congrArg Prod.snd hpath).symm⟩
  · exact Or.inr ⟨prepared, (congrArg Turn.heap hrun).trans (congrArg Prod.snd hpath).symm⟩

theorem ReadsOnly.heap_run (hr : r.ReadsOnly) (store : Option StoreAnswers)
    (req : Option Request) (heap : Heap) : (r.run store req heap).heap = heap := by
  rcases r.heap_run store req heap with hsame | ⟨prepared, hpath⟩
  · exact hsame
  · exact hpath.trans (hr.modelPath prepared heap)

end Runner

end Adk

end MiniGoAgent
