/-
# `Server.Errors` — what a failed run of the agent leaves

An error of the agent reaches a handler in one of three ways: as the result of
`Generate` or `Stream`, as the error of a `Recv`, or not at all, since
`agentAdapter.Stream` ends its pipe behind an `EventError` as it does behind the
last event.  The non-streaming handlers return on the first; the streaming ones
do so too, but leave their loop on the second as they do at `io.EOF`, and then
append what they have received.

`failed_keeps_history_iff` says for which failed runs the history stays.
-/
import MiniGoAgent.Adk.Types
import MiniGoAgent.Server.Histories

open Go

namespace MiniGoAgent

variable {now : Int} {m m' : Manager} {q : Running}

/-! ## The adapter -/

/-- The goroutine of `agentAdapter.Stream`, from its `round` on: the messages it
sends into the pipe before closing it.  `done` says in which rounds the `select`
takes `ctx.Done()`. -/
def agentAdapterStream (done : Nat → Bool) : Nat → List Adk.Event → List Schema.Message
  | _, [] => []
  | round, evt :: events =>
    if done round then []
    else
      match evt.type with
      | .text =>
        { role := roleAssistant, content := evt.content } ::
          agentAdapterStream done (round + 1) events
      | .reasoning =>
        { role := roleAssistant, reasoningContent := evt.content } ::
          agentAdapterStream done (round + 1) events
      | .error => []
      | _ => agentAdapterStream done (round + 1) events

/-! ## Behaviours of the agent -/

/-- What an `AgentRunner` does with a call. -/
inductive AgentBehaviour where
  /-- `Generate` or `Stream` gives an error, or panics -/
  | failed
  | generated (result : Option Schema.Message)
  /-- a reader that gives chunks up to `io.EOF` or up to `err` -/
  | reader (chunks : List (Option Schema.Message)) (err : Option Str)
  /-- the reader of `agentAdapter`, over the events of the runner -/
  | adapter (events : List Adk.Event) (done : Nat → Bool)

namespace AgentBehaviour

def Fails : AgentBehaviour → Prop
  | .failed => True
  | .generated _ => False
  | .reader _ err => err.isSome = true
  | .adapter events _ => ∃ evt ∈ events, evt.type = .error

/-- What the handler sees of it; `gone` if it sees the context of the request done
before the stream ends. -/
def outcome (gone : Bool) : AgentBehaviour → AgentOutcome
  | .failed => .failed
  | .generated result => .generated result
  | .reader chunks err => .streamed chunks err gone
  | .adapter events done => .streamed ((agentAdapterStream done 0 events).map some) none gone

/-- The run fails before there is a stream, or gives a nil chunk on the way. -/
def Early : AgentBehaviour → Prop
  | .failed => True
  | .generated _ => False
  | .reader chunks _ => none ∈ chunks
  | .adapter _ _ => False

end AgentBehaviour

/-- The loop of the handler looks at the context of the request. -/
def AgentCall.watched : AgentCall → Bool
  | .generate => false
  | .stream watched => watched

/-! ## Histories -/

theorem history_agentDone_iff {outcome : AgentOutcome} (h : q.agentDone now outcome m = some m') :
    m'.history q.sid = m.history q.sid ↔ outcome.answers q.call = false := by
  obtain ⟨rfl, hanswers⟩ := agentDone_reply h
  rw [hanswers]
  cases outcome.reply q.call with
  | none => exact iff_of_true rfl rfl
  | some reply => simp [m.history_append_self]

theorem history_agentDone_of_ne {outcome : AgentOutcome} (h : q.agentDone now outcome m = some m')
    {k : Str} (hk : k ≠ q.sid) : m'.history k = m.history k := by
  rw [(agentDone_reply h).1]
  cases outcome.reply q.call with
  | none => rfl
  | some reply => exact m.history_append_of_ne now hk _

theorem answers_outcome_iff {b : AgentBehaviour} {gone : Bool} (hfails : b.Fails)
    (h : q.agentDone now (b.outcome gone) m = some m') :
    (b.outcome gone).answers q.call = false ↔
      b.Early ∨ (q.call.watched = true ∧ gone = true) := by
  cases b with
  | failed => exact iff_of_true rfl (Or.inl trivial)
  | generated result => exact absurd hfails id
  | reader chunks err =>
    cases hcall : q.call with
    | generate =>
      exact absurd h (by simp [Running.agentDone, Running.appended, AgentBehaviour.outcome, hcall])
    | stream watched =>
      simp only [AgentBehaviour.outcome, AgentOutcome.answers, AgentBehaviour.Early,
        AgentCall.watched, Bool.and_eq_false_iff, Bool.not_eq_false', Bool.and_eq_true,
        List.contains_iff_mem]
      exact or_comm
  | adapter events done =>
    cases hcall : q.call with
    | generate =>
      exact absurd h (by simp [Running.agentDone, Running.appended, AgentBehaviour.outcome, hcall])
    | stream watched =>
      have hchunks : ((agentAdapterStream done 0 events).map some).contains none = false := by
        simp
      simp only [AgentBehaviour.outcome, AgentOutcome.answers, AgentBehaviour.Early,
        AgentCall.watched, hchunks, Bool.and_eq_false_iff, Bool.not_eq_false',
        Bool.and_eq_true]
      simp

/-- **Failed runs and histories.**  A request leaves every history as it finds it up
to the agent.  When the run of the agent fails, the handler leaves the other
sessions alone, and its own exactly if the run fails early or
`HandleChatStream` sees the client gone.  Between the two halves other requests
may have come to anything. -/
theorem failed_keeps_history_iff (req : Request) (tools : VisionTools) (model : Str)
    (now now' : Int) (r : HttpCall) {m m₁ m₂ m' : Manager} {q : Running} {b : AgentBehaviour}
    {gone : Bool} (harrive : req.arrive tools model now r m = (m₁, some q)) (hfails : b.Fails)
    (hdone : q.agentDone now' (b.outcome gone) m₂ = some m') :
    (∀ k, m₁.history k = m.history k) ∧
      (∀ k, k ≠ q.sid → m'.history k = m₂.history k) ∧
      (m'.history q.sid = m₂.history q.sid ↔
        b.Early ∨ (q.call.watched = true ∧ gone = true)) := by
  refine ⟨?_, ?_, ?_⟩
  · intro k
    have harrived := (arrive_arrived tools model now m req r).history k
    rwa [harrive] at harrived
  · intro k hk
    exact history_agentDone_of_ne hdone hk
  · rw [history_agentDone_iff hdone]
    exact answers_outcome_iff hfails hdone

/-- A reader that gives one chunk and then an error. -/
def brokenReader : AgentBehaviour :=
  .reader [some { role := roleAssistant, content := lit "Well" }] (some (lit "boom"))

/-- `HandleChatStream`, and an agent that fails halfway: the history has changed. -/
theorem failed_keeps_history_halfway :
    ∃ m₁ q m', (Request.chatStream (some (lit "hi"))).arrive seeing [] 0 {} (newManager []) =
        (m₁, some q) ∧
      q.agentDone 1 (brokenReader.outcome false) m₁ = some m' ∧
      m'.history q.sid ≠ m₁.history q.sid := by
  have hfails : brokenReader.Fails := rfl
  obtain ⟨m₁, q, harrive, m', hdone⟩ : ∃ m₁ q,
      (Request.chatStream (some (lit "hi"))).arrive seeing [] 0 {} (newManager []) = (m₁, some q) ∧
        ∃ m', q.agentDone 1 (brokenReader.outcome false) m₁ = some m' := ⟨_, _, rfl, _, rfl⟩
  refine ⟨m₁, q, m', harrive, hdone, ?_⟩
  rw [ne_eq, (failed_keeps_history_iff _ _ _ _ _ _ harrive hfails hdone).2.2]
  simp [brokenReader, AgentBehaviour.Early]

/-- `HandleChatStream`, and a run that says something and fails: half an answer is
stored. -/
theorem failed_stream_is_stored :
    ∃ m₁ q m', (Request.chatStream (some (lit "hi"))).arrive seeing [] 0 {} (newManager []) =
        (m₁, some q) ∧
      (AgentBehaviour.adapter [{ type := .text, content := lit "Well" }, { type := .error }]
        (fun _ => false)).Fails ∧
      q.agentDone 1 ((AgentBehaviour.adapter
        [{ type := .text, content := lit "Well" }, { type := .error }]
        (fun _ => false)).outcome false) m₁ = some m' ∧
      (newManager []).history q.sid = [] ∧
      m'.history q.sid = [some (Schema.userMessage (lit "hi")),
        some { role := roleAssistant, content := lit "Well" }] := by
  refine ⟨_, _, _, rfl, ?_, rfl, rfl, ?_⟩
  · exact ⟨{ type := .error }, by simp, rfl⟩
  · decide +kernel

end MiniGoAgent
