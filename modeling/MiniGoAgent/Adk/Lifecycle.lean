/-
# `Adk.Lifecycle` — the events the runner publishes for a turn

`Run` publishes on its way, and `Stream` in front of its goroutine and in it.  The
two do not end a turn alike.  `Run` publishes `AgentEnd` for a turn that completes
and `Error` for one that fails.  The goroutine of `Stream` has `AgentEnd` in a
`defer`: every exit publishes it, that of an error event and that of a done context
too, and an error of the store is published as `Error` in front of it, but an error event
of the agent is not.

`LifecycleTurn.machine` is the goroutine of `Stream` against an agent that may send
anything and close its channel whenever it likes, and any consumer.  The turns of
`ReactAgent` are among its runs (`lifecycle_of_machine`).

Kept is what `publishEvent` is called with; without a bus nobody hears of it.
-/
import MiniGoAgent.Adk.RunnerStream

open Go

namespace MiniGoAgent

namespace Adk

/-- What the runner publishes; the fields it leaves out are zero. -/
inductive LifecycleEvent where
  | agentStart (sessionID : Str) (toolNames : List Str)
  | agentEnd (sessionID stats : Str)
  | error (err : Err)
  deriving DecidableEq, Repr

/-- What is published for a failure: a panic goes past every `publishEvent`. -/
def failureEvents : Failure → List LifecycleEvent
  | .error err => [.error err]
  | .panic => []

/-! ## `Run` -/

namespace Runner

/-- `Run`, with the events in front of what comes of it. -/
def runPublishing (r : Runner) (store : Option StoreAnswers) (req : Option Request) (heap : Heap) :
    List LifecycleEvent × Turn :=
  match r.prepareRequest store heap req with
  | .error failure => (failureEvents failure, { outcome := .error failure, heap })
  | .ok prepared =>
    let inputMessages := (req.map (·.messages)).getD []
    let start := LifecycleEvent.agentStart prepared.sessionID prepared.toolNames
    match (r.modelPath prepared).exec heap with
    | (.error failure, heap) =>
      (start :: failureEvents failure,
        { entered := some prepared.messages, outcome := .error failure, heap })
    | (.ok resp, heap) =>
      match appendConversation store prepared.sessionID inputMessages resp.messages with
      | .error err =>
        ([start, .error err],
          { entered := some prepared.messages, outcome := .error (.error err), heap })
      | .ok appended =>
        ([start, .agentEnd prepared.sessionID resp.stats],
          { entered := some prepared.messages, outcome := .ok resp, heap, appended })

variable {r : Runner} {store : Option StoreAnswers} {req : Option Request} {heap : Heap}

theorem runPublishing_turn : (r.runPublishing store req heap).2 = r.run store req heap := by
  cases hprepared : r.prepareRequest store heap req with
  | error failure => simp only [runPublishing, run, hprepared]
  | ok prepared =>
    rcases hpath : (r.modelPath prepared).exec heap with ⟨failure | resp, heap'⟩
    · simp only [runPublishing, run, hprepared, hpath]
    · cases happend : appendConversation store prepared.sessionID
          ((req.map (·.messages)).getD []) resp.messages with
      | error err => simp only [runPublishing, run, hprepared, hpath, happend]
      | ok appended => simp only [runPublishing, run, hprepared, hpath, happend]

theorem error_of_prepareRequest {failure : Failure}
    (h : r.prepareRequest store heap req = .error failure) : ∃ err, failure = .error err := by
  revert h
  fun_cases prepareRequest r store heap req
  all_goals
    rintro ⟨⟩
    try exact ⟨_, rfl⟩

end Runner

def Turn.terminal (sessionID : Str) (t : Turn) : List LifecycleEvent :=
  match t.outcome with
  | .ok resp => [.agentEnd sessionID resp.stats]
  | .error failure => failureEvents failure

theorem Runner.published_run {r : Runner} {store : Option StoreAnswers} {req : Option Request}
    {heap : Heap} {prepared : Request} (h : r.prepareRequest store heap req = .ok prepared) :
    (r.runPublishing store req heap).1 =
      .agentStart prepared.sessionID prepared.toolNames ::
        (r.run store req heap).terminal prepared.sessionID := by
  rw [← runPublishing_turn]
  rcases hpath : (r.modelPath prepared).exec heap with ⟨failure | resp, heap'⟩
  · simp only [runPublishing, h, hpath, Turn.terminal]
  · cases happend : appendConversation store prepared.sessionID
        ((req.map (·.messages)).getD []) resp.messages with
    | error err => simp only [runPublishing, h, hpath, happend, Turn.terminal, failureEvents]
    | ok appended => simp only [runPublishing, h, hpath, happend, Turn.terminal]

/-! ## `Stream` -/

structure LifecycleTurn where
  runner : Runner
  store : Option StoreAnswers
  request : Option Request
  heap : Heap
  /-- the error of `agent.Stream` -/
  opened : Option Err := none
  /-- `err.Error()` -/
  errorText : Err → Str := fun _ => []

structure LifecycleState where
  cancelled : Bool := false
  runner : RunnerGoroutine
  published : List LifecycleEvent

inductive LifecycleMove where
  | cancel
  /-- the runner takes an event of the agent -/
  | take (evt : Event)
  /-- the runner finds `rawEvents` closed -/
  | closed
  /-- the runner takes `ctx.Done()` -/
  | done
  /-- the consumer has room for what the runner hands on -/
  | forward
  deriving DecidableEq, Repr

namespace LifecycleTurn

variable (t : LifecycleTurn)

def prepared : Except Failure Request := t.runner.prepareRequest t.store t.heap t.request

def started : Except Failure Request :=
  t.runner.startStream t.store t.heap t.request t.opened

def sessionID : Str := (t.request.map (·.sessionID)).getD []

def inputMessages : List Ptr := (t.request.map (·.messages)).getD []

def front : List LifecycleEvent :=
  match t.prepared with
  | .error failure => failureEvents failure
  | .ok prepared =>
    .agentStart prepared.sessionID prepared.toolNames ::
      match t.started with
      | .error failure => failureEvents failure
      | .ok _ => []

/-- The goroutine returns, and the deferred `publishEvent` runs. -/
def leave (s : LifecycleState) : LifecycleState :=
  { s with runner := .returned, published := s.published ++ [.agentEnd t.sessionID []] }

def init : LifecycleState :=
  match t.started with
  | .error _ => { runner := .returned, published := t.front }
  | .ok _ => { runner := .selecting [] [], published := t.front }

/-- The runner behind a receive from the closed channel. -/
def recordTurn (s : LifecycleState) (content reasoning : Str) : LifecycleState :=
  match Runner.appendConversation t.store t.sessionID (t.inputMessages.map .inl)
      [Sum.inr { role := roleAssistant, content, reasoningContent := reasoning : Message }] with
  | .ok _ => t.leave s
  | .error err =>
    { s with
      runner := .reporting (errorEvent (t.errorText err) (some err))
      published := s.published ++ [.error err] }

def step (s : LifecycleState) : LifecycleMove → Option LifecycleState
  | .cancel => some { s with cancelled := true }
  | .take evt =>
    match s.runner with
    | .selecting content reasoning =>
      some { s with
        runner := .forwarding evt
          (content ++ if evt.type = .text then evt.content else [])
          (reasoning ++ if evt.type = .reasoning then evt.content else []) }
    | _ => none
  | .closed =>
    match s.runner with
    | .selecting content reasoning => some (t.recordTurn s content reasoning)
    | _ => none
  | .done => if s.cancelled ∧ s.runner ≠ .returned then some (t.leave s) else none
  | .forward =>
    match s.runner with
    | .forwarding evt content reasoning =>
      some (if evt.type = .error then t.leave s
        else { s with runner := .selecting content reasoning })
    | .reporting _ => some (t.leave s)
    | _ => none

def machine : Machine LifecycleState LifecycleMove where
  init := t.init
  step := t.step

/-- The error with which the store refuses the turn. -/
def storeError : Option Err :=
  match Runner.appendConversation t.store t.sessionID ([] : List Unit) [] with
  | .ok _ => none
  | .error err => some err

/-- The errors of the store that a run has met: it is asked when the channel is found
closed. -/
def storeErrors (l : List LifecycleMove) : List LifecycleEvent :=
  if .closed ∈ l then t.storeError.toList.map .error else []

/-! ## What a run publishes -/

theorem recordTurn_eq (s : LifecycleState) (content reasoning : Str) :
    (t.storeError = none ∧ t.recordTurn s content reasoning = t.leave s) ∨
      ∃ err evt, t.storeError = some err ∧ t.recordTurn s content reasoning =
        { s with runner := .reporting evt, published := s.published ++ [.error err] } := by
  simp only [storeError, recordTurn, Runner.appendConversation]
  cases t.store with
  | none => exact Or.inl ⟨rfl, rfl⟩
  | some store =>
    by_cases hsid : t.sessionID = []
    · simp [hsid]
    · cases happend : store.append with
      | none | some => simp [hsid, happend]

/-- What has been published behind the moves, and that the channel has been found
closed only by a goroutine that is about to return. -/
structure Told (l : List LifecycleMove) (s : LifecycleState) : Prop where
  published : s.published = t.front ++ t.storeErrors l ++
    if s.runner = .returned then [.agentEnd t.sessionID []] else []
  closed : .closed ∈ l → (∃ evt, s.runner = .reporting evt) ∨ s.runner = .returned

section Told

variable {t} {l : List LifecycleMove} {s : LifecycleState} {e : LifecycleMove}

theorem storeErrors_snoc (he : e ≠ .closed) : t.storeErrors (l ++ [e]) = t.storeErrors l := by
  simp [storeErrors, Ne.symm he]

theorem mem_of_mem_snoc (he : e ≠ .closed) (h : .closed ∈ l ++ [e]) : LifecycleMove.closed ∈ l := by
  rcases List.mem_append.mp h with h | h
  · exact h
  · exact absurd (List.mem_singleton.mp h).symm he

theorem Told.leave (h : t.Told l s) (hrunner : s.runner ≠ .returned) (he : e ≠ .closed) :
    t.Told (l ++ [e]) (t.leave s) where
  published := by
    have hsofar := h.published
    rw [if_neg hrunner, List.append_nil] at hsofar
    rw [storeErrors_snoc he]
    simp [LifecycleTurn.leave, hsofar]
  closed _ := Or.inr rfl

theorem Told.go (h : t.Told l s) (hrunner : s.runner ≠ .returned)
    (hopen : ∀ evt, s.runner ≠ .reporting evt) (he : e ≠ .closed) {runner : RunnerGoroutine}
    (hrunner' : runner ≠ .returned) : t.Told (l ++ [e]) { s with runner } where
  published := by
    have hsofar := h.published
    rw [if_neg hrunner] at hsofar
    rw [storeErrors_snoc he, if_neg hrunner']
    exact hsofar
  closed hmem := by
    rcases h.closed (mem_of_mem_snoc he hmem) with ⟨evt, hreporting⟩ | hreturned
    · exact absurd hreporting (hopen evt)
    · exact absurd hreturned hrunner

theorem Told.recordTurn (h : t.Told l s) {content reasoning : Str}
    (hrunner : s.runner = .selecting content reasoning) :
    t.Told (l ++ [.closed]) (t.recordTurn s content reasoning) := by
  have hfirst : LifecycleMove.closed ∉ l := by
    intro hmem
    rcases h.closed hmem with ⟨evt, hreporting⟩ | hreturned
    · cases hrunner.symm.trans hreporting
    · cases hrunner.symm.trans hreturned
  have hsofar : s.published = t.front := by
    have hpublished := h.published
    rw [hrunner, if_neg (by simp), storeErrors, if_neg hfirst] at hpublished
    simpa using hpublished
  rcases t.recordTurn_eq s content reasoning with ⟨hnone, heq⟩ | ⟨err, evt, hsome, heq⟩
  · rw [heq]
    exact ⟨by simp [LifecycleTurn.leave, storeErrors, hnone, hsofar], fun _ => Or.inr rfl⟩
  · rw [heq]
    exact ⟨by simp [storeErrors, hsome, hsofar], fun _ => Or.inl ⟨evt, rfl⟩⟩

theorem Told.step {s' : LifecycleState} (h : t.Told l s) (hstep : t.step s e = some s') :
    t.Told (l ++ [e]) s' := by
  revert hstep
  fun_cases LifecycleTurn.step t s e
  all_goals intro hstep; cases hstep
  case case1 =>
    refine ⟨?_, fun hmem => h.closed (mem_of_mem_snoc (by simp) hmem)⟩
    rw [storeErrors_snoc (by simp)]
    exact h.published
  case case2 hrunner => exact h.go (by simp [hrunner]) (by simp [hrunner]) (by simp) (by simp)
  case case4 hrunner => exact h.recordTurn hrunner
  case case6 hdone => exact h.leave hdone.2 (by simp)
  case case8 hrunner =>
    split
    · exact h.leave (by simp [hrunner]) (by simp)
    · exact h.go (by simp [hrunner]) (by simp [hrunner]) (by simp) (by simp)
  case case9 hrunner => exact h.leave (by simp [hrunner]) (by simp)

theorem published_of_unstarted {failure : Failure} (hstarted : t.started = .error failure)
    (hrun : t.machine.run t.machine.init l = some s) : s.published = t.front := by
  have hinit : t.machine.init = { runner := .returned, published := t.front } := by
    show t.init = _
    simp only [init, hstarted]
  have hkept : s.runner = .returned ∧ s.published = t.front := by
    refine t.machine.run_rule (P := fun _ s => s.runner = .returned ∧ s.published = t.front)
      (by rw [hinit]; exact ⟨rfl, rfl⟩) ?_ hrun
    rintro _ s e s' _ ⟨hrunner, hpublished⟩ hstep
    cases e with
    | cancel =>
      cases hstep
      exact ⟨hrunner, hpublished⟩
    | _ => exact absurd hstep (by simp [machine, LifecycleTurn.step, hrunner])
  exact hkept.2

theorem told_of_run {req : Request} (hstarted : t.started = .ok req)
    (hrun : t.machine.run t.machine.init l = some s) : t.Told l s := by
  have hinit : t.machine.init = { runner := .selecting [] [], published := t.front } := by
    show t.init = _
    simp only [init, hstarted]
  refine t.machine.run_rule (P := t.Told) ?_ (fun _ _ _ _ _ h hstep => h.step hstep) hrun
  rw [hinit]
  exact ⟨by simp [storeErrors], fun hmem => absurd hmem List.not_mem_nil⟩

end Told

end LifecycleTurn

/-! ## The turns of `ReactAgent` -/

/-- The turn, with the agent left open. -/
def StreamTurn.lifecycle (p : StreamTurn) : LifecycleTurn where
  runner := p.runner
  store := some p.store
  request := p.request
  heap := p.heap
  opened := p.opened
  errorText := p.errorText

/-- The goroutine of the runner is at the same place. -/
def SameRunner (s : StreamState) (s' : LifecycleState) : Prop :=
  s'.runner = s.runner ∧ s'.cancelled = s.cancelled

variable {p : StreamTurn}

theorem sameRunner_recordTurn {s : StreamState} {t : LifecycleState}
    (hcancelled : t.cancelled = s.cancelled) (content reasoning : Str) :
    SameRunner (p.recordTurn s content reasoning) (p.lifecycle.recordTurn t content reasoning) := by
  unfold StreamTurn.recordTurn LifecycleTurn.recordTurn LifecycleTurn.sessionID
    LifecycleTurn.inputMessages StreamTurn.sessionID StreamTurn.inputMessages StreamTurn.lifecycle
  generalize Runner.appendConversation (some p.store) _ _ _ = result
  cases result <;> exact ⟨rfl, hcancelled⟩

theorem lifecycle_of_step {s s' : StreamState} {e : StreamEvent}
    (hstep : p.step s e = some s') {t : LifecycleState} (h : SameRunner s t) :
    ∃ l t', p.lifecycle.machine.run t l = some t' ∧ SameRunner s' t' := by
  have hone : ∀ {m : LifecycleMove} {t' : LifecycleState}, p.lifecycle.step t m = some t' →
      p.lifecycle.machine.run t [m] = some t' :=
    fun hm => p.lifecycle.machine.run_cons hm []
  obtain ⟨hrunner, hcancelled⟩ := h
  revert hstep
  fun_cases StreamTurn.step p s e
  all_goals intro hstep; cases hstep
  case case1 => exact ⟨[.cancel], _, hone rfl, hrunner, rfl⟩
  case case2 | case6 | case9 | case24 => exact ⟨[], t, rfl, hrunner, hcancelled⟩
  case case4 result _ =>
    refine ⟨[], t, rfl, ?_⟩
    cases result <;> exact ⟨hrunner, hcancelled⟩
  case case12 content reasoning evt rest hraw hselecting =>
    refine ⟨[.take evt],
      { t with
        runner := .forwarding evt
          (content ++ if evt.type = .text then evt.content else [])
          (reasoning ++ if evt.type = .reasoning then evt.content else []) },
      hone ?_, rfl, hcancelled⟩
    simp only [LifecycleTurn.step, hrunner, hselecting]
  case case14 content reasoning hselecting _ =>
    refine ⟨[.closed], p.lifecycle.recordTurn t content reasoning, hone ?_, ?_⟩
    · simp only [LifecycleTurn.step, hrunner, hselecting]
    · exact sameRunner_recordTurn hcancelled content reasoning
  case case17 hdone =>
    refine ⟨[.done], p.lifecycle.leave t, hone ?_, rfl, hcancelled⟩
    simp only [LifecycleTurn.step]
    rw [hrunner, hcancelled, if_pos hdone]
  case case19 evt content reasoning hforwarding =>
    by_cases herror : evt.type = .error
    · refine ⟨[.forward], p.lifecycle.leave t, hone ?_, ?_, hcancelled⟩
      · simp only [LifecycleTurn.step, hrunner, hforwarding, if_pos herror]
      · simp only [LifecycleTurn.leave, if_pos herror]
    · refine ⟨[.forward], { t with runner := .selecting content reasoning }, hone ?_, ?_,
        hcancelled⟩
      · simp only [LifecycleTurn.step, hrunner, hforwarding, if_neg herror]
      · simp only [if_neg herror]
  case case20 hreporting =>
    refine ⟨[.forward], p.lifecycle.leave t, hone ?_, rfl, hcancelled⟩
    simp only [LifecycleTurn.step, hrunner, hreporting]

/-- **The goroutines of a turn keep to the life cycle.**  Every run of `ReactAgent` and the
runner is matched by one of the runner alone. -/
theorem lifecycle_of_machine {l : List StreamEvent} {s : StreamState}
    (hrun : p.machine.run p.machine.init l = some s) :
    ∃ l' t, p.lifecycle.machine.run p.lifecycle.machine.init l' = some t ∧ SameRunner s t := by
  refine p.machine.run_rule
    (P := fun _ s => ∃ l' t, p.lifecycle.machine.run p.lifecycle.machine.init l' = some t ∧
      SameRunner s t) ?_ ?_ hrun
  · refine ⟨[], _, rfl, ?_⟩
    show SameRunner p.init p.lifecycle.init
    unfold StreamTurn.init LifecycleTurn.init LifecycleTurn.started StreamTurn.lifecycle
    cases p.runner.startStream (some p.store) p.heap p.request p.opened <;> exact ⟨rfl, rfl⟩
  · rintro _ s e s' _ ⟨l', t, hl', hsame⟩ hstep
    obtain ⟨m, t', hm, hsame'⟩ := lifecycle_of_step hstep hsame
    exact ⟨l' ++ m, t', by rw [Machine.run_append, hl', Option.bind_some, hm], hsame'⟩

theorem lifecycle_of_machine_cancelled :
    ∃ l t, questionTurn.lifecycle.machine.run questionTurn.lifecycle.machine.init l = some t ∧
      t.cancelled = true := by
  obtain ⟨l, t, hrun, hsame⟩ :=
    lifecycle_of_machine (p := questionTurn) (l := [.cancel, .check, .done]) rfl
  exact ⟨l, t, hrun, hsame.2⟩

/-! ## The events of a turn -/

/-- `start` and one event behind it: `Error` if the turn has failed, `AgentEnd` if not. -/
def OneTerminal (start : LifecycleEvent) (failed : Prop) (published : List LifecycleEvent) :
    Prop :=
  (failed ∧ ∃ err, published = [start, .error err]) ∨
    (¬ failed ∧ ∃ sessionID stats, published = [start, .agentEnd sessionID stats])

/-- The turn fails behind the start of its goroutine: the agent sends an error event, or
the store refuses the turn. -/
def LifecycleTurn.Fails (t : LifecycleTurn) (l : List LifecycleMove) : Prop :=
  (∃ evt, .take evt ∈ l ∧ evt.type = .error) ∨ .closed ∈ l ∧ t.storeError.isSome = true

theorem oneTerminal_failure {start : LifecycleEvent} {failed : Prop} (h : failed)
    (failure : Failure) :
    OneTerminal start failed (start :: failureEvents failure) ↔ failure ≠ .panic := by
  cases failure <;> simp [OneTerminal, failureEvents, h]

theorem oneTerminal_run (start : LifecycleEvent) (sessionID : Str) (t : Turn) :
    OneTerminal start (∃ failure, t.outcome = .error failure) (start :: t.terminal sessionID) ↔
      t.outcome ≠ .error .panic := by
  cases houtcome : t.outcome with
  | ok resp => simp [OneTerminal, Turn.terminal, houtcome]
  | error failure =>
    simp only [Turn.terminal, houtcome]
    rw [oneTerminal_failure ⟨failure, rfl⟩, ne_eq, ne_eq, Except.error.injEq]

theorem oneTerminal_stream (t : LifecycleTurn) (l : List LifecycleMove) (start : LifecycleEvent)
    (sessionID : Str) :
    OneTerminal start (t.Fails l) (start :: (t.storeErrors l ++ [.agentEnd sessionID []])) ↔
      ¬ t.Fails l := by
  constructor
  · rintro (⟨_, err, heq⟩ | ⟨hnot, _⟩)
    · have hlast := congrArg List.getLast? (List.cons.inj heq).2
      rw [List.getLast?_concat] at hlast
      cases hlast
    · exact hnot
  · intro hnot
    have hnone : t.storeErrors l = [] := by
      unfold LifecycleTurn.storeErrors
      split
      next hclosed =>
        cases herr : t.storeError with
        | none => rfl
        | some err => exact absurd (Or.inr ⟨hclosed, by rw [herr]; rfl⟩) hnot
      next => rfl
    rw [hnone]
    exact Or.inr ⟨hnot, sessionID, [], rfl⟩

/-- **The events of a turn.**  A request that is rejected has one `Error`.  Otherwise
`AgentStart` is the first event.  Of `Run` it is followed by `AgentEnd` if the turn
completes and by `Error` if it fails.  Of `Stream` it is followed by `Error` if the hooks
or the agent fail before there is a stream; and otherwise by an `Error` exactly if the
store refuses the turn, and by one `AgentEnd`, the last event, when the goroutine
returns, whatever it returns for.  Behind a panic nothing is published.

So one event follows `AgentStart`, and tells whether the turn has failed, exactly if
nothing panics and no stream fails behind its start. -/
theorem lifecycle_events (t : LifecycleTurn) :
    (∀ failure, t.prepared = .error failure → ∃ err, failure = .error err ∧
      (t.runner.runPublishing t.store t.request t.heap).1 = [.error err] ∧
      ∀ l s, t.machine.run t.machine.init l = some s → s.published = [.error err]) ∧
    ∀ prepared, t.prepared = .ok prepared →
      (t.runner.runPublishing t.store t.request t.heap).1 =
        .agentStart prepared.sessionID prepared.toolNames ::
          (t.runner.run t.store t.request t.heap).terminal prepared.sessionID ∧
      (OneTerminal (.agentStart prepared.sessionID prepared.toolNames)
          (∃ failure, (t.runner.run t.store t.request t.heap).outcome = .error failure)
          (t.runner.runPublishing t.store t.request t.heap).1 ↔
        (t.runner.run t.store t.request t.heap).outcome ≠ .error .panic) ∧
      ∀ l s, t.machine.run t.machine.init l = some s →
        (∀ failure, t.started = .error failure → s.published =
            .agentStart prepared.sessionID prepared.toolNames :: failureEvents failure ∧
          (OneTerminal (.agentStart prepared.sessionID prepared.toolNames) True s.published ↔
            failure ≠ .panic)) ∧
        (∀ req, t.started = .ok req → s.published =
            .agentStart prepared.sessionID prepared.toolNames ::
              (t.storeErrors l ++
                if s.runner = .returned then [.agentEnd prepared.sessionID []] else []) ∧
          (s.runner = .returned →
            (OneTerminal (.agentStart prepared.sessionID prepared.toolNames) (t.Fails l)
              s.published ↔ ¬ t.Fails l))) := by
  constructor
  · intro failure hprepared
    obtain ⟨err, rfl⟩ := Runner.error_of_prepareRequest hprepared
    have hrejected : t.runner.prepareRequest t.store t.heap t.request = .error (.error err) :=
      hprepared
    refine ⟨err, rfl, ?_, ?_⟩
    · simp only [Runner.runPublishing, hrejected, failureEvents]
    · intro l s hrun
      have hstarted : t.started = .error (.error err) := by
        simp only [LifecycleTurn.started, Runner.startStream, hrejected]
        rfl
      rw [LifecycleTurn.published_of_unstarted hstarted hrun]
      simp only [LifecycleTurn.front, hprepared, failureEvents]
  · intro prepared hprepared
    refine ⟨Runner.published_run hprepared, ?_, ?_⟩
    · rw [Runner.published_run hprepared]
      exact oneTerminal_run _ _ _
    intro l s hrun
    constructor
    · intro failure hstarted
      rw [LifecycleTurn.published_of_unstarted hstarted hrun]
      simp only [LifecycleTurn.front, hprepared, hstarted]
      exact ⟨trivial, oneTerminal_failure trivial failure⟩
    · intro req hstarted
      obtain ⟨req', hreq, hsid⟩ := Runner.sessionID_prepareRequest hprepared
      have hsession : t.sessionID = prepared.sessionID := by
        simp only [LifecycleTurn.sessionID, hreq, hsid]
        rfl
      have hpublished : s.published = .agentStart prepared.sessionID prepared.toolNames ::
          (t.storeErrors l ++
            if s.runner = .returned then [.agentEnd prepared.sessionID []] else []) := by
        rw [(LifecycleTurn.told_of_run hstarted hrun).published, hsession]
        simp only [LifecycleTurn.front, hprepared, hstarted]
        rfl
      refine ⟨hpublished, ?_⟩
      intro hreturned
      rw [hpublished, if_pos hreturned]
      exact oneTerminal_stream t l _ _

/-- A turn of a session, whose agent answers nothing, and whose store refuses it or not. -/
def helloTurn (refused : Option Err) : LifecycleTurn where
  runner := { agent := fun _ => throw (.error .eof) }
  store := some { get := .ok [], append := refused }
  request := some { messages := [some 0], sessionID := lit "sess_1", toolNames := [lit "search"] }
  heap _ := { role := lit "user", content := lit "hi" }

/-- `Run` fails with the error of the agent; the stream is cancelled. -/
theorem lifecycle_events_hello :
    ((helloTurn none).runner.runPublishing (helloTurn none).store (helloTurn none).request
        (helloTurn none).heap).1 =
      [.agentStart (lit "sess_1") [lit "search"], .error .eof] ∧
    ∃ s, (helloTurn none).machine.run (helloTurn none).machine.init [.cancel, .done] = some s ∧
      s.published = [.agentStart (lit "sess_1") [lit "search"], .agentEnd (lit "sess_1") []] := by
  obtain ⟨_, hprepared⟩ := lifecycle_events (helloTurn none)
  obtain ⟨hrun, _, hstream⟩ := hprepared _ rfl
  exact ⟨hrun, _, rfl, ((hstream [.cancel, .done] _ rfl).2 _ rfl).1⟩

/-- An error event of the agent ends the stream, and `AgentEnd` is all that is published
for it; and a turn that the store refuses has two events at its end. -/
theorem failed_stream_publishes_agentEnd :
    (∃ s, (helloTurn none).machine.run (helloTurn none).machine.init
        [.take (errorEvent (lit "boom")), .forward] = some s ∧ s.runner = .returned ∧
      s.published = [.agentStart (lit "sess_1") [lit "search"], .agentEnd (lit "sess_1") []] ∧
      ¬ OneTerminal (.agentStart (lit "sess_1") [lit "search"])
        ((helloTurn none).Fails [.take (errorEvent (lit "boom")), .forward]) s.published) ∧
    ∃ s err, (helloTurn (some .eof)).machine.run (helloTurn (some .eof)).machine.init
        [.closed, .forward] = some s ∧ s.runner = .returned ∧
      s.published = [.agentStart (lit "sess_1") [lit "search"], .error err,
        .agentEnd (lit "sess_1") []] := by
  refine ⟨⟨_, rfl, rfl, rfl, ?_⟩, _, _, rfl, rfl, rfl⟩
  rintro (⟨_, err, hpublished⟩ | ⟨hnot, _⟩)
  · cases hpublished
  · exact hnot (Or.inl ⟨_, List.mem_cons_self, rfl⟩)

end Adk

end MiniGoAgent
