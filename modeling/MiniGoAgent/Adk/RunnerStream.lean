/-
# `Adk.RunnerStream` — a streamed turn of the runner, and turns that do not complete

`Runner.Stream` runs beside `ReactAgent.Stream`: the agent's goroutine receives
messages and sends events into `rawEvents`, the runner's takes them from there,
collects the text, hands them on to the consumer, and appends the turn to the session
when it finds `rawEvents` closed.  The agent closes the channel when its stream is at
an end, but also when it returns because the context is done, and of two ready cases a
`select` takes any: behind a cancellation the runner may find the channel closed
before it looks at the context, and then stores what there is of an answer.

`incomplete_turn_appends_nothing` says that this is the only way in which a streamed
turn that does not complete is stored.
-/
import MiniGoAgent.Adk.Runner
import MiniGoAgent.Go.Machine

open Go

namespace MiniGoAgent

namespace Adk

/-! ## Before the goroutines -/

/-- `Stream` up to the call of `agent.Stream`, and that call, which fails with `opened`:
the request the agent has got. -/
def Runner.startStream (r : Runner) (store : Option StoreAnswers) (heap : Heap)
    (req : Option Request) (opened : Option Err) : Except Failure Request := do
  let prepared ← r.prepareRequest store heap req
  let prepared ←
    match r.mw with
    | none => pure prepared
    | some mws =>
      match ((Chain.beforeModelChain mws (some prepared.modelRequest)).exec heap).1 with
      | .error failure => throw failure
      | .ok none => throw .panic
      | .ok (some modified) =>
        pure { prepared with messages := modified.messages, toolNames := modified.tools }
  match opened with
  | some err => throw (.error err)
  | none => return prepared

/-! ## The goroutines -/

/-- What `sr.Recv` gives. -/
inductive Recv where
  | message (content reasoningContent : Str)
  | eof
  | error (text : Str)
  deriving DecidableEq, Repr

/-- The goroutine of `ReactAgent.Stream`. -/
inductive AgentGoroutine where
  /-- at the head of its loop -/
  | head
  /-- in `sr.Recv` -/
  | receiving
  /-- in the `select` that sends `evt`, with others to send, behind which it returns or not -/
  | sending (evt : Event) (rest : List Event) (last : Bool)
  | returned
  deriving DecidableEq, Repr

/-- The goroutine of `Runner.Stream`. -/
inductive RunnerGoroutine where
  /-- in the `select` on `rawEvents`, with what it has collected -/
  | selecting (content reasoning : Str)
  /-- in the `select` that hands on `evt` -/
  | forwarding (evt : Event) (content reasoning : Str)
  /-- in the `select` that reports an error of the store -/
  | reporting (err : Event)
  | returned
  deriving DecidableEq, Repr

structure StreamState where
  cancelled : Bool := false
  agent : AgentGoroutine
  /-- `rawEvents`, which is closed when the agent has returned -/
  rawEvents : List Event := []
  runner : RunnerGoroutine
  events : List Event := []
  /-- what has been appended to the session: pointers of the caller, and a new message -/
  appended : List (Ptr ⊕ Message) := []
  /-- the agent has finished -/
  eof : Bool := false
  /-- the context was cancelled before -/
  early : Bool := false
  /-- there was an error of the guardrails, the store, the hooks or the agent -/
  failed : Bool := false

def capacity : Nat := 64

/-- The agent with events to send, behind which it returns or not. -/
def AgentGoroutine.sendAll : List Event → Bool → AgentGoroutine
  | [], true => .returned
  | [], false => .head
  | evt :: rest, last => .sending evt rest last

def messageEvents (content reasoningContent : Str) : List Event :=
  (if content = [] then [] else [{ type := .text, content }]) ++
    (if reasoningContent = [] then [] else [{ type := .reasoning, content := reasoningContent }])

def errorEvent (text : Str) (error : Option Err := none) : Event :=
  { type := .error, content := text, error }

structure StreamTurn where
  runner : Runner
  store : StoreAnswers
  request : Option Request
  heap : Heap
  /-- the error of `agent.Stream` -/
  opened : Option Err := none
  /-- `err.Error()` -/
  errorText : Err → Str := fun _ => []

inductive StreamEvent where
  | cancel
  /-- the agent looks at the context at the head of its loop -/
  | check
  | recv (result : Recv)
  | send
  /-- the agent takes `ctx.Done()` instead -/
  | giveUp
  /-- the runner takes an event -/
  | take
  /-- the runner finds `rawEvents` closed -/
  | closed
  /-- the runner takes `ctx.Done()` -/
  | done
  | forward
  /-- the consumer takes an event -/
  | consume
  deriving DecidableEq, Repr

namespace StreamTurn

variable (p : StreamTurn)

def sessionID : Str := (p.request.map (·.sessionID)).getD []

def inputMessages : List Ptr := (p.request.map (·.messages)).getD []

def init : StreamState :=
  match p.runner.startStream (some p.store) p.heap p.request p.opened with
  | .error _ => { agent := .returned, runner := .returned, failed := true }
  | .ok _ => { agent := .head, runner := .selecting [] [] }

/-- The agent behind `sr.Recv`. -/
def received (s : StreamState) : Recv → StreamState
  | .message content reasoningContent =>
    { s with agent := .sendAll (messageEvents content reasoningContent) false }
  | .eof => { s with agent := .returned, eof := true }
  | .error text => { s with agent := .sendAll [errorEvent text] true, failed := true }

/-- The runner behind a receive from the closed channel. -/
def recordTurn (s : StreamState) (content reasoning : Str) : StreamState :=
  match Runner.appendConversation (some p.store) p.sessionID (p.inputMessages.map .inl)
      [.inr { role := roleAssistant, content, reasoningContent := reasoning }] with
  | .ok messages => { s with appended := messages, runner := .returned }
  | .error err => { s with runner := .reporting (errorEvent (p.errorText err) (some err)) }

def step (s : StreamState) : StreamEvent → Option StreamState
  | .cancel => some { s with cancelled := true, early := s.early || !s.eof }
  | .check =>
    match s.agent with
    | .head => some { s with agent := if s.cancelled then .returned else .receiving }
    | _ => none
  | .recv result =>
    match s.agent with
    | .receiving => some (received s result)
    | _ => none
  | .send =>
    match s.agent with
    | .sending evt rest last =>
      if s.rawEvents.length < capacity then
        some { s with rawEvents := s.rawEvents ++ [evt], agent := .sendAll rest last }
      else none
    | _ => none
  | .giveUp =>
    match s.agent with
    | .sending _ _ _ => if s.cancelled then some { s with agent := .returned } else none
    | _ => none
  | .take =>
    match s.runner, s.rawEvents with
    | .selecting content reasoning, evt :: rest =>
      some { s with
        rawEvents := rest
        runner := .forwarding evt
          (content ++ if evt.type = .text then evt.content else [])
          (reasoning ++ if evt.type = .reasoning then evt.content else []) }
    | _, _ => none
  | .closed =>
    match s.runner with
    | .selecting content reasoning =>
      if s.rawEvents = [] ∧ s.agent = .returned then some (p.recordTurn s content reasoning)
      else none
    | _ => none
  | .done =>
    if s.cancelled ∧ s.runner ≠ .returned then some { s with runner := .returned } else none
  | .forward =>
    if s.events.length < capacity then
      match s.runner with
      | .forwarding evt content reasoning =>
        some { s with
          events := s.events ++ [evt]
          runner := if evt.type = .error then .returned else .selecting content reasoning }
      | .reporting evt => some { s with events := s.events ++ [evt], runner := .returned }
      | _ => none
    else none
  | .consume =>
    match s.events with
    | [] => none
    | _ :: rest => some { s with events := rest }

def machine : Machine StreamState StreamEvent where
  init := p.init
  step := p.step

/-! ## What a step does -/

/-- The steps of the goroutines, one constructor for each branch. -/
inductive Moves : StreamState → StreamEvent → StreamState → Prop
  | cancel (s : StreamState) :
      Moves s .cancel { s with cancelled := true, early := s.early || !s.eof }
  | checkDone {s : StreamState} : s.agent = .head → s.cancelled = true →
      Moves s .check { s with agent := .returned }
  | check {s : StreamState} : s.agent = .head → Moves s .check { s with agent := .receiving }
  | recv {s : StreamState} (result : Recv) : s.agent = .receiving →
      Moves s (.recv result) (received s result)
  | send {s : StreamState} {evt : Event} {rest : List Event} {last : Bool} :
      s.agent = .sending evt rest last →
      Moves s .send { s with rawEvents := s.rawEvents ++ [evt], agent := .sendAll rest last }
  | giveUp {s : StreamState} {evt : Event} {rest : List Event} {last : Bool} :
      s.agent = .sending evt rest last → s.cancelled = true →
      Moves s .giveUp { s with agent := .returned }
  | take {s : StreamState} {evt : Event} {rest : List Event} {content reasoning : Str}
      (content' reasoning' : Str) :
      s.runner = .selecting content reasoning → s.rawEvents = evt :: rest →
      Moves s .take { s with rawEvents := rest, runner := .forwarding evt content' reasoning' }
  | closed {s : StreamState} {content reasoning : Str} :
      s.runner = .selecting content reasoning → s.rawEvents = [] → s.agent = .returned →
      Moves s .closed (p.recordTurn s content reasoning)
  | done {s : StreamState} : Moves s .done { s with runner := .returned }
  | forward {s : StreamState} {evt : Event} {content reasoning : Str} :
      s.runner = .forwarding evt content reasoning → evt.type ≠ .error →
      Moves s .forward
        { s with events := s.events ++ [evt], runner := .selecting content reasoning }
  | forwardLast {s : StreamState} (evt : Event) :
      Moves s .forward { s with events := s.events ++ [evt], runner := .returned }
  | consume {s : StreamState} (rest : List Event) : Moves s .consume { s with events := rest }

variable {s s' : StreamState} {e : StreamEvent}

theorem moves_of_step (h : p.step s e = some s') : p.Moves s e s' := by
  revert h
  fun_cases step p s e
  all_goals intro h; cases h
  case case1 => exact .cancel s
  case case2 hagent =>
    by_cases hcancelled : s.cancelled = true
    · rw [if_pos hcancelled]
      exact .checkDone hagent hcancelled
    · rw [if_neg hcancelled]
      exact .check hagent
  case case4 result hagent => exact .recv result hagent
  case case6 hagent _ => exact .send hagent
  case case9 hagent hcancelled => exact .giveUp hagent hcancelled
  case case12 hraw hrunner => exact .take _ _ hrunner hraw
  case case14 hrunner hclosed => exact .closed hrunner hclosed.1 hclosed.2
  case case17 => exact .done
  case case19 evt content reasoning hrunner =>
    by_cases herror : evt.type = .error
    · rw [if_pos herror]
      exact .forwardLast evt
    · rw [if_neg herror]
      exact .forward hrunner herror
  case case20 evt _ => exact .forwardLast evt
  case case24 => exact .consume _

/-! ## What holds in every state -/

/-- An error event is about to be sent, in the channel, or with the runner; or the
runner has returned. -/
def ErrorAhead (s : StreamState) : Prop :=
  (∃ evt, s.agent = .sending evt [] true ∧ evt.type = .error) ∨
  (∃ evt ∈ s.rawEvents, evt.type = .error) ∨
  (∃ evt content reasoning, s.runner = .forwarding evt content reasoning ∧ evt.type = .error) ∨
  s.runner = .returned

structure Sound (s : StreamState) : Prop where
  cancelled : s.cancelled = true → s.eof = true ∨ s.early = true
  eof : s.eof = true → s.agent = .returned
  returned : s.agent = .returned → s.eof = true ∨ s.early = true ∨ s.failed = true
  last : ∀ evt rest, s.agent = .sending evt rest true → s.failed = true
  failed : s.failed = true → s.early = true ∨ ErrorAhead s
  appended : s.appended ≠ [] → s.agent = .returned

theorem sound_init : Sound p.init := by
  unfold init
  split
  · exact {
      cancelled := nofun
      eof := nofun
      returned := fun _ => Or.inr (Or.inr rfl)
      last := nofun
      failed := fun _ => Or.inr (Or.inr (Or.inr (Or.inr rfl)))
      appended := fun h => absurd rfl h }
  · exact {
      cancelled := nofun
      eof := nofun
      returned := nofun
      last := nofun
      failed := nofun
      appended := fun h => absurd rfl h }

theorem Sound.early_of_running (hs : Sound s) (hagent : s.agent ≠ .returned)
    (hcancelled : s.cancelled = true) : s.early = true :=
  (hs.cancelled hcancelled).resolve_left fun heof => hagent (hs.eof heof)

theorem Sound.early_of_failed (hs : Sound s) {content reasoning : Str}
    (hrunner : s.runner = .selecting content reasoning) (hraw : s.rawEvents = [])
    (hagent : s.agent = .returned) (hfailed : s.failed = true) : s.early = true := by
  rcases hs.failed hfailed with hearly | ⟨evt, hsending, _⟩ | ⟨evt, hmem, _⟩ |
    ⟨evt, _, _, hforwarding, _⟩ | hreturned
  · exact hearly
  · cases hagent.symm.trans hsending
  · rw [hraw] at hmem
    cases hmem
  · cases hrunner.symm.trans hforwarding
  · cases hrunner.symm.trans hreturned

theorem last_of_sendAll {evts : List Event} {last : Bool}
    (h : AgentGoroutine.sendAll evts last = .returned ∨
      ∃ evt rest, AgentGoroutine.sendAll evts last = .sending evt rest true) : last = true := by
  cases evts with
  | nil =>
    cases last with
    | true => rfl
    | false => rcases h with h | ⟨_, _, h⟩ <;> cases h
  | cons evt rest =>
    rcases h with h | ⟨_, _, h⟩
    · cases h
    · exact (AgentGoroutine.sending.inj h).2.2

theorem Sound.of_agent (hs : Sound s) (hagent : s.agent ≠ .returned)
    (hcancelled : s'.cancelled = s.cancelled) (hearly : s'.early = s.early)
    (happended : s'.appended = s.appended) (heof : s'.eof = s.eof ∨ s'.agent = .returned)
    (hreturned : s'.agent = .returned → s'.eof = true ∨ s'.early = true ∨ s'.failed = true)
    (hlast : ∀ evt rest, s'.agent = .sending evt rest true → s'.failed = true)
    (hfailed : s'.failed = true → s'.early = true ∨ ErrorAhead s') : Sound s' where
  cancelled h := by
    rw [hcancelled] at h
    rw [hearly]
    exact Or.inr (hs.early_of_running hagent h)
  eof h := heof.resolve_left fun heq => hagent (hs.eof (heq.symm.trans h))
  returned := hreturned
  last := hlast
  failed := hfailed
  appended h := by
    rw [happended] at h
    exact absurd (hs.appended h) hagent

theorem ErrorAhead.of_agent (h : ErrorAhead s) (hagent : ∀ evt, s.agent ≠ .sending evt [] true)
    (agent : AgentGoroutine) (eof : Bool) : ErrorAhead { s with agent, eof } := by
  rcases h with ⟨evt, hsending, _⟩ | hahead
  · exact absurd hsending (hagent evt)
  · exact Or.inr hahead

theorem Sound.received (hs : Sound s) (hagent : s.agent = .receiving)
    (result : Recv) : Sound (received s result) := by
  have hrunning : s.agent ≠ .returned := by rw [hagent]; simp
  have hahead : ∀ agent eof, s.failed = true →
      s.early = true ∨ ErrorAhead { s with agent, eof } := by
    intro agent eof hfailed
    refine (hs.failed hfailed).imp_right fun h => h.of_agent ?_ agent eof
    intro evt hsending
    cases hagent.symm.trans hsending
  cases result with
  | message content reasoningContent =>
    refine hs.of_agent hrunning rfl rfl rfl (Or.inl rfl) ?_ ?_ (hahead _ _)
    · intro hreturned
      cases last_of_sendAll (Or.inl hreturned)
    · intro evt rest hlast
      cases last_of_sendAll (Or.inr ⟨evt, rest, hlast⟩)
  | eof =>
    exact hs.of_agent hrunning rfl rfl rfl (Or.inr rfl) (fun _ => Or.inl rfl) nofun (hahead _ _)
  | error text =>
    exact hs.of_agent hrunning rfl rfl rfl (Or.inl rfl) (fun _ => Or.inr (Or.inr rfl))
      (fun _ _ _ => rfl) (fun _ => Or.inr (Or.inl ⟨errorEvent text, rfl, rfl⟩))

theorem Sound.sent (hs : Sound s) {evt : Event} {rest : List Event} {last : Bool}
    (hagent : s.agent = .sending evt rest last) :
    Sound { s with rawEvents := s.rawEvents ++ [evt], agent := .sendAll rest last } := by
  have hrunning : s.agent ≠ .returned := by rw [hagent]; simp
  refine hs.of_agent hrunning rfl rfl rfl (Or.inl rfl) ?_ ?_ ?_
  · intro hreturned
    obtain rfl := last_of_sendAll (Or.inl hreturned)
    exact Or.inr (Or.inr (hs.last evt rest hagent))
  · intro evt' rest' hlast
    obtain rfl := last_of_sendAll (Or.inr ⟨evt', rest', hlast⟩)
    exact hs.last evt rest hagent
  · intro hfailed
    refine (hs.failed hfailed).imp_right ?_
    rintro (⟨evt', hsending, herror⟩ | ⟨evt', hmem, herror⟩ | hrunner)
    · -- the error event goes into the channel
      obtain ⟨rfl, _, _⟩ := AgentGoroutine.sending.inj (hagent.symm.trans hsending)
      exact Or.inr (Or.inl ⟨evt, List.mem_append_right _ List.mem_cons_self, herror⟩)
    · exact Or.inr (Or.inl ⟨evt', List.mem_append_left _ hmem, herror⟩)
    · exact Or.inr (Or.inr hrunner)

theorem Sound.gaveUp (hs : Sound s) (hrunning : s.agent ≠ .returned)
    (hcancelled : s.cancelled = true) : Sound { s with agent := .returned } := by
  have hearly := hs.early_of_running hrunning hcancelled
  exact hs.of_agent hrunning rfl rfl rfl (Or.inr rfl) (fun _ => Or.inr (Or.inl hearly))
    (fun _ _ h => nomatch h) (fun _ => Or.inl hearly)

theorem Sound.moves (hs : Sound s) (h : p.Moves s e s') : Sound s' := by
  cases h with
  | cancel =>
    have hearly : s.early = true → (s.early || !s.eof) = true := fun h => by rw [h]; rfl
    exact {
      cancelled := fun _ => by cases s.eof <;> simp
      eof := hs.eof
      returned := fun h => (hs.returned h).imp_right (Or.imp_left hearly)
      last := hs.last
      failed := fun h => (hs.failed h).imp_left hearly
      appended := hs.appended }
  | checkDone hagent hcancelled | giveUp hagent hcancelled =>
    exact hs.gaveUp (by rw [hagent]; simp) hcancelled
  | check hagent =>
    have hrunning : s.agent ≠ .returned := by rw [hagent]; simp
    refine hs.of_agent hrunning rfl rfl rfl (Or.inl rfl) nofun nofun ?_
    intro hfailed
    refine (hs.failed hfailed).imp_right fun h => h.of_agent ?_ .receiving s.eof
    intro evt hsending
    cases hagent.symm.trans hsending
  | recv result hagent => exact hs.received hagent result
  | send hagent => exact hs.sent hagent
  | take content' reasoning' hrunner hraw =>
    refine { hs with failed := fun hfailed => (hs.failed hfailed).imp_right ?_ }
    rintro (hsending | ⟨evt', hmem, herror⟩ | ⟨evt', _, _, hforwarding, _⟩ | hreturned)
    · exact Or.inl hsending
    · rw [hraw] at hmem
      rcases List.mem_cons.mp hmem with rfl | hmem
      · exact Or.inr (Or.inr (Or.inl ⟨evt', content', reasoning', rfl, herror⟩))
      · exact Or.inr (Or.inl ⟨evt', hmem, herror⟩)
    · cases hrunner.symm.trans hforwarding
    · cases hrunner.symm.trans hreturned
  | closed hrunner hraw hagent =>
    unfold recordTurn
    split
    · exact { hs with
        failed := fun hfailed => Or.inl (hs.early_of_failed hrunner hraw hagent hfailed)
        appended := fun _ => hagent }
    · exact { hs with
        failed := fun hfailed => Or.inl (hs.early_of_failed hrunner hraw hagent hfailed) }
  | done | forwardLast =>
    exact { hs with failed := fun _ => Or.inr (Or.inr (Or.inr (Or.inr rfl))) }
  | forward hrunner hplain =>
    refine { hs with failed := fun hfailed => (hs.failed hfailed).imp_right ?_ }
    rintro (hsending | hmem | ⟨evt', _, _, hforwarding, herror⟩ | hreturned)
    · exact Or.inl hsending
    · exact Or.inr (Or.inl hmem)
    · obtain ⟨rfl, _, _⟩ := RunnerGoroutine.forwarding.inj (hrunner.symm.trans hforwarding)
      exact absurd herror hplain
    · cases hrunner.symm.trans hreturned
  | consume rest => exact { hs with }

/-! ## Turns that do not complete -/

/-- A turn that has failed, or was cancelled before the agent had finished, has
appended nothing. -/
def Clean (s : StreamState) : Prop := s.failed = true ∨ s.early = true → s.appended = []

/-- If the runner finds the channel closed, the context was not cancelled before the
agent had finished; or there is nothing to store, or the store refuses it. -/
def Orderly (s : StreamState) : StreamEvent → Prop
  | .closed => s.early = true → p.sessionID = [] ∨ p.store.append.isSome = true
  | _ => True

theorem appended_recordTurn (s : StreamState) (content reasoning : Str) :
    ((p.sessionID = [] ∨ p.store.append.isSome = true) ∧
      ((p.recordTurn s content reasoning).appended = [] ∨
        (p.recordTurn s content reasoning).appended = s.appended)) ∨
    (¬ (p.sessionID = [] ∨ p.store.append.isSome = true) ∧
      (p.recordTurn s content reasoning).appended ≠ []) := by
  by_cases hsid : p.sessionID = []
  · simp [recordTurn, Runner.appendConversation, hsid]
  · cases happend : p.store.append with
    | some | none => simp [recordTurn, Runner.appendConversation, hsid, happend]

theorem flags_recordTurn (s : StreamState) (content reasoning : Str) :
    (p.recordTurn s content reasoning).failed = s.failed ∧
      (p.recordTurn s content reasoning).early = s.early := by
  unfold recordTurn
  split <;> exact ⟨rfl, rfl⟩

theorem orderly_iff_clean (hs : Sound s) (hclean : Clean s)
    (h : p.Moves s e s') : p.Orderly s e ↔ Clean s' := by
  cases h with
  | cancel =>
    refine iff_of_true trivial ?_
    intro hbad
    by_contra happended
    have hgood : ¬ (s.failed = true ∨ s.early = true) := fun h => happended (hclean h)
    rcases hs.returned (hs.appended happended) with heof | hearly | hfailed
    · rcases hbad with hfailed | hearly
      · exact hgood (Or.inl hfailed)
      · rw [heof] at hearly
        exact hgood (Or.inr (by simpa using hearly))
    · exact hgood (Or.inr hearly)
    · exact hgood (Or.inl hfailed)
  | recv result hagent =>
    refine iff_of_true trivial ?_
    intro _
    have hnone : s.appended = [] := by
      by_contra happended
      cases hagent.symm.trans (hs.appended happended)
    cases result with
    | message | eof | error => exact hnone
  | closed hrunner hraw hagent =>
    rename_i content reasoning
    obtain ⟨hfailed, hearly⟩ := p.flags_recordTurn s content reasoning
    have hbad : ((p.recordTurn s content reasoning).failed = true ∨
        (p.recordTurn s content reasoning).early = true) ↔ s.early = true := by
      rw [hfailed, hearly]
      constructor
      · rintro (h | h)
        · exact hs.early_of_failed hrunner hraw hagent h
        · exact h
      · exact Or.inr
    rcases p.appended_recordTurn s content reasoning with ⟨hnothing, happended⟩ | ⟨hstores, hne⟩
    · refine iff_of_true (fun _ => hnothing) ?_
      intro h
      rcases happended with hnil | hsame
      · exact hnil
      · exact hsame.trans (hclean (Or.inr (hbad.mp h)))
    · constructor
      · intro horderly h
        exact absurd (horderly (hbad.mp h)) hstores
      · intro h hearly'
        exact absurd (h (hbad.mpr hearly')) hne
  | checkDone | check | send | giveUp | take | done | forward | forwardLast | consume =>
    exact iff_of_true trivial hclean

theorem clean_init : Clean p.init := by
  intro _
  unfold init
  split <;> rfl

end StreamTurn

/-- The context of a call of `Run` when the agent has finished.  `Run` does not look at
it, but the agent, the hooks and the store do. -/
inductive RunContext where
  | alive
  | cancelled
  deriving DecidableEq, Repr

/-- A call of `Run`, under either context. -/
structure RunTurn where
  runner : RunContext → Runner
  store : RunContext → StoreAnswers
  request : Option Request
  heap : Heap

namespace RunTurn

variable (q : RunTurn)

def turn (ctx : RunContext) : Turn := (q.runner ctx).run (some (q.store ctx)) q.request q.heap

/-- The call fails, or its context is cancelled before the agent has finished. -/
def Incomplete (ctx : RunContext) : Prop :=
  ctx = .cancelled ∨ ∃ failure, (q.turn ctx).outcome = .error failure

/-- If the agent and the hooks answer although the context is cancelled, there is nothing
to store, or the store refuses it. -/
def Heeds : Prop :=
  ∀ prepared resp heap,
    (q.runner .cancelled).prepareRequest (some (q.store .cancelled)) q.heap q.request =
      .ok prepared →
    ((q.runner .cancelled).modelPath prepared).exec q.heap = (.ok resp, heap) →
      prepared.sessionID = [] ∨ (q.store .cancelled).append.isSome = true ∨
        (q.request.map (·.messages)).getD [] ++ resp.messages = []

theorem appended_iff {prepared : Request} {resp : Response} {heap : Heap} {ctx : RunContext}
    (hprepared : (q.runner ctx).prepareRequest (some (q.store ctx)) q.heap q.request =
      .ok prepared)
    (hpath : ((q.runner ctx).modelPath prepared).exec q.heap = (.ok resp, heap)) :
    (q.turn ctx).appended = [] ↔
      prepared.sessionID = [] ∨ (q.store ctx).append.isSome = true ∨
        (q.request.map (·.messages)).getD [] ++ resp.messages = [] := by
  simp only [turn, Runner.run, hprepared, hpath, Runner.appendConversation]
  by_cases hsid : prepared.sessionID = []
  · simp [hsid]
  · cases happend : (q.store ctx).append with
    | some | none => simp [hsid]

theorem heeds_iff : (∀ ctx, q.Incomplete ctx → (q.turn ctx).appended = []) ↔ q.Heeds := by
  constructor
  · intro h prepared resp heap hprepared hpath
    exact (q.appended_iff hprepared hpath).mp (h .cancelled (Or.inl rfl))
  · rintro h ctx (rfl | ⟨failure, hfailed⟩)
    · rcases Runner.run_cases (q.runner .cancelled) (some (q.store .cancelled))
        q.request q.heap with
        ⟨_, _, hrun⟩ | ⟨prepared, hprepared, ⟨_, _, _, hrun⟩ | ⟨resp, heap, hpath, _⟩⟩
      · rw [turn, hrun]
      · rw [turn, hrun]
      · exact (q.appended_iff hprepared hpath).mpr (h prepared resp heap hprepared hpath)
    · exact Runner.appended_of_failed hfailed

end RunTurn

/-- **Turns that do not complete.**  A call of `Run` that fails, or whose context is
cancelled before the agent has finished, appends nothing to the session exactly if an
answer behind such a cancellation has nothing to store or is refused by the store; and in
a schedule of a streamed turn nothing is appended for one that fails or is cancelled
before the agent has finished exactly if the runner never finds the channel closed behind
such a cancellation. -/
theorem incomplete_turn_appends_nothing (q : RunTurn) (p : StreamTurn) :
    ((∀ ctx, q.Incomplete ctx → (q.turn ctx).appended = []) ↔ q.Heeds) ∧
    ∀ l, (p.machine.run p.machine.init l).isSome = true →
      (p.machine.Along p.Orderly p.machine.init l ↔
        ∀ front s, front <+: l → p.machine.run p.machine.init front = some s →
          StreamTurn.Clean s) := by
  refine ⟨q.heeds_iff, ?_⟩
  intro l hrun
  refine p.machine.along_iff (J := StreamTurn.Sound) ?_ ?_ p.sound_init p.clean_init hrun
  · intro s e s' hs hstep
    exact hs.moves p (p.moves_of_step hstep)
  · intro s e s' hs hclean hstep
    exact p.orderly_iff_clean hs hclean (p.moves_of_step hstep)

/-- A turn of a session whose agent, asked for an answer at once, fails. -/
def questionTurn : StreamTurn where
  runner := { agent := fun _ => throw (.error .canceled) }
  store := { get := .ok [] }
  request := some { messages := [some 0], sessionID := lit "sess_1" }
  heap _ := { role := lit "user", content := lit "q1" }

/-- The same of `Run`, with an agent that answers if the context is alive. -/
def questionRun : RunTurn where
  runner
    | .alive => { agent := fun _ => pure (some { messages := [some 1] }) }
    | .cancelled => questionTurn.runner
  store _ := questionTurn.store
  request := questionTurn.request
  heap := questionTurn.heap

/-- The context is cancelled before the agent looks at it, and the runner looks at it
too. -/
theorem incomplete_turn_appends_nothing_cancelled :
    (questionRun.turn .alive).appended = [some 0, some 1] ∧
    (questionRun.turn .cancelled).appended = [] ∧
    ∃ s, questionTurn.machine.run questionTurn.machine.init [.cancel, .check, .done] = some s ∧
      s.early = true ∧ s.appended = [] := by
  obtain ⟨hcall, hstream⟩ := incomplete_turn_appends_nothing questionRun questionTurn
  have hheeds : questionRun.Heeds := by
    intro _ _ _ _ hpath
    cases hpath
  refine ⟨rfl, hcall.mpr hheeds .cancelled (Or.inl rfl), _, rfl, rfl, ?_⟩
  have horderly : questionTurn.machine.Along questionTurn.Orderly questionTurn.machine.init
      [.cancel, .check, .done] :=
    ⟨trivial, fun _ _ => ⟨trivial, fun _ _ => ⟨trivial, fun _ _ => trivial⟩⟩⟩
  exact (hstream _ rfl).mp horderly _ _ List.prefix_rfl rfl (Or.inr rfl)

/-- The context is cancelled behind the first event, the agent returns, and the runner
finds the channel closed: the beginning of the answer is stored. -/
theorem cancelled_turn_is_stored :
    ∃ s, questionTurn.machine.run questionTurn.machine.init
        [.check, .recv (.message (lit "The ans") []), .send, .cancel, .check, .take, .forward,
         .closed] = some s ∧
      s.eof = false ∧ s.early = true ∧
      s.appended = [.inl (some 0),
        .inr { role := roleAssistant, content := lit "The ans" }] ∧
      ¬ StreamTurn.Clean s := by
  refine ⟨_, rfl, rfl, rfl, rfl, ?_⟩
  intro hclean
  exact absurd (hclean (Or.inr rfl)) (List.cons_ne_nil _ _)

end Adk

end MiniGoAgent
