/-
# `Server.Turns` — histories are made of whole turns

What the histories are for is said by a `Ledger`: requests that are open, and the
turns that have been completed, in the order of their appends.  It is run over
the events of the server alone and knows nothing of the session manager; a
history is what the turns of its session say one after the other.

`serverMachine` refines it as long as the requests are texts and nothing is
evicted or loaded (`Mirrors`).
-/
import MiniGoAgent.Server.Errors

open Go

namespace MiniGoAgent

/-! ## The ledger -/

/-- A request that waits for its answer; `serial` counts the requests. -/
structure OpenRequest where
  serial : Nat
  sid : Str
  user : Schema.Message
  call : AgentCall

structure Turn where
  serial : Nat
  sid : Str
  user : Schema.Message
  reply : Option Schema.Message

def Turn.messages (t : Turn) : History := [some t.user, t.reply]

structure Ledger where
  arrived : Nat := 0
  waiting : Nat → Option OpenRequest := fun _ => none
  turns : List Turn := []

def Ledger.history (l : Ledger) (sid : Str) : History :=
  (l.turns.filter (fun t => t.sid == sid)).flatMap Turn.messages

/-- The message of a text request and the call it is to be answered by, unless the
request is refused. -/
def Request.asked (req : Request) (r : HttpCall) : Option (Schema.Message × AgentCall) :=
  match req with
  | .chat (some message) localImage =>
    if r.post then some (Schema.userMessage (chatText message localImage), .generate) else none
  | .chatStream (some message) =>
    if r.post && r.flushes then some (Schema.userMessage message, .stream true) else none
  | _ => none

/-- The turn an answer completes. -/
def Ledger.completed (l : Ledger) (id : Nat) (outcome : AgentOutcome) : Option Turn :=
  (l.waiting id).bind (fun o => (outcome.reply o.call).map (fun reply =>
    { serial := o.serial, sid := o.sid, user := o.user, reply }))

def Ledger.step (defaultSession : Str) (l : Ledger) : ServerEvent → Ledger
  | .arrive id _ req r _ _ =>
    { l with
      arrived := l.arrived + 1
      waiting := Function.update l.waiting id ((req.asked r).map (fun asked =>
        { serial := l.arrived
          sid := (newManager defaultSession).sessionID r
          user := asked.1
          call := asked.2 })) }
  | .agentDone id _ outcome =>
    { l with
      waiting := Function.update l.waiting id none
      turns := l.turns ++ (l.completed id outcome).toList }
  | _ => l

def ledger (defaultSession : Str) (events : List ServerEvent) : Ledger :=
  events.foldl (Ledger.step defaultSession) {}

theorem ledger_snoc (defaultSession : Str) (events : List ServerEvent) (e : ServerEvent) :
    ledger defaultSession (events ++ [e]) =
      (ledger defaultSession events).step defaultSession e := by
  rw [ledger, List.foldl_append]
  rfl

variable {l : Ledger} {id : Nat}

theorem history_turns_snoc (l : Ledger) (t : Turn) (sid : Str) :
    ({ l with turns := l.turns ++ [t] } : Ledger).history sid =
      if t.sid = sid then l.history sid ++ t.messages else l.history sid := by
  rw [Ledger.history, Ledger.history, List.filter_append, List.flatMap_append]
  by_cases hsid : t.sid = sid <;> simp [hsid]

/-! ## No turn twice -/

/-- Serial numbers are given once: to the requests that wait and to the turns. -/
structure Ledger.Once (l : Ledger) : Prop where
  waiting : ∀ id o, l.waiting id = some o → o.serial < l.arrived ∧
    o.serial ∉ l.turns.map Turn.serial
  apart : ∀ id o id' o', l.waiting id = some o → l.waiting id' = some o' →
    o.serial = o'.serial → id = id'
  turns : ∀ n ∈ l.turns.map Turn.serial, n < l.arrived
  nodup : (l.turns.map Turn.serial).Nodup

theorem Ledger.Once.drop (h : l.Once) (id : Nat) :
    ({ l with waiting := Function.update l.waiting id none } : Ledger).Once := by
  have hleft : ∀ {k o}, Function.update l.waiting id none k = some o → l.waiting k = some o := by
    intro k o hk
    rcases update_eq_some hk with ⟨_, hnone⟩ | ⟨_, hk⟩
    · cases hnone
    · exact hk
  refine ⟨?_, ?_, h.turns, h.nodup⟩
  · intro k o hk
    exact h.waiting k o (hleft hk)
  · intro k o k' o' hk hk' heq
    exact h.apart k o k' o' (hleft hk) (hleft hk') heq

theorem Ledger.Once.close (h : l.Once) {o : OpenRequest}
    (ho : l.waiting id = some o) {t : Turn} (ht : t.serial = o.serial) :
    ({ l with
      waiting := Function.update l.waiting id none
      turns := l.turns ++ [t] } : Ledger).Once := by
  obtain ⟨hlt, hfresh⟩ := h.waiting id o ho
  have hdrop := h.drop id
  have hserials : (l.turns ++ [t]).map Turn.serial = l.turns.map Turn.serial ++ [o.serial] := by
    rw [List.map_append, List.map_singleton, ht]
  constructor
  · intro k o' hk
    refine ⟨(hdrop.waiting k o' hk).1, ?_⟩
    rw [hserials]
    intro hmem
    rcases List.mem_append.mp hmem with hmem | hmem
    · exact (hdrop.waiting k o' hk).2 hmem
    · -- the number would be that of the request which leaves
      rcases update_eq_some hk with ⟨_, hnone⟩ | ⟨hne, hold⟩
      · cases hnone
      · exact hne (h.apart k o' id o hold ho (List.mem_singleton.mp hmem))
  · exact hdrop.apart
  · intro n hn
    rw [hserials] at hn
    rcases List.mem_append.mp hn with hn | hn
    · exact h.turns n hn
    · rw [List.mem_singleton.mp hn]
      exact hlt
  · rw [hserials]
    refine h.nodup.append (List.nodup_singleton _) ?_
    intro n hn hn'
    rw [List.mem_singleton.mp hn'] at hn
    exact hfresh hn

theorem once_step (defaultSession : Str) (h : l.Once) (e : ServerEvent) :
    (l.step defaultSession e).Once := by
  cases e with
  | arrive id now req r model tools =>
    have hold : ∀ {k o}, l.waiting k = some o → o.serial < l.arrived := by
      intro k o hk
      exact (h.waiting k o hk).1
    constructor
    · intro k o hk
      rcases update_eq_some hk with ⟨_, hnew⟩ | ⟨_, hk⟩
      · obtain ⟨asked, _, rfl⟩ := Option.map_eq_some_iff.mp hnew
        exact ⟨Nat.lt_succ_self _, fun hmem => Nat.lt_irrefl _ (h.turns _ hmem)⟩
      · exact ⟨Nat.lt_succ_of_lt (hold hk), (h.waiting k o hk).2⟩
    · intro k o k' o' hk hk' heq
      rcases update_eq_some hk with ⟨hid, hnew⟩ | ⟨_, hkept⟩
      · obtain ⟨asked, _, rfl⟩ := Option.map_eq_some_iff.mp hnew
        rcases update_eq_some hk' with ⟨hid', _⟩ | ⟨_, hkept'⟩
        · exact hid.trans hid'.symm
        · exact absurd heq.symm (Nat.ne_of_lt (hold hkept'))
      · rcases update_eq_some hk' with ⟨_, hnew'⟩ | ⟨_, hkept'⟩
        · obtain ⟨asked, _, rfl⟩ := Option.map_eq_some_iff.mp hnew'
          exact absurd heq (Nat.ne_of_lt (hold hkept))
        · exact h.apart k o k' o' hkept hkept' heq
    · intro n hn
      exact Nat.lt_succ_of_lt (h.turns n hn)
    · exact h.nodup
  | agentDone id now outcome =>
    simp only [Ledger.step]
    cases hturn : l.completed id outcome with
    | none =>
      rw [Option.toList_none, List.append_nil]
      exact h.drop id
    | some t =>
      rw [Option.toList_some]
      obtain ⟨o, ho, hreply⟩ := Option.bind_eq_some_iff.mp hturn
      obtain ⟨reply, _, rfl⟩ := Option.map_eq_some_iff.mp hreply
      exact h.close ho rfl
  | cleanup | load => exact h

theorem once_ledger (defaultSession : Str) (events : List ServerEvent) :
    (ledger defaultSession events).Once := by
  induction events using List.reverseRecOn with
  | nil =>
    refine ⟨?_, ?_, ?_, List.nodup_nil⟩
    · intro id o ho
      cases ho
    · intro id o id' o' ho
      cases ho
    · intro n hn
      cases hn
  | append_singleton events e ih =>
    rw [ledger_snoc]
    exact once_step defaultSession ih e

/-! ## Texts -/

def Request.isText (req : Request) : Bool :=
  match req with
  | .chat _ _ => !req.isVision
  | .chatStream _ => true
  | _ => false

/-- Requests with texts, and their answers. -/
def ServerEvent.IsText : ServerEvent → Prop
  | .arrive _ _ req _ _ _ => req.isText = true
  | .agentDone _ _ _ => True
  | _ => False

theorem sessionID_congr {m m' : Manager} (h : m.defaultSession = m'.defaultSession)
    (r : HttpCall) : m.sessionID r = m'.sessionID r := by
  unfold Manager.sessionID
  rw [h]

theorem arrive_text {req : Request} (h : req.isText = true) (tools : VisionTools)
    (model : Str) (now : Int) (r : HttpCall) (m : Manager) :
    (req.arrive tools model now r m).1.defaultSession = m.defaultSession ∧
      (req.arrive tools model now r m).2 = (req.asked r).map (fun asked =>
        { sid := m.sessionID r
          userMsg := some asked.1
          msgs := m.history (m.sessionID r) ++ [some asked.1]
          call := asked.2 }) := by
  cases req with
  | chat message localImage =>
    show (handleChat tools model now r message localImage m).1.defaultSession = _ ∧
      (handleChat tools model now r message localImage m).2 = _
    cases message with
    | none => cases hpost : r.post <;> simp [handleChat, Request.asked, hpost]
    | some message =>
      have hplain : hasPrefix (chatText message localImage) (lit "data:image/") = false := by
        simpa [Request.isText, Request.isVision] using h
      cases hpost : r.post with
      | false => simp [handleChat, Request.asked, hpost]
      | true =>
        simp only [handleChat, Request.asked, hpost, hplain]
        exact ⟨rfl, rfl⟩
  | chatStream message =>
    show (handleChatStream now r message m).1.defaultSession = _ ∧
      (handleChatStream now r message m).2 = _
    cases message with
    | none => cases hpost : r.post <;> simp [handleChatStream, Request.asked, hpost]
    | some message =>
      cases hpost : r.post with
      | false => simp [handleChatStream, Request.asked, hpost]
      | true =>
        simp only [handleChatStream, Request.asked, hpost]
        cases hflush : r.flushes <;> exact ⟨rfl, rfl⟩
  | vision | visionStream => cases h

/-! ## Refinement -/

/-- The server holds what the ledger says. -/
structure Mirrors (defaultSession : Str) (s : ServerState) (l : Ledger) : Prop where
  session : s.manager.defaultSession = (newManager defaultSession).defaultSession
  history : ∀ sid, s.manager.history sid = l.history sid
  waiting : ∀ id, (s.inFlight id).map
    (fun f => (f.running.sid, f.running.userMsg, f.running.call)) =
    (l.waiting id).map (fun o => (o.sid, some o.user, o.call))

section Refinement

variable {defaultSession : Str} {s s' : ServerState} {l : Ledger}

theorem mirrors_arrive (h : Mirrors defaultSession s l) {now : Int} {req : Request}
    {r : HttpCall} {model : Str} {tools : VisionTools} (htext : req.isText = true)
    (hstep : (serverMachine defaultSession).step s (.arrive id now req r model tools) = some s') :
    Mirrors defaultSession s'
      (l.step defaultSession (.arrive id now req r model tools)) := by
  obtain ⟨hsession, hrunning⟩ := arrive_text htext tools model now r s.manager
  obtain rfl := step_arrive hstep
  refine ⟨hsession.trans h.session, ?_, ?_⟩
  · intro sid
    exact ((arrive_arrived tools model now s.manager req r).history sid).trans (h.history sid)
  · intro k
    by_cases hk : k = id
    · subst hk
      simp only [Ledger.step, Function.update_self, hrunning, Option.map_map]
      rw [← sessionID_congr h.session r]
      rfl
    · simp only [Ledger.step, Function.update_of_ne hk]
      exact h.waiting k

theorem mirrors_agentDone (h : Mirrors defaultSession s l) {now : Int} {outcome : AgentOutcome}
    (hstep : (serverMachine defaultSession).step s (.agentDone id now outcome) = some s') :
    Mirrors defaultSession s' (l.step defaultSession (.agentDone id now outcome)) := by
  obtain ⟨f, hf, hdone, hleft⟩ := step_agentDone hstep
  have hmanager := (agentDone_reply hdone).1
  have ho := h.waiting id
  rw [hf, Option.map_some] at ho
  obtain ⟨o, ho, hsame⟩ := Option.map_eq_some_iff.mp ho.symm
  simp only [Prod.mk.injEq] at hsame
  obtain ⟨hsid, huser, hcall⟩ := hsame
  have hturn : l.completed id outcome = (outcome.reply f.running.call).map (fun reply =>
      { serial := o.serial, sid := f.running.sid, user := o.user, reply }) := by
    rw [Ledger.completed, ho, Option.bind_some, hsid, hcall]
  refine ⟨?_, ?_, ?_⟩
  · rw [hmanager]
    cases outcome.reply f.running.call <;> exact h.session
  · intro sid
    rw [hmanager, Ledger.step, hturn]
    cases outcome.reply f.running.call with
    | none =>
      rw [Option.map_none, Option.toList_none, List.append_nil]
      exact h.history sid
    | some reply =>
      refine Eq.trans ?_ (history_turns_snoc l _ sid).symm
      by_cases hk : f.running.sid = sid
      · subst hk
        rw [if_pos rfl, Option.elim_some, Manager.history_append_self, h.history, ← huser]
        rfl
      · rw [if_neg hk, ← h.history]
        exact s.manager.history_append_of_ne now (Ne.symm hk) _
  · intro k
    rw [hleft]
    by_cases hk : k = id
    · simp only [Ledger.step, hk, Function.update_self]
      rfl
    · simp only [Ledger.step, Function.update_of_ne hk]
      exact h.waiting k

/-- What the agent was handed for a request under way: the turns there were when it
arrived, and its own message. -/
def Handed (defaultSession : Str) (events : List ServerEvent) (id : Nat) (q : Running) :
    Prop :=
  ∃ front now req r model tools back user call,
    events = front ++ .arrive id now req r model tools :: back ∧
      req.asked r = some (user, call) ∧ q.userMsg = some user ∧ q.call = call ∧
      q.sid = (newManager defaultSession).sessionID r ∧
      q.msgs = (ledger defaultSession front).history q.sid ++ [some user]

variable {events : List ServerEvent}

theorem Handed.snoc {q : Running} (h : Handed defaultSession events id q) (e : ServerEvent) :
    Handed defaultSession (events ++ [e]) id q := by
  obtain ⟨front, now, req, r, model, tools, back, user, call, rfl, hrest⟩ := h
  exact ⟨front, now, req, r, model, tools, back ++ [e], user, call, by simp, hrest⟩

theorem handed_step {e : ServerEvent} (htext : e.IsText)
    (hmirrors : Mirrors defaultSession s (ledger defaultSession events))
    (h : ∀ id f, s.inFlight id = some f → Handed defaultSession events id f.running)
    (hstep : (serverMachine defaultSession).step s e = some s') {f : InFlight}
    (hf : s'.inFlight id = some f) : Handed defaultSession (events ++ [e]) id f.running := by
  cases e with
  | arrive id' now req r model tools =>
    obtain rfl := step_arrive hstep
    rcases update_eq_some hf with ⟨rfl, hnew⟩ | ⟨_, hold⟩
    · rw [(arrive_text htext tools model now r s.manager).2] at hnew
      obtain ⟨q, hq, rfl⟩ := Option.map_eq_some_iff.mp hnew
      obtain ⟨⟨user, call⟩, hasked, rfl⟩ := Option.map_eq_some_iff.mp hq
      refine ⟨events, now, req, r, model, tools, [], user, call, rfl, hasked, rfl, rfl,
        sessionID_congr hmirrors.session r, ?_⟩
      exact congrArg (· ++ [some user]) (hmirrors.history _)
    · exact (h id f hold).snoc _
  | agentDone id' now outcome =>
    obtain ⟨g, _, _, hleft⟩ := step_agentDone hstep
    rw [hleft] at hf
    rcases update_eq_some hf with ⟨_, hnone⟩ | ⟨_, hold⟩
    · cases hnone
    · exact (h id f hold).snoc _
  | cleanup | load => exact False.elim htext

end Refinement

/-- **Histories are made of turns.**  In every run of text requests, a history is
what the completed turns of its session say, in the order they were appended in;
every request has at most one turn; and the agent was handed, for every request
under way, the turns its session had then, with the message of the request
behind them. -/
theorem histories_are_turns {defaultSession : Str}
    {s : ServerState} (htext : ∀ e ∈ events, e.IsText)
    (hrun : (serverMachine defaultSession).run (serverMachine defaultSession).init events =
      some s) :
    (∀ sid, s.manager.history sid = (ledger defaultSession events).history sid) ∧
      ((ledger defaultSession events).turns.map Turn.serial).Nodup ∧
      ∀ id f, s.inFlight id = some f → Handed defaultSession events id f.running := by
  have hinv : (∀ e ∈ events, e.IsText) → Mirrors defaultSession s (ledger defaultSession events) ∧
      ∀ id f, s.inFlight id = some f → Handed defaultSession events id f.running := by
    refine (serverMachine defaultSession).run_rule (P := fun events s =>
      (∀ e ∈ events, e.IsText) → Mirrors defaultSession s (ledger defaultSession events) ∧
        ∀ id f, s.inFlight id = some f → Handed defaultSession events id f.running) ?_ ?_ hrun
    · intro _
      refine ⟨⟨rfl, fun _ => rfl, fun _ => rfl⟩, ?_⟩
      intro id f hf
      cases hf
    · intro events s e s' _ ih hstep htext
      obtain ⟨hmirrors, hhanded⟩ := ih (fun e' he' => htext e' (List.mem_append_left _ he'))
      have he : e.IsText := htext e (List.mem_append_right _ List.mem_cons_self)
      refine ⟨?_, fun id f hf => handed_step he hmirrors hhanded hstep hf⟩
      rw [ledger_snoc]
      cases e with
      | arrive id now req r model tools => exact mirrors_arrive hmirrors he hstep
      | agentDone id now outcome => exact mirrors_agentDone hmirrors hstep
      | cleanup | load => exact False.elim he
  exact ⟨(hinv htext).1.history, (once_ledger defaultSession events).nodup, (hinv htext).2⟩

/-- Two requests to one session: the second is handed nothing, since it arrives
before the first is answered, and is answered first. -/
def overtaking : List ServerEvent :=
  [.arrive 0 0 (.chat (some (lit "one")) none) {} [] seeing,
    .arrive 1 1 (.chatStream (some (lit "two"))) {} [] seeing,
    .agentDone 1 2 (.streamed [some { role := roleAssistant, content := lit "2" }] none false),
    .agentDone 0 3 (.generated (some { role := roleAssistant, content := lit "1" }))]

theorem histories_are_turns_overtaking :
    ∃ s, (serverMachine []).run (serverMachine []).init overtaking = some s ∧
      s.manager.history (lit "default") = (ledger [] overtaking).history (lit "default") ∧
      (ledger [] overtaking).history (lit "default") =
        [some (Schema.userMessage (lit "two")), some { role := roleAssistant, content := lit "2" },
          some (Schema.userMessage (lit "one")),
          some { role := roleAssistant, content := lit "1" }] := by
  have htext : ∀ e ∈ overtaking, e.IsText := by
    intro e he
    simp only [overtaking, List.mem_cons, List.not_mem_nil, or_false] at he
    rcases he with rfl | rfl | rfl | rfl
    · show Request.isText _ = true
      decide +kernel
    · rfl
    · trivial
    · trivial
  have hsome : ((serverMachine []).run (serverMachine []).init overtaking).isSome = true := by
    decide +kernel
  obtain ⟨s, hs⟩ := Option.isSome_iff_exists.mp hsome
  exact ⟨s, hs, (histories_are_turns htext hs).1 _, by decide +kernel⟩

end MiniGoAgent
