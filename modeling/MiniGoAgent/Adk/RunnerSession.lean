/-
# `Adk.RunnerSession` — calls of `Runner.Run` on one session

A sequence of calls, each with a runner, a request and answers of the store of its
own: agents, hooks and guardrails may differ from call to call, and `Get` and
`Append` may fail in any of them.  Of the store it is asked that what `Get` returns
has the contents of what was appended.

`stored_conversation` says what the session holds behind any such sequence.
-/
import MiniGoAgent.Adk.Runner

open Go

namespace MiniGoAgent

namespace Adk

structure RunCall where
  runner : Runner
  messages : List Ptr
  toolNames : List Str := []
  store : StoreAnswers

namespace RunCall

def request (sid : Str) (c : RunCall) : Request where
  messages := c.messages
  sessionID := sid
  toolNames := c.toolNames

def turn (sid : Str) (c : RunCall) (heap : Heap) : Turn :=
  c.runner.run (some c.store) (some (c.request sid)) heap

end RunCall

/-- The messages a call leaves in the session: those of the request and those of the
response, if it succeeds. -/
def Turn.conversation (t : Turn) (input : List Ptr) : List Ptr :=
  match t.outcome with
  | .ok resp => input ++ resp.messages
  | .error _ => []

structure SessionState where
  heap : Heap
  /-- what has been appended to the session -/
  stored : List Ptr
  /-- the calls that have been made, with their messages -/
  turns : List (List Ptr × Turn) := []

/-- The messages of the successful calls, and of their responses. -/
def SessionState.conversation (s : SessionState) : List Ptr :=
  s.turns.flatMap fun t => t.2.conversation t.1

/-- `Get` returns what was appended. -/
def RunCall.honest (c : RunCall) (s : SessionState) : Bool :=
  match c.store.get with
  | .ok existing => decide (contents s.heap existing = contents s.heap s.stored)
  | .error _ => true

variable {calls : List RunCall} {c : RunCall} {s : SessionState}

theorem RunCall.contents_of_honest (h : c.honest s = true) {existing : List Ptr}
    (hget : c.store.get = .ok existing) : contents s.heap existing = contents s.heap s.stored := by
  simp only [RunCall.honest, hget] at h
  exact of_decide_eq_true h

/-- The calls on the session `sid`, on a heap and with a history to begin with. -/
def sessionMachine (sid : Str) (heap₀ : Heap) (stored₀ : List Ptr) :
    Machine SessionState RunCall where
  init := { heap := heap₀, stored := stored₀ }
  step s c :=
    if c.honest s then
      some {
        heap := (c.turn sid s.heap).heap
        stored := s.stored ++ (c.turn sid s.heap).appended
        turns := s.turns ++ [(c.messages, c.turn sid s.heap)] }
    else none

section Runs

variable {sid : Str} {heap₀ : Heap} {stored₀ : List Ptr}

theorem step_sessionMachine {s' : SessionState}
    (h : (sessionMachine sid heap₀ stored₀).step s c = some s') :
    c.honest s = true ∧ s' = {
      heap := (c.turn sid s.heap).heap
      stored := s.stored ++ (c.turn sid s.heap).appended
      turns := s.turns ++ [(c.messages, c.turn sid s.heap)] } := by
  simp only [sessionMachine] at h
  split at h
  next hhonest => exact ⟨hhonest, (Option.some.inj h).symm⟩
  · cases h

theorem appended_turn (hsid : sid ≠ []) (c : RunCall) (heap : Heap) :
    (c.turn sid heap).appended = (c.turn sid heap).conversation c.messages := by
  unfold Turn.conversation
  cases houtcome : (c.turn sid heap).outcome with
  | error failure => exact Runner.appended_of_failed houtcome
  | ok resp =>
    rcases Runner.run_cases c.runner (some c.store) (some (c.request sid)) heap with
      ⟨_, _, hrun⟩ | ⟨prepared, hprepared, ⟨_, _, _, hrun⟩ |
        ⟨resp', _, _, ⟨_, hrun⟩ | ⟨appended, happend, hrun⟩⟩⟩
    · cases houtcome.symm.trans (congrArg Turn.outcome hrun)
    · cases houtcome.symm.trans (congrArg Turn.outcome hrun)
    · cases houtcome.symm.trans (congrArg Turn.outcome hrun)
    · obtain rfl : resp = resp' :=
        Except.ok.inj (houtcome.symm.trans (congrArg Turn.outcome hrun))
      obtain ⟨req', hreq', hid⟩ := Runner.sessionID_prepareRequest hprepared
      cases hreq'
      have hne : prepared.sessionID ≠ [] := by
        rw [hid]
        exact hsid
      simp only [Runner.appendConversation, if_neg hne] at happend
      split at happend
      · cases happend
      · refine (congrArg Turn.appended hrun).trans ?_
        exact (Except.ok.inj happend).symm

theorem entered_turn (hsid : sid ≠ []) {heap : Heap} {entered : List Ptr}
    (h : (c.turn sid heap).entered = some entered) :
    ∃ existing, c.store.get = .ok existing ∧ entered = existing ++ c.messages := by
  have hmessages : ∀ prepared : Request,
      c.runner.prepareRequest (some c.store) heap (some (c.request sid)) = .ok prepared →
      some prepared.messages = some entered →
      ∃ existing, c.store.get = .ok existing ∧ entered = existing ++ c.messages := by
    intro prepared hprepared hentered
    obtain ⟨existing, hget, hmsgs⟩ := Runner.messages_prepareRequest hsid hprepared
    exact ⟨existing, hget, (Option.some.inj hentered).symm.trans hmsgs⟩
  rcases Runner.run_cases c.runner (some c.store) (some (c.request sid)) heap with
    ⟨_, _, hrun⟩ | ⟨prepared, hprepared, ⟨_, _, _, hrun⟩ | ⟨_, _, _, ⟨_, hrun⟩ | ⟨_, _, hrun⟩⟩⟩
  · cases h.symm.trans (congrArg Turn.entered hrun)
  · exact hmessages prepared hprepared ((congrArg Turn.entered hrun).symm.trans h)
  · exact hmessages prepared hprepared ((congrArg Turn.entered hrun).symm.trans h)
  · exact hmessages prepared hprepared ((congrArg Turn.entered hrun).symm.trans h)

theorem turns_of_run
    (hrun : (sessionMachine sid heap₀ stored₀).run (sessionMachine sid heap₀ stored₀).init calls =
      some s) : s.turns.map Prod.fst = calls.map (·.messages) := by
  refine (sessionMachine sid heap₀ stored₀).run_rule
    (P := fun calls s => s.turns.map Prod.fst = calls.map (·.messages)) rfl ?_ hrun
  intro l t c t' _ ih hstep
  obtain ⟨_, rfl⟩ := step_sessionMachine hstep
  rw [List.map_append, List.map_append, ih]
  rfl

theorem stored_of_run (hsid : sid ≠ [])
    (hrun : (sessionMachine sid heap₀ stored₀).run (sessionMachine sid heap₀ stored₀).init calls =
      some s) : s.stored = stored₀ ++ s.conversation := by
  refine (sessionMachine sid heap₀ stored₀).run_rule
    (P := fun _ s => s.stored = stored₀ ++ s.conversation) ?_ ?_ hrun
  · exact (List.append_nil stored₀).symm
  · intro l t c t' _ ih hstep
    obtain ⟨_, rfl⟩ := step_sessionMachine hstep
    simp only [SessionState.conversation, List.flatMap_append, List.flatMap_singleton] at ih ⊢
    rw [ih, appended_turn hsid, List.append_assoc]

theorem heap_of_run (hreads : ∀ c ∈ calls, c.runner.ReadsOnly)
    (hrun : (sessionMachine sid heap₀ stored₀).run (sessionMachine sid heap₀ stored₀).init calls =
      some s) : s.heap = heap₀ := by
  refine (sessionMachine sid heap₀ stored₀).run_rule
    (P := fun calls s => (∀ c ∈ calls, c.runner.ReadsOnly) → s.heap = heap₀)
    (fun _ => rfl) ?_ hrun hreads
  intro l t c t' _ ih hstep hall
  obtain ⟨_, rfl⟩ := step_sessionMachine hstep
  have hc : c.runner.ReadsOnly := hall c (List.mem_append_right l List.mem_cons_self)
  exact (hc.heap_run _ _ _).trans (ih fun c' hc' => hall c' (List.mem_append_left [c] hc'))

/-- **The stored conversation.**  Behind any calls on a session it holds, in order, the
messages of the successful ones and of their responses; a call that gets to the model
does so with these in front of its own messages, by contents at that moment; and if
no agent and no hook writes to a message, every message has, at every moment, the
contents it had at the beginning. -/
theorem stored_conversation (hsid : sid ≠ []) (calls : List RunCall) {s : SessionState}
    (hrun : (sessionMachine sid heap₀ stored₀).run (sessionMachine sid heap₀ stored₀).init calls =
      some s) :
    s.turns.map Prod.fst = calls.map (·.messages) ∧
    s.stored = stored₀ ++ s.conversation ∧
    (∀ front c back, calls = front ++ c :: back → ∃ t,
      (sessionMachine sid heap₀ stored₀).run (sessionMachine sid heap₀ stored₀).init front =
        some t ∧
      ∀ entered, (c.turn sid t.heap).entered = some entered →
        contents t.heap entered = contents t.heap (stored₀ ++ t.conversation ++ c.messages)) ∧
    ((∀ c ∈ calls, c.runner.ReadsOnly) → ∀ front back t, calls = front ++ back →
      (sessionMachine sid heap₀ stored₀).run (sessionMachine sid heap₀ stored₀).init front =
        some t → t.heap = heap₀) := by
  refine ⟨turns_of_run hrun, stored_of_run hsid hrun, ?_, ?_⟩
  · rintro front c back rfl
    rw [Machine.run_append, Option.bind_eq_some_iff] at hrun
    obtain ⟨t, hfront, hback⟩ := hrun
    refine ⟨t, hfront, ?_⟩
    intro entered hentered
    rw [Machine.run, Option.bind_eq_some_iff] at hback
    obtain ⟨t', hstep, _⟩ := hback
    obtain ⟨hhonest, _⟩ := step_sessionMachine hstep
    obtain ⟨existing, hget, rfl⟩ := entered_turn hsid hentered
    rw [contents_append, contents_append, RunCall.contents_of_honest hhonest hget,
      stored_of_run hsid hfront]
  · rintro hreads front back t rfl hfront
    exact heap_of_run (fun c hc => hreads c (List.mem_append_left back hc)) hfront

end Runs

/-! ## Two sessions -/

def questionHeap : Heap
  | 0 => { role := lit "user", content := lit "q1" }
  | _ => { role := lit "assistant", content := lit "answer" }

def answering : Runner where
  agent _ := pure (some { messages := [some 1] })

def failing : Runner where
  agent _ := throw (.error (.other (lit "boom")))

/-- A call that fails, and the same call again. -/
def twoAttempts : List RunCall :=
  [{ runner := failing, messages := [some 0], store := { get := .ok [] } },
   { runner := answering, messages := [some 0], store := { get := .ok [] } }]

/-- The session holds the question once. -/
theorem stored_conversation_two_attempts :
    ∃ s, (sessionMachine (lit "sess_1") questionHeap []).run
        (sessionMachine (lit "sess_1") questionHeap []).init twoAttempts = some s ∧
      s.stored = [some 0, some 1] ∧ s.heap = questionHeap := by
  refine ⟨_, rfl, ?_⟩
  have hsid : lit "sess_1" ≠ [] := by decide +kernel
  obtain ⟨_, hstored, _, hheap⟩ :=
    @stored_conversation (lit "sess_1") questionHeap [] hsid twoAttempts _ rfl
  refine ⟨hstored, hheap ?_ _ [] _ (List.append_nil _).symm rfl⟩
  intro c hc
  have hreads : failing.ReadsOnly ∧ answering.ReadsOnly :=
    ⟨⟨fun _ => Act.reads_throw _, fun _ h => absurd h (by simp [failing])⟩,
     ⟨fun _ => Act.reads_pure _, fun _ h => absurd h (by simp [answering])⟩⟩
  rcases List.mem_cons.mp hc with rfl | hc
  · exact hreads.1
  · obtain rfl := List.mem_singleton.mp hc
    exact hreads.2

/-- A hook that rewrites the first message in place. -/
def rewritingInPlace : Middleware (Act Failure Heap) Ptr where
  beforeModel req := do
    modify fun heap => Function.update heap 0 { heap 0 with content := lit "rewritten" }
    return req
  afterModel _ resp := pure resp
  beforeTool call := pure call
  afterTool _ result := pure result

/-- Such a hook changes the request of the caller and what is stored of it. -/
theorem hook_rewrites_stored_message :
    ∃ s, (sessionMachine (lit "sess_1") questionHeap []).run
        (sessionMachine (lit "sess_1") questionHeap []).init
        [{ runner := { answering with mw := some [rewritingInPlace] }, messages := [some 0],
           store := { get := .ok [] } }] = some s ∧
      contents questionHeap [some 0] = [some { role := lit "user", content := lit "q1" }] ∧
      contents s.heap [some 0] = [some { role := lit "user", content := lit "rewritten" }] ∧
      contents s.heap s.stored = [some { role := lit "user", content := lit "rewritten" },
        some { role := lit "assistant", content := lit "answer" }] :=
  ⟨_, rfl, rfl, rfl, rfl⟩

end Adk

end MiniGoAgent
