/-
# `Protocol.SharedUsage` — one `lastUsage` for all streams

Streams on one `OpenAI` value run side by side, and the usage each of them is to
be recorded with waits in the one field `lastUsage`: a record with a usage
overwrites it, `recordStreamCall` takes and clears it, and the other returns of
`streamWithFailover` leave it.

`usageMachine` interleaves these moves; each of them is one critical section of
`usageMu`.  No stream looks at the field for anything else, so what a stream
does next does not depend on the others.  `streamWithFailover_moves` ties the
machine to the code: a call is a start, the receipt of the usages of the records it
processes, and one return.

What the field is for is `Attributed`: a stream is recorded with the last usage
it received itself.
-/
import MiniGoAgent.Go.Machine
import MiniGoAgent.Protocol.Endpoint
import MiniGoAgent.Protocol.Accounting

open Go

namespace MiniGoAgent

/-! ## The machine -/

/-- How a call of `streamWithFailover` returns. -/
inductive Ending where
  /-- `recordStreamCall` without an error -/
  | finish
  /-- `recordStreamCall` with one: the attempts are used up -/
  | exhaust
  /-- every other return -/
  | abort
  deriving DecidableEq, Repr

/-- What a return does to the field, and what it records. -/
def Ending.effect : Ending → Option Usage → Option Usage × List (Option Usage)
  | .finish, cell => (none, [cell])
  | .exhaust, _ => (none, [])
  | .abort, cell => (cell, [])

inductive UsageMove where
  /-- `Stream` is called -/
  | start
  /-- a record with a usage is processed -/
  | receive (u : Usage)
  | leave (e : Ending)
  deriving DecidableEq, Repr

/-- An entry of the telemetry, with the last usage the stream has received. -/
structure Recorded where
  stream : Nat
  usage : Option Usage
  own : Option Usage
  deriving DecidableEq, Repr

structure UsageWorld where
  lastUsage : Option Usage := none
  /-- the usages a stream that is under way has received -/
  received : Nat → Option (List Usage) := fun _ => none
  recorded : List Recorded := []

/-- The moves of the streams, each under the number of its stream. -/
def usageMachine : Machine UsageWorld (Nat × UsageMove) where
  init := {}
  step w
    | (i, .start) =>
      match w.received i with
      | none => some { w with received := Function.update w.received i (some []) }
      | some _ => none
    | (i, .receive u) =>
      (w.received i).map (fun us =>
        { w with
          lastUsage := some u
          received := Function.update w.received i (some (us ++ [u])) })
    | (i, .leave e) =>
      (w.received i).map (fun us =>
        { lastUsage := (e.effect w.lastUsage).1
          received := Function.update w.received i none
          recorded := w.recorded ++
            (e.effect w.lastUsage).2.map (fun u => ⟨i, u, us.getLast?⟩) })

/-- Every stream is recorded with its own last usage. -/
def Attributed (w : UsageWorld) : Prop := ∀ r ∈ w.recorded, r.usage = r.own

/-! ## Runs that keep the usages apart -/

/-- No stream but `i` has received a usage and is still under way. -/
def OnlyHolder (w : UsageWorld) (i : Nat) : Prop :=
  ∀ j, j ≠ i → ∀ us, w.received j = some us → us = []

/-- The field is touched only when no other stream has a usage in it, and a
stream that has one does not return without recording. -/
def Undisturbed (w : UsageWorld) : Nat × UsageMove → Prop
  | (_, .start) => True
  | (i, .receive _) | (i, .leave .finish) | (i, .leave .exhaust) => OnlyHolder w i
  | (i, .leave .abort) => ∀ us, w.received i = some us → us = []

/-- The field holds the last usage of the stream under way that has received
one, and nothing if there is none. -/
structure CellInv (w : UsageWorld) : Prop where
  attributed : Attributed w
  held : ∀ i us, w.received i = some us → us ≠ [] → w.lastUsage = us.getLast?
  free : (∀ i us, w.received i = some us → us = []) → w.lastUsage = none

variable {us : List Usage} {i : Nat} {w : UsageWorld}

theorem CellInv.cell_of_onlyHolder (h : CellInv w)
    (hi : w.received i = some us) (honly : OnlyHolder w i) : w.lastUsage = us.getLast? := by
  by_cases hus : us = []
  · subst hus
    refine h.free ?_
    intro j vs hj
    by_cases hji : j = i
    · rw [hji, hi, Option.some.injEq] at hj
      exact hj.symm
    · exact honly j hji vs hj
  · exact h.held i us hi hus

theorem received_of_left {received : Nat → Option (List Usage)} {j : Nat}
    (h : Function.update received i none j = some us) : j ≠ i ∧ received j = some us := by
  rcases update_eq_some h with ⟨_, h⟩ | h
  · cases h
  · exact h

theorem received_of_update {received : Nat → Option (List Usage)} {j : Nat}
    {vs : List Usage} (h : Function.update received i (some vs) j = some us) :
    (j = i ∧ us = vs) ∨ (j ≠ i ∧ received j = some us) := by
  rcases update_eq_some h with ⟨hji, h⟩ | h
  · exact Or.inl ⟨hji, (Option.some.inj h).symm⟩
  · exact Or.inr h

theorem CellInv.start (h : CellInv w) (hidle : w.received i = none) :
    CellInv { w with received := Function.update w.received i (some []) } := by
  refine ⟨h.attributed, ?_, ?_⟩
  · intro j us hj hne
    rcases received_of_update hj with ⟨_, rfl⟩ | ⟨_, hj⟩
    · exact absurd rfl hne
    · exact h.held j us hj hne
  · intro hall
    refine h.free ?_
    intro j us hj
    have hji : j ≠ i := by
      rintro rfl
      rw [hidle] at hj
      cases hj
    exact hall j us (by rw [← hj]; exact Function.update_of_ne hji _ _)

theorem CellInv.receive (h : CellInv w) (us : List Usage) (u : Usage) (honly : OnlyHolder w i) :
    CellInv { w with
      lastUsage := some u
      received := Function.update w.received i (some (us ++ [u])) } := by
  refine ⟨h.attributed, ?_, ?_⟩
  · intro j vs hj hne
    rcases received_of_update hj with ⟨_, rfl⟩ | ⟨hji, hj⟩
    · exact List.getLast?_concat.symm
    · exact absurd (honly j hji vs hj) hne
  · intro hall
    have := hall i (us ++ [u]) (Function.update_self ..)
    exact absurd this (by simp)

theorem CellInv.cleared (honly : OnlyHolder w i)
    {recorded : List Recorded} (hrec : ∀ r ∈ recorded, r.usage = r.own) :
    CellInv { lastUsage := none, received := Function.update w.received i none, recorded } := by
  refine ⟨hrec, ?_, fun _ => rfl⟩
  intro j us hj hne
  obtain ⟨hji, hj⟩ := received_of_left hj
  exact absurd (honly j hji us hj) hne

theorem CellInv.leave (h : CellInv w)
    (hi : w.received i = some us) {e : Ending} (hok : Undisturbed w (i, .leave e)) :
    CellInv {
      lastUsage := (e.effect w.lastUsage).1
      received := Function.update w.received i none
      recorded := w.recorded ++ (e.effect w.lastUsage).2.map (fun u => ⟨i, u, us.getLast?⟩) } := by
  cases e with
  | finish =>
    refine CellInv.cleared hok ?_
    intro r hr
    rcases List.mem_append.mp hr with hr | hr
    · exact h.attributed r hr
    · obtain ⟨u, hu, rfl⟩ := List.mem_map.mp hr
      rw [List.mem_singleton.mp hu]
      exact h.cell_of_onlyHolder hi hok
  | exhaust =>
    refine CellInv.cleared hok ?_
    intro r hr
    rcases List.mem_append.mp hr with hr | hr
    · exact h.attributed r hr
    · cases hr
  | abort =>
    refine ⟨?_, ?_, ?_⟩
    · intro r hr
      rcases List.mem_append.mp hr with hr | hr
      · exact h.attributed r hr
      · cases hr
    · intro j vs hj hne
      exact h.held j vs (received_of_left hj).2 hne
    · intro hall
      refine h.free ?_
      intro j vs hj
      by_cases hji : j = i
      · subst hji
        exact hok vs hj
      · exact hall j vs (by rw [← hj]; exact Function.update_of_ne hji _ _)

theorem cellInv_step (w : UsageWorld) (m : Nat × UsageMove) (w' : UsageWorld) (h : CellInv w)
    (hok : Undisturbed w m) (hstep : usageMachine.step w m = some w') : CellInv w' := by
  obtain ⟨i, m⟩ := m
  cases m with
  | start =>
    cases hi : w.received i with
    | some us =>
      simp only [usageMachine, hi] at hstep
      cases hstep
    | none =>
      simp only [usageMachine, hi, Option.some.injEq] at hstep
      subst hstep
      exact h.start hi
  | receive u =>
    obtain ⟨us, _, rfl⟩ := Option.map_eq_some_iff.mp hstep
    exact h.receive us u hok
  | leave e =>
    obtain ⟨us, hi, rfl⟩ := Option.map_eq_some_iff.mp hstep
    exact h.leave hi hok

/-- In every run whose moves are all undisturbed, every stream is recorded with
the last usage it received itself. -/
theorem attributed_of_undisturbed {moves : List (Nat × UsageMove)} {w : UsageWorld}
    (hok : usageMachine.Along Undisturbed usageMachine.init moves)
    (hrun : usageMachine.run usageMachine.init moves = some w) : Attributed w := by
  have hinit : CellInv usageMachine.init :=
    ⟨fun _ hr => (nomatch hr), fun _ _ hi => absurd hi (by simp [usageMachine]), fun _ => rfl⟩
  exact (usageMachine.run_invariant cellInv_step hinit hok hrun).attributed

/-- Two streams side by side, of which the first alone receives a usage. -/
theorem attributed_of_undisturbed_two :
    ∃ w, usageMachine.run usageMachine.init
        [(0, .start), (1, .start), (0, .receive {}), (0, .leave .finish), (1, .leave .finish)] =
          some w ∧ w.recorded.length = 2 ∧ Attributed w := by
  have hstarted : ∀ (j : Nat) (us : List Usage),
      Function.update (Function.update usageMachine.init.received 0 (some [])) 1 (some []) j =
        some us → us = [] := by
    intro j us h
    rcases received_of_update h with ⟨_, rfl⟩ | ⟨_, h⟩
    · rfl
    · rcases received_of_update h with ⟨_, rfl⟩ | ⟨_, h⟩
      · rfl
      · cases h
  have hok : usageMachine.Along Undisturbed usageMachine.init
      [(0, .start), (1, .start), (0, .receive {}), (0, .leave .finish), (1, .leave .finish)] := by
    refine ⟨trivial, ?_⟩
    rintro _ ⟨⟩
    refine ⟨trivial, ?_⟩
    rintro _ ⟨⟩
    refine ⟨fun j _ us h => hstarted j us h, ?_⟩
    rintro _ ⟨⟩
    refine ⟨?_, ?_⟩
    · intro j hj us h
      rcases received_of_update h with ⟨hji, _⟩ | ⟨_, h⟩
      · exact absurd hji hj
      · exact hstarted j us h
    rintro _ ⟨⟩
    refine ⟨?_, fun _ _ => trivial⟩
    intro j _ us h
    obtain ⟨hj, h⟩ := received_of_left h
    rcases received_of_update h with ⟨hji, _⟩ | ⟨_, h⟩
    · exact absurd hji hj
    · exact hstarted j us h
  exact ⟨_, rfl, rfl, attributed_of_undisturbed hok rfl⟩

/-! ## Calls as moves -/

/-- The usage recorded, if the event is an entry of the telemetry. -/
def Event.telemetryUsage : Event → Option (Option Usage)
  | .telemetry _ _ u => some u
  | _ => none

def Call.telemetries (c : Call) : List (Option Usage) := c.trace.filterMap Event.telemetryUsage

theorem Grows.telemetries {c c' : Call} (h : Grows (fun e => e.telemetryUsage = none) c c') :
    c'.telemetries = c.telemetries := by
  obtain ⟨l, hl, hnone⟩ := h
  rw [Call.telemetries, hl, List.filterMap_append, List.filterMap_eq_nil_iff.mpr hnone,
    List.append_nil]
  rfl

theorem sendWithRetry_telemetries (env : Env) (attempt : Nat) (o : OpenAI) (c : Call) :
    (sendWithRetry env attempt o c).1.telemetries = c.telemetries := by
  obtain ⟨_, l, hl, hsending⟩ :=
    sendLoop_sending env attempt o.vendor o.httpRequest maxRetries 0 c
  refine Grows.telemetries ⟨l, hl, ?_⟩
  intro e he
  have hs := hsending e he
  cases e with
  | telemetry _ _ _ => cases hs
  | _ => rfl

theorem Event.Aside.telemetryUsage {e : Event} (h : e.Aside) : e.telemetryUsage = none := by
  cases e with
  | telemetry _ _ _ => cases h
  | _ => rfl

/-- The usages of the records that are read behind a send. -/
def sentUsages (env : Env) (attempt : Nat) (s : StreamCall) : List Usage :=
  match sendWithRetry env attempt s.o s.call with
  | (_, .error _) => []
  | (call, .ok body) =>
    readUsages env.ctx attempt body.lines { o := s.o, outlet := { call } }

/-- The usages of the records a call processes. -/
def OpenAI.receives (env : Env) (o : OpenAI) : List Usage :=
  (streamRounds env o).flatMap (fun r => sentUsages env r.1 r.2)

/-- A call under way that has received `us` and recorded nothing. -/
structure Noting (o : OpenAI) (us : List Usage) (s : StreamCall) : Prop where
  cell : s.o.lastUsage = us.getLast?.or o.lastUsage
  unrecorded : s.call.telemetries = []

/-- A call that has returned behind `us`. -/
def Returned (o : OpenAI) (us : List Usage) (s : StreamCall) : Prop :=
  ∃ e : Ending, (s.o.lastUsage, s.call.telemetries) = e.effect (us.getLast?.or o.lastUsage)

section Notes

variable {env : Env} {attempt : Nat} {o : OpenAI} {us : List Usage} {s s' : StreamCall}

theorem Noting.same (h : Noting o us s) (ho : s'.o.lastUsage = s.o.lastUsage)
    (hcall : s'.call.telemetries = s.call.telemetries) : Noting o us s' :=
  ⟨ho.trans h.cell, hcall.trans h.unrecorded⟩

theorem Noting.abort (h : Noting o us s) : Returned o us s :=
  ⟨.abort, by rw [h.cell, h.unrecorded]; rfl⟩

theorem Noting.recordStreamCall (h : Noting o us s) (err : Option Err) :
    Returned o us (s.recordStreamCall err) := by
  cases err with
  | some err =>
    refine ⟨.exhaust, ?_⟩
    show (none, s.call.telemetries) = _
    rw [h.unrecorded]
    rfl
  | none =>
    refine ⟨.finish, ?_⟩
    have htel : (s.recordStreamCall none).call.telemetries =
        s.call.telemetries ++ [s.o.lastUsage] := List.filterMap_append
    rw [htel, h.unrecorded, h.cell]
    rfl

theorem rotateKey_lastUsage (o : OpenAI) : o.rotateKey.1.lastUsage = o.lastUsage := by
  unfold OpenAI.rotateKey
  split <;> rfl

theorem noting_frame (o : OpenAI) (us : List Usage) :
    CallFrame (fun _ => Noting o us) (Returned o us) where
  aside h ho hc := h.same (congrArg _ ho) (hc.mono fun _ => Event.Aside.telemetryUsage).telemetries
  returned := by
    rintro s s' ⟨e, h⟩ ho hc
    exact ⟨e, by rw [ho, (hc.mono fun _ => Event.Aside.telemetryUsage).telemetries, h]⟩
  abort := Noting.abort
  record := Noting.recordStreamCall
  next h := h

theorem Noting.sendRound (h : Noting o us s) : (sendRound env attempt s).Keeps
    (fun _ => Noting o (us ++ sentUsages env attempt s))
    (Returned o (us ++ sentUsages env attempt s)) attempt := by
  have hsent := sendWithRetry_telemetries env attempt s.o s.call
  refine (noting_frame o _).sendRound ?_ ?_
  · intro call err heq
    rw [heq] at hsent
    rw [sentUsages, heq, List.append_nil]
    refine h.same ?_ hsent
    dsimp only
    split
    · exact rotateKey_lastUsage s.o
    · rfl
  · intro call body heq
    rw [heq] at hsent
    have htel := ((readStream_aside env.ctx attempt body s.o call).mono
      (fun _ => Event.Aside.telemetryUsage)).telemetries
    rw [sentUsages, heq]
    refine ⟨?_, htel.trans (hsent.trans h.unrecorded)⟩
    rw [readStream_note, List.getLast?_append, Option.or_assoc, ← h.cell]
    rfl

/-- A round that sends receives the usages of its own records, any other none. -/
theorem Noting.streamRound (h : Noting o us s) : (streamRound env attempt s).Keeps
    (fun _ => Noting o (us ++ (sends env attempt s).toList.flatMap (sentUsages env attempt)))
    (Returned o (us ++ (sends env attempt s).toList.flatMap (sentUsages env attempt)))
    attempt := by
  cases hsends : sends env attempt s with
  | some s' =>
    have hs' : Noting o us s' := by
      revert hsends
      fun_cases sends env attempt s
      all_goals intro hsends; cases hsends
      case case3 => exact h
      case case5 => exact h.same rfl rfl
    rw [streamRound_of_sends hsends, Option.toList_some, List.flatMap_singleton]
    exact hs'.sendRound
  | none =>
    rw [Option.toList_none, List.flatMap_nil, List.append_nil]
    have hlast : Noting o us (s.sendLastErr env.ctx attempt) :=
      (noting_frame o us).sendLastErr (k := attempt) h attempt
    fun_cases MiniGoAgent.streamRound env attempt s
    case case1 => exact hlast.abort
    case case2 =>
      fun_cases failoverRound env attempt s
      case case3 => exact h.same rfl rfl
      all_goals exact hlast.abort
    case case3 hgo hover hfirst =>
      rw [sends, if_neg hgo, if_neg hover, if_pos hfirst] at hsends
      cases hsends
    case case4 => exact Noting.abort (h.same rfl rfl)
    case case5 hgo hover hfirst hlive =>
      rw [sends, if_neg hgo, if_neg hover, if_neg hfirst, if_neg hlive] at hsends
      cases hsends

theorem Noting.streamLoop (left : Nat) (h : Noting o us s) :
    Returned o (us ++ (sendingRounds env left attempt s).flatMap (fun r => sentUsages env r.1 r.2))
      (streamLoop env left attempt s) := by
  induction left generalizing attempt us s with
  | zero =>
    rw [sendingRounds, List.flatMap_nil, List.append_nil]
    exact Noting.recordStreamCall ((noting_frame o us).sendLastErr (k := attempt) h attempt) _
  | succ left ih =>
    have hround : (MiniGoAgent.streamRound env attempt s).Keeps _ _ attempt := h.streamRound
    rw [sendingRounds, MiniGoAgent.streamLoop, List.flatMap_append, List.flatMap_map,
      ← List.append_assoc]
    cases hnext : MiniGoAgent.streamRound env attempt s with
    | again s' =>
      rw [hnext] at hround
      exact ih hround
    | finished s' =>
      rw [hnext] at hround
      rw [List.flatMap_nil, List.append_nil]
      exact hround

theorem streamWithFailover_returned (env : Env) (o : OpenAI) :
    Returned o (o.receives env) (streamWithFailover env o) := by
  have hfirst : ∀ tick, Noting o [] { o, call := { tick } } := fun _ => ⟨rfl, rfl⟩
  unfold OpenAI.receives streamRounds streamWithFailover
  split
  · exact (noting_frame o []).throttled (hfirst 1) _ _
  · exact (noting_frame o _).deferred ((hfirst _).streamLoop o.rounds)

end Notes

def callMoves (i : Nat) (us : List Usage) (e : Ending) : List (Nat × UsageMove) :=
  (i, .start) :: (us.map (fun u => (i, .receive u)) ++ [(i, .leave e)])

theorem run_receives (i : Nat) (us : List Usage) {vs : List Usage} (hi : w.received i = some vs) :
    usageMachine.run w (us.map (fun u => (i, .receive u))) =
      some { w with
        lastUsage := us.getLast?.or w.lastUsage
        received := Function.update w.received i (some (vs ++ us)) } := by
  induction us generalizing w vs with
  | nil =>
    have hsame : Function.update w.received i (some (vs ++ [])) = w.received := by
      rw [List.append_nil, ← hi, Function.update_eq_self]
    rw [hsame]
    rfl
  | cons u rest ih =>
    have hstep : usageMachine.step w (i, .receive u) = some { w with
        lastUsage := some u
        received := Function.update w.received i (some (vs ++ [u])) } := by
      simp only [usageMachine, hi, Option.map_some]
    have hheld : Function.update w.received i (some (vs ++ [u])) i = some (vs ++ [u]) :=
      Function.update_self ..
    rw [List.map_cons, usageMachine.run_cons hstep, ih hheld]
    simp only [Function.update_idem, List.append_assoc, List.singleton_append]
    cases rest with
    | nil => rfl
    | cons v rest => simp [List.getLast?_eq_some_getLast]

theorem run_callMoves (us : List Usage) (e : Ending) (hidle : w.received i = none) :
    usageMachine.run w (callMoves i us e) = some {
      lastUsage := (e.effect (us.getLast?.or w.lastUsage)).1
      received := w.received
      recorded := w.recorded ++
        (e.effect (us.getLast?.or w.lastUsage)).2.map (fun u => ⟨i, u, us.getLast?⟩) } := by
  have hstart : usageMachine.step w (i, .start) =
      some { w with received := Function.update w.received i (some []) } := by
    simp only [usageMachine, hidle]
  have hback : Function.update w.received i none = w.received := by
    rw [← hidle, Function.update_eq_self]
  rw [callMoves, usageMachine.run_cons hstart, usageMachine.run_append,
    run_receives i us (Function.update_self ..)]
  simp only [Option.bind_some, Machine.run, usageMachine, Function.update_self,
    Function.update_idem, Option.map_some, List.nil_append, hback]

/-- **A stream is a run of the machine.**  From any state in which its number is free, a
start, the usages of the records it processes and one return record what
`streamWithFailover` records and leave what it leaves. -/
theorem streamWithFailover_moves (env : Env) (o : OpenAI)
    (hidle : w.received i = none) (hcell : w.lastUsage = o.lastUsage) :
    ∃ e, usageMachine.run w (callMoves i (o.receives env) e) = some {
      lastUsage := (streamWithFailover env o).o.lastUsage
      received := w.received
      recorded := w.recorded ++ (streamWithFailover env o).call.telemetries.map
        (fun u => ⟨i, u, (o.receives env).getLast?⟩) } := by
  obtain ⟨e, hret⟩ := streamWithFailover_returned env o
  exact ⟨e, by rw [run_callMoves _ e hidle, hcell, ← hret]⟩

theorem streamWithFailover_moves_usage :
    ∃ e w, usageMachine.run {} (callMoves 0 [lineUsage] e) = some w ∧
      w.recorded = [⟨0, some lineUsage, some lineUsage⟩] := by
  obtain ⟨e, hrun⟩ := streamWithFailover_moves (w := {}) (i := 0)
    (answering { lines := [usageLine, finishLine] }) {} rfl rfl
  have hus : OpenAI.receives (answering { lines := [usageLine, finishLine] }) {} = [lineUsage] := by
    decide +kernel
  rw [hus] at hrun
  exact ⟨e, _, hrun, by decide +kernel⟩

/-! ## A usage left behind -/

/-- A stream whose connection is reset behind its usage records nothing; the next
one, which receives no usage, is recorded with it. -/
theorem usage_left_to_next_stream :
    (streamWithFailover (answering { lines := [usageLine], err := some .connReset })
      {}).call.telemetries = [] ∧
    (streamWithFailover (answering { lines := [textLine, finishLine] })
      (streamWithFailover (answering { lines := [usageLine], err := some .connReset })
        {}).o).call.telemetries =
      [some lineUsage] ∧
    (processed [textLine, finishLine]).filterMap StreamRecord.recordedUsage = [] ∧
    ∃ w, usageMachine.run usageMachine.init
        (callMoves 0 [lineUsage] .abort ++ callMoves 1 [] .finish) = some w ∧ ¬ Attributed w := by
  refine ⟨by decide +kernel, by decide +kernel, by decide +kernel, ?_⟩
  rw [usageMachine.run_append, run_callMoves _ _ rfl, Option.bind_some, run_callMoves _ _ rfl]
  refine ⟨_, rfl, ?_⟩
  intro hall
  have := hall ⟨1, some lineUsage, none⟩ (by simp [Ending.effect])
  cases this

end MiniGoAgent
