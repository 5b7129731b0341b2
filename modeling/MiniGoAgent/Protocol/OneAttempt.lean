/-
# `Protocol.OneAttempt` — a call delivers from one attempt only

Once a chunk has been delivered, no further request is sent, and everything
but the closing error comes from the attempt that delivered it.  This holds for
every environment, cancelled contexts and full channels included.

The guard in the source is the flag `emitted`, and it has one gap: the context
warning goes through `sendChunk`, which does not set it.  A warning follows the
send of its usage chunk, so it can only be delivered alone when that send was
refused — and then the context is done, which ends the loop at its next wait.
`Outlet.Settled` is the invariant that says so: a chunk has set the flag or the
context is done.
-/
import MiniGoAgent.Protocol.Failover
import MiniGoAgent.Protocol.Pass

open Go

namespace MiniGoAgent

variable {l t : List Event}

/-! ## Traces -/

def Event.isChunk : Event → Bool
  | .chunk _ _ => true
  | _ => false

def Event.isRequest : Event → Bool
  | .request _ _ => true
  | _ => false

/-- May follow a delivery of the attempt: no request, and no chunk of another
attempt unless it is an error. -/
def Event.Follows (attempt : Nat) : Event → Prop
  | .request _ _ => False
  | .chunk a c => c.type = .error ∨ a = attempt
  | _ => True

def Quiet (t : List Event) : Prop := ∀ e ∈ t, e.isChunk = false

/-- A request, or a report to the breaker: what sending logs. -/
def Event.isSending : Event → Bool
  | .request _ _ | .breakerFailure _ _ | .breakerSuccess _ => true
  | _ => false

/-- Nothing but sending. -/
def Sending (t : List Event) : Prop := ∀ e ∈ t, e.isSending = true

/-- First the requests, then the deliveries of one attempt. -/
def Orderly (t : List Event) : Prop :=
  ∃ (attempt : Nat) (before after : List Event),
    t = before ++ after ∧ Quiet before ∧ ∀ e ∈ after, e.Follows attempt

theorem Quiet.nil : Quiet [] := List.forall_mem_nil _

theorem Quiet.append (ht : Quiet t) (hl : Quiet l) : Quiet (t ++ l) :=
  List.forall_mem_append.mpr ⟨ht, hl⟩

theorem Sending.nil : Sending [] := List.forall_mem_nil _

theorem Sending.append (ht : Sending t) (hl : Sending l) : Sending (t ++ l) :=
  List.forall_mem_append.mpr ⟨ht, hl⟩

theorem Sending.quiet (h : Sending t) : Quiet t := by
  intro e he
  have hs := h e he
  cases e with
  | chunk _ _ => cases hs
  | _ => rfl

theorem Quiet.orderly (h : Quiet t) : Orderly t :=
  ⟨0, t, [], (List.append_nil t).symm, h, List.forall_mem_nil _⟩

theorem Quiet.deliver (h : Quiet t) (attempt : Nat) (l : List Chunk) :
    Orderly (t ++ l.map (.chunk attempt)) := by
  refine ⟨attempt, t, _, rfl, h, ?_⟩
  intro e he
  obtain ⟨c, _, rfl⟩ := List.mem_map.mp he
  exact Or.inr rfl

theorem Orderly.append (h : Orderly t)
    (hl : ∀ e ∈ l, ∀ attempt, e.Follows attempt) : Orderly (t ++ l) := by
  obtain ⟨attempt, before, after, rfl, hbefore, hafter⟩ := h
  exact ⟨attempt, before, after ++ l, List.append_assoc _ _ _, hbefore,
    List.forall_mem_append.mpr ⟨hafter, fun e he => hl e he attempt⟩⟩

/-! ## Sending the request -/

theorem sendOnce_sending (env : Env) (tag : Nat) (vendor : Vendor) (req : HttpRequest)
    (t : HttpTry) (c : Call) :
    (sendOnce env tag vendor req t c).1.tick = c.tick ∧
      ∃ l, (sendOnce env tag vendor req t c).1.trace = c.trace ++ l ∧ Sending l := by
  obtain ⟨e, heq, _⟩ := sendOnce_spec env tag vendor req t c
  rw [heq]
  refine ⟨rfl, _, rfl, ?_⟩
  intro e he
  rcases mem_events he with rfl | ⟨err, rfl⟩ | rfl <;> rfl

theorem sendLoop_rel (env : Env) (tag : Nat) (vendor : Vendor) (req : HttpRequest)
    {R : Call → Call → Prop} (hrefl : ∀ c, R c c) (htrans : ∀ c c' c'', R c c' → R c' c'' → R c c'')
    (hnext : ∀ c, R c c.next) (hpass : ∀ t c, R c (sendOnce env tag vendor req t c).1)
    (left pass : Nat) (c : Call) : R c (sendLoop env tag vendor req left pass c).1 := by
  have hwait : ∀ (pass : Nat) (c c' : Call) (p : Pass),
      sendOnce env tag vendor req (env.tries tag pass) (if 0 < pass then c.next else c) = (c', p) →
        R c c' := by
    intro pass c c' p heq
    have hfront : R c (if 0 < pass then c.next else c) := by
      split
      · exact hnext c
      · exact hrefl c
    have hsend := hpass (env.tries tag pass) (if 0 < pass then c.next else c)
    rw [heq] at hsend
    exact htrans _ _ _ hfront hsend
  fun_induction sendLoop env tag vendor req left pass c with
  | case1 _ _ c => exact hnext c
  | case2 _ pass c _ c' _ heq | case3 pass c _ c' _ heq => exact hwait pass c c' _ heq
  | case4 pass c _ c' _ heq _ ih => exact htrans _ _ _ (hwait pass c c' _ heq) ih

theorem sendLoop_sending (env : Env) (tag : Nat) (vendor : Vendor) (req : HttpRequest)
    (left pass : Nat) (c : Call) :
    c.tick ≤ (sendLoop env tag vendor req left pass c).1.tick ∧
      ∃ l, (sendLoop env tag vendor req left pass c).1.trace = c.trace ++ l ∧ Sending l := by
  refine sendLoop_rel env tag vendor req
    (R := fun c c' => c.tick ≤ c'.tick ∧ ∃ l, c'.trace = c.trace ++ l ∧ Sending l)
    ?_ ?_ ?_ ?_ left pass c
  · intro c
    exact ⟨Nat.le_refl _, [], (List.append_nil _).symm, Sending.nil⟩
  · rintro c c' c'' ⟨htick, l, htrace, hl⟩ ⟨htick', l', htrace', hl'⟩
    refine ⟨le_trans htick htick', l ++ l', ?_, hl.append hl'⟩
    rw [htrace', htrace, List.append_assoc]
  · intro c
    exact ⟨Nat.le_succ _, [], (List.append_nil _).symm, Sending.nil⟩
  · intro t c
    obtain ⟨htick, hl⟩ := sendOnce_sending env tag vendor req t c
    exact ⟨Nat.le_of_eq htick.symm, hl⟩

/-! ## Reading the body -/

/-- A chunk has set `emitted`, or the context is done. -/
def Outlet.Settled (ctx : Ctx) (s : Outlet) : Prop :=
  s.emitted = true ∨ ctx.cancelled s.call.tick = true

/-- From `s` to `s'` chunks of the attempt are delivered, none or with a
settled outlet behind them, and a settled outlet stays one. -/
structure Extends (ctx : Ctx) (attempt : Nat) (s s' : Outlet) : Prop where
  tick : s.call.tick ≤ s'.call.tick
  keeps : s.Settled ctx → s'.Settled ctx
  chunks : ∃ l : List Chunk, s'.call.trace = s.call.trace ++ l.map (.chunk attempt) ∧
    (l = [] ∨ s'.Settled ctx)

namespace Extends

variable {ctx : Ctx} {attempt : Nat} {s s' s'' : Outlet}

theorem refl (s : Outlet) : Extends ctx attempt s s where
  tick := Nat.le_refl _
  keeps := id
  chunks := ⟨[], (List.append_nil _).symm, Or.inl rfl⟩

theorem trans (h : Extends ctx attempt s s') (h' : Extends ctx attempt s' s'') :
    Extends ctx attempt s s'' where
  tick := Nat.le_trans h.tick h'.tick
  keeps := h'.keeps ∘ h.keeps
  chunks := by
    obtain ⟨l, hl, hset⟩ := h.chunks
    obtain ⟨l', hl', hset'⟩ := h'.chunks
    refine ⟨l ++ l', by rw [hl', hl, List.map_append, List.append_assoc], ?_⟩
    rcases hset' with rfl | hset'
    · rcases hset with rfl | hset
      · exact Or.inl rfl
      · exact Or.inr (h'.keeps hset)
    · exact Or.inr hset'

end Extends

section Reading

variable (ctx : Ctx) (attempt : Nat)

theorem cancelled_of_refuses {ctx : Ctx} {tick : Nat} (h : ctx.refuses tick = true) :
    ctx.cancelled tick = true := (Bool.and_eq_true_iff.mp h).1

theorem send_settled (c : Chunk) (s : Outlet) : (send ctx attempt c s).1.Settled ctx := by
  unfold send
  split
  next h => exact Or.inr (ctx.mono _ (cancelled_of_refuses h))
  next => exact Or.inl rfl

theorem send_extends (c : Chunk) (s : Outlet) : Extends ctx attempt s (send ctx attempt c s).1 := by
  have hset := send_settled ctx attempt c s
  refine ⟨?_, fun _ => hset, ?_⟩
  · unfold send
    split <;> exact Nat.le_succ _
  · unfold send at hset ⊢
    split at hset
    next h =>
      rw [if_pos h]
      exact ⟨[], (List.append_nil _).symm, Or.inl rfl⟩
    next h =>
      rw [if_neg h]
      exact ⟨[c], rfl, Or.inr hset⟩

theorem sendChunk_tick (c : Chunk) (call : Call) :
    (sendChunk ctx attempt c call).tick = call.tick + 1 := by
  unfold sendChunk
  split <;> rfl

theorem sendChunk_trace (c : Chunk) (call : Call) :
    (sendChunk ctx attempt c call).trace = call.trace ∨
      (sendChunk ctx attempt c call).trace = call.trace ++ [.chunk attempt c] := by
  unfold sendChunk
  split
  · exact Or.inl rfl
  · exact Or.inr rfl

theorem sendChunk_extends (c : Chunk) {s : Outlet} (h : s.Settled ctx) :
    Extends ctx attempt s { s with call := sendChunk ctx attempt c s.call } := by
  have htick := sendChunk_tick ctx attempt c s.call
  have hset : Outlet.Settled ctx { s with call := sendChunk ctx attempt c s.call } := by
    rcases h with h | h
    · exact Or.inl h
    · exact Or.inr (ctx.cancelled_of_le (by rw [htick]; exact Nat.le_succ _) h)
  refine ⟨by rw [htick]; exact Nat.le_succ _, fun _ => hset, ?_⟩
  rcases sendChunk_trace ctx attempt c s.call with htr | htr
  · exact ⟨[], by rw [htr]; exact (List.append_nil _).symm, Or.inl rfl⟩
  · exact ⟨[c], htr, Or.inr hset⟩

/-- The sends start with one that settles the outlet. -/
def FirmFirst : List Send → Prop
  | .offer _ :: _ => False
  | _ => True

theorem exec_extends {sends : List Send} {s : Outlet} (h : FirmFirst sends ∨ s.Settled ctx) :
    Extends ctx attempt s (exec ctx attempt sends s).1 := by
  have hsend := fun c (s : Outlet) => send_extends ctx attempt c s
  have hset := fun c (s : Outlet) => send_settled ctx attempt c s
  fun_induction exec ctx attempt sends s with
  | case1 s => exact .refl s
  | case2 c rest s s' heq ih =>
    have hfirst := hsend c s
    have hsettled := hset c s
    rw [heq] at hfirst hsettled
    exact hfirst.trans (ih (Or.inr hsettled))
  | case3 c rest s s' heq =>
    have hfirst := hsend c s
    rw [heq] at hfirst
    exact hfirst
  | case4 c rest s ih => exact (hsend c s).trans (ih (Or.inr (hset c s)))
  | case5 c rest s ih =>
    have hsettled := h.resolve_left id
    have hoffer := sendChunk_extends ctx attempt c hsettled
    exact hoffer.trans (ih (Or.inr (hoffer.keeps hsettled)))

theorem firmFirst_musts (chunks : List Chunk) : FirmFirst (chunks.map .must) := by
  cases chunks <;> trivial

theorem firmFirst_processRecord (o : OpenAI) (emitted : Bool) (g : Gathered)
    (sr : StreamRecord) : FirmFirst (processRecord o emitted g sr).sends := by
  have husage : ∀ {rest : List Send}, FirmFirst rest →
      FirmFirst (usageSends o sr.usage ++ rest) := by
    intro rest hrest
    cases sr.usage with
    | none => exact hrest
    | some u => trivial
  unfold processRecord
  cases sr.error with
  | some msg => trivial
  | none =>
    cases sr.choices with
    | nil =>
      have := @husage [] trivial
      rwa [List.append_nil] at this
    | cons choice rest =>
      dsimp only
      split
      · rw [List.append_assoc]
        refine husage ?_
        cases (g.delta o.vendor choice.delta).2 ++
          (g.delta o.vendor choice.delta).1.finish <;> trivial
      · exact husage (firmFirst_musts _)

theorem processSSEData_extends (sr : StreamRecord) (s : ReadStreamState) :
    Extends ctx attempt s.outlet (processSSEData ctx attempt sr s).1.outlet := by
  have h := exec_extends ctx attempt (s := s.outlet)
    (Or.inl (firmFirst_processRecord s.o s.outlet.emitted s.gathered sr))
  rw [processSSEData]
  generalize exec ctx attempt _ s.outlet = result at h ⊢
  rcases result with ⟨outlet, _ | _⟩ <;> exact h

theorem readLines_extends (lines : List Str) (s : ReadStreamState) :
    Extends ctx attempt s.outlet (readLines ctx attempt lines s).1.outlet := by
  have hrecord : ∀ {sr s s' v}, processSSEData ctx attempt sr s = (s', v) →
      Extends ctx attempt s.outlet s'.outlet := by
    intro sr s s' v heq
    have h := processSSEData_extends ctx attempt sr s
    rwa [heq] at h
  fun_induction readLines ctx attempt lines s with
  | case1 s => exact .refl _
  | case2 text rest s _ ih => exact ih
  | case3 text rest s _ => exact send_extends ctx attempt doneChunk s.outlet
  | case4 text rest s sr _ s' heq ih => exact (hrecord heq).trans ih
  | case5 text rest s sr _ s' heq | case6 text rest s sr _ s' _ heq => exact hrecord heq

theorem readStream_chunks (body : Body) (o : OpenAI) (c : Call) :
    ∃ l : List Chunk,
      (readStream ctx attempt body o c).2.1.call.trace = c.trace ++ l.map (.chunk attempt) ∧
      (l = [] ∨ (readStream ctx attempt body o c).2.1.Settled ctx ∨
        (readStream ctx attempt body o c).2.2 = some stallErr) := by
  have h := readLines_extends ctx attempt body.lines { o, outlet := { call := c } }
  have hread : ∀ {s : ReadStreamState} {exit : Exit},
      readLines ctx attempt body.lines { o, outlet := { call := c } } = (s, exit) →
      ∃ l : List Chunk, s.outlet.call.trace = c.trace ++ l.map (.chunk attempt) ∧
        (l = [] ∨ s.outlet.Settled ctx) := by
    intro s exit heq
    rw [heq] at h
    exact h.chunks
  fun_cases readStream ctx attempt body o c
  case case4 s exit _ _ heq _ _ =>
    obtain ⟨l, hl, _⟩ := hread heq
    have hend : s.outlet.emitted = true ∨ streamErr s.outlet.emitted stallErr = stallErr := by
      cases s.outlet.emitted with
      | true => exact Or.inl rfl
      | false => exact Or.inr rfl
    rcases sendChunk_trace ctx attempt (errorChunk (some stallErr)) s.outlet.call with htr | htr
    · exact ⟨l, by rw [htr, hl], Or.inr (hend.imp Or.inl (congrArg some))⟩
    · refine ⟨l ++ [errorChunk (some stallErr)], ?_, Or.inr (hend.imp Or.inl (congrArg some))⟩
      rw [htr, hl, List.map_append, List.append_assoc]
      rfl
  case case1 heq | case2 heq | case3 heq _ _ | case5 heq _ _ =>
    obtain ⟨l, hl, hset⟩ := hread heq
    exact ⟨l, hl, hset.imp_right Or.inl⟩

end Reading

/-! ## The loop -/

theorem failsOver_mono (o : OpenAI) {k j : Nat} (hle : k ≤ j) (h : o.failsOver k = true) :
    o.failsOver j = true := by
  simp only [OpenAI.failsOver, Bool.and_eq_true, decide_eq_true_eq] at h ⊢
  omega

/-- The invariant at the head of the loop: nothing delivered, or the context is
done. -/
def LoopInv (ctx : Ctx) (attempt : Nat) (s : StreamCall) : Prop :=
  Quiet s.call.trace ∨
    (0 < attempt ∧ Orderly s.call.trace ∧ ctx.cancelled s.call.tick = true)

theorem LoopInv.orderly {ctx : Ctx} {attempt : Nat} {s : StreamCall}
    (h : LoopInv ctx attempt s) : Orderly s.call.trace := by
  rcases h with h | ⟨_, h, _⟩
  · exact h.orderly
  · exact h

theorem orderly_log {c : Call} (h : Orderly c.trace) {e : Event}
    (he : ∀ attempt, e.Follows attempt) : Orderly (c.log e).trace :=
  h.append (List.forall_mem_singleton.mpr he)

theorem orderly_sendLastErr (ctx : Ctx) (attempt : Nat) {s : StreamCall}
    (h : Orderly s.call.trace) : Orderly (s.sendLastErr ctx attempt).call.trace := by
  show Orderly (sendChunk ctx attempt (errorChunk s.lastErr) s.call).trace
  rcases sendChunk_trace ctx attempt (errorChunk s.lastErr) s.call with htr | htr
  · rw [htr]
    exact h
  · rw [htr]
    exact orderly_log h (fun _ => Or.inl rfl)

/-- What a round owes the loop. -/
def Round.Good (ctx : Ctx) (attempt : Nat) : Round → Prop
  | .again s => LoopInv ctx (attempt + 1) s
  | .finished s => Orderly s.call.trace

theorem isConnReset_stallErr : isConnReset stallErr = false := by decide

theorem afterRead_good (env : Env) (attempt : Nat) (s : StreamCall) (err : Option Err)
    (ht : Orderly s.call.trace)
    (hquiet : Quiet s.call.trace ∨ s.emitted = true ∨ env.ctx.cancelled s.call.tick = true ∨
      err = some stallErr) : (afterRead env attempt s err).Good env.ctx attempt := by
  cases err with
  | none =>
    show Orderly _
    have htel : Orderly (s.recordStreamCall none).call.trace :=
      orderly_log ht (fun _ => trivial)
    have hhook : ∀ s' : StreamCall, Orderly s'.call.trace →
        Orderly (s'.call.logIf (env.registered s'.o.vendor)
          (.breakerSuccess s'.o.vendor)).trace := by
      intro s' hs'
      cases env.registered s'.o.vendor with
      | true => exact orderly_log hs' (fun _ => trivial)
      | false => exact hs'
    cases env.afterHook with
    | none => exact hhook _ htel
    | some hookErr => exact hhook _ (orderly_log htel (fun _ => trivial))
  | some err =>
    unfold afterRead
    dsimp only
    split
    next => exact ht
    next hem =>
      split
      next hreset =>
        rcases hquiet with h | h | h | h
        · exact Or.inl h
        · exact absurd h hem
        · exact Or.inr ⟨Nat.succ_pos _, ht, h⟩
        · rw [Option.some.injEq] at h
          rw [h, isConnReset_stallErr] at hreset
          cases hreset
      next => exact orderly_sendLastErr env.ctx attempt ht

theorem sendRound_good (env : Env) (attempt : Nat) (s : StreamCall)
    (h : Quiet s.call.trace) : (sendRound env attempt s).Good env.ctx attempt := by
  obtain ⟨_, l, htrace, hl⟩ :=
    sendLoop_sending env attempt s.o.vendor s.o.httpRequest maxRetries 0 s.call
  have hquiet := h.append hl.quiet
  rw [← htrace] at hquiet
  unfold sendRound sendWithRetry
  split
  next call err heq =>
    rw [heq] at hquiet
    exact Or.inl hquiet
  next call body heq =>
    rw [heq] at hquiet
    obtain ⟨chunks, hchunks, hset⟩ := readStream_chunks env.ctx attempt body s.o call
    refine afterRead_good env attempt _ _ ?_ ?_
    · show Orderly (readStream env.ctx attempt body s.o call).2.1.call.trace
      rw [hchunks]
      exact hquiet.deliver attempt chunks
    · rcases hset with rfl | hset
      · refine Or.inl ?_
        show Quiet (readStream env.ctx attempt body s.o call).2.1.call.trace
        rw [hchunks]
        exact hquiet.append Quiet.nil
      · exact Or.inr (or_assoc.mp hset)

theorem streamRound_good (env : Env) (attempt : Nat) (s : StreamCall)
    (h : LoopInv env.ctx attempt s) : (streamRound env attempt s).Good env.ctx attempt := by
  have hclosed := orderly_sendLastErr env.ctx attempt h.orderly
  fun_cases streamRound env attempt s
  case case1 => exact hclosed
  case case2 =>
    fun_cases failoverRound env attempt s
    case case3 =>
      exact h.imp_right (fun ⟨_, h, hc⟩ => ⟨Nat.succ_pos _, h, hc⟩)
    all_goals exact hclosed
  case case3 hzero =>
    refine sendRound_good env attempt s (h.resolve_right ?_)
    omega
  case case4 => exact h.orderly
  case case5 hlive => exact sendRound_good env attempt _ (h.resolve_right fun hc => hlive hc.2.2)

theorem streamLoop_rule (env : Env) (n : Nat) {I : Nat → StreamCall → Prop} {Q : StreamCall → Prop}
    (hround : ∀ attempt s, attempt < n → I attempt s →
      match streamRound env attempt s with
      | .again s' => I (attempt + 1) s'
      | .finished s' => Q s') (hused : ∀ attempt s, I attempt s →
      Q ((s.sendLastErr env.ctx attempt).recordStreamCall s.lastErr)) (left attempt : Nat)
    (s : StreamCall) (hn : attempt + left ≤ n) (h : I attempt s) :
    Q (streamLoop env left attempt s) := by
  induction left generalizing attempt s with
  | zero => exact hused attempt s h
  | succ left ih =>
    have hstep := hround attempt s (by omega) h
    rw [streamLoop]
    split
    next s' heq =>
      rw [heq] at hstep
      exact ih (attempt + 1) s' (by omega) hstep
    next s' heq =>
      rw [heq] at hstep
      exact hstep

theorem streamLoop_orderly (env : Env) (left attempt : Nat) (s : StreamCall)
    (h : LoopInv env.ctx attempt s) : Orderly (streamLoop env left attempt s).call.trace := by
  refine streamLoop_rule env (attempt + left) (I := LoopInv env.ctx)
    (Q := fun s => Orderly s.call.trace) ?_ ?_ left attempt s (Nat.le_refl _) h
  · intro attempt s _ hs
    exact streamRound_good env attempt s hs
  · intro attempt s hs
    have hclosed := orderly_sendLastErr env.ctx attempt hs.orderly
    unfold StreamCall.recordStreamCall
    cases s.lastErr with
    | some err => exact hclosed
    | none => exact orderly_log hclosed (fun _ => trivial)

theorem streamWithFailover_orderly (env : Env) (o : OpenAI) :
    Orderly (streamWithFailover env o).call.trace := by
  unfold streamWithFailover
  split
  · have hbase : Orderly ({ tick := 1, trace := [.onErrorHooks env.ctx.err] } : Call).trace :=
      Quiet.orderly (by simp [Quiet, Event.isChunk])
    exact orderly_sendLastErr env.ctx 0
      (s := { o, call := { tick := 1, trace := [.onErrorHooks env.ctx.err] },
              lastErr := some env.ctx.err }) hbase
  · have h := streamLoop_orderly env o.rounds 0
      { o, call := { tick := if env.throttled then 1 else 0 } } (Or.inl Quiet.nil)
    unfold StreamCall.deferred
    split
    · exact orderly_log h (fun _ => trivial)
    · exact h

/-! ## The result -/

/-- Everything but a closing error is delivered by one attempt, and no request
is sent once a chunk has been delivered. -/
theorem streamWithFailover_one_attempt (env : Env) (o : OpenAI) :
    (∃ attempt : Nat, ∀ (k : Nat) (c : Chunk),
      (k, c) ∈ (streamWithFailover env o).call.chunks → c.type ≠ .error → k = attempt) ∧
    (∀ (before after : List Event) (e : Event),
      (streamWithFailover env o).call.trace = before ++ e :: after → e.isChunk = true →
        ∀ e' ∈ after, e'.isRequest = false) := by
  obtain ⟨attempt, pre, post, htrace, hpre, hpost⟩ := streamWithFailover_orderly env o
  refine ⟨⟨attempt, ?_⟩, ?_⟩
  · intro k c hmem hne
    obtain ⟨e, he, hsome⟩ := List.mem_filterMap.mp hmem
    cases e with
    | chunk k' c' =>
      rw [Option.some.injEq, Prod.mk.injEq] at hsome
      obtain ⟨rfl, rfl⟩ := hsome
      rw [htrace] at he
      rcases List.mem_append.mp he with he | he
      · cases hpre _ he
      · exact (hpost _ he).resolve_left hne
    | request | breakerFailure | breakerSuccess | telemetry | onErrorHooks => cases hsome
  · intro before after e hsplit hchunk e' he'
    rw [htrace] at hsplit
    have hin : e' ∈ post := by
      rcases List.append_eq_append_iff.mp hsplit with ⟨mid, _, hmid⟩ | ⟨mid, hmid, hrest⟩
      · rw [hmid]
        exact List.mem_append_right _ (List.mem_cons_of_mem _ he')
      · cases mid with
        | nil =>
          rw [List.nil_append] at hrest
          rw [← hrest]
          exact List.mem_cons_of_mem _ he'
        | cons x mid =>
          rw [List.cons_append, List.cons.injEq] at hrest
          have hmem : e ∈ pre := by
            rw [hmid, ← hrest.1]
            exact List.mem_append_right _ List.mem_cons_self
          exact absurd (hpre e hmem) (by simp [hchunk])
    have hfollows := hpost e' hin
    cases e' with
    | request _ _ => exact hfollows.elim
    | chunk | breakerFailure | breakerSuccess | telemetry | onErrorHooks => rfl

end MiniGoAgent
