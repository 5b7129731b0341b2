/-
# `Protocol.Terminal` — how the channel of a call ends

A consumer waits for one `ChunkDone` or `ChunkError`, as the last chunk.  The
source sends terminal chunks from several places, each of which guesses from
`emitted`, the error and `IsConnReset` whether another one has sent it.
`streamWithFailover_terminal_iff` says when the guesses add up: exactly when
the body that decides the call ends well.
-/
import MiniGoAgent.Protocol.LiveCall

open Go

namespace MiniGoAgent

variable {body : Body} {o : OpenAI}

/-! ## How a body ends -/

inductive BodyEnd where
  | done
  | finish
  | eof
  | readError
  | apiError
  | stall
  deriving DecidableEq, Repr

namespace Body

def bodyEnd (body : Body) : BodyEnd :=
  match ending body.lines with
  | .stop => .finish
  | .failed _ => .apiError
  | .done => .done
  | .eof => if body.err.isSome then .readError else if body.stalled then .stall else .eof

/-- A read error, an API error or a stall. -/
def breaks (body : Body) : Bool :=
  body.bodyEnd = .readError || body.bodyEnd = .apiError || body.bodyEnd = .stall

/-- The bodies whose terminal chunk the source gets right. -/
def endsWell (vendor : Vendor) (body : Body) : Bool :=
  match body.bodyEnd with
  | .finish | .apiError => true
  | .done => body.err.isSome || !body.stalled
  | .readError => silent vendor (processed body.lines) {}
  | .eof | .stall => false

end Body

/-! ## The property -/

/-- The chunks end with their only terminal chunk; it is an error if an attempt
that delivered broke, and behind other chunks the error says that the stream
was interrupted. -/
def EndsProperly (l : List Chunk) (broke : Prop) : Prop :=
  ∃ (before : List Chunk) (last : Chunk), l = before ++ [last] ∧ Open before ∧
    last.isTerminal = true ∧ (broke → last.type = .error) ∧
    (last.type = .error → before ≠ [] →
      ∃ err, last.error = some err ∧ err.asStreamInterrupted = true)

/-- An attempt that delivered a chunk was answered with a body that broke. -/
def Broke (env : Env) (o : OpenAI) (chunks : List (Nat × Chunk)) : Prop :=
  ∃ (attempt : Nat) (c : Chunk) (body : Body),
    (attempt, c) ∈ chunks ∧ outcome env o.vendor attempt = .ok body ∧ body.breaks = true

section Ends

variable {l : List Chunk} {broke : Prop}

theorem not_endsProperly_of_open (h : Open l) : ¬ EndsProperly l broke := by
  rintro ⟨before, last, rfl, _, hterm, _⟩
  have := h last (List.mem_append_right _ List.mem_cons_self)
  rw [this] at hterm
  cases hterm

theorem not_endsProperly_of_mem {c last : Chunk} (hc : c ∈ l) (hterm : c.isTerminal = true) :
    ¬ EndsProperly (l ++ [last]) broke := by
  rintro ⟨before, last', heq, hopen, _⟩
  obtain ⟨rfl, _⟩ := List.append_inj' heq rfl
  rw [hopen c hc] at hterm
  cases hterm

theorem not_endsProperly_of_plain (hne : l ≠ []) {err : Err}
    (hplain : err.asStreamInterrupted = false) :
    ¬ EndsProperly (l ++ [errorChunk (some err)]) broke := by
  rintro ⟨before, last, heq, _, _, _, hint⟩
  obtain ⟨rfl, hlast⟩ := List.append_inj' heq rfl
  rw [List.cons.injEq] at hlast
  obtain ⟨e, he, hi⟩ := hint (by rw [← hlast.1]; rfl) hne
  rw [← hlast.1] at he
  change some err = some e at he
  rw [Option.some.injEq] at he
  rw [← he, hplain] at hi
  cases hi

theorem endsProperly_done (h : Open l) (hb : ¬ broke) : EndsProperly (l ++ [doneChunk]) broke :=
  ⟨l, doneChunk, rfl, h, rfl, fun b => absurd b hb, fun ht => absurd ht (by simp [doneChunk])⟩

theorem endsProperly_error (h : Open l) (err : Err) :
    EndsProperly (l ++ [errorChunk (some (streamErr (!l.isEmpty) err))]) broke := by
  refine ⟨l, _, rfl, h, rfl, fun _ => rfl, ?_⟩
  intro _ hne
  refine ⟨_, rfl, ?_⟩
  cases l with
  | nil => exact absurd rfl hne
  | cons c l => rfl

end Ends

/-! ## Bodies that decide a call -/

theorem asStreamInterrupted_stallErr : stallErr.asStreamInterrupted = false := by decide

theorem chunks_of_eof (o : OpenAI) (h : ending body.lines = .eof) : Open (body.chunks o) := by
  obtain ⟨before, hopen, hends⟩ := said_shape o (reads body.lines) {} false
  rw [h] at hends
  change said o (processed body.lines) {} false = before at hends
  rw [Body.chunks, scan_chunks, h, hends]
  exact hopen.append Open.nil

theorem chunks_of_closed (o : OpenAI) (h : ending body.lines = .stop ∨ ending body.lines = .done) :
    ∃ before, Open before ∧ body.chunks o = before ++ [doneChunk] := by
  obtain ⟨before, hopen, hends⟩ := said_shape o (reads body.lines) {} false
  refine ⟨before, hopen, ?_⟩
  rcases h with h | h
  · rw [h] at hends
    change said o (processed body.lines) {} false = before ++ [doneChunk] at hends
    rw [Body.chunks, scan_chunks, h, hends]
    exact List.append_nil _
  · rw [h] at hends
    change said o (processed body.lines) {} false = before at hends
    rw [Body.chunks, scan_chunks, h, hends]
    rfl

theorem not_breaks_of_closed
    (h : ending body.lines = .stop ∨ ending body.lines = .done) : ¬ body.breaks = true := by
  rcases h with h | h <;> simp [Body.breaks, Body.bodyEnd, h]

theorem chunks_of_failed (o : OpenAI) {err : Err} (h : ending body.lines = .failed err) :
    ∃ before, Open before ∧ ∃ err,
      body.chunks o = before ++ [errorChunk (some (streamErr (!before.isEmpty) err))] := by
  obtain ⟨before, hopen, hends⟩ := said_shape o (reads body.lines) {} false
  rw [h] at hends
  obtain ⟨e, he⟩ := hends
  refine ⟨before, hopen, e, ?_⟩
  rw [Body.chunks, scan_chunks, h, he]
  exact List.append_nil _

theorem delivered_of_chunks (o : OpenAI) (h : body.chunks o ≠ []) :
    body.delivered o = body.chunks o ++ body.stallChunks := by
  rw [Body.delivered]
  cases body.error false with
  | none => exact List.append_nil _
  | some err =>
    dsimp only
    rw [if_neg h]
    exact List.append_nil _

theorem chunks_ne_nil (o : OpenAI) (h : ending body.lines ≠ .eof) : body.chunks o ≠ [] :=
  fun hnil => h ((chunks_eq_nil_iff o body).mp hnil).1

section Deciding

variable (o : OpenAI) {body : Body} {broke : Prop}

theorem delivered_of_eof (hend : ending body.lines = .eof) :
    EndsProperly (body.delivered o) broke ↔
      body.err.isSome = true ∧ silent o.vendor (processed body.lines) {} = true := by
  have hopen := chunks_of_eof o hend
  have hsilent : body.chunks o = [] ↔ silent o.vendor (processed body.lines) {} = true := by
    rw [chunks_eq_nil_iff]
    exact and_iff_right hend
  rw [← hsilent]
  cases herr : body.err with
  | some err =>
    have hstall : body.stallChunks = [] := by
      rw [Body.stallChunks, Body.stalls, herr]
      simp
    by_cases hnil : body.chunks o = []
    · refine iff_of_true ?_ ⟨rfl, hnil⟩
      have hdel : body.delivered o =
          [] ++ [errorChunk (some (streamErr false (.wrap (lit "scanner error: ") err)))] := by
        rw [Body.delivered, hnil, hstall, Body.error, hend, herr]
        rfl
      rw [hdel]
      exact endsProperly_error Open.nil _
    · refine iff_of_false ?_ (fun h => hnil h.2)
      rw [delivered_of_chunks o hnil, hstall, List.append_nil]
      exact not_endsProperly_of_open hopen
  | none =>
    refine iff_of_false ?_ (fun h => by cases h.1)
    cases hst : body.stalled with
    | false =>
      have hdel : body.delivered o = body.chunks o := by
        rw [Body.delivered, Body.stallChunks, Body.stalls, Body.error, hend, herr, hst]
        simp
      rw [hdel]
      exact not_endsProperly_of_open hopen
    | true =>
      have hstall : body.stallChunks = [errorChunk (some stallErr)] := by
        rw [Body.stallChunks, Body.stalls, hend, herr, hst]
        rfl
      by_cases hnil : body.chunks o = []
      · -- `readStream` and the loop both report the stall
        have hdel : body.delivered o =
            [errorChunk (some stallErr)] ++ [errorChunk (some stallErr)] := by
          rw [Body.delivered, hnil, hstall, Body.error, hend, herr, hst]
          rfl
        rw [hdel]
        exact not_endsProperly_of_mem List.mem_cons_self rfl
      · rw [delivered_of_chunks o hnil, hstall]
        exact not_endsProperly_of_plain hnil asStreamInterrupted_stallErr

theorem delivered_endsProperly_iff (hbroke : broke → body.breaks = true) :
    EndsProperly (body.delivered o) broke ↔ body.endsWell o.vendor = true := by
  cases hend : ending body.lines with
  | eof =>
    rw [delivered_of_eof o hend, Body.endsWell, Body.bodyEnd, hend]
    cases body.err with
    | some err => simp
    | none => cases body.stalled <;> simp
  | stop =>
    have hwell : body.endsWell o.vendor = true := by
      rw [Body.endsWell, Body.bodyEnd, hend]
    have hwhole : ¬ broke := fun hb => not_breaks_of_closed (Or.inl hend) (hbroke hb)
    have hstall : body.stallChunks = [] := by
      rw [Body.stallChunks, Body.stalls, hend]
      rfl
    obtain ⟨before, hopen, hchunks⟩ := chunks_of_closed o (Or.inl hend)
    refine iff_of_true ?_ hwell
    rw [delivered_of_chunks o (chunks_ne_nil o (by rw [hend]; simp)), hstall, List.append_nil,
      hchunks]
    exact endsProperly_done hopen hwhole
  | failed err =>
    have hwell : body.endsWell o.vendor = true := by
      rw [Body.endsWell, Body.bodyEnd, hend]
    have hstall : body.stallChunks = [] := by
      rw [Body.stallChunks, Body.stalls, hend]
      rfl
    obtain ⟨before, hopen, e, hchunks⟩ := chunks_of_failed o hend
    refine iff_of_true ?_ hwell
    rw [delivered_of_chunks o (chunks_ne_nil o (by rw [hend]; simp)), hstall, List.append_nil,
      hchunks]
    exact endsProperly_error hopen e
  | done =>
    have hwhole : ¬ broke := fun hb => not_breaks_of_closed (Or.inr hend) (hbroke hb)
    obtain ⟨before, hopen, hchunks⟩ := chunks_of_closed o (Or.inr hend)
    rw [delivered_of_chunks o (chunks_ne_nil o (by rw [hend]; simp)), Body.endsWell,
      Body.bodyEnd, hend, Body.stallChunks, Body.stalls, hend, hchunks]
    by_cases hstall : body.err.isNone = true ∧ body.stalled = true
    · refine iff_of_false ?_ ?_
      · rw [hstall.1, hstall.2]
        exact not_endsProperly_of_mem (List.mem_append_right _ List.mem_cons_self) rfl
      · rw [hstall.2, Option.isNone_iff_eq_none.mp hstall.1]
        simp
    · refine iff_of_true ?_ ?_
      · rw [if_neg (by simpa using hstall), List.append_nil]
        exact endsProperly_done hopen hwhole
      · cases herr : body.err with
        | some err => rfl
        | none =>
          cases hst : body.stalled with
          | false => rfl
          | true => exact absurd ⟨by rw [herr]; rfl, hst⟩ hstall

end Deciding

/-! ## The channel of a call -/

/-- The chunks in a trace. -/
def deliveries (t : List Event) : List (Nat × Chunk) := Call.chunks { trace := t }

theorem deliveries_append (t l : List Event) : deliveries (t ++ l) = deliveries t ++ deliveries l :=
  List.filterMap_append ..

theorem deliveries_chunks (attempt : Nat) (l : List Chunk) :
    deliveries (l.map (.chunk attempt)) = l.map (Prod.mk attempt) := by
  rw [deliveries, Call.chunks, List.filterMap_map]
  exact congrFun List.filterMap_eq_map' l

theorem Quiet.deliveries_eq {t : List Event} (h : Quiet t) : deliveries t = [] := by
  rw [deliveries, Call.chunks, List.filterMap_eq_nil_iff]
  intro e he
  have hq := h e he
  cases e with
  | chunk _ _ => cases hq
  | _ => rfl

theorem chunks_of_undecided {c : Call} (h : CallTrace o none c.trace) :
    ∃ (tag : Nat) (err : Option Err), c.chunks = [(tag, errorChunk err)] := by
  obtain ⟨before, after, tag, err, htrace, hbefore, hafter⟩ := h
  refine ⟨tag, err, ?_⟩
  show deliveries c.trace = _
  rw [htrace, deliveries_append, hbefore.quiet.deliveries_eq, List.nil_append]
  exact congrArg (List.cons _) hafter.deliveries_eq

theorem chunks_of_decided {attempt : Nat} {c : Call}
    (h : CallTrace o (some (attempt, body)) c.trace) :
    c.chunks = (body.delivered o).map (Prod.mk attempt) := by
  obtain ⟨before, after, htrace, hbefore, hafter⟩ := h
  have hclosing : Quiet after := by
    intro e he
    have hc := hafter e he
    cases e with
    | chunk _ _ => cases hc
    | _ => rfl
  have hrecord : Quiet (body.record o) := by
    intro e he
    rw [Body.record] at he
    split at he
    · rw [List.mem_singleton] at he
      subst he
      rfl
    · cases he
  show deliveries c.trace = _
  rw [htrace, deliveries_append, deliveries_append, deliveries_append, deliveries_chunks,
    hbefore.quiet.deliveries_eq, hrecord.deliveries_eq, hclosing.deliveries_eq, List.nil_append,
    List.append_nil, List.append_nil]

theorem fate_some {env : Env} {left from_ attempt : Nat}
    (h : fate env o left from_ = some (attempt, body)) :
    outcome env o.vendor attempt = .ok body := by
  induction left generalizing from_ with
  | zero => cases h
  | succ left ih =>
    rw [fate] at h
    split at h
    · cases h
    · cases hout : outcome env o.vendor from_ with
      | error err =>
        rw [hout] at h
        exact ih h
      | ok b =>
        rw [hout] at h
        dsimp only at h
        split at h
        · exact ih h
        · rw [Option.some.injEq, Prod.mk.injEq] at h
          rw [← h.1, ← h.2, hout]

/-- In a live context the channel of a call ends as its consumer expects if and
only if the body that decides it ends well. -/
theorem streamWithFailover_terminal_iff {env : Env} (hlive : env.ctx.Live) (o : OpenAI) :
    EndsProperly ((streamWithFailover env o).call.chunks.map Prod.snd)
        (Broke env o (streamWithFailover env o).call.chunks) ↔
      ∀ attempt body, settling env o = some (attempt, body) → body.endsWell o.vendor = true := by
  have htrace := streamWithFailover_live hlive o
  cases hset : settling env o with
  | none =>
    rw [hset] at htrace
    obtain ⟨tag, err, hchunks⟩ := chunks_of_undecided htrace
    refine iff_of_true ?_ (fun _ _ h => nomatch h)
    rw [hchunks]
    exact ⟨[], errorChunk err, rfl, Open.nil, rfl, fun _ => rfl, fun _ h => absurd rfl h⟩
  | some decided =>
    obtain ⟨attempt, body⟩ := decided
    rw [hset] at htrace
    have hchunks := chunks_of_decided htrace
    have hbroke : Broke env o (streamWithFailover env o).call.chunks → body.breaks = true := by
      rintro ⟨k, c, b, hmem, hout, hb⟩
      rw [hchunks] at hmem
      obtain ⟨_, _, heq⟩ := List.mem_map.mp hmem
      rw [Prod.mk.injEq] at heq
      rw [← heq.1, fate_some hset, Except.ok.injEq] at hout
      rwa [hout]
    have hmap : (streamWithFailover env o).call.chunks.map Prod.snd = body.delivered o := by
      rw [hchunks, List.map_map]
      exact List.map_id _
    rw [hmap, delivered_endsProperly_iff o hbroke]
    constructor
    · rintro hwell k b heq
      rw [Option.some.injEq, Prod.mk.injEq] at heq
      rwa [← heq.2]
    · intro hall
      exact hall attempt body rfl

/-- A delta with text. -/
def textLine : Str :=
  lit "data: \x7b\"choices\":[\x7b\"delta\":\x7b\"content\":\"hi\"\x7d\x7d]\x7d"

/-- Every attempt is answered with the body. -/
def answering (body : Body) : Env where
  ctx := .background
  tries := fun _ _ => { outcome := .response 200 [] body }

def finishedBody : Body := { lines := [textLine, finishLine] }

theorem streamWithFailover_terminal_iff_finish :
    (answering finishedBody).ctx.Live ∧
    (EndsProperly ((streamWithFailover (answering finishedBody) {}).call.chunks.map Prod.snd)
        (Broke (answering finishedBody) {}
          (streamWithFailover (answering finishedBody) {}).call.chunks) ↔
      ∀ attempt body, settling (answering finishedBody) {} = some (attempt, body) →
        body.endsWell .unspecified = true) :=
  ⟨Ctx.background_live, streamWithFailover_terminal_iff Ctx.background_live {}⟩

def resetBody : Body := { lines := [textLine], err := some .connReset }

/-- A connection that is reset behind a text: the text is all that is delivered. -/
theorem reset_leaves_channel_open :
    (streamWithFailover (answering resetBody) {}).call.chunks = [(0, textChunk (lit "hi"))] ∧
      ¬ EndsProperly ((streamWithFailover (answering resetBody) {}).call.chunks.map Prod.snd)
        (Broke (answering resetBody) {}
          (streamWithFailover (answering resetBody) {}).call.chunks) := by
  have hchunks : (streamWithFailover (answering resetBody) {}).call.chunks =
      [(0, textChunk (lit "hi"))] := by decide +kernel
  refine ⟨hchunks, ?_⟩
  rw [hchunks]
  refine not_endsProperly_of_open ?_
  intro c hc
  rw [List.mem_map] at hc
  obtain ⟨p, hp, rfl⟩ := hc
  rw [List.mem_singleton] at hp
  subst hp
  rfl

end MiniGoAgent
