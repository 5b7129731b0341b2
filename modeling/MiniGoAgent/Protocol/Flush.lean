/-
# `Protocol.Flush` — what is still held when a body ends

A `finish_reason` delivers the accumulated tool calls and the reasoning the
splitter still holds.  A body that ends with `[DONE]` or with its last line
delivers neither.  `readStream_flushed_iff` is the exact statement.

Only the sends that abort on failure carry text, reasoning or tool calls, so a
body that is read without an error has delivered all of them, cancelled
context or not; `readLines_carried` is that fact.
-/
import MiniGoAgent.Protocol.Fragments

open Go

namespace MiniGoAgent

variable {sr : StreamRecord}

/-! ## What a run without an error has delivered -/

/-- The chunks that carry something of the answer. -/
def Chunk.carries (c : Chunk) : Bool :=
  match c.type with
  | .text | .reasoning | .toolCallStart | .toolCall => true
  | _ => false

/-- What carries is sent by a `must`. -/
def Send.Sound : Send → Prop
  | .must _ => True
  | .may c | .offer c => c.carries = false

/-- From `c` to `c'` chunks of the attempt are delivered; those that carry something
are the first of `l`, and all of them if `done`. -/
def Delivers (attempt : Nat) (done : Prop) (c c' : Call) (l : List Chunk) : Prop :=
  ∃ all : List Chunk, c'.trace = c.trace ++ all.map (.chunk attempt) ∧
    all.filter Chunk.carries <+: l ∧ (done → all.filter Chunk.carries = l)

namespace Delivers

variable {attempt : Nat} {done done' : Prop} {c c' c'' : Call} {l l' : List Chunk}

theorem none (h : c'.trace = c.trace) (hdone : done → [] = l) : Delivers attempt done c c' l :=
  ⟨[], by rw [h]; exact (List.append_nil _).symm, List.nil_prefix, hdone⟩

theorem one {ch : Chunk} (h : c'.trace = c.trace ++ [.chunk attempt ch]) :
    Delivers attempt done c c' ([ch].filter Chunk.carries) :=
  ⟨[ch], h, List.prefix_rfl, fun _ => rfl⟩

theorem mono (h : Delivers attempt done c c' l) (himp : done' → done) :
    Delivers attempt done' c c' l := by
  obtain ⟨all, hall, hpre, hdone⟩ := h
  exact ⟨all, hall, hpre, hdone ∘ himp⟩

theorem trans (h : Delivers attempt done c c' l) (hdone : done)
    (h' : Delivers attempt done' c' c'' l') : Delivers attempt done' c c'' (l ++ l') := by
  obtain ⟨all, hall, _, hfull⟩ := h
  obtain ⟨all', hall', hpre, hfull'⟩ := h'
  refine ⟨all ++ all', by rw [hall', hall, List.map_append, List.append_assoc], ?_, ?_⟩
  · rw [List.filter_append, hfull hdone]
    exact (List.prefix_append_right_inj l).mpr hpre
  · intro hd
    rw [List.filter_append, hfull hdone, hfull' hd]

theorem cut (h : Delivers attempt done c c' l) (hnot : ¬ done') (l' : List Chunk) :
    Delivers attempt done' c c' (l ++ l') := by
  obtain ⟨all, hall, hpre, _⟩ := h
  exact ⟨all, hall, hpre.trans (List.prefix_append l l'), fun hd => absurd hd hnot⟩

end Delivers

section Exec

variable (ctx : Ctx) (attempt : Nat) {c : Chunk}

theorem send_idle (hc : c.carries = false) (s : Outlet) :
    Delivers attempt True s.call (send ctx attempt c s).1.call ([c].filter Chunk.carries) := by
  unfold send
  split
  · exact .none rfl (fun _ => by simp [hc])
  · exact .one rfl

theorem sendChunk_idle (hc : c.carries = false) (call : Call) :
    Delivers attempt True call (sendChunk ctx attempt c call) ([c].filter Chunk.carries) := by
  rcases sendChunk_trace ctx attempt c call with h | h
  · exact .none h (fun _ => by simp [hc])
  · exact .one h

theorem exec_delivers {sends : List Send} (hsound : ∀ x ∈ sends, x.Sound) (s : Outlet) :
    Delivers attempt ((exec ctx attempt sends s).2 = true) s.call
      (exec ctx attempt sends s).1.call ((sends.map Send.chunk).filter Chunk.carries) := by
  have hcons : ∀ (c : Chunk) (rest : List Chunk), (c :: rest).filter Chunk.carries =
      [c].filter Chunk.carries ++ rest.filter Chunk.carries := by
    intro c rest
    rw [← List.filter_append, List.singleton_append]
  fun_induction exec ctx attempt sends s with
  | case1 s => exact .none rfl (fun _ => rfl)
  | case2 c rest s s' heq ih =>
    have hfirst : Delivers attempt True s.call s'.call ([c].filter Chunk.carries) := by
      rw [send] at heq
      split at heq <;> cases heq
      exact .one rfl
    rw [List.map_cons, hcons]
    exact hfirst.trans trivial (ih (List.forall_mem_cons.mp hsound).2)
  | case3 c rest s s' heq =>
    rw [send] at heq
    split at heq <;> cases heq
    exact .none rfl (fun hsent => by cases hsent)
  | case4 c rest s ih =>
    obtain ⟨hc, hrest⟩ := List.forall_mem_cons.mp hsound
    rw [List.map_cons, hcons]
    exact (send_idle ctx attempt hc s).trans trivial (ih hrest)
  | case5 c rest s ih =>
    obtain ⟨hc, hrest⟩ := List.forall_mem_cons.mp hsound
    rw [List.map_cons, hcons]
    exact (sendChunk_idle ctx attempt hc s.call).trans trivial (ih hrest)

theorem exec_unrefused (hctx : ∀ n, ctx.refuses n = false) (sends : List Send) (s : Outlet) :
    (exec ctx attempt sends s).2 = true := by
  induction sends generalizing s with
  | nil => rfl
  | cons x rest ih =>
    cases x with
    | must c =>
      rw [exec, send, if_neg (by simp [hctx])]
      exact ih _
    | may | offer => exact ih _

end Exec

/-! ## What the records carry -/

/-- The chunks of the records that carry something, up to the record that
finishes. -/
def carried (vendor : Vendor) : List StreamRecord → Gathered → List Chunk
  | [], _ => []
  | sr :: rest, g =>
    (g.delta vendor sr.delta).2 ++
      if sr.finishes then (g.delta vendor sr.delta).1.finish
      else carried vendor rest (g.delta vendor sr.delta).1

theorem carried_more (vendor : Vendor) (h : sr.finishes = false) (rest : List StreamRecord)
    (g : Gathered) : carried vendor (sr :: rest) g =
      (g.delta vendor sr.delta).2 ++ carried vendor rest (g.delta vendor sr.delta).1 := by
  rw [carried, h]
  rfl

theorem carried_stop (vendor : Vendor) (h : sr.finishes = true) (g : Gathered) :
    carried vendor [sr] g =
      (g.delta vendor sr.delta).2 ++ (g.delta vendor sr.delta).1.finish := by
  rw [carried, h]
  rfl

theorem mem_ifText {make : Str → Chunk} {text : Str}
    (hc : c ∈ ifText make text) : c = make text := by
  unfold ifText at hc
  split at hc
  · cases hc
  · exact List.mem_singleton.mp hc

theorem carries_fragments (g : Gathered) (frags : List ToolCallDelta) :
    ∀ c ∈ (g.fragments frags).2, c.type = .toolCallStart := by
  induction frags generalizing g with
  | nil => intro c hc; cases hc
  | cons tc rest ih =>
    intro c hc
    rw [Gathered.fragments] at hc
    rcases List.mem_append.mp hc with hc | hc
    · unfold Gathered.fragment at hc
      dsimp only at hc
      split at hc
      · rw [List.mem_singleton] at hc
        subst hc
        rfl
      · cases hc
    · exact ih _ c hc

theorem delta_types (vendor : Vendor) (g : Gathered) (d : Delta) :
    ∀ c ∈ (g.delta vendor d).2,
      c.type = .text ∨ c.type = .reasoning ∨ c.type = .toolCallStart := by
  have hreason : ∀ t, ∀ c ∈ ifText reasoningChunk t,
      c.type = .text ∨ c.type = .reasoning ∨ c.type = .toolCallStart := by
    intro t c hc
    rw [mem_ifText hc]
    exact Or.inr (Or.inl rfl)
  unfold Gathered.delta
  rw [Gathered.content_eq]
  simp only [List.forall_mem_append]
  refine ⟨⟨hreason _, hreason _, ?_⟩, ?_⟩
  · intro c hc
    rw [mem_ifText hc]
    exact Or.inl rfl
  · exact fun c hc => Or.inr (Or.inr (carries_fragments _ _ c hc))

theorem carries_delta (vendor : Vendor) (g : Gathered) (d : Delta) :
    ∀ c ∈ (g.delta vendor d).2, c.carries = true := by
  intro c hc
  unfold Chunk.carries
  rcases delta_types vendor g d c hc with h | h | h <;> rw [h]

theorem carries_finish (g : Gathered) : ∀ c ∈ g.finish, c.carries = true := by
  intro c hc
  rcases List.mem_append.mp hc with hc | hc
  · rw [mem_ifText hc]
    rfl
  · obtain ⟨idx, _, hidx⟩ := List.mem_filterMap.mp hc
    obtain ⟨tc, _, rfl⟩ := Option.map_eq_some_iff.mp hidx
    rfl

theorem mem_usageSends {o : OpenAI} {u : Option Usage} {x : Send} (h : x ∈ usageSends o u) :
    (∃ v, x = .may (usageChunk v)) ∨ ∃ text, x = .offer (warnChunk text) := by
  cases u with
  | none => cases h
  | some v =>
    rcases List.mem_cons.mp h with h | h
    · exact Or.inl ⟨v, h⟩
    · refine Or.inr ?_
      unfold sendContextWarning at h
      dsimp only at h
      split at h
      · cases h
      · split at h
        · exact ⟨_, List.mem_singleton.mp h⟩
        · split at h
          · exact ⟨_, List.mem_singleton.mp h⟩
          · cases h

theorem sound_usageSends (o : OpenAI) (u : Option Usage) : ∀ x ∈ usageSends o u, x.Sound := by
  intro x hx
  rcases mem_usageSends hx with ⟨v, rfl⟩ | ⟨text, rfl⟩ <;> rfl

theorem sound_musts (l : List Chunk) : ∀ x ∈ l.map Send.must, x.Sound := by
  intro x hx
  obtain ⟨c, _, rfl⟩ := List.mem_map.mp hx
  trivial

theorem forall_usageSends {P : Chunk → Prop} (husage : ∀ v, P (usageChunk v))
    (hwarn : ∀ text, P (warnChunk text)) (o : OpenAI) (u : Option Usage) :
    ∀ c ∈ (usageSends o u).map Send.chunk, P c := by
  intro c hc
  obtain ⟨x, hx, rfl⟩ := List.mem_map.mp hc
  rcases mem_usageSends hx with ⟨v, rfl⟩ | ⟨text, rfl⟩
  · exact husage v
  · exact hwarn text

theorem carried_usageSends (o : OpenAI) (u : Option Usage) :
    ((usageSends o u).map Send.chunk).filter Chunk.carries = [] :=
  List.filter_eq_nil_iff.mpr
    (forall_usageSends (fun _ => Bool.false_ne_true) (fun _ => Bool.false_ne_true) o u)

theorem map_chunk_musts (l : List Chunk) : (l.map Send.must).map Send.chunk = l := by
  rw [List.map_map]
  exact List.map_id l

theorem processRecord_carried (o : OpenAI) (emitted : Bool) (g : Gathered) (h : sr.error = none) :
    (∀ x ∈ (processRecord o emitted g sr).sends, x.Sound) ∧
    (((processRecord o emitted g sr).sends.map Send.chunk).filter Chunk.carries =
      (g.delta o.vendor sr.delta).2 ++
        if sr.finishes then (g.delta o.vendor sr.delta).1.finish else []) := by
  rw [processRecord_ok o emitted g h]
  have hd := List.filter_eq_self.mpr (carries_delta o.vendor g sr.delta)
  have hf := List.filter_eq_self.mpr (carries_finish (g.delta o.vendor sr.delta).1)
  dsimp only
  by_cases hfin : sr.finishes = true
  · rw [if_pos hfin, if_pos hfin]
    constructor
    · exact List.forall_mem_append.mpr ⟨sound_usageSends o _, List.forall_mem_append.mpr
        ⟨sound_musts _, List.forall_mem_singleton.mpr rfl⟩⟩
    · rw [List.map_append, List.filter_append, carried_usageSends, List.nil_append,
        List.map_append, List.filter_append, map_chunk_musts, List.filter_append, hd, hf]
      exact List.append_nil _
  · rw [if_neg hfin, if_neg hfin]
    constructor
    · exact List.forall_mem_append.mpr ⟨sound_usageSends o _, sound_musts _⟩
    · rw [List.map_append, List.filter_append, carried_usageSends, List.nil_append,
        map_chunk_musts, hd, List.append_nil]

/-! ## The loop -/

section Loop

variable (ctx : Ctx) (attempt : Nat)

theorem processSSEData_error {msg : Str} (h : sr.error = some msg)
    (s : ReadStreamState) : ∃ err, (processSSEData ctx attempt sr s).2 = .failed err := by
  rw [processSSEData, processRecord_error _ _ _ h]
  dsimp only
  split <;> exact ⟨_, rfl⟩

theorem processSSEData_delivers (herr : sr.error = none) (s : ReadStreamState) :
    ∃ (o : OpenAI) (outlet : Outlet) (ok : Bool),
      processSSEData ctx attempt sr s =
        (⟨o, (s.gathered.delta s.o.vendor sr.delta).1, outlet⟩,
          if ok then (if sr.finishes then .stop else .more) else .failed ctx.err) ∧
      o.vendor = s.o.vendor ∧
      Delivers attempt (ok = true) s.outlet.call outlet.call
        ((s.gathered.delta s.o.vendor sr.delta).2 ++
          if sr.finishes then (s.gathered.delta s.o.vendor sr.delta).1.finish else []) ∧
      ((∀ n, ctx.refuses n = false) → ok = true) := by
  obtain ⟨hsound, hcar⟩ := processRecord_carried s.o s.outlet.emitted s.gathered herr
  have hdelivers := exec_delivers ctx attempt hsound s.outlet
  have hun := fun hctx => exec_unrefused ctx attempt hctx
    (processRecord s.o s.outlet.emitted s.gathered sr).sends s.outlet
  rw [hcar] at hdelivers
  rcases hex : exec ctx attempt
    (processRecord s.o s.outlet.emitted s.gathered sr).sends s.outlet with ⟨outlet, ok⟩
  rw [hex] at hdelivers hun
  simp only [processSSEData, hex]
  rw [processRecord_ok s.o s.outlet.emitted s.gathered herr]
  refine ⟨_, outlet, ok, by cases ok <;> rfl, ?_, hdelivers, hun⟩
  cases sr.recordedUsage <;> rfl

theorem readLines_carried (lines : List Str) (s : ReadStreamState)
    (h : ∀ err, (readLines ctx attempt lines s).2 ≠ .failed err) :
    (readLines ctx attempt lines s).2 = ending lines ∧
    Delivers attempt True s.outlet.call (readLines ctx attempt lines s).1.outlet.call
      (carried s.o.vendor (processed lines) s.gathered) := by
  induction lines generalizing s with
  | nil => exact ⟨rfl, .none rfl (fun _ => rfl)⟩
  | cons text rest ih =>
    rw [readLines] at h ⊢
    rw [ending, processed]
    cases hline : parseLine text with
    | skip =>
      rw [hline] at h
      exact ih s h
    | done => exact ⟨rfl, send_idle ctx attempt rfl s.outlet⟩
    | record sr =>
      rw [hline] at h
      dsimp only at h ⊢
      cases herr : sr.error with
      | some msg =>
        obtain ⟨err, he⟩ := processSSEData_error ctx attempt herr s
        rw [← Prod.eta (processSSEData ctx attempt sr s), he] at h
        exact absurd rfl (h err)
      | none =>
        obtain ⟨o, outlet, ok, hstep, hvendor, hdelivers, -⟩ :=
          processSSEData_delivers ctx attempt herr s
        rw [hstep] at h ⊢
        cases ok with
        | false => exact absurd rfl (h _)
        | true =>
          cases hfin : sr.finishes with
          | true =>
            rw [hfin, if_pos rfl, ← carried_stop _ hfin] at hdelivers
            exact ⟨rfl, hdelivers.mono (fun _ => rfl)⟩
          | false =>
            rw [hfin, if_neg Bool.false_ne_true, List.append_nil] at hdelivers
            rw [hfin] at h
            obtain ⟨hexit, hrest⟩ := ih _ h
            have hall := hdelivers.trans rfl hrest
            rw [hvendor, ← carried_more _ hfin] at hall
            exact ⟨hexit, hall⟩

end Loop

/-! ## All that is held -/

def reasoningText (l : List Chunk) : Str :=
  (l.filter (fun c => c.type = .reasoning)).flatMap (·.text)

/-- All the reasoning in the deltas, what the splitter still holds included. -/
def thoughts (vendor : Vendor) : List Delta → ThinkSplitter → Str
  | [], think => think.buf
  | d :: rest, think =>
    d.reasoningDelta ++ (Gathered.splitContent vendor think d.content).2.thought ++
      thoughts vendor rest (Gathered.splitContent vendor think d.content).1

/-- Everything accumulated from the records is among the delivered chunks: each
call with all its arguments, and all the reasoning. -/
structure Flushed (vendor : Vendor) (records : List StreamRecord) (delivered : List Chunk) :
    Prop where
  calls : ∀ (idx : Int) (tc : ToolCall), (gather vendor records {}).acc idx = some tc →
    toolCallChunk (Gathered.named idx tc) ∈ delivered
  reasoning : reasoningText delivered = thoughts vendor (deltas records) {}

theorem reasoningText_append (l l' : List Chunk) :
    reasoningText (l ++ l') = reasoningText l ++ reasoningText l' := by
  rw [reasoningText, List.filter_append, List.flatMap_append]
  rfl

theorem reasoningText_carries (l : List Chunk) :
    reasoningText (l.filter Chunk.carries) = reasoningText l := by
  unfold reasoningText
  rw [List.filter_filter]
  congr 1
  refine List.filter_congr ?_
  intro c _
  by_cases h : c.type = .reasoning
  · simp [Chunk.carries, h]
  · simp [h]

theorem reasoningText_ifText (text : Str) : reasoningText (ifText reasoningChunk text) = text := by
  unfold ifText
  split
  next h => rw [h]; rfl
  next => simp [reasoningText, reasoningChunk]

theorem reasoningText_of_ne {l : List Chunk} (h : ∀ c ∈ l, c.type ≠ .reasoning) :
    reasoningText l = [] := by
  unfold reasoningText
  rw [List.filter_eq_nil_iff.mpr]
  · rfl
  · intro c hc
    simpa using h c hc

theorem reasoningText_textChunk (text : Str) : reasoningText (ifText textChunk text) = [] := by
  refine reasoningText_of_ne ?_
  intro c hc
  rw [mem_ifText hc]
  simp [textChunk]

theorem reasoningText_delta (vendor : Vendor) (g : Gathered) (d : Delta) :
    reasoningText (g.delta vendor d).2 =
      d.reasoningDelta ++ (Gathered.splitContent vendor g.think d.content).2.thought := by
  unfold Gathered.delta
  rw [Gathered.content_eq]
  dsimp only
  have hcalls : ∀ g' : Gathered, reasoningText (g'.fragments d.toolCalls).2 = [] := by
    intro g'
    refine reasoningText_of_ne ?_
    intro c hc
    rw [carries_fragments g' d.toolCalls c hc]
    simp
  rw [reasoningText_append, reasoningText_append, reasoningText_append, hcalls,
    reasoningText_ifText, reasoningText_ifText, reasoningText_textChunk, List.append_nil,
    List.append_nil]

theorem think_delta (vendor : Vendor) (g : Gathered) (d : Delta) :
    (g.delta vendor d).1.think = (Gathered.splitContent vendor g.think d.content).1 := by
  have hfrags : ∀ (g' : Gathered) (l : List ToolCallDelta),
      (g'.fragments l).1.think = g'.think := by
    intro g' l
    induction l generalizing g' with
    | nil => rfl
    | cons tc l ih =>
      rw [Gathered.fragments]
      dsimp only
      rw [ih]
      unfold Gathered.fragment
      dsimp only
      split <;> rfl
  unfold Gathered.delta
  rw [Gathered.content_eq]
  dsimp only
  rw [hfrags]

theorem reasoningText_finish (g : Gathered) : reasoningText g.finish = g.think.buf := by
  unfold Gathered.finish
  rw [reasoningText_append, reasoningText_ifText, reasoningText_of_ne]
  · exact List.append_nil _
  · intro c hc
    obtain ⟨idx, _, hidx⟩ := List.mem_filterMap.mp hc
    obtain ⟨tc, _, rfl⟩ := Option.map_eq_some_iff.mp hidx
    simp [toolCallChunk]

/-! ## Records that do not fail -/

section Records

variable (vendor : Vendor) {records : List StreamRecord} {exit : Exit}

theorem deltas_cons (h : sr.error = none) (rest : List StreamRecord) :
    deltas (sr :: rest) = sr.delta :: deltas rest := by
  simp [deltas, h]

theorem gather_cons (h : sr.error = none) (rest : List StreamRecord) (g : Gathered) :
    gather vendor (sr :: rest) g = gather vendor rest (g.delta vendor sr.delta).1 := by
  rw [gather, h]
  rfl

theorem reasoningText_carried (h : Reads records exit) (hfailed : ∀ err, exit ≠ .failed err)
    (g : Gathered) :
    reasoningText (carried vendor records g) ++
        (if exit = .stop then [] else (gather vendor records g).think.buf) =
      thoughts vendor (deltas records) g.think := by
  induction h generalizing g with
  | eof | done => rfl
  | failed _ => exact absurd rfl (hfailed _)
  | @stop sr herr hfin =>
    rw [carried_stop vendor hfin, reasoningText_append, reasoningText_delta,
      reasoningText_finish, think_delta, deltas_cons herr, thoughts, if_pos rfl,
      List.append_nil]
    rfl
  | @more sr rest exit herr hfin _ ih =>
    have hih := ih hfailed (g.delta vendor sr.delta).1
    rw [think_delta] at hih
    rw [deltas_cons herr, thoughts, ← hih, carried_more vendor hfin, gather_cons vendor herr,
      reasoningText_append, reasoningText_delta, List.append_assoc]

theorem carried_of_stop (h : Reads records exit) (hstop : exit = .stop) (g : Gathered) :
    ∃ before, carried vendor records g = before ++ (gather vendor records g).finish := by
  induction h generalizing g with
  | eof | done | failed => cases hstop
  | @stop sr herr hfin =>
    refine ⟨(g.delta vendor sr.delta).2, ?_⟩
    rw [carried_stop vendor hfin, gather_cons vendor herr]
    rfl
  | @more sr rest exit herr hfin _ ih =>
    obtain ⟨before, hbefore⟩ := ih hstop (g.delta vendor sr.delta).1
    refine ⟨(g.delta vendor sr.delta).2 ++ before, ?_⟩
    rw [carried_more vendor hfin, gather_cons vendor herr, hbefore, List.append_assoc]

theorem carried_of_not_stop (h : Reads records exit) (hstop : exit ≠ .stop)
    (hfailed : ∀ err, exit ≠ .failed err) (g : Gathered) :
    ∀ c ∈ carried vendor records g, c.type ≠ .toolCall := by
  induction h generalizing g with
  | eof | done => intro c hc; cases hc
  | failed _ => exact absurd rfl (hfailed _)
  | stop _ _ => exact absurd rfl hstop
  | @more sr rest exit _ hfin _ ih =>
    intro c hc
    rw [carried_more vendor hfin] at hc
    rcases List.mem_append.mp hc with hc | hc
    · rcases delta_types vendor g sr.delta c hc with h | h | h <;> simp [h]
    · exact ih hstop hfailed _ c hc

end Records

/-! ## The result -/

/-- The chunks one body puts on the channel, read from some point of the
context's schedule on. -/
def bodyChunks (ctx : Ctx) (attempt : Nat) (body : Body) (o : OpenAI) (tick : Nat) :
    List Chunk :=
  (readStream ctx attempt body o { tick }).2.1.call.chunks.map Prod.snd

theorem chunks_of_trace (attempt : Nat) {c : Call} {l : List Chunk}
    (h : c.trace = l.map (.chunk attempt)) : c.chunks.map Prod.snd = l := by
  unfold Call.chunks
  rw [h, List.filterMap_map, List.map_filterMap]
  exact List.filterMap_some

theorem bodyChunks_carried (ctx : Ctx) (attempt : Nat) (body : Body) (o : OpenAI) (tick : Nat)
    (h : (readStream ctx attempt body o { tick }).2.2 = none) :
    (∀ err, ending body.lines ≠ .failed err) ∧
    (bodyChunks ctx attempt body o tick).filter Chunk.carries =
      carried o.vendor (processed body.lines) {} := by
  have hloop : (∀ err, (readLines ctx attempt body.lines
        { o, outlet := { call := { tick } } }).2 ≠ .failed err) ∧
      (readStream ctx attempt body o { tick }).2.1.call.trace =
        (readLines ctx attempt body.lines
          { o, outlet := { call := { tick } } }).1.outlet.call.trace := by
    revert h
    fun_cases readStream ctx attempt body o { tick }
    case case2 s heq =>
      rw [heq]
      exact fun _ => ⟨fun err hfailed => (by cases hfailed), rfl⟩
    case case5 s exit hfailed _ heq _ _ =>
      rw [heq]
      exact fun _ => ⟨hfailed, rfl⟩
    all_goals
      intro h
      cases h
  obtain ⟨hnot, htrace⟩ := hloop
  obtain ⟨hexit, l, hl, -, hcar⟩ := readLines_carried ctx attempt body.lines
    { o, outlet := { call := { tick } } } hnot
  refine ⟨fun err => hexit ▸ hnot err, ?_⟩
  have hchunks : bodyChunks ctx attempt body o tick = l := by
    refine chunks_of_trace attempt ?_
    rw [htrace, hl]
    rfl
  rw [hchunks, hcar trivial]

/-- A body read without an error delivers all that was accumulated from it if
and only if it ends by a `finish_reason`, or no tool-call fragment came and the
splitter holds nothing. -/
theorem readStream_flushed_iff (ctx : Ctx) (attempt : Nat) (body : Body) (o : OpenAI)
    (tick : Nat) (h : (readStream ctx attempt body o { tick }).2.2 = none) :
    Flushed o.vendor (processed body.lines) (bodyChunks ctx attempt body o tick) ↔
      ending body.lines = .stop ∨
        (fragmentsOf (processed body.lines) = [] ∧
          (thinkAfter o.vendor {} (deltas (processed body.lines))).buf = []) := by
  obtain ⟨hfailed, hcar⟩ := bodyChunks_carried ctx attempt body o tick h
  have hreason := reasoningText_carried o.vendor (reads body.lines) hfailed {}
  rw [← hcar, reasoningText_carries] at hreason
  have hgather := gather_eq o.vendor (processed body.lines)
  have hmem : ∀ c : Chunk, c.carries = true →
      (c ∈ bodyChunks ctx attempt body o tick ↔
        c ∈ carried o.vendor (processed body.lines) {}) := by
    intro c hc
    rw [← hcar, List.mem_filter]
    exact ⟨fun hm => ⟨hm, hc⟩, fun hm => hm.1⟩
  constructor
  · intro hflushed
    by_cases hstop : ending body.lines = .stop
    · exact Or.inl hstop
    · refine Or.inr ⟨?_, ?_⟩
      · -- an accumulated call would have been delivered
        by_contra hne
        obtain ⟨tc, rest, hfrags⟩ := List.exists_cons_of_ne_nil hne
        have hidx : tc.index ∈ indices (fragmentsOf (processed body.lines)) := by
          rw [hfrags]
          exact mem_indices.mpr ⟨tc, List.mem_cons_self, rfl⟩
        have hacc : (gather o.vendor (processed body.lines) {}).acc tc.index =
            some (callOf (fragmentsOf (processed body.lines)) tc.index) := by
          rw [hgather]
          exact if_pos hidx
        have hin := (hmem _ rfl).mp (hflushed.calls tc.index _ hacc)
        exact carried_of_not_stop o.vendor (reads body.lines) hstop hfailed {} _ hin rfl
      · rw [if_neg hstop, hflushed.reasoning, hgather] at hreason
        exact List.append_right_eq_self.mp hreason
  · rintro (hstop | ⟨hfrags, hbuf⟩)
    · refine ⟨?_, ?_⟩
      · intro idx tc hacc
        obtain ⟨before, hbefore⟩ := carried_of_stop o.vendor (reads body.lines) hstop {}
        refine (hmem _ rfl).mpr ?_
        rw [hbefore]
        refine List.mem_append_right _ (List.mem_append_right _ ?_)
        have hidx : idx ∈ (gather o.vendor (processed body.lines) {}).order := by
          rw [hgather] at hacc ⊢
          exact (Gathered.isSome_acc_ofFragments _ _ idx).mp (by rw [hacc]; rfl)
        exact List.mem_filterMap.mpr ⟨idx, hidx, by rw [hacc]; rfl⟩
      · rw [if_pos hstop, List.append_nil] at hreason
        exact hreason
    · refine ⟨?_, ?_⟩
      · intro idx tc hacc
        rw [hgather, hfrags] at hacc
        cases hacc
      · have hempty : (gather o.vendor (processed body.lines) {}).think.buf = [] := by
          rw [hgather]
          exact hbuf
        rw [hempty, ite_self, List.append_nil] at hreason
        exact hreason

/-- A delta with a whole tool call: index 0, ID `a`, function `f`. -/
def toolCallLine : Str :=
  lit "data: \x7b\"choices\":[\x7b\"delta\":\x7b\"tool_calls\":[\x7b\"index\":0," ++
    lit "\"id\":\"a\",\"function\":\x7b\"name\":\"f\",\"arguments\":\"[1]\"\x7d\x7d]\x7d\x7d]\x7d"

def finishLine : Str :=
  lit "data: \x7b\"choices\":[\x7b\"delta\":\x7b\x7d,\"finish_reason\":\"stop\"\x7d]\x7d"

def doneLine : Str := lit "data: [DONE]"

/-- With a `finish_reason` the call is delivered. -/
theorem readStream_flushed_iff_finish :
    (readStream .background 0 { lines := [toolCallLine, finishLine] } {} { tick := 0 }).2.2 = none ∧
    (Flushed .unspecified (processed [toolCallLine, finishLine])
        (bodyChunks .background 0 { lines := [toolCallLine, finishLine] } {} 0) ↔
      ending [toolCallLine, finishLine] = .stop ∨
        (fragmentsOf (processed [toolCallLine, finishLine]) = [] ∧
          (thinkAfter .unspecified {} (deltas (processed [toolCallLine, finishLine]))).buf = [])) :=
  ⟨by decide +kernel,
    readStream_flushed_iff .background 0 { lines := [toolCallLine, finishLine] } {} 0
      (by decide +kernel)⟩

/-- A body that ends with `[DONE]` is read without an error and keeps the call
to itself: it is announced, and its arguments never follow. -/
theorem done_keeps_call :
    (readStream .background 0 { lines := [toolCallLine, doneLine] } {} { tick := 0 }).2.2 = none ∧
    ¬ Flushed .unspecified (processed [toolCallLine, doneLine])
      (bodyChunks .background 0 { lines := [toolCallLine, doneLine] } {} 0) := by
  refine ⟨by decide +kernel, ?_⟩
  intro h
  have hacc : (gather .unspecified (processed [toolCallLine, doneLine]) {}).acc 0 =
      some { id := lit "a", name := lit "f", arguments := lit "[1]" } := by decide +kernel
  have hmem := h.calls 0 _ hacc
  revert hmem
  decide +kernel

end MiniGoAgent
