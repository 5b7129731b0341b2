/-
# `Protocol.Assembled` — the tool calls of a stream, from the fragments of each index

The fragments of several calls arrive in any interleaving and over any number of
records.  What is delivered with the `finish_reason` depends on two things only: the
fragments of each index in their order, and the order in which the indices first
appear.

A context that is cancelled can cut the delivery short; then a prefix of the calls has
been delivered, and `processSSEData` returns an error.
-/
import MiniGoAgent.Protocol.Flush

open Go

namespace MiniGoAgent

variable (frags : List ToolCallDelta)

variable {exit : Exit} {records : List StreamRecord}

/-! ## The fold of the fragments of one index -/

def fragmentsAt (frags : List ToolCallDelta) (idx : Int) : List ToolCallDelta :=
  frags.filter (fun tc => tc.index = idx)

def lastNonEmpty (texts : List Str) : Option Str :=
  (texts.filter (fun t => t ≠ [])).getLast?

/-- The call that the fragments of an index add up to. -/
def assembled (idx : Int) (frags : List ToolCallDelta) : ToolCall where
  id := (lastNonEmpty (frags.map (·.id))).getD (lit "call_" ++ itoa idx)
  name := (lastNonEmpty (frags.map (·.name))).getD []
  arguments := frags.flatMap (·.arguments)

def assembledCalls (frags : List ToolCallDelta) : List ToolCall :=
  (indices frags).map (fun idx => assembled idx (fragmentsAt frags idx))

theorem lastNonEmpty_snoc (texts : List Str) (t : Str) :
    lastNonEmpty (texts ++ [t]) = if t ≠ [] then some t else lastNonEmpty texts := by
  unfold lastNonEmpty
  rw [List.filter_append]
  split
  next h => simp [h]
  next h => simp [h]

theorem lastNonEmpty_ne_nil {texts : List Str} {t : Str} (h : lastNonEmpty texts = some t) :
    t ≠ [] := by
  have hmem := List.mem_of_getLast? h
  simpa using (List.mem_filter.mp hmem).2

theorem foldl_extend :
    frags.foldl ToolCall.extend {} =
      { id := (lastNonEmpty (frags.map (·.id))).getD []
        name := (lastNonEmpty (frags.map (·.name))).getD []
        arguments := frags.flatMap (·.arguments) } := by
  induction frags using List.reverseRecOn with
  | nil => rfl
  | append_singleton frags tc ih =>
    rw [List.foldl_append, ih, List.map_append, List.map_append, List.map_singleton,
      List.map_singleton, lastNonEmpty_snoc, lastNonEmpty_snoc, List.flatMap_append,
      List.flatMap_singleton]
    show ToolCall.extend _ tc = _
    unfold ToolCall.extend
    congr 1 <;> split <;> rfl

def finalCall (frags : List ToolCallDelta) (idx : Int) : ToolCall :=
  Gathered.named idx (callOf frags idx)

/-- The completed calls, in the order of first appearance. -/
def finals (frags : List ToolCallDelta) : List ToolCall := (indices frags).map (finalCall frags)

theorem filterMap_order (think : ThinkSplitter) :
    (Gathered.ofFragments frags think).order.filterMap (fun idx =>
      ((Gathered.ofFragments frags think).acc idx).map
        (fun tc => toolCallChunk (Gathered.named idx tc))) =
      (finals frags).map toolCallChunk := by
  rw [finals, List.map_map]
  show (indices frags).filterMap _ = _
  rw [← List.filterMap_eq_map]
  refine List.filterMap_congr ?_
  intro idx hidx
  show (if idx ∈ indices frags then some (callOf frags idx) else none).map _ = _
  rw [if_pos hidx]
  rfl

theorem finalCall_eq (idx : Int) : finalCall frags idx = assembled idx (fragmentsAt frags idx) := by
  rw [finalCall, callOf, foldl_extend]
  show Gathered.named idx _ = assembled idx (frags.filter (fun tc => tc.index = idx))
  unfold Gathered.named assembled
  cases hid : lastNonEmpty ((frags.filter (fun tc => tc.index = idx)).map (·.id)) with
  | none => rfl
  | some t => exact if_neg (lastNonEmpty_ne_nil hid)

theorem finals_eq : finals frags = assembledCalls frags :=
  List.map_congr_left (fun idx _ => finalCall_eq frags idx)

theorem assembledCalls_congr {frags frags' : List ToolCallDelta}
    (horder : indices frags = indices frags')
    (hsame : ∀ idx, fragmentsAt frags idx = fragmentsAt frags' idx) :
    assembledCalls frags = assembledCalls frags' := by
  rw [assembledCalls, assembledCalls, horder]
  refine List.map_congr_left ?_
  intro idx _
  rw [hsame idx]

/-! ## A run over records -/

/-- The loop of `readStream` over records: `processSSEData` until it stops or fails. -/
def processAll (ctx : Ctx) (attempt : Nat) :
    List StreamRecord → ReadStreamState → ReadStreamState × Verdict
  | [], s => (s, .more)
  | sr :: rest, s =>
    match processSSEData ctx attempt sr s with
    | (s, .more) => processAll ctx attempt rest s
    | (s, .stop) => (s, .stop)
    | (s, .failed err) => (s, .failed err)

def Chunk.completed (c : Chunk) : Option ToolCall :=
  if c.type = .toolCall then c.toolCall else none

def Event.completed : Event → Option ToolCall
  | .chunk _ c => c.completed
  | _ => none

def toolCallsIn (trace : List Event) : List ToolCall := trace.filterMap Event.completed

section Run

variable (ctx : Ctx) (attempt : Nat)

theorem processAll_carried (h : Reads records exit) (hstop : exit = .stop) (s : ReadStreamState) :
    Delivers attempt ((processAll ctx attempt records s).2 = .stop) s.outlet.call
      (processAll ctx attempt records s).1.outlet.call
      (carried s.o.vendor records s.gathered) ∧
    ((∀ n, ctx.refuses n = false) → (processAll ctx attempt records s).2 = .stop) := by
  induction h generalizing s with
  | eof | done | failed => cases hstop
  | @stop sr herr hfin =>
    obtain ⟨o, outlet, ok, hstep, _, hdelivers, hun⟩ := processSSEData_delivers ctx attempt herr s
    rw [hfin, if_pos rfl, ← carried_stop _ hfin] at hdelivers
    rw [processAll, hstep, hfin]
    cases ok with
    | true => exact ⟨hdelivers.mono (fun _ => rfl), fun _ => rfl⟩
    | false => exact ⟨hdelivers.mono nofun, fun hctx => nomatch hun hctx⟩
  | @more sr rest exit herr hfin _ ih =>
    obtain ⟨o, outlet, ok, hstep, hvendor, hdelivers, hun⟩ :=
      processSSEData_delivers ctx attempt herr s
    rw [hfin, if_neg Bool.false_ne_true, List.append_nil] at hdelivers
    rw [processAll, hstep, hfin, carried_more _ hfin]
    cases ok with
    | true =>
      obtain ⟨hrest, hun'⟩ := ih hstop ⟨o, (s.gathered.delta s.o.vendor sr.delta).1, outlet⟩
      have hall := hdelivers.trans rfl hrest
      rw [hvendor] at hall
      exact ⟨hall, hun'⟩
    | false => exact ⟨hdelivers.cut nofun _, fun hctx => nomatch hun hctx⟩

end Run

/-! ## The calls that are delivered -/

theorem completed_carries {c : Chunk} {tc : ToolCall} (h : c.completed = some tc) :
    c.carries = true := by
  unfold Chunk.completed at h
  split at h
  next htype => simp [Chunk.carries, htype]
  next => cases h

theorem filterMap_completed_carries (l : List Chunk) :
    (l.filter Chunk.carries).filterMap Chunk.completed = l.filterMap Chunk.completed := by
  rw [List.filterMap_filter]
  refine List.filterMap_congr ?_
  intro c _
  cases hc : c.completed with
  | none => simp
  | some tc => simp [completed_carries hc]

theorem filterMap_completed_delta (vendor : Vendor) (g : Gathered) (d : Delta) :
    (g.delta vendor d).2.filterMap Chunk.completed = [] := by
  rw [List.filterMap_eq_nil_iff]
  intro c hc
  unfold Chunk.completed
  rcases delta_types vendor g d c hc with h | h | h <;> simp [h]

theorem filterMap_completed_finish (think : ThinkSplitter) :
    (Gathered.ofFragments frags think).finish.filterMap Chunk.completed = finals frags := by
  have htext : (ifText reasoningChunk
      (Gathered.ofFragments frags think).think.flush.2.thought).filterMap Chunk.completed = [] := by
    unfold ifText
    split <;> rfl
  have hcalls : (fun tc => (toolCallChunk tc).completed) = some := rfl
  rw [Gathered.finish, filterMap_order, List.filterMap_append, htext, List.nil_append,
    List.filterMap_map]
  show (finals frags).filterMap (fun tc => (toolCallChunk tc).completed) = _
  rw [hcalls, List.filterMap_some]

theorem filterMap_completed_carried (vendor : Vendor) (h : Reads records exit)
    (hstop : exit = .stop) (frags : List ToolCallDelta) (think : ThinkSplitter) :
    (carried vendor records (.ofFragments frags think)).filterMap Chunk.completed =
      finals (frags ++ fragmentsOf records) := by
  induction h generalizing frags think with
  | eof | done | failed => cases hstop
  | @stop sr herr hfin =>
    have hfrags : fragmentsOf [sr] = sr.delta.toolCalls := by
      simp [fragmentsOf, deltas, herr]
    rw [carried, if_pos hfin, List.filterMap_append, filterMap_completed_delta,
      Gathered.delta_ofFragments, filterMap_completed_finish, hfrags]
    rfl
  | @more sr rest exit herr hfin _ ih =>
    have hfrags : fragmentsOf (sr :: rest) = sr.delta.toolCalls ++ fragmentsOf rest := by
      simp [fragmentsOf, deltas, herr]
    rw [carried, if_neg (by simp [hfin]), List.filterMap_append, filterMap_completed_delta,
      Gathered.delta_ofFragments, ih hstop, hfrags, List.append_assoc]
    rfl

theorem toolCallsIn_append (trace : List Event) (attempt : Nat) (l : List Chunk) :
    toolCallsIn (trace ++ l.map (.chunk attempt)) =
      toolCallsIn trace ++ l.filterMap Chunk.completed := by
  rw [toolCallsIn, List.filterMap_append, List.filterMap_map]
  rfl

theorem toolCallsIn_processAll (ctx : Ctx) (attempt : Nat)
    (h : Reads records .stop) (o : OpenAI) (outlet : Outlet) :
    ∃ calls, calls <+: assembledCalls (fragmentsOf records) ∧
      toolCallsIn (processAll ctx attempt records ⟨o, {}, outlet⟩).1.outlet.call.trace =
        toolCallsIn outlet.call.trace ++ calls ∧
      ((processAll ctx attempt records ⟨o, {}, outlet⟩).2 = .stop →
        calls = assembledCalls (fragmentsOf records)) := by
  obtain ⟨l, hl, hpre, hall⟩ := (processAll_carried ctx attempt h rfl ⟨o, {}, outlet⟩).1
  have hcalls : (carried o.vendor records {}).filterMap Chunk.completed =
      assembledCalls (fragmentsOf records) := by
    rw [← finals_eq]
    exact filterMap_completed_carried o.vendor h rfl [] {}
  refine ⟨l.filterMap Chunk.completed, ?_, by rw [hl, toolCallsIn_append], ?_⟩
  · rw [← filterMap_completed_carries, ← hcalls]
    exact hpre.filterMap _
  · intro hv
    rw [← filterMap_completed_carries, hall hv]
    exact hcalls

/-- The tool calls of a stream that ends by `finish_reason` are the folds of the fragments
of each index, in the order in which the indices first appear, and nothing else about the
records matters to them. -/
theorem processAll_toolCalls (ctx : Ctx) (attempt : Nat) (o : OpenAI) (outlet : Outlet)
    {records : List StreamRecord} (h : Reads records .stop) :
    (∃ calls, calls <+: assembledCalls (fragmentsOf records) ∧
      toolCallsIn (processAll ctx attempt records ⟨o, {}, outlet⟩).1.outlet.call.trace =
        toolCallsIn outlet.call.trace ++ calls ∧
      ((∀ n, ctx.refuses n = false) → calls = assembledCalls (fragmentsOf records))) ∧
    ∀ records', Reads records' .stop →
      indices (fragmentsOf records') = indices (fragmentsOf records) →
      (∀ idx, fragmentsAt (fragmentsOf records') idx = fragmentsAt (fragmentsOf records) idx) →
      (∀ n, ctx.refuses n = false) →
      toolCallsIn (processAll ctx attempt records' ⟨o, {}, outlet⟩).1.outlet.call.trace =
        toolCallsIn (processAll ctx attempt records ⟨o, {}, outlet⟩).1.outlet.call.trace := by
  obtain ⟨calls, hpre, hcalls, hall⟩ := toolCallsIn_processAll ctx attempt h o outlet
  refine ⟨⟨calls, hpre, hcalls, ?_⟩, ?_⟩
  · intro hctx
    exact hall ((processAll_carried ctx attempt h rfl _).2 hctx)
  · intro records' h' horder hsame hctx
    obtain ⟨calls', _, hcalls', hall'⟩ := toolCallsIn_processAll ctx attempt h' o outlet
    rw [hcalls, hcalls', hall ((processAll_carried ctx attempt h rfl _).2 hctx),
      hall' ((processAll_carried ctx attempt h' rfl _).2 hctx), assembledCalls_congr horder hsame]

def callRecord (toolCalls : List ToolCallDelta) (finishReason : Option Str) : StreamRecord :=
  { choices := [{ delta := { toolCalls }, finishReason }] }

def interleaved : List StreamRecord :=
  [callRecord [{ index := 0, id := lit "a", name := lit "ls", arguments := lit "[" },
      { index := 1, name := lit "cat", arguments := lit "[" }] none,
   callRecord [{ index := 0, arguments := lit "1]" }, { index := 1, arguments := lit "2]" }]
      (some (lit "tool_calls"))]

/-- The same fragments, the last two in the other order and divided otherwise. -/
def reordered : List StreamRecord :=
  [callRecord [{ index := 0, id := lit "a", name := lit "ls", arguments := lit "[" },
      { index := 1, name := lit "cat", arguments := lit "[" },
      { index := 1, arguments := lit "2]" }] none,
   callRecord [{ index := 0, arguments := lit "1]" }] (some (lit "tool_calls"))]

theorem reads_interleaved : Reads interleaved .stop ∧ Reads reordered .stop :=
  ⟨.more rfl rfl (.stop rfl rfl), .more rfl rfl (.stop rfl rfl)⟩

theorem processAll_toolCalls_interleaved :
    toolCallsIn (processAll .background 0 reordered ⟨{}, {}, {}⟩).1.outlet.call.trace =
      toolCallsIn (processAll .background 0 interleaved ⟨{}, {}, {}⟩).1.outlet.call.trace := by
  refine (processAll_toolCalls .background 0 {} {} reads_interleaved.1).2 reordered
    reads_interleaved.2 (by decide) ?_ (fun _ => rfl)
  intro idx
  by_cases h0 : idx = 0
  · subst h0
    decide
  · by_cases h1 : idx = 1
    · subst h1
      decide
    · have hne : (0 : Int) ≠ idx ∧ (1 : Int) ≠ idx := ⟨fun h => h0 h.symm, fun h => h1 h.symm⟩
      simp [fragmentsAt, fragmentsOf, deltas, interleaved, reordered, callRecord,
        StreamRecord.delta, hne]

end MiniGoAgent
