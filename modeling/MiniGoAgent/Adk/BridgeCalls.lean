/-
# `Adk.BridgeCalls` — the tool calls of the message

The reader of the stream keeps tool calls by index and announces a call when it
knows its name; the bridge keeps them in the order of the announcements, under
the ID they were announced with, and looks for that ID when the arguments come.
`bridgeStream_calls_iff` says when the two agree, in terms of the fragments
alone.
-/
import MiniGoAgent.Adk.Bridge
import MiniGoAgent.Protocol.Assembled
import MiniGoAgent.Protocol.Terminal

open Go

namespace MiniGoAgent

/-! ## The fold of the goroutine -/

/-- An announcement or a complete call. -/
def Chunk.isCall (c : Chunk) : Bool := c.type = .toolCallStart || c.type = .toolCall

theorem absorb_toolCalls_of_not_isCall (s : StreamAcc) {c : Chunk} (h : c.isCall = false) :
    (s.absorb c).toolCalls = s.toolCalls := by
  unfold StreamAcc.absorb absorbCall
  unfold Chunk.isCall at h
  cases ht : c.type with
  | toolCallStart | toolCall => rw [ht] at h; cases h
  | _ => rfl

theorem absorb_toolCalls_of_isCall (s : StreamAcc) {c : Chunk} (h : c.isCall = true) :
    (s.absorb c).toolCalls = absorbCall s.toolCalls c := by
  unfold StreamAcc.absorb
  unfold Chunk.isCall at h
  cases ht : c.type with
  | text | reasoning => rw [ht] at h; cases h
  | _ => rfl

theorem foldl_absorb_toolCalls (chunks : List Chunk) (s : StreamAcc) :
    (chunks.foldl StreamAcc.absorb s).toolCalls =
      (chunks.filter Chunk.isCall).foldl absorbCall s.toolCalls := by
  induction chunks generalizing s with
  | nil => rfl
  | cons c rest ih =>
    rw [List.foldl_cons, ih]
    by_cases h : c.isCall = true
    · rw [List.filter_cons_of_pos h, List.foldl_cons, absorb_toolCalls_of_isCall s h]
    · rw [List.filter_cons_of_neg h,
        absorb_toolCalls_of_not_isCall s (Bool.not_eq_true _ ▸ h)]

theorem bridgeStream_open (chat : Except Err Response) {before : List Chunk} (h : Open before)
    (rest : List Chunk) (n : Nat) (s : StreamAcc) :
    bridgeStream (fun _ => false) chat (before ++ rest) n s =
      bridgeStream (fun _ => false) chat rest (n + before.length)
        (before.foldl StreamAcc.absorb s) := by
  induction before generalizing n s with
  | nil => rfl
  | cons c before ih =>
    have hc := h c List.mem_cons_self
    have hrest : Open before := fun x hx => h x (List.mem_cons_of_mem _ hx)
    rw [List.cons_append, bridgeStream_absorb chat s rfl hc, ih hrest, List.foldl_cons,
      List.length_cons, Nat.add_assoc, Nat.add_comm 1]

/-! ## The chunks of the fragments -/

/-- The calls as they stand when their name arrives, in the order of arrival. -/
def heard (frags : List ToolCallDelta) : List ToolCallDelta → List ToolCall
  | [] => []
  | tc :: more =>
    (if announces frags tc then [callOf (frags ++ [tc]) tc.index] else []) ++
      heard (frags ++ [tc]) more

theorem announced_eq_heard (frags more : List ToolCallDelta) :
    Gathered.announced frags more = (heard frags more).map startChunk := by
  induction more generalizing frags with
  | nil => rfl
  | cons tc more ih =>
    rw [Gathered.announced, heard, List.map_append, ih]
    split <;> rfl

theorem heard_append (frags l l' : List ToolCallDelta) :
    heard frags (l ++ l') = heard frags l ++ heard (frags ++ l) l' := by
  induction l generalizing frags with
  | nil => rw [List.append_nil]; rfl
  | cons tc l ih =>
    rw [List.cons_append, heard, heard, ih, List.append_assoc, List.append_assoc]
    rfl

theorem filter_isCall_ifText {make : Str → Chunk} (h : ∀ t, (make t).isCall = false)
    (text : Str) : (ifText make text).filter Chunk.isCall = [] := by
  unfold ifText
  split
  · rfl
  · simp [h]

theorem filter_isCall_map {make : ToolCall → Chunk} (h : ∀ tc, (make tc).isCall = true)
    (l : List ToolCall) : (l.map make).filter Chunk.isCall = l.map make := by
  rw [List.filter_eq_self]
  intro c hc
  obtain ⟨tc, _, rfl⟩ := List.mem_map.mp hc
  exact h tc

theorem filter_isCall_delta (vendor : Vendor) (frags : List ToolCallDelta) (think : ThinkSplitter)
    (d : Delta) :
    ((Gathered.ofFragments frags think).delta vendor d).2.filter Chunk.isCall =
      (heard frags d.toolCalls).map startChunk := by
  rw [Gathered.delta_ofFragments]
  dsimp only
  rw [List.filter_append, List.filter_append, List.filter_append,
    filter_isCall_ifText (fun _ => rfl), filter_isCall_ifText (fun _ => rfl),
    filter_isCall_ifText (fun _ => rfl), announced_eq_heard,
    filter_isCall_map (fun _ => rfl)]
  rfl

theorem filter_isCall_finish (frags : List ToolCallDelta) (think : ThinkSplitter) :
    (Gathered.ofFragments frags think).finish.filter Chunk.isCall =
      (finals frags).map toolCallChunk := by
  rw [Gathered.finish, filterMap_order, List.filter_append,
    filter_isCall_ifText (fun _ => rfl), filter_isCall_map (fun _ => rfl)]
  rfl

theorem filter_isCall_usageSends (o : OpenAI) (u : Option Usage) :
    ((usageSends o u).map Send.chunk).filter Chunk.isCall = [] :=
  List.filter_eq_nil_iff.mpr
    (forall_usageSends (fun _ => Bool.false_ne_true) (fun _ => Bool.false_ne_true) o u)

theorem filter_isCall_said (o : OpenAI) {records : List StreamRecord} {exit : Exit}
    (h : Reads records exit) (hstop : exit = .stop) (frags : List ToolCallDelta)
    (think : ThinkSplitter) (emitted : Bool) :
    (said o records (.ofFragments frags think) emitted).filter Chunk.isCall =
      (heard frags (fragmentsOf records)).map startChunk ++
        (finals (frags ++ fragmentsOf records)).map toolCallChunk := by
  induction h generalizing frags think emitted with
  | eof | done | failed => cases hstop
  | @stop sr herr hfin =>
    have hfrags : fragmentsOf [sr] = sr.delta.toolCalls := by
      simp [fragmentsOf, deltas, herr]
    have hnext := Gathered.delta_ofFragments o.vendor frags think sr.delta
    rw [said, said, List.append_nil, Plan.chunks, processRecord_ok o emitted _ herr, hfrags]
    dsimp only
    rw [if_pos hfin, List.map_append, List.map_append, map_chunk_musts, List.filter_append,
      filter_isCall_usageSends, List.filter_append, List.filter_append, filter_isCall_delta,
      hnext, filter_isCall_finish]
    exact List.append_nil _
  | @more sr rest exit herr hfin _ ih =>
    have hfrags : fragmentsOf (sr :: rest) = sr.delta.toolCalls ++ fragmentsOf rest := by
      simp [fragmentsOf, deltas, herr]
    rw [said, chunks_more o emitted _ herr hfin, gathered_ofFragments o emitted frags think herr,
      List.filter_append, List.filter_append, filter_isCall_usageSends, filter_isCall_delta,
      ih hstop, hfrags, heard_append, List.map_append, List.append_assoc frags, List.nil_append,
      List.append_assoc]

/-! ## The calls of the message -/

def ToolCall.toSchema (tc : ToolCall) : Schema.ToolCall :=
  { id := tc.id, type := lit "function",
    function := { name := tc.name, arguments := tc.arguments } }

def ToolCall.label (tc : ToolCall) : Str × Str := (tc.id, tc.name)

def ToolCall.load (tc : ToolCall) : Str × Str := (tc.id, tc.arguments)

/-- The indices that received a name, in the order of first appearance. -/
def namedIndices (frags : List ToolCallDelta) : List Int :=
  (indices frags).filter (fun idx => (callOf frags idx).name ≠ [])

def accumulatedCalls (frags : List ToolCallDelta) : List Schema.ToolCall :=
  (namedIndices frags).map (fun idx => (finalCall frags idx).toSchema)

def bridgedCalls (frags : List ToolCallDelta) : List Schema.ToolCall :=
  ((heard [] frags).map startChunk ++ (finals frags).map toolCallChunk).foldl absorbCall []

/-- What stays of a call when its arguments are set, and what is matched then. -/
def Schema.ToolCall.fixed (tc : Schema.ToolCall) : (Str × Str) × Str :=
  ((tc.id, tc.function.name), tc.type)

def Schema.ToolCall.slot (tc : Schema.ToolCall) : Str × Str :=
  (tc.id, tc.function.arguments)

theorem setArguments_fixed (id arguments : Str) (calls : List Schema.ToolCall) :
    (setArguments id arguments calls).map Schema.ToolCall.fixed =
      calls.map Schema.ToolCall.fixed := by
  induction calls with
  | nil => rfl
  | cons tc rest ih =>
    rw [setArguments]
    split
    · rfl
    · exact congrArg (List.cons _) ih

theorem setArguments_slot (id arguments : Str) (calls : List Schema.ToolCall) :
    (setArguments id arguments calls).map Schema.ToolCall.slot =
      assignFirst (calls.map Schema.ToolCall.slot) id arguments := by
  induction calls with
  | nil => rfl
  | cons tc rest ih =>
    rw [setArguments, List.map_cons]
    show _ = assignFirst ((tc.id, tc.function.arguments) :: rest.map Schema.ToolCall.slot) _ _
    rw [assignFirst]
    split
    · rfl
    · exact congrArg (List.cons _) ih

theorem foldl_toolCallChunk (l : List ToolCall) (calls : List Schema.ToolCall) :
    ((l.map toolCallChunk).foldl absorbCall calls).map Schema.ToolCall.fixed =
        calls.map Schema.ToolCall.fixed ∧
      ((l.map toolCallChunk).foldl absorbCall calls).map Schema.ToolCall.slot =
        assignAll (calls.map Schema.ToolCall.slot) (l.map ToolCall.load) := by
  induction l generalizing calls with
  | nil => exact ⟨rfl, rfl⟩
  | cons tc rest ih =>
    obtain ⟨hfixed, hslot⟩ := ih (setArguments tc.id tc.arguments calls)
    refine ⟨hfixed.trans (setArguments_fixed _ _ _), hslot.trans ?_⟩
    rw [setArguments_slot]
    rfl

theorem foldl_startChunk (l : List ToolCall) (calls : List Schema.ToolCall) :
    (l.map startChunk).foldl absorbCall calls =
      calls ++ l.map (fun tc => ToolCall.toSchema { tc with arguments := [] }) := by
  induction l generalizing calls with
  | nil => exact (List.append_nil _).symm
  | cons tc rest ih =>
    rw [List.map_cons, List.foldl_cons, ih, List.map_cons]
    exact List.append_assoc _ _ _

theorem toolCall_ext {tc tc' : Schema.ToolCall} (hfixed : tc.fixed = tc'.fixed)
    (hslot : tc.slot = tc'.slot) : tc = tc' := by
  obtain ⟨id, type, name, arguments⟩ := tc
  obtain ⟨id', type', name', arguments'⟩ := tc'
  simp only [Schema.ToolCall.fixed, Schema.ToolCall.slot, Prod.mk.injEq] at hfixed hslot
  obtain ⟨⟨rfl, rfl⟩, rfl⟩ := hfixed
  obtain ⟨_, rfl⟩ := hslot
  rfl

theorem calls_eq_iff {l l' : List Schema.ToolCall} :
    l = l' ↔ l.map Schema.ToolCall.fixed = l'.map Schema.ToolCall.fixed ∧
      l.map Schema.ToolCall.slot = l'.map Schema.ToolCall.slot := by
  constructor
  · rintro rfl
    exact ⟨rfl, rfl⟩
  · rintro ⟨hfixed, hslot⟩
    induction l generalizing l' with
    | nil => exact (List.map_eq_nil_iff.mp hfixed.symm).symm
    | cons tc rest ih =>
      cases l' with
      | nil => cases hfixed
      | cons tc' rest' =>
        rw [List.map_cons, List.map_cons, List.cons.injEq] at hfixed hslot
        rw [toolCall_ext hfixed.1 hslot.1, ih hfixed.2 hslot.2]

/-! ## The condition -/

/-- What is heard of the calls, in the order in which their names arrive, is what
they have at the end, in the order of first appearance. -/
def HeardInFull (frags : List ToolCallDelta) : Prop :=
  (heard [] frags).map ToolCall.label =
    (namedIndices frags).map (fun idx => (finalCall frags idx).label)

/-- Of the calls with one ID the first has the arguments of the last index with
that ID, and the others have none. -/
def Unshared (frags : List ToolCallDelta) : Prop :=
  ∀ before idx after, namedIndices frags = before ++ idx :: after →
    ((finalCall frags idx).id ∈ before.map (fun j => (finalCall frags j).id) →
      (finalCall frags idx).arguments = []) ∧
    ((finalCall frags idx).id ∉ before.map (fun j => (finalCall frags j).id) →
      (finalCall frags idx).arguments =
        (lastFor (finalCall frags idx).id ((finals frags).map ToolCall.load)).getD [])

theorem bridgedCalls_eq_iff (frags : List ToolCallDelta) :
    bridgedCalls frags = accumulatedCalls frags ↔ HeardInFull frags ∧ Unshared frags := by
  have hinj : Function.Injective (fun p : Str × Str => (p, lit "function")) := by
    intro p q h
    exact (Prod.mk.injEq .. ▸ h).1
  obtain ⟨hfixed, hslot⟩ := foldl_toolCallChunk (finals frags)
    ((heard [] frags).map (fun tc => ToolCall.toSchema { tc with arguments := [] }))
  have hbridged : bridgedCalls frags = ((finals frags).map toolCallChunk).foldl absorbCall
      ((heard [] frags).map (fun tc => ToolCall.toSchema { tc with arguments := [] })) := by
    rw [bridgedCalls, List.foldl_append, foldl_startChunk, List.nil_append]
  have hlabels : (bridgedCalls frags).map Schema.ToolCall.fixed =
      (accumulatedCalls frags).map Schema.ToolCall.fixed ↔ HeardInFull frags := by
    rw [hbridged, hfixed, accumulatedCalls, List.map_map, List.map_map, HeardInFull,
      ← (List.map_injective_iff.mpr hinj).eq_iff, List.map_map, List.map_map]
    rfl
  rw [calls_eq_iff, hlabels]
  refine and_congr_right ?_
  intro hheard
  have hids : (heard [] frags).map (fun tc => (tc.id, ([] : Str))) =
      (namedIndices frags).map (fun idx => ((finalCall frags idx).id, [])) := by
    have h := congrArg (List.map (fun p : Str × Str => (p.1, ([] : Str)))) hheard
    rwa [List.map_map, List.map_map] at h
  have hslots : (bridgedCalls frags).map Schema.ToolCall.slot =
      assignAll ((namedIndices frags).map (fun idx => ((finalCall frags idx).id, [])))
        ((finals frags).map ToolCall.load) := by
    rw [hbridged, hslot, List.map_map, ← hids]
    rfl
  rw [hslots, accumulatedCalls, List.map_map]
  exact assignAll_map_eq_iff (namedIndices frags) (fun idx => (finalCall frags idx).id)
    (fun idx => (finalCall frags idx).arguments) [] ((finals frags).map ToolCall.load)

/-! ## The message of a call -/

theorem bridgeStream_message {env : Env} (hlive : env.ctx.Live) (o : OpenAI) {attempt : Nat}
    {body : Body} (hset : settling env o = some (attempt, body))
    (hstop : ending body.lines = .stop) (chat : Except Err Response) :
    ∃ m, bridgeStream (fun _ => false) chat
        ((streamWithFailover env o).call.chunks.map Prod.snd) 0 {} = [.message m] ∧
      m.toolCalls = bridgedCalls (fragmentsOf (processed body.lines)) := by
  have htrace := streamWithFailover_live hlive o
  rw [hset] at htrace
  have hstall : body.stallChunks = [] := by
    rw [Body.stallChunks, Body.stalls, hstop]
    rfl
  have hchannel : (streamWithFailover env o).call.chunks.map Prod.snd =
      said o (processed body.lines) {} false := by
    rw [chunks_of_decided htrace, List.map_map,
      delivered_of_chunks o (chunks_ne_nil o (by rw [hstop]; simp)), hstall, List.append_nil,
      Body.chunks, scan_chunks, hstop]
    exact (List.map_id _).trans (List.append_nil _)
  obtain ⟨before, hopen, hends⟩ := said_shape o (reads body.lines) {} false
  rw [hstop] at hends
  change said o (processed body.lines) {} false = before ++ [doneChunk] at hends
  have hcalls := filter_isCall_said o (reads body.lines) hstop [] {} false
  change (said o (processed body.lines) {} false).filter Chunk.isCall = _ at hcalls
  rw [hends, List.filter_append, List.nil_append] at hcalls
  have hdone : [doneChunk].filter Chunk.isCall = [] := rfl
  rw [hdone, List.append_nil] at hcalls
  refine ⟨(before.foldl StreamAcc.absorb {}).message, ?_, ?_⟩
  · rw [hchannel, hends, bridgeStream_open chat hopen]
    rfl
  · show (before.foldl StreamAcc.absorb {}).toolCalls = _
    rw [foldl_absorb_toolCalls, hcalls]
    rfl

/-- The message carries the accumulated calls if and only if they are heard in
full and do not share their IDs. -/
theorem bridgeStream_calls_iff {env : Env} (hlive : env.ctx.Live) (o : OpenAI) {attempt : Nat}
    {body : Body} (hset : settling env o = some (attempt, body))
    (hstop : ending body.lines = .stop) (chat : Except Err Response) :
    (∃ m, bridgeStream (fun _ => false) chat
        ((streamWithFailover env o).call.chunks.map Prod.snd) 0 {} = [.message m] ∧
      m.toolCalls = accumulatedCalls (fragmentsOf (processed body.lines))) ↔
      HeardInFull (fragmentsOf (processed body.lines)) ∧
        Unshared (fragmentsOf (processed body.lines)) := by
  obtain ⟨m, hm, hcalls⟩ := bridgeStream_message hlive o hset hstop chat
  rw [← bridgedCalls_eq_iff]
  constructor
  · rintro ⟨m', hm', hcalls'⟩
    rw [hm, List.cons.injEq, Sent.message.injEq] at hm'
    rw [← hcalls, hm'.1, hcalls']
  · intro h
    exact ⟨m, hm, hcalls.trans h⟩

/-- What the bridge makes of a stream that is answered with the body. -/
def bridged (body : Body) : List Sent :=
  bridgeStream (fun _ => false) (.error .canceled)
    ((streamWithFailover (answering body) {}).call.chunks.map Prod.snd) 0 {}

def oneCall : Body := { lines := [toolCallLine, finishLine] }

theorem bridgeStream_calls_iff_one_fragment :
    (answering oneCall).ctx.Live ∧ settling (answering oneCall) {} = some (0, oneCall) ∧
    ending oneCall.lines = .stop ∧
    ((∃ m, bridged oneCall = [.message m] ∧
        m.toolCalls = accumulatedCalls (fragmentsOf (processed oneCall.lines))) ↔
      HeardInFull (fragmentsOf (processed oneCall.lines)) ∧
        Unshared (fragmentsOf (processed oneCall.lines))) := by
  have hset : settling (answering oneCall) {} = some (0, oneCall) := by decide +kernel
  have hstop : ending oneCall.lines = .stop := by decide +kernel
  exact ⟨Ctx.background_live, hset, hstop,
    bridgeStream_calls_iff Ctx.background_live {} hset hstop (.error .canceled)⟩

/-- A fragment with a name and arguments, and no ID. -/
def anonymousCallLine : Str :=
  lit "data: \x7b\"choices\":[\x7b\"delta\":\x7b\"tool_calls\":[\x7b\"index\":0," ++
    lit "\"function\":\x7b\"name\":\"f\",\"arguments\":\"[1]\"\x7d\x7d]\x7d\x7d]\x7d"

def anonymousCall : Body := { lines := [anonymousCallLine, finishLine] }

/-- A call the provider gives no ID: the message has it with an empty ID and
without its arguments. -/
theorem anonymous_call_loses_arguments :
    bridged anonymousCall =
      [.message { role := roleAssistant, toolCalls := [ToolCall.toSchema { name := lit "f" }] }] ∧
    accumulatedCalls (fragmentsOf (processed anonymousCall.lines)) =
      [ToolCall.toSchema { id := lit "call_0", name := lit "f", arguments := lit "[1]" }] ∧
    ¬ ∃ m, bridged anonymousCall = [.message m] ∧
      m.toolCalls = accumulatedCalls (fragmentsOf (processed anonymousCall.lines)) := by
  have hsent : bridged anonymousCall =
      [.message { role := roleAssistant, toolCalls := [ToolCall.toSchema { name := lit "f" }] }] :=
    by decide +kernel
  have hwanted : accumulatedCalls (fragmentsOf (processed anonymousCall.lines)) =
      [ToolCall.toSchema { id := lit "call_0", name := lit "f", arguments := lit "[1]" }] := by
    decide +kernel
  refine ⟨hsent, hwanted, ?_⟩
  rintro ⟨m, hm, hcalls⟩
  rw [hsent, List.cons.injEq, Sent.message.injEq] at hm
  rw [← hm.1, hwanted] at hcalls
  exact absurd hcalls (by decide +kernel)

end MiniGoAgent
