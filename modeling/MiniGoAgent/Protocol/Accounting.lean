/-
# `Protocol.Accounting` — the usage a body reports

The request asks for `stream_options.include_usage`, and a provider may put the
usage on a record of its own behind the one with the `finish_reason`.  The
reader stops at the `finish_reason`, so that usage is neither delivered nor
recorded: `streamWithFailover_accounted_iff`.
-/
import MiniGoAgent.Protocol.Terminal

open Go

namespace MiniGoAgent

variable {body : Body} {records : List StreamRecord}

/-! ## The records of a body -/

/-- The records on the data lines in front of `[DONE]`, if there is such a line. -/
def recordsBeforeDone : List Str → Option (List StreamRecord)
  | [] => none
  | text :: rest =>
    match parseLine text with
    | .skip => recordsBeforeDone rest
    | .done => some []
    | .record sr => (recordsBeforeDone rest).map (sr :: ·)

/-- The records up to the first that reports an error or finishes, and those
behind it. -/
def splitAtEnd : List StreamRecord → List StreamRecord × List StreamRecord
  | [] => ([], [])
  | sr :: rest =>
    if sr.error.isSome || sr.finishes then ([sr], rest)
    else (sr :: (splitAtEnd rest).1, (splitAtEnd rest).2)

def usagesOf (records : List StreamRecord) : List Usage := records.filterMap StreamRecord.usage

theorem splitAtEnd_append (records : List StreamRecord) :
    (splitAtEnd records).1 ++ (splitAtEnd records).2 = records := by
  induction records with
  | nil => rfl
  | cons sr rest ih =>
    rw [splitAtEnd]
    split
    · rfl
    · exact congrArg (List.cons sr) ih

theorem splitAtEnd_processed {lines : List Str}
    (h : recordsBeforeDone lines = some records) : (splitAtEnd records).1 = processed lines := by
  induction lines generalizing records with
  | nil => cases h
  | cons text rest ih =>
    rw [recordsBeforeDone] at h
    rw [processed]
    cases hline : parseLine text with
    | skip =>
      rw [hline] at h
      exact ih h
    | done =>
      rw [hline, Option.some.injEq] at h
      subst h
      rfl
    | record sr =>
      rw [hline] at h
      obtain ⟨later, hlater, rfl⟩ := Option.map_eq_some_iff.mp h
      rw [splitAtEnd]
      dsimp only
      split
      · rfl
      · rw [ih hlater]

theorem ending_ne_eof {lines : List Str}
    (h : recordsBeforeDone lines = some records) : ending lines ≠ .eof := by
  induction lines generalizing records with
  | nil => cases h
  | cons text rest ih =>
    rw [recordsBeforeDone] at h
    rw [ending]
    cases hline : parseLine text with
    | skip =>
      rw [hline] at h
      exact ih h
    | done => simp
    | record sr =>
      rw [hline] at h
      obtain ⟨later, hlater, rfl⟩ := Option.map_eq_some_iff.mp h
      cases herr : sr.error with
      | some msg => simp [herr]
      | none =>
        simp only [herr]
        split
        · simp
        · exact ih hlater

theorem recordedUsage_of_ok {sr : StreamRecord} (h : sr.error = none) :
    sr.recordedUsage = sr.usage := by
  rw [StreamRecord.recordedUsage, h]
  rfl

theorem recordedUsage_of_reads {exit : Exit}
    (h : Reads records exit) (hok : ∀ err, exit ≠ .failed err) :
    records.filterMap StreamRecord.recordedUsage = usagesOf records := by
  induction h with
  | eof => rfl
  | done => rfl
  | @stop sr herr _ =>
    rw [usagesOf, List.filterMap_cons, List.filterMap_cons, recordedUsage_of_ok herr]
    rfl
  | failed _ => exact absurd rfl (hok _)
  | @more sr rest exit herr _ _ ih =>
    rw [usagesOf, List.filterMap_cons, List.filterMap_cons, recordedUsage_of_ok herr, ih hok]
    rfl

/-! ## Usage chunks -/

/-- The counts of a `ChunkUsage`. -/
def Chunk.reported (c : Chunk) : Option Usage :=
  match c.type with
  | .usage => c.usage
  | _ => none

theorem reported_of_carries {c : Chunk} (h : c.carries = true) : c.reported = none := by
  unfold Chunk.carries at h
  unfold Chunk.reported
  cases ht : c.type with
  | usage => rw [ht] at h; cases h
  | _ => rfl

theorem filterMap_reported_of_carries {l : List Chunk} (h : ∀ c ∈ l, c.carries = true) :
    l.filterMap Chunk.reported = [] :=
  List.filterMap_eq_nil_iff.mpr fun c hc => reported_of_carries (h c hc)

theorem reported_usageSends (o : OpenAI) (u : Option Usage) :
    ((usageSends o u).map Send.chunk).filterMap Chunk.reported = u.toList := by
  cases u with
  | none => rfl
  | some u =>
    have hwarn : ((sendContextWarning o u).map Send.chunk).filterMap Chunk.reported = [] := by
      unfold sendContextWarning
      dsimp only
      split
      · rfl
      · split
        · rfl
        · split <;> rfl
    show u :: ((sendContextWarning o u).map Send.chunk).filterMap Chunk.reported = [u]
    rw [hwarn]

theorem reported_processRecord (o : OpenAI) (emitted : Bool) (g : Gathered) (sr : StreamRecord) :
    (processRecord o emitted g sr).chunks.filterMap Chunk.reported = sr.recordedUsage.toList := by
  rcases Option.eq_none_or_eq_some sr.error with herr | ⟨msg, herr⟩
  · have hdelta := filterMap_reported_of_carries (carries_delta o.vendor g sr.delta)
    have hfinish := filterMap_reported_of_carries
      (carries_finish (g.delta o.vendor sr.delta).1)
    rw [Plan.chunks, processRecord_ok o emitted g herr, StreamRecord.recordedUsage, herr]
    dsimp only
    rw [List.map_append, List.filterMap_append, reported_usageSends]
    by_cases hfin : sr.finishes = true
    · rw [if_pos hfin, List.map_append, map_chunk_musts, List.filterMap_append,
        List.filterMap_append, hdelta, hfinish]
      exact List.append_nil _
    · rw [if_neg hfin, map_chunk_musts, hdelta]
      exact List.append_nil _
  · rw [Plan.chunks, processRecord_error o emitted g herr, StreamRecord.recordedUsage, herr]
    rfl

theorem reported_said (o : OpenAI) (records : List StreamRecord) (g : Gathered) (emitted : Bool) :
    (said o records g emitted).filterMap Chunk.reported =
      records.filterMap StreamRecord.recordedUsage := by
  induction records generalizing g emitted with
  | nil => rfl
  | cons sr rest ih =>
    rw [said, List.filterMap_append, reported_processRecord, ih, List.filterMap_cons]
    cases sr.recordedUsage <;> rfl

theorem reported_delivered (o : OpenAI) (body : Body) :
    (body.delivered o).filterMap Chunk.reported =
      (processed body.lines).filterMap StreamRecord.recordedUsage := by
  have hstall : body.stallChunks.filterMap Chunk.reported = [] := by
    rw [Body.stallChunks]
    split <;> rfl
  have hdone : (if ending body.lines = .done then [doneChunk] else []).filterMap
      Chunk.reported = [] := by
    split <;> rfl
  have hread : (body.chunks o ++ body.stallChunks).filterMap Chunk.reported =
      (processed body.lines).filterMap StreamRecord.recordedUsage := by
    rw [List.filterMap_append, hstall, Body.chunks, scan_chunks, List.filterMap_append, hdone,
      reported_said, List.append_nil, List.append_nil]
  rw [Body.delivered, List.filterMap_append, hread]
  cases body.error false with
  | none => exact List.append_nil _
  | some err =>
    dsimp only
    split <;> exact List.append_nil _

/-! ## The telemetry of a call -/

variable {attempt : Nat}

theorem telemetry_of_decided {o : OpenAI} {t : List Event}
    (h : CallTrace o (some (attempt, body)) t) (model : Str) (vendor : Vendor)
    (u : Option Usage) :
    .telemetry model vendor u ∈ t ↔ .telemetry model vendor u ∈ body.record o := by
  obtain ⟨before, after, rfl, hbefore, hafter⟩ := h
  constructor
  · intro hmem
    rcases List.mem_append.mp hmem with hmem | hmem
    · rcases List.mem_append.mp hmem with hmem | hmem
      · cases hbefore _ hmem
      · rcases List.mem_append.mp hmem with hmem | hmem
        · obtain ⟨c, _, hc⟩ := List.mem_map.mp hmem
          cases hc
        · exact hmem
    · cases hafter _ hmem
  · intro hmem
    exact List.mem_append_left _ (List.mem_append_right _ (List.mem_append_right _ hmem))

/-- The body is closed by a `finish_reason`, or by `[DONE]` with no error of the
connection and no stall. -/
def Body.Closed (body : Body) : Prop :=
  ending body.lines = .stop ∨
    (ending body.lines = .done ∧ body.err = none ∧ body.stalled = false)

theorem error_eq_none_iff (h : ending body.lines ≠ .eof) :
    body.error false = none ↔ body.Closed := by
  unfold Body.error Body.Closed
  cases hend : ending body.lines with
  | eof => exact absurd hend h
  | stop => exact ⟨fun _ => Or.inl rfl, fun _ => rfl⟩
  | failed err => simp
  | done =>
    cases body.err with
    | some err => simp
    | none => cases body.stalled <;> simp

theorem mem_record_iff (o : OpenAI) (h : ending body.lines ≠ .eof) (u : Option Usage) :
    .telemetry o.model o.vendor u ∈ body.record o ↔
      body.Closed ∧ u = (usagesOf (processed body.lines)).getLast?.or o.lastUsage := by
  rw [Body.record, ← error_eq_none_iff h, ← Option.isNone_iff_eq_none]
  by_cases hnone : (body.error false).isNone = true
  · have hok : ∀ err, ending body.lines ≠ .failed err := by
      intro err hend
      rw [Body.error, hend] at hnone
      cases hnone
    rw [if_pos hnone, List.mem_singleton, scan_usages,
      recordedUsage_of_reads (reads body.lines) hok]
    constructor
    · intro he
      rw [Event.telemetry.injEq] at he
      exact ⟨hnone, he.2.2⟩
    · rintro ⟨_, rfl⟩
      rfl
  · rw [if_neg hnone]
    exact iff_of_false List.not_mem_nil (fun hc => hnone hc.1)

/-! ## The property -/

/-- Every one of the usages is delivered by the attempt, and the telemetry of
the call is recorded with the last of them. -/
def Accounted (o : OpenAI) (attempt : Nat) (call : Call) (usages : List Usage) : Prop :=
  (∀ u ∈ usages, ∃ c, (attempt, c) ∈ call.chunks ∧ c.reported = some u) ∧
    .telemetry o.model o.vendor usages.getLast? ∈ call.trace

/-- The body is closed, and behind the record that ends the reading there are no
usages but such as repeat one in front of it, the last one the last. -/
structure Body.Accounts (body : Body) (records : List StreamRecord) : Prop where
  closed : body.Closed
  repeated : ∀ u ∈ usagesOf (splitAtEnd records).2, u ∈ usagesOf (splitAtEnd records).1
  last : usagesOf (splitAtEnd records).2 = [] ∨
    (usagesOf (splitAtEnd records).2).getLast? = (usagesOf (splitAtEnd records).1).getLast?

theorem usagesOf_split (records : List StreamRecord) :
    usagesOf records = usagesOf (splitAtEnd records).1 ++ usagesOf (splitAtEnd records).2 := by
  rw [usagesOf, usagesOf, usagesOf, ← List.filterMap_append, splitAtEnd_append]

theorem delivered_reports_iff {o : OpenAI} {c : Call}
    (h : CallTrace o (some (attempt, body)) c.trace) (hclosed : body.Closed) (u : Usage) :
    (∃ ch, (attempt, ch) ∈ c.chunks ∧ ch.reported = some u) ↔
      u ∈ usagesOf (processed body.lines) := by
  have hok : ∀ err, ending body.lines ≠ .failed err := by
    intro err hend
    rcases hclosed with hc | ⟨hc, _⟩ <;> rw [hend] at hc <;> cases hc
  rw [← recordedUsage_of_reads (reads body.lines) hok, ← reported_delivered o,
    List.mem_filterMap, chunks_of_decided h]
  refine exists_congr ?_
  intro ch
  refine and_congr_left ?_
  intro _
  constructor
  · intro hmem
    obtain ⟨ch', hch', heq⟩ := List.mem_map.mp hmem
    rw [Prod.mk.injEq] at heq
    rwa [← heq.2]
  · exact List.mem_map_of_mem

/-- The usages on the data lines in front of `[DONE]` are delivered and recorded
if and only if the body accounts for them. -/
theorem streamWithFailover_accounted_iff {env : Env} (hlive : env.ctx.Live) (o : OpenAI)
    {body : Body} (hset : settling env o = some (attempt, body))
    {records : List StreamRecord} (hdone : recordsBeforeDone body.lines = some records)
    (husage : usagesOf records ≠ []) :
    Accounted o attempt (streamWithFailover env o).call (usagesOf records) ↔
      body.Accounts records := by
  have htrace := streamWithFailover_live hlive o
  rw [hset] at htrace
  have hfront := splitAtEnd_processed hdone
  have htele := mem_record_iff o (ending_ne_eof hdone) (usagesOf records).getLast?
  rw [← telemetry_of_decided htrace] at htele
  have hlast : (usagesOf records).getLast? = (usagesOf (splitAtEnd records).2).getLast?.or
      (usagesOf (splitAtEnd records).1).getLast? := by
    rw [usagesOf_split, List.getLast?_append]
  constructor
  · rintro ⟨hall, htel⟩
    obtain ⟨hclosed, hrec⟩ := htele.mp htel
    have hin : ∀ u ∈ usagesOf records, u ∈ usagesOf (splitAtEnd records).1 := by
      intro u hu
      rw [hfront]
      exact (delivered_reports_iff htrace hclosed u).mp (hall u hu)
    refine ⟨hclosed, ?_, ?_⟩
    · intro u hu
      exact hin u (by rw [usagesOf_split]; exact List.mem_append_right _ hu)
    · -- something was read, so the telemetry does not fall back on an older usage
      obtain ⟨u, _, hcons⟩ := List.exists_cons_of_ne_nil husage
      have hne : usagesOf (splitAtEnd records).1 ≠ [] :=
        List.ne_nil_of_mem (hin u (by rw [hcons]; exact List.mem_cons_self))
      rw [← hfront, hlast, List.getLast?_eq_some_getLast hne] at hrec
      cases hbehind : (usagesOf (splitAtEnd records).2).getLast? with
      | none => exact Or.inl (List.getLast?_eq_none_iff.mp hbehind)
      | some x =>
        rw [hbehind] at hrec
        rw [List.getLast?_eq_some_getLast hne]
        exact Or.inr hrec
  · rintro ⟨hclosed, hrepeated, hends⟩
    have hin : ∀ u ∈ usagesOf records, u ∈ usagesOf (splitAtEnd records).1 := by
      intro u hu
      rw [usagesOf_split] at hu
      rcases List.mem_append.mp hu with hu | hu
      · exact hu
      · exact hrepeated u hu
    refine ⟨?_, htele.mpr ⟨hclosed, ?_⟩⟩
    · intro u hu
      refine (delivered_reports_iff htrace hclosed u).mpr ?_
      rw [← hfront]
      exact hin u hu
    · obtain ⟨u, _, hcons⟩ := List.exists_cons_of_ne_nil husage
      have hne : usagesOf (splitAtEnd records).1 ≠ [] :=
        List.ne_nil_of_mem (hin u (by rw [hcons]; exact List.mem_cons_self))
      rw [← hfront, hlast, List.getLast?_eq_some_getLast hne]
      rcases hends with hnil | heq
      · rw [hnil]
        rfl
      · rw [heq, List.getLast?_eq_some_getLast hne]
        rfl

/-- A record with a usage and no choices, as `include_usage` asks for it. -/
def usageLine : Str :=
  lit "data: \x7b\"choices\":[],\"usage\":\x7b\"prompt_tokens\":3," ++
    lit "\"completion_tokens\":4,\"total_tokens\":7\x7d\x7d"

def lineUsage : Usage := { promptTokens := 3, completionTokens := 4, totalTokens := 7 }

/-- The usage in front of the `finish_reason`. -/
def usageFirst : Body := { lines := [textLine, usageLine, finishLine, doneLine] }

theorem streamWithFailover_accounted_iff_finish_last :
    (answering usageFirst).ctx.Live ∧ settling (answering usageFirst) {} = some (0, usageFirst) ∧
    ∃ records, recordsBeforeDone usageFirst.lines = some records ∧ usagesOf records ≠ [] ∧
      (Accounted {} 0 (streamWithFailover (answering usageFirst) {}).call (usagesOf records) ↔
        usageFirst.Accounts records) := by
  have hset : settling (answering usageFirst) {} = some (0, usageFirst) := by decide +kernel
  have hsome : (recordsBeforeDone usageFirst.lines).isSome = true := by decide +kernel
  obtain ⟨records, hrec⟩ := Option.isSome_iff_exists.mp hsome
  have husage : (recordsBeforeDone usageFirst.lines).map usagesOf ≠ some [] := by decide +kernel
  rw [hrec] at husage
  have hne : usagesOf records ≠ [] := fun h => husage (congrArg some h)
  exact ⟨Ctx.background_live, hset, records, hrec, hne,
    streamWithFailover_accounted_iff Ctx.background_live {} hset hrec hne⟩

def usageLast : Body := { lines := [textLine, finishLine, usageLine, doneLine] }

/-- The usage behind the `finish_reason`: no `ChunkUsage`, and telemetry without
a usage. -/
theorem usage_behind_finish_lost :
    (streamWithFailover (answering usageLast) {}).call.chunks =
      [(0, textChunk (lit "hi")), (0, doneChunk)] ∧
    (recordsBeforeDone usageLast.lines).map usagesOf = some [lineUsage] ∧
    ¬ Accounted {} 0 (streamWithFailover (answering usageLast) {}).call [lineUsage] := by
  have hchunks : (streamWithFailover (answering usageLast) {}).call.chunks =
      [(0, textChunk (lit "hi")), (0, doneChunk)] := by decide +kernel
  refine ⟨hchunks, by decide +kernel, ?_⟩
  rintro ⟨hall, _⟩
  obtain ⟨c, hc, hrep⟩ := hall _ List.mem_cons_self
  rw [hchunks] at hc
  rcases List.mem_cons.mp hc with hc | hc
  · rw [Prod.mk.injEq] at hc
    rw [hc.2] at hrep
    cases hrep
  · rw [List.mem_singleton, Prod.mk.injEq] at hc
    rw [hc.2] at hrep
    cases hrep

end MiniGoAgent
