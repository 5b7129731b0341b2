/-
# `Protocol.Telemetry` — the two judges of how full the context is (`telemetry.go`)

`Telemetry.record` notes a call and returns whether its prompt has reached the
warning and the compression threshold; `sendContextWarning` of the stream compares
the same percentage with the same two thresholds on its own.
`contextJudgesAgree_iff` says exactly when the two agree.

Of the telemetry the fields are kept that `record` and `SetThresholds` touch; the
counters have functions of their own, and `modelCtx` is read nowhere.
-/
import MiniGoAgent.Protocol.Stream

open Go

namespace MiniGoAgent

structure CallRecord where
  model : Str := []
  vendor : Str := []
  duration : Float := 0
  promptTokens : Int := 0
  completionTokens : Int := 0

structure Telemetry where
  last : CallRecord := {}
  warnPct : Int := 40
  comprPct : Int := 50
  lastWarn : Bool := false
  lastCompr : Bool := false
  /-- a `UsageTracker` is set -/
  tracker : Bool := false

/-- A call of `UsageTracker.Record`. -/
structure TrackerCall where
  sessionID : Str
  call : CallRecord

/-- What `record` returns, and what it tells the tracker. -/
structure RecordAnswer where
  warn : Bool := false
  compress : Bool := false
  tracked : List TrackerCall := []

namespace Telemetry

def setThresholds (t : Telemetry) (warnPct compressPct : Int) : Telemetry :=
  { t with warnPct, comprPct := compressPct }

/-- `pct` of `record` and of `sendContextWarning`: how much of the model's context
the prompt takes; the product and the quotient are Go `int`s. -/
def pct (model : Str) (usage : Usage) : Int :=
  (wrap64 (usage.promptTokens * 100)).tdiv (modelContextWindow model)

def record (t : Telemetry) (sessionID model vendor : Str) (durSec : Float)
    (usage : Option Usage) : Telemetry × RecordAnswer :=
  let call : CallRecord :=
    { model, vendor, duration := durSec,
      promptTokens := (usage.map (·.promptTokens)).getD 0,
      completionTokens := (usage.map (·.completionTokens)).getD 0 }
  let judged : Bool × Bool :=
    match usage with
    | none => (false, false)
    | some u =>
      if t.warnPct > 0 ∧ modelContextWindow model > 0 then
        (t.warnPct ≤ pct model u, t.comprPct > 0 ∧ t.comprPct ≤ pct model u)
      else (false, false)
  ({ t with last := call, lastWarn := judged.1, lastCompr := judged.2 },
    { warn := judged.1, compress := judged.2,
      tracked := if t.tracker then [{ sessionID, call }] else [] })

end Telemetry

/-! ## The two judges -/

/-- `sendContextWarning`, a nil usage included. -/
def contextWarning (o : OpenAI) : Option Usage → List Send
  | none => []
  | some u => sendContextWarning o u

/-- A `ChunkWarn` is among the chunks sent. -/
def warned (sends : List Send) : Bool := sends.any (·.chunk.type == .warn)

/-- A `ChunkWarn` that recommends compression is among them. -/
def recommended (sends : List Send) : Bool :=
  sends.any (fun s =>
    s.chunk.type == .warn && hasSuffix s.chunk.warning (lit "compression recommended"))

theorem modelContextWindow_pos (model : Str) : 0 < modelContextWindow model := by
  simp only [modelContextWindow]
  generalize hfound : List.find? _ _ = found
  cases found with
  | none =>
    show 0 < (if _ then _ else _ : Int)
    split_ifs <;> decide
  | some e =>
    show 0 < e.2
    have hmem := List.mem_of_find?_eq_some hfound
    clear hfound
    revert e
    decide

theorem hasSuffix_append_self (s p : Str) : hasSuffix (s ++ p) p = true :=
  List.isSuffixOf_iff_suffix.mpr (List.suffix_append s p)

theorem hasSuffix_percent (s : Str) :
    hasSuffix (s ++ lit "%") (lit "compression recommended") = false := by
  rw [Bool.eq_false_iff]
  intro h
  obtain ⟨t, ht⟩ := List.isSuffixOf_iff_suffix.mp h
  have hlast := congrArg List.getLast? ht
  rw [List.getLast?_append, List.getLast?_append] at hlast
  have hne : some (byte 'd') ≠ some (byte '%') := by decide
  exact hne hlast

theorem recommended_offer (warning : Str) :
    recommended [.offer (warnChunk warning)] =
      hasSuffix warning (lit "compression recommended") :=
  Bool.or_false _

theorem sendContextWarning_eq (o : OpenAI) (u : Usage) :
    sendContextWarning o u =
      if o.comprPct ≤ Telemetry.pct o.model u then
        [.offer (warnChunk (lit "context at " ++ itoa (Telemetry.pct o.model u) ++
          lit "% — compression recommended"))]
      else if o.warnPct ≤ Telemetry.pct o.model u then
        [.offer (warnChunk (lit "context at " ++ itoa (Telemetry.pct o.model u) ++ lit "%"))]
      else [] := by
  have hpos : ¬ modelContextWindow o.model ≤ 0 := Int.not_le.mpr (modelContextWindow_pos o.model)
  rw [sendContextWarning, if_neg hpos]
  rfl

theorem sendContextWarning_judges (o : OpenAI) (u : Usage) :
    (recommended (sendContextWarning o u) = true ↔ o.comprPct ≤ Telemetry.pct o.model u) ∧
      (warned (sendContextWarning o u) = true ↔
        o.comprPct ≤ Telemetry.pct o.model u ∨ o.warnPct ≤ Telemetry.pct o.model u) := by
  rw [sendContextWarning_eq]
  by_cases hcompr : o.comprPct ≤ Telemetry.pct o.model u
  · have hsuffix := hasSuffix_append_self
      (lit "context at " ++ itoa (Telemetry.pct o.model u) ++ lit "% — ")
      (lit "compression recommended")
    rw [List.append_assoc] at hsuffix
    rw [if_pos hcompr, recommended_offer]
    exact ⟨iff_of_true hsuffix hcompr, iff_of_true rfl (Or.inl hcompr)⟩
  · rw [if_neg hcompr]
    by_cases hwarn : o.warnPct ≤ Telemetry.pct o.model u
    · rw [if_pos hwarn, recommended_offer, hasSuffix_percent]
      exact ⟨iff_of_false Bool.false_ne_true hcompr, iff_of_true rfl (Or.inr hwarn)⟩
    · rw [if_neg hwarn]
      exact ⟨iff_of_false Bool.false_ne_true hcompr,
        iff_of_false Bool.false_ne_true (not_or.mpr ⟨hcompr, hwarn⟩)⟩

theorem Telemetry.record_judges (t : Telemetry) (sessionID model vendor : Str)
    (durSec : Float) (u : Usage) :
    ((t.record sessionID model vendor durSec (some u)).2.warn = true ↔
        0 < t.warnPct ∧ t.warnPct ≤ pct model u) ∧
      ((t.record sessionID model vendor durSec (some u)).2.compress = true ↔
        0 < t.warnPct ∧ 0 < t.comprPct ∧ t.comprPct ≤ pct model u) := by
  have hpos := modelContextWindow_pos model
  by_cases hwarn : 0 < t.warnPct
  · simp only [record, gt_iff_lt, hwarn, hpos, and_self, if_true, decide_eq_true_eq, true_and,
      iff_self]
  · simp only [record, gt_iff_lt, hwarn, false_and, if_false, Bool.false_eq_true, and_self,
      iff_self]

/-- For the same model and usage, with the two percentages set in both places: the
stream warns exactly when the telemetry says warn or compress, and recommends
compression exactly when it says compress; and neither threshold is taken into
account where it is switched off. -/
def ContextJudgesAgree (o : OpenAI) (t : Telemetry) (sessionID vendor : Str) (durSec : Float)
    (usage : Option Usage) (warnPct compressPct : Int) : Prop :=
  let sends := contextWarning { o with warnPct, comprPct := compressPct } usage
  let answer :=
    ((t.setThresholds warnPct compressPct).record sessionID o.model vendor durSec usage).2
  (warned sends = true ↔ answer.warn = true ∨ answer.compress = true) ∧
    (recommended sends = true ↔ answer.compress = true) ∧
    (warnPct ≤ 0 → answer.warn = false) ∧ (compressPct ≤ 0 → answer.compress = false)

/-- The two agree exactly when a prompt that reaches the compression threshold finds
both thresholds switched on, and one that reaches the warning threshold finds that
one switched on.  What the stream emits is what it offers to its channel: `sendChunk`
drops a chunk if the channel is full. -/
theorem contextJudgesAgree_iff (o : OpenAI) (t : Telemetry) (sessionID vendor : Str)
    (durSec : Float) (usage : Option Usage) (warnPct compressPct : Int) :
    ContextJudgesAgree o t sessionID vendor durSec usage warnPct compressPct ↔
      ∀ u, usage = some u →
        (compressPct ≤ Telemetry.pct o.model u → 0 < warnPct ∧ 0 < compressPct) ∧
          (warnPct ≤ Telemetry.pct o.model u → 0 < warnPct) := by
  cases usage with
  | none =>
    refine iff_of_true ?_ ?_
    · exact ⟨or_self_iff.symm, Iff.rfl, fun _ => rfl, fun _ => rfl⟩
    · intro u hu
      cases hu
  | some u =>
    have hsends := sendContextWarning_judges { o with warnPct, comprPct := compressPct } u
    have hanswer := (t.setThresholds warnPct compressPct).record_judges sessionID o.model vendor
      durSec u
    simp only [Telemetry.setThresholds] at hsends hanswer
    simp only [ContextJudgesAgree, contextWarning, Telemetry.setThresholds, hsends.1, hsends.2,
      hanswer.1, hanswer.2, Option.some.injEq, forall_eq', Bool.eq_false_iff, ne_eq]
    constructor
    · rintro ⟨hwarns, hrecommends, -⟩
      refine ⟨fun hcompr => ?_, fun hwarn => ?_⟩
      · obtain ⟨hon, hcon, -⟩ := hrecommends.mp hcompr
        exact ⟨hon, hcon⟩
      · rcases hwarns.mp (Or.inr hwarn) with ⟨hon, -⟩ | ⟨hon, -⟩
        · exact hon
        · exact hon
    · rintro ⟨hcompr, hwarn⟩
      refine ⟨⟨?_, ?_⟩, ⟨fun h => ⟨(hcompr h).1, (hcompr h).2, h⟩, fun h => h.2.2⟩, ?_, ?_⟩
      · rintro (h | h)
        · exact Or.inr ⟨(hcompr h).1, (hcompr h).2, h⟩
        · exact Or.inl ⟨hwarn h, h⟩
      · rintro (h | h)
        · exact Or.inr h.2
        · exact Or.inl h.2.2
      · intro hoff h
        omega
      · intro hoff h
        omega

/-- With both thresholds switched off the stream goes on recommending compression,
of an empty prompt too; the telemetry says nothing. -/
theorem switched_off_still_warned :
    ¬ ContextJudgesAgree { model := lit "gpt-4" } {} [] [] 0 (some {}) 0 0 := by
  rintro ⟨-, hrecommends, -, hoff⟩
  have hsent := (sendContextWarning_judges { model := lit "gpt-4" } {}).1.mpr (by decide)
  have hsaid := hrecommends.mp hsent
  rw [hoff (Int.le_refl 0)] at hsaid
  exact Bool.false_ne_true hsaid

end MiniGoAgent
