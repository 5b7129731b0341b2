/-
# `Protocol.Scan` — what a body says, and that `readStream` delivers it

`scan` goes through the lines of a body with no channel in sight: the chunks
they give, the usages they report, what is accumulated from them and how they
end.  `readLines_live` and `readLines_carried` connect it to the code.

What can be said of the lines alone is said of `processed`, the records the
loop looks at, and `ending`, how it is left.
-/
import MiniGoAgent.Protocol.OneAttempt

open Go

namespace MiniGoAgent

/-! ## The scan -/

/-- What the lines of a body come to. -/
structure Scan where
  gathered : Gathered
  chunks : List Chunk := []
  usages : List Usage := []
  exit : Exit

def Plan.chunks (p : Plan) : List Chunk := p.sends.map Send.chunk

def scan (o : OpenAI) : List Str → Gathered → Bool → Scan
  | [], g, _ => { gathered := g, exit := .eof }
  | text :: rest, g, emitted =>
    match parseLine text with
    | .skip => scan o rest g emitted
    | .done => { gathered := g, chunks := [doneChunk], exit := .done }
    | .record sr =>
      let plan := processRecord o emitted g sr
      match plan.verdict with
      | .more =>
        let later := scan o rest plan.gathered (emitted || !plan.chunks.isEmpty)
        { later with
          chunks := plan.chunks ++ later.chunks
          usages := sr.recordedUsage.toList ++ later.usages }
      | .stop =>
        { gathered := plan.gathered, chunks := plan.chunks,
          usages := sr.recordedUsage.toList, exit := .stop }
      | .failed err =>
        { gathered := plan.gathered, chunks := plan.chunks,
          usages := sr.recordedUsage.toList, exit := .failed err }

/-- The first choice of the record ends the stream. -/
def StreamRecord.finishes (sr : StreamRecord) : Bool :=
  match sr.choices with
  | [] => false
  | choice :: _ => choice.finished

/-- The delta the loop looks at: that of the first choice. -/
def StreamRecord.delta (sr : StreamRecord) : Delta :=
  match sr.choices with
  | [] => {}
  | choice :: _ => choice.delta

/-- The records the loop looks at, up to the one that ends it. -/
def processed : List Str → List StreamRecord
  | [] => []
  | text :: rest =>
    match parseLine text with
    | .skip => processed rest
    | .done => []
    | .record sr => if sr.error.isSome || sr.finishes then [sr] else sr :: processed rest

/-- How the loop is left. -/
def ending : List Str → Exit
  | [] => .eof
  | text :: rest =>
    match parseLine text with
    | .skip => ending rest
    | .done => .done
    | .record sr =>
      match sr.error with
      | some msg => .failed (.other (lit "API stream error: " ++ msg))
      | none => if sr.finishes then .stop else ending rest

/-- How records come to an end, one case for each way: the shape every
induction over the lines of a body follows. -/
inductive Reads : List StreamRecord → Exit → Prop
  | eof : Reads [] .eof
  | done : Reads [] .done
  | stop {sr : StreamRecord} : sr.error = none → sr.finishes = true → Reads [sr] .stop
  | failed {sr : StreamRecord} {msg : Str} : sr.error = some msg →
      Reads [sr] (.failed (.other (lit "API stream error: " ++ msg)))
  | more {sr : StreamRecord} {rest : List StreamRecord} {exit : Exit} :
      sr.error = none → sr.finishes = false → Reads rest exit → Reads (sr :: rest) exit

theorem reads (lines : List Str) : Reads (processed lines) (ending lines) := by
  induction lines with
  | nil => exact .eof
  | cons text rest ih =>
    rw [processed, ending]
    cases parseLine text with
    | skip => exact ih
    | done => exact .done
    | record sr =>
      cases herr : sr.error with
      | some msg =>
        simp only [herr, Option.isSome_some, Bool.true_or, if_true]
        exact .failed herr
      | none =>
        simp only [herr, Option.isSome_none, Bool.false_or]
        by_cases hfin : sr.finishes = true
        · rw [if_pos hfin, if_pos hfin]
          exact .stop herr hfin
        · rw [if_neg hfin, if_neg hfin]
          exact .more herr (Bool.not_eq_true _ ▸ hfin) ih

/-! ## One record -/

section Record

variable (o : OpenAI) (emitted : Bool) (g : Gathered) {sr : StreamRecord}

theorem processRecord_error {msg : Str} (h : sr.error = some msg) :
    processRecord o emitted g sr =
      { gathered := g
        sends := [.may (errorChunk (some (streamErr emitted (.other msg))))]
        verdict := .failed (.other (lit "API stream error: " ++ msg)) } := by
  unfold processRecord
  rw [h]

theorem processRecord_ok (h : sr.error = none) :
    processRecord o emitted g sr =
      { gathered := (g.delta o.vendor sr.delta).1
        sends := usageSends o sr.usage ++
          (if sr.finishes then
            ((g.delta o.vendor sr.delta).2 ++ (g.delta o.vendor sr.delta).1.finish).map .must ++
              [.may doneChunk]
          else (g.delta o.vendor sr.delta).2.map .must)
        verdict := if sr.finishes then .stop else .more } := by
  unfold processRecord StreamRecord.delta StreamRecord.finishes
  rw [h]
  cases sr.choices with
  | nil =>
    show _ = Plan.mk g (usageSends o sr.usage ++ []) .more
    rw [List.append_nil]
  | cons choice rest =>
    dsimp only
    by_cases hf : choice.finished = true
    · rw [if_pos hf, if_pos hf, if_pos hf, List.append_assoc]
    · rw [if_neg hf, if_neg hf, if_neg hf]

theorem processRecord_update (u : Option Usage) (i : Nat) (sr : StreamRecord) :
    processRecord { o with lastUsage := u, keyIndex := i } emitted g sr =
      processRecord o emitted g sr := rfl

end Record

/-! ## The scan, from the lines alone -/

section Lines

variable (o : OpenAI)

theorem scan_exit (lines : List Str) (g : Gathered) (emitted : Bool) :
    (scan o lines g emitted).exit = ending lines := by
  induction lines generalizing g emitted with
  | nil => rfl
  | cons text rest ih =>
    rw [scan, ending]
    cases parseLine text with
    | skip => exact ih g emitted
    | done => rfl
    | record sr =>
      dsimp only
      cases herr : sr.error with
      | some msg => rw [processRecord_error o emitted g herr]
      | none =>
        rw [processRecord_ok o emitted g herr]
        cases sr.finishes with
        | true => rfl
        | false => exact ih _ _

theorem scan_usages (lines : List Str) (g : Gathered) (emitted : Bool) :
    (scan o lines g emitted).usages = (processed lines).filterMap StreamRecord.recordedUsage := by
  have hsingle : ∀ sr : StreamRecord,
      sr.recordedUsage.toList = [sr].filterMap StreamRecord.recordedUsage := by
    intro sr
    cases h : sr.recordedUsage <;> simp [h]
  induction lines generalizing g emitted with
  | nil => rfl
  | cons text rest ih =>
    rw [scan, processed]
    cases parseLine text with
    | skip => exact ih g emitted
    | done => rfl
    | record sr =>
      dsimp only
      cases herr : sr.error with
      | some msg =>
        rw [processRecord_error o emitted g herr]
        exact hsingle sr
      | none =>
        rw [processRecord_ok o emitted g herr]
        cases sr.finishes with
        | true => exact hsingle sr
        | false =>
          show sr.recordedUsage.toList ++ _ = (sr :: processed rest).filterMap _
          rw [ih, hsingle, ← List.filterMap_append]
          rfl

/-- What is accumulated from records: their deltas, one after the other. -/
def gather (vendor : Vendor) : List StreamRecord → Gathered → Gathered
  | [], g => g
  | sr :: rest, g =>
    gather vendor rest (if sr.error.isSome then g else (g.delta vendor sr.delta).1)

theorem scan_update (u : Option Usage) (i : Nat) (lines : List Str) (g : Gathered)
    (emitted : Bool) :
    scan { o with lastUsage := u, keyIndex := i } lines g emitted = scan o lines g emitted := by
  induction lines generalizing g emitted with
  | nil => rfl
  | cons text rest ih =>
    rw [scan, scan]
    cases parseLine text with
    | skip => exact ih g emitted
    | done => rfl
    | record sr =>
      dsimp only
      rw [processRecord_update o emitted g u i sr, ih]

end Lines

/-! ## A live context -/

namespace Call

def deliverAll (c : Call) (attempt : Nat) (l : List Chunk) : Call where
  tick := c.tick + l.length
  trace := c.trace ++ l.map (.chunk attempt)

theorem deliverAll_nil (c : Call) (attempt : Nat) : c.deliverAll attempt [] = c := by
  simp [deliverAll]

theorem deliverAll_deliver (c : Call) (attempt : Nat) (ch : Chunk) (l : List Chunk) :
    (c.deliver attempt ch).deliverAll attempt l = c.deliverAll attempt (ch :: l) := by
  simp [deliverAll, deliver, log, next, Nat.add_assoc, Nat.add_comm 1]

theorem deliverAll_deliverAll (c : Call) (attempt : Nat) (l l' : List Chunk) :
    (c.deliverAll attempt l).deliverAll attempt l' = c.deliverAll attempt (l ++ l') := by
  simp [deliverAll, Nat.add_assoc]

end Call

/-- The usages of a stream, noted as they come. -/
def OpenAI.note (o : OpenAI) (usages : List Usage) : OpenAI :=
  { o with lastUsage := usages.getLast?.or o.lastUsage }

theorem OpenAI.note_nil (o : OpenAI) : o.note [] = o := rfl

theorem OpenAI.note_note (o : OpenAI) (l l' : List Usage) :
    (o.note l).note l' = o.note (l ++ l') := by
  simp [note, List.getLast?_append, Option.or_assoc]

def Send.firm : Send → Bool
  | .offer _ => false
  | _ => true

section Live

variable {ctx : Ctx} (hlive : ctx.Live) (attempt : Nat)

include hlive

theorem refuses_live (tick : Nat) : ctx.refuses tick = false := by
  rw [Ctx.refuses, (hlive tick).1]
  rfl

theorem send_live (ch : Chunk) (s : Outlet) :
    send ctx attempt ch s = (⟨s.call.deliver attempt ch, true⟩, true) := by
  rw [send, refuses_live hlive]
  rfl

theorem sendChunk_live (ch : Chunk) (c : Call) :
    sendChunk ctx attempt ch c = c.deliver attempt ch := by
  rw [sendChunk, refuses_live hlive, (hlive c.tick).2]
  rfl

theorem exec_live (sends : List Send) (s : Outlet) :
    exec ctx attempt sends s =
      (⟨s.call.deliverAll attempt (sends.map Send.chunk), s.emitted || sends.any Send.firm⟩,
        true) := by
  induction sends generalizing s with
  | nil => simp [exec, Call.deliverAll_nil]
  | cons x rest ih =>
    cases x with
    | must c =>
      rw [exec, send_live hlive]
      dsimp only
      rw [ih]
      simp [Call.deliverAll_deliver, Send.chunk, Send.firm]
    | may c =>
      rw [exec, send_live hlive, ih]
      simp [Call.deliverAll_deliver, Send.chunk, Send.firm]
    | offer c =>
      rw [exec, sendChunk_live hlive, ih]
      simp [Call.deliverAll_deliver, Send.chunk, Send.firm]

omit hlive in
theorem any_firm {sends : List Send} (h : FirmFirst sends) :
    sends.any Send.firm = !(sends.map Send.chunk).isEmpty := by
  cases sends with
  | nil => rfl
  | cons x rest =>
    cases x with
    | must | may => rfl
    | offer c => exact h.elim

theorem processSSEData_live (sr : StreamRecord) (s : ReadStreamState) :
    processSSEData ctx attempt sr s =
      ({ o := s.o.note sr.recordedUsage.toList
         gathered := (processRecord s.o s.outlet.emitted s.gathered sr).gathered
         outlet :=
          ⟨s.outlet.call.deliverAll attempt
              (processRecord s.o s.outlet.emitted s.gathered sr).chunks,
            s.outlet.emitted ||
              !(processRecord s.o s.outlet.emitted s.gathered sr).chunks.isEmpty⟩ },
        (processRecord s.o s.outlet.emitted s.gathered sr).verdict) := by
  rw [processSSEData]
  dsimp only
  rw [exec_live hlive,
    any_firm (firmFirst_processRecord s.o s.outlet.emitted s.gathered sr)]
  cases sr.recordedUsage <;> rfl

theorem readLines_live (lines : List Str) (s : ReadStreamState) :
    readLines ctx attempt lines s =
      ({ o := s.o.note (scan s.o lines s.gathered s.outlet.emitted).usages
         gathered := (scan s.o lines s.gathered s.outlet.emitted).gathered
         outlet :=
          ⟨s.outlet.call.deliverAll attempt (scan s.o lines s.gathered s.outlet.emitted).chunks,
            s.outlet.emitted ||
              !(scan s.o lines s.gathered s.outlet.emitted).chunks.isEmpty⟩ },
        (scan s.o lines s.gathered s.outlet.emitted).exit) := by
  induction lines generalizing s with
  | nil => simp [readLines, scan, OpenAI.note_nil, Call.deliverAll_nil]
  | cons text rest ih =>
    rw [readLines, scan]
    cases parseLine text with
    | skip => exact ih s
    | done =>
      dsimp only
      rw [send_live hlive]
      simp [OpenAI.note_nil, Call.deliverAll, Call.deliver, Call.log, Call.next]
    | record sr =>
      dsimp only
      rw [processSSEData_live hlive]
      cases (processRecord s.o s.outlet.emitted s.gathered sr).verdict with
      | stop | failed => rfl
      | more =>
        dsimp only
        rw [ih]
        have hscan := scan_update s.o
          (sr.recordedUsage.toList.getLast?.or s.o.lastUsage) s.o.keyIndex rest
        simp only [OpenAI.note] at hscan ⊢
        rw [hscan]
        simp only [Call.deliverAll_deliverAll, List.getLast?_append, Option.or_assoc,
          Bool.or_assoc]
        cases (processRecord s.o s.outlet.emitted s.gathered sr).chunks with
        | nil | cons => rfl

end Live

end MiniGoAgent
