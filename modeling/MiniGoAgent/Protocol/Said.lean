/-
# `Protocol.Said` — the chunks of a body, record by record

`said` is the part of the scan that goes on the channel.  Its terminal chunk
comes last if there is one, and there is one exactly when the records end by a
`finish_reason` or an error record.  A body is silent when its records put
nothing on the channel, which can be read off the records: `silent`.
-/
import MiniGoAgent.Protocol.Flush

open Go

namespace MiniGoAgent

variable (o : OpenAI) (emitted : Bool) (g : Gathered)

variable {frags : List ToolCallDelta} {sr : StreamRecord}

def said (o : OpenAI) : List StreamRecord → Gathered → Bool → List Chunk
  | [], _, _ => []
  | sr :: rest, g, emitted =>
    (processRecord o emitted g sr).chunks ++
      said o rest (processRecord o emitted g sr).gathered
        (emitted || !(processRecord o emitted g sr).chunks.isEmpty)

theorem scan_chunks (lines : List Str) (g : Gathered) (emitted : Bool) :
    (scan o lines g emitted).chunks =
      said o (processed lines) g emitted ++
        if ending lines = .done then [doneChunk] else [] := by
  fun_induction ending lines generalizing g emitted with
  | case1 => rfl
  | case2 text rest hline ih => simp only [scan, processed, hline, ih]
  | case3 text rest hline =>
    simp only [scan, processed, hline]
    rfl
  | case4 text rest sr hline msg herr =>
    have hfailed : (processRecord o emitted g sr).verdict =
        .failed (.other (lit "API stream error: " ++ msg)) := by
      rw [processRecord_error o emitted g herr]
    simp only [scan, processed, hline, hfailed, herr, Option.isSome_some, Bool.true_or, if_true,
      reduceCtorEq, if_false, List.append_nil, said]
  | case5 text rest sr hline herr hfin =>
    have hstop : (processRecord o emitted g sr).verdict = .stop := by
      rw [processRecord_ok o emitted g herr, hfin]
      rfl
    simp only [scan, processed, hline, hstop, hfin, Bool.or_true, if_true, reduceCtorEq, if_false,
      List.append_nil, said]
  | case6 text rest sr hline herr hfin ih =>
    rw [Bool.not_eq_true] at hfin
    have hmore : (processRecord o emitted g sr).verdict = .more := by
      rw [processRecord_ok o emitted g herr, hfin]
      rfl
    simp only [scan, processed, hline, hmore, herr, hfin, Option.isSome_none, Bool.or_false,
      Bool.false_eq_true, if_false, said, ih, List.append_assoc]

/-! ## The terminal chunk -/

def Open (l : List Chunk) : Prop := ∀ c ∈ l, c.isTerminal = false

theorem Open.nil : Open [] := List.forall_mem_nil _

theorem Open.append {l l' : List Chunk} (h : Open l) (h' : Open l') : Open (l ++ l') := by
  exact List.forall_mem_append.mpr ⟨h, h'⟩

theorem isTerminal_of_carries {c : Chunk} (h : c.carries = true) : c.isTerminal = false := by
  unfold Chunk.carries at h
  unfold Chunk.isTerminal
  cases ht : c.type with
  | done | error => rw [ht] at h; cases h
  | _ => rfl

theorem open_usageSends (u : Option Usage) : Open ((usageSends o u).map Send.chunk) :=
  forall_usageSends (fun _ => rfl) (fun _ => rfl) o u

theorem open_delta (vendor : Vendor) (g : Gathered) (d : Delta) : Open (g.delta vendor d).2 :=
  fun c hc => isTerminal_of_carries (carries_delta vendor g d c hc)

theorem open_finish : Open g.finish :=
  fun c hc => isTerminal_of_carries (carries_finish g c hc)

theorem chunks_more (herr : sr.error = none) (hfin : sr.finishes = false) :
    (processRecord o emitted g sr).chunks =
      (usageSends o sr.usage).map Send.chunk ++ (g.delta o.vendor sr.delta).2 := by
  rw [Plan.chunks, processRecord_ok o emitted g herr]
  simp only [hfin, Bool.false_eq_true, if_false]
  rw [List.map_append, map_chunk_musts]

theorem chunks_stop (herr : sr.error = none) (hfin : sr.finishes = true) :
    ∃ before, Open before ∧ (processRecord o emitted g sr).chunks = before ++ [doneChunk] := by
  refine ⟨(usageSends o sr.usage).map Send.chunk ++
    ((g.delta o.vendor sr.delta).2 ++ (g.delta o.vendor sr.delta).1.finish), ?_, ?_⟩
  · exact (open_usageSends o _).append ((open_delta _ _ _).append (open_finish _))
  · rw [Plan.chunks, processRecord_ok o emitted g herr]
    simp only [hfin, if_true]
    rw [List.map_append, List.map_append, map_chunk_musts, ← List.append_assoc]
    rfl

/-- How the chunks `l` of records relate to the open ones before the end. -/
def EndsAs (exit : Exit) (emitted : Bool) (before l : List Chunk) : Prop :=
  match exit with
  | .stop => l = before ++ [doneChunk]
  | .failed _ =>
    ∃ err, l = before ++ [errorChunk (some (streamErr (emitted || !before.isEmpty) err))]
  | _ => l = before

theorem said_shape {records : List StreamRecord} {exit : Exit}
    (h : Reads records exit) (g : Gathered) (emitted : Bool) :
    ∃ before, Open before ∧ EndsAs exit emitted before (said o records g emitted) := by
  induction h generalizing g emitted with
  | eof | done => exact ⟨[], Open.nil, rfl⟩
  | @stop sr herr hfin =>
    obtain ⟨before, hopen, hchunks⟩ := chunks_stop o emitted g herr hfin
    refine ⟨before, hopen, ?_⟩
    show said o [sr] g emitted = before ++ [doneChunk]
    rw [said, said, hchunks, List.append_nil]
  | @failed sr msg herr =>
    refine ⟨[], Open.nil, .other msg, ?_⟩
    rw [said, said, Plan.chunks, processRecord_error o emitted g herr]
    simp [Send.chunk]
  | @more sr rest exit herr hfin _ ih =>
    have hhere := chunks_more o emitted g herr hfin
    obtain ⟨before, hopen, hends⟩ := ih (processRecord o emitted g sr).gathered
      (emitted || !(processRecord o emitted g sr).chunks.isEmpty)
    refine ⟨(processRecord o emitted g sr).chunks ++ before, ?_, ?_⟩
    · refine Open.append ?_ hopen
      rw [hhere]
      exact (open_usageSends o _).append (open_delta _ _ _)
    · rw [said]
      cases exit with
      | eof | done => exact congrArg _ hends
      | stop => exact (congrArg _ hends).trans (List.append_assoc _ _ _).symm
      | failed e =>
        obtain ⟨err, herrs⟩ := hends
        refine ⟨err, ?_⟩
        rw [herrs, List.append_assoc]
        cases (processRecord o emitted g sr).chunks with
        | nil | cons => simp

/-! ## Silence -/

/-- The record puts nothing on the channel: no usage, no reasoning, no text the
splitter lets through, and no name that would announce a call. -/
def StreamRecord.silent (vendor : Vendor) (think : ThinkSplitter) (sr : StreamRecord) : Bool :=
  sr.usage.isNone && sr.delta.reasoningDelta.isEmpty &&
    (Gathered.splitContent vendor think sr.delta.content).2.thought.isEmpty &&
    (Gathered.splitContent vendor think sr.delta.content).2.visible.isEmpty &&
    sr.delta.toolCalls.all (fun tc => tc.name.isEmpty)

def silent (vendor : Vendor) : List StreamRecord → ThinkSplitter → Bool
  | [], _ => true
  | sr :: rest, think =>
    sr.silent vendor think &&
      silent vendor rest (Gathered.splitContent vendor think sr.delta.content).1

def Nameless (frags : List ToolCallDelta) : Prop := ∀ tc ∈ frags, tc.name = []

theorem Nameless.callOf (h : Nameless frags) (idx : Int) : (callOf frags idx).name = [] := by
  induction frags using List.reverseRecOn with
  | nil => rfl
  | append_singleton frags tc ih =>
    have hfrags : Nameless frags := fun t ht => h t (List.mem_append_left _ ht)
    rw [callOf_snoc]
    split
    · exact extend_name_eq_nil.mpr
        ⟨ih hfrags, h tc (List.mem_append_right _ List.mem_cons_self)⟩
    · exact ih hfrags

theorem announced_eq_nil (h : Nameless frags)
    (more : List ToolCallDelta) : Gathered.announced frags more = [] ↔ Nameless more := by
  induction more generalizing frags with
  | nil => exact ⟨fun _ tc htc => (nomatch htc), fun _ => rfl⟩
  | cons tc more ih =>
    have hnext : tc.name = [] → Nameless (frags ++ [tc]) := by
      intro hname t ht
      rcases List.mem_append.mp ht with ht | ht
      · exact h t ht
      · rw [List.mem_singleton] at ht
        subst ht
        exact hname
    rw [Gathered.announced, List.append_eq_nil_iff]
    constructor
    · rintro ⟨hhere, hlater⟩
      have hname : tc.name = [] := by
        by_contra hne
        rw [if_pos (Gathered.announces_iff.mpr ⟨h.callOf tc.index, hne⟩)] at hhere
        cases hhere
      exact List.forall_mem_cons.mpr ⟨hname, (ih (hnext hname)).mp hlater⟩
    · intro hmore
      have hname := hmore tc List.mem_cons_self
      refine ⟨if_neg fun hann => (Gathered.announces_iff.mp hann).2 hname, ?_⟩
      exact (ih (hnext hname)).mpr fun t ht => hmore t (List.mem_cons_of_mem _ ht)

theorem ifText_eq_nil {make : Str → Chunk} {text : Str} : ifText make text = [] ↔ text = [] := by
  unfold ifText
  split
  next h => exact ⟨fun _ => h, fun _ => rfl⟩
  next h => exact ⟨fun h' => absurd h' (by simp), fun h' => absurd h' h⟩

theorem chunks_eq_nil (hn : Nameless frags) (think : ThinkSplitter)
    (herr : sr.error = none) (hfin : sr.finishes = false) :
    (processRecord o emitted (.ofFragments frags think) sr).chunks = [] ↔
      sr.silent o.vendor think = true := by
  have husage : (usageSends o sr.usage).map Send.chunk = [] ↔ sr.usage.isNone = true := by
    cases sr.usage with
    | none => exact ⟨fun _ => rfl, fun _ => rfl⟩
    | some u => exact ⟨fun h => absurd h (by simp [usageSends]), fun h => nomatch h⟩
  rw [chunks_more o emitted _ herr hfin, Gathered.delta_ofFragments, StreamRecord.silent]
  simp only [List.append_eq_nil_iff, husage, ifText_eq_nil, announced_eq_nil hn,
    Bool.and_eq_true, List.isEmpty_iff, List.all_eq_true]
  constructor
  · rintro ⟨hu, ⟨hr, ht, hv⟩, hc⟩
    exact ⟨⟨⟨⟨hu, hr⟩, ht⟩, hv⟩, hc⟩
  · rintro ⟨⟨⟨⟨hu, hr⟩, ht⟩, hv⟩, hc⟩
    exact ⟨hu, ⟨hr, ht, hv⟩, hc⟩

theorem gathered_ofFragments (frags : List ToolCallDelta) (think : ThinkSplitter)
    {sr : StreamRecord} (herr : sr.error = none) :
    (processRecord o emitted (.ofFragments frags think) sr).gathered =
      .ofFragments (frags ++ sr.delta.toolCalls)
        (Gathered.splitContent o.vendor think sr.delta.content).1 := by
  rw [processRecord_ok o emitted _ herr, Gathered.delta_ofFragments]

theorem said_eq_nil {records : List StreamRecord} {exit : Exit}
    (h : Reads records exit) (hstop : exit ≠ .stop) (hfailed : ∀ err, exit ≠ .failed err)
    (hn : Nameless frags) (think : ThinkSplitter) (emitted : Bool) :
    said o records (.ofFragments frags think) emitted = [] ↔
      silent o.vendor records think = true := by
  induction h generalizing frags think emitted with
  | eof | done => exact ⟨fun _ => rfl, fun _ => rfl⟩
  | stop _ _ => exact absurd rfl hstop
  | failed _ => exact absurd rfl (hfailed _)
  | @more sr rest exit herr hfin _ ih =>
    have hhere := chunks_eq_nil o emitted hn think herr hfin
    rw [said, List.append_eq_nil_iff, hhere, silent, Bool.and_eq_true]
    refine and_congr_right ?_
    intro hq
    have hnames : Nameless (frags ++ sr.delta.toolCalls) := by
      intro tc htc
      rcases List.mem_append.mp htc with htc | htc
      · exact hn tc htc
      · have hall := (Bool.and_eq_true_iff.mp hq).2
        exact List.isEmpty_iff.mp (List.all_eq_true.mp hall tc htc)
    rw [gathered_ofFragments o emitted frags think herr]
    exact ih hstop hfailed hnames _ _

end MiniGoAgent
