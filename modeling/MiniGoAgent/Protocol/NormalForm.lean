/-
# `Protocol.NormalForm` — what the normaliser leaves alone, and what it keeps

A history is normalised again with every request, so the repairs have to be stable.
They are, because a repaired conversation gives them nothing to do: where the
results answer the calls (`Turns`), no name is missing that a result could supply,
either way of pairing finds each result in its place, and arguments that can be
sent are not touched.
So the loop alone computes `normalizeMessages` (`normalizeMessages_eq_loop`).

The second half says what the repairs keep of a history they do change.
`segments` cuts a history in front of every message that is no result; then the
loop works segment by segment (`segments_normalizeLoop`).
-/
import MiniGoAgent.Protocol.Conversation
import Mathlib.Data.List.Forall2
import Mathlib.Data.List.Nodup

open Go

namespace MiniGoAgent

variable {calls : List ToolCall} {m : Message}

/-! ## Results that answer their calls -/

theorem ids_of_idDistinctFrom {seen : List Str} (h : idDistinctFrom seen calls = true) :
    (calls.map ToolCall.id).Nodup ∧ ∀ tc ∈ calls, tc.id ∉ seen := by
  fun_induction idDistinctFrom seen calls with
  | case1 => simp
  | case2 | case3 => cases h
  | case4 seen tc rest _ hnew ih =>
    obtain ⟨hnodup, hunseen⟩ := ih h
    refine ⟨?_, ?_⟩
    · rw [List.map_cons, List.nodup_cons]
      refine ⟨?_, hnodup⟩
      intro hmem
      obtain ⟨tc', htc', hid⟩ := List.mem_map.mp hmem
      exact hunseen tc' htc' (by rw [hid]; exact List.mem_cons_self)
    · intro tc' htc'
      rcases List.mem_cons.mp htc' with rfl | htc'
      · simpa using hnew
      · exact fun hmem => hunseen tc' htc' (List.mem_cons_of_mem _ hmem)

theorem mapOf_eq_none {α β : Type} {key : α → Str} {val : α → β} {l : List α} {k : Str}
    (h : mapOf key val l k = none) : ∀ a ∈ l, key a ≠ k := by
  rw [mapOf_eq, Option.map_eq_none_iff, List.find?_eq_none] at h
  intro a ha
  simpa using h a (List.mem_reverse.mpr ha)

theorem mapOf_mem {α β : Type} {key : α → Str} {val : α → β} {l : List α}
    (hnodup : (l.map key).Nodup) {a : α} (ha : a ∈ l) : mapOf key val l (key a) = some (val a) := by
  cases hmap : mapOf key val l (key a) with
  | none => exact absurd rfl (mapOf_eq_none hmap a ha)
  | some b =>
    obtain ⟨a', ha', hkey, rfl⟩ := mapOf_some hmap
    rw [List.inj_on_of_nodup_map hnodup ha' ha hkey]

section Answers

variable {calls : List ToolCall} {results : List Message}
  (htags : results.map Message.tag = calls.map ToolCall.tag)

include htags

theorem forall₂_of_tags :
    List.Forall₂ (fun r tc => r.toolCallID = tc.id ∧ r.name = tc.name) results calls := by
  rw [← List.forall₂_eq_eq_eq, List.forall₂_map_left_iff, List.forall₂_map_right_iff] at htags
  exact htags.imp fun _ _ h => Prod.mk.inj h

theorem map_pairByID {byID : Str → Option Message}
    (hfound : ∀ r ∈ results, byID r.toolCallID = some r) : calls.map (pairByID byID) = results := by
  induction forall₂_of_tags htags with
  | nil => rfl
  | cons hhead _ ih =>
    obtain ⟨hid, hname⟩ := hhead
    rw [List.map_cons, ih (List.cons.inj htags).2 (List.forall_mem_cons.mp hfound).2]
    rw [pairByID, ← hid, hfound _ List.mem_cons_self, ← hname]

theorem pairByPosition_of_tags :
    pairByPosition calls results = results := by
  induction forall₂_of_tags htags with
  | nil => rfl
  | cons hhead _ ih => rw [pairByPosition, ih (List.cons.inj htags).2, ← hhead.1, ← hhead.2]

theorem ids_of_tags :
    results.map Message.toolCallID = calls.map ToolCall.id := by
  have hids := congrArg (List.map Prod.fst) htags
  rw [List.map_map, List.map_map] at hids
  exact hids

theorem pairToolResults_of_tags :
    pairToolResults calls results = results := by
  fun_cases pairToolResults calls results
  case case1 hdistinct =>
    refine map_pairByID htags ?_
    intro r hr
    have hnodup : (results.map Message.toolCallID).Nodup := by
      rw [ids_of_tags htags]
      exact (ids_of_idDistinctFrom hdistinct).1
    exact mapOf_mem hnodup hr
  case case2 => exact pairByPosition_of_tags htags

theorem backfillByPosition_of_tags :
    backfillByPosition calls results = calls := by
  induction forall₂_of_tags htags with
  | nil => rfl
  | cons hhead _ ih =>
    rw [backfillByPosition, ih (List.cons.inj htags).2, hhead.2]
    split <;> rfl

theorem backfillToolCallNames_of_tags :
    backfillToolCallNames calls results = calls := by
  fun_cases backfillToolCallNames calls results
  case case1 hdistinct =>
    have hnodup := (ids_of_idDistinctFrom hdistinct).1
    have hsame : ∀ tc ∈ calls, backfillByID
        (mapOf (·.toolCallID) (·.name) (results.filter (fun r => r.name ≠ []))) tc = tc := by
      intro tc htc
      fun_cases backfillByID _ tc
      case case1 hempty n hn =>
        obtain ⟨r, hr, hid, rfl⟩ := mapOf_some hn
        obtain ⟨hr, hname⟩ := List.mem_filter.mp hr
        have htag : r.tag ∈ calls.map ToolCall.tag := by
          rw [← htags]
          exact List.mem_map_of_mem hr
        obtain ⟨tc', htc', heq⟩ := List.mem_map.mp htag
        simp only [ToolCall.tag, Message.tag, Prod.mk.injEq] at heq
        obtain rfl : tc' = tc := List.inj_on_of_nodup_map hnodup htc' htc (heq.1.trans hid)
        rw [← heq.2] at hname
        exact absurd hempty (by simpa using hname)
      all_goals rfl
    rw [List.map_congr_left hsame, List.map_id']
  case case2 => exact backfillByPosition_of_tags htags
  case case3 => rfl

end Answers

/-! ## Fixed points -/

theorem repairToolCallArgs_of_argsOk (h : ∀ tc ∈ m.toolCalls, tc.ArgsOk) :
    repairToolCallArgs m = m := by
  have hnone : needsArgRepair m.toolCalls = false := by
    rw [needsArgRepair, List.any_eq_false]
    intro tc htc
    rcases h tc htc with hempty | hvalid
    · simp [ToolCall.broken, hempty]
    · simp [ToolCall.broken, hvalid]
  rw [repairToolCallArgs, if_neg (by simp [hnone])]

namespace Turns

variable {msgs : List Message}

theorem dropWhile_eq (h : Turns msgs) : msgs.dropWhile Message.isTool = msgs := by
  have hsplit := List.takeWhile_append_dropWhile (p := Message.isTool) (l := msgs)
  rwa [h.takeWhile_nil, List.nil_append] at hsplit

theorem normalizeLoop_eq (h : Turns msgs) : normalizeLoop msgs = msgs := by
  induction h with
  | nil => rw [normalizeLoop]
  | plain hturn htool _ ih =>
    rw [normalizeLoop, if_neg (by simp [hturn]), if_neg (by simp [htool]), ih]
  | @turn m results rest hturn htools htags hargs hrest ih =>
    have hresults : (results ++ rest).takeWhile Message.isTool = results := by
      rw [List.takeWhile_append_of_pos htools, hrest.takeWhile_nil, List.append_nil]
    have hbehind : (results ++ rest).dropWhile Message.isTool = rest := by
      rw [List.dropWhile_append_of_pos htools, hrest.dropWhile_eq]
    rw [normalizeLoop, if_pos hturn]
    simp only [hresults, hbehind, backfillToolCallNames_of_tags htags,
      pairToolResults_of_tags htags, repairToolCallArgs_of_argsOk hargs, ih]

end Turns

theorem normalizeMessages_eq_loop (msgs : List Message) :
    normalizeMessages msgs = normalizeLoop msgs := by
  fun_cases normalizeMessages msgs
  case case1 hfast => exact (turns_of_tryFastPath msgs hfast).normalizeLoop_eq.symm
  case case2 => rfl

/-- What the fast path lets through, the loop returns as it is, and so it makes no
difference which of them is taken. -/
theorem tryFastPath_unchanged (msgs : List Message) (h : tryFastPath msgs = true) :
    normalizeLoop msgs = msgs ∧ normalizeMessages msgs = normalizeLoop msgs :=
  ⟨(turns_of_tryFastPath msgs h).normalizeLoop_eq, normalizeMessages_eq_loop msgs⟩

/-- Two calls under one ID, answered in order. -/
def repeatedIDs : List Message :=
  [{ role := roleUser, content := lit "list both" },
   { role := roleAssistant,
     toolCalls := [{ id := lit "a", name := lit "ls" }, { id := lit "a", name := lit "ls" }] },
   { role := roleTool, toolCallID := lit "a", name := lit "ls", content := lit "x" },
   { role := roleTool, toolCallID := lit "a", name := lit "ls", content := lit "y" }]

theorem tryFastPath_repeatedIDs : tryFastPath repeatedIDs = true := by
  rw [repeatedIDs, tryFastPath, if_neg (by decide), if_neg (by decide), tryFastPath,
    if_pos (by decide), if_neg (by decide +kernel)]
  exact tryFastPath.eq_1

theorem tryFastPath_unchanged_repeatedIDs :
    tryFastPath repeatedIDs = true ∧ normalizeLoop repeatedIDs = repeatedIDs :=
  ⟨tryFastPath_repeatedIDs, (tryFastPath_unchanged repeatedIDs tryFastPath_repeatedIDs).1⟩

/-- Normalising a second time changes nothing. -/
theorem normalizeMessages_idem (msgs : List Message) :
    normalizeMessages (normalizeMessages msgs) = normalizeMessages msgs := by
  rw [normalizeMessages_eq_loop (normalizeMessages msgs)]
  exact (turns_normalizeMessages msgs).normalizeLoop_eq

/-! ## Segments -/

/-- A history cut in front of every message that is no result: the results before the
first of these, and each of these with the results behind it. -/
def segments : List Message → List Message × List (Message × List Message)
  | [] => ([], [])
  | m :: rest =>
    if m.isTool then (m :: (segments rest).1, (segments rest).2)
    else ([], (m, (segments rest).1) :: (segments rest).2)

/-- A history is put together from `front` and `segs`. -/
structure Segmented (msgs front : List Message) (segs : List (Message × List Message)) : Prop where
  joined : front ++ segs.flatMap (fun s => s.1 :: s.2) = msgs
  front : ∀ r ∈ front, r.isTool = true
  heads : ∀ s ∈ segs, s.1.isTool = false
  results : ∀ s ∈ segs, ∀ r ∈ s.2, r.isTool = true

theorem segments_tool (h : m.isTool = true) (rest : List Message) :
    segments (m :: rest) = (m :: (segments rest).1, (segments rest).2) :=
  if_pos h

theorem segments_other (h : m.isTool = false) (rest : List Message) :
    segments (m :: rest) = ([], (m, (segments rest).1) :: (segments rest).2) :=
  if_neg (by simp [h])

theorem segmented_segments (msgs : List Message) :
    Segmented msgs (segments msgs).1 (segments msgs).2 := by
  induction msgs with
  | nil => exact ⟨rfl, by simp [segments], by simp [segments], by simp [segments]⟩
  | cons m rest ih =>
    cases htool : m.isTool with
    | true =>
      rw [segments_tool htool]
      exact ⟨by rw [List.cons_append, ih.joined], List.forall_mem_cons.mpr ⟨htool, ih.front⟩,
        ih.heads, ih.results⟩
    | false =>
      rw [segments_other htool]
      refine ⟨?_, by simp, ?_, ?_⟩
      · rw [List.nil_append, List.flatMap_cons, List.cons_append, ih.joined]
      · exact List.forall_mem_cons.mpr ⟨htool, ih.heads⟩
      · exact List.forall_mem_cons.mpr ⟨ih.front, ih.results⟩

theorem segments_results {results : List Message} (h : ∀ r ∈ results, r.isTool = true)
    (rest : List Message) :
    segments (results ++ rest) = (results ++ (segments rest).1, (segments rest).2) := by
  induction results with
  | nil => rfl
  | cons r results ih =>
    rw [List.cons_append, segments_tool (h r List.mem_cons_self),
      ih (fun r' hr' => h r' (List.mem_cons_of_mem _ hr'))]
    rfl

theorem segments_eq (msgs : List Message) :
    (segments msgs).1 = msgs.takeWhile Message.isTool ∧
      (segments msgs).2 = (segments (msgs.dropWhile Message.isTool)).2 := by
  induction msgs with
  | nil => exact ⟨rfl, rfl⟩
  | cons m rest ih =>
    cases htool : m.isTool with
    | true =>
      rw [segments_tool htool, List.takeWhile_cons_of_pos htool,
        List.dropWhile_cons_of_pos htool, ih.1]
      exact ⟨rfl, ih.2⟩
    | false =>
      have hnot : ¬ m.isTool = true := by simp [htool]
      rw [List.takeWhile_cons_of_neg hnot, List.dropWhile_cons_of_neg hnot,
        segments_other htool]
      exact ⟨rfl, rfl⟩

theorem map_fst_segments (msgs : List Message) :
    (segments msgs).2.map Prod.fst = msgs.filter (fun m => !m.isTool) := by
  induction msgs with
  | nil => rfl
  | cons m rest ih =>
    cases htool : m.isTool with
    | true => rw [segments_tool htool, List.filter_cons_of_neg (by simp [htool]), ih]
    | false =>
      rw [segments_other htool, List.filter_cons_of_pos (by simp [htool]), List.map_cons, ih]

/-! ## What the repairs keep -/

/-- What no repair of a call changes: all but its name and its arguments. -/
def ToolCall.frame (tc : ToolCall) : Str × Str := (tc.id, tc.type)

/-- Only names and arguments of the calls of a turn differ. -/
structure Refilled (m m' : Message) : Prop where
  fields : { m' with toolCalls := m.toolCalls } = m
  calls : m'.toolCalls.map ToolCall.frame = m.toolCalls.map ToolCall.frame
  plain : m.isTurn = false → m' = m

/-- The answers to the calls of a turn, from the results behind it: `origin` says which
result the answer to a call was made from, if it was made from one. -/
structure Answered (calls : List ToolCall) (results answers : List Message)
    (origin : Nat → Option Nat) : Prop where
  length : answers.length = calls.length
  answer : ∀ n tc, calls[n]? = some tc →
    (origin n = none ∧ answers[n]? = some (placeholder tc)) ∨
      ∃ p q, origin n = some p ∧ results[p]? = some q ∧
        answers[n]? = some { q with toolCallID := tc.id, name := tc.name }
  /-- no result is used twice -/
  once : ∀ n n' p, n < calls.length → n' < calls.length →
    origin n = some p → origin n' = some p → n = n'
  /-- a result under the ID of its call is found -/
  found : (calls.map ToolCall.id).Nodup → (∀ tc ∈ calls, tc.id ≠ []) →
    ∀ n tc, calls[n]? = some tc → (∃ r ∈ results, r.toolCallID = tc.id) →
      ∃ p q, origin n = some p ∧ results[p]? = some q ∧ q.toolCallID = tc.id

structure SegmentKept (s s' : Message × List Message) : Prop where
  refilled : Refilled s.1 s'.1
  turn : s.1.isTurn = true → ∃ origin, Answered s'.1.toolCalls s.2 s'.2 origin
  plain : s.1.isTurn = false → s'.2 = []

theorem idDistinctFrom_of_nodup {seen : List Str}
    (hnodup : (calls.map ToolCall.id).Nodup) (hids : ∀ tc ∈ calls, tc.id ≠ [])
    (hseen : ∀ tc ∈ calls, tc.id ∉ seen) : idDistinctFrom seen calls = true := by
  induction calls generalizing seen with
  | nil => rfl
  | cons tc calls ih =>
    rw [List.map_cons, List.nodup_cons] at hnodup
    rw [idDistinctFrom, if_neg (by simpa using hids tc List.mem_cons_self),
      if_neg (by simpa using hseen tc List.mem_cons_self)]
    refine ih hnodup.2 (fun tc' htc' => hids tc' (List.mem_cons_of_mem _ htc')) ?_
    intro tc' htc' hmem
    rcases List.mem_cons.mp hmem with hid | hmem
    · exact hnodup.1 (List.mem_map.mpr ⟨tc', htc', hid⟩)
    · exact hseen tc' (List.mem_cons_of_mem _ htc') hmem

section Pairing

variable (calls : List ToolCall) (results : List Message)

theorem answered_pairByID (hdistinct : idDistinct calls = true) :
    ∃ origin, Answered calls results
      (calls.map (pairByID (mapOf (·.toolCallID) id results))) origin := by
  have hnodup := (ids_of_idDistinctFrom hdistinct).1
  have hpick : ∀ tc : ToolCall, ∃ o : Option Nat,
      (o = none ∧ mapOf (·.toolCallID) id results tc.id = none) ∨
        ∃ p q, o = some p ∧ results[p]? = some q ∧ q.toolCallID = tc.id ∧
          mapOf (·.toolCallID) id results tc.id = some q := by
    intro tc
    cases hmap : mapOf (·.toolCallID) id results tc.id with
    | none => exact ⟨none, Or.inl ⟨rfl, rfl⟩⟩
    | some q =>
      obtain ⟨a, ha, hid, rfl⟩ := mapOf_some hmap
      obtain ⟨p, hp⟩ := List.mem_iff_getElem?.mp ha
      exact ⟨some p, Or.inr ⟨p, a, rfl, hp, hid, rfl⟩⟩
  choose pick hpick using hpick
  obtain ⟨origin, horigin⟩ : ∃ origin : Nat → Option Nat, ∀ n tc, calls[n]? = some tc →
      origin n = pick tc := ⟨fun n => calls[n]?.bind pick, fun n tc hn => congrArg (·.bind pick) hn⟩
  have horigin := fun n tc hn => horigin n tc hn ▸ hpick tc
  refine ⟨origin, List.length_map _, ?_, ?_, ?_⟩
  · intro n tc hn
    rw [List.getElem?_map, hn, Option.map_some, pairByID]
    rcases horigin n tc hn with ⟨ho, hmap⟩ | ⟨p, q, ho, hp, hid, hmap⟩
    · exact Or.inl ⟨ho, by rw [hmap]⟩
    · exact Or.inr ⟨p, q, ho, hp, by rw [hmap, ← hid]⟩
  · intro n n' p hn hn' ho ho'
    rcases horigin n _ (List.getElem?_eq_getElem hn) with ⟨hnone, _⟩ | ⟨p₁, q, ho₁, hp, hid, _⟩
    · rw [ho] at hnone
      cases hnone
    · rcases horigin n' _ (List.getElem?_eq_getElem hn') with
        ⟨hnone, _⟩ | ⟨p₂, q', ho₂, hp', hid', _⟩
      · rw [ho'] at hnone
        cases hnone
      · -- one result has one ID, and the calls have different ones
        rw [ho, Option.some.injEq] at ho₁
        rw [ho', Option.some.injEq] at ho₂
        subst ho₁ ho₂
        rw [hp, Option.some.injEq] at hp'
        subst hp'
        refine (List.getElem?_inj (by simpa using hn) hnodup).mp ?_
        rw [List.getElem?_map, List.getElem?_map, List.getElem?_eq_getElem hn,
          List.getElem?_eq_getElem hn', Option.map_some, Option.map_some, ← hid, ← hid']
  · intro _ _ n tc hn hex
    rcases horigin n tc hn with ⟨_, hnone⟩ | ⟨p, q, ho, hp, hid, _⟩
    · obtain ⟨r, hr, hrid⟩ := hex
      exact absurd hrid (mapOf_eq_none hnone r hr)
    · exact ⟨p, q, ho, hp, hid⟩

theorem length_pairByPosition : (pairByPosition calls results).length = calls.length := by
  fun_induction pairByPosition calls results with
  | case1 => rfl
  | case2 _ _ ih | case3 _ _ _ _ ih => rw [List.length_cons, List.length_cons, ih]

theorem getElem?_pairByPosition {n : Nat} {tc : ToolCall} (hn : calls[n]? = some tc) :
    (results[n]? = none ∧ (pairByPosition calls results)[n]? = some (placeholder tc)) ∨
      ∃ q, results[n]? = some q ∧
        (pairByPosition calls results)[n]? =
          some { q with toolCallID := tc.id, name := tc.name } := by
  induction calls generalizing results n with
  | nil => cases hn
  | cons tc₀ calls ih =>
    cases n with
    | zero =>
      rw [List.getElem?_cons_zero, Option.some.injEq] at hn
      subst hn
      cases results with
      | nil => exact Or.inl ⟨rfl, rfl⟩
      | cons q results => exact Or.inr ⟨q, rfl, rfl⟩
    | succ n =>
      rw [List.getElem?_cons_succ] at hn
      cases results with
      | nil =>
        rw [pairByPosition, List.getElem?_cons_succ]
        simpa using ih [] hn
      | cons q results =>
        rw [pairByPosition, List.getElem?_cons_succ, List.getElem?_cons_succ]
        exact ih results hn

theorem answered_pairByPosition (hsame : idDistinct calls = false) :
    Answered calls results (pairByPosition calls results)
      (fun n => if n < results.length then some n else none) := by
  refine ⟨length_pairByPosition calls results, ?_, ?_, ?_⟩
  · intro n tc hn
    rcases getElem?_pairByPosition calls results hn with ⟨hnone, hout⟩ | ⟨q, hq, hout⟩
    · rw [List.getElem?_eq_none_iff] at hnone
      exact Or.inl ⟨if_neg (Nat.not_lt.mpr hnone), hout⟩
    · exact Or.inr ⟨n, q, if_pos (List.getElem?_eq_some_iff.mp hq).1, hq, hout⟩
  · intro n n' p _ _ ho ho'
    rw [Option.ite_none_right_eq_some, Option.some.injEq] at ho ho'
    rw [ho.2, ho'.2]
  · intro hnodup hids
    have hdistinct : idDistinct calls = true :=
      idDistinctFrom_of_nodup hnodup hids (fun _ _ => List.not_mem_nil)
    rw [hsame] at hdistinct
    cases hdistinct

theorem answered_pairToolResults :
    ∃ origin, Answered calls results (pairToolResults calls results) origin := by
  fun_cases pairToolResults calls results
  case case1 hdistinct => exact answered_pairByID calls results hdistinct
  case case2 hsame => exact ⟨_, answered_pairByPosition calls results (by simpa using hsame)⟩

end Pairing

theorem Answered.of_tags {calls' : List ToolCall} {results answers : List Message}
    {origin : Nat → Option Nat} (htags : calls'.map ToolCall.tag = calls.map ToolCall.tag)
    (h : Answered calls results answers origin) : Answered calls' results answers origin := by
  have hlen : calls'.length = calls.length := by
    have hmap := congrArg List.length htags
    simpa using hmap
  have hids : calls'.map ToolCall.id = calls.map ToolCall.id := by
    have hmap := congrArg (List.map Prod.fst) htags
    rw [List.map_map, List.map_map] at hmap
    exact hmap
  have hcall : ∀ (n : Nat) (tc' : ToolCall), calls'[n]? = some tc' →
      ∃ tc : ToolCall, calls[n]? = some tc ∧ tc.id = tc'.id ∧ tc.name = tc'.name := by
    intro n tc' hn
    have hmap := congrArg (fun l => l[n]?) htags
    simp only [List.getElem?_map, hn, Option.map_some] at hmap
    obtain ⟨tc, htc, heq⟩ := Option.map_eq_some_iff.mp hmap.symm
    simp only [ToolCall.tag, Prod.mk.injEq] at heq
    exact ⟨tc, htc, heq.1, heq.2⟩
  refine ⟨by rw [h.length, hlen], ?_, ?_, ?_⟩
  · intro n tc' hn
    obtain ⟨tc, htc, hid, hname⟩ := hcall n tc' hn
    have hanswer := h.answer n tc htc
    rw [placeholder, hid, hname] at hanswer
    exact hanswer
  · intro n n' p hn hn'
    rw [hlen] at hn hn'
    exact h.once n n' p hn hn'
  · intro hnodup hne n tc' hn hex
    obtain ⟨tc, htc, hid, _⟩ := hcall n tc' hn
    rw [← hid] at hex ⊢
    refine h.found (hids ▸ hnodup) ?_ n tc htc hex
    intro tc₁ htc₁ hnil
    have hmem : tc₁.id ∈ calls'.map ToolCall.id := hids ▸ List.mem_map_of_mem htc₁
    obtain ⟨tc₂, htc₂, heq⟩ := List.mem_map.mp hmem
    exact hne tc₂ htc₂ (heq.trans hnil)

theorem backfillByID_frame (byID : Str → Option Str) (tc : ToolCall) :
    (backfillByID byID tc).frame = tc.frame := by
  fun_cases backfillByID byID tc <;> rfl

theorem backfillByPosition_frames (calls : List ToolCall) (results : List Message) :
    (backfillByPosition calls results).map ToolCall.frame = calls.map ToolCall.frame := by
  fun_induction backfillByPosition calls results with
  | case1 => rfl
  | case2 _ _ ih => rw [List.map_cons, List.map_cons, ih]
  | case3 _ _ _ _ ih =>
    rw [List.map_cons, List.map_cons, ih]
    split <;> rfl

theorem backfillToolCallNames_frames (calls : List ToolCall) (results : List Message) :
    (backfillToolCallNames calls results).map ToolCall.frame = calls.map ToolCall.frame := by
  fun_cases backfillToolCallNames calls results
  case case1 =>
    rw [List.map_map]
    exact List.map_congr_left (fun tc _ => backfillByID_frame _ tc)
  case case2 => exact backfillByPosition_frames calls results
  case case3 => rfl

theorem repairToolCallArgs_frames (m : Message) :
    (repairToolCallArgs m).toolCalls.map ToolCall.frame = m.toolCalls.map ToolCall.frame := by
  fun_cases repairToolCallArgs m
  case case1 =>
    rw [List.map_map]
    refine List.map_congr_left ?_
    intro tc _
    show tc.repair.frame = tc.frame
    fun_cases ToolCall.repair tc <;> rfl
  case case2 => rfl

theorem repairToolCallArgs_fields (m : Message) (calls : List ToolCall) :
    { repairToolCallArgs m with toolCalls := calls } = { m with toolCalls := calls } := by
  fun_cases repairToolCallArgs m <;> rfl

theorem segmentKept_turn (hturn : m.isTurn = true) (results : List Message) :
    SegmentKept (m, results)
      (repairToolCallArgs { m with toolCalls := backfillToolCallNames m.toolCalls results },
        pairToolResults (backfillToolCallNames m.toolCalls results) results) := by
  have hno : m.isTurn = false → False := by simp [hturn]
  refine ⟨⟨?_, ?_, fun h => (hno h).elim⟩, ?_, fun h => (hno h).elim⟩
  · rw [repairToolCallArgs_fields]
  · rw [repairToolCallArgs_frames, backfillToolCallNames_frames]
  · intro _
    obtain ⟨origin, hanswered⟩ :=
      answered_pairToolResults (backfillToolCallNames m.toolCalls results) results
    exact ⟨origin, hanswered.of_tags (repairToolCallArgs_tags
      { m with toolCalls := backfillToolCallNames m.toolCalls results })⟩

theorem segmentKept_plain (hturn : m.isTurn = false) (results : List Message) :
    SegmentKept (m, results) (m, []) := by
  refine ⟨⟨rfl, rfl, fun _ => rfl⟩, ?_, fun _ => rfl⟩
  intro h
  rw [hturn] at h
  cases h

theorem front_normalizeLoop (msgs : List Message) : (segments (normalizeLoop msgs)).1 = [] := by
  rw [(segments_eq _).1, (turns_normalizeLoop msgs).takeWhile_nil]

theorem segments_normalizeLoop (msgs : List Message) :
    List.Forall₂ SegmentKept (segments msgs).2 (segments (normalizeLoop msgs)).2 := by
  fun_induction normalizeLoop msgs with
  | case1 => exact .nil
  | case2 m rest hturn results calls ih =>
    have hrepaired : (repairToolCallArgs { m with toolCalls := calls }).isTool = false := by
      have hother : m.isTool = false := not_isTool_of_isTurn hturn
      rw [Message.isTool, repairToolCallArgs_role]
      exact hother
    have htools : ∀ r ∈ pairToolResults calls results, r.isTool = true :=
      (pairToolResults_spec calls (fun r hr => List.mem_takeWhile_imp hr)).1
    rw [segments_other (not_isTool_of_isTurn hturn), segments_other hrepaired,
      segments_results htools, front_normalizeLoop, List.append_nil, (segments_eq rest).1,
      (segments_eq rest).2]
    exact .cons (segmentKept_turn hturn results) ih
  | case3 m rest hturn htool ih =>
    rw [segments_tool htool]
    exact ih
  | case4 m rest hturn htool ih =>
    have hother : m.isTool = false := by simpa using htool
    rw [segments_other hother, segments_other hother, front_normalizeLoop]
    exact .cons (segmentKept_plain (by simpa using hturn) _) ih

/-- Normalising neither invents nor duplicates.  The messages that are no results stay,
in their order and but for names and arguments of calls.  Each of them has behind it,
if it is a turn, an answer for each of its calls, made from results that stood behind it
or from none; otherwise nothing. -/
theorem normalizeMessages_kept (msgs : List Message) :
    List.Forall₂ Refilled (msgs.filter (fun m => !m.isTool))
        ((normalizeMessages msgs).filter (fun m => !m.isTool)) ∧
      ∃ front segs segs', Segmented msgs front segs ∧ Segmented (normalizeMessages msgs) [] segs' ∧
        List.Forall₂ SegmentKept segs segs' := by
  rw [normalizeMessages_eq_loop]
  have hkept := segments_normalizeLoop msgs
  refine ⟨?_, (segments msgs).1, (segments msgs).2, (segments (normalizeLoop msgs)).2,
    segmented_segments msgs, ?_, hkept⟩
  · rw [← map_fst_segments, ← map_fst_segments, List.forall₂_map_left_iff,
      List.forall₂_map_right_iff]
    exact hkept.imp (fun _ _ h => h.refilled)
  · have hout := segmented_segments (normalizeLoop msgs)
    rwa [front_normalizeLoop] at hout

end MiniGoAgent
