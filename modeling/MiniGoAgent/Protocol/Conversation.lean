/-
# `Protocol.Conversation` — what `normalizeMessages` hands to the provider

A provider accepts a history when it is a *tool conversation*:

    every assistant message with calls is followed at once by exactly its
    results, in the order of its calls, under their IDs and names;
    there is no other tool message;
    the arguments of every call are empty or valid JSON.

`WellFormed` says this message by message, by position.  `Turns` says the same
by the grammar a conversation is built with, and is what the proofs produce:

    conversation ::= ε | plain conversation | turn result … result conversation

`Turns.wellFormed` connects the two.
-/
import Mathlib.Data.List.TakeWhile
import MiniGoAgent.Protocol.Normalize

open Go

namespace MiniGoAgent

variable (msgs : List Message) (calls : List ToolCall)

variable {avail out : List Message} {m : Message}

/-- What ties a result to its call. -/
def ToolCall.tag (tc : ToolCall) : Str × Str := (tc.id, tc.name)

/-- What ties a result to its call, on the side of the result. -/
def Message.tag (m : Message) : Str × Str := (m.toolCallID, m.name)

def ToolCall.ArgsOk (tc : ToolCall) : Prop := tc.arguments = [] ∨ Json.valid tc.arguments = true

/-- A tool conversation, position by position. -/
structure WellFormed (out : List Message) : Prop where
  /-- the tool messages right behind a turn are its answers, one for each call -/
  answered : ∀ (i : Nat) (m : Message), out[i]? = some m →
    m.role = roleAssistant → m.toolCalls ≠ [] →
    ((out.drop (i + 1)).takeWhile Message.isTool).map Message.tag = m.toolCalls.map ToolCall.tag
  /-- a tool message stands among the answers of a turn -/
  owned : ∀ (i : Nat) (m : Message), out[i]? = some m → m.role = roleTool →
    ∃ (j : Nat) (t : Message), out[j]? = some t ∧ t.role = roleAssistant ∧
      j < i ∧ i ≤ j + t.toolCalls.length
  /-- every call of a turn has arguments that can be sent -/
  args : ∀ m ∈ out, m.role = roleAssistant → ∀ tc ∈ m.toolCalls, tc.ArgsOk

/-- A tool conversation, by its grammar. -/
inductive Turns : List Message → Prop
  | nil : Turns []
  | plain {m : Message} {rest : List Message} :
      m.isTurn = false → m.isTool = false → Turns rest → Turns (m :: rest)
  | turn {m : Message} {results rest : List Message} :
      m.isTurn = true → (∀ r ∈ results, r.isTool = true) →
      results.map Message.tag = m.toolCalls.map ToolCall.tag →
      (∀ tc ∈ m.toolCalls, tc.ArgsOk) → Turns rest → Turns (m :: (results ++ rest))

/-! ## Roles -/

theorem isTool_iff : m.isTool = true ↔ m.role = roleTool := by
  simp [Message.isTool]

theorem isTurn_iff : m.isTurn = true ↔ m.role = roleAssistant ∧ m.toolCalls ≠ [] := by
  simp [Message.isTurn]

theorem not_isTool_of_isTurn (h : m.isTurn = true) : m.isTool = false := by
  have hr := (isTurn_iff.mp h).1
  simp [Message.isTool, hr, roleAssistant_ne_roleTool]

theorem Turns.takeWhile_nil (h : Turns out) : out.takeWhile Message.isTool = [] := by
  cases h with
  | nil => rfl
  | plain _ hm _ => simp [hm]
  | turn hm _ _ _ _ => simp [not_isTool_of_isTurn hm]

/-! ## From the grammar to positions -/

theorem Turns.answered (h : Turns out) :
    ∀ (i : Nat) (m : Message), out[i]? = some m →
      m.role = roleAssistant → m.toolCalls ≠ [] →
      ((out.drop (i + 1)).takeWhile Message.isTool).map Message.tag =
        m.toolCalls.map ToolCall.tag := by
  induction h with
  | nil => intro i m hi; simp at hi
  | @plain m₀ rest hturn _ _ ih =>
    intro i m hi hr hc
    cases i with
    | zero =>
      simp only [List.getElem?_cons_zero, Option.some.injEq] at hi
      subst hi
      rw [isTurn_iff.mpr ⟨hr, hc⟩] at hturn
      cases hturn
    | succ i => exact ih i m (by simpa using hi) hr hc
  | @turn m₀ results rest hturn htool htags _ hrest ih =>
    intro i m hi hr hc
    cases i with
    | zero =>
      simp only [List.getElem?_cons_zero, Option.some.injEq] at hi
      subst hi
      have hblock : (results ++ rest).takeWhile Message.isTool = results := by
        rw [List.takeWhile_append_of_pos htool, hrest.takeWhile_nil, List.append_nil]
      rw [List.drop_succ_cons, List.drop_zero, hblock]
      exact htags
    | succ i =>
      rw [List.getElem?_cons_succ] at hi
      rw [List.drop_succ_cons]
      by_cases hlt : i < results.length
      · -- inside the answers there is no turn
        rw [List.getElem?_append_left hlt] at hi
        have hm : m.isTool = true := htool m (List.mem_of_getElem? hi)
        rw [not_isTool_of_isTurn (isTurn_iff.mpr ⟨hr, hc⟩)] at hm
        cases hm
      · have hle : results.length ≤ i := Nat.le_of_not_lt hlt
        rw [List.getElem?_append_right hle] at hi
        have hdrop : (results ++ rest).drop (i + 1) = rest.drop (i - results.length + 1) := by
          rw [List.drop_append, List.drop_eq_nil_of_le (by omega), List.nil_append]
          congr 1
          omega
        rw [hdrop]
        exact ih (i - results.length) m hi hr hc

theorem Turns.owned (h : Turns out) :
    ∀ (i : Nat) (m : Message), out[i]? = some m → m.role = roleTool →
      ∃ (j : Nat) (t : Message), out[j]? = some t ∧ t.role = roleAssistant ∧
        j < i ∧ i ≤ j + t.toolCalls.length := by
  induction h with
  | nil => intro i m hi; simp at hi
  | @plain m₀ rest _ htool _ ih =>
    intro i m hi hr
    cases i with
    | zero =>
      simp only [List.getElem?_cons_zero, Option.some.injEq] at hi
      subst hi
      rw [isTool_iff.mpr hr] at htool
      cases htool
    | succ i =>
      obtain ⟨j, t, hj, ht, hlt, hle⟩ := ih i m (by simpa using hi) hr
      exact ⟨j + 1, t, by simpa using hj, ht, by omega, by omega⟩
  | @turn m₀ results rest hturn _ htags _ _ ih =>
    intro i m hi hr
    have hlen : results.length = m₀.toolCalls.length := by
      have := congrArg List.length htags
      simpa using this
    cases i with
    | zero =>
      simp only [List.getElem?_cons_zero, Option.some.injEq] at hi
      subst hi
      have hm := not_isTool_of_isTurn hturn
      rw [isTool_iff.mpr hr] at hm
      cases hm
    | succ i =>
      rw [List.getElem?_cons_succ] at hi
      by_cases hlt : i < results.length
      · exact ⟨0, m₀, rfl, (isTurn_iff.mp hturn).1, by omega, by omega⟩
      · have hle : results.length ≤ i := Nat.le_of_not_lt hlt
        rw [List.getElem?_append_right hle] at hi
        obtain ⟨j, t, hj, ht, hjlt, hjle⟩ := ih (i - results.length) m hi hr
        refine ⟨j + results.length + 1, t, ?_, ht, by omega, by omega⟩
        rw [List.getElem?_cons_succ, List.getElem?_append_right (by omega)]
        rwa [Nat.add_sub_cancel]

theorem Turns.args (h : Turns out) :
    ∀ m ∈ out, m.role = roleAssistant → ∀ tc ∈ m.toolCalls, tc.ArgsOk := by
  induction h with
  | nil => intro m hm; simp at hm
  | @plain m₀ rest hturn _ _ ih =>
    intro m hm hr tc htc
    rcases List.mem_cons.mp hm with rfl | hm
    · have hne : m.toolCalls ≠ [] := List.ne_nil_of_mem htc
      rw [isTurn_iff.mpr ⟨hr, hne⟩] at hturn
      cases hturn
    · exact ih m hm hr tc htc
  | @turn m₀ results rest _ htool _ hargs _ ih =>
    intro m hm hr tc htc
    rcases List.mem_cons.mp hm with rfl | hm
    · exact hargs tc htc
    · rcases List.mem_append.mp hm with hm | hm
      · have hrole := isTool_iff.mp (htool m hm)
        rw [hr] at hrole
        exact absurd hrole roleAssistant_ne_roleTool
      · exact ih m hm hr tc htc

theorem Turns.wellFormed (h : Turns out) : WellFormed out :=
  ⟨h.answered, h.owned, h.args⟩

/-! ## The repairs -/

theorem valid_or_braces (out : Str) :
    Json.valid (if Json.valid out then out else lit "\x7b\x7d") = true := by
  split
  case isTrue h => exact h
  case isFalse => decide +kernel

theorem closeTruncatedJSON_valid (s : Str) : Json.valid (closeTruncatedJSON s) = true :=
  valid_or_braces _

theorem ToolCall.argsOk_of_not_broken {tc : ToolCall} (h : tc.broken = false) : tc.ArgsOk := by
  unfold ToolCall.broken at h
  unfold ToolCall.ArgsOk
  by_cases hargs : tc.arguments = []
  · exact Or.inl hargs
  · refine Or.inr ?_
    simpa [hargs] using h

theorem ToolCall.repair_argsOk (tc : ToolCall) : tc.repair.ArgsOk := by
  unfold ToolCall.repair
  split
  case isTrue h => exact Or.inr (closeTruncatedJSON_valid _)
  case isFalse h => exact argsOk_of_not_broken (by simpa using h)

theorem ToolCall.repair_tag (tc : ToolCall) : tc.repair.tag = tc.tag := by
  unfold ToolCall.repair
  split <;> rfl

theorem argsOk_of_not_needsArgRepair {calls : List ToolCall} (h : needsArgRepair calls = false) :
    ∀ tc ∈ calls, tc.ArgsOk := by
  intro tc htc
  unfold needsArgRepair at h
  rw [List.any_eq_false] at h
  exact ToolCall.argsOk_of_not_broken (by simpa using h tc htc)

theorem repairToolCallArgs_argsOk (m : Message) :
    ∀ tc ∈ (repairToolCallArgs m).toolCalls, tc.ArgsOk := by
  unfold repairToolCallArgs
  split
  case isTrue h =>
    intro tc htc
    obtain ⟨tc₀, _, rfl⟩ := List.mem_map.mp htc
    exact tc₀.repair_argsOk
  case isFalse h => exact argsOk_of_not_needsArgRepair (by simpa using h)

theorem repairToolCallArgs_tags (m : Message) :
    (repairToolCallArgs m).toolCalls.map ToolCall.tag = m.toolCalls.map ToolCall.tag := by
  unfold repairToolCallArgs
  split
  case isTrue h =>
    rw [List.map_map]
    exact List.map_congr_left (fun tc _ => tc.repair_tag)
  case isFalse h => rfl

theorem repairToolCallArgs_role (m : Message) : (repairToolCallArgs m).role = m.role := by
  unfold repairToolCallArgs
  split <;> rfl

/-! ## The pairing -/

theorem mapOf_eq {α β : Type} (key : α → Str) (val : α → β) (l : List α) (k : Str) :
    mapOf key val l k = (l.reverse.find? (fun a => key a == k)).map val := by
  induction l using List.reverseRecOn with
  | nil => rfl
  | append_singleton l a ih =>
    rw [mapOf, List.foldl_append, List.reverse_concat, List.find?_cons]
    by_cases hk : key a = k
    · subst hk
      simp
    · rw [beq_false_of_ne hk, ← ih]
      exact Function.update_of_ne (Ne.symm hk) ..

theorem mapOf_some {α β : Type} {key : α → Str} {val : α → β} {l : List α} {k : Str}
    {b : β} (h : mapOf key val l k = some b) : ∃ a ∈ l, key a = k ∧ val a = b := by
  rw [mapOf_eq] at h
  obtain ⟨a, ha, hval⟩ := Option.map_eq_some_iff.mp h
  have hkey := List.find?_some ha
  exact ⟨a, List.mem_reverse.mp (List.mem_of_find?_eq_some ha), beq_iff_eq.mp hkey, hval⟩

theorem pairByID_spec (htool : ∀ r ∈ avail, r.isTool = true) (tc : ToolCall) :
    (pairByID (mapOf (·.toolCallID) id avail) tc).isTool = true ∧
      (pairByID (mapOf (·.toolCallID) id avail) tc).tag = tc.tag := by
  unfold pairByID
  cases hr : mapOf (·.toolCallID) id avail tc.id with
  | none => exact ⟨isTool_iff.mpr rfl, rfl⟩
  | some r =>
    obtain ⟨a, ha, hid, rfl⟩ := mapOf_some hr
    exact ⟨htool a ha, by simp [Message.tag, ToolCall.tag, hid]⟩

theorem pairByPosition_spec (htool : ∀ r ∈ avail, r.isTool = true) :
    (∀ r ∈ pairByPosition calls avail, r.isTool = true) ∧
      (pairByPosition calls avail).map Message.tag = calls.map ToolCall.tag := by
  induction calls generalizing avail with
  | nil => simp [pairByPosition]
  | cons tc calls ih =>
    cases avail with
    | nil =>
      obtain ⟨h₁, h₂⟩ := ih htool
      refine ⟨?_, ?_⟩
      · exact List.forall_mem_cons.mpr ⟨isTool_iff.mpr rfl, h₁⟩
      · rw [pairByPosition, List.map_cons, h₂]
        rfl
    | cons r₀ avail =>
      obtain ⟨h₁, h₂⟩ := ih (fun r hr => htool r (List.mem_cons_of_mem _ hr))
      refine ⟨?_, ?_⟩
      · exact List.forall_mem_cons.mpr ⟨htool r₀ List.mem_cons_self, h₁⟩
      · rw [pairByPosition, List.map_cons, h₂]
        rfl

theorem pairToolResults_spec (htool : ∀ r ∈ avail, r.isTool = true) :
    (∀ r ∈ pairToolResults calls avail, r.isTool = true) ∧
      (pairToolResults calls avail).map Message.tag = calls.map ToolCall.tag := by
  unfold pairToolResults
  split
  case isTrue h =>
    refine ⟨?_, ?_⟩
    · intro r hr
      obtain ⟨tc, _, rfl⟩ := List.mem_map.mp hr
      exact (pairByID_spec htool tc).1
    · rw [List.map_map]
      exact List.map_congr_left (fun tc _ => (pairByID_spec htool tc).2)
  case isFalse h => exact pairByPosition_spec calls htool

theorem length_backfillByPosition (results : List Message) :
    (backfillByPosition calls results).length = calls.length := by
  induction calls generalizing results with
  | nil => simp [backfillByPosition]
  | cons tc calls ih =>
    cases results with
    | nil | cons => simp [backfillByPosition, ih]

theorem length_backfillToolCallNames (results : List Message) :
    (backfillToolCallNames calls results).length = calls.length := by
  unfold backfillToolCallNames
  split
  case isTrue h =>
    split
    · exact List.length_map ..
    · exact length_backfillByPosition calls results
  case isFalse h => rfl

/-! ## The two paths -/

theorem answersMatch_tags {calls : List ToolCall} {results : List Message}
    (hlen : calls.length = results.length) (h : answersMatch calls results = true) :
    results.map Message.tag = calls.map ToolCall.tag := by
  induction calls generalizing results with
  | nil =>
    cases results with
    | nil => rfl
    | cons r results => simp at hlen
  | cons tc calls ih =>
    cases results with
    | nil => simp at hlen
    | cons r results =>
      simp only [answersMatch, Bool.and_eq_true, beq_iff_eq] at h
      obtain ⟨⟨hid, hname⟩, hrest⟩ := h
      rw [List.map_cons, List.map_cons, ih (by simpa using hlen) hrest]
      simp [Message.tag, ToolCall.tag, hid, hname]

theorem turns_of_tryFastPath (h : tryFastPath msgs = true) : Turns msgs := by
  fun_induction tryFastPath msgs with
  | case1 => exact .nil
  | case2 | case4 => cases h
  | case3 m rest hturn hbad ih =>
    simp only [Bool.or_eq_true, Bool.not_eq_true', not_or, Bool.not_eq_false,
      Bool.not_eq_true] at hbad
    obtain ⟨hwf, hargs⟩ := hbad
    simp only [toolTurnWellFormed, Bool.and_eq_true, beq_iff_eq] at hwf
    obtain ⟨⟨hlen, _⟩, hmatch⟩ := hwf
    have := Turns.turn hturn (fun r hr => List.mem_takeWhile_imp hr)
      (answersMatch_tags hlen hmatch) (argsOk_of_not_needsArgRepair hargs) (ih h)
    rwa [List.takeWhile_append_dropWhile] at this
  | case5 m rest hturn htool ih =>
    exact .plain (by simpa using hturn) (by simpa using htool) (ih h)

theorem turns_normalizeLoop : Turns (normalizeLoop msgs) := by
  fun_induction normalizeLoop msgs with
  | case1 => exact .nil
  | case2 m rest hturn results calls ih =>
    have htool : ∀ r ∈ results, r.isTool = true := fun r hr => List.mem_takeWhile_imp hr
    obtain ⟨hpair, htags⟩ := pairToolResults_spec calls htool
    refine .turn ?_ hpair ?_ (repairToolCallArgs_argsOk _) ih
    · obtain ⟨hrole, hne⟩ := isTurn_iff.mp hturn
      rw [isTurn_iff, repairToolCallArgs_role]
      refine ⟨hrole, ?_⟩
      have hlen := congrArg List.length (repairToolCallArgs_tags { m with toolCalls := calls })
      simp only [List.length_map] at hlen
      intro hnil
      rw [hnil, length_backfillToolCallNames] at hlen
      exact hne (List.eq_nil_of_length_eq_zero hlen.symm)
    · rw [htags]
      exact (repairToolCallArgs_tags { m with toolCalls := calls }).symm
  | case3 m rest hturn htool ih => exact ih
  | case4 m rest hturn htool ih =>
    exact .plain (by simpa using hturn) (by simpa using htool) ih

theorem turns_normalizeMessages : Turns (normalizeMessages msgs) := by
  unfold normalizeMessages
  split
  case isTrue h => exact turns_of_tryFastPath msgs h
  case isFalse h => exact turns_normalizeLoop msgs

/-- Whatever the history, what `normalizeMessages` returns is a well-formed
tool conversation. -/
theorem normalizeMessages_wellFormed (msgs : List Message) : WellFormed (normalizeMessages msgs) :=
  (turns_normalizeMessages msgs).wellFormed

end MiniGoAgent
