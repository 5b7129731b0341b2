/-
# `Protocol.Fragments` — what is accumulated, from the fragments alone

The tool calls of a stream arrive in fragments.  `ofFragments` computes what
`processSSEData` holds after some of them without running it: the calls with
the fragments of their index put together, the indices in the order of their
first appearance, and an announced call for every name.  `fragment_ofFragments`
takes it over one fragment, and `gather_eq` over the records of a body.
-/
import MiniGoAgent.Go.Keyed
import MiniGoAgent.Protocol.Scan

open Go

namespace MiniGoAgent

variable (vendor : Vendor) (frags : List ToolCallDelta) (tc : ToolCallDelta)
  (think : ThinkSplitter) (idx : Int)

/-! ## The calls of a list of fragments -/

/-- The indices in the order of their first appearance. -/
def indices (frags : List ToolCallDelta) : List Int := firsts (frags.map (·.index))

def callOf (frags : List ToolCallDelta) (idx : Int) : ToolCall :=
  (frags.filter (fun tc => tc.index = idx)).foldl ToolCall.extend {}

/-- The fragment that makes the call of its index known: the first with a name. -/
def announces (frags : List ToolCallDelta) (tc : ToolCallDelta) : Bool :=
  (callOf frags tc.index).name = [] ∧ tc.name ≠ []

theorem callOf_snoc :
    callOf (frags ++ [tc]) idx =
      if tc.index = idx then (callOf frags idx).extend tc else callOf frags idx := by
  rw [callOf, List.filter_append]
  by_cases h : tc.index = idx <;> simp [h, callOf, List.foldl_append]

theorem mem_indices {frags : List ToolCallDelta} {idx : Int} :
    idx ∈ indices frags ↔ ∃ tc ∈ frags, tc.index = idx := by
  rw [indices, mem_firsts, List.mem_map]

theorem callOf_of_not_mem {frags : List ToolCallDelta} {idx : Int} (h : idx ∉ indices frags) :
    callOf frags idx = {} := by
  have hnone : frags.filter (fun tc => tc.index = idx) = [] := by
    rw [List.filter_eq_nil_iff]
    intro tc htc
    rw [decide_eq_true_eq]
    intro hidx
    exact h (mem_indices.mpr ⟨tc, htc, hidx⟩)
  rw [callOf, hnone]
  rfl

theorem extend_name_eq_nil {cur : ToolCall} {tc : ToolCallDelta} :
    (cur.extend tc).name = [] ↔ cur.name = [] ∧ tc.name = [] := by
  by_cases h : tc.name = [] <;> simp [ToolCall.extend, h]

/-! ## The accumulated state -/

namespace Gathered

/-- What is held after the fragments, next to the splitter. -/
def ofFragments (frags : List ToolCallDelta) (think : ThinkSplitter) : Gathered where
  acc := fun idx => if idx ∈ indices frags then some (callOf frags idx) else none
  started := fun idx => (callOf frags idx).name ≠ []
  order := indices frags
  think := think

theorem getD_acc_ofFragments : ((ofFragments frags think).acc idx).getD {} = callOf frags idx := by
  show (if idx ∈ indices frags then some (callOf frags idx) else none).getD {} = _
  split
  next => rfl
  next h => exact (callOf_of_not_mem h).symm

theorem isSome_acc_ofFragments :
    ((ofFragments frags think).acc idx).isSome = true ↔ idx ∈ indices frags := by
  by_cases h : idx ∈ indices frags <;> simp [ofFragments, h]

theorem order_snoc :
    indices (frags ++ [tc]) =
      if tc.index ∈ indices frags then indices frags else indices frags ++ [tc.index] := by
  rw [indices, List.map_append, List.map_singleton, firsts_snoc]
  rfl

theorem acc_snoc :
    Function.update (ofFragments frags think).acc tc.index
        (some ((callOf frags tc.index).extend tc)) =
      (ofFragments (frags ++ [tc]) think).acc := by
  funext idx
  show _ = if idx ∈ indices (frags ++ [tc]) then some (callOf (frags ++ [tc]) idx) else none
  rw [callOf_snoc]
  by_cases h : idx = tc.index
  · subst h
    have hmem : tc.index ∈ indices (frags ++ [tc]) :=
      mem_indices.mpr ⟨tc, List.mem_append_right _ List.mem_cons_self, rfl⟩
    rw [Function.update_self, if_pos hmem, if_pos rfl]
  · have hmem : idx ∈ indices (frags ++ [tc]) ↔ idx ∈ indices frags := by
      rw [order_snoc]
      split
      next => exact Iff.rfl
      next => simp [h]
    have hcall : (if tc.index = idx then (callOf frags idx).extend tc else callOf frags idx) =
        callOf frags idx := if_neg (fun h' => h h'.symm)
    rw [Function.update_of_ne h, hcall]
    exact if_congr hmem.symm rfl rfl

theorem announces_iff {frags : List ToolCallDelta} {tc : ToolCallDelta} :
    announces frags tc = true ↔ (callOf frags tc.index).name = [] ∧ tc.name ≠ [] :=
  decide_eq_true_iff

theorem started_snoc :
    (ofFragments (frags ++ [tc]) think).started =
      if announces frags tc then Function.update (ofFragments frags think).started tc.index true
      else (ofFragments frags think).started := by
  funext idx
  show decide ((callOf (frags ++ [tc]) idx).name ≠ []) = _
  rw [callOf_snoc]
  by_cases hidx : tc.index = idx
  · subst hidx
    rw [if_pos rfl]
    by_cases hold : (callOf frags tc.index).name = [] <;> by_cases hname : tc.name = [] <;>
      simp [ofFragments, announces, extend_name_eq_nil, hold, hname]
  · rw [if_neg hidx]
    split
    · rw [Function.update_of_ne (fun h => hidx h.symm)]
      rfl
    · rfl

theorem fragment_ofFragments :
    (ofFragments frags think).fragment tc =
      (ofFragments (frags ++ [tc]) think,
        if announces frags tc then [startChunk (callOf (frags ++ [tc]) tc.index)] else []) := by
  have hcall : (callOf frags tc.index).extend tc = callOf (frags ++ [tc]) tc.index := by
    rw [callOf_snoc, if_pos rfl]
  have horder : (if ((ofFragments frags think).acc tc.index).isSome = true then
      (ofFragments frags think).order else (ofFragments frags think).order ++ [tc.index]) =
        indices (frags ++ [tc]) := by
    rw [order_snoc]
    exact if_congr (isSome_acc_ofFragments frags think tc.index) rfl rfl
  have hann : ((ofFragments frags think).started tc.index = false ∧
      (callOf (frags ++ [tc]) tc.index).name ≠ []) ↔ announces frags tc = true := by
    by_cases hold : (callOf frags tc.index).name = [] <;>
      simp [ofFragments, announces, ← hcall, extend_name_eq_nil, hold]
  have hstate : ∀ started : Int → Bool,
      started = (ofFragments (frags ++ [tc]) think).started →
      Gathered.mk (ofFragments (frags ++ [tc]) think).acc started (indices (frags ++ [tc])) think =
        ofFragments (frags ++ [tc]) think := by
    rintro started rfl
    rfl
  unfold fragment
  dsimp only
  rw [getD_acc_ofFragments, acc_snoc, horder, hcall]
  by_cases h : announces frags tc = true
  · rw [if_pos (hann.mpr h), if_pos h]
    refine Prod.ext (hstate _ ?_) rfl
    rw [started_snoc, if_pos h]
  · rw [if_neg (fun h' => h (hann.mp h')), if_neg h]
    refine Prod.ext (hstate _ ?_) rfl
    rw [started_snoc, if_neg h]

/-- The announcements among `more`, behind `frags`. -/
def announced (frags : List ToolCallDelta) : List ToolCallDelta → List Chunk
  | [] => []
  | tc :: more =>
    (if announces frags tc then [startChunk (callOf (frags ++ [tc]) tc.index)] else []) ++
      announced (frags ++ [tc]) more

theorem fragments_ofFragments (more : List ToolCallDelta) (think : ThinkSplitter) :
    (ofFragments frags think).fragments more =
      (ofFragments (frags ++ more) think, announced frags more) := by
  induction more generalizing frags with
  | nil => rw [List.append_nil]; rfl
  | cons tc more ih =>
    rw [fragments, fragment_ofFragments]
    dsimp only
    rw [ih, List.append_assoc]
    rfl

/-! ## The content -/

/-- What a delta's content does to the splitter. -/
def splitContent (vendor : Vendor) (think : ThinkSplitter) (text : Str) :
    ThinkSplitter × ThinkOut :=
  if text = [] then (think, {})
  else if vendor = .miniMax then think.push text
  else (think, { visible := text })

theorem content_eq (g : Gathered) (text : Str) :
    g.content vendor text =
      ({ g with think := (splitContent vendor g.think text).1 },
        ifText reasoningChunk (splitContent vendor g.think text).2.thought ++
          ifText textChunk (splitContent vendor g.think text).2.visible) := by
  unfold content splitContent
  split
  · rfl
  next h =>
    split
    · rfl
    · simp [ifText, h]

theorem delta_ofFragments (d : Delta) :
    (ofFragments frags think).delta vendor d =
      (ofFragments (frags ++ d.toolCalls) (splitContent vendor think d.content).1,
        ifText reasoningChunk d.reasoningDelta ++
          (ifText reasoningChunk (splitContent vendor think d.content).2.thought ++
            ifText textChunk (splitContent vendor think d.content).2.visible) ++
          announced frags d.toolCalls) := by
  unfold delta
  rw [content_eq]
  dsimp only
  have hthink : ({ ofFragments frags think with
      think := (splitContent vendor (ofFragments frags think).think d.content).1 } : Gathered) =
        ofFragments frags (splitContent vendor think d.content).1 := rfl
  rw [hthink, fragments_ofFragments]
  rfl

end Gathered

/-! ## The records of a body -/

/-- The deltas of the records without an error. -/
def deltas (records : List StreamRecord) : List Delta :=
  (records.filter (fun sr => sr.error.isNone)).map StreamRecord.delta

def fragmentsOf (records : List StreamRecord) : List ToolCallDelta :=
  (deltas records).flatMap (·.toolCalls)

/-- The splitter behind the deltas. -/
def thinkAfter (vendor : Vendor) (think : ThinkSplitter) (ds : List Delta) : ThinkSplitter :=
  ds.foldl (fun t d => (Gathered.splitContent vendor t d.content).1) think

theorem gather_ofFragments (records : List StreamRecord)
    (frags : List ToolCallDelta) (think : ThinkSplitter) :
    gather vendor records (.ofFragments frags think) =
      .ofFragments (frags ++ fragmentsOf records) (thinkAfter vendor think (deltas records)) := by
  induction records generalizing frags think with
  | nil => rw [gather, fragmentsOf, deltas]; simp [thinkAfter]
  | cons sr rest ih =>
    rw [gather]
    cases herr : sr.error with
    | some msg =>
      have hd : deltas (sr :: rest) = deltas rest := by simp [deltas, herr]
      rw [fragmentsOf, hd]
      exact ih frags think
    | none =>
      have hd : deltas (sr :: rest) = sr.delta :: deltas rest := by simp [deltas, herr]
      show gather vendor rest ((Gathered.ofFragments frags think).delta vendor sr.delta).1 = _
      rw [Gathered.delta_ofFragments, ih, fragmentsOf, fragmentsOf, hd, List.flatMap_cons,
        List.append_assoc]
      rfl

theorem gather_eq (records : List StreamRecord) :
    gather vendor records {} =
      .ofFragments (fragmentsOf records) (thinkAfter vendor {} (deltas records)) :=
  gather_ofFragments vendor records [] {}

end MiniGoAgent
