/-
# `Tools.Grep` — searching a tree of files (`GrepFiles` in `tools/fileops.go`)

The walk over the tree can be stopped behind any file: by the context, or by more than
200 results.  `filepath.Walk` then returns an error, and `GrepFiles` drops it if it has
found something.  What it returns looks like the result of a whole walk, and is one only
if the part of the tree that was left out has no matches (`grepFiles_complete_iff`).

The expression is what `regexp.Compile` makes of it, a parameter.  All files are readable;
when the context is done is said for each call of the function that is handed to `Walk`.
-/
import Mathlib.Data.List.Flatten
import MiniGoAgent.Tools.FileOps

open Go

namespace MiniGoAgent

namespace Tools

mutual

/-- What is in a file or beneath a directory. -/
inductive Tree where
  | file (content : Str)
  | dir (entries : Entries)

/-- The entries of a directory, in the order of their names. -/
inductive Entries where
  | nil
  | cons (name : Str) (tree : Tree) (rest : Entries)

end

/-- A file or a directory, with the elements of its path below the root. -/
structure Visit where
  names : List Str
  content : Option Str

mutual

/-- `filepath.Walk`: what the function is called for. -/
def Tree.visits (names : List Str) : Tree → List Visit
  | .file content => [{ names, content := some content }]
  | .dir entries => { names, content := none } :: entries.visits names

def Entries.visits (names : List Str) : Entries → List Visit
  | .nil => []
  | .cons name tree rest => tree.visits (names ++ [name]) ++ rest.visits names

end

structure GrepInput where
  pattern : Str
  root : Str := []
  includeSuffix : Str := []

/-- What `ctx.Done()` and `ctx.Err()` give, by the number of the call. -/
structure WalkContext where
  done : Nat → Bool
  err : Str

def hitsIn (root includeSuffix : Str) (re : Str → Bool) (v : Visit) : List Str :=
  match v.content with
  | none => []
  | some data =>
    if includeSuffix ≠ [] ∧
        hasSuffix (Path.rooted (Path.elements root ++ v.names)) includeSuffix = false then []
    else
      (splitByte (byte '\n') data).zipIdx.filterMap fun line =>
        if re line.1 then
          some (Path.relative v.names ++ lit ":" ++ itoa (line.2 + 1) ++ lit ": " ++
            trimSpace line.1)
        else none

/-- The walk from the call number `n` on: the results, and the error of `Walk`. -/
def grepWalk (hits : Visit → List Str) (ctx : WalkContext) :
    Nat → List Str → List Visit → List Str × Option Str
  | _, results, [] => (results, none)
  | n, results, v :: rest =>
    if ctx.done n then (results, some ctx.err)
    else if 200 < (results ++ hits v).length then
      (results ++ hits v, some (lit "结果太多，已截断"))
    else grepWalk hits ctx (n + 1) (results ++ hits v) rest

def grepReport (results : List Str) : Str :=
  if results = [] then lit "未找到匹配"
  else lit "找到 " ++ itoa results.length ++ lit " 处匹配:\n" ++
    results.flatMap fun r => lit "  " ++ r ++ lit "\n"

/-- Behind the walk. -/
def grepResult (walked : List Str × Option Str) : Except Str Str :=
  match walked with
  | ([], some err) => .error err
  | (results, _) => .ok (grepReport results)

def grepFiles (workspaceRoot : Str) (getwd : Except Str Path.WorkDir)
    (compile : Str → Except Str (Str → Bool)) (disk : Str → Tree)
    (ctx : WalkContext) (input : GrepInput) : Except Str Str :=
  match validatePath workspaceRoot getwd (if input.root = [] then lit "." else input.root) with
  | .error err => .error err
  | .ok root =>
    match compile input.pattern with
    | .error err => .error (lit "正则表达式无效: " ++ err)
    | .ok re =>
      grepResult
        (grepWalk (hitsIn root input.includeSuffix re) ctx 0 [] ((disk root).visits []))

/-! ## What is to be reported -/

section Walks

variable (hits : Visit → List Str) (ctx : WalkContext) (visits : List Visit)

/-- The walk stops behind the first `n` calls. -/
def Stops (n : Nat) : Prop :=
  (n < visits.length ∧ ctx.done n = true) ∨ 200 < ((visits.take n).flatMap hits).length

/-- Where the walk stops first, it has found nothing or there is nothing more to find. -/
def NothingLost : Prop :=
  ∀ n, Stops hits ctx visits n → (∀ m < n, ¬ Stops hits ctx visits m) →
    (visits.take n).flatMap hits = [] ∨ (visits.drop n).flatMap hits = []

end Walks

/-- A result that is returned is the report of all matches. -/
def Complete (hits : Visit → List Str) (visits : List Visit)
    (result : Except Str Str) : Prop :=
  ∀ text, result = .ok text → text = grepReport (visits.flatMap hits)

theorem grepWalk_cases (hits : Visit → List Str) (ctx : WalkContext) (front rest : List Visit)
    (hfront : ∀ m < front.length, ¬ Stops hits ctx (front ++ rest) m)
    (hfew : (front.flatMap hits).length ≤ 200) :
    ((∀ n, ¬ Stops hits ctx (front ++ rest) n) ∧
      grepWalk hits ctx front.length (front.flatMap hits) rest =
        ((front ++ rest).flatMap hits, none)) ∨
    ∃ n err, Stops hits ctx (front ++ rest) n ∧ (∀ m < n, ¬ Stops hits ctx (front ++ rest) m) ∧
      grepWalk hits ctx front.length (front.flatMap hits) rest =
        (((front ++ rest).take n).flatMap hits, some err) := by
  induction rest generalizing front with
  | nil =>
    refine .inl ⟨fun n hn => ?_, by rw [List.append_nil]; rfl⟩
    by_cases hlt : n < front.length
    · exact hfront n hlt hn
    · rw [List.append_nil] at hn
      rcases hn with ⟨hlt', _⟩ | hmany
      · exact hlt hlt'
      · rw [List.take_of_length_le (Nat.not_lt.mp hlt)] at hmany
        omega
  | cons v rest ih =>
    have hsplit : front ++ v :: rest = front ++ [v] ++ rest := by simp
    have hsnoc : (front ++ [v]).flatMap hits = front.flatMap hits ++ hits v := by simp
    have hlen : (front ++ [v]).length = front.length + 1 := List.length_append
    rw [grepWalk]
    by_cases hdone : ctx.done front.length = true
    · rw [if_pos hdone]
      refine .inr ⟨front.length, ctx.err, .inl ⟨by simp, hdone⟩, hfront, ?_⟩
      rw [List.take_left]
    · rw [if_neg hdone]
      have hhere : ∀ m < (front ++ [v]).length, ¬ Stops hits ctx (front ++ v :: rest) m := by
        intro m hm
        rcases Nat.lt_succ_iff_lt_or_eq.mp (hlen ▸ hm) with hlt | rfl
        · exact hfront m hlt
        · rintro (⟨_, hstop⟩ | hmany)
          · exact hdone hstop
          · rw [List.take_left] at hmany
            omega
      rw [hsplit] at hhere ⊢
      rw [← hsnoc, ← hlen]
      by_cases hmany : 200 < ((front ++ [v]).flatMap hits).length
      · rw [if_pos hmany]
        refine .inr ⟨(front ++ [v]).length, lit "结果太多，已截断", .inr ?_, hhere, ?_⟩
        · rwa [List.take_left]
        · rw [List.take_left]
      · rw [if_neg hmany]
        exact ih (front ++ [v]) hhere (Nat.not_lt.mp hmany)

theorem eq_nil_of_grepReport_eq {results more : List Str} (hne : results ≠ [])
    (h : grepReport results = grepReport (results ++ more)) : more = [] := by
  have hblank : ∀ n : Nat, (0x20 : UInt8) ∉ itoa n := by
    intro n hmem
    rcases mem_itoa hmem with hdigit | hminus
    · exact absurd hdigit (by decide)
    · exact absurd hminus (by decide)
  rw [grepReport, grepReport, if_neg hne, if_neg (by simp [hne]), List.append_assoc,
    List.append_assoc, List.append_assoc, List.append_assoc, List.append_cancel_left_eq] at h
  have hnumbers := itoa_inj (eq_of_append_cons_eq (hblank _) (hblank _) h)
  rw [List.length_append] at hnumbers
  exact List.length_eq_zero_iff.mp (by omega)

theorem grepResult_ok {results : List Str} {err : Option Str}
    (h : results ≠ [] ∨ err = none) : grepResult (results, err) = .ok (grepReport results) := by
  cases results with
  | nil =>
    rw [h.resolve_left (by simp)]
    rfl
  | cons r rest => rfl

theorem grepWalk_complete_iff (hits : Visit → List Str) (ctx : WalkContext) (visits : List Visit) :
    Complete hits visits (grepResult (grepWalk hits ctx 0 [] visits)) ↔
      NothingLost hits ctx visits := by
  have hcases := grepWalk_cases hits ctx [] visits (by simp) (by simp)
  rw [List.nil_append, List.length_nil, List.flatMap_nil] at hcases
  rcases hcases with ⟨hnone, hwalk⟩ | ⟨n, err, hstop, hfirst, hwalk⟩
  · rw [hwalk, grepResult_ok (.inr rfl)]
    refine iff_of_true ?_ fun n hn => absurd hn (hnone n)
    rintro _ ⟨⟩
    rfl
  · have hall : visits.flatMap hits =
        (visits.take n).flatMap hits ++ (visits.drop n).flatMap hits := by
      rw [← List.flatMap_append, List.take_append_drop]
    have hlost : NothingLost hits ctx visits ↔
        (visits.take n).flatMap hits = [] ∨ (visits.drop n).flatMap hits = [] := by
      refine ⟨fun h => h n hstop hfirst, fun h m hm hm' => ?_⟩
      rcases Nat.lt_trichotomy m n with hlt | rfl | hgt
      · exact absurd hm (hfirst m hlt)
      · exact h
      · exact absurd hstop (hm' n hgt)
    rw [hlost, hwalk]
    by_cases hempty : (visits.take n).flatMap hits = []
    · rw [hempty]
      refine iff_of_true ?_ (.inl rfl)
      rintro _ ⟨⟩
    · rw [grepResult_ok (.inl hempty), or_iff_right hempty]
      constructor
      · intro h
        refine eq_nil_of_grepReport_eq hempty ?_
        rw [← hall]
        exact h _ rfl
      · rintro hrest _ ⟨⟩
        rw [hall, hrest, List.append_nil]

/-- For every tree, expression, suffix and context, a result that is returned reports all
matches exactly if nothing is lost where the walk stops. -/
theorem grepFiles_complete_iff {workspaceRoot root : Str}
    {getwd : Except Str Path.WorkDir} {compile : Str → Except Str (Str → Bool)}
    {re : Str → Bool} {input : GrepInput} (disk : Str → Tree) (ctx : WalkContext)
    (hvalid : validatePath workspaceRoot getwd
      (if input.root = [] then lit "." else input.root) = .ok root)
    (hcompile : compile input.pattern = .ok re) :
    Complete (hitsIn root input.includeSuffix re) ((disk root).visits [])
        (grepFiles workspaceRoot getwd compile disk ctx input) ↔
      NothingLost (hitsIn root input.includeSuffix re) ctx ((disk root).visits []) := by
  unfold grepFiles
  rw [hvalid]
  dsimp only
  rw [hcompile]
  exact grepWalk_complete_iff _ ctx _

def twoFiles : Tree :=
  .dir (.cons (lit "a") (.file (lit "x")) (.cons (lit "b") (.file (lit "x")) .nil))

/-- Every line matches. -/
def anyLine : Str → Except Str (Str → Bool) := fun _ => .ok fun _ => true

/-- A context that is cancelled before the call number `n`. -/
def cancelledAt (n : Nat) : WalkContext where
  done m := n ≤ m
  err := lit "context canceled"

theorem grepFiles_complete_twoFiles :
    Complete (hitsIn (lit "/") [] fun _ => true) (twoFiles.visits [])
      (grepFiles (lit "/") atRoot anyLine (fun _ => twoFiles) (cancelledAt 3)
        { pattern := lit "x" }) := by
  refine (grepFiles_complete_iff _ _ (by decide +kernel) rfl).mpr fun n hstop _ => ?_
  rcases hstop with ⟨hlt, hdone⟩ | hmany
  · exact absurd (of_decide_eq_true hdone) (Nat.not_le.mpr hlt)
  · have hall := (((twoFiles.visits []).take_sublist n).flatMap
      (hitsIn (lit "/") [] fun _ => true)).length_le
    exact absurd (Nat.lt_of_lt_of_le hmany hall) (by decide +kernel)

/-- The context is cancelled behind the first file: one of the two matches is announced,
and nothing says that there may be more. -/
theorem grepFiles_cancelled :
    grepFiles (lit "/") atRoot anyLine (fun _ => twoFiles) (cancelledAt 2) { pattern := lit "x" } =
        .ok (lit "找到 1 处匹配:\n  a:1: x\n") ∧
      ¬ Complete (hitsIn (lit "/") [] fun _ => true) (twoFiles.visits [])
        (grepFiles (lit "/") atRoot anyLine (fun _ => twoFiles) (cancelledAt 2)
          { pattern := lit "x" }) := by
  have hresult : grepFiles (lit "/") atRoot anyLine (fun _ => twoFiles) (cancelledAt 2)
      { pattern := lit "x" } = .ok (lit "找到 1 处匹配:\n  a:1: x\n") := by decide +kernel
  refine ⟨hresult, fun h => ?_⟩
  have hreport := h _ hresult
  revert hreport
  decide +kernel

end Tools

end MiniGoAgent
