/-
# `Adk.Guardrails` — which tool calls may be made (`internal/adk/tool/guardrails.go`)

A tool call is refused if its tool is denied, if there is an allow list without it,
if a rule refuses it, or if the registry knows the tool and finds it unavailable.
An empty allow list is no allow list: then everything passes that is not denied.

`Deny` takes its tool off the allow list, and so may turn a list of one into none.
`widens_iff` says that this is the only way in which a denial allows anything.

Behind any run of operations the lists are the names by their last verdict
(`Filed`), so a run comes to no more than the last verdict on each name.

The maps hold nothing but `true`, so they are the sets of their keys.  `args` is of
type `any`; the rules and the registry are what they answer.
-/
import Mathlib.Data.Finset.Card
import MiniGoAgent.Go.Keyed
import MiniGoAgent.Go.Machine
import MiniGoAgent.Go.Str

open Go

namespace MiniGoAgent

variable {name : Str}

structure GuardrailResult where
  allowed : Bool
  reason : Str := []
  deriving DecidableEq, Repr

structure ToolRegistry where
  /-- `Get` finds the tool -/
  has : Str → Bool
  /-- `Check` -/
  check : Str → Bool

structure Guardrails (α : Type) where
  allowList : Finset Str := ∅
  denyList : Finset Str := ∅
  rules : List (Str → α → GuardrailResult) := []
  registry : Option ToolRegistry := none

namespace Guardrails

variable {α : Type}

/-- `NewGuardrails`. -/
def new (registry : Option ToolRegistry) : Guardrails α := { registry }

def allow (g : Guardrails α) (name : Str) : Guardrails α :=
  { g with allowList := insert name g.allowList, denyList := g.denyList.erase name }

def deny (g : Guardrails α) (name : Str) : Guardrails α :=
  { g with denyList := insert name g.denyList, allowList := g.allowList.erase name }

def allowAll (g : Guardrails α) (names : List Str) : Guardrails α := names.foldl allow g

def denyAll (g : Guardrails α) (names : List Str) : Guardrails α := names.foldl deny g

def addRule (g : Guardrails α) (rule : Str → α → GuardrailResult) : Guardrails α :=
  { g with rules := g.rules ++ [rule] }

/-- The registry knows the tool and finds it unavailable. -/
def unavailable (g : Guardrails α) (toolName : Str) : Bool :=
  match g.registry with
  | none => false
  | some registry => registry.has toolName && !registry.check toolName

def check (g : Guardrails α) (toolName : Str) (args : α) : GuardrailResult :=
  if toolName ∈ g.denyList then { allowed := false, reason := lit "tool is denied" }
  else if 0 < g.allowList.card ∧ toolName ∉ g.allowList then
    { allowed := false, reason := lit "tool not in allow list" }
  else
    match g.rules.findSome? (fun rule =>
      if (rule toolName args).allowed then none else some (rule toolName args)) with
    | some result => result
    | none =>
      if g.unavailable toolName then { allowed := false, reason := lit "tool is unavailable" }
      else { allowed := true }

/-- The rules and the registry let the call pass. -/
def Passes (g : Guardrails α) (toolName : Str) (args : α) : Prop :=
  (∀ rule ∈ g.rules, (rule toolName args).allowed = true) ∧ g.unavailable toolName = false

theorem check_allowed_iff (g : Guardrails α) (toolName : Str) (args : α) :
    (g.check toolName args).allowed = true ↔
      toolName ∉ g.denyList ∧ (g.allowList = ∅ ∨ toolName ∈ g.allowList) ∧
        g.Passes toolName args := by
  have hlist : (0 < g.allowList.card ∧ toolName ∉ g.allowList) ↔
      ¬ (g.allowList = ∅ ∨ toolName ∈ g.allowList) := by
    rw [Finset.card_pos, Finset.nonempty_iff_ne_empty, not_or]
  fun_cases check g toolName args
  case case1 hdenied => simp [hdenied]
  case case2 hlisted => simp [hlist.mp hlisted]
  case case3 result hresult =>
    obtain ⟨rule, hrule, hrefused⟩ := List.exists_of_findSome?_eq_some hresult
    rw [Option.ite_none_left_eq_some, Option.some.injEq] at hrefused
    rw [← hrefused.2]
    exact iff_of_false hrefused.1 (fun h => hrefused.1 (h.2.2.1 rule hrule))
  case case4 hunavailable => simp [Passes, hunavailable]
  case case5 hdenied hlisted hnone hunavailable =>
    rw [List.findSome?_eq_none_iff] at hnone
    refine iff_of_true rfl ⟨hdenied, not_not.mp (fun h => hlisted (hlist.mpr h)), ?_,
      Bool.eq_false_iff.mpr hunavailable⟩
    intro rule hrule
    simpa using hnone rule hrule

/-! ## Denials -/

variable {g : Guardrails α} {names : List Str}

theorem mem_denyList_denyAll :
    name ∈ (g.denyAll names).denyList ↔ name ∈ names ∨ name ∈ g.denyList := by
  induction names generalizing g with
  | nil => simp [denyAll]
  | cons n names ih =>
    have hnext := ih (g := g.deny n)
    simp only [denyAll, List.foldl_cons] at hnext ⊢
    rw [hnext]
    simp only [deny, Finset.mem_insert, List.mem_cons]
    tauto

theorem mem_allowList_denyAll :
    name ∈ (g.denyAll names).allowList ↔ name ∉ names ∧ name ∈ g.allowList := by
  induction names generalizing g with
  | nil => simp [denyAll]
  | cons n names ih =>
    have hnext := ih (g := g.deny n)
    simp only [denyAll, List.foldl_cons] at hnext ⊢
    rw [hnext]
    simp only [deny, Finset.mem_erase, List.mem_cons]
    tauto

theorem passes_denyAll {args : α} : (g.denyAll names).Passes name args ↔ g.Passes name args := by
  induction names generalizing g with
  | nil => exact Iff.rfl
  | cons n names ih => exact ih (g := g.deny n)

theorem widens_iff {args : α} :
    (((g.denyAll names).check name args).allowed = true ∧ (g.check name args).allowed = false) ↔
      g.allowList ≠ ∅ ∧ (∀ n ∈ g.allowList, n ∈ names) ∧
        name ∉ names ∧ name ∉ g.denyList ∧ g.Passes name args := by
  rw [← Bool.not_eq_true, check_allowed_iff, check_allowed_iff, passes_denyAll,
    mem_denyList_denyAll, mem_allowList_denyAll, not_or]
  constructor
  · rintro ⟨⟨⟨hnames, hdenied⟩, hlisted, hpasses⟩, hbefore⟩
    have hnot : ¬ (g.allowList = ∅ ∨ name ∈ g.allowList) :=
      fun hlist => hbefore ⟨hdenied, hlist, hpasses⟩
    rw [not_or] at hnot
    refine ⟨hnot.1, ?_, hnames, hdenied, hpasses⟩
    have hempty : (g.denyAll names).allowList = ∅ :=
      hlisted.resolve_right (fun hmem => hnot.2 hmem.2)
    intro n hn
    by_contra hkept
    have hleft : n ∈ (g.denyAll names).allowList := mem_allowList_denyAll.mpr ⟨hkept, hn⟩
    rw [hempty] at hleft
    exact absurd hleft (Finset.notMem_empty n)
  · rintro ⟨hne, hall, hnames, hdenied, hpasses⟩
    have hempty : (g.denyAll names).allowList = ∅ := by
      refine Finset.eq_empty_of_forall_notMem ?_
      intro n hn
      obtain ⟨hkept, hmem⟩ := mem_allowList_denyAll.mp hn
      exact hkept (hall n hmem)
    refine ⟨⟨⟨hnames, hdenied⟩, Or.inl hempty, hpasses⟩, ?_⟩
    rintro ⟨_, hlist, _⟩
    exact hnames (hall name (hlist.resolve_left hne))

end Guardrails

/-! ## Runs -/

inductive GuardOp (α : Type) where
  | allow (name : Str)
  | deny (name : Str)
  | allowAll (names : List Str)
  | denyAll (names : List Str)
  | addRule (rule : Str → α → GuardrailResult)

namespace GuardOp

variable {α : Type}

def apply (g : Guardrails α) : GuardOp α → Guardrails α
  | .allow name => g.allow name
  | .deny name => g.deny name
  | .allowAll names => g.allowAll names
  | .denyAll names => g.denyAll names
  | .addRule rule => g.addRule rule

def denied : GuardOp α → Option (List Str)
  | .deny name => some [name]
  | .denyAll names => some names
  | _ => none

theorem apply_of_denied {op : GuardOp α} (h : op.denied = some names)
    (g : Guardrails α) : op.apply g = g.denyAll names := by
  cases op with
  | deny | denyAll =>
    cases h
    rfl
  | allow | allowAll | addRule => cases h

/-- If the operation is a denial, what is allowed behind it was allowed before. -/
def NeverWidens (g : Guardrails α) (op : GuardOp α) : Prop :=
  op.denied.isSome = true → ∀ name args, ((op.apply g).check name args).allowed = true →
    (g.check name args).allowed = true

/-- If the operation is a denial, it leaves something on the allow list, or there is
none, or the rules and the registry refuse every call to a tool that is not
denied. -/
def KeepsList (g : Guardrails α) (op : GuardOp α) : Prop :=
  ∀ names ∈ op.denied, g.allowList = ∅ ∨ (∃ n ∈ g.allowList, n ∉ names) ∨
    ∀ name args, name ∉ names → name ∉ g.denyList → ¬ g.Passes name args

theorem neverWidens_iff (g : Guardrails α) (op : GuardOp α) :
    NeverWidens g op ↔ KeepsList g op := by
  rcases Option.eq_none_or_eq_some op.denied with hnone | ⟨names, hnames⟩
  · simp [NeverWidens, KeepsList, hnone]
  · have hwidens : NeverWidens g op ↔ ¬ ∃ name args,
        ((g.denyAll names).check name args).allowed = true ∧
          (g.check name args).allowed = false := by
      simp [NeverWidens, apply_of_denied hnames, hnames]
    have hkeeps : KeepsList g op ↔ ¬ ∃ name args, g.allowList ≠ ∅ ∧
        (∀ n ∈ g.allowList, n ∈ names) ∧ name ∉ names ∧ name ∉ g.denyList ∧
          g.Passes name args := by
      simp only [KeepsList, hnames, Option.mem_def, Option.some.injEq, forall_eq']
      push Not
      constructor
      · intro h name args hne hall hname hdenied
        rcases h with hempty | ⟨n, hn, hkept⟩ | hrefused
        · exact absurd hempty hne.ne_empty
        · exact absurd (hall n hn) hkept
        · exact hrefused name args hname hdenied
      · intro h
        by_cases hne : g.allowList = ∅
        · exact Or.inl hne
        · by_cases hall : ∀ n ∈ g.allowList, n ∈ names
          · exact Or.inr (Or.inr fun name args =>
              h name args (Finset.nonempty_iff_ne_empty.mpr hne) hall)
          · push Not at hall
            exact Or.inr (Or.inl hall)
    rw [hwidens, hkeeps]
    simp only [Guardrails.widens_iff]

end GuardOp

/-- Operations on new guardrails. -/
def guardMachine (α : Type) (registry : Option ToolRegistry) :
    Machine (Guardrails α) (GuardOp α) where
  init := .new registry
  step g op := some (op.apply g)

/-- **Denials, over all runs.**  No denial of a run allows anything exactly if none
of them takes the last tool off the allow list while the rules and the registry
would let a call to some other tool pass. -/
theorem denials_never_widen_iff {α : Type} (registry : Option ToolRegistry)
    (ops : List (GuardOp α)) :
    (guardMachine α registry).Along GuardOp.NeverWidens (guardMachine α registry).init ops ↔
      (guardMachine α registry).Along GuardOp.KeepsList (guardMachine α registry).init ops :=
  (guardMachine α registry).along_congr_of_iff GuardOp.neverWidens_iff _ ops

/-- With one tool on the allow list, denying it allows every other. -/
theorem denying_last_tool_widens :
    ∃ g, (guardMachine Unit none).run (guardMachine Unit none).init [.allow (lit "read_file")] =
        some g ∧
      (g.check (lit "terminal") ()).allowed = false ∧
      ((g.deny (lit "read_file")).check (lit "terminal") ()).allowed = true ∧
      ¬ GuardOp.NeverWidens g (.deny (lit "read_file")) := by
  have hbefore : (((Guardrails.new none : Guardrails Unit).allow (lit "read_file")).check
      (lit "terminal") ()).allowed = false := by decide +kernel
  have hafter : ((((Guardrails.new none : Guardrails Unit).allow (lit "read_file")).deny
      (lit "read_file")).check (lit "terminal") ()).allowed = true := by decide +kernel
  refine ⟨_, rfl, hbefore, hafter, ?_⟩
  intro hnever
  have hallowed := hnever rfl (lit "terminal") () hafter
  cases hallowed.symm.trans hbefore

/-! ## The last verdict on a name -/

namespace GuardOp

variable {α : Type}

def isListing : GuardOp α → Bool
  | .addRule _ => false
  | _ => true

/-- The names an operation allows or denies, in order, with the verdict. -/
def verdicts : GuardOp α → List (Str × Bool)
  | .allow name => [(name, true)]
  | .deny name => [(name, false)]
  | .allowAll names => names.map (fun name => (name, true))
  | .denyAll names => names.map (fun name => (name, false))
  | .addRule _ => []

def names (op : GuardOp α) : List Str := op.verdicts.map Prod.fst

end GuardOp

section Verdicts

variable {α : Type}

/-- The last verdict of the operations on the name. -/
def lastVerdict (ops : List (GuardOp α)) (name : Str) : Option Bool :=
  lastFor name (ops.flatMap GuardOp.verdicts)

def Guardrails.file (g : Guardrails α) (verdict : Str × Bool) : Guardrails α :=
  if verdict.2 then g.allow verdict.1 else g.deny verdict.1

theorem GuardOp.apply_eq_foldl {op : GuardOp α} (h : op.isListing = true) (g : Guardrails α) :
    op.apply g = op.verdicts.foldl Guardrails.file g := by
  cases op with
  | allow | deny => rfl
  | allowAll | denyAll =>
    rw [verdicts, List.foldl_map]
    rfl
  | addRule rule => cases h

/-- The guardrails have the names on the lists by their last verdict, and nothing
else. -/
structure Filed (verdicts : List (Str × Bool)) (g : Guardrails α) : Prop where
  allow : ∀ name, name ∈ g.allowList ↔ lastFor name verdicts = some true
  deny : ∀ name, name ∈ g.denyList ↔ lastFor name verdicts = some false
  rules : g.rules = []
  registry : g.registry = none

theorem filed_new : Filed [] (Guardrails.new none : Guardrails α) :=
  ⟨fun _ => iff_of_false (Finset.notMem_empty _) (by simp [lastFor]),
    fun _ => iff_of_false (Finset.notMem_empty _) (by simp [lastFor]), rfl, rfl⟩

theorem Guardrails.mem_lists_file (g : Guardrails α) (verdict : Str × Bool) (name : Str) :
    (name ∈ (g.file verdict).allowList ↔
        if verdict.1 = name then verdict.2 = true else name ∈ g.allowList) ∧
      (name ∈ (g.file verdict).denyList ↔
        if verdict.1 = name then verdict.2 = false else name ∈ g.denyList) := by
  obtain ⟨n, allowed⟩ := verdict
  cases allowed <;> by_cases hn : n = name <;>
    simp [Guardrails.file, Guardrails.allow, Guardrails.deny, eq_comm (a := name), hn]

variable {verdicts : List (Str × Bool)}

theorem Filed.file (h : Filed verdicts g)
    (verdict : Str × Bool) : Filed (verdicts ++ [verdict]) (g.file verdict) := by
  refine ⟨?_, ?_, ?_, ?_⟩
  · intro name
    rw [(g.mem_lists_file verdict name).1, lastFor_snoc, h.allow]
    split <;> simp
  · intro name
    rw [(g.mem_lists_file verdict name).2, lastFor_snoc, h.deny]
    split <;> simp
  · rw [Guardrails.file]
    split <;> exact h.rules
  · rw [Guardrails.file]
    split <;> exact h.registry

theorem Filed.fileAll (h : Filed verdicts g)
    (more : List (Str × Bool)) : Filed (verdicts ++ more) (more.foldl Guardrails.file g) := by
  induction more generalizing verdicts g with
  | nil =>
    rw [List.append_nil]
    exact h
  | cons verdict more ih =>
    have hnext := ih (h.file verdict)
    rw [List.append_assoc] at hnext
    exact hnext

theorem run_filed {ops : List (GuardOp α)} (h : ∀ op ∈ ops, op.isListing = true) :
    ∃ g, (guardMachine α none).run (guardMachine α none).init ops = some g ∧
      Filed (ops.flatMap GuardOp.verdicts) g := by
  induction ops using List.reverseRecOn with
  | nil => exact ⟨_, rfl, filed_new⟩
  | append_singleton ops op ih =>
    obtain ⟨g, hrun, hfiled⟩ := ih (fun o ho => h o (List.mem_append_left _ ho))
    have hop := h op (List.mem_append_right _ (List.mem_singleton_self op))
    refine ⟨op.apply g, ?_, ?_⟩
    · rw [Machine.run_append, hrun]
      rfl
    · rw [GuardOp.apply_eq_foldl hop, List.flatMap_append, List.flatMap_singleton]
      exact hfiled.fileAll op.verdicts

theorem Filed.unique {verdicts verdicts' : List (Str × Bool)} {g g' : Guardrails α}
    (h : Filed verdicts g) (h' : Filed verdicts' g')
    (hlast : ∀ name, lastFor name verdicts = lastFor name verdicts') : g = g' := by
  have hallow : g.allowList = g'.allowList := by
    ext name
    rw [h.allow, h'.allow, hlast]
  have hdeny : g.denyList = g'.denyList := by
    ext name
    rw [h.deny, h'.deny, hlast]
  have hrules := h.rules.trans h'.rules.symm
  have hregistry := h.registry.trans h'.registry.symm
  cases g
  cases g'
  cases hallow
  cases hdeny
  cases hrules
  cases hregistry
  rfl

theorem Filed.check_iff
    (h : Filed verdicts g)
    (name : Str) (args : α) :
    (g.check name args).allowed = true ↔ lastFor name verdicts = some true ∨
      (lastFor name verdicts = none ∧ ∀ n, lastFor n verdicts ≠ some true) := by
  have hpasses : g.Passes name args := by
    refine ⟨?_, ?_⟩
    · rw [h.rules]
      exact fun rule hrule => absurd hrule List.not_mem_nil
    · rw [Guardrails.unavailable, h.registry]
  have hempty : g.allowList = ∅ ↔ ∀ n, lastFor n verdicts ≠ some true := by
    rw [Finset.eq_empty_iff_forall_notMem]
    exact forall_congr' fun n => not_congr (h.allow n)
  rw [Guardrails.check_allowed_iff, h.deny, h.allow, hempty, and_iff_left hpasses]
  cases hlast : lastFor name verdicts with
  | none => simp
  | some verdict =>
    cases verdict with
    | true | false => simp

theorem lastVerdict_swap {op op' : GuardOp α} (h : ∀ name ∈ op.names, name ∉ op'.names)
    (before after : List (GuardOp α)) (name : Str) :
    lastVerdict (before ++ op' :: op :: after) name =
      lastVerdict (before ++ op :: op' :: after) name := by
  simp only [lastVerdict, List.flatMap_append, List.flatMap_cons, lastFor_append]
  by_cases hname : name ∈ op.names
  · rw [lastFor_eq_none.mpr (h name hname)]
    simp
  · rw [lastFor_eq_none.mpr hname]
    simp

theorem lastVerdict_covered {op op' : GuardOp α} (h : ∀ name ∈ op.names, name ∈ op'.names)
    (before after : List (GuardOp α)) (name : Str) :
    lastVerdict (before ++ op' :: after) name =
      lastVerdict (before ++ op :: op' :: after) name := by
  simp only [lastVerdict, List.flatMap_append, List.flatMap_cons, lastFor_append]
  by_cases hname : name ∈ op.names
  · have hlater : lastFor name op'.verdicts ≠ none :=
      fun hnone => lastFor_eq_none.mp hnone (h name hname)
    obtain ⟨verdict, hverdict⟩ := Option.ne_none_iff_exists'.mp hlater
    rw [hverdict]
    simp
  · rw [lastFor_eq_none.mpr hname]
    simp

/-- **The last verdict wins.**  Behind any run of operations on the lists, no name is
on both; a tool is allowed exactly if the last verdict on it allowed it, or there is
none and no name was allowed last; and nothing but the last verdict on each name
matters: operations on different names can change places, and one whose names are all
named again by the next could be left out. -/
theorem guardrails_follow_last_verdict {ops : List (GuardOp α)}
    (h : ∀ op ∈ ops, op.isListing = true) :
    ∃ g, (guardMachine α none).run (guardMachine α none).init ops = some g ∧
      Disjoint g.allowList g.denyList ∧
      (∀ name args, (g.check name args).allowed = true ↔ lastVerdict ops name = some true ∨
        (lastVerdict ops name = none ∧ ∀ n, lastVerdict ops n ≠ some true)) ∧
      (∀ ops', (∀ op ∈ ops', op.isListing = true) →
        (∀ name, lastVerdict ops' name = lastVerdict ops name) →
          (guardMachine α none).run (guardMachine α none).init ops' = some g) ∧
      (∀ before op op' after, ops = before ++ op :: op' :: after →
        (∀ name ∈ op.names, name ∉ op'.names) →
          (guardMachine α none).run (guardMachine α none).init
            (before ++ op' :: op :: after) = some g) ∧
      ∀ before op op' after, ops = before ++ op :: op' :: after →
        (∀ name ∈ op.names, name ∈ op'.names) →
          (guardMachine α none).run (guardMachine α none).init (before ++ op' :: after) =
            some g := by
  obtain ⟨g, hrun, hfiled⟩ := run_filed h
  have hsame : ∀ ops' : List (GuardOp α), (∀ op ∈ ops', op.isListing = true) →
      (∀ name, lastVerdict ops' name = lastVerdict ops name) →
        (guardMachine α none).run (guardMachine α none).init ops' = some g := by
    intro ops' hops' hlast
    obtain ⟨g', hrun', hfiled'⟩ := run_filed hops'
    rw [hrun', hfiled'.unique hfiled hlast]
  refine ⟨g, hrun, ?_, hfiled.check_iff, hsame, ?_, ?_⟩
  · rw [Finset.disjoint_left]
    intro name hallow hdeny
    have hboth := (hfiled.allow name).mp hallow
    rw [(hfiled.deny name).mp hdeny] at hboth
    cases hboth
  · rintro before op op' after rfl hnames
    refine hsame _ (fun o ho => h o ?_) (lastVerdict_swap hnames before after)
    simp only [List.mem_append, List.mem_cons] at ho ⊢
    tauto
  · rintro before op op' after rfl hnames
    refine hsame _ (fun o ho => h o ?_) (lastVerdict_covered hnames before after)
    simp only [List.mem_append, List.mem_cons] at ho ⊢
    tauto

/-- A tool is allowed, denied together with another one, and allowed again. -/
def reconsidered : List (GuardOp Unit) :=
  [.allow (lit "tool_a"), .denyAll [lit "tool_a", lit "tool_b"], .allow (lit "tool_a")]

theorem guardrails_follow_last_verdict_reconsidered :
    ∃ g, (guardMachine Unit none).run (guardMachine Unit none).init reconsidered = some g ∧
      Disjoint g.allowList g.denyList ∧ (g.check (lit "tool_a") ()).allowed = true ∧
      (guardMachine Unit none).run (guardMachine Unit none).init
        [.denyAll [lit "tool_a", lit "tool_b"], .allow (lit "tool_a")] = some g := by
  have hlisting : ∀ op ∈ reconsidered, op.isListing = true := by
    intro op hop
    simp only [reconsidered, List.mem_cons, List.not_mem_nil, or_false] at hop
    rcases hop with rfl | rfl | rfl <;> rfl
  obtain ⟨g, hrun, hdisjoint, hcheck, -, -, hcovered⟩ := guardrails_follow_last_verdict hlisting
  refine ⟨g, hrun, hdisjoint, (hcheck _ ()).mpr (Or.inl (by decide)), ?_⟩
  exact hcovered [] _ _ _ rfl (by decide)

end Verdicts

end MiniGoAgent
