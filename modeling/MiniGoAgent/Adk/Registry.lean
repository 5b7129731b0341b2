/-
# `Adk.Registry` — what is remembered of a tool's availability (`internal/adk/tool/registry.go`)

`Check` asks a tool's check function whether the tool can be used, and remembers the
answer: a result for 30 seconds in `checkCache`, and the time of the last success in
`lastSuccessTime`, which turns failures into successes for 60 seconds.  Both maps are
keyed by the name of the tool.

`Register` and `RegisterCheckFn` give a name another tool or another check function and
leave both maps as they are, so what was learnt of the old one is answered for the new
one (`fresh_fails`).  `Unregister` clears them.  `fresh_of_quiet` says that nothing else
is wrong.

A tool is a pointer, `checkFn` what it points to: a tool registered under two names gets
its check function from either.  Check functions are values of any type; what they
answer is part of the call.  Times are nanoseconds.
-/
import MiniGoAgent.Go.Str
import Mathlib.Logic.Function.Basic
import Mathlib.Data.Int.Order.Basic

open Go

namespace MiniGoAgent

namespace Registry

variable {α : Type}

def checkFnTTL : Int := 30000000000
def checkFnFailureGrace : Int := 60000000000

structure CheckCacheEntry where
  available : Bool
  expiresAt : Int
  deriving DecidableEq, Repr

/-- `ToolRegistry`, and the check functions of the tools. -/
structure ToolRegistry (α : Type) where
  checkFn : Nat → Option α
  tools : Str → Option Nat := fun _ => none
  checkCache : Str → Option CheckCacheEntry := fun _ => none
  lastSuccessTime : Str → Option Int := fun _ => none

namespace ToolRegistry

/-- `NewToolRegistry`; the tools have been made. -/
def new (checkFn : Nat → Option α) : ToolRegistry α := { checkFn }

/-- `Register`; a nil tool is none. -/
def register (r : ToolRegistry α) (name : Str) (t : Option Nat) : ToolRegistry α :=
  { r with tools := Function.update r.tools name t }

def unregister (r : ToolRegistry α) (name : Str) : ToolRegistry α :=
  { r with
    tools := Function.update r.tools name none
    checkCache := Function.update r.checkCache name none
    lastSuccessTime := Function.update r.lastSuccessTime name none }

def registerCheckFn (r : ToolRegistry α) (name : Str) (fn : Option α) : ToolRegistry α :=
  match r.tools name with
  | none => r
  | some t => { r with checkFn := Function.update r.checkFn t fn }

def invalidateCache (r : ToolRegistry α) (name : Str) : ToolRegistry α :=
  { r with checkCache := Function.update r.checkCache name none }

def clearCache (r : ToolRegistry α) : ToolRegistry α :=
  { r with checkCache := fun _ => none, lastSuccessTime := fun _ => none }

/-- `Tool.Check`: a tool without a check function is available. -/
def probe (r : ToolRegistry α) (answer : α → Bool) (t : Nat) : Bool :=
  match r.checkFn t with
  | none => true
  | some fn => answer fn

def cached (r : ToolRegistry α) (name : Str) (now : Int) : Option Bool :=
  match r.checkCache name with
  | none => none
  | some e => if now < e.expiresAt then some e.available else none

/-- The last success is not too long ago. -/
def inGrace (r : ToolRegistry α) (name : Str) (now : Int) : Bool :=
  match r.lastSuccessTime name with
  | none => false
  | some lastSuccess => now - lastSuccess < checkFnFailureGrace

/-- `Check`; it reads the clock at `started`, and at `now` behind the probe. -/
def check (r : ToolRegistry α) (name : Str) (answer : α → Bool) (started now : Int) :
    ToolRegistry α × Bool :=
  match r.cached name started with
  | some available => (r, available)
  | none =>
    match r.tools name with
    | none => (r, false)
    | some t =>
      if r.probe answer t then
        ({ r with
            checkCache := Function.update r.checkCache name (some ⟨true, now + checkFnTTL⟩)
            lastSuccessTime := Function.update r.lastSuccessTime name (some now) }, true)
      else if r.inGrace name now then (r, true)
      else
        ({ r with
            checkCache := Function.update r.checkCache name (some ⟨false, now + checkFnTTL⟩) },
          false)

end ToolRegistry

/-! ## Runs -/

inductive Op (α : Type) where
  | register (name : Str) (t : Option Nat)
  | registerCheckFn (name : Str) (fn : Option α)
  | unregister (name : Str)
  | check (name : Str) (answer : α → Bool)
  | invalidateCache (name : Str)
  | clearCache

/-- An operation and the clock at its start and at its end. -/
structure Event (α : Type) where
  op : Op α
  started : Int
  finished : Int

def Timed : Int → List (Event α) → Prop
  | _, [] => True
  | now, e :: rest => now ≤ e.started ∧ e.started ≤ e.finished ∧ Timed e.finished rest

namespace ToolRegistry

def step (r : ToolRegistry α) (e : Event α) : ToolRegistry α :=
  match e.op with
  | .register name t => r.register name t
  | .registerCheckFn name fn => r.registerCheckFn name fn
  | .unregister name => r.unregister name
  | .check name answer => (r.check name answer e.started e.finished).1
  | .invalidateCache name => r.invalidateCache name
  | .clearCache => r.clearCache

def run (r : ToolRegistry α) (events : List (Event α)) : ToolRegistry α := events.foldl step r

/-- What an operation answers about the name. -/
def answer (r : ToolRegistry α) (name : Str) (e : Event α) : Option Bool :=
  match e.op with
  | .check n f => if n = name then some (r.check n f e.started e.finished).2 else none
  | _ => none

def answers (name : Str) : ToolRegistry α → List (Event α) → List Bool
  | _, [] => []
  | r, e :: rest => (r.answer name e).toList ++ answers name (r.step e) rest

/-- The tool that a name stands for, with its check function. -/
def binding (r : ToolRegistry α) (name : Str) : Option (Nat × Option α) :=
  (r.tools name).map (fun t => (t, r.checkFn t))

end ToolRegistry

open Registry.ToolRegistry

/-- The operation gives the name another meaning. -/
def Replaces (r : ToolRegistry α) (e : Event α) (name : Str) : Prop :=
  (r.step e).binding name ≠ r.binding name ∨ e.op = .unregister name

/-- From an operation on that gives a name another meaning, the answers about the name are
those of a registry that has no results. -/
def Fresh (r : ToolRegistry α) (events : List (Event α)) : Prop :=
  ∀ before e after, events = before ++ e :: after → ∀ name, Replaces (r.run before) e name →
    answers name (r.run (before ++ [e])) after =
      answers name (r.run (before ++ [e])).clearCache after

/-- Whatever is remembered under the name has run out. -/
def Settled (r : ToolRegistry α) (now : Int) (name : Str) : Prop :=
  (∀ entry, r.checkCache name = some entry → entry.expiresAt ≤ now) ∧
    ∀ lastSuccess, r.lastSuccessTime name = some lastSuccess →
      checkFnFailureGrace ≤ now - lastSuccess

/-- A name that stands for a tool is given another meaning by `Unregister`, or when
whatever is remembered under it has run out. -/
def Quiet (r : ToolRegistry α) (e : Event α) : Prop :=
  ∀ name, r.binding name ≠ none → (r.step e).binding name ≠ r.binding name →
    e.op ≠ .unregister name → Settled r e.started name

/-- Every operation of a run is quiet. -/
def QuietRun : ToolRegistry α → List (Event α) → Prop
  | _, [] => True
  | r, e :: rest => Quiet r e ∧ QuietRun (r.step e) rest

/-! ## What `Check` changes -/

namespace ToolRegistry

variable (r : ToolRegistry α) (n : Str) (f : α → Bool) (t₀ t₁ : Int)

theorem check_frame :
    (r.check n f t₀ t₁).1.tools = r.tools ∧ (r.check n f t₀ t₁).1.checkFn = r.checkFn ∧
      ∀ name, name ≠ n →
        (r.check n f t₀ t₁).1.checkCache name = r.checkCache name ∧
          (r.check n f t₀ t₁).1.lastSuccessTime name = r.lastSuccessTime name := by
  fun_cases ToolRegistry.check r n f t₀ t₁ <;> refine ⟨rfl, rfl, ?_⟩ <;>
    intro name hne <;> simp [Function.update_of_ne hne]

theorem check_unbound (h : r.tools n = none) : (r.check n f t₀ t₁).1 = r := by
  unfold check
  rw [h]
  split <;> rfl

end ToolRegistry

/-! ## Registries that give the same answers -/

/-- What `u` has of a map that `r` keeps: the same, or nothing where `r` has something that
has run out. -/
def SameUntil {β : Type} (dead : β → Prop) (r u : Option β) : Prop :=
  u = r ∨ (u = none ∧ ∀ b, r = some b → dead b)

theorem SameUntil.delete {β : Type} {dead : β → Prop} {f g : Str → Option β} {name : Str}
    (h : SameUntil dead (f name) (g name)) (n : Str) :
    SameUntil dead (Function.update f n none name) (Function.update g n none name) := by
  by_cases hn : name = n
  · subst hn
    exact Or.inl (by simp)
  · rw [Function.update_of_ne hn, Function.update_of_ne hn]
    exact h

/-- The registries mean the same by all names, and remember the same under the name but for
what has run out. -/
structure Agree (now : Int) (name : Str) (r u : ToolRegistry α) : Prop where
  tools : u.tools = r.tools
  checkFn : u.checkFn = r.checkFn
  cache : SameUntil (fun entry => entry.expiresAt ≤ now) (r.checkCache name) (u.checkCache name)
  success : SameUntil (fun lastSuccess => checkFnFailureGrace ≤ now - lastSuccess)
    (r.lastSuccessTime name) (u.lastSuccessTime name)

namespace Agree

variable {now : Int} {name : Str} {r u : ToolRegistry α}

theorem later (h : Agree now name r u) {now' : Int} (hle : now ≤ now') : Agree now' name r u := by
  refine ⟨h.tools, h.checkFn, ?_, ?_⟩
  · rcases h.cache with hsame | ⟨hnone, hdead⟩
    · exact Or.inl hsame
    · exact Or.inr ⟨hnone, fun entry he => le_trans (hdead entry he) hle⟩
  · rcases h.success with hsame | ⟨hnone, hdead⟩
    · exact Or.inl hsame
    · refine Or.inr ⟨hnone, ?_⟩
      intro lastSuccess hl
      have := hdead lastSuccess hl
      omega

theorem cached_eq (h : Agree now name r u) : u.cached name now = r.cached name now := by
  unfold ToolRegistry.cached
  rcases h.cache with hsame | ⟨hnone, hdead⟩
  · rw [hsame]
  · rw [hnone]
    cases hr : r.checkCache name with
    | none => rfl
    | some entry => exact (if_neg (not_lt.mpr (hdead entry hr))).symm

theorem inGrace_eq (h : Agree now name r u) : u.inGrace name now = r.inGrace name now := by
  unfold ToolRegistry.inGrace
  rcases h.success with hsame | ⟨hnone, hdead⟩
  · rw [hsame]
  · rw [hnone]
    cases hr : r.lastSuccessTime name with
    | none => rfl
    | some lastSuccess => exact (decide_eq_false (not_lt.mpr (hdead lastSuccess hr))).symm

theorem probe_eq (h : Agree now name r u) (f : α → Bool) (t : Nat) : u.probe f t = r.probe f t := by
  unfold ToolRegistry.probe
  rw [h.checkFn]

theorem check {t₀ t₁ : Int} (h : Agree t₀ name r u) (hle : t₀ ≤ t₁) (f : α → Bool) :
    (u.check name f t₀ t₁).2 = (r.check name f t₀ t₁).2 ∧
      Agree t₁ name (r.check name f t₀ t₁).1 (u.check name f t₀ t₁).1 := by
  have hlate := h.later hle
  unfold ToolRegistry.check
  rw [h.cached_eq, h.tools]
  cases r.cached name t₀ with
  | some available => exact ⟨rfl, hlate⟩
  | none =>
    cases r.tools name with
    | none => exact ⟨rfl, hlate⟩
    | some t =>
      dsimp only
      rw [h.probe_eq, hlate.inGrace_eq]
      by_cases hprobe : r.probe f t = true
      · rw [if_pos hprobe, if_pos hprobe]
        exact ⟨rfl, rfl, h.checkFn, Or.inl (by simp), Or.inl (by simp)⟩
      · rw [if_neg hprobe, if_neg hprobe]
        by_cases hgrace : r.inGrace name t₁ = true
        · rw [if_pos hgrace, if_pos hgrace]
          exact ⟨rfl, hlate⟩
        · rw [if_neg hgrace, if_neg hgrace]
          exact ⟨rfl, rfl, h.checkFn, Or.inl (by simp), hlate.success⟩

theorem step {e : Event α} (h : Agree now name r u) (hstart : now ≤ e.started)
    (hend : e.started ≤ e.finished) :
    u.answer name e = r.answer name e ∧ Agree e.finished name (r.step e) (u.step e) := by
  have hlate := h.later (le_trans hstart hend)
  unfold ToolRegistry.answer ToolRegistry.step
  cases e.op with
  | register n t =>
    refine ⟨rfl, ?_, h.checkFn, hlate.cache, hlate.success⟩
    show Function.update u.tools n t = Function.update r.tools n t
    rw [h.tools]
  | registerCheckFn n fn =>
    refine ⟨rfl, ?_⟩
    dsimp only
    unfold ToolRegistry.registerCheckFn
    rw [h.tools]
    cases r.tools n with
    | none => exact hlate
    | some t =>
      refine ⟨rfl, ?_, hlate.cache, hlate.success⟩
      show Function.update u.checkFn t fn = Function.update r.checkFn t fn
      rw [h.checkFn]
  | unregister n =>
    refine ⟨rfl, ?_, h.checkFn, ?_, ?_⟩
    · show Function.update u.tools n none = Function.update r.tools n none
      rw [h.tools]
    · exact hlate.cache.delete n
    · exact hlate.success.delete n
  | check n f =>
    dsimp only
    by_cases hn : n = name
    · subst hn
      obtain ⟨hanswer, hagree⟩ := (h.later hstart).check hend f
      rw [if_pos rfl, if_pos rfl, hanswer]
      exact ⟨rfl, hagree⟩
    · rw [if_neg hn, if_neg hn]
      obtain ⟨htools, hfn, hother⟩ := r.check_frame n f e.started e.finished
      obtain ⟨htools', hfn', hother'⟩ := u.check_frame n f e.started e.finished
      have hname : name ≠ n := fun h => hn h.symm
      refine ⟨rfl, ?_, ?_, ?_, ?_⟩
      · rw [htools, htools', h.tools]
      · rw [hfn, hfn', h.checkFn]
      · rw [(hother name hname).1, (hother' name hname).1]
        exact hlate.cache
      · rw [(hother name hname).2, (hother' name hname).2]
        exact hlate.success
  | invalidateCache n =>
    exact ⟨rfl, h.tools, h.checkFn, hlate.cache.delete n, hlate.success⟩
  | clearCache => exact ⟨rfl, h.tools, h.checkFn, Or.inl rfl, Or.inl rfl⟩

variable {events : List (Event α)}

theorem answers_eq (h : Agree now name r u) (htimed : Timed now events) :
    answers name r events = answers name u events := by
  induction events generalizing now r u with
  | nil => rfl
  | cons e rest ih =>
    obtain ⟨hstart, hend, hrest⟩ := htimed
    obtain ⟨hanswer, hagree⟩ := h.step hstart hend
    rw [answers, answers, hanswer, ih hagree hrest]

end Agree

/-! ## Runs in which nothing is replaced too early -/

section Quiet

variable {r : ToolRegistry α} {e : Event α} {name : Str} {now : Int}

theorem binding_eq_none : r.binding name = none ↔ r.tools name = none := by
  rw [ToolRegistry.binding, Option.map_eq_none_iff]

theorem settled_iff_agree : Settled r now name ↔ Agree now name r r.clearCache := by
  refine ⟨fun h => ⟨rfl, rfl, Or.inr ⟨rfl, h.1⟩, Or.inr ⟨rfl, h.2⟩⟩, fun h => ⟨?_, ?_⟩⟩
  · rcases h.cache with hsame | ⟨_, hdead⟩
    · exact fun entry he => nomatch hsame.trans he
    · exact hdead
  · rcases h.success with hsame | ⟨_, hdead⟩
    · exact fun entry he => nomatch hsame.trans he
    · exact hdead

theorem update_none {β : Type} {f : Str → Option β} (h : f name = none) (n : Str) :
    Function.update f n none name = none := by
  rw [Function.update_apply, h, ite_self]

theorem step_remembers (h : (r.step e).binding name ≠ r.binding name ∨ r.tools name = none)
    (hcache : r.checkCache name = none) (hsuccess : r.lastSuccessTime name = none) :
    (r.step e).checkCache name = none ∧ (r.step e).lastSuccessTime name = none := by
  unfold step at h ⊢
  cases hop : e.op with
  | register n t => exact ⟨hcache, hsuccess⟩
  | registerCheckFn n fn =>
    dsimp only
    unfold ToolRegistry.registerCheckFn
    cases r.tools n with
    | none | some => exact ⟨hcache, hsuccess⟩
  | unregister n => exact ⟨update_none hcache n, update_none hsuccess n⟩
  | invalidateCache n => exact ⟨update_none hcache n, hsuccess⟩
  | clearCache => exact ⟨rfl, rfl⟩
  | check n f =>
    rw [hop] at h
    dsimp only at h ⊢
    obtain ⟨htools, hfn, hother⟩ := r.check_frame n f e.started e.finished
    by_cases hn : name = n
    · subst hn
      have hnone : r.tools name = none := h.resolve_left fun hne =>
        hne (by rw [ToolRegistry.binding, ToolRegistry.binding, htools, hfn])
      rw [check_unbound r name f _ _ hnone]
      exact ⟨hcache, hsuccess⟩
    · rw [(hother name hn).1, (hother name hn).2]
      exact ⟨hcache, hsuccess⟩

theorem settled_unregister (hop : e.op = .unregister name) (t : Int) :
    Settled (r.step e) t name := by
  rw [step, hop]
  simp [Settled, ToolRegistry.unregister]

theorem settled_step (hunbound : r.tools name = none → Settled r now name) (hquiet : Quiet r e)
    (hstart : now ≤ e.started) (hend : e.started ≤ e.finished)
    (hchange : (r.step e).binding name ≠ r.binding name ∨ r.tools name = none) :
    Settled (r.step e) e.finished name := by
  by_cases hop : e.op = .unregister name
  · exact settled_unregister hop _
  · have hbefore : Agree e.started name r r.clearCache := by
      by_cases hnone : r.tools name = none
      · exact (settled_iff_agree.mp (hunbound hnone)).later hstart
      · have hne := hchange.resolve_right hnone
        exact settled_iff_agree.mp (hquiet name (fun h => hnone (binding_eq_none.mp h)) hne hop)
    obtain ⟨_, hafter⟩ := hbefore.step (le_refl _) hend
    have hbinding : (r.clearCache.step e).binding name = (r.step e).binding name := by
      rw [ToolRegistry.binding, ToolRegistry.binding, hafter.tools, hafter.checkFn]
    have hchange' : (r.clearCache.step e).binding name ≠ r.clearCache.binding name ∨
        r.clearCache.tools name = none := by
      rw [hbinding]
      exact hchange
    obtain ⟨hcache, hsuccess⟩ := step_remembers hchange' rfl rfl
    refine settled_iff_agree.mpr ⟨rfl, rfl, ?_, ?_⟩
    · exact Eq.subst hcache hafter.cache
    · exact Eq.subst hsuccess hafter.success

end Quiet

theorem run_quiet {now : Int} {r : ToolRegistry α}
    (htimed : Timed now events) (hquiet : QuietRun r events)
    (hr : ∀ name, r.tools name = none → Settled r now name) :
    ∀ before e after, events = before ++ e :: after →
      ∃ t, t ≤ e.started ∧ e.started ≤ e.finished ∧ Timed e.finished after ∧
        Quiet (r.run before) e ∧
        ∀ name, (r.run before).tools name = none → Settled (r.run before) t name := by
  induction events generalizing now r with
  | nil => intro before e after heq; exact absurd heq (by simp)
  | cons e₀ rest ih =>
    obtain ⟨hstart, hend, hrest⟩ := htimed
    obtain ⟨hhere, hlater⟩ := hquiet
    intro before e after heq
    cases before with
    | nil =>
      rw [List.nil_append, List.cons.injEq] at heq
      obtain ⟨rfl, rfl⟩ := heq
      exact ⟨now, hstart, hend, hrest, hhere, hr⟩
    | cons e₁ before =>
      rw [List.cons_append, List.cons.injEq] at heq
      obtain ⟨rfl, rfl⟩ := heq
      refine ih hrest hlater ?_ before e after rfl
      intro name hnone
      refine settled_step (hr name) hhere hstart hend ?_
      by_cases hbound : r.tools name = none
      · exact Or.inr hbound
      · refine Or.inl ?_
        rw [binding_eq_none.mpr hnone]
        exact fun h => hbound (binding_eq_none.mp h.symm)

/-- If every name that is given another meaning has nothing remembered under it that still
counts, no answer rests on what was learnt of an earlier meaning. -/
theorem fresh_of_quiet (checkFn : Nat → Option α) {now : Int}
    (htimed : Timed now events) (hquiet : QuietRun (new checkFn) events) :
    Fresh (new checkFn) events := by
  have hnew : ∀ name, (new checkFn).tools name = none → Settled (new checkFn) now name := by
    intro name _
    simp [Settled, new]
  intro before e after heq name hrep
  obtain ⟨t, hstart, hend, hafter, hhere, hunbound⟩ :=
    run_quiet htimed hquiet hnew before e after heq
  have hsettled : Settled (((new checkFn).run before).step e) e.finished name := by
    rcases hrep with hne | hop
    · exact settled_step (hunbound name) hhere hstart hend (Or.inl hne)
    · exact settled_unregister hop _
  have hlast : (new checkFn).run (before ++ [e]) = ((new checkFn).run before).step e := by
    rw [run, List.foldl_append]
    rfl
  rw [hlast]
  exact (settled_iff_agree.mp hsettled).answers_eq hafter

/-- A tool is replaced half a minute after it was found unavailable, and asked for again. -/
def lateReplacement : List (Event Unit) :=
  [⟨.register (lit "add") (some 0), 0, 0⟩, ⟨.check (lit "add") (fun _ => false), 1, 1⟩,
   ⟨.register (lit "add") (some 1), 30000000001, 30000000001⟩,
   ⟨.check (lit "add") (fun _ => true), 30000000002, 30000000002⟩]

def oneChecked (t : Nat) : Option Unit := if t = 0 then some () else none

theorem quietRun_lateReplacement : QuietRun (new oneChecked) lateReplacement := by
  refine ⟨?_, ?_, ?_, ?_, trivial⟩
  · intro name hbound
    exact absurd rfl hbound
  · intro name _ hne
    exact absurd rfl hne
  · intro name hbound _ _
    by_cases hname : name = lit "add"
    · subst hname
      refine ⟨?_, ?_⟩
      · intro entry hentry
        have hcached : entry = ⟨false, 30000000001⟩ := (Option.some.inj hentry).symm
        rw [hcached]
      · intro lastSuccess hl
        have hnone : none = some lastSuccess := hl
        cases hnone
    · exact absurd (Option.map_eq_none_iff.mpr (Function.update_of_ne hname _ _)) hbound
  · intro name _ hne
    exact absurd rfl hne

theorem fresh_of_quiet_lateReplacement : Fresh (new oneChecked) lateReplacement :=
  fresh_of_quiet oneChecked (show Timed 0 lateReplacement by simp [Timed, lateReplacement])
    quietRun_lateReplacement

/-- A tool is found available, gets another check function, and is asked for again. -/
def newCheckFn : List (Event Unit) :=
  [⟨.register (lit "add") (some 0), 0, 0⟩, ⟨.check (lit "add") (fun _ => true), 1, 1⟩,
   ⟨.registerCheckFn (lit "add") (some ()), 2, 2⟩, ⟨.check (lit "add") (fun _ => false), 3, 3⟩]

/-- A tool is found unavailable and replaced by one that is always available. -/
def newTool : List (Event Unit) :=
  [⟨.register (lit "add") (some 0), 0, 0⟩, ⟨.check (lit "add") (fun _ => false), 1, 1⟩,
   ⟨.register (lit "add") (some 1), 2, 2⟩, ⟨.check (lit "add") (fun _ => false), 3, 3⟩]

/-- The new check function is not asked, and neither is the new tool. -/
theorem fresh_fails :
    (Timed 0 newCheckFn ∧ ¬ Fresh (new (fun _ => none)) newCheckFn) ∧
      Timed 0 newTool ∧
        ¬ Fresh (new oneChecked) newTool := by
  refine ⟨⟨by simp [Timed, newCheckFn], ?_⟩, by simp [Timed, newTool], ?_⟩
  · intro h
    have hsame := h (newCheckFn.take 2) _ _ rfl (lit "add") (Or.inl (by decide))
    exact absurd hsame (by decide)
  · intro h
    have hsame := h (newTool.take 2) _ _ rfl (lit "add") (Or.inl (by decide))
    exact absurd hsame (by decide)

end Registry

end MiniGoAgent
