/-
# `Adk.Probes` — what the answers about a tool say of its probes (`registry.go`, `Check`)

`checkCache` holds answers for 30 seconds and `lastSuccessTime` the last success, but not
every answer is cached: one that is given because the last success is less than a minute
ago is not.  `Remembers` says what the two maps know of the probes made so far.  Each
operation keeps it (`Remembers.step`), and what `Check` answers follows from it
(`check_tells_last_minute`).

The calls are made one after the other, and a name has its own history: a tool that is
registered under two names is probed for each of them.
-/
import MiniGoAgent.Adk.Registry

open Go

namespace MiniGoAgent

namespace Registry

variable {α : Type} {e : Event α} {r : ToolRegistry α} {f : α → Bool} {name : Str}

/-- When a probe was over, and its outcome. -/
structure Probe where
  finished : Int
  available : Bool
  deriving DecidableEq, Repr

/-- The operation is `Check` or `InvalidateCache`. -/
def Op.isUse : Op α → Bool
  | .check _ _ => true
  | .invalidateCache _ => true
  | _ => false

namespace ToolRegistry

/-- The probe that an operation makes for the name. -/
def probed (r : ToolRegistry α) (name : Str) (e : Event α) : Option Probe :=
  match e.op with
  | .check n f =>
    if n = name ∧ r.cached n e.started = none then
      (r.tools n).map (fun t => ⟨e.finished, r.probe f t⟩)
    else none
  | _ => none

def probes (name : Str) : ToolRegistry α → List (Event α) → List Probe
  | _, [] => []
  | r, e :: rest => (r.probed name e).toList ++ probes name (r.step e) rest

/-- The last clock reading of a `Check` of the name. -/
def readAt (r : ToolRegistry α) (name : Str) (e : Event α) : Int :=
  if (r.cached name e.started).isSome then e.started else e.finished

theorem probes_snoc (name : Str) (r : ToolRegistry α) (before : List (Event α)) (e : Event α) :
    probes name r (before ++ [e]) =
      probes name r before ++ ((r.run before).probed name e).toList := by
  induction before generalizing r with
  | nil =>
    show (r.probed name e).toList ++ [] = [] ++ (r.probed name e).toList
    rw [List.append_nil, List.nil_append]
  | cons e₀ before ih =>
    rw [List.cons_append, probes, probes, ih, List.append_assoc]
    rfl

theorem probed_of_cached {available : Bool}
    (h : r.cached name e.started = some available) : r.probed name e = none := by
  unfold probed
  cases e.op with
  | check n f =>
    refine if_neg ?_
    rintro ⟨rfl, hnone⟩
    rw [h] at hnone
    cases hnone
  | _ => rfl

theorem probed_of_not_cached
    {t : Nat} (hop : e.op = .check name f) (h : r.cached name e.started = none)
    (ht : r.tools name = some t) : r.probed name e = some ⟨e.finished, r.probe f t⟩ := by
  unfold probed
  rw [hop]
  dsimp only
  rw [if_pos ⟨rfl, h⟩, ht, Option.map_some]

theorem probed_of_ne {name n : Str}
    (hop : e.op = .check n f) (hne : n ≠ name) : r.probed name e = none := by
  unfold probed
  rw [hop]
  exact if_neg fun h => hne h.1

end ToolRegistry

open Registry.ToolRegistry

/-- What the registry knows of the probes made for the name up to `now`. -/
structure Remembers (name : Str) (log : List Probe) (now : Int) (r : ToolRegistry α) :
    Prop where
  tool : r.tools name ≠ none
  past : ∀ p ∈ log, p.finished ≤ now
  never : r.lastSuccessTime name = none → ∀ p ∈ log, p.available = false
  last : ∀ l, r.lastSuccessTime name = some l →
    ⟨l, true⟩ ∈ log ∧ ∀ p ∈ log, p.available = true → p.finished ≤ l
  /-- a cached `true` is half a minute old at most -/
  up : ∀ entry, r.checkCache name = some entry → entry.available = true →
    ⟨entry.expiresAt - checkFnTTL, true⟩ ∈ log
  /-- a cached `false` was given when no success was in its last minute -/
  down : ∀ entry, r.checkCache name = some entry → entry.available = false →
    entry.expiresAt - checkFnTTL ≤ now ∧ ∀ p ∈ log, p.available = true →
      checkFnFailureGrace ≤ entry.expiresAt - checkFnTTL - p.finished

namespace Remembers

variable {log : List Probe} {now : Int}

theorem later (h : Remembers name log now r) {now' : Int} (hle : now ≤ now') :
    Remembers name log now' r := by
  refine ⟨h.tool, fun p hp => le_trans (h.past p hp) hle, h.never, h.last, h.up, ?_⟩
  intro entry he hdown
  obtain ⟨hset, hold⟩ := h.down entry he hdown
  exact ⟨le_trans hset hle, hold⟩

theorem congr (h : Remembers name log now r) {r' : ToolRegistry α} (htool : r'.tools = r.tools)
    (hcache : r'.checkCache name = r.checkCache name)
    (hlast : r'.lastSuccessTime name = r.lastSuccessTime name) : Remembers name log now r' := by
  refine ⟨?_, h.past, ?_, ?_, ?_, ?_⟩
  · rw [htool]
    exact h.tool
  · rw [hlast]
    exact h.never
  · rw [hlast]
    exact h.last
  · rw [hcache]
    exact h.up
  · rw [hcache]
    exact h.down

theorem inGrace_iff (h : Remembers name log now r) (t : Int) :
    r.inGrace name t = true ↔ ∃ p ∈ log, p.available = true ∧
      t - p.finished < checkFnFailureGrace := by
  unfold ToolRegistry.inGrace
  cases hlast : r.lastSuccessTime name with
  | none =>
    refine iff_of_false Bool.false_ne_true ?_
    rintro ⟨p, hp, hsuccess, -⟩
    rw [h.never hlast p hp] at hsuccess
    exact Bool.false_ne_true hsuccess
  | some l =>
    obtain ⟨hmem, hmax⟩ := h.last l hlast
    rw [decide_eq_true_iff]
    constructor
    · intro hrecent
      exact ⟨⟨l, true⟩, hmem, rfl, hrecent⟩
    · rintro ⟨p, hp, hsuccess, hrecent⟩
      have := hmax p hp hsuccess
      omega

theorem success (h : Remembers name log now r) :
    Remembers name (log ++ [⟨now, true⟩]) now
      { r with
        checkCache := Function.update r.checkCache name (some ⟨true, now + checkFnTTL⟩)
        lastSuccessTime := Function.update r.lastSuccessTime name (some now) } := by
  have hhere : (⟨now, true⟩ : Probe) ∈ log ++ [⟨now, true⟩] := by simp
  have hpast : ∀ p ∈ log ++ [(⟨now, true⟩ : Probe)], p.finished ≤ now := by
    intro p hp
    rcases List.mem_append.mp hp with hp | hp
    · exact h.past p hp
    · rw [List.mem_singleton.mp hp]
  refine ⟨h.tool, hpast, ?_, ?_, ?_, ?_⟩
  · intro hnone
    exact absurd hnone (by simp)
  · intro l hl
    obtain rfl : now = l := by simpa using hl
    exact ⟨hhere, fun p hp _ => hpast p hp⟩
  · intro entry he _
    obtain rfl : ⟨true, now + checkFnTTL⟩ = entry := by simpa using he
    rw [Int.add_sub_cancel]
    exact hhere
  · intro entry he hdown
    obtain rfl : ⟨true, now + checkFnTTL⟩ = entry := by simpa using he
    cases hdown

theorem failure (h : Remembers name log now r) : Remembers name (log ++ [⟨now, false⟩]) now r := by
  have hold : ∀ p ∈ log ++ [(⟨now, false⟩ : Probe)], p.available = true → p ∈ log := by
    intro p hp hsuccess
    rcases List.mem_append.mp hp with hp | hp
    · exact hp
    · rw [List.mem_singleton.mp hp] at hsuccess
      cases hsuccess
  refine ⟨h.tool, ?_, ?_, ?_, ?_, ?_⟩
  · intro p hp
    rcases List.mem_append.mp hp with hp | hp
    · exact h.past p hp
    · rw [List.mem_singleton.mp hp]
  · intro hnone p hp
    by_contra hsuccess
    rw [Bool.not_eq_false] at hsuccess
    rw [h.never hnone p (hold p hp hsuccess)] at hsuccess
    exact Bool.false_ne_true hsuccess
  · intro l hl
    obtain ⟨hmem, hmax⟩ := h.last l hl
    exact ⟨List.mem_append_left _ hmem, fun p hp hs => hmax p (hold p hp hs) hs⟩
  · intro entry he hup
    exact List.mem_append_left _ (h.up entry he hup)
  · intro entry he hdown
    obtain ⟨hset, hgrace⟩ := h.down entry he hdown
    exact ⟨hset, fun p hp hs => hgrace p (hold p hp hs) hs⟩

theorem cacheFailure (h : Remembers name log now r) (hgrace : r.inGrace name now = false) :
    Remembers name log now
      { r with
        checkCache := Function.update r.checkCache name (some ⟨false, now + checkFnTTL⟩) } := by
  refine ⟨h.tool, h.past, h.never, h.last, ?_, ?_⟩
  · intro entry he hup
    obtain rfl : ⟨false, now + checkFnTTL⟩ = entry := by simpa using he
    cases hup
  · intro entry he _
    obtain rfl : ⟨false, now + checkFnTTL⟩ = entry := by simpa using he
    rw [Int.add_sub_cancel]
    refine ⟨le_refl _, ?_⟩
    intro p hp hs
    by_contra hrecent
    rw [(h.inGrace_iff now).mpr ⟨p, hp, hs, not_le.mp hrecent⟩] at hgrace
    cases hgrace

theorem check (h : Remembers name log now r)
    (hop : e.op = .check name f) (hstart : now ≤ e.started) (hend : e.started ≤ e.finished) :
    Remembers name (log ++ (r.probed name e).toList) e.finished
      (r.check name f e.started e.finished).1 := by
  have hlate := h.later (le_trans hstart hend)
  fun_cases ToolRegistry.check r name f e.started e.finished
  case case1 available hcached =>
    rw [probed_of_cached hcached, Option.toList_none, List.append_nil]
    exact hlate
  case case2 hnone => exact absurd hnone h.tool
  case case3 hcached t ht hprobe =>
    rw [probed_of_not_cached hop hcached ht, hprobe]
    exact hlate.success
  case case4 hcached t ht hprobe _ =>
    rw [probed_of_not_cached hop hcached ht, Bool.of_not_eq_true hprobe]
    exact hlate.failure
  case case5 hcached t ht hprobe hgrace =>
    rw [probed_of_not_cached hop hcached ht, Bool.of_not_eq_true hprobe]
    exact hlate.failure.cacheFailure (Bool.of_not_eq_true hgrace)

theorem step (h : Remembers name log now r) (huse : e.op.isUse = true)
    (hstart : now ≤ e.started) (hend : e.started ≤ e.finished) :
    Remembers name (log ++ (r.probed name e).toList) e.finished (r.step e) := by
  have hlate := h.later (le_trans hstart hend)
  unfold ToolRegistry.step
  cases hop : e.op with
  | check n f =>
    dsimp only
    by_cases hn : n = name
    · subst hn
      exact h.check hop hstart hend
    · obtain ⟨htools, -, hother⟩ := r.check_frame n f e.started e.finished
      obtain ⟨hcache, hlast⟩ := hother name (fun heq => hn heq.symm)
      rw [probed_of_ne hop hn, Option.toList_none, List.append_nil]
      exact hlate.congr htools hcache hlast
  | invalidateCache n =>
    have hprobed : r.probed name e = none := by rw [probed, hop]
    rw [hprobed, Option.toList_none, List.append_nil]
    dsimp only
    by_cases hn : n = name
    · subst hn
      refine ⟨h.tool, hlate.past, h.never, h.last, ?_, ?_⟩
      · intro entry he
        exact absurd he (by simp [ToolRegistry.invalidateCache])
      · intro entry he
        exact absurd he (by simp [ToolRegistry.invalidateCache])
    · exact hlate.congr rfl (Function.update_of_ne (fun heq => hn heq.symm) _ _) rfl
  | register | registerCheckFn | unregister | clearCache =>
    rw [hop] at huse
    cases huse

theorem cached_iff (h : Remembers name log now r) {t : Int} (hle : now ≤ t) {available : Bool}
    (hcached : r.cached name t = some available) :
    available = true ↔ ∃ p ∈ log, p.available = true ∧ t - p.finished < checkFnFailureGrace := by
  have httl : checkFnTTL < checkFnFailureGrace := by decide
  revert hcached
  fun_cases ToolRegistry.cached r name t
  case case2 entry hentry hfresh =>
    rintro ⟨⟩
    cases hup : entry.available with
    | true =>
      refine iff_of_true rfl ⟨_, h.up entry hentry hup, rfl, ?_⟩
      dsimp only
      omega
    | false =>
      obtain ⟨hset, hold⟩ := h.down entry hentry hup
      refine iff_of_false Bool.false_ne_true ?_
      rintro ⟨p, hp, hs, hrecent⟩
      have := hold p hp hs
      omega
  all_goals nofun

theorem answer_iff (h : Remembers name log now r)
    (hop : e.op = .check name f) (hstart : now ≤ e.started) (hend : e.started ≤ e.finished) :
    (r.check name f e.started e.finished).2 = true ↔
      ∃ p ∈ log ++ (r.probed name e).toList, p.available = true ∧
        r.readAt name e - p.finished < checkFnFailureGrace := by
  have hlate := h.later (le_trans hstart hend)
  fun_cases ToolRegistry.check r name f e.started e.finished
  case case1 available hcached =>
    rw [probed_of_cached hcached, Option.toList_none, List.append_nil, readAt, hcached]
    exact h.cached_iff hstart hcached
  case case2 hnone => exact absurd hnone h.tool
  case case3 hcached t ht hprobe =>
    rw [probed_of_not_cached hop hcached ht, hprobe, readAt, hcached]
    refine iff_of_true rfl ⟨⟨e.finished, true⟩, by simp, rfl, ?_⟩
    show e.finished - e.finished < checkFnFailureGrace
    rw [Int.sub_self]
    decide
  case case4 hcached t ht hprobe hgrace =>
    rw [probed_of_not_cached hop hcached ht, Bool.of_not_eq_true hprobe, readAt, hcached]
    exact iff_of_true rfl ((hlate.failure.inGrace_iff e.finished).mp hgrace)
  case case5 hcached t ht hprobe hgrace =>
    rw [probed_of_not_cached hop hcached ht, Bool.of_not_eq_true hprobe, readAt, hcached]
    exact iff_of_false Bool.false_ne_true
      fun hrecent => hgrace ((hlate.failure.inGrace_iff e.finished).mpr hrecent)

theorem run (h : Remembers name log now r) {events : List (Event α)} (htimed : Timed now events)
    (huse : ∀ e ∈ events, e.op.isUse = true) :
    ∀ before e after, events = before ++ e :: after →
      ∃ t, t ≤ e.started ∧ e.started ≤ e.finished ∧
        Remembers name (log ++ probes name r before) t (r.run before) := by
  induction events generalizing now log r with
  | nil =>
    intro before e after heq
    exact absurd heq (by simp)
  | cons e₀ rest ih =>
    obtain ⟨hstart, hend, hrest⟩ := htimed
    obtain ⟨hhere, hlater⟩ := List.forall_mem_cons.mp huse
    intro before e after heq
    cases before with
    | nil =>
      rw [List.nil_append, List.cons.injEq] at heq
      obtain ⟨rfl, -⟩ := heq
      refine ⟨now, hstart, hend, ?_⟩
      rw [probes, List.append_nil]
      exact h
    | cons e₁ before =>
      rw [List.cons_append, List.cons.injEq] at heq
      obtain ⟨rfl, hsplit⟩ := heq
      have hnext := ih (h.step hhere hstart hend) hrest hlater before e after hsplit
      rw [List.append_assoc] at hnext
      exact hnext

end Remembers

theorem remembers_nil {t : Nat} (ht : r.tools name = some t)
    (hcache : r.checkCache name = none) (hlast : r.lastSuccessTime name = none) (now : Int) :
    Remembers name [] now r := by
  refine ⟨?_, ?_, ?_, ?_, ?_, ?_⟩
  · rw [ht]
    exact Option.some_ne_none t
  · exact fun p hp => absurd hp List.not_mem_nil
  · exact fun _ p hp => absurd hp List.not_mem_nil
  · rw [hlast]
    exact fun l hl => nomatch hl
  · rw [hcache]
    exact fun entry he => nomatch he
  · rw [hcache]
    exact fun entry he => nomatch he

/-- **Answers and probes.**  In a run of `Check` and `InvalidateCache`, of any names, on a
registry that has a tool under the name and remembers nothing of it yet: if a `Check` of the
name answers `true`, a probe succeeded in the last 60 seconds; if it answers `false`, none
did; and while there is a cached answer that has not expired no probe is made, and no
outcome of one could make a difference. -/
theorem check_tells_last_minute {t : Nat}
    (ht : r.tools name = some t) (hcache : r.checkCache name = none)
    (hlast : r.lastSuccessTime name = none) {now : Int} {events : List (Event α)}
    (htimed : Timed now events) (huse : ∀ e ∈ events, e.op.isUse = true)
    {before after : List (Event α)} (hsplit : events = before ++ e :: after)
    (hop : e.op = .check name f) :
    (((r.run before).check name f e.started e.finished).2 = true →
      ∃ p ∈ probes name r (before ++ [e]), p.available = true ∧
        (r.run before).readAt name e - p.finished < checkFnFailureGrace) ∧
    (((r.run before).check name f e.started e.finished).2 = false →
      ∀ p ∈ probes name r (before ++ [e]), p.available = true →
        checkFnFailureGrace ≤ (r.run before).readAt name e - p.finished) ∧
    ((r.run before).cached name e.started ≠ none →
      probes name r (before ++ [e]) = probes name r before ∧
        ∀ g, (r.run before).check name g e.started e.finished =
          (r.run before).check name f e.started e.finished) := by
  obtain ⟨t', hstart, hend, hknown⟩ :=
    (remembers_nil ht hcache hlast now).run htimed huse before e after hsplit
  rw [List.nil_append] at hknown
  have hanswer := hknown.answer_iff hop hstart hend
  rw [probes_snoc]
  refine ⟨hanswer.mp, ?_, ?_⟩
  · intro hfalse p hp hs
    by_contra hrecent
    rw [hanswer.mpr ⟨p, hp, hs, not_le.mp hrecent⟩] at hfalse
    cases hfalse
  · intro hne
    obtain ⟨available, hcached⟩ := Option.ne_none_iff_exists'.mp hne
    refine ⟨by rw [probed_of_cached hcached, Option.toList_none, List.append_nil], ?_⟩
    intro g
    rw [ToolRegistry.check, ToolRegistry.check, hcached]

/-- A tool is found available, unavailable half a minute later, when the answer has run out,
and unavailable again behind the minute of grace. -/
def fading : List (Event Unit) :=
  [⟨.check (lit "add") (fun _ => true), 0, 0⟩,
   ⟨.check (lit "add") (fun _ => false), 30000000000, 30000000000⟩,
   ⟨.check (lit "add") (fun _ => false), 60000000000, 60000000000⟩]

def oneTool : ToolRegistry Unit := (new (fun _ => some ())).register (lit "add") (some 0)

/-- The second answer is `true` by grace, the third is `false`. -/
theorem check_tells_last_minute_fading :
    ((oneTool.run (fading.take 2)).check (lit "add") (fun _ => false) 60000000000 60000000000).2 =
        false ∧
      ∀ p ∈ probes (lit "add") oneTool fading, p.available = true →
        checkFnFailureGrace ≤
          (oneTool.run (fading.take 2)).readAt (lit "add") ⟨.check (lit "add") (fun _ => false),
            60000000000, 60000000000⟩ - p.finished := by
  have huse : ∀ e ∈ fading, e.op.isUse = true := by
    intro e he
    simp only [fading, List.mem_cons, List.not_mem_nil, or_false] at he
    rcases he with rfl | rfl | rfl <;> rfl
  have htool : oneTool.tools (lit "add") = some 0 := by simp [oneTool, ToolRegistry.register]
  have htimed : Timed 0 fading := by simp [Timed, fading]
  have hfalse : ((oneTool.run (fading.take 2)).check (lit "add") (fun _ => false) 60000000000
      60000000000).2 = false := by decide
  exact ⟨hfalse, (check_tells_last_minute htool rfl rfl htimed huse
    (show fading = fading.take 2 ++ _ :: [] from rfl) rfl).2.1 hfalse⟩

end Registry

end MiniGoAgent
