/-
# `Go.Machine` — machines whose steps may be refused, and their runs

A machine has a first state and a step for every event; an event that is not
possible in a state has none.  An interleaving of goroutines is a list of events,
each naming the goroutine that takes it.  `Along ok` says of a run that every
event is taken in a state where it is `ok`, and `run_invariant` is the rule for
proving something of all states such runs reach.  Where `ok` is exactly what a
step needs to keep the invariant, `along_iff` makes it an equivalence over runs.
-/
import Mathlib.Data.List.Induction
import Mathlib.Data.List.Infix
import Mathlib.Logic.Function.Basic

namespace Go

theorem update_eq_some {ι α : Type} [DecidableEq ι] {f : ι → Option α} {i j : ι} {v : Option α}
    {x : α} (h : Function.update f i v j = some x) :
    (j = i ∧ v = some x) ∨ (j ≠ i ∧ f j = some x) := by
  by_cases hji : j = i
  · subst hji
    rw [Function.update_self] at h
    exact Or.inl ⟨rfl, h⟩
  · rw [Function.update_of_ne hji] at h
    exact Or.inr ⟨hji, h⟩

structure Machine (σ ε : Type) where
  init : σ
  step : σ → ε → Option σ

namespace Machine

variable {σ ε : Type} (M : Machine σ ε)

/-- The state behind the events, if all of them are possible. -/
def run : σ → List ε → Option σ
  | s, [] => some s
  | s, e :: rest => (M.step s e).bind (fun s' => run s' rest)

/-- Every event of the run is taken in a state where it is `ok`. -/
def Along (ok : σ → ε → Prop) : σ → List ε → Prop
  | _, [] => True
  | s, e :: rest => ok s e ∧ ∀ s', M.step s e = some s' → Along ok s' rest

variable {s s' : σ} {ok : σ → ε → Prop} {l : List ε}

theorem run_cons {e : ε} (h : M.step s e = some s') (rest : List ε) :
    M.run s (e :: rest) = M.run s' rest := by
  rw [run, h]
  rfl

theorem run_append (s : σ) (l l' : List ε) :
    M.run s (l ++ l') = (M.run s l).bind (fun s' => M.run s' l') := by
  induction l generalizing s with
  | nil => rfl
  | cons e rest ih =>
    rw [List.cons_append, run, run]
    cases M.step s e with
    | none => rfl
    | some s' => exact ih s'

theorem along_cons {e : ε} (h : M.step s e = some s')
    {rest : List ε} (hhere : ok s e) (hlater : M.Along ok s' rest) : M.Along ok s (e :: rest) := by
  refine ⟨hhere, ?_⟩
  intro t ht
  rw [h, Option.some.injEq] at ht
  exact ht ▸ hlater

theorem run_rule {P : List ε → σ → Prop} (hnil : P [] s)
    (hsnoc : ∀ l t e t', M.run s l = some t → P l t → M.step t e = some t' → P (l ++ [e]) t')
    {s' : σ} (hrun : M.run s l = some s') : P l s' := by
  induction l using List.reverseRecOn generalizing s' with
  | nil =>
    rw [run, Option.some.injEq] at hrun
    rwa [← hrun]
  | append_singleton l e ih =>
    rw [run_append, Option.bind_eq_some_iff] at hrun
    obtain ⟨t, ht, hlast⟩ := hrun
    rw [run, Option.bind_eq_some_iff] at hlast
    obtain ⟨t', ht', hend⟩ := hlast
    rw [run, Option.some.injEq] at hend
    subst hend
    exact hsnoc l t e t' ht (ih ht) ht'

theorem run_invariant {I : σ → Prop}
    (hstep : ∀ s e s', I s → ok s e → M.step s e = some s' → I s')
    (hs : I s) (hok : M.Along ok s l) (hrun : M.run s l = some s') : I s' := by
  induction l generalizing s with
  | nil =>
    rw [run, Option.some.injEq] at hrun
    rwa [← hrun]
  | cons e rest ih =>
    obtain ⟨hhere, hlater⟩ := hok
    rw [run, Option.bind_eq_some_iff] at hrun
    obtain ⟨t, ht, hrest⟩ := hrun
    exact ih (hstep s e t hs hhere ht) (hlater t ht) hrest

theorem along_congr_of_iff {ok ok' : σ → ε → Prop} (hok : ∀ s e, ok s e ↔ ok' s e) (s : σ)
    (l : List ε) : M.Along ok s l ↔ M.Along ok' s l := by
  induction l generalizing s with
  | nil => exact Iff.rfl
  | cons e rest ih =>
    exact and_congr (hok s e) (forall_congr' fun t => imp_congr_right fun _ => ih t)

theorem exists_step_of_run {e : ε} {rest : List ε} (hrun : (M.run s (e :: rest)).isSome = true) :
    ∃ t, M.step s e = some t ∧ (M.run t rest).isSome = true := by
  obtain ⟨last, hlast⟩ := Option.isSome_iff_exists.mp hrun
  obtain ⟨t, ht, hrest⟩ := Option.bind_eq_some_iff.mp hlast
  exact ⟨t, ht, by rw [hrest]; rfl⟩

theorem along_congr {ok ok' : σ → ε → Prop} {J : σ → Prop}
    (hJ : ∀ s e s', J s → M.step s e = some s' → J s')
    (hok : ∀ s e s', J s → M.step s e = some s' → (ok s e ↔ ok' s e))
    (hj : J s) (hrun : (M.run s l).isSome = true) : M.Along ok s l ↔ M.Along ok' s l := by
  induction l generalizing s with
  | nil => exact Iff.rfl
  | cons e rest ih =>
    obtain ⟨t, ht, hrest⟩ := M.exists_step_of_run hrun
    refine and_congr (hok s e t hj ht) (forall_congr' fun t' => imp_congr_right fun ht' => ?_)
    rw [ht, Option.some.injEq] at ht'
    subst ht'
    exact ih (hJ s e t hj ht) hrest

theorem along_iff {I J : σ → Prop}
    (hJ : ∀ s e s', J s → M.step s e = some s' → J s')
    (hI : ∀ s e s', J s → I s → M.step s e = some s' → (ok s e ↔ I s'))
    (hj : J s) (hi : I s) (hrun : (M.run s l).isSome = true) :
    M.Along ok s l ↔ ∀ front s', front <+: l → M.run s front = some s' → I s' := by
  induction l generalizing s with
  | nil =>
    refine iff_of_true trivial ?_
    intro front s' hfront hs'
    rw [List.prefix_nil.mp hfront, run, Option.some.injEq] at hs'
    rwa [← hs']
  | cons e rest ih =>
    obtain ⟨t, ht, hrest⟩ := M.exists_step_of_run hrun
    have hjt := hJ s e t hj ht
    constructor
    · rintro ⟨hhere, hlater⟩ front s' hfront hs'
      have hit := (hI s e t hj hi ht).mp hhere
      cases front with
      | nil =>
        rw [run, Option.some.injEq] at hs'
        rwa [← hs']
      | cons e' front =>
        obtain ⟨rfl, hbehind⟩ := List.cons_prefix_cons.mp hfront
        rw [M.run_cons ht] at hs'
        exact (ih hjt hit hrest).mp (hlater t ht) front s' hbehind hs'
    · intro hall
      have hit : I t := by
        refine hall [e] t (List.cons_prefix_cons.mpr ⟨rfl, List.nil_prefix⟩) ?_
        rw [M.run_cons ht]
        rfl
      refine ⟨(hI s e t hj hi ht).mpr hit, ?_⟩
      intro t' ht'
      rw [ht, Option.some.injEq] at ht'
      subst ht'
      refine (ih hjt hit hrest).mpr ?_
      intro front s' hfront hs'
      refine hall (e :: front) s' (List.cons_prefix_cons.mpr ⟨rfl, hfront⟩) ?_
      rw [M.run_cons ht]
      exact hs'

end Machine

end Go
