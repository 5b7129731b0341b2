/-
# `Go.Memo` — a function whose results are remembered under a key

A table in front of a function `f`: a call looks for the key of its argument and, if
there is nothing, computes `f` and puts the result there; an entry can be deleted.
Arguments, keys and results are of any type, and several arguments may have one key.

An answer is then the result of *some* argument with that key (`Sourced`), and all
answers are right exactly if arguments that meet under one key, with no deletion of it
in between, have one result (`right_iff_consistent`).
-/
import Mathlib.Data.List.Induction
import Mathlib.Logic.Function.Basic

namespace Go

abbrev Memo (κ β : Type) := κ → Option β

/-- A call, or the deletion of the entry for an argument. -/
inductive MemoOp (α : Type) where
  | call (a : α)
  | forget (a : α)
  deriving DecidableEq, Repr

namespace Memo

variable {α κ β : Type} [DecidableEq κ] (key : α → κ) (f : α → β)

def empty : Memo κ β := fun _ => none

def call (m : Memo κ β) (a : α) : Memo κ β × β :=
  match m (key a) with
  | some b => (m, b)
  | none => (Function.update m (key a) (some (f a)), f a)

def forget (m : Memo κ β) (a : α) : Memo κ β := Function.update m (key a) none

def step (m : Memo κ β) : MemoOp α → Memo κ β
  | .call a => (m.call key f a).1
  | .forget a => m.forget key a

def run (m : Memo κ β) (ops : List (MemoOp α)) : Memo κ β := ops.foldl (step key f) m

variable {key f}

theorem call_cases (m : Memo κ β) (a : α) :
    (∃ b, m (key a) = some b ∧ m.call key f a = (m, b)) ∨
      (m (key a) = none ∧ m.call key f a = (Function.update m (key a) (some (f a)), f a)) := by
  unfold call
  cases m (key a) with
  | some b => exact Or.inl ⟨b, rfl, rfl⟩
  | none => exact Or.inr ⟨rfl, rfl⟩

theorem call_remembers (m : Memo κ β) (a : α) :
    (m.call key f a).1 (key a) = some (m.call key f a).2 := by
  rcases m.call_cases (f := f) a with ⟨b, hb, heq⟩ | ⟨-, heq⟩
  · rw [heq]
    exact hb
  · rw [heq]
    exact Function.update_self _ _ _

/-! ## Where the entries come from -/

/-- Every entry is the result of one of the arguments. -/
def Sourced (key : α → κ) (f : α → β) (called : List α) (m : Memo κ β) : Prop :=
  ∀ k b, m k = some b → ∃ a ∈ called, key a = k ∧ f a = b

omit [DecidableEq κ] in
theorem sourced_empty : Sourced key f [] (empty : Memo κ β) :=
  fun _ _ h => absurd h (by simp [empty])

omit [DecidableEq κ] in
theorem Sourced.mono {called called' : List α} {m : Memo κ β} (h : Sourced key f called m)
    (hsub : ∀ a ∈ called, a ∈ called') : Sourced key f called' m := by
  intro k b hk
  obtain ⟨a, ha, hka, hfa⟩ := h k b hk
  exact ⟨a, hsub a ha, hka, hfa⟩

variable {called : List α}

theorem Sourced.call {m : Memo κ β} (h : Sourced key f called m) (a : α) :
    Sourced key f (a :: called) (m.call key f a).1 := by
  have hold := h.mono (fun x hx => List.mem_cons_of_mem a hx)
  rcases m.call_cases (f := f) a with ⟨b, -, heq⟩ | ⟨-, heq⟩
  · rw [heq]
    exact hold
  · rw [heq]
    dsimp only
    intro k b hk
    by_cases hka : k = key a
    · subst hka
      rw [Function.update_self, Option.some.injEq] at hk
      exact ⟨a, List.mem_cons_self, rfl, hk⟩
    · rw [Function.update_of_ne hka] at hk
      exact hold k b hk

theorem Sourced.forget {m : Memo κ β} (h : Sourced key f called m) (a : α) :
    Sourced key f called (m.forget key a) := by
  intro k b hk
  by_cases hka : k = key a
  · subst hka
    rw [Memo.forget, Function.update_self] at hk
    cases hk
  · rw [Memo.forget, Function.update_of_ne hka] at hk
    exact h k b hk

theorem Sourced.answer {m : Memo κ β} (h : Sourced key f called m) {a : α}
    (hkey : ∀ a' ∈ called, key a' = key a → a' = a) : (m.call key f a).2 = f a := by
  rcases m.call_cases (f := f) a with ⟨b, hb, heq⟩ | ⟨-, heq⟩
  · obtain ⟨a', ha', hka', hfa'⟩ := h (key a) b hb
    rw [heq, ← hfa', hkey a' ha' hka']
  · rw [heq]

/-! ## Runs -/

variable {ops : List (MemoOp α)}

theorem run_keeps {m : Memo κ β} {k : κ} {b : β} (h : m k = some b)
    (hno : ∀ x, .forget x ∈ ops → key x ≠ k) : run key f m ops k = some b := by
  induction ops generalizing m with
  | nil => exact h
  | cons op ops ih =>
    refine ih ?_ (fun x hx => hno x (List.mem_cons_of_mem _ hx))
    cases op with
    | call a =>
      show (m.call key f a).1 k = some b
      rcases m.call_cases (f := f) a with ⟨b', -, heq⟩ | ⟨hnone, heq⟩
      · rw [heq]
        exact h
      · have hne : k ≠ key a := by
          rintro rfl
          rw [h] at hnone
          cases hnone
        rw [heq]
        exact (Function.update_of_ne hne _ _).trans h
    | forget x =>
      have hne : k ≠ key x := fun heq => hno x List.mem_cons_self heq.symm
      exact (Function.update_of_ne hne _ _).trans h

theorem run_source {k : κ} {b : β} (h : run key f empty ops k = some b) :
    ∃ before a mid, ops = before ++ .call a :: mid ∧ key a = k ∧ f a = b ∧
      ∀ x, .forget x ∈ mid → key x ≠ k := by
  induction ops using List.reverseRecOn generalizing b with
  | nil => cases h
  | append_singleton ops op ih =>
    have hlast : run key f empty (ops ++ [op]) = step key f (run key f empty ops) op := by
      rw [run, List.foldl_append]
      rfl
    rw [hlast] at h
    have hearlier : run key f empty ops k = some b → (∀ x, op = .forget x → key x ≠ k) →
        ∃ before a mid, ops ++ [op] = before ++ .call a :: mid ∧ key a = k ∧ f a = b ∧
          ∀ x, .forget x ∈ mid → key x ≠ k := by
      intro hold hop
      obtain ⟨before, a, mid, hops, hka, hfa, hmid⟩ := ih hold
      refine ⟨before, a, mid ++ [op], by rw [hops]; simp, hka, hfa, ?_⟩
      intro x hx
      rcases List.mem_append.mp hx with hx | hx
      · exact hmid x hx
      · exact hop x (List.mem_singleton.mp hx).symm
    cases op with
    | call a =>
      rcases (run key f empty ops).call_cases (f := f) a with ⟨b', -, heq⟩ | ⟨-, heq⟩
      · rw [step, heq] at h
        exact hearlier h (by simp)
      · rw [step, heq] at h
        dsimp only at h
        by_cases hka : k = key a
        · subst hka
          rw [Function.update_self, Option.some.injEq] at h
          exact ⟨ops, a, [], rfl, rfl, h, by simp⟩
        · rw [Function.update_of_ne hka] at h
          exact hearlier h (by simp)
    | forget a =>
      by_cases hka : k = key a
      · subst hka
        rw [step, Memo.forget, Function.update_self] at h
        cases h
      · rw [step, Memo.forget, Function.update_of_ne hka] at h
        refine hearlier h ?_
        intro x hx
        rw [← MemoOp.forget.inj hx]
        exact fun heq => hka heq.symm

/-- Every call of the run is answered with the result of its argument. -/
def Right (key : α → κ) (f : α → β) (ops : List (MemoOp α)) : Prop :=
  ∀ before a after, ops = before ++ .call a :: after →
    ((run key f empty before).call key f a).2 = f a

/-- Arguments that meet under one key have one result. -/
def Consistent (key : α → κ) (f : α → β) (ops : List (MemoOp α)) : Prop :=
  ∀ before a mid a' after, ops = before ++ .call a :: (mid ++ .call a' :: after) →
    key a = key a' → (∀ x, .forget x ∈ mid → key x ≠ key a) → f a = f a'

theorem right_iff_consistent : Right key f ops ↔ Consistent key f ops := by
  constructor
  · intro hright before a mid a' after hops hkey hmid
    have hfirst := hright before a _ hops
    have hsecond := hright (before ++ .call a :: mid) a' after (by rw [hops]; simp)
    have hrun : run key f empty (before ++ .call a :: mid) =
        run key f ((run key f empty before).call key f a).1 mid := by
      rw [run, List.foldl_append]
      rfl
    have hkept : run key f empty (before ++ .call a :: mid) (key a') = some (f a) := by
      rw [hrun, ← hkey, ← hfirst]
      exact run_keeps (call_remembers _ a) hmid
    rcases (run key f empty (before ++ .call a :: mid)).call_cases (f := f) a' with
      ⟨b, hb, heq⟩ | ⟨hnone, -⟩
    · rw [heq] at hsecond
      rw [hkept, Option.some.injEq] at hb
      rw [hb, ← hsecond]
    · rw [hkept] at hnone
      cases hnone
  · intro hcons before a after hops
    rcases (run key f empty before).call_cases (f := f) a with ⟨b, hb, heq⟩ | ⟨-, heq⟩
    · obtain ⟨front, a', mid, hfront, hka', hfa', hmid⟩ := run_source hb
      rw [heq, ← hfa']
      refine hcons front a' mid a after (by rw [hops, hfront]; simp) hka' ?_
      rw [hka']
      exact hmid
    · rw [heq]

end Memo

end Go
