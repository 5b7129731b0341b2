/-
# `Go.Keyed` — lists with keys: order of first appearance, and assignment by key

Two idioms of Go code over slices and maps, over arbitrary types:

* a map with a slice of its keys in the order in which they were first seen —
  `firsts` is that slice;
* a loop that looks for the first element with a key, changes it and breaks —
  `assignFirst`, and `assignAll` for a sequence of such loops.
-/
import Mathlib.Data.List.Induction
import Mathlib.Data.List.Nodup

namespace Go

section Firsts

variable {α : Type} [DecidableEq α]

/-- The elements in the order of their first appearance. -/
def firsts (l : List α) : List α :=
  l.foldl (fun seen x => if x ∈ seen then seen else seen ++ [x]) []

theorem firsts_snoc (l : List α) (x : α) :
    firsts (l ++ [x]) = if x ∈ firsts l then firsts l else firsts l ++ [x] := by
  rw [firsts, List.foldl_append]
  rfl

theorem mem_firsts {l : List α} {x : α} : x ∈ firsts l ↔ x ∈ l := by
  induction l using List.reverseRecOn with
  | nil => exact Iff.rfl
  | append_singleton l y ih =>
    rw [firsts_snoc]
    split
    next hy =>
      rw [ih, List.mem_append, List.mem_singleton]
      refine ⟨Or.inl, ?_⟩
      rintro (h | rfl)
      · exact h
      · exact ih.mp hy
    next => rw [List.mem_append, List.mem_append, ih]

theorem firsts_sublist (l : List α) : (firsts l).Sublist l := by
  induction l using List.reverseRecOn with
  | nil => exact List.Sublist.refl _
  | append_singleton l x ih =>
    rw [firsts_snoc]
    split
    · exact ih.trans (List.sublist_append_left l [x])
    · exact ih.append_right [x]

end Firsts

section Assign

variable {κ ν : Type} [DecidableEq κ]

/-- Changes the value of the first element with the key. -/
def assignFirst : List (κ × ν) → κ → ν → List (κ × ν)
  | [], _, _ => []
  | (k, v) :: rest, key, val =>
    if k = key then (k, val) :: rest else (k, v) :: assignFirst rest key val

def assignAll (l updates : List (κ × ν)) : List (κ × ν) :=
  updates.foldl (fun l u => assignFirst l u.1 u.2) l

def lastFor (key : κ) (updates : List (κ × ν)) : Option ν :=
  ((updates.filter (fun u => u.1 = key)).getLast?).map Prod.snd

theorem lastFor_snoc (key : κ) (updates : List (κ × ν)) (u : κ × ν) :
    lastFor key (updates ++ [u]) = if u.1 = key then some u.2 else lastFor key updates := by
  unfold lastFor
  rw [List.filter_append]
  split
  next h => simp [h]
  next h => simp [h]

theorem lastFor_eq_none {key : κ} {updates : List (κ × ν)} :
    lastFor key updates = none ↔ key ∉ updates.map Prod.fst := by
  rw [lastFor, Option.map_eq_none_iff, List.getLast?_eq_none_iff, List.filter_eq_nil_iff,
    List.mem_map]
  constructor
  · rintro h ⟨u, hu, hkey⟩
    exact h u hu (decide_eq_true hkey)
  · intro h u hu hkey
    exact h ⟨u, hu, of_decide_eq_true hkey⟩

theorem lastFor_append (key : κ) (updates more : List (κ × ν)) :
    lastFor key (updates ++ more) = (lastFor key more).or (lastFor key updates) := by
  induction more using List.reverseRecOn with
  | nil =>
    rw [List.append_nil]
    rfl
  | append_singleton more u ih =>
    rw [← List.append_assoc, lastFor_snoc, lastFor_snoc, ih]
    split <;> rfl

theorem assignAll_cons (k : κ) (v : ν) (rest updates : List (κ × ν)) :
    assignAll ((k, v) :: rest) updates =
      (k, (lastFor k updates).getD v) :: assignAll rest (updates.filter (fun u => u.1 ≠ k)) := by
  induction updates using List.reverseRecOn with
  | nil => rfl
  | append_singleton updates u ih =>
    have hstep : ∀ l : List (κ × ν),
        assignAll l (updates ++ [u]) = assignFirst (assignAll l updates) u.1 u.2 := by
      intro l
      simp [assignAll, List.foldl_append]
    rw [hstep, ih, lastFor_snoc, List.filter_append, assignFirst]
    by_cases h : u.1 = k
    · rw [if_pos h.symm, if_pos h]
      simp [h]
    · rw [if_neg (fun hk => h hk.symm), if_neg h]
      simp [h, assignAll, List.foldl_append]

theorem lastFor_filter_ne (key k : κ) (updates : List (κ × ν)) :
    lastFor key (updates.filter (fun u => u.1 ≠ k)) =
      if key = k then none else lastFor key updates := by
  unfold lastFor
  rw [List.filter_filter]
  split
  next h =>
    have hnone : updates.filter (fun u => decide (u.1 = key) && decide (u.1 ≠ k)) = [] := by
      rw [List.filter_eq_nil_iff]
      intro u _
      simp [h]
    rw [hnone]
    rfl
  next h =>
    have hsame : updates.filter (fun u => decide (u.1 = key) && decide (u.1 ≠ k)) =
        updates.filter (fun u => u.1 = key) := by
      refine List.filter_congr ?_
      intro u _
      by_cases hu : u.1 = key
      · simp [hu, h]
      · simp [hu]
    rw [hsame]

theorem assignAll_nil (updates : List (κ × ν)) : assignAll ([] : List (κ × ν)) updates = [] := by
  induction updates with
  | nil => rfl
  | cons u rest ih => exact ih

theorem assignAll_map_eq_iff {ι : Type} (items : List ι) (key : ι → κ) (val : ι → ν) (d : ν)
    (updates : List (κ × ν)) :
    assignAll (items.map (fun i => (key i, d))) updates = items.map (fun i => (key i, val i)) ↔
      ∀ before i after, items = before ++ i :: after →
        (key i ∈ before.map key → val i = d) ∧
          (key i ∉ before.map key → val i = (lastFor (key i) updates).getD d) := by
  induction items generalizing updates with
  | nil =>
    refine iff_of_true (assignAll_nil updates) ?_
    intro before i after h
    exact absurd h (by simp)
  | cons i rest ih =>
    have hlater := ih (updates.filter (fun u => u.1 ≠ key i))
    have hseen : ∀ (before : List ι) (j : ι),
        ((key j ∈ before.map key → val j = d) ∧ (key j ∉ before.map key →
          val j = (lastFor (key j) (updates.filter (fun u => u.1 ≠ key i))).getD d)) ↔
        ((key j ∈ (i :: before).map key → val j = d) ∧ (key j ∉ (i :: before).map key →
          val j = (lastFor (key j) updates).getD d)) := by
      intro before j
      rw [lastFor_filter_ne, List.map_cons, List.mem_cons]
      by_cases hk : key j = key i
      · by_cases hb : key i ∈ before.map key
        · simp [hk, hb]
        · simp [hk, hb]
      · simp [hk]
    rw [List.map_cons, List.map_cons, assignAll_cons, List.cons.injEq, Prod.mk.injEq]
    constructor
    · rintro ⟨⟨_, hhere⟩, hrest⟩ before j after hsplit
      cases before with
      | nil =>
        rw [List.nil_append, List.cons.injEq] at hsplit
        rw [← hsplit.1]
        exact ⟨fun h => absurd h (by simp), fun _ => hhere.symm⟩
      | cons x before =>
        rw [List.cons_append, List.cons.injEq] at hsplit
        rw [← hsplit.1]
        exact (hseen before j).mp (hlater.mp hrest before j after hsplit.2)
    · intro hall
      refine ⟨⟨rfl, ?_⟩, hlater.mpr ?_⟩
      · exact ((hall [] i rest rfl).2 (by simp)).symm
      · intro before j after hsplit
        exact (hseen before j).mpr (hall (i :: before) j after (by rw [hsplit]; rfl))

end Assign

end Go
