/-
# `Go.Map` — maps that are filled and emptied in a loop

`for k, v := range src { m[k] = v }` and a loop of `delete(m, k)` over an
`AList`, over arbitrary keys and values: what a lookup finds behind them
(`lookup_eraseAll`, `lookup_insertAll`), how many entries are left (`length_eraseAll`),
and which there are (`entries_insertAll`).
-/
import Mathlib.Data.List.AList

namespace Go

variable {α : Type} [DecidableEq α] {β : α → Type}

/-- `delete(m, k)` for all of `ks`. -/
def eraseAll (ks : List α) (m : AList β) : AList β := ks.foldl (fun m k => m.erase k) m

theorem eraseAll_cons (k : α) (ks : List α) (m : AList β) :
    eraseAll (k :: ks) m = eraseAll ks (m.erase k) := rfl

variable {ks : List α}

theorem lookup_eraseAll_of_notMem {a : α} (h : a ∉ ks) (m : AList β) :
    (eraseAll ks m).lookup a = m.lookup a := by
  induction ks generalizing m with
  | nil => rfl
  | cons k ks ih =>
    rw [List.mem_cons, not_or] at h
    rw [eraseAll_cons, ih h.2, AList.lookup_erase_ne h.1]

theorem lookup_eraseAll_of_mem {a : α} (h : a ∈ ks) (m : AList β) :
    (eraseAll ks m).lookup a = none := by
  induction ks generalizing m with
  | nil => cases h
  | cons k ks ih =>
    rw [eraseAll_cons]
    by_cases hlater : a ∈ ks
    · exact ih hlater _
    · obtain rfl : a = k := (List.mem_cons.mp h).resolve_right hlater
      rw [lookup_eraseAll_of_notMem hlater, AList.lookup_erase]

theorem lookup_eraseAll (ks : List α) (m : AList β) (a : α) [Decidable (a ∈ ks)] :
    (eraseAll ks m).lookup a = if a ∈ ks then none else m.lookup a := by
  split
  next h => exact lookup_eraseAll_of_mem h m
  next h => exact lookup_eraseAll_of_notMem h m

theorem length_eraseAll (hks : ks.Nodup) (m : AList β) :
    (eraseAll ks m).entries.length + (ks.filter (fun k => (m.lookup k).isSome)).length =
      m.entries.length := by
  induction ks generalizing m with
  | nil => rfl
  | cons k ks ih =>
    obtain ⟨hk, hks⟩ := List.nodup_cons.mp hks
    have hfilter : ks.filter (fun k' => ((m.erase k).lookup k').isSome) =
        ks.filter (fun k' => (m.lookup k').isSome) := by
      refine List.filter_congr ?_
      intro k' hk'
      have hne : k' ≠ k := fun heq => hk (heq ▸ hk')
      rw [AList.lookup_erase_ne hne]
    have hrest := ih hks (m.erase k)
    rw [hfilter] at hrest
    have hentries : ∀ m : AList β, m.entries.length = m.keys.length := by
      intro m
      exact List.length_map .. |>.symm
    have herase : (m.erase k).entries.length =
        if k ∈ m.keys then m.entries.length - 1 else m.entries.length := by
      rw [hentries, AList.keys_erase, List.length_erase, hentries]
    rw [eraseAll_cons, List.filter_cons]
    by_cases hmem : k ∈ m.keys
    · have hsome : (m.lookup k).isSome = true := AList.lookup_isSome.mpr hmem
      have hpos : 0 < m.entries.length := by
        rw [hentries]
        exact List.length_pos_of_mem hmem
      rw [if_pos hsome, List.length_cons]
      rw [if_pos hmem] at herase
      omega
    · have hnone : ¬ (m.lookup k).isSome = true := fun h => hmem (AList.lookup_isSome.mp h)
      rw [if_neg hnone]
      rw [if_neg hmem] at herase
      omega

section Insert

variable {γ : Type}

/-- `m[k] = v` for all of `kvs`. -/
def insertAll (kvs : List (α × γ)) (m : AList (fun _ : α => γ)) : AList (fun _ : α => γ) :=
  kvs.foldl (fun m kv => m.insert kv.1 kv.2) m

theorem insertAll_cons (kv : α × γ) (kvs : List (α × γ)) (m : AList (fun _ : α => γ)) :
    insertAll (kv :: kvs) m = insertAll kvs (m.insert kv.1 kv.2) := rfl

theorem lookup_insertAll (kvs : List (α × γ)) (m : AList (fun _ : α => γ)) (a : α) :
    (insertAll kvs m).lookup a = m.lookup a ∨
      ∃ kv ∈ kvs, (insertAll kvs m).lookup a = some kv.2 := by
  induction kvs generalizing m with
  | nil => exact Or.inl rfl
  | cons kv kvs ih =>
    rw [insertAll_cons]
    rcases ih (m.insert kv.1 kv.2) with h | ⟨kv', hkv', h⟩
    · by_cases hk : a = kv.1
      · subst hk
        exact Or.inr ⟨kv, List.mem_cons_self, h.trans (AList.lookup_insert m)⟩
      · exact Or.inl (h.trans (AList.lookup_insert_ne hk))
    · exact Or.inr ⟨kv', List.mem_cons_of_mem _ hkv', h⟩

theorem isSome_lookup_insertAll (kvs : List (α × γ)) (m : AList (fun _ : α => γ)) (a : α) :
    ((insertAll kvs m).lookup a).isSome = true ↔
      a ∈ kvs.map Prod.fst ∨ (m.lookup a).isSome = true := by
  induction kvs generalizing m with
  | nil => exact ⟨Or.inr, fun h => h.resolve_left List.not_mem_nil⟩
  | cons kv kvs ih =>
    rw [insertAll_cons, ih, List.map_cons, List.mem_cons]
    by_cases hk : a = kv.1
    · subst hk
      rw [AList.lookup_insert]
      simp
    · rw [AList.lookup_insert_ne hk]
      simp [hk]

theorem entries_insertAll {kvs : List (α × γ)} (hkvs : (kvs.map Prod.fst).Nodup)
    {m : AList (fun _ : α => γ)} (hnew : ∀ k ∈ kvs.map Prod.fst, k ∉ m) :
    (insertAll kvs m).entries.Perm (kvs.map (fun kv => ⟨kv.1, kv.2⟩) ++ m.entries) := by
  induction kvs generalizing m with
  | nil => exact List.Perm.refl _
  | cons kv kvs ih =>
    obtain ⟨hkv, hkvs⟩ := List.nodup_cons.mp hkvs
    obtain ⟨hhead, htail⟩ := List.forall_mem_cons.mp hnew
    have hentries : (m.insert kv.1 kv.2).entries = ⟨kv.1, kv.2⟩ :: m.entries :=
      AList.entries_insert_of_notMem hhead
    have hlater : ∀ k ∈ kvs.map Prod.fst, k ∉ m.insert kv.1 kv.2 := by
      intro k hk hmem
      rcases AList.mem_insert m |>.mp hmem with rfl | hmem
      · exact hkv hk
      · exact htail k hk hmem
    have hrest := ih hkvs hlater
    rw [hentries] at hrest
    exact hrest.trans List.perm_middle

end Insert

end Go
