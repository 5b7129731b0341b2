/-
# `Go.Search` — where in a text something begins for the first time

`strings.Index` and `strings.Cut` find the first place at which a separator
begins.  A text that comes in chunks is searched chunk by chunk, and a place in a
chunk must then be judged by what follows it in later chunks too: `Clear p b r`
says that at no place of `b` something begins that `p` recognises, where `b` is
followed by `r`.  At the end, what `strings.Split` makes of a text that is put
together from others.
-/
import MiniGoAgent.Go.Str

namespace Go

variable {e r : Str} {fs rs : List Str} {d : UInt8}

variable {a b f s sep : Str} {c : UInt8}

/-- No suffix of `b ++ r` that begins in `b` satisfies `p`. -/
def Clear (p : Str → Bool) : Str → Str → Prop
  | [], _ => True
  | c :: b, r => p (c :: (b ++ r)) = false ∧ Clear p b r

instance decidableClear (p : Str → Bool) : ∀ b r, Decidable (Clear p b r)
  | [], _ => inferInstanceAs (Decidable True)
  | c :: b, r =>
    have := decidableClear p b r
    inferInstanceAs (Decidable (p (c :: (b ++ r)) = false ∧ Clear p b r))

theorem clear_append {p : Str → Bool} {b' : Str} :
    Clear p (b ++ b') r ↔ Clear p b (b' ++ r) ∧ Clear p b' r := by
  induction b with
  | nil => simp only [List.nil_append, Clear, true_and]
  | cons c b ih =>
    simp only [List.cons_append, Clear, ih, List.append_assoc, and_assoc]

theorem Clear.mono {p q : Str → Bool} (hpq : ∀ s, q s = true → p s = true)
    (h : Clear p b r) : Clear q b r := by
  induction b with
  | nil => trivial
  | cons c b ih =>
    obtain ⟨hhere, hlater⟩ := h
    refine ⟨Bool.eq_false_iff.mpr ?_, ih hlater⟩
    intro hq
    rw [hpq _ hq] at hhere
    exact Bool.noConfusion hhere

/-! ## Prefixes -/

theorem hasPrefix_append_self (p r : Str) : hasPrefix (p ++ r) p = true :=
  hasPrefix_iff.mpr (List.prefix_append p r)

theorem hasPrefix_append {p : Str} (h : p.length ≤ s.length) (r : Str) :
    hasPrefix (s ++ r) p = hasPrefix s p := by
  rw [Bool.eq_iff_iff, hasPrefix_iff, hasPrefix_iff]
  constructor
  · intro hp
    exact List.prefix_of_prefix_length_le hp (List.prefix_append s r) h
  · intro hp
    exact hp.trans (List.prefix_append s r)

theorem clear_before_append (r : Str)
    (h : Clear (hasPrefix · sep) b (sep ++ a)) : Clear (hasPrefix · sep) b (sep ++ (a ++ r)) := by
  induction b with
  | nil => trivial
  | cons c b ih =>
    obtain ⟨hhere, hlater⟩ := h
    refine ⟨?_, ih hlater⟩
    have hlen : sep.length ≤ (c :: (b ++ (sep ++ a))).length := by
      simp only [List.length_cons, List.length_append]
      omega
    have heq : c :: (b ++ (sep ++ (a ++ r))) = c :: (b ++ (sep ++ a)) ++ r := by
      simp only [List.cons_append, List.append_assoc]
    show hasPrefix (c :: (b ++ (sep ++ (a ++ r)))) sep = false
    rw [heq, hasPrefix_append hlen]
    exact hhere

/-! ## Cutting -/

theorem index_eq_some {i : Nat} (h : index s sep = some i) :
    ∃ b a, s = b ++ (sep ++ a) ∧ b.length = i ∧ Clear (hasPrefix · sep) b (sep ++ a) := by
  induction s generalizing i with
  | nil =>
    rw [index] at h
    by_cases hp : hasPrefix [] sep = true
    · rw [if_pos hp, Option.some.injEq] at h
      obtain ⟨a, ha⟩ := hasPrefix_iff.mp hp
      exact ⟨[], a, ha.symm, h, trivial⟩
    · rw [if_neg hp] at h
      cases h
  | cons c s ih =>
    rw [index] at h
    by_cases hp : hasPrefix (c :: s) sep = true
    · rw [if_pos hp, Option.some.injEq] at h
      obtain ⟨a, ha⟩ := hasPrefix_iff.mp hp
      exact ⟨[], a, ha.symm, h, trivial⟩
    · rw [if_neg hp, Option.map_eq_some_iff] at h
      obtain ⟨j, hj, rfl⟩ := h
      obtain ⟨b, a, rfl, hlen, hclear⟩ := ih hj
      exact ⟨c :: b, a, rfl, by rw [List.length_cons, hlen],
        Bool.eq_false_iff.mpr hp, hclear⟩

theorem index_eq_none (h : index s sep = none) : Clear (hasPrefix · sep) s [] := by
  induction s with
  | nil => trivial
  | cons c s ih =>
    rw [index] at h
    by_cases hp : hasPrefix (c :: s) sep = true
    · rw [if_pos hp] at h
      cases h
    · rw [if_neg hp, Option.map_eq_none_iff] at h
      refine ⟨?_, ih h⟩
      rw [List.append_nil]
      exact Bool.eq_false_iff.mpr hp

theorem cut_eq_some (h : cut s sep = some (b, a)) :
    s = b ++ (sep ++ a) ∧ Clear (hasPrefix · sep) b (sep ++ a) := by
  rw [cut, Option.map_eq_some_iff] at h
  obtain ⟨i, hi, hba⟩ := h
  obtain ⟨b', a', rfl, rfl, hclear⟩ := index_eq_some hi
  rw [List.take_left, ← List.drop_drop, List.drop_left, List.drop_left, Prod.mk.injEq] at hba
  obtain ⟨rfl, rfl⟩ := hba
  exact ⟨rfl, hclear⟩

theorem cut_eq_none (h : cut s sep = none) : Clear (hasPrefix · sep) s [] := by
  rw [cut, Option.map_eq_none_iff] at h
  exact index_eq_none h

theorem index_of_clear (h : Clear (hasPrefix · sep) b (sep ++ a)) :
    index (b ++ (sep ++ a)) sep = some b.length := by
  induction b with
  | nil => rw [List.nil_append, index.eq_def, if_pos (hasPrefix_append_self sep a)]; rfl
  | cons c b ih =>
    obtain ⟨hhere, hlater⟩ := h
    have hhere : ¬ hasPrefix (c :: (b ++ (sep ++ a))) sep = true := Bool.eq_false_iff.mp hhere
    rw [List.cons_append, index, if_neg hhere, ih hlater]
    rfl

theorem cut_of_clear (h : Clear (hasPrefix · sep) b (sep ++ a)) :
    cut (b ++ (sep ++ a)) sep = some (b, a) := by
  rw [cut, index_of_clear h, Option.map_some, List.take_left, ← List.drop_drop, List.drop_left,
    List.drop_left]

theorem cut_eq_none_of_clear (hsep : sep ≠ [])
    (h : Clear (hasPrefix · sep) s []) : cut s sep = none := by
  cases hc : cut s sep with
  | none => rfl
  | some parts =>
    obtain ⟨b, a⟩ := parts
    obtain ⟨rfl, -⟩ := cut_eq_some hc
    obtain ⟨-, hfront⟩ := clear_append.mp h
    obtain ⟨c, t, rfl⟩ := List.exists_cons_of_ne_nil hsep
    have hhere : hasPrefix (c :: t ++ (a ++ [])) (c :: t) = false := by
      rw [← List.append_assoc]
      exact hfront.1
    rw [hasPrefix_append_self] at hhere
    exact Bool.noConfusion hhere

theorem cut_front (sep a : Str) : cut (sep ++ a) sep = some ([], a) :=
  cut_of_clear (b := []) trivial

/-! ## Containing -/

theorem contains_append (b sep a : Str) : contains (b ++ (sep ++ a)) sep = true := by
  induction b with
  | nil =>
    rw [List.nil_append, contains, index.eq_def, if_pos (hasPrefix_append_self sep a)]
    rfl
  | cons c b ih =>
    rw [contains] at ih ⊢
    rw [List.cons_append, index]
    split
    · rfl
    · rw [Option.isSome_map]
      exact ih

theorem contains_byte_iff : contains s [c] = true ↔ c ∈ s := by
  constructor
  · intro h
    obtain ⟨i, hi⟩ := Option.isSome_iff_exists.mp h
    obtain ⟨b, a, rfl, -, -⟩ := index_eq_some hi
    simp
  · intro h
    obtain ⟨b, a, rfl⟩ := List.append_of_mem h
    exact contains_append b [c] a

/-! ## Trimming -/

theorem prefix_append_cons_iff {t u : Str} (h : d ∉ r) : r <+: t ++ d :: u ↔ r <+: t := by
  refine ⟨fun hpre => ?_, fun hpre => hpre.trans (List.prefix_append t _)⟩
  rcases List.prefix_or_prefix_of_prefix hpre (List.prefix_append t _) with hle | ⟨r', rfl⟩
  · exact hle
  · rw [List.prefix_append_right_inj] at hpre
    cases r' with
    | nil => simp
    | cons c r' => exact absurd (by simp [(List.cons_prefix_cons.mp hpre).1]) h

theorem trimSpace_eq_self (hfront : spaceRunes.find? (fun r => r.isPrefixOf s) = none)
    (hback : (spaceRunes.map List.reverse).find? (fun r => r.isPrefixOf s.reverse) = none) :
    trimSpace s = s := by
  have htrim : ∀ {rs : List Str} {t : Str} (n : Nat),
      rs.find? (fun r => r.isPrefixOf t) = none → trimFront rs n t = t := by
    intro rs t n hnone
    cases n with
    | zero => rfl
    | succ n => rw [trimFront, hnone]
  rw [trimSpace, htrim _ hfront, htrim _ hback, List.reverse_reverse]

theorem find?_append_cons (h : ∀ r ∈ rs, d ∉ r) (t u : Str) :
    rs.find? (fun r => r.isPrefixOf (t ++ d :: u)) = rs.find? (fun r => r.isPrefixOf t) := by
  induction rs with
  | nil => rfl
  | cons r rs ih =>
    have hsame : r.isPrefixOf (t ++ d :: u) = r.isPrefixOf t := by
      rw [Bool.eq_iff_iff, List.isPrefixOf_iff_prefix, List.isPrefixOf_iff_prefix]
      exact prefix_append_cons_iff (h r List.mem_cons_self)
    rw [List.find?_cons, List.find?_cons, hsame, ih fun r' hr' => h r' (List.mem_cons_of_mem r hr')]

theorem trimFront_append (h : ∀ r ∈ rs, d ∉ r) (n : Nat)
    (t u : Str) : trimFront rs n (t ++ d :: u) = trimFront rs n t ++ d :: u := by
  induction n generalizing t with
  | zero => rfl
  | succ n ih =>
    rw [trimFront, trimFront, find?_append_cons h]
    cases hfind : rs.find? (fun r => r.isPrefixOf t) with
    | none => rfl
    | some r =>
      have hfound := List.find?_some hfind
      have hpre : r <+: t := List.isPrefixOf_iff_prefix.mp hfound
      dsimp only
      rw [List.drop_append_of_le_length hpre.length_le]
      exact ih (t.drop r.length)

theorem trimSpace_cons (h : ∀ r ∈ spaceRunes, d ∉ r) (rest : Str) :
    ∃ t, trimSpace (d :: rest) = d :: t := by
  have hfront : trimFront spaceRunes (d :: rest).length (d :: rest) = d :: rest := by
    rw [List.length_cons, trimFront]
    have hnone : spaceRunes.find? (fun r => r.isPrefixOf (d :: rest)) = none := by
      rw [List.find?_eq_none]
      intro r hr hpre
      cases r with
      | nil => exact absurd hr (by decide)
      | cons c r =>
        rw [List.isPrefixOf_cons_cons, Bool.and_eq_true, beq_iff_eq] at hpre
        exact h _ hr (by rw [hpre.1]; exact List.mem_cons_self)
    rw [hnone]
  have hback : ∀ r ∈ spaceRunes.map List.reverse, d ∉ r := by
    intro r hr
    obtain ⟨r', hr', rfl⟩ := List.mem_map.mp hr
    rw [List.mem_reverse]
    exact h r' hr'
  have hkept := trimFront_append hback (d :: rest).length rest.reverse []
  refine ⟨(trimFront (spaceRunes.map List.reverse) (d :: rest).length rest.reverse).reverse, ?_⟩
  rw [trimSpace, hfront, List.reverse_cons, hkept, List.reverse_append]
  rfl

theorem trimFront_split (rs : List Str) (n : Nat) (s : Str) :
    ∃ trimmed : List Str, (∀ r ∈ trimmed, r ∈ rs) ∧
      s = trimmed.flatten ++ trimFront rs n s := by
  induction n generalizing s with
  | zero => exact ⟨[], List.forall_mem_nil _, rfl⟩
  | succ n ih =>
    rw [trimFront]
    cases hfind : rs.find? (fun r => r.isPrefixOf s) with
    | none => exact ⟨[], List.forall_mem_nil _, rfl⟩
    | some r =>
      have hfound := List.find?_some hfind
      obtain ⟨rest, rfl⟩ : r <+: s := List.isPrefixOf_iff_prefix.mp hfound
      obtain ⟨trimmed, hmem, hsplit⟩ := ih rest
      refine ⟨r :: trimmed, List.forall_mem_cons.mpr ⟨List.mem_of_find?_eq_some hfind, hmem⟩, ?_⟩
      dsimp only
      rw [List.drop_left, List.flatten_cons, List.append_assoc, ← hsplit]

theorem trimFront_fuel (hrs : [] ∉ rs) {n m : Nat} {s : Str}
    (hn : s.length ≤ n) (hm : s.length ≤ m) : trimFront rs n s = trimFront rs m s := by
  have hnil : ∀ n, trimFront rs n [] = [] := by
    intro n
    obtain ⟨trimmed, _, hsplit⟩ := trimFront_split rs n []
    exact (List.append_eq_nil_iff.mp hsplit.symm).2
  induction n generalizing m s with
  | zero => rw [List.length_eq_zero_iff.mp (Nat.le_zero.mp hn), hnil, hnil]
  | succ n ih =>
    cases m with
    | zero => rw [List.length_eq_zero_iff.mp (Nat.le_zero.mp hm), hnil, hnil]
    | succ m =>
      rw [trimFront, trimFront]
      cases hfind : rs.find? (fun r => r.isPrefixOf s) with
      | none => rfl
      | some r =>
        have hpos : 0 < r.length := List.length_pos_iff.mpr fun hr =>
          hrs (hr ▸ List.mem_of_find?_eq_some hfind)
        have hlen : (s.drop r.length).length = s.length - r.length := List.length_drop
        exact ih (by omega) (by omega)

/-! ## Splitting -/

theorem splitByte_ne_nil (c : UInt8) (s : Str) : splitByte c s ≠ [] := by
  cases s with
  | nil => simp [splitByte]
  | cons b s =>
    rw [splitByte]
    split
    · simp
    · cases splitByte c s <;> simp

theorem splitByte_cons_ne {b : UInt8} (h : b ≠ c)
    (hs : splitByte c s = f :: fs) : splitByte c (b :: s) = (b :: f) :: fs := by
  rw [splitByte, if_neg (by simpa using h), hs]

theorem not_mem_of_mem_splitByte (h : e ∈ splitByte c s) : c ∉ e := by
  induction s generalizing e with
  | nil =>
    rw [splitByte, List.mem_singleton] at h
    rw [h]
    exact List.not_mem_nil
  | cons b s ih =>
    by_cases hb : b = c
    · rw [splitByte, if_pos (by simpa using hb)] at h
      rcases List.mem_cons.mp h with rfl | h
      · exact List.not_mem_nil
      · exact ih h
    · cases hs : splitByte c s with
      | nil => exact absurd hs (splitByte_ne_nil c s)
      | cons f fs =>
        rw [splitByte_cons_ne hb hs] at h
        rw [hs] at ih
        rcases List.mem_cons.mp h with rfl | h
        · rw [List.mem_cons, not_or]
          exact ⟨fun heq => hb heq.symm, ih List.mem_cons_self⟩
        · exact ih (List.mem_cons_of_mem _ h)

theorem splitByte_append (h : c ∉ e) (hs : splitByte c s = f :: fs) : splitByte c (e ++ s) =
    (e ++ f) :: fs := by
  induction e with
  | nil => exact hs
  | cons b e ih =>
    rw [List.mem_cons, not_or] at h
    rw [List.cons_append, splitByte_cons_ne (fun heq => h.1 heq.symm) (ih h.2)]
    rfl

theorem eq_of_append_cons_eq {t : Str} (he : c ∉ e) (hf : c ∉ f)
    (h : e ++ c :: s = f ++ c :: t) : e = f := by
  have hfront : ∀ s : Str, splitByte c (c :: s) = [] :: splitByte c s := by
    intro s
    rw [splitByte, if_pos (by simp)]
  have hsplit := splitByte_append he (hfront s)
  rw [h, splitByte_append hf (hfront t), List.append_nil, List.append_nil,
    List.cons.injEq] at hsplit
  exact hsplit.1.symm

theorem mem_splitByte {b : UInt8} (h : b ∈ s) : b = c ∨ ∃ f ∈ splitByte c s, b ∈ f := by
  induction s with
  | nil => cases h
  | cons a s ih =>
    by_cases ha : a = c
    · rw [splitByte, if_pos (by simpa using ha)]
      rcases List.mem_cons.mp h with rfl | h
      · exact Or.inl ha
      · rcases ih h with hc | ⟨f, hf, hb⟩
        · exact Or.inl hc
        · exact Or.inr ⟨f, List.mem_cons_of_mem _ hf, hb⟩
    · cases hs : splitByte c s with
      | nil => exact absurd hs (splitByte_ne_nil c s)
      | cons f fs =>
        rw [splitByte_cons_ne ha hs]
        rcases List.mem_cons.mp h with rfl | h
        · exact Or.inr ⟨b :: f, List.mem_cons_self, List.mem_cons_self⟩
        · rcases ih h with hc | ⟨f', hf', hb⟩
          · exact Or.inl hc
          · rw [hs] at hf'
            rcases List.mem_cons.mp hf' with rfl | hf'
            · exact Or.inr ⟨a :: f', List.mem_cons_self, List.mem_cons_of_mem _ hb⟩
            · exact Or.inr ⟨f', List.mem_cons_of_mem _ hf', hb⟩

theorem splitByte_eq_cons (h : splitByte c s = f :: fs) :
    (fs = [] ∧ s = f) ∨ ∃ t, s = f ++ c :: t ∧ splitByte c t = fs := by
  induction s generalizing f fs with
  | nil =>
    rw [splitByte, List.cons.injEq] at h
    exact Or.inl ⟨h.2.symm, h.1⟩
  | cons a s ih =>
    by_cases ha : a = c
    · rw [splitByte, if_pos (by simpa using ha), List.cons.injEq] at h
      obtain ⟨rfl, h⟩ := h
      exact Or.inr ⟨s, by rw [ha]; rfl, h⟩
    · cases hs : splitByte c s with
      | nil => exact absurd hs (splitByte_ne_nil c s)
      | cons e es =>
        rw [splitByte_cons_ne ha hs, List.cons.injEq] at h
        obtain ⟨rfl, rfl⟩ := h
        rcases ih hs with ⟨hnil, rfl⟩ | ⟨t, rfl, ht⟩
        · exact Or.inl ⟨hnil, rfl⟩
        · exact Or.inr ⟨t, rfl, ht⟩

theorem splitByte_concat (c : UInt8) (s : Str) :
    splitByte c (s ++ [c]) = splitByte c s ++ [[]] := by
  induction s with
  | nil => simp [splitByte]
  | cons a s ih =>
    by_cases ha : a = c
    · rw [List.cons_append, splitByte, if_pos (by simpa using ha), ih, splitByte,
        if_pos (by simpa using ha), List.cons_append]
    · cases hs : splitByte c s with
      | nil => exact absurd hs (splitByte_ne_nil c s)
      | cons f fs =>
        rw [hs] at ih
        rw [List.cons_append, splitByte_cons_ne ha ih, splitByte_cons_ne ha hs]
        rfl

theorem splitByte_map {f : UInt8 → UInt8} (hf : ∀ b, f b = c ↔ b = c)
    (s : Str) : splitByte c (s.map f) = (splitByte c s).map (List.map f) := by
  induction s with
  | nil => simp [splitByte]
  | cons a s ih =>
    by_cases ha : a = c
    · rw [List.map_cons, splitByte, if_pos (by simpa using (hf a).mpr ha), ih, splitByte,
        if_pos (by simpa using ha)]
      rfl
    · cases hs : splitByte c s with
      | nil => exact absurd hs (splitByte_ne_nil c s)
      | cons e es =>
        rw [hs] at ih
        rw [List.map_cons, splitByte_cons_ne (fun h => ha ((hf a).mp h)) ih,
          splitByte_cons_ne ha hs]
        rfl

end Go
