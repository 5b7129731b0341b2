/-
# `Go.Letters` — texts that differ in the case of their letters

`strings.ToLower` works rune by rune: an ASCII letter has a lower case in ASCII, and so
have the two runes U+212A and U+0130; every other rune beyond ASCII has one beyond ASCII.
`caseKey` is what texts with the same lower case have in common: it keeps the ASCII part of
the lower case and where runes beyond ASCII stand, but not which.
-/
import MiniGoAgent.Go.Runes
import MiniGoAgent.Go.Search

namespace Go

variable {p s : Str} {c : UInt8}

def IsASCII (s : Str) : Prop := ∀ c ∈ s, c < 0x80

theorem isASCII_cons : IsASCII (c :: s) ↔ c < 0x80 ∧ IsASCII s :=
  List.forall_mem_cons

instance decidableIsASCII (s : Str) : Decidable (IsASCII s) :=
  decidable_of_iff (s.all (fun c => decide (c < 0x80)) = true) (by simp [IsASCII])

/-! ## The lower case -/

/-- `strings.ToLower` on a byte of ASCII. -/
def lowerByte (c : UInt8) : UInt8 := if 0x41 ≤ c ∧ c ≤ 0x5A then c + 0x20 else c

theorem toLower_cons_of_ascii (hc : c < 0x80) (s : Str) :
    toLower (c :: s) = lowerByte c :: toLower s := by
  apply toLower.eq_4
  · rintro rest rfl _
    exact absurd hc (by decide)
  · rintro rest rfl _
    exact absurd hc (by decide)

theorem toLower_append (s : Str) (hc : c ∉ [0x84, 0xAA, 0xB0]) (r : Str) :
    toLower (s ++ c :: r) = toLower s ++ toLower (c :: r) := by
  simp only [List.mem_cons, List.not_mem_nil, not_or] at hc
  fun_induction toLower s with
  | case1 => rfl
  | case2 rest ih =>
    show toLower (0xE2 :: 0x84 :: 0xAA :: (rest ++ c :: r)) = _
    rw [toLower, ih]
    rfl
  | case3 rest ih =>
    show toLower (0xC4 :: 0xB0 :: (rest ++ c :: r)) = _
    rw [toLower, ih]
    rfl
  | case4 a rest hkelvin hdotted ih =>
    rw [List.cons_append, toLower.eq_4, ih]
    · rfl
    · intro rest' ha heq
      rcases rest with _ | ⟨b, _ | ⟨b', rest⟩⟩
      · exact hc.1 (List.cons.inj heq).1
      · exact hc.2.1 (List.cons.inj (List.cons.inj heq).2).1
      · rw [List.cons_append, List.cons_append, List.cons.injEq, List.cons.injEq] at heq
        exact hkelvin rest ha (by rw [heq.1, heq.2.1])
    · intro rest' ha heq
      rcases rest with _ | ⟨b, rest⟩
      · exact hc.2.2.1 (List.cons.inj heq).1
      · exact hdotted rest ha (by rw [(List.cons.inj heq).1])

theorem toLower_append_ascii (s : Str) (hc : c < 0x80) (r : Str) :
    toLower (s ++ c :: r) = toLower s ++ lowerByte c :: toLower r := by
  rw [← toLower_cons_of_ascii hc]
  refine toLower_append s ?_ r
  rintro hmem
  simp only [List.mem_cons, List.not_mem_nil, or_false] at hmem
  rcases hmem with rfl | rfl | rfl <;> exact absurd hc (by decide)

theorem toLower_of_ascii (h : IsASCII s) : toLower s = s.map lowerByte := by
  induction s with
  | nil => rfl
  | cons c s ih =>
    rw [isASCII_cons] at h
    rw [toLower_cons_of_ascii h.1, ih h.2, List.map_cons]

theorem exists_mem_toLower (h : ¬ IsASCII s) :
    ∃ c ∈ toLower s, c = byte 'k' ∨ c = byte 'i' ∨ 0x80 ≤ c := by
  fun_induction toLower s with
  | case1 => exact absurd (fun c hc => absurd hc List.not_mem_nil) h
  | case2 rest ih => exact ⟨byte 'k', List.mem_cons_self, Or.inl rfl⟩
  | case3 rest ih => exact ⟨byte 'i', List.mem_cons_self, Or.inr (Or.inl rfl)⟩
  | case4 a rest _ _ ih =>
    by_cases ha : a < 0x80
    · have hrest : ¬ IsASCII rest := fun hrest => h (isASCII_cons.mpr ⟨ha, hrest⟩)
      obtain ⟨c, hc, hkind⟩ := ih hrest
      exact ⟨c, List.mem_cons_of_mem _ hc, hkind⟩
    · have hhigh : 0x80 ≤ a := UInt8.not_lt.mp ha
      have hsame : ¬ (0x41 ≤ a ∧ a ≤ 0x5A) := by
        rintro ⟨_, hle⟩
        exact absurd (UInt8.le_trans hhigh hle) (by decide)
      rw [if_neg hsame]
      exact ⟨a, List.mem_cons_self, Or.inr (Or.inr hhigh)⟩

/-! ## What the lower cases have in common -/

/-- One byte for every run of bytes beyond ASCII. -/
def collapse : Str → Str
  | [] => []
  | c :: s =>
    if c < 0x80 then c :: collapse s else 0x80 :: (collapse s).dropWhile (fun d => 0x80 ≤ d)

/-- The key of a text: texts with the same lower case have the same key. -/
def caseKey (s : Str) : Str := collapse (toLower s)

theorem collapse_cons_ascii (hc : c < 0x80) (s : Str) :
    collapse (c :: s) = c :: collapse s := if_pos hc

theorem collapse_cons_other (hc : ¬ c < 0x80) (s : Str) :
    collapse (c :: s) = 0x80 :: (collapse s).dropWhile (fun d => 0x80 ≤ d) := if_neg hc

theorem collapse_ascii_append (hp : IsASCII p) (s : Str) : collapse (p ++ s) = p ++ collapse s := by
  induction p with
  | nil => rfl
  | cons c p ih =>
    rw [isASCII_cons] at hp
    rw [List.cons_append, collapse_cons_ascii hp.1, ih hp.2, List.cons_append]

theorem collapse_of_ascii (h : IsASCII s) : collapse s = s := by
  have happ := collapse_ascii_append h []
  rwa [List.append_nil, collapse, List.append_nil] at happ

theorem isASCII_of_collapse (h : IsASCII (collapse s)) : IsASCII s := by
  induction s with
  | nil => exact h
  | cons c s ih =>
    by_cases hc : c < 0x80
    · rw [collapse_cons_ascii hc, isASCII_cons] at h
      exact isASCII_cons.mpr ⟨hc, ih h.2⟩
    · rw [collapse_cons_other hc, isASCII_cons] at h
      exact absurd h.1 (by decide)

theorem collapse_eq_iff (hp : IsASCII p) : collapse s = p ↔ s = p := by
  constructor
  · intro h
    rw [← h] at hp
    rw [← h, collapse_of_ascii (isASCII_of_collapse hp)]
  · rintro rfl
    exact collapse_of_ascii hp

theorem hasPrefix_collapse (hp : IsASCII p) (s : Str) :
    hasPrefix (collapse s) p = hasPrefix s p := by
  induction p generalizing s with
  | nil => rfl
  | cons b p ih =>
    rw [isASCII_cons] at hp
    cases s with
    | nil => rfl
    | cons c s =>
      by_cases hc : c < 0x80
      · have htail := ih hp.2 s
        unfold hasPrefix at htail ⊢
        rw [collapse_cons_ascii hc, List.isPrefixOf, List.isPrefixOf, htail]
      · have hne : (b == c) = false := by
          rw [beq_eq_false_iff_ne]
          rintro rfl
          exact hc hp.1
        have hne' : (b == 0x80) = false := by
          rw [beq_eq_false_iff_ne]
          rintro rfl
          exact absurd hp.1 (by decide)
        unfold hasPrefix
        rw [collapse_cons_other hc, List.isPrefixOf, List.isPrefixOf, hne, hne']
        rfl

theorem collapse_append_ascii (s : Str) (hp : IsASCII p) : collapse (s ++ p) = collapse s ++ p := by
  induction s with
  | nil => exact collapse_of_ascii hp
  | cons c s ih =>
    by_cases hc : c < 0x80
    · rw [List.cons_append, collapse_cons_ascii hc, ih, collapse_cons_ascii hc,
        List.cons_append]
    · have hdrop : p.dropWhile (fun d => decide (0x80 ≤ d)) = p := by
        cases p with
        | nil => rfl
        | cons b p =>
          rw [isASCII_cons] at hp
          rw [List.dropWhile_cons_of_neg]
          simpa using hp.1
      rw [List.cons_append, collapse_cons_other hc, ih, collapse_cons_other hc,
        List.dropWhile_append, hdrop]
      split
      case isTrue hempty =>
        rw [List.isEmpty_iff.mp hempty]
        rfl
      case isFalse => rfl

theorem exists_append_of_collapse (hp : IsASCII p) {t : Str}
    (h : collapse s = t ++ p) : ∃ t', s = t' ++ p := by
  induction s generalizing t with
  | nil =>
    obtain ⟨_, rfl⟩ := List.append_eq_nil_iff.mp h.symm
    exact ⟨[], rfl⟩
  | cons c s ih =>
    cases t with
    | nil =>
      rw [List.nil_append, collapse_eq_iff hp] at h
      exact ⟨[], h⟩
    | cons d t =>
      by_cases hc : c < 0x80
      · rw [collapse_cons_ascii hc, List.cons_append, List.cons.injEq] at h
        obtain ⟨t', rfl⟩ := ih h.2
        exact ⟨c :: t', rfl⟩
      · rw [collapse_cons_other hc, List.cons_append, List.cons.injEq] at h
        have hwhole : collapse s =
            ((collapse s).takeWhile (fun d => decide (0x80 ≤ d)) ++ t) ++ p := by
          rw [List.append_assoc, ← h.2, List.takeWhile_append_dropWhile]
        obtain ⟨t', rfl⟩ := ih hwhole
        exact ⟨c :: t', rfl⟩

theorem hasSuffix_iff : hasSuffix s p = true ↔ p <:+ s :=
  List.isSuffixOf_iff_suffix

theorem hasSuffix_collapse (hp : IsASCII p) (s : Str) :
    hasSuffix (collapse s) p = hasSuffix s p := by
  rw [Bool.eq_iff_iff, hasSuffix_iff, hasSuffix_iff]
  constructor
  · rintro ⟨t, ht⟩
    obtain ⟨t', rfl⟩ := exists_append_of_collapse hp ht.symm
    exact List.suffix_append t' p
  · rintro ⟨t, rfl⟩
    rw [collapse_append_ascii t hp]
    exact List.suffix_append _ p

theorem takeWhile_isDigit_collapse (s : Str) :
    (collapse s).takeWhile isDigit = s.takeWhile isDigit := by
  induction s with
  | nil => rfl
  | cons c s ih =>
    by_cases hc : c < 0x80
    · rw [collapse_cons_ascii hc, List.takeWhile_cons, List.takeWhile_cons, ih]
    · have hdigit : isDigit c = false := by
        rw [isDigit, Bool.and_eq_false_iff]
        right
        rw [decide_eq_false_iff_not]
        intro hle
        exact hc (UInt8.lt_of_le_of_lt hle (by decide))
      rw [collapse_cons_other hc, List.takeWhile_cons, List.takeWhile_cons, hdigit]
      rfl

end Go
