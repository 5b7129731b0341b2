/-
# `Go.Lines` — texts and their lines

A text is split at its newlines, some of its lines are written again, each with a newline
behind it, and the newlines at the end are cut off: that is how the compressors of the
program work.  `unlines_splitByte` is the way back from the lines to the text, and
`trimRight_unlines` says what is left of the lines that were written.
-/
import MiniGoAgent.Go.Search
import Mathlib.Data.List.Flatten

namespace Go

variable {ls : List Str}

def newline : UInt8 := byte '\n'

def unlines (ls : List Str) : Str := ls.flatMap (fun l => l ++ [newline])

/-- `strings.Join(ls, "\n")`. -/
def joinLines : List Str → Str
  | [] => []
  | [l] => l
  | l :: m :: rest => l ++ newline :: joinLines (m :: rest)

/-- The lines of a text; the empty text has none. -/
def linesOf (s : Str) : List Str := if s = [] then [] else splitByte newline s

@[simp] theorem unlines_nil : unlines [] = [] := rfl

theorem unlines_cons (l : Str) (ls : List Str) :
    unlines (l :: ls) = l ++ newline :: unlines ls := by
  rw [unlines, List.flatMap_cons, List.append_assoc]
  rfl

theorem unlines_append (ls ls' : List Str) : unlines (ls ++ ls') = unlines ls ++ unlines ls' :=
  List.flatMap_append

theorem unlines_singleton (l : Str) : unlines [l] = l ++ [newline] := by
  rw [unlines_cons, unlines_nil]

theorem unlines_splitByte (s : Str) : unlines (splitByte newline s) = s ++ [newline] := by
  induction s with
  | nil => rfl
  | cons b s ih =>
    by_cases hb : b = newline
    · rw [splitByte, if_pos (by simpa using hb), unlines_cons, ih, hb]
      rfl
    · cases hs : splitByte newline s with
      | nil => exact absurd hs (splitByte_ne_nil newline s)
      | cons f fs =>
        rw [hs, unlines_cons] at ih
        rw [splitByte_cons_ne hb hs, unlines_cons, List.cons_append, ih, List.cons_append]

theorem length_unlines_sublist {ls' : List Str} (h : ls.Sublist ls') :
    (unlines ls).length ≤ (unlines ls').length :=
  (h.flatMap _).length_le

theorem length_unlines_filter (p : Str → Bool) (ls : List Str) :
    (unlines (ls.filter p)).length + (unlines (ls.filter (fun l => !p l))).length =
      (unlines ls).length := by
  rw [← List.length_append, ← unlines_append]
  exact ((List.filter_append_perm p ls).flatMap_right _).length_eq

theorem joinLines_snoc (ls : List Str) (l : Str) : joinLines (ls ++ [l]) = unlines ls ++ l := by
  induction ls with
  | nil => rfl
  | cons m ls ih =>
    show joinLines (m :: (ls ++ [l])) = _
    rw [unlines_cons, List.append_assoc, List.cons_append, ← ih]
    cases ls with
    | nil => rfl
    | cons n ls => rfl

theorem splitByte_unlines_append (h : ∀ l ∈ ls, newline ∉ l) {last : Str}
    (hlast : newline ∉ last) : splitByte newline (unlines ls ++ last) = ls ++ [last] := by
  induction ls with
  | nil =>
    have hsplit := splitByte_append hlast (show splitByte newline [] = [[]] from rfl)
    rw [List.append_nil] at hsplit
    rw [unlines_nil, List.nil_append, List.nil_append]
    exact hsplit
  | cons l ls ih =>
    obtain ⟨hl, hls⟩ := List.forall_mem_cons.mp h
    have hnext : splitByte newline (newline :: (unlines ls ++ last)) = [] :: (ls ++ [last]) := by
      rw [splitByte, if_pos (by simp), ih hls]
    rw [unlines_cons, List.append_assoc, List.cons_append, splitByte_append hl hnext,
      List.append_nil]
    rfl

theorem splitByte_joinLines (hne : ls ≠ []) (h : ∀ l ∈ ls, newline ∉ l) :
    splitByte newline (joinLines ls) = ls := by
  obtain ⟨front, last, rfl⟩ : ∃ front last, ls = front ++ [last] :=
    ⟨ls.dropLast, ls.getLast hne, (List.dropLast_append_getLast hne).symm⟩
  rw [joinLines_snoc]
  exact splitByte_unlines_append (fun l hl => h l (List.mem_append_left _ hl))
    (h last (List.mem_append_right _ (List.mem_singleton_self last)))

theorem linesOf_joinLines (h : ∀ l ∈ ls, newline ∉ l)
    (hlast : ls.getLast? ≠ some []) : linesOf (joinLines ls) = ls := by
  cases ls using List.reverseRecOn with
  | nil => rfl
  | append_singleton front last =>
    have hne : joinLines (front ++ [last]) ≠ [] := by
      rw [joinLines_snoc]
      intro heq
      rw [(List.append_eq_nil_iff.mp heq).2] at hlast
      exact hlast (by simp)
    rw [linesOf, if_neg hne, splitByte_joinLines (by simp) h]

/-! ## Trailing newlines -/

theorem trimRight_append_newline (s : Str) :
    trimRight (s ++ [newline]) (lit "\n") = trimRight s (lit "\n") := by
  rw [trimRight, List.rdropWhile_concat_pos _ _ _ (by decide), trimRight]

theorem trimRight_append {p cut : Str} (h : p.getLast?.all (fun c => !cut.contains c) = true)
    (t : Str) : trimRight (p ++ t) cut = p ++ trimRight t cut := by
  unfold trimRight
  induction t using List.reverseRecOn with
  | nil =>
    rw [List.append_nil, List.rdropWhile_nil, List.append_nil, List.rdropWhile_eq_self_iff]
    intro hne
    rw [List.getLast?_eq_some_getLast hne] at h
    simpa using h
  | append_singleton t d ih =>
    rw [← List.append_assoc]
    by_cases hd : cut.contains d = true
    · rw [List.rdropWhile_concat_pos _ _ _ hd, List.rdropWhile_concat_pos _ _ _ hd, ih]
    · rw [List.rdropWhile_concat_neg _ _ _ hd, List.rdropWhile_concat_neg _ _ _ hd,
        List.append_assoc]

theorem trimRight_append_cons {c : UInt8} (hc : c ≠ newline) (s rest : Str) :
    trimRight (s ++ c :: rest) (lit "\n") = s ++ c :: trimRight rest (lit "\n") := by
  have hlast : (s ++ [c]).getLast?.all (fun d => !(lit "\n").contains d) = true := by
    rw [List.getLast?_concat, show lit "\n" = [newline] by decide]
    simpa using hc
  rw [List.append_cons, trimRight_append hlast, ← List.append_cons]

theorem hasPrefix_trimRight {p cut : Str}
    (h : p.getLast?.all (fun c => !cut.contains c) = true) (s : Str) :
    hasPrefix (trimRight s cut) p = hasPrefix s p := by
  rw [Bool.eq_iff_iff, hasPrefix_iff, hasPrefix_iff]
  constructor
  · intro hp
    exact hp.trans (List.rdropWhile_prefix _ s)
  · rintro ⟨t, rfl⟩
    rw [trimRight_append h]
    exact List.prefix_append _ _

theorem trimRight_unlines (h : ∀ l ∈ ls, newline ∉ l) :
    trimRight (unlines ls) (lit "\n") = joinLines (ls.rdropWhile List.isEmpty) := by
  induction ls using List.reverseRecOn with
  | nil => rfl
  | append_singleton ls l ih =>
    have hls : ∀ m ∈ ls, newline ∉ m := fun m hm => h m (List.mem_append_left _ hm)
    have hl : newline ∉ l := h l (List.mem_append_right _ (List.mem_singleton_self l))
    rw [unlines_append, unlines_singleton, ← List.append_assoc, trimRight_append_newline]
    cases hlast : l using List.reverseRecOn with
    | nil =>
      rw [List.append_nil, ih hls, List.rdropWhile_concat_pos _ _ _ rfl]
    | append_singleton front c =>
      have hc : c ≠ newline := by
        intro heq
        refine hl ?_
        rw [hlast, heq]
        simp
      rw [← List.append_assoc, trimRight_append_cons hc,
        List.rdropWhile_concat_neg _ _ _ (by simp), joinLines_snoc, List.append_assoc]
      rfl

theorem length_trimRight_le (s cut : Str) : (trimRight s cut).length ≤ s.length :=
  (List.rdropWhile_prefix _ s).length_le

theorem length_trimRight_unlines_le (ls : List Str) :
    (trimRight (unlines ls) (lit "\n")).length ≤ (unlines ls).length - 1 := by
  cases ls using List.reverseRecOn with
  | nil => exact Nat.le_refl 0
  | append_singleton ls l =>
    have hle := length_trimRight_le (unlines ls ++ l) (lit "\n")
    rw [unlines_append, unlines_singleton, ← List.append_assoc, trimRight_append_newline,
      List.length_append, List.length_singleton, Nat.add_sub_cancel]
    exact hle

theorem length_trimRight_newline_unlines (h : ∀ l ∈ ls, newline ∉ l) :
    (trimRight (newline :: unlines ls) (lit "\n")).length + (ls.rtakeWhile List.isEmpty).length =
      (unlines ls).length := by
  induction ls using List.reverseRecOn with
  | nil => decide
  | append_singleton ls l ih =>
    have hls : ∀ m ∈ ls, newline ∉ m := fun m hm => h m (List.mem_append_left _ hm)
    have hl : newline ∉ l := h l (List.mem_append_right _ (List.mem_singleton_self l))
    rw [unlines_append, unlines_singleton, ← List.append_assoc, ← List.cons_append,
      trimRight_append_newline]
    cases hlast : l using List.reverseRecOn with
    | nil =>
      rw [List.append_nil, List.rtakeWhile_concat_pos _ _ _ rfl, List.length_append,
        ← Nat.add_assoc, ih hls, List.length_append]
      rfl
    | append_singleton front c =>
      have hc : c ≠ newline := by
        intro heq
        refine hl ?_
        rw [hlast, heq]
        simp
      rw [← List.append_assoc, ← List.cons_append, trimRight_append_cons hc,
        List.rtakeWhile_concat_neg _ _ _ (by simp)]
      have hnil : trimRight [] (lit "\n") = [] := rfl
      rw [hnil]
      simp only [List.length_append, List.length_cons, List.length_nil]

end Go
