/-
# `Protocol.BuildOutput` — taking the noise out of build output (`content_compress.go`)

`compressBuildOutput` strips every line of its timestamp, its colours and the blanks at
its end, and writes the lines again, leaving out blank lines at the start and all but one
of a row of them.  The newlines at the end are cut off.

`Tidied` is what the loop has made of the lines it has seen; each line keeps it
(`Tidied.step`), and the text that is returned is read off it.
-/
import MiniGoAgent.Protocol.Detect
import Mathlib.Data.List.Chain

open Go

namespace MiniGoAgent

open Regexp (inOrder literal classOf digits digit space atLeast one many opt alt dropFront removeAll
  dropFront_sublist removeAll_sublist)

/-- `reTimestamp`, without the `^`. -/
def reTimestamp : Regexp Str :=
  inOrder [digits 4, one (classOf "-/"), digits 2, one (classOf "-/"), digits 2, one (classOf "T "),
    digits 2, literal ":", digits 2, opt (inOrder [literal ":", digits 2]),
    opt (inOrder [literal ".", atLeast 1 digit]),
    opt (alt (literal "Z") (inOrder [one (classOf "+-"), digits 2, opt (literal ":"), digits 2])),
    atLeast 1 space]

def reANSIEscape : Regexp Str :=
  inOrder [literal "\x1b[", many (classOf "0123456789;"), literal "m"]

def strip (line : Str) : Str :=
  trimRight (removeAll reANSIEscape (dropFront reTimestamp line)) (lit " \t\r")

structure BuildState where
  b : Str := []
  seenBlank : Bool := false
  lineCount : Nat := 0

def buildStep (s : BuildState) (line : Str) : BuildState :=
  let stripped := strip line
  if stripped = [] then
    if !s.seenBlank && 0 < s.lineCount then
      { s with b := s.b ++ [newline], seenBlank := true }
    else s
  else { b := s.b ++ stripped ++ [newline], seenBlank := false, lineCount := s.lineCount + 1 }

def compressBuildOutput (content : Str) : Str :=
  let s := (splitByte newline content).foldl buildStep {}
  if 0 < s.lineCount ∧ 0 < s.b.length then trimRight s.b (lit "\n") else s.b

/-! ## Stripping -/

theorem strip_sublist (line : Str) : (strip line).Sublist line :=
  (List.rdropWhile_prefix _ _).sublist.trans
    ((removeAll_sublist _ _).trans (dropFront_sublist _ _))

theorem newline_notMem_strip {line : Str} (h : newline ∉ line) : newline ∉ strip line :=
  fun hmem => h ((strip_sublist line).subset hmem)

def isBlankLine (line : Str) : Bool := (trimRight line (lit " \t\r")).isEmpty

theorem isBlankLine_strip (line : Str) : isBlankLine (strip line) = (strip line).isEmpty := by
  rw [isBlankLine, strip, trimRight, trimRight, List.rdropWhile_idempotent]

/-! ## The loop -/

/-- The loop has written the lines `out` for the stripped lines `ls`: of these the ones
that are not empty, no two empty lines in a row, and none at the start. -/
structure Tidied (ls out : List Str) (s : BuildState) : Prop where
  text : s.b = unlines out
  kept : out.filter (fun l => !l.isEmpty) = ls.filter (fun l => !l.isEmpty)
  mem : ∀ l ∈ out, l = [] ∨ l ∈ ls
  single : out.IsChain (fun a b => ¬ (a = [] ∧ b = []))
  front : out.head? ≠ some []
  seen : s.seenBlank = true ↔ out.getLast? = some []
  started : 0 < s.lineCount ↔ out ≠ []

namespace Tidied

variable {ls out : List Str} {s : BuildState}

theorem nil : Tidied [] [] {} :=
  ⟨rfl, rfl, fun _ h => absurd h List.not_mem_nil, .nil, by simp, by simp, by simp⟩

theorem skip (h : Tidied ls out s) : Tidied (ls ++ [[]]) out s := by
  refine ⟨h.text, ?_, ?_, h.single, h.front, h.seen, h.started⟩
  · rw [List.filter_append, h.kept]
    simp
  · intro l hl
    rcases h.mem l hl with hnil | hmem
    · exact Or.inl hnil
    · exact Or.inr (List.mem_append_left _ hmem)

theorem blank (h : Tidied ls out s) (hseen : s.seenBlank = false) (hstarted : 0 < s.lineCount) :
    Tidied (ls ++ [[]]) (out ++ [[]]) { s with b := s.b ++ [newline], seenBlank := true } := by
  have hlast : out.getLast? ≠ some [] := by
    intro heq
    rw [h.seen.mpr heq] at hseen
    cases hseen
  have hne := h.started.mp hstarted
  refine ⟨?_, ?_, ?_, ?_, ?_, ?_, ?_⟩
  · show s.b ++ [newline] = _
    rw [h.text, unlines_append]
    rfl
  · rw [List.filter_append, List.filter_append, h.kept]
  · intro l hl
    rcases List.mem_append.mp hl with hl | hl
    · exact (h.mem l hl).imp_right (List.mem_append_left _)
    · exact Or.inl (List.mem_singleton.mp hl)
  · refine List.isChain_append.mpr ⟨h.single, .singleton _, ?_⟩
    rintro x hx y - ⟨rfl, -⟩
    exact hlast hx
  · rw [List.head?_append_of_ne_nil _ hne]
    exact h.front
  · simp
  · exact iff_of_true hstarted (by simp)

theorem line (h : Tidied ls out s) {l : Str} (hl : l ≠ []) :
    Tidied (ls ++ [l]) (out ++ [l])
      { b := s.b ++ l ++ [newline], seenBlank := false, lineCount := s.lineCount + 1 } := by
  refine ⟨?_, ?_, ?_, ?_, ?_, ?_, ?_⟩
  · show s.b ++ l ++ [newline] = _
    rw [h.text, unlines_append, unlines_singleton, List.append_assoc]
  · rw [List.filter_append, List.filter_append, h.kept]
  · intro m hm
    rcases List.mem_append.mp hm with hm | hm
    · exact (h.mem m hm).imp_right (List.mem_append_left _)
    · exact Or.inr (List.mem_append_right _ hm)
  · refine List.isChain_append.mpr ⟨h.single, .singleton _, ?_⟩
    rintro x - y hy ⟨-, rfl⟩
    exact hl (by simpa using hy)
  · cases hout : out with
    | nil => simpa using hl
    | cons a rest =>
      rw [List.cons_append, List.head?_cons]
      have hfront := h.front
      rw [hout, List.head?_cons] at hfront
      exact hfront
  · simpa using hl
  · exact iff_of_true (Nat.succ_pos _) (by simp)

theorem step (h : Tidied ls out s) (l : Str) :
    ∃ out', Tidied (ls ++ [strip l]) out' (buildStep s l) := by
  unfold buildStep
  by_cases hblank : strip l = []
  · dsimp only
    rw [if_pos hblank, hblank]
    by_cases hfirst : (!s.seenBlank && 0 < s.lineCount) = true
    · rw [if_pos hfirst]
      rw [Bool.and_eq_true, Bool.not_eq_true', decide_eq_true_iff] at hfirst
      exact ⟨out ++ [[]], h.blank hfirst.1 hfirst.2⟩
    · rw [if_neg hfirst]
      exact ⟨out, h.skip⟩
  · dsimp only
    rw [if_neg hblank]
    exact ⟨out ++ [strip l], h.line hblank⟩

theorem run (h : Tidied ls out s) (lines : List Str) :
    ∃ out', Tidied (ls ++ lines.map strip) out' (lines.foldl buildStep s) := by
  induction lines generalizing ls out s with
  | nil =>
    rw [List.map_nil, List.append_nil]
    exact ⟨out, h⟩
  | cons l lines ih =>
    obtain ⟨next, hnext⟩ := h.step l
    obtain ⟨out', hout'⟩ := ih hnext
    rw [List.append_assoc] at hout'
    exact ⟨out', hout'⟩

end Tidied

theorem compressBuildOutput_eq_trimRight (content : Str) :
    compressBuildOutput content =
      trimRight ((splitByte newline content).foldl buildStep {}).b (lit "\n") := by
  obtain ⟨out, hout⟩ := Tidied.nil.run (splitByte newline content)
  rw [compressBuildOutput]
  split
  next => rfl
  next hempty =>
    have hnil : out = [] := by
      by_contra hne
      refine hempty ⟨hout.started.mpr hne, ?_⟩
      obtain ⟨l, rest, rfl⟩ := List.exists_cons_of_ne_nil hne
      rw [hout.text, unlines_cons, List.length_append, List.length_cons]
      omega
    rw [hout.text, hnil]
    rfl

theorem ne_nil_of_mem_getLast? {ls : List Str} {l : Str}
    (h : l ∈ (ls.rdropWhile List.isEmpty).getLast?) : l ≠ [] := by
  intro hnil
  obtain ⟨hne, hget⟩ := List.mem_getLast?_eq_getLast h
  have hnot := List.rdropWhile_last_not List.isEmpty ls hne
  rw [← hget, hnil] at hnot
  exact hnot rfl

theorem linesOf_compressBuildOutput (content : Str) :
    ∃ out s, Tidied ((splitByte newline content).map strip) out s ∧
      linesOf (compressBuildOutput content) = out.rdropWhile List.isEmpty ∧
      ∀ l ∈ out, isBlankLine l = l.isEmpty := by
  obtain ⟨out, hout⟩ := Tidied.nil.run (splitByte newline content)
  rw [List.nil_append] at hout
  have hlines : ∀ l ∈ out, newline ∉ l ∧ isBlankLine l = l.isEmpty := by
    intro l hl
    rcases hout.mem l hl with rfl | hmem
    · exact ⟨List.not_mem_nil, rfl⟩
    · obtain ⟨line, hline, rfl⟩ := List.mem_map.mp hmem
      exact ⟨newline_notMem_strip (not_mem_of_mem_splitByte hline), isBlankLine_strip line⟩
  refine ⟨out, _, hout, ?_, fun l hl => (hlines l hl).2⟩
  rw [compressBuildOutput_eq_trimRight, hout.text, trimRight_unlines fun l hl => (hlines l hl).1]
  exact linesOf_joinLines
    (fun l hl => (hlines l ((List.rdropWhile_prefix List.isEmpty out).subset hl)).1)
    (fun hnil => ne_nil_of_mem_getLast? hnil rfl)

theorem filter_rdropWhile_isEmpty (ls : List Str) :
    (ls.rdropWhile List.isEmpty).filter (fun l => !l.isEmpty) =
      ls.filter (fun l => !l.isEmpty) := by
  induction ls using List.reverseRecOn with
  | nil => rfl
  | append_singleton ls l ih =>
    cases l with
    | nil =>
      rw [List.rdropWhile_concat_pos _ _ _ rfl, ih, List.filter_append]
      simp
    | cons c l => rw [List.rdropWhile_concat_neg _ _ _ (by simp)]

/-- **Build output.**  The lines of the result that are not blank are the stripped lines
of the content that are not blank, in their order; no two blank lines follow each other,
and none is the first or the last. -/
theorem compressBuildOutput_spec (content : Str) :
    (linesOf (compressBuildOutput content)).filter (fun l => !isBlankLine l) =
        ((splitByte newline content).map strip).filter (fun l => !isBlankLine l) ∧
      (linesOf (compressBuildOutput content)).IsChain
        (fun a b => ¬ (isBlankLine a = true ∧ isBlankLine b = true)) ∧
      (∀ l ∈ (linesOf (compressBuildOutput content)).head?, isBlankLine l = false) ∧
      ∀ l ∈ (linesOf (compressBuildOutput content)).getLast?, isBlankLine l = false := by
  obtain ⟨out, s, hout, hof, hout_blank⟩ := linesOf_compressBuildOutput content
  have hsplit := List.rdropWhile_prefix List.isEmpty out
  have hblank : ∀ l ∈ out.rdropWhile List.isEmpty, isBlankLine l = l.isEmpty :=
    fun l hl => hout_blank l (hsplit.subset hl)
  rw [hof]
  refine ⟨?_, ?_, ?_, ?_⟩
  · calc (out.rdropWhile List.isEmpty).filter (fun l => !isBlankLine l)
        = (out.rdropWhile List.isEmpty).filter (fun l => !l.isEmpty) :=
          List.filter_congr fun l hl => by rw [hblank l hl]
      _ = out.filter (fun l => !l.isEmpty) := filter_rdropWhile_isEmpty out
      _ = ((splitByte newline content).map strip).filter (fun l => !l.isEmpty) := hout.kept
      _ = ((splitByte newline content).map strip).filter (fun l => !isBlankLine l) := by
          refine List.filter_congr ?_
          intro l hl
          obtain ⟨line, -, rfl⟩ := List.mem_map.mp hl
          rw [isBlankLine_strip]
  · have hchain : (out.rdropWhile List.isEmpty).IsChain (fun a b => ¬ (a = [] ∧ b = [])) := by
      obtain ⟨rest, hrest⟩ := hsplit
      have hsingle := hout.single
      rw [← hrest] at hsingle
      exact hsingle.left_of_append
    refine hchain.imp_of_mem_imp ?_
    intro a b ha hb hne
    rw [hblank a ha, hblank b hb, List.isEmpty_iff, List.isEmpty_iff]
    exact hne
  · intro l hl
    rw [hblank l (List.mem_of_mem_head? hl), ← Bool.not_eq_true, List.isEmpty_iff]
    rintro rfl
    refine hout.front ?_
    obtain ⟨rest, hrest⟩ := hsplit
    rw [← hrest, List.head?_append, hl]
    rfl
  · intro l hl
    rw [hblank l (List.mem_of_getLast? hl), ← Bool.not_eq_true, List.isEmpty_iff]
    exact ne_nil_of_mem_getLast? hl

end MiniGoAgent
