/-
# `Protocol.CompressContent` — one compressor for each type of content (`content_compress.go`)

`CompressContent` leaves texts of less than 256 bytes alone and gives the others to the
compressor of their type.  Three of the four only take something out; `compressGitDiff`
also writes a notice, and takes out nothing but headers for it.  `compressContent_length_iff`
weighs the two.
-/
import MiniGoAgent.Protocol.BuildOutput
import MiniGoAgent.Protocol.Compress
import MiniGoAgent.Protocol.HunkLimit
import MiniGoAgent.Protocol.SearchLines

open Go

namespace MiniGoAgent

def compressContent (content : Str) (ct : ContentType) : Str :=
  if content.length < 256 then content
  else
    match ct with
    | .jsonArray => compressJSONArray content
    | .buildOutput => compressBuildOutput content
    | .searchResults => compressSearchResults content
    | .gitDiff => compressGitDiff content
    | _ => content

theorem compressContent_jsonArray {content : Str} (h : ¬ content.length < 256) :
    compressContent content .jsonArray = compressJSONArray content := if_neg h

/-! ## Compressors that take out -/

theorem length_compressJSONArray_le (content : Str) :
    (compressJSONArray content).length ≤ content.length :=
  (compressLoop_sublist false false content).length_le

theorem length_buildStep_le (s : BuildState) (line : Str) :
    (buildStep s line).b.length ≤ s.b.length + (line.length + 1) := by
  have hstrip := (strip_sublist line).length_le
  unfold buildStep
  dsimp only
  split
  · split
    · show (s.b ++ [newline]).length ≤ _
      rw [List.length_append, List.length_singleton]
      omega
    · exact Nat.le_add_right _ _
  · show (s.b ++ strip line ++ [newline]).length ≤ _
    rw [List.length_append, List.length_append, List.length_singleton]
    omega

theorem length_foldl_buildStep_le (s : BuildState) (lines : List Str) :
    (lines.foldl buildStep s).b.length ≤ s.b.length + (unlines lines).length := by
  induction lines generalizing s with
  | nil => exact Nat.le_refl _
  | cons line lines ih =>
    have hstep := length_buildStep_le s line
    have hrest := ih (buildStep s line)
    rw [List.foldl_cons, unlines_cons, List.length_append, List.length_cons]
    omega

theorem length_compressBuildOutput_le (content : Str) :
    (compressBuildOutput content).length ≤ content.length := by
  obtain ⟨out, hout⟩ := Tidied.nil.run (splitByte newline content)
  have hlength := length_foldl_buildStep_le {} (splitByte newline content)
  have hlines : (unlines (splitByte newline content)).length = content.length + 1 := by
    rw [unlines_splitByte, List.length_append, List.length_singleton]
  rw [hlines, hout.text, List.length_nil, Nat.zero_add] at hlength
  rw [compressBuildOutput_eq_trimRight, hout.text]
  have htrim := length_trimRight_unlines_le out
  omega

theorem length_compressSearchResults_le (content : Str) :
    (compressSearchResults content).length ≤ content.length := by
  have hkept := length_unlines_sublist
    ((keptFrom_sublist 0 (splitByte newline content)).trans List.filter_sublist)
  rw [unlines_splitByte, List.length_append, List.length_singleton] at hkept
  rw [compressSearchResults, foldl_searchStep {} (fun h => absurd h (Nat.lt_irrefl 0)),
    List.nil_append]
  have htrim := length_trimRight_unlines_le (keptFrom 0 (splitByte newline content))
  exact Nat.le_trans htrim (Nat.sub_le_of_le_add hkept)

/-! ## The compressor that also writes -/

def omittedHeaders (lines : List Str) : List Str :=
  (otherHunks maxHunks lines).filter reHunkHeader

theorem length_compressGitDiff {content : Str} (h : maxHunks < hunks (splitByte newline content)) :
    (compressGitDiff content).length +
        ((unlines (omittedHeaders (splitByte newline content))).length +
        ((strayLines (splitByte newline content)).rtakeWhile List.isEmpty).length) =
      content.length + 1 +
        (truncationNotice ((splitByte newline content).length - maxHunks : Nat)).length := by
  have hstray : ∀ l ∈ strayLines (splitByte newline content), newline ∉ l := by
    intro l hl
    refine not_mem_of_mem_splitByte (s := content) ?_
    rw [← firstHunks_append_otherHunks maxHunks (splitByte newline content)]
    exact List.mem_append_right _ (List.mem_of_mem_filter hl)
  have htrim := length_trimRight_newline_unlines hstray
  have hothers : (unlines (omittedHeaders (splitByte newline content))).length +
      (unlines (strayLines (splitByte newline content))).length =
        (unlines (otherHunks maxHunks (splitByte newline content))).length :=
    length_unlines_filter reHunkHeader _
  have hlines : content.length + 1 =
      (unlines (firstHunks maxHunks (splitByte newline content))).length +
      (unlines (otherHunks maxHunks (splitByte newline content))).length := by
    rw [← List.length_append, ← unlines_append, firstHunks_append_otherHunks, unlines_splitByte,
      List.length_append, List.length_singleton]
  rw [compressGitDiff_long_text h, List.length_append, List.length_append]
  omega

/-- What is returned is longer than the content exactly if a diff of 256 bytes or more has
more than fifty hunks and the notice, with the 28 bytes of its words and the digits of its
number, is not made up for by the headers that are left out and the empty lines at the end. -/
theorem compressContent_length_iff (content : Str) (ct : ContentType) :
    (compressContent content ct).length ≤ content.length ↔
      content.length < 256 ∨ ct ≠ .gitDiff ∨ hunks (splitByte newline content) ≤ maxHunks ∨
        28 + (Nat.digits 10 ((splitByte newline content).length - maxHunks)).length <
          (unlines (omittedHeaders (splitByte newline content))).length +
            ((strayLines (splitByte newline content)).rtakeWhile List.isEmpty).length := by
  unfold compressContent
  by_cases hsmall : content.length < 256
  · rw [if_pos hsmall]
    exact iff_of_true (Nat.le_refl _) (.inl hsmall)
  · rw [if_neg hsmall]
    cases ct with
    | plainText | sourceCode => exact iff_of_true (Nat.le_refl _) (.inr (.inl (by decide)))
    | jsonArray => exact iff_of_true (length_compressJSONArray_le content) (.inr (.inl (by decide)))
    | buildOutput =>
      exact iff_of_true (length_compressBuildOutput_le content) (.inr (.inl (by decide)))
    | searchResults =>
      exact iff_of_true (length_compressSearchResults_le content) (.inr (.inl (by decide)))
    | gitDiff =>
      by_cases hshort : hunks (splitByte newline content) ≤ maxHunks
      · dsimp only
        rw [compressGitDiff_short hshort]
        exact iff_of_true (length_trimRight_le content _) (.inr (.inr (.inl hshort)))
      · have hlong : maxHunks < hunks (splitByte newline content) := Nat.lt_of_not_le hshort
        have hlines : hunks (splitByte newline content) ≤ (splitByte newline content).length :=
          List.countP_le_length
        have hbytes := length_compressGitDiff hlong
        rw [length_truncationNotice (Nat.sub_pos_of_lt (Nat.lt_of_lt_of_le hlong hlines))] at hbytes
        constructor
        · intro hle
          refine .inr (.inr (.inr ?_))
          dsimp only at hle
          omega
        · rintro (hlt | hne | hle | hlt)
          · exact absurd hlt hsmall
          · exact absurd rfl hne
          · exact absurd hle hshort
          · dsimp only
            omega

/-- Fifty-one headers. -/
def bareHunks : Str := joinLines (List.replicate 51 (lit "@@ -1,1 +1,1 @@"))

/-- For the last of them there is a notice that is longer. -/
theorem compressContent_grows :
    bareHunks.length = 815 ∧ (compressContent bareHunks .gitDiff).length = 829 ∧
      ¬ (compressContent bareHunks .gitDiff).length ≤ bareHunks.length := by
  have hbefore : bareHunks.length = 815 := by decide +kernel
  have hafter : (compressContent bareHunks .gitDiff).length = 829 := by decide +kernel
  refine ⟨hbefore, hafter, ?_⟩
  rw [hbefore, hafter]
  decide

end MiniGoAgent
