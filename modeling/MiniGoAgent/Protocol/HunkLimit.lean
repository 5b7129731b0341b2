/-
# `Protocol.HunkLimit` — cutting a diff behind its fiftieth hunk (`content_compress.go`)

`compressGitDiff` goes through the lines of a diff and counts the hunk headers.  From the
51st on it leaves them out and says so once — but it leaves out the headers only, the
other lines of the hunks stay, and the number it gives is one of lines.  What the loop
writes is `written`; `written_eq` puts it together from the first fifty hunks, the notice
and the lines of the other hunks that are no headers.
-/
import MiniGoAgent.Protocol.Detect
import Mathlib.Data.Nat.Digits.Defs

open Go

namespace MiniGoAgent

open Regexp (inOrder literal classOf digit atLeast matchesFront)

/-- `reHunkHeader.MatchString`. -/
def reHunkHeader (line : Str) : Bool :=
  matchesFront (inOrder [literal "@@ -", atLeast 1 digit, literal ",", atLeast 1 digit,
    atLeast 1 (classOf " "), literal "+", atLeast 1 digit, literal ",", atLeast 1 digit,
    literal " @@"]) (runes line)

def maxHunks : Nat := 50

namespace Compress

/-- The loop of `itoa`, which fills its buffer from the end. -/
def itoaLoop : Nat → Nat → Str → Str
  | 0, _, buf => buf
  | fuel + 1, n, buf =>
    if 0 < n then itoaLoop fuel (n / 10) (UInt8.ofNat (0x30 + n % 10) :: buf) else buf

/-- The package's own `itoa`.  Its buffer has 12 bytes, enough for every number of lines
below 10¹². -/
def itoa (n : Int) : Str :=
  if n = 0 then lit "0"
  else (if n < 0 then [byte '-'] else []) ++ itoaLoop n.natAbs n.natAbs []

end Compress

/-- What is written for the hunks that are left out. -/
def truncationNotice (count : Int) : Str :=
  lit "... (+" ++ (Compress.itoa count ++ lit " more hunks truncated)")

structure DiffState where
  b : Str := []
  hunkCount : Nat := 0

/-- The body of the loop; `total` is the number of lines. -/
def diffStep (total : Nat) (s : DiffState) (line : Str) : DiffState :=
  if reHunkHeader line then
    if maxHunks < s.hunkCount + 1 then
      { b := if s.hunkCount + 1 = maxHunks + 1 then
            s.b ++ truncationNotice (total - maxHunks) ++ [newline]
          else s.b
        hunkCount := s.hunkCount + 1 }
    else { b := s.b ++ line ++ [newline], hunkCount := s.hunkCount + 1 }
  else { s with b := s.b ++ line ++ [newline] }

def compressGitDiff (content : Str) : Str :=
  let lines := splitByte newline content
  trimRight (lines.foldl (diffStep lines.length) {}).b (lit "\n")

/-! ## What the loop writes -/

/-- The lines that are written when `n` headers have been seen. -/
def written (total : Nat) : Nat → List Str → List Str
  | _, [] => []
  | n, line :: rest =>
    if reHunkHeader line then
      if n < maxHunks then line :: written total (n + 1) rest
      else if n = maxHunks then
        truncationNotice (total - maxHunks) :: written total (n + 1) rest
      else written total (n + 1) rest
    else line :: written total n rest

theorem foldl_diffStep (total : Nat) (s : DiffState) (lines : List Str) :
    (lines.foldl (diffStep total) s).b = s.b ++ unlines (written total s.hunkCount lines) := by
  induction lines generalizing s with
  | nil => exact (List.append_nil _).symm
  | cons line rest ih =>
    rw [List.foldl_cons, ih, diffStep, written]
    by_cases hheader : reHunkHeader line = true
    · rw [if_pos hheader, if_pos hheader]
      by_cases hlt : s.hunkCount < maxHunks
      · rw [if_neg (by omega), if_pos hlt, unlines_cons]
        simp
      · rw [if_pos (by omega), if_neg hlt]
        by_cases heq : s.hunkCount = maxHunks
        · rw [if_pos (by omega), if_pos heq, unlines_cons]
          simp
        · rw [if_neg (by omega), if_neg heq]
    · rw [if_neg hheader, if_neg hheader, unlines_cons]
      simp

/-- The lines up to the end of the `k`-th hunk. -/
def firstHunks : Nat → List Str → List Str
  | _, [] => []
  | k, line :: rest =>
    if reHunkHeader line then if k = 0 then [] else line :: firstHunks (k - 1) rest
    else line :: firstHunks k rest

/-- The lines from the header of the next hunk on. -/
def otherHunks : Nat → List Str → List Str
  | _, [] => []
  | k, line :: rest =>
    if reHunkHeader line then if k = 0 then line :: rest else otherHunks (k - 1) rest
    else otherHunks k rest

def hunks (lines : List Str) : Nat := lines.countP reHunkHeader

theorem firstHunks_append_otherHunks (k : Nat) (lines : List Str) :
    firstHunks k lines ++ otherHunks k lines = lines := by
  induction lines generalizing k with
  | nil => rfl
  | cons line rest ih =>
    rw [firstHunks, otherHunks]
    by_cases hheader : reHunkHeader line = true
    · rw [if_pos hheader, if_pos hheader]
      by_cases hk : k = 0
      · rw [if_pos hk, if_pos hk, List.nil_append]
      · rw [if_neg hk, if_neg hk, List.cons_append, ih]
    · rw [if_neg hheader, if_neg hheader, List.cons_append, ih]

theorem otherHunks_eq_nil_iff {k : Nat} {lines : List Str} :
    otherHunks k lines = [] ↔ hunks lines ≤ k := by
  induction lines generalizing k with
  | nil => exact iff_of_true rfl (Nat.zero_le _)
  | cons line rest ih =>
    rw [otherHunks, hunks, List.countP_cons]
    by_cases hheader : reHunkHeader line = true
    · rw [if_pos hheader, if_pos hheader]
      by_cases hk : k = 0
      · rw [if_pos hk]
        exact iff_of_false (by simp) (by omega)
      · rw [if_neg hk, ih, hunks]
        omega
    · rw [if_neg hheader, if_neg hheader, ih, hunks, Nat.add_zero]

theorem written_past {total n : Nat} (h : maxHunks < n) (lines : List Str) :
    written total n lines = lines.filter (fun line => !reHunkHeader line) := by
  induction lines generalizing n with
  | nil => rfl
  | cons line rest ih =>
    rw [written, List.filter_cons]
    by_cases hheader : reHunkHeader line = true
    · rw [if_pos hheader, if_neg (by omega), if_neg (by omega), ih (by omega), hheader]
      rfl
    · rw [if_neg hheader, ih h, Bool.not_eq_true] at *
      rw [hheader]
      rfl

/-- The lines of the hunks behind the fiftieth that stay. -/
def strayLines (lines : List Str) : List Str :=
  (otherHunks maxHunks lines).filter (fun line => !reHunkHeader line)

theorem written_eq {total n : Nat} (h : n ≤ maxHunks) (lines : List Str) :
    written total n lines = firstHunks (maxHunks - n) lines ++
      (if otherHunks (maxHunks - n) lines = [] then []
        else truncationNotice (total - maxHunks) ::
          (otherHunks (maxHunks - n) lines).filter (fun line => !reHunkHeader line)) := by
  induction lines generalizing n with
  | nil => rfl
  | cons line rest ih =>
    rw [written, firstHunks, otherHunks]
    by_cases hheader : reHunkHeader line = true
    · rw [if_pos hheader, if_pos hheader, if_pos hheader]
      by_cases hlt : n < maxHunks
      · have hk : maxHunks - n ≠ 0 := by omega
        have hnext : maxHunks - n - 1 = maxHunks - (n + 1) := by omega
        rw [if_pos hlt, if_neg hk, if_neg hk, hnext, ih hlt, List.cons_append]
      · have hk : maxHunks - n = 0 := by omega
        rw [if_neg hlt, if_pos (by omega), if_pos hk, if_pos hk, written_past (by omega),
          if_neg (List.cons_ne_nil _ _), List.filter_cons, hheader]
        rfl
    · rw [if_neg hheader, if_neg hheader, if_neg hheader, ih h, List.cons_append]

theorem compressGitDiff_eq (content : Str) :
    compressGitDiff content =
      trimRight (unlines (written (splitByte newline content).length 0 (splitByte newline content)))
        (lit "\n") := by
  rw [compressGitDiff, foldl_diffStep, List.nil_append]

variable {content : Str}

theorem compressGitDiff_short (h : hunks (splitByte newline content) ≤ maxHunks) :
    compressGitDiff content = trimRight content (lit "\n") := by
  have hall := firstHunks_append_otherHunks maxHunks (splitByte newline content)
  rw [otherHunks_eq_nil_iff.mpr h, List.append_nil] at hall
  rw [compressGitDiff_eq, written_eq (Nat.zero_le _), Nat.sub_zero,
    if_pos (otherHunks_eq_nil_iff.mpr h), List.append_nil, hall, unlines_splitByte,
    trimRight_append_newline]

theorem compressGitDiff_long (h : maxHunks < hunks (splitByte newline content)) :
    compressGitDiff content =
      trimRight (unlines (firstHunks maxHunks (splitByte newline content) ++
        truncationNotice ((splitByte newline content).length - maxHunks) ::
          strayLines (splitByte newline content))) (lit "\n") := by
  have hne : otherHunks maxHunks (splitByte newline content) ≠ [] :=
    fun hnil => absurd (otherHunks_eq_nil_iff.mp hnil) (Nat.not_le.mpr h)
  rw [compressGitDiff_eq, written_eq (Nat.zero_le _), Nat.sub_zero, if_neg hne]
  rfl

/-! ## Numbers -/

theorem decimal_snoc (s : Str) (c : UInt8) :
    decimal (s ++ [c]) = decimal s * 10 + (c.toNat - 0x30) := by
  rw [decimal, List.foldl_append]
  rfl

namespace Compress

theorem itoaLoop_append (fuel n : Nat) (buf : Str) :
    itoaLoop fuel n buf = itoaLoop fuel n [] ++ buf := by
  induction fuel generalizing n buf with
  | zero => rfl
  | succ fuel ih =>
    rw [itoaLoop, itoaLoop]
    by_cases hn : 0 < n
    · rw [if_pos hn, if_pos hn, ih, ih (n / 10) [_], List.append_assoc]
      rfl
    · rw [if_neg hn, if_neg hn, List.nil_append]

theorem itoaLoop_digits (fuel n : Nat) (h : n ≤ fuel) :
    decimal (itoaLoop fuel n []) = n ∧ ∀ c ∈ itoaLoop fuel n [], c ≠ byte ' ' := by
  induction fuel generalizing n with
  | zero => exact ⟨(Nat.le_zero.mp h).symm, fun c hc => absurd hc List.not_mem_nil⟩
  | succ fuel ih =>
    rw [itoaLoop]
    by_cases hn : 0 < n
    · obtain ⟨hvalue, hdigits⟩ := ih (n / 10) (by omega)
      have hbyte : (UInt8.ofNat (0x30 + n % 10)).toNat = 0x30 + n % 10 := by
        rw [UInt8.toNat_ofNat']
        omega
      rw [if_pos hn, itoaLoop_append, decimal_snoc, hvalue, hbyte]
      refine ⟨by omega, ?_⟩
      intro c hc
      rcases List.mem_append.mp hc with hc | hc
      · exact hdigits c hc
      · rw [List.mem_singleton.mp hc]
        intro heq
        have hspace := congrArg UInt8.toNat heq
        rw [hbyte, show (byte ' ').toNat = 0x20 from by decide] at hspace
        omega
    · rw [if_neg hn]
      exact ⟨(Nat.eq_zero_of_not_pos hn).symm, fun c hc => absurd hc List.not_mem_nil⟩

theorem itoa_pos {n : Nat} (h : 0 < n) : itoa n = itoaLoop n n [] := by
  rw [itoa, if_neg (by omega), if_neg (by omega), List.nil_append, Int.natAbs_natCast]

theorem length_itoaLoop (fuel n : Nat) (h : n ≤ fuel) :
    (itoaLoop fuel n []).length = (Nat.digits 10 n).length := by
  induction fuel generalizing n with
  | zero =>
    rw [Nat.le_zero.mp h]
    rfl
  | succ fuel ih =>
    rw [itoaLoop]
    by_cases hn : 0 < n
    · rw [if_pos hn, itoaLoop_append, List.length_append, ih (n / 10) (by omega),
        Nat.digits_def' (by decide) hn]
      rfl
    · rw [if_neg hn, Nat.eq_zero_of_not_pos hn]
      rfl

end Compress

theorem length_truncationNotice {n : Nat} (h : 0 < n) :
    (truncationNotice n).length = 28 + (Nat.digits 10 n).length := by
  have hfront : (lit "... (+").length = 6 := by decide
  have hback : (lit " more hunks truncated)").length = 22 := by decide
  rw [truncationNotice, Compress.itoa_pos h, List.length_append, List.length_append, hfront, hback,
    Compress.length_itoaLoop n n (Nat.le_refl n)]
  omega

theorem truncationNotice_append_inj {m n : Nat} (hm : 0 < m) (hn : 0 < n) {rest : Str}
    (h : truncationNotice m ++ rest = truncationNotice n) : m = n := by
  have hdigits : ∀ {k : Nat}, 0 < k → byte ' ' ∉ Compress.itoa k := by
    intro k hk hmem
    rw [Compress.itoa_pos hk] at hmem
    exact (Compress.itoaLoop_digits k k (Nat.le_refl k)).2 _ hmem rfl
  have hlit : lit " more hunks truncated)" = byte ' ' :: lit "more hunks truncated)" := by decide
  rw [truncationNotice, truncationNotice, List.append_assoc, List.append_cancel_left_eq, hlit,
    List.append_assoc, List.cons_append] at h
  have heq := eq_of_append_cons_eq (hdigits hm) (hdigits hn) h
  rw [Compress.itoa_pos hm, Compress.itoa_pos hn] at heq
  have hvalue := congrArg decimal heq
  rwa [(Compress.itoaLoop_digits m m (Nat.le_refl m)).1,
    (Compress.itoaLoop_digits n n (Nat.le_refl n)).1] at hvalue

/-! ## The limit -/

/-- What cutting behind the fiftieth hunk should return. -/
def HunksLimited (content result : Str) : Prop :=
  (hunks (splitByte newline content) ≤ maxHunks → result = trimRight content (lit "\n")) ∧
    (maxHunks < hunks (splitByte newline content) →
      result = joinLines (firstHunks maxHunks (splitByte newline content) ++
        [truncationNotice (hunks (splitByte newline content) - maxHunks : Nat)]))

theorem compressGitDiff_long_text (h : maxHunks < hunks (splitByte newline content)) :
    compressGitDiff content = unlines (firstHunks maxHunks (splitByte newline content)) ++
      (truncationNotice ((splitByte newline content).length - maxHunks : Nat) ++
        trimRight (newline :: unlines (strayLines (splitByte newline content))) (lit "\n")) := by
  have hle : maxHunks ≤ (splitByte newline content).length :=
    Nat.le_trans (Nat.le_of_lt h) (List.countP_le_length ..)
  have hend : lit " more hunks truncated)" = lit " more hunks truncated" ++ [byte ')'] := by decide
  have hnotice : ∀ count rest, truncationNotice count ++ rest =
      (lit "... (+" ++ (Compress.itoa count ++ lit " more hunks truncated")) ++
        byte ')' :: rest := by
    intro count rest
    rw [truncationNotice, hend]
    simp only [List.append_assoc, List.cons_append, List.nil_append]
  rw [compressGitDiff_long h, ← Int.ofNat_sub hle, unlines_append, unlines_cons, hnotice, hnotice,
    ← List.append_assoc, trimRight_append_cons (by decide), List.append_assoc]

/-- **Limiting a diff.**  The result is as it should be exactly if there are at most fifty
hunk headers, or every line is one. -/
theorem compressGitDiff_limits_iff (content : Str) :
    HunksLimited content (compressGitDiff content) ↔
      hunks (splitByte newline content) ≤ maxHunks ∨
        ∀ line ∈ splitByte newline content, reHunkHeader line = true := by
  by_cases hshort : hunks (splitByte newline content) ≤ maxHunks
  · refine iff_of_true ⟨fun _ => compressGitDiff_short hshort, ?_⟩ (Or.inl hshort)
    exact fun hlong => absurd hshort (Nat.not_le.mpr hlong)
  · have hlong : maxHunks < hunks (splitByte newline content) := Nat.not_le.mp hshort
    have hle : hunks (splitByte newline content) ≤ (splitByte newline content).length :=
      List.countP_le_length ..
    rw [HunksLimited, compressGitDiff_long_text hlong, joinLines_snoc, or_iff_right hshort]
    constructor
    · rintro ⟨-, hresult⟩
      have hnotice := List.append_cancel_left (hresult hlong)
      have hcount := truncationNotice_append_inj (by omega) (by omega) hnotice
      have hall : (splitByte newline content).countP reHunkHeader =
          (splitByte newline content).length := by
        rw [hunks] at hcount hlong hle
        omega
      exact List.countP_eq_length.mp hall
    · intro hall
      have hcount : hunks (splitByte newline content) = (splitByte newline content).length :=
        List.countP_eq_length.mpr hall
      have hstray : strayLines (splitByte newline content) = [] := by
        rw [strayLines, List.filter_eq_nil_iff]
        intro line hline
        have hmem : line ∈ splitByte newline content := by
          rw [← firstHunks_append_otherHunks maxHunks (splitByte newline content)]
          exact List.mem_append_right _ hline
        rw [hall line hmem]
        exact Bool.false_ne_true
      refine ⟨fun h => absurd h hshort, fun _ => ?_⟩
      rw [hstray, hcount]
      have hnil : trimRight (newline :: unlines []) (lit "\n") = [] := by decide
      rw [hnil, List.append_nil]

/-- Fifty-one hunks of one line each. -/
def smallHunks : Str :=
  joinLines (List.replicate 51 [lit "@@ -1,1 +1,1 @@", lit "+x"]).flatten

/-- The line of the last hunk stays, and 52 hunks are said to be left out. -/
theorem compressGitDiff_strays :
    hunks (splitByte newline smallHunks) = 51 ∧
      compressGitDiff smallHunks = joinLines ((List.replicate 50 [lit "@@ -1,1 +1,1 @@",
        lit "+x"]).flatten ++ [lit "... (+52 more hunks truncated)", lit "+x"]) ∧
      ¬ HunksLimited smallHunks (compressGitDiff smallHunks) := by
  have hcount : hunks (splitByte newline smallHunks) = 51 := by decide +kernel
  have hresult : compressGitDiff smallHunks = joinLines ((List.replicate 50 [lit "@@ -1,1 +1,1 @@",
      lit "+x"]).flatten ++ [lit "... (+52 more hunks truncated)", lit "+x"]) := by decide +kernel
  refine ⟨hcount, hresult, ?_⟩
  rintro ⟨-, hlimited⟩
  have hlong : maxHunks < hunks (splitByte newline smallHunks) := by
    rw [hcount]
    decide
  have heq := hlimited hlong
  rw [hresult] at heq
  exact absurd heq (by decide +kernel)

end MiniGoAgent
