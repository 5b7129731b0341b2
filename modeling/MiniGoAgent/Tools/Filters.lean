/-
# `Tools.Filters` — what is left of the output of a command (`tools/filter`)

`noopFilter`, the filter of every command that has none of its own, leaves out blank lines
and writes a row of equal lines as one notice.  The notice takes the place of the row, so
the line that was repeated is gone (`noopFilter_lossless_iff`).

`filterGitLog` shows the first ten lines that are not blank.  It tests the limit before it
tests for a blank line, and the number in its notice is one of all lines of the output
(`filterGitLog_right_iff`).
-/
import MiniGoAgent.Go.Lines
import MiniGoAgent.Go.Regexp
import MiniGoAgent.Go.Keyed

open Go

namespace MiniGoAgent

namespace Filter

variable {prev line : Str} {ls rest : List Str} {raw : Str}

/-! ## Lines (`utils.go`) -/

def ansiRE : Regexp Str :=
  Regexp.inOrder [Regexp.literal "\x1b[", .many (Regexp.classOf "0123456789;"),
    .one (Regexp.ascii (fun b => (0x41 ≤ b && b ≤ 0x5A) || (0x61 ≤ b && b ≤ 0x7A)))]

def stripANSI (s : Str) : Str := Regexp.removeAll ansiRE s

def truncateLine (line : Str) (width : Nat) : Str :=
  if (runes line).length ≤ width then line
  else ((runes line).take (width - 3)).flatMap validRune ++ lit "..."

def isBlank (line : Str) : Bool := trimSpace line = []

def emptyLines (lines : List Str) : List Str := lines.filter (fun l => !isBlank l)

def repeatedNotice (count : Nat) : Str :=
  lit "  (previous line repeated " ++ itoa count ++ lit " times)"

def flushRow (prev : Str) (count : Nat) : Str :=
  if 1 < count then repeatedNotice count else prev

/-- The loop of `dedupLines` and what is written behind it. -/
def dedupLoop (prev : Str) (count : Nat) : List Str → List Str
  | [] => [flushRow prev count]
  | line :: rest =>
    if line = prev then dedupLoop prev (count + 1) rest
    else flushRow prev count :: dedupLoop line 1 rest

def dedupLines : List Str → List Str
  | [] => []
  | line :: rest => dedupLoop line 1 rest

/-! ## The fallback (`general.go`) -/

/-- The lines that are not blank, without carriage returns at their end and colours. -/
def cleanLines (raw : Str) : List Str :=
  emptyLines ((splitByte newline raw).map (fun l => stripANSI (trimRight l (lit "\r"))))

def noopLines (raw : Str) : List Str := dedupLines (cleanLines raw)

def noopFilter (raw : Str) : Str := joinLines (noopLines raw) ++ lit "\n"

/-- A line that reads like a notice. -/
def IsNotice (line : Str) : Prop := ∃ count, 1 < count ∧ line = repeatedNotice count

/-- Reading lines with notices among them: `prev` is the line before, if there is one, and
a notice stands for that many copies of it. -/
inductive Expands : Option Str → List Str → List Str → Prop
  | nil (prev : Option Str) : Expands prev [] []
  | line {prev : Option Str} {l : Str} {rest out : List Str} (h : ¬ IsNotice l)
      (hrest : Expands (some l) rest out) : Expands prev (l :: rest) (l :: out)
  | notice {prev : Str} {count : Nat} {rest out : List Str} (h : 1 < count)
      (hrest : Expands (some prev) rest out) :
      Expands (some prev) (repeatedNotice count :: rest) (List.replicate count prev ++ out)

/-- Nothing is lost but repetition: every line that is not blank is there, in the order in
which they come first, and the notices can be read back. -/
structure Lossless (raw : Str) : Prop where
  verbatim : (firsts (cleanLines raw)).Sublist (noopLines raw)
  expands : Expands none (noopLines raw) (cleanLines raw)

theorem dedupLoop_of_chain (h : (prev :: rest).IsChain (· ≠ ·)) :
    dedupLoop prev 1 rest = prev :: rest := by
  induction rest generalizing prev with
  | nil => rfl
  | cons line rest ih =>
    rw [List.isChain_cons_cons] at h
    rw [dedupLoop, if_neg h.1.symm, ih h.2]
    rfl

variable {p : Option Str}

theorem expands_self (h : ∀ l ∈ ls, ¬ IsNotice l) : Expands p ls ls := by
  induction ls generalizing p with
  | nil => exact .nil p
  | cons l rest ih =>
    obtain ⟨hl, hrest⟩ := List.forall_mem_cons.mp h
    exact .line hl (ih hrest)

theorem row_of_expands {count : Nat} (hcount : 0 < count)
    (hp : p ≠ some prev) {tail out : List Str}
    (h : Expands p (flushRow prev count :: tail) (List.replicate count prev ++ out)) :
    count = 1 ∧ ¬ IsNotice prev ∧ Expands (some prev) tail out := by
  obtain ⟨n, rfl⟩ : ∃ n, count = n + 1 := ⟨count - 1, by omega⟩
  rw [List.replicate_succ, List.cons_append] at h
  generalize hhead : flushRow prev (n + 1) = head at h
  generalize hall : prev :: (List.replicate n prev ++ out) = all at h
  cases h with
  | line hline hrest =>
    obtain ⟨rfl, rfl⟩ := List.cons.inj hall
    unfold flushRow at hhead
    split at hhead
    next hmany => exact absurd ⟨n + 1, hmany, hhead.symm⟩ hline
    next hone =>
      obtain rfl : n = 0 := by omega
      exact ⟨rfl, hline, hrest⟩
  | @notice q m _ _ hm _ =>
    obtain ⟨k, rfl⟩ : ∃ k, m = k + 1 := ⟨m - 1, by omega⟩
    rw [List.replicate_succ, List.cons_append] at hall
    exact absurd (congrArg some (List.cons.inj hall).1.symm) hp

theorem chain_of_expands {count : Nat} (hcount : 0 < count)
    (hp : p ≠ some prev)
    (h : Expands p (dedupLoop prev count rest) (List.replicate count prev ++ rest)) :
    count = 1 ∧ (prev :: rest).IsChain (· ≠ ·) ∧ ∀ l ∈ prev :: rest, ¬ IsNotice l := by
  induction rest generalizing prev count p with
  | nil =>
    obtain ⟨hone, hprev, _⟩ := row_of_expands hcount hp h
    exact ⟨hone, .singleton _, List.forall_mem_singleton.mpr hprev⟩
  | cons line rest ih =>
    rw [dedupLoop] at h
    split at h
    next heq =>
      rw [heq, ← List.singleton_append, ← List.append_assoc, ← List.replicate_succ'] at h
      have hone := (ih (Nat.succ_pos count) hp h).1
      omega
    next hne =>
      obtain ⟨hone, hprev, hrest⟩ := row_of_expands hcount hp h
      obtain ⟨_, hchain, hnotice⟩ := ih Nat.one_pos (by simpa using Ne.symm hne) hrest
      exact ⟨hone, List.isChain_cons_cons.mpr ⟨Ne.symm hne, hchain⟩,
        List.forall_mem_cons.mpr ⟨hprev, hnotice⟩⟩

/-- **The fallback filter.**  It loses nothing but repetition exactly if no line that is
not blank is repeated at once, and none reads like a notice. -/
theorem noopFilter_lossless_iff (raw : Str) :
    Lossless raw ↔
      (cleanLines raw).IsChain (· ≠ ·) ∧ ∀ l ∈ cleanLines raw, ¬ IsNotice l := by
  constructor
  · intro h
    have hexp := h.expands
    unfold noopLines at hexp
    cases hclean : cleanLines raw with
    | nil => exact ⟨.nil, List.forall_mem_nil _⟩
    | cons l rest =>
      rw [hclean] at hexp
      exact (chain_of_expands Nat.one_pos (Option.some_ne_none l).symm hexp).2
  · rintro ⟨hchain, hnotice⟩
    have hsame : noopLines raw = cleanLines raw := by
      unfold noopLines
      cases hclean : cleanLines raw with
      | nil => rfl
      | cons l rest =>
        rw [hclean] at hchain
        exact dedupLoop_of_chain hchain
    exact ⟨by rw [hsame]; exact firsts_sublist _, by rw [hsame]; exact expands_self hnotice⟩

/-- The line that comes twice is gone. -/
theorem noopFilter_twice :
    noopFilter (lit "a\na\n") = lit "  (previous line repeated 2 times)\n" ∧
      ¬ Lossless (lit "a\na\n") := by
  have hrun : noopFilter (lit "a\na\n") = lit "  (previous line repeated 2 times)\n" := by
    decide +kernel
  refine ⟨hrun, ?_⟩
  intro h
  have hmem := h.verbatim.subset (mem_firsts.mpr (show lit "a" ∈ cleanLines (lit "a\na\n") by
    decide +kernel))
  exact absurd hmem (by decide +kernel)

/-! ## The log (`git.go`) -/

def moreCommits (count : Int) : Str := lit "  ... (+" ++ itoa count ++ lit " more commits)"

def blankLine (line : Str) : Bool := isBlank (trimRight line (lit "\r"))

/-- The loop of `filterGitLog`; `total` is the number of all lines. -/
def logLoop (total : Nat) (out : List Str) : List Str → List Str
  | [] => out
  | line :: rest =>
    if 10 ≤ out.length then out ++ [moreCommits (total - 10)]
    else if blankLine line then logLoop total out rest
    else logLoop total (out ++ [truncateLine (trimRight line (lit "\r")) 100]) rest

def logLines (raw : Str) : List Str :=
  logLoop (splitByte newline raw).length [] (splitByte newline raw)

def filterGitLog (raw : Str) : Str := joinLines (logLines raw) ++ lit "\n"

/-- The lines that are not blank, without carriage returns at their end. -/
def commits (lines : List Str) : List Str :=
  (lines.filter (fun l => !blankLine l)).map (fun l => trimRight l (lit "\r"))

/-- What is to be shown of the lines that are not blank. -/
def logDigest (commits : List Str) : List Str :=
  (commits.take 10).map (truncateLine · 100) ++
    if 10 < commits.length then [moreCommits (commits.length - 10)] else []

theorem commits_cons (line : Str) (rest : List Str) :
    commits (line :: rest) =
      if blankLine line then commits rest else trimRight line (lit "\r") :: commits rest := by
  unfold commits
  rw [List.filter_cons]
  cases blankLine line with
  | false => rfl
  | true => rfl

theorem commits_append (a b : List Str) : commits (a ++ b) = commits a ++ commits b := by
  unfold commits
  rw [List.filter_append, List.map_append]

theorem length_commits_dropLast (line : Str) (hne : rest ≠ []) :
    (commits (line :: rest).dropLast).length =
      (commits rest.dropLast).length + if blankLine line then 0 else 1 := by
  rw [List.dropLast_cons_of_ne_nil hne, commits_cons]
  split <;> rfl

theorem logLoop_eq (total : Nat) {out : List Str} (hout : out.length ≤ 10) (lines : List Str) :
    logLoop total out lines = (out ++ (commits lines).map (truncateLine · 100)).take 10 ++
      if lines ≠ [] ∧ 10 ≤ out.length + (commits lines.dropLast).length then
        [moreCommits (total - 10)] else [] := by
  induction lines generalizing out with
  | nil =>
    rw [logLoop, if_neg (fun h => h.1 rfl), List.append_nil]
    show out = (out ++ []).take 10
    rw [List.append_nil, List.take_of_length_le hout]
  | cons line rest ih =>
    rw [logLoop]
    by_cases hfull : 10 ≤ out.length
    · rw [if_pos hfull, if_pos ⟨List.cons_ne_nil _ _, by omega⟩,
        List.take_append_of_le_length hfull, List.take_of_length_le hout]
    · have hlast : (line :: rest ≠ [] ∧
          10 ≤ out.length + (commits (line :: rest).dropLast).length) ↔
          rest ≠ [] ∧ 10 ≤ out.length + (commits rest.dropLast).length +
            if blankLine line then 0 else 1 := by
        by_cases hne : rest = []
        · refine iff_of_false ?_ (fun h => h.1 hne)
          rintro ⟨_, hten⟩
          rw [hne] at hten
          exact hfull hten
        · rw [length_commits_dropLast line hne, Nat.add_assoc]
          simp [hne]
      rw [if_neg hfull, if_congr hlast rfl rfl, commits_cons]
      split
      · rw [ih hout, Nat.add_zero]
      · rw [ih (by rw [List.length_append]; exact Nat.lt_of_not_le hfull), List.map_cons,
          List.append_assoc, List.length_append, List.length_singleton, Nat.add_right_comm]
        rfl

theorem moreCommits_inj {n m : Nat} (hn : 10 < n) (hm : 10 < m)
    (h : moreCommits (n - 10) = moreCommits (m - 10)) : n = m := by
  unfold moreCommits at h
  rw [List.append_assoc, List.append_assoc, List.append_cancel_left_eq,
    List.append_cancel_right_eq] at h
  have hsub : n - 10 = m - 10 := by
    refine itoa_inj ?_
    rw [Int.ofNat_sub hn.le, Int.ofNat_sub hm.le]
    exact h
  omega

/-- The lines of the result are those to be shown for the lines that are not blank, whatever
blank lines there are. -/
def LogRight (raw : Str) : Prop :=
  logLines raw = logDigest (commits (splitByte newline raw))

/-- **The log.**  The first ten lines that are not blank are shown, with the right notice,
exactly if ten such lines are not followed by a blank one, and more than ten come without
any blank line. -/
theorem filterGitLog_right_iff (raw : Str) :
    LogRight raw ↔
      ((commits (splitByte newline raw)).length = 10 →
        (splitByte newline raw).getLast?.all blankLine = false) ∧
      (10 < (commits (splitByte newline raw)).length →
        ∀ l ∈ splitByte newline raw, blankLine l = false) := by
  have hne := splitByte_ne_nil newline raw
  unfold LogRight logLines logDigest
  generalize splitByte newline raw = lines at hne ⊢
  obtain ⟨front, last, rfl⟩ : ∃ front last, lines = front ++ [last] :=
    ⟨lines.dropLast, lines.getLast hne, (List.dropLast_append_getLast hne).symm⟩
  have hlen : (commits (front ++ [last])).length =
      (commits front).length + if blankLine last then 0 else 1 := by
    rw [commits_append, commits_cons, List.length_append]
    split <;> rfl
  have hall : (front ++ [last]).length = (commits (front ++ [last])).length ↔
      ∀ l ∈ front ++ [last], blankLine l = false := by
    rw [eq_comm, commits, List.length_map, List.length_filter_eq_length_iff]
    simp
  have hle : (commits (front ++ [last])).length ≤ (front ++ [last]).length := by
    rw [commits, List.length_map]
    exact List.length_filter_le _ _
  rw [logLoop_eq _ (by simp), List.nil_append, List.map_take, List.append_cancel_left_eq,
    List.length_nil, Nat.zero_add, List.dropLast_concat, List.getLast?_concat, Option.all_some,
    ← hall]
  simp only [hne, ne_eq, not_false_eq_true, true_and]
  by_cases hmany : 10 < (commits (front ++ [last])).length
  · have hfront : 10 ≤ (commits front).length := by
      split at hlen <;> omega
    rw [if_pos hfront, if_pos hmany]
    constructor
    · intro h
      refine ⟨fun hten => by omega, fun _ => ?_⟩
      exact moreCommits_inj (by omega) hmany (List.singleton_inj.mp h)
    · intro h
      rw [h.2 hmany]
  · -- the notice comes only if the tenth line is followed by a blank one
    have hnotice : 10 ≤ (commits front).length ↔
        (commits (front ++ [last])).length = 10 ∧ blankLine last = true := by
      cases hblank : blankLine last with
      | false =>
        rw [hblank] at hlen
        exact iff_of_false (by simp at hlen; omega) (by simp)
      | true =>
        rw [hblank] at hlen
        simp at hlen ⊢
        omega
    rw [if_neg hmany, if_congr hnotice rfl rfl, ite_eq_right_iff]
    simp [hmany]

/-- Ten lines, the last one with its newline: a notice of one more. -/
theorem filterGitLog_ten :
    filterGitLog ((List.range 10).flatMap (fun _ => lit "c\n")) =
        ((List.range 10).flatMap (fun _ => lit "c\n")) ++ lit "  ... (+1 more commits)\n" ∧
      ¬ LogRight ((List.range 10).flatMap (fun _ => lit "c\n")) := by
  refine ⟨by decide +kernel, ?_⟩
  unfold LogRight
  decide +kernel

end Filter

end MiniGoAgent
