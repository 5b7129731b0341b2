/-
# `Tools.FilterDiff` — the digest of a diff (`filterGitDiff` in `tools/filter/git.go`)

`filterGitDiff` tells lines apart by what they start with.  A line that was added and
itself starts with `++` starts with `+++`, as the name of the new file does, and is not
counted; and so it is with a line that was removed and starts with `--`.

The loop is followed hunk by hunk and file by file (`hunk_wrote`, `hunks_wrote`, `files_wrote`):
with the lines it counts, everything adds up.  So it does with the lines that were changed,
exactly if these are the same (`filterGitDiff_balanced_iff`).
-/
import Mathlib.Data.List.Forall2
import MiniGoAgent.Go.Lines
import MiniGoAgent.Go.Runes

open Go

namespace MiniGoAgent

namespace Filter

/-- What a line is taken for. -/
inductive LineKind where
  | file
  | hunk
  | added
  | removed
  | other
  deriving DecidableEq, Repr

def lineKind (line : Str) : LineKind :=
  if hasPrefix line (lit "diff --git") then .file
  else if hasPrefix line (lit "@@") then .hunk
  else if hasPrefix line (lit "+") && !hasPrefix line (lit "+++") then .added
  else if hasPrefix line (lit "-") && !hasPrefix line (lit "---") then .removed
  else .other

inductive DiffItem where
  | blank
  | name (file : Str)
  | header (line : Str)
  | changed (line : Str)
  | context (line : Str)
  | truncated (count : Nat)
  | totals (added removed : Nat)
  deriving DecidableEq, Repr

def DiffItem.text : DiffItem → Str
  | .blank => []
  | .name file => file
  | .header line => lit "  " ++ line
  | .changed line => lit "  " ++ line
  | .context line => lit "  " ++ line
  | .truncated count => lit "  ... (" ++ itoa count ++ lit " lines truncated)"
  | .totals added removed => lit "  +" ++ itoa added ++ lit " -" ++ itoa removed

structure DiffLoop where
  out : List DiffItem := []
  currentFile : Str := []
  hunkShown : Nat := 0
  hunkSkipped : Nat := 0
  totalAdded : Nat := 0
  totalRemoved : Nat := 0

def maxHunk : Nat := 50

/-- The file a line `diff --git` is about. -/
def fileOf (line : Str) : Str :=
  let parts := piecesFrom (lit " b/") line.length line
  if 1 < parts.length then parts.getLastD [] else trimPrefix line (lit "diff --git ")

namespace DiffLoop

def flush (s : DiffLoop) : DiffLoop :=
  if 0 < s.hunkSkipped then { s with out := s.out ++ [.truncated s.hunkSkipped], hunkSkipped := 0 }
  else s

def total (s : DiffLoop) : DiffLoop :=
  if s.currentFile ≠ [] then
    { s with
      out := s.out ++ [.totals s.totalAdded s.totalRemoved], totalAdded := 0, totalRemoved := 0 }
  else s

/-- A changed line is shown, or counted. -/
def change (s : DiffLoop) (line : Str) : DiffLoop :=
  if s.hunkShown < maxHunk then
    { s with out := s.out ++ [.changed line], hunkShown := s.hunkShown + 1 }
  else { s with hunkSkipped := s.hunkSkipped + 1 }

def act (s : DiffLoop) (line : Str) : LineKind → DiffLoop
  | .file =>
    { s.flush.total with
      out := s.flush.total.out ++ [.blank, .name (fileOf line)]
      currentFile := fileOf line
      hunkShown := 0 }
  | .hunk => { s.flush with out := s.flush.out ++ [.header line], hunkShown := 0 }
  | .added => change { s with totalAdded := s.totalAdded + 1 } line
  | .removed => change { s with totalRemoved := s.totalRemoved + 1 } line
  | .other =>
    if 0 < s.hunkShown ∧ s.hunkShown < maxHunk ∧ hasPrefix line (lit "\\") = false then
      { s with out := s.out ++ [.context line], hunkShown := s.hunkShown + 1 }
    else s

def step (s : DiffLoop) (line : Str) : DiffLoop :=
  let line := trimRight line (lit "\r")
  s.act line (lineKind line)

end DiffLoop

def diffItems (raw : Str) : List DiffItem :=
  ((splitByte newline raw).foldl DiffLoop.step {}).flush.total.out

def filterGitDiff (raw : Str) : Str :=
  if diffItems raw = [] then lit "no changes\n"
  else joinLines ((diffItems raw).map DiffItem.text) ++ lit "\n"

/-! ## Unified diffs -/

/-- A line of a hunk; the empty line is what stands behind the last newline. -/
inductive HunkLine where
  | added (content : Str)
  | removed (content : Str)
  | context (content : Str)
  | noNewline
  | empty
  deriving DecidableEq, Repr

namespace HunkLine

def text : HunkLine → Str
  | added content => lit "+" ++ content
  | removed content => lit "-" ++ content
  | context content => lit " " ++ content
  | noNewline => lit "\\ No newline at end of file"
  | empty => []

def shown (l : HunkLine) : Str := trimRight l.text (lit "\r")

/-- What the line is. -/
def marker : HunkLine → LineKind
  | added _ => .added
  | removed _ => .removed
  | _ => .other

def mistaken : HunkLine → Bool
  | added content => hasPrefix content (lit "++")
  | removed content => hasPrefix content (lit "--")
  | _ => false

/-- What the line is taken for. -/
def taken (l : HunkLine) : LineKind := if l.mistaken then .other else l.marker

end HunkLine

structure Hunk where
  header : Str
  lines : List HunkLine

/-- The changes of a file.  Of the lines above its hunks none looks like one that is
counted, and the first one names a file. -/
structure FileDiff where
  header : Str
  extended : List Str
  hunks : List Hunk
  named : fileOf (trimRight (lit "diff --git" ++ header) (lit "\r")) ≠ []
  plain : ∀ l ∈ extended, lineKind l = .other

def Hunk.text (h : Hunk) : List Str :=
  (lit "@@" ++ h.header) :: h.lines.map HunkLine.text

def FileDiff.text (f : FileDiff) : List Str :=
  (lit "diff --git" ++ f.header) :: (f.extended ++ f.hunks.flatMap Hunk.text)

/-- The changed lines of a hunk as they are shown, by what the lines are or are taken for. -/
def changedLines (kind : HunkLine → LineKind) (ls : List HunkLine) : List Str :=
  (ls.filter (fun l => kind l ≠ .other)).map HunkLine.shown

def FileDiff.count (kind : HunkLine → LineKind) (k : LineKind) (f : FileDiff) : Nat :=
  (f.hunks.flatMap Hunk.lines).countP (fun l => kind l = k)

/-! ## What is to be shown -/

def DiffItem.changedLine : DiffItem → Option Str
  | .changed line => some line
  | _ => none

def DiffItem.skipped : DiffItem → Option Nat
  | .truncated count => some count
  | _ => none

def DiffItem.fileTotals : DiffItem → Option (Nat × Nat)
  | .totals added removed => some (added, removed)
  | _ => none

/-- The lines shown for a hunk: of its changed lines the first ones, and the numbers in
the notices are those of the others. -/
structure HunkShown (kind : HunkLine → LineKind) (h : Hunk) (items : List DiffItem) : Prop where
  front : items.head? = some (.header (trimRight (lit "@@" ++ h.header) (lit "\r")))
  first : items.filterMap DiffItem.changedLine <+: changedLines kind h.lines
  balance : (items.filterMap DiffItem.changedLine).length +
    (items.filterMap DiffItem.skipped).foldr (· + ·) 0 = (changedLines kind h.lines).length
  within : items.filterMap DiffItem.fileTotals = []

/-- The lines shown for a file: its name, its hunks and its totals. -/
def FileShown (kind : HunkLine → LineKind) (f : FileDiff) (items : List DiffItem) : Prop :=
  ∃ sections, List.Forall₂ (HunkShown kind) f.hunks sections ∧
    items = [.blank, .name (fileOf (trimRight (lit "diff --git" ++ f.header) (lit "\r")))] ++
      sections.flatten ++ [.totals (f.count kind .added) (f.count kind .removed)]

def DiffShown (kind : HunkLine → LineKind) (files : List FileDiff) (items : List DiffItem) : Prop :=
  ∃ sections, List.Forall₂ (FileShown kind) files sections ∧ items = sections.flatten

/-! ## Lines -/

variable {s : DiffLoop} {items : List DiffItem}

theorem lineKind_trimRight (line : Str) : lineKind (trimRight line (lit "\r")) = lineKind line := by
  unfold lineKind
  rw [hasPrefix_trimRight (by decide), hasPrefix_trimRight (by decide),
    hasPrefix_trimRight (by decide), hasPrefix_trimRight (by decide),
    hasPrefix_trimRight (by decide), hasPrefix_trimRight (by decide)]

theorem step_eq (s : DiffLoop) (line : Str) :
    s.step line = s.act (trimRight line (lit "\r")) (lineKind line) := by
  rw [DiffLoop.step, lineKind_trimRight]

theorem lineKind_text (l : HunkLine) : lineKind l.text = l.taken := by
  cases l with
  | added content =>
    show (if !hasPrefix content (lit "++") then LineKind.added else .other) =
      if hasPrefix content (lit "++") then .other else .added
    cases hasPrefix content (lit "++") <;> rfl
  | removed content =>
    show (if !hasPrefix content (lit "--") then LineKind.removed else .other) =
      if hasPrefix content (lit "--") then .other else .removed
    cases hasPrefix content (lit "--") <;> rfl
  | context | noNewline | empty => rfl

theorem taken_cases (l : HunkLine) : l.taken = .added ∨ l.taken = .removed ∨ l.taken = .other := by
  unfold HunkLine.taken
  split
  · exact .inr (.inr rfl)
  · cases l <;> simp [HunkLine.marker]

/-! ## The loop -/

def DiffLoop.tally (s : DiffLoop) (k : LineKind) : Nat :=
  if k = .added then s.totalAdded else s.totalRemoved

/-- From `s` some lines of hunks have been read and `items` written. -/
structure Wrote (s : DiffLoop) (ls : List HunkLine) (items : List DiffItem) (t : DiffLoop) :
    Prop where
  out : t.out = s.out ++ items
  file : t.currentFile = s.currentFile
  tally : ∀ k, k = .added ∨ k = .removed →
    t.tally k = s.tally k + ls.countP (fun l => l.taken = k)

theorem Wrote.refl (s : DiffLoop) : Wrote s [] [] s :=
  ⟨(List.append_nil _).symm, rfl, fun _ _ => rfl⟩

theorem Wrote.trans {t u : DiffLoop} {ls ls' : List HunkLine} {items' : List DiffItem}
    (h : Wrote s ls items t) (h' : Wrote t ls' items' u) :
    Wrote s (ls ++ ls') (items ++ items') u := by
  refine ⟨by rw [h'.out, h.out, List.append_assoc], h'.file.trans h.file, ?_⟩
  intro k hk
  rw [h'.tally k hk, h.tally k hk, List.countP_append, Nat.add_assoc]

/-- The lines of a hunk have been read; of the changed ones `rest` has been left out. -/
structure Ran (s : DiffLoop) (ls : List HunkLine) (body : List DiffItem) (rest : List Str)
    (t : DiffLoop) : Prop extends Wrote s ls body t where
  lines : body.filterMap DiffItem.changedLine ++ rest = changedLines HunkLine.taken ls
  skipped : t.hunkSkipped = rest.length
  full : t.hunkShown < maxHunk → rest = []
  plain : ∀ i ∈ body, i.skipped = none ∧ i.fileTotals = none

namespace Ran

variable {s t t' : DiffLoop} {ls : List HunkLine} {body items : List DiffItem}
  {rest rest' : List Str} {l : HunkLine}

theorem snoc (h : Ran s ls body rest t) (hwrote : Wrote t [l] items t')
    (hlines : items.filterMap DiffItem.changedLine ++ rest' =
      rest ++ if l.taken = .other then [] else [l.shown]) (hskipped : t'.hunkSkipped = rest'.length)
    (hfull : t'.hunkShown < maxHunk → rest' = [])
    (hplain : ∀ i ∈ items, i.skipped = none ∧ i.fileTotals = none) :
    Ran s (ls ++ [l]) (body ++ items) rest' t' := by
  refine ⟨h.toWrote.trans hwrote, ?_, hskipped, hfull,
    List.forall_mem_append.mpr ⟨h.plain, hplain⟩⟩
  rw [List.filterMap_append, List.append_assoc, hlines, ← List.append_assoc, h.lines]
  unfold changedLines
  rw [List.filter_append, List.map_append, List.filter_singleton]
  split <;> simp_all

theorem change (h : Ran s ls body rest t) (hl : l.taken ≠ .other) {a r : Nat}
    (htally : ∀ k, k = .added ∨ k = .removed →
      { t with totalAdded := a, totalRemoved := r }.tally k =
        t.tally k + [l].countP (fun l => l.taken = k)) :
    ∃ body' rest', Ran s (ls ++ [l]) body' rest'
      (DiffLoop.change { t with totalAdded := a, totalRemoved := r } l.shown) := by
  unfold DiffLoop.change
  dsimp only
  split
  next hroom =>
    have hnone := h.full hroom
    refine ⟨_, rest, h.snoc ⟨rfl, rfl, htally⟩ ?_ h.skipped (fun _ => hnone)
      (List.forall_mem_singleton.mpr ⟨rfl, rfl⟩)⟩
    rw [if_neg hl, hnone]
    rfl
  next hfull =>
    refine ⟨_, rest ++ [l.shown], h.snoc ⟨(List.append_nil _).symm, rfl, htally⟩ ?_ ?_
      (fun hroom => absurd hroom hfull) (List.forall_mem_nil _)⟩
    · rw [if_neg hl]
      rfl
    · rw [List.length_append, ← h.skipped]
      rfl

theorem step (h : Ran s ls body rest t) (l : HunkLine) :
    ∃ body' rest', Ran s (ls ++ [l]) body' rest' (t.step l.text) := by
  rw [step_eq, lineKind_text]
  rcases taken_cases l with hl | hl | hl
  case inl | inr.inl =>
    rw [hl]
    refine h.change (by rw [hl]; decide) ?_
    rintro k (rfl | rfl) <;> simp [DiffLoop.tally, hl]
  have htally : ∀ k, k = LineKind.added ∨ k = .removed →
      t.tally k = t.tally k + [l].countP (fun l => l.taken = k) := by
    rintro k (rfl | rfl) <;> simp [hl]
  have hlines : rest = rest ++ if l.taken = .other then [] else [l.shown] := by
    rw [if_pos hl, List.append_nil]
  rw [hl, DiffLoop.act]
  split
  next hroom =>
    exact ⟨_, rest, h.snoc ⟨rfl, rfl, htally⟩ hlines h.skipped (fun _ => h.full hroom.2.1)
      (List.forall_mem_singleton.mpr ⟨rfl, rfl⟩)⟩
  next =>
    exact ⟨_, rest, h.snoc ⟨(List.append_nil _).symm, rfl, htally⟩ hlines h.skipped h.full
      (List.forall_mem_nil _)⟩

theorem of_lines (hs : s.hunkSkipped = 0) (ls : List HunkLine) :
    ∃ body rest, Ran s ls body rest ((ls.map HunkLine.text).foldl DiffLoop.step s) := by
  induction ls using List.reverseRecOn with
  | nil => exact ⟨[], [], .refl s, rfl, hs, fun _ => rfl, List.forall_mem_nil _⟩
  | append_singleton ls l ih =>
    obtain ⟨body, rest, h⟩ := ih
    rw [List.map_append, List.foldl_append]
    exact h.step l

end Ran

/-- The notice that a hunk ends with, if lines of it were left out. -/
def DiffLoop.notice (s : DiffLoop) : List DiffItem :=
  if s.hunkSkipped = 0 then [] else [.truncated s.hunkSkipped]

theorem flush_eq (s : DiffLoop) :
    s.flush = { s with out := s.out ++ s.notice, hunkSkipped := 0 } := by
  unfold DiffLoop.flush DiffLoop.notice
  rcases s.hunkSkipped.eq_zero_or_pos with hs | hs
  · rw [if_neg (by omega), if_pos hs, List.append_nil, ← hs]
  · rw [if_pos hs, if_neg (by omega)]

theorem Wrote.flush {t : DiffLoop} {ls : List HunkLine} (h : Wrote s ls items t) :
    Wrote s ls (items ++ t.notice) t.flush := by
  rw [flush_eq]
  exact ⟨by rw [h.out, List.append_assoc], h.file, h.tally⟩

theorem hunk_wrote (s : DiffLoop) (h : Hunk) :
    ∃ items, HunkShown HunkLine.taken h items ∧
      Wrote s.flush h.lines items (h.text.foldl DiffLoop.step s).flush := by
  have hstart := step_eq s (lit "@@" ++ h.header)
  rw [show lineKind (lit "@@" ++ h.header) = .hunk from rfl] at hstart
  have hheader : Wrote s.flush [] [.header (trimRight (lit "@@" ++ h.header) (lit "\r"))]
      (s.step (lit "@@" ++ h.header)) := by
    rw [hstart]
    exact ⟨rfl, rfl, fun _ _ => rfl⟩
  have hsettled : (s.step (lit "@@" ++ h.header)).hunkSkipped = 0 := by
    rw [hstart, DiffLoop.act, flush_eq]
  obtain ⟨body, rest, hran⟩ := Ran.of_lines hsettled h.lines
  rw [Hunk.text, List.foldl_cons]
  generalize (h.lines.map HunkLine.text).foldl DiffLoop.step (s.step (lit "@@" ++ h.header)) = t
    at hran
  have hquiet : body.filterMap DiffItem.skipped = [] :=
    List.filterMap_eq_nil_iff.mpr fun i hi => (hran.plain i hi).1
  have hwithin : body.filterMap DiffItem.fileTotals = [] :=
    List.filterMap_eq_nil_iff.mpr fun i hi => (hran.plain i hi).2
  have hnotice : t.notice.filterMap DiffItem.changedLine = [] ∧
      (t.notice.filterMap DiffItem.skipped).foldr (· + ·) 0 = rest.length ∧
        t.notice.filterMap DiffItem.fileTotals = [] := by
    rw [← hran.skipped, DiffLoop.notice]
    split <;> simp_all [DiffItem.changedLine, DiffItem.skipped, DiffItem.fileTotals]
  refine ⟨_, ⟨rfl, ?_, ?_, ?_⟩, (hheader.trans hran.toWrote).flush⟩
  · rw [← hran.lines]
    simp [List.filterMap_cons, DiffItem.changedLine, hnotice.1]
  · rw [← hran.lines]
    simp [List.filterMap_cons, DiffItem.changedLine, DiffItem.skipped, hquiet, hnotice.1,
      hnotice.2.1]
  · simp [List.filterMap_cons, DiffItem.fileTotals, hwithin, hnotice.2.2]

theorem hunks_wrote (hs : List Hunk) (s : DiffLoop) :
    ∃ sections, List.Forall₂ (HunkShown HunkLine.taken) hs sections ∧
      Wrote s.flush (hs.flatMap Hunk.lines) sections.flatten
        ((hs.flatMap Hunk.text).foldl DiffLoop.step s).flush := by
  induction hs generalizing s with
  | nil => exact ⟨[], .nil, .refl _⟩
  | cons h hs ih =>
    obtain ⟨items, hshown, hwrote⟩ := hunk_wrote s h
    obtain ⟨sections, hsections, hrest⟩ := ih (h.text.foldl DiffLoop.step s)
    refine ⟨items :: sections, .cons hshown hsections, ?_⟩
    rw [List.flatMap_cons, List.flatMap_cons, List.foldl_append, List.flatten_cons]
    exact hwrote.trans hrest

theorem extended_silent (hs : s.hunkShown = 0) {ls : List Str}
    (h : ∀ l ∈ ls, lineKind l = .other) : ls.foldl DiffLoop.step s = s := by
  induction ls with
  | nil => rfl
  | cons l ls ih =>
    have hstep : s.step l = s := by
      rw [step_eq, h l List.mem_cons_self, DiffLoop.act, if_neg (by omega)]
    rw [List.foldl_cons, hstep]
    exact ih fun l' hl' => h l' (List.mem_cons_of_mem _ hl')

theorem total_skipped (s : DiffLoop) : s.total.hunkSkipped = s.hunkSkipped := by
  unfold DiffLoop.total
  split <;> rfl

theorem total_tally (hs : s.currentFile = [] → ∀ k, s.tally k = 0) (k : LineKind) :
    s.total.tally k = 0 := by
  unfold DiffLoop.total
  split
  next => simp [DiffLoop.tally]
  next hnone => exact hs (by_contra hnone) k

theorem file_wrote (hs : s.flush.currentFile = [] → ∀ k, s.flush.tally k = 0) (f : FileDiff) :
    ∃ items, FileShown HunkLine.taken f items ∧
      (f.text.foldl DiffLoop.step s).flush.currentFile ≠ [] ∧
      (f.text.foldl DiffLoop.step s).flush.total.out = s.flush.total.out ++ items := by
  have hstart := step_eq s (lit "diff --git" ++ f.header)
  rw [show lineKind (lit "diff --git" ++ f.header) = .file from rfl] at hstart
  have hname := f.named
  generalize hfile : fileOf (trimRight (lit "diff --git" ++ f.header) (lit "\r")) = name at hname
  generalize hopen : s.step (lit "diff --git" ++ f.header) = t at hstart
  have htext : f.text.foldl DiffLoop.step s =
      (f.hunks.flatMap Hunk.text).foldl DiffLoop.step t := by
    rw [FileDiff.text, List.foldl_cons, List.foldl_append, hopen,
      extended_silent (by rw [hstart]; rfl) f.plain]
  obtain ⟨sections, hsections, hwrote⟩ := hunks_wrote f.hunks t
  have hflush : t.flush = t := by
    refine if_neg ?_
    rw [hstart, DiffLoop.act, total_skipped, flush_eq]
    exact Nat.lt_irrefl 0
  have htally : ∀ k, t.tally k = 0 := fun k => by
    rw [hstart]
    exact total_tally hs k
  rw [htext]
  rw [hflush] at hwrote
  generalize ((f.hunks.flatMap Hunk.text).foldl DiffLoop.step t).flush = u at hwrote
  have hopened : u.currentFile ≠ [] := by
    rw [hwrote.file, hstart]
    exact f.named
  have hcount : ∀ k, k = LineKind.added ∨ k = .removed →
      u.tally k = f.count HunkLine.taken k := fun k hk => by
    rw [hwrote.tally k hk, htally, Nat.zero_add]
    rfl
  refine ⟨_, ⟨sections, hsections, rfl⟩, hopened, ?_⟩
  rw [DiffLoop.total, if_pos hopened, ← hcount .added (.inl rfl), ← hcount .removed (.inr rfl)]
  show u.out ++ _ = _
  rw [hwrote.out, hstart]
  simp [DiffLoop.act, DiffLoop.tally]

theorem files_wrote (files : List FileDiff)
    (hs : s.flush.currentFile = [] → ∀ k, s.flush.tally k = 0) :
    ∃ sections, List.Forall₂ (FileShown HunkLine.taken) files sections ∧
      ((files.flatMap FileDiff.text).foldl DiffLoop.step s).flush.total.out =
        s.flush.total.out ++ sections.flatten := by
  induction files generalizing s with
  | nil => exact ⟨[], .nil, (List.append_nil _).symm⟩
  | cons f files ih =>
    obtain ⟨items, hshown, hopened, hout⟩ := file_wrote hs f
    obtain ⟨sections, hsections, hrest⟩ := ih fun hnone => absurd hnone hopened
    refine ⟨items :: sections, .cons hshown hsections, ?_⟩
    rw [List.flatMap_cons, List.foldl_append, hrest, hout, List.append_assoc, List.flatten_cons]

variable {files : List FileDiff}

theorem diffItems_shown {raw : Str} (h : splitByte newline raw = files.flatMap FileDiff.text) :
    DiffShown HunkLine.taken files (diffItems raw) := by
  obtain ⟨sections, hsections, hout⟩ := files_wrote files (s := {}) fun _ k => by
    cases k <;> rfl
  refine ⟨sections, hsections, ?_⟩
  rw [diffItems, h, hout]
  rfl

/-! ## The totals -/

theorem hunks_totals {kind : HunkLine → LineKind} {hs : List Hunk} {sections : List (List DiffItem)}
    (h : List.Forall₂ (HunkShown kind) hs sections) :
    sections.flatten.filterMap DiffItem.fileTotals = [] := by
  induction h with
  | nil => rfl
  | cons hshown _ ih => rw [List.flatten_cons, List.filterMap_append, hshown.within, ih]; rfl

theorem diff_totals {kind : HunkLine → LineKind}
    (h : DiffShown kind files items) : items.filterMap DiffItem.fileTotals =
      files.map fun f => (f.count kind .added, f.count kind .removed) := by
  obtain ⟨sections, hsections, rfl⟩ := h
  induction hsections with
  | nil => rfl
  | cons hshown _ ih =>
    obtain ⟨parts, hparts, rfl⟩ := hshown
    rw [List.flatten_cons, List.filterMap_append, ih, List.filterMap_append, List.filterMap_append,
      hunks_totals hparts]
    rfl

theorem line_count (l : HunkLine) :
    (if l.marker = .added then 1 else 0) + (if l.marker = .removed then 1 else 0) =
      (if l.taken = .added then 1 else 0) + (if l.taken = .removed then 1 else 0) +
        if l.mistaken then 1 else 0 := by
  unfold HunkLine.taken
  cases hl : l.mistaken <;> cases l <;> simp_all [HunkLine.marker, HunkLine.mistaken]

theorem count_marker (ls : List HunkLine) :
    ls.countP (fun l => l.marker = .added) + ls.countP (fun l => l.marker = .removed) =
      ls.countP (fun l => l.taken = .added) + ls.countP (fun l => l.taken = .removed) +
        ls.countP HunkLine.mistaken := by
  induction ls with
  | nil => rfl
  | cons l ls ih =>
    have hl := line_count l
    simp only [List.countP_cons, decide_eq_true_eq]
    omega

theorem changedLines_congr {ls : List HunkLine} (h : ∀ l ∈ ls, l.mistaken = false) :
    changedLines HunkLine.taken ls = changedLines HunkLine.marker ls := by
  unfold changedLines
  rw [List.filter_congr fun l hl => ?_]
  rw [HunkLine.taken, h l hl]
  rfl

theorem HunkShown.of_taken {hunk : Hunk} (h : ∀ l ∈ hunk.lines, l.mistaken = false)
    (hs : HunkShown HunkLine.taken hunk items) : HunkShown HunkLine.marker hunk items := by
  have hlines := changedLines_congr h
  exact ⟨hs.front, hlines ▸ hs.first, hlines ▸ hs.balance, hs.within⟩

theorem FileShown.of_taken {f : FileDiff}
    (h : ∀ hunk ∈ f.hunks, ∀ l ∈ hunk.lines, l.mistaken = false)
    (hs : FileShown HunkLine.taken f items) : FileShown HunkLine.marker f items := by
  obtain ⟨sections, hsections, rfl⟩ := hs
  have hcount : ∀ k, f.count HunkLine.taken k = f.count HunkLine.marker k := by
    intro k
    refine List.countP_congr fun l hl => ?_
    obtain ⟨hunk, hhunk, hl⟩ := List.mem_flatMap.mp hl
    rw [HunkLine.taken, h hunk hhunk l hl]
    rfl
  have hboth := (List.forall₂_and_left _ _).mpr ⟨h, hsections⟩
  exact ⟨sections, hboth.imp fun _ _ hs => hs.2.of_taken hs.1, by rw [hcount, hcount]⟩

/-- The totals are right, and shown and left-out lines add up, exactly if no added line
starts with `++` and no removed one with `--`. -/
theorem filterGitDiff_balanced_iff {raw : Str}
    (h : splitByte newline raw = files.flatMap FileDiff.text) :
    DiffShown HunkLine.marker files (diffItems raw) ↔
      ∀ f ∈ files, ∀ hunk ∈ f.hunks, ∀ l ∈ hunk.lines, l.mistaken = false := by
  have htaken := diffItems_shown h
  constructor
  · intro hmarker f hf hunk hhunk l hl
    have hsame := (diff_totals hmarker).symm.trans (diff_totals htaken)
    have htotals := List.map_inj_left.mp hsame f hf
    obtain ⟨hadded, hremoved⟩ := Prod.mk.inj htotals
    have hcount := count_marker (f.hunks.flatMap Hunk.lines)
    have hzero : (f.hunks.flatMap Hunk.lines).countP HunkLine.mistaken = 0 := by
      unfold FileDiff.count at hadded hremoved
      omega
    simpa using List.countP_eq_zero.mp hzero l (List.mem_flatMap.mpr ⟨hunk, hhunk, hl⟩)
  · intro hnone
    obtain ⟨sections, hsections, hitems⟩ := htaken
    have hboth := (List.forall₂_and_left _ _).mpr ⟨hnone, hsections⟩
    exact ⟨sections, hboth.imp fun _ _ hs => hs.2.of_taken hs.1, hitems⟩

/-- A comment of an SQL script is removed, and another line added. -/
def sqlDiff (removed : Str) : FileDiff where
  header := lit " a/x.sql b/x.sql"
  extended := [lit "--- a/x.sql", lit "+++ b/x.sql"]
  hunks := [{ header := lit " -1 +1 @@", lines := [.removed removed, .added (lit "c"), .empty] }]
  named := by decide
  plain := by decide

def sqlText (removed : String) : Str :=
  lit "diff --git a/x.sql b/x.sql\n--- a/x.sql\n+++ b/x.sql\n@@ -1 +1 @@\n-" ++ lit removed ++
    lit "\n+c\n"

theorem filterGitDiff_balanced_sql :
    DiffShown HunkLine.marker [sqlDiff (lit "a")] (diffItems (sqlText "a")) := by
  have htext : splitByte newline (sqlText "a") = [sqlDiff (lit "a")].flatMap FileDiff.text := by
    decide +kernel
  exact (filterGitDiff_balanced_iff htext).mpr (by decide)

/-- The removed comment `-- a` is neither shown nor counted. -/
theorem filterGitDiff_comment :
    splitByte newline (sqlText "-- a") = [sqlDiff (lit "-- a")].flatMap FileDiff.text ∧
      filterGitDiff (sqlText "-- a") = lit "\nx.sql\n  @@ -1 +1 @@\n  +c\n  \n  +1 -0\n" ∧
      ¬ DiffShown HunkLine.marker [sqlDiff (lit "-- a")] (diffItems (sqlText "-- a")) := by
  refine ⟨by decide +kernel, by decide +kernel, fun h => ?_⟩
  have htotals := diff_totals h
  revert htotals
  decide +kernel

end Filter

end MiniGoAgent
