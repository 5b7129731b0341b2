/-
# `Tools.Glob` — files by pattern (`GlobFiles` in `tools/fileops.go`)

The root is validated, and then the pattern is joined to it and the whole is cleaned: an
element `..` of the pattern takes an element of the root away.  With the root `/work`, the
pattern `../*` lists what is in `/` (`parent_listed`).  A wildcard in the name of the root
does the like, as it is not escaped.

`globFiles_confined_iff` says that the elements of the root have to come out of the
cleaning as they went in, and have to match nothing but themselves.
-/
import MiniGoAgent.Go.Glob
import MiniGoAgent.Tools.FileOps

open Go

namespace MiniGoAgent

namespace Tools

structure GlobInput where
  pattern : Str
  root : Str := []

/-- The validated root and what is found; of each path the text relative to the root is
reported. -/
def globMatches (workspaceRoot : Str) (getwd : Except Str Path.WorkDir)
    (fs : Glob.FileSystem) (input : GlobInput) : Except Str (Str × List Str) :=
  match validatePath workspaceRoot getwd (if input.root = [] then lit "." else input.root) with
  | .error err => .error err
  | .ok root =>
    match Glob.glob fs (Path.join root input.pattern) with
    | .error err => .error (lit "glob 匹配失败: " ++ err)
    | .ok found => .ok (root, found)

def globReport (root : Str) (found : List Str) : Str :=
  if found = [] then lit "未匹配到任何文件"
  else lit "找到 " ++ itoa found.length ++ lit " 个文件:\n" ++
    found.flatMap fun m => lit "  " ++ Path.rel root m ++ lit "\n"

def globFiles (workspaceRoot : Str) (getwd : Except Str Path.WorkDir)
    (fs : Glob.FileSystem) (input : GlobInput) : Except Str Str :=
  (globMatches workspaceRoot getwd fs input).map fun found => globReport found.1 found.2

/-- Whatever files there are, those that are reported lie beneath the root. -/
def GlobConfined (workspaceRoot : Str) (getwd : Except Str Path.WorkDir)
    (input : GlobInput) : Prop :=
  ∀ fs root found, globMatches workspaceRoot getwd fs input = .ok (root, found) →
    ∀ m ∈ found, Within root m

/-- The pattern is malformed, or one of its elements matches no name, or it begins with the
root and matches nothing else there. -/
def PatternKept (root pattern : Str) : Prop :=
  ∀ terms, (Path.elements (Path.join root pattern)).mapM Glob.parse = some terms →
    (∃ t ∈ terms, Glob.Unmatched t) ∨ Glob.Anchored (Path.elements root) terms

theorem cleanedAbs_of_validatePath {workspaceRoot path p : Str}
    {getwd : Except Str Path.WorkDir} (h : validatePath workspaceRoot getwd path = .ok p) :
    cleanedAbs getwd path = .ok p := by
  unfold validatePath at h
  unfold cleanedAbs
  split at h
  · cases h
  · cases habs : Path.abs getwd path with
    | error err =>
      rw [habs] at h
      cases h
    | ok abs =>
      rw [habs] at h
      dsimp only at h
      split at h
      · cases h
      · exact h

/-- For every root that is accepted and every pattern, the files that are reported lie beneath
the root exactly if joining the pattern to it keeps it. -/
theorem globFiles_confined_iff {workspaceRoot root : Str}
    {getwd : Except Str Path.WorkDir} {input : GlobInput}
    (hvalid : validatePath workspaceRoot getwd
      (if input.root = [] then lit "." else input.root) = .ok root) :
    GlobConfined workspaceRoot getwd input ↔ PatternKept root input.pattern := by
  obtain ⟨es, hes, rfl⟩ := cleanedAbs_eq_rooted (cleanedAbs_of_validatePath hvalid)
  have hmatches : ∀ (fs : Glob.FileSystem) {terms : List (List Glob.Term)},
      (Path.elements (Path.join (Path.rooted es) input.pattern)).mapM Glob.parse = some terms →
        globMatches workspaceRoot getwd fs input =
          .ok (Path.rooted es, (fs.paths.filter (Glob.matchPath terms)).map Path.rooted) := by
    intro fs terms hterms
    unfold globMatches Glob.glob
    rw [hvalid]
    dsimp only
    rw [hterms]
  unfold GlobConfined PatternKept
  rw [Path.elements_rooted hes]
  constructor
  · intro h terms hterms
    refine (Glob.forall_prefix_iff es terms).mp fun path hpath hmatch => ?_
    have hin := h ⟨[path], by simpa using hpath⟩ _ _ (hmatches _ hterms) (Path.rooted path)
      (by simp [hmatch])
    exact (within_rooted hes hpath).mp hin
  · intro h fs root found hfound m hm
    cases hterms : (Path.elements (Path.join (Path.rooted es) input.pattern)).mapM Glob.parse with
    | none =>
      unfold globMatches Glob.glob at hfound
      rw [hvalid] at hfound
      dsimp only at hfound
      rw [hterms] at hfound
      cases hfound
    | some terms =>
      rw [hmatches fs hterms] at hfound
      cases hfound
      obtain ⟨path, hpath, rfl⟩ := List.mem_map.mp hm
      obtain ⟨hmem, hmatch⟩ := List.mem_filter.mp hpath
      have hproper := fs.proper path hmem
      exact (within_rooted hes hproper).mpr
        ((Glob.forall_prefix_iff es terms).mpr (h terms hterms) path hproper hmatch)

theorem globFiles_confined_go :
    GlobConfined (lit "/work") atRoot { pattern := lit "*.go", root := lit "/work" } := by
  have hvalid : validatePath (lit "/work") atRoot (lit "/work") = .ok (lit "/work") := by
    decide +kernel
  refine (globFiles_confined_iff hvalid).mpr fun terms hterms => .inr ?_
  have hparsed : (Path.elements (Path.join (lit "/work") (lit "*.go"))).mapM Glob.parse =
      some [(runes (lit "work")).map .one, .star :: (runes (lit ".go")).map .one] := by
    decide +kernel
  rw [hparsed, Option.some.injEq] at hterms
  rw [← hterms, show Path.elements (lit "/work") = [lit "work"] by decide +kernel]
  exact ⟨fun name _ hmatched => Glob.eq_of_matchElement_one hmatched, trivial⟩

/-- A directory `/work`, and a file beside it. -/
def workAndKeys : Glob.FileSystem where
  paths := [[lit "keys"], [lit "work"]]
  proper := by
    have hproper : ∀ e ∈ [lit "keys", lit "work"], Path.Proper e := by
      intro e he
      refine ⟨?_, ?_, ?_, ?_⟩ <;> revert he e <;> decide +kernel
    simpa using hproper

/-- With the root `/work`, the pattern `../*` lists the directory above it. -/
theorem parent_listed :
    globFiles (lit "/work") atRoot workAndKeys { pattern := lit "../*", root := lit "/work" } =
        .ok (lit "找到 2 个文件:\n  ../keys\n  .\n") ∧
      ¬ GlobConfined (lit "/work") atRoot { pattern := lit "../*", root := lit "/work" } := by
  refine ⟨by decide +kernel, fun h => ?_⟩
  have hfound : globMatches (lit "/work") atRoot workAndKeys
      { pattern := lit "../*", root := lit "/work" } =
        .ok (lit "/work", [lit "/keys", lit "/work"]) := by
    decide +kernel
  exact absurd (h _ _ _ hfound (lit "/keys") List.mem_cons_self) (by decide +kernel)

end Tools

end MiniGoAgent
