/-
# `Go.Glob` — `filepath.Match` and `filepath.Glob` as they are documented

A pattern is matched element by element.  An element is a list of terms, each of which
takes a rune of the name, or as many as it likes; a malformed element makes the whole
pattern malformed.

`forall_prefix_iff` says when all paths a pattern matches lie beneath one directory.
-/
import MiniGoAgent.Go.Path
import MiniGoAgent.Go.Runes

namespace Go

namespace Glob

/-! ## Patterns -/

/-- A term: `*`, `?`, a rune, or a class with its ranges. -/
inductive Term where
  | star
  | any
  | one (rune : Str)
  | oneOf (negated : Bool) (ranges : List (Str × Str))
  deriving DecidableEq, Repr

/-- The rune a range begins or ends with, escaped or not; something has to follow it. -/
def getEsc : List Str → Option (Str × List Str)
  | [] => none
  | x :: rest =>
    if x = lit "-" ∨ x = lit "]" then none
    else
      match if x = lit "\\" then rest else x :: rest with
      | [] => none
      | y :: rest => if Json.runeLen y = 0 ∨ rest = [] then none else some (y, rest)

/-- The ranges of a class, up to its bracket. -/
def getRanges : Nat → List (Str × Str) → List Str →
    Option (List (Str × Str) × List Str)
  | 0, _, _ => none
  | n + 1, ranges, s =>
    if ranges ≠ [] ∧ s.head? = some (lit "]") then some (ranges, s.tail)
    else
      match getEsc s with
      | none => none
      | some (lo, s) =>
        if s.head? = some (lit "-") then
          match getEsc s.tail with
          | none => none
          | some (hi, s) => getRanges n (ranges ++ [(lo, hi)]) s
        else getRanges n (ranges ++ [(lo, lo)]) s

/-- The terms of an element, `none` if it is malformed; every term takes a rune. -/
def parseFrom : Nat → List Str → Option (List Term)
  | _, [] => some []
  | 0, _ => none
  | n + 1, x :: rest =>
    if x = lit "*" then (parseFrom n rest).map (.star :: ·)
    else if x = lit "?" then (parseFrom n rest).map (.any :: ·)
    else if x = lit "\\" then
      match rest with
      | [] => none
      | y :: rest => (parseFrom n rest).map (.one y :: ·)
    else if x = lit "[" then
      let negated := rest.head? == some (lit "^")
      match getRanges n [] (if negated then rest.tail else rest) with
      | none => none
      | some (ranges, rest) => (parseFrom n rest).map (.oneOf negated ranges :: ·)
    else (parseFrom n rest).map (.one x :: ·)

def parse (element : Str) : Option (List Term) :=
  parseFrom (runes element).length (runes element)

/-- The term takes this rune.  Code points compare as the bytes of their encodings do. -/
def Term.accepts (rune : Str) : Term → Bool
  | star => false
  | any => true
  | one x => x = rune
  | oneOf negated ranges =>
    (ranges.any fun r => r.1 ≤ validRune rune ∧ validRune rune ≤ r.2) != negated

def matchTerms : List Term → List Str → Bool
  | [], name => name.isEmpty
  | .star :: terms, name => name.tails.any fun rest => matchTerms terms rest
  | term :: terms, name =>
    match name with
    | [] => false
    | x :: rest => term.accepts x && matchTerms terms rest

/-- `filepath.Match` for an element of a path. -/
def matchElement (terms : List Term) (name : Str) : Bool := matchTerms terms (runes name)

def matchPath : List (List Term) → List Str → Bool
  | [], [] => true
  | terms :: more, name :: names => matchElement terms name && matchPath more names
  | _, _ => false

/-! ## Files -/

/-- The paths that exist, as lists of elements, in the order they are found in. -/
structure FileSystem where
  paths : List (List Str)
  proper : ∀ path ∈ paths, ∀ e ∈ path, Path.Proper e

/-- `filepath.Glob` for an absolute pattern. -/
def glob (fs : FileSystem) (pattern : Str) : Except Str (List Str) :=
  match (Path.elements pattern).mapM parse with
  | none => .error (lit "syntax error in pattern")
  | some terms => .ok ((fs.paths.filter (matchPath terms)).map Path.rooted)

/-! ## Paths beneath a directory -/

def Unmatched (terms : List Term) : Prop :=
  ∀ name, Path.Proper name → matchElement terms name = false

/-- The pattern begins with elements that match the elements of the directory and no
others. -/
def Anchored : List Str → List (List Term) → Prop
  | [], _ => True
  | _ :: _, [] => False
  | e :: es, terms :: more =>
    (∀ name, Path.Proper name → matchElement terms name = true → name = e) ∧ Anchored es more

variable {terms : List (List Term)}

theorem matched_of_matchPath {path : List Str} (hpath : ∀ e ∈ path, Path.Proper e)
    (h : matchPath terms path = true) : ¬ ∃ t ∈ terms, Unmatched t := by
  induction terms generalizing path with
  | nil => simp
  | cons t terms ih =>
    cases path with
    | nil => cases h
    | cons e path =>
      rw [matchPath, Bool.and_eq_true] at h
      obtain ⟨he, hpath⟩ := List.forall_mem_cons.mp hpath
      rintro ⟨t', ht', hnone⟩
      rcases List.mem_cons.mp ht' with rfl | ht'
      · rw [hnone e he] at h
        cases h.1
      · exact ih hpath h.2 ⟨t', ht', hnone⟩

theorem exists_matchPath (h : ¬ ∃ t ∈ terms, Unmatched t) :
    ∃ path : List Str, (∀ e ∈ path, Path.Proper e) ∧ matchPath terms path = true := by
  induction terms with
  | nil => exact ⟨[], List.forall_mem_nil _, rfl⟩
  | cons t terms ih =>
    obtain ⟨path, hpath, hmatch⟩ := ih fun ⟨t', ht', hnone⟩ =>
      h ⟨t', List.mem_cons_of_mem t ht', hnone⟩
    obtain ⟨e, he, hmatched⟩ : ∃ e, Path.Proper e ∧ matchElement t e = true := by
      by_contra hno
      refine h ⟨t, List.mem_cons_self, fun e he => ?_⟩
      rw [← Bool.not_eq_true]
      exact fun hmatched => hno ⟨e, he, hmatched⟩
    refine ⟨e :: path, List.forall_mem_cons.mpr ⟨he, hpath⟩, ?_⟩
    rw [matchPath, hmatched, hmatch]
    rfl

theorem forall_prefix_iff (es : List Str) (terms : List (List Term)) :
    (∀ path, (∀ e ∈ path, Path.Proper e) → matchPath terms path = true → es <+: path) ↔
      (∃ t ∈ terms, Unmatched t) ∨ Anchored es terms := by
  by_cases hsome : ∃ t ∈ terms, Unmatched t
  · refine iff_of_true (fun path hpath hmatch => ?_) (.inl hsome)
    exact absurd hsome (matched_of_matchPath hpath hmatch)
  · rw [or_iff_right hsome]
    induction es generalizing terms with
    | nil => exact iff_of_true (fun _ _ _ => List.nil_prefix) trivial
    | cons e es ih =>
      cases terms with
      | nil =>
        refine iff_of_false (fun h => ?_) id
        exact absurd (h [] (List.forall_mem_nil _) rfl) (by simp)
      | cons t terms =>
        have hrest : ¬ ∃ t ∈ terms, Unmatched t := fun ⟨t', ht', hnone⟩ =>
          hsome ⟨t', List.mem_cons_of_mem t ht', hnone⟩
        obtain ⟨path₀, hpath₀, hmatch₀⟩ := exists_matchPath hsome
        rw [Anchored, ← ih terms hrest]
        constructor
        · intro h
          cases path₀ with
          | nil => cases hmatch₀
          | cons e₀ path₀ =>
            rw [matchPath, Bool.and_eq_true] at hmatch₀
            obtain ⟨he₀, hpath₀⟩ := List.forall_mem_cons.mp hpath₀
            refine ⟨fun name hname hmatched => ?_, fun path hpath hmatch => ?_⟩
            · have hpre := h (name :: path₀) (List.forall_mem_cons.mpr ⟨hname, hpath₀⟩)
                (by rw [matchPath, hmatched, hmatch₀.2]; rfl)
              exact (List.cons_prefix_cons.mp hpre).1.symm
            · have hpre := h (e₀ :: path) (List.forall_mem_cons.mpr ⟨he₀, hpath⟩)
                (by rw [matchPath, hmatch₀.1, hmatch]; rfl)
              exact (List.cons_prefix_cons.mp hpre).2
        · rintro ⟨hfirst, hothers⟩ path hpath hmatch
          cases path with
          | nil => cases hmatch
          | cons name path =>
            rw [matchPath, Bool.and_eq_true] at hmatch
            obtain ⟨hname, hpath⟩ := List.forall_mem_cons.mp hpath
            exact List.cons_prefix_cons.mpr
              ⟨(hfirst name hname hmatch.1).symm, hothers path hpath hmatch.2⟩

theorem eq_of_matchElement_one {text name : Str}
    (h : matchElement ((runes text).map .one) name = true) : name = text := by
  have hrunes : ∀ xs ys : List Str, matchTerms (xs.map .one) ys = true → ys = xs := by
    intro xs
    induction xs with
    | nil =>
      intro ys hys
      exact List.isEmpty_iff.mp hys
    | cons x xs ih =>
      intro ys hys
      cases ys with
      | nil => cases hys
      | cons y ys =>
        rw [List.map_cons, matchTerms, Bool.and_eq_true] at hys
        · rw [ih ys hys.2, of_decide_eq_true hys.1]
        · rintro ⟨⟩
  rw [← runes_flatten name, hrunes _ _ h, runes_flatten]

end Glob

end Go
