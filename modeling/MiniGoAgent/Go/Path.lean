/-
# `Go.Path` — package `path/filepath` on Unix: paths and their elements

`clean` is `filepath.Clean`, element by element: empty elements and `.` are dropped, and
`..` takes the element before it away.  An absolute path comes out as `rooted es`, the
text of a list of proper elements (`clean_eq_rooted`), and the elements can be read off
the text again (`elements_rooted`).
-/
import MiniGoAgent.Go.Search
import Mathlib.Data.List.Infix

namespace Go

variable {es : List Str}

namespace Path

def sep : UInt8 := byte '/'

def isAbs (path : Str) : Bool := path.head? == some sep

/-- One element of a path read by `clean`; `stack` holds the elements kept so far, the
last first. -/
def cleanStep (rooted : Bool) (stack : List Str) (elem : Str) : List Str :=
  if elem = [] ∨ elem = lit "." then stack
  else if elem = lit ".." then
    match stack with
    | [] => if rooted then [] else [elem]
    | top :: rest => if top = lit ".." then elem :: stack else rest
  else elem :: stack

/-- The elements, each with a separator in front. -/
def slashed (elems : List Str) : Str := elems.flatMap (fun e => sep :: e)

def rooted (elems : List Str) : Str := if elems = [] then [sep] else slashed elems

def relative (elems : List Str) : Str :=
  if elems = [] then lit "." else (slashed elems).tail

def clean (path : Str) : Str :=
  let elems := ((splitByte sep path).foldl (cleanStep (isAbs path)) []).reverse
  if isAbs path then rooted elems else relative elems

/-- A working directory is absolute. -/
structure WorkDir where
  path : Str
  abs : isAbs path = true

/-- `filepath.Abs`; `getwd` is what `os.Getwd` returns. -/
def abs {ε : Type} (getwd : Except ε WorkDir) (path : Str) : Except ε Str :=
  if isAbs path then .ok (clean path)
  else
    match getwd with
    | .error err => .error err
    | .ok wd => .ok (clean (wd.path ++ sep :: path))

def dir (path : Str) : Str := clean (path.rdropWhile (fun c => c ≠ sep))

/-- `filepath.Ext`: the last element from its last dot on. -/
def ext (path : Str) : Str :=
  let base := path.rtakeWhile (fun c => c ≠ sep)
  match lastIndexByte base (byte '.') with
  | some i => base.drop i
  | none => []

def elements (path : Str) : List Str := (splitByte sep path).filter (fun e => e ≠ [])

/-- `filepath.Join` of a directory and what is beneath it. -/
def join (dir name : Str) : Str := clean (dir ++ sep :: name)

/-- Two lists of elements without what they begin with in common. -/
def dropCommon : List Str → List Str → List Str × List Str
  | e :: es, e' :: es' => if e = e' then dropCommon es es' else (e :: es, e' :: es')
  | es, es' => (es, es')

/-- `filepath.Rel` for absolute paths: up to where they part, and down again. -/
def rel (base targ : Str) : Str :=
  let (up, down) := dropCommon (elements base) (elements targ)
  relative (up.map (fun _ => lit "..") ++ down)

/-! ## Texts and their elements -/

/-- An element that `clean` keeps. -/
structure Proper (e : Str) : Prop where
  nonempty : e ≠ []
  dot : e ≠ lit "."
  dotdot : e ≠ lit ".."
  sep : sep ∉ e

theorem slashed_cons (e : Str) (es : List Str) : slashed (e :: es) = sep :: (e ++ slashed es) := by
  rw [slashed, List.flatMap_cons]
  rfl

theorem slashed_append (es es' : List Str) : slashed (es ++ es') = slashed es ++ slashed es' :=
  List.flatMap_append

theorem splitByte_slashed (h : ∀ e ∈ es, sep ∉ e) : splitByte sep (slashed es) = [] :: es := by
  induction es with
  | nil => rfl
  | cons e es ih =>
    have hrest := ih (fun e' he' => h e' (List.mem_cons_of_mem _ he'))
    rw [slashed_cons, splitByte, if_pos (by simp),
      splitByte_append (h e List.mem_cons_self) hrest, List.append_nil]

theorem splitByte_rooted (h : ∀ e ∈ es, Proper e) :
    splitByte sep (rooted es) = [] :: es ∨ (es = [] ∧ splitByte sep (rooted es) = [[], []]) := by
  unfold rooted
  by_cases hes : es = []
  · rw [if_pos hes]
    exact Or.inr ⟨hes, by decide⟩
  · rw [if_neg hes]
    exact Or.inl (splitByte_slashed (fun e he => (h e he).sep))

theorem elements_rooted (h : ∀ e ∈ es, Proper e) : elements (rooted es) = es := by
  unfold elements
  rcases splitByte_rooted h with hsplit | ⟨hes, hsplit⟩
  · rw [hsplit, List.filter_cons_of_neg (by simp), List.filter_eq_self]
    intro e he
    simpa using (h e he).nonempty
  · rw [hsplit, hes]
    rfl

theorem isAbs_rooted (es : List Str) : isAbs (rooted es) = true := by
  unfold rooted
  cases es with
  | nil => decide
  | cons e es =>
    rw [if_neg (by simp), slashed_cons]
    simp [isAbs]

/-! ## What `clean` makes of a path -/

theorem cleanStep_cases (rooted : Bool) (stack : List Str) (elem : Str) :
    (∀ e ∈ cleanStep rooted stack elem, e ∈ stack) ∨
      (cleanStep rooted stack elem = elem :: stack ∧ elem ≠ [] ∧ elem ≠ lit "." ∧
        (elem = lit ".." → rooted = false ∨ lit ".." ∈ stack)) := by
  unfold cleanStep
  by_cases hdrop : elem = [] ∨ elem = lit "."
  · rw [if_pos hdrop]
    exact Or.inl (fun e he => he)
  · rw [if_neg hdrop]
    rw [not_or] at hdrop
    by_cases hup : elem = lit ".."
    · rw [if_pos hup]
      cases stack with
      | nil =>
        cases rooted with
        | true => exact Or.inl (fun e he => he)
        | false => exact Or.inr ⟨rfl, hdrop.1, hdrop.2, fun _ => Or.inl rfl⟩
      | cons top rest =>
        dsimp only
        by_cases htop : top = lit ".."
        · rw [if_pos htop]
          exact Or.inr ⟨rfl, hdrop.1, hdrop.2, fun _ => Or.inr (htop ▸ List.mem_cons_self)⟩
        · rw [if_neg htop]
          exact Or.inl (fun e he => List.mem_cons_of_mem _ he)
    · rw [if_neg hup]
      exact Or.inr ⟨rfl, hdrop.1, hdrop.2, fun heq => absurd heq hup⟩

theorem foldl_cleanStep {rooted : Bool} {P : Str → Prop}
    (hpush : ∀ (stack : List Str) (elem : Str), (∀ e ∈ stack, P e) → sep ∉ elem →
      elem ≠ [] → elem ≠ lit "." → (elem = lit ".." → rooted = false ∨ lit ".." ∈ stack) → P elem)
    {elems stack : List Str} (hstack : ∀ e ∈ stack, P e) (helems : ∀ e ∈ elems, sep ∉ e) :
    ∀ e ∈ elems.foldl (cleanStep rooted) stack, P e := by
  induction elems generalizing stack with
  | nil => exact hstack
  | cons elem elems ih =>
    obtain ⟨helem, helems⟩ := List.forall_mem_cons.mp helems
    rw [List.foldl_cons]
    refine ih ?_ helems
    rcases cleanStep_cases rooted stack elem with hkept | ⟨hpushed, hne, hdot, hup⟩
    · intro e he
      exact hstack e (hkept e he)
    · rw [hpushed, List.forall_mem_cons]
      exact ⟨hpush stack elem hstack helem hne hdot hup, hstack⟩

theorem clean_relative {path : Str} (h : isAbs path = false) :
    clean path ≠ [] ∧ isAbs (clean path) = false := by
  have hnamed : ∀ e ∈ ((splitByte sep path).foldl (cleanStep false) []).reverse,
      e ≠ [] ∧ sep ∉ e := by
    intro e he
    rw [List.mem_reverse] at he
    refine foldl_cleanStep (P := fun e => e ≠ [] ∧ sep ∉ e) ?_ (by simp)
      (fun e he => not_mem_of_mem_splitByte he) e he
    intro stack elem _ hsep hne _ _
    exact ⟨hne, hsep⟩
  rw [clean, h]
  show relative _ ≠ [] ∧ isAbs (relative _) = false
  generalize ((splitByte sep path).foldl (cleanStep false) []).reverse = es at hnamed
  cases es with
  | nil => exact ⟨by decide, by decide⟩
  | cons e es =>
    obtain ⟨hne, hsep⟩ := hnamed e List.mem_cons_self
    rw [relative, if_neg (by simp), slashed_cons, List.tail_cons]
    cases e with
    | nil => exact absurd rfl hne
    | cons c e =>
      rw [List.mem_cons, not_or] at hsep
      have hc : c ≠ sep := fun heq => hsep.1 heq.symm
      exact ⟨by simp, by simp [isAbs, hc]⟩

theorem clean_eq_rooted {path : Str} (h : isAbs path = true) :
    ∃ es, (∀ e ∈ es, Proper e) ∧ clean path = rooted es := by
  refine ⟨((splitByte sep path).foldl (cleanStep true) []).reverse, ?_, ?_⟩
  · intro e he
    rw [List.mem_reverse] at he
    refine foldl_cleanStep ?_ (by simp) (fun e he => not_mem_of_mem_splitByte he) e he
    intro stack elem hstack hsep hne hdot hup
    refine ⟨hne, hdot, ?_, hsep⟩
    intro heq
    rcases hup heq with hrooted | hmem
    · cases hrooted
    · exact (hstack _ hmem).dotdot rfl
  · rw [clean, h]
    rfl

theorem foldl_cleanStep_of_proper {stack : List Str} (h : ∀ e ∈ es, Proper e) :
    es.foldl (cleanStep true) stack = es.reverse ++ stack := by
  induction es generalizing stack with
  | nil => rfl
  | cons e es ih =>
    have he := h e List.mem_cons_self
    have hstep : cleanStep true stack e = e :: stack := by
      unfold cleanStep
      rw [if_neg (by simp [he.nonempty, he.dot]), if_neg he.dotdot]
    rw [List.foldl_cons, hstep, ih (fun e' he' => h e' (List.mem_cons_of_mem _ he')),
      List.reverse_cons, List.append_assoc]
    rfl

theorem clean_rooted (h : ∀ e ∈ es, Proper e) : clean (rooted es) = rooted es := by
  have hfold : ((splitByte sep (rooted es)).foldl (cleanStep true) []).reverse = es := by
    have hskip : ∀ (elems stack : List Str),
        ([] :: elems).foldl (cleanStep true) stack = elems.foldl (cleanStep true) stack := by
      intro elems stack
      rw [List.foldl_cons]
      congr 1
    rcases splitByte_rooted h with hsplit | ⟨hes, hsplit⟩
    · rw [hsplit, hskip, foldl_cleanStep_of_proper h, List.append_nil, List.reverse_reverse]
    · rw [hsplit, hes, hskip, hskip]
      rfl
  rw [clean, isAbs_rooted]
  show rooted _ = _
  rw [hfold]

theorem abs_eq_rooted {ε : Type} {getwd : Except ε WorkDir} {path p : Str}
    (h : abs getwd path = .ok p) : ∃ es, (∀ e ∈ es, Proper e) ∧ p = rooted es := by
  unfold abs at h
  by_cases habs : isAbs path = true
  · rw [if_pos habs, Except.ok.injEq] at h
    rw [← h]
    exact clean_eq_rooted habs
  · rw [if_neg habs] at h
    cases getwd with
    | error err => cases h
    | ok wd =>
      rw [Except.ok.injEq] at h
      rw [← h]
      refine clean_eq_rooted ?_
      have hwd := wd.abs
      cases hp : wd.path with
      | nil =>
        rw [hp] at hwd
        exact absurd hwd (by decide)
      | cons c rest =>
        rw [hp] at hwd
        exact hwd

/-! ## Beneath another path -/

/-- The paths part at an element that has the last element of the first as a proper
prefix: `/a/b` and `/a/bc/d`. -/
def Neighbours (es es' : List Str) : Prop :=
  ∃ init last x rest, es = init ++ [last] ∧ es' = init ++ x :: rest ∧ last <+: x ∧ last ≠ x

theorem not_prefix_slashed {b : UInt8} (hb : b ≠ sep) {t : Str} (es : List Str) :
    ¬ b :: t <+: slashed es := by
  intro h
  cases es with
  | nil => exact absurd h (by simp [slashed])
  | cons e es =>
    rw [slashed_cons, List.cons_prefix_cons] at h
    exact hb h.1

theorem append_prefix_slashed {e e' : Str} (he : sep ∉ e) (he' : sep ∉ e') {t : Str}
    (h : e ++ sep :: t <+: e' ++ slashed es) : e = e' ∧ sep :: t <+: slashed es := by
  induction e generalizing e' with
  | nil =>
    cases e' with
    | nil => exact ⟨rfl, h⟩
    | cons c e' =>
      rw [List.nil_append, List.cons_append, List.cons_prefix_cons] at h
      rw [List.mem_cons, not_or] at he'
      exact absurd h.1 he'.1
  | cons b e ih =>
    rw [List.mem_cons, not_or] at he
    cases e' with
    | nil => exact absurd h (not_prefix_slashed (fun heq => he.1 heq.symm) es)
    | cons c e' =>
      rw [List.cons_append, List.cons_append, List.cons_prefix_cons] at h
      rw [List.mem_cons, not_or] at he'
      obtain ⟨hrest, ht⟩ := ih he.2 he'.2 h.2
      exact ⟨by rw [h.1, hrest], ht⟩

theorem prefix_append_slashed {e e' : Str} (he : sep ∉ e) : e <+: e' ++ slashed es ↔ e <+: e' := by
  constructor
  · intro h
    induction e generalizing e' with
    | nil => exact List.nil_prefix
    | cons b e ih =>
      rw [List.mem_cons, not_or] at he
      cases e' with
      | nil => exact absurd h (not_prefix_slashed (fun heq => he.1 heq.symm) es)
      | cons c e' =>
        rw [List.cons_append, List.cons_prefix_cons] at h
        exact List.cons_prefix_cons.mpr ⟨h.1, ih he.2 h.2⟩
  · intro h
    exact h.trans (List.prefix_append _ _)

theorem slashed_prefix_iff {es' : List Str} (h : ∀ e ∈ es, sep ∉ e)
    (h' : ∀ e ∈ es', sep ∉ e) (hne : es ≠ []) :
    slashed es <+: slashed es' ↔
      ∃ init last x rest, es = init ++ [last] ∧ es' = init ++ x :: rest ∧ last <+: x := by
  induction es generalizing es' with
  | nil => exact absurd rfl hne
  | cons e es ih =>
    have he := h e List.mem_cons_self
    cases es' with
    | nil =>
      refine iff_of_false ?_ ?_
      · rw [slashed_cons]
        simp [slashed]
      · rintro ⟨init, last, x, rest, _, hnil, _⟩
        exact absurd hnil (by simp)
    | cons e' es' =>
      have he' := h' e' List.mem_cons_self
      rw [slashed_cons, slashed_cons, List.cons_prefix_cons]
      cases es with
      | nil =>
        rw [slashed, List.flatMap_nil, List.append_nil, prefix_append_slashed he]
        constructor
        · rintro ⟨_, hpre⟩
          exact ⟨[], e, e', es', rfl, rfl, hpre⟩
        · rintro ⟨init, last, x, rest, hes, hes', hpre⟩
          cases init with
          | nil =>
            rw [List.nil_append, List.cons.injEq] at hes hes'
            rw [hes.1, hes'.1]
            exact ⟨rfl, hpre⟩
          | cons _ init => exact absurd hes (by simp)
      | cons f fs =>
        have hrec := ih (fun d hd => h d (List.mem_cons_of_mem _ hd))
          (fun d hd => h' d (List.mem_cons_of_mem _ hd)) (by simp)
        constructor
        · rintro ⟨_, hpre⟩
          rw [slashed_cons] at hpre
          obtain ⟨heq, hbehind⟩ := append_prefix_slashed he he' hpre
          rw [← slashed_cons] at hbehind
          obtain ⟨init, last, x, rest, hes, hes', hlast⟩ := hrec.mp hbehind
          exact ⟨e :: init, last, x, rest, by rw [hes]; rfl, by rw [hes', heq]; rfl, hlast⟩
        · rintro ⟨init, last, x, rest, hes, hes', hlast⟩
          cases init with
          | nil => cases hes
          | cons d init =>
            rw [List.cons_append, List.cons.injEq] at hes hes'
            rw [hes.1, hes'.1]
            exact ⟨rfl, (List.prefix_append_right_inj d).mpr
              (hrec.mpr ⟨init, last, x, rest, hes.2, hes'.2, hlast⟩)⟩

theorem rooted_prefix_iff {es' : List Str} (h : ∀ e ∈ es, Proper e) (h' : ∀ e ∈ es', Proper e) :
    rooted es <+: rooted es' ↔ es <+: es' ∨ Neighbours es es' := by
  by_cases hes : es = []
  · subst hes
    refine iff_of_true ?_ (Or.inl List.nil_prefix)
    have habs := isAbs_rooted es'
    cases hr : rooted es' with
    | nil =>
      rw [hr] at habs
      exact absurd habs (by decide)
    | cons c rest =>
      rw [hr] at habs
      have hc : c = sep := by simpa [isAbs] using habs
      rw [hc]
      exact List.cons_prefix_cons.mpr ⟨rfl, List.nil_prefix⟩
  · have hparts : es <+: es' ∨ Neighbours es es' ↔
        ∃ init last x rest, es = init ++ [last] ∧ es' = init ++ x :: rest ∧ last <+: x := by
      constructor
      · rintro (⟨rest, rfl⟩ | ⟨init, last, x, rest, h₁, h₂, h₃, _⟩)
        · refine ⟨es.dropLast, es.getLast hes, es.getLast hes, rest,
            (List.dropLast_append_getLast hes).symm, ?_, List.prefix_rfl⟩
          conv => lhs; rw [← List.dropLast_append_getLast hes, List.append_assoc]
          rfl
        · exact ⟨init, last, x, rest, h₁, h₂, h₃⟩
      · rintro ⟨init, last, x, rest, h₁, h₂, h₃⟩
        by_cases heq : last = x
        · refine Or.inl ⟨rest, ?_⟩
          rw [h₁, h₂, heq, List.append_assoc]
          rfl
        · exact Or.inr ⟨init, last, x, rest, h₁, h₂, h₃, heq⟩
    rw [hparts, ← slashed_prefix_iff (fun e he => (h e he).sep) (fun e he => (h' e he).sep) hes]
    unfold rooted
    rw [if_neg hes]
    by_cases hes' : es' = []
    · subst hes'
      rw [if_pos rfl]
      cases es with
      | nil => exact absurd rfl hes
      | cons e es =>
        have hne := (h e List.mem_cons_self).nonempty
        rw [slashed_cons]
        simp [slashed, hne]
    · rw [if_neg hes']

/-! ## Directories -/

theorem splitByte_slashed_sep (h : ∀ e ∈ es, sep ∉ e) :
    splitByte sep (slashed es ++ [sep]) = [] :: (es ++ [[]]) := by
  induction es with
  | nil => decide
  | cons e es ih =>
    have hrest := ih (fun e' he' => h e' (List.mem_cons_of_mem _ he'))
    rw [slashed_cons, List.cons_append, splitByte, if_pos (by simp), List.append_assoc,
      splitByte_append (h e List.mem_cons_self) hrest, List.append_nil]
    rfl

theorem dir_rooted {e : Str} (h : ∀ d ∈ es ++ [e], Proper d) :
    dir (rooted (es ++ [e])) = rooted es := by
  have hes : ∀ d ∈ es, Proper d := fun d hd => h d (List.mem_append_left _ hd)
  have he : sep ∉ e := (h e (List.mem_append_right _ List.mem_cons_self)).sep
  have htext : rooted (es ++ [e]) = (slashed es ++ [sep]) ++ e := by
    rw [rooted, if_neg (by simp), slashed_append, slashed_cons]
    simp [slashed]
  have hcut : (rooted (es ++ [e])).rdropWhile (fun c => c ≠ sep) = slashed es ++ [sep] := by
    have hdrop : e.reverse.dropWhile (fun c => decide (c ≠ sep)) = [] := by
      rw [List.dropWhile_eq_nil_iff]
      intro c hc
      rw [List.mem_reverse] at hc
      exact decide_eq_true (fun heq => he (heq ▸ hc))
    rw [htext, List.rdropWhile, List.reverse_append, List.dropWhile_append, hdrop]
    simp
  have habs : isAbs (slashed es ++ [sep]) = true := by
    cases es with
    | nil => decide
    | cons d es => rw [slashed_cons]; simp [isAbs]
  rw [dir, hcut, clean, habs]
  show rooted _ = rooted es
  rw [splitByte_slashed_sep (fun d hd => (hes d hd).sep), List.foldl_cons, List.foldl_append]
  show rooted ((es.foldl (cleanStep true) []).reverse) = _
  rw [foldl_cleanStep_of_proper hes, List.append_nil, List.reverse_reverse]

end Path

end Go
