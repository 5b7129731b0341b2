/-
# `Go.Regexp` — leftmost-first regular expressions and `ReplaceAllStringFunc`

Package `regexp` looks for a match from left to right and, where several start
at one place, takes the one a backtracking search would find first.  `lengths r
s` lists the lengths of the matches of `r` at the front of `s` in that order of
preference, so that the match taken is the head of the list.

The letters are of any type `α`, and a letter set is a Boolean function.
Three properties of an expression are computed from its letter sets alone:

* `avoids c r`: no set of `r` has `c`, so no match crosses a `c`;
* `reaches A r`: `r` can match over the letters `A`;
* `consumes r`: `r` does not match the empty text.
-/
import MiniGoAgent.Go.Runes

namespace Go

/-- A regular expression over letter sets.  `many` is the greedy repetition of
one set; a bounded repetition is a `word`. -/
inductive Regexp (α : Type) where
  | empty
  | one (p : α → Bool)
  | many (p : α → Bool)
  | seq (r t : Regexp α)
  | alt (r t : Regexp α)

namespace Regexp

variable {α β : Type} {n : Nat} {s : List α} {c : α}

def word (ps : List (α → Bool)) : Regexp α := ps.foldr (fun p r => seq (one p) r) empty

/-- `[p]{n,}`. -/
def atLeast (n : Nat) (p : α → Bool) : Regexp α := seq (word (List.replicate n p)) (many p)

/-- `(?:r)?`. -/
def opt (r : Regexp α) : Regexp α := alt r empty

/-! ## Matches -/

/-- The lengths of the matches of `r` at the front of a text, the preferred
one first. -/
def lengths : Regexp α → List α → List Nat
  | empty, _ => [0]
  | one p, s => if s.head?.any p then [1] else []
  | many p, s => (List.range ((s.takeWhile p).length + 1)).reverse
  | seq r t, s => (lengths r s).flatMap (fun n => (lengths t (s.drop n)).map (n + ·))
  | alt r t, s => lengths r s ++ lengths t s

def free (r : Regexp α) : List α → Bool
  | [] => (lengths r []).isEmpty
  | c :: rest => (lengths r (c :: rest)).isEmpty && free r rest

theorem mem_lengths_seq {r t : Regexp α} :
    n ∈ lengths (seq r t) s ↔ ∃ k ∈ lengths r s, ∃ l ∈ lengths t (s.drop k), k + l = n := by
  simp only [lengths, List.mem_flatMap, List.mem_map]

variable {r : Regexp α}

theorem le_length_of_mem_lengths (hn : n ∈ lengths r s) : n ≤ s.length := by
  induction r generalizing s n with
  | empty =>
    rw [lengths, List.mem_singleton] at hn
    omega
  | one p =>
    cases s with
    | nil => cases hn
    | cons c rest =>
      simp only [lengths] at hn
      split at hn
      · rw [List.mem_singleton] at hn
        simp [hn]
      · cases hn
  | many p =>
    have hle : (s.takeWhile p).length ≤ s.length := (List.takeWhile_prefix p).length_le
    simp only [lengths, List.mem_reverse, List.mem_range] at hn
    omega
  | seq r t ihr iht =>
    obtain ⟨k, hk, l, hl, rfl⟩ := mem_lengths_seq.mp hn
    have h1 := ihr hk
    have h2 := iht hl
    rw [List.length_drop] at h2
    omega
  | alt r t ihr iht =>
    rw [lengths, List.mem_append] at hn
    exact hn.elim ihr iht

/-! ## Letters an expression does not use -/

/-- No letter set of the expression has `c`. -/
def avoids (c : α) : Regexp α → Bool
  | empty => true
  | one p => !p c
  | many p => !p c
  | seq r t => avoids c r && avoids c t
  | alt r t => avoids c r && avoids c t

theorem takeWhile_append_avoided {p : α → Bool} (hc : p c = false) (a b : List α) :
    (a ++ c :: b).takeWhile p = a.takeWhile p := by
  induction a with
  | nil => simp [hc]
  | cons x rest ih =>
    rw [List.cons_append, List.takeWhile_cons, List.takeWhile_cons, ih]

theorem lengths_append_avoided (h : avoids c r = true) (a b : List α) :
    lengths r (a ++ c :: b) = lengths r a := by
  induction r generalizing a with
  | empty => rfl
  | one p =>
    have hc : p c = false := by simpa [avoids] using h
    cases a with
    | nil => simp [lengths, hc]
    | cons x rest => rfl
  | many p =>
    have hc : p c = false := by simpa [avoids] using h
    simp only [lengths, takeWhile_append_avoided hc]
  | seq r t ihr iht =>
    simp only [avoids, Bool.and_eq_true] at h
    simp only [lengths, ihr h.1]
    refine List.flatMap_congr ?_
    intro n hn
    rw [List.drop_append_of_le_length (le_length_of_mem_lengths hn), iht h.2]
  | alt r t ihr iht =>
    simp only [avoids, Bool.and_eq_true] at h
    simp only [lengths, ihr h.1, iht h.2]

theorem free_append_avoided (h : avoids c r = true) (a b : List α) :
    free r (a ++ c :: b) = (free r a && free r b) := by
  induction a with
  | nil =>
    have hnil := lengths_append_avoided h [] b
    rw [List.nil_append] at hnil
    rw [List.nil_append, free, free, hnil]
  | cons x rest ih =>
    have hcons := lengths_append_avoided h (x :: rest) b
    rw [List.cons_append] at hcons ⊢
    rw [free, free, hcons, ih, Bool.and_assoc]

theorem not_mem_of_avoids (h : avoids c r = true) (hn : n ∈ lengths r s) : c ∉ s.take n := by
  intro hc
  obtain ⟨u, v, huv⟩ := List.append_of_mem hc
  have hs : s = u ++ c :: (v ++ s.drop n) := by
    conv_lhs => rw [← List.take_append_drop n s, huv]
    simp
  have hmem : n ∈ lengths r u := by
    rw [← lengths_append_avoided h u (v ++ s.drop n), ← hs]
    exact hn
  have hle := le_length_of_mem_lengths hmem
  have hlen : (u ++ c :: v).length ≤ n := by
    rw [← huv]
    exact List.length_take_le ..
  simp only [List.length_append, List.length_cons] at hlen
  omega

/-! ## Letters an expression needs -/

/-- The expression can match a text over the letters `A`. -/
def reaches (A : List α) : Regexp α → Bool
  | empty => true
  | one p => A.any p
  | many _ => true
  | seq r t => reaches A r && reaches A t
  | alt r t => reaches A r || reaches A t

theorem reaches_of_mem_lengths {A : List α}
    (hs : ∀ x ∈ s, x ∈ A) (hn : n ∈ lengths r s) : reaches A r = true := by
  induction r generalizing s n with
  | empty | many => rfl
  | one p =>
    cases s with
    | nil => cases hn
    | cons c rest =>
      have hp : p c = true := by
        by_contra hp
        exact absurd hn (by simp [lengths, hp])
      exact List.any_eq_true.mpr ⟨c, hs c List.mem_cons_self, hp⟩
  | seq r t ihr iht =>
    obtain ⟨k, hk, l, hl, _⟩ := mem_lengths_seq.mp hn
    have hdrop : ∀ x ∈ s.drop k, x ∈ A := fun x hx => hs x (List.mem_of_mem_drop hx)
    simp only [reaches, ihr hs hk, iht hdrop hl, Bool.and_self]
  | alt r t ihr iht =>
    rw [lengths, List.mem_append] at hn
    rcases hn with hn | hn
    · simp only [reaches, ihr hs hn, Bool.true_or]
    · simp only [reaches, iht hs hn, Bool.or_true]

theorem free_of_letters {A : List α} (h : reaches A r = false)
    (hs : ∀ x ∈ s, x ∈ A) : free r s = true := by
  have hnone : ∀ t : List α, (∀ x ∈ t, x ∈ A) → (lengths r t).isEmpty = true := by
    intro t ht
    rw [List.isEmpty_iff, List.eq_nil_iff_forall_not_mem]
    intro n hn
    rw [reaches_of_mem_lengths ht hn] at h
    cases h
  induction s with
  | nil => exact hnone [] hs
  | cons c rest ih =>
    rw [free, hnone _ hs, ih (fun x hx => hs x (List.mem_cons_of_mem c hx)), Bool.and_self]

/-! ## Replacing -/

def consumes : Regexp α → Bool
  | empty => false
  | one _ => true
  | many _ => false
  | seq r t => consumes r || consumes t
  | alt r t => consumes r && consumes t

theorem pos_of_consumes (h : consumes r = true) (hn : n ∈ lengths r s) : 0 < n := by
  induction r generalizing s n with
  | empty | many => cases h
  | one p =>
    simp only [lengths] at hn
    split at hn
    · rw [List.mem_singleton] at hn
      omega
    · cases hn
  | seq r t ihr iht =>
    obtain ⟨k, hk, l, hl, rfl⟩ := mem_lengths_seq.mp hn
    simp only [consumes, Bool.or_eq_true] at h
    rcases h with h | h
    · have := ihr h hk
      omega
    · have := iht h hl
      omega
  | alt r t ihr iht =>
    simp only [consumes, Bool.and_eq_true] at h
    rw [lengths, List.mem_append] at hn
    exact hn.elim (ihr h.1) (iht h.2)

theorem lengths_nil_of_consumes (h : consumes r = true) : lengths r [] = [] := by
  rw [List.eq_nil_iff_forall_not_mem]
  intro n hn
  have hpos := pos_of_consumes h hn
  have hle := le_length_of_mem_lengths hn
  rw [List.length_nil] at hle
  omega

theorem free_nil (h : consumes r = true) : free r [] = true := by
  rw [free, lengths_nil_of_consumes h, List.isEmpty_nil]

/-- `ReplaceAllStringFunc` on a text cut into pieces: the preferred match at
each place is replaced by `f` of its text and the search goes on behind it.
The counter is the number of pieces of the last match still to pass over. -/
def replace (r : Regexp (List β)) (f : List β → List β) : Nat → List (List β) → List β
  | _, [] => []
  | skip + 1, _ :: rest => replace r f skip rest
  | 0, c :: rest =>
    match (lengths r (c :: rest)).head? with
    | some (n + 1) => f ((c :: rest).take (n + 1)).flatten ++ replace r f n rest
    | _ => c ++ replace r f 0 rest

def replaceAllStringFunc (r : Regexp Str) (f : Str → Str) (s : Str) :
    Str :=
  replace r f 0 (runes s)

variable {f : List β → List β}

theorem replace_rule {R : List β → List β → Prop} (hrefl : ∀ x, R x x)
    (happend : ∀ a b c d, R a b → R c d → R (a ++ c) (b ++ d))
    (hf : ∀ m, R m (f m)) (r : Regexp (List β)) (skip : Nat) (s : List (List β)) :
    R (s.drop skip).flatten (replace r f skip s) := by
  induction s generalizing skip with
  | nil => simpa [replace] using hrefl []
  | cons c rest ih =>
    cases skip with
    | succ skip => exact ih skip
    | zero =>
      rw [List.drop_zero, replace]
      split
      · rename_i n _
        have hsplit : (c :: rest).flatten =
            ((c :: rest).take (n + 1)).flatten ++ (rest.drop n).flatten := by
          rw [← List.flatten_append, List.take_succ_cons, List.cons_append,
            List.take_append_drop]
        rw [hsplit]
        exact happend _ _ _ _ (hf _) (ih n)
      · exact happend _ _ _ _ (hrefl c) (ih 0)

theorem replace_append_avoided {r : Regexp (List β)} {c : List β} (h : avoids c r = true)
    (f : List β → List β) {skip : Nat} {a : List (List β)} (hskip : skip ≤ a.length)
    (b : List (List β)) :
    replace r f skip (a ++ c :: b) = replace r f skip a ++ (c ++ replace r f 0 b) := by
  induction a generalizing skip with
  | nil =>
    obtain rfl : skip = 0 := Nat.le_zero.mp hskip
    have hlen : lengths r (c :: b) = lengths r [] := lengths_append_avoided h [] b
    have hhead : ∀ n, (lengths r []).head? ≠ some (n + 1) := by
      intro n hn
      have hle := le_length_of_mem_lengths (List.mem_of_mem_head? hn)
      cases hle
    rw [List.nil_append, replace, replace, hlen]
    split
    next n hn => exact absurd hn (hhead n)
    next => rfl
  | cons x a ih =>
    cases skip with
    | succ skip => exact ih (Nat.le_of_succ_le_succ hskip)
    | zero =>
      have hlen := lengths_append_avoided h (x :: a) b
      rw [List.cons_append] at hlen
      rw [List.cons_append, replace, replace, hlen]
      split
      next n hn =>
        have hle : n + 1 ≤ (x :: a).length :=
          le_length_of_mem_lengths (List.mem_of_mem_head? hn)
        rw [← List.cons_append, List.take_append_of_le_length hle,
          ih (Nat.le_of_succ_le_succ hle), List.append_assoc]
      next => rw [ih (Nat.zero_le _), List.append_assoc]

theorem replaceAllStringFunc_append_avoided {r : Regexp Str} {b : UInt8} (hb : b < 0x80)
    (h : avoids [b] r = true) (f : Str → Str) (a s : Str) :
    replaceAllStringFunc r f (a ++ b :: s) =
      replaceAllStringFunc r f a ++ b :: replaceAllStringFunc r f s := by
  rw [replaceAllStringFunc, runes_append_ascii hb, replace_append_avoided h f (Nat.zero_le _)]
  rfl

theorem replace_of_free {r : Regexp (List β)} {s : List (List β)}
    (h : free r s = true) : replace r f 0 s = s.flatten := by
  induction s with
  | nil => rfl
  | cons c rest ih =>
    rw [free, Bool.and_eq_true, List.isEmpty_iff] at h
    simp only [replace, h.1, List.head?_nil, List.flatten_cons, ih h.2]

theorem free_of_replace_eq {r : Regexp (List β)} (hr : consumes r = true)
    (hlen : ∀ m, (f m).length = m.length) {s : List (List β)}
    (hne : ∀ t, t <:+ s → ∀ n ∈ lengths r t, f (t.take n).flatten ≠ (t.take n).flatten)
    (h : replace r f 0 s = s.flatten) : free r s = true := by
  induction s with
  | nil => exact free_nil hr
  | cons c rest ih =>
    cases hl : lengths r (c :: rest) with
    | nil =>
      simp only [replace, hl, List.head?_nil, List.flatten_cons, List.append_cancel_left_eq] at h
      rw [free, hl, List.isEmpty_nil, Bool.true_and]
      exact ih (fun t ht => hne t (ht.trans (List.suffix_cons c rest))) h
    | cons n ns =>
      have hn : n ∈ lengths r (c :: rest) := by simp [hl]
      obtain ⟨k, rfl⟩ : ∃ k, n = k + 1 := ⟨n - 1, by have := pos_of_consumes hr hn; omega⟩
      have hsplit : (c :: rest).flatten =
          ((c :: rest).take (k + 1)).flatten ++ ((c :: rest).drop (k + 1)).flatten := by
        rw [← List.flatten_append, List.take_append_drop]
      rw [hsplit] at h
      simp only [replace, hl, List.head?_cons] at h
      exact absurd (List.append_inj_left h (hlen _)) (hne _ (List.suffix_refl _) _ hn)

theorem replaceAllStringFunc_eq_self_iff {r : Regexp Str} (hr : consumes r = true)
    {f : Str → Str} (hlen : ∀ m, (f m).length = m.length) {s : Str}
    (hne : ∀ t, t <:+ runes s → ∀ n ∈ lengths r t, f (t.take n).flatten ≠ (t.take n).flatten) :
    replaceAllStringFunc r f s = s ↔ free r (runes s) = true := by
  constructor
  · intro h
    refine free_of_replace_eq hr hlen hne ?_
    rw [runes_flatten]
    exact h
  · intro h
    rw [replaceAllStringFunc, replace_of_free h, runes_flatten]

/-! ## Matching at the start of a text or of a line -/

/-- `MatchString` of `^r`, where what is behind the match must satisfy `next`. -/
def matchesThen (next : List α → Bool) (r : Regexp α) (s : List α) : Bool :=
  (lengths r s).any (fun n => next (s.drop n))

/-- `MatchString` of `^r`. -/
def matchesFront (r : Regexp α) (s : List α) : Bool := matchesThen (fun _ => true) r s

/-- `f` holds of what is behind some newline. -/
def anyBehind (isNewline : α → Bool) (f : List α → Bool) : List α → Bool
  | [] => false
  | c :: rest => (isNewline c && f rest) || anyBehind isNewline f rest

/-- With the flag `m` the `^` of a pattern stands for the start of any line. -/
def atLines (f : List Str → Bool) (s : Str) : Bool :=
  f (runes s) || anyBehind (fun x => x == [0x0A]) f (runes s)

theorem atLines_of_notMem {s : Str} (h : 0x0A ∉ s) (f : List Str → Bool) :
    atLines f s = f (runes s) := by
  have hnone : ∀ l : List Str, [0x0A] ∉ l → anyBehind (fun x => x == [0x0A]) f l = false := by
    intro l
    induction l with
    | nil => exact fun _ => rfl
    | cons x l ih =>
      intro hl
      rw [List.mem_cons, not_or] at hl
      have hx : (x == [0x0A]) = false := beq_eq_false_iff_ne.mpr fun heq => hl.1 heq.symm
      rw [anyBehind, ih hl.2, hx]
      rfl
  have hrune : [0x0A] ∉ runes s := by
    intro hmem
    refine h ?_
    rw [← runes_flatten s]
    exact List.mem_flatten.mpr ⟨_, hmem, List.mem_singleton_self _⟩
  rw [atLines, hnone _ hrune, Bool.or_false]

theorem head_of_matchesFront {p : α → Bool}
    (h : matchesFront (seq (atLeast (n + 1) p) r) s = true) :
    ∃ c rest, s = c :: rest ∧ p c = true := by
  obtain ⟨k, hk, -⟩ := List.any_eq_true.mp h
  obtain ⟨k, hk, -⟩ := mem_lengths_seq.mp hk
  obtain ⟨k, hk, -⟩ := mem_lengths_seq.mp hk
  obtain ⟨k, hk, -⟩ := mem_lengths_seq.mp hk
  cases s with
  | nil => cases hk
  | cons c rest =>
    refine ⟨c, rest, rfl, ?_⟩
    by_contra hp
    exact absurd hk (by simp [lengths, hp])

/-- `ReplaceAllString` of `^r` by nothing. -/
def dropFront (r : Regexp Str) (s : Str) : Str :=
  match (lengths r (runes s)).head? with
  | some n => ((runes s).drop n).flatten
  | none => s

theorem dropFront_sublist (r : Regexp Str) (s : Str) : (dropFront r s).Sublist s := by
  unfold dropFront
  cases (lengths r (runes s)).head? with
  | none => exact List.Sublist.refl s
  | some n =>
    have hsplit : s = ((runes s).take n).flatten ++ ((runes s).drop n).flatten := by
      rw [← List.flatten_append, List.take_append_drop, runes_flatten]
    conv_rhs => rw [hsplit]
    exact List.sublist_append_right _ _

/-- `ReplaceAllString` of `r` by nothing. -/
def removeAll (r : Regexp Str) (s : Str) : Str :=
  replaceAllStringFunc r (fun _ => []) s

theorem removeAll_sublist (r : Regexp Str) (s : Str) : (removeAll r s).Sublist s := by
  have hrule := replace_rule (R := fun a b => b.Sublist a) (fun x => List.Sublist.refl x)
    (fun _ _ _ _ h h' => h.append h') (fun m => List.nil_sublist m) r 0 (runes s)
  rw [List.drop_zero, runes_flatten] at hrule
  exact hrule

/-! ## Classes of runes -/

/-- The ASCII runes of a class. -/
def ascii (p : UInt8 → Bool) : Str → Bool
  | [c] => c < 0x80 && p c
  | _ => false

/-- A literal text of ASCII runes. -/
def literal (s : String) : Regexp Str := word ((lit s).map (fun b => ascii (· == b)))

def classOf (s : String) : Str → Bool := ascii (fun b => (lit s).contains b)

/-- `\d`. -/
def digit : Str → Bool := ascii isDigit

/-- `\d{n}`. -/
def digits (n : Nat) : Regexp Str := word (List.replicate n digit)

/-- `\s`. -/
def space : Str → Bool := classOf "\t\n\x0c\x0d "

/-- `.`. -/
def dot (x : Str) : Bool := x != [0x0A]

/-- The characters of words, as `\b` knows them. -/
def wordRune : Str → Bool :=
  ascii (fun b => isDigit b || (0x41 ≤ b && b ≤ 0x5A) || (0x61 ≤ b && b ≤ 0x7A) || b == 0x5F)

def inOrder (rs : List (Regexp Str)) : Regexp Str := rs.foldr seq empty

/-- The first of the expressions that matches. -/
def firstOf : List (Regexp Str) → Regexp Str
  | [] => one (fun _ => false)
  | [r] => r
  | r :: rs => alt r (firstOf rs)

end Regexp

end Go
