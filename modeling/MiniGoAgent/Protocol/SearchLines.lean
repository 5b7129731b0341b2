/-
# `Protocol.SearchLines` — keeping ten search results (`content_compress.go`)

`compressSearchResults` counts the numbered lines, which are the titles of results, and
leaves them out from the eleventh on.  It has no such rule for the lines between them, so
these stay, behind a title that is not theirs.

A `SearchText` is a text made of results, each a numbered line and whatever follows it;
`compressSearchResults_iff` says for which of them the first ten results are returned.
-/
import MiniGoAgent.Protocol.Detect

open Go

namespace MiniGoAgent

variable {line : Str} {n : Nat}

def maxSearchResults : Nat := 10

def isFiller (line : Str) : Bool :=
  trimSpace line == [] || (hasPrefix (trimSpace line) (lit "---") ||
    hasPrefix (trimSpace line) (lit "==="))

structure SearchState where
  b : Str := []
  count : Nat := 0

def searchStep (s : SearchState) (line : Str) : SearchState :=
  if trimSpace line = [] then s
  else if hasPrefix (trimSpace line) (lit "---") || hasPrefix (trimSpace line) (lit "===") then s
  else if reSearch line then
    if maxSearchResults ≤ s.count then s
    else { b := s.b ++ line ++ [newline], count := s.count + 1 }
  else if reURL line then { s with b := s.b ++ line ++ [newline] }
  else if 0 < s.count ∧ 0 < s.b.length then { s with b := s.b ++ line ++ [newline] }
  else s

def compressSearchResults (content : Str) : Str :=
  trimRight ((splitByte newline content).foldl searchStep {}).b (lit "\n")

/-! ## What the loop writes -/

/-- The lines that are written when `n` titles have been. -/
def keptFrom : Nat → List Str → List Str
  | _, [] => []
  | n, line :: rest =>
    if isFiller line then keptFrom n rest
    else if reSearch line then
      if maxSearchResults ≤ n then keptFrom n rest else line :: keptFrom (n + 1) rest
    else if reURL line || 0 < n then line :: keptFrom n rest
    else keptFrom n rest

theorem searchStep_filler (h : isFiller line = true) (s : SearchState) : searchStep s line = s := by
  rw [isFiller, Bool.or_eq_true, beq_iff_eq] at h
  rw [searchStep]
  by_cases hblank : trimSpace line = []
  · rw [if_pos hblank]
  · rw [if_neg hblank, if_pos (h.resolve_left hblank)]

theorem searchStep_line (h : isFiller line = false) (s : SearchState) :
    searchStep s line =
      if reSearch line then
        if maxSearchResults ≤ s.count then s
        else { b := s.b ++ line ++ [newline], count := s.count + 1 }
      else if reURL line then { s with b := s.b ++ line ++ [newline] }
      else if 0 < s.count ∧ 0 < s.b.length then { s with b := s.b ++ line ++ [newline] }
      else s := by
  rw [isFiller, Bool.or_eq_false_iff, beq_eq_false_iff_ne] at h
  rw [searchStep, if_neg h.1, h.2, if_neg Bool.false_ne_true]

theorem foldl_searchStep (s : SearchState) (hs : 0 < s.count → 0 < s.b.length) (lines : List Str) :
    (lines.foldl searchStep s).b = s.b ++ unlines (keptFrom s.count lines) := by
  induction lines generalizing s with
  | nil => exact (List.append_nil _).symm
  | cons line rest ih =>
    have hlength : 0 < (s.b ++ line ++ [newline]).length := by
      rw [List.length_append]
      exact Nat.succ_pos _
    have hline : ∀ n, s.b ++ line ++ [newline] ++ unlines (keptFrom n rest) =
        s.b ++ unlines (line :: keptFrom n rest) := by
      intro n
      rw [unlines_cons]
      simp
    rw [List.foldl_cons, keptFrom]
    by_cases hfiller : isFiller line = true
    · rw [searchStep_filler hfiller, if_pos hfiller, ih s hs]
    · rw [if_neg hfiller, searchStep_line (by simpa using hfiller)]
      by_cases htitle : reSearch line = true
      · rw [if_pos htitle, if_pos htitle]
        by_cases hfull : maxSearchResults ≤ s.count
        · rw [if_pos hfull, if_pos hfull, ih s hs]
        · rw [if_neg hfull, if_neg hfull, ih _ (fun _ => hlength), hline]
      · rw [if_neg htitle, if_neg htitle]
        by_cases hurl : reURL line = true
        · rw [if_pos hurl, hurl, Bool.true_or, if_pos rfl, ih _ (fun _ => hlength), hline]
        · rw [if_neg hurl, Bool.not_eq_true] at *
          rw [hurl, Bool.false_or]
          by_cases hcount : 0 < s.count
          · rw [if_pos ⟨hcount, hs hcount⟩, if_pos (decide_eq_true hcount),
              ih _ (fun _ => hlength), hline]
          · rw [if_neg (fun h => hcount h.1), if_neg (by simpa using hcount), ih s hs]

theorem keptFrom_sublist (n : Nat) (lines : List Str) :
    (keptFrom n lines).Sublist (lines.filter (fun l => !isFiller l)) := by
  induction lines generalizing n with
  | nil => exact List.Sublist.refl []
  | cons line rest ih =>
    rw [keptFrom, List.filter_cons]
    by_cases hfiller : isFiller line = true
    · rw [if_pos hfiller, hfiller]
      exact ih n
    · have hkeep : (!isFiller line) = true := by simpa using hfiller
      rw [if_neg hfiller, if_pos hkeep]
      split
      · split
        · exact (ih n).cons line
        · exact (ih (n + 1)).cons_cons line
      · split
        · exact (ih n).cons_cons line
        · exact (ih n).cons line

theorem compressSearchResults_eq (content : Str) :
    compressSearchResults content = joinLines (keptFrom 0 (splitByte newline content)) := by
  have hkept := keptFrom_sublist 0 (splitByte newline content)
  have hlines : ∀ l ∈ keptFrom 0 (splitByte newline content), newline ∉ l ∧ l ≠ [] := by
    intro l hl
    obtain ⟨hmem, hfiller⟩ := List.mem_filter.mp (hkept.subset hl)
    refine ⟨not_mem_of_mem_splitByte hmem, ?_⟩
    rintro rfl
    exact absurd hfiller (by decide)
  have hall : (keptFrom 0 (splitByte newline content)).rdropWhile List.isEmpty =
      keptFrom 0 (splitByte newline content) := by
    refine List.rdropWhile_eq_self_iff.mpr ?_
    intro hne hempty
    exact (hlines _ (List.getLast_mem hne)).2 (List.isEmpty_iff.mp hempty)
  rw [compressSearchResults, foldl_searchStep {} (fun h => absurd h (Nat.lt_irrefl 0)),
    List.nil_append, trimRight_unlines (fun l hl => (hlines l hl).1), hall]

/-! ## Ten titles -/

/-- The lines without the numbered ones that come when there have been ten. -/
def capped : Nat → List Str → List Str
  | _, [] => []
  | n, line :: rest =>
    if reSearch line then
      if maxSearchResults ≤ n then capped n rest else line :: capped (n + 1) rest
    else line :: capped n rest

theorem capped_sublist (n : Nat) (lines : List Str) : (capped n lines).Sublist lines := by
  induction lines generalizing n with
  | nil => exact List.Sublist.refl []
  | cons line rest ih =>
    rw [capped]
    split
    · split
      · exact (ih n).cons line
      · exact (ih (n + 1)).cons_cons line
    · exact (ih n).cons_cons line

theorem keptFrom_of_pos (hn : 0 < n) (lines : List Str) :
    keptFrom n lines = capped n (lines.filter (fun l => !isFiller l)) := by
  induction lines generalizing n with
  | nil => rfl
  | cons line rest ih =>
    rw [keptFrom, List.filter_cons]
    by_cases hfiller : isFiller line = true
    · rw [if_pos hfiller, hfiller, ih hn]
      rfl
    · have hkeep : (!isFiller line) = true := by simpa using hfiller
      rw [if_neg hfiller, if_pos hkeep, capped]
      by_cases htitle : reSearch line = true
      · rw [if_pos htitle, if_pos htitle, ih hn, ih (Nat.succ_pos n)]
      · have hpos : (reURL line || decide (0 < n)) = true := by
          rw [decide_eq_true hn, Bool.or_true]
        rw [if_neg htitle, if_neg htitle, if_pos hpos, ih hn]

theorem capped_of_full (hn : maxSearchResults ≤ n) (lines : List Str) :
    capped n lines = lines.filter (fun l => !reSearch l) := by
  induction lines with
  | nil => rfl
  | cons line rest ih =>
    rw [capped, List.filter_cons]
    by_cases htitle : reSearch line = true
    · rw [if_pos htitle, if_pos hn, ih, htitle]
      rfl
    · rw [if_neg htitle, if_pos (by simpa using htitle), ih]

theorem capped_append {a : List Str} (h : n + a.countP reSearch ≤ maxSearchResults)
    (b : List Str) : capped n (a ++ b) = a ++ capped (n + a.countP reSearch) b := by
  induction a generalizing n with
  | nil => rfl
  | cons line rest ih =>
    rw [List.countP_cons] at h ⊢
    rw [List.cons_append, capped]
    by_cases htitle : reSearch line = true
    · rw [if_pos htitle] at h ⊢
      rw [if_pos htitle, if_neg (by omega), ih (by omega), List.cons_append]
      congr 3
      omega
    · rw [if_neg htitle] at h ⊢
      rw [if_neg htitle, ih (by omega), List.cons_append]
      rfl

theorem countP_capped_le (h : n ≤ maxSearchResults) (lines : List Str) :
    n + (capped n lines).countP reSearch ≤ maxSearchResults := by
  induction lines generalizing n with
  | nil => exact h
  | cons line rest ih =>
    rw [capped]
    by_cases htitle : reSearch line = true
    · rw [if_pos htitle]
      by_cases hfull : maxSearchResults ≤ n
      · rw [if_pos hfull]
        exact ih h
      · have hnext := ih (n := n + 1) (by omega)
        rw [if_neg hfull, List.countP_cons_of_pos htitle]
        omega
    · rw [if_neg htitle, List.countP_cons_of_neg htitle]
      exact ih h

/-! ## Texts of search results -/

/-- A numbered line, and the lines that belong to it. -/
structure SearchResult where
  title : Str
  own : List Str
  numbered : reSearch title = true
  line : ∀ l ∈ title :: own, newline ∉ l

def SearchResult.lines (r : SearchResult) : List Str := r.title :: r.own

/-- Results, with lines before the first that are neither titles nor addresses. -/
structure SearchText where
  intro : List Str
  results : List SearchResult
  line : ∀ l ∈ intro, newline ∉ l
  plain : ∀ l ∈ intro, reSearch l = false ∧ reURL l = false

namespace SearchText

def text (t : SearchText) : Str := joinLines (t.intro ++ t.results.flatMap SearchResult.lines)

/-- The lines of the first ten results, without filler. -/
def firstTen (t : SearchText) : List Str :=
  ((t.results.take maxSearchResults).flatMap SearchResult.lines).filter (fun l => !isFiller l)

/-- The lines of the other results, without filler. -/
def others (t : SearchText) : List Str :=
  ((t.results.drop maxSearchResults).flatMap SearchResult.lines).filter (fun l => !isFiller l)

end SearchText

theorem not_isFiller_of_reSearch (hline : newline ∉ line)
    (h : reSearch line = true) : isFiller line = false := by
  rw [reSearch, Regexp.atLines_of_notMem hline] at h
  obtain ⟨x, rest, hx, hdigit⟩ := Regexp.head_of_matchesFront h
  obtain ⟨d, rfl, hd⟩ : ∃ d, x = [d] ∧ isDigit d = true := by
    match x, hdigit with
    | [d], hdigit => exact ⟨d, rfl, (Bool.and_eq_true_iff.mp hdigit).2⟩
  have hcons : line = d :: rest.flatten := by
    rw [← runes_flatten line, hx]
    rfl
  have hne : ∀ b : UInt8, isDigit b = false → b ≠ d := by
    rintro b hb rfl
    rw [hd] at hb
    cases hb
  have hspace : ∀ r ∈ spaceRunes, d ∉ r := by
    intro r hr hmem
    have hall : (spaceRunes.flatten).all (fun b => !isDigit b) = true := by decide
    have hnot := List.all_eq_true.mp hall d (List.mem_flatten.mpr ⟨r, hr, hmem⟩)
    rw [hd] at hnot
    cases hnot
  obtain ⟨t, ht⟩ := trimSpace_cons hspace rest.flatten
  have hruler : ∀ b : UInt8, isDigit b = false → ∀ bs, hasPrefix (d :: t) (b :: bs) = false := by
    intro b hb bs
    rw [hasPrefix, List.isPrefixOf_cons_cons, beq_eq_false_iff_ne.mpr (hne b hb), Bool.false_and]
  rw [isFiller, hcons, ht, show lit "---" = byte '-' :: lit "--" from by decide,
    show lit "===" = byte '=' :: lit "==" from by decide, hruler _ (by decide),
    hruler _ (by decide)]
  rfl

namespace SearchText

variable (t : SearchText)

theorem keptFrom_intro (rest : List Str) : keptFrom 0 (t.intro ++ rest) = keptFrom 0 rest := by
  have hskip : ∀ lines : List Str, (∀ l ∈ lines, reSearch l = false ∧ reURL l = false) →
      keptFrom 0 (lines ++ rest) = keptFrom 0 rest := by
    intro lines hplain
    induction lines with
    | nil => rfl
    | cons line lines ih =>
      obtain ⟨⟨htitle, hurl⟩, hlines⟩ := List.forall_mem_cons.mp hplain
      rw [List.cons_append, keptFrom, htitle, hurl, ih hlines]
      exact ite_self _
  exact hskip t.intro t.plain

theorem keptFrom_results (results : List SearchResult) :
    keptFrom 0 (results.flatMap SearchResult.lines) =
      capped 0 ((results.flatMap SearchResult.lines).filter (fun l => !isFiller l)) := by
  cases results with
  | nil => rfl
  | cons r results =>
    have hfiller : isFiller r.title = false :=
      not_isFiller_of_reSearch (r.line _ List.mem_cons_self) r.numbered
    have hzero : ¬ maxSearchResults ≤ 0 := by decide
    rw [List.flatMap_cons, SearchResult.lines, List.cons_append, keptFrom, List.filter_cons,
      hfiller, if_neg Bool.false_ne_true, if_pos r.numbered, if_neg hzero, Bool.not_false,
      if_pos rfl, capped,
      if_pos r.numbered, if_neg hzero, keptFrom_of_pos (Nat.succ_pos 0)]

theorem newline_notMem {l : Str} (h : l ∈ t.intro ++ t.results.flatMap SearchResult.lines) :
    newline ∉ l := by
  rcases List.mem_append.mp h with h | h
  · exact t.line l h
  · obtain ⟨r, -, hl⟩ := List.mem_flatMap.mp h
    exact r.line l hl

theorem compressSearchResults_text :
    compressSearchResults t.text = joinLines (capped 0 (t.firstTen ++ t.others)) := by
  have hsplit : t.firstTen ++ t.others =
      (t.results.flatMap SearchResult.lines).filter (fun l => !isFiller l) := by
    rw [firstTen, others, ← List.filter_append, ← List.flatMap_append, List.take_append_drop]
  have hkept : keptFrom 0 (t.intro ++ t.results.flatMap SearchResult.lines) =
      capped 0 (t.firstTen ++ t.others) := by
    rw [keptFrom_intro, keptFrom_results, hsplit]
  rw [compressSearchResults_eq, ← hkept, text]
  by_cases hne : t.intro ++ t.results.flatMap SearchResult.lines = []
  · rw [hne]
    rfl
  · rw [splitByte_joinLines hne (fun l => t.newline_notMem)]

theorem length_le_titles (results : List SearchResult) :
    results.length ≤
      ((results.flatMap SearchResult.lines).filter (fun l => !isFiller l)).countP reSearch := by
  induction results with
  | nil => exact Nat.le_refl 0
  | cons r results ih =>
    have hkeep : (!isFiller r.title) = true := by
      rw [not_isFiller_of_reSearch (r.line _ List.mem_cons_self) r.numbered]
      rfl
    rw [List.flatMap_cons, SearchResult.lines, List.cons_append, List.filter_cons, if_pos hkeep,
      List.countP_cons_of_pos r.numbered, List.filter_append, List.countP_append, List.length_cons]
    omega

theorem full_of_mem_drop {r : SearchResult} (h : r ∈ t.results.drop maxSearchResults) :
    maxSearchResults ≤ t.firstTen.countP reSearch := by
  have hlength : maxSearchResults < t.results.length := by
    by_contra hle
    rw [List.drop_eq_nil_of_le (Nat.le_of_not_lt hle)] at h
    cases h
  have htitles := length_le_titles (t.results.take maxSearchResults)
  rw [List.length_take_of_le hlength.le] at htitles
  exact htitles

theorem capped_others_eq_nil_iff
    (hn : ∀ r ∈ t.results.drop maxSearchResults, maxSearchResults ≤ n) :
    capped n t.others = [] ↔ ∀ r ∈ t.results.drop maxSearchResults, ∀ l ∈ r.own,
      isFiller l = true ∨ reSearch l = true := by
  have hothers : ∀ {l}, l ∈ t.others ↔
      (∃ r ∈ t.results.drop maxSearchResults, l ∈ r.lines) ∧ isFiller l = false := by
    intro l
    rw [others, List.mem_filter, List.mem_flatMap, Bool.not_eq_true']
  constructor
  · intro hnil r hr l hl
    rw [capped_of_full (hn r hr)] at hnil
    by_cases hfiller : isFiller l = true
    · exact .inl hfiller
    · have hmem : l ∈ t.others :=
        hothers.mpr ⟨⟨r, hr, List.mem_cons_of_mem _ hl⟩, Bool.not_eq_true _ ▸ hfiller⟩
      exact .inr (by simpa using List.filter_eq_nil_iff.mp hnil l hmem)
  · intro hall
    cases hdrop : t.others with
    | nil => rfl
    | cons first rest =>
      obtain ⟨⟨r, hr, -⟩, -⟩ := hothers.mp (hdrop ▸ List.mem_cons_self)
      rw [capped_of_full (hn r hr), ← hdrop]
      refine List.filter_eq_nil_iff.mpr ?_
      intro l hl
      obtain ⟨⟨r, hr, hline⟩, hfiller⟩ := hothers.mp hl
      have htitle : reSearch l = true := by
        rcases List.mem_cons.mp hline with rfl | hown
        · exact r.numbered
        · exact (hall r hr l hown).resolve_left (by rw [hfiller]; exact Bool.false_ne_true)
      rw [htitle]
      exact Bool.false_ne_true

theorem joinLines_inj {a b : List Str} (ha : ∀ l ∈ a, newline ∉ l ∧ isFiller l = false)
    (hb : ∀ l ∈ b, newline ∉ l ∧ isFiller l = false) (h : joinLines a = joinLines b) : a = b := by
  have hback : ∀ {ls : List Str}, (∀ l ∈ ls, newline ∉ l ∧ isFiller l = false) →
      linesOf (joinLines ls) = ls := by
    intro ls hls
    refine linesOf_joinLines (fun l hl => (hls l hl).1) ?_
    intro hlast
    exact absurd (hls _ (List.mem_of_getLast? hlast)).2 (by decide)
  rw [← hback ha, h, hback hb]

end SearchText

/-- The first ten results are returned, without filler and with nothing else, exactly if they
have no more than ten numbered lines and the results after them have no line that is neither
filler nor numbered. -/
theorem compressSearchResults_iff (t : SearchText) :
    compressSearchResults t.text = joinLines t.firstTen ↔
      t.firstTen.countP reSearch ≤ maxSearchResults ∧
        ∀ r ∈ t.results.drop maxSearchResults, ∀ l ∈ r.own, isFiller l = true ∨
          reSearch l = true := by
  have hline : ∀ l ∈ t.firstTen ++ t.others, newline ∉ l ∧ isFiller l = false := by
    intro l hl
    rw [SearchText.firstTen, SearchText.others, ← List.filter_append, ← List.flatMap_append,
      List.take_append_drop, List.mem_filter, Bool.not_eq_true'] at hl
    exact ⟨t.newline_notMem (List.mem_append_right _ hl.1), hl.2⟩
  rw [t.compressSearchResults_text]
  constructor
  · intro heq
    have hlines : capped 0 (t.firstTen ++ t.others) = t.firstTen :=
      SearchText.joinLines_inj (fun l hl => hline l ((capped_sublist 0 _).subset hl))
        (fun l hl => hline l (List.mem_append_left _ hl)) heq
    have hten : t.firstTen.countP reSearch ≤ maxSearchResults := by
      have hle := countP_capped_le (Nat.zero_le maxSearchResults) (t.firstTen ++ t.others)
      rw [hlines, Nat.zero_add] at hle
      exact hle
    refine ⟨hten, ?_⟩
    rw [capped_append (by rwa [Nat.zero_add]), Nat.zero_add] at hlines
    exact (t.capped_others_eq_nil_iff (fun r hr => t.full_of_mem_drop hr)).mp
      (List.append_right_eq_self.mp hlines)
  · rintro ⟨hten, hothers⟩
    rw [capped_append (by rwa [Nat.zero_add]), Nat.zero_add,
      (t.capped_others_eq_nil_iff (fun r hr => t.full_of_mem_drop hr)).mpr hothers, List.append_nil]

def firstHit : SearchResult where
  title := lit "1. first"
  own := [lit "   URL: https://first.org", []]
  numbered := by decide
  line := by decide

def lastHit : SearchResult where
  title := lit "11. last"
  own := [lit "   URL: https://last.org", []]
  numbered := by decide
  line := by decide

/-- Ten times the same result, and another one. -/
def elevenHits : SearchText where
  intro := []
  results := List.replicate 10 firstHit ++ [lastHit]
  line := by simp
  plain := by simp

/-- The address of the eleventh result is written behind the title of the tenth. -/
theorem compressSearchResults_eleven :
    compressSearchResults elevenHits.text = joinLines (elevenHits.firstTen ++
      [lit "   URL: https://last.org"]) ∧
    elevenHits.firstTen =
      (List.replicate 10 [lit "1. first", lit "   URL: https://first.org"]).flatten ∧
    compressSearchResults elevenHits.text ≠ joinLines elevenHits.firstTen := by
  refine ⟨?_, ?_, ?_⟩ <;> decide +kernel

end MiniGoAgent
