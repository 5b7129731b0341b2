/-
# `Tools.Pages` — the lines `ReadFile` returns (`tools/fileops.go`)

`ReadFile` cuts the lines from `Offset` on, `Limit` of them.  Where the end of the slice is
not an `int` any more, the sum wraps around and the slice expression panics; everywhere
else the right lines come back under their numbers.  `readFile_lines_iff` says both, for a
single call and for reading a file page by page.
-/
import MiniGoAgent.Go.Num
import MiniGoAgent.Tools.FileOps

open Go

namespace MiniGoAgent

namespace Tools

def numbered (lines : List Str) : List Str :=
  lines.mapIdx fun i line => itoa (i + 1) ++ lit ": " ++ line ++ lit "\n"

/-- The numbered lines `a` to `b`. -/
def linesFromTo (a b : Nat) (lines : List Str) : Str :=
  (((numbered lines).take b).drop (a - 1)).flatten

/-- The number of the first line that is asked for. -/
def firstLine (offset : Int) : Nat := (max offset 1).toNat

/-- The number of the last line that is to be returned. -/
def lastLine (offset limit : Int) (n : Nat) : Nat :=
  if limit ≤ 0 then n else min (firstLine offset + limit.toNat - 1) n

/-- What `ReadFile` is to return for a file of these lines. -/
structure ReadRight (offset limit : Int) (lines : List Str)
    (result : Option (Except Str Str)) : Prop where
  returns : result ≠ none
  fails : (∃ err, result = some (.error err)) ↔ lines.length < firstLine offset
  text : ∀ text, result = some (.ok text) →
    text = linesFromTo (firstLine offset) (lastLine offset limit lines.length) lines

/-- The results of a reading by pages of `k` lines, for a file of `n` lines. -/
def readPages (read : Int → Int → Option (Except Str Str)) (k n : Nat) :
    List (Option (Except Str Str)) :=
  (List.range ((n + k - 1) / k)).map fun (i : Nat) => read (i * k + 1) k

/-- The pages make up the file. -/
def PagesRight (lines : List Str) (pages : List (Option (Except Str Str))) : Prop :=
  ∃ texts : List Str, pages = texts.map (fun text => some (.ok text)) ∧
    texts.flatten = linesFromTo 1 lines.length lines

/-- The end of the slice is an `int`. -/
def EndFits (offset limit : Int) : Prop := (firstLine offset : Int) - 1 + limit < 2 ^ 63

section Slice

variable {offset limit : Int} {lines : List Str}

theorem numberLines_eq (a m : Nat) :
    numberLines a ((lines.drop a).take m) = (((numbered lines).drop a).take m).flatten := by
  rw [numberLines, List.flatMap_def]
  refine congrArg List.flatten (List.ext_getElem (by simp [numbered]) ?_)
  intro i hi hi'
  simp [numbered]

theorem numberLines_linesFromTo {a b : Nat} (ha : 1 ≤ a) :
    numberLines (a - 1 : Nat) ((lines.drop (a - 1)).take (b + 1 - a)) = linesFromTo a b lines := by
  rw [numberLines_eq, linesFromTo, List.drop_take, show b - (a - 1) = b + 1 - a by omega]

theorem one_le_firstLine (offset : Int) : 1 ≤ firstLine offset := by
  unfold firstLine
  omega

theorem start_eq (offset : Int) :
    (if 1 < offset then offset - 1 else 0) = ((firstLine offset - 1 : Nat) : Int) := by
  unfold firstLine
  split <;> omega

theorem selectLines_panic (hlimit : 0 < limit ∧ limit < 2 ^ 63) (hoffset : offset < 2 ^ 63)
    (hstart : firstLine offset ≤ lines.length) (hend : ¬ EndFits offset limit) :
    selectLines offset limit lines = none := by
  have hone := one_le_firstLine offset
  have hfirst : (firstLine offset : Int) < 2 ^ 63 := by
    unfold firstLine
    omega
  unfold EndFits at hend
  have hwrap : wrap64 ((firstLine offset - 1 : Nat) + limit) < 0 := by
    have hshift : wrap64 ((firstLine offset - 1 : Nat) + limit) =
        wrap64 ((firstLine offset - 1 : Nat) + limit - 2 ^ 64) := (Int.sub_bmod_right ..).symm
    rw [hshift, wrap64_eq_self (by omega) (by omega)]
    omega
  unfold selectLines
  rw [start_eq]
  dsimp only
  rw [if_neg (by omega), if_pos ⟨hlimit.1, by omega⟩, if_pos (by omega)]

theorem selectLines_ok (hstart : firstLine offset ≤ lines.length)
    (hend : limit ≤ 0 ∨ EndFits offset limit) :
    selectLines offset limit lines =
      some (.ok (linesFromTo (firstLine offset) (lastLine offset limit lines.length) lines)) := by
  have hone := one_le_firstLine offset
  unfold selectLines
  rw [start_eq]
  dsimp only
  rw [if_neg (by omega), ← numberLines_linesFromTo hone]
  have hall : ∀ b, lines.length ≤ b →
      (lines.drop (firstLine offset - 1)).take (b + 1 - firstLine offset) =
        lines.drop (firstLine offset - 1) := by
    intro b hb
    exact List.take_of_length_le (by rw [List.length_drop]; omega)
  unfold lastLine
  by_cases hlimit : limit ≤ 0
  · rw [if_neg (by omega), if_pos hlimit, hall _ le_rfl, Int.toNat_natCast]
  · have hwrap : wrap64 ((firstLine offset - 1 : Nat) + limit) =
        (firstLine offset - 1 : Nat) + limit := by
      unfold EndFits at hend
      exact wrap64_eq_self (by omega) (by omega)
    rw [hwrap, if_neg hlimit, Int.toNat_natCast]
    split
    · rw [if_neg (by omega), Nat.min_eq_left (by omega),
        show firstLine offset + limit.toNat - 1 + 1 - firstLine offset = limit.toNat by omega]
    · rw [hall _ (by omega)]

theorem selectLines_fails (limit : Int) (hstart : lines.length < firstLine offset) :
    ∃ err, selectLines offset limit lines = some (.error err) := by
  unfold selectLines
  rw [start_eq]
  exact ⟨_, if_pos (by omega)⟩

theorem selectLines_right_iff (hoffset : offset < 2 ^ 63) (hlimit : limit < 2 ^ 63) :
    ReadRight offset limit lines (selectLines offset limit lines) ↔
      (firstLine offset ≤ lines.length → 0 < limit → EndFits offset limit) := by
  constructor
  · intro h hstart hpos
    by_contra hend
    exact h.returns (selectLines_panic ⟨hpos, hlimit⟩ hoffset hstart hend)
  · intro hend
    by_cases hstart : firstLine offset ≤ lines.length
    · have hfits : limit ≤ 0 ∨ EndFits offset limit := by
        by_cases hpos : 0 < limit
        · exact .inr (hend hstart hpos)
        · exact .inl (by omega)
      rw [selectLines_ok hstart hfits]
      refine ⟨by simp, iff_of_false (by simp) (by omega), ?_⟩
      rintro _ ⟨⟩
      rfl
    · obtain ⟨err, herr⟩ := selectLines_fails limit (not_le.mp hstart)
      rw [herr]
      exact ⟨by simp, iff_of_true ⟨_, rfl⟩ (by omega), by simp⟩

/-! ## Pages -/

theorem lt_pages_iff {i k n : Nat} (hk : 0 < k) : i < (n + k - 1) / k ↔ i * k < n := by
  rw [← Nat.add_one_le_iff, Nat.le_div_iff_mul_le hk, Nat.add_mul]
  omega

theorem linesFromTo_page (i : Nat) {k : Nat} (hk : 0 < k) :
    linesFromTo (firstLine (i * k + 1)) (lastLine (i * k + 1) k lines.length) lines =
      (((numbered lines).drop (i * k)).take k).flatten := by
  have hfirst : firstLine (i * k + 1) = i * k + 1 := by
    unfold firstLine
    omega
  have hlen : (numbered lines).length = lines.length := List.length_mapIdx
  unfold linesFromTo lastLine
  rw [hfirst, Int.toNat_natCast, List.drop_take, Nat.add_sub_cancel, if_neg (by omega)]
  refine congrArg List.flatten (List.take_eq_take_iff.mpr ?_)
  rw [List.length_drop, hlen]
  omega

theorem pages_flatten (k m : Nat) :
    ((List.range m).map fun i => (((numbered lines).drop (i * k)).take k).flatten).flatten =
      ((numbered lines).take (m * k)).flatten := by
  induction m with
  | zero => simp
  | succ m ih =>
    rw [List.range_succ, List.map_append, List.flatten_append, ih, Nat.add_mul, Nat.one_mul,
      List.take_add, List.flatten_append]
    simp

theorem pages_right_iff {k : Nat} (hk : 0 < k) (hlimit : (k : Int) < 2 ^ 63)
    (hlen : lines.length < 2 ^ 63) :
    PagesRight lines (readPages (selectLines · · lines) k lines.length) ↔
      ∀ i : Nat, i * k < lines.length → EndFits (i * k + 1) k := by
  have hstart : ∀ {i : Nat}, i * k < lines.length → firstLine (i * k + 1) ≤ lines.length := by
    intro i hi
    unfold firstLine
    omega
  constructor
  · rintro ⟨texts, htexts, _⟩ i hi
    by_contra hend
    have hpage : selectLines (i * k + 1) k lines ∈
        texts.map (fun text => some (Except.ok (ε := Str) text)) := by
      rw [← htexts]
      exact List.mem_map.mpr ⟨i, List.mem_range.mpr ((lt_pages_iff hk).mpr hi), rfl⟩
    rw [selectLines_panic ⟨by omega, hlimit⟩ (by omega) (hstart hi) hend] at hpage
    simp at hpage
  · intro hend
    refine ⟨(List.range ((lines.length + k - 1) / k)).map fun i =>
      (((numbered lines).drop (i * k)).take k).flatten, ?_, ?_⟩
    · rw [readPages, List.map_map]
      refine List.map_congr_left fun i hi => ?_
      have hin := (lt_pages_iff hk).mp (List.mem_range.mp hi)
      rw [selectLines_ok (hstart hin) (.inr (hend i hin)), linesFromTo_page i hk]
      rfl
    · have hall := mt (lt_pages_iff (i := (lines.length + k - 1) / k) hk).mpr (lt_irrefl _)
      have hnum : (numbered lines).length = lines.length := List.length_mapIdx
      rw [pages_flatten, linesFromTo, List.take_of_length_le (by omega),
        List.take_of_length_le (by omega)]
      rfl

end Slice

/-- For every file, single calls and pages come out right exactly if no slice ends beyond
the `int`s. -/
theorem readFile_lines_iff {workspaceRoot path p data : Str}
    {getwd : Except Str Path.WorkDir} {disk : Disk}
    (hvalid : validatePath workspaceRoot getwd path = .ok p) (hread : disk.readFile p = .ok data)
    (hlen : (splitByte (byte '\n') data).length < 2 ^ 63) :
    (∀ offset limit : Int, -2 ^ 63 ≤ offset → offset < 2 ^ 63 → -2 ^ 63 ≤ limit → limit < 2 ^ 63 →
      (ReadRight offset limit (splitByte (byte '\n') data)
          (readFile workspaceRoot getwd disk path offset limit).result ↔
        (firstLine offset ≤ (splitByte (byte '\n') data).length → 0 < limit →
          EndFits offset limit))) ∧
    (∀ k : Nat, 0 < k → k < 2 ^ 63 →
      (PagesRight (splitByte (byte '\n') data)
          (readPages
            (fun offset limit => (readFile workspaceRoot getwd disk path offset limit).result) k
            (splitByte (byte '\n') data).length) ↔
        ∀ i : Nat, i * k < (splitByte (byte '\n') data).length → EndFits (i * k + 1) k)) := by
  have hresult : ∀ offset limit, (readFile workspaceRoot getwd disk path offset limit).result =
      selectLines offset limit (splitByte (byte '\n') data) := by
    intro offset limit
    unfold readFile onValidPath
    rw [hvalid]
    dsimp only
    rw [hread]
  simp only [hresult]
  refine ⟨?_, ?_⟩
  · intro offset limit _ hoffset _ hlimit
    exact selectLines_right_iff hoffset hlimit
  · intro k hk hlimit
    exact pages_right_iff hk (by omega) hlen

/-- Every path is a file of two lines. -/
def twoLines : Disk where
  readFile _ := .ok (lit "a\nb")
  mkdirAll _ := none
  writeFile _ _ := none

theorem readFile_lines_second : ReadRight 2 1 [lit "a", lit "b"]
    (readFile (lit "/") atRoot twoLines (lit "/f") 2 1).result := by
  have hvalid : validatePath (lit "/") atRoot (lit "/f") = .ok (lit "/f") := by decide +kernel
  have hread : twoLines.readFile (lit "/f") = .ok (lit "a\nb") := rfl
  have hright := (readFile_lines_iff hvalid hread (by decide +kernel)).1 2 1 (by decide)
    (by decide) (by decide) (by decide)
  refine hright.mpr fun _ _ => ?_
  unfold EndFits
  decide

/-- From the second line on, with the largest limit: the call panics. -/
theorem readFile_largest_limit :
    (readFile (lit "/") atRoot twoLines (lit "/f") 2 (2 ^ 63 - 1)).result = none ∧
      ¬ ReadRight 2 (2 ^ 63 - 1) [lit "a", lit "b"]
        (readFile (lit "/") atRoot twoLines (lit "/f") 2 (2 ^ 63 - 1)).result := by
  have hpanic : (readFile (lit "/") atRoot twoLines (lit "/f") 2 (2 ^ 63 - 1)).result = none := by
    decide +kernel
  exact ⟨hpanic, fun h => h.returns hpanic⟩

end Tools

end MiniGoAgent
