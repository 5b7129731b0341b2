/-
# `Go.JsonPrint` — `json.Marshal` and back

What `json.Marshal` writes is the text of a document without white space:
`Value.doc v`.  The members of an object stand in the order the value has them, which
is the order of the fields for a struct; a map is written in the order of its keys, and
`Value.sorted` puts a value into that order (`print_sorted`: the text is then the one of
`encode`).

Read again the text gives the value back, with U+FFFD for every byte of its keys and
strings that is not UTF-8 (`parse_print`).
-/
import MiniGoAgent.Go.JsonParse

namespace Go.Json

open Scanner (isEscape)

/-! ## Strings -/

theorem IsRaw.append {a b : Str} (ha : IsRaw a) (hb : IsRaw b) : IsRaw (a ++ b) := by
  induction ha with
  | nil => exact hb
  | plain hquote hback hctl _ ih => exact .plain hquote hback hctl ih
  | escape he _ ih => exact .escape he ih
  | unicode hw hx hy hz _ ih => exact .unicode hw hx hy hz ih

theorem byte_facts :
    (∀ n : Fin 256, (hexByte (UInt8.ofNat n)).map unhex =
      [some ((UInt8.ofNat n).toNat / 16), some ((UInt8.ofNat n).toNat % 16)]) ∧
    (∀ n : Fin 256, UInt8.ofNat n < 0x80 →
      encodeRune (UInt8.ofNat n).toNat = [UInt8.ofNat n]) := by
  decide +kernel

theorem hexByte_eq (b : UInt8) :
    ∃ x y, hexByte b = [x, y] ∧ unhex x = some (b.toNat / 16) ∧ unhex y = some (b.toNat % 16) := by
  have h : (hexByte b).map unhex = [some (b.toNat / 16), some (b.toNat % 16)] :=
    forall_byte (P := fun b => (hexByte b).map unhex =
      [some (b.toNat / 16), some (b.toNat % 16)]) byte_facts.1 b
  obtain ⟨x, l, hl, hx, h⟩ := List.map_eq_cons_iff.mp h
  obtain ⟨y, l', rfl, hy, h⟩ := List.map_eq_cons_iff.mp h
  obtain rfl := List.map_eq_nil_iff.mp h
  exact ⟨x, y, hl, hx, hy⟩

theorem rounds_unicode {a b c d : UInt8} {n : Nat}
    (h : ∀ t, hex4 (a :: b :: c :: d :: t) = some (n, t)) (hn : ¬ (0xD800 ≤ n ∧ n < 0xDC00)) :
    Rounds [byte '\\', byte 'u', a, b, c, d] (encodeRune n) := by
  intro fuel more
  have hround := unquote_unicode fuel (h more)
  have hlow : lowHalf n more = none := by rw [lowHalf.eq_def, if_neg hn]
  rw [hlow] at hround
  exact hround

/-- The text `x` may stand in a string, and is read as `u`. -/
structure Writes (x u : Str) : Prop where
  nonempty : x ≠ []
  raw : IsRaw x
  rounds : Rounds x u

theorem writes_escape {e : UInt8} (he : isEscape e = true) : Writes [byte '\\', e] [unescape e] :=
  ⟨by simp, .escape he .nil, rounds_escape (ne_u_of_isEscape he)⟩

theorem writes_unicode {a b c d : UInt8} {w x y z : Nat} (ha : unhex a = some w)
    (hb : unhex b = some x) (hc : unhex c = some y) (hd : unhex d = some z)
    (hn : ¬ (0xD800 ≤ ((w * 16 + x) * 16 + y) * 16 + z ∧
      ((w * 16 + x) * 16 + y) * 16 + z < 0xDC00)) :
    Writes [byte '\\', byte 'u', a, b, c, d] (encodeRune (((w * 16 + x) * 16 + y) * 16 + z)) := by
  refine ⟨by simp, .unicode (by simp [ha]) (by simp [hb]) (by simp [hc]) (by simp [hd]) .nil,
    rounds_unicode ?_ hn⟩
  intro t
  simp [hex4, ha, hb, hc, hd]

theorem isRune_ascii {b : UInt8} (hb : b < 0x80) : IsRune [b] := by
  refine ⟨by simp, ?_⟩
  simp [runeLen, hb]

theorem writes_escapeByte {b : UInt8} (hb : b < 0x80) : Writes (escapeByte b) [b] := by
  unfold escapeByte
  split_ifs with hself hbs hff hlf hcr htab hhex
  · have hunescape : unescape b = b := by rcases hself with rfl | rfl <;> decide
    have hwrites := writes_escape (show isEscape b = true by rcases hself with rfl | rfl <;> decide)
    rwa [hunescape] at hwrites
  · subst hbs
    exact writes_escape (show isEscape (byte 'b') = true by decide)
  · subst hff
    exact writes_escape (show isEscape (byte 'f') = true by decide)
  · subst hlf
    exact writes_escape (show isEscape (byte 'n') = true by decide)
  · subst hcr
    exact writes_escape (show isEscape (byte 'r') = true by decide)
  · subst htab
    exact writes_escape (show isEscape (byte 't') = true by decide)
  · obtain ⟨x, y, hxy, hx, hy⟩ := hexByte_eq b
    have hsplit : ((0 * 16 + 0) * 16 + b.toNat / 16) * 16 + b.toNat % 16 = b.toNat := by omega
    have hsmall : b.toNat < 128 := hb
    have hwrites := writes_unicode (show unhex (byte '0') = some 0 by decide)
      (show unhex (byte '0') = some 0 by decide) hx hy (by rw [hsplit]; omega)
    have hrune : encodeRune b.toNat = [b] :=
      forall_byte (P := fun b => b < 0x80 → encodeRune b.toNat = [b]) byte_facts.2 b hb
    rw [hsplit, hrune] at hwrites
    rw [hxy]
    exact hwrites
  · have hne := not_or.mp hself
    have hctl : ¬ b < 0x20 := fun h => hhex (Or.inl h)
    refine ⟨by simp, .plain (by simpa using hne.1) (by simpa using hne.2) hctl .nil, ?_⟩
    exact rounds_rune (isRune_ascii hb) (by simpa using hne.1) (by simpa using hne.2)

theorem isRaw_high {x : Str} (h : ∀ b ∈ x, 0x80 ≤ b) : IsRaw x := by
  induction x with
  | nil => exact .nil
  | cons b x ih =>
    obtain ⟨hb, hx⟩ := List.forall_mem_cons.mp h
    refine .plain (ne_of_high hb (by decide)) (ne_of_high hb (by decide)) ?_ (ih hx)
    intro hctl
    exact not_le_ascii (UInt8.lt_trans hctl (by decide)) (UInt8.le_refl _) hb

theorem writes_rune {x : Str} (h : IsRune x) (hhigh : ∀ b ∈ x, 0x80 ≤ b) : Writes x x := by
  have hhead : ∀ c : UInt8, c < 0x80 → x.head? ≠ some c := by
    intro c hc heq
    have hmem : c ∈ x := List.mem_of_mem_head? heq
    exact not_le_ascii hc (UInt8.le_refl _) (hhigh c hmem)
  exact ⟨h.1, isRaw_high hhigh, rounds_rune h (hhead _ (by decide)) (hhead _ (by decide))⟩

theorem writes_escapeRune (c : UInt8) (rest : Str) :
    Writes (escapeRune (c :: rest.take (runeTail (c :: rest))))
      (validRune (c :: rest.take (runeTail (c :: rest)))) := by
  by_cases hc : c < 0x80
  · have hrune : validRune [c] = [c] := by
      rw [validRune, (isRune_ascii hc).2]
      rfl
    rw [runeTail_ascii hc, List.take_zero, escapeRune_ascii hc, hrune]
    exact writes_escapeByte hc
  · have hhigh : ∀ b ∈ c :: rest.take (runeTail (c :: rest)), 0x80 ≤ b := by
      refine List.forall_mem_cons.mpr ⟨UInt8.not_lt.mp hc, ?_⟩
      intro b hb
      exact le_of_mem_runeTail hb
    rcases isRune_or c rest with hrune | ⟨hbyte, hlen⟩
    · generalize c :: rest.take (runeTail (c :: rest)) = x at hrune hhigh
      have hvalid : validRune x = x := by
        rw [validRune, hrune.2, if_neg]
        exact fun h => hrune.1 (List.eq_nil_of_length_eq_zero h)
      have hlong : x.length ≠ 1 := by
        intro hone
        obtain ⟨b, rfl⟩ := List.length_eq_one_iff.mp hone
        have hb : ¬ b < 0x80 := UInt8.not_lt.mpr (hhigh b (List.mem_singleton_self b))
        exact absurd hrune.2 (by simp [runeLen, hb])
      rw [hvalid, escapeRune, if_neg hlong]
      split_ifs with hline hpara
      · subst hline
        exact writes_unicode (show unhex (byte '2') = some 2 by decide)
          (show unhex (byte '0') = some 0 by decide) (show unhex (byte '2') = some 2 by decide)
          (show unhex (byte '8') = some 8 by decide) (by decide)
      · subst hpara
        exact writes_unicode (show unhex (byte '2') = some 2 by decide)
          (show unhex (byte '0') = some 0 by decide) (show unhex (byte '2') = some 2 by decide)
          (show unhex (byte '9') = some 9 by decide) (by decide)
      · exact writes_rune hrune hhigh
    · have hescape : escapeRune [c] = lit "\\ufffd" := by simp [escapeRune, hc]
      rw [hbyte, hescape, validRune, if_pos hlen]
      exact writes_unicode (show unhex (byte 'f') = some 15 by decide)
        (show unhex (byte 'f') = some 15 by decide) (show unhex (byte 'f') = some 15 by decide)
        (show unhex (byte 'd') = some 13 by decide) (by decide)

theorem escape_cons (c : UInt8) (rest : Str) :
    escape (c :: rest) = escapeRune (c :: rest.take (runeTail (c :: rest))) ++
      escape (rest.drop (runeTail (c :: rest))) := by
  rw [escape, runes_cons]
  rfl

theorem isRaw_escape (s : Str) : IsRaw (escape s) := by
  induction s using runes_induction with
  | nil => exact .nil
  | cons c rest ih =>
    rw [escape_cons]
    exact (writes_escapeRune c rest).raw.append ih

theorem unquotes_escape (s : Str) : Unquotes (escape s) (toValid s) := by
  induction s using runes_induction with
  | nil => exact unquotes_nil
  | cons c rest ih =>
    have hwrites := writes_escapeRune c rest
    rw [escape_cons, toValid_cons]
    refine ih.step ?_ ?_
    · have hpos := List.length_pos_of_ne_nil hwrites.nonempty
      rw [List.length_append]
      omega
    · intro fuel more
      exact hwrites.rounds fuel _

theorem decodeRaw_escape (s : Str) : decodeRaw (escape s) = toValid s :=
  decodeRaw_eq (unquotes_escape s)

/-! ## Values -/

mutual

/-- The document `json.Marshal` writes. -/
def Value.doc : Value → Doc
  | .null => .word .null
  | .bool b => .word (if b then .true else .false)
  | .num l => .num l
  | .str s => .str (escape s)
  | .arr xs => .node .arr [] (elementItems xs)
  | .obj ms => .node .obj [] (memberItems ms)

def elementItems : List Value → List (Head × Doc × Str)
  | [] => []
  | x :: xs => (⟨[], none⟩, x.doc, []) :: elementItems xs

def memberItems : List (Str × Value) → List (Head × Doc × Str)
  | [] => []
  | (k, v) :: ms => (⟨[], some ⟨escape k, [], []⟩⟩, v.doc, []) :: memberItems ms

end

def Value.print (v : Value) : Str := v.doc.text

mutual

/-- The value with U+FFFD for what is not UTF-8 in its keys and strings. -/
def Value.utf8 : Value → Value
  | .null => .null
  | .bool b => .bool b
  | .num l => .num l
  | .str s => .str (toValid s)
  | .arr xs => .arr (utf8Elements xs)
  | .obj ms => .obj (utf8Members ms)

def utf8Elements : List Value → List Value
  | [] => []
  | x :: xs => x.utf8 :: utf8Elements xs

def utf8Members : List (Str × Value) → List (Str × Value)
  | [] => []
  | (k, v) :: ms => (toValid k, v.utf8) :: utf8Members ms

end

mutual

/-- The numbers of the value are number literals. -/
def Value.NumbersOk : Value → Prop
  | .num l => IsNumber l
  | .arr xs => ElementsOk xs
  | .obj ms => MembersOk ms
  | _ => True

def ElementsOk : List Value → Prop
  | [] => True
  | x :: xs => x.NumbersOk ∧ ElementsOk xs

def MembersOk : List (Str × Value) → Prop
  | [] => True
  | (_, v) :: ms => v.NumbersOk ∧ MembersOk ms

end

mutual

theorem Value.wf_doc : (v : Value) → v.NumbersOk → v.doc.WF
  | .null, _ => trivial
  | .bool _, _ => trivial
  | .num _, h => h
  | .str s, _ => isRaw_escape s
  | .arr xs, h => ⟨isBlank_nil, fun _ => rfl, wf_elementItems xs h⟩
  | .obj ms, h => ⟨isBlank_nil, fun _ => rfl, wf_memberItems ms h⟩

theorem wf_elementItems : (xs : List Value) → ElementsOk xs → ItemsWF .arr (elementItems xs)
  | [], _ => trivial
  | x :: xs, h =>
    ⟨⟨⟨isBlank_nil, trivial⟩, x.wf_doc h.1, isBlank_nil⟩, wf_elementItems xs h.2⟩

theorem wf_memberItems : (ms : List (Str × Value)) → MembersOk ms →
    ItemsWF .obj (memberItems ms)
  | [], _ => trivial
  | (k, v) :: ms, h =>
    ⟨⟨⟨isBlank_nil, ⟨isRaw_escape k, isBlank_nil, isBlank_nil⟩⟩, v.wf_doc h.1, isBlank_nil⟩,
      wf_memberItems ms h.2⟩

end

mutual

theorem Value.value_doc : (v : Value) → v.doc.value = v.utf8
  | .null => rfl
  | .bool b => by cases b <;> rfl
  | .num _ => rfl
  | .str s => by rw [Value.doc, Doc.value, decodeRaw_escape, Value.utf8]
  | .arr xs => by rw [Value.doc, Doc.value, itemValues_elementItems xs, Value.utf8]
  | .obj ms => by rw [Value.doc, Doc.value, itemMembers_memberItems ms, Value.utf8]

theorem itemValues_elementItems : (xs : List Value) →
    itemValues (elementItems xs) = utf8Elements xs
  | [] => rfl
  | x :: xs => by
    rw [elementItems, itemValues, x.value_doc, itemValues_elementItems xs, utf8Elements]

theorem itemMembers_memberItems : (ms : List (Str × Value)) →
    itemMembers (memberItems ms) = utf8Members ms
  | [] => rfl
  | (k, v) :: ms => by
    rw [memberItems, itemMembers, v.value_doc, itemMembers_memberItems ms, utf8Members, Head.name,
      Option.map_some, Option.getD_some, decodeRaw_escape]

end

theorem parse_print {v : Value} (h : v.NumbersOk) (hdepth : v.doc.depth ≤ maxNestingDepth) :
    parse v.print = some v.utf8 := by
  have htext := parse_text (v.wf_doc h) hdepth isBlank_nil isBlank_nil
  rw [List.nil_append, List.append_nil, v.value_doc] at htext
  exact htext

/-! ## The order of a map -/

mutual

/-- The value with its objects as maps are written: the last member of every key, in the
order of the keys. -/
def Value.sorted : Value → Value
  | .arr xs => .arr (sortedElements xs)
  | .obj ms => .obj (sortMembers (lastOfKey (sortedValues ms)))
  | v => v

def sortedElements : List Value → List Value
  | [] => []
  | x :: xs => x.sorted :: sortedElements xs

def sortedValues : List (Str × Value) → List (Str × Value)
  | [] => []
  | (k, v) :: ms => (k, v.sorted) :: sortedValues ms

end

section Members

variable {β γ : Type} (f : β → γ)

theorem lastOfKey_map (ms : List (Str × β)) :
    lastOfKey (ms.map (fun m => (m.1, f m.2))) = (lastOfKey ms).map (fun m => (m.1, f m.2)) := by
  induction ms with
  | nil => rfl
  | cons m ms ih =>
    obtain ⟨k, v⟩ := m
    have hkeys : (ms.map (fun m => (m.1, f m.2))).map Prod.fst = ms.map Prod.fst := by
      rw [List.map_map]
      rfl
    rw [List.map_cons, lastOfKey, lastOfKey, hkeys, ih]
    split <;> rfl

theorem sortMembers_map (ms : List (Str × β)) :
    sortMembers (ms.map (fun m => (m.1, f m.2))) =
      (sortMembers ms).map (fun m => (m.1, f m.2)) := by
  refine (List.map_insertionSort (fun m n : Str × β => m.1 ≤ n.1)
    (fun m n : Str × γ => m.1 ≤ n.1) (fun m => (m.1, f m.2)) ms ?_).symm
  intro m _ n _
  rfl

end Members

theorem itemTexts_elementItems (xs : List Value) :
    itemTexts (elementItems xs) = xs.map Value.print := by
  induction xs with
  | nil => rfl
  | cons x xs ih => rw [elementItems, itemTexts, ih]; simp [Head.text, Value.print]

theorem itemTexts_memberItems (ms : List (Str × Value)) :
    itemTexts (memberItems ms) = (ms.map (fun m => (m.1, m.2.print))).map memberText := by
  induction ms with
  | nil => rfl
  | cons m ms ih =>
    obtain ⟨k, v⟩ := m
    rw [memberItems, itemTexts, ih]
    simp [Head.text, Key.text, Value.print, memberText, quoted, quotedRaw]

mutual

theorem print_sorted : (v : Value) → v.sorted.print = encode v
  | .null => by rw [encode]; decide
  | .bool b => by cases b <;> rw [encode] <;> decide
  | .num _ => rfl
  | .str _ => rfl
  | .arr xs => by
    rw [Value.sorted, Value.print, Value.doc, Doc.text, itemTexts_elementItems,
      print_sortedElements xs, encode]
    rfl
  | .obj ms => by
    rw [Value.sorted, Value.print, Value.doc, Doc.text, itemTexts_memberItems,
      ← sortMembers_map, ← lastOfKey_map, print_sortedValues ms, encode]
    rfl

theorem print_sortedElements : (xs : List Value) →
    (sortedElements xs).map Value.print = encodeElements xs
  | [] => rfl
  | x :: xs => by
    rw [sortedElements, List.map_cons, print_sorted x, print_sortedElements xs, encodeElements]

theorem print_sortedValues : (ms : List (Str × Value)) →
    (sortedValues ms).map (fun m => (m.1, m.2.print)) = encodeMembers ms
  | [] => rfl
  | (k, v) :: ms => by
    rw [sortedValues, List.map_cons, print_sorted v, print_sortedValues ms, encodeMembers]

end

end Go.Json
