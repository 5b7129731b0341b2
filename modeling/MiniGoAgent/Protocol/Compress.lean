/-
# `Protocol.Compress` — taking the white space out of a JSON text (`content_compress.go`)

`compressJSONArray` copies a text byte by byte, leaving out white space unless it is
in a string, which it tells by the quotes and the backslashes alone.  On a valid text
the strings it sees are the strings of the grammar (`Doc.keeps`, by induction over the
document), so what it returns is the document without its white space.
-/
import MiniGoAgent.Go.JsonCompact
import MiniGoAgent.Go.JsonGrammar

open Go Go.Json

namespace MiniGoAgent

/-- The loop of `compressJSONArray` over the rest of the text. -/
def compressLoop : Bool → Bool → Str → Str
  | _, _, [] => []
  | inStr, esc, c :: rest =>
    if inStr then
      c :: (if esc then compressLoop inStr false rest
        else if c == byte '\\' then compressLoop inStr true rest
        else if c == byte '"' then compressLoop false esc rest
        else compressLoop inStr esc rest)
    else if c == byte '"' then c :: compressLoop true esc rest
    else if c == byte ' ' || c == byte '\t' || c == byte '\n' || c == byte '\r' then
      compressLoop inStr esc rest
    else c :: compressLoop inStr esc rest

def compressJSONArray (content : Str) : Str := compressLoop false false content

/-- `inStr` and `esc` behind a byte. -/
def strStep (s : Bool × Bool) (c : UInt8) : Bool × Bool :=
  if s.1 then
    if s.2 then (true, false)
    else if c == byte '\\' then (true, true)
    else if c == byte '"' then (false, s.2)
    else s
  else if c == byte '"' then (true, s.2)
  else s

theorem compressLoop_cons (inStr esc : Bool) (c : UInt8) (rest : Str) :
    compressLoop inStr esc (c :: rest) =
      (if !inStr && isSpace c then [] else [c]) ++
        compressLoop (strStep (inStr, esc) c).1 (strStep (inStr, esc) c).2 rest := by
  have hspace : (c == byte ' ' || c == byte '\t' || c == byte '\n' || c == byte '\r') =
      isSpace c := by
    rw [isSpace, Bool.or_assoc _ _ (c == 0x0A), Bool.or_comm (c == 0x0D), ← Bool.or_assoc]
    rfl
  rw [compressLoop, strStep, hspace]
  cases inStr with
  | true =>
    rw [if_pos rfl, if_pos rfl, Bool.not_true, Bool.false_and, if_neg Bool.false_ne_true]
    refine congrArg (c :: ·) ?_
    split
    · rfl
    · split
      · rfl
      · split
        · rfl
        · rfl
  | false =>
    rw [if_neg Bool.false_ne_true, if_neg Bool.false_ne_true, Bool.not_false, Bool.true_and]
    by_cases hquote : (c == byte '"') = true
    · have hnot : isSpace c = false := by
        rw [beq_iff_eq.mp hquote]
        decide
      rw [if_pos hquote, if_pos hquote, hnot, if_neg Bool.false_ne_true]
      rfl
    · rw [if_neg hquote, if_neg hquote]
      split <;> rfl

theorem compressLoop_sublist (inStr esc : Bool) (s : Str) :
    (compressLoop inStr esc s).Sublist s := by
  induction s generalizing inStr esc with
  | nil => exact List.Sublist.refl []
  | cons c rest ih =>
    rw [compressLoop_cons]
    split
    · exact (ih _ _).cons c
    · exact (ih _ _).cons_cons c

/-- White space stands only where the loop takes it to be in a string. -/
def QuotedBlanks (start : Bool × Bool) (s : Str) : Prop :=
  ∀ before c after, s = before ++ c :: after → isSpace c = true →
    (before.foldl strStep start).1 = true

theorem quotedBlanks_cons (inStr esc : Bool) (c : UInt8) (rest : Str) :
    QuotedBlanks (inStr, esc) (c :: rest) ↔
      (isSpace c = true → inStr = true) ∧ QuotedBlanks (strStep (inStr, esc) c) rest := by
  constructor
  · intro h
    refine ⟨fun hspace => h [] c rest rfl hspace, ?_⟩
    intro before d after heq hspace
    exact h (c :: before) d after (by rw [heq]; rfl) hspace
  · rintro ⟨hfirst, hrest⟩ before d after heq hspace
    cases before with
    | nil =>
      rw [List.nil_append] at heq
      rw [← (List.cons.inj heq).1] at hspace
      exact hfirst hspace
    | cons b before =>
      obtain ⟨rfl, hafter⟩ := List.cons.inj heq
      exact hrest before d after hafter hspace

theorem compressLoop_eq_self_iff (inStr esc : Bool) (s : Str) :
    compressLoop inStr esc s = s ↔ QuotedBlanks (inStr, esc) s := by
  induction s generalizing inStr esc with
  | nil =>
    refine iff_of_true rfl ?_
    intro before c after h
    exact absurd h (by simp)
  | cons c rest ih =>
    have htail := ih (strStep (inStr, esc) c).1 (strStep (inStr, esc) c).2
    rw [compressLoop_cons, quotedBlanks_cons]
    by_cases hout : (!inStr && isSpace c) = true
    · rw [if_pos hout, List.nil_append]
      rw [Bool.and_eq_true, Bool.not_eq_true'] at hout
      refine iff_of_false ?_ ?_
      · intro heq
        have hle := (compressLoop_sublist (strStep (inStr, esc) c).1
          (strStep (inStr, esc) c).2 rest).length_le
        rw [heq, List.length_cons] at hle
        exact absurd hle (Nat.not_succ_le_self _)
      · rintro ⟨hfirst, -⟩
        exact absurd (hfirst hout.2) (by rw [hout.1]; exact Bool.false_ne_true)
    · have hfirst : isSpace c = true → inStr = true := by
        intro hspace
        rw [hspace, Bool.and_true, Bool.not_eq_true', Bool.not_eq_false] at hout
        exact hout
      rw [if_neg hout, List.singleton_append, List.cons.injEq, htail]
      exact ⟨fun h => ⟨hfirst, h.2⟩, fun h => ⟨rfl, h.2⟩⟩

/-! ## The loop outside and inside strings -/

/-- Outside strings the loop turns `x` into `y`, and is outside strings behind it. -/
def Keeps (x y : Str) : Prop :=
  ∀ rest, compressLoop false false (x ++ rest) = y ++ compressLoop false false rest

theorem Keeps.append {x x' y y' : Str} (h : Keeps x y) (h' : Keeps x' y') :
    Keeps (x ++ x') (y ++ y') := by
  intro rest
  rw [List.append_assoc, h, h', List.append_assoc]

theorem keeps_nil : Keeps [] [] := by
  intro rest
  rfl

theorem keeps_blank {ws : Str} (h : IsBlank ws) : Keeps ws [] := by
  induction ws with
  | nil => exact keeps_nil
  | cons c ws ih =>
    obtain ⟨hc, hws⟩ := isBlank_cons.mp h
    intro rest
    rw [← ih hws rest]
    simp only [isSpace, Bool.or_eq_true, beq_iff_eq] at hc
    rcases hc with ((rfl | rfl) | rfl) | rfl <;> rfl

theorem keeps_bytes {x : Str} (h : ∀ c ∈ x, isSpace c = false ∧ (c == byte '"') = false) :
    Keeps x x := by
  induction x with
  | nil => exact keeps_nil
  | cons c x ih =>
    obtain ⟨⟨hspace, hquote⟩, hx⟩ := List.forall_mem_cons.mp h
    intro rest
    have hnot : (c == byte ' ' || c == byte '\t' || c == byte '\n' || c == byte '\r') = false := by
      simp only [isSpace, Bool.or_eq_false_iff] at hspace ⊢
      exact ⟨⟨⟨hspace.1.1.1, hspace.1.1.2⟩, hspace.2⟩, hspace.1.2⟩
    rw [List.cons_append, compressLoop, if_neg Bool.false_ne_true, hquote,
      if_neg Bool.false_ne_true, hnot, if_neg Bool.false_ne_true, ih hx rest, List.cons_append]

theorem compressLoop_plain {c : UInt8} (hquote : (c == byte '"') = false)
    (hback : (c == byte '\\') = false) (rest : Str) :
    compressLoop true false (c :: rest) = c :: compressLoop true false rest := by
  rw [compressLoop, if_pos rfl, if_neg Bool.false_ne_true, hback, if_neg Bool.false_ne_true,
    hquote, if_neg Bool.false_ne_true]

theorem compressLoop_hex {c : UInt8} (h : (unhex c).isSome = true) (rest : Str) :
    compressLoop true false (c :: rest) = c :: compressLoop true false rest := by
  refine compressLoop_plain ?_ ?_ rest
  · rw [beq_eq_false_iff_ne]
    rintro rfl
    exact absurd h (by decide)
  · rw [beq_eq_false_iff_ne]
    rintro rfl
    exact absurd h (by decide)

theorem compressLoop_raw {raw : Str} (h : IsRaw raw) (rest : Str) :
    compressLoop true false (raw ++ byte '"' :: rest) =
      raw ++ byte '"' :: compressLoop false false rest := by
  induction h with
  | nil => rfl
  | plain hquote hback hctl _ ih =>
    rw [List.cons_append, compressLoop_plain hquote hback, ih]
    rfl
  | @escape e raw he _ ih => exact congrArg (fun t => byte '\\' :: e :: t) ih
  | @unicode a b c d raw ha hb hc hd _ ih =>
    show byte '\\' :: byte 'u' ::
      compressLoop true false (a :: b :: c :: d :: (raw ++ byte '"' :: rest)) = _
    rw [compressLoop_hex ha, compressLoop_hex hb, compressLoop_hex hc, compressLoop_hex hd, ih]
    rfl

theorem keeps_quotedRaw {raw : Str} (h : IsRaw raw) : Keeps (quotedRaw raw) (quotedRaw raw) := by
  intro rest
  have hraw := compressLoop_raw h rest
  show byte '"' :: compressLoop true false (raw ++ [byte '"'] ++ rest) = _
  rw [List.append_assoc]
  show byte '"' :: compressLoop true false (raw ++ byte '"' :: rest) = _
  rw [hraw, quotedRaw, List.cons_append, List.append_assoc]
  rfl

/-! ## The loop on a document -/

theorem keeps_byte {b : UInt8} (hspace : isSpace b = false) (hquote : (b == byte '"') = false) :
    Keeps [b] [b] := by
  refine keeps_bytes ?_
  exact List.forall_mem_singleton.mpr (⟨hspace, hquote⟩)

theorem keeps_head {h : Head} {kind : Kind} (hwf : h.WF kind) : Keeps h.text h.compact.text := by
  obtain ⟨before, key⟩ := h
  obtain ⟨hbefore, hkey⟩ := hwf
  cases key with
  | none => exact (keeps_blank hbefore).append keeps_nil
  | some k =>
    have hk : k.WF := by
      cases kind with
      | arr => exact absurd hkey id
      | obj => exact hkey
    have hcolon : Keeps [byte ':'] [byte ':'] := keeps_byte (by decide) (by decide)
    exact (keeps_blank hbefore).append ((keeps_quotedRaw hk.raw).append
      ((keeps_blank hk.after).append (hcolon.append (keeps_blank hk.gap))))

theorem keeps_brackets (kind : Kind) :
    Keeps [kind.opening] [kind.opening] ∧ Keeps [kind.closing] [kind.closing] := by
  cases kind with
  | arr | obj => exact ⟨keeps_byte (by decide) (by decide), keeps_byte (by decide) (by decide)⟩

theorem keeps_word (w : Word) : Keeps w.text w.text := by
  have hall : w.text.all (fun c => !isSpace c && !(c == byte '"')) = true := by
    cases w <;> decide
  refine keeps_bytes ?_
  intro c hc
  have hboth := List.all_eq_true.mp hall c hc
  rw [Bool.and_eq_true, Bool.not_eq_true', Bool.not_eq_true'] at hboth
  exact hboth

theorem keeps_number {t : Str} (h : IsNumber t) : Keeps t t := by
  refine keeps_bytes ?_
  intro c hc
  exact ⟨isSpace_of_isNumByte (h.bytes c hc), ne_of_isNumByte (h.bytes c hc) (by decide)⟩

mutual

theorem keeps_doc : (d : Doc) → d.WF → Keeps d.text d.compact.text
  | .word w, _ => keeps_word w
  | .num t, h => keeps_number h
  | .str raw, h => keeps_quotedRaw h
  | .node kind space [], h => by
    rw [Doc.WF] at h
    rw [Doc.compact, Doc.text, Doc.text]
    exact (keeps_brackets kind).1.append ((keeps_blank h.1).append (keeps_brackets kind).2)
  | .node kind space ((head, d, after) :: rest), h => by
    rw [Doc.WF, ItemsWF] at h
    obtain ⟨hspace, -, ⟨hhead, hd, hafter⟩, hrest⟩ := h
    rw [Doc.compact, Doc.text, Doc.text, compactItems, itemTexts, itemTexts, joinComma_cons,
      joinComma_cons]
    have hitem := (keeps_head hhead).append ((keeps_doc d hd).append (keeps_blank hafter))
    exact (keeps_brackets kind).1.append ((keeps_blank hspace).append
      ((hitem.append (keeps_tail kind rest hrest)).append (keeps_brackets kind).2))

theorem keeps_tail (kind : Kind) : (items : List (Head × Doc × Str)) → ItemsWF kind items →
    Keeps (joinTail (itemTexts items)) (joinTail (itemTexts (compactItems items)))
  | [], _ => keeps_nil
  | (head, d, after) :: rest, h => by
    rw [ItemsWF] at h
    obtain ⟨⟨hhead, hd, hafter⟩, hrest⟩ := h
    rw [compactItems, itemTexts, itemTexts]
    have hcomma : Keeps [byte ','] [byte ','] := keeps_byte (by decide) (by decide)
    have hitem := (keeps_head hhead).append ((keeps_doc d hd).append (keeps_blank hafter))
    exact (hcomma.append hitem).append (keeps_tail kind rest hrest)

end

theorem compressJSONArray_text {d : Doc} (h : d.WF) {lead trail : Str} (hlead : IsBlank lead)
    (htrail : IsBlank trail) : compressJSONArray (lead ++ (d.text ++ trail)) = d.compact.text := by
  have hkeeps := (keeps_blank hlead).append ((keeps_doc d h).append (keeps_blank htrail)) []
  rw [List.append_nil, List.nil_append, List.append_nil] at hkeeps
  rw [compressJSONArray, hkeeps]
  exact List.append_nil _

theorem parse_compressJSONArray {t : Str} (h : valid t = true) :
    valid (compressJSONArray t) = true ∧ parse (compressJSONArray t) = parse t := by
  obtain ⟨lead, d, trail, hlead, htrail, hd, hdepth, rfl⟩ := valid_iff.mp h
  have hcompact := d.compact_wf hd
  have hdepth' : d.compact.depth ≤ maxNestingDepth := by rwa [d.depth_compact]
  have hvalid := valid_text hcompact hdepth' isBlank_nil isBlank_nil
  have hparse := parse_text hcompact hdepth' isBlank_nil isBlank_nil
  rw [List.nil_append, List.append_nil] at hvalid hparse
  rw [compressJSONArray_text hd hlead htrail]
  exact ⟨hvalid, by rw [hparse, parse_text hd hdepth hlead htrail, d.value_compact]⟩

/-- On a valid text: what is returned is valid and has the same value, compressing it
again changes nothing, and of the text (taken apart as a document `d`) the string
literals are left byte for byte and no white space outside of them. -/
theorem compressJSONArray_spec {t : Str} (h : valid t = true) :
    valid (compressJSONArray t) = true ∧ parse (compressJSONArray t) = parse t ∧
      compressJSONArray (compressJSONArray t) = compressJSONArray t ∧
      ∃ (lead : Str) (d : Doc) (trail : Str) (d' : Doc), IsBlank lead ∧ IsBlank trail ∧
        d.WF ∧ t = lead ++ (glue d.pieces ++ trail) ∧ d'.WF ∧ compressJSONArray t = glue d'.pieces ∧
        stringPieces d'.pieces = stringPieces d.pieces ∧ NoBlanks d'.pieces := by
  obtain ⟨hvalid, hparse⟩ := parse_compressJSONArray h
  obtain ⟨lead, d, trail, hlead, htrail, hd, -, rfl⟩ := valid_iff.mp h
  have hcompact := d.compact_wf hd
  have hagain := compressJSONArray_text hcompact isBlank_nil isBlank_nil
  rw [List.nil_append, List.append_nil] at hagain
  refine ⟨hvalid, hparse, ?_, ?_⟩
  · rw [compressJSONArray_text hd hlead htrail, hagain, d.compact_compact]
  rw [compressJSONArray_text hd hlead htrail]
  refine ⟨lead, d, trail, d.compact, hlead, htrail, hd, ?_, hcompact, ?_, d.stringPieces_compact,
    d.noBlanks_compact hd⟩
  · rw [d.glue_pieces]
  · rw [d.compact.glue_pieces]

/-- Spaces in a key stay, those around it go. -/
theorem compressJSONArray_spec_spaces :
    parse (compressJSONArray (lit " [ \x7b \"a b\" : 1 \x7d ] ")) =
        parse (lit " [ \x7b \"a b\" : 1 \x7d ] ") ∧
      compressJSONArray (lit " [ \x7b \"a b\" : 1 \x7d ] ") = lit "[\x7b\"a b\":1\x7d]" :=
  ⟨(compressJSONArray_spec (by decide +kernel)).2.1, by decide +kernel⟩

end MiniGoAgent
