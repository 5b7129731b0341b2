/-
# `Protocol.Truncated` — what the repair of truncated arguments keeps

`closeTruncatedJSON` follows a text with two flags and a stack of closing brackets,
and knows nothing of JSON otherwise.  On the text of a document it is where the
grammar is: outside of strings with the brackets of the open containers on the
stack (`follow_text`), and at a place where the text may break off it has the
brackets of the containers open there (`follow_cut`).

So at every such place the repair gives the text of the document that is left
(`closeTruncatedJSON_cut`).
-/
import MiniGoAgent.Go.JsonCut
import MiniGoAgent.Go.JsonGrammar
import MiniGoAgent.Protocol.Conversation

open Go Go.Json

namespace MiniGoAgent

variable {left : Doc} {lead p raw : Str} {kinds : List Kind}

variable {e : BreakOff} {d : Doc} {q ws : Str} {c : UInt8}

/-! ## The scanning loop on a document -/

def follow (st : CloseState) (t : Str) : CloseState := t.foldl closeStep st

theorem follow_append (st : CloseState) (a b : Str) :
    follow st (a ++ b) = follow (follow st a) b := List.foldl_append

theorem follow_cons (st : CloseState) (c : UInt8) (t : Str) :
    follow st (c :: t) = follow (closeStep st c) t := rfl

def outside (stack : Str) : CloseState := { stack }

def within (stack : Str) : CloseState := { stack, inStr := true }

/-- A byte the loop takes no notice of outside of strings. -/
def isQuiet (c : UInt8) : Bool :=
  !(c == byte '"' || c == byte '{' || c == byte '[' || c == byte '}' || c == byte ']')

theorem closeStep_quiet (hc : isQuiet c = true) (stack : Str) :
    closeStep (outside stack) c = outside stack := by
  simp only [isQuiet, Bool.not_eq_true', Bool.or_eq_false_iff] at hc
  obtain ⟨⟨⟨⟨hquote, hbrace⟩, hbracket⟩, hclose⟩, hclose'⟩ := hc
  simp [closeStep, outside, hquote, hbrace, hbracket, hclose, hclose']

theorem follow_quiet {t : Str} (ht : ∀ c ∈ t, isQuiet c = true) (stack : Str) :
    follow (outside stack) t = outside stack := by
  induction t with
  | nil => rfl
  | cons c t ih =>
    obtain ⟨hc, ht⟩ := List.forall_mem_cons.mp ht
    rw [follow_cons, closeStep_quiet hc]
    exact ih ht

theorem isQuiet_of_isNumByte (hc : isNumByte c = true) : isQuiet c = true := by
  simp only [isQuiet, ne_of_isNumByte hc (show isNumByte (byte '"') = false by decide),
    ne_of_isNumByte hc (show isNumByte (byte '{') = false by decide),
    ne_of_isNumByte hc (show isNumByte (byte '[') = false by decide),
    ne_of_isNumByte hc (show isNumByte (byte '}') = false by decide),
    ne_of_isNumByte hc (show isNumByte (byte ']') = false by decide)]
  rfl

theorem isQuiet_of_isSpace (hc : isSpace c = true) : isQuiet c = true := by
  simp only [isSpace, Bool.or_eq_true, beq_iff_eq] at hc
  rcases hc with ((rfl | rfl) | rfl) | rfl <;> decide

theorem follow_blank (h : IsBlank ws) (stack : Str) : follow (outside stack) ws = outside stack :=
  follow_quiet (fun c hc => isQuiet_of_isSpace (h c hc)) stack

theorem closeStep_plain (hquote : (c == byte '"') = false) (hback : (c == byte '\\') = false)
    (stack : Str) : closeStep (within stack) c = within stack := by
  simp [closeStep, within, hquote, hback]

theorem closeStep_hex (hc : (unhex c).isSome = true) (stack : Str) :
    closeStep (within stack) c = within stack := by
  refine closeStep_plain ?_ ?_ stack
  · rw [beq_eq_false_iff_ne]
    rintro rfl
    exact absurd hc (by decide)
  · rw [beq_eq_false_iff_ne]
    rintro rfl
    exact absurd hc (by decide)

theorem follow_raw (h : IsRaw raw) (stack : Str) : follow (within stack) raw = within stack := by
  induction h with
  | nil => rfl
  | plain hquote hback _ _ ih =>
    rw [follow_cons, closeStep_plain hquote hback]
    exact ih
  | escape _ _ ih => exact ih
  | @unicode a b c d raw ha hb hc hd _ ih =>
    have hu : follow (within stack) (byte '\\' :: byte 'u' :: a :: b :: c :: d :: raw) =
        follow (within stack) (a :: b :: c :: d :: raw) := rfl
    rw [hu, follow_cons, closeStep_hex ha, follow_cons, closeStep_hex hb, follow_cons,
      closeStep_hex hc, follow_cons, closeStep_hex hd]
    exact ih

theorem follow_quotedRaw (h : IsRaw raw) (stack : Str) :
    follow (outside stack) (quotedRaw raw) = outside stack := by
  have hopen : closeStep (outside stack) (byte '"') = within stack := rfl
  rw [quotedRaw, follow_cons, hopen, follow_append, follow_raw h]
  rfl

theorem follow_head {h : Head} {kind : Kind} (hwf : h.WF kind) (stack : Str) :
    follow (outside stack) h.text = outside stack := by
  obtain ⟨before, key⟩ := h
  obtain ⟨hbefore, hkey⟩ := hwf
  rw [Head.text, follow_append, follow_blank hbefore]
  cases kind with
  | arr =>
    cases key with
    | none => rfl
    | some k => exact absurd hkey id
  | obj =>
    cases key with
    | none => exact absurd hkey id
    | some k =>
      have hcolon : closeStep (outside stack) (byte ':') = outside stack :=
        closeStep_quiet (by decide) stack
      show follow (outside stack) k.text = outside stack
      rw [Key.text, follow_append, follow_quotedRaw hkey.raw, follow_append,
        follow_blank hkey.after, follow_cons, hcolon, follow_blank hkey.gap]

theorem closeStep_opening (kind : Kind) (stack : Str) :
    closeStep (outside stack) kind.opening = outside (kind.closing :: stack) := by
  cases kind <;> rfl

theorem closeStep_closing (kind : Kind) (stack : Str) :
    closeStep (outside (kind.closing :: stack)) kind.closing = outside stack := by
  cases kind <;> rfl

mutual

theorem follow_text : (d : Doc) → d.WF → (stack : Str) →
    follow (outside stack) d.text = outside stack
  | .word w, _, stack => by cases w <;> exact follow_quiet (List.all_eq_true.mp (by decide)) stack
  | .num t, h, stack => follow_quiet (fun c hc => isQuiet_of_isNumByte (h.bytes c hc)) stack
  | .str raw, h, stack => follow_quotedRaw h stack
  | .node kind space items, h, stack => by
    obtain ⟨hspace, _, hitems⟩ := h
    rw [Doc.text, follow_cons, closeStep_opening, follow_append, follow_blank hspace,
      follow_append, follow_items kind items hitems]
    exact closeStep_closing kind stack

theorem follow_items (kind : Kind) : (items : List (Head × Doc × Str)) → ItemsWF kind items →
    (stack : Str) → follow (outside stack) (joinComma (itemTexts items)) = outside stack
  | [], _, _ => rfl
  | (h, d, after) :: rest, hwf, stack => by
    obtain ⟨⟨hh, hd, hafter⟩, hrest⟩ := hwf
    have hitem : follow (outside stack) (h.text ++ (d.text ++ after)) = outside stack := by
      rw [follow_append, follow_head hh, follow_append, follow_text d hd, follow_blank hafter]
    rw [itemTexts, joinComma_cons, follow_append, hitem]
    cases rest with
    | nil => rfl
    | cons it rest =>
      rw [joinTail_itemTexts (List.cons_ne_nil _ _), follow_cons,
        closeStep_quiet (by decide)]
      exact follow_items kind (it :: rest) hrest stack

end

theorem follow_lead {kind : Kind} {items : List Item} (h : ItemsWF kind items) (stack : Str) :
    follow (outside stack) (joinLead (itemTexts items)) = outside stack := by
  cases items with
  | nil => rfl
  | cons it items =>
    rw [joinLead_itemTexts (List.cons_ne_nil _ _), follow_append, follow_items kind _ h,
      follow_cons, closeStep_quiet (by decide)]
    rfl

/-- The state of the loop at a place where the text breaks off. -/
def brokenOff (e : BreakOff) (stack : Str) : CloseState where
  stack := stack
  inStr := e = .string ∨ e = .escape
  esc := e = .escape

theorem follow_cut (h : Cut d p e kinds left) (hwf : d.WF) (stack : Str) :
    follow (outside stack) p = brokenOff e (kinds.map Kind.closing ++ stack) := by
  induction h generalizing stack with
  | @opened kind space ws items hws =>
    rw [follow_cons, closeStep_opening, follow_blank ((isBlank_openSpace hwf).front hws)]
    rfl
  | @comma kind pre post it ws hne hws =>
    obtain ⟨h, d, after⟩ := it
    obtain ⟨hpre, ⟨hh, _⟩, _⟩ := wf_node.mp hwf
    rw [follow_cons, closeStep_opening, follow_append, follow_lead hpre,
      follow_blank (hh.1.front hws)]
    rfl
  | @colon pre post before after ws k d hws =>
    obtain ⟨hpre, ⟨⟨hbefore, hk⟩, _⟩, _⟩ := wf_node.mp hwf
    have hhead : Head.WF ⟨before, some { k with gap := ws }⟩ .obj :=
      ⟨hbefore, ⟨hk.raw, hk.after, hk.gap.front hws⟩⟩
    rw [follow_cons, closeStep_opening, follow_append, follow_lead hpre, follow_head hhead]
    rfl
  | @item kind pre post h d after ws hws =>
    obtain ⟨hpre, ⟨hh, hd, hafter⟩, _⟩ := wf_node.mp hwf
    rw [follow_cons, closeStep_opening, follow_append, follow_lead hpre, follow_append,
      follow_head hh, follow_append, follow_text d hd, follow_blank (hafter.front hws)]
    rfl
  | @string kind pre post h raw r after _ hr =>
    obtain ⟨hpre, ⟨hh, _, _⟩, _⟩ := wf_node.mp hwf
    have hopen : ∀ stack, closeStep (outside stack) (byte '"') = within stack := fun _ => rfl
    rw [follow_cons, closeStep_opening, follow_append, follow_lead hpre, follow_append,
      follow_head hh, follow_cons, hopen, follow_raw hr]
    rfl
  | @escape kind pre post h raw r after _ hr =>
    obtain ⟨hpre, ⟨hh, _, _⟩, _⟩ := wf_node.mp hwf
    have hopen : ∀ stack, closeStep (outside stack) (byte '"') = within stack := fun _ => rfl
    rw [follow_cons, closeStep_opening, follow_append, follow_lead hpre, follow_append,
      follow_head hh, follow_cons, hopen, follow_append, follow_raw hr]
    rfl
  | @inner kind pre post h d left after p e kinds _ ih =>
    obtain ⟨hpre, ⟨hh, hd, _⟩, _⟩ := wf_node.mp hwf
    rw [follow_cons, closeStep_opening, follow_append, follow_lead hpre, follow_append,
      follow_head hh, ih hd, List.map_append, List.append_assoc]
    rfl

/-! ## The end of the text -/

theorem contains_blanks (c : UInt8) : (lit " \t\r\n").contains c = isSpace c := by
  have hlit : lit " \t\r\n" = [0x20, 0x09, 0x0D, 0x0A] := by decide
  rw [hlit]
  simp [isSpace, Bool.or_assoc, beq_eq_decide]

theorem trimRight_blank (hws : IsBlank ws) (hc : isSpace c = false) :
    trimRight (q ++ c :: ws) (lit " \t\r\n") = q ++ [c] := by
  have hdrop : ∀ b ∈ ws.reverse, (lit " \t\r\n").contains b = true := by
    intro b hb
    rw [contains_blanks]
    exact hws b (List.mem_reverse.mp hb)
  have hstop : ¬ (lit " \t\r\n").contains c = true := by
    rw [contains_blanks, hc]
    simp
  rw [trimRight, List.rdropWhile, List.reverse_append, List.reverse_cons, List.append_assoc,
    List.dropWhile_append_of_pos hdrop, List.singleton_append, List.dropWhile_cons_of_neg hstop]
  simp

theorem hasSuffix_byte (q : Str) (c : UInt8) (s : String) {b : UInt8} (hs : lit s = [b]) :
    hasSuffix (q ++ [c]) (lit s) = (c == b) := by
  rw [hasSuffix, hs, List.isSuffixOf, List.reverse_append]
  simp [List.isPrefixOf, Bool.beq_comm]

theorem lit_separators : lit "," = [byte ','] ∧ lit ":" = [byte ':'] ∧ lit "\"" = [byte '"'] ∧
    lit "null" = Word.null.text := by
  decide

theorem closeSeparator_other (hws : IsBlank ws)
    (hc : isSpace c = false) (hcomma : (c == byte ',') = false) (hcolon : (c == byte ':') = false) :
    closeSeparator (q ++ c :: ws) = q ++ c :: ws := by
  obtain ⟨hlit, hlit', _, _⟩ := lit_separators
  simp only [closeSeparator, trimRight_blank hws hc, hasSuffix_byte q c "," hlit,
    hasSuffix_byte q c ":" hlit', hcomma, hcolon]
  rfl

theorem closeSeparator_comma (hws : IsBlank ws) : closeSeparator (q ++ byte ',' :: ws) = q := by
  obtain ⟨hlit, _, _, _⟩ := lit_separators
  simp only [closeSeparator, trimRight_blank hws (show isSpace (byte ',') = false by decide),
    hasSuffix_byte q (byte ',') "," hlit, beq_self_eq_true, if_true, List.dropLast_concat]

theorem closeSeparator_colon (hws : IsBlank ws) :
    closeSeparator (q ++ byte ':' :: ws) = q ++ byte ':' :: Word.null.text := by
  obtain ⟨hlit, hlit', _, hnull⟩ := lit_separators
  have hne : (byte ':' == byte ',') = false := by decide
  simp only [closeSeparator, trimRight_blank hws (show isSpace (byte ':') = false by decide),
    hasSuffix_byte q (byte ':') "," hlit, hasSuffix_byte q (byte ':') ":" hlit', hne, hnull]
  simp

/-- The text with its end repaired, before the brackets. -/
def closedEnd (st : CloseState) (s : Str) : Str :=
  let out := if st.esc then s.dropLast else s
  closeSeparator (if st.inStr then out ++ lit "\"" else out)

theorem closeTruncatedJSON_eq (s : Str) :
    closeTruncatedJSON s =
      if Json.valid (closedEnd (follow {} s) s ++ (follow {} s).stack)
      then closedEnd (follow {} s) s ++ (follow {} s).stack else lit "\x7b\x7d" := rfl

theorem closeSeparator_quote (kept : Str) :
    closeSeparator (kept ++ lit "\"") = kept ++ [byte '"'] := by
  rw [lit_separators.2.2.1]
  exact closeSeparator_other isBlank_nil (by decide) (by decide) (by decide)

theorem closedEnd_brokenOff {kept : Str} (h : e.Last kept) (stack : Str) :
    closedEnd (brokenOff e stack) (kept ++ e.dropped) = kept ++ e.supplied := by
  cases e with
  | none =>
    obtain ⟨q, c, ws, rfl, hws, hc, hcomma, hcolon⟩ := h
    rw [BreakOff.dropped, BreakOff.supplied, List.append_nil]
    exact closeSeparator_other hws hc hcomma hcolon
  | comma ws =>
    rw [BreakOff.supplied, List.append_nil]
    exact closeSeparator_comma h
  | colon ws =>
    obtain ⟨hws, q, rfl⟩ := h
    rw [BreakOff.dropped, BreakOff.supplied, List.append_assoc, List.append_assoc]
    exact closeSeparator_colon hws
  | string =>
    rw [BreakOff.dropped, List.append_nil]
    exact closeSeparator_quote kept
  | escape =>
    have hdrop : (kept ++ BreakOff.escape.dropped).dropLast = kept := List.dropLast_concat
    show closeSeparator ((kept ++ BreakOff.escape.dropped).dropLast ++ lit "\"") = _
    rw [hdrop]
    exact closeSeparator_quote kept

/-! ## The repair -/

/-- A text taken apart: the document and the white space around it. -/
structure TakenApart (s lead : Str) (d : Doc) (trail : Str) : Prop where
  text : s = lead ++ (d.text ++ trail)
  lead : IsBlank lead
  trail : IsBlank trail
  wf : d.WF
  depth : d.depth ≤ maxNestingDepth

theorem TakenApart.parse {s trail : Str} (h : TakenApart s lead d trail) :
    Json.parse s = some d.value := by
  rw [h.text]
  exact parse_text h.wf h.depth h.lead h.trail

/-- The text `s` around the document `d` breaks off behind `lead ++ p`, and is repaired. -/
structure Repaired (s lead : Str) (d : Doc) (p : Str) (e : BreakOff) (kinds : List Kind) :
    Prop where
  /-- It is cut short. -/
  breaks : lead ++ p <+: s ∧ lead ++ p ≠ s
  /-- The result is the text, with what cannot stay at its end removed, what is missing
  there supplied, and the open containers closed. -/
  text : ∃ kept, p = kept ++ e.dropped ∧
    closeTruncatedJSON (lead ++ p) = lead ++ (kept ++ (e.supplied ++ kinds.map Kind.closing))
  valid : Json.valid (closeTruncatedJSON (lead ++ p)) = true
  /-- What is complete in it keeps its key, its position and its value. -/
  keeps : ∃ v w, Json.parse s = some v ∧ Json.parse (closeTruncatedJSON (lead ++ p)) = some w ∧
    ∀ path n, d.endAt path = some n → n ≤ p.length → w.itemAt path = v.itemAt path

theorem closeTruncatedJSON_cut
    (hlead : IsBlank lead) (hwf : d.WF) (hdepth : d.depth ≤ maxNestingDepth)
    (h : Cut d p e kinds left) : closeTruncatedJSON (lead ++ p) = lead ++ (left.text ++ []) := by
  obtain ⟨kept, hp, hlast, htext⟩ := h.text_left hwf
  obtain ⟨hleft, hle⟩ := h.wf_left hwf
  have hstate : follow {} (lead ++ p) = brokenOff e (kinds.map Kind.closing) := by
    have houtside : ({} : CloseState) = outside [] := rfl
    rw [houtside, follow_append, follow_blank hlead, follow_cut h hwf, List.append_nil]
  have hend : closedEnd (brokenOff e (kinds.map Kind.closing)) (lead ++ p) ++
      kinds.map Kind.closing = lead ++ (left.text ++ []) := by
    rw [hp, ← List.append_assoc, closedEnd_brokenOff (hlast.append lead), htext]
    simp
  rw [closeTruncatedJSON_eq, hstate]
  show (if Json.valid (closedEnd _ _ ++ kinds.map Kind.closing) = true then
    closedEnd _ _ ++ kinds.map Kind.closing else _) = _
  rw [hend, if_pos (valid_text hleft (hle.trans hdepth) hlead isBlank_nil)]

theorem repaired_of_cut {s trail : Str}
    (hs : TakenApart s lead d trail) (h : Cut d p e kinds left) : Repaired s lead d p e kinds := by
  obtain ⟨hleft, hle⟩ := h.wf_left hs.wf
  have hdepth : left.depth ≤ maxNestingDepth := hle.trans hs.depth
  have hout := closeTruncatedJSON_cut hs.lead hs.wf hs.depth h
  constructor
  case breaks =>
    obtain ⟨q, hq, htext⟩ := h.append_text
    have hsplit : s = (lead ++ p) ++ (q ++ trail) := by
      rw [hs.text, htext]
      simp
    refine ⟨⟨q ++ trail, hsplit.symm⟩, ?_⟩
    intro heq
    rw [heq] at hsplit
    exact hq (List.append_eq_nil_iff.mp (List.self_eq_append_right.mp hsplit)).1
  case text =>
    obtain ⟨kept, hp, _, htext⟩ := h.text_left hs.wf
    refine ⟨kept, hp, ?_⟩
    rw [hout, htext, List.append_nil]
  case valid =>
    rw [hout]
    exact valid_text hleft hdepth hs.lead isBlank_nil
  case keeps =>
    refine ⟨d.value, left.value, hs.parse, ?_, ?_⟩
    · rw [hout]
      exact parse_text hleft hdepth hs.lead isBlank_nil
    · intro path n hn hle
      exact h.keeps hs.wf hn hle

/-- Every valid text is that of a document.  Where the text of one breaks off — behind a
bracket, a separator or a complete item, or inside of a string in the place of a value
— it is repaired; and of any text whatever the result is valid. -/
theorem closeTruncatedJSON_repairs (s : Str) :
    (Json.valid s = true → ∃ lead d trail, TakenApart s lead d trail) ∧
    (∀ lead d trail, TakenApart s lead d trail →
      ∀ p e kinds left, Cut d p e kinds left → Repaired s lead d p e kinds) ∧
    Json.valid (closeTruncatedJSON s) = true := by
  refine ⟨?_, ?_, closeTruncatedJSON_valid s⟩
  · intro h
    obtain ⟨lead, d, trail, hlead, htrail, hwf, hdepth, htext⟩ := valid_iff.mp h
    exact ⟨lead, d, trail, htext, hlead, htrail, hwf, hdepth⟩
  · intro lead d trail hs p e kinds left h
    exact repaired_of_cut hs h

/-- The arguments `{"a": [1, "xy"]}`. -/
def nestedArgs : Doc :=
  .node .obj [] [(⟨[], some ⟨lit "a", [], lit " "⟩⟩,
    .node .arr [] ([(⟨[], none⟩, .num (lit "1"), [])] ++ [(⟨lit " ", none⟩, .str (lit "xy"), [])]),
    [])]

theorem isRaw_letters
    (h : raw.all (fun c => c != byte '"' && c != byte '\\' && !decide (c < 0x20)) = true) :
    IsRaw raw := by
  induction raw with
  | nil => exact .nil
  | cons c raw ih =>
    rw [List.all_cons, Bool.and_eq_true] at h
    obtain ⟨hc, hraw⟩ := h
    simp only [Bool.and_eq_true, bne_iff_ne, Bool.not_eq_true', decide_eq_false_iff_not] at hc
    obtain ⟨⟨hquote, hback⟩, hctl⟩ := hc
    exact .plain (beq_false_of_ne hquote) (beq_false_of_ne hback) hctl (ih hraw)

theorem wf_nestedArgs : nestedArgs.WF := by
  have hblank : IsBlank (lit " ") := by
    intro c hc
    obtain rfl : c = 0x20 := List.mem_singleton.mp hc
    decide
  have hone : IsNumber (lit "1") :=
    ⟨by decide, List.all_eq_true.mp (by decide), .one, by decide, fun _ => rfl⟩
  have hkey : Head.WF ⟨[], some ⟨lit "a", [], lit " "⟩⟩ .obj :=
    ⟨isBlank_nil, isRaw_letters (by decide), isBlank_nil, hblank⟩
  have harr : (Doc.node .arr [] ([(⟨[], none⟩, .num (lit "1"), [])] ++
      [(⟨lit " ", none⟩, .str (lit "xy"), [])])).WF :=
    wf_node.mpr ⟨⟨⟨⟨isBlank_nil, trivial⟩, hone, isBlank_nil⟩, trivial⟩,
      ⟨⟨hblank, trivial⟩, isRaw_letters (by decide), isBlank_nil⟩, trivial⟩
  exact ⟨isBlank_nil, fun _ => rfl, ⟨hkey, harr, isBlank_nil⟩, trivial⟩

theorem cut_nestedArgs : ∃ left, Cut nestedArgs
    (lit "\x7b\"a\": [1, \"x") .string [.arr, .obj] left := by
  have hstring : Cut (.node .arr [] ([(⟨[], none⟩, .num (lit "1"), [])] ++
      [(⟨lit " ", none⟩, .str (lit "xy"), [])])) _ .string [.arr] _ :=
    .string (show lit "x" <+: lit "xy" by decide) (isRaw_letters (by decide))
  have hcut :
      Cut (.node .obj [] ([] ++ [(⟨[], some ⟨lit "a", [], lit " "⟩⟩, _, [])])) _ .string _ _ :=
    .inner hstring
  exact ⟨_, hcut⟩

theorem closeTruncatedJSON_repairs_nestedArgs :
    Repaired (lit "\x7b\"a\": [1, \"xy\"]\x7d") [] nestedArgs (lit "\x7b\"a\": [1, \"x") .string
      [.arr, .obj] := by
  have hs : TakenApart (lit "\x7b\"a\": [1, \"xy\"]\x7d") [] nestedArgs [] :=
    ⟨by decide, isBlank_nil, isBlank_nil, wf_nestedArgs, by decide⟩
  obtain ⟨left, hcut⟩ := cut_nestedArgs
  exact (closeTruncatedJSON_repairs _).2.1 _ _ _ hs _ _ _ left hcut

end MiniGoAgent
