/-
# `Go.JsonStrings` — the string literals of a document

A text can only be the text of one document, so what is known of its literals can be
read off the text.  `literals` finds them without parsing: quotes open and close,
and a backslash takes the next byte with it.

`Doc.mapRaws f` is the document with the text between the quotes of every literal,
keys included, replaced by `f` of it.
-/
import MiniGoAgent.Go.JsonCompact
import MiniGoAgent.Go.JsonGrammar
import MiniGoAgent.Go.JsonPrint

namespace Go.Json

variable {raw t : Str}

/-! ## What a literal is read as -/

theorem isRune_utf8EncodeChar (c : Char) : IsRune (String.utf8EncodeChar c) := by
  have hvalid : c.val.toNat < 0xD800 ∨ 0xDFFF < c.val.toNat ∧ c.val.toNat < 0x110000 := c.valid
  rw [String.utf8EncodeChar.eq_def]
  simp only
  generalize c.val.toNat = v at hvalid
  split_ifs with h1 h2 h3
  · refine ⟨by simp, ?_⟩
    simp only [runeLen, UInt8.lt_iff_toNat_lt, UInt8.toNat_ofNat', UInt8.reduceToNat]
    exact if_pos (by omega)
  · refine ⟨by simp, ?_⟩
    simp only [runeLen, UInt8.le_iff_toNat_le, UInt8.lt_iff_toNat_lt, UInt8.toNat_ofNat',
      UInt8.reduceToNat, Bool.and_eq_true, decide_eq_true_eq]
    rw [if_neg (by omega), if_pos (by omega), if_pos (by omega)]
    rfl
  · refine ⟨by simp, ?_⟩
    simp only [runeLen, ← UInt8.toNat_inj, UInt8.le_iff_toNat_le, UInt8.lt_iff_toNat_lt,
      UInt8.toNat_ofNat', UInt8.reduceToNat, Bool.and_eq_true, decide_eq_true_eq,
      apply_ite UInt8.toNat]
    rw [if_neg (by omega), if_neg (by omega), if_pos (by omega), if_pos]
    · rfl
    · split_ifs <;> omega
  · refine ⟨by simp, ?_⟩
    simp only [runeLen, ← UInt8.toNat_inj, UInt8.le_iff_toNat_le, UInt8.lt_iff_toNat_lt,
      UInt8.toNat_ofNat', UInt8.reduceToNat, Bool.and_eq_true, decide_eq_true_eq,
      apply_ite UInt8.toNat]
    rw [if_neg (by omega), if_neg (by omega), if_neg (by omega), if_pos (by omega), if_pos]
    · rfl
    · split_ifs <;> omega

theorem isRune_encodeRune (n : Nat) : IsRune (encodeRune n) := by
  unfold encodeRune
  split
  · exact isRune_utf8EncodeChar _
  · exact ⟨by decide, by decide⟩

theorem high_of_mem_encodeRune {v : Nat} (hv : 0x80 ≤ v) : ∀ c ∈ encodeRune v, 0x80 ≤ c := by
  unfold encodeRune
  split
  next h =>
    have hval : (Char.ofNat v).val.toNat = v := by
      rw [Char.ofNat, dif_pos h]
      rfl
    rw [String.utf8EncodeChar.eq_def]
    simp only [hval]
    split_ifs <;> simp [UInt8.le_iff_toNat_le] <;> omega
  next =>
    intro c hc
    simp only [List.mem_cons, List.not_mem_nil, or_false] at hc
    rcases hc with rfl | rfl | rfl <;> decide

theorem unescape_lt (e : UInt8) (he : Scanner.isEscape e = true) : unescape e < 0x80 := by
  revert he
  exact forall_byte (P := fun e => Scanner.isEscape e = true → unescape e < 0x80)
    (by decide +kernel) e

theorem Chunk.isRune {x u : Str} (h : Chunk x u) : IsRune u := by
  cases h with
  | rune hx _ => exact hx
  | stray | unicode | pair => exact isRune_encodeRune _
  | escape he => exact isRune_ascii (unescape_lt _ he)

theorem Decodes.utf8Valid (h : Decodes raw t) : utf8Valid t = true := by
  induction h with
  | nil => rfl
  | chunk hx _ ih => rw [hx.isRune.utf8Valid_append, ih]

theorem utf8Valid_decodeRaw (h : IsRaw raw) : utf8Valid (decodeRaw raw) = true :=
  h.decodes.utf8Valid

theorem toValid_decodeRaw (h : IsRaw raw) : toValid (decodeRaw raw) = decodeRaw raw :=
  toValid_of_utf8Valid (utf8Valid_decodeRaw h)

mutual

theorem Doc.utf8_value : (d : Doc) → d.WF → d.value.utf8 = d.value
  | .word w, _ => by cases w <;> rfl
  | .num _, _ => rfl
  | .str _, h => congrArg Value.str (toValid_decodeRaw h)
  | .node .arr _ items, h => by rw [Doc.value, Value.utf8, utf8_itemValues items h.2.2]
  | .node .obj _ items, h => by rw [Doc.value, Value.utf8, utf8_itemMembers items h.2.2]

theorem utf8_itemValues : (items : List (Head × Doc × Str)) → ItemsWF .arr items →
    utf8Elements (itemValues items) = itemValues items
  | [], _ => rfl
  | (h, d, after) :: rest, hwf => by
    rw [ItemsWF] at hwf
    rw [itemValues, utf8Elements, d.utf8_value hwf.1.2.1, utf8_itemValues rest hwf.2]

theorem utf8_itemMembers : (items : List (Head × Doc × Str)) → ItemsWF .obj items →
    utf8Members (itemMembers items) = itemMembers items
  | [], _ => rfl
  | (h, d, after) :: rest, hwf => by
    rw [ItemsWF] at hwf
    obtain ⟨k, hk, _, hname, _⟩ := Head.text_obj hwf.1.1
    rw [itemMembers, utf8Members, d.utf8_value hwf.1.2.1, utf8_itemMembers rest hwf.2, hname,
      toValid_decodeRaw hk.raw]

end

mutual

theorem Doc.depth_value : (d : Doc) → d.value.doc.depth = d.depth
  | .word w => by cases w <;> rfl
  | .num _ => rfl
  | .str _ => rfl
  | .node .arr _ items => by rw [Doc.value, Value.doc, Doc.depth, Doc.depth, depth_itemValues items]
  | .node .obj _ items => by
    rw [Doc.value, Value.doc, Doc.depth, Doc.depth, depth_itemMembers items]

theorem depth_itemValues : (items : List (Head × Doc × Str)) →
    itemsDepth (elementItems (itemValues items)) = itemsDepth items
  | [] => rfl
  | (h, d, after) :: rest => by
    rw [itemValues, elementItems, itemsDepth, itemsDepth, d.depth_value, depth_itemValues rest]

theorem depth_itemMembers : (items : List (Head × Doc × Str)) →
    itemsDepth (memberItems (itemMembers items)) = itemsDepth items
  | [] => rfl
  | (h, d, after) :: rest => by
    rw [itemMembers, memberItems, itemsDepth, itemsDepth, d.depth_value, depth_itemMembers rest]

end

theorem unhex_of_hex4 {a b c d : UInt8} {v : Nat}
    (h : ∀ t, hex4 (a :: b :: c :: d :: t) = some (v, t)) :
    (unhex a).isSome = true ∧ (unhex b).isSome = true ∧ (unhex c).isSome = true ∧
      (unhex d).isSome = true := by
  have h := h []
  unfold hex4 at h
  cases ha : unhex a <;> cases hb : unhex b <;> cases hc : unhex c <;> cases hd : unhex d <;>
    simp [ha, hb, hc, hd] at h ⊢

/-! ## Replacing what is between the quotes -/

def Key.mapRaw (f : Str → Str) (k : Key) : Key := { k with raw := f k.raw }

def Head.mapRaw (f : Str → Str) (h : Head) : Head :=
  { h with key := h.key.map (Key.mapRaw f) }

mutual

def Doc.mapRaws (f : Str → Str) : Doc → Doc
  | .word w => .word w
  | .num t => .num t
  | .str raw => .str (f raw)
  | .node kind space items => .node kind space (mapItems f items)

def mapItems (f : Str → Str) : List (Head × Doc × Str) → List (Head × Doc × Str)
  | [] => []
  | (h, d, after) :: rest => (h.mapRaw f, d.mapRaws f, after) :: mapItems f rest

end

theorem Head.mapRaw_id (h : Head) : h.mapRaw id = h := by
  obtain ⟨before, key⟩ := h
  cases key <;> rfl

mutual

theorem Doc.mapRaws_id : (d : Doc) → d.mapRaws id = d
  | .word _ => rfl
  | .num _ => rfl
  | .str _ => rfl
  | .node kind space items => by rw [Doc.mapRaws, mapItems_id items]

theorem mapItems_id : (items : List (Head × Doc × Str)) → mapItems id items = items
  | [] => rfl
  | (h, d, after) :: rest => by rw [mapItems, h.mapRaw_id, d.mapRaws_id, mapItems_id rest]

end

/-- A byte that stands outside the literals of a document. -/
def isOutside (c : UInt8) : Bool :=
  isSpace c || isNumByte c || (lit "[]\x7b\x7d,:aeflnrstu").contains c

/-- A piece of a document, and the same piece with its literal replaced. -/
inductive Replaced (f : Str → Str) : TextPiece → TextPiece → Prop
  | outside {t : Str} (ht : ∀ c ∈ t, isOutside c = true) : Replaced f (false, t) (false, t)
  | literal {raw : Str} (h : IsRaw raw) :
      Replaced f (true, quotedRaw raw) (true, quotedRaw (f raw))

section Replacing

variable {f : Str → Str}

theorem isOutside_blank {ws : Str} (h : IsBlank ws) : ∀ c ∈ ws, isOutside c = true := by
  intro c hc
  have hspace : isSpace c = true := h c hc
  rw [isOutside, hspace]
  rfl

theorem isOutside_cons {c : UInt8} (hc : isOutside c = true)
    (ht : ∀ b ∈ t, isOutside b = true) : ∀ b ∈ c :: t, isOutside b = true :=
  List.forall_mem_cons.mpr ⟨hc, ht⟩

theorem isOutside_word (w : Word) : ∀ c ∈ w.text, isOutside c = true := by
  have hall : w.text.all isOutside = true := by cases w <;> decide
  exact List.all_eq_true.mp hall

theorem isOutside_number (h : IsNumber t) : ∀ c ∈ t, isOutside c = true := by
  intro c hc
  rw [isOutside, h.bytes c hc]
  simp

theorem Kind.isOutside_brackets (kind : Kind) :
    isOutside kind.opening = true ∧ isOutside kind.closing = true := by
  cases kind <;> decide

abbrev AllReplaced (f : Str → Str) : List TextPiece → List TextPiece → Prop :=
  List.Forall₂ (Replaced f)

theorem Head.replaced {h : Head} {kind : Kind} (hwf : h.WF kind) :
    AllReplaced f h.pieces (h.mapRaw f).pieces := by
  obtain ⟨before, key⟩ := h
  obtain ⟨hbefore, hkey⟩ := hwf
  refine .cons (.outside (isOutside_blank hbefore)) ?_
  cases key with
  | none => exact .nil
  | some k =>
    have hk : k.WF := by
      cases kind with
      | arr => exact absurd hkey id
      | obj => exact hkey
    have hcolon : ∀ c ∈ k.after ++ byte ':' :: k.gap, isOutside c = true :=
      List.forall_mem_append.mpr ⟨isOutside_blank hk.after,
        isOutside_cons (by decide) (isOutside_blank hk.gap)⟩
    exact .cons (.literal hk.raw) (.cons (.outside hcolon) .nil)

theorem replaced_joinPieces {ps qs : List (List TextPiece)}
    (h : List.Forall₂ (AllReplaced f) ps qs) : AllReplaced f (joinPieces ps) (joinPieces qs) := by
  have htail : ∀ {ps qs : List (List TextPiece)}, List.Forall₂ (AllReplaced f) ps qs →
      AllReplaced f (piecesTail ps) (piecesTail qs) := by
    intro ps qs h
    induction h with
    | nil => exact .nil
    | cons hp _ ih =>
      exact List.rel_append (.cons (.outside (isOutside_cons (by decide) (by simp))) hp) ih
  cases h with
  | nil => exact .nil
  | cons hp hps => exact List.rel_append hp (htail hps)

mutual

theorem Doc.replaced : (d : Doc) → d.WF → AllReplaced f d.pieces (d.mapRaws f).pieces
  | .word w, _ => .cons (.outside (isOutside_word w)) .nil
  | .num _, h => .cons (.outside (isOutside_number h)) .nil
  | .str _, h => .cons (.literal h) .nil
  | .node kind space items, h => by
    rw [Doc.WF] at h
    rw [Doc.mapRaws, Doc.pieces, Doc.pieces]
    refine .cons (.outside (isOutside_cons kind.isOutside_brackets.1 (isOutside_blank h.1))) ?_
    refine List.rel_append (replaced_joinPieces (replaced_items kind items h.2.2)) ?_
    exact .cons (.outside (isOutside_cons kind.isOutside_brackets.2 (by simp))) .nil

theorem replaced_items (kind : Kind) : (items : List (Head × Doc × Str)) →
    ItemsWF kind items → List.Forall₂ (AllReplaced f) (itemPieces items)
      (itemPieces (mapItems f items))
  | [], _ => .nil
  | (h, d, after) :: rest, hwf => by
    rw [ItemsWF] at hwf
    rw [mapItems, itemPieces, itemPieces]
    refine .cons ?_ (replaced_items kind rest hwf.2)
    refine List.rel_append (Head.replaced hwf.1.1) (List.rel_append (d.replaced hwf.1.2.1) ?_)
    exact .cons (.outside (isOutside_blank hwf.1.2.2)) .nil

end

/-- A quoted text in the grammar. -/
def IsLiteral (q : Str) : Prop := ∃ raw, IsRaw raw ∧ q = quotedRaw raw

theorem isLiteral_of_replaced {ps qs : List TextPiece} (h : AllReplaced f ps qs) :
    ∀ q ∈ stringPieces ps, IsLiteral q := by
  induction h with
  | nil =>
    intro q hq
    cases hq
  | cons hp _ ih =>
    cases hp with
    | outside _ => exact ih
    | literal hraw => exact List.forall_mem_cons.mpr ⟨⟨_, hraw, rfl⟩, ih⟩

theorem isRaw_of_isLiteral (h : IsLiteral (quotedRaw raw)) : IsRaw raw := by
  obtain ⟨raw', hraw, heq⟩ := h
  rw [quotedRaw, quotedRaw, List.cons.injEq, List.append_left_inj] at heq
  rw [heq.2]
  exact hraw

theorem Head.wf_mapRaw {h : Head} {kind : Kind} (hwf : h.WF kind)
    (hraws : ∀ q ∈ stringPieces (h.mapRaw f).pieces, IsLiteral q) : (h.mapRaw f).WF kind := by
  obtain ⟨before, key⟩ := h
  obtain ⟨hbefore, hkey⟩ := hwf
  refine ⟨hbefore, ?_⟩
  cases key with
  | none => exact hkey
  | some k =>
    cases kind with
    | arr => exact absurd hkey id
    | obj =>
      exact ⟨isRaw_of_isLiteral (hraws _ (List.mem_singleton_self _)), hkey.after, hkey.gap⟩

mutual

theorem Doc.wf_mapRaws : (d : Doc) → d.WF →
    (∀ q ∈ stringPieces (d.mapRaws f).pieces, IsLiteral q) → (d.mapRaws f).WF
  | .word _, h, _ => h
  | .num _, h, _ => h
  | .str _, _, hraws => isRaw_of_isLiteral (hraws _ (List.mem_singleton_self _))
  | .node kind space items, h, hraws => by
    rw [Doc.WF] at h
    rw [Doc.mapRaws, Doc.pieces, stringPieces_text, stringPieces_append,
      stringPieces_joinPieces] at hraws
    rw [Doc.mapRaws, Doc.WF]
    refine ⟨h.1, ?_, wf_mapItems kind items h.2.2 ?_⟩
    · intro hne
      refine h.2.1 ?_
      rintro rfl
      exact hne rfl
    · intro q hq
      exact hraws q (List.mem_append_left _ hq)

theorem wf_mapItems (kind : Kind) : (items : List (Head × Doc × Str)) → ItemsWF kind items →
    (∀ q ∈ (itemPieces (mapItems f items)).flatMap stringPieces, IsLiteral q) →
      ItemsWF kind (mapItems f items)
  | [], _, _ => trivial
  | (h, d, after) :: rest, hwf, hraws => by
    rw [ItemsWF] at hwf
    rw [mapItems, itemPieces, List.flatMap_cons, List.forall_mem_append, stringPieces_append,
      List.forall_mem_append, stringPieces_append, List.forall_mem_append] at hraws
    rw [mapItems, ItemsWF]
    exact ⟨⟨Head.wf_mapRaw hwf.1.1 hraws.1.1, d.wf_mapRaws hwf.1.2.1 hraws.1.2.1, hwf.1.2.2⟩,
      wf_mapItems kind rest hwf.2 hraws.2⟩

end

end Replacing

/-! ## Finding the literals of a text -/

/-- Where a reader of literals is: outside, or in a literal with what it has read of it. -/
inductive Place where
  | outside
  | inside (raw : Str)
  | escaped (raw : Str)

def literals : Place → Str → List Str
  | _, [] => []
  | .outside, c :: s => literals (if c == byte '"' then .inside [] else .outside) s
  | .inside raw, c :: s =>
    if c == byte '"' then quotedRaw raw :: literals .outside s
    else literals (if c == byte '\\' then .escaped (raw ++ [c]) else .inside (raw ++ [c])) s
  | .escaped raw, c :: s => literals (.inside (raw ++ [c])) s

inductive Closed : Str → Prop
  | nil : Closed []
  | plain {c : UInt8} {raw : Str} (hquote : (c == byte '"') = false)
      (hback : (c == byte '\\') = false) (h : Closed raw) : Closed (c :: raw)
  | escape {e : UInt8} {raw : Str} (h : Closed raw) : Closed (byte '\\' :: e :: raw)

theorem ne_of_unhex {a b : UInt8} (ha : (unhex a).isSome = true) (hb : unhex b = none) :
    (a == b) = false := by
  rw [beq_eq_false_iff_ne]
  rintro rfl
  rw [hb] at ha
  cases ha

theorem IsRaw.closed (h : IsRaw raw) : Closed raw := by
  induction h with
  | nil => exact .nil
  | plain hquote hback _ _ ih => exact .plain hquote hback ih
  | escape _ _ ih => exact .escape ih
  | unicode ha hb hc hd _ ih =>
    have hhex : ∀ {x : UInt8} {raw : Str}, (unhex x).isSome = true → Closed raw →
        Closed (x :: raw) :=
      fun hx h => .plain (ne_of_unhex hx (by decide)) (ne_of_unhex hx (by decide)) h
    exact .escape (hhex ha (hhex hb (hhex hc (hhex hd ih))))

theorem literals_closed (h : Closed raw) (seen s : Str) :
    literals (.inside seen) (raw ++ byte '"' :: s) =
      quotedRaw (seen ++ raw) :: literals .outside s := by
  induction h generalizing seen with
  | nil => rw [List.nil_append, List.append_nil, literals, if_pos (by decide)]
  | @plain c raw hquote hback _ ih =>
    rw [List.cons_append, literals, hquote, hback]
    simp only [Bool.false_eq_true, if_false, ih, List.append_assoc, List.singleton_append]
  | @escape e raw _ ih =>
    have hquote : (byte '\\' == byte '"') = false := by decide
    rw [List.cons_append, List.cons_append, literals, hquote]
    simp only [Bool.false_eq_true, if_false, BEq.rfl, if_true, literals, ih, List.append_assoc,
      List.cons_append, List.nil_append]

theorem literals_outside (ht : ∀ c ∈ t, isOutside c = true) (s : Str) :
    literals .outside (t ++ s) = literals .outside s := by
  induction t with
  | nil => rfl
  | cons c t ih =>
    obtain ⟨hc, ht⟩ := List.forall_mem_cons.mp ht
    have hquote : (c == byte '"') = false := by
      rw [beq_eq_false_iff_ne]
      rintro rfl
      exact absurd hc (by decide)
    rw [List.cons_append, literals, hquote]
    exact ih ht

variable {f : Str → Str}

theorem literals_glue (hf : ∀ raw, IsRaw raw → Closed (f raw))
    {ps qs : List TextPiece} (h : AllReplaced f ps qs) (s : Str) :
    literals .outside (glue qs ++ s) = stringPieces qs ++ literals .outside s := by
  induction h with
  | nil => rfl
  | cons hp _ ih =>
    rw [glue_cons, List.append_assoc]
    cases hp with
    | outside ht => rw [literals_outside ht, ih, stringPieces_text]
    | @literal raw hraw =>
      rw [quotedRaw, List.cons_append, List.append_assoc, List.singleton_append, literals,
        if_pos (by decide), literals_closed (hf raw hraw), ih]
      rfl

/-! ## Texts -/

/-- A document with the white space around it. -/
structure Text where
  lead : Str
  doc : Doc
  trail : Str
  wf : doc.WF
  blank_lead : IsBlank lead
  blank_trail : IsBlank trail

namespace Text

def bytes (s : Text) : Str := s.lead ++ (s.doc.text ++ s.trail)

def ofValue (v : Value) (h : v.NumbersOk) : Text where
  lead := []
  doc := v.doc
  trail := []
  wf := v.wf_doc h
  blank_lead := isBlank_nil
  blank_trail := isBlank_nil

theorem bytes_ofValue (v : Value) (h : v.NumbersOk) : (ofValue v h).bytes = v.print :=
  List.append_nil _

theorem parseValue_bytes (s : Text) {fuel : Nat} (hfuel : s.doc.text.length ≤ fuel) :
    parseValue fuel s.bytes = some (s.doc.value, s.trail) := by
  have hstops : Stops s.trail := by
    rw [← List.append_nil s.trail]
    refine Stops.blank s.blank_trail ?_
    intro c hc
    cases hc
  rw [bytes, parseValue_blank fuel s.blank_lead]
  exact s.doc.parseValue_text s.wf fuel s.trail hfuel hstops

theorem value_eq {s t : Text} (h : s.bytes = t.bytes) : s.doc.value = t.doc.value := by
  have hs := s.parseValue_bytes (Nat.le_add_right s.doc.text.length t.doc.text.length)
  have ht := t.parseValue_bytes (Nat.le_add_left t.doc.text.length s.doc.text.length)
  rw [h, ht, Option.some.injEq, Prod.mk.injEq] at hs
  exact hs.1.symm

theorem parse_bytes (s : Text) :
    parse s.bytes = if s.doc.depth ≤ maxNestingDepth then some s.doc.value else none := by
  split
  next hdepth => exact parse_text s.wf hdepth s.blank_lead s.blank_trail
  next hdepth =>
    have hvalid : ¬ valid s.bytes = true := by
      intro hvalid
      obtain ⟨lead, d, trail, hlead, htrail, hwf, hd, htext⟩ := valid_iff.mp hvalid
      have hvalue := value_eq (t := ⟨lead, d, trail, hwf, hlead, htrail⟩) htext
      rw [← s.doc.depth_value, hvalue, d.depth_value] at hdepth
      exact hdepth hd
    rw [parse, if_neg hvalid]

theorem literals_mapRaws (s : Text) (hf : ∀ raw, IsRaw raw → Closed (f raw)) :
    literals .outside (s.lead ++ ((s.doc.mapRaws f).text ++ s.trail)) =
      stringPieces (s.doc.mapRaws f).pieces := by
  have htrail := literals_outside (isOutside_blank s.blank_trail) []
  rw [List.append_nil] at htrail
  rw [literals_outside (isOutside_blank s.blank_lead), ← Doc.glue_pieces,
    literals_glue hf (s.doc.replaced s.wf), htrail]
  exact List.append_nil _

theorem literals_bytes (s : Text) : ∀ q ∈ literals .outside s.bytes, IsLiteral q := by
  have hid : s.doc.mapRaws id = s.doc := s.doc.mapRaws_id
  have hliterals := s.literals_mapRaws (f := id) (fun _ hraw => hraw.closed)
  rw [hid] at hliterals
  rw [bytes, hliterals]
  exact isLiteral_of_replaced (s.doc.replaced (f := id) s.wf)

theorem of_mapRaws {s t : Text} (hf : ∀ raw, IsRaw raw → Closed (f raw))
    (h : s.lead ++ ((s.doc.mapRaws f).text ++ s.trail) = t.bytes) :
    (s.doc.mapRaws f).WF ∧ t.doc.value = (s.doc.mapRaws f).value := by
  have hwf : (s.doc.mapRaws f).WF := by
    refine s.doc.wf_mapRaws s.wf ?_
    rw [← s.literals_mapRaws hf, h]
    exact t.literals_bytes
  exact ⟨hwf, (value_eq (s := ⟨s.lead, _, s.trail, hwf, s.blank_lead, s.blank_trail⟩) h).symm⟩

end Text

end Go.Json
