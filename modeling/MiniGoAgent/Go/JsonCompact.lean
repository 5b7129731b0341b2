/-
# `Go.JsonCompact` — JSON texts without white space

`Doc.compact` is a document with all its white space taken out; it has the same value,
and the same strings as they are written.  `Doc.pieces` cuts the text of a document
into its string literals (keys included) and what stands between them, so that it can
be said of a text that it has no white space outside strings.
-/
import MiniGoAgent.Go.JsonParse

namespace Go.Json

/-! ## String literals, and the text between them -/

/-- A piece of a text, and whether it is a string literal. -/
abbrev TextPiece := Bool × Str

def Key.pieces (k : Key) : List TextPiece :=
  [(true, quotedRaw k.raw), (false, k.after ++ byte ':' :: k.gap)]

def Head.pieces (h : Head) : List TextPiece := (false, h.before) :: (h.key.map Key.pieces).getD []

def piecesTail (ps : List (List TextPiece)) : List TextPiece :=
  ps.flatMap (fun p => (false, [byte ',']) :: p)

def joinPieces : List (List TextPiece) → List TextPiece
  | [] => []
  | p :: ps => p ++ piecesTail ps

mutual

/-- The text of a document cut into its string literals and the text between them. -/
def Doc.pieces : Doc → List TextPiece
  | .word w => [(false, w.text)]
  | .num t => [(false, t)]
  | .str raw => [(true, quotedRaw raw)]
  | .node kind space items =>
    (false, kind.opening :: space) :: (joinPieces (itemPieces items) ++ [(false, [kind.closing])])

def itemPieces : List (Head × Doc × Str) → List (List TextPiece)
  | [] => []
  | (h, d, after) :: rest => (h.pieces ++ (d.pieces ++ [(false, after)])) :: itemPieces rest

end

def glue (ps : List TextPiece) : Str := ps.flatMap (·.2)

theorem glue_append (ps qs : List TextPiece) : glue (ps ++ qs) = glue ps ++ glue qs :=
  List.flatMap_append

theorem glue_cons (p : TextPiece) (ps : List TextPiece) : glue (p :: ps) = p.2 ++ glue ps := rfl

theorem Head.glue_pieces (h : Head) : glue h.pieces = h.text := by
  obtain ⟨before, key⟩ := h
  cases key with
  | none => rfl
  | some k =>
    show before ++ (quotedRaw k.raw ++ ((k.after ++ byte ':' :: k.gap) ++ [])) = _
    rw [List.append_nil]
    rfl

theorem glue_piecesTail (ps : List (List TextPiece)) :
    glue (piecesTail ps) = joinTail (ps.map glue) := by
  induction ps with
  | nil => rfl
  | cons p ps ih =>
    rw [List.map_cons, joinTail, List.flatMap_cons, ← joinTail, ← ih]
    show glue ((false, [byte ',']) :: p ++ piecesTail ps) = _
    rw [glue_append]
    rfl

theorem glue_joinPieces (ps : List (List TextPiece)) :
    glue (joinPieces ps) = joinComma (ps.map glue) := by
  cases ps with
  | nil => rfl
  | cons p ps => rw [joinPieces, glue_append, glue_piecesTail, List.map_cons, joinComma_cons]

mutual

theorem Doc.glue_pieces : (d : Doc) → glue d.pieces = d.text
  | .word w => List.append_nil _
  | .num t => List.append_nil _
  | .str raw => List.append_nil _
  | .node kind space items => by
    rw [Doc.pieces, glue_cons, glue_append, glue_joinPieces, map_glue_itemPieces items, Doc.text]
    rfl

theorem map_glue_itemPieces : (items : List (Head × Doc × Str)) →
    (itemPieces items).map glue = itemTexts items
  | [] => rfl
  | (h, d, after) :: rest => by
    rw [itemPieces, List.map_cons, glue_append, glue_append, h.glue_pieces, d.glue_pieces,
      map_glue_itemPieces rest, itemTexts]
    show (h.text ++ (d.text ++ (after ++ []))) :: _ = _
    rw [List.append_nil]

end

/-! ## Taking the white space out -/

def Head.compact (h : Head) : Head where
  before := []
  key := h.key.map (fun k => { raw := k.raw, after := [], gap := [] })

mutual

def Doc.compact : Doc → Doc
  | .word w => .word w
  | .num t => .num t
  | .str raw => .str raw
  | .node kind _ items => .node kind [] (compactItems items)

def compactItems : List (Head × Doc × Str) → List (Head × Doc × Str)
  | [] => []
  | (h, d, _) :: rest => (h.compact, d.compact, []) :: compactItems rest

end

theorem Head.compact_wf {h : Head} {kind : Kind} (hwf : h.WF kind) : h.compact.WF kind := by
  obtain ⟨before, key⟩ := h
  obtain ⟨-, hkey⟩ := hwf
  refine ⟨isBlank_nil, ?_⟩
  cases kind with
  | arr =>
    cases key with
    | none => trivial
    | some k => exact absurd hkey id
  | obj =>
    cases key with
    | none => exact absurd hkey id
    | some k => exact ⟨hkey.raw, isBlank_nil, isBlank_nil⟩

mutual

theorem Doc.compact_wf : (d : Doc) → d.WF → d.compact.WF
  | .word _, h => h
  | .num _, h => h
  | .str _, h => h
  | .node kind space items, h => by
    rw [Doc.WF] at h
    rw [Doc.compact, Doc.WF]
    exact ⟨isBlank_nil, fun _ => rfl, compactItems_wf kind items h.2.2⟩

theorem compactItems_wf (kind : Kind) : (items : List (Head × Doc × Str)) →
    ItemsWF kind items → ItemsWF kind (compactItems items)
  | [], h => h
  | (h, d, after) :: rest, hwf => by
    rw [ItemsWF] at hwf
    rw [compactItems, ItemsWF]
    exact ⟨⟨h.compact_wf hwf.1.1, d.compact_wf hwf.1.2.1, isBlank_nil⟩,
      compactItems_wf kind rest hwf.2⟩

end

mutual

theorem Doc.depth_compact : (d : Doc) → d.compact.depth = d.depth
  | .word _ => rfl
  | .num _ => rfl
  | .str _ => rfl
  | .node kind space items => by
    rw [Doc.compact, Doc.depth, Doc.depth, itemsDepth_compactItems items]

theorem itemsDepth_compactItems : (items : List (Head × Doc × Str)) →
    itemsDepth (compactItems items) = itemsDepth items
  | [] => rfl
  | (h, d, after) :: rest => by
    rw [compactItems, itemsDepth, itemsDepth, d.depth_compact, itemsDepth_compactItems rest]

end

theorem Head.name_compact (h : Head) : h.compact.name = h.name := by
  obtain ⟨before, key⟩ := h
  cases key <;> rfl

mutual

theorem Doc.value_compact : (d : Doc) → d.compact.value = d.value
  | .word _ => rfl
  | .num _ => rfl
  | .str _ => rfl
  | .node .arr space items => by
    rw [Doc.compact, Doc.value, Doc.value, itemValues_compactItems items]
  | .node .obj space items => by
    rw [Doc.compact, Doc.value, Doc.value, itemMembers_compactItems items]

theorem itemValues_compactItems : (items : List (Head × Doc × Str)) →
    itemValues (compactItems items) = itemValues items
  | [] => rfl
  | (h, d, after) :: rest => by
    rw [compactItems, itemValues, itemValues, d.value_compact, itemValues_compactItems rest]

theorem itemMembers_compactItems : (items : List (Head × Doc × Str)) →
    itemMembers (compactItems items) = itemMembers items
  | [] => rfl
  | (h, d, after) :: rest => by
    rw [compactItems, itemMembers, itemMembers, h.name_compact, d.value_compact,
      itemMembers_compactItems rest]

end

theorem Head.compact_compact (h : Head) : h.compact.compact = h.compact := by
  obtain ⟨before, key⟩ := h
  cases key <;> rfl

mutual

theorem Doc.compact_compact : (d : Doc) → d.compact.compact = d.compact
  | .word _ => rfl
  | .num _ => rfl
  | .str _ => rfl
  | .node kind space items => by
    rw [Doc.compact, Doc.compact, compactItems_compactItems items]

theorem compactItems_compactItems : (items : List (Head × Doc × Str)) →
    compactItems (compactItems items) = compactItems items
  | [] => rfl
  | (h, d, after) :: rest => by
    rw [compactItems, compactItems, h.compact_compact, d.compact_compact,
      compactItems_compactItems rest]

end

/-! ## What is left outside strings -/

def stringPieces (ps : List TextPiece) : List Str := (ps.filter (·.1)).map (·.2)

theorem stringPieces_append (ps qs : List TextPiece) :
    stringPieces (ps ++ qs) = stringPieces ps ++ stringPieces qs := by
  rw [stringPieces, List.filter_append, List.map_append]
  rfl

theorem stringPieces_text (t : Str) (ps : List TextPiece) :
    stringPieces ((false, t) :: ps) = stringPieces ps := rfl

theorem stringPieces_joinPieces (ps : List (List TextPiece)) :
    stringPieces (joinPieces ps) = ps.flatMap stringPieces := by
  have htail : ∀ ps : List (List TextPiece),
      stringPieces (piecesTail ps) = ps.flatMap stringPieces := by
    intro ps
    induction ps with
    | nil => rfl
    | cons p ps ih =>
      show stringPieces ((false, [byte ',']) :: p ++ piecesTail ps) = _
      rw [stringPieces_append, stringPieces_text, ih, List.flatMap_cons]
  cases ps with
  | nil => rfl
  | cons p ps => rw [joinPieces, stringPieces_append, htail, List.flatMap_cons]

theorem Head.stringPieces_compact (h : Head) :
    stringPieces h.compact.pieces = stringPieces h.pieces := by
  obtain ⟨before, key⟩ := h
  cases key <;> rfl

mutual

theorem Doc.stringPieces_compact : (d : Doc) → stringPieces d.compact.pieces = stringPieces d.pieces
  | .word _ => rfl
  | .num _ => rfl
  | .str _ => rfl
  | .node kind space items => by
    rw [Doc.compact, Doc.pieces, Doc.pieces, stringPieces_text, stringPieces_text,
      stringPieces_append, stringPieces_append, stringPieces_joinPieces,
      stringPieces_joinPieces, flatMap_stringPieces_compactItems items]

theorem flatMap_stringPieces_compactItems : (items : List (Head × Doc × Str)) →
    (itemPieces (compactItems items)).flatMap stringPieces = (itemPieces items).flatMap stringPieces
  | [] => rfl
  | (h, d, after) :: rest => by
    rw [compactItems, itemPieces, itemPieces, List.flatMap_cons, List.flatMap_cons,
      flatMap_stringPieces_compactItems rest, stringPieces_append, stringPieces_append,
      stringPieces_append, stringPieces_append, h.stringPieces_compact, d.stringPieces_compact]
    rfl

end

def NoBlanks (ps : List TextPiece) : Prop :=
  ∀ p ∈ ps, p.1 = false → ∀ c ∈ p.2, isSpace c = false

theorem noBlanks_nil : NoBlanks [] := List.forall_mem_nil _

theorem noBlanks_append {ps qs : List TextPiece} (hp : NoBlanks ps) (hq : NoBlanks qs) :
    NoBlanks (ps ++ qs) := by
  exact List.forall_mem_append.mpr ⟨hp, hq⟩

theorem noBlanks_string (t : Str) {ps : List TextPiece} (h : NoBlanks ps) :
    NoBlanks ((true, t) :: ps) := by
  intro p hmem
  rcases List.mem_cons.mp hmem with rfl | hmem
  · intro htext
    cases htext
  · exact h p hmem

theorem noBlanks_text {t : Str} (ht : ∀ c ∈ t, isSpace c = false) {ps : List TextPiece}
    (h : NoBlanks ps) : NoBlanks ((false, t) :: ps) := by
  intro p hmem
  rcases List.mem_cons.mp hmem with rfl | hmem
  · intro _
    exact ht
  · exact h p hmem

theorem isSpace_singleton {b : UInt8} (h : isSpace b = false) : ∀ c ∈ [b], isSpace c = false := by
  exact List.forall_mem_singleton.mpr h

theorem isSpace_wordText (w : Word) : ∀ c ∈ w.text, isSpace c = false := by
  have hall : w.text.all (fun c => !isSpace c) = true := by cases w <;> decide
  intro c hc
  exact (Bool.not_eq_true' _).mp (List.all_eq_true.mp hall c hc)

theorem Kind.isSpace_brackets (kind : Kind) :
    isSpace kind.opening = false ∧ isSpace kind.closing = false := by
  cases kind <;> decide

theorem Head.noBlanks_compact (h : Head) : NoBlanks h.compact.pieces := by
  obtain ⟨before, key⟩ := h
  have hnil : ∀ c ∈ ([] : Str), isSpace c = false := List.forall_mem_nil _
  cases key with
  | none => exact noBlanks_text hnil noBlanks_nil
  | some k =>
    exact noBlanks_text hnil (noBlanks_string _
      (noBlanks_text (isSpace_singleton (by decide)) noBlanks_nil))

theorem noBlanks_joinPieces {ps : List (List TextPiece)} (h : ∀ p ∈ ps, NoBlanks p) :
    NoBlanks (joinPieces ps) := by
  have htail : ∀ ps : List (List TextPiece), (∀ p ∈ ps, NoBlanks p) → NoBlanks (piecesTail ps) := by
    intro ps h
    induction ps with
    | nil => exact noBlanks_nil
    | cons p ps ih =>
      obtain ⟨hp, hps⟩ := List.forall_mem_cons.mp h
      exact noBlanks_append (noBlanks_text (isSpace_singleton (by decide)) hp) (ih hps)
  cases ps with
  | nil => exact noBlanks_nil
  | cons p ps =>
    obtain ⟨hp, hps⟩ := List.forall_mem_cons.mp h
    exact noBlanks_append hp (htail ps hps)

mutual

theorem Doc.noBlanks_compact : (d : Doc) → d.WF → NoBlanks d.compact.pieces
  | .word w, _ => noBlanks_text (isSpace_wordText w) noBlanks_nil
  | .num t, h => noBlanks_text (fun c hc => isSpace_of_isNumByte (h.bytes c hc)) noBlanks_nil
  | .str raw, _ => noBlanks_string _ noBlanks_nil
  | .node kind space items, h => by
    rw [Doc.WF] at h
    rw [Doc.compact, Doc.pieces]
    exact noBlanks_text (isSpace_singleton kind.isSpace_brackets.1)
      (noBlanks_append (noBlanks_joinPieces (noBlanks_compactItems items h.2.2))
        (noBlanks_text (isSpace_singleton kind.isSpace_brackets.2) noBlanks_nil))

theorem noBlanks_compactItems {kind : Kind} : (items : List (Head × Doc × Str)) →
    ItemsWF kind items → ∀ p ∈ itemPieces (compactItems items), NoBlanks p
  | [], _ => fun p hp => absurd hp List.not_mem_nil
  | (h, d, after) :: rest, hwf => by
    rw [ItemsWF] at hwf
    rw [compactItems, itemPieces, List.forall_mem_cons]
    have hend : NoBlanks [(false, [])] := by
      refine noBlanks_text ?_ noBlanks_nil
      intro c hc
      cases hc
    exact ⟨noBlanks_append h.noBlanks_compact
      (noBlanks_append (d.noBlanks_compact hwf.1.2.1) hend), noBlanks_compactItems rest hwf.2⟩

end

end Go.Json
