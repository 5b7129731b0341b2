/-
# `Go.JsonText` — the texts of JSON, with every byte of them

`Doc` is a JSON text taken apart: the literals as they are written, and the white
space at every place where the grammar allows it.  The white space around the whole
is not part of it.

Objects and arrays are one constructor.  They differ in their brackets and in what
stands in front of a value (`Head`): nothing but white space in an array, a key and a
colon in an object.

A well-formed document (`Doc.WF`) of at most `maxNestingDepth` levels is a valid text,
whatever white space stands around it (`valid_text`).
-/
import MiniGoAgent.Go.JsonEncode

namespace Go.Json

variable {ws : Str} {s : Scanner} {c : UInt8}

/-! ## Running the scanner -/

namespace Scanner

@[simp] theorem run_nil (s : Scanner) : s.run [] = some s := rfl

theorem run_cons (s : Scanner) (c : UInt8) (t : Str) :
    s.run (c :: t) = (s.next c).bind (fun s' => s'.run t) := rfl

theorem run_append (s : Scanner) (a b : Str) :
    s.run (a ++ b) = (s.run a).bind (fun s' => s'.run b) := by
  rw [run, List.foldlM_append]
  rfl

theorem run_cons_of_next {r : Scanner} (h : s.next c = some r) (t : Str) :
    s.run (c :: t) = r.run t := by
  rw [run_cons, h, Option.bind_some]

theorem run_append_of_run {s' : Scanner} {a : Str} (h : s.run a = some s') (b : Str) :
    s.run (a ++ b) = s'.run b := by
  rw [run_append, h, Option.bind_some]

end Scanner

open Scanner

/-! ## White space -/

def IsBlank (ws : Str) : Prop := ∀ c ∈ ws, isSpace c = true

theorem isBlank_nil : IsBlank [] := List.forall_mem_nil _

theorem isBlank_cons : IsBlank (c :: ws) ↔ isSpace c = true ∧ IsBlank ws := List.forall_mem_cons

theorem IsBlank.front {ws' : Str} (h : IsBlank ws) (hp : ws' <+: ws) : IsBlank ws' := by
  intro c hc
  exact h c (hp.subset hc)

theorem run_blank (hs : ∀ c, isSpace c = true → s.next c = some s)
    (h : IsBlank ws) : s.run ws = some s := by
  induction ws with
  | nil => rfl
  | cons c ws ih =>
    obtain ⟨hc, hws⟩ := isBlank_cons.mp h
    rw [run_cons_of_next (hs c hc)]
    exact ih hws

theorem next_beginValue_space (st : List ParseState) (hc : isSpace c = true) :
    next ⟨.beginValue, st⟩ c = some ⟨.beginValue, st⟩ := by
  show stateBeginValue st c = _
  rw [stateBeginValue, if_pos hc]

theorem next_beginString_space (st : List ParseState) (hc : isSpace c = true) :
    next ⟨.beginString, st⟩ c = some ⟨.beginString, st⟩ := by
  show stateBeginString st c = _
  rw [stateBeginString, if_pos hc]

theorem stateEndValue_space (st : List ParseState) (hc : isSpace c = true) :
    stateEndValue st c = some (pop st) := by
  cases st with
  | nil =>
    show stateEndTop c = _
    rw [stateEndTop, if_pos hc]
    rfl
  | cons p rest => exact if_pos hc

theorem isNumByte_of_isSpace (hc : isSpace c = true) : isNumByte c = false := by
  simp only [isSpace, Bool.or_eq_true, beq_iff_eq] at hc
  rcases hc with ((rfl | rfl) | rfl) | rfl <;> decide

theorem isSpace_of_isNumByte (hc : isNumByte c = true) : isSpace c = false := by
  cases hspace : isSpace c with
  | false => rfl
  | true =>
    rw [isNumByte_of_isSpace hspace] at hc
    cases hc

theorem ne_of_isNumByte {b : UInt8} (hc : isNumByte c = true) (hb : isNumByte b = false) :
    (c == b) = false := by
  rw [beq_eq_false_iff_ne]
  rintro rfl
  rw [hc] at hb
  cases hb

/-! ## Behind a value -/

/-- The scanner stands behind a value in the containers of `st`. -/
def Ends (s : Scanner) (st : List ParseState) : Prop :=
  ∀ c, isNumByte c = false → s.next c = stateEndValue st c

theorem ends_endValue (st : List ParseState) : Ends ⟨.endValue, st⟩ st := by
  intro c _
  rfl

theorem ends_pop (st : List ParseState) : Ends (pop st) st := by
  intro c _
  cases st <;> rfl

def numEnds : List Step := [.zero, .one, .dot0, .e0]

theorem ends_number {σ : Step} (hσ : σ ∈ numEnds) (st : List ParseState) : Ends ⟨σ, st⟩ st := by
  intro c hc
  have hdigit : isDigit c = false := by
    cases hd : isDigit c with
    | false => rfl
    | true => rw [isNumByte, hd] at hc; cases hc
  simp only [isNumByte, Bool.or_eq_false_iff] at hc
  obtain ⟨⟨⟨_, hdot⟩, he⟩, hE⟩ := hc
  simp only [numEnds, List.mem_cons, List.not_mem_nil, or_false] at hσ
  rcases hσ with rfl | rfl | rfl | rfl <;> simp [next, state0, hdigit, hdot, he, hE]

theorem Ends.blank {st : List ParseState} (h : Ends s st)
    (hws : IsBlank ws) : ∃ s', s.run ws = some s' ∧ Ends s' st := by
  cases ws with
  | nil => exact ⟨s, rfl, h⟩
  | cons c ws =>
    obtain ⟨hc, hws⟩ := isBlank_cons.mp hws
    have hstay : ∀ c, isSpace c = true → (pop st).next c = some (pop st) := by
      intro c hc
      rw [ends_pop st c (isNumByte_of_isSpace hc), stateEndValue_space st hc]
    refine ⟨pop st, ?_, ends_pop st⟩
    rw [run_cons_of_next ((h c (isNumByte_of_isSpace hc)).trans (stateEndValue_space st hc))]
    exact run_blank hstay hws

theorem Ends.eof (h : Ends s []) : s.eof = true := by
  have hblank : s.next 0x20 = some ⟨.endTop, []⟩ := h 0x20 (by decide)
  rw [Scanner.eof, hblank]
  simp

/-! ## Literals -/

/-- What may stand between the quotes of a string. -/
inductive IsRaw : Str → Prop
  | nil : IsRaw []
  | plain {c : UInt8} {raw : Str} : (c == byte '"') = false → (c == byte '\\') = false →
      ¬ c < 0x20 → IsRaw raw → IsRaw (c :: raw)
  | escape {e : UInt8} {raw : Str} : isEscape e = true → IsRaw raw →
      IsRaw (byte '\\' :: e :: raw)
  | unicode {a b c d : UInt8} {raw : Str} : (unhex a).isSome = true →
      (unhex b).isSome = true → (unhex c).isSome = true → (unhex d).isSome = true → IsRaw raw →
      IsRaw (byte '\\' :: byte 'u' :: a :: b :: c :: d :: raw)

theorem IsRaw.run {raw : Str} (h : IsRaw raw) (st : List ParseState) :
    Scanner.run ⟨.inString, st⟩ raw = some ⟨.inString, st⟩ := by
  induction h with
  | nil => rfl
  | plain hquote hback hctl _ ih =>
    rw [run_cons_of_next (r := ⟨.inString, st⟩)]
    · exact ih
    · simp [next, hquote, hback, hctl]
  | escape he _ ih =>
    rw [run_cons_of_next (r := ⟨.inStringEsc, st⟩) rfl, run_cons_of_next (r := ⟨.inString, st⟩)]
    · exact ih
    · simp [next, he]
  | unicode ha hb hc hd _ ih =>
    rw [run_cons_of_next (r := ⟨.inStringEsc, st⟩) rfl,
      run_cons_of_next (r := ⟨.inStringEscU, st⟩) rfl,
      run_cons_of_next (r := ⟨.inStringEscU1, st⟩) (by simp [next, hexDigit, ha]),
      run_cons_of_next (r := ⟨.inStringEscU12, st⟩) (by simp [next, hexDigit, hb]),
      run_cons_of_next (r := ⟨.inStringEscU123, st⟩) (by simp [next, hexDigit, hc]),
      run_cons_of_next (r := ⟨.inString, st⟩) (by simp [next, hexDigit, hd])]
    exact ih

def quotedRaw (raw : Str) : Str := byte '"' :: (raw ++ [byte '"'])

theorem run_quotedRaw {st : List ParseState} (hs : s.next (byte '"') = some ⟨.inString, st⟩)
    {raw : Str} (h : IsRaw raw) : s.run (quotedRaw raw) = some ⟨.endValue, st⟩ := by
  rw [quotedRaw, run_cons_of_next hs, run_append_of_run (h.run st)]
  rfl

structure IsNumber (t : Str) : Prop where
  nonempty : t ≠ []
  bytes : ∀ c ∈ t, isNumByte c = true
  scans : ∃ σ ∈ numEnds, ∀ st, Scanner.run ⟨.beginValue, st⟩ t = some ⟨σ, st⟩

inductive Word where
  | null
  | true
  | false
  deriving DecidableEq, Repr

def Word.text : Word → Str
  | .null => [byte 'n', byte 'u', byte 'l', byte 'l']
  | .true => [byte 't', byte 'r', byte 'u', byte 'e']
  | .false => [byte 'f', byte 'a', byte 'l', byte 's', byte 'e']

theorem Word.run (w : Word) (st : List ParseState) :
    Scanner.run ⟨.beginValue, st⟩ w.text = some ⟨.endValue, st⟩ := by
  cases w <;> rfl

/-! ## Documents -/

/-- An array or an object. -/
inductive Kind where
  | arr
  | obj
  deriving DecidableEq, Repr

/-- A key as it is written, the white space in front of its colon and behind. -/
structure Key where
  raw : Str
  after : Str
  gap : Str
  deriving DecidableEq, Repr

/-- What stands in front of a value in a container. -/
structure Head where
  before : Str
  key : Option Key
  deriving DecidableEq, Repr

/-- The pieces of a JSON text.  An item of a container is what stands in front of the
value, the value, and the white space behind it; `space` is the white space of a
container without items. -/
inductive Doc where
  | word (w : Word)
  | num (text : Str)
  | str (raw : Str)
  | node (kind : Kind) (space : Str) (items : List (Head × Doc × Str))
  deriving Repr

abbrev Item := Head × Doc × Str

variable {d : Doc}

def Kind.opening : Kind → UInt8
  | .arr => byte '['
  | .obj => byte '{'

def Kind.closing : Kind → UInt8
  | .arr => byte ']'
  | .obj => byte '}'

def Key.text (k : Key) : Str := quotedRaw k.raw ++ (k.after ++ byte ':' :: k.gap)

def Head.text (h : Head) : Str := h.before ++ (h.key.map Key.text).getD []

mutual

def Doc.text : Doc → Str
  | .word w => w.text
  | .num t => t
  | .str raw => quotedRaw raw
  | .node kind space items =>
    kind.opening :: (space ++ (joinComma (itemTexts items) ++ [kind.closing]))

def itemTexts : List (Head × Doc × Str) → List Str
  | [] => []
  | (h, d, after) :: rest => (h.text ++ (d.text ++ after)) :: itemTexts rest

end

structure Key.WF (k : Key) : Prop where
  raw : IsRaw k.raw
  after : IsBlank k.after
  gap : IsBlank k.gap

/-- A member has a key, an element has none. -/
def Head.WF (h : Head) (kind : Kind) : Prop :=
  IsBlank h.before ∧
    match kind, h.key with
    | .arr, none => True
    | .obj, some k => k.WF
    | _, _ => False

mutual

def Doc.WF : Doc → Prop
  | .word _ => True
  | .num t => IsNumber t
  | .str raw => IsRaw raw
  | .node kind space items => IsBlank space ∧ (items ≠ [] → space = []) ∧ ItemsWF kind items

def ItemsWF (kind : Kind) : List (Head × Doc × Str) → Prop
  | [] => True
  | (h, d, after) :: rest => (h.WF kind ∧ d.WF ∧ IsBlank after) ∧ ItemsWF kind rest

end

mutual

/-- How many containers are open at the innermost place. -/
def Doc.depth : Doc → Nat
  | .node _ _ items => itemsDepth items + 1
  | _ => 0

def itemsDepth : List (Head × Doc × Str) → Nat
  | [] => 0
  | (_, d, _) :: rest => max d.depth (itemsDepth rest)

end

theorem itemTexts_append (xs ys : List Item) :
    itemTexts (xs ++ ys) = itemTexts xs ++ itemTexts ys := by
  induction xs with
  | nil => rfl
  | cons x xs ih =>
    obtain ⟨h, d, after⟩ := x
    simp only [List.cons_append, itemTexts, ih]

variable {kind : Kind}

theorem itemsWF_append {xs ys : List Item} :
    ItemsWF kind (xs ++ ys) ↔ ItemsWF kind xs ∧ ItemsWF kind ys := by
  induction xs with
  | nil => simp [ItemsWF]
  | cons x xs ih =>
    obtain ⟨h, d, after⟩ := x
    simp only [List.cons_append, ItemsWF, ih, and_assoc]

theorem itemsDepth_append (xs ys : List Item) :
    itemsDepth (xs ++ ys) = max (itemsDepth xs) (itemsDepth ys) := by
  induction xs with
  | nil => simp [itemsDepth]
  | cons x xs ih =>
    obtain ⟨h, d, after⟩ := x
    simp only [List.cons_append, itemsDepth, ih, max_assoc]

def joinTail (ts : List Str) : Str := ts.flatMap (fun t => byte ',' :: t)

theorem joinComma_cons (t : Str) (ts : List Str) : joinComma (t :: ts) = t ++ joinTail ts := by
  induction ts generalizing t with
  | nil => simp [joinComma, joinTail]
  | cons u us ih =>
    rw [joinComma, ih u]
    · simp [joinTail]
    · exact List.cons_ne_nil u us

theorem joinTail_itemTexts {items : List Item} (h : items ≠ []) :
    joinTail (itemTexts items) = byte ',' :: joinComma (itemTexts items) := by
  cases items with
  | nil => exact absurd rfl h
  | cons it items =>
    obtain ⟨head, d, after⟩ := it
    rw [itemTexts, joinComma_cons]
    rfl

theorem Doc.text_start (h : d.WF) :
    ∃ c t, d.text = c :: t ∧ isSpace c = false ∧ (c == byte ']') = false ∧
      (c == byte ',') = false := by
  cases d with
  | word w => cases w <;> exact ⟨_, _, rfl, by decide, by decide, by decide⟩
  | num t =>
    cases t with
    | nil => exact absurd rfl h.nonempty
    | cons c t =>
      have hc : isNumByte c = true := h.bytes c (List.mem_cons_self ..)
      exact ⟨c, t, rfl, isSpace_of_isNumByte hc, ne_of_isNumByte hc (by decide),
        ne_of_isNumByte hc (by decide)⟩
  | str raw => exact ⟨_, _, rfl, by decide, by decide, by decide⟩
  | node kind space items => cases kind <;> exact ⟨_, _, rfl, by decide, by decide, by decide⟩

theorem Doc.text_last (h : d.WF) :
    ∃ t c, d.text = t ++ [c] ∧ isSpace c = false ∧ (c == byte ',') = false ∧
      (c == byte ':') = false := by
  cases d with
  | word w =>
    cases w with
    | null => exact ⟨[byte 'n', byte 'u', byte 'l'], byte 'l', rfl, by decide, by decide, by decide⟩
    | true => exact ⟨[byte 't', byte 'r', byte 'u'], byte 'e', rfl, by decide, by decide, by decide⟩
    | false =>
      exact ⟨[byte 'f', byte 'a', byte 'l', byte 's'], byte 'e', rfl, by decide, by decide,
        by decide⟩
  | num text =>
    rcases List.eq_nil_or_concat text with hnil | ⟨t, c, hconcat⟩
    · exact absurd hnil h.nonempty
    · rw [List.concat_eq_append] at hconcat
      have hc : isNumByte c = true := h.bytes c (by rw [hconcat]; simp)
      exact ⟨t, c, hconcat, isSpace_of_isNumByte hc, ne_of_isNumByte hc (by decide),
        ne_of_isNumByte hc (by decide)⟩
  | str raw => exact ⟨byte '"' :: raw, byte '"', rfl, by decide, by decide, by decide⟩
  | node kind space items =>
    refine ⟨kind.opening :: (space ++ joinComma (itemTexts items)), kind.closing, ?_, ?_⟩
    · simp [Doc.text]
    · cases kind <;> decide

/-! ## The scanner on a document -/

namespace Kind

def opened (kind : Kind) (st : List ParseState) : Scanner :=
  match kind with
  | .arr => ⟨.beginValueOrEmpty, .arrayValue :: st⟩
  | .obj => ⟨.beginStringOrEmpty, .objectKey :: st⟩

/-- In front of an item behind a comma. -/
def item (kind : Kind) (st : List ParseState) : Scanner :=
  match kind with
  | .arr => ⟨.beginValue, .arrayValue :: st⟩
  | .obj => ⟨.beginString, .objectKey :: st⟩

/-- The containers at the value of an item. -/
def inside (kind : Kind) (st : List ParseState) : List ParseState :=
  match kind with
  | .arr => .arrayValue :: st
  | .obj => .objectValue :: st

variable (kind : Kind) (st : List ParseState)

theorem length_inside : (kind.inside st).length = st.length + 1 := by
  cases kind <;> rfl

theorem next_opening (h : st.length + 1 ≤ maxNestingDepth) :
    next ⟨.beginValue, st⟩ kind.opening = some (kind.opened st) := by
  cases kind <;> exact if_pos h

theorem next_closing : stateEndValue (kind.inside st) kind.closing = some (pop st) := by
  cases kind <;> rfl

theorem next_comma : stateEndValue (kind.inside st) (byte ',') = some (kind.item st) := by
  cases kind <;> rfl

theorem opened_space (hc : isSpace c = true) : (kind.opened st).next c = some (kind.opened st) := by
  cases kind <;> exact if_pos hc

theorem item_space (hc : isSpace c = true) : (kind.item st).next c = some (kind.item st) := by
  cases kind with
  | arr => exact next_beginValue_space _ hc
  | obj => exact next_beginString_space _ hc

theorem opened_closing : (kind.opened st).next kind.closing = some (pop st) := by
  cases kind <;> rfl

theorem opened_next (hspace : isSpace c = false) (hclose : (c == kind.closing) = false) :
    (kind.opened st).next c = (kind.item st).next c := by
  cases kind with
  | arr =>
    have h : (c == byte ']') = false := hclose
    simp [opened, item, next, hspace, h]
  | obj =>
    have h : (c == byte '}') = false := hclose
    simp [opened, item, next, hspace, h]

theorem run_opened {t : Str} (hws : IsBlank ws) (hspace : isSpace c = false)
    (hclose : (c == kind.closing) = false) :
    (kind.opened st).run (ws ++ c :: t) = (kind.item st).run (ws ++ c :: t) := by
  rw [run_append_of_run (run_blank (fun _ => kind.opened_space st) hws),
    run_append_of_run (run_blank (fun _ => kind.item_space st) hws), run_cons, run_cons,
    kind.opened_next st hspace hclose]

end Kind

theorem Key.run {k : Key} (h : k.WF) (st : List ParseState) :
    Scanner.run ⟨.beginString, .objectKey :: st⟩ k.text =
      some ⟨.beginValue, .objectValue :: st⟩ := by
  have hstay : ∀ c, isSpace c = true → next ⟨.endValue, .objectKey :: st⟩ c =
      some ⟨.endValue, .objectKey :: st⟩ := by
    intro c hc
    exact stateEndValue_space (.objectKey :: st) hc
  rw [Key.text, run_append_of_run (run_quotedRaw (by rfl) h.raw),
    run_append_of_run (run_blank hstay h.after),
    run_cons_of_next (r := ⟨.beginValue, .objectValue :: st⟩) rfl]
  exact run_blank (fun _ => next_beginValue_space _) h.gap

theorem Head.run {h : Head} (hwf : h.WF kind) (st : List ParseState) :
    (kind.item st).run h.text = some ⟨.beginValue, kind.inside st⟩ := by
  obtain ⟨before, key⟩ := h
  obtain ⟨hbefore, hkey⟩ := hwf
  rw [Head.text, run_append_of_run (run_blank (fun _ => kind.item_space st) hbefore)]
  cases kind with
  | arr =>
    cases key with
    | none => rfl
    | some k => exact absurd hkey id
  | obj =>
    cases key with
    | none => exact absurd hkey id
    | some k => exact Key.run hkey st

theorem item_start {h : Head} (hwf : h.WF kind) (hd : d.WF) (t : Str) :
    ∃ ws c t', h.text ++ (d.text ++ t) = ws ++ c :: t' ∧ IsBlank ws ∧ isSpace c = false ∧
      (c == kind.closing) = false := by
  obtain ⟨before, key⟩ := h
  obtain ⟨hbefore, hkey⟩ := hwf
  cases kind with
  | arr =>
    cases key with
    | some k => exact absurd hkey id
    | none =>
      obtain ⟨c, t', htext, hspace, hclose, _⟩ := d.text_start hd
      refine ⟨before, c, t' ++ t, ?_, hbefore, hspace, hclose⟩
      simp [Head.text, htext]
  | obj =>
    cases key with
    | none => exact absurd hkey id
    | some k =>
      refine ⟨before, byte '"', k.raw ++ [byte '"'] ++ (k.after ++ byte ':' :: k.gap) ++
        (d.text ++ t), ?_, hbefore, by decide, by decide⟩
      simp [Head.text, Key.text, quotedRaw]

mutual

theorem Doc.run_text : (d : Doc) → d.WF → (st : List ParseState) →
    st.length + d.depth ≤ maxNestingDepth →
    ∃ s, Scanner.run ⟨.beginValue, st⟩ d.text = some s ∧ Ends s st
  | .word w, _, st, _ => ⟨_, w.run st, ends_endValue st⟩
  | .num t, h, st, _ => by
    obtain ⟨σ, hσ, hrun⟩ := IsNumber.scans h
    exact ⟨_, hrun st, ends_number hσ st⟩
  | .str raw, h, st, _ => ⟨_, run_quotedRaw (by rfl) h, ends_endValue st⟩
  | .node kind space items, h, st, hdepth => by
    obtain ⟨hspace, hno, hitems⟩ := h
    simp only [Doc.depth] at hdepth
    rw [Doc.text, run_cons_of_next (kind.next_opening st (by omega))]
    cases items with
    | nil =>
      rw [run_append_of_run (run_blank (fun _ => kind.opened_space st) hspace)]
      exact ⟨pop st, run_cons_of_next (kind.opened_closing st) [], ends_pop st⟩
    | cons it rest =>
      rw [hno (List.cons_ne_nil _ _), List.nil_append]
      obtain ⟨s, hrun, hends⟩ := run_items kind (it :: rest) hitems st (by omega)
        (List.cons_ne_nil _ _)
      obtain ⟨hh, d, after⟩ := it
      obtain ⟨⟨hhead, hd, _⟩, _⟩ := hitems
      obtain ⟨ws, c, t', hstart, hws, hc, hclose⟩ := item_start hhead hd
        (after ++ (joinTail (itemTexts rest) ++ [kind.closing]))
      have hsame : joinComma (itemTexts ((hh, d, after) :: rest)) ++ [kind.closing] =
          ws ++ c :: t' := by
        rw [itemTexts, joinComma_cons, ← hstart]
        simp
      rw [hsame, kind.run_opened st hws hc hclose, ← hsame, run_append_of_run hrun]
      have hclosing : s.next kind.closing = some (pop st) := by
        rw [hends _ (by cases kind <;> decide), kind.next_closing st]
      exact ⟨pop st, run_cons_of_next hclosing [], ends_pop st⟩

theorem run_items (kind : Kind) : (items : List (Head × Doc × Str)) → ItemsWF kind items →
    (st : List ParseState) → st.length + 1 + itemsDepth items ≤ maxNestingDepth → items ≠ [] →
    ∃ s, (kind.item st).run (joinComma (itemTexts items)) = some s ∧ Ends s (kind.inside st)
  | [], _, _, _, hne => absurd rfl hne
  | (h, d, after) :: rest, hwf, st, hdepth, _ => by
    obtain ⟨⟨hhead, hd, hafter⟩, hrest⟩ := hwf
    simp only [itemsDepth] at hdepth
    obtain ⟨s, hrun, hends⟩ := Doc.run_text d hd (kind.inside st)
      (by rw [kind.length_inside]; omega)
    obtain ⟨s', hrun', hends'⟩ := hends.blank hafter
    have hitem : (kind.item st).run (h.text ++ (d.text ++ after)) = some s' := by
      rw [run_append_of_run (Head.run hhead st), run_append_of_run hrun, hrun']
    cases rest with
    | nil => exact ⟨s', hitem, hends'⟩
    | cons it rest =>
      obtain ⟨s'', hrun'', hends''⟩ := run_items kind (it :: rest) hrest st (by omega)
        (List.cons_ne_nil _ _)
      refine ⟨s'', ?_, hends''⟩
      have hcomma : s'.next (byte ',') = some (kind.item st) := by
        rw [hends' _ (by decide), kind.next_comma st]
      rw [itemTexts, joinComma, run_append_of_run hitem, run_cons_of_next hcomma, hrun'']
      · simp [itemTexts]

end

theorem valid_text (h : d.WF) (hdepth : d.depth ≤ maxNestingDepth) {lead trail : Str}
    (hlead : IsBlank lead) (htrail : IsBlank trail) : valid (lead ++ (d.text ++ trail)) = true := by
  obtain ⟨s, hrun, hends⟩ := d.run_text h [] (by simpa using hdepth)
  obtain ⟨s', hrun', hends'⟩ := hends.blank htrail
  have hall : Scanner.init.run (lead ++ (d.text ++ trail)) = some s' := by
    rw [Scanner.init, run_append_of_run (run_blank (fun _ => next_beginValue_space []) hlead),
      run_append_of_run hrun, hrun']
  rw [valid, hall]
  exact hends'.eof

end Go.Json
