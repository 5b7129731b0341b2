/-
# `Go.JsonCut` — documents cut short

`Cut d p e kinds left`: the text of the document `d` breaks off behind `p`, at one of
the places where it can be completed without a guess; `left` is the document that is
left of it.  The places are

    opened          behind the bracket of a container
    comma, colon    behind a separator
    item            behind a complete value
    string, escape  inside a string in the place of a value, but not inside of a
                    `\u` escape
    inner           any of these inside of a value

and each of the first three may be followed by some of the white space that follows it
in `d`.  `kinds` are the containers that are open there, the innermost first, and the
`BreakOff` says what of `p` is no part of `left` and what `left` has in its place.

What is complete in `p` is told by positions (`Doc.endAt`): the place behind the item
at a path.
-/
import MiniGoAgent.Go.JsonParse

namespace Go.Json

variable {kind : Kind} {path : List Nat} {i n : Nat}

/-! ## Where a text may break off -/

/-- How a text breaks off; a separator with the white space behind it. -/
inductive BreakOff where
  | none
  | comma (ws : Str)
  | colon (ws : Str)
  | string
  | escape
  deriving DecidableEq, Repr

/-- What cannot stay at the end of the text. -/
def BreakOff.dropped : BreakOff → Str
  | .none => []
  | .comma ws => byte ',' :: ws
  | .colon ws => ws
  | .string => []
  | .escape => [byte '\\']

/-- What is missing there, the brackets apart. -/
def BreakOff.supplied : BreakOff → Str
  | .none => []
  | .comma _ => []
  | .colon _ => Word.null.text
  | .string => [byte '"']
  | .escape => [byte '"']

def joinLead (ts : List Str) : Str := ts.flatMap (fun t => t ++ [byte ','])

/-- The white space behind the bracket of a container. -/
def openSpace (space : Str) (items : List Item) : Str :=
  space ++ (items.head?.map (fun it => it.1.before)).getD []

inductive Cut : Doc → Str → BreakOff → List Kind → Doc → Prop
  | opened {kind : Kind} {space ws : Str} {items : List Item} :
      ws <+: openSpace space items →
      Cut (.node kind space items) (kind.opening :: ws) .none [kind] (.node kind ws [])
  | comma {kind : Kind} {pre post : List Item} {it : Item} {ws : Str} :
      pre ≠ [] → ws <+: it.1.before →
      Cut (.node kind [] (pre ++ it :: post))
        (kind.opening :: (joinLead (itemTexts pre) ++ ws)) (.comma ws) [kind] (.node kind [] pre)
  | colon {pre post : List Item} {before after ws : Str} {k : Key} {d : Doc} :
      ws <+: k.gap →
      Cut (.node .obj [] (pre ++ (⟨before, some k⟩, d, after) :: post))
        (Kind.obj.opening :: (joinLead (itemTexts pre) ++
          Head.text ⟨before, some { k with gap := ws }⟩)) (.colon ws) [.obj]
        (.node .obj [] (pre ++ [(⟨before, some { k with gap := [] }⟩, .word .null, [])]))
  | item {kind : Kind} {pre post : List Item} {h : Head} {d : Doc} {after ws : Str} :
      ws <+: after →
      Cut (.node kind [] (pre ++ (h, d, after) :: post))
        (kind.opening :: (joinLead (itemTexts pre) ++ (h.text ++ (d.text ++ ws)))) .none [kind]
        (.node kind [] (pre ++ [(h, d, ws)]))
  | string {kind : Kind} {pre post : List Item} {h : Head} {raw r after : Str} :
      r <+: raw → IsRaw r →
      Cut (.node kind [] (pre ++ (h, .str raw, after) :: post))
        (kind.opening :: (joinLead (itemTexts pre) ++ (h.text ++ byte '"' :: r))) .string [kind]
        (.node kind [] (pre ++ [(h, .str r, [])]))
  | escape {kind : Kind} {pre post : List Item} {h : Head} {raw r after : Str} :
      r ++ [byte '\\'] <+: raw → IsRaw r →
      Cut (.node kind [] (pre ++ (h, .str raw, after) :: post))
        (kind.opening :: (joinLead (itemTexts pre) ++ (h.text ++ byte '"' :: (r ++ [byte '\\']))))
        .escape [kind] (.node kind [] (pre ++ [(h, .str r, [])]))
  | inner {kind : Kind} {pre post : List Item} {h : Head} {d left : Doc} {after p : Str}
      {e : BreakOff} {kinds : List Kind} :
      Cut d p e kinds left →
      Cut (.node kind [] (pre ++ (h, d, after) :: post))
        (kind.opening :: (joinLead (itemTexts pre) ++ (h.text ++ p))) e (kinds ++ [kind])
        (.node kind [] (pre ++ [(h, left, [])]))

/-! ## Texts of containers -/

theorem joinLead_cons (t : Str) (ts : List Str) (s : Str) :
    joinLead (t :: ts) ++ s = t ++ byte ',' :: (joinLead ts ++ s) := by
  simp [joinLead]

theorem joinComma_append_cons (ts : List Str) (t : Str) (us : List Str) :
    joinComma (ts ++ t :: us) = joinLead ts ++ (t ++ joinTail us) := by
  induction ts with
  | nil => exact joinComma_cons t us
  | cons u ts ih =>
    rw [joinLead_cons, ← ih, List.cons_append, joinComma]
    simp

theorem joinLead_itemTexts {items : List Item} (h : items ≠ []) :
    joinLead (itemTexts items) = joinComma (itemTexts items) ++ [byte ','] := by
  rcases List.eq_nil_or_concat items with rfl | ⟨pre, it, rfl⟩
  · exact absurd rfl h
  · obtain ⟨head, d, after⟩ := it
    rw [List.concat_eq_append, itemTexts_append, itemTexts, itemTexts, joinComma_append_cons]
    simp [joinLead, joinTail]

def itemText (it : Item) : Str := it.1.text ++ (it.2.1.text ++ it.2.2)

theorem prefix_itemText {h : Head} {d : Doc} {after q : Str} (hq : q <+: d.text ++ after) :
    h.text ++ q <+: itemText (h, d, after) :=
  (List.prefix_append_right_inj _).mpr hq

theorem prefix_quotedRaw {raw r : Str} (hr : r <+: raw) (after : Str) :
    byte '"' :: r <+: (Doc.str raw).text ++ after := by
  obtain ⟨q, rfl⟩ := hr
  exact ⟨q ++ byte '"' :: after, by simp [Doc.text, quotedRaw]⟩

theorem prefix_headText {before ws : Str} {k : Key} (hws : ws <+: k.gap) :
    Head.text ⟨before, some { k with gap := ws }⟩ <+: Head.text ⟨before, some k⟩ := by
  obtain ⟨q, hq⟩ := hws
  exact ⟨q, by simp [Head.text, Key.text, ← hq]⟩

theorem text_node (kind : Kind) (pre post : List Item) (h : Head) (d : Doc) (after : Str) :
    (Doc.node kind [] (pre ++ (h, d, after) :: post)).text =
      kind.opening :: (joinLead (itemTexts pre) ++ (h.text ++ (d.text ++ (after ++
        (joinTail (itemTexts post) ++ [kind.closing]))))) := by
  rw [Doc.text, itemTexts_append, itemTexts, joinComma_append_cons]
  simp

variable {it : Item}

theorem text_node_append (kind : Kind) (pre post : List Item) {x : Str}
    (hx : x <+: itemText it) : ∃ q, q ≠ [] ∧ (Doc.node kind [] (pre ++ it :: post)).text =
      kind.opening :: (joinLead (itemTexts pre) ++ x) ++ q := by
  obtain ⟨q, hq⟩ := hx
  obtain ⟨h, d, after⟩ := it
  have htext : h.text ++ (d.text ++ after) = x ++ q := hq.symm
  refine ⟨q ++ (joinTail (itemTexts post) ++ [kind.closing]), by simp, ?_⟩
  rw [text_node, ← List.append_assoc d.text, ← List.append_assoc h.text, htext]
  simp

theorem text_node_last (kind : Kind) (pre : List Item) (h : Head) (d : Doc) (after : Str) :
    (Doc.node kind [] (pre ++ [(h, d, after)])).text =
      kind.opening :: (joinLead (itemTexts pre) ++ (h.text ++ (d.text ++ (after ++
        [kind.closing])))) := by
  rw [text_node]
  simp [itemTexts, joinTail]

theorem wf_node {pre post : List Item} {h : Head} {d : Doc} {after : Str} :
    (Doc.node kind [] (pre ++ (h, d, after) :: post)).WF ↔
      ItemsWF kind pre ∧ (h.WF kind ∧ d.WF ∧ IsBlank after) ∧ ItemsWF kind post := by
  rw [Doc.WF, itemsWF_append, ItemsWF]
  constructor
  · rintro ⟨_, _, hpre, hit, hpost⟩
    exact ⟨hpre, hit, hpost⟩
  · rintro ⟨hpre, hit, hpost⟩
    exact ⟨isBlank_nil, fun _ => rfl, hpre, hit, hpost⟩

theorem depth_node (kind : Kind) (pre post : List Item) (h : Head) (d : Doc) (after : Str) :
    (Doc.node kind [] (pre ++ (h, d, after) :: post)).depth =
      max (itemsDepth pre) (max d.depth (itemsDepth post)) + 1 := by
  rw [Doc.depth, itemsDepth_append, itemsDepth]

/-! ## What is left -/

/-- How the text goes that stays: it ends in a byte that is no separator, or in the
colon that a value is supplied behind. -/
def BreakOff.Last (e : BreakOff) (kept : Str) : Prop :=
  match e with
  | .none => ∃ q c ws, kept = q ++ c :: ws ∧ IsBlank ws ∧ isSpace c = false ∧
      (c == byte ',') = false ∧ (c == byte ':') = false
  | .comma ws => IsBlank ws
  | .colon ws => IsBlank ws ∧ ∃ q, kept = q ++ [byte ':']
  | _ => True

theorem BreakOff.Last.append {e : BreakOff} {kept : Str} (h : e.Last kept) (x : Str) :
    e.Last (x ++ kept) := by
  cases e with
  | none =>
    obtain ⟨q, c, ws, rfl, hws, hc⟩ := h
    exact ⟨x ++ q, c, ws, by simp, hws, hc⟩
  | comma ws => exact h
  | colon ws =>
    obtain ⟨hws, q, rfl⟩ := h
    exact ⟨hws, x ++ q, by simp⟩
  | string | escape => trivial

theorem isBlank_openSpace {space : Str} {items : List Item}
    (h : (Doc.node kind space items).WF) : IsBlank (openSpace space items) := by
  obtain ⟨hspace, hno, hitems⟩ := h
  cases items with
  | nil => simpa [openSpace] using hspace
  | cons it items =>
    obtain ⟨head, d, after⟩ := it
    rw [openSpace, hno (List.cons_ne_nil _ _)]
    exact hitems.1.1.1

namespace Cut

variable {d left : Doc} {p : Str} {e : BreakOff} {kinds : List Kind}

theorem append_text (h : Cut d p e kinds left) : ∃ q, q ≠ [] ∧ d.text = p ++ q := by
  induction h with
  | @opened kind space ws items hws =>
    obtain ⟨q, hq⟩ := hws
    have hopen : ∃ r, r ≠ [] ∧ (Doc.node kind space items).text =
        kind.opening :: (openSpace space items ++ r) := by
      cases items with
      | nil => exact ⟨[kind.closing], by simp, by simp [Doc.text, openSpace, itemTexts, joinComma]⟩
      | cons it items =>
        obtain ⟨⟨before, key⟩, d, after⟩ := it
        refine ⟨(key.map Key.text).getD [] ++ (d.text ++ (after ++
          (joinTail (itemTexts items) ++ [kind.closing]))), by simp, ?_⟩
        rw [Doc.text, itemTexts, joinComma_cons, Head.text]
        simp [openSpace]
    obtain ⟨r, hr, htext⟩ := hopen
    exact ⟨q ++ r, by simp [hr], by simp [htext, ← hq]⟩
  | comma _ hws =>
    exact text_node_append _ _ _ (hws.trans ((List.prefix_append ..).trans (List.prefix_append ..)))
  | colon hws => exact text_node_append _ _ _ ((prefix_headText hws).trans (List.prefix_append ..))
  | item hws =>
    exact text_node_append _ _ _ (prefix_itemText ((List.prefix_append_right_inj _).mpr hws))
  | string hr _ | escape hr _ =>
    exact text_node_append _ _ _ (prefix_itemText (prefix_quotedRaw hr _))
  | inner _ ih =>
    obtain ⟨q, _, hq⟩ := ih
    exact text_node_append _ _ _ (prefix_itemText ⟨q ++ _, by rw [hq, List.append_assoc]⟩)

theorem text_left (h : Cut d p e kinds left) (hwf : d.WF) :
    ∃ kept, p = kept ++ e.dropped ∧ e.Last kept ∧
      left.text = kept ++ (e.supplied ++ kinds.map Kind.closing) := by
  induction h with
  | @opened kind space ws items hws =>
    refine ⟨kind.opening :: ws, by simp [BreakOff.dropped], ?_, ?_⟩
    · exact ⟨[], kind.opening, ws, rfl, (isBlank_openSpace hwf).front hws,
        by cases kind <;> decide⟩
    · simp [Doc.text, itemTexts, joinComma, BreakOff.supplied]
  | @comma kind pre post it ws hne hws =>
    obtain ⟨h, d, after⟩ := it
    obtain ⟨_, ⟨hh, _⟩, _⟩ := wf_node.mp hwf
    refine ⟨kind.opening :: joinComma (itemTexts pre), ?_, hh.1.front hws, ?_⟩
    · rw [joinLead_itemTexts hne]
      simp [BreakOff.dropped]
    · simp [Doc.text, BreakOff.supplied]
  | @colon pre post before after ws k d hws =>
    obtain ⟨_, ⟨⟨_, hk⟩, _⟩, _⟩ := wf_node.mp hwf
    refine ⟨Kind.obj.opening :: (joinLead (itemTexts pre) ++
      Head.text ⟨before, some { k with gap := [] }⟩), ?_, ⟨hk.gap.front hws, ?_⟩, ?_⟩
    · simp [Head.text, Key.text, BreakOff.dropped]
    · refine ⟨Kind.obj.opening :: (joinLead (itemTexts pre) ++ (before ++ (quotedRaw k.raw ++
        k.after))), ?_⟩
      simp [Head.text, Key.text]
    · rw [text_node_last]
      simp [BreakOff.supplied, Doc.text]
  | @item kind pre post h d after ws hws =>
    obtain ⟨_, ⟨_, hd, hafter⟩, _⟩ := wf_node.mp hwf
    refine ⟨_, (List.append_nil _).symm, ?_, ?_⟩
    · obtain ⟨t, c, htext, hc⟩ := d.text_last hd
      refine ⟨kind.opening :: (joinLead (itemTexts pre) ++ (h.text ++ t)), c, ws, ?_,
        hafter.front hws, hc⟩
      simp [htext]
    · rw [text_node_last]
      simp [BreakOff.supplied]
  | @string kind pre post h raw r after hr _ =>
    refine ⟨_, (List.append_nil _).symm, trivial, ?_⟩
    rw [text_node_last]
    simp [BreakOff.supplied, Doc.text, quotedRaw]
  | @escape kind pre post h raw r after hr _ =>
    refine ⟨kind.opening :: (joinLead (itemTexts pre) ++ (h.text ++ byte '"' :: r)), ?_,
      trivial, ?_⟩
    · simp [BreakOff.dropped]
    · rw [text_node_last]
      simp [BreakOff.supplied, Doc.text, quotedRaw]
  | @inner kind pre post h d left after p e kinds _ ih =>
    obtain ⟨_, ⟨_, hd, _⟩, _⟩ := wf_node.mp hwf
    obtain ⟨kept, rfl, hlast, htext⟩ := ih hd
    refine ⟨kind.opening :: (joinLead (itemTexts pre) ++ (h.text ++ kept)), by simp, ?_, ?_⟩
    · have := hlast.append (kind.opening :: (joinLead (itemTexts pre) ++ h.text))
      simpa using this
    · rw [text_node_last, htext]
      simp

theorem wf_left (h : Cut d p e kinds left) (hwf : d.WF) : left.WF ∧ left.depth ≤ d.depth := by
  induction h with
  | @opened kind space ws items hws =>
    exact ⟨⟨(isBlank_openSpace hwf).front hws, fun hne => absurd rfl hne, trivial⟩,
      by simp [Doc.depth, itemsDepth]⟩
  | @comma kind pre post it ws hne hws =>
    obtain ⟨h, d, after⟩ := it
    obtain ⟨hpre, _⟩ := wf_node.mp hwf
    refine ⟨⟨isBlank_nil, fun _ => rfl, hpre⟩, ?_⟩
    rw [depth_node, Doc.depth]
    omega
  | @colon pre post before after ws k d hws =>
    obtain ⟨hpre, ⟨⟨hbefore, hk⟩, _⟩, _⟩ := wf_node.mp hwf
    refine ⟨wf_node.mpr ⟨hpre, ⟨⟨hbefore, ⟨hk.raw, hk.after, isBlank_nil⟩⟩, trivial, isBlank_nil⟩,
      trivial⟩, ?_⟩
    rw [depth_node, depth_node]
    simp only [Doc.depth, itemsDepth]
    omega
  | @item kind pre post h d after ws hws =>
    obtain ⟨hpre, ⟨hh, hd, hafter⟩, _⟩ := wf_node.mp hwf
    refine ⟨wf_node.mpr ⟨hpre, ⟨hh, hd, hafter.front hws⟩, trivial⟩, ?_⟩
    rw [depth_node, depth_node, itemsDepth]
    omega
  | @string kind pre post h raw r after _ hr | @escape kind pre post h raw r after _ hr =>
    obtain ⟨hpre, ⟨hh, _, _⟩, _⟩ := wf_node.mp hwf
    refine ⟨wf_node.mpr ⟨hpre, ⟨hh, hr, isBlank_nil⟩, trivial⟩, ?_⟩
    rw [depth_node, depth_node, itemsDepth]
    simp only [Doc.depth]
    omega
  | @inner kind pre post h d left after p e kinds _ ih =>
    obtain ⟨hpre, ⟨hh, hd, _⟩, _⟩ := wf_node.mp hwf
    obtain ⟨hleft, hdepth⟩ := ih hd
    refine ⟨wf_node.mpr ⟨hpre, ⟨hh, hleft, isBlank_nil⟩, trivial⟩, ?_⟩
    rw [depth_node, depth_node, itemsDepth]
    omega

end Cut

/-! ## What is complete -/

def Doc.items : Doc → List Item
  | .node _ _ items => items
  | _ => []

/-- The place behind the value at a path, in bytes from the start of the document. -/
def Doc.endAt : Doc → List Nat → Option Nat
  | d, [] => some d.text.length
  | d, i :: path =>
    (d.items[i]?).bind (fun it => (it.2.1.endAt path).map (fun n =>
      1 + (joinLead (itemTexts (d.items.take i))).length + it.1.text.length + n))

/-- An item of a container, with its key if it has one. -/
def Value.child : Value → Nat → Option (Option Str × Value)
  | .arr xs, i => xs[i]?.map (fun x => (none, x))
  | .obj ms, i => ms[i]?.map (fun m => (some m.1, m.2))
  | _, _ => none

def Value.itemAt : Value → List Nat → Option (Option Str × Value)
  | v, [] => some (none, v)
  | v, i :: path => (v.child i).bind (fun c => if path = [] then some c else c.2.itemAt path)

def stepTo (kind : Kind) (path : List Nat) (it : Item) : Option (Option Str × Value) :=
  if path = [] then some (match kind with | .arr => none | .obj => some it.1.name, it.2.1.value)
  else it.2.1.value.itemAt path

theorem getElem?_itemValues (items : List Item) (i : Nat) :
    (itemValues items)[i]? = items[i]?.map (fun it => it.2.1.value) := by
  induction items generalizing i with
  | nil => rfl
  | cons it items ih =>
    obtain ⟨h, d, after⟩ := it
    cases i with
    | zero => rfl
    | succ i => exact ih i

theorem getElem?_itemMembers (items : List Item) (i : Nat) :
    (itemMembers items)[i]? = items[i]?.map (fun it => (it.1.name, it.2.1.value)) := by
  induction items generalizing i with
  | nil => rfl
  | cons it items ih =>
    obtain ⟨h, d, after⟩ := it
    cases i with
    | zero => rfl
    | succ i => exact ih i

theorem itemAt_node (kind : Kind) (space : Str) (items : List Item) (i : Nat) (path : List Nat) :
    (Doc.node kind space items).value.itemAt (i :: path) =
      items[i]?.bind (stepTo kind path) := by
  cases kind with
  | arr =>
    rw [Doc.value, Value.itemAt, Value.child, getElem?_itemValues]
    cases items[i]? <;> rfl
  | obj =>
    rw [Doc.value, Value.itemAt, Value.child, getElem?_itemMembers]
    cases items[i]? <;> rfl

theorem endAt_pos {d : Doc} (h : d.WF) (hn : d.endAt path = some n) : 1 ≤ n := by
  cases path with
  | nil =>
    cases hn
    exact d.text_length_pos h
  | cons i path =>
    rw [Doc.endAt] at hn
    obtain ⟨it, _, hn⟩ := Option.bind_eq_some_iff.mp hn
    obtain ⟨m, _, rfl⟩ := Option.map_eq_some_iff.mp hn
    omega

theorem length_joinLead_le (pre post : List Item) (it : Item) (hi : pre.length < i) :
    (joinLead (itemTexts pre)).length + (itemText it).length + 1 ≤
      (joinLead (itemTexts ((pre ++ it :: post).take i))).length := by
  obtain ⟨k, rfl⟩ : ∃ k, i = pre.length + (k + 1) := ⟨i - pre.length - 1, by omega⟩
  obtain ⟨h, d, after⟩ := it
  rw [List.take_length_add_append, List.take_succ_cons, itemTexts_append, itemTexts]
  simp only [joinLead, List.flatMap_append, List.flatMap_cons, List.length_append,
    List.length_cons, List.length_nil, itemText]
  omega

theorem keeps_node {space space' : Str} (pre tail : List Item)
    {post : List Item} {q : Str} (hq : q <+: itemText it)
    (hit : ∀ path m, it.2.1.endAt path = some m → it.1.text.length + m ≤ q.length →
      tail.head?.bind (stepTo kind path) = stepTo kind path it)
    (hn : (Doc.node kind space (pre ++ it :: post)).endAt (i :: path) = some n)
    (hle : n ≤ (kind.opening :: (joinLead (itemTexts pre) ++ q)).length) :
    (Doc.node kind space' (pre ++ tail)).value.itemAt (i :: path) =
      (Doc.node kind space (pre ++ it :: post)).value.itemAt (i :: path) := by
  rw [itemAt_node, itemAt_node]
  rw [Doc.endAt] at hn
  obtain ⟨it', hit', hn⟩ := Option.bind_eq_some_iff.mp hn
  obtain ⟨m, hm, rfl⟩ := Option.map_eq_some_iff.mp hn
  simp only [Doc.items] at hit' hle
  simp only [List.length_cons, List.length_append] at hle
  rcases Nat.lt_trichotomy i pre.length with hi | rfl | hi
  · rw [List.getElem?_append_left hi, List.getElem?_append_left hi]
  · rw [List.getElem?_append_right (Nat.le_refl _), Nat.sub_self, List.getElem?_cons_zero] at hit'
    cases hit'
    rw [List.take_left] at hle
    rw [List.getElem?_append_right (Nat.le_refl _), List.getElem?_append_right (Nat.le_refl _),
      Nat.sub_self, List.getElem?_cons_zero, ← List.head?_eq_getElem?]
    exact hit path m hm (by omega)
  · have hlen := length_joinLead_le pre post it hi
    have hshort := hq.length_le
    omega

theorem keeps_front {space space' : Str} (pre tail : List Item) {post : List Item}
    (hd : it.2.1.WF) {q : Str} (hq : q <+: it.1.text)
    (hn : (Doc.node kind space (pre ++ it :: post)).endAt (i :: path) = some n)
    (hle : n ≤ (kind.opening :: (joinLead (itemTexts pre) ++ q)).length) :
    (Doc.node kind space' (pre ++ tail)).value.itemAt (i :: path) =
      (Doc.node kind space (pre ++ it :: post)).value.itemAt (i :: path) := by
  refine keeps_node pre tail (hq.trans (List.prefix_append ..)) ?_ hn hle
  intro path m hm hle
  have hpos := endAt_pos hd hm
  have hshort := hq.length_le
  omega

namespace Cut

variable {d left : Doc} {p : Str} {e : BreakOff} {kinds : List Kind}

theorem not_complete (h : Cut d p e kinds left) (hn : d.endAt [] = some n) : ¬ n ≤ p.length := by
  obtain ⟨q, hq, htext⟩ := h.append_text
  obtain rfl : d.text.length = n := Option.some.inj hn
  have hpos : 0 < q.length := List.length_pos_of_ne_nil hq
  rw [htext, List.length_append]
  omega

theorem str_not_complete {raw : Str} {m : Nat}
    (hm : (Doc.str raw).endAt path = some m) : m = raw.length + 2 := by
  cases path with
  | nil =>
    cases hm
    simp [Doc.text, quotedRaw]
  | cons i path => cases hm

theorem keeps_cons (h : Cut d p e kinds left) (hwf : d.WF) (hn : d.endAt (i :: path) = some n)
    (hle : n ≤ p.length) : left.value.itemAt (i :: path) = d.value.itemAt (i :: path) := by
  induction h generalizing i path n with
  | @opened kind space ws items hws =>
    cases items with
    | nil => cases hn
    | cons it items =>
      obtain ⟨⟨before, key⟩, d, after⟩ := it
      obtain ⟨_, hno, ⟨⟨_, hd, _⟩, _⟩⟩ := hwf
      rw [openSpace, hno (List.cons_ne_nil _ _)] at hws
      exact keeps_front [] [] hd (hws.trans (List.prefix_append ..)) hn hle
  | @comma kind pre post it ws hne hws =>
    obtain ⟨⟨before, key⟩, d, after⟩ := it
    obtain ⟨_, ⟨_, hd, _⟩, _⟩ := wf_node.mp hwf
    suffices hkeeps : (Doc.node kind [] (pre ++ [])).value.itemAt (i :: path) =
        (Doc.node kind [] (pre ++ (⟨before, key⟩, d, after) :: post)).value.itemAt (i :: path) by
      rwa [List.append_nil] at hkeeps
    exact keeps_front pre [] hd (hws.trans (List.prefix_append ..)) hn hle
  | @colon pre post before after ws k d hws =>
    obtain ⟨_, ⟨_, hd, _⟩, _⟩ := wf_node.mp hwf
    exact keeps_front pre _ hd (prefix_headText hws) hn hle
  | item hws =>
    exact keeps_node _ _ (prefix_itemText ((List.prefix_append_right_inj _).mpr hws))
      (fun _ _ _ _ => rfl) hn hle
  | string hr _ | escape hr _ =>
    refine keeps_node _ _ (prefix_itemText (prefix_quotedRaw hr _)) ?_ hn hle
    intro path m hm hle
    have hlen := hr.length_le
    have := str_not_complete hm
    simp only [List.length_append, List.length_cons] at hle hlen
    omega
  | @inner kind pre post h d left after p e kinds hcut ih =>
    obtain ⟨_, ⟨_, hd, _⟩, _⟩ := wf_node.mp hwf
    obtain ⟨q, _, htext⟩ := hcut.append_text
    refine keeps_node pre _
      (prefix_itemText ⟨q ++ after, by rw [htext, List.append_assoc]⟩) ?_ hn hle
    intro path m hm hle
    rw [List.length_append] at hle
    have hm' : m ≤ p.length := Nat.le_of_add_le_add_left hle
    cases path with
    | nil => exact absurd hm' (hcut.not_complete hm)
    | cons j path => exact ih hd hm hm'

theorem keeps (h : Cut d p e kinds left) (hwf : d.WF) (hn : d.endAt path = some n)
    (hle : n ≤ p.length) : left.value.itemAt path = d.value.itemAt path := by
  cases path with
  | nil => exact absurd hle (h.not_complete hn)
  | cons i path => exact h.keeps_cons hwf hn hle

end Cut

end Go.Json
