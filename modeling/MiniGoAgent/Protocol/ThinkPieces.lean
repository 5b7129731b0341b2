/-
# `Protocol.ThinkPieces` — what a splitter does with each byte it is given

A splitter that was built empty is in one of three phases: it probes, it is in a
block and holds the thought seen so far, or it passes everything on (`ThinkPhase`);
no other combination of its three fields is ever reached.  `Pushed` says for each
phase and each shape of a chunk what a push makes of it, and `push_pushed` that the
code does just that.

From it follows that nothing is lost: the text is cut into pieces, each shown,
thought or deleted, and deleted are delimiters only.
-/
import MiniGoAgent.Go.Search
import MiniGoAgent.Protocol.Think

open Go

namespace MiniGoAgent

variable {tag text : Str} {out : ThinkOut}

/-! ## Opening tags -/

/-- An opening tag, without or with attributes. -/
inductive OpeningTag : Str → Prop
  | bare : OpeningTag (lit "<think>")
  | attributes (attrs : Str) (h : byte '>' ∉ attrs) :
      OpeningTag (lit "<think " ++ (attrs ++ [byte '>']))

theorem OpeningTag.ne_nil (h : OpeningTag tag) : tag ≠ [] := by
  cases h with
  | bare => decide
  | attributes attrs _ =>
    intro hnil
    exact absurd (List.append_eq_nil_iff.mp hnil).1 (by decide)

theorem findIdx_close {attrs : Str} (h : byte '>' ∉ attrs) (r : Str) :
    (attrs ++ byte '>' :: r).findIdx? (· == byte '>') = some attrs.length := by
  induction attrs with
  | nil => rfl
  | cons c attrs ih =>
    rw [List.mem_cons, not_or] at h
    have hc : (c == byte '>') = false := beq_false_of_ne (Ne.symm h.1)
    rw [List.cons_append, List.findIdx?_cons, hc, ih h.2]
    rfl

theorem extractThinkTag_append (h : OpeningTag tag) (r : Str) :
    extractThinkTag (tag ++ r) = tag := by
  cases h with
  | bare => rw [extractThinkTag, if_pos (hasPrefix_append_self _ r)]
  | attributes attrs ha =>
    have hbare : ¬ hasPrefix (lit "<think " ++ (attrs ++ [byte '>']) ++ r)
        (lit "<think>") = true := by
      rw [List.append_assoc, hasPrefix_append (by decide)]
      decide
    have hattr : hasPrefix (lit "<think " ++ (attrs ++ [byte '>']) ++ r)
        (lit "<think ") = true := by
      rw [List.append_assoc]
      exact hasPrefix_append_self _ _
    rw [extractThinkTag, if_neg hbare, if_pos hattr]
    have hrest : (lit "<think " ++ (attrs ++ [byte '>']) ++ r).drop (lit "<think ").length =
        attrs ++ byte '>' :: r := by
      rw [List.append_assoc, List.drop_left, List.append_assoc]
      rfl
    simp only [hrest, findIdx_close ha]
    have hlen : (lit "<think " ++ (attrs ++ [byte '>']) ++ r).length -
        (attrs ++ byte '>' :: r).length + attrs.length + 1 =
        (lit "<think " ++ (attrs ++ [byte '>'])).length := by
      simp only [List.length_append, List.length_cons, List.length_nil]
      omega
    rw [hlen, List.take_left]

theorem findIdx_close_eq_some {rest : Str} {e : Nat} (h : rest.findIdx? (· == byte '>') = some e) :
    ∃ attrs r, rest = attrs ++ byte '>' :: r ∧ byte '>' ∉ attrs := by
  induction rest generalizing e with
  | nil => cases h
  | cons c rest ih =>
    rw [List.findIdx?_cons] at h
    by_cases hc : c = byte '>'
    · exact ⟨[], rest, by rw [hc]; rfl, List.not_mem_nil⟩
    · rw [beq_false_of_ne hc, if_neg Bool.false_ne_true, Option.map_eq_some_iff] at h
      obtain ⟨j, hj, -⟩ := h
      obtain ⟨attrs, r, rfl, ha⟩ := ih hj
      exact ⟨c :: attrs, r, rfl, List.not_mem_cons_of_ne_of_not_mem (Ne.symm hc) ha⟩

theorem extractThinkTag_ne_nil (h : extractThinkTag text ≠ []) :
    ∃ tag r, OpeningTag tag ∧ text = tag ++ r := by
  rw [extractThinkTag] at h
  by_cases hbare : hasPrefix text (lit "<think>") = true
  · obtain ⟨r, hr⟩ := hasPrefix_iff.mp hbare
    exact ⟨_, r, .bare, hr.symm⟩
  · rw [if_neg hbare] at h
    by_cases hattr : hasPrefix text (lit "<think ") = true
    · rw [if_pos hattr] at h
      obtain ⟨rest, rfl⟩ := hasPrefix_iff.mp hattr
      rw [List.drop_left] at h
      cases he : rest.findIdx? (· == byte '>') with
      | none =>
        simp only [he] at h
        exact absurd rfl h
      | some e =>
        obtain ⟨attrs, r, rfl, ha⟩ := findIdx_close_eq_some he
        refine ⟨_, r, .attributes attrs ha, ?_⟩
        rw [List.append_assoc, List.append_assoc]
        rfl
    · rw [if_neg hattr] at h
      exact absurd rfl h

theorem OpeningTag.open (h : OpeningTag tag) : ∃ r, tag = thinkOpen ++ r := by
  cases h with
  | bare => exact ⟨lit ">", by decide⟩
  | attributes attrs _ => exact ⟨lit " " ++ (attrs ++ [byte '>']), rfl⟩

/-! ## The phases of a splitter, and what a push does in each -/

inductive ThinkPhase where
  | probing
  | thinking (buf : Str)
  | passing

def ThinkPhase.splitter : ThinkPhase → ThinkSplitter
  | .probing => {}
  | .thinking buf => { state := .inside, buf, depth := 1 }
  | .passing => { state := .passthrough }

/-- The opening tag a probing splitter recognises: behind other text only one
without attributes. -/
def Recognised (before tag : Str) : Prop :=
  OpeningTag tag ∧ (before = [] ∨ tag = lit "<think>")

/-- What a push makes of a chunk. -/
inductive Pushed : ThinkPhase → Str → ThinkPhase → ThinkOut → Prop
  | block (before tag body after : Str) (htag : Recognised before tag)
      (hfirst : Clear (hasPrefix · thinkOpen) before (tag ++ (body ++ (thinkClose ++ after))))
      (hbody : Clear (hasPrefix · thinkClose) body (thinkClose ++ after)) :
      Pushed .probing (before ++ (tag ++ (body ++ (thinkClose ++ after)))) .probing
        { thought := body, visible := before ++ after }
  | opened (before tag body : Str) (htag : Recognised before tag)
      (hfirst : Clear (hasPrefix · thinkOpen) before (tag ++ body))
      (hbody : cut body thinkClose = none) :
      Pushed .probing (before ++ (tag ++ body)) (.thinking body) { visible := before }
  | halfOpened (before rest : Str)
      (hfirst : Clear (hasPrefix · thinkOpen) before (thinkOpen ++ rest))
      (hno : ∀ tag r, thinkOpen ++ rest = tag ++ r → ¬ Recognised before tag) :
      Pushed .probing (before ++ (thinkOpen ++ rest)) (.thinking rest) { visible := before }
  | plain (text : Str) (hnone : cut text thinkOpen = none) :
      Pushed .probing text .passing { visible := text }
  | closed (buf body after : Str)
      (hbody : Clear (hasPrefix · thinkClose) body (thinkClose ++ after)) :
      Pushed (.thinking buf) (body ++ (thinkClose ++ after)) .probing
        { thought := buf ++ body, visible := after }
  | more (buf text : Str) (hbody : cut text thinkClose = none) :
      Pushed (.thinking buf) text (.thinking (buf ++ text)) {}
  | passed (text : Str) : Pushed .passing text .passing { visible := text }

namespace ThinkPhase

theorem extractAndEmit_pushed {before : Str} (htag : Recognised before tag)
    (text : Str) (hfirst : Clear (hasPrefix · thinkOpen) before (tag ++ text)) :
    ∃ p' out, (thinking []).splitter.extractAndEmit text before = (splitter p', out) ∧
      Pushed .probing (before ++ (tag ++ text)) p' out := by
  cases hc : cut text thinkClose with
  | none =>
    refine ⟨.thinking text, { visible := before }, ?_, .opened before tag text htag hfirst hc⟩
    rw [ThinkSplitter.extractAndEmit, hc]
    rfl
  | some parts =>
    obtain ⟨body, after⟩ := parts
    obtain ⟨rfl, hbody⟩ := cut_eq_some hc
    refine ⟨.probing, { thought := body, visible := before ++ after }, ?_,
      .block before tag body after htag hfirst hbody⟩
    rw [ThinkSplitter.extractAndEmit, hc]
    rfl

theorem push_thinking (buf text : Str) :
    ∃ p' out, (thinking buf).splitter.push text = (splitter p', out) ∧
      Pushed (.thinking buf) text p' out := by
  cases hc : cut text thinkClose with
  | none =>
    refine ⟨.thinking (buf ++ text), {}, ?_, .more buf text hc⟩
    simp only [splitter, ThinkSplitter.push, hc]
  | some parts =>
    obtain ⟨body, after⟩ := parts
    obtain ⟨rfl, hbody⟩ := cut_eq_some hc
    refine ⟨.probing, { thought := buf ++ body, visible := after }, ?_,
      .closed buf body after hbody⟩
    simp only [splitter, ThinkSplitter.push, hc]
    cases buf with
    | nil | cons => rfl

theorem push_probing (text : Str) :
    ∃ p' out, probing.splitter.push text = (splitter p', out) ∧ Pushed .probing text p' out := by
  by_cases htag : extractThinkTag text = []
  · cases hc : cut text thinkOpen with
    | none =>
      refine ⟨.passing, { visible := text }, ?_, .plain text hc⟩
      simp only [splitter, ThinkSplitter.push, htag, hc, ne_eq, not_true_eq_false, if_false]
    | some parts =>
      obtain ⟨before, rest⟩ := parts
      obtain ⟨rfl, hfirst⟩ := cut_eq_some hc
      by_cases hgt : hasPrefix rest (lit ">") = true
      · obtain ⟨text, rfl⟩ := hasPrefix_iff.mp hgt
        obtain ⟨p', out, hemit, hpushed⟩ :=
          extractAndEmit_pushed ⟨.bare, Or.inr rfl⟩ text hfirst
        refine ⟨p', out, ?_, hpushed⟩
        rw [← hemit]
        simp only [splitter, ThinkSplitter.push, htag, hc, hgt, ne_eq, not_true_eq_false,
          if_false, if_true]
        rfl
      · have hno : ∀ tag r, thinkOpen ++ rest = tag ++ r → ¬ Recognised before tag := by
          rintro tag r heq ⟨hopening, rfl | rfl⟩
          · rw [List.nil_append, heq, extractThinkTag_append hopening] at htag
            exact hopening.ne_nil htag
          · have hrest : rest = lit ">" ++ r := List.append_cancel_left heq
            exact hgt (hrest ▸ hasPrefix_append_self _ r)
        refine ⟨.thinking rest, { visible := before }, ?_, .halfOpened before rest hfirst hno⟩
        simp only [splitter, ThinkSplitter.push, htag, hc, ne_eq, not_true_eq_false, if_false,
          if_neg hgt]
        rfl
  · obtain ⟨tag, rest, hopening, rfl⟩ := extractThinkTag_ne_nil htag
    have hfront : Recognised [] tag := ⟨hopening, Or.inl rfl⟩
    obtain ⟨p', out, hemit, hpushed⟩ := extractAndEmit_pushed hfront rest trivial
    refine ⟨p', out, ?_, hpushed⟩
    rw [← hemit]
    have htag : extractThinkTag (tag ++ rest) = tag := extractThinkTag_append hopening rest
    simp only [splitter, ThinkSplitter.push, htag, cut_front, ne_eq, hopening.ne_nil,
      not_false_eq_true, if_true]
    rfl

theorem push_pushed (p : ThinkPhase) (text : Str) :
    ∃ p' out, p.splitter.push text = (splitter p', out) ∧ Pushed p text p' out := by
  cases p with
  | probing => exact push_probing text
  | thinking buf => exact push_thinking buf text
  | passing => exact ⟨.passing, { visible := text }, rfl, .passed text⟩

/-- What a splitter in the phase holds back. -/
def buf : ThinkPhase → Str
  | .probing => []
  | .thinking buf => buf
  | .passing => []

theorem buf_splitter (p : ThinkPhase) : p.splitter.buf = p.buf := by
  cases p <;> rfl

theorem buf_eq_nil (p : ThinkPhase) (h : p.splitter.state ≠ .inside) : p.splitter.buf = [] := by
  cases p with
  | probing | passing => rfl
  | thinking buf => exact absurd rfl h

end ThinkPhase

/-! ## Runs -/

def ThinkOut.append (out out' : ThinkOut) : ThinkOut :=
  { thought := out.thought ++ out'.thought, visible := out.visible ++ out'.visible }

namespace ThinkSplitter

/-- The chunks pushed one after the other: the splitter behind them, and all that
was handed out on the way. -/
def feed (s : ThinkSplitter) : List Str → ThinkSplitter × ThinkOut
  | [] => (s, {})
  | chunk :: rest =>
    let (s, out) := s.push chunk
    let (s, more) := s.feed rest
    (s, out.append more)

theorem feed_cons {s s' s'' : ThinkSplitter} {chunk : Str} {rest : List Str}
    {more : ThinkOut} (hpush : s.push chunk = (s', out)) (hfeed : s'.feed rest = (s'', more)) :
    s.feed (chunk :: rest) = (s'', out.append more) := by
  simp only [feed, hpush, hfeed]

/-- The chunks pushed through a fresh splitter, which is then flushed. -/
def total (chunks : List Str) : ThinkOut :=
  let (s, out) := feed {} chunks
  out.append s.flush.2

end ThinkSplitter

/-! ## The pieces of a text -/

inductive PieceKind where
  | visible
  | thought
  | deleted
  deriving DecidableEq, Repr

structure Piece where
  kind : PieceKind
  text : Str

namespace Piece

def share (kind : PieceKind) (pieces : List Piece) : Str :=
  (pieces.filter (·.kind = kind)).flatMap (·.text)

/-- Only delimiters are deleted: an opening tag, the bare `<think`, the closing tag. -/
def Delimiter (piece : Piece) : Prop :=
  piece.kind = .deleted →
    OpeningTag piece.text ∨ piece.text = thinkOpen ∨ piece.text = thinkClose

/-- The pieces of `text`, in its order, of which `out` is handed out. -/
structure Splits (pieces : List Piece) (text : Str) (out : ThinkOut) : Prop where
  whole : pieces.flatMap (·.text) = text
  visible : share .visible pieces = out.visible
  thought : share .thought pieces = out.thought
  deleted : ∀ piece ∈ pieces, piece.Delimiter

theorem share_append (kind : PieceKind) (pieces pieces' : List Piece) :
    share kind (pieces ++ pieces') = share kind pieces ++ share kind pieces' := by
  rw [share, List.filter_append, List.flatMap_append]
  rfl

theorem Splits.append {pieces pieces' : List Piece} {text' : Str} {out' : ThinkOut}
    (h : Splits pieces text out) (h' : Splits pieces' text' out') :
    Splits (pieces ++ pieces') (text ++ text') (out.append out') where
  whole := by rw [List.flatMap_append, h.whole, h'.whole]
  visible := by rw [share_append, h.visible, h'.visible]; rfl
  thought := by rw [share_append, h.thought, h'.thought]; rfl
  deleted := by
    exact List.forall_mem_append.mpr ⟨h.deleted, h'.deleted⟩

theorem splits_visible (text : Str) : Splits [⟨.visible, text⟩] text { visible := text } := by
  refine ⟨List.append_nil text, List.append_nil text, rfl, ?_⟩
  intro piece hmem hkind
  rw [List.mem_singleton.mp hmem] at hkind
  exact PieceKind.noConfusion hkind

theorem splits_thought (text : Str) : Splits [⟨.thought, text⟩] text { thought := text } := by
  refine ⟨List.append_nil text, rfl, List.append_nil text, ?_⟩
  intro piece hmem hkind
  rw [List.mem_singleton.mp hmem] at hkind
  exact PieceKind.noConfusion hkind

theorem splits_deleted (h : OpeningTag text ∨ text = thinkOpen ∨ text = thinkClose) :
    Splits [⟨.deleted, text⟩] text {} := by
  refine ⟨List.append_nil text, rfl, rfl, ?_⟩
  intro piece hmem _
  rw [List.mem_singleton.mp hmem]
  exact h

end Piece

open Piece

/-- `out` is what is handed out while a splitter that held `held` reads `text` and
holds `left` behind it.  The thought of the text itself is what was held less. -/
def Told (held text : Str) (out : ThinkOut) (left : Str) : Prop :=
  ∃ pieces thought, Splits pieces text { thought, visible := out.visible } ∧
    held ++ thought = out.thought ++ left

theorem Told.append {held text' mid left : Str} {out' : ThinkOut} (h : Told held text out mid)
    (h' : Told mid text' out' left) : Told held (text ++ text') (out.append out') left := by
  obtain ⟨pieces, thought, hsplits, heq⟩ := h
  obtain ⟨pieces', thought', hsplits', heq'⟩ := h'
  refine ⟨pieces ++ pieces', thought ++ thought', hsplits.append hsplits', ?_⟩
  calc held ++ (thought ++ thought')
      = out.thought ++ (mid ++ thought') := by
        rw [← List.append_assoc, heq, List.append_assoc]
    _ = (out.append out').thought ++ left := by
        rw [heq', ← List.append_assoc]
        rfl

theorem Pushed.told {p p' : ThinkPhase}
    (h : Pushed p text p' out) : Told p.buf text out p'.buf := by
  cases h with
  | block before tag body after htag hfirst hbody =>
    have hend := (splits_deleted (.inr (.inr rfl))).append (splits_visible after)
    have hsplits := (splits_visible before).append ((splits_deleted (.inl htag.1)).append
      ((splits_thought body).append hend))
    simp only [ThinkOut.append, List.append_nil, List.nil_append] at hsplits
    exact ⟨_, body, hsplits, (List.append_nil body).symm⟩
  | opened before tag body htag hfirst hbody =>
    have hsplits := (splits_visible before).append ((splits_deleted (.inl htag.1)).append
      (splits_thought body))
    simp only [ThinkOut.append, List.append_nil, List.nil_append] at hsplits
    exact ⟨_, body, hsplits, rfl⟩
  | halfOpened before rest hfirst hno =>
    have hsplits := (splits_visible before).append
      ((splits_deleted (.inr (.inl rfl))).append (splits_thought rest))
    simp only [ThinkOut.append, List.append_nil, List.nil_append] at hsplits
    exact ⟨_, rest, hsplits, rfl⟩
  | plain text | passed text => exact ⟨_, [], splits_visible text, rfl⟩
  | closed buf body after hbody =>
    have hsplits := (splits_thought body).append
      ((splits_deleted (.inr (.inr rfl))).append (splits_visible after))
    simp only [ThinkOut.append, List.append_nil, List.nil_append] at hsplits
    exact ⟨_, body, hsplits, (List.append_nil (buf ++ body)).symm⟩
  | more buf text hbody => exact ⟨_, text, splits_thought text, rfl⟩

theorem ThinkPhase.feed_told (p : ThinkPhase) (chunks : List Str) :
    ∃ p' out, p.splitter.feed chunks = (splitter p', out) ∧
      Told p.buf chunks.flatten out p'.buf := by
  induction chunks generalizing p with
  | nil =>
    refine ⟨p, {}, rfl, [], [], ⟨rfl, rfl, rfl, ?_⟩, List.append_nil p.buf⟩
    intro piece hmem
    cases hmem
  | cons chunk rest ih =>
    obtain ⟨p', out, hpush, hpushed⟩ := p.push_pushed chunk
    obtain ⟨p'', more, hfeed, htold⟩ := ih p'
    refine ⟨p'', out.append more, ThinkSplitter.feed_cons hpush hfeed, ?_⟩
    rw [List.flatten_cons]
    exact hpushed.told.append htold

/-- Whatever chunks a splitter is fed, their text is cut into pieces in its own
order: the visible text, the thought and the deleted delimiters.  And a splitter
that is not in a block holds nothing back. -/
theorem total_splits (chunks : List Str) :
    (∃ pieces, Piece.Splits pieces chunks.flatten (ThinkSplitter.total chunks)) ∧
      ((ThinkSplitter.feed {} chunks).1.state ≠ .inside →
        (ThinkSplitter.feed {} chunks).1.buf = []) := by
  obtain ⟨p', out, hfeed, pieces, thought, hsplits, heq⟩ :=
    ThinkPhase.feed_told .probing chunks
  have hfeed : ThinkSplitter.feed {} chunks = (p'.splitter, out) := hfeed
  refine ⟨⟨pieces, ?_⟩, ?_⟩
  · have htotal : ThinkSplitter.total chunks = { thought, visible := out.visible } := by
      rw [ThinkSplitter.total, hfeed]
      show ThinkOut.mk (out.thought ++ p'.splitter.buf) (out.visible ++ []) = _
      rw [ThinkPhase.buf_splitter, ← heq, List.append_nil]
      rfl
    rw [htotal]
    exact hsplits
  · rw [hfeed]
    exact p'.buf_eq_nil

end MiniGoAgent
