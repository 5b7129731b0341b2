/-
# `Protocol.ThinkBlocks` — the splitter against the text as a whole

`thinkBlocks` says what a text is meant to be split into: every block, from its
opening tag (without or with attributes) to its closing tag, is taken out, what is
between the tags is the thought, and a last block without an end reaches to the
end of the text.  No chunks occur in it.

The splitter sees one chunk at a time and keeps no part of a tag, so it agrees with
`thinkBlocks` only where the chunks are kind to it; `handled` is what it needs of a push.
-/
import MiniGoAgent.Protocol.ThinkPieces

open Go

namespace MiniGoAgent

variable {b before inner r tag text : Str}

/-! ## The blocks of a text -/

/-- An opening tag stands at the front of the text. -/
def opensBlock (text : Str) : Bool := extractThinkTag text ≠ []

/-- The text before the first opening tag, and the text behind that tag. -/
def firstBlock : Str → Option (Str × Str)
  | [] => none
  | c :: text =>
    if opensBlock (c :: text) then
      some ([], (c :: text).drop (extractThinkTag (c :: text)).length)
    else (firstBlock text).map (fun parts => (c :: parts.1, parts.2))

/-- The split of a text with at most `n` blocks. -/
def blocksUpTo : Nat → Str → ThinkOut
  | 0, text => { visible := text }
  | n + 1, text =>
    match firstBlock text with
    | none => { visible := text }
    | some (before, inner) =>
      match cut inner thinkClose with
      | some (body, after) =>
        ThinkOut.append { thought := body, visible := before } (blocksUpTo n after)
      | none => { thought := inner, visible := before }

/-- What a text is meant to be split into. -/
def thinkBlocks (text : Str) : ThinkOut := blocksUpTo text.length text

/-- The same for a text that begins in a block. -/
def insideBlock (text : Str) : ThinkOut :=
  match cut text thinkClose with
  | some (body, after) => ThinkOut.append { thought := body } (thinkBlocks after)
  | none => { thought := text }

theorem opensBlock_tag (h : OpeningTag tag) (r : Str) : opensBlock (tag ++ r) = true := by
  rw [opensBlock, extractThinkTag_append h]
  exact decide_eq_true h.ne_nil

theorem hasPrefix_of_opensBlock (h : opensBlock text = true) : hasPrefix text thinkOpen = true := by
  obtain ⟨tag, r, htag, rfl⟩ := extractThinkTag_ne_nil (of_decide_eq_true h)
  obtain ⟨t, rfl⟩ := htag.open
  rw [List.append_assoc]
  exact hasPrefix_append_self _ _

theorem firstBlock_of_clear (h : Clear opensBlock b r) :
    firstBlock (b ++ r) = (firstBlock r).map (fun parts => (b ++ parts.1, parts.2)) := by
  induction b with
  | nil =>
    rw [List.nil_append]
    cases firstBlock r <;> rfl
  | cons c b ih =>
    obtain ⟨hhere, hlater⟩ := h
    rw [List.cons_append, firstBlock, hhere, if_neg Bool.false_ne_true, ih hlater]
    cases firstBlock r <;> rfl

theorem firstBlock_tag (h : OpeningTag tag) (inner : Str) :
    firstBlock (tag ++ inner) = some ([], inner) := by
  have hopens := opensBlock_tag h inner
  have htag := extractThinkTag_append h inner
  have hdrop : (tag ++ inner).drop tag.length = inner := List.drop_left
  cases htext : tag ++ inner with
  | nil => exact absurd (List.append_eq_nil_iff.mp htext).1 h.ne_nil
  | cons c text =>
    rw [htext] at hopens htag hdrop
    rw [firstBlock, if_pos hopens, htag, hdrop]

theorem length_firstBlock
    (h : firstBlock text = some (before, inner)) : inner.length < text.length := by
  induction text generalizing before with
  | nil => cases h
  | cons c text ih =>
    rw [firstBlock] at h
    by_cases hopens : opensBlock (c :: text) = true
    · have hpos : 0 < (extractThinkTag (c :: text)).length :=
        List.length_pos_of_ne_nil (of_decide_eq_true hopens)
      rw [if_pos hopens, Option.some.injEq, Prod.mk.injEq] at h
      rw [← h.2, List.length_drop]
      simp only [List.length_cons]
      omega
    · rw [if_neg hopens, Option.map_eq_some_iff] at h
      obtain ⟨⟨before', inner'⟩, hfirst, heq⟩ := h
      simp only [Prod.mk.injEq] at heq
      have hlt := ih (heq.2 ▸ hfirst)
      rw [List.length_cons]
      omega

theorem length_cut {s sep a : Str} (h : cut s sep = some (b, a)) : a.length ≤ s.length := by
  obtain ⟨rfl, -⟩ := cut_eq_some h
  simp only [List.length_append]
  omega

theorem blocksUpTo_eq (n m : Nat) (text : Str) (hn : text.length ≤ n) (hm : text.length ≤ m) :
    blocksUpTo n text = blocksUpTo m text := by
  induction n generalizing m text with
  | zero =>
    have hnil : text = [] := List.length_eq_zero_iff.mp (Nat.le_zero.mp hn)
    subst hnil
    cases m <;> rfl
  | succ n ih =>
    cases m with
    | zero =>
      have hnil : text = [] := List.length_eq_zero_iff.mp (Nat.le_zero.mp hm)
      subst hnil
      rfl
    | succ m =>
      cases hfirst : firstBlock text with
      | none => simp only [blocksUpTo, hfirst]
      | some parts =>
        obtain ⟨before, inner⟩ := parts
        have hlt := length_firstBlock hfirst
        cases hc : cut inner thinkClose with
        | none => simp only [blocksUpTo, hfirst, hc]
        | some parts =>
          obtain ⟨body, after⟩ := parts
          have hle := length_cut hc
          simp only [blocksUpTo, hfirst, hc]
          rw [ih m after (by omega) (by omega)]

theorem thinkBlocks_of_none (h : firstBlock text = none) :
    thinkBlocks text = { visible := text } := by
  rw [thinkBlocks]
  cases text.length with
  | zero => rfl
  | succ n => simp only [blocksUpTo, h]

theorem thinkBlocks_of_some (h : firstBlock text = some (before, inner)) :
    thinkBlocks text = ThinkOut.append { visible := before } (insideBlock inner) := by
  have hlt := length_firstBlock h
  obtain ⟨n, hn⟩ : ∃ n, text.length = n + 1 := ⟨text.length - 1, by omega⟩
  rw [thinkBlocks, hn]
  cases hc : cut inner thinkClose with
  | none =>
    simp only [blocksUpTo, h, hc, insideBlock, ThinkOut.append, List.nil_append,
      List.append_nil]
  | some parts =>
    obtain ⟨body, after⟩ := parts
    have hle := length_cut hc
    simp only [blocksUpTo, h, hc, insideBlock, thinkBlocks]
    rw [blocksUpTo_eq n after.length after (by omega) le_rfl]
    simp only [ThinkOut.append, List.nil_append]

/-! ## A text in two parts -/

theorem thinkBlocks_append (h : Clear opensBlock b r) :
    thinkBlocks (b ++ r) = ThinkOut.append { visible := b } (thinkBlocks r) := by
  have hfirst := firstBlock_of_clear h
  cases hr : firstBlock r with
  | none =>
    rw [hr] at hfirst
    rw [thinkBlocks_of_none hfirst, thinkBlocks_of_none hr]
    rfl
  | some parts =>
    rw [hr] at hfirst
    rw [thinkBlocks_of_some hfirst, thinkBlocks_of_some hr]
    simp only [ThinkOut.append, List.nil_append, List.append_assoc]

theorem thinkBlocks_tag (htag : OpeningTag tag) (inner : Str)
    (h : Clear opensBlock before (tag ++ inner)) :
    thinkBlocks (before ++ (tag ++ inner)) =
      ThinkOut.append { visible := before } (insideBlock inner) := by
  have hfirst := firstBlock_of_clear h
  rw [firstBlock_tag htag] at hfirst
  rw [thinkBlocks_of_some hfirst, List.append_nil]

theorem insideBlock_append (h : Clear (hasPrefix · thinkClose) b r) :
    insideBlock (b ++ r) = ThinkOut.append { thought := b } (insideBlock r) := by
  cases hr : cut r thinkClose with
  | none =>
    have hnone : cut (b ++ r) thinkClose = none := by
      apply cut_eq_none_of_clear (by decide)
      rw [clear_append, List.append_nil]
      exact ⟨h, cut_eq_none hr⟩
    simp only [insideBlock, hnone, hr]
    rfl
  | some parts =>
    obtain ⟨body, after⟩ := parts
    obtain ⟨rfl, hbody⟩ := cut_eq_some hr
    have hcut : cut (b ++ (body ++ (thinkClose ++ after))) thinkClose =
        some (b ++ body, after) := by
      rw [← List.append_assoc]
      exact cut_of_clear (clear_append.mpr ⟨h, hbody⟩)
    simp only [insideBlock, hcut, hr, ThinkOut.append, List.nil_append, List.append_assoc]

theorem insideBlock_close {body : Str} (after : Str)
    (h : Clear (hasPrefix · thinkClose) body (thinkClose ++ after)) :
    insideBlock (body ++ (thinkClose ++ after)) =
      ThinkOut.append { thought := body } (thinkBlocks after) := by
  rw [insideBlock, cut_of_clear h]

/-! ## What a push needs -/

/-- Text in a block, `r` still to come: the closing tag is not cut by the end of the
chunk, and no block begins in what follows it. -/
def keptWhole (text r : Str) : Bool :=
  match cut text thinkClose with
  | some (_, after) => Clear opensBlock after r
  | none => Clear (hasPrefix · thinkClose) text r

/-- The opening tag a probing splitter sees in the chunk, `before` its first `<think`. -/
def tagSeen (before chunk : Str) : Str :=
  if before = [] then extractThinkTag chunk
  else if hasPrefix (chunk.drop before.length) (lit "<think>") then lit "<think>"
  else []

/-- The splitter treats `chunk` as the whole text asks for, `r` still to come. -/
def ThinkSplitter.handled (s : ThinkSplitter) (chunk r : Str) : Bool :=
  match s.state with
  | .probe =>
    match cut chunk thinkOpen with
    | none => Clear opensBlock (chunk ++ r) []
    | some (before, _) =>
      tagSeen before chunk ≠ [] ∧
        keptWhole (chunk.drop (before.length + (tagSeen before chunk).length)) r
  | .inside => keptWhole chunk r
  | .passthrough => true

def ThinkSplitter.allHandled (s : ThinkSplitter) : List Str → Bool
  | [] => true
  | chunk :: rest => s.handled chunk rest.flatten && (s.push chunk).1.allHandled rest

/-! ## The splitter agrees with the whole text -/

/-- What is to be handed out from a phase on, `r` still to come. -/
def ThinkPhase.due : ThinkPhase → Str → ThinkOut
  | .probing, r => thinkBlocks r
  | .thinking buf, r => ThinkOut.append { thought := buf } (insideBlock r)
  | .passing, r => { visible := r }

theorem keptWhole_close {body after : Str}
    (hbody : Clear (hasPrefix · thinkClose) body (thinkClose ++ after))
    (h : keptWhole (body ++ (thinkClose ++ after)) r = true) :
    insideBlock (body ++ (thinkClose ++ after) ++ r) =
      ThinkOut.append { thought := body, visible := after } (thinkBlocks r) := by
  simp only [keptWhole, cut_of_clear hbody, decide_eq_true_eq] at h
  have hbody' := clear_before_append r hbody
  rw [List.append_assoc, List.append_assoc, insideBlock_close _ hbody', thinkBlocks_append h]
  simp only [ThinkOut.append, List.nil_append]

theorem keptWhole_open (hnone : cut text thinkClose = none) (h : keptWhole text r = true) :
    insideBlock (text ++ r) = ThinkOut.append { thought := text } (insideBlock r) := by
  simp only [keptWhole, hnone, decide_eq_true_eq] at h
  exact insideBlock_append h

theorem tagSeen_recognised (h : Recognised before tag) (inner : Str) :
    tagSeen before (before ++ (tag ++ inner)) = tag := by
  obtain ⟨htag, hplace⟩ := h
  by_cases hbefore : before = []
  · subst hbefore
    exact extractThinkTag_append htag inner
  · obtain rfl : tag = lit "<think>" := hplace.resolve_left hbefore
    rw [tagSeen, if_neg hbefore, List.drop_left, if_pos (hasPrefix_append_self _ inner)]

theorem tagSeen_ne_nil {rest : Str} (h : tagSeen before (before ++ rest) ≠ []) :
    ∃ tag r, rest = tag ++ r ∧ Recognised before tag := by
  by_cases hbefore : before = []
  · subst hbefore
    obtain ⟨tag, r, htag, heq⟩ := extractThinkTag_ne_nil h
    exact ⟨tag, r, heq, htag, Or.inl rfl⟩
  · rw [tagSeen, if_neg hbefore, List.drop_left] at h
    by_cases hbare : hasPrefix rest (lit "<think>") = true
    · obtain ⟨r, hr⟩ := hasPrefix_iff.mp hbare
      exact ⟨_, r, hr.symm, .bare, Or.inr rfl⟩
    · rw [if_neg hbare] at h
      exact absurd rfl h

theorem keptWhole_of_handled (htag : Recognised before tag)
    (hfirst : Clear (hasPrefix · thinkOpen) before (tag ++ inner))
    (h : ThinkPhase.probing.splitter.handled (before ++ (tag ++ inner)) r = true) :
    keptWhole inner r = true := by
  obtain ⟨t, ht⟩ := htag.1.open
  have hcut : cut (before ++ (tag ++ inner)) thinkOpen = some (before, t ++ inner) := by
    rw [ht, List.append_assoc] at hfirst ⊢
    exact cut_of_clear hfirst
  simp only [ThinkSplitter.handled, ThinkPhase.splitter, hcut, tagSeen_recognised htag,
    decide_eq_true_eq] at h
  have hdrop : (before ++ (tag ++ inner)).drop (before.length + tag.length) = inner := by
    rw [← List.drop_drop, List.drop_left, List.drop_left]
  rw [hdrop] at h
  exact h.2

theorem clear_opensBlock (htag : OpeningTag tag)
    (r : Str) (hfirst : Clear (hasPrefix · thinkOpen) before (tag ++ inner)) :
    Clear opensBlock before (tag ++ (inner ++ r)) := by
  obtain ⟨t, rfl⟩ := htag.open
  rw [List.append_assoc] at hfirst
  have hlater := clear_before_append r hfirst
  rw [List.append_assoc] at hlater
  rw [List.append_assoc]
  exact hlater.mono (fun s => hasPrefix_of_opensBlock)

theorem Pushed.due {p p' : ThinkPhase} {chunk : Str} {out : ThinkOut}
    (h : Pushed p chunk p' out) (hh : p.splitter.handled chunk r = true) :
    p.due (chunk ++ r) = out.append (p'.due r) := by
  cases h with
  | block before tag body after htag hfirst hbody =>
    have hkept := keptWhole_of_handled htag hfirst hh
    simp only [ThinkPhase.due]
    rw [List.append_assoc, List.append_assoc, thinkBlocks_tag htag.1 _
      (clear_opensBlock htag.1 r hfirst), keptWhole_close hbody hkept]
    simp only [ThinkOut.append, List.nil_append, List.append_assoc]
  | opened before tag body htag hfirst hbody =>
    have hkept := keptWhole_of_handled htag hfirst hh
    simp only [ThinkPhase.due]
    rw [List.append_assoc, List.append_assoc, thinkBlocks_tag htag.1 _
      (clear_opensBlock htag.1 r hfirst), keptWhole_open hbody hkept]
  | halfOpened before rest hfirst hno =>
    exfalso
    simp only [ThinkSplitter.handled, ThinkPhase.splitter, cut_of_clear hfirst,
      decide_eq_true_eq] at hh
    obtain ⟨tag, r', heq, htag⟩ := tagSeen_ne_nil hh.1
    exact hno tag r' heq htag
  | plain text hnone =>
    simp only [ThinkSplitter.handled, ThinkPhase.splitter, hnone, decide_eq_true_eq] at hh
    have hall := thinkBlocks_append hh
    rw [List.append_nil] at hall
    simp only [ThinkPhase.due]
    rw [hall]
    show ThinkOut.mk [] (chunk ++ r ++ []) = ThinkOut.mk [] (chunk ++ r)
    rw [List.append_nil]
  | closed buf body after hbody =>
    simp only [ThinkPhase.due]
    rw [keptWhole_close hbody hh]
    simp only [ThinkOut.append, List.nil_append, List.append_assoc]
  | more buf text hbody =>
    simp only [ThinkPhase.due]
    rw [keptWhole_open hbody hh]
    simp only [ThinkOut.append, List.nil_append, List.append_assoc]
  | passed text => rfl

theorem ThinkPhase.feed_due (p : ThinkPhase) (chunks : List Str)
    (h : p.splitter.allHandled chunks = true) :
    ∃ p' out, p.splitter.feed chunks = (splitter p', out) ∧
      p.due chunks.flatten = out.append { thought := p'.buf } := by
  induction chunks generalizing p with
  | nil =>
    refine ⟨p, {}, rfl, ?_⟩
    cases p with
    | probing => rfl
    | thinking buf =>
      show ThinkOut.mk (buf ++ []) [] = ThinkOut.mk buf []
      rw [List.append_nil]
    | passing => rfl
  | cons chunk rest ih =>
    obtain ⟨p', out, hpush, hpushed⟩ := p.push_pushed chunk
    rw [ThinkSplitter.allHandled, hpush, Bool.and_eq_true] at h
    obtain ⟨p'', more, hfeed, hdue⟩ := ih p' h.2
    refine ⟨p'', out.append more, ThinkSplitter.feed_cons hpush hfeed, ?_⟩
    rw [List.flatten_cons, hpushed.due h.1, hdue]
    simp only [ThinkOut.append, List.append_assoc]

/-- In a run whose pushes are all handled the splitter takes out exactly the blocks
of the whole text. -/
theorem total_eq_thinkBlocks (chunks : List Str) (h : ThinkSplitter.allHandled {} chunks = true) :
    ThinkSplitter.total chunks = thinkBlocks chunks.flatten := by
  obtain ⟨p', out, hfeed, hdue⟩ := ThinkPhase.feed_due .probing chunks h
  have hfeed : ThinkSplitter.feed {} chunks = (p'.splitter, out) := hfeed
  have hdue : thinkBlocks chunks.flatten = out.append { thought := p'.buf } := hdue
  rw [hdue, ThinkSplitter.total, hfeed]
  show out.append { thought := p'.splitter.buf } = _
  rw [ThinkPhase.buf_splitter]

/-- A block in four chunks, its tags whole. -/
theorem total_of_whole_tags :
    ThinkSplitter.total [lit "<think>in", lit "ner", lit "</think>an", lit "swer"] =
      thinkBlocks (lit "<think>inner</think>answer") :=
  total_eq_thinkBlocks [lit "<think>in", lit "ner", lit "</think>an", lit "swer"]
    (by decide +kernel)

/-- The same text is split in another way when the end of a chunk cuts its opening
tag: the tags and the thought are then shown. -/
theorem cut_tag_is_shown :
    ThinkSplitter.total [lit "<think>a</think>b"] = { thought := lit "a", visible := lit "b" } ∧
      ThinkSplitter.total [lit "<th", lit "ink>a</think>b"] =
        { thought := [], visible := lit "<think>a</think>b" } ∧
      thinkBlocks (lit "<think>a</think>b") = { thought := lit "a", visible := lit "b" } := by
  decide +kernel

end MiniGoAgent
