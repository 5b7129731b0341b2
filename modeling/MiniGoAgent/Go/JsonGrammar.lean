/-
# `Go.JsonGrammar` — every valid text is the text of a document

The converse of `valid_text`: what the scanner accepts can be taken apart into the
pieces of a document (`valid_iff`).  An accepting run is followed byte by byte; each
lemma takes one piece off the front of the text and says from where the rest is
accepted.

A number is complete only at the byte behind it.  The whole text is therefore looked
at with a blank behind it, as `eof` does.
-/
import MiniGoAgent.Go.JsonText

namespace Go.Json

open Scanner

variable {t : Str} {kind : Kind} {st : List ParseState} {s : Scanner} {σ : Step} {c : UInt8}

/-- From `s` on the text is accepted. -/
def Accepts (s : Scanner) (t : Str) : Prop := s.run t = some ⟨.endTop, []⟩

theorem Accepts.next (h : Accepts s (c :: t)) : ∃ s', s.next c = some s' ∧ Accepts s' t := by
  rw [Accepts, run_cons] at h
  exact Option.bind_eq_some_iff.mp h

theorem accepts_cons {r : Scanner} (hc : s.next c = some r) : Accepts s (c :: t) ↔ Accepts r t := by
  rw [Accepts, run_cons_of_next hc]
  rfl

theorem Accepts.exists_cons (h : Accepts s t) (hs : s.step ≠ .endTop) :
    ∃ c t' s', t = c :: t' ∧ s.next c = some s' ∧ Accepts s' t' := by
  cases t with
  | nil =>
    cases h
    exact absurd rfl hs
  | cons c t =>
    obtain ⟨s', hnext, hrest⟩ := h.next
    exact ⟨c, t, s', rfl, hnext, hrest⟩

theorem Accepts.split_blank (hs : ∀ c, isSpace c = true → s.next c = some s)
    (hstep : s.step ≠ .endTop) (h : Accepts s t) :
    ∃ ws c t', IsBlank ws ∧ isSpace c = false ∧ t = ws ++ c :: t' ∧ Accepts s (c :: t') := by
  induction t with
  | nil =>
    obtain ⟨_, _, _, ht, _⟩ := h.exists_cons hstep
    cases ht
  | cons c t ih =>
    cases hc : isSpace c with
    | false => exact ⟨[], c, t, isBlank_nil, hc, rfl, h⟩
    | true =>
      obtain ⟨ws, b, t', hws, hb, rfl, hrest⟩ := ih ((accepts_cons (hs c hc)).mp h)
      exact ⟨c :: ws, b, t', isBlank_cons.mpr ⟨hc, hws⟩, hb, rfl, hrest⟩

theorem Accepts.split_endValue (hst : st ≠ []) (h : Accepts ⟨.endValue, st⟩ t) :
    ∃ ws c t', IsBlank ws ∧ isSpace c = false ∧ t = ws ++ c :: t' ∧
      Accepts ⟨.endValue, st⟩ (c :: t') := by
  refine h.split_blank ?_ (by simp)
  intro c hc
  cases st with
  | nil => exact absurd rfl hst
  | cons p rest => exact stateEndValue_space (p :: rest) hc

theorem Accepts.pop (h : Accepts s (c :: t)) (hs : s.next c = stateEndValue st c) :
    Accepts (Scanner.pop st) (c :: t) := by
  have hpop : (Scanner.pop st).next c = stateEndValue st c := by cases st <;> rfl
  obtain ⟨s', hnext, hrest⟩ := h.next
  exact (accepts_cons (hpop.trans (hs.symm.trans hnext))).mpr hrest

theorem Accepts.pop_of_endValue (h : Accepts ⟨.endValue, st⟩ t) : Accepts (Scanner.pop st) t := by
  obtain ⟨c, t', _, rfl, _, _⟩ := h.exists_cons (by simp)
  exact h.pop rfl

theorem Accepts.isBlank (h : Accepts ⟨.endTop, []⟩ t) : IsBlank t := by
  induction t with
  | nil => exact isBlank_nil
  | cons c t ih =>
    obtain ⟨s', hnext, hrest⟩ := h.next
    have htop : stateEndTop c = some s' := hnext
    cases hc : isSpace c with
    | false => rw [stateEndTop, hc] at htop; cases htop
    | true =>
      rw [stateEndTop, if_pos hc] at htop
      cases htop
      exact isBlank_cons.mpr ⟨hc, ih hrest⟩

/-! ## Literals -/

theorem Accepts.expect (hs : s.step ≠ .endTop) {want : Char}
    (hnext : ∀ c, s.next c = Scanner.expect want σ st c)
    (h : Accepts s t) : ∃ t', t = byte want :: t' ∧ Accepts ⟨σ, st⟩ t' := by
  obtain ⟨c, t', s', rfl, hc, hrest⟩ := h.exists_cons hs
  rw [hnext, Scanner.expect] at hc
  by_cases hw : c == byte want
  · rw [if_pos hw] at hc
    cases hc
    exact ⟨t', by rw [beq_iff_eq.mp hw], hrest⟩
  · rw [if_neg hw] at hc
    cases hc

theorem Accepts.hexDigit (hs : s.step ≠ .endTop) (hnext : ∀ c, s.next c = Scanner.hexDigit σ st c)
    (h : Accepts s t) : ∃ c t', t = c :: t' ∧ (unhex c).isSome = true ∧ Accepts ⟨σ, st⟩ t' := by
  obtain ⟨c, t', s', rfl, hc, hrest⟩ := h.exists_cons hs
  rw [hnext, Scanner.hexDigit] at hc
  by_cases hw : (unhex c).isSome = true
  · rw [if_pos hw] at hc
    cases hc
    exact ⟨c, t', rfl, hw, hrest⟩
  · rw [if_neg hw] at hc
    cases hc

theorem Accepts.raw (n : Nat) : ∀ {t : Str} {st : List ParseState}, t.length ≤ n →
    Accepts ⟨.inString, st⟩ t →
    ∃ raw rest, IsRaw raw ∧ t = raw ++ byte '"' :: rest ∧ Accepts ⟨.endValue, st⟩ rest := by
  induction n with
  | zero =>
    intro t st hlen h
    obtain ⟨_, _, _, rfl, _⟩ := h.exists_cons (by simp)
    cases hlen
  | succ n ih =>
    intro t st hlen h
    obtain ⟨c, t, s', rfl, hc, hrest⟩ := h.exists_cons (by simp)
    simp only [List.length_cons] at hlen
    cases hquote : c == byte '"' with
    | true =>
      simp only [Scanner.next, hquote, if_true] at hc
      cases hc
      exact ⟨[], t, .nil, by rw [beq_iff_eq.mp hquote]; rfl, hrest⟩
    | false =>
      cases hback : c == byte '\\' with
      | false =>
        by_cases hctl : c < 0x20
        · simp [Scanner.next, hquote, hback, hctl] at hc
        · simp only [Scanner.next, hquote, hback, hctl] at hc
          cases hc
          obtain ⟨raw, rest, hraw, rfl, hbehind⟩ := ih (by omega) hrest
          exact ⟨c :: raw, rest, .plain hquote hback hctl hraw, rfl, hbehind⟩
      | true =>
        obtain rfl := beq_iff_eq.mp hback
        obtain rfl : (⟨.inStringEsc, st⟩ : Scanner) = s' := Option.some.inj hc
        obtain ⟨e, t, s', rfl, he, hrest⟩ := hrest.exists_cons (by simp)
        simp only [List.length_cons] at hlen
        cases hesc : isEscape e with
        | true =>
          simp only [Scanner.next, hesc, if_true] at he
          cases he
          obtain ⟨raw, rest, hraw, rfl, hbehind⟩ := ih (by omega) hrest
          exact ⟨byte '\\' :: e :: raw, rest, .escape hesc hraw, rfl, hbehind⟩
        | false =>
          cases hu : e == byte 'u' with
          | false => simp [Scanner.next, hesc, hu] at he
          | true =>
            simp only [Scanner.next, hesc, hu, if_true] at he
            obtain rfl := beq_iff_eq.mp hu
            cases he
            obtain ⟨w, t, rfl, hw, hrest⟩ := hrest.hexDigit (by simp) (fun _ => rfl)
            obtain ⟨x, t, rfl, hx, hrest⟩ := hrest.hexDigit (by simp) (fun _ => rfl)
            obtain ⟨y, t, rfl, hy, hrest⟩ := hrest.hexDigit (by simp) (fun _ => rfl)
            obtain ⟨z, t, rfl, hz, hrest⟩ := hrest.hexDigit (by simp) (fun _ => rfl)
            simp only [List.length_cons] at hlen
            obtain ⟨raw, rest, hraw, rfl, hbehind⟩ := ih (by omega) hrest
            exact ⟨_, rest, .unicode hw hx hy hz hraw, rfl, hbehind⟩

def numStates : List Step := [.neg, .one, .zero, .dot, .dot0, .e, .eSign, .e0]

/-- The state a byte leads to inside a number. -/
def numStep (σ : Step) (c : UInt8) : Option Step :=
  match σ with
  | .neg => if c == byte '0' then some .zero else if isDigit c then some .one else none
  | .one =>
    if isDigit c then some .one
    else if c == byte '.' then some .dot
    else if c == byte 'e' || c == byte 'E' then some .e
    else none
  | .zero =>
    if c == byte '.' then some .dot
    else if c == byte 'e' || c == byte 'E' then some .e
    else none
  | .dot => if isDigit c then some .dot0 else none
  | .dot0 =>
    if isDigit c then some .dot0
    else if c == byte 'e' || c == byte 'E' then some .e
    else none
  | .e =>
    if c == byte '+' || c == byte '-' then some .eSign
    else if isDigit c then some .e0
    else none
  | .eSign => if isDigit c then some .e0 else none
  | .e0 => if isDigit c then some .e0 else none
  | _ => none

theorem numStep_mem {σ' : Step} (h : numStep σ c = some σ') :
    σ' ∈ numStates ∧ isNumByte c = true := by
  unfold numStep at h
  cases σ <;> simp only [reduceCtorEq] at h <;> split_ifs at h <;> cases h <;>
    simp_all [numStates, isNumByte, or_assoc]
  · exact Or.inl (by decide)
  · tauto

theorem next_number (hσ : σ ∈ numStates) (st : List ParseState) (c : UInt8) :
    next ⟨σ, st⟩ c =
      (numStep σ c).elim (if σ ∈ numEnds then stateEndValue st c else none)
        (fun σ' => some ⟨σ', st⟩) := by
  simp only [numStates, List.mem_cons, List.not_mem_nil, or_false] at hσ
  rcases hσ with rfl | rfl | rfl | rfl | rfl | rfl | rfl | rfl <;>
    simp only [next, numStep, state0, stateESign] <;> split_ifs <;> simp_all [numEnds]

theorem Accepts.number : ∀ {σ : Step} {st : List ParseState}, σ ∈ numStates → Accepts ⟨σ, st⟩ t →
    ∃ digits rest σ', (∀ c ∈ digits, isNumByte c = true) ∧ σ' ∈ numEnds ∧
      (∀ st', Scanner.run ⟨σ, st'⟩ digits = some ⟨σ', st'⟩) ∧ t = digits ++ rest ∧
      Accepts (Scanner.pop st) rest := by
  induction t with
  | nil =>
    intro σ st hσ h
    obtain ⟨_, _, _, ht, _⟩ := h.exists_cons (by rintro rfl; exact absurd hσ (by decide))
    cases ht
  | cons c t ih =>
    intro σ st hσ h
    have hnext := fun st => next_number hσ st c
    cases hstep : numStep σ c with
    | some σ' =>
      simp only [hstep, Option.elim_some] at hnext
      obtain ⟨hσ', hc⟩ := numStep_mem hstep
      obtain ⟨digits, rest, σ'', hbytes, hends, hrun, rfl, hrest⟩ :=
        ih hσ' ((accepts_cons (hnext st)).mp h)
      refine ⟨c :: digits, rest, σ'', List.forall_mem_cons.mpr ⟨hc, hbytes⟩, hends, ?_, rfl, hrest⟩
      intro st'
      rw [run_cons_of_next (hnext st')]
      exact hrun st'
    | none =>
      simp only [hstep, Option.elim_none] at hnext
      by_cases hends : σ ∈ numEnds
      · simp only [if_pos hends] at hnext
        exact ⟨[], c :: t, σ, by simp, hends, fun _ => rfl, rfl, h.pop (hnext st)⟩
      · obtain ⟨s', hs', _⟩ := h.next
        rw [hnext st, if_neg hends] at hs'
        cases hs'

/-- Behind the first byte of a literal name. -/
def Word.started : Word → Step
  | .null => .n
  | .true => .t
  | .false => .f

theorem Accepts.word {w : Word} (h : Accepts ⟨w.started, st⟩ t) :
    ∃ rest, t = w.text.tail ++ rest ∧ Accepts ⟨.endValue, st⟩ rest := by
  cases w with
  | null | true =>
    obtain ⟨t₁, rfl, h₁⟩ := h.expect (by simp [Word.started]) (fun _ => rfl)
    obtain ⟨t₂, rfl, h₂⟩ := h₁.expect (by simp) (fun _ => rfl)
    obtain ⟨t₃, rfl, h₃⟩ := h₂.expect (by simp) (fun _ => rfl)
    exact ⟨t₃, rfl, h₃⟩
  | false =>
    obtain ⟨t₁, rfl, h₁⟩ := h.expect (by simp [Word.started]) (fun _ => rfl)
    obtain ⟨t₂, rfl, h₂⟩ := h₁.expect (by simp) (fun _ => rfl)
    obtain ⟨t₃, rfl, h₃⟩ := h₂.expect (by simp) (fun _ => rfl)
    obtain ⟨t₄, rfl, h₄⟩ := h₃.expect (by simp) (fun _ => rfl)
    exact ⟨t₄, rfl, h₄⟩

/-! ## Documents -/

theorem opening_cases (h : next ⟨.beginValue, st⟩ kind.opening = some s) :
    st.length + 1 ≤ maxNestingDepth ∧ s = kind.opened st := by
  by_cases hdepth : st.length + 1 ≤ maxNestingDepth
  · rw [kind.next_opening st hdepth] at h
    exact ⟨hdepth, (Option.some.inj h).symm⟩
  · have hnone : next ⟨.beginValue, st⟩ kind.opening = none := by
      cases kind <;> exact if_neg hdepth
    rw [hnone] at h
    cases h

theorem beginValue_cases (hspace : isSpace c = false) (h : next ⟨.beginValue, st⟩ c = some s) :
    (∃ kind : Kind, c = kind.opening) ∨
    (c = byte '"' ∧ s = ⟨.inString, st⟩) ∨
    (∃ w : Word, c :: w.text.tail = w.text ∧ s = ⟨w.started, st⟩) ∨
    (∃ σ ∈ numStates, isNumByte c = true ∧ s = ⟨σ, st⟩ ∧
      ∀ st', next ⟨.beginValue, st'⟩ c = some ⟨σ, st'⟩) := by
  rcases eq_or_ne c (byte '{') with rfl | hbrace
  · exact Or.inl ⟨.obj, rfl⟩
  rcases eq_or_ne c (byte '[') with rfl | hbracket
  · exact Or.inl ⟨.arr, rfl⟩
  rcases eq_or_ne c (byte '"') with rfl | hquote
  · exact Or.inr (Or.inl ⟨rfl, (Option.some.inj h).symm⟩)
  refine Or.inr (Or.inr ?_)
  rcases eq_or_ne c (byte '-') with rfl | hminus
  · exact Or.inr ⟨.neg, by decide, by decide, (Option.some.inj h).symm, fun _ => rfl⟩
  rcases eq_or_ne c (byte '0') with rfl | hzero
  · exact Or.inr ⟨.zero, by decide, by decide, (Option.some.inj h).symm, fun _ => rfl⟩
  rcases eq_or_ne c (byte 't') with rfl | ht
  · exact Or.inl ⟨.true, rfl, (Option.some.inj h).symm⟩
  rcases eq_or_ne c (byte 'f') with rfl | hf
  · exact Or.inl ⟨.false, rfl, (Option.some.inj h).symm⟩
  rcases eq_or_ne c (byte 'n') with rfl | hn
  · exact Or.inl ⟨.null, rfl, (Option.some.inj h).symm⟩
  have hdigit : ∀ st, next ⟨.beginValue, st⟩ c =
      if isDigit c then some ⟨.one, st⟩ else none := by
    intro st
    simp [next, stateBeginValue, hspace, hbrace, hbracket, hquote, hminus, hzero, ht, hf, hn]
  by_cases hd : isDigit c = true
  · simp only [if_pos hd] at hdigit
    rw [hdigit st] at h
    exact Or.inr ⟨.one, by decide, by simp [isNumByte, hd], (Option.some.inj h).symm, hdigit⟩
  · rw [hdigit st, if_neg hd] at h
    cases h

theorem Accepts.key (h : Accepts ⟨.beginString, .objectKey :: st⟩ t) :
    ∃ before raw after rest, IsBlank before ∧ IsRaw raw ∧ IsBlank after ∧
      t = before ++ (quotedRaw raw ++ (after ++ byte ':' :: rest)) ∧
      Accepts ⟨.beginValue, .objectValue :: st⟩ rest := by
  obtain ⟨before, c, t, hbefore, hc, rfl, h₁⟩ :=
    h.split_blank (fun _ => next_beginString_space _) (by simp)
  obtain ⟨s, hs, h₂⟩ := h₁.next
  have hquote : c = byte '"' ∧ s = ⟨.inString, .objectKey :: st⟩ := by
    simp only [Scanner.next, stateBeginString, hc] at hs
    by_cases hq : c == byte '"'
    · rw [if_pos hq] at hs
      exact ⟨beq_iff_eq.mp hq, (Option.some.inj hs).symm⟩
    · rw [if_neg hq] at hs
      cases hs
  obtain ⟨rfl, rfl⟩ := hquote
  obtain ⟨raw, t, hraw, rfl, h₃⟩ := Accepts.raw t.length (Nat.le_refl _) h₂
  obtain ⟨after, c, rest, hafter, hc, rfl, h₄⟩ := h₃.split_endValue (by simp)
  obtain ⟨s, hs, h₅⟩ := h₄.next
  have hcolon : c = byte ':' ∧ s = ⟨.beginValue, .objectValue :: st⟩ := by
    simp only [Scanner.next, stateEndValue, hc] at hs
    by_cases hq : c == byte ':'
    · rw [if_pos hq] at hs
      exact ⟨beq_iff_eq.mp hq, (Option.some.inj hs).symm⟩
    · rw [if_neg hq] at hs
      cases hs
  obtain ⟨rfl, rfl⟩ := hcolon
  exact ⟨before, raw, after, rest, hbefore, hraw, hafter, by simp [quotedRaw], h₅⟩

theorem inside_next (hspace : isSpace c = false) (h : stateEndValue (kind.inside st) c = some s) :
    (c = byte ',' ∧ s = kind.item st) ∨ (c = kind.closing ∧ s = pop st) := by
  rcases eq_or_ne c (byte ',') with rfl | hcomma
  · rw [kind.next_comma st] at h
    exact Or.inl ⟨rfl, (Option.some.inj h).symm⟩
  rcases eq_or_ne c kind.closing with rfl | hclose
  · rw [kind.next_closing st] at h
    exact Or.inr ⟨rfl, (Option.some.inj h).symm⟩
  cases kind with
  | arr =>
    have : c ≠ byte ']' := hclose
    simp [Kind.inside, stateEndValue, hspace, hcomma, this] at h
  | obj =>
    have : c ≠ byte '}' := hclose
    simp [Kind.inside, stateEndValue, hspace, hcomma, this] at h

/-- A value at the front of an accepted text of at most `n` bytes. -/
def HasDoc (n : Nat) : Prop :=
  ∀ (t : Str) (st : List ParseState), t.length ≤ n → st.length ≤ maxNestingDepth →
    Accepts ⟨.beginValue, st⟩ t →
    ∃ (ws : Str) (d : Doc) (rest : Str), IsBlank ws ∧ d.WF ∧
      st.length + d.depth ≤ maxNestingDepth ∧ t = ws ++ (d.text ++ rest) ∧ Accepts (pop st) rest

/-- The items of a container at the front of an accepted text of at most `n` bytes. -/
def HasItems (n : Nat) : Prop :=
  ∀ (kind : Kind) (t : Str) (st : List ParseState), t.length ≤ n →
    st.length + 1 ≤ maxNestingDepth → Accepts (kind.item st) t →
    ∃ items rest, items ≠ [] ∧ ItemsWF kind items ∧
      st.length + 1 + itemsDepth items ≤ maxNestingDepth ∧
      t = joinComma (itemTexts items) ++ kind.closing :: rest ∧ Accepts (pop st) rest

theorem Accepts.node {n : Nat} (hitems : HasItems n) (hlen : t.length ≤ n)
    (hdepth : st.length + 1 ≤ maxNestingDepth) (h : Accepts (kind.opened st) t) :
    ∃ space items rest, (Doc.node kind space items).WF ∧
      st.length + (Doc.node kind space items).depth ≤ maxNestingDepth ∧
      kind.opening :: t = (Doc.node kind space items).text ++ rest ∧
      Accepts (Scanner.pop st) rest := by
  obtain ⟨ws, c, t', hws, hc, rfl, h₁⟩ :=
    h.split_blank (fun _ => kind.opened_space st) (by cases kind <;> simp [Kind.opened])
  cases hclose : c == kind.closing with
  | true =>
    obtain rfl := beq_iff_eq.mp hclose
    refine ⟨ws, [], t', ⟨hws, fun hne => absurd rfl hne, trivial⟩, ?_, ?_,
      (accepts_cons (kind.opened_closing st)).mp h₁⟩
    · simpa [Doc.depth, itemsDepth] using hdepth
    · simp [Doc.text, itemTexts, joinComma]
  | false =>
    rw [Accepts, kind.run_opened st hws hc hclose] at h
    obtain ⟨items, rest, _, hwf, hd, htext, hrest⟩ := hitems kind _ st hlen hdepth h
    refine ⟨[], items, rest, ⟨isBlank_nil, fun _ => rfl, hwf⟩, ?_, ?_, hrest⟩
    · simp only [Doc.depth]
      omega
    · rw [htext]
      simp [Doc.text]

theorem hasDoc {n : Nat} (hitems : ∀ m < n, HasItems m) : HasDoc n := by
  intro t st hlen hdepth h
  obtain ⟨ws, c, t, hws, hc, rfl, h₁⟩ :=
    h.split_blank (fun _ => next_beginValue_space st) (by simp)
  simp only [List.length_append, List.length_cons] at hlen
  obtain ⟨s, hs, h₂⟩ := h₁.next
  rcases beginValue_cases hc hs with
    ⟨kind, rfl⟩ | ⟨rfl, rfl⟩ | ⟨w, hw, rfl⟩ | ⟨σ, hσ, hnum, rfl, hstart⟩
  · obtain ⟨hroom, rfl⟩ := opening_cases hs
    obtain ⟨space, items, rest, hwf, hd, htext, hrest⟩ :=
      h₂.node (hitems t.length (by omega)) (Nat.le_refl _) hroom
    exact ⟨ws, _, rest, hws, hwf, hd, by rw [htext], hrest⟩
  · obtain ⟨raw, rest, hraw, rfl, h₃⟩ := Accepts.raw t.length (Nat.le_refl _) h₂
    refine ⟨ws, .str raw, rest, hws, hraw, hdepth, ?_, h₃.pop_of_endValue⟩
    simp [Doc.text, quotedRaw]
  · obtain ⟨rest, rfl, h₃⟩ := h₂.word
    refine ⟨ws, .word w, rest, hws, trivial, hdepth, ?_, h₃.pop_of_endValue⟩
    rw [Doc.text, ← hw]
    rfl
  · obtain ⟨digits, rest, σ', hbytes, hends, hrun, rfl, h₃⟩ := h₂.number hσ
    refine ⟨ws, .num (c :: digits), rest, hws, ?_, hdepth, rfl, h₃⟩
    refine ⟨List.cons_ne_nil _ _, List.forall_mem_cons.mpr ⟨hnum, hbytes⟩, σ', hends, ?_⟩
    intro st'
    rw [run_cons_of_next (hstart st')]
    exact hrun st'

theorem Accepts.head (h : Accepts (kind.item st) t) :
    ∃ (head : Head) (rest : Str), (∀ gap, IsBlank gap → ∃ head' : Head, head'.WF kind ∧
        head'.text = head.text ++ gap) ∧
      t = head.text ++ rest ∧ Accepts ⟨.beginValue, kind.inside st⟩ rest := by
  cases kind with
  | arr =>
    refine ⟨⟨[], none⟩, t, ?_, rfl, h⟩
    intro gap hgap
    exact ⟨⟨gap, none⟩, ⟨hgap, trivial⟩, by simp [Head.text]⟩
  | obj =>
    obtain ⟨before, raw, after, rest, hbefore, hraw, hafter, rfl, hrest⟩ := h.key
    refine ⟨⟨before, some ⟨raw, after, []⟩⟩, rest, ?_, by simp [Head.text, Key.text], hrest⟩
    intro gap hgap
    exact ⟨⟨before, some ⟨raw, after, gap⟩⟩, ⟨hbefore, ⟨hraw, hafter, hgap⟩⟩,
      by simp [Head.text, Key.text]⟩

theorem hasItems {n : Nat} (hdoc : HasDoc n) (hitems : ∀ m < n, HasItems m) : HasItems n := by
  intro kind t st hlen hdepth h
  obtain ⟨head, t₁, hhead, rfl, h₁⟩ := h.head
  simp only [List.length_append] at hlen
  obtain ⟨gap, d, t₂, hgap, hd, hdd, rfl, h₂⟩ := hdoc t₁ (kind.inside st) (by omega)
    (by rw [kind.length_inside]; exact hdepth) h₁
  obtain ⟨head, hwf, htext⟩ := hhead gap hgap
  rw [kind.length_inside] at hdd
  have hpop : pop (kind.inside st) = ⟨.endValue, kind.inside st⟩ := by cases kind <;> rfl
  rw [hpop] at h₂
  obtain ⟨after, c, t₃, hafter, hc, rfl, h₃⟩ :=
    h₂.split_endValue (by cases kind <;> simp [Kind.inside])
  obtain ⟨s, hs, h₄⟩ := h₃.next
  rcases inside_next hc hs with ⟨rfl, rfl⟩ | ⟨rfl, rfl⟩
  · obtain ⟨items, rest, hne, hitemswf, hitemsdepth, rfl, hrest⟩ :=
      hitems t₃.length (by simp only [List.length_append, List.length_cons] at hlen; omega) kind
        t₃ st (Nat.le_refl _) hdepth h₄
    refine ⟨(head, d, after) :: items, rest, List.cons_ne_nil _ _, ⟨⟨hwf, hd, hafter⟩, hitemswf⟩,
      ?_, ?_, hrest⟩
    · simp only [itemsDepth]
      omega
    · rw [itemTexts, joinComma_cons, joinTail_itemTexts hne, htext]
      simp
  · refine ⟨[(head, d, after)], t₃, List.cons_ne_nil _ _, ⟨⟨hwf, hd, hafter⟩, trivial⟩, ?_, ?_, h₄⟩
    · simp only [itemsDepth]
      omega
    · simp [itemTexts, joinComma, htext]

theorem hasDoc_and_hasItems (n : Nat) : HasDoc n ∧ HasItems n := by
  induction n using Nat.strong_induction_on with
  | _ n ih =>
    have hdoc := hasDoc (fun m hm => (ih m hm).2)
    exact ⟨hdoc, hasItems hdoc (fun m hm => (ih m hm).2)⟩

theorem next_blank_endTop {s' : Scanner} (h : s.next 0x20 = some s') (htop : s'.step = .endTop) :
    s' = ⟨.endTop, []⟩ := by
  obtain ⟨σ, st⟩ := s
  obtain ⟨σ', st'⟩ := s'
  obtain rfl : σ' = .endTop := htop
  cases σ <;> cases st <;> first
    | exact (Option.some.inj h).symm
    | exact absurd (congrArg Scanner.step (Option.some.inj h)) (by decide)
    | exact absurd h (by intro h; cases h)

theorem accepts_of_valid (h : valid t = true) : Accepts Scanner.init (t ++ [0x20]) := by
  rw [valid] at h
  cases hrun : Scanner.init.run t with
  | none => rw [hrun] at h; cases h
  | some s =>
    rw [hrun] at h
    have heof : s.eof = true := h
    rw [Accepts, run_append_of_run hrun]
    rw [Scanner.eof, Bool.or_eq_true, beq_iff_eq] at heof
    rcases heof with htop | hblank
    · obtain ⟨σ, st⟩ := s
      obtain rfl : σ = .endTop := htop
      rfl
    · cases hnext : s.next 0x20 with
      | none => rw [hnext] at hblank; cases hblank
      | some s' =>
        rw [hnext] at hblank
        rw [run_cons_of_next hnext, next_blank_endTop hnext (beq_iff_eq.mp hblank)]
        rfl

theorem valid_iff :
    valid t = true ↔ ∃ (lead : Str) (d : Doc) (trail : Str), IsBlank lead ∧
      IsBlank trail ∧ d.WF ∧ d.depth ≤ maxNestingDepth ∧ t = lead ++ (d.text ++ trail) := by
  constructor
  · intro h
    obtain ⟨lead, d, rest, hlead, hd, hdepth, htext, hrest⟩ :=
      (hasDoc_and_hasItems _).1 _ [] (Nat.le_refl _) (by simp) (accepts_of_valid h)
    have hblank : IsBlank rest := Accepts.isBlank hrest
    rcases List.eq_nil_or_concat rest with rfl | ⟨trail, c, rfl⟩
    · obtain ⟨u, c, hlast, hc, _⟩ := d.text_last hd
      rw [hlast, List.append_nil, ← List.append_assoc] at htext
      obtain ⟨_, hblank⟩ := List.append_inj' htext rfl
      obtain rfl : (0x20 : UInt8) = c := by simpa using hblank
      exact absurd hc (by decide)
    · rw [List.concat_eq_append] at htext hblank
      rw [← List.append_assoc, ← List.append_assoc] at htext
      refine ⟨lead, d, trail, hlead, hblank.front (List.prefix_append ..), hd,
        by simpa using hdepth, ?_⟩
      rw [(List.append_inj' htext rfl).1, List.append_assoc]
  · rintro ⟨lead, d, trail, hlead, htrail, hd, hdepth, rfl⟩
    exact valid_text hd hdepth hlead htrail

end Go.Json
