/-
# `Protocol.RedactText` — what `RedactString` makes of the text of a JSON document

`RedactBody` gives the text of a body it cannot decode into a map to `RedactString` as
it stands.  No pattern has a quote or any other punctuation in it, and outside the
literals a document is written in bytes with which no pattern can be spelled, so what
comes back is the document with the text between the quotes of every literal replaced
by its `RedactString` (`redactString_bytes`).
-/
import MiniGoAgent.Go.JsonStrings
import MiniGoAgent.Protocol.Redact

open Go

namespace MiniGoAgent

open Json (IsRaw Doc decodeRaw hex4 Decodes Chunk Closed isOutside glue AllReplaced
  encodeRune quotedRaw unescape punctuation)
open Regexp (reaches)

variable {a raw t : Str}

/-! ## Splitting at punctuation -/

theorem redactString_eq_foldl (s : Str) : redactString s =
    secretPatterns.foldl (fun result pat => pat.replaceAllStringFunc maskSecret result) s := by
  unfold redactString
  split
  next hs =>
    have hfree := (foldl_eq_self_iff (fun _ h => h) []).mpr (List.all_eq_true.mp secretFree_nil)
    rw [hs, hfree]
  next => rfl

theorem redactString_at_barrier {b : UInt8} (hb : b ∈ barriers) (a s : Str) :
    redactString (a ++ b :: s) = redactString a ++ b :: redactString s := by
  have hfold : ∀ pats : List (Regexp Str), pats ⊆ secretPatterns → ∀ a s : Str,
      pats.foldl (fun result pat => pat.replaceAllStringFunc maskSecret result) (a ++ b :: s) =
        pats.foldl (fun result pat => pat.replaceAllStringFunc maskSecret result) a ++
          b :: pats.foldl (fun result pat => pat.replaceAllStringFunc maskSecret result) s := by
    intro pats hpats
    induction pats with
    | nil =>
      intro a s
      rfl
    | cons pat pats ih =>
      intro a s
      obtain ⟨hpat, hpats⟩ := List.cons_subset.mp hpats
      rw [List.foldl_cons, Regexp.replaceAllStringFunc_append_avoided (bytes_facts.2.1 b hb)
        ((secretPatterns_facts pat hpat).2.1 b hb), ih hpats]
      rfl
  rw [redactString_eq_foldl, hfold _ (fun _ h => h), ← redactString_eq_foldl,
    ← redactString_eq_foldl]

theorem quote_mem_barriers : byte '"' ∈ barriers := mem_barriers (by decide)

/-! ## Outside the literals -/

/-- The bytes outside the literals of a document. -/
def outsideBytes : List UInt8 := harmlessBytes ++ (lit "\t\n\x0d" ++ punctuation)

theorem outsideBytes_facts :
    (∀ pat ∈ secretPatterns, reaches (outsideBytes.map ([·])) pat = false) ∧
      (∀ b ∈ outsideBytes, b < 0x80) ∧
        ∀ n : Fin 256, isOutside (UInt8.ofNat n) = true → UInt8.ofNat n ∈ outsideBytes := by
  decide +kernel

theorem redactString_outside (ht : ∀ c ∈ t, isOutside c = true) : redactString t = t := by
  refine (redactString_eq_self_iff t).mpr
    (secretFree_of_ascii outsideBytes_facts.2.1 outsideBytes_facts.1 ?_)
  intro b hb
  exact forall_byte (P := fun b => isOutside b = true → b ∈ outsideBytes) outsideBytes_facts.2.2 b
    (ht b hb)

theorem redactString_glue {ps qs : List Json.TextPiece} (h : AllReplaced redactString ps qs)
    (ht : ∀ c ∈ t, isOutside c = true) : redactString (t ++ glue ps) = t ++ glue qs := by
  induction h generalizing t with
  | nil =>
    rw [glue, List.flatMap_nil, List.append_nil]
    exact redactString_outside ht
  | cons hp _ ih =>
    rw [Json.glue_cons, Json.glue_cons]
    cases hp with
    | @outside u hu =>
      rw [← List.append_assoc, ih (List.forall_mem_append.mpr ⟨ht, hu⟩), List.append_assoc]
    | @literal raw hraw =>
      have hrest := ih (t := []) (by simp)
      rw [List.nil_append, List.nil_append] at hrest
      rw [quotedRaw, quotedRaw, List.cons_append, List.append_assoc, List.singleton_append,
        redactString_at_barrier quote_mem_barriers, redactString_outside ht,
        redactString_at_barrier quote_mem_barriers, hrest]
      simp

theorem redactString_bytes (s : Json.Text) :
    redactString s.bytes = s.lead ++ ((s.doc.mapRaws redactString).text ++ s.trail) := by
  have hpieces : AllReplaced redactString (s.doc.pieces ++ [(false, s.trail)])
      ((s.doc.mapRaws redactString).pieces ++ [(false, s.trail)]) :=
    List.rel_append (s.doc.replaced s.wf)
      (.cons (.outside (Json.isOutside_blank s.blank_trail)) .nil)
  have hmask := redactString_glue hpieces (Json.isOutside_blank s.blank_lead)
  rw [Json.glue_append, Json.glue_append, Doc.glue_pieces, Doc.glue_pieces] at hmask
  have htrail : glue [(false, s.trail)] = s.trail := List.append_nil _
  rw [htrail] at hmask
  exact hmask

/-! ## Stars -/

/-- `b` is `a` with bytes overwritten by `*` that are no barriers. -/
def Overwritten (a b : Str) : Prop :=
  List.Forall₂ (fun x y => y = x ∨ (y = byte '*' ∧ x ∉ barriers)) a b

theorem starred_redactString (s : Str) : Starred s (redactString s) := by
  rw [redactString_eq_foldl]
  exact starred_foldl secretPatterns s

theorem Starred.overwritten {b : Str} (h : Starred a b) (ha : ∀ x ∈ a, x ∉ barriers) :
    Overwritten a b := by
  induction h with
  | nil => exact .nil
  | cons hxy _ ih =>
    obtain ⟨hx, ha⟩ := List.forall_mem_cons.mp ha
    exact .cons (hxy.imp_right (fun hy => ⟨hy, hx⟩)) (ih ha)

theorem overwritten_redactString (s : Str) : Overwritten s (redactString s) := by
  induction hn : s.length using Nat.strong_induction_on generalizing s with
  | _ n ih =>
    by_cases hbarrier : ∃ b ∈ s, b ∈ barriers
    · obtain ⟨b, hb, hmem⟩ := hbarrier
      obtain ⟨a, t, rfl⟩ := List.append_of_mem hb
      rw [List.length_append, List.length_cons] at hn
      rw [redactString_at_barrier hmem]
      exact List.rel_append (ih a.length (by omega) a rfl)
        (.cons (.inl rfl) (ih t.length (by omega) t rfl))
    · refine (starred_redactString s).overwritten ?_
      intro x hx hmem
      exact hbarrier ⟨x, hx, hmem⟩

theorem Overwritten.cons_left {x : UInt8} {s : Str} (h : Overwritten (x :: a) s) :
    ∃ y b, (y = x ∨ (y = byte '*' ∧ x ∉ barriers)) ∧ Overwritten a b ∧ s = y :: b :=
  List.forall₂_cons_left_iff.mp h

theorem Overwritten.backslash {s : Str} (h : Overwritten (byte '\\' :: a) s) :
    ∃ b, Overwritten a b ∧ s = byte '\\' :: b := by
  obtain ⟨y, b, hy, hrest, rfl⟩ := h.cons_left
  obtain rfl : y = byte '\\' := hy.resolve_right (fun hy => hy.2 (by decide))
  exact ⟨b, hrest, rfl⟩

theorem Overwritten.closed {b : Str} (h : Overwritten a b) (ha : Closed a) : Closed b := by
  induction ha generalizing b with
  | nil =>
    cases h
    exact .nil
  | plain hquote hback _ ih =>
    obtain ⟨y, b, hy, hrest, rfl⟩ := h.cons_left
    rcases hy with rfl | ⟨rfl, _⟩
    · exact .plain hquote hback (ih hrest)
    · exact .plain (by decide) (by decide) (ih hrest)
  | escape _ ih =>
    obtain ⟨_, htail, rfl⟩ := h.backslash
    obtain ⟨e, b, _, hrest, rfl⟩ := htail.cons_left
    exact .escape (ih hrest)

theorem closed_redactString (h : IsRaw raw) : Closed (redactString raw) :=
  (overwritten_redactString raw).closed h.closed

inductive Stars : Str → Nat → Prop
  | nil : Stars [] 0
  | plain {c : UInt8} {raw : Str} {n : Nat} (hback : c ≠ byte '\\') (h : Stars raw n) :
      Stars (c :: raw) ([c].count (byte '*') + n)
  | escape {e : UInt8} {raw : Str} {n : Nat} (he : Json.Scanner.isEscape e = true)
      (h : Stars raw n) : Stars (byte '\\' :: e :: raw) n
  | unicode {a b c d : UInt8} {v : Nat} {raw : Str} {n : Nat}
      (hv : ∀ t, hex4 (a :: b :: c :: d :: t) = some (v, t)) (h : Stars raw n) :
      Stars (byte '\\' :: byte 'u' :: a :: b :: c :: d :: raw)
        ((encodeRune v).count (byte '*') + n)

theorem Stars.plain_append {x : Str} {n : Nat} (hx : ∀ c ∈ x, c ≠ byte '\\')
    (h : Stars raw n) : Stars (x ++ raw) (x.count (byte '*') + n) := by
  induction x with
  | nil => simpa using h
  | cons c x ih =>
    obtain ⟨hc, hx⟩ := List.forall_mem_cons.mp hx
    rw [← List.singleton_append, List.count_append, Nat.add_assoc]
    exact .plain hc (ih hx)

theorem count_star_of_high {x : Str} (hx : ∀ c ∈ x, 0x80 ≤ c) : x.count (byte '*') = 0 := by
  rw [List.count_eq_zero]
  intro hmem
  exact absurd (hx _ hmem) (by decide)

theorem count_star_unescape {e : UInt8} (he : Json.Scanner.isEscape e = true) :
    [unescape e].count (byte '*') = 0 :=
  forall_byte (P := fun e => Json.Scanner.isEscape e = true → [unescape e].count (byte '*') = 0)
    (by decide +kernel) e he

theorem Stars.of_decodes (h : Decodes raw t) : Stars raw (t.count (byte '*')) := by
  induction h with
  | nil => exact .nil
  | @chunk x u raw t hx _ ih =>
    rw [List.count_append]
    cases hx with
    | rune _ hplain =>
      refine ih.plain_append ?_
      intro c hc
      exact beq_eq_false_iff_ne.mp (hplain c hc).2
    | @stray c hc =>
      have hnone : (encodeRune 0xFFFD).count (byte '*') = [c].count (byte '*') := by
        rw [count_star_of_high (x := [c]) (by simpa using hc)]
        decide
      rw [hnone]
      refine .plain ?_ ih
      rintro rfl
      exact absurd hc (by decide)
    | @escape e he =>
      have hnone : [unescape e].count (byte '*') = 0 := count_star_unescape he
      rw [hnone, Nat.zero_add]
      exact .escape he ih
    | unicode hn => exact .unicode hn ih
    | @pair a b c d a' b' c' d' hi lo hhi hlo hhigh hlow =>
      have hjoin : (encodeRune (Json.joinHalves hi lo)).count (byte '*') =
          (encodeRune hi).count (byte '*') + (encodeRune lo).count (byte '*') := by
        have hhigh : ∀ v, 0x80 ≤ v → (encodeRune v).count (byte '*') = 0 :=
          fun v hv => count_star_of_high (Json.high_of_mem_encodeRune hv)
        rw [hhigh hi (by omega), hhigh lo (by omega), hhigh _ (by unfold Json.joinHalves; omega)]
      rw [hjoin, Nat.add_assoc]
      exact .unicode hhi (.unicode hlo ih)

theorem eq_of_unhex {x y : UInt8} (h : y = x ∨ (y = byte '*' ∧ x ∉ barriers))
    (hy : (unhex y).isSome = true) : y = x := by
  refine h.resolve_right ?_
  rintro ⟨rfl, _⟩
  exact absurd hy (by decide)

theorem Stars.overwritten {raw' : Str} {n n' : Nat} (h : Stars raw n) (h' : Stars raw' n')
    (hover : Overwritten raw raw') : n ≤ n' ∧ (n' ≤ n → raw' = raw) := by
  induction h generalizing raw' n' with
  | nil =>
    cases hover
    exact ⟨Nat.zero_le _, fun _ => rfl⟩
  | @plain c raw n hback _ ih =>
    obtain ⟨c', raw', hc, hrest, rfl⟩ := hover.cons_left
    have hback' : c' ≠ byte '\\' := by
      rcases hc with rfl | ⟨rfl, _⟩
      · exact hback
      · decide
    cases h' with
    | escape | unicode => exact absurd rfl hback'
    | plain _ h' =>
      obtain ⟨hle, heq⟩ := ih h' hrest
      rcases hc with rfl | ⟨rfl, hbarrier⟩
      · exact ⟨by omega, fun hn => by rw [heq (by omega)]⟩
      · have hone : [byte '*'].count (byte '*') = 1 := by decide
        have hnone : [c].count (byte '*') = 0 := by
          rw [List.count_eq_zero, List.mem_singleton]
          rintro rfl
          exact hbarrier (by decide)
        exact ⟨by omega, fun hn => absurd hn (by omega)⟩
  | @escape e raw n he _ ih =>
    obtain ⟨_, htail, rfl⟩ := hover.backslash
    obtain ⟨e', raw', he', hrest, rfl⟩ := htail.cons_left
    cases h' with
    | plain hback _ => exact absurd rfl hback
    | unicode _ _ =>
      rcases he' with rfl | ⟨hstar, _⟩
      · exact absurd he (by decide)
      · exact absurd hstar (by decide)
    | escape hesc h' =>
      obtain ⟨hle, heq⟩ := ih h' hrest
      rcases he' with rfl | ⟨rfl, _⟩
      · exact ⟨hle, fun hn => by rw [heq hn]⟩
      · exact absurd hesc (by decide)
  | @unicode a b c d v raw n hv _ ih =>
    obtain ⟨_, h0, rfl⟩ := hover.backslash
    obtain ⟨u', _, hu, h1, rfl⟩ := h0.cons_left
    obtain ⟨a', _, ha, h2, rfl⟩ := h1.cons_left
    obtain ⟨b', _, hb, h3, rfl⟩ := h2.cons_left
    obtain ⟨c', _, hc, h4, rfl⟩ := h3.cons_left
    obtain ⟨d', raw', hd, hrest, rfl⟩ := h4.cons_left
    cases h' with
    | plain hback _ => exact absurd rfl hback
    | escape hesc _ => rcases hu with rfl | ⟨rfl, _⟩ <;> exact absurd hesc (by decide)
    | unicode hv' h' =>
      obtain ⟨ha', hb', hc', hd'⟩ := Json.unhex_of_hex4 hv'
      obtain rfl := eq_of_unhex ha ha'
      obtain rfl := eq_of_unhex hb hb'
      obtain rfl := eq_of_unhex hc hc'
      obtain rfl := eq_of_unhex hd hd'
      obtain ⟨hle, heq⟩ := ih h' hrest
      have hsame := (hv []).symm.trans (hv' [])
      rw [Option.some.injEq, Prod.mk.injEq] at hsame
      rw [hsame.1]
      exact ⟨by omega, fun hn => by rw [heq (by omega)]⟩

theorem count_decodeRaw_redactString (h : IsRaw raw) (h' : IsRaw (redactString raw)) :
    (decodeRaw raw).count (byte '*') ≤ (decodeRaw (redactString raw)).count (byte '*') ∧
      ((decodeRaw (redactString raw)).count (byte '*') ≤ (decodeRaw raw).count (byte '*') →
        redactString raw = raw) :=
  (Stars.of_decodes h.decodes).overwritten (Stars.of_decodes h'.decodes)
    (overwritten_redactString raw)

end MiniGoAgent
