/-
# `Protocol.RedactBody` — what a redacted body has to be, and when it is

A redacted body is a JSON document again, with the value of every sensitive key replaced,
every other string behind one pass of `RedactString`, and all the rest as it was
(`Masked`).  `RedactBody` has two ways of getting there.

* An object is decoded, masked and written again (`masked_redactAny_iff`).
* Everything `json.Unmarshal` does not put into a map is masked as text, and the keys are
  not looked at (`maskedAsWritten_iff`).
-/
import MiniGoAgent.Go.JsonTarget
import MiniGoAgent.Protocol.RedactText
import Mathlib.Data.Rat.Defs
import Mathlib.Algebra.Order.Field.Rat

open Go

namespace MiniGoAgent

open Json (Value NumberFormat Doc Head Kind IsRaw IsNumber decodeRaw lastOfKey sortMembers renumber
  encode maxNestingDepth)

variable {ms' : List (Str × Value)}

variable {h : Head} {ms ns : List (Str × Value)} {num : NumberFormat}

/-! ## Numbers -/

/-- The sign in front of a number, and the rest. -/
def signOf (s : Str) : Int × Str :=
  if s.head? = some (byte '-') then (-1, s.tail)
  else if s.head? = some (byte '+') then (1, s.tail)
  else (1, s)

/-- The digits behind the point, and the rest. -/
def fractionOf (s : Str) : Str × Str :=
  if s.head? = some (byte '.') then (s.tail.takeWhile isDigit, s.tail.dropWhile isDigit)
  else ([], s)

def exponentOf (s : Str) : Int :=
  if s.head? = some (byte 'e') ∨ s.head? = some (byte 'E') then
    (signOf s.tail).1 * decimal (signOf s.tail).2
  else 0

def literalValue (l : Str) : ℚ :=
  let digits := (signOf l).2
  let fraction := fractionOf (digits.dropWhile isDigit)
  (signOf l).1 * decimal (digits.takeWhile isDigit ++ fraction.1) *
    10 ^ (exponentOf fraction.2 - fraction.1.length)

example : literalValue (lit "-12.50e1") = literalValue (lit "-125") := by decide +kernel

mutual

/-- Every number is exactly representable: it comes back as a literal of the same number. -/
def Exact (num : NumberFormat) : Value → Prop
  | .num l => ∃ l', num.format l = some l' ∧ IsNumber l' ∧ literalValue l' = literalValue l
  | .arr xs => ExactElements num xs
  | .obj ms => ExactMembers num ms
  | .null => True
  | .bool _ => True
  | .str _ => True

def ExactElements (num : NumberFormat) : List Value → Prop
  | [] => True
  | x :: xs => Exact num x ∧ ExactElements num xs

def ExactMembers (num : NumberFormat) : List (Str × Value) → Prop
  | [] => True
  | (_, v) :: ms => Exact num v ∧ ExactMembers num ms

end

/-! ## Masked documents -/

mutual

/-- `w` is `v` with its secrets masked.  The order of members is of no consequence, and
those that a later member of the same key hides may be left out. -/
inductive Masked : Value → Value → Prop
  | null : Masked .null .null
  | bool (b : Bool) : Masked (.bool b) (.bool b)
  | num {l l' : Str} (h : literalValue l' = literalValue l) : Masked (.num l) (.num l')
  | str (s : Str) : Masked (.str s) (.str (redactString s))
  | arr {xs ys : List Value} (h : MaskedElements xs ys) : Masked (.arr xs) (.arr ys)
  | obj {ms kept ns : List (Str × Value)} (hkept : kept = ms ∨ kept = lastOfKey ms)
      (h : MaskedMembers (sortMembers kept) (sortMembers ns)) : Masked (.obj ms) (.obj ns)

inductive MaskedElements : List Value → List Value → Prop
  | nil : MaskedElements [] []
  | cons {x y : Value} {xs ys : List Value} (h : Masked x y) (hs : MaskedElements xs ys) :
      MaskedElements (x :: xs) (y :: ys)

inductive MaskedMembers : List (Str × Value) → List (Str × Value) → Prop
  | nil : MaskedMembers [] []
  | sensitive {k : Str} {v : Value} {ms ns : List (Str × Value)}
      (hk : isSensitiveKey (toLower k) = true) (hs : MaskedMembers ms ns) :
      MaskedMembers ((k, v) :: ms) ((k, .str redacted) :: ns)
  | other {k : Str} {v w : Value} {ms ns : List (Str × Value)}
      (hk : isSensitiveKey (toLower k) = false) (h : Masked v w) (hs : MaskedMembers ms ns) :
      MaskedMembers ((k, v) :: ms) ((k, w) :: ns)

end

/-- `RedactBody` gives the masked document. -/
def MasksBody (num : NumberFormat) (s : Json.Text) : Prop :=
  ∃ t : Json.Text, redactBody num s.bytes = t.bytes ∧ Masked s.doc.value t.doc.value

theorem masked_str_iff {s : Str} {w : Value} : Masked (.str s) w ↔ w = .str (redactString s) := by
  constructor
  · intro h
    cases h
    rfl
  · rintro rfl
    exact .str s

theorem masked_arr_iff {xs ys : List Value} :
    Masked (.arr xs) (.arr ys) ↔ MaskedElements xs ys := by
  constructor
  · intro h
    cases h with
    | arr h => exact h
  · exact .arr

theorem maskedElements_cons_iff {x y : Value} {xs ys : List Value} :
    MaskedElements (x :: xs) (y :: ys) ↔ Masked x y ∧ MaskedElements xs ys := by
  constructor
  · intro h
    cases h with
    | cons h hs => exact ⟨h, hs⟩
  · rintro ⟨h, hs⟩
    exact .cons h hs

/-- What is asked of the value of a member. -/
def MaskedValue (k : Str) (v w : Value) : Prop :=
  if isSensitiveKey (toLower k) then w = .str redacted else Masked v w

theorem maskedMembers_cons_iff {m n : Str × Value} :
    MaskedMembers (m :: ms) (n :: ns) ↔
      (n.1 = m.1 ∧ MaskedValue m.1 m.2 n.2) ∧ MaskedMembers ms ns := by
  constructor
  · intro h
    cases h with
    | sensitive hk hs => exact ⟨⟨rfl, by rw [MaskedValue, if_pos hk]⟩, hs⟩
    | other hk h hs =>
      exact ⟨⟨rfl, by rw [MaskedValue, if_neg (by rw [hk]; exact Bool.false_ne_true)]; exact h⟩, hs⟩
  · rintro ⟨⟨hkey, hvalue⟩, hs⟩
    obtain ⟨k, v⟩ := m
    obtain ⟨k', w⟩ := n
    obtain rfl : k' = k := hkey
    rw [MaskedValue] at hvalue
    split at hvalue
    next hk =>
      obtain rfl : w = .str redacted := hvalue
      exact .sensitive hk hs
    next hk => exact .other (Bool.eq_false_iff.mpr hk) hvalue hs

theorem maskedMembers_iff :
    MaskedMembers ms ns ↔
      List.Forall₂ (fun m n => n.1 = m.1 ∧ MaskedValue m.1 m.2 n.2) ms ns := by
  induction ms generalizing ns with
  | nil =>
    rw [List.forall₂_nil_left_iff]
    constructor
    · intro h
      cases h
      rfl
    · rintro rfl
      exact .nil
  | cons m ms ih =>
    cases ns with
    | nil =>
      refine iff_of_false ?_ ?_
      · intro h
        cases h
      · intro h
        cases h
    | cons n ns => rw [maskedMembers_cons_iff, List.forall₂_cons, ih]

theorem MaskedMembers.keys (h : MaskedMembers ms ns) : ns.map Prod.fst = ms.map Prod.fst := by
  rw [maskedMembers_iff] at h
  induction h with
  | nil => rfl
  | cons hm _ ih => rw [List.map_cons, List.map_cons, ih, hm.1]

theorem masked_obj_iff {kept : List (Str × Value)}
    (hkept : kept = ms ∨ kept = lastOfKey ms) (hlen : ns.length = kept.length) :
    Masked (.obj ms) (.obj ns) ↔ MaskedMembers (sortMembers kept) (sortMembers ns) := by
  constructor
  · intro h
    cases h with
    | @obj _ kept' _ hkept' h =>
      have hlen' : kept'.length = ns.length := by
        have hkeys := congrArg List.length h.keys
        rw [List.length_map, List.length_map, (Json.sortMembers_perm ns).length_eq,
          (Json.sortMembers_perm kept').length_eq] at hkeys
        exact hkeys.symm
      have hsame : kept' = kept := by
        have hall : (lastOfKey ms).length = ms.length → lastOfKey ms = ms :=
          (Json.lastOfKey_sublist ms).eq_of_length
        rcases hkept with rfl | rfl <;> rcases hkept' with rfl | rfl
        · rfl
        · exact hall (by omega)
        · exact (hall (by omega)).symm
        · rfl
      rw [hsame] at h
      exact h
  · exact .obj hkept

theorem maskedMembers_sortMembers (hkeys : ns.map Prod.fst = ms.map Prod.fst) :
    MaskedMembers (sortMembers ms) (sortMembers ns) ↔ MaskedMembers ms ns := by
  rw [maskedMembers_iff, maskedMembers_iff, Json.forall₂_sortMembers hkeys]

/-! ## Masked as it is written -/

/-- The value of a sensitive key as `RedactBody` would have left it. -/
def ReadsRedacted : Doc → Prop
  | .str raw => redactString raw = raw ∧ decodeRaw raw = redacted
  | _ => False

/-- No pattern matches in the key. -/
def KeyKept (h : Head) : Prop := ∀ k ∈ h.key, redactString k.raw = k.raw

def isSensitiveHead (h : Head) : Bool :=
  h.key.any (fun k => isSensitiveKey (toLower (decodeRaw k.raw)))

mutual

/-- Masking the literals as they are written masks the document: a literal is one again
afterwards and reads as the mask of what it read as, a key is left alone, and a sensitive
key already has the value it is to have. -/
def MaskedAsWritten : Doc → Prop
  | .word _ => True
  | .num _ => True
  | .str raw =>
    IsRaw (redactString raw) ∧ decodeRaw (redactString raw) = redactString (decodeRaw raw)
  | .node _ _ items => ItemsMaskedAsWritten items

def ItemsMaskedAsWritten : List (Head × Doc × Str) → Prop
  | [] => True
  | (h, d, _) :: rest =>
    (KeyKept h ∧ if isSensitiveHead h then ReadsRedacted d else MaskedAsWritten d) ∧
      ItemsMaskedAsWritten rest

end

theorem redactString_eq_of_decodeRaw {raw : Str} (h : IsRaw raw)
    (h' : IsRaw (redactString raw)) (hsame : decodeRaw (redactString raw) = decodeRaw raw) :
    redactString raw = raw :=
  (count_decodeRaw_redactString h h').2 (by rw [hsame])

theorem readsRedacted_iff {d : Doc} (hwf : d.WF) (hwf' : (d.mapRaws redactString).WF) :
    (d.mapRaws redactString).value = .str redacted ↔ ReadsRedacted d := by
  cases d with
  | word w => exact iff_of_false (by cases w <;> exact Value.noConfusion) id
  | num t => exact iff_of_false Value.noConfusion id
  | node kind space items => exact iff_of_false (by cases kind <;> exact Value.noConfusion) id
  | str raw =>
    show Value.str (decodeRaw (redactString raw)) = .str redacted ↔ _
    rw [Value.str.injEq, ReadsRedacted]
    constructor
    · intro hread
      have hstars : (decodeRaw (redactString raw)).count (byte '*') = 0 := by
        rw [hread]
        decide
      have hsame := (count_decodeRaw_redactString hwf hwf').2 (by omega)
      rw [hsame] at hread
      exact ⟨hsame, hread⟩
    · rintro ⟨hsame, hread⟩
      rw [hsame, hread]

theorem ReadsRedacted.wf {d : Doc} (h : ReadsRedacted d) (hwf : d.WF) :
    (d.mapRaws redactString).WF := by
  cases d with
  | word | num | node => exact absurd h id
  | str raw =>
    show IsRaw (redactString raw)
    rw [h.1]
    exact hwf

theorem KeyKept.mapRaw (hkept : KeyKept h) : h.mapRaw redactString = h := by
  obtain ⟨before, key⟩ := h
  cases key with
  | none => rfl
  | some k =>
    obtain ⟨raw, after, gap⟩ := k
    have hraw : redactString raw = raw := hkept _ rfl
    show (⟨before, some ⟨redactString raw, after, gap⟩⟩ : Head) = _
    rw [hraw]

mutual

theorem wf_of_maskedAsWritten : (d : Doc) → d.WF → MaskedAsWritten d → (d.mapRaws redactString).WF
  | .word _, h, _ => h
  | .num _, h, _ => h
  | .str _, _, hmask => hmask.1
  | .node kind space items, h, hmask => by
    rw [Doc.WF] at h
    rw [MaskedAsWritten] at hmask
    rw [Doc.mapRaws, Doc.WF]
    refine ⟨h.1, ?_, wf_of_itemsMaskedAsWritten kind items h.2.2 hmask⟩
    intro hne
    refine h.2.1 ?_
    rintro rfl
    exact hne rfl

theorem wf_of_itemsMaskedAsWritten (kind : Kind) : (items : List (Head × Doc × Str)) →
    Json.ItemsWF kind items → ItemsMaskedAsWritten items →
      Json.ItemsWF kind (Json.mapItems redactString items)
  | [], _, _ => trivial
  | (h, d, after) :: rest, hwf, hmask => by
    rw [Json.ItemsWF] at hwf
    rw [ItemsMaskedAsWritten] at hmask
    obtain ⟨⟨hkept, hvalue⟩, hrest⟩ := hmask
    rw [Json.mapItems, Json.ItemsWF, hkept.mapRaw]
    refine ⟨⟨hwf.1.1, ?_, hwf.1.2.2⟩, wf_of_itemsMaskedAsWritten kind rest hwf.2 hrest⟩
    split at hvalue
    · exact hvalue.wf hwf.1.2.1
    · exact wf_of_maskedAsWritten d hwf.1.2.1 hvalue

end

theorem name_mapRaw_eq_iff {kind : Kind} (hwf : h.WF kind)
    (hwf' : (h.mapRaw redactString).WF kind) :
    (h.mapRaw redactString).name = h.name ↔ KeyKept h := by
  constructor
  · intro hname k hk
    obtain ⟨before, key⟩ := h
    obtain rfl : key = some k := hk
    cases kind with
    | arr => exact absurd hwf.2 id
    | obj => exact redactString_eq_of_decodeRaw hwf.2.raw hwf'.2.raw hname
  · intro hkept
    rw [hkept.mapRaw]

theorem isSensitiveHead_eq (hwf : h.WF .obj) :
    isSensitiveHead h = isSensitiveKey (toLower h.name) := by
  obtain ⟨before, key⟩ := h
  cases key with
  | none => exact absurd hwf.2 id
  | some k => rfl

theorem keyless (hwf : h.WF .arr) : KeyKept h ∧ isSensitiveHead h = false := by
  obtain ⟨before, key⟩ := h
  cases key with
  | none => exact ⟨by simp [KeyKept], rfl⟩
  | some k => exact absurd hwf.2 id

def starsOf (ks : List Str) : Nat := (ks.map (·.count (byte '*'))).sum

theorem starsOf_cons (k : Str) (ks : List Str) :
    starsOf (k :: ks) = k.count (byte '*') + starsOf ks := List.sum_cons

theorem starsOf_perm {ks ks' : List Str} (h : ks.Perm ks') : starsOf ks = starsOf ks' :=
  (h.map _).sum_nat

theorem starsOf_mapItems : (items : List (Head × Doc × Str)) → Json.ItemsWF .obj items →
    Json.ItemsWF .obj (Json.mapItems redactString items) →
      starsOf ((Json.itemMembers items).map Prod.fst) ≤
          starsOf ((Json.itemMembers (Json.mapItems redactString items)).map Prod.fst) ∧
        (starsOf ((Json.itemMembers (Json.mapItems redactString items)).map Prod.fst) ≤
            starsOf ((Json.itemMembers items).map Prod.fst) →
          (Json.itemMembers (Json.mapItems redactString items)).map Prod.fst =
            (Json.itemMembers items).map Prod.fst)
  | [], _, _ => ⟨Nat.le_refl _, fun _ => rfl⟩
  | (h, d, after) :: rest, hwf, hwf' => by
    rw [Json.ItemsWF] at hwf
    rw [Json.mapItems, Json.ItemsWF] at hwf'
    obtain ⟨hle, heq⟩ := starsOf_mapItems rest hwf.2 hwf'.2
    have hhead : h.name.count (byte '*') ≤ (h.mapRaw redactString).name.count (byte '*') ∧
        ((h.mapRaw redactString).name.count (byte '*') ≤ h.name.count (byte '*') →
          (h.mapRaw redactString).name = h.name) := by
      obtain ⟨before, key⟩ := h
      cases key with
      | none => exact absurd hwf.1.1.2 id
      | some k =>
        obtain ⟨hle, heq⟩ := count_decodeRaw_redactString hwf.1.1.2.raw hwf'.1.1.2.raw
        exact ⟨hle, fun hstars => congrArg decodeRaw (heq hstars)⟩
    simp only [Json.mapItems, Json.itemMembers, List.map_cons, starsOf_cons]
    refine ⟨by omega, ?_⟩
    intro hstars
    rw [hhead.2 (by omega), heq (by omega)]

theorem maskedMembers_mapItems {items : List (Head × Doc × Str)}
    (hwf : Json.ItemsWF .obj items) (hwf' : Json.ItemsWF .obj (Json.mapItems redactString items)) :
    MaskedMembers (sortMembers (Json.itemMembers items))
        (sortMembers (Json.itemMembers (Json.mapItems redactString items))) ↔
      MaskedMembers (Json.itemMembers items)
        (Json.itemMembers (Json.mapItems redactString items)) := by
  constructor
  · intro h
    have hperm := (((Json.sortMembers_perm _).map Prod.fst).symm.trans
      (List.Perm.of_eq h.keys)).trans ((Json.sortMembers_perm _).map Prod.fst)
    have hsame := (starsOf_mapItems items hwf hwf').2 (starsOf_perm hperm).le
    exact (maskedMembers_sortMembers hsame).mp h
  · intro h
    exact (maskedMembers_sortMembers h.keys).mpr h

theorem length_itemMembers_mapItems (items : List (Head × Doc × Str)) :
    (Json.itemMembers (Json.mapItems redactString items)).length =
      (Json.itemMembers items).length := by
  induction items with
  | nil => rfl
  | cons it items ih =>
    obtain ⟨h, d, after⟩ := it
    rw [Json.mapItems, Json.itemMembers, Json.itemMembers, List.length_cons, List.length_cons, ih]

mutual

theorem maskedAsWritten_iff : (d : Doc) → d.WF → (d.mapRaws redactString).WF →
    (Masked d.value (d.mapRaws redactString).value ↔ MaskedAsWritten d)
  | .word .null, _, _ => iff_of_true .null trivial
  | .word .true, _, _ => iff_of_true (.bool true) trivial
  | .word .false, _, _ => iff_of_true (.bool false) trivial
  | .num t, _, _ => iff_of_true (.num rfl) trivial
  | .str raw, _, hwf' => by
    show Masked (.str (decodeRaw raw)) (.str (decodeRaw (redactString raw))) ↔ _
    rw [masked_str_iff, Value.str.injEq, MaskedAsWritten]
    exact (and_iff_right hwf').symm
  | .node .arr space items, hwf, hwf' => by
    rw [Doc.mapRaws, Doc.value, Doc.value, masked_arr_iff, MaskedAsWritten]
    exact elementsMaskedAsWritten_iff items hwf.2.2 hwf'.2.2
  | .node .obj space items, hwf, hwf' => by
    rw [Doc.mapRaws, Doc.value, Doc.value,
      masked_obj_iff (.inl rfl) (length_itemMembers_mapItems items),
      maskedMembers_mapItems hwf.2.2 hwf'.2.2, MaskedAsWritten]
    exact membersMaskedAsWritten_iff items hwf.2.2 hwf'.2.2

theorem elementsMaskedAsWritten_iff : (items : List (Head × Doc × Str)) →
    Json.ItemsWF .arr items → Json.ItemsWF .arr (Json.mapItems redactString items) →
      (MaskedElements (Json.itemValues items) (Json.itemValues (Json.mapItems redactString items)) ↔
        ItemsMaskedAsWritten items)
  | [], _, _ => iff_of_true .nil trivial
  | (h, d, after) :: rest, hwf, hwf' => by
    rw [Json.ItemsWF] at hwf
    rw [Json.mapItems, Json.ItemsWF] at hwf'
    rw [Json.mapItems, Json.itemValues, Json.itemValues, maskedElements_cons_iff,
      elementsMaskedAsWritten_iff rest hwf.2 hwf'.2, maskedAsWritten_iff d hwf.1.2.1 hwf'.1.2.1,
      ItemsMaskedAsWritten, (keyless hwf.1.1).2, and_iff_right (keyless hwf.1.1).1,
      if_neg Bool.false_ne_true]

theorem membersMaskedAsWritten_iff : (items : List (Head × Doc × Str)) →
    Json.ItemsWF .obj items → Json.ItemsWF .obj (Json.mapItems redactString items) →
      (MaskedMembers (Json.itemMembers items)
        (Json.itemMembers (Json.mapItems redactString items)) ↔ ItemsMaskedAsWritten items)
  | [], _, _ => iff_of_true .nil trivial
  | (h, d, after) :: rest, hwf, hwf' => by
    rw [Json.ItemsWF] at hwf
    rw [Json.mapItems, Json.ItemsWF] at hwf'
    rw [Json.mapItems, Json.itemMembers, Json.itemMembers, maskedMembers_cons_iff,
      membersMaskedAsWritten_iff rest hwf.2 hwf'.2, ItemsMaskedAsWritten, MaskedValue,
      readsRedacted_iff hwf.1.2.1 hwf'.1.2.1, maskedAsWritten_iff d hwf.1.2.1 hwf'.1.2.1,
      name_mapRaw_eq_iff hwf.1.1 hwf'.1.1, isSensitiveHead_eq hwf.1.1]

end

theorem masks_text_iff (s : Json.Text) :
    (∃ t : Json.Text, redactString s.bytes = t.bytes ∧ Masked s.doc.value t.doc.value) ↔
      MaskedAsWritten s.doc := by
  rw [redactString_bytes]
  constructor
  · rintro ⟨t, ht, hmasked⟩
    obtain ⟨hwf, hvalue⟩ := Json.Text.of_mapRaws (fun _ hraw => closed_redactString hraw) ht
    rw [hvalue] at hmasked
    exact (maskedAsWritten_iff s.doc s.wf hwf).mp hmasked
  · intro hmask
    have hwf := wf_of_maskedAsWritten s.doc s.wf hmask
    exact ⟨⟨s.lead, _, s.trail, hwf, s.blank_lead, s.blank_trail⟩, rfl,
      (maskedAsWritten_iff s.doc s.wf hwf).mpr hmask⟩

/-! ## Masked and written again -/

mutual

/-- No mask cuts a rune in a string that is shown. -/
def shownUtf8 : Value → Bool
  | .str s => utf8Valid (redactString s)
  | .arr xs => elementsShownUtf8 xs
  | .obj ms => membersShownUtf8 ms
  | .null => true
  | .bool _ => true
  | .num _ => true

def elementsShownUtf8 : List Value → Bool
  | [] => true
  | x :: xs => shownUtf8 x && elementsShownUtf8 xs

def membersShownUtf8 : List (Str × Value) → Bool
  | [] => true
  | (k, v) :: ms =>
    ((ms.map Prod.fst).contains k || isSensitiveKey (toLower k) || shownUtf8 v) &&
      membersShownUtf8 ms

end

theorem toValid_eq_self_iff (s : Str) : toValid s = s ↔ utf8Valid s = true := by
  constructor
  · intro h
    rw [← h]
    exact utf8Valid_toValid s
  · exact toValid_of_utf8Valid

section Members

variable {num : NumberFormat} {k : Str} {v x : Value} {ms ns : List (Str × Value)}
  {xs ys : List Value}

theorem renumberMembers_cons (h : Json.renumberMembers num ((k, v) :: ms) = some ns) :
    ∃ v' ms', renumber num v = some v' ∧ Json.renumberMembers num ms = some ms' ∧
      ns = (k, v') :: ms' := by
  rw [Json.renumberMembers] at h
  cases hv : renumber num v with
  | none => simp [hv] at h
  | some v' =>
    cases hms : Json.renumberMembers num ms with
    | none => simp [hv, hms] at h
    | some ms' =>
      simp only [hv, hms, Option.some.injEq] at h
      exact ⟨v', ms', rfl, rfl, h.symm⟩

theorem renumberElements_cons (h : Json.renumberElements num (x :: xs) = some ys) :
    ∃ x' xs', renumber num x = some x' ∧ Json.renumberElements num xs = some xs' ∧
      ys = x' :: xs' := by
  rw [Json.renumberElements] at h
  cases hx : renumber num x with
  | none => simp [hx] at h
  | some x' =>
    cases hxs : Json.renumberElements num xs with
    | none => simp [hx, hxs] at h
    | some xs' =>
      simp only [hx, hxs, Option.some.injEq] at h
      exact ⟨x', xs', rfl, rfl, h.symm⟩

end Members

theorem map_fst_renumberMembers
    (h : Json.renumberMembers num ms = some ms') : ms'.map Prod.fst = ms.map Prod.fst := by
  induction ms generalizing ms' with
  | nil =>
    cases h
    rfl
  | cons m ms ih =>
    obtain ⟨v', rest, _, hrest, rfl⟩ := renumberMembers_cons h
    rw [List.map_cons, List.map_cons, ih hrest]

theorem map_fst_sortedValues (ms : List (Str × Value)) :
    (Json.sortedValues ms).map Prod.fst = ms.map Prod.fst := by
  induction ms with
  | nil => rfl
  | cons m ms ih => rw [Json.sortedValues, List.map_cons, List.map_cons, ih]

theorem toValid_of_utf8Members (h : Json.utf8Members ms = ms) :
    ∀ k ∈ ms.map Prod.fst, toValid k = k := by
  induction ms with
  | nil =>
    intro k hk
    cases hk
  | cons m ms ih =>
    rw [Json.utf8Members, List.cons.injEq] at h
    rw [List.map_cons]
    exact List.forall_mem_cons.mpr ⟨congrArg Prod.fst h.1, ih h.2⟩

/-- The members of a masked object that are written, before they are sorted. -/
def writtenMembers (ms : List (Str × Value)) : List (Str × Value) :=
  (lastOfKey (Json.sortedValues (redactMap ms))).map (fun m => (m.1, m.2.utf8))

def writtenValue (k : Str) (v : Value) : Value :=
  (if isSensitiveKey (toLower k) then .str redacted else redactAny v).sorted.utf8

theorem writtenMembers_cons (k : Str) (v : Value) (ms : List (Str × Value)) :
    writtenMembers ((k, v) :: ms) = if (ms.map Prod.fst).contains k then writtenMembers ms
      else (k, writtenValue k v) :: writtenMembers ms := by
  rw [writtenMembers, redactMap, Json.sortedValues, lastOfKey, map_fst_sortedValues,
    map_fst_redactMap]
  split <;> rfl

theorem maskedValue_written {k : Str} {v v' : Value}
    (h : Masked v (redactAny v').sorted.utf8 ↔ shownUtf8 v = true) :
    MaskedValue k v (writtenValue k v') ↔ (isSensitiveKey (toLower k) || shownUtf8 v) = true := by
  rw [MaskedValue, writtenValue]
  cases isSensitiveKey (toLower k) with
  | true =>
    have hredacted : (Value.str redacted).sorted.utf8 = .str redacted := by
      show Value.str (toValid redacted) = _
      rw [toValid_of_utf8Valid (by decide)]
    exact iff_of_true hredacted rfl
  | false => exact h

theorem map_fst_writtenMembers (hkeys : ms'.map Prod.fst = ms.map Prod.fst) :
    (writtenMembers ms').map Prod.fst = (lastOfKey ms).map Prod.fst := by
  rw [writtenMembers, List.map_map]
  refine Json.map_fst_lastOfKey ?_
  rw [map_fst_sortedValues, map_fst_redactMap, hkeys]

theorem masked_written_obj (hutf8 : Json.utf8Members ms = ms)
    (hkeys : ms'.map Prod.fst = ms.map Prod.fst) :
    Masked (.obj ms) (redactAny (.obj ms')).sorted.utf8 ↔
      MaskedMembers (lastOfKey ms) (writtenMembers ms') := by
  have hwritten := map_fst_writtenMembers hkeys
  have hvalid : Json.utf8Members (sortMembers (lastOfKey (Json.sortedValues (redactMap ms')))) =
      sortMembers (writtenMembers ms') := by
    rw [Json.utf8Members_eq_map, writtenMembers, Json.sortMembers_map]
    refine List.map_congr_left ?_
    intro m hm
    have hmem : m.1 ∈ ms.map Prod.fst := by
      rw [← hkeys, ← map_fst_redactMap, ← map_fst_sortedValues]
      exact List.mem_map_of_mem
        (Json.mem_of_mem_lastOfKey ((Json.sortMembers_perm _).mem_iff.mp hm))
    rw [toValid_of_utf8Members hutf8 m.1 hmem]
  have hlen : (sortMembers (writtenMembers ms')).length = (lastOfKey ms).length := by
    have h := congrArg List.length hwritten
    rwa [List.length_map, List.length_map, ← (Json.sortMembers_perm _).length_eq] at h
  rw [redactAny, Value.sorted, Value.utf8, hvalid, masked_obj_iff (.inr rfl) hlen,
    Json.sortMembers_sortMembers, maskedMembers_sortMembers hwritten]

mutual

theorem masked_redactAny_iff : (v v' : Value) → Exact num v → v.utf8 = v →
    renumber num v = some v' → (Masked v (redactAny v').sorted.utf8 ↔ shownUtf8 v = true)
  | .null, _, _, _, h => by
    cases h
    exact iff_of_true .null rfl
  | .bool b, _, _, _, h => by
    cases h
    exact iff_of_true (.bool b) rfl
  | .num l, _, hexact, _, h => by
    obtain ⟨l', hformat, _, hvalue⟩ := hexact
    rw [renumber, hformat] at h
    cases h
    exact iff_of_true (.num hvalue) rfl
  | .str s, _, _, _, h => by
    cases h
    show Masked (.str s) (.str (toValid (redactString s))) ↔ _
    rw [masked_str_iff, Value.str.injEq, toValid_eq_self_iff, shownUtf8]
  | .arr xs, _, hexact, hutf8, h => by
    rw [renumber, Option.map_eq_some_iff] at h
    obtain ⟨xs', hxs, rfl⟩ := h
    rw [Value.utf8, Value.arr.injEq] at hutf8
    rw [redactAny, Value.sorted, Value.utf8, masked_arr_iff, shownUtf8]
    exact maskedElements_redactSlice_iff xs xs' hexact hutf8 hxs
  | .obj ms, _, hexact, hutf8, h => by
    rw [renumber, Option.map_eq_some_iff] at h
    obtain ⟨ms', hms, rfl⟩ := h
    rw [Value.utf8, Value.obj.injEq] at hutf8
    rw [masked_written_obj hutf8 (map_fst_renumberMembers hms), shownUtf8]
    exact maskedMembers_redactMap_iff ms ms' hexact hutf8 hms

theorem maskedElements_redactSlice_iff : (xs xs' : List Value) →
    ExactElements num xs → Json.utf8Elements xs = xs → Json.renumberElements num xs = some xs' →
      (MaskedElements xs (Json.utf8Elements (Json.sortedElements (redactSlice xs'))) ↔
        elementsShownUtf8 xs = true)
  | [], _, _, _, h => by
    cases h
    exact iff_of_true .nil rfl
  | x :: xs, _, hexact, hutf8, h => by
    obtain ⟨x', xs', hx, hxs, rfl⟩ := renumberElements_cons h
    rw [Json.utf8Elements, List.cons.injEq] at hutf8
    rw [redactSlice, Json.sortedElements, Json.utf8Elements, maskedElements_cons_iff,
      masked_redactAny_iff x x' hexact.1 hutf8.1 hx,
      maskedElements_redactSlice_iff xs xs' hexact.2 hutf8.2 hxs, elementsShownUtf8,
      Bool.and_eq_true]

theorem maskedMembers_redactMap_iff : (ms ms' : List (Str × Value)) →
    ExactMembers num ms → Json.utf8Members ms = ms → Json.renumberMembers num ms = some ms' →
      (MaskedMembers (lastOfKey ms) (writtenMembers ms') ↔ membersShownUtf8 ms = true)
  | [], _, _, _, h => by
    cases h
    exact iff_of_true .nil rfl
  | (k, v) :: ms, _, hexact, hutf8, h => by
    obtain ⟨v', ms', hv, hms, rfl⟩ := renumberMembers_cons h
    rw [Json.utf8Members, List.cons.injEq, Prod.mk.injEq] at hutf8
    have hrest := maskedMembers_redactMap_iff ms ms' hexact.2 hutf8.2 hms
    have hvalue := masked_redactAny_iff v v' hexact.1 hutf8.1.2 hv
    rw [lastOfKey, writtenMembers_cons, map_fst_renumberMembers hms, membersShownUtf8,
      Bool.and_eq_true]
    cases (ms.map Prod.fst).contains k with
    | true => exact hrest.trans (and_iff_right rfl).symm
    | false =>
      rw [if_neg Bool.false_ne_true, if_neg Bool.false_ne_true, maskedMembers_cons_iff, hrest,
        and_iff_right rfl, Bool.false_or, maskedValue_written hvalue]

end

mutual

theorem exists_renumber : (v : Value) → Exact num v →
    ∃ v', renumber num v = some v' ∧ (redactAny v').NumbersOk
  | .null, _ => ⟨.null, rfl, trivial⟩
  | .bool b, _ => ⟨.bool b, rfl, trivial⟩
  | .str s, _ => ⟨.str s, rfl, trivial⟩
  | .num l, ⟨l', hformat, hnumber, _⟩ => ⟨.num l', by rw [renumber, hformat]; rfl, hnumber⟩
  | .arr xs, h => by
    obtain ⟨xs', hxs, hok⟩ := exists_renumberElements xs h
    exact ⟨.arr xs', by rw [renumber, hxs]; rfl, hok⟩
  | .obj ms, h => by
    obtain ⟨ms', hms, hok⟩ := exists_renumberMembers ms h
    exact ⟨.obj ms', by rw [renumber, hms]; rfl, hok⟩

theorem exists_renumberElements : (xs : List Value) → ExactElements num xs →
    ∃ xs', Json.renumberElements num xs = some xs' ∧ Json.ElementsOk (redactSlice xs')
  | [], _ => ⟨[], rfl, trivial⟩
  | x :: xs, h => by
    obtain ⟨x', hx, hok⟩ := exists_renumber x h.1
    obtain ⟨xs', hxs, hoks⟩ := exists_renumberElements xs h.2
    exact ⟨x' :: xs', by simp only [Json.renumberElements, hx, hxs], hok, hoks⟩

theorem exists_renumberMembers : (ms : List (Str × Value)) → ExactMembers num ms →
      ∃ ms', Json.renumberMembers num ms = some ms' ∧ Json.MembersOk (redactMap ms')
  | [], _ => ⟨[], rfl, trivial⟩
  | (k, v) :: ms, h => by
    obtain ⟨v', hv, hok⟩ := exists_renumber v h.1
    obtain ⟨ms', hms, hoks⟩ := exists_renumberMembers ms h.2
    refine ⟨(k, v') :: ms', by simp only [Json.renumberMembers, hv, hms], ?_, hoks⟩
    split
    · trivial
    · exact hok

end

theorem masks_encoded_iff (v : Value) {w : Value} (hw : w.NumbersOk) :
    (∃ t : Json.Text, encode w = t.bytes ∧ Masked v t.doc.value) ↔ Masked v w.sorted.utf8 := by
  have hu : encode w = (Json.Text.ofValue w.sorted (Json.numbersOk_sorted w hw)).bytes := by
    rw [Json.Text.bytes_ofValue, Json.print_sorted]
  rw [← w.sorted.value_doc]
  constructor
  · rintro ⟨t, ht, hmasked⟩
    rw [← Json.Text.value_eq (hu.symm.trans ht)] at hmasked
    exact hmasked
  · intro hmasked
    exact ⟨_, hu, hmasked⟩

/-! ## `RedactBody` -/

def isObject : Value → Bool
  | .obj _ => true
  | _ => false

/-- The documents `RedactBody` masks: objects in which no mask cuts a rune, and of all the
others those that are masked by masking their literals as they are written. -/
def Maskable (d : Doc) : Prop :=
  if isObject d.value = true ∧ d.depth ≤ maxNestingDepth then shownUtf8 d.value = true
  else MaskedAsWritten d

theorem unmarshalMap_cases (num : NumberFormat) (s : Json.Text) :
    ((isObject s.doc.value = true ∧ s.doc.depth ≤ maxNestingDepth) ∧
        unmarshalMap num s.bytes = renumber num s.doc.value) ∨
      (s.doc = .word .null ∧ unmarshalMap num s.bytes = some .null) ∨
      (¬ (isObject s.doc.value = true ∧ s.doc.depth ≤ maxNestingDepth) ∧
        unmarshalMap num s.bytes = none) := by
  rw [unmarshalMap, s.parse_bytes]
  split_ifs with hdepth
  · cases hdoc : s.doc with
    | word w =>
      cases w with
      | null => exact .inr (.inl ⟨rfl, rfl⟩)
      | true | false => exact .inr (.inr ⟨fun h => Bool.false_ne_true h.1, rfl⟩)
    | num | str => exact .inr (.inr ⟨fun h => Bool.false_ne_true h.1, rfl⟩)
    | node kind space items =>
      rw [hdoc] at hdepth
      cases kind with
      | arr => exact .inr (.inr ⟨fun h => Bool.false_ne_true h.1, rfl⟩)
      | obj => exact .inl ⟨⟨rfl, hdepth⟩, rfl⟩
  · exact .inr (.inr ⟨fun h => hdepth h.2, rfl⟩)

theorem redactBody_bytes {s : Json.Text} (hutf8 : utf8Valid s.bytes = true) :
    redactBody num s.bytes =
      ((unmarshalMap num s.bytes).map (fun obj => encode (redactAny obj))).getD
        (redactString s.bytes) := by
  have hne : s.bytes ≠ [] := by
    obtain ⟨c, t, htext, _⟩ := s.doc.text_start s.wf
    rw [Json.Text.bytes, htext]
    simp
  have hvalid : ¬ utf8Valid s.bytes = false := by
    rw [hutf8]
    simp
  rw [redactBody, if_neg hne, if_neg hvalid]
  cases unmarshalMap num s.bytes <;> rfl

/-- `RedactBody` gives the masked document for these documents and for no others. -/
theorem redactBody_masks_iff (num : NumberFormat) (s : Json.Text) (hutf8 : utf8Valid s.bytes = true)
    (hexact : Exact num s.doc.value) : MasksBody num s ↔ Maskable s.doc := by
  rw [MasksBody, redactBody_bytes hutf8, Maskable]
  rcases unmarshalMap_cases num s with ⟨hobj, hmap⟩ | ⟨hnull, hmap⟩ | ⟨hother, hmap⟩
  · obtain ⟨v', hv', hok⟩ := exists_renumber s.doc.value hexact
    rw [hmap, hv', if_pos hobj,
      ← masked_redactAny_iff s.doc.value v' hexact (s.doc.utf8_value s.wf) hv']
    exact masks_encoded_iff s.doc.value hok
  · rw [hmap, hnull]
    exact iff_of_true ((masks_encoded_iff .null (w := redactAny .null) trivial).mpr .null) trivial
  · rw [hmap, if_neg hother]
    exact masks_text_iff s

/-- A call with a token, and a header and a number in an array. -/
def callBody : Json.Text :=
  .ofValue (.obj [(lit "Token", .str (lit "x")),
    (lit "sent", .arr [.str (lit "Bearer 0123456789"), .num (lit "1")])])
    ⟨trivial, ⟨trivial, ⟨by decide, List.all_eq_true.mp (by decide), .one, by decide, fun _ => rfl⟩,
      trivial⟩, trivial⟩

theorem redactBody_masks_call : MasksBody .same callBody := by
  refine (redactBody_masks_iff .same callBody (by decide +kernel) ?_).mpr ?_
  · exact ⟨trivial, ⟨trivial, ⟨lit "1", rfl,
      ⟨by decide, List.all_eq_true.mp (by decide), .one, by decide, fun _ => rfl⟩, rfl⟩, trivial⟩,
      trivial⟩
  · rw [Maskable, if_pos ⟨rfl, by decide⟩]
    decide +kernel

/-- A password in an array. -/
def passwordInArray : Json.Text :=
  .ofValue (.arr [.obj [(lit "password", .str (lit "x"))]]) ⟨⟨trivial, trivial⟩, trivial⟩

/-- The password of an object in an array is shown. -/
theorem array_shows_password :
    passwordInArray.bytes = lit "[\x7b\"password\":\"x\"\x7d]" ∧
      utf8Valid passwordInArray.bytes = true ∧
      redactBody .same passwordInArray.bytes = passwordInArray.bytes ∧
      ¬ MasksBody .same passwordInArray := by
  have hsame : redactBody .same passwordInArray.bytes = passwordInArray.bytes := by decide +kernel
  have hread : passwordInArray.doc.value = .arr [.obj [(lit "password", .str (lit "x"))]] :=
    (Value.value_doc _).trans rfl
  refine ⟨by decide, by decide, hsame, ?_⟩
  rintro ⟨t, ht, hmasked⟩
  rw [← Json.Text.value_eq (hsame.symm.trans ht), hread] at hmasked
  have hobject := (maskedElements_cons_iff.mp (masked_arr_iff.mp hmasked)).1
  have hmembers := (masked_obj_iff (.inl rfl) rfl).mp hobject
  have hvalue := (maskedMembers_cons_iff.mp hmembers).1.2
  rw [MaskedValue, if_pos (by decide)] at hvalue
  exact absurd (Value.str.inj hvalue) (by decide)

end MiniGoAgent
