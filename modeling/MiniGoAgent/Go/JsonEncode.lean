/-
# `Go.JsonEncode` — `json.Marshal` of a decoded value

What `json.Marshal` writes for a value that `json.Unmarshal` put into an `any`:
strings escaped rune by rune, with `<`, `>` and `&` escaped as for HTML and a
byte that is not UTF-8 replaced; the members of an object sorted by key, the
last of several with one key.

A number is decoded to a `float64` and written again.  How a `float64` is
printed is not described here: `NumberFormat` says which literals are in range
and that what is written for one is made of the bytes of a number.
-/
import MiniGoAgent.Go.Runes
import Mathlib.Data.List.Sort
import Mathlib.Data.List.Lex

namespace Go.Json

/-! ## Strings -/

/-- An ASCII byte inside the quotes. -/
def escapeByte (b : UInt8) : Str :=
  if b = byte '"' ∨ b = byte '\\' then [byte '\\', b]
  else if b = 0x08 then lit "\\b"
  else if b = 0x0C then lit "\\f"
  else if b = 0x0A then lit "\\n"
  else if b = 0x0D then lit "\\r"
  else if b = 0x09 then lit "\\t"
  else if b < 0x20 ∨ b = byte '<' ∨ b = byte '>' ∨ b = byte '&' then lit "\\u00" ++ hexByte b
  else [b]

/-- A rune inside the quotes: U+2028 and U+2029 are escaped, a byte that is not
UTF-8 becomes U+FFFD. -/
def escapeRune (x : Str) : Str :=
  if x.length = 1 then x.flatMap (fun b => if b < 0x80 then escapeByte b else lit "\\ufffd")
  else if x = [0xE2, 0x80, 0xA8] then lit "\\u2028"
  else if x = [0xE2, 0x80, 0xA9] then lit "\\u2029"
  else x

def escape (s : Str) : Str := (runes s).flatMap escapeRune

def quoted (s : Str) : Str := byte '"' :: (escape s ++ [byte '"'])

@[simp] theorem escape_nil : escape [] = [] := rfl

theorem escapeRune_ascii {b : UInt8} (hb : b < 0x80) : escapeRune [b] = escapeByte b := by
  simp [escapeRune, hb]

theorem escape_append_ascii {b : UInt8} (hb : b < 0x80) (a s : Str) :
    escape (a ++ b :: s) = escape a ++ (escapeByte b ++ escape s) := by
  simp only [escape, runes_append_ascii hb, List.flatMap_append, List.flatMap_cons,
    escapeRune_ascii hb]

def isPlain (b : UInt8) : Bool := b < 0x80 && escapeByte b = [b]

theorem escape_plain_append {a : Str} (ha : a.all isPlain = true) (s : Str) :
    escape (a ++ s) = a ++ escape s := by
  induction a with
  | nil => rfl
  | cons b rest ih =>
    simp only [List.all_cons, Bool.and_eq_true, isPlain, decide_eq_true_eq] at ha
    obtain ⟨⟨hb, hplain⟩, hrest⟩ := ha
    have hcons := escape_append_ascii hb [] (rest ++ s)
    rw [List.nil_append, escape_nil, List.nil_append, hplain, ih hrest] at hcons
    exact hcons

/-! ## Numbers -/

/-- The text is made of the bytes of a number literal. -/
def isNumText (l : Str) : Bool := l.all isNumByte

/-- How a number literal comes back from a `float64`, `none` when it is out of
range. -/
structure NumberFormat where
  format : Str → Option Str
  isNumText_of_format : ∀ {l t : Str}, format l = some t → isNumText t = true

/-- Numbers that come back as they were written. -/
def NumberFormat.same : NumberFormat where
  format := fun l => if isNumText l then some l else none
  isNumText_of_format := by
    intro l t h
    split at h
    next hl =>
      cases h
      exact hl
    next => cases h

mutual

/-- The value as an `any` holds it: its numbers read as `float64`. -/
def renumber (num : NumberFormat) : Value → Option Value
  | .num l => (num.format l).map .num
  | .arr xs => (renumberElements num xs).map .arr
  | .obj ms => (renumberMembers num ms).map .obj
  | .null => some .null
  | .bool b => some (.bool b)
  | .str s => some (.str s)

def renumberElements (num : NumberFormat) : List Value → Option (List Value)
  | [] => some []
  | x :: xs =>
    match renumber num x, renumberElements num xs with
    | some x, some xs => some (x :: xs)
    | _, _ => none

def renumberMembers (num : NumberFormat) :
    List (Str × Value) → Option (List (Str × Value))
  | [] => some []
  | (k, v) :: ms =>
    match renumber num v, renumberMembers num ms with
    | some v, some ms => some ((k, v) :: ms)
    | _, _ => none

end

/-! ## Values -/

section Members

variable {β : Type}

/-- The members a map holds after all of them were stored: the last one of
every key. -/
def lastOfKey : List (Str × β) → List (Str × β)
  | [] => []
  | (k, v) :: rest =>
    if (rest.map Prod.fst).contains k then lastOfKey rest else (k, v) :: lastOfKey rest

def sortMembers (ms : List (Str × β)) : List (Str × β) :=
  ms.insertionSort (fun m n => m.1 ≤ n.1)

theorem all_sortMembers (p : Str × β → Bool) (ms : List (Str × β)) :
    (sortMembers ms).all p = ms.all p := by
  rw [Bool.eq_iff_iff, List.all_eq_true, List.all_eq_true]
  simp only [sortMembers, List.mem_insertionSort]

end Members

def joinComma : List Str → Str
  | [] => []
  | [t] => t
  | t :: ts => t ++ byte ',' :: joinComma ts

def memberText (m : Str × Str) : Str := quoted m.1 ++ byte ':' :: m.2

mutual

/-- `json.Marshal`. -/
def encode : Value → Str
  | .null => lit "null"
  | .bool b => if b then lit "true" else lit "false"
  | .num l => l
  | .str s => quoted s
  | .arr xs => byte '[' :: (joinComma (encodeElements xs) ++ [byte ']'])
  | .obj ms =>
    byte '{' :: (joinComma ((sortMembers (lastOfKey (encodeMembers ms))).map memberText) ++
      [byte '}'])

def encodeElements : List Value → List Str
  | [] => []
  | x :: xs => encode x :: encodeElements xs

def encodeMembers : List (Str × Value) → List (Str × Str)
  | [] => []
  | (k, v) :: ms => (k, encode v) :: encodeMembers ms

end

mutual

/-- The keys and strings of the text of a value, each as it is written. -/
def strings : Value → List Str
  | .str s => [escape s]
  | .arr xs => stringsOfElements xs
  | .obj ms => stringsOfMembers ms
  | .null => []
  | .bool _ => []
  | .num _ => []

def stringsOfElements : List Value → List Str
  | [] => []
  | x :: xs => strings x ++ stringsOfElements xs

def stringsOfMembers : List (Str × Value) → List Str
  | [] => []
  | (k, v) :: ms =>
    if (ms.map Prod.fst).contains k then stringsOfMembers ms
    else escape k :: strings v ++ stringsOfMembers ms

end

mutual

/-- Every number of the value is written with the bytes of a number. -/
def isNumeric : Value → Bool
  | .num l => isNumText l
  | .arr xs => areNumeric xs
  | .obj ms => membersNumeric ms
  | .null => true
  | .bool _ => true
  | .str _ => true

def areNumeric : List Value → Bool
  | [] => true
  | x :: xs => isNumeric x && areNumeric xs

def membersNumeric : List (Str × Value) → Bool
  | [] => true
  | (_, v) :: ms => isNumeric v && membersNumeric ms

end

/-! ## Reading a text between punctuation -/

def punctuation : List UInt8 := lit "\x7b\x7d[]:,\""

/-- A predicate on texts that holds of a text with punctuation in it exactly
when it holds of the parts, and of everything JSON writes that is neither a key
nor a string. -/
structure SplitsAt (C : Str → Bool) : Prop where
  split : ∀ b ∈ punctuation, ∀ a s, C (a ++ b :: s) = (C a && C s)
  nil : C [] = true
  words : C (lit "null") = true ∧ C (lit "true") = true ∧ C (lit "false") = true
  number : ∀ l, isNumText l = true → C l = true

section Splits

variable {C : Str → Bool}

theorem SplitsAt.between (h : SplitsAt C) {b e : UInt8} (hb : b ∈ punctuation)
    (he : e ∈ punctuation) (s : Str) : C (b :: (s ++ [e])) = C s := by
  have hfront := h.split b hb [] (s ++ [e])
  rw [List.nil_append, h.nil, Bool.true_and] at hfront
  rw [hfront, h.split e he, h.nil, Bool.and_true]

theorem SplitsAt.quoted (h : SplitsAt C) (s : Str) : C (quoted s) = C (escape s) :=
  h.between (by decide) (by decide) (escape s)

theorem SplitsAt.memberText (h : SplitsAt C) (m : Str × Str) :
    C (memberText m) = (C (escape m.1) && C m.2) := by
  rw [Json.memberText, h.split _ (by decide), h.quoted]

theorem SplitsAt.joinComma (h : SplitsAt C) (ts : List Str) : C (joinComma ts) = ts.all C := by
  induction ts with
  | nil => exact h.nil
  | cons t ts ih =>
    cases ts with
    | nil => simp [Json.joinComma]
    | cons u us =>
      show C (t ++ byte ',' :: Json.joinComma (u :: us)) = _
      rw [h.split _ (by decide), ih, List.all_cons (a := t)]

theorem map_fst_encodeMembers (ms : List (Str × Value)) :
    (encodeMembers ms).map Prod.fst = ms.map Prod.fst := by
  induction ms with
  | nil => rfl
  | cons m ms ih =>
    obtain ⟨k, v⟩ := m
    rw [encodeMembers, List.map_cons, List.map_cons, ih]

mutual

theorem encode_splits (h : SplitsAt C) :
    (v : Value) → isNumeric v = true → C (encode v) = (strings v).all C
  | .null, _ => h.words.1
  | .bool true, _ => h.words.2.1
  | .bool false, _ => h.words.2.2
  | .num l, hnum => h.number l hnum
  | .str s, _ => by
    rw [encode, h.quoted, strings, List.all_cons, List.all_nil, Bool.and_true]
  | .arr xs, hnum => by
    rw [encode, h.between (by decide) (by decide), h.joinComma, strings]
    exact encodeElements_splits h xs hnum
  | .obj ms, hnum => by
    rw [encode, h.between (by decide) (by decide), h.joinComma, List.all_map, all_sortMembers,
      strings]
    exact encodeMembers_splits h ms hnum

theorem encodeElements_splits (h : SplitsAt C) :
    (xs : List Value) → areNumeric xs = true →
      (encodeElements xs).all C = (stringsOfElements xs).all C
  | [], _ => rfl
  | x :: xs, hnum => by
    rw [areNumeric, Bool.and_eq_true] at hnum
    rw [encodeElements, List.all_cons, stringsOfElements, List.all_append,
      encode_splits h x hnum.1, encodeElements_splits h xs hnum.2]

theorem encodeMembers_splits (h : SplitsAt C) :
    (ms : List (Str × Value)) → membersNumeric ms = true →
      (lastOfKey (encodeMembers ms)).all (C ∘ memberText) = (stringsOfMembers ms).all C
  | [], _ => rfl
  | (k, v) :: ms, hnum => by
    rw [membersNumeric, Bool.and_eq_true] at hnum
    rw [encodeMembers, lastOfKey, map_fst_encodeMembers, stringsOfMembers]
    split
    · exact encodeMembers_splits h ms hnum.2
    · rw [List.all_cons, Function.comp_apply, h.memberText, List.cons_append, List.all_cons,
        List.all_append, encode_splits h v hnum.1, encodeMembers_splits h ms hnum.2, Bool.and_assoc]

end

end Splits

/-! ## Decoded numbers -/

section Numbers

variable {num : NumberFormat}

mutual

theorem isNumeric_renumber : (v : Value) → (w : Value) → renumber num v = some w →
    isNumeric w = true
  | .null, w, h => by
    cases h
    rfl
  | .bool b, w, h => by
    cases h
    rfl
  | .str s, w, h => by
    cases h
    rfl
  | .num l, w, h => by
    rw [renumber, Option.map_eq_some_iff] at h
    obtain ⟨t, ht, rfl⟩ := h
    exact num.isNumText_of_format ht
  | .arr xs, w, h => by
    rw [renumber, Option.map_eq_some_iff] at h
    obtain ⟨ys, hys, rfl⟩ := h
    exact areNumeric_renumber xs ys hys
  | .obj ms, w, h => by
    rw [renumber, Option.map_eq_some_iff] at h
    obtain ⟨ns, hns, rfl⟩ := h
    exact membersNumeric_renumber ms ns hns

theorem areNumeric_renumber : (xs : List Value) → (ys : List Value) →
    renumberElements num xs = some ys → areNumeric ys = true
  | [], ys, h => by
    cases h
    rfl
  | x :: xs, ys, h => by
    rw [renumberElements] at h
    split at h
    · rename_i y ys' hy hys'
      cases h
      rw [areNumeric, isNumeric_renumber x y hy, areNumeric_renumber xs ys' hys', Bool.and_self]
    · cases h

theorem membersNumeric_renumber : (ms : List (Str × Value)) →
    (ns : List (Str × Value)) → renumberMembers num ms = some ns → membersNumeric ns = true
  | [], ns, h => by
    cases h
    rfl
  | (k, v) :: ms, ns, h => by
    rw [renumberMembers] at h
    split at h
    · rename_i w ns' hw hns'
      cases h
      rw [membersNumeric, isNumeric_renumber v w hw, membersNumeric_renumber ms ns' hns',
        Bool.and_self]
    · cases h

end

end Numbers

end Go.Json
