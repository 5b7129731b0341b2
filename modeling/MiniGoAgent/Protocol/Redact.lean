/-
# `Protocol.Redact` — `redact.go`: the secret patterns and the masking of text

`RedactString` runs ten case-insensitive patterns over a text, one after the
other, and overwrites the middle of every match with `*`.  `RedactBody` does
the same to the strings of a JSON object, replaces the values of sensitive
keys, and writes the object again.

Masking only ever writes `*`, which no pattern can match, so a text is left alone
exactly when none of the patterns matches in it (`redactString_eq_self_iff`).
-/
import MiniGoAgent.Go.JsonEncode
import MiniGoAgent.Go.Regexp
import MiniGoAgent.Protocol.Types
import Mathlib.Data.List.Forall2

open Go

namespace MiniGoAgent

open Json (Value NumberFormat escape isPlain isNumText encode renumber strings SplitsAt punctuation)
open Regexp (seq alt one many opt atLeast word free avoids reaches consumes lengths)

variable {A : List UInt8} {pat : Regexp Str}

variable {s : Str} {b : UInt8}

/-! ## Secret patterns -/

/-- The ASCII byte a rune folds to under `(?i)`, letters in lower case: U+017F
and U+212A fold to `s` and `k`, no other rune beyond ASCII folds to a letter. -/
def foldRune : Str → Option UInt8
  | [c] => some (if 0x41 ≤ c ∧ c ≤ 0x5A then c + 0x20 else c)
  | x =>
    if x = [0xC5, 0xBF] then some (byte 's')
    else if x = [0xE2, 0x84, 0xAA] then some (byte 'k')
    else none

/-- The runes that fold to one of the bytes. -/
def anyCase (p : UInt8 → Bool) (x : Str) : Bool := (foldRune x).any p

/-- A literal text. -/
def text (s : String) : Regexp Str :=
  word ((toLower (lit s)).map (fun b => anyCase (· == b)))

def oneOf (s : String) : Str → Bool := anyCase (fun b => (lit s).contains b)

/-- `[a-zA-Z0-9]` with the characters of `s`. -/
def alnumOr (s : String) : Str → Bool :=
  anyCase (fun b => isDigit b || (0x61 ≤ b && b ≤ 0x7A) || (lit s).contains b)

def sequence (rs : List (Regexp Str)) : Regexp Str := rs.foldr seq .empty

/-- The two patterns for an `Authorization` header, with the scheme they start with. -/
def schemePattern (scheme : String) : Regexp Str :=
  sequence [text scheme, atLeast 1 (oneOf "\t\n\x0c\x0d "), atLeast 1 (alnumOr "-._~+/"),
    many (oneOf "=")]

/-- `secretPatterns`, in their order. -/
def secretPatterns : List (Regexp Str) :=
  [sequence [text "sk", one (oneOf "-_"), opt (alt (text "live") (alt (text "test") (text "prod"))),
     one (oneOf "-_"), atLeast 20 (alnumOr "")],
   sequence [text "sk-ant-api", one (oneOf "-_"), atLeast 20 (alnumOr "")],
   sequence [text "AIza", word (List.replicate 35 (alnumOr "-_"))],
   sequence [text "ghp_", word (List.replicate 36 (alnumOr ""))],
   sequence [text "github_pat_", atLeast 60 (alnumOr "_")],
   sequence [text "AKIA", word (List.replicate 16 (alnumOr ""))],
   sequence [text "eyJ", atLeast 10 (alnumOr "_-"), text ".eyJ", atLeast 10 (alnumOr "_-"),
     text ".", atLeast 10 (alnumOr "_-")],
   schemePattern "Bearer",
   schemePattern "Basic",
   sequence [text "xox", one (oneOf "baprs"), text "-", atLeast 1 (alnumOr "-")]]

/-! ## Masking -/

/-- What a match is replaced by. -/
def maskSecret (m : Str) : Str :=
  if m.length ≤ 8 then List.replicate m.length (byte '*')
  else m.take 4 ++ List.replicate (m.length - 8) (byte '*') ++ m.drop (m.length - 4)

def redactString (s : Str) : Str :=
  if s = [] then s
  else secretPatterns.foldl (fun result pat => pat.replaceAllStringFunc maskSecret result) s

def secretFree (s : Str) : Bool := secretPatterns.all (fun pat => free pat (runes s))

/-- `b` is `a` with some of its bytes overwritten by `*`. -/
def Starred (a b : Str) : Prop := List.Forall₂ (fun x y => y = x ∨ y = byte '*') a b

theorem Starred.refl (a : Str) : Starred a a :=
  List.forall₂_same.mpr (fun _ _ => .inl rfl)

theorem Starred.append {a b c d : Str} (h : Starred a b) (h' : Starred c d) :
    Starred (a ++ c) (b ++ d) := List.rel_append h h'

theorem Starred.trans {a b c : Str} (h : Starred a b) (h' : Starred b c) : Starred a c := by
  induction h generalizing c with
  | nil => exact h'
  | cons hxy _ ih =>
    cases h' with
    | cons hyz hrest =>
      refine .cons ?_ (ih hrest)
      rcases hyz with rfl | rfl
      · exact hxy
      · exact .inr rfl

theorem Starred.antisymm {a b : Str} (h : Starred a b) (h' : Starred b a) : a = b := by
  induction h with
  | nil => rfl
  | cons hxy _ ih =>
    cases h' with
    | cons hyx hrest =>
      rw [ih hrest]
      rcases hxy with rfl | rfl
      · rfl
      · rcases hyx with rfl | rfl <;> rfl

theorem starred_replicate (a : Str) : Starred a (List.replicate a.length (byte '*')) := by
  induction a with
  | nil => exact .nil
  | cons x rest ih => exact .cons (.inr rfl) ih

theorem length_maskSecret (m : Str) : (maskSecret m).length = m.length := by
  unfold maskSecret
  split
  · exact List.length_replicate
  · simp only [List.length_append, List.length_take, List.length_replicate, List.length_drop]
    omega

theorem starred_maskSecret (m : Str) : Starred m (maskSecret m) := by
  unfold maskSecret
  split
  · exact starred_replicate m
  · rename_i hlong
    have hparts : m = m.take 4 ++ (m.drop 4).take (m.length - 8) ++ m.drop (m.length - 4) := by
      have hlast : (m.drop 4).drop (m.length - 8) = m.drop (m.length - 4) := by
        rw [List.drop_drop]
        congr 1
        omega
      rw [← hlast, List.append_assoc, List.take_append_drop, List.take_append_drop]
    have hmid : ((m.drop 4).take (m.length - 8)).length = m.length - 8 := by
      rw [List.length_take, List.length_drop]
      omega
    conv => arg 1; rw [hparts]
    refine ((Starred.refl _).append ?_).append (Starred.refl _)
    have hstars := starred_replicate ((m.drop 4).take (m.length - 8))
    rwa [hmid] at hstars

theorem star_mem_maskSecret {m : Str} (hm : m ≠ []) : byte '*' ∈ maskSecret m := by
  have hpos : 0 < m.length := List.length_pos_iff.mpr hm
  unfold maskSecret
  split
  · exact List.mem_replicate.mpr ⟨by omega, rfl⟩
  · refine List.mem_append_left _ (List.mem_append_right _ ?_)
    exact List.mem_replicate.mpr ⟨by omega, rfl⟩

/-! ## When a text is left alone -/

/-- Bytes with which no pattern can be spelled: each one needs one of the letters
that are left out. -/
def harmlessBytes : List UInt8 :=
  lit "acdefhilmnopqrstuvwyACDEFHILMNOPQRSTUVWY0123456789 -+.()=_"

def timeBytes : List UInt8 := lit "0123456789-:TZ+"

def barriers : List UInt8 := byte '*' :: byte '\\' :: punctuation

theorem secretPatterns_facts : ∀ pat ∈ secretPatterns, consumes pat = true ∧
    (∀ b ∈ barriers, avoids [b] pat = true) ∧ reaches (harmlessBytes.map ([·])) pat = false ∧
      reaches (timeBytes.map ([·])) pat = false := by
  decide +kernel

theorem bytes_facts : (∀ b ∈ harmlessBytes ++ timeBytes, isPlain b = true) ∧
    (∀ b ∈ barriers, b < 0x80) ∧
    (∀ b ∈ punctuation, Json.escapeByte b = [b] ∨ Json.escapeByte b = [byte '\\', b]) ∧
      ∀ n : Fin 256, Json.isNumByte (UInt8.ofNat n) = true → UInt8.ofNat n ∈ harmlessBytes := by
  decide +kernel

theorem maskSecret_ne (hpat : pat ∈ secretPatterns) {t : List Str} (ht : t <:+ runes s)
    {n : Nat} (hn : n ∈ lengths pat t) : maskSecret (t.take n).flatten ≠ (t.take n).flatten := by
  intro heq
  have hstar : byte '*' ∉ (t.take n).flatten := by
    intro hmem
    obtain ⟨x, hx, hbx⟩ := List.mem_flatten.mp hmem
    obtain rfl := eq_of_ascii_mem_rune (by decide) (ht.mem (List.mem_of_mem_take hx)) hbx
    exact Regexp.not_mem_of_avoids ((secretPatterns_facts pat hpat).2.1 _ List.mem_cons_self) hn hx
  refine hstar (heq ▸ star_mem_maskSecret ?_)
  have hpos := Regexp.pos_of_consumes (secretPatterns_facts pat hpat).1 hn
  have hle := Regexp.le_length_of_mem_lengths hn
  obtain ⟨k, rfl⟩ : ∃ k, n = k + 1 := ⟨n - 1, by omega⟩
  cases t with
  | nil => cases hle
  | cons x rest =>
    have hx : x ≠ [] := ne_nil_of_mem_runes (ht.mem List.mem_cons_self)
    simp [hx]

theorem replace_eq_self_iff (hpat : pat ∈ secretPatterns) (s : Str) :
    pat.replaceAllStringFunc maskSecret s = s ↔ free pat (runes s) = true :=
  Regexp.replaceAllStringFunc_eq_self_iff (secretPatterns_facts pat hpat).1 length_maskSecret
    (fun _ ht _ hn => maskSecret_ne hpat ht hn)

theorem starred_replace (pat : Regexp Str) (s : Str) :
    Starred s (pat.replaceAllStringFunc maskSecret s) := by
  have h := Regexp.replace_rule Starred.refl
      (fun _ _ _ _ => Starred.append) starred_maskSecret pat 0
    (runes s)
  rwa [List.drop_zero, runes_flatten] at h

theorem starred_foldl (pats : List (Regexp Str)) (s : Str) :
    Starred s (pats.foldl (fun result pat => pat.replaceAllStringFunc maskSecret result) s) := by
  induction pats generalizing s with
  | nil => exact Starred.refl s
  | cons pat pats ih => exact (starred_replace pat s).trans (ih _)

theorem foldl_eq_self_iff {pats : List (Regexp Str)}
    (hpats : ∀ pat ∈ pats, pat ∈ secretPatterns) (s : Str) :
    pats.foldl (fun result pat => pat.replaceAllStringFunc maskSecret result) s = s ↔
      ∀ pat ∈ pats, free pat (runes s) = true := by
  induction pats with
  | nil => simp
  | cons pat pats ih =>
    have hpat := replace_eq_self_iff (hpats pat List.mem_cons_self) s
    have hrest := ih (fun p hp => hpats p (List.mem_cons_of_mem pat hp))
    rw [List.foldl_cons, List.forall_mem_cons, ← hpat, ← hrest]
    constructor
    · intro h
      have hback := starred_foldl pats (pat.replaceAllStringFunc maskSecret s)
      rw [h] at hback
      have hsame := Starred.antisymm hback (starred_replace pat s)
      rw [hsame] at h
      exact ⟨hsame, h⟩
    · rintro ⟨hsame, h⟩
      rw [hsame, h]

theorem secretFree_nil : secretFree [] = true := by
  rw [secretFree, List.all_eq_true]
  intro pat hpat
  exact Regexp.free_nil (secretPatterns_facts pat hpat).1

theorem redactString_eq_self_iff (s : Str) : redactString s = s ↔ secretFree s = true := by
  unfold redactString
  split
  next hs =>
    subst hs
    exact iff_of_true rfl secretFree_nil
  next => rw [secretFree, List.all_eq_true, ← foldl_eq_self_iff (fun _ h => h) s]

/-! ## Texts put together -/

/-- A text that is left alone, as it is and as JSON writes it. -/
def clean (s : Str) : Bool := secretFree s && secretFree (escape s)

theorem secretFree_split (hb : b < 0x80) (havoid : ∀ pat ∈ secretPatterns, avoids [b] pat = true)
    (a s : Str) : secretFree (a ++ b :: s) = (secretFree a && secretFree s) := by
  rw [Bool.eq_iff_iff, Bool.and_eq_true]
  simp only [secretFree, List.all_eq_true, runes_append_ascii hb]
  constructor
  · intro h
    have hboth : ∀ pat ∈ secretPatterns, free pat (runes a) = true ∧ free pat (runes s) = true := by
      intro pat hpat
      have hsplit := h pat hpat
      rwa [Regexp.free_append_avoided (havoid pat hpat), Bool.and_eq_true] at hsplit
    exact ⟨fun pat hpat => (hboth pat hpat).1, fun pat hpat => (hboth pat hpat).2⟩
  · rintro ⟨ha, hs⟩ pat hpat
    rw [Regexp.free_append_avoided (havoid pat hpat), ha pat hpat, hs pat hpat, Bool.and_self]

theorem secretFree_of_ascii (hascii : ∀ b ∈ A, b < 0x80)
    (hA : ∀ pat ∈ secretPatterns, reaches (A.map ([·])) pat = false)
    (hs : s ⊆ A) : secretFree s = true := by
  rw [secretFree, List.all_eq_true]
  intro pat hpat
  rw [runes_ascii (fun b hb => hascii b (hs hb))]
  refine Regexp.free_of_letters (hA pat hpat) ?_
  intro x hx
  obtain ⟨b, hb, rfl⟩ := List.mem_map.mp hx
  exact List.mem_map.mpr ⟨b, hs hb, rfl⟩

theorem secretFree_of_bytes (hplain : ∀ b ∈ A, isPlain b = true)
    (hA : ∀ pat ∈ secretPatterns, reaches (A.map ([·])) pat = false)
    (hs : s ⊆ A) : secretFree s = true := by
  refine secretFree_of_ascii ?_ hA hs
  intro b hb
  have hb := hplain b hb
  simp only [isPlain, Bool.and_eq_true, decide_eq_true_eq] at hb
  exact hb.1

theorem escape_eq_self (h : s.all isPlain = true) : escape s = s := by
  simpa using Json.escape_plain_append h []

theorem clean_of_plain (hplain : s.all isPlain = true) (h : secretFree s = true) :
    clean s = true := by
  rw [clean, escape_eq_self hplain, h, Bool.and_self]

theorem clean_of_bytes (hplain : ∀ b ∈ A, isPlain b = true)
    (hA : ∀ pat ∈ secretPatterns, reaches (A.map ([·])) pat = false)
    (hs : s ⊆ A) : clean s = true :=
  clean_of_plain (List.all_eq_true.mpr (fun _ hb => hplain _ (hs hb)))
    (secretFree_of_bytes hplain hA hs)

theorem clean_of_harmless (hs : s ⊆ harmlessBytes) : clean s = true :=
  clean_of_bytes (fun b hb => bytes_facts.1 b (List.mem_append_left _ hb))
    (fun pat hpat => (secretPatterns_facts pat hpat).2.2.1) hs

theorem clean_of_time (hs : s ⊆ timeBytes) : clean s = true :=
  clean_of_bytes (fun b hb => bytes_facts.1 b (List.mem_append_right _ hb))
    (fun pat hpat => (secretPatterns_facts pat hpat).2.2.2) hs

theorem secretFree_of_clean (h : clean s = true) : secretFree s = true :=
  (Bool.and_eq_true_iff.mp h).1

theorem secretFree_at_barrier (hb : b ∈ barriers) (a s : Str) :
    secretFree (a ++ b :: s) = (secretFree a && secretFree s) :=
  secretFree_split (bytes_facts.2.1 b hb)
    (fun pat hpat => (secretPatterns_facts pat hpat).2.1 b hb) a s

theorem mem_barriers (hb : b ∈ punctuation) : b ∈ barriers :=
  List.mem_cons_of_mem _ (List.mem_cons_of_mem _ hb)

theorem clean_at_punctuation (hb : b ∈ punctuation) (a s : Str) :
    clean (a ++ b :: s) = (clean a && clean s) := by
  have hbackslash : byte '\\' ∈ barriers := List.mem_cons_of_mem _ List.mem_cons_self
  have hesc : secretFree (escape (a ++ b :: s)) =
      (secretFree (escape a) && secretFree (escape s)) := by
    rw [Json.escape_append_ascii (bytes_facts.2.1 b (mem_barriers hb))]
    rcases bytes_facts.2.2.1 b hb with hone | htwo
    · rw [hone]
      exact secretFree_at_barrier (mem_barriers hb) _ _
    · rw [htwo]
      show secretFree (escape a ++ byte '\\' :: ([] ++ b :: escape s)) = _
      rw [secretFree_at_barrier hbackslash, secretFree_at_barrier (mem_barriers hb),
        secretFree_nil, Bool.true_and]
  rw [clean, clean, clean, secretFree_at_barrier (mem_barriers hb), hesc]
  cases secretFree a <;> cases secretFree (escape a) <;> simp

theorem mem_harmlessBytes (hb : Json.isNumByte b = true) : b ∈ harmlessBytes :=
  forall_byte (P := fun b => Json.isNumByte b = true → b ∈ harmlessBytes) bytes_facts.2.2.2 b hb

theorem clean_splits : SplitsAt clean where
  split := fun _ hb => clean_at_punctuation hb
  nil := clean_of_harmless (List.nil_subset _)
  words := ⟨clean_of_harmless (by decide), clean_of_harmless (by decide),
    clean_of_harmless (by decide)⟩
  number := fun _ hl => clean_of_harmless
    (fun b hb => mem_harmlessBytes (List.all_eq_true.mp hl b hb))

theorem secretFree_splits : SplitsAt secretFree where
  split := fun _ hb => secretFree_at_barrier (mem_barriers hb)
  nil := secretFree_nil
  words := ⟨secretFree_of_clean clean_splits.words.1, secretFree_of_clean clean_splits.words.2.1,
    secretFree_of_clean clean_splits.words.2.2⟩
  number := fun l hl => secretFree_of_clean (clean_splits.number l hl)

/-! ## Literal text in front -/

theorem lengths_blank (hpat : pat ∈ secretPatterns) (t : List Str) :
    lengths pat ([byte ' '] :: t) = [] := by
  simp only [secretPatterns, List.mem_cons, List.not_mem_nil, or_false] at hpat
  rcases hpat with rfl | rfl | rfl | rfl | rfl | rfl | rfl | rfl | rfl | rfl <;> rfl

theorem secretFree_blank (s : Str) : secretFree (byte ' ' :: s) = secretFree s := by
  rw [Bool.eq_iff_iff, secretFree, secretFree, List.all_eq_true, List.all_eq_true,
    runes_ascii_cons (by decide)]
  refine forall₂_congr ?_
  intro pat hpat
  rw [free, lengths_blank hpat, List.isEmpty_nil, Bool.true_and]

theorem clean_blank (s : Str) : clean (byte ' ' :: s) = clean s := by
  have hesc := Json.escape_plain_append (show [byte ' '].all isPlain = true by decide) s
  rw [List.singleton_append, List.singleton_append] at hesc
  rw [clean, clean, hesc, secretFree_blank, secretFree_blank]

theorem clean_prefixed {w : Str} (hw : clean w = true) (s : Str) :
    clean (w ++ lit ": " ++ s) = clean s := by
  have happ : w ++ lit ": " ++ s = w ++ byte ':' :: byte ' ' :: s := by
    rw [List.append_assoc]
    rfl
  rw [happ, clean_at_punctuation (by decide), hw, Bool.true_and, clean_blank]

theorem itoa_harmless (n : Int) : itoa n ⊆ harmlessBytes := by
  intro b hb
  refine mem_harmlessBytes ?_
  rcases mem_itoa hb with hdigit | rfl
  · simp [Json.isNumByte, hdigit]
  · decide

theorem clean_itoa {w u : Str} (hw : w ⊆ harmlessBytes) (hu : u ⊆ harmlessBytes) (n : Int) :
    clean (w ++ itoa n ++ u) = true :=
  clean_of_harmless
    (List.append_subset.mpr ⟨List.append_subset.mpr ⟨hw, itoa_harmless n⟩, hu⟩)

/-! ## Bodies -/

def sensitiveJSONKeys : List Str :=
  ["api_key", "apikey", "api_secret", "apisecret", "token", "access_token", "refresh_token",
    "password", "passwd", "secret", "client_secret", "authorization", "x-api-key",
    "x-auth-token"].map lit

def isSensitiveKey (key : Str) : Bool := sensitiveJSONKeys.contains key

def redacted : Str := lit "[REDACTED]"

mutual

/-- The three cases `redactMap` and `redactSlice` tell apart. -/
def redactAny : Value → Value
  | .obj ms => .obj (redactMap ms)
  | .arr xs => .arr (redactSlice xs)
  | .str s => .str (redactString s)
  | .null => .null
  | .bool b => .bool b
  | .num l => .num l

def redactMap : List (Str × Value) → List (Str × Value)
  | [] => []
  | (k, v) :: ms =>
    (k, if isSensitiveKey (toLower k) then .str redacted else redactAny v) :: redactMap ms

def redactSlice : List Value → List Value
  | [] => []
  | x :: xs => redactAny x :: redactSlice xs

end

/-- `json.Unmarshal` into a `map[string]any`; `null` is no error and leaves a
nil map. -/
def unmarshalMap (num : NumberFormat) (b : Str) : Option Value :=
  match Json.parse b with
  | some .null => some .null
  | some (.obj ms) => renumber num (.obj ms)
  | _ => none

def redactBody (num : NumberFormat) (b : Str) : Str :=
  if b = [] then b
  else if utf8Valid b = false then redactString b
  else
    match unmarshalMap num b with
    | none => redactString b
    | some obj => encode (redactAny obj)

mutual

/-- What a masked object shows of its strings: the keys as they are, and the
values of the keys that are not sensitive behind one pass of `RedactString`. -/
def shown : Value → List Str
  | .str s => [escape (redactString s)]
  | .arr xs => shownElements xs
  | .obj ms => shownMembers ms
  | .null => []
  | .bool _ => []
  | .num _ => []

def shownElements : List Value → List Str
  | [] => []
  | x :: xs => shown x ++ shownElements xs

def shownMembers : List (Str × Value) → List Str
  | [] => []
  | (k, v) :: ms =>
    if (ms.map Prod.fst).contains k then shownMembers ms
    else escape k :: (if isSensitiveKey (toLower k) then [] else shown v) ++ shownMembers ms

end

theorem map_fst_redactMap (ms : List (Str × Value)) :
    (redactMap ms).map Prod.fst = ms.map Prod.fst := by
  induction ms with
  | nil => rfl
  | cons m ms ih =>
    obtain ⟨k, v⟩ := m
    rw [redactMap, List.map_cons, List.map_cons, ih]

mutual

theorem isNumeric_redactAny : (v : Value) → Json.isNumeric v = true →
    Json.isNumeric (redactAny v) = true
  | .null, h => h
  | .bool _, h => h
  | .num _, h => h
  | .str _, _ => rfl
  | .arr xs, h => areNumeric_redactSlice xs h
  | .obj ms, h => membersNumeric_redactMap ms h

theorem areNumeric_redactSlice : (xs : List Value) → Json.areNumeric xs = true →
    Json.areNumeric (redactSlice xs) = true
  | [], _ => rfl
  | x :: xs, h => by
    rw [Json.areNumeric, Bool.and_eq_true] at h
    rw [redactSlice, Json.areNumeric, isNumeric_redactAny x h.1, areNumeric_redactSlice xs h.2,
      Bool.and_self]

theorem membersNumeric_redactMap : (ms : List (Str × Value)) → Json.membersNumeric ms = true →
    Json.membersNumeric (redactMap ms) = true
  | [], _ => rfl
  | (k, v) :: ms, h => by
    rw [Json.membersNumeric, Bool.and_eq_true] at h
    have hrest := membersNumeric_redactMap ms h.2
    rw [redactMap, Json.membersNumeric, hrest, Bool.and_true]
    split
    · rfl
    · exact isNumeric_redactAny v h.1

end

theorem clean_strings_redacted : (strings (.str redacted)).all clean = true := by
  have hescape : escape redacted = byte '[' :: (lit "REDACTED" ++ [byte ']']) := by decide
  rw [strings, List.all_cons, List.all_nil, Bool.and_true, hescape,
    clean_splits.between (by decide) (by decide)]
  exact clean_of_harmless (by decide)

mutual

theorem strings_redactAny : (v : Value) → (strings (redactAny v)).all clean = (shown v).all clean
  | .null => rfl
  | .bool _ => rfl
  | .num _ => rfl
  | .str _ => rfl
  | .arr xs => strings_redactSlice xs
  | .obj ms => strings_redactMap ms

theorem strings_redactSlice : (xs : List Value) →
    (Json.stringsOfElements (redactSlice xs)).all clean = (shownElements xs).all clean
  | [] => rfl
  | x :: xs => by
    rw [redactSlice, Json.stringsOfElements, shownElements, List.all_append, List.all_append,
      strings_redactAny x, strings_redactSlice xs]

theorem strings_redactMap : (ms : List (Str × Value)) →
    (Json.stringsOfMembers (redactMap ms)).all clean = (shownMembers ms).all clean
  | [] => rfl
  | (k, v) :: ms => by
    rw [redactMap, Json.stringsOfMembers, map_fst_redactMap, shownMembers]
    split
    · exact strings_redactMap ms
    · rw [List.cons_append, List.cons_append, List.all_cons, List.all_cons, List.all_append,
        List.all_append, strings_redactMap ms]
      split
      · rw [clean_strings_redacted, List.all_nil]
      · rw [strings_redactAny v]

end

/-- The texts of a body that `RedactBody` shows. -/
def shownOfBody (num : NumberFormat) (b : Str) : List Str :=
  if b = [] then []
  else if utf8Valid b = false then [redactString b]
  else
    match unmarshalMap num b with
    | none => [redactString b]
    | some obj => shown obj

theorem isNumeric_unmarshalMap {num : NumberFormat} {b : Str} {obj : Value}
    (h : unmarshalMap num b = some obj) : Json.isNumeric obj = true := by
  unfold unmarshalMap at h
  split at h
  · cases h
    rfl
  · exact Json.isNumeric_renumber _ _ h
  · cases h

theorem clean_redactBody (num : NumberFormat) (b : Str) :
    clean (redactBody num b) = (shownOfBody num b).all clean := by
  unfold redactBody shownOfBody
  split
  · rename_i hb
    subst hb
    exact clean_splits.nil
  · split
    · simp
    · split
      · simp
      · rename_i obj hobj
        rw [Json.encode_splits clean_splits _
          (isNumeric_redactAny obj (isNumeric_unmarshalMap hobj)), strings_redactAny]

end MiniGoAgent
