/-
# `Go.Runes` — a Go string read rune by rune

`regexp`, `range` over a string and `json.Marshal` read a string one rune at a
time: a well-formed UTF-8 sequence is one rune, and a byte that starts none is
a rune of its own, of width one.  `runes s` is that reading, each rune kept as
its bytes, so that no byte is lost and `(runes s).flatten = s`.

An ASCII byte is never part of a longer rune, so a text splits at one
(`runes_append_ascii`).
-/
import MiniGoAgent.Go.JsonDecode

namespace Go

variable (c : UInt8) (rest : Str)

variable {s x : Str} {n : Nat} {b : UInt8}

/-! ## Splitting a string -/

/-- How many bytes behind the first one belong to the first rune. -/
def runeTail (s : Str) : Nat := Json.runeLen s - 1

/-- The runes of `s`; the fuel is the length, since every rune takes a byte. -/
def runesFrom : Nat → Str → List Str
  | _, [] => []
  | 0, _ => []
  | n + 1, c :: rest =>
    (c :: rest.take (runeTail (c :: rest))) :: runesFrom n (rest.drop (runeTail (c :: rest)))

def runes (s : Str) : List Str := runesFrom s.length s

theorem runesFrom_enough (h : s.length ≤ n) : runesFrom n s = runes s := by
  induction n using Nat.strong_induction_on generalizing s with
  | _ n ih =>
    cases s with
    | nil => cases n <;> rfl
    | cons c rest =>
      obtain ⟨m, rfl⟩ : ∃ m, n = m + 1 := ⟨n - 1, by simp at h; omega⟩
      simp only [runes, List.length_cons, runesFrom]
      have hm : (rest.drop (runeTail (c :: rest))).length ≤ m := by
        simp at h
        simp
        omega
      rw [ih m (by omega) hm]
      by_cases heq : m = rest.length
      · rw [← heq, ih m (by omega) hm]
      · have hlt : rest.length < m + 1 := by
          simp at h
          omega
        rw [ih rest.length hlt (by simp)]

@[simp] theorem runes_nil : runes [] = [] := rfl

theorem runes_cons :
    runes (c :: rest) =
      (c :: rest.take (runeTail (c :: rest))) :: runes (rest.drop (runeTail (c :: rest))) := by
  show runesFrom (rest.length + 1) (c :: rest) = _
  rw [runesFrom, runesFrom_enough (by simp)]

theorem runes_induction {P : Str → Prop} (nil : P [])
    (cons : ∀ c rest, P (rest.drop (runeTail (c :: rest))) → P (c :: rest)) (s : Str) :
    P s := by
  induction hn : s.length using Nat.strong_induction_on generalizing s with
  | _ n ih =>
    cases s with
    | nil => exact nil
    | cons c rest =>
      refine cons c rest (ih _ ?_ _ rfl)
      rw [List.length_cons] at hn
      rw [List.length_drop]
      omega

@[simp] theorem runes_flatten (s : Str) : (runes s).flatten = s := by
  induction s using runes_induction with
  | nil => rfl
  | cons c rest ih =>
    rw [runes_cons, List.flatten_cons, ih, List.cons_append, List.take_append_drop]

theorem ne_nil_of_mem_runes (hx : x ∈ runes s) : x ≠ [] := by
  induction s using runes_induction with
  | nil => cases hx
  | cons c rest ih =>
    rw [runes_cons] at hx
    rcases List.mem_cons.mp hx with rfl | hx
    · exact List.cons_ne_nil _ _
    · exact ih hx

/-! ## ASCII bytes -/

theorem runeTail_ascii (hb : b < 0x80) (rest : Str) : runeTail (b :: rest) = 0 := by
  simp [runeTail, Json.runeLen, hb]

theorem not_le_ascii {lo : UInt8} (hb : b < 0x80) (hlo : 0x80 ≤ lo) : ¬ lo ≤ b := by
  intro h
  have h1 : b.toNat < 128 := hb
  have h2 : 128 ≤ lo.toNat := hlo
  have h3 : lo.toNat ≤ b.toNat := h
  omega

theorem ne_of_high {c : UInt8} (hb : 0x80 ≤ b) (hc : c < 0x80) : (b == c) = false := by
  rw [beq_eq_false_iff_ne]
  rintro rfl
  exact not_le_ascii hc (UInt8.le_refl _) hb

theorem not_secondByte_le_ascii {x : UInt8} (p : Prop) [Decidable p] (hb : b < 0x80)
    (hx : 0x80 ≤ x) : ¬ (if p then x else 0x80) ≤ b := by
  split
  · exact not_le_ascii hb hx
  · exact not_le_ascii hb (UInt8.le_refl _)

theorem runeLen_append_ascii (hb : b < 0x80) (c : UInt8) (a s : Str) :
    Json.runeLen (c :: (a ++ b :: s)) = Json.runeLen (c :: a) := by
  have h80 : ¬ 0x80 ≤ b := not_le_ascii hb (UInt8.le_refl _)
  have hE0 : ¬ (if c = 0xE0 then 0xA0 else 0x80) ≤ b := not_secondByte_le_ascii _ hb (by decide)
  have hF0 : ¬ (if c = 0xF0 then 0x90 else 0x80) ≤ b := not_secondByte_le_ascii _ hb (by decide)
  rcases a with _ | ⟨x, _ | ⟨y, _ | ⟨z, a⟩⟩⟩
  · rcases s with _ | ⟨x, _ | ⟨y, s⟩⟩ <;> simp [Json.runeLen, h80, hE0, hF0]
  · rcases s with _ | ⟨y, s⟩ <;> simp [Json.runeLen, h80]
  · simp [Json.runeLen, h80]
  · simp [Json.runeLen]

theorem runeTail_append_ascii (hb : b < 0x80) (c : UInt8) (a s : Str) :
    runeTail (c :: (a ++ b :: s)) = runeTail (c :: a) := by
  rw [runeTail, runeTail, runeLen_append_ascii hb]

theorem runeTail_le : runeTail (c :: rest) ≤ rest.length := by
  unfold runeTail
  rcases rest with _ | ⟨x, _ | ⟨y, _ | ⟨z, t⟩⟩⟩ <;> simp only [Json.runeLen] <;> split_ifs <;> simp

theorem le_of_mem_runeTail {c : UInt8} {rest : Str}
    (hb : b ∈ rest.take (runeTail (c :: rest))) : 0x80 ≤ b := by
  by_contra hlt
  have hascii : b < 0x80 := UInt8.not_le.mp hlt
  obtain ⟨u, v, huv⟩ := List.append_of_mem hb
  have hrest : rest = u ++ b :: (v ++ rest.drop (runeTail (c :: rest))) := by
    conv_lhs => rw [← List.take_append_drop (runeTail (c :: rest)) rest, huv]
    simp
  have hends : runeTail (c :: rest) = runeTail (c :: u) := by
    rw [← runeTail_append_ascii hascii c u (v ++ rest.drop (runeTail (c :: rest))), ← hrest]
  have hle : (u ++ b :: v).length ≤ runeTail (c :: rest) := by
    rw [← huv]
    exact List.length_take_le ..
  have hshort := runeTail_le c u
  simp only [List.length_append, List.length_cons] at hle
  omega

theorem runes_ascii_cons (hb : b < 0x80) (rest : Str) : runes (b :: rest) = [b] :: runes rest := by
  rw [runes_cons, runeTail_ascii hb, List.take_zero, List.drop_zero]

theorem runes_ascii_append {a : Str} (ha : ∀ b ∈ a, b < 0x80) (s : Str) :
    runes (a ++ s) = a.map ([·]) ++ runes s := by
  induction a with
  | nil => rfl
  | cons b rest ih =>
    rw [List.cons_append, runes_ascii_cons (ha b List.mem_cons_self),
      ih (fun x hx => ha x (List.mem_cons_of_mem b hx))]
    rfl

theorem runes_ascii {a : Str} (ha : ∀ b ∈ a, b < 0x80) : runes a = a.map ([·]) := by
  simpa using runes_ascii_append ha []

theorem runes_append_ascii (hb : b < 0x80) (a s : Str) :
    runes (a ++ b :: s) = runes a ++ [b] :: runes s := by
  induction a using runes_induction with
  | nil => exact runes_ascii_cons hb s
  | cons c rest ih =>
    have hle := runeTail_le c rest
    rw [List.cons_append, runes_cons, runes_cons c rest, runeTail_append_ascii hb,
      List.take_append_of_le_length hle, List.drop_append_of_le_length hle, ih, List.cons_append]

theorem eq_of_ascii_mem_rune (hb : b < 0x80) (hx : x ∈ runes s) (hbx : b ∈ x) : x = [b] := by
  induction s using runes_induction with
  | nil => cases hx
  | cons c rest ih =>
    rw [runes_cons] at hx
    rcases List.mem_cons.mp hx with rfl | hx
    · rcases List.mem_cons.mp hbx with rfl | hbx
      · rw [runeTail_ascii hb, List.take_zero]
      · exact absurd (le_of_mem_runeTail hbx) (not_le_ascii hb (UInt8.le_refl _))
    · exact ih hx

/-- `utf8.Valid`. -/
def utf8Valid (s : Str) : Bool := (runes s).all (fun x => Json.runeLen x != 0)

theorem forall_byte {P : UInt8 → Prop} (h : ∀ n : Fin 256, P (UInt8.ofNat n))
    (b : UInt8) : P b := by
  have hb := h ⟨b.toNat, b.toNat_lt⟩
  rwa [UInt8.ofNat_toNat] at hb

/-! ## Replacing what is not UTF-8 -/

theorem eq_of_ite_eq_succ {P : Prop} [Decidable P] {k : Nat}
    (h : (if P then k + 1 else 0) = n + 1) : k = n ∧ P := by
  by_cases hP : P
  · rw [if_pos hP] at h
    exact ⟨Nat.succ.inj h, hP⟩
  · rw [if_neg hP] at h
    cases h

theorem runeLen_take {c : UInt8} {rest : Str} (h : Json.runeLen (c :: rest) = n + 1)
    (more : Str) : Json.runeLen (c :: (rest.take n ++ more)) = n + 1 := by
  by_cases h1 : c < 0x80
  · simp only [Json.runeLen, h1, if_true] at h ⊢
    omega
  by_cases h2 : (0xC2 ≤ c && c ≤ 0xDF) = true
  · rcases rest with _ | ⟨x, rest⟩ <;> simp only [Json.runeLen, h1, h2, if_true, if_false] at h
    · cases h
    · obtain ⟨rfl, hx⟩ := eq_of_ite_eq_succ h
      simp only [List.take_succ_cons, List.cons_append, Json.runeLen, h1, h2, if_true, if_false]
      exact if_pos hx
  rw [Bool.not_eq_true] at h2
  by_cases h3 : (0xE0 ≤ c && c ≤ 0xEF) = true
  · rcases rest with _ | ⟨x, _ | ⟨y, rest⟩⟩ <;>
      simp only [Json.runeLen, h1, h2, h3, if_true, if_false, Bool.false_eq_true] at h
    · cases h
    · cases h
    · obtain ⟨rfl, hx⟩ := eq_of_ite_eq_succ h
      simp only [List.take_succ_cons, List.cons_append, Json.runeLen, h1, h2, h3, if_true, if_false,
        Bool.false_eq_true]
      exact if_pos hx
  rw [Bool.not_eq_true] at h3
  by_cases h4 : (0xF0 ≤ c && c ≤ 0xF4) = true
  · rcases rest with _ | ⟨x, _ | ⟨y, _ | ⟨z, rest⟩⟩⟩ <;>
      simp only [Json.runeLen, h1, h2, h3, h4, if_true, if_false, Bool.false_eq_true] at h
    · cases h
    · cases h
    · cases h
    · obtain ⟨rfl, hx⟩ := eq_of_ite_eq_succ h
      simp only [List.take_succ_cons, List.cons_append, Json.runeLen, h1, h2, h3, h4, if_true,
        if_false, Bool.false_eq_true]
      exact if_pos hx
  · simp [Json.runeLen, h1, h2, h3, h4] at h
/-- The bytes of one rune. -/
def IsRune (x : Str) : Prop := x ≠ [] ∧ Json.runeLen x = x.length

theorem IsRune.runeLen_append (h : IsRune x) (more : Str) :
    Json.runeLen (x ++ more) = x.length := by
  obtain ⟨hne, hlen⟩ := h
  cases x with
  | nil => exact absurd rfl hne
  | cons c rest =>
    have htake := runeLen_take hlen more
    rwa [List.take_length] at htake

theorem IsRune.runes_append (h : IsRune x) (more : Str) : runes (x ++ more) = x :: runes more := by
  have hlen := h.runeLen_append more
  obtain ⟨hne, _⟩ := h
  cases x with
  | nil => exact absurd rfl hne
  | cons c rest =>
    have htail : runeTail (c :: (rest ++ more)) = rest.length := by
      rw [runeTail, ← List.cons_append, hlen]
      rfl
    rw [List.cons_append, runes_cons, htail, List.take_left, List.drop_left]

theorem IsRune.utf8Valid_append (h : IsRune x) (more : Str) :
    utf8Valid (x ++ more) = utf8Valid more := by
  have hne : Json.runeLen x ≠ 0 := by
    rw [h.2]
    exact fun hlen => h.1 (List.eq_nil_of_length_eq_zero hlen)
  rw [utf8Valid, h.runes_append, List.all_cons, bne_iff_ne.mpr hne, Bool.true_and]
  rfl

theorem isRune_or :
    IsRune (c :: rest.take (runeTail (c :: rest))) ∨
      (c :: rest.take (runeTail (c :: rest)) = [c] ∧ Json.runeLen [c] = 0) := by
  cases hlen : Json.runeLen (c :: rest) with
  | zero =>
    have htail : runeTail (c :: rest) = 0 := by rw [runeTail, hlen]
    refine Or.inr ⟨by rw [htail]; rfl, ?_⟩
    by_cases hc : c < 0x80
    · simp [Json.runeLen, hc] at hlen
    · simp [Json.runeLen, hc]
  | succ n =>
    have htail : runeTail (c :: rest) = n := by rw [runeTail, hlen]; rfl
    have hn : n ≤ rest.length := htail ▸ runeTail_le c rest
    refine Or.inl ⟨List.cons_ne_nil _ _, ?_⟩
    have htake := runeLen_take hlen []
    rw [List.append_nil] at htake
    rw [htail, htake, List.length_cons, List.length_take, Nat.min_eq_left hn]

/-- U+FFFD. -/
def replacement : Str := [0xEF, 0xBF, 0xBD]

/-- A piece of a string as UTF-8. -/
def validRune (x : Str) : Str := if Json.runeLen x = 0 then replacement else x

/-- The string with U+FFFD for every byte that is not UTF-8. -/
def toValid (s : Str) : Str := (runes s).flatMap validRune

theorem toValid_cons :
    toValid (c :: rest) = validRune (c :: rest.take (runeTail (c :: rest))) ++
      toValid (rest.drop (runeTail (c :: rest))) := by
  rw [toValid, runes_cons]
  rfl

theorem isRune_validRune : IsRune (validRune (c :: rest.take (runeTail (c :: rest)))) := by
  rcases isRune_or c rest with h | ⟨h, hlen⟩
  · have hne : Json.runeLen (c :: rest.take (runeTail (c :: rest))) ≠ 0 := by
      rw [h.2]
      exact Nat.succ_ne_zero _
    rw [validRune, if_neg hne]
    exact h
  · rw [h, validRune, if_pos hlen]
    exact ⟨by decide, by decide⟩

theorem utf8Valid_toValid (s : Str) : utf8Valid (toValid s) = true := by
  induction s using runes_induction with
  | nil => rfl
  | cons c rest ih =>
    rw [toValid_cons, (isRune_validRune c rest).utf8Valid_append]
    exact ih

theorem toValid_of_utf8Valid (h : utf8Valid s = true) : toValid s = s := by
  have hall : (runes s).flatMap validRune = (runes s).flatMap id := by
    refine List.flatMap_congr ?_
    intro x hx
    have hlen : Json.runeLen x ≠ 0 := bne_iff_ne.mp (List.all_eq_true.mp h x hx)
    rw [validRune, if_neg hlen]
    rfl
  rw [toValid, hall, List.flatMap_id, runes_flatten]

theorem toValid_eq_nil : toValid s = [] ↔ s = [] := by
  cases s with
  | nil => simp [toValid]
  | cons c rest =>
    rw [toValid_cons]
    simp [(isRune_validRune c rest).1]

theorem utf8Valid_append_ascii (hb : b < 0x80) (a s : Str) :
    utf8Valid (a ++ b :: s) = (utf8Valid a && utf8Valid s) := by
  have hrune : Json.runeLen [b] = 1 := by simp [Json.runeLen, hb]
  simp [utf8Valid, runes_append_ascii hb, hrune]

/-! ## Decimal numbers -/

theorem lit_eq (s : String) : lit s = s.toList.flatMap String.utf8EncodeChar := by
  have hbytes : s.toList.utf8Encode = s.toByteArray := String.utf8Encode_toList
  show s.toByteArray.data.toList = _
  rw [← hbytes]
  simp [List.utf8Encode]

theorem isDigit_of_mem_lit_repr (hb : b ∈ lit (Nat.repr n)) : isDigit b = true := by
  rw [lit_eq, List.mem_flatMap] at hb
  obtain ⟨c, hc, hb⟩ := hb
  have hdigit : c.isDigit = true :=
    Nat.isDigit_of_mem_toDigits (by omega) (le_refl 10) (by simpa [Nat.repr] using hc)
  have hrange : 48 ≤ c.toNat ∧ c.toNat ≤ 57 := by
    simpa [Char.isDigit, UInt32.le_iff_toNat_le] using hdigit
  have hbyte : b = UInt8.ofNat c.toNat := by
    have hsmall : c.toNat ≤ 127 := by omega
    simpa [String.utf8EncodeChar, hsmall] using hb
  subst hbyte
  simp only [isDigit, Bool.and_eq_true, decide_eq_true_eq, UInt8.le_iff_toNat_le]
  simp
  omega

theorem mem_itoa {n : Int} (hb : b ∈ itoa n) : isDigit b = true ∨ b = 0x2D := by
  cases n with
  | ofNat n => exact .inl (isDigit_of_mem_lit_repr hb)
  | negSucc n =>
    have happ : itoa (Int.negSucc n) = lit "-" ++ lit (Nat.repr (n + 1)) := by
      show lit ("-" ++ Nat.repr (n + 1)) = _
      simp [lit_eq]
    rw [happ, List.mem_append] at hb
    rcases hb with hb | hb
    · rw [show lit "-" = [0x2D] from rfl] at hb
      exact .inr (List.mem_singleton.mp hb)
    · exact .inl (isDigit_of_mem_lit_repr hb)

theorem itoa_inj {n m : Nat} (h : itoa n = itoa m) : n = m := by
  have hrepr : Nat.repr n = Nat.repr m :=
    String.toByteArray_inj.mp (ByteArray.ext (Array.toList_inj.mp h))
  rw [← Nat.ofDigitChars_ten_toDigits (n := n), ← Nat.toList_repr, hrepr, Nat.toList_repr,
    Nat.ofDigitChars_ten_toDigits]

/-! ## Replacing -/

/-- The pieces of `s` between the occurrences of a non-empty `sep`; the fuel is the length,
since every occurrence takes a byte. -/
def piecesFrom (sep : Str) : Nat → Str → List Str
  | 0, s => [s]
  | n + 1, s =>
    match cut s sep with
    | none => [s]
    | some (before, after) => before :: piecesFrom sep n after

/-- `strings.Count`: an empty `sub` occurs around every rune. -/
def count (s sub : Str) : Nat :=
  if sub = [] then (runes s).length + 1 else (piecesFrom sub s.length s).length - 1

def replaceAll (s old new : Str) : Str :=
  if old = [] then new ++ (runes s).flatMap (· ++ new)
  else new.intercalate (piecesFrom old s.length s)

end Go
