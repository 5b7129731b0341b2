/-
# `Go.JsonDecode` — `json.Unmarshal` into typed values

`json.Unmarshal` first runs the scanner of `Go.Json` over the whole text and
then walks it, filling the target.  Here the walk is split in two: `parse`
builds the value tree of a valid text, and a `Decoder` fills a target from a
tree.  The rules of the target side are the documented ones:

* `null` leaves a string, number or struct as it was and clears a pointer or
  a slice;
* an object member goes to the field of that exact name, else to the field
  whose name agrees up to case, else nowhere; a repeated member is decoded
  into the field again;
* any mismatch of kind makes `Unmarshal` return an error, which is the only
  thing the callers look at, so a mismatch is `none`.

Numbers keep their literal, since only `int` targets are decoded.
-/
import MiniGoAgent.Go.Json

namespace Go.Json

/-- A JSON value; a number is its literal. -/
inductive Value where
  | null
  | bool (b : Bool)
  | num (literal : Str)
  | str (s : Str)
  | arr (xs : List Value)
  | obj (members : List (Str × Value))
  deriving Repr

/-! ## Equality of values -/

mutual

def Value.same : Value → Value → Bool
  | .null, .null => true
  | .bool a, .bool b => a == b
  | .num a, .num b => a == b
  | .str a, .str b => a == b
  | .arr xs, .arr ys => sameElements xs ys
  | .obj ms, .obj ns => sameMembers ms ns
  | _, _ => false

def sameElements : List Value → List Value → Bool
  | [], [] => true
  | x :: xs, y :: ys => x.same y && sameElements xs ys
  | _, _ => false

def sameMembers : List (Str × Value) → List (Str × Value) → Bool
  | [], [] => true
  | (k, v) :: ms, (l, w) :: ns => k == l && (v.same w && sameMembers ms ns)
  | _, _ => false

end

mutual

theorem same_iff_eq (v w : Value) : v.same w = true ↔ v = w := by
  cases v with
  | arr xs =>
    cases w with
    | arr ys => rw [Value.same, sameElements_iff_eq xs ys, Value.arr.injEq]
    | _ => simp [Value.same]
  | obj ms =>
    cases w with
    | obj ns => rw [Value.same, sameMembers_iff_eq ms ns, Value.obj.injEq]
    | _ => simp [Value.same]
  | _ => cases w <;> simp [Value.same]

theorem sameElements_iff_eq (xs ys : List Value) : sameElements xs ys = true ↔ xs = ys := by
  cases xs with
  | nil => cases ys <;> simp [sameElements]
  | cons x xs =>
    cases ys with
    | nil => simp [sameElements]
    | cons y ys =>
      rw [sameElements, Bool.and_eq_true, same_iff_eq x y, sameElements_iff_eq xs ys,
        List.cons.injEq]

theorem sameMembers_iff_eq (ms ns : List (Str × Value)) : sameMembers ms ns = true ↔ ms = ns := by
  match ms, ns with
  | [], [] => simp [sameMembers]
  | [], _ :: _ => simp [sameMembers]
  | _ :: _, [] => simp [sameMembers]
  | (k, v) :: ms, (l, w) :: ns =>
    rw [sameMembers, Bool.and_eq_true, Bool.and_eq_true, beq_iff_eq, same_iff_eq v w,
      sameMembers_iff_eq ms ns, List.cons.injEq, Prod.mk.injEq, and_assoc]

end

instance : DecidableEq Value := fun v w => decidable_of_iff (v.same w = true) (same_iff_eq v w)

/-! ## Strings -/

/-- The length of the well-formed UTF-8 sequence at the front, `0` when there
is none. -/
def runeLen : Str → Nat
  | [] => 0
  | a :: rest =>
    let tail (c : UInt8) : Bool := 0x80 ≤ c && c ≤ 0xBF
    if a < 0x80 then 1
    else if 0xC2 ≤ a && a ≤ 0xDF then
      match rest with
      | b :: _ => if tail b then 2 else 0
      | _ => 0
    else if 0xE0 ≤ a && a ≤ 0xEF then
      match rest with
      | b :: c :: _ =>
        let lo : UInt8 := if a = 0xE0 then 0xA0 else 0x80
        let hi : UInt8 := if a = 0xED then 0x9F else 0xBF
        if lo ≤ b && b ≤ hi && tail c then 3 else 0
      | _ => 0
    else if 0xF0 ≤ a && a ≤ 0xF4 then
      match rest with
      | b :: c :: d :: _ =>
        let lo : UInt8 := if a = 0xF0 then 0x90 else 0x80
        let hi : UInt8 := if a = 0xF4 then 0x8F else 0xBF
        if lo ≤ b && b ≤ hi && tail c && tail d then 4 else 0
      | _ => 0
    else 0

/-- `utf8.AppendRune`: a surrogate or out-of-range value becomes U+FFFD. -/
def encodeRune (r : Nat) : Str :=
  if r < 0xD800 ∨ 0xDFFF < r ∧ r < 0x110000 then String.utf8EncodeChar (Char.ofNat r)
  else [0xEF, 0xBF, 0xBD]

def hex4 : Str → Option (Nat × Str)
  | a :: b :: c :: d :: rest =>
    match unhex a, unhex b, unhex c, unhex d with
    | some w, some x, some y, some z => some (((w * 16 + x) * 16 + y) * 16 + z, rest)
    | _, _, _, _ => none
  | _ => none

def unescape (c : UInt8) : UInt8 :=
  if c == byte 'b' then 0x08
  else if c == byte 'f' then 0x0C
  else if c == byte 'n' then 0x0A
  else if c == byte 'r' then 0x0D
  else if c == byte 't' then 0x09
  else c

/-- `unquote` from behind the opening quote: the decoded text and what follows
the closing quote.  A surrogate pair of `\u` escapes is one rune, a lone half
and a byte that is not UTF-8 are U+FFFD. -/
def unquote : Nat → Str → Option (Str × Str)
  | 0, _ => none
  | fuel + 1, s =>
    match s with
    | [] => none
    | c :: rest =>
      if c == byte '"' then some ([], rest)
      else if c == byte '\\' then
        match rest with
        | [] => none
        | e :: rest =>
          if e == byte 'u' then
            match hex4 rest with
            | none => none
            | some (hi, rest) =>
              let pair : Option (Nat × Str) :=
                if 0xD800 ≤ hi ∧ hi < 0xDC00 then
                  match rest with
                  | b :: u :: rest' =>
                    if b == byte '\\' && u == byte 'u' then
                      match hex4 rest' with
                      | some (lo, rest'') =>
                        if 0xDC00 ≤ lo ∧ lo < 0xE000 then
                          some ((hi - 0xD800) * 0x400 + (lo - 0xDC00) + 0x10000, rest'')
                        else none
                      | none => none
                    else none
                  | _ => none
                else none
              let (r, rest) := pair.getD (hi, rest)
              (unquote fuel rest).map (fun (t, rest) => (encodeRune r ++ t, rest))
          else (unquote fuel rest).map (fun (t, rest) => (unescape e :: t, rest))
      else
        match runeLen (c :: rest) with
        | 0 => (unquote fuel rest).map (fun (t, rest) => (encodeRune 0xFFFD ++ t, rest))
        | n + 1 =>
          (unquote fuel (rest.drop n)).map (fun (t, r) => ((c :: rest.take n) ++ t, r))

/-! ## Values -/

def isNumByte (c : UInt8) : Bool :=
  isDigit c || c == byte '-' || c == byte '+' || c == byte '.' || c == byte 'e' || c == byte 'E'

def skipSpace (s : Str) : Str := s.dropWhile isSpace

mutual

/-- The value at the front of a valid text, and the rest of the text. -/
def parseValue : Nat → Str → Option (Value × Str)
  | 0, _ => none
  | fuel + 1, s =>
    match skipSpace s with
    | [] => none
    | c :: rest =>
      if c == byte '{' then
        (parseMembers fuel rest).map (fun (ms, rest) => (.obj ms, rest))
      else if c == byte '[' then
        (parseElements fuel rest).map (fun (xs, rest) => (.arr xs, rest))
      else if c == byte '"' then
        (unquote fuel rest).map (fun (t, rest) => (.str t, rest))
      else if c == byte 't' then some (.bool true, rest.drop 3)
      else if c == byte 'f' then some (.bool false, rest.drop 4)
      else if c == byte 'n' then some (.null, rest.drop 3)
      else some (.num (c :: rest.takeWhile isNumByte), rest.dropWhile isNumByte)

def parseElements : Nat → Str → Option (List Value × Str)
  | 0, _ => none
  | fuel + 1, s =>
    match skipSpace s with
    | [] => none
    | c :: rest =>
      if c == byte ']' then some ([], rest)
      else
        match parseValue fuel (if c == byte ',' then rest else c :: rest) with
        | none => none
        | some (v, rest) => (parseElements fuel rest).map (fun (vs, rest) => (v :: vs, rest))

def parseMembers : Nat → Str → Option (List (Str × Value) × Str)
  | 0, _ => none
  | fuel + 1, s =>
    match skipSpace s with
    | [] => none
    | c :: rest =>
      if c == byte '}' then some ([], rest)
      else
        let key := if c == byte ',' then (skipSpace rest).drop 1 else rest
        match unquote fuel key with
        | none => none
        | some (k, rest) =>
          match parseValue fuel ((skipSpace rest).drop 1) with
          | none => none
          | some (v, rest) =>
            (parseMembers fuel rest).map (fun (ms, rest) => ((k, v) :: ms, rest))

end

/-- The value of a JSON text, `none` when the text is not valid. -/
def parse (text : Str) : Option Value :=
  if valid text then (parseValue (2 * text.length + 2) text).map Prod.fst else none

/-! ## Targets -/

/-- Fills a target of type `α`: `none` is a mismatch of kind. -/
abbrev Decoder (α : Type) := α → Value → Option α

def decodeString : Decoder Str := fun cur v =>
  match v with
  | .null => some cur
  | .str s => some s
  | _ => none

/-- `strconv.ParseInt` in base 10 for 64 bits. -/
def parseInt (s : Str) : Option Int :=
  let (sign, digits) : Int × Str :=
    match s with
    | [] => (1, [])
    | c :: rest => if c == byte '-' then (-1, rest) else (1, c :: rest)
  if digits ≠ [] ∧ digits.all isDigit then
    let n : Int := sign * decimal digits
    if -2 ^ 63 ≤ n ∧ n < 2 ^ 63 then some n else none
  else none

/-- An `int` target: a fraction, an exponent or a value past 64 bits is a
mismatch. -/
def decodeInt : Decoder Int := fun cur v =>
  match v with
  | .null => some cur
  | .num l => parseInt l
  | _ => none

/-- A pointer target: `null` clears it, anything else is decoded into what it
points to, a zero value when it is nil. -/
def decodePtr {α : Type} (zero : α) (d : Decoder α) : Decoder (Option α) := fun cur v =>
  match v with
  | .null => some none
  | v => (d (cur.getD zero) v).map some

/-- A slice target: `null` clears it, the elements of an array are decoded into
the elements already there, as a repeated member finds them, and into zero
values behind them. -/
def decodeSlice {α : Type} (zero : α) (d : Decoder α) : Decoder (List α) := fun cur v =>
  match v with
  | .null => some []
  | .arr xs => xs.zipIdx.mapM (fun (x, i) => d (cur.getD i zero) x)
  | _ => none

/-- The folding of a member name: ASCII letters up to case, and the two runes
(U+017F, U+212A) that fold to one. -/
def foldName : Str → Str
  | [] => []
  | 0xC5 :: 0xBF :: rest => 0x53 :: foldName rest
  | 0xE2 :: 0x84 :: 0xAA :: rest => 0x4B :: foldName rest
  | c :: rest => (if 0x61 ≤ c ∧ c ≤ 0x7A then c - 0x20 else c) :: foldName rest

/-- A field of a struct target: its name and how a member is decoded into the
struct through it. -/
structure Field (σ : Type) where
  name : Str
  decode : Decoder σ

/-- A field given by its accessors. -/
def field {σ α : Type} (name : String) (d : Decoder α) (get : σ → α) (set : σ → α → σ) :
    Field σ :=
  ⟨lit name, fun s v => (d (get s) v).map (set s)⟩

def findField {σ : Type} (fields : List (Field σ)) (key : Str) : Option (Field σ) :=
  match fields.find? (fun f => f.name == key) with
  | some f => some f
  | none => fields.find? (fun f => foldName f.name == foldName key)

def decodeStruct {σ : Type} (fields : List (Field σ)) : Decoder σ := fun cur v =>
  match v with
  | .null => some cur
  | .obj members =>
    members.foldlM (fun acc (m : Str × Value) =>
      match findField fields m.1 with
      | some f => f.decode acc m.2
      | none => some acc) cur
  | _ => none

/-- `json.Unmarshal` into a fresh target: `none` is a non-nil error. -/
def unmarshal {α : Type} (zero : α) (d : Decoder α) (text : Str) : Option α :=
  (parse text).bind (d zero)

end Go.Json
