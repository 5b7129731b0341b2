/-
# `Go.Str` — Go strings as byte lists, and the part of package `strings` the model needs

A Go string is an immutable sequence of bytes with no promise of being UTF-8,
so `Str` is `List UInt8`: `len(s)` is `List.length`, `s[i:j]` is
`take`/`drop`, `+` is `++`, and `""` is `[]`.  A literal of the source is
written `lit "…"`, its UTF-8 bytes.

Everything here is executable; the byte-level functions are the documented
ones of package `strings`, restricted to the arguments the code passes (cut
sets and separators are ASCII literals).
-/
import Mathlib.Algebra.Ring.Int.Defs
import Mathlib.Algebra.Ring.Nat
import Mathlib.Data.List.DropRight

namespace Go

/-- A Go string: its bytes. -/
abbrev Str := List UInt8

/-- The bytes of a string literal of the source. -/
def lit (s : String) : Str := s.toUTF8.data.toList

/-- The byte of an ASCII character literal. -/
def byte (c : Char) : UInt8 := c.toNat.toUInt8

/-! ## Prefixes, suffixes and trimming -/

def hasPrefix (s p : Str) : Bool := p.isPrefixOf s

def hasSuffix (s p : Str) : Bool := p.isSuffixOf s

theorem hasPrefix_iff {s p : Str} : hasPrefix s p = true ↔ p <+: s :=
  List.isPrefixOf_iff_prefix

def trimPrefix (s p : Str) : Str :=
  if hasPrefix s p then s.drop p.length else s

/-- `strings.TrimRight` for a cut set of ASCII bytes. -/
def trimRight (s cutset : Str) : Str := s.rdropWhile (fun c => cutset.contains c)

/-- The encodings of the runes `unicode.IsSpace` accepts. -/
def spaceRunes : List Str :=
  [[0x09], [0x0A], [0x0B], [0x0C], [0x0D], [0x20], [0xC2, 0x85], [0xC2, 0xA0],
   [0xE1, 0x9A, 0x80], [0xE2, 0x80, 0x80], [0xE2, 0x80, 0x81], [0xE2, 0x80, 0x82],
   [0xE2, 0x80, 0x83], [0xE2, 0x80, 0x84], [0xE2, 0x80, 0x85], [0xE2, 0x80, 0x86],
   [0xE2, 0x80, 0x87], [0xE2, 0x80, 0x88], [0xE2, 0x80, 0x89], [0xE2, 0x80, 0x8A],
   [0xE2, 0x80, 0xA8], [0xE2, 0x80, 0xA9], [0xE2, 0x80, 0xAF], [0xE2, 0x81, 0x9F],
   [0xE3, 0x80, 0x80]]

/-- Strips members of `runes` off the front; the fuel is the length of the
string, since every member is non-empty. -/
def trimFront (runes : List Str) : Nat → Str → Str
  | 0, s => s
  | n + 1, s =>
    match runes.find? (fun r => r.isPrefixOf s) with
    | some r => trimFront runes n (s.drop r.length)
    | none => s

def trimSpace (s : Str) : Str :=
  let front := trimFront spaceRunes s.length s
  (trimFront (spaceRunes.map List.reverse) front.length front.reverse).reverse

/-! ## Searching and cutting -/

/-- `strings.Index`, `none` for `-1`. -/
def index (s sep : Str) : Option Nat :=
  if hasPrefix s sep then some 0
  else
    match s with
    | [] => none
    | _ :: rest => (index rest sep).map (· + 1)

def contains (s sub : Str) : Bool := (index s sub).isSome

/-- `strings.Cut`: the text around the first `sep`, `none` when there is none. -/
def cut (s sep : Str) : Option (Str × Str) :=
  (index s sep).map (fun i => (s.take i, s.drop (i + sep.length)))

/-- `strings.LastIndexByte`, `none` for `-1`. -/
def lastIndexByte (s : Str) (c : UInt8) : Option Nat :=
  (s.reverse.findIdx? (· == c)).map (fun i => s.length - 1 - i)

/-- `strings.Split` on a single byte. -/
def splitByte (c : UInt8) : Str → List Str
  | [] => [[]]
  | b :: rest =>
    if b == c then [] :: splitByte c rest
    else
      match splitByte c rest with
      | [] => [[b]]
      | f :: fs => (b :: f) :: fs

/-! ## Case -/

/-- `strings.ToLower`, exact on every string that is compared with ASCII text
afterwards: `A`–`Z`, and the two other runes whose lower case is an ASCII
letter (U+212A to `k`, U+0130 to `i`), are mapped; the remaining letters have
a lower case outside ASCII and are left alone. -/
def toLower : Str → Str
  | [] => []
  | 0xE2 :: 0x84 :: 0xAA :: rest => 0x6B :: toLower rest
  | 0xC4 :: 0xB0 :: rest => 0x69 :: toLower rest
  | c :: rest => (if 0x41 ≤ c ∧ c ≤ 0x5A then c + 0x20 else c) :: toLower rest

/-! ## Digits -/

/-- `'0' ≤ c ≤ '9'`. -/
def isDigit (c : UInt8) : Bool := 0x30 ≤ c && c ≤ 0x39

def unhex (c : UInt8) : Option Nat :=
  if isDigit c then some (c.toNat - 0x30)
  else if 0x61 ≤ c && c ≤ 0x66 then some (c.toNat - 0x61 + 10)
  else if 0x41 ≤ c && c ≤ 0x46 then some (c.toNat - 0x41 + 10)
  else none

def decimal (s : Str) : Nat := s.foldl (fun n c => n * 10 + (c.toNat - 0x30)) 0

/-- `strconv.Itoa` and the `%d` verb. -/
def itoa (n : Int) : Str := lit (toString n)

def hexByte (c : UInt8) : Str :=
  let digit (n : UInt8) : UInt8 := if n < 10 then 0x30 + n else 0x57 + n
  [digit (c / 16), digit (c % 16)]

/-- A byte between the quotes of `quote`. -/
def quoteByte (c : UInt8) : Str :=
  if c = 0x22 then lit "\\\""
  else if c = 0x5C then lit "\\\\"
  else if c = 0x07 then lit "\\a"
  else if c = 0x08 then lit "\\b"
  else if c = 0x0C then lit "\\f"
  else if c = 0x0A then lit "\\n"
  else if c = 0x0D then lit "\\r"
  else if c = 0x09 then lit "\\t"
  else if c = 0x0B then lit "\\v"
  else if c < 0x20 ∨ c = 0x7F then lit "\\x" ++ hexByte c
  else [c]

/-- `strconv.Quote` and the `%q` verb, exact on every string whose runes beyond
ASCII are valid and printable. -/
def quote (s : Str) : Str := lit "\"" ++ s.flatMap quoteByte ++ lit "\""

/-- Two's-complement reading of an integer in 64 bits: the value a Go `int`
holds after an operation whose exact result is `n`. -/
def wrap64 (n : Int) : Int := Int.bmod n (2 ^ 64)

theorem isSome_mapM_iff {α β : Type} (f : α → Option β) (l : List α) :
    (l.mapM f).isSome = true ↔ ∀ a ∈ l, (f a).isSome = true := by
  induction l with
  | nil => simp
  | cons a rest ih =>
    rw [List.mapM_cons, List.forall_mem_cons, ← ih]
    cases f a with
    | none => simp
    | some b => cases rest.mapM f <;> simp

end Go
