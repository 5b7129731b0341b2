/-
# `Go.Json` — `encoding/json`: the validity scanner

`json.Valid` runs a byte machine: a step function that is one of a few dozen
states, and a stack that says for every open object or array what comes next
in it.  The machine is transcribed state by state; `none` is `scanError`,
which no later byte leaves.

`valid` is the only thing the callers use.  Strings are scanned as bytes: the
scanner refuses control characters and bad escapes, and does not look at
UTF-8 at all.
-/
import MiniGoAgent.Go.Str

namespace Go.Json

/-- What an open object or array is waiting for. -/
inductive ParseState where
  | objectKey
  | objectValue
  | arrayValue
  deriving DecidableEq, Repr

/-- The states of the scanner, under the names of its step functions. -/
inductive Step where
  | beginValue
  | beginValueOrEmpty
  | beginString
  | beginStringOrEmpty
  | endValue
  | endTop
  | inString
  | inStringEsc
  | inStringEscU
  | inStringEscU1
  | inStringEscU12
  | inStringEscU123
  | neg
  | one
  | zero
  | dot
  | dot0
  | e
  | eSign
  | e0
  | t
  | tr
  | tru
  | f
  | fa
  | fal
  | fals
  | n
  | nu
  | nul
  deriving DecidableEq, Repr

/-- The scanner between two bytes; the innermost container is the head of
`stack`. -/
structure Scanner where
  step : Step
  stack : List ParseState
  deriving DecidableEq, Repr

def maxNestingDepth : Nat := 10000

/-- The four bytes JSON calls white space. -/
def isSpace (c : UInt8) : Bool := c == 0x20 || c == 0x09 || c == 0x0D || c == 0x0A

namespace Scanner

def init : Scanner := ⟨.beginValue, []⟩

/-- `pushParseState`: fails past the nesting limit. -/
def push (stack : List ParseState) (p : ParseState) (next : Step) : Option Scanner :=
  if stack.length + 1 ≤ maxNestingDepth then some ⟨next, p :: stack⟩ else none

/-- `popParseState` on what is left below the closed container. -/
def pop : List ParseState → Scanner
  | [] => ⟨.endTop, []⟩
  | rest => ⟨.endValue, rest⟩

/-- `stateEndTop`: only white space may follow the value. -/
def stateEndTop (c : UInt8) : Option Scanner :=
  if isSpace c then some ⟨.endTop, []⟩ else none

/-- `stateEndValue`: the byte after a complete value. -/
def stateEndValue (stack : List ParseState) (c : UInt8) : Option Scanner :=
  match stack with
  | [] => stateEndTop c
  | p :: rest =>
    if isSpace c then some ⟨.endValue, stack⟩
    else
      match p with
      | .objectKey =>
        if c == byte ':' then some ⟨.beginValue, .objectValue :: rest⟩ else none
      | .objectValue =>
        if c == byte ',' then some ⟨.beginString, .objectKey :: rest⟩
        else if c == byte '}' then some (pop rest)
        else none
      | .arrayValue =>
        if c == byte ',' then some ⟨.beginValue, stack⟩
        else if c == byte ']' then some (pop rest)
        else none

def stateBeginValue (stack : List ParseState) (c : UInt8) : Option Scanner :=
  if isSpace c then some ⟨.beginValue, stack⟩
  else if c == byte '{' then push stack .objectKey .beginStringOrEmpty
  else if c == byte '[' then push stack .arrayValue .beginValueOrEmpty
  else if c == byte '"' then some ⟨.inString, stack⟩
  else if c == byte '-' then some ⟨.neg, stack⟩
  else if c == byte '0' then some ⟨.zero, stack⟩
  else if c == byte 't' then some ⟨.t, stack⟩
  else if c == byte 'f' then some ⟨.f, stack⟩
  else if c == byte 'n' then some ⟨.n, stack⟩
  else if isDigit c then some ⟨.one, stack⟩
  else none

def stateBeginString (stack : List ParseState) (c : UInt8) : Option Scanner :=
  if isSpace c then some ⟨.beginString, stack⟩
  else if c == byte '"' then some ⟨.inString, stack⟩
  else none

/-- `state0`, also where `state1` goes after its digits. -/
def state0 (stack : List ParseState) (c : UInt8) : Option Scanner :=
  if c == byte '.' then some ⟨.dot, stack⟩
  else if c == byte 'e' || c == byte 'E' then some ⟨.e, stack⟩
  else stateEndValue stack c

def stateESign (stack : List ParseState) (c : UInt8) : Option Scanner :=
  if isDigit c then some ⟨.e0, stack⟩ else none

/-- A byte that must be `want`: inside a literal name. -/
def expect (want : Char) (next : Step) (stack : List ParseState) (c : UInt8) :
    Option Scanner :=
  if c == byte want then some ⟨next, stack⟩ else none

/-- A hexadecimal digit of a `\u` escape. -/
def hexDigit (next : Step) (stack : List ParseState) (c : UInt8) : Option Scanner :=
  if (unhex c).isSome then some ⟨next, stack⟩ else none

/-- The bytes that may follow a backslash, `u` apart. -/
def isEscape (c : UInt8) : Bool :=
  c == byte 'b' || c == byte 'f' || c == byte 'n' || c == byte 'r' || c == byte 't' ||
    c == byte '\\' || c == byte '/' || c == byte '"'

def next (s : Scanner) (c : UInt8) : Option Scanner :=
  match s.step with
  | .beginValue => stateBeginValue s.stack c
  | .beginValueOrEmpty =>
    if isSpace c then some s
    else if c == byte ']' then stateEndValue s.stack c
    else stateBeginValue s.stack c
  | .beginString => stateBeginString s.stack c
  | .beginStringOrEmpty =>
    if isSpace c then some s
    else if c == byte '}' then stateEndValue (.objectValue :: s.stack.tail) c
    else stateBeginString s.stack c
  | .endValue => stateEndValue s.stack c
  | .endTop => stateEndTop c
  | .inString =>
    if c == byte '"' then some ⟨.endValue, s.stack⟩
    else if c == byte '\\' then some ⟨.inStringEsc, s.stack⟩
    else if c < 0x20 then none
    else some s
  | .inStringEsc =>
    if isEscape c then some ⟨.inString, s.stack⟩
    else if c == byte 'u' then some ⟨.inStringEscU, s.stack⟩
    else none
  | .inStringEscU => hexDigit .inStringEscU1 s.stack c
  | .inStringEscU1 => hexDigit .inStringEscU12 s.stack c
  | .inStringEscU12 => hexDigit .inStringEscU123 s.stack c
  | .inStringEscU123 => hexDigit .inString s.stack c
  | .neg =>
    if c == byte '0' then some ⟨.zero, s.stack⟩
    else if isDigit c then some ⟨.one, s.stack⟩
    else none
  | .one => if isDigit c then some s else state0 s.stack c
  | .zero => state0 s.stack c
  | .dot => if isDigit c then some ⟨.dot0, s.stack⟩ else none
  | .dot0 =>
    if isDigit c then some s
    else if c == byte 'e' || c == byte 'E' then some ⟨.e, s.stack⟩
    else stateEndValue s.stack c
  | .e =>
    if c == byte '+' || c == byte '-' then some ⟨.eSign, s.stack⟩
    else stateESign s.stack c
  | .eSign => stateESign s.stack c
  | .e0 => if isDigit c then some s else stateEndValue s.stack c
  | .t => expect 'r' .tr s.stack c
  | .tr => expect 'u' .tru s.stack c
  | .tru => expect 'e' .endValue s.stack c
  | .f => expect 'a' .fa s.stack c
  | .fa => expect 'l' .fal s.stack c
  | .fal => expect 's' .fals s.stack c
  | .fals => expect 'e' .endValue s.stack c
  | .n => expect 'u' .nu s.stack c
  | .nu => expect 'l' .nul s.stack c
  | .nul => expect 'l' .endValue s.stack c

def run (s : Scanner) (text : Str) : Option Scanner := text.foldlM next s

/-- `eof`: the value is complete, or a blank would complete it. -/
def eof (s : Scanner) : Bool :=
  s.step == .endTop || (match next s 0x20 with
    | some s' => s'.step == .endTop
    | none => false)

end Scanner

def valid (text : Str) : Bool :=
  match Scanner.init.run text with
  | some s => s.eof
  | none => false

example : valid (lit "\x7b\"cmd\":\"ls\",\"n\":[1,-2.5e3,null]\x7d ") = true := by decide +kernel

example : valid (lit "\x7b\"cmd\":\"ls") = false := by decide +kernel

end Go.Json
