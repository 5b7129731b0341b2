/-
# `Protocol.Detect` — what kind of text a message is (`content_detector.go`)

`detectContentTypeHeuristic` looks at the first byte of a text and at the newlines, then
counts lines that look like lines of a diff, of a log or of search results.  Nothing is
parsed: the type is a guess, and what starts with a bracket and has no newline is a JSON
array whatever it goes on with.
-/
import MiniGoAgent.Go.Lines
import MiniGoAgent.Protocol.Redact

open Go

namespace MiniGoAgent

open Regexp (inOrder firstOf literal classOf digits digit space dot wordRune atLeast one many opt
  matchesFront matchesThen atLines)

inductive ContentType where
  | plainText
  | jsonArray
  | buildOutput
  | searchResults
  | gitDiff
  | sourceCode
  deriving DecidableEq, Repr

/-- The constant behind a content type, as `%d` prints it. -/
def ContentType.number : ContentType → Nat
  | .plainText => 0
  | .jsonArray => 1
  | .buildOutput => 2
  | .searchResults => 3
  | .gitDiff => 4
  | .sourceCode => 5

/-! ## The patterns -/

/-- `reBuildLog.MatchString`. -/
def reBuildLog : Str → Bool :=
  atLines (matchesFront (inOrder [digits 4, one (classOf "-/"), digits 2, one (classOf "-/"),
    digits 2, atLeast 1 space, digits 2, literal ":", digits 2]))

/-- `reSearch.MatchString`. -/
def reSearch : Str → Bool :=
  atLines (matchesFront (inOrder [atLeast 1 digit, literal ".", atLeast 1 space, atLeast 1 dot]))

/-- `reGitDiff.MatchString`. -/
def reGitDiff : Str → Bool :=
  atLines (matchesFront
    (firstOf [literal "diff --git", literal "@@ ", literal "--- ", literal "+++ "]))

/-- `reLogLevel.MatchString`, which ignores case; the level must end a word. -/
def reLogLevel : Str → Bool :=
  atLines (matchesThen (fun rest => !rest.head?.any wordRune)
    (firstOf [text "DEBUG", text "INFO", text "WARN", text "ERROR", text "FATAL", text "TRACE"]))

/-- `reURL.MatchString`. -/
def reURL : Str → Bool :=
  atLines (matchesFront (inOrder [atLeast 1 space, literal "URL:", many space, literal "http",
    opt (literal "s"), literal "://"]))

/-! ## The heuristic -/

def isSearchResultLine (line : Str) : Bool := 30 < line.length && contains line (lit "http")

def lineNeedsFurtherCheck (line : Str) : Bool :=
  20 < line.length && line.any (fun c => (lit "=@()[]\x7b\x7d+-<>").contains c)

/-- The lines that are counted before the types are told apart. -/
def isTelling (line : Str) : Bool :=
  reGitDiff line || (reBuildLog line || reLogLevel line) ||
    (reSearch line && isSearchResultLine line) || lineNeedsFurtherCheck line

/-- The loop of `detectContentTypeHeuristic` over the lines that are left. -/
def matchedFrom : Nat → List Str → Nat
  | matched, [] => matched
  | matched, line :: rest =>
    if trimSpace line = [] then matchedFrom matched rest
    else if 5 < matched then matched
    else if isTelling (trimSpace line) then matchedFrom (matched + 1) rest
    else matchedFrom matched rest

inductive LineKind where
  | diff
  | log
  | search
  deriving DecidableEq, Repr

/-- What `detectFromMatched` takes a line for. -/
def lineKind (line : Str) : Option LineKind :=
  if reGitDiff line then some .diff
  else if reBuildLog line || reLogLevel line then some .log
  else if reSearch line || reURL line then some .search
  else none

def countKind (kind : LineKind) (lines : List Str) : Nat :=
  lines.countP (fun line => trimSpace line != [] && lineKind (trimSpace line) == some kind)

def detectFromMatched (lines : List Str) : ContentType :=
  let diffCount := countKind .diff lines
  let logCount := countKind .log lines
  let searchCount := countKind .search lines
  if logCount < diffCount ∧ searchCount < diffCount then .gitDiff
  else if diffCount < logCount ∧ searchCount < logCount then .buildOutput
  else if diffCount < searchCount ∧ logCount < searchCount then .searchResults
  else .plainText

def codePatterns : List Str :=
  [lit "func ", lit "class ", lit "import ", lit "package ", lit "#include", lit "def ", lit "fn ",
   lit "=>", lit "->", lit ";;", lit "if (", lit "for (", lit "while (", lit "```"]

def hasCodePatterns (content : Str) : Bool :=
  2 ≤ codePatterns.countP (fun p => contains content p)

def detectFromContent (content : Str) : ContentType :=
  let trimmed := trimSpace content
  if hasPrefix trimmed (lit "diff --git") || hasPrefix trimmed (lit "--- ") ||
      hasPrefix trimmed (lit "Index: ") then .gitDiff
  else if hasPrefix trimmed (lit "[") && !contains trimmed (lit "\n\x7b") then .jsonArray
  else
    let first := (splitByte newline trimmed).headD []
    if reBuildLog first || reLogLevel first then .buildOutput
    else if 20 < content.count newline && hasCodePatterns content then .sourceCode
    else .plainText

def detectContentTypeHeuristic (content : Str) : ContentType :=
  if (hasPrefix (trimSpace content) (lit "[") || hasPrefix (trimSpace content) (lit "\x7b")) &&
      !contains content (lit "\n") then .jsonArray
  else
    let lines := splitByte newline (trimSpace content)
    if 3 < matchedFrom 0 lines then detectFromMatched lines
    else detectFromContent content

end MiniGoAgent
