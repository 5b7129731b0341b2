/-
# `Protocol.Think` — splitting inline reasoning out of the text (`think.go`)

Some vendors put the reasoning into the text itself, between `<think>` and
`</think>`.  The splitter is fed the text delta by delta and returns what of
it is thought and what is visible; thought that is still open waits in `buf`
until its end tag, or the end of the stream, flushes it.
-/
import MiniGoAgent.Protocol.Types

open Go

namespace MiniGoAgent

inductive ThinkState where
  | probe
  | inside
  | passthrough
  deriving DecidableEq, Repr

structure ThinkSplitter where
  state : ThinkState := .probe
  buf : Str := []
  depth : Int := 0
  deriving DecidableEq, Repr

/-- What one push or flush hands out. -/
structure ThinkOut where
  thought : Str := []
  visible : Str := []
  deriving DecidableEq, Repr

def thinkOpen : Str := lit "<think"
def thinkClose : Str := lit "</think>"

/-- `extractThinkTag`: the opening tag at the front of the text, `[]` when it
is not complete. -/
def extractThinkTag (text : Str) : Str :=
  if hasPrefix text (lit "<think>") then lit "<think>"
  else if hasPrefix text (lit "<think ") then
    let rest := text.drop (lit "<think ").length
    match rest.findIdx? (· == byte '>') with
    | some e => text.take (text.length - rest.length + e + 1)
    | none => []
  else []

namespace ThinkSplitter

/-- The end tag was found: leave one level, and hand out what was buffered
with the text before the tag. -/
def close (s : ThinkSplitter) (before : Str) : ThinkSplitter × Str :=
  let depth := s.depth - 1
  ({ state := if depth = 0 then .probe else s.state, buf := [], depth },
    if s.buf.length > 0 then s.buf ++ before else before)

/-- `extractAndEmit`, on top of what is visible already. -/
def extractAndEmit (s : ThinkSplitter) (text visible : Str) : ThinkSplitter × ThinkOut :=
  match cut text thinkClose with
  | some (before, after) =>
    let (s, thought) := s.close before
    (s, { thought, visible := visible ++ after })
  | none => ({ s with buf := s.buf ++ text }, { visible })

def push (s : ThinkSplitter) (text : Str) : ThinkSplitter × ThinkOut :=
  match s.state with
  | .probe =>
    let inner : ThinkSplitter := { s with state := .inside, depth := s.depth + 1 }
    let tag := extractThinkTag text
    if tag ≠ [] then
      match cut text tag with
      | some (before, after) => inner.extractAndEmit after before
      | none => (inner, { visible := text })
    else
      match cut text thinkOpen with
      | some (before, rest) =>
        if hasPrefix rest (lit ">") then inner.extractAndEmit (rest.drop 1) before
        else ({ inner with buf := s.buf ++ rest }, { visible := before })
      | none => ({ s with state := .passthrough }, { visible := text })
  | .inside =>
    match cut text thinkClose with
    | some (before, after) =>
      let (s, thought) := s.close before
      (s, { thought, visible := after })
    | none => ({ s with buf := s.buf ++ text }, {})
  | .passthrough => (s, { visible := text })

/-- `flush`: what is still buffered, and a splitter that starts over. -/
def flush (s : ThinkSplitter) : ThinkSplitter × ThinkOut := ({}, { thought := s.buf })

end ThinkSplitter

example : (ThinkSplitter.push {} (lit "<think>reasoning</think>answer")).2 =
    { thought := lit "reasoning", visible := lit "answer" } := by decide +kernel

end MiniGoAgent
