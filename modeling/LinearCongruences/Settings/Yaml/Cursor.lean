/-!
A place in a YAML text, with its line and column. Blanks may stand before anything, so the place
also knows whether anything but blanks has been met on its line.
-/
namespace LinearCongruences.Yaml

def isBlank (c : Char) : Bool := c == ' ' || c == '\t'

def isBreak (c : Char) : Bool := c == '\n' || c == '\r'

/-- The end of the text reads as a null character, which no text holds. -/
def isEnd (c : Char) : Bool := c == '\x00'

def isLineEnd (c : Char) : Bool := isBreak c || isEnd c

def isGap (c : Char) : Bool := isBlank c || isLineEnd c

def isFlowMark (c : Char) : Bool := c ∈ [',', '[', ']', '\x7b', '\x7d']

structure Cursor where
  rest : List Char
  index : Nat
  line : Nat
  column : Nat
  /-- Only blanks stand before this place on its line. -/
  margin : Bool
deriving DecidableEq, Repr

namespace Cursor

/-- The beginning of a text, which ends before a null character. -/
def ofText (text : String) : Cursor :=
  ⟨text.toList.takeWhile fun c => !isEnd c, 0, 0, 0, true⟩

def peek (c : Cursor) (ahead : Nat) : Char := c.rest.getD ahead '\x00'

/-- Passes characters that may be blanks. -/
def pass (c : Cursor) (count : Nat) : Cursor :=
  { c with rest := c.rest.drop count, index := c.index + count, column := c.column + count }

/-- Passes characters that are not blanks. -/
def skip (c : Cursor) (count : Nat) : Cursor :=
  { c.pass count with margin := c.margin && count == 0 }

def skipLine (c : Cursor) : Cursor :=
  let next (count : Nat) (rest : List Char) : Cursor :=
    ⟨rest, c.index + count, c.line + 1, 0, true⟩
  match c.rest with
  | '\r' :: '\n' :: rest => next 2 rest
  | '\n' :: rest => next 1 rest
  | '\r' :: rest => next 1 rest
  | _ => c

def skipComment (c : Cursor) : Cursor :=
  c.skip (c.rest.takeWhile fun c => !isLineEnd c).length

def takeWhile (c : Cursor) (accept : Char → Bool) : String × Cursor :=
  let run := c.rest.takeWhile accept
  (String.ofList run, c.skip run.length)

/-- Passes spaces, and tabs if they are allowed, and a comment behind them. A comment right behind
something else is refused. -/
def skipBlanks (c : Cursor) (tabs : Bool) : Option Cursor :=
  let blanks := c.rest.takeWhile fun c => c == ' ' || (tabs && c == '\t')
  let after := c.pass blanks.length
  if after.peek 0 != '#' then some after
  else if blanks.isEmpty then none
  else some after.skipComment

def atMark (c : Cursor) (mark : Char) : Bool :=
  c.column == 0 && c.rest.take 3 == [mark, mark, mark] && isGap (c.peek 3)

def atDocumentMark (c : Cursor) : Bool := c.atMark '-' || c.atMark '.'

end Cursor

end LinearCongruences.Yaml
