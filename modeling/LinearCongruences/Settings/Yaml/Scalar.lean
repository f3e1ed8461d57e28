import LinearCongruences.Hexadecimal
import LinearCongruences.Settings.Yaml.Cursor

/-!
The text of scalars: plain ones, quoted ones, and blocks of lines. A scalar may go over several
lines. The white space inside it is folded: a single break becomes a space, and of several breaks
the first one is dropped.
-/
namespace LinearCongruences.Yaml

def breaks (count : Nat) : String := String.ofList (List.replicate count '\n')

/-- The white space between two parts of a scalar: the blanks behind the first part, or a break
there and the number of further breaks. -/
structure Gap where
  blanks : String
  broken : Bool
  further : Nat
deriving DecidableEq, Repr

namespace Gap

def empty : Gap := ⟨"", false, 0⟩

/-- The gap in the text of a scalar, if it ends at the margin of a line or within a line. -/
def fold (gap : Gap) (atMargin : Bool) : String :=
  if !atMargin then gap.blanks
  else if gap.broken && gap.further == 0 then " "
  else breaks gap.further

def addBlank (gap : Gap) (c : Char) : Gap := { gap with blanks := gap.blanks.push c }

def addBreak (gap : Gap) (atMargin : Bool) : Gap :=
  if atMargin then { gap with further := gap.further + 1 }
  else { gap with blanks := "", broken := true }

end Gap

/-! Plain scalars -/

def isPlain (flow : Bool) (c : Char) (rest : List Char) : Bool :=
  let next := rest.headD '\x00'
  if c == ':' then !(isGap next || (flow && isFlowMark next))
  else !(flow && isFlowMark c)

def plainLength (flow : Bool) : List Char → Nat
  | [] => 0
  | c :: rest => if isGap c || !isPlain flow c rest then 0 else plainLength flow rest + 1

/-- Passes the white space behind a part of a plain scalar. A tab may not stand for indentation. -/
def plainGap (indent : Int) : Nat → Gap → Cursor → Option (Gap × Cursor)
  | 0, gap, c => some (gap, c)
  | steps + 1, gap, c =>
    if isBlank (c.peek 0) then
      if !c.margin then plainGap indent steps (gap.addBlank (c.peek 0)) (c.pass 1)
      else if c.column < indent && c.peek 0 == '\t' then do
        let after ← c.skipBlanks true
        if isLineEnd (after.peek 0) then plainGap indent steps gap after else none
      else plainGap indent steps gap (c.pass 1)
    else if isBreak (c.peek 0) then
      plainGap indent steps (gap.addBreak c.margin) c.skipLine
    else some (gap, c)

/-- Goes on with a plain scalar, whose lines after the first stand at `indent` at least. -/
def plainFrom (flow : Bool) (indent : Int) :
    Nat → String → Gap → Cursor → Option (String × Cursor)
  | 0, _, _, _ => none
  | steps + 1, done, gap, c =>
    if c.atDocumentMark || c.peek 0 == '#' then some (done, c)
    else if flow && c.peek 0 == '-' && isFlowMark (c.peek 1) then none
    else
      let count := plainLength flow c.rest
      let (done, gap, c) :=
        if count = 0 then (done, gap, c)
        else (done ++ gap.fold c.margin ++ String.ofList (c.rest.take count), .empty, c.skip count)
      if isBlank (c.peek 0) || isBreak (c.peek 0) then do
        let (gap, c) ← plainGap indent (c.rest.length + 1) gap c
        if !flow && c.column < indent then some (done, c)
        else plainFrom flow indent steps done gap c
      else some (done, c)

def plain (flow : Bool) (indent : Int) (c : Cursor) : Option (String × Cursor) :=
  plainFrom flow indent (c.rest.length + 1) "" .empty c

/-! Quoted scalars -/

def unescape (letter : Char) : Option Char :=
  match letter with
  | '0' => some '\x00'
  | 'a' => some '\x07'
  | 'b' => some '\x08'
  | 't' => some '\t'
  | '\t' => some '\t'
  | 'n' => some '\n'
  | 'v' => some '\x0b'
  | 'f' => some '\x0c'
  | 'r' => some '\r'
  | 'e' => some '\x1b'
  | ' ' => some ' '
  | '"' => some '"'
  | '/' => some '/'
  | '\\' => some '\\'
  | 'N' => some '\u0085'
  | '_' => some '\u00a0'
  | 'L' => some '\u2028'
  | 'P' => some '\u2029'
  | _ => none

def escape? : List Char → Option (Char × Nat)
  | '\\' :: 'x' :: a :: b :: _ => do
    return (← Hexadecimal.char? (← Hexadecimal.byte? a b), 4)
  | '\\' :: 'u' :: a :: b :: c :: d :: _ => do
    return (← Hexadecimal.char? (← Hexadecimal.unit? a b c d), 6)
  | '\\' :: 'U' :: a :: b :: c :: d :: e :: f :: g :: h :: _ => do
    let high ← Hexadecimal.unit? a b c d
    let low ← Hexadecimal.unit? e f g h
    return (← Hexadecimal.char? (high * 0x10000 + low), 10)
  | '\\' :: letter :: _ => do
    return (← unescape letter, 2)
  | _ => none

/-- Reads on up to a gap or the closing quote. The flag tells whether an escaped break came last,
behind which the scalar goes on at the margin. -/
def quotedPart (single : Bool) : Nat → String → Cursor → Option (String × Bool × Cursor)
  | 0, done, c => some (done, false, c)
  | steps + 1, done, c =>
    match c.rest with
    | [] => some (done, false, c)
    | x :: rest =>
      let next := rest.headD '\x00'
      if isGap x then some (done, false, c)
      else if single && x == '\x27' then
        if next == '\x27' then quotedPart single steps (done.push x) (c.skip 2)
        else some (done, false, c)
      else if !single && x == '"' then some (done, false, c)
      else if !single && x == '\\' then
        if isBreak next then some (done, true, (c.skip 1).skipLine)
        else do
          let (y, length) ← escape? c.rest
          quotedPart single steps (done.push y) (c.skip length)
      else quotedPart single steps (done.push x) (c.skip 1)

/-- Passes the white space inside a quoted scalar. A tab may not stand for indentation. -/
def quotedGap (indent : Int) : Nat → Gap → Bool → Cursor → Option (String × Cursor)
  | 0, gap, atMargin, c => some (gap.fold atMargin, c)
  | steps + 1, gap, atMargin, c =>
    if isBlank (c.peek 0) then
      if !atMargin then quotedGap indent steps (gap.addBlank (c.peek 0)) false (c.pass 1)
      else if c.peek 0 == '\t' && c.column < indent then none
      else quotedGap indent steps gap true (c.pass 1)
    else if isBreak (c.peek 0) then
      quotedGap indent steps (gap.addBreak atMargin) true c.skipLine
    else some (gap.fold atMargin, c)

def quotedFrom (single : Bool) (indent : Int) : Nat → String → Cursor → Option (String × Cursor)
  | 0, _, _ => none
  | steps + 1, done, c =>
    if c.atDocumentMark || c.rest.isEmpty || c.column < indent then none
    else do
      let (done, atMargin, c) ← quotedPart single (c.rest.length + 1) done c
      if c.peek 0 == (if single then '\x27' else '"') then some (done, c)
      else
        let (gap, c) ← quotedGap indent (c.rest.length + 1) .empty atMargin c
        quotedFrom single indent steps (done ++ gap) c

def mayFollowQuoted (flow : Bool) (line : Nat) (c : Cursor) : Bool :=
  let next := c.peek 0
  isLineEnd next || (flow && next ∈ [',', ']', '\x7d', ':']) || (next == ':' && line == c.line)

def quoted (single flow : Bool) (indent : Int) (c : Cursor) : Option (String × Cursor) := do
  let (text, close) ← quotedFrom single indent (c.rest.length + 1) "" (c.skip 1)
  let after ← (close.skip 1).skipBlanks true
  if mayFollowQuoted flow c.line after then some (text, after) else none

/-! Blocks of lines -/

/-- What is done with the breaks at the end of a block. -/
inductive Chomping where
  | strip
  | clip
  | keep
deriving DecidableEq, Repr

structure BlockStyle where
  literal : Bool
  chomping : Chomping
  /-- The indentation that is given beside the indicator, or zero if it is not given. -/
  increment : Nat
deriving DecidableEq, Repr

def chompingOf? (c : Char) : Option Chomping :=
  if c == '+' then some .keep else if c == '-' then some .strip else none

/-- What stands beside the indicator, in either order, and the number of characters. An indentation
of zero is refused. -/
def blockStyle? (literal : Bool) (first second : Char) : Option (BlockStyle × Nat) :=
  let digit (c : Char) : Nat := c.toNat - '0'.toNat
  match chompingOf? first with
  | some chomping =>
    if !second.isDigit then some (⟨literal, chomping, 0⟩, 1)
    else if second == '0' then none
    else some (⟨literal, chomping, digit second⟩, 2)
  | none =>
    if !first.isDigit then some (⟨literal, .clip, 0⟩, 0)
    else if first == '0' then none
    else
      match chompingOf? second with
      | some chomping => some (⟨literal, chomping, digit first⟩, 2)
      | none => some (⟨literal, .clip, digit first⟩, 1)

/-- Passes indentation up to a column, and lines that hold no more. Counts the breaks. -/
def blockIndent (indent : Nat) : Nat → Nat → Cursor → Nat × Cursor
  | 0, count, c => (count, c)
  | steps + 1, count, c =>
    let spaces := ((c.rest.take (indent - c.column)).takeWhile (· == ' ')).length
    let c := c.pass spaces
    if isBreak (c.peek 0) then blockIndent indent steps (count + 1) c.skipLine else (count, c)

/-- Passes the empty lines before a block and the indentation of its first line. Gives the largest
indentation met. -/
def firstIndent : Nat → Nat → Nat → Cursor → Nat × Nat × Cursor
  | 0, indent, count, c => (indent, count, c)
  | steps + 1, indent, count, c =>
    let c := c.pass (c.rest.takeWhile (· == ' ')).length
    let indent := max indent c.column
    if isBreak (c.peek 0) then firstIndent steps indent (count + 1) c.skipLine
    else (indent, count, c)

/-- The lines of a block at its indentation. `fresh` counts breaks since the last line, of which
the first one is told by `broken`. -/
def blockLines (style : BlockStyle) (indent : Nat) :
    Nat → String → Bool → Nat → Bool → Cursor → String × Bool × Nat × Cursor
  | 0, done, broken, further, _, c => (done, broken, further, c)
  | steps + 1, done, broken, further, blankBefore, c =>
    if c.column ≠ indent || c.rest.isEmpty || (indent == 0 && c.atMark '.') then
      (done, broken, further, c)
    else
      let blankNow := isBlank (c.peek 0)
      let gap :=
        if !style.literal && broken && !blankBefore && !blankNow then
          if further == 0 then " " else breaks further
        else breaks (further + broken.toNat)
      let line := c.rest.takeWhile fun c => !isLineEnd c
      let done := done ++ gap ++ String.ofList line
      let after := c.pass line.length
      if after.rest.isEmpty then (done, false, 0, after)
      else
        let (further, next) := blockIndent indent (after.rest.length + 1) 0 after.skipLine
        blockLines style indent steps done true further blankNow next

def block (literal : Bool) (outer : Int) (start : Cursor) : Option (String × Cursor) := do
  let (style, count) ← blockStyle? literal (start.peek 1) (start.peek 2)
  let header ← (start.skip (count + 1)).skipBlanks true
  if !isLineEnd (header.peek 0) then none
  else
    let body := header.skipLine
    if body.peek 0 == '\t' then none
    else
      let steps := body.rest.length + 1
      let (indent, count, c) :=
        if style.increment = 0 then
          let (found, count, c) := firstIndent steps 0 0 body
          (max found (max (outer + 1).toNat (if 0 < outer then 1 else 0)), count, c)
        else
          let indent := (max outer 0).toNat + style.increment
          (indent, blockIndent indent steps 0 body)
      if c.rest.isEmpty then
        let text :=
          if style.chomping = .strip || c.line == start.line then ""
          else if style.chomping = .keep && count > 0 then breaks count
          else breaks (body.line - header.line)
        some (text, c)
      else if c.column < indent && c.column > outer then none
      else
        let (done, broken, further, c) := blockLines style indent steps "" false count false c
        let last :=
          if style.chomping = .strip then ""
          else
            breaks broken.toNat ++
              if c.rest.isEmpty && max indent 1 ≤ c.column then "\n" else ""
        let tail := if style.chomping = .keep then breaks further else ""
        some (done ++ last ++ tail, c)

end LinearCongruences.Yaml
