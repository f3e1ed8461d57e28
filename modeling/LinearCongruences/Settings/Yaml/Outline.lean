import LinearCongruences.Settings.Yaml.Token

/-!
The outline of a YAML text: its tokens, with the beginnings and ends of block collections where
the indentation changes. A node may turn out to be a key only when its colon is met, so the place
of each node that could be one is kept, and the tokens of the mapping are put in there later.
-/
namespace LinearCongruences.Yaml

/-- The indentation around a nested one. A level that closes nothing stands for the indentation
that a nested node needs before it is known whether it is a collection. -/
structure Level where
  outer : Int
  closes : Bool
deriving DecidableEq, Repr

/-- A node that may be a key. In a block a node that begins a line of a mapping has to be one. -/
structure Candidate where
  possible : Bool
  required : Bool
  /-- The number of tokens before the node. -/
  place : Nat
  index : Nat
  line : Nat
  column : Nat
deriving DecidableEq, Repr

def Candidate.none : Candidate := ⟨false, false, 0, 0, 0, 0⟩

def Candidate.giveUp (c : Candidate) : Candidate := { c with possible := false }

structure Outline where
  cursor : Cursor
  /-- The tokens so far, with the columns where they stand. -/
  tokens : Array (Token × Nat)
  indent : Int
  /-- The innermost level comes first. -/
  levels : List Level
  keyAllowed : Bool
  /-- The last candidate, in the innermost flow collection first and in the block last. -/
  candidates : List Candidate
  depth : Nat
  /-- Whether a pair without braces is open, for each open flow sequence, the innermost first. -/
  pairs : List Bool
  /-- Whether the braces of a mapping, or a question mark in its place, came last. -/
  braced : Bool
  /-- Where a value may follow its colon without a blank. -/
  adjacent : Nat
deriving DecidableEq, Repr

namespace Outline

def start (text : String) : Outline where
  cursor := .ofText text
  tokens := #[]
  indent := -1
  levels := []
  keyAllowed := true
  candidates := [.none]
  depth := 0
  pairs := []
  braced := false
  adjacent := 0

def inFlow (o : Outline) : Bool := o.depth > 0

def moveTo (o : Outline) (c : Cursor) : Outline := { o with cursor := c }

def skip (o : Outline) (count : Nat) : Outline := o.moveTo (o.cursor.skip count)

/-- Passes the end of a line. In a block a key may begin behind it. -/
def skipLine (o : Outline) : Outline :=
  { o with cursor := o.cursor.skipLine, keyAllowed := o.keyAllowed || !o.inFlow }

def push (o : Outline) (token : Token) (column : Nat) : Outline :=
  { o with tokens := o.tokens.push (token, column) }

/-- Puts a token before those that came after a place. -/
def insert (o : Outline) (place : Nat) (token : Token) (column : Nat) : Outline :=
  { o with tokens := o.tokens.insertIdxIfInBounds place (token, column) }

def candidate (o : Outline) : Candidate := o.candidates.headD .none

def setCandidate (o : Outline) (c : Candidate) : Outline :=
  { o with candidates := c :: o.candidates.tail }

def noteCandidate (o : Outline) : Outline :=
  if o.keyAllowed then
    let closing := (o.levels.head?.map Level.closes).getD false
    let c := o.cursor
    o.setCandidate {
      possible := true
      required := !o.inFlow && o.indent == c.column && closing
      place := o.tokens.size
      index := c.index
      line := c.line
      column := c.column }
  else o

/-- Gives the last candidate up, unless it has to be a key. -/
def dropCandidate (o : Outline) : Option Outline :=
  let c := o.candidate
  if c.possible && c.required then none
  else some (o.setCandidate c.giveUp)

/-- Gives up a candidate in the block whose colon is too far away: on another line, or more than
1024 characters off. -/
def dropStale (o : Outline) : Option Outline :=
  let isStale (c : Candidate) : Bool :=
    c.possible && !o.inFlow && (c.line < o.cursor.line || c.index + 1024 < o.cursor.index)
  if o.candidates.any fun c => isStale c && c.required then none
  else
    some { o with candidates := o.candidates.map fun c => if isStale c then c.giveUp else c }

/-! Indentation -/

/-- Leaves the levels that are not collections. -/
def leaveLoose (o : Outline) : Outline :=
  let loose := o.levels.takeWhile fun l => !l.closes
  match loose.getLast? with
  | none => o
  | some last => { o with indent := last.outer, levels := o.levels.drop loose.length }

def enterLoose (o : Outline) : Outline :=
  match o.levels with
  | ⟨_, true⟩ :: _ =>
    if o.inFlow then o
    else { o with levels := ⟨o.indent, false⟩ :: o.levels, indent := o.indent + 1 }
  | _ => o

/-- Begins a collection at a column, unless one has begun there. Its token stands at `place`. -/
def enter (o : Outline) (column place : Nat) (token : Token) : Outline :=
  if o.inFlow then o
  else
    let o : Outline :=
      match o.levels with
      | ⟨outer, false⟩ :: levels =>
        if o.indent ≤ column then { o with indent := outer, levels := levels } else o
      | _ => o
    if o.indent < column then
      { o.insert place token column with
        levels := ⟨o.indent, true⟩ :: o.levels
        indent := column }
    else o

/-- Ends all levels beyond a column, of which there are at most `count`. -/
def leaveTo (o : Outline) (column : Int) : Nat → Outline
  | 0 => o
  | count + 1 =>
    match o.levels with
    | [] => o
    | level :: levels =>
      if o.inFlow || o.indent ≤ column then o
      else
        let next : Outline := { o with indent := level.outer, levels := levels }
        let next := if level.closes then next.push .blockEnd o.cursor.column else next
        next.leaveTo column count

def leave (o : Outline) (column : Int) : Outline :=
  o.leaveTo column o.levels.length

/-! What stands between tokens -/

/-- Passes blanks, breaks and comments. A tab may not stand for indentation. -/
def toToken (o : Outline) : Nat → Option Outline
  | 0 => some o
  | steps + 1 =>
    let c := o.cursor
    let x := c.peek 0
    if x == '\t' && !o.levels.isEmpty && c.margin && c.column < o.indent then do
      let after ← c.skipBlanks true
      if isLineEnd (after.peek 0) then (o.moveTo after).toToken steps else none
    else if isBlank x then (o.moveTo (c.pass 1)).toToken steps
    else if isBreak x then o.skipLine.toToken steps
    else if x == '#' then (o.moveTo c.skipComment).toToken steps
    else some o

def nextToken (o : Outline) : Option Outline :=
  o.toToken (o.cursor.rest.length + 1)

/-- Passes spaces, breaks and comments behind the mark of a key, of which one has to be there. A
tab is refused. -/
def afterKeyMark (o : Outline) (met : Bool) : Nat → Option Outline
  | 0 => none
  | steps + 1 =>
    let c := o.cursor
    let x := c.peek 0
    if x == ' ' then (o.moveTo (c.pass 1)).afterKeyMark true steps
    else if isBreak x then o.skipLine.afterKeyMark true steps
    else if x == '#' then (o.moveTo c.skipComment).afterKeyMark met steps
    else if met && x != '\t' then some o
    else none

def restOfLine (o : Outline) (tabs : Bool) : Option Outline := do
  return { o with cursor := ← o.cursor.skipBlanks tabs }

/-! Nodes -/

def addProperty (o : Outline) (found : Option (Token × Cursor)) : Option Outline := do
  let (token, after) ← found
  let noted := o.noteCandidate
  return { noted.push token o.cursor.column with cursor := after, keyAllowed := false }

def addPlain (o : Outline) : Option Outline := do
  let noted := o.noteCandidate.leaveLoose
  let column := o.cursor.column
  if o.inFlow && column < noted.indent + 1 then none
  else
    let (text, after) ← plain o.inFlow (noted.indent + 1) o.cursor
    return { noted.push (.scalar true text) column with
      cursor := after, keyAllowed := after.margin }

def addQuoted (o : Outline) (single : Bool) : Option Outline := do
  let noted := o.noteCandidate
  let (text, after) ← quoted single o.inFlow o.indent o.cursor
  let next ← { noted with cursor := after, keyAllowed := false }.nextToken
  return { next.push (.scalar false text) o.cursor.column with adjacent := next.cursor.index }

def addBlock (o : Outline) (literal : Bool) : Option Outline := do
  let noted := o.noteCandidate.leaveLoose
  let (text, after) ← block literal noted.indent o.cursor
  return { noted.push (.scalar false text) o.cursor.column with
    cursor := after, keyAllowed := true }

/-! Indicators -/

def maxDepth : Nat := 255

def openFlow (o : Outline) (token : Token) : Option Outline := do
  let column := o.cursor.column
  let entered := o.noteCandidate.enterLoose
  if o.depth ≥ maxDepth then none
  else
    let inner := { entered with
      candidates := .none :: entered.candidates
      depth := o.depth + 1
      keyAllowed := true
      braced := o.braced || token == Token.flowMapping
      pairs := if token = Token.flowMapping then o.pairs else false :: o.pairs }
    return (← (inner.skip 1).restOfLine true).push token column

def endPair (o : Outline) : Outline :=
  match o.pairs with
  | true :: pairs =>
    { o with pairs := false :: pairs, braced := false }.push .flowMappingEnd o.cursor.column
  | _ => o

def closeFlow (o : Outline) (token : Token) : Option Outline := do
  let column := o.cursor.column
  let dropped ← o.dropCandidate
  let outer :=
    if o.inFlow then { dropped with candidates := dropped.candidates.tail, depth := o.depth - 1 }
    else dropped
  let ended :=
    if token = Token.flowSequenceEnd then { outer.endPair with pairs := outer.pairs.tail }
    else outer
  let next ← ({ ended with keyAllowed := false }.skip 1).restOfLine true
  let next := if next.inFlow then { next with adjacent := next.cursor.index } else next
  return next.push token column

def addFlowEntry (o : Outline) : Option Outline := do
  let column := o.cursor.column
  let ended := (← o.dropCandidate).endPair
  let next ← ({ ended with keyAllowed := true }.skip 1).restOfLine true
  return next.push .flowEntry column

/-- Whether the last token is a tag or a name at the beginning of its line. -/
def endsWithProperty (o : Outline) : Bool :=
  match o.tokens.back? with
  | some (token, column) => token.isProperty && column == 0
  | none => false

def addBlockEntry (o : Outline) : Option Outline := do
  let column := o.cursor.column
  if o.inFlow || !o.keyAllowed then none
  else if column == 0 && o.endsWithProperty && o.indent > -1 then none
  else
    let entered := (o.skip 1).enter column o.tokens.size .blockSequence
    let behind ← entered.restOfLine true
    let blanks := (entered.cursor.rest.takeWhile isBlank)
    let c := behind.cursor
    if blanks.contains '\t' && c.peek 0 == '-' && isGap (c.peek 1) then none
    else
      let nested :=
        if isBreak (c.peek 0) || isFlowMark (c.peek 0) then behind.enterLoose else behind
      let dropped ← nested.dropCandidate
      return ({ dropped with keyAllowed := true } : Outline).push .blockEntry c.column

def addKey (o : Outline) : Option Outline := do
  let column := o.cursor.column
  if !o.inFlow && !o.keyAllowed then none
  else
    let entered :=
      if o.inFlow then { o with braced := true }
      else o.enter column o.tokens.size .blockMapping
    let dropped ← entered.dropCandidate
    let next ← ({ dropped with keyAllowed := !o.inFlow }.skip 1).afterKeyMark false
      (o.cursor.rest.length + 1)
    return next.push .key column

/-- Passes a colon. A tab behind it may not be all that separates it from a word. -/
def afterColon (o : Outline) : Option Outline :=
  let next := o.skip 1
  if next.cursor.peek 0 != '\t' then some next
  else do
    let behind ← next.restOfLine true
    let spaced := (next.cursor.rest.takeWhile isBlank).contains ' '
    if !spaced && isWordMark (behind.cursor.peek 0) then none else some behind

/-- A colon behind the last candidate, which is its key. `opens` tells that a pair begins. -/
def addValueOf (o : Outline) (c : Candidate) (opens : Bool) (line : Nat) : Option Outline :=
  let keyed := o.insert c.place .key c.column
  if opens && c.line < line then none
  else
    let opened := if opens then keyed.insert c.place .flowMapping c.column else keyed
    let entered := (opened.enter c.column c.place .blockMapping).enterLoose
    some { entered.setCandidate c.giveUp with keyAllowed := false }

def addValueAlone (o : Outline) (opens : Bool) (column : Nat) : Option Outline :=
  let opened := if opens then o.push .flowMapping column else o
  if o.inFlow then some { opened with keyAllowed := false }
  else if !o.keyAllowed then none
  else
    let entered := (opened.enter column opened.tokens.size .blockMapping).enterLoose
    some { entered with keyAllowed := true }

def addValue (o : Outline) : Option Outline := do
  let c := o.candidate
  let column := o.cursor.column
  let opens := !o.pairs.isEmpty && !o.braced
  let marked := if opens then { o with pairs := true :: o.pairs.tail } else o
  let next ← marked.afterColon
  let added ←
    if c.possible then next.addValueOf c opens o.cursor.line
    else next.addValueAlone opens column
  return added.push .value column

/-- A colon in a flow collection that no gap follows. Unless its key is quoted or a collection, no
collection may follow it. -/
def addFlowValue (o : Outline) : Option Outline :=
  let next := o.cursor.peek 1
  if o.cursor.index != o.adjacent && (next == '[' || next == '\x7b') then none else o.addValue

def outside (o : Outline) : Option Outline := do
  let dropped ← (o.leave (-1)).dropCandidate
  return { dropped with keyAllowed := false }

def addDirective (o : Outline) : Option Outline := do
  let left ← o.outside
  let (token, after) ← directive? o.cursor
  return { left.push token 0 with cursor := after }

def addDocumentStart (o : Outline) : Option Outline := do
  let left ← o.outside
  return (left.skip 3).push .documentStart 0

/-- The end of a document, behind which its line is empty. -/
def addDocumentEnd (o : Outline) : Option Outline := do
  let left ← o.outside
  let next ← ((left.skip 3).push .documentEnd 0).restOfLine true
  if isLineEnd (next.cursor.peek 0) then some next else none

/-- The end of the text. No candidate may be left that has to be a key. -/
def finish (o : Outline) : Option Outline :=
  if o.candidates.any fun c => c.possible && c.required then none
  else
    let given := { o with candidates := o.candidates.map Candidate.giveUp }
    some ((given.leave (-1)).push .textEnd 0)

def addToken (o : Outline) : Option Outline :=
  let c := o.cursor
  let next := c.peek 1
  match c.peek 0 with
  | '[' => o.openFlow .flowSequence
  | '\x7b' => o.openFlow .flowMapping
  | ']' => o.closeFlow .flowSequenceEnd
  | '\x7d' => o.closeFlow .flowMappingEnd
  | ',' => o.addFlowEntry
  | '*' => o.addProperty ((name? c).map fun (name, after) => (.alias name, after))
  | '&' => o.addProperty ((name? c).map fun (name, after) => (.anchor name, after))
  | '!' => o.addProperty (tag? o.inFlow c)
  | '\x27' => o.addQuoted true
  | '"' => o.addQuoted false
  | '%' => none
  | '@' => none
  | '\x60' => none
  | '-' => if isGap next then o.addBlockEntry else o.addPlain
  | '?' => if isGap next then o.addKey else o.addPlain
  | ':' =>
    if isGap next then o.addValue
    else if o.inFlow && (isFlowMark next || c.index == o.adjacent) then o.addFlowValue
    else o.addPlain
  | '|' => if o.inFlow then o.addPlain else o.addBlock true
  | '>' => if o.inFlow then o.addPlain else o.addBlock false
  | _ => o.addPlain

def step (o : Outline) : Option Outline :=
  let c := o.cursor
  if c.column == 0 && c.peek 0 == '%' then o.addDirective
  else if c.atMark '-' then o.addDocumentStart
  else if c.atMark '.' then o.addDocumentEnd
  else if c.column < o.indent then none
  else o.addToken

def complete (o : Outline) : Nat → Option Outline
  | 0 => none
  | steps + 1 => do
    let next ← (← o.nextToken).dropStale
    let level := next.leave next.cursor.column
    if level.cursor.rest.isEmpty then level.finish else (← level.step).complete steps

end Outline

/-- The tokens of a text, of which the last one stands for its end. -/
def tokens? (text : String) : Option (List Token) := do
  let outline ← (Outline.start text).complete (text.length + 2)
  return outline.tokens.toList.map Prod.fst

end LinearCongruences.Yaml
