import LinearCongruences.Settings.Yaml.Scalar

/-!
What a YAML text consists of: the indicators as they are written, the beginnings and ends of
collections that indentation implies, and the tags and names of nodes.
-/
namespace LinearCongruences.Yaml

inductive Token where
  | version
  | tagPrefix (handle text : String)
  | documentStart
  | documentEnd
  | blockSequence
  | blockMapping
  | blockEnd
  | flowSequence
  | flowSequenceEnd
  | flowMapping
  | flowMappingEnd
  | blockEntry
  | flowEntry
  | key
  | value
  | alias (name : String)
  | anchor (name : String)
  | tag (handle suffix : String)
  | scalar (isPlain : Bool) (text : String)
  | textEnd
deriving DecidableEq, Repr, Inhabited

def Token.isProperty : Token → Bool
  | .anchor _ => true
  | .tag .. => true
  | _ => false

/-! Names of nodes -/

def isNameMark (c : Char) : Bool :=
  !(isGap c || isFlowMark c || c == '\ufeff')

def name? (c : Cursor) : Option (String × Cursor) :=
  let (name, after) := (c.skip 1).takeWhile isNameMark
  if name.isEmpty then none else some (name, after)

/-! Tags -/

def isWordMark (c : Char) : Bool := c.isAlphanum || c == '_' || c == '-'

def isAddressMark (c : Char) : Bool :=
  isWordMark c || c ∈ ['#', ';', '/', '?', ':', '@', '&', '=', '+', '$', ',', '.', '!', '~', '*',
    '\x27', '(', ')', '[', ']', '%']

def isTagMark (c : Char) : Bool :=
  isAddressMark c && !isFlowMark c && c != '!'

def byteCount? (byte : Nat) : Option Nat :=
  if byte < 0x80 then some 1
  else if byte / 0x20 = 6 then some 2
  else if byte / 0x10 = 14 then some 3
  else if byte / 0x08 = 30 then some 4
  else none

def byte? : List Char → Option Nat
  | '%' :: a :: b :: _ => Hexadecimal.byte? a b
  | _ => none

/-- Further bytes of an escaped character. They are put together as they stand. -/
def moreBytes? (code : Nat) : Nat → Cursor → Option (Nat × Cursor)
  | 0, c => some (code, c)
  | count + 1, c => do
    let byte ← byte? c.rest
    if byte / 0x40 = 2 then moreBytes? (code * 0x100 + byte) count (c.skip 3) else none

def escapedMark? (c : Cursor) : Option (Char × Cursor) := do
  let byte ← byte? c.rest
  let count ← byteCount? byte
  let (code, after) ← moreBytes? byte (count - 1) (c.skip 3)
  return (← Hexadecimal.char? code, after)

/-- A run of certain characters, among them escaped ones. -/
def marks? (accept : Char → Bool) : Nat → String → Cursor → Option (String × Cursor)
  | 0, done, c => some (done, c)
  | steps + 1, done, c =>
    let next := c.peek 0
    if !accept next then some (done, c)
    else if next == '%' then do
      let (x, after) ← escapedMark? c
      marks? accept steps (done.push x) after
    else marks? accept steps (done.push next) (c.skip 1)

def marksOf? (accept : Char → Bool) (done : String) (c : Cursor) : Option (String × Cursor) :=
  marks? accept (c.rest.length + 1) done c

/-- A handle: an exclamation mark, and a word and a second mark behind it if they are there. -/
def handle? (c : Cursor) : Option (String × Cursor) :=
  if c.peek 0 != '!' then none
  else
    let (word, after) := (c.skip 1).takeWhile isWordMark
    if after.peek 0 == '!' then some ("!" ++ word ++ "!", after.skip 1)
    else some ("!" ++ word, after)

/-- The handle and the suffix of a tag. A single mark is its own suffix. -/
def tagParts? (c : Cursor) : Option (String × String × Cursor) := do
  if c.peek 1 == '<' then
    let (address, after) ← marksOf? isAddressMark "" (c.skip 2)
    if after.peek 0 == '>' then return ("", address, after.skip 1) else none
  else
    let (handle, after) ← handle? c
    if handle.length ≥ 2 ∧ handle.endsWith "!" then
      let (suffix, after) ← marksOf? isTagMark "" after
      if suffix.isEmpty then none else return (handle, suffix, after)
    else
      let (suffix, after) ← marksOf? isTagMark (handle.drop 1).toString after
      if suffix.isEmpty then return ("", "!", after) else return ("!", suffix, after)

/-- A tag, which a gap follows or, in a flow collection, one of its marks. -/
def tag? (flow : Bool) (c : Cursor) : Option (Token × Cursor) := do
  let (handle, suffix, after) ← tagParts? c
  let next := after.peek 0
  if isGap next || (flow && isFlowMark next) then return (.tag handle suffix, after) else none

/-! Directives -/

def versionNumber? (c : Cursor) : Option Cursor :=
  let (digits, after) := c.takeWhile Char.isDigit
  if digits.isEmpty || digits.length > 9 then none else some after

def passBlanks (c : Cursor) : Cursor :=
  c.pass (c.rest.takeWhile isBlank).length

def version? (c : Cursor) : Option (Token × Cursor) := do
  let afterMajor ← versionNumber? (passBlanks c)
  if afterMajor.peek 0 != '.' then none
  else return (.version, ← versionNumber? (afterMajor.skip 1))

/-- A prefix for tags: an exclamation mark or an address mark comes first. -/
def tagText? (c : Cursor) : Option (String × Cursor) :=
  if c.peek 0 == '!' then marksOf? isAddressMark "!" (c.skip 1)
  else if isTagMark (c.peek 0) then marksOf? isAddressMark "" c
  else none

def tagPrefix? (c : Cursor) : Option (Token × Cursor) := do
  let (handle, after) ← handle? (passBlanks c)
  if handle != "!" && !(handle.endsWith "!") then none
  else
    let (text, after) ← tagText? (passBlanks after)
    if isGap (after.peek 0) then return (.tagPrefix handle text, after) else none

/-- A line that says something about the document. Unknown words are passed over. -/
def directive? (c : Cursor) : Option (Token × Cursor) := do
  let (word, after) := (c.skip 1).takeWhile isWordMark
  if word.isEmpty || !isGap (after.peek 0) then none
  else
    let (token, after) ←
      if word == "YAML" then version? after
      else if word == "TAG" then tagPrefix? after
      else some (.tagPrefix "" "", after.skipComment)
    let rest ← after.skipBlanks true
    if isLineEnd (rest.peek 0) then return (token, rest.skipLine) else none

end LinearCongruences.Yaml
