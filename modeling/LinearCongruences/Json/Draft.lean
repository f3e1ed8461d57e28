import LinearCongruences.Json.Token

/-!
A text is read into a draft: the document as far as it could be read, with the problem that ended
the reading in its place. A draft without problem is a value. A reader that wants a certain shape
can walk a draft in the order of the text, and so meets the first problem first, whether it lies
in the text or in the shape.
-/
namespace LinearCongruences.Json

/-- A container without closing bracket names the problem that stands after its last entry. -/
inductive Draft where
  | scalar (value : Scalar)
  | array (items : List Draft) (stop : Option Problem)
  | object (members : List (String × Draft)) (stop : Option Problem)
  | broken (problem : Problem)
deriving Repr

namespace Draft

def closed {α : Type} (entries : List α) : Option Problem → Except Problem (List α)
  | none => .ok entries
  | some problem => .error problem

mutual

/-- The value of a draft, or its first problem. -/
def value : Draft → Except Problem Value
  | .scalar v => .ok (.scalar v)
  | .array items stop => do
    let items ← closed (← valueItems items) stop
    return .array items
  | .object members stop => do
    let members ← closed (← valueMembers members) stop
    return .object members
  | .broken problem => .error problem

def valueItems : List Draft → Except Problem (List Value)
  | [] => .ok []
  | item :: rest => do
    let first ← item.value
    let others ← valueItems rest
    return first :: others

def valueMembers : List (String × Draft) → Except Problem (List (String × Value))
  | [] => .ok []
  | (key, member) :: rest => do
    let first ← member.value
    let others ← valueMembers rest
    return (key, first) :: others

end

end Draft

/-- A container that is still open, its entries last first. An object waits for a key or, once the
key is there, for its value. -/
inductive Frame where
  | array (items : List Draft)
  | object (members : List (String × Draft))
  | member (members : List (String × Draft)) (key : String)
deriving Repr

namespace Frame

def add : Frame → Draft → Frame
  | .array items, d => .array (d :: items)
  | .member members key, d => .object ((key, d) :: members)
  | .object members, _ => .object members

def close : Frame → Option Problem → Draft
  | .array items, stop => .array items.reverse stop
  | .object members, stop => .object members.reverse stop
  | .member members _, stop => .object members.reverse stop

end Frame

inductive Place where
  | value
  | firstItem
  | firstKey
  | key
  | colon
  | separator
deriving DecidableEq, Repr

/-- The state between two tokens: within the document, in containers of which the innermost comes
first, or after it. -/
inductive Progress where
  | reading (place : Place) (frames : List Frame)
  | finished (root : Draft) (after : Option Problem)
deriving Repr

namespace Progress

def maxDepth : Nat := 127

def start : Progress := .reading .value []

/-- Hands a draft to the innermost container. Without one it is the document. -/
def deliver (d : Draft) : List Frame → Progress
  | [] => .finished d none
  | frame :: frames => .reading .separator (frame.add d :: frames)

def abandon (problem : Problem) (d : Draft) : List Frame → Draft
  | [] => d
  | frame :: frames => abandon problem ((frame.add d).close (some problem)) frames

/-- Ends the reading. The problem stands for the value that should have come, or after the entries
of the innermost container. -/
def fail (problem : Problem) (place : Place) (frames : List Frame) : Progress :=
  match place, frames with
  | .firstKey, frame :: frames | .key, frame :: frames | .separator, frame :: frames =>
    .finished (abandon problem (frame.close (some problem)) frames) none
  | _, frames => .finished (abandon problem (.broken problem) frames) none

def enter (place : Place) (frame : Frame) (next : Place) (frames : List Frame) : Progress :=
  if frames.length < maxDepth then .reading next (frame :: frames)
  else fail .illFormed place frames

def leave : List Frame → Progress
  | [] => fail .illFormed .separator []
  | frame :: frames => deliver (frame.close none) frames

def takeValue (place : Place) (frames : List Frame) : Token → Progress
  | .scalar v => deliver (.scalar v) frames
  | .openArray => enter place (.array []) .firstItem frames
  | .openObject => enter place (.object []) .firstKey frames
  | .broken _ problem => fail problem place frames
  | _ => fail .illFormed place frames

def takeKey (place : Place) (frames : List Frame) (token : Token) : Progress :=
  match token, frames with
  | .scalar (.text key), .object members :: frames =>
    .reading .colon (.member members key :: frames)
  | .broken true problem, _ => fail problem place frames
  | _, _ => fail .illFormed place frames

def takeSeparator (frames : List Frame) (token : Token) : Progress :=
  match token, frames with
  | .comma, .array _ :: _ => .reading .value frames
  | .comma, .object _ :: _ => .reading .key frames
  | .closeArray, .array _ :: _ => leave frames
  | .closeObject, .object _ :: _ => leave frames
  | _, _ => fail .illFormed .separator frames

/-- Anything after the document is a problem. -/
def step : Progress → Token → Progress
  | .finished root _, _ => .finished root (some .illFormed)
  | .reading .value frames, token => takeValue .value frames token
  | .reading .firstItem frames, token =>
    if token = .closeArray then leave frames else takeValue .firstItem frames token
  | .reading .firstKey frames, token =>
    if token = .closeObject then leave frames else takeKey .firstKey frames token
  | .reading .key frames, token => takeKey .key frames token
  | .reading .colon frames, token =>
    if token = .colon then .reading .value frames else fail .illFormed .colon frames
  | .reading .separator frames, token => takeSeparator frames token

def stop : Progress → Progress
  | .reading place frames => fail .endOfText place frames
  | .finished root after => .finished root after

end Progress

structure Document where
  root : Draft
  after : Option Problem
deriving Repr

namespace Document

def ofTokens (tokens : List Token) : Document :=
  match (tokens.foldl Progress.step Progress.start).stop with
  | .finished root after => ⟨root, after⟩
  | .reading .. => ⟨.broken .endOfText, none⟩

def ofChars (cs : List Char) : Document := ofTokens (Token.all cs)

def ofText (text : String) : Document := ofChars text.toList

def read {α : Type} (d : Document) (reader : Draft → Except Problem α) : Except Problem α := do
  let found ← reader d.root
  match d.after with
  | none => return found
  | some problem => .error problem

end Document

end LinearCongruences.Json
