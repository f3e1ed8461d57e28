/-!
JSON documents as trees. Objects keep their members in the order of the text, repeated keys
included, so that a reader can decide what a repeated key means.
-/
namespace LinearCongruences.Json

/-- What is wrong with a text: it ends too early, it is no JSON, or it is JSON of another shape
than the one that was asked for. -/
inductive Problem where
  | endOfText
  | illFormed
  | wrongShape
deriving DecidableEq, Repr

/-- Whole numbers of at most one word are kept as integers. All others are kept as
`significand * 10 ^ exponent`, with a sign of their own. -/
inductive Number where
  | integer (value : Int)
  | decimal (negative : Bool) (significand : Nat) (exponent : Int)
deriving DecidableEq, Repr

inductive Scalar where
  | null
  | bool (value : Bool)
  | number (value : Number)
  | text (value : String)
deriving DecidableEq, Repr

inductive Value where
  | scalar (value : Scalar)
  | array (items : List Value)
  | object (members : List (String × Value))
deriving Repr

namespace Value

@[match_pattern]
abbrev null : Value := .scalar .null

@[match_pattern]
abbrev text (s : String) : Value := .scalar (.text s)

@[match_pattern]
abbrev integer (z : Int) : Value := .scalar (.number (.integer z))

def natural (n : Nat) : Value := .integer n

def naturals (ns : List Nat) : Value := .array (ns.map natural)

end Value

end LinearCongruences.Json
