import LinearCongruences.Checked
import LinearCongruences.Decimal

/-!
Settings as they stand in files and in the environment, before it is known what they are for. A
setting is put into a tree under its key; a later one wins over an earlier one. Keys are compared
without regard to case. Each setting is read liberally: many texts and numbers will do for a flag.
-/
namespace LinearCongruences

inductive Setting where
  | null
  | flag (value : Bool)
  | integer (value : Int)
  | real (value : Float)
  | text (value : String)
  | list (items : List Setting)
  | table (entries : List (String × Setting))
deriving Repr, Inhabited

namespace Setting

def entries : Setting → List (String × Setting)
  | .table entries => entries
  | _ => []

def items : Setting → List Setting
  | .list items => items
  | _ => []

def lookup (key : String) (entries : List (String × Setting)) : Option Setting :=
  (entries.find? fun e => e.1 == key).map Prod.snd

def replace (key : String) (value : Setting) :
    List (String × Setting) → List (String × Setting)
  | [] => [(key, value)]
  | e :: rest => if e.1 = key then (key, value) :: rest else e :: replace key value rest

mutual

/-- Puts a setting under a key. A table is put in entry by entry, into whatever table is there
already, so an empty one changes nothing that is there. -/
def put (entries : List (String × Setting)) (key : String) : Setting → List (String × Setting)
  | .table inner =>
    match lookup key.toLower entries with
    | none => replace key.toLower (.table (putAll [] inner)) entries
    | some there =>
      if inner.isEmpty then entries
      else replace key.toLower (.table (putAll there.entries inner)) entries
  | value => replace key.toLower value entries

def putAll (entries : List (String × Setting)) :
    List (String × Setting) → List (String × Setting)
  | [] => entries
  | (key, value) :: rest => putAll (put entries key value) rest

end

def integerText? (text : String) : Option Int :=
  let digits? (cs : List Char) : Option Nat :=
    if cs.isEmpty || !cs.all Char.isDigit then none else some (Nat.ofDigitChars 10 cs 0)
  match text.toList with
  | '-' :: cs => (digits? cs).map fun n => -(n : Int)
  | '+' :: cs => (digits? cs).map fun n => (n : Int)
  | cs => (digits? cs).map fun n => (n : Int)

def word? (text : String) : Option Int := do
  Checked.signedWord? (← integerText? text)

def mantissa? (cs : List Char) : Option (Nat × Nat × List Char) :=
  let whole := cs.takeWhile Char.isDigit
  let rest := cs.dropWhile Char.isDigit
  let (fraction, rest) := match rest with
    | '.' :: after => (after.takeWhile Char.isDigit, after.dropWhile Char.isDigit)
    | _ => ([], rest)
  if whole.isEmpty && fraction.isEmpty then none
  else some (Nat.ofDigitChars 10 (whole ++ fraction) 0, fraction.length, rest)

def exponent? : List Char → Option Int
  | [] => some 0
  | 'e' :: cs | 'E' :: cs => integerText? (String.ofList cs)
  | _ => none

/-- The double nearest to `significand * 10 ^ exponent`. An exponent far beyond all doubles is cut
short. -/
def scaled (significand digits : Nat) (exponent : Int) : Float :=
  let limit : Int := 2000 + digits
  let exponent := max (-limit) (min limit exponent)
  Float.ofScientific significand (exponent < 0) exponent.natAbs

def unsignedReal? (cs : List Char) : Option Float := do
  let (significand, places, rest) ← mantissa? cs
  let exponent ← exponent? rest
  return scaled significand cs.length (exponent - places)

def real? (text : String) : Option Float :=
  let (negative, cs) := match text.toList with
    | '-' :: cs => (true, cs)
    | '+' :: cs => (false, cs)
    | cs => (false, cs)
  let word := (String.ofList cs).toLower
  let size :=
    if word = "inf" ∨ word = "infinity" then some (1 / 0)
    else if word = "nan" then some (0 / 0)
    else unsignedReal? cs
  size.map fun x => if negative then -x else x

/-- The nearest whole number that a word can hold; a half goes away from zero. -/
def roundToWord (x : Float) : Nat :=
  if x.isNaN || x < 1 / 2 then 0
  else if x ≥ 18446744073709551616 then wordBound - 1
  else x.round.toUInt64.toNat

def yesNo? (text : String) : Option Bool :=
  if text ∈ ["true", "on", "yes"] then some true
  else if text ∈ ["false", "off", "no"] then some false
  else none

def flag? : Setting → Option Bool
  | .flag b => some b
  | .integer z => some (z != 0)
  | .real x => some (x != 0)
  | .text s =>
    if s = "1" then some true else if s = "0" then some false else yesNo? s.toLower
  | _ => none

def natural? : Setting → Option Nat
  | .flag b => some b.toNat
  | .integer z => if 0 ≤ z then some z.toNat else none
  | .real x => some (roundToWord x)
  | .text s =>
    match yesNo? s.toLower with
    | some b => some b.toNat
    | none =>
      match s.toList with
      | '-' :: _ => none
      | _ => do
        let z ← integerText? s
        if z < wordBound then some z.toNat else none
  | _ => none

def text? : Setting → Option String
  | .flag b => some (if b then "true" else "false")
  | .integer z => some (toString z)
  | .real x => some (Decimal.render x)
  | .text s => some s
  | _ => none

def nullable? {α : Type} (value? : Setting → Option α) : Setting → Option (Option α)
  | .null => some none
  | value => (value? value).map some

end Setting

end LinearCongruences
