import LinearCongruences.Settings.Setting
import LinearCongruences.Settings.Toml.Moment
import LinearCongruences.Settings.Toml.Text

/-!
The values of a TOML document that have neither quotes nor brackets: numbers, flags and moments.
-/
namespace LinearCongruences.Toml

/-- The digits of a number, between which single underscores may stand. -/
def digits? (isDigit : Char → Bool) (cs : List Char) : Option (List Char) :=
  let groups := cs.splitOn '_'
  if groups.all fun g => !g.isEmpty && g.all isDigit then some groups.flatten else none

def valueIn (base : Nat) (digits : List Char) : Nat :=
  digits.foldl (fun n c => n * base + (Hexadecimal.value? c).getD 0) 0

def word? (z : Int) : Option Setting :=
  (Checked.signedWord? z).map .integer

def integer? (cs : List Char) : Option Setting := do
  match cs with
  | '0' :: 'x' :: rest =>
    word? (valueIn 16 (← digits? (fun c => (Hexadecimal.value? c).isSome) rest))
  | '0' :: 'o' :: rest => word? (valueIn 8 (← digits? (fun c => '0' ≤ c && c ≤ '7') rest))
  | '0' :: 'b' :: rest => word? (valueIn 2 (← digits? (fun c => c == '0' || c == '1') rest))
  | _ =>
    let (negative, rest) := match cs with
      | '-' :: rest => (true, rest)
      | '+' :: rest => (false, rest)
      | rest => (false, rest)
    let digits ← digits? Char.isDigit rest
    match digits with
    | '0' :: _ :: _ => none
    | _ =>
      let size : Int := valueIn 10 digits
      word? (if negative then -size else size)

/-- A number with a fraction, an exponent or both. One that is too large for a double is refused,
but not one that is too far below zero. -/
def real? (cs : List Char) : Option Setting := do
  let (sign, rest) := match cs with
    | '-' :: rest => (['-'], rest)
    | '+' :: rest => ([], rest)
    | rest => ([], rest)
  if rest = ['i', 'n', 'f'] ∨ rest = ['n', 'a', 'n'] then
    return .real (← Setting.real? (String.ofList (sign ++ rest)))
  let isMark (c : Char) : Bool := c == 'e' || c == 'E'
  let significand := rest.takeWhile fun c => !isMark c
  let exponent := rest.dropWhile fun c => !isMark c
  let whole ← digits? Char.isDigit (significand.takeWhile (· != '.'))
  let fraction ← match significand.dropWhile (· != '.') with
    | '.' :: places => digits? Char.isDigit places
    | _ => some []
  let power ← match exponent with
    | _ :: '-' :: digits => (digits? Char.isDigit digits).map ('-' :: ·)
    | _ :: '+' :: digits => digits? Char.isDigit digits
    | _ :: digits => digits? Char.isDigit digits
    | [] => some ['0']
  match whole with
  | '0' :: _ :: _ => none
  | _ =>
    if significand.contains '.' || !exponent.isEmpty then
      let text := sign ++ whole ++ '.' :: fraction ++ 'e' :: power
      let x ← Setting.real? (String.ofList text)
      if x == 1 / 0 then none else some (.real x)
    else none

def momentKey : String := "$__toml_private_datetime"

def ofMoment (m : Moment) : Setting := .table [(momentKey, .text m.render)]

def isBareChar (c : Char) : Bool :=
  !(isSpace c || isControl c || c == ',' || c == ']' || c == '\x7d' || c == '#')

/-- A value without quotes or brackets. A blank may stand between a date and a time. -/
def bare? (cs : List Char) : Option (Setting × List Char) :=
  let token := cs.takeWhile isBareChar
  let rest := cs.dropWhile isBareChar
  if token = ['t', 'r', 'u', 'e'] then some (.flag true, rest)
  else if token = ['f', 'a', 'l', 's', 'e'] then some (.flag false, rest)
  else
    let (token, rest) := match Moment.date? token, rest with
      | some (_, []), ' ' :: c :: after =>
        if c.isDigit then
          (token ++ ' ' :: (c :: after).takeWhile isBareChar, (c :: after).dropWhile isBareChar)
        else (token, rest)
      | _, _ => (token, rest)
    let found := (integer? token).orElse fun _ => (real? token).orElse fun _ =>
      (Moment.ofText? .narrow token).map ofMoment
    found.map fun value => (value, rest)

end LinearCongruences.Toml
