/-!
Dates, times of day, and both together. A moment has one text, in which the fraction of a second is
as short as it can be. It is read from what stands in a document within narrow limits, and from the
text of a setting within wider ones.
-/
namespace LinearCongruences.Toml

structure Date where
  year : Nat
  month : Nat
  day : Nat
deriving DecidableEq, Repr

structure Time where
  hour : Nat
  minute : Nat
  second : Nat
  nanosecond : Nat
deriving DecidableEq, Repr

inductive Offset where
  | none
  | universal
  | minutes (ahead : Int)
deriving DecidableEq, Repr

inductive Moment where
  | date (date : Date)
  | time (time : Time)
  | both (date : Date) (time : Time) (offset : Offset)
deriving DecidableEq, Repr

namespace Moment

/-! Writing -/

def digits (width n : Nat) : String :=
  let text := toString n
  String.ofList (List.replicate (width - text.length) '0') ++ text

def dateText (d : Date) : String :=
  s!"{digits 4 d.year}-{digits 2 d.month}-{digits 2 d.day}"

def timeText (t : Time) : String :=
  let places := ((digits 9 t.nanosecond).toList.reverse.dropWhile (· == '0')).reverse
  let fraction := if places.isEmpty then "" else String.ofList ('.' :: places)
  s!"{digits 2 t.hour}:{digits 2 t.minute}:{digits 2 t.second}{fraction}"

def offsetText : Offset → String
  | .none => ""
  | .universal => "Z"
  | .minutes ahead =>
    let sign := if ahead < 0 then "-" else "+"
    s!"{sign}{digits 2 (ahead.natAbs / 60)}:{digits 2 (ahead.natAbs % 60)}"

def render : Moment → String
  | .date d => dateText d
  | .time t => timeText t
  | .both d t offset => s!"{dateText d}T{timeText t}{offsetText offset}"

/-! Reading -/

/-- The largest numbers that are read as the hour of a day, and as the hours and the minutes of a
distance to universal time. -/
structure Limits where
  hour : Nat
  offsetHour : Nat
  offsetMinute : Nat
deriving DecidableEq, Repr

def Limits.narrow : Limits := ⟨23, 23, 59⟩

def Limits.wide : Limits := ⟨24, 99, 99⟩

/-- The most that a place can be away from universal time, in minutes. -/
def offsetBound : Nat := 24 * 60

/-- A number of exactly so many digits, between two bounds, and what follows. -/
def field? (count low high : Nat) (cs : List Char) : Option (Nat × List Char) :=
  let digits := cs.take count
  let n := Nat.ofDigitChars 10 digits 0
  if digits.length = count ∧ digits.all Char.isDigit ∧ low ≤ n ∧ n ≤ high then
    some (n, cs.drop count)
  else none

def after? (mark : Char) : List Char → Option (List Char)
  | [] => none
  | c :: cs => if c = mark then some cs else none

def monthDays (year month : Nat) : Nat :=
  if month = 2 then
    if year % 4 = 0 ∧ (year % 100 ≠ 0 ∨ year % 400 = 0) then 29 else 28
  else if month ∈ [4, 6, 9, 11] then 30
  else 31

def date? (cs : List Char) : Option (Date × List Char) := do
  let (year, cs) ← field? 4 0 9999 cs
  let (month, cs) ← field? 2 1 12 (← after? '-' cs)
  let (day, cs) ← field? 2 1 (monthDays year month) (← after? '-' cs)
  return (⟨year, month, day⟩, cs)

/-- The places behind a point as billionths; further places are cut off. -/
def fraction? : List Char → Option (Nat × List Char)
  | '.' :: cs =>
    let places := cs.takeWhile Char.isDigit
    let kept := places.take 9
    if places.isEmpty then none
    else some (Nat.ofDigitChars 10 kept 0 * Nat.pow 10 (9 - kept.length), cs.dropWhile Char.isDigit)
  | cs => some (0, cs)

def time? (limits : Limits) (cs : List Char) : Option (Time × List Char) := do
  let (hour, cs) ← field? 2 0 limits.hour cs
  let (minute, cs) ← field? 2 0 59 (← after? ':' cs)
  let (second, cs) ← field? 2 0 60 (← after? ':' cs)
  let (nanosecond, cs) ← fraction? cs
  return (⟨hour, minute, second, nanosecond⟩, cs)

def offset? (limits : Limits) : List Char → Option Offset
  | [] => some .none
  | ['Z'] | ['z'] => some .universal
  | sign :: cs => do
    let (hours, cs) ← field? 2 0 limits.offsetHour cs
    let (minutes, cs) ← field? 2 0 limits.offsetMinute (← after? ':' cs)
    let size := hours * 60 + minutes
    if !cs.isEmpty || size > offsetBound then none
    else if sign == '+' then some (.minutes size)
    else if sign == '-' then some (.minutes (-(size : Int)))
    else none

def isBetween (c : Char) : Bool := c == 'T' || c == 't' || c == ' '

def ofText? (limits : Limits) (cs : List Char) : Option Moment :=
  match date? cs with
  | some (d, []) => some (.date d)
  | some (d, c :: rest) => do
    if !isBetween c then none
    else
      let (t, rest) ← time? limits rest
      return .both d t (← offset? limits rest)
  | none => do
    let (t, rest) ← time? limits cs
    if rest.isEmpty then some (.time t) else none

end Moment

end LinearCongruences.Toml
