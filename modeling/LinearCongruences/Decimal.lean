/-!
The decimal text of a double: the fewest digits that are read back as the same double, written
without an exponent.
-/
namespace LinearCongruences.Decimal

/-- A positive number `significand * 2 ^ exponent`. `narrow` tells that the next smaller double is
only half as far away as the next larger one. -/
structure Dyadic where
  significand : Nat
  exponent : Int
  narrow : Bool
deriving DecidableEq, Repr

def Dyadic.ofFloat (x : Float) : Dyadic :=
  let bits := x.toBits.toNat
  let hidden := Nat.pow 2 52
  let fraction := bits % hidden
  let scale := bits / hidden % Nat.pow 2 11
  if scale = 0 then ⟨fraction, -1074, false⟩
  else ⟨fraction + hidden, (scale : Int) - 1075, fraction == 0 && scale > 1⟩

/-- `a * 10 ^ e` and `b * 2 ^ p`, multiplied by a common power so that both are whole. -/
def align (a : Nat) (e : Int) (b : Nat) (p : Int) : Nat × Nat :=
  (a * Nat.pow 10 e.toNat * Nat.pow 2 (-p).toNat, b * Nat.pow 2 p.toNat * Nat.pow 10 (-e).toNat)

/-- Whether `digits * 10 ^ e` is read as this double: it lies between the middles to the next
doubles, or on a middle if the significand is even. -/
def Dyadic.readsAs (d : Dyadic) (digits : Nat) (e : Int) : Bool :=
  let low := if d.narrow then 4 * d.significand - 1 else 4 * d.significand - 2
  let high := 4 * d.significand + 2
  let (x, l) := align digits e low (d.exponent - 2)
  let (y, h) := align digits e high (d.exponent - 2)
  if d.significand % 2 = 0 then l ≤ x && y ≤ h else l < x && y < h

def Dyadic.floor (d : Dyadic) (e : Int) : Nat :=
  let (unit, x) := align 1 e d.significand d.exponent
  x / unit

/-- Of the two multiples of `10 ^ e` around the number, the one that is read as it. If both are,
the nearer one, and the even one if both are equally near. -/
def Dyadic.onGrid (d : Dyadic) (e : Int) : Option Nat :=
  let below := d.floor e
  let above := below + 1
  match d.readsAs below e, d.readsAs above e with
  | false, false => none
  | true, false => some below
  | false, true => some above
  | true, true =>
    let (middle, x) := align (2 * below + 1) e (2 * d.significand) d.exponent
    if x < middle then some below else some above

/-- The first grid from `10 ^ e` downwards that has a point read as the number. -/
def Dyadic.search (d : Dyadic) (e : Int) : Nat → Nat × Int
  | 0 => (0, 0)
  | grids + 1 =>
    match d.onGrid e with
    | some digits => (digits, e)
    | none => d.search (e - 1) grids

/-- The digits and the power of ten of the shortest decimal. No double reaches `10 ^ 309`, and
none needs a grid finer than `10 ^ -1074`. -/
def Dyadic.shortest (d : Dyadic) : Nat × Int :=
  d.search 309 1384

def positional (digits : Nat) (e : Int) : String :=
  let text := Nat.toDigits 10 digits
  if 0 ≤ e then String.ofList (text ++ List.replicate e.toNat '0')
  else
    let places := e.natAbs
    let padded := List.replicate (places + 1 - text.length) '0' ++ text
    let whole := padded.length - places
    String.ofList (padded.take whole ++ '.' :: padded.drop whole)

def render (x : Float) : String :=
  if x.isNaN then "NaN"
  else
    let sign := if x.toBits.toNat < Nat.pow 2 63 then "" else "-"
    if x.isInf then sign ++ "inf"
    else if x == 0 then sign ++ "0"
    else
      let (digits, e) := (Dyadic.ofFloat x).shortest
      sign ++ positional digits e

end LinearCongruences.Decimal
