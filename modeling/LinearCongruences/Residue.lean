import LinearCongruences.Checked

/-!
Arithmetic modulo a word. Sums and products are taken in a double word before they are reduced,
so no modulus below `wordBound` makes an intermediate value leave its range.
-/
namespace LinearCongruences.Residue

def normalize (value : Int) (modulus : Nat) : Checked Nat := do
  let rest ← Checked.signedRemainder value modulus
  let shifted ← Checked.within signedDoubleBound (rest + modulus)
  let result ← Checked.signedRemainder shifted modulus
  return result.toNat

def reduce (value modulus : Nat) : Checked Nat :=
  Checked.remainder value modulus

def add (left right modulus : Nat) : Checked Nat := do
  let sum ← Checked.below doubleBound (left + right)
  Checked.remainder sum modulus

/-- The difference of two reduced numbers. -/
def sub (left right modulus : Nat) : Checked Nat :=
  if left ≥ right then .ok (left - right)
  else Checked.minus modulus (right - left)

def mul (left right modulus : Nat) : Checked Nat := do
  let product ← Checked.below doubleBound (left * right)
  Checked.remainder product modulus

/-- `result * base ^ exponent`, by repeated squaring. -/
def powLoop (modulus result base exponent : Nat) : Checked Nat :=
  if _ : exponent = 0 then .ok result
  else do
    let result ← if exponent % 2 = 1 then mul result base modulus else .ok result
    let base ← mul base base modulus
    powLoop modulus result base (exponent / 2)
termination_by exponent
decreasing_by omega

def pow (base exponent modulus : Nat) : Checked Nat := do
  if modulus = 1 then
    return 0
  let base ← reduce base modulus
  powLoop modulus 1 base exponent

/-- `left * a - right * b`, the step that cancels one row with another. -/
def combine (left a right b modulus : Nat) : Checked Nat := do
  let kept ← mul left a modulus
  let taken ← mul right b modulus
  sub kept taken modulus

/-- `total` plus the products of paired entries. The longer list is cut to the shorter one. -/
def dotFrom (modulus total : Nat) : List Nat → List Nat → Checked Nat
  | c :: coefficients, v :: values => do
    let product ← mul c v modulus
    let total ← add total product modulus
    dotFrom modulus total coefficients values
  | _, _ => .ok total

def dot (coefficients values : List Nat) (modulus : Nat) : Checked Nat :=
  dotFrom modulus 0 coefficients values

/-- Euclid's algorithm. The divisor of zero and zero is zero. -/
def divisor (a b : Nat) : Nat :=
  if _ : b = 0 then a else divisor b (a % b)
termination_by b
decreasing_by exact Nat.mod_lt a (by omega)

/-- Both numbers without their greatest common divisor. Scaling each by the cofactor of the other
makes them equal. -/
def cofactors (x y : Nat) : Nat × Nat :=
  let g := divisor x y
  if g = 0 then (0, 0) else (x / g, y / g)

end LinearCongruences.Residue
