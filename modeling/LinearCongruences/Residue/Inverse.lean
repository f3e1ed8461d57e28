import LinearCongruences.Residue.Prime

/-!
Inverses modulo a word. A single inverse comes from the extended Euclidean algorithm. For a small
prime modulus all inverses are laid out in a table, each from an earlier one.
-/
namespace LinearCongruences

namespace Inverse

/-- `earlier - q * current`, one column of a division step, in signed double words. -/
def columnStep (q earlier current : Int) : Checked Int := do
  let product ← Checked.within signedDoubleBound (q * current)
  Checked.within signedDoubleBound (earlier - product)

/-- The greatest common divisor of `a` and `b` with the coefficient of the first operand. The
coefficients `x` and `y` belong to the remainders `a` and `b`, and `u` and `v` are those of the
second operand. -/
def euclid (a b : Nat) (x y u v : Int) : Checked (Nat × Int) :=
  if _ : b = 0 then .ok (a, x)
  else do
    let q := a / b
    let _ ← columnStep q a b
    let y' ← columnStep q x y
    let v' ← columnStep q u v
    euclid b (a % b) y y' v v'
termination_by b
decreasing_by exact Nat.mod_lt _ (by omega)

def find (value modulus : Nat) : Checked (Option Nat) := do
  let reduced ← Checked.remainder value modulus
  let (divisor, coefficient) ← euclid reduced modulus 1 0 0 1
  if divisor = 1 then
    return some (coefficient.emod modulus).toNat
  else
    return none

end Inverse

/-- The inverses of all residues of a prime modulus, with zero in place of the missing inverse
of zero. -/
structure InverseTable where
  modulus : Nat
  inverses : Array Nat
deriving DecidableEq, Repr

namespace InverseTable

/-- Appends the inverse of `i`. With `modulus = q * i + r` it is `-q` times the inverse of `r`,
which stands in the table already. -/
def extend (modulus : Nat) (inverses : Array Nat) (i : Nat) : Checked (Array Nat) := do
  let q ← Checked.quotient modulus i
  let r ← Checked.remainder modulus i
  let earlier ← Checked.get inverses r
  let product ← Residue.mul q earlier modulus
  let negated ← Checked.minus modulus product
  let inverse ← Checked.remainder negated modulus
  return inverses.push inverse

/-- The least number of entries that is too large for a table: the bytes of an array are counted by
a signed word, and each entry takes eight of them. -/
def capacity : Nat := signedWordBound / 8

def build (modulus : Nat) : Checked (Option InverseTable) := do
  if ← Prime.test modulus then
    Checked.require (modulus < capacity) .noRoom
    -- the table has an entry for every residue, and those of zero and one are written at once
    Checked.require (2 ≤ modulus) .badIndex
    let inverses ← (List.range' 2 (modulus - 2)).foldlM (extend modulus) #[0, 1]
    return some ⟨modulus, inverses⟩
  else
    return none

def get (table : InverseTable) (value : Nat) : Checked (Option Nat) := do
  let v ← Checked.remainder value table.modulus
  if v = 0 then
    return none
  else
    return some (← Checked.get table.inverses v)

end InverseTable

structure InverseLookup where
  modulus : Nat
  table : Option InverseTable
deriving DecidableEq, Repr

namespace InverseLookup

/-- Uses a table if the modulus is a prime no larger than `tableLimit`. -/
def build (modulus tableLimit : Nat) : Checked InverseLookup := do
  if modulus ≤ tableLimit then
    return ⟨modulus, ← InverseTable.build modulus⟩
  else
    return ⟨modulus, none⟩

def inverse (lookup : InverseLookup) (value : Nat) : Checked (Option Nat) :=
  match lookup.table with
  | some table => table.get value
  | none => Inverse.find value lookup.modulus

end InverseLookup

end LinearCongruences
