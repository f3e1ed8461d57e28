import LinearCongruences.Residue

/-!
A primality test for words: trial division by twelve small primes, then the strong probable prime
test for each of them as a base. For every word the twelve bases are enough.
-/
namespace LinearCongruences.Prime

def bases : List Nat := [2, 3, 5, 7, 11, 13, 17, 19, 23, 29, 31, 37]

/-- The first base that divides `n` decides: `n` is prime only if it is that base. -/
def trial (n : Nat) : List Nat → Option Bool
  | [] => none
  | p :: ps => if n = p then some true else if n % p = 0 then some false else trial n ps

/-- The exponent of two in `n`, and the odd rest. Zero has no odd rest and stays as it is. -/
def splitTwos (n : Nat) : Nat × Nat :=
  if _ : n ≠ 0 ∧ n % 2 = 0 then
    let (s, d) := splitTwos (n / 2)
    (s + 1, d)
  else (0, n)
termination_by n
decreasing_by omega

/-- Squares `x` up to `squarings` times and looks for `n - 1`. A one before it ends the search,
since all later squares are one as well. -/
def reachesMinusOne (n : Nat) : Nat → Nat → Checked Bool
  | 0, _ => .ok false
  | squarings + 1, x => do
    let square ← Residue.mul x x n
    if square = 1 then return false
    if square = n - 1 then return true
    reachesMinusOne n squarings square

/-- Whether `n`, with `n - 1 = 2 ^ twos * odd`, looks prime to the base `a`. -/
def passes (n twos odd a : Nat) : Checked Bool := do
  let x ← Residue.pow a odd n
  if x = 1 ∨ x = n - 1 then return true
  reachesMinusOne n (twos - 1) x

def passesAll (n twos odd : Nat) : List Nat → Checked Bool
  | [] => .ok true
  | a :: rest => do
    if ← passes n twos odd a then passesAll n twos odd rest else return false

def test (n : Nat) : Checked Bool :=
  if n < 2 then .ok false
  else
    match trial n bases with
    | some answer => .ok answer
    | none =>
      let (twos, odd) := splitTwos (n - 1)
      passesAll n twos odd bases

end LinearCongruences.Prime
