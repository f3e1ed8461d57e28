/-!
Hexadecimal digits, and the characters that they write by their codes.
-/
namespace LinearCongruences.Hexadecimal

def digit (n : Nat) : Char :=
  if n < 10 then Char.ofNat ('0'.toNat + n) else Char.ofNat ('a'.toNat + (n - 10))

def value? (c : Char) : Option Nat :=
  if '0' ≤ c ∧ c ≤ '9' then some (c.toNat - '0'.toNat)
  else if 'a' ≤ c ∧ c ≤ 'f' then some (c.toNat - 'a'.toNat + 10)
  else if 'A' ≤ c ∧ c ≤ 'F' then some (c.toNat - 'A'.toNat + 10)
  else none

def byte? (a b : Char) : Option Nat := do
  return (← value? a) * 16 + (← value? b)

def unit? (a b c d : Char) : Option Nat := do
  return (← byte? a b) * 256 + (← byte? c d)

def char? (code : Nat) : Option Char :=
  if code.isValidChar then some (Char.ofNat code) else none

end LinearCongruences.Hexadecimal
