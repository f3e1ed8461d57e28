/-!
The reasons for which a system is refused, and their wording.
-/
namespace LinearCongruences

/-- The steps of a solution, each of which needs the one before it. -/
inductive Operation where
  | eliminate
  | resolve
  | classify
deriving DecidableEq, Repr

def Operation.name : Operation → String
  | .eliminate => "eliminate"
  | .resolve => "resolve_pivots"
  | .classify => "classify"

inductive Malformation where
  | zeroModulus
  | noEquations
  | rowLength (row length expected : Nat)
  | notReduced (row column value modulus : Nat)
  | firstRowPastEnd (first last : Nat)
  | freeValueCount (expected given : Nat)
deriving DecidableEq, Repr

def Malformation.reason : Malformation → String
  | .zeroModulus => "modulus must be positive"
  | .noEquations => "system has no equations"
  | .rowLength row length expected => s!"row {row} has {length} columns, expected {expected}"
  | .notReduced row column value modulus =>
    s!"entry ({row}, {column}) = {value} is not a residue modulo {modulus}"
  | .firstRowPastEnd first last => s!"first meaningful row {first} is past the last row {last}"
  | .freeValueCount expected given => s!"expected {expected} free values, got {given}"

inductive Refusal where
  | notInvertible (row pivot modulus : Nat)
  | malformed (what : Malformation)
  | tooEarly (operation required : Operation)
  | degeneratePivot (row : Nat)
  | compositeModulus (modulus : Nat)
deriving DecidableEq, Repr

def Refusal.message : Refusal → String
  | .notInvertible row pivot modulus =>
    s!"pivot {pivot} in row {row} is not invertible modulo {modulus}"
  | .malformed what => s!"malformed system: {what.reason}"
  | .tooEarly operation required => s!"{operation.name} requires {required.name} to run first"
  | .degeneratePivot row =>
    s!"pivot of row {row} vanished under rescaling; modulus is not prime"
  | .compositeModulus modulus => s!"modulus {modulus} is not prime"

end LinearCongruences
