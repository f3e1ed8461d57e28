import LinearCongruences.Relation
import LinearCongruences.Residue.Inverse

/-!
What is known about the solutions of a system: there is none, there is exactly one, or they form
a family over free unknowns.
-/
namespace LinearCongruences

/-- Solutions given by free columns, whose values may be chosen, and a relation for each other
column. -/
structure Family where
  modulus : Nat
  unknowns : Nat
  freeColumns : List Nat
  relations : List Relation
deriving DecidableEq, Repr

namespace Family

/-- Halves a range of `size` entries from `base` on until one entry is left, the last one that
does not exceed `x` if the entries ascend. -/
def bisect (xs : Array Nat) (x base size : Nat) : Nat :=
  if _ : 1 < size then
    let half := size / 2
    let middle := base + half
    bisect xs x (if xs.getD middle 0 > x then base else middle) (size - half)
  else base
termination_by size
decreasing_by omega

/-- Looks a column up among the free columns, which are expected in ascending order. -/
def isFree (f : Family) (column : Nat) : Bool :=
  let columns := f.freeColumns.toArray
  columns[bisect columns column 0 columns.size]? == some column

def relation (f : Family) (column : Nat) : Option Relation :=
  f.relations.find? fun r => r.column == column

/-- The number of ways to choose the free values, if a double word can hold it. -/
def solutionCount (f : Family) : Option Nat :=
  let exponent := f.freeColumns.length
  if exponent < exponentBound then
    let count := f.modulus.pow exponent
    if count < doubleBound then some count else none
  else none

def place (modulus : Nat) : List (Nat × Nat) → Array Nat → Checked (Array Nat)
  | [], values => .ok values
  | (column, value) :: rest, values => do
    let reduced ← Residue.reduce value modulus
    place modulus rest (← Checked.set values column reduced)

/-- `total` plus the residual terms at the given values. -/
def evaluate (modulus : Nat) (values : Array Nat) (total : Nat) :
    List (Nat × Nat) → Checked Nat
  | [] => .ok total
  | (column, coefficient) :: rest => do
    let product ← Residue.mul coefficient (← Checked.get values column) modulus
    evaluate modulus values (← Residue.add total product modulus) rest

/-- The value that a relation gives its unknown, if the coefficient can be divided out. -/
def solveFor (modulus : Nat) (values : Array Nat) (r : Relation) :
    Checked (Except Refusal Nat) := do
  let known ← evaluate modulus values 0 r.residual
  let rest ← Residue.sub r.constant known modulus
  if r.coefficient = 1 then
    return .ok rest
  match ← Inverse.find r.coefficient modulus with
  | some inverse => return .ok (← Residue.mul rest inverse modulus)
  | none => return .error (.notInvertible r.column r.coefficient modulus)

def solveAll (modulus : Nat) : List Relation → Array Nat → Checked (Except Refusal (Array Nat))
  | [], values => .ok (.ok values)
  | r :: rest, values => do
    match ← solveFor modulus values r with
    | .ok value => solveAll modulus rest (← Checked.set values r.column value)
    | .error refusal => return .error refusal

/-- All unknowns for one choice of the free values, given in the order of the free columns. -/
def assign (f : Family) (freeValues : List Nat) : Checked (Except Refusal (List Nat)) := do
  let expected := f.freeColumns.length
  if freeValues.length ≠ expected then
    return .error (.malformed (.freeValueCount expected freeValues.length))
  let chosen ← place f.modulus (f.freeColumns.zip freeValues) (Array.replicate f.unknowns 0)
  let values ← solveAll f.modulus f.relations chosen
  return values.map Array.toList

def particular (f : Family) : Checked (Except Refusal (List Nat)) :=
  f.assign (List.replicate f.freeColumns.length 0)

end Family

inductive Verdict where
  /-- The row reads `0 = constant`. -/
  | inconsistent (row constant : Nat)
  | unique (values : List Nat)
  | infinite (family : Family)
deriving DecidableEq, Repr

namespace Verdict

def kind : Verdict → String
  | .inconsistent .. => "inconsistent"
  | .unique _ => "unique"
  | .infinite _ => "infinite"

def isConsistent : Verdict → Bool
  | .inconsistent .. => false
  | _ => true

def renderList (xs : List Nat) : String :=
  "[" ++ ", ".intercalate (xs.map toString) ++ "]"

/-- The relations of a family follow on lines of their own. -/
def render : Verdict → String
  | .inconsistent row constant => s!"inconsistent: row {row} reads 0 = {constant}"
  | .unique values => "unique: " ++ renderList values
  | .infinite family =>
    let count := match family.solutionCount with
      | some n => s!" ({n} solutions)"
      | none => ""
    let relations := family.relations.map fun r => "\n  " ++ r.render
    "infinite: free columns " ++ renderList family.freeColumns ++ count ++ String.join relations

end Verdict

end LinearCongruences
