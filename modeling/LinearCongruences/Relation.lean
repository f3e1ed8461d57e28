import LinearCongruences.Tableau

/-!
The meaning of a row after elimination: a relation that gives one unknown in terms of free ones,
a row without any unknown, or a row that could not be brought into either form.
-/
namespace LinearCongruences

/-- The congruence `coefficient * x_column + residual = constant`. The residual pairs a column
with its coefficient. -/
structure Relation where
  column : Nat
  coefficient : Nat
  residual : List (Nat × Nat)
  constant : Nat
deriving DecidableEq, Repr

namespace Relation

def isResolved (r : Relation) : Bool :=
  r.residual.isEmpty && r.coefficient == 1

def value (r : Relation) : Option Nat :=
  if r.isResolved then some r.constant else none

def dependsOn (r : Relation) (column : Nat) : Bool :=
  r.residual.any fun term => term.1 == column

/-- A coefficient of one is left out before the own unknown, but not in the residual. -/
def render (r : Relation) : String :=
  let own := if r.coefficient = 1 then s!"x{r.column}" else s!"{r.coefficient}*x{r.column}"
  let others := r.residual.map fun (column, coefficient) => s!" + {coefficient}*x{column}"
  own ++ String.join others ++ s!" = {r.constant}"

end Relation

inductive RowReading where
  /-- The diagonal is zero, but some other coefficient is not. -/
  | unresolved
  | pivot (relation : Relation)
  /-- All coefficients are zero, so the unknown of this column is free. -/
  | free (column : Nat)
deriving DecidableEq, Repr

namespace RowReading

/-- The coefficients apart from the diagonal that are not zero, with their columns. -/
def residual (r : Nat) (coefficients : List Nat) : List (Nat × Nat) :=
  (coefficients.zipIdx.filter fun (x, c) => c != r && x != 0).map fun (x, c) => (c, x)

def read (r : Nat) (coefficients : List Nat) (constant : Nat) : RowReading :=
  let diagonal := coefficients.getD r 0
  if diagonal = 0 then
    if coefficients.all (· == 0) then .free r else .unresolved
  else .pivot ⟨r, diagonal, residual r coefficients, constant⟩

def ofRow (t : Tableau) (r : Nat) : Checked RowReading := do
  let coefficients ← t.coefficients r
  Checked.require (r < coefficients.length) .badIndex
  return read r coefficients (← t.constant r)

def isPivot : RowReading → Bool
  | .pivot _ => true
  | _ => false

end RowReading

end LinearCongruences
