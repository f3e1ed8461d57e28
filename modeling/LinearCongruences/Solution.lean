import LinearCongruences.Verdict

/-!
What it means to solve a system, told without reference to how that is done. Both sides of a row
are integers, and a point solves the row if the modulus divides their difference.
-/
namespace LinearCongruences

/-- The coefficients of a row times the entries of a point, summed up. The constant of the row has
no entry to go with and is left out. -/
def leftSide (row : List Int) (point : List Nat) : Int :=
  (List.zipWith (fun (a : Int) (x : Nat) => a * x) row point).foldr (· + ·) 0

/-- The point solves one row, in which the constant follows a coefficient for each entry. -/
def SolvesRow (modulus : Nat) (row : List Int) (point : List Nat) : Prop :=
  (modulus : Int) ∣ leftSide row point - row.getD point.length 0

/-- The point has a reduced entry for each unknown and solves all rows. -/
def Solves (modulus : Nat) (rows : List (List Int)) (point : List Nat) : Prop :=
  point.length = rows.length ∧ (∀ x ∈ point, x < modulus) ∧
    ∀ row ∈ rows, SolvesRow modulus row point

instance (modulus : Nat) (row : List Int) (point : List Nat) :
    Decidable (SolvesRow modulus row point) :=
  inferInstanceAs (Decidable (_ ∣ _))

instance (modulus : Nat) (rows : List (List Int)) (point : List Nat) :
    Decidable (Solves modulus rows point) :=
  inferInstanceAs (Decidable (_ ∧ _ ∧ _))

namespace Tableau

/-- A table as it comes from rows: it has a row for each unknown, and all cells are reduced. -/
structure WellFormed (t : Tableau) : Prop where
  modulus_pos : 0 < t.modulus
  modulus_lt : t.modulus < wordBound
  unknowns_pos : 0 < t.unknowns
  size_cells : t.cells.size = t.unknowns * t.width
  cells_lt : ∀ x ∈ t.cells, x < t.modulus

def integerRows (t : Tableau) : List (List Int) :=
  t.rows.map fun row => row.map Int.ofNat

def Solution (t : Tableau) (point : List Nat) : Prop :=
  Solves t.modulus t.integerRows point

instance (t : Tableau) (point : List Nat) : Decidable (t.Solution point) :=
  inferInstanceAs (Decidable (Solves _ _ _))

end Tableau

def Relation.leftSide (r : Relation) (point : List Nat) : Int :=
  (r.coefficient * point.getD r.column 0 : Nat) +
    (r.residual.map fun (column, coefficient) => (coefficient * point.getD column 0 : Int)).foldr
      (· + ·) 0

def Relation.Holds (modulus : Nat) (r : Relation) (point : List Nat) : Prop :=
  (modulus : Int) ∣ r.leftSide point - r.constant

/-- The verdict is true of the points that solve a system. -/
def Verdict.Describes (solution : List Nat → Prop) : Verdict → Prop
  | .inconsistent _ _ => ∀ point, ¬ solution point
  | .unique values => ∀ point, solution point ↔ point = values
  | .infinite _ => ∃ first second, solution first ∧ solution second ∧ first ≠ second

end LinearCongruences
