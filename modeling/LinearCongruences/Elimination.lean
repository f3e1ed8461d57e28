import LinearCongruences.Tableau

/-!
Elimination without division. A row is cancelled in one column by scaling it and the pivot row
with the cofactors of their two entries, so no inverse is needed and any modulus will do. A row
that holds the pivot of an earlier column may still name free columns between its own pivot and
the current column; there it is scaled as well, and keeps its meaning.
-/
namespace LinearCongruences.Tableau

/-- Whether the row holds the pivot of a column before this one. -/
def hasEarlierPivot (t : Tableau) (row column : Nat) : Checked Bool := do
  if row < column then
    return (← t.diagonal row) != 0
  else
    return false

def offersPivot (t : Tableau) (row column : Nat) : Checked Bool := do
  if ← t.hasEarlierPivot row column then
    return false
  else
    return (← t.get row column) != 0

/-- The first of `count` rows from `row` on that can give the pivot. -/
def findPivotFrom (t : Tableau) (column row : Nat) : Nat → Checked (Option Nat)
  | 0 => .ok none
  | count + 1 => do
    if ← t.offersPivot row column then return some row
    else t.findPivotFrom column (row + 1) count

def findPivot (t : Tableau) (column : Nat) : Checked (Option Nat) :=
  t.findPivotFrom column 0 t.unknowns

/-- The new entry at column `c` when `column` is cancelled out of `row` by factors `a` and `b`. -/
def cancelledEntry (modulus : Nat) (pivotRow : Array Nat) (earlier : Bool) (row column a b : Nat)
    (c x : Nat) : Checked Nat :=
  if c < column then
    if earlier ∧ row ≤ c then Residue.mul x a modulus else .ok x
  else do
    Residue.combine x a (← Checked.get pivotRow c) b modulus

/-- Cancels `column` out of `row` by means of the pivot in row `column`. -/
def cancel (t : Tableau) (row column : Nat) : Checked Tableau := do
  let earlier ← t.hasEarlierPivot row column
  let (a, b) := Residue.cofactors (← t.get column column) (← t.get row column)
  let (_, pivotRow) ← t.rowPair row column
  Checked.require (earlier → row ≤ column ∧ column ≤ t.width) .badIndex
  t.mapRow row (cancelledEntry t.modulus pivotRow.toArray earlier row column a b)

/-- Cancels `column` out of one row, unless it is the pivot row or has nothing there. -/
def clearEntry (column : Nat) (t : Tableau) (row : Nat) : Checked Tableau := do
  if row = column then
    return t
  else if (← t.get row column) = 0 then
    return t
  else
    t.cancel row column

def clearColumn (t : Tableau) (column : Nat) : Checked Tableau :=
  (List.range t.unknowns).foldlM (clearEntry column) t

/-- Brings a pivot for `column` to the diagonal and cancels the column elsewhere. A column without
pivot is left alone. -/
def eliminateColumn (t : Tableau) (column : Nat) : Checked Tableau := do
  match ← t.findPivot column with
  | none => return t
  | some row =>
    let swapped ← t.swapRows column row
    swapped.clearColumn column

def eliminate (t : Tableau) : Checked Tableau :=
  (List.range t.unknowns).foldlM eliminateColumn t

end LinearCongruences.Tableau
