import LinearCongruences.Refusal
import LinearCongruences.Residue

/-!
The augmented table of `n` congruences in `n` unknowns. The cells are kept row by row; a row holds
its coefficients and then its constant. A table is built from rows of the right shape with reduced
entries, but single cells may be overwritten with any number later.
-/
namespace LinearCongruences

structure Tableau where
  modulus : Nat
  unknowns : Nat
  cells : Array Nat
deriving DecidableEq, Repr

namespace Tableau

/-- The first row, counted from `row`, that does not have the expected length. -/
def checkLengths (expected row : Nat) : List Nat → Except Refusal Unit
  | [] => .ok ()
  | length :: rest =>
    if length = expected then checkLengths expected (row + 1) rest
    else .error (.malformed (.rowLength row length expected))

/-- Requires a positive modulus and as many unknowns as rows, of which there is at least one. -/
def checkShape (modulus : Nat) (lengths : List Nat) : Except Refusal Unit :=
  if modulus = 0 then .error (.malformed .zeroModulus)
  else if lengths.isEmpty then .error (.malformed .noEquations)
  else checkLengths (lengths.length + 1) 0 lengths

/-- The first entry of a row, counted from `column`, that is not below the modulus. -/
def checkEntries (modulus row column : Nat) : List Nat → Except Refusal Unit
  | [] => .ok ()
  | value :: rest =>
    if value < modulus then checkEntries modulus row (column + 1) rest
    else .error (.malformed (.notReduced row column value modulus))

def checkRows (modulus row : Nat) : List (List Nat) → Except Refusal Unit
  | [] => .ok ()
  | entries :: rest => do
    checkEntries modulus row 0 entries
    checkRows modulus (row + 1) rest

def ofResidues (modulus : Nat) (rows : List (List Nat)) : Except Refusal Tableau := do
  checkShape modulus (rows.map List.length)
  checkRows modulus 0 rows
  return ⟨modulus, rows.length, rows.flatten.toArray⟩

def normalizeAll (modulus : Nat) : List Int → Checked (List Nat)
  | [] => .ok []
  | value :: rest => do
    let residue ← Residue.normalize value modulus
    let residues ← normalizeAll modulus rest
    return residue :: residues

/-- A table from rows of signed numbers, each replaced by its representative. -/
def ofIntegers (modulus : Nat) (rows : List (List Int)) : Checked (Except Refusal Tableau) :=
  match checkShape modulus (rows.map List.length) with
  | .error refusal => .ok (.error refusal)
  | .ok () => do
    let cells ← normalizeAll modulus rows.flatten
    return .ok ⟨modulus, rows.length, cells.toArray⟩

def width (t : Tableau) : Nat := t.unknowns + 1

def constantColumn (t : Tableau) : Nat := t.unknowns

/-- The place of an entry among the cells. The column is not compared with the width: a column
past the end of a row reads on in the next ones. -/
def place (t : Tableau) (r c : Nat) : Nat :=
  r * t.width + c

def get (t : Tableau) (r c : Nat) : Checked Nat :=
  Checked.get t.cells (t.place r c)

def set (t : Tableau) (r c value : Nat) : Checked Tableau := do
  let cells ← Checked.set t.cells (t.place r c) value
  return { t with cells := cells }

def diagonal (t : Tableau) (r : Nat) : Checked Nat :=
  t.get r r

def row (t : Tableau) (r : Nat) : Checked (List Nat) := do
  Checked.require (t.place (r + 1) 0 ≤ t.cells.size) .badIndex
  return (t.cells.extract (t.place r 0) (t.place (r + 1) 0)).toList

def coefficients (t : Tableau) (r : Nat) : Checked (List Nat) := do
  return (← t.row r).take t.unknowns

def constant (t : Tableau) (r : Nat) : Checked Nat := do
  Checked.get (← t.row r).toArray t.unknowns

def rows (t : Tableau) : List (List Nat) :=
  (List.range t.unknowns).map fun r =>
    (t.cells.extract (t.place r 0) (t.place (r + 1) 0)).toList

def rowPair (t : Tableau) (first second : Nat) : Checked (List Nat × List Nat) := do
  Checked.require (first ≠ second) .sameRow
  return (← t.row first, ← t.row second)

def swapEntries (a b : Nat) (t : Tableau) (c : Nat) : Checked Tableau := do
  let x ← t.get a c
  let y ← t.get b c
  let t ← t.set a c y
  t.set b c x

/-- Exchanges two rows. A row may be exchanged with itself whether it exists or not. -/
def swapRows (t : Tableau) (a b : Nat) : Checked Tableau := do
  if a = b then
    return t
  else
    let _ ← t.rowPair a b
    (List.range t.width).foldlM (swapEntries a b) t

/-- Replaces each entry `x` in column `c` of row `r` by `f c x`. -/
def mapRow (t : Tableau) (r : Nat) (f : Nat → Nat → Checked Nat) : Checked Tableau :=
  (List.range t.width).foldlM (fun t c => do
    let x ← t.get r c
    t.set r c (← f c x)) t

/-- Whether the values solve the first `count` congruences from row `r` on. -/
def holdFrom (t : Tableau) (values : List Nat) (r : Nat) : Nat → Checked Bool
  | 0 => .ok true
  | count + 1 => do
    let total ← Residue.dot (← t.coefficients r) values t.modulus
    let constant ← t.constant r
    if total = constant then t.holdFrom values (r + 1) count else return false

/-- Whether the values, one for each unknown, solve all congruences. -/
def satisfiedBy (t : Tableau) (values : List Nat) : Checked Bool :=
  if values.length = t.unknowns then t.holdFrom values 0 t.unknowns else .ok false

def renderRow (unknowns : Nat) (entries : List Nat) : String :=
  let coefficients := " ".intercalate ((entries.take unknowns).map toString)
  let constant := " ".intercalate ((entries.drop unknowns).map toString)
  s!"[{coefficients} | {constant}]\n"

def render (t : Tableau) : String :=
  String.join (t.rows.map (renderRow t.unknowns))

def describe (t : Tableau) : String :=
  s!"AugmentedMatrix(mod {t.modulus}, {t.unknowns}x{t.width})\n{t.render}"

end Tableau

end LinearCongruences
