import LinearCongruences.Elimination
import LinearCongruences.Settings
import LinearCongruences.Verdict

/-!
A solver takes one table through elimination and the division by pivots, and then tells what the
solutions are. It keeps the table in its present state, how far it has come, and a way to invert
modulo its modulus. Nothing stops a caller from swapping rows between the steps.
-/
namespace LinearCongruences

inductive Phase where
  | loaded
  | eliminated
  | resolved
deriving DecidableEq, Repr

structure Solver where
  tableau : Tableau
  lookup : InverseLookup
  tableLimit : Nat
  requirePrime : Bool
  phase : Phase
deriving DecidableEq, Repr

namespace Solver

def checkModulus (modulus : Nat) (requirePrime : Bool) : Checked (Except Refusal Unit) := do
  if requirePrime then
    if ← Prime.test modulus then return .ok () else return .error (.compositeModulus modulus)
  else
    return .ok ()

def ofTableau (t : Tableau) (settings : Settings) : Checked (Except Refusal Solver) := do
  match ← checkModulus t.modulus settings.requirePrimeModulus with
  | .error refusal => return .error refusal
  | .ok () =>
    let lookup ← InverseLookup.build t.modulus settings.inverseTableLimit
    return .ok {
      tableau := t
      lookup := lookup
      tableLimit := settings.inverseTableLimit
      requirePrime := settings.requirePrimeModulus
      phase := .loaded }

def ofResidues (modulus : Nat) (rows : List (List Nat)) (settings : Settings) :
    Checked (Except Refusal Solver) :=
  match Tableau.ofResidues modulus rows with
  | .error refusal => .ok (.error refusal)
  | .ok t => ofTableau t settings

def ofIntegers (modulus : Nat) (rows : List (List Int)) (settings : Settings) :
    Checked (Except Refusal Solver) := do
  match ← Tableau.ofIntegers modulus rows with
  | .error refusal => return .error refusal
  | .ok t => ofTableau t settings

def modulus (s : Solver) : Nat := s.tableau.modulus

def unknowns (s : Solver) : Nat := s.tableau.unknowns

/-- Brings the inverse lookup to a modulus: the present one is kept if it fits, else a new one is
made, provided that the modulus is allowed. -/
def renewLookup (s : Solver) (modulus : Nat) : Checked (Solver × Except Refusal Unit) := do
  if modulus = s.lookup.modulus then
    return (s, .ok ())
  else
    match ← checkModulus modulus s.requirePrime with
    | .error refusal => return (s, .error refusal)
    | .ok () =>
      let lookup ← InverseLookup.build modulus s.tableLimit
      return ({ s with lookup := lookup }, .ok ())

/-- Loads another system, part by part: first the lookup, then the table. -/
def load (s : Solver) (modulus : Nat) (rows : List (List Nat)) :
    Checked (Solver × Except Refusal Unit) := do
  match Tableau.ofResidues modulus rows with
  | .error refusal => return (s, .error refusal)
  | .ok t =>
    match ← s.renewLookup modulus with
    | (s, .error refusal) => return (s, .error refusal)
    | (s, .ok ()) => return ({ s with tableau := t, phase := .loaded }, .ok ())

/-- The solver with another system, if that is accepted. -/
def reset (s : Solver) (modulus : Nat) (rows : List (List Nat)) :
    Checked (Except Refusal Solver) := do
  let (s, outcome) ← s.load modulus rows
  return outcome.map fun () => s

def swapRows (s : Solver) (a b : Nat) : Checked Solver := do
  let t ← s.tableau.swapRows a b
  return { s with tableau := t }

/-- Eliminates once; later calls change nothing. -/
def eliminate (s : Solver) : Checked Solver := do
  if s.phase = .loaded then
    let t ← s.tableau.eliminate
    return { s with tableau := t, phase := .eliminated }
  else
    return s

/-- Divides row `r` by its pivot, if it names no column after it. The row is left alone if it has
no pivot, the pivot is one already, or a later column is named. -/
def resolveRow (lookup : InverseLookup) (t : Tableau) (r : Nat) :
    Checked (Except Refusal Tableau) := do
  let pivot ← t.diagonal r
  if pivot = 0 then
    return .ok t
  else if (← Checked.suffix (← t.coefficients r) (r + 1)).any (· != 0) then
    return .ok t
  else if pivot = 1 then
    return .ok t
  else
    match ← lookup.inverse pivot with
    | none => return .error (.notInvertible r pivot t.modulus)
    | some inverse =>
      let constant ← Residue.mul (← t.constant r) inverse t.modulus
      let divided ← t.set r t.unknowns constant
      return .ok (← divided.set r r 1)

/-- Resolves `count` rows from row `r` on. The first row that cannot be divided ends the run, and
the rows before it stay divided. -/
def resolveFrom (lookup : InverseLookup) (t : Tableau) (r : Nat) :
    Nat → Checked (Tableau × Except Refusal Unit)
  | 0 => .ok (t, .ok ())
  | count + 1 => do
    match ← resolveRow lookup t r with
    | .ok t => resolveFrom lookup t (r + 1) count
    | .error refusal => return (t, .error refusal)

/-- Divides out each pivot that does not depend on a free column. -/
def resolve (s : Solver) : Checked (Solver × Except Refusal Unit) := do
  match s.phase with
  | .loaded => return (s, .error (.tooEarly .resolve .eliminate))
  | .resolved => return (s, .ok ())
  | .eliminated =>
    match ← resolveFrom s.lookup s.tableau 0 s.unknowns with
    | (t, .ok ()) => return ({ s with tableau := t, phase := .resolved }, .ok ())
    | (t, .error refusal) => return ({ s with tableau := t }, .error refusal)

def rolesFrom (t : Tableau) (r : Nat) : Nat → Checked (List RowReading)
  | 0 => .ok []
  | count + 1 => do
    let role ← RowReading.ofRow t r
    let roles ← rolesFrom t (r + 1) count
    return role :: roles

def roles (s : Solver) : Checked (List RowReading) :=
  rolesFrom s.tableau 0 s.unknowns

/-- The first row without unknowns, counted from `r`, whose constant is not zero. -/
def contradiction (t : Tableau) (r : Nat) : List RowReading → Checked (Option (Nat × Nat))
  | [] => .ok none
  | .free _ :: rest => do
    let constant ← t.constant r
    if constant = 0 then contradiction t (r + 1) rest else return some (r, constant)
  | _ :: rest => contradiction t (r + 1) rest

def freeColumns (roles : List RowReading) : List Nat :=
  roles.filterMap fun
    | .free column => some column
    | _ => none

def relations (roles : List RowReading) : List Relation :=
  roles.filterMap fun
    | .pivot relation => some relation
    | _ => none

def verdict (modulus unknowns : Nat) (roles : List RowReading) : Except Refusal Verdict :=
  match roles.findIdx? (· == .unresolved) with
  | some row => .error (.degeneratePivot row)
  | none =>
    let free := freeColumns roles
    if free.isEmpty then .ok (.unique ((relations roles).map Relation.constant))
    else .ok (.infinite ⟨modulus, unknowns, free, relations roles⟩)

/-- Tells what the solutions are. Contradictions in rows before `first` are not looked at. -/
def classifyFrom (s : Solver) (first : Nat) : Checked (Except Refusal Verdict) := do
  if s.phase ≠ .resolved then
    return .error (.tooEarly .classify .resolve)
  if first > s.unknowns then
    return .error (.malformed (.firstRowPastEnd first s.unknowns))
  let roles ← s.roles
  match ← contradiction s.tableau first (roles.drop first) with
  | some (row, constant) => return .ok (.inconsistent row constant)
  | none => return verdict s.modulus s.unknowns roles

def classify (s : Solver) : Checked (Except Refusal Verdict) :=
  s.classifyFrom 0

def solve (s : Solver) : Checked (Solver × Except Refusal Verdict) := do
  let eliminated ← s.eliminate
  match ← eliminated.resolve with
  | (s, .error refusal) => return (s, .error refusal)
  | (s, .ok ()) => return (s, ← s.classify)

end Solver

end LinearCongruences
