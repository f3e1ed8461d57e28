import LinearCongruences.Solver

/-!
A system of congruences as it is written down, with signed coefficients of any size, and the
outcome of solving it.
-/
namespace LinearCongruences

/-- Each row holds the coefficients of one congruence and then its constant. -/
structure CongruenceSystem where
  name : Option String
  modulus : Nat
  rows : List (List Int)
deriving DecidableEq, Repr

/-- The answer to a system, with the reduced table if it was asked for. -/
structure Outcome where
  name : Option String
  modulus : Nat
  unknowns : Nat
  result : Except Refusal Verdict
  reduced : Option Tableau
deriving Repr

namespace CongruenceSystem

def label (s : CongruenceSystem) : String :=
  s.name.getD "<unnamed>"

def unknowns (s : CongruenceSystem) : Nat :=
  s.rows.length

def tableau (s : CongruenceSystem) : Checked (Except Refusal Tableau) :=
  Tableau.ofIntegers s.modulus s.rows

def solver (s : CongruenceSystem) (settings : Settings) : Checked (Except Refusal Solver) :=
  Solver.ofIntegers s.modulus s.rows settings

def solve (s : CongruenceSystem) (settings : Settings) : Checked (Except Refusal Verdict) := do
  match ← s.solver settings with
  | .error refusal => return .error refusal
  | .ok solver => return (← solver.solve).2

/-- Solves the system. A system that is refused from the start has no reduced table; one that is
refused later shows the table as far as it came. -/
def outcome (s : CongruenceSystem) (settings : Settings) : Checked Outcome := do
  match ← s.solver settings with
  | .error refusal => return ⟨s.name, s.modulus, s.unknowns, .error refusal, none⟩
  | .ok solver =>
    let (solver, result) ← solver.solve
    let reduced := if settings.report.includeMatrix then some solver.tableau else none
    return ⟨s.name, s.modulus, s.unknowns, result, reduced⟩

/-- The outcomes of systems that have nothing to do with each other, in their order. -/
def outcomes (settings : Settings) : List CongruenceSystem → Checked (List Outcome)
  | [] => .ok []
  | s :: rest => do
    let first ← s.outcome settings
    let others ← outcomes settings rest
    return first :: others

end CongruenceSystem

end LinearCongruences
