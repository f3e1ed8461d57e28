import LinearCongruences.Solver

/-!
A solver in the hands of a caller. Its operations may be called at any stage and any number of
times, and the caller may go on after a refusal.
-/
namespace LinearCongruences

inductive Call where
  | swapRows (a b : Nat)
  | eliminate
  | resolve
  | classifyFrom (first : Nat)
  | solve
  | reset (modulus : Nat) (rows : List (List Nat))
deriving DecidableEq, Repr

inductive Reply where
  | done
  | refused (refusal : Refusal)
  | answered (verdict : Verdict)
deriving DecidableEq, Repr

namespace Reply

def ofOutcome : Except Refusal Unit → Reply
  | .ok () => .done
  | .error refusal => .refused refusal

def ofAnswer : Except Refusal Verdict → Reply
  | .ok verdict => .answered verdict
  | .error refusal => .refused refusal

end Reply

def Call.classify : Call := .classifyFrom 0

namespace Solver

def perform (s : Solver) : Call → Checked (Solver × Reply)
  | .swapRows a b => do return (← s.swapRows a b, .done)
  | .eliminate => do return (← s.eliminate, .done)
  | .resolve => do
    let (s, outcome) ← s.resolve
    return (s, .ofOutcome outcome)
  | .classifyFrom first => do return (s, .ofAnswer (← s.classifyFrom first))
  | .solve => do
    let (s, answer) ← s.solve
    return (s, .ofAnswer answer)
  | .reset modulus rows => do
    let (s, outcome) ← s.load modulus rows
    return (s, .ofOutcome outcome)

/-- All calls, one after the other, with their replies. -/
def run (s : Solver) : List Call → Checked (Solver × List Reply)
  | [] => .ok (s, [])
  | call :: rest => do
    let (s, reply) ← s.perform call
    let (s, replies) ← s.run rest
    return (s, reply :: replies)

end Solver

end LinearCongruences
