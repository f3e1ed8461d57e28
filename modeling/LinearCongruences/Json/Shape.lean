import LinearCongruences.Checked
import LinearCongruences.Json.Value

/-!
The shapes that parts of a document may be asked to have.
-/
namespace LinearCongruences.Json.Value

def natural? : Value → Option Nat
  | .integer z => if 0 ≤ z ∧ z < wordBound then some z.toNat else none
  | _ => none

def integer? : Value → Option Int
  | .integer z => Checked.signedWord? z
  | _ => none

def text? : Value → Option String
  | .text s => some s
  | _ => none

def list? {α : Type} (item? : Value → Option α) : Value → Option (List α)
  | .array items => items.mapM item?
  | _ => none

def nullable? {α : Type} (value? : Value → Option α) : Value → Option (Option α)
  | .null => some none
  | v => (value? v).map some

/-- The member with this key, if there is one. A repeated key is refused. -/
def member? (key : String) (members : List (String × Value)) : Option (Option Value) :=
  match members.filter fun m => m.1 == key with
  | [] => some none
  | [(_, v)] => some (some v)
  | _ => none

def required? {α : Type} (value? : Value → Option α) (key : String)
    (members : List (String × Value)) : Option α := do
  match ← member? key members with
  | some v => value? v
  | none => none

/-- A member that may be missing, which means the same as null. -/
def optional? {α : Type} (value? : Value → Option α) (key : String)
    (members : List (String × Value)) : Option (Option α) := do
  match ← member? key members with
  | some v => nullable? value? v
  | none => some none

end LinearCongruences.Json.Value
