import LinearCongruences.Json.Draft
import LinearCongruences.Json.Layout
import LinearCongruences.Json.Shape
import LinearCongruences.CongruenceSystem

/-!
A report tells the outcome of a system, and a report file holds a list of reports. A report is an
object. Its name, modulus, unknowns and matrix are read in the order of the text; the other
members are gathered, and once the object is closed they give the finding.
-/
namespace LinearCongruences

open Json

namespace Relation

def toValue (r : Relation) : Value :=
  .object [
    ("column", .natural r.column),
    ("coefficient", .natural r.coefficient),
    ("residual", .array (r.residual.map fun (column, coefficient) =>
      Value.naturals [column, coefficient])),
    ("constant", .natural r.constant)]

def term? : Value → Option (Nat × Nat)
  | .array [column, coefficient] => do
    return (← column.natural?, ← coefficient.natural?)
  | _ => none

/-- A relation is an object, or an array of its four parts in order. -/
def ofValue? : Value → Option Relation
  | .object members => do
    let column ← Value.required? Value.natural? "column" members
    let coefficient ← Value.required? Value.natural? "coefficient" members
    let residual ← Value.required? (Value.list? term?) "residual" members
    let constant ← Value.required? Value.natural? "constant" members
    return ⟨column, coefficient, residual, constant⟩
  | .array [column, coefficient, residual, constant] => do
    let column ← column.natural?
    let coefficient ← coefficient.natural?
    let residual ← residual.list? term?
    let constant ← constant.natural?
    return ⟨column, coefficient, residual, constant⟩
  | _ => none

end Relation

/-- What a report says. Of a refusal it keeps the message only. -/
inductive Finding where
  | inconsistent (row constant : Nat)
  | unique (values : List Nat)
  | infinite (freeColumns : List Nat) (relations : List Relation)
  | error (message : String)
deriving DecidableEq, Repr

namespace Finding

def ofResult : Except Refusal Verdict → Finding
  | .ok (.inconsistent row constant) => .inconsistent row constant
  | .ok (.unique values) => .unique values
  | .ok (.infinite family) => .infinite family.freeColumns family.relations
  | .error refusal => .error refusal.message

def toMembers : Finding → List (String × Value)
  | .inconsistent row constant =>
    [("outcome", .text "inconsistent"), ("row", .natural row), ("constant", .natural constant)]
  | .unique values => [("outcome", .text "unique"), ("values", .naturals values)]
  | .infinite freeColumns relations =>
    [("outcome", .text "infinite"), ("free_columns", .naturals freeColumns),
      ("relations", .array (relations.map Relation.toValue))]
  | .error message => [("outcome", .text "error"), ("error", .text message)]

inductive Kind where
  | inconsistent
  | unique
  | infinite
  | error
deriving DecidableEq, Repr

def kind? : Value → Option Kind
  | .text "inconsistent" => some .inconsistent
  | .text "unique" => some .unique
  | .text "infinite" => some .infinite
  | .text "error" => some .error
  | .integer 0 => some .inconsistent
  | .integer 1 => some .unique
  | .integer 2 => some .infinite
  | .integer 3 => some .error
  | _ => none

/-- Only the members that belong to the kind are looked at. -/
def ofMembers? (members : List (String × Value)) : Option Finding := do
  match ← Value.required? kind? "outcome" members with
  | .inconsistent =>
    let row ← Value.required? Value.natural? "row" members
    let constant ← Value.required? Value.natural? "constant" members
    return .inconsistent row constant
  | .unique =>
    let values ← Value.required? (Value.list? Value.natural?) "values" members
    return .unique values
  | .infinite =>
    let freeColumns ← Value.required? (Value.list? Value.natural?) "free_columns" members
    let relations ← Value.required? (Value.list? Relation.ofValue?) "relations" members
    return .infinite freeColumns relations
  | .error =>
    let message ← Value.required? Value.text? "error" members
    return .error message

end Finding

structure Report where
  name : Option String
  modulus : Nat
  unknowns : Nat
  finding : Finding
  matrix : Option (List (List Nat))
deriving DecidableEq, Repr

namespace Report

def ofOutcome (o : Outcome) : Report where
  name := o.name
  modulus := o.modulus
  unknowns := o.unknowns
  finding := .ofResult o.result
  matrix := o.reduced.map Tableau.rows

/-- A missing name or matrix is left out. -/
def toValue (r : Report) : Value :=
  let name := r.name.toList.map fun n => ("name", Value.text n)
  let matrix := r.matrix.toList.map fun rows => ("matrix", Value.array (rows.map Value.naturals))
  .object (name ++ [("modulus", .natural r.modulus), ("unknowns", .natural r.unknowns)]
    ++ r.finding.toMembers ++ matrix)

structure Parts where
  name : Option (Option String)
  modulus : Option Nat
  unknowns : Option Nat
  matrix : Option (Option (List (List Nat)))
  others : List (String × Value)

/-- A scalar of a certain shape. A container is refused before it is read. -/
def atom {α : Type} (scalar? : Value → Option α) : Draft → Except Problem α
  | .scalar v =>
    match scalar? (.scalar v) with
    | some found => .ok found
    | none => .error .wrongShape
  | .broken problem => .error problem
  | _ => .error .wrongShape

def items {α : Type} (item : Draft → Except Problem α) : Draft → Except Problem (List α)
  | .array drafts stop => do
    Draft.closed (← drafts.mapM item) stop
  | .broken problem => .error problem
  | _ => .error .wrongShape

def matrixOf : Draft → Except Problem (Option (List (List Nat)))
  | .scalar .null => .ok none
  | d => do
    return some (← items (items (atom Value.natural?)) d)

/-- A part that must not have been met before. -/
def fresh {α : Type} (known : Option α) (part : Except Problem α) : Except Problem (Option α) :=
  match known with
  | some _ => .error .wrongShape
  | none => part.map some

def Parts.take (parts : Parts) (key : String) (d : Draft) : Except Problem Parts := do
  if key = "name" then
    return { parts with name := ← fresh parts.name (atom (Value.nullable? Value.text?) d) }
  else if key = "modulus" then
    return { parts with modulus := ← fresh parts.modulus (atom Value.natural? d) }
  else if key = "unknowns" then
    return { parts with unknowns := ← fresh parts.unknowns (atom Value.natural? d) }
  else if key = "matrix" then
    return { parts with matrix := ← fresh parts.matrix (matrixOf d) }
  else
    return { parts with others := parts.others ++ [(key, ← d.value)] }

def Parts.takeAll (parts : Parts) : List (String × Draft) → Except Problem Parts
  | [] => .ok parts
  | (key, d) :: rest => do
    (← parts.take key d).takeAll rest

def Parts.report? (parts : Parts) : Option Report := do
  return {
    name := parts.name.getD none
    modulus := ← parts.modulus
    unknowns := ← parts.unknowns
    finding := ← Finding.ofMembers? parts.others
    matrix := parts.matrix.getD none }

def ofDraft : Draft → Except Problem Report
  | .object members stop => do
    let parts ← Parts.takeAll ⟨none, none, none, none, []⟩ members
    match stop, parts.report? with
    | some problem, _ => .error problem
    | none, some report => return report
    | none, none => .error .wrongShape
  | .broken problem => .error problem
  | _ => .error .wrongShape

def parseAll (text : String) : Except Problem (List Report) :=
  (Document.ofText text).read (items ofDraft)

def renderAll (layout : Layout) (reports : List Report) : String :=
  layout.render (.array (reports.map toValue))

end Report

end LinearCongruences
