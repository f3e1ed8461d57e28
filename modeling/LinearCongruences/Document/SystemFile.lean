import LinearCongruences.Json.Draft
import LinearCongruences.Json.Layout
import LinearCongruences.Json.Shape
import LinearCongruences.CongruenceSystem

/-!
A system file holds one system or a list of systems. A system is an object, or an array of its
name, modulus and rows in this order.
-/
namespace LinearCongruences

open Json

namespace CongruenceSystem

def ofValue? : Value → Option CongruenceSystem
  | .object members => do
    let name ← Value.optional? Value.text? "name" members
    let modulus ← Value.required? Value.natural? "modulus" members
    let rows ← Value.required? (Value.list? (Value.list? Value.integer?)) "rows" members
    return ⟨name, modulus, rows⟩
  | .array [name, modulus, rows] => do
    let name ← Value.nullable? Value.text? name
    let modulus ← modulus.natural?
    let rows ← rows.list? (Value.list? Value.integer?)
    return ⟨name, modulus, rows⟩
  | _ => none

def toValue (s : CongruenceSystem) : Value :=
  let name := s.name.toList.map fun n => ("name", .text n)
  let rows := s.rows.map fun row => .array (row.map .integer)
  .object (name ++ [("modulus", .natural s.modulus), ("rows", .array rows)])

end CongruenceSystem

inductive SystemFile where
  | one (system : CongruenceSystem)
  | many (systems : List CongruenceSystem)
deriving DecidableEq, Repr

namespace SystemFile

def systems : SystemFile → List CongruenceSystem
  | .one s => [s]
  | .many ss => ss

def one? (v : Value) : Option SystemFile :=
  (CongruenceSystem.ofValue? v).map .one

def many? (v : Value) : Option SystemFile :=
  (v.list? CongruenceSystem.ofValue?).map .many

def ofValue? (v : Value) : Option SystemFile :=
  (one? v).orElse fun _ => many? v

def toValue : SystemFile → Value
  | .one s => s.toValue
  | .many ss => .array (ss.map CongruenceSystem.toValue)

/-- The document is read to its end before its shape is looked at. -/
def ofDraft (d : Draft) : Except Problem SystemFile := do
  match ofValue? (← d.value) with
  | some file => return file
  | none => .error .wrongShape

def parse (text : String) : Except Problem SystemFile :=
  (Document.ofText text).read ofDraft

def render (file : SystemFile) : String :=
  Layout.compact.render file.toValue

end SystemFile

end LinearCongruences
