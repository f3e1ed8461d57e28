import LinearCongruences.Settings.Setting

/-!
The tables of a TOML document while it is read. Each table is opened once and each key is given
once.
-/
namespace LinearCongruences.Toml

/-- How a table came to be: on the way of a header, by its own header, or on the way of a key. -/
inductive Origin where
  | implied
  | opened
  | dotted
deriving DecidableEq, Repr

/-- What stands under a key. A series holds the tables of repeated headers, the last one first. -/
inductive Node where
  | leaf (value : Setting)
  | table (origin : Origin) (entries : List (String × Node))
  | series (tables : List (List (String × Node)))
deriving Repr, Inhabited

abbrev Entries := List (String × Node)

namespace Node

mutual

def toSetting : Node → Setting
  | .leaf value => value
  | .table _ entries => .table (toSettings entries)
  | .series tables => .list (toTables tables).reverse

def toSettings : List (String × Node) → List (String × Setting)
  | [] => []
  | (key, node) :: rest => (key, node.toSetting) :: toSettings rest

def toTables : List (List (String × Node)) → List Setting
  | [] => []
  | entries :: rest => .table (toSettings entries) :: toTables rest

end

end Node

namespace Entries

def find (key : String) (entries : Entries) : Option Node :=
  (entries.find? fun e => e.1 == key).map Prod.snd

def replace (key : String) (node : Node) : Entries → Entries
  | [] => [(key, node)]
  | e :: rest => if e.1 = key then (key, node) :: rest else e :: replace key node rest

def moveToEnd (key : String) (node : Node) (entries : Entries) : Entries :=
  entries.filter (fun e => e.1 != key) ++ [(key, node)]

/-- Changes the table that a header path leads to. Tables that are missing on the way are put
in. -/
def within (change : String → Entries → Option Entries) : List String → Entries → Option Entries
  | [], _ => none
  | [key], entries => change key entries
  | key :: rest, entries =>
    match find key entries with
    | none => do
      return replace key (.table .implied (← within change rest [])) entries
    | some (.table origin inner) => do
      return replace key (.table origin (← within change rest inner)) entries
    | some (.series (last :: earlier)) => do
      return replace key (.series ((← within change rest last) :: earlier)) entries
    | _ => none

/-- Opens a table, which may have been on the way of another header. -/
def openTable (key : String) (entries : Entries) : Option Entries :=
  match find key entries with
  | none => some (replace key (.table .opened []) entries)
  | some (.table .implied inner) => some (moveToEnd key (.table .opened inner) entries)
  | _ => none

def openNext (key : String) (entries : Entries) : Option Entries :=
  match find key entries with
  | none => some (replace key (.series [[]]) entries)
  | some (.series tables) => some (replace key (.series ([] :: tables)) entries)
  | _ => none

/-- Gives a value to a key, if its table may get one: `free` tells that. A table on the way may not
have a header of its own, and the last one on the way has to come from keys only. -/
def give (value : Setting) (free : Bool) : List String → Entries → Option Entries
  | [], _ => none
  | [key], entries =>
    if free && (find key entries).isNone then some (replace key (.leaf value) entries) else none
  | key :: rest, entries =>
    match find key entries with
    | none => do
      return replace key (.table .dotted (← give value true rest [])) entries
    | some (.table .opened _) => none
    | some (.table origin inner) => do
      return replace key (.table origin (← give value (origin == .dotted) rest inner)) entries
    | some (.series (last :: earlier)) => do
      return replace key (.series ((← give value false rest last) :: earlier)) entries
    | _ => none

def giveUnder (header path : List String) (value : Setting) (entries : Entries) :
    Option Entries :=
  if header.isEmpty then give value true path entries
  else
    within (fun key entries =>
      match find key entries with
      | some (.table origin inner) => do
        return replace key (.table origin (← give value true path inner)) entries
      | some (.series (last :: earlier)) => do
        return replace key (.series ((← give value true path last) :: earlier)) entries
      | _ => none) header entries

end Entries

end LinearCongruences.Toml
