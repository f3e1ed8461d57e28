import LinearCongruences.Settings.Toml.Scalar
import LinearCongruences.Settings.Toml.Table

/-!
Settings in TOML. A document is a sequence of lines: headers open tables, entries give values to
keys, and a key may name inner tables with points. A document is read as a whole or not at all.
-/
namespace LinearCongruences.Toml

mutual

/-- A value that takes at most so many steps, each of which consumes a character, with room for so
many containers that stand in each other. -/
def value? (room : Nat) : Nat → List Char → Option (Setting × List Char)
  | 0, _ => none
  | steps + 1, cs =>
    match cs with
    | '"' :: '"' :: '"' :: rest => (longText '"' true rest).map fun (s, rest) => (.text s, rest)
    | '"' :: rest => (basic [] rest).map fun (s, rest) => (.text s, rest)
    | '\x27' :: '\x27' :: '\x27' :: rest =>
      (longText '\x27' false rest).map fun (s, rest) => (.text s, rest)
    | '\x27' :: rest => (literal [] rest).map fun (s, rest) => (.text s, rest)
    | '[' :: rest =>
      if room = 0 then none
      else (items? (room - 1) steps rest).map fun (items, rest) => (.list items, rest)
    | '\x7b' :: rest =>
      if room = 0 then none
      else
        match skipSpaces rest with
        | '\x7d' :: rest => some (.table [], rest)
        | rest =>
          (pairs? (room - 1) steps [] rest).map fun (entries, rest) =>
            (.table (Node.toSettings entries), rest)
    | _ => bare? cs

/-- The items of an array up to its closing bracket. A comma may stand after the last one. -/
def items? (room : Nat) : Nat → List Char → Option (List Setting × List Char)
  | 0, _ => none
  | steps + 1, cs =>
    match skipLines cs.length cs with
    | ']' :: rest => some ([], rest)
    | start => do
      let (first, rest) ← value? room steps start
      match skipLines rest.length rest with
      | ']' :: rest => return ([first], rest)
      | ',' :: rest => do
        let (others, rest) ← items? room steps rest
        return (first :: others, rest)
      | _ => none

def pairs? (room steps : Nat) (entries : Entries) (cs : List Char) :
    Option (Entries × List Char) :=
  match steps with
  | 0 => none
  | steps + 1 => do
    let (path, rest) ← path? cs
    match rest with
    | '=' :: rest => do
      let (value, rest) ← value? room steps (skipSpaces rest)
      let entries ← Entries.give value true path entries
      match skipSpaces rest with
      | '\x7d' :: rest => return (entries, rest)
      | ',' :: rest => pairs? room steps entries rest
      | _ => none
    | _ => none

end

/-- The lines of a document, under the header that was last. -/
def lines? : Nat → List String → Entries → List Char → Option Entries
  | 0, _, _, _ => none
  | count + 1, header, entries, cs =>
    match skipLines cs.length cs with
    | [] => some entries
    | '[' :: '[' :: rest => do
      let (path, rest) ← path? rest
      match rest with
      | ']' :: ']' :: rest => do
        let entries ← Entries.within Entries.openNext path entries
        lines? count path entries (← endLine? rest)
      | _ => none
    | '[' :: rest => do
      let (path, rest) ← path? rest
      match rest with
      | ']' :: rest => do
        let entries ← Entries.within Entries.openTable path entries
        lines? count path entries (← endLine? rest)
      | _ => none
    | start => do
      let (path, rest) ← path? start
      match rest with
      | '=' :: rest => do
        let (value, rest) ← value? depthLimit (rest.length + 1) (skipSpaces rest)
        let entries ← Entries.giveUnder header path value entries
        lines? count header entries (← endLine? rest)
      | _ => none

mutual

/-- Puts the text of a moment in the place of each table that tells one. A table is such a table if
that is what its first key says. -/
def settle : Setting → Option Setting
  | .table entries =>
    match entries with
    | (key, value) :: rest =>
      if key == momentKey then
        match value with
        | .text s => (Moment.ofText? .wide s.toList).map fun m => .text m.render
        | _ => none
      else do
        return .table ((key, ← settle value) :: (← settleEntries rest))
    | [] => some (.table [])
  | .list items => (settleItems items).map .list
  | value => some value

def settleItems : List Setting → Option (List Setting)
  | [] => some []
  | item :: rest => do
    return (← settle item) :: (← settleItems rest)

def settleEntries : List (String × Setting) → Option (List (String × Setting))
  | [] => some []
  | (key, value) :: rest => do
    return (key, ← settle value) :: (← settleEntries rest)

end

def withoutMark : List Char → List Char
  | '\ufeff' :: cs => cs
  | cs => cs

def parse? (text : String) : Option (List (String × Setting)) := do
  let cs := withoutMark text.toList
  let entries ← lines? (cs.length + 1) [] [] cs
  match ← settle (.table (Node.toSettings entries)) with
  | .table settings => return settings
  | _ => none

end LinearCongruences.Toml
