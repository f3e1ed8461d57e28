/-!
The files that a run can see. A path is followed name by name, and every place on the way has to be
a folder, also where the path stays in place or goes up again.
-/
namespace LinearCongruences

inductive FileError where
  | notFound
  | notDirectory
  | isDirectory
  | nameTooLong
  | notText
deriving DecidableEq, Repr

def FileError.message : FileError → String
  | .notFound => "No such file or directory (os error 2)"
  | .notDirectory => "Not a directory (os error 20)"
  | .isDirectory => "Is a directory (os error 21)"
  | .nameTooLong => "File name too long (os error 36)"
  | .notText => "stream did not contain valid UTF-8"

/-- Where a path leads to: from the root or from the directory of the run, a number of folders up
and then down through the names, of which the last one comes first. -/
structure Place where
  fromRoot : Bool
  up : Nat
  names : List String
deriving DecidableEq, Repr

namespace Place

def start (path : String) : Place := ⟨path.startsWith "/", 0, []⟩

/-- Goes one step on. Above the root is the root. -/
def enter (p : Place) (name : String) : Place :=
  if name = "" ∨ name = "." then p
  else if name = ".." then
    match p.names with
    | _ :: rest => { p with names := rest }
    | [] => if p.fromRoot then p else { p with up := p.up + 1 }
  else { p with names := name :: p.names }

def key (p : Place) : String :=
  let start := if p.fromRoot then "/" else String.join (List.replicate p.up "../")
  start ++ "/".intercalate p.names.reverse

end Place

inductive FileEntry where
  | file (bytes : ByteArray)
  | folder

structure Directory where
  entries : List (String × FileEntry)

namespace Directory

def nameBound : Nat := 255

def pathBound : Nat := 4095

/-- The pieces between the slashes. -/
def pieces : List Char → List (List Char)
  | [] => [[]]
  | c :: cs =>
    if c = '/' then [] :: pieces cs
    else
      match pieces cs with
      | [] => [[c]]
      | piece :: rest => (c :: piece) :: rest

def steps (path : String) : List String := (pieces path.toList).map String.ofList

def entry? (d : Directory) (p : Place) : Option FileEntry :=
  if p.names.isEmpty then some .folder
  else (d.entries.find? fun e => e.1 == p.key).map Prod.snd

/-- Goes on from a place that has to be a folder. -/
def enter (d : Directory) (p : Place) (name : String) : Except FileError Place :=
  match d.entry? p with
  | none => .error .notFound
  | some (.file _) => .error .notDirectory
  | some .folder =>
    if name.utf8ByteSize ≤ nameBound then .ok (p.enter name) else .error .nameTooLong

/-- What a path leads to. The empty path leads nowhere. -/
def find (d : Directory) (path : String) : Except FileError FileEntry :=
  if path.isEmpty then .error .notFound
  else if path.utf8ByteSize > pathBound then .error .nameTooLong
  else do
    let place ← (steps path).foldlM d.enter (Place.start path)
    match d.entry? place with
    | none => .error .notFound
    | some entry => return entry

def has (d : Directory) (path : String) : Bool := (d.find path).isOk

def readBytes (d : Directory) (path : String) : Except FileError ByteArray := do
  match ← d.find path with
  | .folder => .error .isDirectory
  | .file bytes => return bytes

def readText (d : Directory) (path : String) : Except FileError String := do
  match String.fromUTF8? (← d.readBytes path) with
  | some text => return text
  | none => .error .notText

def replace (key : String) (entry : FileEntry) :
    List (String × FileEntry) → List (String × FileEntry)
  | [] => [(key, entry)]
  | e :: rest => if e.1 = key then (key, entry) :: rest else e :: replace key entry rest

/-- The steps to the folder that a file is to stand in, and the name that it is to have. A path
that cannot be the path of a file gives no name. -/
def target (path : String) : List String × Option String :=
  let names := ((steps path).reverse.dropWhile (· == "")).reverse
  match names.getLast? with
  | none => (names, none)
  | some name =>
    let blank := (steps path).getLast? == some ""
    (names.dropLast, if name == "." || name == ".." || blank then none else some name)

/-- Makes a file or changes its text. The folder that it stands in has to be there. -/
def write (d : Directory) (path text : String) : Except FileError Directory :=
  if path.isEmpty then .error .notFound
  else if path.utf8ByteSize > pathBound then .error .nameTooLong
  else do
    let (way, name) := target path
    let folder ← way.foldlM d.enter (Place.start path)
    let place ← d.enter folder (name.getD ".")
    if name.isNone then .error .isDirectory
    else
      match d.entry? place with
      | some .folder => .error .isDirectory
      | _ => return ⟨replace place.key (.file text.toUTF8) d.entries⟩

end Directory

end LinearCongruences
