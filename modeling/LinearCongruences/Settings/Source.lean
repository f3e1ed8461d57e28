import LinearCongruences.Directory
import LinearCongruences.Json.Draft
import LinearCongruences.Settings
import LinearCongruences.Settings.KeyPath
import LinearCongruences.Settings.Toml
import LinearCongruences.Settings.Yaml

/-!
Where settings come from. Defaults come first, then a file, then the environment; what comes later
wins. Only the settings that are left in the end have to make sense.
-/
namespace LinearCongruences

namespace Setting

mutual

/-- A number that no signed word holds is read as a double. Of members with the same key the last
one counts. -/
def ofJson : Json.Value → Setting
  | .scalar .null => .null
  | .scalar (.bool b) => .flag b
  | .scalar (.number (.integer z)) => if z < signedWordBound then .integer z else .real (Float.ofInt z)
  | .scalar (.number n) => .real n.toFloat
  | .scalar (.text s) => .text s
  | .array items => .list (ofJsonItems items)
  | .object members => .table (ofJsonMembers [] members)

def ofJsonItems : List Json.Value → List Setting
  | [] => []
  | item :: rest => ofJson item :: ofJsonItems rest

def ofJsonMembers (entries : List (String × Setting)) :
    List (String × Json.Value) → List (String × Setting)
  | [] => entries
  | (key, member) :: rest => ofJsonMembers (replace key (ofJson member) entries) rest

end

end Setting

inductive Format where
  | toml
  | yaml
  | json
deriving DecidableEq, Repr

namespace Format

/-- The format that the last part of a file name tells. A point at the beginning of the name does
not count. -/
def ofPath (path : String) : Option Format :=
  match (((Directory.steps path).getLastD "").splitOn ".").reverse with
  | [_] => none
  | [_, ""] => none
  | "toml" :: _ => some .toml
  | "yaml" :: _ | "yml" :: _ => some .yaml
  | "json" :: _ => some .json
  | _ => none

def parse? (format : Format) (text : String) : Checked (Option (List (String × Setting))) :=
  match format with
  | .toml => .ok (Toml.parse? text)
  | .yaml => Yaml.parse? text
  | .json =>
    match (Json.Document.ofText text).read Json.Draft.value with
    | .ok (.object members) => .ok (some (Setting.ofJsonMembers [] members))
    | _ => .ok none

end Format

namespace Settings

def defaultEntries : List (String × Setting) := [
  ("log_level", .text Settings.default.logLevel),
  ("inverse_table_limit", .integer Settings.default.inverseTableLimit),
  ("require_prime_modulus", .flag Settings.default.requirePrimeModulus),
  ("report", .table [
    ("pretty", .flag Settings.default.report.pretty),
    ("include_matrix", .flag Settings.default.report.includeMatrix)])]

/-- A variable's value: a flag, a number, or the text as it stands. -/
def variableValue (text : String) : Setting :=
  let lower := text.toLower
  if lower = "true" then .flag true
  else if lower = "false" then .flag false
  else
    match Setting.word? text with
    | some z => .integer z
    | none =>
      match Setting.real? text with
      | some x => .real x
      | none => .text text

def variableStart : String := "modsolve_"

/-- The settings among the variables. Two underscores lead into a table. -/
def variableEntries (environment : List (String × String)) : List (String × Setting) :=
  environment.filterMap fun (name, value) =>
    let lower := name.toLower
    if lower.startsWith variableStart then
      let key := (lower.drop variableStart.length).toString
      some (".".intercalate (key.splitOn "__"), variableValue value)
    else none

def reportOfEntries? : Setting → Option ReportSettings
  | .table entries => do
    let pretty ← Setting.lookup "pretty" entries
    let includeMatrix ← Setting.lookup "include_matrix" entries
    return ⟨← pretty.flag?, ← includeMatrix.flag?⟩
  | .list (pretty :: includeMatrix :: _) => do
    return ⟨← pretty.flag?, ← includeMatrix.flag?⟩
  | _ => none

/-- The settings that the entries make up. Entries that mean nothing are left out. -/
def ofEntries? (entries : List (String × Setting)) : Option Settings := do
  let logLevel ← Setting.lookup "log_level" entries
  let limit ← Setting.lookup "inverse_table_limit" entries
  let prime ← Setting.lookup "require_prime_modulus" entries
  let threads := (Setting.lookup "threads" entries).getD .null
  let report ← Setting.lookup "report" entries
  return {
    logLevel := ← logLevel.text?
    inverseTableLimit := ← limit.natural?
    requirePrimeModulus := ← prime.flag?
    threads := ← Setting.nullable? Setting.natural? threads
    report := ← reportOfEntries? report }

/-- The entries of a file. A file that is not there has none. -/
def fileEntries? (directory : Directory) (path : String) :
    Checked (Option (List (String × Setting))) :=
  if !directory.has path then .ok (some [])
  else
    match directory.readText path, Format.ofPath path with
    | .ok text, some format => format.parse? text
    | _, _ => .ok none

/-- The settings with a file of the user's choice. The file and the environment are put together
before they are laid over the defaults. -/
def loadFile? (directory : Directory) (environment : List (String × String)) (path : String) :
    Checked (Option Settings) := do
  match ← fileEntries? directory path with
  | none => return none
  | some file =>
    let chosen ← Setting.merge (← Setting.merge [] file) (variableEntries environment)
    return ofEntries? (← Setting.merge defaultEntries chosen)

def usualPath (directory : Directory) : String :=
  if directory.has "modsolve.toml" then "modsolve.toml" else "modsolve.yaml"

def load? (directory : Directory) (environment : List (String × String)) :
    Checked (Option Settings) :=
  loadFile? directory environment (usualPath directory)

end Settings

end LinearCongruences
