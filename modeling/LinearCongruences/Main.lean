import LinearCongruences.CommandLine

/-!
The program: it gathers the files and variables that a run may look at, and carries out what the
run decides.
-/
namespace LinearCongruences.Main

/-- The variables that are looked at: one for each setting, and one for the settings of the report
together, for which no single value can stand. Variables with other names are not seen. -/
def variableNames : List String := [
  "MODSOLVE_LOG_LEVEL",
  "MODSOLVE_INVERSE_TABLE_LIMIT",
  "MODSOLVE_REQUIRE_PRIME_MODULUS",
  "MODSOLVE_THREADS",
  "MODSOLVE_REPORT",
  "MODSOLVE_REPORT__PRETTY",
  "MODSOLVE_REPORT__INCLUDE_MATRIX"]

def look (path : String) : IO (Option FileEntry) := do
  try
    return some (.file (← IO.FS.readBinFile path))
  catch
    | .inappropriateType .. => return some .folder
    | _ => return none

/-- The paths that a run with these arguments may read or write. -/
def pathsOf (args : List String) : List String :=
  let named := match CommandLine.parse args with
    | .ok (.solve inputs out) => inputs ++ out.toList
    | _ => []
  "modsolve.toml" :: "modsolve.yaml" :: named

def placesOn (path : String) : List Place :=
  ((Directory.steps path).foldl (fun places name =>
    (places.headD (Place.start path)).enter name :: places) []).reverse

def snapshot (paths : List String) : IO Directory := do
  let keys := (paths.flatMap placesOn).map Place.key
  let entries ← keys.eraseDups.filterMapM fun key => do
    return (← look key).map fun entry => (key, entry)
  return ⟨entries⟩

def environment : IO (List (String × String)) :=
  variableNames.filterMapM fun name => do
    return (← IO.getEnv name).map fun value => (name, value)

def save (args : List String) (before after : Directory) : IO Bool := do
  match CommandLine.parse args with
  | .ok (.solve _ (some path)) =>
    match after.readText path with
    | .ok text =>
      if (before.readText path).toOption == some text then return true
      else try IO.FS.writeFile path text; return true catch _ => return false
    | .error _ => return true
  | _ => return true

end LinearCongruences.Main

open LinearCongruences in
def main (args : List String) : IO UInt32 := do
  let directory ← Main.snapshot (Main.pathsOf args)
  match CommandLine.run args directory (← Main.environment) with
  | .error _ =>
    IO.eprintln "the computation left its range"
    return 101
  | .ok run =>
    if run.fallback then
      IO.eprintln "Failed to load configuration, using defaults"
    IO.print run.stdout
    IO.eprint run.stderr
    let saved ← Main.save args directory run.directory
    return if saved then run.exitCode.toUInt32 else 1
