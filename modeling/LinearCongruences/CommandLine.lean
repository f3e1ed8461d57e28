import LinearCongruences.Document.Loading
import LinearCongruences.Settings.Source

/-!
A run from the command line. All inputs are loaded before anything is solved, so an input that
cannot be loaded leaves no trace. The outcomes are printed in the order of the inputs, and a
report of them is written if a path for it was given.
-/
namespace LinearCongruences.CommandLine

def usage : String := "usage: modsolve <system.json>... [--out <report.json>]"

inductive Request where
  | help
  | solve (inputs : List String) (out : Option String)
deriving DecidableEq, Repr

inductive ArgumentError where
  | missingPath
  | noInputs
deriving DecidableEq, Repr

def ArgumentError.message : ArgumentError → String
  | .missingPath => "--out needs a path"
  | .noInputs => usage

/-- Reads the arguments from left to right, with the inputs so far last first. The argument after
an output option is a path, whatever it looks like; the last such path counts. -/
def parseFrom (inputs : List String) (out : Option String) :
    List String → Except ArgumentError Request
  | [] => if inputs.isEmpty then .error .noInputs else .ok (.solve inputs.reverse out)
  | arg :: rest =>
    if arg = "--out" ∨ arg = "-o" then
      match rest with
      | [] => .error .missingPath
      | path :: rest => parseFrom inputs (some path) rest
    else if arg = "--help" ∨ arg = "-h" then .ok .help
    else parseFrom (arg :: inputs) out rest

def parse (args : List String) : Except ArgumentError Request :=
  parseFrom [] none args

structure Run where
  exitCode : Nat
  stdout : String
  stderr : String
  /-- Whether the settings could not be read, so that the defaults were used. -/
  fallback : Bool
  directory : Directory

/-- The systems of all inputs, or the error of the first input that cannot be loaded. -/
def loadAll (directory : Directory) : List String → Except LoadError (List CongruenceSystem)
  | [] => .ok []
  | path :: rest => do
    let file ← directory.loadSystems path
    let others ← loadAll directory rest
    return file.systems ++ others

def renderOutcome (system : CongruenceSystem) (outcome : Outcome) : String :=
  let answer := match outcome.result with
    | .ok verdict => verdict.render
    | .error refusal => "error: " ++ refusal.message
  s!"{system.label} (mod {system.modulus}): {answer}\n"

def solveAll (settings : Settings) (fallback : Bool) (directory : Directory)
    (inputs : List String) (out : Option String) : Checked Run := do
  match loadAll directory inputs with
  | .error _ => return ⟨1, "", "", fallback, directory⟩
  | .ok systems =>
    let outcomes ← CongruenceSystem.outcomes settings systems
    let stdout := String.join (systems.zipWith renderOutcome outcomes)
    match out with
    | none => return ⟨0, stdout, "", fallback, directory⟩
    | some path =>
      let reports := outcomes.map Report.ofOutcome
      match directory.saveReports path settings.report.pretty reports with
      | .ok directory => return ⟨0, stdout, "", fallback, directory⟩
      | .error _ => return ⟨1, stdout, "", fallback, directory⟩

def runWith (settings : Settings) (fallback : Bool) (directory : Directory)
    (args : List String) : Checked Run :=
  match parse args with
  | .error error => .ok ⟨2, "", error.message ++ "\n", fallback, directory⟩
  | .ok .help => .ok ⟨0, usage ++ "\n", "", fallback, directory⟩
  | .ok (.solve inputs out) => solveAll settings fallback directory inputs out

def run (args : List String) (directory : Directory) (environment : List (String × String)) :
    Checked Run := do
  match ← Settings.load? directory environment with
  | some settings => runWith settings false directory args
  | none => runWith .default true directory args

end LinearCongruences.CommandLine
