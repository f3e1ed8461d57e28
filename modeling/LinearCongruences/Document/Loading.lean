import LinearCongruences.Directory
import LinearCongruences.Document.Report
import LinearCongruences.Document.SystemFile

/-!
Reading and writing the files of a directory.
-/
namespace LinearCongruences

inductive LoadError where
  | file (path : String) (error : FileError)
  | json (problem : Json.Problem)
deriving DecidableEq, Repr

def LoadError.message : LoadError → String
  | .file path error => s!"I/O error on {path}: {error.message}"
  | .json .endOfText => "JSON error: the text ends too early"
  | .json .illFormed => "JSON error: the text is not well formed"
  | .json .wrongShape => "JSON error: the document has another shape"

namespace Directory

def load {α : Type} (d : Directory) (path : String) (parse : String → Except Json.Problem α) :
    Except LoadError α :=
  match d.readText path with
  | .error error => .error (.file path error)
  | .ok text => (parse text).mapError .json

def loadSystems (d : Directory) (path : String) : Except LoadError SystemFile :=
  d.load path SystemFile.parse

def loadReports (d : Directory) (path : String) : Except LoadError (List Report) :=
  d.load path Report.parseAll

def layoutOf (pretty : Bool) : Json.Layout :=
  if pretty then .pretty else .compact

def saveReports (d : Directory) (path : String) (pretty : Bool) (reports : List Report) :
    Except LoadError Directory :=
  (d.write path (Report.renderAll (layoutOf pretty) reports)).mapError (.file path)

end Directory

end LinearCongruences
