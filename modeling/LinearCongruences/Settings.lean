/-!
What a user can choose about solving and reporting.
-/
namespace LinearCongruences

structure ReportSettings where
  pretty : Bool
  includeMatrix : Bool
deriving DecidableEq, Repr

structure Settings where
  logLevel : String
  /-- The largest prime modulus for which all inverses are laid out in a table. -/
  inverseTableLimit : Nat
  /-- Whether a composite modulus is refused at once. -/
  requirePrimeModulus : Bool
  threads : Option Nat
  report : ReportSettings
deriving DecidableEq, Repr

def ReportSettings.default : ReportSettings where
  pretty := true
  includeMatrix := false

def Settings.default : Settings where
  logLevel := "info"
  inverseTableLimit := Nat.pow 2 20
  requirePrimeModulus := false
  threads := none
  report := .default

end LinearCongruences
