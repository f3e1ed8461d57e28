import LinearCongruences.Settings.Yaml.Document

/-!
Settings in YAML. The document has to be a mapping.
-/
namespace LinearCongruences.Yaml

/-- The settings of a text, if it is well formed. A mapping with keys that are neither texts nor
whole numbers breaks the run. -/
def parse? (text : String) : Checked (Option (List (String × Setting))) := do
  match value? text with
  | none => return none
  | some n =>
    match ← n.toSetting with
    | some (.table entries) => return some entries
    | _ => return none

end LinearCongruences.Yaml
