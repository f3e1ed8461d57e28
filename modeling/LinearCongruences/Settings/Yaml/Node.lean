import LinearCongruences.Settings.Setting
import LinearCongruences.Settings.Yaml.Token

/-!
The values of a YAML document. A plain scalar is a number, a flag or null if it looks like one; a
quoted scalar is always text. The keys of a mapping may be any values, but only texts and whole
numbers can be keys of settings.
-/
namespace LinearCongruences.Yaml

inductive Node where
  /-- A value that cannot be told: it does not fit its tag, or it is still being read. -/
  | missing
  | null
  | flag (value : Bool)
  | integer (value : Int)
  /-- A number that is not whole, as it is written. -/
  | real (text : String)
  | text (value : String)
  | list (items : List Node)
  | table (entries : List (Node × Node))
deriving Repr, Inhabited

namespace Node

mutual

/-- Whether two values are the same, with the entries of mappings in the same order. -/
def same : Node → Node → Bool
  | .missing, .missing => true
  | .null, .null => true
  | .flag a, .flag b => a == b
  | .integer a, .integer b => a == b
  | .real a, .real b => a == b
  | .text a, .text b => a == b
  | .list a, .list b => sameItems a b
  | .table a, .table b => sameEntries a b
  | _, _ => false

def sameItems : List Node → List Node → Bool
  | [], [] => true
  | a :: as, b :: bs => a.same b && sameItems as bs
  | _, _ => false

def sameEntries : List (Node × Node) → List (Node × Node) → Bool
  | [], [] => true
  | (k, v) :: as, (l, w) :: bs => k.same l && v.same w && sameEntries as bs
  | _, _ => false

end

def isMissing : Node → Bool
  | .missing => true
  | _ => false

/-! Scalars -/

def based? (base : Nat) (cs : List Char) : Option Int := do
  let (negative, digits) := match cs with
    | '-' :: rest => (true, rest)
    | '+' :: rest => (false, rest)
    | rest => (false, rest)
  let values ← digits.mapM Hexadecimal.value?
  if values.isEmpty || values.any (· ≥ base) then none
  else
    let size : Int := (values.foldl (fun n d => n * base + d) 0 : Nat)
    Checked.signedWord? (if negative then -size else size)

def isSpecialReal (text : String) : Bool :=
  text ∈ [".inf", ".Inf", ".INF", "+.inf", "+.Inf", "+.INF", "-.inf", "-.Inf", "-.INF",
    ".nan", ".NaN", ".NAN"]

def isReal (text : String) : Bool :=
  isSpecialReal text || (Setting.real? text).isSome

/-- A whole number with a prefix for its base, or with a further sign. -/
def marked? (text : String) : Option Int :=
  match text.toList with
  | '0' :: 'x' :: cs => based? 16 cs
  | '0' :: 'o' :: cs => based? 8 cs
  | '+' :: cs => based? 10 cs
  | _ => none

def ofPlain (text : String) : Node :=
  match marked? text with
  | some z => .integer z
  | none =>
    if text == "~" || text == "null" then .null
    else if text == "true" then .flag true
    else if text == "false" then .flag false
    else
      match based? 10 text.toList with
      | some z => .integer z
      | none => if isReal text then .real text else .text text

def ofTyped (type text : String) : Node :=
  if type == "bool" then
    if text == "true" then .flag true
    else if text == "false" then .flag false
    else .missing
  else if type == "int" then ((based? 10 text.toList).map Node.integer).getD .missing
  else if type == "float" then if isReal text then .real text else .missing
  else if type == "null" then if text == "~" || text == "null" then .null else .missing
  else .text text

def standardPrefix : String := "tag:yaml.org,2002:"

/-- A scalar with its tag, in which the handle stands for a prefix already. -/
def ofScalar (isPlain : Bool) (tag : Option (String × String)) (text : String) : Node :=
  if !isPlain then .text text
  else
    match tag with
    | none => ofPlain text
    | some (start, type) => if start == standardPrefix then ofTyped type text else .text text

/-! Settings -/

/-- The key of a setting. Values that are neither text nor whole numbers break the run. -/
def keyText : Node → Checked String
  | .text s => .ok s
  | .integer z => .ok (toString z)
  | _ => .error .badKey

mutual

/-- The setting that a value makes. The special words for numbers make none. -/
def toSetting : Node → Checked (Option Setting)
  | .missing => .ok (some .null)
  | .null => .ok (some .null)
  | .flag b => .ok (some (.flag b))
  | .integer z => .ok (some (.integer z))
  | .real s => .ok ((Setting.real? s).map .real)
  | .text s => .ok (some (.text s))
  | .list items => do
    return (← toItems items).map .list
  | .table entries => do
    return (← toEntries [] entries).map .table

def toItems : List Node → Checked (Option (List Setting))
  | [] => .ok (some [])
  | item :: rest => do
    match ← item.toSetting with
    | none => return none
    | some first => return (← toItems rest).map (first :: ·)

/-- Of entries with the same key the last one counts. -/
def toEntries (done : List (String × Setting)) :
    List (Node × Node) → Checked (Option (List (String × Setting)))
  | [] => .ok (some done)
  | (key, value) :: rest => do
    let name ← key.keyText
    match ← value.toSetting with
    | none => return none
    | some setting => toEntries (Setting.replace name setting done) rest

end

end Node

end LinearCongruences.Yaml
