import LinearCongruences.Settings.Setting

/-!
Keys that are paths. A path begins with a name and goes on to entries of tables, behind a point, and
to items of lists, in brackets. Whatever stands in its way makes room: a setting that is no table
where a name is looked for becomes an empty table, and one that is no list where an item is looked
for becomes an empty list.
-/
namespace LinearCongruences.Setting

/-- A step of a path. Items below zero are counted from the end of the list. -/
inductive Step where
  | name (key : String)
  | item (index : Int)
deriving DecidableEq, Repr

def isNameChar (c : Char) : Bool :=
  c.isAlphanum || c == '_' || c == '-' || c == ' '

def isBlank (c : Char) : Bool := c == ' ' || c == '\t'

def trim (cs : List Char) : List Char :=
  ((cs.dropWhile isBlank).reverse.dropWhile isBlank).reverse

def index? (cs : List Char) : Option Int :=
  match trim cs with
  | '+' :: _ => none
  | cs => word? (String.ofList cs)

/-- The steps of a path from behind its first name. -/
def steps? : List Char → Option (List Step)
  | [] => some []
  | '.' :: cs =>
    let name := cs.takeWhile isNameChar
    if name.isEmpty then none
    else (steps? (cs.dropWhile isNameChar)).map (.name (String.ofList name) :: ·)
  | '[' :: cs => do
    let index ← index? (cs.takeWhile (· != ']'))
    if (cs.dropWhile (· != ']')).isEmpty then none
    else (steps? ((cs.dropWhile (· != ']')).drop 1)).map (.item index :: ·)
  | _ => none
termination_by cs => cs.length
decreasing_by
  · have := (List.dropWhile_suffix isNameChar (l := cs)).length_le
    simp only [List.length_cons]
    omega
  · have := (List.dropWhile_suffix (· != ']') (l := cs)).length_le
    simp only [List.length_cons, List.length_drop]
    omega

/-- The steps that a key stands for. A text that is no path is one name. -/
def path (key : String) : List Step :=
  match steps? ('.' :: key.toList) with
  | some steps => steps
  | none => [.name key]

/-- The first position that is taken to be too far out for a list. A key can name an item anywhere,
and a list that was filled up to this one would not fit into memory. -/
def listBound : Nat := Nat.pow 2 32

/-- The position of an item in a list of a certain length, which may lie behind its end. -/
def position (length : Nat) (index : Int) : Checked Nat :=
  if 0 ≤ index then Checked.below listBound index.toNat
  else Checked.minus length index.natAbs

/-- Puts a setting at the end of a path that begins at another. A list that is too short is filled
up with null. -/
def putAt (value : Setting) : List Step → Setting → Checked Setting
  | [], _ => .ok value
  | [.name key], there => .ok (.table (put there.entries key value))
  | .name key :: rest, there => do
    let inner := (lookup key.toLower there.entries).getD .null
    return .table (replace key.toLower (← putAt value rest inner) there.entries)
  | .item index :: rest, there => do
    let place ← position there.items.length index
    let items := there.items ++ List.replicate (place + 1 - there.items.length) .null
    return .list (items.set place (← putAt value rest (items.getD place .null)))

def merge (entries source : List (String × Setting)) : Checked (List (String × Setting)) :=
  source.foldlM (fun entries (key, value) => do
    return (← putAt value (path key) (.table entries)).entries) entries

end LinearCongruences.Setting
