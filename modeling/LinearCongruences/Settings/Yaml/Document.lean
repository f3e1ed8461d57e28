import LinearCongruences.Settings.Yaml.Node
import LinearCongruences.Settings.Yaml.Outline

/-!
The value of a YAML document, read from its tokens. A node may be given a name, and stands again
wherever the name is called later. A name that is given twice calls the later node.
-/
namespace LinearCongruences.Yaml

/-- What is known on the way: the prefixes of tags, the nodes that names were given to, each under
the number of its turn, and those of them that are complete. -/
structure Known where
  prefixes : List (String × String)
  names : List (String × Nat)
  nodes : List (Nat × Node)
deriving Repr

namespace Known

def start : Known := ⟨[], [], []⟩

def give (k : Known) (name : String) : Nat × Known :=
  let turn := k.names.length
  (turn, { k with names := (name, turn) :: k.names })

def complete (k : Known) (turn : Option Nat) (n : Node) : Known :=
  match turn with
  | some turn => { k with nodes := (turn, n) :: k.nodes }
  | none => k

/-- The node that a name calls. A node that is not complete yet is missing. -/
def call? (k : Known) (name : String) : Option Node := do
  let turn ← k.names.lookup name
  return (k.nodes.lookup turn).getD .missing

/-- The prefix and the rest of a tag. A handle between two marks has to be known. -/
def resolve? (k : Known) (handle suffix : String) : Option (String × String) :=
  match k.prefixes.lookup handle with
  | some start => some (start, suffix)
  | none =>
    if handle == "!!" then some (Node.standardPrefix, suffix)
    else if handle.length ≥ 2 then none
    else some (handle, suffix)

end Known

/-- The entries of a mapping, with a key that waits for its value. -/
structure Pairs where
  entries : List (Node × Node)
  key : Option Node
deriving Repr

namespace Pairs

def empty : Pairs := ⟨[], none⟩

/-- Adds a key or its value. A value that is missing cannot be a key, and a key that is there
already is refused. -/
def add (p : Pairs) (n : Node) : Option Pairs :=
  match p.key with
  | none => some { p with key := if n.isMissing then none else some n }
  | some key =>
    if p.entries.any fun e => e.1.same key then none
    else some ⟨(key, n) :: p.entries, none⟩

def node (p : Pairs) : Node := .table p.entries.reverse

end Pairs

abbrev Reading (α : Type) := α × Known × List Token

def properties? (k : Known) : List Token → Option (Reading (Option Nat × Option (String × String)))
  | .anchor name :: .tag handle suffix :: ts => do
    let (turn, k) := k.give name
    return ((some turn, some (← k.resolve? handle suffix)), k, ts)
  | .tag handle suffix :: .anchor name :: ts => do
    let tag ← k.resolve? handle suffix
    let (turn, k) := k.give name
    return ((some turn, some tag), k, ts)
  | .anchor name :: ts =>
    let (turn, k) := k.give name
    some ((some turn, none), k, ts)
  | .tag handle suffix :: ts => do
    return ((none, some (← k.resolve? handle suffix)), k, ts)
  | ts => some ((none, none), k, ts)

mutual

/-- A node. Collections without brackets may stand in blocks only, and entries without a level of
their own only below a key. -/
def node? (inBlock belowKey : Bool) : Nat → Known → List Token → Option (Reading Node)
  | 0, _, _ => none
  | _, k, .alias name :: ts => do
    return (← k.call? name, k, ts)
  | steps + 1, k, ts => do
    let ((turn, tag), k, ts) ← properties? k ts
    let (n, k, ts) ← content? inBlock belowKey (turn.isSome || tag.isSome) tag steps k ts
    return (n, k.complete turn n, ts)

/-- A node without its properties. With a property it may be empty. -/
def content? (inBlock belowKey mayBeEmpty : Bool) (tag : Option (String × String)) :
    Nat → Known → List Token → Option (Reading Node)
  | 0, _, _ => none
  | steps + 1, k, ts =>
    match ts with
    | .scalar isPlain text :: rest => some (.ofScalar isPlain tag text, k, rest)
    | .flowSequence :: rest => flowItems? true [] steps k rest
    | .flowMapping :: rest => flowPairs? true .empty steps k rest
    | _ =>
      let empty : Option (Reading Node) :=
        if mayBeEmpty then some (.ofScalar true tag "", k, ts) else none
      match ts with
      | .blockEntry :: _ => if belowKey then looseItems? [] steps k ts else empty
      | .blockSequence :: rest => if inBlock then blockItems? [] steps k rest else empty
      | .blockMapping :: rest => if inBlock then blockPairs? .empty steps k rest else empty
      | _ => empty

/-- The items of a block sequence; those before come last first. -/
def blockItems? (done : List Node) : Nat → Known → List Token → Option (Reading Node)
  | 0, _, _ => none
  | steps + 1, k, ts =>
    match ts with
    | .blockEnd :: rest => some (.list done.reverse, k, rest)
    | .blockEntry :: rest => do
      let (item, k, rest) ← match rest with
        | .blockEntry :: _ | .blockEnd :: _ => some (.null, k, rest)
        | _ => node? true false steps k rest
      blockItems? (item :: done) steps k rest
    | _ => none

/-- The items of a sequence that stands no further in than the key before it. -/
def looseItems? (done : List Node) : Nat → Known → List Token → Option (Reading Node)
  | 0, _, _ => none
  | steps + 1, k, ts =>
    match ts with
    | .blockEntry :: rest => do
      let (item, k, rest) ← match rest with
        | .blockEntry :: _ | .key :: _ | .value :: _ | .blockEnd :: _ => some (.null, k, rest)
        | _ => node? true false steps k rest
      looseItems? (item :: done) steps k rest
    | _ => some (.list done.reverse, k, ts)

/-- The entries of a block mapping. A key without value and a value without key stand beside
null. -/
def blockPairs? (done : Pairs) : Nat → Known → List Token → Option (Reading Node)
  | 0, _, _ => none
  | steps + 1, k, ts =>
    let part (rest : List Token) : Option (Reading Node) :=
      match rest with
      | .key :: _ | .value :: _ | .blockEnd :: _ => some (.null, k, rest)
      | _ => node? true true steps k rest
    match ts with
    | .blockEnd :: rest => some (done.node, k, rest)
    | .key :: rest => do
      let (key, k, rest) ← part rest
      blockValue? (← done.add key) steps k rest
    | .value :: _ => do
      blockValue? (← done.add .null) steps k ts
    | _ => none

def blockValue? (done : Pairs) : Nat → Known → List Token → Option (Reading Node)
  | 0, _, _ => none
  | steps + 1, k, ts => do
    let (value, k, rest) ← match ts with
      | .value :: rest =>
        match rest with
        | .key :: _ | .value :: _ | .blockEnd :: _ => some (.null, k, rest)
        | _ => node? true true steps k rest
      | _ => some (.null, k, ts)
    blockPairs? (← done.add value) steps k rest

def flowItems? (first : Bool) (done : List Node) : Nat → Known → List Token → Option (Reading Node)
  | 0, _, _ => none
  | steps + 1, k, ts =>
    match ts with
    | .flowSequenceEnd :: rest => some (.list done.reverse, k, rest)
    | _ => do
      let ts ← match ts with
        | .flowEntry :: rest => if first then some ts else some rest
        | _ => if first then some ts else none
      match ts with
      | .flowSequenceEnd :: rest => return (.list done.reverse, k, rest)
      | .key :: rest => do
        let (item, k, rest) ← singlePair? steps k rest
        flowItems? false (item :: done) steps k rest
      | _ => do
        let (item, k, rest) ← node? false false steps k ts
        flowItems? false (item :: done) steps k rest

/-- A mapping of one pair without braces, from behind the mark of its key. -/
def singlePair? : Nat → Known → List Token → Option (Reading Node)
  | 0, _, _ => none
  | steps + 1, k, ts => do
    let (key, k, rest) ← match ts with
      | .value :: rest | .flowEntry :: rest | .flowSequenceEnd :: rest => some (.null, k, rest)
      | _ => node? false false steps k ts
    let (value, k, rest) ← match rest with
      | .value :: rest =>
        match rest with
        | .flowEntry :: _ | .flowSequenceEnd :: _ => some (.null, k, rest)
        | _ => node? false false steps k rest
      | _ => some (.null, k, rest)
    return ((← (← Pairs.empty.add key).add value).node, k, rest)

def flowPairs? (first : Bool) (done : Pairs) : Nat → Known → List Token → Option (Reading Node)
  | 0, _, _ => none
  | steps + 1, k, ts =>
    match ts with
    | .flowMappingEnd :: rest => some (done.node, k, rest)
    | _ => do
      let ts ← match ts with
        | .flowEntry :: rest => if first then some ts else some rest
        | _ => if first then some ts else none
      match ts with
      | .flowMappingEnd :: rest => return (done.node, k, rest)
      | .key :: rest => do
        let (key, k, rest) ← match rest with
          | .value :: _ | .flowEntry :: _ | .flowMappingEnd :: _ => some (.null, k, rest)
          | _ => node? false false steps k rest
        flowValue? (← done.add key) steps k rest
      | .value :: _ => do
        flowValue? (← done.add .null) steps k ts
      | _ => do
        let (key, k, rest) ← node? false false steps k ts
        flowPairs? false (← (← done.add key).add .null) steps k rest

def flowValue? (done : Pairs) : Nat → Known → List Token → Option (Reading Node)
  | 0, _, _ => none
  | steps + 1, k, ts => do
    let (value, k, rest) ← match ts with
      | .value :: rest =>
        match rest with
        | .flowEntry :: _ | .flowMappingEnd :: _ => some (.null, k, rest)
        | _ => node? false false steps k rest
      | _ => some (.null, k, ts)
    flowPairs? false (← done.add value) steps k rest

end

/-- The lines before a document. A version may be given once, and only the prefix of the last line
is kept. -/
def directives? (versioned : Bool) (prefixes : List (String × String)) :
    List Token → Option (List (String × String) × List Token)
  | .version :: ts => if versioned then none else directives? true [] ts
  | .tagPrefix handle text :: ts => directives? versioned [(handle, text)] ts
  | ts => some (prefixes, ts)

def isDirective : Token → Bool
  | .version => true
  | .tagPrefix .. => true
  | _ => false

def firstDocument? (ts : List Token) : Option (Node × List Token) := do
  let (prefixes, body) ← directives? false [] ts
  let known : Known := { Known.start with prefixes := prefixes }
  let steps := 4 * ts.length + 8
  match body with
  | .documentStart :: rest =>
    match rest with
    | .version :: _ | .tagPrefix .. :: _ | .documentStart :: _ | .documentEnd :: _
    | .textEnd :: _ => return (.null, rest)
    | _ => do
      let (n, _, rest) ← node? true false steps known rest
      return (n, rest)
  | _ =>
    if (ts.head?.map isDirective).getD false then none
    else do
      let (n, _, rest) ← node? true false steps known body
      return (n, rest)

def dropEnds (ts : List Token) : List Token := ts.dropWhile (· == .documentEnd)

/-- The value of a text. A text without any document is an empty mapping, and one with more than one
document is refused. -/
def value? (text : String) : Option Node := do
  let ts := dropEnds (← tokens? text)
  if ts == [.textEnd] then return .table []
  else
    let (n, rest) ← firstDocument? ts
    if dropEnds rest == [.textEnd] then return n else none

end LinearCongruences.Yaml
