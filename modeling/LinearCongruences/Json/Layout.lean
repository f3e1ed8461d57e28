import LinearCongruences.Json.Number
import LinearCongruences.Json.Text

/-!
Writing a value, either on one line without blanks or spread over lines that are indented by two
blanks for each open container. An empty container always stays on its line.
-/
namespace LinearCongruences.Json

inductive Layout where
  | compact
  | pretty
deriving DecidableEq, Repr

namespace Layout

def newline (layout : Layout) (depth : Nat) : List Char :=
  match layout with
  | .compact => []
  | .pretty => '\n' :: List.replicate (2 * depth) ' '

def colon : Layout → List Char
  | .compact => [':']
  | .pretty => [':', ' ']

def writeScalar : Scalar → List Char
  | .null => ['n', 'u', 'l', 'l']
  | .bool true => ['t', 'r', 'u', 'e']
  | .bool false => ['f', 'a', 'l', 's', 'e']
  | .number n => n.write
  | .text s => Text.write s

mutual

def write (layout : Layout) (depth : Nat) : Value → List Char
  | .scalar v => writeScalar v
  | .array [] => ['[', ']']
  | .array (item :: rest) =>
    '[' :: layout.newline (depth + 1) ++ write layout (depth + 1) item
      ++ writeItems layout (depth + 1) rest ++ layout.newline depth ++ [']']
  | .object [] => ['\x7b', '\x7d']
  | .object ((key, member) :: rest) =>
    '\x7b' :: layout.newline (depth + 1) ++ Text.write key ++ layout.colon
      ++ write layout (depth + 1) member
      ++ writeMembers layout (depth + 1) rest ++ layout.newline depth ++ ['\x7d']

def writeItems (layout : Layout) (depth : Nat) : List Value → List Char
  | [] => []
  | item :: rest =>
    ',' :: layout.newline depth ++ write layout depth item ++ writeItems layout depth rest

def writeMembers (layout : Layout) (depth : Nat) : List (String × Value) → List Char
  | [] => []
  | (key, member) :: rest =>
    ',' :: layout.newline depth ++ Text.write key ++ layout.colon
      ++ write layout depth member ++ writeMembers layout depth rest

end

def render (layout : Layout) (v : Value) : String :=
  String.ofList (layout.write 0 v)

end Layout

end LinearCongruences.Json
