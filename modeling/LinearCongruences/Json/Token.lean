import LinearCongruences.Json.Number
import LinearCongruences.Json.Text

/-!
The marks and scalars of a text, in order. A text that cannot be read on ends with a broken token,
which tells what went wrong there.
-/
namespace LinearCongruences.Json

inductive Token where
  | openArray
  | closeArray
  | openObject
  | closeObject
  | comma
  | colon
  | scalar (value : Scalar)
  /-- No token could be read. A quoted text that cannot be read is told apart from the rest. -/
  | broken (quoted : Bool) (problem : Problem)
deriving DecidableEq, Repr

namespace Token

def isBlank (c : Char) : Bool :=
  c == ' ' || c == '\n' || c == '\t' || c == '\r'

def mark (c : Char) : Option Token :=
  match c with
  | '[' => some .openArray
  | ']' => some .closeArray
  | '\x7b' => some .openObject
  | '\x7d' => some .closeObject
  | ',' => some .comma
  | ':' => some .colon
  | _ => none

/-- A scalar that is written as a word, of which these characters have to stand next. -/
def word (value : Scalar) : List Char → List Char → Except Problem (Scalar × List Char)
  | [], cs => .ok (value, cs)
  | _ :: _, [] => .error .endOfText
  | w :: ws, c :: cs => if w = c then word value ws cs else .error .illFormed

/-- A scalar and what follows it, or a broken token at the end. -/
def ofScan {α : Type} (quoted : Bool) (make : α → Scalar)
    (scan : Except Problem (α × List Char)) : Token × List Char :=
  match scan with
  | .ok (value, rest) => (.scalar (make value), rest)
  | .error problem => (.broken quoted problem, [])

def start (c : Char) (cs : List Char) : Token × List Char :=
  match mark c with
  | some token => (token, cs)
  | none =>
    if c = '"' then ofScan true .text (Text.read [] cs)
    else if c = 'n' then ofScan false id (word .null ['u', 'l', 'l'] cs)
    else if c = 't' then ofScan false id (word (.bool true) ['r', 'u', 'e'] cs)
    else if c = 'f' then ofScan false id (word (.bool false) ['a', 'l', 's', 'e'] cs)
    else if c = '-' ∨ c.isDigit then ofScan false .number (Number.read (c :: cs))
    else (.broken false .illFormed, [])

theorem length_word (value found : Scalar) (ws cs rest : List Char)
    (h : word value ws cs = .ok (found, rest)) : rest.length ≤ cs.length := by
  induction ws generalizing cs with
  | nil =>
    cases h
    exact Nat.le_refl _
  | cons w ws ih =>
    cases cs with
    | nil => contradiction
    | cons c cs =>
      unfold word at h
      split at h
      · exact Nat.le_succ_of_le (ih cs h)
      · contradiction

theorem length_ofScan {α : Type} (quoted : Bool) (make : α → Scalar) (bound : Nat)
    (scan : Except Problem (α × List Char))
    (h : ∀ value rest, scan = .ok (value, rest) → rest.length ≤ bound) :
    (ofScan quoted make scan).2.length ≤ bound := by
  unfold ofScan
  split
  · exact h _ _ rfl
  · exact Nat.zero_le _

theorem length_start (c : Char) (cs : List Char) : (start c cs).2.length ≤ cs.length := by
  unfold start
  split
  · exact Nat.le_refl _
  · repeat' split
    · exact length_ofScan _ _ _ _ fun value rest h =>
        Nat.le_of_lt (Text.length_read_le [] cs value rest h)
    · exact length_ofScan _ _ _ _ fun value rest h => length_word _ value _ cs rest h
    · exact length_ofScan _ _ _ _ fun value rest h => length_word _ value _ cs rest h
    · exact length_ofScan _ _ _ _ fun value rest h => length_word _ value _ cs rest h
    · exact length_ofScan _ _ _ _ fun value rest h =>
        Nat.le_of_lt_succ (Number.length_read (c :: cs) rest value h)
    · exact Nat.zero_le _

def all : List Char → List Token
  | [] => []
  | c :: cs =>
    if isBlank c then all cs
    else
      match h : start c cs with
      | (token, rest) =>
        have : rest.length ≤ cs.length := by
          have hlength := length_start c cs
          rw [h] at hlength
          exact hlength
        token :: all rest
termination_by cs => cs.length
decreasing_by all_goals simp only [List.length_cons]; omega

end Token

end LinearCongruences.Json
