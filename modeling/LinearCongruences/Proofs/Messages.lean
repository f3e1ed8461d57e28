import Mathlib
import LinearCongruences.Refusal

/-! Messages tell refusals apart. The first letters of a message tell what kind of refusal it is, and
its numbers are what the refusal says about the system. So the refusal can be found again from the
text alone. -/
namespace LinearCongruences

namespace Text

/-- The numbers that stand in a text, one for each run of digits. -/
def numbers (text : List Char) : List Nat :=
  ((text.splitOnP fun c => !c.isDigit).filter (· ≠ [])).map fun digits =>
    Nat.ofDigitChars 10 digits 0

variable {c : Char} {n : Nat}

theorem not_isDigit_toDigits (n : Nat) : ∀ c ∈ Nat.toDigits 10 n, (!c.isDigit) = false := by
  intro c inside
  simp [Nat.isDigit_of_mem_toDigits (by decide) (by decide) inside]

@[simp] theorem numbers_nil : numbers [] = [] := rfl

@[simp] theorem numbers_cons (other : c.isDigit = false) (rest : List Char) :
    numbers (c :: rest) = numbers rest := by
  simp [numbers, List.splitOnP_cons_eq_if_modifyHead, other]

@[simp] theorem numbers_toDigits : numbers (Nat.toDigits 10 n) = [n] := by
  have run := List.splitOnP_eq_singleton (not_isDigit_toDigits n)
  simp [numbers, run, Nat.ofDigitChars_toDigits]

/-- A number ends where the next word begins. -/
@[simp] theorem numbers_toDigits_append (other : c.isDigit = false) (rest : List Char) :
    numbers (Nat.toDigits 10 n ++ c :: rest) = n :: numbers rest := by
  have run := List.splitOnP_append_cons_of_forall_mem (not_isDigit_toDigits n) c (by simp [other])
    rest
  simp [numbers, run, Nat.ofDigitChars_toDigits]

theorem toString_eq (s : String) : toString s = s := rfl

end Text

open Text (toString_eq)

namespace Malformation

def numbers : Malformation → List Nat
  | .zeroModulus | .noEquations => []
  | .rowLength row length expected => [row, length, expected]
  | .notReduced row column value modulus => [row, column, value, modulus]
  | .firstRowPastEnd first last => [first, last]
  | .freeValueCount expected given => [expected, given]

theorem numbers_reason (what : Malformation) : Text.numbers what.reason.toList = what.numbers := by
  unfold reason
  cases what <;> simp [numbers, toString_eq]

theorem reason_injective : Function.Injective reason := by
  intro what what' same
  have start := congrArg (fun text => text.toList.take 2) same
  have inside := congrArg (fun text => Text.numbers text.toList) same
  simp only [numbers_reason] at inside
  unfold reason at start
  cases what <;> cases what' <;> simp_all [numbers, toString_eq]

end Malformation

theorem Operation.name_injective : Function.Injective name := by
  intro step step' same
  cases step <;> cases step' <;> simp_all [name]

namespace Refusal

def numbers : Refusal → List Nat
  | .notInvertible row pivot modulus => [pivot, row, modulus]
  | .malformed what => what.numbers
  | .tooEarly .. => []
  | .degeneratePivot row => [row]
  | .compositeModulus modulus => [modulus]

theorem numbers_message (r : Refusal) : Text.numbers r.message.toList = r.numbers := by
  unfold message
  cases r with
  | malformed what => simp [numbers, toString_eq, what.numbers_reason]
  | tooEarly operation required =>
    cases operation <;> cases required <;> simp [numbers, toString_eq, Operation.name]
  | _ => simp [numbers, toString_eq]

/-- No two refusals have the same message. -/
theorem message_injective : Function.Injective message := by
  intro r r' same
  have start := congrArg (fun text => text.toList.take 2) same
  have inside := congrArg (fun text => Text.numbers text.toList) same
  simp only [numbers_message] at inside
  unfold message at start
  cases r with
  | malformed what =>
    cases r' with
    | malformed what' =>
      have texts : "malformed system: " ++ what.reason = "malformed system: " ++ what'.reason := same
      rw [Malformation.reason_injective (String.append_right_inj _ |>.mp texts)]
    | tooEarly operation' _ => cases operation' <;> simp [toString_eq, Operation.name] at start
    | _ => simp [toString_eq] at start
  | tooEarly operation required =>
    cases r' with
    | malformed _ => cases operation <;> simp [toString_eq, Operation.name] at start
    | tooEarly operation' required' =>
      have first : operation = operation' := by
        clear same
        cases operation <;> cases operation' <;> simp_all [toString_eq, Operation.name]
      subst first
      have texts : operation.name ++ " requires " ++ required.name ++ " to run first" =
        operation.name ++ " requires " ++ required'.name ++ " to run first" := same
      have second : required.name = required'.name := by simpa using texts
      rw [Operation.name_injective second]
    | _ => simp [numbers] at inside
  | _ =>
    clear same
    cases r' with
    | tooEarly => simp [numbers] at inside
    | _ => simp_all [numbers, toString_eq]

end Refusal

end LinearCongruences
