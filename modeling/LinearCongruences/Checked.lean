/-!
Computation with bounded numbers. Every operation that a machine word can fail at is a function
into `Checked`: a result that leaves its range, a division by zero, an index outside its array.
A run that returns a value has therefore stayed inside every range on the way.
-/
namespace LinearCongruences

/-- Why a computation cannot go on. -/
inductive Fault where
  | outOfRange
  | divisionByZero
  | badIndex
  | sameRow
  /-- An array of more entries than one piece of memory can have. -/
  | noRoom
  /-- A key that no setting can have. -/
  | badKey
deriving DecidableEq, Repr

abbrev Checked := Except Fault

/-! Each bound is one more than the largest number of its kind. Products of words are taken in double
words. -/

def wordBound : Nat := Nat.pow 2 64

def signedWordBound : Nat := Nat.pow 2 63

def doubleBound : Nat := Nat.pow 2 128

def signedDoubleBound : Nat := Nat.pow 2 127

/-- For the exponents that powers are taken to. -/
def exponentBound : Nat := Nat.pow 2 32

namespace Checked

/-- `n` itself, as long as it stays under `bound`. -/
def below (bound n : Nat) : Checked Nat :=
  if n < bound then .ok n else .error .outOfRange

/-- `z` itself, as long as it stays in `[-bound, bound)`. -/
def within (bound : Nat) (z : Int) : Checked Int :=
  if -(bound : Int) ≤ z ∧ z < bound then .ok z else .error .outOfRange

def signedWord? (z : Int) : Option Int :=
  (within signedWordBound z).toOption

/-- The difference of two numbers, which may not go below zero. -/
def minus (a b : Nat) : Checked Nat :=
  if b ≤ a then .ok (a - b) else .error .outOfRange

def quotient (a b : Nat) : Checked Nat :=
  if b = 0 then .error .divisionByZero else .ok (a / b)

def remainder (a b : Nat) : Checked Nat :=
  if b = 0 then .error .divisionByZero else .ok (a % b)

/-- The remainder that has the sign of the dividend. -/
def signedRemainder (a : Int) (b : Nat) : Checked Int :=
  if b = 0 then .error .divisionByZero else .ok (a.tmod b)

def get {α : Type} (xs : Array α) (i : Nat) : Checked α :=
  if h : i < xs.size then .ok xs[i] else .error .badIndex

def set {α : Type} (xs : Array α) (i : Nat) (x : α) : Checked (Array α) :=
  if h : i < xs.size then .ok (xs.set i x) else .error .badIndex

/-- The list from position `i` on, which may be its end. -/
def suffix {α : Type} (xs : List α) (i : Nat) : Checked (List α) :=
  if i ≤ xs.length then .ok (xs.drop i) else .error .badIndex

def require (p : Prop) [Decidable p] (fault : Fault) : Checked Unit :=
  if p then .ok () else .error fault

end Checked

end LinearCongruences
