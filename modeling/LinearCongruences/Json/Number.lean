import LinearCongruences.Checked
import LinearCongruences.Json.Value

/-!
Numbers in a text. A number has a whole part without needless zeros, and may have a fraction and
an exponent. It must not exceed the largest finite double.
-/
namespace LinearCongruences.Json.Number

/-- At least one digit, and what follows the digits. -/
def someDigits (cs : List Char) : Except Problem (List Char × List Char) :=
  let digits := cs.takeWhile Char.isDigit
  let rest := cs.dropWhile Char.isDigit
  if digits.isEmpty then .error (if rest.isEmpty then .endOfText else .illFormed)
  else .ok (digits, rest)

/-- The digits before the point, which begin with zero only if that is all. -/
def wholePart (cs : List Char) : Except Problem (List Char × List Char) := do
  let (digits, rest) ← someDigits cs
  match digits with
  | '0' :: _ :: _ => .error .illFormed
  | _ => return (digits, rest)

def fractionPart : List Char → Except Problem (Option (List Char) × List Char)
  | '.' :: cs => do
    let (digits, rest) ← someDigits cs
    return (some digits, rest)
  | cs => .ok (none, cs)

def sign : List Char → Bool × List Char
  | '-' :: cs => (true, cs)
  | '+' :: cs => (false, cs)
  | cs => (false, cs)

def signedDigits (cs : List Char) : Except Problem (Option Int × List Char) := do
  let (digits, rest) ← someDigits (sign cs).2
  let size : Int := Nat.ofDigitChars 10 digits 0
  return (some (if (sign cs).1 then -size else size), rest)

def exponentPart : List Char → Except Problem (Option Int × List Char)
  | 'e' :: cs => signedDigits cs
  | 'E' :: cs => signedDigits cs
  | cs => .ok (none, cs)

/-- Appends digits to a significand as long as a word holds it. The second number counts the
digits taken. -/
def absorb (significand count : Nat) : List Char → Nat × Nat
  | [] => (significand, count)
  | c :: cs =>
    let next := significand * 10 + (c.toNat - '0'.toNat)
    if next < wordBound then absorb next (count + 1) cs else (significand, count)

def powerOfTen (k : Nat) : Float := Float.ofScientific 1 false k

/-- Divides by `10 ^ k`, at most `10 ^ 308` at a time. -/
def scaleDown (x : Float) (k : Nat) : Float :=
  if k ≤ 308 then x / powerOfTen k
  else if x == 0 then x
  else scaleDown (x / powerOfTen 308) (k - 308)
termination_by k
decreasing_by omega

/-- The double for `significand * 10 ^ exponent`, by one multiplication or by divisions. Nothing,
if it would not be finite. -/
def magnitude (significand : Nat) (exponent : Int) : Option Float :=
  let x := Float.ofNat significand
  if exponent < 0 then some (scaleDown x exponent.natAbs)
  else if exponent ≤ 308 then
    let scaled := x * powerOfTen exponent.natAbs
    if scaled.isInf then none else some scaled
  else if x == 0 then some x
  else none

def finite (negative : Bool) (significand : Nat) (exponent : Int) : Except Problem Number :=
  match magnitude significand exponent with
  | some _ => .ok (.decimal negative significand exponent)
  | none => .error .illFormed

/-- The number that the parts of a text write. Digits that no longer fit a word are dropped: they
count for the exponent in the whole part and for nothing in the fraction. -/
def ofParts (negative : Bool) (whole : List Char) (fraction : Option (List Char))
    (exponent : Option Int) : Except Problem Number :=
  let (significand, taken) := absorb 0 0 whole
  let dropped := whole.length - taken
  if fraction.isNone ∧ exponent.isNone ∧ dropped = 0 then
    if !negative then .ok (.integer significand)
    else if 0 < significand ∧ significand ≤ signedWordBound then .ok (.integer (-significand))
    else finite negative significand 0
  else
    let (significand, places) := absorb significand 0 (fraction.getD [])
    finite negative significand (dropped - places + exponent.getD 0)

def readUnsigned (negative : Bool) (cs : List Char) : Except Problem (Number × List Char) := do
  let (whole, cs) ← wholePart cs
  let (fraction, cs) ← fractionPart cs
  let (exponent, rest) ← exponentPart cs
  return (← ofParts negative whole fraction exponent, rest)

def read : List Char → Except Problem (Number × List Char)
  | '-' :: cs => readUnsigned true cs
  | cs => readUnsigned false cs

def toFloat : Number → Float
  | .integer z => Float.ofInt z
  | .decimal negative significand exponent =>
    let x := (magnitude significand exponent).getD 0
    if negative then -x else x

def write : Number → List Char
  | .integer z =>
    if z < 0 then '-' :: Nat.toDigits 10 z.natAbs else Nat.toDigits 10 z.natAbs
  | .decimal negative significand exponent =>
    let sign := if negative then ['-'] else []
    let mark := if exponent < 0 then ['e', '-'] else ['e']
    sign ++ Nat.toDigits 10 significand ++ mark ++ Nat.toDigits 10 exponent.natAbs

theorem length_someDigits (cs digits rest : List Char)
    (h : someDigits cs = .ok (digits, rest)) : rest.length < cs.length := by
  simp only [someDigits] at h
  split at h
  · contradiction
  · rename_i hne
    cases h
    have hsum := congrArg List.length (cs.takeWhile_append_dropWhile (p := Char.isDigit))
    have hpos : 0 < (cs.takeWhile Char.isDigit).length := by
      simpa [List.isEmpty_iff, List.length_pos_iff] using hne
    rw [List.length_append] at hsum
    omega

theorem length_wholePart (cs digits rest : List Char)
    (h : wholePart cs = .ok (digits, rest)) : rest.length < cs.length := by
  unfold wholePart at h
  cases hd : someDigits cs with
  | error problem => simp [hd, bind, Except.bind] at h
  | ok found =>
    have hlt := length_someDigits cs found.1 found.2 (by rw [hd])
    simp only [hd, bind, Except.bind, pure, Except.pure] at h
    split at h
    · contradiction
    · cases h
      exact hlt

theorem length_fractionPart (cs rest : List Char) (digits : Option (List Char))
    (h : fractionPart cs = .ok (digits, rest)) : rest.length ≤ cs.length := by
  unfold fractionPart at h
  split at h
  · rename_i after
    cases hd : someDigits after with
    | error problem => simp [hd, bind, Except.bind] at h
    | ok found =>
      have hlt := length_someDigits after found.1 found.2 (by rw [hd])
      simp only [hd, bind, Except.bind, pure, Except.pure] at h
      cases h
      simp only [List.length_cons]
      omega
  · cases h
    exact Nat.le_refl _

theorem length_sign (cs : List Char) : (sign cs).2.length ≤ cs.length := by
  unfold sign
  split <;> simp

theorem length_signedDigits (cs rest : List Char) (exponent : Option Int)
    (h : signedDigits cs = .ok (exponent, rest)) : rest.length ≤ cs.length := by
  unfold signedDigits at h
  cases hd : someDigits (sign cs).2 with
  | error problem => simp [hd, bind, Except.bind] at h
  | ok found =>
    have hlt := length_someDigits (sign cs).2 found.1 found.2 (by rw [hd])
    have hle := length_sign cs
    simp only [hd, bind, Except.bind, pure, Except.pure] at h
    cases h
    omega

theorem length_exponentPart (cs rest : List Char) (exponent : Option Int)
    (h : exponentPart cs = .ok (exponent, rest)) : rest.length ≤ cs.length := by
  unfold exponentPart at h
  split at h
  · exact Nat.le_succ_of_le (length_signedDigits _ rest exponent h)
  · exact Nat.le_succ_of_le (length_signedDigits _ rest exponent h)
  · cases h
    exact Nat.le_refl _

theorem length_readUnsigned (negative : Bool) (cs rest : List Char) (n : Number)
    (h : readUnsigned negative cs = .ok (n, rest)) : rest.length < cs.length := by
  unfold readUnsigned at h
  cases hw : wholePart cs with
  | error problem => simp [hw, bind, Except.bind] at h
  | ok whole =>
    have h₁ := length_wholePart cs whole.1 whole.2 (by rw [hw])
    simp only [hw, bind, Except.bind] at h
    cases hf : fractionPart whole.2 with
    | error problem => simp [hf] at h
    | ok fraction =>
      have h₂ := length_fractionPart whole.2 fraction.2 fraction.1 (by rw [hf])
      simp only [hf] at h
      cases he : exponentPart fraction.2 with
      | error problem => simp [he] at h
      | ok exponent =>
        have h₃ := length_exponentPart fraction.2 exponent.2 exponent.1 (by rw [he])
        simp only [he] at h
        split at h
        · contradiction
        · simp only [pure, Except.pure] at h
          cases h
          omega

theorem length_read (cs rest : List Char) (n : Number)
    (h : read cs = .ok (n, rest)) : rest.length < cs.length := by
  unfold read at h
  split at h
  · exact Nat.lt_succ_of_lt (length_readUnsigned true _ rest n h)
  · exact length_readUnsigned false _ rest n h

end LinearCongruences.Json.Number
