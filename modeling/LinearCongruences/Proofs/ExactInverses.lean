import Mathlib
import LinearCongruences.Proofs.Inverse

/-! The numbers that the division loop computes on its way to an inverse. The loop returns exactly
if all of them are in range, which they are whenever the modulus is a word. -/
namespace LinearCongruences.Inverse

/-- A signed double word can hold the number. -/
def InRange (z : Int) : Prop := -(signedDoubleBound : Int) ≤ z ∧ z < signedDoubleBound

instance (z : Int) : Decidable (InRange z) := inferInstanceAs (Decidable (_ ∧ _))

/-- The product and the difference of one column in a division step. -/
def columnNumbers (q earlier current : Int) : List Int :=
  [q * current, earlier - q * current]

/-- All numbers that the division loop computes, whatever their sizes: in each round the quotient,
and then the numbers of the remainders and of both columns of coefficients. -/
def loopNumbers (a b : Nat) (x y u v : Int) : List Int :=
  if _ : b = 0 then []
  else
    let q : Int := (a / b : Nat)
    q :: (columnNumbers q a b ++ columnNumbers q x y ++ columnNumbers q u v ++
      loopNumbers b (a % b) y (x - q * y) v (u - q * v))
termination_by b
decreasing_by exact Nat.mod_lt _ (by omega)

variable {q earlier current x y u v : Int}

theorem within_eq_ok {z result : Int} :
    Checked.within signedDoubleBound z = .ok result ↔ InRange z ∧ result = z := by
  unfold Checked.within InRange
  split
  · rename_i inside
    simp [inside, eq_comm]
  · rename_i outside
    simp [outside]

theorem columnStep_eq_ok {result : Int} : columnStep q earlier current = .ok result ↔
    (∀ z ∈ columnNumbers q earlier current, InRange z) ∧ result = earlier - q * current := by
  simp only [columnStep, Checked.bind_eq_ok, within_eq_ok, columnNumbers, List.forall_mem_cons]
  constructor
  · rintro ⟨_, ⟨product, rfl⟩, difference, same⟩
    exact ⟨⟨product, difference, by simp⟩, same⟩
  · rintro ⟨⟨product, difference, _⟩, same⟩
    exact ⟨_, ⟨product, rfl⟩, difference, same⟩

/-- A quotient is no larger than its product with the divisor. -/
theorem inRange_quotient {quotient b : Nat} (positive : 0 < b)
    (product : InRange (quotient * b)) : InRange quotient := by
  have larger : (quotient : Int) ≤ quotient * b := by
    exact_mod_cast Nat.le_mul_of_pos_right quotient positive
  have bound : (signedDoubleBound : Int) = 2 ^ 127 := rfl
  exact ⟨by omega, lt_of_le_of_lt larger product.2⟩

/-- The loop is stopped by nothing but a number that is out of range. -/
theorem euclid_returns_iff {a b : Nat} : (∃ result, euclid a b x y u v = .ok result) ↔
    ∀ z ∈ loopNumbers a b x y u v, InRange z := by
  induction b using Nat.strong_induction_on generalizing a x y u v with
  | _ b ih =>
    rw [euclid, loopNumbers]
    split
    · simp
    · rename_i nonzero
      have positive := Nat.pos_of_ne_zero nonzero
      simp only [List.forall_mem_cons, List.forall_mem_append, ← ih _ (Nat.mod_lt a positive)]
      simp only [Checked.bind_eq_ok, columnStep_eq_ok]
      constructor
      · rintro ⟨result, _, ⟨remainders, _⟩, _, ⟨first, rfl⟩, _, ⟨second, rfl⟩, rest⟩
        exact ⟨inRange_quotient positive (remainders _ List.mem_cons_self),
          ⟨⟨remainders, first⟩, second⟩, result, rest⟩
      · rintro ⟨_, ⟨⟨remainders, first⟩, second⟩, result, rest⟩
        exact ⟨result, _, ⟨remainders, rfl⟩, _, ⟨first, rfl⟩, _, ⟨second, rfl⟩, rest⟩

/-- For every value and every modulus the inverse is found if there is one, reduced and exact, and
it is the same whatever combination of the operands the greatest common divisor is written as. No
number that the division loop computes on the way is out of range. -/
theorem inverse_found_iff_coprime {m : Nat} (positive : 0 < m) (word : m < wordBound)
    (value : Nat) :
    (∃ answer, find value m = .ok answer ∧
      ((∃ w, answer = some w) ↔ Nat.gcd value m = 1) ∧
      (∀ w, answer = some w → w < m ∧ value * w ≡ 1 [MOD m]) ∧
      ∀ c d : Int, c * (value % m : Nat) + d * m = Nat.gcd value m →
        answer = if Nat.gcd value m = 1 then some (c.emod m).toNat else none) ∧
    ∀ z ∈ loopNumbers (value % m) m 1 0 0 1, InRange z := by
  obtain ⟨answer, found, meaning⟩ := find_spec positive word value
  refine ⟨⟨answer, found, ?_, fun w same => ?_, fun c d combination => ?_⟩, ?_⟩
  · cases answer with
    | none =>
      have common : Nat.gcd value m ≠ 1 := meaning
      simp [common]
    | some w => exact iff_of_true ⟨w, rfl⟩ meaning.coprime
  · subst same
    refine ⟨meaning.1, ?_⟩
    rw [← ZMod.natCast_eq_natCast_iff]
    exact_mod_cast meaning.2
  · exact meaning.unique (isInverse_of_combination positive combination)
  · rw [← euclid_returns_iff]
    rw [find, Checked.remainder_eq (Nat.ne_of_gt positive), Checked.ok_bind] at found
    obtain ⟨result, loop, _⟩ := Checked.bind_eq_ok.mp found
    exact ⟨result, loop⟩

/-- Two Fibonacci numbers next to each other keep the loop busy for as long as two words can. The
value is not reduced. -/
theorem inverse_found_fibonacci : 0 < 12200160415121876738 ∧
    12200160415121876738 < wordBound ∧
    find (12200160415121876738 + 7540113804746346429) 12200160415121876738 =
      .ok (some 4660046610375530309) ∧
    (12200160415121876738 + 7540113804746346429) * 4660046610375530309 ≡
      1 [MOD 12200160415121876738] ∧
    (loopNumbers 7540113804746346429 12200160415121876738 1 0 0 1).length = 92 * 7 ∧
    ∀ z ∈ loopNumbers 7540113804746346429 12200160415121876738 1 0 0 1, InRange z := by
  have positive : 0 < 12200160415121876738 := by decide
  have word : 12200160415121876738 < wordBound := by decide
  have found : find (12200160415121876738 + 7540113804746346429) 12200160415121876738 =
      .ok (some 4660046610375530309) := by decide +kernel
  obtain ⟨⟨answer, same, _, exact, _⟩, inRange⟩ := inverse_found_iff_coprime positive word
    (12200160415121876738 + 7540113804746346429)
  obtain rfl := Except.ok.inj (found.symm.trans same)
  exact ⟨positive, word, found, (exact _ rfl).2, by decide +kernel, inRange⟩

end LinearCongruences.Inverse
