import Mathlib
import LinearCongruences.Residue.Prime
import LinearCongruences.Proofs.Residue

/-! The primality test decides whether a word is a strong probable prime to all twelve bases.
A prime is one to every base, so no prime is rejected. -/
namespace LinearCongruences.Prime

/-- With `n - 1 = 2 ^ twos * odd`: the odd power is one, or one of its squarings before the last
is minus one. -/
def StrongProbablePrime (n twos odd a : Nat) : Prop :=
  a ^ odd % n = 1 ∨ ∃ r < twos, a ^ (2 ^ r * odd) % n = n - 1

theorem splitTwos_spec (n : Nat) (positive : 0 < n) :
    2 ^ (splitTwos n).1 * (splitTwos n).2 = n ∧ (splitTwos n).2 % 2 = 1 := by
  induction n using Nat.strong_induction_on with
  | _ n ih =>
    rw [splitTwos]
    split
    · rename_i even
      have half := ih (n / 2) (by omega) (by omega)
      refine ⟨?_, half.2⟩
      rw [pow_succ, mul_comm (2 ^ _), mul_assoc, half.1]
      omega
    · exact ⟨by simp, by omega⟩

theorem splitTwos_pos (n : Nat) (positive : 0 < n) (even : n % 2 = 0) : 0 < (splitTwos n).1 := by
  rw [splitTwos, dif_pos ⟨by omega, even⟩]
  exact Nat.succ_pos _

/-- The square search finds `n - 1` if it is there. It may stop at a one, because from there on
all squares are one. -/
theorem reachesMinusOne_spec {n : Nat} (large : 2 < n) (bound : n < wordBound) (squarings : Nat)
    {x : Nat} (hx : x < n) :
    ∃ found, reachesMinusOne n squarings x = .ok found ∧
      (found = true ↔ ∃ r < squarings, x ^ 2 ^ (r + 1) % n = n - 1) := by
  induction squarings generalizing x with
  | zero => exact ⟨false, rfl, by simp⟩
  | succ squarings ih =>
    have hn : 0 < n := by omega
    have square := Residue.mul_eq hn (Nat.lt_trans hx bound) (Nat.lt_trans hx bound)
    rw [← Nat.cast_mul, Residue.representative_natCast] at square
    have shift : ∀ r, (x * x % n) ^ 2 ^ r % n = x ^ 2 ^ (r + 1) % n := by
      intro r
      rw [← Nat.pow_mod, ← pow_two, ← pow_mul, pow_succ, mul_comm]
    rw [reachesMinusOne, square, Checked.ok_bind]
    split
    · -- from a one on there are only ones, and `n - 1` is not one
      rename_i one
      refine ⟨false, rfl, ?_⟩
      simp only [Bool.false_eq_true, false_iff, not_exists, not_and]
      intro r _ minus
      rw [← shift r, one, one_pow, Nat.mod_eq_of_lt (by omega)] at minus
      omega
    · split
      · rename_i minus
        refine ⟨true, rfl, ?_⟩
        simp only [true_iff]
        exact ⟨0, Nat.succ_pos _, by rw [← shift 0, pow_zero, pow_one, Nat.mod_mod, minus]⟩
      · rename_i other
        obtain ⟨found, run, meaning⟩ := ih (Nat.mod_lt (x * x) hn)
        refine ⟨found, by simpa using run, meaning.trans ?_⟩
        constructor
        · rintro ⟨r, hr, minus⟩
          exact ⟨r + 1, by omega, by rwa [shift (r + 1)] at minus⟩
        · rintro ⟨r, hr, minus⟩
          cases r with
          | zero => exact absurd (by rwa [← shift 0, pow_zero, pow_one, Nat.mod_mod] at minus) other
          | succ r => exact ⟨r, by omega, by rwa [shift (r + 1)]⟩

theorem passes_spec {n : Nat} (large : 2 < n) (bound : n < wordBound) {twos : Nat}
    (ht : 0 < twos) (odd a : Nat) :
    ∃ passed, passes n twos odd a = .ok passed ∧
      (passed = true ↔ StrongProbablePrime n twos odd a) := by
  have hn : 0 < n := by omega
  have power : ∀ r, (a ^ odd % n) ^ 2 ^ r % n = a ^ (2 ^ r * odd) % n := by
    intro r
    rw [← Nat.pow_mod, ← pow_mul, mul_comm]
  rw [passes, Residue.pow_eq hn bound, Checked.ok_bind]
  split
  · rename_i early
    refine ⟨true, rfl, ?_⟩
    simp only [true_iff]
    rcases early with one | minus
    · exact Or.inl one
    · exact Or.inr ⟨0, ht, by rw [← power 0, pow_zero, pow_one, Nat.mod_mod, minus]⟩
  · rename_i late
    obtain ⟨found, run, meaning⟩ :=
      reachesMinusOne_spec large bound (twos - 1) (Nat.mod_lt (a ^ odd) hn)
    refine ⟨found, run, meaning.trans ?_⟩
    constructor
    · rintro ⟨r, hr, minus⟩
      exact Or.inr ⟨r + 1, by omega, by rw [← power (r + 1), minus]⟩
    · rintro (one | ⟨r, hr, minus⟩)
      · exact absurd (Or.inl one) late
      · cases r with
        | zero =>
          rw [← power 0, pow_zero, pow_one, Nat.mod_mod] at minus
          exact absurd (Or.inr minus) late
        | succ r => exact ⟨r, by omega, by rw [power (r + 1), minus]⟩

theorem passesAll_spec {n : Nat} (large : 2 < n) (bound : n < wordBound) {twos : Nat}
    (ht : 0 < twos) (odd : Nat) (as : List Nat) :
    ∃ passed, passesAll n twos odd as = .ok passed ∧
      (passed = true ↔ ∀ a ∈ as, StrongProbablePrime n twos odd a) := by
  induction as with
  | nil => exact ⟨true, rfl, by simp⟩
  | cons a as ih =>
    obtain ⟨first, run, meaning⟩ := passes_spec large bound ht odd a
    rw [passesAll, run, Checked.ok_bind]
    cases first with
    | false =>
      have fails : ¬ StrongProbablePrime n twos odd a := by simpa using meaning.not.mp
      exact ⟨false, rfl, by simp [fails]⟩
    | true =>
      obtain ⟨rest, run', meaning'⟩ := ih
      exact ⟨rest, run', by simp [meaning', meaning.mp rfl]⟩

/-! Primes. -/

/-- In a field one has no square roots but itself and minus one, so going back from a power that
is one, the first power that is not one is minus one. -/
theorem eq_one_or_reaches_minus_one {K : Type} [Field K] (s : Nat) (x : K) (h : x ^ 2 ^ s = 1) :
    x = 1 ∨ ∃ r < s, x ^ 2 ^ r = -1 := by
  induction s with
  | zero => exact Or.inl (by simpa using h)
  | succ s ih =>
    rw [pow_succ, pow_mul, pow_two] at h
    rcases mul_self_eq_one_iff.mp h with one | minus
    · rcases ih one with here | ⟨r, hr, before⟩
      · exact Or.inl here
      · exact Or.inr ⟨r, by omega, before⟩
    · exact Or.inr ⟨s, by omega, minus⟩

theorem mod_eq_iff_cast_eq {n x y : Nat} (hy : y < n) : x % n = y ↔ (x : ZMod n) = y := by
  rw [ZMod.natCast_eq_natCast_iff', Nat.mod_eq_of_lt hy]

theorem cast_pred {n : Nat} (hn : 0 < n) : ((n - 1 : Nat) : ZMod n) = -1 := by
  rw [Nat.cast_sub hn, ZMod.natCast_self, Nat.cast_one, zero_sub]

theorem strongProbablePrime_iff {n twos odd a : Nat} (hn : 1 < n) :
    StrongProbablePrime n twos odd a ↔
      (a : ZMod n) ^ odd = 1 ∨ ∃ r < twos, (a : ZMod n) ^ (2 ^ r * odd) = -1 := by
  have pred : n - 1 < n := by omega
  simp only [StrongProbablePrime, mod_eq_iff_cast_eq hn, mod_eq_iff_cast_eq pred,
    cast_pred (Nat.zero_lt_of_lt hn), Nat.cast_pow, Nat.cast_one]

/-- By Fermat the whole power is one, and the square roots of one are known. -/
theorem strongProbablePrime_of_prime {p twos odd a : Nat} (hp : p.Prime)
    (parts : 2 ^ twos * odd = p - 1) (coprime : ¬ p ∣ a) : StrongProbablePrime p twos odd a := by
  have : Fact p.Prime := ⟨hp⟩
  have unit : (a : ZMod p) ≠ 0 := by rwa [Ne, ZMod.natCast_eq_zero_iff]
  have whole : ((a : ZMod p) ^ odd) ^ 2 ^ twos = 1 := by
    rw [← pow_mul, mul_comm, parts, ZMod.pow_card_sub_one_eq_one unit]
  rw [strongProbablePrime_iff hp.one_lt]
  refine (eq_one_or_reaches_minus_one twos _ whole).imp_right ?_
  rintro ⟨r, hr, minus⟩
  exact ⟨r, hr, by rwa [mul_comm, pow_mul]⟩

theorem bases_prime : ∀ a ∈ bases, a.Prime := by
  simp only [bases, List.forall_mem_cons]
  norm_num

theorem trial_eq_none {n : Nat} {ps : List Nat} :
    trial n ps = none ↔ ∀ p ∈ ps, n ≠ p ∧ n % p ≠ 0 := by
  induction ps with
  | nil => simp [trial]
  | cons p ps ih =>
    simp only [trial, List.forall_mem_cons, ← ih]
    split
    · simp_all
    · split <;> simp_all

/-- Trial division never takes a prime for composite. -/
theorem trial_prime {n : Nat} (hn : n.Prime) (ps : List Nat) (small : ∀ p ∈ ps, p ≠ 1) :
    trial n ps = none ∨ trial n ps = some true := by
  induction ps with
  | nil => exact Or.inl rfl
  | cons p ps ih =>
    rw [trial]
    split
    · exact Or.inr rfl
    · rename_i other
      split
      · rename_i divides
        rcases (Nat.dvd_prime hn).mp (Nat.dvd_of_mod_eq_zero divides) with one | same
        · exact absurd one (small p List.mem_cons_self)
        · exact absurd same.symm other
      · exact ih fun q hq => small q (List.mem_cons_of_mem p hq)

/-- What is left after trial division is odd and larger than two. -/
theorem odd_of_trial_eq_none {n : Nat} (hn : 2 ≤ n) (h : trial n bases = none) :
    2 < n ∧ n % 2 = 1 := by
  have two := trial_eq_none.mp h 2 (by decide)
  omega

theorem trial_eq_some {n : Nat} {ps : List Nat} {answer : Bool} (h : trial n ps = some answer) :
    answer = true ∧ n ∈ ps ∨ answer = false ∧ ∃ p ∈ ps, p ∣ n := by
  induction ps with
  | nil => cases h
  | cons p ps ih =>
    rw [trial] at h
    split at h
    · rename_i same
      cases h
      exact Or.inl ⟨rfl, List.mem_cons.mpr (Or.inl same)⟩
    · split at h
      · rename_i divides
        cases h
        exact Or.inr ⟨rfl, p, List.mem_cons_self, Nat.dvd_of_mod_eq_zero divides⟩
      · rcases ih h with ⟨found, member⟩ | ⟨composite, q, member, divides⟩
        · exact Or.inl ⟨found, List.mem_cons_of_mem p member⟩
        · exact Or.inr ⟨composite, q, List.mem_cons_of_mem p member, divides⟩

/-- There is only one way to take all twos out of a number. -/
theorem splitTwos_pow_mul (s : Nat) {d : Nat} (odd : Odd d) : splitTwos (2 ^ s * d) = (s, d) := by
  induction s with
  | zero =>
    have rest := Nat.odd_iff.mp odd
    rw [pow_zero, one_mul, splitTwos, dif_neg (by omega)]
  | succ s ih =>
    have double : 2 ^ (s + 1) * d = 2 * (2 ^ s * d) := by ring
    have positive : 0 < 2 ^ s * d := Nat.mul_pos (Nat.two_pow_pos s) odd.pos
    rw [double, splitTwos, dif_pos (by omega), Nat.mul_div_cancel_left _ Nat.two_pos, ih]

/-- What the test stands for: a base, or a number without a base as divisor that is a strong
probable prime to all of them. -/
def Accepted (n : Nat) : Prop :=
  n ∈ bases ∨ 2 ≤ n ∧ (∀ p ∈ bases, ¬ p ∣ n) ∧
    ∃ s d, n - 1 = 2 ^ s * d ∧ Odd d ∧ ∀ a ∈ bases, StrongProbablePrime n s d a

theorem test_spec {n : Nat} (bound : n < wordBound) :
    ∃ answer, test n = .ok answer ∧ (answer = true ↔ Accepted n) := by
  have two_le_base : n ∈ bases → 2 ≤ n := fun base => (bases_prime n base).two_le
  unfold test
  split
  · rename_i small
    refine ⟨false, rfl, ?_⟩
    simp only [Bool.false_eq_true, false_iff]
    rintro (base | ⟨large, _⟩)
    · exact absurd (two_le_base base) (by omega)
    · omega
  · rename_i large
    split
    · rename_i answer decided
      refine ⟨answer, rfl, ?_⟩
      rcases trial_eq_some decided with ⟨rfl, base⟩ | ⟨rfl, p, member, divides⟩
      · exact iff_of_true rfl (Or.inl base)
      · simp only [Bool.false_eq_true, false_iff]
        rintro (base | ⟨_, undivided, _⟩)
        · rcases trial_prime (bases_prime n base) bases (by decide) with none | some
          · simp [none] at decided
          · simp [some] at decided
        · exact undivided p member divides
    · rename_i none
      obtain ⟨two, odd⟩ := odd_of_trial_eq_none (by omega) none
      have parts := splitTwos_spec (n - 1) (by omega)
      have ht := splitTwos_pos (n - 1) (by omega) (by omega)
      obtain ⟨passed, run, meaning⟩ := passesAll_spec two bound ht (splitTwos (n - 1)).2 bases
      have unequal := trial_eq_none.mp none
      refine ⟨passed, run, meaning.trans ?_⟩
      constructor
      · intro all
        refine Or.inr ⟨by omega, fun p member divides => ?_, _, _, parts.1.symm,
          Nat.odd_iff.mpr parts.2, all⟩
        exact (unequal p member).2 (Nat.mod_eq_zero_of_dvd divides)
      · rintro (base | ⟨_, _, s, d, split, rest, all⟩)
        · exact absurd rfl (unequal n base).1
        · rwa [split, splitTwos_pow_mul s rest]

theorem accepted_of_prime {p : Nat} (hp : p.Prime) : Accepted p := by
  by_cases base : p ∈ bases
  · exact Or.inl base
  · have unequal : ∀ a ∈ bases, a ≠ p := fun a ha same => base (same ▸ ha)
    have parts := splitTwos_spec (p - 1) (Nat.sub_pos_of_lt hp.one_lt)
    refine Or.inr ⟨hp.two_le, fun a ha divides => ?_, _, _, parts.1.symm,
      Nat.odd_iff.mpr parts.2, fun a ha => strongProbablePrime_of_prime hp parts.1 ?_⟩
    · exact unequal a ha ((Nat.prime_dvd_prime_iff_eq (bases_prime a ha) hp).mp divides)
    · intro divides
      exact unequal a ha ((Nat.prime_dvd_prime_iff_eq hp (bases_prime a ha)).mp divides).symm

theorem test_of_prime {p : Nat} (hp : p.Prime) (bound : p < wordBound) : test p = .ok true := by
  obtain ⟨answer, run, meaning⟩ := test_spec bound
  rw [run, meaning.mpr (accepted_of_prime hp)]

theorem two_le_of_test {n : Nat} (accepted : test n = .ok true) : 2 ≤ n := by
  by_contra small
  rw [test, if_pos (by omega)] at accepted
  cases accepted

/-- The test returns for every word. -/
theorem test_returns {n : Nat} (bound : n < wordBound) : ∃ answer, test n = .ok answer := by
  obtain ⟨answer, run, _⟩ := test_spec bound
  exact ⟨answer, run⟩

/-- For every word the test returns. It accepts the twelve bases, and of the other words those that
no base divides and that are strong probable primes to all twelve bases, among them every prime. -/
theorem test_accepts_strong_probable_primes {n : Nat} (word : n < wordBound) :
    ∃ answer, test n = .ok answer ∧
      (answer = true ↔ n ∈ bases ∨ 2 ≤ n ∧ (∀ p ∈ bases, ¬ p ∣ n) ∧
        ∃ s d, n - 1 = 2 ^ s * d ∧ Odd d ∧ ∀ a ∈ bases,
          (a : ZMod n) ^ d = 1 ∨ ∃ r < s, (a : ZMod n) ^ (2 ^ r * d) = -1) ∧
      (n.Prime → answer = true) := by
  obtain ⟨answer, run, meaning⟩ := test_spec word
  refine ⟨answer, run, meaning.trans (or_congr_right (and_congr_right fun large => ?_)),
    fun prime => meaning.mpr (accepted_of_prime prime)⟩
  simp only [strongProbablePrime_iff (show 1 < n by omega)]

/-- The run of the test tells that the largest prime word is a strong probable prime to all bases.
The other number is one to the first four bases only, and is not prime. -/
theorem test_accepts_largest_prime_word :
    (18446744073709551557 < wordBound ∧ ∃ s d, 18446744073709551557 - 1 = 2 ^ s * d ∧ Odd d ∧
      ∀ a ∈ bases, (a : ZMod 18446744073709551557) ^ d = 1 ∨
        ∃ r < s, (a : ZMod 18446744073709551557) ^ (2 ^ r * d) = -1) ∧
    3215031751 < wordBound ∧ test 3215031751 = .ok false ∧ ¬ Nat.Prime 3215031751 := by
  have word : 18446744073709551557 < wordBound := by decide
  have word' : 3215031751 < wordBound := by decide
  obtain ⟨accepted, run, meaning, _⟩ := test_accepts_strong_probable_primes word
  obtain ⟨rejected, run', _, kept⟩ := test_accepts_strong_probable_primes word'
  have yes : test 18446744073709551557 = .ok true := by decide +kernel
  have no : test 3215031751 = .ok false := by decide +kernel
  obtain rfl := Except.ok.inj (yes.symm.trans run)
  obtain rfl := Except.ok.inj (no.symm.trans run')
  have large := (meaning.mp rfl).resolve_left (by decide)
  exact ⟨⟨word, large.2.2⟩, word', no, fun prime => absurd (kept prime) (by decide)⟩

end LinearCongruences.Prime
