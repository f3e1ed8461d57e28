import Mathlib
import LinearCongruences.Residue.Inverse
import LinearCongruences.Proofs.Prime

/-! Inverses are exact. The extended Euclidean algorithm keeps both Bézout equations, and the sizes
of its coefficients are tied to the remainders, so they never outgrow the operands. The table
agrees with it for primes. -/
namespace LinearCongruences

/-- What an inverse modulo `m` is: reduced and exact, and missing only where none can exist. -/
def IsInverse (m value : Nat) : Option Nat → Prop
  | some w => w < m ∧ (value : ZMod m) * w = 1
  | none => ¬ Nat.Coprime value m

namespace Inverse

theorem columnStep_eq {q earlier current : Int}
    (product : (q * current).natAbs < wordBound)
    (rest : (earlier - q * current).natAbs < wordBound) :
    columnStep q earlier current = .ok (earlier - q * current) := by
  have wide : (signedDoubleBound : Int) = 2 ^ 127 := rfl
  have word : wordBound = 2 ^ 64 := rfl
  rw [columnStep, Checked.within_eq (by omega) (by omega), Checked.ok_bind,
    Checked.within_eq (by omega) (by omega)]

/-- Numbers of opposite signs do not cancel when one is subtracted from the other. -/
theorem natAbs_sub_mul {x y : Int} (q : Nat) (opposite : x * y ≤ 0) :
    (x - q * y).natAbs = x.natAbs + q * y.natAbs := by
  rcases le_total 0 x with hx | hx <;> rcases le_total 0 y with hy | hy
  · rcases mul_eq_zero.mp (le_antisymm opposite (mul_nonneg hx hy)) with rfl | rfl
    · simp [Int.natAbs_mul]
    · simp
  · have step : x - q * y = (x.natAbs + q * y.natAbs : Nat) := by
      push_cast
      rw [abs_of_nonneg hx, abs_of_nonpos hy]
      ring
    rw [step, Int.natAbs_natCast]
  · have step : x - q * y = -((x.natAbs + q * y.natAbs : Nat) : Int) := by
      push_cast
      rw [abs_of_nonpos hx, abs_of_nonneg hy]
      ring
    rw [step, Int.natAbs_neg, Int.natAbs_natCast]
  · rcases mul_eq_zero.mp (le_antisymm opposite (mul_nonneg_of_nonpos_of_nonpos hx hy)) with
      rfl | rfl
    · simp [Int.natAbs_mul]
    · simp

/-- One column of coefficients beside the remainders `a` and `b`: `x` and `y` have opposite signs,
and their sizes weigh the remainders up to `total`. -/
structure Column (total a b : Nat) (x y : Int) : Prop where
  opposite : x * y ≤ 0
  weight : y.natAbs * a + x.natAbs * b = total

theorem Column.next {total a b : Nat} {x y : Int} (h : Column total a b x y) :
    Column total b (a % b) y (x - (a / b : Nat) * y) where
  opposite := by
    have square := mul_nonneg (Int.natCast_nonneg (a / b)) (mul_self_nonneg y)
    have := h.opposite
    nlinarith
  weight := by
    rw [natAbs_sub_mul _ h.opposite]
    have parts := Nat.div_add_mod a b
    calc (x.natAbs + a / b * y.natAbs) * b + y.natAbs * (a % b)
        = y.natAbs * (b * (a / b) + a % b) + x.natAbs * b := by ring
      _ = total := by rw [parts, h.weight]

theorem Column.step_eq {total a b : Nat} {x y : Int} (h : Column total a b x y) (hb : 0 < b)
    (bound : total < wordBound) :
    columnStep (a / b : Nat) x y = .ok (x - (a / b : Nat) * y) := by
  have size : (x - (a / b : Nat) * y).natAbs ≤ total := by
    have weight := h.next.weight
    calc (x - (a / b : Nat) * y).natAbs ≤ (x - (a / b : Nat) * y).natAbs * b :=
          Nat.le_mul_of_pos_right _ hb
      _ ≤ total := by omega
  have sum := natAbs_sub_mul (a / b) h.opposite
  have product : ((a / b : Nat) * y : Int).natAbs = a / b * y.natAbs := by
    rw [Int.natAbs_mul, Int.natAbs_natCast]
  exact columnStep_eq (by omega) (by omega)

/-- The division loop returns the greatest common divisor as a combination of the operands. -/
theorem euclid_spec {A B : Nat} (hA : A < wordBound) (hB : B < wordBound) (a b : Nat)
    {x y u v : Int} (first : (a : Int) = x * A + u * B) (second : (b : Int) = y * A + v * B)
    (left : Column B a b x y) (right : Column A a b u v) (ha : a < wordBound)
    (hb : b < wordBound) :
    ∃ c d : Int, euclid a b x y u v = .ok (Nat.gcd a b, c) ∧ (Nat.gcd a b : Int) = c * A + d * B := by
  induction b using Nat.strong_induction_on generalizing a x y u v with
  | _ b ih =>
    rw [euclid]
    split
    · rename_i zero
      subst zero
      exact ⟨x, u, by rw [Nat.gcd_zero_right], by rw [Nat.gcd_zero_right, first]⟩
    · rename_i positive
      have hpos : 0 < b := Nat.pos_of_ne_zero positive
      have parts := Nat.div_add_mod a b
      have remainder : columnStep (a / b : Nat) a b = .ok (a % b : Nat) := by
        have split : (a : Int) - (a / b : Nat) * b = (a % b : Nat) := by
          have := congrArg (Nat.cast (R := Int)) parts
          push_cast at this ⊢
          linarith
        have product : ((a / b : Nat) * b : Int).natAbs = a / b * b := by
          rw [Int.natAbs_mul, Int.natAbs_natCast, Int.natAbs_natCast]
        have := Nat.div_mul_le_self a b
        rw [columnStep_eq (by omega) (by rw [split, Int.natAbs_natCast]; omega), split]
      have third : ((a % b : Nat) : Int) =
          (x - (a / b : Nat) * y) * A + (u - (a / b : Nat) * v) * B := by
        have := congrArg (Nat.cast (R := Int)) parts
        push_cast at this first second ⊢
        linear_combination this + first - (a / b : Int) * second
      have less := Nat.mod_lt a hpos
      obtain ⟨c, d, run, bezout⟩ :=
        ih (a % b) less b second third left.next right.next hb (Nat.lt_trans less hb)
      refine ⟨c, d, ?_, ?_⟩
      · simp only [remainder, left.step_eq hpos hB, right.step_eq hpos hA, Checked.ok_bind, run]
        rw [Nat.gcd_comm a b, Nat.gcd_rec b a, Nat.gcd_comm]
      · rw [Nat.gcd_comm a b, Nat.gcd_rec b a, Nat.gcd_comm, bezout]

/-- Any combination of the operands that gives their greatest common divisor tells the inverse. -/
theorem isInverse_of_combination {m : Nat} (hm : 0 < m) {value : Nat} {c d : Int}
    (combination : c * (value % m : Nat) + d * m = Nat.gcd value m) :
    IsInverse m value (if Nat.gcd value m = 1 then some (c.emod m).toNat else none) := by
  split
  · rename_i coprime
    refine ⟨Residue.representative_lt hm c, ?_⟩
    have class_eq := congrArg (Int.cast (R := ZMod m)) combination
    rw [coprime] at class_eq
    push_cast [ZMod.natCast_self, ZMod.natCast_mod] at class_eq
    change (value : ZMod m) * (Residue.representative c m : Nat) = 1
    rw [Residue.cast_representative hm]
    linear_combination class_eq
  · rename_i common
    exact common

theorem find_spec {m : Nat} (hm : 0 < m) (bound : m < wordBound) (value : Nat) :
    ∃ answer, find value m = .ok answer ∧ IsInverse m value answer := by
  have less := Nat.mod_lt value hm
  have word := Nat.lt_trans less bound
  have left : Column m (value % m) m 1 0 := ⟨by simp, by simp⟩
  have right : Column (value % m) (value % m) m 0 1 := ⟨by simp, by simp⟩
  obtain ⟨c, d, run, bezout⟩ :=
    euclid_spec word bound (value % m) m (by simp) (by simp) left right word bound
  have divisor : Nat.gcd (value % m) m = Nat.gcd value m := by
    rw [Nat.gcd_comm value m, Nat.gcd_rec m value]
  rw [divisor] at run bezout
  refine ⟨_, ?_, isInverse_of_combination hm bezout.symm⟩
  rw [find, Checked.remainder_eq (by omega)]
  simp only [Checked.ok_bind, run]
  split <;> rfl

end Inverse

theorem IsInverse.coprime {m value w : Nat} (h : IsInverse m value (some w)) :
    Nat.Coprime value m := by
  rw [← ZMod.isUnit_iff_coprime]
  exact IsUnit.of_mul_eq_one _ h.2

theorem IsInverse.unique {m value : Nat} {answer answer' : Option Nat}
    (h : IsInverse m value answer) (h' : IsInverse m value answer') : answer = answer' := by
  cases answer with
  | none =>
    cases answer' with
    | none => rfl
    | some w => exact absurd h'.coprime h
  | some w =>
    cases answer' with
    | none => exact absurd h.coprime h'
    | some w' =>
      have same : (w : ZMod m) = w' :=
        left_inv_eq_right_inv ((mul_comm _ _).trans h.2) h'.2
      rw [Residue.eq_of_cast_eq h.1 h'.1 same]

/-- The first `k` places of a table: each but the one of zero holds the inverse of its position. -/
def FilledTo (m k : Nat) (inverses : Array Nat) : Prop :=
  inverses.size = k ∧ ∀ i (h : i < inverses.size), 0 < i →
    inverses[i] < m ∧ (i : ZMod m) * inverses[i] = 1

namespace InverseTable

theorem extend_eq {m k : Nat} (hm : 0 < m) (bound : m < wordBound) (positive : 0 < k)
    {inverses : Array Nat} (inside : m % k < inverses.size) (reduced : inverses[m % k] < m) :
    extend m inverses k = .ok (inverses.push
      ((m - Residue.representative ((m / k : Nat) * inverses[m % k]) m) % m)) := by
  have quotient : m / k < wordBound := Nat.lt_of_le_of_lt (Nat.div_le_self m k) bound
  have product := Residue.representative_lt hm ((m / k : Nat) * inverses[m % k] : Int)
  rw [extend, Checked.quotient_eq (by omega), Checked.remainder_eq (by omega)]
  simp only [Checked.ok_bind]
  rw [Checked.get_eq inside]
  simp only [Checked.ok_bind]
  rw [Residue.mul_eq hm quotient (Nat.lt_trans reduced bound)]
  simp only [Checked.ok_bind]
  rw [Checked.minus_eq (by omega)]
  simp only [Checked.ok_bind]
  rw [Checked.remainder_eq (by omega)]
  rfl

/-- A table that has been laid out, if the loop that does so is known. -/
theorem build_eq {m : Nat} (large : 2 ≤ m) (accepted : Prime.test m = .ok true)
    (room : m < capacity) {inverses : Array Nat}
    (run : (List.range (m - 2)).foldlM (fun xs k => extend m xs (2 + k)) #[0, 1] = .ok inverses) :
    build m = .ok (some ⟨m, inverses⟩) := by
  rw [build, accepted, Checked.ok_bind, if_pos rfl, Checked.require_eq room, Checked.ok_bind,
    Checked.require_eq large, Checked.ok_bind, List.range'_eq_map_range, List.foldlM_map, run]
  rfl

theorem build_noRoom {m : Nat} (accepted : Prime.test m = .ok true) (large : capacity ≤ m) :
    build m = .error .noRoom := by
  rw [build, accepted, Checked.ok_bind, if_pos rfl, Checked.require, if_neg (Nat.not_lt.mpr large)]
  rfl

theorem prime_beyond_capacity : Nat.Prime (2 ^ 61 - 1) ∧ capacity ≤ 2 ^ 61 - 1 :=
  ⟨lucas_lehmer_sufficiency 61 (by norm_num) (by norm_num), by decide⟩

/-- Whether `m` is prime or not, a table for it is laid out with reduced numbers. -/
theorem build_reduced {m : Nat} (large : 2 ≤ m) (bound : m < wordBound)
    (accepted : Prime.test m = .ok true) (room : m < capacity) :
    ∃ inverses, build m = .ok (some ⟨m, inverses⟩) ∧ inverses.size = m ∧
      ∀ i (h : i < inverses.size), inverses[i] < m := by
  have hm : 0 < m := by omega
  obtain ⟨inverses, run, size, reduced⟩ := Checked.foldlM_range
    (fun xs k => extend m xs (2 + k)) #[0, 1] (m - 2)
    (fun k xs => xs.size = 2 + k ∧ ∀ i (h : i < xs.size), xs[i] < m)
    ⟨rfl, fun i hi => by
      rcases (show i = 0 ∨ i = 1 by have : i < 2 := hi; omega) with rfl | rfl
      · exact hm
      · exact large⟩
    (by
      rintro k hk xs _ ⟨size, reduced⟩
      have inside : m % (2 + k) < xs.size := size ▸ Nat.mod_lt m (by omega)
      refine ⟨_, extend_eq hm bound (by omega) inside (reduced _ inside), ?_, fun i hi => ?_⟩
      · rw [Array.size_push, size, Nat.add_assoc]
      · rw [Array.getElem_push]
        split
        · exact reduced i _
        · exact Nat.mod_lt _ hm)
  have built := build_eq large accepted room run
  exact ⟨inverses, built, size.trans (Nat.add_sub_cancel' large), reduced⟩

theorem extend_spec {m k : Nat} (prime : m.Prime) (bound : m < wordBound) {inverses : Array Nat}
    (filled : FilledTo m k inverses) (low : 1 < k) (high : k < m) :
    ∃ longer, extend m inverses k = .ok longer ∧ FilledTo m (k + 1) longer := by
  have hm : 0 < m := prime.pos
  obtain ⟨size, entries⟩ := filled
  have less : m % k < k := Nat.mod_lt m (by omega)
  have nonzero : 0 < m % k := by
    rcases Nat.eq_zero_or_pos (m % k) with zero | positive
    · rcases (Nat.dvd_prime prime).mp (Nat.dvd_of_mod_eq_zero zero) with one | same <;> omega
    · exact positive
  have inside : m % k < inverses.size := by omega
  obtain ⟨reduced, exact⟩ := entries (m % k) inside nonzero
  have product := Residue.representative_lt hm ((m / k : Nat) * inverses[m % k] : Int)
  refine ⟨_, extend_eq hm bound (by omega) inside reduced, ?_, ?_⟩
  · rw [Array.size_push, size]
  · intro i hi positive
    rw [Array.getElem_push]
    split
    · rename_i earlier
      exact entries i earlier positive
    · rename_i last
      have here : i = k := by
        rw [Array.size_push] at hi
        omega
      refine ⟨Nat.mod_lt _ hm, ?_⟩
      have parts := congrArg (Nat.cast (R := ZMod m)) (Nat.div_add_mod m k)
      push_cast [ZMod.natCast_self] at parts
      rw [here, ZMod.natCast_mod, Nat.cast_sub (by omega), Residue.cast_representative hm,
        ZMod.natCast_self, Int.cast_mul, Int.cast_natCast, Int.cast_natCast]
      linear_combination exact - (inverses[m % k] : ZMod m) * parts

theorem build_prime {m : Nat} (prime : m.Prime) (bound : m < wordBound) (room : m < capacity) :
    ∃ inverses, build m = .ok (some ⟨m, inverses⟩) ∧ FilledTo m m inverses := by
  have two := prime.two_le
  have start : FilledTo m 2 #[0, 1] := by
    refine ⟨rfl, fun i hi positive => ?_⟩
    have one : i = 1 := by
      have : i < 2 := hi
      omega
    subst one
    exact ⟨two, by simp⟩
  obtain ⟨inverses, run, filled⟩ := Checked.foldlM_range (fun xs k => extend m xs (2 + k)) #[0, 1]
    (m - 2) (fun k xs => FilledTo m (2 + k) xs) start
    (fun k hk xs _ filled => extend_spec prime bound filled (by omega) (by omega))
  refine ⟨inverses, build_eq two (Prime.test_of_prime prime bound) room run, ?_⟩
  rwa [Nat.add_sub_cancel' two] at filled

theorem get_reduced {m : Nat} (hm : 0 < m) {inverses : Array Nat} (size : inverses.size = m)
    (reduced : ∀ i (h : i < inverses.size), inverses[i] < m) (value : Nat) :
    ∃ answer, get ⟨m, inverses⟩ value = .ok answer ∧ ∀ w, answer = some w → w < m := by
  rw [get, Checked.remainder_eq (Nat.ne_of_gt hm), Checked.ok_bind]
  split
  · exact ⟨none, rfl, fun w absurd => by cases absurd⟩
  · have inside : value % m < inverses.size := by
      rw [size]
      exact Nat.mod_lt value hm
    rw [Checked.get_eq inside]
    refine ⟨_, rfl, fun w same => ?_⟩
    cases same
    exact reduced _ inside

theorem get_spec {m : Nat} (prime : m.Prime) {inverses : Array Nat}
    (filled : FilledTo m m inverses) (value : Nat) :
    ∃ answer, get ⟨m, inverses⟩ value = .ok answer ∧ IsInverse m value answer := by
  have less := Nat.mod_lt value prime.pos
  obtain ⟨size, entries⟩ := filled
  rw [get, Checked.remainder_eq prime.ne_zero, Checked.ok_bind]
  split
  · rename_i divides
    refine ⟨none, rfl, ?_⟩
    intro coprime
    exact (Nat.Prime.coprime_iff_not_dvd prime).mp coprime.symm (Nat.dvd_of_mod_eq_zero divides)
  · rename_i nonzero
    have inside : value % m < inverses.size := by omega
    obtain ⟨reduced, exact⟩ := entries (value % m) inside (Nat.pos_of_ne_zero nonzero)
    rw [Checked.get_eq inside]
    rw [ZMod.natCast_mod] at exact
    exact ⟨_, rfl, reduced, exact⟩

end InverseTable

namespace InverseLookup

/-- A lookup always answers, and with reduced numbers. -/
def Total (m : Nat) (lookup : InverseLookup) : Prop :=
  ∀ value, ∃ answer, lookup.inverse value = .ok answer ∧ ∀ w, answer = some w → w < m

/-- The answers of a lookup are right modulo `m`. -/
def Exact (m : Nat) (lookup : InverseLookup) : Prop :=
  ∀ value answer, lookup.inverse value = .ok answer → IsInverse m value answer

/-- If a table is called for, there is room for it. -/
def HasRoom (modulus tableLimit : Nat) : Prop :=
  modulus ≤ tableLimit → Prime.test modulus = .ok true → modulus < InverseTable.capacity

variable {m limit : Nat} {lookup : InverseLookup}

instance : Decidable (HasRoom m limit) := inferInstanceAs (Decidable (_ → _ → _))

theorem HasRoom.of_limit (small : limit < InverseTable.capacity) : HasRoom m limit :=
  fun called _ => Nat.lt_of_le_of_lt called small

/-- A lookup does without a table, or one has been called for and laid out. -/
theorem build_cases (built : build m limit = .ok lookup) :
    lookup = ⟨m, none⟩ ∨ m ≤ limit ∧ Prime.test m = .ok true ∧ m < InverseTable.capacity ∧
      ∃ table, InverseTable.build m = .ok (some table) ∧ lookup = ⟨m, some table⟩ := by
  unfold build at built
  split at built
  · rename_i called
    obtain ⟨found, laid, same⟩ := Checked.bind_eq_ok.mp built
    cases same
    cases found with
    | none => exact Or.inl rfl
    | some table =>
      obtain ⟨answer, decided, rest⟩ := Checked.bind_eq_ok.mp laid
      cases answer with
      | false => cases rest
      | true =>
        by_cases room : m < InverseTable.capacity
        · exact Or.inr ⟨called, decided, room, table, laid, rfl⟩
        · rw [InverseTable.build_noRoom decided (Nat.not_lt.mp room)] at laid
          cases laid
  · cases built
    exact Or.inl rfl

/-- Nothing but the room for a table keeps a lookup from being made. -/
theorem build_returns_iff (bound : m < wordBound) :
    (∃ lookup, build m limit = .ok lookup) ↔ HasRoom m limit := by
  constructor
  · rintro ⟨lookup, built⟩ called accepted
    by_contra large
    rw [build, if_pos called, InverseTable.build_noRoom accepted (Nat.not_lt.mp large)] at built
    cases built
  · intro room
    unfold build
    split
    · rename_i called
      obtain ⟨answer, decided⟩ := Prime.test_returns bound
      cases answer with
      | false =>
        rw [InverseTable.build, decided]
        exact ⟨_, rfl⟩
      | true =>
        obtain ⟨inverses, laid, _⟩ := InverseTable.build_reduced (Prime.two_le_of_test decided)
          bound decided (room called decided)
        rw [laid]
        exact ⟨_, rfl⟩
    · exact ⟨_, rfl⟩

theorem total_of_build (hm : 0 < m) (bound : m < wordBound)
    (built : build m limit = .ok lookup) : lookup.Total m := by
  obtain rfl | ⟨_, accepted, room, table, laid, rfl⟩ := build_cases built
  · intro value
    obtain ⟨answer, run, meaning⟩ := Inverse.find_spec hm bound value
    refine ⟨answer, run, fun w same => ?_⟩
    subst same
    exact meaning.1
  · obtain ⟨inverses, laid', size, reduced⟩ :=
      InverseTable.build_reduced (Prime.two_le_of_test accepted) bound accepted room
    obtain rfl := Option.some.inj (Except.ok.inj (laid.symm.trans laid'))
    exact InverseTable.get_reduced hm size reduced

/-- A lookup is exact, provided that a table is only laid out for a prime. -/
theorem build_exact (hm : 0 < m) (bound : m < wordBound)
    (primes : Prime.test m = .ok true → m.Prime ∨ limit < m)
    (built : build m limit = .ok lookup) : lookup.Exact m := by
  intro value answer found
  obtain rfl | ⟨called, accepted, room, table, laid, rfl⟩ := build_cases built
  · obtain ⟨answer', run, meaning⟩ := Inverse.find_spec hm bound value
    obtain rfl : answer' = answer := Except.ok.inj (run.symm.trans found)
    exact meaning
  · have prime : m.Prime := (primes accepted).resolve_right (Nat.not_lt.mpr called)
    obtain ⟨inverses, laid', filled⟩ := InverseTable.build_prime prime bound room
    obtain rfl := Option.some.inj (Except.ok.inj (laid.symm.trans laid'))
    obtain ⟨answer', got, meaning⟩ := InverseTable.get_spec prime filled value
    obtain rfl : answer' = answer := Except.ok.inj (got.symm.trans found)
    exact meaning

end InverseLookup

end LinearCongruences
