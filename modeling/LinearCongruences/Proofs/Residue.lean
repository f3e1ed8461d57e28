import Mathlib
import LinearCongruences.Residue
import LinearCongruences.Proofs.Checked

/-! Arithmetic modulo a word computes representatives. For operands that are words no intermediate
value leaves its range, whatever the modulus, so each operation returns. -/
namespace LinearCongruences.Residue

/-- The number in `[0, modulus)` that differs from `z` by a multiple of a positive modulus. -/
def representative (z : Int) (modulus : Nat) : Nat := (z % modulus).toNat

section
variable {m : Nat}

theorem representative_lt (hm : 0 < m) (z : Int) : representative z m < m := by
  have low := Int.emod_nonneg z (b := m) (by omega)
  have high := Int.emod_lt_of_pos z (b := m) (by omega)
  unfold representative
  omega

theorem representative_natCast (n : Nat) : representative n m = n % m := by
  simp only [representative, ← Int.natCast_mod, Int.toNat_natCast]

@[simp] theorem cast_representative (hm : 0 < m) (z : Int) :
    ((representative z m : Nat) : ZMod m) = (z : ZMod m) := by
  have low := Int.emod_nonneg z (b := m) (by omega)
  rw [← Int.cast_natCast, representative, Int.toNat_of_nonneg low, ZMod.intCast_mod]

theorem representative_modEq (hm : 0 < m) (z : Int) : (representative z m : Int) ≡ z [ZMOD m] := by
  rw [← ZMod.intCast_eq_intCast_iff, Int.cast_natCast, cast_representative hm]

/-- Reduced numbers are equal if their classes are. -/
theorem eq_of_cast_eq {x y : Nat} (hx : x < m) (hy : y < m) (h : (x : ZMod m) = y) : x = y := by
  rw [ZMod.natCast_eq_natCast_iff'] at h
  rwa [Nat.mod_eq_of_lt hx, Nat.mod_eq_of_lt hy] at h

theorem cast_eq_zero {x : Nat} (hx : x < m) : (x : ZMod m) = 0 ↔ x = 0 := by
  constructor
  · intro h
    exact eq_of_cast_eq hx (by omega) (by simpa using h)
  · rintro rfl
    exact Nat.cast_zero

theorem eq_representative_iff (hm : 0 < m) {x : Nat} (hx : x < m) (z : Int) :
    x = representative z m ↔ (x : ZMod m) = (z : ZMod m) := by
  constructor
  · rintro rfl
    exact cast_representative hm z
  · intro h
    exact eq_of_cast_eq hx (representative_lt hm z) (by rw [h, cast_representative hm])

theorem mul_lt_doubleBound {x y : Nat} (hx : x < wordBound) (hy : y < wordBound) :
    x * y < doubleBound := by
  calc x * y < wordBound * wordBound := Nat.mul_lt_mul'' hx hy
    _ = doubleBound := rfl

theorem mul_eq (hm : 0 < m) {x y : Nat} (hx : x < wordBound) (hy : y < wordBound) :
    mul x y m = .ok (representative (x * y) m) := by
  have bound := mul_lt_doubleBound hx hy
  rw [mul, Checked.below_eq bound, Checked.ok_bind, Checked.remainder_eq (by omega)]
  rw [← Nat.cast_mul, representative_natCast]

theorem add_eq (hm : 0 < m) {x y : Nat} (hx : x < wordBound) (hy : y < wordBound) :
    add x y m = .ok (representative (x + y) m) := by
  have bound : x + y < doubleBound := by
    have : wordBound + wordBound ≤ doubleBound := by decide
    omega
  rw [add, Checked.below_eq bound, Checked.ok_bind, Checked.remainder_eq (by omega)]
  rw [← Nat.cast_add, representative_natCast]

/-- The difference of two numbers is right exactly if they are less than the modulus apart, or just
that far below. -/
theorem sub_eq_representative_iff (hm : 0 < m) (x y : Nat) :
    sub x y m = .ok (representative (x - y) m) ↔ -(m : Int) ≤ x - y ∧ (x : Int) - y < m := by
  have reduced := representative_lt hm (x - y : Int)
  unfold sub
  split
  · rename_i h
    rw [Except.ok.injEq]
    refine ⟨fun same => by omega, fun near => ?_⟩
    rw [representative, Int.emod_eq_of_lt (by omega) near.2]
    omega
  · rename_i h
    unfold Checked.minus
    split
    · rw [Except.ok.injEq]
      refine ⟨fun _ => by omega, fun _ => ?_⟩
      have shift : ((x : Int) - y) % m = (x - y + m) % m := (Int.add_emod_right ..).symm
      rw [representative, shift, Int.emod_eq_of_lt (by omega) (by omega)]
      omega
    · refine ⟨nofun, fun near => ?_⟩
      omega

theorem sub_eq {x y : Nat} (hx : x < m) (hy : y < m) :
    sub x y m = .ok (representative (x - y) m) :=
  (sub_eq_representative_iff (by omega) x y).mpr (by omega)

/-- The cancelling step is exact for all words, reduced or not. -/
theorem combine_eq (hm : 0 < m) {x a y b : Nat} (hx : x < wordBound) (ha : a < wordBound)
    (hy : y < wordBound) (hb : b < wordBound) :
    combine x a y b m = .ok (representative (x * a - y * b) m) := by
  have kept := representative_lt hm (x * a : Int)
  have taken := representative_lt hm (y * b : Int)
  rw [combine, mul_eq hm hx ha, Checked.ok_bind, mul_eq hm hy hb, Checked.ok_bind,
    sub_eq kept taken]
  congr 1
  rw [eq_representative_iff hm (representative_lt hm _), cast_representative hm]
  push_cast [cast_representative hm]
  rfl

theorem normalize_eq (hm : 0 < m) (bound : m < wordBound) (z : Int) :
    normalize z m = .ok (representative z m) := by
  have size : (m : Int) < 2 ^ 64 := by exact_mod_cast bound
  have low : -(m : Int) < z.tmod m := by
    have := Int.lt_tmod_of_pos z (b := m) (by omega)
    omega
  have high : z.tmod m < m := Int.tmod_lt_of_pos z (by omega)
  have wide : (signedDoubleBound : Int) = 2 ^ 127 := rfl
  rw [normalize, Checked.signedRemainder_eq (by omega), Checked.ok_bind,
    Checked.within_eq (by omega) (by omega), Checked.ok_bind,
    Checked.signedRemainder_eq (by omega), Checked.ok_bind, Checked.pure_eq_ok]
  congr 1
  rw [Int.tmod_eq_emod_of_nonneg (by omega), representative, Int.add_emod_right]
  congr 1
  rw [Int.tmod_def, Int.sub_mul_emod_self_left]

/-- Repeated squaring multiplies the result by the whole power that is still to come. -/
theorem powLoop_eq (bound : m < wordBound) (exponent : Nat) {result base : Nat} (hr : result < m)
    (hb : base < m) : powLoop m result base exponent = .ok (result * base ^ exponent % m) := by
  induction exponent using Nat.strong_induction_on generalizing result base with
  | _ exponent ih =>
    have hm : 0 < m := by omega
    rw [powLoop]
    split
    · rename_i zero
      rw [zero, pow_zero, mul_one, Nat.mod_eq_of_lt hr]
    · have half : exponent / 2 < exponent := by omega
      have square := mul_eq hm (Nat.lt_trans hb bound) (Nat.lt_trans hb bound)
      rw [← Nat.cast_mul, representative_natCast] at square
      split
      · rename_i odd
        have parts : exponent = 2 * (exponent / 2) + 1 := by omega
        have product := mul_eq hm (Nat.lt_trans hr bound) (Nat.lt_trans hb bound)
        rw [← Nat.cast_mul, representative_natCast] at product
        simp only [product, square, Checked.ok_bind]
        rw [ih _ half (Nat.mod_lt _ hm) (Nat.mod_lt _ hm)]
        congr 1
        have power : result * base * (base * base) ^ (exponent / 2) = result * base ^ exponent := by
          conv_rhs => rw [parts]
          ring
        exact power ▸ (Nat.mod_modEq _ m).mul ((Nat.mod_modEq _ m).pow _)
      · have parts : exponent = 2 * (exponent / 2) := by omega
        simp only [square, Checked.ok_bind]
        rw [ih _ half hr (Nat.mod_lt _ hm)]
        congr 1
        have power : result * (base * base) ^ (exponent / 2) = result * base ^ exponent := by
          conv_rhs => rw [parts]
          ring
        exact power ▸ Nat.ModEq.rfl.mul ((Nat.mod_modEq _ m).pow _)

theorem pow_eq (hm : 0 < m) (bound : m < wordBound) (base exponent : Nat) :
    pow base exponent m = .ok (base ^ exponent % m) := by
  unfold pow
  split
  · rename_i one
    rw [one, Nat.mod_one]
    rfl
  · rw [reduce, Checked.remainder_eq (by omega)]
    simp only [Checked.ok_bind]
    rw [powLoop_eq bound exponent (by omega) (Nat.mod_lt base hm), one_mul, ← Nat.pow_mod]

/-- The products of paired entries, summed up without reduction. -/
def products (coefficients values : List Nat) : Int :=
  (List.zipWith (fun (c v : Nat) => (c * v : Int)) coefficients values).sum

theorem dotFrom_eq (hm : 0 < m) (bound : m < wordBound) {coefficients values : List Nat}
    (hc : ∀ c ∈ coefficients, c < wordBound) (hv : ∀ v ∈ values, v < wordBound) {total : Nat}
    (ht : total < m) :
    dotFrom m total coefficients values =
      .ok (representative (total + products coefficients values) m) := by
  induction coefficients generalizing values total with
  | nil =>
    simp only [dotFrom, products, List.zipWith_nil_left, List.sum_nil, add_zero]
    rw [representative_natCast, Nat.mod_eq_of_lt ht]
  | cons c coefficients ih =>
    cases values with
    | nil =>
      simp only [dotFrom, products, List.zipWith_nil_right, List.sum_nil, add_zero]
      rw [representative_natCast, Nat.mod_eq_of_lt ht]
    | cons v values =>
      have product := representative_lt hm (c * v : Int)
      have next := representative_lt hm (total + representative (c * v) m : Int)
      rw [dotFrom, mul_eq hm (hc c List.mem_cons_self) (hv v List.mem_cons_self), Checked.ok_bind,
        add_eq hm (Nat.lt_trans ht bound) (Nat.lt_trans product bound), Checked.ok_bind,
        ih (fun x hx => hc x (List.mem_cons_of_mem c hx))
          (fun x hx => hv x (List.mem_cons_of_mem v hx)) next]
      congr 1
      rw [eq_representative_iff hm (representative_lt hm _), cast_representative hm]
      simp only [products, List.zipWith_cons_cons, List.sum_cons]
      push_cast [cast_representative hm]
      ring

theorem dot_eq (hm : 0 < m) (bound : m < wordBound) {coefficients values : List Nat}
    (hc : ∀ c ∈ coefficients, c < wordBound) (hv : ∀ v ∈ values, v < wordBound) :
    dot coefficients values m = .ok (representative (products coefficients values) m) := by
  rw [dot, dotFrom_eq hm bound hc hv hm, Nat.cast_zero, zero_add]

end

/-! Cofactors, with which one entry is cancelled against another. -/

theorem divisor_eq_gcd (x y : Nat) : divisor x y = Nat.gcd x y := by
  induction x, y using divisor.induct with
  | case1 x => rw [divisor, dif_pos rfl, Nat.gcd_zero_right]
  | case2 x y nonzero ih =>
    rw [divisor, dif_neg nonzero, ih, Nat.gcd_comm x y, Nat.gcd_rec y x, Nat.gcd_comm]

theorem cofactors_eq (x y : Nat) : cofactors x y = (x / Nat.gcd x y, y / Nat.gcd x y) := by
  rw [cofactors, divisor_eq_gcd]
  split
  · rename_i zero
    rw [zero, Nat.div_zero, Nat.div_zero]
  · rfl

theorem cofactors_cross (x y : Nat) : (cofactors x y).1 * y = (cofactors x y).2 * x := by
  obtain ⟨a, ha⟩ := Nat.gcd_dvd_left x y
  obtain ⟨b, hb⟩ := Nat.gcd_dvd_right x y
  rw [cofactors_eq]
  rcases Nat.eq_zero_or_pos (Nat.gcd x y) with zero | positive
  · simp [zero]
  · generalize Nat.gcd x y = g at ha hb positive
    rw [ha, hb, Nat.mul_div_cancel_left a positive, Nat.mul_div_cancel_left b positive]
    ring

theorem cofactors_fst_dvd (x y : Nat) : (cofactors x y).1 ∣ x := by
  rw [cofactors_eq]
  exact Nat.div_dvd_of_dvd (Nat.gcd_dvd_left x y)

theorem cofactors_fst_le (x y : Nat) : (cofactors x y).1 ≤ x := by
  rw [cofactors_eq]
  exact Nat.div_le_self x _

theorem cofactors_snd_le (x y : Nat) : (cofactors x y).2 ≤ y := by
  rw [cofactors_eq]
  exact Nat.div_le_self y _

end LinearCongruences.Residue
