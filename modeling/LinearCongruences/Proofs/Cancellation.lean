import LinearCongruences.Proofs.Elimination

/-! One cancellation is an operation on whole rows, although it treats the columns of a row in
three ways. So it takes solutions to solutions, and loses none if its factor has an inverse. -/
namespace LinearCongruences.Tableau

/-- One row of `t'` is `a` times this row of `t` less `b` times another one, in all columns, the
constants included. The other rows are as before. -/
structure RowOperation (t t' : Tableau) (row other a b : Nat) : Prop where
  wellFormed : t'.WellFormed
  modulus : t'.modulus = t.modulus
  unknowns : t'.unknowns = t.unknowns
  combined : ∀ c < t.width, t'.entry row c =
    Residue.representative (a * t.entry row c - b * t.entry other c) t.modulus
  others : ∀ r < t.unknowns, r ≠ row → ∀ c < t.width, t'.entry r c = t.entry r c

variable {m n : Nat} {t t' : Tableau} {row column : Nat}

namespace RowOperation

variable {other a b : Nat} (operation : RowOperation t t' row other a b)

include operation

theorem table (h : t.IsTable m n) : t'.IsTable m n :=
  ⟨operation.wellFormed, operation.modulus.trans h.modulus, operation.unknowns.trans h.unknowns⟩

theorem defect_row (h : t.IsTable m n) (x : Nat → ZMod m) :
    t'.defect m x row = a * t.defect m x row - b * t.defect m x other := by
  refine defect_of_combination h (operation.table h) (fun c hc => ?_) x
  have inside : c < t.width := by
    rw [h.width]
    omega
  rw [residue, operation.combined c inside, h.modulus, Residue.cast_representative h.pos]
  push_cast
  rfl

theorem defect_other (h : t.IsTable m n) (x : Nat → ZMod m) {r : Nat} (hr : r < n)
    (apart : r ≠ row) : t'.defect m x r = t.defect m x r := by
  have same : ∀ c < t.width, t'.residue m r c = t.residue m r c := fun c inside =>
    congrArg Nat.cast (operation.others r (h.unknowns ▸ hr) apart c inside)
  rw [defect, defect, operation.unknowns, same _ (Nat.lt_succ_self _)]
  congr 1
  refine Finset.sum_congr rfl fun c inside => ?_
  rw [same c (Nat.lt_succ_of_lt (Finset.mem_range.mp inside))]

/-- The operation can be taken back if the factor of the row has an inverse. -/
theorem holds_iff (h : t.IsTable m n) (apart : other ≠ row) (hrow : row < n) (hother : other < n)
    (coprime : a.Coprime m) (x : Nat → ZMod m) : t'.Holds m x ↔ t.Holds m x := by
  have unit : IsUnit (a : ZMod m) := (ZMod.isUnit_iff_coprime a m).mpr coprime
  rw [Holds, Holds, operation.unknowns, h.unknowns]
  constructor
  · intro after r hr
    by_cases here : r = row
    · subst here
      have pivot := after other hother
      have combined := after r hr
      rw [operation.defect_other h x hother apart] at pivot
      rw [operation.defect_row h, pivot, mul_zero, sub_zero] at combined
      exact unit.mul_right_eq_zero.mp combined
    · rw [← operation.defect_other h x hr here]
      exact after r hr
  · intro before r hr
    by_cases here : r = row
    · subst here
      rw [operation.defect_row h, before r hr, before other hother]
      ring
    · rw [operation.defect_other h x hr here]
      exact before r hr

end RowOperation

/-- Whatever the modulus, the factors are the two entries without their common divisor. -/
theorem cancel_rowOperation (h : t.WellFormed) (hr : row < t.unknowns) (hc : column < t.unknowns)
    (apart : row ≠ column) (pivot : t.entry column column ≠ 0) (aligned : t.Aligned column row) :
    let g := Nat.gcd (t.entry column column) (t.entry row column)
    let a := t.entry column column / g
    let b := t.entry row column / g
    a.Coprime b ∧ ∃ t', t.cancel row column = .ok t' ∧ RowOperation t t' row column a b ∧
      t'.entry row column = 0 := by
  intro g a b
  have table : t.IsTable t.modulus t.unknowns := ⟨h, rfl, rfl⟩
  have coprime : a.Coprime b :=
    Nat.coprime_div_gcd_div_gcd (Nat.gcd_pos_of_pos_left _ (Nat.pos_of_ne_zero pivot))
  have factors : t.factors column row = (a, b) := Residue.cofactors_eq _ _
  obtain ⟨t', run, result⟩ := cancel_spec table hr hc apart
  have last := Nat.le_of_lt hc
  refine ⟨coprime, t', run, ⟨result.wellFormed, result.modulus, result.unknowns, ?_, ?_⟩, ?_⟩
  · intro c inside
    have inside := Nat.le_of_lt_succ inside
    rw [Residue.eq_representative_iff table.pos (result.entry_lt hr inside)]
    have class_eq := result.residue row hr c inside
    rw [if_pos rfl, aligned.cancelled_eq, factors] at class_eq
    refine class_eq.trans ?_
    push_cast
    rfl
  · intro r inside other c hcn
    have hcn := Nat.le_of_lt_succ hcn
    refine result.entry_eq table inside hcn inside hcn ?_
    rw [result.residue r inside c hcn, if_neg other]
  · rw [← result.residue_eq_zero hr last, result.residue row hr column last, if_pos rfl,
      cancelled_column]

/-- Row 0 has its pivot in column 0 and also names column 1, which has no pivot and is scaled. -/
theorem cancel_rowOperation_mod_six :
    let t : Tableau := ⟨6, 3, #[2, 1, 2, 5, 0, 0, 0, 0, 0, 0, 4, 1]⟩
    let t' : Tableau := ⟨6, 3, #[4, 2, 0, 3, 0, 0, 0, 0, 0, 0, 4, 1]⟩
    t.Settled 2 0 ∧ t.Aligned 2 0 ∧ t.cancel 0 2 = .ok t' ∧ RowOperation t t' 0 2 2 1 := by
  intro t t'
  have wellFormed : t.WellFormed := ⟨by decide, by decide, by decide, by decide, by decide⟩
  have aligned : t.Aligned 2 0 := ⟨by decide, by decide, by decide⟩
  obtain ⟨_, s, run, operation, _⟩ :=
    cancel_rowOperation wellFormed (by decide) (by decide) (by decide) (by decide) aligned
  have result : t.cancel 0 2 = .ok t' := by decide +kernel
  have kept : t.entry 2 2 / Nat.gcd (t.entry 2 2) (t.entry 0 2) = 2 := by decide +kernel
  have taken : t.entry 0 2 / Nat.gcd (t.entry 2 2) (t.entry 0 2) = 1 := by decide +kernel
  obtain rfl : s = t' := Except.ok.inj (run.symm.trans result)
  rw [kept, taken] at operation
  exact ⟨by decide, aligned, result, operation⟩

end LinearCongruences.Tableau
