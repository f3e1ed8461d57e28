import Mathlib
import LinearCongruences.Proofs.Classification

/-! Rows and the relations that are read off them say the same, and so do the test of a point
against a table and the congruences of its rows. -/
namespace LinearCongruences

open Finset

namespace Relation

/-- The residual of a relation at the values `x`. -/
def residualAt (m : Nat) (r : Relation) (x : Nat → ZMod m) : ZMod m :=
  (r.residual.map fun term => (term.2 : ZMod m) * x term.1).sum

/-- The two sides of a relation at the values `x`, one taken from the other. -/
def defect (m : Nat) (r : Relation) (x : Nat → ZMod m) : ZMod m :=
  r.coefficient * x r.column + r.residualAt m x - r.constant

theorem leftSide_eq_sum (r : Relation) (point : List Nat) :
    r.leftSide point = (r.coefficient * point.getD r.column 0 : Nat) +
      (r.residual.map fun term => (term.2 * point.getD term.1 0 : Int)).sum :=
  rfl

theorem holds_iff {m : Nat} (r : Relation) (point : List Nat) :
    r.Holds m point ↔ r.defect m (Tableau.classes m point) = 0 := by
  rw [Holds, ← ZMod.intCast_zmod_eq_zero_iff_dvd, leftSide_eq_sum, defect, residualAt]
  simp [Tableau.classes, Int.cast_list_sum, List.map_map, Function.comp_def]

theorem residualAt_congr {m : Nat} {r : Relation} {x y : Nat → ZMod m}
    (same : ∀ term ∈ r.residual, x term.1 = y term.1) : r.residualAt m x = r.residualAt m y := by
  rw [residualAt, residualAt]
  congr 1
  refine List.map_congr_left fun term member => ?_
  rw [same term member]

/-- A relation that can be solved for its unknown gives it one value for each value of the
residual. -/
theorem eq_of_defect {m : Nat} {r : Relation} (coprime : r.coefficient.Coprime m)
    {x y : Nat → ZMod m} (hx : r.defect m x = 0) (hy : r.defect m y = 0)
    (residual : r.residualAt m x = r.residualAt m y) : x r.column = y r.column := by
  have unit := (ZMod.isUnit_iff_coprime r.coefficient m).mpr coprime
  rw [defect, residual] at hx
  rw [defect] at hy
  apply unit.mul_left_cancel
  exact add_right_cancel (sub_left_injective (hx.trans hy.symm))

end Relation

theorem RowReading.residual_eq (f : Nat → Nat) (r n : Nat) :
    residual r ((List.range n).map f) =
      ((List.range n).filter fun c => c ≠ r ∧ f c ≠ 0).map fun c => (c, f c) := by
  have pairs : ((List.range n).map f).zipIdx = (List.range n).map fun c => (f c, c) := by
    apply List.ext_getElem <;> simp
  rw [residual, pairs, List.filter_map, List.map_map]
  congr 1
  refine List.filter_congr fun c _ => ?_
  rw [Bool.eq_iff_iff]
  simp

namespace Tableau

variable {m n : Nat} {t : Tableau} {r : Nat}

theorem mem_residual {term : Nat × Nat} :
    term ∈ (t.relationAt r).residual ↔
      term.1 < t.unknowns ∧ term.1 ≠ r ∧ t.entry r term.1 ≠ 0 ∧ term.2 = t.entry r term.1 := by
  rw [relationAt, RowReading.residual_eq]
  obtain ⟨c, x⟩ := term
  simp only [List.mem_map, List.mem_filter, List.mem_range, decide_eq_true_eq, Prod.mk.injEq]
  constructor
  · rintro ⟨c', ⟨inside, other, nonzero⟩, rfl, rfl⟩
    exact ⟨inside, other, nonzero, rfl⟩
  · rintro ⟨inside, other, nonzero, rfl⟩
    exact ⟨c, ⟨inside, other, nonzero⟩, rfl, rfl⟩

theorem relationAt_residualAt (x : Nat → ZMod m) :
    (t.relationAt r).residualAt m x =
      ∑ c ∈ range t.unknowns, if c ≠ r then t.residue m r c * x c else 0 := by
  have filtered : ((((List.range t.unknowns).filter fun c => c ≠ r ∧ t.entry r c ≠ 0).map
      fun c => (t.entry r c : ZMod m) * x c).sum) =
        ∑ c ∈ (range t.unknowns).filter (fun c => c ≠ r ∧ t.entry r c ≠ 0),
          (t.entry r c : ZMod m) * x c := rfl
  rw [Relation.residualAt, relationAt, RowReading.residual_eq, List.map_map]
  refine filtered.trans ?_
  rw [sum_filter]
  refine sum_congr rfl fun c _ => ?_
  by_cases zero : t.entry r c = 0
  · simp [residue, zero]
  · simp [residue, zero]

/-- A row and its relation are the same congruence. -/
theorem relationAt_defect (hr : r < t.unknowns) (x : Nat → ZMod m) :
    (t.relationAt r).defect m x = t.defect m x r := by
  have split : ∑ c ∈ range t.unknowns, t.residue m r c * x c =
      t.residue m r r * x r +
        ∑ c ∈ range t.unknowns, if c ≠ r then t.residue m r c * x c else 0 := by
    rw [← sum_filter, filter_ne']
    exact (add_sum_erase _ (fun c => t.residue m r c * x c) (mem_range.mpr hr)).symm
  rw [Relation.defect, relationAt_residualAt, defect, split]
  rfl

/-- If the rows without pivot are empty, the rows hold where the relations do. -/
theorem holds_iff_relations
    (empty : ∀ i < t.unknowns, t.entry i i = 0 → ∀ c ≤ t.unknowns, t.entry i c = 0)
    (x : Nat → ZMod m) : t.Holds m x ↔ ∀ q ∈ t.family.relations, q.defect m x = 0 := by
  simp only [family, List.forall_mem_map, pivotRows, List.mem_filter, List.mem_range,
    decide_eq_true_eq]
  constructor
  · rintro holds i ⟨hi, _⟩
    rw [relationAt_defect hi]
    exact holds i hi
  · intro relations i hi
    by_cases zero : t.entry i i = 0
    · have nothing : ∀ c ≤ t.unknowns, t.residue m i c = 0 := fun c hc => by
        rw [residue, empty i hi zero c hc, Nat.cast_zero]
      rw [defect, nothing _ (Nat.le_refl _), sub_zero]
      refine sum_eq_zero fun c inside => ?_
      rw [nothing c (Nat.le_of_lt (mem_range.mp inside)), zero_mul]
    · rw [← relationAt_defect hi]
      exact relations i ⟨hi, zero⟩

/-! Testing a point. -/

theorem products_cast (f : Nat → Nat) (values : List Nat) :
    ((Residue.products ((List.range values.length).map f) values : Int) : ZMod m) =
      ∑ c ∈ range values.length, (f c : ZMod m) * classes m values c := by
  have same : Residue.products ((List.range values.length).map f) values =
      leftSide ((List.range values.length).map fun c => (f c : Int)) values := by
    rw [Residue.products, leftSide_eq_sum, List.zipWith_map_left, List.zipWith_map_left]
  rw [same, leftSide_eq f values _ (Nat.le_refl _)]
  push_cast
  rfl

theorem holdFrom_spec (h : t.IsTable m n) {values : List Nat} (length : values.length = n)
    (words : ∀ x ∈ values, x < wordBound) (count r : Nat) (fits : r + count = n) :
    ∃ answer, t.holdFrom values r count = .ok answer ∧
      (answer = true ↔ ∀ i < n, r ≤ i → t.defect m (classes m values) i = 0) := by
  induction count generalizing r with
  | zero =>
    refine ⟨true, rfl, fun _ i hi after => ?_, fun _ => rfl⟩
    omega
  | succ count ih =>
    have hr : r < n := by omega
    have hr' : r < t.unknowns := h.unknowns ▸ hr
    have coefficients : ∀ x ∈ (List.range t.unknowns).map (t.entry r), x < wordBound := by
      intro x member
      obtain ⟨c, inside, rfl⟩ := List.mem_map.mp member
      rw [h.unknowns, List.mem_range] at inside
      exact h.entry_word hr (Nat.le_of_lt inside)
    have dot := Residue.dot_eq h.pos h.bound coefficients words
    have last := h.entry_lt hr (Nat.le_refl n)
    have row : Residue.representative
        (Residue.products ((List.range t.unknowns).map (t.entry r)) values) m = t.entry r n ↔
          t.defect m (classes m values) r = 0 := by
      rw [eq_comm, Residue.eq_representative_iff h.pos last, h.unknowns, ← length, products_cast,
        length, defect, sub_eq_zero, h.unknowns, eq_comm]
      rfl
    rw [holdFrom, coefficients_eq h.shaped hr', Checked.ok_bind, h.modulus, dot, Checked.ok_bind,
      constant_eq h.shaped hr', Checked.ok_bind, h.unknowns]
    rw [h.unknowns] at row
    obtain ⟨answer, run, meaning⟩ := ih (r + 1) (by omega)
    by_cases here : t.defect m (classes m values) r = 0
    · rw [if_pos (row.mpr here)]
      refine ⟨answer, run, meaning.trans ⟨fun rest i hi after => ?_, fun all i hi after => ?_⟩⟩
      · by_cases first : i = r
        · exact first ▸ here
        · exact rest i hi (by omega)
      · exact all i hi (by omega)
    · rw [if_neg fun same => here (row.mp same)]
      refine ⟨false, rfl, ?_⟩
      simp only [Bool.false_eq_true, false_iff]
      exact fun all => here (all r hr (Nat.le_refl r))

/-- The test tells whether all congruences hold, for any list of words. -/
theorem satisfiedBy_spec (h : t.IsTable m n) {values : List Nat}
    (words : ∀ x ∈ values, x < wordBound) :
    ∃ answer, t.satisfiedBy values = .ok answer ∧
      (answer = true ↔ values.length = n ∧ t.Holds m (classes m values)) := by
  rw [satisfiedBy]
  by_cases length : values.length = t.unknowns
  · rw [if_pos length]
    rw [h.unknowns] at length ⊢
    obtain ⟨answer, run, meaning⟩ := holdFrom_spec h length words n 0 (Nat.zero_add n)
    refine ⟨answer, run, meaning.trans ?_⟩
    rw [Holds, h.unknowns]
    exact ⟨fun all => ⟨length, fun i hi => all i hi (Nat.zero_le i)⟩, fun all i hi _ => all.2 i hi⟩
  · rw [if_neg length]
    rw [h.unknowns] at length
    exact ⟨false, rfl, by simp [length]⟩

/-- Of reduced values it tells whether they are a solution. -/
theorem satisfiedBy_iff (h : t.IsTable m n) {values : List Nat} (reduced : ∀ x ∈ values, x < m) :
    t.satisfiedBy values = .ok true ↔ t.Solution values := by
  obtain ⟨answer, run, meaning⟩ :=
    satisfiedBy_spec h fun x member => Nat.lt_trans (reduced x member) h.bound
  rw [run, Except.ok.injEq, meaning, solution_iff h.shaped h.modulus, h.unknowns]
  constructor
  · rintro ⟨length, holds⟩
    exact ⟨length, reduced, holds⟩
  · rintro ⟨length, _, holds⟩
    exact ⟨length, holds⟩

end Tableau

end LinearCongruences
