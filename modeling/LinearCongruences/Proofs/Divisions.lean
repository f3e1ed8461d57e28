import Mathlib
import LinearCongruences.Proofs.FamilyShape
import LinearCongruences.Proofs.Preservation
import LinearCongruences.Proofs.Rearrangement
import LinearCongruences.Proofs.Truthfulness

/-! What the divisions make of the solutions over any modulus. Elimination leaves the column of a
pivot to its own row, but a row whose pivot has vanished and that has been used again may name a
column before its new pivot. A division leaves what stands there as it is, and so moves the unknown
of the pivot. No other row names that unknown, so there are as many solutions as before, but they
may be other ones. -/
namespace LinearCongruences

open Finset

namespace Tableau

/-- What row `r` comes to before its diagonal. -/
def leftPart (m : Nat) (t : Tableau) (x : Nat → ZMod m) (r : Nat) : ZMod m :=
  ∑ c ∈ range r, t.residue m r c * x c

/-- The tables before and after the divisions, which may have ended early. -/
structure PartlyDivided (m n : Nat) (e d : Tableau) : Prop where
  source : e.IsTable m n
  table : d.IsTable m n
  upright : e.Upright n
  row : ∀ r < n, RowSettled m n e d r

/-- The pivot of row `r` has been divided out. -/
def Touched (e d : Tableau) (r : Nat) : Prop := d.entry r r ≠ e.entry r r

/-- The values are the same, apart from the unknowns whose pivots have been divided out. -/
def SameBeside (n : Nat) {m : Nat} (e d : Tableau) (x y : Nat → ZMod m) : Prop :=
  ∀ c < n, ¬ Touched e d c → y c = x c

open Classical in
/-- How far the division of row `c` moves the unknown of its pivot. -/
noncomputable def drift (m : Nat) (e d : Tableau) (x : Nat → ZMod m) (c : Nat) : ZMod m :=
  if Touched e d c then ((e.residue m c c)⁻¹ - 1) * e.leftPart m x c else 0

/-- The two sides of a division agree on what is left of the pivot. -/
def Harmless (m : Nat) (e : Tableau) (x : Nat → ZMod m) (r : Nat) : Prop :=
  e.residue m r r * e.leftPart m x r = e.leftPart m x r

/-- The classes that solve the divided table, made of those that solve the other one. -/
noncomputable def drifted {m n : Nat} (e d : Tableau) (x : Fin n → ZMod m) : Fin n → ZMod m :=
  fun i => x i + drift m e d (classes m (pointOf x)) i

variable {m n r : Nat} {e d : Tableau} {x y : Nat → ZMod m}

theorem sum_of_zero_after {f : Nat → ZMod m} (hr : r < n) (zero : ∀ c < n, r < c → f c = 0) :
    ∑ c ∈ range n, f c = ∑ c ∈ range r, f c + f r := by
  rw [← sum_range_succ]
  refine (sum_subset (range_subset_range.mpr hr) fun c inside outside => ?_).symm
  exact zero c (mem_range.mp inside) (by simpa using outside)

theorem drift_of_untouched (untouched : ¬ Touched e d r) : drift m e d x r = 0 :=
  if_neg untouched

theorem drift_of_touched (touched : Touched e d r) :
    drift m e d x r = ((e.residue m r r)⁻¹ - 1) * e.leftPart m x r :=
  if_pos touched

namespace PartlyDivided

variable (h : PartlyDivided m n e d)

include h

theorem touched (hr : r < n) (touched : Touched e d r) :
    e.NeedsDivision r ∧ RowDivided m n e d r := by
  refine (h.row r hr).resolve_left fun same => touched ?_
  exact h.table.entry_eq h.source hr (Nat.le_of_lt hr) hr (Nat.le_of_lt hr)
    (same r (Nat.le_of_lt hr))

theorem kept (hr : r < n) (untouched : ¬ Touched e d r) :
    ∀ c ≤ n, d.residue m r c = e.residue m r c := by
  refine (h.row r hr).resolve_right fun ⟨needs, _, _, one, _⟩ => needs.2.2 ?_
  rw [← not_not.mp untouched]
  apply Residue.eq_of_cast_eq (h.table.entry_lt hr (Nat.le_of_lt hr))
    (needs.one_lt h.source hr)
  rw [Nat.cast_one]
  exact one

/-- A row names the unknown of no pivot that has been divided out, unless it is its own. -/
theorem term_eq (same : SameBeside n e d x y) (hr : r < n) {c : Nat} (hc : c < n)
    (other : c ≠ r ∨ ¬ Touched e d r) : e.residue m r c * y c = e.residue m r c * x c := by
  by_cases touched : Touched e d c
  · have different : r ≠ c := by
      rintro rfl
      exact other.elim (absurd rfl) (absurd touched)
    have pivot := (h.touched hc touched).1.1
    have zero := h.upright.pivot_column c (h.source.unknowns ▸ hc) ⟨hc, pivot⟩ r
      (h.source.unknowns ▸ hr) different
    rw [residue, zero, Nat.cast_zero, zero_mul, zero_mul]
  · rw [same c hc touched]

theorem leftPart_eq (same : SameBeside n e d x y) (hr : r < n) :
    e.leftPart m y r = e.leftPart m x r := by
  refine sum_congr rfl fun c inside => ?_
  have before := mem_range.mp inside
  exact h.term_eq same hr (Nat.lt_trans before hr) (Or.inl (Nat.ne_of_lt before))

theorem drift_eq (same : SameBeside n e d x y) (hr : r < n) :
    drift m e d y r = drift m e d x r := by
  rw [drift, drift, h.leftPart_eq same hr]

/-- The row of a pivot that has been divided out, told by what is left of the pivot. -/
theorem defect_of_touched (hr : r < n) (touched : Touched e d r) :
    ∃ w : ZMod m, e.residue m r r * w = 1 ∧
      e.defect m x r = e.leftPart m x r + e.residue m r r * x r - e.residue m r n ∧
      d.defect m y r = e.leftPart m y r + y r - e.residue m r n * w := by
  obtain ⟨needs, w, inverse, one, constant, others⟩ := h.touched hr touched
  have later : ∀ c < n, r < c → e.residue m r c = 0 := fun c hc after => by
    rw [residue, needs.2.1 c (h.source.unknowns.symm ▸ hc) after, Nat.cast_zero]
  refine ⟨w, inverse, ?_, ?_⟩
  · rw [defect, h.source.unknowns, sum_of_zero_after hr fun c hc after => by
      rw [later c hc after, zero_mul]]
    rfl
  · rw [defect, h.table.unknowns, sum_of_zero_after hr fun c hc after => by
      rw [others c hc (Nat.ne_of_gt after), later c hc after, zero_mul], one, one_mul, constant]
    congr 2
    refine sum_congr rfl fun c inside => ?_
    have before := mem_range.mp inside
    rw [others c (Nat.lt_trans before hr) (Nat.ne_of_lt before)]

/-- With the unknowns moved, each row is a multiple of what it was. -/
theorem defect_eq_zero_iff (moved : ∀ c < n, y c = x c + drift m e d x c) (hr : r < n) :
    d.defect m y r = 0 ↔ e.defect m x r = 0 := by
  have same : SameBeside n e d x y := fun c hc untouched => by
    rw [moved c hc, drift_of_untouched untouched, add_zero]
  by_cases touched : Touched e d r
  · obtain ⟨w, inverse, before, after⟩ := h.defect_of_touched (x := x) (y := y) hr touched
    have unit : IsUnit w := IsUnit.of_mul_eq_one_right _ inverse
    have scaled : d.defect m y r = w * e.defect m x r := by
      rw [after, before, moved r hr, drift_of_touched touched, h.leftPart_eq same hr,
        ZMod.inv_eq_of_mul_eq_one m _ _ inverse]
      linear_combination -x r * inverse
    rw [scaled, unit.mul_right_eq_zero]
  · have row : d.defect m y r = e.defect m x r := by
      rw [defect, defect, h.table.unknowns, h.source.unknowns,
        h.kept hr touched n (Nat.le_refl n)]
      congr 1
      refine sum_congr rfl fun c inside => ?_
      have hc := mem_range.mp inside
      rw [h.kept hr touched c (Nat.le_of_lt hc), h.term_eq same hr hc (Or.inr touched)]
    rw [row]

theorem holds_iff (moved : ∀ c < n, y c = x c + drift m e d x c) :
    d.Holds m y ↔ e.Holds m x := by
  rw [Holds, Holds, h.table.unknowns, h.source.unknowns]
  exact forall₂_congr fun r hr => h.defect_eq_zero_iff moved hr

theorem drift_eq_zero (hr : r < n) (harmless : Touched e d r → e.Harmless m x r) :
    drift m e d x r = 0 := by
  by_cases touched : Touched e d r
  · obtain ⟨_, w, inverse, _⟩ := h.touched hr touched
    have agree : e.residue m r r * e.leftPart m x r = e.leftPart m x r := harmless touched
    rw [drift_of_touched touched, ZMod.inv_eq_of_mul_eq_one m _ _ inverse]
    linear_combination e.leftPart m x r * inverse - w * agree
  · exact drift_of_untouched touched

/-- Values for which a row holds before and after its division make the division harmless. -/
theorem harmless_of_holds (before : e.Holds m x) (after : d.Holds m x) (hr : r < n)
    (touched : Touched e d r) : e.Harmless m x r := by
  obtain ⟨w, inverse, first, second⟩ := h.defect_of_touched (x := x) (y := x) hr touched
  rw [before r (h.source.unknowns.symm ▸ hr)] at first
  rw [after r (h.table.unknowns.symm ▸ hr)] at second
  rw [Harmless]
  linear_combination first - e.residue m r r * second + e.residue m r n * inverse

/-! Points. -/

omit h in
theorem classes_drifted [NeZero m] (x : Fin n → ZMod m) {c : Nat} (hc : c < n) :
    classes m (pointOf (drifted e d x)) c =
      classes m (pointOf x) c + drift m e d (classes m (pointOf x)) c := by
  rw [classes_pointOf _ ⟨c, hc⟩, classes_pointOf x ⟨c, hc⟩]
  rfl

theorem drifted_bijective [NeZero m] :
    Function.Bijective (drifted e d : (Fin n → ZMod m) → Fin n → ZMod m) := by
  apply Finite.injective_iff_bijective.mp
  intro x y same
  -- both are the same beside the divided pivots, and so both are moved alike
  have beside : SameBeside n e d (classes m (pointOf x)) (classes m (pointOf y)) := by
    intro c hc untouched
    have left := classes_drifted (e := e) (d := d) x hc
    have right := classes_drifted (e := e) (d := d) y hc
    rw [drift_of_untouched untouched, add_zero] at left right
    rw [← left, ← right, same]
  funext i
  have moved : x i + _ = y i + _ := congrFun same i
  rw [h.drift_eq beside i.2] at moved
  exact add_right_cancel moved

theorem solution_drifted_iff [NeZero m] (x : Fin n → ZMod m) :
    d.Solution (pointOf (drifted e d x)) ↔ e.Solution (pointOf x) := by
  rw [solution_pointOf_iff_holds h.table, solution_pointOf_iff_holds h.source]
  exact h.holds_iff fun c hc => classes_drifted x hc

/-- There are as many solutions as before. -/
theorem ncard_solutions_eq : {x | d.Solution x}.ncard = {x | e.Solution x}.ncard := by
  have := NeZero.of_pos h.source.pos
  have image : ∀ {t : Tableau}, t.IsTable m n →
      {x | t.Solution x} = pointOf '' {x : Fin n → ZMod m | t.Solution (pointOf x)} := by
    intro t table
    ext point
    constructor
    · intro solution
      obtain ⟨x, rfl⟩ := Solution.exists_pointOf table solution
      exact ⟨x, solution, rfl⟩
    · rintro ⟨x, solution, rfl⟩
      exact solution
  have moved : {x : Fin n → ZMod m | d.Solution (pointOf x)} =
      drifted e d '' {x : Fin n → ZMod m | e.Solution (pointOf x)} := by
    ext y
    obtain ⟨x, rfl⟩ := h.drifted_bijective.surjective y
    rw [h.drifted_bijective.injective.mem_set_image]
    exact h.solution_drifted_iff x
  rw [image h.table, image h.source, moved, Set.ncard_image_of_injective _ pointOf_injective,
    Set.ncard_image_of_injective _ pointOf_injective,
    Set.ncard_image_of_injective _ h.drifted_bijective.injective]

/-- The solutions are the same exactly if no division does harm at any of them. -/
theorem solution_iff_iff : (∀ point, d.Solution point ↔ e.Solution point) ↔
    ∀ r < n, Touched e d r → ∀ point, e.Solution point → e.Harmless m (classes m point) r := by
  have := NeZero.of_pos h.source.pos
  have holds : ∀ {t : Tableau} {point : List Nat}, t.IsTable m n → t.Solution point →
      t.Holds m (classes m point) := fun table solution =>
    ((solution_iff table.shaped table.modulus _).mp solution).2.2
  constructor
  · intro same r hr touched point solution
    exact h.harmless_of_holds (holds h.source solution)
      (holds h.table ((same point).mpr solution)) hr touched
  · intro harmless point
    have fixed : ∀ x : Fin n → ZMod m, e.Solution (pointOf x) → drifted e d x = x := by
      intro x solution
      funext i
      rw [drifted, h.drift_eq_zero i.2 fun touched => harmless i i.2 touched _ solution, add_zero]
    constructor
    · intro solution
      obtain ⟨y, rfl⟩ := Solution.exists_pointOf h.table solution
      obtain ⟨x, rfl⟩ := h.drifted_bijective.surjective y
      have before := (h.solution_drifted_iff x).mp solution
      rwa [fixed x before]
    · intro solution
      obtain ⟨x, rfl⟩ := Solution.exists_pointOf h.source solution
      rw [← fixed x solution]
      exact (h.solution_drifted_iff x).mpr solution

/-- A row that starts at its pivot can be divided without harm. -/
theorem harmless_of_staircase (stairs : e.Staircase n) (hr : r < n) (touched : Touched e d r) :
    e.Harmless m x r := by
  have pivot := (h.touched hr touched).1.1
  have zero : e.leftPart m x r = 0 := by
    refine sum_eq_zero fun c inside => ?_
    rw [residue, stairs.pivot_left r (h.source.unknowns.symm ▸ hr) ⟨hr, pivot⟩ c
      (mem_range.mp inside), Nat.cast_zero, zero_mul]
  rw [Harmless, zero, mul_zero]

end PartlyDivided

end Tableau

open Tableau

/-- The divisions after an elimination always come to an end. Whether they are refused at some row
or not, each row is left as it was or has had its division, and there are as many solutions as
before. They are the same ones exactly if no division does harm at any of them, and they are if the
elimination has stayed clear, as it does over a prime modulus. -/
theorem divisions_keep_solutions_iff {t : Tableau} {settings : Settings} {s : Solver}
    (wf : t.WellFormed)
    (primes : Prime.test t.modulus = .ok true →
      t.modulus.Prime ∨ settings.inverseTableLimit < t.modulus)
    (built : Solver.ofTableau t settings = .ok (.ok s)) :
    ∃ e d outcome, s.eliminate = .ok e ∧ e.resolve = .ok (d, outcome) ∧
      (∀ r < t.unknowns, RowSettled t.modulus t.unknowns e.tableau d.tableau r) ∧
      {x | d.tableau.Solution x}.ncard = {x | e.tableau.Solution x}.ncard ∧
      ((∀ x, d.tableau.Solution x ↔ e.tableau.Solution x) ↔
        ∀ r < t.unknowns, Touched e.tableau d.tableau r → ∀ x, e.tableau.Solution x →
          e.tableau.Harmless t.modulus (classes t.modulus x) r) ∧
      (t.StaysClear → ∀ x, d.tableau.Solution x ↔ e.tableau.Solution x) ∧
      (t.modulus.Prime → ∀ x, d.tableau.Solution x ↔ e.tableau.Solution x) := by
  have fresh := Solver.ofTableau_fresh wf built
  have exact := Solver.ofTableau_exact wf primes built
  obtain ⟨e, eliminated, table, upright⟩ := eliminate_upright fresh.table
  obtain ⟨d, outcome, resolved, table', rows, _⟩ := resolveFrom_settled table fresh.total exact
  have h : PartlyDivided t.modulus t.unknowns e d := ⟨table, table', upright, rows⟩
  rw [← table.unknowns] at resolved
  have clear : t.StaysClear → ∀ x, d.Solution x ↔ e.Solution x := by
    intro clear
    obtain ⟨e', eliminated', known⟩ := eliminate_spec fresh.table
    obtain rfl : e = e' := Except.ok.inj (eliminated.symm.trans eliminated')
    exact h.solution_iff_iff.mpr fun r hr touched x _ =>
      h.harmless_of_staircase (known.kept clear).1 hr touched
  exact ⟨_, _, outcome, fresh.eliminate_eq eliminated, Solver.resolve_eq rfl resolved, rows,
    h.ncard_solutions_eq, h.solution_iff_iff, clear,
    fun prime => clear (StaysClear.of_prime prime fresh.table)⟩

/-- Column two wipes out the pivot of the first row, and column three takes that row again, which
still names column one. -/
def reusedRows (first second : Nat) : List (List Nat) :=
  [[first, 1, 1, 0, 1, 0],
   [0, 0, 0, 0, 0, 0],
   [0, 0, second, 1, second, 0],
   [0, 0, 0, 0, 0, 0],
   [0, 0, 0, 0, 0, 0]]

/-- What elimination has left of them, with the pivot of column three in its place. -/
def rowsLeft (second named pivot : Nat) : List (List Nat) :=
  [[0, 0, 0, 0, 0, 0],
   [0, 0, 0, 0, 0, 0],
   [0, 0, second, 0, second, 0],
   [0, named, 0, pivot, 0, 0],
   [0, 0, 0, 0, 0, 0]]

/-- Three times a number is fifteen times that number, so that the division by five is harmless. -/
theorem divisions_keep_solutions_mod_six :
    (stored 6 (reusedRows 2 3)).eliminate = .ok (stored 6 (rowsLeft 3 3 5)) ∧
      ∀ x, (stored 6 (rowsLeft 3 3 1)).Solution x ↔ (stored 6 (rowsLeft 3 3 5)).Solution x := by
  have composite : Prime.test 6 ≠ .ok true := by decide +kernel
  have built : Solver.ofTableau (stored 6 (reusedRows 2 3)) .default =
      .ok (.ok ⟨stored 6 (reusedRows 2 3), ⟨6, none⟩, 2 ^ 20, false, .loaded⟩) := by
    decide +kernel
  obtain ⟨e, d, outcome, eliminated, resolved, _, _, same, _⟩ := divisions_keep_solutions_iff
    ⟨by decide, by decide, by decide, by decide, by decide⟩
    (fun prime => absurd prime composite) built
  have first : Solver.eliminate ⟨stored 6 (reusedRows 2 3), ⟨6, none⟩, 2 ^ 20, false, .loaded⟩ =
      .ok ⟨stored 6 (rowsLeft 3 3 5), ⟨6, none⟩, 2 ^ 20, false, .eliminated⟩ := by
    decide +kernel
  obtain rfl := Except.ok.inj (first.symm.trans eliminated)
  have second : Solver.resolve
        ⟨stored 6 (rowsLeft 3 3 5), ⟨6, none⟩, 2 ^ 20, false, .eliminated⟩ =
      .ok (⟨stored 6 (rowsLeft 3 3 1), ⟨6, none⟩, 2 ^ 20, false, .resolved⟩, .ok ()) := by
    decide +kernel
  obtain rfl := (Prod.mk.inj (Except.ok.inj (second.symm.trans resolved))).1
  refine ⟨by decide +kernel, same.mpr fun r hr touched x _ => ?_⟩
  have only : ∀ r < 5, (stored 6 (rowsLeft 3 3 1)).entry r r ≠
      (stored 6 (rowsLeft 3 3 5)).entry r r → r = 3 := by decide
  obtain rfl := only r hr touched
  have left : leftPart 6 (stored 6 (rowsLeft 3 3 5)) (classes 6 x) 3 = 3 * classes 6 x 1 := by
    have entries : ∀ c < 3, (stored 6 (rowsLeft 3 3 5)).entry 3 c = if c = 1 then 3 else 0 := by
      decide
    simp [leftPart, residue, sum_range_succ, entries]
  have pivot : residue 6 (stored 6 (rowsLeft 3 3 5)) 3 3 = 5 := by decide
  have fifteen : ∀ v : ZMod 6, 5 * (3 * v) = 3 * v := by decide
  have harmless : Harmless 6 (stored 6 (rowsLeft 3 3 5)) (classes 6 x) 3 := by
    rw [Harmless, pivot, left, fifteen]
  exact harmless

/-- Twice a number is not ten times that number. The point solves the table that elimination leaves,
and not the one that the divisions leave, although they are not refused. -/
theorem division_loses_solution_mod_six :
    ∃ s e d, Solver.ofResidues 6 (reusedRows 3 2) .default = .ok (.ok s) ∧
      s.eliminate = .ok e ∧ e.resolve = .ok (d, .ok ()) ∧
      e.tableau.Solution [0, 1, 0, 2, 0] ∧ ¬ d.tableau.Solution [0, 1, 0, 2, 0] := by
  refine ⟨⟨stored 6 (reusedRows 3 2), ⟨6, none⟩, 2 ^ 20, false, .loaded⟩,
    ⟨stored 6 (rowsLeft 4 2 5), ⟨6, none⟩, 2 ^ 20, false, .eliminated⟩,
    ⟨stored 6 (rowsLeft 4 2 1), ⟨6, none⟩, 2 ^ 20, false, .resolved⟩, ?_, ?_, ?_, ?_, ?_⟩
  · decide +kernel
  · decide +kernel
  · decide +kernel
  · decide +kernel
  · decide +kernel

end LinearCongruences
