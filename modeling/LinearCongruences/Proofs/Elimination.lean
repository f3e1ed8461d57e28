import Mathlib
import LinearCongruences.Proofs.Staircase

/-! Elimination column by column. As long as the rows that can give a pivot start at the column in
question, every step replaces whole rows by combinations of rows, so no solution is lost. If each
pivot that is met has an inverse, the steps can be taken back and no solution is gained either. -/
namespace LinearCongruences.Tableau

open Finset

/-- Row `r` of `t'` is a combination of row `r` and the pivot row of `t`, and if the pivot has an
inverse, so has the factor of row `r`. -/
def Combined (m n : Nat) (t t' : Tableau) (column r : Nat) : Prop :=
  ∃ a b : ZMod m, (IsUnit (t.residue m column column) → IsUnit a) ∧
    ∀ c ≤ n, t'.residue m r c = a * t.residue m r c - b * t.residue m column c

/-- The table `t'` is `t` after a column has been cleared by the pivot in its own row. -/
structure Clearing (m n column : Nat) (t t' : Tableau) : Prop where
  table : t.IsTable m n
  column_lt : column < n
  pivot_ne_zero : t.entry column column ≠ 0
  result : t'.Represents m n (t.cleared m column)

variable {m n : Nat} {t t' : Tableau} {column r : Nat}

theorem factors_fst_dvd : ((t.factors column r).1 : ZMod m) ∣ t.residue m column column :=
  Nat.cast_dvd_cast (Residue.cofactors_fst_dvd _ _)

theorem defect_of_combination (h : t.IsTable m n) (h' : t'.IsTable m n) {a b : ZMod m}
    (row : ∀ c ≤ n, t'.residue m r c = a * t.residue m r c - b * t.residue m column c)
    (x : Nat → ZMod m) :
    t'.defect m x r = a * t.defect m x r - b * t.defect m x column := by
  have sum : ∑ c ∈ range n, t'.residue m r c * x c =
      a * ∑ c ∈ range n, t.residue m r c * x c -
        b * ∑ c ∈ range n, t.residue m column c * x c := by
    rw [mul_sum, mul_sum, ← sum_sub_distrib]
    refine sum_congr rfl fun c inside => ?_
    rw [row c (Nat.le_of_lt (mem_range.mp inside))]
    ring
  rw [defect, defect, defect, h.unknowns, h'.unknowns, sum, row n (Nat.le_refl n)]
  ring

namespace Clearing

theorem pivot_row (h : Clearing m n column t t') {c : Nat} (hc : c ≤ n) :
    t'.residue m column c = t.residue m column c := by
  rw [h.result.residue column h.column_lt c hc, cleared, if_pos (Or.inl rfl)]

theorem pivot_entry (h : Clearing m n column t t') {c : Nat} (hc : c ≤ n) :
    t'.entry column c = t.entry column c :=
  h.result.entry_eq h.table h.column_lt hc h.column_lt hc (h.pivot_row hc)

/-- The column is zero outside the pivot row. -/
theorem column_zero (h : Clearing m n column t t') (hr : r < n) (other : r ≠ column) :
    t'.entry r column = 0 := by
  have hc := Nat.le_of_lt h.column_lt
  rw [← h.result.residue_eq_zero hr hc, h.result.residue r hr column hc, cleared]
  split
  · rename_i zero
    exact (h.table.residue_eq_zero hr hc).mpr (zero.resolve_left other)
  · exact cancelled_column t column r

/-- Left of the column, the diagonal of a row is scaled if it has a pivot and kept otherwise. -/
theorem diagonal (h : Clearing m n column t t') (before : r < column) :
    ∃ a : ZMod m, a ∣ t.residue m column column ∧
      t'.residue m r r = t.residue m r r * a := by
  have hr := Nat.lt_trans before h.column_lt
  rw [h.result.residue r hr r (Nat.le_of_lt hr), cleared]
  split
  · exact ⟨1, one_dvd _, (mul_one _).symm⟩
  · rw [cancelled, if_pos before]
    split
    · exact ⟨_, factors_fst_dvd, rfl⟩
    · exact ⟨1, one_dvd _, (mul_one _).symm⟩

/-- Left of the column a row is at most scaled, so what is zero there stays zero. -/
theorem left_zero (h : Clearing m n column t t') (hr : r < n) {c : Nat} (before : c < column)
    (zero : t.entry r c = 0) : t'.entry r c = 0 := by
  have hc := Nat.le_of_lt (Nat.lt_trans before h.column_lt)
  have kept : t.residue m r c = 0 := (h.table.residue_eq_zero hr hc).mpr zero
  rw [← h.result.residue_eq_zero hr hc, h.result.residue r hr c hc, cleared]
  split
  · exact kept
  · simp [cancelled, before, kept]

/-- A diagonal left of the column that is zero stays zero. -/
theorem settled_of (h : Clearing m n column t t') (before : r < column)
    (settled : t'.Settled (column + 1) r) : t.Settled column r := by
  have hr := Nat.lt_trans before h.column_lt
  exact ⟨before, fun zero => settled.2 (h.left_zero hr before zero)⟩

/-- Rows below the pivot name no column up to it, whatever the modulus. -/
theorem fresh (h : Clearing m n column t t')
    (fresh : ∀ r < n, column < r → ∀ c < column, t.entry r c = 0) :
    ∀ r < t'.unknowns, column + 1 ≤ r → ∀ c < column + 1, t'.entry r c = 0 := by
  intro r hr after c before
  rw [h.result.unknowns] at hr
  by_cases here : c = column
  · subst here
    exact h.column_zero hr (by omega)
  · exact h.left_zero hr (by omega) (fresh r hr (by omega) c (by omega))

/-- A row is combined as a whole if what the steps leave out on its left is zero. -/
theorem combined (h : Clearing m n column t t') (stairs : t.Staircase column)
    (clear : t.OffersClear column) (hr : r < n) : Combined m n t t' column r := by
  by_cases untouched : r = column ∨ t.entry r column = 0
  · refine ⟨1, 0, fun _ => isUnit_one, fun c hc => ?_⟩
    rw [h.result.residue r hr c hc, cleared, if_pos untouched]
    ring
  · have hc := h.column_lt
    have aligned : t.Aligned column r := by
      refine ⟨stairs.fresh_left column (h.table.unknowns ▸ hc) (Nat.le_refl _),
        stairs.pivot_left r (h.table.unknowns ▸ hr), fun unsettled => ?_⟩
      exact clear r (h.table.unknowns ▸ hr) ⟨unsettled, fun zero => untouched (Or.inr zero)⟩
    refine ⟨(t.factors column r).1, (t.factors column r).2,
      fun unit => isUnit_of_dvd_unit factors_fst_dvd unit, fun c hc => ?_⟩
    rw [h.result.residue r hr c hc, cleared, if_neg untouched, aligned.cancelled_eq]

theorem staircase (h : Clearing m n column t t') (stairs : t.Staircase column)
    (clear : t.OffersClear column) : t'.Staircase (column + 1) := by
  have hn := h.table.unknowns
  have pivot_left : ∀ c < column, t.entry column c = 0 :=
    stairs.fresh_left column (hn ▸ h.column_lt) (Nat.le_refl _)
  have zero : ∀ r < n, ∀ c ≤ n, t.entry r c = 0 → t.entry column c = 0 → t'.entry r c = 0 := by
    intro r hr c hc first second
    obtain ⟨a, b, _, row⟩ := h.combined stairs clear hr
    rw [← h.result.residue_eq_zero hr hc, row c hc, residue, residue, first, second]
    simp
  refine ⟨?_, ?_, ?_⟩
  · intro r hr settled c before
    rw [h.result.unknowns] at hr
    by_cases here : r = column
    · subst here
      rw [h.pivot_entry (by omega)]
      exact pivot_left c before
    · have left : r < column := by
        have := settled.1
        omega
      exact zero r hr c (by omega)
        (stairs.pivot_left r (hn ▸ hr) (h.settled_of left settled) c before)
        (pivot_left c (by omega))
  · intro r hr settled i hi other
    rw [h.result.unknowns] at hr hi
    by_cases here : r = column
    · subst here
      exact h.column_zero hi other
    · have left : r < column := by
        have := settled.1
        omega
      have column_r := stairs.pivot_column r (hn ▸ hr) (h.settled_of left settled)
      exact zero i hi r (Nat.le_of_lt hr) (column_r i (hn ▸ hi) other)
        (column_r column (hn ▸ h.column_lt) (Ne.symm here))
  · apply h.fresh
    intro r hr after
    exact stairs.fresh_left r (hn ▸ hr) (Nat.le_of_lt after)

theorem holds (h : Clearing m n column t t') (stairs : t.Staircase column)
    (clear : t.OffersClear column) (x : Nat → ZMod m) (holds : t.Holds m x) : t'.Holds m x := by
  intro r hr
  rw [h.result.unknowns] at hr
  obtain ⟨a, b, _, row⟩ := h.combined stairs clear hr
  rw [defect_of_combination h.table h.result.toIsTable row, holds r (h.table.unknowns ▸ hr),
    holds column (h.table.unknowns ▸ h.column_lt)]
  ring

/-- A clearing by a pivot that has an inverse can be taken back. -/
theorem holds_iff (h : Clearing m n column t t') (stairs : t.Staircase column)
    (clear : t.OffersClear column) (unit : IsUnit (t.residue m column column))
    (x : Nat → ZMod m) : t'.Holds m x ↔ t.Holds m x := by
  refine ⟨fun after r hr => ?_, h.holds stairs clear x⟩
  rw [h.table.unknowns] at hr
  have pivot : t.defect m x column = 0 := by
    have same : ∀ c ≤ n, t'.residue m column c =
        1 * t.residue m column c - 0 * t.residue m column c := fun c hc => by
      rw [h.pivot_row hc]
      ring
    have := defect_of_combination h.table h.result.toIsTable same x
    rw [after column (h.result.unknowns ▸ h.column_lt)] at this
    linear_combination -this
  obtain ⟨a, b, inverse, row⟩ := h.combined stairs clear hr
  have combination := defect_of_combination h.table h.result.toIsTable row x
  rw [after r (h.result.unknowns ▸ hr), pivot, mul_zero, sub_zero] at combination
  exact (inverse unit).mul_right_eq_zero.mp combination.symm

/-- If the pivot has an inverse, no earlier pivot vanishes, so the table stays reduced. -/
theorem reduced (h : Clearing m n column t t') (reduced : t.Reduced column)
    (unit : IsUnit (t.residue m column column)) : t'.Reduced (column + 1) where
  toStaircase := h.staircase reduced.toStaircase reduced.offersClear
  clear := by
    intro r hr unsettled c before
    rw [h.result.unknowns] at hr
    have hn := h.table.unknowns
    have other : r ≠ column := by
      rintro rfl
      refine unsettled ⟨Nat.lt_succ_self r, ?_⟩
      rw [h.pivot_entry (Nat.le_of_lt hr)]
      exact h.pivot_ne_zero
    -- the factor divides a pivot with inverse, so a diagonal that is zero now was zero before
    have unsettled' : ¬ t.Settled column r := by
      intro settled
      obtain ⟨a, divides, scaled⟩ := h.diagonal settled.1
      refine unsettled ⟨Nat.lt_succ_of_lt settled.1, fun zero => settled.2 ?_⟩
      rw [← h.result.residue_eq_zero hr (Nat.le_of_lt hr), scaled,
        (isUnit_of_dvd_unit divides unit).mul_left_eq_zero] at zero
      exact (h.table.residue_eq_zero hr (Nat.le_of_lt hr)).mp zero
    by_cases here : c = column
    · subst here
      exact h.column_zero hr other
    · have hcn : c ≤ n := by
        have := h.column_lt
        omega
      obtain ⟨a, b, _, row⟩ := h.combined reduced.toStaircase reduced.offersClear hr
      rw [← h.result.residue_eq_zero hr hcn, row c hcn, residue, residue,
        reduced.clear r (hn ▸ hr) unsettled' c (by omega),
        reduced.fresh_left column (hn ▸ h.column_lt) (Nat.le_refl _) c (by omega)]
      simp

/-- A pivot without inverse leaves a trace: it stays, or it is wiped out by another such pivot. -/
theorem tainted (h : Clearing m n column t t')
    (tainted : t.Tainted m column ∨ ¬ IsUnit (t.residue m column column)) :
    t'.Tainted m (column + 1) := by
  have pivot : ¬ IsUnit (t.residue m column column) → t'.Tainted m (column + 1) := by
    intro nonunit
    have hc := Nat.le_of_lt h.column_lt
    refine ⟨column, h.result.unknowns ▸ h.column_lt, ⟨Nat.lt_succ_self column, ?_⟩, ?_⟩
    · rw [h.pivot_entry hc]
      exact h.pivot_ne_zero
    · rwa [h.pivot_row hc]
  rcases tainted with ⟨r, hr, settled, nonunit⟩ | nonunit
  · rw [h.table.unknowns] at hr
    have hrn := Nat.le_of_lt hr
    obtain ⟨a, divides, scaled⟩ := h.diagonal settled.1
    -- only a new pivot without inverse can wipe the earlier one out
    by_cases vanished : t'.entry r r = 0
    · apply pivot
      intro unit
      rw [← h.result.residue_eq_zero hr hrn, scaled,
        (isUnit_of_dvd_unit divides unit).mul_left_eq_zero] at vanished
      exact settled.2 ((h.table.residue_eq_zero hr hrn).mp vanished)
    · refine ⟨r, h.result.unknowns ▸ hr, ⟨Nat.lt_succ_of_lt settled.1, vanished⟩, ?_⟩
      rw [scaled]
      exact fun unit => nonunit (isUnit_of_mul_isUnit_left unit)
  · exact pivot nonunit

theorem gap (h : Clearing m n column t t')
    (fresh : ∀ r < n, column < r → ∀ c < column, t.entry r c = 0)
    (gap : ∃ r < column, t.entry r r = 0) : t'.Gap (column + 1) := by
  constructor
  · exact h.fresh fresh
  · obtain ⟨r, before, zero⟩ := gap
    refine ⟨r, Nat.lt_succ_of_lt before, ?_⟩
    by_contra nonzero
    exact (h.settled_of before ⟨Nat.lt_succ_of_lt before, nonzero⟩).2 zero

end Clearing

/-! One column, and then all of them. -/

theorem eliminateColumn_cases (h : t.IsTable m n) (hc : column < n) :
    ∃ t', t.eliminateColumn column = .ok t' ∧ t'.IsTable m n ∧
      ((t' = t ∧ ∀ r < t.unknowns, ¬ t.Offers column r) ∨
        ∃ p s, PivotSwap m n column p t s ∧ Clearing m n column s t') := by
  obtain ⟨t', run, ⟨same, none⟩ | ⟨p, s, hp, offers, _, swapped, cleared⟩⟩ :=
    eliminateColumn_spec h hc
  · subst same
    exact ⟨t', run, h, Or.inl ⟨rfl, h.unknowns ▸ none⟩⟩
  · have swap : PivotSwap m n column p t s := ⟨h, hc, hp, offers, swapped⟩
    exact ⟨t', run, cleared.toIsTable, Or.inr ⟨p, s, swap,
      swapped.toIsTable, hc, swap.pivot_ne_zero, cleared⟩⟩

theorem eliminateColumn_staircase (h : t.IsTable m n) (hc : column < n)
    (stairs : t.Staircase column) (clear : t.OffersClear column) :
    ∃ t', t.eliminateColumn column = .ok t' ∧ t'.IsTable m n ∧ t'.Staircase (column + 1) ∧
      ∀ x, t.Holds m x → t'.Holds m x := by
  obtain ⟨t', run, table, ⟨same, none⟩ | ⟨p, s, swap, clearing⟩⟩ := eliminateColumn_cases h hc
  · subst same
    exact ⟨t', run, table, stairs.skip none, fun _ holds => holds⟩
  · have stairs' := swap.staircase stairs clear
    have clear' := swap.offersClear clear
    exact ⟨t', run, table, clearing.staircase stairs' clear',
      fun x holds => clearing.holds stairs' clear' x ((swap.holds_iff x).mpr holds)⟩

theorem eliminateColumn_tainted (h : t.IsTable m n) (hc : column < n)
    (tainted : t.Tainted m column) :
    ∃ t', t.eliminateColumn column = .ok t' ∧ t'.IsTable m n ∧ t'.Tainted m (column + 1) := by
  obtain ⟨r, hr, settled, nonunit⟩ := tainted
  obtain ⟨t', run, table, ⟨same, _⟩ | ⟨p, s, swap, clearing⟩⟩ := eliminateColumn_cases h hc
  · subst same
    exact ⟨t', run, table, r, hr, ⟨Nat.lt_succ_of_lt settled.1, settled.2⟩, nonunit⟩
  · have hrn := h.unknowns ▸ hr
    have row : s.residue m r r = t.residue m r r := by
      rw [swap.result.residue r hrn r (Nat.le_of_lt hrn), swap.fixed settled]
    refine ⟨t', run, table, clearing.tainted (Or.inl ⟨r, swap.result.unknowns ▸ hrn,
      swap.settled_of hrn settled, ?_⟩)⟩
    rwa [row]

theorem eliminateColumn_gap (h : t.IsTable m n) (hc : column < n) (gap : t.Gap column) :
    ∃ t', t.eliminateColumn column = .ok t' ∧ t'.IsTable m n ∧ t'.Gap (column + 1) := by
  obtain ⟨t', run, table, ⟨same, none⟩ | ⟨p, s, swap, clearing⟩⟩ := eliminateColumn_cases h hc
  · subst same
    obtain ⟨fresh, r, before, zero⟩ := gap
    exact ⟨t', run, table, fresh_skip fresh none, r, Nat.lt_succ_of_lt before, zero⟩
  · obtain ⟨fresh, gap'⟩ := swap.gap gap
    exact ⟨t', run, table, clearing.gap fresh gap'⟩

/-- On a reduced table a column either keeps everything or meets a pivot without inverse. -/
theorem eliminateColumn_reduced (h : t.IsTable m n) (hc : column < n)
    (reduced : t.Reduced column) :
    ∃ t', t.eliminateColumn column = .ok t' ∧ t'.IsTable m n ∧
      ((t'.Reduced (column + 1) ∧ ∀ x, t'.Holds m x ↔ t.Holds m x) ∨
        t'.Tainted m (column + 1)) := by
  obtain ⟨t', run, table, ⟨same, none⟩ | ⟨p, s, swap, clearing⟩⟩ := eliminateColumn_cases h hc
  · subst same
    exact ⟨t', run, table, Or.inl ⟨reduced.skip none, fun _ => Iff.rfl⟩⟩
  · have reduced' := swap.reduced reduced
    refine ⟨t', run, table, ?_⟩
    by_cases unit : IsUnit (s.residue m column column)
    · refine Or.inl ⟨clearing.reduced reduced' unit, fun x => ?_⟩
      rw [clearing.holds_iff reduced'.toStaircase reduced'.offersClear unit, swap.holds_iff]
    · exact Or.inr (clearing.tainted (Or.inr unit))

theorem reduced_zero (t : Tableau) : t.Reduced 0 where
  pivot_left := fun _ _ settled => absurd settled.1 (Nat.not_lt_zero _)
  pivot_column := fun _ _ settled => absurd settled.1 (Nat.not_lt_zero _)
  fresh_left := fun _ _ _ _ before => absurd before (Nat.not_lt_zero _)
  clear := fun _ _ _ _ before => absurd before (Nat.not_lt_zero _)

/-- Elimination ends with a reduced table of the same solutions, unless a pivot without inverse
is left that shows it did not. -/
theorem eliminate_reduced_or_tainted (h : t.IsTable m n) :
    ∃ e, t.eliminate = .ok e ∧ e.IsTable m n ∧
      ((e.Reduced n ∧ ∀ x, e.Holds m x ↔ t.Holds m x) ∨ e.Tainted m n) := by
  obtain ⟨e, run, table, result⟩ := Checked.foldlM_range eliminateColumn t n
    (fun k s => s.IsTable m n ∧
      ((s.Reduced k ∧ ∀ x, s.Holds m x ↔ t.Holds m x) ∨ s.Tainted m k))
    ⟨h, Or.inl ⟨reduced_zero t, fun _ => Iff.rfl⟩⟩
    (by
      rintro k hk s _ ⟨table, ⟨reduced, same⟩ | tainted⟩
      · obtain ⟨s', step, table', ⟨reduced', same'⟩ | tainted'⟩ :=
          eliminateColumn_reduced table hk reduced
        · exact ⟨s', step, table', Or.inl ⟨reduced', fun x => (same' x).trans (same x)⟩⟩
        · exact ⟨s', step, table', Or.inr tainted'⟩
      · obtain ⟨s', step, table', tainted'⟩ := eliminateColumn_tainted table hk tainted
        exact ⟨s', step, table', Or.inr tainted'⟩)
  exact ⟨e, by rw [eliminate, h.unknowns, run], table, result⟩

/-- A column that loses its pivot never gets one back, so elimination ends with a staircase
unless there is such a column. -/
theorem eliminate_staircase_or_gap (h : t.IsTable m n) :
    ∃ e, t.eliminate = .ok e ∧ (e.Staircase n ∨ ∃ r < n, e.entry r r = 0) := by
  obtain ⟨e, run, _, result⟩ := Checked.foldlM_range eliminateColumn t n
    (fun k s => s.IsTable m n ∧
      ((s.Staircase k ∧ ∀ r < k, s.entry r r ≠ 0) ∨ s.Gap k))
    ⟨h, Or.inl ⟨(reduced_zero t).toStaircase, fun r hr => absurd hr (Nat.not_lt_zero r)⟩⟩
    (by
      rintro k hk s _ ⟨table, ⟨stairs, pivots⟩ | gap⟩
      · -- all columns so far have their pivots, so a row that offers one is not in use yet
        have clear : s.OffersClear k := by
          intro r hr offers
          refine stairs.fresh_left r hr ?_
          by_contra before
          exact offers.1 ⟨by omega, pivots r (by omega)⟩
        obtain ⟨s', step, table', stairs', _⟩ := eliminateColumn_staircase table hk stairs clear
        refine ⟨s', step, table', ?_⟩
        by_cases all : ∀ r < k + 1, s'.entry r r ≠ 0
        · exact Or.inl ⟨stairs', all⟩
        · push Not at all
          exact Or.inr ⟨stairs'.fresh_left, all⟩
      · obtain ⟨s', step, table', gap'⟩ := eliminateColumn_gap table hk gap
        exact ⟨s', step, table', Or.inr gap'⟩)
  refine ⟨e, by rw [eliminate, h.unknowns, run], ?_⟩
  rcases result with ⟨stairs, _⟩ | ⟨_, gap⟩
  · exact Or.inl stairs
  · exact Or.inr gap

/-- The table before a column, after all earlier columns have been eliminated. -/
def eliminateUpTo (t : Tableau) (column : Nat) : Checked Tableau :=
  (List.range column).foldlM eliminateColumn t

/-- In the run on this table, the rows that can give the pivot of a column name none before it. -/
def StaysClear (t : Tableau) : Prop :=
  ∀ column < t.unknowns, ∀ s, t.eliminateUpTo column = .ok s → s.OffersClear column

/-- A run that stays clear keeps each solution. -/
theorem eliminate_keeps (h : t.IsTable m n) (clear : t.StaysClear) :
    ∃ e, t.eliminate = .ok e ∧ e.IsTable m n ∧ e.Staircase n ∧
      ∀ x, t.Holds m x → e.Holds m x := by
  obtain ⟨e, run, table, stairs, kept⟩ := Checked.foldlM_range eliminateColumn t n
    (fun k s => s.IsTable m n ∧ s.Staircase k ∧ ∀ x, t.Holds m x → s.Holds m x)
    ⟨h, (reduced_zero t).toStaircase, fun _ holds => holds⟩
    (by
      rintro k hk s reached ⟨table, stairs, kept⟩
      obtain ⟨s', step, table', stairs', kept'⟩ :=
        eliminateColumn_staircase table hk stairs (clear k (h.unknowns ▸ hk) s reached)
      exact ⟨s', step, table', stairs', fun x holds => kept' x (kept x holds)⟩)
  exact ⟨e, by rw [eliminate, h.unknowns, run], table, stairs, kept⟩

end LinearCongruences.Tableau
