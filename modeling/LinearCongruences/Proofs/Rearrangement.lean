import Mathlib
import LinearCongruences.Proofs.DividedRows
import LinearCongruences.Proofs.SameSolutions

/-! Reduced tables whose rows have been put in another order. A division of a row that names columns
before its diagonal leaves those coefficients as they are, so that the row says something else. -/
namespace LinearCongruences.Tableau

open Finset

/-- Row `r` of `d` is row `q` of `e`, multiplied by a number with inverse. -/
def Multiple (m n : Nat) (e d : Tableau) (r q : Nat) : Prop :=
  ∃ a : ZMod m, IsUnit a ∧ ∀ c ≤ n, d.residue m r c = a * e.residue m q c

/-- Row `r` of `d` is row `q` of `e` with one coefficient that is not the pivot and the constant
divided by that coefficient, and the other coefficients left alone. -/
def Spoilt (m n : Nat) (e d : Tableau) (r q : Nat) : Prop :=
  ∃ k < n, ∃ w : ZMod m, k ≠ q ∧ e.residue m q k * w = 1 ∧ e.residue m q k ≠ 1 ∧
    d.residue m r k = 1 ∧ d.residue m r n = e.residue m q n * w ∧
    ∀ c < n, c ≠ k → d.residue m r c = e.residue m q c

/-- Each row of `d` comes from the row of the reduced table `e` that `σ` names. -/
structure Rearranged (m n : Nat) (e d : Tableau) (σ : Equiv.Perm Nat) : Prop where
  table : d.IsTable m n
  source : e.IsTable m n
  reduced : e.Reduced n
  lt_iff : ∀ r, σ r < n ↔ r < n
  row : ∀ r < n, Multiple m n e d r (σ r) ∨ Spoilt m n e d r (σ r)

/-- No row has been spoilt. -/
def Intact (m n : Nat) (e d : Tableau) (σ : Equiv.Perm Nat) : Prop :=
  ∀ r < n, Multiple m n e d r (σ r)

variable {m n : Nat} {e d d' u : Tableau} {σ : Equiv.Perm Nat} {r q : Nat}

theorem isUnit_residue (prime : m.Prime) (h : d.IsTable m n) (hr : r < n) {c : Nat} (hc : c ≤ n)
    (nonzero : d.entry r c ≠ 0) : IsUnit (d.residue m r c) := by
  have := Fact.mk prime
  apply isUnit_iff_ne_zero.mpr
  exact fun zero => nonzero ((h.residue_eq_zero hr hc).mp zero)

theorem Multiple.defect (h : d.IsTable m n) (h' : e.IsTable m n) {a : ZMod m}
    (row : ∀ c ≤ n, d.residue m r c = a * e.residue m q c) (x : Nat → ZMod m) :
    d.defect m x r = a * e.defect m x q := by
  simp only [Tableau.defect, h.unknowns, h'.unknowns, row n (Nat.le_refl n), mul_sub, mul_sum]
  congr 1
  apply sum_congr rfl
  intro c inside
  rw [row c (Nat.le_of_lt (mem_range.mp inside)), mul_assoc]

/-- A row that holds at the values `x` holds there after it has been spoilt only if the unknown in
question has the one value that the division gives it. -/
theorem Spoilt.value (prime : m.Prime) (h : d.IsTable m n) (h' : e.IsTable m n)
    (spoilt : Spoilt m n e d r q) :
    ∃ k < n, k ≠ q ∧ e.entry q k ≠ 0 ∧ ∃ v : ZMod m, ∀ x : Nat → ZMod m,
      e.defect m x q = 0 → d.defect m x r = 0 → x k = v := by
  have := Fact.mk prime
  obtain ⟨k, hk, w, other, inverse, notOne, one, constant, same⟩ := spoilt
  refine ⟨k, hk, other, fun zero => ?_, e.residue m q n * w, fun x before after => ?_⟩
  · simp [residue, zero] at inverse
  · have split : ∀ t : Tableau, ∀ i, ∑ c ∈ range n, t.residue m i c * x c =
        t.residue m i k * x k + ∑ c ∈ (range n).erase k, t.residue m i c * x c :=
      fun t i => (add_sum_erase _ _ (mem_range.mpr hk)).symm
    have rest : ∑ c ∈ (range n).erase k, d.residue m r c * x c =
        ∑ c ∈ (range n).erase k, e.residue m q c * x c := by
      apply sum_congr rfl
      intro c inside
      obtain ⟨different, inside⟩ := mem_erase.mp inside
      rw [same c (mem_range.mp inside) different]
    simp only [Tableau.defect, h.unknowns, h'.unknowns, split] at before after
    rw [rest, one, constant] at after
    have product : (1 - e.residue m q k) * (x k - e.residue m q n * w) = 0 := by
      linear_combination after - before + e.residue m q n * inverse
    rcases mul_eq_zero.mp product with absurd | value
    · exact (notOne (sub_eq_zero.mp absurd).symm).elim
    · exact sub_eq_zero.mp value

namespace Rearranged

variable (h : Rearranged m n e d σ)

include h

theorem lt (hr : r < n) : σ r < n := (h.lt_iff r).mpr hr

/-- Each row of the source is found somewhere. -/
theorem exists_row (hq : q < n) : ∃ r < n, σ r = q := by
  refine ⟨σ.symm q, (h.lt_iff _).mp ?_, σ.apply_symm_apply q⟩
  rwa [σ.apply_symm_apply]

/-- A row names the columns that it has always named. -/
theorem entry_eq_zero_iff (prime : m.Prime) (hr : r < n) {c : Nat} (hc : c < n) :
    d.entry r c = 0 ↔ e.entry (σ r) c = 0 := by
  have := Fact.mk prime
  rw [← h.table.residue_eq_zero hr (Nat.le_of_lt hc),
    ← h.source.residue_eq_zero (h.lt hr) (Nat.le_of_lt hc)]
  rcases h.row r hr with ⟨a, unit, row⟩ | ⟨k, _, w, _, inverse, _, one, _, same⟩
  · rw [row c (Nat.le_of_lt hc), unit.mul_right_eq_zero]
  · by_cases here : c = k
    · subst here
      rw [one]
      simp [left_ne_zero_of_mul_eq_one inverse]
    · rw [same c hc here]

/-- A row that names a column has a pivot in the source. -/
theorem source_pivot (hr : r < n) {c : Nat} (hc : c < n) (nonzero : e.entry (σ r) c ≠ 0) :
    e.entry (σ r) (σ r) ≠ 0 := by
  intro zero
  have hq := h.lt hr
  rw [← h.source.unknowns] at hq
  exact nonzero (h.reduced.clear (σ r) hq (fun settled => settled.2 zero) c hc)

/-- A row without coefficients keeps whether it is a contradiction. -/
theorem constant_eq_zero_iff (hr : r < n) (zero : e.entry (σ r) (σ r) = 0) :
    d.entry r n = 0 ↔ e.entry (σ r) n = 0 := by
  rw [← h.table.residue_eq_zero hr (Nat.le_refl n),
    ← h.source.residue_eq_zero (h.lt hr) (Nat.le_refl n)]
  rcases h.row r hr with ⟨a, unit, row⟩ | ⟨k, hk, w, _, inverse, notOne, _⟩
  · rw [row n (Nat.le_refl n), unit.mul_right_eq_zero]
  · by_cases named : e.entry (σ r) k = 0
    · have trivial : (1 : ZMod m) = 0 := by
        simpa [residue, named] using inverse.symm
      exact absurd (eq_of_zero_eq_one trivial.symm _ _) notOne
    · exact absurd zero (h.source_pivot hr hk named)

/-- Another swap puts the rows in another order. -/
theorem swap {a b : Nat} (ha : a < n) (hb : b < n)
    (result : d'.Represents m n fun r c => d.residue m (Equiv.swap a b r) c) :
    Rearranged m n e d' ((Equiv.swap a b).trans σ) ∧
      (Intact m n e d' ((Equiv.swap a b).trans σ) ↔ Intact m n e d σ) := by
  have moved : ∀ r < n, (Multiple m n e d' r (((Equiv.swap a b).trans σ) r) ↔
      Multiple m n e d (Equiv.swap a b r) (σ (Equiv.swap a b r))) := by
    intro r hr
    apply exists_congr
    intro x
    apply and_congr_right
    intro _
    apply forall₂_congr
    intro c hc
    rw [result.residue r hr c hc, Equiv.trans_apply]
  constructor
  · refine ⟨result.toIsTable, h.source, h.reduced, fun r => ?_, fun r hr => ?_⟩
    · rw [Equiv.trans_apply, h.lt_iff]
      constructor
      · intro inside
        simpa using swap_lt ha hb inside
      · exact swap_lt ha hb
    · rcases h.row _ (swap_lt ha hb hr) with multiple | ⟨k, hk, w, other, inverse, notOne, spoilt⟩
      · exact Or.inl ((moved r hr).mpr multiple)
      · obtain ⟨one, constant, same⟩ := spoilt
        refine Or.inr ⟨k, hk, w, other, inverse, notOne, ?_, ?_, fun c hc different => ?_⟩
        · rw [result.residue r hr k (Nat.le_of_lt hk), one]
        · rw [result.residue r hr n (Nat.le_refl n), constant, Equiv.trans_apply]
        · rw [result.residue r hr c (Nat.le_of_lt hc), same c hc different, Equiv.trans_apply]
  · constructor
    · intro intact r hr
      have back := (moved _ (swap_lt ha hb hr)).mp (intact _ (swap_lt ha hb hr))
      simpa using back
    · intro intact r hr
      exact (moved r hr).mpr (intact _ (swap_lt ha hb hr))

theorem holds_iff (intact : Intact m n e d σ) (x : Nat → ZMod m) : d.Holds m x ↔ e.Holds m x := by
  have row : ∀ r < n, d.defect m x r = 0 ↔ e.defect m x (σ r) = 0 := by
    intro r hr
    obtain ⟨a, unit, row⟩ := intact r hr
    rw [Multiple.defect h.table h.source row, unit.mul_right_eq_zero]
  rw [Holds, Holds, h.table.unknowns, h.source.unknowns]
  constructor
  · intro holds q hq
    obtain ⟨r, hr, rfl⟩ := h.exists_row hq
    exact (row r hr).mp (holds r hr)
  · intro holds r hr
    exact (row r hr).mpr (holds _ (h.lt hr))

end Rearranged

/-! Whether there are solutions is seen in the rows without coefficients, spoilt or not. -/

/-- A reduced table has solutions unless a row contradicts, and then all its other rows matter. -/
theorem Reduced.empty_of_solution (h : e.IsTable m n) (reduced : e.Reduced n) {point : List Nat}
    (solution : e.Solution point) :
    ∀ r < e.unknowns, e.entry r r = 0 → ∀ c ≤ e.unknowns, e.entry r c = 0 := by
  intro r hr zero c hc
  have coefficients : ∀ c < n, e.entry r c = 0 :=
    reduced.clear r hr fun settled => settled.2 zero
  rw [h.unknowns] at hr hc
  rcases Nat.lt_or_eq_of_le hc with inside | rfl
  · exact coefficients c inside
  · by_contra nonzero
    have holds := ((solution_iff h.shaped h.modulus point).mp solution).2.2
    exact not_holds_of_contradiction h hr coefficients nonzero _ holds

namespace Rearranged

variable (h : Rearranged m n e d σ) (prime : m.Prime)

include h prime

theorem coprime : ∀ q ∈ e.family.relations, q.coefficient.Coprime m := by
  intro q member
  obtain ⟨r, hr, nonzero, rfl⟩ := mem_relations.mp member
  exact coprime_of_entry prime h.source (h.source.unknowns ▸ hr) nonzero

theorem exists_solution
    (empty : ∀ r < e.unknowns, e.entry r r = 0 → ∀ c ≤ e.unknowns, e.entry r c = 0) :
    ∃ point, e.Solution point := by
  obtain ⟨point, _, solution, _⟩ := assign_solution h.source h.reduced.toStaircase empty
    (h.coprime prime) (List.length_replicate (n := e.family.freeColumns.length) (a := 0))
  exact ⟨point, solution⟩

/-- If there is no solution, some row says so. -/
theorem exists_contradiction (none : ∀ point, ¬ e.Solution point) :
    ∃ r < n, (∀ c < n, d.entry r c = 0) ∧ d.entry r n ≠ 0 := by
  by_contra all
  have empty : ∀ q < e.unknowns, e.entry q q = 0 → ∀ c ≤ e.unknowns, e.entry q c = 0 := by
    intro q hq zero c hc
    have coefficients : ∀ c < n, e.entry q c = 0 :=
      h.reduced.clear q hq fun settled => settled.2 zero
    rw [h.source.unknowns] at hq hc
    rcases Nat.lt_or_eq_of_le hc with inside | rfl
    · exact coefficients c inside
    · obtain ⟨r, hr, rfl⟩ := h.exists_row hq
      by_contra nonzero
      refine all ⟨r, hr, fun c hc => ?_, ?_⟩
      · exact (h.entry_eq_zero_iff prime hr hc).mpr (coefficients c hc)
      · exact fun constant => nonzero ((h.constant_eq_zero_iff hr zero).mp constant)
  obtain ⟨point, solution⟩ := h.exists_solution prime empty
  exact none point solution

/-- A row that contradicts is right. -/
theorem no_solution_of_contradiction (hr : r < n) (zero : ∀ c < n, d.entry r c = 0)
    (constant : d.entry r n ≠ 0) (point : List Nat) : ¬ e.Solution point := by
  intro solution
  have pivot := (h.entry_eq_zero_iff prime hr (h.lt hr)).mp (zero _ (h.lt hr))
  have empty := h.reduced.empty_of_solution h.source solution (σ r)
    (h.source.unknowns.symm ▸ h.lt hr) pivot n (h.source.unknowns ▸ Nat.le_refl n)
  exact constant ((h.constant_eq_zero_iff hr pivot).mpr empty)

/-- A spoilt row excludes some solution, since the unknown that it fixes is free in the source. -/
theorem exists_lost {first : List Nat} (solution : e.Solution first) (hr : r < n)
    (spoilt : Spoilt m n e d r (σ r)) : ∃ point, e.Solution point ∧ ¬ d.Solution point := by
  obtain ⟨k, hk, other, named, v, fixed⟩ := spoilt.value prime h.table h.source
  have hn := h.source.unknowns
  have free : k ∈ e.pivotFreeRows := by
    apply mem_pivotFreeRows.mpr
    refine ⟨hn ▸ hk, ?_⟩
    by_contra pivot
    exact named (h.reduced.pivot_column k (hn ▸ hk) ⟨hk, pivot⟩ _ (hn ▸ h.lt hr) (Ne.symm other))
  have empty := h.reduced.empty_of_solution h.source solution
  obtain ⟨x, y, hx, hy, _, differ⟩ := exists_differ_at_free h.source h.reduced.toStaircase empty
    (h.coprime prime) prime.one_lt free
  have value : ∀ z, e.Solution z → d.Solution z → classes m z k = v := by
    intro z before after
    apply fixed
    · exact ((solution_iff h.source.shaped h.source.modulus z).mp before).2.2 _ (hn ▸ h.lt hr)
    · exact ((solution_iff h.table.shaped h.table.modulus z).mp after).2.2 r
        (h.table.unknowns ▸ hr)
  by_cases kept : d.Solution x
  · refine ⟨y, hy, fun kept' => differ ?_⟩
    exact hx.getD_eq h.source hy ((value x hx kept).trans (value y hy kept').symm)
  · exact ⟨x, hx, kept⟩

/-- The solutions are kept exactly if no row has been spoilt, or there are none. -/
theorem solution_iff_iff : (∀ x, d.Solution x ↔ e.Solution x) ↔
    Intact m n e d σ ∨ ∀ x, ¬ e.Solution x := by
  constructor
  · intro same
    by_contra neither
    push Not at neither
    obtain ⟨damaged, x, solution⟩ := neither
    simp only [Intact, not_forall] at damaged
    obtain ⟨r, hr, changed⟩ := damaged
    have spoilt := (h.row r hr).resolve_left changed
    obtain ⟨point, before, after⟩ := h.exists_lost prime solution hr spoilt
    exact after ((same point).mpr before)
  · rintro (intact | none) x
    · exact (solution_congr h.source h.table (h.holds_iff intact) x).symm
    · obtain ⟨r, hr, zero, constant⟩ := h.exists_contradiction prime none
      refine iff_of_false (fun solution => ?_) (none x)
      have holds := ((solution_iff h.table.shaped h.table.modulus x).mp solution).2.2
      exact not_holds_of_contradiction h.table hr zero constant _ holds

end Rearranged

/-! The divisions on a table whose rows have been moved. -/

/-- A row to be divided names no column before its diagonal. -/
def DividesWhole (u : Tableau) : Prop :=
  ∀ r < u.unknowns, u.NeedsDivision r → ∀ c < r, u.entry r c = 0

/-- The diagonal of row `r` has been divided out of the constant alone. -/
def RowDivided (m n : Nat) (u d : Tableau) (r : Nat) : Prop :=
  ∃ w : ZMod m, u.residue m r r * w = 1 ∧ d.residue m r r = 1 ∧
    d.residue m r n = u.residue m r n * w ∧ ∀ c < n, c ≠ r → d.residue m r c = u.residue m r c

/-- The table `d` is `u` with each row divided that needs it. -/
structure DividedOut (m n : Nat) (u d : Tableau) : Prop where
  table : d.IsTable m n
  kept : ∀ r < n, ¬ u.NeedsDivision r → ∀ c ≤ n, d.residue m r c = u.residue m r c
  divided : ∀ r < n, u.NeedsDivision r → RowDivided m n u d r

theorem needsDivision_congr (h : u.IsTable m n) (h' : d.IsTable m n) (hr : r < n)
    (same : ∀ c ≤ n, d.residue m r c = u.residue m r c) :
    d.NeedsDivision r ↔ u.NeedsDivision r := by
  refine NeedsDivision.congr (h'.unknowns.trans h.unknowns.symm) (h.unknowns ▸ hr) fun c hc => ?_
  have inside := Nat.le_of_lt (h.unknowns ▸ hc)
  exact h'.entry_eq h hr inside hr inside (same c inside)

/-- A row is as it was in `u`, or it needed a division and has had it. -/
def RowSettled (m n : Nat) (u d : Tableau) (r : Nat) : Prop :=
  (∀ c ≤ n, d.residue m r c = u.residue m r c) ∨ u.NeedsDivision r ∧ RowDivided m n u d r

theorem RowPassed.settled {lookup : InverseLookup} (h : u.IsTable m n) (exact : lookup.Exact m)
    (hr : r < n) (passed : RowPassed lookup u d r) : RowSettled m n u d r := by
  rw [← h.unknowns] at hr ⊢
  rcases passed with ⟨_, same⟩ | ⟨needs, w, found, divided⟩
  · exact Or.inl fun c hc => congrArg Nat.cast (same c hc)
  · refine Or.inr ⟨needs, w, (exact _ _ found).2, ?_, ?_, fun c hc other => ?_⟩
    · rw [residue, divided r (Nat.le_of_lt hr), dividedEntry_pivot hr, Nat.cast_one]
    · rw [residue, divided _ (Nat.le_refl _), dividedEntry, if_pos ⟨rfl, rfl⟩, h.modulus,
        Residue.cast_representative h.pos]
      push_cast
      rfl
    · rw [residue, divided c (Nat.le_of_lt hc), dividedEntry_beside hc other]
      rfl

theorem Passed.settled {lookup : InverseLookup} {i : Nat} (h : u.IsTable m n)
    (exact : lookup.Exact m) (passed : Passed lookup u i d) : ∀ r < n, RowSettled m n u d r := by
  intro r hr
  by_cases before : r < i
  · exact (passed.before r before).settled h exact hr
  · have same := passed.after r (h.unknowns ▸ hr) (Nat.le_of_not_lt before)
    rw [SameRow, h.unknowns] at same
    exact Or.inl fun c hc => congrArg Nat.cast (same c hc)

/-- No row is divided more than once, wherever the divisions end. -/
theorem resolveFrom_settled {lookup : InverseLookup} (h : u.IsTable m n) (total : lookup.Total m)
    (exact : lookup.Exact m) :
    ∃ d outcome, Solver.resolveFrom lookup u 0 n = .ok (d, outcome) ∧ d.IsTable m n ∧
      (∀ r < n, RowSettled m n u d r) ∧ ResolutionOutcome m n lookup d outcome := by
  obtain ⟨d, outcome, run, table, _, result⟩ := resolveFrom_spec total (P := fun _ => True)
    (fun _ _ _ _ _ _ _ _ _ _ => trivial) n h trivial (Nat.zero_add n)
    fun i hi => absurd hi (Nat.not_lt_zero i)
  obtain ⟨d', outcome', run', ended⟩ :=
    resolveFrom_passed h.wellFormed.ofWords (h.modulus ▸ total)
  rw [h.unknowns] at run'
  obtain ⟨rfl, rfl⟩ := Prod.mk.inj (Except.ok.inj (run.symm.trans run'))
  refine ⟨d, outcome, run, table, ?_, result⟩
  rcases ended with ⟨_, passed⟩ | ⟨_, _, _, _, passed, _⟩
  · exact passed.settled h exact
  · exact passed.settled h exact

/-- Over a prime modulus all rows that need it can be divided. -/
theorem resolveFrom_dividedOut {lookup : InverseLookup} (prime : m.Prime) (h : u.IsTable m n)
    (total : lookup.Total m) (exact : lookup.Exact m) :
    ∃ d, Solver.resolveFrom lookup u 0 n = .ok (d, .ok ()) ∧ DividedOut m n u d := by
  obtain ⟨d, outcome, run, table, rows, result⟩ := resolveFrom_settled h total exact
  cases outcome with
  | error refusal =>
    obtain ⟨i, hi, needs, missing, _⟩ := result
    exact absurd (coprime_of_entry prime table hi needs.1) (exact _ _ missing)
  | ok done =>
    refine ⟨d, run, table, fun r hr unneeded => ?_, fun r hr needed => ?_⟩
    · exact (rows r hr).resolve_right fun divided => unneeded divided.1
    · rcases rows r hr with same | ⟨_, divided⟩
      · exact absurd ((needsDivision_congr h table hr same).mpr needed) (result r hr)
      · exact divided

/-- Each row of `u` is the row of the reduced table `e` that `σ` names. -/
structure Moved (m n : Nat) (e u : Tableau) (σ : Equiv.Perm Nat) : Prop where
  rows : u.Represents m n fun r c => e.residue m (σ r) c
  source : e.IsTable m n
  reduced : e.Reduced n
  lt_iff : ∀ r, σ r < n ↔ r < n

namespace Moved

variable (h : Moved m n e u σ)

include h

theorem entry_eq (hr : r < n) {c : Nat} (hc : c ≤ n) : u.entry r c = e.entry (σ r) c :=
  h.rows.entry_eq h.source hr hc ((h.lt_iff r).mpr hr) hc (h.rows.residue r hr c hc)

theorem rearranged : Rearranged m n e u σ where
  table := h.rows.toIsTable
  source := h.source
  reduced := h.reduced
  lt_iff := h.lt_iff
  row := fun r hr => Or.inl ⟨1, isUnit_one, fun c hc => by rw [h.rows.residue r hr c hc, one_mul]⟩

theorem intact : Intact m n e u σ :=
  fun r hr => ⟨1, isUnit_one, fun c hc => by rw [h.rows.residue r hr c hc, one_mul]⟩

theorem swap {a b : Nat} (ha : a < n) (hb : b < n) {u' : Tableau}
    (result : u'.Represents m n fun r c => u.residue m (Equiv.swap a b r) c) :
    Moved m n e u' ((Equiv.swap a b).trans σ) where
  rows := by
    refine ⟨result.toIsTable, fun r hr c hc => ?_⟩
    rw [result.residue r hr c hc, h.rows.residue _ (swap_lt ha hb hr) c hc, Equiv.trans_apply]
  source := h.source
  reduced := h.reduced
  lt_iff := (h.rearranged.swap ha hb result).1.lt_iff

theorem residue_eq_one_iff (prime : m.Prime) (hr : r < n) {c : Nat} (hc : c ≤ n) :
    e.residue m (σ r) c = 1 ↔ u.entry r c = 1 := by
  rw [← h.rows.residue r hr c hc, residue]
  constructor
  · intro one
    apply Residue.eq_of_cast_eq (h.rows.entry_lt hr hc) prime.one_lt
    rw [one, Nat.cast_one]
  · intro one
    rw [one, Nat.cast_one]

/-- A row that is divided as a whole stays a multiple of what it was. -/
theorem multiple_of_left (divided : DividedOut m n u d) (hr : r < n)
    (left : u.NeedsDivision r → ∀ c < r, u.entry r c = 0) : Multiple m n e d r (σ r) := by
  by_cases needs : u.NeedsDivision r
  · obtain ⟨w, inverse, one, constant, same⟩ := divided.divided r hr needs
    refine ⟨w, IsUnit.of_mul_eq_one_right _ inverse, fun c hc => ?_⟩
    rw [← h.rows.residue r hr c hc, mul_comm]
    by_cases last : c = n
    · rw [last, constant]
    · by_cases pivot : c = r
      · rw [pivot, one, inverse]
      · have zero : u.entry r c = 0 := by
          rcases Nat.lt_or_gt_of_ne pivot with before | after
          · exact left needs c before
          · exact needs.2.1 c (h.rows.unknowns.symm ▸ by omega) after
        rw [same c (by omega) pivot, residue, zero, Nat.cast_zero, zero_mul]
  · refine ⟨1, isUnit_one, fun c hc => ?_⟩
    rw [divided.kept r hr needs c hc, h.rows.residue r hr c hc, one_mul]

/-- A row that names a column before its diagonal is not in its own place, and its division changes
what it says. -/
theorem spoilt_of_left (prime : m.Prime) (divided : DividedOut m n u d) (hr : r < n)
    (needs : u.NeedsDivision r) {c : Nat} (before : c < r) (nonzero : u.entry r c ≠ 0) :
    Spoilt m n e d r (σ r) ∧ ¬ Multiple m n e d r (σ r) := by
  have := Fact.mk prime
  obtain ⟨w, inverse, one, constant, same⟩ := divided.divided r hr needs
  have source : ∀ c ≤ n, u.residue m r c = e.residue m (σ r) c := h.rows.residue r hr
  have hrn := Nat.le_of_lt hr
  have notOne : e.residue m (σ r) r ≠ 1 := fun already =>
    needs.2.2 ((h.residue_eq_one_iff prime hr hrn).mp already)
  constructor
  · refine ⟨r, hr, w, fun moved => ?_, ?_, notOne, one, ?_, fun c hc other => ?_⟩
    · have pivot := needs.1
      rw [h.entry_eq hr hrn, ← moved] at pivot
      rw [h.entry_eq hr (by omega), ← moved] at nonzero
      exact nonzero (h.reduced.pivot_left r (h.source.unknowns.symm ▸ hr) ⟨hr, pivot⟩ c before)
    · rw [← source r hrn, inverse]
    · rw [constant, source n (Nat.le_refl n)]
    · rw [same c hc other, source c (Nat.le_of_lt hc)]
  · rintro ⟨a, _, row⟩
    -- the coefficient that was left alone shows that the factor is one
    have kept := row c (by omega)
    rw [same c (by omega) (by omega), ← source c (by omega)] at kept
    have unit := isUnit_residue prime h.rows.toIsTable hr (by omega) nonzero
    have factor : a = 1 := unit.mul_right_cancel (by rw [← kept, one_mul])
    have diagonal := row r hrn
    rw [one, factor, one_mul] at diagonal
    exact notOne diagonal.symm

theorem dividedOut (prime : m.Prime) (divided : DividedOut m n u d) :
    Rearranged m n e d σ ∧ (Intact m n e d σ ↔ u.DividesWhole) := by
  have hu := h.rows.unknowns
  constructor
  · refine ⟨divided.table, h.source, h.reduced, h.lt_iff, fun r hr => ?_⟩
    by_cases left : u.NeedsDivision r → ∀ c < r, u.entry r c = 0
    · exact Or.inl (h.multiple_of_left divided hr left)
    · push Not at left
      obtain ⟨needs, c, before, nonzero⟩ := left
      exact Or.inr (h.spoilt_of_left prime divided hr needs before nonzero).1
  · constructor
    · intro intact r hr needs c before
      by_contra nonzero
      rw [hu] at hr
      exact (h.spoilt_of_left prime divided hr needs before nonzero).2 (intact r hr)
    · intro all r hr
      exact h.multiple_of_left divided hr (all r (hu.symm ▸ hr))

end Moved

end LinearCongruences.Tableau
