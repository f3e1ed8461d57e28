import Mathlib
import LinearCongruences.Proofs.Rearrangement

/-! The rows of a table as vectors over the residue ring. Over a prime modulus elimination and the
divisions keep the span of the rows, and each row ends with the pivot of its own column or without
coefficients. The columns that have no pivot then are those that depend on the columns before them,
and the span tells which these are. -/
namespace LinearCongruences

open Finset

namespace Tableau

/-- Row `r` with its constant. -/
def rowVector (m n : Nat) (t : Tableau) (r : Nat) : Fin (n + 1) → ZMod m :=
  fun c => t.residue m r c

/-- All combinations of the rows. -/
def rowSpace (m n : Nat) (t : Tableau) : Submodule (ZMod m) (Fin (n + 1) → ZMod m) :=
  Submodule.span (ZMod m) (Set.range fun r : Fin n => t.rowVector m n r)

/-- Column `c` is a combination of the columns before it. -/
def Dependent (m : Nat) (t : Tableau) (c : Nat) : Prop :=
  ∃ k : Nat → ZMod m, ∀ r < t.unknowns, t.residue m r c = ∑ j ∈ range c, k j * t.residue m r j

/-- The row starts at its diagonal, no other row names that column, and the columns that it names
after it have no pivot. -/
structure HoldsPivot (n : Nat) (t : Tableau) (r : Nat) : Prop where
  pivot : t.entry r r ≠ 0
  alone : ∀ i < n, i ≠ r → t.entry i r = 0
  left : ∀ c < r, t.entry r c = 0
  right : ∀ c < n, r < c → t.entry r c ≠ 0 → t.entry c c = 0

/-- Each row holds the pivot of its own column or has no coefficients. -/
def Echelon (n : Nat) (t : Tableau) : Prop :=
  ∀ r < n, t.HoldsPivot n r ∨ ∀ c < n, t.entry r c = 0

variable {m n w : Nat} {t t' e s : Tableau} {r column p : Nat}

theorem Reduced.echelon (h : t.IsTable m n) (reduced : t.Reduced n) : t.Echelon n := by
  have hn := h.unknowns
  intro r hr
  by_cases zero : t.entry r r = 0
  · exact Or.inr (reduced.clear r (hn ▸ hr) fun settled => settled.2 zero)
  · have settled : t.Settled n r := ⟨hr, zero⟩
    refine Or.inl ⟨zero, ?_, reduced.pivot_left r (hn ▸ hr) settled, fun c hc after named => ?_⟩
    · exact hn ▸ reduced.pivot_column r (hn ▸ hr) settled
    · -- a pivot of its own would be the only entry of that column
      by_contra pivot
      exact named (reduced.pivot_column c (hn ▸ hc) ⟨hc, pivot⟩ r (hn ▸ hr) (by omega))

/-! Steps that replace each row by a combination of rows. -/

theorem rowVector_mem (hr : r < n) : t.rowVector m n r ∈ t.rowSpace m n :=
  Submodule.subset_span ⟨⟨r, hr⟩, rfl⟩

theorem rowSpace_le (rows : ∀ r < n, t'.rowVector m n r ∈ t.rowSpace m n) :
    t'.rowSpace m n ≤ t.rowSpace m n := by
  refine Submodule.span_le.mpr ?_
  rintro _ ⟨r, rfl⟩
  exact rows r r.2

theorem rowVector_eq {v : Fin (n + 1) → ZMod m} (same : ∀ c : Fin (n + 1), t.residue m r c = v c) :
    t.rowVector m n r = v :=
  funext same

theorem PivotSwap.rowSpace_eq (h : PivotSwap m n column p t s) :
    s.rowSpace m n = t.rowSpace m n := by
  have moved : ∀ r < n, s.rowVector m n r = t.rowVector m n (Equiv.swap column p r) :=
    fun r hr => rowVector_eq fun c => h.result.residue r hr c (Nat.le_of_lt_succ c.2)
  have inside : ∀ r < n, Equiv.swap column p r < n := fun _ => swap_lt h.column_lt h.row_lt
  apply le_antisymm
  · apply rowSpace_le
    intro r hr
    rw [moved r hr]
    exact rowVector_mem (inside r hr)
  · apply rowSpace_le
    intro r hr
    have back := moved _ (inside r hr)
    rw [Equiv.swap_apply_self] at back
    rw [← back]
    exact rowVector_mem (inside r hr)

/-- A clearing by a pivot that has an inverse can be taken back row by row. -/
theorem Clearing.rowSpace_eq (h : Clearing m n column t t') (stairs : t.Staircase column)
    (clear : t.OffersClear column) (unit : IsUnit (t.residue m column column)) :
    t'.rowSpace m n = t.rowSpace m n := by
  have pivot : t'.rowVector m n column = t.rowVector m n column :=
    rowVector_eq fun c => h.pivot_row (Nat.le_of_lt_succ c.2)
  have combined : ∀ r < n, ∃ a b : ZMod m, IsUnit a ∧
      t'.rowVector m n r = a • t.rowVector m n r - b • t.rowVector m n column := by
    intro r hr
    obtain ⟨a, b, inverse, row⟩ := h.combined stairs clear hr
    exact ⟨a, b, inverse unit, rowVector_eq fun c => row c (Nat.le_of_lt_succ c.2)⟩
  apply le_antisymm
  · apply rowSpace_le
    intro r hr
    obtain ⟨a, b, _, row⟩ := combined r hr
    rw [row]
    exact Submodule.sub_mem _ (Submodule.smul_mem _ a (rowVector_mem hr))
      (Submodule.smul_mem _ b (rowVector_mem h.column_lt))
  · apply rowSpace_le
    intro r hr
    obtain ⟨_, b, ⟨a, rfl⟩, row⟩ := combined r hr
    have scaled : t'.rowVector m n r + b • t'.rowVector m n column =
        (a : ZMod m) • t.rowVector m n r := by
      rw [row, pivot, sub_add_cancel]
    refine (Submodule.smul_mem_iff_of_isUnit _ a.isUnit).mp ?_
    rw [← scaled]
    exact Submodule.add_mem _ (rowVector_mem hr)
      (Submodule.smul_mem _ b (rowVector_mem h.column_lt))

theorem Divided.rowSpace_eq (h : t.IsTable m n) (hr : r < n) (needs : t.NeedsDivision r)
    (divided : Divided m n w t t' r) (inverse : t.residue m r r * w = 1)
    (stairs : t.Staircase n) : t'.rowSpace m n = t.rowSpace m n := by
  have unit : IsUnit (w : ZMod m) := IsUnit.of_mul_eq_one_right _ inverse
  have here : t'.rowVector m n r = (w : ZMod m) • t.rowVector m n r := by
    refine rowVector_eq fun c => ?_
    rw [Divided.scaled h hr needs divided inverse stairs c (Nat.le_of_lt_succ c.2), mul_comm]
    rfl
  have others : ∀ i < n, i ≠ r → t'.rowVector m n i = t.rowVector m n i := by
    intro i hi other
    refine rowVector_eq fun c => ?_
    rw [divided.residue i hi c (Nat.le_of_lt_succ c.2), if_neg (by simp [other]),
      if_neg (by simp [other])]
    rfl
  apply le_antisymm
  · apply rowSpace_le
    intro i hi
    by_cases isRow : i = r
    · rw [isRow, here]
      exact Submodule.smul_mem _ _ (rowVector_mem hr)
    · rw [others i hi isRow]
      exact rowVector_mem hi
  · apply rowSpace_le
    intro i hi
    by_cases isRow : i = r
    · rw [isRow]
      refine (Submodule.smul_mem_iff_of_isUnit _ unit).mp ?_
      rw [← here]
      exact rowVector_mem hr
    · rw [← others i hi isRow]
      exact rowVector_mem hi

/-- What elimination and the divisions keep of the table `t` over a prime modulus. -/
structure RowEquivalent (m n : Nat) (t d : Tableau) : Prop where
  table : d.IsTable m n
  rowSpace_eq : d.rowSpace m n = t.rowSpace m n
  reduced : d.Reduced n

theorem eliminate_rowEquivalent (prime : m.Prime) (h : t.IsTable m n) :
    ∃ e, t.eliminate = .ok e ∧ RowEquivalent m n t e := by
  obtain ⟨e, run, table, same, reduced⟩ := Checked.foldlM_range eliminateColumn t n
    (fun k s => s.IsTable m n ∧ s.rowSpace m n = t.rowSpace m n ∧ s.Reduced k)
    ⟨h, rfl, reduced_zero t⟩
    (by
      rintro k hk u _ ⟨table, same, reduced⟩
      obtain ⟨u', run, table', ⟨rfl, none⟩ | ⟨p, s, swap, clearing⟩⟩ :=
        eliminateColumn_cases table hk
      · exact ⟨u', run, table, same, reduced.skip none⟩
      · have reduced' := swap.reduced reduced
        have unit := isUnit_residue prime clearing.table hk (Nat.le_of_lt hk) clearing.pivot_ne_zero
        refine ⟨u', run, table', ?_, clearing.reduced reduced' unit⟩
        rw [clearing.rowSpace_eq reduced'.toStaircase reduced'.offersClear unit, swap.rowSpace_eq,
          same])
  exact ⟨e, by rw [eliminate, h.unknowns, run], table, same, reduced⟩

theorem RowEquivalent.resolveFrom {lookup : InverseLookup} (prime : m.Prime)
    (known : RowEquivalent m n t e) (total : lookup.Total m) (exact : lookup.Exact m) :
    ∃ d, Solver.resolveFrom lookup e 0 n = .ok (d, .ok ()) ∧ RowEquivalent m n t d := by
  have keeps : ∀ u u' i w, u.IsTable m n → i < n → u.NeedsDivision i →
      lookup.inverse (u.entry i i) = .ok (some w) → Divided m n w u u' i →
      RowEquivalent m n t u → RowEquivalent m n t u' := by
    intro u u' i w table hi needs found divided known
    refine ⟨Divided.isTable divided, ?_, Divided.reduced table hi needs divided known.reduced⟩
    rw [Divided.rowSpace_eq table hi needs divided (exact _ _ found).2 known.reduced.toStaircase,
      known.rowSpace_eq]
  obtain ⟨d, outcome, run, table, known', result⟩ := resolveFrom_spec total keeps n known.table
    known (Nat.zero_add n) fun i hi => absurd hi (Nat.not_lt_zero i)
  cases outcome with
  | error refusal =>
    obtain ⟨i, hi, needs, missing, _⟩ := result
    exact absurd (coprime_of_entry prime table hi needs.1) (exact _ _ missing)
  | ok done => exact ⟨d, run, known'⟩

/-! Columns. -/

/-- What a vector has in column `c` beyond a combination of what it has before. -/
noncomputable def excess (c : Fin (n + 1)) (k : Nat → ZMod m) :
    (Fin (n + 1) → ZMod m) →ₗ[ZMod m] ZMod m :=
  LinearMap.proj c - ∑ j : Fin c, k j • LinearMap.proj (j.castLT (j.2.trans c.2))

theorem excess_rowVector (c : Fin (n + 1)) (k : Nat → ZMod m) (r : Nat) :
    excess c k (t.rowVector m n r) =
      t.residue m r c - ∑ j ∈ range c, k j * t.residue m r j := by
  simp [excess, rowVector, ← Fin.sum_univ_eq_sum_range fun j => k j * t.residue m r j]

/-- Whether a column depends on the columns before it is told by the combinations of the rows. -/
theorem dependent_iff (h : t.IsTable m n) (c : Fin (n + 1)) :
    t.Dependent m c ↔ ∃ k : Nat → ZMod m, t.rowSpace m n ≤ LinearMap.ker (excess c k) := by
  refine exists_congr fun k => ?_
  rw [rowSpace, Submodule.span_le, h.unknowns, Set.range_subset_iff]
  constructor
  · intro combined r
    exact LinearMap.mem_ker.mpr ((excess_rowVector c k r).trans (sub_eq_zero.mpr (combined r r.2)))
  · intro vanishes r hr
    have zero := LinearMap.mem_ker.mp (vanishes ⟨r, hr⟩)
    exact sub_eq_zero.mp ((excess_rowVector c k r).symm.trans zero)

/-- How much of the pivot in column `j` there is in column `c`. -/
def weight (m : Nat) (t : Tableau) (c j : Nat) : ZMod m :=
  if t.entry j j = 0 then 0 else t.residue m j c * (t.residue m j j)⁻¹

/-- A column adds nothing to the rows of other pivots. -/
theorem Echelon.weight_mul_eq_zero (h : t.IsTable m n) (echelon : t.Echelon n) (c : Nat) {j : Nat}
    (hj : j < n) (hr : r < n) (other : r ≠ j) : t.weight m c j * t.residue m r j = 0 := by
  rw [weight]
  split
  · rw [zero_mul]
  · rename_i pivot
    have alone := (echelon j hj).resolve_right fun blank => pivot (blank j hj)
    rw [(h.residue_eq_zero hr (Nat.le_of_lt hj)).mpr (alone.alone r hr other), mul_zero]

/-- A column without a pivot is a combination of the pivot columns before it. -/
theorem Echelon.dependent (prime : m.Prime) (h : t.IsTable m n) (echelon : t.Echelon n) {c : Nat}
    (hc : c < n) (zero : t.entry c c = 0) : t.Dependent m c := by
  have := Fact.mk prime
  refine ⟨t.weight m c, fun r hr => ?_⟩
  rw [h.unknowns] at hr
  have others : ∀ j ∈ range c, j ≠ r → t.weight m c j * t.residue m r j = 0 := fun j inside other =>
    echelon.weight_mul_eq_zero h c (Nat.lt_trans (mem_range.mp inside) hc) hr other.symm
  by_cases pivot : t.entry r r = 0
  · have blank := (echelon r hr).resolve_left fun holds => holds.pivot pivot
    rw [residue, blank c hc, Nat.cast_zero]
    refine (sum_eq_zero fun j inside => ?_).symm
    rw [residue, blank j (Nat.lt_trans (mem_range.mp inside) hc), Nat.cast_zero, mul_zero]
  · have holds := (echelon r hr).resolve_right fun blank => pivot (blank r hr)
    rcases Nat.lt_trichotomy r c with before | rfl | after
    · have unit : t.residue m r r ≠ 0 :=
        fun none => pivot ((h.residue_eq_zero hr (Nat.le_of_lt hr)).mp none)
      rw [sum_eq_single_of_mem r (mem_range.mpr before) others, weight, if_neg pivot, mul_assoc,
        inv_mul_cancel₀ unit, mul_one]
    · exact absurd zero pivot
    · rw [residue, holds.left c after, Nat.cast_zero]
      refine (sum_eq_zero fun j inside => others j inside ?_).symm
      have := mem_range.mp inside
      omega

theorem Echelon.independent (h : t.IsTable m n) (echelon : t.Echelon n) {c : Nat} (hc : c < n)
    (dependent : t.Dependent m c) : t.entry c c = 0 := by
  by_contra pivot
  obtain ⟨k, combined⟩ := dependent
  rcases echelon c hc with holds | blank
  · -- the row of the pivot has nothing before it that could be combined
    refine pivot ((h.residue_eq_zero hc (Nat.le_of_lt hc)).mp ?_)
    rw [combined c (h.unknowns.symm ▸ hc)]
    refine sum_eq_zero fun j inside => ?_
    rw [residue, holds.left j (mem_range.mp inside), Nat.cast_zero, mul_zero]
  · exact pivot (blank c hc)

theorem RowEquivalent.entry_eq_zero_iff (prime : m.Prime) (h : t.IsTable m n)
    (known : RowEquivalent m n t e) {c : Nat} (hc : c < n) :
    e.entry c c = 0 ↔ t.Dependent m c := by
  have echelon := known.reduced.echelon known.table
  have same : e.Dependent m c ↔ t.Dependent m c := by
    have column := dependent_iff known.table (⟨c, Nat.lt_succ_of_lt hc⟩ : Fin (n + 1))
    rw [known.rowSpace_eq] at column
    exact column.trans (dependent_iff h ⟨c, Nat.lt_succ_of_lt hc⟩).symm
  rw [← same]
  exact ⟨echelon.dependent prime known.table hc, echelon.independent known.table hc⟩

end Tableau

open Tableau

/-- Over a prime modulus elimination, and the divisions after it, keep the row space and bring the
table into echelon form, in which the columns that depend on earlier ones have no pivot. -/
theorem elimination_keeps_row_space {t : Tableau} (wf : t.WellFormed) (prime : t.modulus.Prime)
    (settings : Settings)
    (room : InverseLookup.HasRoom t.modulus settings.inverseTableLimit) :
    ∃ s e d, Solver.ofTableau t settings = .ok (.ok s) ∧ s.eliminate = .ok e ∧
      e.resolve = .ok (d, .ok ()) ∧ ∀ u ∈ [e.tableau, d.tableau],
        u.IsTable t.modulus t.unknowns ∧
        u.rowSpace t.modulus t.unknowns = t.rowSpace t.modulus t.unknowns ∧
        u.Echelon t.unknowns ∧
        ∀ c < t.unknowns, u.entry c c = 0 ↔ t.Dependent t.modulus c := by
  have h : t.IsTable t.modulus t.unknowns := ⟨wf, rfl, rfl⟩
  obtain ⟨s, built, fresh, exact⟩ := Solver.ofTableau_prime h prime room
  obtain ⟨e, eliminated, known⟩ := eliminate_rowEquivalent prime h
  obtain ⟨d, divided, known'⟩ := known.resolveFrom prime fresh.total exact
  rw [← known.table.unknowns] at divided
  refine ⟨s, _, _, built, fresh.eliminate_eq eliminated, Solver.resolve_eq rfl divided, ?_⟩
  have all : ∀ u, RowEquivalent t.modulus t.unknowns t u → u.IsTable t.modulus t.unknowns ∧
      u.rowSpace t.modulus t.unknowns = t.rowSpace t.modulus t.unknowns ∧ u.Echelon t.unknowns ∧
      ∀ c < t.unknowns, u.entry c c = 0 ↔ t.Dependent t.modulus c := fun u known =>
    ⟨known.table, known.rowSpace_eq, known.reduced.echelon known.table,
      fun _ => known.entry_eq_zero_iff prime h⟩
  simp only [List.forall_mem_cons]
  exact ⟨all _ known, all _ known', nofun⟩

/-- The first row names the free column in the middle, and is rescaled as a whole when the pivot
after that column is cleared. -/
theorem row_space_kept_mod_seven : Nat.Prime 7 ∧
    (⟨7, 3, #[2, 1, 1, 1, 0, 0, 0, 0, 0, 0, 3, 2]⟩ : Tableau).WellFormed ∧
    rowSpace 7 3 ⟨7, 3, #[6, 3, 0, 1, 0, 0, 0, 0, 0, 0, 1, 3]⟩ =
      rowSpace 7 3 ⟨7, 3, #[2, 1, 1, 1, 0, 0, 0, 0, 0, 0, 3, 2]⟩ ∧
    Dependent 7 ⟨7, 3, #[2, 1, 1, 1, 0, 0, 0, 0, 0, 0, 3, 2]⟩ 1 := by
  have prime : Nat.Prime 7 := by norm_num
  have wf : (⟨7, 3, #[2, 1, 1, 1, 0, 0, 0, 0, 0, 0, 3, 2]⟩ : Tableau).WellFormed :=
    ⟨by decide, by decide, by decide, by decide, by decide⟩
  obtain ⟨s, e, d, built, eliminated, resolved, forms⟩ :=
    elimination_keeps_row_space wf prime .default (.of_limit (by decide))
  have loaded : Solver.ofTableau ⟨7, 3, #[2, 1, 1, 1, 0, 0, 0, 0, 0, 0, 3, 2]⟩ .default =
      .ok (.ok ⟨⟨7, 3, #[2, 1, 1, 1, 0, 0, 0, 0, 0, 0, 3, 2]⟩,
        ⟨7, some ⟨7, #[0, 1, 4, 5, 2, 3, 6]⟩⟩, 2 ^ 20, false, .loaded⟩) := by decide +kernel
  obtain rfl := Except.ok.inj (Except.ok.inj (loaded.symm.trans built))
  have first : Solver.eliminate ⟨⟨7, 3, #[2, 1, 1, 1, 0, 0, 0, 0, 0, 0, 3, 2]⟩,
        ⟨7, some ⟨7, #[0, 1, 4, 5, 2, 3, 6]⟩⟩, 2 ^ 20, false, .loaded⟩ =
      .ok ⟨⟨7, 3, #[6, 3, 0, 1, 0, 0, 0, 0, 0, 0, 3, 2]⟩,
        ⟨7, some ⟨7, #[0, 1, 4, 5, 2, 3, 6]⟩⟩, 2 ^ 20, false, .eliminated⟩ := by decide +kernel
  obtain rfl := Except.ok.inj (first.symm.trans eliminated)
  have second : Solver.resolve ⟨⟨7, 3, #[6, 3, 0, 1, 0, 0, 0, 0, 0, 0, 3, 2]⟩,
        ⟨7, some ⟨7, #[0, 1, 4, 5, 2, 3, 6]⟩⟩, 2 ^ 20, false, .eliminated⟩ =
      .ok (⟨⟨7, 3, #[6, 3, 0, 1, 0, 0, 0, 0, 0, 0, 1, 3]⟩,
        ⟨7, some ⟨7, #[0, 1, 4, 5, 2, 3, 6]⟩⟩, 2 ^ 20, false, .resolved⟩, .ok ()) := by
    decide +kernel
  obtain rfl := (Prod.mk.inj (Except.ok.inj (second.symm.trans resolved))).1
  obtain ⟨_, same, _, free⟩ := forms _ (List.mem_cons_of_mem _ List.mem_cons_self)
  exact ⟨prime, wf, same, (free 1 (by decide)).mp (by decide)⟩

end LinearCongruences
