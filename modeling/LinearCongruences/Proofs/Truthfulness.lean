import Mathlib
import LinearCongruences.Proofs.SameSolutions

/-! What the count of a reported family is worth. It counts the choices of free values. Over a
composite modulus a relation may have no value for its unknown, or several, and then the number of
solutions is another one. -/
namespace LinearCongruences

open Finset Tableau

variable {m n : Nat} {t e d : Tableau} {f : Family} {rows : Finset Nat} {s final : Solver}

/-- There is a solution, and the count is the number of solutions, if a double word holds it. -/
structure Family.Truthful (solution : List Nat → Prop) (f : Family) : Prop where
  consistent : ∃ x, solution x
  counted : ∀ count, f.solutionCount = some count → {x | solution x}.ncard = count

theorem Family.eq_of_solutionCount {count : Nat} (counts : f.solutionCount = some count) :
    count = f.modulus ^ f.freeColumns.length := by
  unfold solutionCount at counts
  simp only at counts
  split at counts
  · split at counts
    · exact (Option.some.inj counts).symm
    · cases counts
  · cases counts

/-! The solutions of a table are the fibre of its left sides over its constants. -/

/-- The point with the given classes. -/
def pointOf (x : Fin n → ZMod m) : List Nat := List.ofFn fun i => (x i).val

theorem pointOf_injective [NeZero m] :
    Function.Injective (pointOf : (Fin n → ZMod m) → List Nat) := by
  intro x y same
  funext i
  exact ZMod.val_injective m (congrFun (List.ofFn_injective same) i)

theorem classes_pointOf [NeZero m] (x : Fin n → ZMod m) (c : Fin n) :
    classes m (pointOf x) c = x c := by
  simp [classes, pointOf]

namespace Tableau

/-- The left sides of the given rows, as the unknowns vary. -/
def leftSides (m n : Nat) (t : Tableau) (rows : Finset Nat) :
    (Fin n → ZMod m) →+ (rows → ZMod m) where
  toFun x r := ∑ c : Fin n, t.residue m r c * x c
  map_zero' := by
    funext r
    simp
  map_add' x y := by
    funext r
    simp [mul_add, sum_add_distrib]

def constants (m n : Nat) (t : Tableau) (rows : Finset Nat) : rows → ZMod m :=
  fun r => t.residue m r n

/-- All rows but the given ones are zero. -/
structure Spanned (n : Nat) (t : Tableau) (rows : Finset Nat) : Prop where
  lt : ∀ r ∈ rows, r < n
  empty : ∀ r < n, r ∉ rows → ∀ c ≤ n, t.entry r c = 0

theorem spanned_range (n : Nat) (t : Tableau) : t.Spanned n (range n) where
  lt := fun _ => mem_range.mp
  empty := fun _ hr absent => absurd (mem_range.mpr hr) absent

theorem defect_pointOf [NeZero m] (h : t.IsTable m n) (x : Fin n → ZMod m) (r : Nat) :
    t.defect m (classes m (pointOf x)) r =
      ∑ c : Fin n, t.residue m r c * x c - t.residue m r n := by
  simp [defect, h.unknowns, ← Fin.sum_univ_eq_sum_range, classes_pointOf]

theorem solution_pointOf_iff_holds [NeZero m] (h : t.IsTable m n) (x : Fin n → ZMod m) :
    t.Solution (pointOf x) ↔ t.Holds m (classes m (pointOf x)) := by
  rw [solution_iff h.shaped h.modulus, h.unknowns]
  refine ⟨fun solution => solution.2.2, fun holds => ⟨List.length_ofFn, fun y member => ?_, holds⟩⟩
  obtain ⟨i, rfl⟩ := List.mem_ofFn.mp member
  exact ZMod.val_lt _

theorem solution_pointOf_iff [NeZero m] (h : t.IsTable m n) (spanned : t.Spanned n rows)
    (x : Fin n → ZMod m) :
    t.Solution (pointOf x) ↔ t.leftSides m n rows x = t.constants m n rows := by
  rw [solution_pointOf_iff_holds h, Holds, h.unknowns, funext_iff]
  simp only [defect_pointOf h, sub_eq_zero]
  constructor
  · intro holds r
    exact holds r (spanned.lt r r.2)
  · intro holds r hr
    by_cases member : r ∈ rows
    · exact holds ⟨r, member⟩
    · have zero : ∀ c ≤ n, t.residue m r c = 0 := fun c hc => by
        simp [residue, spanned.empty r hr member c hc]
      simp [zero n (Nat.le_refl n), fun c : Fin n => zero c (Nat.le_of_lt c.2)]

theorem Solution.exists_pointOf [NeZero m] (h : t.IsTable m n) {point : List Nat}
    (solution : t.Solution point) : ∃ x : Fin n → ZMod m, pointOf x = point := by
  obtain ⟨size, reduced, _⟩ := (solution_iff h.shaped h.modulus point).mp solution
  rw [h.unknowns] at size
  subst size
  refine ⟨fun i => (point[i] : ZMod m), ?_⟩
  have back : ∀ i : Fin point.length, (point[i] : ZMod m).val = point[i] := fun i =>
    ZMod.val_cast_of_lt (reduced _ (List.getElem_mem i.2))
  simp only [pointOf, back]
  exact List.ofFn_getElem

theorem exists_solution_iff [NeZero m] (h : t.IsTable m n) (spanned : t.Spanned n rows) :
    (∃ point, t.Solution point) ↔ ∃ x, t.leftSides m n rows x = t.constants m n rows := by
  constructor
  · rintro ⟨point, solution⟩
    obtain ⟨x, rfl⟩ := solution.exists_pointOf h
    exact ⟨x, (solution_pointOf_iff h spanned x).mp solution⟩
  · rintro ⟨x, same⟩
    exact ⟨pointOf x, (solution_pointOf_iff h spanned x).mpr same⟩

theorem ncard_solutions [NeZero m] (h : t.IsTable m n) (spanned : t.Spanned n rows)
    (consistent : ∃ point, t.Solution point) :
    {point | t.Solution point}.ncard * Nat.card (t.leftSides m n rows).range = m ^ n := by
  obtain ⟨x, same⟩ := (exists_solution_iff h spanned).mp consistent
  have fibre : {point | t.Solution point} =
      (Set.preimage (t.leftSides m n rows) {t.leftSides m n rows x}).image pointOf := by
    ext point
    constructor
    · intro solution
      obtain ⟨y, rfl⟩ := Solution.exists_pointOf h solution
      exact ⟨y, ((solution_pointOf_iff h spanned y).mp solution).trans same.symm, rfl⟩
    · rintro ⟨y, inside, rfl⟩
      exact (solution_pointOf_iff h spanned y).mpr (Eq.trans inside same)
  rw [fibre, Set.ncard_image_of_injective _ pointOf_injective, ← Nat.card_coe_set_eq,
    Nat.card_congr ((t.leftSides m n rows).fiberEquivKer x), ← AddSubgroup.index_ker,
    AddSubgroup.card_mul_index, Nat.card_fun, Nat.card_zmod, Nat.card_fin]

end Tableau

/-- A count is right if the rows have as many different left sides as there are choices for
the constants of the relations. -/
theorem Family.truthful_iff (h : t.IsTable m n) (spanned : t.Spanned n rows)
    (modulus : f.modulus = m) {k : Nat} (columns : f.freeColumns.length + k = n) :
    f.Truthful t.Solution ↔ (∃ x, t.Solution x) ∧ ∀ count, f.solutionCount = some count →
      Nat.card (t.leftSides m n rows).range = m ^ k := by
  have := NeZero.of_pos h.pos
  have power : m ^ n = m ^ f.freeColumns.length * m ^ k := by rw [← pow_add, columns]
  constructor
  · rintro ⟨consistent, counted⟩
    refine ⟨consistent, fun count counts => ?_⟩
    have product := (ncard_solutions h spanned consistent).trans power
    rw [counted count counts, eq_of_solutionCount counts, modulus] at product
    exact Nat.eq_of_mul_eq_mul_left (Nat.pow_pos h.pos) product
  · rintro ⟨consistent, full⟩
    refine ⟨consistent, fun count counts => ?_⟩
    have product := (ncard_solutions h spanned consistent).trans power
    rw [full count counts] at product
    rw [eq_of_solutionCount counts, modulus]
    exact Nat.eq_of_mul_eq_mul_right (Nat.pow_pos h.pos) product

namespace Tableau

/-- The rows with a pivot can be solved, whatever their constants are. -/
def PivotsSolvable (m n : Nat) (e : Tableau) : Prop :=
  ∀ b : Nat → ZMod m, ∃ x : Nat → ZMod m, ∀ r < n, e.entry r r ≠ 0 →
    ∑ c ∈ range n, e.residue m r c * x c = b r

variable (h : e.IsTable m n)

include h

theorem spanned_pivots (empty : ∀ r < n, e.entry r r = 0 → ∀ c ≤ n, e.entry r c = 0) :
    e.Spanned n e.pivotRows.toFinset where
  lt := by
    intro r member
    exact h.unknowns ▸ (mem_pivotRows.mp (List.mem_toFinset.mp member)).1
  empty := by
    intro r hr absent
    apply empty r hr
    by_contra pivot
    exact absent (List.mem_toFinset.mpr (mem_pivotRows.mpr ⟨h.unknowns.symm ▸ hr, pivot⟩))

theorem pivotsSolvable_iff_surjective :
    e.PivotsSolvable m n ↔ Function.Surjective (e.leftSides m n e.pivotRows.toFinset) := by
  constructor
  · intro solvable b
    obtain ⟨x, solved⟩ := solvable fun r =>
      if member : r ∈ e.pivotRows.toFinset then b ⟨r, member⟩ else 0
    refine ⟨fun c => x c, ?_⟩
    funext ⟨r, member⟩
    obtain ⟨hr, pivot⟩ := mem_pivotRows.mp (List.mem_toFinset.mp member)
    have row := solved r (h.unknowns ▸ hr) pivot
    rw [dif_pos member] at row
    rw [← row]
    exact Fin.sum_univ_eq_sum_range (fun c => e.residue m r c * x c) n
  · intro onto b
    obtain ⟨x, solved⟩ := onto fun r => b r
    refine ⟨fun c => if hc : c < n then x ⟨c, hc⟩ else 0, fun r hr pivot => ?_⟩
    have member : r ∈ e.pivotRows.toFinset :=
      List.mem_toFinset.mpr (mem_pivotRows.mpr ⟨h.unknowns.symm ▸ hr, pivot⟩)
    have row := congrFun solved ⟨r, member⟩
    rw [← row, ← Fin.sum_univ_eq_sum_range
      (fun c => e.residue m r c * if hc : c < n then x ⟨c, hc⟩ else 0)]
    simp [leftSides]

theorem card_leftSides_iff : Nat.card (e.leftSides m n e.pivotRows.toFinset).range =
    m ^ e.pivotRows.length ↔ e.PivotsSolvable m n := by
  have := NeZero.of_pos h.pos
  have nodup : e.pivotRows.Nodup := List.nodup_range.filter _
  have all : Nat.card (e.pivotRows.toFinset → ZMod m) = m ^ e.pivotRows.length := by
    rw [Nat.card_fun, Nat.card_zmod, Nat.card_eq_fintype_card, Fintype.card_coe,
      List.toFinset_card_of_nodup nodup]
  rw [pivotsSolvable_iff_surjective h, ← all, AddSubgroup.card_eq_iff_eq_top,
    AddMonoidHom.range_eq_top]

theorem PivotsSolvable.exists_solution (solvable : e.PivotsSolvable m n)
    (empty : ∀ r < n, e.entry r r = 0 → ∀ c ≤ n, e.entry r c = 0) : ∃ x, e.Solution x := by
  have := NeZero.of_pos h.pos
  apply (exists_solution_iff h (spanned_pivots h empty)).mpr
  exact (pivotsSolvable_iff_surjective h).mp solvable _

/-- Pivots that have inverses can be solved for, with all free unknowns zero. -/
theorem Staircase.pivotsSolvable (stairs : e.Staircase n)
    (coprime : ∀ r < n, e.entry r r ≠ 0 → (e.entry r r).Coprime m) : e.PivotsSolvable m n := by
  intro b
  refine ⟨fun c => if e.entry c c = 0 then 0 else b c * (e.residue m c c)⁻¹, fun r hr pivot => ?_⟩
  rw [sum_eq_single r]
  · have inverse : e.residue m r r * (e.residue m r r)⁻¹ = 1 :=
      ZMod.coe_mul_inv_eq_one _ (coprime r hr pivot)
    simp only [if_neg pivot]
    linear_combination b r * inverse
  · intro c inside other
    have hc := mem_range.mp inside
    by_cases free : e.entry c c = 0
    · simp [free]
    · have zero := stairs.pivot_column c (h.unknowns.symm ▸ hc) ⟨hc, free⟩ r
        (h.unknowns.symm ▸ hr) other.symm
      simp [residue, zero]
  · intro outside
    exact absurd (mem_range.mpr hr) outside

omit h

/-! The divisions leave the pivots where they are. -/

/-- The same rows have pivots in `d` as in `e`, and the others are as they are in `e`. -/
def SamePivots (n : Nat) (e d : Tableau) : Prop :=
  ∀ r < n, (d.entry r r = 0 ↔ e.entry r r = 0) ∧
    (e.entry r r = 0 → ∀ c ≤ n, d.entry r c = e.entry r c)

theorem Divided.samePivots {u u' : Tableau} {i w : Nat} (h : u.IsTable m n) (hi : i < n)
    (needs : u.NeedsDivision i) (divided : Divided m n w u u' i) (same : SamePivots n e u) :
    SamePivots n e u' := by
  intro r hr
  obtain ⟨zero, kept⟩ := same r hr
  by_cases here : r = i
  · subst here
    have pivot := mt zero.mpr needs.1
    simp [Divided.diagonal h hr needs divided, pivot]
  · have unchanged : ∀ c ≤ n, u'.entry r c = u.entry r c := fun c hc =>
      Divided.entry_eq h divided hr hc (by simp [here]) (by simp [here])
    rw [unchanged r (Nat.le_of_lt hr)]
    refine ⟨zero, fun empty c hc => ?_⟩
    rw [unchanged c hc, kept empty c hc]

theorem length_pivots (h : e.IsTable m n) :
    e.pivotFreeRows.length + e.pivotRows.length = n := by
  have split := List.length_eq_length_filter_add (l := List.range e.unknowns)
    fun r => decide (e.entry r r = 0)
  rw [List.length_range, h.unknowns] at split
  simpa [pivotFreeRows, pivotRows, h.unknowns] using split.symm

end Tableau

/-- A family is read off the pivots that elimination has left. -/
theorem Solver.solve_infinite (fresh : Fresh m n t s)
    (run : s.solve = .ok (final, .ok (.infinite f))) :
    ∃ e, t.eliminate = .ok e ∧ Eliminated m n t e ∧ f.modulus = m ∧
      f.freeColumns = e.pivotFreeRows ∧ f.relations.length = e.pivotRows.length ∧
      ∀ r < n, e.entry r r = 0 → ∀ c ≤ n, e.entry r c = 0 := by
  obtain ⟨e, eliminated, known⟩ := eliminate_spec fresh.table
  have table := known.table
  obtain ⟨d, outcome, resolved, table', same, result⟩ := resolveFrom_spec fresh.total
    (P := SamePivots n e)
    (fun _ _ _ _ h hi needs _ divided same => Divided.samePivots h hi needs divided same)
    n table (fun _ _ => ⟨Iff.rfl, fun _ _ _ => rfl⟩) (Nat.zero_add n)
    fun i hi => absurd hi (Nat.not_lt_zero i)
  obtain ⟨final', answer, run', rfl, answers⟩ :=
    solve_eq fresh eliminated table.unknowns resolved table' result
  obtain ⟨rfl, rfl⟩ := Prod.mk.inj (Except.ok.inj (run'.symm.trans run))
  rcases answers with ⟨_, _, _, _, absurd⟩ | ⟨_, _, empty, rfl⟩
  · cases absurd
  · have free : final'.tableau.pivotFreeRows = e.pivotFreeRows := by
      rw [pivotFreeRows, pivotFreeRows, table'.unknowns, table.unknowns]
      apply List.filter_congr
      intro r inside
      simp [(same r (List.mem_range.mp inside)).1]
    refine ⟨e, eliminated, known, table'.modulus, free, ?_, fun r hr zero c hc => ?_⟩
    · have pivots := length_pivots table'
      have pivots' := length_pivots table
      rw [free] at pivots
      simp only [family, List.length_map]
      omega
    · rw [table'.unknowns] at empty
      rw [← (same r hr).2 zero c hc]
      exact empty r hr ((same r hr).1.mpr zero) c hc

/-- A reported family is truthful exactly if there is a solution and the rows of the system have as
many left sides as the relations have constants to choose. If elimination has kept the solutions,
the rows that it has left decide this, and if each pivot that it has left has an inverse, as over a
prime modulus, all is well. -/
theorem family_truthful_iff {settings : Settings} (wf : t.WellFormed)
    (built : Solver.ofTableau t settings = .ok (.ok s))
    (run : s.solve = .ok (final, .ok (.infinite f))) :
    (f.Truthful t.Solution ↔ (∃ x, t.Solution x) ∧ ∀ count, f.solutionCount = some count →
      Nat.card (t.leftSides t.modulus t.unknowns (range t.unknowns)).range =
        t.modulus ^ f.relations.length) ∧
    (t.modulus.Prime → f.Truthful t.Solution) ∧
    ∃ e, t.eliminate = .ok e ∧
      ((∀ x, t.Solution x ↔ e.Solution x) → (f.Truthful t.Solution ↔ (∃ x, e.Solution x) ∧
        ∀ count, f.solutionCount = some count → e.PivotsSolvable t.modulus t.unknowns)) ∧
      ((∀ r < t.unknowns, e.entry r r ≠ 0 → (e.entry r r).Coprime t.modulus) →
        f.Truthful t.Solution) := by
  have fresh := Solver.ofTableau_fresh wf built
  obtain ⟨e, eliminated, known, modulus, free, pivots, empty⟩ := Solver.solve_infinite fresh run
  have table := known.table
  have columns : f.freeColumns.length + f.relations.length = t.unknowns := by
    rw [free, pivots, length_pivots table]
  have kept : (∀ x, t.Solution x ↔ e.Solution x) → (f.Truthful t.Solution ↔
      (∃ x, e.Solution x) ∧ ∀ count, f.solutionCount = some count →
        e.PivotsSolvable t.modulus t.unknowns) := by
    intro same
    rw [funext fun x => propext (same x), ← card_leftSides_iff table, ← pivots]
    exact Family.truthful_iff table (spanned_pivots table empty) modulus columns
  have inverses : (∀ r < t.unknowns, e.entry r r ≠ 0 → (e.entry r r).Coprime t.modulus) →
      f.Truthful t.Solution := by
    intro coprime
    obtain ⟨reduced, same⟩ := known.reduced coprime
    have solvable := reduced.toStaircase.pivotsSolvable table coprime
    apply (kept (solution_congr fresh.table table same)).mpr
    exact ⟨solvable.exists_solution table empty, fun _ _ => solvable⟩
  exact ⟨Family.truthful_iff fresh.table (spanned_range _ t) modulus columns,
    fun prime => inverses fun r hr => coprime_of_entry prime table hr, e, eliminated, kept,
    inverses⟩

/-- The pivot has no inverse, but the other coefficient has one. -/
theorem family_truthful_mod_four : (⟨4, 2, [1], [⟨0, 2, [(1, 1)], 3⟩]⟩ : Family).Truthful
    (⟨4, 2, #[2, 1, 3, 0, 0, 0]⟩ : Tableau).Solution := by
  have built : Solver.ofTableau ⟨4, 2, #[2, 1, 3, 0, 0, 0]⟩ .default =
      .ok (.ok ⟨⟨4, 2, #[2, 1, 3, 0, 0, 0]⟩, ⟨4, none⟩, 2 ^ 20, false, .loaded⟩) := by
    decide +kernel
  have run : Solver.solve ⟨⟨4, 2, #[2, 1, 3, 0, 0, 0]⟩, ⟨4, none⟩, 2 ^ 20, false, .loaded⟩ =
      .ok (⟨⟨4, 2, #[2, 1, 3, 0, 0, 0]⟩, ⟨4, none⟩, 2 ^ 20, false, .resolved⟩,
        .ok (.infinite ⟨4, 2, [1], [⟨0, 2, [(1, 1)], 3⟩]⟩)) := by decide +kernel
  obtain ⟨_, _, e, eliminated, kept, _⟩ := family_truthful_iff
    ⟨by decide, by decide, by decide, by decide, by decide⟩ built run
  have unchanged : Tableau.eliminate ⟨4, 2, #[2, 1, 3, 0, 0, 0]⟩ =
      .ok ⟨4, 2, #[2, 1, 3, 0, 0, 0]⟩ := by decide +kernel
  obtain rfl := Except.ok.inj (unchanged.symm.trans eliminated)
  refine (kept fun _ => Iff.rfl).mpr ⟨⟨[1, 1], by decide⟩, fun _ _ b => ?_⟩
  refine ⟨fun c => if c = 1 then b 0 else 0, fun r hr pivot => ?_⟩
  obtain rfl : r = 0 := by
    by_contra other
    obtain rfl : r = 1 := by
      change r < 2 at hr
      omega
    exact pivot rfl
  simp [residue, entry, place, width]

/-- The points modulo four whose two values are both even or both odd. -/
def evenSums : Finset (List Nat) :=
  {[0, 0], [0, 2], [1, 1], [1, 3], [2, 0], [2, 2], [3, 1], [3, 3]}

/-- A family can be reported where there is no solution, and where there are twice as many. -/
theorem family_untruthful_mod_four :
    (∃ s final f, Solver.ofTableau ⟨4, 2, #[2, 2, 1, 0, 0, 0]⟩ .default = .ok (.ok s) ∧
      s.solve = .ok (final, .ok (.infinite f)) ∧ f.solutionCount = some 4 ∧
      ∀ x, ¬ (⟨4, 2, #[2, 2, 1, 0, 0, 0]⟩ : Tableau).Solution x) ∧
    ∃ s final f, Solver.ofTableau ⟨4, 2, #[2, 2, 0, 0, 0, 0]⟩ .default = .ok (.ok s) ∧
      s.solve = .ok (final, .ok (.infinite f)) ∧ f.solutionCount = some 4 ∧
      {x | (⟨4, 2, #[2, 2, 0, 0, 0, 0]⟩ : Tableau).Solution x}.ncard = 8 := by
  refine ⟨⟨⟨⟨4, 2, #[2, 2, 1, 0, 0, 0]⟩, ⟨4, none⟩, 2 ^ 20, false, .loaded⟩,
      ⟨⟨4, 2, #[2, 2, 1, 0, 0, 0]⟩, ⟨4, none⟩, 2 ^ 20, false, .resolved⟩,
      ⟨4, 2, [1], [⟨0, 2, [(1, 2)], 1⟩]⟩, by decide +kernel, by decide +kernel, by decide, ?_⟩,
    ⟨⟨4, 2, #[2, 2, 0, 0, 0, 0]⟩, ⟨4, none⟩, 2 ^ 20, false, .loaded⟩,
      ⟨⟨4, 2, #[2, 2, 0, 0, 0, 0]⟩, ⟨4, none⟩, 2 ^ 20, false, .resolved⟩,
      ⟨4, 2, [1], [⟨0, 2, [(1, 2)], 0⟩]⟩, by decide +kernel, by decide +kernel, by decide, ?_⟩
  · intro x solution
    obtain ⟨a, b, rfl⟩ := List.length_eq_two.mp solution.1
    have none : ∀ a < 4, ∀ b < 4, ¬ (⟨4, 2, #[2, 2, 1, 0, 0, 0]⟩ : Tableau).Solution [a, b] := by
      decide
    exact none a (solution.2.1 a (by simp)) b (solution.2.1 b (by simp)) solution
  · have points : {x | (⟨4, 2, #[2, 2, 0, 0, 0, 0]⟩ : Tableau).Solution x} = evenSums := by
      ext x
      constructor
      · intro solution
        obtain ⟨a, b, rfl⟩ := List.length_eq_two.mp solution.1
        have listed : ∀ a < 4, ∀ b < 4, (⟨4, 2, #[2, 2, 0, 0, 0, 0]⟩ : Tableau).Solution [a, b] →
            [a, b] ∈ evenSums := by decide
        exact listed a (solution.2.1 a (by simp)) b (solution.2.1 b (by simp)) solution
      · intro member
        have solves : ∀ x ∈ evenSums, (⟨4, 2, #[2, 2, 0, 0, 0, 0]⟩ : Tableau).Solution x := by
          decide
        exact solves x member
    rw [points, Set.ncard_coe_finset]
    decide

end LinearCongruences
