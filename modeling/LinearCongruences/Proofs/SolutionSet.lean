import Mathlib
import LinearCongruences.Proofs.Assignment

/-! The solutions of the table that a run ends with. Free values may be chosen at will, and each
choice is extended by the relations in exactly one way. -/
namespace LinearCongruences

open Finset

/-- The ways to choose reduced values for `k` unknowns. -/
def choices (m k : Nat) : Set (List Nat) := {chosen | chosen.length = k ∧ ∀ x ∈ chosen, x < m}

theorem ncard_choices (m k : Nat) : (choices m k).ncard = m ^ k := by
  have listed : choices m k = Set.range fun v : Fin k → Fin m => List.ofFn fun i => (v i : Nat) := by
    ext chosen
    constructor
    · rintro ⟨rfl, reduced⟩
      exact ⟨fun i => ⟨chosen[i], reduced _ (List.getElem_mem i.isLt)⟩, List.ofFn_getElem⟩
    · rintro ⟨v, rfl⟩
      refine ⟨List.length_ofFn, fun x member => ?_⟩
      obtain ⟨i, rfl⟩ := List.mem_ofFn.mp member
      exact (v i).isLt
  have injective : Function.Injective fun v : Fin k → Fin m => List.ofFn fun i => (v i : Nat) := by
    intro v w same
    funext i
    exact Fin.ext (congrFun (List.ofFn_injective same) i)
  rw [listed, ← Set.image_univ, Set.ncard_image_of_injective _ injective, Set.ncard_univ,
    Nat.card_eq_fintype_card, Fintype.card_fun, Fintype.card_fin, Fintype.card_fin]

theorem map_mem_choices {m : Nat} {f : Nat → Nat} (reduced : ∀ c, f c < m) (columns : List Nat) :
    columns.map f ∈ choices m columns.length := by
  refine ⟨List.length_map _, fun x inside => ?_⟩
  obtain ⟨c, _, rfl⟩ := List.mem_map.mp inside
  exact reduced c

theorem replicate_mem_choices {m x : Nat} (reduced : x < m) (k : Nat) :
    List.replicate k x ∈ choices m k := by
  refine ⟨List.length_replicate, fun y inside => ?_⟩
  rwa [List.eq_of_mem_replicate inside]

/-- All values zero and all values one are different choices. -/
theorem exists_two_choices {m k : Nat} (large : 1 < m) (positive : 0 < k) :
    ∃ x ∈ choices m k, ∃ y ∈ choices m k, x ≠ y := by
  refine ⟨_, replicate_mem_choices (Nat.lt_of_succ_lt large) k, _, replicate_mem_choices large k,
    fun same => ?_⟩
  rw [List.replicate_inj] at same
  omega

namespace Family

variable {m n : Nat} {f : Family} {chosen point : List Nat}

theorem solutionCount_eq (short : f.freeColumns.length < exponentBound) :
    f.solutionCount =
      let size := (choices f.modulus f.freeColumns.length).ncard
      if size < doubleBound then some size else none := by
  rw [solutionCount, if_pos short, ncard_choices]
  rfl

/-- The points of all assignments at once, if none of them is refused. -/
theorem exists_assigned (hm : 0 < m) (bound : m < wordBound) (fits : f.Fits m n)
    (coprime : ∀ r ∈ f.relations, r.coefficient.Coprime m) :
    ∃ point : List Nat → List Nat, ∀ chosen, chosen.length = f.freeColumns.length →
      f.assign chosen = .ok (.ok (point chosen)) ∧ f.Assigned m n chosen (.ok (point chosen)) := by
  have assigned : ∀ chosen : List Nat, ∃ point, chosen.length = f.freeColumns.length →
      f.assign chosen = .ok (.ok point) ∧ f.Assigned m n chosen (.ok point) := by
    intro chosen
    by_cases length : chosen.length = f.freeColumns.length
    · obtain ⟨outcome, run, result⟩ := assign_spec hm bound fits length
      cases outcome with
      | ok point => exact ⟨point, fun _ => ⟨run, result⟩⟩
      | error refusal =>
        obtain ⟨r, member, noncoprime, _⟩ := result
        exact absurd (coprime r member) noncoprime
    · exact ⟨[], fun same => absurd same length⟩
  choose point spec using assigned
  exact ⟨point, spec⟩

/-- An assigned point has the chosen values in the free columns. -/
theorem Assigned.free_values (fits : f.Fits m n) (parametric : f.Parametric)
    (member : chosen ∈ choices m f.freeColumns.length)
    (assigned : f.Assigned m n chosen (.ok point)) :
    f.freeColumns.map (fun c => point.getD c 0) = chosen := by
  obtain ⟨length, reduced⟩ := member
  obtain ⟨size, less, _, meaning⟩ := assigned
  apply List.ext_getElem
  · rw [List.length_map, length]
  · intro i hi hi'
    rw [List.length_map] at hi
    have pair := (meaning parametric).1 (f.freeColumns[i], chosen[i])
      (List.mem_iff_getElem.mpr ⟨i, by simp [length, hi], by simp⟩)
    have column := fits.free _ (List.getElem_mem hi)
    rw [List.getElem_map]
    refine Residue.eq_of_cast_eq ?_ (reduced _ (List.getElem_mem hi')) pair
    rw [List.getD_eq_getElem _ _ (size ▸ column)]
    exact less _ (List.getElem_mem _)

theorem free_values_mem (fits : f.Fits m n) (size : point.length = n) (less : ∀ x ∈ point, x < m) :
    f.freeColumns.map (fun c => point.getD c 0) ∈ choices m f.freeColumns.length := by
  refine ⟨List.length_map _, fun y inside => ?_⟩
  obtain ⟨c, member, rfl⟩ := List.mem_map.mp inside
  rw [List.getD_eq_getElem _ _ (size ▸ fits.free c member)]
  exact less _ (List.getElem_mem _)

end Family

namespace Tableau

variable {m n : Nat} {t d : Tableau}

/-- Tables of the same size whose rows hold at the same values have the same solutions. -/
theorem solution_congr (h : t.IsTable m n) (h' : d.IsTable m n)
    (same : ∀ x, d.Holds m x ↔ t.Holds m x) (point : List Nat) :
    t.Solution point ↔ d.Solution point := by
  rw [solution_iff h.shaped h.modulus, solution_iff h'.shaped h'.modulus, h.unknowns, h'.unknowns,
    same]

theorem mem_pivotRows {r : Nat} : r ∈ d.pivotRows ↔ r < d.unknowns ∧ d.entry r r ≠ 0 := by
  simp [pivotRows]

theorem mem_pivotFreeRows {r : Nat} : r ∈ d.pivotFreeRows ↔ r < d.unknowns ∧ d.entry r r = 0 := by
  simp [pivotFreeRows]

theorem mem_relations {q : Relation} :
    q ∈ d.family.relations ↔ ∃ r, r < d.unknowns ∧ d.entry r r ≠ 0 ∧ q = d.relationAt r := by
  simp only [family, List.mem_map, mem_pivotRows, and_assoc, eq_comm (a := q)]

theorem family_columns (d : Tableau) : d.family.relations.map Relation.column = d.pivotRows := by
  simp [family, Function.comp_def, relationAt]

theorem relationAt_fits (h : d.IsTable m n) {r : Nat} (hr : r < n) :
    (d.relationAt r).Fits m n := by
  refine ⟨hr, h.entry_lt hr (Nat.le_of_lt hr), ?_, fun term inside => ?_⟩
  · rw [relationAt, h.unknowns]
    exact h.entry_lt hr (Nat.le_refl n)
  · obtain ⟨hc, _, _, value⟩ := mem_residual.mp inside
    rw [h.unknowns] at hc
    exact ⟨hc, value ▸ h.entry_lt hr (Nat.le_of_lt hc)⟩

theorem family_fits (h : d.IsTable m n) : d.family.Fits m n where
  modulus := h.modulus
  unknowns := h.unknowns
  free := fun c member => h.unknowns ▸ (mem_pivotFreeRows.mp member).1
  relations := by
    intro q member
    obtain ⟨r, hr, _, rfl⟩ := mem_relations.mp member
    exact relationAt_fits h (h.unknowns ▸ hr)

/-- In a staircase no residual names a column that has a pivot. -/
theorem Staircase.residual_free (stairs : d.Staircase d.unknowns) {r : Nat}
    (hr : r < d.unknowns) {term : Nat × Nat} (inside : term ∈ (d.relationAt r).residual) :
    term.1 ∈ d.pivotFreeRows := by
  obtain ⟨hc, other, nonzero, _⟩ := mem_residual.mp inside
  refine mem_pivotFreeRows.mpr ⟨hc, ?_⟩
  by_contra pivot
  exact nonzero (stairs.pivot_column term.1 hc ⟨hc, pivot⟩ r hr (Ne.symm other))

theorem Staircase.parametric (stairs : d.Staircase d.unknowns) : d.family.Parametric where
  distinct := List.nodup_range.filter _
  free := by
    intro q member free
    obtain ⟨r, _, pivot, rfl⟩ := mem_relations.mp member
    exact pivot (mem_pivotFreeRows.mp free).2
  independent := by
    constructor
    · rw [family_columns]
      exact List.nodup_range.filter _
    · intro q member term inside p member' same
      obtain ⟨r, hr, _, rfl⟩ := mem_relations.mp member
      obtain ⟨i, _, pivot, rfl⟩ := mem_relations.mp member'
      have free := (mem_pivotFreeRows.mp (stairs.residual_free hr inside)).2
      rw [← same] at free
      exact pivot free

/-- A row with a pivot names no column before it. -/
theorem Staircase.residual_later (stairs : d.Staircase d.unknowns) {r : Nat} (hr : r < d.unknowns)
    (pivot : d.entry r r ≠ 0) {term : Nat × Nat} (inside : term ∈ (d.relationAt r).residual) :
    r < term.1 := by
  obtain ⟨_, other, nonzero, _⟩ := mem_residual.mp inside
  by_contra before
  exact nonzero (stairs.pivot_left r hr ⟨hr, pivot⟩ term.1 (by omega))

/-- An unknown with a pivot follows from the free ones after it. -/
theorem Staircase.eq_of_later (stairs : d.Staircase d.unknowns) {r : Nat} (hr : r < d.unknowns)
    (pivot : d.entry r r ≠ 0) (coprime : (d.entry r r).Coprime m) {x y : Nat → ZMod m}
    (hx : (d.relationAt r).defect m x = 0) (hy : (d.relationAt r).defect m y = 0)
    (later : ∀ c ∈ d.pivotFreeRows, r < c → x c = y c) : x r = y r := by
  apply Relation.eq_of_defect (r := d.relationAt r) coprime hx hy
  apply Relation.residualAt_congr
  intro term inside
  exact later _ (stairs.residual_free hr inside) (stairs.residual_later hr pivot inside)

/-- The free values determine the others if the coefficients can be divided out. -/
theorem Staircase.eq_of_free (stairs : d.Staircase d.unknowns)
    (coprime : ∀ q ∈ d.family.relations, q.coefficient.Coprime m) {x y : Nat → ZMod m}
    (hx : ∀ q ∈ d.family.relations, q.defect m x = 0)
    (hy : ∀ q ∈ d.family.relations, q.defect m y = 0)
    (free : ∀ c ∈ d.pivotFreeRows, x c = y c) {c : Nat} (hc : c < d.unknowns) : x c = y c := by
  by_cases zero : d.entry c c = 0
  · exact free c (mem_pivotFreeRows.mpr ⟨hc, zero⟩)
  · have member := mem_relations.mpr ⟨c, hc, zero, rfl⟩
    exact stairs.eq_of_later hc zero (coprime _ member) (hx _ member) (hy _ member)
      fun c inside _ => free c inside

/-- Solutions with the same free values are the same. -/
theorem solution_ext (h : d.IsTable m n) (stairs : d.Staircase n)
    (empty : ∀ r < d.unknowns, d.entry r r = 0 → ∀ c ≤ d.unknowns, d.entry r c = 0)
    (coprime : ∀ q ∈ d.family.relations, q.coefficient.Coprime m) {x y : List Nat}
    (hx : d.Solution x) (hy : d.Solution y)
    (free : ∀ c ∈ d.pivotFreeRows, x.getD c 0 = y.getD c 0) : x = y := by
  obtain ⟨sizex, lessx, holdsx⟩ := (solution_iff h.shaped h.modulus x).mp hx
  obtain ⟨sizey, lessy, holdsy⟩ := (solution_iff h.shaped h.modulus y).mp hy
  apply List.ext_getElem (sizex.trans sizey.symm)
  intro c hc hc'
  have same := Staircase.eq_of_free (h.unknowns.symm ▸ stairs) coprime
    ((holds_iff_relations empty _).mp holdsx) ((holds_iff_relations empty _).mp holdsy)
    (fun c inside => congrArg Nat.cast (free c inside)) (sizex ▸ hc)
  rw [classes, classes, List.getD_eq_getElem _ _ hc, List.getD_eq_getElem _ _ hc'] at same
  exact Residue.eq_of_cast_eq (lessx _ (List.getElem_mem hc)) (lessy _ (List.getElem_mem hc')) same

/-- Assigning the free values runs through the solutions, each once. -/
theorem assign_bijOn (h : d.IsTable m n) (stairs : d.Staircase n)
    (empty : ∀ r < d.unknowns, d.entry r r = 0 → ∀ c ≤ d.unknowns, d.entry r c = 0)
    (coprime : ∀ q ∈ d.family.relations, q.coefficient.Coprime m) :
    ∃ point : List Nat → List Nat,
      (∀ chosen, chosen.length = d.family.freeColumns.length →
        d.family.assign chosen = .ok (.ok (point chosen))) ∧
      (∀ chosen ∈ choices m d.family.freeColumns.length,
        d.family.freeColumns.map (fun c => (point chosen).getD c 0) = chosen) ∧
      Set.BijOn point (choices m d.family.freeColumns.length) {x | d.Solution x} := by
  have fits := family_fits h
  have parametric := (h.unknowns.symm ▸ stairs : d.Staircase d.unknowns).parametric
  obtain ⟨point, spec⟩ := Family.exists_assigned h.pos h.bound fits coprime
  have free : ∀ chosen ∈ choices m d.family.freeColumns.length,
      d.family.freeColumns.map (fun c => (point chosen).getD c 0) = chosen :=
    fun chosen member => (spec chosen member.1).2.free_values fits parametric member
  have solves : ∀ chosen ∈ choices m d.family.freeColumns.length, d.Solution (point chosen) := by
    intro chosen member
    obtain ⟨_, size, less, _, meaning⟩ := spec chosen member.1
    refine (solution_iff h.shaped h.modulus _).mpr ⟨size.trans h.unknowns.symm, less, ?_⟩
    exact (holds_iff_relations empty _).mpr (meaning parametric).2
  refine ⟨point, fun chosen length => (spec chosen length).1, free, solves, ?_, ?_⟩
  · intro chosen member chosen' member' same
    rw [← free chosen member, ← free chosen' member', same]
  · intro x solution
    obtain ⟨size, less, _⟩ := (solution_iff h.shaped h.modulus x).mp solution
    -- the assignment of the free values of `x` is a solution with the same free values
    have member := Family.free_values_mem fits (size.trans h.unknowns) less
    refine ⟨_, member, solution_ext h stairs empty coprime (solves _ member) solution ?_⟩
    exact List.map_inj_left.mp (free _ member)

/-- A contradictory row holds nowhere. -/
theorem not_holds_of_contradiction (h : d.IsTable m n) {row : Nat} (hrow : row < n)
    (zero : ∀ c < n, d.entry row c = 0) (constant : d.entry row n ≠ 0) (x : Nat → ZMod m) :
    ¬ d.Holds m x := by
  intro holds
  have defect := holds row (h.unknowns ▸ hrow)
  have left : ∑ c ∈ range n, d.residue m row c * x c = 0 := by
    refine sum_eq_zero fun c inside => ?_
    rw [residue, zero c (mem_range.mp inside), Nat.cast_zero, zero_mul]
  rw [Tableau.defect, h.unknowns, left, zero_sub, neg_eq_zero] at defect
  exact constant ((h.residue_eq_zero hrow (Nat.le_refl n)).mp defect)

/-- Rows that give each unknown outright have one solution. -/
theorem solution_iff_of_identity (h : d.IsTable m n) (one : ∀ r < n, d.entry r r = 1)
    (zero : ∀ r < n, ∀ c < n, c ≠ r → d.entry r c = 0) (point : List Nat) :
    d.Solution point ↔ point = (List.range n).map fun r => d.entry r n := by
  have row : ∀ x : Nat → ZMod m, ∀ r < n, d.defect m x r = x r - d.residue m r n := by
    intro x r hr
    rw [defect, h.unknowns, sum_eq_single_of_mem r (mem_range.mpr hr), residue, one r hr,
      Nat.cast_one, one_mul]
    intro c inside other
    rw [residue, zero r hr c (mem_range.mp inside) other, Nat.cast_zero, zero_mul]
  rw [solution_iff h.shaped h.modulus, h.unknowns]
  constructor
  · rintro ⟨length, less, holds⟩
    apply List.ext_getElem
    · rw [length, List.length_map, List.length_range]
    · intro r hr _
      have hrn : r < n := length ▸ hr
      rw [List.getElem_map, List.getElem_range]
      apply Residue.eq_of_cast_eq (less _ (List.getElem_mem hr)) (h.entry_lt hrn (Nat.le_refl n))
      have defect := holds r (h.unknowns ▸ hrn)
      rw [row _ r hrn, sub_eq_zero, classes, List.getD_eq_getElem _ _ hr] at defect
      exact defect
  · rintro rfl
    refine ⟨by simp, fun x member => ?_, fun r hr => ?_⟩
    · obtain ⟨r, inside, rfl⟩ := List.mem_map.mp member
      exact h.entry_lt (List.mem_range.mp inside) (Nat.le_refl n)
    · rw [h.unknowns] at hr
      rw [row _ r hr, sub_eq_zero, classes, List.getD_eq_getElem _ _ (by simpa using hr),
        List.getElem_map, List.getElem_range]
      rfl

end Tableau

end LinearCongruences
