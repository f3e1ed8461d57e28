import Mathlib
import LinearCongruences.Proofs.SolutionSet

/-! Back-substitution in any order. A relation that names an unknown which is solved for later finds
what the array holds to begin with. If no relation does so, an assigned point satisfies them all. -/
namespace LinearCongruences

open Finset
open Tableau (classes)

/-- No relation names the unknown of a later one. -/
def Family.InOrder (f : Family) : Prop :=
  f.relations.Pairwise fun r q => ∀ term ∈ r.residual, term.1 ≠ q.column

/-- Assigning runs through all solutions and leads to nothing else. -/
structure Family.Covers (solution : List Nat → Prop) (f : Family) : Prop where
  solves : ∀ chosen ∈ choices f.modulus f.freeColumns.length,
    ∃ x, f.assign chosen = .ok (.ok x) ∧ solution x
  onto : ∀ x, solution x →
    ∃ chosen ∈ choices f.modulus f.freeColumns.length, f.assign chosen = .ok (.ok x)

/-- What a family covers is determined by its assignments. -/
theorem Family.Covers.imp {solution solution' : List Nat → Prop} {f : Family}
    (covers : f.Covers solution) (covers' : f.Covers solution') {x : List Nat}
    (first : solution x) : solution' x := by
  obtain ⟨chosen, member, run⟩ := covers.onto x first
  obtain ⟨x', run', second⟩ := covers'.solves chosen member
  cases Except.ok.inj (Except.ok.inj (run.symm.trans run'))
  exact second

variable {m n : Nat} {values values' : Array Nat} {relations : List Relation}

/-- What each relation is solved with: the unknowns of later relations as they are at the start, and
the others as they are in the end. -/
theorem Family.solveAll_reads (hm : 0 < m) (bound : m < wordBound)
    (fits : ∀ r ∈ relations, r.Fits m n) (point : IsPoint m n values)
    (ascending : (relations.map Relation.column).Pairwise (· < ·))
    (run : solveAll m relations values = .ok (.ok values')) :
    ∀ r ∈ relations, (r.coefficient : ZMod m) * classes m values'.toList r.column =
      r.constant - r.residualAt m fun c =>
        if c ∈ relations.map Relation.column ∧ r.column ≤ c then classes m values.toList c
        else classes m values'.toList c := by
  induction relations generalizing values with
  | nil => simp
  | cons q rest ih =>
    obtain ⟨first, others⟩ := List.forall_mem_cons.mp fits
    obtain ⟨before, ascending'⟩ := List.pairwise_cons.mp ascending
    obtain ⟨outcome, solved, meaning⟩ := solveFor_spec hm bound point first
    rw [solveAll, solved, Checked.ok_bind] at run
    cases outcome with
    | error refusal => cases run
    | ok v =>
      obtain ⟨less, coprime, solution⟩ := meaning
      obtain ⟨values₁, set, point₁, updated⟩ := point.set_spec first.column less
      simp only [set, Checked.ok_bind] at run
      obtain ⟨outcome, run', result⟩ := solveAll_spec hm bound others point₁
      obtain rfl := Except.ok.inj (run'.symm.trans run)
      obtain ⟨_, _, kept, _⟩ := result
      rw [updated] at kept
      have absent : ∀ c, c ∉ rest.map Relation.column →
          classes m values'.toList c = Function.update (classes m values.toList) q.column v c := by
        intro c missing
        apply kept
        intro r member same
        exact missing (List.mem_map.mpr ⟨r, member, same⟩)
      rw [List.forall_mem_cons]
      constructor
      · have own : classes m values'.toList q.column = v := by
          rw [absent _ fun member => Nat.lt_irrefl _ (before _ member), Function.update_self]
        rw [own, solution]
        congr 1
        apply Relation.residualAt_congr
        intro term _
        split
        · rfl
        · rename_i settled
          have other : term.1 ≠ q.column := by
            intro same
            exact settled ⟨by simp [same], Nat.le_of_eq same.symm⟩
          rw [absent, Function.update_of_ne other]
          intro member
          exact settled ⟨List.mem_cons_of_mem _ member, Nat.le_of_lt (before _ member)⟩
      · intro r member
        rw [ih others point₁ ascending' run r member]
        have later := before _ (List.mem_map_of_mem member)
        congr 1
        apply Relation.residualAt_congr
        intro term _
        have same : term.1 ∈ (q :: rest).map Relation.column ∧ r.column ≤ term.1 ↔
            term.1 ∈ rest.map Relation.column ∧ r.column ≤ term.1 := by
          apply and_congr_left
          intro after
          have other : term.1 ≠ q.column := by omega
          simp [other]
        simp only [same]
        split
        · rename_i named
          rw [updated, Function.update_of_ne]
          omega
        · rfl

namespace Tableau

variable {d : Tableau} {r : Nat}

/-- What the relation of row `r` finds for an unknown. -/
def found (m : Nat) (d : Tableau) (r : Nat) (x : Nat → ZMod m) (c : Nat) : ZMod m :=
  if d.entry c c ≠ 0 ∧ r ≤ c then 0 else x c

/-- The values `x` are those that the relations of the table give in turn. -/
def Follows (m n : Nat) (d : Tableau) (x : Nat → ZMod m) : Prop :=
  ∀ r < n, d.entry r r ≠ 0 →
    d.residue m r r * x r = d.residue m r n - (d.relationAt r).residualAt m (d.found m r x)

theorem assign_follows (h : d.IsTable m n)
    (coprime : ∀ q ∈ d.family.relations, q.coefficient.Coprime m) {chosen : List Nat}
    (length : chosen.length = d.family.freeColumns.length) :
    ∃ point, d.family.assign chosen = .ok (.ok point) ∧ point.length = n ∧ (∀ x ∈ point, x < m) ∧
      (∀ p ∈ d.family.freeColumns.zip chosen, classes m point p.1 = p.2) ∧
      Follows m n d (classes m point) := by
  have fits := family_fits h
  obtain ⟨values, point, placed, zeros, assigned⟩ := Family.assign_eq h.pos fits length
  obtain ⟨outcome, run, result⟩ := Family.solveAll_spec h.pos h.bound fits.relations point
  cases outcome with
  | error refusal =>
    obtain ⟨q, member, noncoprime, _⟩ := result
    exact absurd (coprime q member) noncoprime
  | ok values' =>
    obtain ⟨point', _, kept, _⟩ := result
    have reads := Family.solveAll_reads h.pos h.bound fits.relations point
      (by rw [family_columns]; exact List.pairwise_lt_range.filter _) run
    have unset : ∀ r ∈ d.pivotRows, r ∉ d.family.freeColumns := by
      intro r pivot free
      exact (mem_pivotRows.mp pivot).2 (mem_pivotFreeRows.mp free).2
    refine ⟨values'.toList, ?_, Array.length_toList.trans point'.size, ?_, ?_, ?_⟩
    · rw [assigned, run]
      rfl
    · exact fun x member => point'.lt x (Array.mem_toList_iff.mp member)
    · intro p member
      rw [← placed (List.nodup_range.filter _) p member]
      apply kept
      intro q inside same
      have column : q.column ∈ d.pivotRows := by
        rw [← family_columns]
        exact List.mem_map_of_mem inside
      exact unset _ column (same ▸ (List.of_mem_zip member).1)
    · intro r hr pivot
      rw [← h.unknowns] at hr
      have row := reads _ (mem_relations.mpr ⟨r, hr, pivot, rfl⟩)
      rw [family_columns] at row
      refine row.trans ?_
      rw [← h.unknowns]
      congr 1
      apply Relation.residualAt_congr
      intro term inside
      have column := (mem_residual.mp inside).1
      have same : term.1 ∈ d.pivotRows ∧ (d.relationAt r).column ≤ term.1 ↔
          d.entry term.1 term.1 ≠ 0 ∧ r ≤ term.1 := by
        rw [mem_pivotRows]
        simp [column, relationAt]
      simp only [same, found]
      split
      · rename_i named
        exact zeros _ (unset _ (mem_pivotRows.mpr ⟨column, named.1⟩))
      · rfl

/-! Relations in order. -/

theorem inOrder_iff (h : d.IsTable m n) : d.family.InOrder ↔
    ∀ r < n, ∀ c < n, r < c → d.entry r r ≠ 0 → d.entry c c ≠ 0 → d.entry r c = 0 := by
  have pairs : d.family.InOrder ↔ (List.range n).Pairwise fun r c =>
      d.entry r r ≠ 0 → d.entry c c ≠ 0 → ∀ term ∈ (d.relationAt r).residual, term.1 ≠ c := by
    simp only [Family.InOrder, family, pivotRows, List.pairwise_map, List.pairwise_filter,
      h.unknowns, decide_eq_true_eq]
    rfl
  rw [pairs, List.pairwise_iff_getElem]
  constructor
  · intro inOrder r hr c hc before pivot pivot'
    by_contra named
    have later := inOrder r c (by simpa using hr) (by simpa using hc) before
    simp only [List.getElem_range] at later
    refine later pivot pivot' (c, d.entry r c) (mem_residual.mpr ⟨?_, ?_, named, rfl⟩) rfl
    · exact h.unknowns.symm ▸ hc
    · exact Nat.ne_of_gt before
  · intro zero r c hr hc before pivot pivot' term inside same
    simp only [List.getElem_range, List.length_range] at hr hc pivot pivot' inside same
    obtain ⟨_, _, nonzero, _⟩ := mem_residual.mp inside
    rw [same] at nonzero
    exact nonzero (zero r hr c hc before pivot pivot')

theorem Follows.defect_eq_zero (h : d.IsTable m n) {x : Nat → ZMod m} (follows : Follows m n d x)
    (inOrder : d.family.InOrder) (hr : r < n) (pivot : d.entry r r ≠ 0) :
    (d.relationAt r).defect m x = 0 := by
  have residual : (d.relationAt r).residualAt m (d.found m r x) =
      (d.relationAt r).residualAt m x := by
    apply Relation.residualAt_congr
    intro term inside
    obtain ⟨hc, other, nonzero, _⟩ := mem_residual.mp inside
    rw [h.unknowns] at hc
    apply if_neg
    rintro ⟨pivot', after⟩
    exact nonzero ((inOrder_iff h).mp inOrder r hr _ hc (by omega) pivot pivot')
  have row := follows r hr pivot
  rw [residual] at row
  have unfolded : (d.relationAt r).defect m x =
      d.residue m r r * x r + (d.relationAt r).residualAt m x - d.residue m r n := by
    rw [← h.unknowns]
    rfl
  rw [unfolded, row]
  ring

/-- Values that satisfy relations in order are determined by the free ones. -/
theorem eq_of_inOrder (h : d.IsTable m n)
    (coprime : ∀ q ∈ d.family.relations, q.coefficient.Coprime m) (inOrder : d.family.InOrder)
    {x y : Nat → ZMod m} (hx : ∀ q ∈ d.family.relations, q.defect m x = 0)
    (hy : ∀ q ∈ d.family.relations, q.defect m y = 0) (free : ∀ c ∈ d.pivotFreeRows, x c = y c)
    (c : Nat) (hc : c < n) : x c = y c := by
  induction c using Nat.strong_induction_on with
  | h c ih =>
    have hc' : c < d.unknowns := h.unknowns.symm ▸ hc
    by_cases zero : d.entry c c = 0
    · exact free c (mem_pivotFreeRows.mpr ⟨hc', zero⟩)
    · have member := mem_relations.mpr ⟨c, hc', zero, rfl⟩
      apply Relation.eq_of_defect (r := d.relationAt c) (coprime _ member) (hx _ member)
        (hy _ member)
      apply Relation.residualAt_congr
      intro term inside
      obtain ⟨hj, other, nonzero, _⟩ := mem_residual.mp inside
      by_cases free' : d.entry term.1 term.1 = 0
      · exact free _ (mem_pivotFreeRows.mpr ⟨hj, free'⟩)
      · rw [h.unknowns] at hj
        apply ih _ _ hj
        by_contra after
        exact nonzero ((inOrder_iff h).mp inOrder c hc _ hj (by omega) zero free')

theorem covers_of_inOrder (h : d.IsTable m n)
    (empty : ∀ r < d.unknowns, d.entry r r = 0 → ∀ c ≤ d.unknowns, d.entry r c = 0)
    (coprime : ∀ q ∈ d.family.relations, q.coefficient.Coprime m) (inOrder : d.family.InOrder) :
    d.family.Covers d.Solution := by
  have fits := family_fits h
  have assigned : ∀ chosen ∈ choices d.family.modulus d.family.freeColumns.length,
      ∃ x, d.family.assign chosen = .ok (.ok x) ∧ d.Solution x ∧
        ∀ p ∈ d.family.freeColumns.zip chosen, classes m x p.1 = p.2 := by
    rintro chosen ⟨length, _⟩
    obtain ⟨x, run, size, less, placed, follows⟩ := assign_follows h coprime length
    refine ⟨x, run, (solution_iff h.shaped h.modulus x).mpr ⟨size.trans h.unknowns.symm, less, ?_⟩,
      placed⟩
    rw [holds_iff_relations empty]
    intro q member
    obtain ⟨r, hr, pivot, rfl⟩ := mem_relations.mp member
    exact follows.defect_eq_zero h inOrder (h.unknowns ▸ hr) pivot
  constructor
  · intro chosen member
    obtain ⟨x, run, solution, _⟩ := assigned chosen member
    exact ⟨x, run, solution⟩
  · intro x solution
    obtain ⟨size, less, holds⟩ := (solution_iff h.shaped h.modulus x).mp solution
    have member := Family.free_values_mem fits (size.trans h.unknowns) less
    rw [← fits.modulus] at member
    obtain ⟨y, run, solution', placed⟩ := assigned _ member
    obtain ⟨size', less', holds'⟩ := (solution_iff h.shaped h.modulus y).mp solution'
    have same : y = x := by
      apply List.ext_getElem (size'.trans size.symm)
      intro c hc hc'
      apply Residue.eq_of_cast_eq (less' _ (List.getElem_mem hc)) (less _ (List.getElem_mem hc'))
      have agree := eq_of_inOrder h coprime inOrder ((holds_iff_relations empty _).mp holds')
        ((holds_iff_relations empty _).mp holds) (fun j free => ?_) c (h.unknowns ▸ size ▸ hc')
      · simpa [classes, hc, hc'] using agree
      · apply placed (j, x.getD j 0)
        rw [← List.map_prod_left_eq_zip]
        exact List.mem_map_of_mem free
    exact ⟨_, member, same ▸ run⟩

/-! Two assignments that differ in one free value `j`. -/

/-- Equal sums whose terms are equal except for one are equal there as well. -/
theorem eq_at_of_sum_eq {M : Type} [AddCommGroup M] {k : Nat} {f g : Nat → M} {j : Nat} (hj : j < k)
    (others : ∀ c < k, c ≠ j → f c = g c) (sums : ∑ c ∈ range k, f c = ∑ c ∈ range k, g c) :
    f j = g j := by
  have member := mem_range.mpr hj
  have rest : ∑ c ∈ (range k).erase j, f c = ∑ c ∈ (range k).erase j, g c := by
    apply sum_congr rfl
    intro c inside
    obtain ⟨other, inside⟩ := mem_erase.mp inside
    exact others c (mem_range.mp inside) other
  rw [← add_sum_erase _ f member, ← add_sum_erase _ g member, rest] at sums
  exact add_right_cancel sums

variable {x y : Nat → ZMod m} {j : Nat}

theorem found_congr {c : Nat} (free : d.entry c c = 0 → x c = y c)
    (earlier : d.entry c c ≠ 0 → c < r → x c = y c) : d.found m r x c = d.found m r y c := by
  unfold found
  split
  · rfl
  · rename_i unset
    by_cases zero : d.entry c c = 0
    · exact free zero
    · apply earlier zero
      by_contra after
      exact unset ⟨zero, by omega⟩

/-- Up to the first row that names `j` nothing changes. -/
theorem Follows.eq_before (h : d.IsTable m n) (hx : Follows m n d x) (hy : Follows m n d y)
    (units : ∀ r < n, d.entry r r ≠ 0 → IsUnit (d.residue m r r))
    (free : ∀ c < n, d.entry c c = 0 → c ≠ j → x c = y c) {k : Nat} (hk : k ≤ n)
    (unnamed : ∀ r < k, d.entry r r ≠ 0 → d.entry r j = 0) (r : Nat) (hr : r < k)
    (pivot : d.entry r r ≠ 0) : x r = y r := by
  induction r using Nat.strong_induction_on with
  | h r ih =>
    have residual : (d.relationAt r).residualAt m (d.found m r x) =
        (d.relationAt r).residualAt m (d.found m r y) := by
      apply Relation.residualAt_congr
      intro term inside
      obtain ⟨hc, other, nonzero, _⟩ := mem_residual.mp inside
      rw [h.unknowns] at hc
      apply found_congr
      · intro zero
        apply free _ hc zero
        intro same
        exact nonzero (same ▸ unnamed r hr pivot)
      · intro pivot' before
        exact ih _ before (by omega) pivot'
    apply (units r (by omega) pivot).mul_left_cancel
    rw [hx r (by omega) pivot, hy r (by omega) pivot, residual]

/-- The first row that names `j` passes the difference on. -/
theorem Follows.differ (h : d.IsTable m n) (hx : Follows m n d x) (hy : Follows m n d y)
    (units : ∀ r < n, d.entry r r ≠ 0 → IsUnit (d.residue m r r))
    (free : ∀ c < n, d.entry c c = 0 → c ≠ j → x c = y c) {k : Nat} (hk : k < n)
    (unnamed : ∀ r < k, d.entry r r ≠ 0 → d.entry r j = 0) (pivot : d.entry k k ≠ 0) (hj : j < n)
    (zero : d.entry j j = 0) (named : IsUnit (d.residue m k j)) (differ : x j ≠ y j) :
    x k ≠ y k := by
  intro same
  have other : j ≠ k := by
    rintro rfl
    exact pivot zero
  have rows : (d.relationAt k).residualAt m (d.found m k x) =
      (d.relationAt k).residualAt m (d.found m k y) := by
    have first := hx k hk pivot
    rw [same, hy k hk pivot] at first
    exact (sub_right_injective first).symm
  rw [relationAt_residualAt, relationAt_residualAt, h.unknowns] at rows
  have term := eq_at_of_sum_eq hj (fun c hc different => ?_) rows
  · have free' : ∀ z : Nat → ZMod m, d.found m k z j = z j := fun z =>
      if_neg fun unset => unset.1 zero
    rw [if_pos other, if_pos other, free', free'] at term
    exact differ (named.mul_left_cancel term)
  · by_cases own : c = k
    · rw [if_neg (not_not.mpr own), if_neg (not_not.mpr own)]
    · rw [if_pos own, if_pos own, found_congr (fun zero => free c hc zero different)]
      intro pivot' before
      exact hx.eq_before h hy units free (Nat.le_of_lt hk) unnamed c before pivot'

end Tableau

end LinearCongruences
