import Mathlib
import LinearCongruences.Proofs.BackSubstitution
import LinearCongruences.Proofs.Rearrangement

/-! What is read off a table whose rows have been moved. A contradiction is always right. A single
solution is right if it satisfies the table, and a family if no row has been spoilt and no relation
names the unknown of a later one. -/
namespace LinearCongruences

open Tableau

variable {m n : Nat} {e d : Tableau} {σ : Equiv.Perm Nat} {r c : Nat}

namespace Tableau.Rearranged

variable (h : Rearranged m n e d σ) (prime : m.Prime)

include h prime

theorem table_coprime : ∀ q ∈ d.family.relations, q.coefficient.Coprime m := by
  intro q member
  obtain ⟨r, hr, nonzero, rfl⟩ := mem_relations.mp member
  exact coprime_of_entry prime h.table (h.table.unknowns ▸ hr) nonzero

/-- The row that stands at a diagonal has its pivot there or before. -/
theorem pivot_le (hr : r < n) (pivot : d.entry r r ≠ 0) : σ r ≤ r := by
  have named := mt (h.entry_eq_zero_iff prime hr hr).mpr pivot
  have source := h.source_pivot hr hr named
  by_contra before
  exact named (h.reduced.pivot_left (σ r) (h.source.unknowns ▸ h.lt hr) ⟨h.lt hr, source⟩ r
    (by omega))

/-- No other row names the pivot column of a row. -/
theorem eq_of_named (hr : r < n) (hc : c < n) (source : e.entry (σ c) (σ c) ≠ 0)
    (named : d.entry r (σ c) ≠ 0) : r = c := by
  have named' := mt (h.entry_eq_zero_iff prime hr (h.lt hc)).mpr named
  by_contra other
  exact named' (h.reduced.pivot_column (σ c) (h.source.unknowns ▸ h.lt hc) ⟨h.lt hc, source⟩ (σ r)
    (h.source.unknowns ▸ h.lt hr) (fun same => other (σ.injective same)))

/-- If all assignments are solutions, there are two that differ in a given free value alone. -/
theorem exists_two {j : Nat}
    (solves : ∀ chosen ∈ choices d.family.modulus d.family.freeColumns.length,
      ∃ x, d.family.assign chosen = .ok (.ok x) ∧ e.Solution x) (free : j ∈ d.pivotFreeRows) :
    ∃ x y : List Nat, e.Solution x ∧ e.Solution y ∧ Follows m n d (classes m x) ∧
      Follows m n d (classes m y) ∧
      (∀ c ∈ d.pivotFreeRows, c ≠ j → classes m x c = classes m y c) ∧
      classes m x j ≠ classes m y j := by
  have := Fact.mk prime
  have large := prime.one_lt
  have modulus : m = d.family.modulus := h.table.modulus.symm
  have point : ∀ f : Nat → Nat, (∀ i, f i < m) → ∃ x : List Nat, e.Solution x ∧
      Follows m n d (classes m x) ∧ ∀ c ∈ d.pivotFreeRows, classes m x c = f c := by
    intro f reduced
    have member := modulus ▸ map_mem_choices reduced d.family.freeColumns
    obtain ⟨x, run, _, _, placed, follows⟩ :=
      assign_follows h.table (h.table_coprime prime) member.1
    obtain ⟨x', run', solution⟩ := solves _ member
    obtain rfl := Except.ok.inj (Except.ok.inj (run.symm.trans run'))
    refine ⟨x, solution, follows, fun c inside => ?_⟩
    apply placed (c, f c)
    rw [← List.map_prod_left_eq_zip]
    exact List.mem_map_of_mem inside
  obtain ⟨x, solution, follows, zeros⟩ := point (fun _ => 0) fun _ => prime.pos
  obtain ⟨y, solution', follows', ones⟩ := point (fun i => if i = j then 1 else 0) fun i => by
    split <;> omega
  refine ⟨x, y, solution, solution', follows, follows', fun c inside other => ?_, ?_⟩
  · rw [zeros c inside, ones c inside, if_neg other]
  · rw [zeros j free, ones j free, if_pos rfl]
    simp

/-- A relation cannot name a later unknown, as far as it names none that is later still. The row of
that unknown has its pivot in a column that is free here, so that the unknown changes with the value
chosen there, and nothing else in the relation does. -/
theorem not_named
    (solves : ∀ chosen ∈ choices d.family.modulus d.family.freeColumns.length,
      ∃ x, d.family.assign chosen = .ok (.ok x) ∧ e.Solution x)
    (hr : r < n) (hc : c < n) (before : r < c) (pivot : d.entry r r ≠ 0) (pivot' : d.entry c c ≠ 0)
    (later : ∀ k < n, c < k → d.entry k k ≠ 0 → d.entry r k = 0) : d.entry r c = 0 := by
  by_contra named
  have hn := h.source.unknowns
  have hn' := h.table.unknowns
  have units : ∀ i < n, d.entry i i ≠ 0 → IsUnit (d.residue m i i) := fun i hi =>
    isUnit_residue prime h.table hi (Nat.le_of_lt hi)
  have source := h.source_pivot hc hc (mt (h.entry_eq_zero_iff prime hc hc).mpr pivot')
  have named' := mt (h.entry_eq_zero_iff prime hr hc).mpr named
  have hj : σ c < n := h.lt hc
  -- column `c` is free in the source, so the row that stands there has its pivot elsewhere
  have moved : σ c ≠ c := by
    intro fixed
    rw [fixed] at source
    have start := h.pivot_le prime hr pivot
    exact named' (h.reduced.pivot_column c (hn.symm ▸ hc) ⟨hc, source⟩ _ (hn.symm ▸ h.lt hr)
      (by omega))
  have alone : ∀ i < n, d.entry i (σ c) ≠ 0 → i = c := fun i hi =>
    h.eq_of_named prime hi hc source
  have zero : d.entry (σ c) (σ c) = 0 := by
    by_contra nonzero
    exact moved (alone _ hj nonzero)
  have passes := mt (h.entry_eq_zero_iff prime hc hj).mp source
  obtain ⟨x, y, hx, hy, follows, follows', same, differ⟩ :=
    h.exists_two prime solves (mem_pivotFreeRows.mpr ⟨hn'.symm ▸ hj, zero⟩)
  have free : ∀ i < n, d.entry i i = 0 → i ≠ σ c → classes m x i = classes m y i :=
    fun i hi empty => same i (mem_pivotFreeRows.mpr ⟨hn'.symm ▸ hi, empty⟩)
  have unnamed : ∀ i < c, d.entry i i ≠ 0 → d.entry i (σ c) = 0 := by
    intro i hi _
    by_contra nonzero
    exact absurd (alone i (by omega) nonzero) (by omega)
  have changed := follows.differ h.table follows' units free hc unnamed pivot' hj zero
    (isUnit_residue prime h.table hc (Nat.le_of_lt hj) passes) differ
  -- both points satisfy the source of the row, in which nothing but the unknown `c` has changed
  have row : ∀ z, e.Solution z →
      ∑ i ∈ Finset.range n, e.residue m (σ r) i * classes m z i = e.residue m (σ r) n := by
    intro z solution
    have holds := ((solution_iff h.source.shaped h.source.modulus z).mp solution).2.2
    have defect := holds (σ r) (hn.symm ▸ h.lt hr)
    rw [Tableau.defect, hn] at defect
    exact sub_eq_zero.mp defect
  have term := eq_at_of_sum_eq hc (fun i hi other => ?_) ((row x hx).trans (row y hy).symm)
  · have unit := isUnit_residue prime h.source (h.lt hr) (Nat.le_of_lt hc) named'
    exact changed (unit.mul_left_cancel term)
  · by_cases absent : e.entry (σ r) i = 0
    · simp [residue, absent]
    · have present := mt (h.entry_eq_zero_iff prime hr hi).mp absent
      congr 1
      by_cases empty : d.entry i i = 0
      · apply free i hi empty
        rintro rfl
        exact absurd (alone r hr present) (by omega)
      · apply follows.eq_before h.table follows' units free (Nat.le_of_lt hc) unnamed i ?_ empty
        by_contra after
        exact present (later i hi (by omega) empty)

theorem inOrder_of_solves
    (solves : ∀ chosen ∈ choices d.family.modulus d.family.freeColumns.length,
      ∃ x, d.family.assign chosen = .ok (.ok x) ∧ e.Solution x) : d.family.InOrder := by
  rw [inOrder_iff h.table]
  intro r hr c hc before pivot pivot'
  -- by induction on how many columns are left after `c`
  induction left : n - c using Nat.strong_induction_on generalizing c with
  | h k ih =>
    apply h.not_named prime solves hr hc before pivot pivot'
    intro i hi after pivot''
    exact ih (n - i) (by omega) i hi (by omega) pivot'' rfl

/-- A family is right exactly if no row has been spoilt and the relations are in order. -/
theorem covers_iff
    (empty : ∀ r < d.unknowns, d.entry r r = 0 → ∀ c ≤ d.unknowns, d.entry r c = 0) :
    d.family.Covers e.Solution ↔ Intact m n e d σ ∧ d.family.InOrder := by
  constructor
  · intro covers
    have inOrder := h.inOrder_of_solves prime covers.solves
    have covers' := covers_of_inOrder h.table empty (h.table_coprime prime) inOrder
    have same : ∀ x, d.Solution x ↔ e.Solution x :=
      fun _ => ⟨covers'.imp covers, covers.imp covers'⟩
    refine ⟨((h.solution_iff_iff prime).mp same).resolve_right fun none => ?_, inOrder⟩
    have positive : 0 < d.family.modulus := (family_fits h.table).modulus ▸ prime.pos
    obtain ⟨x, _, solution⟩ := covers.solves _ (replicate_mem_choices positive _)
    exact none x solution
  · rintro ⟨intact, inOrder⟩
    have covers := covers_of_inOrder h.table empty (h.table_coprime prime) inOrder
    have same := (h.solution_iff_iff prime).mpr (Or.inl intact)
    rwa [funext fun x => propext (same x)] at covers

/-- If all diagonals are in use, the rows are back where they came from, and no other coefficient is
left. -/
theorem identity_of_full (full : ∀ r < n, d.entry r r ≠ 0) :
    (∀ r < n, σ r = r) ∧ ∀ r < n, ∀ c < n, c ≠ r → d.entry r c = 0 := by
  have fixed : ∀ r < n, σ r = r := by
    intro r hr
    induction r using Nat.strong_induction_on with
    | h r ih =>
      rcases Nat.lt_or_eq_of_le (h.pivot_le prime hr (full r hr)) with before | same
      · exact σ.injective (ih _ before (Nat.lt_trans before hr))
      · exact same
  refine ⟨fixed, fun r hr c hc other => ?_⟩
  by_contra named
  have pivot : e.entry c c ≠ 0 := by
    have := mt (h.entry_eq_zero_iff prime hc hc).mpr (full c hc)
    rwa [fixed c hc] at this
  rw [← fixed c hc] at named pivot
  exact other (h.eq_of_named prime hr hc pivot named).symm

/-- Such a table has kept the solutions, and each of its rows is solved for its own unknown. -/
theorem staircase_of_full (full : ∀ r < n, d.entry r r ≠ 0) :
    Intact m n e d σ ∧ d.Staircase n := by
  have := Fact.mk prime
  have hn := h.table.unknowns
  obtain ⟨fixed, zero⟩ := h.identity_of_full prime full
  constructor
  · intro r hr
    apply (h.row r hr).resolve_right
    rintro ⟨k, hk, w, other, inverse, _⟩
    have absent := (h.entry_eq_zero_iff prime hr hk).mp (zero r hr k hk (fixed r hr ▸ other))
    simp [residue, absent] at inverse
  · constructor
    · intro r hr _ c before
      exact zero r (hn ▸ hr) c (by omega) (by omega)
    · intro r hr _ i hi other
      exact zero i (hn ▸ hi) r (hn ▸ hr) (Ne.symm other)
    · intro r hr after
      omega

/-- A single solution is right exactly if it satisfies the table that it is read off. -/
theorem unique_iff {values : List Nat} (reads : d.ReadsAs (.ok (.unique values))) :
    (∀ x, e.Solution x ↔ x = values) ↔ d.satisfiedBy values = .ok true := by
  have hn := h.table.unknowns
  obtain ⟨full, rfl⟩ := reads
  rw [hn] at full ⊢
  obtain ⟨intact, stairs⟩ := h.staircase_of_full prime full
  have same := (h.solution_iff_iff prime).mpr (Or.inl intact)
  rw [satisfiedBy_iff h.table]
  · constructor
    · intro only
      exact (same _).mpr ((only _).mpr rfl)
    · intro solution x
      rw [← same]
      constructor
      · intro solution'
        apply solution_ext h.table stairs _ (h.table_coprime prime) solution' solution
        · intro c free
          have unset := mem_pivotFreeRows.mp free
          exact absurd unset.2 (full c (hn ▸ unset.1))
        · intro r hr unset
          exact absurd unset (full r (hn ▸ hr))
      · rintro rfl
        exact solution
  · intro x member
    obtain ⟨r, inside, rfl⟩ := List.mem_map.mp member
    exact h.table.entry_lt (List.mem_range.mp inside) (Nat.le_refl n)

end Tableau.Rearranged

/-- The verdict is right about a system: it tells that there is no solution, or gives the only one,
or all. -/
def Verdict.Right (solution : List Nat → Prop) : Verdict → Prop
  | .inconsistent _ _ => ∀ x, ¬ solution x
  | .unique values => ∀ x, solution x ↔ x = values
  | .infinite f => f.Covers solution

/-- What there is to check about a verdict that has been read off a table. -/
def Verdict.Checks (d : Tableau) (intact : Prop) : Verdict → Prop
  | .inconsistent _ _ => True
  | .unique values => d.satisfiedBy values = .ok true
  | .infinite f => intact ∧ f.InOrder

theorem Tableau.Rearranged.right_iff (h : Rearranged m n e d σ) (prime : m.Prime)
    {verdict : Verdict} (reads : d.ReadsAs (.ok verdict)) :
    verdict.Right e.Solution ↔ verdict.Checks d (Intact m n e d σ) := by
  cases verdict with
  | inconsistent row constant =>
    obtain ⟨hrow, zero, rfl, nonzero⟩ := reads
    rw [h.table.unknowns] at hrow zero nonzero
    exact iff_of_true (h.no_solution_of_contradiction prime hrow zero nonzero) trivial
  | unique values => exact h.unique_iff prime reads
  | infinite f =>
    obtain ⟨_, empty, rfl⟩ := reads
    exact h.covers_iff prime empty

end LinearCongruences
