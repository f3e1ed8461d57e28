import Mathlib
import LinearCongruences.Proofs.Resolution

/-! What a verdict says about the table it is read off, and which table that is when a solver has
gone through all its steps. -/
namespace LinearCongruences

namespace Tableau

/-- The reading of a row by its entries. -/
def reading (t : Tableau) (r : Nat) : RowReading :=
  .read r ((List.range t.unknowns).map (t.entry r)) (t.entry r t.unknowns)

/-- The relation that a row with a pivot gives. -/
def relationAt (t : Tableau) (r : Nat) : Relation :=
  ⟨r, t.entry r r, RowReading.residual r ((List.range t.unknowns).map (t.entry r)),
    t.entry r t.unknowns⟩

def pivotRows (t : Tableau) : List Nat :=
  (List.range t.unknowns).filter fun r => t.entry r r ≠ 0

def pivotFreeRows (t : Tableau) : List Nat :=
  (List.range t.unknowns).filter fun r => t.entry r r = 0

/-- The family that a table without contradiction describes. -/
def family (t : Tableau) : Family :=
  ⟨t.modulus, t.unknowns, t.pivotFreeRows, t.pivotRows.map t.relationAt⟩

/-- What each answer says about the table. -/
def ReadsAs (t : Tableau) : Except Refusal Verdict → Prop
  | .ok (.inconsistent row constant) => row < t.unknowns ∧
      (∀ c < t.unknowns, t.entry row c = 0) ∧ constant = t.entry row t.unknowns ∧ constant ≠ 0
  | .ok (.unique values) => (∀ r < t.unknowns, t.entry r r ≠ 0) ∧
      values = (List.range t.unknowns).map fun r => t.entry r t.unknowns
  | .ok (.infinite family) => (∃ r < t.unknowns, t.entry r r = 0) ∧
      (∀ r < t.unknowns, t.entry r r = 0 → ∀ c ≤ t.unknowns, t.entry r c = 0) ∧
      family = t.family
  | .error refusal => (∀ r < t.unknowns, (∀ c < t.unknowns, t.entry r c = 0) →
      t.entry r t.unknowns = 0) ∧ ∃ row < t.unknowns, t.entry row row = 0 ∧
      (∃ c < t.unknowns, t.entry row c ≠ 0) ∧ refusal = .degeneratePivot row

variable {m n : Nat} {t : Tableau} {r : Nat}

theorem reading_of_pivot (hr : r < t.unknowns) (pivot : t.entry r r ≠ 0) :
    t.reading r = .pivot (t.relationAt r) := by
  simp [reading, RowReading.read, relationAt, List.getD_eq_getElem?_getD, hr, pivot]

theorem reading_of_zero (hr : r < t.unknowns) (zero : t.entry r r = 0) :
    t.reading r = if ∀ c < t.unknowns, t.entry r c = 0 then .free r else .unresolved := by
  simp [reading, RowReading.read, List.getD_eq_getElem?_getD, hr, zero]

theorem reading_eq_free (hr : r < t.unknowns) {column : Nat} :
    t.reading r = .free column ↔ column = r ∧ ∀ c < t.unknowns, t.entry r c = 0 := by
  by_cases zero : t.entry r r = 0
  · rw [reading_of_zero hr zero]
    split
    · rename_i all
      constructor
      · intro same
        cases same
        exact ⟨rfl, all⟩
      · rintro ⟨rfl, _⟩
        rfl
    · rename_i some
      simp [some]
  · rw [reading_of_pivot hr zero]
    constructor
    · intro absurd
      cases absurd
    · intro free
      exact absurd (free.2 r hr) zero

theorem reading_eq_unresolved (hr : r < t.unknowns) :
    t.reading r = .unresolved ↔ t.entry r r = 0 ∧ ∃ c < t.unknowns, t.entry r c ≠ 0 := by
  by_cases zero : t.entry r r = 0
  · rw [reading_of_zero hr zero]
    split
    · rename_i all
      simp only [zero, true_and, reduceCtorEq, false_iff, not_exists, not_and, not_not]
      exact all
    · rename_i some
      push Not at some
      simp only [zero, true_and, true_iff]
      exact some
  · rw [reading_of_pivot hr zero]
    simp [zero]

theorem ofRow_eq (h : t.IsTable m n) (hr : r < n) :
    RowReading.ofRow t r = .ok (t.reading r) := by
  rw [← h.unknowns] at hr
  rw [RowReading.ofRow, coefficients_eq h.shaped hr, Checked.ok_bind,
    Checked.require_eq (by simpa using hr), Checked.ok_bind, constant_eq h.shaped hr]
  rfl

theorem rolesFrom_eq (h : t.IsTable m n) (count r : Nat) (fits : r + count = n) :
    Solver.rolesFrom t r count = .ok ((List.range' r count).map t.reading) := by
  induction count generalizing r with
  | zero => rfl
  | succ count ih =>
    rw [Solver.rolesFrom, ofRow_eq h (by omega), Checked.ok_bind, ih (r + 1) (by omega)]
    rfl

/-- The answer of the search for contradictions among the rows from `r` on. -/
def Contradicts (t : Tableau) (r : Nat) : Option (Nat × Nat) → Prop
  | none => ∀ i < t.unknowns, r ≤ i → (∀ c < t.unknowns, t.entry i c = 0) →
      t.entry i t.unknowns = 0
  | some (row, constant) => row < t.unknowns ∧ (∀ c < t.unknowns, t.entry row c = 0) ∧
      constant = t.entry row t.unknowns ∧ constant ≠ 0

theorem contradiction_spec (h : t.IsTable m n) (count r : Nat) (fits : r + count = n) :
    ∃ answer, Solver.contradiction t r ((List.range' r count).map t.reading) = .ok answer ∧
      t.Contradicts r answer := by
  induction count generalizing r with
  | zero =>
    refine ⟨none, rfl, fun i hi after => ?_⟩
    rw [h.unknowns] at hi
    omega
  | succ count ih =>
    have hr : r < t.unknowns := by
      rw [h.unknowns]
      omega
    obtain ⟨answer, run, meaning⟩ := ih (r + 1) (by omega)
    -- if row `r` is no contradiction, the answer for the rows after it is the answer
    have later : (t.reading r = .free r → t.entry r t.unknowns = 0) → t.Contradicts r answer := by
      intro harmless
      cases answer with
      | some found => exact meaning
      | none =>
        intro i hi after all
        by_cases here : i = r
        · subst here
          exact harmless ((reading_eq_free hi).mpr ⟨rfl, all⟩)
        · exact meaning i hi (by omega) all
    rw [List.range'_succ, List.map_cons]
    cases role : t.reading r with
    | unresolved => exact ⟨answer, run, later fun free => by rw [free] at role; cases role⟩
    | pivot relation => exact ⟨answer, run, later fun free => by rw [free] at role; cases role⟩
    | free column =>
      obtain ⟨_, all⟩ := (reading_eq_free hr).mp role
      rw [Solver.contradiction, constant_eq h.shaped hr, Checked.ok_bind]
      by_cases zero : t.entry r t.unknowns = 0
      · rw [if_pos zero]
        exact ⟨answer, run, later fun _ => zero⟩
      · rw [if_neg zero]
        exact ⟨some (r, t.entry r t.unknowns), rfl, hr, all, rfl, zero⟩

/-! The verdict, if no row contradicts. -/

/-- No row has coefficients but no pivot. -/
def Sorted (t : Tableau) : Prop :=
  ∀ r < t.unknowns, t.entry r r = 0 → ∀ c < t.unknowns, t.entry r c = 0

theorem Sorted.freeColumns_eq (sorted : t.Sorted) :
    Solver.freeColumns ((List.range t.unknowns).map t.reading) = t.pivotFreeRows := by
  rw [Solver.freeColumns, List.filterMap_map, pivotFreeRows, ← List.filterMap_eq_filter]
  refine List.filterMap_congr fun r inside => ?_
  have hr := List.mem_range.mp inside
  by_cases zero : t.entry r r = 0
  · simp [reading_of_zero hr zero, if_pos (sorted r hr zero), zero, Option.guard]
  · simp [reading_of_pivot hr zero, zero, Option.guard]

theorem Sorted.relations_eq (sorted : t.Sorted) :
    Solver.relations ((List.range t.unknowns).map t.reading) = t.pivotRows.map t.relationAt := by
  rw [Solver.relations, List.filterMap_map, pivotRows, ← List.filterMap_eq_filter,
    List.map_filterMap]
  refine List.filterMap_congr fun r inside => ?_
  have hr := List.mem_range.mp inside
  by_cases zero : t.entry r r = 0
  · simp [reading_of_zero hr zero, if_pos (sorted r hr zero), zero, Option.guard]
  · simp [reading_of_pivot hr zero, zero, Option.guard]

theorem verdict_spec (none : t.Contradicts 0 none) :
    t.ReadsAs (Solver.verdict t.modulus t.unknowns ((List.range t.unknowns).map t.reading)) := by
  rw [Solver.verdict]
  cases found : ((List.range t.unknowns).map t.reading).findIdx? (· == .unresolved) with
  | some row =>
    obtain ⟨inside, reads, _⟩ := List.findIdx?_eq_some_iff_getElem.mp found
    rw [List.length_map, List.length_range] at inside
    simp only [List.getElem_map, List.getElem_range, beq_iff_eq] at reads
    obtain ⟨zero, nonzero⟩ := (reading_eq_unresolved inside).mp reads
    exact ⟨fun r hr => none r hr (Nat.zero_le r), row, inside, zero, nonzero, rfl⟩
  | none =>
    have sorted : t.Sorted := by
      intro r hr zero c hc
      by_contra nonzero
      have unresolved := (reading_eq_unresolved hr).mpr ⟨zero, c, hc, nonzero⟩
      have absent := List.findIdx?_eq_none_iff.mp found _
        (List.mem_map_of_mem (List.mem_range.mpr hr))
      simp [unresolved] at absent
    simp only [sorted.freeColumns_eq, sorted.relations_eq]
    by_cases full : ∀ r < t.unknowns, t.entry r r ≠ 0
    · have pivots : t.pivotRows = List.range t.unknowns := by
        rw [pivotRows, List.filter_eq_self]
        simpa using full
      have free : t.pivotFreeRows = [] := by
        rw [pivotFreeRows, List.filter_eq_nil_iff]
        simpa using full
      rw [if_pos (by simp [free]), pivots, List.map_map]
      exact ⟨full, rfl⟩
    · push Not at full
      have free : t.pivotFreeRows ≠ [] := by
        obtain ⟨r, hr, zero⟩ := full
        exact List.ne_nil_of_mem (List.mem_filter.mpr ⟨List.mem_range.mpr hr, by simpa using zero⟩)
      rw [if_neg (by simpa using free)]
      refine ⟨full, fun r hr zero c hc => ?_, rfl⟩
      rcases Nat.lt_or_eq_of_le hc with inside | constant
      · exact sorted r hr zero c inside
      · exact constant ▸ none r hr (Nat.zero_le r) (sorted r hr zero)

end Tableau

namespace Solver

variable {m n : Nat} {s : Solver}

theorem classify_spec (h : s.tableau.IsTable m n) (resolved : s.phase = .resolved) :
    ∃ answer, s.classify = .ok answer ∧ s.tableau.ReadsAs answer := by
  have roles : s.roles = .ok ((List.range s.tableau.unknowns).map s.tableau.reading) := by
    rw [Solver.roles, unknowns, List.range_eq_range']
    exact Tableau.rolesFrom_eq h _ 0 (by rw [Nat.zero_add, h.unknowns])
  obtain ⟨answer, run, meaning⟩ := Tableau.contradiction_spec h s.tableau.unknowns 0
    (by rw [Nat.zero_add, h.unknowns])
  rw [← List.range_eq_range'] at run
  rw [classify, classifyFrom, if_neg (by simp [resolved]), if_neg (by omega), roles,
    Checked.ok_bind, List.drop_zero, run, Checked.ok_bind]
  cases answer with
  | none => exact ⟨_, rfl, Tableau.verdict_spec meaning⟩
  | some found => exact ⟨_, rfl, meaning⟩

/-- A solver as it is built, with a table that has not been worked on. -/
structure Fresh (m n : Nat) (t : Tableau) (s : Solver) : Prop where
  table : t.IsTable m n
  tableau : s.tableau = t
  loaded : s.phase = .loaded
  total : s.lookup.Total m

/-- What the answer says when the run has ended with the table `d`. -/
def Answers (m n : Nat) (lookup : InverseLookup) (d : Tableau) (answer : Except Refusal Verdict) :
    Prop :=
  (∃ i < n, d.NeedsDivision i ∧ lookup.inverse (d.entry i i) = .ok none ∧
    answer = .error (.notInvertible i (d.entry i i) m)) ∨
  ((∀ i < n, ¬ d.NeedsDivision i) ∧ d.ReadsAs answer)

theorem Fresh.eliminate_eq {t e : Tableau} (fresh : Fresh m n t s) (run : t.eliminate = .ok e) :
    s.eliminate = .ok { s with tableau := e, phase := .eliminated } := by
  rw [Solver.eliminate, if_pos fresh.loaded, fresh.tableau, run]
  rfl

/-- How far a solver has come after its divisions. -/
def phaseAfter : Except Refusal Unit → Phase
  | .ok () => .resolved
  | .error _ => .eliminated

theorem resolve_eq {d : Tableau} {outcome : Except Refusal Unit} (phase : s.phase = .eliminated)
    (run : resolveFrom s.lookup s.tableau 0 s.unknowns = .ok (d, outcome)) :
    s.resolve = .ok ({ s with tableau := d, phase := phaseAfter outcome }, outcome) := by
  simp only [Solver.resolve, phase, run, Checked.ok_bind]
  cases outcome <;> rfl

/-- The steps in a row, once elimination and the divisions are known. -/
theorem solve_eq {t e d : Tableau} {outcome : Except Refusal Unit} (fresh : Fresh m n t s)
    (eliminated : t.eliminate = .ok e) (unknowns : e.unknowns = n)
    (resolved : resolveFrom s.lookup e 0 n = .ok (d, outcome)) (table : d.IsTable m n)
    (result : Tableau.ResolutionOutcome m n s.lookup d outcome) :
    ∃ final answer, s.solve = .ok (final, answer) ∧ final.tableau = d ∧
      Answers m n s.lookup d answer := by
  subst unknowns
  rw [solve, fresh.eliminate_eq eliminated, Checked.ok_bind, resolve_eq rfl resolved]
  cases outcome with
  | error refusal =>
    obtain ⟨i, hi, needs, missing, same⟩ := result
    exact ⟨_, _, rfl, rfl, Or.inl ⟨i, hi, needs, missing, congrArg _ same⟩⟩
  | ok done =>
    obtain ⟨answer, run, reads⟩ :=
      classify_spec (s := { s with tableau := d, phase := .resolved }) table rfl
    simp only [phaseAfter, Checked.pure_eq_ok, Checked.ok_bind, run]
    exact ⟨_, answer, rfl, rfl, Or.inr ⟨result, reads⟩⟩

theorem solve_spec {t : Tableau} (fresh : Fresh m n t s) (exact : s.lookup.Exact m) :
    ∃ final answer, s.solve = .ok (final, answer) ∧ Tableau.Eliminated m n t final.tableau ∧
      Answers m n s.lookup final.tableau answer := by
  obtain ⟨e, d, outcome, eliminated, unknowns, resolved, _, known, result⟩ :=
    Tableau.eliminate_resolve_spec fresh.table fresh.total
  obtain ⟨final, answer, run, rfl, answers⟩ :=
    solve_eq fresh eliminated unknowns resolved (known exact).table result
  exact ⟨final, answer, run, known exact, answers⟩

end Solver

end LinearCongruences
