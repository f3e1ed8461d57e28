import Mathlib
import LinearCongruences.Proofs.Acceptance

/-! Building tables and solvers. Whatever the rows, a solver is built or refused without a fault,
and what has been accepted is well-formed. -/
namespace LinearCongruences

variable {m : Nat}

namespace Tableau

variable {t : Tableau}

theorem checkShape_of_ok {α : Type} {rows : List (List α)}
    (accepted : checkShape m (rows.map List.length) = .ok ()) : 0 < m ∧ Square rows := by
  unfold checkShape at accepted
  split at accepted
  · cases accepted
  · rename_i nonzero
    split at accepted
    · cases accepted
    · rename_i nonempty
      rw [checkLengths_eq_ok, List.length_map] at accepted
      refine ⟨Nat.pos_of_ne_zero nonzero, by simpa using nonempty, fun row member => ?_⟩
      exact accepted _ (List.mem_map_of_mem member)

theorem checkRows_of_ok {row : Nat} {rows : List (List Nat)}
    (accepted : checkRows m row rows = .ok ()) : ∀ entries ∈ rows, ∀ x ∈ entries, x < m := by
  induction rows generalizing row with
  | nil => simp
  | cons entries rest ih =>
    unfold checkRows at accepted
    cases first : checkEntries m row 0 entries with
    | error refusal =>
      rw [first] at accepted
      cases accepted
    | ok done =>
      rw [first] at accepted
      exact List.forall_mem_cons.mpr ⟨(checkEntries_eq_ok row 0 entries).mp first, ih accepted⟩

/-- Only tables of the right shape with reduced entries are accepted. -/
theorem ofResidues_accepts {rows : List (List Nat)} (accepted : ofResidues m rows = .ok t) :
    0 < m ∧ Square rows ∧ (∀ entries ∈ rows, ∀ x ∈ entries, x < m) ∧ t = stored m rows := by
  unfold ofResidues at accepted
  cases shape : checkShape m (rows.map List.length) with
  | error refusal =>
    rw [shape] at accepted
    cases accepted
  | ok done =>
    cases entries : checkRows m 0 rows with
    | error refusal =>
      rw [shape, entries] at accepted
      cases accepted
    | ok done =>
      rw [shape, entries] at accepted
      obtain ⟨positive, square⟩ := checkShape_of_ok shape
      exact ⟨positive, square, checkRows_of_ok entries, (Except.ok.inj accepted).symm⟩

theorem ofResidues_modulus {rows : List (List Nat)} (accepted : ofResidues m rows = .ok t) :
    t.modulus = m := by
  obtain ⟨_, _, _, rfl⟩ := ofResidues_accepts accepted
  rfl

theorem ofResidues_wellFormed (word : m < wordBound) {rows : List (List Nat)}
    (accepted : ofResidues m rows = .ok t) : t.WellFormed := by
  obtain ⟨positive, square, reduced, rfl⟩ := ofResidues_accepts accepted
  exact (stored_isTable positive word square reduced).wellFormed

theorem ofIntegers_returns (word : m < wordBound) (rows : List (List Int)) :
    ∃ outcome, ofIntegers m rows = .ok outcome ∧ ∀ t, outcome = .ok t → t.WellFormed := by
  cases shape : checkShape m (rows.map List.length) with
  | error refusal =>
    refine ⟨.error refusal, ?_, fun t absurd => by cases absurd⟩
    rw [ofIntegers, shape]
  | ok done =>
    obtain ⟨positive, square⟩ := checkShape_of_ok shape
    obtain ⟨t, run, table, _⟩ := ofIntegers_spec positive word square
    refine ⟨.ok t, run, fun t' same => ?_⟩
    cases same
    exact table.wellFormed

theorem ofIntegers_modulus {rows : List (List Int)} (accepted : ofIntegers m rows = .ok (.ok t)) :
    t.modulus = m := by
  unfold ofIntegers at accepted
  split at accepted
  · cases accepted
  · obtain ⟨cells, _, same⟩ := Checked.bind_eq_ok.mp accepted
    cases same
    rfl

theorem rows_flatten (t : Tableau) (k : Nat) :
    ((List.range k).map fun r =>
      (t.cells.extract (t.place r 0) (t.place (r + 1) 0)).toList).flatten =
      (t.cells.extract 0 (t.place k 0)).toList := by
  induction k with
  | zero => simp [place]
  | succ k ih =>
    have le : t.place k 0 ≤ t.place (k + 1) 0 := by
      simp only [place, Nat.add_mul]
      omega
    rw [List.range_succ, List.map_append, List.flatten_append, ih, List.map_singleton,
      List.flatten_singleton, ← Array.toList_append, Array.extract_append_extract,
      Nat.zero_min, Nat.max_eq_right le]

/-- The rows of a well-formed table make the same table again. -/
theorem WellFormed.ofResidues_rows (wf : t.WellFormed) : ofResidues t.modulus t.rows = .ok t := by
  have rows := rows_eq wf.shaped
  have length : t.rows.length = t.unknowns := by simp [rows]
  have square : Square t.rows := by
    refine ⟨List.ne_nil_of_length_pos (length ▸ wf.unknowns_pos), fun row member => ?_⟩
    rw [rows] at member
    obtain ⟨r, _, rfl⟩ := List.mem_map.mp member
    simp [length, width]
  have reduced : ∀ entries ∈ t.rows, ∀ x ∈ entries, x < t.modulus := by
    intro entries member x inside
    rw [rows] at member
    obtain ⟨r, hr, rfl⟩ := List.mem_map.mp member
    obtain ⟨c, hc, rfl⟩ := List.mem_map.mp inside
    exact wf.entry_lt (List.mem_range.mp hr) (List.mem_range.mp hc)
  have cells : t.rows.flatten.toArray = t.cells := by
    have all : t.cells.extract 0 (t.place t.unknowns 0) = t.cells := by
      rw [place, Nat.add_zero, ← wf.size_cells, Array.extract_size]
    rw [Tableau.rows, rows_flatten, Array.toArray_toList, all]
  rw [ofResidues, checkShape_eq_ok wf.modulus_pos square, checkRows_eq_ok 0 reduced, length, cells]
  rfl

end Tableau

namespace Solver

variable {settings : Settings} {s : Solver}

theorem checkModulus_returns (word : m < wordBound) (requirePrime : Bool) :
    ∃ answer, checkModulus m requirePrime = .ok answer := by
  obtain ⟨prime, decided⟩ := Prime.test_returns word
  cases requirePrime with
  | false => exact ⟨.ok (), rfl⟩
  | true =>
    rw [checkModulus, decided]
    cases prime with
    | false => exact ⟨.error (.compositeModulus m), rfl⟩
    | true => exact ⟨.ok (), rfl⟩

theorem ofTableau_returns {t : Tableau} (wf : t.WellFormed)
    (room : InverseLookup.HasRoom t.modulus settings.inverseTableLimit) :
    ∃ outcome, ofTableau t settings = .ok outcome := by
  obtain ⟨allowed, checked⟩ := checkModulus_returns wf.modulus_lt settings.requirePrimeModulus
  obtain ⟨lookup, built⟩ := (InverseLookup.build_returns_iff wf.modulus_lt).mpr room
  rw [ofTableau, checked, built]
  cases allowed with
  | error refusal => exact ⟨.error refusal, rfl⟩
  | ok done => exact ⟨.ok _, rfl⟩

theorem ofResidues_returns (word : m < wordBound)
    (room : InverseLookup.HasRoom m settings.inverseTableLimit) (rows : List (List Nat)) :
    ∃ outcome, ofResidues m rows settings = .ok outcome := by
  unfold ofResidues
  cases made : Tableau.ofResidues m rows with
  | error refusal => exact ⟨.error refusal, rfl⟩
  | ok t =>
    refine ofTableau_returns (Tableau.ofResidues_wellFormed word made) ?_
    rwa [Tableau.ofResidues_modulus made]

theorem ofIntegers_returns (word : m < wordBound)
    (room : InverseLookup.HasRoom m settings.inverseTableLimit) (rows : List (List Int)) :
    ∃ outcome, ofIntegers m rows settings = .ok outcome := by
  obtain ⟨made, run, wellFormed⟩ := Tableau.ofIntegers_returns word rows
  rw [ofIntegers, run, Checked.ok_bind]
  cases made with
  | error refusal => exact ⟨.error refusal, rfl⟩
  | ok t =>
    refine ofTableau_returns (wellFormed t rfl) ?_
    rwa [Tableau.ofIntegers_modulus run]

end Solver

end LinearCongruences
