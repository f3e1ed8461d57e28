import Mathlib
import LinearCongruences.CongruenceSystem
import LinearCongruences.Proofs.Classification

/-! From rows to a solver. Rows of the right shape are accepted, and the table that is kept has the
solutions that the rows have, whether they are given by residues or by signed numbers. -/
namespace LinearCongruences

/-- There is a row, and each has a place for every unknown and the constant. -/
structure Square {α : Type} (rows : List (List α)) : Prop where
  nonempty : rows ≠ []
  length : ∀ row ∈ rows, row.length = rows.length + 1

variable {m : Nat}

theorem Square.map {α β : Type} {rows : List (List α)} (h : Square rows) (f : α → β) :
    Square (rows.map (List.map f)) where
  nonempty := by simpa using h.nonempty
  length := by
    intro row member
    obtain ⟨old, member', rfl⟩ := List.mem_map.mp member
    simpa using h.length old member'

namespace Tableau

theorem checkLengths_eq_ok (expected row : Nat) (lengths : List Nat) :
    checkLengths expected row lengths = .ok () ↔ ∀ l ∈ lengths, l = expected := by
  induction lengths generalizing row with
  | nil => simp [checkLengths]
  | cons l rest ih =>
    rw [checkLengths, List.forall_mem_cons]
    split
    · rename_i same
      simp [same, ih (row + 1)]
    · rename_i different
      simp [different]

theorem checkShape_eq_ok {α : Type} (hm : 0 < m) {rows : List (List α)} (square : Square rows) :
    checkShape m (rows.map List.length) = .ok () := by
  rw [checkShape, if_neg (by omega), if_neg (by simpa using square.nonempty), checkLengths_eq_ok]
  simpa using square.length

theorem checkEntries_eq_ok (row column : Nat) (entries : List Nat) :
    checkEntries m row column entries = .ok () ↔ ∀ x ∈ entries, x < m := by
  induction entries generalizing column with
  | nil => simp [checkEntries]
  | cons x rest ih =>
    rw [checkEntries, List.forall_mem_cons]
    split
    · rename_i less
      simp [less, ih (column + 1)]
    · rename_i large
      simp [large]

theorem checkRows_eq_ok (row : Nat) {rows : List (List Nat)}
    (reduced : ∀ entries ∈ rows, ∀ x ∈ entries, x < m) : checkRows m row rows = .ok () := by
  induction rows generalizing row with
  | nil => rfl
  | cons entries rest ih =>
    obtain ⟨first, others⟩ := List.forall_mem_cons.mp reduced
    rw [checkRows, (checkEntries_eq_ok row 0 entries).mpr first]
    exact ih (row + 1) others

/-- The table that keeps the rows one after the other. -/
def stored (m : Nat) (rows : List (List Nat)) : Tableau :=
  ⟨m, rows.length, rows.flatten.toArray⟩

theorem length_flatten {rows : List (List Nat)} {w : Nat}
    (length : ∀ row ∈ rows, row.length = w) : rows.flatten.length = rows.length * w := by
  induction rows with
  | nil => simp
  | cons row rest ih =>
    obtain ⟨first, others⟩ := List.forall_mem_cons.mp length
    rw [List.flatten_cons, List.length_append, ih others, first, List.length_cons]
    ring

theorem stored_isTable (hm : 0 < m) (bound : m < wordBound) {rows : List (List Nat)}
    (square : Square rows) (reduced : ∀ entries ∈ rows, ∀ x ∈ entries, x < m) :
    (stored m rows).IsTable m rows.length where
  wellFormed := by
    refine ⟨hm, bound, List.length_pos_of_ne_nil square.nonempty, ?_, fun x inside => ?_⟩
    · exact List.size_toArray.trans (length_flatten square.length)
    · obtain ⟨entries, member, inside'⟩ := List.mem_flatten.mp (List.mem_toArray.mp inside)
      exact reduced entries member x inside'
  modulus := rfl
  unknowns := rfl

theorem stored_rows {rows : List (List Nat)} (square : Square rows) :
    (stored m rows).rows = rows := by
  have sums : ∀ i ≤ rows.length,
      ((rows.map List.length).take i).sum = i * (rows.length + 1) := by
    intro i hi
    have constant : rows.map List.length = List.replicate rows.length (rows.length + 1) := by
      refine List.eq_replicate_iff.mpr ⟨by simp, fun l member => ?_⟩
      obtain ⟨row, member', rfl⟩ := List.mem_map.mp member
      exact square.length row member'
    rw [constant, List.take_replicate, Nat.min_eq_left hi, List.sum_replicate, smul_eq_mul]
  apply List.ext_getElem
  · simp [Tableau.rows, stored]
  · intro i _ hi
    have row := List.drop_take_succ_flatten_eq_getElem rows i hi
    rw [sums i (Nat.le_of_lt hi), sums (i + 1) hi] at row
    simp only [Tableau.rows, stored, List.getElem_map, List.getElem_range, place, width,
      Nat.add_zero]
    rw [← row, Array.toList_extract, List.extract_eq_take_drop, List.drop_take]

theorem stored_solution {rows : List (List Nat)} (square : Square rows) (point : List Nat) :
    (stored m rows).Solution point ↔ Solves m (rows.map (List.map Int.ofNat)) point := by
  rw [Solution, integerRows, stored_rows square]
  rfl

/-- Residues are accepted as they are. -/
theorem ofResidues_spec (hm : 0 < m) (bound : m < wordBound) {rows : List (List Nat)}
    (square : Square rows) (reduced : ∀ entries ∈ rows, ∀ x ∈ entries, x < m) :
    ∃ t, ofResidues m rows = .ok t ∧ t.IsTable m rows.length ∧
      ∀ point, t.Solution point ↔ Solves m (rows.map (List.map Int.ofNat)) point := by
  refine ⟨stored m rows, ?_, stored_isTable hm bound square reduced, stored_solution square⟩
  rw [ofResidues, checkShape_eq_ok hm square, checkRows_eq_ok 0 reduced]
  rfl

/-! Signed numbers are replaced by their representatives, which changes no congruence. -/

theorem normalizeAll_eq (hm : 0 < m) (bound : m < wordBound) (values : List Int) :
    normalizeAll m values = .ok (values.map fun z => Residue.representative z m) := by
  induction values with
  | nil => rfl
  | cons z rest ih =>
    rw [normalizeAll, Residue.normalize_eq hm bound, Checked.ok_bind, ih]
    rfl

theorem leftSide_congr {f : Int → Int} (same : ∀ z, (f z : ZMod m) = z) (row : List Int)
    (point : List Nat) : (leftSide (row.map f) point : ZMod m) = leftSide row point := by
  induction row generalizing point with
  | nil => rfl
  | cons z rest ih =>
    cases point with
    | nil => rfl
    | cons x point =>
      rw [List.map_cons, leftSide_cons, leftSide_cons]
      push_cast
      rw [same z, ih point]

theorem solves_congr {f : Int → Int} (same : ∀ z, (f z : ZMod m) = z) (rows : List (List Int))
    (point : List Nat) : Solves m (rows.map (List.map f)) point ↔ Solves m rows point := by
  have row : ∀ row, SolvesRow m (row.map f) point ↔ SolvesRow m row point := by
    intro row
    have last : (((row.map f).getD point.length 0 : Int) : ZMod m) =
        (row.getD point.length 0 : Int) := by
      rw [List.getD_eq_getElem?_getD, List.getElem?_map, List.getD_eq_getElem?_getD]
      cases row[point.length]? with
      | none => rfl
      | some z => exact same z
    rw [SolvesRow, SolvesRow, ← ZMod.intCast_zmod_eq_zero_iff_dvd,
      ← ZMod.intCast_zmod_eq_zero_iff_dvd, Int.cast_sub, Int.cast_sub, leftSide_congr same, last]
  simp only [Solves, List.length_map, List.forall_mem_map, row]

theorem ofIntegers_spec (hm : 0 < m) (bound : m < wordBound) {rows : List (List Int)}
    (square : Square rows) :
    ∃ t, ofIntegers m rows = .ok (.ok t) ∧ t.IsTable m rows.length ∧
      ∀ point, t.Solution point ↔ Solves m rows point := by
  have square' := square.map fun z => Residue.representative z m
  refine ⟨stored m (rows.map (List.map fun z => Residue.representative z m)), ?_, ?_, ?_⟩
  · rw [ofIntegers, checkShape_eq_ok hm square]
    simp only [normalizeAll_eq hm bound, Checked.ok_bind, stored, List.length_map, List.map_flatten]
    rfl
  · have reduced : ∀ entries ∈ rows.map (List.map fun z => Residue.representative z m),
        ∀ x ∈ entries, x < m := by
      intro entries member x inside
      obtain ⟨row, _, rfl⟩ := List.mem_map.mp member
      obtain ⟨z, _, rfl⟩ := List.mem_map.mp inside
      exact Residue.representative_lt hm z
    have table := stored_isTable hm bound square' reduced
    rwa [List.length_map] at table
  · intro point
    have same : ∀ z : Int, ((Int.ofNat (Residue.representative z m) : Int) : ZMod m) = z := by
      intro z
      rw [Int.ofNat_eq_natCast, Int.cast_natCast]
      exact Residue.cast_representative hm z
    rw [stored_solution square', ← solves_congr same rows point, List.map_map]
    simp only [Function.comp_def, List.map_map]

end Tableau

namespace Solver

/-- A solver that is built from a well-formed table is a fresh one. -/
theorem ofTableau_fresh {t : Tableau} {settings : Settings} {s : Solver} (wf : t.WellFormed)
    (built : ofTableau t settings = .ok (.ok s)) : Fresh t.modulus t.unknowns t s := by
  obtain ⟨checked, _, rest⟩ := Checked.bind_eq_ok.mp built
  cases checked with
  | error refusal => simp at rest
  | ok allowed =>
    obtain ⟨lookup, run, result⟩ := Checked.bind_eq_ok.mp rest
    simp only [Checked.pure_eq_ok, Except.ok.injEq] at result
    subst result
    have total := InverseLookup.total_of_build wf.modulus_pos wf.modulus_lt run
    exact ⟨⟨wf, rfl, rfl⟩, rfl, rfl, total⟩

/-- It divides by inverses, provided that a table is only laid out for a prime. -/
theorem ofTableau_exact {t : Tableau} {settings : Settings} {s : Solver} (wf : t.WellFormed)
    (primes : Prime.test t.modulus = .ok true →
      t.modulus.Prime ∨ settings.inverseTableLimit < t.modulus)
    (built : ofTableau t settings = .ok (.ok s)) : s.lookup.Exact t.modulus := by
  obtain ⟨checked, _, rest⟩ := Checked.bind_eq_ok.mp built
  cases checked with
  | error refusal => simp at rest
  | ok allowed =>
    obtain ⟨lookup, run, result⟩ := Checked.bind_eq_ok.mp rest
    simp only [Checked.pure_eq_ok, Except.ok.injEq] at result
    subst result
    exact InverseLookup.build_exact wf.modulus_pos wf.modulus_lt primes run

/-- No setting keeps a solver for a prime modulus from being built, as long as there is room for a
table that is called for. -/
theorem ofTableau_prime {n : Nat} {t : Tableau} (table : t.IsTable m n) (prime : m.Prime)
    {settings : Settings} (room : InverseLookup.HasRoom m settings.inverseTableLimit) :
    ∃ s, ofTableau t settings = .ok (.ok s) ∧ Fresh m n t s ∧ s.lookup.Exact m := by
  obtain ⟨lookup, run⟩ := (InverseLookup.build_returns_iff table.bound).mpr room
  have allowed : checkModulus m settings.requirePrimeModulus = .ok (.ok ()) := by
    unfold checkModulus
    split
    · rw [Prime.test_of_prime prime table.bound]
      rfl
    · rfl
  have built : ofTableau t settings = .ok (.ok ⟨t, lookup, settings.inverseTableLimit,
      settings.requirePrimeModulus, .loaded⟩) := by
    rw [ofTableau, table.modulus, allowed]
    simp [run]
  have fresh := ofTableau_fresh table.wellFormed built
  have exact := ofTableau_exact table.wellFormed
    (fun _ => Or.inl (table.modulus.symm ▸ prime)) built
  rw [table.modulus] at exact
  rw [table.modulus, table.unknowns] at fresh
  exact ⟨_, built, fresh, exact⟩

end Solver

end LinearCongruences
