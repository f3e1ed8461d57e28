import Mathlib
import LinearCongruences.Proofs.Constants
import LinearCongruences.Proofs.Verdicts

/-! Which runs lose no solution. Over a composite modulus a pivot may be wiped out, and a row that
has lost its pivot can be chosen again while it still names an earlier column; such a step does not
treat the row as a whole, and a solution may be lost. Whether that happens is a matter of the
coefficients, and the columns of coefficients themselves, taken as constants, show it. -/
namespace LinearCongruences

open Finset Tableau

/-- The verdict does not exclude the point. -/
def Verdict.Keeps (m : Nat) (point : List Nat) : Verdict → Prop
  | .inconsistent _ _ => False
  | .unique values => point = values
  | .infinite family => ∀ r ∈ family.relations, r.Holds m point

/-- A solver for the table does not exclude the point, if it comes to a verdict. -/
def KeepsPoint (settings : Settings) (t : Tableau) (point : List Nat) : Prop :=
  ∀ s final verdict, Solver.ofTableau t settings = .ok (.ok s) →
    s.solve = .ok (final, .ok verdict) → verdict.Keeps t.modulus point

/-- No solution is excluded, whatever constants stand beside the coefficients of the table. -/
def KeepsSolutions (settings : Settings) (t : Tableau) : Prop :=
  ∀ u, Alike t.modulus t.unknowns t u → ∀ point, u.Solution point → KeepsPoint settings u point

/-- The point with a one for unknown `j` and zeros else. -/
def unitPoint (m n j : Nat) : List Nat :=
  (List.range n).map fun c => if c = j then 1 % m else 0

/-- The table in which column `j` of the coefficients has taken the place of the constants. -/
def Tableau.withColumn (t : Tableau) (j : Nat) : Tableau :=
  stored t.modulus ((List.range t.unknowns).map fun r =>
    (List.range t.unknowns).map (t.entry r) ++ [t.entry r j])

variable {m n : Nat} {t u d : Tableau} {j : Nat} {point : List Nat}

/-- A verdict keeps a point if the rows of the table it is read off hold there. -/
theorem Verdict.keeps_iff_holds {verdict : Verdict} (stepped : Stepped m n d)
    (divided : ∀ r < n, ¬ d.NeedsDivision r) (reads : d.ReadsAs (.ok verdict))
    (length : point.length = n) (less : ∀ x ∈ point, x < m) :
    verdict.Keeps m point ↔ d.Holds m (classes m point) := by
  have table := stepped.table
  cases verdict with
  | inconsistent row constant =>
    obtain ⟨hrow, zero, rfl, nonzero⟩ := reads
    rw [table.unknowns] at hrow zero nonzero
    exact iff_of_false id (not_holds_of_contradiction table hrow zero nonzero _)
  | unique values =>
    obtain ⟨full, rfl⟩ := reads
    rw [table.unknowns] at full ⊢
    obtain ⟨one, zero⟩ := stepped.identity divided full
    have only := solution_iff_of_identity table one zero point
    rw [solution_iff table.shaped table.modulus, table.unknowns] at only
    exact ⟨fun same => (only.mpr same).2.2, fun holds => only.mp ⟨length, less, holds⟩⟩
  | infinite family =>
    obtain ⟨_, empty, rfl⟩ := reads
    rw [holds_iff_relations empty]
    exact forall₂_congr fun r _ => r.holds_iff point

/-! The unit points and their systems. -/

theorem length_unitPoint : (unitPoint m n j).length = n := by
  simp [unitPoint]

theorem unitPoint_lt (hm : 0 < m) : ∀ x ∈ unitPoint m n j, x < m := by
  intro x member
  obtain ⟨c, _, rfl⟩ := List.mem_map.mp member
  split
  · exact Nat.mod_lt 1 hm
  · exact hm

theorem classes_unitPoint {c : Nat} (hc : c < n) :
    classes m (unitPoint m n j) c = if c = j then 1 else 0 := by
  rw [classes, List.getD_eq_getElem _ _ (by rw [length_unitPoint]; exact hc)]
  simp only [unitPoint, List.getElem_map, List.getElem_range]
  split
  · rw [ZMod.natCast_mod, Nat.cast_one]
  · exact Nat.cast_zero

theorem holds_unitPoint_iff (h : u.IsTable m n) (hj : j < n) :
    u.Holds m (classes m (unitPoint m n j)) ↔ ∀ r < n, u.residue m r j = u.residue m r n := by
  rw [Holds, h.unknowns]
  refine forall₂_congr fun r hr => ?_
  have left : ∑ c ∈ range n, u.residue m r c * classes m (unitPoint m n j) c = u.residue m r j := by
    rw [sum_eq_single_of_mem j (mem_range.mpr hj), classes_unitPoint hj, if_pos rfl, mul_one]
    intro c inside other
    rw [classes_unitPoint (mem_range.mp inside), if_neg other, mul_zero]
  rw [defect, h.unknowns, left, sub_eq_zero]

theorem Tableau.withColumn_spec (h : t.IsTable m n) (hj : j < n) :
    Alike m n t (t.withColumn j) ∧ ∀ r < n, (t.withColumn j).residue m r n = t.residue m r j := by
  obtain rfl := h.modulus
  obtain rfl := h.unknowns
  let rows := (List.range t.unknowns).map fun r =>
    (List.range t.unknowns).map (t.entry r) ++ [t.entry r j]
  have count : rows.length = t.unknowns := by simp [rows]
  have square : Square rows := by
    refine ⟨List.ne_nil_of_length_pos (count ▸ h.wellFormed.unknowns_pos), fun row member => ?_⟩
    obtain ⟨r, _, rfl⟩ := List.mem_map.mp member
    simp [count]
  have reduced : ∀ row ∈ rows, ∀ x ∈ row, x < t.modulus := by
    intro row member x inside
    obtain ⟨r, hr, rfl⟩ := List.mem_map.mp member
    rw [List.mem_range] at hr
    rcases List.mem_append.mp inside with coefficient | constant
    · obtain ⟨c, hc, rfl⟩ := List.mem_map.mp coefficient
      exact h.entry_lt hr (Nat.le_of_lt (List.mem_range.mp hc))
    · rw [List.mem_singleton.mp constant]
      exact h.entry_lt hr (Nat.le_of_lt hj)
  have table := stored_isTable h.pos h.bound square reduced
  rw [count] at table
  have row : ∀ r < t.unknowns, (List.range (t.unknowns + 1)).map ((t.withColumn j).entry r) =
      (List.range t.unknowns).map (t.entry r) ++ [t.entry r j] := by
    intro r hr
    have same := (rows_eq table.shaped).symm.trans (stored_rows square)
    rw [table.unknowns, table.width] at same
    exact List.map_inj_left.mp same r (List.mem_range.mpr hr)
  refine ⟨⟨table, fun r hr c hc => ?_⟩, fun r hr => ?_⟩
  · have entries := congrArg (·[c]?) (row r hr)
    simpa [hc, Nat.lt_succ_of_lt hc] using entries
  · have entries := congrArg (·[t.unknowns]?) (row r hr)
    simp only [List.getElem?_map, List.getElem?_range (Nat.lt_succ_self _), Option.map_some] at entries
    rw [List.getElem?_append_right (by simp)] at entries
    simp only [List.length_map, List.length_range, Nat.sub_self, List.getElem?_cons_zero,
      Option.some.injEq] at entries
    exact congrArg Nat.cast entries

theorem Tableau.withColumn_solution (h : t.IsTable m n) (hj : j < n) :
    (t.withColumn j).Solution (unitPoint m n j) := by
  obtain ⟨alike, constants⟩ := withColumn_spec h hj
  rw [solution_iff alike.shaped alike.modulus, alike.unknowns]
  refine ⟨length_unitPoint, unitPoint_lt h.pos, (holds_unitPoint_iff alike.toIsTable hj).mpr ?_⟩
  intro r hr
  rw [constants r hr, alike.residue_eq hr hj]

/-- The constants of a system that has a solution are the columns of its coefficients, weighted by
the solution. -/
theorem Tableau.Alike.weighted (h : t.IsTable m n) (alike : Alike m n t u) {x : Nat → ZMod m}
    (holds : u.Holds m x) {r : Nat} (hr : r < n) :
    u.residue m r n = ∑ j ∈ range n, x j * (t.withColumn j).residue m r n := by
  have row := holds r (alike.unknowns.symm ▸ hr)
  rw [defect, alike.unknowns, sub_eq_zero] at row
  rw [← row]
  refine sum_congr rfl fun j inside => ?_
  have hj := mem_range.mp inside
  rw [(withColumn_spec h hj).2 r hr, alike.residue_eq hr hj, mul_comm]

/-- What is known of the table that a run ends with, if the run does not exclude a point. -/
theorem Solver.Answers.of_keeps {lookup : InverseLookup} {answer : Except Refusal Verdict}
    (stepped : Stepped m n d) (answers : Answers m n lookup d answer) (divided : ∀ r < n, ¬ d.NeedsDivision r)
    (length : point.length = n) (less : ∀ x ∈ point, x < m)
    (keeps : ∀ verdict, answer = .ok verdict → verdict.Keeps m point) :
    (∀ r < n, (∀ c < n, d.entry r c = 0) → d.entry r n = 0) ∧
      (d.Sorted → d.Holds m (classes m point)) := by
  have hn := stepped.table.unknowns
  rcases answers with ⟨i, hi, needs, _⟩ | ⟨_, reads⟩
  · exact absurd needs (divided i hi)
  · cases answer with
    | error refusal =>
      obtain ⟨consistent, row, hrow, zero, ⟨c, hc, nonzero⟩, _⟩ := reads
      rw [hn] at consistent
      exact ⟨consistent, fun sorted => absurd (sorted row hrow zero c hc) nonzero⟩
    | ok verdict =>
      have holds := (Verdict.keeps_iff_holds stepped divided reads length less).mp (keeps verdict rfl)
      refine ⟨fun r hr zero => ?_, fun _ => holds⟩
      by_contra nonzero
      exact not_holds_of_contradiction stepped.table hr zero nonzero _ holds

/-- Solvers for tables of the same size are built alike. -/
theorem Solver.ofTableau_congr {settings : Settings} {s : Solver}
    (built : ofTableau t settings = .ok (.ok s)) (same : u.modulus = t.modulus) :
    ∃ s', ofTableau u settings = .ok (.ok s') ∧ s'.lookup = s.lookup := by
  obtain ⟨checked, check, rest⟩ := Checked.bind_eq_ok.mp built
  cases checked with
  | error refusal => simp at rest
  | ok allowed =>
    obtain ⟨lookup, run, result⟩ := Checked.bind_eq_ok.mp rest
    simp only [Checked.pure_eq_ok, Except.ok.injEq] at result
    subst result
    refine ⟨⟨u, lookup, settings.inverseTableLimit, settings.requirePrimeModulus, .loaded⟩, ?_, rfl⟩
    rw [ofTableau, same, check, Checked.ok_bind]
    simp [run]

/-- The tables `v j` that the runs on the columns of `t` end with, beside the table `d` that the run
on `u` ends with, if none of the runs excludes its unit point. -/
structure ColumnRuns (m n : Nat) (t u d : Tableau) (v : Nat → Tableau) : Prop where
  alike : ∀ j < n, Alike m n d (v j)
  combines : ∃ S, Combines m n S u d ∧ ∀ j < n, Combines m n S (t.withColumn j) (v j)
  consistent : ∀ j < n, ∀ r < n, (∀ c < n, (v j).entry r c = 0) → (v j).entry r n = 0
  holds : ∀ j < n, (v j).Sorted → (v j).Holds m (classes m (unitPoint m n j))

namespace ColumnRuns

variable {v : Nat → Tableau} {x : Nat → ZMod m} (runs : ColumnRuns m n t u d v)
  (h : t.IsTable m n) (alike : Alike m n t u) (holds : u.Holds m x)

include runs h alike holds

theorem weights {r : Nat} (hr : r < n) :
    d.residue m r n = ∑ j ∈ range n, x j * (v j).residue m r n := by
  obtain ⟨S, combines, columns⟩ := runs.combines
  exact combines.of_columns columns (fun i hi => alike.weighted h holds hi) hr

/-- A row without coefficients has no constant either. -/
theorem constant_eq_zero {r : Nat} (hr : r < n) (zero : ∀ c < n, d.entry r c = 0) :
    d.residue m r n = 0 := by
  rw [runs.weights h alike holds hr]
  refine sum_eq_zero fun j inside => ?_
  have hj := mem_range.mp inside
  have vanishes := runs.consistent j hj r hr fun c hc => by
    rw [(runs.alike j hj).entry r hr c hc, zero c hc]
  rw [residue, vanishes, Nat.cast_zero, mul_zero]

theorem holds_of_sorted (hd : d.IsTable m n) (sorted : d.Sorted) : d.Holds m x := by
  intro r hr
  rw [hd.unknowns] at hr
  rw [defect, hd.unknowns, runs.weights h alike holds hr, sub_eq_zero]
  refine sum_congr rfl fun j inside => ?_
  have hj := mem_range.mp inside
  have column := runs.alike j hj
  have unit := (holds_unitPoint_iff column.toIsTable hj).mp
    (runs.holds j hj ((column.sorted_iff hd).mpr sorted)) r hr
  rw [← unit, column.residue_eq hr hj, mul_comm]

end ColumnRuns

theorem Tableau.Alike.fresh {settings : Settings} {s : Solver} (alike : Alike m n t u)
    (built : Solver.ofTableau u settings = .ok (.ok s)) : Solver.Fresh m n u s := by
  have fresh := Solver.ofTableau_fresh alike.wellFormed built
  rwa [alike.modulus, alike.unknowns] at fresh

theorem exists_columnRuns {settings : Settings} {s : Solver} (h : t.IsTable m n)
    (units : ∀ j < n, KeepsPoint settings (t.withColumn j) (unitPoint m n j))
    (alike : Alike m n t u) (built : Solver.ofTableau u settings = .ok (.ok s)) :
    ∃ final answer v, s.solve = .ok (final, answer) ∧ Stepped m n final.tableau ∧
      Solver.Answers m n s.lookup final.tableau answer ∧
      ((∀ r < n, ¬ final.tableau.NeedsDivision r) → ColumnRuns m n t u final.tableau v) := by
  have fresh := alike.fresh built
  obtain ⟨e, S, table, acts⟩ := Solver.solve_acts h fresh.total
  obtain ⟨final, answer, run, stepped, answers, alikeFinal, combines⟩ := acts u s alike fresh rfl
  have columns : ∀ j, ∃ v, j < n → Alike m n final.tableau v ∧
      Combines m n S (t.withColumn j) v ∧ ((∀ r < n, ¬ final.tableau.NeedsDivision r) →
        (∀ r < n, (∀ c < n, v.entry r c = 0) → v.entry r n = 0) ∧
          (v.Sorted → v.Holds m (classes m (unitPoint m n j)))) := by
    intro j
    by_cases hj : j < n
    · have alikeColumn := (withColumn_spec h hj).1
      obtain ⟨s', built', lookup⟩ :=
        Solver.ofTableau_congr built (alikeColumn.modulus.trans alike.modulus.symm)
      obtain ⟨last, answer', run', stepped', answers', alikeLast, combines'⟩ :=
        acts _ s' alikeColumn (alikeColumn.fresh built') lookup
      have beside := alikeFinal.beside alikeLast
      refine ⟨last.tableau, fun _ => ⟨beside, combines', fun divided => ?_⟩⟩
      have divided' : ∀ r < n, ¬ last.tableau.NeedsDivision r := fun r hr needs =>
        divided r hr ((beside.needsDivision_iff stepped.table hr).mp needs)
      refine Solver.Answers.of_keeps stepped' answers' divided' length_unitPoint
        (unitPoint_lt h.pos) ?_
      rintro verdict rfl
      have keeps := units j hj s' last verdict built' run'
      rwa [alikeColumn.modulus] at keeps
    · exact ⟨t, fun inside => absurd inside hj⟩
  choose v column using columns
  refine ⟨final, answer, v, run, stepped, answers, fun divided => ?_⟩
  exact {
    alike := fun j hj => (column j hj).1
    combines := ⟨S, combines, fun j hj => (column j hj).2.1⟩
    consistent := fun j hj => ((column j hj).2.2 divided).1
    holds := fun j hj => ((column j hj).2.2 divided).2 }

theorem keepsSolutions_of_units {settings : Settings} (wf : t.WellFormed)
    (units : ∀ j < t.unknowns,
      KeepsPoint settings (t.withColumn j) (unitPoint t.modulus t.unknowns j)) :
    KeepsSolutions settings t := by
  intro u alike point solution s final verdict built solved
  have h : t.IsTable t.modulus t.unknowns := ⟨wf, rfl, rfl⟩
  obtain ⟨final', answer, v, run, stepped, answers, runs⟩ :=
    exists_columnRuns h units alike built
  obtain ⟨rfl, rfl⟩ := Prod.mk.inj (Except.ok.inj (run.symm.trans solved))
  obtain ⟨_, _, _, _, absurd⟩ | ⟨divided, reads⟩ := answers
  · cases absurd
  obtain ⟨length, less, holds⟩ := (solution_iff alike.shaped alike.modulus point).mp solution
  rw [alike.unknowns] at length
  rw [alike.modulus]
  -- the run on `u` has done to its constants what the runs on the columns have done to theirs
  have columns := runs divided
  have keeps_of_sorted := fun sorted =>
    (Verdict.keeps_iff_holds stepped divided reads length less).mpr
      (columns.holds_of_sorted h alike holds stepped.table sorted)
  cases verdict with
  | inconsistent row constant =>
    obtain ⟨hrow, zero, rfl, nonzero⟩ := reads
    rw [stepped.table.unknowns] at hrow zero nonzero
    refine nonzero ((stepped.table.residue_eq_zero hrow (Nat.le_refl _)).mp ?_)
    exact columns.constant_eq_zero h alike holds hrow zero
  | unique values => exact keeps_of_sorted fun r hr zero => absurd zero (reads.1 r hr)
  | infinite family =>
    exact keeps_of_sorted fun r hr zero c hc => reads.2.1 r hr zero c (Nat.le_of_lt hc)

/-! Runs that stay clear. -/

theorem keepsSolutions_of_staysClear {settings : Settings} (wf : t.WellFormed)
    (primes : Prime.test t.modulus = .ok true →
      t.modulus.Prime ∨ settings.inverseTableLimit < t.modulus)
    (clear : t.StaysClear) : KeepsSolutions settings t := by
  intro u alike point solution s final verdict built solved
  have h : t.IsTable t.modulus t.unknowns := ⟨wf, rfl, rfl⟩
  have exact := Solver.ofTableau_exact alike.wellFormed (alike.modulus.symm ▸ primes) built
  rw [alike.modulus] at exact
  obtain ⟨final', answer, run, known, answers⟩ := Solver.solve_spec (alike.fresh built) exact
  obtain ⟨rfl, rfl⟩ := Prod.mk.inj (Except.ok.inj (run.symm.trans solved))
  obtain ⟨_, _, _, _, absurd⟩ | ⟨divided, reads⟩ := answers
  · cases absurd
  obtain ⟨length, less, holds⟩ := (solution_iff alike.shaped alike.modulus point).mp solution
  rw [alike.unknowns] at length
  rw [alike.modulus]
  exact (Verdict.keeps_iff_holds known.toStepped divided reads length less).mpr
    ((known.kept (clear.alike h alike)).2 _ holds)

/-- Over a prime modulus every run stays clear. -/
theorem Tableau.StaysClear.of_prime (prime : m.Prime) (h : t.IsTable m n) : t.StaysClear := by
  intro column hc s reached
  rw [h.unknowns] at hc
  obtain ⟨e, run, _, reduced⟩ := Checked.foldlM_range eliminateColumn t column
    (fun k s => s.IsTable m n ∧ s.Reduced k) ⟨h, reduced_zero t⟩
    (by
      rintro k hk s _ ⟨table, reduced⟩
      obtain ⟨s', step, table', ⟨reduced', _⟩ | ⟨r, hr, settled, nonunit⟩⟩ :=
        eliminateColumn_reduced table (by omega : k < n) reduced
      · exact ⟨s', step, table', reduced'⟩
      · have unit := coprime_of_entry prime table' (table'.unknowns ▸ hr) settled.2
        exact absurd ((ZMod.isUnit_iff_coprime _ _).mpr unit) nonunit)
  obtain rfl : e = s := Except.ok.inj (run.symm.trans reached)
  exact reduced.offersClear

/-- Whether solutions are lost shows in the unit points, and none is lost in a run that stays clear,
as every run over a prime modulus does. -/
theorem solutions_kept_iff {settings : Settings} (wf : t.WellFormed) :
    (KeepsSolutions settings t ↔ ∀ j < t.unknowns,
      KeepsPoint settings (t.withColumn j) (unitPoint t.modulus t.unknowns j)) ∧
    ((Prime.test t.modulus = .ok true →
        t.modulus.Prime ∨ settings.inverseTableLimit < t.modulus) →
      t.StaysClear → KeepsSolutions settings t) ∧
    (t.modulus.Prime → t.StaysClear ∧ KeepsSolutions settings t) := by
  have h : t.IsTable t.modulus t.unknowns := ⟨wf, rfl, rfl⟩
  refine ⟨⟨fun keeps j hj => ?_, keepsSolutions_of_units wf⟩,
    keepsSolutions_of_staysClear wf, fun prime => ?_⟩
  · exact keeps _ (withColumn_spec h hj).1 _ (withColumn_solution h hj)
  · have clear := StaysClear.of_prime prime h
    exact ⟨clear, keepsSolutions_of_staysClear wf (fun _ => Or.inl prime) clear⟩

/-- A pivot is wiped out on the way, and still nothing is lost. -/
theorem solutions_kept_mod_four :
    KeepsSolutions .default ⟨4, 3, #[2, 3, 1, 0, 0, 2, 2, 0, 0, 0, 0, 0]⟩ := by
  have composite : Prime.test 4 ≠ .ok true := by decide +kernel
  have clear : (⟨4, 3, #[2, 3, 1, 0, 0, 2, 2, 0, 0, 0, 0, 0]⟩ : Tableau).StaysClear := by
    have steps : ∀ column < 3, ∃ s,
        (⟨4, 3, #[2, 3, 1, 0, 0, 2, 2, 0, 0, 0, 0, 0]⟩ : Tableau).eliminateUpTo column = .ok s ∧
          s.OffersClear column := by
      intro column hc
      interval_cases column
      · exact ⟨⟨4, 3, #[2, 3, 1, 0, 0, 2, 2, 0, 0, 0, 0, 0]⟩, by decide, by decide⟩
      · exact ⟨⟨4, 3, #[2, 3, 1, 0, 0, 2, 2, 0, 0, 0, 0, 0]⟩, by decide, by decide⟩
      · exact ⟨⟨4, 3, #[0, 0, 0, 0, 0, 2, 2, 0, 0, 0, 0, 0]⟩, by decide +kernel, by decide⟩
    intro column hc s reached
    obtain ⟨s', run, clear⟩ := steps column hc
    obtain rfl : s' = s := Except.ok.inj (run.symm.trans reached)
    exact clear
  exact (solutions_kept_iff ⟨by decide, by decide, by decide, by decide, by decide⟩).2.1
    (fun prime => absurd prime composite) clear

/-- Column two wipes out the pivot of the first row. Column three takes that row again, which still
names column one, and what it has there is not taken from the last row. -/
def lossyRows : List (List Nat) :=
  [[2, 1, 1, 0, 1, 1],
   [0, 0, 0, 0, 0, 0],
   [0, 0, 2, 1, 2, 0],
   [0, 0, 0, 0, 0, 0],
   [0, 0, 0, 1, 0, 0]]

/-- The point solves the system, and the answer is that nothing does. -/
theorem solution_lost_mod_four :
    Solves 4 (lossyRows.map (List.map Int.ofNat)) [0, 1, 0, 0, 0] ∧
      ∃ s final, Solver.ofResidues 4 lossyRows .default = .ok (.ok s) ∧
        s.solve = .ok (final, .ok (.inconsistent 4 2)) := by
  refine ⟨by decide, ⟨stored 4 lossyRows, ⟨4, none⟩, 2 ^ 20, false, .loaded⟩,
    ⟨stored 4 [[0, 0, 0, 0, 0, 0], [0, 0, 0, 0, 0, 0], [0, 0, 2, 0, 2, 2], [0, 2, 0, 1, 0, 2],
      [0, 0, 0, 0, 0, 2]], ⟨4, none⟩, 2 ^ 20, false, .resolved⟩, ?_, ?_⟩
  · decide +kernel
  · decide +kernel

end LinearCongruences
