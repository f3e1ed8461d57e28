import Mathlib
import LinearCongruences.Proofs.Verdicts

/-! What an answer depends on. Over a prime modulus a column is free exactly if two solutions agree
after it and differ in it, whatever rows the pivots were taken from. So systems with the same
solutions get the same answer, although the relations of a family may be written differently. -/
namespace LinearCongruences

/-- The same kind of answer with the same content. Two families have the same free columns and
assign the same points, and may have different relations. -/
def Verdict.Agrees : Verdict → Verdict → Prop
  | .inconsistent _ _, .inconsistent _ _ => True
  | .unique values, .unique values' => values = values'
  | .infinite f, .infinite g =>
    f.freeColumns = g.freeColumns ∧ ∀ chosen, f.assign chosen = g.assign chosen
  | _, _ => False

variable {m n : Nat} {t u d e : Tableau} {x y : List Nat}

namespace Tableau

theorem Solution.getD_lt (h : d.IsTable m n) (hx : d.Solution x) (c : Nat) : x.getD c 0 < m := by
  have less := ((solution_iff h.shaped h.modulus x).mp hx).2.1
  by_cases inside : c < x.length
  · rw [List.getD_eq_getElem _ _ inside]
    exact less _ (List.getElem_mem inside)
  · rw [List.getD_eq_default _ _ (Nat.le_of_not_lt inside)]
    exact h.pos

theorem Solution.getD_eq (h : d.IsTable m n) (hx : d.Solution x) (hy : d.Solution y) {c : Nat}
    (same : classes m x c = classes m y c) : x.getD c 0 = y.getD c 0 :=
  Residue.eq_of_cast_eq (hx.getD_lt h c) (hy.getD_lt h c) same

/-- Solutions that agree in the free columns after a pivot agree at the pivot. -/
theorem Solution.getD_eq_of_later (h : d.IsTable m n) (stairs : d.Staircase n)
    (hx : d.Solution x) (hy : d.Solution y) {r : Nat} (hr : r < n) (pivot : d.entry r r ≠ 0)
    (coprime : (d.entry r r).Coprime m)
    (later : ∀ c ∈ d.pivotFreeRows, r < c → x.getD c 0 = y.getD c 0) :
    x.getD r 0 = y.getD r 0 := by
  have hr' : r < d.unknowns := h.unknowns.symm ▸ hr
  have row : ∀ z, d.Solution z → (d.relationAt r).defect m (classes m z) = 0 := by
    intro z hz
    rw [relationAt_defect hr']
    exact ((solution_iff h.shaped h.modulus z).mp hz).2.2 r hr'
  apply hx.getD_eq h hy
  apply Staircase.eq_of_later (h.unknowns.symm ▸ stairs) hr' pivot coprime (row x hx) (row y hy)
  intro c free after
  exact congrArg Nat.cast (later c free after)

theorem Solution.getD_eq_zero (h : d.IsTable m n) (hx : d.Solution x) {c : Nat} (beyond : n ≤ c) :
    x.getD c 0 = 0 := by
  have size := ((solution_iff h.shaped h.modulus x).mp hx).1
  rw [h.unknowns] at size
  exact List.getD_eq_default _ _ (by omega)

/-- A free column has solutions that agree after it and differ in it: all free values zero, and then
a one in this column alone. -/
theorem exists_differ_at_free (h : d.IsTable m n) (stairs : d.Staircase n)
    (empty : ∀ r < d.unknowns, d.entry r r = 0 → ∀ c ≤ d.unknowns, d.entry r c = 0)
    (coprime : ∀ q ∈ d.family.relations, q.coefficient.Coprime m) (large : 1 < m) {c : Nat}
    (member : c ∈ d.pivotFreeRows) :
    ∃ x y, d.Solution x ∧ d.Solution y ∧ (∀ j, c < j → x.getD j 0 = y.getD j 0) ∧
      x.getD c 0 ≠ y.getD c 0 := by
  obtain ⟨point, _, free, bij⟩ := assign_bijOn h stairs empty coprime
  have zeros := map_mem_choices (f := fun _ => 0) (fun _ => h.pos) d.family.freeColumns
  have ones := map_mem_choices (m := m) (f := fun j => if j = c then 1 else 0)
    (fun j => by split <;> omega) d.family.freeColumns
  have atZeros := List.map_inj_left.mp (free _ zeros)
  have atOnes := List.map_inj_left.mp (free _ ones)
  have hx := bij.mapsTo zeros
  have hy := bij.mapsTo ones
  have agree : ∀ j ∈ d.pivotFreeRows, c < j →
      (point (d.family.freeColumns.map fun _ => 0)).getD j 0 =
      (point (d.family.freeColumns.map fun j => if j = c then 1 else 0)).getD j 0 := by
    intro j inside after
    rw [atZeros j inside, atOnes j inside, if_neg (by omega)]
  refine ⟨_, _, hx, hy, fun j after => ?_, ?_⟩
  · rcases Nat.lt_or_ge j n with inside | beyond
    · by_cases zero : d.entry j j = 0
      · exact agree j (mem_pivotFreeRows.mpr ⟨h.unknowns.symm ▸ inside, zero⟩) after
      · have unit := coprime _ (mem_relations.mpr ⟨j, h.unknowns.symm ▸ inside, zero, rfl⟩)
        apply Solution.getD_eq_of_later h stairs hx hy inside zero unit
        exact fun k free later => agree k free (Nat.lt_trans after later)
    · rw [hx.getD_eq_zero h beyond, hy.getD_eq_zero h beyond]
  · rw [atZeros c member, atOnes c member, if_pos rfl]
    exact Nat.zero_ne_one

/-- A column is free exactly if some solutions agree after it and differ in it. -/
theorem mem_pivotFreeRows_iff (h : d.IsTable m n) (stairs : d.Staircase n)
    (empty : ∀ r < d.unknowns, d.entry r r = 0 → ∀ c ≤ d.unknowns, d.entry r c = 0)
    (coprime : ∀ q ∈ d.family.relations, q.coefficient.Coprime m) (large : 1 < m) {c : Nat} :
    c ∈ d.pivotFreeRows ↔ ∃ x y, d.Solution x ∧ d.Solution y ∧
      (∀ j, c < j → x.getD j 0 = y.getD j 0) ∧ x.getD c 0 ≠ y.getD c 0 := by
  constructor
  · exact exists_differ_at_free h stairs empty coprime large
  · rintro ⟨x, y, hx, hy, later, differ⟩
    have inside : c < n := by
      by_contra beyond
      exact differ ((hx.getD_eq_zero h (by omega)).trans (hy.getD_eq_zero h (by omega)).symm)
    have hc : c < d.unknowns := h.unknowns.symm ▸ inside
    apply mem_pivotFreeRows.mpr
    refine ⟨hc, ?_⟩
    by_contra pivot
    have unit := coprime _ (mem_relations.mpr ⟨c, hc, pivot, rfl⟩)
    exact differ (Solution.getD_eq_of_later h stairs hx hy inside pivot unit
      fun j _ after => later j after)

/-- Each choice of free values, reduced or not, gives a solution. -/
theorem assign_solution (h : d.IsTable m n) (stairs : d.Staircase n)
    (empty : ∀ r < d.unknowns, d.entry r r = 0 → ∀ c ≤ d.unknowns, d.entry r c = 0)
    (coprime : ∀ q ∈ d.family.relations, q.coefficient.Coprime m) {chosen : List Nat}
    (length : chosen.length = d.family.freeColumns.length) :
    ∃ point, d.family.assign chosen = .ok (.ok point) ∧ d.Solution point ∧
      ∀ p ∈ d.family.freeColumns.zip chosen, classes m point p.1 = p.2 := by
  obtain ⟨outcome, run, result⟩ := Family.assign_spec h.pos h.bound (family_fits h) length
  cases outcome with
  | error refusal =>
    obtain ⟨q, member, noncoprime, _⟩ := result
    exact absurd (coprime q member) noncoprime
  | ok point =>
    obtain ⟨size, less, _, meaning⟩ := result
    obtain ⟨placed, relations⟩ :=
      meaning (h.unknowns.symm ▸ stairs : d.Staircase d.unknowns).parametric
    refine ⟨point, run, ?_, placed⟩
    rw [solution_iff h.shaped h.modulus]
    exact ⟨size.trans h.unknowns.symm, less, (holds_iff_relations empty _).mpr relations⟩

end Tableau

open Tableau

theorem Family.assign_of_length {f : Family} {chosen : List Nat}
    (length : chosen.length ≠ f.freeColumns.length) : f.assign chosen =
      .ok (.error (.malformed (.freeValueCount f.freeColumns.length chosen.length))) := by
  rw [assign, if_pos length]
  rfl

/-- Families read off tables with the same solutions agree. -/
theorem Tableau.Finished.family_agrees (finished : Finished m n t d) (finished' : Finished m n u e)
    (prime : m.Prime) (same : ∀ x, d.Solution x ↔ e.Solution x)
    (empty : ∀ r < d.unknowns, d.entry r r = 0 → ∀ c ≤ d.unknowns, d.entry r c = 0)
    (empty' : ∀ r < e.unknowns, e.entry r r = 0 → ∀ c ≤ e.unknowns, e.entry r c = 0) :
    (Verdict.infinite d.family).Agrees (.infinite e.family) := by
  have h := finished.table
  have h' := finished'.table
  have stairs := finished.reduced.toStaircase
  have stairs' := finished'.reduced.toStaircase
  have units := finished.coprime prime
  have units' := finished'.coprime prime
  have columns : d.family.freeColumns = e.family.freeColumns := by
    change d.pivotFreeRows = e.pivotFreeRows
    rw [pivotFreeRows, pivotFreeRows, h.unknowns, h'.unknowns]
    apply List.filter_congr
    intro c inside
    have hc := List.mem_range.mp inside
    have canonical := mem_pivotFreeRows_iff (c := c) h stairs empty units prime.one_lt
    simp only [same] at canonical
    have free := canonical.trans (mem_pivotFreeRows_iff h' stairs' empty' units' prime.one_lt).symm
    rw [mem_pivotFreeRows, mem_pivotFreeRows, h.unknowns, h'.unknowns] at free
    simpa [hc] using free
  refine ⟨columns, fun chosen => ?_⟩
  by_cases length : chosen.length = d.family.freeColumns.length
  · obtain ⟨point, run, solution, placed⟩ := assign_solution h stairs empty units length
    obtain ⟨point', run', solution', placed'⟩ :=
      assign_solution h' stairs' empty' units' (length.trans (congrArg _ columns))
    have solution'' := (same point').mpr solution'
    have free : ∀ c ∈ d.family.freeColumns, point.getD c 0 = point'.getD c 0 := by
      intro c member
      obtain ⟨value, pair⟩ := Family.exists_mem_zip length member
      apply solution.getD_eq h solution''
      exact (placed _ pair).trans (placed' _ (columns ▸ pair)).symm
    rw [run, run', solution_ext h stairs empty units solution solution'' free]
  · rw [Family.assign_of_length length, Family.assign_of_length (columns ▸ length), columns]

/-- Descriptions of the same solutions are of one kind. -/
theorem Tableau.Finished.agrees (finished : Finished m n t d) (finished' : Finished m n u e)
    (prime : m.Prime) (h : t.IsTable m n) (h' : u.IsTable m n)
    (same : ∀ x, t.Solution x ↔ u.Solution x) {v w : Verdict} (reads : d.ReadsAs (.ok v))
    (reads' : e.ReadsAs (.ok w)) : v.Agrees w := by
  have describes := finished.describes prime h reads
  have describes' := finished'.describes prime h' reads'
  rw [← funext fun x => propext (same x)] at describes'
  cases v with
  | inconsistent row constant =>
    cases w with
    | inconsistent row' constant' => exact trivial
    | unique values => exact absurd ((describes' values).mpr rfl) (describes values)
    | infinite g =>
      obtain ⟨x, _, first, _⟩ := describes'
      exact absurd first (describes x)
  | unique values =>
    cases w with
    | inconsistent row constant => exact absurd ((describes values).mpr rfl) (describes' values)
    | unique values' => exact (describes' values).mp ((describes values).mpr rfl)
    | infinite g =>
      obtain ⟨x, y, first, second, different⟩ := describes'
      exact different (((describes x).mp first).trans ((describes y).mp second).symm)
  | infinite f =>
    cases w with
    | inconsistent row constant =>
      obtain ⟨x, _, first, _⟩ := describes
      exact absurd first (describes' x)
    | unique values =>
      obtain ⟨x, y, first, second, different⟩ := describes
      exact different (((describes' x).mp first).trans ((describes' y).mp second).symm)
    | infinite g =>
      obtain ⟨_, empty, rfl⟩ := reads
      obtain ⟨_, empty', rfl⟩ := reads'
      refine finished.family_agrees finished' prime (fun x => ?_) empty empty'
      rw [← finished.solution_iff h, ← finished'.solution_iff h', same]

/-- Over a prime modulus the answer depends on the solutions alone. -/
theorem answer_determined_by_solutions (wf : t.WellFormed) (wf' : u.WellFormed)
    (prime : t.modulus.Prime) (modulus : u.modulus = t.modulus) (unknowns : u.unknowns = t.unknowns)
    (same : ∀ x, t.Solution x ↔ u.Solution x) (settings settings' : Settings)
    (room : InverseLookup.HasRoom t.modulus settings.inverseTableLimit)
    (room' : InverseLookup.HasRoom t.modulus settings'.inverseTableLimit) :
    ∃ s s' final final' v w, Solver.ofTableau t settings = .ok (.ok s) ∧
      Solver.ofTableau u settings' = .ok (.ok s') ∧ s.solve = .ok (final, .ok v) ∧
      s'.solve = .ok (final', .ok w) ∧ v.Agrees w := by
  have h : t.IsTable t.modulus t.unknowns := ⟨wf, rfl, rfl⟩
  have h' : u.IsTable t.modulus t.unknowns := ⟨wf', modulus, unknowns⟩
  obtain ⟨s, built, fresh, exact⟩ := Solver.ofTableau_prime h prime room
  obtain ⟨s', built', fresh', exact'⟩ := Solver.ofTableau_prime h' prime room'
  obtain ⟨final, v, run, finished, reads⟩ := Solver.solve_finished prime fresh exact
  obtain ⟨final', w, run', finished', reads'⟩ := Solver.solve_finished prime fresh' exact'
  exact ⟨s, s', final, final', v, w, built, built', run, run',
    finished.agrees finished' prime h h' same reads reads'⟩

/-- A system and a multiple of its first row, which have different relations. -/
theorem same_answer_mod_five :
    (Verdict.infinite ⟨5, 3, [1, 2], [⟨0, 1, [(1, 2), (2, 3)], 4⟩]⟩).Agrees
      (.infinite ⟨5, 3, [1, 2], [⟨0, 3, [(1, 1), (2, 4)], 2⟩]⟩) := by
  have prime : Nat.Prime 5 := by norm_num
  have wf : (⟨5, 3, #[1, 2, 3, 4, 2, 4, 1, 3, 0, 0, 0, 0]⟩ : Tableau).WellFormed :=
    ⟨by decide, by decide, by decide, by decide, by decide⟩
  have wf' : (⟨5, 3, #[0, 0, 0, 0, 3, 1, 4, 2, 0, 0, 0, 0]⟩ : Tableau).WellFormed :=
    ⟨by decide, by decide, by decide, by decide, by decide⟩
  have same : ∀ x, (⟨5, 3, #[1, 2, 3, 4, 2, 4, 1, 3, 0, 0, 0, 0]⟩ : Tableau).Solution x ↔
      (⟨5, 3, #[0, 0, 0, 0, 3, 1, 4, 2, 0, 0, 0, 0]⟩ : Tableau).Solution x := by
    intro x
    apply and_congr_right
    intro length
    obtain ⟨a, b, c, rfl⟩ := List.length_eq_three.mp length
    apply and_congr_right
    intro _
    simp [integerRows, rows, place, width, SolvesRow, leftSide, List.range_succ]
    omega
  obtain ⟨s, s', final, final', v, w, built, built', run, run', agrees⟩ :=
    answer_determined_by_solutions wf wf' prime rfl rfl same .default .default
      (.of_limit (by decide)) (.of_limit (by decide))
  have loaded : Solver.ofTableau ⟨5, 3, #[1, 2, 3, 4, 2, 4, 1, 3, 0, 0, 0, 0]⟩ .default =
      .ok (.ok ⟨⟨5, 3, #[1, 2, 3, 4, 2, 4, 1, 3, 0, 0, 0, 0]⟩, ⟨5, some ⟨5, #[0, 1, 3, 2, 4]⟩⟩,
        2 ^ 20, false, .loaded⟩) := by decide +kernel
  have loaded' : Solver.ofTableau ⟨5, 3, #[0, 0, 0, 0, 3, 1, 4, 2, 0, 0, 0, 0]⟩ .default =
      .ok (.ok ⟨⟨5, 3, #[0, 0, 0, 0, 3, 1, 4, 2, 0, 0, 0, 0]⟩, ⟨5, some ⟨5, #[0, 1, 3, 2, 4]⟩⟩,
        2 ^ 20, false, .loaded⟩) := by decide +kernel
  obtain rfl := Except.ok.inj (Except.ok.inj (loaded.symm.trans built))
  obtain rfl := Except.ok.inj (Except.ok.inj (loaded'.symm.trans built'))
  have solved : Solver.solve ⟨⟨5, 3, #[1, 2, 3, 4, 2, 4, 1, 3, 0, 0, 0, 0]⟩,
        ⟨5, some ⟨5, #[0, 1, 3, 2, 4]⟩⟩, 2 ^ 20, false, .loaded⟩ =
      .ok (⟨⟨5, 3, #[1, 2, 3, 4, 0, 0, 0, 0, 0, 0, 0, 0]⟩,
        ⟨5, some ⟨5, #[0, 1, 3, 2, 4]⟩⟩, 2 ^ 20, false, .resolved⟩,
        .ok (.infinite ⟨5, 3, [1, 2], [⟨0, 1, [(1, 2), (2, 3)], 4⟩]⟩)) := by decide +kernel
  have solved' : Solver.solve ⟨⟨5, 3, #[0, 0, 0, 0, 3, 1, 4, 2, 0, 0, 0, 0]⟩,
        ⟨5, some ⟨5, #[0, 1, 3, 2, 4]⟩⟩, 2 ^ 20, false, .loaded⟩ =
      .ok (⟨⟨5, 3, #[3, 1, 4, 2, 0, 0, 0, 0, 0, 0, 0, 0]⟩,
        ⟨5, some ⟨5, #[0, 1, 3, 2, 4]⟩⟩, 2 ^ 20, false, .resolved⟩,
        .ok (.infinite ⟨5, 3, [1, 2], [⟨0, 3, [(1, 1), (2, 4)], 2⟩]⟩)) := by decide +kernel
  obtain rfl := Except.ok.inj (Prod.mk.inj (Except.ok.inj (solved.symm.trans run))).2
  obtain rfl := Except.ok.inj (Prod.mk.inj (Except.ok.inj (solved'.symm.trans run'))).2
  exact agrees

end LinearCongruences
