import Mathlib
import LinearCongruences.Proofs.Verdicts

/-! The shape of a reported family. Whatever the modulus, the free columns and the columns of the
relations share out the unknowns, and residuals name free columns only. So a lookup finds what it
should, and a point does not depend on the order in which the relations are solved. -/
namespace LinearCongruences

namespace Tableau

/-- A column that is done and has a pivot is named by no other row. Rows from the present column on
name no column that is done. -/
structure Upright (t : Tableau) (column : Nat) : Prop where
  pivot_column : ∀ r < t.unknowns, t.Settled column r → ∀ i < t.unknowns, i ≠ r → t.entry i r = 0
  fresh_left : ∀ r < t.unknowns, column ≤ r → ∀ c < column, t.entry r c = 0

variable {m n w : Nat} {t t' : Tableau} {column r : Nat} {lookup : InverseLookup}

theorem upright_zero (t : Tableau) : t.Upright 0 where
  pivot_column := (reduced_zero t).pivot_column
  fresh_left := (reduced_zero t).fresh_left

/-- A pivot that has vanished may be swapped away and its row used again, and its column stays
without a pivot. -/
theorem eliminateColumn_upright (h : t.IsTable m n) (hc : column < n) (upright : t.Upright column) :
    ∃ t', t.eliminateColumn column = .ok t' ∧ t'.IsTable m n ∧ t'.Upright (column + 1) := by
  obtain ⟨t', run, table, ⟨same, none⟩ | ⟨p, s, swap, clearing⟩⟩ := eliminateColumn_cases h hc
  · subst same
    refine ⟨t', run, table, fun r hr settled => ?_, fresh_skip upright.fresh_left none⟩
    exact upright.pivot_column r hr (settled_of_skip none hr settled)
  · have start := upright.fresh_left column (h.unknowns.symm ▸ hc) (Nat.le_refl _)
    have alone := swap.pivot_column start (h.unknowns ▸ upright.pivot_column)
    refine ⟨t', run, table, ?_, clearing.fresh (swap.fresh upright.fresh_left)⟩
    intro r hr settled i hi other
    rw [table.unknowns] at hr hi
    by_cases here : r = column
    · subst here
      exact clearing.column_zero hi other
    · have before : r < column := by
        have := settled.1
        omega
      apply clearing.left_zero hi before
      exact alone r hr (clearing.settled_of before settled) i hi other

theorem eliminate_upright (h : t.IsTable m n) :
    ∃ e, t.eliminate = .ok e ∧ e.IsTable m n ∧ e.Upright n := by
  obtain ⟨e, run, result⟩ := Checked.foldlM_range eliminateColumn t n
    (fun k s => s.IsTable m n ∧ s.Upright k) ⟨h, upright_zero t⟩
    (by
      rintro k hk s _ ⟨table, upright⟩
      exact eliminateColumn_upright table hk upright)
  exact ⟨e, by rw [eliminate, h.unknowns, run], result⟩

theorem Divided.upright (h : t.IsTable m n) (hr : r < n) (needs : t.NeedsDivision r)
    (divided : Divided m n w t t' r) (upright : t.Upright n) : t'.Upright n := by
  have hn := (Divided.isTable divided).unknowns
  constructor
  · intro i hi settled j hj other
    rw [hn] at hi hj
    rw [Divided.entry_eq h divided hj (Nat.le_of_lt hi) (by omega) (by omega)]
    have settled' := (Divided.settled_iff h hr needs divided hi).mp settled
    exact upright.pivot_column i (h.unknowns ▸ hi) settled' j (h.unknowns ▸ hj) other
  · intro i hi after
    omega

end Tableau

open Tableau

variable {m n : Nat}

/-- The table that a run ends with is upright, if only because no step can spoil that. -/
theorem Solver.solve_upright {s : Solver} {t : Tableau} (fresh : Fresh m n t s) :
    ∃ final answer, s.solve = .ok (final, answer) ∧ final.tableau.IsTable m n ∧
      final.tableau.Upright n ∧ Answers m n s.lookup final.tableau answer := by
  obtain ⟨e, eliminated, table, upright⟩ := eliminate_upright fresh.table
  obtain ⟨d, outcome, resolved, table', upright', result⟩ := resolveFrom_spec fresh.total
    (P := fun d => d.Upright n)
    (fun _ _ _ _ table hr needs _ divided upright =>
      Divided.upright table hr needs divided upright)
    n table upright (Nat.zero_add n) fun i hi => absurd hi (Nat.not_lt_zero i)
  obtain ⟨final, answer, run, rfl, answers⟩ :=
    solve_eq fresh eliminated table.unknowns resolved table' result
  exact ⟨final, answer, run, table', upright', answers⟩

namespace Family

/-! Looking up a column. -/

/-- The halving ends at the place of an entry, if the entries ascend. -/
theorem bisect_eq {xs : List Nat} (ascending : xs.Pairwise (· < ·)) (x base size : Nat) {i : Nat}
    (hi : i < xs.length) (found : xs[i] = x) (low : base ≤ i) (high : i < base + size)
    (fits : base + size ≤ xs.length) : bisect xs.toArray x base size = i := by
  have less : ∀ j k (hj : j < xs.length) (hk : k < xs.length), j < k → xs[j] < xs[k] :=
    fun j k hj hk before => List.pairwise_iff_getElem.mp ascending j k hj hk before
  fun_induction bisect xs.toArray x base size with
  | case1 base size large half middle ih =>
    have halves : half = size / 2 := rfl
    have place : middle = base + half := rfl
    have inside : middle < xs.length := by omega
    have reads : xs.toArray.getD middle 0 = xs[middle] := by simp [inside]
    by_cases above : xs.toArray.getD middle 0 > x
    · -- the entry stands before the middle, so the lower half holds it
      have before : i < middle := by
        by_contra after
        rcases Nat.lt_or_eq_of_le (show middle ≤ i by omega) with left | same
        · have := less middle i inside hi left
          omega
        · subst same
          omega
      rw [dif_pos above] at ih
      rw [if_pos above]
      exact ih low (by omega) (by omega)
    · have after : middle ≤ i := by
        by_contra before
        have := less i middle hi inside (by omega)
        omega
      rw [dif_neg above] at ih
      rw [if_neg above]
      exact ih after (by omega) (by omega)
  | case2 base size small => omega

theorem isFree_iff {f : Family} (ascending : f.freeColumns.Pairwise (· < ·)) (column : Nat) :
    f.isFree column = true ↔ column ∈ f.freeColumns := by
  simp only [isFree, beq_iff_eq, List.getElem?_toArray, List.size_toArray]
  constructor
  · exact List.mem_of_getElem?
  · intro member
    obtain ⟨i, hi, found⟩ := List.mem_iff_getElem.mp member
    have place := bisect_eq ascending column 0 f.freeColumns.length hi found (Nat.zero_le i)
      (by omega) (by omega)
    simp [place, hi, found]

theorem relation_isSome_iff (f : Family) (column : Nat) :
    (f.relation column).isSome = true ↔ column ∈ f.relations.map Relation.column := by
  simp [relation]

/-! Two arrays that agree at the known columns. What is read is known, so they lead to the same. -/

structure Agree (n : Nat) (known : Nat → Prop) (values values' : Array Nat) : Prop where
  size : values.size = n
  size' : values'.size = n
  same : ∀ c, known c → values[c]? = values'[c]?

variable {known : Nat → Prop} {values values' : Array Nat} {β : Type}

theorem Agree.get_eq (agree : Agree n known values values') {c : Nat} (hc : known c) :
    Checked.get values c = Checked.get values' c := by
  have same := agree.same c hc
  by_cases inside : c < n
  · simpa [Checked.get, agree.size, agree.size', inside] using same
  · simp [Checked.get, agree.size, agree.size', inside]

/-- A column that is set becomes known. -/
theorem Agree.set_bind (agree : Agree n known values values') (c x : Nat)
    {k : Array Nat → Checked β}
    (next : ∀ w w', Agree n (fun d => known d ∨ d = c) w w' → k w = k w') :
    (Checked.set values c x >>= k) = (Checked.set values' c x >>= k) := by
  by_cases inside : c < n
  · have first : c < values.size := agree.size ▸ inside
    have second : c < values'.size := agree.size' ▸ inside
    simp only [Checked.set_eq first, Checked.set_eq second, Checked.ok_bind]
    apply next
    constructor
    · simp [agree.size]
    · simp [agree.size']
    · intro d either
      by_cases here : c = d
      · subst here
        simp [first, second]
      · have before : known d := either.resolve_right (Ne.symm here)
        simpa [here] using agree.same d before
  · simp [Checked.set, agree.size, agree.size', inside]

theorem Agree.place_bind (m : Nat) (pairs : List (Nat × Nat))
    (agree : Agree n known values values') {k : Array Nat → Checked β}
    (next : ∀ w w', Agree n (fun d => known d ∨ d ∈ pairs.map Prod.fst) w w' → k w = k w') :
    (place m pairs values >>= k) = (place m pairs values' >>= k) := by
  induction pairs generalizing known values values' with
  | nil =>
    apply next
    simpa using agree
  | cons pair rest ih =>
    obtain ⟨c, x⟩ := pair
    simp only [place, bind_assoc]
    congr 1
    funext reduced
    apply agree.set_bind
    intro w w' agree'
    apply ih agree'
    intro v v' last
    apply next
    simpa [or_assoc] using last

theorem Agree.evaluate_eq (agree : Agree n known values values') (m total : Nat)
    {residual : List (Nat × Nat)} (reads : ∀ term ∈ residual, known term.1) :
    evaluate m values total residual = evaluate m values' total residual := by
  induction residual generalizing total with
  | nil => rfl
  | cons term rest ih =>
    obtain ⟨first, others⟩ := List.forall_mem_cons.mp reads
    simp only [evaluate, agree.get_eq first, ih _ others]

theorem Agree.solveAll_eq (agree : Agree n known values values') (m : Nat)
    {relations : List Relation} (reads : ∀ r ∈ relations, ∀ term ∈ r.residual, known term.1)
    (covered : ∀ c < n, known c ∨ c ∈ relations.map Relation.column) :
    solveAll m relations values = solveAll m relations values' := by
  induction relations generalizing known values values' with
  | nil =>
    have same : values = values' := by
      apply Array.ext_getElem?
      intro c
      by_cases inside : c < n
      · exact agree.same c (by simpa using covered c inside)
      · simp [agree.size, agree.size', inside]
    rw [same]
  | cons r rest ih =>
    obtain ⟨first, others⟩ := List.forall_mem_cons.mp reads
    have solved : solveFor m values r = solveFor m values' r := by
      simp only [solveFor, agree.evaluate_eq m 0 first]
    simp only [solveAll, solved]
    congr 1
    funext outcome
    cases outcome with
    | error refusal => rfl
    | ok value =>
      apply agree.set_bind
      intro w w' agree'
      apply ih agree'
      · intro q member term inside
        exact Or.inl (others q member term inside)
      · intro c inside
        simpa [or_assoc] using covered c inside

/-- The assignment on an array that holds any numbers to begin with. -/
def assignFrom (f : Family) (start : Array Nat) (freeValues : List Nat) :
    Checked (Except Refusal (List Nat)) := do
  let expected := f.freeColumns.length
  if freeValues.length ≠ expected then
    return .error (.malformed (.freeValueCount expected freeValues.length))
  let chosen ← place f.modulus (f.freeColumns.zip freeValues) start
  let values ← solveAll f.modulus f.relations chosen
  return values.map Array.toList

theorem assign_eq_assignFrom (f : Family) (chosen : List Nat) :
    f.assign chosen = f.assignFrom (Array.replicate f.unknowns 0) chosen :=
  rfl

/-- Relations over free columns that leave no unknown out. -/
structure Closed (n : Nat) (f : Family) : Prop where
  unknowns : f.unknowns = n
  residual : ∀ r ∈ f.relations, ∀ term ∈ r.residual, term.1 ∈ f.freeColumns
  covered : ∀ c < n, c ∈ f.freeColumns ∨ c ∈ f.relations.map Relation.column

/-- Numbers that the array holds to begin with are overwritten before they are read. They may be too
large for any step to compute with. -/
theorem Closed.assignFrom_eq {f : Family} (closed : f.Closed n) {start : Array Nat}
    (size : start.size = n) (chosen : List Nat) : f.assignFrom start chosen = f.assign chosen := by
  rw [assign_eq_assignFrom, assignFrom, assignFrom]
  by_cases length : chosen.length = f.freeColumns.length
  · have columns : (f.freeColumns.zip chosen).map Prod.fst = f.freeColumns :=
      List.map_fst_zip (by omega)
    have agree : Agree n (fun _ => False) start (Array.replicate f.unknowns 0) :=
      ⟨size, by simp [closed.unknowns], fun _ absurd => absurd.elim⟩
    simp only [length, ne_eq, not_true_eq_false, if_false]
    apply agree.place_bind
    intro w w' placed
    simp only [false_or, columns] at placed
    rw [placed.solveAll_eq f.modulus closed.residual closed.covered]
  · simp [length]

/-! The order of the relations. -/

variable {f : Family} {relations : List Relation} {chosen : List Nat}

/-- The first relation that cannot be solved for its unknown. -/
def obstacle (m : Nat) (relations : List Relation) : Option Relation :=
  relations.find? fun r => ¬ r.coefficient.Coprime m

theorem obstacle_eq_none (m : Nat) (relations : List Relation) :
    obstacle m relations = none ↔ ∀ r ∈ relations, r.coefficient.Coprime m := by
  simp [obstacle]

/-- The run ends at the first obstacle. -/
theorem solveAll_of_obstacle (hm : 0 < m) (bound : m < wordBound)
    (fits : ∀ r ∈ relations, r.Fits m n) (point : IsPoint m n values) {r : Relation}
    (first : obstacle m relations = some r) :
    solveAll m relations values = .ok (.error (.notInvertible r.column r.coefficient m)) := by
  induction relations generalizing values with
  | nil => cases first
  | cons q rest ih =>
    obtain ⟨here, others⟩ := List.forall_mem_cons.mp fits
    obtain ⟨outcome, run, solved⟩ := solveFor_spec hm bound point here
    rw [solveAll, run, Checked.ok_bind]
    cases outcome with
    | error refusal =>
      obtain ⟨noncoprime, rfl⟩ := solved
      simp [obstacle, noncoprime] at first
      subst first
      rfl
    | ok v =>
      obtain ⟨less, coprime, _⟩ := solved
      obtain ⟨values₁, set, point₁, _⟩ := point.set_spec here.column less
      simp only [set, Checked.ok_bind]
      apply ih others point₁
      simpa [obstacle, coprime] using first

theorem assign_of_obstacle (hm : 0 < m) (bound : m < wordBound) (fits : f.Fits m n)
    (length : chosen.length = f.freeColumns.length) {r : Relation}
    (first : obstacle m f.relations = some r) :
    f.assign chosen = .ok (.error (.notInvertible r.column r.coefficient m)) := by
  obtain ⟨values, point, _, _, assigned⟩ := assign_eq hm fits length
  rw [assigned, solveAll_of_obstacle hm bound fits.relations point first]
  rfl

/-- Free values leave no choice for the other unknowns. -/
theorem Closed.eq_of_free (closed : f.Closed n)
    (coprime : ∀ r ∈ f.relations, r.coefficient.Coprime m) {x y : Nat → ZMod m}
    (hx : ∀ r ∈ f.relations, r.defect m x = 0) (hy : ∀ r ∈ f.relations, r.defect m y = 0)
    (free : ∀ c ∈ f.freeColumns, x c = y c) {c : Nat} (hc : c < n) : x c = y c := by
  rcases closed.covered c hc with inside | inside
  · exact free c inside
  · obtain ⟨r, member, rfl⟩ := List.mem_map.mp inside
    apply Relation.eq_of_defect (coprime r member) (hx r member) (hy r member)
    apply Relation.residualAt_congr
    intro term named
    exact free _ (closed.residual r member term named)

/-- Assignments by the same relations in another order give the same point. -/
theorem Closed.assigned_ext (closed : f.Closed n) (parametric : f.Parametric) {g : Family}
    (parametric' : g.Parametric) (same : ∀ r, r ∈ g.relations ↔ r ∈ f.relations)
    (columns : g.freeColumns = f.freeColumns) (length : chosen.length = f.freeColumns.length)
    {x y : List Nat} (hx : f.Assigned m n chosen (.ok x)) (hy : g.Assigned m n chosen (.ok y)) :
    y = x := by
  obtain ⟨sizex, lessx, coprime, meaningx⟩ := hx
  obtain ⟨sizey, lessy, _, meaningy⟩ := hy
  obtain ⟨placedx, holdsx⟩ := meaningx parametric
  obtain ⟨placedy, holdsy⟩ := meaningy parametric'
  rw [columns] at placedy
  apply List.ext_getElem (sizey.trans sizex.symm)
  intro c hc hc'
  apply Residue.eq_of_cast_eq (lessy _ (List.getElem_mem hc)) (lessx _ (List.getElem_mem hc'))
  have agree := closed.eq_of_free coprime (fun r member => holdsy r ((same r).mpr member)) holdsx
    (fun c member => ?_) (sizex ▸ hc')
  · simpa [classes, hc, hc'] using agree
  · obtain ⟨value, pair⟩ := exists_mem_zip length member
    exact (placedy _ pair).trans (placedx _ pair).symm

/-- The free columns and the columns of the relations ascend and share out the unknowns, and no
residual names the column of a relation. All numbers are reduced, and coefficients are not zero. -/
structure Regular (m n : Nat) (f : Family) : Prop where
  modulus : f.modulus = m
  unknowns : f.unknowns = n
  free_ascending : f.freeColumns.Pairwise (· < ·)
  columns_ascending : (f.relations.map Relation.column).Pairwise (· < ·)
  partition : (f.freeColumns ++ f.relations.map Relation.column).Perm (List.range n)
  residual : ∀ r ∈ f.relations, ∀ term ∈ r.residual, term.1 ∈ f.freeColumns
  coefficient : ∀ r ∈ f.relations, 0 < r.coefficient ∧ r.coefficient < m
  residual_coefficient : ∀ r ∈ f.relations, ∀ term ∈ r.residual, 0 < term.2 ∧ term.2 < m
  constant : ∀ r ∈ f.relations, r.constant < m

namespace Regular

variable (regular : f.Regular m n)

include regular

theorem mem_iff (c : Nat) :
    c ∈ f.freeColumns ∨ c ∈ f.relations.map Relation.column ↔ c < n := by
  rw [← List.mem_append, regular.partition.mem_iff, List.mem_range]

theorem disjoint {c : Nat} (free : c ∈ f.freeColumns) : c ∉ f.relations.map Relation.column := by
  have distinct := regular.partition.nodup_iff.mpr List.nodup_range
  exact List.disjoint_of_nodup_append distinct free

theorem fits (perm : relations.Perm f.relations) : ({ f with relations } : Family).Fits m n where
  modulus := regular.modulus
  unknowns := regular.unknowns
  free := fun c member => (regular.mem_iff c).mp (Or.inl member)
  relations := by
    intro r member
    have old : r ∈ f.relations := perm.mem_iff.mp member
    have column := (regular.mem_iff r.column).mp (Or.inr (List.mem_map_of_mem old))
    refine ⟨column, (regular.coefficient r old).2, regular.constant r old, ?_⟩
    intro term inside
    have free := regular.residual r old term inside
    exact ⟨(regular.mem_iff _).mp (Or.inl free), (regular.residual_coefficient r old term inside).2⟩

theorem closed (perm : relations.Perm f.relations) :
    ({ f with relations } : Family).Closed n where
  unknowns := regular.unknowns
  residual := fun r member => regular.residual r (perm.mem_iff.mp member)
  covered := by
    intro c hc
    rw [(perm.map Relation.column).mem_iff]
    exact (regular.mem_iff c).mpr hc

theorem parametric (perm : relations.Perm f.relations) :
    ({ f with relations } : Family).Parametric where
  distinct := regular.free_ascending.imp Nat.ne_of_lt
  free := by
    intro r member free
    exact regular.disjoint free (List.mem_map_of_mem (perm.mem_iff.mp member))
  independent := by
    constructor
    · apply (perm.map Relation.column).nodup_iff.mpr
      exact regular.columns_ascending.imp Nat.ne_of_lt
    · intro r member term inside q member' same
      have free := regular.residual r (perm.mem_iff.mp member) term inside
      rw [← same] at free
      exact regular.disjoint free (List.mem_map_of_mem (perm.mem_iff.mp member'))

/-- In any order the relations give the same point, if they give one at all. Otherwise the first one
without solution is reported. -/
theorem assign_perm (hm : 0 < m) (bound : m < wordBound) (perm : relations.Perm f.relations)
    (chosen : List Nat) :
    ({ f with relations } : Family).assign chosen =
      if chosen.length = f.freeColumns.length then
        match obstacle m relations with
        | none => f.assign chosen
        | some r => .ok (.error (.notInvertible r.column r.coefficient m))
      else f.assign chosen := by
  by_cases length : chosen.length = f.freeColumns.length
  · rw [if_pos length]
    have fits := regular.fits perm
    cases first : obstacle m relations with
    | some r => exact assign_of_obstacle hm bound fits length first
    | none =>
      have coprime := (obstacle_eq_none m relations).mp first
      have coprime' : ∀ r ∈ f.relations, r.coefficient.Coprime m :=
        fun r member => coprime r (perm.mem_iff.mpr member)
      have fits' := regular.fits (List.Perm.refl f.relations)
      obtain ⟨point, run⟩ := (assign_ok_iff hm bound fits length).mpr coprime
      obtain ⟨point', run'⟩ := (assign_ok_iff hm bound fits' length).mpr coprime'
      obtain ⟨_, done, assigned⟩ := assign_spec hm bound fits length
      obtain ⟨_, done', assigned'⟩ := assign_spec hm bound fits' length
      obtain rfl := Except.ok.inj (run.symm.trans done)
      obtain rfl := Except.ok.inj (run'.symm.trans done')
      have same := (regular.closed (List.Perm.refl f.relations)).assigned_ext
        (regular.parametric (List.Perm.refl f.relations)) (regular.parametric perm)
        (fun r => perm.mem_iff) rfl length assigned' assigned
      rw [run, run', same]
  · rw [if_neg length, assign, assign, if_pos length, if_pos length]

end Regular

end Family

/-- A family that is read off an upright table without contradiction. -/
theorem Tableau.Upright.regular {d : Tableau} (h : d.IsTable m n) (upright : d.Upright n) :
    d.family.Regular m n := by
  constructor
  · exact h.modulus
  · exact h.unknowns
  · exact List.pairwise_lt_range.filter _
  · rw [family_columns]
    exact List.pairwise_lt_range.filter _
  · rw [family_columns, ← h.unknowns]
    have split := List.filter_append_perm (fun r => decide (d.entry r r = 0))
      (List.range d.unknowns)
    simpa [family, pivotFreeRows, pivotRows] using split
  · intro q member term inside
    obtain ⟨r, hr, pivot, rfl⟩ := mem_relations.mp member
    obtain ⟨hc, other, nonzero, _⟩ := mem_residual.mp inside
    apply mem_pivotFreeRows.mpr
    refine ⟨hc, ?_⟩
    by_contra settled
    exact nonzero (upright.pivot_column term.1 hc ⟨h.unknowns ▸ hc, settled⟩ r hr (Ne.symm other))
  · intro q member
    obtain ⟨r, hr, pivot, rfl⟩ := mem_relations.mp member
    exact ⟨Nat.pos_of_ne_zero pivot, ((family_fits h).relations _ member).coefficient⟩
  · intro q member term inside
    obtain ⟨r, hr, pivot, rfl⟩ := mem_relations.mp member
    obtain ⟨_, _, nonzero, value⟩ := mem_residual.mp inside
    refine ⟨?_, (((family_fits h).relations _ member).residual term inside).2⟩
    rw [value]
    exact Nat.pos_of_ne_zero nonzero
  · intro q member
    exact ((family_fits h).relations q member).constant

/-- The shape of a family that is reported under any modulus, and what lookups and assignments owe
to it. -/
theorem reported_family_regular {settings : Settings} {t : Tableau} {s final : Solver} {f : Family}
    (wf : t.WellFormed) (built : Solver.ofTableau t settings = .ok (.ok s))
    (solved : s.solve = .ok (final, .ok (.infinite f))) :
    f.Regular t.modulus t.unknowns ∧
    (∀ c, f.isFree c = true ↔ c ∈ f.freeColumns) ∧
    (∀ c, (f.relation c).isSome = true ↔ c < t.unknowns ∧ c ∉ f.freeColumns) ∧
    ∀ relations : List Relation, relations.Perm f.relations → ∀ chosen,
      (∀ start : Array Nat, start.size = t.unknowns →
        ({ f with relations } : Family).assignFrom start chosen =
          ({ f with relations } : Family).assign chosen) ∧
      ({ f with relations } : Family).assign chosen =
        if chosen.length = f.freeColumns.length then
          match Family.obstacle t.modulus relations with
          | none => f.assign chosen
          | some r => .ok (.error (.notInvertible r.column r.coefficient t.modulus))
        else f.assign chosen := by
  have fresh := Solver.ofTableau_fresh wf built
  obtain ⟨final', answer, run, table, upright, answers⟩ := Solver.solve_upright fresh
  obtain ⟨rfl, rfl⟩ := Prod.mk.inj (Except.ok.inj (run.symm.trans solved))
  rcases answers with ⟨_, _, _, _, absurd⟩ | ⟨_, _, _, rfl⟩
  · cases absurd
  · have regular := upright.regular table
    refine ⟨regular, Family.isFree_iff regular.free_ascending, fun c => ?_, ?_⟩
    · rw [Family.relation_isSome_iff, ← regular.mem_iff c]
      constructor
      · intro member
        exact ⟨Or.inr member, fun free => regular.disjoint free member⟩
      · rintro ⟨either, other⟩
        exact either.resolve_left other
    · intro relations perm chosen
      constructor
      · intro start size
        exact (regular.closed perm).assignFrom_eq size chosen
      · exact regular.assign_perm fresh.table.pos fresh.table.bound perm chosen

/-- In the other order the second relation is the one that is reported. -/
theorem reported_family_regular_mod_four :
    (∀ c, (⟨4, 3, [2], [⟨0, 2, [(2, 2)], 0⟩, ⟨1, 2, [(2, 2)], 0⟩]⟩ : Family).isFree c = true ↔
      c ∈ [2]) ∧
    ∀ chosen : List Nat, chosen.length = 1 →
      Family.assign ⟨4, 3, [2], [⟨1, 2, [(2, 2)], 0⟩, ⟨0, 2, [(2, 2)], 0⟩]⟩ chosen =
        .ok (.error (.notInvertible 1 2 4)) := by
  have built : Solver.ofTableau ⟨4, 3, #[2, 0, 2, 0, 0, 2, 2, 0, 0, 0, 0, 0]⟩ .default =
      .ok (.ok ⟨⟨4, 3, #[2, 0, 2, 0, 0, 2, 2, 0, 0, 0, 0, 0]⟩, ⟨4, none⟩, 2 ^ 20, false,
        .loaded⟩) := by decide +kernel
  have solved : Solver.solve ⟨⟨4, 3, #[2, 0, 2, 0, 0, 2, 2, 0, 0, 0, 0, 0]⟩, ⟨4, none⟩, 2 ^ 20,
        false, .loaded⟩ =
      .ok (⟨⟨4, 3, #[2, 0, 2, 0, 0, 2, 2, 0, 0, 0, 0, 0]⟩, ⟨4, none⟩, 2 ^ 20, false, .resolved⟩,
        .ok (.infinite ⟨4, 3, [2], [⟨0, 2, [(2, 2)], 0⟩, ⟨1, 2, [(2, 2)], 0⟩]⟩)) := by
    decide +kernel
  obtain ⟨_, free, _, orders⟩ := reported_family_regular
    ⟨by decide, by decide, by decide, by decide, by decide⟩ built solved
  refine ⟨free, fun chosen length => ?_⟩
  have order := (orders [⟨1, 2, [(2, 2)], 0⟩, ⟨0, 2, [(2, 2)], 0⟩] (List.Perm.swap _ _ _) chosen).2
  simpa [length, Family.obstacle] using order

/-- The result of an assignment that is refused depends on the order of the relations. -/
theorem refusal_depends_on_order_mod_four :
    ∃ (s final : Solver) (f : Family) (relations : List Relation),
      Solver.ofTableau ⟨4, 3, #[2, 0, 2, 0, 0, 2, 2, 0, 0, 0, 0, 0]⟩ .default = .ok (.ok s) ∧
      s.solve = .ok (final, .ok (.infinite f)) ∧ relations.Perm f.relations ∧
      ({ f with relations } : Family).assign [0] ≠ f.assign [0] := by
  refine ⟨⟨⟨4, 3, #[2, 0, 2, 0, 0, 2, 2, 0, 0, 0, 0, 0]⟩, ⟨4, none⟩, 2 ^ 20, false, .loaded⟩,
    ⟨⟨4, 3, #[2, 0, 2, 0, 0, 2, 2, 0, 0, 0, 0, 0]⟩, ⟨4, none⟩, 2 ^ 20, false, .resolved⟩,
    ⟨4, 3, [2], [⟨0, 2, [(2, 2)], 0⟩, ⟨1, 2, [(2, 2)], 0⟩]⟩,
    [⟨1, 2, [(2, 2)], 0⟩, ⟨0, 2, [(2, 2)], 0⟩], ?_, ?_, List.Perm.swap _ _ _, ?_⟩ <;> decide +kernel

end LinearCongruences
