import Mathlib
import LinearCongruences.Proofs.Acceptance
import LinearCongruences.Proofs.SolutionSet

/-! What the verdicts of a run are worth. A run over a prime modulus always ends with a verdict,
and the verdict decides the system. Over any modulus a single solution is the only one, and a
family that can be solved for is the set of all solutions. -/
namespace LinearCongruences

/-- The verdict tells whether no point, one point or more points solve a system, and which one it
is if there is one. -/
structure Decides (solution : List Nat → Prop) (verdict : Verdict) : Prop where
  inconsistent : (∃ row constant, verdict = .inconsistent row constant) ↔ ∀ x, ¬ solution x
  unique : ∀ values, verdict = .unique values ↔ ∀ x, solution x ↔ x = values
  infinite : (∃ family, verdict = .infinite family) ↔ ∃ x y, solution x ∧ solution y ∧ x ≠ y

/-- One of the three cases holds, and the cases exclude each other. -/
theorem Verdict.Describes.decides {solution : List Nat → Prop} {verdict : Verdict}
    (describes : verdict.Describes solution) : Decides solution verdict := by
  cases verdict with
  | inconsistent row constant =>
    refine ⟨⟨fun _ => describes, fun _ => ⟨row, constant, rfl⟩⟩, fun values => ?_, ?_⟩
    · simp only [reduceCtorEq, false_iff]
      exact fun only => describes values ((only values).mpr rfl)
    · simp only [reduceCtorEq, exists_false, false_iff]
      rintro ⟨x, _, solved, _⟩
      exact describes x solved
  | unique values =>
    have only : ∀ x, solution x ↔ x = values := describes
    refine ⟨?_, fun others => ⟨?_, fun only' => ?_⟩, ?_⟩
    · simp only [reduceCtorEq, exists_false, false_iff]
      exact fun none => none values ((only values).mpr rfl)
    · intro same
      cases same
      exact only
    · exact congrArg Verdict.unique ((only' values).mp ((only values).mpr rfl))
    · simp only [reduceCtorEq, exists_false, false_iff]
      rintro ⟨x, y, first, second, different⟩
      exact different (((only x).mp first).trans ((only y).mp second).symm)
  | infinite family =>
    obtain ⟨x, y, first, second, different⟩ := describes
    refine ⟨?_, fun values => ?_, fun _ => ⟨x, y, first, second, different⟩,
      fun _ => ⟨family, rfl⟩⟩
    · simp only [reduceCtorEq, exists_false, false_iff]
      exact fun none => none x first
    · simp only [reduceCtorEq, false_iff]
      exact fun only => different (((only x).mp first).trans ((only y).mp second).symm)

variable {m n : Nat} {t d : Tableau}

namespace Tableau

/-- If all pivots that are left can be divided out, the run has kept the solutions exactly. -/
theorem Eliminated.reduced (known : Eliminated m n t d)
    (coprime : ∀ r < n, d.entry r r ≠ 0 → (d.entry r r).Coprime m) :
    d.Reduced n ∧ ∀ x, d.Holds m x ↔ t.Holds m x := by
  rcases known.reduced_or_tainted with reduced | ⟨r, hr, settled, nonunit⟩
  · exact reduced
  · have unit := coprime r (known.table.unknowns ▸ hr) settled.2
    exact absurd ((ZMod.isUnit_iff_coprime _ _).mpr unit) nonunit

/-- If no column has lost its pivot, dividing the pivots out leaves the unknowns alone. -/
theorem Stepped.identity (known : Stepped m n d)
    (divided : ∀ r < n, ¬ d.NeedsDivision r) (full : ∀ r < n, d.entry r r ≠ 0) :
    (∀ r < n, d.entry r r = 1) ∧ ∀ r < n, ∀ c < n, c ≠ r → d.entry r c = 0 := by
  have hn := known.table.unknowns
  have stairs : d.Staircase n := by
    rcases known.staircase_or_gap with stairs | ⟨r, hr, zero⟩
    · exact stairs
    · exact absurd zero (full r hr)
  have zero : ∀ r < n, ∀ c < n, c ≠ r → d.entry r c = 0 := fun r hr c hc other =>
    stairs.pivot_column c (hn ▸ hc) ⟨hc, full c hc⟩ r (hn ▸ hr) (Ne.symm other)
  refine ⟨fun r hr => ?_, zero⟩
  -- a pivot other than one would still have to be divided out, as its row names no other column
  by_contra notOne
  refine divided r hr ⟨full r hr, fun c hc after => ?_, notOne⟩
  exact zero r hr c (hn ▸ hc) (by omega)

theorem Eliminated.unique (h : t.IsTable m n) (known : Eliminated m n t d)
    (divided : ∀ r < n, ¬ d.NeedsDivision r) (full : ∀ r < n, d.entry r r ≠ 0)
    (point : List Nat) :
    t.Solution point ↔ point = (List.range n).map fun r => d.entry r n := by
  obtain ⟨one, zero⟩ := known.identity divided full
  obtain ⟨_, same⟩ := known.reduced fun r hr _ => by
    rw [one r hr]
    exact Nat.coprime_one_left m
  rw [solution_congr h known.table same, solution_iff_of_identity known.table one zero]

/-- A family that can be solved for gives all solutions of the table that the run began with. -/
theorem Eliminated.family (h : t.IsTable m n) (known : Eliminated m n t d)
    (empty : ∀ r < d.unknowns, d.entry r r = 0 → ∀ c ≤ d.unknowns, d.entry r c = 0)
    (coprime : ∀ q ∈ d.family.relations, q.coefficient.Coprime m) :
    ∃ point : List Nat → List Nat,
      (∀ chosen, chosen.length = d.family.freeColumns.length →
        d.family.assign chosen = .ok (.ok (point chosen))) ∧
      (∀ chosen ∈ choices m d.family.freeColumns.length,
        d.family.freeColumns.map (fun c => (point chosen).getD c 0) = chosen) ∧
      Set.BijOn point (choices m d.family.freeColumns.length) {x | t.Solution x} := by
  have pivots : ∀ r < n, d.entry r r ≠ 0 → (d.entry r r).Coprime m := fun r hr pivot =>
    coprime _ (mem_relations.mpr ⟨r, known.table.unknowns ▸ hr, pivot, rfl⟩)
  obtain ⟨reduced, same⟩ := known.reduced pivots
  have solutions : {x | t.Solution x} = {x | d.Solution x} :=
    Set.ext fun x => solution_congr h known.table same x
  rw [solutions]
  exact assign_bijOn known.table reduced.toStaircase empty coprime

end Tableau

/-! A prime modulus. -/

theorem coprime_of_entry (prime : m.Prime) (h : d.IsTable m n) {r : Nat} (hr : r < n)
    (nonzero : d.entry r r ≠ 0) : (d.entry r r).Coprime m :=
  (Nat.coprime_of_lt_prime nonzero (h.entry_lt hr (Nat.le_of_lt hr)) prime).symm

/-- A table that a run over a prime modulus ends with: all rows are brought into form, no row is
still to be divided, and the solutions are those of the table `t` that the run began with. -/
structure Tableau.Finished (m n : Nat) (t d : Tableau) : Prop where
  table : d.IsTable m n
  reduced : d.Reduced n
  holds_iff : ∀ x, d.Holds m x ↔ t.Holds m x
  divided : ∀ r < n, ¬ d.NeedsDivision r

namespace Tableau.Finished

theorem solution_iff (finished : Finished m n t d) (h : t.IsTable m n) (point : List Nat) :
    t.Solution point ↔ d.Solution point :=
  solution_congr h finished.table finished.holds_iff point

theorem staircase (finished : Finished m n t d) : d.Staircase d.unknowns :=
  finished.table.unknowns.symm ▸ finished.reduced.toStaircase

theorem coprime (finished : Finished m n t d) (prime : m.Prime) :
    ∀ q ∈ d.family.relations, q.coefficient.Coprime m := by
  intro q member
  obtain ⟨r, hr, nonzero, rfl⟩ := mem_relations.mp member
  exact coprime_of_entry prime finished.table (finished.table.unknowns ▸ hr) nonzero

theorem describes (finished : Finished m n t d) (prime : m.Prime) (h : t.IsTable m n)
    {verdict : Verdict} (reads : d.ReadsAs (.ok verdict)) : verdict.Describes t.Solution := by
  have table := finished.table
  rw [funext fun x => propext (finished.solution_iff h x)]
  cases verdict with
  | inconsistent row constant =>
    obtain ⟨hrow, zero, rfl, nonzero⟩ := reads
    rw [table.unknowns] at hrow zero nonzero
    intro point solution
    have holds := ((Tableau.solution_iff table.shaped table.modulus point).mp solution).2.2
    exact not_holds_of_contradiction table hrow zero nonzero _ holds
  | unique values =>
    obtain ⟨full, rfl⟩ := reads
    rw [table.unknowns] at full ⊢
    have stepped : Stepped m n d := ⟨table, Or.inl finished.reduced.toStaircase⟩
    obtain ⟨one, zero⟩ := stepped.identity finished.divided full
    exact solution_iff_of_identity table one zero
  | infinite family =>
    obtain ⟨⟨c, hc, zero⟩, empty, rfl⟩ := reads
    obtain ⟨point, _, _, bij⟩ :=
      assign_bijOn table finished.reduced.toStaircase empty (finished.coprime prime)
    have positive : 0 < d.family.freeColumns.length :=
      List.length_pos_of_mem (mem_pivotFreeRows.mpr ⟨hc, zero⟩)
    obtain ⟨x, first, y, second, different⟩ := exists_two_choices prime.one_lt positive
    exact ⟨_, _, bij.mapsTo first, bij.mapsTo second, fun equal =>
      different (bij.injOn first second equal)⟩

end Tableau.Finished

/-- A run over a prime modulus ends with a verdict, which is read off a finished table. -/
theorem Solver.solve_finished {s : Solver} (prime : m.Prime) (fresh : Fresh m n t s)
    (exact : s.lookup.Exact m) :
    ∃ final verdict, s.solve = .ok (final, .ok verdict) ∧
      Tableau.Finished m n t final.tableau ∧ final.tableau.ReadsAs (.ok verdict) := by
  obtain ⟨final, answer, run, known, answers⟩ := solve_spec fresh exact
  have table := known.table
  have pivots : ∀ r < n, final.tableau.entry r r ≠ 0 → (final.tableau.entry r r).Coprime m :=
    fun r hr => coprime_of_entry prime table hr
  obtain ⟨reduced, same⟩ := known.reduced pivots
  rcases answers with ⟨i, hi, needs, missing, _⟩ | ⟨divided, reads⟩
  · exact absurd (pivots i hi needs.1) (exact _ _ missing)
  · cases answer with
    | error refusal =>
      obtain ⟨_, row, hrow, zero, ⟨c, hc, nonzero⟩, _⟩ := reads
      rw [table.unknowns] at hc
      exact absurd (reduced.clear row hrow (fun settled => settled.2 zero) c hc) nonzero
    | ok verdict => exact ⟨final, verdict, run, ⟨table, reduced, same, divided⟩, reads⟩

theorem Solver.solve_of_prime {s : Solver} (prime : m.Prime) (fresh : Fresh m n t s)
    (exact : s.lookup.Exact m) :
    ∃ final verdict, s.solve = .ok (final, .ok verdict) ∧ verdict.Describes t.Solution := by
  obtain ⟨final, verdict, run, finished, reads⟩ := solve_finished prime fresh exact
  exact ⟨final, verdict, run, finished.describes prime fresh.table reads⟩

/-- Over a prime modulus each well-formed system is decided, however it is written down and
whatever the settings are, unless they call for a table that there is no room for. -/
theorem prime_modulus_decided (prime : m.Prime) (bound : m < wordBound) (settings : Settings)
    (room : InverseLookup.HasRoom m settings.inverseTableLimit) :
    (∀ rows : List (List Nat), Square rows → (∀ row ∈ rows, ∀ x ∈ row, x < m) →
      ∃ s final verdict, Solver.ofResidues m rows settings = .ok (.ok s) ∧
        s.solve = .ok (final, .ok verdict) ∧
        Decides (Solves m (rows.map (List.map Int.ofNat))) verdict) ∧
    (∀ system : CongruenceSystem, system.modulus = m → Square system.rows →
      ∃ s final verdict, system.solver settings = .ok (.ok s) ∧
        s.solve = .ok (final, .ok verdict) ∧ system.solve settings = .ok (.ok verdict) ∧
        Decides (Solves m system.rows) verdict) := by
  constructor
  · intro rows square reduced
    obtain ⟨t, accepted, table, solutions⟩ :=
      Tableau.ofResidues_spec prime.pos bound square reduced
    obtain ⟨s, built, fresh, exact⟩ := Solver.ofTableau_prime table prime room
    obtain ⟨final, verdict, run, describes⟩ := Solver.solve_of_prime prime fresh exact
    refine ⟨s, final, verdict, ?_, run, ?_⟩
    · rw [Solver.ofResidues, accepted]
      exact built
    · rw [funext fun x => propext (solutions x)] at describes
      exact describes.decides
  · rintro system rfl square
    obtain ⟨t, accepted, table, solutions⟩ := Tableau.ofIntegers_spec prime.pos bound square
    obtain ⟨s, built, fresh, exact⟩ := Solver.ofTableau_prime table prime room
    obtain ⟨final, verdict, run, describes⟩ := Solver.solve_of_prime prime fresh exact
    have solver : system.solver settings = .ok (.ok s) := by
      rw [CongruenceSystem.solver, Solver.ofIntegers, accepted]
      exact built
    refine ⟨s, final, verdict, solver, run, ?_, ?_⟩
    · rw [CongruenceSystem.solve, solver, Checked.ok_bind]
      simp only [run, Checked.ok_bind]
      rfl
    · rw [funext fun x => propext (solutions x)] at describes
      exact describes.decides

theorem prime_modulus_decided_mod_seven : Nat.Prime 7 ∧ 7 < wordBound ∧
    (∃ x y, Solves 7 [[1, 1, 1, 3], [2, 1, 1, 5], [0, 3, 3, 3]] x ∧
      Solves 7 [[1, 1, 1, 3], [2, 1, 1, 5], [0, 3, 3, 3]] y ∧ x ≠ y) ∧
    ∀ x, ¬ Solves 7 [[1, -2, 3], [2, -4, 5]] x := by
  have prime : Nat.Prime 7 := by norm_num
  have bound : 7 < wordBound := by decide
  obtain ⟨residues, signed⟩ := prime_modulus_decided prime bound .default (.of_limit (by decide))
  obtain ⟨s, final, verdict, built, solved, decides⟩ :=
    residues [[1, 1, 1, 3], [2, 1, 1, 5], [0, 3, 3, 3]] ⟨by decide, by decide⟩ (by decide)
  obtain ⟨_, _, verdict', _, _, solved', decides'⟩ :=
    signed ⟨none, 7, [[1, -2, 3], [2, -4, 5]]⟩ rfl ⟨by decide, by decide⟩
  have loaded : Solver.ofResidues 7 [[1, 1, 1, 3], [2, 1, 1, 5], [0, 3, 3, 3]] .default =
      .ok (.ok ⟨⟨7, 3, #[1, 1, 1, 3, 2, 1, 1, 5, 0, 3, 3, 3]⟩,
        ⟨7, some ⟨7, #[0, 1, 4, 5, 2, 3, 6]⟩⟩, 2 ^ 20, false, .loaded⟩) := by decide +kernel
  obtain rfl := Except.ok.inj (Except.ok.inj (loaded.symm.trans built))
  have run : Solver.solve ⟨⟨7, 3, #[1, 1, 1, 3, 2, 1, 1, 5, 0, 3, 3, 3]⟩,
        ⟨7, some ⟨7, #[0, 1, 4, 5, 2, 3, 6]⟩⟩, 2 ^ 20, false, .loaded⟩ =
      .ok (⟨⟨7, 3, #[1, 0, 0, 2, 0, 6, 6, 6, 0, 0, 0, 0]⟩,
        ⟨7, some ⟨7, #[0, 1, 4, 5, 2, 3, 6]⟩⟩, 2 ^ 20, false, .resolved⟩,
        .ok (.infinite ⟨7, 3, [2], [⟨0, 1, [], 2⟩, ⟨1, 6, [(2, 6)], 6⟩]⟩)) := by decide +kernel
  obtain rfl := Except.ok.inj (Prod.mk.inj (Except.ok.inj (run.symm.trans solved))).2
  refine ⟨prime, bound, decides.infinite.mp ⟨_, rfl⟩, ?_⟩
  have refuted : CongruenceSystem.solve ⟨none, 7, [[1, -2, 3], [2, -4, 5]]⟩ .default =
      .ok (.ok (.inconsistent 1 6)) := by decide +kernel
  obtain rfl := Except.ok.inj (Except.ok.inj (refuted.symm.trans solved'))
  exact decides'.inconsistent.mp ⟨_, _, rfl⟩

/-- A limit that is no less than this prime calls for a table of inverses, which would have more
entries than any table can have. -/
theorem prime_modulus_without_room :
    let settings : Settings := { Settings.default with inverseTableLimit := 2 ^ 61 - 1 }
    Nat.Prime (2 ^ 61 - 1) ∧ 2 ^ 61 - 1 < wordBound ∧ Square [[1, 1]] ∧
      Solver.ofResidues (2 ^ 61 - 1) [[1, 1]] settings = .error .noRoom ∧
      CongruenceSystem.solve ⟨none, 2 ^ 61 - 1, [[1, 1]]⟩ settings = .error .noRoom :=
  ⟨InverseTable.prime_beyond_capacity.1, by decide, ⟨by decide, by decide⟩, by decide +kernel,
    by decide +kernel⟩

/-! Any modulus. -/

/-- A solution that is reported as the only one is the only one. -/
theorem unique_answer_right {settings : Settings} {s final : Solver} {values : List Nat}
    (wf : t.WellFormed)
    (primes : Prime.test t.modulus = .ok true →
      t.modulus.Prime ∨ settings.inverseTableLimit < t.modulus)
    (built : Solver.ofTableau t settings = .ok (.ok s))
    (solved : s.solve = .ok (final, .ok (.unique values))) :
    values.length = t.unknowns ∧ (∀ x ∈ values, x < t.modulus) ∧
      t.satisfiedBy values = .ok true ∧ ∀ point, t.Solution point ↔ point = values := by
  have fresh := Solver.ofTableau_fresh wf built
  have exact := Solver.ofTableau_exact wf primes built
  obtain ⟨final', answer, run, known, answers⟩ := Solver.solve_spec fresh exact
  obtain ⟨rfl, rfl⟩ := Prod.mk.inj (Except.ok.inj (run.symm.trans solved))
  rcases answers with ⟨_, _, _, _, absurd⟩ | ⟨divided, full, rfl⟩
  · cases absurd
  · rw [known.table.unknowns] at full ⊢
    have only := known.unique fresh.table divided full
    obtain ⟨length, less, holds⟩ :=
      (Tableau.solution_iff fresh.table.shaped rfl _).mp ((only _).mpr rfl)
    obtain ⟨answer, test, meaning⟩ := Tableau.satisfiedBy_spec fresh.table
      fun x member => Nat.lt_trans (less x member) fresh.table.bound
    refine ⟨length, less, ?_, only⟩
    rw [test, meaning.mpr ⟨length, holds⟩]

theorem unique_answer_right_mod_ten :
    (⟨10, 2, #[3, 2, 7, 1, 1, 7]⟩ : Tableau).satisfiedBy [3, 4] = .ok true ∧
      ∀ point, (⟨10, 2, #[3, 2, 7, 1, 1, 7]⟩ : Tableau).Solution point ↔ point = [3, 4] := by
  have composite : Prime.test 10 ≠ .ok true := by decide +kernel
  have built : Solver.ofTableau ⟨10, 2, #[3, 2, 7, 1, 1, 7]⟩ .default =
      .ok (.ok ⟨⟨10, 2, #[3, 2, 7, 1, 1, 7]⟩, ⟨10, none⟩, 2 ^ 20, false, .loaded⟩) := by
    decide +kernel
  have solved : Solver.solve ⟨⟨10, 2, #[3, 2, 7, 1, 1, 7]⟩, ⟨10, none⟩, 2 ^ 20, false, .loaded⟩ =
      .ok (⟨⟨10, 2, #[1, 0, 3, 0, 1, 4]⟩, ⟨10, none⟩, 2 ^ 20, false, .resolved⟩,
        .ok (.unique [3, 4])) := by decide +kernel
  exact (unique_answer_right ⟨by decide, by decide, by decide, by decide, by decide⟩
    (fun prime => absurd prime composite) built solved).2.2

/-- A family is the set of solutions if it can be solved for, and that depends on its coefficients
alone. -/
theorem family_is_solution_set {settings : Settings} {s final : Solver} {f : Family}
    (wf : t.WellFormed)
    (primes : Prime.test t.modulus = .ok true →
      t.modulus.Prime ∨ settings.inverseTableLimit < t.modulus)
    (built : Solver.ofTableau t settings = .ok (.ok s))
    (solved : s.solve = .ok (final, .ok (.infinite f))) :
    [∃ chosen, chosen.length = f.freeColumns.length ∧ ∃ x, f.assign chosen = .ok (.ok x),
      ∀ chosen, chosen.length = f.freeColumns.length → ∃ x, f.assign chosen = .ok (.ok x),
      ∀ r ∈ f.relations, r.coefficient.Coprime t.modulus].TFAE ∧
    ((∀ r ∈ f.relations, r.coefficient.Coprime t.modulus) →
      ∃ point : List Nat → List Nat,
        (∀ chosen, chosen.length = f.freeColumns.length →
          f.assign chosen = .ok (.ok (point chosen))) ∧
        (∀ chosen ∈ choices t.modulus f.freeColumns.length,
          f.freeColumns.map (fun c => (point chosen).getD c 0) = chosen) ∧
        Set.BijOn point (choices t.modulus f.freeColumns.length) {x | t.Solution x} ∧
        (f.freeColumns.length < exponentBound →
          f.solutionCount = if {x | t.Solution x}.ncard < doubleBound
            then some {x | t.Solution x}.ncard else none)) ∧
    (t.modulus.Prime →
      ∀ chosen, chosen.length = f.freeColumns.length → ∃ x, f.assign chosen = .ok (.ok x)) := by
  have fresh := Solver.ofTableau_fresh wf built
  have exact := Solver.ofTableau_exact wf primes built
  obtain ⟨final', answer, run, known, answers⟩ := Solver.solve_spec fresh exact
  obtain ⟨rfl, rfl⟩ := Prod.mk.inj (Except.ok.inj (run.symm.trans solved))
  rcases answers with ⟨_, _, _, _, absurd⟩ | ⟨divided, _, empty, rfl⟩
  · cases absurd
  · have fits := Tableau.family_fits known.table
    have assigns : ∀ chosen : List Nat,
        chosen.length = final'.tableau.family.freeColumns.length →
          ((∃ x, final'.tableau.family.assign chosen = .ok (.ok x)) ↔
            ∀ r ∈ final'.tableau.family.relations, r.coefficient.Coprime t.modulus) :=
      fun chosen => Family.assign_ok_iff fresh.table.pos fresh.table.bound fits
    refine ⟨?_, fun coprime => ?_, fun prime chosen length => (assigns chosen length).mpr ?_⟩
    · tfae_have 1 → 3 := by
        rintro ⟨chosen, length, assigned⟩
        exact (assigns chosen length).mp assigned
      tfae_have 3 → 2 := fun coprime chosen length => (assigns chosen length).mpr coprime
      tfae_have 2 → 1 := fun all => ⟨_, List.length_replicate, all _ (List.length_replicate (a := 0))⟩
      tfae_finish
    · obtain ⟨point, assigned, free, bij⟩ := known.family fresh.table empty coprime
      refine ⟨point, assigned, free, bij, fun short => ?_⟩
      rw [← bij.ncard_eq, Family.solutionCount_eq short, fits.modulus]
    · intro q member
      obtain ⟨r, hr, nonzero, rfl⟩ := Tableau.mem_relations.mp member
      exact coprime_of_entry prime known.table (known.table.unknowns ▸ hr) nonzero

theorem family_is_solution_set_mod_ten :
    {x | (⟨10, 3, #[3, 2, 1, 7, 1, 1, 4, 7, 0, 0, 0, 0]⟩ : Tableau).Solution x}.ncard = 10 := by
  have composite : Prime.test 10 ≠ .ok true := by decide +kernel
  have built : Solver.ofTableau ⟨10, 3, #[3, 2, 1, 7, 1, 1, 4, 7, 0, 0, 0, 0]⟩ .default =
      .ok (.ok ⟨⟨10, 3, #[3, 2, 1, 7, 1, 1, 4, 7, 0, 0, 0, 0]⟩, ⟨10, none⟩, 2 ^ 20, false,
        .loaded⟩) := by decide +kernel
  have solved : Solver.solve ⟨⟨10, 3, #[3, 2, 1, 7, 1, 1, 4, 7, 0, 0, 0, 0]⟩, ⟨10, none⟩, 2 ^ 20,
        false, .loaded⟩ =
      .ok (⟨⟨10, 3, #[3, 0, 9, 9, 0, 1, 1, 4, 0, 0, 0, 0]⟩, ⟨10, none⟩, 2 ^ 20, false, .resolved⟩,
        .ok (.infinite ⟨10, 3, [2], [⟨0, 3, [(2, 9)], 9⟩, ⟨1, 1, [(2, 1)], 4⟩]⟩)) := by
    decide +kernel
  obtain ⟨_, _, _, bij, _⟩ := (family_is_solution_set
    ⟨by decide, by decide, by decide, by decide, by decide⟩
    (fun prime => absurd prime composite) built solved).2.1 (by decide)
  rw [← bij.ncard_eq, ncard_choices]
  rfl

end LinearCongruences
