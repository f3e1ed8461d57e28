import Mathlib
import LinearCongruences.Proofs.Repetition

/-! A table of inverses cannot be told from the computation of each inverse by itself. There is only
one right answer to the question for an inverse, and a solver does nothing with its lookup but ask
it. A table is an array with a place for each residue, and a large prime has no table, as there is
no room for it. -/
namespace LinearCongruences

variable {m value : Nat}

/-- A modulus larger than one leaves no place for the inverse zero. -/
theorem IsInverse.some_iff (large : 1 < m) {w : Nat} :
    IsInverse m value (some w) ↔ 1 ≤ w ∧ w < m ∧ value * w ≡ 1 [MOD m] := by
  have exact : (value : ZMod m) * w = 1 ↔ value * w ≡ 1 [MOD m] := by
    rw [← ZMod.natCast_eq_natCast_iff]
    push_cast
    rfl
  simp only [IsInverse, exact]
  constructor
  · rintro ⟨reduced, product⟩
    refine ⟨Nat.pos_of_ne_zero ?_, reduced, product⟩
    -- zero times a value is not one modulo `m`
    rintro rfl
    rw [mul_zero, Nat.ModEq, Nat.zero_mod, Nat.mod_eq_of_lt large] at product
    exact Nat.zero_ne_one product
  · rintro ⟨_, reduced, product⟩
    exact ⟨reduced, product⟩

theorem IsInverse.eq_none_iff (prime : m.Prime) {answer : Option Nat}
    (h : IsInverse m value answer) : answer = none ↔ m ∣ value := by
  have missing : IsInverse m value none ↔ m ∣ value := by
    rw [IsInverse, Nat.coprime_comm, prime.coprime_iff_not_dvd, not_not]
  rw [← missing]
  exact ⟨fun same => same ▸ h, fun none => h.unique none⟩

/-- The two lookups give the same answers. -/
def InverseLookup.Agrees (lookup lookup' : InverseLookup) : Prop :=
  ∀ value, lookup'.inverse value = lookup.inverse value

theorem InverseLookup.Exact.agrees {lookup lookup' : InverseLookup} (total : lookup.Total m)
    (total' : lookup'.Total m) (exact : lookup.Exact m) (exact' : lookup'.Exact m) :
    lookup.Agrees lookup' := by
  intro value
  obtain ⟨answer, found, _⟩ := total value
  obtain ⟨answer', found', _⟩ := total' value
  rw [found, found', (exact _ _ found).unique (exact' _ _ found')]

namespace Solver

/-- Two solvers at the same point of their work. Their lookups may be of different kinds, but agree
on all inverses. -/
structure Alongside (s s' : Solver) : Prop where
  tableau : s'.tableau = s.tableau
  phase : s'.phase = s.phase
  lookup : s.lookup.Agrees s'.lookup

variable {s s' : Solver}

theorem resolveRow_congr {lookup lookup' : InverseLookup} (agrees : lookup.Agrees lookup')
    (t : Tableau) (r : Nat) : resolveRow lookup' t r = resolveRow lookup t r := by
  simp only [resolveRow, agrees _]

theorem resolveFrom_congr {lookup lookup' : InverseLookup} (agrees : lookup.Agrees lookup')
    (t : Tableau) (r count : Nat) :
    resolveFrom lookup' t r count = resolveFrom lookup t r count := by
  induction count generalizing t r with
  | zero => rfl
  | succ count ih => simp only [resolveFrom, resolveRow_congr agrees, ih]

namespace Alongside

variable (along : Alongside s s')

include along

theorem eliminate {e : Solver} (run : s.eliminate = .ok e) :
    ∃ e', s'.eliminate = .ok e' ∧ Alongside e e' := by
  rw [Solver.eliminate, along.phase, along.tableau]
  unfold Solver.eliminate at run
  split at run
  · rename_i loaded
    obtain ⟨t, eliminated, same⟩ := Checked.bind_eq_ok.mp run
    cases same
    rw [if_pos loaded, eliminated]
    exact ⟨_, rfl, rfl, rfl, along.lookup⟩
  · rename_i later
    cases run
    rw [if_neg later]
    exact ⟨_, rfl, along⟩

theorem resolve {d : Solver} {outcome : Except Refusal Unit} (run : s.resolve = .ok (d, outcome)) :
    ∃ d', s'.resolve = .ok (d', outcome) ∧ Alongside d d' := by
  have divisions : resolveFrom s'.lookup s'.tableau 0 s'.unknowns =
      resolveFrom s.lookup s.tableau 0 s.unknowns := by
    rw [unknowns, along.tableau, resolveFrom_congr along.lookup, unknowns]
  cases phase : s.phase with
  | loaded =>
    simp only [Solver.resolve, phase, Checked.pure_eq_ok] at run
    cases run
    exact ⟨s', by simp [Solver.resolve, along.phase, phase], along⟩
  | resolved =>
    simp only [Solver.resolve, phase, Checked.pure_eq_ok] at run
    cases run
    exact ⟨s', by simp [Solver.resolve, along.phase, phase], along⟩
  | eliminated =>
    cases divided : resolveFrom s.lookup s.tableau 0 s.unknowns with
    | error fault => simp [Solver.resolve, phase, divided] at run
    | ok result =>
      rw [resolve_eq phase divided] at run
      cases run
      exact ⟨_, resolve_eq (along.phase.trans phase) (divisions.trans divided), rfl, rfl,
        along.lookup⟩

theorem solve {final : Solver} {answer : Except Refusal Verdict}
    (run : s.solve = .ok (final, answer)) :
    ∃ final', s'.solve = .ok (final', answer) ∧ Alongside final final' := by
  obtain ⟨e, eliminated, run⟩ := Checked.bind_eq_ok.mp run
  obtain ⟨⟨d, outcome⟩, resolved, run⟩ := Checked.bind_eq_ok.mp run
  obtain ⟨e', eliminated', along₁⟩ := along.eliminate eliminated
  obtain ⟨d', resolved', along₂⟩ := along₁.resolve resolved
  rw [Solver.solve, eliminated', Checked.ok_bind, resolved', Checked.ok_bind]
  cases outcome with
  | error refusal =>
    cases run
    exact ⟨d', rfl, along₂⟩
  | ok done =>
    obtain ⟨answer', classified, same⟩ := Checked.bind_eq_ok.mp run
    cases same
    refine ⟨d', ?_, along₂⟩
    simp only [classify_congr along₂.tableau along₂.phase, classified, Checked.ok_bind,
      Checked.pure_eq_ok]

end Alongside

end Solver

/-- For a prime modulus the table of inverses is laid out if there is room for it, and it answers
each question as the computation of a single inverse does: with the only inverse there is, unless
the modulus divides the value. So no setting, and with it no limit of the table, has an influence on
how a system is solved, unless it calls for a table without room. -/
theorem table_limit_unobservable (prime : m.Prime) (word : m < wordBound) :
    (m < InverseTable.capacity →
      ∃ table, InverseTable.build m = .ok (some table) ∧ ∀ value, ∃ answer,
        table.get value = .ok answer ∧ Inverse.find value m = .ok answer ∧
        (answer = none ↔ m ∣ value) ∧
        ∀ w, answer = some w ↔ 1 ≤ w ∧ w < m ∧ value * w ≡ 1 [MOD m]) ∧
    ∀ (t : Tableau) (settings settings' : Settings), t.WellFormed → t.modulus = m →
      InverseLookup.HasRoom m settings.inverseTableLimit →
      InverseLookup.HasRoom m settings'.inverseTableLimit →
      ∃ s s' final final' verdict, Solver.ofTableau t settings = .ok (.ok s) ∧
        Solver.ofTableau t settings' = .ok (.ok s') ∧ s.solve = .ok (final, .ok verdict) ∧
        s'.solve = .ok (final', .ok verdict) ∧ final'.tableau = final.tableau := by
  constructor
  · intro room
    obtain ⟨inverses, built, filled⟩ := InverseTable.build_prime prime word room
    refine ⟨_, built, fun value => ?_⟩
    obtain ⟨answer, got, meaning⟩ := InverseTable.get_spec prime filled value
    obtain ⟨answer', found, meaning'⟩ := Inverse.find_spec prime.pos word value
    obtain rfl := meaning.unique meaning'
    refine ⟨answer, got, found, meaning.eq_none_iff prime, fun w => ?_⟩
    rw [← IsInverse.some_iff prime.one_lt]
    exact ⟨fun same => same ▸ meaning, fun inverse => meaning.unique inverse⟩
  · rintro t settings settings' wf rfl room room'
    have table : t.IsTable t.modulus t.unknowns := ⟨wf, rfl, rfl⟩
    obtain ⟨s, built, fresh, exact⟩ := Solver.ofTableau_prime table prime room
    obtain ⟨s', built', fresh', exact'⟩ := Solver.ofTableau_prime table prime room'
    obtain ⟨final, verdict, solved, _⟩ := Solver.solve_of_prime prime fresh exact
    have along : Solver.Alongside s s' :=
      ⟨fresh'.tableau.trans fresh.tableau.symm, fresh'.loaded.trans fresh.loaded.symm,
        exact.agrees fresh.total fresh'.total exact'⟩
    obtain ⟨final', solved', along'⟩ := along.solve solved
    exact ⟨s, s', final, final', verdict, built, built', solved, solved', along'.tableau⟩

/-- One solver looks inverses up in a table, the other computes them. -/
theorem table_limit_unobservable_mod_eleven : Nat.Prime 11 ∧ 11 < wordBound ∧
    InverseTable.build 11 = .ok (some ⟨11, #[0, 1, 6, 4, 3, 9, 2, 8, 7, 5, 10]⟩) ∧
    Inverse.find 24 11 = .ok (some 6) ∧
    (⟨11, 2, #[3, 1, 4, 2, 5, 6]⟩ : Tableau).WellFormed ∧
    ∃ s s' final final',
      Solver.ofTableau ⟨11, 2, #[3, 1, 4, 2, 5, 6]⟩ .default = .ok (.ok s) ∧
      Solver.ofTableau ⟨11, 2, #[3, 1, 4, 2, 5, 6]⟩ ⟨"info", 10, false, none, .default⟩ =
        .ok (.ok s') ∧
      s.lookup.table = some ⟨11, #[0, 1, 6, 4, 3, 9, 2, 8, 7, 5, 10]⟩ ∧ s'.lookup.table = none ∧
      s.solve = .ok (final, .ok (.unique [7, 5])) ∧
      s'.solve = .ok (final', .ok (.unique [7, 5])) ∧ final'.tableau = final.tableau := by
  have prime : Nat.Prime 11 := by norm_num
  have word : 11 < wordBound := by decide
  have wf : (⟨11, 2, #[3, 1, 4, 2, 5, 6]⟩ : Tableau).WellFormed :=
    ⟨by decide, by decide, by decide, by decide, by decide⟩
  obtain ⟨tables, solvers⟩ := table_limit_unobservable prime word
  obtain ⟨table, laid, answers⟩ := tables (by decide)
  have table_eq : InverseTable.build 11 =
      .ok (some ⟨11, #[0, 1, 6, 4, 3, 9, 2, 8, 7, 5, 10]⟩) := by decide +kernel
  obtain rfl := Option.some.inj (Except.ok.inj (table_eq.symm.trans laid))
  obtain ⟨answer, got, found, _⟩ := answers 24
  have six : InverseTable.get ⟨11, #[0, 1, 6, 4, 3, 9, 2, 8, 7, 5, 10]⟩ 24 = .ok (some 6) := by
    decide +kernel
  obtain rfl := Except.ok.inj (six.symm.trans got)
  obtain ⟨s, s', final, final', verdict, built, built', solved, solved', same⟩ :=
    solvers _ .default ⟨"info", 10, false, none, .default⟩ wf rfl (.of_limit (by decide))
      (.of_limit (by decide))
  have tabled : Solver.ofTableau ⟨11, 2, #[3, 1, 4, 2, 5, 6]⟩ .default =
      .ok (.ok ⟨⟨11, 2, #[3, 1, 4, 2, 5, 6]⟩,
        ⟨11, some ⟨11, #[0, 1, 6, 4, 3, 9, 2, 8, 7, 5, 10]⟩⟩, 2 ^ 20, false, .loaded⟩) := by
    decide +kernel
  have single : Solver.ofTableau ⟨11, 2, #[3, 1, 4, 2, 5, 6]⟩
      ⟨"info", 10, false, none, .default⟩ =
      .ok (.ok ⟨⟨11, 2, #[3, 1, 4, 2, 5, 6]⟩, ⟨11, none⟩, 10, false, .loaded⟩) := by
    decide +kernel
  obtain rfl := Except.ok.inj (Except.ok.inj (tabled.symm.trans built))
  obtain rfl := Except.ok.inj (Except.ok.inj (single.symm.trans built'))
  have run : Solver.solve ⟨⟨11, 2, #[3, 1, 4, 2, 5, 6]⟩,
        ⟨11, some ⟨11, #[0, 1, 6, 4, 3, 9, 2, 8, 7, 5, 10]⟩⟩, 2 ^ 20, false, .loaded⟩ =
      .ok (⟨⟨11, 2, #[1, 0, 7, 0, 1, 5]⟩,
        ⟨11, some ⟨11, #[0, 1, 6, 4, 3, 9, 2, 8, 7, 5, 10]⟩⟩, 2 ^ 20, false, .resolved⟩,
        .ok (.unique [7, 5])) := by decide +kernel
  obtain ⟨rfl, answered⟩ := Prod.mk.inj (Except.ok.inj (run.symm.trans solved))
  obtain rfl := Except.ok.inj answered
  exact ⟨prime, word, laid, found, wf, _, _, _, _, built, built', rfl, rfl, solved, solved', same⟩

/-- With one limit there is no solver for this prime, with another there is. -/
theorem table_limit_observed_without_room :
    let settings : Settings := { Settings.default with inverseTableLimit := 2 ^ 61 - 1 }
    Nat.Prime (2 ^ 61 - 1) ∧ 2 ^ 61 - 1 < wordBound ∧
      InverseTable.build (2 ^ 61 - 1) = .error .noRoom ∧
      (⟨2 ^ 61 - 1, 1, #[1, 1]⟩ : Tableau).WellFormed ∧
      Solver.ofTableau ⟨2 ^ 61 - 1, 1, #[1, 1]⟩ settings = .error .noRoom ∧
      ∃ s, Solver.ofTableau ⟨2 ^ 61 - 1, 1, #[1, 1]⟩ .default = .ok (.ok s) := by
  obtain ⟨prime, large⟩ := InverseTable.prime_beyond_capacity
  have word : 2 ^ 61 - 1 < wordBound := by decide
  have wf : (⟨2 ^ 61 - 1, 1, #[1, 1]⟩ : Tableau).WellFormed :=
    ⟨by decide, by decide, by decide, by decide, by decide⟩
  have refused := InverseTable.build_noRoom (Prime.test_of_prime prime word) large
  have built : Solver.ofTableau ⟨2 ^ 61 - 1, 1, #[1, 1]⟩ .default =
      .ok (.ok ⟨⟨2 ^ 61 - 1, 1, #[1, 1]⟩, ⟨2 ^ 61 - 1, none⟩, 2 ^ 20, false, .loaded⟩) := by
    decide +kernel
  exact ⟨prime, word, refused, wf, by decide +kernel, _, built⟩

end LinearCongruences
