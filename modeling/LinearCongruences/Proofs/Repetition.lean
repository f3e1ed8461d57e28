import Mathlib
import LinearCongruences.Proofs.Construction
import LinearCongruences.Proofs.Verdicts

/-! Working on a table again. In a reduced table the only row that can give the pivot of a column is
the one on the diagonal, which is alone in naming the column, so that nothing is swapped and nothing
is cancelled. -/
namespace LinearCongruences

namespace Tableau

variable {m n : Nat} {t t' : Tableau} {column p : Nat} {lookup : InverseLookup}

/-- A well-formed table is told by the classes of its entries. -/
theorem Represents.eq (h : t.IsTable m n) (same : t'.Represents m n (t.residue m)) : t' = t := by
  have h' := same.toIsTable
  have rows : t'.rows = t.rows := by
    rw [rows_eq h'.shaped, rows_eq h.shaped, h'.unknowns, h.unknowns, h'.width, h.width]
    refine List.map_congr_left fun r hr => List.map_congr_left fun c hc => ?_
    have inside := Nat.le_of_lt_succ (List.mem_range.mp hc)
    exact h'.entry_eq h (List.mem_range.mp hr) inside (List.mem_range.mp hr) inside
      (same.residue r (List.mem_range.mp hr) c inside)
  have loaded := h'.wellFormed.ofResidues_rows
  rw [rows, h'.modulus, ← h.modulus, h.wellFormed.ofResidues_rows] at loaded
  exact (Except.ok.inj loaded).symm

/-- In a reduced table a column has its pivot on the diagonal, if it has one. -/
theorem Reduced.eq_of_offers (h : t.IsTable m n) (reduced : t.Reduced n) (hc : column < n)
    (hp : p < n) (offers : t.Offers column p) : p = column := by
  obtain ⟨late, named⟩ := offers
  rw [← h.unknowns] at hc hp
  by_contra other
  have settled : t.Settled n p := by
    by_contra unsettled
    exact named (reduced.clear p hp unsettled column (h.unknowns ▸ hc))
  rcases Nat.lt_or_gt_of_ne other with before | after
  · exact late ⟨before, settled.2⟩
  · exact named (reduced.pivot_left p hp settled column after)

theorem Reduced.eliminateColumn_eq (h : t.IsTable m n) (reduced : t.Reduced n)
    (hc : column < n) : t.eliminateColumn column = .ok t := by
  obtain ⟨t', run, ⟨rfl, _⟩ | ⟨p, s, hp, offers, _, swapped, cleared⟩⟩ :=
    eliminateColumn_spec h hc
  · exact run
  · obtain rfl := reduced.eq_of_offers h hc hp offers
    obtain rfl : s = t := Represents.eq h ⟨swapped.toIsTable, fun r hr c hcn => by
      rw [swapped.residue r hr c hcn, Equiv.swap_self, Equiv.refl_apply]⟩
    have alone := reduced.pivot_column p (h.unknowns ▸ hp) ⟨hp, offers.2⟩
    obtain rfl : t' = s := Represents.eq h ⟨cleared.toIsTable, fun r hr c hcn => by
      rw [cleared.residue r hr c hcn, Tableau.cleared, if_pos]
      exact or_iff_not_imp_left.mpr (alone r (h.unknowns ▸ hr))⟩
    exact run

theorem Reduced.eliminate_eq (h : t.IsTable m n) (reduced : t.Reduced n) :
    t.eliminate = .ok t := by
  obtain ⟨t', run, rfl⟩ := Checked.foldlM_range eliminateColumn t n (fun _ s => s = t) rfl
    (by
      rintro k hk s _ rfl
      exact ⟨s, reduced.eliminateColumn_eq h hk, rfl⟩)
  rw [eliminate, h.unknowns, run]

theorem resolveFrom_eq (h : t.IsTable m n) (total : lookup.Total m)
    (divided : ∀ r < n, ¬ t.NeedsDivision r) :
    Solver.resolveFrom lookup t 0 n = .ok (t, .ok ()) := by
  obtain ⟨d, outcome, run, _, rfl, result⟩ := resolveFrom_spec (P := (· = t)) total
    (by
      rintro s _ i _ _ hi needs _ _ rfl
      exact absurd needs (divided i hi))
    n h rfl (Nat.zero_add n) fun i hi => absurd hi (Nat.not_lt_zero i)
  cases outcome with
  | error refusal =>
    obtain ⟨i, hi, needs, _⟩ := result
    exact absurd needs (divided i hi)
  | ok done => exact run

end Tableau

namespace Solver

variable {s s' final : Solver} {verdict : Verdict}

theorem classify_congr (tableau : s'.tableau = s.tableau) (phase : s'.phase = s.phase) :
    s'.classify = s.classify := by
  cases s
  cases s'
  cases tableau
  cases phase
  rfl

/-- The verdict of a run is that of the solver it ends with. -/
theorem classify_of_solve (solved : s.solve = .ok (final, .ok verdict)) :
    final.classify = .ok (.ok verdict) := by
  obtain ⟨e, _, rest⟩ := Checked.bind_eq_ok.mp solved
  obtain ⟨⟨d, outcome⟩, _, rest⟩ := Checked.bind_eq_ok.mp rest
  cases outcome with
  | error refusal => cases rest
  | ok done =>
    obtain ⟨answer, classified, same⟩ := Checked.bind_eq_ok.mp rest
    cases same
    exact classified

theorem phase_of_classify (classified : s.classify = .ok (.ok verdict)) : s.phase = .resolved := by
  by_contra early
  rw [classify, classifyFrom, if_pos early] at classified
  cases classified

end Solver

/-- Over a prime modulus a table that has been solved is left as it is by each step when it is
loaded again, and the verdict is the same to the letter, whatever the settings are. -/
theorem solving_again_changes_nothing {t : Tableau} (wf : t.WellFormed) (prime : t.modulus.Prime)
    (settings settings' : Settings)
    (room : InverseLookup.HasRoom t.modulus settings.inverseTableLimit)
    (room' : InverseLookup.HasRoom t.modulus settings'.inverseTableLimit) :
    ∃ s final verdict, Solver.ofTableau t settings = .ok (.ok s) ∧
      s.solve = .ok (final, .ok verdict) ∧
      ∃ s' e d final', Solver.ofResidues t.modulus final.tableau.rows settings' = .ok (.ok s') ∧
        s'.eliminate = .ok e ∧ e.resolve = .ok (d, .ok ()) ∧
        s'.solve = .ok (final', .ok verdict) ∧
        ∀ u ∈ [s', e, d, final'], u.tableau = final.tableau := by
  obtain ⟨s, built, fresh, exact⟩ := Solver.ofTableau_prime ⟨wf, rfl, rfl⟩ prime room
  obtain ⟨final, verdict, solved, finished, _⟩ := Solver.solve_finished prime fresh exact
  have table := finished.table
  obtain ⟨s', built', fresh', _⟩ := Solver.ofTableau_prime table prime room'
  have loaded : Solver.ofResidues t.modulus final.tableau.rows settings' = .ok (.ok s') := by
    rw [Solver.ofResidues, ← table.modulus, table.wellFormed.ofResidues_rows]
    exact built'
  have eliminated := fresh'.eliminate_eq (finished.reduced.eliminate_eq table)
  have divided : Solver.resolveFrom s'.lookup final.tableau 0 final.tableau.unknowns =
      .ok (final.tableau, .ok ()) := by
    rw [table.unknowns]
    exact Tableau.resolveFrom_eq table fresh'.total finished.divided
  have resolved := Solver.resolve_eq
    (s := { s' with tableau := final.tableau, phase := .eliminated }) rfl divided
  have classified := Solver.classify_of_solve solved
  have phase := Solver.phase_of_classify classified
  let d : Solver := { s' with tableau := final.tableau, phase := .resolved }
  have again : d.classify = .ok (.ok verdict) := by
    rw [← classified]
    exact Solver.classify_congr rfl phase.symm
  refine ⟨s, final, verdict, built, solved, s', _, d, d, loaded, eliminated, resolved, ?_, ?_⟩
  · rw [Solver.solve, eliminated, Checked.ok_bind, resolved]
    simp only [Checked.ok_bind, Solver.phaseAfter]
    rw [again]
    rfl
  · simp [fresh'.tableau, d]

/-- A table whose first row keeps a pivot other than one, since it names a free column. -/
theorem solving_again_changes_nothing_mod_seven : Nat.Prime 7 ∧
    (⟨7, 3, #[2, 1, 1, 1, 0, 0, 0, 0, 0, 0, 3, 2]⟩ : Tableau).WellFormed ∧
    ∃ s final, Solver.ofResidues 7 [[6, 3, 0, 1], [0, 0, 0, 0], [0, 0, 1, 3]] .default =
      .ok (.ok s) ∧ s.solve = .ok (final, .ok (.infinite ⟨7, 3, [1],
        [⟨0, 6, [(1, 3)], 1⟩, ⟨2, 1, [], 3⟩]⟩)) ∧
      final.tableau = ⟨7, 3, #[6, 3, 0, 1, 0, 0, 0, 0, 0, 0, 1, 3]⟩ := by
  have prime : Nat.Prime 7 := by norm_num
  have wf : (⟨7, 3, #[2, 1, 1, 1, 0, 0, 0, 0, 0, 0, 3, 2]⟩ : Tableau).WellFormed :=
    ⟨by decide, by decide, by decide, by decide, by decide⟩
  obtain ⟨s, final, verdict, built, solved, s', _, _, final', built', _, _, solved', same⟩ :=
    solving_again_changes_nothing wf prime .default .default (.of_limit (by decide))
      (.of_limit (by decide))
  have loaded : Solver.ofTableau ⟨7, 3, #[2, 1, 1, 1, 0, 0, 0, 0, 0, 0, 3, 2]⟩ .default =
      .ok (.ok ⟨⟨7, 3, #[2, 1, 1, 1, 0, 0, 0, 0, 0, 0, 3, 2]⟩,
        ⟨7, some ⟨7, #[0, 1, 4, 5, 2, 3, 6]⟩⟩, 2 ^ 20, false, .loaded⟩) := by decide +kernel
  obtain rfl := Except.ok.inj (Except.ok.inj (loaded.symm.trans built))
  have run : Solver.solve ⟨⟨7, 3, #[2, 1, 1, 1, 0, 0, 0, 0, 0, 0, 3, 2]⟩,
        ⟨7, some ⟨7, #[0, 1, 4, 5, 2, 3, 6]⟩⟩, 2 ^ 20, false, .loaded⟩ =
      .ok (⟨⟨7, 3, #[6, 3, 0, 1, 0, 0, 0, 0, 0, 0, 1, 3]⟩,
        ⟨7, some ⟨7, #[0, 1, 4, 5, 2, 3, 6]⟩⟩, 2 ^ 20, false, .resolved⟩,
        .ok (.infinite ⟨7, 3, [1], [⟨0, 6, [(1, 3)], 1⟩, ⟨2, 1, [], 3⟩]⟩)) := by decide +kernel
  obtain ⟨rfl, answer⟩ := Prod.mk.inj (Except.ok.inj (run.symm.trans solved))
  obtain rfl := Except.ok.inj answer
  exact ⟨prime, wf, s', final', built', solved', same final' (by simp)⟩

end LinearCongruences
