import Mathlib
import LinearCongruences.Proofs.Construction
import LinearCongruences.Session

/-! A solver that is used again. Whatever has been done with it, its inverse lookup is the one that
its settings call for, so loading another system comes to the same as building a new solver. A
system that is refused leaves everything as it was. -/
namespace LinearCongruences

theorem InverseLookup.modulus_build {modulus limit : Nat} {lookup : InverseLookup}
    (built : build modulus limit = .ok lookup) : lookup.modulus = modulus := by
  obtain rfl | ⟨_, _, _, _, _, rfl⟩ := build_cases built <;> rfl

namespace Solver

/-! What becomes of a solver. Only when another system is loaded does more than its table and its
phase change. -/

section Steps

variable {s s' s'' : Solver}

/-- The solver has got on with its table. -/
def Advanced (s s' : Solver) : Prop :=
  ∃ t phase, s.tableau.SameKind t ∧ s' = { s with tableau := t, phase := phase }

theorem Advanced.refl (s : Solver) : Advanced s s := ⟨s.tableau, s.phase, .refl _, rfl⟩

theorem Advanced.trans (first : Advanced s s') (second : Advanced s' s'') : Advanced s s'' := by
  obtain ⟨t, _, kind, rfl⟩ := first
  obtain ⟨t', phase, kind', rfl⟩ := second
  exact ⟨t', phase, kind.trans kind', rfl⟩

theorem advanced_of_eliminate (run : s.eliminate = .ok s') : Advanced s s' := by
  unfold eliminate at run
  split at run
  · obtain ⟨t, eliminated, same⟩ := Checked.bind_eq_ok.mp run
    cases same
    exact ⟨t, _, .eliminate eliminated, rfl⟩
  · cases run
    exact .refl s

theorem advanced_of_resolve {outcome : Except Refusal Unit} (run : s.resolve = .ok (s', outcome)) :
    Advanced s s' := by
  unfold resolve at run
  split at run
  · cases run
    exact .refl s
  · cases run
    exact .refl s
  · obtain ⟨⟨t, divided⟩, resolved, run⟩ := Checked.bind_eq_ok.mp run
    have kind := Tableau.SameKind.resolveFrom resolved
    cases divided with
    | error refusal =>
      cases run
      exact ⟨t, s.phase, kind, rfl⟩
    | ok done =>
      cases run
      exact ⟨t, .resolved, kind, rfl⟩

theorem advanced_of_solve {answer : Except Refusal Verdict} (run : s.solve = .ok (s', answer)) :
    Advanced s s' := by
  obtain ⟨e, eliminated, run⟩ := Checked.bind_eq_ok.mp run
  obtain ⟨⟨d, outcome⟩, resolved, run⟩ := Checked.bind_eq_ok.mp run
  have both := (advanced_of_eliminate eliminated).trans (advanced_of_resolve resolved)
  cases outcome with
  | error refusal =>
    cases run
    exact both
  | ok done =>
    obtain ⟨_, _, same⟩ := Checked.bind_eq_ok.mp run
    cases same
    exact both

theorem perform_cases {call : Call} {reply : Reply} (run : s.perform call = .ok (s', reply)) :
    Advanced s s' ∨ ∃ modulus rows outcome,
      call = .reset modulus rows ∧ s.load modulus rows = .ok (s', outcome) := by
  cases call with
  | swapRows a b =>
    obtain ⟨_, swap, same⟩ := Checked.bind_eq_ok.mp run
    obtain ⟨t, swapped, same'⟩ := Checked.bind_eq_ok.mp swap
    cases same
    cases same'
    exact Or.inl ⟨t, s.phase, .swapRows swapped, rfl⟩
  | eliminate =>
    obtain ⟨_, eliminated, same⟩ := Checked.bind_eq_ok.mp run
    cases same
    exact Or.inl (advanced_of_eliminate eliminated)
  | resolve =>
    obtain ⟨⟨_, outcome⟩, resolved, same⟩ := Checked.bind_eq_ok.mp run
    cases same
    exact Or.inl (advanced_of_resolve resolved)
  | classifyFrom first =>
    obtain ⟨_, _, same⟩ := Checked.bind_eq_ok.mp run
    cases same
    exact Or.inl (.refl s)
  | solve =>
    obtain ⟨⟨_, answer⟩, solved, same⟩ := Checked.bind_eq_ok.mp run
    cases same
    exact Or.inl (advanced_of_solve solved)
  | reset modulus rows =>
    obtain ⟨⟨_, outcome⟩, loaded, same⟩ := Checked.bind_eq_ok.mp run
    cases same
    exact Or.inr ⟨modulus, rows, outcome, rfl, loaded⟩

/-- What each of the calls keeps, they all keep together. -/
theorem run_invariant {P : Solver → Prop} {calls : List Call} {replies : List Reply}
    (keeps : ∀ call ∈ calls, ∀ s s' reply, P s → s.perform call = .ok (s', reply) → P s')
    (start : P s) (reached : s.run calls = .ok (s', replies)) : P s' := by
  induction calls generalizing s replies with
  | nil =>
    cases reached
    exact start
  | cons call rest ih =>
    obtain ⟨⟨s₁, reply⟩, first, others⟩ := Checked.bind_eq_ok.mp reached
    obtain ⟨⟨s₂, replies'⟩, second, same⟩ := Checked.bind_eq_ok.mp others
    cases same
    obtain ⟨here, later⟩ := List.forall_mem_cons.mp keeps
    exact ih later (here s s₁ reply start first) second

end Steps

/-- The solver has what its settings call for: they allow its modulus, and its lookup is the one
that is made for it. -/
structure Prepared (settings : Settings) (s : Solver) : Prop where
  tableLimit : s.tableLimit = settings.inverseTableLimit
  requirePrime : s.requirePrime = settings.requirePrimeModulus
  allowed : checkModulus s.modulus settings.requirePrimeModulus = .ok (.ok ())
  lookup : InverseLookup.build s.modulus settings.inverseTableLimit = .ok s.lookup

variable {settings : Settings} {t : Tableau} {s s' : Solver} {modulus : Nat}
  {rows : List (List Nat)}

theorem ofTableau_prepared (built : ofTableau t settings = .ok (.ok s)) : s.Prepared settings := by
  obtain ⟨checked, allowed, run⟩ := Checked.bind_eq_ok.mp built
  cases checked with
  | error refusal => cases run
  | ok done =>
    obtain ⟨lookup, made, same⟩ := Checked.bind_eq_ok.mp run
    cases same
    exact ⟨rfl, rfl, allowed, made⟩

namespace Prepared

variable (prepared : s.Prepared settings)

include prepared

theorem lookup_modulus : s.lookup.modulus = s.modulus :=
  InverseLookup.modulus_build prepared.lookup

theorem total (positive : 0 < s.modulus) (word : s.modulus < wordBound) :
    s.lookup.Total s.modulus :=
  InverseLookup.total_of_build positive word prepared.lookup

theorem of_modulus {phase : Phase} (same : t.modulus = s.modulus) :
    Prepared settings { s with tableau := t, phase := phase } where
  tableLimit := prepared.tableLimit
  requirePrime := prepared.requirePrime
  allowed := by
    rw [Solver.modulus, same]
    exact prepared.allowed
  lookup := by
    rw [Solver.modulus, same]
    exact prepared.lookup

/-- Loading a system gives the solver that is built for it, or the old one if it is refused. -/
theorem load_eq (modulus : Nat) (rows : List (List Nat)) :
    s.load modulus rows = (ofResidues modulus rows settings).map fun
      | .ok fresh => (fresh, .ok ())
      | .error refusal => (s, .error refusal) := by
  unfold load ofResidues
  cases made : Tableau.ofResidues modulus rows with
  | error refusal => rfl
  | ok t =>
    have own := Tableau.ofResidues_modulus made
    simp only [renewLookup, ofTableau, own, prepared.requirePrime, prepared.tableLimit,
      prepared.lookup_modulus]
    by_cases same : modulus = s.modulus
    · -- the modulus has been checked before, and its lookup is at hand
      rw [if_pos same, same, prepared.allowed, prepared.lookup, ← prepared.requirePrime,
        ← prepared.tableLimit]
      rfl
    · rw [if_neg same]
      cases checkModulus modulus settings.requirePrimeModulus with
      | error fault => rfl
      | ok answer =>
        cases answer with
        | error refusal => rfl
        | ok done =>
          cases InverseLookup.build modulus settings.inverseTableLimit with
          | error fault => rfl
          | ok lookup => rfl

theorem load {outcome : Except Refusal Unit} (run : s.load modulus rows = .ok (s', outcome)) :
    s'.Prepared settings := by
  rw [prepared.load_eq] at run
  cases made : ofResidues modulus rows settings with
  | error fault =>
    rw [made] at run
    cases run
  | ok answer =>
    rw [made] at run
    cases answer with
    | error refusal =>
      cases run
      exact prepared
    | ok fresh =>
      cases run
      unfold ofResidues at made
      cases table : Tableau.ofResidues modulus rows with
      | error refusal =>
        rw [table] at made
        cases made
      | ok t =>
        rw [table] at made
        exact ofTableau_prepared made

theorem perform {call : Call} {reply : Reply} (run : s.perform call = .ok (s', reply)) :
    s'.Prepared settings := by
  obtain ⟨t, phase, kind, rfl⟩ | ⟨_, _, _, _, loaded⟩ := perform_cases run
  · exact prepared.of_modulus kind.modulus
  · exact prepared.load loaded

theorem run {calls : List Call} {replies : List Reply}
    (reached : s.run calls = .ok (s', replies)) : s'.Prepared settings :=
  run_invariant (fun _ _ _ _ _ before => before.perform) prepared reached

theorem reset_eq (modulus : Nat) (rows : List (List Nat)) :
    s.reset modulus rows = ofResidues modulus rows settings := by
  rw [reset, prepared.load_eq]
  cases ofResidues modulus rows settings with
  | error fault => rfl
  | ok answer => cases answer <;> rfl

end Prepared

end Solver

/-- After any calls a solver looks inverses up modulo its present modulus, and loading another
system into it gives the solver that is built for that system with the same settings. If the system
is refused, so is the building, for the same reason, and the solver stays as it is. -/
theorem reset_renews {settings : Settings} {t : Tableau} {s₀ s : Solver} {calls : List Call}
    {replies : List Reply} (built : Solver.ofTableau t settings = .ok (.ok s₀))
    (reached : s₀.run calls = .ok (s, replies)) :
    s.lookup.modulus = s.modulus ∧
    InverseLookup.build s.modulus settings.inverseTableLimit = .ok s.lookup ∧
    ∀ (modulus : Nat) (rows : List (List Nat)),
      s.reset modulus rows = Solver.ofResidues modulus rows settings ∧
      (modulus < wordBound → InverseLookup.HasRoom modulus settings.inverseTableLimit →
        ∃ outcome, Solver.ofResidues modulus rows settings = .ok outcome) ∧
      (∀ refusal, Solver.ofResidues modulus rows settings = .ok (.error refusal) →
        s.perform (.reset modulus rows) = .ok (s, .refused refusal)) ∧
      ∀ fresh, Solver.ofResidues modulus rows settings = .ok (.ok fresh) → ∀ later,
        s.run (.reset modulus rows :: later) =
          (fresh.run later).map fun (final, replies) => (final, .done :: replies) := by
  have prepared := (Solver.ofTableau_prepared built).run reached
  refine ⟨prepared.lookup_modulus, prepared.lookup, fun modulus rows => ?_⟩
  have loaded := prepared.load_eq modulus rows
  refine ⟨prepared.reset_eq modulus rows, fun word room => Solver.ofResidues_returns word room rows,
    fun refusal made => ?_, fun fresh made later => ?_⟩
  · rw [made] at loaded
    rw [Solver.perform, loaded]
    rfl
  · rw [made] at loaded
    rw [Solver.run, Solver.perform, loaded]
    cases run : fresh.run later <;> simp [Except.map, run, Reply.ofOutcome]

/-- A solver that has been taken from one prime to another, with a composite modulus refused on the
way, looks inverses up without a table now, refuses the composite modulus again, and is as good as
new for the first prime. -/
theorem reset_renews_mod_eleven :
    ∃ s s₀ : Solver, Solver.ofTableau ⟨7, 1, #[3, 2]⟩ ⟨"info", 8, true, none, .default⟩ =
        .ok (.ok s₀) ∧
      s₀.run [.solve, .reset 9 [[1, 1]], .reset 11 [[2, 1]], .solve] =
        .ok (s, [.answered (.unique [3]), .refused (.compositeModulus 9), .done,
          .answered (.unique [6])]) ∧
      s.lookup = ⟨11, none⟩ ∧
      s.perform (.reset 9 [[1, 1]]) = .ok (s, .refused (.compositeModulus 9)) ∧
      ∀ rows, s.reset 7 rows = Solver.ofResidues 7 rows ⟨"info", 8, true, none, .default⟩ := by
  have built : Solver.ofTableau ⟨7, 1, #[3, 2]⟩ ⟨"info", 8, true, none, .default⟩ =
      .ok (.ok ⟨⟨7, 1, #[3, 2]⟩, ⟨7, some ⟨7, #[0, 1, 4, 5, 2, 3, 6]⟩⟩, 8, true, .loaded⟩) := by
    decide +kernel
  have reached : Solver.run
        ⟨⟨7, 1, #[3, 2]⟩, ⟨7, some ⟨7, #[0, 1, 4, 5, 2, 3, 6]⟩⟩, 8, true, .loaded⟩
        [.solve, .reset 9 [[1, 1]], .reset 11 [[2, 1]], .solve] =
      .ok (⟨⟨11, 1, #[1, 6]⟩, ⟨11, none⟩, 8, true, .resolved⟩, [.answered (.unique [3]),
        .refused (.compositeModulus 9), .done, .answered (.unique [6])]) := by decide +kernel
  obtain ⟨_, _, renews⟩ := reset_renews built reached
  obtain ⟨_, _, refused, _⟩ := renews 9 [[1, 1]]
  have composite : Solver.ofResidues 9 [[1, 1]] ⟨"info", 8, true, none, .default⟩ =
      .ok (.error (.compositeModulus 9)) := by decide +kernel
  exact ⟨_, _, built, reached, rfl, refused _ composite, fun rows => (renews 7 rows).1⟩

end LinearCongruences
