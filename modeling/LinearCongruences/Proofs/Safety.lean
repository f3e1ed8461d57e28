import Mathlib
import LinearCongruences.Proofs.Reset
import LinearCongruences.Proofs.SolutionSet
import LinearCongruences.Proofs.Sessions

/-! Runs without faults. A table that is built stays well-formed whatever is done to it, also by
steps that are refused half-way, and on a well-formed table no step leaves a range or misses a
cell. -/
namespace LinearCongruences

/-- The rows that the call swaps are rows of the table. The modulus that it loads is a word, and
there is room for its table of inverses, if one is called for. -/
def Call.Admissible (s : Solver) : Call → Prop
  | .swapRows a b => a < s.unknowns ∧ b < s.unknowns
  | .reset modulus _ => modulus < wordBound ∧ InverseLookup.HasRoom modulus s.tableLimit
  | _ => True

/-- Each call is admissible when its turn comes. -/
def Solver.Admits (s : Solver) : List Call → Prop
  | [] => True
  | call :: rest => call.Admissible s ∧
      ∀ s' reply, s.perform call = .ok (s', reply) → s'.Admits rest

instance (s : Solver) : (call : Call) → Decidable (call.Admissible s)
  | .swapRows _ _ => inferInstanceAs (Decidable (_ ∧ _))
  | .reset _ _ => inferInstanceAs (Decidable (_ ∧ _))
  | .eliminate | .resolve | .classifyFrom _ | .solve => .isTrue trivial

instance Solver.decidableAdmits (s : Solver) : (calls : List Call) → Decidable (s.Admits calls)
  | [] => .isTrue trivial
  | call :: rest =>
    match run : s.perform call with
    | .error _ => decidable_of_iff (call.Admissible s) (by simp [Admits, run])
    | .ok (s', _) =>
      have := s'.decidableAdmits rest
      decidable_of_iff (call.Admissible s ∧ s'.Admits rest) (by simp [Admits, run])

/-- Any values, also a wrong number of them, are assigned or refused. -/
def Family.Assignable (f : Family) : Prop :=
  ∀ chosen, ∃ outcome, f.assign chosen = .ok outcome

/-- Every sequence of admissible calls returns. It ends with a table that its own rows make again,
and all families that are reported on the way can be assigned values. -/
def Solver.NeverFaults (s : Solver) : Prop :=
  ∀ calls, s.Admits calls → ∃ final replies, s.run calls = .ok (final, replies) ∧
    final.tableau.WellFormed ∧
    Tableau.ofResidues final.modulus final.tableau.rows = .ok final.tableau ∧
    ∀ f, .answered (.infinite f) ∈ replies → f.Assignable

variable {m n : Nat} {settings : Settings} {t : Tableau} {s : Solver}

namespace Tableau

theorem relation_of_reading {r : Nat} (hr : r < t.unknowns) {q : Relation}
    (reads : t.reading r = .pivot q) : q = t.relationAt r := by
  by_cases zero : t.entry r r = 0
  · rw [reading_of_zero hr zero] at reads
    split at reads <;> cases reads
  · rw [reading_of_pivot hr zero] at reads
    cases reads
    rfl

/-- A family is in range whatever rows were left out in the search for contradictions. -/
theorem verdict_fits (h : t.IsTable m n) {f : Family}
    (answer : Solver.verdict m n ((List.range t.unknowns).map t.reading) = .ok (.infinite f)) :
    f.Fits m n := by
  unfold Solver.verdict at answer
  split at answer
  · cases answer
  · dsimp only at answer
    split at answer
    · cases answer
    · cases answer
      refine ⟨rfl, rfl, fun c member => ?_, fun q member => ?_⟩
      · obtain ⟨role, inside, free⟩ := List.mem_filterMap.mp member
        obtain ⟨r, hr, rfl⟩ := List.mem_map.mp inside
        have hr' := List.mem_range.mp hr
        cases reads : t.reading r with
        | unresolved => simp [reads] at free
        | pivot relation => simp [reads] at free
        | free column =>
          obtain ⟨rfl, _⟩ := (reading_eq_free hr').mp reads
          have same : column = c := by simpa [reads] using free
          exact h.unknowns ▸ same ▸ hr'
      · obtain ⟨role, inside, relation⟩ := List.mem_filterMap.mp member
        obtain ⟨r, hr, rfl⟩ := List.mem_map.mp inside
        have hr' := List.mem_range.mp hr
        cases reads : t.reading r with
        | unresolved => simp [reads] at relation
        | free column => simp [reads] at relation
        | pivot found =>
          have same : found = q := by simpa [reads] using relation
          rw [← same, relation_of_reading hr' reads]
          exact relationAt_fits h (h.unknowns ▸ hr')

end Tableau

theorem Family.Fits.assignable (hm : 0 < m) (bound : m < wordBound) {f : Family}
    (fits : f.Fits m n) : f.Assignable := by
  intro chosen
  by_cases length : chosen.length = f.freeColumns.length
  · obtain ⟨outcome, run, _⟩ := assign_spec hm bound fits length
    exact ⟨outcome, run⟩
  · refine ⟨.error (.malformed (.freeValueCount f.freeColumns.length chosen.length)), ?_⟩
    rw [assign, if_pos length]
    rfl

namespace Solver

/-- Besides what its settings call for, the solver holds a well-formed table. -/
structure Sound (settings : Settings) (s : Solver) : Prop extends Prepared settings s where
  wellFormed : s.tableau.WellFormed

theorem ofTableau_sound (wf : t.WellFormed) (built : ofTableau t settings = .ok (.ok s)) :
    s.Sound settings := by
  refine ⟨ofTableau_prepared built, ?_⟩
  rw [(ofTableau_fresh wf built).tableau]
  exact wf

theorem ofResidues_sound {modulus : Nat} (word : modulus < wordBound) {rows : List (List Nat)}
    (built : ofResidues modulus rows settings = .ok (.ok s)) : s.Sound settings := by
  unfold ofResidues at built
  cases made : Tableau.ofResidues modulus rows with
  | error refusal =>
    rw [made] at built
    cases built
  | ok t =>
    rw [made] at built
    exact ofTableau_sound (Tableau.ofResidues_wellFormed word made) built

theorem ofIntegers_sound {modulus : Nat} (word : modulus < wordBound) {rows : List (List Int)}
    (built : ofIntegers modulus rows settings = .ok (.ok s)) : s.Sound settings := by
  obtain ⟨made, run, wellFormed⟩ := Tableau.ofIntegers_returns word rows
  rw [ofIntegers, run, Checked.ok_bind] at built
  cases made with
  | error refusal => cases built
  | ok t => exact ofTableau_sound (wellFormed t rfl) built

namespace Sound

variable (sound : s.Sound settings)

include sound

theorem isTable : s.tableau.IsTable s.modulus s.unknowns := ⟨sound.wellFormed, rfl, rfl⟩

theorem total : s.lookup.Total s.modulus :=
  sound.toPrepared.total sound.wellFormed.modulus_pos sound.wellFormed.modulus_lt

theorem swapRows {a b : Nat} (ha : a < s.unknowns) (hb : b < s.unknowns) :
    ∃ s', s.swapRows a b = .ok s' ∧ s'.Sound settings := by
  obtain ⟨t, run, result⟩ := Tableau.swap_spec sound.isTable ha hb
  refine ⟨{ s with tableau := t }, ?_, sound.of_modulus result.modulus, result.wellFormed⟩
  rw [Solver.swapRows, run]
  rfl

theorem eliminate : ∃ s', s.eliminate = .ok s' ∧ s'.Sound settings := by
  by_cases loaded : s.phase = .loaded
  · obtain ⟨e, run, eliminated⟩ := Tableau.eliminate_spec sound.isTable
    have table := eliminated.table
    refine ⟨{ s with tableau := e, phase := .eliminated }, ?_, sound.of_modulus table.modulus,
      table.wellFormed⟩
    rw [Solver.eliminate, if_pos loaded, run]
    rfl
  · refine ⟨s, ?_, sound⟩
    rw [Solver.eliminate, if_neg loaded]
    rfl

/-- Also a table that has been divided in part is well-formed. -/
theorem resolve : ∃ s' outcome, s.resolve = .ok (s', outcome) ∧ s'.Sound settings := by
  cases phase : s.phase with
  | loaded =>
    exact ⟨s, .error (.tooEarly .resolve .eliminate), by simp [Solver.resolve, phase], sound⟩
  | resolved =>
    exact ⟨s, .ok (), by simp [Solver.resolve, phase], sound⟩
  | eliminated =>
    obtain ⟨d, outcome, run, table, _⟩ := Tableau.resolveFrom_spec sound.total
      (P := fun _ => True) (fun _ _ _ _ _ _ _ _ _ _ => trivial) s.unknowns sound.isTable trivial
      (Nat.zero_add _) fun i hi => absurd hi (Nat.not_lt_zero i)
    cases outcome with
    | ok done =>
      refine ⟨{ s with tableau := d, phase := .resolved }, .ok (), ?_,
        sound.of_modulus table.modulus, table.wellFormed⟩
      simp [Solver.resolve, phase, run]
    | error refusal =>
      refine ⟨{ s with tableau := d }, .error refusal, ?_, sound.of_modulus table.modulus,
        table.wellFormed⟩
      simp [Solver.resolve, phase, run]

theorem classifyFrom (first : Nat) : ∃ answer, s.classifyFrom first = .ok answer ∧
    ∀ f, answer = .ok (.infinite f) → f.Fits s.modulus s.unknowns := by
  by_cases resolved : s.phase = .resolved
  · by_cases inside : first ≤ s.unknowns
    · have roles : s.roles = .ok ((List.range s.unknowns).map s.tableau.reading) := by
        rw [Solver.roles, List.range_eq_range']
        exact Tableau.rolesFrom_eq sound.isTable _ 0 (Nat.zero_add _)
      obtain ⟨answer, run, _⟩ := Tableau.contradiction_spec sound.isTable (s.unknowns - first) first
        (Nat.add_sub_cancel' inside)
      have dropped : ((List.range s.unknowns).map s.tableau.reading).drop first =
          (List.range' first (s.unknowns - first)).map s.tableau.reading := by
        rw [← List.map_drop, List.range_eq_range', List.drop_range', Nat.zero_add, Nat.mul_one]
      rw [Solver.classifyFrom, if_neg (by simp [resolved]), if_neg (by omega), roles,
        Checked.ok_bind, dropped, run, Checked.ok_bind]
      cases answer with
      | some found => exact ⟨_, rfl, fun f absurd => by cases absurd⟩
      | none => exact ⟨_, rfl, fun f same => Tableau.verdict_fits sound.isTable same⟩
    · refine ⟨.error (.malformed (.firstRowPastEnd first s.unknowns)), ?_,
        fun f absurd => by cases absurd⟩
      rw [Solver.classifyFrom, if_neg (by simp [resolved]), if_pos (by omega)]
      rfl
  · refine ⟨.error (.tooEarly .classify .resolve), ?_, fun f absurd => by cases absurd⟩
    rw [Solver.classifyFrom, if_pos resolved]
    rfl

theorem solve : ∃ s' answer, s.solve = .ok (s', answer) ∧ s'.Sound settings ∧
    ∀ f, answer = .ok (.infinite f) → f.Fits s'.modulus s'.unknowns := by
  obtain ⟨s₁, eliminated, sound₁⟩ := sound.eliminate
  obtain ⟨s₂, outcome, resolved, sound₂⟩ := sound₁.resolve
  cases outcome with
  | error refusal =>
    refine ⟨s₂, .error refusal, ?_, sound₂, fun f absurd => by cases absurd⟩
    simp only [Solver.solve, eliminated, resolved, Checked.ok_bind, Checked.pure_eq_ok]
  | ok done =>
    obtain ⟨answer, classified, fits⟩ := sound₂.classifyFrom 0
    refine ⟨s₂, answer, ?_, sound₂, fits⟩
    simp only [Solver.solve, eliminated, resolved, Solver.classify, classified, Checked.ok_bind,
      Checked.pure_eq_ok]

theorem load {modulus : Nat} (word : modulus < wordBound)
    (room : InverseLookup.HasRoom modulus settings.inverseTableLimit) (rows : List (List Nat)) :
    ∃ s' outcome, s.load modulus rows = .ok (s', outcome) ∧ s'.Sound settings := by
  obtain ⟨answer, made⟩ := ofResidues_returns word room rows
  rw [sound.load_eq, made]
  cases answer with
  | error refusal => exact ⟨s, .error refusal, rfl, sound⟩
  | ok fresh => exact ⟨fresh, .ok (), rfl, ofResidues_sound word made⟩

theorem perform {call : Call} (admissible : call.Admissible s) :
    ∃ s' reply, s.perform call = .ok (s', reply) ∧ s'.Sound settings ∧
      ∀ f, reply = .answered (.infinite f) → f.Assignable := by
  cases call with
  | swapRows a b =>
    obtain ⟨s', run, sound'⟩ := sound.swapRows admissible.1 admissible.2
    refine ⟨s', .done, ?_, sound', fun f absurd => by cases absurd⟩
    rw [Solver.perform, run]
    rfl
  | eliminate =>
    obtain ⟨s', run, sound'⟩ := sound.eliminate
    refine ⟨s', .done, ?_, sound', fun f absurd => by cases absurd⟩
    rw [Solver.perform, run]
    rfl
  | resolve =>
    obtain ⟨s', outcome, run, sound'⟩ := sound.resolve
    refine ⟨s', .ofOutcome outcome, ?_, sound', fun f absurd => by cases outcome <;> cases absurd⟩
    rw [Solver.perform, run]
    rfl
  | classifyFrom first =>
    obtain ⟨answer, run, fits⟩ := sound.classifyFrom first
    refine ⟨s, .ofAnswer answer, ?_, sound, fun f same => ?_⟩
    · rw [Solver.perform, run]
      rfl
    · have inRange := fits f (Reply.ofAnswer_eq_answered.mp same)
      exact inRange.assignable sound.isTable.pos sound.isTable.bound
  | solve =>
    obtain ⟨s', answer, run, sound', fits⟩ := sound.solve
    refine ⟨s', .ofAnswer answer, ?_, sound', fun f same => ?_⟩
    · rw [Solver.perform, run]
      rfl
    · have inRange := fits f (Reply.ofAnswer_eq_answered.mp same)
      exact inRange.assignable sound'.isTable.pos sound'.isTable.bound
  | reset modulus rows =>
    obtain ⟨word, room⟩ := admissible
    rw [sound.tableLimit] at room
    obtain ⟨s', outcome, run, sound'⟩ := sound.load word room rows
    refine ⟨s', .ofOutcome outcome, ?_, sound', fun f absurd => by cases outcome <;> cases absurd⟩
    rw [Solver.perform, run]
    rfl

theorem run {calls : List Call} (admits : s.Admits calls) :
    ∃ final replies, s.run calls = .ok (final, replies) ∧ final.Sound settings ∧
      ∀ f, .answered (.infinite f) ∈ replies → f.Assignable := by
  induction calls generalizing s with
  | nil => exact ⟨s, [], rfl, sound, fun f absurd => by cases absurd⟩
  | cons call rest ih =>
    obtain ⟨s', reply, run, sound', here⟩ := sound.perform admits.1
    obtain ⟨final, replies, run', sound'', there⟩ := ih sound' (admits.2 s' reply run)
    refine ⟨final, reply :: replies, ?_, sound'', fun f member => ?_⟩
    · rw [Solver.run, run, Checked.ok_bind]
      simp only [run', Checked.ok_bind, Checked.pure_eq_ok]
    · rcases List.mem_cons.mp member with same | later
      · exact here f same.symm
      · exact there f later

theorem neverFaults : s.NeverFaults := by
  intro calls admits
  obtain ⟨final, replies, run, sound', assignable⟩ := sound.run admits
  exact ⟨final, replies, run, sound'.wellFormed, sound'.wellFormed.ofResidues_rows, assignable⟩

end Sound

end Solver

theorem CongruenceSystem.outcome_returns (word : m < wordBound)
    (room : InverseLookup.HasRoom m settings.inverseTableLimit) (name : Option String)
    (rows : List (List Int)) :
    ∃ outcome, (⟨name, m, rows⟩ : CongruenceSystem).outcome settings = .ok outcome := by
  obtain ⟨made, built⟩ := Solver.ofIntegers_returns word room rows
  rw [outcome, solver, built, Checked.ok_bind]
  cases made with
  | error refusal => exact ⟨_, rfl⟩
  | ok s =>
    obtain ⟨final, answer, run, _⟩ := (Solver.ofIntegers_sound word built).solve
    simp only [run, Checked.ok_bind, Checked.pure_eq_ok]
    exact ⟨_, rfl⟩

/-- Whatever the rows, a solver is built or refused, and one that is built never faults, nor does
the solution of a system as it is written down. -/
theorem solver_never_faults {modulus : Nat} (word : modulus < wordBound) (settings : Settings)
    (room : InverseLookup.HasRoom modulus settings.inverseTableLimit) :
    (∀ rows, ∃ made, Solver.ofResidues modulus rows settings = .ok made ∧
      ∀ s, made = .ok s → s.NeverFaults) ∧
    (∀ rows, ∃ made, Solver.ofIntegers modulus rows settings = .ok made ∧
      ∀ s, made = .ok s → s.NeverFaults) ∧
    ∀ name rows, ∃ outcome,
      (⟨name, modulus, rows⟩ : CongruenceSystem).outcome settings = .ok outcome := by
  refine ⟨fun rows => ?_, fun rows => ?_, CongruenceSystem.outcome_returns word room⟩
  · obtain ⟨made, built⟩ := Solver.ofResidues_returns word room rows
    refine ⟨made, built, fun s same => ?_⟩
    subst same
    exact (Solver.ofResidues_sound word built).neverFaults
  · obtain ⟨made, built⟩ := Solver.ofIntegers_returns word room rows
    refine ⟨made, built, fun s same => ?_⟩
    subst same
    exact (Solver.ofIntegers_sound word built).neverFaults

/-- Two dependent rows under the largest modulus there is. The second solution, after a swap that
comes too late, has a family whose relation cannot be divided out. -/
theorem solver_never_faults_largest_modulus :
    ∃ s, Solver.ofResidues (wordBound - 1) [[wordBound - 2, 1, wordBound - 2],
        [3, wordBound - 4, 3]] .default = .ok (.ok s) ∧
      s.Admits [.resolve, .solve, .reset 0 [], .classifyFrom 7, .swapRows 1 0, .solve] ∧
      ∃ final replies,
        s.run [.resolve, .solve, .reset 0 [], .classifyFrom 7, .swapRows 1 0, .solve] =
          .ok (final, replies) ∧ final.tableau.WellFormed ∧
        ∀ f, .answered (.infinite f) ∈ replies → f.Assignable := by
  have built : Solver.ofResidues (wordBound - 1) [[wordBound - 2, 1, wordBound - 2],
        [3, wordBound - 4, 3]] .default =
      .ok (.ok ⟨⟨wordBound - 1, 2, #[wordBound - 2, 1, wordBound - 2, 3, wordBound - 4, 3]⟩,
        ⟨wordBound - 1, none⟩, 1048576, false, .loaded⟩) := by decide +kernel
  have word : wordBound - 1 < wordBound := by decide
  obtain ⟨residues, _, _⟩ := solver_never_faults word .default (.of_limit (by decide))
  obtain ⟨made, same, never⟩ := residues [[wordBound - 2, 1, wordBound - 2], [3, wordBound - 4, 3]]
  obtain rfl := Except.ok.inj (built.symm.trans same)
  have admits : Solver.Admits
      ⟨⟨wordBound - 1, 2, #[wordBound - 2, 1, wordBound - 2, 3, wordBound - 4, 3]⟩,
        ⟨wordBound - 1, none⟩, 1048576, false, .loaded⟩
      [.resolve, .solve, .reset 0 [], .classifyFrom 7, .swapRows 1 0, .solve] := by decide +kernel
  obtain ⟨final, replies, run, wellFormed, _, assignable⟩ := never _ rfl _ admits
  exact ⟨_, built, admits, final, replies, run, wellFormed, assignable⟩

end LinearCongruences
