import Mathlib
import LinearCongruences.Proofs.DividedRows
import LinearCongruences.Proofs.Safety

/-! Divisions that are refused. The first row that ends at a pivot without inverse ends the
divisions, whatever numbers the table holds. The rows before it need no division any more, so the
next attempt comes to the same row with the same table. -/
namespace LinearCongruences

namespace Tableau

variable {t s : Tableau} {lookup : InverseLookup} {i r : Nat} {refusal : Refusal}

/-- The row ends at a pivot that has no inverse. -/
def Blocked (t : Tableau) (i : Nat) : Prop :=
  i < t.unknowns ∧ t.entry i i ≠ 0 ∧ (∀ c < t.unknowns, i < c → t.entry i c = 0) ∧
    ¬ (t.entry i i).Coprime t.modulus

/-- Nothing has happened to the table `t` from row `i` on. Of the rows before it some may have been
divided. -/
structure DividedBefore (t : Tableau) (i : Nat) (d : Tableau) : Prop where
  modulus : d.modulus = t.modulus
  unknowns : d.unknowns = t.unknowns
  shaped : d.Shaped
  later : ∀ r < t.unknowns, i ≤ r → t.SameRow d r
  earlier : ∀ r < i, t.SameRow d r ∨ t.OneOnDiagonal d r

theorem blocked_iff (total : lookup.Total t.modulus) (exact : lookup.Exact t.modulus) :
    t.Blocked i ↔
      i < t.unknowns ∧ t.NeedsDivision i ∧ lookup.inverse (t.entry i i) = .ok none := by
  constructor
  · rintro ⟨hi, nonzero, last, common⟩
    have other : t.entry i i ≠ 1 := fun one => common (one ▸ Nat.coprime_one_left _)
    refine ⟨hi, ⟨nonzero, last, other⟩, ?_⟩
    obtain ⟨answer, found, _⟩ := total (t.entry i i)
    cases answer with
    | none => exact found
    | some w => exact absurd (exact _ _ found).coprime common
  · rintro ⟨hi, ⟨nonzero, last, _⟩, missing⟩
    exact ⟨hi, nonzero, last, exact _ _ missing⟩

theorem RowPassed.not_blocked (passed : RowPassed lookup t s r)
    (total : lookup.Total t.modulus) (exact : lookup.Exact t.modulus) :
    ¬ t.Blocked r := by
  intro blocked
  obtain ⟨_, needs, missing⟩ := (blocked_iff total exact).mp blocked
  rcases passed with ⟨unneeded, _⟩ | ⟨_, w, found, _⟩
  · exact unneeded needs
  · cases missing.symm.trans found

namespace Passed

variable (passed : Passed lookup t i s)

include passed

theorem dividedBefore (fits : i ≤ t.unknowns) : t.DividedBefore i s where
  modulus := passed.modulus
  unknowns := passed.unknowns
  shaped := passed.words.shaped
  later := passed.after
  earlier := fun r hr => (passed.before r hr).sameRow_or_one (Nat.lt_of_lt_of_le hr fits)

/-- The divisions of a table on which they have stopped once stop there again, at the same row. -/
theorem again (hi : i < t.unknowns) (total : lookup.Total t.modulus)
    (stopped : Solver.resolveRow lookup s i = .ok (.error refusal)) :
    Solver.resolveFrom lookup s 0 s.unknowns = .ok (s, .error refusal) := by
  have inside : i < s.unknowns := passed.unknowns ▸ hi
  have earlier : ∀ k < i, Solver.resolveRow lookup s k = .ok (.ok s) := fun k hk =>
    passed.row_again hk (Nat.le_of_lt hi) total
  have step : ∀ k < s.unknowns, ∀ u : Tableau, u = s ∧ k ≤ i →
      ∃ outcome, Solver.resolveRow lookup u k = .ok outcome ∧
        ∀ u', outcome = .ok u' → u' = s ∧ k + 1 ≤ i := by
    rintro k - u ⟨rfl, fits⟩
    rcases Nat.lt_or_eq_of_le fits with before | rfl
    · refine ⟨.ok u, earlier k before, ?_⟩
      rintro u' ⟨⟩
      exact ⟨rfl, before⟩
    · exact ⟨.error refusal, stopped, nofun⟩
  obtain ⟨d, outcome, run, ended⟩ :=
    resolveFrom_run step s.unknowns ⟨rfl, Nat.zero_le i⟩ (Nat.zero_add _)
  rcases ended with ⟨_, _, past⟩ | ⟨k, _, refusal', rfl, ⟨rfl, fits⟩, refused⟩
  · omega
  · rcases Nat.lt_or_eq_of_le fits with before | rfl
    · cases (earlier k before).symm.trans refused
    · cases stopped.symm.trans refused
      exact run

end Passed

/-- With exact inverses the row at which the divisions stop is the first that is blocked. -/
theorem resolveFrom_blocked (words : t.OfWords) (total : lookup.Total t.modulus)
    (exact : lookup.Exact t.modulus) :
    ∃ d outcome, Solver.resolveFrom lookup t 0 t.unknowns = .ok (d, outcome) ∧
      (outcome = .ok () ∧ (∀ i, ¬ t.Blocked i) ∨
        ∃ i, IsLeast {i | t.Blocked i} i ∧
          outcome = .error (.notInvertible i (t.entry i i) t.modulus) ∧ t.DividedBefore i d ∧
          Solver.resolveFrom lookup d 0 d.unknowns = .ok (d, outcome)) := by
  obtain ⟨d, outcome, run, ended⟩ := resolveFrom_passed words total
  refine ⟨d, outcome, run, ?_⟩
  rcases ended with ⟨done, passed⟩ | ⟨i, hi, refusal, rfl, passed, stopped⟩
  · exact Or.inl ⟨done, fun i blocked => (passed.before i blocked.1).not_blocked total exact blocked⟩
  · obtain ⟨needs, missing, rfl⟩ := passed.refused hi total stopped
    have blocked : t.Blocked i := (blocked_iff total exact).mpr ⟨hi, needs, missing⟩
    refine Or.inr ⟨i, ⟨blocked, fun k blocked' => ?_⟩, rfl, passed.dividedBefore (Nat.le_of_lt hi),
      passed.again hi total stopped⟩
    by_contra earlier
    exact (passed.before k (by omega)).not_blocked total exact blocked'

end Tableau

/-- The modulus that the call loads, if it loads one, is a word. -/
def Call.LoadsWord : Call → Prop
  | .reset modulus _ => modulus < wordBound
  | _ => True

variable {settings : Settings} {s s' : Solver} {refusal : Refusal}

namespace Solver

/-- Besides what its settings call for, the solver holds a table of words. -/
structure HoldsWords (settings : Settings) (s : Solver) : Prop extends Prepared settings s where
  words : s.tableau.OfWords

theorem ofTableau_holdsWords {t : Tableau} (words : t.OfWords)
    (built : ofTableau t settings = .ok (.ok s)) : s.HoldsWords settings where
  toPrepared := ofTableau_prepared built
  words := by
    obtain ⟨checked, _, run⟩ := Checked.bind_eq_ok.mp built
    cases checked with
    | error refusal => cases run
    | ok done =>
      obtain ⟨lookup, _, same⟩ := Checked.bind_eq_ok.mp run
      cases same
      exact words

namespace HoldsWords

variable (holds : s.HoldsWords settings)

include holds

theorem total : s.lookup.Total s.modulus :=
  holds.toPrepared.total holds.words.modulus_pos holds.words.modulus_lt

theorem exact (primes : Prime.test s.modulus = .ok true →
    s.modulus.Prime ∨ settings.inverseTableLimit < s.modulus) : s.lookup.Exact s.modulus :=
  InverseLookup.build_exact holds.words.modulus_pos holds.words.modulus_lt primes holds.lookup

/-- A system that is loaded has been checked, so its table is well-formed. -/
theorem load {modulus : Nat} (word : modulus < wordBound) {rows : List (List Nat)}
    {outcome : Except Refusal Unit} (run : s.load modulus rows = .ok (s', outcome)) :
    s'.HoldsWords settings := by
  rw [holds.load_eq] at run
  cases made : ofResidues modulus rows settings with
  | error fault =>
    rw [made] at run
    cases run
  | ok answer =>
    rw [made] at run
    cases answer with
    | error refusal =>
      cases run
      exact holds
    | ok fresh =>
      cases run
      have sound := ofResidues_sound word made
      exact ⟨sound.toPrepared, sound.wellFormed.ofWords⟩

theorem perform {call : Call} {reply : Reply} (word : call.LoadsWord)
    (run : s.perform call = .ok (s', reply)) : s'.HoldsWords settings := by
  obtain ⟨t, phase, kind, rfl⟩ | ⟨modulus, rows, _, rfl, loaded⟩ := perform_cases run
  · exact ⟨holds.of_modulus kind.modulus, kind.ofWords holds.words⟩
  · exact holds.load word loaded

theorem run {calls : List Call} {replies : List Reply} (word : ∀ call ∈ calls, call.LoadsWord)
    (reached : s.run calls = .ok (s', replies)) : s'.HoldsWords settings :=
  run_invariant (fun call member _ _ _ before => before.perform (word call member)) holds reached

end HoldsWords

/-- Where the divisions are refused and change nothing, so are all further attempts. -/
theorem run_of_stuck (phase : s.phase = .eliminated) (stuck : s.resolve = .ok (s, .error refusal))
    {later : List Call} (attempts : ∀ call ∈ later, call = .resolve ∨ call = .solve) :
    s.run later = .ok (s, List.replicate later.length (.refused refusal)) := by
  have eliminated : s.eliminate = .ok s := by
    rw [eliminate, if_neg (by simp [phase])]
    rfl
  induction later with
  | nil => rfl
  | cons call rest ih =>
    have here : s.perform call = .ok (s, .refused refusal) := by
      rcases attempts call List.mem_cons_self with rfl | rfl
      · rw [perform, stuck]
        rfl
      · rw [perform, solve, eliminated, Checked.ok_bind, stuck]
        rfl
    have others := ih (List.forall_mem_cons.mp attempts).2
    simp only [run, here, others, Checked.ok_bind, Checked.pure_eq_ok]
    rfl

theorem classifyFrom_of_eliminated (phase : s.phase = .eliminated) (first : Nat) :
    s.classifyFrom first = .ok (.error (.tooEarly .classify .resolve)) := by
  rw [classifyFrom, if_pos (by simp [phase])]
  rfl

end Solver

/-- A solver may have been brought to its state in any way, from any table of words. If its inverses
can be relied on, its divisions are refused exactly if a row is blocked, and for the first such row
and its pivot. The rows before that one have been divided or left alone, and the others are not
touched. There is still nothing to classify, and whoever tries to go on gets the same refusal each
time and finds the same table. -/
theorem refusal_exact_and_stable {t : Tableau} {s₀ : Solver} {calls : List Call}
    {replies : List Reply} (words : t.OfWords)
    (built : Solver.ofTableau t settings = .ok (.ok s₀)) (word : ∀ call ∈ calls, call.LoadsWord)
    (reached : s₀.run calls = .ok (s, replies)) (eliminated : s.phase = .eliminated)
    (primes : Prime.test s.modulus = .ok true →
      s.modulus.Prime ∨ settings.inverseTableLimit < s.modulus) :
    ∃ s' outcome, s.resolve = .ok (s', outcome) ∧
      ((∃ refusal, outcome = .error refusal) ↔ ∃ i, s.tableau.Blocked i) ∧
      ∀ refusal, outcome = .error refusal →
        (∃ i, IsLeast {i | s.tableau.Blocked i} i ∧
          refusal = .notInvertible i (s.tableau.entry i i) s.modulus ∧
          s.tableau.DividedBefore i s'.tableau) ∧
        s'.phase = .eliminated ∧
        (∀ first, s'.classifyFrom first = .ok (.error (.tooEarly .classify .resolve))) ∧
        ∀ later, (∀ call ∈ later, call = .resolve ∨ call = .solve) →
          s'.run later = .ok (s', List.replicate later.length (.refused refusal)) := by
  have holds := (Solver.ofTableau_holdsWords words built).run word reached
  obtain ⟨d, outcome, divided, ended⟩ :=
    Tableau.resolveFrom_blocked holds.words holds.total (holds.exact primes)
  have resolved := Solver.resolve_eq eliminated divided
  refine ⟨_, outcome, resolved, ?_⟩
  rcases ended with ⟨rfl, free⟩ | ⟨i, least, rfl, before, again⟩
  · refine ⟨⟨?_, fun ⟨i, blocked⟩ => absurd blocked (free i)⟩, nofun⟩
    rintro ⟨_, ⟨⟩⟩
  · refine ⟨⟨fun _ => ⟨i, least.1⟩, fun _ => ⟨_, rfl⟩⟩, ?_⟩
    rintro refusal ⟨⟩
    refine ⟨⟨i, least, rfl, before⟩, rfl, Solver.classifyFrom_of_eliminated rfl, fun later => ?_⟩
    exact Solver.run_of_stuck rfl (Solver.resolve_eq rfl again)

/-- The entries of the table are not reduced, and a swap has brought the pivot 17 to the diagonal,
behind another entry. Its row is divided before the last one is refused for the pivot 22. -/
theorem refusal_exact_and_stable_mod_twelve :
    (⟨12, 3, #[8, 17, 0, 25, 0, 0, 0, 0, 0, 0, 22, 2]⟩ : Tableau).OfWords ∧
    ∃ s₀ s replies s',
      Solver.ofTableau ⟨12, 3, #[8, 17, 0, 25, 0, 0, 0, 0, 0, 0, 22, 2]⟩ .default = .ok (.ok s₀) ∧
      s₀.run [.reset 12 [], .eliminate, .swapRows 0 1] = .ok (s, replies) ∧
      s.phase = .eliminated ∧ s.resolve = .ok (s', .error (.notInvertible 2 22 12)) ∧
      IsLeast {i | s.tableau.Blocked i} 2 ∧ s.tableau.DividedBefore 2 s'.tableau ∧
      s'.tableau = ⟨12, 3, #[0, 0, 0, 0, 8, 1, 0, 5, 0, 0, 22, 2]⟩ ∧
      s'.run [.solve, .resolve, .solve] = .ok (s', [.refused (.notInvertible 2 22 12),
        .refused (.notInvertible 2 22 12), .refused (.notInvertible 2 22 12)]) := by
  have words : (⟨12, 3, #[8, 17, 0, 25, 0, 0, 0, 0, 0, 0, 22, 2]⟩ : Tableau).OfWords :=
    ⟨by decide, by decide, rfl, by decide⟩
  have built : Solver.ofTableau ⟨12, 3, #[8, 17, 0, 25, 0, 0, 0, 0, 0, 0, 22, 2]⟩ .default =
      .ok (.ok ⟨⟨12, 3, #[8, 17, 0, 25, 0, 0, 0, 0, 0, 0, 22, 2]⟩, ⟨12, none⟩, 2 ^ 20, false,
        .loaded⟩) := by decide +kernel
  have reached : Solver.run ⟨⟨12, 3, #[8, 17, 0, 25, 0, 0, 0, 0, 0, 0, 22, 2]⟩, ⟨12, none⟩, 2 ^ 20,
        false, .loaded⟩ [.reset 12 [], .eliminate, .swapRows 0 1] =
      .ok (⟨⟨12, 3, #[0, 0, 0, 0, 8, 17, 0, 25, 0, 0, 22, 2]⟩, ⟨12, none⟩, 2 ^ 20, false,
        .eliminated⟩, [.refused (.malformed .noEquations), .done, .done]) := by decide +kernel
  have word : ∀ call ∈ ([.reset 12 [], .eliminate, .swapRows 0 1] : List Call), call.LoadsWord := by
    simp [Call.LoadsWord, wordBound]
  have composite : Prime.test 12 = .ok false := by decide +kernel
  obtain ⟨s', outcome, resolved, _, refused⟩ :=
    refusal_exact_and_stable words built word reached rfl
      fun accepted => by cases composite.symm.trans accepted
  have stopped : Solver.resolve ⟨⟨12, 3, #[0, 0, 0, 0, 8, 17, 0, 25, 0, 0, 22, 2]⟩, ⟨12, none⟩,
        2 ^ 20, false, .eliminated⟩ =
      .ok (⟨⟨12, 3, #[0, 0, 0, 0, 8, 1, 0, 5, 0, 0, 22, 2]⟩, ⟨12, none⟩, 2 ^ 20, false,
        .eliminated⟩, .error (.notInvertible 2 22 12)) := by decide +kernel
  obtain ⟨rfl, rfl⟩ := Prod.mk.inj (Except.ok.inj (stopped.symm.trans resolved))
  obtain ⟨⟨i, least, same, before⟩, _, _, again⟩ := refused _ rfl
  obtain ⟨rfl, _⟩ := Refusal.notInvertible.inj same
  exact ⟨words, _, _, _, _, built, reached, rfl, resolved, least, before, rfl,
    again [.solve, .resolve, .solve] (by decide)⟩

end LinearCongruences
