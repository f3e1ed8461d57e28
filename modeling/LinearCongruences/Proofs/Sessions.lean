import Mathlib
import LinearCongruences.Proofs.RearrangedAnswers
import LinearCongruences.Session

/-! A solver whose rows are swapped between the steps. Its answers are right as far as they can be
read off the table it has come to, and the table is right unless a division has met a row that names
columns before its diagonal. -/
namespace LinearCongruences

open Tableau

/-- The call stays with the loaded system, and the rows that it swaps are rows of the table. -/
def Call.Within (n : Nat) : Call → Prop
  | .swapRows a b => a < n ∧ b < n
  | .classifyFrom first => first = 0
  | .reset _ _ => False
  | _ => True

/-- The call divides rows that may have been swapped since they were eliminated. -/
def Call.Divides (s : Solver) : Call → Prop
  | .resolve => s.phase = .eliminated
  | .solve => s.phase = .eliminated
  | _ => False

/-- In each call that divides rows, those to be divided name no column before their diagonals. -/
def Solver.DividesWhole (s : Solver) : List Call → Prop
  | [] => True
  | call :: rest => (call.Divides s → s.tableau.DividesWhole) ∧
      ∀ s' reply, s.perform call = .ok (s', reply) → s'.DividesWhole rest

variable {m n : Nat} {t u : Tableau} {s s' : Solver} {whole : Prop} {reply : Reply}

theorem Solver.dividesWhole_cons {call : Call} {rest : List Call}
    (run : s.perform call = .ok (s', reply)) : s.DividesWhole (call :: rest) ↔
      (call.Divides s → s.tableau.DividesWhole) ∧ s'.DividesWhole rest := by
  apply and_congr_right
  intro _
  constructor
  · intro all
    exact all s' reply run
  · intro next s₁ reply₁ run₁
    cases Except.ok.inj (run.symm.trans run₁)
    exact next

theorem Reply.ofAnswer_eq_answered {answer : Except Refusal Verdict} {verdict : Verdict} :
    Reply.ofAnswer answer = .answered verdict ↔ answer = .ok verdict := by
  cases answer <;> simp [Reply.ofAnswer]

theorem Solver.run_length {calls : List Call} {replies : List Reply}
    (run : s.run calls = .ok (s', replies)) : replies.length = calls.length := by
  induction calls generalizing s replies with
  | nil =>
    cases Except.ok.inj run
    rfl
  | cons call rest ih =>
    obtain ⟨⟨s₁, reply⟩, _, run⟩ := Checked.bind_eq_ok.mp run
    obtain ⟨⟨s₂, replies'⟩, run', result⟩ := Checked.bind_eq_ok.mp run
    cases Except.ok.inj result
    rw [List.length_cons, List.length_cons, ih run']

/-- Where a solver stands that was loaded with `t`. `whole` tells whether all rows have been divided
as a whole so far. -/
inductive Stage (m n : Nat) (t : Tableau) (whole : Prop) (s : Solver) : Prop where
  | loaded (phase : s.phase = .loaded) (sofar : whole) (table : s.tableau.IsTable m n)
      (same : ∀ x, s.tableau.Holds m x ↔ t.Holds m x)
  | eliminated {e : Tableau} {σ : Equiv.Perm Nat} (phase : s.phase = .eliminated) (sofar : whole)
      (moved : Moved m n e s.tableau σ) (same : ∀ x, e.Holds m x ↔ t.Holds m x)
  | resolved {e : Tableau} {σ : Equiv.Perm Nat} (phase : s.phase = .resolved)
      (rearranged : Rearranged m n e s.tableau σ) (intact : Intact m n e s.tableau σ ↔ whole)
      (same : ∀ x, e.Holds m x ↔ t.Holds m x)

namespace Stage

variable (stage : Stage m n t whole s)

include stage

theorem isTable : s.tableau.IsTable m n := by
  cases stage with
  | loaded _ _ table _ => exact table
  | eliminated _ _ moved _ => exact moved.rows.toIsTable
  | resolved _ rearranged _ _ => exact rearranged.table

theorem swap {a b : Nat} (ha : a < n) (hb : b < n)
    (result : u.Represents m n fun r c => s.tableau.residue m (Equiv.swap a b r) c) :
    Stage m n t whole { s with tableau := u } := by
  cases stage with
  | loaded phase sofar table same =>
    refine .loaded phase sofar result.toIsTable fun x => ?_
    rw [swap_holds_iff table ha hb result, same]
  | eliminated phase sofar moved same =>
    exact .eliminated phase sofar (moved.swap ha hb result) same
  | resolved phase rearranged intact same =>
    obtain ⟨rearranged', kept⟩ := rearranged.swap ha hb result
    exact .resolved phase rearranged' (kept.trans intact) same

/-- The solutions are those of the loaded system exactly if the rows have been divided as a whole,
or there are none. -/
theorem solution_iff_iff (prime : m.Prime) (h : t.IsTable m n) :
    (∀ x, s.tableau.Solution x ↔ t.Solution x) ↔ whole ∨ ∀ x, ¬ t.Solution x := by
  cases stage with
  | loaded _ sofar table same =>
    exact iff_of_true (fun x => (solution_congr h table same x).symm) (Or.inl sofar)
  | eliminated _ sofar moved same =>
    apply iff_of_true _ (Or.inl sofar)
    intro x
    rw [solution_congr h moved.source same]
    exact (moved.rearranged.solution_iff_iff prime).mpr (Or.inl moved.intact) x
  | resolved _ rearranged intact same =>
    simp only [solution_congr h rearranged.source same, ← intact]
    exact rearranged.solution_iff_iff prime

theorem right_iff (prime : m.Prime) (h : t.IsTable m n) (resolved : s.phase = .resolved)
    {verdict : Verdict} (reads : s.tableau.ReadsAs (.ok verdict)) :
    verdict.Right t.Solution ↔ verdict.Checks s.tableau whole := by
  cases stage with
  | loaded phase => simp [resolved] at phase
  | eliminated phase => simp [resolved] at phase
  | resolved _ rearranged intact same =>
    rw [funext fun x => propext (solution_congr h rearranged.source same x), ← propext intact]
    exact rearranged.right_iff prime reads

end Stage

theorem Tableau.Reduced.moved (h : u.IsTable m n) (reduced : u.Reduced n) :
    Moved m n u u (Equiv.refl Nat) where
  rows := ⟨h, fun _ _ _ _ => rfl⟩
  source := h
  reduced := reduced
  lt_iff := fun _ => Iff.rfl

/-- Rows that have not been swapped name no column before their diagonals. -/
theorem Tableau.Reduced.dividesWhole (h : u.IsTable m n) (reduced : u.Reduced n) :
    u.DividesWhole := by
  intro r hr needs c before
  exact reduced.pivot_left r hr ⟨h.unknowns ▸ hr, needs.1⟩ c before

structure Progress (m n : Nat) (t : Tableau) (whole : Prop) (s : Solver) : Prop where
  total : s.lookup.Total m
  exact : s.lookup.Exact m
  stage : Stage m n t whole s

namespace Progress

variable (progress : Progress m n t whole s) (prime : m.Prime)

include progress

theorem swapRows {a b : Nat} (ha : a < n) (hb : b < n) :
    ∃ s', s.swapRows a b = .ok s' ∧ Progress m n t whole s' := by
  obtain ⟨u, run, result⟩ := swap_spec progress.stage.isTable ha hb
  refine ⟨{ s with tableau := u }, ?_, progress.total, progress.exact,
    progress.stage.swap ha hb result⟩
  rw [Solver.swapRows, run]
  rfl

theorem classify : ∃ answer, s.classify = .ok answer ∧ ∀ verdict, answer = .ok verdict →
    s.phase = .resolved ∧ s.tableau.ReadsAs (.ok verdict) := by
  by_cases resolved : s.phase = .resolved
  · obtain ⟨answer, run, reads⟩ := Solver.classify_spec progress.stage.isTable resolved
    exact ⟨answer, run, fun verdict same => ⟨resolved, same ▸ reads⟩⟩
  · refine ⟨.error (.tooEarly .classify .resolve), ?_, fun _ same => by cases same⟩
    rw [Solver.classify, Solver.classifyFrom, if_pos resolved]
    rfl

include prime

/-- Elimination brings the rows into places where they can be divided, if it is still to be done. -/
theorem eliminate : ∃ s', s.eliminate = .ok s' ∧ Progress m n t whole s' ∧ s'.phase ≠ .loaded ∧
    ((s'.phase = .eliminated → s'.tableau.DividesWhole) ↔
      (s.phase = .eliminated → s.tableau.DividesWhole)) := by
  by_cases fresh : s.phase = .loaded
  · cases progress.stage with
    | eliminated phase => simp [fresh] at phase
    | resolved phase => simp [fresh] at phase
    | loaded _ sofar table same =>
      obtain ⟨e, run, known⟩ := eliminate_spec table
      obtain ⟨reduced, same'⟩ := known.reduced fun r hr => coprime_of_entry prime known.table hr
      refine ⟨{ s with tableau := e, phase := .eliminated }, ?_, ⟨progress.total, progress.exact,
        .eliminated rfl sofar (reduced.moved known.table) fun x => (same' x).trans (same x)⟩,
        by simp, iff_of_true (fun _ => reduced.dividesWhole known.table) (by simp [fresh])⟩
      rw [Solver.eliminate, if_pos fresh, run]
      rfl
  · refine ⟨s, ?_, progress, fresh, Iff.rfl⟩
    rw [Solver.eliminate, if_neg fresh]
    rfl

/-- The divisions succeed, and keep what the rows say if they are divided as a whole. -/
theorem resolve (started : s.phase ≠ .loaded) : ∃ s', s.resolve = .ok (s', .ok ()) ∧
    Progress m n t (whole ∧ (s.phase = .eliminated → s.tableau.DividesWhole)) s' ∧
    s'.phase = .resolved := by
  cases progress.stage with
  | loaded phase => exact absurd phase started
  | eliminated phase sofar moved same =>
    have table := moved.rows.toIsTable
    obtain ⟨d, run, divided⟩ := resolveFrom_dividedOut prime table progress.total progress.exact
    obtain ⟨rearranged, intact⟩ := moved.dividedOut prime divided
    refine ⟨{ s with tableau := d, phase := .resolved }, ?_, ⟨progress.total, progress.exact,
      .resolved rfl rearranged (intact.trans (by simp [sofar, phase])) same⟩, rfl⟩
    simp only [Solver.resolve, phase, Solver.unknowns, table.unknowns, run]
    rfl
  | resolved phase rearranged intact same =>
    refine ⟨s, ?_, ⟨progress.total, progress.exact,
      .resolved phase rearranged (intact.trans (by simp [phase])) same⟩, phase⟩
    simp only [Solver.resolve, phase]
    rfl

theorem solve : ∃ s' answer, s.solve = .ok (s', answer) ∧
    Progress m n t (whole ∧ (s.phase = .eliminated → s.tableau.DividesWhole)) s' ∧
    ∀ verdict, answer = .ok verdict →
      s'.phase = .resolved ∧ s'.tableau.ReadsAs (.ok verdict) := by
  obtain ⟨s₁, run₁, progress₁, started, same⟩ := progress.eliminate prime
  obtain ⟨s₂, run₂, progress₂, _⟩ := progress₁.resolve prime started
  obtain ⟨answer, run, reads⟩ := progress₂.classify
  rw [propext same] at progress₂
  refine ⟨s₂, answer, ?_, progress₂, reads⟩
  simp only [Solver.solve, run₁, run₂, run, Checked.ok_bind, Checked.pure_eq_ok]

/-- One call. Each answer is read off the table that the solver has then. -/
theorem perform {call : Call} (within : call.Within n) : ∃ s' reply,
    s.perform call = .ok (s', reply) ∧
    Progress m n t (whole ∧ (call.Divides s → s.tableau.DividesWhole)) s' ∧
    ∀ verdict, reply = .answered verdict →
      s'.phase = .resolved ∧ s'.tableau.ReadsAs (.ok verdict) := by
  -- a call that does not divide leaves `whole` as it is
  have undivided : ∀ {s'}, Progress m n t whole s' → ¬ call.Divides s →
      Progress m n t (whole ∧ (call.Divides s → s.tableau.DividesWhole)) s' := by
    intro s' progress' never
    rwa [eq_true fun divides => absurd divides never, and_true]
  cases call with
  | swapRows a b =>
    obtain ⟨s', run, progress'⟩ := progress.swapRows within.1 within.2
    refine ⟨s', .done, ?_, undivided progress' id, by simp⟩
    simp only [Solver.perform, run, Checked.ok_bind, Checked.pure_eq_ok]
  | eliminate =>
    obtain ⟨s', run, progress', _⟩ := progress.eliminate prime
    refine ⟨s', .done, ?_, undivided progress' id, by simp⟩
    simp only [Solver.perform, run, Checked.ok_bind, Checked.pure_eq_ok]
  | resolve =>
    by_cases fresh : s.phase = .loaded
    · refine ⟨s, .refused (.tooEarly .resolve .eliminate), ?_,
        undivided progress (by simp [Call.Divides, fresh]), by simp⟩
      simp only [Solver.perform, Solver.resolve, fresh, Checked.ok_bind, Checked.pure_eq_ok]
      rfl
    · obtain ⟨s', run, progress', _⟩ := progress.resolve prime fresh
      refine ⟨s', .done, ?_, progress', by simp⟩
      simp only [Solver.perform, run, Checked.ok_bind, Checked.pure_eq_ok]
      rfl
  | classifyFrom first =>
    obtain rfl : first = 0 := within
    obtain ⟨answer, run, reads⟩ := progress.classify
    refine ⟨s, .ofAnswer answer, ?_, undivided progress id, ?_⟩
    · rw [Solver.classify] at run
      simp only [Solver.perform, run, Checked.ok_bind, Checked.pure_eq_ok]
    · exact fun verdict same => reads verdict (Reply.ofAnswer_eq_answered.mp same)
  | solve =>
    obtain ⟨s', answer, run, progress', reads⟩ := progress.solve prime
    refine ⟨s', .ofAnswer answer, ?_, progress', ?_⟩
    · simp only [Solver.perform, run, Checked.ok_bind, Checked.pure_eq_ok]
    · exact fun verdict same => reads verdict (Reply.ofAnswer_eq_answered.mp same)
  | reset modulus rows => exact absurd within id

theorem run (calls : List Call) (within : ∀ call ∈ calls, call.Within n) : ∃ final replies,
    s.run calls = .ok (final, replies) ∧
    Progress m n t (whole ∧ s.DividesWhole calls) final ∧
    ∀ verdict, replies.getLast? = some (.answered verdict) →
      final.phase = .resolved ∧ final.tableau.ReadsAs (.ok verdict) := by
  induction calls generalizing s whole with
  | nil =>
    refine ⟨s, [], rfl, ?_, by simp⟩
    rwa [eq_true (show s.DividesWhole [] from trivial), and_true]
  | cons call rest ih =>
    obtain ⟨first, others⟩ := List.forall_mem_cons.mp within
    obtain ⟨s', reply, run, progress', reads⟩ := progress.perform prime first
    obtain ⟨final, replies, run', progress'', reads'⟩ := ih progress' others
    refine ⟨final, reply :: replies, ?_, ?_, ?_⟩
    · rw [Solver.run, run, Checked.ok_bind]
      simp only [run', Checked.ok_bind, Checked.pure_eq_ok]
    · rwa [propext (Solver.dividesWhole_cons run), ← and_assoc]
    · intro verdict last
      -- the last reply is that of the last call, which is this one if no other follows
      cases replies with
      | nil =>
        obtain rfl : rest = [] := List.length_eq_zero_iff.mp (Solver.run_length run').symm
        cases Except.ok.inj run'
        exact reads verdict (by simpa using last)
      | cons next more => exact reads' verdict (by rwa [List.getLast?_cons_cons] at last)

end Progress

/-- Over a prime modulus a session keeps the solutions exactly if all its divisions leave no
coefficient of a row behind, and its answers are right as far as that can be read off the table. -/
theorem session_right_iff (wf : t.WellFormed) (prime : t.modulus.Prime) (settings : Settings)
    (room : InverseLookup.HasRoom t.modulus settings.inverseTableLimit) :
    ∃ s, Solver.ofTableau t settings = .ok (.ok s) ∧
      ∀ calls, (∀ call ∈ calls, call.Within t.unknowns) →
        ∃ final replies, s.run calls = .ok (final, replies) ∧
          ((∀ x, final.tableau.Solution x ↔ t.Solution x) ↔
            s.DividesWhole calls ∨ ∀ x, ¬ t.Solution x) ∧
          ∀ verdict, replies.getLast? = some (.answered verdict) →
            (verdict.Right t.Solution ↔
              verdict.Checks final.tableau (s.DividesWhole calls)) := by
  have h : t.IsTable t.modulus t.unknowns := ⟨wf, rfl, rfl⟩
  obtain ⟨s, built, fresh, exact⟩ := Solver.ofTableau_prime h prime room
  have start : Progress t.modulus t.unknowns t True s := by
    refine ⟨fresh.total, exact, .loaded fresh.loaded trivial ?_ fun x => ?_⟩
    · rwa [fresh.tableau]
    · rw [fresh.tableau]
  refine ⟨s, built, fun calls within => ?_⟩
  obtain ⟨final, replies, run, progress, reads⟩ := start.run prime calls within
  rw [true_and] at progress
  refine ⟨final, replies, run, progress.stage.solution_iff_iff prime h, fun verdict last => ?_⟩
  obtain ⟨resolved, reads⟩ := reads verdict last
  exact progress.stage.right_iff prime h resolved reads

/-- A solver modulo seven, as the default settings make it. -/
def Solver.modSeven (t : Tableau) (phase : Phase) : Solver :=
  ⟨t, ⟨7, some ⟨7, #[0, 1, 4, 5, 2, 3, 6]⟩⟩, 2 ^ 20, false, phase⟩

/-- A relation that has been moved to the row of its other unknown still gives all solutions, as it
was left alone in its own place. -/
theorem session_right_mod_seven :
    (Solver.modSeven ⟨7, 2, #[2, 3, 1, 0, 0, 0]⟩ .loaded).run [.solve, .swapRows 0 1, .classify] =
      .ok (.modSeven ⟨7, 2, #[0, 0, 0, 2, 3, 1]⟩ .resolved,
        [.answered (.infinite ⟨7, 2, [1], [⟨0, 2, [(1, 3)], 1⟩]⟩), .done,
          .answered (.infinite ⟨7, 2, [0], [⟨1, 3, [(0, 2)], 1⟩]⟩)]) ∧
    (Verdict.infinite ⟨7, 2, [0], [⟨1, 3, [(0, 2)], 1⟩]⟩).Right
      (⟨7, 2, #[2, 3, 1, 0, 0, 0]⟩ : Tableau).Solution := by
  have wf : (⟨7, 2, #[2, 3, 1, 0, 0, 0]⟩ : Tableau).WellFormed :=
    ⟨by decide, by decide, by decide, by decide, by decide⟩
  have prime : Nat.Prime 7 := by norm_num
  obtain ⟨s, built, sessions⟩ := session_right_iff wf prime .default (.of_limit (by decide))
  obtain ⟨final, replies, run, _, right⟩ :=
    sessions [.solve, .swapRows 0 1, .classify] (by simp [Call.Within, Call.classify])
  have loaded : Solver.ofTableau ⟨7, 2, #[2, 3, 1, 0, 0, 0]⟩ .default =
      .ok (.ok (.modSeven ⟨7, 2, #[2, 3, 1, 0, 0, 0]⟩ .loaded)) := by decide +kernel
  obtain rfl := Except.ok.inj (Except.ok.inj (loaded.symm.trans built))
  have solved : (Solver.modSeven ⟨7, 2, #[2, 3, 1, 0, 0, 0]⟩ .loaded).perform .solve =
      .ok (.modSeven ⟨7, 2, #[2, 3, 1, 0, 0, 0]⟩ .resolved,
        .answered (.infinite ⟨7, 2, [1], [⟨0, 2, [(1, 3)], 1⟩]⟩)) := by decide +kernel
  have swapped : (Solver.modSeven ⟨7, 2, #[2, 3, 1, 0, 0, 0]⟩ .loaded).run
        [.solve, .swapRows 0 1, .classify] =
      .ok (.modSeven ⟨7, 2, #[0, 0, 0, 2, 3, 1]⟩ .resolved,
        [.answered (.infinite ⟨7, 2, [1], [⟨0, 2, [(1, 3)], 1⟩]⟩), .done,
          .answered (.infinite ⟨7, 2, [0], [⟨1, 3, [(0, 2)], 1⟩]⟩)]) := by decide +kernel
  obtain ⟨rfl, rfl⟩ := Prod.mk.inj (Except.ok.inj (swapped.symm.trans run))
  refine ⟨swapped, (right _ rfl).mpr ⟨?_, by simp [Family.InOrder]⟩⟩
  rw [Solver.dividesWhole_cons solved]
  simp [Call.Divides, Call.classify, Solver.modSeven, Solver.DividesWhole]

/-- Swapped rows can lose a solution, with a row that is divided in part; they can make a constant
pass for the value of an unknown, with a row that is not divided at all; and they can make an
assignment read an unknown that is not yet known. -/
theorem swapped_rows_falsify_mod_seven :
    (Solver.ofTableau ⟨7, 2, #[2, 3, 1, 0, 0, 0]⟩ .default =
        .ok (.ok (.modSeven ⟨7, 2, #[2, 3, 1, 0, 0, 0]⟩ .loaded)) ∧
      (Solver.modSeven ⟨7, 2, #[2, 3, 1, 0, 0, 0]⟩ .loaded).run
          [.eliminate, .swapRows 0 1, .resolve, .classify] =
        .ok (.modSeven ⟨7, 2, #[0, 0, 0, 2, 1, 5]⟩ .resolved,
          [.done, .done, .done, .answered (.infinite ⟨7, 2, [0], [⟨1, 1, [(0, 2)], 5⟩]⟩)]) ∧
      (⟨7, 2, #[2, 3, 1, 0, 0, 0]⟩ : Tableau).Solution [4, 0] ∧
      ¬ (⟨7, 2, #[0, 0, 0, 2, 1, 5]⟩ : Tableau).Solution [4, 0] ∧
      ¬ (Verdict.infinite ⟨7, 2, [0], [⟨1, 1, [(0, 2)], 5⟩]⟩).Right
        (⟨7, 2, #[2, 3, 1, 0, 0, 0]⟩ : Tableau).Solution) ∧
    (Solver.ofTableau ⟨7, 2, #[2, 0, 4, 0, 3, 1]⟩ .default =
        .ok (.ok (.modSeven ⟨7, 2, #[2, 0, 4, 0, 3, 1]⟩ .loaded)) ∧
      (Solver.modSeven ⟨7, 2, #[2, 0, 4, 0, 3, 1]⟩ .loaded).run
          [.eliminate, .swapRows 0 1, .resolve, .swapRows 0 1, .classify] =
        .ok (.modSeven ⟨7, 2, #[2, 0, 4, 0, 3, 1]⟩ .resolved,
          [.done, .done, .done, .done, .answered (.unique [4, 1])]) ∧
      ¬ (Verdict.unique [4, 1]).Right (⟨7, 2, #[2, 0, 4, 0, 3, 1]⟩ : Tableau).Solution) ∧
    (Solver.ofTableau ⟨7, 3, #[1, 0, 1, 1, 0, 1, 1, 2, 0, 0, 0, 0]⟩ .default =
        .ok (.ok (.modSeven ⟨7, 3, #[1, 0, 1, 1, 0, 1, 1, 2, 0, 0, 0, 0]⟩ .loaded)) ∧
      (Solver.modSeven ⟨7, 3, #[1, 0, 1, 1, 0, 1, 1, 2, 0, 0, 0, 0]⟩ .loaded).run
          [.solve, .swapRows 1 2, .classify] =
        .ok (.modSeven ⟨7, 3, #[1, 0, 1, 1, 0, 0, 0, 0, 0, 1, 1, 2]⟩ .resolved,
          [.answered (.infinite ⟨7, 3, [2], [⟨0, 1, [(2, 1)], 1⟩, ⟨1, 1, [(2, 1)], 2⟩]⟩), .done,
            .answered (.infinite ⟨7, 3, [1], [⟨0, 1, [(2, 1)], 1⟩, ⟨2, 1, [(1, 1)], 2⟩]⟩)]) ∧
      ¬ (Verdict.infinite ⟨7, 3, [1], [⟨0, 1, [(2, 1)], 1⟩, ⟨2, 1, [(1, 1)], 2⟩]⟩).Right
        (⟨7, 3, #[1, 0, 1, 1, 0, 1, 1, 2, 0, 0, 0, 0]⟩ : Tableau).Solution) := by
  refine ⟨⟨by decide +kernel, by decide +kernel, by decide, by decide, fun covers => ?_⟩,
    ⟨by decide +kernel, by decide +kernel, fun only => ?_⟩,
    ⟨by decide +kernel, by decide +kernel, fun covers => ?_⟩⟩
  · obtain ⟨x, run, solution⟩ := covers.solves [1] ⟨rfl, by decide⟩
    have assigned : Family.assign ⟨7, 2, [0], [⟨1, 1, [(0, 2)], 5⟩]⟩ [1] = .ok (.ok [1, 3]) := by
      decide +kernel
    obtain rfl := Except.ok.inj (Except.ok.inj (assigned.symm.trans run))
    revert solution
    decide
  · have solution := (only [4, 1]).mpr rfl
    revert solution
    decide
  · obtain ⟨x, run, solution⟩ := covers.solves [0] ⟨rfl, by decide⟩
    have assigned : Family.assign ⟨7, 3, [1], [⟨0, 1, [(2, 1)], 1⟩, ⟨2, 1, [(1, 1)], 2⟩]⟩ [0] =
        .ok (.ok [1, 0, 2]) := by decide +kernel
    obtain rfl := Except.ok.inj (Except.ok.inj (assigned.symm.trans run))
    revert solution
    decide

end LinearCongruences
