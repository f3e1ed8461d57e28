import Mathlib
import LinearCongruences.Proofs.Resolution

/-! The rows that the divisions have gone through. Each of them has been left alone or divided, and
needs no division any more. The others are as they were. -/
namespace LinearCongruences.Tableau

variable {t s s' : Tableau} {lookup : InverseLookup} {i r w : Nat} {refusal : Refusal}

/-- Row `r` is in `d` as it is in `t`. -/
def SameRow (t d : Tableau) (r : Nat) : Prop := ∀ c ≤ t.unknowns, d.entry r c = t.entry r c

/-- Row `r` has in `d` a one on the diagonal, and is as in `t` but for that and the constant. -/
def OneOnDiagonal (t d : Tableau) (r : Nat) : Prop :=
  d.entry r r = 1 ∧ ∀ c < t.unknowns, c ≠ r → d.entry r c = t.entry r c

/-- Row `r` has been left alone, or divided by its pivot. -/
def RowPassed (lookup : InverseLookup) (t d : Tableau) (r : Nat) : Prop :=
  ¬ t.NeedsDivision r ∧ t.SameRow d r ∨
  t.NeedsDivision r ∧ ∃ w, lookup.inverse (t.entry r r) = .ok (some w) ∧
    ∀ c ≤ t.unknowns, d.entry r c = t.dividedEntry r w r c

namespace RowPassed

variable (passed : RowPassed lookup t s r) (hr : r < t.unknowns)

include passed

theorem congr (same : ∀ c ≤ t.unknowns, s'.entry r c = s.entry r c) :
    RowPassed lookup t s' r := by
  rcases passed with ⟨unneeded, kept⟩ | ⟨needs, w, found, divided⟩
  · exact Or.inl ⟨unneeded, fun c hc => (same c hc).trans (kept c hc)⟩
  · exact Or.inr ⟨needs, w, found, fun c hc => (same c hc).trans (divided c hc)⟩

include hr

theorem sameRow_or_one : t.SameRow s r ∨ t.OneOnDiagonal s r := by
  rcases passed with ⟨_, kept⟩ | ⟨_, w, _, divided⟩
  · exact Or.inl kept
  · refine Or.inr ⟨?_, fun c hc other => ?_⟩
    · rw [divided r (Nat.le_of_lt hr), dividedEntry_pivot hr]
    · rw [divided c (Nat.le_of_lt hc), dividedEntry_beside hc other]

/-- A row that is passed is passed again without a division. -/
theorem unneeded (unknowns : s.unknowns = t.unknowns) : ¬ s.NeedsDivision r := by
  intro needs
  rcases passed with ⟨before, kept⟩ | ⟨_, w, _, divided⟩
  · have same : ∀ c < t.unknowns, s.entry r c = t.entry r c := fun c hc =>
      kept c (Nat.le_of_lt hc)
    exact before ((NeedsDivision.congr unknowns hr same).mp needs)
  · apply needs.2.2
    rw [divided r (Nat.le_of_lt hr), dividedEntry_pivot hr]

end RowPassed

/-- The divisions have passed the rows of `t` before row `i`, and have made `s` of it. -/
structure Passed (lookup : InverseLookup) (t : Tableau) (i : Nat) (s : Tableau) : Prop where
  words : s.OfWords
  modulus : s.modulus = t.modulus
  unknowns : s.unknowns = t.unknowns
  before : ∀ r < i, RowPassed lookup t s r
  after : ∀ r < t.unknowns, i ≤ r → t.SameRow s r

namespace Passed

theorem refl (words : t.OfWords) : Passed lookup t 0 t :=
  ⟨words, rfl, rfl, fun r hr => absurd hr (Nat.not_lt_zero r), fun _ _ _ _ _ => rfl⟩

variable (passed : Passed lookup t i s) (hi : i < t.unknowns)

include passed

theorem row_again {k : Nat} (earlier : k < i) (fits : i ≤ t.unknowns)
    (total : lookup.Total t.modulus) : Solver.resolveRow lookup s k = .ok (.ok s) := by
  have hk : k < t.unknowns := Nat.lt_of_lt_of_le earlier fits
  have unneeded := (passed.before k earlier).unneeded hk passed.unknowns
  exact resolveRow_unneeded passed.words (passed.unknowns ▸ hk) (passed.modulus ▸ total) unneeded

include hi

theorem needsDivision_iff : s.NeedsDivision i ↔ t.NeedsDivision i :=
  NeedsDivision.congr passed.unknowns hi fun c hc =>
    passed.after i hi (Nat.le_refl i) c (Nat.le_of_lt hc)

theorem pivot_eq : s.entry i i = t.entry i i :=
  passed.after i hi (Nat.le_refl i) i (Nat.le_of_lt hi)

theorem skip (unneeded : ¬ s.NeedsDivision i) : Passed lookup t (i + 1) s where
  words := passed.words
  modulus := passed.modulus
  unknowns := passed.unknowns
  before := by
    intro r hr
    rcases Nat.lt_succ_iff_lt_or_eq.mp hr with earlier | rfl
    · exact passed.before r earlier
    · have unneeded' := fun needs => unneeded ((passed.needsDivision_iff hi).mpr needs)
      exact Or.inl ⟨unneeded', passed.after r hi (Nat.le_refl r)⟩
  after := fun r hr later => passed.after r hr (Nat.le_of_succ_le later)

theorem divide (needs : s.NeedsDivision i)
    (found : lookup.inverse (s.entry i i) = .ok (some w)) (words : s'.OfWords)
    (rewritten : s.Rewritten (s.dividedEntry i w) s') : Passed lookup t (i + 1) s' := by
  have entry : ∀ r < t.unknowns, ∀ c ≤ t.unknowns, s'.entry r c = s.dividedEntry i w r c := by
    intro r hr c hc
    rw [← passed.unknowns] at hr hc
    exact rewritten.entry r hr c (Nat.lt_succ_of_le hc)
  have others : ∀ r < t.unknowns, r ≠ i → ∀ c ≤ t.unknowns, s'.entry r c = s.entry r c := by
    intro r hr other c hc
    rw [entry r hr c hc, dividedEntry_of_ne other]
  refine ⟨words, rewritten.modulus.trans passed.modulus, rewritten.unknowns.trans passed.unknowns,
    fun r hr => ?_, fun r hr later c hc => ?_⟩
  · rcases Nat.lt_succ_iff_lt_or_eq.mp hr with earlier | rfl
    · exact (passed.before r earlier).congr (others r (by omega) (by omega))
    · -- the row that is divided was as it is in `t` until then
      have same := passed.after r hi (Nat.le_refl r)
      rw [passed.pivot_eq hi] at found
      refine Or.inr ⟨(passed.needsDivision_iff hi).mp needs, w, found, fun c hc => ?_⟩
      rw [entry r hi c hc, dividedEntry, dividedEntry, passed.unknowns, passed.modulus, same c hc,
        same t.unknowns (Nat.le_refl _)]
  · rw [others r hr (by omega) c hc]
    exact passed.after r hr (Nat.le_of_succ_le later) c hc

theorem step (total : lookup.Total t.modulus) :
    ∃ outcome, Solver.resolveRow lookup s i = .ok outcome ∧
      ∀ s', outcome = .ok s' → Passed lookup t (i + 1) s' := by
  obtain ⟨outcome, run, division⟩ := resolveRow_division passed.words
    (passed.unknowns ▸ hi : i < s.unknowns) (passed.modulus ▸ total)
  refine ⟨outcome, run, ?_⟩
  rintro s' rfl
  rcases division with ⟨unneeded, rfl⟩ | ⟨needs, w, found, rewritten⟩
  · exact passed.skip hi unneeded
  · exact passed.divide hi needs found ((SameKind.resolveRow run).ofWords passed.words) rewritten

theorem refused (total : lookup.Total t.modulus)
    (run : Solver.resolveRow lookup s i = .ok (.error refusal)) :
    t.NeedsDivision i ∧ lookup.inverse (t.entry i i) = .ok none ∧
      refusal = .notInvertible i (t.entry i i) t.modulus := by
  obtain ⟨outcome, run', division⟩ := resolveRow_division passed.words
    (passed.unknowns ▸ hi : i < s.unknowns) (passed.modulus ▸ total)
  cases Except.ok.inj (run.symm.trans run')
  rw [RowDivision, passed.needsDivision_iff hi, passed.pivot_eq hi, passed.modulus] at division
  exact division

end Passed

theorem resolveFrom_passed (words : t.OfWords) (total : lookup.Total t.modulus) :
    ∃ d outcome, Solver.resolveFrom lookup t 0 t.unknowns = .ok (d, outcome) ∧
      (outcome = .ok () ∧ Passed lookup t t.unknowns d ∨
        ∃ i < t.unknowns, ∃ refusal, outcome = .error refusal ∧ Passed lookup t i d ∧
          Solver.resolveRow lookup d i = .ok (.error refusal)) :=
  resolveFrom_run (fun _ hi _ passed => passed.step hi total) t.unknowns (Passed.refl words)
    (Nat.zero_add _)

end LinearCongruences.Tableau
