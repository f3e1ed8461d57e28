import LinearCongruences.Proofs.Relations

/-! Arithmetic modulo a word is exact. The operands may be any words, since products are reduced
before they are added up or subtracted, and for the same reason a point can be tested whose
entries are not reduced. -/
namespace LinearCongruences

namespace Tableau

variable {t : Tableau}

/-- The point holds if it has an entry for each unknown and solves each row as it stands. -/
theorem satisfiedBy_words (h : t.WellFormed) {values : List Nat}
    (words : ∀ x ∈ values, x < wordBound) :
    ∃ answer, t.satisfiedBy values = .ok answer ∧ (answer = true ↔
      values.length = t.unknowns ∧ ∀ row ∈ t.integerRows, SolvesRow t.modulus row values) := by
  obtain ⟨answer, run, meaning⟩ := satisfiedBy_spec ⟨h, rfl, rfl⟩ words
  refine ⟨answer, run, meaning.trans (and_congr_right fun length => ?_)⟩
  exact (solvesRows_iff h.shaped length).symm

end Tableau

namespace Residue

variable {m : Nat}

/-- Each operation returns, so no intermediate value leaves its range, and what it returns is the
representative of the integer that the operation stands for. -/
theorem arithmetic_exact (hm : 0 < m) (bound : m < wordBound) :
    (∀ z : Int, representative z m < m ∧ (representative z m : Int) ≡ z [ZMOD m]) ∧
    (∀ l < wordBound, ∀ a < wordBound, ∀ r < wordBound, ∀ b < wordBound,
      combine l a r b m = .ok (representative (l * a - r * b) m)) ∧
    (∀ coefficients values : List Nat, (∀ c ∈ coefficients, c < wordBound) →
      (∀ v ∈ values, v < wordBound) →
      dot coefficients values m = .ok (representative (products coefficients values) m)) ∧
    (∀ base exponent, pow base exponent m = .ok (base ^ exponent % m)) ∧
    (∀ z, normalize z m = .ok (representative z m)) ∧
    ∀ t : Tableau, t.WellFormed → t.modulus = m →
      ∀ values : List Nat, (∀ v ∈ values, v < wordBound) →
      ∃ answer, t.satisfiedBy values = .ok answer ∧ (answer = true ↔
        values.length = t.unknowns ∧ ∀ row ∈ t.integerRows, SolvesRow m row values) := by
  refine ⟨fun z => ⟨representative_lt hm z, representative_modEq hm z⟩, ?_, ?_, pow_eq hm bound,
    normalize_eq hm bound, ?_⟩
  · intro l hl a ha r hr b hb
    exact combine_eq hm hl ha hr hb
  · intro coefficients values hc hv
    exact dot_eq hm bound hc hv
  · rintro t wellFormed rfl values words
    exact Tableau.satisfiedBy_words wellFormed words

/-- The largest prime word as modulus, with the largest word, which is not reduced, as operand. -/
theorem arithmetic_exact_largest_prime :
    let m := wordBound - 59
    let top := wordBound - 1
    let t : Tableau := ⟨m, 1, #[1, 58]⟩
    combine top top top 1 m = .ok (58 * 58 - 58) ∧ dot [top, 2] [top] m = .ok (58 * 58) ∧
      pow (m + 1) top m = .ok 1 ∧
      normalize (-(signedWordBound : Int)) m = .ok (m - signedWordBound) ∧
      t.satisfiedBy [top] = .ok true := by
  intro m top t
  have word : top < wordBound := by decide
  obtain ⟨_, combine, dot, pow, normalize, satisfied⟩ :=
    arithmetic_exact (m := m) (by decide) (by decide)
  refine ⟨?_, ?_, ?_, ?_, ?_⟩
  · rw [combine top word top word top word 1 (by decide)]
    decide +kernel
  · rw [dot [top, 2] [top] (by decide) (by decide)]
    decide +kernel
  · have one : (m + 1) % m = 1 := by decide +kernel
    rw [pow, Nat.pow_mod, one, one_pow]
    decide +kernel
  · rw [normalize]
    decide +kernel
  · obtain ⟨answer, run, meaning⟩ := satisfied t
      ⟨by decide, by decide, by decide, by decide, by decide⟩ rfl [top] (by decide)
    rw [run, meaning.mpr ⟨rfl, by decide +kernel⟩]

end Residue

end LinearCongruences
