import Mathlib
import LinearCongruences.Solver
import LinearCongruences.Proofs.Congruences

/-! Tables whose cells are words, reduced or not. A caller who writes to single cells can make such
a table. Whatever step is done to it, it stays one, and its modulus stays what it is. -/
namespace LinearCongruences

namespace Residue

variable {x y a b m result : Nat}

theorem lt_of_mul (run : mul x y m = .ok result) : result < m := by
  obtain ⟨product, _, run⟩ := Checked.bind_eq_ok.mp run
  unfold Checked.remainder at run
  split at run
  · cases run
  · cases run
    exact Nat.mod_lt _ (by omega)

theorem lt_of_combine (run : combine x a y b m = .ok result) : result < m := by
  obtain ⟨kept, first, run⟩ := Checked.bind_eq_ok.mp run
  obtain ⟨taken, second, run⟩ := Checked.bind_eq_ok.mp run
  have less := lt_of_mul first
  have less' := lt_of_mul second
  rw [sub_eq less less'] at run
  cases run
  exact representative_lt (by omega) _

end Residue

namespace Tableau

variable {t t' t'' s s' : Tableau} {r c x a b row column : Nat}

/-- The table has the right shape, and its modulus and its cells are words. -/
structure OfWords (t : Tableau) : Prop where
  modulus_pos : 0 < t.modulus
  modulus_lt : t.modulus < wordBound
  shaped : t.Shaped
  cells_lt : ∀ x ∈ t.cells, x < wordBound

theorem WellFormed.ofWords (h : t.WellFormed) : t.OfWords where
  modulus_pos := h.modulus_pos
  modulus_lt := h.modulus_lt
  shaped := h.shaped
  cells_lt := fun x member => Nat.lt_trans (h.cells_lt x member) h.modulus_lt

namespace OfWords

variable (h : t.OfWords)

include h

theorem lt_of_get (run : t.get r c = .ok x) : x < wordBound := by
  unfold Tableau.get Checked.get at run
  split at run
  · cases run
    exact h.cells_lt _ (Array.getElem_mem _)
  · cases run

theorem entry_lt (hr : r < t.unknowns) (hc : c < t.width) : t.entry r c < wordBound :=
  h.lt_of_get (get_eq h.shaped hr hc)

theorem set (word : x < wordBound) (run : t.set r c x = .ok t') : t'.OfWords := by
  obtain ⟨cells, written, same⟩ := Checked.bind_eq_ok.mp run
  cases same
  unfold Checked.set at written
  split at written
  · rename_i inside
    cases written
    refine ⟨h.modulus_pos, h.modulus_lt, (Array.size_set inside).trans h.shaped, fun y hy => ?_⟩
    have member : y ∈ t.cells.set (t.place r c) x inside := hy
    rcases Array.mem_or_eq_of_mem_set member with old | rfl
    · exact h.cells_lt y old
    · exact word
  · cases written

end OfWords

theorem modulus_set (run : t.set r c x = .ok t') : t'.modulus = t.modulus := by
  obtain ⟨cells, _, same⟩ := Checked.bind_eq_ok.mp run
  cases same
  rfl

/-- The table `t'` has the modulus of `t`, and it is one of words if `t` is. -/
structure SameKind (t t' : Tableau) : Prop where
  modulus : t'.modulus = t.modulus
  ofWords : t.OfWords → t'.OfWords

namespace SameKind

theorem refl (t : Tableau) : SameKind t t := ⟨rfl, id⟩

theorem trans (first : SameKind t t') (second : SameKind t' t'') : SameKind t t'' :=
  ⟨second.modulus.trans first.modulus, fun h => second.ofWords (first.ofWords h)⟩

/-- Every step is made of writes, and what is written is a word if the cells at the start are. -/
theorem set (sofar : SameKind t s) (word : t.OfWords → x < wordBound)
    (run : s.set r c x = .ok s') : SameKind t s' where
  modulus := (modulus_set run).trans sofar.modulus
  ofWords := fun h => (sofar.ofWords h).set (word h) run

theorem swapEntries (run : swapEntries a b t c = .ok t') : SameKind t t' := by
  obtain ⟨x, first, run⟩ := Checked.bind_eq_ok.mp run
  obtain ⟨y, second, run⟩ := Checked.bind_eq_ok.mp run
  obtain ⟨t₁, third, fourth⟩ := Checked.bind_eq_ok.mp run
  have half := (refl t).set (fun h => h.lt_of_get second) third
  exact half.set (fun h => h.lt_of_get first) fourth

theorem swapRows (run : t.swapRows a b = .ok t') : SameKind t t' := by
  unfold Tableau.swapRows at run
  split at run
  · cases run
    exact refl t
  · obtain ⟨_, _, run⟩ := Checked.bind_eq_ok.mp run
    exact Checked.foldlM_invariant (fun _ _ _ sofar step => sofar.trans (swapEntries step))
      (refl t) run

theorem mapRow {change : Nat → Nat → Checked Nat}
    (words : t.OfWords → ∀ c x y, x < wordBound → change c x = .ok y → y < wordBound)
    (run : t.mapRow r change = .ok t') : SameKind t t' := by
  refine Checked.foldlM_invariant (fun s c s' sofar step => ?_) (refl t) run
  obtain ⟨x, read, step⟩ := Checked.bind_eq_ok.mp step
  obtain ⟨y, changed, step⟩ := Checked.bind_eq_ok.mp step
  exact sofar.set (fun h => words h c x y ((sofar.ofWords h).lt_of_get read) changed) step

theorem cancel (run : t.cancel row column = .ok t') : SameKind t t' := by
  obtain ⟨earlier, _, run⟩ := Checked.bind_eq_ok.mp run
  obtain ⟨x, _, run⟩ := Checked.bind_eq_ok.mp run
  obtain ⟨y, _, run⟩ := Checked.bind_eq_ok.mp run
  obtain ⟨pair, _, run⟩ := Checked.bind_eq_ok.mp run
  obtain ⟨_, _, run⟩ := Checked.bind_eq_ok.mp run
  refine mapRow (fun h c x y word changed => ?_) run
  unfold cancelledEntry at changed
  split at changed
  · split at changed
    · exact Nat.lt_trans (Residue.lt_of_mul changed) h.modulus_lt
    · cases changed
      exact word
  · obtain ⟨p, _, combined⟩ := Checked.bind_eq_ok.mp changed
    exact Nat.lt_trans (Residue.lt_of_combine combined) h.modulus_lt

theorem clearEntry (run : clearEntry column t row = .ok t') : SameKind t t' := by
  unfold Tableau.clearEntry at run
  split at run
  · cases run
    exact refl t
  · obtain ⟨x, _, run⟩ := Checked.bind_eq_ok.mp run
    split at run
    · cases run
      exact refl t
    · exact cancel run

theorem eliminateColumn (run : t.eliminateColumn column = .ok t') : SameKind t t' := by
  obtain ⟨found, _, run⟩ := Checked.bind_eq_ok.mp run
  cases found with
  | none =>
    cases run
    exact refl t
  | some row =>
    obtain ⟨swapped, swap, clear⟩ := Checked.bind_eq_ok.mp run
    exact Checked.foldlM_invariant (fun _ _ _ sofar step => sofar.trans (clearEntry step))
      (swapRows swap) clear

theorem eliminate (run : t.eliminate = .ok t') : SameKind t t' :=
  Checked.foldlM_invariant (fun _ _ _ sofar step => sofar.trans (eliminateColumn step))
    (refl t) run

theorem resolveRow {lookup : InverseLookup}
    (run : Solver.resolveRow lookup t r = .ok (.ok t')) : SameKind t t' := by
  obtain ⟨pivot, _, run⟩ := Checked.bind_eq_ok.mp run
  split at run
  · cases run
    exact refl t
  · obtain ⟨coefficients, _, run⟩ := Checked.bind_eq_ok.mp run
    obtain ⟨later, _, run⟩ := Checked.bind_eq_ok.mp run
    split at run
    · cases run
      exact refl t
    · split at run
      · cases run
        exact refl t
      · obtain ⟨found, _, run⟩ := Checked.bind_eq_ok.mp run
        cases found with
        | none => cases run
        | some inverse =>
          obtain ⟨constant, _, run⟩ := Checked.bind_eq_ok.mp run
          obtain ⟨product, multiplied, run⟩ := Checked.bind_eq_ok.mp run
          obtain ⟨t₁, first, run⟩ := Checked.bind_eq_ok.mp run
          obtain ⟨t₂, second, same⟩ := Checked.bind_eq_ok.mp run
          cases same
          have half := (refl t).set
            (fun h => Nat.lt_trans (Residue.lt_of_mul multiplied) h.modulus_lt) first
          exact half.set (fun _ => by decide) second

theorem resolveFrom {lookup : InverseLookup} {count : Nat} {outcome : Except Refusal Unit}
    (run : Solver.resolveFrom lookup t r count = .ok (t', outcome)) : SameKind t t' := by
  induction count generalizing t r with
  | zero =>
    cases run
    exact refl _
  | succ count ih =>
    obtain ⟨divided, step, run⟩ := Checked.bind_eq_ok.mp run
    cases divided with
    | error refusal =>
      cases run
      exact refl _
    | ok t₁ => exact (resolveRow step).trans (ih run)

end SameKind

end Tableau

end LinearCongruences
