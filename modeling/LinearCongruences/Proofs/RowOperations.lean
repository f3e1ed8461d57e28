import Mathlib
import LinearCongruences.Elimination
import LinearCongruences.Proofs.Congruences

/-! What the steps of elimination do to the classes of the entries, whatever the modulus. -/
namespace LinearCongruences.Tableau

/-- A well-formed table of `n` congruences modulo `m`. -/
structure IsTable (m n : Nat) (t : Tableau) : Prop where
  wellFormed : t.WellFormed
  modulus : t.modulus = m
  unknowns : t.unknowns = n

/-- A table with the classes `f`. -/
structure Represents (m n : Nat) (f : Nat → Nat → ZMod m) (t : Tableau) : Prop
    extends IsTable m n t where
  residue : ∀ r < n, ∀ c ≤ n, t.residue m r c = f r c

/-- The row holds the pivot of a column before this one. -/
def Settled (t : Tableau) (column row : Nat) : Prop := row < column ∧ t.entry row row ≠ 0

/-- The row can give the pivot of a column. -/
def Offers (t : Tableau) (column row : Nat) : Prop :=
  ¬ t.Settled column row ∧ t.entry row column ≠ 0

instance (t : Tableau) (column row : Nat) : Decidable (t.Settled column row) :=
  inferInstanceAs (Decidable (_ ∧ _))

instance (t : Tableau) (column row : Nat) : Decidable (t.Offers column row) :=
  inferInstanceAs (Decidable (_ ∧ _))

variable {m n : Nat} {t t' : Tableau} {r c row column : Nat}

namespace IsTable

theorem pos (h : t.IsTable m n) : 0 < m := h.modulus ▸ h.wellFormed.modulus_pos

theorem bound (h : t.IsTable m n) : m < wordBound := h.modulus ▸ h.wellFormed.modulus_lt

theorem shaped (h : t.IsTable m n) : t.Shaped := h.wellFormed.shaped

theorem width (h : t.IsTable m n) : t.width = n + 1 := congrArg (· + 1) h.unknowns

theorem entry_lt (h : t.IsTable m n) (hr : r < n) (hc : c ≤ n) : t.entry r c < m := by
  have inside : c < t.width := by
    rw [h.width]
    omega
  exact h.modulus ▸ h.wellFormed.entry_lt (h.unknowns ▸ hr) inside

theorem entry_word (h : t.IsTable m n) (hr : r < n) (hc : c ≤ n) : t.entry r c < wordBound :=
  Nat.lt_trans (h.entry_lt hr hc) h.bound

theorem get_eq (h : t.IsTable m n) (hr : r < n) (hc : c ≤ n) :
    t.get r c = .ok (t.entry r c) := by
  have inside : c < t.width := by
    rw [h.width]
    omega
  exact Tableau.get_eq h.shaped (h.unknowns ▸ hr) inside

theorem diagonal_eq (h : t.IsTable m n) (hr : r < n) : t.diagonal r = .ok (t.entry r r) :=
  h.get_eq hr (Nat.le_of_lt hr)

theorem residue_eq_zero (h : t.IsTable m n) (hr : r < n) (hc : c ≤ n) :
    t.residue m r c = 0 ↔ t.entry r c = 0 :=
  Residue.cast_eq_zero (h.entry_lt hr hc)

/-- Entries rewritten with reduced numbers make a table again, told by their classes. -/
theorem rewritten (h : t.IsTable m n) {f : Nat → Nat → Nat} (new : t.Rewritten f t')
    (reduced : ∀ r < n, ∀ c ≤ n, f r c < m) : t'.Represents m n fun r c => (f r c : ZMod m) where
  wellFormed := by
    refine new.wellFormed h.wellFormed fun r hr c hc => ?_
    rw [h.unknowns] at hr
    rw [h.width] at hc
    rw [h.modulus]
    exact reduced r hr c (by omega)
  modulus := new.modulus.trans h.modulus
  unknowns := new.unknowns.trans h.unknowns
  residue := by
    intro r hr c hc
    have inside : c < t.width := by
      rw [h.width]
      omega
    exact congrArg Nat.cast (new.entry r (h.unknowns ▸ hr) c inside)

/-- The entries of a table follow from its classes. -/
theorem entry_eq (h : t.IsTable m n) (h' : t'.IsTable m n) {r' c' : Nat} (hr : r < n)
    (hc : c ≤ n) (hr' : r' < n) (hc' : c' ≤ n) (same : t.residue m r c = t'.residue m r' c') :
    t.entry r c = t'.entry r' c' :=
  Residue.eq_of_cast_eq (h.entry_lt hr hc) (h'.entry_lt hr' hc') same

theorem hasEarlierPivot_eq (h : t.IsTable m n) (hr : row < n) :
    t.hasEarlierPivot row column = .ok (decide (t.Settled column row)) := by
  unfold hasEarlierPivot
  split
  · rename_i before
    rw [h.diagonal_eq hr, Checked.ok_bind, Checked.pure_eq_ok]
    congr 1
    by_cases zero : t.entry row row = 0 <;> simp [Settled, before, zero]
  · rename_i after
    simp [Settled, after]

theorem offersPivot_eq (h : t.IsTable m n) (hr : row < n) (hc : column ≤ n) :
    t.offersPivot row column = .ok (decide (t.Offers column row)) := by
  rw [offersPivot, h.hasEarlierPivot_eq hr, Checked.ok_bind]
  by_cases settled : t.Settled column row
  · simp [Offers, settled]
  · rw [if_neg (by simpa using settled), h.get_eq hr hc, Checked.ok_bind, Checked.pure_eq_ok]
    congr 1
    by_cases zero : t.entry row column = 0 <;> simp [Offers, settled, zero]

end IsTable

/-- The answer of the pivot search: the first row that can give the pivot. -/
def FirstOffer (t : Tableau) (column : Nat) : Option Nat → Prop
  | none => ∀ r < t.unknowns, ¬ t.Offers column r
  | some p => p < t.unknowns ∧ t.Offers column p ∧ ∀ r < p, ¬ t.Offers column r

theorem findPivotFrom_spec (h : t.IsTable m n) (hc : column ≤ n) (count row : Nat)
    (fits : row + count = n) (before : ∀ r < row, ¬ t.Offers column r) :
    ∃ answer, t.findPivotFrom column row count = .ok answer ∧ t.FirstOffer column answer := by
  induction count generalizing row with
  | zero =>
    refine ⟨none, rfl, fun r hr => before r ?_⟩
    rw [h.unknowns] at hr
    omega
  | succ count ih =>
    have hr : row < n := by omega
    rw [findPivotFrom, h.offersPivot_eq hr hc, Checked.ok_bind]
    by_cases offers : t.Offers column row
    · rw [if_pos (decide_eq_true offers)]
      exact ⟨some row, rfl, h.unknowns ▸ hr, offers, before⟩
    · rw [if_neg (by simpa using offers)]
      refine ih (row + 1) (by omega) fun r hr => ?_
      by_cases last : r = row
      · exact last ▸ offers
      · exact before r (by omega)

theorem findPivot_spec (h : t.IsTable m n) (hc : column ≤ n) :
    ∃ answer, t.findPivot column = .ok answer ∧ t.FirstOffer column answer := by
  refine findPivotFrom_spec h hc t.unknowns 0 ?_ fun r hr => absurd hr (Nat.not_lt_zero r)
  rw [Nat.zero_add, h.unknowns]

/-- The factors by which a row and the pivot row are scaled before they are subtracted. -/
def factors (t : Tableau) (column row : Nat) : Nat × Nat :=
  Residue.cofactors (t.entry column column) (t.entry row column)

/-- The classes of a row from which a column has been cancelled: scaled from its own pivot on if
it has one, and combined with the pivot row from the column on. -/
def cancelled (m : Nat) (t : Tableau) (column row c : Nat) : ZMod m :=
  if c < column then
    if t.Settled column row ∧ row ≤ c then t.residue m row c * (t.factors column row).1
    else t.residue m row c
  else t.residue m row c * (t.factors column row).1 -
    t.residue m column c * (t.factors column row).2

/-- The entries of such a row before they are reduced. -/
def combination (t : Tableau) (column row c : Nat) : Int :=
  if c < column then
    if t.Settled column row ∧ row ≤ c then t.entry row c * (t.factors column row).1
    else t.entry row c
  else t.entry row c * (t.factors column row).1 - t.entry column c * (t.factors column row).2

theorem cast_combination (t : Tableau) (column row c : Nat) :
    (t.combination column row c : ZMod m) = t.cancelled m column row c := by
  rw [combination, cancelled]
  split
  · split <;> push_cast <;> rfl
  · push_cast
    rfl

theorem cancelledEntry_eq (h : t.IsTable m n) (hr : row < n) (hc : column < n) {c : Nat}
    (inside : c < t.width) :
    cancelledEntry t.modulus ((List.range t.width).map (t.entry column)).toArray
        (decide (t.Settled column row)) row column (t.factors column row).1
        (t.factors column row).2 c (t.entry row c) =
      .ok (Residue.representative (t.combination column row c) m) := by
  have hcn : c ≤ n := by
    rw [h.width] at inside
    omega
  have word := h.entry_word hr hcn
  have pivot := h.entry_lt hc (Nat.le_of_lt hc)
  have entry := h.entry_lt hr (Nat.le_of_lt hc)
  have ha : (t.factors column row).1 < wordBound :=
    Nat.lt_of_le_of_lt (Residue.cofactors_fst_le _ _) (Nat.lt_trans pivot h.bound)
  have hb : (t.factors column row).2 < wordBound :=
    Nat.lt_of_le_of_lt (Residue.cofactors_snd_le _ _) (Nat.lt_trans entry h.bound)
  rw [h.modulus]
  unfold cancelledEntry
  by_cases left : c < column
  · simp only [combination, if_pos left, decide_eq_true_eq]
    split
    · rw [Residue.mul_eq h.pos word ha]
    · rw [Residue.representative_natCast, Nat.mod_eq_of_lt (h.entry_lt hr hcn)]
  · simp only [combination, if_neg left]
    rw [Checked.get_eq (by simpa using inside)]
    simp only [Checked.ok_bind, List.getElem_toArray, List.getElem_map, List.getElem_range]
    rw [Residue.combine_eq h.pos word ha (h.entry_word hc hcn) hb]

theorem cancel_spec (h : t.IsTable m n) (hr : row < n) (hc : column < n) (other : row ≠ column) :
    ∃ t', t.cancel row column = .ok t' ∧ t'.Represents m n fun i c =>
      if i = row then t.cancelled m column row c else t.residue m i c := by
  obtain ⟨t', run, new⟩ := mapRow_spec h.shaped (h.unknowns ▸ hr) fun _ =>
    cancelledEntry_eq h hr hc
  have inside : decide (t.Settled column row) → row ≤ column ∧ column ≤ t.width := by
    intro settled
    refine ⟨Nat.le_of_lt (of_decide_eq_true settled).1, ?_⟩
    rw [width, h.unknowns]
    omega
  refine ⟨t', ?_, ?_⟩
  · rw [cancel, h.hasEarlierPivot_eq hr, Checked.ok_bind, h.get_eq hc (Nat.le_of_lt hc),
      Checked.ok_bind, h.get_eq hr (Nat.le_of_lt hc), Checked.ok_bind,
      rowPair_eq h.shaped (h.unknowns ▸ hr) (h.unknowns ▸ hc) other]
    simp only [Checked.ok_bind, Checked.require_eq inside]
    exact run
  · have table := h.rewritten new fun i hi c hcn => by
      split
      · exact Residue.representative_lt h.pos _
      · exact h.entry_lt hi hcn
    refine ⟨table.toIsTable, fun i hi c hcn => (table.residue i hi c hcn).trans ?_⟩
    by_cases here : i = row
    · simp only [if_pos here, Residue.cast_representative h.pos, cast_combination]
    · simp only [if_neg here, residue]

/-- The pivot row names no column before its own. The row to be cancelled names none before its
pivot, or none before the column if it has no pivot yet. -/
structure Aligned (t : Tableau) (column row : Nat) : Prop where
  pivot : ∀ c < column, t.entry column c = 0
  settled : t.Settled column row → ∀ c < row, t.entry row c = 0
  fresh : ¬ t.Settled column row → ∀ c < column, t.entry row c = 0

/-- The ranges that are kept, scaled and combined make one combination of whole rows. -/
theorem Aligned.cancelled_eq (aligned : t.Aligned column row) (c : Nat) :
    t.cancelled m column row c = (t.factors column row).1 * t.residue m row c -
      (t.factors column row).2 * t.residue m column c := by
  rw [cancelled]
  split
  · rename_i before
    rw [residue, residue, aligned.pivot c before, Nat.cast_zero, mul_zero, sub_zero]
    split
    · exact mul_comm _ _
    · rename_i outside
      -- either the row has no pivot and starts at the column, or `c` is left of its pivot
      have zero : t.entry row c = 0 := by
        by_cases settled : t.Settled column row
        · have left : c < row := by
            by_contra after
            exact outside ⟨settled, by omega⟩
          exact aligned.settled settled c left
        · exact aligned.fresh settled c before
      rw [zero, Nat.cast_zero, mul_zero]
  · ring

theorem cancelled_column (t : Tableau) (column row : Nat) :
    t.cancelled m column row column = 0 := by
  have cross := congrArg (Nat.cast (R := ZMod m))
    (Residue.cofactors_cross (t.entry column column) (t.entry row column))
  push_cast at cross
  rw [cancelled, if_neg (Nat.lt_irrefl column), residue, residue, factors]
  linear_combination cross

/-! Clearing a column: each row depends on itself and the pivot row alone. -/

/-- The classes after a column has been cleared by the pivot in its own row. -/
def cleared (m : Nat) (t : Tableau) (column r c : Nat) : ZMod m :=
  if r = column ∨ t.entry r column = 0 then t.residue m r c else t.cancelled m column r c

/-- How a row is cancelled depends on the coefficients of the row and of the pivot row. -/
theorem cancelled_congr (hr : row < n) (hc : column < n)
    (same : ∀ c < n, t'.entry row c = t.entry row c)
    (pivot : ∀ c < n, t'.entry column c = t.entry column c)
    (here : t'.residue m row c = t.residue m row c)
    (here' : t'.residue m column c = t.residue m column c) :
    t'.cancelled m column row c = t.cancelled m column row c := by
  have settled : t'.Settled column row ↔ t.Settled column row := by
    rw [Settled, Settled, same row hr]
  have factor : t'.factors column row = t.factors column row := by
    rw [factors, factors, same column hc, pivot column hc]
  simp only [cancelled, settled, factor, here, here']

/-- The table `s` is `t` after the rows before `k` have been cleared. -/
def ClearedTo (m n column k : Nat) (t s : Tableau) : Prop :=
  s.Represents m n fun r c => if r < k then t.cleared m column r c else t.residue m r c

namespace ClearedTo

variable {k : Nat} {s s' : Tableau} (sofar : ClearedTo m n column k t s)

include sofar

theorem here (hk : k < n) {c : Nat} (hcn : c ≤ n) : s.residue m k c = t.residue m k c := by
  rw [sofar.residue k hk c hcn, if_neg (Nat.lt_irrefl k)]

theorem pivot (hc : column < n) {c : Nat} (hcn : c ≤ n) :
    s.residue m column c = t.residue m column c := by
  rw [sofar.residue column hc c hcn, cleared, if_pos (Or.inl rfl), ite_self]

/-- A step that clears row `k` and leaves the other rows alone. -/
theorem next (table : s'.IsTable m n)
    (row : ∀ c ≤ n, s'.residue m k c = t.cleared m column k c)
    (others : ∀ r < n, r ≠ k → ∀ c ≤ n, s'.residue m r c = s.residue m r c) :
    ClearedTo m n column (k + 1) t s' := by
  refine ⟨table, fun r hr c hcn => ?_⟩
  by_cases here : r = k
  · subst here
    rw [if_pos (Nat.lt_succ_self r), row c hcn]
  · rw [others r hr here c hcn, sofar.residue r hr c hcn]
    simp only [show r < k + 1 ↔ r < k by omega]

/-- A row that is the pivot row or has a zero in the column is cleared as it is. -/
theorem skip (hk : k < n) (clear : k = column ∨ t.entry k column = 0) :
    ClearedTo m n column (k + 1) t s := by
  refine next sofar sofar.toIsTable (fun c hcn => ?_) fun _ _ _ _ _ => rfl
  rw [here sofar hk hcn, cleared, if_pos clear]

theorem step (h : t.IsTable m n) (hc : column < n) (hk : k < n) :
    ∃ s', clearEntry column s k = .ok s' ∧ ClearedTo m n column (k + 1) t s' := by
  have hs := sofar.toIsTable
  -- rows before `k` have changed, but neither row `k` nor the pivot row has
  have row : ∀ c < n, s.entry k c = t.entry k c := fun c hcn =>
    hs.entry_eq h hk (Nat.le_of_lt hcn) hk (Nat.le_of_lt hcn) (here sofar hk (Nat.le_of_lt hcn))
  have pivotRow : ∀ c < n, s.entry column c = t.entry column c := fun c hcn =>
    hs.entry_eq h hc (Nat.le_of_lt hcn) hc (Nat.le_of_lt hcn) (pivot sofar hc (Nat.le_of_lt hcn))
  unfold clearEntry
  by_cases isPivot : k = column
  · rw [if_pos isPivot]
    exact ⟨s, rfl, skip sofar hk (Or.inl isPivot)⟩
  · rw [if_neg isPivot, hs.get_eq hk (Nat.le_of_lt hc), Checked.ok_bind, row column hc]
    by_cases zero : t.entry k column = 0
    · rw [if_pos zero]
      exact ⟨s, rfl, skip sofar hk (Or.inr zero)⟩
    · rw [if_neg zero]
      obtain ⟨s', run, result⟩ := cancel_spec hs hk hc isPivot
      refine ⟨s', run, next sofar result.toIsTable (fun c hcn => ?_) fun r hr other c hcn => ?_⟩
      · rw [result.residue k hk c hcn, if_pos rfl, cleared, if_neg (by simp [isPivot, zero])]
        exact cancelled_congr hk hc row pivotRow (here sofar hk hcn) (pivot sofar hc hcn)
      · rw [result.residue r hr c hcn, if_neg other]

end ClearedTo

theorem clearColumn_spec (h : t.IsTable m n) (hc : column < n) :
    ∃ t', t.clearColumn column = .ok t' ∧ t'.Represents m n (t.cleared m column) := by
  obtain ⟨t', run, done⟩ := Checked.foldlM_range (clearEntry column) t n
    (fun k s => ClearedTo m n column k t s) ⟨h, fun _ _ _ _ => rfl⟩
    (fun k hk s _ sofar => sofar.step h hc hk)
  refine ⟨t', ?_, done.toIsTable, fun r hr c hcn => ?_⟩
  · rw [clearColumn, h.unknowns, run]
  · rw [done.residue r hr c hcn, if_pos hr]

theorem swap_spec (h : t.IsTable m n) {a b : Nat} (ha : a < n) (hb : b < n) :
    ∃ t', t.swapRows a b = .ok t' ∧
      t'.Represents m n fun r c => t.residue m (Equiv.swap a b r) c := by
  obtain ⟨t', run, new⟩ := swapRows_spec h.shaped (h.unknowns ▸ ha) (h.unknowns ▸ hb)
  refine ⟨t', run, h.rewritten new fun r hr c hc => ?_⟩
  refine h.entry_lt ?_ hc
  rw [Equiv.swap_apply_def]
  split_ifs <;> assumption

/-- One column: without a row to give the pivot nothing changes, and otherwise the first one is
swapped into place and the column is cleared. -/
theorem eliminateColumn_spec (h : t.IsTable m n) (hc : column < n) :
    ∃ t', t.eliminateColumn column = .ok t' ∧
      ((t' = t ∧ ∀ r < n, ¬ t.Offers column r) ∨
        ∃ (p : Nat) (s : Tableau), p < n ∧ t.Offers column p ∧ (∀ r < p, ¬ t.Offers column r) ∧
          s.Represents m n (fun r c => t.residue m (Equiv.swap column p r) c) ∧
          t'.Represents m n (s.cleared m column)) := by
  obtain ⟨answer, run, first⟩ := findPivot_spec h (Nat.le_of_lt hc)
  rw [eliminateColumn, run, Checked.ok_bind]
  cases answer with
  | none => exact ⟨t, rfl, Or.inl ⟨rfl, h.unknowns ▸ first⟩⟩
  | some p =>
    obtain ⟨hp, offers, least⟩ := first
    rw [h.unknowns] at hp
    obtain ⟨s, swap, swapped⟩ := swap_spec h hc hp
    obtain ⟨t', clear, done⟩ := clearColumn_spec swapped.toIsTable hc
    refine ⟨t', ?_, Or.inr ⟨p, s, hp, offers, least, swapped, done⟩⟩
    change (t.swapRows column p >>= fun s => s.clearColumn column) = _
    rw [swap, Checked.ok_bind, clear]

end LinearCongruences.Tableau
