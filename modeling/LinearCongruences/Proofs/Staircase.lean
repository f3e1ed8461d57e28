import Mathlib
import LinearCongruences.Proofs.RowOperations

/-! The forms that a table goes through during elimination, and the swap that brings a pivot into
place. A swap never moves a row that has a pivot, so it keeps the form. -/
namespace LinearCongruences.Tableau

open Finset

/-- Rows with a pivot start at it and are the only ones that name its column. The rows from the
present column on start there or later. -/
structure Staircase (t : Tableau) (column : Nat) : Prop where
  pivot_left : ∀ r < t.unknowns, t.Settled column r → ∀ c < r, t.entry r c = 0
  pivot_column : ∀ r < t.unknowns, t.Settled column r → ∀ i < t.unknowns, i ≠ r → t.entry i r = 0
  fresh_left : ∀ r < t.unknowns, column ≤ r → ∀ c < column, t.entry r c = 0

/-- Each row that can give the pivot of a column names no column before it. -/
def OffersClear (t : Tableau) (column : Nat) : Prop :=
  ∀ r < t.unknowns, t.Offers column r → ∀ c < column, t.entry r c = 0

instance (t : Tableau) (column : Nat) : Decidable (t.OffersClear column) :=
  inferInstanceAs (Decidable (∀ r < _, _ → ∀ c < _, _))

/-- A staircase in which no row without a pivot names a column that is done. -/
structure Reduced (t : Tableau) (column : Nat) : Prop extends Staircase t column where
  clear : ∀ r < t.unknowns, ¬ t.Settled column r → ∀ c < column, t.entry r c = 0

/-- Some pivot cannot be divided out. -/
def Tainted (m : Nat) (t : Tableau) (column : Nat) : Prop :=
  ∃ r < t.unknowns, t.Settled column r ∧ ¬ IsUnit (t.residue m r r)

/-- Some column that is done has no pivot, and the rows from the present column on start there or
later. -/
def Gap (t : Tableau) (column : Nat) : Prop :=
  (∀ r < t.unknowns, column ≤ r → ∀ c < column, t.entry r c = 0) ∧
    ∃ r < column, t.entry r r = 0

/-- The table `s` is `t` after row `p`, which can give the pivot, has been swapped into place. -/
structure PivotSwap (m n column p : Nat) (t s : Tableau) : Prop where
  table : t.IsTable m n
  column_lt : column < n
  row_lt : p < n
  offers : t.Offers column p
  result : s.Represents m n fun r c => t.residue m (Equiv.swap column p r) c

variable {m n : Nat} {t s : Tableau} {column p r : Nat}

theorem Reduced.offersClear (h : t.Reduced column) : t.OffersClear column :=
  fun r hr offers => h.clear r hr offers.1

theorem swap_lt {a b : Nat} (ha : a < n) (hb : b < n) (hr : r < n) : Equiv.swap a b r < n := by
  rw [Equiv.swap_apply_def]
  split_ifs <;> assumption

/-- Swapping rows does not change where all of them hold. -/
theorem swap_holds_iff (h : t.IsTable m n) {a b : Nat} (ha : a < n) (hb : b < n)
    (result : s.Represents m n fun r c => t.residue m (Equiv.swap a b r) c)
    (x : Nat → ZMod m) : s.Holds m x ↔ t.Holds m x := by
  have row : ∀ r < n, s.defect m x r = t.defect m x (Equiv.swap a b r) := by
    intro r hr
    rw [defect, defect, result.unknowns, h.unknowns, result.residue r hr n (Nat.le_refl n)]
    congr 1
    exact sum_congr rfl fun c inside => by
      rw [result.residue r hr c (Nat.le_of_lt (mem_range.mp inside))]
  rw [Holds, Holds, result.unknowns, h.unknowns]
  constructor
  · intro holds r hr
    have back := holds _ (swap_lt ha hb hr)
    rwa [row _ (swap_lt ha hb hr), Equiv.swap_apply_self] at back
  · intro holds r hr
    rw [row r hr]
    exact holds _ (swap_lt ha hb hr)

namespace PivotSwap

theorem lt (h : PivotSwap m n column p t s) (hr : r < n) :
    Equiv.swap column p r < t.unknowns :=
  h.table.unknowns ▸ swap_lt h.column_lt h.row_lt hr

theorem entry_eq (h : PivotSwap m n column p t s) (hr : r < n) {c : Nat} (hc : c ≤ n) :
    s.entry r c = t.entry (Equiv.swap column p r) c :=
  h.result.entry_eq h.table hr hc (swap_lt h.column_lt h.row_lt hr) hc (h.result.residue r hr c hc)

theorem pivot_ne_zero (h : PivotSwap m n column p t s) : s.entry column column ≠ 0 := by
  rw [h.entry_eq h.column_lt (Nat.le_of_lt h.column_lt), Equiv.swap_apply_left]
  exact h.offers.2

/-- A swap moves no row that has a pivot. -/
theorem fixed (h : PivotSwap m n column p t s) (settled : t.Settled column r) :
    Equiv.swap column p r = r := by
  apply Equiv.swap_apply_of_ne_of_ne
  · rintro rfl
    exact absurd settled.1 (Nat.lt_irrefl _)
  · rintro rfl
    exact h.offers.1 settled

theorem settled_of (h : PivotSwap m n column p t s) (hr : r < n)
    (settled : t.Settled column r) : s.Settled column r := by
  refine ⟨settled.1, ?_⟩
  rw [h.entry_eq hr (Nat.le_of_lt hr), h.fixed settled]
  exact settled.2

theorem settled_iff (h : PivotSwap m n column p t s)
    (start : ∀ c < column, t.entry column c = 0) (hr : r < n) :
    s.Settled column r ↔ t.Settled column r := by
  constructor
  · rintro ⟨before, nonzero⟩
    rw [h.entry_eq hr (Nat.le_of_lt hr)] at nonzero
    by_cases isPivot : r = p
    · -- the row that was at `column` starts there, so it has no entry on the diagonal of `p`
      subst isPivot
      rw [Equiv.swap_apply_right] at nonzero
      exact absurd (start r before) nonzero
    · rw [Equiv.swap_apply_of_ne_of_ne (Nat.ne_of_lt before) isPivot] at nonzero
      exact ⟨before, nonzero⟩
  · exact h.settled_of hr

theorem unsettled (h : PivotSwap m n column p t s) (hr : r < n)
    (unsettled : ¬ s.Settled column r) : ¬ t.Settled column (Equiv.swap column p r) := by
  intro settled
  have fixed := h.fixed settled
  rw [Equiv.swap_apply_self] at fixed
  rw [← fixed] at settled
  exact unsettled (h.settled_of hr settled)

/-- If only its own row names the column of a pivot, that is so after the swap. -/
theorem pivot_column (h : PivotSwap m n column p t s) (start : ∀ c < column, t.entry column c = 0)
    (alone : ∀ r < n, t.Settled column r → ∀ i < n, i ≠ r → t.entry i r = 0) :
    ∀ r < n, s.Settled column r → ∀ i < n, i ≠ r → s.entry i r = 0 := by
  intro r hr settled i hi other
  have settled' := (h.settled_iff start hr).mp settled
  rw [h.entry_eq hi (Nat.le_of_lt hr)]
  apply alone r hr settled' _ (swap_lt h.column_lt h.row_lt hi)
  intro same
  rw [← h.fixed settled'] at same
  exact other ((Equiv.swap column p).injective same)

/-- Rows below the pivot start where they did. -/
theorem fresh (h : PivotSwap m n column p t s)
    (fresh : ∀ r < t.unknowns, column ≤ r → ∀ c < column, t.entry r c = 0) :
    ∀ r < n, column < r → ∀ c < column, s.entry r c = 0 := by
  intro r hr after c left
  rw [h.entry_eq hr (by omega)]
  apply fresh _ (h.lt hr) _ c left
  rw [Equiv.swap_apply_def]
  split_ifs <;> omega

theorem offersClear (h : PivotSwap m n column p t s) (clear : t.OffersClear column) :
    s.OffersClear column := by
  intro r hr offers c before
  rw [h.result.unknowns] at hr
  have hc := h.column_lt
  rw [h.entry_eq hr (by omega)]
  refine clear _ (h.lt hr) ⟨h.unsettled hr offers.1, ?_⟩ c before
  rw [← h.entry_eq hr (Nat.le_of_lt hc)]
  exact offers.2

theorem staircase (h : PivotSwap m n column p t s) (stairs : t.Staircase column)
    (clear : t.OffersClear column) : s.Staircase column where
  pivot_left := by
    intro r hr settled c before
    rw [h.result.unknowns] at hr
    have start := stairs.fresh_left column (h.table.unknowns ▸ h.column_lt) (Nat.le_refl _)
    have settled' := (h.settled_iff start hr).mp settled
    rw [h.entry_eq hr (by omega), h.fixed settled']
    exact stairs.pivot_left r (h.table.unknowns ▸ hr) settled' c before
  pivot_column := by
    have start := stairs.fresh_left column (h.table.unknowns ▸ h.column_lt) (Nat.le_refl _)
    rw [h.result.unknowns]
    exact h.pivot_column start (h.table.unknowns ▸ stairs.pivot_column)
  fresh_left := by
    intro r hr after c before
    rw [h.result.unknowns] at hr
    have hc := h.column_lt
    have inside := h.lt hr
    rw [h.entry_eq hr (by omega)]
    by_cases here : r = column
    · subst here
      rw [Equiv.swap_apply_left] at inside ⊢
      exact clear p inside h.offers c before
    · refine stairs.fresh_left _ inside ?_ c before
      rw [Equiv.swap_apply_def]
      split_ifs <;> omega

theorem reduced (h : PivotSwap m n column p t s) (reduced : t.Reduced column) :
    s.Reduced column where
  toStaircase := h.staircase reduced.toStaircase reduced.offersClear
  clear := by
    intro r hr unsettled c before
    rw [h.result.unknowns] at hr
    have hc := h.column_lt
    rw [h.entry_eq hr (by omega)]
    exact reduced.clear _ (h.lt hr) (h.unsettled hr unsettled) c before

theorem holds_iff (h : PivotSwap m n column p t s) (x : Nat → ZMod m) :
    s.Holds m x ↔ t.Holds m x :=
  swap_holds_iff h.table h.column_lt h.row_lt h.result x

/-- A swap leaves a column without pivot as it is, even if the row swapped in names it. -/
theorem gap (h : PivotSwap m n column p t s) (gap : t.Gap column) :
    (∀ r < n, column < r → ∀ c < column, s.entry r c = 0) ∧ ∃ r < column, s.entry r r = 0 := by
  obtain ⟨fresh, r, before, zero⟩ := gap
  have hc := h.column_lt
  have below := fresh column (h.table.unknowns ▸ hc) (Nat.le_refl _)
  constructor
  · exact h.fresh fresh
  · refine ⟨r, before, ?_⟩
    rw [h.entry_eq (by omega) (by omega)]
    by_cases isPivot : r = p
    · rw [isPivot, Equiv.swap_apply_right, ← isPivot]
      exact below r before
    · rwa [Equiv.swap_apply_of_ne_of_ne (Nat.ne_of_lt before) isPivot]

end PivotSwap

/-! A column in which no row can give a pivot is done as it is. -/

theorem fresh_skip (fresh : ∀ r < t.unknowns, column ≤ r → ∀ c < column, t.entry r c = 0)
    (none : ∀ r < t.unknowns, ¬ t.Offers column r) :
    ∀ r < t.unknowns, column + 1 ≤ r → ∀ c < column + 1, t.entry r c = 0 := by
  intro r hr after c before
  by_cases here : c = column
  · subst here
    by_contra nonzero
    exact none r hr ⟨fun settled => absurd settled.1 (by omega), nonzero⟩
  · exact fresh r hr (by omega) c (by omega)

theorem settled_of_skip (none : ∀ r < t.unknowns, ¬ t.Offers column r) (hr : r < t.unknowns)
    (settled : t.Settled (column + 1) r) : t.Settled column r := by
  refine ⟨?_, settled.2⟩
  by_contra after
  have here : r = column := by
    have := settled.1
    omega
  subst here
  exact none r hr ⟨fun settled => after settled.1, settled.2⟩

theorem Staircase.skip (h : t.Staircase column) (none : ∀ r < t.unknowns, ¬ t.Offers column r) :
    t.Staircase (column + 1) where
  pivot_left := fun r hr settled => h.pivot_left r hr (settled_of_skip none hr settled)
  pivot_column := fun r hr settled => h.pivot_column r hr (settled_of_skip none hr settled)
  fresh_left := fresh_skip h.fresh_left none

theorem Reduced.skip (h : t.Reduced column) (none : ∀ r < t.unknowns, ¬ t.Offers column r) :
    t.Reduced (column + 1) where
  toStaircase := h.toStaircase.skip none
  clear := by
    intro r hr unsettled c before
    have unsettled' : ¬ t.Settled column r :=
      fun settled => unsettled ⟨Nat.lt_succ_of_lt settled.1, settled.2⟩
    by_cases here : c = column
    · by_contra nonzero
      exact none r hr ⟨unsettled', here ▸ nonzero⟩
    · exact h.clear r hr unsettled' c (by omega)

end LinearCongruences.Tableau
