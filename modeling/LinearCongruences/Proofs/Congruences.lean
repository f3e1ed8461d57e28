import Mathlib
import LinearCongruences.Proofs.Entries
import LinearCongruences.Proofs.Residue

/-! The rows of a table as congruences over the residue ring. A well-formed table is determined by
the classes of its entries, and its solutions are the points at which all rows hold. -/
namespace LinearCongruences.Tableau

open Finset

/-- The class of an entry. -/
def residue (m : Nat) (t : Tableau) (r c : Nat) : ZMod m := (t.entry r c : ZMod m)

/-- The two sides of row `r` at the values `x` of the unknowns, one taken from the other. -/
def defect (m : Nat) (t : Tableau) (x : Nat → ZMod m) (r : Nat) : ZMod m :=
  ∑ c ∈ range t.unknowns, t.residue m r c * x c - t.residue m r t.unknowns

/-- All rows hold at the values `x`. -/
def Holds (m : Nat) (t : Tableau) (x : Nat → ZMod m) : Prop :=
  ∀ r < t.unknowns, t.defect m x r = 0

/-- The classes of a point. -/
def classes (m : Nat) (point : List Nat) (c : Nat) : ZMod m := (point.getD c 0 : Nat)

variable {m : Nat} {t t' : Tableau} {r c : Nat}

theorem WellFormed.entry_lt (h : t.WellFormed) (hr : r < t.unknowns) (hc : c < t.width) :
    t.entry r c < t.modulus := by
  have inside := place_lt h.shaped hr hc
  rw [entry, Array.getD_eq_getD_getElem?, Array.getElem?_eq_getElem inside]
  exact h.cells_lt _ (Array.getElem_mem inside)

/-- Reduced entries make a well-formed table again. -/
theorem Rewritten.wellFormed {f : Nat → Nat → Nat} (h : t.WellFormed) (new : t.Rewritten f t')
    (reduced : ∀ r < t.unknowns, ∀ c < t.width, f r c < t.modulus) : t'.WellFormed where
  modulus_pos := new.modulus ▸ h.modulus_pos
  modulus_lt := new.modulus ▸ h.modulus_lt
  unknowns_pos := new.unknowns ▸ h.unknowns_pos
  size_cells := new.shaped
  cells_lt := by
    intro x hx
    obtain ⟨i, inside, rfl⟩ := Array.mem_iff_getElem.mp hx
    have positive : 0 < t.width := Nat.succ_pos _
    have size : t'.cells.size = t.unknowns * t.width := by
      rw [new.shaped, new.unknowns, new.width]
    have hr : i / t.width < t.unknowns := by
      rw [Nat.div_lt_iff_lt_mul positive]
      omega
    have hc : i % t.width < t.width := Nat.mod_lt _ positive
    have here : t'.place (i / t.width) (i % t.width) = i := by
      rw [place, new.width, Nat.mul_comm, Nat.div_add_mod]
    have value := new.entry _ hr _ hc
    rw [Tableau.entry, here, Array.getD_eq_getD_getElem?, Array.getElem?_eq_getElem inside] at value
    rw [Option.getD_some] at value
    rw [value, new.modulus]
    exact reduced _ hr _ hc

theorem sum_map_range {M : Type} [AddCommMonoid M] (f : Nat → M) (n : Nat) :
    ((List.range n).map f).sum = ∑ i ∈ range n, f i := rfl

theorem rows_eq (shaped : t.Shaped) :
    t.rows = (List.range t.unknowns).map fun r => (List.range t.width).map (t.entry r) := by
  apply List.map_congr_left
  intro r hr
  have row := row_eq shaped (List.mem_range.mp hr)
  unfold Tableau.row at row
  obtain ⟨_, _, same⟩ := Checked.bind_eq_ok.mp row
  exact Except.ok.inj same

theorem leftSide_cons (a : Int) (x : Nat) (row : List Int) (point : List Nat) :
    leftSide (a :: row) (x :: point) = a * x + leftSide row point :=
  rfl

theorem leftSide_eq_sum (row : List Int) (point : List Nat) :
    leftSide row point = (List.zipWith (fun (a : Int) (x : Nat) => a * x) row point).sum :=
  rfl

theorem leftSide_eq (f : Nat → Nat) (point : List Nat) (k : Nat) (fits : point.length ≤ k) :
    leftSide ((List.range k).map fun c => (f c : Int)) point =
      ∑ c ∈ range point.length, (f c : Int) * (point.getD c 0 : Nat) := by
  rw [leftSide_eq_sum, ← sum_map_range]
  congr 1
  apply List.ext_getElem
  · simpa using fits
  · intro c h _
    simp only [List.length_zipWith, List.length_map, List.length_range] at h
    have inside : c < point.length := by omega
    simp [List.getD_eq_getElem?_getD, List.getElem?_eq_getElem inside]

theorem solvesRow_iff (f : Nat → Nat) (point : List Nat) :
    SolvesRow m ((List.range (point.length + 1)).map fun c => (f c : Int)) point ↔
      ∑ c ∈ range point.length, (f c : ZMod m) * classes m point c = f point.length := by
  have last : (((List.range (point.length + 1)).map fun c => (f c : Int)).getD point.length 0) =
      f point.length := by
    simp [List.getD_eq_getElem?_getD]
  rw [SolvesRow, leftSide_eq f point _ (Nat.le_succ _), last, ← ZMod.intCast_zmod_eq_zero_iff_dvd]
  push_cast
  rw [sub_eq_zero]
  rfl

/-- The rows as congruences of integers and as congruences of classes, at any point of the right
length. -/
theorem solvesRows_iff (shaped : t.Shaped) {point : List Nat}
    (length : point.length = t.unknowns) :
    (∀ row ∈ t.integerRows, SolvesRow m row point) ↔ t.Holds m (classes m point) := by
  have rows : t.integerRows = (List.range t.unknowns).map fun r =>
      (List.range t.width).map fun c => (t.entry r c : Int) := by
    rw [integerRows, rows_eq shaped, List.map_map]
    apply List.map_congr_left
    intro r _
    exact List.map_map
  rw [rows]
  simp only [List.forall_mem_map, List.mem_range]
  refine forall₂_congr fun r _ => ?_
  rw [width, ← length, solvesRow_iff, length]
  exact sub_eq_zero.symm

/-- The solutions of a table, told by the congruences of its rows. -/
theorem solution_iff (shaped : t.Shaped) (hm : t.modulus = m) (point : List Nat) :
    t.Solution point ↔ point.length = t.unknowns ∧ (∀ x ∈ point, x < m) ∧
      t.Holds m (classes m point) := by
  have rows : t.integerRows.length = t.unknowns := by
    simp [integerRows, Tableau.rows]
  rw [Solution, Solves, rows, hm]
  exact and_congr_right fun length => and_congr_right' (solvesRows_iff shaped length)

end LinearCongruences.Tableau
