import Mathlib
import LinearCongruences.Solution
import LinearCongruences.Proofs.Checked

/-! A table seen as entries at rows and columns. Reading and writing stay inside the cells of a
table that has the right number of them, and each operation is told by the entries it leaves. -/
namespace LinearCongruences.Tableau

/-- The number in a row and a column, or zero beyond the cells. -/
def entry (t : Tableau) (r c : Nat) : Nat := t.cells.getD (t.place r c) 0

/-- There is a cell for each row and column. -/
def Shaped (t : Tableau) : Prop := t.cells.size = t.unknowns * t.width

/-- A table of the same modulus and size that has the entries `f`. -/
structure Rewritten (t : Tableau) (f : Nat → Nat → Nat) (t' : Tableau) : Prop where
  modulus : t'.modulus = t.modulus
  unknowns : t'.unknowns = t.unknowns
  shaped : t'.Shaped
  entry : ∀ r < t.unknowns, ∀ c < t.width, t'.entry r c = f r c

variable {t t' t'' : Tableau} {f g : Nat → Nat → Nat} {r c : Nat}

theorem WellFormed.shaped (h : t.WellFormed) : t.Shaped := h.size_cells

theorem Rewritten.width (h : t.Rewritten f t') : t'.width = t.width :=
  congrArg (· + 1) h.unknowns

theorem Rewritten.refl (h : t.Shaped) : t.Rewritten t.entry t := ⟨rfl, rfl, h, fun _ _ _ _ => rfl⟩

theorem Rewritten.trans (first : t.Rewritten f t') (second : t'.Rewritten g t'') :
    t.Rewritten g t'' := by
  refine ⟨second.modulus.trans first.modulus, second.unknowns.trans first.unknowns,
    second.shaped, fun r hr c hc => ?_⟩
  exact second.entry r (first.unknowns ▸ hr) c (first.width ▸ hc)

theorem Rewritten.congr (h : t.Rewritten f t')
    (same : ∀ r < t.unknowns, ∀ c < t.width, f r c = g r c) : t.Rewritten g t' :=
  ⟨h.modulus, h.unknowns, h.shaped, fun r hr c hc => (h.entry r hr c hc).trans (same r hr c hc)⟩

theorem place_lt (shaped : t.Shaped) (hr : r < t.unknowns) (hc : c < t.width) :
    t.place r c < t.cells.size := by
  have block := Nat.mul_le_mul_right t.width (Nat.succ_le_of_lt hr)
  rw [Nat.succ_mul] at block
  rw [shaped, place]
  omega

/-- Different entries have different cells. -/
theorem place_eq_iff {r' c' : Nat} (hc : c < t.width) (hc' : c' < t.width) :
    t.place r c = t.place r' c' ↔ r = r' ∧ c = c' := by
  constructor
  · intro same
    have row : r = r' := by
      have left : (r * t.width + c) / t.width = r := by
        rw [Nat.mul_comm, Nat.mul_add_div (by omega), Nat.div_eq_of_lt hc, Nat.add_zero]
      have right : (r' * t.width + c') / t.width = r' := by
        rw [Nat.mul_comm, Nat.mul_add_div (by omega), Nat.div_eq_of_lt hc', Nat.add_zero]
      rw [← left, ← right]
      exact congrArg (· / t.width) same
    subst row
    exact ⟨rfl, Nat.add_left_cancel same⟩
  · rintro ⟨rfl, rfl⟩
    rfl

theorem get_eq (shaped : t.Shaped) (hr : r < t.unknowns) (hc : c < t.width) :
    t.get r c = .ok (t.entry r c) := by
  have inside := place_lt shaped hr hc
  rw [get, Checked.get_eq inside, entry, Array.getD_eq_getD_getElem?, Array.getElem?_eq_getElem inside]
  rfl

theorem set_spec (shaped : t.Shaped) (hr : r < t.unknowns) (hc : c < t.width) (x : Nat) :
    ∃ t', t.set r c x = .ok t' ∧
      t.Rewritten (fun i j => if i = r ∧ j = c then x else t.entry i j) t' := by
  have inside := place_lt shaped hr hc
  refine ⟨{ t with cells := t.cells.set (t.place r c) x inside }, ?_, rfl, rfl, ?_, ?_⟩
  · rw [set, Checked.set_eq inside]
    rfl
  · exact (Array.size_set inside).trans shaped
  · intro i hi j hj
    change (t.cells.set (t.place r c) x inside).getD (t.place i j) 0 = _
    simp only [entry, Array.getD_eq_getD_getElem?, Array.getElem?_set, place_eq_iff hc hj,
      eq_comm (a := r), eq_comm (a := c)]
    split <;> rfl

/-! Whole rows. -/

theorem row_eq (shaped : t.Shaped) (hr : r < t.unknowns) :
    t.row r = .ok ((List.range t.width).map (t.entry r)) := by
  have block := Nat.mul_le_mul_right t.width (Nat.succ_le_of_lt hr)
  rw [Nat.succ_eq_add_one] at block
  have fits : t.place (r + 1) 0 ≤ t.cells.size := by
    rw [shaped, place, Nat.add_zero]
    exact block
  rw [row, Checked.require_eq fits, Checked.ok_bind, Checked.pure_eq_ok]
  congr 1
  apply List.ext_getElem
  · simp only [Array.length_toList, Array.size_extract, List.length_map, List.length_range]
    rw [Nat.min_eq_left fits, place, place, Nat.add_mul]
    omega
  · intro c h _
    simp only [Array.length_toList, Array.size_extract, place] at h
    have inside : t.place r c < t.cells.size := by
      simp only [place]
      omega
    simp only [Array.getElem_toList, Array.getElem_extract, List.getElem_map, List.getElem_range]
    rw [entry, Array.getD_eq_getD_getElem?, Array.getElem?_eq_getElem inside]
    simp only [place, Nat.add_zero, Option.getD_some]

theorem coefficients_eq (shaped : t.Shaped) (hr : r < t.unknowns) :
    t.coefficients r = .ok ((List.range t.unknowns).map (t.entry r)) := by
  rw [coefficients, row_eq shaped hr, Checked.ok_bind, Checked.pure_eq_ok, ← List.map_take,
    List.take_range, width, Nat.min_eq_left (Nat.le_succ _)]

theorem constant_eq (shaped : t.Shaped) (hr : r < t.unknowns) :
    t.constant r = .ok (t.entry r t.unknowns) := by
  have last : t.unknowns < ((List.range t.width).map (t.entry r)).toArray.size := by
    simp [width]
  rw [constant, row_eq shaped hr, Checked.ok_bind, Checked.get_eq last]
  simp

theorem rowPair_eq (shaped : t.Shaped) {a b : Nat} (ha : a < t.unknowns) (hb : b < t.unknowns)
    (different : a ≠ b) :
    t.rowPair a b =
      .ok ((List.range t.width).map (t.entry a), (List.range t.width).map (t.entry b)) := by
  rw [rowPair, Checked.require_eq different, Checked.ok_bind, row_eq shaped ha, Checked.ok_bind,
    row_eq shaped hb, Checked.ok_bind, Checked.pure_eq_ok]

/-- Replacing a row entry by entry leaves the other rows alone. -/
theorem mapRow_spec (shaped : t.Shaped) (hr : r < t.unknowns) {change : Nat → Nat → Checked Nat}
    {result : Nat → Nat} (returns : ∀ c < t.width, change c (t.entry r c) = .ok (result c)) :
    ∃ t', t.mapRow r change = .ok t' ∧
      t.Rewritten (fun i c => if i = r then result c else t.entry i c) t' := by
  obtain ⟨t', run, done⟩ := Checked.foldlM_range
    (fun t c => do
      let x ← t.get r c
      t.set r c (← change c x)) t t.width
    (fun k s => t.Rewritten (fun i c => if i = r ∧ c < k then result c else t.entry i c) s)
    ((Rewritten.refl shaped).congr fun i _ c _ => by simp)
    (by
      intro k hk s _ sofar
      have hr' : r < s.unknowns := sofar.unknowns ▸ hr
      have hk' : k < s.width := sofar.width ▸ hk
      have old : s.entry r k = t.entry r k := by
        rw [sofar.entry r hr k hk, if_neg (by omega)]
      obtain ⟨s', step, next⟩ := set_spec sofar.shaped hr' hk' (result k)
      refine ⟨s', ?_, (sofar.trans next).congr ?_⟩
      · rw [get_eq sofar.shaped hr' hk', Checked.ok_bind, old, returns k hk, Checked.ok_bind, step]
      · intro i hi c hc
        rw [sofar.entry i hi c hc]
        by_cases here : i = r ∧ c = k
        · rw [if_pos here, if_pos ⟨here.1, by omega⟩, here.2]
        · rw [if_neg here]
          by_cases before : i = r ∧ c < k
          · rw [if_pos before, if_pos ⟨before.1, by omega⟩]
          · rw [if_neg before, if_neg (by omega)])
  refine ⟨t', run, done.congr fun i _ c hc => ?_⟩
  by_cases here : i = r
  · rw [if_pos ⟨here, hc⟩, if_pos here]
  · rw [if_neg (fun h => here h.1), if_neg here]

theorem swapEntries_spec (shaped : t.Shaped) {a b : Nat} (ha : a < t.unknowns)
    (hb : b < t.unknowns) (hc : c < t.width) :
    ∃ t', swapEntries a b t c = .ok t' ∧
      t.Rewritten (fun r k => if k = c then t.entry (Equiv.swap a b r) k else t.entry r k) t' := by
  obtain ⟨s, first, half⟩ := set_spec shaped ha hc (t.entry b c)
  obtain ⟨t', second, whole⟩ :=
    set_spec half.shaped (half.unknowns ▸ hb) (half.width ▸ hc) (t.entry a c)
  refine ⟨t', ?_, (half.trans whole).congr ?_⟩
  · rw [swapEntries, get_eq shaped ha hc, Checked.ok_bind, get_eq shaped hb hc, Checked.ok_bind,
      first, Checked.ok_bind, second]
  · intro r hr k hk
    rw [half.entry r hr k hk]
    by_cases column : k = c
    · subst column
      by_cases isB : r = b
      · simp [isB]
      · by_cases isA : r = a
        · simp [isA, isA ▸ isB]
        · simp [isA, isB, Equiv.swap_apply_of_ne_of_ne isA isB]
    · simp [column]

theorem swapRows_spec (shaped : t.Shaped) {a b : Nat} (ha : a < t.unknowns)
    (hb : b < t.unknowns) :
    ∃ t', t.swapRows a b = .ok t' ∧
      t.Rewritten (fun r c => t.entry (Equiv.swap a b r) c) t' := by
  unfold swapRows
  split
  · rename_i same
    subst same
    exact ⟨t, rfl, (Rewritten.refl shaped).congr fun r _ c _ => by simp⟩
  · rename_i different
    obtain ⟨t', run, done⟩ := Checked.foldlM_range (swapEntries a b) t t.width
      (fun k s => t.Rewritten
        (fun r c => if c < k then t.entry (Equiv.swap a b r) c else t.entry r c) s)
      ((Rewritten.refl shaped).congr fun r _ c _ => by simp)
      (by
        intro k hk s _ sofar
        obtain ⟨s', step, next⟩ := swapEntries_spec sofar.shaped (sofar.unknowns ▸ ha)
          (sofar.unknowns ▸ hb) (sofar.width ▸ hk)
        refine ⟨s', step, (sofar.trans next).congr ?_⟩
        intro r hr c hc
        have hr' : Equiv.swap a b r < t.unknowns := by
          rw [Equiv.swap_apply_def]
          split_ifs <;> assumption
        rw [sofar.entry r hr c hc, sofar.entry _ hr' c hc]
        by_cases here : c = k
        · subst here
          rw [if_pos rfl, if_neg (Nat.lt_irrefl c), if_pos (Nat.lt_succ_self c)]
        · rw [if_neg here]
          by_cases before : c < k
          · rw [if_pos before, if_pos (by omega)]
          · rw [if_neg before, if_neg (by omega)])
    refine ⟨t', ?_, done.congr fun r _ c hc => if_pos hc⟩
    rw [rowPair_eq shaped ha hb different, Checked.ok_bind, run]

end LinearCongruences.Tableau
