import Mathlib
import LinearCongruences.Solver
import LinearCongruences.Proofs.Elimination
import LinearCongruences.Proofs.Inverse
import LinearCongruences.Proofs.Words

/-! Dividing out pivots. A row that is divided starts at its pivot and names no later column, so
the division is one of the whole row and the solutions stay what they are. -/
namespace LinearCongruences

open Finset

namespace Tableau

/-- The row has a pivot other than one and names no column after it. -/
def NeedsDivision (t : Tableau) (r : Nat) : Prop :=
  t.entry r r ≠ 0 ∧ (∀ c < t.unknowns, r < c → t.entry r c = 0) ∧ t.entry r r ≠ 1

/-- The pivot of row `r` is made one and its constant is multiplied by `w`. -/
def Divided (m n w : Nat) (t t' : Tableau) (r : Nat) : Prop :=
  t'.Represents m n fun i c =>
    if i = r ∧ c = n then t.residue m r n * w else if i = r ∧ c = r then 1 else t.residue m i c

/-- What the division of one row comes to. -/
def RowOutcome (m n : Nat) (lookup : InverseLookup) (t : Tableau) (r : Nat) :
    Except Refusal Tableau → Prop
  | .ok t' => (¬ t.NeedsDivision r ∧ t' = t) ∨ (t.NeedsDivision r ∧
      ∃ w, lookup.inverse (t.entry r r) = .ok (some w) ∧ Divided m n w t t' r)
  | .error e => t.NeedsDivision r ∧ lookup.inverse (t.entry r r) = .ok none ∧
      e = .notInvertible r (t.entry r r) m

variable {m n w : Nat} {t t' : Tableau} {r : Nat} {lookup : InverseLookup}

/-- Only the coefficients of the row decide. -/
theorem NeedsDivision.congr (unknowns : t'.unknowns = t.unknowns) (hr : r < t.unknowns)
    (same : ∀ c < t.unknowns, t'.entry r c = t.entry r c) :
    t'.NeedsDivision r ↔ t.NeedsDivision r := by
  rw [NeedsDivision, NeedsDivision, unknowns, same r hr]
  refine and_congr_right fun _ => and_congr_left fun _ => ?_
  exact forall₂_congr fun c hc => by rw [same c hc]

theorem any_later_iff (f : Nat → Nat) (r n : Nat) :
    (((List.range n).map f).drop (r + 1)).any (· != 0) = true ↔ ∃ c < n, r < c ∧ f c ≠ 0 := by
  simp only [← List.map_drop, List.any_map, List.any_eq_true, Function.comp_apply, bne_iff_ne]
  constructor
  · rintro ⟨c, later, nonzero⟩
    obtain ⟨i, inside, rfl⟩ := List.mem_iff_getElem.mp later
    simp only [List.length_drop, List.length_range] at inside
    simp only [List.getElem_drop, List.getElem_range] at nonzero
    exact ⟨r + 1 + i, by omega, by omega, nonzero⟩
  · rintro ⟨c, inside, later, nonzero⟩
    refine ⟨c, List.mem_iff_getElem.mpr ⟨c - (r + 1), ?_, ?_⟩, nonzero⟩
    · simp only [List.length_drop, List.length_range]
      omega
    · simp only [List.getElem_drop, List.getElem_range]
      omega

/-- The entries once row `r` has been divided by a pivot with the inverse `w`. -/
def dividedEntry (t : Tableau) (r w i c : Nat) : Nat :=
  if i = r ∧ c = t.unknowns then Residue.representative (t.entry r t.unknowns * w) t.modulus
  else if i = r ∧ c = r then 1 else t.entry i c

theorem dividedEntry_pivot (hr : r < t.unknowns) : t.dividedEntry r w r r = 1 := by
  rw [dividedEntry, if_neg (by omega), if_pos ⟨rfl, rfl⟩]

theorem dividedEntry_beside {c : Nat} (hc : c < t.unknowns) (other : c ≠ r) :
    t.dividedEntry r w r c = t.entry r c := by
  rw [dividedEntry, if_neg (by omega), if_neg (by omega)]

theorem dividedEntry_of_ne {i c : Nat} (other : i ≠ r) :
    t.dividedEntry r w i c = t.entry i c := by
  rw [dividedEntry, if_neg (by omega), if_neg (by omega)]

/-- What the division of one row comes to in a table of words. -/
def RowDivision (lookup : InverseLookup) (t : Tableau) (r : Nat) : Except Refusal Tableau → Prop
  | .ok t' => (¬ t.NeedsDivision r ∧ t' = t) ∨ (t.NeedsDivision r ∧
      ∃ w, lookup.inverse (t.entry r r) = .ok (some w) ∧ t.Rewritten (t.dividedEntry r w) t')
  | .error e => t.NeedsDivision r ∧ lookup.inverse (t.entry r r) = .ok none ∧
      e = .notInvertible r (t.entry r r) t.modulus

theorem divide_rewritten (words : t.OfWords) (hr : r < t.unknowns) (hw : w < wordBound) :
    ∃ t', (do
      let constant ← Residue.mul (← t.constant r) w t.modulus
      let divided ← t.set r t.unknowns constant
      return .ok (← divided.set r r 1) : Checked (Except Refusal Tableau)) = .ok (.ok t') ∧
        t.Rewritten (t.dividedEntry r w) t' := by
  have inside : t.unknowns < t.width := Nat.lt_succ_self _
  have product := Residue.mul_eq words.modulus_pos (words.entry_lt hr inside) hw
  obtain ⟨s, first, constant⟩ := set_spec words.shaped hr inside
    (Residue.representative (t.entry r t.unknowns * w) t.modulus)
  obtain ⟨t', second, both⟩ := set_spec constant.shaped (constant.unknowns ▸ hr)
    (show r < s.width by
      rw [constant.width, width]
      omega) 1
  refine ⟨t', ?_, (constant.trans both).congr fun i hi c hc => ?_⟩
  · rw [Tableau.constant_eq words.shaped hr, Checked.ok_bind, product, Checked.ok_bind, first,
      Checked.ok_bind, second]
    rfl
  · rw [constant.entry i hi c hc, dividedEntry]
    by_cases isConstant : i = r ∧ c = t.unknowns
    · rw [if_neg (by omega), if_pos isConstant, if_pos isConstant]
    · rw [if_neg isConstant, if_neg isConstant]

theorem resolveRow_division (words : t.OfWords) (hr : r < t.unknowns)
    (total : lookup.Total t.modulus) :
    ∃ outcome, Solver.resolveRow lookup t r = .ok outcome ∧ RowDivision lookup t r outcome := by
  have diagonal : t.diagonal r = .ok (t.entry r r) :=
    Tableau.get_eq words.shaped hr (Nat.lt_succ_of_lt hr)
  rw [Solver.resolveRow, diagonal, Checked.ok_bind]
  by_cases zero : t.entry r r = 0
  · rw [if_pos zero]
    exact ⟨.ok t, rfl, Or.inl ⟨fun needs => needs.1 zero, rfl⟩⟩
  · rw [if_neg zero, Tableau.coefficients_eq words.shaped hr, Checked.ok_bind]
    rw [Checked.suffix_eq (by simpa using hr), Checked.ok_bind]
    by_cases later : ∃ c < t.unknowns, r < c ∧ t.entry r c ≠ 0
    · rw [if_pos ((any_later_iff _ r _).mpr later)]
      obtain ⟨c, hc, after, nonzero⟩ := later
      exact ⟨.ok t, rfl, Or.inl ⟨fun needs => nonzero (needs.2.1 c hc after), rfl⟩⟩
    · rw [if_neg fun any => later ((any_later_iff _ r _).mp any)]
      by_cases one : t.entry r r = 1
      · rw [if_pos one]
        exact ⟨.ok t, rfl, Or.inl ⟨fun needs => needs.2.2 one, rfl⟩⟩
      · have needs : t.NeedsDivision r := by
          refine ⟨zero, fun c hc after => ?_, one⟩
          by_contra nonzero
          exact later ⟨c, hc, after, nonzero⟩
        obtain ⟨answer, found, reduced⟩ := total (t.entry r r)
        rw [if_neg one, found, Checked.ok_bind]
        cases answer with
        | none => exact ⟨.error (.notInvertible r (t.entry r r) t.modulus), rfl, needs, found, rfl⟩
        | some w =>
          obtain ⟨t', run, divided⟩ :=
            divide_rewritten words hr (Nat.lt_trans (reduced w rfl) words.modulus_lt)
          exact ⟨.ok t', run, Or.inr ⟨needs, w, found, divided⟩⟩

theorem resolveRow_unneeded (words : t.OfWords) (hr : r < t.unknowns)
    (total : lookup.Total t.modulus) (unneeded : ¬ t.NeedsDivision r) :
    Solver.resolveRow lookup t r = .ok (.ok t) := by
  obtain ⟨outcome, run, division⟩ := resolveRow_division words hr total
  cases outcome with
  | error refusal => exact absurd division.1 unneeded
  | ok t' =>
    rcases division with ⟨_, rfl⟩ | ⟨needs, _⟩
    · exact run
    · exact absurd needs unneeded

theorem Rewritten.divided (h : t.IsTable m n) (large : 1 < m)
    (divided : t.Rewritten (t.dividedEntry r w) t') : Divided m n w t t' r := by
  have hm := h.pos
  have table := h.rewritten divided fun i hi c hc => by
    rw [dividedEntry, h.modulus]
    split
    · exact Residue.representative_lt hm _
    · split
      · exact large
      · exact h.entry_lt hi hc
  refine ⟨table.toIsTable, fun i hi c hc => (table.residue i hi c hc).trans ?_⟩
  rw [dividedEntry, h.modulus, h.unknowns]
  split
  · rw [Residue.cast_representative hm]
    push_cast
    rfl
  · split
    · exact Nat.cast_one
    · rfl

theorem NeedsDivision.one_lt (h : t.IsTable m n) (hr : r < n) (needs : t.NeedsDivision r) :
    1 < m := by
  have less := h.entry_lt hr (Nat.le_of_lt hr)
  have nonzero := needs.1
  have other := needs.2.2
  omega

theorem resolveRow_spec (h : t.IsTable m n) (hr : r < n) (total : lookup.Total m) :
    ∃ outcome, Solver.resolveRow lookup t r = .ok outcome ∧
      RowOutcome m n lookup t r outcome := by
  obtain ⟨outcome, run, division⟩ :=
    resolveRow_division h.wellFormed.ofWords (h.unknowns ▸ hr) (h.modulus ▸ total)
  refine ⟨outcome, run, ?_⟩
  cases outcome with
  | error refusal =>
    obtain ⟨needs, missing, same⟩ := division
    exact ⟨needs, missing, h.modulus ▸ same⟩
  | ok t' =>
    rcases division with unneeded | ⟨needs, w, found, rewritten⟩
    · exact Or.inl unneeded
    · exact Or.inr ⟨needs, w, found, rewritten.divided h (needs.one_lt h hr)⟩

/-! What a divided row keeps. -/

namespace Divided

variable (h : t.IsTable m n) (hr : r < n) (needs : t.NeedsDivision r)
  (divided : Divided m n w t t' r)

include divided in
theorem isTable : t'.IsTable m n := divided.toIsTable

include h hr needs divided

theorem diagonal : t'.entry r r = 1 := by
  have table := isTable divided
  apply Residue.eq_of_cast_eq (table.entry_lt hr (Nat.le_of_lt hr)) (needs.one_lt h hr)
  have here := divided.residue r hr r (Nat.le_of_lt hr)
  rw [if_neg (by omega), if_pos ⟨rfl, rfl⟩] at here
  rw [Nat.cast_one]
  exact here

omit hr needs in
theorem entry_eq {i c : Nat} (hi : i < n) (hc : c ≤ n) (constant : ¬ (i = r ∧ c = n))
    (pivot : ¬ (i = r ∧ c = r)) : t'.entry i c = t.entry i c := by
  apply (isTable divided).entry_eq h hi hc hi hc
  rw [divided.residue i hi c hc, if_neg constant, if_neg pivot]

theorem settled_iff {i : Nat} (hi : i < n) : t'.Settled n i ↔ t.Settled n i := by
  rw [Settled, Settled]
  by_cases here : i = r
  · subst here
    rw [diagonal h hi needs divided]
    exact ⟨fun before => ⟨before.1, needs.1⟩, fun before => ⟨before.1, Nat.one_ne_zero⟩⟩
  · rw [entry_eq h divided hi (Nat.le_of_lt hi) (by omega) (by omega)]

theorem staircase (stairs : t.Staircase n) : t'.Staircase n := by
  have table := isTable divided
  have hn := h.unknowns
  refine ⟨fun i hi settled c before => ?_, fun i hi settled j hj other => ?_,
    fun i hi after => ?_⟩
  · rw [table.unknowns] at hi
    rw [entry_eq h divided hi (by omega) (by omega) (by omega)]
    exact stairs.pivot_left i (hn ▸ hi) ((settled_iff h hr needs divided hi).mp settled) c before
  · rw [table.unknowns] at hi hj
    rw [entry_eq h divided hj (Nat.le_of_lt hi) (by omega) (by omega)]
    exact stairs.pivot_column i (hn ▸ hi) ((settled_iff h hr needs divided hi).mp settled) j
      (hn ▸ hj) other
  · rw [table.unknowns] at hi
    omega

theorem reduced (reduced : t.Reduced n) : t'.Reduced n where
  toStaircase := staircase h hr needs divided reduced.toStaircase
  clear := by
    intro i hi unsettled c before
    rw [(isTable divided).unknowns] at hi
    have unsettled' := fun settled => unsettled ((settled_iff h hr needs divided hi).mpr settled)
    have other : i ≠ r := by
      rintro rfl
      exact unsettled' ⟨hi, needs.1⟩
    rw [entry_eq h divided hi (Nat.le_of_lt before) (by omega) (by omega)]
    exact reduced.clear i (h.unknowns ▸ hi) unsettled' c before

/-- A row that starts at its pivot has no entry but that and its constant, so it is divided as a
whole. -/
theorem scaled (inverse : t.residue m r r * w = 1) (stairs : t.Staircase n) :
    ∀ c ≤ n, t'.residue m r c = t.residue m r c * w := by
  have hn := h.unknowns
  intro c hc
  rw [divided.residue r hr c hc]
  by_cases last : c = n
  · rw [if_pos ⟨rfl, last⟩, last]
  · rw [if_neg (by omega)]
    by_cases pivot : c = r
    · rw [if_pos ⟨rfl, pivot⟩, pivot, inverse]
    · rw [if_neg (by omega)]
      have zero : t.entry r c = 0 := by
        rcases Nat.lt_or_gt_of_ne pivot with left | right
        · exact stairs.pivot_left r (hn ▸ hr) ⟨hr, needs.1⟩ c left
        · exact needs.2.1 c (hn ▸ by omega) right
      rw [residue, zero, Nat.cast_zero, zero_mul]

theorem holds_iff (inverse : t.residue m r r * w = 1) (stairs : t.Staircase n)
    (x : Nat → ZMod m) : t'.Holds m x ↔ t.Holds m x := by
  have table := isTable divided
  have hn := h.unknowns
  have unit : IsUnit (w : ZMod m) := IsUnit.of_mul_eq_one_right _ inverse
  have scaled := scaled h hr needs divided inverse stairs
  have here : t'.defect m x r = t.defect m x r * w := by
    rw [defect, defect, table.unknowns, hn, scaled n (Nat.le_refl n), sub_mul, sum_mul]
    congr 1
    refine sum_congr rfl fun c inside => ?_
    rw [scaled c (Nat.le_of_lt (mem_range.mp inside))]
    ring
  have others : ∀ i < n, i ≠ r → t'.defect m x i = t.defect m x i := by
    intro i hi other
    rw [defect, defect, table.unknowns, hn, divided.residue i hi n (Nat.le_refl n),
      if_neg (by omega), if_neg (by omega)]
    congr 1
    refine sum_congr rfl fun c inside => ?_
    rw [divided.residue i hi c (Nat.le_of_lt (mem_range.mp inside)), if_neg (by omega),
      if_neg (by omega)]
  rw [Holds, Holds, table.unknowns, hn]
  refine forall₂_congr fun i hi => ?_
  by_cases isRow : i = r
  · rw [isRow, here, unit.mul_left_eq_zero]
  · rw [others i hi isRow]

/-- A pivot without inverse is not divided out, so it is still there. -/
theorem tainted (inverse : t.residue m r r * w = 1) (tainted : t.Tainted m n) :
    t'.Tainted m n := by
  obtain ⟨i, hi, settled, nonunit⟩ := tainted
  rw [h.unknowns] at hi
  refine ⟨i, (isTable divided).unknowns ▸ hi, (settled_iff h hr needs divided hi).mpr settled, ?_⟩
  have other : i ≠ r := by
    rintro rfl
    exact nonunit (IsUnit.of_mul_eq_one _ inverse)
  rwa [residue, entry_eq h divided hi (Nat.le_of_lt hi) (by omega) (by omega)]

theorem staircase_or_gap (either : t.Staircase n ∨ ∃ i < n, t.entry i i = 0) :
    t'.Staircase n ∨ ∃ i < n, t'.entry i i = 0 := by
  rcases either with stairs | ⟨i, hi, zero⟩
  · exact Or.inl (staircase h hr needs divided stairs)
  · refine Or.inr ⟨i, hi, ?_⟩
    by_contra nonzero
    exact ((settled_iff h hr needs divided hi).mp ⟨hi, nonzero⟩).2 zero

/-- A divided row needs no further division, and the other rows are not concerned. -/
theorem needsDivision {i : Nat} (hi : i < n) (still : t'.NeedsDivision i) :
    i ≠ r ∧ t.NeedsDivision i := by
  have other : i ≠ r := by
    rintro rfl
    exact still.2.2 (diagonal h hi needs divided)
  have unknowns := (isTable divided).unknowns.trans h.unknowns.symm
  refine ⟨other, (NeedsDivision.congr unknowns (h.unknowns ▸ hi) fun c hc => ?_).mp still⟩
  rw [h.unknowns] at hc
  exact entry_eq h divided hi (Nat.le_of_lt hc) (by omega) (by omega)

end Divided

/-! All rows, one after the other. -/

/-- What the divisions have come to when they end with the table `d`. -/
def ResolutionOutcome (m n : Nat) (lookup : InverseLookup) (d : Tableau) :
    Except Refusal Unit → Prop
  | .ok () => ∀ i < n, ¬ d.NeedsDivision i
  | .error refusal => ∃ i < n, d.NeedsDivision i ∧ lookup.inverse (d.entry i i) = .ok none ∧
      refusal = .notInvertible i (d.entry i i) m

/-- The rows are gone through in turn. An invariant `P` that each row that is not refused establishes
for the next one holds at the end, or at the row that is refused. -/
theorem resolveFrom_run {P : Nat → Tableau → Prop}
    (step : ∀ i < n, ∀ s, P i s → ∃ outcome, Solver.resolveRow lookup s i = .ok outcome ∧
      ∀ s', outcome = .ok s' → P (i + 1) s')
    (count : Nat) (start : P r t) (fits : r + count = n) :
    ∃ d outcome, Solver.resolveFrom lookup t r count = .ok (d, outcome) ∧
      (outcome = .ok () ∧ P n d ∨ ∃ i < n, ∃ refusal, outcome = .error refusal ∧ P i d ∧
        Solver.resolveRow lookup d i = .ok (.error refusal)) := by
  induction count generalizing t r with
  | zero =>
    have last : r = n := by omega
    exact ⟨t, .ok (), rfl, Or.inl ⟨rfl, last ▸ start⟩⟩
  | succ count ih =>
    have hr : r < n := by omega
    obtain ⟨outcome, run, next⟩ := step r hr t start
    rw [Solver.resolveFrom, run, Checked.ok_bind]
    cases outcome with
    | error refusal =>
      exact ⟨t, .error refusal, rfl, Or.inr ⟨r, hr, refusal, rfl, start, run⟩⟩
    | ok t' => exact ih (next t' rfl) (by omega)

/-- What each division keeps, all of them keep. -/
theorem resolveFrom_spec (total : lookup.Total m) {P : Tableau → Prop}
    (keeps : ∀ s s' i w, s.IsTable m n → i < n → s.NeedsDivision i →
      lookup.inverse (s.entry i i) = .ok (some w) → Divided m n w s s' i → P s → P s')
    (count : Nat) (h : t.IsTable m n) (start : P t) (fits : r + count = n)
    (before : ∀ i < r, ¬ t.NeedsDivision i) :
    ∃ d outcome, Solver.resolveFrom lookup t r count = .ok (d, outcome) ∧ d.IsTable m n ∧ P d ∧
      ResolutionOutcome m n lookup d outcome := by
  have step : ∀ i < n, ∀ s : Tableau,
      (s.IsTable m n ∧ P s ∧ ∀ k < i, ¬ s.NeedsDivision k) →
      ∃ outcome, Solver.resolveRow lookup s i = .ok outcome ∧ ∀ s', outcome = .ok s' →
        s'.IsTable m n ∧ P s' ∧ ∀ k < i + 1, ¬ s'.NeedsDivision k := by
    rintro i hi s ⟨hs, kept, done⟩
    obtain ⟨outcome, run, result⟩ := resolveRow_spec hs hi total
    refine ⟨outcome, run, ?_⟩
    rintro s' rfl
    rcases result with ⟨unneeded, rfl⟩ | ⟨needs, w, found, divided⟩
    · -- row `i` never needed a division, and the rows before it need none any more
      refine ⟨hs, kept, fun k hk => ?_⟩
      by_cases here : k = i
      · exact here ▸ unneeded
      · exact done k (by omega)
    · refine ⟨Divided.isTable divided, keeps s s' i w hs hi needs found divided kept, ?_⟩
      intro k hk still
      obtain ⟨other, needed⟩ := Divided.needsDivision hs hi needs divided (by omega) still
      exact done k (by omega) needed
  obtain ⟨d, outcome, run, ended⟩ := resolveFrom_run step count ⟨h, start, before⟩ fits
  refine ⟨d, outcome, run, ?_⟩
  rcases ended with ⟨rfl, hd, kept, done⟩ | ⟨i, hi, refusal, rfl, ⟨hd, kept, _⟩, refused⟩
  · exact ⟨hd, kept, done⟩
  · obtain ⟨_, run', result⟩ := resolveRow_spec hd hi total
    cases Except.ok.inj (refused.symm.trans run')
    exact ⟨hd, kept, i, hi, result⟩

/-- The form of a table on which elimination is done, whatever its solutions have become. -/
structure Stepped (m n : Nat) (d : Tableau) : Prop where
  table : d.IsTable m n
  staircase_or_gap : d.Staircase n ∨ ∃ r < n, d.entry r r = 0

/-- What is known of a table `d` to which elimination has brought `t`, and remains known while
pivots are divided out. -/
structure Eliminated (m n : Nat) (t d : Tableau) : Prop extends Stepped m n d where
  reduced_or_tainted : (d.Reduced n ∧ ∀ x, d.Holds m x ↔ t.Holds m x) ∨ d.Tainted m n
  kept : t.StaysClear → d.Staircase n ∧ ∀ x, t.Holds m x → d.Holds m x

theorem eliminate_spec (h : t.IsTable m n) :
    ∃ e, t.eliminate = .ok e ∧ Eliminated m n t e := by
  obtain ⟨e, run, table, reduced⟩ := eliminate_reduced_or_tainted h
  obtain ⟨e', run', stairs⟩ := eliminate_staircase_or_gap h
  obtain rfl : e = e' := Except.ok.inj (run.symm.trans run')
  refine ⟨e, run, ⟨table, stairs⟩, reduced, fun clear => ?_⟩
  obtain ⟨e', run', _, stairs', kept⟩ := eliminate_keeps h clear
  obtain rfl : e = e' := Except.ok.inj (run.symm.trans run')
  exact ⟨stairs', kept⟩

theorem Stepped.divided {d d' : Tableau} (h : Stepped m n d) (hr : r < n)
    (needs : d.NeedsDivision r) (divided : Divided m n w d d' r) : Stepped m n d' where
  table := Divided.isTable divided
  staircase_or_gap := Divided.staircase_or_gap h.table hr needs divided h.staircase_or_gap

/-- Only a division by an inverse keeps the solutions. -/
theorem Eliminated.divided {d d' : Tableau} (h : Eliminated m n t d) (hr : r < n)
    (needs : d.NeedsDivision r) (inverse : d.residue m r r * w = 1)
    (divided : Divided m n w d d' r) : Eliminated m n t d' where
  toStepped := h.toStepped.divided hr needs divided
  reduced_or_tainted := by
    rcases h.reduced_or_tainted with ⟨reduced, same⟩ | tainted
    · refine Or.inl ⟨Divided.reduced h.table hr needs divided reduced, fun x => ?_⟩
      rw [Divided.holds_iff h.table hr needs divided inverse reduced.toStaircase, same]
    · exact Or.inr (Divided.tainted h.table hr needs divided inverse tainted)
  kept := by
    intro clear
    obtain ⟨stairs, kept⟩ := h.kept clear
    refine ⟨Divided.staircase h.table hr needs divided stairs, fun x holds => ?_⟩
    exact (Divided.holds_iff h.table hr needs divided inverse stairs x).mpr (kept x holds)

/-- Elimination and the divisions together. -/
theorem eliminate_resolve_spec (h : t.IsTable m n) (total : lookup.Total m) :
    ∃ e d outcome, t.eliminate = .ok e ∧ e.unknowns = n ∧
      Solver.resolveFrom lookup e 0 n = .ok (d, outcome) ∧ Stepped m n d ∧
      (lookup.Exact m → Eliminated m n t d) ∧ ResolutionOutcome m n lookup d outcome := by
  obtain ⟨e, run, eliminated⟩ := eliminate_spec h
  obtain ⟨d, outcome, resolved, _, ⟨stepped, known⟩, result⟩ := resolveFrom_spec total
    (P := fun d => Stepped m n d ∧ (lookup.Exact m → Eliminated m n t d))
    (fun _ _ _ _ _ hr needs found divided ⟨stepped, known⟩ =>
      ⟨stepped.divided hr needs divided, fun exact =>
        (known exact).divided hr needs (exact _ _ found).2 divided⟩)
    n eliminated.table ⟨eliminated.toStepped, fun _ => eliminated⟩ (Nat.zero_add n)
    fun i hi => absurd hi (Nat.not_lt_zero i)
  exact ⟨e, d, outcome, run, eliminated.table.unknowns, resolved, stepped, known, result⟩

end Tableau

end LinearCongruences
