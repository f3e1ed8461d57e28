import Mathlib
import LinearCongruences.Proofs.Classification

/-! What a run does to the constants. All decisions of a run look at coefficients only, so tables
with the same coefficients go through the same steps, and each step combines their constants in
the same way. -/
namespace LinearCongruences

open Finset

namespace Tableau

/-- The table `u` has the coefficients of `t`, whatever its constants are. -/
structure Alike (m n : Nat) (t u : Tableau) : Prop extends IsTable m n u where
  entry : ∀ r < n, ∀ c < n, u.entry r c = t.entry r c

/-- The constants of `u'` are those of `u`, combined by the matrix `S`. -/
def Combines (m n : Nat) (S : Nat → Nat → ZMod m) (u u' : Tableau) : Prop :=
  ∀ r < n, u'.residue m r n = ∑ i ∈ range n, S r i * u.residue m i n

/-- Nothing is combined. -/
def alone (m : Nat) (r i : Nat) : ZMod m := if i = r then 1 else 0

/-- First by `S`, then by `S'`. -/
def composed {m : Nat} (n : Nat) (S' S : Nat → Nat → ZMod m) (r i : Nat) : ZMod m :=
  ∑ k ∈ range n, S' r k * S k i

/-- Each constant is made from two, at `p` and at `q`. -/
def paired {m : Nat} (a b : Nat → ZMod m) (p q : Nat → Nat) (r i : Nat) : ZMod m :=
  (if i = p r then a r else 0) - if i = q r then b r else 0

/-- The constant at `row` is multiplied by `w`. -/
def scaledAt {m : Nat} (w : ZMod m) (row r i : Nat) : ZMod m :=
  if i = r then if r = row then w else 1 else 0

/-- What a row keeps of its constant when a column is cleared. -/
def keeps (m : Nat) (t : Tableau) (column r : Nat) : ZMod m :=
  if r = column ∨ t.entry r column = 0 then 1 else (t.factors column r).1

/-- What a row takes of the constant of the pivot row. -/
def takes (m : Nat) (t : Tableau) (column r : Nat) : ZMod m :=
  if r = column ∨ t.entry r column = 0 then 0 else (t.factors column r).2

/-- The step takes the tables with the coefficients of `t` to tables with those of `t'`, and
combines their constants by `S`. -/
def Acts (m n : Nat) (step : Tableau → Checked Tableau) (S : Nat → Nat → ZMod m)
    (t t' : Tableau) : Prop :=
  ∀ u, Alike m n t u → ∃ u', step u = .ok u' ∧ Alike m n t' u' ∧ Combines m n S u u'

variable {m n : Nat} {t t' u u' u'' : Tableau} {r c column : Nat}

namespace Combines

theorem refl (u : Tableau) : Combines m n (alone m) u u := by
  intro r hr
  rw [sum_eq_single_of_mem r (mem_range.mpr hr), alone, if_pos rfl, one_mul]
  intro i _ other
  rw [alone, if_neg other, zero_mul]

theorem trans {S S' : Nat → Nat → ZMod m} (first : Combines m n S u u')
    (second : Combines m n S' u' u'') :
    Combines m n (composed n S' S) u u'' := by
  intro r hr
  have inner : ∀ k ∈ range n, S' r k * u'.residue m k n =
      ∑ i ∈ range n, S' r k * S k i * u.residue m i n := by
    intro k inside
    rw [first k (mem_range.mp inside), mul_sum]
    exact sum_congr rfl fun i _ => (mul_assoc _ _ _).symm
  rw [second r hr, sum_congr rfl inner, sum_comm]
  exact sum_congr rfl fun i _ => (sum_mul _ _ _).symm

/-- Each constant may be made from two of the old ones. -/
theorem of_pair {a b : Nat → ZMod m} {p q : Nat → Nat} (hp : ∀ r < n, p r < n)
    (hq : ∀ r < n, q r < n)
    (pair : ∀ r < n, u'.residue m r n =
      a r * u.residue m (p r) n - b r * u.residue m (q r) n) :
    Combines m n (paired a b p q) u u' := by
  intro r hr
  have pick : ∀ k < n, ∀ x : ZMod m,
      ∑ i ∈ range n, (if i = k then x else 0) * u.residue m i n = x * u.residue m k n := by
    intro k hk x
    rw [sum_eq_single_of_mem k (mem_range.mpr hk) fun i _ other => by rw [if_neg other, zero_mul],
      if_pos rfl]
  simp only [paired]
  rw [pair r hr, sum_congr rfl fun i _ => sub_mul _ _ (u.residue m i n), sum_sub_distrib,
    pick _ (hp r hr), pick _ (hq r hr)]

/-- Constants that come from a point are combined to those that come from the columns. -/
theorem of_columns {S : Nat → Nat → ZMod m} {x : Nat → ZMod m} {v v' : Nat → Tableau}
    (combines : Combines m n S u u') (columns : ∀ j < n, Combines m n S (v j) (v' j))
    (weighted : ∀ r < n, u.residue m r n = ∑ j ∈ range n, x j * (v j).residue m r n)
    (hr : r < n) : u'.residue m r n = ∑ j ∈ range n, x j * (v' j).residue m r n := by
  have outer : ∀ i ∈ range n, S r i * u.residue m i n =
      ∑ j ∈ range n, x j * (S r i * (v j).residue m i n) := by
    intro i inside
    rw [weighted i (mem_range.mp inside), mul_sum]
    exact sum_congr rfl fun j _ => mul_left_comm _ _ _
  rw [combines r hr, sum_congr rfl outer, sum_comm]
  refine sum_congr rfl fun j inside => ?_
  rw [columns j (mem_range.mp inside) r hr, mul_sum]

end Combines

namespace Alike

theorem beside (h : Alike m n t u) (h' : Alike m n t u') : Alike m n u u' :=
  ⟨h'.toIsTable, fun r hr c hc => (h'.entry r hr c hc).trans (h.entry r hr c hc).symm⟩

theorem sorted_iff (h : Alike m n t u) (ht : t.IsTable m n) : u.Sorted ↔ t.Sorted := by
  rw [Sorted, Sorted, h.unknowns, ht.unknowns]
  refine forall₂_congr fun r hr => ?_
  rw [h.entry r hr r hr]
  exact forall_congr' fun _ => forall₂_congr fun c hc => by rw [h.entry r hr c hc]

theorem offers_iff (h : Alike m n t u) (hr : r < n) (hc : column < n) :
    u.Offers column r ↔ t.Offers column r := by
  rw [Offers, Offers, Settled, Settled, h.entry r hr r hr, h.entry r hr column hc]

theorem residue_eq (h : Alike m n t u) (hr : r < n) (hc : c < n) :
    u.residue m r c = t.residue m r c := by
  rw [residue, residue, h.entry r hr c hc]

theorem needsDivision_iff (h : Alike m n t u) (ht : t.IsTable m n) (hr : r < n) :
    u.NeedsDivision r ↔ t.NeedsDivision r :=
  NeedsDivision.congr (h.unknowns.trans ht.unknowns.symm) (ht.unknowns ▸ hr) fun c hc =>
    h.entry r hr c (ht.unknowns ▸ hc)

/-- Tables are alike if their coefficients have the same classes. -/
theorem of_residue (h : t.IsTable m n) (h' : u.IsTable m n)
    (same : ∀ r < n, ∀ c < n, u.residue m r c = t.residue m r c) : Alike m n t u :=
  ⟨h', fun r hr c hc => h'.entry_eq h hr (Nat.le_of_lt hc) hr (Nat.le_of_lt hc) (same r hr c hc)⟩

theorem factors_eq (h : Alike m n t u) (hr : r < n) (hc : column < n) :
    u.factors column r = t.factors column r := by
  rw [factors, factors, h.entry column hc column hc, h.entry r hr column hc]

/-- The first row that offers a pivot is the same. -/
theorem pivot_eq {p q : Nat} (h : Alike m n t u) (hc : column < n) (hp : p < n) (hq : q < n)
    (offers : t.Offers column p) (least : ∀ r < p, ¬ t.Offers column r)
    (offers' : u.Offers column q) (least' : ∀ r < q, ¬ u.Offers column r) : q = p := by
  rcases Nat.lt_trichotomy q p with before | same | after
  · exact absurd ((h.offers_iff hq hc).mp offers') (least q before)
  · exact same
  · exact absurd ((h.offers_iff hp hc).mpr offers) (least' p after)

theorem swapped {p : Nat} (h : Alike m n t u) (hc : column < n) (hp : p < n)
    (first : t'.Represents m n fun r c => t.residue m (Equiv.swap column p r) c)
    (second : u'.Represents m n fun r c => u.residue m (Equiv.swap column p r) c) :
    Alike m n t' u' := by
  refine of_residue first.toIsTable second.toIsTable fun r hr c hcn => ?_
  rw [second.residue r hr c (Nat.le_of_lt hcn), first.residue r hr c (Nat.le_of_lt hcn)]
  exact h.residue_eq (swap_lt hc hp hr) hcn

theorem cleared (h : Alike m n t u) (hc : column < n)
    (first : t'.Represents m n (t.cleared m column))
    (second : u'.Represents m n (u.cleared m column)) : Alike m n t' u' := by
  refine of_residue first.toIsTable second.toIsTable fun r hr c hcn => ?_
  have here := h.residue_eq hr hcn
  rw [second.residue r hr c (Nat.le_of_lt hcn), first.residue r hr c (Nat.le_of_lt hcn),
    Tableau.cleared, Tableau.cleared, h.entry r hr column hc, here,
    cancelled_congr hr hc (h.entry r hr) (h.entry column hc) here (h.residue_eq hc hcn)]

/-- The factors for the constants are read off the coefficients. -/
theorem cleared_constant (h : Alike m n t u) (hr : r < n) (hc : column < n) :
    u.cleared m column r n =
      t.keeps m column r * u.residue m r n - t.takes m column r * u.residue m column n := by
  rw [Tableau.cleared, keeps, takes, h.entry r hr column hc]
  split
  · ring
  · rw [cancelled, if_neg (by omega), h.factors_eq hr hc]
    ring

end Alike

/-- One column of elimination. -/
theorem eliminateColumn_acts (h : t.IsTable m n) (hc : column < n) :
    ∃ t' S, t.eliminateColumn column = .ok t' ∧ t'.IsTable m n ∧
      Acts m n (eliminateColumn · column) S t t' := by
  obtain ⟨t', run, result⟩ := eliminateColumn_spec h hc
  rcases result with ⟨same, none⟩ | ⟨p, s, hp, offers, least, swapped, cleared⟩
  · subst same
    refine ⟨t', alone m, run, h, fun u alike => ?_⟩
    obtain ⟨u', run', ⟨same, _⟩ | ⟨q, _, hq, offers', _⟩⟩ :=
      eliminateColumn_spec alike.toIsTable hc
    · subst same
      exact ⟨u', run', alike, Combines.refl u'⟩
    · exact absurd ((alike.offers_iff hq hc).mp offers') (none q hq)
  · -- the factors are read off the coefficients of `t` after the swap, whatever the constants are
    refine ⟨t', paired (s.keeps m column) (s.takes m column) (Equiv.swap column p)
      (fun _ => Equiv.swap column p column), run, cleared.toIsTable, fun u alike => ?_⟩
    obtain ⟨u', run', ⟨_, none⟩ | ⟨q, v, hq, offers', least', swapped', cleared'⟩⟩ :=
      eliminateColumn_spec alike.toIsTable hc
    · exact absurd ((alike.offers_iff hp hc).mpr offers) (none p hp)
    · obtain rfl := alike.pivot_eq hc hp hq offers least offers' least'
      have alike' := alike.swapped hc hq swapped swapped'
      refine ⟨u', run', alike'.cleared hc cleared cleared', ?_⟩
      refine Combines.of_pair (fun r hr => swap_lt hc hq hr) (fun r _ => swap_lt hc hq hc) ?_
      intro r hr
      rw [cleared'.residue r hr n (Nat.le_refl n), alike'.cleared_constant hr hc,
        swapped'.residue r hr n (Nat.le_refl n), swapped'.residue column hc n (Nat.le_refl n)]

/-- Any number of columns. -/
theorem eliminateUpTo_acts (h : t.IsTable m n) {count : Nat} (fits : count ≤ n) :
    ∃ e S, t.eliminateUpTo count = .ok e ∧ e.IsTable m n ∧
      Acts m n (eliminateUpTo · count) S t e := by
  obtain ⟨e, run, table, S, acts⟩ := Checked.foldlM_range eliminateColumn t count
    (fun k s => s.IsTable m n ∧ ∃ S, Acts m n (eliminateUpTo · k) S t s)
    ⟨h, alone m, fun u alike => ⟨u, rfl, alike, Combines.refl u⟩⟩
    (by
      rintro k hk s _ ⟨table, S, acts⟩
      obtain ⟨s', S', step, table', acts'⟩ := eliminateColumn_acts table (by omega : k < n)
      refine ⟨s', step, table', composed n S' S, fun u alike => ?_⟩
      obtain ⟨v, reached, alike', combines⟩ := acts u alike
      obtain ⟨v', next, alike'', combines'⟩ := acts' v alike'
      refine ⟨v', ?_, alike'', combines.trans combines'⟩
      simp only [eliminateUpTo] at reached ⊢
      rw [Checked.foldlM_range_succ, reached, Checked.ok_bind]
      exact next)
  exact ⟨e, S, run, table, acts⟩

/-- Whether a run stays clear does not depend on the constants. -/
theorem StaysClear.alike (h : t.IsTable m n) (clear : t.StaysClear) (alike : Alike m n t u) :
    u.StaysClear := by
  intro column hc v reached r hr offers c before
  rw [alike.unknowns] at hc
  obtain ⟨e, _, run, table, acts⟩ := eliminateUpTo_acts h (Nat.le_of_lt hc)
  obtain ⟨v', run', alike', _⟩ := acts u alike
  obtain rfl : v = v' := Except.ok.inj (reached.symm.trans run')
  rw [alike'.unknowns] at hr
  rw [alike'.entry r hr c (by omega)]
  refine clear column (h.unknowns ▸ hc) e run r (table.unknowns ▸ hr) ?_ c before
  exact (alike'.offers_iff hr hc).mp offers

/-! The divisions. -/

variable {w : Nat} {lookup : InverseLookup}

theorem Alike.divided (h : Alike m n t u) (first : Divided m n w t t' r)
    (second : Divided m n w u u' r) :
    Alike m n t' u' ∧ Combines m n (scaledAt (w : ZMod m) r) u u' := by
  constructor
  · refine of_residue first.toIsTable second.toIsTable fun i hi c hc => ?_
    have coefficient : ¬ (i = r ∧ c = n) := by omega
    rw [second.residue i hi c (Nat.le_of_lt hc), first.residue i hi c (Nat.le_of_lt hc)]
    simp only [if_neg coefficient, h.residue_eq hi hc]
  · intro i hi
    rw [second.residue i hi n (Nat.le_refl n), sum_eq_single_of_mem i (mem_range.mpr hi)
      fun k _ other => by rw [scaledAt, if_neg other, zero_mul], scaledAt, if_pos rfl]
    by_cases here : i = r
    · rw [if_pos ⟨here, rfl⟩, if_pos here, here, mul_comm]
    · rw [if_neg (by omega), if_neg (by omega), if_neg here, one_mul]

namespace RowOutcome

variable {outcome : Except Refusal Tableau} (h : t.IsTable m n) (alike : Alike m n t u) (hr : r < n)
  (result : RowOutcome m n lookup u r outcome)

include h alike hr result

theorem refused (needs : t.NeedsDivision r) (missing : lookup.inverse (t.entry r r) = .ok none) :
    outcome = .error (.notInvertible r (t.entry r r) m) := by
  have same := alike.entry r hr r hr
  cases outcome with
  | error refusal => rw [result.2.2, same]
  | ok u' =>
    rcases result with ⟨unneeded, _⟩ | ⟨_, w, found, _⟩
    · exact absurd ((alike.needsDivision_iff h hr).mpr needs) unneeded
    · rw [same, missing] at found
      cases found

theorem unchanged (unneeded : ¬ t.NeedsDivision r) : outcome = .ok u := by
  have unneeded' := fun needs => unneeded ((alike.needsDivision_iff h hr).mp needs)
  cases outcome with
  | error refusal => exact absurd result.1 unneeded'
  | ok u' =>
    rcases result with ⟨_, same⟩ | ⟨needs, _⟩
    · rw [same]
    · exact absurd needs unneeded'

theorem divided (needs : t.NeedsDivision r)
    (found : lookup.inverse (t.entry r r) = .ok (some w)) :
    ∃ u', outcome = .ok u' ∧ Divided m n w u u' r := by
  rw [← alike.entry r hr r hr] at found
  cases outcome with
  | error refusal =>
    obtain ⟨_, missing, _⟩ := result
    rw [missing] at found
    cases found
  | ok u' =>
    rcases result with ⟨unneeded, _⟩ | ⟨_, w', found', divided⟩
    · exact absurd ((alike.needsDivision_iff h hr).mpr needs) unneeded
    · rw [found'] at found
      cases found
      exact ⟨u', rfl, divided⟩

end RowOutcome

/-- What the division of a row does to each table with the coefficients of `t`. -/
theorem resolveRow_acts (h : t.IsTable m n) (hr : r < n) (total : lookup.Total m) :
    (∃ refusal, ∀ u, Alike m n t u → Solver.resolveRow lookup u r = .ok (.error refusal)) ∨
    ∃ t' S, t'.IsTable m n ∧ ∀ u, Alike m n t u → ∃ u',
      Solver.resolveRow lookup u r = .ok (.ok u') ∧ Alike m n t' u' ∧ Combines m n S u u' := by
  obtain ⟨outcome, _, result⟩ := resolveRow_spec h hr total
  have own : ∀ u, Alike m n t u → ∃ o, Solver.resolveRow lookup u r = .ok o ∧
      RowOutcome m n lookup u r o :=
    fun u alike => resolveRow_spec alike.toIsTable hr total
  cases outcome with
  | error refusal =>
    obtain ⟨needs, missing, _⟩ := result
    refine Or.inl ⟨.notInvertible r (t.entry r r) m, fun u alike => ?_⟩
    obtain ⟨o, run, result⟩ := own u alike
    rw [run, result.refused h alike hr needs missing]
  | ok t' =>
    right
    rcases result with ⟨unneeded, _⟩ | ⟨needs, w, found, divided⟩
    · refine ⟨t, alone m, h, fun u alike => ?_⟩
      obtain ⟨o, run, result⟩ := own u alike
      obtain rfl := result.unchanged h alike hr unneeded
      exact ⟨u, run, alike, Combines.refl u⟩
    · refine ⟨t', scaledAt (w : ZMod m) r, divided.toIsTable, fun u alike => ?_⟩
      obtain ⟨o, run, result⟩ := own u alike
      obtain ⟨u', rfl, divided'⟩ := result.divided h alike hr needs found
      exact ⟨u', run, alike.divided divided divided'⟩

theorem resolveFrom_acts (total : lookup.Total m) (count : Nat) (h : t.IsTable m n)
    (fits : r + count = n) :
    ∃ d S, d.IsTable m n ∧ ∀ u, Alike m n t u → ∃ v outcome,
      Solver.resolveFrom lookup u r count = .ok (v, outcome) ∧ Alike m n d v ∧
        Combines m n S u v := by
  induction count generalizing t r with
  | zero => exact ⟨t, alone m, h, fun u alike => ⟨u, .ok (), rfl, alike, Combines.refl u⟩⟩
  | succ count ih =>
    rcases resolveRow_acts h (by omega : r < n) total with ⟨refusal, stops⟩ | ⟨t', S, table, acts⟩
    · refine ⟨t, alone m, h, fun u alike => ⟨u, .error refusal, ?_, alike, Combines.refl u⟩⟩
      rw [Solver.resolveFrom, stops u alike]
      rfl
    · obtain ⟨d, S', table', acts'⟩ := ih table (by omega : r + 1 + count = n)
      refine ⟨d, composed n S' S, table', fun u alike => ?_⟩
      obtain ⟨u', step, alike', combines⟩ := acts u alike
      obtain ⟨v, outcome, run, alike'', combines'⟩ := acts' u' alike'
      refine ⟨v, outcome, ?_, alike'', combines.trans combines'⟩
      rw [Solver.resolveFrom, step, Checked.ok_bind]
      exact run

end Tableau

open Tableau in
/-- Solvers for tables with the same coefficients end with such tables, and the constants have been
combined in the same way. -/
theorem Solver.solve_acts {m n : Nat} {t : Tableau} (h : t.IsTable m n) {lookup : InverseLookup}
    (total : lookup.Total m) :
    ∃ d S, d.IsTable m n ∧ ∀ u s, Alike m n t u → Fresh m n u s → s.lookup = lookup →
      ∃ final answer, s.solve = .ok (final, answer) ∧ Stepped m n final.tableau ∧
        Answers m n lookup final.tableau answer ∧ Alike m n d final.tableau ∧
        Combines m n S u final.tableau := by
  obtain ⟨e, S, _, table, acts⟩ := eliminateUpTo_acts h (Nat.le_refl n)
  obtain ⟨d, S', table', acts'⟩ := resolveFrom_acts total n table (Nat.zero_add n)
  refine ⟨d, composed n S' S, table', fun u s alike fresh sameLookup => ?_⟩
  subst sameLookup
  obtain ⟨v, eliminated, alike', combines⟩ := acts u alike
  obtain ⟨w, outcome, resolved, alike'', combines'⟩ := acts' v alike'
  obtain ⟨v', w', outcome', eliminated', unknowns, resolved', stepped, _, result⟩ :=
    eliminate_resolve_spec fresh.table total
  have upTo : u.eliminateUpTo n = .ok v' := by
    rw [← fresh.table.unknowns]
    exact eliminated'
  obtain rfl : v' = v := Except.ok.inj (upTo.symm.trans eliminated)
  rw [resolved'] at resolved
  obtain ⟨rfl, rfl⟩ := Prod.mk.inj (Except.ok.inj resolved)
  obtain ⟨final, answer, run, rfl, answers⟩ :=
    solve_eq fresh eliminated' unknowns resolved' stepped.table result
  exact ⟨final, answer, run, stepped, answers, alike'', combines.trans combines'⟩

end LinearCongruences
