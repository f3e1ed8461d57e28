import Mathlib
import LinearCongruences.Proofs.Relations

/-! Back-substitution in a family, whatever table it comes from. The run ends with a point or at a
coefficient that has no inverse, and if the residuals name free columns only, the point satisfies
every relation, those solved first included. -/
namespace LinearCongruences

open Tableau (classes)

/-- Reduced values for `n` unknowns. -/
structure IsPoint (m n : Nat) (values : Array Nat) : Prop where
  size : values.size = n
  lt : ∀ x ∈ values, x < m

/-- A relation among `n` unknowns with reduced coefficients. -/
structure Relation.Fits (m n : Nat) (r : Relation) : Prop where
  column : r.column < n
  coefficient : r.coefficient < m
  constant : r.constant < m
  residual : ∀ term ∈ r.residual, term.1 < n ∧ term.2 < m

variable {m n : Nat} {values : Array Nat}

namespace IsPoint

theorem get_spec (h : IsPoint m n values) {c : Nat} (hc : c < n) :
    ∃ x, Checked.get values c = .ok x ∧ x < m ∧ (x : ZMod m) = classes m values.toList c := by
  have inside : c < values.size := h.size ▸ hc
  refine ⟨values[c], Checked.get_eq inside, h.lt _ (Array.getElem_mem inside), ?_⟩
  simp [classes, List.getD_eq_getElem?_getD, inside]

theorem set_spec (h : IsPoint m n values) {c x : Nat} (hc : c < n) (hx : x < m) :
    ∃ values', Checked.set values c x = .ok values' ∧ IsPoint m n values' ∧
      classes m values'.toList = Function.update (classes m values.toList) c x := by
  have inside : c < values.size := h.size ▸ hc
  refine ⟨values.set c x inside, Checked.set_eq inside x, ⟨?_, fun y member => ?_⟩, ?_⟩
  · rw [Array.size_set, h.size]
  · rcases Array.mem_or_eq_of_mem_set member with old | new
    · exact h.lt y old
    · exact new ▸ hx
  · funext d
    by_cases here : d = c
    · subst here
      simp [classes, List.getD_eq_getElem?_getD, inside]
    · rw [Function.update_of_ne here]
      simp [classes, List.getD_eq_getElem?_getD, List.getElem?_set_ne (Ne.symm here)]

end IsPoint

namespace Family

/-! The chosen values. -/

theorem place_spec (hm : 0 < m) {pairs : List (Nat × Nat)} (inside : ∀ p ∈ pairs, p.1 < n)
    (point : IsPoint m n values) :
    ∃ values', place m pairs values = .ok values' ∧ IsPoint m n values' ∧
      (∀ c, (∀ p ∈ pairs, p.1 ≠ c) → classes m values'.toList c = classes m values.toList c) ∧
      ((pairs.map Prod.fst).Nodup → ∀ p ∈ pairs, classes m values'.toList p.1 = p.2) := by
  induction pairs generalizing values with
  | nil => exact ⟨values, rfl, point, fun _ _ => rfl, by simp⟩
  | cons p rest ih =>
    obtain ⟨c, x⟩ := p
    obtain ⟨hc, inside'⟩ := List.forall_mem_cons.mp inside
    obtain ⟨values₁, set, point₁, updated⟩ := point.set_spec hc (Nat.mod_lt x hm)
    obtain ⟨values₂, run, point₂, others, placed⟩ := ih inside' point₁
    refine ⟨values₂, ?_, point₂, ?_, ?_⟩
    · rw [place, Residue.reduce, Checked.remainder_eq (by omega), Checked.ok_bind, set,
        Checked.ok_bind, run]
    · intro d absent
      obtain ⟨different, absent'⟩ := List.forall_mem_cons.mp absent
      rw [others d absent', updated, Function.update_of_ne (Ne.symm different)]
    · intro distinct
      rw [List.map_cons, List.nodup_cons] at distinct
      refine List.forall_mem_cons.mpr ⟨?_, placed distinct.2⟩
      have kept : ∀ q ∈ rest, q.1 ≠ c := by
        intro q member same
        exact distinct.1 (List.mem_map.mpr ⟨q, member, same⟩)
      rw [others c kept, updated, Function.update_self, ZMod.natCast_mod]

/-! One relation. -/

theorem evaluate_spec (hm : 0 < m) (bound : m < wordBound) (point : IsPoint m n values)
    {residual : List (Nat × Nat)} (fits : ∀ term ∈ residual, term.1 < n ∧ term.2 < m) {total : Nat}
    (ht : total < m) :
    ∃ result, evaluate m values total residual = .ok result ∧ result < m ∧
      (result : ZMod m) = total +
        (residual.map fun term => (term.2 : ZMod m) * classes m values.toList term.1).sum := by
  induction residual generalizing total with
  | nil => exact ⟨total, rfl, ht, by simp⟩
  | cons term rest ih =>
    obtain ⟨c, a⟩ := term
    obtain ⟨⟨hc, ha⟩, fits'⟩ := List.forall_mem_cons.mp fits
    obtain ⟨x, get, hx, class_x⟩ := point.get_spec hc
    have product := Residue.representative_lt hm (a * x : Int)
    have next := Residue.representative_lt hm (total + Residue.representative (a * x) m : Int)
    obtain ⟨result, run, less, meaning⟩ := ih fits' next
    refine ⟨result, ?_, less, ?_⟩
    · rw [evaluate, get, Checked.ok_bind,
        Residue.mul_eq hm (Nat.lt_trans ha bound) (Nat.lt_trans hx bound), Checked.ok_bind,
        Residue.add_eq hm (Nat.lt_trans ht bound) (Nat.lt_trans product bound), Checked.ok_bind, run]
    · rw [meaning, List.map_cons, List.sum_cons, Residue.cast_representative hm]
      push_cast [Residue.cast_representative hm]
      rw [class_x, add_assoc]

/-- What solving one relation for its unknown comes to at the values `x`. -/
def SolvedFor (m : Nat) (r : Relation) (x : Nat → ZMod m) : Except Refusal Nat → Prop
  | .ok v => v < m ∧ r.coefficient.Coprime m ∧
      (r.coefficient : ZMod m) * v = r.constant - r.residualAt m x
  | .error refusal => ¬ r.coefficient.Coprime m ∧
      refusal = .notInvertible r.column r.coefficient m

theorem solveFor_spec (hm : 0 < m) (bound : m < wordBound) (point : IsPoint m n values)
    {r : Relation} (fits : r.Fits m n) :
    ∃ outcome, solveFor m values r = .ok outcome ∧
      SolvedFor m r (classes m values.toList) outcome := by
  obtain ⟨known, evaluated, less, meaning⟩ := evaluate_spec hm bound point fits.residual hm
  have rest := Residue.representative_lt hm (r.constant - known : Int)
  have value : ((Residue.representative (r.constant - known) m : Nat) : ZMod m) =
      r.constant - r.residualAt m (classes m values.toList) := by
    rw [Residue.cast_representative hm]
    push_cast
    rw [meaning, Nat.cast_zero, zero_add, Relation.residualAt]
  rw [solveFor, evaluated, Checked.ok_bind, Residue.sub_eq fits.constant less, Checked.ok_bind]
  by_cases one : r.coefficient = 1
  · rw [if_pos one]
    refine ⟨_, rfl, rest, ?_, ?_⟩
    · rw [one]
      exact Nat.coprime_one_left m
    · rw [one, Nat.cast_one, one_mul, value]
  · rw [if_neg one]
    obtain ⟨answer, found, inverse⟩ := Inverse.find_spec hm bound r.coefficient
    rw [found, Checked.ok_bind]
    cases answer with
    | none => exact ⟨_, rfl, inverse, rfl⟩
    | some w =>
      have product := Residue.mul_eq hm (Nat.lt_trans rest bound) (Nat.lt_trans inverse.1 bound)
      simp only [product, Checked.ok_bind]
      refine ⟨_, rfl, Residue.representative_lt hm _, inverse.coprime, ?_⟩
      rw [Residue.cast_representative hm]
      push_cast
      rw [value, mul_comm, mul_assoc, mul_comm (w : ZMod m), inverse.2, mul_one]

/-! All relations, one after the other. -/

/-- No relation has the unknown of another, and no residual names an unknown that is solved for. -/
structure Independent (relations : List Relation) : Prop where
  distinct : (relations.map Relation.column).Nodup
  residual : ∀ r ∈ relations, ∀ term ∈ r.residual, ∀ q ∈ relations, q.column ≠ term.1

theorem Independent.tail {r : Relation} {rest : List Relation} (h : Independent (r :: rest)) :
    Independent rest where
  distinct := (List.nodup_cons.mp h.distinct).2
  residual := fun q member term inside p member' =>
    h.residual q (List.mem_cons_of_mem r member) term inside p (List.mem_cons_of_mem r member')

/-- What solving all relations comes to, from the values `x` on. -/
def SolvedAll (m n : Nat) (relations : List Relation) (x : Nat → ZMod m) :
    Except Refusal (Array Nat) → Prop
  | .ok values => IsPoint m n values ∧ (∀ r ∈ relations, r.coefficient.Coprime m) ∧
      (∀ c, (∀ r ∈ relations, r.column ≠ c) → classes m values.toList c = x c) ∧
      (Independent relations → ∀ r ∈ relations, r.defect m (classes m values.toList) = 0)
  | .error refusal => ∃ r ∈ relations, ¬ r.coefficient.Coprime m ∧
      refusal = .notInvertible r.column r.coefficient m

/-- A relation that has been solved stays so while the other relations are. -/
theorem defect_eq_zero {r : Relation} {rest : List Relation} {x y : Nat → ZMod m} {v : Nat}
    (solved : (r.coefficient : ZMod m) * v = r.constant - r.residualAt m x)
    (kept : ∀ c, (∀ q ∈ rest, q.column ≠ c) → y c = Function.update x r.column v c)
    (independent : Independent (r :: rest)) : r.defect m y = 0 := by
  have own : y r.column = v := by
    rw [kept r.column ?_, Function.update_self]
    intro q member same
    exact (List.nodup_cons.mp independent.distinct).1 (same ▸ List.mem_map_of_mem member)
  have residual : r.residualAt m y = r.residualAt m x := by
    refine Relation.residualAt_congr fun term member => ?_
    have free := independent.residual r List.mem_cons_self term member
    rw [kept term.1 fun q inside => free q (List.mem_cons_of_mem r inside)]
    exact Function.update_of_ne (Ne.symm (free r List.mem_cons_self)) _ _
  rw [Relation.defect, own, residual, solved]
  ring

theorem solveAll_spec (hm : 0 < m) (bound : m < wordBound) {relations : List Relation}
    (fits : ∀ r ∈ relations, r.Fits m n) (point : IsPoint m n values) :
    ∃ outcome, solveAll m relations values = .ok outcome ∧
      SolvedAll m n relations (classes m values.toList) outcome := by
  induction relations generalizing values with
  | nil =>
    exact ⟨.ok values, rfl, point, by simp, fun _ _ => rfl, by simp⟩
  | cons r rest ih =>
    obtain ⟨first, others⟩ := List.forall_mem_cons.mp fits
    obtain ⟨outcome, run, solved⟩ := solveFor_spec hm bound point first
    rw [solveAll, run, Checked.ok_bind]
    cases outcome with
    | error refusal => exact ⟨_, rfl, r, List.mem_cons_self, solved⟩
    | ok v =>
      obtain ⟨less, coprime, solution⟩ := solved
      -- the rest runs on values in which this unknown is set, and does not touch it again
      obtain ⟨values₁, set, point₁, updated⟩ := point.set_spec first.column less
      obtain ⟨outcome, run', result⟩ := ih others point₁
      simp only [set, Checked.ok_bind]
      refine ⟨outcome, run', ?_⟩
      rw [updated] at result
      cases outcome with
      | error refusal =>
        obtain ⟨q, member, rest⟩ := result
        exact ⟨q, List.mem_cons_of_mem r member, rest⟩
      | ok values₂ =>
        obtain ⟨point₂, coprimes, kept, holds⟩ := result
        refine ⟨point₂, List.forall_mem_cons.mpr ⟨coprime, coprimes⟩, ?_, ?_⟩
        · intro c absent
          obtain ⟨different, absent'⟩ := List.forall_mem_cons.mp absent
          rw [kept c absent', Function.update_of_ne (Ne.symm different)]
        · intro independent
          refine List.forall_mem_cons.mpr ⟨?_, holds independent.tail⟩
          exact defect_eq_zero solution kept independent

/-! The whole assignment. -/

/-- A family over `n` unknowns whose columns and coefficients are in range. -/
structure Fits (m n : Nat) (f : Family) : Prop where
  modulus : f.modulus = m
  unknowns : f.unknowns = n
  free : ∀ c ∈ f.freeColumns, c < n
  relations : ∀ r ∈ f.relations, r.Fits m n

/-- The free columns are different from each other and from the unknowns that are solved for. -/
structure Parametric (f : Family) : Prop where
  distinct : f.freeColumns.Nodup
  free : ∀ r ∈ f.relations, r.column ∉ f.freeColumns
  independent : Independent f.relations

theorem exists_mem_zip {α β : Type} {xs : List α} {ys : List β} (length : ys.length = xs.length)
    {a : α} (member : a ∈ xs) : ∃ b, (a, b) ∈ xs.zip ys := by
  rw [← List.map_fst_zip (Nat.le_of_eq length.symm)] at member
  obtain ⟨⟨_, b⟩, pair, rfl⟩ := List.mem_map.mp member
  exact ⟨b, pair⟩

/-- What an assignment of the right number of values comes to. -/
def Assigned (m n : Nat) (f : Family) (chosen : List Nat) : Except Refusal (List Nat) → Prop
  | .ok point => point.length = n ∧ (∀ x ∈ point, x < m) ∧
      (∀ r ∈ f.relations, r.coefficient.Coprime m) ∧
      (f.Parametric → (∀ p ∈ f.freeColumns.zip chosen, classes m point p.1 = p.2) ∧
        ∀ r ∈ f.relations, r.defect m (classes m point) = 0)
  | .error refusal => ∃ r ∈ f.relations, ¬ r.coefficient.Coprime m ∧
      refusal = .notInvertible r.column r.coefficient m

/-- An assignment of the right number of values solves the relations, starting from an array that
holds the chosen values and zeros. -/
theorem assign_eq (hm : 0 < m) {f : Family} (fits : f.Fits m n) {chosen : List Nat}
    (length : chosen.length = f.freeColumns.length) :
    ∃ values, IsPoint m n values ∧
      (f.freeColumns.Nodup →
        ∀ p ∈ f.freeColumns.zip chosen, classes m values.toList p.1 = p.2) ∧
      (∀ c, c ∉ f.freeColumns → classes m values.toList c = 0) ∧
      f.assign chosen = do return (← solveAll m f.relations values).map Array.toList := by
  have start : IsPoint m n (Array.replicate n 0) :=
    ⟨Array.size_replicate, fun x member => (Array.mem_replicate.mp member).2 ▸ hm⟩
  have columns : (f.freeColumns.zip chosen).map Prod.fst = f.freeColumns :=
    List.map_fst_zip (by omega)
  have mem_free : ∀ p ∈ f.freeColumns.zip chosen, p.1 ∈ f.freeColumns := by
    intro p member
    exact (List.of_mem_zip member).1
  obtain ⟨values, place, point, others, placed⟩ :=
    place_spec hm (fun p member => fits.free _ (mem_free p member)) start
  rw [columns] at placed
  refine ⟨values, point, placed, fun c absent => ?_, ?_⟩
  · rw [others c fun p member same => absent (same ▸ mem_free p member)]
    simp only [classes, Array.toList_replicate, List.getD_eq_getElem?_getD, List.getElem?_replicate]
    split <;> simp
  · rw [assign, if_neg (by omega), fits.modulus, fits.unknowns, place]
    rfl

theorem assign_spec (hm : 0 < m) (bound : m < wordBound) {f : Family} (fits : f.Fits m n)
    {chosen : List Nat} (length : chosen.length = f.freeColumns.length) :
    ∃ outcome, f.assign chosen = .ok outcome ∧ f.Assigned m n chosen outcome := by
  obtain ⟨values, point, placed, _, assigned⟩ := assign_eq hm fits length
  obtain ⟨outcome, run, result⟩ := solveAll_spec hm bound fits.relations point
  refine ⟨outcome.map Array.toList, ?_, ?_⟩
  · rw [assigned, run]
    rfl
  · cases outcome with
    | error refusal => exact result
    | ok values' =>
      obtain ⟨point', coprimes, kept, holds⟩ := result
      refine ⟨?_, fun x member => point'.lt x (Array.mem_toList_iff.mp member), coprimes, ?_⟩
      · exact Array.length_toList.trans point'.size
      · intro parametric
        refine ⟨fun p member => ?_, holds parametric.independent⟩
        rw [← placed parametric.distinct p member]
        refine kept p.1 fun r inside same => ?_
        exact parametric.free r inside (same ▸ (List.of_mem_zip member).1)

/-- Whether an assignment succeeds depends on the coefficients alone. -/
theorem assign_ok_iff (hm : 0 < m) (bound : m < wordBound) {f : Family} (fits : f.Fits m n)
    {chosen : List Nat} (length : chosen.length = f.freeColumns.length) :
    (∃ point, f.assign chosen = .ok (.ok point)) ↔
      ∀ r ∈ f.relations, r.coefficient.Coprime m := by
  obtain ⟨outcome, run, result⟩ := assign_spec hm bound fits length
  rw [run]
  cases outcome with
  | ok point => exact ⟨fun _ => result.2.2.1, fun _ => ⟨point, rfl⟩⟩
  | error refusal =>
    obtain ⟨r, member, noncoprime, _⟩ := result
    constructor
    · rintro ⟨point, absurd⟩
      cases absurd
    · exact fun all => absurd (all r member) noncoprime

end Family

end LinearCongruences
