import Mathlib
import LinearCongruences.Proofs.Document.Reports
import LinearCongruences.Proofs.FamilyShape
import LinearCongruences.Proofs.Json.Sizes
import LinearCongruences.Proofs.Safety

/-! From the systems of a file to the reports of their outcomes. A system that has been read has a
word as modulus, and no more rows than its text has characters. So all numbers that are reported
about it are words, and the report can be read back. -/
namespace LinearCongruences

open Json

/-- The modulus is a word, and a word counts the rows. -/
structure CongruenceSystem.Countable (s : CongruenceSystem) : Prop where
  modulus : s.modulus < wordBound
  rows : s.rows.length < wordBound

/-! Lists whose items belong together in pairs. -/

theorem forall₂_of_mapM {α β : Type} {f : α → Option β} {xs : List α} {ys : List β}
    (all : xs.mapM f = some ys) : List.Forall₂ (fun x y => f x = some y) xs ys := by
  induction xs generalizing ys with
  | nil =>
    cases all
    exact .nil
  | cons x rest ih =>
    rw [List.mapM_cons] at all
    obtain ⟨y, first, others⟩ := Option.bind_eq_some_iff.mp all
    obtain ⟨ys', mapped, same⟩ := Option.bind_eq_some_iff.mp others
    cases same
    exact .cons first (ih mapped)

theorem exists_of_forall₂ {α β : Type} {R : α → β → Prop} {xs : List α} {ys : List β}
    (pairs : List.Forall₂ R xs ys) {y : β} (inside : y ∈ ys) : ∃ x ∈ xs, R x y := by
  induction pairs with
  | nil => cases inside
  | cons first others ih =>
    rcases List.mem_cons.mp inside with rfl | later
    · exact ⟨_, List.mem_cons_self, first⟩
    · obtain ⟨x, member, related⟩ := ih later
      exact ⟨x, List.mem_cons_of_mem _ member, related⟩

theorem unique_of_forall₂ {α β ε : Type} {f : α → Except ε β} {xs : List α} {ys ys' : List β}
    (pairs : List.Forall₂ (fun x y => f x = .ok y) xs ys)
    (pairs' : List.Forall₂ (fun x y => f x = .ok y) xs ys') : ys = ys' :=
  List.right_unique_forall₂' (fun _ _ _ one other => Except.ok.inj (one.symm.trans other))
    pairs pairs'

/-! What a value that is read as a system is like. -/

namespace Json.Value

variable {α : Type} {v : Value}

theorem natural?_lt {n : Nat} (read : v.natural? = some n) : n < wordBound := by
  unfold natural? at read
  split at read
  · split at read
    · cases read
      omega
    · cases read
  · cases read

theorem length_lt_of_list? {item? : Value → Option α} {xs : List α}
    (read : v.list? item? = some xs) : xs.length < v.draft.size := by
  cases v with
  | scalar s => cases read
  | object members => cases read
  | array items =>
    rw [← (forall₂_of_mapM read).length_eq]
    exact length_items

theorem exists_item_of_list? {item? : Value → Option α} {xs : List α}
    (read : v.list? item? = some xs) {x : α} (inside : x ∈ xs) :
    ∃ w, w.draft.size < v.draft.size ∧ item? w = some x := by
  cases v with
  | scalar s => cases read
  | object members => cases read
  | array items =>
    obtain ⟨w, present, found⟩ := exists_of_forall₂ (forall₂_of_mapM read) inside
    exact ⟨w, size_item present, found⟩

theorem mem_of_required? {value? : Value → Option α} {key : String}
    {members : List (String × Value)} {x : α} (read : required? value? key members = some x) :
    ∃ v, (key, v) ∈ members ∧ value? v = some x := by
  obtain ⟨found, member, rest⟩ := Option.bind_eq_some_iff.mp read
  cases found with
  | none => cases rest
  | some v =>
    refine ⟨v, ?_, rest⟩
    unfold member? at member
    split at member
    · cases member
    · rename_i key' v' only
      cases member
      have inside : (key', v) ∈ members.filter fun m => m.1 == key := by
        rw [only]
        exact List.mem_cons_self
      obtain ⟨present, same⟩ := List.mem_filter.mp inside
      exact beq_iff_eq.mp same ▸ present
    · cases member

end Json.Value

theorem CongruenceSystem.ofValue?_sizes {v : Value} {s : CongruenceSystem}
    (read : ofValue? v = some s) : s.modulus < wordBound ∧ s.rows.length < v.draft.size := by
  unfold ofValue? at read
  split at read
  · rename_i members
    obtain ⟨name, _, read⟩ := Option.bind_eq_some_iff.mp read
    obtain ⟨modulus, first, read⟩ := Option.bind_eq_some_iff.mp read
    obtain ⟨rows, second, read⟩ := Option.bind_eq_some_iff.mp read
    cases read
    obtain ⟨_, _, first⟩ := Value.mem_of_required? first
    obtain ⟨_, inside, second⟩ := Value.mem_of_required? second
    exact ⟨Value.natural?_lt first,
      Nat.lt_trans (Value.length_lt_of_list? second) (Value.size_member inside)⟩
  · obtain ⟨name, _, read⟩ := Option.bind_eq_some_iff.mp read
    obtain ⟨modulus, first, read⟩ := Option.bind_eq_some_iff.mp read
    obtain ⟨rows, second, read⟩ := Option.bind_eq_some_iff.mp read
    cases read
    exact ⟨Value.natural?_lt first,
      Nat.lt_trans (Value.length_lt_of_list? second) (Value.size_item (by simp))⟩
  · cases read

namespace SystemFile

theorem ofValue?_sizes {v : Value} {file : SystemFile} (read : ofValue? v = some file) :
    ∀ s ∈ file.systems, s.modulus < wordBound ∧ s.rows.length < v.draft.size := by
  unfold ofValue? one? at read
  cases single : CongruenceSystem.ofValue? v with
  | some s =>
    rw [single] at read
    cases read
    intro s' inside
    rw [List.mem_singleton.mp inside]
    exact CongruenceSystem.ofValue?_sizes single
  | none =>
    rw [single] at read
    obtain ⟨ss, several, same⟩ := Option.map_eq_some_iff.mp read
    cases same
    intro s inside
    obtain ⟨w, smaller, found⟩ := Value.exists_item_of_list? several inside
    obtain ⟨modulus, rows⟩ := CongruenceSystem.ofValue?_sizes found
    exact ⟨modulus, Nat.lt_trans rows smaller⟩

/-- A system that is read from a text has no more rows than the text has characters. -/
theorem parse_sizes {text : String} {file : SystemFile} (read : parse text = .ok file) :
    ∀ s ∈ file.systems, s.modulus < wordBound ∧ s.rows.length ≤ text.toList.length := by
  have small := Document.size_ofText text
  obtain ⟨file', shaped, finished⟩ := Checked.bind_eq_ok.mp read
  obtain ⟨v, complete, fits⟩ := Checked.bind_eq_ok.mp shaped
  rw [Draft.eq_draft _ v complete] at small
  split at finished
  · cases finished
    split at fits
    · rename_i found
      cases fits
      intro s inside
      obtain ⟨modulus, rows⟩ := ofValue?_sizes found s inside
      exact ⟨modulus, Nat.le_of_lt_succ (Nat.lt_of_lt_of_le rows small)⟩
    · cases fits
  · cases finished

end SystemFile

theorem Directory.load_eq_ok {α : Type} {d : Directory} {path : String}
    {parse : String → Except Problem α} {a : α} :
    d.load path parse = .ok a ↔ ∃ text, d.readText path = .ok text ∧ parse text = .ok a := by
  rw [load]
  cases d.readText path with
  | error e => simp
  | ok text => cases parsed : parse text <;> simp [parsed, Except.mapError]

theorem Directory.Storable.countable {d : Directory} (storable : d.Storable) {path : String}
    {file : SystemFile} (loaded : d.loadSystems path = .ok file) :
    ∀ s ∈ file.systems, s.Countable := by
  obtain ⟨text, content, parsed⟩ := load_eq_ok.mp loaded
  intro s inside
  obtain ⟨modulus, rows⟩ := SystemFile.parse_sizes parsed s inside
  exact ⟨modulus, Nat.lt_of_le_of_lt rows (storable.length_lt content)⟩

/-! What is reported. -/

open Tableau

variable {m n : Nat}

theorem Relation.Fits.inWords {r : Relation} (fits : r.Fits m n) (hm : m < wordBound)
    (hn : n < wordBound) : r.InWords where
  column := Nat.lt_trans fits.column hn
  coefficient := Nat.lt_trans fits.coefficient hm
  residual := fun term inside =>
    ⟨Nat.lt_trans (fits.residual term inside).1 hn, Nat.lt_trans (fits.residual term inside).2 hm⟩
  constant := Nat.lt_trans fits.constant hm

theorem Tableau.ReadsAs.inWords {d : Tableau} (h : d.IsTable m n) (hn : n < wordBound)
    {verdict : Verdict} (reads : d.ReadsAs (.ok verdict)) :
    (Finding.ofResult (.ok verdict)).InWords := by
  cases verdict with
  | inconsistent row constant =>
    obtain ⟨hrow, _, rfl, _⟩ := reads
    rw [h.unknowns] at hrow
    exact ⟨Nat.lt_trans hrow hn, h.unknowns ▸ h.entry_word hrow (Nat.le_refl n)⟩
  | unique values =>
    obtain ⟨_, rfl⟩ := reads
    intro v inside
    obtain ⟨r, hr, rfl⟩ := List.mem_map.mp inside
    rw [h.unknowns] at hr ⊢
    exact h.entry_word (List.mem_range.mp hr) (Nat.le_refl n)
  | infinite family =>
    obtain ⟨_, _, rfl⟩ := reads
    have fits := family_fits h
    exact ⟨fun c inside => Nat.lt_trans (fits.free c inside) hn,
      fun r inside => (fits.relations r inside).inWords h.bound hn⟩

theorem Tableau.IsTable.rows_inWords {d : Tableau} (h : d.IsTable m n) :
    ∀ row ∈ d.rows, ∀ x ∈ row, x < wordBound := by
  intro row member x inside
  rw [rows_eq h.shaped] at member
  obtain ⟨r, hr, rfl⟩ := List.mem_map.mp member
  obtain ⟨c, hc, rfl⟩ := List.mem_map.mp inside
  rw [h.unknowns, List.mem_range] at hr
  rw [h.width, List.mem_range] at hc
  exact h.entry_word hr (Nat.le_of_lt_succ hc)

/-- A solver for a system holds a table of its size. -/
theorem Solver.ofIntegers_fresh (word : m < wordBound) {rows : List (List Int)}
    {settings : Settings} {s : Solver} (built : ofIntegers m rows settings = .ok (.ok s)) :
    ∃ t, Fresh m rows.length t s := by
  obtain ⟨made, run, wellFormed⟩ := Tableau.ofIntegers_returns word rows
  rw [ofIntegers, run, Checked.ok_bind] at built
  cases made with
  | error refusal => cases built
  | ok t =>
    have fresh := ofTableau_fresh (wellFormed t rfl) built
    have sizes : t.modulus = m ∧ t.unknowns = rows.length := by
      unfold Tableau.ofIntegers at run
      split at run
      · cases run
      · obtain ⟨cells, _, same⟩ := Checked.bind_eq_ok.mp run
        cases same
        exact ⟨rfl, rfl⟩
    rw [sizes.1, sizes.2] at fresh
    exact ⟨t, fresh⟩

namespace CongruenceSystem.Countable

variable {s : CongruenceSystem} (small : s.Countable) {settings : Settings} {o : Outcome}

include small

/-- A system is refused from the start, or its outcome is read off the table that the run ends
with. -/
theorem outcome_cases (run : s.outcome settings = .ok o) :
    (∃ refusal, o = ⟨s.name, s.modulus, s.unknowns, .error refusal, none⟩) ∨
    ∃ final answer, final.IsTable s.modulus s.unknowns ∧
      (∀ verdict, answer = .ok verdict → final.ReadsAs (.ok verdict)) ∧
      o = ⟨s.name, s.modulus, s.unknowns, answer,
        if settings.report.includeMatrix then some final else none⟩ := by
  obtain ⟨made, built, rest⟩ := Checked.bind_eq_ok.mp run
  cases made with
  | error refusal =>
    cases rest
    exact Or.inl ⟨refusal, rfl⟩
  | ok solver =>
    obtain ⟨t, fresh⟩ := Solver.ofIntegers_fresh small.modulus built
    obtain ⟨final, answer, solved, table, _, answers⟩ := Solver.solve_upright fresh
    simp only [solved, Checked.ok_bind, Checked.pure_eq_ok, Except.ok.injEq] at rest
    refine Or.inr ⟨final.tableau, answer, table, fun verdict same => ?_, rest.symm⟩
    subst same
    obtain ⟨_, _, _, _, absurd⟩ | ⟨_, reads⟩ := answers
    · cases absurd
    · exact reads

/-- All numbers in the report of an outcome are words. -/
theorem report_inWords (run : s.outcome settings = .ok o) : (Report.ofOutcome o).InWords := by
  obtain ⟨refusal, rfl⟩ | ⟨final, answer, table, reads, rfl⟩ := small.outcome_cases run
  · exact ⟨small.modulus, small.rows, trivial, nofun⟩
  · refine ⟨small.modulus, small.rows, ?_, ?_⟩
    · cases answer with
      | error refusal => trivial
      | ok verdict => exact (reads verdict rfl).inWords table small.rows
    · intro rows reported
      cases included : settings.report.includeMatrix with
      | false => simp [Report.ofOutcome, included] at reported
      | true =>
        have same : final.rows = rows := by
          simpa [Report.ofOutcome, included] using reported
        exact same ▸ table.rows_inWords

end CongruenceSystem.Countable

end LinearCongruences
