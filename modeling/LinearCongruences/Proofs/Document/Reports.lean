import LinearCongruences.Document.Loading
import LinearCongruences.Proofs.Directory
import LinearCongruences.Proofs.Json.Shapes

/-! A report file that has been written is read back as it was. The reader goes through the members
of a report in turn; what is neither name, modulus, unknowns nor matrix is gathered, and gives the
finding in the end. -/
namespace LinearCongruences

open Json

/-- All numbers are words. -/
structure Relation.InWords (r : Relation) : Prop where
  column : r.column < wordBound
  coefficient : r.coefficient < wordBound
  residual : ∀ term ∈ r.residual, term.1 < wordBound ∧ term.2 < wordBound
  constant : r.constant < wordBound

def Finding.InWords : Finding → Prop
  | .inconsistent row constant => row < wordBound ∧ constant < wordBound
  | .unique values => ∀ v ∈ values, v < wordBound
  | .infinite freeColumns relations =>
    (∀ c ∈ freeColumns, c < wordBound) ∧ ∀ r ∈ relations, r.InWords
  | .error _ => True

structure Report.InWords (r : Report) : Prop where
  modulus : r.modulus < wordBound
  unknowns : r.unknowns < wordBound
  finding : r.finding.InWords
  matrix : ∀ rows ∈ r.matrix, ∀ row ∈ rows, ∀ x ∈ row, x < wordBound

namespace Relation

variable {r : Relation}

theorem toValue_fits (words : r.InWords) (room : Nat) : r.toValue.Fits (room + 3) := by
  refine .object ?_
  simp only [List.forall_mem_cons]
  refine ⟨Value.fits_natural words.column, Value.fits_natural words.coefficient,
    Value.fits_list fun term inside => Value.fits_naturals ?_, Value.fits_natural words.constant,
    nofun⟩
  simpa using words.residual term inside

theorem term?_naturals {column coefficient : Nat} (hc : column < wordBound)
    (hx : coefficient < wordBound) :
    term? (Value.naturals [column, coefficient]) = some (column, coefficient) := by
  rw [Value.naturals, List.map_cons, List.map_cons, List.map_nil, term?, Value.natural?_natural hc,
    Value.natural?_natural hx]
  rfl

theorem ofValue?_object {c x t k : Value} {column coefficient constant : Nat}
    {residual : List (Nat × Nat)} (hc : c.natural? = some column)
    (hx : x.natural? = some coefficient) (ht : t.list? term? = some residual)
    (hk : k.natural? = some constant) :
    ofValue? (.object [("column", c), ("coefficient", x), ("residual", t), ("constant", k)]) =
      some ⟨column, coefficient, residual, constant⟩ := by
  simp [ofValue?, Value.required?, Value.member?, hc, hx, ht, hk]

theorem ofValue?_toValue (words : r.InWords) : ofValue? r.toValue = some r :=
  ofValue?_object (Value.natural?_natural words.column) (Value.natural?_natural words.coefficient)
    (Value.list?_map fun term inside =>
      term?_naturals (words.residual term inside).1 (words.residual term inside).2)
    (Value.natural?_natural words.constant)

end Relation

namespace Finding

variable {f : Finding}

theorem toMembers_fit (words : f.InWords) (room : Nat) :
    ∀ m ∈ f.toMembers, m.2.Fits (room + 4) := by
  cases f with
  | inconsistent row constant =>
    simp only [toMembers, List.forall_mem_cons]
    exact ⟨Value.fits_text _, Value.fits_natural words.1, Value.fits_natural words.2, nofun⟩
  | unique values =>
    simp only [toMembers, List.forall_mem_cons]
    exact ⟨Value.fits_text _, Value.fits_naturals words, nofun⟩
  | infinite freeColumns relations =>
    simp only [toMembers, List.forall_mem_cons]
    exact ⟨Value.fits_text _, Value.fits_naturals words.1,
      Value.fits_list fun r inside => Relation.toValue_fits (words.2 r inside) room, nofun⟩
  | error message =>
    simp only [toMembers, List.forall_mem_cons]
    exact ⟨Value.fits_text _, Value.fits_text _, nofun⟩

/-! Each kind of finding is found again in its own members, whatever values they have. -/

theorem ofMembers?_inconsistent {v w : Value} {row constant : Nat} (hr : v.natural? = some row)
    (hk : w.natural? = some constant) :
    ofMembers? [("outcome", .text "inconsistent"), ("row", v), ("constant", w)] =
      some (.inconsistent row constant) := by
  simp [ofMembers?, Value.required?, Value.member?, kind?, hr, hk]

theorem ofMembers?_unique {v : Value} {values : List Nat}
    (hv : v.list? Value.natural? = some values) :
    ofMembers? [("outcome", .text "unique"), ("values", v)] = some (.unique values) := by
  simp [ofMembers?, Value.required?, Value.member?, kind?, hv]

theorem ofMembers?_infinite {v w : Value} {freeColumns : List Nat} {relations : List Relation}
    (hc : v.list? Value.natural? = some freeColumns)
    (hr : w.list? Relation.ofValue? = some relations) :
    ofMembers? [("outcome", .text "infinite"), ("free_columns", v), ("relations", w)] =
      some (.infinite freeColumns relations) := by
  simp [ofMembers?, Value.required?, Value.member?, kind?, hc, hr]

theorem ofMembers?_toMembers (words : f.InWords) : ofMembers? f.toMembers = some f := by
  cases f with
  | inconsistent row constant =>
    exact ofMembers?_inconsistent (Value.natural?_natural words.1) (Value.natural?_natural words.2)
  | unique values => exact ofMembers?_unique (Value.list?_naturals words)
  | infinite freeColumns relations =>
    exact ofMembers?_infinite (Value.list?_naturals words.1)
      (Value.list?_map fun r inside => Relation.ofValue?_toValue (words.2 r inside))
  | error message =>
    simp [toMembers, ofMembers?, Value.required?, Value.member?, kind?, Value.text?]

end Finding

namespace Report

variable {r : Report} {room : Nat}

theorem toValue_fits (words : r.InWords) (room : Nat) : r.toValue.Fits (room + 5) := by
  refine .object ?_
  simp only [List.forall_mem_append, List.forall_mem_cons]
  refine ⟨⟨⟨fun m member => ?_, ?_⟩, Finding.toMembers_fit words.finding room⟩,
    fun m member => ?_⟩
  · obtain ⟨n, _, rfl⟩ := List.mem_map.mp member
    exact Value.fits_text n
  · exact ⟨Value.fits_natural words.modulus, Value.fits_natural words.unknowns, nofun⟩
  · obtain ⟨rows, inside, rfl⟩ := List.mem_map.mp member
    exact Value.fits_list fun row present =>
      Value.fits_naturals (words.matrix rows (Option.mem_toList.mp inside) row present)

/-! The readers of a draft, on the drafts of values. -/

variable {α : Type}

theorem atom_draft {scalar? : Value → Option α} {v : Scalar} {x : α}
    (read : scalar? (.scalar v) = some x) : atom scalar? (Value.scalar v).draft = .ok x := by
  rw [Value.draft, atom, read]

theorem atom_natural {n : Nat} (word : n < wordBound) :
    atom Value.natural? (Value.natural n).draft = .ok n := atom_draft (Value.natural?_natural word)

theorem items_draft {item : Draft → Except Problem α} {toValue : α → Value} {xs : List α}
    (read : ∀ x ∈ xs, item (toValue x).draft = .ok x) :
    items item (Value.array (xs.map toValue)).draft = .ok xs := by
  rw [Value.draft, Value.drafts_eq_map, items]
  have all : ((xs.map toValue).map Value.draft).mapM item = .ok xs := by
    induction xs with
    | nil => rfl
    | cons x rest ih =>
      rw [List.map_cons, List.map_cons, List.mapM_cons, read x List.mem_cons_self,
        ih fun y inside => read y (List.mem_cons_of_mem x inside)]
      rfl
  rw [all]
  rfl

theorem matrixOf_draft {rows : List (List Nat)} (words : ∀ row ∈ rows, ∀ x ∈ row, x < wordBound) :
    matrixOf (Value.array (rows.map Value.naturals)).draft = .ok (some rows) := by
  have read : items (items (atom Value.natural?)) (Value.array (rows.map Value.naturals)).draft =
      .ok rows :=
    items_draft fun row inside => items_draft fun x member =>
      atom_natural (words row inside x member)
  rw [Value.draft] at read ⊢
  rw [matrixOf, read]
  · rfl
  · nofun

/-! The members of a report, one after the other. -/

def ownKeys : List String := ["name", "modulus", "unknowns", "matrix"]

theorem take_other (parts : Parts) {key : String} (other : key ∉ ownKeys) (v : Value) :
    parts.take key v.draft = .ok { parts with others := parts.others ++ [(key, v)] } := by
  simp only [ownKeys, List.mem_cons, List.not_mem_nil, or_false, not_or] at other
  obtain ⟨name, modulus, unknowns, matrix⟩ := other
  rw [Parts.take, if_neg name, if_neg modulus, if_neg unknowns, if_neg matrix, Value.value_draft]
  rfl

theorem takeAll_append {parts parts' parts'' : Parts} {xs ys : List (String × Value)}
    (first : parts.takeAll (Value.memberDrafts xs) = .ok parts')
    (second : parts'.takeAll (Value.memberDrafts ys) = .ok parts'') :
    parts.takeAll (Value.memberDrafts (xs ++ ys)) = .ok parts'' := by
  induction xs generalizing parts with
  | nil =>
    cases first
    exact second
  | cons m rest ih =>
    obtain ⟨key, v⟩ := m
    rw [Value.memberDrafts, Parts.takeAll] at first
    rw [List.cons_append, Value.memberDrafts, Parts.takeAll]
    cases step : parts.take key v.draft with
    | error problem =>
      rw [step] at first
      cases first
    | ok next =>
      rw [step] at first
      exact ih first

theorem takeAll_others (parts : Parts) {members : List (String × Value)}
    (others : ∀ m ∈ members, m.1 ∉ ownKeys) :
    parts.takeAll (Value.memberDrafts members) =
      .ok { parts with others := parts.others ++ members } := by
  induction members generalizing parts with
  | nil => simp [Value.memberDrafts, Parts.takeAll]
  | cons m rest ih =>
    obtain ⟨key, v⟩ := m
    rw [Value.memberDrafts, Parts.takeAll, take_other parts (others (key, v) List.mem_cons_self)]
    refine (ih _ fun m inside => others m (List.mem_cons_of_mem _ inside)).trans ?_
    simp

theorem keys_toMembers (f : Finding) : ∀ m ∈ f.toMembers, m.1 ∉ ownKeys := by
  cases f <;> simp [Finding.toMembers, ownKeys]

theorem takeAll_name (parts : Parts) (unset : parts.name = none) (name : Option String) :
    parts.takeAll (Value.memberDrafts (name.toList.map fun n => ("name", Value.text n))) =
      .ok { parts with name := name.map some } := by
  obtain ⟨_, modulus, unknowns, matrix, others⟩ := parts
  subst unset
  cases name <;> rfl

theorem takeAll_sizes (parts : Parts) (unset : parts.modulus = none ∧ parts.unknowns = none)
    {m u : Value} {modulus unknowns : Nat} (hm : atom Value.natural? m.draft = .ok modulus)
    (hu : atom Value.natural? u.draft = .ok unknowns) :
    parts.takeAll (Value.memberDrafts [("modulus", m), ("unknowns", u)]) =
      .ok { parts with modulus := some modulus, unknowns := some unknowns } := by
  obtain ⟨name, _, _, matrix, others⟩ := parts
  obtain ⟨rfl, rfl⟩ := unset
  simp [Value.memberDrafts, Parts.takeAll, Parts.take, fresh, hm, hu, bind, Except.bind, pure,
    Except.pure, Except.map]

theorem takeAll_matrix (parts : Parts) (unset : parts.matrix = none)
    {matrix : Option (List (List Nat))}
    (words : ∀ rows ∈ matrix, ∀ row ∈ rows, ∀ x ∈ row, x < wordBound) :
    parts.takeAll (Value.memberDrafts
        (matrix.toList.map fun rows => ("matrix", Value.array (rows.map Value.naturals)))) =
      .ok { parts with matrix := matrix.map some } := by
  obtain ⟨name, modulus, unknowns, _, others⟩ := parts
  subst unset
  cases matrix with
  | none => rfl
  | some rows =>
    have read := matrixOf_draft (words rows rfl)
    simp only [Option.toList_some, List.map_cons, List.map_nil]
    generalize Value.array (rows.map Value.naturals) = v at read ⊢
    simp [Value.memberDrafts, Parts.takeAll, Parts.take, fresh, read, bind, Except.bind, pure,
      Except.pure, Except.map]

theorem takeAll_toValue (words : r.InWords) :
    Parts.takeAll ⟨none, none, none, none, []⟩ (Value.memberDrafts
      ((r.name.toList.map fun n => ("name", Value.text n)) ++
        [("modulus", .natural r.modulus), ("unknowns", .natural r.unknowns)] ++
        r.finding.toMembers ++
        r.matrix.toList.map fun rows => ("matrix", Value.array (rows.map Value.naturals)))) =
      .ok ⟨r.name.map some, some r.modulus, some r.unknowns, r.matrix.map some,
        r.finding.toMembers⟩ := by
  have name := takeAll_name ⟨none, none, none, none, []⟩ rfl r.name
  have sizes := takeAll_sizes ⟨r.name.map some, none, none, none, []⟩ ⟨rfl, rfl⟩
    (atom_natural words.modulus) (atom_natural words.unknowns)
  have others := takeAll_others ⟨r.name.map some, some r.modulus, some r.unknowns, none, []⟩
    (keys_toMembers r.finding)
  have matrix := takeAll_matrix
    ⟨r.name.map some, some r.modulus, some r.unknowns, none, r.finding.toMembers⟩ rfl words.matrix
  exact takeAll_append (takeAll_append (takeAll_append name sizes) others) matrix

theorem report?_toValue (words : r.InWords) :
    Parts.report? ⟨r.name.map some, some r.modulus, some r.unknowns, r.matrix.map some,
      r.finding.toMembers⟩ = some r := by
  obtain ⟨name, modulus, unknowns, finding, matrix⟩ := r
  have found := Finding.ofMembers?_toMembers words.finding
  simp only at found
  cases name <;> cases matrix <;> simp [Parts.report?, found]

theorem ofDraft_toValue (words : r.InWords) : ofDraft r.toValue.draft = .ok r := by
  rw [toValue, Value.draft, ofDraft, takeAll_toValue words]
  simp only [bind, Except.bind, report?_toValue words]
  rfl

theorem parseAll_renderAll (layout : Layout) {reports : List Report}
    (words : ∀ r ∈ reports, r.InWords) : parseAll (renderAll layout reports) = .ok reports := by
  have fits : (Value.array (reports.map toValue)).Fits (121 + 6) :=
    Value.fits_list fun r inside => toValue_fits (words r inside) 121
  rw [parseAll, renderAll, Document.ofText_render layout fits, Document.read,
    items_draft fun r inside => ofDraft_toValue (words r inside)]
  rfl

/-- Reports come back from their text in either layout, and so from a file they were saved to. -/
theorem load_saved (pretty : Bool) {reports : List Report} (words : ∀ r ∈ reports, r.InWords) :
    parseAll (renderAll (Directory.layoutOf pretty) reports) = .ok reports ∧
    ∀ (d d' : Directory) (path : String),
      d.saveReports path pretty reports = .ok d' → d'.loadReports path = .ok reports := by
  have parsed := parseAll_renderAll (Directory.layoutOf pretty) words
  refine ⟨parsed, fun d d' path saved => ?_⟩
  rw [Directory.saveReports] at saved
  cases written : d.write path (renderAll (Directory.layoutOf pretty) reports) with
  | error e =>
    rw [written] at saved
    cases saved
  | ok after =>
    rw [written] at saved
    cases saved
    rw [Directory.loadReports, Directory.load, Directory.readText_write written]
    simp only [parsed]
    rfl

/-- One report for each kind of finding. The names are missing, empty or hard to write, and the
numbers as large as they can be. -/
theorem load_saved_each_kind :
    let last := wordBound - 1
    let reports : List Report := [
      ⟨none, last, 1, .inconsistent 0 last, none⟩,
      ⟨some "", 7, 2, .unique [4, last], some [[1, 0, 4], [0, 1, last]]⟩,
      ⟨some "\t\"\\é\x01", 4, 3, .infinite [2] [⟨0, 1, [], 2⟩, ⟨1, 2, [(2, 3)], 1⟩], some []⟩,
      ⟨some "null", 0, 0, .error "modulus must be positive", none⟩]
    (∀ r ∈ reports, r.InWords) ∧ ∃ d', Directory.saveReports ⟨[]⟩ "out.json" true reports = .ok d' ∧
      d'.loadReports "out.json" = .ok reports := by
  intro last reports
  have inconsistent : InWords ⟨none, last, 1, .inconsistent 0 last, none⟩ :=
    ⟨by decide, by decide, ⟨by decide, by decide⟩, nofun⟩
  have unique : InWords ⟨some "", 7, 2, .unique [4, last], some [[1, 0, 4], [0, 1, last]]⟩ := by
    refine ⟨by decide, by decide, ?_, ?_⟩
    · change ∀ v ∈ [4, last], v < wordBound
      decide
    · rintro rows ⟨⟩
      decide
  have infinite : InWords
      ⟨some "\t\"\\é\x01", 4, 3, .infinite [2] [⟨0, 1, [], 2⟩, ⟨1, 2, [(2, 3)], 1⟩], some []⟩ := by
    refine ⟨by decide, by decide, ⟨by decide, ?_⟩, ?_⟩
    · simp only [List.forall_mem_cons]
      exact ⟨⟨by decide, by decide, nofun, by decide⟩, ⟨by decide, by decide, by decide, by decide⟩,
        nofun⟩
    · rintro rows ⟨⟩
      decide
  have error : InWords ⟨some "null", 0, 0, .error "modulus must be positive", none⟩ :=
    ⟨by decide, by decide, trivial, nofun⟩
  have words : ∀ r ∈ reports, r.InWords := by
    simp only [reports, List.forall_mem_cons]
    exact ⟨inconsistent, unique, infinite, error, nofun⟩
  obtain ⟨d', saved⟩ : ∃ d', Directory.saveReports ⟨[]⟩ "out.json" true reports = .ok d' := ⟨_, rfl⟩
  exact ⟨words, d', saved, (load_saved true words).2 _ d' _ saved⟩

end Report

end LinearCongruences
