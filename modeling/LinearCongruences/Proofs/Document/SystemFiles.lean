import LinearCongruences.Document.Loading
import LinearCongruences.Proofs.Json.Shapes

/-! A system file that has been written is read back as it was. A list is never taken for a single
system, although a system may be given as an array of its three parts: no system writes its name as
an object. Nor can any other document be read both ways, since what is read as a name is not read as
a system. -/
namespace LinearCongruences

open Json

/-- The modulus is a word, and the entries are signed words. -/
structure CongruenceSystem.InWords (s : CongruenceSystem) : Prop where
  modulus : s.modulus < wordBound
  rows : ∀ row ∈ s.rows, ∀ z ∈ row, Value.SignedWord z

namespace CongruenceSystem

variable {s : CongruenceSystem}

theorem toValue_fits (words : s.InWords) (room : Nat) : s.toValue.Fits (room + 3) := by
  have rows : (Value.array (s.rows.map fun row => .array (row.map .integer))).Fits (room + 2) :=
    Value.fits_list fun row inside => Value.fits_list fun z member =>
      Value.fits_integer (words.rows row inside z member)
  refine .object (List.forall_mem_append.mpr ⟨fun m member => ?_, ?_⟩)
  · obtain ⟨n, _, rfl⟩ := List.mem_map.mp member
    exact Value.fits_text n
  · simp only [List.forall_mem_cons]
    exact ⟨Value.fits_natural words.modulus, rows, nofun⟩

/-- A name that is missing is read as no name. -/
theorem ofValue?_object {m r : Value} {modulus : Nat} {rows : List (List Int)}
    (name : Option String) (hm : m.natural? = some modulus)
    (hr : r.list? (Value.list? Value.integer?) = some rows) :
    ofValue? (.object ((name.toList.map fun n => ("name", .text n)) ++
      [("modulus", m), ("rows", r)])) = some ⟨name, modulus, rows⟩ := by
  cases name with
  | none => simp [ofValue?, Value.optional?, Value.required?, Value.member?, hm, hr]
  | some n =>
    simp [ofValue?, Value.optional?, Value.required?, Value.member?, Value.nullable?, Value.text?,
      hm, hr]

theorem ofValue?_toValue (words : s.InWords) : ofValue? s.toValue = some s :=
  ofValue?_object s.name (Value.natural?_natural words.modulus) <|
    Value.list?_map fun row inside => Value.list?_map fun z member =>
      Value.integer?_integer (words.rows row inside z member)

theorem ofValue?_list (ss : List CongruenceSystem) :
    ofValue? (.array (ss.map toValue)) = none := by
  match ss with
  | [] | [_] | [_, _] | [_, _, _] | _ :: _ :: _ :: _ :: _ => rfl

end CongruenceSystem

namespace SystemFile

variable {file : SystemFile}

theorem toValue_fits (words : ∀ s ∈ file.systems, s.InWords) (room : Nat) :
    file.toValue.Fits (room + 4) := by
  cases file with
  | one s => exact CongruenceSystem.toValue_fits (words s List.mem_cons_self) (room + 1)
  | many ss =>
    exact Value.fits_list fun s inside => CongruenceSystem.toValue_fits (words s inside) room

theorem ofValue?_toValue (words : ∀ s ∈ file.systems, s.InWords) :
    ofValue? file.toValue = some file := by
  cases file with
  | one s =>
    have read := CongruenceSystem.ofValue?_toValue (words s List.mem_cons_self)
    simp [ofValue?, one?, toValue, read]
  | many ss =>
    have read : Value.list? CongruenceSystem.ofValue? (.array (ss.map CongruenceSystem.toValue)) =
        some ss :=
      Value.list?_map fun s inside => CongruenceSystem.ofValue?_toValue (words s inside)
    simp [ofValue?, one?, many?, toValue, CongruenceSystem.ofValue?_list, read]

/-- A file that holds the text of some systems is loaded as these systems, in the same shape. -/
theorem load_rendered (words : ∀ s ∈ file.systems, s.InWords) :
    parse file.render = .ok file ∧ ∀ (d : Directory) (path : String),
      d.readText path = .ok file.render → d.loadSystems path = .ok file := by
  have parsed : parse file.render = .ok file := by
    rw [parse, render, Document.ofText_render _ (toValue_fits words 123), Document.read, ofDraft,
      Value.value_draft]
    simp only [bind, Except.bind, ofValue?_toValue words]
    rfl
  refine ⟨parsed, fun d path text => ?_⟩
  rw [Directory.loadSystems, Directory.load, text]
  simp only [parsed]
  rfl

/-- Three systems, which are as many as a system has parts. One is empty, one has the extreme
entries in rows of different lengths. -/
theorem load_rendered_three :
    let file : SystemFile := .many [⟨none, 0, []⟩, ⟨some "", wordBound - 1,
      [[-(signedWordBound : Int), signedWordBound - 1], [], [0]]⟩, ⟨some "\n\"é", 7, [[-1]]⟩]
    (∀ s ∈ file.systems, s.InWords) ∧ parse file.render = .ok file := by
  intro file
  have words : ∀ s ∈ file.systems, s.InWords := by
    simp only [file, systems, List.forall_mem_cons]
    exact ⟨⟨by decide, by decide⟩, ⟨by decide, by decide⟩, ⟨by decide, by decide⟩, nofun⟩
  exact ⟨words, (load_rendered words).1⟩

end SystemFile

/-! A document that nobody has written as a system file, and that may be anything. -/

namespace CongruenceSystem

theorem ofValue?_of_name {v : Value} {name : Option String}
    (read : Value.nullable? Value.text? v = some name) : ofValue? v = none := by
  cases v with
  | scalar x => rfl
  | array items => simp [Value.nullable?, Value.text?] at read
  | object members => simp [Value.nullable?, Value.text?] at read

/-- An array that is read as a system begins with a name. -/
theorem head_of_array {items : List Value} {s : CongruenceSystem}
    (read : ofValue? (.array items) = some s) :
    ∃ first rest name, items = first :: rest ∧ Value.nullable? Value.text? first = some name := by
  unfold ofValue? at read
  split at read
  · rename_i object
    cases object
  · rename_i first modulus rows array
    cases array
    obtain ⟨name, found, _⟩ := Option.bind_eq_some_iff.mp read
    exact ⟨first, [modulus, rows], name, rfl, found⟩
  · cases read

/-- No document is both a system and a list of systems, in whatever form the systems are. -/
theorem ofValue?_or_list? (v : Value) :
    ofValue? v = none ∨ v.list? ofValue? = none := by
  cases v with
  | scalar x => exact Or.inl rfl
  | object members => exact Or.inr rfl
  | array items =>
    cases read : ofValue? (.array items) with
    | none => exact Or.inl rfl
    | some s =>
      obtain ⟨first, rest, name, rfl, named⟩ := head_of_array read
      simp [Value.list?, List.mapM_cons, ofValue?_of_name named]

end CongruenceSystem

namespace SystemFile

/-- The reading that looks for a list before it looks for a single system. -/
def manyFirst? (v : Value) : Option SystemFile :=
  (many? v).orElse fun _ => one? v

def parseManyFirst (text : String) : Except Problem SystemFile :=
  (Document.ofText text).read fun d => do
    match manyFirst? (← d.value) with
    | some file => return file
    | none => .error .wrongShape

/-- At most one of the two readings succeeds, so it makes no difference which is tried first. -/
theorem readings_exclusive :
    (∀ v : Value, CongruenceSystem.ofValue? v = none ∨
      v.list? CongruenceSystem.ofValue? = none) ∧
    (∀ v, manyFirst? v = ofValue? v) ∧
    ∀ (d : Directory) (path : String), d.load path parseManyFirst = d.loadSystems path := by
  have order : ∀ v, manyFirst? v = ofValue? v := by
    intro v
    rcases CongruenceSystem.ofValue?_or_list? v with single | several
    · simp [manyFirst?, ofValue?, one?, single]
    · simp [manyFirst?, ofValue?, many?, several]
  refine ⟨CongruenceSystem.ofValue?_or_list?, order, fun d path => ?_⟩
  have parsers : parseManyFirst = parse := by
    funext text
    simp only [parseManyFirst, order]
    rfl
  rw [parsers, Directory.loadSystems]

/-- Three parts are a system, and three systems are a list. -/
example : ofValue? (.array [.null, .integer 7, .array []]) = some (.one ⟨none, 7, []⟩) ∧
    ofValue? (.array (List.replicate 3 (.array [.null, .integer 7, .array []]))) =
      some (.many (List.replicate 3 ⟨none, 7, []⟩)) := by decide

end SystemFile

end LinearCongruences
