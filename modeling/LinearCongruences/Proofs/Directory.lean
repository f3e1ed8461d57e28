import Mathlib
import LinearCongruences.Directory
import LinearCongruences.Proofs.Checked

/-! A file that has been written is read back. The way to it leads through folders only, and no
folder is changed by writing a file. -/
namespace LinearCongruences.Directory

variable {d : Directory} {p place : Place} {entry : FileEntry}

/-! Entries by their keys. -/

theorem find?_replace_self (key : String) (entry : FileEntry)
    (entries : List (String × FileEntry)) :
    (replace key entry entries).find? (fun e => e.1 == key) = some (key, entry) := by
  induction entries with
  | nil => simp [replace]
  | cons e rest ih =>
    rw [replace]
    split
    · simp
    · rename_i other
      rw [List.find?_cons_of_neg (by simpa using other), ih]

theorem find?_replace_other {key key' : String} (other : key' ≠ key) (entry : FileEntry)
    (entries : List (String × FileEntry)) :
    (replace key entry entries).find? (fun e => e.1 == key') =
      entries.find? (fun e => e.1 == key') := by
  induction entries with
  | nil => simp [replace, Ne.symm other]
  | cons e rest ih =>
    rw [replace]
    split
    · rename_i same
      simp [same, Ne.symm other]
    · simp only [List.find?_cons, ih]

theorem names_of_not_folder (file : d.entry? p ≠ some .folder) : p.names.isEmpty = false := by
  cases empty : p.names.isEmpty with
  | false => rfl
  | true => exact absurd (if_pos empty) file

/-- The directory after a file has been put in a place. -/
def put (d : Directory) (place : Place) (bytes : ByteArray) : Directory :=
  ⟨replace place.key (.file bytes) d.entries⟩

variable {bytes : ByteArray}

theorem entry?_put (file : d.entry? place ≠ some .folder) :
    entry? (d.put place bytes) place = some (.file bytes) := by
  unfold entry? put
  rw [names_of_not_folder file, find?_replace_self]
  rfl

theorem entry?_put_other (other : p.key ≠ place.key) :
    entry? (d.put place bytes) p = d.entry? p := by
  unfold entry? put
  rw [find?_replace_other other]

theorem folder_put (file : d.entry? place ≠ some .folder) (folder : d.entry? p = some .folder) :
    entry? (d.put place bytes) p = some .folder := by
  by_cases named : p.names.isEmpty
  · exact if_pos named
  · rw [entry?_put_other, folder]
    intro same
    refine file ?_
    unfold entry? at folder ⊢
    rw [if_neg named] at folder
    rw [names_of_not_folder file]
    exact same ▸ folder

/-! Following a path. -/

theorem enter_eq_ok {name : String} {next : Place} (step : d.enter p name = .ok next) :
    d.entry? p = some .folder ∧ name.utf8ByteSize ≤ nameBound ∧ next = p.enter name := by
  unfold enter at step
  split at step
  · cases step
  · cases step
  · rename_i folder
    split at step
    · rename_i short
      cases step
      exact ⟨folder, short, rfl⟩
    · cases step

theorem enter_put (file : d.entry? place ≠ some .folder) {name : String} {next : Place}
    (step : d.enter p name = .ok next) : (d.put place bytes).enter p name = .ok next := by
  obtain ⟨folder, short, rfl⟩ := enter_eq_ok step
  rw [enter, folder_put file folder]
  exact if_pos short

theorem way_put (file : d.entry? place ≠ some .folder) {way : List String} {last : Place}
    (walk : way.foldlM d.enter p = .ok last) :
    way.foldlM (d.put place bytes).enter p = .ok last := by
  induction way generalizing p with
  | nil => exact walk
  | cons name rest ih =>
    rw [List.foldlM_cons] at walk ⊢
    cases step : d.enter p name with
    | error e =>
      rw [step] at walk
      cases walk
    | ok next =>
      rw [step] at walk
      rw [enter_put file step]
      exact ih walk

/-- A path that can be that of a file ends with the name of the file. -/
theorem steps_of_target {path name : String} {way : List String}
    (found : target path = (way, some name)) : steps path = way ++ [name] := by
  unfold target at found
  rcases List.eq_nil_or_concat (steps path) with empty | ⟨before, last, split⟩
  · simp [empty] at found
  · by_cases blank : last = ""
    · subst blank
      dsimp only at found
      split at found <;> simp [split] at found
    · simp [split, blank] at found
      obtain ⟨rfl, _, rfl⟩ := found
      simpa using split

/-! Texts and their bytes. -/

theorem fromUTF8?_toUTF8 (text : String) : String.fromUTF8? text.toUTF8 = some text :=
  dif_pos text.isValidUTF8

theorem length_le_utf8Len (cs : List Char) : cs.length ≤ String.utf8Len cs := by
  induction cs with
  | nil => exact Nat.le_refl _
  | cons c cs ih =>
    have := c.utf8Size_pos
    rw [List.length_cons, String.utf8Len_cons]
    omega

/-- A text takes a byte for each of its characters at least. -/
theorem length_le_size {bytes : ByteArray} {text : String}
    (read : String.fromUTF8? bytes = some text) : text.toList.length ≤ bytes.size := by
  unfold String.fromUTF8? at read
  split at read
  · cases read
    exact Nat.le_trans (length_le_utf8Len _) (Nat.le_of_eq (String.utf8Len_toList _))
  · cases read

/-- Each file has a number of bytes that a word can count. -/
def Storable (d : Directory) : Prop :=
  ∀ e ∈ d.entries, ∀ bytes, e.2 = .file bytes → bytes.size < wordBound

theorem file_of_entry? (found : d.entry? p = some (.file bytes)) :
    ∃ e ∈ d.entries, e.2 = .file bytes := by
  unfold entry? at found
  split at found
  · cases found
  · obtain ⟨e, inside, same⟩ := Option.map_eq_some_iff.mp found
    exact ⟨e, List.mem_of_find?_eq_some inside, same⟩

theorem file_of_readBytes {path : String} (read : d.readBytes path = .ok bytes) :
    ∃ e ∈ d.entries, e.2 = .file bytes := by
  obtain ⟨entry, found, content⟩ := Checked.bind_eq_ok.mp read
  cases entry with
  | folder => cases content
  | file bytes' =>
    cases content
    unfold find at found
    split at found
    · cases found
    · split at found
      · cases found
      · obtain ⟨place, _, there⟩ := Checked.bind_eq_ok.mp found
        split at there
        · cases there
        · rename_i entry present
          cases there
          exact file_of_entry? present

theorem Storable.length_lt (storable : d.Storable) {path text : String}
    (read : d.readText path = .ok text) : text.toList.length < wordBound := by
  obtain ⟨bytes, content, decoding⟩ := Checked.bind_eq_ok.mp read
  split at decoding
  · rename_i text' decoded
    cases decoding
    obtain ⟨e, inside, file⟩ := file_of_readBytes content
    exact Nat.lt_of_le_of_lt (length_le_size decoded) (storable e inside bytes file)
  · cases decoding

/-! Writing a file. -/

/-- A file can only be made in a place that the path of the file leads to, and there it can be made
with any text. -/
theorem write_eq_ok {d' : Directory} {path text : String} (saved : d.write path text = .ok d') :
    path.isEmpty = false ∧ path.utf8ByteSize ≤ pathBound ∧ ∃ place,
      (steps path).foldlM d.enter (Place.start path) = .ok place ∧
      d.entry? place ≠ some .folder ∧
      ∀ text', d.write path text' = .ok (d.put place text'.toUTF8) := by
  unfold write at saved
  split at saved
  · cases saved
  · rename_i nonempty
    split at saved
    · cases saved
    · rename_i short
      cases found : target path with
      | mk way name =>
        rw [found] at saved
        obtain ⟨folder, walk, saved⟩ := Checked.bind_eq_ok.mp saved
        obtain ⟨place, step, saved⟩ := Checked.bind_eq_ok.mp saved
        cases name with
        | none => cases saved
        | some name =>
          rw [if_neg (by simp)] at saved
          split at saved
          · cases saved
          · rename_i file
            refine ⟨by simpa using nonempty, Nat.le_of_not_lt short, place, ?_, file,
              fun text' => ?_⟩
            · rw [steps_of_target found, List.foldlM_append, walk]
              exact (congrArg (· >>= pure) step).trans (bind_pure _)
            · rw [write, if_neg nonempty, if_neg short, found]
              refine Checked.bind_eq_ok.mpr ⟨folder, walk, Checked.bind_eq_ok.mpr ⟨place, step, ?_⟩⟩
              rw [if_neg (by simp)]
              split
              · rename_i isFolder
                exact absurd isFolder file
              · rfl

/-- Some text can be written to the path. -/
def Writable (d : Directory) (path : String) : Prop := ∃ text d', d.write path text = .ok d'

/-- The path leads to a place, and only there anything has changed. -/
def ChangedOnly (before : Directory) (path : String) (after : Directory) : Prop :=
  ∃ place, (steps path).foldlM before.enter (Place.start path) = .ok place ∧
    ∀ p : Place, p.key ≠ place.key → after.entry? p = before.entry? p

/-- Whether a path can be written to does not depend on the text. -/
theorem Writable.write {path : String} (writable : d.Writable path) (text : String) :
    ∃ d', d.write path text = .ok d' ∧ d.ChangedOnly path d' := by
  obtain ⟨_, _, saved⟩ := writable
  obtain ⟨_, _, place, walk, _, written⟩ := write_eq_ok saved
  exact ⟨_, written text, place, walk, fun p other => entry?_put_other other⟩

theorem readText_write {d' : Directory} {path text : String} (saved : d.write path text = .ok d') :
    d'.readText path = .ok text := by
  obtain ⟨nonempty, short, place, walk, file, written⟩ := write_eq_ok saved
  obtain rfl := Except.ok.inj ((written text).symm.trans saved)
  have found : (d.put place text.toUTF8).find path = .ok (.file text.toUTF8) := by
    rw [find, if_neg (by simp [nonempty]), if_neg (Nat.not_lt_of_le short), way_put file walk]
    simp only [bind, Except.bind, entry?_put file]
    rfl
  rw [readText, readBytes, found]
  simp only [bind, Except.bind, pure, Except.pure, fromUTF8?_toUTF8]

end LinearCongruences.Directory
