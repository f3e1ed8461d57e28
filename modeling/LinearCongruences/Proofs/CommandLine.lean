import Mathlib
import LinearCongruences.CommandLine
import LinearCongruences.Proofs.Document.Outcomes

/-! Runs from the command line. A run whose arguments or inputs are bad leaves no trace. Any other
one prints its outcomes in the order of the inputs and, if asked to, saves reports that are read
back as they were. -/
namespace LinearCongruences

deriving instance DecidableEq for Outcome

namespace CommandLine

/-- The run ends with this code and output, and no file has changed. -/
structure Run.Ends (run : Run) (code : Nat) (stdout : String) (before : Directory) : Prop where
  exitCode : run.exitCode = code
  stdout : run.stdout = stdout
  directory : run.directory = before

/-- The files are what the inputs lead to, in their order. -/
def Loads (directory : Directory) : List String → List SystemFile → Prop :=
  List.Forall₂ fun path file => directory.loadSystems path = .ok file

/-- The outcomes are those of the systems, in their order. -/
def Solves (settings : Settings) : List CongruenceSystem → List Outcome → Prop :=
  List.Forall₂ fun system outcome => system.outcome settings = .ok outcome

/-- The reports are saved if a path for them is given and can be written to. -/
def Saves (before : Directory) (reports : List Report) : Option String → Run → Prop
  | none, run => run.exitCode = 0 ∧ run.directory = before
  | some path, run =>
    (before.Writable path → run.exitCode = 0 ∧ before.ChangedOnly path run.directory ∧
      run.directory.loadReports path = .ok reports) ∧
    (¬ before.Writable path → run.exitCode = 1 ∧ run.directory = before)

/-- What a run comes to, by what its arguments ask for. -/
def Answers (settings : Settings) (before : Directory) :
    Except ArgumentError Request → Run → Prop
  | .error _, run => run.Ends 2 "" before
  | .ok .help, run => run.Ends 0 (usage ++ "\n") before
  | .ok (.solve inputs out), run =>
    ((∃ path ∈ inputs, ∀ file, before.loadSystems path ≠ .ok file) → run.Ends 1 "" before) ∧
    ∀ files, Loads before inputs files →
      ∃ outcomes, Solves settings (files.flatMap SystemFile.systems) outcomes ∧
        run.stdout =
          String.join ((files.flatMap SystemFile.systems).zipWith renderOutcome outcomes) ∧
        Saves before (outcomes.map Report.ofOutcome) out run

/-- There is room for each table of inverses that the systems of a request call for. -/
def HaveRoom (settings : Settings) (directory : Directory) : Except ArgumentError Request → Prop
  | .ok (.solve inputs _) => ∀ files, Loads directory inputs files →
    ∀ s ∈ files.flatMap SystemFile.systems,
      InverseLookup.HasRoom s.modulus settings.inverseTableLimit
  | _ => True

variable {settings : Settings} {directory : Directory}

theorem HaveRoom.of_limit (small : settings.inverseTableLimit < InverseTable.capacity)
    (request : Except ArgumentError Request) : HaveRoom settings directory request :=
  match request with
  | .ok (.solve _ _) => fun _ _ _ _ => .of_limit small
  | .ok .help | .error _ => trivial

/-- Either all inputs are loaded, or one of them cannot be and nothing is. -/
theorem loadAll_spec (directory : Directory) (inputs : List String) :
    (∃ files, Loads directory inputs files ∧
      loadAll directory inputs = .ok (files.flatMap SystemFile.systems)) ∨
    (∃ e, loadAll directory inputs = .error e) ∧
      ∃ path ∈ inputs, ∀ file, directory.loadSystems path ≠ .ok file := by
  induction inputs with
  | nil => exact Or.inl ⟨[], .nil, rfl⟩
  | cons path rest ih =>
    rw [loadAll]
    cases loaded : directory.loadSystems path with
    | error e => exact Or.inr ⟨⟨e, rfl⟩, path, List.mem_cons_self, fun file => by simp [loaded]⟩
    | ok file =>
      rcases ih with ⟨files, loads, run⟩ | ⟨⟨e, run⟩, bad, inside, none⟩
      · refine Or.inl ⟨file :: files, .cons loaded loads, ?_⟩
        rw [run]
        rfl
      · refine Or.inr ⟨⟨e, ?_⟩, bad, List.mem_cons_of_mem _ inside, none⟩
        rw [run]
        rfl

theorem outcomes_spec {systems : List CongruenceSystem} (countable : ∀ s ∈ systems, s.Countable)
    (room : ∀ s ∈ systems, InverseLookup.HasRoom s.modulus settings.inverseTableLimit) :
    ∃ outcomes, CongruenceSystem.outcomes settings systems = .ok outcomes ∧
      Solves settings systems outcomes := by
  induction systems with
  | nil => exact ⟨[], rfl, .nil⟩
  | cons s rest ih =>
    obtain ⟨first, others⟩ := List.forall_mem_cons.mp countable
    obtain ⟨here, there⟩ := List.forall_mem_cons.mp room
    obtain ⟨outcome, run⟩ := CongruenceSystem.outcome_returns first.modulus here s.name s.rows
    obtain ⟨outcomes, runs, solves⟩ := ih others there
    refine ⟨outcome :: outcomes, ?_, .cons run solves⟩
    rw [CongruenceSystem.outcomes, run, Checked.ok_bind, runs]
    rfl

theorem Loads.countable (storable : directory.Storable) {inputs : List String}
    {files : List SystemFile} (loads : Loads directory inputs files) :
    ∀ s ∈ files.flatMap SystemFile.systems, s.Countable := by
  intro s inside
  obtain ⟨file, present, member⟩ := List.mem_flatMap.mp inside
  obtain ⟨path, _, loaded⟩ := exists_of_forall₂ loads present
  exact storable.countable loaded s member

theorem Solves.inWords {systems : List CongruenceSystem} {outcomes : List Outcome}
    (countable : ∀ s ∈ systems, s.Countable) (solves : Solves settings systems outcomes) :
    ∀ r ∈ outcomes.map Report.ofOutcome, r.InWords := by
  intro r inside
  obtain ⟨outcome, present, rfl⟩ := List.mem_map.mp inside
  obtain ⟨s, member, run⟩ := exists_of_forall₂ solves present
  exact (countable s member).report_inWords run

/-- Reports are saved where anything can be written, and are loaded from there. -/
theorem saveReports_spec (directory : Directory) (path : String) (pretty : Bool)
    {reports : List Report} (words : ∀ r ∈ reports, r.InWords) :
    (directory.Writable path ∧ ∃ after, directory.saveReports path pretty reports = .ok after ∧
      directory.ChangedOnly path after ∧ after.loadReports path = .ok reports) ∨
    (¬ directory.Writable path ∧ ∃ e, directory.saveReports path pretty reports = .error e) := by
  by_cases writable : directory.Writable path
  · obtain ⟨after, written, changed⟩ :=
      writable.write (Report.renderAll (Directory.layoutOf pretty) reports)
    refine Or.inl ⟨writable, after, ?_, changed, ?_⟩
    · rw [Directory.saveReports, written]
      rfl
    · exact Directory.load_eq_ok.mpr ⟨_, Directory.readText_write written,
        Report.parseAll_renderAll (Directory.layoutOf pretty) words⟩
  · refine Or.inr ⟨writable, ?_⟩
    rw [Directory.saveReports]
    cases written : directory.write path
        (Report.renderAll (Directory.layoutOf pretty) reports) with
    | error e => exact ⟨_, rfl⟩
    | ok after => exact absurd ⟨_, after, written⟩ writable

theorem Loads.no_bad_input {inputs : List String} {files : List SystemFile}
    (loads : Loads directory inputs files) :
    ¬ ∃ path ∈ inputs, ∀ file, directory.loadSystems path ≠ .ok file := by
  rintro ⟨path, inside, none⟩
  have pairs : List.Forall₂ (fun file path => directory.loadSystems path = .ok file) files inputs :=
    List.Forall₂.flip loads
  obtain ⟨file, _, loaded⟩ := exists_of_forall₂ pairs inside
  exact none file loaded

/-- If all inputs are loaded, it is enough to tell what the outcomes come to. -/
theorem Loads.answers {inputs : List String} {files : List SystemFile}
    (loads : Loads directory inputs files) {out : Option String} {outcomes : List Outcome}
    (solves : Solves settings (files.flatMap SystemFile.systems) outcomes) {run : Run}
    (printed : run.stdout =
      String.join ((files.flatMap SystemFile.systems).zipWith renderOutcome outcomes))
    (saves : Saves directory (outcomes.map Report.ofOutcome) out run) :
    Answers settings directory (.ok (.solve inputs out)) run := by
  refine ⟨fun bad => absurd bad loads.no_bad_input, fun files' loads' => ?_⟩
  -- the inputs cannot lead to other files than these
  obtain rfl := unique_of_forall₂ loads loads'
  exact ⟨outcomes, solves, printed, saves⟩

theorem solveAll_spec (storable : directory.Storable) (fallback : Bool) {inputs : List String}
    {out : Option String} (room : HaveRoom settings directory (.ok (.solve inputs out))) :
    ∃ run, solveAll settings fallback directory inputs out = .ok run ∧
      Answers settings directory (.ok (.solve inputs out)) run := by
  rw [solveAll]
  rcases loadAll_spec directory inputs with ⟨files, loads, loaded⟩ | ⟨⟨e, refused⟩, bad⟩
  · have countable := loads.countable storable
    obtain ⟨outcomes, solved, solves⟩ := outcomes_spec countable (room files loads)
    simp only [loaded, solved, Checked.ok_bind]
    cases out with
    | none => exact ⟨_, rfl, loads.answers solves rfl ⟨rfl, rfl⟩⟩
    | some path =>
      rcases saveReports_spec directory path settings.report.pretty (solves.inWords countable) with
        ⟨writable, after, saved, kept⟩ | ⟨closed, e, refused⟩
      · simp only [saved]
        exact ⟨_, rfl, loads.answers solves rfl
          ⟨fun _ => ⟨rfl, kept⟩, fun closed => absurd writable closed⟩⟩
      · simp only [refused]
        exact ⟨_, rfl, loads.answers solves rfl
          ⟨fun writable => absurd writable closed, fun _ => ⟨rfl, rfl⟩⟩⟩
  · rw [refused]
    exact ⟨_, rfl, fun _ => ⟨rfl, rfl, rfl⟩, fun files loads => absurd bad loads.no_bad_input⟩

end CommandLine

end LinearCongruences
