import Mathlib
import LinearCongruences.Proofs.Document.Outcomes
import LinearCongruences.Proofs.Messages

/-! Outcomes recovered from their reports. A report keeps the rows of the reduced table, the columns and
relations of a family and the message of a refusal. What it leaves out are the sizes of table and
family, and these are the sizes of the system. So no two outcomes have the same report. -/
namespace LinearCongruences

variable {m n : Nat} {settings : Settings} {o o' : Outcome}

/-- A family and a reduced table have the modulus and the unknowns that the outcome tells. -/
structure Outcome.Coherent (o : Outcome) : Prop where
  family : ∀ f, o.result = .ok (.infinite f) → f.modulus = o.modulus ∧ f.unknowns = o.unknowns
  reduced : ∀ t, o.reduced = some t → t.IsTable o.modulus o.unknowns

theorem CongruenceSystem.Countable.coherent {s : CongruenceSystem} (small : s.Countable)
    (run : s.outcome settings = .ok o) : o.Coherent := by
  obtain ⟨refusal, rfl⟩ | ⟨final, answer, table, reads, rfl⟩ := small.outcome_cases run
  · exact ⟨nofun, nofun⟩
  · refine ⟨fun f infinite => ?_, fun t shown => ?_⟩
    · obtain ⟨_, _, rfl⟩ := reads (.infinite f) infinite
      exact ⟨table.modulus, table.unknowns⟩
    · obtain ⟨_, rfl⟩ : settings.report.includeMatrix = true ∧ final = t := by simpa using shown
      exact table

/-- Without its rows a table is known by its sizes. -/
theorem Tableau.IsTable.eq_of_rows {t t' : Tableau} (h : t.IsTable m n) (h' : t'.IsTable m n)
    (same : t.rows = t'.rows) : t = t' := by
  have made := h.wellFormed.ofResidues_rows
  have made' := h'.wellFormed.ofResidues_rows
  rw [h.modulus, same] at made
  rw [h'.modulus] at made'
  exact Except.ok.inj (made.symm.trans made')

/-- A refusal is known by its message. Of a family the finding lacks nothing but the sizes. -/
theorem Finding.eq_of_ofResult {result result' : Except Refusal Verdict}
    (sizes : ∀ f f', result = .ok (.infinite f) → result' = .ok (.infinite f') →
      f.modulus = f'.modulus ∧ f.unknowns = f'.unknowns)
    (same : ofResult result = ofResult result') : result = result' := by
  cases result with
  | error refusal =>
    cases result' with
    | error refusal' =>
      have texts : refusal.message = refusal'.message := Finding.error.inj same
      rw [Refusal.message_injective texts]
    | ok verdict' => cases verdict' <;> cases same
  | ok verdict =>
    cases result' with
    | error refusal' => cases verdict <;> cases same
    | ok verdict' =>
      cases verdict with
      | inconsistent row constant => cases verdict' <;> cases same; rfl
      | unique values => cases verdict' <;> cases same; rfl
      | infinite f =>
        cases verdict' with
        | inconsistent row constant => cases same
        | unique values => cases same
        | infinite f' =>
          obtain ⟨modulus, unknowns, free, relations⟩ := f
          obtain ⟨modulus', unknowns', free', relations'⟩ := f'
          obtain ⟨rfl, rfl⟩ : modulus = modulus' ∧ unknowns = unknowns' := sizes _ _ rfl rfl
          cases same
          rfl

theorem Outcome.Coherent.eq_of_report (h : o.Coherent) (h' : o'.Coherent)
    (same : Report.ofOutcome o = Report.ofOutcome o') : o = o' := by
  obtain ⟨name, modulus, unknowns, result, reduced⟩ := o
  obtain ⟨name', modulus', unknowns', result', reduced'⟩ := o'
  simp only [Report.ofOutcome, Report.mk.injEq] at same
  obtain ⟨rfl, rfl, rfl, findings, rows⟩ := same
  have results : result = result' := by
    refine Finding.eq_of_ofResult (fun f f' infinite infinite' => ?_) findings
    obtain ⟨modulus, unknowns⟩ := h.family f infinite
    obtain ⟨modulus', unknowns'⟩ := h'.family f' infinite'
    exact ⟨modulus.trans modulus'.symm, unknowns.trans unknowns'.symm⟩
  have tables : reduced = reduced' := by
    cases reduced with
    | none =>
      cases reduced' with
      | none => rfl
      | some t' => cases rows
    | some t =>
      cases reduced' with
      | none => cases rows
      | some t' =>
        rw [(h.reduced t rfl).eq_of_rows (h'.reduced t' rfl) (by simpa using rows)]
  rw [results, tables]

/-- Reports that are written alike are equal, in either layout. -/
theorem Report.renderAll_eq_iff (layout : Json.Layout) {reports reports' : List Report}
    (words : ∀ r ∈ reports, r.InWords) (words' : ∀ r ∈ reports', r.InWords) :
    renderAll layout reports = renderAll layout reports' ↔ reports = reports' := by
  constructor
  · intro same
    have parsed := parseAll_renderAll layout words
    rw [same, parseAll_renderAll layout words'] at parsed
    exact (Except.ok.inj parsed).symm
  · rintro rfl
    rfl

/-- Two systems whose outcomes are reported alike have the same outcome, whatever their settings.
Their reports are alike if they have the same text. -/
theorem report_determines_outcome {s s' : CongruenceSystem} (small : s.Countable)
    (small' : s'.Countable) (settings settings' : Settings) :
    (InverseLookup.HasRoom s.modulus settings.inverseTableLimit →
      ∃ o, s.outcome settings = .ok o) ∧
    (InverseLookup.HasRoom s'.modulus settings'.inverseTableLimit →
      ∃ o', s'.outcome settings' = .ok o') ∧
    ∀ o o', s.outcome settings = .ok o → s'.outcome settings' = .ok o' →
      (Report.ofOutcome o = Report.ofOutcome o' → o = o') ∧
      ∀ pretty, Report.renderAll (Directory.layoutOf pretty) [Report.ofOutcome o] =
          Report.renderAll (Directory.layoutOf pretty) [Report.ofOutcome o'] ↔
        Report.ofOutcome o = Report.ofOutcome o' := by
  refine ⟨fun room => CongruenceSystem.outcome_returns small.modulus room s.name s.rows,
    fun room => CongruenceSystem.outcome_returns small'.modulus room s'.name s'.rows,
    fun o o' run run' => ⟨(small.coherent run).eq_of_report (small'.coherent run'),
      fun pretty => ?_⟩⟩
  have words : ∀ r ∈ [Report.ofOutcome o], r.InWords := by simpa using small.report_inWords run
  have words' : ∀ r ∈ [Report.ofOutcome o'], r.InWords := by simpa using small'.report_inWords run'
  rw [Report.renderAll_eq_iff _ words words', List.singleton_inj]

/-- Different systems with one report, one pair with a family and one that is refused. One of each
pair is solved without a table of inverses. -/
theorem report_determines_outcome_mod_seven_and_six :
    let settings : Settings := { Settings.default with report := ⟨true, true⟩ }
    let settings' : Settings := { settings with inverseTableLimit := 0 }
    let s : CongruenceSystem := ⟨some "a", 7, [[8, 1, 3], [2, 2, 6]]⟩
    let s' : CongruenceSystem := ⟨some "a", 7, [[1, 1, -4], [0, 7, 0]]⟩
    let r : CongruenceSystem := ⟨none, 6, [[2, 4]]⟩
    let r' : CongruenceSystem := ⟨none, 6, [[8, -2]]⟩
    (s.Countable ∧ s'.Countable ∧ ∃ o, s.outcome settings = .ok o ∧ s'.outcome settings' = .ok o ∧
      Report.ofOutcome o = ⟨some "a", 7, 2, .infinite [1] [⟨0, 1, [(1, 1)], 3⟩],
        some [[1, 1, 3], [0, 0, 0]]⟩) ∧
    r.Countable ∧ r'.Countable ∧ ∃ o, r.outcome settings = .ok o ∧ r'.outcome settings' = .ok o ∧
      Report.ofOutcome o = ⟨none, 6, 1, .error "pivot 2 in row 0 is not invertible modulo 6",
        some [[2, 4]]⟩ := by
  intro settings settings' s s' r r'
  have alike : ∀ (s s' : CongruenceSystem) (report : Report), s.Countable → s'.Countable →
      (s.outcome settings).map Report.ofOutcome = .ok report →
      (s'.outcome settings').map Report.ofOutcome = .ok report →
      ∃ o, s.outcome settings = .ok o ∧ s'.outcome settings' = .ok o ∧
        Report.ofOutcome o = report := by
    intro s s' report small small' reported reported'
    obtain ⟨returns, returns', determined⟩ :=
      report_determines_outcome small small' settings settings'
    obtain ⟨o, run⟩ := returns (.of_limit (by decide))
    obtain ⟨o', run'⟩ := returns' (.of_limit (by decide))
    rw [run] at reported
    rw [run'] at reported'
    obtain rfl := (determined o o' run run').1 (Except.ok.inj (reported.trans reported'.symm))
    exact ⟨o, run, run', Except.ok.inj reported⟩
  have small : s.Countable := ⟨by decide, by decide⟩
  have small' : s'.Countable := ⟨by decide, by decide⟩
  have refused : r.Countable := ⟨by decide, by decide⟩
  have refused' : r'.Countable := ⟨by decide, by decide⟩
  exact ⟨⟨small, small', alike s s' _ small small' (by decide +kernel) (by decide +kernel)⟩,
    refused, refused', alike r r' _ refused refused' (by decide +kernel) (by decide +kernel)⟩

end LinearCongruences
