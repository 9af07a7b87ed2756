import Ecrke.Guarantees.Fallback

/-!
# The flags of a report which is made from rows

The rows of a conclusion hold neither its one-sidedness nor the contradictions which touch it, so a
report made from rows shows every conclusion as balanced and uncontradicted.

* `touchesContradiction`, `MadeOf.warnings_iff` -- which conclusions the generator warns about.
* `FlagsAgree`, `flagsAgree_iff` -- when the two reports have the same flags.
* `warnings_agree_iff` -- the reports of a run whose conclude stage has completed.
-/

namespace Ecrke

open Durable

/-! ## The flags of the generated report -/

/-- A confirmed contradiction is about a verified statement which the draft cites. -/
def touchesContradiction (statements : List Statement) (contradictions : List Contradiction)
    (draft : ConclusionDraft) : Bool :=
  contradictions.any fun c => c.status = .confirmed &&
    (citedStatements statements draft).any fun s => s.id = c.statementAId || s.id = c.statementBId

/-- The two reports have the same conclusions, and these have the same flags. -/
structure FlagsAgree (report rebuilt : Report) : Prop where
  oneSided : ∀ c ∈ report.conclusions, ∀ c' ∈ rebuilt.conclusions, c'.id = c.id →
    c'.oneSided = c.oneSided
  warnings : ∀ c ∈ report.conclusions, ∀ c' ∈ rebuilt.conclusions, c'.id = c.id →
    c'.contradictionWarnings = c.contradictionWarnings

section Flags

variable {p : Platform} {runId : Uuid} {statements : List Statement}
  {contradictions : List Contradiction} {w : World} {synthesis : Synthesis}

/-- The generator warns about a conclusion just if a confirmed contradiction touches it. -/
theorem MadeOf.warnings_iff (hOf : synthesis.Of p runId statements contradictions w.tables)
    {draft : ConclusionDraft} {row : Cited} (h : MadeOf p synthesis draft row) :
    row.report.contradictionWarnings = [] ↔
      touchesContradiction statements contradictions draft = false := by
  obtain ⟨id, createdAt, auditId, ts, rfl⟩ := h
  have hCites (other : Uuid) : ((synthesis.cited draft).map fun s => s.id.str).contains other.str =
      (citedStatements statements draft).any fun s => s.id = other := by
    rw [hOf.cited, Bool.eq_iff_iff]
    simp only [List.contains_iff_mem, List.mem_map, List.any_eq_true, decide_eq_true_eq]
    constructor
    · rintro ⟨s, hs, hStr⟩
      exact ⟨s, hs, Uuid.str_injective hStr⟩
    · rintro ⟨s, hs, rfl⟩
      exact ⟨s, hs, rfl⟩
  have hTouches (c : Contradiction) :
      (((synthesis.cited draft).map fun s => s.id.str).contains c.statementAId.str ||
        ((synthesis.cited draft).map fun s => s.id.str).contains c.statementBId.str) =
      (citedStatements statements draft).any fun s =>
        s.id = c.statementAId || s.id = c.statementBId := by
    rw [hCites, hCites, Bool.eq_iff_iff]
    simp only [Bool.or_eq_true, List.any_eq_true, decide_eq_true_eq, and_or_left, exists_or]
  simp only [Cited.of, List.map_eq_nil_iff, List.filter_eq_nil_iff, hOf.contradictions,
    contradictionTuples, touchesContradiction, List.mem_map, List.any_eq_false, List.mem_filter,
    decide_eq_true_eq, Bool.and_eq_true, forall_exists_index, and_imp]
  constructor
  · rintro hNone c hc ⟨hConfirmed, hCited⟩
    refine hNone _ c hc hConfirmed rfl ?_
    dsimp only
    rwa [hTouches]
  · rintro hNone _ c hc hConfirmed rfl hCited
    refine hNone c hc ⟨hConfirmed, ?_⟩
    rwa [← hTouches]

end Flags

/-! ## The flags of the rebuilt report -/

section Rebuilt

variable {p : Platform} {runId : Uuid} {run : Run} {w t : World} {log : Log Vocabulary}
  {report rebuilt : Report}

/-- The conclusions of a run, by the text of their identifiers. -/
def conclusionIds (runId : Uuid) (t : Tables) : List Text :=
  (t.conclusions.filter fun c => c.runId = runId).map fun c => c.id.str

/-- A report which is made from rows has the conclusions of the run, and the default flags. -/
theorem rebuilt_flags (h : Exec (reportFromRows p run) w log (.done rebuilt) t) :
    (rebuilt.conclusions.map ReportConclusion.id).Perm (conclusionIds run.id w.tables) ∧
      ∀ c ∈ rebuilt.conclusions, c.oneSided = false ∧ c.contradictionWarnings = [] := by
  obtain ⟨rfl, found, hOf, hEntries⟩ := reportFromRows_done h
  constructor
  · have hIds : rebuilt.conclusions.map ReportConclusion.id =
        found.conclusions.map fun c => c.id.str :=
      mapM_ok hEntries fun row c hMade => (conclusionFromRows_ok hMade).1
    rw [hIds]
    exact hOf.conclusions.map _
  · intro c hc
    obtain ⟨row, -, hMade⟩ := (mem_mapM_ok hEntries c).mp hc
    obtain ⟨-, hOneSided, hWarnings, -⟩ := conclusionFromRows_ok hMade
    exact ⟨hOneSided, hWarnings⟩

/-- The reports have the same flags exactly if the generated one has none. -/
theorem flagsAgree_iff (hIds : report.conclusions.map ReportConclusion.id =
      conclusionIds run.id w.tables)
    (h : Exec (reportFromRows p run) w log (.done rebuilt) t) :
    FlagsAgree report rebuilt ↔
      ∀ c ∈ report.conclusions, c.oneSided = false ∧ c.contradictionWarnings = [] := by
  obtain ⟨hRebuilt, hFlags⟩ := rebuilt_flags h
  constructor
  · intro hAgree c hc
    have hMem : c.id ∈ rebuilt.conclusions.map ReportConclusion.id := by
      rw [hRebuilt.mem_iff, ← hIds]
      exact List.mem_map_of_mem hc
    obtain ⟨c', hc', hId⟩ := List.mem_map.mp hMem
    obtain ⟨hOneSided, hWarnings⟩ := hFlags c' hc'
    exact ⟨(hAgree.oneSided c hc c' hc' hId).symm.trans hOneSided,
      (hAgree.warnings c hc c' hc' hId).symm.trans hWarnings⟩
  · intro hNone
    constructor
    · intro c hc c' hc' _
      rw [(hFlags c' hc').1, (hNone c hc).1]
    · intro c hc c' hc' _
      rw [(hFlags c' hc').2, (hNone c hc).2]

end Rebuilt

/-! ## The generator -/

/-- The generated report has no flag exactly if, for no draft which cites a verified statement, the
one-sidedness check fires or a confirmed contradiction is about a cited statement. -/
theorem unflagged_iff {gateway : LLMGateway} {runId : Uuid} {topic : Text}
    {statements : List Statement} {contradictions : List Contradiction} {s t : World}
    {log : Log Vocabulary} {report : Report}
    (hHooks : ∀ hook ∈ gateway.hooks, ∀ ctx, Keeps RowsKept (hook ctx))
    (h : Exec (generate gateway runId topic statements contradictions) s log (.done report) t) :
    ∃ content, ∃ extraction : ConclusionExtraction,
      Answered gateway (synthesisCall gateway runId statements
        (contradictionTuples gateway.platform contradictions)) log content
        (.model .conclusionExtraction extraction) ∧
      ((∀ c ∈ report.conclusions, c.oneSided = false ∧ c.contradictionWarnings = []) ↔
        ∀ draft ∈ extraction.conclusions.val, citesVerified statements draft = true →
          firesOneSided gateway.platform statements s.tables draft = false ∧
            touchesContradiction statements contradictions draft = false) := by
  rw [generate_eq] at h
  obtain ⟨rows, now, later, u, rfl, hRows, hPersist⟩ := Exec.of_bind_done h
  obtain ⟨-, hReport⟩ := persistRows_done hPersist
  obtain ⟨content, extraction, synthesis, hAnswered, hOf, hMade, -⟩ := generateRows_done hHooks hRows
  simp only [cited_isEmpty hOf.verified] at hMade
  refine ⟨content, extraction, hAnswered.mono fun m hm => List.mem_append_left _ hm, ?_⟩
  have hEach := forall_rows_iff hMade
    (P := fun draft => firesOneSided gateway.platform statements s.tables draft = false ∧
      touchesContradiction statements contradictions draft = false)
    (Q := fun row => row.report.oneSided = false ∧ row.report.contradictionWarnings = [])
    fun draft _ row _ hDraft => by
      rw [(hDraft.flags hOf).1, hDraft.warnings_iff hOf]
  rw [hReport, List.forall_mem_map, hEach]
  simp only [List.mem_filter, and_imp]

/-! ## From the checkpoint on -/

/-- A report has been generated, and its conclusions are those of the run. -/
def ReportOf (p : Platform) (runId : Uuid) (w : World) (log : Log Vocabulary) (report : Report) :
    Prop :=
  Generated p runId log report ∧
    report.conclusions.map ReportConclusion.id = conclusionIds runId w.tables

/-- The checkpoint shows the conclusions of a report. -/
def ShowsReport (p : Platform) (runId : Uuid) (t : Tables) (report : Report) : Prop :=
  ∃ row state, findCheckpoint runId Stage.conclude.name t.checkpoints = some row ∧
    row.state = some state ∧
    listedConclusions state = report.conclusions.map fun c => redactJson p.unicode c.dump

section Steps

variable {p : Platform} {runId : Uuid} {w v : World} {log : Log Vocabulary} {report : Report}

theorem ReportOf.snoc (h : ReportOf p runId w log report) (m : Moment Vocabulary)
    (hConclusions : v.tables.conclusions = w.tables.conclusions) :
    ReportOf p runId v (log ++ [m]) report := by
  refine ⟨h.1.snoc m, ?_⟩
  rw [h.2, conclusionIds, conclusionIds, hConclusions]

theorem ShowsReport.grows (h : ShowsReport p runId w.tables report)
    (hFound : ∀ row, findCheckpoint runId Stage.conclude.name w.tables.checkpoints = some row →
      findCheckpoint runId Stage.conclude.name v.tables.checkpoints = some row) :
    ShowsReport p runId v.tables report := by
  obtain ⟨row, state, hRow, hState, hListed⟩ := h
  exact ⟨row, state, hFound row hRow, hState, hListed⟩

end Steps

/-- The conclude stage, started without a conclusion of the run. -/
theorem runConclude_generated {runId : Uuid} {services : PipelineServices} {t : World}
    {l : Log Vocabulary} {given : Moment Vocabulary → Prop}
    (hNone : ∀ c ∈ t.tables.conclusions, c.runId ≠ runId) :
    wp (.alongside given fun _ _ => True)
      (fun r w l' => ∀ result, r = .ok result → ∃ report m n,
        result.detail = some (concludeDetail services.platform report (reportRef runId) m n) ∧
          ReportOf services.platform runId w l' report)
      (runConclude ⟨runId, services⟩) t l := by
  have hQuiet {α : Type} {program : Action α} (h : Keeps Quiet program) (s : World)
      (l : Log Vocabulary) : wp (.alongside given fun _ _ => True)
        (fun r u _ => ∀ value, r = .ok value → u.db = s.db) program s l := by
    refine wp_of_alone (Alone.quietDb anyQuiet h) (fun _ _ _ _ => trivial) ?_
    rintro r u - hDb value rfl
    exact hDb
  refine wp_bind _ (hQuiet (quiet_getRun _) t l) (fun found u l hu => ?_) (by simp)
  cases found with
  | none => exact .raise (by simp)
  | some run =>
      refine wp_bind _ (hQuiet (quiet_selectRows _) u l) (fun rows v l hv => ?_) (by simp)
      refine wp_bind _ (hQuiet (quiet_selectRows _) v l) (fun conflicts w l hw => ?_) (by simp)
      have hSame : w.db = t.db := (hw _ rfl).trans ((hv _ rfl).trans (hu _ rfl))
      -- The execution of the generator is the piece of the log up to its return.
      refine wp_bind _ (wp_ran (wp_of_alone (generate_rows services.gateway rfl runId _ _ _)
        (fun _ _ _ _ => trivial) fun _ _ _ h => h)) (fun report x l' hx => ?_) (by simp)
      obtain ⟨⟨added, hReported, hAdded, hReport⟩, hRan⟩ := hx
      have hGenerated : Generated services.platform runId l' report :=
        ⟨services, _, _, _, w, x, l, l', [], rfl, hRan, by simp⟩
      refine wp_bind _ (wp_keeping (fun _ l => Generated services.platform runId l report)
        (fun _ m _ h _ => h.snoc m) (hQuiet (quiet_put _ _) x l') hGenerated)
        (fun _ y l'' hy => .done ?_) (by simp)
      rintro result hResult
      cases hResult
      refine ⟨report, _, _, rfl, hy.2, ?_⟩
      have hOld : t.tables.conclusions.filter (fun c => c.runId = runId) = [] := by
        rw [List.filter_eq_nil_iff]
        simpa using hNone
      have hNew : (added.map Cited.conclusion).filter (fun c => c.runId = runId) =
          added.map Cited.conclusion := by
        rw [List.filter_eq_self]
        intro c hc
        obtain ⟨row, hRow, rfl⟩ := List.mem_map.mp hc
        simpa using (hReported row hRow).run
      rw [conclusionIds, World.tables, hy.1 _ rfl, ← World.tables, hAdded, World.tables, hSame,
        ← World.tables, List.filter_append, hOld, hNew, List.nil_append, hReport, List.map_map,
        List.map_map]
      exact List.map_congr_left fun row hRow => (hReported row hRow).id

/-- The report of a run, from the checkpoint of the conclude stage on. -/
def generatedMilestone (runId : Uuid) (p : Platform) : Milestone runId p .conclude where
  Always _ _ := True
  Reached w l := ∃ report, ReportOf p runId w l report ∧ ShowsReport p runId w.tables report
  May w := ∀ c ∈ w.tables.conclusions, c.runId ≠ runId
  Left result w l := ∃ report m n,
    result.detail = some (concludeDetail p report (reportRef runId) m n) ∧
      ReportOf p runId w l report
  always_control _ _ _ _ := trivial
  reached_control := by
    rintro l m hControl ⟨report, hOf, hShows⟩
    obtain ⟨runs, rows, hTables⟩ := hControl.tables
    exact ⟨report, hOf.snoc m (by rw [hTables]), hShows.grows (by rw [hTables]; exact fun _ h => h)⟩
  always_saved _ _ _ _ _ _ _ := trivial
  reached_saved := by
    rintro w v l row - ⟨report, hOf, hShows⟩ - hTables
    refine ⟨report, hOf.snoc _ (by rw [hTables]), hShows.grows ?_⟩
    rw [hTables]
    exact fun _ h => findCheckpoint_old h
  task := by
    intro stage services t l _ _ _
    refine wp_of_given (fun l m hTask => ⟨fun _ => trivial, fun hLater _ hReached => ?_⟩) _ _ _
    obtain ⟨report, hOf, hShows⟩ := hReached
    obtain ⟨hConclusions, hCheckpoints⟩ := hTask.1.afterConclude hLater
    exact ⟨report, hOf.snoc m hConclusions, hShows.grows fun _ h => hCheckpoints ▸ h⟩
  turn := by
    rintro services t l rfl hMay -
    refine wp_weaken (runConclude_generated hMay) (fun _ h => h) (fun _ _ _ _ _ => trivial) ?_
    exact fun r w l' h result hResult _ => h result hResult
  left_still := by
    rintro result w l happening ⟨report, m, n, hDetail, hOf⟩
    exact ⟨report, m, n, hDetail, hOf.snoc _ rfl⟩
  left_saved := by
    rintro result id w v l hNone - ⟨report, m, n, hDetail, hOf⟩ - hTables
    refine ⟨report, hOf.snoc _ (by rw [hTables]), ?_⟩
    have hRow : findCheckpoint runId Stage.conclude.name v.tables.checkpoints =
        some ⟨id, runId, Stage.conclude.name, result.detail.map (redactJson p.unicode)⟩ := by
      rw [hTables]
      exact findCheckpoint_new hNone ⟨rfl, rfl⟩
    rw [hDetail] at hRow
    exact ⟨_, _, hRow, rfl, listedConclusions_detail p report _ m n⟩

/-- The report of a run whose conclude stage has completed, and has always started without a
conclusion of the run. -/
theorem generated_report {runId : Uuid} {p : Platform} {s t : World} {log : Log Vocabulary}
    (hFresh : FreshRun runId s.tables)
    (h : HistoryWhere (flowJob runId) (fun services _ => services.platform = p) s log t)
    (hStarted : ∀ m ∈ log, m.happening = .wrote (.stageStarted runId Stage.conclude.name) →
      ∀ c ∈ m.before.tables.conclusions, c.runId ≠ runId)
    (hDone : Stage.conclude.name ∈ completedOf runId t.tables) :
    ∃ report, ReportOf p runId t log report ∧ ShowsReport p runId t.tables report :=
  ((generatedMilestone runId p).history h hFresh.orderly (by simp [hFresh.completedOf]) trivial
    hStarted).2 hDone

/-- A run whose conclude stage has completed, and has always started without a conclusion of the run:
a report which is made from its rows has the conclusions of the generated one, which the checkpoint
shows.  It has the same flags exactly if, for no draft of the reply which cites a verified statement, the one-sidedness check fires
or a confirmed contradiction is about a cited statement. -/
theorem warnings_agree_iff {runId : Uuid} {p : Platform} {s t : World} {log : Log Vocabulary}
    (hFresh : FreshRun runId s.tables)
    (h : HistoryWhere (flowJob runId) (fun services _ => services.platform = p) s log t)
    (hStarted : ∀ m ∈ log, m.happening = .wrote (.stageStarted runId Stage.conclude.name) →
      ∀ c ∈ m.before.tables.conclusions, c.runId ≠ runId)
    (hDone : Stage.conclude.name ∈ completedOf runId t.tables) :
    ∃ (services : PipelineServices) (topic : Text) (verified : List Statement)
      (confirmed : List Contradiction) (w u : World) (earlier called later : Log Vocabulary)
      (report : Report) (content : Text) (extraction : ConclusionExtraction),
      log = earlier ++ called ++ later ∧
      Exec (generate services.gateway runId topic verified confirmed) w called (.done report) u ∧
      Answered services.gateway (synthesisCall services.gateway runId verified
        (contradictionTuples p confirmed)) called content
        (.model .conclusionExtraction extraction) ∧
      ShowsReport p runId t.tables report ∧
      ∀ run : Run, run.id = runId → ∀ log' rebuilt v,
        Exec (reportFromRows p run) t log' (.done rebuilt) v →
          (rebuilt.conclusions.map ReportConclusion.id).Perm
              (report.conclusions.map ReportConclusion.id) ∧
            (FlagsAgree report rebuilt ↔
              ∀ draft ∈ extraction.conclusions.val, citesVerified verified draft = true →
                firesOneSided p verified w.tables draft = false ∧
                  touchesContradiction verified confirmed draft = false) := by
  obtain ⟨report, ⟨hGenerated, hIds⟩, hShows⟩ := generated_report hFresh h hStarted hDone
  obtain ⟨services, topic, verified, confirmed, w, u, earlier, now, later, rfl, hRan, rfl⟩ :=
    hGenerated
  obtain ⟨called, rfl, hExec⟩ := hRan
  obtain ⟨content, extraction, hAnswered, hIff⟩ := unflagged_iff (by rintro _ ⟨⟩) hExec
  refine ⟨services, topic, verified, confirmed, w, u, earlier, called, later, report, content,
    extraction, rfl, hExec, hAnswered, hShows, ?_⟩
  rintro run rfl log' rebuilt v hRebuilt
  refine ⟨?_, (flagsAgree_iff hIds hRebuilt).trans hIff⟩
  rw [hIds]
  exact (rebuilt_flags hRebuilt).1

/-! ## A run with a one-sided conclusion -/

theorem concludeCuts_started : ∀ m ∈ (Served.concluding.runs concludeCuts).1,
    m.happening = .wrote (.stageStarted ⟨1⟩ Stage.conclude.name) →
      ∀ c ∈ m.before.tables.conclusions, c.runId ≠ ⟨1⟩ :=
  fun m hm hEvent => (concludeCuts_facts.2 m hm (startedStage_of hEvent)).1

theorem redactJson_oneSided (u : Unicode) (c : ReportConclusion) :
    (redactJson u c.dump).get? "one_sided".toList = some (.bool c.oneSided) := rfl

/-- What the endpoint makes of the rows of the run. -/
theorem warnings_agree_served : ∃ (verified : List Statement) (confirmed : List Contradiction)
    (w : World) (report : Report) (extraction : ConclusionExtraction),
    ShowsReport Served.concluding.platform ⟨1⟩ (Served.concluding.runs concludeCuts).2.tables report ∧
      ∀ run : Run, run.id = ⟨1⟩ → ∀ log' rebuilt v,
        Exec (reportFromRows Served.concluding.platform run)
          (Served.concluding.runs concludeCuts).2 log' (.done rebuilt) v →
          (FlagsAgree report rebuilt ↔
            ∀ draft ∈ extraction.conclusions.val, citesVerified verified draft = true →
              firesOneSided Served.concluding.platform verified w.tables draft = false ∧
                touchesContradiction verified confirmed draft = false) := by
  obtain ⟨-, -, verified, confirmed, w, -, -, -, -, report, -, extraction, -, -, -, hShows, hBoth⟩ :=
    warnings_agree_iff (World.submitted_fresh 1) (Served.concluding.runs_history concludeCuts)
      concludeCuts_started concludeCuts_facts.1
  exact ⟨verified, confirmed, w, report, extraction, hShows,
    fun run hRun log' rebuilt v h => (hBoth run hRun log' rebuilt v h).2⟩

/-- The generated report marks a conclusion as one-sided, and the one which is made from the rows
shows it as balanced. -/
theorem warnings_disagree : ∃ log t,
    HistoryWhere (flowJob ⟨1⟩) (fun services _ => services.platform = Served.concluding.platform)
      (World.submitted 1) log t ∧
    (∀ m ∈ log, m.happening = .wrote (.stageStarted ⟨1⟩ Stage.conclude.name) →
      ∀ c ∈ m.before.tables.conclusions, c.runId ≠ ⟨1⟩) ∧
    Stage.conclude.name ∈ completedOf ⟨1⟩ t.tables ∧
    ∃ report, Generated Served.concluding.platform ⟨1⟩ log report ∧
      ∃ run ∈ t.tables.runs, run.id = ⟨1⟩ ∧ ∃ later rebuilt u,
        Exec (reportFromRows Served.concluding.platform run) t later (.done rebuilt) u ∧
          ∃ c ∈ report.conclusions, ∃ c' ∈ rebuilt.conclusions, c'.id = c.id ∧
            c.oneSided = true ∧ c'.oneSided = false := by
  obtain ⟨hRuns, -, hListed⟩ := concludeCuts_shown
  obtain ⟨report, ⟨hGenerated, hIds⟩, row, state, hRow, hState, hItems⟩ :=
    generated_report (World.submitted_fresh 1) (Served.concluding.runs_history concludeCuts)
      concludeCuts_started concludeCuts_facts.1
  refine ⟨_, _, Served.concluding.runs_history concludeCuts, concludeCuts_started,
    concludeCuts_facts.1, report, hGenerated, ?_⟩
  generalize (Served.concluding.runs concludeCuts).2 = t at hRuns hListed hRow hIds ⊢
  rw [concludeState_of hRow hState, Option.any_some, hItems, List.any_map,
    List.any_eq_true] at hListed
  obtain ⟨c, hc, hOneSided⟩ := hListed
  rw [Function.comp_apply, redactJson_oneSided, Option.any_some] at hOneSided
  obtain ⟨run, hRun, hId⟩ := List.any_eq_true.mp hRuns
  rw [decide_eq_true_eq] at hId
  refine ⟨run, hRun, hId, ?_⟩
  obtain ⟨found, hOf, -⟩ := FoundRows.exists_of run.id t.tables (.refl _)
  obtain ⟨entries, hEntries, -⟩ := hOf.renders (Served.renderable Served.concluding run.id t.tables)
  obtain ⟨rebuilt, ⟨later, hExec⟩, rfl⟩ := yields_reportFromRows hOf hEntries
  obtain ⟨hRebuilt, hFlags⟩ := rebuilt_flags hExec
  have hMem : c.id ∈ rebuilt.conclusions.map ReportConclusion.id := by
    rw [hRebuilt.mem_iff, hId, ← hIds]
    exact List.mem_map_of_mem hc
  obtain ⟨c', hc', hSame⟩ := List.mem_map.mp hMem
  exact ⟨later, rebuilt, t, hExec, c, hc, c', hc', hSame, hOneSided, (hFlags c' hc').1⟩

end Ecrke
