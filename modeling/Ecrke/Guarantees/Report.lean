import Ecrke.Pipeline.Ingest

/-!
# The report of a run

The conclude stage commits the conclusions of a run, stores the report as markdown, and leaves the
report in its checkpoint, one after the other.  Executed once, it leaves the three in agreement;
executed again after it was cut off in between, it adds to the rows and keeps the old markdown.

* `ConclusionsMatch` -- the rows of the run are the conclusions which the checkpoint lists.
* `conclusions_match` -- they are, where the stage has always started without a row.
* `MarkdownMatches` -- the stored markdown is that of the report in the checkpoint.
* `markdown_matches` -- it is, where the stage has always started without a stored report.
-/

namespace Ecrke

open Durable

/-! ## Conclusions in a checkpoint -/

/-- The conclusions which the state of a conclude checkpoint lists. -/
def listedConclusions (state : Json) : List Json :=
  match (state.get? "report".toList).bind (Json.get? "conclusions".toList) with
  | some (.arr items) => items
  | _ => []

/-- The fields of a listed conclusion which its row has as well. -/
def listedFields (item : Json) : List (Option Json) :=
  ["id", "text", "confidence", "human_review_required"].map fun key => item.get? key.toList

/-- The fields of a row, as a checkpoint shows them: the text is redacted once more. -/
def Conclusion.listed (u : Unicode) (row : Conclusion) : List (Option Json) :=
  [some (.str row.id.str), some (.str (redactSecrets u row.text)),
    some (Confidence.dump row.confidence), some (.bool row.humanReviewRequired)]

/-- The rows of a run are the conclusions of a state, each of them once. -/
def ReportListed (p : Platform) (runId : Uuid) (state : Json) (t : Tables) : Prop :=
  ((t.conclusions.filter fun c => c.runId = runId).map (Conclusion.listed p.unicode)).Perm
    ((listedConclusions state).map listedFields)

/-- The rows of a run are the conclusions of the report in its checkpoint. -/
def ConclusionsMatch (p : Platform) (runId : Uuid) (t : Tables) : Prop :=
  ∃ row state, findCheckpoint runId Stage.conclude.name t.checkpoints = some row ∧
    row.state = some state ∧ ReportListed p runId state t

/-- The row of a conclusion and its entry in the report say the same. -/
structure Reported (runId : Uuid) (row : Cited) : Prop where
  run : row.conclusion.runId = runId
  id : row.report.id = row.conclusion.id.str
  text : row.report.text = row.conclusion.text
  confidence : row.report.confidence = row.conclusion.confidence
  humanReview : row.report.humanReviewRequired = row.conclusion.humanReviewRequired

/-- The detail which the conclude stage leaves. -/
def concludeDetail (p : Platform) (report : Report) (ref : Text) (conclusions : Nat)
    (contradictions : Nat) : Json :=
  .obj [("report".toList, report.dump p.isoformat), ("report_markdown_ref".toList, .str ref),
    countField "conclusions" conclusions, countField "contradictions" contradictions]

theorem redactItems_eq (u : Unicode) (items : List Json) :
    redactItems u items = items.map (redactJson u) := by
  induction items with
  | nil => rfl
  | cons item rest ih => rw [redactItems, ih, List.map_cons]

theorem redactJson_confidence (u : Unicode) (confidence : Option Confidence) :
    redactJson u (Confidence.dump confidence) = Confidence.dump confidence := by
  cases confidence <;> rfl

theorem listedConclusions_detail (p : Platform) (report : Report) (ref : Text) (m n : Nat) :
    listedConclusions (redactJson p.unicode (concludeDetail p report ref m n)) =
      report.conclusions.map fun c => redactJson p.unicode c.dump := by
  have hReport : (redactJson p.unicode (concludeDetail p report ref m n)).get? "report".toList =
      some (redactJson p.unicode (report.dump p.isoformat)) := rfl
  have hConclusions : (redactJson p.unicode (report.dump p.isoformat)).get?
      "conclusions".toList =
        some (.arr (redactItems p.unicode (report.conclusions.map ReportConclusion.dump))) := rfl
  rw [listedConclusions, hReport, Option.bind_some, hConclusions, redactItems_eq, List.map_map]
  rfl

theorem Reported.fields {runId : Uuid} {row : Cited} (h : Reported runId row) (u : Unicode) :
    listedFields (redactJson u row.report.dump) = row.conclusion.listed u := by
  have hFields : listedFields (redactJson u row.report.dump) =
      [some (.str (redactSecrets u row.report.id)), some (.str (redactSecrets u row.report.text)),
        some (redactJson u (Confidence.dump row.report.confidence)),
        some (.bool row.report.humanReviewRequired)] := rfl
  rw [hFields, Conclusion.listed, redactJson_confidence, h.id, h.text, h.confidence,
    h.humanReview, redactSecrets_uuid]

/-! ## The rows of a report -/

section Rows

variable {s : World}

/-- Any step whatever. -/
abbrev anyMoment : Moment Vocabulary → Prop := fun _ => True

theorem anyQuiet : ∀ m, Quiet m → anyMoment m := fun _ _ => trivial

theorem conclude_reported (p : Platform) (synthesis : Synthesis) (draft : ConclusionDraft) :
    Alone anyMoment
      (onOk fun found t => (∀ row, found = some row → Reported synthesis.runId row) ∧ t.db = s.db)
      (conclude p synthesis draft) s := by
  refine Alone.ite (fun _ => Alone.done ⟨by simp, rfl⟩) fun _ => ?_
  refine Alone.bind_ok _ (Alone.quietDb anyQuiet quiet_uuid4) fun id t ht => ?_
  refine Alone.bind_ok _ (Alone.quietDb anyQuiet quiet_dbNow) fun createdAt u hu => ?_
  refine Alone.bind_ok _ (Alone.quietDb anyQuiet (quiet_auditAppend _ _)) fun audit v hv => ?_
  refine Alone.done ⟨?_, hv.trans (hu.trans ht)⟩
  rintro row hRow
  cases hRow
  exact ⟨rfl, rfl, rfl, rfl, rfl⟩

/-- A model call leaves a table alone which no metering step touches. -/
theorem Alone.unmetered {γ α : Type} {runId : Uuid} (f : Tables → γ)
    (hf : ∀ t t', MeterStep runId t t' → f t' = f t) {p : Action α}
    (h : Alone (MeterMoment runId) anyEnd p s) :
    Alone anyMoment (onOk fun _ t => f t.tables = f s.tables) p s := by
  refine (Alone.along (S := Vocabulary) (T := fun s t : World => f t.tables = f s.tables)
    (fun _ => rfl) (fun _ _ _ h h' => h'.trans h) (fun m hm => hf _ _ hm.1) h).mono
      (fun _ _ => trivial) fun r t ht => ?_
  cases r with
  | error error => trivial
  | ok value => exact ht.2

theorem MeterStep.conclusions {runId : Uuid} {t t' : Tables} (h : MeterStep runId t t') :
    t'.conclusions = t.conclusions := by
  cases h <;> rfl

/-- The rows which the report generator adds are those of the report which it returns. -/
theorem generate_rows (gateway : LLMGateway) (hHooks : gateway.hooks = [])
    (runId : Uuid) (topic : Text) (statements : List Statement) (contradictions : List Contradiction) :
    Alone anyMoment
      (onOk fun report t => ∃ rows : List Cited, (∀ row ∈ rows, Reported runId row) ∧
        t.tables.conclusions = s.tables.conclusions ++ rows.map Cited.conclusion ∧
        report.conclusions = rows.map Cited.report)
      (generate gateway runId topic statements contradictions) s := by
  unfold generate
  simp only [raiseError_bind]
  refine Alone.ite (fun _ => Alone.raise trivial) fun _ => ?_
  refine Alone.bind_ok _ (Alone.unmetered Tables.conclusions (fun _ _ h => h.conclusions)
    (completeModel_spec gateway hHooks _ _ (rfl : CompleteArgs.runId _ = some runId))) fun result t ht => ?_
  refine Alone.bind_ok _ (Alone.quietDb anyQuiet (quiet_selectRows _)) fun links u hu => ?_
  refine Alone.bind_ok _ (Alone.quietDb anyQuiet (quiet_sourceDomains _ _)) fun domains v hv => ?_
  refine Alone.bind_ok _ (Alone.mapM (S := Vocabulary)
    (fun _ found => ∀ row, found = some row → Reported runId row) (fun w => w.db = t.db) _ ?_
    (hv.trans hu)) ?_
  · intro draft _ w hw
    refine (conclude_reported _ _ draft).post ?_
    rintro (error | found) x h
    · trivial
    · exact ⟨h.1, h.2.trans hw⟩
  rintro found w ⟨hFound, hw⟩
  have hRows (row : Cited) (hRow : row ∈ found.filterMap id) : Reported runId row := by
    obtain ⟨_, _, hReported⟩ := hFound (some row) (by simpa using hRow)
    exact hReported row rfl
  refine Alone.bind_ok (fun _ (x : World) => x.tables.conclusions =
    s.tables.conclusions ++ (found.filterMap id).map Cited.conclusion)
    (Alone.commitWrites anyQuiet (fun x hx => ⟨trivial, ?_, fun _ _ => trivial⟩)
      fun _ _ => trivial) fun _ x hx => ?_
  · rw [onOk_ok, hx, after_conclusionWrites, World.tables, hw]
    exact congrArg (· ++ _) ht
  · refine Alone.bind_ok _ (Alone.quietDb anyQuiet quiet_now) fun generatedAt y hy => ?_
    refine Alone.done ⟨found.filterMap id, hRows, ?_, rfl⟩
    rw [World.tables, hy]
    exact hx

/-- The conclude stage, started without a conclusion of the run. -/
theorem runConclude_listed (ctx : PipelineContext)
    (hNone : ∀ c ∈ s.tables.conclusions, c.runId ≠ ctx.runId) :
    Alone anyMoment
      (onOk fun result t => ∃ detail, result.detail = some detail ∧
        ReportListed ctx.services.platform ctx.runId
          (redactJson ctx.services.platform.unicode detail) t.tables)
      (runConclude ctx) s := by
  refine Alone.bind_ok _ (Alone.quietDb anyQuiet (quiet_getRun _)) fun found t ht => ?_
  cases found with
  | none => exact Alone.raise trivial
  | some run =>
      refine Alone.bind_ok _ (Alone.quietDb anyQuiet (quiet_selectRows _)) fun rows u hu => ?_
      refine Alone.bind_ok _ (Alone.quietDb anyQuiet (quiet_selectRows _)) fun conflicts v hv => ?_
      refine Alone.bind_ok _ (generate_rows _ rfl ctx.runId _ _ _) ?_
      rintro report w ⟨rows, hRows, hAdded, hReport⟩
      refine Alone.bind_ok _ (Alone.quietDb anyQuiet (quiet_put _ _)) fun _ x hx => ?_
      refine Alone.done ⟨_, rfl, ?_⟩
      have hOld : v.tables.conclusions.filter (fun c => c.runId = ctx.runId) = [] := by
        rw [World.tables, hv, hu, ht, List.filter_eq_nil_iff]
        simpa using hNone
      have hNew : (rows.map Cited.conclusion).filter (fun c => c.runId = ctx.runId) =
          rows.map Cited.conclusion := by
        rw [List.filter_eq_self]
        intro c hc
        obtain ⟨row, hRow, rfl⟩ := List.mem_map.mp hc
        simpa using (hRows row hRow).run
      rw [ReportListed, World.tables, hx, ← World.tables, hAdded, List.filter_append, hOld, hNew,
        List.nil_append]
      refine .of_eq ?_
      refine Eq.trans ?_ (congrArg (List.map listedFields)
        (listedConclusions_detail ctx.services.platform report _ _ _)).symm
      rw [hReport, List.map_map, List.map_map, List.map_map]
      exact List.map_congr_left fun row hRow => ((hRows row hRow).fields _).symm

end Rows

/-! ## From the checkpoint on -/

section Checkpoints

variable {runId : Uuid} {t t' : Tables} {stage : Stage}

/-- The task after the conclude stage writes neither conclusions nor checkpoints. -/
theorem TaskStep.afterConclude (hStep : TaskStep runId t stage t')
    (hLater : Stage.conclude.index < stage.index) :
    t'.conclusions = t.conclusions ∧ t'.checkpoints = t.checkpoints := by
  refine ⟨?_, hStep.checkpoints⟩
  cases hStep with
  | metered hMeter => exact hMeter.conclusions
  | finalized => rfl
  | _ => exact absurd hLater (by decide)

theorem ConclusionsMatch.congr {p : Platform} (h : ConclusionsMatch p runId t)
    (hConclusions : t'.conclusions = t.conclusions)
    (hFound : ∀ row, findCheckpoint runId Stage.conclude.name t.checkpoints = some row →
      findCheckpoint runId Stage.conclude.name t'.checkpoints = some row) :
    ConclusionsMatch p runId t' := by
  obtain ⟨row, state, hRow, hState, hListed⟩ := h
  refine ⟨row, state, hFound row hRow, hState, ?_⟩
  rwa [ReportListed, hConclusions]

end Checkpoints

/-- The conclusions of a run, from the checkpoint of the conclude stage on. -/
def conclusionsMilestone (runId : Uuid) (p : Platform) : Milestone runId p .conclude where
  Always _ _ := True
  Reached w _ := ConclusionsMatch p runId w.tables
  May w := ∀ c ∈ w.tables.conclusions, c.runId ≠ runId
  Left result w _ := ∃ detail, result.detail = some detail ∧
    ReportListed p runId (redactJson p.unicode detail) w.tables
  always_control _ _ _ _ := trivial
  reached_control := by
    intro l m hControl hMatch
    obtain ⟨runs, rows, hTables⟩ := hControl.tables
    rw [hTables]
    exact hMatch.congr rfl fun _ h => h
  always_saved _ _ _ _ _ _ _ := trivial
  reached_saved := by
    intro w v l row _ hMatch _ hTables
    rw [hTables]
    exact hMatch.congr rfl fun _ h => findCheckpoint_old h
  task := by
    intro stage services t l _ _ _
    refine wp_of_given (fun l m hTask => ⟨fun _ => trivial, fun hLater _ hMatch => ?_⟩) _ _ _
    obtain ⟨hConclusions, hCheckpoints⟩ := hTask.1.afterConclude hLater
    exact hMatch.congr hConclusions fun _ h => hCheckpoints ▸ h
  turn := by
    rintro services t l rfl hMay -
    refine wp_of_alone (runConclude_listed ⟨runId, services⟩ hMay) (fun _ _ _ _ _ => trivial) ?_
    rintro r w l hListed result rfl -
    exact hListed
  left_still _ _ _ _ h := h
  left_saved := by
    rintro result id w v l hNone - ⟨detail, hDetail, hListed⟩ - hTables
    rw [hTables]
    exact ⟨_, _, findCheckpoint_new hNone ⟨rfl, rfl⟩, by rw [hDetail]; rfl, hListed⟩

/-- The conclusions of a run whose conclude stage has always started without a conclusion of the
run: from its checkpoint on they are the conclusions of the report in the checkpoint. -/
theorem conclusions_match {runId : Uuid} {p : Platform} {s t : World} {log : Log Vocabulary}
    (hFresh : FreshRun runId s.tables)
    (h : HistoryWhere (flowJob runId) (fun services _ => services.platform = p) s log t)
    (hStarted : ∀ m ∈ log, m.happening = .wrote (.stageStarted runId Stage.conclude.name) →
      ∀ c ∈ m.before.tables.conclusions, c.runId ≠ runId)
    (hDone : Stage.conclude.name ∈ completedOf runId t.tables) :
    ConclusionsMatch p runId t.tables :=
  ((conclusionsMilestone runId p).history h hFresh.orderly (by simp [hFresh.completedOf]) trivial
    hStarted).2 hDone

/-! ## The stored report -/

/-- The log holds a complete execution of the report generator which has returned a report. -/
def Generated (p : Platform) (runId : Uuid) (log : Log Vocabulary) (report : Report) : Prop :=
  ∃ (services : PipelineServices) (topic : Text) (verified : List Statement)
    (confirmed : List Contradiction) (s t : World) (earlier now later : Log Vocabulary),
    services.platform = p ∧
    Ran (generate services.gateway runId topic verified confirmed) s earlier (.ok report) t now ∧
    log = now ++ later

theorem Generated.snoc {p : Platform} {runId : Uuid} {log : Log Vocabulary} {report : Report}
    (h : Generated p runId log report) (m : Moment Vocabulary) :
    Generated p runId (log ++ [m]) report := by
  obtain ⟨services, topic, verified, confirmed, s, t, earlier, now, later, hServices, hRan, rfl⟩ :=
    h
  exact ⟨services, topic, verified, confirmed, s, t, earlier, now, later ++ [m], hServices, hRan,
    List.append_assoc ..⟩

/-- The bytes stored for a report. -/
def storedMarkdown (p : Platform) (report : Report) : Bytes :=
  Bytes.encodeUtf8 (renderMarkdown p.isoformat report)

/-- The checkpoint shows a report which has been generated, and what is stored at its reference is
the markdown of that report. -/
def MarkdownMatches (p : Platform) (runId : Uuid) (w : World) (log : Log Vocabulary) : Prop :=
  ∃ row state report ref,
    findCheckpoint runId Stage.conclude.name w.tables.checkpoints = some row ∧
    row.state = some state ∧ Generated p runId log report ∧
    state.get? "report".toList = some (redactJson p.unicode (report.dump p.isoformat)) ∧
    state.get? "report_markdown_ref".toList = some (.str ref) ∧
    BlobStore.lookup ref w.blobs = some (storedMarkdown p report)

theorem MarkdownMatches.snoc {p : Platform} {runId : Uuid} {m : Moment Vocabulary}
    {log : Log Vocabulary} (h : MarkdownMatches p runId m.before log)
    (hFound : ∀ row, findCheckpoint runId Stage.conclude.name m.before.tables.checkpoints =
      some row → findCheckpoint runId Stage.conclude.name m.after.tables.checkpoints = some row)
    (hBlobs : BlobsGrow m) : MarkdownMatches p runId m.after (log ++ [m]) := by
  obtain ⟨row, state, report, ref, hRow, hState, hGenerated, hReport, hRef, hStored⟩ := h
  exact ⟨row, state, report, ref, hFound row hRow, hState, hGenerated.snoc m, hReport, hRef,
    hBlobs _ _ hStored⟩

/-- What the conclude stage leaves for its checkpoint, and in the blob store. -/
def MarkdownLeft (p : Platform) (runId : Uuid) (result : StageResult) (w : World)
    (log : Log Vocabulary) : Prop :=
  ∃ report m n, Generated p runId log report ∧
    result.detail = some (concludeDetail p report (reportRef runId) m n) ∧
    BlobStore.lookup (reportRef runId) w.blobs = some (storedMarkdown p report)

/-- The reference holds no secret. -/
theorem redactSecrets_reportRef (u : Unicode) (runId : Uuid) :
    redactSecrets u (reportRef runId) = reportRef runId :=
  redactSecrets_eq_self u (.append (.append (by decide) (.uuid runId)) (by decide))

/-- The conclude stage, started without a stored report of the run. -/
theorem runConclude_markdown {runId : Uuid} {services : PipelineServices} {t : World}
    {l : Log Vocabulary} {given : Moment Vocabulary → Prop}
    (hNone : BlobStore.lookup (reportRef runId) t.blobs = none) :
    wp (.alongside given fun _ _ => True)
      (fun r w l' => ∀ result, r = .ok result → MarkdownLeft services.platform runId result w l')
      (runConclude ⟨runId, services⟩) t l := by
  have hKept {α : Type} {program : Action α} (h : Keeps BlobsKept program) (s : World)
      (l : Log Vocabulary) : wp (.alongside given fun _ _ => True)
        (fun _ u _ => u.blobs = s.blobs) program s l :=
    wp_of_alone (Alone.kept h) (fun _ _ _ _ => trivial) fun _ _ _ h => h
  refine wp_bind _ (hKept (kept_selectTables _) t l) (fun found u l hu => ?_) (by simp)
  cases found with
  | none => exact .raise (by simp)
  | some run =>
      refine wp_bind _ (hKept (kept_selectRows _) u l) (fun rows v l hv => ?_) (by simp)
      refine wp_bind _ (hKept (kept_selectRows _) v l) (fun conflicts w l hw => ?_) (by simp)
      -- The execution of the generator is the piece of the log up to its return.
      refine wp_bind _ (wp_ran (hKept ((BlobsKept.allows _).generate _ rfl _ _ _ _) w l))
        (fun report x l' hx => ?_) (by simp)
      obtain ⟨hx, hRan⟩ := hx
      have hGenerated : Generated services.platform runId l' report :=
        ⟨services, _, _, _, w, x, l, l', [], rfl, hRan, by simp⟩
      have hPut : wp (.alongside given fun _ _ => True)
          (fun r (y : World) _ => ∀ value, r = .ok value →
            BlobStore.lookup (reportRef runId) y.blobs =
              some (storedMarkdown services.platform report))
          (BlobStore.put (reportRef runId) (storedMarkdown services.platform report)) x l' := by
        refine wp_of_alone (put_spec _ _) (fun _ _ _ _ => trivial) ?_
        rintro r y - hLookup value rfl
        have hStill : BlobStore.lookup (reportRef runId) x.blobs = none := by
          rw [hx, hw, hv, hu, hNone]
        rw [onOk_ok, hStill] at hLookup
        exact hLookup.2
      refine wp_bind _ (wp_keeping (fun _ l => Generated services.platform runId l report)
        (fun _ m _ h _ => h.snoc m) hPut hGenerated) (fun value y l hy => .done ?_) (by simp)
      rintro result hResult
      cases hResult
      exact ⟨report, _, _, hy.2, rfl, hy.1 value rfl⟩

/-- The stored report of a run, from the checkpoint of the conclude stage on. -/
def markdownMilestone (runId : Uuid) (p : Platform) : Milestone runId p .conclude where
  Always _ _ := True
  Reached := MarkdownMatches p runId
  May w := BlobStore.lookup (reportRef runId) w.blobs = none
  Left := MarkdownLeft p runId
  always_control _ _ _ _ := trivial
  reached_control := by
    intro l m hControl hMatch
    obtain ⟨runs, rows, hTables⟩ := hControl.tables
    exact hMatch.snoc (by rw [hTables]; exact fun _ h => h) fun ref content h => by
      rwa [hControl.blobs]
  always_saved _ _ _ _ _ _ _ := trivial
  reached_saved := by
    intro w v l row _ hMatch hBlobs hTables
    exact hMatch.snoc (m := ⟨w, .moved, v⟩) (by rw [hTables]; exact fun _ h => findCheckpoint_old h)
      fun ref content h => by rwa [hBlobs]
  task := by
    intro stage services t l _ _ _
    refine wp_of_alone (stageTasks_blobs stage ⟨runId, services⟩) ?_ fun _ _ _ _ => trivial
    refine fun l m hTask hGrow => ⟨fun _ => trivial, fun _ _ hMatch => ?_⟩
    exact hMatch.snoc (fun _ h => hTask.1.checkpoints ▸ h) hGrow
  turn := by
    rintro services t l rfl hMay -
    refine wp_weaken (runConclude_markdown hMay) (fun _ h => h) (fun _ _ _ _ _ => trivial) ?_
    exact fun r w l' h result hResult _ => h result hResult
  left_still := by
    rintro result w l happening ⟨report, m, n, hGenerated, hDetail, hStored⟩
    exact ⟨report, m, n, hGenerated.snoc _, hDetail, hStored⟩
  left_saved := by
    rintro result id w v l hNone - ⟨report, m, n, hGenerated, hDetail, hStored⟩ hBlobs hTables
    have hRow : findCheckpoint runId Stage.conclude.name v.tables.checkpoints =
        some ⟨id, runId, Stage.conclude.name, result.detail.map (redactJson p.unicode)⟩ := by
      rw [hTables]
      exact findCheckpoint_new hNone ⟨rfl, rfl⟩
    rw [hDetail] at hRow
    have hRef : (redactJson p.unicode (concludeDetail p report (reportRef runId) m n)).get?
        "report_markdown_ref".toList = some (.str (redactSecrets p.unicode (reportRef runId))) :=
      rfl
    rw [redactSecrets_reportRef] at hRef
    exact ⟨_, _, report, reportRef runId, hRow, rfl, hGenerated.snoc _, rfl, hRef, by rwa [hBlobs]⟩

/-- The stored report of a run whose conclude stage has always started without a stored report of
the run: from its checkpoint on it is the markdown of the report in the checkpoint. -/
theorem markdown_matches {runId : Uuid} {p : Platform} {s t : World} {log : Log Vocabulary}
    (hFresh : FreshRun runId s.tables)
    (h : HistoryWhere (flowJob runId) (fun services _ => services.platform = p) s log t)
    (hStarted : ∀ m ∈ log, m.happening = .wrote (.stageStarted runId Stage.conclude.name) →
      BlobStore.lookup (reportRef runId) m.before.blobs = none)
    (hDone : Stage.conclude.name ∈ completedOf runId t.tables) : MarkdownMatches p runId t log :=
  ((markdownMilestone runId p).history h hFresh.orderly (by simp [hFresh.completedOf]) trivial
    hStarted).2 hDone

/-! ## A run with one conclusion -/

/-- A run whose provider concludes something from the only statement, but nothing from step 195
on. -/
def Served.concluding : Served where
  cited := ⟨97⟩
  reply := fun n => if n < 195 then "a b c".toList else []

/-- The run is killed after each of its first nine checkpoints. -/
def concludeCuts : List Nat := [22, 14, 24, 16, 28, 29, 16, 11, 38]

/-- The run is killed after it has stored its report, and concludes again. -/
def concludeTwice : List Nat := [22, 14, 24, 16, 28, 29, 16, 11, 35, 33]

theorem concludeCuts_facts :
    Stage.conclude.name ∈ completedOf ⟨1⟩ (Served.concluding.runs concludeCuts).2.tables ∧
      ∀ m ∈ (Served.concluding.runs concludeCuts).1,
        startedStage ⟨1⟩ m = some Stage.conclude.name →
          (∀ c ∈ m.before.tables.conclusions, c.runId ≠ ⟨1⟩) ∧
            BlobStore.lookup (reportRef ⟨1⟩) m.before.blobs = none := by
  decide +kernel

/-- The state of the checkpoint of the conclude stage. -/
def concludeState (runId : Uuid) (w : World) : Option Json :=
  (findCheckpoint runId Stage.conclude.name w.tables.checkpoints).bind Checkpoint.state

theorem concludeState_of {runId : Uuid} {w : World} {row : Checkpoint} {state : Json}
    (hRow : findCheckpoint runId Stage.conclude.name w.tables.checkpoints = some row)
    (hState : row.state = some state) : concludeState runId w = some state :=
  (congrArg (Option.bind · Checkpoint.state) hRow).trans hState

/-- The checkpoint lists no conclusion.  The run has one, and its stored report ends with a
reference. -/
theorem concludeTwice_facts :
    Stage.conclude.name ∈ completedOf ⟨1⟩ (Served.concluding.runs concludeTwice).2.tables ∧
      (Served.concluding.runs concludeTwice).2.tables.conclusions.map Conclusion.runId = [⟨1⟩] ∧
      ((concludeState ⟨1⟩ (Served.concluding.runs concludeTwice).2).map fun state =>
        (listedConclusions state).length) = some 0 ∧
      (((concludeState ⟨1⟩ (Served.concluding.runs concludeTwice).2).bind
        (Json.get? "report_markdown_ref".toList)).bind fun ref =>
          match ref with
          | .str ref => some ref
          | _ => none) = some (reportRef ⟨1⟩) ∧
      ((BlobStore.lookup (reportRef ⟨1⟩) (Served.concluding.runs concludeTwice).2.blobs).map
        fun content => content.reverse.take 4) =
      some (Bytes.encodeUtf8 "org\n".toList).reverse := by
  decide +kernel

theorem conclusions_match_served :
    ConclusionsMatch Served.concluding.platform ⟨1⟩
      (Served.concluding.runs concludeCuts).2.tables :=
  conclusions_match (World.submitted_fresh 1) (Served.concluding.runs_history concludeCuts)
    (fun m hm hEvent => (concludeCuts_facts.2 m hm (startedStage_of hEvent)).1)
    concludeCuts_facts.1

/-- The run has a conclusion which its checkpoint does not list. -/
theorem conclusions_match_fails :
    ∃ log t, HistoryWhere (flowJob ⟨1⟩)
        (fun services _ => services.platform = Served.concluding.platform) (World.submitted 1)
        log t ∧
      Stage.conclude.name ∈ completedOf ⟨1⟩ t.tables ∧
      ¬ ConclusionsMatch Served.concluding.platform ⟨1⟩ t.tables := by
  obtain ⟨hDone, hRuns, hListed, -⟩ := concludeTwice_facts
  refine ⟨_, _, Served.concluding.runs_history concludeTwice, hDone, ?_⟩
  rintro ⟨row, state, hRow, hState, hMatch⟩
  generalize (Served.concluding.runs concludeTwice).2 = t at hRuns hListed hRow hMatch
  have hCount : (t.tables.conclusions.filter fun c => c.runId = ⟨1⟩).length = 1 := by
    obtain ⟨c, hc⟩ := List.length_eq_one_iff.mp
      ((List.length_map Conclusion.runId).symm.trans (congrArg List.length hRuns))
    have hOwn : c.runId = ⟨1⟩ := by simpa [hc] using hRuns
    simp [hc, hOwn]
  have hLength := hMatch.length_eq
  rw [concludeState_of hRow hState, Option.map_some, Option.some_inj] at hListed
  rw [List.length_map, List.length_map, hCount, hListed] at hLength
  exact absurd hLength (by decide)

theorem markdown_matches_served :
    MarkdownMatches Served.concluding.platform ⟨1⟩ (Served.concluding.runs concludeCuts).2
      (Served.concluding.runs concludeCuts).1 :=
  markdown_matches (World.submitted_fresh 1) (Served.concluding.runs_history concludeCuts)
    (fun m hm hEvent => (concludeCuts_facts.2 m hm (startedStage_of hEvent)).2)
    concludeCuts_facts.1

/-- The markdown of a report without conclusions ends with an empty list of references. -/
theorem renderMarkdown_empty (isoformat : Instant → Text) (report : Report)
    (h : report.conclusions = []) : "none\n".toList <:+ renderMarkdown isoformat report := by
  have hLines : reportLines isoformat report =
      ["# ".toList ++ report.topic, [], "- Run ID: ".toList ++ report.runId,
        "- Generated at: ".toList ++ isoformat report.generatedAt, [], "## Conclusions".toList, [],
        "## References".toList, [], "- none".toList, []] := by
    simp [reportLines, reportDomains, h]
  have hEnd : (renderMarkdown isoformat report).reverse.take 5 = "none\n".toList.reverse := by
    rw [renderMarkdown, hLines]
    simp [Text.join, List.intercalate]
  refine ⟨((renderMarkdown isoformat report).reverse.drop 5).reverse, ?_⟩
  rw [← List.reverse_reverse "none\n".toList, ← hEnd, ← List.reverse_append,
    List.take_append_drop, List.reverse_reverse]

/-- The stored report is that of the execution which was killed. -/
theorem markdown_matches_fails :
    ∃ log t, HistoryWhere (flowJob ⟨1⟩)
        (fun services _ => services.platform = Served.concluding.platform) (World.submitted 1)
        log t ∧
      Stage.conclude.name ∈ completedOf ⟨1⟩ t.tables ∧
      ¬ MarkdownMatches Served.concluding.platform ⟨1⟩ t log := by
  obtain ⟨hDone, -, hListed, hRefs, hBlob⟩ := concludeTwice_facts
  refine ⟨_, _, Served.concluding.runs_history concludeTwice, hDone, ?_⟩
  rintro ⟨row, state, report, ref, hRow, hState, -, hReport, hRef, hStored⟩
  generalize (Served.concluding.runs concludeTwice).2 = t at hListed hRefs hBlob hRow hStored
  have hConclude : concludeState ⟨1⟩ t = some state := concludeState_of hRow hState
  -- The report of the checkpoint has no conclusion, so its markdown has no reference.
  have hEmpty : report.conclusions = [] := by
    have hItems : listedConclusions state =
        report.conclusions.map fun c => redactJson Served.concluding.platform.unicode c.dump := by
      rw [listedConclusions, hReport]
      exact listedConclusions_detail Served.concluding.platform report [] 0 0
    rw [hConclude, Option.map_some, Option.some_inj, hItems, List.length_map] at hListed
    exact List.length_eq_zero_iff.mp hListed
  have hSame : ref = reportRef ⟨1⟩ := by
    rw [hConclude, Option.bind_some, hRef] at hRefs
    exact Option.some_inj.mp hRefs
  obtain ⟨front, hFront⟩ := renderMarkdown_empty Served.concluding.platform.isoformat report hEmpty
  rw [hSame] at hStored
  rw [hStored, storedMarkdown, ← hFront, Bytes.encodeUtf8, List.flatMap_append, Option.map_some,
    Option.some_inj, List.reverse_append, List.take_append_of_le_length (by decide)] at hBlob
  exact absurd hBlob (by decide)

end Ecrke
