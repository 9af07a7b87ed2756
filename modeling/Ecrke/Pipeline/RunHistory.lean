import Ecrke.Pipeline.FlowSpecs

/-!
# Histories of a run

What happens to a run over its life: stage tasks and whole executions of the flow, with any
services, one after the other, each cut off anywhere.

* `FreshRun` -- a run for which nothing has been executed.
* `RunJob`, `runJob` -- what may be executed for a run.
* `RunMoment` -- a step of any of them.
* `Advances` -- what no step takes back.
* `RunMoment.touches` -- a step either is a step of a task, or leaves the provenance alone.
* `History.run_invariant` -- an invariant of the steps holds throughout a history.
* `World.submitted`, `quietOutside`, `Served` -- a run by itself, for concrete inputs.
* `History.flow_moments` -- what every step of a history of executions of the flow is.
-/

namespace Ecrke

open Durable

/-- A run for which nothing has been executed.  Every verdict in the audit trail is about a
statement which exists. -/
structure FreshRun (runId : Uuid) (t : Tables) : Prop where
  checkpoints : ∀ c ∈ t.checkpoints, c.runId ≠ runId
  statements : ∀ s ∈ t.statements, s.runId ≠ runId
  links : ∀ l ∈ t.evidenceLinks, l.runId ≠ runId
  conclusions : ∀ c ∈ t.conclusions, c.runId ≠ runId
  progress : ∀ run, runOf runId t = some run → run.progress = 0
  verdicts : ∀ row ∈ t.auditTrace, ∀ id, IsVerifyAudit id row → ∃ s ∈ t.statements, s.id = id

theorem FreshRun.completedOf {runId : Uuid} {t : Tables} (h : FreshRun runId t) :
    completedOf runId t = [] := by
  simpa [Ecrke.completedOf] using h.checkpoints

theorem FreshRun.orderly {runId : Uuid} {t : Tables} (h : FreshRun runId t) : Orderly runId t :=
  ⟨0, h.completedOf⟩

/-- What may be executed for a run: the task of one stage, or the flow. -/
inductive RunJob where
  | task (stage : Stage) (services : PipelineServices)
  | flow (services : PipelineServices)

/-- What a job returns. -/
abbrev RunJob.result : RunJob → Type
  | task .. => StageResult
  | flow _ => Text

/-- The program of a job. -/
def runJob (runId : Uuid) : (job : RunJob) → Action job.result
  | .task stage services => stageTasks stage ⟨runId, services⟩
  | .flow services => executeStages ⟨runId, services⟩

/-- The executions of the flow, by their services. -/
def flowJob (runId : Uuid) (services : PipelineServices) : Action Text :=
  executeStages ⟨runId, services⟩

/-- A step of a job. -/
def RunMoment (runId : Uuid) (m : Moment Vocabulary) : Prop :=
  (∃ stage, TaskMoment runId stage m) ∨ ∃ start, FlowMoment runId start m

/-- Passages, sources and statements stay, and a verdict on a statement is never taken back. -/
structure Advances (t t' : Tables) : Prop extends Grows t t' where
  statements : ∀ s ∈ t.statements, ∃ s' ∈ t'.statements, s'.id = s.id ∧
    s'.passageId = s.passageId ∧ s'.runId = s.runId ∧ (s.status ≠ .draft → s'.status = s.status)

/-- A change of the tables which leaves the provenance alone, and adds no verdict on a statement. -/
structure Aside (t t' : Tables) : Prop where
  sources : t'.sources = t.sources
  passages : t'.passages = t.passages
  statements : t'.statements = t.statements
  evidenceLinks : t'.evidenceLinks = t.evidenceLinks
  conclusions : t'.conclusions = t.conclusions
  conclusionEvidence : t'.conclusionEvidence = t.conclusionEvidence
  audits : ∃ rows, t'.auditTrace = t.auditTrace ++ rows ∧
    ∀ row ∈ rows, row.entityType ≠ "statement".toList

section Steps

variable {runId : Uuid} {start t t' : Tables} {stage : Stage} {m : Moment Vocabulary}

theorem MeterStep.aside (h : MeterStep runId t t') : Aside t t' := by
  cases h <;> exact ⟨rfl, rfl, rfl, rfl, rfl, rfl, [], by simp [Tables.setRun], by simp⟩

theorem FlowStep.touches (h : FlowStep runId start t t') :
    (∃ stage, TaskStep runId t stage t') ∨ Aside t t' := by
  cases h with
  | task stage hReady h => exact .inl ⟨stage, h⟩
  | failed run hRun audit hAudit =>
      refine .inr ⟨rfl, rfl, rfl, rfl, rfl, rfl, [audit], rfl, ?_⟩
      simp [hAudit]
  | _ => exact .inr ⟨rfl, rfl, rfl, rfl, rfl, rfl, [], by simp [Tables.setRun], by simp⟩

theorem Advances.of_eq (hGrows : Grows t t') (hStatements : t'.statements = t.statements) :
    Advances t t' :=
  ⟨hGrows, fun s hs => ⟨s, hStatements ▸ hs, rfl, rfl, rfl, fun _ => rfl⟩⟩

theorem Aside.advances (h : Aside t t') : Advances t t' :=
  .of_eq (.of_eq h.passages h.sources) h.statements

/-- A verdict is only given on a draft, so nothing is taken back. -/
theorem TaskStep.advances (hValid : t.Valid) (h : TaskStep runId t stage t') : Advances t t' := by
  have hGrows := h.grows
  cases h with
  | metered h => exact h.aside.advances
  | extracted passage hPassage statements links hRows =>
      exact ⟨hGrows, fun s hs => ⟨s, List.mem_append_left _ hs, rfl, rfl, rfl, fun _ => rfl⟩⟩
  | verified statement hStatement passage hPassage decision link audit hRows =>
      refine ⟨hGrows, fun s hs => ?_⟩
      by_cases hId : s.id = statement.id
      · obtain rfl := hValid.statementsKey.eq hs hStatement hId
        refine ⟨_, mem_modifyRow.mpr (.inl ⟨s, hs, rfl, rfl⟩), rfl, rfl, rfl, fun hDecided => ?_⟩
        exact absurd hRows.draft hDecided
      · exact ⟨s, mem_modifyRow.mpr (.inr ⟨hs, hId⟩), rfl, rfl, rfl, fun _ => rfl⟩
  | _ => exact .of_eq hGrows rfl

/-- A step either is a step of a task, or leaves the provenance alone. -/
theorem RunMoment.touches (h : RunMoment runId m) :
    (∃ stage, TaskStep runId m.before.tables stage m.after.tables) ∨
      Aside m.before.tables m.after.tables := by
  rcases h with ⟨stage, hTask⟩ | ⟨start, hFlow⟩
  · exact .inl ⟨stage, hTask.1⟩
  · exact hFlow.1.touches

theorem RunMoment.advances (h : RunMoment runId m) : Advances m.before.tables m.after.tables := by
  rcases h.touches with ⟨stage, hTask⟩ | hAside
  · exact hTask.advances m.before.db.valid
  · exact hAside.advances

theorem RunMoment.orderly (h : RunMoment runId m) (hOrderly : Orderly runId m.before.tables) :
    Orderly runId m.after.tables := by
  rcases h with ⟨stage, hTask⟩ | ⟨start, hFlow⟩
  · rw [Orderly, completedOf_congr hTask.1.checkpoints]
    exact hOrderly
  · exact hFlow.1.orderly hOrderly

end Steps

theorem runJob_spec {runId : Uuid} {s : World} (hOrderly : Orderly runId s.tables) (job : RunJob) :
    Alone (RunMoment runId) anyEnd (runJob runId job) s := by
  cases job with
  | task stage services =>
      exact (stageTasks_spec stage ⟨runId, services⟩).mono (fun m hm => .inl ⟨stage, hm⟩)
        fun _ _ _ => trivial
  | flow services =>
      exact (executeStages_spec ⟨runId, services⟩ hOrderly).mono (fun m hm => .inr ⟨_, hm⟩)
        fun _ _ _ => trivial

/-- An invariant of the steps holds throughout a history. -/
theorem History.run_invariant {runId : Uuid} (I : World → Prop)
    (hI : ∀ m, RunMoment runId m → I m.before → I m.after) {s t : World} {log : Log Vocabulary}
    (h : History (runJob runId) s log t) (hOrderly : Orderly runId s.tables) (hStart : I s) :
    I t ∧ ∀ m ∈ log, RunMoment runId m ∧ I m.before := by
  obtain ⟨⟨-, hEnd⟩, hLog⟩ := HistoryWhere.alone (E := RunMoment runId)
    (fun w : World => Orderly runId w.tables ∧ I w)
    (fun m hm hE => ⟨hE.orderly hm.1, hI m hE hm.2⟩)
    (fun job w _ hw => runJob_spec hw.1 job) h ⟨hOrderly, hStart⟩
  exact ⟨hEnd, fun m hm => ⟨(hLog m hm).1, (hLog m hm).2.1.2⟩⟩

/-- The steps of a history of executions of the flow. -/
theorem History.flow_moments {runId : Uuid} {may : PipelineServices → World → Prop} {s t : World}
    {log : Log Vocabulary} (h : HistoryWhere (flowJob runId) may s log t)
    (hOrderly : Orderly runId s.tables) :
    Orderly runId t.tables ∧ ∀ m ∈ log, (∃ start services, may services start ∧
      FlowMoment runId start.tables m) ∧ Orderly runId m.before.tables := by
  obtain ⟨hEnd, hLog⟩ := HistoryWhere.alone
    (E := fun m => ∃ start services, may services start ∧ FlowMoment runId start.tables m)
    (fun w : World => Orderly runId w.tables) (fun m hm ⟨_, _, _, hE⟩ => hE.1.orderly hm)
    (fun services w hMay hw => (executeStages_spec ⟨runId, services⟩ hw).mono
      (fun m hm => ⟨w, services, hMay, hm⟩) fun _ _ _ => trivial) h hOrderly
  exact ⟨hEnd, fun m hm => ⟨(hLog m hm).1, (hLog m hm).2.1⟩⟩

/-! ## A run by itself -/

/-- A platform whose libraries know ASCII and nothing else. -/
def Platform.plain : Platform where
  unicode := ⟨fun _ => false, fun _ => false, fun c => [c], fun c => [c]⟩
  sha256 := fun _ => List.replicate 64 '0'
  jsonLoads := fun _ => none
  floatRepr := fun _ => "0.0".toList
  decimalStr := fun _ => "0".toList
  isoformat := fun _ => []
  schemaJson := fun _ => "\x7b\x7d".toList
  validate := fun _ _ => none
  completionCost := fun _ _ => none
  tokenCount := fun _ _ => none
  urlparse := fun _ => none
  htmlBlocks := fun _ => .ok ([], [])
  pdfPages := fun _ => .ok []
  docxParagraphs := fun _ => .ok []
  rtfToText := fun _ => .ok []

/-- The services of a plain platform. -/
def PipelineServices.plain : PipelineServices where
  platform := .plain
  settings := ⟨"cheap".toList, "strong".toList, 5, [], 0, "blobs".toList⟩

/-- A run which has just been submitted. -/
def Run.submitted (budget : Usd) : Run where
  id := ⟨1⟩
  tenantId := ⟨0⟩
  question := "why".toList
  status := .submitted
  stage := none
  progress := 0
  costBudgetUsd := budget
  costSpentUsd := 0
  checkpoint := none
  createdAt := 0
  completedAt := none

/-- A run, its checkpoints, and nothing else. -/
def Tables.single (run : Run) (checkpoints : List Checkpoint) : Tables where
  runs := [run]
  sources := []
  passages := []
  statements := []
  evidenceLinks := []
  findings := []
  findingStatements := []
  contradictions := []
  conclusions := []
  conclusionEvidence := []
  auditTrace := []
  checkpoints
  kvCache := []

theorem Tables.single_valid {run : Run} {checkpoints : List Checkpoint} (hChecks : run.Checks)
    (hId : Keyed Checkpoint.id checkpoints)
    (hStage : Keyed (fun c => (c.runId, c.stage)) checkpoints)
    (hRun : ∀ c ∈ checkpoints, c.runId = run.id) : (Tables.single run checkpoints).Valid := by
  constructor <;> simp_all [Tables.single, Keyed, Refers]

/-- The world of a run by itself. -/
def World.single (run : Run) (checkpoints : List Checkpoint) (hChecks : run.Checks)
    (hId : Keyed Checkpoint.id checkpoints)
    (hStage : Keyed (fun c => (c.runId, c.stage)) checkpoints)
    (hRun : ∀ c ∈ checkpoints, c.runId = run.id) : World where
  db := ⟨.single run checkpoints, Tables.single_valid hChecks hId hStage hRun⟩
  blobs := []
  memory := ⟨[], [], ⟨[], [], []⟩⟩

/-- The world of a run which has just been submitted. -/
def World.submitted (budget : Usd) : World :=
  .single (.submitted budget) [] (by simp [Run.Checks, Run.submitted]) (by simp [Keyed])
    (by simp [Keyed]) (by simp)

/-- A statement of the run, taken from its one passage. -/
def Statement.noted (n : Nat) (text : Text) (status : StatementStatus) : Statement where
  id := ⟨BitVec.ofNat 128 n⟩
  passageId := ⟨3⟩
  runId := ⟨1⟩
  text
  status
  confidence := none

/-- A run with one source, one passage and statements. -/
def Tables.noted (passage : Text) (statements : List Statement) : Tables :=
  { Tables.single (.submitted 1) [] with
    sources := [⟨⟨2⟩, ⟨1⟩, "https://a.org/b".toList, none, .web, "h".toList, none, true, .normalized⟩]
    passages := [⟨⟨3⟩, ⟨2⟩, 0, passage, none, none, "h".toList⟩]
    statements }

theorem Tables.noted_valid {passage : Text} {statements : List Statement}
    (hKey : Keyed Statement.id statements)
    (hPassage : ∀ statement ∈ statements, statement.passageId = ⟨3⟩)
    (hRun : ∀ statement ∈ statements, statement.runId = ⟨1⟩) :
    (Tables.noted passage statements).Valid := by
  constructor <;> simp_all [Tables.noted, Tables.single, Keyed, Refers, Run.Checks, Run.submitted]

/-- The world of a run with one source, one passage and statements. -/
def World.noted (passage : Text) (statements : List Statement)
    (hKey : Keyed Statement.id statements)
    (hPassage : ∀ statement ∈ statements, statement.passageId = ⟨3⟩)
    (hRun : ∀ statement ∈ statements, statement.runId = ⟨1⟩) : World where
  db := ⟨.noted passage statements, Tables.noted_valid hKey hPassage hRun⟩
  blobs := []
  memory := ⟨[], [], ⟨[], [], []⟩⟩

theorem World.submitted_fresh (budget : Usd) : FreshRun ⟨1⟩ (World.submitted budget).tables := by
  refine ⟨?_, ?_, ?_, ?_, ?_, ?_⟩
  · rintro _ ⟨⟩
  · rintro _ ⟨⟩
  · rintro _ ⟨⟩
  · rintro _ ⟨⟩
  · rintro run ⟨⟩
    rfl
  · rintro _ ⟨⟩

/-- An outside which answers with zeros and refuses every request, and the fate of the database
steps. -/
def quietOutside (verdict : Nat → Durable.Verdict Vocabulary) : Environment Vocabulary where
  answer := fun n => fun
    | .uuid4 => ⟨BitVec.ofNat 128 n⟩
    | .now => (0 : ℚ)
    | .dbNow => (0 : ℚ)
    | .loopTime => (0 : ℚ)
    | .perfCounter => (0 : ℚ)
    | .sleep _ => ()
    | .rowOrder count => Equiv.refl (Fin count)
    | .provider .. => ProviderAnswer.otherError ⟨.runtimeError, []⟩
    | .searchBackend .. => (.error ⟨.runtimeError, []⟩ : Except PyError (List Text))
    | .httpGet _ => (.error [] : Except Text HttpResponse)
    | .readFile _ => (.ok none : Except PyError (Option Bytes))
  verdict

/-- The stage which a step reports as started. -/
def startedStage (runId : Uuid) (m : Moment Vocabulary) : Option Text :=
  match m.happening with
  | .wrote (.stageStarted id name) => if id = runId then some name else none
  | _ => none

theorem startedStage_some {runId : Uuid} {m : Moment Vocabulary} {name : Text}
    (h : startedStage runId m = some name) : m.happening = .wrote (.stageStarted runId name) := by
  unfold startedStage at h
  split at h
  · split at h
    · cases h
      simp_all
    · cases h
  · cases h

theorem startedStage_of {runId : Uuid} {m : Moment Vocabulary} {name : Text}
    (h : m.happening = .wrote (.stageStarted runId name)) : startedStage runId m = some name := by
  simp [startedStage, h]

/-! ## A served run -/

/-- What a provider and the pages of the web are like in a small run. -/
structure Served where
  /-- The text of a reply, by the number of the step in which it is given. -/
  reply : Nat → Text := fun _ => "a b c".toList
  /-- The statement which a synthesis cites. -/
  cited : Uuid := ⟨0⟩
  /-- The results of every search. -/
  urls : List Text := ["https://a.org/b".toList]
  /-- Every page. -/
  page : Text := "a b c".toList

/-- A reply read as an instance of a response model: one statement, one conclusion unless it is
empty, and no contradiction. -/
def Served.read (served : Served) (reply : Text) : (model : ResponseModel) → Option model.Data
  | .researchPlan => some
      (⟨⟨"t".toList, by decide, by decide⟩,
        ⟨List.replicate 3 ⟨"q".toList, by decide, by decide⟩, by decide, by decide⟩,
        ⟨[], by decide, by decide⟩, ⟨[], by decide, by decide⟩, ⟨[], by decide, by decide⟩⟩ :
        ResearchPlan)
  | .statementExtraction => do
      let text ← BoundedText.check 1 2000 reply
      some (⟨⟨[⟨text, none⟩], Nat.zero_le _, by simp⟩⟩ : StatementExtraction)
  | .verificationVerdict => some
      (⟨true, .supported, ⟨"r".toList, by decide, by decide⟩, none⟩ : VerificationVerdict)
  | .contradictionFlag => some
      (⟨false, .noFlag, ⟨"r".toList, by decide, by decide⟩, none⟩ : ContradictionFlag)
  | .confirmVerdict => some (⟨false, ⟨"r".toList, by decide, by decide⟩, none⟩ : ConfirmVerdict)
  | .conclusionExtraction => do
      let cited ← BoundedList.check 1 20 [served.cited.str]
      let drafts ← BoundedList.check 0 50 ((BoundedText.check 1 2000 reply).toList.map fun text =>
        (⟨text, cited, none, false, false⟩ : ConclusionDraft))
      some (⟨drafts⟩ : ConclusionExtraction)

/-- A byte string with one byte for each letter. -/
def plainText (content : Bytes) : Text := content.map fun byte => Char.ofNat byte.toNat

/-- A platform on which replies and pages are read. -/
def Served.platform (served : Served) : Platform :=
  { Platform.plain with
    sha256 := fun content => (plainText content).take 64
    jsonLoads := fun text => some (.obj [("reply".toList, .str text)])
    validate := fun model value =>
      match value.get? "reply".toList with
      | some (.str reply) => served.read reply model
      | _ => none
    urlparse := fun _ => some ⟨"a.org".toList, some "a.org".toList⟩
    htmlBlocks := fun content => .ok ([plainText content], []) }

/-- The services of that platform. -/
def Served.services (served : Served) : PipelineServices where
  platform := served.platform
  settings := ⟨"cheap".toList, "strong".toList, 5, "a.org".toList, 0, "blobs".toList⟩

/-- An outside which answers every request, and the fate of the database steps. -/
def Served.outside (served : Served) (verdict : Nat → Durable.Verdict Vocabulary) :
    Environment Vocabulary where
  answer := fun n => fun
    | .provider .. => ProviderAnswer.response ⟨some (served.reply n), none⟩
    | .searchBackend .. => (.ok served.urls : Except PyError (List Text))
    | .httpGet _ => (.ok ⟨200, Bytes.encodeUtf8 served.page, "text/plain".toList⟩ :
        Except Text HttpResponse)
    | question => (quietOutside verdict).answer n question
  verdict

/-- Executions of the flow on a run which has just been submitted, each cut off after a number of
steps. -/
def Served.runs (served : Served) (cuts : List Nat) : Log Vocabulary × World :=
  simulateRuns (served.outside fun _ => .grant) (flowJob ⟨1⟩ served.services) cuts 0
    (World.submitted 1)

theorem Served.runs_history (served : Served) (cuts : List Nat) :
    HistoryWhere (flowJob ⟨1⟩) (fun services _ => services.platform = served.platform)
      (World.submitted 1) (served.runs cuts).1 (served.runs cuts).2 :=
  simulateRuns_history served.services (fun _ => rfl) _ cuts 0 _

end Ecrke
