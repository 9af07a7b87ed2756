import Ecrke.Pipeline.Checkpoint
import Ecrke.Services.ContradictionDetector
import Ecrke.Services.Extractor
import Ecrke.Services.Planner
import Ecrke.Services.ReportGenerator
import Ecrke.Services.ReportRenderer
import Ecrke.Services.Verifier

/-!
# The stage tasks

One program for each stage of the pipeline, in the order of their execution.

* `runDefine`, `runSearch`, `runCollect`, `runStore`, `runExtract`, `runVerify`, `runFind`,
  `runDetect`, `runConclude`, `runTrace` -- the tasks.
* `stageTasks` -- the task of each stage.
-/

namespace Ecrke

open Durable

/-- A finished stage. -/
def StageResult.success (stage : Stage) (detail : List (Text × Json)) : StageResult :=
  ⟨stage, true, some (.obj detail)⟩

/-- A count in the detail of a stage. -/
def countField (name : String) (count : Nat) : Text × Json := (name.toList, .int count)

/-! ## Define -/

/-- Stage 1: generate the research plan. -/
def runDefine (ctx : PipelineContext) : Action StageResult := do
  match ← getRun ctx.runId with
  | none => noRun ctx.runId
  | some run =>
      let plan ← plan ctx.services.gateway run.question ctx.runId
      pure <| .success .define
        [("plan_topic".toList, .str plan.topic.val),
          ("sub_questions".toList, plan.subQuestions.dump)]

/-! ## Search -/

/-- `list(plan.get("sub_questions") or [])` -/
def planQueries (plan : Json) : Except PyError (List Json) :=
  match plan.get? "sub_questions".toList with
  | none => .ok []
  | some value =>
      if value.truthy then
        match value.iter with
        | some items => .ok items
        | none => .error ⟨.typeError, "object is not iterable".toList⟩
      else .ok []

/-- Append the addresses which are not yet in a list. -/
def addUrls (urls found : List Text) : List Text :=
  found.foldl (fun urls uri => if uri ∈ urls then urls else urls ++ [uri]) urls

/-- Stage 2: one search for each sub-question of the plan. -/
def runSearch (ctx : PipelineContext) : Action StageResult := do
  match ← KVCache.get (planKey ctx.runId) with
  | none =>
      raiseError .valueError ("research_plan artifact missing for run_id=".toList ++
        ctx.runId.str ++ " (run the define stage first)".toList)
  | some plan =>
      let queries ← Prog.ofExcept (planQueries plan)
      let settings := ctx.services.settings
      let urls ← queries.foldlM (fun urls query => do
        let found ← search settings query settings.searchResultsLimit
        pure (addUrls urls found)) []
      pure <| .success .search [("urls".toList, .ofTexts urls)]

/-! ## Collect -/

/-- `_decode_content`: the last of the encodings accepts every byte string. -/
def decodeContent (content : Bytes) : Text :=
  match Bytes.decodeUtf8 content with
  | some text => text
  | none =>
      match Bytes.decodeUtf16 content with
      | some text => text
      | none => Bytes.decodeLatin1 content

/-- The arguments of `_record_source`. -/
structure CollectOutcome where
  uri : Text
  sourceType : SourceType
  status : SourceStatus
  allowlisted : Bool
  contentHashValue : Text
  rawRef : Option Text := none
  action : Text
  decision : Text
  reason : Option Text := none

/-- The source row of an outcome. -/
def CollectOutcome.source (outcome : CollectOutcome) (runId id : Uuid) : Source where
  id
  runId
  uri := outcome.uri
  title := none
  sourceType := outcome.sourceType
  contentHash := outcome.contentHashValue
  rawRef := outcome.rawRef
  allowlistedUri := outcome.allowlisted
  status := outcome.status

/-- The audit entry of an outcome. -/
def CollectOutcome.entry (outcome : CollectOutcome) (runId id : Uuid) : AuditEntry where
  runId
  entityType := "source".toList
  entityId := some id.str
  action := outcome.action
  actor := some "pipeline".toList
  decision := some outcome.decision
  reason := outcome.reason
  evidence := some (.obj [("uri".toList, .str outcome.uri)])

/-- `_record_source`: one source row with its audit row. -/
def recordSource (ctx : PipelineContext) (outcome : CollectOutcome) : Action Unit := do
  let id ← uuid4
  let audit ← auditAppend ctx.services.platform (outcome.entry ctx.runId id)
  commitWrites [.insertAuditTrace audit, .insertSource (outcome.source ctx.runId id)]

/-- What a loop over addresses has counted, and the blobs it has stored by content. -/
structure Collected where
  fetched : Nat := 0
  quarantined : Nat := 0
  failed : Nat := 0
  seenHashes : List (Text × Text) := []

/-- The addresses in the checkpoint of the search stage. -/
def checkpointUrls (runId : Uuid) (state : Option Json) : Except PyError (List Json) :=
  let missing : PyError := ⟨.valueError, "search checkpoint missing URLs for run_id=".toList ++
    runId.str ++ " (run the search stage first)".toList⟩
  match state.bind (Json.get? "urls".toList) with
  | none => .error missing
  | some urls =>
      if urls.truthy then
        match urls.iter with
        | some items => .ok items
        | none => .error ⟨.typeError, "object is not iterable".toList⟩
      else .error missing

/-- A local file, or an address which the allowlist lets pass; otherwise the reason. -/
def admitUri (ctx : PipelineContext) (uri : Text) : Except PyError (Option Text) :=
  let p := ctx.services.platform
  if Text.startsWith fileScheme uri then .ok none
  else match Allowlist.check p (Allowlist.fromSettings p.unicode ctx.services.settings) uri with
    | .ok () => .ok none
    | .error error =>
        if error.kind = .allowlistDeniedError then .ok (some error.message) else .error error

/-- Fetch an address; a `FetchError` is a result. -/
def tryFetch (ctx : PipelineContext) (uri : Text) : Action (Except Text FetchedContent) :=
  tryCatch
    (do
      let content ← fetch ctx.services.platform ctx.services.settings uri
      pure (Except.ok content))
    fun error =>
      if error.kind = .fetchError then pure (Except.error error.message) else throw error

/-- Store the content of an address, unless the same content is stored already. -/
def storeContent (ctx : PipelineContext) (hash : Text) (content : Bytes) (state : Collected) :
    Action (Text × Collected) := do
  let sourceId ← uuid4
  match state.seenHashes.find? fun entry => entry.1 = hash with
  | some entry => pure (entry.2, state)
  | none =>
      let rawRef := "runs/".toList ++ ctx.runId.str ++ "/sources/".toList ++ sourceId.str
      BlobStore.put rawRef content
      pure (rawRef, { state with seenHashes := state.seenHashes ++ [(hash, rawRef)] })

/-- Record fetched content, safe or not. -/
def recordContent (ctx : PipelineContext) (uri : Text) (content : FetchedContent)
    (state : Collected) : Action Collected := do
  let p := ctx.services.platform
  let hash := contentHash p content.content
  let contentKey := contentHash p (Bytes.encodeUtf8 (hash ++ ":".toList ++ uri))
  let sourceType := classifySource p.unicode content.contentType uri
  let decoded := decodeContent content.content
  if isUnsafe p.unicode decoded then
    recordSource ctx
      { uri, sourceType, status := .quarantined, allowlisted := true, contentHashValue := hash,
        action := "source.quarantined".toList, decision := "quarantined".toList,
        reason := some (unsafeReason p.unicode decoded) }
    pure { state with quarantined := state.quarantined + 1 }
  else
    let (rawRef, state) ← storeContent ctx hash content.content state
    recordSource ctx
      { uri, sourceType, status := .fetched, allowlisted := true, contentHashValue := contentKey,
        rawRef := some rawRef, action := "source.fetched".toList,
        decision := "fetched".toList }
    pure { state with fetched := state.fetched + 1 }

/-- Collect one address which the run has no source for. -/
def collectUri (ctx : PipelineContext) (uri : Text) (state : Collected) : Action Collected := do
  let uriHash := contentHash ctx.services.platform (Bytes.encodeUtf8 uri)
  match ← Prog.ofExcept (admitUri ctx uri) with
  | some reason =>
      recordSource ctx
        { uri, sourceType := .other, status := .quarantined, allowlisted := false,
          contentHashValue := uriHash, action := "source.quarantined".toList,
          decision := "quarantined".toList, reason := some reason }
      pure { state with quarantined := state.quarantined + 1 }
  | none =>
      match ← tryFetch ctx uri with
      | .error reason =>
          recordSource ctx
            { uri, sourceType := .other, status := .failed, allowlisted := true,
              contentHashValue := uriHash, action := "source.fetch_failed".toList,
              decision := "failed".toList, reason := some reason }
          pure { state with failed := state.failed + 1 }
      | .ok content => recordContent ctx uri content state

/-- Stage 3: collect every address of the search checkpoint. -/
def runCollect (ctx : PipelineContext) : Action StageResult := do
  let searchState ← CheckpointStore.load ctx.runId Stage.search.name
  let urls ← Prog.ofExcept (checkpointUrls ctx.runId searchState)
  let existing ← selectTables fun t =>
    (t.sources.filter fun s => s.runId = ctx.runId).map Source.uri
  let state ← urls.foldlM (fun state url =>
    match url with
    | .str uri => if uri ∈ existing then pure state else collectUri ctx uri state
    | _ => raiseError .attributeError "object has no attribute 'startswith'".toList)
    ({} : Collected)
  pure <| .success .collect [countField "fetched" state.fetched,
    countField "quarantined" state.quarantined, countField "failed" state.failed]

/-! ## Store -/

/-- The passages of the chunks which are not stored yet. -/
def newPassages (p : Platform) (sourceId : Uuid) (storedHashes : List Text)
    (chunks : List Chunk) : Action (List Passage) := do
  let passages ← chunks.zipIdx.mapM fun (chunk, seq) => do
    let hash := contentHash p (Bytes.encodeUtf8 chunk.text)
    if hash ∈ storedHashes then pure none
    else
      let id ← uuid4
      pure <| some
        { id, sourceId, seq, text := chunk.text, startChar := some chunk.startChar,
          endChar := some chunk.endChar, hash : Passage }
  pure (passages.filterMap id)

/-- Normalize one source; the passages and the status are one transaction. -/
def storeSource (ctx : PipelineContext) (storedHashes : List Text) (source : Source) :
    Action Nat := do
  let p := ctx.services.platform
  let content ← BlobStore.get p ctx.services.settings (source.rawRef.getD [])
  let text ← Prog.ofExcept (normalize p source.sourceType content)
  let chunks := chunkPassages text
  let passages ← newPassages p source.id storedHashes chunks
  let current ← selectTables fun t => findRow Source.id source.id t.sources
  let status : List Write := match current with
    | some current =>
        if current.status = .normalized then [] else [.updateSource source.id .normalized]
    | none => []
  commitWrites (passages.map .insertPassage ++ status)
  pure chunks.length

/-- Stage 4: normalize and chunk every fetched source. -/
def runStore (ctx : PipelineContext) : Action StageResult := do
  let rows ← selectRows fun t => t.sources.filter fun s => s.runId = ctx.runId
  let sources := rows.filter fun s => s.status = .fetched
  if sources.isEmpty then return .success .store [countField "passages" 0]
  let storedHashes ← selectTables fun t =>
    (t.passages.filter fun p => sources.any fun s => s.id = p.sourceId).map Passage.hash
  let total ← sources.foldlM (fun total source => do
    let count ← storeSource ctx storedHashes source
    pure (total + count)) 0
  return .success .store [countField "passages" total]

/-! ## Extract -/

/-- `MAX_EXTRACT_PASSAGES` -/
def maxExtractPassages : Nat := 10

/-- `EXTRACT_DELAY_SECONDS` -/
def extractDelaySeconds : ℚ := 5

/-- `statement.passage_id` and `statement.text` of the statements of a run. -/
def extractedKeys (runId : Uuid) (t : Tables) : List (Uuid × Text) :=
  (t.statements.filter fun s => s.runId = runId).map fun s => (s.passageId, s.text)

/-- Extract one passage, unless the run has a statement with its key. -/
def extractPassage (ctx : PipelineContext) (existing : List (Uuid × Text)) (count : Nat)
    (entry : Passage × Nat) : Action Nat := do
  let (passage, index) := entry
  if 0 < index then sleep extractDelaySeconds else pure ()
  if (passage.id, passage.text) ∈ existing then pure count
  else
    let statements ← extract ctx.services.gateway passage ctx.runId
    pure (count + statements.length)

/-- Stage 5: draft statements from the first passages. -/
def runExtract (ctx : PipelineContext) : Action StageResult := do
  let sourceIds ← selectTables fun t =>
    (t.sources.filter fun s => s.runId = ctx.runId && s.status = .normalized).map Source.id
  if sourceIds.isEmpty then return .success .extract [countField "statements" 0]
  let allPassages ← selectRows fun t => t.passages.filter fun p => p.sourceId ∈ sourceIds
  let existing ← selectTables (extractedKeys ctx.runId)
  let passages := allPassages.take maxExtractPassages
  -- The result of the SELECT is used up by its first pass; the second one finds no passage.
  let skipped : Int := 0 - passages.length
  let count ← passages.zipIdx.foldlM (extractPassage ctx existing) 0
  return .success .extract ([countField "statements" count] ++
    if skipped = 0 then [] else [("skipped_passages".toList, .int skipped)])

/-! ## Verify -/

/-- `MAX_VERIFY` -/
def maxVerify : Nat := 25

/-- Verify one draft, unless its passage is missing. -/
def verifyStatement (ctx : PipelineContext) (passages : List Passage) (count : Nat)
    (entry : Statement × Nat) : Action Nat := do
  let (statement, index) := entry
  if 0 < index then sleep 5 else pure ()
  match findRow Passage.id statement.passageId passages with
  | none => pure count
  | some passage =>
      let _ ← verify ctx.services.gateway statement passage ctx.runId
      pure (count + 1)

/-- Stage 6: verify the first drafts. -/
def runVerify (ctx : PipelineContext) : Action StageResult := do
  let sourceIds ← selectTables fun t =>
    (t.sources.filter fun s => s.runId = ctx.runId).map Source.id
  let passages ← if sourceIds.isEmpty then pure []
    else selectTables fun t => t.passages.filter fun p => p.sourceId ∈ sourceIds
  let statements ← selectRows fun t => t.statements.filter fun s => s.runId = ctx.runId
  let allDrafts := statements.filter fun s => s.status = .draft
  let drafts := allDrafts.take maxVerify
  let count ← drafts.zipIdx.foldlM (verifyStatement ctx passages) 0
  pure <| .success .verify ([countField "verified" count] ++
    if drafts.length = allDrafts.length then []
    else [countField "skipped" (allDrafts.length - drafts.length)])

/-! ## Find -/

/-- The best score of a statement among its verify links. -/
def bestScore (statementId : Uuid) (links : List EvidenceLink) : EvidenceScore :=
  let scores := (links.filter fun l =>
    l.statementId = statementId && l.method = some "verify".toList).map EvidenceLink.score
  if .full ∈ scores then .full else if .partial_ ∈ scores then .partial_ else .none

/-- `_TIER_BY_BEST` of the best score of a group. -/
def tierOf (scores : List EvidenceScore) : EvidenceTier :=
  if .full ∈ scores then .t1 else if .partial_ ∈ scores then .t2 else .t3

/-- `domains.setdefault(domain, []).append(statement)` -/
def addToDomain (domain : Text) (statement : Statement) :
    List (Text × List Statement) → List (Text × List Statement)
  | [] => [(domain, [statement])]
  | (other, group) :: rest =>
      if other = domain then (other, group ++ [statement]) :: rest
      else (other, group) :: addToDomain domain statement rest

/-- `urlparse(uri).netloc or "unknown"` -/
def netlocOf (p : Platform) (uri : Text) : Except PyError Text :=
  match p.urlparse uri with
  | none => .error ⟨.valueError, "Invalid URL".toList⟩
  | some parsed => .ok (if parsed.netloc.isEmpty then "unknown".toList else parsed.netloc)

/-- The statements by the domain of their source. -/
def groupByDomain (p : Platform) (sources : List Source) (passages : List Passage)
    (statements : List Statement) : Except PyError (List (Text × List Statement)) :=
  statements.foldlM (fun domains statement =>
    match findRow Passage.id statement.passageId passages with
    | none => .ok domains
    | some passage => do
        let uri := ((findRow Source.id passage.sourceId sources).map Source.uri).getD []
        let domain ← netlocOf p uri
        pure (addToDomain domain statement domains)) []

/-- Persist the finding of one domain. -/
def recordFinding (ctx : PipelineContext) (links : List EvidenceLink)
    (group : Text × List Statement) : Action Unit := do
  let (domain, statements) := group
  let id ← uuid4
  let finding : Finding :=
    { id, runId := ctx.runId, title := "Evidence cluster: ".toList ++ domain,
      evidenceTier := tierOf (statements.map fun s => bestScore s.id links),
      domainTags := [domain],
      summary := Text.ofNat statements.length ++ " verified statement(s) from ".toList ++ domain }
  commitWrites (.insertFinding finding ::
    statements.map fun s => .insertFindingStatement ⟨id, s.id⟩)

/-- Stage 7: group the verified statements by domain. -/
def runFind (ctx : PipelineContext) : Action StageResult := do
  let sources ← selectTables fun t => t.sources.filter fun s => s.runId = ctx.runId
  let passages ← if sources.isEmpty then pure []
    else selectTables fun t => t.passages.filter fun p => sources.any fun s => s.id = p.sourceId
  let rows ← selectRows fun t => t.statements.filter fun s => s.runId = ctx.runId
  let links ← selectTables fun t => t.evidenceLinks.filter fun l => l.runId = ctx.runId
  let domains ← Prog.ofExcept (groupByDomain ctx.services.platform sources passages
    (rows.filter fun s => s.status = .verified))
  domains.forM (recordFinding ctx links)
  pure <| .success .find [countField "findings" domains.length]

/-! ## Detect -/

/-- `MAX_DETECT_STATEMENTS` -/
def maxDetectStatements : Nat := 15

/-- Stage 8: detect contradictions among the first verified statements. -/
def runDetect (ctx : PipelineContext) : Action StageResult := do
  let rows ← selectRows fun t => t.statements.filter fun s => s.runId = ctx.runId
  let verified := rows.filter fun s => s.status = .verified
  let contradictions ←
    detect ctx.services.gateway (verified.take maxDetectStatements) ctx.runId
  pure <| .success .detect ([countField "contradictions" contradictions.length] ++
    if maxDetectStatements < verified.length then [countField "capped_from" verified.length]
    else [])

/-! ## Conclude -/

/-- The most statements a report is made from. -/
def maxConcludeStatements : Nat := 30

/-- Stage 9: synthesize the report and store it. -/
def runConclude (ctx : PipelineContext) : Action StageResult := do
  let p := ctx.services.platform
  match ← getRun ctx.runId with
  | none => noRun ctx.runId
  | some run =>
      let rows ← selectRows fun t => t.statements.filter fun s => s.runId = ctx.runId
      let verified := (rows.filter fun s => s.status = .verified).take maxConcludeStatements
      let contradictions ← selectRows fun t =>
        t.contradictions.filter fun c => c.runId = ctx.runId
      let confirmed := contradictions.filter fun c => c.status = .confirmed
      let report ← generate ctx.services.gateway ctx.runId run.question verified confirmed
      let markdownRef := "runs/".toList ++ ctx.runId.str ++ "/reports/report.md".toList
      BlobStore.put markdownRef (Bytes.encodeUtf8 (renderMarkdown p.isoformat report))
      pure <| .success .conclude
        [("report".toList, report.dump p.isoformat),
          ("report_markdown_ref".toList, .str markdownRef),
          countField "conclusions" report.conclusions.length,
          countField "contradictions" confirmed.length]

/-! ## Trace -/

/-- `_TRACE_TTL_SECONDS` -/
def traceTtlSeconds : Int := 30 * 24 * 60 * 60

/-- An audit row as it is exported. -/
def dumpAudit (p : Platform) (row : AuditTrace) : Json :=
  redactJson p.unicode (.obj
    [("id".toList, .str row.id.str), ("entity_type".toList, .str row.entityType),
      ("entity_id".toList, .ofText? row.entityId), ("action".toList, .str row.action),
      ("actor".toList, .ofText? row.actor), ("decision".toList, .ofText? row.decision),
      ("reason".toList, .ofText? row.reason), ("evidence".toList, row.evidence.getD .null),
      ("ts".toList, .str (p.isoformat row.ts))])

/-- Mark the run as completed. -/
def finalizeRun (runId : Uuid) : Action Unit := do
  match ← getRun runId with
  | none => pure ()
  | some run =>
      let completedAt ← now
      commitWrites (run.updates
        { run with
          stage := some "done".toList, status := .completed, progress := 1,
          completedAt := some completedAt })

/-- Stage 10: export the audit trail and the report, and finalize the run. -/
def runTrace (ctx : PipelineContext) : Action StageResult := do
  let p := ctx.services.platform
  match ← getRun ctx.runId with
  | none => noRun ctx.runId
  | some run =>
      let auditRows ← selectRows fun t => t.auditTrace.filter fun a => a.runId = ctx.runId
      let concludeState ← CheckpointStore.load ctx.runId Stage.conclude.name
      let report := (concludeState.bind (Json.get? "report".toList)).getD .null
      let artifact := "trace:".toList ++ ctx.runId.str
      KVCache.set p artifact "pipeline/trace".toList "trace-stage".toList
        [("run_id".toList, .str ctx.runId.str),
          ("question".toList, redactJson p.unicode (.str run.question)),
          ("audit_trace".toList, .arr (auditRows.map (dumpAudit p))),
          ("report".toList, report)]
        (some traceTtlSeconds)
      finalizeRun ctx.runId
      pure <| .success .trace [("artifact".toList, .str artifact)]

/-- `_STAGE_TASKS` -/
def stageTasks : Stage → PipelineContext → Action StageResult
  | .define => runDefine
  | .search => runSearch
  | .collect => runCollect
  | .store => runStore
  | .extract => runExtract
  | .verify => runVerify
  | .find => runFind
  | .detect => runDetect
  | .conclude => runConclude
  | .trace => runTrace

end Ecrke
