import Ecrke.Durable.Unhindered
import Ecrke.Guarantees.CollectKeys
import Ecrke.Services.Redaction
import Ecrke.Text.Splitting

/-!
# Collecting an address

The stage records one source with one audit row for an address, whatever is behind it, unless the
address stops it: because it is no URL, because the reason for which it is refused is too long for
the audit trail, or because its key is taken.

* `Answers` -- what the outside has under each address.
* `refusal`, `collectEnd` -- why an address is not fetched, and what collecting it comes to.
* `Collects` -- an address does not stop the stage.
* `fetch_unhindered` -- what a fetch ends in.
* `recordSource_unhindered` -- an outcome is recorded, unless its reason is too long or its key is
  taken.
* `collectUri_unhindered` -- an address is recorded, unless it stops the stage.
-/

namespace Ecrke

open Durable

/-! ## What collecting an address comes to -/

/-- What the outside has: the answers to requests, and local files. -/
structure Answers where
  page : Text → Except Text HttpResponse
  file : Text → Option Bytes

/-- An identifier which no source and no audit row has. -/
def Unused (t : Tables) (id : Uuid) : Prop :=
  (∀ source ∈ t.sources, source.id ≠ id) ∧ ∀ row ∈ t.auditTrace, row.id ≠ id

/-- The outside answers with what it has, and with new identifiers. -/
def Answers.Gives (o : Answers) (m : Moment Vocabulary) : Prop :=
  match m.happening with
  | .asked .uuid4 id => Unused m.before.tables id
  | .asked (.httpGet uri) answer => answer = o.page uri
  | .asked (.readFile path) answer => answer = .ok (o.file path)
  | _ => True

/-- What a fetch comes to: content, or the text of a `FetchError`. -/
def Answers.fetched (o : Answers) (u : Unicode) (uri : Text) : Except Text Bytes :=
  if Text.startsWith fileScheme uri then
    match o.file (uri.drop fileScheme.length) with
    | none => .error ("local file ".toList ++ Text.repr u uri ++ " not found".toList)
    | some content => .ok content
  else
    let failed := "fetch ".toList ++ Text.repr u uri ++ " failed".toList
    match o.page uri with
    | .error message => .error (failed ++ ": ".toList ++ message)
    | .ok response =>
        if response.statusCode ≠ 200 then
          .error (failed ++ " with status ".toList ++ Text.ofNat response.statusCode)
        else .ok response.content

/-- Why nothing is fetched: the allowlist denies the address, or the fetch fails. -/
def refusal (ctx : PipelineContext) (o : Answers) (uri : Text) : Option Text :=
  match admitUri ctx uri with
  | .error _ => none
  | .ok (some reason) => some reason
  | .ok none =>
      match o.fetched ctx.services.platform.unicode uri with
      | .error reason => some reason
      | .ok _ => none

/-- What collecting an address comes to. -/
def collectEnd (ctx : PipelineContext) (o : Answers) (uri : Text) : CollectEnd :=
  match admitUri ctx uri with
  | .ok none => .ofFetch ctx.services.platform
      (o.fetched ctx.services.platform.unicode uri).toOption
  | _ => .unfetched

/-- The bytes whose hash is the key of the source for an address. -/
def collectKey (ctx : PipelineContext) (o : Answers) (uri : Text) : Bytes :=
  (collectEnd ctx o uri).keyBytes ctx.services.platform uri

/-- No source of the run has the key. -/
def KeyFree (runId : Uuid) (key : Text) (t : Tables) : Prop :=
  ∀ source ∈ t.sources, source.runId = runId → source.contentHash ≠ key

/-- By itself an address does not stop the stage: it is a URL, if it is one of the network; the
reason for which it is refused fits into the audit trail; and its key is free. -/
structure Collects (ctx : PipelineContext) (o : Answers) (uri : Text) (t : Tables) : Prop where
  url : Text.startsWith fileScheme uri = false → ctx.services.platform.urlparse uri ≠ none
  reason : ∀ reason ∈ refusal ctx o uri, reason.length ≤ maxReasonLen
  free : KeyFree ctx.runId (contentHash ctx.services.platform (collectKey ctx o uri)) t

/-- What is assumed of the hash: it is that of SHA-256 in hexadecimal digits, without collisions
among the keys. -/
structure Digests (p : Platform) (keys : List Bytes) : Prop where
  length : ∀ content, (p.sha256 content).length = 64
  noColon : ∀ content, ':' ∉ p.sha256 content
  injective : ∀ key ∈ keys, ∀ other ∈ keys, p.sha256 key = p.sha256 other → key = other

/-! ## Fetching -/

section Fetching

variable {ctx : PipelineContext} {o : Answers} {s : World} {α β : Type}

/-- A quiet program which raises nothing, in front of others. -/
theorem Unhindered.skip {given : Moment Vocabulary → Prop} {Q : Except PyError β → World → Prop}
    {program : Action α} {rest : α → Action β} (hQuiet : Keeps Quiet program)
    (hRaises : Raises (fun _ => False) program)
    (hRest : ∀ value t, t.db = s.db → Unhindered given Q (rest value) t) :
    Unhindered given Q (program.bind rest) s := by
  have hAlone : Alone Quiet (fun _ t => t.db = s.db) program s :=
    Alone.quiet (fun _ h => h) hQuiet fun _ _ h => h
  have hBoth : Unhindered given _ program s := Unhindered.of_alone (hAlone.both (hRaises s))
  refine Unhindered.bind _ hBoth (fun value t ht => hRest value t ht.1) ?_
  exact fun error t ht => (ht.2 error rfl).elim

/-- A fetch behind the gate: it leaves the database alone. -/
def Fetched (o : Answers) (u : Unicode) (uri : Text) (s : World) :
    Except PyError FetchedContent → World → Prop
  | .ok content, t => t.db = s.db ∧ o.fetched u uri = .ok content.content
  | .error error, t =>
      t.db = s.db ∧ error.kind = .fetchError ∧ o.fetched u uri = .error error.message

theorem fetchFile_unhindered {p : Platform} {uri connector : Text}
    (hFile : Text.startsWith fileScheme uri = true) :
    Unhindered o.Gives (Fetched o p.unicode uri s) (fetchFile p uri connector) s := by
  refine Unhindered.query fun answer hGiven => ?_
  obtain rfl : answer = .ok (o.file (uri.drop fileScheme.length)) := hGiven
  cases hFound : o.file (uri.drop fileScheme.length) with
  | none =>
      refine ⟨rfl, rfl, ?_⟩
      rw [Answers.fetched, if_pos hFile, hFound]
  | some content =>
      change Unhindered _ _ (now.bind _) s
      refine Unhindered.skip quiet_now (raises_query _) fun time t ht => ?_
      refine Unhindered.skip (quiet_modifyMemory _) (raises_modify _) fun _ u hu => ?_
      refine Unhindered.skip quiet_now (raises_query _) fun later v hv => ?_
      refine ⟨hv.trans (hu.trans ht), ?_⟩
      rw [Answers.fetched, if_pos hFile, hFound]

theorem fetchHttp_unhindered {p : Platform} {uri connector : Text}
    (hFile : Text.startsWith fileScheme uri = false) :
    Unhindered o.Gives (Fetched o p.unicode uri s) (fetchHttp p uri connector) s := by
  have hRemote : ¬ Text.startsWith fileScheme uri = true := by
    rw [hFile]
    exact Bool.false_ne_true
  refine Unhindered.query fun answer hGiven => ?_
  obtain rfl : answer = o.page uri := hGiven
  cases hFound : o.page uri with
  | error message =>
      refine ⟨rfl, rfl, ?_⟩
      rw [Answers.fetched, if_neg hRemote, hFound]
  | ok response =>
      change Unhindered _ _ (now.bind _) s
      refine Unhindered.skip quiet_now (raises_query _) fun time t ht => ?_
      refine Unhindered.skip (quiet_modifyMemory _) (raises_modify _) fun _ u hu => ?_
      refine Unhindered.ite (fun hStatus => ?_) fun hStatus => ?_
      · refine ⟨hu.trans ht, rfl, ?_⟩
        rw [Answers.fetched, if_neg hRemote, hFound]
        dsimp only
        rw [if_pos hStatus]
      · refine Unhindered.skip quiet_now (raises_query _) fun later v hv => ?_
        refine ⟨hv.trans (hu.trans ht), ?_⟩
        rw [Answers.fetched, if_neg hRemote, hFound]
        dsimp only
        rw [if_neg hStatus]

/-- A fetch of an address which the gate lets pass. -/
theorem fetch_unhindered {uri connector : Text} (hAdmit : admitUri ctx uri = .ok none) :
    Unhindered o.Gives (Fetched o ctx.services.platform.unicode uri s)
      (fetch ctx.services.platform ctx.services.settings uri connector) s := by
  -- What follows the gate.
  have hRest {program : Action FetchedContent}
      (h : ∀ t : World,
        Unhindered o.Gives (Fetched o ctx.services.platform.unicode uri t) program t) :
      Unhindered o.Gives (Fetched o ctx.services.platform.unicode uri s)
        ((awaitRateLimit ctx.services.settings connector).bind fun _ => program) s := by
    refine Unhindered.skip (quiet_awaitRateLimit _ _) (raises_awaitRateLimit _ _) fun _ t ht => ?_
    refine (h t).post ?_
    rintro (error | content) u hu
    · exact ⟨hu.1.trans ht, hu.2⟩
    · exact ⟨hu.1.trans ht, hu.2⟩
  unfold fetch
  by_cases hFile : Text.startsWith fileScheme uri = true
  · simp only [hFile, if_true]
    exact hRest fun t => fetchFile_unhindered hFile
  · have hFalse : Text.startsWith fileScheme uri = false := Bool.eq_false_iff.mpr hFile
    simp only [hFalse]
    have hCheck : Allowlist.check ctx.services.platform
        (Allowlist.fromSettings ctx.services.platform.unicode ctx.services.settings) uri =
          .ok () := by
      unfold admitUri at hAdmit
      dsimp only at hAdmit
      rw [if_neg hFile] at hAdmit
      split at hAdmit
      · assumption
      · split at hAdmit
        · cases hAdmit
        · cases hAdmit
    rw [hCheck]
    exact hRest fun t => fetchHttp_unhindered hFalse

/-- A guarded fetch, whose `FetchError` is not caught yet. -/
def Guarded (o : Answers) (u : Unicode) (uri : Text) (s : World) :
    Except PyError (Except Text FetchedContent) → World → Prop
  | .ok found, t => t.db = s.db ∧ found.map FetchedContent.content = o.fetched u uri
  | .error error, t =>
      t.db = s.db ∧ error.kind = .fetchError ∧ o.fetched u uri = .error error.message

/-- A guarded fetch raises nothing. -/
theorem tryFetch_unhindered {uri : Text} (hAdmit : admitUri ctx uri = .ok none) :
    Unhindered o.Gives (fun r t => t.db = s.db ∧ ∃ found, r = .ok found ∧
      found.map FetchedContent.content = o.fetched ctx.services.platform.unicode uri)
      (tryFetch ctx uri) s := by
  refine Unhindered.tryCatch (Guarded o ctx.services.platform.unicode uri s) ?_
    (fun found t h => ⟨h.1, found, rfl, h.2⟩) ?_
  · exact Unhindered.bind _ (fetch_unhindered hAdmit) (fun content t ht => ⟨ht.1, ht.2.symm⟩)
      fun error t ht => ht
  · rintro error t ⟨hDb, hKind, hFetched⟩
    refine Unhindered.ite (fun _ => ⟨hDb, _, rfl, ?_⟩) fun hOther => absurd hKind hOther
    rw [hFetched]
    rfl

end Fetching

/-! ## Recording -/

/-- The texts with which the stage labels its outcomes. -/
def collectLabels : List Text :=
  ["source".toList, "pipeline".toList, "source.quarantined".toList, "source.fetched".toList,
    "source.fetch_failed".toList, "quarantined".toList, "fetched".toList, "failed".toList]

/-- Redaction leaves the labels alone.  One of them has the underscore of a GitHub token, but none
has a `g`. -/
theorem redactSecrets_label (u : Unicode) {label : Text} (h : label ∈ collectLabels) :
    redactSecrets u label = label := by
  have hNeeds : ∀ entry ∈ secretPatterns u, Regex.Needs (fun c => c ∈ "kzgK:=".toList) entry.1 :=
    secretPatterns_needs_letters u (by decide) (by decide) (.inr (by decide)) (by decide)
      (by decide) (by decide)
  have hNone : ∀ label ∈ collectLabels, ∀ c ∈ label, c ∉ "kzgK:=".toList := by
    have hAll : (collectLabels.all fun label =>
        label.all fun c => !"kzgK:=".toList.contains c) = true := by rfl
    simpa [List.all_eq_true] using hAll
  apply SecretFree.redactSecrets_eq
  exact fun entry hEntry => Regex.absent_of_needs (hNeeds entry hEntry) (hNone label h)

/-- An outcome with labels of the stage, and with values which fit into their columns. -/
structure CollectOutcome.Usual (outcome : CollectOutcome) : Prop where
  action : outcome.action ∈ collectLabels
  decision : outcome.decision ∈ collectLabels
  hash : outcome.contentHashValue.length ≤ 64
  rawRef : ∀ ref ∈ outcome.rawRef, ref.length ≤ 512

/-- What an outcome is recorded on: a reason which is short enough, and a key which is free. -/
def Recordable (outcome : CollectOutcome) (runId : Uuid) (t : Tables) : Prop :=
  (∀ reason ∈ outcome.reason, reason.length ≤ maxReasonLen) ∧
    KeyFree runId outcome.contentHashValue t

/-- The source of an address and the audit row about it. -/
structure Entered (runId : Uuid) (uri key : Text) (row : Source × AuditTrace) : Prop where
  isUri : row.1.uri = uri
  isRun : row.1.runId = runId
  isKey : row.1.contentHash = key
  auditRun : row.2.runId = runId
  entity : row.2.entityId = some row.1.id.str

/-- The tables with sources and audit rows behind the others. -/
def Tables.entered (t : Tables) (rows : List (Source × AuditTrace)) : Tables :=
  { t with
    sources := t.sources ++ rows.map Prod.fst
    auditTrace := t.auditTrace ++ rows.map Prod.snd }

@[simp] theorem Tables.entered_nil (t : Tables) : t.entered [] = t := by
  simp [entered]

theorem Tables.entered_append (t : Tables) (rows others : List (Source × AuditTrace)) :
    t.entered (rows ++ others) = (t.entered rows).entered others := by
  simp [entered]

/-- What recording an outcome ends in: its rows, or an exception. -/
def RecordEnd (outcome : CollectOutcome) (runId : Uuid) (s : World) :
    Except PyError Unit → World → Prop
  | .ok _, t => Recordable outcome runId s.tables ∧
      ∃ row, Entered runId outcome.uri outcome.contentHashValue row ∧
        t.tables = s.tables.entered [row]
  | .error _, _ => ¬ Recordable outcome runId s.tables

section Recording

variable {outcome : CollectOutcome} {runId : Uuid}

theorem CollectOutcome.Usual.labelled (h : outcome.Usual) (runId id : Uuid) :
    (outcome.entry runId id).Labelled := by
  have hAction : ∀ label ∈ collectLabels, requireString label "action" = .ok () := by
    simp only [collectLabels, List.forall_mem_cons]
    exact ⟨rfl, rfl, rfl, rfl, rfl, rfl, rfl, rfl, by simp⟩
  have hDecision : ∀ label ∈ collectLabels, optionalString (some label) "decision" = .ok () := by
    simp only [collectLabels, List.forall_mem_cons]
    exact ⟨rfl, rfl, rfl, rfl, rfl, rfl, rfl, rfl, by simp⟩
  exact ⟨rfl, hAction _ h.action, optionalString_uuid _ _, rfl, hDecision _ h.decision⟩

/-- The checks of the audit writer come down to the length of the reason. -/
theorem CollectOutcome.Usual.check_iff (h : outcome.Usual) (runId id : Uuid) :
    (outcome.entry runId id).check = .ok () ↔
      ∀ reason ∈ outcome.reason, reason.length ≤ maxReasonLen := by
  cases hReason : outcome.reason with
  | some reason =>
      have hEntry : (outcome.entry runId id).reason = some reason := hReason
      rw [AuditEntry.check_iff (h.labelled runId id) hEntry]
      simp
  | none =>
      have hEntry : (outcome.entry runId id).reason = none := hReason
      obtain ⟨hType, hAction, hId, hActor, hDecision⟩ := h.labelled runId id
      simp [AuditEntry.check, hType, hAction, hId, hActor, hDecision, hEntry, bind, Except.bind]

/-- The database accepts the audit row of an outcome, if its identifier is new. -/
theorem CollectOutcome.Usual.audit_accepted (h : outcome.Usual) (u : Unicode) (id : Uuid)
    (ts : Instant) {t : Tables} {auditId : Uuid} (hRun : ∃ run ∈ t.runs, run.id = runId)
    (hId : ∀ row ∈ t.auditTrace, row.id ≠ auditId) :
    Write.violation t (.insertAuditTrace ((outcome.entry runId id).row u auditId ts)) = none := by
  have hShort : ∀ label ∈ collectLabels, exceeds 64 label = false := by decide
  have hType : redactSecrets u "source".toList = "source".toList :=
    redactSecrets_label u (by decide)
  have hActor : redactSecrets u "pipeline".toList = "pipeline".toList :=
    redactSecrets_label u (by decide)
  refine firstViolation_none.mpr ?_
  simp only [List.forall_mem_cons, AuditEntry.row, CollectOutcome.entry, Option.map_some,
    Option.any_some, hType, hActor, redactSecrets_label u h.action,
    redactSecrets_label u h.decision, redactSecrets_uuid, hShort _ h.action, hShort _ h.decision]
  refine ⟨?_, ?_, by decide, ?_, trivial, by decide, trivial, by simp⟩
  · simpa using hId
  · simpa [dangling] using hRun
  · simp [exceeds, Uuid.length_str]

/-- The database accepts the source of an outcome just if its key is free. -/
theorem CollectOutcome.Usual.source_accepted (h : outcome.Usual) {t : Tables} {id : Uuid}
    (hRun : ∃ run ∈ t.runs, run.id = runId) (hId : ∀ source ∈ t.sources, source.id ≠ id) :
    Write.violation t (.insertSource (outcome.source runId id)) = none ↔
      KeyFree runId outcome.contentHashValue t := by
  have hHash : exceeds 64 outcome.contentHashValue = false := by
    simpa [exceeds] using h.hash
  have hRef : outcome.rawRef.any (exceeds 512) = false := by
    cases hFound : outcome.rawRef with
    | none => rfl
    | some ref => simpa [exceeds] using h.rawRef ref hFound
  have hForeign : dangling Run.id runId t.runs = false := by simpa [dangling] using hRun
  have hTaken : (t.sources.any fun s => (s.runId, s.contentHash) =
      (runId, outcome.contentHashValue)) = false ↔ KeyFree runId outcome.contentHashValue t := by
    simp [KeyFree]
  have hNew : (t.sources.any fun s => s.id = id) = false := by
    simpa only [List.any_eq_false, decide_eq_true_eq] using hId
  refine firstViolation_none.trans ?_
  simp only [List.forall_mem_cons]
  constructor
  · rintro ⟨-, hFree, -⟩
    exact hTaken.mp hFree
  · intro hFree
    exact ⟨hNew, hTaken.mpr hFree, hForeign, rfl, hHash, hRef, by simp⟩

variable {ctx : PipelineContext} {o : Answers} {s : World}

/-- The rows of an outcome. -/
theorem entered_outcome (u : Unicode) (outcome : CollectOutcome) (runId id auditId : Uuid)
    (ts : Instant) : Entered runId outcome.uri outcome.contentHashValue
      (outcome.source runId id, (outcome.entry runId id).row u auditId ts) :=
  ⟨rfl, rfl, rfl, rfl, congrArg some (redactSecrets_uuid _ id)⟩

/-- A transaction is carried out, or some write is not accepted. -/
theorem Unhindered.commitWrites {given : Moment Vocabulary → Prop}
    {Q : Except PyError Unit → World → Prop} {writes : List Write}
    (hOk : ∀ t : World, s.tables.Accepts writes → t.tables = s.tables.after writes → Q (.ok ()) t)
    (hError : ∀ error, ¬ s.tables.Accepts writes → Q (.error error) s) :
    Unhindered given Q (commitWrites writes) s := by
  refine Unhindered.commit ?_ ?_
  · intro value t hRun
    refine hOk t (Database.applyAll_isOk.mp ?_) (applied_tables hRun)
    cases hWrites : s.db.applyAll writes with
    | ok db => exact ⟨db, rfl⟩
    | error error =>
        rw [hWrites] at hRun
        cases hRun
  · intro error hRun
    refine hError error fun hAccepts => ?_
    obtain ⟨db, hDb⟩ := Database.applyAll_isOk.mpr hAccepts
    rw [hDb] at hRun
    cases hRun

/-- An outcome is recorded just if its reason is short enough and its key is free. -/
theorem recordSource_unhindered (h : outcome.Usual)
    (hRun : ∃ run ∈ s.tables.runs, run.id = ctx.runId) :
    Unhindered o.Gives (RecordEnd outcome ctx.runId s) (recordSource ctx outcome) s := by
  refine Unhindered.query fun (id : Uuid) hNew => ?_
  have hId : Unused s.tables id := hNew
  unfold auditAppend
  cases hCheck : (outcome.entry ctx.runId id).check with
  | error error =>
      intro hRecordable
      rw [(h.check_iff ctx.runId id).mpr hRecordable.1] at hCheck
      cases hCheck
  | ok value =>
      have hReason := (h.check_iff ctx.runId id).mp hCheck
      refine Unhindered.query fun (auditId : Uuid) hNewAudit => ?_
      have hAuditId : Unused s.tables auditId := hNewAudit
      refine Unhindered.query fun (ts : Instant) _ => ?_
      have hAudit := h.audit_accepted ctx.services.platform.unicode id ts hRun hAuditId.2
      have hEntered := entered_outcome ctx.services.platform.unicode outcome ctx.runId id auditId ts
      refine Unhindered.commitWrites ?_ ?_
      · rintro t ⟨-, hSource, -⟩ hTables
        refine ⟨⟨hReason, (h.source_accepted hRun hId.1).mp hSource⟩, _, hEntered, ?_⟩
        rw [hTables]
        simp [Tables.after, Write.effect, Tables.entered]
      · intro error hRejects hRecordable
        exact hRejects ⟨hAudit, (h.source_accepted hRun hId.1).mpr hRecordable.2, trivial⟩

end Recording

/-! ## Collecting -/

theorem unsafeReason_length (u : Unicode) (text : Text) :
    (unsafeReason u text).length ≤ maxReasonLen := by
  have hAll : ∀ categories ∈ (unsafeTerms.map Prod.fst).sublists,
      ("content flagged as unsafe: ".toList ++ Text.join ", ".toList categories).length ≤
        maxReasonLen := by
    decide
  unfold unsafeReason
  dsimp only
  split
  · decide
  · apply hAll
    exact List.mem_sublists.mpr (List.filter_sublist.map _)

/-- The references which the loop keeps fit into their column. -/
def ShortRefs (state : Collected) : Prop := ∀ entry ∈ state.seenHashes, entry.2.length ≤ 512

/-- What storing content ends in. -/
def Stored (s : World) : Except PyError (Text × Collected) → World → Prop
  | .ok (ref, state), t => t.db = s.db ∧ ref.length ≤ 512 ∧ ShortRefs state
  | .error _, _ => False

/-- What collecting an address ends in: its rows, or an exception. -/
def CollectUriEnd (ctx : PipelineContext) (o : Answers) (uri : Text) (s : World) :
    Except PyError Collected → World → Prop
  | .ok state, t => Collects ctx o uri s.tables ∧ ShortRefs state ∧
      ∃ row, Entered ctx.runId uri (contentHash ctx.services.platform (collectKey ctx o uri)) row ∧
        t.tables = s.tables.entered [row]
  | .error _, _ => ¬ Collects ctx o uri s.tables

section Collecting

variable {ctx : PipelineContext} {o : Answers} {s : World} {uri : Text}

theorem put_unhindered {given : Moment Vocabulary → Prop} (ref : Text) (content : Bytes) :
    Unhindered given (fun r t => r = .ok () ∧ t.db = s.db) (BlobStore.put ref content) s := by
  refine Unhindered.select ?_
  refine Unhindered.ite (fun _ => ⟨rfl, rfl⟩) fun _ => ?_
  refine Unhindered.commit ?_ ?_
  · rintro value t ⟨⟩
    exact ⟨rfl, rfl⟩
  · rintro error ⟨⟩

theorem storeContent_unhindered {given : Moment Vocabulary → Prop} {state : Collected}
    (h : ShortRefs state) (hash : Text) (content : Bytes) :
    Unhindered given (Stored s) (storeContent ctx hash content state) s := by
  refine Unhindered.query fun (id : Uuid) _ => ?_
  cases hFound : state.seenHashes.find? fun entry => entry.1 = hash with
  | some entry =>
      exact ⟨rfl, h entry (List.mem_of_find?_eq_some hFound), h⟩
  | none =>
      have hLength :
          ("runs/".toList ++ ctx.runId.str ++ "/sources/".toList ++ id.str).length ≤ 512 := by
        simp [Uuid.length_str]
      refine Unhindered.bind _ (put_unhindered _ content) ?_ ?_
      · rintro _ t ⟨-, ht⟩
        refine ⟨ht, hLength, ?_⟩
        intro entry hEntry
        rcases List.mem_append.mp hEntry with hOld | hNew
        · exact h entry hOld
        · rw [List.mem_singleton.mp hNew]
          exact hLength
      · rintro error t ⟨⟨⟩, -⟩

/-- The gate raises just for an address of the network which is no URL. -/
theorem admitUri_error {error : PyError} (h : admitUri ctx uri = .error error) :
    Text.startsWith fileScheme uri = false ∧ ctx.services.platform.urlparse uri = none := by
  unfold admitUri at h
  dsimp only at h
  split at h
  · cases h
  · rename_i hRemote
    refine ⟨Bool.eq_false_iff.mpr hRemote, ?_⟩
    split at h
    · cases h
    · rename_i other hCheck
      split at h
      · cases h
      · rename_i hKind
        by_contra hParse
        obtain ⟨parsed, hParsed⟩ := Option.ne_none_iff_exists'.mp hParse
        simp only [Allowlist.check, hParsed] at hCheck
        split at hCheck
        · cases hCheck
          exact hKind rfl
        · cases hCheck

theorem admitUri_ok {refused : Option Text} (h : admitUri ctx uri = .ok refused)
    (hRemote : Text.startsWith fileScheme uri = false) :
    ctx.services.platform.urlparse uri ≠ none := by
  intro hParse
  simp [admitUri, hRemote, Allowlist.check, hParse] at h

/-- A program which records an outcome and nothing more. -/
theorem recordOutcome_unhindered {outcome : CollectOutcome} {state : Collected}
    {program : Action Collected}
    (hProgram : program = (recordSource ctx outcome).bind fun _ => .done state)
    (hRun : ∃ run ∈ s.tables.runs, run.id = ctx.runId)
    (hUrl : Text.startsWith fileScheme uri = false → ctx.services.platform.urlparse uri ≠ none)
    (hUsual : outcome.Usual) (hUri : outcome.uri = uri)
    (hKey : outcome.contentHashValue = contentHash ctx.services.platform (collectKey ctx o uri))
    (hReason : (∀ reason ∈ outcome.reason, reason.length ≤ maxReasonLen) ↔
      ∀ reason ∈ refusal ctx o uri, reason.length ≤ maxReasonLen)
    (hState : ShortRefs state) {t : World} (hDb : t.db = s.db) :
    Unhindered o.Gives (CollectUriEnd ctx o uri s) program t := by
  have hTables : t.tables = s.tables := congrArg Database.tables hDb
  subst hUri hProgram
  refine Unhindered.bind _ (recordSource_unhindered hUsual (by rw [hTables]; exact hRun)) ?_ ?_
  · rintro _ u ⟨⟨hFits, hFree⟩, row, hRow, hRows⟩
    rw [hKey, hTables] at hFree
    rw [hKey] at hRow
    rw [hTables] at hRows
    exact ⟨⟨hUrl, hReason.mp hFits, hFree⟩, hState, row, hRow, hRows⟩
  · intro error u hNot hCollects
    refine hNot ⟨hReason.mpr hCollects.reason, ?_⟩
    rw [hKey, hTables]
    exact hCollects.free

/-- An address is collected, unless it stops the stage. -/
theorem collectUri_unhindered
    (hHash : ∀ content, (ctx.services.platform.sha256 content).length = 64)
    (hRun : ∃ run ∈ s.tables.runs, run.id = ctx.runId) {state : Collected}
    (hState : ShortRefs state) :
    Unhindered o.Gives (CollectUriEnd ctx o uri s) (collectUri ctx uri state) s := by
  have hLength (content : Bytes) : (contentHash ctx.services.platform content).length ≤ 64 :=
    (hHash content).le
  unfold collectUri
  cases hAdmit : admitUri ctx uri with
  | error error =>
      obtain ⟨hRemote, hParse⟩ := admitUri_error hAdmit
      exact fun hCollects => hCollects.url hRemote hParse
  | ok refused =>
      have hUrl := admitUri_ok hAdmit
      cases refused with
      | some reason =>
          have hKey : collectKey ctx o uri = Bytes.encodeUtf8 uri := by
            rw [collectKey, collectEnd, hAdmit]
            rfl
          have hRefusal : refusal ctx o uri = some reason := by rw [refusal, hAdmit]
          refine recordOutcome_unhindered rfl hRun hUrl ?_ ?_ ?_ ?_ ?_ ?_
          · exact ⟨by simp [collectLabels], by simp [collectLabels], hLength _, by simp⟩
          · rfl
          · rw [hKey]
          · rw [hRefusal]
          · exact hState
          · rfl
      | none =>
          change Unhindered _ _ ((tryFetch ctx uri).bind _) s
          refine Unhindered.bind _ (tryFetch_unhindered hAdmit) ?_ ?_
          · rintro value t ⟨hDb, found, hFound, hFetched⟩
            cases hFound
            cases value with
            | error reason =>
                have hReason : o.fetched ctx.services.platform.unicode uri = .error reason :=
                  hFetched.symm
                have hKey : collectKey ctx o uri = Bytes.encodeUtf8 uri := by
                  rw [collectKey, collectEnd, hAdmit, hReason]
                  rfl
                have hRefusal : refusal ctx o uri = some reason := by rw [refusal, hAdmit, hReason]
                refine recordOutcome_unhindered rfl hRun hUrl ?_ ?_ ?_ ?_ ?_ ?_
                · exact ⟨by simp [collectLabels], by simp [collectLabels], hLength _, by simp⟩
                · rfl
                · rw [hKey]
                · rw [hRefusal]
                · exact hState
                · exact hDb
            | ok content =>
                have hContent : o.fetched ctx.services.platform.unicode uri = .ok content.content :=
                  hFetched.symm
                have hRefusal : refusal ctx o uri = none := by rw [refusal, hAdmit, hContent]
                have hEnd : collectEnd ctx o uri =
                    .ofFetch ctx.services.platform (some content.content) := by
                  rw [collectEnd, hAdmit, hContent]
                  rfl
                refine Unhindered.ite (fun hUnsafe => ?_) fun hSafe => ?_
                · refine recordOutcome_unhindered rfl hRun hUrl ?_ ?_ ?_ ?_ ?_ ?_
                  · exact ⟨by simp [collectLabels], by simp [collectLabels], hLength _, by simp⟩
                  · rfl
                  · rw [collectKey, hEnd, CollectEnd.ofFetch, if_pos hUnsafe]
                    rfl
                  · simp [hRefusal, unsafeReason_length]
                  · exact hState
                  · exact hDb
                · refine Unhindered.bind _ (storeContent_unhindered hState _ _) ?_
                    fun _ _ h => h.elim
                  rintro ⟨ref, state'⟩ u ⟨hSame, hRef, hState'⟩
                  refine recordOutcome_unhindered rfl hRun hUrl ?_ ?_ ?_ ?_ ?_ ?_
                  · exact ⟨by simp [collectLabels], by simp [collectLabels], hLength _,
                      by simpa using hRef⟩
                  · rfl
                  · rw [collectKey, hEnd, CollectEnd.ofFetch, if_neg hSafe]
                    rfl
                  · simp [hRefusal]
                  · exact hState'
                  · exact hSame.trans hDb
          · rintro error t ⟨-, found, hNever, -⟩
            cases hNever

end Collecting

end Ecrke
