import Ecrke.Api.Routes
import Ecrke.Guarantees.Clusters

/-!
# Three notions of a source domain

The find stage groups statements by the `netloc` of their source, the report generator labels them
with its host, and the fallback of the API with its `netloc` again, each with a substitute of its own
where there is none.  They are one notion on addresses whose `netloc` is a bare host.

* `ComesFrom` -- the address of the source of a statement.
* `PlainUrl`, `domain_eq_iff` -- where the fallback and the report agree.
* `OneNotion`, `domains_agree_iff` -- where all three agree on two addresses.
* `domains_differ` -- two files in one finding.
-/

namespace Ecrke

open Durable

/-- The address of the source which a statement comes from. -/
def ComesFrom (t : Tables) (statement : Statement) (uri : Text) : Prop :=
  ∃ passage ∈ t.passages, passage.id = statement.passageId ∧
    ∃ source ∈ t.sources, source.id = passage.sourceId ∧ source.uri = uri

/-- Both statements are linked to one of the findings. -/
def SameFinding (findings : List Finding) (links : List FindingStatement)
    (statement other : Statement) : Prop :=
  ∃ f ∈ findings, ⟨f.id, statement.id⟩ ∈ links ∧ ⟨f.id, other.id⟩ ∈ links

/-- As documented, `hostname` is read off `netloc`: without one there is no host. -/
def HostsNamed (p : Platform) : Prop :=
  ∀ uri parsed, p.urlparse uri = some parsed → parsed.netloc = [] → parsed.hostname = none

/-- The `netloc` is the host itself, or has none; without a `netloc` there is no slash. -/
def PlainUrl (uri : Text) (parsed : ParsedUrl) : Prop :=
  if parsed.netloc = [] then '/' ∉ uri
  else ∀ hostname, parsed.hostname = some hostname → hostname = [] ∨ hostname = parsed.netloc

/-- Two plain addresses whose substitutes do not get in the way. -/
structure OneNotion (uri other : Text) (parsed parsed' : ParsedUrl) : Prop where
  plain : PlainUrl uri parsed
  plain' : PlainUrl other parsed'
  neither : parsed.netloc = [] → parsed'.netloc = [] → uri = other
  first : parsed.netloc ≠ [] → parsed'.netloc = [] →
    (parsed.netloc = "unknown".toList ↔ parsed.netloc = other)
  second : parsed.netloc = [] → parsed'.netloc ≠ [] →
    (parsed'.netloc = "unknown".toList ↔ parsed'.netloc = uri)

/-! ## Labels -/

section Labels

variable {p : Platform} {uri : Text} {parsed : ParsedUrl}

theorem netlocOf_eq (hParsed : p.urlparse uri = some parsed) :
    netlocOf p uri = .ok (if parsed.netloc = [] then "unknown".toList else parsed.netloc) := by
  simp only [netlocOf, hParsed, List.isEmpty_iff]

theorem domain_eq (hParsed : p.urlparse uri = some parsed) : Routes.domain p uri =
    .ok (if parsed.netloc = [] then uri.takeWhile (· != '/') else parsed.netloc) := by
  simp [Routes.domain, hParsed]

/-- The label of the report where there is no `netloc`. -/
theorem sourceDomain_of_nil (hHosts : HostsNamed p) (hParsed : p.urlparse uri = some parsed)
    (hNil : parsed.netloc = []) : sourceDomain p uri = .ok uri := by
  have hNone := hHosts uri parsed hParsed hNil
  simp [sourceDomain, hParsed, hNone, hNil]

/-- The label of the report where there is one. -/
theorem sourceDomain_of_netloc (hParsed : p.urlparse uri = some parsed)
    (hNetloc : parsed.netloc ≠ []) : sourceDomain p uri = .ok parsed.netloc ↔
      ∀ hostname, parsed.hostname = some hostname → hostname = [] ∨ hostname = parsed.netloc := by
  unfold sourceDomain
  rw [hParsed]
  obtain ⟨netloc, host⟩ := parsed
  have hNot : netloc ≠ [] := hNetloc
  cases host with
  | none => simp [hNot]
  | some hostname =>
      by_cases hNil : hostname = []
      · simp [hNil, hNot]
      · simp [hNil]

/-- The fallback labels a source as the report does just where its address is plain. -/
theorem domain_eq_iff (hHosts : HostsNamed p) (hParsed : p.urlparse uri = some parsed) :
    Routes.domain p uri = sourceDomain p uri ↔ PlainUrl uri parsed := by
  rw [domain_eq hParsed, PlainUrl]
  by_cases hNil : parsed.netloc = []
  · rw [sourceDomain_of_nil hHosts hParsed hNil, if_pos hNil, if_pos hNil, Except.ok.injEq,
      List.takeWhile_eq_self_iff]
    constructor
    · intro hAll hSlash
      simpa using hAll '/' hSlash
    · intro hSlash c hc
      have hNot : c ≠ '/' := fun hEq => hSlash (hEq ▸ hc)
      simpa using hNot
  · rw [if_neg hNil, if_neg hNil, eq_comm, sourceDomain_of_netloc hParsed hNil]

/-- The label of the report for a plain address. -/
theorem sourceDomain_of_plain (hHosts : HostsNamed p) (hParsed : p.urlparse uri = some parsed)
    (h : PlainUrl uri parsed) :
    sourceDomain p uri = .ok (if parsed.netloc = [] then uri else parsed.netloc) := by
  by_cases hNil : parsed.netloc = []
  · rw [sourceDomain_of_nil hHosts hParsed hNil, if_pos hNil]
  · rw [PlainUrl, if_neg hNil] at h
    rw [(sourceDomain_of_netloc hParsed hNil).mpr h, if_neg hNil]

/-- The find stage and the report agree on two plain addresses just where no substitute is in the
way. -/
theorem netlocOf_iff_sourceDomain {other : Text} {parsed' : ParsedUrl} (hHosts : HostsNamed p)
    (hParsed : p.urlparse uri = some parsed) (hParsed' : p.urlparse other = some parsed')
    (h : PlainUrl uri parsed) (h' : PlainUrl other parsed') :
    (netlocOf p uri = netlocOf p other ↔ sourceDomain p uri = sourceDomain p other) ↔
      OneNotion uri other parsed parsed' := by
  have hWhole : OneNotion uri other parsed parsed' ↔
      (parsed.netloc = [] → parsed'.netloc = [] → uri = other) ∧
      (parsed.netloc ≠ [] → parsed'.netloc = [] →
        (parsed.netloc = "unknown".toList ↔ parsed.netloc = other)) ∧
      (parsed.netloc = [] → parsed'.netloc ≠ [] →
        (parsed'.netloc = "unknown".toList ↔ parsed'.netloc = uri)) :=
    ⟨fun hOne => ⟨hOne.neither, hOne.first, hOne.second⟩, fun hAll => ⟨h, h', hAll.1, hAll.2.1, hAll.2.2⟩⟩
  rw [hWhole, netlocOf_eq hParsed, netlocOf_eq hParsed', sourceDomain_of_plain hHosts hParsed h,
    sourceDomain_of_plain hHosts hParsed' h']
  simp only [Except.ok.injEq]
  by_cases hNil : parsed.netloc = [] <;> by_cases hNil' : parsed'.netloc = []
  · simp [hNil, hNil']
  · simp only [hNil, hNil', if_true, if_false, ne_eq, not_true, not_false_eq_true, false_imp_iff,
      true_imp_iff, true_and]
    rw [eq_comm, eq_comm (a := uri)]
  · simp [hNil, hNil']
  · simp [hNil, hNil']

end Labels

/-! ## Findings and labels -/

section Clusters

variable {p : Platform} {runId : Uuid} {t : Tables} {findings : List Finding}
  {links : List FindingStatement} {a b : Statement} {uri other : Text}

/-- The tag of a finding is the `netloc` for each statement which is linked to it. -/
theorem Clustering.tag (h : Clustering p runId t findings links) (hValid : t.Valid)
    (ha : Clustered runId t a) (hUri : ComesFrom t a uri) {f : Finding} (hf : f ∈ findings)
    (hLink : ⟨f.id, a.id⟩ ∈ links) :
    ∃ domain, netlocOf p uri = .ok domain ∧ f.domainTags = [domain] := by
  obtain ⟨domain, ⟨passage, hPassage, hId, source, hSource, hSourceId, hDomain⟩, hTags⟩ :=
    h.placed f hf a ha hLink
  obtain ⟨passage', hPassage', hId', source', hSource', hSourceId', rfl⟩ := hUri
  obtain rfl := hValid.passagesKey.eq hPassage hPassage' (hId.trans hId'.symm)
  obtain rfl := hValid.sourcesKey.eq hSource hSource' (hSourceId.trans hSourceId'.symm)
  exact ⟨domain, hDomain, hTags⟩

/-- The address of a clustered statement has been parsed. -/
theorem Clustering.parsed (h : Clustering p runId t findings links) (hValid : t.Valid)
    (ha : Clustered runId t a) (hUri : ComesFrom t a uri) :
    ∃ parsed, p.urlparse uri = some parsed := by
  obtain ⟨f, ⟨hf, hLink⟩, -⟩ := h.linked a ha
  obtain ⟨domain, hDomain, -⟩ := h.tag hValid ha hUri hf hLink
  unfold netlocOf at hDomain
  cases hParsed : p.urlparse uri with
  | none =>
      rw [hParsed] at hDomain
      cases hDomain
  | some parsed => exact ⟨parsed, rfl⟩

/-- Two clustered statements are in the same finding if their sources have the same `netloc`. -/
theorem Clustering.sameFinding_iff (h : Clustering p runId t findings links) (hValid : t.Valid)
    (ha : Clustered runId t a) (hb : Clustered runId t b) (hUri : ComesFrom t a uri)
    (hOther : ComesFrom t b other) :
    SameFinding findings links a b ↔ netlocOf p uri = netlocOf p other := by
  constructor
  · rintro ⟨f, hf, hLinkA, hLinkB⟩
    obtain ⟨domain, hDomain, hTags⟩ := h.tag hValid ha hUri hf hLinkA
    obtain ⟨domain', hDomain', hTags'⟩ := h.tag hValid hb hOther hf hLinkB
    rw [hTags] at hTags'
    rw [hDomain, hDomain', (List.cons.inj hTags').1]
  · intro hSame
    obtain ⟨f, ⟨hf, hLinkA⟩, -⟩ := h.linked a ha
    obtain ⟨g, ⟨hg, hLinkB⟩, -⟩ := h.linked b hb
    obtain ⟨domain, hDomain, hTags⟩ := h.tag hValid ha hUri hf hLinkA
    obtain ⟨domain', hDomain', hTags'⟩ := h.tag hValid hb hOther hg hLinkB
    rw [hDomain, hDomain', Except.ok.injEq] at hSame
    have hEq : f = g := by
      refine List.inj_on_of_nodup_map h.domains hf hg ?_
      rw [hTags, hTags', hSame]
    exact ⟨f, hf, hLinkA, hEq ▸ hLinkB⟩

end Clusters

/-- For two clustered statements of an execution of the find stage: they are in one finding just if
the report labels their sources alike, and the fallback labels both as the report does, if and only
if the two addresses are plain and their substitutes are not in the way. -/
theorem domains_agree_iff {ctx : PipelineContext} {s t : World} {log : Log Vocabulary}
    {result : StageResult} (hHosts : HostsNamed ctx.services.platform)
    (h : Exec (runFind ctx) s log (.done result) t) :
    ∃ findings links, t.tables = { s.tables with
        findings := s.tables.findings ++ findings
        findingStatements := s.tables.findingStatements ++ links } ∧
      ∀ a b uri other, Clustered ctx.runId s.tables a → Clustered ctx.runId s.tables b →
        ComesFrom s.tables a uri → ComesFrom s.tables b other →
        ∃ parsed parsed', ctx.services.platform.urlparse uri = some parsed ∧
          ctx.services.platform.urlparse other = some parsed' ∧
          (((SameFinding findings links a b ↔
              sourceDomain ctx.services.platform uri = sourceDomain ctx.services.platform other) ∧
            Routes.domain ctx.services.platform uri = sourceDomain ctx.services.platform uri ∧
            Routes.domain ctx.services.platform other = sourceDomain ctx.services.platform other) ↔
          OneNotion uri other parsed parsed') := by
  obtain ⟨findings, links, hTables, hClustering, -⟩ := runFind_clusters h
  refine ⟨findings, links, hTables, fun a b uri other ha hb hUri hOther => ?_⟩
  obtain ⟨parsed, hParsed⟩ := hClustering.parsed s.db.valid ha hUri
  obtain ⟨parsed', hParsed'⟩ := hClustering.parsed s.db.valid hb hOther
  refine ⟨parsed, parsed', hParsed, hParsed', ?_⟩
  rw [hClustering.sameFinding_iff s.db.valid ha hb hUri hOther, domain_eq_iff hHosts hParsed,
    domain_eq_iff hHosts hParsed']
  constructor
  · rintro ⟨hSame, hPlain, hPlain'⟩
    exact (netlocOf_iff_sourceDomain hHosts hParsed hParsed' hPlain hPlain').mp hSame
  · intro hOne
    exact ⟨(netlocOf_iff_sourceDomain hHosts hParsed hParsed' hOne.plain hOne.plain').mpr hOne,
      hOne.plain, hOne.plain'⟩

/-! ## Two files -/

/-- A platform which parses the addresses of files: they have neither a `netloc` nor a host. -/
def Platform.files : Platform := { Platform.plain with urlparse := fun _ => some ⟨[], none⟩ }

/-- The services of the platform. -/
def PipelineServices.files : PipelineServices := { PipelineServices.plain with platform := .files }

/-- The source of a file. -/
def fileSource (n : Nat) (uri : Text) : Source :=
  ⟨⟨BitVec.ofNat 128 n⟩, ⟨1⟩, uri, none, .web, uri, none, true, .normalized⟩

/-- Its one passage, and the one statement of this. -/
def filePassage (n : Nat) : Passage :=
  ⟨⟨BitVec.ofNat 128 (n + 1)⟩, ⟨BitVec.ofNat 128 n⟩, 0, "a b c".toList, none, none, "h".toList⟩
def fileStatement (n : Nat) : Statement :=
  { Statement.noted (n + 2) "a b".toList .verified with passageId := ⟨BitVec.ofNat 128 (n + 1)⟩ }

/-- A run with statements from two files. -/
def Tables.files : Tables :=
  { Tables.single (.submitted 1) [] with
    sources := [fileSource 2 "file:///a".toList, fileSource 5 "file:///b".toList]
    passages := [filePassage 2, filePassage 5]
    statements := [fileStatement 2, fileStatement 5] }

theorem Tables.files_valid : Tables.files.Valid := by
  constructor <;> simp [Tables.files, Tables.single, Run.submitted, Run.Checks, Keyed, Refers,
    fileSource, filePassage, fileStatement, Statement.noted]

/-- The world of the run. -/
def World.files : World where
  db := ⟨.files, Tables.files_valid⟩
  blobs := []
  memory := ⟨[], [], ⟨[], [], []⟩⟩

/-- Its find stage. -/
def findFiles : Log Vocabulary × Action StageResult × World :=
  simulate (quietOutside fun _ => .grant) 20 0 (runFind ⟨⟨1⟩, .files⟩) .files

theorem findFiles_facts : findFiles.2.1.returned.isSome = true ∧
    findFiles.2.2.tables.findings.length = 1 ∧
    findFiles.2.2.tables.findingStatements.map FindingStatement.statementId =
      [(fileStatement 2).id, (fileStatement 5).id] := by
  decide

theorem findFiles_exec : ∃ result,
    Exec (runFind ⟨⟨1⟩, .files⟩) .files findFiles.1 (.done result) findFiles.2.2 := by
  obtain ⟨result, hResult⟩ := Option.isSome_iff_exists.mp findFiles_facts.1
  exact ⟨result, Prog.eq_done hResult ▸ simulate_exec _ _ _ _ _⟩

theorem files_hosts : HostsNamed Platform.files := by
  rintro uri parsed ⟨⟩ -
  rfl

/-- The statement of a file belongs to a cluster, and its source is the file. -/
theorem files_clustered :
    (Clustered ⟨1⟩ World.files.tables (fileStatement 2) ∧
      ComesFrom World.files.tables (fileStatement 2) "file:///a".toList) ∧
    Clustered ⟨1⟩ World.files.tables (fileStatement 5) ∧
      ComesFrom World.files.tables (fileStatement 5) "file:///b".toList := by
  have hTables : World.files.tables = Tables.files := rfl
  rw [hTables]
  refine ⟨⟨⟨⟨?_, rfl, rfl⟩, filePassage 2, rfl, ?_, fileSource 2 "file:///a".toList, ?_, rfl, rfl⟩,
    filePassage 2, ?_, rfl, fileSource 2 "file:///a".toList, ?_, rfl, rfl⟩,
    ⟨⟨?_, rfl, rfl⟩, filePassage 5, rfl, ?_, fileSource 5 "file:///b".toList, ?_, rfl, rfl⟩,
    filePassage 5, ?_, rfl, fileSource 5 "file:///b".toList, ?_, rfl, rfl⟩ <;> simp [Tables.files]

/-- The statements of both files are in one finding.  The report tells the files apart, and the
fallback has one more label for them. -/
theorem domains_differ : ∃ result,
    Exec (runFind ⟨⟨1⟩, .files⟩) .files findFiles.1 (.done result) findFiles.2.2 ∧
    SameFinding findFiles.2.2.tables.findings findFiles.2.2.tables.findingStatements
      (fileStatement 2) (fileStatement 5) ∧
    sourceDomain .files "file:///a".toList ≠ sourceDomain .files "file:///b".toList ∧
    Routes.domain .files "file:///a".toList ≠ sourceDomain .files "file:///a".toList := by
  have hLabels : sourceDomain .files "file:///a".toList ≠ sourceDomain .files "file:///b".toList ∧
      Routes.domain .files "file:///a".toList ≠ sourceDomain .files "file:///a".toList := by
    simp [sourceDomain, Routes.domain, Platform.files]
  obtain ⟨result, hExec⟩ := findFiles_exec
  refine ⟨result, hExec, ?_, hLabels⟩
  · obtain ⟨findings, links, hTables, hClustering, -⟩ := runFind_clusters hExec
    obtain ⟨⟨hA, hFromA⟩, hB, hFromB⟩ := files_clustered
    have hNetloc (uri : Text) : netlocOf Platform.files uri = .ok "unknown".toList := rfl
    have hSame := hClustering.sameFinding_iff World.files.db.valid hA hB hFromA hFromB
    obtain ⟨f, hf, hLinkA, hLinkB⟩ := hSame.mpr ((hNetloc _).trans (hNetloc _).symm)
    rw [hTables]
    exact ⟨f, List.mem_append_right _ hf, List.mem_append_right _ hLinkA,
      List.mem_append_right _ hLinkB⟩

/-- So no address of a file is plain. -/
theorem domains_agree_iff_files : ∃ findings links,
    findFiles.2.2.tables = { World.files.tables with
      findings := World.files.tables.findings ++ findings
      findingStatements := World.files.tables.findingStatements ++ links } ∧
    (((SameFinding findings links (fileStatement 2) (fileStatement 5) ↔
        sourceDomain .files "file:///a".toList = sourceDomain .files "file:///b".toList) ∧
      Routes.domain .files "file:///a".toList = sourceDomain .files "file:///a".toList ∧
      Routes.domain .files "file:///b".toList = sourceDomain .files "file:///b".toList) ↔
    OneNotion "file:///a".toList "file:///b".toList ⟨[], none⟩ ⟨[], none⟩) := by
  obtain ⟨result, hExec⟩ := findFiles_exec
  obtain ⟨⟨hA, hFromA⟩, hB, hFromB⟩ := files_clustered
  obtain ⟨findings, links, hTables, hAgree⟩ := domains_agree_iff files_hosts hExec
  obtain ⟨parsed, parsed', hParsed, hParsed', hIff⟩ := hAgree _ _ _ _ hA hB hFromA hFromB
  cases hParsed
  cases hParsed'
  exact ⟨findings, links, hTables, hIff⟩

end Ecrke
