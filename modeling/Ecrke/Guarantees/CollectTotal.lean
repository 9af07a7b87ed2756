import Ecrke.Guarantees.Collectable

/-!
# When collecting comes to its end

A task of the stage returns and leaves one source and one audit row for each address, unless some
address stops it, by itself or because two addresses come to one key.

* `Unobstructed`, `Collectable` -- no address stops the stage.
* `OneRowEach` -- the rows which the stage leaves.
* `unobstructed_snoc` -- one more address.
* `runCollect_unhindered` -- what the stage ends in.
* `collect_total_iff` -- when a task of the stage returns.
-/

namespace Ecrke

open Durable

/-! ## Addresses which do not stop the stage -/

/-- The addresses for which the run has no source. -/
def pendingUris (runId : Uuid) (uris : List Text) (t : Tables) : List Text :=
  uris.filter fun uri => uri ∉ (t.sources.filter fun s => s.runId = runId).map Source.uri

/-- No address stops the stage, neither by itself nor because two of them come to one key. -/
structure Unobstructed (ctx : PipelineContext) (o : Answers) (uris : List Text) (t : Tables) :
    Prop where
  each : ∀ uri ∈ uris, Collects ctx o uri t
  apart : ∀ uri ∈ uris, ∀ other ∈ uris, uri ≠ other →
    ¬ Clash ctx.services.platform uri (collectEnd ctx o uri) other (collectEnd ctx o other)

/-- There are addresses, and those which are left do not stop the stage. -/
structure Collectable (ctx : PipelineContext) (o : Answers) (uris : List Text) (t : Tables) :
    Prop where
  some : uris ≠ []
  pending : Unobstructed ctx o (pendingUris ctx.runId uris t) t

/-! ## The loop -/

/-- One source and one audit row for each address, behind the rows which were there. -/
def OneRowEach (ctx : PipelineContext) (o : Answers) (uris : List Text) (s t : Tables) : Prop :=
  ∃ rows : List (Source × AuditTrace), t = s.entered rows ∧ rows.map (fun row => row.1.uri) = uris ∧
    ∀ row ∈ rows, Entered ctx.runId row.1.uri
      (contentHash ctx.services.platform (collectKey ctx o row.1.uri)) row

section Loop

variable {ctx : PipelineContext} {o : Answers} {uris : List Text} {uri other : Text}
  {s t u : Tables} {keys : List Bytes}

/-- Different addresses have the same key just if they clash. -/
theorem contentHash_eq_iff (hKeys : Digests ctx.services.platform keys)
    (hUri : collectKey ctx o uri ∈ keys) (hOther : collectKey ctx o other ∈ keys)
    (hNe : uri ≠ other) :
    contentHash ctx.services.platform (collectKey ctx o uri) =
        contentHash ctx.services.platform (collectKey ctx o other) ↔
      Clash ctx.services.platform uri (collectEnd ctx o uri) other (collectEnd ctx o other) ∨
      Clash ctx.services.platform other (collectEnd ctx o other) uri (collectEnd ctx o uri) := by
  rw [← keyBytes_eq hKeys.noColon hNe]
  constructor
  · intro hSame
    exact hKeys.injective _ hUri _ hOther hSame
  · intro hSame
    exact congrArg _ hSame

theorem OneRowEach.nil : OneRowEach ctx o [] s s := ⟨[], by simp, rfl, by simp⟩

theorem OneRowEach.snoc (h : OneRowEach ctx o uris s t) {row : Source × AuditTrace}
    (hRow : Entered ctx.runId uri (contentHash ctx.services.platform (collectKey ctx o uri)) row)
    (hTables : u = t.entered [row]) : OneRowEach ctx o (uris ++ [uri]) s u := by
  obtain ⟨rows, rfl, rfl, hRows⟩ := h
  have hUri := hRow.isUri
  subst hUri hTables
  refine ⟨rows ++ [row], (s.entered_append rows [row]).symm, by simp, ?_⟩
  intro other hOther
  rcases List.mem_append.mp hOther with hOld | hNew
  · exact hRows other hOld
  · rw [List.mem_singleton.mp hNew]
    exact hRow

/-- The keys which are taken are those which were, and those of the addresses. -/
theorem OneRowEach.keyFree_iff (h : OneRowEach ctx o uris s t) (key : Text) :
    KeyFree ctx.runId key t ↔ KeyFree ctx.runId key s ∧
      ∀ uri ∈ uris, contentHash ctx.services.platform (collectKey ctx o uri) ≠ key := by
  obtain ⟨rows, rfl, rfl, hRows⟩ := h
  constructor
  · intro hFree
    constructor
    · exact fun source hSource => hFree source (List.mem_append_left _ hSource)
    · intro uri hUri
      obtain ⟨row, hRow, rfl⟩ := List.mem_map.mp hUri
      rw [← (hRows row hRow).isKey]
      exact hFree row.1 (List.mem_append_right _ (List.mem_map_of_mem hRow)) (hRows row hRow).isRun
  · rintro ⟨hOld, hNew⟩ source hSource hRun
    rcases List.mem_append.mp hSource with hMem | hMem
    · exact hOld source hMem hRun
    · obtain ⟨row, hRow, rfl⟩ := List.mem_map.mp hMem
      rw [(hRows row hRow).isKey]
      exact hNew _ (List.mem_map_of_mem hRow)

theorem Unobstructed.nil : Unobstructed ctx o [] s := ⟨by simp, by simp⟩

theorem Unobstructed.mono {others : List Text} (h : Unobstructed ctx o uris s)
    (hSub : others ⊆ uris) : Unobstructed ctx o others s :=
  ⟨fun uri hUri => h.each uri (hSub hUri),
    fun uri hUri other hOther => h.apart uri (hSub hUri) other (hSub hOther)⟩

/-- Behind addresses which are collected, the next one does not stop the stage if it does not by
itself in the state which they leave. -/
theorem unobstructed_snoc (hKeys : Digests ctx.services.platform keys)
    (hMem : ∀ other ∈ uris ++ [uri], collectKey ctx o other ∈ keys) (hNew : uri ∉ uris)
    (h : OneRowEach ctx o uris s t) : Unobstructed ctx o (uris ++ [uri]) s ↔
      Unobstructed ctx o uris s ∧ Collects ctx o uri t := by
  have hSame (other : Text) (hOther : other ∈ uris) :=
    contentHash_eq_iff hKeys (hMem other (List.mem_append_left _ hOther)) (hMem uri (by simp))
      (fun hEq => hNew (hEq ▸ hOther))
  constructor
  · intro hAll
    refine ⟨hAll.mono (List.subset_append_left _ _), ?_⟩
    obtain ⟨hUrl, hReason, hFree⟩ := hAll.each uri (by simp)
    refine ⟨hUrl, hReason, (h.keyFree_iff _).mpr ⟨hFree, ?_⟩⟩
    intro other hOther hHash
    have hNe : other ≠ uri := fun hEq => hNew (hEq ▸ hOther)
    have hIn : other ∈ uris ++ [uri] := List.mem_append_left _ hOther
    rcases (hSame other hOther).mp hHash with hClash | hClash
    · exact hAll.apart other hIn uri (by simp) hNe hClash
    · exact hAll.apart uri (by simp) other hIn hNe.symm hClash
  · rintro ⟨hOld, hUrl, hReason, hFree⟩
    obtain ⟨hFreeOld, hOthers⟩ := (h.keyFree_iff _).mp hFree
    have hClash (other : Text) (hOther : other ∈ uris) := fun hEither =>
      hOthers other hOther ((hSame other hOther).mpr hEither)
    constructor
    · intro other hOther
      rcases List.mem_append.mp hOther with hIn | hLast
      · exact hOld.each other hIn
      · rw [List.mem_singleton.mp hLast]
        exact ⟨hUrl, hReason, hFreeOld⟩
    · intro first hFirst second hSecond hNe
      rcases List.mem_append.mp hFirst with hIn | hLast
      · rcases List.mem_append.mp hSecond with hIn' | hLast'
        · exact hOld.apart first hIn second hIn' hNe
        · rw [List.mem_singleton.mp hLast']
          exact fun h => hClash first hIn (.inl h)
      · rw [List.mem_singleton.mp hLast] at hNe ⊢
        rcases List.mem_append.mp hSecond with hIn' | hLast'
        · exact fun h => hClash second hIn' (.inr h)
        · exact absurd (List.mem_singleton.mp hLast').symm hNe

end Loop

/-! ## The stage -/

/-- The checkpoint of the search stage holds these addresses. -/
def Searched (runId : Uuid) (uris : List Text) (t : Tables) : Prop :=
  ∃ state,
    (findCheckpoint runId Stage.search.name t.checkpoints).bind Checkpoint.state = some state ∧
    Json.get? "urls".toList state = some (.arr (uris.map Json.str))

/-- What the stage ends in: its rows, or an exception. -/
def CollectStageEnd (ctx : PipelineContext) (o : Answers) (uris : List Text) (s : World) :
    Except PyError StageResult → World → Prop
  | .ok _, t => Collectable ctx o uris s.tables ∧
      OneRowEach ctx o (pendingUris ctx.runId uris s.tables) s.tables t.tables
  | .error _, _ => ¬ Collectable ctx o uris s.tables

/-- The loop has collected some addresses, and others are left. -/
structure CollectedUpTo (ctx : PipelineContext) (o : Answers) (uris : List Text) (s : World)
    (done left : List Text) (state : Collected) (t : World) : Prop where
  short : ShortRefs state
  split : uris = done ++ left
  clear : Unobstructed ctx o (pendingUris ctx.runId done s.tables) s.tables
  rows : OneRowEach ctx o (pendingUris ctx.runId done s.tables) s.tables t.tables

section Stage

variable {ctx : PipelineContext} {o : Answers} {s t : World} {uris done left : List Text}
  {uri : Text} {state : Collected}

theorem pendingUris_append (runId : Uuid) (uris others : List Text) (t : Tables) :
    pendingUris runId (uris ++ others) t = pendingUris runId uris t ++ pendingUris runId others t :=
  List.filter_append ..

theorem pendingUris_subset (runId : Uuid) (uris : List Text) (t : Tables) :
    pendingUris runId uris t ⊆ uris :=
  List.filter_subset_self ..

theorem Searched.run (h : Searched ctx.runId uris s.tables) :
    ∃ run ∈ s.tables.runs, run.id = ctx.runId := by
  obtain ⟨state, hState, -⟩ := h
  obtain ⟨row, hRow, -⟩ := Option.bind_eq_some_iff.mp hState
  obtain ⟨hMem, hKey⟩ := findRow_some hRow
  simp only [Prod.mk.injEq] at hKey
  obtain ⟨run, hRun, hId⟩ := s.db.valid.checkpointsRun row hMem
  exact ⟨run, hRun, hId.trans hKey.1⟩

/-- The stage finds the addresses, if there are some. -/
theorem Searched.urls (h : Searched ctx.runId uris s.tables) (hSome : uris ≠ []) :
    checkpointUrls ctx.runId ((findCheckpoint ctx.runId Stage.search.name
      s.tables.checkpoints).bind Checkpoint.state) = .ok (uris.map Json.str) := by
  obtain ⟨state, hState, hUrls⟩ := h
  unfold checkpointUrls
  rw [hState, Option.bind_some, hUrls]
  cases uris with
  | nil => exact absurd rfl hSome
  | cons first rest => rfl

theorem Searched.noUrls (h : Searched ctx.runId [] s.tables) :
    ∃ error, checkpointUrls ctx.runId ((findCheckpoint ctx.runId Stage.search.name
      s.tables.checkpoints).bind Checkpoint.state) = .error error := by
  obtain ⟨state, hState, hUrls⟩ := h
  unfold checkpointUrls
  rw [hState, Option.bind_some, hUrls]
  exact ⟨_, rfl⟩

/-- What the loop has done before an address stays as it is; the address itself comes next. -/
theorem pendingUris_old (hOld : uri ∈ (s.tables.sources.filter fun s => s.runId = ctx.runId).map
    Source.uri) (done : List Text) :
    pendingUris ctx.runId (done ++ [uri]) s.tables = pendingUris ctx.runId done s.tables := by
  rw [pendingUris_append, pendingUris, pendingUris, List.filter_singleton]
  simp only [hOld, not_true, decide_false, cond_false, List.append_nil]

theorem pendingUris_new (hNew : uri ∉ (s.tables.sources.filter fun s => s.runId = ctx.runId).map
    Source.uri) (done : List Text) :
    pendingUris ctx.runId (done ++ [uri]) s.tables =
      pendingUris ctx.runId done s.tables ++ [uri] := by
  rw [pendingUris_append, pendingUris, pendingUris, List.filter_singleton]
  simp only [hNew, not_false_eq_true, decide_true, cond_true]

/-- One address of the loop. -/
theorem collectStep_unhindered (hKeys : Digests ctx.services.platform (uris.map (collectKey ctx o)))
    (hNodup : uris.Nodup) (hRun : ∃ run ∈ s.tables.runs, run.id = ctx.runId)
    (h : CollectedUpTo ctx o uris s done (uri :: left) state t)
    (hNew : uri ∉ (s.tables.sources.filter fun s => s.runId = ctx.runId).map Source.uri) :
    Unhindered o.Gives (Ending
      (fun state' u => CollectedUpTo ctx o uris s (done ++ [uri]) left state' u)
      fun _ _ => ¬ Unobstructed ctx o (pendingUris ctx.runId uris s.tables) s.tables)
      (collectUri ctx uri state) t := by
  have hSplit : uris = done ++ [uri] ++ left := by rw [h.split, List.append_assoc]; rfl
  have hSub : pendingUris ctx.runId done s.tables ++ [uri] ⊆
      pendingUris ctx.runId uris s.tables := by
    rw [hSplit, pendingUris_append, pendingUris_new hNew]
    exact List.subset_append_left _ _
  have hFresh : uri ∉ pendingUris ctx.runId done s.tables := by
    intro hIn
    rw [h.split] at hNodup
    exact List.disjoint_of_nodup_append hNodup (pendingUris_subset _ _ _ hIn) List.mem_cons_self
  have hRuns : t.tables.runs = s.tables.runs := by
    obtain ⟨rows, hTables, -⟩ := h.rows
    rw [hTables]
    rfl
  have hSnoc := unobstructed_snoc hKeys (fun other hOther =>
    List.mem_map_of_mem (pendingUris_subset _ _ _ (hSub hOther))) hFresh h.rows
  refine (collectUri_unhindered (o := o) hKeys.length (by rw [hRuns]; exact hRun) h.short).post ?_
  rintro (error | state') u hEnd
  · exact fun hAll => hEnd (hSnoc.mp (hAll.mono hSub)).2
  · obtain ⟨hCollects, hShort, row, hRow, hTables⟩ := hEnd
    refine ⟨hShort, hSplit, ?_, ?_⟩
    · rw [pendingUris_new hNew]
      exact hSnoc.mpr ⟨h.clear, hCollects⟩
    · rw [pendingUris_new hNew]
      exact h.rows.snoc hRow hTables

/-- The task of the stage. -/
theorem runCollect_unhindered (hKeys : Digests ctx.services.platform (uris.map (collectKey ctx o)))
    (hNodup : uris.Nodup) (hUrls : Searched ctx.runId uris s.tables) :
    Unhindered o.Gives (CollectStageEnd ctx o uris s) (runCollect ctx) s := by
  refine Unhindered.select ?_
  by_cases hSome : uris = []
  · subst hSome
    obtain ⟨error, hError⟩ := hUrls.noUrls
    rw [hError]
    exact fun hCollectable => hCollectable.some rfl
  · rw [hUrls.urls hSome]
    refine Unhindered.select ?_
    refine Unhindered.bind (Ending (S := Vocabulary) (fun (_ : Collected) (t : World) =>
      Unobstructed ctx o (pendingUris ctx.runId uris s.tables) s.tables ∧
        OneRowEach ctx o (pendingUris ctx.runId uris s.tables) s.tables t.tables)
      fun _ _ => ¬ Unobstructed ctx o (pendingUris ctx.runId uris s.tables) s.tables) ?_ ?_ ?_
    · refine Unhindered.foldlM (fun rest state t => ∃ done left, rest = left.map Json.str ∧
        CollectedUpTo ctx o uris s done left state t) ?_ ?_ _ ?_
      · rintro item rest state t ⟨done, left, hRest, h⟩
        cases left with
        | nil => cases hRest
        | cons uri left =>
            obtain ⟨rfl, rfl⟩ := List.cons.inj hRest
            refine Unhindered.ite (fun hOld => ?_) fun hNew => ?_
            · refine ⟨done ++ [uri], left, rfl, h.short, ?_, ?_, ?_⟩
              · rw [h.split, List.append_assoc]
                rfl
              · rw [pendingUris_old hOld]
                exact h.clear
              · rw [pendingUris_old hOld]
                exact h.rows
            · refine (collectStep_unhindered hKeys hNodup hUrls.run h hNew).post ?_
              rintro (error | state') u hEnd
              · exact hEnd
              · exact ⟨done ++ [uri], left, rfl, hEnd⟩
      · rintro state t ⟨done, left, hRest, h⟩
        obtain rfl := List.map_eq_nil_iff.mp hRest.symm
        have hDone : uris = done := by rw [h.split, List.append_nil]
        rw [hDone]
        exact ⟨h.clear, h.rows⟩
      · refine ⟨[], uris, rfl, ?_, rfl, .nil, .nil⟩
        exact fun entry hEntry => absurd hEntry List.not_mem_nil
    · rintro state t ⟨hClear, hRows⟩
      exact ⟨⟨hSome, hClear⟩, hRows⟩
    · exact fun error t hNot hCollectable => hNot hCollectable.pending

end Stage

/-! ## When the stage comes to its end -/

/-- A task of the stage in an environment which carries out every database step, and which answers
with what the outside has. -/
structure SteadyCollect (env : Environment Vocabulary) (n : Nat) (ctx : PipelineContext)
    (o : Answers) (uris : List Text) (s : World) : Prop where
  grants : ∀ k, env.verdict k = .grant
  given : ∀ log left t, Course env n (runCollect ctx) s log left t → ∀ m ∈ log, o.Gives m
  searched : Searched ctx.runId uris s.tables
  distinct : uris.Nodup
  digests : Digests ctx.services.platform (uris.map (collectKey ctx o))

/-- Such a task returns and leaves one source and one audit row for each address which had none,
exactly if these can be collected. -/
theorem collect_total_iff {env : Environment Vocabulary} {n : Nat} {ctx : PipelineContext}
    {o : Answers} {uris : List Text} {s : World} (h : SteadyCollect env n ctx o uris s) :
    (∃ log result t, Course env n (runCollect ctx) s log (.done result) t ∧
      OneRowEach ctx o (pendingUris ctx.runId uris s.tables) s.tables t.tables) ↔
    Collectable ctx o uris s.tables := by
  have hStage := runCollect_unhindered h.digests h.distinct h.searched
  constructor
  · rintro ⟨log, result, t, hCourse, -⟩
    have hEnd : CollectStageEnd ctx o uris s (.ok result) t :=
      hStage.course hCourse h.grants (h.given log _ t hCourse)
    exact hEnd.1
  · intro hCollectable
    obtain ⟨log, left, t, hCourse, hEnded⟩ := Course.ends env n (runCollect ctx) s
    have hEnd := hStage.course hCourse h.grants (h.given log left t hCourse)
    cases hEnded with
    | done result => exact ⟨log, result, t, hCourse, hEnd.2⟩
    | raise error => exact absurd hCollectable hEnd

section Examples

/-- The digests of some contents. -/
def someDigests : List (Bytes × Text) :=
  [(Bytes.encodeUtf8 "a".toList,
      "ca978112ca1bbdcafac231b39a23dc4da786eff8147c4e72b9807785afee48bb".toList),
    (Bytes.encodeUtf8
      "ca978112ca1bbdcafac231b39a23dc4da786eff8147c4e72b9807785afee48bb:https://a.org/b".toList,
      "53f6439a2ead6671bba3504d02710ed6db3f908f26754488125fa2dd4d9c2459".toList),
    (Bytes.encodeUtf8
      "ca978112ca1bbdcafac231b39a23dc4da786eff8147c4e72b9807785afee48bb:https://a.org/c".toList,
      "ea4398ed5d838fa41f8a4d02f9b5d6f43dd5331884ec13d6dbef02977c4d2315".toList),
    (Bytes.encodeUtf8 "https://[".toList,
      "f310419e55fd23d79c389f1773a22ebd223d9be46276ebbd2b683ef2f6617109".toList)]

/-- The digest of a content, which is made up for others. -/
def someDigest (content : Bytes) : Text :=
  ((someDigests.find? fun entry => entry.1 = content).map Prod.snd).getD (List.replicate 64 '0')

theorem someDigest_spec (content : Bytes) :
    (someDigest content).length = 64 ∧ ':' ∉ someDigest content := by
  have hAll : ∀ entry ∈ someDigests, entry.2.length = 64 ∧ ':' ∉ entry.2 := by decide
  unfold someDigest
  cases hFound : someDigests.find? fun entry => entry.1 = content with
  | none => decide
  | some entry => exact hAll entry (List.mem_of_find?_eq_some hFound)

/-- The run on a platform with these digests, on which one address is no URL. -/
def Served.hashing (served : Served) : PipelineContext where
  runId := ⟨1⟩
  services := { served.services with
    platform := { served.platform with
      sha256 := someDigest
      urlparse := fun uri =>
        if uri = "https://[".toList then none else some ⟨"a.org".toList, some "a.org".toList⟩ } }

/-- The run after a search. -/
def World.found (uris : List Text) : World :=
  { World.submitted 5 with
    db := ((World.submitted 5).db.applyAll [.insertCheckpoint ⟨⟨7⟩, ⟨1⟩, Stage.search.name,
      some (.obj [("urls".toList, .arr (uris.map Json.str))])⟩]).toOption.getD
        (World.submitted 5).db }

/-- The one page which is served everywhere, and no files. -/
def Served.answers (served : Served) : Answers where
  page := fun _ => .ok ⟨200, Bytes.encodeUtf8 served.page, "text/plain".toList⟩
  file := fun _ => none

/-- The answers of a simulated task are those of the page, with new identifiers. -/
def answerGiven (content : Bytes) (m : Moment Vocabulary) : Bool :=
  pageGiven content m &&
    match m.happening with
    | .asked .uuid4 answer =>
        (m.before.tables.sources.all fun source => source.id ≠ (show Uuid from answer)) &&
          m.before.tables.auditTrace.all fun row => row.id ≠ (show Uuid from answer)
    | _ => true

/-- The task of the stage. -/
def Served.collectFound (served : Served) (uris : List Text) :
    Log Vocabulary × Action StageResult × World :=
  simulate (served.outside fun _ => .grant) 60 0 (runCollect served.hashing) (.found uris)

theorem collectFound_course (served : Served) (uris : List Text) :
    Course (served.outside fun _ => .grant) 0 (runCollect served.hashing) (.found uris)
      (served.collectFound uris).1 (served.collectFound uris).2.1 (served.collectFound uris).2.2 :=
  simulate_course _ _ _ _ _

theorem Served.answers_give {served : Served} {m : Moment Vocabulary}
    (h : answerGiven (Bytes.encodeUtf8 served.page) m = true) : served.answers.Gives m := by
  obtain ⟨hPage, hNew⟩ := Bool.and_eq_true_iff.mp h
  have hGives := Served.gives hPage
  obtain ⟨before, happening, after⟩ := m
  cases happening with
  | asked question answer =>
      cases question with
      | uuid4 =>
          simp only [Bool.and_eq_true, List.all_eq_true, decide_eq_true_eq] at hNew
          exact hNew
      | httpGet uri => exact hGives
      | readFile path => cases hPage
      | _ => trivial
  | _ => trivial

/-- A simulated task which has come to its end is steady, if its answers are those of the page. -/
theorem steady_found {served : Served} {uris : List Text} (hNodup : uris.Nodup)
    (hEnded : Ended (served.collectFound uris).2.1)
    (hAnswers :
      (served.collectFound uris).1.all (answerGiven (Bytes.encodeUtf8 served.page)) = true)
    (hKeys : ∀ key ∈ uris.map (collectKey served.hashing served.answers),
      ∀ other ∈ uris.map (collectKey served.hashing served.answers),
        someDigest key = someDigest other → key = other) :
    SteadyCollect (served.outside fun _ => .grant) 0 served.hashing served.answers uris
      (.found uris) := by
  refine ⟨fun _ => rfl, ?_, ⟨_, rfl, rfl⟩, hNodup, fun content => (someDigest_spec content).1,
    fun content => (someDigest_spec content).2, hKeys⟩
  intro log left t hCourse m hm
  apply Served.answers_give
  exact List.all_eq_true.mp hAnswers m
    (Course.subset hCourse (collectFound_course served uris) hEnded hm)

/-- Two addresses with the same page are collected. -/
theorem collect_total_twoUrls :
    ∃ log result t, Course (({ page := "a".toList } : Served).outside fun _ => .grant) 0
        (runCollect ({ page := "a".toList } : Served).hashing) (.found twoUrls) log
        (.done result) t ∧
      OneRowEach ({ page := "a".toList } : Served).hashing ({ page := "a".toList } : Served).answers
        (pendingUris ⟨1⟩ twoUrls (World.found twoUrls).tables) (World.found twoUrls).tables
        t.tables := by
  let served : Served := { page := "a".toList }
  obtain ⟨hReturns, hGiven, hKeys⟩ : (served.collectFound twoUrls).2.1.returned.isSome = true ∧
      (served.collectFound twoUrls).1.all (answerGiven (Bytes.encodeUtf8 served.page)) = true ∧
      ∀ key ∈ twoUrls.map (collectKey served.hashing served.answers),
        ∀ other ∈ twoUrls.map (collectKey served.hashing served.answers),
          someDigest key = someDigest other → key = other := by
    decide +kernel
  obtain ⟨result, hResult⟩ := Option.isSome_iff_exists.mp hReturns
  have hLeft := Prog.eq_done hResult
  have hCourse := collectFound_course served twoUrls
  rw [hLeft] at hCourse
  have hSteady := @steady_found served twoUrls (by decide) (hLeft ▸ .done result) hGiven hKeys
  have hStage := runCollect_unhindered hSteady.digests hSteady.distinct hSteady.searched
  have hEnd : CollectStageEnd served.hashing served.answers twoUrls (.found twoUrls) (.ok result)
      (served.collectFound twoUrls).2.2 :=
    hStage.course hCourse hSteady.grants (hSteady.given _ _ _ hCourse)
  exact (collect_total_iff hSteady).mpr hEnd.1

/-- An address on which `urlparse` raises stops the stage. -/
theorem collect_raises : ∃ (env : Environment Vocabulary) (ctx : PipelineContext) (o : Answers)
    (uris : List Text) (s t : World) (log : Log Vocabulary) (error : PyError),
    SteadyCollect env 0 ctx o uris s ∧ (∀ uri ∈ uris, uri ≠ []) ∧ s.tables.sources = [] ∧
      Course env 0 (runCollect ctx) s log (.raise error) t := by
  let served : Served := { page := "a".toList }
  have hFacts : (served.collectFound ["https://[".toList]).2.1.raised.isSome = true ∧
      (served.collectFound ["https://[".toList]).1.all
        (answerGiven (Bytes.encodeUtf8 served.page)) = true := by
    decide
  obtain ⟨error, hError⟩ := Option.isSome_iff_exists.mp hFacts.1
  have hLeft := Prog.eq_raise hError
  have hCourse := collectFound_course served ["https://[".toList]
  rw [hLeft] at hCourse
  have hSteady := @steady_found served ["https://[".toList] (by decide) (hLeft ▸ .raise error)
    hFacts.2 (by simp)
  exact ⟨_, _, _, _, _, _, _, error, hSteady, by decide, rfl, hCourse⟩

end Examples

end Ecrke
