import Ecrke.Pipeline.FlowLaws

/-!
# From the search stage to the collect stage

The collect stage reads the addresses of the search stage back from its checkpoint, whose state is
redacted when it is saved.  The order and the number of the addresses survive, and so does every
address which holds no secret.

* `SearchReturned`, `FoundBySearch` -- what the search task has returned, and what the search
  backend has answered.
* `readBack` -- what the collect stage reads.
* `search_readBack` -- it reads the addresses of the search task, each of them redacted.
-/

namespace Ecrke

open Durable

/-! ## What the search task returns -/

/-- The detail which the search stage leaves. -/
def searchDetail (urls : List Text) : List (Text × Json) := [("urls".toList, .ofTexts urls)]

/-- The log holds a complete execution of the search task which has returned some addresses. -/
def SearchReturned (p : Platform) (runId : Uuid) (log : Log Vocabulary) (urls : List Text) :
    Prop :=
  ∃ (services : PipelineServices) (s t : World) (earlier now later : Log Vocabulary),
    services.platform = p ∧
    Ran (runSearch ⟨runId, services⟩) s earlier (.ok (.success .search (searchDetail urls))) t now ∧
    log = now ++ later

theorem SearchReturned.snoc {p : Platform} {runId : Uuid} {log : Log Vocabulary}
    {urls : List Text} (h : SearchReturned p runId log urls) (m : Moment Vocabulary) :
    SearchReturned p runId (log ++ [m]) urls := by
  obtain ⟨services, s, t, earlier, now, later, hServices, hRan, rfl⟩ := h
  exact ⟨services, s, t, earlier, now, later ++ [m], hServices, hRan, List.append_assoc ..⟩

/-- The addresses which the search backend gives in a step. -/
def searchAnswer (m : Moment Vocabulary) : List Text :=
  match m.happening with
  | .asked (.searchBackend ..) answer =>
      (show Except PyError (List Text) from answer).toOption.getD []
  | _ => []

/-- The search backend has given an address. -/
def FoundBySearch (log : Log Vocabulary) (url : Text) : Prop := ∃ m ∈ log, url ∈ searchAnswer m

theorem FoundBySearch.append {log : Log Vocabulary} {url : Text} (h : FoundBySearch log url)
    (later : Log Vocabulary) : FoundBySearch (log ++ later) url := by
  obtain ⟨m, hMem, hFound⟩ := h
  exact ⟨m, List.mem_append_left _ hMem, hFound⟩

theorem mem_addUrls {urls found : List Text} {url : Text} :
    url ∈ addUrls urls found ↔ url ∈ urls ∨ url ∈ found := by
  unfold addUrls
  induction found generalizing urls with
  | nil => simp
  | cons first rest ih =>
      rw [List.foldl_cons, ih]
      by_cases hMem : first ∈ urls
      · rw [if_pos hMem]
        constructor
        · exact fun h => h.imp_right (List.mem_cons_of_mem _)
        · rintro (h | h)
          · exact .inl h
          · rcases List.mem_cons.mp h with rfl | h
            · exact .inl hMem
            · exact .inr h
      · rw [if_neg hMem]
        simp [or_assoc]

section Task

variable {given : Moment Vocabulary → Prop} {s : World} {l : Log Vocabulary}

/-- A search adds its answer to the log. -/
theorem search_found (settings : Settings) (query : Json) (limit : Nat) :
    wp (.alongside given fun _ _ => True)
      (fun r _ l' => (∃ now, l' = l ++ now) ∧ ∀ found, r = .ok found →
        ∀ url ∈ found, FoundBySearch l' url)
      (search settings query limit) s l := by
  have hAsk (effective : Nat) : wp (.alongside given fun _ _ => True)
      (fun r _ l' => ∃ answer, r = .ok answer ∧ ∃ t : World,
        l' = l ++ [⟨t, .asked (.searchBackend query effective) answer, t⟩])
      (Prog.query (S := Vocabulary) (.searchBackend query effective)) s l :=
    wp_query fun answer t _ => ⟨trivial, answer, rfl, t, rfl⟩
  refine wp_bind _ (hAsk _) ?_ fun _ _ _ ⟨_, hEq, _⟩ => nomatch hEq
  rintro answer t l' ⟨_, hAnswer, u, rfl⟩
  cases hAnswer
  cases (answer : Except PyError (List Text)) with
  | error error => exact .raise ⟨⟨_, rfl⟩, by simp⟩
  | ok found =>
      refine .done ⟨⟨_, rfl⟩, ?_⟩
      rintro _ ⟨⟩ url hUrl
      exact ⟨_, List.mem_append_right _ (List.mem_singleton_self _), hUrl⟩

/-- The search task returns addresses which the search backend has given. -/
theorem runSearch_found (ctx : PipelineContext) :
    wp (.alongside given fun _ _ => True)
      (fun r _ l' => ∀ result, r = .ok result → ∃ urls,
        result = .success .search (searchDetail urls) ∧ ∀ url ∈ urls, FoundBySearch l' url)
      (runSearch ctx) s l := by
  refine wp_bind (fun _ _ _ => True) (wp_of_given (fun _ _ _ => trivial) _ _ _) ?_ (by simp)
  intro found t l _
  cases found with
  | none => exact .raise (by simp)
  | some plan =>
      refine wp_bind (fun _ _ _ => True) (wp_of_given (fun _ _ _ => trivial) _ _ _) ?_ (by simp)
      intro queries u l _
      refine wp_bind (fun r _ l' => ∀ urls, r = .ok urls → ∀ url ∈ urls, FoundBySearch l' url)
        (wp_foldlM (fun _ urls _ l' => ∀ url ∈ urls, FoundBySearch l' url) ?_ ?_ queries (by simp))
        ?_ (by simp)
      · intro query rest urls v l hUrls
        refine wp_bind _ (search_found _ query _) ?_ (fun _ _ _ _ _ h => nomatch h)
        rintro found w _ ⟨⟨now, rfl⟩, hFound⟩
        refine .done fun url hUrl => ?_
        rcases mem_addUrls.mp hUrl with hOld | hNew
        · exact (hUrls url hOld).append now
        · exact hFound found rfl url hNew
      · rintro urls v l hUrls _ ⟨⟩
        exact hUrls
      · rintro urls v l hUrls
        refine .done ?_
        rintro _ ⟨⟩
        exact ⟨urls, rfl, hUrls urls rfl⟩

end Task

/-! ## What the collect stage reads -/

/-- What the collect task iterates over, which it reads from the checkpoint of the search stage;
nothing where it raises. -/
def readBack (runId : Uuid) (t : Tables) : List Json :=
  match checkpointUrls runId
    ((findCheckpoint runId Stage.search.name t.checkpoints).bind Checkpoint.state) with
  | .ok items => items
  | .error _ => []

/-- The search task has returned some addresses, and these are what its checkpoint holds, each of
them redacted. -/
def SearchSaved (p : Platform) (runId : Uuid) (w : World) (log : Log Vocabulary) : Prop :=
  ∃ urls row, SearchReturned p runId log urls ∧ (∀ url ∈ urls, FoundBySearch log url) ∧
    findCheckpoint runId Stage.search.name w.tables.checkpoints = some row ∧
    row.state = some (.obj (searchDetail (urls.map (redactSecrets p.unicode))))

theorem SearchSaved.snoc {p : Platform} {runId : Uuid} {m : Moment Vocabulary}
    {log : Log Vocabulary} (h : SearchSaved p runId m.before log)
    (hFound : ∀ row, findCheckpoint runId Stage.search.name m.before.tables.checkpoints =
      some row → findCheckpoint runId Stage.search.name m.after.tables.checkpoints = some row) :
    SearchSaved p runId m.after (log ++ [m]) := by
  obtain ⟨urls, row, hReturned, hUrls, hRow, hState⟩ := h
  exact ⟨urls, row, hReturned.snoc m, fun url hUrl => (hUrls url hUrl).append _, hFound row hRow,
    hState⟩

theorem redactItems_texts (u : Unicode) (texts : List Text) :
    redactItems u (texts.map .str) = (texts.map (redactSecrets u)).map .str := by
  induction texts with
  | nil => rfl
  | cons text rest ih => simp [redactItems, redactJson, ih]

theorem redactJson_searchDetail (u : Unicode) (urls : List Text) :
    redactJson u (.obj (searchDetail urls)) =
      .obj (searchDetail (urls.map (redactSecrets u))) := by
  simp [searchDetail, Json.ofTexts, redactJson, redactFields, redactItems_texts]

/-- What the search stage leaves for its checkpoint. -/
def SearchLeft (p : Platform) (runId : Uuid) (result : StageResult) (log : Log Vocabulary) :
    Prop :=
  ∃ urls, SearchReturned p runId log urls ∧ (∀ url ∈ urls, FoundBySearch log url) ∧
    result.detail = some (.obj (searchDetail urls))

/-- The addresses of a run, from the checkpoint of the search stage on. -/
def searchMilestone (runId : Uuid) (p : Platform) : Milestone runId p .search where
  Always _ _ := True
  Reached := SearchSaved p runId
  May _ := True
  Left result _ log := SearchLeft p runId result log
  always_control _ _ _ _ := trivial
  reached_control := by
    intro l m hControl hSaved
    obtain ⟨runs, rows, hTables⟩ := hControl.tables
    exact hSaved.snoc (by rw [hTables]; exact fun _ h => h)
  always_saved _ _ _ _ _ _ _ := trivial
  reached_saved := by
    intro w v l row _ hSaved _ hTables
    exact hSaved.snoc (m := ⟨w, .moved, v⟩) (by rw [hTables]; exact fun _ h => findCheckpoint_old h)
  task := by
    intro stage services t l _ _ _
    refine wp_of_given (fun l m hTask => ⟨fun _ => trivial, fun _ _ hSaved => ?_⟩) _ _ _
    exact hSaved.snoc fun _ h => hTask.1.checkpoints ▸ h
  turn := by
    rintro services t l rfl - -
    refine wp_weaken (wp_ran (runSearch_found ⟨runId, services⟩)) (fun _ _ => trivial)
      (fun _ _ _ _ _ => trivial) ?_
    rintro r w l' ⟨hFound, hRan⟩ result rfl -
    obtain ⟨urls, rfl, hUrls⟩ := hFound result rfl
    exact ⟨urls, ⟨services, t, w, l, l', [], rfl, hRan, by simp⟩, hUrls, rfl⟩
  left_still := by
    rintro result w l happening ⟨urls, hReturned, hUrls, hDetail⟩
    exact ⟨urls, hReturned.snoc _, fun url hUrl => (hUrls url hUrl).append _, hDetail⟩
  left_saved := by
    rintro result id w v l hNone - ⟨urls, hReturned, hUrls, hDetail⟩ - hTables
    have hRow : findCheckpoint runId Stage.search.name v.tables.checkpoints =
        some ⟨id, runId, Stage.search.name, result.detail.map (redactJson p.unicode)⟩ := by
      rw [hTables]
      exact findCheckpoint_new hNone ⟨rfl, rfl⟩
    refine ⟨urls, _, hReturned.snoc _, fun url hUrl => (hUrls url hUrl).append _, hRow, ?_⟩
    rw [hDetail, Option.map_some, redactJson_searchDetail]

/-- The addresses which the collect stage reads are those which the search task has returned, in
the same order, each of them redacted. -/
theorem search_readBack {runId : Uuid} {p : Platform} {s t : World} {log : Log Vocabulary}
    (hFresh : FreshRun runId s.tables)
    (h : HistoryWhere (flowJob runId) (fun services _ => services.platform = p) s log t)
    (hDone : Stage.search.name ∈ completedOf runId t.tables) :
    ∃ urls, SearchReturned p runId log urls ∧ (∀ url ∈ urls, FoundBySearch log url) ∧
      readBack runId t.tables = (urls.map (redactSecrets p.unicode)).map .str := by
  have hSaved := ((searchMilestone runId p).history h hFresh.orderly (by simp [hFresh.completedOf])
    trivial fun _ _ _ => trivial).2 hDone
  obtain ⟨urls, row, hReturned, hUrls, hRow, hState⟩ := hSaved
  refine ⟨urls, hReturned, hUrls, ?_⟩
  rw [readBack, hRow, Option.bind_some, hState]
  cases urls with
  | nil => rfl
  | cons url rest => rfl

/-! ## An address which looks like a secret -/

/-- A run whose searches find an address with a token in its query. -/
def Served.tokenUrl : Served where
  urls := ["https://a.org/?token=abc".toList]

/-- The run is killed after the checkpoint of its search stage. -/
def searchCuts : List Nat := [22, 14]

/-- The text of a JSON string. -/
def Json.text : Json → Text
  | .str value => value
  | _ => []

theorem searchCuts_facts :
    Stage.search.name ∈ completedOf ⟨1⟩ (Served.tokenUrl.runs searchCuts).2.tables ∧
      (∀ m ∈ (Served.tokenUrl.runs searchCuts).1, ∀ url ∈ searchAnswer m,
        url = "https://a.org/?token=abc".toList) ∧
      (readBack ⟨1⟩ (Served.tokenUrl.runs searchCuts).2.tables).map Json.text =
        ["https://a.org/?[REDACTED]".toList] := by
  decide +kernel

theorem search_readBack_tokenUrl :
    Stage.search.name ∈ completedOf ⟨1⟩ (Served.tokenUrl.runs searchCuts).2.tables ∧
      ∃ urls, SearchReturned Served.tokenUrl.platform ⟨1⟩ (Served.tokenUrl.runs searchCuts).1 urls ∧
        (∀ url ∈ urls, FoundBySearch (Served.tokenUrl.runs searchCuts).1 url) ∧
        readBack ⟨1⟩ (Served.tokenUrl.runs searchCuts).2.tables =
          (urls.map (redactSecrets Served.tokenUrl.platform.unicode)).map .str :=
  ⟨searchCuts_facts.1, search_readBack (World.submitted_fresh 1) (Served.runs_history _ _)
    searchCuts_facts.1⟩

/-- The collect stage reads another address than the search task has returned. -/
theorem search_readBack_fails :
    ∃ (p : Platform) (s t : World) (log : Log Vocabulary) (urls : List Text),
      FreshRun ⟨1⟩ s.tables ∧
        HistoryWhere (flowJob ⟨1⟩) (fun services _ => services.platform = p) s log t ∧
        Stage.search.name ∈ completedOf ⟨1⟩ t.tables ∧ SearchReturned p ⟨1⟩ log urls ∧
        readBack ⟨1⟩ t.tables ≠ urls.map .str := by
  obtain ⟨hDone, hOnly, hRead⟩ := searchCuts_facts
  have hFresh := World.submitted_fresh 1
  have hHistory := Served.runs_history Served.tokenUrl searchCuts
  obtain ⟨urls, hReturned, hFound, -⟩ := search_readBack hFresh hHistory hDone
  refine ⟨_, _, _, _, urls, hFresh, hHistory, hDone, hReturned, fun hSame => ?_⟩
  have hUrls : urls = ["https://a.org/?[REDACTED]".toList] := by
    rw [← hRead, hSame, List.map_map]
    exact (List.map_id urls).symm
  obtain ⟨m, hMem, hUrl⟩ := hFound "https://a.org/?[REDACTED]".toList (by simp [hUrls])
  exact absurd (hOnly m hMem _ hUrl) (by decide)

end Ecrke
