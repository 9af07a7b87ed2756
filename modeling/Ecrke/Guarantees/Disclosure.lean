import Ecrke.Guarantees.Noninterference

/-!
# What a tenant learns of others

The responses to a tenant do not depend on the rows of others, with one exception.  A run or a
statement of another tenant is answered with 403, and one which does not exist with 404, so a tenant
learns which identifiers are in use.

* `Responds` -- the responses which are possible, with what is heard of their executions.
* `Responds.foreign`, `responds_of_foreign` -- 403 is the answer to what belongs to another tenant.
* `responses_agree_iff` -- when the responses in two stores with the same own rows are the same.
* `existence_observed` -- a run of another tenant, and no such run.
-/

namespace Ecrke

open Durable

/-- The request may be answered with the response, and this is heard of it. -/
def Responds (api : ApiPlatform) (request : ApiRequest) (s : Store)
    (heard : List (Option (Happening Vocabulary))) (response : Response) : Prop :=
  ∃ log t, Exec (request.respond api s.columns) s.world log (.done response) t ∧
    log.seenBy withoutOrder = heard

/-- The answer to a request for something of another tenant. -/
def crossTenant : HttpException := ⟨403, "cross-tenant access denied".toList⟩

section Denials

variable {api : ApiPlatform} {columns : Columns} {request : ApiRequest} {w t : World}
  {log : Log Vocabulary} {tenantId runId statementId : Uuid} {error : HttpException}

theorem othersRun_of_denied {t : Tables} (h : loaded runId tenantId t = .error error)
    (hStatus : error.statusCode = 403) : OthersRun tenantId t runId := by
  unfold loaded at h
  cases hFind : findRow Run.id runId t.runs with
  | none =>
      rw [hFind] at h
      cases h
      cases hStatus
  | some run =>
      obtain ⟨hRun, hId⟩ := findRow_some hFind
      rw [hFind, checkTenant] at h
      split at h
      · exact ⟨run, hRun, hId, ‹_›⟩
      · cases h

theorem withRun_denied {rest : Run → Action Body}
    (h : Exec (Routes.withRun runId tenantId rest) w log (.done (.error error)) t) :
    loaded runId tenantId w.tables = .error error := by
  obtain ⟨result, now, later, u, rfl, hLoad, hRest⟩ := Exec.of_bind_done h
  rw [loadRun_eq] at hLoad
  obtain ⟨found, now, later, v, rfl, hFind, hCheck⟩ := Exec.of_bind_done hLoad
  obtain ⟨rfl, rfl⟩ := Exec.of_select_done hFind
  obtain ⟨-, hResult, rfl⟩ := Exec.of_done hCheck
  obtain rfl := Prog.done.inj hResult
  rw [loaded]
  revert hRest
  cases checkTenant tenantId (findRow Run.id runId u.tables.runs) with
  | error other =>
      intro hRest
      obtain ⟨-, hSame, -⟩ := Exec.of_done hRest
      cases hSame
      rfl
  | ok run =>
      intro hRest
      obtain ⟨body, _, _, _, -, -, hBody⟩ := Exec.of_bind_done hRest
      obtain ⟨-, hSame, -⟩ := Exec.of_done hBody
      cases hSame

/-- The parts of a trace behind the check of the tenant are never denied. -/
theorem returns_traceOf (statement : Statement) :
    Returns (fun result => ∀ error, result = .error error → error.statusCode ≠ 403)
      (Routes.traceOf api statement) := by
  refine returns_bind fun found => ?_
  cases found with
  | none =>
      refine returns_done ?_
      rintro _ ⟨⟩
      decide
  | some passage =>
      refine returns_bind fun source => ?_
      cases source with
      | none =>
          refine returns_done ?_
          rintro _ ⟨⟩
          decide
      | some source =>
          refine returns_done ?_
          rintro _ ⟨⟩

theorem trace_denied
    (h : Exec (Routes.getStatementTrace api statementId tenantId) w log (.done (.error error)) t)
    (hStatus : error.statusCode = 403) : ∃ statement ∈ w.tables.statements,
      statement.id = statementId ∧ OthersRun tenantId w.tables statement.runId := by
  obtain ⟨found, now, later, u, rfl, hFind, hRest⟩ := Exec.of_bind_done h
  obtain ⟨hFound, rfl⟩ := Exec.of_select_done hFind
  cases found with
  | none =>
      obtain ⟨-, hSame, -⟩ := Exec.of_done hRest
      cases hSame
      cases hStatus
  | some statement =>
      obtain ⟨hMem, hId⟩ := findRow_some hFound.symm
      refine ⟨statement, hMem, hId, ?_⟩
      obtain ⟨run, now, later, v, rfl, hFindRun, hCheck⟩ := Exec.of_bind_done hRest
      obtain ⟨hRun, rfl⟩ := Exec.of_select_done hFindRun
      cases run with
      | none =>
          obtain ⟨-, hSame, -⟩ := Exec.of_done hCheck
          cases hSame
          cases hStatus
      | some run =>
          obtain ⟨hRunMem, hRunId⟩ := findRow_some hRun.symm
          by_cases hTenant : run.tenantId = tenantId
          · dsimp only at hCheck
            rw [if_neg (not_not_intro hTenant)] at hCheck
            exact absurd hStatus ((returns_traceOf statement).exec hCheck error rfl)
          · exact ⟨run, hRunMem, hRunId, hTenant⟩

/-- Only what belongs to another tenant is denied. -/
theorem foreign_of_denied (h : Exec (request.handle api columns) w log (.done (.error error)) t)
    (hStatus : error.statusCode = 403) : Foreign request w.tables := by
  obtain ⟨url, tenantId, target⟩ := request
  cases target with
  | statementTrace statementId => exact trace_denied h hStatus
  | kbSearch q =>
      obtain ⟨body, _, _, _, -, -, hBody⟩ := Exec.of_bind_done h
      obtain ⟨-, hSame, -⟩ := Exec.of_done hBody
      cases hSame
  | _ => exact othersRun_of_denied (withRun_denied h) hStatus

theorem yields_withRun {rest : Run → Action Body}
    (h : loaded runId tenantId w.tables = .error error) :
    Yields (Routes.withRun runId tenantId rest) w (.error error) := by
  have hLoad : Yields (Routes.loadRun runId tenantId) w (loaded runId tenantId w.tables) := by
    rw [loadRun_eq]
    exact (yields_selectTables _).bind (yields_done _)
  rw [h] at hLoad
  exact hLoad.bind (yields_done _)

theorem yields_trace {statement : Statement} (hMem : statement ∈ w.tables.statements)
    (h : OthersRun tenantId w.tables statement.runId) :
    Yields (Routes.getStatementTrace api statement.id tenantId) w (.error crossTenant) := by
  obtain ⟨run, hRun, hId, hTenant⟩ := h
  refine Yields.bind (yields_selectTables _) ?_
  rw [w.db.valid.statementsKey.findRow_eq hMem]
  refine Yields.bind (yields_selectTables _) ?_
  rw [← hId, w.db.valid.runsKey.findRow_eq hRun]
  dsimp only
  rw [if_pos hTenant]
  exact yields_done _

/-- What belongs to another tenant may be denied. -/
theorem yields_handle (h : Foreign request w.tables) :
    Yields (request.handle api columns) w (.error crossTenant) := by
  obtain ⟨url, tenantId, target⟩ := request
  cases target with
  | statementTrace statementId =>
      obtain ⟨statement, hMem, rfl, hOthers⟩ := h
      exact yields_trace hMem hOthers
  | kbSearch q => exact h.elim
  | _ => exact yields_withRun (loaded_others w.db.valid.runsKey h)

end Denials

section Responses

variable (api : ApiPlatform) {request : ApiRequest} {s s' : Store} {response : Response}
  {heard : List (Option (Happening Vocabulary))}

/-- A response with the code 403 means that the request is for something of another tenant. -/
theorem Responds.foreign {api : ApiPlatform} (h : Responds api request s heard response)
    (hStatus : response.status = 403) : Foreign request s.world.tables := by
  obtain ⟨log, t, hExec, -⟩ := h
  rcases Exec.of_tryCatch hExec with ⟨body, hBody, hDone⟩ | ⟨error, now, later, u, rfl, -, hHandler⟩
  -- An exception becomes a 500, so a 403 comes from an `HTTPException` of the endpoint.
  · cases body with
    | done value =>
        obtain rfl := Prog.done.inj hDone
        obtain ⟨result, now, later, u, rfl, hHandle, hRest⟩ := Exec.of_bind_done hBody
        obtain ⟨-, hSame, -⟩ := Exec.of_done hRest
        obtain rfl := Prog.done.inj hSame
        cases result with
        | ok body => cases hStatus
        | error error => exact foreign_of_denied hHandle hStatus
    | raise error =>
        obtain rfl := Prog.done.inj hDone
        cases hStatus
    | _ => cases hDone
  · obtain ⟨-, hSame, -⟩ := Exec.of_done hHandler
    cases hSame
    cases hStatus

/-- What an endpoint may return may be the response. -/
theorem responds_of_yields {result : Except HttpException Body}
    (h : Yields (request.handle api s.columns) s.world result) :
    ∃ heard, Responds api request s heard (request.responseOf api result) := by
  have hAnswer : Yields ((request.handle api s.columns).bind fun result =>
      .done (request.responseOf api result)) s.world (request.responseOf api result) :=
    h.bind (yields_done _)
  obtain ⟨log, hExec⟩ := hAnswer
  exact ⟨_, log, s.world, hExec.tryCatch _, rfl⟩

/-- A request for something of another tenant may be answered with 403. -/
theorem responds_of_foreign (h : Foreign request s.world.tables) :
    ∃ heard, Responds api request s heard (problemResponse api request crossTenant) :=
  responds_of_yields api (yields_handle h)

/-- What is heard and answered in a store may be heard and answered in another. -/
theorem Responds.mirrored {api : ApiPlatform}
    (hSame : s.ownedBy request.tenantId = s'.ownedBy request.tenantId)
    (hForeign : Foreign request s.world.tables ↔ Foreign request s'.world.tables)
    (h : Responds api request s heard response) : Responds api request s' heard response := by
  obtain ⟨key, hBeside, hMirrors⟩ := mirrors_respond api hSame hForeign
  obtain ⟨log, t, hExec, rfl⟩ := h
  obtain ⟨log', _, t', hOther, rfl, hSeen⟩ := hMirrors.exec_done hBeside hExec
  exact ⟨log', t', hOther, hSeen⟩

end Responses

/-- Two stores which have the same rows of a tenant give the same responses, if and only if what is
asked for belongs to another tenant in both of them or in neither. -/
theorem responses_agree_iff (api : ApiPlatform) (request : ApiRequest) {s s' : Store}
    (hSame : s.ownedBy request.tenantId = s'.ownedBy request.tenantId) :
    (∀ heard response,
        Responds api request s heard response ↔ Responds api request s' heard response) ↔
      (Foreign request s.world.tables ↔ Foreign request s'.world.tables) := by
  constructor
  · intro hAgree
    -- The possible answer 403 tells whether the request is for something of another tenant.
    constructor
    · intro hForeign
      obtain ⟨heard, hDenied⟩ := responds_of_foreign api hForeign
      exact ((hAgree heard _).mp hDenied).foreign rfl
    · intro hForeign
      obtain ⟨heard, hDenied⟩ := responds_of_foreign api hForeign
      exact ((hAgree heard _).mpr hDenied).foreign rfl
  · intro hForeign heard response
    constructor
    · exact Responds.mirrored hSame hForeign
    · exact Responds.mirrored hSame.symm hForeign.symm

/-! ## A run of another tenant -/

/-- A plain platform, with no report in any artifact. -/
def ApiPlatform.plain : ApiPlatform :=
  { Platform.plain with
    validateReport := fun _ => none
    floatOf := id }

/-- A run of the tenant, and one of another tenant. -/
def Tables.twoTenants : Tables :=
  { Tables.single (.submitted 1) [] with
    runs := [.submitted 1, { Run.submitted 1 with id := ⟨2⟩, tenantId := ⟨7⟩ }] }

theorem Tables.twoTenants_valid : Tables.twoTenants.Valid := by
  constructor <;>
    simp [Tables.twoTenants, Tables.single, Run.submitted, Run.Checks, Keyed, Refers]

/-- A store with the first run. -/
def Store.oneTenant : Store := ⟨.submitted 1, ⟨fun _ => 0, fun _ => none⟩⟩

/-- A store with both runs. -/
def Store.twoTenants : Store where
  world := ⟨⟨.twoTenants, Tables.twoTenants_valid⟩, [], ⟨[], [], ⟨[], [], []⟩⟩⟩
  columns := ⟨fun _ => 0, fun _ => none⟩

theorem owned_nil {ρ : Type} (P P' : ρ → Prop) : owned [] P = owned [] P' := by
  ext row
  simp [owned]

theorem ownedWith_nil {ρ γ : Type} (P P' : ρ → Prop) (column column' : ρ → γ) :
    ownedWith [] P column = ownedWith [] P' column' := by
  ext row
  simp [ownedWith]

/-- The stores differ in a run of another tenant. -/
theorem twoTenants_owned : Store.twoTenants.ownedBy ⟨0⟩ = Store.oneTenant.ownedBy ⟨0⟩ := by
  ext1
  · ext row
    constructor
    · rintro ⟨hRow, hTenant⟩
      rcases List.mem_cons.mp hRow with rfl | hOther
      · exact ⟨List.mem_singleton_self _, rfl⟩
      · obtain rfl := List.mem_singleton.mp hOther
        exact absurd hTenant (by decide)
    · rintro ⟨hRow, hTenant⟩
      obtain rfl := List.mem_singleton.mp hRow
      exact ⟨List.mem_cons_self, rfl⟩
  · dsimp only [Store.ownedBy]
    exact ownedWith_nil _ _ _ _
  · exact owned_nil _ _
  · exact ownedWith_nil _ _ _ _
  · exact owned_nil _ _
  · exact owned_nil _ _
  · exact owned_nil _ _
  · exact owned_nil _ _
  · exact owned_nil _ _
  · exact owned_nil _ _
  · exact owned_nil _ _

/-- A request of the tenant. -/
def ApiRequest.of (target : Target) : ApiRequest := ⟨"/v1".toList, ⟨0⟩, target⟩

theorem twoTenants_foreign : Foreign (.of (.run ⟨2⟩)) Store.twoTenants.world.tables :=
  ⟨_, List.mem_cons_of_mem _ List.mem_cons_self, rfl, by decide⟩

theorem oneTenant_foreign : ¬ Foreign (.of (.run ⟨2⟩)) Store.oneTenant.world.tables := by
  rintro ⟨run, hRun, hId, -⟩
  obtain rfl := List.mem_singleton.mp hRun
  exact absurd hId (by decide)

/-- The other run makes no difference to what the tenant is told of its own. -/
theorem responses_agree_iff_own :
    (Foreign (.of (.run ⟨1⟩)) Store.twoTenants.world.tables ↔
      Foreign (.of (.run ⟨1⟩)) Store.oneTenant.world.tables) ∧
      ∀ heard response, Responds .plain (.of (.run ⟨1⟩)) .twoTenants heard response ↔
        Responds .plain (.of (.run ⟨1⟩)) .oneTenant heard response := by
  have hNone (t : Tables) (hRuns : t = Tables.twoTenants ∨ t = Tables.single (.submitted 1) []) :
      ¬ Foreign (.of (.run ⟨1⟩)) t := by
    rintro ⟨run, hRun, hId, hTenant⟩
    rcases hRuns with rfl | rfl
    · rcases List.mem_cons.mp hRun with rfl | hOther
      · exact hTenant rfl
      · obtain rfl := List.mem_singleton.mp hOther
        exact absurd hId (by decide)
    · obtain rfl := List.mem_singleton.mp hRun
      exact hTenant rfl
  have hForeign : Foreign (.of (.run ⟨1⟩)) Store.twoTenants.world.tables ↔
      Foreign (.of (.run ⟨1⟩)) Store.oneTenant.world.tables :=
    iff_of_false (hNone _ (.inl rfl)) (hNone _ (.inr rfl))
  exact ⟨hForeign, (responses_agree_iff .plain (.of (.run ⟨1⟩)) twoTenants_owned).mpr hForeign⟩

/-- A tenant learns that a run of another tenant exists: it is answered with 403, and with 404 where
the run does not exist. -/
theorem existence_observed :
    Store.twoTenants.ownedBy ⟨0⟩ = Store.oneTenant.ownedBy ⟨0⟩ ∧
      (∃ heard, Responds .plain (.of (.run ⟨2⟩)) .twoTenants heard
        (problemResponse .plain (.of (.run ⟨2⟩)) ⟨403, "cross-tenant access denied".toList⟩)) ∧
      (¬ ∃ heard, Responds .plain (.of (.run ⟨2⟩)) .oneTenant heard
        (problemResponse .plain (.of (.run ⟨2⟩)) ⟨403, "cross-tenant access denied".toList⟩)) ∧
      ∃ heard, Responds .plain (.of (.run ⟨2⟩)) .oneTenant heard
        (problemResponse .plain (.of (.run ⟨2⟩)) ⟨404, "run not found".toList⟩) := by
  refine ⟨twoTenants_owned, responds_of_foreign .plain twoTenants_foreign, ?_, ?_⟩
  · rintro ⟨heard, hResponds⟩
    exact oneTenant_foreign (hResponds.foreign rfl)
  · have hOwn : ¬ Owns ⟨0⟩ Store.oneTenant.world.tables ⟨2⟩ := by
      rintro ⟨run, hRun, hId, -⟩
      obtain rfl := List.mem_singleton.mp hRun
      exact absurd hId (by decide)
    have hMissing : Yields ((ApiRequest.of (.run ⟨2⟩)).handle .plain Store.oneTenant.columns)
        Store.oneTenant.world (.error ⟨404, "run not found".toList⟩) :=
      yields_withRun (loaded_missing hOwn oneTenant_foreign)
    exact responds_of_yields .plain hMissing

end Ecrke
