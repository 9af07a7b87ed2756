import Ecrke.Pipeline.Footprints
import Ecrke.Pipeline.RunHistory

/-!
# Executions of the flow side by side

Nothing keeps two executions of one run apart.  Each reads the completed stages once, when it
begins, and skips those and no others; what the other one completes meanwhile it does not see.

* `startsOf`, `OpenAtStart` -- how often a stage is started; a stage which an execution has found
  open when it began.
* `executeStages_once` -- one execution starts a stage at most once, whatever the others do.
* `stages_once` -- a stage is started twice only by two executions which have both found it open.
-/

namespace Ecrke

open Durable

/-- How often the stage of the run is started. -/
def startsOf (runId : Uuid) (stage : Stage) (log : Log Vocabulary) : Nat :=
  log.countP fun m => startedStage runId m = some stage.name

/-- The stage was not checkpointed when the execution with this log took its first step, which reads
the completed stages. -/
def OpenAtStart (runId : Uuid) (stage : Stage) (log : Log Vocabulary) : Prop :=
  ∃ m, log.head? = some m ∧ stage.name ∉ completedOf runId m.before.tables

/-! ## Steps which start no stage -/

/-- No stage is started. -/
def Unstarting (m : Moment Vocabulary) : Prop := Unstarted m.happening

theorem Unstarting.startedStage {m : Moment Vocabulary} (h : Unstarting m) (runId : Uuid) :
    startedStage runId m = none := by
  cases hStage : Ecrke.startedStage runId m with
  | none => rfl
  | some name => exact absurd (startedStage_some hStage) (h runId name)

theorem Unstarting.moved {s t : World} : Unstarting ⟨s, .moved, t⟩ := by
  rintro _ _ ⟨⟩

theorem Unstarting.allows (u : Unicode) : Allows u Unstarting where
  still _ _ h := h
  book _ h := fun _ _ => h.noLine _
  commit _ _ _ _ _ _ := .moved

theorem unstarting_tasks (ctx : PipelineContext) : TasksKeep Unstarting stageTasks ctx :=
  (Unstarting.allows _).tasksKeep (fun _ _ _ => .moved) ctx

/-! ## One execution among others -/

section Execution

variable {runId : Uuid} {α : Type} {s : World} {l : Log Vocabulary}

/-- Other processes may do anything; a stage is started only if it has not been started and was open
at the start. -/
def onceContract (runId : Uuid) : Contract Vocabulary where
  rely _ _ := True
  given _ _ := True
  ensures l m := ∀ stage : Stage, startedStage runId m = some stage.name →
    startsOf runId stage l = 0 ∧ OpenAtStart runId stage l

theorem once_still {m : Moment Vocabulary} (h : Unstarting m) :
    (onceContract runId).ensures l m := by
  intro stage hStage
  rw [h.startedStage] at hStage
  cases hStage

/-- What an execution has read before its loop, and the stages which it has not started. -/
structure StageCourse (runId : Uuid) (completed : List Text) (rest : List Stage)
    (l : Log Vocabulary) : Prop where
  begun : ∃ m, l.head? = some m ∧ completed = completedOf runId m.before.tables
  unstarted : ∀ stage ∈ rest, startsOf runId stage l = 0

theorem startsOf_unstarting {now : Log Vocabulary} (h : ∀ m ∈ now, Unstarting m) (stage : Stage) :
    startsOf runId stage (l ++ now) = startsOf runId stage l := by
  have hNone : startsOf runId stage now = 0 := by
    refine List.countP_eq_zero.mpr fun m hm => ?_
    simp [(h m hm).startedStage]
  rw [startsOf, List.countP_append, ← startsOf, ← startsOf, hNone, Nat.add_zero]

theorem head?_append {m : Moment Vocabulary} (h : l.head? = some m) (now : Log Vocabulary) :
    (l ++ now).head? = some m := by
  rw [List.head?_append, h, Option.some_or]

theorem StageCourse.later {completed : List Text} {rest : List Stage} (h : StageCourse runId completed rest l)
    {now : Log Vocabulary} (hNow : ∀ m ∈ now, Unstarting m) :
    StageCourse runId completed rest (l ++ now) := by
  obtain ⟨m, hHead, hCompleted⟩ := h.begun
  refine ⟨⟨m, head?_append hHead now, hCompleted⟩, fun stage hStage => ?_⟩
  rw [startsOf_unstarting hNow]
  exact h.unstarted stage hStage

/-- The start of a stage which is neither completed nor started, and the stages after it. -/
theorem StageCourse.start {completed : List Text} {stage : Stage} {rest : List Stage}
    {m : Moment Vocabulary} (h : StageCourse runId completed (stage :: rest) l)
    (hDistinct : stage ∉ rest) (hName : startedStage runId m = some stage.name) :
    StageCourse runId completed rest (l ++ [m]) := by
  obtain ⟨first, hHead, hCompleted⟩ := h.begun
  refine ⟨⟨first, head?_append hHead [m], hCompleted⟩, fun other hOther => ?_⟩
  have hNe : stage.name ≠ other.name := by
    intro hEq
    exact hDistinct (Stage.name_injective hEq ▸ hOther)
  have hNow : startsOf runId other [m] = 0 := by
    refine List.countP_eq_zero.mpr fun m' hm' => ?_
    obtain rfl := List.mem_singleton.mp hm'
    simpa [hName] using hNe
  rw [startsOf, List.countP_append, ← startsOf, ← startsOf, hNow, Nat.add_zero]
  exact h.unstarted other (List.mem_cons_of_mem _ hOther)

/-- A part of the flow which starts no stage. -/
theorem unstarting_wp {program : Action α} (h : Keeps Unstarting program) :
    wp (onceContract runId) (fun _ _ l' => ∃ now, l' = l ++ now ∧ ∀ m ∈ now, Unstarting m)
      program s l := by
  refine h.wp (T := fun _ _ => True) (fun _ => trivial) (fun _ _ _ _ _ => trivial)
    (fun _ _ _ => trivial) (fun _ _ => trivial) (fun _ _ _ hm => once_still hm) ?_
  exact fun _ _ now _ hNow => ⟨now, rfl, hNow⟩

/-- What an execution reads is what its first step finds. -/
theorem readStart_course (services : PipelineServices) :
    wp (onceContract runId) (fun r _ l' => ∀ start, r = .ok start →
      StageCourse runId start.completed stages l') (readStart ⟨runId, services⟩) s [] := by
  refine wp_bind (fun r _ l' => ∀ completed, r = .ok completed →
    StageCourse runId completed stages l') (wp_select ?_ ?_) ?_ (by simp)
  · intro t _
    have hLooked : Unstarting ⟨t, .looked, t⟩ := by rintro _ _ ⟨⟩
    refine ⟨once_still hLooked, ?_⟩
    rintro _ ⟨⟩
    refine ⟨⟨_, rfl, rfl⟩, fun stage _ => ?_⟩
    exact startsOf_unstarting (l := []) (List.forall_mem_singleton.mpr hLooked) stage
  · intro fault t _
    exact ⟨once_still (by rintro _ _ ⟨⟩), by simp⟩
  · intro completed t l hCourse
    refine wp_bind _ (unstarting_wp ((Unstarting.allows services.platform.unicode).getRun runId)) ?_ (by simp)
    rintro found u _ ⟨now, rfl, hNow⟩
    cases found with
    | none => exact .raise (by simp)
    | some run =>
        refine .done ?_
        rintro _ ⟨⟩
        exact (hCourse completed rfl).later hNow

/-- One turn of the loop. -/
theorem executeStage_course {start : FlowStart} {stage : Stage} {rest : List Stage}
    (services : PipelineServices) (hDistinct : stage ∉ rest)
    (h : StageCourse runId start.completed (stage :: rest) l) :
    wp (onceContract runId) (fun _ _ l' => StageCourse runId start.completed rest l')
      (executeStage stageTasks .default ⟨runId, services⟩ start stage) s l := by
  have hSkip : StageCourse runId start.completed rest l :=
    ⟨h.begun, fun other hOther => h.unstarted other (List.mem_cons_of_mem _ hOther)⟩
  unfold executeStage
  split
  · exact .done hSkip
  · rename_i hOpen
    obtain ⟨after, hStage, hAfter⟩ := (Unstarting.allows _).runStage_started
      ⟨runId, services⟩ (unstarting_tasks _) .default start.runBudget stage
    rw [hStage]
    refine wp_bind _ (unstarting_wp ((Unstarting.allows services.platform.unicode).markStageStart runId stage)) ?_ ?_
    · rintro _ t _ ⟨now, rfl, hNow⟩
      have hCourse := h.later hNow
      refine wp_bind (fun _ _ l' => StageCourse runId start.completed rest l') (wp_log ?_) ?_ ?_
      · intro u _
        rw [redactSecrets_stage]
        have hName : startedStage runId
            ⟨u, .wrote (.stageStarted runId stage.name), u⟩ = some stage.name :=
          startedStage_of rfl
        refine ⟨fun other hOther => ?_, hCourse.start hDistinct hName⟩
        obtain rfl : stage = other := Stage.name_injective (Option.some.inj (hName.symm.trans hOther))
        obtain ⟨first, hHead, hCompleted⟩ := hCourse.begun
        exact ⟨hCourse.unstarted stage (by simp), first, hHead, hCompleted ▸ hOpen⟩
      · intro _ u l' hCourse
        refine wp_post (unstarting_wp hAfter) ?_
        rintro _ _ _ ⟨now, rfl, hNow⟩
        exact hCourse.later hNow
      · exact fun _ _ _ hCourse => hCourse
    · rintro _ t _ ⟨now, rfl, hNow⟩
      exact hSkip.later hNow

/-- An execution starts a stage at most once, and only if it has found it open, whatever the other
processes do. -/
theorem executeStages_once (services : PipelineServices) :
    wp (onceContract runId) (fun _ _ _ => True) (executeStages ⟨runId, services⟩) s [] := by
  have hSilent {β : Type} {program : Action β} {t : World} {l : Log Vocabulary}
      (h : Keeps Unstarting program) : wp (onceContract runId) (fun _ _ _ => True) program t l :=
    wp_post (unstarting_wp h) fun _ _ _ _ => trivial
  have hAllows := Unstarting.allows services.platform.unicode
  have hFail (error : PyError) : Keeps Unstarting (onFailure ⟨runId, services⟩ error) :=
    hAllows.onFailure (fun _ _ _ _ _ _ _ _ => .moved) _ _
  refine wp_bind _ (readStart_course services) ?_ fun _ _ _ _ => trivial
  intro start t l hCourse
  refine wp_bind (fun _ _ _ => True) (wp_tryCatch (fun _ _ _ => True) ?_ (fun _ _ _ _ => trivial)
    ?_) ?_ fun _ _ _ _ => trivial
  · refine wp_bind (fun _ _ _ => True) (wp_forM
      (fun rest _ l => rest.Nodup ∧ StageCourse runId start.completed rest l) ?_
      (fun _ _ _ => trivial) stages ⟨by decide, hCourse start rfl⟩)
      (fun _ _ _ _ => .done trivial) fun _ _ _ _ => trivial
    rintro stage rest u l ⟨hNodup, hRest⟩
    obtain ⟨hDistinct, hNodup⟩ := List.nodup_cons.mp hNodup
    refine wp_post (executeStage_course services hDistinct hRest) fun r _ _ hEnd => ?_
    cases r with
    | ok value => exact ⟨hNodup, hEnd⟩
    | error error => trivial
  · intro error u l _
    split
    · exact hSilent (keeps_bind (hAllows.onBreach _ _) fun _ => keeps_done _)
    · exact hSilent (keeps_bind (hFail _) fun _ => keeps_done _)
  · rintro (_ | outcome) u l _
    · exact hSilent (hAllows.onCompletion _)
    · exact .done trivial

end Execution

/-! ## Any number of executions -/

section Pool

variable {runId : Uuid} {stage : Stage}

/-- A log along which no stage is started again. -/
theorem once_along {l now : Log Vocabulary} (h : (onceContract runId).Along l now)
    (hBefore : startsOf runId stage l ≤ 1) : startsOf runId stage (l ++ now) ≤ 1 := by
  induction now generalizing l with
  | nil => simpa using hBefore
  | cons m rest ih =>
      rw [List.append_cons]
      refine ih h.2 ?_
      rw [startsOf, List.countP_append, ← startsOf]
      by_cases hStage : startedStage runId m = some stage.name
      · rw [(h.1 stage hStage).1]
        simp [hStage]
      · simpa [hStage] using hBefore

/-- A stage which is started was open at the start. -/
theorem open_along {l now : Log Vocabulary} (h : (onceContract runId).Along l now)
    {m : Moment Vocabulary} (hMem : m ∈ now) (hStage : startedStage runId m = some stage.name) :
    OpenAtStart runId stage (l ++ now) := by
  obtain ⟨earlier, later, rfl, hNow⟩ := h.mem hMem
  obtain ⟨-, first, hHead, hOpen⟩ := hNow stage hStage
  refine ⟨first, ?_, hOpen⟩
  rw [← List.append_assoc]
  exact head?_append hHead _

variable {ι : Type} [DecidableEq ι]

/-- What is done by one process only is in its own log. -/
theorem startsOf_own {log : List (ι × Moment Vocabulary)} {i : ι}
    (h : ∀ entry ∈ log, startedStage runId entry.2 = some stage.name → entry.1 = i) :
    startsOf runId stage (log.map Prod.snd) = startsOf runId stage (own i log) := by
  induction log with
  | nil => rfl
  | cons entry rest ih =>
      obtain ⟨j, m⟩ := entry
      have hRest := ih fun other hOther => h other (List.mem_cons_of_mem _ hOther)
      rw [List.map_cons, startsOf, List.countP_cons, ← startsOf, hRest]
      by_cases hSame : j = i
      · subst hSame
        rw [own_cons_self, startsOf, startsOf, List.countP_cons]
      · have hNot : startedStage runId m ≠ some stage.name := fun hStage =>
          hSame (h (j, m) (by simp) hStage)
        rw [own_cons_of_ne hSame]
        simp [hNot]

/-- In every interleaving of executions of the flow on one run, each execution starts the task of a
stage at most once; and all of them together start it at most once unless two of them had begun
before the checkpoint of the stage was saved. -/
theorem stages_once {services : ι → PipelineServices} {s t : World}
    {log : List (ι × Moment Vocabulary)} {left : ι → Action Text}
    (h : PoolExec (fun i => executeStages ⟨runId, services i⟩) s log left t) (stage : Stage) :
    (∀ i, startsOf runId stage (own i log) ≤ 1) ∧
      (startsOf runId stage (log.map Prod.snd) ≤ 1 ∨ ∃ i j, i ≠ j ∧
        OpenAtStart runId stage (own i log) ∧ OpenAtStart runId stage (own j log)) := by
  have hAlong (i : ι) : (onceContract runId).Along [] (own i log) := by
    refine (PoolExec.sound (C := fun _ => onceContract runId) (Q := fun _ _ _ _ => True)
      (fun _ _ => trivial) (fun _ _ _ _ _ _ => trivial) (fun _ _ _ _ _ _ => trivial) h
      (l := fun _ => []) (fun i => ⟨s, trivial, executeStages_once (services i)⟩) ?_).1 i
    intro j
    generalize ([] : Log Vocabulary) = l
    induction own j log generalizing l with
    | nil => trivial
    | cons m rest ih => exact ⟨trivial, ih _⟩
  have hOnce (i : ι) : startsOf runId stage (own i log) ≤ 1 := once_along (hAlong i) (Nat.zero_le _)
  refine ⟨hOnce, ?_⟩
  by_cases hAlone : ∃ i, ∀ entry ∈ log, startedStage runId entry.2 = some stage.name → entry.1 = i
  · obtain ⟨i, hSame⟩ := hAlone
    rw [startsOf_own hSame]
    exact .inl (hOnce i)
  · -- Two different executions have started the stage, or none has.
    have hOpen {entry : ι × Moment Vocabulary} (hMem : entry ∈ log)
        (hStage : startedStage runId entry.2 = some stage.name) :
        OpenAtStart runId stage (own entry.1 log) :=
      open_along (hAlong entry.1) (mem_own.mpr hMem) hStage
    by_cases hSome : ∃ entry ∈ log, startedStage runId entry.2 = some stage.name
    · obtain ⟨first, hFirst, hStage⟩ := hSome
      have hOther : ∃ entry ∈ log, startedStage runId entry.2 = some stage.name ∧
          entry.1 ≠ first.1 := by
        by_contra hNone
        refine hAlone ⟨first.1, fun entry hEntry hStarted => ?_⟩
        by_contra hNe
        exact hNone ⟨entry, hEntry, hStarted, hNe⟩
      obtain ⟨second, hSecond, hStage', hNe⟩ := hOther
      exact .inr ⟨second.1, first.1, hNe, hOpen hSecond hStage', hOpen hFirst hStage⟩
    · refine .inl (le_of_eq_of_le (List.countP_eq_zero.mpr fun m hm => ?_) (Nat.zero_le 1))
      obtain ⟨entry, hEntry, rfl⟩ := List.mem_map.mp hm
      have hNot : startedStage runId entry.2 ≠ some stage.name := fun hStage =>
        hSome ⟨entry, hEntry, hStage⟩
      simpa using hNot

end Pool

/-! ## A run which is resumed while it executes -/

/-- Two executions of a run, the second one resumed right after the first has begun. -/
def overlapping (_ : Bool) : PipelineServices := ({ } : Served).services

/-- Both read the completed stages, and then one after the other executes the first stage. -/
def overlap : List Bool :=
  List.replicate 2 false ++ List.replicate 2 true ++ List.replicate 26 false ++
    List.replicate 26 true

/-- Both executions, up to the end of the first stage. -/
def overlapRun : List (Bool × Moment Vocabulary) × (Bool → Action Text) × World :=
  runSchedule (({ } : Served).outside fun _ => .grant) overlap 0
    (fun i => executeStages ⟨⟨1⟩, overlapping i⟩) (World.submitted 1)

theorem overlapRun_exec : PoolExec (fun i => executeStages ⟨⟨1⟩, overlapping i⟩)
    (World.submitted 1) overlapRun.1 overlapRun.2.1 overlapRun.2.2 :=
  runSchedule_exec (({ } : Served).outside fun _ => .grant) overlap 0 _ _

theorem stages_once_overlap :
    (∀ i, startsOf ⟨1⟩ .define (own i overlapRun.1) ≤ 1) ∧
      (startsOf ⟨1⟩ .define (overlapRun.1.map Prod.snd) ≤ 1 ∨ ∃ i j, i ≠ j ∧
        OpenAtStart ⟨1⟩ .define (own i overlapRun.1) ∧
          OpenAtStart ⟨1⟩ .define (own j overlapRun.1)) :=
  stages_once overlapRun_exec .define

/-- The step reports the stage of the run as completed. -/
def completesStage (runId : Uuid) (stage : Stage) (m : Moment Vocabulary) : Bool :=
  match m.happening with
  | .wrote (.stageCompleted id name ok _) => id = runId && name = stage.name && ok
  | _ => false

theorem overlapRun_completes :
    (overlapRun.1.filter fun entry => completesStage ⟨1⟩ .define entry.2).map Prod.fst =
      [false, true] := by
  decide +kernel

/-- Both executions run the task of the first stage to completion. -/
theorem stages_twice : ∃ (services : Bool → PipelineServices) (s t : World)
    (log : List (Bool × Moment Vocabulary)) (left : Bool → Action Text), FreshRun ⟨1⟩ s.tables ∧
      PoolExec (fun i => executeStages ⟨⟨1⟩, services i⟩) s log left t ∧
        1 < log.countP fun entry => completesStage ⟨1⟩ .define entry.2 := by
  refine ⟨overlapping, _, _, _, _, World.submitted_fresh 1, overlapRun_exec, ?_⟩
  rw [List.countP_eq_length_filter, ← List.length_map (f := Prod.fst), overlapRun_completes]
  decide

end Ecrke
