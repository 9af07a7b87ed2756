import Ecrke.Durable.Sequential
import Ecrke.World

/-!
# Quiet steps and the rules for database steps

Most steps of a service neither write to the database nor to the log.  A program made of such steps
is skipped over in a proof as one.

* `Quiet` -- a step which leaves the database and the log alone.
* `quiet_uuid4` ... `quiet_selectRows` -- the primitive actions which are quiet.
* `Alone.quiet` -- a quiet program in front of the rest of a proof.
* `Alone.ask`, `Alone.modifyMemory` -- quiet steps which cannot fail.
* `Alone.withTables`, `Alone.selectRows`, `Alone.withRun`, `Alone.commitWrites`, `Alone.commitRun`
  -- the rules for the database steps of a program which runs alone.
-/

namespace Ecrke

open Durable

/-- A step which leaves the database and the log alone. -/
def Quiet (m : Moment Vocabulary) : Prop :=
  m.after.db = m.before.db ∧ ∀ event, m.happening ≠ .wrote event

section Primitive

theorem quiet_query (question : Query) :
    Keeps Quiet (Prog.query (S := Vocabulary) question : Action (Answer question)) :=
  keeps_query fun _ _ => ⟨rfl, by simp⟩

theorem quiet_uuid4 : Keeps Quiet uuid4 := quiet_query _

theorem quiet_now : Keeps Quiet now := quiet_query _

theorem quiet_dbNow : Keeps Quiet dbNow := quiet_query _

theorem quiet_loopTime : Keeps Quiet loopTime := quiet_query _

theorem quiet_perfCounter : Keeps Quiet perfCounter := quiet_query _

theorem quiet_sleep (seconds : ℚ) : Keeps Quiet (sleep seconds) := quiet_query _

theorem quiet_raiseError {α : Type} (kind : ErrorClass) (message : Text) :
    Keeps Quiet (raiseError kind message : Action α) :=
  keeps_raise _

theorem quiet_ofExcept {α : Type} (result : Except PyError α) :
    Keeps Quiet (Prog.ofExcept result : Action α) :=
  keeps_ofExcept (S := Vocabulary) result

theorem quiet_modifyMemory (f : Memory → Memory) : Keeps Quiet (modifyMemory f) :=
  keeps_atomically fun _ => ⟨rfl, by simp⟩

theorem quiet_readMemory {α : Type} (f : Memory → α) : Keeps Quiet (readMemory f) :=
  keeps_atomically fun _ => ⟨rfl, by simp⟩

theorem quiet_selectTables {α : Type} (f : Tables → α) : Keeps Quiet (selectTables f) :=
  keeps_select (fun _ => ⟨rfl, by simp⟩) (fun _ => ⟨rfl, by simp⟩)

theorem quiet_selectRows {ρ : Type} (f : Tables → List ρ) : Keeps Quiet (selectRows f) :=
  keeps_bind (quiet_selectTables f) fun _ => keeps_bind (quiet_query _) fun _ => keeps_done _

theorem quiet_getRun (runId : Uuid) : Keeps Quiet (getRun runId) := quiet_selectTables _

end Primitive

/-! ## Rules for programs which run alone -/

section Rules

variable {E : Moment Vocabulary → Prop} {s : World}

/-- A quiet program leaves the database as it is. -/
theorem Alone.quiet (hE : ∀ m, Quiet m → E m) {α : Type} {p : Action α} (h : Keeps Quiet p)
    {Q : Except PyError α → World → Prop} (hQ : ∀ r t, t.db = s.db → Q r t) : Alone E Q p s :=
  Alone.of_keeps (S := Vocabulary) (T := fun s t : World => t.db = s.db) (fun _ => rfl)
    (fun _ _ _ h₁ h₂ => h₂.trans h₁) (fun _ hm => hm.1) h hE hQ

/-- A quiet program in front of others: what holds of the tables still holds where it returns. -/
theorem Alone.quietOk (hE : ∀ m, Quiet m → E m) {α : Type} {p : Action α} (h : Keeps Quiet p)
    {I : Tables → Prop} (hI : I s.tables) : Alone E (onOk fun _ t => I t.tables) p s := by
  refine Alone.quiet hE h fun r t ht => ?_
  cases r with
  | error error => trivial
  | ok value =>
      rw [World.tables, ← ht] at hI
      exact hI

/-- A quiet program in front of others, with the database as it was. -/
theorem Alone.quietDb (hE : ∀ m, Quiet m → E m) {α : Type} {p : Action α} (h : Keeps Quiet p) :
    Alone E (onOk fun _ t => t.db = s.db) p s := by
  refine Alone.quiet hE h fun r t ht => ?_
  cases r with
  | error error => trivial
  | ok value => exact ht

/-- A quiet program whose end is arbitrary. -/
theorem Alone.quietly (hE : ∀ m, Quiet m → E m) {α : Type} {p : Action α} (h : Keeps Quiet p) :
    Alone E anyEnd p s :=
  Alone.quiet hE h fun _ _ _ => trivial

/-- Ask the outside world and go on with the answer. -/
theorem Alone.ask (hE : ∀ m, Quiet m → E m) {question : Query} {α : Type}
    {f : Answer question → Action α} {Q : Except PyError α → World → Prop}
    (h : ∀ answer, Alone E Q (f answer) s) :
    Alone E Q ((Prog.query (S := Vocabulary) question).bind f) s := by
  refine Alone.bind (fun r t => t = s ∧ ∃ answer, r = .ok answer)
    (Alone.query fun answer => ⟨hE _ ⟨rfl, by simp⟩, rfl, answer, rfl⟩) ?_ ?_
  · rintro answer t ⟨rfl, -⟩
    exact h answer
  · rintro error t ⟨-, answer, hAnswer⟩
    cases hAnswer

/-- Change the memory of the process, which no table depends on. -/
theorem Alone.modifyMemory (hE : ∀ m, Quiet m → E m) {f : Memory → Memory}
    {Q : Except PyError Unit → World → Prop} (h : ∀ t : World, t.tables = s.tables → Q (.ok ()) t) :
    Alone E Q (Ecrke.modifyMemory f) s :=
  Alone.atomically (hE _ ⟨rfl, by simp⟩) (h _ rfl)

theorem isDbError_fault (fault : Text) : IsDbError (Vocabulary.ofFault fault) := by
  simp [IsDbError]

theorem Alone.selectTables (hE : ∀ m, Quiet m → E m) {α : Type} {f : Tables → α}
    {Q : Except PyError α → World → Prop} (hOk : Q (.ok (f s.tables)) s)
    (hError : ∀ error, IsDbError error → Q (.error error) s) : Alone E Q (selectTables f) s :=
  Alone.select (hE _ ⟨rfl, by simp⟩) (hE _ ⟨rfl, by simp⟩) hOk fun fault =>
    hError _ (isDbError_fault fault)

/-- Read the tables and go on with the result. -/
theorem Alone.withTables (hE : ∀ m, Quiet m → E m) {α β : Type} {f : Tables → α}
    {g : α → Action β} {Q : Except PyError β → World → Prop}
    (hRest : Alone E Q (g (f s.tables)) s)
    (hError : ∀ error, IsDbError error → Q (.error error) s) :
    Alone E Q ((Ecrke.selectTables f).bind g) s := by
  refine Alone.bind (fun r t => t = s ∧ ((∃ error, IsDbError error ∧ r = .error error) ∨
    r = .ok (f s.tables))) (Alone.selectTables hE ⟨rfl, .inr rfl⟩ fun error h =>
      ⟨rfl, .inl ⟨error, h, rfl⟩⟩) ?_ ?_
  · rintro value t ⟨rfl, ⟨error, -, hValue⟩ | hValue⟩
    · cases hValue
    · cases hValue
      exact hRest
  · rintro error t ⟨rfl, ⟨_, hKind, hEq⟩ | hEq⟩
    · cases hEq
      exact hError error hKind
    · cases hEq

theorem Alone.selectRows (hE : ∀ m, Quiet m → E m) {ρ : Type} {f : Tables → List ρ}
    {Q : Except PyError (List ρ) → World → Prop}
    (hOk : ∀ rows : List ρ, rows.Perm (f s.tables) → Q (.ok rows) s)
    (hError : ∀ error, IsDbError error → Q (.error error) s) :
    Alone E Q (selectRows f) s := by
  refine Alone.withTables hE ?_ hError
  refine Alone.bind (fun r u => u = s ∧ ∃ order, r = .ok order) (Alone.query ?_) ?_ ?_
  · exact fun order => ⟨hE _ ⟨rfl, by simp⟩, rfl, order, rfl⟩
  · rintro order u ⟨rfl, -⟩
    exact Alone.done (hOk _ perm_arrange)
  · rintro error u ⟨rfl, order, hOrder⟩
    cases hOrder

theorem Alone.commitWrites (hE : ∀ m, Quiet m → E m) {writes : List Write}
    {Q : Except PyError Unit → World → Prop}
    (hOk : ∀ t : World, t.tables = s.tables.after writes →
      E ⟨s, .moved, t⟩ ∧ Q (.ok ()) t ∧ ∀ error, IsDbError error → Q (.error error) t)
    (hError : ∀ error, IsDbError error → Q (.error error) s) :
    Alone E Q (commitWrites writes) s := by
  refine Alone.commit ?_ (hE _ ⟨rfl, by simp⟩) ?_
  · intro value t hRun
    cases hWrites : s.db.applyAll writes with
    | error error => simp [hWrites] at hRun
    | ok db =>
        simp only [hWrites, Except.ok.injEq] at hRun
        cases hRun
        obtain ⟨hNow, hEnd, hLost⟩ := hOk { s with db } (Database.applyAll_ok hWrites)
        exact ⟨hNow, hEnd, fun fault => hLost _ (isDbError_fault fault)⟩
  · rintro error (hRun | ⟨fault, rfl⟩)
    · cases hWrites : s.db.applyAll writes with
      | error other =>
          simp only [hWrites, Except.error.injEq] at hRun
          cases hRun
          exact hError _ (Database.applyAll_error hWrites)
      | ok db => simp [hWrites] at hRun
    · exact hError _ (isDbError_fault fault)

/-- What a session writes for a run which it has loaded, when nothing else has happened since. -/
theorem Alone.commitRun (hE : ∀ m, Quiet m → E m)
    {loaded edited : Run} {runId : Uuid} (hRun : runOf runId s.tables = some loaded)
    (hEdit : edited.EditOf loaded)
    {Q : Except PyError Unit → World → Prop}
    (hOk : ∀ t : World, t.tables = s.tables.setRun edited →
      E ⟨s, .moved, t⟩ ∧ Q (.ok ()) t ∧ ∀ error, IsDbError error → Q (.error error) t)
    (hError : ∀ error, IsDbError error → Q (.error error) s) :
    Alone E Q (Ecrke.commitWrites (loaded.updates edited)) s := by
  refine Alone.commitWrites hE (fun t ht => hOk t ?_) hError
  rw [ht]
  exact Tables.after_updates s.db.valid.runsKey (runOf_mem hRun) hEdit

/-- Read a run and go on with its row. -/
theorem Alone.withRun (hE : ∀ m, Quiet m → E m) {α : Type} {runId : Uuid}
    {f : Option Run → Action α} {Q : Except PyError α → World → Prop}
    (hSome : ∀ run, runOf runId s.tables = some run → Alone E Q (f (some run)) s)
    (hNone : runOf runId s.tables = none → Alone E Q (f none) s)
    (hError : ∀ error, IsDbError error → Q (.error error) s) :
    Alone E Q ((getRun runId).bind f) s := by
  refine Alone.withTables hE ?_ hError
  cases hRow : findRow Run.id runId s.tables.runs with
  | none => exact hNone hRow
  | some run => exact hSome run hRow

end Rules

end Ecrke
