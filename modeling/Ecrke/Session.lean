import Ecrke.Durable.Scheduled
import Ecrke.Services.AuditWriter
import Mathlib.Logic.Equiv.Fin.Basic

/-!
# Executions of database sessions

What an execution of the database steps of a session comes to.

* `Exec.of_commitWrites`, `commitWrites_done` -- a commit in front of others, and one which reports
  success.
* `selectRows_order`, `selectRows_done` -- the rows which a query finds, in some order.
* `Yields`, `yields_selectRows` -- what a program may return; a query, its rows in any order.
* `Reaches` -- a step which a program may come to.
* `Same` -- a step which leaves the world as it is; `Exec.same`, an execution of such steps.
-/

namespace Ecrke

open Durable

variable {α : Type} {s t : World} {log : Log Vocabulary}

/-- A step which carries out a commit. -/
theorem applied_tables {writes : List Write} {value : Unit} {v : World}
    (h : (match s.db.applyAll writes with
      | .ok db => .ok ((), { s with db })
      | .error error => .error error : Except PyError (Unit × World)) = .ok (value, v)) :
    v.tables = s.tables.after writes := by
  cases hWrites : s.db.applyAll writes with
  | error error => simp [hWrites] at h
  | ok db =>
      simp only [hWrites, Except.ok.injEq] at h
      cases h
      exact Database.applyAll_ok hWrites

/-- A commit in front of others: it leaves no trace, or it is carried out; then the execution ends
there if its report is lost, and goes on otherwise. -/
theorem Exec.of_commitWrites {writes : List Write} {f : Unit → Action α} {left : Action α}
    (h : Exec ((commitWrites writes).bind f) s log left t) :
    t = s ∨ ∃ v : World, v.tables = s.tables.after writes ∧
      ((t = v ∧ ∃ fault, left = .raise (Vocabulary.ofFault fault)) ∨
        ∃ rest, Exec (f ()) v rest left t) := by
  cases h with
  | refl => exact .inl rfl
  | step first rest =>
      cases first with
      | commit _ _ value _ v hRun => exact .inr ⟨v, applied_tables hRun, .inr ⟨_, rest⟩⟩
      | ackLost _ _ value fault _ v hRun =>
          obtain ⟨-, rfl, rfl⟩ := Exec.of_raise rest
          exact .inr ⟨_, applied_tables hRun, .inl ⟨rfl, fault, rfl⟩⟩
      | reject _ _ error _ hRun =>
          obtain ⟨-, -, rfl⟩ := Exec.of_raise rest
          exact .inl rfl
      | txFault _ _ fault _ =>
          obtain ⟨-, -, rfl⟩ := Exec.of_raise rest
          exact .inl rfl

/-- A commit which has reported success has been carried out. -/
theorem commitWrites_done {writes : List Write} {value : Unit}
    (h : Exec (commitWrites writes) s log (.done value) t) : t.tables = s.tables.after writes := by
  cases h with
  | step first rest =>
      cases first with
      | commit _ _ value _ u hRun =>
          obtain ⟨-, -, rfl⟩ := rest.of_done
          exact applied_tables hRun
      | ackLost _ _ value fault _ u hRun =>
          obtain ⟨-, hRaise, -⟩ := Exec.of_raise rest
          cases hRaise
      | reject _ _ error _ hRun =>
          obtain ⟨-, hRaise, -⟩ := Exec.of_raise rest
          cases hRaise
      | txFault _ _ fault _ =>
          obtain ⟨-, hRaise, -⟩ := Exec.of_raise rest
          cases hRaise

/-- The rows which a query finds are those which are there, in the order which it is told. -/
theorem selectRows_order {ρ : Type} {f : Tables → List ρ} {rows : List ρ}
    (h : Exec (selectRows f) s log (.done rows) t) : t = s ∧
      ∃ order, rows = arrange (f s.tables) order ∧
        ⟨s, .asked (.rowOrder (f s.tables).length) order, s⟩ ∈ log := by
  obtain ⟨found, now, later, u, rfl, hFound, hRest⟩ := Exec.of_bind_done h
  obtain ⟨rfl, rfl⟩ := Exec.of_select_done hFound
  rcases Exec.of_query hRest with ⟨-, hOpen, -⟩ | ⟨order, last, rfl, hLast⟩
  · cases hOpen
  · obtain ⟨-, hDone, rfl⟩ := Exec.of_done hLast
    cases hDone
    exact ⟨rfl, order, rfl, by simp⟩

/-- Two arrangements of the same rows differ by a permutation of the places. -/
theorem perm_places {ρ : Type} {rows rows' : List ρ} (h : rows'.Perm rows) :
    ∃ places : Fin rows'.length ≃ Fin rows.length, ∀ i, rows'.get i = rows.get (places i) := by
  induction h with
  | nil => exact ⟨Equiv.refl _, fun i => i.elim0⟩
  | @cons row l l' _ ih =>
      obtain ⟨places, hPlaces⟩ := ih
      refine ⟨(finSuccEquiv l.length).trans (places.optionCongr.trans (finSuccEquiv l'.length).symm),
        fun i => ?_⟩
      cases i using Fin.cases with
      | zero => rfl
      | succ i => exact hPlaces i
  | swap a b l =>
      refine ⟨Equiv.swap 0 1, fun i => ?_⟩
      cases i using Fin.cases with
      | zero => rfl
      | succ i =>
          cases i using Fin.cases with
          | zero => rfl
          | succ i =>
              have hOther : Equiv.swap (0 : Fin (l.length + 2)) 1 i.succ.succ = i.succ.succ :=
                Equiv.swap_apply_of_ne_of_ne (by simp [Fin.ext_iff]) (by simp [Fin.ext_iff])
              exact congrArg (a :: b :: l).get hOther.symm
  | trans _ _ ih ih' =>
      obtain ⟨first, hFirst⟩ := ih
      obtain ⟨second, hSecond⟩ := ih'
      exact ⟨first.trans second, fun i => (hFirst i).trans (hSecond _)⟩

/-- A query may return its rows in any order. -/
theorem exists_arrange {ρ : Type} {rows rows' : List ρ} (h : rows'.Perm rows) :
    ∃ order, arrange rows order = rows' := by
  obtain ⟨places, hPlaces⟩ := perm_places h
  refine ⟨(finCongr h.length_eq.symm).trans places, ?_⟩
  apply List.ext_get
  · simp [arrange, h.length_eq]
  · intro i hi hi'
    rw [hPlaces]
    simp [arrange]

/-- The program may return the value and leave the world as it is. -/
def Yields (program : Action α) (s : World) (value : α) : Prop :=
  ∃ log, Exec program s log (.done value) s

theorem yields_done (value : α) : Yields (.done value) s value := ⟨[], .refl _ _⟩

theorem yields_query (question : Query) (answer : Answer question) :
    Yields (Prog.query (S := Vocabulary) question) s answer :=
  ⟨_, exec_query (S := Vocabulary) question answer s⟩

theorem Yields.bind {β : Type} {program : Action α} {rest : α → Action β} {value : α} {last : β}
    (first : Yields program s value) (then_ : Yields (rest value) s last) :
    Yields (program.bind rest) s last := by
  obtain ⟨now, hFirst⟩ := first
  obtain ⟨later, hRest⟩ := then_
  exact ⟨now ++ later, hFirst.bind hRest⟩

theorem yields_ofExcept {result : Except PyError α} {value : α} (h : result = .ok value) :
    Yields (Prog.ofExcept result : Action α) s value := by
  rw [h]
  exact yields_done value

theorem yields_selectTables (f : Tables → α) : Yields (selectTables f) s (f s.tables) :=
  ⟨_, exec_select (S := Vocabulary) (fun w : World => f w.tables) s⟩

/-- A query finds the rows which are there in any order. -/
theorem yields_selectRows {ρ : Type} {f : Tables → List ρ} {rows : List ρ}
    (h : rows.Perm (f s.tables)) : Yields (selectRows f) s rows := by
  obtain ⟨order, rfl⟩ := exists_arrange h
  exact (yields_selectTables f).bind ((yields_query (.rowOrder _) order).bind (yields_done _))

/-- The program may come to take the step. -/
def Reaches (program : Action α) (s : World) (m : Moment Vocabulary) : Prop :=
  ∃ log left t, Exec program s log left t ∧ m ∈ log

theorem Reaches.front {β : Type} {program : Action α} {m : Moment Vocabulary}
    (h : Reaches program s m) (rest : α → Action β) : Reaches (program.bind rest) s m := by
  obtain ⟨log, left, t, hExec, hMem⟩ := h
  exact ⟨log, left.bind rest, t, hExec.front rest, hMem⟩

theorem Reaches.after {β : Type} {program : Action α} {rest : α → Action β} {value : α}
    {m : Moment Vocabulary} (first : Yields program s value) (h : Reaches (rest value) s m) :
    Reaches (program.bind rest) s m := by
  obtain ⟨now, hFirst⟩ := first
  obtain ⟨later, left, t, hExec, hMem⟩ := h
  exact ⟨now ++ later, left, t, hFirst.bind hExec, List.mem_append_right _ hMem⟩

theorem reaches_emit (event : Event) : Reaches (emit event) s ⟨s, .wrote event, s⟩ :=
  ⟨_, _, _, .step (Step.emit (S := Vocabulary) event (Prog.done ()) s) (.refl _ _),
    List.mem_singleton_self _⟩

theorem selectRows_done {ρ : Type} {f : Tables → List ρ} {rows : List ρ}
    (h : Exec (selectRows f) s log (.done rows) t) : t = s ∧ rows.Perm (f s.tables) := by
  obtain ⟨hSame, order, rfl, -⟩ := selectRows_order h
  exact ⟨hSame, perm_arrange⟩

theorem ofExcept_done {result : Except PyError α} {value : α}
    (h : Exec (Prog.ofExcept result : Action α) s log (.done value) t) :
    t = s ∧ result = .ok value := by
  cases result with
  | ok found =>
      obtain ⟨-, hDone, rfl⟩ := Exec.of_done h
      cases hDone
      exact ⟨rfl, rfl⟩
  | error error =>
      obtain ⟨-, hDone, -⟩ := Exec.of_raise h
      cases hDone

/-! ## Steps which change nothing -/

/-- A step which leaves the world as it is. -/
def Same (m : Moment Vocabulary) : Prop := m.after = m.before

theorem same_query (question : Query) :
    Keeps Same (Prog.query (S := Vocabulary) question : Action (Answer question)) :=
  keeps_query fun _ _ => rfl

theorem Exec.same {program left : Action α} (h : Exec program s log left t)
    (hKeeps : Keeps Same program) : t = s :=
  (h.linked.invariant (fun u : World => u = s)
    (fun m hm hBefore => ((h.keeps hKeeps).1 m hm).trans hBefore) rfl).1

theorem same_auditAppend (p : Platform) (entry : AuditEntry) : Keeps Same (auditAppend p entry) :=
  keeps_bind (keeps_ofExcept _) fun _ => keeps_bind (same_query _) fun _ =>
    keeps_bind (same_query _) fun _ => keeps_done _

theorem same_selectRows {ρ : Type} (f : Tables → List ρ) : Keeps Same (selectRows f) :=
  keeps_bind (keeps_select (fun _ => rfl) fun _ => rfl) fun _ =>
    keeps_bind (same_query _) fun _ => keeps_done _

end Ecrke
