import Ecrke.Durable.Contract

/-!
# Footprints of executions

What a footprint says about executions, and footprints which are about the questions a program puts
to the outside world.

* `Exec.keeps`, `HistoryWhere.keeps` -- every step of an execution is in the footprint.
* `Moment.question`, `Asks` -- the question of a step; a step which asks only certain questions.
* `asks_query` ... `asks_log` -- the primitive programs.
-/

namespace Ecrke
namespace Durable

variable {S : Signature} {α : Type} {R : Moment S → Prop}

/-- Every step of an execution is in the footprint of the program, and so is what is left of it. -/
theorem Exec.keeps {p q : Prog S α} {s t : S.State} {log : Log S} (h : Exec p s log q t)
    (hp : Keeps R p) : (∀ m ∈ log, R m) ∧ Keeps R q := by
  induction h with
  | refl p s => exact ⟨by simp, hp⟩
  | @step p q r m later u first rest ih =>
      obtain ⟨hLater, hLeft⟩ := ih (hp.next first)
      exact ⟨by simpa using ⟨hp.now first, hLater⟩, hLeft⟩

/-- Every step of a history is in the common footprint of the jobs which may be started. -/
theorem HistoryWhere.keeps_where {ι : Type} {result : ι → Type}
    {job : (i : ι) → Prog S (result i)} {may : ι → S.State → Prop} {s t : S.State} {log : Log S}
    (h : HistoryWhere job may s log t) (hJob : ∀ i s, may i s → Keeps R (job i)) :
    ∀ m ∈ log, R m := by
  induction h with
  | nil => simp
  | snoc past i hMay last ih =>
      intro m hm
      rcases List.mem_append.mp hm with hPast | hNow
      · exact ih m hPast
      · exact (last.keeps (hJob i _ hMay)).1 m hNow

/-- Every step of a history is in the common footprint of its jobs. -/
theorem HistoryWhere.keeps {ι : Type} {result : ι → Type} {job : (i : ι) → Prog S (result i)}
    {may : ι → S.State → Prop} {s t : S.State} {log : Log S} (h : HistoryWhere job may s log t)
    (hJob : ∀ i, Keeps R (job i)) : ∀ m ∈ log, R m :=
  h.keeps_where fun i _ _ => hJob i

/-! ## Questions -/

/-- The question of a step. -/
def Moment.question (m : Moment S) : Option S.Query :=
  match m.happening with
  | .asked query _ => some query
  | _ => none

/-- A step which asks no question but those in `A`. -/
def Asks (A : S.Query → Prop) (m : Moment S) : Prop := ∀ query, m.question = some query → A query

variable {A : S.Query → Prop}

theorem asks_of_none {m : Moment S} (h : m.question = none) : Asks A m := by
  intro query hQuery
  rw [h] at hQuery
  cases hQuery

theorem asks_query {question : S.Query} (h : A question) : Keeps (Asks A) (Prog.query question) := by
  refine keeps_query ?_
  rintro answer s query ⟨⟩
  exact h

theorem asks_select {run : S.State → α} : Keeps (Asks A) (Prog.select run) :=
  keeps_select (fun _ => asks_of_none rfl) fun _ => asks_of_none rfl

theorem asks_commit {run : S.State → Except S.Err (α × S.State)} :
    Keeps (Asks A) (Prog.commit run) :=
  keeps_commit (fun _ _ _ _ => asks_of_none rfl) fun _ => asks_of_none rfl

theorem asks_atomically {run : S.State → α × S.State} : Keeps (Asks A) (Prog.atomically run) :=
  keeps_atomically fun _ => asks_of_none rfl

theorem asks_log {event : S.Event} : Keeps (Asks A) (Prog.log event) :=
  keeps_log fun _ => asks_of_none rfl

end Durable
end Ecrke
