import Mathlib.Logic.Basic
import Mathlib.Control.Lawful

/-!
# Programs over a durable store

A service that keeps its state in a database is, to anybody who watches the database, a tree of
steps: it reads, it commits, it asks the outside world something, it logs a line, and between any
two of these the process may be killed.  This file defines such trees and the two ways of composing
them which the source language has, sequencing and `try`/`except`.

* `Signature` -- what a family of programs is about: the durable state, the questions put to the
  outside world with the type of each answer, the log events, the exceptions, and the faults with
  which a database step may fail.
* `Prog` -- the programs.  A database step (`read`, `tx`) hands its continuation either its result
  or an exception, so a handler sees exactly the failures which it would see in the source.
* `Prog.bind`, `Prog.tryCatch` -- sequencing and exception handling, with the monad laws.

Nothing here fixes a state, an interface or a policy for faults; the file can be lifted out and used
for another service.
-/

namespace Ecrke
namespace Durable

/-- The vocabulary of a family of programs over one durable store. -/
structure Signature where
  /-- The durable state, together with whatever process memory the programs share. -/
  State : Type
  /-- Questions to the outside world. -/
  Query : Type
  /-- The answers a question may get; a failing service is part of its answer type. -/
  Answer : Query → Type
  /-- Lines of the log. -/
  Event : Type
  /-- Exceptions. -/
  Err : Type
  /-- Infrastructure failures of a database step. -/
  Fault : Type
  /-- The exception a fault surfaces as. -/
  ofFault : Fault → Err

/-- A program: a tree whose nodes are the observable steps. -/
inductive Prog (S : Signature) (α : Type) : Type 1 where
  /-- Return a value. -/
  | done (value : α)
  /-- Let an exception escape. -/
  | raise (error : S.Err)
  /-- Write one line to the log. -/
  | emit (event : S.Event) (next : Prog S α)
  /-- Ask the outside world. -/
  | ask (query : S.Query) (next : S.Answer query → Prog S α)
  /-- An in-process step on shared memory; it cannot fail. -/
  | act {β : Type} (run : S.State → β × S.State) (next : β → Prog S α)
  /-- A database read; it may fail. -/
  | read {β : Type} (run : S.State → β) (next : Except S.Err β → Prog S α)
  /-- An atomic database transaction; a constraint may reject it, and it may fail. -/
  | tx {β : Type} (run : S.State → Except S.Err (β × S.State))
      (next : Except S.Err β → Prog S α)

namespace Prog

variable {S : Signature} {α β γ : Type}

/-- Sequencing: run the first program and continue with its value. -/
protected def bind : Prog S α → (α → Prog S β) → Prog S β
  | done value, f => f value
  | raise error, _ => raise error
  | emit event next, f => emit event (next.bind f)
  | ask query next, f => ask query fun answer => (next answer).bind f
  | act run next, f => act run fun value => (next value).bind f
  | read run next, f => read run fun result => (next result).bind f
  | tx run next, f => tx run fun result => (next result).bind f

/-- `try`/`except`: an exception which escapes the body is handed to the handler. -/
protected def tryCatch : Prog S α → (S.Err → Prog S α) → Prog S α
  | done value, _ => done value
  | raise error, handler => handler error
  | emit event next, handler => emit event (next.tryCatch handler)
  | ask query next, handler => ask query fun answer => (next answer).tryCatch handler
  | act run next, handler => act run fun value => (next value).tryCatch handler
  | read run next, handler => read run fun result => (next result).tryCatch handler
  | tx run next, handler => tx run fun result => (next result).tryCatch handler

/-- Continue with a value or let the exception escape. -/
def ofExcept : Except S.Err α → Prog S α
  | .ok value => done value
  | .error error => raise error

instance : Monad (Prog S) where
  pure := done
  bind := Prog.bind

instance : MonadExcept S.Err (Prog S) where
  throw := raise
  tryCatch := Prog.tryCatch

@[simp] theorem pure_def (value : α) : (pure value : Prog S α) = done value := rfl

@[simp] theorem bind_def (p : Prog S α) (f : α → Prog S β) : p >>= f = p.bind f := rfl

@[simp] theorem throw_def (error : S.Err) : (throw error : Prog S α) = raise error := rfl

@[simp] theorem tryCatch_def (p : Prog S α) (handler : S.Err → Prog S α) :
    tryCatch p handler = p.tryCatch handler := rfl

@[simp] theorem map_def (f : α → β) (p : Prog S α) : f <$> p = p.bind fun a => done (f a) := rfl

theorem bind_done (p : Prog S α) : p.bind done = p := by
  induction p with
  | done value => rfl
  | raise error => rfl
  | emit event next ih => exact congrArg (emit event) ih
  | ask query next ih => exact congrArg (ask query) (funext ih)
  | act run next ih => exact congrArg (act run) (funext ih)
  | read run next ih => exact congrArg (read run) (funext ih)
  | tx run next ih => exact congrArg (tx run) (funext ih)

theorem bind_assoc (p : Prog S α) (f : α → Prog S β) (g : β → Prog S γ) :
    (p.bind f).bind g = p.bind fun value => (f value).bind g := by
  induction p with
  | done value => rfl
  | raise error => rfl
  | emit event next ih => exact congrArg (emit event) ih
  | ask query next ih => exact congrArg (ask query) (funext ih)
  | act run next ih => exact congrArg (act run) (funext ih)
  | read run next ih => exact congrArg (read run) (funext ih)
  | tx run next ih => exact congrArg (tx run) (funext ih)

instance : LawfulMonad (Prog S) :=
  LawfulMonad.mk' (Prog S) (fun p => bind_done p) (fun _ _ => rfl)
    (fun p f g => bind_assoc p f g)

/-! ## The primitive programs -/

/-- Write one line to the log. -/
def log (event : S.Event) : Prog S Unit := emit event (done ())

/-- Ask a question and return the answer. -/
def query (question : S.Query) : Prog S (S.Answer question) := ask question done

/-- Run an in-process step. -/
def atomically (run : S.State → α × S.State) : Prog S α := act run done

/-- Read the store. -/
def select (run : S.State → α) : Prog S α := read run ofExcept

/-- Commit one transaction. -/
def commit (run : S.State → Except S.Err (α × S.State)) : Prog S α := tx run ofExcept

theorem query_bind (question : S.Query) (f : S.Answer question → Prog S β) :
    (query question).bind f = ask question f := rfl

theorem select_bind (run : S.State → α) (f : α → Prog S β) :
    (select run).bind f = read run fun result => (ofExcept result).bind f := rfl

theorem commit_bind (run : S.State → Except S.Err (α × S.State)) (f : α → Prog S β) :
    (commit run).bind f = tx run fun result => (ofExcept result).bind f := rfl

/-- The exception with which a program has ended. -/
def raised : Prog S α → Option S.Err
  | raise error => some error
  | _ => none

/-- The value with which a program has ended. -/
def returned : Prog S α → Option α
  | done value => some value
  | _ => none

theorem eq_raise {p : Prog S α} {error : S.Err} (h : p.raised = some error) : p = raise error := by
  cases p <;> cases h
  rfl

theorem eq_done {p : Prog S α} {value : α} (h : p.returned = some value) : p = done value := by
  cases p <;> cases h
  rfl

/-- A `for`/`else` loop: the body leaves the loop with a value, or goes on to the next item. -/
def forElse (body : γ → Prog S (Option α)) (fallback : Prog S α) : List γ → Prog S α
  | [] => fallback
  | item :: rest => (body item).bind fun
      | some value => done value
      | none => forElse body fallback rest

end Prog

end Durable
end Ecrke
