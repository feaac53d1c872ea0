import McpGatekeeper.Interleaving.Program

/-!
A database connection with implicit transactions.

A statement that changes data opens a transaction when none is open, even when it
then fails; an explicit begin is refused inside a transaction.  Which statements and
commits fail for reasons of their own is up to the surroundings.
-/

namespace Storage

open Interleaving

/-- The contents as committed, and as an open transaction has left them. -/
structure Connection (S : Type) where
  committed : S
  working : Option S

inductive Kind
  | query
  | change
  | begin
  deriving DecidableEq

/-- What statements do to the contents; `none` where a constraint is violated. -/
structure Engine (S : Type) (Sql : Type) (Ans : Sql → Type) where
  kind : Sql → Kind
  run : (sql : Sql) → S → Option (Ans sql × S)

inductive Failure (Err : Type)
  | statement
  | nested
  | commit
  | raised (error : Err)
  deriving DecidableEq

variable {S Sql : Type} {Ans : Sql → Type} {Err Out : Type}

namespace Connection

def opened (contents : S) : Connection S where
  committed := contents
  working := none

def view (c : Connection S) : S :=
  c.working.getD c.committed

def inTransaction (c : Connection S) : Bool :=
  c.working.isSome

/-- `connection.execute(sql)`; with `fails` the statement raises whatever it says. -/
def execute (engine : Engine S Sql Ans) (sql : Sql) (fails : Bool) (c : Connection S) :
    Except (Failure Err) (Ans sql) × Connection S :=
  match engine.kind sql with
  | .query =>
      match engine.run sql c.view, fails with
      | some (answer, _), false => (.ok answer, c)
      | _, _ => (.error .statement, c)
  | .change =>
      match engine.run sql c.view, fails with
      | some (answer, contents), false => (.ok answer, { c with working := some contents })
      | _, _ => (.error .statement, { c with working := some c.view })
  | .begin =>
      if c.inTransaction then (.error .nested, c)
      else
        match engine.run sql c.view, fails with
        | some (answer, _), false => (.ok answer, { c with working := some c.committed })
        | _, _ => (.error .statement, c)

/-- `connection.commit()`, which has nothing to do and cannot fail outside a
transaction. -/
def commit (fails : Bool) (c : Connection S) :
    Except (Failure Err) Unit × Connection S :=
  match c.working with
  | none => (.ok (), c)
  | some contents =>
      if fails then (.error .commit, c) else (.ok (), opened contents)

/-- `connection.rollback()` -/
def rollback (c : Connection S) : Connection S :=
  opened c.committed

/-- A program of statements; the first that fails ends it.  The list says which of the
statements, counted from here, fail of themselves. -/
def work (engine : Engine S Sql Ans) :
    Program Sql Ans Err Out → List Bool → Connection S →
      Except (Failure Err) Out × Connection S
  | .ret result, _, c => (.ok result, c)
  | .fail error, _, c => (.error (.raised error), c)
  | .perform sql next, fails, c =>
      match c.execute engine sql (fails.headD false) with
      | (.ok answer, c') => work engine (next answer) fails.tail c'
      | (.error failure, c') => (.error failure, c')

section Execute

variable {engine : Engine S Sql Ans} {sql : Sql} {c : Connection S}

theorem execute_failing (engine : Engine S Sql Ans) (sql : Sql) (c : Connection S) :
    ∃ failure c', (c.execute engine sql true : Except (Failure Err) (Ans sql) × _) =
      (.error failure, c') := by
  unfold execute
  split
  · split
    · rename_i hfails
      cases hfails
    · exact ⟨_, _, rfl⟩
  · split
    · rename_i hfails
      cases hfails
    · exact ⟨_, _, rfl⟩
  · split
    · exact ⟨_, _, rfl⟩
    · split
      · rename_i hfails
        cases hfails
      · exact ⟨_, _, rfl⟩

theorem execute_query (h : engine.kind sql = .query) (fails : Bool) :
    (c.execute engine sql fails : Except (Failure Err) (Ans sql) × _).2 = c := by
  simp only [execute, h]
  split <;> rfl

theorem execute_change (h : engine.kind sql = .change) {answer : Ans sql} {contents : S}
    (hrun : engine.run sql c.view = some (answer, contents)) :
    (c.execute engine sql false : Except (Failure Err) (Ans sql) × _) =
      (.ok answer, { c with working := some contents }) := by
  simp only [execute, h, hrun]

/-- A statement that fails to change data has opened a transaction all the same. -/
theorem execute_change_failing (h : engine.kind sql = .change) {fails : Bool}
    (hfails : ((engine.run sql c.view).isNone || fails) = true) :
    (c.execute engine sql fails : Except (Failure Err) (Ans sql) × _) =
      (.error .statement, { c with working := some c.view }) := by
  rcases hrun : engine.run sql c.view with _ | ⟨answer, contents⟩
  · simp only [execute, h, hrun]
  · obtain rfl : fails = true := by simpa [hrun] using hfails
    simp only [execute, h, hrun]

theorem execute_begin (h : engine.kind sql = .begin) (hidle : c.working = none)
    (fails : Bool) :
    (c.execute engine sql fails : Except (Failure Err) (Ans sql) × _).1 ≠
      .error .nested := by
  simp only [execute, h, inTransaction, hidle, Option.isSome_none, Bool.false_eq_true,
    if_false]
  split <;> simp

end Execute

theorem execute_committed (engine : Engine S Sql Ans) (sql : Sql) (fails : Bool)
    (c : Connection S) :
    (c.execute engine sql fails : Except (Failure Err) (Ans sql) × _).2.committed =
      c.committed := by
  unfold execute
  split
  · split <;> rfl
  · split <;> rfl
  · split
    · rfl
    · split <;> rfl

theorem work_committed (engine : Engine S Sql Ans) (program : Program Sql Ans Err Out)
    (fails : List Bool) (c : Connection S) :
    (work engine program fails c).2.committed = c.committed := by
  induction program generalizing fails c with
  | ret result => rfl
  | fail error => rfl
  | perform sql next ih =>
      have hcommitted : (c.execute engine sql (fails.headD false) :
          Except (Failure Err) (Ans sql) × _).2.committed = c.committed :=
        execute_committed engine sql _ c
      rw [work]
      split
      · rename_i answer c' hexecute
        rw [ih, ← hcommitted, hexecute]
      · rename_i failure c' hexecute
        rw [← hcommitted, hexecute]

/-- The connection after so many statements of a program, none of which fails of itself. -/
def cut (engine : Engine S Sql Ans) : Nat → Program Sql Ans Err Out → Connection S →
    Connection S
  | 0, _, c => c
  | _ + 1, .ret _, c => c
  | _ + 1, .fail _, c => c
  | n + 1, .perform sql next, c =>
      match (c.execute engine sql false : Except (Failure Err) (Ans sql) × _) with
      | (.ok answer, c') => cut engine n (next answer) c'
      | (.error _, c') => c'

theorem cut_committed (engine : Engine S Sql Ans) (n : Nat) (program : Program Sql Ans Err Out)
    (c : Connection S) : (cut engine n program c).committed = c.committed := by
  induction n generalizing program c with
  | zero => rfl
  | succ n ih =>
      cases program with
      | ret result => rfl
      | fail error => rfl
      | perform sql next =>
          have hcommitted : (c.execute engine sql false :
              Except (Failure Err) (Ans sql) × _).2.committed = c.committed :=
            execute_committed engine sql false c
          rw [cut]
          split
          · rename_i answer c' hexecute
            rw [ih, ← hcommitted, hexecute]
          · rename_i failure c' hexecute
            rw [← hcommitted, hexecute]

end Connection

end Storage
