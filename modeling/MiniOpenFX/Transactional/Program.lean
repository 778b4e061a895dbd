import Mathlib.Logic.Basic

/-!
# Programs over a transactional store

A request handler is a program that talks to its surroundings one act at a time: it opens a
transaction, runs a statement, commits, or asks for something outside the store (a clock, a
cache). `Prog` is the free program over such acts. The continuation of an act receives the
answer *or the error* the surroundings gave, so a handler can catch it (`Prog.attempt`), and
`Prog.transaction` is the usual wrapper: open, run the body, commit, and roll back on an error.

A program is data: it can be run alone (`Transactional.Serial`) or one act at a time between the
acts of others (`Transactional.Machine`).
-/

namespace Transactional

/-- What programs can ask for: the statements of the store and the requests to everything else,
each with the type of its answer. -/
structure Sig where
  Stmt : Type
  Ext : Type
  StmtRes : Stmt → Type
  ExtRes : Ext → Type

/-- The free program over the acts of `S`, ending in a value of type `α` or an error of type
`ε`. -/
inductive Prog (S : Sig) (ε α : Type) where
  | done (r : Except ε α)
  | begin (k : Except ε Unit → Prog S ε α)
  | commit (k : Except ε Unit → Prog S ε α)
  | rollback (k : Except ε Unit → Prog S ε α)
  | sql (s : S.Stmt) (k : Except ε (S.StmtRes s) → Prog S ε α)
  | ext (e : S.Ext) (k : Except ε (S.ExtRes e) → Prog S ε α)

namespace Prog

variable {S : Sig} {ε α β γ : Type}

/-- Sequencing: an error of the first program skips the second. The recursion follows the acts of
the first program. -/
def bind : Prog S ε α → (α → Prog S ε β) → Prog S ε β
  | .done (.ok a), f => f a
  | .done (.error e), _ => .done (.error e)
  | .begin k, f => .begin fun r => (k r).bind f
  | .commit k, f => .commit fun r => (k r).bind f
  | .rollback k, f => .rollback fun r => (k r).bind f
  | .sql s k, f => .sql s fun r => (k r).bind f
  | .ext e k, f => .ext e fun r => (k r).bind f

instance : Monad (Prog S ε) where
  pure a := .done (.ok a)
  bind := Prog.bind

/-- The program whose error, if any, is handed over as a value: the `try` block. What follows it
decides what becomes of the error. -/
def attempt : Prog S ε α → Prog S ε (Except ε α)
  | .done r => .done (.ok r)
  | .begin k => .begin fun r => (k r).attempt
  | .commit k => .commit fun r => (k r).attempt
  | .rollback k => .rollback fun r => (k r).attempt
  | .sql s k => .sql s fun r => (k r).attempt
  | .ext e k => .ext e fun r => (k r).attempt

/-- End with an error. -/
def fail (e : ε) : Prog S ε α := .done (.error e)

/-- Run one statement. -/
def query (s : S.Stmt) : Prog S ε (S.StmtRes s) := .sql s .done

/-- Make one request outside the store. -/
def request (e : S.Ext) : Prog S ε (S.ExtRes e) := .ext e .done

/-- Open a transaction, run the body in it and commit. An error of the body or of the commit
rolls back and is thrown again. -/
def transaction (body : Prog S ε α) : Prog S ε α :=
  .begin fun
    | .error e => fail e
    | .ok () =>
      (body.bind fun a => .commit fun
        | .ok () => .done (.ok a)
        | .error e => fail e).attempt.bind fun
        | .ok a => .done (.ok a)
        | .error e => .rollback fun
          | .ok () => fail e
          | .error e' => fail e'

/-! ## Equations -/

/-- The `>>=` of the monad is `Prog.bind`: proofs see the latter only. -/
@[simp] theorem bind_eq (p : Prog S ε α) (f : α → Prog S ε β) : (p >>= f) = p.bind f := rfl

/-- The `pure` of the monad is a program that has ended with the value. -/
@[simp] theorem pure_eq (a : α) : (pure a : Prog S ε α) = .done (.ok a) := rfl

/-- A program that has ended with a value goes on with it. -/
@[simp] theorem bind_ok (a : α) (f : α → Prog S ε β) : (done (.ok a)).bind f = f a := rfl

/-- A program that has ended with an error skips what follows it. -/
@[simp] theorem bind_error (e : ε) (f : α → Prog S ε β) :
    (done (.error e)).bind f = done (.error e) := rfl

/-- Sequencing passes the opening of a transaction on to the first program's first act. This
equation and its four companions push a continuation past the act that is performed first. -/
@[simp] theorem bind_begin (k : Except ε Unit → Prog S ε α) (f : α → Prog S ε β) :
    (begin k).bind f = begin fun r => (k r).bind f := rfl

/-- What follows a program whose first act is a commit follows the rest of it. -/
@[simp] theorem bind_commit (k : Except ε Unit → Prog S ε α) (f : α → Prog S ε β) :
    (commit k).bind f = commit fun r => (k r).bind f := rfl

/-- What follows a program whose first act is a rollback follows the rest of it. -/
@[simp] theorem bind_rollback (k : Except ε Unit → Prog S ε α) (f : α → Prog S ε β) :
    (rollback k).bind f = rollback fun r => (k r).bind f := rfl

/-- What follows a program whose first act is a statement follows the rest of it, whatever the
statement is answered. -/
@[simp] theorem bind_sql (s : S.Stmt) (k : Except ε (S.StmtRes s) → Prog S ε α)
    (f : α → Prog S ε β) : (sql s k).bind f = sql s fun r => (k r).bind f := rfl

/-- What follows a program whose first act is a request follows the rest of it, whatever the
request is answered. -/
@[simp] theorem bind_ext (e : S.Ext) (k : Except ε (S.ExtRes e) → Prog S ε α)
    (f : α → Prog S ε β) : (ext e k).bind f = ext e fun r => (k r).bind f := rfl

/-- Sequencing is associative. -/
theorem bind_assoc (p : Prog S ε α) (f : α → Prog S ε β) (g : β → Prog S ε γ) :
    (p.bind f).bind g = p.bind fun a => (f a).bind g := by
  induction p with
  | done r => cases r <;> rfl
  | begin k ih | commit k ih | rollback k ih | sql s k ih | ext e k ih =>
    exact congrArg _ (funext fun r => ih r)

/-! ## The statements of a program -/

/-- Every statement the program can come to, whatever it is answered on the way, satisfies `P`.
What is skipped on every path need not. -/
def All (P : S.Stmt → Prop) : Prog S ε α → Prop
  | .done _ => True
  | .begin k => ∀ r, (k r).All P
  | .commit k => ∀ r, (k r).All P
  | .rollback k => ∀ r, (k r).All P
  | .sql s k => P s ∧ ∀ r, (k r).All P
  | .ext _ k => ∀ r, (k r).All P

variable {P : S.Stmt → Prop}

/-- If every statement of the first program satisfies `P`, and every statement of the second for
each value it may be given, then so does every statement of the two in sequence. -/
theorem All.bind {p : Prog S ε α} {f : α → Prog S ε β} (hp : p.All P) (hf : ∀ a, (f a).All P) :
    (p.bind f).All P := by
  induction p with
  | done r =>
    cases r with
    | ok a => exact hf a
    | error e => trivial
  | begin k ih | commit k ih | rollback k ih | ext e k ih => exact fun r => ih r (hp r)
  | sql s k ih => exact ⟨hp.1, fun r => ih r (hp.2 r)⟩

/-- What holds of the statements of a sequence holds of those of its first program. -/
theorem All.of_bind {p : Prog S ε α} {f : α → Prog S ε β} (h : (p.bind f).All P) : p.All P := by
  induction p with
  | done r => trivial
  | begin k ih | commit k ih | rollback k ih | ext e k ih => exact fun r => ih r (h r)
  | sql s k ih => exact ⟨h.1, fun r => ih r (h.2 r)⟩

/-- What follows a program adds nothing that is satisfied anyway, so the part of a service that
handles the amounts can be looked at alone. -/
theorem all_bind_iff {p : Prog S ε α} {f : α → Prog S ε β} (hf : ∀ a, (f a).All P) :
    (p.bind f).All P ↔ p.All P :=
  ⟨All.of_bind, fun hp => hp.bind hf⟩

@[simp] theorem all_done (r : Except ε α) : (done r : Prog S ε α).All P ↔ True := Iff.rfl

/-- The only statement of a query is the one that it runs. -/
@[simp] theorem all_query (s : S.Stmt) : (query s : Prog S ε _).All P ↔ P s :=
  ⟨And.left, fun h => ⟨h, fun _ => trivial⟩⟩

/-- The statements of a program that begins with a query are the one it runs and those that come
after any answer to it; an error of the statement ends the program. -/
@[simp] theorem all_query_bind (s : S.Stmt) (f : S.StmtRes s → Prog S ε β) :
    ((query s).bind f).All P ↔ P s ∧ ∀ a, (f a).All P := by
  refine and_congr_right fun _ => ⟨fun h a => h (.ok a), fun h r => ?_⟩
  cases r with
  | ok a => exact h a
  | error e => trivial

/-- A request is no statement: those of a program that begins with one are the statements that come
after any answer to it. -/
@[simp] theorem all_request_bind (e : S.Ext) (f : S.ExtRes e → Prog S ε β) :
    ((request e).bind f).All P ↔ ∀ a, (f a).All P := by
  refine ⟨fun h a => h (.ok a), fun h r => ?_⟩
  cases r with
  | ok a => exact h a
  | error e => trivial

/-- Catching the error of a program adds no statements to it and leaves none out. -/
theorem all_attempt {p : Prog S ε α} : p.attempt.All P ↔ p.All P := by
  induction p with
  | done r => exact Iff.rfl
  | begin k ih | commit k ih | rollback k ih | ext e k ih => exact forall_congr' ih
  | sql s k ih => exact and_congr_right fun _ => forall_congr' ih

/-- A transaction adds no statements to its body. -/
theorem all_transaction {body : Prog S ε α} : (transaction body).All P ↔ body.All P := by
  constructor
  · intro h
    exact (all_attempt.mp (h (.ok ())).of_bind).of_bind
  · intro h r
    cases r with
    | error e => trivial
    | ok u =>
      refine All.bind (all_attempt.mpr (h.bind fun a r => ?_)) fun a => ?_
      · cases r <;> trivial
      · cases a with
        | ok a => trivial
        | error e =>
          intro r
          cases r <;> trivial

/-! ## The requests of a program -/

/-- Every request the program can come to satisfies `Q`, or the program goes on the same way
however it is answered. -/
def Heeds (Q : S.Ext → Prop) : Prog S ε α → Prop
  | .done _ => True
  | .begin k => ∀ r, (k r).Heeds Q
  | .commit k => ∀ r, (k r).Heeds Q
  | .rollback k => ∀ r, (k r).Heeds Q
  | .sql _ k => ∀ r, (k r).Heeds Q
  | .ext e k => (Q e ∨ ∀ r r', k r = k r') ∧ ∀ r, (k r).Heeds Q

variable {Q : S.Ext → Prop}

/-- Two programs in sequence heed only what each of them heeds, the second for any value it may be
given. -/
theorem Heeds.bind {p : Prog S ε α} {f : α → Prog S ε β} (hp : p.Heeds Q)
    (hf : ∀ a, (f a).Heeds Q) : (p.bind f).Heeds Q := by
  induction p with
  | done r =>
    cases r with
    | ok a => exact hf a
    | error e => trivial
  | begin k ih | commit k ih | rollback k ih | sql s k ih => exact fun r => ih r (hp r)
  | ext e k ih =>
    exact ⟨hp.1.imp_right fun h r r' => congrArg (Prog.bind · f) (h r r'), fun r => ih r (hp.2 r)⟩

/-- Catching the error of a program does not make it heed anything more. -/
theorem Heeds.attempt {p : Prog S ε α} (hp : p.Heeds Q) : p.attempt.Heeds Q := by
  induction p with
  | done r => trivial
  | begin k ih | commit k ih | rollback k ih | sql s k ih => exact fun r => ih r (hp r)
  | ext e k ih =>
    exact ⟨hp.1.imp_right fun h r r' => congrArg Prog.attempt (h r r'), fun r => ih r (hp.2 r)⟩

theorem heeds_query (s : S.Stmt) : (query s : Prog S ε _).Heeds Q := fun _ => trivial

theorem heeds_request {e : S.Ext} (h : Q e) : (request e : Prog S ε _).Heeds Q :=
  ⟨.inl h, fun _ => trivial⟩

/-- A transaction makes no requests but those of its body. -/
theorem Heeds.transaction {body : Prog S ε α} (h : body.Heeds Q) : (transaction body).Heeds Q := by
  intro r
  cases r with
  | error e => trivial
  | ok u =>
    refine (Heeds.attempt (h.bind fun a => ?_)).bind fun a => ?_
    · intro r
      cases r <;> trivial
    · cases a with
      | ok a => trivial
      | error e =>
        intro r
        cases r <;> trivial

end Prog

end Transactional
