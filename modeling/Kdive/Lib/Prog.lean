import Mathlib.Init

/-! # Programs that talk to a transactional database

An asynchronous service, once its connection is fixed, issues SQL statements, opens and closes transaction blocks,
reads values from the machine it runs on, and raises and catches exceptions. A program is a tree of those operations,
so that the same text can be executed, interleaved with others, and reasoned about by recursion. Every operation that
reaches the database can raise; what it raises is handed to the continuation. What the database is stays a parameter
(`Store`): its states, the row writes of a statement, and the keys it locks until its transaction ends.
-/

namespace Lib
/-- Instants, in microseconds. -/
abbrev Time := Int

/-- What a program needs to know of its database and of its host. -/
structure Store where
  /-- Committed database states. -/
  Db : Type
  /-- Row writes: what a statement does to the database, once it has decided what to do. -/
  Write : Type
  /-- What can be locked: advisory keys and rows. -/
  Key : Type
  /-- Exceptions. -/
  Err : Type
  /-- The values the host supplies, as one record read afresh at each use. -/
  Host : Type
  decKey : DecidableEq Key
  apply : Write → Db → Db
  /-- Keys that several transactions may hold at once. -/
  shared : Key → Bool

instance (σ : Store) : DecidableEq σ.Key := σ.decKey

/-- `db` after the writes `ws`, in order. -/
def Store.applyAll (σ : Store) (ws : List σ.Write) (db : σ.Db) : σ.Db :=
  ws.foldl (fun d w => σ.apply w d) db

section
variable {σ : Store}

@[simp] theorem Store.applyAll_nil (db : σ.Db) : σ.applyAll [] db = db := rfl

@[simp] theorem Store.applyAll_cons (w : σ.Write) (ws : List σ.Write) (db : σ.Db) :
    σ.applyAll (w :: ws) db = σ.applyAll ws (σ.apply w db) := rfl

theorem Store.applyAll_append (ws ws' : List σ.Write) (db : σ.Db) :
    σ.applyAll (ws ++ ws') db = σ.applyAll ws' (σ.applyAll ws db) :=
  List.foldl_append ..

/-- How a list of writes changes a reading of the database. -/
theorem Store.read_applyAll {β : Type} (read : σ.Db → β) (f : σ.Write → β → β)
    (h : ∀ w db, read (σ.apply w db) = f w (read db)) (ws : List σ.Write) (db : σ.Db) :
    read (σ.applyAll ws db) = ws.foldl (fun x w => f w x) (read db) := by
  induction ws generalizing db with
  | nil => rfl
  | cons w ws ih => rw [Store.applyAll_cons, ih, h, List.foldl_cons]

theorem Store.read_applyAll_of_eq {β : Type} (read : σ.Db → β) {ws : List σ.Write}
    (h : ∀ w ∈ ws, ∀ db, read (σ.apply w db) = read db) (db : σ.Db) : read (σ.applyAll ws db) = read db := by
  induction ws generalizing db with
  | nil => rfl
  | cons w ws ih =>
    rw [Store.applyAll_cons, ih fun x hx => h x (List.mem_cons_of_mem _ hx), h w List.mem_cons_self]
end

/-- One SQL statement. Both parts are evaluated in the view the transaction has of the database
    when the statement starts, and see the time the transaction started at, which is what the
    database's `now()` returns throughout it. -/
structure Stmt (σ : Store) where
  /-- The keys the statement takes, and holds until its transaction ends. -/
  keys : σ.Db → Time → List σ.Key
  /-- The row writes it makes, or the exception it raises. -/
  act : σ.Db → Time → Except σ.Err (List σ.Write)

/-- A program returning an `α`. -/
inductive Prog (σ : Store) (α : Type) : Type where
  | ret (a : α)
  | raise (e : σ.Err)
  /-- Run a statement. The answer is the view it was evaluated in and the transaction's time. -/
  | exec (st : Stmt σ) (k : Except σ.Err (σ.Db × Time) → Prog σ α)
  /-- Open a transaction block: a transaction when none is open, a savepoint otherwise. -/
  | enter (k : Except σ.Err Unit → Prog σ α)
  /-- Close the innermost block, keeping its writes or undoing them. -/
  | leave (commit : Bool) (k : Except σ.Err Unit → Prog σ α)
  /-- Return the connection: whatever transaction is open ends. -/
  | finish (commit : Bool) (k : Except σ.Err Unit → Prog σ α)
  /-- Read the host's values. -/
  | host (k : σ.Host → Prog σ α)

namespace Prog
variable {σ : Store} {α β : Type}

/-- Run `p`, then `h` on what it returned or raised. -/
def attempt : Prog σ α → (Except σ.Err α → Prog σ β) → Prog σ β
  | .ret a, h => h (.ok a)
  | .raise e, h => h (.error e)
  | .exec st k, h => .exec st fun r => (k r).attempt h
  | .enter k, h => .enter fun r => (k r).attempt h
  | .leave b k, h => .leave b fun r => (k r).attempt h
  | .finish b k, h => .finish b fun r => (k r).attempt h
  | .host k, h => .host fun x => (k x).attempt h

/-- What follows a step that may raise: go on with its value, or raise. -/
def andThen (f : α → Prog σ β) : Except σ.Err α → Prog σ β
  | .ok a => f a
  | .error e => .raise e

instance : Monad (Prog σ) where
  pure := .ret
  bind p f := p.attempt (andThen f)

theorem bind_def (p : Prog σ α) (f : α → Prog σ β) : p >>= f = p.attempt (andThen f) := rfl

/-- `try: p except e: h e`. -/
def catching (p : Prog σ α) (h : σ.Err → Prog σ α) : Prog σ α :=
  p.attempt fun
    | .ok a => .ret a
    | .error e => h e

def ofExcept : Except σ.Err α → Prog σ α
  | .ok a => .ret a
  | .error e => .raise e

/-! ## Statements -/

/-- Run `st` and return `f` of the view it was evaluated in and of the transaction's time. -/
def stmt (st : Stmt σ) (f : σ.Db → Time → α) : Prog σ α :=
  .exec st fun
    | .ok (v, t) => .ret (f v t)
    | .error e => .raise e

def select (f : σ.Db → Time → α) : Prog σ α :=
  stmt ⟨fun _ _ => [], fun _ _ => .ok []⟩ f

def selectFor (keys : σ.Db → Time → List σ.Key) (f : σ.Db → Time → α) : Prog σ α :=
  stmt ⟨keys, fun _ _ => .ok []⟩ f

def lock (key : σ.Key) : Prog σ Unit := selectFor (fun _ _ => [key]) fun _ _ => ()

def ask (f : σ.Host → α) : Prog σ α := .host fun x => .ret (f x)

/-! ## Blocks -/

/-- `async with conn.transaction(): p`. The block commits when `p` returns and rolls back when it
    raises; what `p` raised goes on even when the rollback itself fails. -/
def transaction (p : Prog σ α) : Prog σ α :=
  .enter (andThen fun _ => p.attempt fun
    | .ok a => .leave true (andThen fun _ => .ret a)
    | .error e => .leave false fun _ => .raise e)

/-- `async with pool.connection() as conn: p`: the same for the connection itself, whose exit ends
    whatever transaction a bare statement has left open. -/
def connection (p : Prog σ α) : Prog σ α :=
  p.attempt fun
    | .ok a => .finish true (andThen fun _ => .ret a)
    | .error e => .finish false fun _ => .raise e

def foldEach {ι : Type} (f : α → ι → Prog σ α) : α → List ι → Prog σ α
  | a, [] => .ret a
  | a, i :: is => f a i >>= fun a' => foldEach f a' is
end Prog
end Lib
