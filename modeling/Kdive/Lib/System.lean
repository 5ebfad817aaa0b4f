import Kdive.Lib.Prog
import Mathlib.Data.List.Basic

/-! # Sessions over one database

How the programs of `Lib.Prog` run side by side, over one committed database, clock and lock table.

* **Transactions.** The first bare statement opens a transaction, which stays open until the connection is returned
  (`Tx.implicit`); a block in an open transaction is a savepoint. A transaction's view is the committed state of the
  moment with its own log on top (READ COMMITTED), and its commit applies the log to it in one step.
* **Locks.** A statement's keys are held until the transaction ends; one that needs an exclusive key another session
  holds does not run. A rollback to a savepoint may give up the keys taken since, or not (`Input.go`).
* **Faults.** Any operation on the database can raise, at any time; a commit that raises has not happened. A session
  can vanish, its transaction undone. A statement that raised leaves the transaction usable here; the runs in which
  Postgres refuses every later statement are among these, because each may raise.
* **Clock.** The database's clock never goes back. The host's clock is whatever the host says.
-/

namespace Lib
variable {σ : Store} {α β Cl : Type}

/-- What a savepoint restores: the writes made, and the keys held, when it was set. -/
structure Mark (σ : Store) where
  log : List σ.Write
  locks : List σ.Key

/-- An open transaction. -/
structure Tx (σ : Store) where
  /-- When it began: what `now()` returns in it. -/
  start : Time
  /-- Opened by a bare statement, so that only returning the connection ends it. -/
  implicit : Bool
  log : List σ.Write
  /-- The open savepoints, innermost first. -/
  marks : List (Mark σ)

/-- A connection: its transaction, if one is open, and the keys it holds, oldest first. -/
structure Conn (σ : Store) where
  tx : Option (Tx σ)
  locks : List σ.Key

namespace Conn
def idle : Conn σ := ⟨none, []⟩

def log (l : Conn σ) : List σ.Write := (l.tx.map (·.log)).getD []

/-- The database as the open transaction sees it. -/
def view (l : Conn σ) (db : σ.Db) : σ.Db := σ.applyAll l.log db

def now (l : Conn σ) : Time := (l.tx.map (·.start)).getD 0

def opened (clock : Time) (l : Conn σ) : Conn σ :=
  match l.tx with
  | some _ => l
  | none => ⟨some ⟨clock, true, [], []⟩, l.locks⟩

def take (ks : List σ.Key) (l : Conn σ) : Conn σ :=
  { l with locks := l.locks ++ ks.filter (· ∉ l.locks) }

def push (ws : List σ.Write) (l : Conn σ) : Conn σ :=
  { l with tx := l.tx.map fun t => { t with log := t.log ++ ws } }

def enter (clock : Time) (l : Conn σ) : Conn σ :=
  match l.tx with
  | none => ⟨some ⟨clock, false, [], []⟩, l.locks⟩
  | some t => { l with tx := some { t with marks := ⟨t.log, l.locks⟩ :: t.marks } }

/-- Closing the innermost block with its writes kept: what is committed, and what is left open. -/
def leave (l : Conn σ) : List σ.Write × Conn σ :=
  match l.tx with
  | none => ([], l)
  | some t =>
    match t.marks with
    | _ :: ms => ([], { l with tx := some { t with marks := ms } })
    | [] => if t.implicit then ([], l) else (t.log, idle)

def abort (keep : Bool) (l : Conn σ) : Conn σ :=
  match l.tx with
  | none => l
  | some t =>
    match t.marks with
    | m :: ms => ⟨some { t with log := m.log, marks := ms }, if keep then l.locks else m.locks⟩
    | [] => if t.implicit then l else idle
end Conn

/-! ## One session -/

/-- A program part-way through, on its connection. -/
structure Sess (σ : Store) where
  prog : Prog σ Unit
  conn : Conn σ

/-- How the next operation of a session turns out. -/
inductive Input (σ : Store) where
  /-- It succeeds. `keep`: a rollback to a savepoint keeps the keys taken since. -/
  | go (keep : Bool)
  /-- The host's values, for an operation that reads them. -/
  | host (x : σ.Host)
  /-- The database raises. -/
  | fault (e : σ.Err)

namespace Sess
/-- The keys the next operation takes if it succeeds. -/
def wants (clock : Time) (db : σ.Db) (q : Sess σ) : List σ.Key :=
  match q.prog with
  | .exec st _ =>
    let l := q.conn.opened clock
    match st.act (l.view db) l.now with
    | .ok _ => st.keys (l.view db) l.now
    | .error _ => []
  | _ => []

/-- One operation of a session: what becomes of it, and the committed database. -/
def step (clock : Time) (db : σ.Db) (q : Sess σ) : Input σ → Option (Sess σ × σ.Db)
  | .go keep =>
    match q.prog with
    | .exec st k =>
      let l := q.conn.opened clock
      match st.act (l.view db) l.now with
      | .error e => some (⟨k (.error e), l⟩, db)
      | .ok ws =>
        some (⟨k (.ok (l.view db, l.now)), (l.take (st.keys (l.view db) l.now)).push ws⟩, db)
    | .enter k => some (⟨k (.ok ()), q.conn.enter clock⟩, db)
    | .leave true k => some (⟨k (.ok ()), q.conn.leave.2⟩, σ.applyAll q.conn.leave.1 db)
    | .leave false k => some (⟨k (.ok ()), q.conn.abort keep⟩, db)
    | .finish true k => some (⟨k (.ok ()), .idle⟩, σ.applyAll q.conn.log db)
    | .finish false k => some (⟨k (.ok ()), .idle⟩, db)
    | _ => none
  | .host x =>
    match q.prog with
    | .host k => some (⟨k x, q.conn⟩, db)
    | _ => none
  | .fault e =>
    match q.prog with
    | .exec _ k => some (⟨k (.error e), q.conn.opened clock⟩, db)
    | .enter k => some (⟨k (.error e), q.conn⟩, db)
    | .leave _ k => some (⟨k (.error e), q.conn.abort true⟩, db)
    | .finish _ k => some (⟨k (.error e), .idle⟩, db)
    | _ => none
end Sess

/-! ## The system -/

structure Sys (σ : Store) where
  db : σ.Db
  clock : Time
  sess : List (Sess σ)

inductive Choice (σ : Store) (Cl : Type) where
  /-- A client starts. -/
  | spawn (c : Cl)
  /-- Session `i` performs its next operation. -/
  | act (i : Nat) (inp : Input σ)
  /-- Session `i` disappears. -/
  | crash (i : Nat)
  /-- The database's clock advances. -/
  | tick (d : Nat)

namespace Sys
/-- Session `i` would have to wait for one of `ks`. -/
def blocked (s : Sys σ) (i : Nat) (ks : List σ.Key) : Bool :=
  s.sess.zipIdx.any fun q => q.2 ≠ i && ks.any fun k => !σ.shared k && q.1.conn.locks.contains k

/-- The next operation of session `q`, number `i`, has to wait. -/
def waits (s : Sys σ) (i : Nat) (q : Sess σ) : Input σ → Bool
  | .go _ => s.blocked i (q.wants s.clock s.db)
  | _ => false

/-- One step of the system. `prog` says what each client runs. -/
def step (prog : Cl → Prog σ Unit) (s : Sys σ) : Choice σ Cl → Option (Sys σ)
  | .spawn c => some { s with sess := s.sess ++ [⟨prog c, .idle⟩] }
  | .act i inp =>
    match s.sess[i]? with
    | none => none
    | some q =>
      if s.waits i q inp then none
      else (q.step s.clock s.db inp).map fun r => { s with db := r.2, sess := s.sess.set i r.1 }
  | .crash i =>
    match s.sess[i]? with
    | none => none
    | some _ => some { s with sess := s.sess.set i ⟨.ret (), .idle⟩ }
  | .tick d => some { s with clock := s.clock + d }

/-- The states reached from `init` by steps that all meet `ok`. -/
inductive Reach (prog : Cl → Prog σ Unit) (init : σ.Db → Prop)
    (ok : Sys σ → Choice σ Cl → Prop) : Sys σ → Prop
  | init {db : σ.Db} (t : Time) (h : init db) : Reach prog init ok ⟨db, t, []⟩
  | step {s s' : Sys σ} {ch : Choice σ Cl} (h : Reach prog init ok s) (hok : ok s ch)
      (hs : s.step prog ch = some s') : Reach prog init ok s'
end Sys
end Lib
