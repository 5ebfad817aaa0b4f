import Kdive.Db.Schema

/-! # Statements: `db/repositories.py`, `db/locks.py` and `security/audit.py`

Each function issues the statements its source issues. A row is locked by the statement that writes it
or selects it `FOR UPDATE`, when there is such a row in the statement's view; an insertion takes the
key it inserts under, and raises when that key is taken.
-/

namespace Kdive
open Lib (Time Prog Stmt)
open Lib.Prog

/-- `UniqueViolation`. -/
def Err.uniqueViolation : Err := .database "23505"

/-! ## Locks -/

inductive LockScope where
  | project (name : String)
  | resource (id : Uuid)
  | allocation (id : Uuid)
  | system (id : Uuid)

def LockScope.key : LockScope → LockKey
  | project p => .project p
  | resource r => .resource r
  | allocation a => .allocation a
  | system s => .system s

/-- `advisory_xact_lock`. Its check that a transaction is open cannot fail here: a bare statement
    opens one. -/
def advisoryXactLock (scope : LockScope) : Async Unit := lock scope.key

/-! ## `ALLOCATIONS` -/

namespace Allocations
def get (id : Uuid) : Async (Option Allocation) :=
  select fun v _ => v.allocations.get id

/-- The row as stored: the database owns `created_at` and `updated_at`. -/
def stamped (a : Allocation) (now : Time) : Allocation :=
  { a with createdAt := now, updatedAt := now }

def insertStmt (a : Allocation) : Stmt store where
  keys _ _ := [.allocationRow a.id]
  act v now :=
    if (v.allocations.get a.id).isSome then .error .uniqueViolation
    else .ok [.insertAllocation (stamped a now)]

def insert (a : Allocation) : Async Allocation :=
  stmt (insertStmt a) fun _ now => stamped a now

def updateStmt (id : Uuid) (cond : Allocation → Bool) (patch : Time → AllocationPatch) : Stmt store where
  keys v _ := if (v.allocations.get id).any cond then [.allocationRow id] else []
  act v now :=
    .ok (if (v.allocations.get id).any cond then [.patchAllocation id (patch now) now] else [])

def update (id : Uuid) (cond : Allocation → Bool) (patch : Time → AllocationPatch) : Async Nat :=
  stmt (updateStmt id cond patch)
    fun v _ => if (v.allocations.get id).any cond then 1 else 0

def getForUpdate (id : Uuid) : Async (Option Allocation) :=
  selectFor (fun v _ => if (v.allocations.get id).isSome then [.allocationRow id] else [])
    fun v _ => v.allocations.get id

/-- `update_state`, whose result no caller uses. -/
def updateState (id : Uuid) (new : AllocationState) : Async Unit :=
  transaction do
    match ← getForUpdate id with
    | none => .raise (.objectNotFound "allocations" id)
    | some row =>
      ofExcept (row.state.ensureTransition new)
      let updated ← update id (fun _ => true) fun _ => .state new
      if updated = 0 then
        .raise (.runtime [.text "UPDATE of allocations id ", .id id, .text " returned no row"])
end Allocations

/-! ## `SYSTEMS` -/

namespace Systems
def get (id : Uuid) : Async (Option System) :=
  select fun v _ => v.systems.get id

def insertStmt (s : System) : Stmt store where
  keys _ _ := [.systemRow s.id]
  act v now :=
    if (v.systems.get s.id).isSome then .error .uniqueViolation
    else .ok [.insertSystem { s with createdAt := now }]

def insert (s : System) : Async System :=
  stmt (insertStmt s) fun _ now => { s with createdAt := now }

def updateStmt (id : Uuid) (patch : SystemPatch) : Stmt store where
  keys v _ := if (v.systems.get id).isSome then [.systemRow id] else []
  act v _ := .ok (if (v.systems.get id).isSome then [.patchSystem id patch] else [])

def update (id : Uuid) (patch : SystemPatch) : Async Unit :=
  stmt (updateStmt id patch) fun _ _ => ()

def getForUpdate (id : Uuid) : Async (Option System) :=
  selectFor (fun v _ => if (v.systems.get id).isSome then [.systemRow id] else []) fun v _ => v.systems.get id

def updateState (id : Uuid) (new : SystemState) : Async Unit :=
  transaction do
    match ← getForUpdate id with
    | none => .raise (.objectNotFound "systems" id)
    | some row =>
      ofExcept (row.state.ensureTransition new)
      update id (.state new)
end Systems

/-! ## The accounting tables -/

namespace Budgets
def upsertStmt (b : Budget) : Stmt store where
  keys _ _ := [.budgetRow b.project]
  act _ _ := .ok [.upsertBudget b]

def upsert (b : Budget) : Async Unit := stmt (upsertStmt b) fun _ _ => ()
end Budgets

namespace Ledger
/-- The row's `ts` is the database's. Ledger ids are not checked for collisions: nothing reads the
    ledger by id. -/
def insertStmt (e : LedgerEntry) : Stmt store where
  keys _ _ := []
  act _ now := .ok [.insertLedger { e with ts := now }]

def insert (e : LedgerEntry) : Async Unit := stmt (insertStmt e) fun _ _ => ()
end Ledger

/-! ## `security/audit.py` -/

structure AuditEvent where
  tool : String
  objectKind : String
  objectId : Uuid
  transition : List Part
  args : List (String × Part)
  project : String

namespace Audit
def row (principal : String) (agentSession : Option String) (event : AuditEvent) : AuditRow where
  principal := principal
  agentSession := agentSession
  project := event.project
  tool := event.tool
  objectKind := event.objectKind
  objectId := event.objectId
  transition := event.transition
  args := event.args

def insertStmt (r : AuditRow) : Stmt store where
  keys _ _ := []
  act _ _ := .ok [.insertAudit r]

def recordSystem (principal : String) (event : AuditEvent) (agentSession : Option String := none) : Async Unit :=
  stmt (insertStmt (row principal agentSession event)) fun _ _ => ()

/-- The writer for callers with a project: it refuses a project that is not the caller's. -/
def record (ctx : RequestContext) (event : AuditEvent) : Async Unit :=
  if event.project ∈ ctx.projects then recordSystem ctx.principal event ctx.agentSession
  else .raise (.auth event.project ctx.principal)

def platformStmt (r : PlatformAuditRow) : Stmt store where
  keys _ _ := []
  act _ _ := .ok [.insertPlatformAudit r]

def recordPlatform (r : PlatformAuditRow) : Async Unit :=
  stmt (platformStmt r) fun _ _ => ()
end Audit
end Kdive
