import Kdive.Platform.Schema
import Kdive.Services.Systems

/-! # Statements on the rest of the database

`db/repositories.py` for the tables with a state, `db/locks.py`, `security/audit.py`, and the statements
of `db/build_hosts.py` and `jobs/queue.py`.

`StatefulRepository` is one class, with an instance for each of these tables; so it is here.
-/

namespace Kdive.Platform
open Lib (Time Keyed Table Prog Stmt)
open Lib.Prog
open Jobs (JobRow JobKind Payload DedupKey StepRow BuildStepResult WorkerId)

/-- An instance of the class: its table, the lock of a row, and the writes of its statements. -/
structure StatefulRepository (ρ S : Type) [Keyed ρ Uuid] where
  table : String
  rows : store.Db → Table ρ
  rowKey : Uuid → store.Key
  state : ρ → S
  ensureTransition : S → S → Except Err Unit
  insertion : ρ → store.Write
  setState : Uuid → S → store.Write

namespace StatefulRepository
variable {ρ S : Type} [Keyed ρ Uuid] (repo : StatefulRepository ρ S)

def get (id : Uuid) : Async (Option ρ) := select fun v _ => (repo.rows v).get id

def insertStmt (row : ρ) : Stmt store where
  keys _ _ := [repo.rowKey (Keyed.key row)]
  act v _ :=
    if ((repo.rows v).get (Keyed.key row)).isSome then .error .uniqueViolation
    else .ok [repo.insertion row]

def insert (row : ρ) : Async Unit := stmt (repo.insertStmt row) fun _ _ => ()

def getForUpdate (id : Uuid) : Async (Option ρ) :=
  selectFor (fun v _ => if ((repo.rows v).get id).isSome then [repo.rowKey id] else [])
    fun v _ => (repo.rows v).get id

def updateStmt (id : Uuid) (cond : ρ → Bool) (w : Time → store.Write) : Stmt store where
  keys v _ := if ((repo.rows v).get id).any cond then [repo.rowKey id] else []
  act v now := .ok (if ((repo.rows v).get id).any cond then [w now] else [])

def update (id : Uuid) (cond : ρ → Bool) (w : Time → store.Write) : Async (Option ρ) :=
  stmt (repo.updateStmt id cond w) fun v _ => ((repo.rows v).get id).filter cond

def updateStateBlock (id : Uuid) (new : S) : Async Unit := do
  match ← repo.getForUpdate id with
  | none => .raise (.objectNotFound repo.table id)
  | some row =>
    ofExcept (repo.ensureTransition (repo.state row) new)
    let updated ← repo.update id (fun _ => true) fun _ => repo.setState id new
    if updated.isNone then
      .raise (.runtime [.text "UPDATE of ", .text repo.table, .text " id ", .id id, .text " returned no row"])

def updateState (id : Uuid) (new : S) : Async Unit := transaction (repo.updateStateBlock id new)
end StatefulRepository

namespace Repositories
def systems : StatefulRepository System SystemState where
  table := "systems"
  rows v := v.1.systems
  rowKey id := .inl (.systemRow id)
  state := System.state
  ensureTransition := SystemState.ensureTransition
  insertion s := .inl (.insertSystem s)
  setState id s := .inl (.patchSystem id (.state s))

def investigations : StatefulRepository Investigation InvestigationState where
  table := "investigations"
  rows v := v.2.investigations
  rowKey id := .inr (.investigationRow id)
  state := Investigation.state
  ensureTransition := InvestigationState.ensureTransition
  insertion i := .inr (.insertInvestigation i)
  setState id s := .inr (.patchInvestigation id (.state s))

def debugSessions : StatefulRepository DebugSession DebugSessionState where
  table := "debug_sessions"
  rows v := v.2.sessions
  rowKey id := .inr (.sessionRow id)
  state := DebugSession.state
  ensureTransition := DebugSessionState.ensureTransition
  insertion x := .inr (.insertSession x)
  setState id s := .inr (.setSession id s)

def runs : StatefulRepository Run RunState where
  table := "runs"
  rows v := v.2.runs
  rowKey id := .inr (.runRow id)
  state := Run.state
  ensureTransition := RunState.ensureTransition
  insertion r := .inr (.insertRun r)
  setState id s := .inr (.patchRun id (.state s))

def jobs : StatefulRepository JobRow JobState where
  table := "jobs"
  rows v := v.2.jobs
  rowKey id := .inr (.jobRow id)
  state := JobRow.state
  ensureTransition := JobState.ensureTransition
  insertion j := .inr (.insertJob j)
  setState id s := .inr (.patchJob id (.state s))
end Repositories

/-! ## Locks and audit -/

inductive LockScope where
  | core (scope : Kdive.LockScope)
  | investigation (id : Uuid)
  | run (id : Uuid)
  | buildHost (id : Uuid)

def LockScope.key : LockScope → store.Key
  | core scope => .inl scope.key
  | investigation id => .inr (.investigation id)
  | run id => .inr (.run id)
  | buildHost id => .inr (.buildHost id)

def advisoryXactLock (scope : LockScope) : Async Unit := lock scope.key

/-- `audit.record`. -/
def audit (ctx : RequestContext) (event : AuditEvent) : Async Unit :=
  (Audit.record ctx event).lift

/-- The caller a job runs for: its `authorizing` column. -/
structure Authorizing where
  principal : String
  agentSession : Option String := none

/-- `context_from_job`. -/
def Authorizing.context (job : Authorizing) (project : String) : RequestContext :=
  { principal := job.principal, agentSession := job.agentSession, projects := [project] }

/-! ## `db/build_hosts.py` -/

namespace BuildHosts
def getByName (name : String) : Async (Option BuildHost) :=
  select fun v _ => v.2.buildHosts.rows.find? (·.name = name)

def leasesOf (t : Tables) (hostId : Uuid) : Nat := t.leases.rows.countP (·.buildHostId = hostId)

def leaseCount (hostId : Uuid) : Async Nat := select fun v _ => leasesOf v.2 hostId

def insertLeaseStmt (l : BuildHostLease) : Stmt store where
  keys _ _ := [.inr (.leaseRow l.runId)]
  act v _ :=
    if (v.2.leases.get l.runId).isSome then .error .uniqueViolation else .ok [.inr (.insertLease l)]

def tryAcquireLease (host : BuildHost) (runId : Uuid) : Async Bool := do
  advisoryXactLock (.buildHost host.id)
  let existing ← select fun v _ =>
    (v.2.leases.get runId).any (·.buildHostId = host.id)
  if existing then return true
  let count ← leaseCount host.id
  if count ≥ host.maxConcurrent then return false
  stmt (insertLeaseStmt ⟨runId, host.id⟩) fun _ _ => ()
  return true

def deleteStmt (cond : store.Db → BuildHostLease → Bool) : Stmt store where
  keys v _ := (v.2.leases.rows.filter (cond v)).map fun l => .inr (.leaseRow l.runId)
  act v _ := .ok ((v.2.leases.rows.filter (cond v)).map fun l => .inr (.deleteLease l.runId))

def releaseLease (runId : Uuid) : Async Unit :=
  stmt (deleteStmt fun _ l => l.runId = runId) fun _ _ => ()
end BuildHosts

/-! ## `jobs/queue.py` -/

namespace Queue
open Jobs (Queue.forKey Queue.defaultMaxAttempts Queue.defaultLease Queue.pick
  Queue.claim Queue.fenced)

/-- `INSERT INTO jobs … ON CONFLICT (dedup_key) DO NOTHING`. -/
def insertStmt (id : Uuid) (payload : Payload) (key : DedupKey) (maxAttempts : Nat) : Stmt store where
  keys v _ := if (Queue.forKey v.2.jobs key).isSome then []
    else [.inr (.jobRow id), .inr (.dedupKey key)]
  act v now :=
    if (Queue.forKey v.2.jobs key).isSome then .ok []
    else if (v.2.jobs.get id).isSome then .error .uniqueViolation
    else .ok [.inr (.insertJob { id, createdAt := now, payload, maxAttempts, dedupKey := key })]

def enqueueBlock (payload : Payload) (key : DedupKey) : Async JobRow := do
  let id ← ask (·.1.uuid)
  stmt (insertStmt id payload key Queue.defaultMaxAttempts) fun _ _ => ()
  match ← select fun v _ => Queue.forKey v.2.jobs key with
  | none => .raise (.runtime [.text "enqueue found no job for dedup_key"])
  | some job => return job

/-- `enqueue`, by a caller that leaves `max_attempts` alone. -/
def enqueue (payload : Payload) (key : DedupKey) : Async JobRow :=
  transaction (enqueueBlock payload key)

def claimStmt (worker : WorkerId) (skipped : Uuid → Bool) : Stmt store where
  keys v now := (Queue.pick v.2.jobs now skipped).toList.map fun j => .inr (.jobRow j.id)
  act v now := .ok ((Queue.pick v.2.jobs now skipped).toList.map fun j =>
    .inr (.patchJob j.id (.claim worker now Queue.defaultLease)))

def dequeue (worker : WorkerId) : Async (Option JobRow) :=
  transaction do
    let skipped ← ask (·.2.skipped)
    stmt (claimStmt worker skipped) fun v now =>
      (Queue.pick v.2.jobs now skipped).map (Queue.claim worker now Queue.defaultLease)

def updateFenced (id : Uuid) (worker : WorkerId) (p : Time → JobPatch) : Async (Option JobRow) :=
  transaction do
    let row ← Repositories.jobs.update id (Queue.fenced worker) fun now => .inr (.patchJob id (p now))
    return row

def heartbeat (id : Uuid) (worker : WorkerId) : Async (Option JobRow) :=
  updateFenced id worker fun now => .heartbeat now Queue.defaultLease

def complete (id : Uuid) (worker : WorkerId) (resultRef : Option String) : Async (Option JobRow) :=
  updateFenced id worker fun _ => .complete resultRef

/-- `fail`, with the job as it was when it was claimed. -/
def fail (job : JobRow) (worker : WorkerId) (category : ErrorCategory) (terminal : Bool) : Async (Option JobRow) :=
  updateFenced job.id worker fun _ =>
    if terminal ∨ job.maxAttempts ≤ job.attempt then .deadLetter category else .requeue
end Queue
end Kdive.Platform
