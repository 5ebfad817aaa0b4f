import Kdive.Mcp.Tools
import Kdive.Platform.Systems

/-! # Entry points of the whole platform

The worker's loop as the calls it makes on the queue, the tools on jobs, the reconciler's repairs of jobs,
sessions and build-host leases, and with them everything that runs against the database: `Client`.
-/

namespace Kdive.Platform
open Lib (Time Prog Stmt)
open Lib.Prog
open Jobs (JobRow JobKind Payload DedupKey WorkerId)
open Repositories

/-- A job that a tool or a repair enqueues and that no Run is waiting for, with the object its key is of.
    The tools that enqueue one read a few rows first; what they read decides only whether they do. -/
inductive JobRequest where
  | provision (allocationId systemId : Uuid)
  | teardown (systemId : Uuid)
  | forceCrash (systemId : Uuid)
  | power (key : String)
  | captureVmcore (key : String)
  | imageBuild (key : String)

namespace JobRequest
def payload : JobRequest → Payload
  | provision _ systemId => .provision systemId
  | teardown systemId => .teardown systemId
  | forceCrash systemId => .forceCrash systemId
  | power _ => .power
  | captureVmcore _ => .captureVmcore
  | imageBuild _ => .imageBuild

def dedupKey : JobRequest → DedupKey
  | provision allocationId _ => .provision allocationId
  | teardown systemId => .teardown systemId
  | forceCrash systemId => .forceCrash systemId
  | power key => .other key
  | captureVmcore key => .other key
  | imageBuild key => .other key
end JobRequest

/-- `jobs.cancel`. -/
def cancelJob (id : Uuid) : Async Response := do
  match ← connection (jobs.get id) with
  | none => return .failure id .notFound []
  | some _ =>
    (connection (jobs.updateState id .canceled)).attempt fun
    | .ok _ => return .success id "canceled"
    | .error (.objectNotFound ..) => return .failure id .notFound []
    | .error (.illegalTransition ..) => do
      let current ← connection (jobs.get id)
      return configError id (current.toList.map fun j => ("current_status", j.state.value))
    | .error e => .raise e

/-! ## The reconciler -/

namespace Reconciler
def compensateStmt (runId : Uuid) : Stmt store where
  keys v _ := if (v.2.runs.get runId).any (·.state.live) then [.inr (.runRow runId), .inr .repaired]
    else []
  act v _ := .ok (if (v.2.runs.get runId).any (·.state.live) then
    [.inr (.patchRun runId (.failed .leaseExpired))] else [])

/-- One job of `repair_abandoned_jobs`: whether it was still running. -/
def abandonJob (id : Uuid) : Async Bool := do
  match ← jobs.update id (·.state = .running) fun _ =>
      .inr (.patchJob id (.deadLetter .leaseExpired)) with
  | none => return false
  | some job =>
    match job.payload.runId with
    | none => return true
    | some runId =>
      stmt (compensateStmt runId) fun _ _ => ()
      return true

def repairAbandonedJobs : Async Nat := do
  let zombies ← transaction (select fun v now =>
    (v.2.jobs.rows.filter (Jobs.Queue.zombie now)).map (·.id))
  foldEach (fun swept id => do
    let found ← transaction (abandonJob id)
    return if found then swept + 1 else swept) 0 zombies

/-- The sessions `repair_dead_sessions` finds dead. -/
def deadSessions (t : Tables) (staleAfter now : Time) : List DebugSession :=
  t.sessions.rows.filter (·.dead staleAfter now)

def detachDeadStmt (staleAfter : Time) : Stmt store where
  keys v now := (deadSessions v.2 staleAfter now).flatMap fun x =>
    [.inr (.sessionRow x.id), .inr .repaired]
  act v now := .ok ((deadSessions v.2 staleAfter now).map fun x =>
    .inr (.setSession x.id .detached))

/-- `_reset_dead_transport`, as far as the database: whether the transport is somebody else's by now. -/
def hasLiveHolder (x : DebugSession) : Async Bool :=
  transaction do
    match ← select fun v _ => (v.2.runs.get x.runId).map (·.systemId) with
    | none => return false
    | some systemId =>
      select fun v _ => v.2.sessions.rows.any fun y =>
        y.state = .live && y.transport = .gdbstub && (v.2.runs.get y.runId).any (·.systemId = systemId)

def repairDeadSessions (staleAfter : Time) : Async Nat := do
  let rows ← transaction (stmt (detachDeadStmt staleAfter) fun v now =>
    deadSessions v.2 staleAfter now)
  foldEach (fun _ x => do
    let _ ← hasLiveHolder x) () rows
  return rows.length

/-- A BUILD job of the Run is queued or running. -/
def buildJobLive (t : Tables) (runId : Uuid) : Bool :=
  t.jobs.rows.any fun j => j.payload.kind = .build && j.payload.runId = some runId &&
    (j.state = .queued || j.state = .running)

def reclaimOrphanBuildHostLeases : Async Nat :=
  transaction (stmt (BuildHosts.deleteStmt fun v l => !buildJobLive v.2 l.runId)
    fun v _ => (v.2.leases.rows.filter fun l => !buildJobLive v.2 l.runId).length)
end Reconciler

/-! ## Clients -/

inductive Client where
  | core (client : Kdive.Client)
  | openInvestigation (ctx : RequestContext) (project : String)
  | closeInvestigation (ctx : RequestContext) (id : Uuid)
  | createRun (ctx : RequestContext) (investigationId systemId : Uuid) (profile : BuildProfile)
  | buildRun (ctx : RequestContext) (runId : Uuid) (cmdline : Option String)
  | completeBuild (ctx : RequestContext) (runId : Uuid) (cmdline : String)
  | installRun (ctx : RequestContext) (runId : Uuid)
  | bootRun (ctx : RequestContext) (runId : Uuid)
  | provisionDefined (ctx : RequestContext) (systemId : Uuid)
  | reprovision (ctx : RequestContext) (systemId : Uuid) (profile digest : String)
  | startSession (ctx : RequestContext) (runId : Uuid) (transport : DebugTransport)
  | endSession (ctx : RequestContext) (sessionId : Uuid)
  | enqueue (request : JobRequest)
  | cancelJob (id : Uuid)
  | dequeue (worker : WorkerId)
  | heartbeat (id : Uuid) (worker : WorkerId)
  | complete (id : Uuid) (worker : WorkerId) (resultRef : Option String)
  | fail (job : JobRow) (worker : WorkerId) (category : ErrorCategory) (terminal : Bool)
  | buildHandler (job : Authorizing) (runId : Uuid) (cmdline : Option String)
  | reprovisionHandler (job : Job)
  | forceCrashHandler (job : Authorizing) (systemId : Uuid)
  | repairAbandonedJobs
  | repairDeadSessions (staleAfter : Time)
  | reclaimOrphanBuildHostLeases

def discard {α : Type} (p : Async α) : Async Unit := do
  let _ ← p

def Client.prog (cfg : Config) : Client → Async Unit
  | core client => (client.prog cfg).lift
  | openInvestigation ctx project => discard (Investigations.openInvestigation ctx project)
  | closeInvestigation ctx id => discard (Investigations.closeInvestigation ctx id)
  | createRun ctx inv system profile => discard (Runs.createRun ctx inv system profile)
  | buildRun ctx run cmdline => discard (Runs.buildRun ctx run cmdline)
  | completeBuild ctx run cmdline => discard (Runs.completeBuild ctx run cmdline)
  | installRun ctx run => discard (Runs.installRun ctx run)
  | bootRun ctx run => discard (Runs.bootRun ctx run)
  | provisionDefined ctx system => discard (Systems.provisionDefined ctx system)
  | reprovision ctx system profile digest => discard (Systems.reprovision ctx system profile digest)
  | startSession ctx run transport => discard (Debug.startSession ctx run transport)
  | endSession ctx session => discard (Debug.endSession ctx session)
  | enqueue request => discard (connection (Queue.enqueue request.payload request.dedupKey))
  | cancelJob id => discard (Platform.cancelJob id)
  | dequeue worker => discard (connection (Queue.dequeue worker))
  | heartbeat id worker => discard (connection (Queue.heartbeat id worker))
  | complete id worker ref => discard (connection (Queue.complete id worker ref))
  | fail job worker category terminal =>
    discard (connection (Queue.fail job worker category terminal))
  | buildHandler job run cmdline => Runs.buildHandler job run cmdline
  | reprovisionHandler job => Systems.reprovisionHandler cfg job
  | forceCrashHandler job system => Systems.forceCrashHandler cfg job system
  | repairAbandonedJobs => discard (connection Reconciler.repairAbandonedJobs)
  | repairDeadSessions staleAfter => discard (connection (Reconciler.repairDeadSessions staleAfter))
  | reclaimOrphanBuildHostLeases => discard (connection Reconciler.reclaimOrphanBuildHostLeases)
end Kdive.Platform
