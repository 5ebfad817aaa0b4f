import Kdive.Platform.Runs

/-! # Systems and debug sessions

`systems.provision_defined` (`services/systems/admission.py`), `systems.reprovision`
(`mcp/tools/lifecycle/systems/admin.py`), the handler of `force_crash` (`jobs/handlers/control.py`), and
`debug.start_session` and `debug.end_session` (`mcp/tools/debug/sessions.py`).

A session is attached in two steps: the transport is opened on no connection at all, and what had been
checked before is checked again under the System's lock.
-/

namespace Kdive.Platform
open Lib (Time Keyed Table Prog Stmt)
open Lib.Prog
open Jobs (JobRow JobKind Payload DedupKey WorkerId)
open Repositories

namespace Systems
def enqueueProvisionJob (allocationId systemId : Uuid) : Async Response := do
  let job ← Queue.enqueue (.provision systemId) (.provision allocationId)
  return .job job systemId

def admitDefined (ctx : RequestContext) (alloc : Allocation) (system : System) : Async Response := do
  systems.updateState system.id .provisioning
  audit ctx
    { tool := "systems.provision", objectKind := "systems", objectId := system.id
      transition := [.text "defined->provisioning"], args := [("allocation_id", .id alloc.id)]
      project := alloc.project }
  enqueueProvisionJob alloc.id system.id

def provisionDefinedResponse (ctx : RequestContext) (system : System) (alloc : Allocation) : Async Response := do
  if system.state = .provisioning then enqueueProvisionJob system.allocationId system.id
  else if system.state ≠ .defined then
    return configError system.id [("current_status", system.state.value)]
  else
    match ← ask (·.1.profile) with
    | .error (.categorized e) => return .failure system.id e.category []
    | .error e => .raise e
    | .ok _ =>
      if alloc.state ≠ .active then return configError alloc.id [("current_status", alloc.state.value)]
      admitDefined ctx alloc system

def provisionDefinedLocked (ctx : RequestContext) (systemId allocationId : Uuid) (project : String) : Async Response :=
  connection <| transaction do
    advisoryXactLock (.core (.project project))
    advisoryXactLock (.core (.allocation allocationId))
    match ← systems.get systemId with
    | none => return configError systemId
    | some system =>
      if system.project ∉ ctx.projects then return configError systemId
      match ← (Allocations.get system.allocationId).lift with
      | none => return configError system.allocationId
      | some alloc =>
        if alloc.project ≠ system.project then return configError system.allocationId
        provisionDefinedResponse ctx system alloc

/-- `provision_defined`, with `_provision_defined_locked`. -/
def provisionDefined (ctx : RequestContext) (systemId : Uuid) : Async Response := do
  match ← connection (systems.get systemId) with
  | none => return configError systemId
  | some probe =>
    if probe.project ∉ ctx.projects then return configError systemId
    (provisionDefinedLocked ctx systemId probe.allocationId probe.project).attempt fun
    | .ok response => return response
    | .error (.illegalTransition ..) => do
      let latest ← connection (systems.get systemId)
      return configError systemId (latest.toList.map fun s => ("current_status", s.state.value))
    | .error e => .raise e

/-! ## `systems.reprovision` -/

def hasLiveRun (systemId : Uuid) : Async Bool :=
  select fun v _ => v.2.runs.rows.any fun r => r.systemId = systemId && r.state.live

/-- The change is recorded, and the job enqueued. -/
def enqueueReprovision (ctx : RequestContext) (system : System) (digest : String) : Async Response := do
  audit ctx
    { tool := "systems.reprovision", objectKind := "systems", objectId := system.id
      transition := [.text "ready->reprovisioning"]
      args := [("system_id", .id system.id), ("profile_digest", .text digest)]
      project := system.project }
  let job ← Queue.enqueue (.reprovision system.id digest) (.reprovision system.id digest)
  return .job job system.id

def admitReprovision (ctx : RequestContext) (system : System) (profile digest : String) : Async Response := do
  systems.updateState system.id .reprovisioning
  let _ ← systems.update system.id (fun _ => true) fun _ =>
    .inl (.patchSystem system.id (.profile profile))
  enqueueReprovision ctx system digest

/-- `_audit_destructive_denied`, for a reprovision. -/
def auditDenied (ctx : RequestContext) (system : System) : Async Unit :=
  audit ctx
    { tool := "systems.reprovision", objectKind := "systems", objectId := system.id
      transition := [.text "reprovision:denied"], args := [("system_id", .id system.id)]
      project := system.project }

/-- `_reprovision_locked`. The gate on destructive operations is an answer of the host, and so is the
    check of the root filesystem. -/
def reprovisionLocked (ctx : RequestContext) (systemId : Uuid) (profile digest : String) : Async Response :=
  connection <| transaction do
    advisoryXactLock (.core (.system systemId))
    match ← systems.get systemId with
    | none => return configError systemId
    | some system =>
      if system.project ∉ ctx.projects then return configError systemId
      match ← (Allocations.get system.allocationId).lift with
      | none => return configError systemId
      | some allocation =>
        if allocation.project ∉ ctx.projects then return configError systemId
        let allowed ← ask (·.2.allowed)
        if !allowed then
          auditDenied ctx system
          return .failure systemId .authorizationDenied []
        if system.state = .reprovisioning then
          match ← select fun v _ =>
              Jobs.Queue.forKey v.2.jobs (.reprovision systemId digest) with
          | some existing => return .job existing systemId
          | none => return configError systemId [("current_status", system.state.value)]
        if system.state ≠ .ready then
          return configError systemId [("current_status", system.state.value)]
        let live ← hasLiveRun systemId
        if live then return staleHandle systemId system.state.value
        match ← ask (·.1.rootfs) with
        | .error (.categorized e) => return .failure systemId e.category []
        | .error e => .raise e
        | .ok _ => admitReprovision ctx system profile digest

/-- `reprovision_system`. -/
def reprovision (ctx : RequestContext) (systemId : Uuid) (profile digest : String) : Async Response :=
  (reprovisionLocked ctx systemId profile digest).attempt fun
  | .ok response => return response
  | .error (.illegalTransition ..) => do
    let latest ← connection (systems.get systemId)
    return configError systemId (latest.toList.map fun s => ("current_status", s.state.value))
  | .error e => .raise e

/-! ## `force_crash_handler` -/

/-- The sessions of a System that the crash detaches, as `detach_sessions` selects them. -/
def attached (t : Tables) (systemId : Uuid) : List DebugSession :=
  t.sessions.rows.filter fun x =>
    x.occupies && (t.runs.get x.runId).any (·.systemId = systemId)

def detachStmt (systemId : Uuid) : Stmt store where
  keys v _ := (attached v.2 systemId).map fun x => .inr (.sessionRow x.id)
  act v _ := .ok ((attached v.2 systemId).map fun x => .inr (.setSession x.id .detached))

def detachSessions (job : Authorizing) (system : System) : Async Unit := do
  let rows ← stmt (detachStmt system.id) fun v _ => attached v.2 system.id
  foldEach (fun _ x => audit (job.context system.project)
    { tool := "control.force_crash", objectKind := "debug_sessions", objectId := x.id
      transition := [.text x.state.value, .text "->detached"]
      args := [("system_id", .id system.id)], project := system.project }) () rows

def goneErr (systemId : Uuid) : Err :=
  .of [.text "force_crash target system is gone"] .infrastructureFailure [("system_id", .id systemId)]

/-- `_force_crash_target`: the project, when there is something to crash. -/
def forceCrashTarget (systemId : Uuid) : Async (Option String) :=
  transaction do
    advisoryXactLock (.core (.system systemId))
    match ← systems.get systemId with
    | none => .raise (goneErr systemId)
    | some system => return if system.state.terminal then none else some system.project

def finalizeForceCrash (job : Authorizing) (systemId : Uuid) (project : String) : Async Unit :=
  transaction do
    advisoryXactLock (.core (.system systemId))
    match ← systems.get systemId with
    | none => .raise (goneErr systemId)
    | some system =>
      if system.state.terminal then return ()
      if system.state = .ready then
        systems.updateState systemId .crashed
        audit (job.context project)
          { tool := "control.force_crash", objectKind := "systems", objectId := systemId
            transition := [.text "ready->crashed"], args := [("system_id", .id systemId)]
            project := project }
      detachSessions job system

/-- `force_crash_handler`. The first block is a transaction of its own; the lookup of the controller is a
    bare read, which opens the transaction that the last block is a savepoint of. -/
def forceCrashHandler (cfg : Config) (job : Authorizing) (systemId : Uuid) : Async Unit :=
  connection do
    match ← forceCrashTarget systemId with
    | none => return ()
    | some project =>
      (Handlers.runtimeForSystem cfg systemId).lift
      ofExcept (← ask (·.2.forceCrash))
      finalizeForceCrash job systemId project

/-- The handler of `reprovision` jobs, as it is in `Kdive.Services.Systems`. -/
def reprovisionHandler (cfg : Config) (job : Job) : Async Unit :=
  (Handlers.runHandler (Handlers.reprovisionHandler cfg job)).lift
end Systems

namespace Debug
/-! ## `debug.start_session` -/

def occupied (t : Tables) (systemId : Uuid) (transport : DebugTransport) : Bool :=
  t.sessions.rows.any fun x =>
    x.occupies && x.transport = transport && (t.runs.get x.runId).any (·.systemId = systemId)

def systemOccupied (systemId : Uuid) (transport : DebugTransport) : Async Bool :=
  select fun v _ => occupied v.2 systemId transport

/-- `_attach_preconditions`: the System, when they are met. That the Run has booted is an answer of the
    host. -/
def attachPreconditions (run : Run) (transport : DebugTransport) : Async (Except Response System) := do
  if run.state ≠ .succeeded then
    return .error (configError run.id [("current_status", run.state.value)])
  let booted ← ask (·.2.allowed)
  if !booted then return .error (configError run.id [("reason", "boot_first")])
  match ← systems.get run.systemId with
  | none => return .error (configError run.id)
  | some system =>
    if system.state ≠ .ready then
      return .error (configError run.id [("current_status", system.state.value)])
    if ← systemOccupied system.id transport then
      return .error (.failure run.id .transportConflict [])
    return .ok system

/-- `_prepare_attach_request`. The connector and the credential are answers of the host. -/
def prepareAttachRequest (ctx : RequestContext) (runId : Uuid) (transport : DebugTransport) :
    Async (Except Response (Run × System)) := do
  match ← runs.get runId with
  | none => return .error (configError runId)
  | some run =>
    if run.project ∉ ctx.projects then return .error (configError runId)
    match ← attachPreconditions run transport with
    | .error response => return .error response
    | .ok system =>
      let resolved ← ask (·.2.allowed)
      if !resolved then return .error (configError runId)
      return .ok (run, system)

def newSession (id : Uuid) (run : Run) (transport : DebugTransport) (handle : String) (now : Time) : DebugSession where
  id := id
  project := run.project
  runId := run.id
  state := .attach
  transport := transport
  transportHandle := some handle
  workerHeartbeatAt := some now

def insertSessionLocked (ctx : RequestContext) (run : Run) (systemId : Uuid) (handle : String)
    (transport : DebugTransport) (sessionId : Uuid) : Async Response :=
  transaction do
    advisoryXactLock (.core (.system systemId))
    match ← systems.get systemId with
    | none => return configError run.id [("current_status", "torn_down")]
    | some current =>
      if current.state ≠ .ready then
        return configError run.id [("current_status", current.state.value)]
      if ← systemOccupied systemId transport then return .failure run.id .transportConflict []
      let now ← ask (·.1.now)
      debugSessions.insert (newSession sessionId run transport handle now)
      audit ctx
        { tool := "debug.start_session", objectKind := "debug_sessions", objectId := sessionId
          transition := [.text "->attach"], args := [("run_id", .id run.id)], project := run.project }
      debugSessions.updateState sessionId .live
      audit ctx
        { tool := "debug.start_session", objectKind := "debug_sessions", objectId := sessionId
          transition := [.text "attach->live"], args := [("run_id", .id run.id)]
          project := run.project }
      return .success sessionId "live"

def startSession (ctx : RequestContext) (runId : Uuid) (transport : DebugTransport) : Async Response := do
  let sessionId ← ask (·.1.uuid)
  match ← connection (prepareAttachRequest ctx runId transport) with
  | .error response => return response
  | .ok (run, system) =>
    match ← ask (·.2.transport) with
    | .error (.categorized e) => return .failure system.id e.category []
    | .error e => .raise e
    | .ok handle =>
      connection (insertSessionLocked ctx run system.id handle transport sessionId)

/-! ## `debug.end_session` -/

def detachLocked (ctx : RequestContext) (sessionId systemId : Uuid) : Async Response :=
  transaction do
    advisoryXactLock (.core (.system systemId))
    match ← debugSessions.getForUpdate sessionId with
    | none => return configError sessionId
    | some row =>
      if row.state = .detached then return .success sessionId "detached"
      debugSessions.updateState sessionId .detached
      audit ctx
        { tool := "debug.end_session", objectKind := "debug_sessions", objectId := sessionId
          transition := [.text row.state.value, .text "->detached"]
          args := [("session_id", .id sessionId)], project := row.project }
      return .success sessionId "detached"

def endSession (ctx : RequestContext) (sessionId : Uuid) : Async Response :=
  connection do
    match ← debugSessions.get sessionId with
    | none => return configError sessionId
    | some session =>
      if session.project ∉ ctx.projects then return configError sessionId
      match ← runs.get session.runId with
      | none => return configError sessionId
      | some run =>
        let resolved ← ask (·.2.allowed)
        if !resolved then return configError sessionId
        detachLocked ctx sessionId run.systemId
end Debug
end Kdive.Platform
