import Kdive.Platform.Repositories

/-! # Investigations and Runs: `mcp/tools/catalog/investigations.py`, `mcp/tools/lifecycle/runs/` and
`jobs/handlers/runs.py`

Each tool runs on one pool connection. Where its first statement is a bare read, that read opens the
transaction, the tool's own `conn.transaction()` is a savepoint in it, and the writes are committed when
the connection is returned. So it is in `build_handler`, whose failure path commits by hand before it
raises.
-/

namespace Kdive.Platform
open Lib (Time Keyed Table Prog Stmt)
open Lib.Prog hiding host
open Jobs (JobRow JobKind Payload DedupKey StepRow BuildStepResult BuildOutput WorkerId)
open Repositories

/-- A `ToolResponse`, with what it says of the object and of its state. -/
inductive Response where
  | success (objectId : Uuid) (status : String)
  | failure (objectId : Uuid) (category : ErrorCategory) (data : List (String × String))
  | job (job : JobRow) (objectId : Uuid)

def configError (objectId : Uuid) (data : List (String × String) := []) : Response :=
  .failure objectId .configurationError data

def staleHandle (objectId : Uuid) (currentStatus : String) : Response :=
  .failure objectId .staleHandle [("current_status", currentStatus)]

/-! ## Investigations -/

namespace Investigations
def openInvestigation (ctx : RequestContext) (project : String) : Async Response :=
  connection <| transaction do
    let id ← ask (·.1.uuid)
    investigations.insert { id, project, state := .isOpen }
    audit ctx
      { tool := "investigations.open", objectKind := "investigations", objectId := id
        transition := [.text "->open"], args := [("project", .text project)], project := project }
    return .success id "open"

def closeLocked (ctx : RequestContext) (id : Uuid) (project : String) : Async Response :=
  transaction do
    advisoryXactLock (.investigation id)
    match ← investigations.get id with
    | none => return .failure id .notFound []
    | some current =>
      if current.state = .closed then return .success id "closed"
      if current.state = .abandoned then return configError id [("current_status", "abandoned")]
      investigations.updateState id .closed
      audit ctx
        { tool := "investigations.close", objectKind := "investigations", objectId := id
          transition := [.text current.state.value, .text "->closed"]
          args := [("investigation_id", .id id)], project := project }
      return .success id "closed"

/-- `close_investigation`. The row is read again on a second connection; here, on the one at hand. -/
def closeInvestigation (ctx : RequestContext) (id : Uuid) : Async Response :=
  connection do
    match ← investigations.get id with
    | none => return .failure id .notFound []
    | some inv =>
      if inv.project ∉ ctx.projects then return .failure id .notFound []
      (closeLocked ctx id inv.project).attempt fun
      | .ok response => return response
      | .error (.illegalTransition ..) => do
        match ← investigations.get id with
        | none => return .failure id .notFound []
        | some latest => return configError id [("current_status", latest.state.value)]
      | .error e => .raise e
end Investigations

namespace Runs
/-! ## `runs.create` -/

structure CreateTargets where
  investigationId : Uuid
  systemId : Uuid
  allocationId : Uuid

def resolveTargets (ctx : RequestContext) (investigationId systemId : Uuid) :
    Async (Except Response (CreateTargets × String)) := do
  match ← investigations.get investigationId with
  | none => return .error (configError investigationId)
  | some inv =>
    if inv.project ∉ ctx.projects then return .error (configError investigationId)
    match ← systems.get systemId with
    | none => return .error (configError systemId)
    | some system =>
      if system.project ∉ ctx.projects then return .error (configError systemId)
      if system.project ≠ inv.project then return .error (configError systemId)
      match ← (Allocations.get system.allocationId).lift with
      | none => return .error (staleHandle systemId "missing")
      | some alloc =>
        if alloc.state ≠ .active then return .error (staleHandle systemId alloc.state.value)
        return .ok (⟨investigationId, systemId, alloc.id⟩, inv.project)

def liveRunsOf (t : Tables) (systemId : Uuid) : Nat :=
  t.runs.rows.countP fun r => r.systemId = systemId && r.state.live

def countNonTerminalRuns (systemId : Uuid) : Async Nat :=
  select fun v _ => liveRunsOf v.2 systemId

def systemBlockResponse (system : System) : Option Response :=
  match system.state with
  | .ready => none
  | .tornDown => some (staleHandle system.id system.state.value)
  | .failed => some (staleHandle system.id system.state.value)
  | .crashed => some (staleHandle system.id system.state.value)
  | s => some (configError system.id [("current_status", s.value)])

def allocationBlockResponse (alloc : Option Allocation) (systemId : Uuid) (now : Time) : Option Response :=
  match alloc with
  | none => some (staleHandle systemId "missing")
  | some a =>
    if a.state ≠ .active then some (staleHandle systemId a.state.value)
    else if a.leaseExpiry.any (· < now) then some (staleHandle systemId "lease_expired")
    else none

/-- `_preconditions_block_response`: `none` when nothing stands in the way. -/
def preconditionsBlockResponse (targets : CreateTargets) (project : String) : Async (Option Response) := do
  match ← systems.get targets.systemId with
  | none => return some (configError targets.systemId)
  | some system =>
    match systemBlockResponse system with
    | some blocked => return some blocked
    | none =>
      let alloc ← (Allocations.get targets.allocationId).lift
      let now ← ask (·.1.now)
      match allocationBlockResponse alloc targets.systemId now with
      | some blocked => return some blocked
      | none =>
        if system.project ≠ project then return some (configError targets.systemId)
        let live ← countNonTerminalRuns targets.systemId
        if live > 0 then
          return some (.failure targets.systemId .transportConflict [("reason", "system_has_live_run")])
        return none

def insertRun (ctx : RequestContext) (targets : CreateTargets) (profile : BuildProfile)
    (project : String) : Async Uuid := do
  let id ← ask (·.1.uuid)
  runs.insert
    { id, project, investigationId := targets.investigationId, systemId := targets.systemId
      state := .created, buildProfile := profile }
  audit ctx
    { tool := "runs.create", objectKind := "runs", objectId := id, transition := [.text "->created"]
      args := [("investigation_id", .id targets.investigationId), ("system_id", .id targets.systemId)]
      project := project }
  return id

def flipInvestigationIfOpen (ctx : RequestContext) (inv : Investigation) (id : Uuid)
    (project : String) : Async Unit := do
  if inv.state = .isOpen then
    investigations.updateState id .active
    audit ctx
      { tool := "runs.create", objectKind := "investigations", objectId := id
        transition := [.text "open->active"], args := [("investigation_id", .id id)]
        project := project }
  let _ ← investigations.update id (fun _ => true) fun now =>
    .inr (.patchInvestigation id (.lastRunAt now))

/-- `_create_locked`. Whether the System meets the sizes the caller asks for is an answer of the host. -/
def createLocked (ctx : RequestContext) (targets : CreateTargets) (profile : BuildProfile)
    (project : String) : Async Response :=
  transaction do
    advisoryXactLock (.core (.allocation targets.allocationId))
    advisoryXactLock (.core (.system targets.systemId))
    advisoryXactLock (.investigation targets.investigationId)
    match ← preconditionsBlockResponse targets project with
    | some blocked => return blocked
    | none =>
      let satisfied ← ask (·.2.allowed)
      if !satisfied then
        return configError targets.systemId [("reason", "reuse_requirement_unmet")]
      match ← investigations.getForUpdate targets.investigationId with
      | none => return configError targets.investigationId
      | some inv =>
        if inv.state ≠ .isOpen ∧ inv.state ≠ .active then
          return configError targets.investigationId [("current_status", inv.state.value)]
        let id ← insertRun ctx targets profile project
        flipInvestigationIfOpen ctx inv targets.investigationId project
        return .success id "created"

def createRun (ctx : RequestContext) (investigationId systemId : Uuid) (profile : BuildProfile) : Async Response :=
  connection do
    match ← resolveTargets ctx investigationId systemId with
    | .error response => return response
    | .ok (targets, project) => createLocked ctx targets profile project

/-! ## `runs.build` -/

/-- The checks of `resolve_and_admit` on the host it has found. -/
def hostRefused (name : String) (host : BuildHost) (git : Bool) : Option Err :=
  if !host.enabled ∨ host.state = .unreachable then
    some (.configuration [.text "build host ", .quoted name, .text " is not available"]
      [("build_host", .text name), ("enabled", .text (if host.enabled then "True" else "False")),
        ("state", .text host.state.value)])
  else if host.kind = .isLocal ∧ git then
    some (.configuration [.text "a local build host requires a warm-tree kernel_source_ref, not a git ref"]
      [("build_host", .text name), ("host_kind", .text host.kind.value)])
  else if host.kind ≠ .isLocal ∧ !git then
    some (.configuration [.text "a remote build host requires a git kernel_source_ref"]
      [("build_host", .text name), ("host_kind", .text host.kind.value)])
  else none

def resolveAndAdmit (buildHost : Option String) (git : Bool) (runId : Uuid) : Async BuildHost := do
  let name := buildHost.getD "worker-local"
  match ← BuildHosts.getByName name with
  | none => .raise (.of [.text "build host ", .quoted name, .text " not found"] .notFound
      [("build_host", .text name)])
  | some host =>
    match hostRefused name host git with
    | some e => .raise e
    | none =>
      if host.kind ≠ .isLocal then
        let ok ← BuildHosts.tryAcquireLease host runId
        if !ok then
          .raise (.of [.text "build host ", .quoted name, .text " is at capacity"] .capacityExhausted
            [("build_host", .text name)])
      return host

/-- `_build_locked`, inside its transaction. -/
def buildAdmitted (ctx : RequestContext) (run : Run) (cmdline buildHost : Option String)
    (git : Bool) : Async JobRow := do
  advisoryXactLock (.run run.id)
  let _ ← resolveAndAdmit buildHost git run.id
  match ← runs.getForUpdate run.id with
  | none => .raise (.configuration [.id run.id])
  | some row =>
    if row.state = .failed ∨ row.state = .canceled then
      .raise (.configuration [.id run.id] [("current_status", .text row.state.value)])
    if row.state = .created then
      let _ ← runs.update run.id (·.state = .created) fun _ =>
        .inr (.patchRun run.id (.state .running))
      audit ctx
        { tool := "runs.build", objectKind := "runs", objectId := run.id
          transition := [.text "created->running"], args := [("run_id", .id run.id)]
          project := run.project }
    Queue.enqueue (.build run.id cmdline) (.build run.id)

def buildLocked (ctx : RequestContext) (run : Run) (cmdline buildHost : Option String) (git : Bool) : Async Response :=
  (transaction (buildAdmitted ctx run cmdline buildHost git)).attempt fun
  | .ok job => return .job job run.id
  | .error (.categorized e) => return .failure run.id e.category []
  | .error e => .raise e

def buildRun (ctx : RequestContext) (runId : Uuid) (cmdline : Option String) : Async Response :=
  connection do
    match ← runs.get runId with
    | none => return configError runId
    | some run =>
      if run.project ∉ ctx.projects then return configError runId
      match run.buildProfile with
      | .external => return configError runId [("reason", "external_source_uses_complete_build")]
      | .server buildHost git =>
        let supported ← ask (·.2.allowed)
        if !supported then return configError runId
        buildLocked ctx run cmdline buildHost git

/-! ## `runs.complete_build` -/

/-- `INSERT INTO run_steps … ON CONFLICT (run_id, step) DO NOTHING`. -/
def recordStepStmt (s : StepRow) : Stmt store where
  keys v _ := if (v.2.steps.get s.runId).isSome then [] else [.inr (.stepRow s.runId)]
  act v _ := .ok (if (v.2.steps.get s.runId).isSome then [] else [.inr (.insertStep s)])

def recordBuild (runId : Uuid) (result : BuildStepResult) : Async Unit :=
  stmt (recordStepStmt (Jobs.Db.buildStep runId result)) fun _ _ => ()

def existingBuildResult (runId : Uuid) : Async (Option BuildStepResult) :=
  select fun v _ => (v.2.steps.get runId).bind fun s => BuildStepResult.load s.result

/-- `_finalize_external_build`. The artifacts and the manifest are statements on other tables. -/
def finalizeExternalBuild (ctx : RequestContext) (run : Run) (output : BuildOutput)
    (initrd : Option String) (cmdline : String) : Async Response :=
  transaction do
    advisoryXactLock (.run run.id)
    match ← runs.getForUpdate run.id with
    | none => return configError run.id
    | some row =>
      if row.state = .succeeded then
        let _ ← existingBuildResult run.id
        return .success run.id "succeeded"
      if row.state ≠ .created then
        return configError run.id [("current_status", row.state.value)]
      elsewhere.lift
      recordBuild run.id (Jobs.Db.externalResult output initrd cmdline)
      let _ ← runs.update run.id (·.state = .created) fun _ =>
        .inr (.patchRun run.id (.succeeded (some output.kernelRef)
          (if output.debuginfoRef = "" then none else some output.debuginfoRef)))
      audit ctx
        { tool := "runs.complete_build", objectKind := "runs", objectId := run.id
          transition := [.text "created->succeeded"], args := [("run_id", .id run.id)]
          project := run.project }
      elsewhere.lift
      return .success run.id "succeeded"

/-- `complete_build`. Reading the manifest and reassembling chunks are statements on other tables. -/
def completeBuild (ctx : RequestContext) (runId : Uuid) (cmdline : String) : Async Response :=
  connection do
    match ← runs.get runId with
    | none => return configError runId
    | some run =>
      if run.project ∉ ctx.projects then return configError runId
      match ← existingBuildResult runId with
      | some _ => return .success runId "succeeded"
      | none =>
        if run.buildProfile ≠ .external then return configError runId
        if run.state ≠ .created then return configError runId [("current_status", run.state.value)]
        elsewhere.lift
        match ← ask (·.2.upload) with
        | .error (.categorized e) => return .failure runId e.category []
        | .error e => .raise e
        | .ok (output, initrd) => finalizeExternalBuild ctx run output initrd cmdline

/-! ## `runs.install` and `runs.boot` -/

def enqueueStep (ctx : RequestContext) (run : Run) (payload : Payload) (key : DedupKey)
    (step tool : String) : Async Response :=
  transaction do
    advisoryXactLock (.run run.id)
    let job ← Queue.enqueue payload key
    audit ctx
      { tool := tool, objectKind := "runs", objectId := run.id, transition := [.text step]
        args := [("run_id", .id run.id)], project := run.project }
    return .job job run.id

/-- `install_run` and `boot_run`. The step that `boot_run` asks for is an answer of the host. -/
def stepRun (ctx : RequestContext) (runId : Uuid) (payload : Payload) (key : DedupKey)
    (step tool : String) : Async Response :=
  connection do
    match ← runs.get runId with
    | none => return configError runId
    | some run =>
      if run.project ∉ ctx.projects then return configError runId
      if run.state ≠ .succeeded then return configError runId [("current_status", run.state.value)]
      let before ← ask (·.2.allowed)
      if !before then return configError runId [("reason", "install_first")]
      enqueueStep ctx run payload key step tool

def installRun (ctx : RequestContext) (runId : Uuid) : Async Response :=
  stepRun ctx runId (.install runId) (.install runId) "install" "runs.install"

def bootRun (ctx : RequestContext) (runId : Uuid) : Async Response :=
  stepRun ctx runId (.boot runId) (.boot runId) "boot" "runs.boot"

/-! ## `jobs/handlers/runs.py` -/

/-- The end of `_fail_build`: the row is read back, and the change recorded. -/
def failBuildRecorded (job : Authorizing) (run : Run) : Async Unit := do
  match ← runs.get run.id with
  | none => .raise (.illegalTransition "RunState" "" "failed")
  | some row =>
    if row.state ≠ .failed then .raise (.illegalTransition "RunState" row.state.value "failed")
    audit (job.context run.project)
      { tool := "runs.build", objectKind := "runs", objectId := run.id
        transition := [.text "running->failed"], args := [("run_id", .id run.id)]
        project := run.project }

/-- `_fail_build`, inside its transaction. -/
def failBuildLocked (job : Authorizing) (run : Run) (category : ErrorCategory) : Async Unit := do
  advisoryXactLock (.run run.id)
  let _ ← runs.update run.id (·.state = .running) fun _ =>
    .inr (.patchRun run.id (.failed category))
  failBuildRecorded job run

/-- `_fail_build`: `IllegalTransition` is logged, and no more. -/
def failBuild (job : Authorizing) (run : Run) (category : ErrorCategory) : Async Unit :=
  (transaction (failBuildLocked job run category)).attempt fun
  | .ok _ => return ()
  | .error (.illegalTransition ..) => return ()
  | .error e => .raise e

def finalizeBuild (job : Authorizing) (run : Run) (result : BuildStepResult) : Async Unit :=
  transaction do
    advisoryXactLock (.run run.id)
    recordBuild run.id result
    match ← runs.getForUpdate run.id with
    | none => return ()
    | some row =>
      if row.state ≠ .running then return ()
      let _ ← runs.update run.id (·.state = .running) fun _ =>
        .inr (.patchRun run.id (.succeeded result.kernelRef result.debuginfoRef))
      audit (job.context run.project)
        { tool := "runs.build", objectKind := "runs", objectId := run.id
          transition := [.text "running->succeeded"], args := [("run_id", .id run.id)]
          project := run.project }

/-- `_release_build_lease`: whatever it raises is logged, and no more. -/
def releaseBuildLease (runId : Uuid) : Async Unit :=
  (transaction (BuildHosts.releaseLease runId)).catching fun _ => return ()

/-- `conn.commit()`. -/
def commit : Async Unit := .finish true (andThen fun _ => .ret ())

/-- `_build_and_record`. The host of the payload and the runtime of the Run are looked up first; that
    either may be gone is an answer of the host, as the build is. -/
def buildAndRecord (job : Authorizing) (run : Run) (cmdline : Option String) : Async BuildStepResult := do
  elsewhere.lift
  match ← ask (·.2.build) with
  | .ok output =>
    return { kernelRef := some output.kernelRef, debuginfoRef := some output.debuginfoRef
             buildId := some output.buildId, cmdline := cmdline }
  | .error (.categorized e) => do
    failBuild job run e.category
    commit
    .raise (.categorized e)
  | .error e => .raise e

def buildHandler (job : Authorizing) (runId : Uuid) (cmdline : Option String) : Async Unit :=
  connection do
    match ← runs.get runId with
    | none => .raise (.of [.text "build target run is gone"] .infrastructureFailure [("run_id", .id runId)])
    | some run =>
      if run.buildProfile = .external then
        .raise (.configuration [.text "external-source run reached the server build handler"] [("run_id", .id runId)])
      let result ← (do
        match ← existingBuildResult runId with
        | some result => return result
        | none => buildAndRecord job run cmdline : Async BuildStepResult)
      finalizeBuild job run result
      releaseBuildLease runId
end Runs
end Kdive.Platform
