import Kdive.Services.Release

/-! # Systems: `services/systems/admission.py` and `jobs/handlers/systems.py`

Creating a System makes its allocation `active`; the provision job defines the domain, drives the System to `ready` and
opens the billing interval, in the transaction its first read has opened. Profiles are the provider's business: parsing,
sizing and validation are one answer of the host each. The `artifacts`, `upload_manifests` and `jobs` rows are not
modelled; the statements that write them are, as statements that may raise.
-/

namespace Kdive
open Lib (Time Prog Stmt)
open Lib.Prog Systems Host

/-- A statement on a table that is not modelled. -/
def elsewhere : Async Unit := select fun _ _ => ()

/-! ## `services/systems/admission.py` -/

namespace SystemAdmission
inductive CreateMode where
  | provision | define
  deriving DecidableEq

inductive Result where
  | failure (objectId : Uuid) (category : ErrorCategory) (currentStatus : Option String)
  | provisionJobAdmitted (systemId : Uuid)
  | definedSystemAdmitted (system : System)

def failure (objectId : Uuid) (currentStatus : Option String := none) : Result :=
  .failure objectId .configurationError currentStatus

def withinSystemQuota (project : String) : Async Bool :=
  withinQuota (·.maxConcurrentSystems)
    (fun v project => v.systems.rows.countP fun s => s.project = project && !s.state.terminal)
    project

def findSystemForAllocation (allocId : Uuid) : Async (Option System) :=
  select fun v _ =>
    (orderByAge (·.createdAt) (·.id) (v.systems.rows.filter fun s => s.allocationId = allocId)).head?

/-- `_new_system_allowed`: `none` when it is. -/
def newSystemAllowed (alloc : Allocation) : Async (Option Result) := do
  if alloc.state ≠ .granted then return some (failure alloc.id (some alloc.state.value))
  if !(← withinSystemQuota alloc.project) then
    return some (.failure alloc.id .quotaExceeded none)
  match ← ask profile with
  | .ok _ => return none
  | .error (.categorized e) => return some (.failure alloc.id e.category none)
  | .error e => .raise e

def insertSystemAndActivate (ctx : RequestContext) (alloc : Allocation) (profile : String)
    (state : SystemState) (tool transition : String) : Async System := do
  let id ← ask uuid
  let system ← insert
    { id := id
      createdAt := 0
      principal := ctx.principal
      agentSession := ctx.agentSession
      project := alloc.project
      allocationId := alloc.id
      state := state
      provisioningProfile := profile
      shape := alloc.shape }
  Audit.record ctx
    { tool := tool, objectKind := "systems", objectId := system.id
      transition := [.text transition], args := [("allocation_id", .id alloc.id)]
      project := alloc.project }
  Allocations.updateState alloc.id .active
  Audit.record ctx
    { tool := tool, objectKind := "allocations", objectId := alloc.id
      transition := [.text "granted->active"], args := [("allocation_id", .id alloc.id)]
      project := alloc.project }
  return system

/-- `_insert_defined_system`, and `_insert_provisioning_system` when a job is to be enqueued. -/
def insertSystem (ctx : RequestContext) (alloc : Allocation) (profile : String) (mode : CreateMode) : Async Result := do
  match ← newSystemAllowed alloc with
  | some blocked => return blocked
  | none =>
    match mode with
    | .define =>
      let system ← insertSystemAndActivate ctx alloc profile .defined "systems.define" "->defined"
      return .definedSystemAdmitted system
    | .provision =>
      let system ← insertSystemAndActivate ctx alloc profile .provisioning "systems.provision"
        "->provisioning"
      elsewhere
      return .provisionJobAdmitted system.id

/-- `_provision_create_response` and `_define_create_response`. -/
def createResponse (ctx : RequestContext) (alloc : Allocation) (existing : Option System)
    (profile : String) (mode : CreateMode) : Async Result :=
  match existing with
  | none => insertSystem ctx alloc profile mode
  | some system =>
    match mode, system.state with
    | .define, .defined => return .definedSystemAdmitted system
    | .provision, .provisioning => do
      elsewhere
      return .provisionJobAdmitted system.id
    | _, s => return failure system.id (some s.value)

/-- `_locked_allocation_system` around its body. -/
def underLocks (ctx : RequestContext) (allocId : Uuid) (project : String)
    (body : Allocation → Option System → Async Result) : Async Result :=
  connection <| transaction do
    advisoryXactLock (.project project)
    advisoryXactLock (.allocation allocId)
    match ← Allocations.get allocId with
    | none => return failure allocId
    | some alloc =>
      if alloc.project ∉ ctx.projects then return failure allocId
      let existing ← findSystemForAllocation allocId
      body alloc existing

def createForAllocation (ctx : RequestContext) (allocationId : Uuid) (mode : CreateMode) : Async Result := do
  match ← ask profile with
  | .error (.categorized e) => return .failure allocationId e.category none
  | .error e => .raise e
  | .ok _ =>
    match ← connection (Allocations.get allocationId) with
    | none => return failure allocationId
    | some probe =>
      if probe.project ∉ ctx.projects then return failure allocationId
      (underLocks ctx allocationId probe.project fun alloc existing => do
        match ← ask profile with
        | .error (.categorized e) => return .failure alloc.id e.category none
        | .error e => .raise e
        | .ok stored => createResponse ctx alloc existing stored mode).attempt fun
      | .ok result => return result
      | .error (.illegalTransition ..) => do
        let latest ← connection (Allocations.get allocationId)
        return failure allocationId (latest.map (·.state.value))
      | .error e => .raise e
end SystemAdmission

/-! ## `jobs/handlers/systems.py` -/

structure Job where
  systemId : Uuid
  principal : String
  agentSession : Option String := none

namespace Handlers
def auditTransition (job : Job) (project : String) (systemId : Uuid) (transition : List Part)
    (tool : String) : Async Unit :=
  Audit.record { principal := job.principal, agentSession := job.agentSession, projects := [project] }
    { tool := tool, objectKind := "systems", objectId := systemId, transition := transition
      args := [("system_id", .id systemId)], project := project }

/-- `open_billing_interval`: the stamp is the start of the enclosing transaction. -/
def openBillingInterval (allocationId : Uuid) : Async Unit := do
  let _ ← Allocations.update allocationId (·.activeStartedAt.isNone) .activeStartedAt

def runtimeForSystem (cfg : Config) (systemId : Uuid) : Async Unit := do
  let kind ← select fun v _ =>
    (v.systems.get systemId).bind fun s =>
      (v.allocations.get s.allocationId).bind fun a =>
        (a.resourceId.bind v.resources.get).map (·.kind)
  match kind with
  | none => .raise (.configuration
      [.text "cannot resolve a provider runtime: no resource kind for ", .text "system"]
      [("system", .id systemId)])
  | some kind =>
    if kind ∈ cfg.registeredKinds then return ()
    else .raise (.configuration [.text "no provider runtime is registered for resource kind"])

def commitUploadedRootfs (system : System) : Async Unit := do
  match ← ofExcept (← ask rootfs) with
  | none => return ()
  | some false => .raise (.configuration [.text "upload-kind rootfs was never uploaded"]
      [("system_id", .id system.id)])
  | some true => do
    elsewhere
    elsewhere

def finalizeProvisionReady (job : Job) (system : System) : Async Unit := do
  commitUploadedRootfs system
  openBillingInterval system.allocationId
  auditTransition job system.project system.id [.text "provisioning->ready"] "systems.provision"

/-- `_record_system_failure`: best effort, every exception swallowed. -/
def recordSystemFailure (job : Job) (system : System) (transition tool : String) : Async Unit :=
  (transaction do
    updateState system.id .failed
    auditTransition job system.project system.id [.text transition] tool).catching
      fun _ => return ()

/-- `except CategorizedError`: the failure is recorded, and the exception goes on. Others just go on. -/
def failing (job : Job) (system : System) (transition tool : String) : Err → Async Unit
  | .categorized e => do
    recordSystemFailure job system transition tool
    .raise (.categorized e)
  | e => .raise e

def commitProvisionResult (job : Job) (system : System) (domainName : String) : Async (Option SystemState) :=
  transaction do
    advisoryXactLock (.system system.id)
    match ← getForUpdate system.id with
    | none => return none
    | some row =>
      if row.state = .provisioning then
        update system.id (.ready domainName)
        finalizeProvisionReady job system
        return some row.state
      else return some row.state

/-- After `provisioner.provision` has returned. -/
def afterProvision (job : Job) (system : System) (domainName : String) : Async Unit := do
  let current ← commitProvisionResult job system domainName
  if current.any (·.terminal) then
    ofExcept (← ask teardown)

/-- `provisioner.provision`, and what follows its return. -/
def callProvision (job : Job) (system : System) : Async Unit := do
  match ← ask provision with
  | .ok domainName => afterProvision job system domainName
  | .error e => failing job system "provisioning->failed" "systems.provision" e

/-- `provision_handler`. Parsing the stored profile, which can only raise, is left to the read before
    it, which can raise too. -/
def provisionHandler (cfg : Config) (job : Job) : Async Unit := do
  match ← get job.systemId with
  | none => .raise (.of [.text "provision target system is gone"] .infrastructureFailure
      [("system_id", .id job.systemId)])
  | some system =>
    runtimeForSystem cfg job.systemId
    if system.state ≠ .provisioning then
      if system.state.terminal then
        ofExcept (← ask teardown)
    else callProvision job system

/-- The transaction of `reprovision_handler`: the state the System was found in. -/
def commitReprovisionResult (job : Job) (system : System) (domainName : String) : Async (Option SystemState) :=
  transaction do
    advisoryXactLock (.system system.id)
    match ← getForUpdate system.id with
    | none => return none
    | some row =>
      if row.state = .reprovisioning then
        update system.id (.ready domainName)
        auditTransition job system.project system.id [.text "reprovisioning->ready"] "systems.reprovision"
        return some row.state
      else return some row.state

/-- `provisioner.reprovision`, and what follows its return. -/
def callReprovision (job : Job) (system : System) : Async Unit := do
  match ← ask reprovision with
  | .ok domainName =>
    let current ← commitReprovisionResult job system domainName
    if current.any (·.terminal) then
      ofExcept (← ask teardown)
  | .error e => failing job system "reprovisioning->failed" "systems.reprovision" e

def reprovisionHandler (cfg : Config) (job : Job) : Async Unit := do
  match ← get job.systemId with
  | none => .raise (.of [.text "reprovision target system is gone"] .infrastructureFailure
      [("system_id", .id job.systemId)])
  | some system =>
    runtimeForSystem cfg job.systemId
    if system.state = .reprovisioning then callReprovision job system

/-- `Worker._run_handler`: the handler on a connection of its own; then, on another, `queue.complete` or
    `queue.fail`. -/
def runHandler (handler : Async Unit) : Async Unit :=
  (connection handler).attempt fun
    | .ok _ => connection elsewhere
    | .error _ => connection elsewhere

def teardownHandler (cfg : Config) (job : Job) : Async Unit := do
  let found ← transaction do
    advisoryXactLock (.system job.systemId)
    match ← get job.systemId with
    | none => return false
    | some system =>
      if system.state = .tornDown then return true
      updateState system.id .tornDown
      auditTransition job system.project system.id [.text system.state.value, .text "->torn_down"] "systems.teardown"
      return true
  if found then
    runtimeForSystem cfg job.systemId
    ofExcept (← ask teardown)
end Handlers
end Kdive
