import Kdive.Services.Accounting
import Kdive.Services.Placement

/-! # Admission: `services/allocation/{idempotency,admission,request}.py`

The fail-closed gate a new allocation passes, and the grant or the queue entry behind it. The gate is
shared with promotion (`Services/Promotion`); it takes no lock itself.
-/

namespace Kdive
open Lib (Time Prog Stmt)
open Lib.Prog

/-- `within_budget`: `(limit_kcu - spent_kcu) >= estimate`, the difference in `Decimal`. -/
def withinBudget (project : String) (estimate : ℚ) : Async Bool := do
  match ← select fun v _ => v.budgets.get project with
  | none => return false
  | some row =>
    let remaining ← ofExcept (Dec.sub row.limitKcu row.spentKcu)
    return estimate ≤ remaining

def resolveReplay (principal key kind operationLabel : String) : Async (Option Allocation) := do
  let found ← select fun v _ =>
    (v.idempotencyKeys.get (principal, key)).filter (·.kind = kind)
  match found with
  | none => return none
  | some row =>
    match ← Allocations.get row.allocationId with
    | some allocation => return some allocation
    | none => .raise (.runtime
        [.text operationLabel, .text " idempotency key (", .text principal, .text ", ", .text key,
          .text ") references missing allocation ", .id row.allocationId])

def recordKeyStmt (k : IdempotencyKey) : Stmt store where
  keys _ _ := [.idempotencyKeyRow k.principal k.key]
  act v _ :=
    if (v.idempotencyKeys.get (k.principal, k.key)).isSome then .error .uniqueViolation
    else .ok [.insertIdempotencyKey k]

def recordKey (k : IdempotencyKey) : Async Unit :=
  (stmt (recordKeyStmt k) fun _ _ => ()).catching fun (e : Err) =>
    if e = .uniqueViolation then
      .raise (.configuration
        [.text "idempotency key (", .text k.principal, .text ", ", .text k.key, .text ") is already in use"]
        [("principal", .text k.principal)])
    else .raise e

def recordKeyIf (key : Option String) (principal project kind : String) (allocationId : Uuid) : Async Unit :=
  match key with
  | none => return ()
  | some key => recordKey ⟨key, principal, project, kind, allocationId⟩

/-- `safe_details`: what of an error's details a response may carry. -/
def safeDetails (details : List (String × Part)) : List (String × Part) :=
  details.filter fun d =>
    match d.2 with
    | .null | .list _ => false
    | _ => true

/-! ## The request and its outcome -/

inductive OnCapacity where
  | deny | queue
  deriving DecidableEq

structure AllocationRequest where
  ctx : RequestContext
  resource : Resource
  project : String
  selector : Selector
  window : Option (Option Number) := none
  idempotencyKey : Option String := none
  diskGb : Option Int := none
  shape : Option String := none
  pcieSpecs : List String := []
  onCapacity : OnCapacity := .deny
  requestedKind : Option ResourceKind := none
  requestedResourceId : Option Uuid := none

structure AdmissionOutcome where
  granted : Bool
  allocation : Option Allocation
  category : Option ErrorCategory := none
  reason : Option String := none
  cap : Option Int := none
  inUse : Option Nat := none
  queueable : Bool := false
  details : List (String × Part) := []

def AdmissionOutcome.denied (category : ErrorCategory) (queueable : Bool := false) : AdmissionOutcome :=
  { granted := false, allocation := none, category := some category, queueable := queueable }

def AdmissionOutcome.ofError (e : CategorizedError) : AdmissionOutcome :=
  { granted := false, allocation := none, category := some e.category, details := safeDetails e.details }

/-- `_REQUEST_KIND`. -/
def requestKind : String := "allocations.request"

/-! ## Pricing -/

def priceWindowAndEstimate (cfg : Config) (request : AllocationRequest) : Async (ℚ × ℚ) := do
  let windowHours ← ofExcept
    (configuredLeaseBounds cfg >>= resolveWindowHours request.window)
  ofExcept (validateSize request.selector)
  ofExcept (validateAgainstResource request.selector request.resource)
  let coeff ← Accounting.resolveCoeff request.resource.costClass
  let estimate ← ofExcept
    (rate coeff request.selector.vcpus request.selector.memoryGb >>= (cost · windowHours) >>= quantizeKcu)
  return (windowHours, estimate)

/-! ## The gate -/

structure GateResult where
  denial : Option AdmissionOutcome
  devices : List PCIeClaim

/-- Rows holding a slot of a host, and of a project's grant quota. -/
def countOccupying (v : Db) (resourceId : Uuid) : Nat :=
  v.allocations.rows.countP fun a => a.resourceId = some resourceId && a.state.occupying

def countOccupyingOf (v : Db) (project : String) : Nat :=
  v.allocations.rows.countP fun a => a.project = project && a.state.occupying

def countRequestedOf (v : Db) (project : String) : Nat :=
  v.allocations.rows.countP fun a => a.project = project && a.state == .requested

def concurrentAllocationCapKey : String := "concurrent_allocation_cap"

/-- `_resolve_cap`. The error's detail `cap`, Python's rendering of the bad value, is left out. -/
def resolveCap (resource : Resource) : Except Err Int :=
  match Json.get? resource.capabilities concurrentAllocationCapKey with
  | some (.int cap) => if cap < 0 then .error (invalid resource) else .ok cap
  | _ => .error (invalid resource)
where
  invalid (resource : Resource) : Err :=
    .configuration [.text "resource ", .id resource.id, .text " has no valid ",
      .quoted concurrentAllocationCapKey] [("resource_id", .id resource.id)]

/-- A project's row of `quotas`, then the count its cap bounds; no row is no room. -/
def withinQuota (cap : Quota → Int) (count : Db → String → Nat) (project : String) : Async Bool := do
  match ← select fun v _ => v.quotas.get project with
  | none => return false
  | some row =>
    let inUse ← select fun v _ => count v project
    return (inUse : Int) < cap row

def withinAllocQuota (project : String) : Async Bool :=
  withinQuota (·.maxConcurrentAllocations) countOccupyingOf project

def withinPendingQuota (project : String) : Async Bool :=
  withinQuota (·.maxPendingAllocations) countRequestedOf project

def hostCapCheck (resource : Resource) : Async (Option AdmissionOutcome) := do
  let cap ← ofExcept (resolveCap resource)
  let inUse ← select fun v _ => countOccupying v resource.id
  if cap ≤ (inUse : Int) then
    return some { AdmissionOutcome.denied .allocationDenied true with
      reason := some "at_capacity", cap := some cap, inUse := some inUse }
  else return none

def claimsFrom (devices : List PCIeDescriptor) : List PCIeClaim :=
  devices.map fun d => ⟨d.bdf, d.vendorId, d.deviceId⟩

def resolvePcieClaim (request : AllocationRequest) : Async GateResult :=
  if request.pcieSpecs = [] then return ⟨none, []⟩
  else do
    let claims ← activeClaims request.resource.id
    let resolution ← ofExcept
      (resolveUnion request.pcieSpecs (descriptorsFor request.resource) claims)
    match resolution.outcome with
    | .matched => return ⟨none, claimsFrom resolution.devices⟩
    | .config => return ⟨some (.denied .configurationError), []⟩
    | .capacity => return ⟨some (.denied .allocationDenied true), []⟩

/-- The checks, in the source's order: affinity, grant quota, budget, host cap, devices. Only a
    denial for want of room is queueable. -/
def admissionGate (request : AllocationRequest) (estimate : ℚ) : Async GateResult := do
  if !projectMayPlace request.resource request.project then
    return ⟨some (.denied .allocationDenied), []⟩
  if !(← withinAllocQuota request.project) then return ⟨some (.denied .quotaExceeded true), []⟩
  if !(← withinBudget request.project estimate) then
    return ⟨some (.denied .allocationDenied), []⟩
  match ← hostCapCheck request.resource with
  | some denial => return ⟨some denial, []⟩
  | none => resolvePcieClaim request

/-! ## Grant and enqueue -/

/-- `now + timedelta(seconds=int(window_hours * 3600))`. -/
def leaseExpiryAt (now : Time) (windowHours : ℚ) : Except Err Time := do
  datetimeAdd now (← windowDelta windowHours)

def grant (request : AllocationRequest) (windowHours estimate : ℚ) (devices : List PCIeClaim) :
    Async AdmissionOutcome := do
  let now ← ask Host.now
  let leaseExpiry ← ofExcept (leaseExpiryAt now windowHours)
  let id ← ask Host.uuid
  let allocation ← Allocations.insert
    { id := id
      createdAt := now
      updatedAt := now
      principal := request.ctx.principal
      agentSession := request.ctx.agentSession
      project := request.project
      resourceId := some request.resource.id
      state := .granted
      leaseExpiry := some leaseExpiry
      requestedVcpus := some request.selector.vcpus
      requestedMemoryGb := some request.selector.memoryGb
      requestedDiskGb := request.diskGb
      shape := request.shape
      pcieClaim := devices }
  Accounting.reserve allocation estimate
  recordKeyIf request.idempotencyKey request.ctx.principal request.project requestKind allocation.id
  Audit.record request.ctx
    { tool := "allocations.request", objectKind := "allocations", objectId := allocation.id
      transition := [.text "->granted"]
      args := [("resource_id", .id request.resource.id), ("project", .text request.project)]
      project := request.project }
  return { granted := true, allocation := some allocation }

/-- `_enqueue`: a row that holds a place in the queue and nothing else. -/
def enqueue (request : AllocationRequest) : Async AdmissionOutcome := do
  if !(← withinPendingQuota request.project) then return .denied .quotaExceeded
  let now ← ask Host.now
  let id ← ask Host.uuid
  let allocation ← Allocations.insert
    { id := id
      createdAt := now
      updatedAt := now
      principal := request.ctx.principal
      agentSession := request.ctx.agentSession
      project := request.project
      state := .requested
      requestedVcpus := some request.selector.vcpus
      requestedMemoryGb := some request.selector.memoryGb
      requestedDiskGb := request.diskGb
      shape := request.shape
      requestedPcieSpecs := request.pcieSpecs
      requestedKind := request.requestedKind
      requestedResourceId := request.requestedResourceId }
  recordKeyIf request.idempotencyKey request.ctx.principal request.project requestKind allocation.id
  Audit.record request.ctx
    { tool := "allocations.request", objectKind := "allocations", objectId := allocation.id
      transition := [.text "->requested"]
      args := [("project", .text request.project), ("on_capacity", .text "queue")]
      project := request.project }
  return { granted := true, allocation := some allocation }

def denyOrEnqueue (request : AllocationRequest) (denial : AdmissionOutcome) : Async AdmissionOutcome :=
  if request.onCapacity ≠ .queue || !denial.queueable then return denial else enqueue request

/-! ## `admit` -/

/-- `_admit_under_project_lock`, from the `RESOURCE` lock on. -/
def checkThenDebit (request : AllocationRequest) (windowHours estimate : ℚ) : Async AdmissionOutcome := do
  advisoryXactLock (.resource request.resource.id)
  let gate ← admissionGate request estimate
  match gate.denial with
  | some denial => denyOrEnqueue request denial
  | none => grant request windowHours estimate gate.devices

def admitUnderProjectLock (request : AllocationRequest) (windowHours estimate : ℚ) : Async AdmissionOutcome :=
  match request.idempotencyKey with
  | none => checkThenDebit request windowHours estimate
  | some key => do
    match ← resolveReplay request.ctx.principal key requestKind "request" with
    | none => checkThenDebit request windowHours estimate
    | some replay =>
      -- the key already names a grant of another project: the same key cannot mean two requests
      if replay.project ≠ request.project then return .denied .configurationError
      else return { granted := true, allocation := some replay }

/-- `admit`. -/
def admitRequest (cfg : Config) (request : AllocationRequest) : Async AdmissionOutcome :=
  tryCategorized (priceWindowAndEstimate cfg request) (fun e => return .ofError e) fun priced =>
    tryCategorized
      (transaction do
        advisoryXactLock (.project request.project)
        admitUnderProjectLock request priced.1 priced.2)
      (fun e => return .ofError e) pure

/-! ## `request_admission` -/

structure AdmissionRequestSpec where
  resourceId : Option Uuid
  kind : ResourceKind
  shape : Option String := none
  vcpus : Option Int := none
  memoryGb : Option Int := none
  diskGb : Option Int := none
  window : Option (Option Number) := none
  pcieDevices : List String := []
  onCapacity : OnCapacity := .deny

inductive RequestAdmissionResult where
  | error (e : CategorizedError)
  /-- No schedulable target. -/
  | category (c : ErrorCategory)
  | allocation (resource : Resource) (a : Allocation)
  | denial (resource : Resource) (outcome : AdmissionOutcome)

/-- `_compose_pcie_specs`. -/
def composePcieSpecs (spec : AdmissionRequestSpec) (sizing : ResolvedSizing) : Except Err (List String) := do
  let specs := spec.pcieDevices ++ sizing.pcieMatch.toList
  let _ ← specs.mapM parseMatchSpec
  return specs

def selectTarget (resourceId : Option Uuid) (kind : ResourceKind) (specs : List String)
    (project : String) : Async (Option Resource) := do
  let candidates ← Placement.resolveCandidates ⟨resourceId, some kind, specs, some project⟩
  return candidates.resources.head?.or candidates.capacityCandidate

def requestAdmission (cfg : Config) (ctx : RequestContext) (project : String)
    (spec : AdmissionRequestSpec) (idempotencyKey : Option String) :
    Async RequestAdmissionResult :=
  tryCategorized
    (do
      let sizing ← resolveRequestSizing spec.shape spec.vcpus spec.memoryGb spec.diskGb
      let specs ← ofExcept (composePcieSpecs spec sizing)
      return (sizing, specs))
    (fun e => return .error e)
    fun (sizing, specs) => do
      match ← selectTarget spec.resourceId spec.kind specs project with
      | none => return .category .configurationError
      | some resource =>
        let outcome ← admitRequest cfg
          { ctx := ctx
            resource := resource
            project := project
            selector := { vcpus := sizing.vcpus, memoryGb := sizing.memoryGb }
            window := spec.window
            idempotencyKey := idempotencyKey
            diskGb := some sizing.diskGb
            shape := sizing.shape
            pcieSpecs := specs
            onCapacity := spec.onCapacity
            requestedKind := if spec.resourceId.isSome then none else some spec.kind
            requestedResourceId := spec.resourceId }
        match outcome.granted, outcome.allocation with
        | true, some a => return .allocation resource a
        | _, _ => return .denial resource outcome
end Kdive
