import Kdive.Services.Admission

/-! # The queue: `services/allocation/promotion.py`

`promotePending` goes through the queued allocations oldest first and replays the admission gate for
each on its candidate hosts; `reapQueueTimeouts` fails those that waited too long. Both begin with a
bare query, so on a pool connection the blocks they open afterwards are savepoints of the transaction
that query opened, and everything they hold they hold until the connection is returned.
-/

namespace Kdive
open Lib (Time Prog Stmt)
open Lib.Prog Allocations

namespace Promotion
/-- `SYSTEM_PROMOTION_PRINCIPAL`. -/
def systemPrincipal : String := "system:reconciler"

/-! ## The request of a queued row -/

def selectorFromSnapshot (alloc : Allocation) (resource : Resource) : Except Err Selector :=
  match alloc.requestedVcpus, alloc.requestedMemoryGb with
  | some vcpus, some memoryGb => .ok ⟨vcpus, memoryGb, resource.costClass⟩
  | vcpus, memoryGb => .error (.configuration
      [.text "queued allocation is missing requested sizing snapshot"]
      [("allocation_id", .id alloc.id),
        ("missing", .list ((if vcpus.isNone then ["requested_vcpus"] else []) ++
          if memoryGb.isNone then ["requested_memory_gb"] else []))])

/-- `_request_from_queued`. No window is stored with a queued row: promotion uses the default. -/
def requestFromQueued (alloc : Allocation) (resource : Resource) : Except Err AllocationRequest := do
  let selector ← selectorFromSnapshot alloc resource
  return {
    ctx := { principal := alloc.principal, agentSession := alloc.agentSession
             projects := [alloc.project] }
    resource := resource
    project := alloc.project
    selector := selector
    window := none
    diskGb := alloc.requestedDiskGb
    shape := alloc.shape
    pcieSpecs := alloc.requestedPcieSpecs
    requestedKind := alloc.requestedKind
    requestedResourceId := alloc.requestedResourceId }

/-- `_candidate_hosts`: a malformed spec leaves no candidate, after the query for the log line. -/
def candidateHosts (alloc : Allocation) : Async (List Resource) :=
  match alloc.requestedPcieSpecs.mapM parseMatchSpec with
  | .error _ => do
    let _ ← Placement.resolveCandidates
      ⟨alloc.requestedResourceId, alloc.requestedKind, [], some alloc.project⟩
    return []
  | .ok _ => do
    let candidates ← Placement.resolveCandidates
      ⟨alloc.requestedResourceId, alloc.requestedKind, alloc.requestedPcieSpecs, some alloc.project⟩
    return candidates.resources

/-! ## One candidate -/

def grantQueued (alloc : Allocation) (resource : Resource) (windowHours estimate : ℚ)
    (devices : List PCIeClaim) : Async Bool := do
  let now ← ask Host.now
  let leaseExpiry ← ofExcept (leaseExpiryAt now windowHours)
  ofExcept (alloc.state.ensureTransition .granted)
  let updated ← update alloc.id (·.state == .requested)
    fun _ => .place resource.id leaseExpiry devices
  if updated ≠ 1 then return false
  let granted := { alloc with
    resourceId := some resource.id, state := .granted, leaseExpiry := some leaseExpiry,
    pcieClaim := devices }
  Accounting.reserve granted estimate
  Audit.recordSystem alloc.principal
    { tool := "allocations.request", objectKind := "allocations", objectId := alloc.id
      transition := [.text "requested->granted"]
      args := [("resource_id", .id resource.id), ("project", .text alloc.project)]
      project := alloc.project }
    alloc.agentSession
  return true

def terminate (alloc : Allocation) (resource : Resource) (reason : String) : Async Unit := do
  updateState alloc.id .failed
  Audit.recordSystem systemPrincipal
    { tool := "allocations.request", objectKind := "allocations", objectId := alloc.id
      transition := [.text "requested->failed"]
      args := [("reason", .text reason), ("project", .text alloc.project), ("resource_id", .id resource.id)]
      project := alloc.project }
    alloc.agentSession

/-- `_is_budget_terminate`: it goes by `queueable`, since the host-cap denial shares the category. -/
def isBudgetTerminate (denial : AdmissionOutcome) : Bool :=
  denial.category == some .allocationDenied && !denial.queueable

/-- What became of an attempt on one host: the source's pair `(terminated, granted)`. -/
inductive Attempt where
  | waits | terminated | granted
  deriving DecidableEq

/-- `_try_one_host`. The grant that finds the row gone reports `(False, False)`. -/
def tryOneHost (cfg : Config) (alloc : Allocation) (resource : Resource) : Async Attempt := do
  let request ← ofExcept (requestFromQueued alloc resource)
  let (windowHours, estimate) ← priceWindowAndEstimate cfg request
  advisoryXactLock (.resource resource.id)
  advisoryXactLock (.allocation alloc.id)
  let gate ← admissionGate request estimate
  match gate.denial with
  | none =>
    if ← grantQueued alloc resource windowHours estimate gate.devices then return .granted
    else return .waits
  | some denial =>
    if isBudgetTerminate denial then
      terminate alloc resource "budget_exceeded"
      return .terminated
    else return .waits

/-- The loop of `_place_or_terminate`. -/
def tryHosts (cfg : Config) (alloc : Allocation) : List Resource → Async Bool
  | [] => return false
  | resource :: rest => do
    match ← tryOneHost cfg alloc resource with
    | .granted => return true
    | .terminated => return false
    | .waits => tryHosts cfg alloc rest

def placeOrTerminate (cfg : Config) (alloc : Allocation) : Async Bool := do
  tryHosts cfg alloc (← candidateHosts alloc)

def promoteOne (cfg : Config) (allocId : Uuid) : Async Bool := do
  let found ← select fun v _ => (v.allocations.get allocId).map (·.project)
  match found with
  | none => return false
  | some project =>
    transaction do
      advisoryXactLock (.project project)
      match ← get allocId with
      | none => return false
      | some alloc =>
        if alloc.state ≠ .requested then return false else placeOrTerminate cfg alloc

/-! ## The pass -/

def queued (v : Db) : List Allocation :=
  orderByAge (·.createdAt) (·.id) (v.allocations.rows.filter (·.state == .requested))

/-- One turn of the loop: a candidate that raises is skipped. -/
def promoteEach (cfg : Config) (promoted : Nat) (allocId : Uuid) : Async Nat :=
  (promoteOne cfg allocId).attempt fun
    | .ok true => return promoted + 1
    | _ => return promoted

def promotePending (cfg : Config) : Async Nat := do
  let candidateIds ← selectFor
    (fun v _ => (queued v).map fun a => .candidate a.id) fun v _ => (queued v).map (·.id)
  foldEach (promoteEach cfg) 0 candidateIds

/-! ## Timeouts -/

/-- `state = 'requested' AND created_at < now() - max_wait`. -/
def agedRequested (maxWait : Int) (now : Time) (a : Allocation) : Bool :=
  a.state == .requested && a.createdAt < now - maxWait

/-- `_reap_one`, with `_still_aged_requested` as its first query. -/
def reapOne (maxWait : Int) (allocId : Uuid) (project : String) : Async Bool :=
  transaction do
    advisoryXactLock (.project project)
    advisoryXactLock (.allocation allocId)
    let aged ← select fun v now =>
      (v.allocations.get allocId).any (agedRequested maxWait now)
    if !aged then return false
    match ← get allocId with
    | none => return false
    | some alloc =>
      updateState allocId .failed
      Audit.recordSystem systemPrincipal
        { tool := "reconciler.reap_queue_timeout", objectKind := "allocations", objectId := allocId
          transition := [.text "requested->failed"]
          args := [("reason", .text "queue_timeout"), ("project", .text project)]
          project := project }
        alloc.agentSession
      return true

def reapEach (maxWait : Int) (reaped : Nat) (candidate : Uuid × String) : Async Nat :=
  (reapOne maxWait candidate.1 candidate.2).attempt fun
    | .ok true => return reaped + 1
    | _ => return reaped

/-- The rows of the scan, which has no `ORDER BY`; the table's order stands for whatever it is. -/
def aged (maxWait : Int) (v : Db) (now : Time) : List Allocation :=
  v.allocations.rows.filter (agedRequested maxWait now)

def reapQueueTimeouts (maxWait : Int) : Async Nat := do
  let candidates ← selectFor
    (fun v now => (aged maxWait v now).map fun a => .aged a.id)
    fun v now => (aged maxWait v now).map fun a => (a.id, a.project)
  foldEach (reapEach maxWait) 0 candidates
end Promotion
end Kdive
