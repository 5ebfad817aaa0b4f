import Kdive.Services.Admission

/-! # Release, expiry and renewal

`services/allocation/release.py`, the lease repairs of `reconciler/allocations.py`, and
`services/allocation/renew.py`. Release and expiry open transactions of their own, one for each
allocation; renewal runs in the transaction the tool's first read has opened.
-/

namespace Kdive
open Lib (Time Prog Stmt)
open Lib.Prog Allocations Accounting

abbrev AuditWriter := AuditEvent → Async Unit

structure ReleaseOutcome where
  released : Bool
  category : Option ErrorCategory := none
  currentStatus : Option AllocationState := none
  details : List (String × Part) := []

namespace Release
def releasable (s : AllocationState) : Bool := s == .granted || s == .active

def transitionAndAudit (write : AuditWriter) (allocId : Uuid) (frm new : AllocationState)
    (project : String) : Async Unit := do
  updateState allocId new
  write
    { tool := "allocations.release", objectKind := "allocations", objectId := allocId
      transition := [.text frm.value, .text "->", .text new.value]
      args := [("allocation_id", .id allocId)]
      project := project }

/-- The first half of a release: to `releasing`, with the billing interval closed. -/
def beginRelease (write : AuditWriter) (current : Allocation) (project : String) : Async Allocation := do
  transitionAndAudit write current.id current.state .releasing project
  let now ← ask Host.now
  stampActiveEnded current now

/-- The second half: to `released`, with the settlement. -/
def endRelease (write : AuditWriter) (current : Allocation) (project : String) : Async ReleaseOutcome := do
  transitionAndAudit write current.id .releasing .released project
  let _ ← reconcile current
  return { released := true }

def stale (s : AllocationState) : ReleaseOutcome :=
  { released := false, category := some .staleHandle, currentStatus := some s }

def unreleasable (s : Option AllocationState) : ReleaseOutcome :=
  { released := false, category := some .configurationError, currentStatus := s }

/-- Both locks, then the row as it is under them. -/
def underLocks (uid : Uuid) (project : String) (body : Allocation → Async ReleaseOutcome) : Async ReleaseOutcome :=
  transaction do
    advisoryXactLock (.project project)
    advisoryXactLock (.allocation uid)
    match ← get uid with
    | none => return unreleasable none
    | some current => body current

def reclaimUnderLock (write : AuditWriter) (uid : Uuid) (project : String)
    (precondition : Async Bool) : Async ReleaseOutcome :=
  underLocks uid project fun current => do
    if current.state.terminal then return stale current.state
    if !releasable current.state then return unreleasable (some current.state)
    if !(← precondition) then
      return { released := false, currentStatus := some current.state }
    endRelease write (← beginRelease write current project) project

/-- `_release_locked`. A queued row goes straight to `released`: it was never charged. -/
def releaseLocked (write : AuditWriter) (uid : Uuid) (project : String) : Async ReleaseOutcome :=
  underLocks uid project fun current => do
    if current.state.terminal then return stale current.state
    match current.state with
    | .requested =>
      transitionAndAudit write uid .requested .released project
      return { released := true }
    | .releasing => endRelease write current project
    | _ => endRelease write (← beginRelease write current project) project

def releaseWithBackstops (write : AuditWriter) (uid : Uuid) (project : String) : Async ReleaseOutcome :=
  connection <| (releaseLocked write uid project).attempt fun
    | .ok outcome => return outcome
    | .error (.illegalTransition ..) => do
      let latest ← connection (get uid)
      return unreleasable (latest.map (·.state))
    | .error (.categorized e) =>
      return { released := false, category := some e.category, details := safeDetails e.details }
    | .error e => .raise e
end Release

/-! ## `reconciler/allocations.py` -/

namespace Reconciler
/-- `SYSTEM_RECONCILER_PRINCIPAL`. -/
def systemPrincipal : String := "system:reconciler"

def leaseElapsed (now : Time) (a : Allocation) : Bool := a.leaseExpiry.any (· < now)

def expireOne (allocationId : Uuid) (project : String) : Async Bool :=
  transaction do
    advisoryXactLock (.project project)
    advisoryXactLock (.allocation allocationId)
    match ← get allocationId with
    | none => return false
    | some alloc =>
      if alloc.state.terminal then return false
      let elapsed ← select fun v now =>
        (v.allocations.get allocationId).any (leaseElapsed now)
      if !elapsed then return false
      let now ← ask Host.now
      let alloc ← stampActiveEnded alloc now
      updateState allocationId .expired
      Audit.recordSystem systemPrincipal
        { tool := "reconciler.sweep_expired", objectKind := "allocations"
          objectId := allocationId
          transition := [.text alloc.state.value, .text "->", .text "expired"]
          args := [("allocation_id", .id allocationId)]
          project := project }
      let _ ← reconcile alloc
      return true

def each (f : Uuid → String → Async Bool) (count : Nat) (candidate : Uuid × String) : Async Nat :=
  (f candidate.1 candidate.2).attempt fun
    | .ok true => return count + 1
    | _ => return count

def sweepExpiredAllocations : Async Nat := do
  let candidates ← transaction (select fun v now =>
    (v.allocations.rows.filter fun a => !a.state.terminal && leaseElapsed now a).map
      fun a => (a.id, a.project))
  foldEach (each expireOne) 0 candidates

def hasLiveSystem (v : Db) (allocationId : Uuid) : Bool :=
  v.systems.rows.any fun s => s.allocationId = allocationId && !s.state.terminal

def reclaimOrphanedActive (allocationId : Uuid) (project : String) : Async Bool := do
  let outcome ← Release.reclaimUnderLock (Audit.recordSystem systemPrincipal) allocationId project
    (select fun v _ => !hasLiveSystem v allocationId)
  return outcome.released

def reapOrphanedActiveAllocations (grace : Int) : Async Nat := do
  let candidates ← transaction (select fun v now =>
    (v.allocations.rows.filter fun a =>
      a.state == .active && a.updatedAt < now - grace && !hasLiveSystem v a.id).map
        fun a => (a.id, a.project))
  foldEach (each reclaimOrphanedActive) 0 candidates
end Reconciler

/-! ## `renew.py` -/

/-- `_RENEW_KIND`. -/
def renewKind : String := "allocations.renew"

structure RenewOutcome where
  renewed : Bool
  allocation : Option Allocation
  category : Option ErrorCategory := none
  currentStatus : Option AllocationState := none
  details : List (String × Part) := []

namespace Renew
def denied (category : ErrorCategory) (status : Option AllocationState := none) : RenewOutcome :=
  { renewed := false, allocation := none, category := some category, currentStatus := status }

def ofError (e : CategorizedError) : RenewOutcome :=
  { renewed := false, allocation := none, category := some e.category, details := safeDetails e.details }

def extensionEstimate (alloc : Allocation) (addedHours : ℚ) : Async ℚ :=
  match alloc.requestedVcpus, alloc.requestedMemoryGb with
  | some vcpus, some memoryGb => do
    let coeff ← resolveCoeff (← costClass alloc)
    ofExcept (rate coeff vcpus memoryGb >>= (cost · addedHours) >>= quantizeKcu)
  | _, _ => .raise (.configuration
      [.text "allocation ", .id alloc.id, .text " has no persisted size to renew"]
      [("allocation_id", .id alloc.id)])

def applyRenew (ctx : RequestContext) (alloc : Allocation) (extension : LeaseExtension)
    (estimate : ℚ) (idempotencyKey : Option String) : Async RenewOutcome := do
  let _ ← update alloc.id (fun _ => true) fun _ => .leaseExpiry extension.newExpiry
  let extended := { alloc with leaseExpiry := some extension.newExpiry }
  reserve extended estimate
  recordKeyIf idempotencyKey ctx.principal alloc.project renewKind alloc.id
  Audit.record ctx
    { tool := "allocations.renew", objectKind := "allocations", objectId := alloc.id
      transition := [.text "renew:+", .dec extension.addedHours, .text "h"]
      args := [("allocation_id", .id alloc.id)]
      project := alloc.project }
  return { renewed := true, allocation := some extended }

/-- `_renew_under_project_lock`, after the replay check. -/
def extendLease (cfg : Config) (ctx : RequestContext) (allocationId : Uuid) (extendHours : ℚ)
    (idempotencyKey : Option String) : Async RenewOutcome := do
  match ← get allocationId with
  | none => return denied .configurationError
  | some alloc =>
    if alloc.state.terminal then return denied .staleHandle (some alloc.state)
    match alloc.leaseExpiry with
    | none => return denied .configurationError
    | some expiry =>
      let now ← ask Host.now
      let extension ← ofExcept
        (configuredLeaseBounds cfg >>= clampExtensionHours expiry extendHours now)
      if extension.addedHours ≤ 0 then return denied .configurationError
      let estimate ← extensionEstimate alloc extension.addedHours
      if !(← withinBudget alloc.project estimate) then return denied .allocationDenied
      applyRenew ctx alloc extension estimate idempotencyKey

def renewUnderProjectLock (cfg : Config) (ctx : RequestContext) (allocationId : Uuid)
    (extendHours : ℚ) (idempotencyKey : Option String) : Async RenewOutcome :=
  match idempotencyKey with
  | none => extendLease cfg ctx allocationId extendHours none
  | some key => do
    match ← resolveReplay ctx.principal key renewKind "renew" with
    | none => extendLease cfg ctx allocationId extendHours (some key)
    | some replay =>
      if replay.id ≠ allocationId then return denied .configurationError
      else return { renewed := true, allocation := some replay }

def renew (cfg : Config) (ctx : RequestContext) (allocationId : Uuid) (extend : Option Number)
    (idempotencyKey : Option String) : Async RenewOutcome :=
  tryCategorized (ofExcept (parseWindowHours extend >>= validateWindow))
    (fun e => return ofError e) fun extendHours => do
      match ← get allocationId with
      | none => return denied .configurationError
      | some alloc =>
        tryCategorized
          (transaction do
            advisoryXactLock (.project alloc.project)
            renewUnderProjectLock cfg ctx allocationId extendHours idempotencyKey)
          (fun e => return ofError e) pure
end Renew
end Kdive
