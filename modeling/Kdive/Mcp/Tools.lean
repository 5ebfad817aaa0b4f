import Kdive.Services.Promotion
import Kdive.Services.Systems

/-! # Entry points: the MCP tools, the reconciler's repairs and the worker's jobs

Every entry point takes its connections from the pool. The response a tool renders from an outcome is not modelled.
-/

namespace Kdive
open Lib (Time Prog Stmt)
open Lib.Prog

namespace Tools
def requestAllocation (cfg : Config) (ctx : RequestContext) (project : String)
    (spec : AdmissionRequestSpec) (idempotencyKey : Option String) : Async Unit := do
  let _ ← connection (requestAdmission cfg ctx project spec idempotencyKey)

def releaseAllocation (ctx : RequestContext) (uid : Uuid) : Async Unit := do
  match ← connection (Allocations.get uid) with
  | none => return ()
  | some alloc =>
    if alloc.project ∈ ctx.projects then
      let _ ← Release.releaseWithBackstops (Audit.record ctx) uid alloc.project

def renewAllocation (cfg : Config) (ctx : RequestContext) (uid : Uuid) (extend : Option Number)
    (idempotencyKey : Option String) : Async Unit :=
  connection do
    match ← Allocations.get uid with
    | none => return ()
    | some alloc =>
      if alloc.project ∈ ctx.projects then
        let _ ← Renew.renew cfg ctx uid extend idempotencyKey

/-! ## `mcp/tools/accounting/admin.py` -/

/-- `_parse_non_negative_kcu`; the argument is what `Decimal(str(value))` gives. -/
def parseNonNegativeKcu (value : Option Number) : Except Err ℚ :=
  match value with
  | some (.fin q) =>
    if 0 ≤ q then .ok q
    else .error (.configuration [.text "limit_kcu ", .dec q, .text " must be a finite number >= 0"]
      [("field", .text "limit_kcu"), ("value", .dec q)])
  | some _ => .error (.configuration [.text "limit_kcu must be a finite number >= 0"]
      [("field", .text "limit_kcu")])
  | none => .error (.configuration [.text "limit_kcu is not a number"]
      [("field", .text "limit_kcu")])

def setBudget (ctx : RequestContext) (project : String) (limitKcu : Option Number) : Async Unit :=
  match parseNonNegativeKcu limitKcu with
  | .error _ => return ()
  | .ok limit =>
    connection <| transaction do
      Budgets.upsert { project := project, limitKcu := limit, spentKcu := 0 }
      Audit.record ctx
        { tool := "accounting.set_budget", objectKind := "budgets", objectId := 0
          transition := [.text "set_budget:applied"]
          args := [("project", .text project), ("limit_kcu", .dec limit)]
          project := project }

/-! ## `mcp/tools/ops/breakglass.py` -/

def recordBreakglass (ctx : RequestContext) (tool : String) (alloc : Allocation) (reason : String) : Async Unit :=
  connection <| transaction <| Audit.recordPlatform
    { principal := ctx.principal, agentSession := ctx.agentSession
      platformRole := ctx.platformRoles, tool := tool
      scope := [.text alloc.project, .text ":", .id alloc.id]
      args := [("object_id", .id alloc.id), ("reason", .text reason)], actor := ctx.actor }

/-- `breakglass_release_allocation`: the accountability row is committed first. -/
def breakglassReleaseAllocation (ctx : RequestContext) (alloc : Allocation) (tool reason : String) :
    Async ReleaseOutcome := do
  recordBreakglass ctx tool alloc reason
  Release.releaseWithBackstops (Audit.recordSystem ctx.principal) alloc.id alloc.project

def forceRelease (ctx : RequestContext) (uid : Uuid) (reason : String) : Async Unit := do
  match ← connection (Allocations.get uid) with
  | none => return ()
  | some alloc =>
    let _ ← breakglassReleaseAllocation ctx alloc "ops.force_release" reason

/-! ## `mcp/tools/ops/resources/host_ops.py` -/

def cordonStmt (uid : Uuid) (cordoned : Bool) : Stmt store where
  keys v _ := if (v.resources.get uid).isSome then [.resourceRow uid] else []
  act v _ := .ok (if (v.resources.get uid).isSome then [.setCordoned uid cordoned] else [])

/-- `_apply_cordon`: whether there was such a host. -/
def applyCordon (uid : Uuid) (cordoned : Bool) : Async Bool :=
  stmt (cordonStmt uid cordoned) fun v _ => (v.resources.get uid).isSome

def auditHostAction (ctx : RequestContext) (tool : String) (uid : Uuid) (detail : String) : Async Unit :=
  transaction <| Audit.recordPlatform
    { principal := ctx.principal, agentSession := ctx.agentSession
      platformRole := ctx.platformRoles, tool := tool
      scope := [.text "resource:", .id uid, .text ":", .text detail]
      args := [("resource_id", .id uid)], actor := ctx.actor }

/-- The cordon and its audit row on one connection: whether there was such a host. -/
def cordonAndAudit (ctx : RequestContext) (uid : Uuid) (cordoned : Bool) (tool detail : String) : Async Bool :=
  connection do
    if ← applyCordon uid cordoned then
      auditHostAction ctx tool uid detail
      return true
    else return false

def cordonResource (ctx : RequestContext) (uid : Uuid) : Async Unit := do
  let _ ← cordonAndAudit ctx uid true "resources.cordon" "cordoned=True"

def uncordonResource (ctx : RequestContext) (uid : Uuid) : Async Unit := do
  let _ ← cordonAndAudit ctx uid false "resources.uncordon" "cordoned=False"

def liveAllocations (uid : Uuid) : Async (List Allocation) :=
  select fun v _ =>
    orderByAge (·.createdAt) (·.id) (v.allocations.rows.filter fun a => a.resourceId = some uid && a.state.occupying)

/-- `drain_resource`; without a reason it only cordons and reports. -/
def drainResource (ctx : RequestContext) (uid : Uuid) (forceReason : Option String) : Async Unit := do
  if ← cordonAndAudit ctx uid true "resources.drain" "cordoned=true" then
    let live ← connection (liveAllocations uid)
    match forceReason with
    | none => return ()
    | some reason =>
      foldEach
        (fun _ alloc => do
          let _ ← breakglassReleaseAllocation ctx alloc "resources.drain" reason)
        () live
end Tools

/-! ## Clients -/

inductive Client where
  | request (ctx : RequestContext) (project : String) (spec : AdmissionRequestSpec)
      (idempotencyKey : Option String)
  | renew (ctx : RequestContext) (id : Uuid) (extend : Option Number)
      (idempotencyKey : Option String)
  | release (ctx : RequestContext) (id : Uuid)
  | forceRelease (ctx : RequestContext) (id : Uuid) (reason : String)
  | setBudget (ctx : RequestContext) (project : String) (limitKcu : Option Number)
  | createSystem (ctx : RequestContext) (id : Uuid) (mode : SystemAdmission.CreateMode)
  | cordon (ctx : RequestContext) (id : Uuid)
  | uncordon (ctx : RequestContext) (id : Uuid)
  | drain (ctx : RequestContext) (id : Uuid) (forceReason : Option String)
  | promotePending
  | reapQueueTimeouts (maxWait : Int)
  | sweepExpired
  | reapOrphanedActive (grace : Int)
  | provision (job : Job)
  | teardown (job : Job)

def repair (p : Async Nat) : Async Unit := do
  let _ ← connection p

def Client.prog (cfg : Config) : Client → Async Unit
  | request ctx project spec key => Tools.requestAllocation cfg ctx project spec key
  | renew ctx id extend key => Tools.renewAllocation cfg ctx id extend key
  | release ctx id => Tools.releaseAllocation ctx id
  | forceRelease ctx id reason => Tools.forceRelease ctx id reason
  | setBudget ctx project limit => Tools.setBudget ctx project limit
  | createSystem ctx id mode => do let _ ← SystemAdmission.createForAllocation ctx id mode
  | cordon ctx id => Tools.cordonResource ctx id
  | uncordon ctx id => Tools.uncordonResource ctx id
  | drain ctx id forceReason => Tools.drainResource ctx id forceReason
  | promotePending => repair (Promotion.promotePending cfg)
  | reapQueueTimeouts maxWait => repair (Promotion.reapQueueTimeouts maxWait)
  | sweepExpired => repair Reconciler.sweepExpiredAllocations
  | reapOrphanedActive grace => repair (Reconciler.reapOrphanedActiveAllocations grace)
  | provision job => connection (Handlers.provisionHandler cfg job)
  | teardown job => connection (Handlers.teardownHandler cfg job)
end Kdive
