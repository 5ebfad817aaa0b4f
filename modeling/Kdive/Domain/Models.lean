import Kdive.Domain.State
import Kdive.Lib.Table

/-! # Rows: `domain/models.py`

One record per table, with the columns that a modelled function reads or writes; none of them reads the columns left
out.
-/

namespace Kdive
open Lib (Time Keyed)

/-- A JSON value, as a `jsonb` column holds it. -/
inductive Json where
  | null
  | bool (b : Bool)
  | int (n : Int)
  | num (q : ℚ)
  | str (s : String)
  | arr (l : List Json)
  | obj (fields : List (String × Json))

/-- `d.get(key)` on the fields of an object. -/
def Json.get? (fields : List (String × Json)) (key : String) : Option Json :=
  (fields.find? (·.1 = key)).map (·.2)

inductive ResourceKind where
  | localLibvirt | faultInject | remoteLibvirt
  deriving DecidableEq

structure Resource where
  id : Uuid
  createdAt : Time
  kind : ResourceKind
  capabilities : List (String × Json)
  costClass : String
  status : ResourceStatus
  cordoned : Bool := false
  ownerProject : Option String := none
  affinityAllowlist : List String := []

structure PCIeClaim where
  bdf : String
  vendorId : String
  deviceId : String
  deriving DecidableEq

structure Allocation where
  id : Uuid
  createdAt : Time
  updatedAt : Time
  principal : String
  agentSession : Option String := none
  project : String
  resourceId : Option Uuid := none
  state : AllocationState
  leaseExpiry : Option Time := none
  requestedVcpus : Option Int := none
  requestedMemoryGb : Option Int := none
  requestedDiskGb : Option Int := none
  shape : Option String := none
  activeStartedAt : Option Time := none
  activeEndedAt : Option Time := none
  pcieClaim : List PCIeClaim := []
  requestedPcieSpecs : List String := []
  requestedKind : Option ResourceKind := none
  requestedResourceId : Option Uuid := none
  deriving DecidableEq

/-- `provisioning_profile` is a document only the provider reads; its text stands for it. -/
structure System where
  id : Uuid
  createdAt : Time
  principal : String
  agentSession : Option String := none
  project : String
  allocationId : Uuid
  state : SystemState
  provisioningProfile : String
  domainName : Option String := none
  shape : Option String := none
  deriving DecidableEq

structure Budget where
  project : String
  limitKcu : ℚ
  spentKcu : ℚ := 0
  deriving DecidableEq

structure Quota where
  project : String
  maxConcurrentAllocations : Int
  maxConcurrentSystems : Int
  maxPendingAllocations : Int := 0

structure CostClassCoefficient where
  costClass : String
  coeff : ℚ

structure SystemShape where
  name : String
  vcpus : Int
  memoryMb : Int
  diskGb : Int
  pcieMatch : Option String := none

inductive LedgerEventType where
  | reserved | reconciled
  deriving DecidableEq

structure LedgerEntry where
  id : Uuid
  ts : Time
  project : String
  allocationId : Uuid
  resourceId : Option Uuid
  costClass : String
  eventType : LedgerEventType
  kcuDelta : ℚ
  deriving DecidableEq

/-- A row of `idempotency_keys`; its `result` is the allocation's id. -/
structure IdempotencyKey where
  key : String
  principal : String
  project : String
  kind : String
  allocationId : Uuid
  deriving DecidableEq

/-- `DebugTransportKind`. -/
inductive DebugTransport where
  | gdbstub | drgnLive
  deriving DecidableEq

structure DebugSession where
  id : Uuid
  project : String
  runId : Uuid
  state : DebugSessionState
  transport : DebugTransport
  transportHandle : Option String := none
  workerHeartbeatAt : Option Time := none
  deriving DecidableEq

namespace DebugSession
variable (session : DebugSession)

/-- `state IN ('attach', 'live')`. -/
def occupies : Bool := session.state = .attach || session.state = .live

/-- `state = 'live' AND worker_heartbeat_at IS NOT NULL
    AND worker_heartbeat_at < now() - stale_after`. -/
def dead (staleAfter now : Time) : Bool :=
  session.state = .live && session.workerHeartbeatAt.any (· < now - staleAfter)
end DebugSession

/-- A row of `audit_log`. The table stores a digest of the arguments; the row here keeps them. -/
structure AuditRow where
  principal : String
  agentSession : Option String
  project : String
  tool : String
  objectKind : String
  objectId : Uuid
  transition : List Part
  args : List (String × Part)
  deriving DecidableEq

structure PlatformAuditRow where
  principal : String
  agentSession : Option String
  platformRole : Option String
  tool : String
  scope : List Part
  args : List (String × Part)
  actor : String
  deriving DecidableEq

instance : Keyed Resource Uuid := ⟨Resource.id⟩
instance : Keyed Allocation Uuid := ⟨Allocation.id⟩
instance : Keyed System Uuid := ⟨System.id⟩
instance : Keyed Budget String := ⟨Budget.project⟩
instance : Keyed Quota String := ⟨Quota.project⟩
instance : Keyed CostClassCoefficient String := ⟨CostClassCoefficient.costClass⟩
instance : Keyed SystemShape String := ⟨SystemShape.name⟩
instance : Keyed DebugSession Uuid := ⟨DebugSession.id⟩
instance : Keyed IdempotencyKey (String × String) := ⟨fun k => (k.principal, k.key)⟩

/-- The caller a request runs for: `security/authz/context.py`. Project roles are left out: they are
    checked before any of the modelled functions runs. -/
structure RequestContext where
  principal : String
  agentSession : Option String := none
  projects : List String
  /-- What `held_platform_roles` and `actor_for` give, for the platform audit. -/
  platformRoles : Option String := none
  actor : String := "unknown"
end Kdive
