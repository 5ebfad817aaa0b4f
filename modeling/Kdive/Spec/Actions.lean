import Kdive.Services.Admission
import Kdive.Spec.Effects

/-! # What a commit does, as one step

What the services commit is always one of a small number of changes of the whole database, or in the case of the
queue's two repairs a sequence of them. When each is legitimate is said here; `Proof/` shows that, whatever the
interleaving, each commit is such a change.
-/

namespace Kdive
open Lib (Time Prog)

def Part.asText : Part → Option String
  | .text s => some s
  | _ => none

def AuditRow.text (r : AuditRow) : Option String := (r.transition.mapM Part.asText).map String.join

/-- The row records that the object went from one state to another; from none, that it was created. -/
def AuditRow.Records (r : AuditRow) (kind : String) (id : Uuid) (old new : String) : Prop :=
  r.objectKind = kind ∧ r.objectId = id ∧ r.text = some (old ++ "->" ++ new)

/-- An audit row that records the transition. -/
abbrev RecordOf (kind : String) (id : Uuid) (old new : String) :=
  { r : AuditRow // r.Records kind id old new }

/-- An audit row of a teardown, with the state it says the System was in. -/
structure TearDownRecord (system : Uuid) where
  old : SystemState
  row : RecordOf "systems" system old.value "torn_down"

/-! ## Actions -/

/-- A ledger posting, but for what the allocation determines. -/
structure Posting where
  id : Uuid
  ts : Time
  costClass : String
  delta : ℚ

namespace Posting
def entry (x : Posting) (eventType : LedgerEventType) (a : Allocation) : LedgerEntry where
  id := x.id
  ts := x.ts
  project := a.project
  allocationId := a.id
  resourceId := a.resourceId
  costClass := x.costClass
  eventType := eventType
  kcuDelta := x.delta

/-- The ledger row and the running total of the project's budget move together. -/
@[simp]
def writes (x : Posting) (eventType : LedgerEventType) (a : Allocation) : List Write :=
  [.insertLedger (x.entry eventType a), .addSpent a.project x.delta]
end Posting

/-- The two ways an allocation in use ends, with the audit rows they leave. -/
inductive Closing (row : Allocation) where
  | release (begun : RecordOf "allocations" row.id row.state.value "releasing")
      (ended : RecordOf "allocations" row.id "releasing" "released")
  | expire (audit : RecordOf "allocations" row.id row.state.value "expired")

/-- A change the services commit. `row` is the allocation as it was read under its project's lock. -/
inductive Action where
  | grant (a : Allocation) (host : Uuid) (x : Posting) (key : Option IdempotencyKey)
      (audit : RecordOf "allocations" a.id "" "granted")
  | enqueue (a : Allocation) (key : Option IdempotencyKey)
      (audit : RecordOf "allocations" a.id "" "requested")
  | promote (row : Allocation) (host : Uuid) (expiry : Time) (claim : List PCIeClaim) (now : Time)
      (x : Posting) (audit : RecordOf "allocations" row.id "requested" "granted")
  /-- A queued row leaves the queue without ever being granted. -/
  | unqueue (row : Allocation) (new : AllocationState) (now : Time)
      (audit : RecordOf "allocations" row.id "requested" new.value)
  | renew (row : Allocation) (expiry now : Time) (x : Posting) (key : Option IdempotencyKey)
      (audit : { r : AuditRow // r.text = none })
  | settle (row : Allocation) (closing : Closing row) (started : Option Time) (ended now : Time)
      (x : Posting)
  | activate (row : Allocation) (s : System) (now : Time)
      (created : RecordOf "systems" s.id "" s.state.value)
      (activated : RecordOf "allocations" row.id "granted" "active")
  /-- A System is ready; `stamp` is the allocation whose billing interval this opens. -/
  | ready (system : Uuid) (domainName : String) (stamp : Option (Uuid × Time))
      (audit : RecordOf "systems" system "provisioning" "ready")
  | tearDown (system : Uuid) (audit : TearDownRecord system)
  | setBudget (b : Budget) (audit : { r : AuditRow // r.objectKind = "budgets" })
  | cordon (host : Uuid) (flag : Bool) (audit : PlatformAuditRow)
  | note (audit : PlatformAuditRow)

/-- The row a promotion grants. -/
def Allocation.placed (row : Allocation) (host : Uuid) (expiry : Time) (claim : List PCIeClaim) : Allocation :=
  { row with
    resourceId := some host, state := .granted, leaseExpiry := some expiry, pcieClaim := claim }

def stampEnded (id : Uuid) (started : Option Time) (ended now : Time) : List Write :=
  (started.map fun _ => Write.patchAllocation id (.activeEndedAt ended) now).toList

def keyWrites (key : Option IdempotencyKey) : List Write :=
  (key.map Write.insertIdempotencyKey).toList

namespace Action
/-- The row writes, in the order of the statements that make them. -/
def writes : Action → List Write
  | grant a _ x key audit =>
    [.insertAllocation a] ++ x.writes .reserved a ++ keyWrites key ++ [.insertAudit audit.1]
  | enqueue a key audit => [.insertAllocation a] ++ keyWrites key ++ [.insertAudit audit.1]
  | promote row host expiry claim now x audit =>
    [.patchAllocation row.id (.place host expiry claim) now] ++
      x.writes .reserved (row.placed host expiry claim) ++ [.insertAudit audit.1]
  | unqueue row new now audit => [.patchAllocation row.id (.state new) now, .insertAudit audit.1]
  | renew row expiry now x key audit =>
    [.patchAllocation row.id (.leaseExpiry expiry) now] ++ x.writes .reserved row ++
      keyWrites key ++ [.insertAudit audit.1]
  | settle row (.release begun finished) started ended now x =>
    [.patchAllocation row.id (.state .releasing) now, .insertAudit begun.1] ++ stampEnded row.id started ended now ++
      [.patchAllocation row.id (.state .released) now, .insertAudit finished.1] ++
      x.writes .reconciled row
  | settle row (.expire audit) started ended now x =>
    stampEnded row.id started ended now ++ [.patchAllocation row.id (.state .expired) now, .insertAudit audit.1] ++
      x.writes .reconciled row
  | activate row s now created activated =>
    [.insertSystem s, .insertAudit created.1, .patchAllocation row.id (.state .active) now, .insertAudit activated.1]
  | ready system domainName stamp audit =>
    [.patchSystem system (.ready domainName)] ++
      (stamp.map fun x => Write.patchAllocation x.1 (.activeStartedAt x.2) x.2).toList ++
      [.insertAudit audit.1]
  | tearDown system audit => [.patchSystem system (.state .tornDown), .insertAudit audit.row.1]
  | setBudget b audit => [.upsertBudget b, .insertAudit audit.1]
  | cordon host flag audit => [.setCordoned host flag, .insertPlatformAudit audit]
  | note audit => [.insertPlatformAudit audit]

abbrev on (a : Action) (c : Db) : Db := store.applyAll a.writes c

def keyNeeds (key : Option IdempotencyKey) : List LockKey :=
  (key.map fun k => LockKey.idempotencyKeyRow k.principal k.key).toList

@[simp]
def need : Action → List LockKey
  | grant a host _ key _ =>
    [.project a.project, .resource host, .picked host, .allocationRow a.id, .budgetRow a.project] ++ keyNeeds key
  | enqueue a key _ => [.project a.project, .allocationRow a.id] ++ keyNeeds key
  | promote row host _ _ _ _ _ =>
    [.project row.project, .resource host, .picked host, .allocationRow row.id, .budgetRow row.project]
  | unqueue row _ _ _ => [.project row.project, .allocationRow row.id]
  | renew row _ _ _ key _ =>
    [.project row.project, .allocationRow row.id, .budgetRow row.project] ++ keyNeeds key
  | settle row _ _ _ _ _ =>
    [.project row.project, .allocationRow row.id, .budgetRow row.project]
  | activate row s _ _ _ => [.project row.project, .allocationRow row.id, .systemRow s.id]
  | ready system _ stamp _ =>
    [.system system, .systemRow system] ++ (stamp.map fun x => LockKey.allocationRow x.1).toList
  | tearDown system _ => [.system system, .systemRow system]
  | setBudget b _ => [.budgetRow b.project]
  | cordon _ _ _ => []
  | note _ => []

/-- The actions of the queue's repairs, several of which may share a transaction. -/
def ofQueue : Action → Bool
  | promote .. => true
  | unqueue .. => true
  | _ => false
end Action

/-! ## When an action is legitimate -/

/-- A row but for the two columns that change without its project's lock: the stamp that opens the
    billing interval, and the trigger's. -/
def Allocation.core (a : Allocation) : Allocation :=
  { a with activeStartedAt := none, updatedAt := 0 }

def RowIs (v : Db) (row : Allocation) : Prop :=
  ∃ a, v.allocations.get row.id = some a ∧ a.core = row.core

structure HostRoom (v : Db) (host : Uuid) (claim : List PCIeClaim) : Prop where
  below : ∃ r cap, v.resources.get host = some r ∧ resolveCap r = .ok cap ∧ (countOccupying v host : Int) < cap
  free : ∀ id a, v.allocations.get id = some a → holdsDevices a host = true →
    ∀ x ∈ claim, ∀ y ∈ a.pcieClaim, x.bdf ≠ y.bdf
  distinct : ∀ r, v.resources.get host = some r → ((descriptorsFor r).map (·.bdf)).Nodup → (claim.map (·.bdf)).Nodup

/-- Room in a project's quota, for the count and the cap given. -/
def QuotaRoom (cap : Quota → Int) (count : Db → String → Nat) (v : Db) (project : String) : Prop :=
  ∃ q, v.quotas.get project = some q ∧ (count v project : Int) < cap q

abbrev GrantRoom := QuotaRoom (·.maxConcurrentAllocations) countOccupyingOf

abbrev PendingRoom := QuotaRoom (·.maxPendingAllocations) countRequestedOf

def countSystemsOf (v : Db) (project : String) : Nat :=
  v.systems.rows.countP fun s => s.project = project && !s.state.terminal

abbrev SystemRoom := QuotaRoom (·.maxConcurrentSystems) countSystemsOf

/-- The budget check of `within_budget`. It is part of what is promised only for the projects whose
    limit is `fixed`: a changed limit is not checked again. -/
def Affords (fixed : String → Prop) (v : Db) (project : String) (delta : ℚ) : Prop :=
  ∃ b, v.budgets.get project = some b ∧
    (fixed project → ∃ remaining, Dec.sub b.limitKcu b.spentKcu = .ok remaining ∧ delta ≤ remaining)

def Priced (delta : ℚ) : Prop := ∃ value, quantizeKcu value = .ok delta

def KeyFree (v : Db) (key : Option IdempotencyKey) : Prop :=
  ∀ k, key = some k → v.idempotencyKeys.get (k.principal, k.key) = none

/-- What an allocation has cost: nothing without a closed interval, else its rate over it. -/
inductive ActualCost (v : Db) (a : Allocation) : ℚ → Prop where
  | unused (h : Accounting.activeHours a = .ok 0) : ActualCost v a 0
  | used {hours r actual : ℚ} {vcpus memoryGb : Int} {host : Resource}
      {coefficient : CostClassCoefficient} (hhours : Accounting.activeHours a = .ok hours)
      (hne : hours ≠ 0) (hvcpus : a.requestedVcpus = some vcpus)
      (hmem : a.requestedMemoryGb = some memoryGb)
      (hhost : a.resourceId.bind v.resources.get = some host)
      (hcoeff : v.costClassCoefficients.get host.costClass = some coefficient)
      (hrate : rate coefficient.coeff vcpus memoryGb = .ok r) (hcost : cost r hours = .ok actual) :
      ActualCost v a actual

def Allocation.closed (row : Allocation) (started : Option Time) (ended : Time) : Allocation :=
  { row with activeStartedAt := started, activeEndedAt := started.map fun _ => ended }

/-- `delta` brings what was reserved to what was used. -/
def Settles (v : Db) (row : Allocation) (started : Option Time) (ended : Time) (delta : ℚ) : Prop :=
  ∃ actual, ActualCost v (row.closed started ended) actual ∧
    (Dec.sub actual (Accounting.sumOf v.ledger row.id .reserved) >>= quantizeKcu) = .ok delta

def Allocation.Sized (a : Allocation) : Prop :=
  ∃ vcpus memoryGb, a.requestedVcpus = some vcpus ∧ a.requestedMemoryGb = some memoryGb ∧ 1 ≤ vcpus ∧ 0 ≤ memoryGb

structure CanGrant (fixed : String → Prop) (v : Db) (a : Allocation) (host : Uuid) (x : Posting)
    (key : Option IdempotencyKey) : Prop where
  fresh : v.allocations.get a.id = none
  state : a.state = .granted
  placed : a.resourceId = some host
  leased : a.leaseExpiry.isSome
  unstarted : a.activeStartedAt = none ∧ a.activeEndedAt = none
  sized : a.Sized
  quota : GrantRoom v a.project
  budget : Affords fixed v a.project x.delta
  priced : Priced x.delta
  room : HostRoom v host a.pcieClaim
  keyFree : KeyFree v key

structure CanEnqueue (v : Db) (a : Allocation) (key : Option IdempotencyKey) : Prop where
  fresh : v.allocations.get a.id = none
  state : a.state = .requested
  unplaced : a.resourceId = none ∧ a.leaseExpiry = none ∧ a.pcieClaim = []
  unstarted : a.activeStartedAt = none ∧ a.activeEndedAt = none
  sized : a.Sized
  quota : PendingRoom v a.project
  keyFree : KeyFree v key

structure CanPromote (fixed : String → Prop) (v : Db) (row : Allocation) (host : Uuid)
    (claim : List PCIeClaim) (x : Posting) : Prop where
  current : RowIs v row
  state : row.state = .requested
  quota : GrantRoom v row.project
  budget : Affords fixed v row.project x.delta
  priced : Priced x.delta
  room : HostRoom v host claim

structure CanUnqueue (v : Db) (row : Allocation) (new : AllocationState) : Prop where
  current : RowIs v row
  state : row.state = .requested
  target : new = .failed ∨ new = .released

structure CanRenew (fixed : String → Prop) (v : Db) (row : Allocation) (x : Posting)
    (key : Option IdempotencyKey) : Prop where
  current : RowIs v row
  state : row.state = .granted ∨ row.state = .active
  budget : Affords fixed v row.project x.delta
  priced : Priced x.delta
  keyFree : KeyFree v key

structure CanSettle (v : Db) (row : Allocation) (started : Option Time) (ended : Time)
    (x : Posting) : Prop where
  current : RowIs v row
  state : row.state = .granted ∨ row.state = .active
  opened : (v.allocations.get row.id).map (·.activeStartedAt) = some started
  settles : Settles v row started ended x.delta
  budget : (v.budgets.get row.project).isSome

structure CanActivate (v : Db) (row : Allocation) (s : System) : Prop where
  current : RowIs v row
  state : row.state = .granted
  fresh : v.systems.get s.id = none
  backs : s.allocationId = row.id
  project : s.project = row.project
  quota : SystemRoom v row.project

structure CanReady (v : Db) (system : Uuid) (stamp : Option (Uuid × Time)) : Prop where
  provisioning : ∃ s, v.systems.get system = some s ∧ s.state = .provisioning ∧
    ∀ x, stamp = some x → x.1 = s.allocationId
  unstarted : ∀ x, stamp = some x → ∃ a, v.allocations.get x.1 = some a ∧ a.activeStartedAt = none

/-- A teardown is of a System that may be torn down. The state it records is the one the System is in,
    unless a `provision_defined`, which does not take the System's lock, has just moved it on. -/
structure CanTearDown (v : Db) (system : Uuid) (old : SystemState) : Prop where
  legal : ∃ s, v.systems.get system = some s ∧ s.state.successors.contains .tornDown = true ∧
    (s.state = old ∨ (old = .defined ∧ s.state = .provisioning))

def Action.guard (fixed : String → Prop) : Action → Db → Prop
  | grant a host x key _, v => CanGrant fixed v a host x key
  | enqueue a key _, v => CanEnqueue v a key
  | promote row host _ claim _ x _, v => CanPromote fixed v row host claim x
  | unqueue row new _ _, v => CanUnqueue v row new
  | renew row _ _ x key _, v => CanRenew fixed v row x key
  | settle row _ started ended _ x, v => CanSettle v row started ended x
  | activate row s _ _ _, v => CanActivate v row s
  | ready system _ stamp _, v => CanReady v system stamp
  | tearDown system audit, v => CanTearDown v system audit.old
  | setBudget b _, _ => ¬ fixed b.project ∧ b.spentKcu = 0
  | cordon host _ _, v => (v.resources.get host).isSome
  | note _, _ => True
end Kdive
