import Kdive.Domain.Models
import Kdive.Lib.System
import Mathlib.Algebra.Order.Ring.Rat
import Mathlib.Data.List.Sort

/-! # The database: `db/schema`, and what can be locked in it

The tables of admission, promotion, renewal, release, expiry, System creation and provisioning and the host
operations, the row writes of their statements, and the keys those take. Not modelled: `artifacts`,
`upload_manifests` and `jobs`, which no function here reads back, and constraints other than primary keys, whose
violation is one of the ways in which every statement can raise.
-/

namespace Kdive
open Lib (Time Table Store Prog)

structure Db where
  resources : Table Resource
  allocations : Table Allocation
  systems : Table System
  budgets : Table Budget
  quotas : Table Quota
  costClassCoefficients : Table CostClassCoefficient
  systemShapes : Table SystemShape
  idempotencyKeys : Table IdempotencyKey
  /-- Append-only, oldest first. -/
  ledger : List LedgerEntry
  auditLog : List AuditRow
  platformAuditLog : List PlatformAuditRow

/-! ## Row writes -/

/-- What an `UPDATE allocations` sets. -/
inductive AllocationPatch where
  | state (s : AllocationState)
  | leaseExpiry (t : Time)
  | activeStartedAt (t : Time)
  | activeEndedAt (t : Time)
  /-- The promotion's update: host, lease and devices with the state. -/
  | place (resourceId : Uuid) (leaseExpiry : Time) (claim : List PCIeClaim)

@[simp]
def AllocationPatch.set (p : AllocationPatch) (a : Allocation) : Allocation :=
  match p with
  | .state s => { a with state := s }
  | .leaseExpiry t => { a with leaseExpiry := some t }
  | .activeStartedAt t => { a with activeStartedAt := some t }
  | .activeEndedAt t => { a with activeEndedAt := some t }
  | .place r t claim =>
    { a with state := .granted, resourceId := some r, leaseExpiry := some t, pcieClaim := claim }

/-- The update with the trigger `allocations_set_updated_at`, which stamps a row that changed. -/
def AllocationPatch.apply (p : AllocationPatch) (now : Time) (a : Allocation) : Allocation :=
  if p.set a = a then a else { p.set a with updatedAt := now }

@[simp] theorem AllocationPatch.id_apply (p : AllocationPatch) (now : Time) (a : Allocation) :
    (p.apply now a).id = a.id := by
  unfold apply
  split
  · rfl
  · cases p <;> rfl

inductive SystemPatch where
  | state (s : SystemState)
  | ready (domainName : String)
  | profile (text : String)

def SystemPatch.apply (p : SystemPatch) (s : System) : System :=
  match p with
  | .state new => { s with state := new }
  | .ready name => { s with state := .ready, domainName := some name }
  | .profile text => { s with provisioningProfile := text }

inductive Write where
  | insertAllocation (a : Allocation)
  | patchAllocation (id : Uuid) (p : AllocationPatch) (now : Time)
  | insertSystem (s : System)
  | patchSystem (id : Uuid) (p : SystemPatch)
  | insertLedger (e : LedgerEntry)
  | addSpent (project : String) (delta : ℚ)
  /-- `INSERT … ON CONFLICT (project) DO UPDATE SET limit_kcu = EXCLUDED.limit_kcu`. -/
  | upsertBudget (b : Budget)
  | insertIdempotencyKey (k : IdempotencyKey)
  | setCordoned (id : Uuid) (cordoned : Bool)
  | insertAudit (r : AuditRow)
  | insertPlatformAudit (r : PlatformAuditRow)

def Write.apply (w : Write) (db : Db) : Db :=
  match w with
  | .insertAllocation a => { db with allocations := db.allocations.insert a }
  | .patchAllocation id p now =>
    { db with allocations := db.allocations.modify id (p.apply now) (p.id_apply now) }
  | .insertSystem s => { db with systems := db.systems.insert s }
  | .patchSystem id p =>
    { db with systems := db.systems.modify id p.apply (fun s => by cases p <;> rfl) }
  | .insertLedger e => { db with ledger := db.ledger ++ [e] }
  | .addSpent project delta =>
    { db with
      budgets := db.budgets.modify project (fun b => { b with spentKcu := b.spentKcu + delta }) (fun _ => rfl) }
  | .upsertBudget b =>
    { db with
      budgets := db.budgets.upsert b (fun old => { old with limitKcu := b.limitKcu }) (fun _ => rfl) }
  | .insertIdempotencyKey k => { db with idempotencyKeys := db.idempotencyKeys.insert k }
  | .setCordoned id cordoned =>
    { db with
      resources := db.resources.modify id (fun r => { r with cordoned := cordoned }) (fun _ => rfl) }
  | .insertAudit r => { db with auditLog := db.auditLog ++ [r] }
  | .insertPlatformAudit r => { db with platformAuditLog := db.platformAuditLog ++ [r] }

/-! ## Locks -/

/-- What a transaction can hold. The first four are the advisory locks of `db/locks.py`, without the hashing of their
    keys: a collision would only make two operations wait for each other. The row keys are the locks Postgres takes on
    rows a statement writes or selects `FOR UPDATE`, and on the key of a row it inserts.

    The last three are no locks of the code: shared, they record what a transaction has read, the hosts of its placement
    query and the queued allocations of the scan of a promotion or timeout pass. -/
inductive LockKey where
  | project (name : String)
  | resource (id : Uuid)
  | allocation (id : Uuid)
  | system (id : Uuid)
  | resourceRow (id : Uuid)
  | allocationRow (id : Uuid)
  | systemRow (id : Uuid)
  | budgetRow (project : String)
  | idempotencyKeyRow (principal key : String)
  | picked (resource : Uuid)
  | candidate (allocation : Uuid)
  | aged (allocation : Uuid)
  deriving DecidableEq

namespace LockKey
/-- Taken by `advisory_xact_lock`. -/
def advisory : LockKey → Bool
  | project _ | resource _ | allocation _ | system _ => true
  | _ => false

def shared : LockKey → Bool
  | picked _ | candidate _ | aged _ => true
  | _ => false
end LockKey

/-! ## The host -/

/-- What a process reads from outside the database, afresh at each use. -/
structure Host where
  /-- `datetime.now(UTC)`. -/
  now : Time := 0
  /-- `uuid4()`. -/
  uuid : Uuid := 0
  /-- The outcome of parsing and validating a provisioning profile: the text to store. -/
  profile : Except Err String := .ok ""
  /-- The provider's answers. -/
  provision : Except Err String := .ok ""
  reprovision : Except Err String := .ok ""
  teardown : Except Err Unit := .ok ()
  /-- Whether an uploaded root filesystem is expected, and whether the object store has it. -/
  rootfs : Except Err (Option Bool) := .ok none

/-- The platform's database, as the library sees it. -/
abbrev store : Store where
  Db := Db
  Write := Write
  Key := LockKey
  Err := Err
  Host := Host
  decKey := inferInstance
  apply := Write.apply
  shared := LockKey.shared

/-- A coroutine with its connection. -/
abbrev Async (α : Type) := Prog store α

/-- `try: p` with an `except CategorizedError` clause and an `else` clause. -/
def tryCategorized {α β : Type} (p : Async α) (handler : CategorizedError → Async β) (orElse : α → Async β) : Async β :=
  p.attempt fun
    | .ok a => orElse a
    | .error (.categorized e) => handler e
    | .error e => .raise e

def orderByAge {ρ : Type} (createdAt : ρ → Time) (id : ρ → Uuid) (rows : List ρ) : List ρ :=
  rows.insertionSort fun a b =>
    createdAt a < createdAt b ∨ (createdAt a = createdAt b ∧ id a ≤ id b)
end Kdive
