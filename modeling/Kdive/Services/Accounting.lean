import Kdive.Db.Repositories
import Kdive.Domain.Cost

/-! # Metering: `services/accounting/ledger.py`

Reserve at grant, reconcile at release: the two functions that write the ledger, both through
`writeDelta`, which appends the row and moves the project's running total in one block.
-/

namespace Kdive
open Lib (Time Prog Stmt)
open Lib.Prog

namespace Accounting
/-- `resolve_coeff` of `domain/cost.py`. -/
def resolveCoeff (costClass : String) : Async ℚ := do
  match ← select fun v _ => v.costClassCoefficients.get costClass with
  | some row => return row.coeff
  | none => .raise (.configuration
      [.text "cost_class ", .quoted costClass, .text " has no coefficient row"]
      [("cost_class", .text costClass)])

/-- `_cost_class`: the class of the host the allocation books. -/
def costClass (allocation : Allocation) : Async String := do
  match ← select fun v _ => allocation.resourceId.bind v.resources.get with
  | some resource => return resource.costClass
  | none => .raise (.configuration
      [.text "allocation ", .id allocation.id, .text " books missing resource ",
        (allocation.resourceId.map Part.id).getD .null]
      [("allocation_id", .id allocation.id)])

def addSpentStmt (project : String) (delta : ℚ) : Stmt store where
  keys v _ := if (v.budgets.get project).isSome then [.budgetRow project] else []
  act v _ := .ok (if (v.budgets.get project).isSome then [.addSpent project delta] else [])

def applyToSpent (project : String) (delta : ℚ) : Async Unit := do
  let updated ← stmt (addSpentStmt project delta) fun v _ => (v.budgets.get project).isSome
  if !updated then
    .raise (.configuration [.text "project ", .quoted project, .text " has no budget row to charge"]
      [("project", .text project)])

def writeDelta (allocation : Allocation) (eventType : LedgerEventType) (delta : ℚ) : Async Unit := do
  let cls ← costClass allocation
  transaction do
    let id ← ask Host.uuid
    Ledger.insert
      { id := id
        ts := allocation.createdAt
        project := allocation.project
        allocationId := allocation.id
        resourceId := allocation.resourceId
        costClass := cls
        eventType := eventType
        kcuDelta := delta }
    applyToSpent allocation.project delta

def reserve (allocation : Allocation) (estimate : ℚ) : Async Unit := do
  let delta ← ofExcept (quantizeKcu estimate)
  writeDelta allocation .reserved delta

/-! ## Settlement -/

def hasBudget (project : String) : Async Bool :=
  select fun v _ => (v.budgets.get project).isSome

/-- `SELECT COALESCE(SUM(kcu_delta), 0) FROM ledger WHERE allocation_id = … AND event_type = …`. -/
def sumOf (ledger : List LedgerEntry) (allocationId : Uuid) (eventType : LedgerEventType) : ℚ :=
  ((ledger.filter fun e => e.allocationId = allocationId ∧ e.eventType = eventType).map (·.kcuDelta)).sum

def reservedSum (allocationId : Uuid) : Async ℚ :=
  select fun v _ => sumOf v.ledger allocationId .reserved

def activeHours (allocation : Allocation) : Except Err ℚ :=
  match allocation.activeStartedAt, allocation.activeEndedAt with
  | some started, some ended => hoursBetween started ended
  | _, _ => .ok 0

def actualCost (allocation : Allocation) : Async ℚ := do
  let hours ← ofExcept (activeHours allocation)
  if hours = 0 then return 0
  match allocation.requestedVcpus, allocation.requestedMemoryGb with
  | some vcpus, some memoryGb =>
    let coeff ← resolveCoeff (← costClass allocation)
    let rateKcuPerHr ← ofExcept (rate coeff vcpus memoryGb)
    ofExcept (cost rateKcuPerHr hours)
  | _, _ => .raise (.configuration
      [.text "allocation ", .id allocation.id, .text " has no persisted size to reconcile"]
      [("allocation_id", .id allocation.id)])

def reconcile (allocation : Allocation) : Async ℚ := do
  if !(← hasBudget allocation.project) then return 0
  let reserved ← reservedSum allocation.id
  let actual ← actualCost allocation
  let delta ← ofExcept (Dec.sub actual reserved >>= quantizeKcu)
  writeDelta allocation .reconciled delta
  return delta

/-- The stamp goes by the committed row, read under its lock, not by the caller's copy. -/
def stampActiveEnded (allocation : Allocation) (endedAt : Time) : Async Allocation := do
  match (← Allocations.getForUpdate allocation.id).bind (·.activeStartedAt) with
  | none => return allocation
  | some startedAt =>
    let _ ← Allocations.update allocation.id (fun _ => true) fun _ => .activeEndedAt endedAt
    return { allocation with activeStartedAt := some startedAt, activeEndedAt := some endedAt }
end Accounting
end Kdive
