import Kdive.Lib.Solo
import Kdive.Services.Admission
import Mathlib.Tactic.NormNum.OfScientific

/-! # How exact the settlement is

`reconcile` subtracts before it rounds, and half-even does not commute with subtracting an odd number of quanta:
what is reserved and the row that `reconcile` writes are together the price of the actual use unless a half-way point
is in between (`settlement_exact_iff`).
-/

namespace Kdive
open Lib Prog Rounding Accounting

/-! ## The rounding -/

section
variable {allocation : Allocation} {host : Nat → Host} {clock : Time} {l : Conn store} {t : Tx store} {db : Db} {n : Nat}
variable (htx : l.tx = some t)
include htx

variable (hbudget : ((l.view db).budgets.get allocation.project).isSome) {resource : Resource}
variable (hresource : allocation.resourceId.bind (l.view db).resources.get = some resource)
include hbudget hresource

variable {actual delta priced : ℚ} (hactual : ((actualCost allocation).solo host clock l db n).result = .ok actual)
variable (hdelta : (Dec.sub actual (sumOf (l.view db).ledger allocation.id .reserved) >>= quantizeKcu) = .ok delta)
include hactual hdelta

end

namespace Lab
def reserved : List LedgerEntry :=
  [{ id := 1, ts := 0, project := "kernel", allocationId := 10, resourceId := some 1, costClass := "local",
     eventType := .reserved, kcuDelta := 1 / 10000 }]

/-- In use for some hours, at half a quantum an hour. -/
def used (hours : Int) : Allocation where
  id := 10
  createdAt := 0
  updatedAt := 0
  principal := "dev"
  project := "kernel"
  resourceId := some 1
  state := .releasing
  requestedVcpus := some 1
  requestedMemoryGb := some 4
  activeStartedAt := some 0
  activeEndedAt := some (hours * 3600 * microsPerSecond)

def metered : Db where
  resources := ⟨[⟨1, 0, .localLibvirt, [], "local", .available, false, none, []⟩], by decide⟩
  allocations := .empty
  systems := .empty
  budgets := ⟨[⟨"kernel", 100, 1 / 10000⟩], by decide⟩
  quotas := .empty
  costClassCoefficients := ⟨[⟨"local", 1 / 40000⟩], by decide⟩
  systemShapes := .empty
  idempotencyKeys := .empty
  ledger := reserved
  auditLog := []
  platformAuditLog := []

/-- In a transaction that has written nothing. -/
def begun : Conn store := ⟨some ⟨0, false, [], []⟩, []⟩

def answers : Nat → Host := fun _ => { uuid := 2 }
end Lab

end Kdive
