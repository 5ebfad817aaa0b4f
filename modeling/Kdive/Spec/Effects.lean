import Kdive.Db.Repositories

/-! # What a write changes

Each table read by key after a write is a function of the same reading before it. The functions are
given here, one for each table, so that a property of the database can be followed through a list of
writes one row at a time.
-/

namespace Kdive
open Lib (Time Keyed Table Store)

namespace AllocationPatch
variable (p : AllocationPatch) (now : Time) (a : Allocation)

theorem field_apply {β : Type} (f : Allocation → β) (hf : ∀ a t, f { a with updatedAt := t } = f a) :
    f (p.apply now a) = f (p.set a) := by
  unfold apply
  split
  case isTrue h => rw [h]
  case isFalse => exact hf _ _

@[simp] theorem state_apply : (p.apply now a).state = (p.set a).state :=
  p.field_apply now a (·.state) fun _ _ => rfl

@[simp] theorem project_apply : (p.apply now a).project = a.project := by
  rw [p.field_apply now a (·.project) fun _ _ => rfl]
  cases p <;> rfl

@[simp] theorem resourceId_apply : (p.apply now a).resourceId = (p.set a).resourceId :=
  p.field_apply now a (·.resourceId) fun _ _ => rfl

@[simp] theorem leaseExpiry_apply : (p.apply now a).leaseExpiry = (p.set a).leaseExpiry :=
  p.field_apply now a (·.leaseExpiry) fun _ _ => rfl

@[simp] theorem pcieClaim_apply : (p.apply now a).pcieClaim = (p.set a).pcieClaim :=
  p.field_apply now a (·.pcieClaim) fun _ _ => rfl

@[simp] theorem activeStartedAt_apply : (p.apply now a).activeStartedAt = (p.set a).activeStartedAt :=
  p.field_apply now a (·.activeStartedAt) fun _ _ => rfl

@[simp] theorem activeEndedAt_apply : (p.apply now a).activeEndedAt = (p.set a).activeEndedAt :=
  p.field_apply now a (·.activeEndedAt) fun _ _ => rfl

@[simp] theorem requestedVcpus_apply : (p.apply now a).requestedVcpus = a.requestedVcpus := by
  rw [p.field_apply now a (·.requestedVcpus) fun _ _ => rfl]
  cases p <;> rfl

@[simp] theorem requestedMemoryGb_apply : (p.apply now a).requestedMemoryGb = a.requestedMemoryGb := by
  rw [p.field_apply now a (·.requestedMemoryGb) fun _ _ => rfl]
  cases p <;> rfl
end AllocationPatch

namespace Write
def onAllocation (id : Uuid) : Write → Option Allocation → Option Allocation
  | .insertAllocation a, row => if a.id = id ∧ row = none then some a else row
  | .patchAllocation id' p now, row => if id' = id then row.map (p.apply now) else row
  | _, row => row

def onSystem (id : Uuid) : Write → Option System → Option System
  | .insertSystem s, row => if s.id = id ∧ row = none then some s else row
  | .patchSystem id' p, row => if id' = id then row.map p.apply else row
  | _, row => row

def onBudget (project : String) : Write → Option Budget → Option Budget
  | .addSpent p delta, row =>
    if p = project then row.map fun b => { b with spentKcu := b.spentKcu + delta } else row
  | .upsertBudget b, row =>
    if b.project = project then
      some ((row.map fun old => { old with limitKcu := b.limitKcu }).getD b)
    else row
  | _, row => row

def onKey (key : String × String) : Write → Option IdempotencyKey → Option IdempotencyKey
  | .insertIdempotencyKey k, row => if (k.principal, k.key) = key ∧ row = none then some k else row
  | _, row => row

def onResource (id : Uuid) : Write → Option Resource → Option Resource
  | .setCordoned id' flag, row =>
    if id' = id then row.map fun r => { r with cordoned := flag } else row
  | _, row => row

@[simp]
def entries : Write → List LedgerEntry
  | .insertLedger e => [e]
  | _ => []

section
variable (w : Write)
include w

theorem get_allocations (c : Db) (id : Uuid) :
    (w.apply c).allocations.get id = w.onAllocation id (c.allocations.get id) := by
  cases w with
  | insertAllocation => exact Table.get_insert ..
  | patchAllocation id' p now => exact Table.get_modify c.allocations id' _ (p.id_apply now) id
  | _ => rfl

theorem get_systems (c : Db) (id : Uuid) : (w.apply c).systems.get id = w.onSystem id (c.systems.get id) := by
  cases w with
  | insertSystem => exact Table.get_insert ..
  | patchSystem id' p => exact Table.get_modify c.systems id' _ (fun s => by cases p <;> rfl) id
  | _ => rfl

theorem get_budgets (c : Db) (p : String) : (w.apply c).budgets.get p = w.onBudget p (c.budgets.get p) := by
  cases w with
  | addSpent p' delta =>
    exact Table.get_modify c.budgets p' (fun b => { b with spentKcu := b.spentKcu + delta }) (fun _ => rfl) p
  | upsertBudget => apply Table.get_upsert
  | _ => rfl

theorem get_idempotencyKeys (c : Db) (k : String × String) :
    (w.apply c).idempotencyKeys.get k = w.onKey k (c.idempotencyKeys.get k) := by
  cases w with
  | insertIdempotencyKey => exact Table.get_insert ..
  | _ => rfl

theorem get_resources (c : Db) (id : Uuid) : (w.apply c).resources.get id = w.onResource id (c.resources.get id) := by
  cases w with
  | setCordoned id' flag =>
    exact Table.get_modify c.resources id' (fun r => { r with cordoned := flag }) (fun _ => rfl) id
  | _ => rfl

theorem ledger_apply (c : Db) : (w.apply c).ledger = c.ledger ++ w.entries := by
  cases w <;> simp [Write.apply]
end

/-- The row keys a write is made under, and for the accounting tables the project's lock. -/
def keys : Write → List LockKey
  | .insertAllocation a => [.allocationRow a.id]
  | .patchAllocation id _ _ => [.allocationRow id]
  | .insertSystem s => [.systemRow s.id]
  | .patchSystem id _ => [.systemRow id]
  | .insertLedger e => [.project e.project]
  | .addSpent project _ => [.project project, .budgetRow project]
  | .upsertBudget b => [.budgetRow b.project]
  | .insertIdempotencyKey k => [.idempotencyKeyRow k.principal k.key]
  | .setCordoned _ _ => []
  | .insertAudit _ => []
  | .insertPlatformAudit _ => []

theorem onAllocation_of_notMem {w : Write} {id : Uuid} (h : .allocationRow id ∉ w.keys)
    (row : Option Allocation) : w.onAllocation id row = row := by
  cases w with
  | insertAllocation a => exact if_neg fun hc => h (by simp [keys, hc.1])
  | patchAllocation id' => exact if_neg fun hc => h (by simp [keys, hc])
  | _ => rfl

theorem onSystem_of_notMem {w : Write} {id : Uuid} (h : .systemRow id ∉ w.keys)
    (row : Option System) : w.onSystem id row = row := by
  cases w with
  | insertSystem s => exact if_neg fun hc => h (by simp [keys, hc.1])
  | patchSystem id' => exact if_neg fun hc => h (by simp [keys, hc])
  | _ => rfl

theorem onBudget_of_notMem {w : Write} {p : String} (h : .budgetRow p ∉ w.keys)
    (row : Option Budget) : w.onBudget p row = row := by
  cases w with
  | addSpent p' | upsertBudget b => exact if_neg fun hc => h (by simp [keys, hc])
  | _ => rfl

theorem onKey_of_notMem {w : Write} {k : String × String}
    (h : .idempotencyKeyRow k.1 k.2 ∉ w.keys) (row : Option IdempotencyKey) : w.onKey k row = row := by
  cases w with
  | insertIdempotencyKey =>
    refine if_neg fun hc => h ?_
    rw [← hc.1]
    exact List.mem_singleton_self _
  | _ => rfl

/-! ## What no write changes -/

@[simp] theorem quotas_apply (w : Write) (c : Db) : (w.apply c).quotas = c.quotas := by
  cases w <;> rfl

@[simp] theorem costClassCoefficients_apply (w : Write) (c : Db) :
    (w.apply c).costClassCoefficients = c.costClassCoefficients := by
  cases w <;> rfl
end Write

/-! ## Lists of writes -/

section
-- the library's lemmas, at this store's types
@[simp] theorem applyAll_nil (c : Db) : store.applyAll ([] : List Write) c = c := rfl

@[simp] theorem applyAll_cons (w : Write) (ws : List Write) (c : Db) :
    store.applyAll (w :: ws) c = store.applyAll ws (w.apply c) := rfl

variable (ws : List Write) (c : Db)

theorem get_allocations_applyAll (id : Uuid) : (store.applyAll ws c).allocations.get id =
      ws.foldl (fun row w => w.onAllocation id row) (c.allocations.get id) :=
  Store.read_applyAll (σ := store) (fun db => db.allocations.get id) (fun w => w.onAllocation id)
    (fun w db => w.get_allocations db id) ws c

theorem get_systems_applyAll (id : Uuid) : (store.applyAll ws c).systems.get id =
      ws.foldl (fun row w => w.onSystem id row) (c.systems.get id) :=
  Store.read_applyAll (σ := store) (fun db => db.systems.get id) (fun w => w.onSystem id)
    (fun w db => w.get_systems db id) ws c

theorem get_budgets_applyAll (p : String) : (store.applyAll ws c).budgets.get p =
      ws.foldl (fun row w => w.onBudget p row) (c.budgets.get p) :=
  Store.read_applyAll (σ := store) (fun db => db.budgets.get p) (fun w => w.onBudget p)
    (fun w db => w.get_budgets db p) ws c

theorem get_idempotencyKeys_applyAll (k : String × String) : (store.applyAll ws c).idempotencyKeys.get k =
      ws.foldl (fun row w => w.onKey k row) (c.idempotencyKeys.get k) :=
  Store.read_applyAll (σ := store) (fun db => db.idempotencyKeys.get k) (fun w => w.onKey k)
    (fun w db => w.get_idempotencyKeys db k) ws c

@[simp] theorem quotas_applyAll : (store.applyAll ws c).quotas = c.quotas :=
  Store.read_applyAll_of_eq (σ := store) Db.quotas (fun w _ db => w.quotas_apply db) c

@[simp] theorem costClassCoefficients_applyAll :
    (store.applyAll ws c).costClassCoefficients = c.costClassCoefficients :=
  Store.read_applyAll_of_eq (σ := store) Db.costClassCoefficients (fun w _ db => w.costClassCoefficients_apply db) c

variable {c} in
theorem ledger_applyAll : (store.applyAll ws c).ledger = c.ledger ++ ws.flatMap Write.entries := by
  induction ws generalizing c with
  | nil => simp
  | cons w ws ih =>
    rw [applyAll_cons, ih, w.ledger_apply, List.flatMap_cons, List.append_assoc]
end
end Kdive
