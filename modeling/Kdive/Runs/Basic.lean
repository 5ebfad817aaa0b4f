import Kdive.Lib.Script
import Kdive.Proof.Clients

/-! # Runs of the platform

Any number of the entry points at once, each operation of each interleaved with the others' in any
order, failing or crashing at any point. A run starts from a database in which nothing has been
requested yet; its hosts, quotas, coefficients, shapes and budgets are arbitrary.
-/

namespace Kdive
open Lib Client

/-- A database before the first request. Quotas and coefficients are what the tools that set them
    accept: `accounting.set_quota` no negative cap, `ops.set_cost_class_coeff` no coefficient that is
    not positive. -/
structure Fresh (db : Db) : Prop where
  allocations : db.allocations.rows = []
  systems : db.systems.rows = []
  ledger : db.ledger = []
  budgets : ∀ p b, db.budgets.get p = some b → b.spentKcu = 0
  quotas : ∀ p q, db.quotas.get p = some q → 0 ≤ q.maxConcurrentAllocations ∧ 0 ≤ q.maxPendingAllocations
  coefficients : ∀ k x, db.costClassCoefficients.get k = some x → 0 < x.coeff

theorem Fresh.get_allocation {db : Db} (h : Fresh db) (id : Uuid) : db.allocations.get id = none := by
  cases hget : db.allocations.get id with
  | none => rfl
  | some =>
    have hmem := Table.mem_of_get hget
    rw [h.allocations] at hmem
    cases hmem

theorem Fresh.get_system {db : Db} (h : Fresh db) (id : Uuid) : db.systems.get id = none := by
  cases hget : db.systems.get id with
  | none => rfl
  | some =>
    have hmem := Table.mem_of_get hget
    rw [h.systems] at hmem
    cases hmem

theorem Fresh.wellFormed {db : Db} (h : Fresh db) : WellFormed db := by
  refine ⟨?_, ?_, ?_⟩
  · intro e he
    rw [h.ledger] at he
    cases he
  · intro id a ha
    rw [h.get_allocation] at ha
    cases ha
  · intro id s hs
    rw [h.get_system] at hs
    cases hs

/-- The states the platform reaches by steps that all meet `ok`. -/
abbrev ReachableBy (cfg : Config) (ok : Sys store → Choice store Client → Prop) (s : Sys store) : Prop :=
  Sys.Reach (prog cfg) Fresh ok s

abbrev Reachable (cfg : Config) (s : Sys store) : Prop := ReachableBy cfg (fun _ _ => True) s

abbrev noneFixed : String → Prop := fun _ => False

section
variable {cfg : Config} {ok : Sys store → Choice store Client → Prop} {s s' : Sys store}

theorem safe_of_noneFixed (client : Client) : ClientSafe (protocol noneFixed) (client.prog cfg) := by
  refine client_safe ?_
  cases client with
  | setBudget => exact id
  | _ => trivial

theorem ReachableBy.holds (h : ReachableBy cfg ok s) : Holds (protocol noneFixed) s :=
  Sys.Reach.holds (fun _ c _ => safe_of_noneFixed c) (fun _ => Fresh.wellFormed) h

/-- **What every action keeps holds in every committed state of every run.** -/
theorem ReachableBy.always {J : Db → Prop} (hinit : ∀ db, Fresh db → J db)
    (hact : ∀ (a : Action) c, WellFormed c → J c → a.guard noneFixed c → J (a.on c))
    (h : ReachableBy cfg ok s) : J s.db :=
  Sys.Reach.always (fun _ c _ => safe_of_noneFixed c) (fun _ => Fresh.wellFormed) hinit hact h

theorem Reachable.from_then_on {J : Db → Prop}
    (hact : ∀ (a : Action) c, WellFormed c → J c → a.guard noneFixed c → J (a.on c))
    (h : Reachable cfg s) (hl : Sys.Leads (prog cfg) s s') (hJ : J s.db) : J s'.db :=
  Sys.Reach.leads_always safe_of_noneFixed (fun _ => Fresh.wellFormed) hact h hl hJ
end

/-! ## A small installation

One host, one project with a budget and a quota, and a member of it. The runs that show a property to be
about something, or a bound to be reached, take place here.
-/

deriving instance DecidableEq for AllocationPatch, SystemPatch, Write

abbrev Script : Type := List (Sys.Order store Client)

def scripted (cfg : Config) (db : Db) (orders : Script) : Sys store :=
  Sys.perform (prog cfg) (fun _ _ => true) ⟨db, 0, []⟩ orders

theorem reachable_scripted {cfg : Config} {db : Db} (h : Fresh db)
    (orders : Script) : Reachable cfg (scripted cfg db orders) :=
  Sys.Reach.perform (fun _ _ _ => trivial) orders (.init 0 h)

theorem scripted_append (cfg : Config) (db : Db) (os os' : Script) :
    scripted cfg db (os ++ os') = (scripted cfg db os).perform (prog cfg) (fun _ _ => true) os' :=
  Sys.perform_append os os' _

def scriptedBy (cfg : Config) (allowed : Sys store → Choice store Client → Bool) (db : Db)
    (orders : Script) : Sys store :=
  Sys.perform (prog cfg) allowed ⟨db, 0, []⟩ orders

theorem reachableBy_scripted {cfg : Config} {ok : Sys store → Choice store Client → Prop}
    {allowed : Sys store → Choice store Client → Bool} {db : Db}
    (hok : ∀ s ch, allowed s ch = true → ok s ch) (h : Fresh db) (orders : Script) :
    ReachableBy cfg ok (scriptedBy cfg allowed db orders) :=
  Sys.Reach.perform hok orders (.init 0 h)

theorem Fresh.of_rows {db : Db} (ha : db.allocations.rows = []) (hs : db.systems.rows = [])
    (hl : db.ledger = []) (hb : ∀ b ∈ db.budgets.rows, b.spentKcu = 0)
    (hq : ∀ q ∈ db.quotas.rows, 0 ≤ q.maxConcurrentAllocations ∧ 0 ≤ q.maxPendingAllocations)
    (hc : ∀ x ∈ db.costClassCoefficients.rows, 0 < x.coeff) : Fresh db :=
  ⟨ha, hs, hl, fun _ _ h => hb _ (Table.mem_of_get h), fun _ _ h => hq _ (Table.mem_of_get h),
    fun _ _ h => hc _ (Table.mem_of_get h)⟩

namespace Lab
def host (id : Uuid) (costClass : String) (slots : Int) (devices : List Json) : Resource where
  id := id
  createdAt := 0
  kind := .localLibvirt
  capabilities := [("concurrent_allocation_cap", .int slots), ("vcpus", .int 8),
    ("memory_mb", .int 16384), ("pcie_devices", .arr devices)]
  costClass := costClass
  status := .available

def setUp (resources : Table Resource) (budgets : Table Budget) (quotas : Table Quota)
    (coefficients : Table CostClassCoefficient) : Db where
  resources := resources
  allocations := .empty
  systems := .empty
  budgets := budgets
  quotas := quotas
  costClassCoefficients := coefficients
  systemShapes := .empty
  idempotencyKeys := .empty
  ledger := []
  auditLog := []
  platformAuditLog := []

def nic (bdf : String) : Json :=
  .obj [("bdf", .str bdf), ("vendor_id", .str "8086"), ("device_id", .str "1572"),
    ("class_code", .str "0200"), ("label", .str "nic")]

def db : Db :=
  setUp ⟨[host 1 "local" 2 [nic "0000:01:00.0", nic "0000:02:00.0"]], by decide⟩
    ⟨[⟨"kernel", 100, 0⟩], by decide⟩ ⟨[⟨"kernel", 2, 2, 1⟩], by decide⟩
    ⟨[⟨"local", 1⟩], by decide⟩

theorem fresh : Fresh db := .of_rows rfl rfl rfl (by decide) (by decide) (by decide)

def member (project : String) : RequestContext := { principal := "dev", projects := [project] }

def oneHour (project : String) (host : Option Uuid) (devices : List String) (onCapacity : OnCapacity) : Client :=
  .request (member project) project
    { resourceId := host, kind := .localLibvirt, vcpus := some 1, memoryGb := some 1,
      diskGb := some 1, window := some (some (.fin 1)), pcieDevices := devices,
      onCapacity := onCapacity } none

def full : Script :=
  [.start (oneHour "kernel" (some 1) ["8086:1572"] .queue), .go 0 { uuid := 10 } 100,
    .start (oneHour "kernel" (some 1) ["class=02"] .queue), .go 1 { uuid := 11 } 100]

def queued : Script :=
  full ++ [.start (oneHour "kernel" (some 1) [] .queue), .go 2 { uuid := 12 } 100]

def leaving (n : Nat) : Script :=
  queued ++ [.start (.release (member "kernel") 12), .go 3 { uuid := 13 } n]

def created : Script :=
  [.start (oneHour "kernel" (some 1) [] .deny), .go 0 { uuid := 10 } 100,
    .start (.createSystem (member "kernel") 10 .provision), .go 1 { uuid := 20 } 100]

def provisionJob : Job := { systemId := 20, principal := "dev" }

def provisioning : Script := created ++ [.start (.provision provisionJob)]

def released : Script :=
  full ++ [.start (.release (member "kernel") 10), .go 2 { uuid := 13 } 100]
end Lab
end Kdive
