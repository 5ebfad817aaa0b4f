import Kdive.Db.Repositories
import Kdive.Domain.Cost
import Kdive.Domain.Pcie

/-! # Placement: `services/allocation/{affinity,placement,pcie_claim,sizing}.py`

Which hosts a request may go to. The queries that choose a host take the shared key `picked` of each
schedulable host they return; it stays with the transaction and only records the choice.
-/

namespace Kdive
open Lib (Prog)
open Lib.Prog

def projectMayPlace (resource : Resource) (project : String) : Bool :=
  match resource.ownerProject with
  | none => true
  | some owner => project = owner || resource.affinityAllowlist.contains project

def holdsDevices (a : Allocation) (resourceId : Uuid) : Bool :=
  a.resourceId = some resourceId && !a.state.terminal

def activeClaims (resourceId : Uuid) : Async (List PCIeClaim) :=
  select fun v _ =>
    (v.allocations.rows.filter (holdsDevices · resourceId)).flatMap (·.pcieClaim)

namespace Placement
structure Request where
  resourceId : Option Uuid
  kind : Option ResourceKind := none
  pcieSpecs : List String := []
  project : Option String := none

structure Candidates where
  resources : List Resource
  capacityCandidate : Option Resource := none

def schedulable (r : Resource) : Bool := !r.cordoned && r.status == .available

def affinityOk (resource : Resource) (project : Option String) : Bool :=
  match project with
  | none => true
  | some p => projectMayPlace resource p

def ofKind (v : Db) (kind : ResourceKind) : List Resource :=
  orderByAge (·.createdAt) (·.id) (v.resources.rows.filter fun r => r.kind = kind && schedulable r)

def schedulableCandidates (resourceId : Option Uuid) (kind : Option ResourceKind)
    (project : Option String) : Async (List Resource) :=
  match resourceId, kind with
  | some id, _ => do
    let found ← selectFor
      (fun v _ => ((v.resources.get id).filter schedulable).toList.map fun r => .picked r.id)
      fun v _ => v.resources.get id
    match found with
    | none => return []
    | some resource =>
      if schedulable resource && affinityOk resource project then return [resource] else return []
  | none, none => return []
  | none, some kind => do
    let candidates ← selectFor
      (fun v _ => (ofKind v kind).map fun r => .picked r.id) fun v _ => ofKind v kind
    return candidates.filter (affinityOk · project)

/-- One turn of the loop over candidates: keep a host with free matches, remember the first whose
    matches are all taken. -/
def sift (specs : List String) (acc : Candidates) (candidate : Resource) : Async Candidates := do
  let claims ← activeClaims candidate.id
  let resolution ← ofExcept
    (resolveUnion specs (descriptorsFor candidate) claims)
  match resolution.outcome with
  | .matched => return { acc with resources := acc.resources ++ [candidate] }
  | .capacity =>
    return { acc with capacityCandidate := acc.capacityCandidate.or (some candidate) }
  | .config => return acc

def resolveCandidates (request : Request) : Async Candidates := do
  let candidates ← schedulableCandidates request.resourceId request.kind request.project
  if request.pcieSpecs = [] then return ⟨candidates, none⟩
  else foldEach (sift request.pcieSpecs) ⟨[], none⟩ candidates
end Placement

/-! ## Sizing -/

structure ResolvedSizing where
  vcpus : Int
  memoryGb : Int
  diskGb : Int
  pcieMatch : Option String := none
  shape : Option String := none

/-- `resolve_request_sizing`, with `resolve_shape` inlined. -/
def resolveRequestSizing (shape : Option String) (vcpus memoryGb diskGb : Option Int) : Async ResolvedSizing :=
  match shape with
  | some name => do
    match ← select fun v _ => v.systemShapes.get name with
    | none => .raise (.configuration
        [.text "system shape ", .quoted name, .text " is not in the catalog"]
        [("shape", .text name)])
    | some row => return ⟨row.vcpus, row.memoryMb / mbPerGb, row.diskGb, row.pcieMatch, shape⟩
  | none =>
    match vcpus, memoryGb, diskGb with
    | some c, some m, some d => return { vcpus := c, memoryGb := m, diskGb := d }
    | _, _, _ => .raise (.configuration
        [.text "a full-custom request must supply vcpus, memory_gb, and disk_gb"])
end Kdive
