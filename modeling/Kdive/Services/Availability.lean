import Kdive.Lib.Solo
import Kdive.Services.Admission

/-! # What fits now: `mcp/tools/catalog/availability.py`

The tool reads the whole fleet in one snapshot, takes a bad cap for none where admission raises, and asks `resolve_spec`
where admission matches. They agree on every host (`fitsNow_exact`).
-/

namespace Kdive.Availability
open List Lib Lib.Prog

def resolveCap (resource : Resource) : Option Int :=
  match Json.get? resource.capabilities concurrentAllocationCapKey with
  | some (.int cap) => if cap < 0 then none else some cap
  | _ => none

/-- The count of a host's group, `0` where there is none. -/
def occupancyByResource (v : Db) (resourceId : Uuid) : Nat :=
  v.allocations.rows.countP fun a => a.resourceId = some resourceId && a.state.occupying

def claimsByResource (v : Db) (resourceId : Uuid) : List PCIeClaim :=
  (v.allocations.rows.filter fun a => !a.state.terminal && a.pcieClaim ≠ []).flatMap fun a =>
    if a.resourceId = some resourceId then a.pcieClaim else []

def freeDescriptors (resource : Resource) (claims : List PCIeClaim) : List PCIeDescriptor :=
  unclaimed (descriptorsFor resource) claims

def shapeFits (shape : SystemShape) (schedulable : Bool) (headroom : Int) (free : List PCIeDescriptor) :
    Except Err Bool :=
  if !schedulable || headroom < 1 then .ok false
  else match shape.pcieMatch with
    | none => .ok true
    | some spec => (resolveSpec spec free []).map (·.outcome == .matched)

/-- `_shape_fits`, as `_host_item` calls it. -/
def fitsNow (v : Db) (resource : Resource) (shape : SystemShape) : Except Err Bool :=
  let cap := resolveCap resource
  shapeFits shape (cap.isSome && resource.status == .available && !resource.cordoned)
    ((cap.map fun cap => max (cap - (occupancyByResource v resource.id : Int)) 0).getD 0)
    (freeDescriptors resource (claimsByResource v resource.id))

variable {resource : Resource} {v db : Db} {l : Conn store} {host : Nat → Host} {clock : Time} {n : Nat}

theorem resolveCap_eq_some {cap : Int} : resolveCap resource = some cap ↔ Kdive.resolveCap resource = .ok cap := by
  unfold resolveCap Kdive.resolveCap
  rcases Json.get? resource.capabilities concurrentAllocationCapKey with _ | _ | _ | cap <;> grind

theorem claimsByResource_eq (id : Uuid) :
    claimsByResource v id = (v.allocations.rows.filter (holdsDevices · id)).flatMap (·.pcieClaim) := by
  unfold claimsByResource
  induction v.allocations.rows with
  | nil => rfl
  | cons a rows ih =>
    simp only [filter_cons, holdsDevices]
    by_cases a.resourceId = some id <;> by_cases a.state.terminal = true <;> by_cases a.pcieClaim = [] <;>
      simp_all [holdsDevices]

theorem hostCapCheck_passes : ((hostCapCheck resource).solo host clock l db n).result = .ok none ↔
    ∃ cap, resolveCap resource = some cap ∧ occupancyByResource (l.view db) resource.id < cap := by
  simp only [hostCapCheck, solo_bind, resolveCap_eq_some]
  cases Kdive.resolveCap resource with
  | error => simp [Prog.ofExcept, solo, andThen]
  | ok cap =>
    simp only [Prog.ofExcept, solo, andThen, solo_select, solo_bind]
    split <;> simp_all [solo_pure, occupancyByResource, countOccupying]

theorem resolvePcieClaim_passes {request : AllocationRequest} {spec : String} (hspecs : request.pcieSpecs = [spec]) :
    (∃ claims, ((resolvePcieClaim request).solo host clock l db n).result = .ok ⟨none, claims⟩) ↔
      (resolveUnion [spec] (descriptorsFor request.resource) (claimsByResource (l.view db) request.resource.id)).map
        (·.outcome == .matched) = .ok true := by
  simp only [resolvePcieClaim, hspecs, claimsByResource_eq, activeClaims, solo_bind, solo_select, andThen, cons_ne_nil,
    if_false]
  cases resolveUnion [spec] _ _ with
  | error => simp [Prog.ofExcept, solo, Except.map]
  | ok resolution => cases h : resolution.outcome <;> simp [Prog.ofExcept, solo, Except.map, h, solo_pure]

/-- **A shape fits on a host exactly where it is open and admission's checks of it, in that state, deny nothing.** -/
theorem fitsNow_exact (request : AllocationRequest) (shape : SystemShape) (host : Nat → Host) (clock : Time)
    (l : Conn store) (db : Db) (n : Nat) : fitsNow (l.view db) request.resource shape = .ok true ↔
      Placement.schedulable request.resource = true ∧
      ((hostCapCheck request.resource).solo host clock l db n).result = .ok none ∧
      ∃ claims, ((resolvePcieClaim { request with pcieSpecs := shape.pcieMatch.toList }).solo host clock l db n).result
        = .ok ⟨none, claims⟩ := by
  rw [hostCapCheck_passes, fitsNow, shapeFits]
  cases resolveCap request.resource with
  | none => simp
  | some cap =>
    have hroom : max (cap - (occupancyByResource (l.view db) request.resource.id : Int)) 0 < 1 ↔
        ¬ (occupancyByResource (l.view db) request.resource.id : Int) < cap := by omega
    cases hshape : shape.pcieMatch with
    | none => simpa [hroom, Placement.schedulable, resolvePcieClaim, solo_pure] using fun _ => and_comm
    | some spec =>
      rw [resolvePcieClaim_passes rfl, ← resolveSpec_unclaimed]
      simp only [Placement.schedulable, freeDescriptors]
      split <;> grind
end Kdive.Availability
