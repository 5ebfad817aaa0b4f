import Kdive.Domain.Cost
import Kdive.Lib.Machine

/-! # The size a System is stored with

An Allocation is billed for the size it was requested with. `systems.define` and `systems.provision` store a profile
with that size (`_stored_profile_for`); `systems.reprovision` stores the new profile as it is (`reprovision_resizes`).
What is stored has the size of its Allocation in every run in which a reprovision is given a profile that the create
lane would store unchanged (`stored_size_of_careful`).
-/

namespace Kdive.Sizing
open Lib Function

/-- A provisioning profile: its sizes, and the rest of the document. -/
structure Profile where
  vcpu : Option Int := none
  memoryMb : Option Int := none
  diskGb : Option Int := none
  document : String := ""
  deriving DecidableEq

structure AllocationSizing where
  vcpu : Int
  memoryMb : Int
  diskGb : Int
  deriving DecidableEq

namespace Profile
variable (profile : Profile)

def sizes : List (String × Option Int) :=
  [("vcpu", profile.vcpu), ("memory_mb", profile.memoryMb), ("disk_gb", profile.diskGb)]

/-- `ProvisioningProfile.parse`: a size is absent, or above zero. -/
def parse : Except Err Profile :=
  if profile.sizes.all fun field => field.2.all (0 < ·) then .ok profile
  else .error (.configuration [.text "invalid provisioning profile"])

def requireConcreteSizing : Except Err Unit :=
  match (profile.sizes.filter (·.2.isNone)).map (·.1) with
  | [] => .ok ()
  | missing => .error (.configuration [.text "provisioning profile is missing required sizing: ", .list missing]
      [("missing", .list missing)])

def reconcileField (field : String) (submitted : Option Int) (resolved : Int) : Except Err Int :=
  if submitted.all (· = resolved) then .ok resolved
  else .error (.configuration [.text "provisioning profile ", .text field, .text "=", .int (submitted.getD 0),
    .text " conflicts with the allocation's resolved size ", .int resolved]
    [("field", .text field), ("resolved", .int resolved)])

/-- `reconcile_profile_sizing`. -/
def reconcile (sizing : AllocationSizing) : Except Err Profile := do
  let vcpu ← reconcileField "vcpu" profile.vcpu sizing.vcpu
  let memoryMb ← reconcileField "memory_mb" profile.memoryMb sizing.memoryMb
  let diskGb ← reconcileField "disk_gb" profile.diskGb sizing.diskGb
  return { profile with vcpu := some vcpu, memoryMb := some memoryMb, diskGb := some diskGb }

def HasSize (sizing : AllocationSizing) : Prop :=
  profile.vcpu = some sizing.vcpu ∧ profile.memoryMb = some sizing.memoryMb ∧ profile.diskGb = some sizing.diskGb
end Profile

def snapshot (alloc : Allocation) : Option AllocationSizing :=
  match alloc.requestedVcpus, alloc.requestedMemoryGb, alloc.requestedDiskGb with
  | some vcpu, some memoryGb, some diskGb => some ⟨vcpu, memoryGb * mbPerGb, diskGb⟩
  | _, _, _ => none

def storedProfileFor (profile : Profile) (alloc : Allocation) : Except Err Profile :=
  match snapshot alloc with
  | some sizing => profile.reconcile sizing >>= Profile.parse
  | none => do
    let parsed ← profile.parse
    parsed.requireConcreteSizing
    return parsed

/-! ## Who writes a profile -/

structure Row where
  allocationId : Uuid
  state : SystemState
  profile : Profile

structure State where
  allocations : Uuid → Option Allocation
  systems : Uuid → Option Row

/-- A committed transaction on a row of `systems` or `allocations`. Only two write a profile. -/
inductive Move where
  /-- An Allocation is requested; the sizes it is requested with are not written again. -/
  | requests (id : Uuid) (alloc : Allocation)
  /-- `systems.define` or `systems.provision`. -/
  | creates (id allocationId : Uuid) (profile : Profile) (state : SystemState)
  /-- `systems.reprovision`. -/
  | reprovisions (id : Uuid) (profile : Profile)
  /-- `systems.provision_defined`, a worker, the reconciler: another state. -/
  | moves (id : Uuid) (state : SystemState)

def State.put (s : State) (id : Uuid) (row : Row) : State :=
  { s with systems := update s.systems id (some row) }

def State.step (s : State) : Move → Option State
  | .requests id alloc =>
    if (s.allocations id).isSome then none
    else some { s with allocations := update s.allocations id (some alloc) }
  | .creates id allocationId profile state =>
    match s.systems id, s.allocations allocationId with
    | none, some alloc =>
      match storedProfileFor profile alloc with
      | .ok stored =>
        if state = .defined ∨ state = .provisioning then some (s.put id ⟨allocationId, state, stored⟩) else none
      | .error _ => none
    | _, _ => none
  | .reprovisions id profile =>
    match s.systems id, profile.parse with
    | some row, .ok parsed =>
      if row.state = .ready then some (s.put id { row with state := .reprovisioning, profile := parsed }) else none
    | _, _ => none
  | .moves id state => (s.systems id).map fun row => s.put id { row with state }

def systems : Machine where
  State := State
  Move := Move
  init s := ∀ id, s.systems id = none
  step := State.step

/-! ## The stored size -/

/-- Concrete, and the snapshot's if there is one. -/
def Sized (alloc : Option Allocation) (profile : Profile) : Prop :=
  (∃ sizing, profile.HasSize sizing) ∧ ∀ sizing, alloc.bind snapshot = some sizing → profile.HasSize sizing

/-- A reprovision is given what the create lane would store unchanged. -/
def careful (s : State) : Move → Bool
  | .reprovisions id profile => (s.systems id).all fun row => (s.allocations row.allocationId).all fun alloc =>
      (storedProfileFor profile alloc).toOption = some profile
  | _ => true

theorem reconcileField_ok {field : String} {submitted : Option Int} {resolved n : Int}
    (h : Profile.reconcileField field submitted resolved = .ok n) : n = resolved := by
  unfold Profile.reconcileField at h
  split at h
  · cases h; rfl
  · cases h

theorem parse_ok {profile parsed : Profile} (h : profile.parse = .ok parsed) : parsed = profile := by
  unfold Profile.parse at h
  split at h
  · cases h; rfl
  · cases h

theorem hasSize_of_concrete {profile : Profile} (h : profile.requireConcreteSizing = .ok ()) :
    ∃ sizing, profile.HasSize sizing := by
  unfold Profile.requireConcreteSizing Profile.sizes at h
  cases hv : profile.vcpu with
  | none => simp [hv] at h
  | some v =>
    cases hm : profile.memoryMb with
    | none => simp [hv, hm] at h
    | some m =>
      cases hd : profile.diskGb with
      | none => simp [hv, hm, hd] at h
      | some d => exact ⟨⟨v, m, d⟩, hv, hm, hd⟩

theorem sized_of_stored {profile stored : Profile} {alloc : Allocation}
    (h : storedProfileFor profile alloc = .ok stored) : Sized (some alloc) stored := by
  unfold storedProfileFor at h
  cases hsnap : snapshot alloc with
  | some sizing =>
    simp only [hsnap, Profile.reconcile] at h
    cases hv : Profile.reconcileField "vcpu" profile.vcpu sizing.vcpu with
    | error => simp [hv, bind, Except.bind] at h
    | ok =>
      cases hm : Profile.reconcileField "memory_mb" profile.memoryMb sizing.memoryMb with
      | error => simp [hv, hm, bind, Except.bind] at h
      | ok =>
        cases hd : Profile.reconcileField "disk_gb" profile.diskGb sizing.diskGb with
        | error => simp [hv, hm, hd, bind, Except.bind] at h
        | ok =>
          rw [hv, hm, hd] at h
          have hsize : stored.HasSize sizing := by
            rw [parse_ok h]
            exact ⟨congrArg some (reconcileField_ok hv), congrArg some (reconcileField_ok hm),
              congrArg some (reconcileField_ok hd)⟩
          refine ⟨⟨sizing, hsize⟩, fun sizing' hs => ?_⟩
          cases hsnap.symm.trans hs
          exact hsize
  | none =>
    simp only [hsnap] at h
    cases hp : profile.parse with
    | error => rw [hp] at h; cases h
    | ok parsed =>
      cases hc : parsed.requireConcreteSizing with
      | error => simp [hp, hc, bind, Except.bind] at h
      | ok =>
        simp only [hp, hc, bind, Except.bind, pure, Except.pure] at h
        cases h
        exact ⟨hasSize_of_concrete hc, fun sizing hs => by cases hsnap.symm.trans hs⟩

def Kept (s : State) : Prop :=
  ∀ id row, s.systems id = some row → ∃ alloc, s.allocations row.allocationId = some alloc ∧
    Sized (some alloc) row.profile

theorem Kept.put {s : State} (h : Kept s) {id : Uuid} {row : Row} {alloc : Allocation}
    (halloc : s.allocations row.allocationId = some alloc) (hsized : Sized (some alloc) row.profile) :
    Kept (s.put id row) := by
  intro k r hr
  have hr : update s.systems id (some row) k = some r := hr
  rcases eq_or_ne k id with rfl | hk
  · rw [update_self, Option.some.injEq] at hr
    subst hr
    exact ⟨alloc, halloc, hsized⟩
  · rw [update_of_ne hk] at hr
    exact h k r hr

theorem Kept.step {s s' : State} {m : Move} (h : Kept s) (hok : careful s m = true)
    (hs : s.step m = some s') : Kept s' := by
  cases m with
  | requests id alloc =>
    simp only [State.step] at hs
    split at hs
    · cases hs
    · rename_i hnone
      cases hs
      intro k row hk
      obtain ⟨a, ha, hsized⟩ := h k row hk
      refine ⟨a, (update_of_ne (fun heq => hnone ?_) _ _).trans ha, hsized⟩
      rw [← heq, ha]
      rfl
  | creates id allocationId profile state =>
    simp only [State.step] at hs
    split at hs
    · rename_i alloc _ halloc
      split at hs
      · rename_i stored hstored
        split at hs
        · cases hs
          exact h.put halloc (sized_of_stored hstored)
        · cases hs
      · cases hs
    · cases hs
  | reprovisions id profile =>
    simp only [State.step] at hs
    split at hs
    · rename_i row parsed hrow hparse
      split at hs
      · cases hs
        obtain ⟨alloc, halloc, -⟩ := h id row hrow
        rw [careful, hrow, Option.all_some, halloc, Option.all_some, decide_eq_true_eq] at hok
        refine h.put halloc ?_
        rw [parse_ok hparse]
        cases hstored : storedProfileFor profile alloc with
        | error => rw [hstored] at hok; cases hok
        | ok =>
          rw [hstored] at hok
          cases hok
          exact sized_of_stored hstored
      · cases hs
    · cases hs
  | moves id =>
    obtain ⟨row, hrow, rfl⟩ := Option.map_eq_some_iff.mp hs
    obtain ⟨alloc, halloc, hsized⟩ := h id row hrow
    exact h.put halloc hsized

/-- A System has the size of its allocation, if `reprovision` is careful. -/
theorem stored_size_of_careful {s : State} (h : systems.ReachBy (fun s m => careful s m = true) s)
    {id : Uuid} {row : Row}
    (hrow : s.systems id = some row) : Sized (s.allocations row.allocationId) row.profile := by
  have hkept : Kept s := h.always (I := Kept) (fun s hinit id row hrow => by cases (hinit id).symm.trans hrow)
    fun s m s' _ hok hI hs => hI.step hok hs
  obtain ⟨alloc, halloc, hsized⟩ := hkept id row hrow
  rwa [halloc]

namespace Lab
def alloc : Allocation where
  id := 10
  createdAt := 0
  updatedAt := 0
  principal := "dev"
  project := "kernel"
  state := .granted
  requestedVcpus := some 2
  requestedMemoryGb := some 4
  requestedDiskGb := some 10

def start : State := ⟨fun _ => none, fun _ => none⟩

def created : List Move := [.requests 10 alloc, .creates 20 10 {} .provisioning, .moves 20 .ready]

def restated : State := systems.runTo start
  (created ++ [.reprovisions 20 { vcpu := some 2, memoryMb := some 4096, diskGb := some 10 }])

def resized : State := systems.runTo start (created ++ [.reprovisions 20 { vcpu := some 8 }])
end Lab

theorem stored_size_of_restated :
    (Lab.restated.systems 20).map (·.state) = some .reprovisioning ∧ ∀ row, Lab.restated.systems 20 = some row →
      Sized (Lab.restated.allocations row.allocationId) row.profile := by
  have hleads : systems.Leads (fun s m => careful s m = true) Lab.start Lab.restated :=
    Machine.leads_runTo (by decide +kernel)
  exact ⟨by decide +kernel, fun row hrow =>
    stored_size_of_careful ((Machine.ReachBy.init fun _ => rfl).leads hleads) hrow⟩

/-- A reprovisioned System of another size than its allocation. -/
theorem reprovision_resizes : systems.Reach Lab.resized ∧
    (Lab.resized.allocations 10).bind snapshot = some ⟨2, 4096, 10⟩ ∧
    (Lab.resized.systems 20).map (fun row => (row.allocationId, row.state, row.profile)) =
      some (10, .reprovisioning, { vcpu := some 8 }) :=
  ⟨Machine.reach_runTo (fun _ => rfl) _, by decide +kernel, by decide +kernel⟩
end Kdive.Sizing
