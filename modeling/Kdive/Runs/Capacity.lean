import Kdive.Runs.Basic
import Kdive.Spec.Origin

/-! # Hosts, quotas and devices, in every run

Three counts are bounded: the allocations on a host, a project's allocations, and its queued requests. Each is checked
by a statement of its own and the row is inserted by a later one; what makes the check hold at the commit is the guard
of the action, in the state the action is performed in.
-/

namespace Kdive
open Lib Option Bool Table Kdive.Action Lab

def slots (c : Db) (host : Uuid) : Int :=
  match (c.resources.get host).map resolveCap with
  | some (.ok cap) => cap
  | _ => 0

def quotaOf (cap : Quota → Int) (c : Db) (project : String) : Int :=
  ((c.quotas.get project).map cap).getD 0

structure WithinCaps (c : Db) : Prop where
  hosts : ∀ r, (countOccupying c r : Int) ≤ slots c r
  grants : ∀ p, (countOccupyingOf c p : Int) ≤ quotaOf (·.maxConcurrentAllocations) c p
  pending : ∀ p, (countRequestedOf c p : Int) ≤ quotaOf (·.maxPendingAllocations) c p

theorem resolveCap_nonneg {host : Resource} {cap : Int} (h : resolveCap host = .ok cap) : 0 ≤ cap := by
  unfold resolveCap at h
  split at h
  · split at h
    · cases h
    · cases h
      omega
  · cases h

theorem slots_nonneg (c : Db) (host : Uuid) : 0 ≤ slots c host := by
  unfold slots
  split
  · rename_i cap hcap
    obtain ⟨r, -, hr⟩ := map_eq_some_iff.mp hcap
    exact resolveCap_nonneg hr
  · exact le_refl 0

theorem resolveCap_uncordoned (host : Resource) : resolveCap host.uncordoned = resolveCap host := rfl

theorem Rely.slots_eq {fixed : String → Prop} {H : List LockKey} {c c' : Db}
    (h : Rely fixed H c c') (host : Uuid) : slots c' host = slots c host := by
  have hsame := congrArg (Option.map resolveCap) (h.resources host)
  simp only [map_map, Function.comp_def, resolveCap_uncordoned] at hsame
  rw [slots, slots, hsame]

theorem HostRoom.lt_slots {c : Db} {host : Uuid} {claim : List PCIeClaim}
    (h : HostRoom c host claim) : (countOccupying c host : Int) < slots c host := by
  obtain ⟨r, cap, hr, hcap, hlt⟩ := h.below
  rwa [slots, hr, map_some, hcap]

theorem QuotaRoom.lt_quotaOf {cap : Quota → Int} {count : Db → String → Nat} {c : Db}
    {project : String} (h : QuotaRoom cap count c project) : (count c project : Int) < quotaOf cap c project := by
  obtain ⟨q, hq, hlt⟩ := h
  rwa [quotaOf, hq]

variable {fixed : String → Prop} {a : Action} {c : Db}

section
variable (hg : a.guard fixed c)
include hg

/-- A count of rows through an action, from what is said of a row that continues another, is placed or
    is queued. -/
theorem Action.countP_gain {f : Allocation → Bool} {R : Prop}
    (hcontinues : ∀ old new, Continues old new → f new = true → f old = true)
    (hplaced : ∀ new host, Placed c new host → f new = true → R)
    (henqueued : ∀ new, Enqueued c new → f new = true → R) :
    (a.on c).allocations.rows.countP f ≤ c.allocations.rows.countP f ∨
    (R ∧ (a.on c).allocations.rows.countP f ≤ c.allocations.rows.countP f + 1) := by
  refine Table.countP_gain (k := a.target) ?_
  intro new hmem hf
  cases Action.rowOrigin hg (get_key_of_mem hmem) with
  | continues old hold h =>
    exact .inl ⟨old, mem_of_get hold, key_eq_of_get hold, hcontinues old new h hf⟩
  | placed host hid _ h => exact .inr ⟨hid, hplaced new host h hf⟩
  | enqueued hid h => exact .inr ⟨hid, henqueued new h hf⟩

theorem countOccupying_act {r : Uuid} (h : (countOccupying c r : Int) ≤ slots c r) :
    (countOccupying (a.on c) r : Int) ≤ slots c r := by
  have hgain := countP_gain (f := fun x => x.resourceId = some r && x.state.occupying)
    (R := (countOccupying c r : Int) < slots c r) hg ?_ ?_ ?_
  · unfold countOccupying at h ⊢ hgain
    rcases hgain with hle | ⟨hroom, hle⟩ <;> omega
  · intro old new hcont hnew
    simp only [and_eq_true, decide_eq_true_eq] at hnew ⊢
    exact ⟨hcont.resourceId.trans hnew.1, hcont.occupying hnew.2⟩
  · intro new host hplaced hnew
    simp only [and_eq_true, decide_eq_true_eq, hplaced.resourceId, some.injEq] at hnew
    exact hnew.1 ▸ hplaced.room.lt_slots
  · intro new henq hnew
    simp [henq.resourceId] at hnew

theorem countOccupyingOf_act {p : String}
    (h : (countOccupyingOf c p : Int) ≤ quotaOf (·.maxConcurrentAllocations) c p) :
    (countOccupyingOf (a.on c) p : Int) ≤ quotaOf (·.maxConcurrentAllocations) c p := by
  have hgain := countP_gain (f := fun x => x.project = p && x.state.occupying)
    (R := (countOccupyingOf c p : Int) < quotaOf (·.maxConcurrentAllocations) c p) hg ?_ ?_ ?_
  · unfold countOccupyingOf at h ⊢ hgain
    rcases hgain with hle | ⟨hroom, hle⟩ <;> omega
  · intro old new hcont hnew
    simp only [and_eq_true, decide_eq_true_eq] at hnew ⊢
    exact ⟨hcont.project.trans hnew.1, hcont.occupying hnew.2⟩
  · intro new host hplaced hnew
    simp only [and_eq_true, decide_eq_true_eq] at hnew
    exact hnew.1 ▸ hplaced.quota.lt_quotaOf
  · intro new henq hnew
    simp [henq.state, AllocationState.occupying] at hnew

theorem countRequestedOf_act {p : String} (h : (countRequestedOf c p : Int) ≤ quotaOf (·.maxPendingAllocations) c p) :
    (countRequestedOf (a.on c) p : Int) ≤ quotaOf (·.maxPendingAllocations) c p := by
  have hgain := countP_gain (f := fun x => x.project = p && x.state == .requested)
    (R := (countRequestedOf c p : Int) < quotaOf (·.maxPendingAllocations) c p) hg ?_ ?_ ?_
  · unfold countRequestedOf at h ⊢ hgain
    rcases hgain with hle | ⟨hroom, hle⟩ <;> omega
  · intro old new hcont hnew
    simp only [and_eq_true, decide_eq_true_eq, beq_iff_eq] at hnew ⊢
    exact ⟨hcont.project.trans hnew.1, hcont.requested hnew.2⟩
  · intro new host hplaced hnew
    simp [hplaced.state] at hnew
  · intro new henq hnew
    simp only [and_eq_true, decide_eq_true_eq] at hnew
    exact hnew.1 ▸ henq.quota.lt_quotaOf
end

theorem WithinCaps.act (h : WithinCaps c) (hg : a.guard fixed c) : WithinCaps (a.on c) := by
  have hrely := rely_nil hg
  refine ⟨?_, ?_, ?_⟩
  · intro r
    rw [hrely.slots_eq]
    exact countOccupying_act hg (h.hosts r)
  · intro p
    rw [quotaOf, hrely.quotas]
    exact countOccupyingOf_act hg (h.grants p)
  · intro p
    rw [quotaOf, hrely.quotas]
    exact countRequestedOf_act hg (h.pending p)

theorem Fresh.withinCaps {db : Db} (h : Fresh db) : WithinCaps db := by
  have hquota : ∀ cap : Quota → Int, (∀ p q, db.quotas.get p = some q → 0 ≤ cap q) → ∀ p, 0 ≤ quotaOf cap db p := by
    intro cap hcap p
    unfold quotaOf
    cases hq : db.quotas.get p with
    | none => exact le_refl 0
    | some q => exact hcap p q hq
  refine ⟨?_, ?_, ?_⟩
  · intro r
    rw [countOccupying, h.allocations]
    exact slots_nonneg db r
  · intro p
    rw [countOccupyingOf, h.allocations]
    exact hquota _ (fun p q hq => (h.quotas p q hq).1) p
  · intro p
    rw [countRequestedOf, h.allocations]
    exact hquota _ (fun p q hq => (h.quotas p q hq).2) p

/-- **In every committed state no host has more allocations than its cap, and no project more
    allocations, or more queued requests, than its quota**; a host without a cap and a project without
    a quota have none. -/
theorem within_caps {cfg : Config} {s : Sys store} (h : Reachable cfg s) :
    (∀ r host cap, s.db.resources.get r = some host → resolveCap host = .ok cap → (countOccupying s.db r : Int) ≤ cap) ∧
    (∀ p q, s.db.quotas.get p = some q → (countOccupyingOf s.db p : Int) ≤ q.maxConcurrentAllocations ∧
      (countRequestedOf s.db p : Int) ≤ q.maxPendingAllocations) ∧
    (∀ r, (∀ host cap, s.db.resources.get r = some host → resolveCap host ≠ .ok cap) → countOccupying s.db r = 0) ∧
    (∀ p, s.db.quotas.get p = none → countOccupyingOf s.db p = 0 ∧ countRequestedOf s.db p = 0) := by
  have hcaps : WithinCaps s.db :=
    h.always (fun _ hfresh => hfresh.withinCaps) fun a c _ hJ hg => hJ.act hg
  refine ⟨?_, ?_, ?_, ?_⟩
  · intro r host cap hr hcap
    have hle := hcaps.hosts r
    rwa [slots, hr, map_some, hcap] at hle
  · intro p q hq
    have hgrants := hcaps.grants p
    have hpending := hcaps.pending p
    rw [quotaOf, hq] at hgrants hpending
    exact ⟨hgrants, hpending⟩
  · intro r hnone
    have hle := hcaps.hosts r
    have hzero : slots s.db r = 0 := by
      unfold slots
      split
      · rename_i cap hcap
        obtain ⟨host, hhost, hok⟩ := map_eq_some_iff.mp hcap
        exact absurd hok (hnone host cap hhost)
      · rfl
    omega
  · intro p hnone
    have hgrants := hcaps.grants p
    have hpending := hcaps.pending p
    rw [quotaOf, hnone] at hgrants hpending
    simp only [map_none, getD_none] at hgrants hpending
    omega

theorem within_caps_queued :
    (countOccupying (scripted {} db queued).db 1 = 2 ∧
      (countOccupying (scripted {} db queued).db 1 : Int) ≤ 2) ∧
    countRequestedOf (scripted {} db queued).db "kernel" = 1 ∧
      (countRequestedOf (scripted {} db queued).db "kernel" : Int) ≤ 1 := by
  have hreach : Reachable {} (scripted {} db queued) := reachable_scripted fresh _
  have hcaps := within_caps hreach
  obtain ⟨host, hhost, hcap⟩ : ∃ host, (scripted {} db queued).db.resources.get 1 = some host ∧
      (resolveCap host).toOption = some 2 := map_eq_some_iff.mp (by decide +kernel)
  obtain ⟨q, hq, hpending⟩ : ∃ q, (scripted {} db queued).db.quotas.get "kernel" = some q ∧
      q.maxPendingAllocations = 1 := map_eq_some_iff.mp (by decide +kernel)
  have hok : resolveCap host = .ok 2 := by
    cases hr : resolveCap host with
    | error =>
      rw [hr] at hcap
      cases hcap
    | ok =>
      rw [hr] at hcap
      cases hcap
      rfl
  exact ⟨⟨by decide +kernel, hcaps.1 1 host 2 hhost hok⟩, by decide +kernel, hpending ▸ (hcaps.2.1 "kernel" q hq).2⟩

/-! ## Devices -/

/-- On a host no two allocations in use share a device, and none lists one twice. -/
structure DevicesApart (c : Db) (r : Uuid) : Prop where
  between : ∀ id id' a a', id ≠ id' → c.allocations.get id = some a →
    c.allocations.get id' = some a' → holdsDevices a r = true → holdsDevices a' r = true →
    ∀ x ∈ a.pcieClaim, ∀ y ∈ a'.pcieClaim, x.bdf ≠ y.bdf
  within : ∀ id a, c.allocations.get id = some a → a.resourceId = some r → (a.pcieClaim.map (·.bdf)).Nodup

def DistinctBdfs (c : Db) (r : Uuid) : Prop :=
  ∃ host, c.resources.get r = some host ∧ ((descriptorsFor host).map (·.bdf)).Nodup

theorem holdsDevices_iff {a : Allocation} {r : Uuid} :
    holdsDevices a r = true ↔ a.resourceId = some r ∧ a.state.terminal = false := by
  simp [holdsDevices]

variable {r : Uuid}

theorem Action.distinctBdfs (hg : a.guard fixed c) (h : DistinctBdfs (a.on c) r) : DistinctBdfs c r := by
  obtain ⟨host, hhost, hnodup⟩ := h
  have hsame := (rely_nil hg).resources r
  rw [hhost, map_some] at hsame
  obtain ⟨host', hhost', heq⟩ := map_eq_some_iff.mp hsame.symm
  have hcaps : host'.capabilities = host.capabilities := congrArg (·.capabilities) heq
  refine ⟨host', hhost', ?_⟩
  rwa [descriptorsFor, hcaps]

/-- A row in use on the host held its devices before, or claims devices that no other row holds. -/
theorem Action.devices_cases (hg : a.guard fixed c) {id : Uuid} {new : Allocation}
    (hnew : (a.on c).allocations.get id = some new) (hdev : holdsDevices new r = true) :
    (∃ old, c.allocations.get id = some old ∧ holdsDevices old r = true ∧ old.pcieClaim = new.pcieClaim) ∨
    (a.target = some id ∧ HostRoom c r new.pcieClaim) := by
  obtain ⟨hhost, hlive⟩ := holdsDevices_iff.mp hdev
  cases Action.rowOrigin hg hnew with
  | continues old hold h =>
    exact .inl ⟨old, hold, holdsDevices_iff.mpr ⟨h.resourceId.trans hhost, h.terminal hlive⟩, h.pcieClaim⟩
  | placed host hid _ h =>
    rw [h.resourceId, some.injEq] at hhost
    exact .inr ⟨hid, hhost ▸ h.room⟩
  | enqueued hid h =>
    rw [h.resourceId] at hhost
    cases hhost

theorem DevicesApart.act (h : DevicesApart c r) (hd : DistinctBdfs c r) (hg : a.guard fixed c) :
    DevicesApart (a.on c) r := by
  refine ⟨?_, ?_⟩
  · intro id id' x x' hne hx hx' hdev hdev' y hy z hz
    rcases devices_cases hg hx hdev with ⟨old, hold, hdev0, hclaim⟩ | ⟨hid, hroom⟩
    · rcases devices_cases hg hx' hdev' with ⟨old', hold', hdev0', hclaim'⟩ | ⟨hid', hroom'⟩
      · exact h.between id id' old old' hne hold hold' hdev0 hdev0' y (hclaim ▸ hy) z (hclaim' ▸ hz)
      · exact (hroom'.free id old hold hdev0 z hz y (hclaim ▸ hy)).symm
    · rcases devices_cases hg hx' hdev' with ⟨old', hold', hdev0', hclaim'⟩ | ⟨hid', -⟩
      · exact hroom.free id' old' hold' hdev0' y hy z (hclaim' ▸ hz)
      · -- an action places one row
        rw [hid, some.injEq] at hid'
        exact absurd hid' hne
  · intro id x hx hhost
    cases Action.rowOrigin hg hx with
    | continues old hold hcont =>
      rw [← hcont.pcieClaim]
      exact h.within id old hold (hcont.resourceId.trans hhost)
    | placed host hid _ hplaced =>
      rw [hplaced.resourceId, some.injEq] at hhost
      obtain ⟨row, hrow, hnodup⟩ := hd
      exact hplaced.room.distinct row (hhost ▸ hrow) hnodup
    | enqueued hid henq =>
      rw [henq.resourceId] at hhost
      cases hhost

/-- **On a host whose descriptors have distinct BDFs no two allocations in use ever share one, and
    within a claim each appears once.** -/
theorem devices_apart {cfg : Config} {s : Sys store} (h : Reachable cfg s) {r : Uuid}
    {host : Resource} (hhost : s.db.resources.get r = some host)
    (hdistinct : ((descriptorsFor host).map (·.bdf)).Nodup) :
    (∀ id id' a a', id ≠ id' → s.db.allocations.get id = some a →
      s.db.allocations.get id' = some a' → a.resourceId = some r → a'.resourceId = some r →
      a.state.terminal = false → a'.state.terminal = false →
      ∀ x ∈ a.pcieClaim, ∀ y ∈ a'.pcieClaim, x.bdf ≠ y.bdf) ∧
    (∀ id a, s.db.allocations.get id = some a → a.resourceId = some r → (a.pcieClaim.map (·.bdf)).Nodup) := by
  have hJ : DistinctBdfs s.db r → DevicesApart s.db r := by
    refine h.always (J := fun c => DistinctBdfs c r → DevicesApart c r) ?_ ?_
    · intro db hfresh _
      refine ⟨?_, ?_⟩
      · intro id id' a a' _ ha
        rw [hfresh.get_allocation] at ha
        cases ha
      · intro id a ha
        rw [hfresh.get_allocation] at ha
        cases ha
    · intro a c _ hc hg hd
      have hd' := Action.distinctBdfs hg hd
      exact (hc hd').act hd' hg
  have hapart := hJ ⟨host, hhost, hdistinct⟩
  refine ⟨?_, hapart.within⟩
  intro id id' a a' hne ha ha' hr hr' hlive hlive'
  exact hapart.between id id' a a' hne ha ha' (holdsDevices_iff.mpr ⟨hr, hlive⟩) (holdsDevices_iff.mpr ⟨hr', hlive'⟩)

theorem devices_apart_full :
    ∃ a a', (scripted {} db full).db.allocations.get 10 = some a ∧
      (scripted {} db full).db.allocations.get 11 = some a' ∧
      a.pcieClaim.length = 1 ∧ a'.pcieClaim.length = 1 ∧
      ∀ x ∈ a.pcieClaim, ∀ y ∈ a'.pcieClaim, x.bdf ≠ y.bdf := by
  obtain ⟨host, hhost, hnodup⟩ : ∃ host, (scripted {} db full).db.resources.get 1 = some host ∧
      decide ((descriptorsFor host).map (·.bdf)).Nodup = true :=
    map_eq_some_iff.mp (by decide +kernel)
  have hrow : ∀ id : Uuid, id = 10 ∨ id = 11 → ∃ a, (scripted {} db full).db.allocations.get id = some a ∧
      (a.resourceId, a.state.terminal, a.pcieClaim.length) = (some 1, false, 1) := by
    intro id hid
    rcases hid with rfl | rfl <;> exact map_eq_some_iff.mp (by decide +kernel)
  obtain ⟨a, ha, hrest⟩ := hrow 10 (.inl rfl)
  obtain ⟨a', ha', hrest'⟩ := hrow 11 (.inr rfl)
  simp only [Prod.mk.injEq] at hrest hrest'
  refine ⟨a, a', ha, ha', hrest.2.2, hrest'.2.2, ?_⟩
  exact (devices_apart (reachable_scripted fresh full) hhost (of_decide_eq_true hnodup)).1 10 11
    a a' (by decide) ha ha' hrest.1 hrest'.1 hrest.2.1 hrest'.2.1
end Kdive
