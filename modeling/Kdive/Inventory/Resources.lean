import Kdive.Domain.Models

/-! # Resources that have gone: `inventory/reconcile_resources.py`, `reconciler/runtime_resources.py`

A resource that left the inventory file, or whose lease has lapsed, is cordoned if an allocation that is not over is on
it, and deleted otherwise. But three foreign keys restrict: allocations refer to the resource they are on and to the one
they have asked for, and the ledger to the one that was charged for, all for ever. So the row of an idle resource that
was ever used or asked for cannot be deleted: the reaper leaves it, and the prune phase raises (`used_resource_stays`).
Both are right for exactly the resources that are in use or that nothing refers to (`removal_iff`).
-/

namespace Kdive.Inventory
open Lib List Table

inductive ManagedBy where
  | config | discovery | runtime
  deriving DecidableEq

structure Resource where
  id : Uuid
  kind : ResourceKind
  name : Option String
  managedBy : ManagedBy
  leaseExpiresAt : Option Time := none
  cordoned : Bool := false
  deriving DecidableEq

instance : Keyed Resource Uuid := ⟨Resource.id⟩

/-- The tables with a foreign key to `resources`. -/
structure Db where
  resources : Table Resource
  allocations : Table Allocation
  ledger : List LedgerEntry

inductive DbError where
  | foreignKeyViolation
  deriving DecidableEq

namespace Db
variable (db : Db)

/-- `_resource_has_live_allocation`. -/
def hasLiveAllocation (id : Uuid) : Bool :=
  db.allocations.rows.any fun a => a.resourceId = some id && !a.state.terminal

/-- A row refers to the resource: `allocations.resource_id` of `0001_init.sql`, `allocations.requested_resource_id`
    of `0016_pending_queue.sql` or `ledger.resource_id` of `0002_accounting.sql`. -/
def isReferenced (id : Uuid) : Bool :=
  db.allocations.rows.any (fun a => a.resourceId = some id || a.requestedResourceId = some id) ||
    db.ledger.any fun e => e.resourceId = some id

/-- The three foreign keys have the default action: they restrict. -/
def deleteResource (id : Uuid) : Except DbError Db :=
  if db.isReferenced id then .error .foreignKeyViolation
  else .ok { db with resources := db.resources.erase id }

/-- `UPDATE resources SET cordoned = true WHERE id = … AND NOT cordoned`. -/
def cordonResource (id : Uuid) : Db :=
  { db with resources := db.resources.modify id (fun r => { r with cordoned := true }) fun _ => rfl }
end Db

/-! ## Pruning and reaping -/

structure PruneOutcome where
  pruned : Bool
  cordoned : Bool
  deriving DecidableEq

/-- The rows a removal is for: those of the owner, of the runtime only with a lapsed lease. -/
def Resource.lapsed (now : Time) (r : Resource) : Bool :=
  r.managedBy = .runtime && r.leaseExpiresAt.any (· < now)

/-- `_prune_or_cordon_runtime_resource`, in its own transaction. -/
def pruneOrCordonRuntimeResource (db : Db) (now : Time) (id : Uuid) : Except DbError (Db × PruneOutcome) :=
  match db.resources.get id with
  | none => .ok (db, ⟨false, false⟩)
  | some r =>
    if !r.lapsed now then .ok (db, ⟨false, false⟩)
    else if db.hasLiveAllocation id then .ok (db.cordonResource id, ⟨false, !r.cordoned⟩)
    else (db.deleteResource id).map (·, ⟨true, false⟩)

/-- One candidate of `reap_expired_runtime_resources`: what it raises is logged, and its transaction gone. -/
def reapOne (now : Time) (acc : Db × Nat) (id : Uuid) : Db × Nat :=
  match pruneOrCordonRuntimeResource acc.1 now id with
  | .error _ => acc
  | .ok (db, outcome) => (db, if outcome.pruned || outcome.cordoned then acc.2 + 1 else acc.2)

def reapExpiredRuntimeResources (db : Db) (now : Time) : Db × Nat :=
  ((db.resources.rows.filter (·.lapsed now)).map (·.id)).foldl (reapOne now) (db, 0)

def pruneOrCordonResource (db : Db) (id : Uuid) : Except DbError (Db × PruneOutcome) :=
  match db.resources.get id with
  | none => .ok (db, ⟨false, false⟩)
  | some r =>
    if r.managedBy ≠ .config then .ok (db, ⟨false, false⟩)
    else if db.hasLiveAllocation id then .ok (db.cordonResource id, ⟨false, true⟩)
    else (db.deleteResource id).map (·, ⟨true, false⟩)

abbrev Declared := List (ResourceKind × String)

def Resource.shownName (r : Resource) : String := r.name.getD "None"

def Resource.departed (declared : Declared) (r : Resource) : Bool :=
  r.managedBy = .config && !declared.any fun d => d = (r.kind, r.shownName)

/-- What the prune phase adds to the diff: the names pruned and cordoned. -/
structure PruneDiff where
  pruned : List String := []
  cordoned : List String := []
  deriving DecidableEq

def PruneDiff.add (diff : PruneDiff) (name : String) (outcome : PruneOutcome) : PruneDiff :=
  if outcome.cordoned then { diff with cordoned := diff.cordoned ++ [name] }
  else if outcome.pruned then { diff with pruned := diff.pruned ++ [name] }
  else diff

def pruneOne (acc : Db × PruneDiff) (r : Resource) : Except DbError (Db × PruneDiff) := do
  let (db, outcome) ← pruneOrCordonResource acc.1 r.id
  return (db, acc.2.add r.shownName outcome)

/-- `_prune_departed`: what one row raises ends the phase. -/
def pruneDeparted (declared : Declared) (db : Db) : Except DbError (Db × PruneDiff) :=
  (db.resources.rows.filter (·.departed declared)).foldlM pruneOne (db, {})

/-! ## One row -/

/-- Deletion is not restricted, or not tried: the resource is in use, or no row refers to it. -/
def Db.removable (db : Db) (id : Uuid) : Bool := db.hasLiveAllocation id || !db.isReferenced id

def Removed (db : Db) (id : Uuid) : Prop := ∀ r, db.resources.get id = some r → r.cordoned = true

/-- Nothing but the one row of `resources` differs. -/
structure Others (db db' : Db) (id : Uuid) : Prop where
  allocations : db'.allocations = db.allocations
  ledger : db'.ledger = db.ledger
  rows : ∀ id', id' ≠ id → db'.resources.get id' = db.resources.get id'

section
variable {db db' : Db} {id : Uuid} {now : Time} {r : Resource}

theorem Others.refl (db : Db) (id : Uuid) : Others db db id := ⟨rfl, rfl, fun _ _ => rfl⟩

theorem Others.removable (h : Others db db' id) (id' : Uuid) : db'.removable id' = db.removable id' := by
  simp only [Db.removable, Db.hasLiveAllocation, Db.isReferenced, h.allocations, h.ledger]

theorem others_cordon (db : Db) (id : Uuid) : Others db (db.cordonResource id) id := by
  refine ⟨rfl, rfl, fun id' hne => ?_⟩
  rw [Db.cordonResource, get_modify_of_ne hne.symm]

theorem removed_cordon (db : Db) (id : Uuid) : Removed (db.cordonResource id) id := by
  intro r hr
  rw [Db.cordonResource, get_modify_self, Option.map_eq_some_iff] at hr
  obtain ⟨r0, -, rfl⟩ := hr
  rfl

theorem deleteResource_ok (h : db.deleteResource id = .ok db') : Others db db' id ∧ Removed db' id := by
  unfold Db.deleteResource at h
  split at h
  · cases h
  · cases h
    refine ⟨⟨rfl, rfl, fun id' hne => ?_⟩, fun r hr => ?_⟩
    · rw [get_erase, if_neg hne.symm]
    · rw [get_erase, if_pos rfl] at hr
      cases hr

theorem deleteResource_isOk (db : Db) (id : Uuid) :
    (∃ db', db.deleteResource id = .ok db') ↔ db.isReferenced id = false := by
  unfold Db.deleteResource
  cases db.isReferenced id
  · exact ⟨fun _ => rfl, fun _ => ⟨_, rfl⟩⟩
  · exact ⟨fun ⟨_, h⟩ => (by cases h), fun h => (by cases h)⟩

/-- The removal that is common to both: cordon what is in use, delete what is not. -/
theorem removal_ok {outcome : PruneOutcome} {cordoned : PruneOutcome}
    (h : (if db.hasLiveAllocation id then .ok (db.cordonResource id, cordoned)
      else (db.deleteResource id).map (·, ⟨true, false⟩)) = Except.ok (db', outcome)) :
    Others db db' id ∧ Removed db' id := by
  split at h
  · cases h
    exact ⟨others_cordon db id, removed_cordon db id⟩
  · cases hdel : db.deleteResource id with
    | error =>
      rw [hdel] at h
      cases h
    | ok =>
      rw [hdel] at h
      cases h
      exact deleteResource_ok hdel

theorem removal_isOk (db : Db) (id : Uuid) (cordoned : PruneOutcome) :
    (∃ res, (if db.hasLiveAllocation id then .ok (db.cordonResource id, cordoned)
      else (db.deleteResource id).map (·, ⟨true, false⟩)) = Except.ok res) ↔
      db.removable id = true := by
  unfold Db.removable
  cases hlive : db.hasLiveAllocation id with
  | true => exact ⟨fun _ => rfl, fun _ => ⟨_, rfl⟩⟩
  | false =>
    have hiff := deleteResource_isOk db id
    rw [Bool.false_or, Bool.not_eq_true']
    rw [← hiff]
    constructor
    · rintro ⟨res, h⟩
      cases hdel : db.deleteResource id with
      | error => simp [hdel, Except.map] at h
      | ok db' => exact ⟨db', rfl⟩
    · rintro ⟨db', h⟩
      exact ⟨_, by rw [h]; rfl⟩

/-! ## Reaping -/

theorem reapOne_of_get (hr : db.resources.get id = some r) (hl : r.lapsed now = true) (n : Nat) :
    Others db (reapOne now (db, n) id).1 id ∧ (db.removable id = true → Removed (reapOne now (db, n) id).1 id) ∧
      (db.removable id = false → (reapOne now (db, n) id).1 = db) := by
  have hdef : pruneOrCordonRuntimeResource db now id =
      if db.hasLiveAllocation id then .ok (db.cordonResource id, ⟨false, !r.cordoned⟩)
      else (db.deleteResource id).map (·, ⟨true, false⟩) := by
    unfold pruneOrCordonRuntimeResource
    rw [hr]
    simp [hl]
  have hisOk := removal_isOk db id ⟨false, !r.cordoned⟩
  rw [← hdef] at hisOk
  unfold reapOne
  cases hprune : pruneOrCordonRuntimeResource db now id with
  | error =>
    refine ⟨.refl db id, fun hrem => ?_, fun _ => rfl⟩
    obtain ⟨res, hres⟩ := hisOk.mpr hrem
    cases hprune.symm.trans hres
  | ok res =>
    obtain ⟨hothers, hremoved⟩ := removal_ok (hdef.symm.trans hprune)
    refine ⟨hothers, fun _ => hremoved, fun hrem => ?_⟩
    rw [hisOk.mp ⟨res, hprune⟩] at hrem
    cases hrem

theorem reap_candidates (db : Db) (now : Time) {ids : List Uuid} (hnodup : ids.Nodup) (n : Nat)
    (hids : ∀ id ∈ ids, ∃ r, db.resources.get id = some r ∧ r.lapsed now = true) :
    (∀ id, id ∉ ids → (ids.foldl (reapOne now) (db, n)).1.resources.get id = db.resources.get id) ∧
      ∀ id ∈ ids, (db.removable id = true → Removed (ids.foldl (reapOne now) (db, n)).1 id) ∧
        (db.removable id = false → (ids.foldl (reapOne now) (db, n)).1.resources.get id = db.resources.get id) := by
  induction ids generalizing db n with
  | nil => exact ⟨fun _ _ => rfl, fun _ hid => (not_mem_nil hid).elim⟩
  | cons id ids ih =>
    obtain ⟨hid, hnodup⟩ := nodup_cons.mp hnodup
    obtain ⟨r, hr, hl⟩ := hids id mem_cons_self
    obtain ⟨hothers, hremoved, hstays⟩ := reapOne_of_get hr hl n
    rw [foldl_cons]
    generalize reapOne now (db, n) id = res at hothers hremoved hstays
    obtain ⟨db1, n1⟩ := res
    have hne : ∀ id' ∈ ids, id' ≠ id := fun id' hid' heq => hid (heq ▸ hid')
    obtain ⟨hout, hin⟩ := ih db1 hnodup n1 fun id' hid' => by
      rw [hothers.rows id' (hne id' hid')]
      exact hids id' (mem_cons_of_mem _ hid')
    refine ⟨fun id' hid' => ?_, fun id' hid' => ?_⟩
    · rw [hout id' fun h => hid' (mem_cons_of_mem _ h),
        hothers.rows id' fun h => hid' (h ▸ mem_cons_self)]
    · rcases mem_cons.mp hid' with rfl | hid'
      · refine ⟨fun hrem => ?_, fun hrem => ?_⟩
        · unfold Removed
          rw [hout id' hid]
          exact hremoved hrem
        · rw [hout id' hid]
          exact congrArg (·.resources.get id') (hstays hrem)
      · have hin' := hin id' hid'
        rwa [hothers.removable, hothers.rows id' (hne id' hid')] at hin'

/-! ## Pruning -/

theorem pruneOne_of_get (diff : PruneDiff) (hr : db.resources.get r.id = some r)
    (hc : r.managedBy = .config) : ((∃ res, pruneOne (db, diff) r = .ok res) ↔ db.removable r.id = true) ∧
      ∀ res, pruneOne (db, diff) r = .ok res → Others db res.1 r.id ∧ Removed res.1 r.id := by
  have hdef : pruneOrCordonResource db r.id =
      if db.hasLiveAllocation r.id then .ok (db.cordonResource r.id, ⟨false, true⟩)
      else (db.deleteResource r.id).map (·, ⟨true, false⟩) := by
    unfold pruneOrCordonResource
    rw [hr]
    simp [hc]
  have hisOk := removal_isOk db r.id ⟨false, true⟩
  rw [← hdef] at hisOk
  rw [← hisOk]
  unfold pruneOne
  cases hprune : pruneOrCordonResource db r.id with
  | error =>
    exact ⟨⟨fun ⟨_, h⟩ => (by cases h), fun ⟨_, h⟩ => (by cases h)⟩, fun _ h => (by cases h)⟩
  | ok =>
    refine ⟨⟨fun _ => ⟨_, rfl⟩, fun _ => ⟨_, rfl⟩⟩, fun res' h => ?_⟩
    cases h
    exact removal_ok (hdef.symm.trans hprune)

theorem prune_rows (db : Db) {rows : List Resource} (hnodup : (rows.map (·.id)).Nodup) (diff : PruneDiff)
    (hrows : ∀ r ∈ rows, db.resources.get r.id = some r ∧ r.managedBy = .config) :
    ((∃ res, rows.foldlM pruneOne (db, diff) = .ok res) ↔ ∀ r ∈ rows, db.removable r.id = true) ∧
      ∀ res, rows.foldlM pruneOne (db, diff) = .ok res →
        (∀ id, (∀ r ∈ rows, r.id ≠ id) → res.1.resources.get id = db.resources.get id) ∧
        ∀ r ∈ rows, Removed res.1 r.id := by
  induction rows generalizing db diff with
  | nil =>
    refine ⟨⟨fun _ _ hr => (not_mem_nil hr).elim, fun _ => ⟨_, rfl⟩⟩, fun res h => ?_⟩
    cases h
    exact ⟨fun _ _ => rfl, fun _ hr => (not_mem_nil hr).elim⟩
  | cons r rows ih =>
    rw [map_cons, nodup_cons] at hnodup
    obtain ⟨hr, hc⟩ := hrows r mem_cons_self
    obtain ⟨hisOk, hone⟩ := pruneOne_of_get diff hr hc
    have hne : ∀ r' ∈ rows, r'.id ≠ r.id := fun r' hr' heq =>
      hnodup.1 (heq ▸ mem_map.mpr ⟨r', hr', rfl⟩)
    rw [foldlM_cons]
    cases hprune : pruneOne (db, diff) r with
    | error =>
      have hnot : ¬ db.removable r.id = true := by
        rw [← hisOk, hprune]
        rintro ⟨res, h⟩
        cases h
      exact ⟨⟨fun ⟨_, h⟩ => (by cases h), fun hall => (hnot (hall r mem_cons_self)).elim⟩,
        fun _ h => (by cases h)⟩
    | ok res =>
      obtain ⟨db1, diff1⟩ := res
      obtain ⟨hothers, hremoved⟩ := hone _ hprune
      obtain ⟨hiff, hres⟩ := ih db1 hnodup.2 diff1 fun r' hr' => by
        rw [hothers.rows r'.id (hne r' hr')]
        exact hrows r' (mem_cons_of_mem _ hr')
      refine ⟨?_, fun res h => ?_⟩
      · have hself : db.removable r.id = true := hisOk.mp ⟨_, hprune⟩
        show (∃ res, rows.foldlM pruneOne (db1, diff1) = .ok res) ↔ _
        rw [hiff, forall_mem_cons]
        simp only [hothers.removable, hself, true_and]
      · obtain ⟨hout, hin⟩ := hres res h
        refine ⟨fun id hid => ?_, fun r' hr' => ?_⟩
        · rw [hout id fun r' hr' => hid r' (mem_cons_of_mem _ hr'),
            hothers.rows id (hid r mem_cons_self).symm]
        · rcases mem_cons.mp hr' with rfl | hr'
          · unfold Removed
            rwa [hout r'.id fun r'' hr'' => hne r'' hr'']
          · exact hin r' hr'
end

/-! ## Both -/

/-- Every resource of the runtime whose lease has lapsed is gone or cordoned after the reaper. -/
def ReaperRemoves (db : Db) (now : Time) : Prop :=
  ∀ id r, db.resources.get id = some r → r.lapsed now = true → Removed (reapExpiredRuntimeResources db now).1 id

/-- The prune phase does not raise, and every config resource that left the file is gone or cordoned. -/
def PruneRemoves (declared : Declared) (db : Db) : Prop :=
  ∃ res, pruneDeparted declared db = .ok res ∧
    ∀ id r, db.resources.get id = some r → r.departed declared = true → Removed res.1 id

/-- Reaper and prune remove all that is to go exactly if each is in use or nothing refers to it. -/
theorem removal_iff (db : Db) (now : Time) (declared : Declared) :
    (ReaperRemoves db now ↔ ∀ id r, db.resources.get id = some r → r.lapsed now = true →
      db.removable id = true ∨ r.cordoned = true) ∧
    (PruneRemoves declared db ↔ ∀ id r, db.resources.get id = some r → r.departed declared = true →
      db.removable id = true) := by
  constructor
  · have hnodup : ((db.resources.rows.filter (·.lapsed now)).map (·.id)).Nodup :=
      db.resources.nodup.sublist (List.filter_sublist.map _)
    obtain ⟨-, hin⟩ := reap_candidates db now hnodup 0 fun id hid => by
      obtain ⟨r, hr, rfl⟩ := List.mem_map.mp hid
      obtain ⟨hr, hl⟩ := List.mem_filter.mp hr
      exact ⟨r, get_key_of_mem hr, hl⟩
    have hmem : ∀ {id r}, db.resources.get id = some r → r.lapsed now = true →
        id ∈ (db.resources.rows.filter (·.lapsed now)).map (·.id) := fun hr hl =>
      List.mem_map.mpr ⟨_, List.mem_filter.mpr ⟨mem_of_get hr, hl⟩, key_eq_of_get hr⟩
    constructor
    · intro h id r hr hl
      cases hrem : db.removable id with
      | true => exact .inl rfl
      | false =>
        have hstays := (hin id (hmem hr hl)).2 hrem
        exact .inr (h id r hr hl r (hstays.trans hr))
    · intro h id r hr hl
      cases hrem : db.removable id with
      | true => exact (hin id (hmem hr hl)).1 hrem
      | false =>
        have hcordoned := (h id r hr hl).resolve_left (by rw [hrem]; exact nofun)
        intro r' hr'
        rw [show (reapExpiredRuntimeResources db now).1.resources.get id = _ from
          (hin id (hmem hr hl)).2 hrem, hr, Option.some.injEq] at hr'
        exact hr' ▸ hcordoned
  · have hrows : ∀ r ∈ db.resources.rows.filter (·.departed declared),
        db.resources.get r.id = some r ∧ r.managedBy = .config := by
      intro r hr
      obtain ⟨hr, hd⟩ := List.mem_filter.mp hr
      simp only [Resource.departed, Bool.and_eq_true, decide_eq_true_eq] at hd
      exact ⟨get_key_of_mem hr, hd.1⟩
    have hnodup : ((db.resources.rows.filter (·.departed declared)).map (·.id)).Nodup :=
      db.resources.nodup.sublist (List.filter_sublist.map _)
    obtain ⟨hiff, hres⟩ := prune_rows db hnodup {} hrows
    have hmem : ∀ {id r}, db.resources.get id = some r → r.departed declared = true →
        r ∈ db.resources.rows.filter (·.departed declared) ∧ r.id = id := fun hr hd =>
      ⟨List.mem_filter.mpr ⟨mem_of_get hr, hd⟩, key_eq_of_get hr⟩
    constructor
    · rintro ⟨res, hok, -⟩ id r hr hd
      obtain ⟨hin, rfl⟩ := hmem hr hd
      exact hiff.mp ⟨res, hok⟩ r hin
    · intro h
      obtain ⟨res, hok⟩ := hiff.mpr fun r hr => by
        obtain ⟨hin, hd⟩ := List.mem_filter.mp hr
        exact h r.id r (get_key_of_mem hin) hd
      refine ⟨res, hok, fun id r hr hd => ?_⟩
      obtain ⟨hin, rfl⟩ := hmem hr hd
      exact (hres res hok).2 r hin

namespace Lab
def runtimeHost : Resource where
  id := 1
  kind := .remoteLibvirt
  name := some "lent"
  managedBy := .runtime
  leaseExpiresAt := some 5

def configHost : Resource := { runtimeHost with
  id := 2, name := some "old", managedBy := .config, leaseExpiresAt := none }

def released (id resourceId : Uuid) : Allocation where
  id := id
  createdAt := 0
  updatedAt := 1
  principal := "user"
  project := "kernel"
  resourceId := some resourceId
  state := .released

/-- Two resources that are to go, each of which was used once. -/
def used : Db where
  resources := ⟨[runtimeHost, configHost], by decide⟩
  allocations := ⟨[released 10 1, released 11 2], by decide⟩
  ledger := []
end Lab

/-- What was used once is neither deleted nor cordoned, and stops the prune. -/
theorem used_resource_stays :
    (reapExpiredRuntimeResources Lab.used 10).1.resources.get 1 = some Lab.runtimeHost ∧
      Lab.runtimeHost.cordoned = false ∧
      pruneDeparted [] Lab.used = .error .foreignKeyViolation := by
  refine ⟨by decide, rfl, ?_⟩
  rfl
end Kdive.Inventory
