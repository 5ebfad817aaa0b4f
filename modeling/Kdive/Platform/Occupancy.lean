import Kdive.Platform.Reach
import Kdive.Runs.Capacity
import Kdive.Spec.Lifecycle

/-! # One System to an allocation, one Run to a System, one session to a transport

None of the three is a constraint of the schema. Each is a count, read in one statement and relied on in a
later one, and it holds in every committed state because the transaction that adds a row holds the lock
under which the count was read: the project's for Systems, the System's for Runs and sessions.
-/

namespace Kdive.Platform
open Lib hiding Ready
open Act Write Option List Bool Table Kdive.Action Kdive.Platform.Lab TableWrite Runs

def systemsOf (c : Db) (allocationId : Uuid) : Nat :=
  c.systems.rows.countP (·.allocationId = allocationId)

/-- One System for an active allocation, none before it is active. -/
structure Housed (c : Db) : Prop where
  single : ∀ id, systemsOf c id ≤ 1
  idle : ∀ id, stateOf c id = some .requested ∨ stateOf c id = some .granted → systemsOf c id = 0
  active : ∀ id, stateOf c id = some .active → systemsOf c id = 1
  within : ∀ p, (countSystemsOf c p : Int) ≤ quotaOf (·.maxConcurrentSystems) c p

theorem systemsOf_eq_zero {c : Db} {allocationId : Uuid} : systemsOf c allocationId = 0 ↔
      ∀ id s, c.systems.get id = some s → s.allocationId ≠ allocationId := by
  unfold systemsOf
  rw [countP_eq_zero]
  constructor
  · intro h id s hs
    simpa using h s (mem_of_get hs)
  · intro h s hs
    simpa using h _ s (get_key_of_mem hs)

/-- What every step leaves a System: its owner, and its end. -/
structure SystemKept (s s' : System) : Prop where
  allocation : s.allocationId = s'.allocationId
  project : s.project = s'.project
  terminal : s'.state.terminal = false → s.state.terminal = false

theorem SystemKept.refl (s : System) : SystemKept s s := ⟨rfl, rfl, id⟩

def Act.activates (allocationId : Uuid) (s : System) (a : Act) : Prop :=
  ∃ row now created activated, a = .core (.activate row s now created activated) ∧ row.id = allocationId

variable {a : Act} {c : store.Db}

variable {id : Uuid}

theorem eq_or_patched {α : Type} {p : Prop} [Decidable p] {row : Option α} {f : α → α} {x : α}
    (h : (if p then row.map f else row) = some x) : row = some x ∨ ∃ y, p ∧ row = some y ∧ x = f y := by
  split at h
  next hp =>
    obtain ⟨y, hy, rfl⟩ := map_eq_some_iff.mp h
    exact .inr ⟨y, hp, hy, rfl⟩
  next => exact .inl h

theorem get_patched {id' : Uuid} {p : SystemPatch} {s' : System}
    (h : (store.applyAll [.inl (.patchSystem id p)] c).1.systems.get id' = some s') :
    c.1.systems.get id' = some s' ∨ ∃ s, id = id' ∧ c.1.systems.get id' = some s ∧ s' = p.apply s :=
  eq_or_patched (((Write.patchSystem id p).get_systems c.1 id').symm.trans h)

variable {s : System}

theorem SystemPatch.kept {p : SystemPatch}
    (h : (p.apply s).state.terminal = false → s.state.terminal = false) : SystemKept s (p.apply s) :=
  ⟨by cases p <;> rfl, by cases p <;> rfl, h⟩

theorem Act.systemOrigin (hg : a.guard c) {s' : System} (h : (a.on c).1.systems.get id = some s') :
    (∃ s, c.1.systems.get id = some s ∧ SystemKept s s') ∨
      (c.1.systems.get id = none ∧ a.activates s'.allocationId s') := by
  cases a with
  | core a =>
    rw [on, writes, applyAll_inl, a.get_systems_writes] at h
    rcases a.onSystem_cases id (c.1.systems.get id) with hrow | ⟨row, s, now, created, activated, rfl,
      hid, hnone, hrow⟩ | ⟨s, name, stamp, audit, rfl, hrow, hnew⟩ | ⟨s, audit, rfl, hrow, hnew⟩
    · exact .inl ⟨s', hrow.symm.trans h, .refl s'⟩
    · cases h.symm.trans hrow
      exact .inr ⟨hnone, row, now, created, activated, rfl, hg.backs.symm⟩
    · rw [h, some.injEq] at hnew
      refine .inl ⟨s, hrow, hnew ▸ SystemPatch.kept fun _ => ?_⟩
      obtain ⟨s0, hs0, hstate, -⟩ := hg.provisioning
      rw [hrow, some.injEq] at hs0
      rw [hs0, hstate]
      rfl
    · rw [h, some.injEq] at hnew
      exact .inl ⟨s, hrow, hnew ▸ SystemPatch.kept (by rintro ⟨⟩)⟩
  | system id' m =>
    rcases get_patched h with h | ⟨s, rfl, hs, rfl⟩
    · exact .inl ⟨s', h, .refl s'⟩
    · refine .inl ⟨s, hs, SystemPatch.kept fun _ => ?_⟩
      obtain ⟨⟨s0, hs0, hold⟩, -⟩ := hg
      rw [hs, some.injEq] at hs0
      rw [hs0, hold]
      cases m <;> rfl
  | profile =>
    rcases get_patched h with h | ⟨s, rfl, hs, rfl⟩
    · exact .inl ⟨s', h, .refl s'⟩
    · exact .inl ⟨s, hs, SystemPatch.kept id⟩
  | _ => exact .inl ⟨s', h, .refl s'⟩

def Act.newSystem : Act → Option Uuid
  | .core (.activate _ s _ _ _) => some s.id
  | _ => none

theorem Act.systemsOf_le (hg : a.guard c) (allocationId : Uuid) :
    systemsOf (a.on c).1 allocationId ≤ systemsOf c.1 allocationId ∨ ((∃ s, a.activates allocationId s) ∧
      systemsOf (a.on c).1 allocationId ≤ systemsOf c.1 allocationId + 1) := by
  refine countP_gain (k := a.newSystem) ?_
  intro s' hs' hp
  rcases systemOrigin hg (get_key_of_mem hs') with ⟨s0, hs0, hkept⟩ | ⟨-, hnew⟩
  · refine .inl ⟨s0, mem_of_get hs0, key_eq_of_get hs0, ?_⟩
    simpa [hkept.allocation] using hp
  · refine .inr ⟨?_, s', of_decide_eq_true hp ▸ hnew⟩
    obtain ⟨_, _, _, _, rfl, -⟩ := hnew
    rfl

theorem Act.activates.state {allocationId : Uuid} (h : a.activates allocationId s)
    (hg : a.guard c) : stateOf c.1 allocationId = some .granted ∧ stateOf (a.on c).1 allocationId = some .active := by
  obtain ⟨row, now, created, activated, rfl, rfl⟩ := h
  have hcore : (activate row s now created activated).guard noneFixed c.1 := hg
  obtain ⟨a0, ha0, -, -⟩ := hcore.current.get
  refine ⟨by rw [hcore.current.stateOf, hcore.state], ?_⟩
  rw [on, writes, applyAll_inl, stateOf, get_allocations_target hcore rfl, ha0]
  simp [becomes]

theorem Act.active_cases (hg : a.guard c) (h : stateOf (a.on c).1 id = some .active) :
    stateOf c.1 id = some .active ∨ ∃ s, a.activates id s := by
  cases a with
  | core a =>
    have hcore : a.guard noneFixed c.1 := hg
    rw [on, writes, applyAll_inl] at h
    by_cases hid : a.target = some id
    · rw [stateOf, get_allocations_target hcore hid] at h
      unfold stateOf
      cases a with
      | activate row s now created activated =>
        exact .inr ⟨s, row, now, created, activated, rfl, by simpa using hid⟩
      | grant | enqueue => simp [becomes, hcore.state] at h
      | promote =>
        simp [becomes] at h
      | unqueue =>
        rcases hcore.target with rfl | rfl <;> simp [becomes] at h
      | renew =>
        rw [becomes, Option.map_map] at h
        exact .inl (by simpa [Function.comp_def] using h)
      | settle row closing =>
        cases closing <;> simp [becomes] at h
      | ready system domainName stamp =>
        cases stamp with
        | none => exact .inl h
        | some =>
          rw [becomes, Option.map_map] at h
          exact .inl (by simpa [Function.comp_def] using h)
      | _ => cases hid
    · rw [stateOf, get_allocations_of_ne hid] at h
      exact .inl h
  | _ => exact .inl h

theorem Act.idle_cases (hi : Sound c) (hg : a.guard c) (h : stateOf (a.on c).1 id = some .requested ∨
      stateOf (a.on c).1 id = some .granted) :
    stateOf c.1 id = none ∨ stateOf c.1 id = some .requested ∨ stateOf c.1 id = some .granted := by
  cases a with
  | core =>
    rw [on, writes, applyAll_inl] at h
    rcases lifecycle hi.core hg id with ⟨hsame, -⟩ | ⟨new, posted, hlife, hnew, -⟩
    · exact .inr (hsame ▸ h)
    · simp only [hnew, some.injEq] at h
      generalize stateOf c.1 id = old at hlife
      cases hlife with
      | settled _ hn => rcases hn with rfl | rfl <;> simp at h
      | unqueued => exact .inr (.inl rfl)
      | activated => simp at h
      | renewed | stamped => simpa using h
      | _ => simp
  | _ => exact .inr h

theorem Act.activates.get {allocationId : Uuid} (h : a.activates allocationId s)
    (hg : a.guard c) : (a.on c).1.systems.get s.id = some s ∧ s.allocationId = allocationId := by
  obtain ⟨row, now, created, activated, rfl, rfl⟩ := h
  have hcore : (activate row s now created activated).guard noneFixed c.1 := hg
  refine ⟨?_, hcore.backs⟩
  rw [on, writes, applyAll_inl, get_systems_writes, hcore.fresh]
  simp [Action.onSystem, Write.onSystem]

def Act.newRunId : Act → Option Uuid
  | .newRun r => some r.id
  | _ => none

def Act.newSessionId : Act → Option Uuid
  | .newSession _ x => some x.id
  | _ => none

theorem Act.countSystemsOf_le (hg : a.guard c) {p : String}
    (h : (countSystemsOf c.1 p : Int) ≤ quotaOf (·.maxConcurrentSystems) c.1 p) :
    (countSystemsOf (a.on c).1 p : Int) ≤ quotaOf (·.maxConcurrentSystems) c.1 p := by
  have hgain : countSystemsOf (a.on c).1 p ≤ countSystemsOf c.1 p ∨
      (SystemRoom c.1 p ∧ countSystemsOf (a.on c).1 p ≤ countSystemsOf c.1 p + 1) := by
    refine countP_gain (k := a.newSystem) ?_
    intro s' hs' hp
    simp only [and_eq_true, decide_eq_true_eq, not_eq_true'] at hp
    rcases systemOrigin hg (get_key_of_mem hs') with ⟨s0, hs0, hk⟩ | ⟨-, hnew⟩
    · refine .inl ⟨s0, mem_of_get hs0, key_eq_of_get hs0, ?_⟩
      simp [hk.project, hp.1, hk.terminal hp.2]
    · obtain ⟨row, now, created, activated, rfl, -⟩ := hnew
      have hcore : (activate row s' now created activated).guard noneFixed c.1 := hg
      refine .inr ⟨rfl, ?_⟩
      rw [← hp.1, hcore.project]
      exact hcore.quota
  rcases hgain with hle | ⟨hroom, hle⟩
  · omega
  · have hlt := hroom.lt_quotaOf
    omega

/-- **Every step keeps Systems and allocations together.** -/
theorem Housed.act (hi : Sound c) (h : Housed c.1) (hg : a.guard c) : Housed (a.on c).1 := by
  have hrely := (Rely.act hg (H := []) (by simp)).core
  have single : ∀ id, systemsOf (a.on c).1 id ≤ 1 := by
    intro id
    rcases systemsOf_le hg id with hle | ⟨⟨s, hact⟩, hle⟩
    · exact hle.trans (h.single id)
    · rwa [h.idle id (.inr (hact.state hg).1)] at hle
  refine ⟨single, ?_, ?_, ?_⟩
  · intro id hst
    have hbefore : systemsOf c.1 id = 0 := by
      rcases idle_cases hi hg hst with hnone | hidle
      · refine systemsOf_eq_zero.mpr fun sid s hs hid => ?_
        obtain ⟨alloc, halloc, -⟩ := hi.core.systems sid s hs
        simp [stateOf, ← hid, halloc] at hnone
      · exact h.idle id hidle
    rcases systemsOf_le hg id with hle | ⟨⟨s, hact⟩, -⟩
    · omega
    · have hactive := (hact.state hg).2
      simp [hactive] at hst
  · intro id hst
    have hsome : systemsOf (a.on c).1 id ≠ 0 := by
      intro hzero
      rw [systemsOf_eq_zero] at hzero
      rcases active_cases hg hst with hactive | ⟨s, hact⟩
      · -- the System it had is still there
        have hone : ¬ systemsOf c.1 id = 0 := by
          rw [h.active id hactive]
          exact one_ne_zero
        rw [systemsOf_eq_zero] at hone
        push Not at hone
        obtain ⟨sid, s, hs, hid⟩ := hone
        obtain ⟨s', hs', hsame⟩ := (hrely.systems sid).persists s hs
        exact hzero sid s' hs' (hsame.trans hid)
      · obtain ⟨hget, hid⟩ := hact.get hg
        exact hzero s.id s hget hid
    have hle := single id
    omega
  · intro p
    rw [quotaOf, hrely.quotas]
    exact countSystemsOf_le hg (h.within p)

theorem Fresh.housed {db : store.Db} (h : Fresh db) : Housed db.1 := by
  have hnone : ∀ id, systemsOf db.1 id = 0 := by
    intro id
    rw [systemsOf, h.core.systems]
    rfl
  refine ⟨fun id => by rw [hnone]; exact Nat.zero_le _, fun id _ => hnone id, ?_, ?_⟩
  · intro id hst
    simp [stateOf, h.core.get_allocation] at hst
  · intro p
    have hzero : countSystemsOf db.1 p = 0 := by
      rw [countSystemsOf, h.core.systems]
      rfl
    rw [hzero, quotaOf]
    cases hq : db.1.quotas.get p with
    | none => exact le_refl _
    | some q => exact h.quotas p q hq

/-- **Systems and allocations in every committed state**: at most one System to an allocation, none to one
    that is requested or granted, exactly one to one that is active; and no more of a project that are not
    over than its quota. -/
theorem systems_of_allocations {cfg : Config} {s : Sys store} (h : Reachable cfg s) : Housed s.db.1 :=
  h.always (J := fun c => Housed c.1) (fun _ hfresh => hfresh.housed) (fun _ _ hi hJ hg => Housed.act hi hJ hg)

theorem systems_of_allocations_ready :
    stateOf (scripted {} db ready).db.1 10 = some .active ∧ Housed (scripted {} db ready).db.1 :=
  ⟨by decide +kernel, systems_of_allocations (reachable_scripted fresh ready)⟩

/-! ## Runs -/

/-- At most one live Run on a System, none while it is reprovisioned. -/
structure OneRun (c : store.Db) : Prop where
  single : ∀ systemId, liveRunsOf c.2 systemId ≤ 1
  reprovisioning : ∀ id s, c.1.systems.get id = some s → s.state = .reprovisioning → liveRunsOf c.2 id = 0

def Hosted (c : store.Db) : Prop :=
  ∀ id r, c.2.runs.get id = some r → (c.1.systems.get r.systemId).isSome

theorem liveRunsOf_eq_zero {c : store.Db} {systemId : Uuid} : liveRunsOf c.2 systemId = 0 ↔ NoLiveRun c systemId := by
  unfold liveRunsOf
  rw [countP_eq_zero]
  constructor
  · intro h id r hr hsys
    simpa [hsys] using h r (mem_of_get hr)
  · intro h r hr
    by_cases hsys : r.systemId = systemId
    · simp [h _ r (get_key_of_mem hr) hsys]
    · simp [hsys]

theorem get_patchedRun {id' : Uuid} {p : RunPatch} {r' : Run}
    (h : (store.applyAll [.inr (.patchRun id p)] c).2.runs.get id' = some r') :
    c.2.runs.get id' = some r' ∨ ∃ r, id = id' ∧ c.2.runs.get id' = some r ∧ r' = p.apply r :=
  eq_or_patched (((TableWrite.patchRun id p).get_runs c.2 id').symm.trans h)

/-- What every step leaves a Run. -/
structure RunKept (r r' : Run) : Prop where
  system : r.systemId = r'.systemId
  live : r'.state.live = true → r.state.live = true
  project : r.project = r'.project
  investigation : r.investigationId = r'.investigationId

theorem RunKept.refl (r : Run) : RunKept r r := ⟨rfl, id, rfl, rfl⟩

theorem Act.runOrigin (hg : a.guard c) {r' : Run} (h : (a.on c).2.runs.get id = some r') :
    (∃ r, c.2.runs.get id = some r ∧ RunKept r r') ∨ a = .newRun r' := by
  have hpatched : ∀ {id' : Uuid} {p : RunPatch}, (∃ r, c.2.runs.get id' = some r ∧ RunMoves r p.target) →
      (store.applyAll [.inr (.patchRun id' p)] c).2.runs.get id = some r' →
      (∃ r, c.2.runs.get id = some r ∧ RunKept r r') ∨ a = .newRun r' := by
    rintro id' p ⟨r, hr, hmoves⟩ h
    rcases get_patchedRun h with h | ⟨r0, rfl, hr0, rfl⟩
    · exact .inl ⟨r', h, .refl r'⟩
    · rw [hr0, some.injEq] at hr
      subst hr
      refine .inl ⟨r0, hr0, (p.systemId_apply r0).symm, ?_, (p.project_apply r0).symm,
        (p.investigationId_apply r0).symm⟩
      rw [p.state_apply]
      exact hmoves.live
  cases a with
  | core =>
    rw [on, writes, applyAll_inl] at h
    exact .inl ⟨r', h, .refl r'⟩
  | newRun =>
    rcases get_insert_cases h with h | ⟨rfl, -⟩
    · exact .inl ⟨r', h, .refl r'⟩
    · exact .inr rfl
  | run =>
    obtain ⟨r, hr, -, hmoves⟩ := hg
    exact hpatched ⟨r, hr, hmoves⟩ h
  | repairRun id' category =>
    obtain ⟨r, hr, hrunning⟩ := hg
    exact hpatched (p := .failed category) ⟨r, hr, runMoves_failed hrunning⟩ h
  | _ => exact .inl ⟨r', h, .refl r'⟩

theorem Hosted.act (h : Hosted c) (hg : a.guard c) : Hosted (a.on c) := by
  have hrely := (Rely.act hg (H := []) (by simp)).core
  intro id r' hr'
  have hbefore : (c.1.systems.get r'.systemId).isSome := by
    rcases runOrigin hg hr' with ⟨r, hr, hsys, -⟩ | rfl
    · exact hsys ▸ h id r hr
    · obtain ⟨s, hs, -⟩ := hg.ready
      rw [hs]
      rfl
  obtain ⟨s, hs⟩ := isSome_iff_exists.mp hbefore
  obtain ⟨s', hs', -⟩ := (hrely.systems _).persists s hs
  rw [hs']
  rfl

theorem Act.liveRunsOf_le (hg : a.guard c) (systemId : Uuid) :
    liveRunsOf (a.on c).2 systemId ≤ liveRunsOf c.2 systemId ∨ ((∃ r, a = .newRun r ∧ r.systemId = systemId) ∧
      liveRunsOf (a.on c).2 systemId ≤ liveRunsOf c.2 systemId + 1) := by
  refine countP_gain (k := a.newRunId) ?_
  intro r' hr' hp
  simp only [and_eq_true, decide_eq_true_eq] at hp
  rcases runOrigin hg (get_key_of_mem hr') with ⟨r, hr, hsys, hlive⟩ | rfl
  · refine .inl ⟨r, mem_of_get hr, key_eq_of_get hr, ?_⟩
    simp [hsys, hp.1, hlive hp.2]
  · exact .inr ⟨rfl, r', rfl, hp.1⟩

theorem Act.reprovisioning_cases (hhosted : Hosted c) (hg : a.guard c) {s' : System}
    (h : (a.on c).1.systems.get id = some s') (hstate : s'.state = .reprovisioning) :
    (∃ s, c.1.systems.get id = some s ∧ s.state = .reprovisioning) ∨ NoLiveRun c id := by
  cases a with
  | core a =>
    rw [on, writes, applyAll_inl, a.get_systems_writes] at h
    rcases a.onSystem_cases id (c.1.systems.get id) with hrow | ⟨row, s, now, created, activated, rfl,
      hid, hnone, hrow⟩ | ⟨s, name, stamp, audit, rfl, hrow, hnew⟩ | ⟨s, audit, rfl, hrow, hnew⟩
    · exact .inl ⟨s', hrow.symm.trans h, hstate⟩
    · -- the System is new, and no Run is on it
      refine .inr fun runId r hr hsys => ?_
      have hsome := hhosted runId r hr
      rw [hsys, hnone] at hsome
      cases hsome
    all_goals
      rw [h, some.injEq] at hnew
      rw [hnew] at hstate
      cases hstate
  | system id' m =>
    rcases get_patched h with h | ⟨s, rfl, hs, rfl⟩
    · exact .inl ⟨s', h, hstate⟩
    · exact .inr (hg.2 ((m.state_patch s).symm.trans hstate))
  | profile =>
    rcases get_patched h with h | ⟨s, rfl, hs, rfl⟩
    · exact .inl ⟨s', h, hstate⟩
    · exact .inl ⟨s, hs, hstate⟩
  | _ => exact .inl ⟨s', h, hstate⟩

/-- **Every step keeps Runs and Systems together.** -/
theorem OneRun.act (h : OneRun c) (hhosted : Hosted c) (hg : a.guard c) : OneRun (a.on c) := by
  refine ⟨?_, ?_⟩
  · intro systemId
    rcases liveRunsOf_le hg systemId with hle | ⟨⟨r, rfl, rfl⟩, hle⟩
    · exact hle.trans (h.single systemId)
    · rwa [liveRunsOf_eq_zero.mpr hg.single] at hle
  · intro id s' hs' hstate
    have hbefore : liveRunsOf c.2 id = 0 := by
      rcases reprovisioning_cases hhosted hg hs' hstate with ⟨s, hs, hold⟩ | hnone
      · exact h.reprovisioning id s hs hold
      · exact liveRunsOf_eq_zero.mpr hnone
    rcases liveRunsOf_le hg id with hle | ⟨⟨r, rfl, rfl⟩, -⟩
    · omega
    · -- a Run is created on a System that is ready
      obtain ⟨s, hs, hready⟩ := hg.ready
      have hsame : c.1.systems.get r.systemId = some s' := hs'
      rw [hsame, some.injEq] at hs
      rw [hs, hready] at hstate
      cases hstate

theorem Fresh.oneRun {db : store.Db} (h : Fresh db) : OneRun db := by
  have hnone : ∀ id, liveRunsOf db.2 id = 0 := by
    intro id
    rw [liveRunsOf, h.runs]
    rfl
  exact ⟨fun id => by rw [hnone]; exact Nat.zero_le _, fun id _ _ _ => hnone id⟩

theorem Fresh.hosted {db : store.Db} (h : Fresh db) : Hosted db := by
  intro id r hr
  rw [h.get_run] at hr
  cases hr

/-- **Runs and Systems in every committed state**: at most one Run of a System is created or running, and
    none while the System is reprovisioning. -/
theorem one_run_per_system {cfg : Config} {s : Sys store} (h : Reachable cfg s) : OneRun s.db :=
  (h.always (J := fun c => OneRun c ∧ Hosted c) (fun _ hfresh => ⟨hfresh.oneRun, hfresh.hosted⟩)
    (fun _ _ _ hJ hg => ⟨hJ.1.act hJ.2 hg, hJ.2.act hg⟩)).1

theorem one_run_per_system_created :
    liveRunsOf (scripted {} db (run .external)).db.2 20 = 1 ∧
      OneRun (scripted {} db (run .external)).db :=
  ⟨by decide +kernel, one_run_per_system (reachable_scripted fresh _)⟩

/-! ## Debug sessions -/

def occupantsOf (c : store.Db) (systemId : Uuid) (transport : DebugTransport) : Nat :=
  c.2.sessions.rows.countP fun x => x.occupies && x.transport = transport &&
    (c.2.runs.get x.runId).any (·.systemId = systemId)

variable {x' : DebugSession}

theorem get_setSession {id' : Uuid} {st : DebugSessionState}
    (h : (store.applyAll [.inr (.setSession id st)] c).2.sessions.get id' = some x') :
    c.2.sessions.get id' = some x' ∨ ∃ x, id = id' ∧ c.2.sessions.get id' = some x ∧ x' = { x with state := st } :=
  eq_or_patched (((TableWrite.setSession id st).get_sessions c.2 id').symm.trans h)

/-- What every step leaves a session: one that has given up its transport does not take it again. -/
structure SessionKept (x x' : DebugSession) : Prop extends SameSession x x' where
  occupies : x'.occupies = true → x.occupies = true

theorem SessionKept.refl (x : DebugSession) : SessionKept x x := ⟨.refl x, id⟩

theorem Act.sessionOrigin (hg : a.guard c) (h : (a.on c).2.sessions.get id = some x') :
    (∃ x, c.2.sessions.get id = some x ∧ SessionKept x x') ∨ ∃ systemId, a = .newSession systemId x' := by
  have hset : ∀ {id' : Uuid} {st : DebugSessionState}, (∃ x, c.2.sessions.get id' = some x ∧ x.occupies = true) →
      (store.applyAll [.inr (.setSession id' st)] c).2.sessions.get id = some x' →
      (∃ x, c.2.sessions.get id = some x ∧ SessionKept x x') ∨ ∃ systemId, a = .newSession systemId x' := by
    rintro id' st ⟨x, hx, hocc⟩ h
    rcases get_setSession h with h | ⟨x0, rfl, hx0, rfl⟩
    · exact .inl ⟨x', h, .refl x'⟩
    · rw [hx, some.injEq] at hx0
      exact .inl ⟨x, hx, hx0 ▸ ⟨⟨rfl, rfl, rfl⟩, fun _ => hocc⟩⟩
  cases a with
  | core =>
    rw [on, writes, applyAll_inl] at h
    exact .inl ⟨x', h, .refl x'⟩
  | newSession systemId =>
    rcases get_insert_cases h with h | ⟨rfl, -⟩
    · exact .inl ⟨x', h, .refl x'⟩
    · exact .inr ⟨systemId, rfl⟩
  | goLive =>
    obtain ⟨⟨x, hx, hstate, -⟩, -⟩ := hg
    exact hset ⟨x, hx, by simp [DebugSession.occupies, hstate]⟩ h
  | detach =>
    obtain ⟨x, hx, hstate, hedge⟩ := hg
    exact hset ⟨x, hx, occupies_of_canTransition (hstate ▸ hedge)⟩ h
  | repairSession =>
    obtain ⟨x, hx, hstate⟩ := hg
    exact hset ⟨x, hx, by simp [DebugSession.occupies, hstate]⟩ h
  | _ => exact .inl ⟨x', h, .refl x'⟩

theorem occupantsOf_eq_zero {systemId : Uuid} {transport : DebugTransport}
    (h : Unoccupied c systemId transport) : occupantsOf c systemId transport = 0 := by
  unfold occupantsOf
  rw [countP_eq_zero]
  intro x hx hp
  simp only [Bool.and_eq_true, decide_eq_true_eq, Option.any_eq_true] at hp
  obtain ⟨⟨hocc, htransport⟩, r, hr, hsys⟩ := hp
  have hfree := h _ x r (get_key_of_mem hx) hr hsys htransport
  cases hocc.symm.trans hfree

theorem systemOf_session (hi : Sound c) (hg : a.guard c) {x : DebugSession} {systemId : Uuid}
    (hx : c.2.sessions.get id = some x) (h : ((a.on c).2.runs.get x.runId).any (·.systemId = systemId) = true) :
    (c.2.runs.get x.runId).any (·.systemId = systemId) = true := by
  obtain ⟨r, hr⟩ := isSome_iff_exists.mp (hi.sessions id x hx)
  obtain ⟨r', hr', hfollows⟩ := (Rely.act hg (H := []) (by simp)).run_persists hr
  rw [hr', any_some, decide_eq_true_eq, hfollows.system] at h
  simpa [hr] using h

/-- **Every step keeps sessions and transports together.** -/
theorem occupantsOf_act (hi : Sound c) (hg : a.guard c)
    (h : ∀ systemId transport, occupantsOf c systemId transport ≤ 1) (systemId : Uuid)
    (transport : DebugTransport) : occupantsOf (a.on c) systemId transport ≤ 1 := by
  -- the sessions, by the Runs as they are after the step
  let occupant : DebugSession → Bool := fun x => x.occupies && x.transport = transport &&
    ((a.on c).2.runs.get x.runId).any (·.systemId = systemId)
  have hgain : occupantsOf (a.on c) systemId transport ≤ c.2.sessions.rows.countP occupant ∨
      (occupantsOf c systemId transport = 0 ∧
        occupantsOf (a.on c) systemId transport ≤ c.2.sessions.rows.countP occupant + 1) := by
    refine countP_gain (k := a.newSessionId) ?_
    intro x' hx' hp
    rcases sessionOrigin hg (get_key_of_mem hx') with ⟨x, hx, hkept⟩ | ⟨sid, rfl⟩
    · simp only [and_eq_true, decide_eq_true_eq] at hp ⊢
      refine .inl ⟨x, mem_of_get hx, key_eq_of_get hx, ⟨hkept.occupies hp.1.1, ?_⟩, ?_⟩
      · exact hkept.transport.symm.trans hp.1.2
      · exact hkept.run ▸ hp.2
    · refine .inr ⟨rfl, ?_⟩
      simp only [and_eq_true, decide_eq_true_eq] at hp
      obtain ⟨r, hr, hsid⟩ := hg.run
      have hsys : ((c.2.runs.get x'.runId).any (·.systemId = systemId)) = true := hp.2
      rw [hr, any_some, decide_eq_true_eq, hsid] at hsys
      exact occupantsOf_eq_zero (hsys ▸ hp.1.2 ▸ hg.free)
  have hle : c.2.sessions.rows.countP occupant ≤ occupantsOf c systemId transport := by
    refine countP_mono_left fun x hx hp => ?_
    rw [and_eq_true] at hp ⊢
    exact ⟨hp.1, systemOf_session hi hg (get_key_of_mem hx) hp.2⟩
  have hone := h systemId transport
  rcases hgain with hgain | ⟨hzero, hgain⟩ <;> omega

theorem Act.live_cases (hg : a.guard c) (h : (a.on c).2.sessions.get id = some x') (hlive : x'.state = .live) :
    (∃ x, c.2.sessions.get id = some x ∧ x.state = .live) ∨
      (a.goesLive = true ∧ ∃ systemId, RunOn c x'.runId systemId ∧ Ready c systemId) := by
  cases a with
  | core =>
    rw [on, writes, applyAll_inl] at h
    exact .inl ⟨x', h, hlive⟩
  | newSession =>
    rcases get_insert_cases h with h | ⟨rfl, -⟩
    · exact .inl ⟨x', h, hlive⟩
    · rw [hg.state] at hlive
      cases hlive
  | goLive systemId =>
    rcases get_setSession h with h | ⟨x, rfl, hx, rfl⟩
    · exact .inl ⟨x', h, hlive⟩
    · obtain ⟨⟨x0, hx0, -, hrun⟩, hready⟩ := hg
      rw [hx, some.injEq] at hx0
      exact .inr ⟨rfl, systemId, hx0 ▸ hrun, hready⟩
  | detach | repairSession =>
    rcases get_setSession h with h | ⟨x, rfl, hx, rfl⟩
    · exact .inl ⟨x', h, hlive⟩
    · cases hlive
  | _ => exact .inl ⟨x', h, hlive⟩

theorem Act.ready_iff (hcore : a.isCore = false) (hmoves : a.movesSystem = false) (systemId : Uuid) :
    Ready (a.on c) systemId ↔ Ready c systemId := by
  cases a with
  | core => cases hcore
  | system => cases hmoves
  | profile id text =>
    have hget := (patchSystem id (.profile text)).get_systems c.1 systemId
    have hrow : (store.applyAll (profile id text).writes c).1.systems.get systemId =
        if id = systemId then (c.1.systems.get systemId).map (SystemPatch.profile text).apply
        else c.1.systems.get systemId := hget
    unfold Ready
    rw [hrow]
    split
    · cases c.1.systems.get systemId with
      | none => simp
      | some => simp [SystemPatch.apply]
    · rfl
  | _ => rfl

variable {as : List Act}

theorem ready_of_path (hown : ∀ a ∈ as, a.isCore = false) (hstill : ∀ a ∈ as, a.movesSystem = false) (systemId : Uuid) :
    Ready (protocol.effs as c) systemId ↔ Ready c systemId := by
  induction as generalizing c with
  | nil => rfl
  | cons a as ih =>
    rw [show protocol.effs (a :: as) c = protocol.effs as (a.on c) from rfl,
      ih (fun b hb => hown b (mem_cons_of_mem _ hb)) (fun b hb => hstill b (mem_cons_of_mem _ hb))]
    exact ready_iff (hown a mem_cons_self) (hstill a mem_cons_self) systemId

/-- Somewhere in a transaction by which a session has become live its System was found ready. -/
theorem exists_goLive (hi : Sound c) (hpath : protocol.Path c as)
    (hx' : (protocol.effs as c).2.sessions.get id = some x')
    (hlive : x'.state = .live) (hnot : ∀ x, c.2.sessions.get id = some x → x.state ≠ .live) :
    as.any goesLive = true ∧ ∃ as1 as2 systemId, as = as1 ++ as2 ∧
      RunOn (protocol.effs as c) x'.runId systemId ∧ Ready (protocol.effs as1 c) systemId := by
  induction as generalizing c with
  | nil => exact absurd hlive (hnot x' hx')
  | cons a as ih =>
    have hi1 : Sound (a.on c) := sound hi hpath.1
    by_cases hnow : ∃ x1, (a.on c).2.sessions.get id = some x1 ∧ x1.state = .live
    · -- it is this step: what follows keeps the session on its Run
      obtain ⟨x1, hx1, hlive1⟩ := hnow
      rcases live_cases hpath.1 hx1 hlive1 with ⟨x, hx, hx'⟩ | ⟨hgo, systemId, hrun, hready⟩
      · exact absurd hx' (hnot x hx)
      · have hrest : Rely [] (a.on c) (protocol.effs as (a.on c)) :=
          Protocol.Path.rely hi1 (by simp) hpath.2
        obtain ⟨x2, hx2, hsame⟩ := (hrest.sessions id).persists x1 hx1
        have hend : (protocol.effs as (a.on c)).2.sessions.get id = some x' := hx'
        cases hx2.symm.trans hend
        refine ⟨by simp [hgo], [], a :: as, systemId, rfl, ?_, hready⟩
        rw [hsame.run]
        exact hrest.runOn ((Rely.act hpath.1 (H := []) (by simp)).runOn hrun)
    · push Not at hnow
      obtain ⟨hany, as1, as2, systemId, rfl, hrun, hready⟩ := ih hi1 hpath.2 hx' hnow
      exact ⟨by simp [hany], a :: as1, as2, systemId, rfl, hrun, hready⟩

/-- A transaction by which a session becomes live moves no System, so the System is ready before it and
    after it. -/
theorem IsBatch.live_ready (hb : IsBatch as) (hi : Sound c) (hpath : protocol.Path c as)
    (hx' : (protocol.effs as c).2.sessions.get id = some x')
    (hlive : x'.state = .live) (hnot : ∀ x, c.2.sessions.get id = some x → x.state ≠ .live) :
    ∃ systemId, RunOn (protocol.effs as c) x'.runId systemId ∧ Ready c systemId ∧
      Ready (protocol.effs as c) systemId := by
  obtain ⟨hany, as1, as2, systemId, rfl, hrun, hready⟩ := exists_goLive hi hpath hx' hlive hnot
  cases hb with
  | core bs _ heq =>
    rw [heq, List.any_map] at hany
    obtain ⟨b, -, hb⟩ := any_eq_true.mp hany
    cases hb
  | own htidy =>
    have hstill : ∀ a ∈ as1 ++ as2, a.movesSystem = false := by
      intro a ha
      simpa using any_eq_false.mp (htidy.live hany) a ha
    have hbefore : Ready c systemId :=
      (ready_of_path (fun a ha => htidy.own a (mem_append_left _ ha))
        (fun a ha => hstill a (mem_append_left _ ha)) systemId).mp hready
    exact ⟨systemId, hrun, hbefore, (ready_of_path htidy.own hstill systemId).mpr hbefore⟩

theorem Fresh.occupantsOf {db : store.Db} (h : Fresh db) (systemId : Uuid)
    (transport : DebugTransport) : occupantsOf db systemId transport ≤ 1 := by
  rw [Platform.occupantsOf, h.sessions]
  exact Nat.zero_le 1

/-- **One session to a transport, and none that goes live without its System**: in every committed state at
    most one session of a System and transport is in `attach` or `live`, and a commit that leaves a session
    live that was not is made while its System is ready. -/
theorem one_session_per_transport {cfg : Config} {s : Sys store} (h : Reachable cfg s) :
    (∀ systemId transport, occupantsOf s.db systemId transport ≤ 1) ∧
    ∀ ch s', s.step (Client.prog cfg) ch = some s' → ∀ id x', s'.db.2.sessions.get id = some x' → x'.state = .live →
      (∀ x, s.db.2.sessions.get id = some x → x.state ≠ .live) →
      ∃ systemId, RunOn s'.db x'.runId systemId ∧ Ready s.db systemId ∧ Ready s'.db systemId := by
  refine ⟨?_, ?_⟩
  · exact h.always (J := fun c => ∀ systemId transport, occupantsOf c systemId transport ≤ 1)
      (fun _ hfresh => hfresh.occupantsOf) (fun _ _ hi hJ hg => occupantsOf_act hi hg hJ)
  · intro ch s' hs id x' hx' hlive hnot
    obtain ⟨hdb, as, hb, hws, hpath⟩ := h.commits hs
    have heffs : s'.db = protocol.effs as s.db := by
      rw [hdb, hws]
      exact Protocol.applyAll_flatMap (P := protocol) as s.db
    rw [heffs] at hx' ⊢
    exact hb.live_ready h.holds.inv hpath hx' hlive hnot

def Lab.attached : Script :=
  run .external ++ call 5 (.completeBuild member 40 "") 50 ++
    call 6 (.startSession member 40 .gdbstub) 60

theorem one_session_per_transport_attached :
    occupantsOf (scripted {} db attached).db 20 .gdbstub = 1 ∧
      ∀ systemId transport, occupantsOf (scripted {} db attached).db systemId transport ≤ 1 :=
  ⟨by decide +kernel, (one_session_per_transport (reachable_scripted fresh _)).1⟩
end Kdive.Platform
