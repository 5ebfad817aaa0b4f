import Kdive.Spec.Invariant

/-! # Actions and locks

The two halves of the discipline. A guard that holds under the keys of its action still holds after
whatever the others do meanwhile (`Action.guard_stable`); and an action is one of the things the others
may do, for any session that holds none of its keys (`Rely.act`).
-/

namespace Kdive
open List Option Kdive.Action
open Lib (Time Keyed Table Store)
open AllocationState Kdive.Action

variable {fixed : String → Prop} {H : List LockKey} {c c' : Db}

namespace Rely
variable (h : Rely fixed H c c')
include h

theorem actualCost {a : Allocation} {actual : ℚ} (hcost : ActualCost c a actual) : ActualCost c' a actual := by
  cases hcost with
  | unused hh => exact .unused hh
  | used hhours hne hvcpus hmem hhost hcoeff hrate hcost =>
    obtain ⟨id, hid, hget⟩ := bind_eq_some_iff.mp hhost
    obtain ⟨host', hget', hsame⟩ := h.get_resource hget
    have hclass : host'.costClass = _ := congrArg (·.costClass) hsame
    have hhost' : a.resourceId.bind c'.resources.get = some host' := by
      rw [hid, bind_some, hget']
    refine .used hhours hne hvcpus hmem hhost' ?_ hrate hcost
    rwa [h.coefficients, hclass]

theorem sumOf_eq {row : Allocation} (hp : .project row.project ∈ H)
    (hi : WellFormed c) (hi' : WellFormed c') (hrow : RowIs c row) (ty : LedgerEventType) :
    Accounting.sumOf c'.ledger row.id ty = Accounting.sumOf c.ledger row.id ty := by
  obtain ⟨a, ha, hap, -⟩ := hrow.get
  obtain ⟨a', ha', hap', -⟩ := (h.rowIs hp hrow).get
  have hf := hi.filter_entries ha fun e => e.eventType = ty
  have hf' := hi'.filter_entries ha' fun e => e.eventType = ty
  rw [hap, ← h.ledger _ hp] at hf
  rw [hap', ← hf] at hf'
  simp only [Accounting.sumOf, Bool.decide_and]
  rw [hf']

theorem settles {row : Allocation} {started : Option Time} {ended : Time} {delta : ℚ}
    (hp : .project row.project ∈ H) (hi : WellFormed c) (hi' : WellFormed c') (hrow : RowIs c row)
    (hs : Settles c row started ended delta) : Settles c' row started ended delta := by
  obtain ⟨actual, hactual, hdelta⟩ := hs
  refine ⟨actual, h.actualCost hactual, ?_⟩
  rwa [h.sumOf_eq hp hi hi' hrow]

theorem keyFree {key : Option IdempotencyKey}
    (hk : ∀ k ∈ keyNeeds key, k ∈ H) (hfree : KeyFree c key) : KeyFree c' key := by
  rintro k rfl
  rw [h.keys (k.principal, k.key) (hk _ (by simp [keyNeeds]))]
  exact hfree k rfl
end Rely

namespace Action
theorem guard_stable {a : Action} (hn : a.need ⊆ H) (h : Rely fixed H c c') (hi : WellFormed c)
    (hi' : WellFormed c') (hg : a.guard fixed c) : a.guard fixed c' := by
  cases a with
  | grant a =>
    have hp : .project a.project ∈ H := hn (by simp)
    refine ⟨?_, hg.state, hg.placed, hg.leased, hg.unstarted, hg.sized, h.grantRoom hp hg.quota,
      h.affords hp hg.budget, hg.priced, h.hostRoom (hn (by simp)) hg.room,
      h.keyFree (fun k hk => hn (mem_append_right _ hk)) hg.keyFree⟩
    rw [(h.allocations a.id).locked (hn (by simp))]
    exact hg.fresh
  | enqueue a =>
    refine ⟨?_, hg.state, hg.unplaced, hg.unstarted, hg.sized, h.pendingRoom (hn (by simp)) hg.quota,
      h.keyFree (fun k hk => hn (mem_append_right _ hk)) hg.keyFree⟩
    rw [(h.allocations a.id).locked (hn (by simp))]
    exact hg.fresh
  | promote row =>
    have hp : .project row.project ∈ H := hn (by simp)
    exact ⟨h.rowIs hp hg.current, hg.state, h.grantRoom hp hg.quota, h.affords hp hg.budget,
      hg.priced, h.hostRoom (hn (by simp)) hg.room⟩
  | unqueue =>
    exact ⟨h.rowIs (hn (by simp)) hg.current, hg.state, hg.target⟩
  | renew row =>
    have hp : .project row.project ∈ H := hn (by simp)
    exact ⟨h.rowIs hp hg.current, hg.state, h.affords hp hg.budget, hg.priced,
      h.keyFree (fun k hk => hn (mem_append_right _ hk)) hg.keyFree⟩
  | settle row =>
    have hp : .project row.project ∈ H := hn (by simp)
    refine ⟨h.rowIs hp hg.current, hg.state, ?_, h.settles hp hi hi' hg.current hg.settles,
      (h.budgets _).persists hg.budget⟩
    rw [(h.allocations row.id).locked (hn (by simp))]
    exact hg.opened
  | activate row s =>
    refine ⟨h.rowIs (hn (by simp)) hg.current, hg.state, ?_, hg.backs, hg.project, h.systemRoom (hn (by simp)) hg.quota⟩
    rw [(h.systems s.id).locked (hn (by simp))]
    exact hg.fresh
  | ready system =>
    refine ⟨?_, ?_⟩
    · rw [(h.systems system).locked (hn (by simp))]
      exact hg.provisioning
    · rintro x rfl
      rw [(h.allocations x.1).locked (hn (by simp))]
      exact hg.unstarted x rfl
  | tearDown system =>
    refine ⟨?_⟩
    rw [(h.systems system).locked (hn (by simp))]
    exact hg.legal
  | setBudget => exact hg
  | cordon =>
    obtain ⟨r, hr⟩ := isSome_iff_exists.mp hg
    obtain ⟨r', hr', -⟩ := h.get_resource hr
    exact isSome_iff_exists.mpr ⟨r', hr'⟩
  | note => trivial
end Action

/-! ## An action, seen by the others -/

variable {a : Action} {id : Uuid}

theorem RowRely.fresh {a : Allocation} (hrow : .allocationRow id ∉ H)
    (hp : .project a.project ∉ H) (hdev : ∀ r, holdsDevices a r = true → .resource r ∉ H) :
    RowRely H id none (some a) := by
  refine ⟨?_, ?_, ?_, fun hk => absurd hk hrow⟩
  · intro b hb
    cases hb
  · intro p hpH
    have hne : a.project ≠ p := fun h => hp (h ▸ hpH)
    simp [Allocation.ofProject, hne]
  · intro r hr a' ha' hd
    cases ha'
    exact absurd hr (hdev r hd)

theorem RowRely.changed {a a' : Allocation} (hrow : .allocationRow id ∉ H)
    (hp : .project a.project ∉ H ∨ a'.core = a.core) (hsame : a'.project = a.project)
    (hdev : ∀ r, .resource r ∈ H → holdsDevices a' r = true → holdsDevices a r = true ∧
      a.pcieClaim = a'.pcieClaim ∧ (a'.state.occupying = true → a.state.occupying = true)) :
    RowRely H id (some a) (some a') := by
  refine ⟨?_, ?_, ?_, fun hk => absurd hk hrow⟩
  · intro b hb
    cases hb
    exact ⟨a', rfl, hsame⟩
  · intro p hpH
    rcases hp with hp | hcore
    · have hne : a.project ≠ p := fun h => hp (h ▸ hpH)
      simp [Allocation.ofProject, hsame, hne]
    · simp [Allocation.ofProject, hsame, hcore]
  · intro r hr b hb hd
    cases hb
    exact ⟨a, rfl, hdev r hr hd⟩

theorem mem_need_of_target (h : a.target = some id) : .allocationRow id ∈ a.need := by
  cases a with
  | ready system domainName stamp =>
    cases stamp with
    | none => cases h
    | some => simp_all [target, need]
  | tearDown | setBudget | cordon | note => cases h
  | _ => simp_all [target, need]

theorem Action.rowRely (hg : a.guard fixed c) (hH : ∀ k ∈ a.need, k.shared = false → k ∉ H) (hid : a.target = some id) :
    RowRely H id (c.allocations.get id) (a.becomes (c.allocations.get id)) := by
  have hrow : .allocationRow id ∉ H := hH _ (mem_need_of_target hid) rfl
  cases a with
  | grant a host =>
    cases hid
    rw [hg.fresh]
    refine .fresh hrow (hH _ (by simp) rfl) ?_
    intro r hr
    have hhost : host = r := by
      simpa [holdsDevices, hg.placed, hg.state, terminal] using hr
    exact hhost ▸ hH _ (by simp) rfl
  | enqueue =>
    cases hid
    rw [hg.fresh]
    refine .fresh hrow (hH _ (by simp) rfl) ?_
    intro r hr
    simp [holdsDevices, hg.unplaced.1] at hr
  | promote row host =>
    cases hid
    obtain ⟨a0, ha0, hp, -⟩ := hg.current.get
    rw [ha0]
    refine .changed hrow (.inl (hp ▸ hH _ (by simp) rfl)) (by simp) ?_
    intro r hr hd
    have hhost : host = r := by
      simpa [holdsDevices, terminal] using hd
    exact absurd (hhost ▸ hr) (hH _ (by simp) rfl)
  | unqueue =>
    cases hid
    obtain ⟨a0, ha0, hp, -⟩ := hg.current.get
    rw [ha0]
    refine .changed hrow (.inl (hp ▸ hH _ (by simp) rfl)) (by simp) ?_
    intro r _ hd
    rcases hg.target with rfl | rfl <;> simp [holdsDevices, terminal] at hd
  | renew =>
    cases hid
    obtain ⟨a0, ha0, hp, -⟩ := hg.current.get
    rw [ha0]
    refine .changed hrow (.inl (hp ▸ hH _ (by simp) rfl)) (by simp) ?_
    intro r _ hd
    simp_all [holdsDevices, AllocationPatch.set]
  | settle row closing started =>
    cases hid
    obtain ⟨a0, ha0, hp, -⟩ := hg.current.get
    rw [ha0]
    cases closing <;>
    · refine .changed hrow (.inl (hp ▸ hH _ (by simp) rfl)) ?_ ?_
      · cases started <;> simp [closeInterval]
      · intro r _ hd
        simp [holdsDevices, terminal] at hd
  | activate =>
    cases hid
    obtain ⟨a0, ha0, hp, hst⟩ := hg.current.get
    rw [ha0]
    refine .changed hrow (.inl (hp ▸ hH _ (by simp) rfl)) (by simp) ?_
    intro r _ hd
    have hst' : a0.state = .granted := hst.trans hg.state
    have hr : a0.resourceId = some r := by
      simpa [holdsDevices, terminal] using hd
    simp [holdsDevices, terminal, occupying, hst', hr]
  | ready system domainName stamp =>
    cases stamp with
    | none => cases hid
    | some x =>
      cases hid
      obtain ⟨a0, ha0, -⟩ := hg.unstarted x rfl
      rw [ha0]
      refine .changed hrow (.inr ?_) (by simp) ?_
      · exact (AllocationPatch.activeStartedAt x.2).field_apply x.2 a0 (·.core) fun _ _ => rfl
      · intro r _ hd
        simp_all [holdsDevices, AllocationPatch.set]
  | tearDown | setBudget | cordon | note => cases hid

theorem uncordoned_applyAll (ws : List Write) (c : Db) (id : Uuid) :
    ((store.applyAll ws c).resources.get id).map (·.uncordoned) = (c.resources.get id).map (·.uncordoned) := by
  refine Store.read_applyAll_of_eq (σ := store) (fun db => (db.resources.get id).map (·.uncordoned)) ?_ c
  intro w _ db
  rw [w.get_resources]
  cases w with
  | setCordoned =>
    simp only [Write.onResource]
    split
    · rw [Option.map_map]
      rfl
    · rfl
  | _ => rfl

theorem Action.budgetRely (hg : a.guard fixed c) (hH : ∀ k ∈ a.need, k.shared = false → k ∉ H) (p : String) :
    BudgetRely fixed H p (c.budgets.get p) (a.onBudget p (c.budgets.get p)) := by
  have hposting : ∀ e ∈ a.entries, .project e.project ∉ H ∧ .budgetRow e.project ∉ H := by
    intro e he
    obtain ⟨h1, h2⟩ := project_mem_need he
    exact ⟨hH _ h1 rfl, hH _ h2 rfl⟩
  cases hes : a.entries with
  | cons e es =>
    have hone : a.entries = [e] := by
      cases a <;> simp_all [entries]
    rw [onBudget_of_entries hone]
    split
    case isTrue hp =>
      obtain ⟨h1, h2⟩ := hposting e (by simp [hone, -entries])
      rw [hp] at h1 h2
      refine ⟨?_, ?_, fun hk => absurd hk h1, fun hk => absurd hk h2⟩
      · intro hs
        simpa using hs
      · intro _
        rw [Option.map_map]
        rfl
    case isFalse => exact .refl p _
  | nil =>
    cases a with
    | setBudget b audit =>
      have hrow : .budgetRow b.project ∉ H := hH _ (by simp) rfl
      simp only [onBudget, Write.onBudget]
      split
      case isTrue hp =>
        subst hp
        refine ⟨fun _ => rfl, fun hf => absurd hf hg.1, ?_, fun hk => absurd hk hrow⟩
        intro _ b0 hb0
        rw [hb0]
        exact ⟨_, rfl, rfl⟩
      case isFalse => exact .refl p _
    | grant | promote | renew | settle => cases hes
    | _ => exact .refl p _

/-- A System that is moved without its locks keeps what names it, and counts against the quota only if it did. -/
theorem SystemRely.of_moved {id : Uuid} {s s' : System} (halloc : s'.allocationId = s.allocationId)
    (hproj : s'.project = s.project) (hlock : .system id ∉ H) (hrow : .systemRow id ∉ H)
    (hlive : s'.state.terminal = false → s.state.terminal = false) : SystemRely H id (some s) (some s') := by
  refine ⟨?_, ?_, fun hk => absurd hk hlock, ?_, fun hk => absurd hk hrow⟩
  · rintro _ ⟨⟩
    exact ⟨s', rfl, halloc⟩
  · rintro _ _ ⟨⟩ ⟨⟩
    exact hproj
  · rintro p - _ ⟨⟩ hp hterm
    exact ⟨s, rfl, hproj.symm.trans hp, hlive hterm⟩

theorem Action.systemRely (hg : a.guard fixed c) (hH : ∀ k ∈ a.need, k.shared = false → k ∉ H) (id : Uuid) :
    SystemRely H id (c.systems.get id) (a.onSystem id (c.systems.get id)) := by
  rcases a.onSystem_cases id (c.systems.get id) with h | ⟨alloc, s, _, _, _, rfl, rfl, hnone, h⟩ |
    ⟨s, name, stamp, audit, rfl, hs, h⟩ | ⟨s, audit, rfl, hs, h⟩
  · rw [h]
    exact .refl id _
  · rw [h, hnone]
    refine ⟨fun _ hrow => (by cases hrow), fun _ _ hrow => (by cases hrow),
      fun _ _ _ hrow => (by cases hrow), ?_, fun hk => absurd hk (hH _ (by simp) rfl)⟩
    rintro p hp s' hs' hproj -
    obtain rfl : s = s' := some.inj hs'
    -- The project's lock is the activation's own.
    refine absurd hp (hH (.project p) ?_ rfl)
    rw [← hproj, hg.project]
    simp
  · rw [h, hs]
    refine .of_moved rfl rfl (hH _ (by simp) rfl) (hH _ (by simp) rfl) ?_
    intro _
    obtain ⟨s0, hs0, hstate, -⟩ := hg.provisioning
    cases hs.symm.trans hs0
    rw [hstate]
    rfl
  · rw [h, hs]
    exact .of_moved rfl rfl (hH _ (by simp) rfl) (hH _ (by simp) rfl) nofun

/-- **An action is something the others may do**, for a session that holds none of its keys. -/
theorem Rely.act (hg : a.guard fixed c) (hH : ∀ k ∈ a.need, k.shared = false → k ∉ H) : Rely fixed H c (a.on c) := by
  refine ⟨quotas_applyAll _ _, costClassCoefficients_applyAll _ _, uncordoned_applyAll _ _, ?_, ?_, ?_, ?_, ?_⟩
  · intro id
    by_cases hid : a.target = some id
    · rw [get_allocations_target hg hid]
      exact rowRely hg hH hid
    · rw [get_allocations_of_ne hid]
      exact .refl id _
  · intro id
    rw [a.get_systems_writes]
    exact systemRely hg hH id
  · intro p
    rw [a.get_budgets_writes]
    exact budgetRely hg hH p
  · intro k hk
    refine Store.read_applyAll_of_eq (σ := store) (fun db => db.idempotencyKeys.get k) ?_ c
    intro w hw db
    rw [w.get_idempotencyKeys, Write.onKey_of_notMem]
    exact fun hmem => hH _ (a.keys_subset_need w hw hmem) rfl hk
  · intro p hp
    rw [a.ledger_writes, filter_append]
    have hnone : a.entries.filter (·.project = p) = [] := by
      refine filter_eq_nil_iff.mpr fun e he hep => ?_
      have hkey := hH _ (project_mem_need he).1 rfl
      rw [decide_eq_true_eq] at hep
      exact hkey (hep ▸ hp)
    rw [hnone, append_nil]
end Kdive
