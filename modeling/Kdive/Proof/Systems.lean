import Kdive.Proof.Release
import Kdive.Services.Systems

/-! # Systems

Creating a System makes its allocation active in the same commit. The provision job commits at most one
action, the System's becoming ready with the opening of the billing interval; when the provider fails,
what it recorded of the failure is undone with the transaction its exception ends.
-/

namespace Kdive
open Lib

/-- The System stands on the allocation it stood on when it was read. -/
def SystemIs (system : System) (v : Db) : Prop :=
  ∃ s, v.systems.get system.id = some s ∧ s.allocationId = system.allocationId

theorem kept_systemIs {fixed : String → Prop} {K : List LockKey} (system : System) :
    Kept (protocol fixed) K (SystemIs system) := by
  rintro H v v' _ hr _ _ ⟨s, hs, ha⟩
  obtain ⟨s', hs', ha'⟩ := (Rely.systems hr system.id).persists s hs
  exact ⟨s', hs', ha'.trans ha⟩
end Kdive

namespace Lib.During
open Kdive

variable {fixed : String → Prop} {as : List Action} {ws : List Write} {F : Db → Prop}
variable {l l' : Conn store} {c c' : Db}

/-! ## Creation -/

variable {ctx : RequestContext} {alloc : Allocation} {profile : String}

variable (h : InTx fixed [] [] F l c)
include h

theorem insertSystemAndActivate {state : SystemState} {tool transition : String} (hp : .project alloc.project ∈ l.locks)
    (hrow : ∀ v, WellFormed v → F v → RowIs v alloc ∧ SystemRoom v alloc.project)
    (hstate : alloc.state = .granted) (htransition : transition = "->" ++ state.value) : Wp fixed
      (SystemAdmission.insertSystemAndActivate ctx alloc profile state tool transition) l c (Clean fixed) := by
  refine .seq (h.ask ?_)
  intro fresh
  refine .seq (h.insertSystem ?_)
  intro l1 c1 h1 hsys hx1
  refine .seq (h1.auditFor ?_)
  intro l2 c2 h2 hx2
  refine .seq (h2.updateState ?_)
  intro row l3 c3 _ h3 hkey hx3
  refine .seq (h3.auditFor ?_)
  intro l4 c4 h4 hx4
  rw [hx2.now, hx1.now] at h4
  refine h4.ret (During.done (a := Action.activate alloc _ l.now ⟨_, rfl, rfl, ?_⟩ ⟨_, rfl, rfl, rfl⟩) h4 ?_ ?_ ?_)
  · simp [AuditRow.text, Part.asText, String.join, htransition]
  · exact Nat.le_refl 1
  · intro k hk
    simp only [Action.need, List.mem_cons, List.not_mem_nil, or_false] at hk
    rcases hk with rfl | rfl | rfl
    · exact (hx1.trans (hx2.trans (hx3.trans hx4))).mem_locks hp
    · exact hx4.mem_locks hkey
    · exact (hx2.trans (hx3.trans hx4)).mem_locks hsys
  · rintro v hv ⟨⟨hF, hfresh⟩, -⟩
    exact ⟨(hrow v hv hF).1, hstate, hfresh, rfl, rfl, (hrow v hv hF).2⟩

theorem insertSystemIfAllowed {mode : SystemAdmission.CreateMode}
    (hp : .project alloc.project ∈ l.locks) (hrow : ∀ v, WellFormed v → F v → RowIs v alloc) :
    Wp fixed (SystemAdmission.insertSystem ctx alloc profile mode) l c (Clean fixed) := by
  -- whether a System may be created is decided by reads alone
  have hallowed : Wp fixed (SystemAdmission.newSystemAllowed alloc) l c
      fun blocked l' c' => l' = l ∧ InTx fixed [] [] F l c' ∧
        (blocked = none → alloc.state = .granted ∧ InTx fixed [] []
          (fun v => F v ∧ SystemRoom v alloc.project) l c') := by
    unfold SystemAdmission.newSystemAllowed
    split
    · exact h.ret ⟨rfl, h, by simp⟩
    rename_i hstate
    have hkept : Kept (protocol fixed) l.locks (SystemRoom · alloc.project) :=
      fun H v v' hH hr _ _ hroom => Rely.systemRoom hr (hH hp) hroom
    refine .seq (h.withinQuota hkept (fun _ hroom => hroom) ?_ ?_)
    · intro c1 h1 _
      exact h1.ret ⟨rfl, h1, by simp⟩
    · intro c1 h1 _
      have h1' : InTx fixed [] [] F l c1 := h1.conseq h.kept fun _ _ hv => hv.1
      refine .seq (h1'.ask ?_)
      intro answer
      split
      · exact h1'.ret ⟨rfl, h1', fun _ => ⟨by simpa using hstate, h1⟩⟩
      · exact h1'.ret ⟨rfl, h1', by simp⟩
      · exact h1'.raise
  refine .bind hallowed ?_
  rintro blocked _ c1 - ⟨rfl, h1, hallowed⟩
  cases blocked with
  | some => exact h1.ret (h1.ready (Nat.zero_le 1))
  | none =>
    obtain ⟨hgranted, h1⟩ := hallowed rfl
    have hfacts : ∀ v, WellFormed v → F v ∧ SystemRoom v alloc.project →
        RowIs v alloc ∧ SystemRoom v alloc.project := fun v hv hF => ⟨hrow v hv hF.1, hF.2⟩
    cases mode with
    | define =>
      refine .bind (h1.insertSystemAndActivate hp hfacts hgranted rfl) ?_
      intro system l2 c2 _ hready
      exact .ret hready.good hready.inv hready
    | provision =>
      refine .bind (h1.insertSystemAndActivate hp hfacts hgranted rfl) ?_
      intro system l2 c2 _ hready
      refine .bind hready.select ?_
      intro _ l3 c3 _ hready3
      exact .ret hready3.good hready3.inv hready3

theorem createResponse {existing : Option System} {mode : SystemAdmission.CreateMode}
    (hp : .project alloc.project ∈ l.locks)
    (hrow : ∀ v, WellFormed v → F v → RowIs v alloc) :
    Wp fixed (SystemAdmission.createResponse ctx alloc existing profile mode) l c (Clean fixed) := by
  have hready := h.ready (B := atMostOne) (Nat.zero_le 1)
  unfold SystemAdmission.createResponse
  split
  · exact h.insertSystemIfAllowed hp hrow
  · split
    · exact h.ret hready
    · refine .bind hready.select ?_
      intro _ l1 c1 _ hready1
      exact .ret hready1.good hready1.inv hready1
    · exact h.ret hready
end Lib.During

namespace Kdive
open Lib

variable {fixed : String → Prop} {F : Db → Prop} {l : Conn store} {c : Db}

variable {uid : Uuid}

theorem getAllocation_top : Top (protocol fixed) (Prog.connection (Allocations.get uid)) c fun r c' =>
      ∀ found, r = .ok found → ∀ a, found = some a → InProject uid a.project c' := by
  refine .connection_select (P := protocol fixed)
    (R := fun found c' => ∀ a : Allocation, found = some a → InProject uid a.project c') ?_ ?_
  · intro c' t _ _ a ha
    exact ⟨a, ha, rfl⟩
  · intro found c' c'' hr hc' hc'' hfound a ha
    exact kept_inProject (K := []) _ [] c' c'' (by simp) hr hc' hc'' (hfound a ha)

theorem createUnderLocks_top {ctx : RequestContext} {project : String}
    {mode : SystemAdmission.CreateMode} (hc : WellFormed c) (hproject : InProject uid project c) :
    Top (protocol fixed) (SystemAdmission.underLocks ctx uid project fun alloc existing => do
      match ← Prog.ask Host.profile with
      | .error (.categorized e) => return .failure alloc.id e.category none
      | .error e => .raise e
      | .ok stored => SystemAdmission.createResponse ctx alloc existing stored mode) c
      fun _ _ => True := by
  refine .connection (.of_top (R := fun _ _ => True) (.own hc ?_ fun _ _ _ _ => trivial))
    fun _ _ _ _ => trivial
  intro t h
  have hcommits : ∀ {α : Type} {p : Async α} {l : Conn store} {c : Db},
      Wp fixed p l c (During.Clean fixed) →
      Wp fixed p l c fun _ l' c' => (protocol fixed).Commits l'.locks l'.log c' :=
    fun hp => hp.mono fun _ _ _ _ hready => hready.commits fun as has => .inl has
  refine hcommits ((h.know (kept_inProject _) hproject).ownLocks rfl (fun v _ hF => hF.2) ?_)
  intro l1 c1 hp h1
  refine .seq (h1.getRow hp (fun v _ hF => hF.2) ?_)
  intro row c2 hid hproj h2 _
  dsimp only
  split
  · exact h2.ret (h2.ready (Nat.zero_le 1))
  refine .seq (h2.select ?_)
  intro c3 h3 _
  refine .seq (h3.ask ?_)
  intro answer
  split
  · exact h3.ret (h3.ready (Nat.zero_le 1))
  · exact h3.raise
  · exact h3.createResponse (hproj ▸ hp) fun v _ hF => hF.2

theorem createForAllocation_top {ctx : RequestContext} {mode : SystemAdmission.CreateMode} (hc : WellFormed c) :
    Tame (protocol fixed) (SystemAdmission.createForAllocation ctx uid mode) c := by
  refine .bind (R := fun _ _ => True) (.ask hc fun _ => trivial) ?_ (fun _ _ _ _ _ => trivial)
  intro profile c1 _ hc1 _
  split
  · exact .ret hc1 trivial
  · exact .raise hc1 trivial
  refine .bind getAllocation_top ?_ (fun _ _ _ _ _ => trivial)
  intro found c2 _ hc2 hfound
  split
  · exact .ret hc2 trivial
  · rename_i probe
    split
    · exact .ret hc2 trivial
    · refine .attempt (createUnderLocks_top hc2 (hfound _ rfl probe rfl)) ?_
      intro r c3 _ hc3 _
      split
      · exact .ret hc3 trivial
      · refine .bind getAllocation_top ?_ (fun _ _ _ _ _ => trivial)
        intro latest c4 _ hc4 _
        exact .ret hc4 trivial
      · exact .raise hc3 trivial
end Kdive

namespace Lib.During
open Kdive

variable {fixed : String → Prop} {as : List Action} {ws : List Write} {F : Db → Prop}
variable {l l' : Conn store} {c c' : Db}

/-! ## The provision job -/

theorem runtimeForSystem {cfg : Config} {id : Uuid} {R : Post store Unit}
    (h : InTx fixed as ws F l c) (hR : ∀ c', InTx fixed as ws F l c' → R () l c') :
    Wp fixed (Handlers.runtimeForSystem cfg id) l c R := by
  refine .seq (h.select ?_)
  intro c1 h1 _
  split
  · exact h1.raise
  · split
    · exact h1.ret (hR c1 h1)
    · exact h1.raise

variable {system : System}

theorem commitUploadedRootfs {R : Post store Unit} (h : InTx fixed as ws F l c)
    (hR : ∀ c', InTx fixed as ws F l c' → R () l c') : Wp fixed (Handlers.commitUploadedRootfs system) l c R := by
  refine .seq (h.ask ?_)
  intro answer
  refine .seq (h.ofExcept ?_)
  intro rootfs _
  split
  · exact h.ret (hR c h)
  · exact h.raise
  · refine .seq (h.select ?_)
    intro c1 h1 _
    refine h1.select ?_
    intro c2 h2 _
    exact hR c2 h2

theorem finalizeProvisionReady {job : Job} {domainName : String}
    (h : InTx fixed [] [.patchSystem system.id (.ready domainName)] F l c)
    (hlock : .system system.id ∈ l.locks) (hsys : .systemRow system.id ∈ l.locks)
    (hrow : ∀ v, WellFormed v → F v → ∃ s, v.systems.get system.id = some s ∧
      s.state = .provisioning ∧ s.allocationId = system.allocationId) :
    Wp fixed (Handlers.finalizeProvisionReady job system) l c (Clean fixed) := by
  refine .seq (h.commitUploadedRootfs ?_)
  intro c1 h1
  refine .seq (.seq (h1.update ?_ ?_))
  · intro l2 c2 v _ _ h2 hx2
    refine h2.ret (h2.auditFor ?_)
    intro l3 c3 h3 hx3
    refine During.done (a := Action.ready system.id domainName none ⟨_, rfl, rfl, rfl⟩) h3 ?_ ?_ ?_
    · exact Nat.le_refl 1
    · intro k hk
      simp only [Action.need, Option.map_none, Option.toList_none, List.append_nil, List.mem_cons,
        List.not_mem_nil, or_false] at hk
      rcases hk with rfl | rfl
      · exact (hx2.trans hx3).mem_locks hlock
      · exact (hx2.trans hx3).mem_locks hsys
    · intro v hv hF
      obtain ⟨s, hs, hprov, -⟩ := hrow v hv hF
      exact ⟨⟨s, hs, hprov, by simp⟩, by simp⟩
  · intro row l2 c2 hnone h2 hkey hx2
    refine h2.ret (h2.auditFor ?_)
    intro l3 c3 h3 hx3
    refine During.done
      (a := Action.ready system.id domainName (some (system.allocationId, l.now)) ⟨_, rfl, rfl, rfl⟩) h3 ?_ ?_ ?_
    · exact Nat.le_refl 1
    · intro k hk
      simp only [Action.need, Option.map_some, Option.toList_some, List.mem_append, List.mem_cons,
        List.not_mem_nil, or_false] at hk
      rcases hk with (rfl | rfl) | rfl
      · exact (hx2.trans hx3).mem_locks hlock
      · exact (hx2.trans hx3).mem_locks hsys
      · exact hx3.mem_locks hkey
    · rintro v hv ⟨hF, hsees⟩
      obtain ⟨s, hs, hprov, halloc⟩ := hrow v hv hF
      refine ⟨⟨s, hs, hprov, ?_⟩, ?_⟩
      · intro x hx
        cases hx
        exact halloc.symm
      · intro x hx
        cases hx
        refine ⟨row, ?_, by simpa using hnone⟩
        rwa [Sees, get_allocations_applyAll] at hsees

theorem commitProvisionResult {job : Job} {domainName : String} (h : InTx fixed [] [] F l c) (hlocks : l.locks = [])
    (hsystem : ∀ v, WellFormed v → F v → SystemIs system v) :
    Wp fixed (Handlers.commitProvisionResult job system domainName) l c (Clean fixed) := by
  have hblock : Keeps (protocol fixed) atMostOne
      (Handlers.commitProvisionResult job system domainName) l c fun _ _ _ => True := by
    refine .block h (Nat.zero_le 1) ?_
    intro hin
    refine .seq (hin.advisoryLock _ (fun a ha => absurd ha List.not_mem_nil) ?_ ?_)
    · intro v _ _ _ k hk
      rw [Conn.locks_enter, hlocks] at hk
      cases hk
    intro l1 c1 _ hlock h1 _
    refine .seq (h1.getSystemForUpdate ?_ ?_)
    · intro l2 c2 h2 _
      exact h2.ret (h2.ready (Nat.zero_le 1))
    intro row l2 c2 h2 hkey hx2
    dsimp only
    split
    · rename_i hstate
      refine .seq (h2.updateSystem hkey (fun v _ hF => hF.2) ?_)
      intro l3 c3 h3 hx3
      refine .bind (h3.finalizeProvisionReady ((hx2.trans hx3).mem_locks hlock) (hx3.mem_locks hkey) ?_) ?_
      · intro v hv hF
        obtain ⟨s, hs, halloc⟩ := hsystem v hv hF.1
        have hsees : v.systems.get system.id = some row := hF.2
        rw [hs, Option.some.injEq] at hsees
        exact ⟨s, hs, hsees ▸ hstate, halloc⟩
      · intro _ l4 c4 _ hready
        exact .ret hready.good hready.inv hready
    · exact h2.ret (h2.ready (Nat.zero_le 1))
  exact hblock.does.mono fun _ _ _ _ hR => hR.1
end Lib.During

namespace Kdive
open Lib

variable {fixed : String → Prop} {c : Db}

theorem provisionHandler_body {cfg : Config} {job : Job} (hc : WellFormed c) :
    Body (protocol fixed) (Handlers.provisionHandler cfg job) c := by
  refine .opening trivial hc ?_
  intro t h
  have hteardown : ∀ {l : Conn store} {c : Db}, Ready (protocol fixed) During.atMostOne l c →
      Wp fixed (Prog.ask Host.teardown >>= fun x =>
        Prog.ofExcept x) l c fun _ l' c' =>
          (protocol fixed).Commits l'.locks l'.log c' := by
    intro l c hready
    refine .seq (Does.ask hready.good hready.inv fun x => ?_)
    refine .ofExcept hready.good hready.inv fun _ _ => ?_
    exact hready.commits fun as has => .inl has
  refine .seq (h.select ?_)
  intro c1 h1 _
  rw [applyAll_nil]
  cases hfound : ((protocol fixed).effs [] c1).systems.get job.systemId with
  | none => exact h1.raise
  | some system =>
    have hid : system.id = job.systemId := Table.key_eq_of_get hfound
    have hknown := h1.know (kept_systemIs system) ⟨system, hid ▸ hfound, rfl⟩
    refine .seq (hknown.runtimeForSystem ?_)
    intro c2 h2
    split
    · split
      · exact hteardown (h2.ready (Nat.zero_le 1))
      · exact h2.ret (h2.commits_nil (.inl (Nat.zero_le 1)))
    refine .seq (h2.ask ?_)
    intro answer
    split
    · refine .bind (h2.commitProvisionResult rfl fun v _ hF => hF.2) ?_
      intro current l3 c3 _ hready
      split
      · exact hteardown hready
      · refine .ret hready.good hready.inv ?_
        exact hready.commits fun as has => .inl has
    · unfold Handlers.failing
      split
      · -- the failure is recorded in a block of the transaction its exception undoes
        refine .undone (h2.transaction ?_)
        intro hin
        refine .seq (hin.updateSystemState ?_)
        intro row l3 c3 _ h3 _ _
        refine h3.auditFor ?_
        intro l4 c4 h4 _
        exact ⟨_, _, h4, fun _ _ _ _ => trivial⟩
      · exact h2.raise

/-! ## The teardown job -/

/-- The System is in the state it was read in under its lock, or `provision_defined` has moved it on. -/
def StateWas (id : Uuid) (old : SystemState) (v : Db) : Prop :=
  ∃ s, v.systems.get id = some s ∧ (s.state = old ∨ (old = .defined ∧ s.state = .provisioning))

theorem kept_stateWas {K : List LockKey} {id : Uuid} {old : SystemState} (hk : .system id ∈ K) :
    Kept (protocol fixed) K (StateWas id old) := by
  rintro H v v' hH hr _ _ ⟨s, hs, hold⟩
  obtain ⟨s', hs', -⟩ := (Rely.systems hr id).persists s hs
  have hstate := (Rely.systems hr id).state (hH hk) s s' hs hs'
  refine ⟨s', hs', ?_⟩
  rcases hold with rfl | ⟨rfl, hprov⟩
  · exact hstate
  · rw [hprov] at hstate
    exact .inr ⟨rfl, hstate.resolve_right nofun⟩

theorem teardownHandler_body {cfg : Config} {job : Job} (hc : WellFormed c) :
    Body (protocol fixed) (Handlers.teardownHandler cfg job) c := by
  refine .bind (R := fun _ _ => True) (.own hc ?_ fun _ _ _ _ => trivial) ?_
  · intro t h
    refine .seq (h.advisoryLock _ (fun a ha => absurd ha List.not_mem_nil) ?_ ?_)
    · intro v _ _ _ k hk
      cases hk
    intro l1 c1 _ hlock h1 _
    refine .seq (h1.select ?_)
    intro c2 h2 _
    have hnothing := h2.commits_nil (.inl (Nat.zero_le 1))
    split
    · exact h2.ret hnothing
    split
    · exact h2.ret hnothing
    rename_i system hsystem _
    have hid : system.id = job.systemId := Table.key_eq_of_get hsystem
    rw [← hid] at hlock hsystem
    have h2' := h2.know (kept_stateWas hlock) ⟨system, hsystem, .inl rfl⟩
    refine .seq (h2'.updateSystemState ?_)
    intro row l3 c3 hlegal h3 hkey hx3
    refine .seq (h3.auditFor ?_)
    intro l4 c4 h4 hx4
    refine h4.ret (During.commits (a := Action.tearDown system.id ⟨system.state, _, rfl, rfl, ?_⟩)
      h4 (.inl (Nat.le_refl 1)) ?_ ?_)
    · generalize system.state = old
      cases old <;> rfl
    · intro k hk
      simp only [Action.need, List.mem_cons, List.not_mem_nil, or_false] at hk
      rcases hk with rfl | rfl
      · exact (hx3.trans hx4).mem_locks hlock
      · exact hx4.mem_locks hkey
    · rintro v _ ⟨⟨-, s, hs, hwas⟩, hsees⟩
      have hrow : v.systems.get system.id = some row := hsees
      cases hrow.symm.trans hs
      exact ⟨row, hrow, hlegal, hwas⟩
  · intro found c1 hc1 _
    cases found with
    | false => exact .of_top (R := fun _ _ => True) (.ret hc1 trivial)
    | true =>
      refine .opening trivial hc1 ?_
      intro t h
      refine .seq (h.runtimeForSystem ?_)
      intro c2 h2
      refine .seq (h2.ask ?_)
      intro answer
      refine h2.ofExcept ?_
      intro _ _
      exact h2.commits_nil (.inl (Nat.zero_le 1))
end Kdive
