import Kdive.Proof.Placement

/-! # Admission, inside a transaction

The gate under the project's and the host's locks, and what follows it. What the gate has found holds
until the transaction ends, whatever the other sessions commit meanwhile, so the row inserted several
statements later is still within every bound.
-/

namespace Kdive
open Rely

open Lib

/-- What the gate establishes when it denies nothing. -/
structure Passes (fixed : String → Prop) (project : String) (host : Uuid) (estimate : ℚ)
    (devices : List PCIeClaim) (v : Db) : Prop where
  quota : GrantRoom v project
  budget : Affords fixed v project estimate
  room : HostRoom v host devices

theorem sized_of_validateSize {selector : Selector} {a : Allocation}
    (h : validateSize selector = .ok ()) (hvcpus : a.requestedVcpus = some selector.vcpus)
    (hmemory : a.requestedMemoryGb = some selector.memoryGb) : a.Sized := by
  refine ⟨selector.vcpus, selector.memoryGb, hvcpus, hmemory, ?_, ?_⟩
  · by_contra hlt
    rw [validateSize, if_pos (by omega)] at h
    cases h
  · by_contra hlt
    rw [validateSize] at h
    split at h
    · cases h
    · rw [if_pos (by omega)] at h
      cases h

variable {K : List LockKey}

theorem kept_grantRoom (hk : .project project ∈ K) : Kept (protocol fixed) K fun v => GrantRoom v project :=
  fun _ _ _ hH hr _ _ h => grantRoom hr (hH hk) h

theorem kept_pendingRoom (hk : .project project ∈ K) : Kept (protocol fixed) K fun v => PendingRoom v project :=
  fun _ _ _ hH hr _ _ h => pendingRoom hr (hH hk) h

theorem kept_affords {delta : ℚ} (hk : .project project ∈ K) :
    Kept (protocol fixed) K fun v => Affords fixed v project delta :=
  fun _ _ _ hH hr _ _ h => affords hr (hH hk) h

theorem kept_hostRoom {host : Uuid} {claim : List PCIeClaim} (hk : .resource host ∈ K) :
    Kept (protocol fixed) K fun v => HostRoom v host claim :=
  fun _ _ _ hH hr _ _ h => hostRoom hr (hH hk) h

theorem kept_passes {host : Uuid} {estimate : ℚ} {devices : List PCIeClaim}
    (hp : .project project ∈ K) (hr : .resource host ∈ K) :
    Kept (protocol fixed) K (Passes fixed project host estimate devices) := by
  intro H v v' hH hrely hv hv' h
  exact ⟨kept_grantRoom hp H v v' hH hrely hv hv' h.quota, kept_affords hp H v v' hH hrely hv hv' h.budget,
    kept_hostRoom hr H v v' hH hrely hv hv' h.room⟩

def SeesKeyFree (ws : List Write) (key : Option IdempotencyKey) (v : Db) : Prop :=
  KeyFree (store.applyAll ws v) key

theorem kept_seesKeyFree {ws : List Write} {key : Option IdempotencyKey}
    (hk : ∀ k ∈ Action.keyNeeds key, k ∈ K) : Kept (protocol fixed) K (SeesKeyFree ws key) := by
  rintro H v v' hH hr _ _ hfree k rfl
  have hsame := keys hr (k.principal, k.key) (hH (hk _ (by simp [Action.keyNeeds])))
  rw [get_idempotencyKeys_applyAll, hsame, ← get_idempotencyKeys_applyAll]
  exact hfree k rfl
end Kdive

namespace Lib.During
open Kdive

variable {α : Type} {fixed : String → Prop} {as : List Action} {ws : List Write} {F : Db → Prop}
variable {l l' : Conn store} {c c' : Db}

/-! ## The gate -/

variable {project : String}

theorem withinQuota {cap : Quota → Int} {count : Db → String → Nat}
    {G : Db → Prop} {R : Post store Bool} (h : InTx fixed as [] F l c)
    (hkept : Kept (protocol fixed) l.locks G) (hG : ∀ v, QuotaRoom cap count v project → G v)
    (hno : ∀ c', InTx fixed as [] F l c' → Since fixed l c l c' → R false l c')
    (hyes : ∀ c', InTx fixed as [] (fun v => F v ∧ G v) l c' → Since fixed l c l c' → R true l c') :
    Wp fixed (Kdive.withinQuota cap count project) l c R := by
  refine .seq (h.select ?_)
  intro c1 h1 hx1
  cases hq : ((protocol fixed).effs as c1).quotas.get project with
  | none =>
    simp only [applyAll_nil, hq]
    exact h1.ret (hno c1 h1 hx1)
  | some row =>
    simp only [applyAll_nil, hq]
    -- quotas do not change, so the cap is that of the state the rows are counted in
    have hstatic : Kept (protocol fixed) l.locks fun v => v.quotas.get project = some row := by
      intro H v v' _ hr _ _ hv
      rwa [Rely.quotas hr]
    refine .seq ((h1.know hstatic hq).select ?_)
    intro c2 h2 hx2
    have hback : InTx fixed as [] F l c2 := h2.conseq h.kept fun _ _ hv => hv.1
    rw [applyAll_nil]
    by_cases hlt : (count ((protocol fixed).effs as c2) project : Int) < cap row
    · rw [decide_eq_true hlt]
      refine hback.ret (hyes c2 (hback.know hkept ?_) (hx1.trans hx2))
      exact hG _ ⟨row, h2.fact.2, hlt⟩
    · rw [decide_eq_false hlt]
      exact hback.ret (hno c2 hback (hx1.trans hx2))

variable {estimate : ℚ}

theorem withinBudget {R : Post store Bool} (h : InTx fixed as [] F l c) (hp : .project project ∈ l.locks)
    (hno : ∀ c', InTx fixed as [] F l c' → Since fixed l c l c' → R false l c')
    (hyes : ∀ c', InTx fixed as [] (fun v => F v ∧ Affords fixed v project estimate) l c' →
      Since fixed l c l c' → R true l c') : Wp fixed (Kdive.withinBudget project estimate) l c R := by
  refine .seq (h.select ?_)
  intro c1 h1 hx1
  rw [applyAll_nil]
  cases hb : ((protocol fixed).effs as c1).budgets.get project with
  | none => exact h1.ret (hno c1 h1 hx1)
  | some row =>
    refine .seq (h1.ofExcept ?_)
    intro remaining hrem
    by_cases hle : estimate ≤ remaining
    · rw [decide_eq_true hle]
      refine h1.ret (hyes c1 (h1.know (kept_affords hp) ?_) hx1)
      exact ⟨row, hb, fun _ => ⟨remaining, hrem, hle⟩⟩
    · rw [decide_eq_false hle]
      exact h1.ret (hno c1 h1 hx1)

theorem hostCapCheck {resource : Resource} {R : Post store (Option AdmissionOutcome)}
    (h : InTx fixed as [] F l c) (hr : .resource resource.id ∈ l.locks)
    (hhost : ∀ v, WellFormed v → F v → HostIs resource v)
    (hdeny : ∀ denial c', InTx fixed as [] F l c' → Since fixed l c l c' → R (some denial) l c')
    (hpass : ∀ c', InTx fixed as [] (fun v => F v ∧ HostRoom v resource.id []) l c' →
      Since fixed l c l c' → R none l c') : Wp fixed (Kdive.hostCapCheck resource) l c R := by
  refine .seq (h.ofExcept ?_)
  intro cap hcap
  refine .seq (h.select ?_)
  intro c1 h1 hx1
  rw [applyAll_nil]
  split
  · exact h1.ret (hdeny _ c1 h1 hx1)
  · rename_i hlt
    refine h1.ret (hpass c1 (h1.know (kept_hostRoom hr) ⟨?_, by simp, by simp⟩) hx1)
    have hsame := hhost _ h1.inv_effs h1.fact
    rw [HostIs, Option.map_eq_some_iff] at hsame
    obtain ⟨r, hget, hsame⟩ := hsame
    have hcaps : r.capabilities = resource.capabilities := congrArg (·.capabilities) hsame
    have hid : r.id = resource.id := congrArg (·.id) hsame
    refine ⟨r, cap, hget, ?_, by omega⟩
    rw [← hcap]
    simp only [resolveCap, resolveCap.invalid, hcaps, hid]

variable {request : AllocationRequest}

theorem resolvePcieClaim {R : Post store GateResult}
    (h : InTx fixed as [] F l c) (hr : .resource request.resource.id ∈ l.locks)
    (hhost : ∀ v, WellFormed v → F v → HostIs request.resource v)
    (hroom : ∀ v, WellFormed v → F v → HostRoom v request.resource.id [])
    (hdeny : ∀ denial devices c', InTx fixed as [] F l c' →
      Since fixed l c l c' → R ⟨some denial, devices⟩ l c') (hpass : ∀ devices c', InTx fixed as []
        (fun v => F v ∧ HostRoom v request.resource.id devices) l c' →
      Since fixed l c l c' → R ⟨none, devices⟩ l c') : Wp fixed (Kdive.resolvePcieClaim request) l c R := by
  unfold Kdive.resolvePcieClaim
  split
  · refine h.ret (hpass [] c (h.know (kept_hostRoom hr) ?_) (.refl h.good h.inv))
    exact hroom _ h.inv_effs h.fact
  · refine .seq (h.select ?_)
    intro c1 h1 hx1
    rw [applyAll_nil]
    refine .seq (h1.ofExcept ?_)
    intro resolution hres
    obtain ⟨hfree, hdistinct⟩ := resolveMultiset_devices hres
    cases resolution.outcome with
    | config | capacity => exact h1.ret (hdeny _ _ c1 h1 hx1)
    | matched =>
      refine h1.ret (hpass _ c1 (h1.know (kept_hostRoom hr) ?_) hx1)
      have hbefore := hroom _ h1.inv_effs h1.fact
      have hsame := hhost _ h1.inv_effs h1.fact
      rw [HostIs, Option.map_eq_some_iff] at hsame
      obtain ⟨r, hget, hsame⟩ := hsame
      refine ⟨hbefore.below, ?_, ?_⟩
      · intro id a ha hdev x hx y hy heq
        obtain ⟨d, hd, rfl⟩ := List.mem_map.mp hx
        refine hfree d hd (List.mem_map.mpr ⟨y, ?_, heq.symm⟩)
        exact List.mem_flatMap.mpr ⟨a, List.mem_filter.mpr ⟨Table.mem_of_get ha, hdev⟩, hy⟩
      · intro r0 hr0 hnodup
        rw [hget, Option.some.injEq] at hr0
        have hcaps : r.capabilities = request.resource.capabilities :=
          congrArg (·.capabilities) hsame
        have := hdistinct (by simpa only [descriptorsFor, ← hcaps, hr0] using hnodup)
        rw [claimsFrom, List.map_map]
        exact this

theorem admissionGate {R : Post store GateResult} (h : InTx fixed as [] F l c) (hp : .project request.project ∈ l.locks)
    (hr : .resource request.resource.id ∈ l.locks) (hhost : ∀ v, WellFormed v → F v → HostIs request.resource v)
    (hdeny : ∀ denial devices c', InTx fixed as [] F l c' →
      Since fixed l c l c' → R ⟨some denial, devices⟩ l c') (hpass : ∀ devices c', InTx fixed as []
        (fun v => F v ∧ Passes fixed request.project request.resource.id estimate devices v) l c' →
      Since fixed l c l c' → R ⟨none, devices⟩ l c') : Wp fixed (Kdive.admissionGate request estimate) l c R := by
  have hdeny' : ∀ {G : Db → Prop} denial devices c0 c', Since fixed l c l c0 →
      InTx fixed as [] (fun v => F v ∧ G v) l c' → Since fixed l c0 l c' →
      R ⟨some denial, devices⟩ l c' := by
    intro G denial devices c0 c' hx0 h' hx
    exact hdeny denial devices c' (h'.conseq h.kept fun _ _ hv => hv.1) (hx0.trans hx)
  unfold Kdive.admissionGate
  split
  · exact h.ret (hdeny _ _ c h (.refl h.good h.inv))
  refine .seq (h.withinQuota (kept_grantRoom hp) (fun _ hv => hv) ?_ ?_)
  · intro c1 h1 hx1
    exact h1.ret (hdeny _ _ c1 h1 hx1)
  intro c1 h1 hx1
  refine .seq (h1.withinBudget hp ?_ ?_)
  · intro c2 h2 hx2
    exact h2.ret (hdeny' _ _ c1 c2 hx1 h2 hx2)
  intro c2 h2 hx2
  refine .seq (h2.hostCapCheck hr (fun v hv hF => hhost v hv hF.1.1) ?_ ?_)
  · intro denial c3 h3 hx3
    exact h3.ret (hdeny _ _ c3 (h3.conseq h.kept fun _ _ hv => hv.1.1) ((hx1.trans hx2).trans hx3))
  intro c3 h3 hx3
  refine h3.resolvePcieClaim hr (fun v hv hF => hhost v hv hF.1.1.1) (fun v _ hF => hF.2) ?_ ?_
  · intro denial devices c4 h4 hx4
    exact hdeny _ _ c4 (h4.conseq h.kept fun _ _ hv => hv.1.1.1) (((hx1.trans hx2).trans hx3).trans hx4)
  · intro devices c4 h4 hx4
    refine hpass devices c4 (h4.conseq (h.kept.and (kept_passes hp hr)) ?_) (((hx1.trans hx2).trans hx3).trans hx4)
    rintro v - ⟨⟨⟨⟨hF, hquota⟩, hbudget⟩, -⟩, hroom⟩
    exact ⟨hF, hquota, hbudget, hroom⟩

/-! ## Grant and enqueue -/

theorem recordKeyIf {key : Option String} {principal kind : String} {id : Uuid}
    {R : Post store Unit} (h : InTx fixed as ws F l c)
    (hR : ∀ k l' c', InTx fixed as (ws ++ keyWrites k) (fun v => F v ∧ SeesKeyFree ws k v) l' c' →
      (∀ x ∈ Action.keyNeeds k, x ∈ l'.locks) → Since fixed l c l' c' → R () l' c') :
    Wp fixed (Kdive.recordKeyIf key principal project kind id) l c R := by
  have hnone : ∀ v, SeesKeyFree ws none v := fun v k hk => by cases hk
  cases key with
  | none =>
    refine h.ret (hR none l c ?_ (by simp [Action.keyNeeds]) (.refl h.good h.inv))
    rw [keyWrites, Option.map_none, Option.toList_none, List.append_nil]
    exact h.know (kept_seesKeyFree (by simp [Action.keyNeeds])) (hnone _)
  | some key =>
    refine .catching (h.insertFree rfl (List.Subset.refl _) ?_) ?_
    · intro l' c' hfree hkey h' hx _
      have hneeds : ∀ x ∈ Action.keyNeeds (some ⟨key, principal, project, kind, id⟩), x ∈ l'.locks := by
        simpa [Action.keyNeeds] using hkey
      refine hR (some ⟨key, principal, project, kind, id⟩) l' c' (h'.know (kept_seesKeyFree hneeds) ?_) hneeds hx
      rintro k hk
      rw [← Option.some.inj hk]
      simpa using hfree
    · intro e
      split
      · exact ⟨_, rfl⟩
      · exact ⟨_, rfl⟩

abbrev atMostOne (as : List Action) : Prop := as.length ≤ 1

/-- What is pending is one action, complete, or none. -/
abbrev Clean (fixed : String → Prop) {α : Type} : Post store α := fun _ l c => Ready (protocol fixed) atMostOne l c

variable {hours : ℚ}

theorem grant {devices : List PCIeClaim} (h : InTx fixed [] [] F l c) (hp : .project request.project ∈ l.locks)
    (hr : .resource request.resource.id ∈ l.locks)
    (hpick : .picked request.resource.id ∈ l.locks) (hpriced : Priced estimate)
    (hsized : validateSize request.selector = .ok ()) (hpass : ∀ v, WellFormed v → F v →
      Passes fixed request.project request.resource.id estimate devices v) :
    Wp fixed (Kdive.grant request hours estimate devices) l c (Clean fixed) := by
  refine .seq (h.ask ?_)
  intro clock
  refine .seq (h.ofExcept ?_)
  intro expiry _
  refine .seq (h.ask ?_)
  intro fresh
  refine .seq (h.insert ?_)
  intro l1 c1 h1 hrow hx1
  refine .seq (h1.reserve (hx1.mem_locks hp) hpriced ?_)
  rintro x hdelta l2 c2 h2 hbudget hx2
  refine .seq (h2.recordKeyIf ?_)
  intro key l3 c3 h3 hkeys hx3
  refine .seq (h3.auditFor ?_)
  intro l4 c4 h4 hx4
  have hx := (hx1.trans hx2).trans (hx3.trans hx4)
  refine h4.ret (During.done
    (a := Action.grant (Allocations.stamped _ l.now) request.resource.id x key ⟨_, rfl, rfl, rfl⟩)
    h4 ?_ ?_ ?_)
  · exact Nat.le_refl 1
  · intro k hk
    simp only [Action.need, List.mem_append, List.mem_cons, List.not_mem_nil, or_false] at hk
    rcases hk with (rfl | rfl | rfl | rfl | rfl) | hk
    · exact hx.mem_locks hp
    · exact hx.mem_locks hr
    · exact hx.mem_locks hpick
    · exact (hx2.trans (hx3.trans hx4)).mem_locks hrow
    · exact (hx3.trans hx4).mem_locks hbudget
    · exact hx4.mem_locks (hkeys k hk)
  · rintro v hv ⟨⟨hF, hfresh⟩, hkey⟩
    have hpass := hpass v hv hF
    refine ⟨hfresh, rfl, rfl, rfl, ⟨rfl, rfl⟩, sized_of_validateSize hsized rfl rfl, hpass.quota,
      hdelta ▸ hpass.budget, hdelta ▸ hpriced, hpass.room, ?_⟩
    intro k hk
    have := hkey k hk
    rw [get_idempotencyKeys_applyAll] at this
    exact this

theorem enqueue (h : InTx fixed [] [] F l c) (hp : .project request.project ∈ l.locks)
    (hsized : validateSize request.selector = .ok ()) : Wp fixed (Kdive.enqueue request) l c (Clean fixed) := by
  refine .seq (h.withinQuota (kept_pendingRoom hp) (fun _ hv => hv) ?_ ?_)
  · intro c1 h1 _
    exact h1.ret (h1.ready (Nat.zero_le 1))
  intro c1 h1 hx1
  refine .seq (h1.ask ?_)
  intro clock
  refine .seq (h1.ask ?_)
  intro fresh
  refine .seq (h1.insert ?_)
  intro l2 c2 h2 hrow hx2
  refine .seq (h2.recordKeyIf ?_)
  intro key l3 c3 h3 hkeys hx3
  refine .seq (h3.auditFor ?_)
  intro l4 c4 h4 hx4
  refine h4.ret (During.done (a := Action.enqueue (Allocations.stamped _ l.now) key ⟨_, rfl, rfl, rfl⟩) h4 ?_ ?_ ?_)
  · exact Nat.le_refl 1
  · intro k hk
    simp only [Action.need, List.mem_append, List.mem_cons, List.not_mem_nil, or_false] at hk
    rcases hk with (rfl | rfl) | hk
    · exact (hx2.trans (hx3.trans hx4)).mem_locks hp
    · exact (hx3.trans hx4).mem_locks hrow
    · exact hx4.mem_locks (hkeys k hk)
  · rintro v hv ⟨⟨⟨-, hquota⟩, hfresh⟩, hkey⟩
    refine ⟨hfresh, rfl, ⟨rfl, rfl, rfl⟩, ⟨rfl, rfl⟩, sized_of_validateSize hsized rfl rfl, hquota, ?_⟩
    intro k hk
    have := hkey k hk
    rw [get_idempotencyKeys_applyAll] at this
    exact this

/-! ## `admit` -/

theorem resolveReplay {principal key kind label : String}
    {R : Post store (Option Allocation)} (h : InTx fixed as [] F l c)
    (hR : ∀ row c', InTx fixed as [] F l c' → Since fixed l c l c' → R row l c') :
    Wp fixed (Kdive.resolveReplay principal key kind label) l c R := by
  refine .seq (h.select ?_)
  intro c1 h1 hx1
  split
  · exact h1.ret (hR none c1 h1 hx1)
  · refine .seq (h1.select ?_)
    intro c2 h2 hx2
    split
    · exact h2.ret (hR _ c2 h2 (hx1.trans hx2))
    · exact h2.raise

variable (h : InTx fixed [] [] F l c) (hp : .project request.project ∈ l.locks)
  (hpick : .picked request.resource.id ∈ l.locks) (hlocks : ∀ k ∈ l.locks, (∃ r, k = .picked r) ∨ ∃ p, k = .project p)
  (hhost : ∀ v, WellFormed v → F v → HostIs request.resource v) (hpriced : Priced estimate)
  (hsized : validateSize request.selector = .ok ())
include h hp hpick hlocks hhost hpriced hsized

theorem checkThenDebit : Wp fixed (Kdive.checkThenDebit request hours estimate) l c (Clean fixed) := by
  refine .seq (h.advisoryLock _ (by simp) ?_ ?_)
  · intro v _ _ _
    refine ⟨hpick, ⟨_, hp⟩, .inr ?_⟩
    intro k hk hadv
    rcases hlocks k hk with ⟨r, rfl⟩ | hproj
    · cases hadv
    · exact hproj
  intro l1 c1 _ hr h1 hx1
  refine .seq (h1.admissionGate (hx1.mem_locks hp) hr hhost ?_ ?_)
  · intro denial devices c2 h2 _
    show Wp fixed (denyOrEnqueue request denial) l1 c2 _
    unfold denyOrEnqueue
    split
    · exact h2.ret (h2.ready (Nat.zero_le 1))
    · exact h2.enqueue (hx1.mem_locks hp) hsized
  · intro devices c2 h2 _
    exact h2.grant (hx1.mem_locks hp) hr (hx1.mem_locks hpick) hpriced hsized fun v _ hv => hv.2

theorem admitUnderProjectLock : Wp fixed (Kdive.admitUnderProjectLock request hours estimate) l c (Clean fixed) := by
  unfold Kdive.admitUnderProjectLock
  split
  · exact h.checkThenDebit hp hpick hlocks hhost hpriced hsized
  · refine .seq (h.resolveReplay ?_)
    intro row c1 h1 _
    cases row with
    | none => exact h1.checkThenDebit hp hpick hlocks hhost hpriced hsized
    | some =>
      dsimp only
      split
      · exact h1.ret (h1.ready (Nat.zero_le 1))
      · exact h1.ret (h1.ready (Nat.zero_le 1))
end Lib.During

namespace Kdive
open Lib

theorem priced_of_bind {x : Except Err ℚ} {estimate : ℚ} (h : (x >>= quantizeKcu) = .ok estimate) :
    Priced estimate := by
  cases x with
  | error => cases h
  | ok value => exact ⟨value, h⟩

variable {B : List Action → Prop}
variable {cfg : Config}

theorem priceWindowAndEstimate_keeps {request : AllocationRequest}
    {R : Post store (ℚ × ℚ)} (h : InTx fixed as [] F l c) (hB : B as)
    (hR : ∀ hours estimate c', Priced estimate → validateSize request.selector = .ok () →
      InTx fixed as [] F l c' → Since fixed l c l c' → R (hours, estimate) l c') :
    Keeps (protocol fixed) B (priceWindowAndEstimate cfg request) l c R := by
  refine .seq (.ofExcept (h.ready hB) ?_)
  intro hours _
  refine .seq (.ofExcept (h.ready hB) ?_)
  intro _ hsized
  refine .seq (.ofExcept (h.ready hB) ?_)
  intro _ _
  refine .seq (.seq (.select h hB ?_))
  intro c1 h1 hx1
  split
  · refine .ret (h1.ready hB) ?_
    refine .seq (.ofExcept (h1.ready hB) ?_)
    intro estimate hestimate
    exact .ret (h1.ready hB) (hR hours estimate c1 (priced_of_bind hestimate) hsized h1 hx1)
  · exact .raise (h1.ready hB)

theorem tryCategorized_keeps {α β : Type} {p : Async α} {handler : CategorizedError → Async β}
    {orElse : α → Async β} {S : Post store α} {R : Post store β}
    (hp : Keeps (protocol fixed) B p l c S) (hok : ∀ a l' c', Ready (protocol fixed) B l' c' → S a l' c' →
      Keeps (protocol fixed) B (orElse a) l' c' R) (hh : ∀ e l' c', Ready (protocol fixed) B l' c' →
      Keeps (protocol fixed) B (handler e) l' c' R) :
    Keeps (protocol fixed) B (tryCategorized p handler orElse) l c R := by
  refine .attempt hp (fun a l' c' _ => hok a l' c') ?_
  intro e l' c' _ hready
  cases e with
  | categorized e => exact hh e l' c' hready
  | _ => exact .raise hready

theorem admit_keeps {request : AllocationRequest} (h : InTx fixed [] [] F l c)
    (hpick : .picked request.resource.id ∈ l.locks) (hlocks : ∀ k ∈ l.locks, ∃ r, k = .picked r)
    (hhost : ∀ v, WellFormed v → F v → HostIs request.resource v) :
    Keeps (protocol fixed) During.atMostOne (admitRequest cfg request) l c fun _ _ _ => True := by
  have hfail : ∀ (e : CategorizedError) l' c', Ready (protocol fixed) During.atMostOne l' c' →
      Keeps (protocol fixed) During.atMostOne (pure (AdmissionOutcome.ofError e) : Async _) l' c'
        fun _ _ _ => True := fun e l' c' hready => .ret hready trivial
  refine tryCategorized_keeps (S := fun priced l' c' => Priced priced.2 ∧
    validateSize request.selector = .ok () ∧ l' = l ∧ InTx fixed [] [] F l c') ?_ ?_ hfail
  · refine priceWindowAndEstimate_keeps h (Nat.zero_le 1) ?_
    intro hours estimate c1 hpriced hsized h1 _
    exact ⟨hpriced, hsized, rfl, h1⟩
  rintro ⟨hours, estimate⟩ l1 c1 - ⟨hpriced, hsized, rfl, h1⟩
  refine tryCategorized_keeps (.block h1 (Nat.zero_le 1) ?_) (fun _ _ _ hready _ => .ret hready trivial) hfail
  intro hin
  have hsame : (l1.enter 0).locks = l1.locks := Conn.locks_enter l1 0
  refine .seq (hin.advisoryLock _ (by simp) ?_ ?_)
  · intro v _ _ _
    left
    intro k hk
    rw [hsame] at hk
    obtain ⟨r, rfl⟩ := hlocks k hk
    exact ⟨rfl, rfl⟩
  intro l2 c2 hl2 hp h2 hx2
  refine h2.admitUnderProjectLock hp ?_ ?_ hhost hpriced hsized
  · exact hx2.mem_locks (hsame ▸ hpick)
  · intro k hk
    rw [hl2, hsame] at hk
    rcases List.mem_append.mp hk with hk | hk
    · exact .inl (hlocks k hk)
    · exact .inr ⟨_, List.mem_singleton.mp (List.mem_filter.mp hk).1⟩

/-! ## `request_admission` -/

theorem resolveRequestSizing_keeps {shape : Option String} {vcpus memoryGb diskGb : Option Int}
    {R : Post store ResolvedSizing} (h : InTx fixed as [] F l c) (hB : B as)
    (hR : ∀ sizing c', InTx fixed as [] F l c' → Since fixed l c l c' → R sizing l c') :
    Keeps (protocol fixed) B (resolveRequestSizing shape vcpus memoryGb diskGb) l c R := by
  unfold resolveRequestSizing
  split
  · refine .seq (.select h hB ?_)
    intro c1 h1 hx1
    split
    · exact .raise (h1.ready hB)
    · exact .ret (h1.ready hB) (hR _ c1 h1 hx1)
  · split
    · exact .ret (h.ready hB) (hR _ c h (.refl h.good h.inv))
    · exact .raise (h.ready hB)

theorem mem_hosts_of_target {x : Placement.Candidates} {r : Resource}
    (h : x.resources.head?.or x.capacityCandidate = some r) : r ∈ x.hosts := by
  rcases Option.or_eq_some_iff.mp h with hr | ⟨-, hr⟩
  · exact List.mem_append_left _ (List.mem_of_head? hr)
  · exact List.mem_append_right _ (by simp [hr])

theorem requestAdmission_does {ctx : RequestContext} {project : String}
    {spec : AdmissionRequestSpec} {key : Option String} (h : InTx fixed [] [] F l c) (hlocks : l.locks = []) :
    Wp fixed (requestAdmission cfg ctx project spec key) l c (During.Clean fixed) := by
  refine Keeps.attemptDoes (B := During.atMostOne) (S := fun _ l' c' => l' = l ∧ InTx fixed [] [] F l c') ?_ ?_ ?_
  · refine Keeps.seq (resolveRequestSizing_keeps h (Nat.zero_le 1) ?_)
    intro sizing c1 h1 _
    refine .seq (.ofExcept (h1.ready (Nat.zero_le 1)) ?_)
    intro specs _
    exact .ret (h1.ready (Nat.zero_le 1)) ⟨rfl, h1⟩
  · rintro ⟨sizing, specs⟩ l1 c1 - ⟨rfl, h1⟩
    refine .seq (.seq (h1.resolveCandidates (by simp) ?_))
    intro x l2 c2 hl2 hpicked h2 _
    refine h2.ret ?_
    cases htarget : x.resources.head?.or x.capacityCandidate with
    | none => exact h2.ret (h2.ready (Nat.zero_le 1))
    | some r =>
      have hmem := mem_hosts_of_target htarget
      refine .bind (admit_keeps h2 (hpicked r hmem) ?_ fun v _ hv => hv.2 r hmem).does ?_
      · intro k hk
        rcases hl2 k hk with hk | hk
        · simp [hlocks] at hk
        · exact hk
      · rintro outcome l3 c3 - ⟨hready, -⟩
        split
        · exact .ret hready.good hready.inv hready
        · exact .ret hready.good hready.inv hready
  · intro e l' c' hready
    cases e with
    | categorized => exact .ret hready.good hready.inv hready
    | _ => exact .raise hready.good hready.inv
end Kdive
