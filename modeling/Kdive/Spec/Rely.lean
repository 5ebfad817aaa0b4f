import Kdive.Spec.Actions

/-! # What a lock promises

`Rely fixed H c c'` is all that the other sessions can have done between `c` and `c'` while a session held the keys
`H`. Without any key: rows are never deleted, an allocation stays in its project, a host changes in nothing but its
cordon. The project's lock keeps its allocations' rows, all but two columns, its ledger rows and its running total;
the resource's keeps others from claiming a slot or a device of the host; the lock of a row keeps the row.
-/

namespace Kdive
open Lib (Time Keyed Table rel_of_locked)
open Write Option

def Allocation.ofProject (project : String) (a : Allocation) : Option Allocation :=
  if a.project = project then some a.core else none

structure RowRely (H : List LockKey) (id : Uuid) (row row' : Option Allocation) : Prop where
  persists : ∀ a, row = some a → ∃ a', row' = some a' ∧ a'.project = a.project
  project : ∀ p, .project p ∈ H → row'.bind (·.ofProject p) = row.bind (·.ofProject p)
  devices : ∀ r, .resource r ∈ H → ∀ a', row' = some a' → holdsDevices a' r = true →
    ∃ a, row = some a ∧ holdsDevices a r = true ∧ a.pcieClaim = a'.pcieClaim ∧
      (a'.state.occupying = true → a.state.occupying = true)
  locked : .allocationRow id ∈ H → row' = row

structure SystemRely (H : List LockKey) (id : Uuid) (row row' : Option System) : Prop where
  persists : ∀ s, row = some s → ∃ s', row' = some s' ∧ s'.allocationId = s.allocationId
  project : ∀ s s', row = some s → row' = some s' → s'.project = s.project
  /-- Under the System's lock its state stays, but for `provision_defined`. -/
  state : .system id ∈ H → ∀ s s', row = some s → row' = some s' →
    s'.state = s.state ∨ (s.state = .defined ∧ s'.state = .provisioning)
  /-- Under the project's lock no System is added that counts against its quota. -/
  counted : ∀ p, .project p ∈ H → ∀ s', row' = some s' → s'.project = p → s'.state.terminal = false →
    ∃ s, row = some s ∧ s.project = p ∧ s.state.terminal = false
  locked : .systemRow id ∈ H → row' = row

structure BudgetRely (fixed : String → Prop) (H : List LockKey) (project : String)
    (row row' : Option Budget) : Prop where
  persists : row.isSome → row'.isSome
  limit : fixed project → row'.map (·.limitKcu) = row.map (·.limitKcu)
  spent : .project project ∈ H → ∀ b, row = some b → ∃ b', row' = some b' ∧ b'.spentKcu = b.spentKcu
  locked : .budgetRow project ∈ H → row' = row

/-- A host but for its cordon. -/
def Resource.uncordoned (r : Resource) : Resource := { r with cordoned := false }

/-- What the commits of others leave while this session holds the locks `H`. -/
structure Rely (fixed : String → Prop) (H : List LockKey) (c c' : Db) : Prop where
  quotas : c'.quotas = c.quotas
  coefficients : c'.costClassCoefficients = c.costClassCoefficients
  resources : ∀ id, (c'.resources.get id).map (·.uncordoned) = (c.resources.get id).map (·.uncordoned)
  allocations : ∀ id, RowRely H id (c.allocations.get id) (c'.allocations.get id)
  systems : ∀ id, SystemRely H id (c.systems.get id) (c'.systems.get id)
  budgets : ∀ p, BudgetRely fixed H p (c.budgets.get p) (c'.budgets.get p)
  keys : ∀ k, .idempotencyKeyRow k.1 k.2 ∈ H → c'.idempotencyKeys.get k = c.idempotencyKeys.get k
  ledger : ∀ p, .project p ∈ H → c'.ledger.filter (·.project = p) = c.ledger.filter (·.project = p)

variable {fixed : String → Prop} {H H' : List LockKey}

theorem RowRely.refl (id : Uuid) (row : Option Allocation) : RowRely H id row row :=
  ⟨fun a h => ⟨a, h, rfl⟩, fun _ _ => rfl, fun _ _ a' h hd => ⟨a', h, hd, rfl, fun ho => ho⟩,
    fun _ => rfl⟩

theorem RowRely.trans {id : Uuid} {x y z : Option Allocation} (h : RowRely H id x y)
    (h' : RowRely H id y z) : RowRely H id x z := by
  refine ⟨?_, fun p hp => (h'.project p hp).trans (h.project p hp), ?_,
    fun hk => (h'.locked hk).trans (h.locked hk)⟩
  · intro a ha
    obtain ⟨b, hb, hab⟩ := h.persists a ha
    obtain ⟨d, hd, hbd⟩ := h'.persists b hb
    exact ⟨d, hd, hbd.trans hab⟩
  · intro r hr a' ha' hdev
    obtain ⟨b, hb, hdev', hclaim, hocc⟩ := h'.devices r hr a' ha' hdev
    obtain ⟨a, ha, hdev'', hclaim', hocc'⟩ := h.devices r hr b hb hdev'
    exact ⟨a, ha, hdev'', hclaim'.trans hclaim, fun ho => hocc' (hocc ho)⟩

theorem SystemRely.refl (id : Uuid) (row : Option System) : SystemRely H id row row := by
  refine ⟨fun s h => ⟨s, h, rfl⟩, ?_, ?_, fun _ _ s' h hp ht => ⟨s', h, hp, ht⟩, fun _ => rfl⟩
  · intro s s' h h'
    rw [some.inj (h.symm.trans h')]
  · intro _ s s' h h'
    rw [some.inj (h.symm.trans h')]
    exact .inl rfl

theorem SystemRely.trans {id : Uuid} {x y z : Option System} (h : SystemRely H id x y)
    (h' : SystemRely H id y z) : SystemRely H id x z := by
  refine ⟨?_, ?_, ?_, ?_, fun hk => (h'.locked hk).trans (h.locked hk)⟩
  · intro s hs
    obtain ⟨s', hs', he⟩ := h.persists s hs
    obtain ⟨s'', hs'', he'⟩ := h'.persists s' hs'
    exact ⟨s'', hs'', he'.trans he⟩
  · intro s s'' hs hs''
    obtain ⟨s', hs', -⟩ := h.persists s hs
    exact (h'.project s' s'' hs' hs'').trans (h.project s s' hs hs')
  · intro hk s s'' hs hs''
    obtain ⟨s', hs', -⟩ := h.persists s hs
    have h1 := h.state hk s s' hs hs'
    have h2 := h'.state hk s' s'' hs' hs''
    grind
  · intro p hp s'' hs'' hproj hlive
    obtain ⟨s', hs', hproj', hlive'⟩ := h'.counted p hp s'' hs'' hproj hlive
    exact h.counted p hp s' hs' hproj' hlive'

theorem BudgetRely.refl (p : String) (row : Option Budget) : BudgetRely fixed H p row row :=
  ⟨id, fun _ => rfl, fun _ b h => ⟨b, h, rfl⟩, fun _ => rfl⟩

theorem BudgetRely.trans {p : String} {x y z : Option Budget} (h : BudgetRely fixed H p x y)
    (h' : BudgetRely fixed H p y z) : BudgetRely fixed H p x z := by
  refine ⟨fun hs => h'.persists (h.persists hs), fun hf => (h'.limit hf).trans (h.limit hf), ?_,
    fun hk => (h'.locked hk).trans (h.locked hk)⟩
  intro hp b hb
  obtain ⟨b', hb', he⟩ := h.spent hp b hb
  obtain ⟨b'', hb'', he'⟩ := h'.spent hp b' hb'
  exact ⟨b'', hb'', he'.trans he⟩

namespace Rely
theorem refl (H : List LockKey) (c : Db) : Rely fixed H c c :=
  ⟨rfl, rfl, fun _ => rfl, fun id => .refl id _, fun id => .refl id _, fun p => .refl p _,
    fun _ _ => rfl, fun _ _ => rfl⟩

variable {c c' : Db}

theorem trans {c'' : Db} (h : Rely fixed H c c') (h' : Rely fixed H c' c'') : Rely fixed H c c'' :=
  ⟨h'.quotas.trans h.quotas, h'.coefficients.trans h.coefficients, fun id => (h'.resources id).trans (h.resources id),
    fun id => (h.allocations id).trans (h'.allocations id),
    fun id => (h.systems id).trans (h'.systems id), fun p => (h.budgets p).trans (h'.budgets p),
    fun k hk => (h'.keys k hk).trans (h.keys k hk),
    fun p hp => (h'.ledger p hp).trans (h.ledger p hp)⟩

theorem mono (hH : H ⊆ H') (h : Rely fixed H' c c') : Rely fixed H c c' := by
  refine ⟨h.quotas, h.coefficients, h.resources, ?_, ?_, ?_, fun k hk => h.keys k (hH hk),
    fun p hp => h.ledger p (hH hp)⟩
  · intro id
    have := h.allocations id
    exact ⟨this.persists, fun p hp => this.project p (hH hp), fun r hr => this.devices r (hH hr),
      fun hk => this.locked (hH hk)⟩
  · intro id
    have := h.systems id
    exact ⟨this.persists, this.project, fun hk => this.state (hH hk), fun p hp => this.counted p (hH hp),
      fun hk => this.locked (hH hk)⟩
  · intro p
    have := h.budgets p
    exact ⟨this.persists, this.limit, fun hp => this.spent (hH hp), fun hk => this.locked (hH hk)⟩

/-- A write made under its keys leaves the two states as far apart as they were. -/
theorem write {w : Write} (hw : w.keys ⊆ H) (h : Rely fixed H c c') : Rely fixed H (w.apply c) (w.apply c') := by
  refine ⟨by simpa using h.quotas, by simpa using h.coefficients, ?_, ?_, ?_, ?_, ?_, ?_⟩
  · intro id
    rw [w.get_resources, w.get_resources]
    have hid := h.resources id
    cases w with
    | setCordoned id' =>
      by_cases hx : id' = id
      · simp only [onResource, if_pos hx, map_map]
        exact hid
      · simpa only [onResource, if_neg hx] using hid
    | _ => exact hid
  · intro id
    rw [w.get_allocations, w.get_allocations]
    exact rel_of_locked (.refl id) (fun hk => (h.allocations id).locked (hw hk)) onAllocation_of_notMem
      (h.allocations id)
  · intro id
    rw [w.get_systems, w.get_systems]
    exact rel_of_locked (.refl id) (fun hk => (h.systems id).locked (hw hk)) onSystem_of_notMem (h.systems id)
  · intro p
    rw [w.get_budgets, w.get_budgets]
    exact rel_of_locked (.refl p) (fun hk => (h.budgets p).locked (hw hk)) onBudget_of_notMem (h.budgets p)
  · intro k hk
    rw [w.get_idempotencyKeys, w.get_idempotencyKeys, h.keys k hk]
  · intro p hp
    rw [w.ledger_apply, w.ledger_apply, List.filter_append, List.filter_append, h.ledger p hp]

/-! ## What the guards read -/

variable {c c' : Db}

variable {p : String} {id : Uuid}

theorem core_of_ofProject {x y : Option Allocation} {a : Allocation}
    (h : x.bind (·.ofProject p) = y.bind (·.ofProject p)) (ha : y = some a) (hap : a.project = p) :
    ∃ b, x = some b ∧ b.core = a.core := by
  rw [ha, bind_some, Allocation.ofProject, if_pos hap] at h
  obtain ⟨b, hb, hof⟩ := bind_eq_some_iff.mp h
  refine ⟨b, hb, ?_⟩
  unfold Allocation.ofProject at hof
  split at hof
  · exact some.inj hof
  · cases hof

section
variable (h : Rely fixed H c c')
include h

theorem row_of_project (hp : .project p ∈ H)
    {a : Allocation} (ha : c.allocations.get id = some a) (hap : a.project = p) :
    ∃ a', c'.allocations.get id = some a' ∧ a'.core = a.core :=
  core_of_ofProject ((h.allocations id).project p hp) ha hap

theorem row_of_project' (hp : .project p ∈ H)
    {a' : Allocation} (ha' : c'.allocations.get id = some a') (hap : a'.project = p) :
    ∃ a, c.allocations.get id = some a ∧ a.core = a'.core :=
  core_of_ofProject ((h.allocations id).project p hp).symm ha' hap

theorem rowIs {row : Allocation} (hp : .project row.project ∈ H) (hrow : RowIs c row) : RowIs c' row := by
  obtain ⟨a, ha, hcore⟩ := hrow
  have hap : a.project = row.project := congrArg (·.project) hcore
  obtain ⟨a', ha', hcore'⟩ := h.row_of_project hp ha hap
  exact ⟨a', ha', hcore'.trans hcore⟩
end

/-- A table that has the core of every row of the project counts no fewer of them. -/
theorem countP_le_of_cores {t t' : Table Allocation}
    (h : ∀ id a, t.get id = some a → a.project = p → ∃ b, t'.get id = some b ∧ b.core = a.core)
    {f : Allocation → Bool} (hf : ∀ a b : Allocation, a.core = b.core → f a = f b) :
    t.rows.countP (fun a => a.project = p && f a) ≤ t'.rows.countP (fun a => a.project = p && f a) := by
  refine Table.countP_le_of_keys fun a ha hpred => ?_
  simp only [Bool.and_eq_true, decide_eq_true_eq] at hpred
  obtain ⟨b, hb, hcore⟩ := h _ a (Table.get_key_of_mem ha) hpred.1
  refine ⟨b, Table.mem_of_get hb, Table.key_eq_of_get hb, ?_⟩
  have hproj : b.project = a.project := congrArg (·.project) hcore
  simp [hf b a hcore, hproj, hpred.1, hpred.2]

variable (h : Rely fixed H c c')
include h

theorem countP_of_project (hp : .project p ∈ H)
    {f : Allocation → Bool} (hf : ∀ a b : Allocation, a.core = b.core → f a = f b) :
    c'.allocations.rows.countP (fun a => a.project = p && f a) =
      c.allocations.rows.countP (fun a => a.project = p && f a) := by
  apply Nat.le_antisymm
  · exact countP_le_of_cores (fun _ _ => h.row_of_project' hp) hf
  · exact countP_le_of_cores (fun _ _ => h.row_of_project hp) hf

theorem quotaRoom {cap : Quota → Int} {count : Db → String → Nat} (hcount : count c' p = count c p)
    (hroom : QuotaRoom cap count c p) : QuotaRoom cap count c' p := by
  obtain ⟨q, hq, hlt⟩ := hroom
  exact ⟨q, h.quotas ▸ hq, hcount ▸ hlt⟩

section
variable (hp : .project p ∈ H)
include hp

theorem grantRoom (hroom : GrantRoom c p) : GrantRoom c' p :=
  h.quotaRoom (h.countP_of_project hp fun a b hab => by
    rw [show a.state = b.state from congrArg (·.state) hab]) hroom

theorem pendingRoom (hroom : PendingRoom c p) : PendingRoom c' p :=
  h.quotaRoom (h.countP_of_project hp fun a b hab => by
    rw [show a.state = b.state from congrArg (·.state) hab]) hroom

theorem systemRoom (hroom : SystemRoom c p) : SystemRoom c' p := by
  obtain ⟨q, hq, hlt⟩ := hroom
  refine ⟨q, h.quotas ▸ hq, lt_of_le_of_lt (Int.ofNat_le.mpr ?_) hlt⟩
  refine Table.countP_le_of_keys fun s' hs' hpred => ?_
  simp only [Bool.and_eq_true, decide_eq_true_eq, Bool.not_eq_true'] at hpred
  obtain ⟨s, hs, hproj, hlive⟩ :=
    (h.systems _).counted p hp s' (Table.get_key_of_mem hs') hpred.1 hpred.2
  exact ⟨s, Table.mem_of_get hs, Table.key_eq_of_get hs, by simp [hproj, hlive]⟩

theorem affords {delta : ℚ} (haff : Affords fixed c p delta) : Affords fixed c' p delta := by
  obtain ⟨b, hb, hrem⟩ := haff
  obtain ⟨b', hb', hspent⟩ := (h.budgets p).spent hp b hb
  refine ⟨b', hb', fun hf => ?_⟩
  have hlimit := (h.budgets p).limit hf
  rw [hb, hb', map_some, map_some, some.injEq] at hlimit
  rw [hlimit, hspent]
  exact hrem hf
end

theorem get_resource {r : Resource} (hr : c.resources.get id = some r) :
    ∃ r', c'.resources.get id = some r' ∧ r'.uncordoned = r.uncordoned := by
  have hid := h.resources id
  rw [hr, map_some] at hid
  simpa using hid

theorem countOccupying_le {host : Uuid} (hr : .resource host ∈ H) : countOccupying c' host ≤ countOccupying c host := by
  refine Table.countP_le_of_keys fun a' ha' hpred => ?_
  simp only [Bool.and_eq_true, decide_eq_true_eq] at hpred
  have hdev : holdsDevices a' host = true := by
    simp [holdsDevices, hpred.1, AllocationState.not_terminal_of_occupying hpred.2]
  obtain ⟨a, ha, hdev', -, hocc⟩ :=
    (h.allocations _).devices host hr a' (Table.get_key_of_mem ha') hdev
  refine ⟨a, Table.mem_of_get ha, Table.key_eq_of_get ha, ?_⟩
  simp only [holdsDevices, Bool.and_eq_true, decide_eq_true_eq] at hdev'
  simp [hdev'.1, hocc hpred.2]

theorem hostRoom {host : Uuid} {claim : List PCIeClaim}
    (hr : .resource host ∈ H) (hroom : HostRoom c host claim) : HostRoom c' host claim := by
  obtain ⟨r, cap, hget, hcap, hlt⟩ := hroom.below
  obtain ⟨r', hget', hsame⟩ := h.get_resource hget
  have hcaps : r'.capabilities = r.capabilities := congrArg (·.capabilities) hsame
  have hid : r'.id = r.id := congrArg (·.id) hsame
  refine ⟨⟨r', cap, hget', ?_, ?_⟩, ?_, ?_⟩
  · rw [← hcap]
    simp only [resolveCap, resolveCap.invalid, hcaps, hid]
  · have := h.countOccupying_le hr
    omega
  · intro id a' ha' hdev x hx y hy
    obtain ⟨a, ha, hdev', hclaim, -⟩ := (h.allocations id).devices host hr a' ha' hdev
    exact hroom.free id a ha hdev' x hx y (hclaim ▸ hy)
  · intro r0 hr0 hnodup
    rw [hget', some.injEq] at hr0
    refine hroom.distinct r hget ?_
    rw [← hr0] at hnodup
    simpa only [descriptorsFor, hcaps] using hnodup
end Rely
end Kdive
