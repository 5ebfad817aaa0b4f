import Kdive.Proof.Statements

/-! # The ledger's writers, inside a transaction

`reserve` and `reconcile` followed statement by statement: what each appends, and what the amount is.
-/

namespace Kdive
open Write Lib

/-- A write to an allocation's row or to the audit log: what a settlement reads, it leaves alone. -/
def Write.plain : Write → Bool
  | .patchAllocation _ _ _ => true
  | .insertAudit _ => true
  | _ => false

section
variable {ws : List Write} (hws : ∀ w ∈ ws, plain w = true) (v : Db)
include hws

theorem ledger_of_plain : (store.applyAll ws v).ledger = v.ledger := by
  refine Store.read_applyAll_of_eq (σ := store) Db.ledger ?_ v
  intro w hw db
  have := hws w hw
  cases w <;> simp_all [plain, apply]

theorem resources_of_plain : (store.applyAll ws v).resources = v.resources := by
  refine Store.read_applyAll_of_eq (σ := store) Db.resources ?_ v
  intro w hw db
  have := hws w hw
  cases w <;> simp_all [plain, apply]

theorem budgets_of_plain : (store.applyAll ws v).budgets = v.budgets := by
  refine Store.read_applyAll_of_eq (σ := store) Db.budgets ?_ v
  intro w hw db
  have := hws w hw
  cases w <;> simp_all [plain, apply]
end

/-- The settlement of `a` in the state `v`, for a row that is as it was read. -/
def SettlesFor (row a : Allocation) (delta : ℚ) (v : Db) : Prop :=
  RowIs v row ∧ ∃ actual, ActualCost v a actual ∧
    (Dec.sub actual (Accounting.sumOf v.ledger row.id .reserved) >>= quantizeKcu) = .ok delta

theorem kept_settlesFor {fixed : String → Prop} {K : List LockKey} {row a : Allocation} {delta : ℚ}
    (hk : .project row.project ∈ K) : Kept (protocol fixed) K (SettlesFor row a delta) := by
  rintro H v v' hH hr hv hv' ⟨hrow, actual, hactual, hdelta⟩
  refine ⟨Rely.rowIs hr (hH hk) hrow, actual, Rely.actualCost hr hactual, ?_⟩
  rwa [Rely.sumOf_eq hr (hH hk) hv hv' hrow]

def Allocation.stampedBy (a : Allocation) (started : Option Time) (ended : Time) : Allocation :=
  match started with
  | none => a
  | some t => { a with activeStartedAt := some t, activeEndedAt := some ended }
end Kdive

namespace Lib.During
open Kdive

variable {α : Type} {fixed : String → Prop} {as : List Action} {ws : List Write} {F : Db → Prop}
variable {l l' : Conn store} {c c' : Db} {R : Post store α}

/-! ## Postings -/

variable {a : Allocation}

theorem costClass {R : Post store String} (h : InTx fixed as ws F l c)
    (hR : ∀ host c' v, v = store.applyAll ws ((protocol fixed).effs as c') →
      a.resourceId.bind v.resources.get = some host →
      InTx fixed as ws F l c' → Since fixed l c l c' → R host.costClass l c') :
    Wp fixed (Accounting.costClass a) l c R := by
  refine .seq (h.select ?_)
  intro c' h' hx
  cases hhost : a.resourceId.bind (store.applyAll ws ((protocol fixed).effs as c')).resources.get with
  | some host => exact h'.ret (hR host c' _ rfl hhost h' hx)
  | none => exact h'.raise

variable {R : Post store Unit}

variable (h : InTx fixed as ws F l c)
include h

theorem applyToSpent {project : String} {delta : ℚ} (hp : .project project ∈ l.locks)
    (hR : ∀ l' c', InTx fixed as (ws ++ [.addSpent project delta]) F l' c' →
      .budgetRow project ∈ l'.locks → Since fixed l c l' c' → R () l' c') :
    Wp fixed (Accounting.applyToSpent project delta) l c R := by
  refine .seq (h.rows ?_ ?_ ?_)
  · intro v t k hk
    simp only [Accounting.addSpentStmt] at hk
    split at hk
    · rw [List.mem_singleton.mp hk]
      rfl
    · cases hk
  · intro v ws' hact w hw k hk
    simp only [Accounting.addSpentStmt, Except.ok.injEq] at hact ⊢
    subst hact
    split at hw
    case isTrue hc =>
      rw [List.mem_singleton.mp hw] at hk
      rw [if_pos hc]
      rcases List.mem_cons.mp hk with rfl | hk
      · exact List.mem_append_left _ hp
      · exact List.mem_append_right _ hk
    case isFalse => cases hw
  · intro l' c' ws' v _ hact hkeys h' hx
    simp only [Accounting.addSpentStmt, Except.ok.injEq] at hact hkeys
    subst hact
    cases hb : (v.budgets.get project).isSome with
    | false =>
      exact h'.raise
    | true =>
      simp only [hb, if_true] at h' hkeys ⊢
      simp only [Bool.not_true, Bool.false_eq_true, if_false]
      exact h'.ret (hR l' c' h' (hkeys _ (List.mem_singleton_self _)) hx)

theorem writeDelta {ty : LedgerEventType} {delta : ℚ}
    (hp : .project a.project ∈ l.locks) (hR : ∀ x : Posting, x.delta = delta → ∀ l' c',
      InTx fixed as (ws ++ x.writes ty a) F l' c' →
      .budgetRow a.project ∈ l'.locks → Since fixed l c l' c' → R () l' c') :
    Wp fixed (Accounting.writeDelta a ty delta) l c R := by
  refine .seq (h.costClass ?_)
  intro host c1 v _ _ h1 hx1
  refine h1.transaction ?_
  intro hin
  refine .seq (hin.ask ?_)
  intro host'
  have hnow : (l.enter 0).now = l.now := Conn.now_enter h1.isOpen 0
  have hlocks : (l.enter 0).locks = l.locks := Conn.locks_enter l 0
  refine .seq (hin.append ?_ ?_)
  · intro k hk
    rwa [List.mem_singleton.mp hk, hlocks]
  · intro l2 c2 _ h2 hx2
    refine h2.applyToSpent (hx2.mem_locks (hlocks ▸ hp)) ?_
    intro l3 c3 h3 hkey hx3
    refine ⟨_, _, h3, ?_⟩
    intro l'' h'' hl'' hx
    refine hR ⟨host'.uuid, l.now, host.costClass, delta⟩ rfl l'' c3 ?_ (hl'' ▸ hkey) ?_
    · rw [hnow, List.append_assoc] at h''
      exact h''
    · exact hx1.trans hx

theorem reserve {estimate : ℚ} (hp : .project a.project ∈ l.locks)
    (hpriced : Priced estimate) (hR : ∀ x : Posting, x.delta = estimate → ∀ l' c',
      InTx fixed as (ws ++ x.writes .reserved a) F l' c' →
      .budgetRow a.project ∈ l'.locks → Since fixed l c l' c' → R () l' c') :
    Wp fixed (Accounting.reserve a estimate) l c R := by
  refine .seq (h.ofExcept ?_)
  intro delta hdelta
  obtain ⟨value, hvalue⟩ := hpriced
  -- what was priced is on the grid already, so recording it does not round again
  obtain rfl : delta = estimate := quantizeKcu_of_onGrid (onGrid_of_quantizeKcu hvalue) hdelta
  exact h.writeDelta hp hR

/-! ## Settlement -/

theorem stampActiveEnded {ended : Time} {R : Post store Allocation}
    (hrow : ∀ v, WellFormed v → F v → ∃ row, Sees ws a.id (some row) v) (hR : ∀ row l' c', InTx fixed as
        (ws ++ stampEnded a.id row.activeStartedAt ended l.now)
        (fun v => F v ∧ Sees ws a.id (some row) v) l' c' →
      .allocationRow a.id ∈ l'.locks → Since fixed l c l' c' →
      R (a.stampedBy row.activeStartedAt ended) l' c') : Wp fixed (Accounting.stampActiveEnded a ended) l c R := by
  refine .seq (h.getForUpdate ?_ ?_)
  · intro l1 c1 hnone h1 _
    obtain ⟨row, hsees⟩ := hrow _ h1.inv_effs h1.fact
    rw [Sees] at hnone hsees
    cases hsees.symm.trans hnone
  · intro row l1 c1 h1 hkey hx1
    cases hstart : row.activeStartedAt with
    | none =>
      simp only [Option.bind_some, hstart]
      refine h1.ret ?_
      have := hR row l1 c1
      rw [hstart] at this
      exact this (by simpa [stampEnded] using h1) hkey hx1
    | some =>
      simp only [Option.bind_some, hstart]
      refine .seq (h1.updateRow (fun v _ hv => hv.2) ?_)
      intro l2 c2 h2 _ hx2
      refine h2.ret ?_
      have := hR row l2 c2
      rw [hstart] at this
      rw [hx1.now] at h2
      exact this h2 (hx2.mem_locks hkey) (hx1.trans hx2)

variable {R : Post store ℚ}

theorem resolveCoeff {cls : String}
    (hR : ∀ coefficient c', ((protocol fixed).effs as c').costClassCoefficients.get cls = some coefficient →
      InTx fixed as ws F l c' → Since fixed l c l c' → R coefficient.coeff l c') :
    Wp fixed (Accounting.resolveCoeff cls) l c R := by
  refine .seq (h.select ?_)
  intro c' h' hx
  rw [costClassCoefficients_applyAll]
  cases hcoeff : ((protocol fixed).effs as c').costClassCoefficients.get cls with
  | some coefficient => exact h'.ret (hR coefficient c' hcoeff h' hx)
  | none => exact h'.raise

theorem actualCost (hws : ∀ w ∈ ws, Write.plain w = true)
    (hR : ∀ actual c', ActualCost ((protocol fixed).effs as c') a actual →
      InTx fixed as ws F l c' → Since fixed l c l c' → R actual l c') : Wp fixed (Accounting.actualCost a) l c R := by
  refine .seq (h.ofExcept ?_)
  intro hours hhours
  by_cases hzero : hours = 0
  · rw [if_pos hzero]
    refine h.ret (hR 0 c (.unused ?_) h (.refl h.good h.inv))
    rw [hhours, hzero]
  · rw [if_neg hzero]
    cases hv : a.requestedVcpus with
    | none => exact h.raise
    | some =>
      cases hm : a.requestedMemoryGb with
      | none => exact h.raise
      | some =>
        refine .seq (h.costClass ?_)
        intro host c1 v hview hhost h1 hx1
        rw [hview, resources_of_plain hws] at hhost
        -- the host's class is read again with the state the coefficient is read in
        have hkept : Kept (protocol fixed) l.locks fun v => ∃ host', a.resourceId.bind
            v.resources.get = some host' ∧ host'.costClass = host.costClass := by
          rintro H v v' _ hr _ _ ⟨host', hget, hclass⟩
          obtain ⟨id, hid, hget⟩ := Option.bind_eq_some_iff.mp hget
          obtain ⟨host'', hget', hsame⟩ := Rely.get_resource hr hget
          refine ⟨host'', by rw [hid, Option.bind_some, hget'], ?_⟩
          exact (congrArg (·.costClass) hsame).trans hclass
        have hk := h1.know hkept ⟨host, hhost, rfl⟩
        refine .seq (hk.resolveCoeff ?_)
        intro coefficient c2 hcoeff h2 hx2
        refine .seq (h2.ofExcept ?_)
        intro r hrate
        refine h2.ofExcept ?_
        intro actual hcost
        obtain ⟨-, host', hhost', hclass⟩ := h2.fact
        refine hR actual c2 (.used hhours hzero hv hm hhost' ?_ hrate hcost) ?_ (hx1.trans hx2)
        · rwa [hclass]
        · exact ⟨h2.isOpen, h2.good, h2.inv, h2.log, h2.need, h2.path, h.kept, h2.fact.1⟩

theorem reconcile {row : Allocation} (hp : .project a.project ∈ l.locks)
    (hws : ∀ w ∈ ws, Write.plain w = true) (hid : a.id = row.id)
    (hproj : a.project = row.project) (hrow : ∀ v, WellFormed v → F v → RowIs v row)
    (hbudget : ∀ v, WellFormed v → F v → (v.budgets.get a.project).isSome)
    (hR : ∀ (x : Posting) l' c', InTx fixed as (ws ++ x.writes .reconciled a)
        (fun v => F v ∧ SettlesFor row a x.delta v) l' c' →
      .budgetRow a.project ∈ l'.locks → Since fixed l c l' c' → R x.delta l' c') :
    Wp fixed (Accounting.reconcile a) l c R := by
  refine .seq (h.select ?_)
  intro c1 h1 hx1
  have hb := hbudget _ h1.inv_effs h1.fact
  rw [budgets_of_plain hws, hb]
  refine .seq (h1.select ?_)
  intro c2 h2 hx2
  rw [ledger_of_plain hws, hid]
  -- the sum is that of the state the cost is computed in, too: the project's lock keeps it
  have hsum : Kept (protocol fixed) l.locks fun v => RowIs v row ∧
      Accounting.sumOf v.ledger row.id .reserved =
        Accounting.sumOf ((protocol fixed).effs as c2).ledger row.id .reserved := by
    rintro H v v' hH hr hv hv' ⟨hrow, hs⟩
    rw [hproj] at hp
    exact ⟨Rely.rowIs hr (hH hp) hrow, (Rely.sumOf_eq hr (hH hp) hv hv' hrow _).trans hs⟩
  have hk := h2.know hsum ⟨hrow _ h2.inv_effs h2.fact, rfl⟩
  refine .seq (hk.actualCost hws ?_)
  intro actual c3 hactual h3 hx3
  refine .seq (h3.ofExcept ?_)
  intro delta hdelta
  have h4 : InTx fixed as ws (fun v => F v ∧ SettlesFor row a delta v) l c3 := by
    obtain ⟨hF, hrow3, hs3⟩ := h3.fact
    rw [← hs3] at hdelta
    refine ⟨h3.isOpen, h3.good, h3.inv, h3.log, h3.need, h3.path, h.kept.and ?_, hF, hrow3, actual, hactual, hdelta⟩
    rw [hproj] at hp
    exact kept_settlesFor hp
  refine .seq (h4.writeDelta hp ?_)
  rintro x rfl l5 c5 h5 hkey hx5
  exact h5.ret (hR x l5 c5 h5 hkey (((hx1.trans hx2).trans hx3).trans hx5))
end Lib.During
