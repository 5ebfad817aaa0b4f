import Kdive.Lib.During
import Kdive.Spec.Protocol

/-! # The statements, inside a transaction

One rule for each function of the repositories: from what is pending and known before it to what is pending and known
after it.

A row read under its lock stays as it was read, seen under whatever the transaction itself has
written; that is the fact most rules leave behind.
-/

namespace Kdive
open Lib

/-- Inside a transaction of a client of this protocol. -/
abbrev InTx (fixed : String → Prop) := During (protocol fixed)

abbrev Since (fixed : String → Prop) := Ext (protocol fixed)

abbrev Wp (fixed : String → Prop) {α : Type} (p : Async α) := Does (protocol fixed) p

/-! ## Facts that keys keep -/

section
variable {fixed : String → Prop} {ws : List Write}

def Sees (ws : List Write) (id : Uuid) (row : Option Allocation) (v : Db) : Prop :=
  (store.applyAll ws v).allocations.get id = row

theorem kept_sees {K : List LockKey} {id : Uuid} {row : Option Allocation}
    (hk : .allocationRow id ∈ K) : Kept (protocol fixed) K (Sees ws id row) := by
  intro H v v' hH hr _ _ hrow
  have hlocked := (Rely.allocations hr id).locked (hH hk)
  show (store.applyAll ws v').allocations.get id = row
  rwa [get_allocations_applyAll, hlocked, ← get_allocations_applyAll]

def SeesSystem (ws : List Write) (id : Uuid) (row : Option System) (v : Db) : Prop :=
  (store.applyAll ws v).systems.get id = row

theorem kept_seesSystem {K : List LockKey} {id : Uuid} {row : Option System}
    (hk : .systemRow id ∈ K) : Kept (protocol fixed) K (SeesSystem ws id row) := by
  intro H v v' hH hr _ _ hrow
  have hlocked := (Rely.systems hr id).locked (hH hk)
  show (store.applyAll ws v').systems.get id = row
  rwa [get_systems_applyAll, hlocked, ← get_systems_applyAll]
end
end Kdive

namespace Lib.During
open Kdive

variable {α : Type} {fixed : String → Prop} {as : List Action} {ws : List Write} {F : Db → Prop}
variable {l l' : Conn store} {c c' : Db} {R : Post store α}

/-! ## Statements that take no key of the order -/

section
variable (h : InTx fixed as ws F l c)
include h

theorem rows {st : Stmt store} {f : Db → Time → α}
    (hkeys : ∀ v t, ∀ k ∈ st.keys v t, LockKey.ordered k = false) (hsafe : ∀ v ws', st.act v l.now = .ok ws' →
      ∀ w ∈ ws', Write.keys w ⊆ l.locks ++ st.keys v l.now)
    (hR : ∀ l' c' ws' v, v = store.applyAll ws ((protocol fixed).effs as c') →
      st.act v l.now = .ok ws' → (∀ k ∈ st.keys v l.now, k ∈ l'.locks) →
      InTx fixed as (ws ++ ws') F l' c' → Since fixed l c l' c' → R (f v l.now) l' c') :
    Wp fixed (Prog.stmt st f) l c R := by
  refine h.stmt ?_
  intro c' ws' v _ _ hv hact
  refine ⟨⟨hsafe v ws' hact, stmtOk_of_unordered ws' (hkeys v l.now)⟩, ?_⟩
  intro l' hl' h' hx
  refine hR l' c' ws' v hv hact ?_ h' hx
  intro k hk
  rw [hl']
  by_cases hmem : k ∈ l.locks
  · exact List.mem_append_left _ hmem
  · exact List.mem_append_right _ (List.mem_filter.mpr ⟨hk, by simpa using hmem⟩)

theorem append {w : Time → Write} {f : Db → Time → α} (hkeys : Write.keys (w l.now) ⊆ l.locks)
    (hR : ∀ l' c' v, InTx fixed as (ws ++ [w l.now]) F l' c' → Since fixed l c l' c' → R (f v l.now) l' c') : Wp fixed
      (Prog.stmt ⟨fun _ _ => [], fun _ now => .ok [w now]⟩ f) l c R := by
  refine h.rows (fun _ _ k hk => absurd hk List.not_mem_nil) ?_ ?_
  · intro v ws' hact x hx
    cases hact
    rw [List.mem_singleton.mp hx]
    exact List.Subset.trans hkeys (List.subset_append_left _ _)
  · intro l' c' ws' v _ hact _ h' hx
    cases hact
    exact hR l' c' v h' hx

/-- An insert, which raises where the row is there. -/
theorem insertFree {k : LockKey} {taken : Db → Bool} {w : Time → Write} {f : Db → Time → α} (hk : k.ordered = false)
    (hw : Write.keys (w l.now) ⊆ [k])
    (hR : ∀ l' c', taken (store.applyAll ws ((protocol fixed).effs as c')) = false → k ∈ l'.locks →
      InTx fixed as (ws ++ [w l.now]) F l' c' → Since fixed l c l' c' → ∀ v, R (f v l.now) l' c') : Wp fixed (Prog.stmt
      ⟨fun _ _ => [k], fun v now => if taken v then .error .uniqueViolation else .ok [w now]⟩ f) l c R := by
  have hout : ∀ v ws', (if taken v then .error .uniqueViolation else .ok [w l.now] : Except Err (List Write)) =
      .ok ws' → taken v = false ∧ ws' = [w l.now] := by grind
  refine h.rows ?_ ?_ ?_
  · intro v t x hx
    rw [List.mem_singleton.mp hx, hk]
  · intro v ws' hact x hx
    obtain ⟨-, rfl⟩ := hout v ws' hact
    rw [List.mem_singleton.mp hx]
    exact fun y hy => List.mem_append_right _ (hw hy)
  · intro l' c' ws' v hv hact hkeys h' hx
    obtain ⟨hfree, rfl⟩ := hout v ws' hact
    exact hR l' c' (hv ▸ hfree) (hkeys _ (List.mem_singleton_self _)) h' hx v
end

theorem unordered_ite {p : Prop} [Decidable p] {k : LockKey} (hk : k.ordered = false) :
    ∀ x ∈ (if p then [k] else []), x.ordered = false := by
  split <;> simp [hk]

variable {R : Post store Unit}

section
variable (h : InTx fixed as ws F l c)
include h

theorem audit {principal : String} {event : AuditEvent} {session : Option String}
    (hR : ∀ l' c', InTx fixed as (ws ++ [.insertAudit (Audit.row principal session event)]) F l' c' →
      Since fixed l c l' c' → R () l' c') : Wp fixed (Audit.recordSystem principal event session) l c R :=
  h.append (List.nil_subset _) fun l' c' _ => hR l' c'

theorem auditFor {ctx : RequestContext} {event : AuditEvent}
    (hR : ∀ l' c', InTx fixed as (ws ++ [.insertAudit (Audit.row ctx.principal ctx.agentSession event)]) F l' c' →
      Since fixed l c l' c' → R () l' c') : Wp fixed (Audit.record ctx event) l c R := by
  unfold Audit.record
  split
  · exact h.audit hR
  · exact h.raise

theorem platformAudit {r : PlatformAuditRow} (hR : ∀ l' c', InTx fixed as (ws ++ [.insertPlatformAudit r]) F l' c' →
      Since fixed l c l' c' → R () l' c') : Wp fixed (Audit.recordPlatform r) l c R :=
  h.append (List.nil_subset _) fun l' c' _ => hR l' c'
end

/-! ## Allocations -/

variable {id : Uuid}

section
variable (h : InTx fixed as ws F l c)
include h

theorem getForUpdate {R : Post store (Option Allocation)}
    (hnone : ∀ l' c', Sees ws id none ((protocol fixed).effs as c') →
      InTx fixed as ws F l' c' → Since fixed l c l' c' → R none l' c')
    (hsome : ∀ row l' c', InTx fixed as ws (fun v => F v ∧ Sees ws id (some row) v) l' c' →
      .allocationRow id ∈ l'.locks → Since fixed l c l' c' → R (some row) l' c') :
    Wp fixed (Allocations.getForUpdate id) l c R := by
  refine h.rows ?_ ?_ ?_
  · exact fun _ _ => unordered_ite rfl
  · intro v ws' hact w hw
    cases hact
    cases hw
  · intro l' c' ws' v hv hact hkeys h' hx
    cases hact
    rw [List.append_nil] at h'
    cases hrow : v.allocations.get id with
    | none => exact hnone l' c' (by rw [← hrow, hv]; rfl) h' hx
    | some row =>
      have hkey : .allocationRow id ∈ l'.locks := by
        refine hkeys _ ?_
        simp [hrow]
      exact hsome row l' c' (h'.know (kept_sees hkey) (by rw [← hrow, hv]; rfl)) hkey hx

theorem update {cond : Allocation → Bool} {patch : Time → AllocationPatch} {R : Post store Nat}
    (hzero : ∀ l' c' v, v = store.applyAll ws ((protocol fixed).effs as c') →
      (v.allocations.get id).any cond = false → InTx fixed as ws F l' c' →
      Since fixed l c l' c' → R 0 l' c') (hone : ∀ row l' c', cond row = true →
      InTx fixed as (ws ++ [.patchAllocation id (patch l.now) l.now]) (fun v => F v ∧ Sees ws id (some row) v) l' c' →
      .allocationRow id ∈ l'.locks → Since fixed l c l' c' → R 1 l' c') :
    Wp fixed (Allocations.update id cond patch) l c R := by
  refine h.rows ?_ ?_ ?_
  · exact fun _ _ => unordered_ite rfl
  · intro v ws' hact w hw
    simp only [Allocations.updateStmt, Except.ok.injEq] at hact ⊢
    subst hact
    split at hw
    case isTrue hc =>
      rw [List.mem_singleton.mp hw, if_pos hc]
      exact List.subset_append_right _ _
    case isFalse => cases hw
  · intro l' c' ws' v hv hact hkeys h' hx
    simp only [Allocations.updateStmt, Except.ok.injEq] at hact hkeys
    subst hact
    cases hc : (v.allocations.get id).any cond with
    | false =>
      simp only [hc, Bool.false_eq_true, if_false, List.append_nil] at h' ⊢
      exact hzero l' c' v hv hc h' hx
    | true =>
      simp only [hc, if_true] at h' hkeys ⊢
      obtain ⟨row, hrow, hcond⟩ := (Option.any_eq_true _ _).mp hc
      have hkey : .allocationRow id ∈ l'.locks := hkeys _ (List.mem_singleton_self _)
      refine hone row l' c' hcond (h'.know (kept_sees hkey) ?_) hkey hx
      rw [← hrow, hv]
      rfl

theorem updateRow {patch : Time → AllocationPatch} {row : Allocation} {R : Post store Nat}
    (hrow : ∀ v, WellFormed v → F v → Sees ws id (some row) v)
    (hR : ∀ l' c', InTx fixed as (ws ++ [.patchAllocation id (patch l.now) l.now]) F l' c' →
      .allocationRow id ∈ l'.locks → Since fixed l c l' c' → R 1 l' c') :
    Wp fixed (Allocations.update id (fun _ => true) patch) l c R := by
  refine h.update ?_ ?_
  · intro l' c' v hv hnone h' _
    have hsees := hrow _ h'.inv_effs h'.fact
    rw [Sees, ← hv] at hsees
    simp [hsees] at hnone
  · intro _ l' c' _ h' hkey hx
    exact hR l' c' ⟨h'.isOpen, h'.good, h'.inv, h'.log, h'.need, h'.path,
      h.kept.mono hx.locks_sub.subset, h'.fact.1⟩ hkey hx

theorem insert {a : Allocation} {R : Post store Allocation}
    (hR : ∀ l' c', InTx fixed as (ws ++ [.insertAllocation (Allocations.stamped a l.now)])
        (fun v => F v ∧ Sees ws a.id none v) l' c' →
      .allocationRow a.id ∈ l'.locks → Since fixed l c l' c' →
      R (Allocations.stamped a l.now) l' c') : Wp fixed (Allocations.insert a) l c R := by
  refine h.insertFree rfl (List.Subset.refl _) ?_
  intro l' c' hfree hkey h' hx _
  exact hR l' c' (h'.know (kept_sees hkey) (by simpa [Sees] using hfree)) hkey hx

theorem updateState {new : AllocationState} (hR : ∀ row l' c', row.state.canTransition new = true →
      InTx fixed as (ws ++ [.patchAllocation id (.state new) l.now]) (fun v => F v ∧ Sees ws id (some row) v) l' c' →
      .allocationRow id ∈ l'.locks → Since fixed l c l' c' → R () l' c') :
    Wp fixed (Allocations.updateState id new) l c R := by
  have hnow : (l.enter 0).now = l.now := Conn.now_enter h.isOpen 0
  refine h.transaction ?_
  intro hin
  refine .seq (hin.getForUpdate ?_ ?_)
  · intro l1 c1 _ h1 _
    exact h1.raise
  · intro row l1 c1 h1 hkey hx1
    refine .seq (h1.ofExcept ?_)
    intro _ hlegal
    have hcan : row.state.canTransition new = true := by
      unfold AllocationState.ensureTransition at hlegal
      split at hlegal
      · assumption
      · cases hlegal
    refine .seq (h1.updateRow (fun v _ hv => hv.2) ?_)
    intro l2 c2 h2 _ hx2
    refine h2.ret ⟨_, _, h2, ?_⟩
    intro l'' h'' hlocks hx
    rw [hx1.now, hnow] at h''
    refine hR row l'' c2 hcan h'' ?_ hx
    rw [hlocks]
    exact hx2.mem_locks hkey

/-! ## Systems -/

theorem getSystemForUpdate {R : Post store (Option System)}
    (hnone : ∀ l' c', InTx fixed as ws F l' c' → Since fixed l c l' c' → R none l' c')
    (hsome : ∀ row l' c', InTx fixed as ws (fun v => F v ∧ SeesSystem ws id (some row) v) l' c' →
      .systemRow id ∈ l'.locks → Since fixed l c l' c' → R (some row) l' c') :
    Wp fixed (Systems.getForUpdate id) l c R := by
  refine h.rows ?_ ?_ ?_
  · exact fun _ _ => unordered_ite rfl
  · intro v ws' hact w hw
    cases hact
    cases hw
  · intro l' c' ws' v hv hact hkeys h' hx
    cases hact
    rw [List.append_nil] at h'
    cases hrow : v.systems.get id with
    | none => exact hnone l' c' h' hx
    | some row =>
      have hkey : .systemRow id ∈ l'.locks := by
        refine hkeys _ ?_
        simp [hrow]
      exact hsome row l' c' (h'.know (kept_seesSystem hkey) (by rw [← hrow, hv]; rfl)) hkey hx

theorem updateSystem {patch : SystemPatch} {row : System}
    (hkey : .systemRow id ∈ l.locks) (hrow : ∀ v, WellFormed v → F v → SeesSystem ws id (some row) v)
    (hR : ∀ l' c', InTx fixed as (ws ++ [.patchSystem id patch]) F l' c' →
      Since fixed l c l' c' → R () l' c') : Wp fixed (Systems.update id patch) l c R := by
  refine h.rows ?_ ?_ ?_
  · exact fun _ _ => unordered_ite rfl
  · intro v ws' hact w hw k hk
    cases hact
    split at hw
    · rw [List.mem_singleton.mp hw] at hk
      rw [List.mem_singleton.mp hk]
      exact List.mem_append_left _ hkey
    · cases hw
  · intro l' c' ws' v hv hact _ h' hx
    have hsees := hrow _ h'.inv_effs h'.fact
    rw [SeesSystem, ← hv] at hsees
    simp only [Systems.updateStmt, hsees, Option.isSome_some, if_true, Except.ok.injEq] at hact
    subst hact
    exact hR l' c' h' hx

theorem insertSystem {s : System} {R : Post store System}
    (hR : ∀ l' c', InTx fixed as (ws ++ [.insertSystem { s with createdAt := l.now }])
        (fun v => F v ∧ SeesSystem ws s.id none v) l' c' →
      .systemRow s.id ∈ l'.locks → Since fixed l c l' c' →
      R { s with createdAt := l.now } l' c') :
    Wp fixed (Systems.insert s) l c R := by
  refine h.insertFree rfl (List.Subset.refl _) ?_
  intro l' c' hfree hkey h' hx _
  exact hR l' c' (h'.know (kept_seesSystem hkey) (by simpa [SeesSystem] using hfree)) hkey hx

theorem updateSystemState {new : SystemState} (hR : ∀ row l' c', row.state.successors.contains new = true →
      InTx fixed as (ws ++ [.patchSystem id (.state new)]) (fun v => F v ∧ SeesSystem ws id (some row) v) l' c' →
      .systemRow id ∈ l'.locks → Since fixed l c l' c' → R () l' c') : Wp fixed (Systems.updateState id new) l c R := by
  refine h.transaction ?_
  intro hin
  refine .seq (hin.getSystemForUpdate ?_ ?_)
  · intro l1 c1 h1 _
    exact h1.raise
  · intro row l1 c1 h1 hkey _
    refine .seq (h1.ofExcept ?_)
    intro _ hlegal
    have hcan : row.state.successors.contains new = true := by
      unfold SystemState.ensureTransition at hlegal
      split at hlegal
      · assumption
      · cases hlegal
    refine h1.updateSystem hkey (fun v _ hv => hv.2) ?_
    intro l2 c2 h2 hx2
    refine ⟨_, _, h2, ?_⟩
    intro l'' h'' hlocks hx
    refine hR row l'' c2 hcan h'' ?_ hx
    rw [hlocks]
    exact hx2.mem_locks hkey
end

/-! ## Locks, and the records of a choice -/

theorem quiet_of_queue {a : Action} (h : a.ofQueue = true) : ∀ w ∈ a.writes, w.quiet = true := by
  cases a <;> simp_all [Action.ofQueue, Action.writes, Posting.writes, Write.quiet]

theorem quiet (h : InTx fixed as [] F l c) (hq : ∀ a ∈ as, a.ofQueue = true) : ∀ w ∈ l.log, Write.quiet w = true := by
  intro w hw
  rw [h.log, List.append_nil] at hw
  obtain ⟨a, ha, hwa⟩ := List.mem_flatMap.mp hw
  exact quiet_of_queue (hq a ha) w hwa

theorem advisoryLock (scope : LockScope) (h : InTx fixed as [] F l c) (hq : ∀ a ∈ as, a.ofQueue = true)
    (hmay : ∀ v, WellFormed v → F v → scope.key ∉ l.locks → mayTake v l.locks scope.key)
    (hR : ∀ l' c', l'.locks = l.locks ++ [scope.key].filter (· ∉ l.locks) →
      scope.key ∈ l'.locks → InTx fixed as [] F l' c' → Since fixed l c l' c' → R () l' c') :
    Wp fixed (advisoryXactLock scope) l c R := by
  refine h.lock ?_
  intro c' v h' _ hv
  refine ⟨⟨?_, fun _ => h.quiet hq⟩, fun l' hl' hk h'' hx => hR l' c' hl' hk h'' hx⟩
  by_cases hmem : scope.key ∈ l.locks
  · rw [List.filter_cons_of_neg (by simpa using hmem)]
    trivial
  · rw [List.filter_cons_of_pos (by simpa using hmem)]
    refine ⟨?_, trivial⟩
    rw [hv]
    exact hmay _ h'.inv_effs h'.fact hmem
end Lib.During
