import Kdive.Proof.Promotion
import Kdive.Services.Release

/-! # Release, expiry and renewal

The end of an allocation, in the three ways it comes about, is one and the same settlement: the billing
interval is closed from the row under its lock, the state moves to a terminal one, and the difference
between what was reserved and what was used is posted.
-/

namespace Kdive
open Lib Top Prog Nat AllocationPatch List Option

variable {v : Db}

theorem ActualCost.eq_zero {a : Allocation} {actual : ℚ} (h : ActualCost v a actual)
    (hhours : Accounting.activeHours a = .ok 0) : actual = 0 := by
  cases h with
  | unused => rfl
  | used hours hne =>
    cases hhours.symm.trans hours
    exact absurd rfl hne

variable {row : Allocation}

/-- The copy a caller of `stamp_active_ended` goes on with costs what the row with its interval closed
    costs. -/
theorem ActualCost.closed {started : Option Time} {ended : Time}
    {actual : ℚ} (hopen : row.activeEndedAt = none) (h : ActualCost v (row.stampedBy started ended) actual) :
    ActualCost v (row.closed started ended) actual := by
  cases started with
  | some => exact h
  | none =>
    have hzero : Accounting.activeHours row = .ok 0 := by
      unfold Accounting.activeHours
      rw [hopen]
      split
      · contradiction
      · rfl
    rw [h.eq_zero hzero]
    exact .unused rfl

theorem writes_stampedBy (x : Posting) (ty : LedgerEventType) (row : Allocation)
    (started : Option Time) (ended : Time) : x.writes ty (row.stampedBy started ended) = x.writes ty row := by
  cases started with
  | none | some => rfl

theorem WellFormed.budget_of_row (h : WellFormed v) (hrow : RowIs v row)
    (hstate : row.state = .granted ∨ row.state = .active) : (v.budgets.get row.project).isSome := by
  obtain ⟨a, ha, hcore⟩ := hrow
  have hs : a.state = row.state := congrArg (·.state) hcore
  have hproj : a.project = row.project := congrArg (·.project) hcore
  have hocc : a.state.occupying = true := by
    rw [hs]
    rcases hstate with hst | hst
    · rw [hst]
      rfl
    · rw [hst]
      rfl
  obtain ⟨-, -, e, he, hid, -⟩ := (h.rows _ a ha).held hocc
  have hget : v.allocations.get e.allocationId = some a := by
    rwa [hid, allocation_id ha]
  rw [← hproj, ← h.project_of_entry he hget]
  exact (h.ledger e he).budget

theorem WellFormed.ended_of_row (h : WellFormed v) (hrow : RowIs v row)
    (hstate : row.state = .granted ∨ row.state = .active) : row.activeEndedAt = none := by
  obtain ⟨a, ha, hcore⟩ := hrow
  have hs : a.state = row.state := congrArg (·.state) hcore
  have hended : a.activeEndedAt = row.activeEndedAt := congrArg (·.activeEndedAt) hcore
  rw [← hended]
  refine (h.rows _ a ha).running ?_
  rw [hs]
  rcases hstate with hst | hst
  · rw [hst]
    rfl
  · rw [hst]
    rfl

variable {id : Uuid} {now : Time}

theorem plain_stampEnded {started : Option Time} {ended : Time} :
    ∀ w ∈ stampEnded id started ended now, w.plain = true := by
  intro w hw
  obtain ⟨t, -, rfl⟩ := map_eq_some_iff.mp (mem_toList.mp hw)
  rfl

def Appends (fixed : String → Prop) (write : AuditWriter) : Prop :=
  ∀ (event : AuditEvent) (as : List Action) (ws : List Write) (F : Db → Prop) (l : Conn store)
    (c : Db) (R : Unit → Conn store → Db → Prop), During (protocol fixed) as ws F l c →
    (∀ principal session l' c', During (protocol fixed) as
        (ws ++ [.insertAudit (Audit.row principal session event)]) F l' c' →
      Since fixed l c l' c' → R () l' c') →
    Wp fixed (write event) l c R

theorem appends_record {fixed : String → Prop} (ctx : RequestContext) : Appends fixed (Audit.record ctx) :=
  fun _ _ _ _ _ _ _ h hR => h.auditFor fun l' c' => hR _ _ l' c'

theorem appends_recordSystem {fixed : String → Prop} (principal : String) :
    Appends fixed (Audit.recordSystem principal) :=
  fun _ _ _ _ _ _ _ h hR => h.audit fun l' c' => hR _ _ l' c'

theorem started_of_sees {new : AllocationState} {r : AuditRow}
    (h : Sees [.patchAllocation id (.state new) now, .insertAudit r] id (some row) v) :
    (v.allocations.get id).map (·.activeStartedAt) = some row.activeStartedAt := by
  rw [Sees, get_allocations_applyAll] at h
  simp only [foldl_cons, foldl_nil, Write.onAllocation, if_true] at h
  obtain ⟨a, ha, rfl⟩ := map_eq_some_iff.mp h
  rw [ha, map_some, activeStartedAt_apply]
  rfl

theorem sees_after_state {new : AllocationState} {r : AuditRow} (h : Sees [] id (some row) v) :
    ∃ row', Sees [.patchAllocation id (.state new) now, .insertAudit r] id (some row') v := by
  rw [Sees, applyAll_nil] at h
  refine ⟨(state new).apply now row, ?_⟩
  rw [Sees, get_allocations_applyAll]
  simp [Write.onAllocation, h]
end Kdive

namespace Lib.During
open Kdive

variable {fixed : String → Prop} {as : List Action} {ws : List Write} {F : Db → Prop}
variable {l l' : Conn store} {c c' : Db}

/-! ## Release -/

variable {project : String}

theorem transitionAndAudit {write : AuditWriter} {id : Uuid} {frm new : AllocationState}
    {R : Post store Unit} (hwrite : Appends fixed write)
    (h : InTx fixed as ws F l c) (hR : ∀ row (r : RecordOf "allocations" id frm.value new.value) l' c',
      InTx fixed as (ws ++ [.patchAllocation id (.state new) l.now, .insertAudit r.1])
        (fun v => F v ∧ Sees ws id (some row) v) l' c' →
      .allocationRow id ∈ l'.locks → Since fixed l c l' c' → R () l' c') :
    Wp fixed (Release.transitionAndAudit write id frm new project) l c R := by
  refine .seq (h.updateState ?_)
  intro row l1 c1 _ h1 hkey hx1
  refine hwrite _ _ _ _ _ _ _ h1 ?_
  intro principal session l2 c2 h2 hx2
  rw [List.append_assoc] at h2
  refine hR row ⟨_, rfl, rfl, ?_⟩ l2 c2 h2 (hx2.mem_locks hkey) (hx1.trans hx2)
  simp [AuditRow.text, Part.asText, String.join]

variable {row : Allocation}

/-- The last step of every settlement, up to the posting. -/
theorem settled {started : Option Time} {ended now : Time} (closing : Closing row)
    (h : InTx fixed [] ws F l c) (hws : ∀ w ∈ ws, Write.plain w = true)
    (hp : .project row.project ∈ l.locks) (hkey : .allocationRow row.id ∈ l.locks)
    (hstate : row.state = .granted ∨ row.state = .active) (hrow : ∀ v, WellFormed v → F v → RowIs v row)
    (hopened : ∀ v, WellFormed v → F v → (v.allocations.get row.id).map (·.activeStartedAt) = some started)
    (hwrites : ∀ x, ws ++ x.writes .reconciled row = (Action.settle row closing started ended now x).writes) :
    Wp fixed (Accounting.reconcile (row.stampedBy started ended)) l c (Clean fixed) := by
  -- it goes by the stamped copy, whose key columns are the row's
  have hid : (row.stampedBy started ended).id = row.id := by cases started <;> rfl
  have hproj : (row.stampedBy started ended).project = row.project := by cases started <;> rfl
  refine h.reconcile (hproj ▸ hp) hws hid hproj hrow ?_ ?_
  · intro v hv hF
    rw [hproj]
    exact hv.budget_of_row (hrow v hv hF) hstate
  intro x l' c' h' hbudget hx
  rw [writes_stampedBy, hwrites] at h'
  refine During.done h' ?_ ?_ ?_
  · exact Nat.le_refl 1
  · intro k hk
    simp only [Action.need, List.mem_cons, List.not_mem_nil, or_false] at hk
    rcases hk with rfl | rfl | rfl
    · exact hx.mem_locks hp
    · exact hx.mem_locks hkey
    · exact hproj ▸ hbudget
  · rintro v hv ⟨hF, -, actual, hactual, hdelta⟩
    have hcurrent := hrow v hv hF
    exact ⟨hcurrent, hstate, hopened v hv hF, ⟨actual, hactual.closed (hv.ended_of_row hcurrent hstate), hdelta⟩,
      hv.budget_of_row hcurrent hstate⟩

theorem settleRelease {write : AuditWriter} (hwrite : Appends fixed write) (h : InTx fixed [] [] F l c)
    (hp : .project row.project ∈ l.locks) (hrow : ∀ v, WellFormed v → F v → RowIs v row)
    (hstate : row.state = .granted ∨ row.state = .active) : Wp fixed
      (Release.beginRelease write row project >>= fun current =>
        Release.endRelease write current project) l c (Clean fixed) := by
  refine .seq (.seq (h.transitionAndAudit hwrite ?_))
  intro row1 begun l1 c1 h1 hkey hx1
  refine .seq (h1.ask ?_)
  intro clock
  refine h1.stampActiveEnded (fun v _ hv => sees_after_state hv.2) ?_
  intro row2 l2 c2 h2 _ hx2
  have hid : (row.stampedBy row2.activeStartedAt clock.now).id = row.id := by
    cases row2.activeStartedAt <;> rfl
  refine .seq (h2.transitionAndAudit hwrite ?_)
  rintro row3 ⟨finished, hfinished⟩ l3 c3 h3 _ hx3
  have hx := hx1.trans (hx2.trans hx3)
  dsimp only at h3
  rw [hid] at hfinished
  rw [hid, hx2.now, hx1.now] at h3
  refine .seq ((h3.settled (.release begun ⟨finished, hfinished⟩) ?_ (hx.mem_locks hp)
    ((hx2.trans hx3).mem_locks hkey) hstate (fun v hv hF => hrow v hv hF.1.1.1)
    (fun v _ hF => started_of_sees hF.1.2) fun x => rfl).mono ?_)
  · intro w hw
    simp only [List.nil_append, List.mem_append, List.mem_cons, List.not_mem_nil, or_false] at hw
    rcases hw with ((rfl | rfl) | hw) | rfl | rfl
    · rfl
    · rfl
    · exact plain_stampEnded w hw
    · rfl
    · rfl
  · intro _ l4 c4 _ hready
    exact .ret hready.good hready.inv hready

theorem settleExpire {ended : Time} {principal : String} {event : Allocation → AuditEvent} (h : InTx fixed [] [] F l c)
    (hp : .project row.project ∈ l.locks) (hrow : ∀ v, WellFormed v → F v → RowIs v row)
    (hstate : row.state = .granted ∨ row.state = .active) (hevent : ∀ a session, a.state = row.state →
      (Audit.row principal session (event a)).Records "allocations" row.id row.state.value "expired") :
    Wp fixed (Accounting.stampActiveEnded row ended >>= fun alloc =>
      Allocations.updateState row.id .expired >>= fun _ =>
      Audit.recordSystem principal (event alloc) >>= fun _ =>
      Accounting.reconcile alloc >>= fun _ => pure true) l c (Clean fixed) := by
  refine .seq (h.stampActiveEnded ?_ ?_)
  · intro v hv hF
    obtain ⟨a, ha, -⟩ := hrow v hv hF
    exact ⟨a, ha⟩
  intro row1 l1 c1 h1 hkey hx1
  refine .seq (h1.updateState ?_)
  intro row2 l2 c2 _ h2 _ hx2
  refine .seq (h2.audit ?_)
  intro l3 c3 h3 hx3
  have hx := hx1.trans (hx2.trans hx3)
  rw [hx1.now, List.append_assoc] at h3
  have hrecords := hevent (row.stampedBy row1.activeStartedAt ended) none (by cases row1.activeStartedAt <;> rfl)
  refine .seq ((h3.settled (.expire ⟨_, hrecords⟩) ?_ (hx.mem_locks hp)
    ((hx2.trans hx3).mem_locks hkey) hstate (fun v hv hF => hrow v hv hF.1.1) ?_
    fun x => rfl).mono ?_)
  · intro w hw
    simp only [List.nil_append, List.mem_append, List.mem_cons, List.not_mem_nil, or_false] at hw
    rcases hw with hw | rfl | rfl
    · exact plain_stampEnded w hw
    · rfl
    · rfl
  · intro v _ hF
    have hsees : v.allocations.get row.id = some row1 := hF.1.2
    rw [hsees, Option.map_some]
  · intro _ l4 c4 _ hready
    exact .ret hready.good hready.inv hready

variable {uid : Uuid}

theorem ownLocks {α : Type} {rest : Async α} {R : Post store α} (h : InTx fixed [] [] F l c)
    (hlocks : l.locks = []) (hproject : ∀ v, WellFormed v → F v → InProject uid project v)
    (hrest : ∀ l' c', .project project ∈ l'.locks → InTx fixed [] [] F l' c' → Wp fixed rest l' c' R) :
    Wp fixed (advisoryXactLock (.project project) >>= fun _ =>
      advisoryXactLock (.allocation uid) >>= fun _ => rest) l c R := by
  refine .seq (h.advisoryLock _ (fun a ha => absurd ha List.not_mem_nil) ?_ ?_)
  · intro v _ _ _
    exact .inl (by simp [hlocks])
  intro l1 c1 hl1 hp h1 _
  have hkeys : l1.locks = [.project project] := by simp [hl1, hlocks, LockScope.key]
  refine .seq (h1.advisoryLock _ (fun a ha => absurd ha List.not_mem_nil) ?_ ?_)
  · intro v hv hF _
    obtain ⟨a, ha, hpa⟩ := hproject v hv hF
    exact ⟨⟨a, ha, hpa ▸ hp⟩, .inr (.inr (by simp [hkeys]))⟩
  intro l2 c2 _ _ h2 hx2
  exact hrest l2 c2 (hx2.mem_locks hp) h2

theorem getRow {R : Post store (Option Allocation)} (h : InTx fixed as [] F l c) (hp : .project project ∈ l.locks)
    (hproject : ∀ v, WellFormed v → F v → InProject uid project v)
    (hR : ∀ row c', row.id = uid → row.project = project → InTx fixed as [] (fun v => F v ∧ RowIs v row) l c' →
      Since fixed l c l c' → R (some row) l c') : Wp fixed (Allocations.get uid) l c R := by
  refine h.select ?_
  intro c1 h1 hx1
  obtain ⟨row, hrow, hproj⟩ := hproject _ h1.inv_effs h1.fact
  have hid : row.id = uid := allocation_id hrow
  rw [applyAll_nil, hrow]
  refine hR row c1 hid hproj (h1.know (kept_rowIs (hproj ▸ hp)) ⟨row, ?_, rfl⟩) hx1
  rwa [hid]
end Lib.During

namespace Kdive
open Lib

theorem WellFormed.state_of_row (h : WellFormed v) (hrow : RowIs v row) (hterm : row.state.terminal = false) :
    row.state = .requested ∨ row.state = .granted ∨ row.state = .active := by
  obtain ⟨a, ha, hcore⟩ := hrow
  have hs : a.state = row.state := congrArg (·.state) hcore
  rw [← hs]
  exact h.state_cases ha (hs ▸ hterm)

variable {fixed : String → Prop} {F : Db → Prop} {l : Conn store} {c : Db}

variable {write : AuditWriter} {uid : Uuid} {project : String} {Q : Except Err ReleaseOutcome → Db → Prop}

theorem underLocks_top {body : Allocation → Async ReleaseOutcome} (hc : WellFormed c)
    (hproject : InProject uid project c) (hQ : ∀ r c', Rely fixed [] c c' → WellFormed c' → Q r c')
    (hbody : ∀ {F : Db → Prop} row l' c', row.id = uid → .project row.project ∈ l'.locks →
      InTx fixed [] [] (fun v => F v ∧ RowIs v row) l' c' →
      Wp fixed (body row) l' c' (During.Clean fixed)) :
    Top (protocol fixed) (Release.underLocks uid project body) c Q := by
  refine .own hc ?_ hQ
  intro t h
  refine (h.know (kept_inProject _) hproject).ownLocks rfl (fun v _ hF => hF.2) ?_
  intro l1 c1 hp h1
  refine .seq (h1.getRow hp (fun v _ hF => hF.2) ?_)
  intro row c2 hid hproj h2 _
  refine (hbody row l1 c2 hid (hproj ▸ hp) h2).mono ?_
  intro _ l' c' _ hready
  exact hready.commits fun as has => .inl has

theorem reclaimUnderLock_top {f : Db → Time → Bool}
    (hwrite : Appends fixed write) (hc : WellFormed c) (hproject : InProject uid project c)
    (hQ : ∀ r c', Rely fixed [] c c' → WellFormed c' → Q r c') :
    Top (protocol fixed) (Release.reclaimUnderLock write uid project (Prog.select f)) c Q := by
  refine underLocks_top hc hproject hQ ?_
  intro F row l1 c1 hid hp h1
  split
  · exact h1.ret (h1.ready (Nat.zero_le 1))
  split
  · exact h1.ret (h1.ready (Nat.zero_le 1))
  · rename_i hreleasable
    have hstate : row.state = .granted ∨ row.state = .active := by
      simpa [Release.releasable, or_iff_not_imp_left] using hreleasable
    refine .seq (h1.select ?_)
    intro c2 h2 _
    split
    · exact h2.ret (h2.ready (Nat.zero_le 1))
    · exact h2.settleRelease hwrite hp (fun v _ hF => hF.2) hstate

theorem releaseLocked_top (hwrite : Appends fixed write) (hc : WellFormed c) (hproject : InProject uid project c)
    (hQ : ∀ r c', Rely fixed [] c c' → WellFormed c' → Q r c') :
    Top (protocol fixed) (Release.releaseLocked write uid project) c Q := by
  refine underLocks_top hc hproject hQ ?_
  intro F row l1 c1 hid hp h1
  split
  · exact h1.ret (h1.ready (Nat.zero_le 1))
  · rename_i hterm
    have hrow := h1.fact.2
    have hcases := h1.inv_effs.state_of_row hrow (by simpa using hterm)
    subst hid
    split
    · -- a queued row was never charged: it only leaves the queue
      rename_i hstate
      refine .seq (h1.transitionAndAudit hwrite ?_)
      intro row2 r l2 c2 h2 hkey hx2
      refine h2.ret (During.unqueued (r := r) h2 (Nat.le_refl 1) (hx2.mem_locks hp) hkey ?_)
      rintro v _ ⟨⟨-, hrow⟩, -⟩
      exact ⟨hrow, hstate, .inr rfl⟩
    · -- no committed row is between the two halves of a release
      rename_i hstate
      simp [hstate] at hcases
    · rename_i hreq _
      exact h1.settleRelease hwrite hp (fun v _ hF => hF.2) (hcases.resolve_left hreq)

/-! ## Expiry, and the two sweeps -/

theorem expireOne_top (hc : WellFormed c) (hproject : InProject uid project c) {Q : Except Err Bool → Db → Prop}
    (hQ : ∀ r c', Rely fixed [] c c' → WellFormed c' → Q r c') :
    Top (protocol fixed) (Reconciler.expireOne uid project) c Q := by
  refine .own hc ?_ hQ
  intro t h
  have hdone : ∀ {α : Type} (a : α) {F : Db → Prop} {l : Conn store} {c : Db},
      InTx fixed [] [] F l c → Wp fixed (.ret a : Async α) l c
        fun _ l' c' => (protocol fixed).Commits l'.locks l'.log c' :=
    fun a _ _ _ h' => h'.ret (h'.commits_nil (.inl (Nat.zero_le 1)))
  refine (h.know (kept_inProject _) hproject).ownLocks rfl (fun v _ hF => hF.2) ?_
  intro l1 c1 hp h1
  refine .seq (h1.getRow hp (fun v _ hF => hF.2) ?_)
  intro row c2 hid hproj h2 _
  subst hid
  dsimp only
  split
  · exact hdone _ h2
  rename_i hterm
  refine .seq (h2.select ?_)
  intro c3 h3 _
  split
  · exact hdone _ h3
  rename_i helapsed
  -- a lease has elapsed, so the row is not a queued one
  have hstate : row.state = .granted ∨ row.state = .active := by
    obtain ⟨-, a, ha, hcore⟩ := h3.fact
    have hs : a.state = row.state := congrArg (·.state) hcore
    refine (h3.inv_effs.state_of_row ⟨a, ha, hcore⟩ (by simpa using hterm)).resolve_left ?_
    intro hreq
    have hnone := ((h3.inv_effs.rows _ a ha).queued (hs.trans hreq)).1
    simp [ha, Reconciler.leaseElapsed, hnone] at helapsed
  have hp1 : .project row.project ∈ l1.locks := hproj ▸ hp
  refine .seq (h3.ask ?_)
  intro clock
  refine (h3.settleExpire hp1 (fun v _ hF => hF.2) hstate ?_).mono ?_
  · intro a session ha
    refine ⟨rfl, rfl, ?_⟩
    simp [AuditRow.text, Audit.row, Part.asText, String.join, ha]
  · intro _ l' c' _ hready
    exact hready.commits fun as has => .inl has

def Found (candidates : List (Uuid × String)) (v : Db) : Prop :=
  ∀ x ∈ candidates, InProject x.1 x.2 v

theorem Found.rely {candidates : List (Uuid × String)} {v v' : Db} (h : Found candidates v)
    (hr : Rely fixed [] v v') : Found candidates v' := by
  intro x hx
  obtain ⟨a, ha, hp⟩ := h x hx
  obtain ⟨a', ha', hp'⟩ := (hr.allocations x.1).persists a ha
  exact ⟨a', ha', hp'.trans hp⟩

theorem sweep_top {rows : Db → Time → List Allocation} {one : Uuid → String → Async Bool}
    (hc : WellFormed c) (hrows : ∀ v t, ∀ a ∈ rows v t, v.allocations.get a.id = some a)
    (hone : ∀ uid project c', WellFormed c' → InProject uid project c' →
      Top (protocol fixed) (one uid project) c' fun _ _ => True) :
    Tame (protocol fixed) (Prog.transaction (Prog.select fun v now =>
        (rows v now).map fun a => (a.id, a.project)) >>= fun candidates =>
      Prog.foldEach (Reconciler.each one) 0 candidates) c := by
  refine .bind (.transaction_select (R := Found) ?_ ?_ hc) ?_ (fun _ _ _ _ _ => trivial)
  · intro c' t _ _ x hx
    obtain ⟨a, ha, rfl⟩ := List.mem_map.mp hx
    exact ⟨a, hrows c' t a ha, rfl⟩
  · intro candidates c' c'' hr _ _ hfound
    exact hfound.rely hr
  · intro candidates c1 _ hc1 hfound
    refine .foldEach (I := fun _ => Found candidates) ?_ (fun _ _ _ _ _ => trivial)
      (.refl _ _) hc1 (hfound candidates rfl)
    intro n x c2 hx _ hc2 hfound2
    refine .attempt (hone x.1 x.2 c2 hc2 (hfound2 x hx)) ?_
    intro r c3 hr3 hc3 _
    have hend : ∀ n : Nat, Top (protocol fixed) (.ret n) c3 fun r c' =>
        (∀ a', r = .ok a' → Found candidates c') ∧ ∀ e, r = .error e → True :=
      fun n => .ret hc3 ⟨fun _ _ => hfound2.rely hr3, fun _ _ => trivial⟩
    cases r with
    | error => exact hend n
    | ok b =>
      cases b with
      | true => exact hend (n + 1)
      | false => exact hend n

theorem sweepExpired_top (hc : WellFormed c) : Tame (protocol fixed) Reconciler.sweepExpiredAllocations c := by
  refine sweep_top hc ?_ ?_
  · intro v t a ha
    exact Table.get_key_of_mem (List.mem_filter.mp ha).1
  · intro uid project c' hc' hproject
    exact expireOne_top hc' hproject fun _ _ _ _ => trivial

theorem reapOrphanedActive_top {grace : Int} (hc : WellFormed c) :
    Tame (protocol fixed) (Reconciler.reapOrphanedActiveAllocations grace) c := by
  refine sweep_top hc ?_ ?_
  · intro v t a ha
    exact Table.get_key_of_mem (List.mem_filter.mp ha).1
  · intro uid project c' hc' hproject
    refine .bind (reclaimUnderLock_top (appends_recordSystem _) hc' hproject
      fun _ _ _ _ => trivial) ?_ (fun _ _ _ _ _ => trivial)
    intro outcome c'' _ hc'' _
    exact .ret hc'' trivial

theorem releaseWithBackstops_top
    (hwrite : Appends fixed write) (hc : WellFormed c) (hproject : InProject uid project c) :
    Tame (protocol fixed) (Release.releaseWithBackstops write uid project) c := by
  refine .connection (.of_top (R := fun _ _ => True) ?_) fun _ _ _ _ => trivial
  refine .attempt (releaseLocked_top hwrite hc hproject fun _ _ _ _ => trivial) ?_
  intro r c1 _ hc1 _
  cases r with
  | ok => exact .ret hc1 trivial
  | error e =>
    cases e with
    | illegalTransition =>
      refine .bind (.connection_select (R := fun _ _ => True) (fun _ _ _ _ => trivial)
        fun _ _ _ _ _ _ _ => trivial) ?_ (fun _ _ _ _ _ => trivial)
      intro latest c2 _ hc2 _
      exact .ret hc2 trivial
    | categorized => exact .ret hc1 trivial
    | _ => exact .raise hc1 trivial
end Kdive

namespace Lib.During
open Kdive

variable {fixed : String → Prop} {as : List Action} {ws : List Write} {F : Db → Prop}
variable {l l' : Conn store} {c c' : Db}

/-! ## Renewal -/

variable {hours : ℚ}

theorem extensionEstimate {alloc : Allocation} {R : Post store ℚ} (h : InTx fixed as [] F l c)
    (hR : ∀ estimate c', Priced estimate → InTx fixed as [] F l c' → Since fixed l c l c' → R estimate l c') :
    Wp fixed (Renew.extensionEstimate alloc hours) l c R := by
  unfold Renew.extensionEstimate
  split
  · refine .seq (h.costClass ?_)
    intro host c1 v _ _ h1 hx1
    refine .seq (h1.resolveCoeff ?_)
    intro coefficient c2 _ h2 hx2
    refine h2.ofExcept ?_
    intro estimate hestimate
    exact hR estimate c2 (priced_of_bind hestimate) h2 (hx1.trans hx2)
  · exact h.raise

variable {ctx : RequestContext} {key : Option String}

variable (h : InTx fixed [] [] F l c)
include h

theorem applyRenew {alloc : Allocation} {extension : LeaseExtension} {estimate : ℚ}
    (hp : .project alloc.project ∈ l.locks) (hrow : ∀ v, WellFormed v → F v → RowIs v alloc)
    (hstate : alloc.state = .granted ∨ alloc.state = .active) (hpriced : Priced estimate)
    (hbudget : ∀ v, WellFormed v → F v → Affords fixed v alloc.project estimate) :
    Wp fixed (Renew.applyRenew ctx alloc extension estimate key) l c (Clean fixed) := by
  refine .seq (h.update ?_ ?_)
  · -- the row was there when it was read, and rows are never deleted
    intro l1 c1 v hv hnone h1 _
    obtain ⟨a, ha, -⟩ := hrow _ h1.inv_effs h1.fact
    rw [hv, applyAll_nil, ha] at hnone
    cases hnone
  intro row l1 c1 _ h1 hkey hx1
  refine .seq (h1.reserve (hx1.mem_locks hp) hpriced ?_)
  intro x hdelta l2 c2 h2 hbudgetRow hx2
  refine .seq (h2.recordKeyIf ?_)
  intro k l3 c3 h3 hkeys hx3
  refine .seq (h3.auditFor ?_)
  intro l4 c4 h4 hx4
  have hx := (hx1.trans hx2).trans (hx3.trans hx4)
  refine h4.ret (During.done (a := Action.renew alloc extension.newExpiry l.now x k ⟨_, rfl⟩) h4 ?_ ?_ ?_)
  · exact Nat.le_refl 1
  · intro k hk
    simp only [Action.need, List.mem_append, List.mem_cons, List.not_mem_nil, or_false] at hk
    rcases hk with (rfl | rfl | rfl) | hk
    · exact hx.mem_locks hp
    · exact (hx2.trans (hx3.trans hx4)).mem_locks hkey
    · exact (hx3.trans hx4).mem_locks hbudgetRow
    · exact hx4.mem_locks (hkeys k hk)
  · rintro v hv ⟨⟨hF, -⟩, hfree⟩
    refine ⟨hrow v hv hF, hstate, hdelta ▸ hbudget v hv hF, hdelta ▸ hpriced, ?_⟩
    intro k hk
    have := hfree k hk
    rw [get_idempotencyKeys_applyAll] at this
    exact this

theorem extendLease {cfg : Config} {uid : Uuid} {project : String}
    (hp : .project project ∈ l.locks) (hproject : ∀ v, WellFormed v → F v → InProject uid project v) :
    Wp fixed (Renew.extendLease cfg ctx uid hours key) l c (Clean fixed) := by
  have hdone : ∀ (a : RenewOutcome) {F : Db → Prop} {l : Conn store} {c : Db},
      InTx fixed [] [] F l c → Wp fixed (.ret a) l c (Clean fixed) :=
    fun a _ _ _ h' => h'.ret (h'.ready (Nat.zero_le 1))
  refine .seq (h.getRow hp hproject ?_)
  intro row c1 hid hproj h1 _
  have hp1 : .project row.project ∈ l.locks := hproj ▸ hp
  dsimp only
  split
  · exact hdone _ h1
  rename_i hterm
  split
  · exact hdone _ h1
  rename_i expiry hexpiry
  -- a lease has been given, so the row is not a queued one
  have hstate : row.state = .granted ∨ row.state = .active := by
    obtain ⟨-, a, ha, hcore⟩ := h1.fact
    have hs : a.state = row.state := congrArg (·.state) hcore
    have hl : a.leaseExpiry = row.leaseExpiry := congrArg (·.leaseExpiry) hcore
    refine (h1.inv_effs.state_of_row ⟨a, ha, hcore⟩ (by simpa using hterm)).resolve_left ?_
    intro hreq
    have hnone := ((h1.inv_effs.rows _ a ha).queued (hs.trans hreq)).1
    rw [hl, hexpiry] at hnone
    cases hnone
  refine .seq (h1.ask ?_)
  intro clock
  refine .seq (h1.ofExcept ?_)
  intro extension _
  split
  · exact hdone _ h1
  refine .seq (h1.extensionEstimate ?_)
  intro estimate c2 hpriced h2 _
  refine .seq (h2.withinBudget hp1 ?_ ?_)
  · intro c3 h3 _
    exact hdone _ h3
  · intro c3 h3 _
    exact h3.applyRenew hp1 (fun v _ hF => hF.1.2) hstate hpriced fun v _ hF => hF.2

theorem renewUnderProjectLock {cfg : Config} {uid : Uuid} {project : String}
    (hp : .project project ∈ l.locks) (hproject : ∀ v, WellFormed v → F v → InProject uid project v) :
    Wp fixed (Renew.renewUnderProjectLock cfg ctx uid hours key) l c (Clean fixed) := by
  unfold Renew.renewUnderProjectLock
  split
  · exact h.extendLease hp hproject
  · refine .seq (h.resolveReplay ?_)
    intro row c1 h1 _
    cases row with
    | none => exact h1.extendLease hp hproject
    | some =>
      dsimp only
      split
      · exact h1.ret (h1.ready (Nat.zero_le 1))
      · exact h1.ret (h1.ready (Nat.zero_le 1))
end Lib.During

namespace Kdive
open Lib

variable {fixed : String → Prop} {F : Db → Prop} {l : Conn store} {c : Db}

theorem renew_keeps {cfg : Config} {ctx : RequestContext} {uid : Uuid} {extend : Option Number}
    {key : Option String} (h : InTx fixed [] [] F l c) (hlocks : l.locks = []) :
    Keeps (protocol fixed) During.atMostOne (Renew.renew cfg ctx uid extend key) l c fun _ _ _ => True := by
  have hfail : ∀ (e : CategorizedError) l' c', Ready (protocol fixed) During.atMostOne l' c' →
      Keeps (protocol fixed) During.atMostOne (pure (Renew.ofError e) : Async _) l' c'
        fun _ _ _ => True := fun e l' c' hready => .ret hready trivial
  refine tryCategorized_keeps (S := fun _ l' c' => l' = l ∧ c' = c)
    (.ofExcept (h.ready (Nat.zero_le 1)) fun _ _ => ⟨rfl, rfl⟩) ?_ hfail
  rintro hours _ _ - ⟨rfl, rfl⟩
  refine .seq (.select h (Nat.zero_le 1) ?_)
  intro c1 h1 _
  cases hfound : ((protocol fixed).effs [] c1).allocations.get uid with
  | none => exact .ret (h1.ready (Nat.zero_le 1)) trivial
  | some alloc =>
    refine tryCategorized_keeps (.block (h1.know (kept_inProject uid) ⟨alloc, hfound, rfl⟩) (Nat.zero_le 1) ?_)
      (fun _ _ _ hready _ => .ret hready trivial) hfail
    intro hin
    refine .seq (hin.advisoryLock _ (fun a ha => absurd ha List.not_mem_nil) ?_ ?_)
    · intro v _ _ _
      left
      simp [Conn.locks_enter, hlocks]
    intro l2 c2 _ hp h2 _
    exact h2.renewUnderProjectLock hp fun v _ hF => hF.2
end Kdive
