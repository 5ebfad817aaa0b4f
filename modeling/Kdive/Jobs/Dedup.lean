import Kdive.Jobs.Workers
import Mathlib.Data.Fintype.EquivFin

/-! # Keys that never expire

Whoever asks for a job under a key gets the job there is, whatever has become of it (`Queue.enqueue`): one job under a
key, for what the key names (`keyed_unique`, `keyed_paired`), for ever. So `repair_orphaned_systems` leaves an orphan
whose teardown has ended before (`orphans_reclaimed_iff`), and `systems.reprovision`, which moves the System before it
asks, leaves one that goes back to an earlier profile `reprovisioning` (`reprovision_queued_iff`).
-/

namespace Kdive.Jobs
open Lib List Option Function Table Plane Queue

def Db.Under (db : Db) (key : DedupKey) (job : JobRow) : Prop :=
  db.jobs.get job.id = some job ∧ job.dedupKey = key

def JobRow.live (job : JobRow) : Prop := job.state = .queued ∨ job.state = .running

def Db.Pending (db : Db) (isFor : Payload → Prop) : Prop :=
  ∃ job, db.jobs.get job.id = some job ∧ isFor job.payload ∧ job.live

theorem JobRow.live_iff {job : JobRow} : job.live ↔ job.state.terminal = false := by
  unfold JobRow.live
  cases job.state <;> simp [JobState.terminal]

variable {cfg : Config} {s s' : Plane} {m : Move} {id : Uuid} {job : JobRow}

/-! ## One job under a key -/

theorem keyed_paired (h : (plane cfg).Reach s) (hjob : s.db.jobs.get id = some job) :
    paired job.dedupKey job.payload = true := by
  have hall := h.always
    (I := fun s : Plane => ∀ id job, s.db.jobs.get id = some job → paired job.dedupKey job.payload = true)
    (fun s hinit id job hjob => by
      rw [get_of_rows_nil hinit.jobs] at hjob
      cases hjob)
    (fun s m s' _ _ hI hs id job' hjob' => by
      rcases row_cases hs hjob' with ⟨job, hjob, hchange⟩ | ⟨-, -, hnew⟩
      · rw [hchange.dedupKey, hchange.payload]
        exact hI id job hjob
      · exact hnew.paired)
  exact hall id job hjob

def Plane.KeysUnique (s : Plane) : Prop :=
  ∀ id job id' job', s.db.jobs.get id = some job → s.db.jobs.get id' = some job' →
    job.dedupKey = job'.dedupKey → id = id'

theorem keysUnique_step (hI : s.KeysUnique) (h : s.step cfg m = some s') : s'.KeysUnique := by
  -- what is under the key of a new job was not there before
  have hnew : ∀ {id job id' job'}, s'.db.jobs.get id = some job → s'.db.jobs.get id' = some job' →
      job.dedupKey = job'.dedupKey → s.db.jobs.get id = none → id = id' := by
    intro id job id' job' hjob hjob' hkey hnone
    rcases row_cases h hjob with ⟨old, hold, -⟩ | ⟨-, hjobs, hnew⟩
    · cases hnone.symm.trans hold
    · by_contra hne
      have hid : job.id = id := key_eq_of_get hjob
      rw [hjobs, get_insert_of_ne (fun heq => hne (hid.symm.trans heq))] at hjob'
      exact forKey_eq_none.mp hnew.free job' (mem_of_get hjob') hkey.symm
  intro id job id' job' hjob hjob' hkey
  rcases row_cases h hjob with ⟨old, hold, hchange⟩ | ⟨hnone, -⟩
  · rcases row_cases h hjob' with ⟨old', hold', hchange'⟩ | ⟨hnone', -⟩
    · refine hI id old id' old' hold hold' ?_
      rw [← hchange.dedupKey, ← hchange'.dedupKey, hkey]
    · exact (hnew hjob' hjob hkey.symm hnone').symm
  · exact hnew hjob hjob' hkey hnone

variable {key : DedupKey}

theorem keyed_unique (h : (plane cfg).Reach s) {job job' : JobRow}
    (hjob : s.db.Under key job) (hjob' : s.db.Under key job') : job = job' := by
  have hall := h.always (I := fun s : Plane => s.KeysUnique)
    (fun s hinit id job id' job' hjob => by
      rw [get_of_rows_nil hinit.jobs] at hjob
      cases hjob)
    (fun s m s' _ _ hI hs => keysUnique_step hI hs)
  have hid := hall _ _ _ _ hjob.1 hjob'.1 (hjob.2.trans hjob'.2.symm)
  have hget := hjob.1
  rw [hid, hjob'.1] at hget
  exact (some.inj hget).symm

theorem under_teardown (h : (plane cfg).Reach s) (hjob : s.db.jobs.get job.id = some job) {i : Uuid} :
    job.payload = .teardown i ↔ job.dedupKey = .teardown i := by
  have hpair := keyed_paired h hjob
  constructor
  · intro hpayload
    rw [hpayload] at hpair
    cases hkey : job.dedupKey <;> simp_all [paired]
  · intro hkey
    rw [hkey] at hpair
    cases hpayload : job.payload <;> simp_all [paired]

variable {db db' : Db} {payload : Payload}

section
variable (h : Enqueued db payload key db')
include h

theorem Enqueued.under : ∃ job, db'.Under key job := by
  cases h with
  | found h =>
    obtain ⟨hmem, hkey⟩ := mem_of_forKey h
    exact ⟨_, get_key_of_mem hmem, hkey⟩
  | added hkey hid hnew => exact ⟨_, get_insert_self hid, hnew.key⟩

theorem Enqueued.mono (hjob : db.jobs.get id = some job) : db'.jobs.get id = some job := by
  cases h with
  | found => exact hjob
  | added => exact get_insert_of_get hjob

theorem Enqueued.old_or_fresh (hjob : db'.jobs.get id = some job) :
    db.jobs.get id = some job ∨ (job.Fresh payload key ∧ forKey db.jobs key = none) := by
  cases h with
  | found => exact .inl hjob
  | added hkey hid hnew =>
    rename_i added
    rcases eq_or_ne added.id id with rfl | hne
    · have hself : (db.jobs.insert added).get added.id = some added := get_insert_self hid
      cases hself.symm.trans hjob
      exact .inr ⟨hnew, hkey⟩
    · rw [get_insert_of_ne hne] at hjob
      exact .inl hjob
end

/-! ## Orphaned Systems -/

def Db.Orphan (db : Db) (row : SystemRow) : Prop :=
  db.systems.get row.id = some row ∧ row.state ≠ .tornDown ∧ row.state ≠ .failed ∧ db.allocationGone row = true

theorem mem_orphans {db : Db} {i : Uuid} : i ∈ db.orphans ↔ ∃ row, db.Orphan row ∧ row.id = i := by
  simp only [Db.orphans, List.mem_map, List.mem_filter, Bool.and_eq_true, Bool.not_eq_true',
    SystemState.terminal_eq_false]
  constructor
  · rintro ⟨row, ⟨hmem, ⟨hdown, hfailed⟩, hgone⟩, rfl⟩
    exact ⟨row, ⟨Table.get_key_of_mem hmem, hdown, hfailed, hgone⟩, rfl⟩
  · rintro ⟨row, ⟨hrow, hdown, hfailed, hgone⟩, rfl⟩
    exact ⟨row, ⟨Table.mem_of_get hrow, ⟨hdown, hfailed⟩, hgone⟩, rfl⟩

/-- `repair_orphaned_systems`, from its call to its return, while nobody else writes. -/
def OrphanPass (cfg : Config) (s s' : Plane) : Prop :=
  ∃ now p s₁, s.step cfg (.repair now p .listOrphans) = some s₁ ∧
    (plane cfg).Leads (fun _ m => ∃ now jobId, m = .repair now p (.repairsOrphan jobId)) s₁ s' ∧
    s'.orphanages p = []

structure Passing (s : Plane) (p : Nat) (t : Plane) : Prop where
  systems : t.db.systems = s.db.systems
  allocations : t.db.allocations = s.db.allocations
  queuePaused : t.db.queuePaused = s.db.queuePaused
  workers : t.workers = s.workers
  kept : ∀ {id job}, s.db.jobs.get id = some job → t.db.jobs.get id = some job
  added : ∀ {id job}, t.db.jobs.get id = some job → s.db.jobs.get id = some job ∨
    ∃ row, s.db.Orphan row ∧ job.Fresh (.teardown row.id) (.teardown row.id)
  left : ∀ i ∈ t.orphanages p, ∃ row, s.db.Orphan row ∧ row.id = i
  done : ∀ {row}, s.db.Orphan row → row.id ∈ t.orphanages p ∨ ∃ job, t.db.Under (.teardown row.id) job

theorem passing_step {p : Nat} {t t' : Plane} {now : Time} {jobId : Uuid} (hI : Passing s p t)
    (h : t.step cfg (.repair now p (.repairsOrphan jobId)) = some t') : Passing s p t' := by
  cases (repaired h).2 with
  | @repairsOrphan _ systemId rest db hp hdb =>
    have hdone : (∃ row, s.db.Orphan row ∧ row.id = systemId) → ∃ job, db.Under (.teardown systemId) job := by
      rintro ⟨row, ⟨hrow, hdown, hfailed, -⟩, rfl⟩
      cases hdb with
      | same hterminal =>
        have hlive := SystemState.terminal_eq_false.mpr ⟨hdown, hfailed⟩
        rw [hterminal row (hI.systems ▸ hrow)] at hlive
        cases hlive
      | enqueued hrow hstate henq => exact henq.under
    have hsame : db.systems = t.db.systems ∧ db.allocations = t.db.allocations ∧ db.queuePaused = t.db.queuePaused := by
      cases hdb with
      | same => exact ⟨rfl, rfl, rfl⟩
      | enqueued hrow hstate henq => exact ⟨henq.systems, henq.allocations, henq.queuePaused⟩
    have hmono : ∀ {id job}, t.db.jobs.get id = some job → db.jobs.get id = some job := by
      intro id job hjob
      cases hdb with
      | same => exact hjob
      | enqueued hrow hstate henq => exact henq.mono hjob
    refine ⟨hsame.1.trans hI.systems, hsame.2.1.trans hI.allocations,
      hsame.2.2.trans hI.queuePaused, hI.workers, fun hjob => hmono (hI.kept hjob), ?_, ?_, ?_⟩
    · intro id job hjob
      cases hdb with
      | same => exact hI.added hjob
      | enqueued hrow hstate henq =>
        rcases henq.old_or_fresh hjob with hold | ⟨hfresh, -⟩
        · exact hI.added hold
        · obtain ⟨row, horphan, rfl⟩ := hI.left systemId (hp ▸ mem_cons_self)
          exact .inr ⟨row, horphan, hfresh⟩
    · intro i hi
      have hi : i ∈ rest := by
        have hupdate : i ∈ update t.orphanages p rest p := hi
        rwa [update_self] at hupdate
      exact hI.left i (hp ▸ mem_cons_of_mem _ hi)
    · intro row horphan
      rcases hI.done horphan with hleft | ⟨job, hget, hkey⟩
      · rw [hp, mem_cons] at hleft
        rcases hleft with rfl | hleft
        · exact .inr (hdone ⟨row, horphan, rfl⟩)
        · refine .inl ?_
          show row.id ∈ update t.orphanages p rest p
          rwa [update_self]
      · exact .inr ⟨job, hmono hget, hkey⟩

theorem passed (h : OrphanPass cfg s s') : ∃ p, Passing s p s' ∧ s'.orphanages p = [] := by
  obtain ⟨now, p, s₁, hs, hleads, hdone⟩ := h
  refine ⟨p, ?_, hdone⟩
  refine hleads.always (I := fun t => Passing s p t) ?_ ?_
  · rintro t m t' ⟨now, jobId, rfl⟩ hI ht
    have ht : t.step cfg (.repair now p (.repairsOrphan jobId)) = some t' := ht
    exact passing_step hI ht
  · cases (repaired hs).2 with
    | listOrphans =>
      have hleft : update s.orphanages p s.db.orphans p = s.db.orphans :=
        update_self ..
      refine ⟨rfl, rfl, rfl, rfl, id, .inl, fun i hi => mem_orphans.mp (hleft ▸ hi), fun horphan => .inl ?_⟩
      show _ ∈ update s.orphanages p s.db.orphans p
      rw [hleft]
      exact mem_orphans.mpr ⟨_, horphan, rfl⟩

theorem OrphanPass.reach (hreach : (plane cfg).Reach s) (h : OrphanPass cfg s s') : (plane cfg).Reach s' := by
  obtain ⟨now, p, s₁, hs, hleads, -⟩ := h
  exact (reach_step hreach trivial hs).leads (hleads.mono fun _ _ _ => trivial)

theorem fresh_id (jobs : JobTable) : ∃ id, jobs.get id = none := by
  obtain ⟨id, hid⟩ := Infinite.exists_notMem_finset (jobs.rows.map (·.id)).toFinset
  refine ⟨id, get_eq_none.mpr fun job hjob heq => hid ?_⟩
  rw [List.mem_toFinset, List.mem_map]
  exact ⟨job, hjob, heq⟩

theorem repairOrphan_isSome (db : Db) (now : Time) (i : Uuid) :
    ∃ jobId db', db.repairOrphan now jobId i = some db' := by
  obtain ⟨jobId, hid⟩ := fresh_id db.jobs
  have henqueue : ∃ db', db.enqueue jobId now (.teardown i) (.teardown i) = some db' := by
    have hmax : ¬ defaultMaxAttempts < 1 := by decide
    unfold Db.enqueue enqueue
    rw [if_pos hid, if_neg hmax]
    cases forKey db.jobs (.teardown i) <;> exact ⟨_, rfl⟩
  refine ⟨jobId, ?_⟩
  unfold Db.repairOrphan
  cases hrow : db.systems.get i with
  | none => exact ⟨db, rfl⟩
  | some =>
    dsimp only
    split
    · exact ⟨db, rfl⟩
    · exact henqueue

/-- A pass meets no obstacle: some unused id is there for every job it adds. -/
theorem orphanPass_returns (cfg : Config) (s : Plane) : ∃ s', OrphanPass cfg s s' := by
  have hpass : ∀ (left : List Uuid) (t : Plane), t.orphanages 0 = left →
      ∃ t', (plane cfg).Leads (fun _ m => ∃ now jobId, m = .repair now 0 (.repairsOrphan jobId)) t t' ∧
        t'.orphanages 0 = [] := by
    intro left
    induction left with
    | nil => exact fun t ht => ⟨t, Machine.Leads.refl (M := plane cfg) t, ht⟩
    | cons i rest ih =>
      intro t ht
      obtain ⟨jobId, db, hdb⟩ := repairOrphan_isSome t.db t.clock i
      let t1 : Plane := { t with db, orphanages := update t.orphanages 0 rest }
      have hstep : t.step cfg (.repair t.clock 0 (.repairsOrphan jobId)) = some t1 := by
        simp [step, repair, ht, hdb, t1]
      have hleft : t1.orphanages 0 = rest := update_self 0 rest t.orphanages
      obtain ⟨t', hleads, hdone⟩ := ih t1 hleft
      exact ⟨t', leads_cons ⟨_, _, rfl⟩ hstep hleads, hdone⟩
  let s₁ : Plane := { s with orphanages := update s.orphanages 0 s.db.orphans }
  have hlist : s.step cfg (.repair s.clock 0 .listOrphans) = some s₁ := by
    simp [step, repair, s₁]
  obtain ⟨s', hleads, hdone⟩ := hpass _ s₁ rfl
  exact ⟨s', s.clock, 0, s₁, hlist, hleads, hdone⟩

theorem Passing.orphan_iff {p : Nat} (h : Passing s p s') (row : SystemRow) : s'.db.Orphan row ↔ s.db.Orphan row := by
  simp only [Db.Orphan, Db.allocationGone, h.systems, h.allocations]

theorem OrphanPass.not_pending (hreach : (plane cfg).Reach s) (hpass : OrphanPass cfg s s')
    {job : JobRow} {i : Uuid} (hjob : s.db.jobs.get job.id = some job) (hpayload : job.payload = .teardown i)
    (hended : ¬ job.live) : ¬ s'.db.Pending (· = .teardown i) := by
  rintro ⟨job', hjob', hpayload', hlive⟩
  have hreach' := hpass.reach hreach
  obtain ⟨p, hpassed, -⟩ := passed hpass
  have hkept := hpassed.kept hjob
  obtain rfl : job = job' := keyed_unique hreach' ⟨hkept, (under_teardown hreach' hkept).mp hpayload⟩
    ⟨hjob', (under_teardown hreach' hjob').mp hpayload'⟩
  exact hended hlive

theorem OrphanPass.teardown (hreach : (plane cfg).Reach s) (hpass : OrphanPass cfg s s') {row : SystemRow}
    (hrow : s.db.Orphan row) : ∃ job, s'.db.jobs.get job.id = some job ∧ job.payload = .teardown row.id ∧
      (s.db.jobs.get job.id = some job ∨ job.state = .queued) := by
  obtain ⟨p, hpassed, hdone⟩ := passed hpass
  rcases hpassed.done hrow with hleft | ⟨job, hjob, hkey⟩
  · rw [hdone] at hleft
    cases hleft
  · refine ⟨job, hjob, (under_teardown (hpass.reach hreach) hjob).mpr hkey, ?_⟩
    rcases hpassed.added hjob with hold | ⟨_, -, hfresh⟩
    · exact .inl hold
    · exact .inr hfresh.state

/-- **`repair_orphaned_systems` leaves every orphan with a teardown on its way if and only if no teardown
    of one of them has ended before.** -/
theorem orphans_reclaimed_iff (hreach : (plane cfg).Reach s) (hpass : OrphanPass cfg s s') :
    (∀ row, s'.db.Orphan row → s'.db.Pending (· = .teardown row.id)) ↔
    ∀ row, s.db.Orphan row → ∀ job, s.db.jobs.get job.id = some job → job.payload = .teardown row.id → job.live := by
  obtain ⟨p, hpassed, hdone⟩ := passed hpass
  constructor
  · intro hall row hrow job hjob hpayload
    by_contra hended
    exact hpass.not_pending hreach hjob hpayload hended (hall row ((hpassed.orphan_iff row).mpr hrow))
  · intro hnone row hrow
    have hrow := (hpassed.orphan_iff row).mp hrow
    obtain ⟨job, hjob, hpayload, hold | hqueued⟩ := hpass.teardown hreach hrow
    · exact ⟨job, hjob, hpayload, hnone row hrow job hold hpayload⟩
    · exact ⟨job, hjob, hpayload, .inl hqueued⟩

def takesJob : List Deed := [.dequeue fun _ => false, .dispatch, .starts true]

def runsJob (deeds : List Deed) : List Move := (takesJob ++ deeds ++ [Deed.finishes]).map (.work 0 5)

def provides : List Deed := [.defines true, .answers (.ok ""), .commits]

def provisioned : List Move :=
  [.tool 0 (.allocate 1), .tool 0 (.provision 1 2 3 "first")] ++ runsJob provides

def released : List Move :=
  [.tool 0 (.allocationTo 1 .releasing), .tool 0 (.allocationTo 1 .released)]

def canceledTeardown : List Move := [.tool 0 (.teardown 2 4), .tool 0 (.cancelJob 4)]

theorem Db.orphan_two {db : Db}
    (h : (db.systems.get 2).map (fun row => (row.state, db.allocationGone row)) = some (.ready, true)) :
    ∃ row, db.Orphan row ∧ row.id = 2 := by
  obtain ⟨row, hrow, hstate⟩ := map_eq_some_iff.mp h
  have hid : row.id = 2 := key_eq_of_get hrow
  rw [Prod.mk.injEq] at hstate
  refine ⟨row, ⟨hid ▸ hrow, ?_, ?_, hstate.2⟩, hid⟩ <;> rw [hstate.1] <;> decide

theorem orphans_reclaimed_released :
    ∃ s' row, OrphanPass {} (after {} (provisioned ++ released)) s' ∧ s'.db.Orphan row ∧
      s'.db.Pending (· = .teardown row.id) := by
  have hreach := reach_after {} (provisioned ++ released)
  generalize hs : after {} (provisioned ++ released) = s at hreach
  obtain ⟨s', hpass⟩ := orphanPass_returns {} s
  obtain ⟨row, horphan, -⟩ := @Db.orphan_two s.db (by rw [← hs]; decide +kernel)
  obtain ⟨p, hpassed, -⟩ := passed hpass
  have hrow := (hpassed.orphan_iff row).mpr horphan
  refine ⟨s', row, hpass, hrow, (orphans_reclaimed_iff hreach hpass).mpr ?_ row hrow⟩
  -- the only job there is a `provision`
  have hall : s.db.jobs.rows.all (·.payload.kind = .provision) = true := by
    rw [← hs]
    decide +kernel
  intro row _ job hjob hpayload
  have hkind := all_eq_true.mp hall job (mem_of_get hjob)
  rw [hpayload] at hkind
  cases hkind

/-- A canceled teardown keeps the next one from being enqueued. -/
theorem orphan_stranded : (plane {}).Reach (after {} (provisioned ++ canceledTeardown ++ released)) ∧
    ∃ s' row, OrphanPass {} (after {} (provisioned ++ canceledTeardown ++ released)) s' ∧
      s'.db.Orphan row ∧ ¬ s'.db.Pending (· = .teardown row.id) := by
  have hreach := reach_after {} (provisioned ++ canceledTeardown ++ released)
  generalize hs : after {} (provisioned ++ canceledTeardown ++ released) = s at hreach
  obtain ⟨s', hpass⟩ := orphanPass_returns {} s
  obtain ⟨row, horphan, hid⟩ := @Db.orphan_two s.db (by rw [← hs]; decide +kernel)
  obtain ⟨job, hjob, hended⟩ := map_eq_some_iff.mp
    (show (s.db.jobs.get 4).map (fun job => (job.payload, job.state)) = some (.teardown 2, .canceled) by
      rw [← hs]
      decide +kernel)
  obtain ⟨p, hpassed, -⟩ := passed hpass
  rw [Prod.mk.injEq] at hended
  have hkey : job.id = 4 := key_eq_of_get hjob
  refine ⟨hreach, s', row, hpass, (hpassed.orphan_iff row).mpr horphan, ?_⟩
  rw [hid]
  refine hpass.not_pending hreach (hkey ▸ hjob) hended.1 ?_
  rw [JobRow.live_iff, hended.2]
  decide

/-! ## Reprovisioning -/

/-- `_reprovision_locked` is what makes a System `reprovisioning`; it asks for the job under the digest
    of the new profile. -/
theorem reprovision_enqueued {row row' : SystemRow} (h : s.step cfg m = some s')
    (hrow : s.db.systems.get row.id = some row) (hready : row.state = .ready)
    (hrow' : s'.db.systems.get row.id = some row') (hstate' : row'.state = .reprovisioning) :
    ∃ db, db.jobs = s.db.jobs ∧ Enqueued db (.reprovision row.id (cfg.digest row'.provisioningProfile))
        (.reprovision row.id (cfg.digest row'.provisioningProfile)) s'.db := by
  obtain ⟨row1, hrow1, hchange⟩ := systems_step h hrow
  cases hrow1.symm.trans hrow'
  cases hchange with
  | same =>
    rw [hready] at hstate'
    cases hstate'
  | reprovisioned hm _ =>
    subst hm
    obtain ⟨db, hdb, rfl⟩ := tool_of_step h
    simp only [tool, Db.reprovision, hrow, ite_none_right_eq_some] at hdb
    have henq := Db.enqueued hdb.2
    exact ⟨_, by rfl, henq⟩
  | begun | ready | crashed | tornDown => cases hstate'

/-- **A System enters `reprovisioning` with a job to move it on if and only if it has not been
    reprovisioned to that profile before, or another reprovision of it is still on its way.** -/
theorem reprovision_queued_iff {row row' : SystemRow}
    (h : s.step cfg m = some s') (hrow : s.db.systems.get row.id = some row) (hready : row.state = .ready)
    (hrow' : s'.db.systems.get row.id = some row') (hstate' : row'.state = .reprovisioning) :
    s'.db.Pending (fun payload => ∃ digest, payload = .reprovision row.id digest) ↔
    (¬ ∃ job, s.db.Under (.reprovision row.id (cfg.digest row'.provisioningProfile)) job) ∨
      s.db.Pending (fun payload => ∃ digest, payload = .reprovision row.id digest) := by
  obtain ⟨db, hjobs, henq⟩ := reprovision_enqueued h hrow hready hrow' hstate'
  constructor
  · rintro ⟨job, hjob, ⟨digest, hpayload⟩, hlive⟩
    rcases henq.old_or_fresh hjob with hold | ⟨-, hnone⟩
    · rw [hjobs] at hold
      exact .inr ⟨job, hold, ⟨digest, hpayload⟩, hlive⟩
    · rw [hjobs] at hnone
      refine .inl ?_
      rintro ⟨old, hold, hkey⟩
      exact forKey_eq_none.mp hnone old (mem_of_get hold) hkey
  · rintro (hfree | ⟨job, hjob, hpayload, hlive⟩)
    · obtain ⟨job, hjob, hkey⟩ := henq.under
      rcases henq.old_or_fresh hjob with hold | ⟨hfresh, -⟩
      · rw [hjobs] at hold
        exact absurd ⟨job, hold, hkey⟩ hfree
      · exact ⟨job, hjob, ⟨_, hfresh.payload⟩, .inl hfresh.state⟩
    · rw [← hjobs] at hjob
      exact ⟨job, henq.mono hjob, hpayload, hlive⟩

def reprovisioned : List Move :=
  provisioned ++ [.tool 0 (.reprovision 2 4 "second")] ++ runsJob provides

theorem reprovision_two {ms : List Move} {jobId : Uuid} {profile : String}
    (h : ((after {} ms).db.systems.get 2).map (·.state) = some .ready)
    (h' : ((after {} ms).step {} (.tool 0 (.reprovision 2 jobId profile))).bind (fun s' =>
      (s'.db.systems.get 2).map fun row => (row.state, row.provisioningProfile)) = some (.reprovisioning, profile)) :
    ∃ s' row row', (after {} ms).step {} (.tool 0 (.reprovision 2 jobId profile)) = some s' ∧
      row.id = 2 ∧ (after {} ms).db.systems.get row.id = some row ∧ row.state = .ready ∧
      s'.db.systems.get row.id = some row' ∧ row'.state = .reprovisioning ∧
      row'.provisioningProfile = profile := by
  obtain ⟨row, hrow, hready⟩ := map_eq_some_iff.mp h
  obtain ⟨s', hs, hrow'⟩ := bind_eq_some_iff.mp h'
  obtain ⟨row', hrow', hstate'⟩ := map_eq_some_iff.mp hrow'
  have hid : row.id = 2 := key_eq_of_get hrow
  rw [Prod.mk.injEq] at hstate'
  exact ⟨s', row, row', hs, hid, hid ▸ hrow, hready, hid ▸ hrow', hstate'⟩

theorem reprovision_queued_new : ∃ s' row', s'.db.systems.get 2 = some row' ∧ row'.state = .reprovisioning ∧
    (after {} reprovisioned).step {} (.tool 0 (.reprovision 2 5 "third")) = some s' ∧
    s'.db.Pending (fun payload => ∃ digest, payload = .reprovision 2 digest) := by
  obtain ⟨s', row, row', hs, hid, hrow, hready, hrow', hstate', hprofile⟩ :=
    @reprovision_two reprovisioned 5 "third" (by decide +kernel) (by decide +kernel)
  have hiff := reprovision_queued_iff hs hrow hready hrow' hstate'
  rw [hprofile, hid] at hiff
  refine ⟨s', row', hid ▸ hrow', hstate', hs, hiff.mpr (.inl ?_)⟩
  rintro ⟨job, hjob, hkey⟩
  have hall : (after {} reprovisioned).db.jobs.rows.all
      (·.dedupKey ≠ .reprovision 2 "third") = true := by decide +kernel
  exact absurd hkey (by simpa using all_eq_true.mp hall job (mem_of_get hjob))

/-- The second profile again: the job under its key has succeeded, and the System stays. -/
theorem reprovision_stranded : (plane {}).Reach (after {} reprovisioned) ∧
    ∃ s' row row', (after {} reprovisioned).step {} (.tool 0 (.reprovision 2 5 "second")) = some s' ∧
      (after {} reprovisioned).db.systems.get 2 = some row ∧ row.state = .ready ∧
      s'.db.systems.get 2 = some row' ∧ row'.state = .reprovisioning ∧
      s'.db.jobs.rows.all (·.state.terminal) = true := by
  obtain ⟨s', row, row', hs, hid, hrow, hready, hrow', hstate', -⟩ :=
    @reprovision_two reprovisioned 5 "second" (by decide +kernel) (by decide +kernel)
  have hjobs : ((after {} reprovisioned).step {} (.tool 0 (.reprovision 2 5 "second"))).map
      (fun s' => s'.db.jobs.rows.all (·.state.terminal)) = some true := by decide +kernel
  rw [hs] at hjobs
  exact ⟨reach_after {} reprovisioned, s', row, row', hs, hid ▸ hrow, hready, hid ▸ hrow', hstate', some.inj hjobs⟩
end Kdive.Jobs
