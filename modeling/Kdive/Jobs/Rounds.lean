import Kdive.Jobs.Domains

/-! # Rounds

The reconciler asks for the teardown of the Systems of a lost allocation, the workers run it, and what is left of their
domains it destroys itself. From a plane with nothing in flight one such round is enough, or no number of them is
(`rounds_clean_iff`). It is not for a System that is `reprovisioning`: its teardown fails until it is dead-lettered,
there will be no other under its key, and if its reprovision has failed too, its domain stays
(`reprovisioning_leaks`).
-/

namespace Kdive.Jobs
open Lib Queue List Option Function Table Plane

/-- No job is queued or running, and no worker has one. -/
structure Plane.Drained (s : Plane) : Prop where
  jobs : ∀ {job}, s.db.jobs.get job.id = some job → job.state.terminal = true
  workers : ∀ w, s.workers w = .idle

def Deed.smooth : Deed → Bool
  | .crashes => false
  | .raises _ => false
  | .starts resolved => resolved
  | .answers (.error _) => false
  | _ => true

def Running (s : Plane) : Move → Prop
  | .wait _ => True
  | .work _ w deed => ∀ job, (s.workers w).job = some job → job.payload.kind = .teardown →
      deed.smooth = true
  | _ => False

def Reaping (p : Nat) (m : Move) : Prop :=
  ∃ now, m = .repair now p .checks ∨ m = .repair now p (.destroys true)

/-- `repair_leaked_domains`, from its call to its return; what it destroys is destroyed. -/
def ReaperPass (cfg : Config) (s s' : Plane) : Prop :=
  ∃ now p s₁, s.step cfg (.repair now p .listOwned) = some s₁ ∧
    (plane cfg).Leads (fun _ m => Reaping p m) s₁ s' ∧ s'.reapers p = some ⟨[], none⟩

/-- `repair_orphaned_systems`, then every job to its end, then `repair_leaked_domains`. -/
def Round (cfg : Config) (s s' : Plane) : Prop :=
  ∃ s₁ s₂, OrphanPass cfg s s₁ ∧ (plane cfg).Leads Running s₁ s₂ ∧ s₂.Drained ∧ ReaperPass cfg s₂ s'

def Rounds (cfg : Config) : Nat → Plane → Plane → Prop
  | 0, s, s' => s = s'
  | n + 1, s, s' => ∃ t, Rounds cfg n s t ∧ Round cfg t s'

def Db.Gone (db : Db) (i : Uuid) : Prop :=
  ∃ row, db.systems.get i = some row ∧ db.allocationGone row = true

def Db.TornDown (db : Db) (i : Uuid) : Prop :=
  ∃ row, db.systems.get i = some row ∧ row.state = .tornDown

def Db.Removable (db : Db) (i : Uuid) : Prop :=
  ∃ row, db.systems.get i = some row ∧ row.state ≠ .reprovisioning ∧ row.state ≠ .failed

def Plane.Clean (s : Plane) : Prop := ∀ d ∈ s.domains, ∀ i, d.owner = some i → ¬ s.db.Gone i

/-- Each System that has a domain and no allocation is torn down, or can be and has not been asked for
    it. -/
def Plane.Recoverable (s : Plane) : Prop :=
  ∀ d ∈ s.domains, ∀ i, d.owner = some i → s.db.Gone i → s.db.TornDown i ∨ (s.db.Removable i ∧
    ∀ job, s.db.jobs.get job.id = some job → job.payload ≠ .teardown i)

/-! ## Moves of a round -/

def Untooled (m : Move) : Prop := ∀ now call, m ≠ .tool now call

variable {cfg : Config} {s s' : Plane} {m : Move} {i : Uuid}

theorem untooled_repair {now : Time} {p : Nat} {r : Repair} : Untooled (.repair now p r) :=
  fun _ _ => nofun

theorem Running.untooled (h : Running s m) : Untooled m := by
  rintro now call rfl
  exact h

theorem Reaping.untooled {p : Nat} (h : Reaping p m) : Untooled m := by
  obtain ⟨now, rfl | rfl⟩ := h <;> exact untooled_repair

theorem OrphanPass.leads (h : OrphanPass cfg s s') : (plane cfg).Leads (fun _ m => Untooled m) s s' := by
  obtain ⟨now, p, s₁, hs, hleads, -⟩ := h
  refine leads_cons untooled_repair hs (hleads.mono ?_)
  rintro t m ⟨now, jobId, rfl⟩
  exact untooled_repair

theorem ReaperPass.leads (h : ReaperPass cfg s s') : (plane cfg).Leads (fun _ m => Untooled m) s s' := by
  obtain ⟨now, p, s₁, hs, hleads, -⟩ := h
  exact leads_cons untooled_repair hs (hleads.mono fun _ _ hm => hm.untooled)

theorem Round.leads (h : Round cfg s s') : (plane cfg).Leads (fun _ m => Untooled m) s s' := by
  obtain ⟨s₁, s₂, hpass, hleads, -, hreaps⟩ := h
  exact (hpass.leads.trans (hleads.mono fun _ _ hm => hm.untooled)).trans hreaps.leads

theorem Rounds.leads {n : Nat} (h : Rounds cfg n s s') : (plane cfg).Leads (fun _ m => Untooled m) s s' := by
  induction n generalizing s' with
  | zero =>
    cases h
    exact Machine.Leads.refl (M := plane cfg) s
  | succ n ih =>
    obtain ⟨t, hrounds, hround⟩ := h
    exact (ih hrounds).trans hround.leads

theorem tornDown_step (h : s.step cfg m = some s') (hI : s.db.TornDown i) : s'.db.TornDown i := by
  obtain ⟨row, hrow, hstate⟩ := hI
  obtain ⟨row', hrow', hchange⟩ := systems_step h hrow
  rw [hchange.tornDown_stays hstate] at hrow'
  exact ⟨row, hrow', hstate⟩

section
variable (hm : Untooled m)
include hm

variable (h : s.step cfg m = some s')
include h

theorem allocations_step : s'.db.allocations = s.db.allocations := by
  cases m with
  | wait =>
    cases h
    rfl
  | tool now call => exact absurd rfl (hm now call)
  | work =>
    rcases work_db (work_of_step h) with hcommitted | ⟨jobs, hdb, -⟩
    · exact hcommitted.allocations
    · rw [hdb]
  | repair =>
    cases (repaired h).2 with
    | abandons =>
      rcases abandon_cases s.db _ with ⟨hdb, -⟩ | ⟨job, -, -, hdb⟩
      · rw [hdb]
      · rw [hdb, (compensate_jobs _ _).2.2.2]
    | repairsOrphan hp hdb =>
      cases hdb with
      | same => rfl
      | enqueued hrow hstate henq => exact henq.allocations
    | _ => rfl

theorem gone_step : s'.db.Gone i ↔ s.db.Gone i := by
  have hallocations := allocations_step hm h
  have hsame : ∀ {row row' : SystemRow}, row'.allocationId = row.allocationId →
      s'.db.allocationGone row' = s.db.allocationGone row := by
    intro row row' hid
    rw [Db.allocationGone, Db.allocationGone, hallocations, hid]
  constructor
  · rintro ⟨row', hrow', hgone⟩
    cases hrow : s.db.systems.get i with
    | none =>
      obtain ⟨-, now, call, htool⟩ := system_new h hrow hrow'
      exact absurd htool (hm now call)
    | some row =>
      obtain ⟨row1, hrow1, hchange⟩ := systems_step h hrow
      cases hrow1.symm.trans hrow'
      exact ⟨row, hrow, hsame hchange.allocationId ▸ hgone⟩
  · rintro ⟨row, hrow, hgone⟩
    obtain ⟨row', hrow', hchange⟩ := systems_step h hrow
    exact ⟨row', hrow', (hsame hchange.allocationId).trans hgone⟩

theorem removable_step (hI : s.db.Removable i) : s'.db.Removable i := by
  obtain ⟨row, hrow, hstate⟩ := hI
  obtain ⟨row', hrow', hchange⟩ := systems_step h hrow
  refine ⟨row', hrow', ?_⟩
  cases hchange with
  | same => exact hstate
  | reprovisioned htool => exact absurd htool (hm _ _)
  | begun | ready | crashed | tornDown => exact ⟨nofun, nofun⟩
end

/-! ## Nothing but teardowns

What is in flight in a round is teardowns, for a round begins when nothing is in flight and adds only them. -/

structure Plane.Tearing (s : Plane) : Prop where
  jobs : ∀ {job}, s.db.jobs.get job.id = some job → job.state.terminal = true ∨ ∃ i, job.payload = .teardown i
  workers : ∀ {w job}, (s.workers w).job = some job → ∃ i, job.payload = .teardown i
  down : ∀ {w job i name}, s.workers w = .handling job (.tearingDown i name) → s.db.TornDown i

theorem Plane.Drained.tearing (h : s.Drained) : s.Tearing := by
  refine ⟨fun hjob => .inl (h.jobs hjob), fun {w job} hjob => ?_, fun {w job i name} hw => ?_⟩
  · rw [h.workers w] at hjob
    cases hjob
  · rw [h.workers w] at hw
    cases hw

variable {job : JobRow} {w : WorkerId}

theorem Plane.Tearing.not_provides (hI : s.Tearing)
    (hjob : (s.workers w).job = some job) : ¬ job.payload.Provides i := by
  obtain ⟨j, hpayload⟩ := hI.workers hjob
  rw [hpayload]
  rintro (h | ⟨digest, h⟩) <;> cases h

theorem Plane.Tearing.not_provisioning (hreach : (plane cfg).Reach s) (hI : s.Tearing) {system : SystemRow} :
    s.workers w ≠ .handling job (.provisioning system) := by
  intro hw
  have hserving := (conventional hreach).serving w
  rw [hw] at hserving
  exact hI.not_provides (show (s.workers w).job = some job by rw [hw]; rfl) hserving.1

theorem Plane.Tearing.not_provisioned (hreach : (plane cfg).Reach s) (hI : s.Tearing) {system : SystemRow}
    {name : DomainName} : s.workers w ≠ .handling job (.provisioned system name) := by
  intro hw
  have hserving := (conventional hreach).serving w
  rw [hw] at hserving
  exact hI.not_provides (show (s.workers w).job = some job by rw [hw]; rfl) hserving.1.1

theorem Queue.not_claimable {now : Time} (h : job.state.terminal = true) : claimable now job = false := by
  rw [JobState.terminal_iff] at h
  simp [claimable, h.1, h.2]

section
variable (hreach : (plane cfg).Reach s)
include hreach

theorem tearing_step (hm : Untooled m) (h : s.step cfg m = some s') (hI : s.Tearing) : s'.Tearing := by
  refine ⟨fun {job'} hjob' => ?_, fun {w job} hjob => ?_, fun {w job i name} hw => ?_⟩
  · rcases row_cases h hjob' with ⟨job, hjob, hchange⟩ | ⟨-, -, hnew⟩
    · have hid : job.id = job'.id := key_eq_of_get hjob
      rcases hI.jobs (hid ▸ hjob) with hterminal | ⟨i, hpayload⟩
      · rw [hchange.terminal hterminal]
        exact .inl hterminal
      · exact .inr ⟨i, hchange.payload.trans hpayload⟩
    · rcases hnew.asked with ⟨now, call, htool⟩ | ⟨i, hpayload, -⟩
      · exact absurd htool (hm now call)
      · exact .inr ⟨i, hpayload⟩
  · rcases worker_step h w with hsame | ⟨now, deed, rfl, hnext⟩
    · exact hI.workers (hsame ▸ hjob)
    · rcases hnext.job hjob with hheld | ⟨locked, row, -, -, hpick, rfl⟩
      · exact hI.workers hheld
      · obtain ⟨hrow, hclaimable⟩ := of_pick hpick
        rcases hI.jobs hrow with hterminal | hteardown
        · rw [not_claimable hterminal] at hclaimable
          cases hclaimable
        · exact hteardown
  · rcases worker_step h w with hsame | ⟨now, deed, rfl, hnext⟩
    · exact tornDown_step h (hI.down (hsame ▸ hw))
    · rw [hw] at hnext
      generalize hx : s.workers w = x at hnext
      cases hnext with
      | starts hstarted =>
        cases hstarted with
        | tearingDown hrow hjob =>
          rcases hjob with hjob | ⟨-, hdown⟩
          · exact absurd (.inl hjob) (hI.not_provides (show (s.workers w).job = some job by rw [hx]; rfl))
          · exact ⟨_, hrow, hdown⟩
      | answers hanswered => cases hanswered
      | commits hconcluded =>
        cases hconcluded with
        | tearingDown => exact absurd hx (hI.not_provisioned hreach)

theorem domains_shrink (hI : s.Tearing) (h : s.step cfg m = some s')
    {d : Domain} (hd : d ∈ s'.domains) : d ∈ s.domains := by
  rcases (domains_step h).mem hd with hold | ⟨w, job, system, hw, -⟩
  · exact hold
  · exact absurd hw (hI.not_provisioning hreach)

theorem domain_stays (hI : s.Tearing) (h : s.step cfg m = some s')
    (hup : ¬ s.db.TornDown i) {d : Domain} (hd : d ∈ s.domains) (howner : d.owner = some i) : d ∈ s'.domains := by
  have howned := owned hreach
  obtain ⟨j, row, hname, howner', hrow⟩ : ∃ j row, d.name = domainNameFor j ∧ d.owner = some j ∧
      s.db.systems.get j = some row := by
    rcases howned.domains d hd with hnone | hmanaged
    · cases hnone.symm.trans howner
    · exact hmanaged
  rw [howner', some.injEq] at howner
  subst howner
  -- whatever else goes by another System's name
  have hkept : ∀ {k name}, name = domainNameFor k → s.db.TornDown k → d ∈ s.domains.filter (·.name ≠ name) := by
    rintro k name rfl hdown
    refine mem_filter.mpr ⟨hd, ?_⟩
    have hne : d.name ≠ domainNameFor k := by
      rw [hname]
      intro heq
      exact hup (DomainName.system.inj heq ▸ hdown)
    simpa using hne
  have hchange := domains_step h
  generalize s'.domains = domains at hchange
  cases hchange with
  | same => exact hd
  | defined => exact mem_append_left _ hd
  | undefined hw => exact absurd hw (hI.not_provisioning hreach)
  | tornDown hw =>
    have hserving := (conventional hreach).serving
    rename_i w job k name
    have hserving := hserving w
    rw [hw] at hserving
    exact hkept hserving.2 (hI.down hw)
  | reaped hm hp =>
    obtain ⟨k, row', hname', -, hrow', hdown⟩ := (howned.reapers _ _ hp).doomed _ rfl
    exact hkept hname' ⟨row', hrow', hdown⟩
end

/-! ## The workers' part -/

def Db.AtTeardown (db : Db) (i : Uuid) (x : Worker) : Prop :=
  ∀ job, x.job = some job → job.payload = .teardown i → x = .claimed job ∨ x = .handling job .starting ∨
    (db.TornDown i ∧ ((∃ name, x = .handling job (.tearingDown i name)) ∨ ∃ ref, x = .returned job (.ok ref)))

/-- The System is torn down, or will be. -/
structure Plane.Draining (s : Plane) (i : Uuid) : Prop where
  removable : s.db.Removable i
  workers : ∀ w, s.db.AtTeardown i (s.workers w)
  job : s.db.TornDown i ∨ ∃ job, s.db.jobs.get job.id = some job ∧ job.payload = .teardown i ∧ job.live

theorem Db.AtTeardown.keep {x : Worker} (hI : s.db.AtTeardown i x) (h : s.step cfg m = some s') :
    s'.db.AtTeardown i x := by
  intro job hjob hpayload
  rcases hI job hjob hpayload with hclaimed | hstarting | ⟨hdown, hx⟩
  · exact .inl hclaimed
  · exact .inr (.inl hstarting)
  · exact .inr (.inr ⟨tornDown_step h hdown, hx⟩)

theorem starts_teardown {w : WorkerId} {job : JobRow} (hpayload : job.payload = .teardown i)
    (hi : s.db.Removable i) : ∃ db name, s.db.markTornDown i = .ok (db, some name) ∧
      s.starts w job true = (s.withDb db).set w (.handling job (.tearingDown i name)) := by
  obtain ⟨row, hrow, hstate⟩ := hi
  have hmark : ∃ db name, s.db.markTornDown i = .ok (db, some name) := by
    unfold Db.markTornDown
    rw [hrow]
    dsimp only
    split
    · exact ⟨_, _, rfl⟩
    · rename_i hne
      have hgo : row.state.ensureTransition .tornDown = .ok () := by
        cases hrowState : row.state <;> simp_all [SystemState.ensureTransition, SystemState.successors]
      rw [hgo]
      exact ⟨_, _, rfl⟩
  obtain ⟨db, name, hmark⟩ := hmark
  refine ⟨db, name, hmark, ?_⟩
  unfold starts
  rw [hpayload]
  dsimp only
  rw [hmark]
  rfl

theorem atTeardown_step (hI : s.Draining i) (hok : Running s m) (h : s.step cfg m = some s')
    (w : WorkerId) : s'.db.AtTeardown i (s'.workers w) := by
  have hkeep := (hI.workers w).keep h
  rcases worker_step h w with hsame | ⟨now, deed, rfl, hnext⟩
  · rwa [hsame]
  · intro job hjob hpayload
    have hw := hI.workers w
    have hsmooth : (s.workers w).job = some job → deed.smooth = true :=
      fun hheld => hok job hheld (by rw [hpayload]; rfl)
    generalize hx : s.workers w = x at hnext hkeep hsmooth hw
    generalize hy : s'.workers w = y at hnext hjob
    cases hnext with
    | claims =>
      cases hjob
      exact .inl rfl
    | calls =>
      cases hjob
      exact .inr (.inl rfl)
    | refuses | finishes | crashes => cases hjob
    | @starts resolved held _ hstarted =>
      obtain rfl : held = job := by cases hstarted <;> exact some.inj hjob
      obtain rfl : resolved = true := hsmooth rfl
      obtain ⟨db, name, hmark, hstarts⟩ := @starts_teardown s i w held hpayload hI.removable
      obtain ⟨row, hrow, hdown, -⟩ := markTornDown_row hmark
      simp only [step, work, hx, hstarts, ite_none_right_eq_some, some.injEq] at h
      obtain ⟨-, rfl⟩ := h
      rw [workers_set_self] at hy
      exact .inr (.inr ⟨⟨row, hrow, hdown⟩, .inl ⟨name, hy.symm⟩⟩)
    | @answers answer held stage _ hanswered =>
      obtain rfl : held = job := by cases hanswered <;> exact some.inj hjob
      cases answer with
      | error => cases hsmooth rfl
      | ok ref =>
        rcases hkeep held rfl hpayload with hx | hx | ⟨hdown, ⟨name, hx⟩ | ⟨ref, hx⟩⟩
        · cases hx
        · cases hx
          simp [step, work, *, answers] at h
        · cases hx
          simp only [step, work, *, answers, ite_none_right_eq_some, some.injEq] at h
          obtain ⟨-, rfl⟩ := h
          rw [workers_set_self] at hy
          exact .inr (.inr ⟨hdown, .inr ⟨_, hy.symm⟩⟩)
        · cases hx
    | @commits held stage _ hconcluded =>
      obtain rfl : held = job := by cases hconcluded <;> exact some.inj hjob
      rcases hw held rfl hpayload with hx | hx | ⟨-, ⟨name, hx⟩ | ⟨ref, hx⟩⟩ <;> cases hx <;> cases hconcluded
    | raises =>
      cases hjob
      cases hsmooth rfl

section
variable (hreach : (plane cfg).Reach s)
include hreach

theorem draining_step (hreg : cfg.registered .teardown = true)
    (hI : s.Draining i) (hok : Running s m) (h : s.step cfg m = some s') : s'.Draining i := by
  refine ⟨removable_step hok.untooled h hI.removable, atTeardown_step hI hok h, ?_⟩
  rcases hI.job with hdown | ⟨job, hjob, hpayload, hlive⟩
  · exact .inl (tornDown_step h hdown)
  obtain ⟨job', hjob', hchange⟩ := row_step h hjob
  have hid : job'.id = job.id := key_eq_of_get hjob'
  have hstill : job'.live → s'.db.TornDown i ∨
      ∃ job, s'.db.jobs.get job.id = some job ∧ job.payload = .teardown i ∧ job.live :=
    fun hlive' => .inr ⟨job', hid ▸ hjob', hchange.payload.trans hpayload, hlive'⟩
  -- what a worker has of the row is for the System
  have hheldPayload : ∀ {w held}, (s.workers w).job = some held → held.id = job.id → held.payload = .teardown i := by
    intro w held hw hheld
    obtain ⟨-, row, hrow, hrowPayload, -⟩ := holds hreach hw
    rw [hheld, hjob, some.injEq] at hrow
    subst hrow
    exact hrowPayload.symm.trans hpayload
  cases hchange with
  | same | beaten => exact hstill hlive
  | claimed => exact hstill (.inr rfl)
  | requeued => exact hstill (.inl rfl)
  | completed hm hw hheld =>
    -- the handler has torn it down before it returned
    have hheldJob := show (s.workers _).job = some _ by rw [hw]; rfl
    rcases hI.workers _ _ hheldJob (hheldPayload hheldJob hheld) with hx | hx | ⟨hdown, -⟩
    · cases hw.symm.trans hx
    · cases hw.symm.trans hx
    · exact .inl (tornDown_step h hdown)
  | deadLettered hm hdeed hw hheld hworker hfence hwhy =>
    have hpayload' := hheldPayload hw hheld
    rcases hwhy with hreturned | hunregistered
    · rcases hI.workers _ _ hw hpayload' with hx | hx | ⟨-, ⟨name, hx⟩ | ⟨ref, hx⟩⟩ <;>
        rw [hreturned] at hx <;> cases hx
    · rw [hpayload', show (Payload.teardown i).kind = .teardown from rfl, hreg] at hunregistered
      cases hunregistered
  | canceled htool => exact absurd htool (hok.untooled _ _)
  | abandoned hrepair =>
    subst hrepair
    cases hok

theorem draining_of_pass (hdrained : s.Drained)
    (hpass : OrphanPass cfg s s') (hgone : s.db.Gone i) (hup : ¬ s.db.TornDown i) (hremovable : s.db.Removable i)
    (hnone : ∀ job, s.db.jobs.get job.id = some job → job.payload ≠ .teardown i) : s'.Draining i := by
  obtain ⟨p, hpassed, hdone⟩ := passed hpass
  obtain ⟨row, hrow, hstate⟩ := hremovable
  refine ⟨⟨row, hpassed.systems ▸ hrow, hstate⟩, fun w job hjob => ?_, .inr ?_⟩
  · rw [hpassed.workers, hdrained.workers w] at hjob
    cases hjob
  obtain rfl : row.id = i := key_eq_of_get hrow
  have horphan : s.db.Orphan row := by
    obtain ⟨row', hrow', hrowGone⟩ := hgone
    cases hrow.symm.trans hrow'
    exact ⟨hrow, fun hdown => hup ⟨row, hrow, hdown⟩, hstate.2, hrowGone⟩
  obtain ⟨job, hjob, hpayload, hold | hqueued⟩ := hpass.teardown hreach horphan
  · exact absurd hpayload (hnone job hold)
  · exact ⟨job, hjob, hpayload, .inl hqueued⟩

theorem tornDown_of_drained (hreg : cfg.registered .teardown = true)
    (hI : s.Draining i) (hleads : (plane cfg).Leads Running s s') (hdrained : s'.Drained) : s'.db.TornDown i := by
  have hend := hleads.always (I := fun t => (plane cfg).Reach t ∧ t.Draining i)
    (fun t m t' hok hI ht =>
      ⟨reach_step hI.1 trivial ht, draining_step hI.1 hreg hI.2 hok ht⟩) ⟨hreach, hI⟩
  rcases hend.2.job with hdown | ⟨job, hjob, -, hlive⟩
  · exact hdown
  · rw [JobRow.live_iff, hdrained.jobs hjob] at hlive
    cases hlive
end

/-! ## The reconciler's part -/

theorem reaping_undisturbed {p : Nat} {m : Move} (h : Reaping p m) : Undisturbed p m := by
  obtain ⟨now, rfl | rfl⟩ := h <;> exact fun _ => ⟨nofun, nofun, nofun⟩

theorem reaping_step {p : Nat} {m : Move} (h : s.step cfg m = some s') (hm : Reaping p m) :
    s'.db = s.db ∧ s'.workers = s.workers := by
  obtain ⟨now, rfl | rfl⟩ := hm <;> cases (repaired h).2 <;> exact ⟨rfl, rfl⟩

theorem ReaperPass.db (h : ReaperPass cfg s s') : s'.db = s.db ∧ s'.workers = s.workers := by
  obtain ⟨now, p, s₁, hlist, hleads, -⟩ := h
  have hstart : s₁.db = s.db ∧ s₁.workers = s.workers := by
    cases (repaired hlist).2 with
    | listOwned => exact ⟨rfl, rfl⟩
  refine hleads.always (I := fun t : Plane => t.db = s.db ∧ t.workers = s.workers) ?_ hstart
  intro t m t' hm hI ht
  obtain ⟨hdb, hworkers⟩ := reaping_step ht hm
  exact ⟨hdb.trans hI.1, hworkers.trans hI.2⟩

theorem ReaperPass.reaped (hreach : (plane cfg).Reach s) (hdrained : s.Drained)
    (h : ReaperPass cfg s s') (hdown : s.db.TornDown i) {d : Domain} (hd : d ∈ s'.domains) : d.owner ≠ some i := by
  obtain ⟨now, p, s₁, hlist, hleads, hdone⟩ := h
  have hsettled : s.Settled i := by
    refine ⟨hdown, fun w job stage hw => ?_, fun job hjob _ => hdrained.jobs hjob⟩
    rw [hdrained.workers w] at hw
    cases hw
  exact combed_through (hsettled.quiet hreach) hlist (hleads.mono fun _ _ hm => reaping_undisturbed hm) hdone hd

theorem reaperPass_returns (cfg : Config) (s : Plane) : ∃ s', ReaperPass cfg s s' := by
  have hpass : ∀ (pending : List Domain) (t : Plane), t.reapers 0 = some ⟨pending, none⟩ →
      ∃ t', (plane cfg).Leads (fun _ m => Reaping 0 m) t t' ∧ t'.reapers 0 = some ⟨[], none⟩ := by
    intro pending
    induction pending with
    | nil => exact fun t ht => ⟨t, Machine.Leads.refl (M := plane cfg) t, ht⟩
    | cons d rest ih =>
      intro t ht
      let doomed := if d.owner.any t.db.leaked then some d else none
      let t1 : Plane := { t with reapers := Function.update t.reapers 0 (some ⟨rest, doomed⟩) }
      have hcheck : t.step cfg (.repair t.clock 0 .checks) = some t1 := by
        simp [step, repair, ht, t1, doomed]
      have hfound : t1.reapers 0 = some ⟨rest, doomed⟩ := update_self 0 _ t.reapers
      cases hdoomed : doomed with
      | none =>
        rw [hdoomed] at hfound
        obtain ⟨t', hleads, hdone⟩ := ih t1 hfound
        exact ⟨t', leads_cons ⟨_, .inl rfl⟩ hcheck hleads, hdone⟩
      | some d' =>
        rw [hdoomed] at hfound
        let t2 : Plane := { t1 with
          domains := t1.domains.filter (·.name ≠ d'.name)
          reapers := Function.update t1.reapers 0 (some ⟨rest, none⟩) }
        have hdestroy : t1.step cfg (.repair t1.clock 0 (.destroys true)) = some t2 := by
          simp [step, repair, hfound, t2, destroy]
        have hleft : t2.reapers 0 = some ⟨rest, none⟩ := update_self 0 _ t1.reapers
        obtain ⟨t', hleads, hdone⟩ := ih t2 hleft
        exact ⟨t', leads_cons ⟨_, .inl rfl⟩ hcheck (leads_cons ⟨_, .inr rfl⟩ hdestroy hleads), hdone⟩
  let s₁ : Plane := { s with reapers := Function.update s.reapers 0 (some { pending := s.domains }) }
  have hlist : s.step cfg (.repair s.clock 0 .listOwned) = some s₁ := by
    simp [step, repair, s₁]
  have hleft : s₁.reapers 0 = some ⟨s.domains, none⟩ := update_self 0 _ s.reapers
  obtain ⟨s', hleads, hdone⟩ := hpass s.domains s₁ hleft
  exact ⟨s', s.clock, 0, s₁, hlist, hleads, hdone⟩

/-! ## A round is possible

Each run of a job uses up one of its attempts, so the workers come to the end of the queue. -/

def JobRow.due (job : JobRow) : Nat :=
  if job.state = .queued then job.maxAttempts - job.attempt else 0

def Plane.due (s : Plane) : Nat := (s.db.jobs.rows.map JobRow.due).sum

structure Plane.Loaded (s : Plane) : Prop where
  workers : ∀ w, s.workers w = .idle
  queuePaused : s.db.queuePaused = false
  jobs : ∀ {job}, s.db.jobs.get job.id = some job → job.live →
    job.state = .queued ∧ job.attempt < job.maxAttempts ∧ ∃ i, job.payload = .teardown i

theorem handles_teardown {held : JobRow} {i : Uuid} (hw : s.workers 0 = .handling held .starting)
    (hpayload : held.payload = .teardown i) : ∃ s' result, (plane cfg).Leads Running s s' ∧
      s'.workers = Function.update s.workers 0 (.returned held result) ∧
      s'.db.jobs = s.db.jobs ∧ s'.db.queuePaused = s.db.queuePaused := by
  have hrefl : ∀ t : Plane, (plane cfg).Leads Running t t :=
    fun t => Machine.Leads.refl (M := plane cfg) t
  cases hmark : s.db.markTornDown i with
  | error =>
    let s₁ := s.set 0 (.returned held (.error .infrastructureFailure))
    have h1 : s.step cfg (.work s.clock 0 (.starts true)) = some s₁ := by
      simp [step, work, hw, starts, hpayload, hmark, s₁]
    refine ⟨s₁, _, leads_cons ?_ h1 (hrefl s₁), rfl, rfl, rfl⟩
    exact fun _ _ _ => rfl
  | ok out =>
    obtain ⟨db, _ | name⟩ := out
    · let s₁ := s.set 0 (.returned held (.ok none))
      have h1 : s.step cfg (.work s.clock 0 (.starts true)) = some s₁ := by
        simp [step, work, hw, starts, hpayload, hmark, s₁]
      refine ⟨s₁, _, leads_cons ?_ h1 (hrefl s₁), rfl, rfl, rfl⟩
      exact fun _ _ _ => rfl
    · let s₁ := (s.withDb db).set 0 (.handling held (.tearingDown i name))
      let s₂ := (s₁.destroy name).set 0 (.returned held (.ok (some (toString i))))
      have h1 : s.step cfg (.work s.clock 0 (.starts true)) = some s₁ := by
        simp [step, work, hw, starts, hpayload, hmark, s₁]
      have h2 : s₁.step cfg (.work s.clock 0 (.answers (.ok ""))) = some s₂ := by
        have hclock : s.clock ≤ s₁.clock := le_refl _
        have hw1 : s₁.workers 0 = .handling held (.tearingDown i name) := workers_set_self _
        simp [step, work, hclock, hw1, answers, s₂]
      refine ⟨s₂, _, leads_cons ?_ h1 (leads_cons ?_ h2 (hrefl s₂)),
        update_idem .., (Committed.markTornDown_jobs hmark).1,
        Committed.markTornDown_queuePaused hmark⟩
      all_goals exact fun _ _ _ => rfl

/-- What `queue.complete` and `queue.fail` make of the row of the job the worker has claimed. -/
theorem finished_row {jobs : JobTable} {w : WorkerId} {now lease : Time} {locked : Uuid → Bool}
    {job : JobRow} (hpick : pick jobs now locked = some job) (result : Except ErrorCategory (Option String)) :
    ∃ (set : JobRow → JobRow) (hset : ∀ job, (set job).id = job.id), (match result with
        | .ok ref => complete (dequeue jobs w now lease locked).1 job.id w ref
        | .error category => fail (dequeue jobs w now lease locked).1
            (claim w now lease job) category false).1 =
        jobs.modify job.id (set ∘ claim w now lease) (fun _ => hset _) ∧
      ((set (claim w now lease job)).state.terminal = true ∨ (set = requeued ∧ job.attempt + 1 < job.maxAttempts)) := by
  cases result with
  | ok ref =>
    exact ⟨({ · with state := .succeeded, resultRef := ref }), fun _ => rfl, update_dequeue hpick, .inl rfl⟩
  | error category =>
    by_cases hlast : job.maxAttempts ≤ job.attempt + 1
    · refine ⟨deadLettered category, fun _ => rfl, ?_, .inl rfl⟩
      simp only [fail, claim, hlast, or_true, if_true]
      exact update_dequeue hpick
    · refine ⟨requeued, fun _ => rfl, ?_, .inr ⟨rfl, by omega⟩⟩
      simp only [fail, claim, hlast, or_false, Bool.false_eq_true, if_false]
      exact update_dequeue hpick

theorem loaded_modify (hI : s.Loaded) (hworkers : ∀ w, s'.workers w = .idle)
    (hpaused : s'.db.queuePaused = false) {job : JobRow} {f : JobRow → JobRow}
    {hf : ∀ job, (f job).id = job.id} (hjobs : s'.db.jobs = s.db.jobs.modify job.id f hf)
    (hjob : s.db.jobs.get job.id = some job) (hlive : job.live)
    (hrow : (f job).state.terminal = true ∨ ((f job).state = .queued ∧
      (f job).attempt = job.attempt + 1 ∧ (f job).maxAttempts = job.maxAttempts ∧
      (f job).payload = job.payload ∧ job.attempt + 1 < job.maxAttempts)) : s'.Loaded ∧ s'.due < s.due := by
  obtain ⟨hqueued, hleft, i, hpayload⟩ := hI.jobs hjob hlive
  refine ⟨⟨hworkers, hpaused, fun {job'} hjob' hlive' => ?_⟩, ?_⟩
  · rw [hjobs, get_modify] at hjob'
    split at hjob'
    · rename_i hid
      rw [← hid, hjob] at hjob'
      obtain rfl : f job = job' := some.inj hjob'
      rcases hrow with hended | ⟨hstate, hattempt, hmax, hsame, hmore⟩
      · rw [JobRow.live_iff, hended] at hlive'
        cases hlive'
      · exact ⟨hstate, by omega, i, hsame.trans hpayload⟩
    · exact hI.jobs hjob' hlive'
  · unfold due
    rw [hjobs]
    refine sum_modify_lt hjob ?_
    have hdue : job.due = job.maxAttempts - job.attempt := if_pos hqueued
    rcases hrow with hended | ⟨hstate, hattempt, hmax, -, -⟩
    · have hzero : (f job).due = 0 := if_neg fun hstate => by
        rw [hstate] at hended
        cases hended
      omega
    · have hless : (f job).due = (f job).maxAttempts - (f job).attempt := if_pos hstate
      omega

theorem runs_one (hreg : cfg.registered .teardown = true) (hI : s.Loaded) {job0 : JobRow}
    (hjob0 : s.db.jobs.get job0.id = some job0) (hlive0 : job0.live) :
    ∃ s', (plane cfg).Leads Running s s' ∧ s'.Loaded ∧ s'.due < s.due := by
  obtain ⟨hqueued0, hleft0, -⟩ := hI.jobs hjob0 hlive0
  obtain ⟨job, hpick⟩ := pick_of_claimable (fun _ => false) hjob0
    (show claimable s.clock job0 = true by simp [claimable, hqueued0, hleft0]) rfl
  obtain ⟨hjob, hclaimable⟩ := of_pick hpick
  have hlive : job.live := by
    rw [JobRow.live_iff]
    cases hterminal : job.state.terminal with
    | false => rfl
    | true => simp [not_claimable hterminal] at hclaimable
  obtain ⟨hqueued, hleft, i, hpayload⟩ := hI.jobs hjob hlive
  let held := claim 0 s.clock cfg.lease job
  let s₁ := (s.withDb { s.db with
    jobs := (dequeue s.db.jobs 0 s.clock cfg.lease (fun _ => false)).1 }).set 0 (.claimed held)
  let s₂ := s₁.set 0 (.handling held .starting)
  have h1 : s.step cfg (.work s.clock 0 (.dequeue fun _ => false)) = some s₁ := by
    simp [step, work, hI.workers 0, hI.queuePaused, dequeue, hpick, s₁, held]
  have h2 : s₁.step cfg (.work s.clock 0 .dispatch) = some s₂ := by
    have hkind : cfg.registered held.payload.kind = true := by
      show cfg.registered job.payload.kind = true
      rwa [hpayload]
    have hclock : s.clock ≤ s₁.clock := le_refl _
    simp [step, work, hclock, hkind, s₁, s₂]
  obtain ⟨s3, result, hleads, hworkers, hjobs, hpaused⟩ :=
    @handles_teardown cfg s₂ held i (workers_set_self _) hpayload
  obtain ⟨set, hset, hfinished, hrow⟩ := @finished_row s.db.jobs 0 s.clock cfg.lease _ job hpick result
  let s4 := (s3.withDb { s3.db with
    jobs := s.db.jobs.modify job.id (set ∘ claim 0 s.clock cfg.lease) (fun _ => hset _) }).set 0 .idle
  have h4 : s3.step cfg (.work s3.clock 0 .finishes) = some s4 := by
    have hw : s3.workers 0 = .returned held result := by rw [hworkers, update_self]
    have hid : held.id = job.id := rfl
    have hjobs : s3.db.jobs = (dequeue s.db.jobs 0 s.clock cfg.lease (fun _ => false)).1 := hjobs
    cases result <;> simp only at hfinished <;>
      simp [step, work, hw, hjobs, hid, s4, held, hfinished]
  have hjobs4 : s4.db.jobs = s.db.jobs.modify job.id (set ∘ claim 0 s.clock cfg.lease) (fun _ => hset _) := rfl
  refine ⟨s4, leads_cons ?_ h1 (leads_cons ?_ h2 (hleads.trans
    (leads_cons ?_ h4 (Machine.Leads.refl (M := plane cfg) s4)))),
    loaded_modify hI (fun w => ?_) (hpaused.trans hI.queuePaused) hjobs4 hjob hlive ?_⟩
  · intro job hjob
    rw [hI.workers 0] at hjob
    cases hjob
  · exact fun _ _ _ => rfl
  · exact fun _ _ _ => rfl
  · rcases eq_or_ne w 0 with rfl | hw
    · exact workers_set_self _
    · have hother : s4.workers w = s₂.workers w := by
        rw [workers_set_of_ne hw]
        show s3.workers w = _
        rw [hworkers, update_of_ne hw]
      rw [hother]
      simp [s₂, s₁, workers_set_of_ne hw, hI.workers w]
  · rcases hrow with hended | ⟨rfl, hmore⟩
    · exact .inl hended
    · exact .inr ⟨rfl, rfl, rfl, rfl, hmore⟩

theorem drains (hreg : cfg.registered .teardown = true) (hI : s.Loaded) :
    ∃ s', (plane cfg).Leads Running s s' ∧ s'.Drained ∧ s'.db.queuePaused = false := by
  induction hn : s.due using Nat.strong_induction_on generalizing s with
  | _ n ih =>
    subst hn
    by_cases hany : ∃ job, s.db.jobs.get job.id = some job ∧ job.live
    · obtain ⟨job, hjob, hlive⟩ := hany
      obtain ⟨s₁, hleads, hI1, hless⟩ := runs_one hreg hI hjob hlive
      obtain ⟨s', hleads', hdrained⟩ := ih s₁.due hless hI1 rfl
      exact ⟨s', hleads.trans hleads', hdrained⟩
    · refine ⟨s, Machine.Leads.refl (M := plane cfg) s, ⟨fun {job} hjob => ?_, hI.workers⟩,
        hI.queuePaused⟩
      by_contra hended
      exact hany ⟨job, hjob, JobRow.live_iff.mpr (by simpa using hended)⟩

theorem loaded_of_pass (hdrained : s.Drained) (hopen : s.db.queuePaused = false)
    (hpass : OrphanPass cfg s s') : s'.Loaded := by
  obtain ⟨p, hpassed, -⟩ := passed hpass
  refine ⟨fun w => ?_, hpassed.queuePaused.trans hopen, fun {job} hjob hlive => ?_⟩
  · rw [hpassed.workers, hdrained.workers w]
  · rcases hpassed.added hjob with hold | ⟨row, -, hfresh⟩
    · rw [JobRow.live_iff, hdrained.jobs hold] at hlive
      cases hlive
    · have hattempt := hfresh.attempt
      have hmax := hfresh.maxAttempts
      exact ⟨hfresh.state, by omega, row.id, hfresh.payload⟩

theorem round_returns (hreg : cfg.registered .teardown = true) (hdrained : s.Drained)
    (hopen : s.db.queuePaused = false) : ∃ s', Round cfg s s' ∧ s'.Drained ∧ s'.db.queuePaused = false := by
  obtain ⟨s₁, hpass⟩ := orphanPass_returns cfg s
  obtain ⟨s₂, hleads, hdrained2, hopen2⟩ := drains hreg (loaded_of_pass hdrained hopen hpass)
  obtain ⟨s', hreaps⟩ := reaperPass_returns cfg s₂
  refine ⟨s', ⟨s₁, s₂, hpass, hleads, hdrained2, hreaps⟩, ⟨?_, ?_⟩, ?_⟩
  · rw [hreaps.db.1]
    exact hdrained2.jobs
  · rw [hreaps.db.2]
    exact hdrained2.workers
  · rwa [hreaps.db.1]

theorem rounds_return (hreg : cfg.registered .teardown = true) (hdrained : s.Drained)
    (hopen : s.db.queuePaused = false) (n : Nat) :
    ∃ s', Rounds cfg n s s' ∧ s'.Drained ∧ s'.db.queuePaused = false := by
  induction n with
  | zero => exact ⟨s, rfl, hdrained, hopen⟩
  | succ n ih =>
    obtain ⟨t, hrounds, hdrainedt, hopent⟩ := ih
    obtain ⟨s', hround, hend⟩ := round_returns hreg hdrainedt hopent
    exact ⟨s', ⟨t, hrounds, hround⟩, hend⟩

/-! ## What rounds leave -/

inductive Plane.Stranded (s : Plane) (i : Uuid) : Prop where
  | irremovable {row : SystemRow} (hrow : s.db.systems.get i = some row)
      (hstate : row.state = .reprovisioning ∨ row.state = .failed)
  | spent {row : SystemRow} {job : JobRow} (hrow : s.db.systems.get i = some row)
      (hstate : row.state ≠ .tornDown) (hjob : s.db.jobs.get job.id = some job)
      (hpayload : job.payload = .teardown i) (hended : job.state.terminal = true)
      (hfree : ∀ w held, (s.workers w).job = some held → held.payload ≠ .teardown i)

theorem Plane.Stranded.up (h : s.Stranded i) : ¬ s.db.TornDown i := by
  rintro ⟨row', hrow', hdown⟩
  cases h with
  | irremovable hrow hstate =>
    rw [hrow, some.injEq] at hrow'
    subst hrow'
    rcases hstate with hstate | hstate <;> rw [hdown] at hstate <;> cases hstate
  | spent hrow hstate =>
    rw [hrow, some.injEq] at hrow'
    exact hstate (hrow' ▸ hdown)

theorem stranded_step (hreach : (plane cfg).Reach s) (htearing : s.Tearing) (hm : Untooled m)
    (h : s.step cfg m = some s') (hI : s.Stranded i) : s'.Stranded i := by
  cases hI with
  | @irremovable row hrow hstate =>
    obtain ⟨row', hrow', hchange⟩ := systems_step h hrow
    cases hchange with
    | same => exact .irremovable hrow' hstate
    | begun htool | reprovisioned htool => exact absurd htool (hm _ _)
    | ready hwork hw => exact absurd hw (htearing.not_provisioned hreach)
    | crashed hwork hw hready => rcases hstate with hstate | hstate <;> rw [hready] at hstate <;> cases hstate
    | tornDown hwork hw hjob hgo => rcases hstate with hstate | hstate <;> rw [hstate] at hgo <;> cases hgo
  | @spent row job hrow hstate hjob hpayload hended hfree =>
    have hid : row.id = i := key_eq_of_get hrow
    obtain ⟨job', hjob', hjobChange⟩ := row_step h hjob
    rw [hjobChange.terminal hended] at hjob'
    have hfree' : ∀ w held, (s'.workers w).job = some held → held.payload ≠ .teardown i := by
      intro w held hheld
      rcases worker_step h w with hsame | ⟨now, deed, rfl, hnext⟩
      · exact hfree w held (hsame ▸ hheld)
      · rcases hnext.job hheld with hold | ⟨locked, row', -, -, hpick, rfl⟩
        · exact hfree w held hold
        · -- there is no other teardown of it to be claimed
          intro hpayload'
          have hpayload' : row'.payload = .teardown i := hpayload'
          obtain ⟨hrow', hclaimable⟩ := of_pick hpick
          obtain rfl : row' = job := keyed_unique hreach ⟨hrow', (under_teardown hreach hrow').mp hpayload'⟩
            ⟨hjob, (under_teardown hreach hjob).mp hpayload⟩
          rw [not_claimable hended] at hclaimable
          cases hclaimable
    obtain ⟨row', hrow', hchange⟩ := systems_step h hrow
    refine .spent hrow' ?_ hjob' hpayload hended hfree'
    cases hchange with
    | same => exact hstate
    | tornDown hwork hw hteardown =>
      exact absurd (hid ▸ hteardown) (hfree _ _ (show (s.workers _).job = some _ by rw [hw]; rfl))
    | _ => nofun

/-- A domain that is not recovered at once is never. -/
theorem rounds_leave (hreach : (plane cfg).Reach s) (htearing : s.Tearing) (hstranded : s.Stranded i)
    (hgone : s.db.Gone i) {d : Domain} (hd : d ∈ s.domains) (howner : d.owner = some i) {n : Nat}
    (hrounds : Rounds cfg n s s') : ¬ s'.Clean := by
  have hend := hrounds.leads.always
    (I := fun t => (plane cfg).Reach t ∧ t.Tearing ∧ t.Stranded i ∧ t.db.Gone i ∧ d ∈ t.domains)
    (fun t m t' hm ⟨hreach, htearing, hstranded, hgone, hd⟩ ht =>
      ⟨reach_step hreach trivial ht, tearing_step hreach hm ht htearing,
        stranded_step hreach htearing hm ht hstranded, (gone_step hm ht).mpr hgone,
        domain_stays hreach htearing ht hstranded.up hd howner⟩)
    ⟨hreach, htearing, hstranded, hgone, hd⟩
  obtain ⟨-, -, -, hgone', hd'⟩ := hend
  exact fun hclean => hclean d hd' i howner hgone'

theorem stranded_of_drained (hdrained : s.Drained) (hgone : s.db.Gone i) (hup : ¬ s.db.TornDown i)
    (hnot : ¬ (s.db.Removable i ∧
      ∀ job, s.db.jobs.get job.id = some job → job.payload ≠ .teardown i)) : s.Stranded i := by
  obtain ⟨row, hrow, -⟩ := hgone
  by_cases hremovable : s.db.Removable i
  · have hasked : ¬ ∀ job, s.db.jobs.get job.id = some job → job.payload ≠ .teardown i :=
      fun hnone => hnot ⟨hremovable, hnone⟩
    simp only [not_forall, not_not] at hasked
    obtain ⟨job, hjob, hpayload⟩ := hasked
    refine .spent hrow (fun hdown => hup ⟨row, hrow, hdown⟩) hjob hpayload (hdrained.jobs hjob) ?_
    intro w held hheld
    rw [hdrained.workers w] at hheld
    cases hheld
  · refine .irremovable hrow ?_
    by_contra hstate
    rw [not_or] at hstate
    exact hremovable ⟨row, hrow, hstate⟩

theorem round_cleans (hreach : (plane cfg).Reach s) (hreg : cfg.registered .teardown = true)
    (hdrained : s.Drained) (hrecoverable : s.Recoverable) (h : Round cfg s s') : s'.Clean := by
  intro d hd i howner hgone'
  have hback := h.leads.always
    (I := fun t => (plane cfg).Reach t ∧ t.Tearing ∧ (t.db.Gone i → s.db.Gone i) ∧ (d ∈ t.domains → d ∈ s.domains))
    (fun t m t' hm ⟨hreach, htearing, hgone, hd⟩ ht =>
      ⟨reach_step hreach trivial ht, tearing_step hreach hm ht htearing,
        fun hgone' => hgone ((gone_step hm ht).mp hgone'),
        fun hd' => hd (domains_shrink hreach htearing ht hd')⟩)
    ⟨hreach, hdrained.tearing, id, id⟩
  obtain ⟨-, -, hgone, hold⟩ := hback
  obtain ⟨s₁, s₂, hpass, hleads, hdrained2, hreaps⟩ := h
  have hreach1 := hpass.reach hreach
  have hreach2 := hreach1.leads (hleads.mono fun _ _ _ => trivial)
  have hdown : s₂.db.TornDown i := by
    by_cases hdown : s.db.TornDown i
    · exact (hpass.leads.trans (hleads.mono fun _ _ hm => hm.untooled)).always
        (I := fun t : Plane => t.db.TornDown i) (fun t m t' _ hI ht => tornDown_step ht hI) hdown
    · rcases hrecoverable d (hold hd) i howner (hgone hgone') with hdown' | ⟨hremovable, hnone⟩
      · exact absurd hdown' hdown
      · exact tornDown_of_drained hreach1 hreg
          (draining_of_pass hreach hdrained hpass (hgone hgone') hdown hremovable hnone) hleads hdrained2
  exact hreaps.reaped hreach2 hdrained2 hdown hd howner

/-- **From a plane with nothing in flight, rounds come to an end with no domain of a System whose
    allocation is gone if and only if each such System is torn down, or can be torn down and has not been
    asked for it.** -/
theorem rounds_clean_iff (hreach : (plane cfg).Reach s) (hdrained : s.Drained)
    (hopen : s.db.queuePaused = false) (hreg : cfg.registered .teardown = true) :
    (∃ n, (∃ s', Rounds cfg n s s') ∧ ∀ s', Rounds cfg n s s' → s'.Clean) ↔ s.Recoverable := by
  constructor
  · rintro ⟨n, ⟨s', hrounds⟩, hclean⟩ d hd i howner hgone
    by_contra hnot
    rw [not_or] at hnot
    exact rounds_leave hreach hdrained.tearing (stranded_of_drained hdrained hgone hnot.1 hnot.2) hgone hd
      howner hrounds (hclean s' hrounds)
  · intro hrecoverable
    obtain ⟨s', hround, -⟩ := round_returns hreg hdrained hopen
    refine ⟨1, ⟨s', s, rfl, hround⟩, ?_⟩
    rintro s' ⟨t, rfl, hround⟩
    exact round_cleans hreach hreg hdrained hrecoverable hround

theorem drained_after {ms : List Move} (honly : (plane {}).runsBy (fun _ m => onlyFive m) fresh ms = true)
    (hfive : (after {} ms).workers 5 = .idle)
    (hjobs : (after {} ms).db.jobs.rows.all (·.state.terminal) = true) : (after {} ms).Drained :=
  ⟨fun hjob => all_eq_true.mp hjobs _ (mem_of_get hjob), after_idle honly hfive⟩

theorem rounds_clean_ready : (after {} (provisioned ++ released)).domains.length = 1 ∧
    ∃ n s', Rounds {} n (after {} (provisioned ++ released)) s' ∧ s'.Clean := by
  refine ⟨by decide +kernel, ?_⟩
  have hdrained : (after {} (provisioned ++ released)).Drained :=
    drained_after (by decide +kernel) rfl (by decide +kernel)
  have hrecoverable : (after {} (provisioned ++ released)).Recoverable := by
    have hstate : (after {} (provisioned ++ released)).db.systems.rows.all (·.state = .ready) = true := by
      decide +kernel
    have hkind : (after {} (provisioned ++ released)).db.jobs.rows.all
        (·.payload.kind = .provision) = true := by decide +kernel
    rintro d - i - ⟨row, hrow, -⟩
    have hready := all_eq_true.mp hstate row (mem_of_get hrow)
    refine .inr ⟨⟨row, hrow, ?_⟩, fun job hjob hpayload => ?_⟩
    · rw [of_decide_eq_true hready]
      decide
    · have hprovision := all_eq_true.mp hkind job (mem_of_get hjob)
      rw [hpayload] at hprovision
      cases hprovision
  obtain ⟨n, ⟨s', hrounds⟩, hclean⟩ := (rounds_clean_iff (reach_after {} _) hdrained (by decide +kernel)
    rfl).mpr hrecoverable
  exact ⟨n, s', hrounds, hclean s' hrounds⟩

def untroubled (s : Plane) : Move → Bool
  | .tool _ (.cancelJob _) => false
  | .work _ w (.answers (.error _)) =>
    match s.workers w with
    | .handling _ (.tearingDown _ _) => false
    | _ => true
  | .repair _ _ (.destroys succeeds) => succeeds
  | .repair _ _ .stops => false
  | _ => true

/-- System 2 is to be reprovisioned, which the provider fails to do; then its allocation is released, and
    its teardown is asked for and fails. -/
def failing : List Move :=
  provisioned ++ [.tool 0 (.reprovision 2 4 "second")] ++
    (List.replicate 3 (runsJob [.answers (.error .infrastructureFailure)])).flatten ++ released ++
    [.repair 0 0 .listOrphans, .repair 0 0 (.repairsOrphan 6)] ++
    (List.replicate 3 (runsJob [])).flatten

/-- A System that was being reprovisioned is never torn down. -/
theorem reprovisioning_leaks : (plane {}).ReachBy (fun s m => untroubled s m = true) (after {} failing) ∧
    (after {} failing).Drained ∧
    ∀ n, (∃ s', Rounds {} n (after {} failing) s') ∧
      ∀ s', Rounds {} n (after {} failing) s' → ¬ s'.Clean := by
  have hreach := reach_after {} failing
  have hdrained : (after {} failing).Drained :=
    drained_after (by decide +kernel) rfl (by decide +kernel)
  refine ⟨?_, hdrained, fun n => ⟨?_, fun s' hrounds => ?_⟩⟩
  · exact (Machine.ReachBy.init fresh_init).leads
      (Machine.leads_runTo (by decide +kernel))
  · obtain ⟨s', hrounds, -⟩ := @rounds_return {} _ rfl hdrained (by decide +kernel) n
    exact ⟨s', hrounds⟩
  · obtain ⟨row, hrow, hstate⟩ := map_eq_some_iff.mp
      (show ((after {} failing).db.systems.get 2).map (fun row =>
        (row.state, (after {} failing).db.allocationGone row)) = some (.reprovisioning, true) by
          decide +kernel)
    rw [Prod.mk.injEq] at hstate
    have hd : (⟨.system 2, some 2⟩ : Domain) ∈ (after {} failing).domains := by decide +kernel
    exact rounds_leave hreach hdrained.tearing (.irremovable hrow (.inl hstate.1)) ⟨row, hrow, hstate.2⟩ hd rfl hrounds
end Kdive.Jobs
