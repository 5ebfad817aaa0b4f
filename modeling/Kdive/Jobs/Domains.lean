import Kdive.Jobs.Dedup

/-! # Domains and their Systems

A domain is defined for a System that is there; it goes when a handler takes it down, or when `repair_leaked_domains`
finds that its System is not live, which is still so when it destroys it, since `torn_down` is absorbing. Once the
handlers of such a System are gone nothing new is defined, and the next pass takes what they have left
(`leaked_domains_reaped`).
-/

namespace Kdive.Jobs
open Lib
open Plane (work after)
open List Option Function Bool Table Plane

def Payload.systemId : Payload → Option Uuid
  | .provision i => some i
  | .reprovision i _ => some i
  | .teardown i => some i
  | .forceCrash i => some i
  | _ => none

def Payload.Provides (payload : Payload) (i : Uuid) : Prop :=
  payload = .provision i ∨ ∃ digest, payload = .reprovision i digest

theorem Payload.Provides.systemId {payload : Payload} {i : Uuid} (h : payload.Provides i) :
    payload.systemId = some i := by
  rcases h with rfl | ⟨digest, rfl⟩ <;> rfl

def Plane.Serving (s : Plane) : Worker → Prop
  | .handling job (.provisioning system) =>
    job.payload.Provides system.id ∧ ∃ row, s.db.systems.get system.id = some row
  | .handling job (.provisioned system name) =>
    (job.payload.Provides system.id ∧ ∃ row, s.db.systems.get system.id = some row) ∧ name = domainNameFor system.id
  | .handling job (.tearingDown i name) => job.payload.systemId = some i ∧ name = domainNameFor i
  | _ => True

structure Plane.Conventional (s : Plane) : Prop where
  serving : ∀ w, s.Serving (s.workers w)
  named : ∀ {id row}, s.db.systems.get id = some row →
    row.domainName = none ∨ row.domainName = some (domainNameFor row.id)

variable {cfg : Config} {s s' : Plane} {m : Move}

theorem system_stays (h : s.step cfg m = some s') {i : Uuid}
    (hrow : ∃ row, s.db.systems.get i = some row) : ∃ row, s'.db.systems.get i = some row := by
  obtain ⟨row, hrow⟩ := hrow
  obtain ⟨row', hrow', -⟩ := systems_step h hrow
  exact ⟨row', hrow'⟩

theorem Plane.Serving.keep {x : Worker} (hI : s.Serving x) (h : s.step cfg m = some s') : s'.Serving x := by
  cases x with
  | handling job stage =>
    cases stage with
    | provisioning => exact ⟨hI.1, system_stays h hI.2⟩
    | provisioned => exact ⟨⟨hI.1.1, system_stays h hI.1.2⟩, hI.2⟩
    | tearingDown => exact hI
    | _ => trivial
  | _ => trivial

theorem conventional_step (hI : s.Conventional) (h : s.step cfg m = some s') : s'.Conventional := by
  have hnamed : ∀ {id row}, s'.db.systems.get id = some row →
      row.domainName = none ∨ row.domainName = some (domainNameFor row.id) := by
    intro id row' hrow'
    cases hrow : s.db.systems.get id with
    | none => exact .inl (system_new h hrow hrow').1
    | some row =>
      obtain ⟨row1, hrow1, hchange⟩ := systems_step h hrow
      cases hrow1.symm.trans hrow'
      have hname := hI.named hrow
      cases hchange with
      | ready hm hw hid hstate =>
        rename_i now w job system name
        have hserving := hI.serving w
        rw [hw] at hserving
        exact .inr (by rw [hserving.2, hid])
      | _ => exact hname
  refine ⟨fun w => ?_, hnamed⟩
  rcases worker_step h w with hsame | ⟨now, deed, rfl, hnext⟩
  · rw [hsame]
    exact (hI.serving w).keep h
  · have hw := (hI.serving w).keep h
    generalize s.workers w = x at hnext hw
    generalize s'.workers w = y at hnext
    cases hnext with
    | starts hstarted =>
      cases hstarted with
      | provisioning hrow hjob =>
        refine ⟨?_, system_stays h ⟨_, hrow⟩⟩
        rcases hjob with ⟨hjob, -⟩ | ⟨d, hjob, -⟩
        · exact .inl hjob
        · exact .inr ⟨d, hjob⟩
      | tearingDown hrow hjob hname =>
        refine ⟨?_, ?_⟩
        · rcases hjob with hjob | ⟨hjob, -⟩ <;> rw [hjob] <;> rfl
        · rcases hnamed hrow with hnone | hsome
          · rw [hname, hnone]
            rfl
          · rw [hname, hsome]
            rfl
      | _ => trivial
    | answers hanswered =>
      cases hanswered with
      | provisioned => exact ⟨hw, rfl⟩
      | _ => trivial
    | commits hconcluded =>
      cases hconcluded with
      | tearingDown => exact ⟨hw.1.1.systemId, hw.2⟩
      | _ => trivial
    | _ => trivial

theorem conventional (h : (plane cfg).Reach s) : s.Conventional := by
  refine h.always (I := fun s : Plane => s.Conventional) (fun s hinit => ?_)
    (fun s m s' _ _ hI hs => conventional_step hI hs)
  refine ⟨fun w => ?_, fun {id row} hrow => ?_⟩
  · rw [hinit.workers w]
    trivial
  · rw [get_of_rows_nil hinit.systems] at hrow
    cases hrow

/-! ## What a move does to the domains -/

inductive DomainsChange (s : Plane) (m : Move) : List Domain → Prop where
  | same : DomainsChange s m s.domains
  | defined {w : WorkerId} {job : JobRow} {system : SystemRow} {tagged : Bool}
      (hw : s.workers w = .handling job (.provisioning system)) :
      DomainsChange s m (s.domains ++
        [{ name := domainNameFor system.id, systemId := if tagged then some system.id else none }])
  | undefined {w : WorkerId} {job : JobRow} {system : SystemRow}
      (hw : s.workers w = .handling job (.provisioning system)) :
      DomainsChange s m (s.domains.filter (·.name ≠ domainNameFor system.id))
  | tornDown {w : WorkerId} {job : JobRow} {i : Uuid} {name : DomainName}
      (hw : s.workers w = .handling job (.tearingDown i name)) :
      DomainsChange s m (s.domains.filter (·.name ≠ name))
  | reaped {now : Time} {pass : Nat} {pending : List Domain} {d : Domain}
      (hm : m = .repair now pass (.destroys true)) (hp : s.reapers pass = some ⟨pending, some d⟩) :
      DomainsChange s m (s.domains.filter (·.name ≠ d.name))

variable {w : WorkerId} {job : JobRow}

theorem starts_domains {resolved : Bool} : (s.starts w job resolved).domains = s.domains := by
  unfold starts
  repeat' split
  all_goals rfl

theorem commits_domains {stage : Stage} (h : s.commits w job stage = some s') : s'.domains = s.domains := by
  unfold commits at h
  repeat' split at h
  all_goals cases h
  all_goals rfl

theorem answers_domains {answer : Except ErrorCategory String} {stage : Stage} (hw : s.workers w = .handling job stage)
    (h : s.answers cfg w job answer stage = some s') : DomainsChange s m s'.domains := by
  cases stage with
  | tearingDown =>
    cases answer <;> rw [← some.inj h]
    · exact .same
    · exact .tornDown hw
  | _ =>
    cases answer <;> simp only [answers, some.injEq, reduceCtorEq] at h <;> rw [← h] <;>
      exact .same

theorem domains_step (h : s.step cfg m = some s') : DomainsChange s m s'.domains := by
  cases m with
  | wait =>
    cases h
    exact .same
  | tool =>
    obtain ⟨db, -, rfl⟩ := tool_of_step h
    exact .same
  | work now w deed =>
    have h := work_of_step h
    cases deed with
    | starts =>
      simp only [work] at h
      split at h
      · rw [← some.inj h, starts_domains]
        exact .same
      · cases h
    | defines tagged =>
      simp only [work] at h
      split at h
      · rename_i hw
        rw [← some.inj h]
        unfold define
        split
        · exact .same
        · exact .defined hw
      · cases h
    | undefines =>
      simp only [work] at h
      split at h
      · rename_i hw
        rw [← some.inj h]
        exact .undefined hw
      · cases h
    | answers answer =>
      simp only [work] at h
      split at h
      · rename_i hw
        exact answers_domains hw h
      · cases h
    | commits =>
      simp only [work] at h
      split at h
      · rw [commits_domains h]
        exact .same
      · cases h
    | _ =>
      simp only [work] at h
      repeat' split at h
      all_goals cases h
      all_goals exact .same
  | repair =>
    cases (repaired h).2 with
    | destroys hp => exact .reaped rfl hp
    | _ => exact .same

theorem DomainsChange.mem {domains : List Domain} (h : DomainsChange s m domains) {d : Domain}
    (hd : d ∈ domains) : d ∈ s.domains ∨ ∃ w job system, s.workers w = .handling job (.provisioning system) ∧
      d.name = domainNameFor system.id ∧ d.owner = some system.id := by
  cases h with
  | same => exact .inl hd
  | defined hw =>
    rename_i w job system tagged
    rcases mem_append.mp hd with hd | hd
    · exact .inl hd
    · rw [mem_singleton] at hd
      subst hd
      refine .inr ⟨w, job, system, hw, rfl, ?_⟩
      cases tagged <;> rfl
  | undefined | tornDown | reaped => exact .inl (mem_of_mem_filter hd)

theorem reapers_other {p : Nat} (h : s.step cfg m = some s') (hm : ∀ now r, m ≠ .repair now p r) :
    s'.reapers p = s.reapers p := by
  cases m with
  | wait =>
    cases h
    rfl
  | tool =>
    obtain ⟨db, -, rfl⟩ := tool_of_step h
    rfl
  | work =>
    rw [(work_beside (work_of_step h)).reapers]
  | repair now pass r =>
    have hne : p ≠ pass := by
      rintro rfl
      exact hm now r rfl
    cases (repaired h).2 with
    | listOwned | checks | destroys | spares | stops => exact update_of_ne hne ..
    | _ => rfl

/-! ## What the reconciler destroys -/

def Db.Managed (db : Db) (d : Domain) : Prop :=
  d.owner = none ∨ ∃ i row, d.name = domainNameFor i ∧ d.owner = some i ∧ db.systems.get i = some row

def Db.Doomed (db : Db) (d : Domain) : Prop :=
  ∃ i row, d.name = domainNameFor i ∧ d.owner = some i ∧ db.systems.get i = some row ∧ row.state = .tornDown

/-- What a pass has still to look at, and what it is about to destroy. -/
structure Db.Covers (db : Db) (r : Reaper) : Prop where
  pending : ∀ d ∈ r.pending, db.Managed d
  doomed : ∀ d, r.doomed = some d → db.Doomed d

structure Plane.Owned (s : Plane) : Prop where
  domains : ∀ d ∈ s.domains, s.db.Managed d
  reapers : ∀ p r, s.reapers p = some r → s.db.Covers r

variable {d : Domain}

theorem managed_step (h : s.step cfg m = some s') (hd : s.db.Managed d) : s'.db.Managed d := by
  rcases hd with hnone | ⟨i, row, hname, howner, hrow⟩
  · exact .inl hnone
  · obtain ⟨row', hrow', -⟩ := systems_step h hrow
    exact .inr ⟨i, row', hname, howner, hrow'⟩

theorem doomed_step (h : s.step cfg m = some s') (hd : s.db.Doomed d) : s'.db.Doomed d := by
  obtain ⟨i, row, hname, howner, hrow, hstate⟩ := hd
  obtain ⟨row', hrow', hchange⟩ := systems_step h hrow
  rw [hchange.tornDown_stays hstate] at hrow'
  exact ⟨i, row, hname, howner, hrow', hstate⟩

theorem Db.Covers.keep {r : Reaper} (hr : s.db.Covers r) (h : s.step cfg m = some s') : s'.db.Covers r :=
  ⟨fun d hd => managed_step h (hr.pending d hd), fun d hd => doomed_step h (hr.doomed d hd)⟩

theorem doomed_of_leaked {db : Db} (hd : db.Managed d) (hleaked : d.owner.any db.leaked = true) : db.Doomed d := by
  rcases hd with hnone | ⟨i, row, hname, howner, hrow⟩
  · rw [hnone] at hleaked
    cases hleaked
  · rw [howner] at hleaked
    refine ⟨i, row, hname, howner, hrow, ?_⟩
    simp only [any_some, Db.leaked, hrow, and_eq_true, not_eq_true'] at hleaked
    simpa using hleaked.1

theorem owned_step (hreach : (plane cfg).Reach s) (hI : s.Owned) (h : s.step cfg m = some s') : s'.Owned := by
  refine ⟨fun d hd => ?_, fun p r hr => ?_⟩
  · rcases (domains_step h).mem hd with hold | ⟨w, job, system, hw, hname, howner⟩
    · exact managed_step h (hI.domains d hold)
    · have hserving := (conventional hreach).serving w
      rw [hw] at hserving
      obtain ⟨row, hrow⟩ := system_stays h hserving.2
      exact .inr ⟨system.id, row, hname, howner, hrow⟩
  · by_cases hm : ∃ now r, m = .repair now p r
    · obtain ⟨now, rep, rfl⟩ := hm
      have hkeep : s.reapers p = some r → s'.db.Covers r := fun hr => (hI.reapers p r hr).keep h
      have hstep := h
      cases (repaired hstep).2 with
      | listOwned =>
        simp only [update_self, some.injEq] at hr
        subst hr
        exact ⟨hI.domains, (by rintro _ ⟨⟩)⟩
      | checks hp =>
        rename_i d rest
        simp only [update_self, some.injEq] at hr
        subst hr
        have hcovers := hI.reapers p _ hp
        refine ⟨fun d' hd' => hcovers.pending d' (mem_cons_of_mem _ hd'), fun d' hd' => ?_⟩
        simp only [ite_none_right_eq_some, some.injEq] at hd'
        obtain ⟨hleaked, rfl⟩ := hd'
        exact doomed_of_leaked (hcovers.pending d mem_cons_self) hleaked
      | destroys hp | spares hp =>
        simp only [update_self, some.injEq] at hr
        subst hr
        exact ⟨(hI.reapers p _ hp).pending, (by rintro _ ⟨⟩)⟩
      | stops =>
        simp only [update_self] at hr
        cases hr
      | _ => exact hkeep hr
    · have hsame := reapers_other h (p := p) (by simpa using hm)
      rw [hsame] at hr
      exact (hI.reapers p r hr).keep h

theorem owned (h : (plane cfg).Reach s) : s.Owned := by
  refine h.always (I := fun s : Plane => s.Owned) (fun s hinit => ?_)
    (fun s m s' hreach _ hI hs => owned_step hreach hI hs)
  refine ⟨fun d hd => .inl (hinit.domains d hd), fun p r hr => ?_⟩
  rw [hinit.reapers p] at hr
  cases hr

/-! ## What a pass leaves -/

/-- The System is torn down, its handlers are gone and its jobs have ended. -/
structure Plane.Settled (s : Plane) (i : Uuid) : Prop where
  tornDown : ∃ row, s.db.systems.get i = some row ∧ row.state = .tornDown
  handlers : ∀ w job stage, s.workers w = .handling job stage → job.payload.systemId ≠ some i
  jobs : ∀ job, s.db.jobs.get job.id = some job → job.payload.systemId = some i → job.state.terminal = true

/-- Nothing is made of the System any more, and nothing holds the reconciler back. -/
structure Plane.Quiet (s : Plane) (i : Uuid) : Prop where
  tornDown : ∃ row, s.db.systems.get i = some row ∧ row.state = .tornDown
  making : ∀ w job system, s.workers w = .handling job (.provisioning system) → system.id ≠ i
  teardown : ∀ job, s.db.jobs.get job.id = some job → job.payload = .teardown i → job.state.terminal = true

/-- The pass goes on to its end, and what it destroys is destroyed. -/
def Undisturbed (p : Nat) (m : Move) : Prop :=
  ∀ now, m ≠ .repair now p .listOwned ∧ m ≠ .repair now p .stops ∧ m ≠ .repair now p (.destroys false)

variable {i : Uuid}

theorem Plane.Settled.quiet (hreach : (plane cfg).Reach s) (h : s.Settled i) : s.Quiet i := by
  refine ⟨h.tornDown, fun w job system hw hi => ?_, fun job hjob hpayload => ?_⟩
  · have hserving := (conventional hreach).serving w
    rw [hw] at hserving
    exact h.handlers w job _ hw (hi ▸ hserving.1.systemId)
  · exact h.jobs job hjob (by rw [hpayload]; rfl)

theorem quiet_step (hI : s.Quiet i) (h : s.step cfg m = some s') : s'.Quiet i := by
  obtain ⟨row, hrow, hstate⟩ := hI.tornDown
  obtain ⟨row', hrow', hchange⟩ := systems_step h hrow
  rw [hchange.tornDown_stays hstate] at hrow'
  refine ⟨⟨row, hrow', hstate⟩, fun w job system hw hi => ?_, fun job' hjob' hpayload' => ?_⟩
  · rcases worker_step h w with hsame | ⟨now, deed, rfl, hnext⟩
    · exact hI.making w job system (hsame ▸ hw) hi
    · -- a handler begins to provide only for a System that is not torn down
      rw [hw] at hnext
      generalize hx : s.workers w = x at hnext
      cases hnext with
      | starts hstarted =>
        cases hstarted with
        | provisioning hsystem hjob =>
          rw [hi, hrow, some.injEq] at hsystem
          subst hsystem
          rcases hjob with ⟨-, h⟩ | ⟨-, -, h⟩ <;> rw [hstate] at h <;> cases h
      | answers hanswered => cases hanswered
      | commits hconcluded => cases hconcluded
  · rcases row_cases h hjob' with ⟨job, hjob, hrowChange⟩ | ⟨-, -, hnew⟩
    · have hid : job.id = job'.id := key_eq_of_get hjob
      have hterminal := hI.teardown job (hid ▸ hjob) (hrowChange.payload.symm.trans hpayload')
      rwa [hrowChange.terminal hterminal]
    · have hadm := hnew.admits
      rw [hpayload'] at hadm
      obtain ⟨row1, hrow1, hlive⟩ := hadm
      rw [hrow', some.injEq] at hrow1
      subst hrow1
      exact absurd hstate hlive

theorem Plane.Quiet.leaked (h : s.Quiet i) : s.db.leaked i = true := by
  obtain ⟨row, hrow, hstate⟩ := h.tornDown
  rw [Db.leaked, hrow, and_eq_true]
  refine ⟨by simp [hstate], ?_⟩
  rw [Bool.not_eq_true', List.any_eq_false]
  intro job hmem
  by_cases hpayload : job.payload = .teardown i
  · simp [h.teardown job (get_key_of_mem hmem) hpayload]
  · simp [hpayload]

/-- Where a pass is with the domains of the System: each is still to be looked at, or about to go. -/
def Plane.Combed (s : Plane) (p : Nat) (i : Uuid) : Prop :=
  ∃ r, s.reapers p = some r ∧ ∀ d ∈ s.domains, d.owner = some i → d ∈ r.pending ∨ r.doomed = some d

theorem combed_step {p : Nat} (hquiet : s.Quiet i) (hI : s.Combed p i) (hm : Undisturbed p m)
    (h : s.step cfg m = some s') : s'.Combed p i := by
  obtain ⟨r, hr, hdomains⟩ := hI
  -- no domain of the System is added
  have hold : ∀ d ∈ s'.domains, d.owner = some i → d ∈ s.domains := by
    intro d hd howner
    rcases (domains_step h).mem hd with hold | ⟨w, job, system, hw, -, howner'⟩
    · exact hold
    · rw [howner', some.injEq] at howner
      exact absurd howner (hquiet.making w job system hw)
  have hsame : s'.reapers p = s.reapers p → s'.Combed p i := fun heq =>
    ⟨r, heq.trans hr, fun d hd howner => hdomains d (hold d hd howner) howner⟩
  by_cases hmine : ∃ now rep, m = .repair now p rep
  · obtain ⟨now, rep, rfl⟩ := hmine
    have hstep := h
    cases (repaired hstep).2 with
    | listOwned => exact absurd rfl (hm now).1
    | stops => exact absurd rfl (hm now).2.1
    | spares => exact absurd rfl (hm now).2.2
    | checks hp =>
      cases hr.symm.trans hp
      refine ⟨_, update_self .., fun d' hd' howner => ?_⟩
      rcases hdomains d' hd' howner with hmem | hdoomed
      · rcases mem_cons.mp hmem with rfl | hmem
        · refine .inr (if_pos ?_)
          rw [howner]
          exact hquiet.leaked
        · exact .inl hmem
      · cases hdoomed
    | destroys hp =>
      cases hr.symm.trans hp
      refine ⟨_, update_self .., fun d' hd' howner => ?_⟩
      have hd' := mem_filter.mp hd'
      rcases hdomains d' hd'.1 howner with hmem | hdoomed
      · exact .inl hmem
      · cases hdoomed
        simp at hd'
    | _ => exact hsame rfl
  · exact hsame (reapers_other h (by simpa using hmine))

/-- A pass that begins once the System is settled, and comes to its end, leaves none of its domains. -/
theorem combed_through (hquiet : s.Quiet i) {now : Time} {p : Nat} {s₁ s₂ : Plane}
    (hlist : s.step cfg (.repair now p .listOwned) = some s₁)
    (hleads : (plane cfg).Leads (fun _ m => Undisturbed p m) s₁ s₂)
    (hdone : s₂.reapers p = some ⟨[], none⟩) {d : Domain} (hd : d ∈ s₂.domains) : d.owner ≠ some i := by
  have hstart : s₁.Quiet i ∧ s₁.Combed p i := by
    refine ⟨quiet_step hquiet hlist, ?_⟩
    cases (repaired hlist).2 with
    | listOwned => exact ⟨_, update_self .., fun d hd _ => .inl hd⟩
  have hend := hleads.always (I := fun t : Plane => t.Quiet i ∧ t.Combed p i)
    (fun t m t' hm hI ht => ⟨quiet_step hI.1 ht, combed_step hI.1 hI.2 hm ht⟩) hstart
  obtain ⟨-, r, hr, hdomains⟩ := hend
  cases hdone.symm.trans hr
  intro howner
  rcases hdomains d hd howner with hmem | hdoomed
  · cases hmem
  · cases hdoomed

/-- Only domains of torn-down Systems are destroyed, and in one undisturbed pass all of them. -/
theorem leaked_domains_reaped (hreach : (plane cfg).Reach s) :
    (∀ now p s', s.step cfg (.repair now p (.destroys true)) = some s' →
      ∀ d ∈ s.domains, d ∉ s'.domains → ∀ i row, d.owner = some i → s.db.systems.get i = some row →
        row.state = .tornDown) ∧
    ∀ i, s.Settled i → ∀ now p s₁ s₂, s.step cfg (.repair now p .listOwned) = some s₁ →
      (plane cfg).Leads (fun _ m => Undisturbed p m) s₁ s₂ → s₂.reapers p = some ⟨[], none⟩ →
      ∀ d ∈ s₂.domains, d.owner ≠ some i := by
  refine ⟨fun now p s' h d hd hgone i row howner hrow => ?_,
    fun i hsettled now p s₁ s₂ hlist hleads hdone d hd =>
      combed_through (hsettled.quiet hreach) hlist hleads hdone hd⟩
  have howned := owned hreach
  cases (repaired h).2 with
  | destroys hp =>
    rename_i pending doomed
    obtain ⟨j, row', hname, -, hrow', hstate⟩ := (howned.reapers p _ hp).doomed doomed rfl
    -- it goes by its name, and its name is its System's
    have hsame : d.name = doomed.name := by
      by_contra hne
      exact hgone (mem_filter.mpr ⟨hd, by simpa using hne⟩)
    rcases howned.domains d hd with hnone | ⟨k, -, hname', howner', -⟩
    · cases hnone.symm.trans howner
    · rw [howner', some.injEq] at howner
      subst howner
      have hjk : k = j := DomainName.system.inj (hname'.symm.trans (hsame.trans hname))
      subst hjk
      rw [hrow, some.injEq] at hrow'
      rw [hrow', hstate]

def onlyFive : Move → Bool
  | .work _ w _ => w = 5
  | _ => true

theorem Plane.after_idle {ms : List Move} (h : (plane cfg).runsBy (fun _ m => onlyFive m) fresh ms = true)
    (hfive : (after cfg ms).workers 5 = .idle) (w : WorkerId) : (after cfg ms).workers w = .idle := by
  by_cases hw : w = 5
  · rw [hw, hfive]
  · refine (Machine.leads_runTo h).always (I := fun s : Plane => s.workers w = .idle) ?_ rfl
    intro s m s' hm hidle hs
    rcases worker_step hs w with hsame | ⟨now, deed, rfl, -⟩
    · exact hsame.trans hidle
    · exact absurd (of_decide_eq_true hm) hw

/-- System 2 is torn down, but its domain is still there: its worker has died. -/
def leaky : List Move :=
  provisioned ++ [.tool 0 (.teardown 2 4)] ++ (takesJob ++ [Deed.crashes]).map (.work 0 5) ++ [.tool 0 (.cancelJob 4)]

def reaps (m : Move) : Bool :=
  match m with
  | .repair _ _ .checks => true
  | .repair _ _ (.destroys true) => true
  | _ => false

theorem undisturbed_of_reaps {p : Nat} (m : Move) (h : reaps m = true) : Undisturbed p m := by
  intro now
  refine ⟨?_, ?_, ?_⟩ <;> rintro rfl <;> cases h

theorem leaky_settled : (after {} leaky).Settled 2 := by
  refine ⟨?_, fun w job stage hw => ?_, fun job hjob _ => ?_⟩
  · obtain ⟨row, hrow, hstate⟩ := map_eq_some_iff.mp
      (show ((after {} leaky).db.systems.get 2).map (·.state) = some .tornDown by decide +kernel)
    exact ⟨row, hrow, hstate⟩
  · rw [after_idle (by decide +kernel) rfl w] at hw
    cases hw
  · have hall : (after {} leaky).db.jobs.rows.all (·.state.terminal) = true := by decide +kernel
    exact all_eq_true.mp hall job (mem_of_get hjob)

theorem leaked_domains_reaped_once : ∃ s₁ s₂ : Plane,
    (after {} leaky).step {} (.repair 0 0 .listOwned) = some s₁ ∧ s₁.domains.length = 1 ∧
    s₂.reapers 0 = some ⟨[], none⟩ ∧ ∀ d ∈ s₂.domains, d.owner ≠ some 2 := by
  obtain ⟨s₁, hlist, hone⟩ := map_eq_some_iff.mp
    (show ((after {} leaky).step {} (.repair 0 0 .listOwned)).map (fun s₁ => (s₁.domains.length,
      ((plane {}).runsBy (fun _ m => reaps m) s₁ [.repair 0 0 .checks, .repair 0 0 (.destroys true)]),
      ((plane {}).runTo s₁ [.repair 0 0 .checks, .repair 0 0 (.destroys true)]).reapers 0)) =
      some (1, true, some ⟨[], none⟩) by decide +kernel)
  simp only [Prod.mk.injEq] at hone
  obtain ⟨hone, hruns, hdone⟩ := hone
  have hleads := (Machine.leads_runTo hruns).mono (fun _ m hm => undisturbed_of_reaps (p := 0) m hm)
  exact ⟨s₁, _, hlist, hone, hdone, (leaked_domains_reaped (reach_after {} leaky)).2 2 leaky_settled
    0 0 s₁ _ hlist hleads hdone⟩
end Kdive.Jobs
