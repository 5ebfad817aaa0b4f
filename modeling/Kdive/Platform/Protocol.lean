import Kdive.Platform.Rely

/-! # The discipline of the whole platform

The steps, their guards and the locks put together. The invariant is what is needed to see that the steps are
legitimate: a session is of a Run that is there, and a job that carries a Run was enqueued for one that had left
`created`. The discipline of `Kdive.Spec.Protocol` is part of this one (`includes`).
-/

namespace Kdive.Platform
open Lib (Time Table Store Conn Protocol Includes)
open Jobs (JobRow StepRow)
open Act Option List DebugSession

structure Sound (c : store.Db) : Prop where
  core : WellFormed c.1
  sessions : ∀ id x, c.2.sessions.get id = some x → (c.2.runs.get x.runId).isSome
  jobs : ∀ id j, c.2.jobs.get id = some j → KeyFits j ∧ ∀ runId, j.payload.runId = some runId → Started c runId

theorem Sound.step {c c' : store.Db} (h : Sound c) (hcore : WellFormed c'.1)
    (hruns : ∀ id r, c.2.runs.get id = some r → ∃ r', c'.2.runs.get id = some r' ∧ Follows r r')
    (hsessions : ∀ id x, c'.2.sessions.get id = some x →
      (∃ x0, c.2.sessions.get id = some x0 ∧ x0.runId = x.runId) ∨ (c'.2.runs.get x.runId).isSome)
    (hjobs : ∀ id j, c'.2.jobs.get id = some j →
      (∃ j0, c.2.jobs.get id = some j0 ∧ j0.dedupKey = j.dedupKey ∧ j0.payload = j.payload) ∨
      (KeyFits j ∧ ∀ runId, j.payload.runId = some runId → Started c' runId)) : Sound c' := by
  refine ⟨hcore, ?_, ?_⟩
  · intro id x hx
    rcases hsessions id x hx with ⟨x0, hx0, hrun⟩ | hnew
    · obtain ⟨r, hr⟩ := isSome_iff_exists.mp (h.sessions id x0 hx0)
      obtain ⟨r', hr', -⟩ := hruns _ r hr
      rw [← hrun, hr']
      rfl
    · exact hnew
  · intro id j hj
    rcases hjobs id j hj with ⟨j0, hj0, hkey, hpay⟩ | hnew
    · obtain ⟨hfits, hrun⟩ := h.jobs id j0 hj0
      refine ⟨?_, ?_⟩
      · intro runId hk
        rw [← hpay]
        exact hfits runId (hkey.trans hk)
      · intro runId hp
        obtain ⟨r, hr, hs⟩ := hrun runId (hpay ▸ hp)
        obtain ⟨r', hr', hf⟩ := hruns _ r hr
        exact ⟨r', hr', hf.started hs⟩
    · exact hnew

/-! ## One step and the rows -/

section
variable {c : store.Db} {H : List store.Key} {id : Uuid}

variable {r : Run} {K : List LockKey}

theorem RunMoves.not_created {target : RunState} (h : RunMoves r target) : target ≠ .created := by
  rcases h with h | ⟨-, -, rfl⟩
  · generalize r.state = old at h
    cases old <;> cases target <;> simp_all [RunState.canTransition, RunState.successors]
  · simp

theorem RunMoves.live {target : RunState} (h : RunMoves r target)
    (hlive : target.live = true) : r.state.live = true := by
  rcases h with h | ⟨-, hc, -⟩
  · generalize r.state = old at h
    cases old <;> cases target <;>
      simp_all [RunState.canTransition, RunState.successors, RunState.live]
  · rw [hc]
    rfl

theorem runMoves_failed (h : r.state = .running) : RunMoves r .failed := by
  refine .inl ?_
  rw [h]
  rfl

theorem RunMoves.follows {p : RunPatch} (h : RunMoves r p.target) : Follows r (p.apply r) :=
  ⟨p.project_apply r, p.systemId_apply r, p.buildProfile_apply r, fun _ => by
    rw [p.state_apply]
    exact h.not_created⟩

theorem RunMoves.rely {p : RunPatch} (h : RunMoves r p.target) (hk : .inr (.runRow id) ∉ H) :
    RunRely H id (some r) (some (p.apply r)) := by
  refine ⟨?_, ?_, fun hk' => absurd hk' hk⟩
  · rintro _ ⟨⟩
    exact ⟨p.apply r, rfl, h.follows⟩
  · rintro _ ⟨⟩ hlive _
    rw [p.state_apply] at hlive
    exact ⟨r, rfl, h.live hlive, (p.systemId_apply r).symm⟩

theorem sessionRely_set {x : DebugSession} {s : DebugSessionState} {runs : Table Run}
    (hocc : x.occupies = true) (hk : .inr (.sessionRow id) ∉ H) :
    SessionRely H id runs (some x) (some { x with state := s }) := by
  refine ⟨?_, ?_, fun hk' => absurd hk' hk⟩
  · rintro _ ⟨⟩
    exact ⟨_, rfl, ⟨rfl, rfl, rfl⟩⟩
  · rintro _ ⟨⟩ _
    exact .inl ⟨x, rfl, hocc, ⟨rfl, rfl, rfl⟩⟩

theorem occupies_of_canTransition {x : DebugSession}
    (h : x.state.canTransition .detached = true) : x.occupies = true := by
  unfold occupies
  generalize x.state = s at h ⊢
  cases s <;> simp_all [DebugSessionState.canTransition, DebugSessionState.successors]

theorem systemRely_patch {s : System} {p : SystemPatch}
    (hstate : .system id ∈ K → (p.apply s).state = s.state ∨ (s.state = .defined ∧ (p.apply s).state = .provisioning))
    (hterm : (p.apply s).state.terminal = false → s.state.terminal = false)
    (hk : .systemRow id ∉ K) : SystemRely K id (some s) (some (p.apply s)) := by
  have hproj : (p.apply s).project = s.project := by cases p <;> rfl
  refine ⟨?_, ?_, ?_, ?_, fun hk' => absurd hk' hk⟩
  · rintro _ ⟨⟩
    exact ⟨_, rfl, by cases p <;> rfl⟩
  · rintro _ _ ⟨⟩ ⟨⟩
    exact hproj
  · rintro hsys _ _ ⟨⟩ ⟨⟩
    exact hstate hsys
  · rintro q _ _ ⟨⟩ hq ht
    exact ⟨s, rfl, hproj.symm.trans hq, hterm ht⟩

theorem SystemMove.state_patch (m : SystemMove) (s : System) : (m.patch.apply s).state = m.new := by
  cases m <;> rfl

theorem systemRely_move {s : System} {m : SystemMove} (hold : s.state = m.old)
    (hlock : m.locked = true → .system id ∉ K) (hk : .systemRow id ∉ K) :
    SystemRely K id (some s) (some (m.patch.apply s)) := by
  refine systemRely_patch ?_ ?_ hk
  · intro hsys
    rw [m.state_patch, hold]
    cases m with
    | provision => exact .inr ⟨rfl, rfl⟩
    | reprovision | ready | crash => exact absurd hsys (hlock rfl)
  · intro _
    rw [hold]
    cases m <;> rfl

section
variable {ρ : Type} [Lib.Keyed ρ Uuid] {t : Table ρ} {R : Uuid → Option ρ → Option ρ → Prop}

theorem rows_insert (hrefl : ∀ id row, R id row row) {r : ρ}
    (h : R (Lib.Keyed.key r) none (some r)) (id : Uuid) : R id (t.get id) ((t.insert r).get id) := by
  rw [Table.get_insert]
  split
  case isTrue hid => rw [hid.2, ← hid.1]; exact h
  case isFalse => exact hrefl _ _

theorem rows_modify {k : Uuid} {f : ρ → ρ} {hf : ∀ r, Lib.Keyed.key (f r) = Lib.Keyed.key r}
    (hrefl : ∀ id row, R id row row) (h : ∀ r, t.get k = some r → R k (some r) (some (f r)))
    (id : Uuid) : R id (t.get id) ((t.modify k f hf).get id) := by
  rw [Table.get_modify]
  split
  case isTrue hid =>
    subst hid
    cases hrow : t.get k with
    | none => exact hrefl _ _
    | some r => exact h r hrow
  case isFalse => exact hrefl _ _
end

theorem of_modified {ρ : Type} {k id : Uuid} {f : ρ → ρ} {row : Option ρ} {r : ρ}
    (h : (if k = id then row.map f else row) = some r) : ∃ r0, row = some r0 ∧ (r = r0 ∨ r = f r0) := by
  split at h
  case isTrue =>
    obtain ⟨r0, hr0, rfl⟩ := map_eq_some_iff.mp h
    exact ⟨r0, hr0, .inr rfl⟩
  case isFalse => exact ⟨r, h, .inl rfl⟩

theorem core_patchSystem {d : Db} {p : SystemPatch}
    (h : ∀ s, d.systems.get id = some s → SystemRely K id (some s) (some (p.apply s))) :
    Kdive.Rely noneFixed K d ((Write.patchSystem id p).apply d) := by
  have hrefl : Kdive.Rely noneFixed K d d := .refl K d
  have hsys : ∀ id', SystemRely K id' (d.systems.get id')
      ((d.systems.modify id p.apply (fun s => by cases p <;> rfl)).get id') :=
    rows_modify SystemRely.refl h
  exact ⟨rfl, rfl, hrefl.resources, hrefl.allocations, hsys, hrefl.budgets, hrefl.keys, hrefl.ledger⟩

theorem wellFormed_patchSystem {d : Db} {p : SystemPatch} (h : WellFormed d) :
    WellFormed ((Write.patchSystem id p).apply d) := by
  refine h.step (fun _ hb => hb) (append_nil _).symm
    (fun _ he => absurd he not_mem_nil) (fun _ => .inl rfl) ?_
  intro id' s' hs'
  refine .inl ?_
  rw [(Write.patchSystem id p).get_systems] at hs'
  by_cases hid : id = id'
  · obtain ⟨s, hs, rfl⟩ := map_eq_some_iff.mp ((if_pos hid).symm.trans hs')
    exact ⟨s, hs, by cases p <;> rfl⟩
  · exact ⟨s', (if_neg hid).symm.trans hs', rfl⟩

theorem wellFormed_audit {d : Db} {r : AuditRow} (h : WellFormed d) : WellFormed ((Write.insertAudit r).apply d) :=
  h.step (fun _ hb => hb) (append_nil _).symm (fun _ he => absurd he not_mem_nil)
    (fun _ => .inl rfl) fun _ s hs => .inl ⟨s, hs, rfl⟩
end

/-! ## Guards survive -/

variable {H : List store.Key} {c c' : store.Db}

theorem Act.guard_stable {a : Act} (hn : a.need ⊆ H) (h : Rely H c c') (hi : Sound c) (hi' : Sound c')
    (hg : a.guard c) : a.guard c' := by
  cases a with
  | core =>
    refine Action.guard_stable ?_ h.core hi.core hi'.core hg
    intro k hk
    exact mem_coreKeys.mpr (hn (mem_map_of_mem hk))
  | audit | profile | touch | dropLease => trivial
  | system id m =>
    obtain ⟨⟨s, hs, hold⟩, hnone⟩ := hg
    have hrow : .inl (.systemRow id) ∈ H := hn (mem_append_right _ mem_cons_self)
    refine ⟨⟨s, ?_, hold⟩, ?_⟩
    · rw [(h.core.systems id).locked (mem_coreKeys.mpr hrow), hs]
    · intro hnew
      refine h.noLiveRun (hn ?_) (hnone hnew)
      cases m <;> simp_all [need, SystemMove.locked, SystemMove.new]
  | newInvestigation i =>
    show c'.2.investigations.get i.id = none
    rwa [(h.investigations i.id).locked (hn (by simp))]
  | investigation id =>
    obtain ⟨⟨i, hget, hold⟩, hedge⟩ := hg
    refine ⟨⟨i, ?_, hold⟩, hedge⟩
    rw [(h.investigations id).locked (hn (by simp)), hget]
  | newRun r =>
    have hsys : .inl (.system r.systemId) ∈ H := hn (by simp)
    refine ⟨?_, hg.state, h.ready hsys hg.ready, h.noLiveRun hsys hg.single,
      h.investigationOf hg.investigation, h.systemOf hg.system⟩
    rw [(h.runs r.id).locked (hn (by simp)), hg.fresh]
  | run id | repairRun id =>
    obtain ⟨r, hr, hrest⟩ := hg
    refine ⟨r, ?_, hrest⟩
    rw [(h.runs id).locked (hn (by simp)), hr]
  | newStep s =>
    show c'.2.steps.get s.runId = none
    rwa [h.steps s.runId (hn (by simp))]
  | newSession systemId x =>
    have hsys : .inl (.system systemId) ∈ H := hn (by simp)
    refine ⟨?_, hg.state, h.runOn hg.run, h.ready hsys hg.ready, h.unoccupied hi.sessions hsys hg.free⟩
    rw [(h.sessions x.id).locked (hn (by simp)), hg.fresh]
  | goLive systemId id =>
    obtain ⟨⟨x, hx, hs, hrun⟩, hready⟩ := hg
    refine ⟨⟨x, ?_, hs, h.runOn hrun⟩, h.ready (hn (by simp)) hready⟩
    rw [(h.sessions id).locked (hn (by simp)), hx]
  | detach id | repairSession id =>
    obtain ⟨x, hx, hrest⟩ := hg
    refine ⟨x, ?_, hrest⟩
    rw [(h.sessions id).locked (hn (by simp)), hx]
  | newJob j =>
    refine ⟨?_, h.keyFree (hn (by simp)) hg.free, hg.state,
      fun runId hp => h.started (hg.run runId hp), hg.fits⟩
    rw [(h.jobs j.id).locked (hn (by simp)), hg.fresh]
  | job id =>
    obtain ⟨j, hj, hrest⟩ := hg
    refine ⟨j, ?_, hrest⟩
    rw [(h.jobs id).locked (hn (by simp)), hj]
  | newLease l =>
    obtain ⟨host, hhost, hroom⟩ := hg.room
    refine ⟨?_, host, ?_, lt_of_le_of_lt (h.leasesOf_le (hn (by simp))) hroom⟩
    · rw [(h.leases l.runId).locked (hn (by simp)), hg.fresh]
    · rw [h.buildHosts, hhost]
  | backed => exact h.hasJob hg

/-! ## Every step keeps the invariant -/

theorem follows_refl (c : store.Db) (id : Uuid) (r : Run) (h : c.2.runs.get id = some r) :
    ∃ r', c.2.runs.get id = some r' ∧ Follows r r' :=
  ⟨r, h, .refl r⟩

theorem Sound.elsewhere {w : TableWrite} (h : Sound c) (hruns : (w.apply c.2).runs = c.2.runs)
    (hsessions : (w.apply c.2).sessions = c.2.sessions) (hjobs : (w.apply c.2).jobs = c.2.jobs) :
    Sound (c.1, w.apply c.2) := by
  refine h.step h.core ?_ ?_ ?_
  · intro id r hr
    rw [hruns]
    exact ⟨r, hr, .refl r⟩
  · intro id x hx
    rw [hsessions] at hx
    exact .inl ⟨x, hx, rfl⟩
  · intro id j hj
    rw [hjobs] at hj
    exact .inl ⟨j, hj, rfl, rfl⟩

theorem Sound.ofCore {d : Db} (h : Sound c) (hd : WellFormed d) : Sound (d, c.2) :=
  h.step hd (fun _ r hr => ⟨r, hr, .refl r⟩) (fun _ x hx => .inl ⟨x, hx, rfl⟩)
    fun _ j hj => .inl ⟨j, hj, rfl, rfl⟩

theorem Sound.patchRun {id : Uuid} {p : RunPatch} (h : Sound c)
    (hg : ∀ r, c.2.runs.get id = some r → RunMoves r p.target) : Sound (c.1, (TableWrite.patchRun id p).apply c.2) := by
  refine h.step h.core ?_ (fun _ x hx => .inl ⟨x, hx, rfl⟩) fun _ j hj => .inl ⟨j, hj, rfl, rfl⟩
  intro id'
  have hrow : RunRely [] id' (c.2.runs.get id') ((c.2.runs.modify id p.apply (fun r => by cases p <;> rfl)).get id') :=
    rows_modify (fun _ => .refl) (fun r hr => (hg r hr).rely not_mem_nil) id'
  exact hrow.persists

theorem Sound.setSession {id : Uuid} {s : DebugSessionState} (h : Sound c) :
    Sound (c.1, (TableWrite.setSession id s).apply c.2) := by
  refine h.step h.core (follows_refl c) ?_ fun _ j hj => .inl ⟨j, hj, rfl, rfl⟩
  intro id' x hx
  obtain ⟨x0, hx0, rfl | rfl⟩ :=
    of_modified (((TableWrite.setSession id s).get_sessions c.2 id').symm.trans hx)
  · exact .inl ⟨x, hx0, rfl⟩
  · exact .inl ⟨x0, hx0, rfl⟩

theorem Act.sound {a : Act} (h : Sound c) (hg : a.guard c) : Sound (a.on c) := by
  cases a with
  | core =>
    rw [on, writes, Lib.applyAll_inl]
    exact h.ofCore (WellFormed.act h.core hg)
  | audit => exact h.ofCore (wellFormed_audit h.core)
  | system | profile => exact h.ofCore (wellFormed_patchSystem h.core)
  | newInvestigation i => exact h.elsewhere (w := .insertInvestigation i) rfl rfl rfl
  | investigation id old new =>
    exact h.elsewhere (w := .patchInvestigation id (.state new)) rfl rfl rfl
  | touch id t => exact h.elsewhere (w := .patchInvestigation id (.lastRunAt t)) rfl rfl rfl
  | newRun =>
    refine h.step h.core ?_ (fun _ x hx => .inl ⟨x, hx, rfl⟩) fun _ j hj => .inl ⟨j, hj, rfl, rfl⟩
    intro id r' hr'
    exact ⟨r', Table.get_insert_of_get hr', .refl r'⟩
  | run =>
    obtain ⟨r, hr, -, hmove⟩ := hg
    exact h.patchRun fun r' hr' => some.inj (hr.symm.trans hr') ▸ hmove
  | repairRun =>
    obtain ⟨r, hr, hrunning⟩ := hg
    exact h.patchRun fun r' hr' => runMoves_failed (some.inj (hr.symm.trans hr') ▸ hrunning)
  | newStep s => exact h.elsewhere (w := .insertStep s) rfl rfl rfl
  | newSession =>
    refine h.step h.core (follows_refl c) ?_ fun _ j hj => .inl ⟨j, hj, rfl, rfl⟩
    intro id' x' hx'
    rcases Table.get_insert_cases hx' with h0 | rfl
    · exact .inl ⟨x', h0, rfl⟩
    · obtain ⟨r, hr, -⟩ := hg.run
      exact .inr (isSome_of_eq_some hr)
  | goLive | detach | repairSession => exact h.setSession
  | newJob =>
    refine h.step h.core (follows_refl c) (fun _ x hx => .inl ⟨x, hx, rfl⟩) ?_
    intro id' j' hj'
    rcases Table.get_insert_cases hj' with h0 | rfl
    · exact .inl ⟨j', h0, rfl, rfl⟩
    · exact .inr ⟨hg.fits, hg.run⟩
  | job id p =>
    refine h.step h.core (follows_refl c) (fun _ x hx => .inl ⟨x, hx, rfl⟩) ?_
    intro id' j hj
    obtain ⟨j0, hj0, rfl | rfl⟩ :=
      of_modified (((TableWrite.patchJob id p).get_jobs c.2 id').symm.trans hj)
    · exact .inl ⟨j, hj0, rfl, rfl⟩
    · exact .inl ⟨j0, hj0, (p.dedupKey_apply j0).symm, (p.payload_apply j0).symm⟩
  | newLease l => exact h.elsewhere (w := .insertLease l) rfl rfl rfl
  | dropLease runId => exact h.elsewhere (w := .deleteLease runId) rfl rfl rfl
  | backed => exact h

/-! ## A step is one of the things the others may do -/

namespace Rely
theorem ofCore {d : Db} (h : Kdive.Rely noneFixed (coreKeys H) c.1 d) : Rely H c (d, c.2) :=
  ⟨h, rfl, fun _ => .refl _, fun _ => .refl _, fun _ _ => rfl, fun _ => .refl _ _, fun _ => .refl _,
    fun _ => .refl _⟩

theorem ofInvestigations {t : Table Investigation}
    (h : ∀ id, InvestigationRely H id (c.2.investigations.get id) (t.get id)) :
    Rely H c (c.1, { c.2 with investigations := t }) :=
  ⟨.refl _ _, rfl, h, fun _ => .refl _, fun _ _ => rfl, fun _ => .refl _ _, fun _ => .refl _,
    fun _ => .refl _⟩

theorem ofRuns {t : Table Run} (h : ∀ id, RunRely H id (c.2.runs.get id) (t.get id)) :
    Rely H c (c.1, { c.2 with runs := t }) :=
  ⟨.refl _ _, rfl, fun _ => .refl _, h, fun _ _ => rfl, fun _ => .refl _ _, fun _ => .refl _,
    fun _ => .refl _⟩

theorem ofSessions {t : Table DebugSession} (h : ∀ id, SessionRely H id c.2.runs (c.2.sessions.get id) (t.get id)) :
    Rely H c (c.1, { c.2 with sessions := t }) :=
  ⟨.refl _ _, rfl, fun _ => .refl _, fun _ => .refl _, fun _ _ => rfl, h, fun _ => .refl _,
    fun _ => .refl _⟩

theorem ofJobs {t : Table JobRow} (h : ∀ id, JobRely H id (c.2.jobs.get id) (t.get id)) :
    Rely H c (c.1, { c.2 with jobs := t }) :=
  ⟨.refl _ _, rfl, fun _ => .refl _, fun _ => .refl _, fun _ _ => rfl, fun _ => .refl _ _, h,
    fun _ => .refl _⟩

theorem ofLeases {t : Table BuildHostLease} (h : ∀ id, LeaseRely H id (c.2.leases.get id) (t.get id)) :
    Rely H c (c.1, { c.2 with leases := t }) :=
  ⟨.refl _ _, rfl, fun _ => .refl _, fun _ => .refl _, fun _ _ => rfl, fun _ => .refl _ _,
    fun _ => .refl _, h⟩

theorem act {a : Act} (hg : a.guard c) (hH : ∀ k ∈ a.need, store.shared k = false → k ∉ H) : Rely H c (a.on c) := by
  cases a with
  | core =>
    rw [on, writes, Lib.applyAll_inl]
    refine ofCore (Kdive.Rely.act hg ?_)
    intro k hk hs hmem
    exact hH (.inl k) (mem_map_of_mem hk) hs (mem_coreKeys.mp hmem)
  | audit =>
    have hrefl : Kdive.Rely noneFixed (coreKeys H) c.1 c.1 := .refl _ _
    exact ofCore ⟨rfl, rfl, hrefl.resources, hrefl.allocations, hrefl.systems, hrefl.budgets, hrefl.keys, hrefl.ledger⟩
  | system id =>
    obtain ⟨⟨s, hs, hold⟩, -⟩ := hg
    refine ofCore (core_patchSystem fun s' hs' => systemRely_move ?_ ?_ ?_)
    · exact some.inj (hs.symm.trans hs') ▸ hold
    · intro hlocked hmem
      exact hH (.inl (.system id)) (by simp [hlocked]) rfl (mem_coreKeys.mp hmem)
    · intro hmem
      exact hH (.inl (.systemRow id)) (by simp) rfl (mem_coreKeys.mp hmem)
  | profile id =>
    refine ofCore (core_patchSystem fun s' _ => systemRely_patch (fun _ => .inl rfl) (fun h => h) ?_)
    intro hmem
    exact hH (.inl (.systemRow id)) (by simp) rfl (mem_coreKeys.mp hmem)
  | newInvestigation i =>
    refine ofInvestigations (rows_insert (fun _ => .refl) ⟨(by rintro _ ⟨⟩), (by rintro _ _ _ ⟨⟩), fun h => ?_⟩)
    exact absurd h (hH (.inr (.investigationRow i.id)) (by simp) rfl)
  | investigation id =>
    refine ofInvestigations (rows_modify (fun _ => .refl) fun i _ => ⟨?_, fun h => ?_, fun h => ?_⟩)
    · rintro _ ⟨⟩
      exact ⟨_, rfl, rfl⟩
    · exact absurd h (hH (.inr (.investigation id)) (by simp) rfl)
    · exact absurd h (hH (.inr (.investigationRow id)) (by simp) rfl)
  | touch id =>
    refine ofInvestigations (rows_modify (fun _ => .refl) fun i _ => ⟨?_, ?_, fun h => ?_⟩)
    · rintro _ ⟨⟩
      exact ⟨_, rfl, rfl⟩
    · rintro _ _ _ ⟨⟩ ⟨⟩
      rfl
    · exact absurd h (hH (.inr (.investigationRow id)) (by simp) rfl)
  | newRun r =>
    refine ofRuns (rows_insert (fun _ => .refl) ⟨(by rintro _ ⟨⟩), ?_, fun h => ?_⟩)
    · rintro _ ⟨⟩ _ h
      exact absurd h (hH (.inl (.system r.systemId)) (by simp) rfl)
    · exact absurd h (hH (.inr (.runRow r.id)) (by simp) rfl)
  | run id =>
    obtain ⟨r, hr, -, hmove⟩ := hg
    refine ofRuns (rows_modify (fun _ => .refl) fun r' hr' => RunMoves.rely ?_ ?_)
    · exact some.inj (hr.symm.trans hr') ▸ hmove
    · exact hH (.inr (.runRow id)) (by simp) rfl
  | repairRun id =>
    obtain ⟨r, hr, hrunning⟩ := hg
    refine ofRuns (rows_modify (fun _ => .refl) fun r' hr' => RunMoves.rely ?_ ?_)
    · exact runMoves_failed (some.inj (hr.symm.trans hr') ▸ hrunning)
    · exact hH (.inr (.runRow id)) (by simp) rfl
  | newStep s =>
    refine ⟨.refl _ _, rfl, fun _ => .refl _, fun _ => .refl _, ?_, fun _ => .refl _ _, fun _ => .refl _,
      fun _ => .refl _⟩
    intro id hk
    refine rows_insert (R := fun id row row' => .inr (.stepRow id) ∈ H → row' = row)
      (fun _ _ _ => rfl) (fun h => ?_) id hk
    exact absurd h (hH (.inr (.stepRow s.runId)) (by simp) rfl)
  | newSession systemId x =>
    refine ofSessions (rows_insert (fun _ => .refl _) ⟨(by rintro _ ⟨⟩), ?_, fun h => ?_⟩)
    · rintro _ ⟨⟩ _
      obtain ⟨r, hr, hsys⟩ := hg.run
      exact .inr ⟨r, hr, hsys ▸ hH (.inl (.system systemId)) (by simp) rfl⟩
    · exact absurd h (hH (.inr (.sessionRow x.id)) (by simp) rfl)
  | goLive systemId id =>
    obtain ⟨⟨x, hx, hstate, -⟩, -⟩ := hg
    refine ofSessions (rows_modify (fun _ => .refl _) fun x' hx' => sessionRely_set ?_ ?_)
    · rw [← some.inj (hx.symm.trans hx'), occupies, hstate]
      rfl
    · exact hH (.inr (.sessionRow id)) (by simp) rfl
  | detach id =>
    obtain ⟨x, hx, rfl, hedge⟩ := hg
    refine ofSessions (rows_modify (fun _ => .refl _) fun x' hx' => sessionRely_set ?_ ?_)
    · exact some.inj (hx.symm.trans hx') ▸ occupies_of_canTransition hedge
    · exact hH (.inr (.sessionRow id)) (by simp) rfl
  | repairSession id =>
    obtain ⟨x, hx, hstate⟩ := hg
    refine ofSessions (rows_modify (fun _ => .refl _) fun x' hx' => sessionRely_set ?_ ?_)
    · rw [← some.inj (hx.symm.trans hx'), occupies, hstate]
      rfl
    · exact hH (.inr (.sessionRow id)) (by simp) rfl
  | newJob j =>
    refine ofJobs (rows_insert (fun _ => .refl) ⟨fun _ h => (by cases h), ?_, fun h => ?_⟩)
    · intro j' hj' h
      obtain rfl := some.inj hj'
      exact absurd h (hH (.inr (.dedupKey j.dedupKey)) (by simp) rfl)
    · exact absurd h (hH (.inr (.jobRow j.id)) (by simp) rfl)
  | job id p =>
    refine ofJobs (rows_modify (fun _ => .refl) fun j _ => ⟨?_, fun _ _ _ => rfl, fun h => ?_⟩)
    · rintro _ ⟨⟩
      exact ⟨_, rfl, p.dedupKey_apply j, p.payload_apply j⟩
    · exact absurd h (hH (.inr (.jobRow id)) (by simp) rfl)
  | newLease l =>
    refine ofLeases (rows_insert (fun _ => .refl) ⟨?_, fun h => ?_⟩)
    · rintro _ ⟨⟩ h
      exact absurd h (hH (.inr (.buildHost l.buildHostId)) (by simp) rfl)
    · exact absurd h (hH (.inr (.leaseRow l.runId)) (by simp) rfl)
  | dropLease runId =>
    refine ofLeases fun id => ?_
    rw [Table.get_erase]
    split
    case isTrue hid =>
      refine ⟨(by rintro _ ⟨⟩), fun h => ?_⟩
      exact absurd h (hH (.inr (.leaseRow id)) (by simp [hid]) rfl)
    case isFalse => exact .refl _
  | backed => exact .refl _ _
end Rely

/-! ## The protocol -/

theorem Act.keys_subset_need (a : Act) (w : store.Write) (hw : w ∈ a.writes) : writeKeys w ⊆ a.need := by
  cases a with
  | core a =>
    obtain ⟨w', hw', rfl⟩ := mem_map.mp hw
    exact map_subset _ (a.keys_subset_need w' hw')
  | _ => simp_all [writes, write, need, writeKeys, Write.keys, TableWrite.keys]

abbrev protocol : Protocol store where
  Act := Act
  writes := writes
  guard := guard
  need := need
  batch := IsBatch
  inv := Sound
  rely := Rely
  wkeys := writeKeys
  stmtOk := fun _ _ _ _ => True
  batch_nil := .core [] (.inl (Nat.zero_le 1)) rfl
  stmtOk_nil := fun _ _ => trivial
  rely_refl := .refl
  rely_trans := .trans
  rely_mono := .mono
  rely_write := .write
  wkeys_need := fun {a w} hw => a.keys_subset_need w hw
  guard_stable := guard_stable
  inv_act := sound
  rely_act := fun _ hg hH => .act hg hH

/-- The discipline of the tables of `Kdive.Db` is part of it. -/
theorem includes : Includes (Kdive.protocol noneFixed) protocol where
  inv := Sound.core
  rely := fun {K d d'} h => by
    have hK : coreKeys (K.map .inl) = K := by simp [coreKeys, filterMap_map, Function.comp_def]
    exact hK ▸ h.core
  wkeys := fun _ => rfl
  stmtOk := fun _ => trivial
  commits := fun {K ws d} h => by
    obtain ⟨as, hb, rfl, hneed, hpath⟩ := h
    refine ⟨as.map .core, .core as hb rfl, ?_, ?_, ?_⟩
    · rw [map_flatMap, flatMap_map]
      rfl
    · intro a ha
      obtain ⟨b, hb, rfl⟩ := mem_map.mp ha
      exact map_subset _ (hneed b hb)
    · clear hb hneed
      induction as generalizing d with
      | nil => trivial
      | cons a as ih =>
        refine ⟨hpath.1, ?_⟩
        rw [Protocol.eff, show protocol.writes (.core a) = a.writes.map .inl from rfl, Lib.applyAll_inl]
        exact ih hpath.2
end Kdive.Platform
