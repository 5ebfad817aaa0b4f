import Kdive.Platform.Actions

/-! # What a lock of the whole platform promises

`Rely H c c'` is all that the other sessions can have done between `c` and `c'` while a session held the keys `H`. Rows
are never deleted, a Run stays on its System and does not go back to `created`, a job keeps its key and its payload. The
System's lock keeps others from adding to it a Run that is not over, and a session that occupies a transport.
-/

namespace Kdive.Platform
open Lib (Time Table Store rel_of_locked)
open Jobs (JobRow StepRow)
open TableWrite

section
variable (H : List store.Key) (id : Uuid)

structure InvestigationRely (row row' : Option Investigation) : Prop where
  persists : ∀ i, row = some i → ∃ i', row' = some i' ∧ i'.project = i.project
  state : .inr (.investigation id) ∈ H → ∀ i i', row = some i → row' = some i' → i'.state = i.state
  locked : .inr (.investigationRow id) ∈ H → row' = row

structure Follows (r r' : Run) : Prop where
  project : r'.project = r.project
  system : r'.systemId = r.systemId
  profile : r'.buildProfile = r.buildProfile
  started : r.state ≠ .created → r'.state ≠ .created

structure RunRely (row row' : Option Run) : Prop where
  persists : ∀ r, row = some r → ∃ r', row' = some r' ∧ Follows r r'
  live : ∀ r', row' = some r' → r'.state.live = true → .inl (.system r'.systemId) ∈ H →
    ∃ r, row = some r ∧ r.state.live = true ∧ r.systemId = r'.systemId
  locked : .inr (.runRow id) ∈ H → row' = row

structure SameSession (x x' : DebugSession) : Prop where
  run : x'.runId = x.runId
  transport : x'.transport = x.transport
  project : x'.project = x.project

structure SessionRely (runs : Table Run) (row row' : Option DebugSession) : Prop where
  persists : ∀ x, row = some x → ∃ x', row' = some x' ∧ SameSession x x'
  /-- A session that occupies its transport has done so before, or is of a System whose lock is free. -/
  occupied : ∀ x', row' = some x' → x'.occupies = true →
    (∃ x, row = some x ∧ x.occupies = true ∧ SameSession x x') ∨
      ∃ r, runs.get x'.runId = some r ∧ .inl (.system r.systemId) ∉ H
  locked : .inr (.sessionRow id) ∈ H → row' = row

structure JobRely (row row' : Option JobRow) : Prop where
  persists : ∀ j, row = some j → ∃ j', row' = some j' ∧ j'.dedupKey = j.dedupKey ∧ j'.payload = j.payload
  keyed : ∀ j', row' = some j' → .inr (.dedupKey j'.dedupKey) ∈ H → row.isSome
  locked : .inr (.jobRow id) ∈ H → row' = row

structure LeaseRely (row row' : Option BuildHostLease) : Prop where
  host : ∀ l', row' = some l' → .inr (.buildHost l'.buildHostId) ∈ H →
    ∃ l, row = some l ∧ l.buildHostId = l'.buildHostId
  locked : .inr (.leaseRow id) ∈ H → row' = row
end

/-- The keys of the tables of `Kdive.Db` among those held. -/
def coreKeys (H : List store.Key) : List LockKey := H.filterMap Sum.getLeft?

theorem mem_coreKeys {H : List store.Key} {k : LockKey} : k ∈ coreKeys H ↔ .inl k ∈ H := by
  simp [coreKeys]

structure Rely (H : List store.Key) (c c' : store.Db) : Prop where
  core : Kdive.Rely noneFixed (coreKeys H) c.1 c'.1
  buildHosts : c'.2.buildHosts = c.2.buildHosts
  investigations : ∀ id, InvestigationRely H id (c.2.investigations.get id) (c'.2.investigations.get id)
  runs : ∀ id, RunRely H id (c.2.runs.get id) (c'.2.runs.get id)
  steps : ∀ id, .inr (.stepRow id) ∈ H → c'.2.steps.get id = c.2.steps.get id
  sessions : ∀ id, SessionRely H id c'.2.runs (c.2.sessions.get id) (c'.2.sessions.get id)
  jobs : ∀ id, JobRely H id (c.2.jobs.get id) (c'.2.jobs.get id)
  leases : ∀ id, LeaseRely H id (c.2.leases.get id) (c'.2.leases.get id)

variable {H H' : List store.Key} {id : Uuid}

theorem Follows.refl (r : Run) : Follows r r := ⟨rfl, rfl, rfl, fun h => h⟩

theorem Follows.trans {r r' r'' : Run} (h : Follows r r') (h' : Follows r' r'') : Follows r r'' :=
  ⟨h'.project.trans h.project, h'.system.trans h.system, h'.profile.trans h.profile,
    fun hs => h'.started (h.started hs)⟩

theorem SameSession.refl (x : DebugSession) : SameSession x x := ⟨rfl, rfl, rfl⟩

theorem SameSession.trans {x x' x'' : DebugSession} (h : SameSession x x') (h' : SameSession x' x'') :
    SameSession x x'' :=
  ⟨h'.run.trans h.run, h'.transport.trans h.transport, h'.project.trans h.project⟩

theorem InvestigationRely.refl (row : Option Investigation) : InvestigationRely H id row row := by
  refine ⟨fun i h => ⟨i, h, rfl⟩, ?_, fun _ => rfl⟩
  intro _ i i' h h'
  rw [Option.some.inj (h.symm.trans h')]

theorem InvestigationRely.trans {x y z : Option Investigation} (h : InvestigationRely H id x y)
    (h' : InvestigationRely H id y z) : InvestigationRely H id x z := by
  refine ⟨?_, ?_, fun hk => (h'.locked hk).trans (h.locked hk)⟩
  · intro i hi
    obtain ⟨j, hj, hp⟩ := h.persists i hi
    obtain ⟨k, hk, hp'⟩ := h'.persists j hj
    exact ⟨k, hk, hp'.trans hp⟩
  · intro hk i i'' hi hi''
    obtain ⟨j, hj, -⟩ := h.persists i hi
    exact (h'.state hk j i'' hj hi'').trans (h.state hk i j hi hj)

theorem RunRely.refl (row : Option Run) : RunRely H id row row :=
  ⟨fun r h => ⟨r, h, .refl r⟩, fun r' h hl _ => ⟨r', h, hl, rfl⟩, fun _ => rfl⟩

theorem RunRely.trans {x y z : Option Run} (h : RunRely H id x y) (h' : RunRely H id y z) : RunRely H id x z := by
  refine ⟨?_, ?_, fun hk => (h'.locked hk).trans (h.locked hk)⟩
  · intro r hr
    obtain ⟨r', hr', hf⟩ := h.persists r hr
    obtain ⟨r'', hr'', hf'⟩ := h'.persists r' hr'
    exact ⟨r'', hr'', hf.trans hf'⟩
  · intro r'' hr'' hlive hk
    obtain ⟨r', hr', hlive', hsys⟩ := h'.live r'' hr'' hlive hk
    obtain ⟨r, hr, hl, hsys'⟩ := h.live r' hr' hlive' (hsys ▸ hk)
    exact ⟨r, hr, hl, hsys'.trans hsys⟩

theorem JobRely.refl (row : Option JobRow) : JobRely H id row row :=
  ⟨fun j h => ⟨j, h, rfl, rfl⟩, fun j' h _ => by rw [h]; rfl, fun _ => rfl⟩

theorem JobRely.trans {x y z : Option JobRow} (h : JobRely H id x y) (h' : JobRely H id y z) : JobRely H id x z := by
  refine ⟨?_, ?_, fun hk => (h'.locked hk).trans (h.locked hk)⟩
  · intro j hj
    obtain ⟨j', hj', hk, hp⟩ := h.persists j hj
    obtain ⟨j'', hj'', hk', hp'⟩ := h'.persists j' hj'
    exact ⟨j'', hj'', hk'.trans hk, hp'.trans hp⟩
  · intro j'' hj'' hk
    obtain ⟨j', hj'⟩ := Option.isSome_iff_exists.mp (h'.keyed j'' hj'' hk)
    obtain ⟨k, hk', hkey, -⟩ := h'.persists j' hj'
    cases hj''.symm.trans hk'
    exact h.keyed j' hj' (hkey ▸ hk)

theorem LeaseRely.refl (row : Option BuildHostLease) : LeaseRely H id row row :=
  ⟨fun l' h _ => ⟨l', h, rfl⟩, fun _ => rfl⟩

theorem LeaseRely.trans {x y z : Option BuildHostLease} (h : LeaseRely H id x y)
    (h' : LeaseRely H id y z) : LeaseRely H id x z := by
  refine ⟨?_, fun hk => (h'.locked hk).trans (h.locked hk)⟩
  intro l'' hl'' hk
  obtain ⟨l', hl', hh⟩ := h'.host l'' hl'' hk
  obtain ⟨l, hl, hh'⟩ := h.host l' hl' (hh ▸ hk)
  exact ⟨l, hl, hh'.trans hh⟩

theorem SessionRely.refl (runs : Table Run) (row : Option DebugSession) : SessionRely H id runs row row :=
  ⟨fun x h => ⟨x, h, .refl x⟩, fun x' h ho => .inl ⟨x', h, ho, .refl x'⟩, fun _ => rfl⟩

theorem SessionRely.trans {runs runs' : Table Run} {x y z : Option DebugSession}
    (hruns : ∀ id r, runs.get id = some r → ∃ r', runs'.get id = some r' ∧ Follows r r')
    (h : SessionRely H id runs x y) (h' : SessionRely H id runs' y z) : SessionRely H id runs' x z := by
  refine ⟨?_, ?_, fun hk => (h'.locked hk).trans (h.locked hk)⟩
  · intro s hs
    obtain ⟨s', hs', hsame⟩ := h.persists s hs
    obtain ⟨s'', hs'', hsame'⟩ := h'.persists s' hs'
    exact ⟨s'', hs'', hsame.trans hsame'⟩
  · intro s'' hs'' hocc
    rcases h'.occupied s'' hs'' hocc with ⟨s', hs', hocc', hsame'⟩ | hfree
    · rcases h.occupied s' hs' hocc' with ⟨s, hs, ho, hsame⟩ | ⟨r, hr, hk⟩
      · exact .inl ⟨s, hs, ho, hsame.trans hsame'⟩
      · obtain ⟨r', hr', hf⟩ := hruns _ r hr
        refine .inr ⟨r', ?_, hf.system ▸ hk⟩
        rwa [hsame'.run]
    · exact .inr hfree

namespace Rely
variable {c c' c'' : store.Db}

theorem run_persists (h : Rely H c c') {runId : Uuid} {r : Run} (hr : c.2.runs.get runId = some r) :
    ∃ r', c'.2.runs.get runId = some r' ∧ Follows r r' :=
  (h.runs runId).persists r hr

theorem refl (H : List store.Key) (c : store.Db) : Rely H c c :=
  ⟨.refl _ _, rfl, fun _ => .refl _, fun _ => .refl _, fun _ _ => rfl, fun _ => .refl _ _,
    fun _ => .refl _, fun _ => .refl _⟩

theorem trans (h : Rely H c c') (h' : Rely H c' c'') : Rely H c c'' :=
  ⟨h.core.trans h'.core, h'.buildHosts.trans h.buildHosts, fun id => (h.investigations id).trans (h'.investigations id),
    fun id => (h.runs id).trans (h'.runs id), fun id hk => (h'.steps id hk).trans (h.steps id hk),
    fun id => (h.sessions id).trans (fun _ _ hr => h'.run_persists hr) (h'.sessions id),
    fun id => (h.jobs id).trans (h'.jobs id), fun id => (h.leases id).trans (h'.leases id)⟩

theorem mono (hH : H ⊆ H') (h : Rely H' c c') : Rely H c c' := by
  refine ⟨h.core.mono ?_, h.buildHosts, ?_, ?_, fun id hk => h.steps id (hH hk), ?_, ?_, ?_⟩
  · intro k hk
    exact mem_coreKeys.mpr (hH (mem_coreKeys.mp hk))
  · intro id
    have := h.investigations id
    exact ⟨this.persists, fun hk => this.state (hH hk), fun hk => this.locked (hH hk)⟩
  · intro id
    have := h.runs id
    exact ⟨this.persists, fun r' hr' hl hk => this.live r' hr' hl (hH hk),
      fun hk => this.locked (hH hk)⟩
  · intro id
    have := h.sessions id
    refine ⟨this.persists, fun x' hx' ho => ?_, fun hk => this.locked (hH hk)⟩
    rcases this.occupied x' hx' ho with hold | ⟨r, hr, hk⟩
    · exact .inl hold
    · exact .inr ⟨r, hr, fun hk' => hk (hH hk')⟩
  · intro id
    have := h.jobs id
    exact ⟨this.persists, fun j' hj' hk => this.keyed j' hj' (hH hk), fun hk => this.locked (hH hk)⟩
  · intro id
    have := h.leases id
    exact ⟨fun l' hl' hk => this.host l' hl' (hH hk), fun hk => this.locked (hH hk)⟩

theorem runOn_write {w : store.Write} {runId : Uuid} {r : Run} (hr : c.2.runs.get runId = some r) :
    ∃ r', (store.apply w c).2.runs.get runId = some r' ∧ r'.systemId = r.systemId := by
  cases w with
  | inl => exact ⟨r, hr, rfl⟩
  | inr w =>
    rw [w.get_runs, hr]
    cases w with
    | insertRun => exact ⟨r, if_neg (by simp), rfl⟩
    | patchRun id' p =>
      by_cases hid : id' = runId
      · exact ⟨p.apply r, if_pos hid, p.systemId_apply r⟩
      · exact ⟨r, if_neg hid, rfl⟩
    | _ => exact ⟨r, rfl, rfl⟩

/-- A write made under its keys leaves the two states as far apart as they were. -/
theorem write {w : store.Write} (hw : writeKeys w ⊆ H) (h : Rely H c c') :
    Rely H (store.apply w c) (store.apply w c') := by
  cases w with
  | inl =>
    refine ⟨h.core.write ?_, h.buildHosts, h.investigations, h.runs, h.steps, h.sessions, h.jobs, h.leases⟩
    intro k hk
    exact mem_coreKeys.mpr (hw (List.mem_map_of_mem hk))
  | inr w =>
    have hrow : ∀ k : TableKey, k ∈ w.keys → Sum.inr k ∈ H := fun k hk => hw (List.mem_map_of_mem hk)
    refine ⟨h.core, ?_, ?_, ?_, ?_, ?_, ?_, ?_⟩
    · show (w.apply c'.2).buildHosts = (w.apply c.2).buildHosts
      rw [w.buildHosts_apply, w.buildHosts_apply, h.buildHosts]
    · intro id
      rw [w.get_investigations, w.get_investigations]
      exact rel_of_locked .refl (fun hk => (h.investigations id).locked (hrow _ hk)) onInvestigation_of_notMem
        (h.investigations id)
    · intro id
      rw [w.get_runs, w.get_runs]
      exact rel_of_locked .refl (fun hk => (h.runs id).locked (hrow _ hk)) onRun_of_notMem (h.runs id)
    · intro id hkey
      rw [w.get_steps, w.get_steps, h.steps id hkey]
    · intro id
      rw [w.get_sessions, w.get_sessions]
      by_cases hk : .sessionRow id ∈ w.keys
      · rw [(h.sessions id).locked (hrow _ hk)]
        exact .refl _ _
      · rw [onSession_of_notMem hk, onSession_of_notMem hk]
        have := h.sessions id
        refine ⟨this.persists, fun x' hx' ho => ?_, this.locked⟩
        rcases this.occupied x' hx' ho with hold | ⟨r, hr, hk'⟩
        · exact .inl hold
        · obtain ⟨r', hr', hsys⟩ := runOn_write (w := .inr w) hr
          exact .inr ⟨r', hr', hsys ▸ hk'⟩
    · intro id
      rw [w.get_jobs, w.get_jobs]
      exact rel_of_locked .refl (fun hk => (h.jobs id).locked (hrow _ hk)) onJob_of_notMem (h.jobs id)
    · intro id
      rw [w.get_leases, w.get_leases]
      exact rel_of_locked .refl (fun hk => (h.leases id).locked (hrow _ hk)) onLease_of_notMem (h.leases id)

/-! ## What the guards read -/

variable {systemId : Uuid}

variable (h : Rely H c c')
include h

theorem ready (hk : .inl (.system systemId) ∈ H) (hready : Ready c systemId) : Ready c' systemId := by
  obtain ⟨s, hs, hstate⟩ := hready
  obtain ⟨s', hs', -⟩ := (h.core.systems systemId).persists s hs
  refine ⟨s', hs', ?_⟩
  rcases (h.core.systems systemId).state (mem_coreKeys.mpr hk) s s' hs hs' with hsame | ⟨hdef, -⟩
  · rw [hsame, hstate]
  · cases hstate.symm.trans hdef

theorem noLiveRun (hk : .inl (.system systemId) ∈ H) (hnone : NoLiveRun c systemId) : NoLiveRun c' systemId := by
  intro id r' hr' hsys
  cases hlive : r'.state.live with
  | false => rfl
  | true =>
    obtain ⟨r, hr, hl, hs⟩ := (h.runs id).live r' hr' hlive (hsys ▸ hk)
    rw [hnone id r hr (hs.trans hsys)] at hl
    cases hl

theorem runOn {runId systemId : Uuid} (hrun : RunOn c runId systemId) : RunOn c' runId systemId := by
  obtain ⟨r, hr, hsys⟩ := hrun
  obtain ⟨r', hr', hf⟩ := h.run_persists hr
  exact ⟨r', hr', hf.system.trans hsys⟩

theorem started {runId : Uuid} (hrun : Started c runId) : Started c' runId := by
  obtain ⟨r, hr, hs⟩ := hrun
  obtain ⟨r', hr', hf⟩ := h.run_persists hr
  exact ⟨r', hr', hf.started hs⟩

theorem investigationOf {investigationId : Uuid} {project : String}
    (hinv : InvestigationOf c investigationId project) : InvestigationOf c' investigationId project := by
  obtain ⟨i, hi, hp⟩ := hinv
  obtain ⟨i', hi', hsame⟩ := (h.investigations investigationId).persists i hi
  exact ⟨i', hi', hsame.trans hp⟩

theorem systemOf {project : String} (hsys : SystemOf c systemId project) : SystemOf c' systemId project := by
  obtain ⟨s, hs, hp⟩ := hsys
  obtain ⟨s', hs', -⟩ := (h.core.systems systemId).persists s hs
  exact ⟨s', hs', ((h.core.systems systemId).project s s' hs hs').trans hp⟩

theorem hasJob {key : Jobs.DedupKey} (hjob : HasJob c key) : HasJob c' key := by
  obtain ⟨id, j, hj, hk⟩ := hjob
  obtain ⟨j', hj', hk', -⟩ := (h.jobs id).persists j hj
  exact ⟨id, j', hj', hk'.trans hk⟩

theorem keyFree {key : Jobs.DedupKey} (hk : .inr (.dedupKey key) ∈ H) (hfree : ¬ HasJob c key) : ¬ HasJob c' key := by
  rintro ⟨id, j', hj', hkey⟩
  obtain ⟨j, hj⟩ := Option.isSome_iff_exists.mp ((h.jobs id).keyed j' hj' (hkey ▸ hk))
  obtain ⟨j'', hj'', hk', -⟩ := (h.jobs id).persists j hj
  cases hj'.symm.trans hj''
  exact hfree ⟨id, j, hj, hk'.symm.trans hkey⟩

theorem unoccupied {transport : DebugTransport}
    (hruns : ∀ id x, c.2.sessions.get id = some x → (c.2.runs.get x.runId).isSome)
    (hk : .inl (.system systemId) ∈ H) (hfree : Unoccupied c systemId transport) :
    Unoccupied c' systemId transport := by
  intro id x' r' hx' hr' hsys htrans
  cases hocc : x'.occupies with
  | false => rfl
  | true =>
    rcases (h.sessions id).occupied x' hx' hocc with ⟨x, hx, ho, hsame⟩ | ⟨r, hr, hfreeLock⟩
    · obtain ⟨r, hr⟩ := Option.isSome_iff_exists.mp (hruns id x hx)
      obtain ⟨r'', hr'', hf⟩ := h.run_persists hr
      rw [← hsame.run] at hr''
      cases hr'.symm.trans hr''
      rw [hfree id x r hx hr (hf.system.symm.trans hsys) (hsame.transport.symm.trans htrans)] at ho
      cases ho
    · cases hr'.symm.trans hr
      exact absurd (hsys ▸ hk) hfreeLock

theorem leasesOf_le {hostId : Uuid} (hk : .inr (.buildHost hostId) ∈ H) :
    BuildHosts.leasesOf c'.2 hostId ≤ BuildHosts.leasesOf c.2 hostId := by
  refine Table.countP_le_of_keys fun l' hl' hpred => ?_
  have hhost : l'.buildHostId = hostId := of_decide_eq_true hpred
  obtain ⟨l, hl, hsame⟩ := (h.leases _).host l' (Table.get_key_of_mem hl') (hhost ▸ hk)
  exact ⟨l, Table.mem_of_get hl, Table.key_eq_of_get hl, by simp [hsame, hhost]⟩
end Rely
end Kdive.Platform
