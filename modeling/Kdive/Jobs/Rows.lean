import Kdive.Jobs.Effects

/-! # What a move does to a row

For each table, which moves change a row of it, and how: `row_step` and `row_new` for jobs,
`systems_step` for Systems, `runs_step` for Runs and their build steps. Every invariant of the plane is
derived from these.
-/

namespace Kdive.Jobs
open Lib Option Table Queue Kdive.Jobs.Db RunState

inductive RowChange (cfg : Config) (s : Plane) (m : Move) (job : JobRow) : JobRow → Prop where
  | same (hm : ∀ now w locked, m = .work now w (.dequeue locked) →
      pick s.db.jobs now locked ≠ some job) : RowChange cfg s m job job
  | claimed {now : Time} {w : WorkerId} {locked : Uuid → Bool} (hm : m = .work now w (.dequeue locked))
      (hw : s.workers w = .idle) (hpick : pick s.db.jobs now locked = some job) :
      RowChange cfg s m job (claim w now cfg.lease job)
  | beaten {now : Time} {w : WorkerId} {held : JobRow} (hm : m = .work now w .heartbeat)
      (hw : (s.workers w).job = some held) (hid : held.id = job.id)
      (hfence : fenced w job = true) :
      RowChange cfg s m job { job with heartbeatAt := some now, leaseExpiresAt := some (now + cfg.lease) }
  | completed {now : Time} {w : WorkerId} {held : JobRow} {ref : Option String}
      (hm : m = .work now w .finishes) (hw : s.workers w = .returned held (.ok ref))
      (hid : held.id = job.id) (hfence : fenced w job = true) :
      RowChange cfg s m job { job with state := .succeeded, resultRef := ref }
  | deadLettered {now : Time} {w w' : WorkerId} {deed : Deed} {held : JobRow}
      {category : ErrorCategory} (hm : m = .work now w deed) (hdeed : deed = .finishes ∨ deed = .dispatch)
      (hw : (s.workers w).job = some held) (hid : held.id = job.id) (hheld : held.workerId = some w')
      (hfence : fenced w' job = true)
      (hwhy : s.workers w = .returned held (.error category) ∨ cfg.registered held.payload.kind = false) :
      RowChange cfg s m job (deadLettered category job)
  | requeued {now : Time} {w w' : WorkerId} {held : JobRow} (hm : m = .work now w .finishes)
      (hw : (s.workers w).job = some held) (hid : held.id = job.id) (hheld : held.workerId = some w')
      (hleft : held.attempt < held.maxAttempts) (hfence : fenced w' job = true) :
      RowChange cfg s m job (requeued job)
  | canceled {now : Time} (hm : m = .tool now (.cancelJob job.id))
      (hstate : job.state.canTransition .canceled = true) :
      RowChange cfg s m job { job with state := .canceled }
  | abandoned {now : Time} {pass : Nat} {rest : List Uuid} (hm : m = .repair now pass .abandons)
      (hp : s.sweeps pass = job.id :: rest) (hstate : job.state = .running) :
      RowChange cfg s m job (deadLettered .leaseExpired job)

variable {cfg : Config} {s s' : Plane} {m : Move} {id : Uuid} {job : JobRow}

theorem get_update_cases {jobs : JobTable} {k : Uuid} {cond : JobRow → Bool} {set : JobRow → JobRow}
    {hset : ∀ job, (set job).id = job.id} (hjob : jobs.get id = some job) :
    (update jobs k cond set hset).1.get id = some job ∨
    (k = job.id ∧ cond job = true ∧ (update jobs k cond set hset).1.get id = some (set job)) := by
  have hid : job.id = id := key_eq_of_get hjob
  rw [get_update, hjob, map_some]
  by_cases h : k = id ∧ cond job = true
  · rw [if_pos h]
    exact .inr ⟨h.1.trans hid.symm, h.2, rfl⟩
  · rw [if_neg h]
    exact .inl rfl

theorem row_fail {held : JobRow} {category : ErrorCategory} {terminal : Bool}
    (hjob : s.db.jobs.get id = some job) : (fail s.db.jobs held category terminal).1.get id = some job ∨
    ∃ w', held.workerId = some w' ∧ held.id = job.id ∧ fenced w' job = true ∧
      ((fail s.db.jobs held category terminal).1.get id = some (deadLettered category job) ∨
        (terminal = false ∧ held.attempt < held.maxAttempts ∧
          (fail s.db.jobs held category terminal).1.get id = some (requeued job))) := by
  unfold fail
  cases hworker : held.workerId with
  | none => exact .inl hjob
  | some w' =>
    dsimp only
    split
    · rcases get_update_cases hjob with hsame | ⟨hid, hfence, hnew⟩
      · exact .inl hsame
      · exact .inr ⟨w', rfl, hid, hfence, .inl hnew⟩
    · rename_i hleft
      rw [not_or] at hleft
      rcases get_update_cases hjob with hsame | ⟨hid, hfence, hnew⟩
      · exact .inl hsame
      · exact .inr ⟨w', rfl, hid, hfence, .inr ⟨by simpa using hleft.1, by omega, hnew⟩⟩

section
variable (h : s.step cfg m = some s')
include h

/-- **A row goes from state to state of its own accord only in these ways.** -/
theorem row_step (hjob : s.db.jobs.get id = some job) :
    ∃ job', s'.db.jobs.get id = some job' ∧ RowChange cfg s m job job' := by
  have hid : job.id = id := key_eq_of_get hjob
  generalize hjobs : s'.db.jobs = jobs
  have hchange := jobs_step h
  rw [hjobs] at hchange
  cases hchange with
  | same hm => exact ⟨job, hjob, .same fun now w locked heq => absurd heq (hm now w locked)⟩
  | added hm =>
    exact ⟨job, get_insert_of_get hjob, .same fun now w locked heq => absurd heq (hm now w locked)⟩
  | dequeued hw hpick hw' =>
    rename_i now w locked claimed
    refine ⟨_, (get_dequeue id).trans (by rw [hjob, map_some]), ?_⟩
    rcases eq_or_ne claimed job with rfl | heq
    · rw [if_pos hpick]
      exact .claimed rfl hw hpick
    · have hne : pick s.db.jobs now locked ≠ some job := by
        rw [hpick]
        simpa using heq
      rw [if_neg hne]
      refine .same ?_
      rintro now' w' locked' hm
      cases hm
      exact hne
  | beaten hw =>
    rcases get_update_cases hjob with hsame | ⟨hk, hfence, hnew⟩
    · exact ⟨job, hsame, .same (by simp)⟩
    · exact ⟨_, hnew, .beaten rfl hw hk hfence⟩
  | completed hw =>
    rcases get_update_cases hjob with hsame | ⟨hk, hfence, hnew⟩
    · exact ⟨job, hsame, .same (by simp)⟩
    · exact ⟨_, hnew, .completed rfl hw hk hfence⟩
  | failed hw =>
    rename_i now w held category
    have hheld : (s.workers w).job = some held := by rw [hw]; rfl
    rcases row_fail hjob with hsame | ⟨w', hworker, hk, hfence, hnew | ⟨-, hleft, hnew⟩⟩
    · exact ⟨job, hsame, .same (by simp)⟩
    · exact ⟨_, hnew, .deadLettered rfl (.inl rfl) hheld hk hworker hfence (.inl hw)⟩
    · exact ⟨_, hnew, .requeued rfl hheld hk hworker hleft hfence⟩
  | unhandled hw hreg =>
    rename_i now w held
    have hheld : (s.workers w).job = some held := by rw [hw]; rfl
    rcases row_fail hjob with hsame | ⟨w', hworker, hk, hfence, hnew | ⟨hterminal, -⟩⟩
    · exact ⟨job, hsame, .same (by simp)⟩
    · exact ⟨_, hnew, .deadLettered rfl (.inr rfl) hheld hk hworker hfence (.inr hreg)⟩
    · cases hterminal
  | canceled =>
    rcases get_update_cases hjob with hsame | ⟨hk, hcan, hnew⟩
    · exact ⟨job, hsame, .same (by simp)⟩
    · exact ⟨_, hnew, .canceled (by rw [hk]) hcan⟩
  | abandoned hp =>
    rcases get_update_cases hjob with hsame | ⟨hk, hrunning, hnew⟩
    · exact ⟨job, hsame, .same (by simp)⟩
    · exact ⟨_, hnew, .abandoned rfl (hk ▸ hp) (by simpa using hrunning)⟩

theorem row_new (hnone : s.db.jobs.get id = none) {job' : JobRow} (hjob' : s'.db.jobs.get id = some job') :
    Admitted s s' m job' ∧ s'.db.jobs = s.db.jobs.insert job' ∧ ∀ now w locked, m ≠ .work now w (.dequeue locked) := by
  generalize hjobs : s'.db.jobs = jobs
  have hchange := jobs_step h
  rw [hjobs] at hchange hjob'
  have hupdate : ∀ {k : Uuid} {cond : JobRow → Bool} {set : JobRow → JobRow}
      {hset : ∀ job, (set job).id = job.id}, (update s.db.jobs k cond set hset).1.get id = none := by
    intro k cond set hset
    rw [get_update, hnone]
    rfl
  have hfail : ∀ {held : JobRow} {category : ErrorCategory} {terminal : Bool},
      (fail s.db.jobs held category terminal).1.get id = none := by
    intro held category terminal
    unfold fail
    repeat' split
    all_goals first | exact hnone | exact hupdate
  cases hchange with
  | same =>
    rw [hnone] at hjob'
    cases hjob'
  | added hm hfresh hnew =>
    rename_i added
    rcases eq_or_ne added.id id with rfl | hk
    · have hself : (s.db.jobs.insert added).get added.id = some added := get_insert_self hfresh
      rw [hself, some.injEq] at hjob'
      subst hjob'
      exact ⟨hnew, rfl, hm⟩
    · rw [get_insert_of_ne hk, hnone] at hjob'
      cases hjob'
  | dequeued =>
    rw [get_dequeue, hnone] at hjob'
    cases hjob'
  | beaten | completed | canceled | abandoned => exact absurd (hupdate.symm.trans hjob') (by simp)
  | failed | unhandled => exact absurd (hfail.symm.trans hjob') (by simp)

theorem row_cases {job' : JobRow} (hjob' : s'.db.jobs.get id = some job') :
    (∃ job, s.db.jobs.get id = some job ∧ RowChange cfg s m job job') ∨
    (s.db.jobs.get id = none ∧ s'.db.jobs = s.db.jobs.insert job' ∧ Admitted s s' m job') := by
  cases hjob : s.db.jobs.get id with
  | none =>
    obtain ⟨hnew, hjobs, -⟩ := row_new h hjob hjob'
    exact .inr ⟨rfl, hjobs, hnew⟩
  | some job =>
    obtain ⟨job1, hjob1, hchange⟩ := row_step h hjob
    cases hjob1.symm.trans hjob'
    exact .inl ⟨job, rfl, hchange⟩
end

theorem row_claimed {now : Time} {w : WorkerId} {locked : Uuid → Bool}
    (h : s.step cfg (.work now w (.dequeue locked)) = some s') (hpick : pick s.db.jobs now locked = some job) :
    s'.db.jobs.get job.id = some (claim w now cfg.lease job) := by
  obtain ⟨job', hjob', hchange⟩ := row_step h (of_pick hpick).1
  rw [hjob']
  cases hchange with
  | same hm => exact absurd hpick (hm now w locked rfl)
  | claimed hm =>
    cases hm
    rfl
  | beaten hm | completed hm | requeued hm | canceled hm | abandoned hm => cases hm
  | deadLettered hm hdeed =>
    cases hm
    rcases hdeed with hdeed | hdeed <;> cases hdeed

theorem row_abandoned {now : Time} {pass : Nat} {rest : List Uuid}
    (h : s.step cfg (.repair now pass .abandons) = some s') (hp : s.sweeps pass = job.id :: rest)
    (hjob : s.db.jobs.get job.id = some job) (hstate : job.state = .running) :
    s'.db.jobs.get job.id = some (deadLettered .leaseExpired job) := by
  simp only [Plane.step, Plane.repair, hp, ite_none_right_eq_some, some.injEq] at h
  rw [← h.2]
  rw [abandon_jobs]
  refine (get_update (·.state == .running) (deadLettered .leaseExpired) (fun _ => rfl) job.id).trans ?_
  rw [hjob, map_some, if_pos ⟨rfl, by simpa using hstate⟩]

namespace RowChange
variable {job' : JobRow}

variable (h : RowChange cfg s m job job')
include h

theorem payload : job'.payload = job.payload := by cases h <;> rfl

theorem maxAttempts : job'.maxAttempts = job.maxAttempts := by
  cases h <;> rfl

theorem dedupKey : job'.dedupKey = job.dedupKey := by cases h <;> rfl

theorem claim_or : (∃ now w locked, m = .work now w (.dequeue locked) ∧ s.workers w = .idle ∧
      pick s.db.jobs now locked = some job ∧ job' = claim w now cfg.lease job) ∨
    (job'.attempt = job.attempt ∧ (job'.state = .running → job.state = .running ∧ job'.workerId = job.workerId) ∧
      ∀ now w locked, m = .work now w (.dequeue locked) → pick s.db.jobs now locked ≠ some job) := by
  cases h with
  | same hm => exact .inr ⟨rfl, fun hstate => ⟨hstate, rfl⟩, hm⟩
  | claimed hm hw hpick => exact .inl ⟨_, _, _, hm, hw, hpick, rfl⟩
  | beaten hm => exact .inr ⟨rfl, fun hstate => ⟨hstate, rfl⟩, by simp [hm]⟩
  | completed hm | requeued hm | canceled hm | abandoned hm => exact .inr ⟨rfl, nofun, by simp [hm]⟩
  | deadLettered hm hdeed =>
    refine .inr ⟨rfl, nofun, ?_⟩
    rintro now w locked rfl
    cases hm
    rcases hdeed with hdeed | hdeed <;> cases hdeed

theorem owned {w : WorkerId} (hstate : job'.state = .running) (hworker : job'.workerId = some w) :
    (∃ now locked, m = .work now w (.dequeue locked) ∧ s.workers w = .idle ∧ pick s.db.jobs now locked = some job) ∨
    (job.state = .running ∧ job.workerId = some w ∧ job'.attempt = job.attempt) := by
  rcases h.claim_or with ⟨now, w', locked, hm, hidle, hpick, rfl⟩ | ⟨hattempt, hrunning, -⟩
  · cases hworker
    exact .inl ⟨now, locked, hm, hidle, hpick⟩
  · obtain ⟨hwas, hsame⟩ := hrunning hstate
    exact .inr ⟨hwas, hsame ▸ hworker, hattempt⟩

theorem terminal (hterminal : job.state.terminal = true) : job' = job := by
  have hfenced : ∀ {w}, fenced w job ≠ true := by
    intro w hfence
    simp only [fenced, Bool.and_eq_true, beq_iff_eq] at hfence
    rw [hfence.2] at hterminal
    cases hterminal
  cases h with
  | same => rfl
  | claimed hm hw hpick =>
    have hclaimable := (of_pick hpick).2
    cases hstate : job.state <;> simp_all [claimable, JobState.terminal]
  | beaten _ _ _ hfence | completed _ _ _ hfence | deadLettered _ _ _ _ _ hfence | requeued _ _ _ _ _ hfence =>
    exact absurd hfence hfenced
  | canceled =>
    cases hjob : job.state <;> simp_all [JobState.terminal, JobState.canTransition, JobState.successors]
  | abandoned hm hp hstate =>
    rw [hstate] at hterminal
    cases hterminal
end RowChange

/-! ## The row of a System -/

inductive SystemChange (s : Plane) (m : Move) (row : SystemRow) : SystemRow → Prop where
  | same : SystemChange s m row row
  | begun {now : Time} {jobId : Uuid} (hm : m = .tool now (.provisionDefined row.id jobId))
      (hstate : row.state = .defined) : SystemChange s m row { row with state := .provisioning }
  | reprovisioned {now : Time} {jobId : Uuid} {profile : String}
      (hm : m = .tool now (.reprovision row.id jobId profile)) (hstate : row.state = .ready) :
      SystemChange s m row { row with state := .reprovisioning, provisioningProfile := profile }
  | ready {now : Time} {w : WorkerId} {job : JobRow} {system : SystemRow} {name : DomainName}
      (hm : m = .work now w .commits) (hw : s.workers w = .handling job (.provisioned system name))
      (hid : system.id = row.id) (hstate : row.state = .provisioning ∨ row.state = .reprovisioning) :
      SystemChange s m row { row with state := .ready, domainName := some name }
  | crashed {now : Time} {w : WorkerId} {job : JobRow} (hm : m = .work now w .commits)
      (hw : s.workers w = .handling job .crashed) (hstate : row.state = .ready) :
      SystemChange s m row { row with state := .crashed }
  | tornDown {now : Time} {w : WorkerId} {resolved : Bool} {job : JobRow}
      (hm : m = .work now w (.starts resolved)) (hw : s.workers w = .handling job .starting)
      (hjob : job.payload = .teardown row.id)
      (hstate : row.state.ensureTransition .tornDown = .ok ()) :
      SystemChange s m row { row with state := .tornDown }

variable {row : SystemRow} {db db' : Db}

theorem get_setSystem {k : Uuid} {f : SystemRow → SystemRow} {hf : ∀ s, (f s).id = s.id}
    (hrow : db.systems.get id = some row) : (db.setSystem k f hf).systems.get id = some row ∨
    (k = row.id ∧ (db.setSystem k f hf).systems.get id = some (f row)) := by
  have hid : row.id = id := key_eq_of_get hrow
  show (db.systems.modify k f hf).get id = _ ∨ _ ∧ (db.systems.modify k f hf).get id = _
  rw [get_modify]
  by_cases hk : k = id
  · rw [if_pos hk, hrow]
    exact .inr ⟨hk.trans hid.symm, rfl⟩
  · rw [if_neg hk]
    exact .inl hrow

theorem tool_systems {now : Time} {call : Call} (h : Tooled s.db call db') (hrow : s.db.systems.get id = some row) :
    ∃ row', db'.systems.get id = some row' ∧ SystemChange s (.tool now call) row row' := by
  have hid : row.id = id := key_eq_of_get hrow
  cases h with
  | defined => exact ⟨row, get_insert_of_get hrow, .same⟩
  | provisioned hfresh hstate hname henq =>
    rw [henq.systems]
    exact ⟨row, get_insert_of_get hrow, .same⟩
  | enqueued henq => exact ⟨row, by rw [henq.systems, hrow], .same⟩
  | begun hrow' hstate henq =>
    rw [henq.systems]
    rcases get_setSystem hrow with hget | ⟨hk, hget⟩
    · exact ⟨row, hget, .same⟩
    · rw [hk, hid, hrow, some.injEq] at hrow'
      subst hrow'
      exact ⟨_, hget, .begun rfl hstate⟩
  | reprovisioned hrow' hstate henq =>
    rw [henq.systems]
    rcases get_setSystem hrow with hget | ⟨hk, hget⟩
    · exact ⟨row, hget, .same⟩
    · rw [hk, hid, hrow, some.injEq] at hrow'
      subst hrow'
      exact ⟨_, hget, .reprovisioned rfl hstate⟩
  | started hrun hsource hstate henq => exact ⟨row, by rw [henq.systems]; exact hrow, .same⟩
  | _ => exact ⟨row, hrow, .same⟩

theorem committed_systems {now : Time} {w : WorkerId} {deed : Deed} (h : Committed s w deed db')
    (hrow : s.db.systems.get id = some row) :
    ∃ row', db'.systems.get id = some row' ∧ SystemChange s (.work now w deed) row row' := by
  have hid : row.id = id := key_eq_of_get hrow
  cases h with
  | same => exact ⟨row, hrow, .same⟩
  | tornDown hw hjob hmark =>
    unfold markTornDown at hmark
    split at hmark
    · cases hmark
    · rename_i system hsystem
      split at hmark
      · cases hmark
        exact ⟨row, hrow, .same⟩
      · split at hmark
        · cases hmark
        · rename_i hgo
          cases hmark
          rcases get_setSystem hrow with hget | ⟨hk, hget⟩
          · exact ⟨row, hget, .same⟩
          · subst hk
            rw [hid, hrow, some.injEq] at hsystem
            subst hsystem
            exact ⟨_, hget, .tornDown rfl hw hjob hgo⟩
  | ready hw hexpected =>
    rename_i job system name expected
    unfold commitReady
    cases hfound : s.db.systems.get system.id with
    | none => exact ⟨row, hrow, .same⟩
    | some found =>
      dsimp only
      split
      · rename_i hstate
        rcases get_setSystem hrow with hget | ⟨hk, hget⟩
        · exact ⟨row, hget, .same⟩
        · rw [hk, hid, hrow, some.injEq] at hfound
          subst hfound
          exact ⟨_, hget, .ready rfl hw hk (hexpected.imp hstate.trans hstate.trans)⟩
      · exact ⟨row, hrow, .same⟩
  | crashed hw =>
    unfold finalizeForceCrash
    split
    · rename_i hready
      rcases get_setSystem hrow with hget | ⟨hk, hget⟩
      · exact ⟨row, hget, .same⟩
      · rw [hk, hid, hrow] at hready
        exact ⟨_, hget, .crashed rfl hw (by simpa using hready)⟩
    · exact ⟨row, hrow, .same⟩
  | buildFailed =>
    refine ⟨row, ?_, .same⟩
    unfold failBuild
    split <;> exact hrow
  | built =>
    refine ⟨row, ?_, .same⟩
    unfold finalizeBuild
    dsimp only
    split <;> exact hrow

theorem abandon_systems (db : Db) (jobId : Uuid) : (db.abandon jobId).systems = db.systems := by
  rcases abandon_cases db jobId with ⟨hdb, -⟩ | ⟨job, -, -, hdb⟩
  · rw [hdb]
  · rw [hdb, (compensate_jobs _ _).2.1]

/-- **Systems.** No row disappears, and each changes only so. -/
theorem systems_step (h : s.step cfg m = some s') (hrow : s.db.systems.get id = some row) :
    ∃ row', s'.db.systems.get id = some row' ∧ SystemChange s m row row' := by
  have hsame : s'.db.systems = s.db.systems → ∃ row', s'.db.systems.get id = some row' ∧ SystemChange s m row row' :=
    fun heq => ⟨row, by rw [heq, hrow], .same⟩
  cases m with
  | wait => exact hsame (some.inj h ▸ rfl)
  | tool =>
    obtain ⟨db, hdb, rfl⟩ := tool_of_step h
    exact tool_systems (tooled hdb) hrow
  | work =>
    rcases work_db (work_of_step h) with hcommitted | ⟨jobs, hdb, -⟩
    · exact committed_systems hcommitted hrow
    · exact hsame (by rw [hdb])
  | repair =>
    refine hsame ?_
    cases (repaired h).2 with
    | abandons => exact abandon_systems _ _
    | repairsOrphan hp hdb =>
      cases hdb with
      | same => rfl
      | enqueued hrow hstate henq => exact henq.systems
    | _ => rfl

theorem get_setSystem_none {k : Uuid} {f : SystemRow → SystemRow} {hf : ∀ s, (f s).id = s.id}
    (hnone : db.systems.get id = none) : (db.setSystem k f hf).systems.get id = none :=
  get_modify_none hf hnone

theorem committed_no_system {w : WorkerId} {deed : Deed} (h : Committed s w deed db')
    (hnone : s.db.systems.get id = none) : db'.systems.get id = none := by
  cases h with
  | same => exact hnone
  | tornDown hw hjob hmark =>
    unfold markTornDown at hmark
    repeat' split at hmark
    all_goals cases hmark
    · exact hnone
    · exact get_setSystem_none hnone
  | ready =>
    unfold commitReady
    split
    · exact hnone
    · dsimp only
      split
      · exact get_setSystem_none hnone
      · exact hnone
  | crashed =>
    unfold finalizeForceCrash
    split
    · exact get_setSystem_none hnone
    · exact hnone
  | buildFailed =>
    unfold failBuild
    split <;> exact hnone
  | built =>
    unfold finalizeBuild
    dsimp only
    split <;> exact hnone

variable {row' : SystemRow}

theorem tool_system_new {call : Call} (h : Tooled s.db call db') (hnone : s.db.systems.get id = none)
    (hrow' : db'.systems.get id = some row') : row'.domainName = none := by
  have hinsert : ∀ {row : SystemRow}, s.db.systems.get row.id = none → row.domainName = none →
      (s.db.systems.insert row).get id = some row' → row'.domainName = none := by
    intro row hid hname hget
    rcases eq_or_ne row.id id with rfl | hk
    · have hself : (s.db.systems.insert row).get row.id = some row := get_insert_self hid
      rwa [← some.inj (hself.symm.trans hget)]
    · rw [get_insert_of_ne hk, hnone] at hget
      cases hget
  have hsame : db'.systems.get id = none → row'.domainName = none := by
    intro hnone'
    rw [hnone'] at hrow'
    cases hrow'
  cases h with
  | defined hid hstate hname => exact hinsert hid hname hrow'
  | provisioned hid hstate hname henq =>
    rw [henq.systems] at hrow'
    exact hinsert hid hname hrow'
  | enqueued henq => exact hsame (by rw [henq.systems, hnone])
  | begun _ _ henq | reprovisioned _ _ henq => exact hsame (by rw [henq.systems]; exact get_setSystem_none hnone)
  | started hrun hsource hstate henq => exact hsame (by rw [henq.systems]; exact hnone)
  | _ => exact hsame hnone

theorem system_new (h : s.step cfg m = some s') (hnone : s.db.systems.get id = none)
    (hrow' : s'.db.systems.get id = some row') : row'.domainName = none ∧ ∃ now call, m = .tool now call := by
  have hsame : s'.db.systems.get id = none → row'.domainName = none ∧ ∃ now call, m = .tool now call := by
    intro hnone'
    rw [hnone'] at hrow'
    cases hrow'
  cases m with
  | wait =>
    cases h
    exact hsame hnone
  | tool now call =>
    obtain ⟨db, hdb, rfl⟩ := tool_of_step h
    exact ⟨tool_system_new (tooled hdb) hnone hrow', now, call, rfl⟩
  | work =>
    rcases work_db (work_of_step h) with hcommitted | ⟨jobs, hdb, -⟩
    · exact hsame (committed_no_system hcommitted hnone)
    · exact hsame (by rw [hdb]; exact hnone)
  | repair =>
    refine hsame ?_
    cases (repaired h).2 with
    | abandons => exact (congrArg (·.get id) (abandon_systems s.db _)).trans hnone
    | repairsOrphan hp hdb =>
      cases hdb with
      | same => exact hnone
      | enqueued hrow hstate henq => exact (congrArg (·.get id) henq.systems).trans hnone
    | _ => exact hnone

theorem SystemChange.allocationId (h : SystemChange s m row row') : row'.allocationId = row.allocationId := by
  cases h <;> rfl

theorem SystemChange.tornDown_stays (h : SystemChange s m row row') (hstate : row.state = .tornDown) : row' = row := by
  cases h with
  | same => rfl
  | begun _ h | reprovisioned _ h | crashed _ _ h | tornDown _ _ _ h => rw [hstate] at h; cases h
  | ready hm hw hid h => rcases h with h | h <;> rw [hstate] at h <;> cases h

/-! ## The row of a Run, and of its build step -/

inductive RunChange (s : Plane) (m : Move) (run : RunRow) (step : Option StepRow) :
    RunRow → Option StepRow → Prop where
  | same : RunChange s m run step run step
  | started (hsource : run.source = .server) (hstate : run.state = .created) :
      RunChange s m run step { run with state := .running } step
  | uploaded {keyBase buildId cmdline : String} {vmlinux : Bool} {initrd : Option String}
      (hsource : run.source = .external) (hstate : run.state = .created) :
      RunChange s m run step (externallyBuilt (uploaded keyBase vmlinux buildId) run)
        (some (step.getD (buildStep run.id
          (externalResult (uploaded keyBase vmlinux buildId) initrd cmdline))))
  | canceled (hstate : run.state.live = true) :
      RunChange s m run step { run with state := .canceled } step
  | failed {now : Time} {w : WorkerId} {job : JobRow} {category : ErrorCategory}
      (hm : m = .work now w .commits)
      (hw : s.workers w = .handling job (.buildFailed run.id category))
      (hstate : run.state = .running) :
      RunChange s m run step { run with state := .failed, failureCategory := some category } step
  | recorded {now : Time} {w : WorkerId} {job : JobRow} {result : BuildStepResult}
      (hm : m = .work now w .commits)
      (hw : s.workers w = .handling job (.finalizing run.id result)) (hstate : run.state ≠ .running) :
      RunChange s m run step run (some (step.getD (buildStep run.id result)))
  | built {now : Time} {w : WorkerId} {job : JobRow} {result : BuildStepResult}
      (hm : m = .work now w .commits)
      (hw : s.workers w = .handling job (.finalizing run.id result)) (hstate : run.state = .running) :
      RunChange s m run step (built result run) (some (step.getD (buildStep run.id result)))
  | abandoned {now : Time} {pass : Nat} {rest : List Uuid} {job : JobRow}
      (hm : m = .repair now pass .abandons) (hp : s.sweeps pass = job.id :: rest)
      (hjob : s.db.jobs.get job.id = some job) (hrunning : job.state = .running)
      (hrun : job.payload.runId = some run.id) (hstate : run.state.live = true) :
      RunChange s m run step { run with state := .failed, failureCategory := some .leaseExpired } step

variable {run : RunRow}

theorem get_setRun {k : Uuid} {f : RunRow → RunRow} {hf : ∀ r, (f r).id = r.id}
    (hrun : db.runs.get id = some run) : (k ≠ run.id ∧ (db.setRun k f hf).runs.get id = some run) ∨
    (k = run.id ∧ (db.setRun k f hf).runs.get id = some (f run)) := by
  have hid : run.id = id := key_eq_of_get hrun
  show _ ∧ (db.runs.modify k f hf).get id = _ ∨ _ ∧ (db.runs.modify k f hf).get id = _
  rw [get_modify, hid]
  by_cases hk : k = id
  · rw [if_pos hk, hrun]
    exact .inr ⟨hk, rfl⟩
  · rw [if_neg hk]
    exact .inl ⟨hk, hrun⟩

theorem get_recordBuild_self (k : Uuid) (result : BuildStepResult) :
    (db.recordBuild k result).steps.get k = some ((db.steps.get k).getD (buildStep k result)) := by
  cases hk : db.steps.get k with
  | none => exact get_insert_self hk
  | some => exact get_insert_of_get hk

theorem get_recordBuild_of_ne {k : Uuid} (result : BuildStepResult) (hk : k ≠ id) :
    (db.recordBuild k result).steps.get id = db.steps.get id :=
  get_insert_of_ne hk

variable {now : Time}

theorem tool_runs {call : Call} (h : Tooled s.db call db')
    (hrun : s.db.runs.get id = some run) : ∃ run', db'.runs.get id = some run' ∧
      RunChange s (.tool now call) run (s.db.steps.get id) run' (db'.steps.get id) := by
  have hid : run.id = id := key_eq_of_get hrun
  cases h with
  | provisioned _ _ _ henq | enqueued henq | begun _ _ henq | reprovisioned _ _ henq =>
    rw [henq.runs, henq.steps]
    exact ⟨run, hrun, .same⟩
  | runCreated => exact ⟨run, get_insert_of_get hrun, .same⟩
  | started hrun' hsource hstate henq =>
    rw [henq.runs, henq.steps]
    rcases get_setRun hrun with ⟨-, hget⟩ | ⟨hk, hget⟩
    · exact ⟨run, hget, .same⟩
    · rw [hk, hid, hrun, some.injEq] at hrun'
      subst hrun'
      exact ⟨_, hget, .started hsource hstate⟩
  | uploaded hrun' hsource hstate =>
    rename_i keyBase buildId cmdline vmlinux initrd done
    have hrun1 : (s.db.recordBuild done.id (externalResult (uploaded keyBase vmlinux buildId)
        initrd cmdline)).runs.get id = some run := hrun
    rcases get_setRun hrun1 with ⟨hk, hget⟩ | ⟨hk, hget⟩
    · refine ⟨run, hget, ?_⟩
      show RunChange s _ run _ run ((s.db.recordBuild done.id _).steps.get id)
      rw [get_recordBuild_of_ne _ (hid ▸ hk)]
      exact .same
    · rw [hk, hid, hrun, some.injEq] at hrun'
      subst hrun'
      refine ⟨_, hget, ?_⟩
      show RunChange s _ run _ _ ((s.db.recordBuild run.id _).steps.get id)
      rw [← hid, get_recordBuild_self]
      exact .uploaded hsource hstate
  | runCanceled hrun' =>
    rcases get_setRun hrun with ⟨-, hget⟩ | ⟨hk, hget⟩
    · exact ⟨run, hget, .same⟩
    · rw [hk, hid, hrun, some.injEq] at hrun'
      subst hrun'
      refine ⟨_, hget, .canceled ?_⟩
      cases hrunState : run.state <;> simp_all [canTransition, successors, live]
  | _ => exact ⟨run, hrun, .same⟩

theorem committed_runs {w : WorkerId} {deed : Deed} (h : Committed s w deed db')
    (hrun : s.db.runs.get id = some run) : ∃ run', db'.runs.get id = some run' ∧
      RunChange s (.work now w deed) run (s.db.steps.get id) run' (db'.steps.get id) := by
  have hid : run.id = id := key_eq_of_get hrun
  cases h with
  | same => exact ⟨run, hrun, .same⟩
  | tornDown hw hjob hmark =>
    obtain ⟨-, hruns, hsteps, -⟩ := Committed.markTornDown_jobs hmark
    rw [hruns, hsteps]
    exact ⟨run, hrun, .same⟩
  | ready =>
    unfold commitReady
    repeat' split
    all_goals exact ⟨run, hrun, .same⟩
  | crashed =>
    unfold finalizeForceCrash
    split <;> exact ⟨run, hrun, .same⟩
  | buildFailed hw =>
    unfold failBuild
    split
    · rename_i hrunning
      rcases get_setRun hrun with ⟨-, hget⟩ | ⟨hk, hget⟩
      · exact ⟨run, hget, .same⟩
      · subst hk
        rw [hid, hrun] at hrunning
        exact ⟨_, hget, .failed rfl hw (by simpa using hrunning)⟩
    · exact ⟨run, hrun, .same⟩
  | built hw =>
    rename_i job runId result
    unfold finalizeBuild
    dsimp only
    have hrun1 : (s.db.recordBuild runId result).runs.get id = some run := hrun
    rcases eq_or_ne runId run.id with rfl | hk
    · have hstep : (s.db.recordBuild run.id result).steps.get id =
          some ((s.db.steps.get id).getD (buildStep run.id result)) := by
        rw [← hid]
        exact get_recordBuild_self run.id result
      have hrun2 : (s.db.recordBuild run.id result).runs.get run.id = some run := by
        show s.db.runs.get run.id = some run
        rw [hid, hrun]
      by_cases hstate : run.state = .running
      · rw [if_pos (by rw [hrun2]; simpa using hstate)]
        refine ⟨_, by rw [← hid]; exact get_setRun_self hrun2, ?_⟩
        show RunChange s _ run _ _ ((s.db.recordBuild run.id result).steps.get id)
        rw [hstep]
        exact .built rfl hw hstate
      · rw [if_neg (by rw [hrun2]; simpa using hstate), hstep]
        exact ⟨run, hrun, .recorded rfl hw hstate⟩
    · -- another Run's build
      have hstep : (s.db.recordBuild runId result).steps.get id = s.db.steps.get id :=
        get_recordBuild_of_ne result (hid ▸ hk)
      split
      · rcases get_setRun hrun1 with ⟨-, hget⟩ | ⟨hk', -⟩
        · refine ⟨run, hget, ?_⟩
          show RunChange s _ run _ run ((s.db.recordBuild runId result).steps.get id)
          rw [hstep]
          exact .same
        · exact absurd hk' hk
      · rw [hstep]
        exact ⟨run, hrun, .same⟩

theorem abandon_runs {pass : Nat} {jobId : Uuid} {rest : List Uuid}
    (hp : s.sweeps pass = jobId :: rest) (hrun : s.db.runs.get id = some run) :
    ∃ run', (s.db.abandon jobId).runs.get id = some run' ∧
      RunChange s (.repair now pass .abandons) run (s.db.steps.get id) run' ((s.db.abandon jobId).steps.get id) := by
  have hid : run.id = id := key_eq_of_get hrun
  rcases abandon_cases s.db jobId with ⟨hdb, -⟩ | ⟨job, hjob, hrunning, hdb⟩
  · rw [hdb]
    exact ⟨run, hrun, .same⟩
  · obtain rfl : job.id = jobId := key_eq_of_get hjob
    rw [hdb, (compensate_jobs _ _).2.2.1]
    generalize hdb1 : ({ s.db with jobs := (abandon s.db.jobs job.id).1 } : Db) = db1
    have hrun1 : db1.runs.get id = some run := by
      rwa [← hdb1]
    have hsteps : db1.steps = s.db.steps := by rw [← hdb1]
    rw [hsteps]
    unfold compensate
    split
    · exact ⟨run, hrun1, .same⟩
    · rename_i runId hpayload
      split
      · rename_i hlive
        rcases get_setRun hrun1 with ⟨-, hget⟩ | ⟨hk, hget⟩
        · exact ⟨run, hget, .same⟩
        · subst hk
          rw [hid, hrun1] at hlive
          exact ⟨_, hget, .abandoned rfl hp hjob hrunning hpayload (by simpa using hlive)⟩
      · exact ⟨run, hrun1, .same⟩

/-- **Runs.** No row disappears, and each changes only so. -/
theorem runs_step (h : s.step cfg m = some s') (hrun : s.db.runs.get id = some run) :
    ∃ run', s'.db.runs.get id = some run' ∧ RunChange s m run (s.db.steps.get id) run' (s'.db.steps.get id) := by
  have hsame : s'.db.runs = s.db.runs → s'.db.steps = s.db.steps →
      ∃ run', s'.db.runs.get id = some run' ∧ RunChange s m run (s.db.steps.get id) run' (s'.db.steps.get id) := by
    intro hruns hsteps
    rw [hruns, hsteps]
    exact ⟨run, hrun, .same⟩
  cases m with
  | wait => exact hsame (some.inj h ▸ rfl) (some.inj h ▸ rfl)
  | tool =>
    obtain ⟨db, hdb, rfl⟩ := tool_of_step h
    exact tool_runs (tooled hdb) hrun
  | work =>
    rcases work_db (work_of_step h) with hcommitted | ⟨jobs, hdb, -⟩
    · exact committed_runs hcommitted hrun
    · exact hsame (by rw [hdb]) (by rw [hdb])
  | repair =>
    cases (repaired h).2 with
    | abandons hp => exact abandon_runs hp hrun
    | repairsOrphan hp hdb =>
      cases hdb with
      | same => exact hsame rfl rfl
      | enqueued hrow hstate henq => exact hsame henq.runs henq.steps
    | _ => exact hsame rfl rfl

theorem get_setRun_none {k : Uuid} {f : RunRow → RunRow} {hf : ∀ r, (f r).id = r.id}
    (hnone : db.runs.get id = none) : (db.setRun k f hf).runs.get id = none :=
  get_modify_none hf hnone

theorem tool_no_run {call : Call} (h : Tooled s.db call db') (hnone : s.db.runs.get id = none) :
    (∃ systemId source, db' = { s.db with runs := s.db.runs.insert { id, systemId, source } }) ∨
    (db'.runs.get id = none ∧ db'.steps.get id = s.db.steps.get id) := by
  cases h with
  | provisioned hfresh hstate hname henq => exact .inr ⟨by rw [henq.runs]; exact hnone, by rw [henq.steps]⟩
  | enqueued henq => exact .inr ⟨by rw [henq.runs, hnone], by rw [henq.steps]⟩
  | begun hrow hstate henq => exact .inr ⟨by rw [henq.runs]; exact hnone, by rw [henq.steps]; rfl⟩
  | reprovisioned hrow hstate henq =>
    exact .inr ⟨by rw [henq.runs]; exact hnone, by rw [henq.steps]; rfl⟩
  | runCreated hid =>
    rename_i runId systemId source
    rcases eq_or_ne runId id with rfl | hk
    · exact .inl ⟨systemId, source, rfl⟩
    · exact .inr ⟨(get_insert_of_ne hk).trans hnone, rfl⟩
  | started hrun hsource hstate henq =>
    exact .inr ⟨by rw [henq.runs]; exact get_setRun_none hnone, by rw [henq.steps]; rfl⟩
  | uploaded hrun =>
    rename_i done _ _
    have hne : done.id ≠ id := by
      rintro rfl
      cases hnone.symm.trans hrun
    exact .inr ⟨get_setRun_none hnone, get_recordBuild_of_ne _ hne⟩
  | runCanceled => exact .inr ⟨get_setRun_none hnone, rfl⟩
  | _ => exact .inr ⟨hnone, rfl⟩

theorem committed_no_run {w : WorkerId} {deed : Deed} (h : Committed s w deed db')
    (hnone : s.db.runs.get id = none) : db'.runs.get id = none ∧ (db'.steps.get id = s.db.steps.get id ∨
      ∃ w job result, s.workers w = .handling job (.finalizing id result)) := by
  cases h with
  | same => exact ⟨hnone, .inl rfl⟩
  | tornDown hw hjob hmark =>
    obtain ⟨-, hruns, hsteps, -⟩ := Committed.markTornDown_jobs hmark
    rw [hruns, hsteps]
    exact ⟨hnone, .inl rfl⟩
  | ready =>
    unfold commitReady
    repeat' split
    all_goals exact ⟨hnone, .inl rfl⟩
  | crashed =>
    unfold finalizeForceCrash
    split <;> exact ⟨hnone, .inl rfl⟩
  | buildFailed =>
    unfold failBuild
    split
    · exact ⟨get_setRun_none hnone, .inl rfl⟩
    · exact ⟨hnone, .inl rfl⟩
  | built hw =>
    rename_i job runId result
    have hruns : (s.db.finalizeBuild runId result).runs.get id = none := by
      unfold finalizeBuild
      dsimp only
      split
      · exact get_setRun_none hnone
      · exact hnone
    refine ⟨hruns, ?_⟩
    rcases eq_or_ne runId id with rfl | hk
    · exact .inr ⟨w, job, result, hw⟩
    · refine .inl ?_
      unfold finalizeBuild
      dsimp only
      split <;> exact get_recordBuild_of_ne result hk

theorem abandon_no_run {jobId : Uuid} (hnone : db.runs.get id = none) :
    (db.abandon jobId).runs.get id = none ∧ (db.abandon jobId).steps = db.steps := by
  rcases abandon_cases db jobId with ⟨hdb, -⟩ | ⟨job, -, -, hdb⟩
  · rw [hdb]
    exact ⟨hnone, rfl⟩
  · rw [hdb, (compensate_jobs _ _).2.2.1]
    refine ⟨?_, rfl⟩
    unfold compensate
    split
    · exact hnone
    · split
      · exact get_setRun_none hnone
      · exact hnone

/-- **New Runs.** One appears when it is created, and a step never appears without one, but for a build
    that is recorded. -/
theorem run_none_step (h : s.step cfg m = some s') (hnone : s.db.runs.get id = none) :
    (∃ run', s'.db.runs.get id = some run' ∧ run'.state = .created ∧ s'.db.steps = s.db.steps) ∨
    (s'.db.runs.get id = none ∧ (s'.db.steps.get id = s.db.steps.get id ∨
      ∃ w job result, s.workers w = .handling job (.finalizing id result))) := by
  cases m with
  | wait =>
    cases h
    exact .inr ⟨hnone, .inl rfl⟩
  | tool =>
    obtain ⟨db, hdb, rfl⟩ := tool_of_step h
    rcases tool_no_run (tooled hdb) hnone with ⟨systemId, source, rfl⟩ | ⟨hruns, hsteps⟩
    · exact .inl ⟨{ id, systemId, source }, get_insert_self hnone, rfl, rfl⟩
    · exact .inr ⟨hruns, .inl hsteps⟩
  | work =>
    rcases work_db (work_of_step h) with hcommitted | ⟨jobs, hdb, -⟩
    · exact .inr (committed_no_run hcommitted hnone)
    · rw [hdb]
      exact .inr ⟨hnone, .inl rfl⟩
  | repair =>
    refine .inr ?_
    cases (repaired h).2 with
    | abandons =>
      obtain ⟨hruns, hsteps⟩ := @abandon_no_run id s.db _ hnone
      exact ⟨hruns, .inl (by rw [hsteps])⟩
    | repairsOrphan hp hdb =>
      cases hdb with
      | same => exact ⟨hnone, .inl rfl⟩
      | enqueued hrow hstate henq =>
        rw [henq.runs, henq.steps]
        exact ⟨hnone, .inl rfl⟩
    | _ => exact ⟨hnone, .inl rfl⟩

namespace RunChange
variable {step step' : Option StepRow} {run' : RunRow}

theorem ne_created (h : RunChange s m run step run' step') (hstate : run.state ≠ .created) : run'.state ≠ .created := by
  cases h with
  | same | recorded => exact hstate
  | _ => nofun

theorem ended (h : RunChange s m run step run' step') (hended : run.state.live = false) : run' = run := by
  cases h with
  | same | recorded => rfl
  | started _ hstate | uploaded _ hstate | failed _ _ hstate | built _ _ hstate => simp [hstate, live] at hended
  | canceled hstate | abandoned _ _ _ _ _ hstate => simp [hstate] at hended
end RunChange
end Kdive.Jobs
