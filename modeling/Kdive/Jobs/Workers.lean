import Kdive.Jobs.Rows

/-! # What a move does to a worker

A worker goes on only by its own deeds (`worker_step`), each from the place it is for: `Next` lists
them, with `Started`, `Answered` and `Concluded` for what its handler does. What a worker has in hand is
the job as it claimed it (`Holds`), whatever has become of the row since.
-/

namespace Kdive.Jobs
open Lib Option Function Table Plane Queue Payload

inductive Started (s s' : Plane) (job : JobRow) : Worker → Prop where
  | raised {category : ErrorCategory} : Started s s' job (.returned job (.error category))
  | returned {ref : Option String} (hjob : job.payload.kind ≠ .build) :
      Started s s' job (.returned job (.ok ref))
  | provisioning {row : SystemRow} (hrow : s.db.systems.get row.id = some row)
      (hjob : job.payload = .provision row.id ∧ row.state = .provisioning ∨
        ∃ d, job.payload = .reprovision row.id d ∧ row.state = .reprovisioning) :
      Started s s' job (.handling job (.provisioning row))
  | tearingDown {row : SystemRow} {name : DomainName} (hrow : s'.db.systems.get row.id = some row)
      (hjob : job.payload = .provision row.id ∨ job.payload = .teardown row.id ∧ row.state = .tornDown)
      (hname : name = row.domainName.getD (domainNameFor row.id)) :
      Started s s' job (.handling job (.tearingDown row.id name))
  | crashing {i : Uuid} (hjob : job.payload = .forceCrash i) :
      Started s s' job (.handling job .crashing)
  | finalizing {run : RunRow} {cmdline : Option String} {result : BuildStepResult}
      (hjob : job.payload = .build run.id cmdline) (hrun : s.db.runs.get run.id = some run)
      (hresult : s.db.existingBuildResult run.id = some result) :
      Started s s' job (.handling job (.finalizing run.id result))
  | building {run : RunRow} {cmdline : Option String} (hjob : job.payload = .build run.id cmdline)
      (hrun : s.db.runs.get run.id = some run) :
      Started s s' job (.handling job (.building run.id cmdline))
  | elsewhere (hjob : job.payload.kind ≠ .build) : Started s s' job (.handling job .elsewhere)

inductive Answered (cfg : Config) (job : JobRow) : Stage → Worker → Prop where
  | raised {stage : Stage} {category : ErrorCategory} :
      Answered cfg job stage (.returned job (.error category))
  | provisioned {system : SystemRow} : Answered cfg job (.provisioning system)
      (.handling job (.provisioned system (domainNameFor system.id)))
  | tornDown {i : Uuid} {name : DomainName} {ref : Option String} :
      Answered cfg job (.tearingDown i name) (.returned job (.ok ref))
  | crashed : Answered cfg job .crashing (.handling job .crashed)
  | built {runId : Uuid} {cmdline : Option String} {buildId : String} :
      Answered cfg job (.building runId cmdline) (.handling job (.finalizing runId
        { kernelRef := some (artifactKey cfg.tenant "runs" runId "kernel")
          debuginfoRef := some (artifactKey cfg.tenant "runs" runId "vmlinux")
          buildId := some buildId, cmdline }))
  | buildFailed {runId : Uuid} {cmdline : Option String} {category : ErrorCategory} :
      Answered cfg job (.building runId cmdline) (.handling job (.buildFailed runId category))
  | returned {ref : Option String} : Answered cfg job .elsewhere (.returned job (.ok ref))

inductive Concluded (job : JobRow) : Stage → Worker → Prop where
  | tearingDown {system : SystemRow} {name : DomainName} :
      Concluded job (.provisioned system name) (.handling job (.tearingDown system.id name))
  | ready {system : SystemRow} {name : DomainName} {ref : Option String} :
      Concluded job (.provisioned system name) (.returned job (.ok ref))
  | crashed {ref : Option String} : Concluded job .crashed (.returned job (.ok ref))
  | buildFailed {runId : Uuid} {category : ErrorCategory} :
      Concluded job (.buildFailed runId category) (.returned job (.error category))
  | built {runId : Uuid} {result : BuildStepResult} {ref : Option String} :
      Concluded job (.finalizing runId result) (.returned job (.ok ref))

inductive Next (cfg : Config) (s s' : Plane) (now : Time) (w : WorkerId) :
    Deed → Worker → Worker → Prop where
  | claims {locked : Uuid → Bool} {job : JobRow} (hpick : pick s.db.jobs now locked = some job) :
      Next cfg s s' now w (.dequeue locked) .idle (.claimed (claim w now cfg.lease job))
  | calls {job : JobRow} :
      Next cfg s s' now w .dispatch (.claimed job) (.handling job .starting)
  | refuses {job : JobRow} (hreg : cfg.registered job.payload.kind = false) :
      Next cfg s s' now w .dispatch (.claimed job) .idle
  | starts {resolved : Bool} {job : JobRow} {x : Worker} (h : Started s s' job x) :
      Next cfg s s' now w (.starts resolved) (.handling job .starting) x
  | answers {answer : Except ErrorCategory String} {job : JobRow} {stage : Stage} {x : Worker}
      (h : Answered cfg job stage x) :
      Next cfg s s' now w (.answers answer) (.handling job stage) x
  | commits {job : JobRow} {stage : Stage} {x : Worker} (h : Concluded job stage x) :
      Next cfg s s' now w .commits (.handling job stage) x
  | raises {category : ErrorCategory} {job : JobRow} {stage : Stage} :
      Next cfg s s' now w (.raises category) (.handling job stage) (.returned job (.error category))
  | finishes {job : JobRow} {result : Except ErrorCategory (Option String)} :
      Next cfg s s' now w .finishes (.returned job result) .idle
  | crashes {x : Worker} : Next cfg s s' now w .crashes x .idle

section
variable {cfg : Config} {s s' : Plane} {m : Move} {now : Time} {w : WorkerId}

@[simp] theorem Plane.workers_set_self (x : Worker) : (s.set w x).workers w = x :=
  update_self ..

theorem Plane.workers_set_of_ne {w' : WorkerId} (h : w' ≠ w) (x : Worker) : (s.set w x).workers w' = s.workers w' :=
  update_of_ne h ..

@[simp] theorem Plane.workers_withDb (db : Db) : (s.withDb db).workers = s.workers := rfl

@[simp] theorem Plane.workers_define (i : Uuid) (tagged : Bool) : (s.define i tagged).workers = s.workers := by
  unfold define
  split <;> rfl

theorem markTornDown_row {db db' : Db} {i : Uuid} {name : DomainName} (h : db.markTornDown i = .ok (db', some name)) :
    ∃ row, db'.systems.get i = some row ∧ row.state = .tornDown ∧ name = row.domainName.getD (domainNameFor i) := by
  unfold Db.markTornDown at h
  split at h
  · cases h
  · rename_i row hrow
    split at h
    · rename_i hstate
      cases h
      exact ⟨row, hrow, hstate, rfl⟩
    · split at h
      · cases h
      · cases h
        exact ⟨_, Db.get_setSystem_self hrow, rfl, rfl⟩

theorem started {job : JobRow} {resolved : Bool} : ∃ x, Started s (s.starts w job resolved) job x ∧
      (s.starts w job resolved).workers = Function.update s.workers w x := by
  unfold starts
  cases hjob : job.payload with
  | provision i =>
    dsimp only
    cases hrow : s.db.systems.get i with
    | none => exact ⟨_, .raised, rfl⟩
    | some row =>
      obtain rfl : row.id = i := key_eq_of_get hrow
      dsimp only
      split
      · exact ⟨_, .raised, rfl⟩
      · split
        · rename_i hstate
          exact ⟨_, .provisioning hrow (.inl ⟨hjob, hstate⟩), rfl⟩
        · split
          · exact ⟨_, .tearingDown hrow (.inl hjob) rfl, rfl⟩
          · exact ⟨_, .returned (by simp [hjob, kind]), rfl⟩
  | reprovision i d =>
    dsimp only
    cases hrow : s.db.systems.get i with
    | none => exact ⟨_, .raised, rfl⟩
    | some row =>
      obtain rfl : row.id = i := key_eq_of_get hrow
      dsimp only
      split
      · exact ⟨_, .raised, rfl⟩
      · split
        · rename_i hstate
          exact ⟨_, .provisioning hrow (.inr ⟨d, hjob, hstate⟩), rfl⟩
        · exact ⟨_, .returned (by simp [hjob, kind]), rfl⟩
  | teardown i =>
    dsimp only
    cases hmark : s.db.markTornDown i with
    | error => exact ⟨_, .raised, rfl⟩
    | ok out =>
      obtain ⟨db, name⟩ := out
      cases name with
      | none => exact ⟨_, .returned (by simp [hjob, kind]), rfl⟩
      | some =>
        obtain ⟨row, hrow, hdown, hname⟩ := markTornDown_row hmark
        obtain rfl : row.id = i := key_eq_of_get hrow
        dsimp only
        split
        · exact ⟨_, .raised, rfl⟩
        · exact ⟨_, .tearingDown hrow (.inr ⟨hjob, hdown⟩) hname, rfl⟩
  | forceCrash i =>
    dsimp only
    cases hrow : s.db.systems.get i with
    | none => exact ⟨_, .raised, rfl⟩
    | some =>
      dsimp only
      split
      · exact ⟨_, .returned (by simp [hjob, kind]), rfl⟩
      · split
        · exact ⟨_, .raised, rfl⟩
        · exact ⟨_, .crashing hjob, rfl⟩
  | build r =>
    dsimp only
    cases hrun : s.db.runs.get r with
    | none => exact ⟨_, .raised, rfl⟩
    | some run =>
      obtain rfl : run.id = r := key_eq_of_get hrun
      dsimp only
      split
      · exact ⟨_, .raised, rfl⟩
      · cases hresult : s.db.existingBuildResult run.id with
        | none => exact ⟨_, .building hjob hrun, rfl⟩
        | some => exact ⟨_, .finalizing hjob hrun hresult, rfl⟩
  | _ => exact ⟨_, .elsewhere (by simp [hjob, kind]), rfl⟩

theorem answered {job : JobRow} {answer : Except ErrorCategory String} {stage : Stage}
    (h : s.answers cfg w job answer stage = some s') :
    ∃ x, Answered cfg job stage x ∧ s'.workers = Function.update s.workers w x := by
  cases stage with
  | provisioning =>
    cases answer <;> rw [← some.inj h]
    · exact ⟨_, .raised, rfl⟩
    · exact ⟨_, .provisioned, rfl⟩
  | tearingDown =>
    cases answer <;> rw [← some.inj h]
    · exact ⟨_, .raised, rfl⟩
    · exact ⟨_, .tornDown, rfl⟩
  | crashing =>
    cases answer <;> rw [← some.inj h]
    · exact ⟨_, .raised, rfl⟩
    · exact ⟨_, .crashed, rfl⟩
  | building =>
    cases answer <;> rw [← some.inj h]
    · exact ⟨_, .buildFailed, rfl⟩
    · exact ⟨_, .built, rfl⟩
  | elsewhere =>
    cases answer <;> rw [← some.inj h]
    · exact ⟨_, .raised, rfl⟩
    · exact ⟨_, .returned, rfl⟩
  | _ => cases h

theorem concluded {job : JobRow} {stage : Stage} (h : s.commits w job stage = some s') :
    ∃ x, Concluded job stage x ∧ s'.workers = Function.update s.workers w x := by
  cases stage with
  | provisioned =>
    unfold commits at h
    dsimp only at h
    -- which job it is, and the state its System is found in
    split at h <;> split at h <;> rw [← some.inj h]
    · exact ⟨_, .tearingDown, rfl⟩
    · exact ⟨_, .ready, rfl⟩
    · exact ⟨_, .tearingDown, rfl⟩
    · exact ⟨_, .ready, rfl⟩
  | crashed =>
    simp only [commits] at h
    split at h
    · rw [← some.inj h]
      exact ⟨_, .crashed, rfl⟩
    · cases h
  | buildFailed =>
    rw [← some.inj h]
    exact ⟨_, .buildFailed, rfl⟩
  | finalizing =>
    rw [← some.inj h]
    exact ⟨_, .built, rfl⟩
  | _ => cases h

/-! ## A worker's deeds -/

theorem work_workers {deed : Deed} (h : s.work cfg now w deed = some s') : s'.workers = s.workers ∨
    ∃ x, Next cfg s s' now w deed (s.workers w) x ∧ s'.workers = Function.update s.workers w x := by
  cases deed with
  | dequeue locked =>
    obtain ⟨hidle, job, hpick, rfl⟩ := of_dequeue h
    rw [hidle]
    exact .inr ⟨_, .claims hpick, rfl⟩
  | dispatch =>
    simp only [work] at h
    split at h
    · rename_i job hclaimed
      rw [hclaimed]
      split at h
      · rw [← some.inj h]
        exact .inr ⟨_, .calls, rfl⟩
      · rename_i hreg
        rw [← some.inj h]
        exact .inr ⟨_, .refuses (by simpa using hreg), rfl⟩
    · cases h
  | heartbeat =>
    refine .inl ?_
    simp only [work] at h
    split at h
    · rw [← some.inj h]
      rfl
    · rw [← some.inj h]
      rfl
    · cases h
  | starts resolved =>
    simp only [work] at h
    split at h
    · rename_i job hstarting
      rw [hstarting, ← some.inj h]
      obtain ⟨x, hx, hworkers⟩ := @started s w job resolved
      exact .inr ⟨x, .starts hx, hworkers⟩
    · cases h
  | defines =>
    refine .inl ?_
    simp only [work] at h
    split at h
    · rw [← some.inj h, workers_define]
    · cases h
  | undefines =>
    refine .inl ?_
    simp only [work] at h
    split at h
    · rw [← some.inj h]
      rfl
    · cases h
  | answers answer =>
    simp only [work] at h
    split at h
    · rename_i job stage hhandling
      obtain ⟨x, hx, hworkers⟩ := answered h
      rw [hhandling]
      exact .inr ⟨x, .answers hx, hworkers⟩
    · cases h
  | commits =>
    simp only [work] at h
    split at h
    · rename_i job stage hhandling
      obtain ⟨x, hx, hworkers⟩ := concluded h
      rw [hhandling]
      exact .inr ⟨x, .commits hx, hworkers⟩
    · cases h
  | raises category =>
    simp only [work] at h
    split at h
    · rename_i job stage hhandling
      rw [hhandling, ← some.inj h]
      exact .inr ⟨_, .raises, rfl⟩
    · cases h
  | finishes =>
    simp only [work] at h
    split at h
    · rename_i job ref hreturned
      rw [hreturned, ← some.inj h]
      exact .inr ⟨_, .finishes, rfl⟩
    · rename_i job category hreturned
      rw [hreturned, ← some.inj h]
      exact .inr ⟨_, .finishes, rfl⟩
    · cases h
  | crashes =>
    rw [← some.inj h]
    exact .inr ⟨_, .crashes, rfl⟩

structure Plane.Beside (s s' : Plane) : Prop where
  clock : s'.clock = s.clock
  sweeps : s'.sweeps = s.sweeps
  orphanages : s'.orphanages = s.orphanages
  reapers : s'.reapers = s.reapers

theorem starts_beside {job : JobRow} {resolved : Bool} : s.Beside (s.starts w job resolved) := by
  unfold starts
  repeat' split
  all_goals exact ⟨rfl, rfl, rfl, rfl⟩

theorem answers_beside {job : JobRow} {answer : Except ErrorCategory String} {stage : Stage}
    (h : s.answers cfg w job answer stage = some s') : s.Beside s' := by
  cases stage <;> cases answer <;> simp only [answers, some.injEq, reduceCtorEq] at h <;>
    rw [← h] <;> exact ⟨rfl, rfl, rfl, rfl⟩

theorem commits_beside {job : JobRow} {stage : Stage} (h : s.commits w job stage = some s') : s.Beside s' := by
  unfold commits at h
  repeat' split at h
  all_goals cases h
  all_goals exact ⟨rfl, rfl, rfl, rfl⟩

theorem work_beside {deed : Deed} (h : s.work cfg now w deed = some s') : s.Beside s' := by
  cases deed with
  | starts =>
    simp only [work] at h
    split at h
    · rw [← some.inj h]
      exact starts_beside
    · cases h
  | defines =>
    simp only [work] at h
    split at h
    · rw [← some.inj h]
      unfold define
      split <;> exact ⟨rfl, rfl, rfl, rfl⟩
    · cases h
  | answers =>
    simp only [work] at h
    split at h
    · exact answers_beside h
    · cases h
  | commits =>
    simp only [work] at h
    split at h
    · exact commits_beside h
    · cases h
  | _ =>
    simp only [work] at h
    repeat' split at h
    all_goals cases h
    all_goals exact ⟨rfl, rfl, rfl, rfl⟩

theorem worker_step (h : s.step cfg m = some s') (w : WorkerId) : s'.workers w = s.workers w ∨
    ∃ now deed, m = .work now w deed ∧ Next cfg s s' now w deed (s.workers w) (s'.workers w) := by
  cases m with
  | wait =>
    rw [← some.inj h]
    exact .inl rfl
  | tool =>
    obtain ⟨db, hdb, rfl⟩ := tool_of_step h
    exact .inl rfl
  | work now w' deed =>
    rcases work_workers (work_of_step h) with hsame | ⟨x, hnext, hworkers⟩
    · exact .inl (by rw [hsame])
    · rw [hworkers]
      rcases eq_or_ne w w' with rfl | hw
      · rw [update_self]
        exact .inr ⟨now, deed, rfl, hnext⟩
      · exact .inl (update_of_ne hw ..)
  | repair =>
    cases (repaired h).2 <;> exact .inl rfl

/-! ## The job in hand -/

theorem Next.job {deed : Deed} {x y : Worker} {job : JobRow} (h : Next cfg s s' now w deed x y)
    (hjob : y.job = some job) : x.job = some job ∨
    ∃ locked row, deed = .dequeue locked ∧ x = .idle ∧ pick s.db.jobs now locked = some row ∧
      job = claim w now cfg.lease row := by
  cases h with
  | claims hpick =>
    cases hjob
    exact .inr ⟨_, _, rfl, rfl, hpick, rfl⟩
  | calls | raises => exact .inl hjob
  | refuses | finishes | crashes => cases hjob
  | starts h | answers h | commits h => cases h <;> exact .inl hjob

/-- A worker with a job in hand claimed it, and as long as the row is running under it nobody else has. -/
def Plane.Holds (s : Plane) (w : WorkerId) (job : JobRow) : Prop :=
  job.workerId = some w ∧ ∃ row, s.db.jobs.get job.id = some row ∧ row.payload = job.payload ∧
    row.maxAttempts = job.maxAttempts ∧
    (row.state = .running → row.workerId = some w → row.attempt = job.attempt)

theorem holds_step (hI : ∀ w job, (s.workers w).job = some job → s.Holds w job)
    (h : s.step cfg m = some s') {job : JobRow} (hjob : (s'.workers w).job = some job) : s'.Holds w job := by
  have hkeep : (s.workers w).job = some job → s'.Holds w job := by
    intro hheld
    obtain ⟨hworker, row, hrow, hpayload, hmax, hattempt⟩ := hI w job hheld
    obtain ⟨row', hrow', hchange⟩ := row_step h hrow
    refine ⟨hworker, row', hrow', hchange.payload.trans hpayload, hchange.maxAttempts.trans hmax, ?_⟩
    intro hrunning hmine
    rcases hchange.owned hrunning hmine with ⟨now, locked, -, hidle, -⟩ | ⟨hrunning, hmine, hsame⟩
    · rw [hidle] at hheld
      cases hheld
    · rw [hsame]
      exact hattempt hrunning hmine
  rcases worker_step h w with hsame | ⟨now, deed, rfl, hnext⟩
  · exact hkeep (hsame ▸ hjob)
  · rcases hnext.job hjob with hheld | ⟨locked, row, rfl, hidle, hpick, rfl⟩
    · exact hkeep hheld
    · have hrow := row_claimed h hpick
      exact ⟨rfl, _, hrow, rfl, rfl, fun _ _ => rfl⟩

theorem holds (h : (plane cfg).Reach s) {job : JobRow} (hjob : (s.workers w).job = some job) : s.Holds w job := by
  have hall := h.always (I := fun s : Plane => ∀ w job, (s.workers w).job = some job → s.Holds w job)
    (fun s hinit w job hjob => by
      rw [hinit.workers w] at hjob
      cases hjob)
    (fun s m s' _ _ hI hs w job hjob => holds_step hI hs hjob)
  exact hall w job hjob
end
end Kdive.Jobs
