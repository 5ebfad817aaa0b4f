import Kdive.Jobs.Plane

/-! # What a move does to the database

What the tools (`Tooled`), the handlers of the workers (`Committed`) and the queue (`JobsChange`) make of it, with
what they have checked.
-/

namespace Kdive.Jobs
open Lib Kdive.Jobs.Db Option Table Plane Function

structure JobRow.Fresh (job : JobRow) (payload : Payload) (key : DedupKey) : Prop where
  payload : job.payload = payload
  key : job.dedupKey = key
  state : job.state = .queued
  attempt : job.attempt = 0
  maxAttempts : 1 ≤ job.maxAttempts
  workerId : job.workerId = none

/-- The outcome of `queue.enqueue`: the job there is, or a new one. -/
inductive Enqueued (db : Db) (payload : Payload) (key : DedupKey) : Db → Prop where
  | found {job : JobRow} (h : Queue.forKey db.jobs key = some job) : Enqueued db payload key db
  | added {job : JobRow} (hkey : Queue.forKey db.jobs key = none) (hid : db.jobs.get job.id = none)
      (hnew : job.Fresh payload key) :
      Enqueued db payload key { db with jobs := db.jobs.insert job }

theorem Db.enqueued {db db' : Db} {jobId : Uuid} {now : Time} {payload : Payload} {key : DedupKey}
    {maxAttempts : Nat} (h : db.enqueue jobId now payload key maxAttempts = some db') :
    Enqueued db payload key db' := by
  unfold enqueue at h
  split at h
  · rename_i hid
    split at h
    · rename_i jobs job hok
      obtain rfl := some.inj h
      rcases Queue.get_enqueue hok with ⟨hkey, rfl⟩ | ⟨hkey, hmax, rfl, rfl⟩
      · exact .found hkey
      · exact .added hkey hid ⟨rfl, rfl, rfl, rfl, hmax, rfl⟩
    · cases h
  · cases h

namespace Enqueued
variable {db db' : Db} {payload : Payload} {key : DedupKey}

variable (h : Enqueued db payload key db')
include h

theorem systems : db'.systems = db.systems := by cases h <;> rfl

theorem allocations : db'.allocations = db.allocations := by
  cases h <;> rfl

theorem runs : db'.runs = db.runs := by cases h <;> rfl

theorem steps : db'.steps = db.steps := by cases h <;> rfl

theorem queuePaused : db'.queuePaused = db.queuePaused := by
  cases h <;> rfl
end Enqueued

def paired : DedupKey → Payload → Bool
  | .provision _, .provision _ => true
  | .reprovision i d, .reprovision j e => i = j && d = e
  | .teardown i, .teardown j => i = j
  | .build r, .build r' _ => r = r'
  | .install r, .install r' => r = r'
  | .boot r, .boot r' => r = r'
  | .forceCrash i, .forceCrash j => i = j
  | .other _, .power => true
  | .other _, .captureVmcore => true
  | .other _, .imageBuild => true
  | _, _ => false

def Db.Admits (db : Db) : Payload → Prop
  | .provision i => ∃ row, db.systems.get i = some row ∧ row.state = .provisioning
  | .reprovision i _ => ∃ row, db.systems.get i = some row ∧ row.state = .reprovisioning
  | .teardown i => ∃ row, db.systems.get i = some row ∧ row.state ≠ .tornDown
  | .forceCrash i => ∃ row, db.systems.get i = some row
  | .build r _ => ∃ run, db.runs.get r = some run ∧ run.source = .server ∧
      (run.state = .running ∨ run.state = .succeeded)
  | .install r | .boot r => ∃ run, db.runs.get r = some run ∧ run.state = .succeeded
  | .power | .captureVmcore | .imageBuild => True

def Worker.job : Worker → Option JobRow
  | .idle => none
  | .claimed job => some job
  | .handling job _ => some job
  | .returned job _ => some job

/-- A job that a move has just admitted. Other than a tool, only the reconciler asks for one. -/
structure Admitted (s s' : Plane) (m : Move) (job : JobRow) : Prop where
  free : Queue.forKey s.db.jobs job.dedupKey = none
  fresh : job.Fresh job.payload job.dedupKey
  paired : paired job.dedupKey job.payload = true
  admits : s'.db.Admits job.payload
  asked : (∃ now call, m = .tool now call) ∨ ∃ i, job.payload = .teardown i ∧
    ∃ now p jobId, m = .repair now p (.repairsOrphan jobId)

inductive JobsChange (cfg : Config) (s s' : Plane) : Move → JobTable → Prop where
  | same {m : Move} (hm : ∀ now w locked, m ≠ .work now w (.dequeue locked)) :
      JobsChange cfg s s' m s.db.jobs
  | added {m : Move} {job : JobRow} (hm : ∀ now w locked, m ≠ .work now w (.dequeue locked))
      (hid : s.db.jobs.get job.id = none) (hnew : Admitted s s' m job) :
      JobsChange cfg s s' m (s.db.jobs.insert job)
  | dequeued {now : Time} {w : WorkerId} {locked : Uuid → Bool} {job : JobRow}
      (hw : s.workers w = .idle) (hpick : Queue.pick s.db.jobs now locked = some job)
      (hw' : s'.workers w = .claimed (Queue.claim w now cfg.lease job)) :
      JobsChange cfg s s' (.work now w (.dequeue locked)) (Queue.dequeue s.db.jobs w now cfg.lease locked).1
  | beaten {now : Time} {w : WorkerId} {job : JobRow} (hw : (s.workers w).job = some job) :
      JobsChange cfg s s' (.work now w .heartbeat) (Queue.heartbeat s.db.jobs job.id w now cfg.lease).1
  | completed {now : Time} {w : WorkerId} {job : JobRow} {ref : Option String}
      (hw : s.workers w = .returned job (.ok ref)) :
      JobsChange cfg s s' (.work now w .finishes) (Queue.complete s.db.jobs job.id w ref).1
  | failed {now : Time} {w : WorkerId} {job : JobRow} {category : ErrorCategory}
      (hw : s.workers w = .returned job (.error category)) :
      JobsChange cfg s s' (.work now w .finishes) (Queue.fail s.db.jobs job category false).1
  | unhandled {now : Time} {w : WorkerId} {job : JobRow} (hw : s.workers w = .claimed job)
      (hreg : cfg.registered job.payload.kind = false) :
      JobsChange cfg s s' (.work now w .dispatch) (Queue.fail s.db.jobs job .notImplemented true).1
  | canceled {now : Time} {id : Uuid} :
      JobsChange cfg s s' (.tool now (.cancelJob id)) (Queue.cancel s.db.jobs id).1
  | abandoned {now : Time} {pass : Nat} {id : Uuid} {rest : List Uuid}
      (hp : s.sweeps pass = id :: rest) :
      JobsChange cfg s s' (.repair now pass .abandons) (Queue.abandon s.db.jobs id).1

namespace Db
variable {db : Db} {id : Uuid}

theorem get_setSystem_self {f : SystemRow → SystemRow} {hf : ∀ s, (f s).id = s.id} {row : SystemRow}
    (h : db.systems.get id = some row) : (db.setSystem id f hf).systems.get id = some (f row) := by
  show (db.systems.modify id f hf).get id = _
  rw [get_modify_self, h]
  rfl

theorem get_setRun_self {f : RunRow → RunRow} {hf : ∀ r, (f r).id = r.id} {run : RunRow}
    (h : db.runs.get id = some run) : (db.setRun id f hf).runs.get id = some (f run) := by
  show (db.runs.modify id f hf).get id = _
  rw [get_modify_self, h]
  rfl
end Db

/-! ## The tools -/

inductive Tooled (db : Db) : Call → Db → Prop where
  | allocated {call : Call} {allocations : Table AllocationRow} : Tooled db call { db with allocations }
  | defined {allocationId systemId : Uuid} {profile : String} {allocations : Table AllocationRow}
      {row : SystemRow} (hid : db.systems.get row.id = none) (hstate : row.state = .defined)
      (hname : row.domainName = none) :
      Tooled db (.define allocationId systemId profile) { db with allocations, systems := db.systems.insert row }
  | provisioned {allocationId jobId : Uuid} {profile : String} {allocations : Table AllocationRow}
      {row : SystemRow} {db' : Db} (hid : db.systems.get row.id = none)
      (hstate : row.state = .provisioning) (hname : row.domainName = none)
      (henq : Enqueued { db with allocations, systems := db.systems.insert row }
        (.provision row.id) (.provision allocationId) db') :
      Tooled db (.provision allocationId row.id jobId profile) db'
  | enqueued {call : Call} {payload : Payload} {key : DedupKey} {db' : Db}
      (henq : Enqueued db payload key db') (hpair : paired key payload = true)
      (hadm : db.Admits payload) : Tooled db call db'
  | begun {jobId : Uuid} {row : SystemRow} {db' : Db} (hrow : db.systems.get row.id = some row)
      (hstate : row.state = .defined)
      (henq : Enqueued (db.setSystem row.id ({ · with state := .provisioning }) (fun _ => rfl))
        (.provision row.id) (.provision row.allocationId) db') :
      Tooled db (.provisionDefined row.id jobId) db'
  | reprovisioned {jobId : Uuid} {profile digest : String} {row : SystemRow} {db' : Db}
      (hrow : db.systems.get row.id = some row) (hstate : row.state = .ready)
      (henq : Enqueued (db.setSystem row.id
          ({ · with state := .reprovisioning, provisioningProfile := profile }) (fun _ => rfl))
        (.reprovision row.id digest) (.reprovision row.id digest) db') :
      Tooled db (.reprovision row.id jobId profile) db'
  | runCreated {runId systemId : Uuid} {source : BuildSource} (hid : db.runs.get runId = none) :
      Tooled db (.createRun runId systemId source) { db with runs := db.runs.insert { id := runId, systemId, source } }
  | started {jobId : Uuid} {cmdline : Option String} {run : RunRow} {db' : Db}
      (hrun : db.runs.get run.id = some run) (hsource : run.source = .server)
      (hstate : run.state = .created)
      (henq : Enqueued (db.setRun run.id ({ · with state := .running }) (fun _ => rfl))
        (.build run.id cmdline) (.build run.id) db') : Tooled db (.build run.id jobId cmdline) db'
  | uploaded {keyBase buildId cmdline : String} {vmlinux : Bool} {initrd : Option String} {run : RunRow}
      (hrun : db.runs.get run.id = some run) (hsource : run.source = .external) (hstate : run.state = .created) :
      Tooled db (.completeBuild run.id keyBase vmlinux buildId initrd cmdline)
        ((db.recordBuild run.id (externalResult (Db.uploaded keyBase vmlinux buildId) initrd cmdline)).setRun run.id
          (externallyBuilt (Db.uploaded keyBase vmlinux buildId)) (fun _ => rfl))
  | runCanceled {run : RunRow} (hrun : db.runs.get run.id = some run)
      (hstate : run.state.canTransition .canceled = true) :
      Tooled db (.cancelRun run.id) (db.setRun run.id ({ · with state := .canceled }) (fun _ => rfl))
  | jobCanceled {id : Uuid} :
      Tooled db (.cancelJob id) { db with jobs := (Queue.cancel db.jobs id).1 }
  | paused {paused : Bool} : Tooled db (.setQueuePaused paused) { db with queuePaused := paused }

theorem tooled {cfg : Config} {db db' : Db} {now : Time} {call : Call}
    (h : tool cfg db now call = some db') : Tooled db call db' := by
  cases call with
  | allocate | allocationTo =>
    simp only [tool, ite_none_right_eq_some, some.injEq] at h
    obtain ⟨-, rfl⟩ := h
    exact .allocated
  | provision allocationId systemId jobId profile =>
    simp only [tool, provision] at h
    split at h
    · obtain ⟨db1, hdb1, h⟩ := bind_eq_some_iff.mp h
      simp only [insertSystem, ite_none_right_eq_some, some.injEq] at hdb1
      obtain ⟨⟨-, hid⟩, rfl⟩ := hdb1
      exact @Tooled.provisioned db allocationId jobId profile _ _ db' hid rfl rfl (enqueued h)
    · rename_i existing hexisting
      simp only [ite_none_right_eq_some] at h
      have hmem := get_key_of_mem (List.mem_of_find?_eq_some hexisting)
      exact .enqueued (enqueued h.2) rfl ⟨existing, hmem, h.1⟩
  | define =>
    simp only [tool, Db.define] at h
    split at h
    · simp only [insertSystem, ite_none_right_eq_some, some.injEq] at h
      obtain ⟨⟨-, hid⟩, rfl⟩ := h
      exact .defined hid rfl rfl
    · cases h
  | provisionDefined systemId jobId =>
    simp only [tool, provisionDefined] at h
    split at h
    · cases h
    · rename_i row hrow
      obtain rfl : row.id = systemId := key_eq_of_get hrow
      split at h
      · rename_i hstate
        exact .enqueued (enqueued h) rfl ⟨row, hrow, hstate⟩
      · simp only [ite_none_right_eq_some] at h
        exact .begun hrow h.1.1 (enqueued h.2)
  | reprovision systemId jobId profile =>
    simp only [tool, reprovision] at h
    split at h
    · cases h
    · rename_i row hrow
      obtain rfl : row.id = systemId := key_eq_of_get hrow
      simp only [ite_none_right_eq_some] at h
      exact .reprovisioned hrow h.1.1 (enqueued h.2)
  | teardown systemId jobId =>
    simp only [tool, teardown] at h
    split at h
    · cases h
    · rename_i row hrow
      split at h
      · cases h
      · rename_i hstate
        exact .enqueued (enqueued h) (by simp [paired]) ⟨row, hrow, hstate⟩
  | forceCrash systemId jobId =>
    simp only [tool, forceCrash] at h
    split at h
    · cases h
    · rename_i row hrow
      exact .enqueued (enqueued h) (by simp [paired]) ⟨row, hrow⟩
  | createRun =>
    simp only [tool, createRun] at h
    split at h
    · cases h
    · simp only [ite_none_right_eq_some, some.injEq] at h
      obtain ⟨⟨-, -, -, hid⟩, rfl⟩ := h
      exact .runCreated hid
  | build runId jobId cmdline =>
    simp only [tool, build] at h
    split at h
    · cases h
    · rename_i run hrun
      obtain rfl : run.id = runId := key_eq_of_get hrun
      simp only [ite_none_right_eq_some] at h
      obtain ⟨⟨hsource, hfailed, hcanceled⟩, h⟩ := h
      split at h
      · rename_i hstate
        exact .started hrun hsource hstate (enqueued h)
      · rename_i hstate
        refine .enqueued (enqueued h) (by simp [paired]) ⟨run, hrun, hsource, ?_⟩
        cases hrunState : run.state <;> simp_all
  | install | boot =>
    simp only [tool, runStep, ite_none_right_eq_some, any_eq_true] at h
    obtain ⟨⟨run, hrun, hstate⟩, h⟩ := h
    exact .enqueued (enqueued h) (by simp [paired]) ⟨run, hrun, by simpa using hstate⟩
  | completeBuild runId keyBase vmlinux buildId initrd cmdline =>
    simp only [tool, completeBuild] at h
    split at h
    · cases h
    · rename_i run hrun
      obtain rfl : run.id = runId := key_eq_of_get hrun
      simp only [ite_none_right_eq_some, some.injEq] at h
      obtain ⟨⟨hsource, hstate⟩, rfl⟩ := h
      exact .uploaded hrun hsource hstate
  | cancelRun runId =>
    simp only [tool, cancelRun, ite_none_right_eq_some, some.injEq, any_eq_true] at h
    obtain ⟨⟨run, hrun, hstate⟩, rfl⟩ := h
    obtain rfl : run.id = runId := key_eq_of_get hrun
    exact .runCanceled hrun hstate
  | enqueueOther =>
    simp only [tool, ite_none_right_eq_some] at h
    obtain ⟨hkind, h⟩ := h
    have henq := enqueued h
    rcases hkind with rfl | rfl | rfl <;> exact .enqueued henq rfl trivial
  | cancelJob =>
    obtain rfl := some.inj h
    exact .jobCanceled
  | setQueuePaused paused =>
    obtain rfl := some.inj h
    exact .paused

/-! ## The handlers' transactions -/

inductive Committed (s : Plane) (w : WorkerId) : Deed → Db → Prop where
  | same {deed : Deed} (hdeed : ∀ locked, deed ≠ .dequeue locked) : Committed s w deed s.db
  | tornDown {resolved : Bool} {job : JobRow} {systemId : Uuid} {db : Db} {name : DomainName}
      (hw : s.workers w = .handling job .starting) (hjob : job.payload = .teardown systemId)
      (h : s.db.markTornDown systemId = .ok (db, some name)) : Committed s w (.starts resolved) db
  | ready {job : JobRow} {system : SystemRow} {name : DomainName} {expected : SystemState}
      (hw : s.workers w = .handling job (.provisioned system name))
      (hexpected : expected = .provisioning ∨ expected = .reprovisioning) :
      Committed s w .commits (s.db.commitReady expected system.id name).1
  | crashed {job : JobRow} {systemId : Uuid} (hw : s.workers w = .handling job .crashed) :
      Committed s w .commits (s.db.finalizeForceCrash systemId)
  | buildFailed {job : JobRow} {runId : Uuid} {category : ErrorCategory}
      (hw : s.workers w = .handling job (.buildFailed runId category)) :
      Committed s w .commits (s.db.failBuild runId category)
  | built {job : JobRow} {runId : Uuid} {result : BuildStepResult}
      (hw : s.workers w = .handling job (.finalizing runId result)) :
      Committed s w .commits (s.db.finalizeBuild runId result)

section
variable {cfg : Config} {s s' : Plane} {now : Time} {w : WorkerId} {deed : Deed}

theorem tool_of_step {call : Call} (h : s.step cfg (.tool now call) = some s') :
    ∃ db, tool cfg s.db now call = some db ∧ s.withDb db = s' := by
  simp only [step, ite_none_right_eq_some, map_eq_some_iff] at h
  exact h.2

theorem work_of_step (h : s.step cfg (.work now w deed) = some s') : s.work cfg now w deed = some s' := by
  simp only [step, ite_none_right_eq_some] at h
  exact h.2

@[simp] theorem Plane.db_withDb (db : Db) : (s.withDb db).db = db := rfl

@[simp] theorem Plane.db_define (systemId : Uuid) (tagged : Bool) : (s.define systemId tagged).db = s.db := by
  unfold define
  split <;> rfl

variable {job : JobRow}

theorem starts_committed {resolved : Bool} (hw : s.workers w = .handling job .starting) :
    Committed s w (.starts resolved) (s.starts w job resolved).db := by
  have hsame : Committed s w (.starts resolved) s.db := .same (by simp)
  unfold starts
  cases hjob : job.payload with
  | provision | reprovision | forceCrash | build =>
    dsimp only
    repeat' split
    all_goals exact hsame
  | teardown i =>
    dsimp only
    cases hmark : s.db.markTornDown i with
    | error => exact hsame
    | ok out =>
      obtain ⟨db, name⟩ := out
      cases name with
      | none => exact hsame
      | some =>
        dsimp only
        split <;> exact .tornDown hw hjob hmark
  | _ => exact hsame

theorem answers_db {answer : Except ErrorCategory String} {stage : Stage}
    (h : s.answers cfg w job answer stage = some s') : s'.db = s.db := by
  cases stage <;> cases answer <;> simp only [answers, some.injEq, reduceCtorEq] at h <;>
    rw [← h] <;> rfl

theorem commits_committed {stage : Stage} (hw : s.workers w = .handling job stage)
    (h : s.commits w job stage = some s') : Committed s w .commits s'.db := by
  cases stage with
  | provisioned system name =>
    have hready : ∃ expected, (expected = SystemState.provisioning ∨ expected = .reprovisioning) ∧
        s'.db = (s.db.commitReady expected system.id name).1 := by
      unfold commits at h
      cases hjob : job.payload with
      | reprovision =>
        simp only [hjob] at h
        refine ⟨.reprovisioning, .inr rfl, ?_⟩
        split at h <;> rw [← some.inj h] <;> rfl
      | _ =>
        simp only [hjob] at h
        refine ⟨.provisioning, .inl rfl, ?_⟩
        split at h <;> rw [← some.inj h] <;> rfl
    obtain ⟨expected, hexpected, hdb⟩ := hready
    rw [hdb]
    exact .ready hw hexpected
  | crashed =>
    simp only [commits] at h
    split at h
    · rw [← some.inj h]
      exact .crashed hw
    · cases h
  | buildFailed =>
    rw [← some.inj h]
    exact .buildFailed hw
  | finalizing =>
    rw [← some.inj h]
    exact .built hw
  | _ => cases h

theorem of_dequeue {locked : Uuid → Bool} (h : s.work cfg now w (.dequeue locked) = some s') :
    s.workers w = .idle ∧ ∃ job, Queue.pick s.db.jobs now locked = some job ∧
      s' = (s.withDb { s.db with jobs := (Queue.dequeue s.db.jobs w now cfg.lease locked).1 }).set w
        (.claimed (Queue.claim w now cfg.lease job)) := by
  simp only [work] at h
  split at h
  · rename_i hidle
    simp only [ite_none_left_eq_some] at h
    obtain ⟨-, h⟩ := h
    cases hpick : Queue.pick s.db.jobs now locked with
    | none => simp [Queue.dequeue, hpick] at h
    | some job =>
      simp only [Queue.dequeue, hpick, some.injEq] at h
      refine ⟨hidle, job, rfl, ?_⟩
      rw [← h, Queue.dequeue, hpick]
  · cases h

/-- **What a worker's deed does to the database**: the queue's table, or its handler's. -/
theorem work_db (h : s.work cfg now w deed = some s') : Committed s w deed s'.db ∨
    ∃ jobs, s'.db = { s.db with jobs } ∧ JobsChange cfg s s' (.work now w deed) jobs := by
  cases deed with
  | dequeue locked =>
    obtain ⟨hidle, job, hpick, rfl⟩ := of_dequeue h
    exact .inr ⟨_, rfl, .dequeued hidle hpick (update_self ..)⟩
  | dispatch =>
    simp only [work] at h
    split at h
    · rename_i job hclaimed
      split at h
      · rw [← some.inj h]
        exact .inl (.same (by simp))
      · rename_i hreg
        refine .inr ⟨_, ?_, .unhandled hclaimed (by simpa using hreg)⟩
        rw [← some.inj h]
        rfl
    · cases h
  | heartbeat =>
    refine .inr ?_
    simp only [work] at h
    split at h
    · rename_i job stage hhandling
      have hjob : (s.workers w).job = some job := by rw [hhandling]; rfl
      refine ⟨_, ?_, .beaten hjob⟩
      rw [← some.inj h]
      rfl
    · rename_i job result hreturned
      have hjob : (s.workers w).job = some job := by rw [hreturned]; rfl
      refine ⟨_, ?_, .beaten hjob⟩
      rw [← some.inj h]
      rfl
    · cases h
  | starts resolved =>
    simp only [work] at h
    split at h
    · rename_i job hstarting
      rw [← some.inj h]
      exact .inl (starts_committed hstarting)
    · cases h
  | defines =>
    simp only [work] at h
    split at h
    · rw [← some.inj h, db_define]
      exact .inl (.same (by simp))
    · cases h
  | undefines | raises =>
    simp only [work] at h
    split at h
    · rw [← some.inj h]
      exact .inl (.same (by simp))
    · cases h
  | answers =>
    simp only [work] at h
    split at h
    · rw [answers_db h]
      exact .inl (.same (by simp))
    · cases h
  | commits =>
    simp only [work] at h
    split at h
    · rename_i job stage hhandling
      exact .inl (commits_committed hhandling h)
    · cases h
  | finishes =>
    refine .inr ?_
    simp only [work] at h
    split at h
    · rename_i job ref hreturned
      refine ⟨_, ?_, .completed hreturned⟩
      rw [← some.inj h]
      rfl
    · rename_i job category hreturned
      refine ⟨_, ?_, .failed hreturned⟩
      rw [← some.inj h]
      rfl
    · cases h
  | crashes =>
    rw [← some.inj h]
    exact .inl (.same (by simp))
end

/-! ## The reconciler's transactions -/

/-- What `repair_orphaned_systems` does with one of its Systems. -/
inductive Rescued (db : Db) (systemId : Uuid) : Db → Prop where
  | same (h : ∀ row, db.systems.get systemId = some row → row.state.terminal = true) :
      Rescued db systemId db
  | enqueued {row : SystemRow} {db' : Db} (hrow : db.systems.get systemId = some row)
      (hstate : row.state.terminal = false)
      (henq : Enqueued db (.teardown systemId) (.teardown systemId) db') : Rescued db systemId db'

inductive Repaired (s : Plane) (now : Time) (pass : Nat) : Repair → Plane → Prop where
  | sweep : Repaired s now pass .sweep
      { s with sweeps := update s.sweeps pass (s.db.zombies now) }
  | abandons {jobId : Uuid} {rest : List Uuid} (hp : s.sweeps pass = jobId :: rest) :
      Repaired s now pass .abandons { s with db := s.db.abandon jobId, sweeps := update s.sweeps pass rest }
  | listOrphans : Repaired s now pass .listOrphans
      { s with orphanages := update s.orphanages pass s.db.orphans }
  | repairsOrphan {jobId systemId : Uuid} {rest : List Uuid} {db : Db}
      (hp : s.orphanages pass = systemId :: rest) (hdb : Rescued s.db systemId db) :
      Repaired s now pass (.repairsOrphan jobId) { s with db, orphanages := update s.orphanages pass rest }
  | listOwned : Repaired s now pass .listOwned
      { s with reapers := update s.reapers pass (some { pending := s.domains }) }
  | checks {d : Domain} {rest : List Domain} (hp : s.reapers pass = some ⟨d :: rest, none⟩) :
      Repaired s now pass .checks { s with
        reapers := update s.reapers pass (some ⟨rest, if d.owner.any s.db.leaked then some d else none⟩) }
  | destroys {pending : List Domain} {d : Domain} (hp : s.reapers pass = some ⟨pending, some d⟩) :
      Repaired s now pass (.destroys true) { s with
        domains := s.domains.filter (·.name ≠ d.name)
        reapers := update s.reapers pass (some ⟨pending, none⟩) }
  | spares {pending : List Domain} {d : Domain} (hp : s.reapers pass = some ⟨pending, some d⟩) :
      Repaired s now pass (.destroys false) { s with
        reapers := update s.reapers pass (some ⟨pending, none⟩) }
  | stops : Repaired s now pass .stops { s with
      sweeps := update s.sweeps pass [], orphanages := update s.orphanages pass []
      reapers := update s.reapers pass none }

theorem rescued {db db' : Db} {now : Time} {jobId systemId : Uuid}
    (h : db.repairOrphan now jobId systemId = some db') : Rescued db systemId db' := by
  unfold repairOrphan at h
  split at h
  · rename_i hnone
    cases h
    exact .same (by simp [hnone])
  · rename_i row hrow
    split at h
    · rename_i hstate
      cases h
      exact .same (by simp [hrow, hstate])
    · rename_i hstate
      exact .enqueued hrow (by simpa using hstate) (enqueued h)

theorem repaired {cfg : Config} {s s' : Plane} {now : Time} {pass : Nat} {r : Repair}
    (h : s.step cfg (.repair now pass r) = some s') : now ≤ s.clock ∧ Repaired s now pass r s' := by
  simp only [step, ite_none_right_eq_some] at h
  obtain ⟨hnow, h⟩ := h
  refine ⟨hnow, ?_⟩
  cases r with
  | sweep =>
    cases h
    exact .sweep
  | abandons =>
    simp only [repair] at h
    split at h
    · cases h
    · rename_i hp
      cases h
      exact .abandons hp
  | listOrphans =>
    cases h
    exact .listOrphans
  | repairsOrphan jobId =>
    simp only [repair] at h
    split at h
    · cases h
    · rename_i hp
      obtain ⟨db, hdb, rfl⟩ := map_eq_some_iff.mp h
      exact .repairsOrphan hp (rescued hdb)
  | listOwned =>
    cases h
    exact .listOwned
  | checks =>
    simp only [repair] at h
    split at h
    · rename_i hp
      cases h
      exact .checks hp
    · cases h
  | destroys succeeds =>
    simp only [repair] at h
    split at h
    · rename_i hp
      cases succeeds with
      | true =>
        cases h
        exact .destroys hp
      | false =>
        cases h
        exact .spares hp
    · cases h
  | stops =>
    cases h
    exact .stops

/-! ## The table of jobs -/

namespace Committed
variable {s : Plane} {w : WorkerId} {deed : Deed} {db : Db}

theorem markTornDown_jobs {db0 : Db} {i : Uuid} {name : Option DomainName} (h : db0.markTornDown i = .ok (db, name)) :
    db.jobs = db0.jobs ∧ db.runs = db0.runs ∧ db.steps = db0.steps ∧ db.allocations = db0.allocations := by
  unfold markTornDown at h
  repeat' split at h
  all_goals
    cases h
    try exact ⟨rfl, rfl, rfl, rfl⟩

theorem markTornDown_queuePaused {db0 : Db} {i : Uuid} {name : Option DomainName}
    (h : db0.markTornDown i = .ok (db, name)) : db.queuePaused = db0.queuePaused := by
  unfold markTornDown at h
  repeat' split at h
  all_goals
    cases h
    try rfl

variable (h : Committed s w deed db)
include h

theorem jobs : db.jobs = s.db.jobs := by
  cases h with
  | same => rfl
  | tornDown hw hjob h => exact (markTornDown_jobs h).1
  | ready =>
    unfold commitReady
    repeat' split
    all_goals rfl
  | crashed =>
    unfold finalizeForceCrash
    split <;> rfl
  | buildFailed =>
    unfold failBuild
    split <;> rfl
  | built =>
    unfold finalizeBuild
    dsimp only
    split <;> rfl

theorem allocations : db.allocations = s.db.allocations := by
  cases h with
  | same => rfl
  | tornDown hw hjob h => exact (markTornDown_jobs h).2.2.2
  | ready =>
    unfold commitReady
    repeat' split
    all_goals rfl
  | crashed =>
    unfold finalizeForceCrash
    split <;> rfl
  | buildFailed =>
    unfold failBuild
    split <;> rfl
  | built =>
    unfold finalizeBuild
    dsimp only
    split <;> rfl

theorem ne_dequeue (locked : Uuid → Bool) : deed ≠ .dequeue locked := by
  cases h with
  | same hdeed => exact hdeed locked
  | _ => simp
end Committed

section
variable {cfg : Config} {s s' : Plane} {m : Move}

theorem JobsChange.of_enqueued {db0 : Db} {payload : Payload} {key : DedupKey}
    (hm : ∀ now w locked, m ≠ .work now w (.dequeue locked)) (h : Enqueued db0 payload key s'.db)
    (h0 : db0.jobs = s.db.jobs) (hpair : paired key payload = true) (hadm : db0.Admits payload)
    (hasked : (∃ now call, m = .tool now call) ∨ ∃ i, payload = .teardown i ∧
      ∃ now p jobId, m = .repair now p (.repairsOrphan jobId)) : JobsChange cfg s s' m s'.db.jobs := by
  have hadm' : s'.db.Admits payload := by
    cases payload <;> simp only [Db.Admits, h.systems, h.runs] <;> exact hadm
  generalize hdb : s'.db = db at h
  cases h with
  | found =>
    rw [h0]
    exact .same hm
  | added hkey hid hnew =>
    rw [h0] at hkey hid
    rw [h0]
    obtain rfl := hnew.payload
    obtain rfl := hnew.key
    exact .added hm hid ⟨hkey, hnew, hpair, hadm', hasked⟩

theorem compensate_jobs (db : Db) (payload : Payload) :
    (db.compensate payload).jobs = db.jobs ∧ (db.compensate payload).systems = db.systems ∧
      (db.compensate payload).steps = db.steps ∧ (db.compensate payload).allocations = db.allocations := by
  unfold compensate
  repeat' split
  all_goals exact ⟨rfl, rfl, rfl, rfl⟩

/-- An abandoned job is found running, and its Run fails with it; or nothing happens. -/
theorem abandon_cases (db : Db) (jobId : Uuid) : (db.abandon jobId = db ∧ (Queue.abandon db.jobs jobId).1 = db.jobs) ∨
    ∃ job, db.jobs.get jobId = some job ∧ job.state = .running ∧
      db.abandon jobId = { db with jobs := (Queue.abandon db.jobs jobId).1 }.compensate job.payload := by
  rcases Queue.update_cases db.jobs jobId (·.state == .running) (Queue.deadLettered .leaseExpired)
    (fun _ => rfl) with hnone | ⟨job, hjob, hrunning, hsome⟩
  · refine .inl ⟨?_, ?_⟩
    · rw [abandon, Queue.abandon, hnone]
    · rw [Queue.abandon, hnone]
  · refine .inr ⟨job, hjob, by simpa using hrunning, ?_⟩
    rw [abandon, Queue.abandon, hsome]
    rfl

theorem abandon_jobs (db : Db) (jobId : Uuid) : (db.abandon jobId).jobs = (Queue.abandon db.jobs jobId).1 := by
  rcases abandon_cases db jobId with ⟨hdb, hjobs⟩ | ⟨job, -, -, hdb⟩
  · rw [hdb, hjobs]
  · rw [hdb, (compensate_jobs _ _).1]

theorem jobs_step (h : s.step cfg m = some s') : JobsChange cfg s s' m s'.db.jobs := by
  cases m with
  | wait =>
    rw [← some.inj h]
    exact .same (by simp)
  | tool now call =>
    obtain ⟨db, hdb, rfl⟩ := tool_of_step h
    have hasked : ∀ {payload : Payload}, (∃ now' call', Move.tool now call = .tool now' call') ∨
        ∃ i, payload = .teardown i ∧ ∃ now' p jobId, Move.tool now call = .repair now' p (.repairsOrphan jobId) :=
      .inl ⟨now, call, rfl⟩
    cases tooled hdb with
    | allocated | defined | runCreated | runCanceled | paused => exact .same (by simp)
    | provisioned hid hstate hname henq =>
      exact .of_enqueued (by simp) henq rfl rfl ⟨_, get_insert_self hid, hstate⟩ hasked
    | enqueued henq hpair hadm => exact .of_enqueued (by simp) henq rfl hpair hadm hasked
    | begun hrow hstate henq =>
      rename_i jobId row
      exact .of_enqueued (by simp) henq rfl rfl
        ⟨{ row with state := .provisioning }, get_setSystem_self hrow, rfl⟩ hasked
    | reprovisioned hrow hstate henq =>
      rename_i jobId profile digest row
      exact .of_enqueued (by simp) henq rfl (by simp [paired])
        ⟨{ row with state := .reprovisioning, provisioningProfile := profile }, get_setSystem_self hrow, rfl⟩ hasked
    | started hrun hsource hstate henq =>
      rename_i jobId cmdline run
      exact .of_enqueued (by simp) henq rfl (by simp [paired])
        ⟨{ run with state := .running }, get_setRun_self hrun, hsource, .inl rfl⟩
        hasked
    | uploaded => exact .same (by simp)
    | jobCanceled => exact .canceled
  | work =>
    rcases work_db (work_of_step h) with hcommitted | ⟨jobs, hdb, hchange⟩
    · rw [hcommitted.jobs]
      refine .same ?_
      rintro now' w' locked heq
      cases heq
      exact hcommitted.ne_dequeue locked rfl
    · rwa [hdb]
  | repair =>
    cases (repaired h).2 with
    | abandons hp =>
      rw [abandon_jobs]
      exact .abandoned hp
    | repairsOrphan hp hdb =>
      cases hdb with
      | same => exact .same (by simp)
      | enqueued hrow hstate henq =>
        refine .of_enqueued (by simp) henq rfl (by simp [paired]) ⟨_, hrow, ?_⟩ (.inr ⟨_, rfl, _, _, _, rfl⟩)
        rintro hdown
        rw [hdown] at hstate
        cases hstate
    | _ => exact .same (by simp)
end
end Kdive.Jobs
