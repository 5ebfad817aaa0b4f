import Kdive.Jobs.Dedup

/-! # Builds

A Run's build is recorded in the Run and in the row of its build step, in one transaction that finds the Run
unfinished; where the Run has succeeded the two agree (`succeeded_recorded`). The Run also ends with the first failed
build, while the job goes on to its next attempt (`failed_build_succeeds`). So a job that has succeeded has its Run
succeeded, or canceled, if builds fail only on the last attempt and under the worker that has the job
(`built_or_canceled`).
-/

namespace Kdive.Jobs
open Lib Option Bool Table BuildStepResult Plane Queue Kdive.Jobs.Db

variable {cfg : Config} {s s' : Plane} {m : Move} {id : Uuid} {job : JobRow}

/-- What the job of a Run's build, or of its install or boot, can rely on. -/
def Db.Founded (db : Db) : Payload → Prop
  | .build r _ => ∃ run, db.runs.get r = some run ∧ run.state ≠ .created
  | .install r | .boot r => ∃ run, db.runs.get r = some run ∧ run.state = .succeeded
  | _ => True

theorem founded_step (h : s.step cfg m = some s') {payload : Payload} (hI : s.db.Founded payload) :
    s'.db.Founded payload := by
  have hsucceeded : ∀ {r}, (∃ run, s.db.runs.get r = some run ∧ run.state = .succeeded) →
      ∃ run, s'.db.runs.get r = some run ∧ run.state = .succeeded := by
    rintro r ⟨run, hrun, hstate⟩
    obtain ⟨run', hrun', hchange⟩ := runs_step h hrun
    refine ⟨run', hrun', ?_⟩
    rw [hchange.ended (by rw [hstate]; rfl), hstate]
  cases payload with
  | build =>
    obtain ⟨run, hrun, hstate⟩ := hI
    obtain ⟨run', hrun', hchange⟩ := runs_step h hrun
    exact ⟨run', hrun', hchange.ne_created hstate⟩
  | install | boot => exact hsucceeded hI
  | _ => trivial

theorem Db.Admits.founded {db : Db} {payload : Payload} (h : db.Admits payload) : db.Founded payload := by
  cases payload with
  | build =>
    obtain ⟨run, hrun, -, hstate⟩ := h
    refine ⟨run, hrun, ?_⟩
    rcases hstate with hstate | hstate <;> rw [hstate] <;> decide
  | install | boot => exact h
  | _ => trivial

section
variable (h : (plane cfg).Reach s)
include h

theorem founded (hjob : s.db.jobs.get id = some job) : s.db.Founded job.payload := by
  have hall := h.always (I := fun s : Plane => ∀ id job, s.db.jobs.get id = some job → s.db.Founded job.payload)
    (fun s hinit id job hjob => by
      rw [get_of_rows_nil hinit.jobs] at hjob
      cases hjob)
    (fun s m s' _ _ hI hs id job' hjob' => by
      rcases row_cases hs hjob' with ⟨job, hjob, hchange⟩ | ⟨-, -, hnew⟩
      · rw [hchange.payload]
        exact founded_step hs (hI id job hjob)
      · exact hnew.admits.founded)
  exact hall id job hjob

theorem held_founded {w : WorkerId} (hjob : (s.workers w).job = some job) : s.db.Founded job.payload := by
  obtain ⟨-, row, hrow, hpayload, -⟩ := holds h hjob
  rw [← hpayload]
  exact founded h hrow

theorem under_build (hjob : s.db.jobs.get job.id = some job) {r : Uuid}
    {cmdline : Option String} (hpayload : job.payload = .build r cmdline) : s.db.Under (.build r) job := by
  have hpair := keyed_paired h hjob
  rw [hpayload] at hpair
  refine ⟨hjob, ?_⟩
  cases hkey : job.dedupKey <;> simp_all [paired]
end

/-! ## The worker of a build -/

/-- A reference that is read back as it was written. -/
def BuildStepResult.Readable (result : BuildStepResult) : Prop :=
  readBack result.kernelRef = result.kernelRef ∧ readBack result.debuginfoRef = result.debuginfoRef

theorem readable_of_load {json : Json} {result : BuildStepResult} (h : load json = some result) : result.Readable := by
  have hread : ∀ value, readBack (optionalStr value) = optionalStr value := by
    intro value
    unfold optionalStr
    split
    · split
      · rfl
      · rename_i hs
        exact readBack_some hs
    · rfl
  unfold load at h
  split at h
  · cases h
    exact ⟨hread _, hread _⟩
  · cases h

/-- Where a worker can be with a build, and where only with another job. -/
def Plane.AtWork (s : Plane) : Worker → Prop
  | .handling job (.building r _) => ∃ cmdline, job.payload = .build r cmdline
  | .handling job (.buildFailed r _) => ∃ cmdline, job.payload = .build r cmdline
  | .handling job (.finalizing r result) =>
    (∃ cmdline, job.payload = .build r cmdline) ∧ result.Readable
  | .handling _ .starting => True
  | .handling job _ => job.payload.kind ≠ .build
  | .returned job (.ok _) => ∀ r cmdline, job.payload = .build r cmdline →
      ∃ run, s.db.runs.get r = some run ∧ run.state.live = false
  | _ => True

variable {w : WorkerId}

theorem Plane.AtWork.keep {x : Worker} (hI : s.AtWork x) (h : s.step cfg m = some s') : s'.AtWork x := by
  cases x with
  | returned job result =>
    cases result with
    | error => trivial
    | ok =>
      intro r cmdline hjob
      obtain ⟨run, hrun, hended⟩ := hI r cmdline hjob
      obtain ⟨run', hrun', hchange⟩ := runs_step h hrun
      rw [hchange.ended hended] at hrun'
      exact ⟨run, hrun', hended⟩
  | handling job stage => cases stage <;> exact hI
  | idle | claimed => trivial

theorem atWork_of_kind {job : JobRow} {ref : Option String} (h : job.payload.kind ≠ .build) :
    s.AtWork (.returned job (.ok ref)) := by
  intro r cmdline hjob
  exact absurd (by rw [hjob]; rfl) h

theorem finalized_ended (hreach : (plane cfg).Reach s) {now : Time} {job : JobRow} {r : Uuid}
    {cmdline : Option String} {result : BuildStepResult}
    (hw : s.workers w = .handling job (.finalizing r result)) (hjob : job.payload = .build r cmdline)
    (h : s.step cfg (.work now w .commits) = some s') :
    ∃ run, s'.db.runs.get r = some run ∧ run.state.live = false := by
  have hheld : (s.workers w).job = some job := by rw [hw]; rfl
  have hfounded := held_founded hreach hheld
  rw [hjob] at hfounded
  obtain ⟨run, hrun, hstate⟩ := hfounded
  have hdb : s'.db = s.db.finalizeBuild r result := by
    simp only [step, work, hw, commits, ite_none_right_eq_some] at h
    rw [← some.inj h.2]
    rfl
  obtain ⟨run', hrun', -⟩ := runs_step h hrun
  refine ⟨run', hrun', ?_⟩
  rw [hdb] at hrun'
  have hrun1 : (s.db.recordBuild r result).runs.get r = some run := hrun
  unfold finalizeBuild at hrun'
  dsimp only at hrun'
  rw [hrun1] at hrun'
  split at hrun'
  · have hself := @Db.get_setRun_self _ r (built result) (fun _ => rfl) run hrun1
    rw [← some.inj (hself.symm.trans hrun')]
    rfl
  · rename_i hne
    rw [hrun1] at hrun'
    cases hrun'
    cases hlive : run.state <;> simp_all [RunState.live]

theorem atWork_step (hreach : (plane cfg).Reach s) (hI : ∀ w, s.AtWork (s.workers w))
    (h : s.step cfg m = some s') (w : WorkerId) : s'.AtWork (s'.workers w) := by
  rcases worker_step h w with hsame | ⟨now, deed, rfl, hnext⟩
  · rw [hsame]
    exact (hI w).keep h
  · have hw := hI w
    generalize hx : s.workers w = x at hnext hw
    generalize hy : s'.workers w = y at hnext
    cases hnext with
    | claims | calls | refuses | raises | finishes | crashes => trivial
    | starts hstarted =>
      cases hstarted with
      | raised => trivial
      | returned hjob => exact atWork_of_kind hjob
      | provisioning _ hjob =>
        rcases hjob with ⟨hjob, -⟩ | ⟨d, hjob, -⟩ <;> simp [Plane.AtWork, hjob, Payload.kind]
      | tearingDown _ hjob =>
        rcases hjob with hjob | ⟨hjob, -⟩ <;> simp [Plane.AtWork, hjob, Payload.kind]
      | crashing hjob => simp [Plane.AtWork, hjob, Payload.kind]
      | finalizing hjob _ hresult =>
        obtain ⟨step, -, hload⟩ := bind_eq_some_iff.mp hresult
        exact ⟨⟨_, hjob⟩, readable_of_load hload⟩
      | building hjob _ => exact ⟨_, hjob⟩
      | elsewhere hjob => exact hjob
    | answers hanswered =>
      cases hanswered with
      | raised => trivial
      | provisioned | crashed | buildFailed => exact hw
      | tornDown | returned => exact atWork_of_kind hw
      | built =>
        exact ⟨hw, readBack_some (artifactKey_ne_empty _ _ _ (by decide)),
          readBack_some (artifactKey_ne_empty _ _ _ (by decide))⟩
    | commits hconcluded =>
      cases hconcluded with
      | tearingDown => exact hw
      | ready | crashed => exact atWork_of_kind hw
      | buildFailed => trivial
      | built =>
        intro r' cmdline' hjob'
        obtain ⟨⟨cmdline, hjob⟩, -⟩ := hw
        obtain ⟨rfl, rfl⟩ := Payload.build.inj (hjob.symm.trans hjob')
        exact finalized_ended hreach hx hjob h

theorem atWork (h : (plane cfg).Reach s) (w : WorkerId) : s.AtWork (s.workers w) := by
  have hall := h.always (I := fun s : Plane => ∀ w, s.AtWork (s.workers w))
    (fun s hinit w => by
      rw [hinit.workers w]
      trivial)
    (fun s m s' hreach _ hI hs w => atWork_step hreach hI hs w)
  exact hall w

theorem finalizing_asked (h : (plane cfg).Reach s) {job : JobRow} {r : Uuid} {result : BuildStepResult}
    (hw : s.workers w = .handling job (.finalizing r result)) :
    (∃ run, s.db.runs.get r = some run ∧ run.state ≠ .created) ∧ result.Readable := by
  have hwork := atWork h w
  rw [hw] at hwork
  obtain ⟨⟨cmdline, hjob⟩, hreadable⟩ := hwork
  have hheld : (s.workers w).job = some job := by rw [hw]; rfl
  have hfounded := held_founded h hheld
  rw [hjob] at hfounded
  exact ⟨hfounded, hreadable⟩

/-! ## What a Run says of its build -/

variable {run : RunRow}

/-- The Run's references are those its build step gives back. -/
def RunRow.Agrees (run : RunRow) (step : Option StepRow) : Prop :=
  ∃ row result, step = some row ∧ row.state = .succeeded ∧
    load row.result = some result ∧ run.kernelRef = result.kernelRef ∧
    run.debuginfoRef = result.debuginfoRef

/-- A build step is there only where the Run is, and has ended; and there it is if it has succeeded. -/
structure Plane.Recorded (s : Plane) : Prop where
  absent : ∀ {id}, s.db.runs.get id = none → s.db.steps.get id = none
  ended : ∀ {id run}, s.db.runs.get id = some run → run.state.live = true → s.db.steps.get id = none
  agrees : ∀ {id run}, s.db.runs.get id = some run → run.state = .succeeded → run.Agrees (s.db.steps.get id)

theorem agrees_built {result : BuildStepResult} (h : result.Readable) :
    (built result run).Agrees (some (buildStep run.id result)) := by
  obtain ⟨result', hload, hkernel, hdebuginfo⟩ := load_dump result
  exact ⟨_, result', rfl, rfl, hload, by rw [hkernel, h.1]; rfl, by rw [hdebuginfo, h.2]; rfl⟩

theorem agrees_externallyBuilt {keyBase buildId cmdline : String} {vmlinux : Bool} {initrd : Option String} :
    (externallyBuilt (uploaded keyBase vmlinux buildId) run).Agrees (some (buildStep run.id
      (externalResult (uploaded keyBase vmlinux buildId) initrd cmdline))) := by
  obtain ⟨result', hload, hkernel, hdebuginfo⟩ := load_dump
    (externalResult (uploaded keyBase vmlinux buildId) initrd cmdline)
  refine ⟨_, result', rfl, rfl, hload, ?_, ?_⟩
  · rw [hkernel]
    exact (readBack_some (append_ne_empty (by decide))).symm
  · rw [hdebuginfo]
    cases vmlinux with
    | false => rfl
    | true =>
      have hne : keyBase ++ "vmlinux" ≠ "" := append_ne_empty (by decide)
      have hread : readBack (some (keyBase ++ "vmlinux")) = some (keyBase ++ "vmlinux") :=
        readBack_some hne
      exact (if_neg hne).trans hread.symm

/-- A Run and its step, kept by each of the ways they change. -/
theorem recorded_change (hreach : (plane cfg).Reach s) (hI : s.Recorded)
    (hrun : s.db.runs.get id = some run) {run' : RunRow} {step' : Option StepRow}
    (h : RunChange s m run (s.db.steps.get id) run' step') :
    (run'.state.live = true → step' = none) ∧ (run'.state = .succeeded → run'.Agrees step') := by
  have hid : run.id = id := key_eq_of_get hrun
  have hended := hI.ended hrun
  have hagrees := hI.agrees hrun
  cases h with
  | same => exact ⟨hended, hagrees⟩
  | started hsource hstate => exact ⟨fun _ => hended (by rw [hstate]; rfl), (by rintro ⟨⟩)⟩
  | uploaded hsource hstate =>
    refine ⟨(by rintro ⟨⟩), fun _ => ?_⟩
    rw [hended (by rw [hstate]; rfl)]
    exact agrees_externallyBuilt
  | canceled | failed | abandoned => exact ⟨(by rintro ⟨⟩), (by rintro ⟨⟩)⟩
  | recorded hm hw =>
    obtain ⟨⟨run1, hrun1, hcreated⟩, -⟩ := finalizing_asked hreach hw
    rw [hid, hrun, some.injEq] at hrun1
    subst hrun1
    refine ⟨fun hlive => ?_, fun hsucceeded => ?_⟩
    · cases hrunState : run.state <;> simp_all [RunState.live]
    · obtain ⟨row, result', hrow, hrest⟩ := hagrees hsucceeded
      rw [hrow]
      exact ⟨row, result', rfl, hrest⟩
  | built hm hw hstate =>
    obtain ⟨-, hreadable⟩ := finalizing_asked hreach hw
    refine ⟨(by rintro ⟨⟩), fun _ => ?_⟩
    rw [hended (by rw [hstate]; rfl)]
    exact agrees_built hreadable

theorem recorded_step (hreach : (plane cfg).Reach s) (hI : s.Recorded) (h : s.step cfg m = some s') : s'.Recorded := by
  -- a Run that was not there, or still is not
  have hnew : ∀ {id}, s.db.runs.get id = none →
      (∃ run', s'.db.runs.get id = some run' ∧ run'.state = .created ∧ s'.db.steps = s.db.steps) ∨
      (s'.db.runs.get id = none ∧ s'.db.steps.get id = none) := by
    intro id hnone
    rcases run_none_step h hnone with hcreated | ⟨hnone', hsteps | ⟨w, job, result, hw⟩⟩
    · exact .inl hcreated
    · exact .inr ⟨hnone', hsteps.trans (hI.absent hnone)⟩
    · obtain ⟨⟨run, hrun, -⟩, -⟩ := finalizing_asked hreach hw
      cases hnone.symm.trans hrun
  have hrow : ∀ {id run'}, s'.db.runs.get id = some run' → (run'.state.live = true → s'.db.steps.get id = none) ∧
      (run'.state = .succeeded → run'.Agrees (s'.db.steps.get id)) := by
    intro id run' hrun'
    cases hrun : s.db.runs.get id with
    | none =>
      rcases hnew hrun with ⟨run1, hrun1, hstate, hsteps⟩ | ⟨hnone, -⟩
      · cases hrun1.symm.trans hrun'
        rw [hsteps, hI.absent hrun, hstate]
        exact ⟨fun _ => rfl, nofun⟩
      · rw [hnone] at hrun'
        cases hrun'
    | some =>
      obtain ⟨run1, hrun1, hchange⟩ := runs_step h hrun
      cases hrun1.symm.trans hrun'
      exact recorded_change hreach hI hrun hchange
  refine ⟨fun {id} hnone' => ?_, fun hrun' => (hrow hrun').1, fun hrun' => (hrow hrun').2⟩
  cases hrun : s.db.runs.get id with
  | none =>
    rcases hnew hrun with ⟨run1, hrun1, -⟩ | ⟨-, hsteps⟩
    · rw [hnone'] at hrun1
      cases hrun1
    · exact hsteps
  | some =>
    obtain ⟨run', hrun', -⟩ := runs_step h hrun
    rw [hnone'] at hrun'
    cases hrun'

theorem recorded (h : (plane cfg).Reach s) : s.Recorded := by
  refine h.always (I := fun s : Plane => s.Recorded) (fun s hinit => ?_)
    (fun s m s' hreach _ hI hs => recorded_step hreach hI hs)
  have hruns := fun id => get_of_rows_nil hinit.runs id
  refine ⟨fun _ => get_of_rows_nil hinit.steps _, fun {id} _ hrun => ?_, fun {id} _ hrun => ?_⟩
  · rw [hruns id] at hrun
    cases hrun
  · rw [hruns id] at hrun
    cases hrun

/-- A Run that has succeeded has the refs of its recorded build step. -/
theorem succeeded_recorded (h : (plane cfg).Reach s) (hrun : s.db.runs.get id = some run)
    (hstate : run.state = .succeeded) :
    ∃ step result, s.db.steps.get id = some step ∧ step.state = .succeeded ∧
      load step.result = some result ∧ run.kernelRef = result.kernelRef ∧
      run.debuginfoRef = result.debuginfoRef :=
  (recorded h).agrees hrun hstate

/-- A Run is created on System 2 and its build is asked for. -/
def buildAsked : List Move :=
  provisioned ++ [.tool 0 (.createRun 7 2 .server), .tool 0 (.build 7 8 none)]

def builds : List Deed := [.answers (.ok "build-id"), .commits]

def built : Plane := after {} (buildAsked ++ runsJob builds)

theorem succeeded_recorded_once : ∃ run step result, built.db.runs.get 7 = some run ∧ run.state = .succeeded ∧
    built.db.steps.get 7 = some step ∧ step.state = .succeeded ∧ load step.result = some result ∧
    run.kernelRef = result.kernelRef ∧ run.debuginfoRef = result.debuginfoRef := by
  obtain ⟨run, hrun, hstate⟩ := map_eq_some_iff.mp
    (show (built.db.runs.get 7).map (·.state) = some .succeeded by decide +kernel)
  obtain ⟨step, result, hrest⟩ := succeeded_recorded (reach_after {} _) hrun hstate
  exact ⟨run, step, result, hrun, hstate, hrest⟩

/-! ## The job of a build and its Run -/

/-- A failed build ends its Run only on the last attempt of the job, and under the worker that has it. -/
def LastFailure (s : Plane) : Move → Prop
  | .work _ w .commits => ∀ job r category, s.workers w = .handling job (.buildFailed r category) →
      (s.db.runs.get r).any (·.state = .running) = true →
      ∃ row, s.db.jobs.get job.id = some row ∧ fenced w row = true ∧ row.maxAttempts ≤ row.attempt
  | _ => True

/-- The job is over, or nothing is left of it but its last failure. -/
def Plane.Lost (s : Plane) (job : JobRow) : Prop :=
  job.state = .failed ∨ job.state = .canceled ∨
  (job.state = .running ∧ job.maxAttempts ≤ job.attempt ∧ ∀ w held, job.workerId = some w →
    (s.workers w).job = some held → held.id = job.id → ∃ c, s.workers w = .returned held (.error c))

/-- What the Run of a BUILD job can be. -/
def Plane.BuildKept (s : Plane) (job : JobRow) : Prop :=
  ∀ r cmdline, job.payload = .build r cmdline → ∀ run, s.db.runs.get r = some run → (run.state = .failed → s.Lost job) ∧
    (job.state = .succeeded → run.state = .succeeded ∨ run.state = .canceled)

theorem lost_step (hreach : (plane cfg).Reach s) (h : s.step cfg m = some s')
    (hjob : s.db.jobs.get job.id = some job) {job' : JobRow} (hchange : RowChange cfg s m job job')
    (hI : s.Lost job) : s'.Lost job' := by
  rcases hI with hstate | hstate | ⟨hstate, hlast, hworker⟩
  · rw [hchange.terminal (by rw [hstate]; rfl)]
    exact .inl hstate
  · rw [hchange.terminal (by rw [hstate]; rfl)]
    exact .inr (.inl hstate)
  · have hnoClaim : ∀ {now locked}, pick s.db.jobs now locked ≠ some job := by
      intro now locked hpick
      have hclaimable := (of_pick hpick).2
      simp only [claimable, and_eq_true, decide_eq_true_eq] at hclaimable
      omega
    -- its worker has failed, and drops it or stays as it is
    have hkeep : ∀ w held, job.workerId = some w → (s'.workers w).job = some held →
        held.id = job.id → ∃ c, s'.workers w = .returned held (.error c) := by
      intro w held hmine hheld hid
      rcases worker_step h w with hsame | ⟨now, deed, rfl, hnext⟩
      · rw [hsame] at hheld ⊢
        exact hworker w held hmine hheld hid
      · rcases hnext.job hheld with hold | ⟨locked, row, rfl, -, hpick, rfl⟩
        · obtain ⟨c, hc⟩ := hworker w held hmine hold hid
          rw [hc] at hnext
          generalize s'.workers w = y at hnext hheld
          cases hnext <;> cases hheld
        · obtain ⟨hrow, -⟩ := of_pick hpick
          have hid : row.id = job.id := hid
          rw [hid, hjob] at hrow
          exact absurd (hpick.trans hrow.symm) hnoClaim
    cases hchange with
    | same | beaten => exact .inr (.inr ⟨hstate, hlast, hkeep⟩)
    | claimed hm hw hpick => exact absurd hpick hnoClaim
    | completed hm hw hid hfence =>
      simp only [fenced, and_eq_true, beq_iff_eq] at hfence
      obtain ⟨c, hc⟩ := hworker _ _ hfence.1 (by rw [hw]; rfl) hid
      cases hw.symm.trans hc
    | deadLettered | abandoned => exact .inl rfl
    | requeued hm hw hid hheld hleft hfence =>
      simp only [fenced, and_eq_true, beq_iff_eq] at hfence
      obtain ⟨hmine, row, hrow, -, hmax, hattempt⟩ := holds hreach hw
      rw [hid, hjob, some.injEq] at hrow
      subst hrow
      have hattempt := hattempt hstate (hfence.1.trans (hheld.symm.trans hmine))
      omega
    | canceled => exact .inr (.inl rfl)

theorem not_lost_of_ok {w : WorkerId} {held : JobRow} {ref : Option String}
    (hw : s.workers w = .returned held (.ok ref)) (hid : held.id = job.id)
    (hfence : fenced w job = true) : ¬ s.Lost job := by
  simp only [fenced, and_eq_true, beq_iff_eq] at hfence
  rintro (hstate | hstate | ⟨-, -, hworker⟩)
  · rw [hstate] at hfence
    cases hfence.2
  · rw [hstate] at hfence
    cases hfence.2
  · obtain ⟨c, hc⟩ := hworker w held hfence.1 (by rw [hw]; rfl) hid
    rw [hw] at hc
    cases hc

theorem run_fails (hreach : (plane cfg).Reach s) (hok : LastFailure s m) (h : s.step cfg m = some s')
    {r : Uuid} {cmdline : Option String} {run run' : RunRow} {step' : Option StepRow}
    (hjob : s.db.jobs.get job.id = some job) (hpayload : job.payload = .build r cmdline)
    (hrun : s.db.runs.get r = some run) (hwas : run.state ≠ .failed)
    (hchange : RunChange s m run (s.db.steps.get r) run' step') (hfailed : run'.state = .failed)
    {job' : JobRow} (hjob' : s'.db.jobs.get job.id = some job') (hrow : RowChange cfg s m job job') : s'.Lost job' := by
  have hid : run.id = r := key_eq_of_get hrun
  have hunder := under_build hreach hjob hpayload
  cases hchange with
  | same | recorded => exact absurd hfailed hwas
  | started | uploaded | canceled | built => cases hfailed
  | failed hm hw hstate =>
    rename_i now w held category
    subst hm
    rw [hid] at hw
    obtain ⟨row, hrowget, hfence, hlast⟩ := hok held r category hw (by rw [hrun]; simpa using hstate)
    have hwork := atWork hreach w
    rw [hw] at hwork
    obtain ⟨cmdline', hheld⟩ := hwork
    -- the failing worker's job is the one job of the Run's build
    obtain ⟨-, row1, hrow1, hrowPayload, -⟩ := holds hreach (show (s.workers w).job = some held by
      rw [hw]; rfl)
    obtain rfl : row1 = row := some.inj (hrow1.symm.trans hrowget)
    have hkey : row1.id = held.id := key_eq_of_get hrow1
    obtain rfl : job = row1 := keyed_unique hreach hunder (under_build hreach (hkey ▸ hrow1) (hrowPayload.trans hheld))
    simp only [fenced, and_eq_true, beq_iff_eq] at hfence
    have hsame : job' = job := by
      cases hrow with
      | same => rfl
      | claimed hm | beaten hm | completed hm | requeued hm | canceled hm | abandoned hm => cases hm
      | deadLettered hm hdeed =>
        cases hm
        rcases hdeed with hdeed | hdeed <;> cases hdeed
    have hafter : s'.workers w = .returned held (.error category) := by
      simp only [step, work, hw, commits, ite_none_right_eq_some] at h
      rw [← some.inj h.2]
      exact Function.update_self ..
    rw [hsame]
    refine .inr (.inr ⟨hfence.2, hlast, ?_⟩)
    intro w' held' hmine hheld' _
    obtain rfl : w = w' := some.inj (hfence.1.symm.trans hmine)
    rw [hafter] at hheld' ⊢
    cases hheld'
    exact ⟨category, rfl⟩
  | abandoned hm hp hjob1 hrunning hrunId hlive =>
    rename_i now pass rest job1
    subst hm
    have hfounded := founded hreach hjob1
    rw [hid] at hrunId
    -- an install or a boot is for a Run that has succeeded
    have hbuild : ∃ cmdline, job1.payload = .build r cmdline := by
      cases hpayload1 : job1.payload <;> rw [hpayload1] at hrunId hfounded <;> cases hrunId
      · exact ⟨_, rfl⟩
      all_goals
        obtain ⟨run1, hrun1, hsucceeded⟩ := hfounded
        cases hrun.symm.trans hrun1
        rw [hsucceeded] at hlive
        cases hlive
    obtain ⟨cmdline1, hpayload1⟩ := hbuild
    obtain rfl : job = job1 := keyed_unique hreach hunder (under_build hreach hjob1 hpayload1)
    have habandoned := row_abandoned h hp hjob hrunning
    cases habandoned.symm.trans hjob'
    exact .inl rfl

theorem buildKept_step (hreach : (plane cfg).Reach s) (hok : LastFailure s m)
    (hI : ∀ job, s.db.jobs.get job.id = some job → s.BuildKept job) (h : s.step cfg m = some s')
    {job' : JobRow} (hjob' : s'.db.jobs.get job'.id = some job') : s'.BuildKept job' := by
  intro r cmdline hpayload' run' hrun'
  rcases row_cases h hjob' with ⟨job, hjob, hchange⟩ | ⟨-, -, hnew⟩
  · have hid : job.id = job'.id := key_eq_of_get hjob
    rw [← hid] at hjob hjob'
    have hpayload := hchange.payload.symm.trans hpayload'
    have hfounded := founded hreach hjob
    rw [hpayload] at hfounded
    obtain ⟨run, hrun, -⟩ := hfounded
    obtain ⟨run1, hrun1, hrunChange⟩ := runs_step h hrun
    obtain rfl : run1 = run' := some.inj (hrun1.symm.trans hrun')
    obtain ⟨hlost, hsucceeded⟩ := hI job hjob r cmdline hpayload run hrun
    constructor
    · intro hfailed
      by_cases hwas : run.state = .failed
      · exact lost_step hreach h hjob hchange (hlost hwas)
      · exact run_fails hreach hok h hjob hpayload hrun hwas hrunChange hfailed hjob' hchange
    · intro hdone
      -- a Run that has ended stays as it is
      have hend : run.state = .succeeded ∨ run.state = .canceled →
          run1.state = .succeeded ∨ run1.state = .canceled := by
        intro hstate
        rwa [hrunChange.ended (by rcases hstate with hstate | hstate <;> rw [hstate] <;> rfl)]
      cases hchange with
      | same | beaten => exact hend (hsucceeded hdone)
      | completed hm hw hheld hfence =>
        rename_i now w held ref
        have hwork := atWork hreach w
        rw [hw] at hwork
        obtain ⟨-, row, hrow, hrowPayload, -⟩ := holds hreach (show (s.workers w).job = some held by
          rw [hw]; rfl)
        rw [hheld, hjob, some.injEq] at hrow
        subst hrow
        obtain ⟨run2, hrun2, hended⟩ := hwork r cmdline (hrowPayload.symm.trans hpayload)
        cases hrun.symm.trans hrun2
        refine hend ?_
        exact RunState.of_not_live hended fun hfailed =>
          not_lost_of_ok hw hheld hfence (hlost hfailed)
      | claimed | deadLettered | requeued | canceled | abandoned => cases hdone
  · have hadm := hnew.admits
    rw [hpayload'] at hadm
    obtain ⟨run, hrun, -, hstate⟩ := hadm
    rw [hrun', some.injEq] at hrun
    subst hrun
    refine ⟨fun hfailed => ?_, fun hdone => ?_⟩
    · rcases hstate with hstate | hstate <;> rw [hstate] at hfailed <;> cases hfailed
    · rw [hnew.fresh.state] at hdone
      cases hdone

/-- Behind a build job that has succeeded is a Run that has, or that was canceled. -/
theorem built_or_canceled (h : (plane cfg).ReachBy LastFailure s) {r : Uuid} {cmdline : Option String}
    (hjob : s.db.jobs.get job.id = some job) (hpayload : job.payload = .build r cmdline)
    (hstate : job.state = .succeeded) :
    ∃ run, s.db.runs.get r = some run ∧ (run.state = .succeeded ∨ run.state = .canceled) := by
  have hall := h.always (I := fun s : Plane => ∀ job, s.db.jobs.get job.id = some job → s.BuildKept job)
    (fun s hinit job hjob => by
      rw [get_of_rows_nil hinit.jobs] at hjob
      cases hjob)
    (fun s m s' hreach hok hI hs job' hjob' => buildKept_step hreach.reach hok hI hs hjob')
  have hfounded := founded h.reach hjob
  rw [hpayload] at hfounded
  obtain ⟨run, hrun, -⟩ := hfounded
  exact ⟨run, hrun, (hall job hjob r cmdline hpayload run hrun).2 hstate⟩

def noFailure (s : Plane) : Move → Bool
  | .work _ w .commits => match s.workers w with
    | .handling _ (.buildFailed _ _) => false
    | _ => true
  | _ => true

theorem lastFailure_of_noFailure (s : Plane) (m : Move) (h : noFailure s m = true) : LastFailure s m := by
  unfold LastFailure
  split
  · intro job r category hw
    simp [noFailure, hw] at h
  · trivial

theorem built_or_canceled_once : ∃ job run, built.db.jobs.get 8 = some job ∧ job.state = .succeeded ∧
    built.db.runs.get 7 = some run ∧ (run.state = .succeeded ∨ run.state = .canceled) := by
  have hleads : (plane {}).Leads (fun s m => noFailure s m = true) fresh built := Machine.leads_runTo (by decide +kernel)
  have hreach := Machine.ReachBy.mono lastFailure_of_noFailure (.leads (.init fresh_init) hleads)
  obtain ⟨job, hjob, hstate⟩ := map_eq_some_iff.mp
    (show (built.db.jobs.get 8).map (fun job => (job.state, job.payload)) = some (.succeeded, .build 7 none) by
      decide +kernel)
  rw [Prod.mk.injEq] at hstate
  have hid : job.id = 8 := key_eq_of_get hjob
  obtain ⟨run, hrun, hended⟩ := built_or_canceled hreach (hid ▸ hjob) hstate.2 hstate.1
  exact ⟨job, run, hjob, hstate.1, hrun, hended⟩

/-- The first attempt fails, and the second succeeds. -/
def failsOnce : List Move :=
  buildAsked ++ runsJob [.answers (.error .buildFailure), .commits] ++ runsJob builds

/-- The job has succeeded, the Run has failed. -/
theorem failed_build_succeeds : (plane {}).Reach (after {} failsOnce) ∧
    ((after {} failsOnce).db.jobs.get 8).map (fun job => (job.state, job.payload)) =
      some (.succeeded, .build 7 none) ∧
    ((after {} failsOnce).db.runs.get 7).map (·.state) = some .failed :=
  ⟨reach_after {} failsOnce, by decide +kernel, by decide +kernel⟩
end Kdive.Jobs
