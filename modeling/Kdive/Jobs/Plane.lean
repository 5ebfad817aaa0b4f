import Kdive.Jobs.Queue
import Kdive.Jobs.Steps
import Kdive.Lib.Machine

/-! # The job plane

The tools that enqueue jobs, the workers, the handlers of the jobs that move a System or build a Run, the provider, and
the reconciler's repairs, as one machine. A move is one transaction, or one answer of the provider: each row it writes
is locked from the statement that last read it to the commit, and the transactions that move the same System, or Run,
wait for each other's advisory lock. `provision`, `reprovision` and `build` run in the transaction their first read has
opened, so what they do after the provider's answer is committed when they return, and what a failing one has recorded
is undone, except where `_build_and_record` commits itself. A worker that has lost its job goes on with it. A crash
loses the process, not the rows. Any operation may raise.
-/

namespace Kdive.Jobs
open Lib Queue Function

/-- The name of a domain: the one of a System, `kdive-<system id>`, or any other. -/
inductive DomainName where
  | system (id : Uuid)
  | foreign (name : String)
  deriving DecidableEq

def domainNameFor (systemId : Uuid) : DomainName := .system systemId

def systemIdFromDomainName : DomainName → Option Uuid
  | .system id => some id
  | .foreign _ => none

/-- `OwnedDomain`: a domain and its metadata tag. -/
structure Domain where
  name : DomainName
  systemId : Option Uuid
  deriving DecidableEq

/-- `domain.system_id or system_id_from_domain_name(domain.name)`. -/
def Domain.owner (d : Domain) : Option Uuid := d.systemId.or (systemIdFromDomainName d.name)

structure AllocationRow where
  id : Uuid
  state : AllocationState := .granted

structure SystemRow where
  id : Uuid
  allocationId : Uuid
  state : SystemState
  provisioningProfile : String
  domainName : Option DomainName := none
  deriving DecidableEq

/-- Where a Run's kernel comes from: the profile is a `ServerBuildProfile` or an
    `ExternalBuildProfile`. -/
inductive BuildSource where
  | server | external
  deriving DecidableEq

structure RunRow where
  id : Uuid
  systemId : Uuid
  source : BuildSource
  state : RunState := .created
  kernelRef : Option String := none
  debuginfoRef : Option String := none
  failureCategory : Option ErrorCategory := none

inductive StepState where
  | running | succeeded
  deriving DecidableEq

structure StepRow where
  runId : Uuid
  state : StepState
  result : Json

instance : Keyed AllocationRow Uuid := ⟨AllocationRow.id⟩
instance : Keyed SystemRow Uuid := ⟨SystemRow.id⟩
instance : Keyed RunRow Uuid := ⟨RunRow.id⟩
instance : Keyed StepRow Uuid := ⟨StepRow.runId⟩

structure Db where
  jobs : JobTable := Table.empty
  allocations : Table AllocationRow := Table.empty
  systems : Table SystemRow := Table.empty
  runs : Table RunRow := Table.empty
  steps : Table StepRow := Table.empty
  queuePaused : Bool := false

namespace Db
/-! ## Tools -/

def enqueue (db : Db) (jobId : Uuid) (now : Time) (payload : Payload) (key : DedupKey)
    (maxAttempts : Nat := defaultMaxAttempts) : Option Db :=
  if db.jobs.get jobId = none then
    match Queue.enqueue db.jobs jobId now payload key maxAttempts with
    | .ok (jobs, _) => some { db with jobs }
    | .error _ => none
  else none

def setSystem (db : Db) (id : Uuid) (f : SystemRow → SystemRow) (hf : ∀ s, (f s).id = s.id) : Db :=
  { db with systems := db.systems.modify id f hf }

def setRun (db : Db) (id : Uuid) (f : RunRow → RunRow) (hf : ∀ r, (f r).id = r.id) : Db :=
  { db with runs := db.runs.modify id f hf }

def setAllocation (db : Db) (id : Uuid) (state : AllocationState) : Db :=
  { db with allocations := db.allocations.modify id ({ · with state }) (fun _ => rfl) }

/-- `_find_system_for_allocation`. -/
def systemOf (db : Db) (allocationId : Uuid) : Option SystemRow :=
  db.systems.rows.find? (·.allocationId = allocationId)

/-- `_insert_system_and_activate`, for an allocation that is granted. -/
def insertSystem (db : Db) (allocationId systemId : Uuid) (profile : String) (state : SystemState) : Option Db :=
  if (db.allocations.get allocationId).any (·.state = .granted) ∧ db.systems.get systemId = none then
    some { db.setAllocation allocationId .active with
      systems := db.systems.insert { id := systemId, allocationId, state, provisioningProfile := profile } }
  else none

/-- `_provision_create_response`. -/
def provision (db : Db) (now : Time) (allocationId systemId jobId : Uuid) (profile : String) : Option Db :=
  match db.systemOf allocationId with
  | none => (db.insertSystem allocationId systemId profile .provisioning).bind
      (·.enqueue jobId now (.provision systemId) (.provision allocationId))
  | some existing =>
    if existing.state = .provisioning then
      db.enqueue jobId now (.provision existing.id) (.provision allocationId)
    else none

/-- `_define_create_response`. -/
def define (db : Db) (allocationId systemId : Uuid) (profile : String) : Option Db :=
  match db.systemOf allocationId with
  | none => db.insertSystem allocationId systemId profile .defined
  | some _ => none

/-- `_provision_defined_response`. -/
def provisionDefined (db : Db) (now : Time) (systemId jobId : Uuid) : Option Db :=
  match db.systems.get systemId with
  | none => none
  | some system =>
    if system.state = .provisioning then
      db.enqueue jobId now (.provision systemId) (.provision system.allocationId)
    else if system.state = .defined ∧
        (db.allocations.get system.allocationId).any (·.state = .active) then
      (db.setSystem systemId ({ · with state := .provisioning }) (fun _ => rfl)).enqueue jobId now
        (.provision systemId) (.provision system.allocationId)
    else none

def hasLiveRun (db : Db) (systemId : Uuid) : Bool :=
  db.runs.rows.any fun run => run.systemId = systemId && run.state.live

/-- `_reprovision_locked`, where it changes something. -/
def reprovision (db : Db) (now : Time) (systemId jobId : Uuid) (profile digest : String) : Option Db :=
  match db.systems.get systemId with
  | none => none
  | some system =>
    if system.state = .ready ∧ db.hasLiveRun systemId = false then
      (db.setSystem systemId
          ({ · with state := .reprovisioning, provisioningProfile := profile }) (fun _ => rfl)).enqueue
        jobId now (.reprovision systemId digest) (.reprovision systemId digest)
    else none

/-- `teardown_system`, and `_teardown_locked` of `breakglass.py`. -/
def teardown (db : Db) (now : Time) (systemId jobId : Uuid) : Option Db :=
  match db.systems.get systemId with
  | none => none
  | some system =>
    if system.state = .tornDown then none
    else db.enqueue jobId now (.teardown systemId) (.teardown systemId)

/-- `force_crash_system`. It reads the state first and enqueues later, without a lock. -/
def forceCrash (db : Db) (now : Time) (systemId jobId : Uuid) : Option Db :=
  match db.systems.get systemId with
  | none => none
  | some _ => db.enqueue jobId now (.forceCrash systemId) (.forceCrash systemId)

/-- `_create_locked` of `runs/create.py`. -/
def createRun (db : Db) (runId systemId : Uuid) (source : BuildSource) : Option Db :=
  match db.systems.get systemId with
  | none => none
  | some system =>
    if system.state = .ready ∧ (db.allocations.get system.allocationId).any (·.state = .active) ∧
        db.hasLiveRun systemId = false ∧ db.runs.get runId = none then
      some { db with runs := db.runs.insert { id := runId, systemId, source } }
    else none

/-- `_build_locked`, for a server build. -/
def build (db : Db) (now : Time) (runId jobId : Uuid) (cmdline : Option String) : Option Db :=
  match db.runs.get runId with
  | none => none
  | some run =>
    if run.source = .server ∧ run.state ≠ .failed ∧ run.state ≠ .canceled then
      let db := if run.state = .created then
          db.setRun runId ({ · with state := .running }) (fun _ => rfl) else db
      db.enqueue jobId now (.build runId cmdline) (.build runId)
    else none

/-- `_enqueue_step` of `runs.install`; and of `runs.boot`, which asks for the install step besides. -/
def runStep (db : Db) (now : Time) (runId jobId : Uuid) (payload : Payload) (key : DedupKey) : Option Db :=
  if (db.runs.get runId).any (·.state = .succeeded) then db.enqueue jobId now payload key else none

def buildStep (runId : Uuid) (result : BuildStepResult) : StepRow :=
  { runId, state := .succeeded, result := result.dump }

/-- `INSERT INTO run_steps … ON CONFLICT (run_id, step) DO NOTHING`. -/
def recordBuild (db : Db) (runId : Uuid) (result : BuildStepResult) : Db :=
  { db with steps := db.steps.insert (buildStep runId result) }

/-- `validate_external_artifacts`: the output of an upload whose objects are found in order. -/
def uploaded (keyBase : String) (vmlinux : Bool) (buildId : String) : BuildOutput :=
  { kernelRef := keyBase ++ "kernel"
    debuginfoRef := if vmlinux then keyBase ++ "vmlinux" else ""
    buildId := if vmlinux then buildId else "" }

/-- The step result of an external build. -/
def externalResult (output : BuildOutput) (initrd : Option String) (cmdline : String) : BuildStepResult :=
  { kernelRef := some output.kernelRef, debuginfoRef := some output.debuginfoRef
    initrdRef := initrd, buildId := some output.buildId, cmdline := some cmdline }

def externallyBuilt (output : BuildOutput) (run : RunRow) : RunRow :=
  { run with
    kernelRef := some output.kernelRef
    debuginfoRef := if output.debuginfoRef = "" then none else some output.debuginfoRef
    state := .succeeded }

/-- `_finalize_external_build`, where it changes something. -/
def completeBuild (db : Db) (runId : Uuid) (output : BuildOutput) (initrd : Option String)
    (cmdline : String) : Option Db :=
  match db.runs.get runId with
  | none => none
  | some run =>
    if run.source = .external ∧ run.state = .created then
      some ((db.recordBuild runId (externalResult output initrd cmdline)).setRun runId
        (externallyBuilt output) (fun _ => rfl))
    else none

def cancelRun (db : Db) (runId : Uuid) : Option Db :=
  if (db.runs.get runId).any (·.state.canTransition .canceled) then
    some (db.setRun runId ({ · with state := .canceled }) (fun _ => rfl))
  else none

/-! ## What the handlers commit -/

/-- The transaction after the provider's answer: the System is made ready if it is found in the state
    its job left it in. Also the state it is found in. -/
def commitReady (expected : SystemState) (db : Db) (systemId : Uuid) (name : DomainName) : Db × Option SystemState :=
  match db.systems.get systemId with
  | none => (db, none)
  | some row =>
    (if row.state = expected then
      db.setSystem systemId ({ · with state := .ready, domainName := some name }) (fun _ => rfl)
    else db, some row.state)

def commitProvisionResult := commitReady .provisioning

/-- The same of `reprovision_handler`. -/
def commitReprovisionResult := commitReady .reprovisioning

/-- The transaction of `teardown_handler`: the name of the domain to destroy. -/
def markTornDown (db : Db) (systemId : Uuid) : Except Err (Db × Option DomainName) :=
  match db.systems.get systemId with
  | none => .ok (db, none)
  | some system =>
    let name := system.domainName.getD (domainNameFor systemId)
    if system.state = .tornDown then .ok (db, some name)
    else match system.state.ensureTransition .tornDown with
      | .error e => .error e
      | .ok _ =>
        .ok (db.setSystem systemId ({ · with state := .tornDown }) (fun _ => rfl), some name)

def finalizeForceCrash (db : Db) (systemId : Uuid) : Db :=
  if (db.systems.get systemId).any (·.state = .ready) then
    db.setSystem systemId ({ · with state := .crashed }) (fun _ => rfl)
  else db

def failBuild (db : Db) (runId : Uuid) (category : ErrorCategory) : Db :=
  if (db.runs.get runId).any (·.state = .running) then
    db.setRun runId ({ · with state := .failed, failureCategory := some category }) (fun _ => rfl)
  else db

def existingBuildResult (db : Db) (runId : Uuid) : Option BuildStepResult :=
  (db.steps.get runId).bind fun step => BuildStepResult.load step.result

def built (result : BuildStepResult) (run : RunRow) : RunRow :=
  { run with
    kernelRef := result.kernelRef, debuginfoRef := result.debuginfoRef, state := .succeeded }

def finalizeBuild (db : Db) (runId : Uuid) (result : BuildStepResult) : Db :=
  let db := db.recordBuild runId result
  if (db.runs.get runId).any (·.state = .running) then
    db.setRun runId (built result) (fun _ => rfl)
  else db

/-! ## What the reconciler commits -/

def zombies (db : Db) (now : Time) : List Uuid :=
  (db.jobs.rows.filter (zombie now)).map (·.id)

def compensate (db : Db) (payload : Payload) : Db :=
  match payload.runId with
  | none => db
  | some runId =>
    if (db.runs.get runId).any (·.state.live) then
      db.setRun runId ({ · with state := .failed, failureCategory := some .leaseExpired }) (fun _ => rfl)
    else db

def abandon (db : Db) (jobId : Uuid) : Db :=
  match Queue.abandon db.jobs jobId with
  | (_, none) => db
  | (jobs, some job) => { db with jobs }.compensate job.payload

/-- The System's allocation is `released`, `expired` or `failed`. -/
def allocationGone (db : Db) (system : SystemRow) : Bool :=
  (db.allocations.get system.allocationId).any (·.state.terminal)

def orphans (db : Db) : List Uuid :=
  (db.systems.rows.filter fun system => !system.state.terminal && db.allocationGone system).map (·.id)

def repairOrphan (db : Db) (now : Time) (jobId systemId : Uuid) : Option Db :=
  match db.systems.get systemId with
  | none => some db
  | some system =>
    if system.state.terminal then some db
    else db.enqueue jobId now (.teardown systemId) (.teardown systemId)

/-- The check of `repair_leaked_domains`: no live row, and no teardown in flight. -/
def leaked (db : Db) (systemId : Uuid) : Bool :=
  !(db.systems.get systemId).any (·.state ≠ .tornDown) &&
    !db.jobs.rows.any fun job => !job.state.terminal && job.payload = .teardown systemId
end Db

/-! ## The machine -/

inductive Stage where
  /-- Called, nothing read yet. -/
  | starting
  /-- `provisioner.provision` or `provisioner.reprovision` is running. -/
  | provisioning (system : SystemRow)
  /-- It has returned the name of the domain. -/
  | provisioned (system : SystemRow) (name : DomainName)
  /-- `provisioner.teardown` is running; the handler returns after it. -/
  | tearingDown (systemId : Uuid) (name : DomainName)
  /-- `control.force_crash` is running. -/
  | crashing
  | crashed
  /-- `run_build_on_host` is running. -/
  | building (runId : Uuid) (cmdline : Option String)
  /-- It has raised a `CategorizedError`. -/
  | buildFailed (runId : Uuid) (category : ErrorCategory)
  /-- There is a result to record. -/
  | finalizing (runId : Uuid) (result : BuildStepResult)
  /-- A handler of which nothing is kept here. -/
  | elsewhere

/-- A worker: `run_once`, which dispatches one job at a time. -/
inductive Worker where
  | idle
  | claimed (job : JobRow)
  | handling (job : JobRow) (stage : Stage)
  | returned (job : JobRow) (result : Except ErrorCategory (Option String))

/-- A pass of `repair_leaked_domains`: the domains it has still to look at, and the one it is about to
    destroy. -/
structure Reaper where
  pending : List Domain
  doomed : Option Domain := none
  deriving DecidableEq

structure Plane where
  db : Db
  clock : Time
  domains : List Domain
  workers : WorkerId → Worker
  /-- The passes of `repair_abandoned_jobs` under way: the jobs left of each. -/
  sweeps : Nat → List Uuid
  /-- The passes of `repair_orphaned_systems`: the Systems left of each. -/
  orphanages : Nat → List Uuid
  reapers : Nat → Option Reaper

structure Config where
  lease : Time := defaultLease
  /-- `registry.get(kind)` is not `None`. -/
  registered : JobKind → Bool := fun _ => true
  /-- `profile_digest`. -/
  digest : String → String := id
  tenant : String := "local"

/-- The calls of the tools, and what becomes of allocations. -/
inductive Call where
  | allocate (allocationId : Uuid)
  /-- Releases, expiries and failures of allocations. -/
  | allocationTo (allocationId : Uuid) (state : AllocationState)
  | provision (allocationId systemId jobId : Uuid) (profile : String)
  | define (allocationId systemId : Uuid) (profile : String)
  | provisionDefined (systemId jobId : Uuid)
  | reprovision (systemId jobId : Uuid) (profile : String)
  | teardown (systemId jobId : Uuid)
  | forceCrash (systemId jobId : Uuid)
  | createRun (runId systemId : Uuid) (source : BuildSource)
  | build (runId jobId : Uuid) (cmdline : Option String)
  | install (runId jobId : Uuid)
  | boot (runId jobId : Uuid)
  | completeBuild (runId : Uuid) (keyBase : String) (vmlinux : Bool) (buildId : String)
      (initrd : Option String) (cmdline : String)
  /-- No tool does it, but the table of transitions allows it. -/
  | cancelRun (runId : Uuid)
  /-- The kinds whose payload is not modelled. -/
  | enqueueOther (payload : Payload) (key : String) (jobId : Uuid) (maxAttempts : Nat)
  | cancelJob (jobId : Uuid)
  | setQueuePaused (paused : Bool)

/-- What a worker, its handler, or whoever the handler waits for does. -/
inductive Deed where
  | dequeue (locked : Uuid → Bool)
  /-- `registry.get(job.kind)`, and the handler's call. -/
  | dispatch
  | heartbeat
  /-- The handler's reads; `resolved`: a provider runtime is found. -/
  | starts (resolved : Bool)
  /-- The provider defines the domain on its way, tagged or not. -/
  | defines (tagged : Bool)
  /-- The provider takes it down on its way. -/
  | undefines
  /-- The provider, the builder or the controller answers; a builder with a build id. -/
  | answers (answer : Except ErrorCategory String)
  /-- The handler's transaction after the answer. -/
  | commits
  | raises (category : ErrorCategory)
  /-- `queue.complete` or `queue.fail`. -/
  | finishes
  | crashes

/-- What a pass of the reconciler does. -/
inductive Repair where
  | sweep
  | abandons
  | listOrphans
  | repairsOrphan (jobId : Uuid)
  | listOwned
  | checks
  | destroys (succeeds : Bool)
  /-- The process ends, wherever it is. -/
  | stops

/-- A move: time passes, or something is done in a transaction that began at `now`. -/
inductive Move where
  | wait (d : Nat)
  | tool (now : Time) (call : Call)
  | work (now : Time) (w : WorkerId) (deed : Deed)
  | repair (now : Time) (pass : Nat) (r : Repair)

namespace Plane
variable (s : Plane)

def set (w : WorkerId) (x : Worker) : Plane := { s with workers := update s.workers w x }

def withDb (db : Db) : Plane := { s with db }

def define (systemId : Uuid) (tagged : Bool) : Plane :=
  if s.domains.any (·.name = domainNameFor systemId) then s
  else { s with
    domains := s.domains ++ [{ name := domainNameFor systemId, systemId := if tagged then some systemId else none }] }

/-- The provider destroys the domain of that name. -/
def destroy (name : DomainName) : Plane := { s with domains := s.domains.filter (·.name ≠ name) }

/-- What a handler does from its call to the first answer it waits for. -/
def starts (w : WorkerId) (job : JobRow) (resolved : Bool) : Plane :=
  let goes (stage : Stage) := s.set w (.handling job stage)
  let returns (ref : Option String) := s.set w (.returned job (.ok ref))
  let raises (category : ErrorCategory) := s.set w (.returned job (.error category))
  match job.payload with
  | .provision systemId =>
    match s.db.systems.get systemId with
    | none => raises .infrastructureFailure
    | some system =>
      if !resolved then raises .configurationError
      else if system.state = .provisioning then goes (.provisioning system)
      else if system.state.terminal then
        goes (.tearingDown systemId (system.domainName.getD (domainNameFor systemId)))
      else returns (some (toString systemId))
  | .reprovision systemId _ =>
    match s.db.systems.get systemId with
    | none => raises .infrastructureFailure
    | some system =>
      if !resolved then raises .configurationError
      else if system.state = .reprovisioning then goes (.provisioning system)
      else returns (some (toString systemId))
  | .teardown systemId =>
    match s.db.markTornDown systemId with
    | .error _ => raises .infrastructureFailure
    | .ok (_, none) => returns none
    | .ok (db, some name) =>
      let s := s.withDb db
      if !resolved then s.set w (.returned job (.error .configurationError))
      else s.set w (.handling job (.tearingDown systemId name))
  | .forceCrash systemId =>
    match s.db.systems.get systemId with
    | none => raises .infrastructureFailure
    | some system =>
      if system.state.terminal then returns (some (toString systemId))
      else if !resolved then raises .configurationError
      else goes .crashing
  | .build runId cmdline =>
    match s.db.runs.get runId with
    | none => raises .infrastructureFailure
    | some run =>
      if run.source ≠ .server then raises .configurationError
      else match s.db.existingBuildResult runId with
        | some result => goes (.finalizing runId result)
        | none => goes (.building runId cmdline)
  | _ => goes .elsewhere

def answers (cfg : Config) (w : WorkerId) (job : JobRow) (answer : Except ErrorCategory String) : Stage → Option Plane
  | .provisioning system => some (match answer with
    | .ok _ => s.set w (.handling job (.provisioned system (domainNameFor system.id)))
    -- `_record_system_failure` is a savepoint of the transaction the exception rolls back
    | .error category => s.set w (.returned job (.error category)))
  | .tearingDown systemId name => some (match answer with
    | .ok _ => (s.destroy name).set w (.returned job (.ok (some (toString systemId))))
    | .error category => s.set w (.returned job (.error category)))
  | .crashing => some (match answer with
    | .ok _ => s.set w (.handling job .crashed)
    | .error category => s.set w (.returned job (.error category)))
  | .building runId cmdline => some (match answer with
    | .ok buildId => s.set w (.handling job (.finalizing runId
        { kernelRef := some (artifactKey cfg.tenant "runs" runId "kernel")
          debuginfoRef := some (artifactKey cfg.tenant "runs" runId "vmlinux")
          buildId := some buildId, cmdline }))
    | .error category => s.set w (.handling job (.buildFailed runId category)))
  | .elsewhere => some (match answer with
    | .ok ref => s.set w (.returned job (.ok (some ref)))
    | .error category => s.set w (.returned job (.error category)))
  | _ => none

def commits (w : WorkerId) (job : JobRow) : Stage → Option Plane
  | .provisioned system name =>
    let (db, current) := match job.payload with
      | .reprovision _ _ => s.db.commitReprovisionResult system.id name
      | _ => s.db.commitProvisionResult system.id name
    let s := s.withDb db
    if current.any (·.terminal) then some (s.set w (.handling job (.tearingDown system.id name)))
    else some (s.set w (.returned job (.ok (some (toString system.id)))))
  | .crashed =>
    match job.payload with
    | .forceCrash systemId => some ((s.withDb (s.db.finalizeForceCrash systemId)).set w
        (.returned job (.ok (some (toString systemId)))))
    | _ => none
  | .buildFailed runId category =>
    some ((s.withDb (s.db.failBuild runId category)).set w (.returned job (.error category)))
  | .finalizing runId result =>
    some ((s.withDb (s.db.finalizeBuild runId result)).set w (.returned job (.ok (some (toString runId)))))
  | _ => none

def work (cfg : Config) (now : Time) (w : WorkerId) : Deed → Option Plane
  | .dequeue locked =>
    match s.workers w with
    | .idle =>
      if s.db.queuePaused then none
      else match dequeue s.db.jobs w now cfg.lease locked with
        | (_, none) => none
        | (jobs, some job) => some ((s.withDb { s.db with jobs }).set w (.claimed job))
    | _ => none
  | .dispatch =>
    match s.workers w with
    | .claimed job =>
      if cfg.registered job.payload.kind then some (s.set w (.handling job .starting))
      else some ((s.withDb { s.db with
        jobs := (fail s.db.jobs job .notImplemented true).1 }).set w .idle)
    | _ => none
  | .heartbeat =>
    match s.workers w with
    | .handling job _ | .returned job _ => some (s.withDb { s.db with
        jobs := (heartbeat s.db.jobs job.id w now cfg.lease).1 })
    | _ => none
  | .starts resolved =>
    match s.workers w with
    | .handling job .starting => some (s.starts w job resolved)
    | _ => none
  | .defines tagged =>
    match s.workers w with
    | .handling _ (.provisioning system) => some (s.define system.id tagged)
    | _ => none
  | .undefines =>
    match s.workers w with
    | .handling _ (.provisioning system) => some (s.destroy (domainNameFor system.id))
    | _ => none
  | .answers answer =>
    match s.workers w with
    | .handling job stage => s.answers cfg w job answer stage
    | _ => none
  | .commits =>
    match s.workers w with
    | .handling job stage => s.commits w job stage
    | _ => none
  | .raises category =>
    match s.workers w with
    | .handling job _ => some (s.set w (.returned job (.error category)))
    | _ => none
  | .finishes =>
    match s.workers w with
    | .returned job (.ok ref) => some ((s.withDb { s.db with
        jobs := (complete s.db.jobs job.id w ref).1 }).set w .idle)
    | .returned job (.error category) => some ((s.withDb { s.db with
        jobs := (fail s.db.jobs job category false).1 }).set w .idle)
    | _ => none
  | .crashes => some (s.set w .idle)

def repair (now : Time) (pass : Nat) : Repair → Option Plane
  | .sweep => some { s with sweeps := update s.sweeps pass (s.db.zombies now) }
  | .abandons =>
    match s.sweeps pass with
    | [] => none
    | jobId :: rest => some { s with
        db := s.db.abandon jobId, sweeps := update s.sweeps pass rest }
  | .listOrphans =>
    some { s with orphanages := update s.orphanages pass s.db.orphans }
  | .repairsOrphan jobId =>
    match s.orphanages pass with
    | [] => none
    | systemId :: rest => (s.db.repairOrphan now jobId systemId).map fun db =>
        { s with db, orphanages := update s.orphanages pass rest }
  | .listOwned =>
    some { s with reapers := update s.reapers pass (some { pending := s.domains }) }
  | .checks =>
    match s.reapers pass with
    | some ⟨d :: rest, none⟩ =>
      let doomed := if d.owner.any s.db.leaked then some d else none
      some { s with reapers := update s.reapers pass (some ⟨rest, doomed⟩) }
    | _ => none
  | .destroys succeeds =>
    match s.reapers pass with
    | some ⟨pending, some d⟩ =>
      let s := if succeeds then s.destroy d.name else s
      some { s with reapers := update s.reapers pass (some ⟨pending, none⟩) }
    | _ => none
  | .stops => some { s with
      sweeps := update s.sweeps pass [], orphanages := update s.orphanages pass []
      reapers := update s.reapers pass none }

def tool (cfg : Config) (db : Db) (now : Time) : Call → Option Db
  | .allocate allocationId =>
    if db.allocations.get allocationId = none then
      some { db with allocations := db.allocations.insert { id := allocationId } }
    else none
  | .allocationTo allocationId state =>
    if state ≠ .active ∧ (db.allocations.get allocationId).any (·.state.canTransition state) then
      some (db.setAllocation allocationId state)
    else none
  | .provision allocationId systemId jobId profile =>
    db.provision now allocationId systemId jobId profile
  | .define allocationId systemId profile => db.define allocationId systemId profile
  | .provisionDefined systemId jobId => db.provisionDefined now systemId jobId
  | .reprovision systemId jobId profile =>
    db.reprovision now systemId jobId profile (cfg.digest profile)
  | .teardown systemId jobId => db.teardown now systemId jobId
  | .forceCrash systemId jobId => db.forceCrash now systemId jobId
  | .createRun runId systemId source => db.createRun runId systemId source
  | .build runId jobId cmdline => db.build now runId jobId cmdline
  | .install runId jobId => db.runStep now runId jobId (.install runId) (.install runId)
  | .boot runId jobId => db.runStep now runId jobId (.boot runId) (.boot runId)
  | .completeBuild runId keyBase vmlinux buildId initrd cmdline =>
    db.completeBuild runId (Db.uploaded keyBase vmlinux buildId) initrd cmdline
  | .cancelRun runId => db.cancelRun runId
  | .enqueueOther payload key jobId maxAttempts =>
    if payload = .power ∨ payload = .captureVmcore ∨ payload = .imageBuild then
      db.enqueue jobId now payload (.other key) maxAttempts
    else none
  | .cancelJob jobId => some { db with jobs := (cancel db.jobs jobId).1 }
  | .setQueuePaused paused => some { db with queuePaused := paused }

def step (cfg : Config) : Move → Option Plane
  | .wait d => some { s with clock := s.clock + d }
  | .tool now call => if now ≤ s.clock then (tool cfg s.db now call).map s.withDb else none
  | .work now w deed => if now ≤ s.clock then s.work cfg now w deed else none
  | .repair now pass r => if now ≤ s.clock then s.repair now pass r else none

structure Init : Prop where
  jobs : s.db.jobs.rows = []
  allocations : s.db.allocations.rows = []
  systems : s.db.systems.rows = []
  runs : s.db.runs.rows = []
  steps : s.db.steps.rows = []
  domains : ∀ d ∈ s.domains, d.owner = none
  workers : ∀ w, s.workers w = .idle
  sweeps : ∀ p, s.sweeps p = []
  orphanages : ∀ p, s.orphanages p = []
  reapers : ∀ p, s.reapers p = none

def fresh : Plane where
  db := {}
  clock := 0
  domains := []
  workers := fun _ => .idle
  sweeps := fun _ => []
  orphanages := fun _ => []
  reapers := fun _ => none

theorem fresh_init : fresh.Init where
  jobs := rfl
  allocations := rfl
  systems := rfl
  runs := rfl
  steps := rfl
  domains := fun _ hd => absurd hd (List.not_mem_nil)
  workers := fun _ => rfl
  sweeps := fun _ => rfl
  orphanages := fun _ => rfl
  reapers := fun _ => rfl
end Plane

def plane (cfg : Config) : Machine where
  State := Plane
  Move := Move
  init := Plane.Init
  step := fun s m => s.step cfg m

section
variable {cfg : Config} {ok : Plane → Move → Prop} {s s' s'' : Plane} {m : Move}

theorem Plane.reach_step (h : (plane cfg).ReachBy ok s) (hok : ok s m) (hs : s.step cfg m = some s') :
    (plane cfg).ReachBy ok s' :=
  Machine.ReachBy.step h hok hs

theorem Plane.leads_cons (hok : ok s m) (hs : s.step cfg m = some s')
    (h : (plane cfg).Leads ok s' s'') : (plane cfg).Leads ok s s'' :=
  Machine.Leads.trans (.step (Machine.Leads.refl (M := plane cfg) s) hok hs) h
end

def Plane.after (cfg : Config) (ms : List Move) : Plane := (plane cfg).runTo Plane.fresh ms

theorem Plane.reach_after (cfg : Config) (ms : List Move) : (plane cfg).Reach (after cfg ms) :=
  Machine.reach_runTo (M := plane cfg) fresh_init ms
end Kdive.Jobs
