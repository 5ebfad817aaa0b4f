import Kdive.Db.Repositories
import Kdive.Jobs.Plane
import Kdive.Lib.Lift

/-! # The rest of the database

Investigations, Runs and their build steps, debug sessions, the job queue, and the build hosts with their leases, as an
annex of the store of `Kdive.Db.Schema`. Not modelled: `artifacts`, `upload_manifests`, the `install` and `boot` rows of
`run_steps`, and the columns no function here reads. The catalog of build hosts does not change.
-/

namespace Kdive.Platform
open Lib (Time Keyed Table Annex Store Prog)
open Jobs (JobRow Payload DedupKey StepRow BuildOutput WorkerId Queue.claim Queue.deadLettered
  Queue.requeued)

structure Investigation where
  id : Uuid
  project : String
  state : InvestigationState
  lastRunAt : Option Time := none
  deriving DecidableEq

/-- A parsed build profile. A server build may name its host, and builds a git reference or a tree that
    is there. -/
inductive BuildProfile where
  | server (buildHost : Option String) (git : Bool)
  | external
  deriving DecidableEq

structure Run where
  id : Uuid
  project : String
  investigationId : Uuid
  systemId : Uuid
  state : RunState
  buildProfile : BuildProfile
  kernelRef : Option String := none
  debuginfoRef : Option String := none
  failureCategory : Option ErrorCategory := none
  deriving DecidableEq

inductive BuildHostKind where
  | isLocal | ssh | ephemeralLibvirt
  deriving DecidableEq

def BuildHostKind.value : BuildHostKind → String
  | isLocal => "local"
  | ssh => "ssh"
  | ephemeralLibvirt => "ephemeral_libvirt"

inductive BuildHostState where
  | ready | unreachable
  deriving DecidableEq

def BuildHostState.value : BuildHostState → String
  | ready => "ready"
  | unreachable => "unreachable"

structure BuildHost where
  id : Uuid
  name : String
  kind : BuildHostKind
  maxConcurrent : Nat
  enabled : Bool := true
  state : BuildHostState := .ready

structure BuildHostLease where
  runId : Uuid
  buildHostId : Uuid
  deriving DecidableEq

instance : Keyed Investigation Uuid := ⟨Investigation.id⟩
instance : Keyed Run Uuid := ⟨Run.id⟩
instance : Keyed BuildHost Uuid := ⟨BuildHost.id⟩
instance : Keyed BuildHostLease Uuid := ⟨BuildHostLease.runId⟩

/-- The tables of the annex. -/
structure Tables where
  investigations : Table Investigation := Table.empty
  runs : Table Run := Table.empty
  steps : Table StepRow := Table.empty
  sessions : Table DebugSession := Table.empty
  jobs : Table JobRow := Table.empty
  buildHosts : Table BuildHost := Table.empty
  leases : Table BuildHostLease := Table.empty

/-! ## Row writes -/

inductive InvestigationPatch where
  | state (s : InvestigationState)
  | lastRunAt (t : Time)

def InvestigationPatch.apply (p : InvestigationPatch) (i : Investigation) : Investigation :=
  match p with
  | .state s => { i with state := s }
  | .lastRunAt t => { i with lastRunAt := some t }

inductive RunPatch where
  | state (s : RunState)
  | succeeded (kernelRef debuginfoRef : Option String)
  | failed (category : ErrorCategory)

namespace RunPatch
def target : RunPatch → RunState
  | state s => s
  | succeeded _ _ => .succeeded
  | failed _ => .failed

def apply (p : RunPatch) (r : Run) : Run :=
  match p with
  | state s => { r with state := s }
  | succeeded kernelRef debuginfoRef => { r with state := .succeeded, kernelRef, debuginfoRef }
  | failed category => { r with state := .failed, failureCategory := some category }
end RunPatch

/-- What an `UPDATE jobs` sets: `update_state`, the updates of `jobs/queue.py`, and the reconciler's. -/
inductive JobPatch where
  | state (s : JobState)
  | claim (worker : WorkerId) (now lease : Time)
  | heartbeat (now lease : Time)
  | complete (resultRef : Option String)
  | deadLetter (category : ErrorCategory)
  | requeue

namespace JobPatch
def target (p : JobPatch) (old : JobState) : JobState :=
  match p with
  | state s => s
  | claim _ _ _ => .running
  | heartbeat _ _ => old
  | complete _ => .succeeded
  | deadLetter _ => .failed
  | requeue => .queued

def apply (p : JobPatch) (job : JobRow) : JobRow :=
  match p with
  | state s => { job with state := s }
  | claim worker now lease => Queue.claim worker now lease job
  | heartbeat now lease =>
    { job with heartbeatAt := some now, leaseExpiresAt := some (now + lease) }
  | complete resultRef => { job with state := .succeeded, resultRef }
  | deadLetter category => Queue.deadLettered category job
  | requeue => Queue.requeued job
end JobPatch

inductive TableWrite where
  | insertInvestigation (i : Investigation)
  | patchInvestigation (id : Uuid) (p : InvestigationPatch)
  | insertRun (r : Run)
  | patchRun (id : Uuid) (p : RunPatch)
  | insertStep (s : StepRow)
  | insertSession (x : DebugSession)
  | setSession (id : Uuid) (s : DebugSessionState)
  | insertJob (j : JobRow)
  | patchJob (id : Uuid) (p : JobPatch)
  | insertLease (l : BuildHostLease)
  | deleteLease (runId : Uuid)

def TableWrite.apply (w : TableWrite) (t : Tables) : Tables :=
  match w with
  | .insertInvestigation i => { t with investigations := t.investigations.insert i }
  | .patchInvestigation id p =>
    { t with investigations := t.investigations.modify id p.apply (fun i => by cases p <;> rfl) }
  | .insertRun r => { t with runs := t.runs.insert r }
  | .patchRun id p => { t with runs := t.runs.modify id p.apply (fun r => by cases p <;> rfl) }
  | .insertStep s => { t with steps := t.steps.insert s }
  | .insertSession x => { t with sessions := t.sessions.insert x }
  | .setSession id s =>
    { t with sessions := t.sessions.modify id (fun x => { x with state := s }) (fun _ => rfl) }
  | .insertJob j => { t with jobs := t.jobs.insert j }
  | .patchJob id p => { t with jobs := t.jobs.modify id p.apply (fun j => by cases p <;> rfl) }
  | .insertLease l => { t with leases := t.leases.insert l }
  | .deleteLease runId => { t with leases := t.leases.erase runId }

/-! ## Keys -/

/-- The advisory locks on Investigations, Runs and build hosts, and the locks Postgres takes on rows and on the keys of
    rows to be inserted.

    The last, shared, is no lock of the code: it records that a bulk update of one of the reconciler's two repairs has
    found a row. -/
inductive TableKey where
  | investigation (id : Uuid)
  | run (id : Uuid)
  | buildHost (id : Uuid)
  | investigationRow (id : Uuid)
  | runRow (id : Uuid)
  | stepRow (runId : Uuid)
  | sessionRow (id : Uuid)
  | jobRow (id : Uuid)
  | dedupKey (key : DedupKey)
  | leaseRow (runId : Uuid)
  | repaired
  deriving DecidableEq

def TableKey.shared : TableKey → Bool
  | repaired => true
  | _ => false

/-! ## The store -/

/-- What a process reads from outside the database, beside `Kdive.Host`. -/
structure Answers where
  /-- A check that reads no table passes: a destructive operation is allowed, a component source is
      supported, a System meets the sizes asked for, a Run has booted. -/
  allowed : Bool := true
  build : Except Err BuildOutput := .ok ⟨"kernel", "vmlinux", "build"⟩
  /-- An upload found in order, and the key of its initrd. -/
  upload : Except Err (BuildOutput × Option String) := .ok (⟨"kernel", "vmlinux", "build"⟩, none)
  transport : Except Err String := .ok "gdb://127.0.0.1:1234"
  forceCrash : Except Err Unit := .ok ()
  /-- The jobs that another transaction has locked, and `SKIP LOCKED` passes by. -/
  skipped : Uuid → Bool := fun _ => false

abbrev annex : Annex where
  Db := Tables
  Write := TableWrite
  Key := TableKey
  Host := Answers
  decKey := inferInstance
  apply := TableWrite.apply
  shared := TableKey.shared

/-- The whole database. -/
abbrev store : Store := Kdive.store.extend annex

abbrev Async (α : Type) := Prog store α
end Kdive.Platform
