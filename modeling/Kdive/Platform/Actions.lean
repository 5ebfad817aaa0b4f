import Kdive.Platform.Changes
import Kdive.Platform.Systems
import Kdive.Runs.Basic

/-! # What a transaction of the whole platform consists of

Either one of those of `Kdive.Spec.Actions`, or a sequence of the small steps here: a row inserted or updated, an
audit row written, each with its keys and the state it is legitimate in. What they have to do with each other is
`Tidy`: every change of state has its audit row, a session does not go live while its System is moved, and where a
lease is taken there is a BUILD job of the Run under its key.
-/

namespace Kdive.Platform
open Lib (Time Keyed Table Store)
open Jobs (JobRow StepRow Payload DedupKey)

inductive SystemMove where
  | provision
  | reprovision
  | ready (domainName : String)
  | crash

namespace SystemMove
def old : SystemMove → SystemState
  | provision => .defined
  | reprovision => .ready
  | ready _ => .reprovisioning
  | crash => .ready

def new : SystemMove → SystemState
  | provision => .provisioning
  | reprovision => .reprovisioning
  | ready _ => .ready
  | crash => .crashed

def patch : SystemMove → SystemPatch
  | provision => .state .provisioning
  | reprovision => .state .reprovisioning
  | ready domainName => .ready domainName
  | crash => .state .crashed

def locked : SystemMove → Bool
  | provision => false
  | _ => true
end SystemMove

inductive Act where
  | core (a : Action)
  | audit (r : AuditRow)
  | system (id : Uuid) (m : SystemMove)
  | profile (id : Uuid) (text : String)
  | newInvestigation (i : Investigation)
  | investigation (id : Uuid) (old new : InvestigationState)
  | touch (id : Uuid) (t : Time)
  | newRun (r : Run)
  | run (id : Uuid) (old : RunState) (p : RunPatch)
  | repairRun (id : Uuid) (category : ErrorCategory)
  | newStep (s : StepRow)
  | newSession (systemId : Uuid) (x : DebugSession)
  | goLive (systemId id : Uuid)
  | detach (id : Uuid) (old : DebugSessionState)
  | repairSession (id : Uuid)
  | newJob (j : JobRow)
  | job (id : Uuid) (p : JobPatch)
  | newLease (l : BuildHostLease)
  | dropLease (runId : Uuid)
  /-- No write: there is a BUILD job under the Run's key. -/
  | backed (runId : Uuid)

namespace Act
/-- The writes of a step that is none of `Kdive.Spec.Actions`: at most one. -/
def write : Act → Option store.Write
  | core _ => none
  | audit r => some (.inl (.insertAudit r))
  | system id m => some (.inl (.patchSystem id m.patch))
  | profile id text => some (.inl (.patchSystem id (.profile text)))
  | newInvestigation i => some (.inr (.insertInvestigation i))
  | investigation id _ new => some (.inr (.patchInvestigation id (.state new)))
  | touch id t => some (.inr (.patchInvestigation id (.lastRunAt t)))
  | newRun r => some (.inr (.insertRun r))
  | run id _ p => some (.inr (.patchRun id p))
  | repairRun id category => some (.inr (.patchRun id (.failed category)))
  | newStep s => some (.inr (.insertStep s))
  | newSession _ x => some (.inr (.insertSession x))
  | goLive _ id => some (.inr (.setSession id .live))
  | detach id _ => some (.inr (.setSession id .detached))
  | repairSession id => some (.inr (.setSession id .detached))
  | newJob j => some (.inr (.insertJob j))
  | job id p => some (.inr (.patchJob id p))
  | newLease l => some (.inr (.insertLease l))
  | dropLease runId => some (.inr (.deleteLease runId))
  | backed _ => none

def writes : Act → List store.Write
  | core a => a.writes.map .inl
  | a => a.write.toList

/-- The state that an act leaves. -/
abbrev on (a : Act) (c : store.Db) : store.Db := store.applyAll a.writes c

@[simp]
def need : Act → List store.Key
  | core a => a.need.map .inl
  | audit _ => []
  | system id m => (if m.locked then [.inl (.system id)] else []) ++ [.inl (.systemRow id)]
  | profile id _ => [.inl (.systemRow id)]
  | newInvestigation i => [.inr (.investigationRow i.id)]
  | investigation id _ _ => [.inr (.investigation id), .inr (.investigationRow id)]
  | touch id _ => [.inr (.investigationRow id)]
  | newRun r => [.inl (.system r.systemId), .inr (.runRow r.id)]
  | run id _ _ => [.inr (.runRow id)]
  | repairRun id _ => [.inr (.runRow id), .inr .repaired]
  | newStep s => [.inr (.stepRow s.runId)]
  | newSession systemId x => [.inl (.system systemId), .inr (.sessionRow x.id)]
  | goLive systemId id => [.inl (.system systemId), .inr (.sessionRow id)]
  | detach id _ => [.inr (.sessionRow id)]
  | repairSession id => [.inr (.sessionRow id), .inr .repaired]
  | newJob j => [.inr (.jobRow j.id), .inr (.dedupKey j.dedupKey)]
  | job id _ => [.inr (.jobRow id)]
  | newLease l => [.inr (.buildHost l.buildHostId), .inr (.leaseRow l.runId)]
  | dropLease runId => [.inr (.leaseRow runId)]
  | backed _ => []
end Act

/-! ## When a step is legitimate -/

def Ready (v : store.Db) (systemId : Uuid) : Prop :=
  ∃ s, v.1.systems.get systemId = some s ∧ s.state = .ready

/-- No Run of the System is created or running. -/
def NoLiveRun (v : store.Db) (systemId : Uuid) : Prop :=
  ∀ id r, v.2.runs.get id = some r → r.systemId = systemId → r.state.live = false

def Unoccupied (v : store.Db) (systemId : Uuid) (transport : DebugTransport) : Prop :=
  ∀ id x r, v.2.sessions.get id = some x → v.2.runs.get x.runId = some r → r.systemId = systemId →
    x.transport = transport → x.occupies = false

def RunOn (v : store.Db) (runId systemId : Uuid) : Prop :=
  ∃ r, v.2.runs.get runId = some r ∧ r.systemId = systemId

/-- The Run is there, and has left `created`. -/
def Started (v : store.Db) (runId : Uuid) : Prop :=
  ∃ r, v.2.runs.get runId = some r ∧ r.state ≠ .created

/-- The Run may be moved on: along an edge, or, where its kernel is built elsewhere, from `created` to
    `succeeded`. -/
def RunMoves (r : Run) (target : RunState) : Prop :=
  r.state.canTransition target = true ∨ (r.buildProfile = .external ∧ r.state = .created ∧ target = .succeeded)

def InvestigationOf (v : store.Db) (id : Uuid) (project : String) : Prop :=
  ∃ i, v.2.investigations.get id = some i ∧ i.project = project

def SystemOf (v : store.Db) (id : Uuid) (project : String) : Prop :=
  ∃ s, v.1.systems.get id = some s ∧ s.project = project

def HasJob (v : store.Db) (key : DedupKey) : Prop := ∃ id j, v.2.jobs.get id = some j ∧ j.dedupKey = key

def KeyFits (j : JobRow) : Prop :=
  ∀ runId, j.dedupKey = .build runId → ∃ cmdline, j.payload = .build runId cmdline

structure CanInsertJob (v : store.Db) (j : JobRow) : Prop where
  fresh : v.2.jobs.get j.id = none
  free : ¬ HasJob v j.dedupKey
  state : j.state = .queued
  run : ∀ runId, j.payload.runId = some runId → Started v runId
  fits : KeyFits j

structure CanLease (v : store.Db) (l : BuildHostLease) : Prop where
  fresh : v.2.leases.get l.runId = none
  room : ∃ host, v.2.buildHosts.get l.buildHostId = some host ∧
    BuildHosts.leasesOf v.2 l.buildHostId < host.maxConcurrent

structure CanCreateRun (v : store.Db) (r : Run) : Prop where
  fresh : v.2.runs.get r.id = none
  state : r.state = .created
  ready : Ready v r.systemId
  single : NoLiveRun v r.systemId
  investigation : InvestigationOf v r.investigationId r.project
  system : SystemOf v r.systemId r.project

structure CanAttach (v : store.Db) (systemId : Uuid) (x : DebugSession) : Prop where
  fresh : v.2.sessions.get x.id = none
  state : x.state = .attach
  run : RunOn v x.runId systemId
  ready : Ready v systemId
  free : Unoccupied v systemId x.transport

def Act.guard : Act → store.Db → Prop
  | core a, v => a.guard noneFixed v.1
  | audit _, _ => True
  | system id m, v => (∃ s, v.1.systems.get id = some s ∧ s.state = m.old) ∧
      (m.new = .reprovisioning → NoLiveRun v id)
  | profile _ _, _ => True
  | newInvestigation i, v => v.2.investigations.get i.id = none
  | investigation id old new, v =>
      (∃ i, v.2.investigations.get id = some i ∧ i.state = old) ∧ old.canTransition new = true
  | touch _ _, _ => True
  | newRun r, v => CanCreateRun v r
  | run id old p, v => ∃ r, v.2.runs.get id = some r ∧ r.state = old ∧ RunMoves r p.target
  | repairRun id _, v => ∃ r, v.2.runs.get id = some r ∧ r.state = .running
  | newStep s, v => v.2.steps.get s.runId = none
  | newSession systemId x, v => CanAttach v systemId x
  | goLive systemId id, v =>
      (∃ x, v.2.sessions.get id = some x ∧ x.state = .attach ∧ RunOn v x.runId systemId) ∧ Ready v systemId
  | detach id old, v =>
      ∃ x, v.2.sessions.get id = some x ∧ x.state = old ∧ old.canTransition .detached = true
  | repairSession id, v => ∃ x, v.2.sessions.get id = some x ∧ x.state = .live
  | newJob j, v => CanInsertJob v j
  | job id p, v => ∃ j, v.2.jobs.get id = some j ∧
      (p.target j.state = j.state ∨ j.state.canTransition (p.target j.state) = true)
  | newLease l, v => CanLease v l
  | dropLease _, _ => True
  | backed runId, v => HasJob v (.build runId)

/-! ## Transactions -/

namespace Act
def change : Act → Option Change
  | system id m => some (.system id m.old m.new)
  | investigation id old new => some (.investigation id old new)
  | run id old p => some (.run id old p.target)
  | goLive _ id => some (.session id .attach .live)
  | detach id old => some (.session id old .detached)
  | _ => none

def records (ch : Change) : Act → Bool
  | audit r => ch.Recorded r
  | _ => false

def isCore : Act → Bool
  | core _ => true
  | _ => false

def movesSystem : Act → Bool
  | system .. => true
  | _ => false

def goesLive : Act → Bool
  | goLive .. => true
  | _ => false
end Act

/-- What holds between the steps of one transaction. -/
structure Tidy (as : List Act) : Prop where
  own : ∀ a ∈ as, a.isCore = false
  audited : ∀ ch ∈ as.filterMap Act.change, as.countP (·.records ch) = (as.filterMap Act.change).count ch
  live : as.any Act.goesLive = true → as.any Act.movesSystem = false
  leased : ∀ l, .newLease l ∈ as → .backed l.runId ∈ as

/-- What one transaction may commit. -/
inductive IsBatch (as : List Act) : Prop where
  | core (bs : List Action) (h : isBatch bs) (heq : as = bs.map .core)
  | own (h : Tidy as)
end Kdive.Platform
