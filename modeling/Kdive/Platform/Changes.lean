import Kdive.Platform.Effects
import Kdive.Spec.Actions

/-! # Changes of state

The six tables with a state machine, and what a sequence of row writes changes in their `state` columns:
one entry for each write that gives a row a state it did not have (`changes`). A row that is inserted has
not changed its state, and neither has one that is set to the state it was in.

`Change.legal` is the transition table of `domain/state.py`; `Change.Recorded` says that an audit row
records the change.
-/

namespace Kdive.Platform
open Lib (Time Keyed Table Store)

inductive Change where
  | allocation (id : Uuid) (old new : AllocationState)
  | system (id : Uuid) (old new : SystemState)
  | investigation (id : Uuid) (old new : InvestigationState)
  | run (id : Uuid) (old new : RunState)
  | session (id : Uuid) (old new : DebugSessionState)
  | job (id : Uuid) (old new : JobState)
  deriving DecidableEq

namespace Change
def legal : Change → Bool
  | allocation _ old new => old.successors.contains new
  | system _ old new => old.successors.contains new
  | investigation _ old new => old.canTransition new
  | run _ old new => old.canTransition new
  | session _ old new => old.canTransition new
  | job _ old new => old.canTransition new

def kind : Change → String
  | allocation .. => "allocations"
  | system .. => "systems"
  | investigation .. => "investigations"
  | run .. => "runs"
  | session .. => "debug_sessions"
  | job .. => "jobs"

def id : Change → Uuid
  | allocation id .. => id
  | system id .. => id
  | investigation id .. => id
  | run id .. => id
  | session id .. => id
  | job id .. => id

def oldValue : Change → String
  | allocation _ old _ => old.value
  | system _ old _ => old.value
  | investigation _ old _ => old.value
  | run _ old _ => old.value
  | session _ old _ => old.value
  | job _ old _ => old.value

def newValue : Change → String
  | allocation _ _ new => new.value
  | system _ _ new => new.value
  | investigation _ _ new => new.value
  | run _ _ new => new.value
  | session _ _ new => new.value
  | job _ _ new => new.value

def Recorded (ch : Change) (r : AuditRow) : Prop := r.Records ch.kind ch.id ch.oldValue ch.newValue

instance (ch : Change) (r : AuditRow) : Decidable (ch.Recorded r) :=
  inferInstanceAs (Decidable (_ ∧ _ ∧ _))

def isJob : Change → Bool
  | job .. => true
  | _ => false
end Change

section
variable {S : Type} [DecidableEq S]

def changeOf (mk : S → S → Change) (old new : Option S) : List Change :=
  match old, new with
  | some s, some s' => if s = s' then [] else [mk s s']
  | _, _ => []

def changed (db : store.Db) : store.Write → List Change
  | .inl (.patchAllocation id p now) =>
    changeOf (.allocation id) ((db.1.allocations.get id).map (·.state))
      ((db.1.allocations.get id).map fun a => (p.apply now a).state)
  | .inl (.patchSystem id p) =>
    changeOf (.system id) ((db.1.systems.get id).map (·.state)) ((db.1.systems.get id).map fun s => (p.apply s).state)
  | .inr (.patchInvestigation id p) =>
    changeOf (.investigation id) ((db.2.investigations.get id).map (·.state))
      ((db.2.investigations.get id).map fun i => (p.apply i).state)
  | .inr (.patchRun id p) =>
    changeOf (.run id) ((db.2.runs.get id).map (·.state)) ((db.2.runs.get id).map fun r => (p.apply r).state)
  | .inr (.setSession id s) =>
    changeOf (.session id) ((db.2.sessions.get id).map (·.state)) ((db.2.sessions.get id).map fun _ => s)
  | .inr (.patchJob id p) =>
    changeOf (.job id) ((db.2.jobs.get id).map (·.state)) ((db.2.jobs.get id).map fun j => (p.apply j).state)
  | _ => []

def changes : store.Db → List store.Write → List Change
  | _, [] => []
  | db, w :: ws => changed db w ++ changes (store.apply w db) ws

def auditRows (ws : List store.Write) : List AuditRow :=
  ws.filterMap fun
    | .inl (.insertAudit r) => some r
    | _ => none

theorem changes_append (db : store.Db) (ws ws' : List store.Write) :
    changes db (ws ++ ws') = changes db ws ++ changes (store.applyAll ws db) ws' := by
  induction ws generalizing db with
  | nil => rfl
  | cons w ws ih => rw [List.cons_append, changes, changes, ih, List.append_assoc]; rfl

theorem auditRows_append (ws ws' : List store.Write) : auditRows (ws ++ ws') = auditRows ws ++ auditRows ws' :=
  List.filterMap_append
end
end Kdive.Platform
