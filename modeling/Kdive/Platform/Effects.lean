import Kdive.Platform.Schema
import Kdive.Spec.Effects

/-! # What each write does to each row

One function for each table of the annex says what becomes of the row under a given key; a write leaves
every row alone whose lock is not among its keys.
-/

namespace Kdive.Platform
open Lib (Time Keyed Table Store)
open Jobs (JobRow StepRow)

namespace RunPatch
variable (p : RunPatch) (r : Run)

@[simp] theorem state_apply : (p.apply r).state = p.target := by cases p <;> rfl

@[simp] theorem systemId_apply : (p.apply r).systemId = r.systemId := by cases p <;> rfl

@[simp] theorem project_apply : (p.apply r).project = r.project := by cases p <;> rfl

@[simp] theorem investigationId_apply : (p.apply r).investigationId = r.investigationId := by
  cases p <;> rfl

@[simp] theorem buildProfile_apply : (p.apply r).buildProfile = r.buildProfile := by cases p <;> rfl
end RunPatch

namespace JobPatch
variable (p : JobPatch) (j : JobRow)

@[simp] theorem state_apply : (p.apply j).state = p.target j.state := by cases p <;> rfl

@[simp] theorem payload_apply : (p.apply j).payload = j.payload := by cases p <;> rfl

@[simp] theorem dedupKey_apply : (p.apply j).dedupKey = j.dedupKey := by cases p <;> rfl
end JobPatch

namespace TableWrite
def onInvestigation (id : Uuid) : TableWrite → Option Investigation → Option Investigation
  | .insertInvestigation i, row => if i.id = id ∧ row = none then some i else row
  | .patchInvestigation id' p, row => if id' = id then row.map p.apply else row
  | _, row => row

def onRun (id : Uuid) : TableWrite → Option Run → Option Run
  | .insertRun r, row => if r.id = id ∧ row = none then some r else row
  | .patchRun id' p, row => if id' = id then row.map p.apply else row
  | _, row => row

def onStep (runId : Uuid) : TableWrite → Option StepRow → Option StepRow
  | .insertStep s, row => if s.runId = runId ∧ row = none then some s else row
  | _, row => row

def onSession (id : Uuid) : TableWrite → Option DebugSession → Option DebugSession
  | .insertSession x, row => if x.id = id ∧ row = none then some x else row
  | .setSession id' s, row => if id' = id then row.map fun x => { x with state := s } else row
  | _, row => row

def onJob (id : Uuid) : TableWrite → Option JobRow → Option JobRow
  | .insertJob j, row => if j.id = id ∧ row = none then some j else row
  | .patchJob id' p, row => if id' = id then row.map p.apply else row
  | _, row => row

def onLease (runId : Uuid) : TableWrite → Option BuildHostLease → Option BuildHostLease
  | .insertLease l, row => if l.runId = runId ∧ row = none then some l else row
  | .deleteLease runId', row => if runId' = runId then none else row
  | _, row => row

section
variable (w : TableWrite) (t : Tables) (id : Uuid)

theorem get_investigations : (w.apply t).investigations.get id = w.onInvestigation id (t.investigations.get id) := by
  cases w with
  | insertInvestigation => exact Table.get_insert ..
  | patchInvestigation id' p =>
    exact Table.get_modify t.investigations id' _ (fun i => by cases p <;> rfl) id
  | _ => rfl

theorem get_runs : (w.apply t).runs.get id = w.onRun id (t.runs.get id) := by
  cases w with
  | insertRun => exact Table.get_insert ..
  | patchRun id' p => exact Table.get_modify t.runs id' _ (fun r => by cases p <;> rfl) id
  | _ => rfl

theorem get_steps : (w.apply t).steps.get id = w.onStep id (t.steps.get id) := by
  cases w with
  | insertStep => exact Table.get_insert ..
  | _ => rfl

theorem get_sessions : (w.apply t).sessions.get id = w.onSession id (t.sessions.get id) := by
  cases w with
  | insertSession => exact Table.get_insert ..
  | setSession id' s =>
    exact Table.get_modify t.sessions id' (fun x => { x with state := s }) (fun _ => rfl) id
  | _ => rfl

theorem get_jobs : (w.apply t).jobs.get id = w.onJob id (t.jobs.get id) := by
  cases w with
  | insertJob => exact Table.get_insert ..
  | patchJob id' p => exact Table.get_modify t.jobs id' _ (fun j => by cases p <;> rfl) id
  | _ => rfl

theorem get_leases : (w.apply t).leases.get id = w.onLease id (t.leases.get id) := by
  cases w with
  | insertLease => exact Table.get_insert ..
  | deleteLease => exact Table.get_erase ..
  | _ => rfl

@[simp] theorem buildHosts_apply : (w.apply t).buildHosts = t.buildHosts := by cases w <;> rfl
end

def keys : TableWrite → List TableKey
  | .insertInvestigation i => [.investigationRow i.id]
  | .patchInvestigation id _ => [.investigationRow id]
  | .insertRun r => [.runRow r.id]
  | .patchRun id _ => [.runRow id]
  | .insertStep s => [.stepRow s.runId]
  | .insertSession x => [.sessionRow x.id]
  | .setSession id _ => [.sessionRow id]
  | .insertJob j => [.jobRow j.id]
  | .patchJob id _ => [.jobRow id]
  | .insertLease l => [.leaseRow l.runId]
  | .deleteLease runId => [.leaseRow runId]

section
variable {w : TableWrite} {id : Uuid}

theorem onInvestigation_of_notMem (h : .investigationRow id ∉ w.keys) (row : Option Investigation) :
    w.onInvestigation id row = row := by
  cases w with
  | insertInvestigation i => exact if_neg fun hc => h (by simp [keys, hc.1])
  | patchInvestigation id' => exact if_neg fun hc => h (by simp [keys, hc])
  | _ => rfl

theorem onRun_of_notMem (h : .runRow id ∉ w.keys) (row : Option Run) : w.onRun id row = row := by
  cases w with
  | insertRun r => exact if_neg fun hc => h (by simp [keys, hc.1])
  | patchRun id' => exact if_neg fun hc => h (by simp [keys, hc])
  | _ => rfl

theorem onSession_of_notMem (h : .sessionRow id ∉ w.keys) (row : Option DebugSession) : w.onSession id row = row := by
  cases w with
  | insertSession x => exact if_neg fun hc => h (by simp [keys, hc.1])
  | setSession id' => exact if_neg fun hc => h (by simp [keys, hc])
  | _ => rfl

theorem onJob_of_notMem (h : .jobRow id ∉ w.keys) (row : Option JobRow) : w.onJob id row = row := by
  cases w with
  | insertJob j => exact if_neg fun hc => h (by simp [keys, hc.1])
  | patchJob id' => exact if_neg fun hc => h (by simp [keys, hc])
  | _ => rfl

theorem onLease_of_notMem (h : .leaseRow id ∉ w.keys) (row : Option BuildHostLease) : w.onLease id row = row := by
  cases w with
  | insertLease l => exact if_neg fun hc => h (by simp [keys, hc.1])
  | deleteLease id' => exact if_neg fun hc => h (by simp [keys, hc])
  | _ => rfl
end
end TableWrite

/-- The keys a write of the whole store is made under. -/
def writeKeys : store.Write → List store.Key
  | .inl w => w.keys.map .inl
  | .inr w => w.keys.map .inr
end Kdive.Platform
