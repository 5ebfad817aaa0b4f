import Kdive.Platform.Reach

/-! # Build-host leases

`runs.build` takes a lease on its build host before it looks at the Run and enqueues the BUILD job under the Run's key,
where an earlier job stays, whatever its state. So a lease is of a Run that has had a BUILD job, but not always of one
whose job is still to be done (`lease_outlives_job`). Where no earlier job is over, the lease has its job
(`build_leases`).
-/

namespace Kdive.Platform
open Lib hiding Ready
open List Option Table Prog
open Jobs (JobRow)
open BuildHosts Kdive.Platform.Client Kdive.Platform.Reconciler

/-- No build host has more leases than it has room for. -/
structure LeasesFit (c : store.Db) : Prop where
  room : ∀ id host, c.2.buildHosts.get id = some host → leasesOf c.2 id ≤ host.maxConcurrent

def Backed (c : store.Db) : Prop := ∀ runId l, c.2.leases.get runId = some l → HasJob c (.build runId)

variable {a : Act} {c : store.Db}

theorem Act.leaseOrigin {runId : Uuid} {l : BuildHostLease} (h : (a.on c).2.leases.get runId = some l) :
    c.2.leases.get runId = some l ∨ a = .newLease l := by
  cases a with
  | core =>
    rw [on, writes, applyAll_inl] at h
    exact .inl h
  | newLease =>
    rcases get_insert_cases h with h | ⟨rfl, -⟩
    · exact .inl h
    · exact .inr rfl
  | dropLease id =>
    have hget : (if id = runId then none else c.2.leases.get runId) = some l :=
      (get_erase ..).symm.trans h
    split at hget
    · cases hget
    · exact .inl hget
  | _ => exact .inl h

def Act.leased : Act → Option Uuid
  | .newLease l => some l.runId
  | _ => none

theorem LeasesFit.act (h : LeasesFit c) (hg : a.guard c) : LeasesFit (a.on c) := by
  have hhosts := (Rely.act hg (H := []) (by simp)).buildHosts
  refine ⟨fun id host hhost => ?_⟩
  rw [hhosts] at hhost
  have hgain : leasesOf (a.on c).2 id ≤ leasesOf c.2 id ∨
      (leasesOf c.2 id < host.maxConcurrent ∧ leasesOf (a.on c).2 id ≤ leasesOf c.2 id + 1) := by
    refine Table.countP_gain (k := a.leased) ?_
    intro l hl hid
    rcases Act.leaseOrigin (get_key_of_mem hl) with hold | rfl
    · exact .inl ⟨l, mem_of_get hold, key_eq_of_get hold, hid⟩
    · obtain ⟨host', hhost', hlt⟩ := hg.room
      rw [of_decide_eq_true hid] at hhost' hlt
      rw [hhost, some.injEq] at hhost'
      exact .inr ⟨rfl, hhost' ▸ hlt⟩
  have hle := h.room id host hhost
  rcases hgain with hgain | ⟨hroom, hgain⟩ <;> omega

variable {as : List Act}

theorem leaseOrigin_of_path {runId : Uuid} {l : BuildHostLease} (h : (protocol.effs as c).2.leases.get runId = some l) :
    c.2.leases.get runId = some l ∨ .newLease l ∈ as := by
  induction as generalizing c with
  | nil => exact .inl h
  | cons a as ih =>
    rcases ih h with h | hmem
    · rcases Act.leaseOrigin h with h | rfl
      · exact .inl h
      · exact .inr mem_cons_self
    · exact .inr (mem_cons_of_mem _ hmem)

theorem hasJob_of_mem (hi : Sound c) (hpath : protocol.Path c as) {runId : Uuid}
    (h : .backed runId ∈ as) : HasJob (protocol.effs as c) (.build runId) := by
  induction as generalizing c with
  | nil => cases h
  | cons a as ih =>
    have hi' : Sound (a.on c) := Act.sound hi hpath.1
    rcases mem_cons.mp h with rfl | h
    · have hrest : Rely [] c (protocol.effs as c) := Protocol.Path.rely hi (by simp) hpath.2
      exact hrest.hasJob hpath.1
    · exact ih hi' hpath.2 h

theorem Backed.batch (h : Backed c) (hi : Sound c) (hb : IsBatch as)
    (hpath : protocol.Path c as) : Backed (protocol.effs as c) := by
  intro runId l hl
  have hrely : Rely [] c (protocol.effs as c) := Protocol.Path.rely hi (by simp) hpath
  rcases leaseOrigin_of_path hl with hold | hnew
  · exact hrely.hasJob (h runId l hold)
  · have hrun : l.runId = runId := key_eq_of_get hl
    cases hb with
    | core bs _ heq =>
      rw [heq] at hnew
      obtain ⟨b, -, hb⟩ := mem_map.mp hnew
      cases hb
    | own htidy => exact hrun ▸ hasJob_of_mem hi hpath (htidy.leased l hnew)

theorem Fresh.leasesFit {db : store.Db} (h : Fresh db) : LeasesFit db := by
  refine ⟨fun id host _ => ?_⟩
  rw [leasesOf, h.leases]
  exact Nat.zero_le _

theorem Fresh.backed {db : store.Db} (h : Fresh db) : Backed db := by
  intro runId l hl
  rw [h.get_lease] at hl
  cases hl

variable {cfg : Config} {ok : Sys store → Choice store Client → Prop} {s s' : Sys store}

theorem ReachableBy.leasesFit (h : ReachableBy cfg ok s) : LeasesFit s.db :=
  h.always (fun _ hfresh => hfresh.leasesFit) fun _ _ _ hJ hg => hJ.act hg

theorem ReachableBy.backed (h : ReachableBy cfg ok s) : Backed s.db :=
  Sys.Reach.always_commits (fun _ c _ => client_safe cfg c) (fun _ => Fresh.sound)
    (fun _ hfresh => hfresh.backed) (fun _ _ _ _ hi hJ hb _ hpath => hJ.batch hi hb hpath) h

/-! ## `runs.build` changes no job -/

def leavesJobs : store.Write → Prop
  | .inr (.patchJob _ _) => False
  | _ => True

variable {T : Time}

theorem writes_lock (scope : LockScope) : (advisoryXactLock scope).Writes T leavesJobs :=
  Writes.selectFor _ _

variable (ctx : RequestContext)

theorem writes_audit (event : AuditEvent) : (audit ctx event).Writes T leavesJobs := by
  unfold audit Audit.record
  split
  · refine ⟨fun v ws hws w hw => ?_, fun r => ?_⟩
    · cases hws
      rw [List.mem_map] at hw
      obtain ⟨w0, hw0, rfl⟩ := hw
      rw [mem_singleton.mp hw0]
      trivial
    · cases r <;> trivial
  · trivial

theorem writes_resolveAndAdmit (buildHost : Option String) (git : Bool) (runId : Uuid) :
    (Runs.resolveAndAdmit buildHost git runId).Writes T leavesJobs := by
  have hacquire : ∀ host, (tryAcquireLease host runId).Writes T leavesJobs := by
    intro host
    refine (writes_lock _).bind fun _ => (Writes.select _).bind fun existing => ?_
    split
    · trivial
    refine (Writes.select _).bind fun count => ?_
    split
    · trivial
    refine (Writes.stmt _ fun v ws hws w hw => ?_).bind fun _ => trivial
    simp only [insertLeaseStmt] at hws
    split at hws
    · cases hws
    · cases hws
      rw [mem_singleton.mp hw]
      trivial
  refine (Writes.select _).bind fun host => ?_
  cases host with
  | none => trivial
  | some host =>
    dsimp only
    split
    · trivial
    split
    · refine (hacquire host).bind fun ok => ?_
      split <;> trivial
    · trivial

theorem writes_enqueue (payload : Jobs.Payload) (key : Jobs.DedupKey) :
    (Queue.enqueue payload key).Writes T leavesJobs := by
  refine Writes.transaction ((Writes.ask _).bind fun id => ?_)
  refine (Writes.stmt _ fun v ws hws w hw => ?_).bind fun _ => ?_
  · simp only [Queue.insertStmt] at hws
    split at hws
    · cases hws
      cases hw
    · split at hws
      · cases hws
      · cases hws
        rw [mem_singleton.mp hw]
        trivial
  · refine (Writes.select _).bind fun job => ?_
    cases job <;> trivial

theorem writes_updateRun {id : Uuid} {cond : Run → Bool} {p : RunPatch} :
    (Repositories.runs.update id cond fun _ => .inr (.patchRun id p)).Writes T leavesJobs := by
  refine Writes.stmt _ fun v ws hws w hw => ?_
  cases hws
  split at hw
  · rw [mem_singleton.mp hw]
    trivial
  · cases hw

theorem writes_buildAdmitted (run : Run) (cmdline buildHost : Option String)
    (git : Bool) : (Runs.buildAdmitted ctx run cmdline buildHost git).Writes T leavesJobs := by
  refine (writes_lock _).bind fun _ => (writes_resolveAndAdmit ..).bind fun _ => ?_
  refine (Writes.selectFor _ _).bind fun row => ?_
  cases row with
  | none => trivial
  | some =>
    dsimp only
    split
    · trivial
    split
    · exact writes_updateRun.bind fun _ => (writes_audit ..).bind fun _ => writes_enqueue _ _
    · exact writes_enqueue _ _

theorem buildRun_local (runId : Uuid) (cmdline : Option String) :
    Local (Duty.only fun ws => ∀ w ∈ ws, leavesJobs w) (fun _ _ => True)
      (discard (Runs.buildRun ctx runId cmdline)) .idle := by
  unfold discard Runs.buildRun
  rw [bind_def, local_attempt]
  refine (Writes.connection_only fun T => ?_).mono fun r l _ => ?_
  · refine (Writes.select _).bind fun run => ?_
    cases run with
    | none => trivial
    | some =>
      dsimp only
      split
      · trivial
      split
      · trivial
      · refine (Writes.ask _).bind fun supported => ?_
        split
        · trivial
        · refine (writes_buildAdmitted ..).transaction.attempt fun r => ?_
          cases r with
          | ok => trivial
          | error e => cases e <;> trivial
  · cases r <;> trivial

/-- What is asked of what a client commits: nothing, unless it is a call of `runs.build`. -/
def buildDuty : Client → Duty store
  | .buildRun .. => Duty.only fun ws => ∀ w ∈ ws, leavesJobs w
  | _ => Duty.only fun _ => True

theorem client_buildDuty (cfg : Config) (client : Client) :
    Local (buildDuty client) (fun _ _ => True) (client.prog cfg) .idle := by
  cases client with
  | buildRun ctx runId cmdline =>
    exact buildRun_local ctx runId cmdline
  | _ => exact .anything (fun _ => trivial) (fun _ _ => trivial) _ _

theorem Act.jobOrigin (hg : a.guard c) {id : Uuid} {j' : JobRow} (h : (a.on c).2.jobs.get id = some j') :
    c.2.jobs.get id = some j' ∨ j'.state = .queued ∨ ∃ p, .inr (.patchJob id p) ∈ a.writes := by
  cases a with
  | core =>
    rw [on, writes, applyAll_inl] at h
    exact .inl h
  | newJob =>
    rcases get_insert_cases h with h | ⟨rfl, -⟩
    · exact .inl h
    · exact .inr (.inl hg.state)
  | job id' p =>
    rcases eq_or_ne id' id with rfl | hid
    · exact .inr (.inr ⟨p, mem_singleton.mpr rfl⟩)
    · have hget := (TableWrite.patchJob id' p).get_jobs c.2 id
      exact .inl ((if_neg hid).symm.trans (hget.symm.trans h))
  | _ => exact .inl h

theorem jobOrigin_of_path {as : List Act} (hpath : protocol.Path c as)
    (hws : ∀ w ∈ as.flatMap Act.writes, leavesJobs w) {id : Uuid} {j' : JobRow}
    (h : (protocol.effs as c).2.jobs.get id = some j') : c.2.jobs.get id = some j' ∨ j'.state = .queued := by
  induction as generalizing c with
  | nil => exact .inl h
  | cons a as ih =>
    rw [flatMap_cons] at hws
    rcases ih hpath.2 (fun w hw => hws w (mem_append_right _ hw)) h with h | hqueued
    · rcases Act.jobOrigin hpath.1 h with h | hqueued | ⟨p, hp⟩
      · exact .inl h
      · exact .inr hqueued
      · exact (hws _ (mem_append_left _ hp)).elim
    · exact .inr hqueued

/-! ## Every run -/

def buildOver (c : store.Db) (runId : Uuid) : Bool :=
  c.2.jobs.rows.any fun j => j.dedupKey = .build runId && j.state.terminal

theorem buildJobLive_of_hasJob {c : store.Db} {runId : Uuid} (hi : Sound c)
    (h : HasJob c (.build runId)) (hover : buildOver c runId = false) : buildJobLive c.2 runId = true := by
  obtain ⟨id, j, hj, hkey⟩ := h
  obtain ⟨cmdline, hpayload⟩ := (hi.jobs id j hj).1 runId hkey
  have hlive : j.state.terminal = false := by
    have := any_eq_false.mp hover j (mem_of_get hj)
    simpa [hkey] using this
  refine any_eq_true.mpr ⟨j, mem_of_get hj, ?_⟩
  cases hs : j.state <;> simp_all [Jobs.Payload.kind, Jobs.Payload.runId, JobState.terminal]

def Client.builds : Client → Option Uuid
  | .buildRun _ runId _ => some runId
  | _ => none

/-- Leases fit their hosts, one to a Run; and a build that is asked for in time has its job. -/
theorem build_leases {cfg : Config} {past : Sys.Past store Client} {s : Sys store}
    (h : (Sys.machine (prog cfg) Fresh).Path past s) :
    (∀ id host, s.db.2.buildHosts.get id = some host → leasesOf s.db.2 id ≤ host.maxConcurrent) ∧
    (∀ runId, s.db.2.leases.rows.countP (·.runId = runId) ≤ 1) ∧
    ∀ i inp s' runId, ((Sys.spawned past)[i]?).bind builds = some runId →
      s.step (prog cfg) (.act i inp) = some s' → (s'.db.2.leases.get runId).isSome →
      buildOver s.db runId = false → buildJobLive s'.db.2 runId = true := by
  have hreach : Reachable cfg s := Sys.reach_of_path h
  refine ⟨hreach.leasesFit.room, fun runId => s.db.2.leases.countP_key_le_one runId, ?_⟩
  intro i inp s' runId hclient hs hlease hover
  have hnext : Reachable cfg s' := .step hreach trivial hs
  obtain ⟨l, hl⟩ := isSome_iff_exists.mp hlease
  obtain ⟨hdb, as, -, hws, hpath⟩ := hreach.commits hs
  have heffs : s'.db = protocol.effs as s.db := by
    rw [hdb, hws]
    exact Protocol.applyAll_flatMap (P := protocol) as s.db
  -- what the call commits leaves the jobs that were there as they were
  have hleaves : ∀ w ∈ as.flatMap Act.writes, leavesJobs w := by
    by_cases hne : s.commits (.act i inp : Choice store Client) = []
    · rw [← hws, hne]
      exact fun w hw => (not_mem_nil hw).elim
    · obtain ⟨client, hclient, hbuilds⟩ := bind_eq_some_iff.mp hclient
      obtain ⟨T, hduty⟩ := Sys.committing_of_path (client_buildDuty cfg) h hclient hne
      rw [← hws]
      cases client with
      | buildRun => exact hduty
      | _ => cases hbuilds
  refine buildJobLive_of_hasJob hnext.holds.inv (hnext.backed runId l hl) ?_
  refine any_eq_false.mpr fun j hj => ?_
  have hget := get_key_of_mem hj
  rw [heffs] at hget
  rcases jobOrigin_of_path hpath hleaves hget with hold | hqueued
  · exact any_eq_false.mp hover j (mem_of_get hold)
  · simp [hqueued, JobState.terminal]

namespace Lab
/-- Run 40 is to be built on the host `farm`, which takes one build at a time; the first `n` operations of
    the call, whose BUILD job is 50. -/
def building (n : Nat) : Script :=
  run (.server (some "farm") true) ++ [.start (.buildRun member 40 none), .go 5 ({ uuid := 50 }, {}) n]

/-- A worker does the build, and the build of the Run, which has succeeded, is asked for again: the first operations
    of the second call, but for the one that returns its connection. -/
def rebuilding : Script :=
  building 100 ++ call 6 (.dequeue 1) 51 ++ call 7 (.buildHandler ⟨"dev", none⟩ 40 none) 52 ++
    call 8 (.complete 50 1 none) 53 ++ [.start (.buildRun member 40 none), .go 9 ({ uuid := 54 }, {}) 16]
end Lab

theorem build_leases_first :
    ((told {} Lab.db (Lab.building 18)).2.step (prog {}) (.act 5 (.go true))).any (fun s' =>
      (s'.db.2.leases.get 40).isSome && buildJobLive s'.db.2 40) = true := by
  have hpath : (Sys.machine (prog {}) Fresh).Path _ _ :=
    path_told Lab.fresh (Lab.building 18)
  have hlease : ((told {} Lab.db (Lab.building 18)).2.step (prog {}) (.act 5 (.go true))).any
      (fun s' => (s'.db.2.leases.get 40).isSome) = true := by decide +kernel
  obtain ⟨s', hs, hl⟩ := (any_eq_true _ _).mp hlease
  have hlive := (build_leases hpath).2.2 5 (.go true) s' 40 (by decide +kernel) hs hl (by decide +kernel)
  rw [hs, any_some, hl, hlive]
  rfl

/-- The second call takes a lease, for which nothing will be built. -/
theorem lease_outlives_job : ∃ past s s', (Sys.machine (prog {}) Fresh).Path past s ∧
    ((Sys.spawned past)[9]?).bind builds = some 40 ∧
    s.step (prog {}) (.act 9 (.go true)) = some s' ∧
    s.db.2.leases.get 40 = none ∧ (s'.db.2.leases.get 40).isSome = true ∧
    buildJobLive s'.db.2 40 = false := by
  have hend : ((told {} Lab.db Lab.rebuilding).2.step (prog {}) (.act 9 (.go true))).any
      (fun s' => (s'.db.2.leases.get 40).isSome && !buildJobLive s'.db.2 40) = true := by
    decide +kernel
  obtain ⟨s', hs, hp⟩ := (any_eq_true _ _).mp hend
  rw [Bool.and_eq_true, Bool.not_eq_true'] at hp
  exact ⟨_, _, s', path_told Lab.fresh Lab.rebuilding, by decide +kernel, hs, by decide +kernel, hp.1, hp.2⟩
end Kdive.Platform
