import Kdive.Domain.State
import Kdive.Lib.Table
import Mathlib.Data.List.MinMax
import Mathlib.Order.Defs.LinearOrder

/-! # The durable job queue: `jobs/queue.py`

The functions of the queue, each one transaction, on the table of jobs. A row that a statement updates is
locked until its transaction ends and is looked at again once it is locked, so a function acts on the
rows as they are when it commits; `now` is when the transaction began.
-/

namespace Kdive.Jobs
open Lib Table

abbrev WorkerId := Nat

inductive JobKind where
  | provision | reprovision | teardown | build | install | boot | forceCrash | power | captureVmcore
  | imageBuild
  deriving DecidableEq

/-- A payload of each kind. What the last three carry is read by no function here. -/
inductive Payload where
  | provision (systemId : Uuid)
  | reprovision (systemId : Uuid) (profileDigest : String)
  | teardown (systemId : Uuid)
  | build (runId : Uuid) (cmdline : Option String)
  | install (runId : Uuid)
  | boot (runId : Uuid)
  | forceCrash (systemId : Uuid)
  | power
  | captureVmcore
  | imageBuild
  deriving DecidableEq

namespace Payload
def kind : Payload → JobKind
  | provision _ => .provision
  | reprovision _ _ => .reprovision
  | teardown _ => .teardown
  | build _ _ => .build
  | install _ => .install
  | boot _ => .boot
  | forceCrash _ => .forceCrash
  | power => .power
  | captureVmcore => .captureVmcore
  | imageBuild => .imageBuild

def runId : Payload → Option Uuid
  | build r _ => some r
  | install r => some r
  | boot r => some r
  | _ => none
end Payload

/-- The keys jobs are admitted under, `"<system>:teardown"` and so on. -/
inductive DedupKey where
  | provision (allocationId : Uuid)
  | reprovision (systemId : Uuid) (digest : String)
  | teardown (systemId : Uuid)
  | build (runId : Uuid)
  | install (runId : Uuid)
  | boot (runId : Uuid)
  | forceCrash (systemId : Uuid)
  | other (key : String)
  deriving DecidableEq

/-- A row of `jobs`, without `authorizing` and `failure_context`. -/
structure JobRow where
  id : Uuid
  createdAt : Time
  payload : Payload
  state : JobState := .queued
  attempt : Nat := 0
  maxAttempts : Nat
  workerId : Option WorkerId := none
  leaseExpiresAt : Option Time := none
  heartbeatAt : Option Time := none
  resultRef : Option String := none
  errorCategory : Option ErrorCategory := none
  dedupKey : DedupKey
  deriving DecidableEq

instance : Keyed JobRow Uuid := ⟨JobRow.id⟩

abbrev JobTable := Table JobRow

namespace Queue
def defaultMaxAttempts : Nat := 3

/-- `timedelta(minutes=5)`. -/
def defaultLease : Time := 300000000

def forKey (jobs : JobTable) (key : DedupKey) : Option JobRow :=
  jobs.rows.find? (·.dedupKey = key)

/-- `enqueue`. The default of the `id` column is fresh. -/
def enqueue (jobs : JobTable) (id : Uuid) (now : Time) (payload : Payload) (dedupKey : DedupKey)
    (maxAttempts : Nat) : Except Err (JobTable × JobRow) :=
  if maxAttempts < 1 then .error (.value [.text "max_attempts must be >= 1, got ", .int maxAttempts])
  else match forKey jobs dedupKey with
    | some job => .ok (jobs, job)
    | none =>
      let job : JobRow := { id, createdAt := now, payload, maxAttempts, dedupKey }
      .ok (jobs.insert job, job)

/-- What `dequeue` may claim: a queued job, or one whose lease has lapsed, with an attempt left. -/
def claimable (now : Time) (job : JobRow) : Bool :=
  (job.state == .queued || (job.state == .running && job.leaseExpiresAt.any (· < now))) && job.attempt < job.maxAttempts

def claim (worker : WorkerId) (now lease : Time) (job : JobRow) : JobRow :=
  { job with
    state := .running, workerId := some worker, attempt := job.attempt + 1
    leaseExpiresAt := some (now + lease), heartbeatAt := some now }

theorem id_claim (worker : WorkerId) (now lease : Time) (job : JobRow) : (claim worker now lease job).id = job.id := rfl

/-- The row `dequeue` selects: the oldest claimable one that no transaction has locked. -/
def pick (jobs : JobTable) (now : Time) (locked : Uuid → Bool) : Option JobRow :=
  -- the order of the times is named, for it to be one that can be computed with
  @List.argmin JobRow Time Int.instLinearOrder.toPreorder Int.decLt (·.createdAt)
    (jobs.rows.filter fun job => claimable now job && !locked job.id)

def dequeue (jobs : JobTable) (worker : WorkerId) (now lease : Time) (locked : Uuid → Bool) :
    JobTable × Option JobRow :=
  match pick jobs now locked with
  | none => (jobs, none)
  | some job =>
    (jobs.modify job.id (claim worker now lease) (id_claim worker now lease), some (claim worker now lease job))

def update (jobs : JobTable) (id : Uuid) (cond : JobRow → Bool) (set : JobRow → JobRow)
    (hset : ∀ job, (set job).id = job.id) : JobTable × Option JobRow :=
  match jobs.get id with
  | none => (jobs, none)
  | some job => if cond job then (jobs.modify id set hset, some (set job)) else (jobs, none)

/-- `worker_id = %s AND state = 'running'`. -/
def fenced (worker : WorkerId) (job : JobRow) : Bool :=
  job.workerId == some worker && job.state == .running

def heartbeat (jobs : JobTable) (id : Uuid) (worker : WorkerId) (now lease : Time) : JobTable × Option JobRow :=
  update jobs id (fenced worker) (fun job => { job with heartbeatAt := some now, leaseExpiresAt := some (now + lease) })
    (fun _ => rfl)

def complete (jobs : JobTable) (id : Uuid) (worker : WorkerId) (resultRef : Option String) : JobTable × Option JobRow :=
  update jobs id (fenced worker) (fun job => { job with state := .succeeded, resultRef }) (fun _ => rfl)

def deadLettered (category : ErrorCategory) (job : JobRow) : JobRow :=
  { job with state := .failed, errorCategory := some category }

def requeued (job : JobRow) : JobRow :=
  { job with state := .queued, workerId := none, leaseExpiresAt := none, heartbeatAt := none }

/-- `fail`, with the job as it was when it was claimed. -/
def fail (jobs : JobTable) (job : JobRow) (category : ErrorCategory) (terminal : Bool) : JobTable × Option JobRow :=
  match job.workerId with
  | none => (jobs, none)
  | some worker =>
    if terminal ∨ job.maxAttempts ≤ job.attempt then
      update jobs job.id (fenced worker) (deadLettered category) (fun _ => rfl)
    else update jobs job.id (fenced worker) requeued (fun _ => rfl)

/-- `JOBS.update_state(conn, uid, JobState.CANCELED)`. -/
def cancel (jobs : JobTable) (id : Uuid) : JobTable × Option JobRow :=
  update jobs id (·.state.canTransition .canceled) ({ · with state := .canceled }) (fun _ => rfl)

def zombie (now : Time) (job : JobRow) : Bool :=
  job.state == .running && job.leaseExpiresAt.any (· < now) && job.maxAttempts ≤ job.attempt

/-- The update `repair_abandoned_jobs` makes of each of them, later. -/
def abandon (jobs : JobTable) (id : Uuid) : JobTable × Option JobRow :=
  update jobs id (·.state == .running) (deadLettered .leaseExpired) (fun _ => rfl)

/-! ## Rows -/

section
variable {jobs : JobTable} {id k : Uuid}

theorem get_update (cond : JobRow → Bool) (set : JobRow → JobRow) (hset : ∀ job, (set job).id = job.id)
    (k : Uuid) : (update jobs id cond set hset).1.get k =
      (jobs.get k).map fun job => if id = k ∧ cond job then set job else job := by
  unfold update
  cases hid : jobs.get id with
  | none =>
    cases hk : jobs.get k with
    | none => rfl
    | some =>
      have hne : id ≠ k := by
        rintro rfl
        cases hid.symm.trans hk
      simp [hne]
  | some job =>
    dsimp only
    by_cases hcond : cond job = true
    · rw [if_pos hcond, get_modify]
      rcases eq_or_ne id k with rfl | hk
      · simp [hid, hcond]
      · simp [hk]
    · rw [if_neg hcond]
      rcases eq_or_ne id k with rfl | hk
      · simp [hid, hcond]
      · simp [hk]

theorem update_cases (jobs : JobTable) (id : Uuid) (cond : JobRow → Bool) (set : JobRow → JobRow)
    (hset : ∀ job, (set job).id = job.id) : update jobs id cond set hset = (jobs, none) ∨
    ∃ job, jobs.get id = some job ∧ cond job = true ∧
      update jobs id cond set hset = (jobs.modify id set hset, some (set job)) := by
  unfold update
  cases hid : jobs.get id with
  | none => exact .inl rfl
  | some job =>
    by_cases hcond : cond job = true
    · exact .inr ⟨job, rfl, hcond, if_pos hcond⟩
    · exact .inl (if_neg hcond)

variable {key : DedupKey} {job : JobRow}

theorem mem_of_forKey (h : forKey jobs key = some job) : job ∈ jobs.rows ∧ job.dedupKey = key :=
  ⟨List.mem_of_find?_eq_some h, by simpa using List.find?_some h⟩

theorem forKey_eq_none : forKey jobs key = none ↔ ∀ job ∈ jobs.rows, job.dedupKey ≠ key := by
  simp [forKey]

variable {now : Time}

/-- `enqueue` changes no row; the one it adds is queued, under its key, and has not been claimed. -/
theorem get_enqueue {payload : Payload} {maxAttempts : Nat} {jobs' : JobTable}
    (h : enqueue jobs id now payload key maxAttempts = .ok (jobs', job)) :
    (forKey jobs key = some job ∧ jobs' = jobs) ∨ (forKey jobs key = none ∧ 1 ≤ maxAttempts ∧
      job = { id, createdAt := now, payload, maxAttempts, dedupKey := key } ∧ jobs' = jobs.insert job) := by
  unfold enqueue at h
  split at h
  · cases h
  · rename_i hmax
    cases hkey : forKey jobs key with
    | some =>
      rw [hkey] at h
      cases h
      exact .inl ⟨rfl, rfl⟩
    | none =>
      rw [hkey] at h
      cases h
      exact .inr ⟨rfl, by omega, rfl, rfl⟩

variable {locked : Uuid → Bool}

theorem of_pick (h : pick jobs now locked = some job) : jobs.get job.id = some job ∧ claimable now job = true := by
  have hmem := List.argmin_mem h
  rw [List.mem_filter, Bool.and_eq_true] at hmem
  exact ⟨get_key_of_mem hmem.1, hmem.2.1⟩

/-- A claimable job that nobody has locked keeps `dequeue` from coming back empty-handed. -/
theorem pick_of_claimable (locked : Uuid → Bool) (hjob : jobs.get id = some job) (hclaimable : claimable now job = true)
    (hlocked : locked job.id = false) : ∃ picked, pick jobs now locked = some picked := by
  cases hpick : pick jobs now locked with
  | some picked => exact ⟨picked, rfl⟩
  | none =>
    have hmem : job ∈ jobs.rows.filter fun job => claimable now job && !locked job.id :=
      List.mem_filter.mpr ⟨mem_of_get hjob, by rw [hclaimable, hlocked]; rfl⟩
    rw [List.argmin_eq_none.mp hpick] at hmem
    cases hmem

theorem get_dequeue {worker : WorkerId} {lease : Time} (k : Uuid) : (dequeue jobs worker now lease locked).1.get k =
      (jobs.get k).map fun job =>
        if pick jobs now locked = some job then claim worker now lease job else job := by
  unfold dequeue
  cases hpick : pick jobs now locked with
  | none =>
    simp
  | some job =>
    obtain ⟨hget, -⟩ := of_pick hpick
    rw [get_modify]
    rcases eq_or_ne job.id k with rfl | hk
    · simp [hget]
    · rw [if_neg hk]
      cases hkget : jobs.get k with
      | none => rfl
      | some other =>
        have hne : job ≠ other := by
          rintro rfl
          exact hk (key_eq_of_get hkget)
        simp [hne]

theorem update_dequeue {worker : WorkerId} {lease : Time}
    {set : JobRow → JobRow} {hset : ∀ job, (set job).id = job.id} (hpick : pick jobs now locked = some job) :
    (update (dequeue jobs worker now lease locked).1 job.id (fenced worker) set hset).1 =
      jobs.modify job.id (set ∘ claim worker now lease) (fun _ => hset _) := by
  obtain ⟨hget, -⟩ := of_pick hpick
  have hclaimed : (jobs.modify job.id (claim worker now lease) (id_claim worker now lease)).get job.id =
      some (claim worker now lease job) := by
    rw [get_modify_self, hget]
    rfl
  have hfenced : fenced worker (claim worker now lease job) = true := by simp [fenced, claim]
  simp only [dequeue, hpick, update, hclaimed, hfenced, if_true]
  exact modify_modify
end
end Queue
end Kdive.Jobs
