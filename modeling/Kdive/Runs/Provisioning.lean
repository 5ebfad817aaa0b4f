import Kdive.Lib.Local
import Kdive.Lib.Solo
import Kdive.Runs.Basic

/-! # The transaction a provisioning job runs in

The handlers of the worker's jobs begin with a bare read, which opens the transaction of the whole job: the provider is
called inside it, and the blocks that make the System ready or record a failure are savepoints of it. So `now()`, the
start of the billing interval, is the time of that first read (`stamp_is_when_opened`), and a failure that is recorded
and then raised again is undone (`failure_kept_iff`).
-/

namespace Kdive
open Systems Lib Write Prog Conn Handlers List Option Client Lab

def Write.StampsAt (T : Time) : Write → Prop
  | .patchAllocation _ (.activeStartedAt t) _ => t = T
  | _ => True

section
variable {T : Time}

variable (job : Job) (system : System)

theorem auditTransition_writes (project : String) (id : Uuid) (transition : List Part)
    (tool : String) : (auditTransition job project id transition tool).Writes T (Write.StampsAt T) := by
  unfold auditTransition Audit.record
  split
  · refine Writes.stmt _ ?_
    intro v ws h w hw
    cases h
    rw [mem_singleton.mp hw]
    trivial
  · trivial

theorem updateSystem_writes (id : Uuid) (p : SystemPatch) : (update id p).Writes T (Write.StampsAt T) := by
  refine Writes.stmt _ ?_
  intro v ws h w hw
  cases h
  split at hw
  · rw [mem_singleton.mp hw]
    trivial
  · cases hw

theorem updateSystemState_writes (id : Uuid) (new : SystemState) :
    (updateState id new).Writes T (Write.StampsAt T) := by
  refine Writes.transaction (Writes.bind (.selectFor _ _) ?_)
  intro row
  cases row with
  | none => trivial
  | some => exact .bind (.ofExcept _) fun _ => updateSystem_writes id _

theorem runtimeForSystem_writes (cfg : Config) (id : Uuid) : (runtimeForSystem cfg id).Writes T (Write.StampsAt T) := by
  refine Writes.bind (.select _) ?_
  intro kind
  cases kind with
  | none => trivial
  | some =>
    dsimp only
    split <;> trivial

theorem openBillingInterval_writes (id : Uuid) : (openBillingInterval id).Writes T (Write.StampsAt T) := by
  refine Writes.bind (.stmt _ ?_) fun _ => trivial
  intro v ws h w hw
  cases h
  split at hw
  · rw [mem_singleton.mp hw]
    rfl
  · cases hw

theorem commitUploadedRootfs_writes : (commitUploadedRootfs system).Writes T (Write.StampsAt T) := by
  refine Writes.bind (.ask _) fun answer => Writes.bind (.ofExcept _) ?_
  intro rootfs
  match rootfs with
  | none => trivial
  | some false => trivial
  | some true => exact .bind (.select _) fun _ => .select _

theorem commitProvisionResult_writes (domainName : String) :
    (commitProvisionResult job system domainName).Writes T (Write.StampsAt T) := by
  refine Writes.transaction (Writes.bind (.selectFor _ _) fun _ =>
    Writes.bind (.selectFor _ _) ?_)
  intro row
  cases row with
  | none => trivial
  | some =>
    dsimp only
    split
    · refine .bind (updateSystem_writes _ _) fun _ => .bind ?_ fun _ => trivial
      exact .bind (commitUploadedRootfs_writes system) fun _ =>
        .bind (openBillingInterval_writes _) fun _ => auditTransition_writes _ _ _ _ _
    · trivial

theorem teardown_writes : (ask (σ := store) Host.teardown >>= fun answer =>
    ofExcept (σ := store) answer).Writes T (Write.StampsAt T) :=
  .bind (.ask _) fun _ => .ofExcept _

theorem failing_writes (transition tool : String) (e : Err) :
    (failing job system transition tool e).Writes T (Write.StampsAt T) := by
  unfold failing
  split
  · refine .bind (.catching (.transaction (.bind (updateSystemState_writes _ _) fun _ =>
      auditTransition_writes _ _ _ _ _)) fun _ => trivial) fun _ => trivial
  · trivial

theorem callProvision_writes : (callProvision job system).Writes T (Write.StampsAt T) := by
  refine Writes.bind (.ask _) ?_
  intro answer
  cases answer with
  | error e => exact failing_writes _ _ _ _ e
  | ok domainName =>
    refine .bind (commitProvisionResult_writes job system domainName) ?_
    intro current
    split
    · exact teardown_writes
    · trivial
end

/-! ## The stamp -/

variable (cfg : Config) (job : Job)

theorem provisionHandler_writes (T : Time) : (provisionHandler cfg job).Writes T (Write.StampsAt T) := by
  refine Writes.bind (.select _) ?_
  intro row
  cases row with
  | none => trivial
  | some system =>
    refine .bind (runtimeForSystem_writes cfg _) ?_
    intro _
    split
    · split
      · exact teardown_writes
      · trivial
    · exact callProvision_writes job system

/-- The transaction is the one the first statement opened, and its stamps bear its time. -/
def stampsDuty : Duty store where
  asking l := ∃ T, Within T (Write.StampsAt T) l
  committing T ws := ∀ w ∈ ws, w.StampsAt T

theorem provision_dutiful : (⟨prog cfg (.provision job), .idle⟩ : Sess store).Dutiful stampsDuty := by
  refine Writes.connection_opening ?_ ?_ ?_ (provisionHandler_writes cfg job)
  · exact fun T l h => ⟨T, h⟩
  · exact fun T w hw => absurd hw not_mem_nil
  · exact fun T ws h => h

/-- From the provider's answer on, every stamp bears the time of the transaction open then. -/
def stampsFrom (T : Time) : Duty store where
  asking _ := True
  committing _ ws := ∀ w ∈ ws, w.StampsAt T

variable {l : Conn store}

theorem callProvision_dutiful {T : Time} (h : Within T (Write.StampsAt T) l) (job : Job) (system : System) :
    (⟨connection (callProvision job system), l⟩ : Sess store).Dutiful (stampsFrom T) := by
  refine (callProvision_writes job system).connection ?_ ?_ ?_ h
  · exact fun l h => trivial
  · exact fun w hw => absurd hw not_mem_nil
  · exact fun ws h => h

/-- The interval opens when the transaction began, not when the provider returned. -/
theorem stamp_is_when_opened {cfg : Config} {job : Job} {system : System}
    {s₀ s₁ s₂ s₃ s₄ : Sys store} {q : Sess store} {x : Host} {inp : Input store} {id : Uuid}
    {t t' : Time} (h₀ : Reachable cfg s₀)
    (hstarts : s₀.step (prog cfg) (.spawn (.provision job)) = some s₁)
    (hcalls : Sys.Leads (prog cfg) s₁ s₂) (hq : s₂.sess[s₀.sess.length]? = some q)
    (hcall : q.prog = connection (callProvision job system))
    (hreturns : s₂.step (prog cfg) (.act s₀.sess.length (.host x)) = some s₃)
    (hgoes : Sys.Leads (prog cfg) s₃ s₄)
    (hstamp : Write.patchAllocation id (.activeStartedAt t) t' ∈
      s₄.commits (.act s₀.sess.length inp : Choice store Client)) :
    t = q.conn.now ∧ (s₂.clock ≤ t ↔ q.conn.now = s₂.clock) := by
  obtain ⟨p, l⟩ := q
  obtain rfl : p = _ := hcall
  have hreach : Reachable cfg s₂ := Sys.Reach.leads (h₀.step trivial hstarts) hcalls
  cases hstarts
  -- at the call, the transaction is the one the first statement opened
  have hspawned : (s₀.sess ++ [⟨prog cfg (.provision job), .idle⟩])[s₀.sess.length]? =
      some ⟨prog cfg (.provision job), .idle⟩ := by
    rw [getElem?_append_right (Nat.le_refl _), Nat.sub_self]
    rfl
  obtain ⟨q', hq', hduty⟩ := hcalls.dutiful hspawned (provision_dutiful cfg job)
  rw [hq, some.injEq] at hq'
  subst hq'
  obtain ⟨T, hwithin⟩ := hduty.1
  have hnow : l.now = T := hwithin.now
  -- and it is still that one when the stamp is committed
  obtain ⟨q3, hq3, hduty3⟩ :=
    Sys.Leads.dutiful (.step (.refl s₂) hreturns) hq (callProvision_dutiful hwithin job system)
  obtain ⟨q4, hq4, hduty4⟩ := hgoes.dutiful hq3 hduty3
  have hcommits : s₄.commits (.act s₀.sess.length inp : Choice store Client) = q4.committing inp := by
    simp [Sys.commits, hq4]
  rw [hcommits] at hstamp
  have hT : t = T := hduty4.committing (ne_nil_of_mem hstamp) _ hstamp
  obtain ⟨tx, htx, hstart, -⟩ := hwithin.exists_tx
  have hpast : T ≤ s₂.clock := by
    rw [← hstart]
    exact hreach.start_le _ (mem_of_getElem? hq) tx htx
  rw [hnow, hT]
  exact ⟨rfl, fun h => le_antisymm hpast h, fun h => h.ge⟩

theorem advance_to_call {cfg : Config} {job : Job} {system : System} {kind : ResourceKind}
    {s : Sys store} {i : Nat} {x : Host} (hq : s.sess[i]? = some ⟨prog cfg (.provision job), .idle⟩)
    (hrow : s.db.systems.get job.systemId = some system) (hstate : system.state = .provisioning)
    (hkind : ((s.db.allocations.get system.allocationId).bind fun a =>
      (a.resourceId.bind s.db.resources.get).map (·.kind)) = some kind) (hreg : kind ∈ cfg.registeredKinds) :
    (s.advance (prog cfg) (fun _ _ => true) i x 2).sess[i]? =
      some ⟨connection (callProvision job system), idle.opened s.clock⟩ := by
  have hlt : i < s.sess.length := (List.getElem?_eq_some_iff.mp hq).1
  have hview : (opened s.clock (idle : Conn store)).view s.db = s.db := rfl
  rw [Sys.advance_select hq]
  generalize hs1 : (⟨s.db, s.clock, s.sess.set i _⟩ : Sys store) = s₁
  have hdb : s₁.db = s.db := by rw [← hs1]
  have hclock : s₁.clock = s.clock := by rw [← hs1]
  have hlt1 : i < s₁.sess.length := by
    rw [← hs1]
    simpa using hlt
  have hq1 : s₁.sess[i]? = some ⟨connection (runtimeForSystem cfg job.systemId >>=
      fun _ => callProvision job system), idle.opened s.clock⟩ := by
    rw [← hs1]
    refine (getElem?_set_self hlt).trans ?_
    simp only [hview, andThen, attempt, connection, bind_def, hrow, hstate]
    rfl
  rw [Sys.advance_select hq1]
  refine (getElem?_set_self hlt1).trans ?_
  have hopened : opened s.clock (opened s.clock (idle : Conn store)) = opened s.clock idle := rfl
  simp only [hdb, hclock, hopened, hview, andThen, attempt, connection, hrow, bind_some, hkind, hreg, if_true]
  rfl

def labSystem : System where
  id := 20
  createdAt := 0
  principal := "dev"
  project := "kernel"
  allocationId := 10
  state := .provisioning
  provisioningProfile := ""

/-- The job is at its provider, which takes the time `d`. -/
def calling (d : Nat) : Sys store :=
  scripted {} db (provisioning ++ [.go 2 { uuid := 30 } 2, .wait d])

theorem step_created : (scripted {} db created).step (prog {})
    (.spawn (.provision provisionJob)) = some (scripted {} db provisioning) := by
  rw [provisioning, scripted_append]
  rfl

theorem length_created : (scripted {} db created).sess.length = 2 := by decide +kernel

theorem sess_calling (d : Nat) : (calling d).sess[2]? =
    some ⟨connection (callProvision provisionJob labSystem), idle.opened 0⟩ := by
  have hstart : (scripted {} db provisioning).sess[2]? =
      some ⟨prog {} (.provision provisionJob), .idle⟩ := by
    rw [provisioning, scripted_append]
    show ((scripted {} db created).sess ++ [_])[2]? = _
    rw [getElem?_append_right (Nat.le_of_eq length_created), length_created]
    rfl
  have hrow : (scripted {} db provisioning).db.systems.get 20 = some labSystem := by
    decide +kernel
  have hkind : (((scripted {} db provisioning).db.allocations.get 10).bind fun a =>
      (a.resourceId.bind (scripted {} db provisioning).db.resources.get).map (·.kind)) = some .localLibvirt := by
    decide +kernel
  have hreg : ResourceKind.localLibvirt ∈ ({} : Config).registeredKinds := by decide
  have hclock : (scripted {} db provisioning).clock = 0 := by decide +kernel
  have hcall := advance_to_call (x := { uuid := 30 }) hstart hrow rfl hkind hreg
  rw [hclock] at hcall
  rwa [calling, scripted_append]

theorem leads_calling (d : Nat) : Sys.Leads (prog {}) (scripted {} db provisioning) (calling d) := by
  rw [calling, scripted_append]
  exact Sys.Leads.perform _ _

/-- The handler goes on, and its commit opens the interval of allocation 10 with 0. -/
abbrev OpensWithZero (s : Sys store) : Prop := Write.patchAllocation 10 (.activeStartedAt 0) 0 ∈
  (s.perform (prog {}) (fun _ _ => true) [.go 2 { uuid := 30 } 8]).commits (.act 2 (.go true) : Choice store Client)

theorem stamp_is_when_opened_at_once : ∃ s₃ : Sys store,
    (calling 0).step (prog {}) (.act 2 (.host { uuid := 30 })) = some s₃ ∧ OpensWithZero s₃ ∧
    (0 = (Conn.idle.opened 0 : Conn store).now ∧
      ((calling 0).clock ≤ 0 ↔ (Conn.idle.opened 0 : Conn store).now = (calling 0).clock)) := by
  obtain ⟨s₃, hs3, hstamp⟩ : ∃ s₃ : Sys store,
      (calling 0).step (prog {}) (.act 2 (.host { uuid := 30 })) = some s₃ ∧ decide (OpensWithZero s₃) = true :=
    map_eq_some_iff.mp (by decide +kernel)
  replace hstamp := of_decide_eq_true hstamp
  refine ⟨s₃, hs3, hstamp, ?_⟩
  unfold OpensWithZero at hstamp
  exact stamp_is_when_opened (reachable_scripted fresh created) step_created
    (leads_calling 0) (length_created ▸ sess_calling 0) rfl (length_created ▸ hs3)
    (Sys.Leads.perform s₃ _) (length_created ▸ hstamp)

/-- **An hour of provisioning inside the billed interval**: the provider returns at 3600 seconds, the
    interval is opened with 0. -/
theorem billed_while_provisioning : ∃ s₃ : Sys store,
    Reachable {} (calling 3600000000) ∧ (calling 3600000000).clock = 3600000000 ∧
    (calling 3600000000).sess[2]? =
      some ⟨connection (callProvision provisionJob labSystem), Conn.idle.opened 0⟩ ∧
    (calling 3600000000).step (prog {}) (.act 2 (.host { uuid := 30 })) = some s₃ ∧ OpensWithZero s₃ := by
  obtain ⟨s₃, hs3, hstamp⟩ : ∃ s₃ : Sys store, (calling 3600000000).step (prog {}) (.act 2 (.host { uuid := 30 })) =
      some s₃ ∧ decide (OpensWithZero s₃) = true :=
    map_eq_some_iff.mp (by decide +kernel)
  exact ⟨s₃, reachable_scripted fresh _, by decide +kernel, sess_calling _, hs3, of_decide_eq_true hstamp⟩

/-! ## The record of a failure -/

theorem reprovisionHandler_writes (T : Time) : (reprovisionHandler cfg job).Writes T (Write.StampsAt T) := by
  refine Writes.bind (.select _) ?_
  intro row
  cases row with
  | none => trivial
  | some =>
    refine .bind (runtimeForSystem_writes cfg _) ?_
    intro _
    split
    · refine .bind (.ask _) ?_
      intro answer
      cases answer with
      | error e => exact failing_writes _ _ _ _ e
      | ok =>
        refine .bind (.transaction (.bind (.selectFor _ _) fun _ => .bind (.selectFor _ _) ?_)) ?_
        · intro row
          cases row with
          | none => trivial
          | some =>
            dsimp only
            split
            · exact .bind (updateSystem_writes _ _) fun _ =>
                .bind (auditTransition_writes _ _ _ _ _) fun _ => trivial
            · trivial
        · intro current
          split
          · exact teardown_writes
          · trivial
    · trivial

/-- Wherever the host is asked, the provider among others, the job's own transaction is open. -/
def openDuty : Duty store where
  asking l := ∃ t, l.tx = some t ∧ t.implicit = true
  committing _ _ := True

def silentDuty : Duty store where
  asking _ := True
  committing _ ws := ws = []

theorem openDuty_asking {T : Time} {ok : Write → Prop} (h : Within T ok l) : openDuty.asking l := by
  obtain ⟨t, ht, -, himplicit⟩ := h.exists_tx
  exact ⟨t, ht, himplicit⟩

/-- The worker runs both handlers so that the provider is called in the transaction their first read has
    opened. -/
theorem handlers_call_within : (⟨runHandler (provisionHandler cfg job), .idle⟩ : Sess store).Dutiful openDuty ∧
    (⟨runHandler (reprovisionHandler cfg job), .idle⟩ : Sess store).Dutiful openDuty := by
  -- the worker's own statements ask the host nothing
  have hjob : ∀ (r : Except Err Unit) (l : Conn store), Local openDuty (fun _ _ => True)
      (match r with
        | .ok _ => connection elsewhere
        | .error _ => connection elsewhere) l := by
    intro r l
    cases r <;>
      exact fun _ _ => ⟨fun _ => ⟨fun _ => trivial, fun _ => trivial, trivial⟩,
        fun _ _ => ⟨fun _ => trivial, fun _ => trivial, trivial⟩⟩
  have hopening : ∀ T (l : Conn store), Within T (Write.StampsAt T) l → openDuty.asking l :=
    fun _ _ h => openDuty_asking h
  constructor
  · refine local_attempt.mpr ?_
    refine .mono (Q := fun _ _ => True) (fun r l _ => hjob r l) ?_
    exact Writes.connection_opening hopening (fun _ => trivial) (fun _ _ _ => trivial)
      (provisionHandler_writes cfg job)
  · refine local_attempt.mpr ?_
    refine .mono (Q := fun _ _ => True) (fun r l _ => hjob r l) ?_
    exact Prog.Writes.connection_opening hopening (fun _ => trivial) (fun _ _ _ => trivial)
      (reprovisionHandler_writes cfg job)

theorem elsewhere_silent : Local silentDuty (fun _ _ => True) (connection elsewhere) (.idle : Conn store) := by
  intro T v
  refine ⟨fun e => ⟨fun _ => trivial, fun hb => absurd hb (by simp), trivial⟩, ?_⟩
  intro ws hws
  cases hws
  exact ⟨fun _ => trivial, fun _ => rfl, trivial⟩

/-- In an open transaction the record is undone by the exception that follows it, whatever else runs. -/
theorem failing_silent {T : Time} (h : Within T (fun _ => True) l) (job : Job)
    (system : System) (transition tool : String) (e : CategorizedError) :
    (⟨runHandler (failing job system transition tool (.categorized e)), l⟩ : Sess store).Dutiful silentDuty := by
  have hrecord : (recordSystemFailure job system transition tool).Writes T (fun _ => True) := by
    refine .catching (.transaction (.bind ?_ fun _ => ?_)) fun _ => trivial
    · exact (updateSystemState_writes _ _).mono fun _ _ => trivial
    · exact (auditTransition_writes _ _ _ _ _).mono fun _ _ => trivial
  unfold Sess.Dutiful runHandler connection
  rw [local_attempt, local_attempt]
  show Local silentDuty _ (recordSystemFailure job system transition tool >>= fun _ =>
    (.raise (.categorized e) : Async Unit)) l
  rw [bind_def, local_attempt]
  refine .mono ?_ (hrecord.within (fun _ _ => trivial) rfl h)
  intro r l' _
  -- whatever the record came to, the connection is returned with a rollback
  cases r <;>
    exact ⟨fun _ => elsewhere_silent, fun hb => absurd hb (by simp), elsewhere_silent⟩

def failureAudit (job : Job) (system : System) (transition tool : String) : AuditRow :=
  Audit.row job.principal job.agentSession
    { tool := tool, objectKind := "systems", objectId := system.id, transition := [.text transition]
      args := [("system_id", .id system.id)], project := system.project }

def failureWrites (job : Job) (system : System) (transition tool : String) : List Write :=
  [.patchSystem system.id (.state .failed), .insertAudit (failureAudit job system transition tool)]

def FailureKept (job : Job) (system : System) (transition tool : String) (db : Db) : Prop :=
  (db.systems.get system.id).map (·.state) = some .failed ∧ failureAudit job system transition tool ∈ db.auditLog

section
variable (job : Job) {system row : System} (transition tool : String) (host : Nat → Host)
variable (clock : Time) {db : Db} (n : Nat)

theorem solo_failureBlock {t : Tx store} (locks : List LockKey) (ht : t.log = [])
    (hrow : db.systems.get system.id = some row) (hstate : row.state = .provisioning ∨ row.state = .reprovisioning) :
    ∃ locks', (updateState system.id .failed >>= fun _ => auditTransition job
      system.project system.id [.text transition] tool).solo host clock ⟨some t, locks⟩ db n =
        ⟨.ok (), ⟨some { t with log := failureWrites job system transition tool }, locks'⟩, db, n⟩ := by
  have hgo : row.state.ensureTransition .failed = .ok () := by
    rcases hstate with h | h <;> rw [h] <;> rfl
  rw [solo_bind]
  simp [updateState, getForUpdate, update, updateStmt, bind_def, attempt, andThen, selectFor, stmt, solo, transaction,
    Prog.ofExcept, Conn.enter, Conn.opened, Conn.view, Conn.log, Conn.take, Conn.push, Conn.leave,
    hrow, hgo, ht, auditTransition, Audit.record, Audit.recordSystem, Audit.insertStmt,
    failureAudit, failureWrites]

variable {l : Conn store}

theorem solo_recordSystemFailure {t : Tx store} {locks : List LockKey}
    (henter : l.enter clock = ⟨some t, locks⟩) (ht : t.log = []) (hrow : db.systems.get system.id = some row)
    (hstate : row.state = .provisioning ∨ row.state = .reprovisioning) :
    ∃ locks', (recordSystemFailure job system transition tool).solo host clock l db n =
      let l' : Conn store := ⟨some { t with log := failureWrites job system transition tool }, locks'⟩
      ⟨.ok (), l'.leave.2, store.applyAll l'.leave.1 db, n⟩ := by
  obtain ⟨locks', hblock⟩ := solo_failureBlock job transition tool host clock n locks ht hrow hstate
  refine ⟨locks', ?_⟩
  unfold recordSystemFailure catching transaction
  rw [solo_attempt]
  simp only [solo, andThen, henter, solo_attempt, hblock]

theorem db_solo_failing (e : CategorizedError)
    (hpool : ∀ t, l.tx = some t → t.implicit = true ∧ t.log = [] ∧ t.marks = [])
    (hrow : db.systems.get system.id = some row) (hstate : row.state = .provisioning ∨ row.state = .reprovisioning) :
    ((runHandler (failing job system transition tool (.categorized e))).solo host
      clock l db n).db = if l.tx = none then store.applyAll (failureWrites job system transition tool) db else db := by
  obtain ⟨tx, locks⟩ := l
  have hrun : ∀ o : Outcome store Unit,
      (recordSystemFailure job system transition tool).solo host clock ⟨tx, locks⟩ db n = o →
      o.result = .ok () →
      ((runHandler (failing job system transition tool (.categorized e))).solo host
        clock ⟨tx, locks⟩ db n).db = o.db := by
    intro o ho hresult
    unfold runHandler connection
    rw [solo_attempt, solo_attempt]
    have hfail : (failing job system transition tool (.categorized e)).solo host clock
        ⟨tx, locks⟩ db n = ⟨.error (.categorized e), o.conn, o.db, o.asked⟩ := by
      show (recordSystemFailure job system transition tool >>= fun _ => _).solo _ _ _ _ _ = _
      rw [solo_bind, ho, hresult]
      rfl
    rw [hfail]
    rfl
  cases tx with
  | none =>
    -- the block is a transaction: its end commits
    obtain ⟨locks', hrecord⟩ := solo_recordSystemFailure job transition tool host clock n
      (l := ⟨none, locks⟩) rfl rfl hrow hstate
    rw [hrun _ hrecord rfl, if_pos rfl]
    rfl
  | some t =>
    -- the block is a savepoint: its end commits nothing, and the exception undoes it
    obtain ⟨himplicit, hlog, hmarks⟩ := hpool t rfl
    obtain ⟨start, implicit, log, marks⟩ := t
    obtain rfl : implicit = true := himplicit
    obtain rfl : log = [] := hlog
    obtain rfl : marks = [] := hmarks
    obtain ⟨locks', hrecord⟩ := solo_recordSystemFailure job transition tool host clock n
      (l := ⟨some ⟨start, true, [], []⟩, locks⟩) rfl rfl hrow hstate
    rw [hrun _ hrecord rfl, if_neg (by simp)]
    rfl

theorem failureKept_record (hrow : db.systems.get system.id = some row) :
    FailureKept job system transition tool (store.applyAll (failureWrites job system transition tool) db) := by
  constructor
  · show (((patchSystem system.id (.state .failed)).apply db).systems.get system.id).map (·.state) = _
    simp only [get_systems, onSystem, hrow, if_true, map_some]
    rfl
  · exact mem_append_right _ (mem_singleton_self _)

/-- A failure is recorded exactly if no transaction was open at the provider's call. -/
theorem failure_kept_iff (e : CategorizedError) {l : Conn store}
    (hpool : ∀ t, l.tx = some t → t.implicit = true ∧ t.log = [] ∧ t.marks = [])
    (hrow : db.systems.get system.id = some row)
    (hstate : row.state = .provisioning ∨ row.state = .reprovisioning) :
    (FailureKept job system transition tool
        ((runHandler (failing job system transition tool (.categorized e))).solo
          host clock l db n).db ↔
      l.tx = none) ∧
    (l.tx ≠ none → (⟨runHandler (failing job system transition tool
      (.categorized e)), l⟩ : Sess store).Dutiful silentDuty) ∧
    (∀ cfg,
      (⟨runHandler (provisionHandler cfg job), .idle⟩ : Sess store).Dutiful openDuty ∧
      (⟨runHandler (reprovisionHandler cfg job), .idle⟩ : Sess store).Dutiful openDuty) := by
  refine ⟨?_, ?_, fun cfg => handlers_call_within cfg job⟩
  · rw [db_solo_failing job transition tool host clock n e hpool hrow hstate]
    split
    · rename_i hidle
      exact ⟨fun _ => hidle, fun _ => failureKept_record job transition tool hrow⟩
    · rename_i hopen
      refine ⟨fun hkept => ?_, fun hidle => absurd hidle hopen⟩
      -- the row is as it was, and that is not failed
      have hfailed := hkept.1
      rw [hrow, map_some, some.injEq] at hfailed
      rcases hstate with h | h <;> rw [h] at hfailed <;> cases hfailed
  · intro hopen
    obtain ⟨t, ht⟩ := ne_none_iff_exists'.mp hopen
    have hwithin : Within t.start (fun _ => True) l :=
      ⟨by rw [ht]; rfl, by rw [ht, map_some, (hpool t ht).1], fun _ _ => trivial,
        fun _ _ _ _ => trivial⟩
    exact failing_silent hwithin job system transition tool e
end

def providerDown : CategorizedError :=
  { message := [.text "no space left"], category := .provisioningFailure }

theorem failure_kept_idle : (scripted {} db provisioning).db.systems.get labSystem.id = some labSystem ∧
    FailureKept provisionJob labSystem "provisioning->failed" "systems.provision"
      ((runHandler (failing provisionJob labSystem "provisioning->failed"
        "systems.provision" (.categorized providerDown))).solo (fun _ => ({} : Host)) 0 .idle
          (scripted {} db provisioning).db 0).db := by
  have hrow : (scripted {} db provisioning).db.systems.get labSystem.id = some labSystem := by
    decide +kernel
  exact ⟨hrow, (failure_kept_iff provisionJob "provisioning->failed" "systems.provision"
    (fun _ => {}) 0 0 providerDown (l := .idle) (fun t ht => by cases ht) hrow (.inl rfl)).1.mpr rfl⟩

def raised (q : Sess store) : Bool :=
  match q.prog with
  | .raise _ => true
  | _ => false

def failedProvision : Sys store :=
  scripted {} db (provisioning ++ [.go 2 { uuid := 30, provision := .error (.categorized providerDown) } 13])

/-- **A failure that nobody can see**: the provider has failed and the job with it, the System is still
    provisioning, and there is no audit row. -/
theorem failure_lost : Reachable {} failedProvision ∧ failedProvision.sess[2]?.map raised = some true ∧
    (failedProvision.db.systems.get labSystem.id).map (·.state) = some .provisioning ∧
    failureAudit provisionJob labSystem "provisioning->failed" "systems.provision" ∉ failedProvision.db.auditLog :=
  ⟨reachable_scripted fresh _, by decide +kernel, by decide +kernel, by decide +kernel⟩
end Kdive
