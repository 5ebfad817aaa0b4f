import Kdive.Lib.Trace
import Kdive.Platform.Proof.Clients

/-! # Runs of the whole platform

The tools of the server, the workers' handlers and the reconciler's repairs, any number of each at once,
as in `Kdive.Runs.Basic` but over the whole database. A run starts where nothing has been requested yet;
build hosts are there, as many as one likes.
-/

namespace Kdive.Platform
open Lib hiding Ready
open Jobs (JobRow)
open Kdive.Platform.Client

structure Fresh (db : store.Db) : Prop where
  core : Kdive.Fresh db.1
  /-- `accounting.set_quota` accepts no negative cap. -/
  quotas : ∀ p q, db.1.quotas.get p = some q → 0 ≤ q.maxConcurrentSystems
  investigations : db.2.investigations.rows = []
  runs : db.2.runs.rows = []
  steps : db.2.steps.rows = []
  sessions : db.2.sessions.rows = []
  jobs : db.2.jobs.rows = []
  leases : db.2.leases.rows = []

namespace Fresh
variable {db : store.Db} (h : Fresh db) (id : Uuid)

include h

theorem get_run : db.2.runs.get id = none := Table.get_of_rows_nil h.runs id

theorem get_session : db.2.sessions.get id = none := Table.get_of_rows_nil h.sessions id

theorem get_job : db.2.jobs.get id = none := Table.get_of_rows_nil h.jobs id

theorem get_lease : db.2.leases.get id = none := Table.get_of_rows_nil h.leases id

theorem sound : Sound db := by
  refine ⟨h.core.wellFormed, ?_, ?_⟩
  · intro id x hx
    rw [h.get_session] at hx
    cases hx
  · intro id j hj
    rw [h.get_job] at hj
    cases hj
end Fresh

/-- The states the platform reaches by steps that all meet `ok`. -/
abbrev ReachableBy (cfg : Config) (ok : Sys store → Choice store Client → Prop) (s : Sys store) : Prop :=
  Sys.Reach (prog cfg) Fresh ok s

abbrev Reachable (cfg : Config) (s : Sys store) : Prop := ReachableBy cfg (fun _ _ => True) s

section
variable {cfg : Config} {ok : Sys store → Choice store Client → Prop} {s s' : Sys store}

theorem ReachableBy.holds (h : ReachableBy cfg ok s) : Holds protocol s :=
  Sys.Reach.holds (fun _ c _ => client_safe cfg c) (fun _ => Fresh.sound) h

/-- **What every step of a transaction keeps holds in every committed state of every run.** -/
theorem ReachableBy.always {J : store.Db → Prop} (hinit : ∀ db, Fresh db → J db)
    (hact : ∀ (a : Act) c, Sound c → J c → a.guard c → J (a.on c)) (h : ReachableBy cfg ok s) : J s.db :=
  Sys.Reach.always (fun _ c _ => client_safe cfg c) (fun _ => Fresh.sound) hinit hact h

/-- What a step of the platform commits: a transaction whose keys its session holds. -/
theorem ReachableBy.commits (h : ReachableBy cfg ok s) {ch : Choice store Client}
    (hs : s.step (prog cfg) ch = some s') : s'.db = store.applyAll (s.commits ch) s.db ∧
      ∃ as, IsBatch as ∧ s.commits ch = as.flatMap Act.writes ∧ protocol.Path s.db as := by
  obtain ⟨-, hdb, as, hb, hws, hpath⟩ := h.holds.step (fun c _ => client_safe cfg c) hs
  exact ⟨hdb, as, hb, hws, hpath⟩
end

/-! ## Scripts -/

abbrev Script : Type := List (Sys.Order store Client)

def scripted (cfg : Config) (db : store.Db) (orders : Script) : Sys store :=
  Sys.perform (prog cfg) (fun _ _ => true) ⟨db, 0, []⟩ orders

theorem reachable_scripted {cfg : Config} {db : store.Db} (h : Fresh db)
    (orders : Script) : Reachable cfg (scripted cfg db orders) :=
  Sys.Reach.perform (fun _ _ _ => trivial) orders (.init 0 h)

def told (cfg : Config) (db : store.Db) (orders : Script) : Sys.Told store Client :=
  Sys.Told.perform (prog cfg) ([], ⟨db, 0, []⟩) orders

theorem path_told {cfg : Config} {db : store.Db} (h : Fresh db) (orders : Script) :
    (Sys.machine (prog cfg) Fresh).Path (told cfg db orders).1 (told cfg db orders).2 :=
  Sys.path_perform orders (.init ⟨h, rfl⟩)

namespace Lab
def db : store.Db :=
  (Kdive.Lab.db,
    { buildHosts := ⟨[⟨5, "worker-local", .isLocal, 1, true, .ready⟩, ⟨6, "farm", .ssh, 1, true, .ready⟩],
        by decide⟩ })

theorem fresh : Fresh db where
  core := Kdive.Lab.fresh
  quotas := by
    intro p q hq
    have hall : ∀ q ∈ db.1.quotas.rows, 0 ≤ q.maxConcurrentSystems := by decide
    exact hall q (Table.mem_of_get hq)
  investigations := rfl
  runs := rfl
  steps := rfl
  sessions := rfl
  jobs := rfl
  leases := rfl

def member : RequestContext := Kdive.Lab.member "kernel"

def call (session : Nat) (client : Client) (uuid : Uuid) : Script :=
  [.start client, .go session ({ uuid := uuid }, {}) 100]

def ready : Script :=
  call 0 (.core (Kdive.Lab.oneHour "kernel" (some 1) [] .deny)) 10 ++
    call 1 (.core (.createSystem member 10 .provision)) 20 ++
    call 2 (.core (.provision Kdive.Lab.provisionJob)) 21

def run (profile : BuildProfile) : Script :=
  ready ++ call 3 (.openInvestigation member "kernel") 30 ++ call 4 (.createRun member 30 20 profile) 40
end Lab
end Kdive.Platform
