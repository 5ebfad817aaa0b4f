import Kdive.Domain.Models
import Kdive.Lib.Machine

/-! # Debug sessions and their repair

`repair_dead_sessions` detaches a `live` session whose `worker_heartbeat_at` is older than a threshold. The heartbeat
is written once, when the session is attached, so what the repair measures is the session's age
(`heartbeat_is_start`): one in use is detached under its user (`used_session_detached`). The repair is right exactly
when no session of that age has been used within the threshold (`repair_detaches_idle_iff`).
-/

namespace Kdive.DebugSession
open Lib

/-- The row as the transaction that attaches it leaves it: inserted in `attach`, and set to `live`. -/
def live (id runId : Uuid) (project : String) (transport : DebugTransport) (handle : String)
    (now : Time) : DebugSession where
  id := id
  project := project
  runId := runId
  state := .live
  transport := transport
  transportHandle := some handle
  workerHeartbeatAt := some now

variable (session : DebugSession)

def detachIf (p : DebugSession → Bool) : DebugSession :=
  if p session then { session with state := .detached } else session

theorem key_detachIf (p : DebugSession → Bool) : Keyed.key (session.detachIf p) = Keyed.key session := by
  unfold detachIf
  split <;> rfl
end Kdive.DebugSession

namespace Kdive.Debug
open Lib

/-- What the sessions are looked up against: the System of a Run, and the domain of a System. -/
structure Config where
  systemOf : Uuid → Option Uuid
  domainNameOf : Uuid → Option String

inductive DebugOp where
  | setBreakpoint | clearBreakpoint | listBreakpoints | readMemory | readRegisters | continue | interrupt
  deriving DecidableEq

/-- A call of `resetter.reset`. -/
structure Reset where
  sessionId : Uuid
  transport : DebugTransport
  transportHandle : Option String
  domainName : Option String

structure State where
  sessions : Table DebugSession
  clock : Time
  /-- The operations that have found their session live, and have not come back yet. -/
  operations : List (Uuid × DebugOp)
  /-- The sessions the repair has detached, and whose transport it has still to look at. -/
  detached : List DebugSession
  resets : List Reset

inductive Move where
  /-- `_insert_session_locked`, at `now` on the server's clock. -/
  | starts (id runId : Uuid) (project : String) (transport : DebugTransport) (handle : String) (now : Time)
  /-- `run_engine_op` finds the session live. -/
  | operates (id : Uuid) (op : DebugOp)
  /-- The engine comes back, with a success or an error. -/
  | completes (id : Uuid) (op : DebugOp) (success : Bool)
  /-- `_detach_locked`. -/
  | ends (id : Uuid)
  /-- `detach_sessions`, after a crash. -/
  | crashes (systemId : Uuid)
  /-- The `UPDATE` of `repair_dead_sessions`, in a transaction that began at `now`. -/
  | repairs (staleAfter : Time) (now : Time)
  /-- `_reset_dead_transport` of the next session it has detached. -/
  | resets (succeeds : Bool)
  | wait (d : Nat)

namespace State
variable (s : State)

/-- `_system_occupied`. -/
def occupied (cfg : Config) (systemId : Uuid) (transport : DebugTransport) : Bool :=
  s.sessions.rows.any fun session =>
    session.occupies && session.transport = transport && cfg.systemOf session.runId = some systemId

def detach (p : DebugSession → Bool) : State :=
  { s with sessions := s.sessions.map (·.detachIf p) fun session => session.key_detachIf p }

/-- The rows the `UPDATE` of the repair returns are those it has to reset. -/
def repair (staleAfter now : Time) : State :=
  { s.detach (·.dead staleAfter now) with
    detached := s.detached ++ s.sessions.rows.filter (·.dead staleAfter now) }

def hasLiveGdbstubHolder (cfg : Config) (systemId : Uuid) : Bool :=
  s.sessions.rows.any fun session => session.state = .live && session.transport = .gdbstub &&
    cfg.systemOf session.runId = some systemId

def step (cfg : Config) : Move → Option State
  | .starts id runId project transport handle now =>
    (cfg.systemOf runId).bind fun systemId =>
      if s.occupied cfg systemId transport || (s.sessions.get id).isSome || now > s.clock then none
      else some { s with sessions := s.sessions.insert (.live id runId project transport handle now) }
  | .operates id op =>
    if (s.sessions.get id).any (·.state = .live) then
      some { s with operations := s.operations ++ [(id, op)] }
    else none
  | .completes id op _ =>
    if s.operations.contains (id, op) then some { s with operations := s.operations.erase (id, op) }
    else none
  | .ends id => some (s.detach (·.id = id))
  | .crashes systemId =>
    some (s.detach fun session => session.occupies && cfg.systemOf session.runId = some systemId)
  | .repairs staleAfter now =>
    if now > s.clock then none
    else some (s.repair staleAfter now)
  | .resets _ =>
    match s.detached with
    | [] => none
    | session :: rest =>
      let systemId := cfg.systemOf session.runId
      if systemId.any (s.hasLiveGdbstubHolder cfg) then some { s with detached := rest }
      else some { s with
        detached := rest
        resets := s.resets ++ [⟨session.id, session.transport, session.transportHandle,
          systemId.bind cfg.domainNameOf⟩] }
  | .wait d => some { s with clock := s.clock + d }
end State

abbrev debugging (cfg : Config) : Machine where
  State := State
  Move := Move
  init := fun s => s.sessions.rows = []
  step := fun s m => s.step cfg m

/-! ## Histories -/

abbrev History := List (State × Move)

def startedAt (past : History) (id : Uuid) : Option Time :=
  past.findSome? fun e =>
    match e.2 with
    | .starts id' _ _ _ _ now => if id' = id then some now else none
    | _ => none

def completions (past : History) (id : Uuid) : List Time :=
  past.filterMap fun e =>
    match e.2 with
    | .completes id' _ true => if id' = id then some e.1.clock else none
    | _ => none

def usedWithin (past : History) (id : Uuid) (d t : Time) : Prop :=
  ∃ u ∈ completions past id, t - d < u ∧ u ≤ t

instance (past : History) (id : Uuid) (d t : Time) : Decidable (usedWithin past id d t) :=
  inferInstanceAs (Decidable (∃ u ∈ completions past id, t - d < u ∧ u ≤ t))

section
variable {cfg : Config} {s s' : State} {m : Move} {past : History} {id : Uuid} {session : DebugSession}

theorem startedAt_of_ne (h : ∀ runId project transport handle now, m ≠ .starts id runId project transport handle now) :
    startedAt ((s, m) :: past) id = startedAt past id := by
  refine List.findSome?_cons_of_isNone ?_
  cases m with
  | starts id' runId project transport handle now =>
    have hne : id' ≠ id := fun heq => h runId project transport handle now (heq ▸ rfl)
    simp [hne]
  | _ => rfl

theorem State.get_detach (p : DebugSession → Bool) :
    (s.detach p).sessions.get id = (s.sessions.get id).map (·.detachIf p) :=
  Table.get_map _ _ (fun session => session.key_detachIf p) id

theorem heartbeat_detachIf (p : DebugSession → Bool) :
    (session.detachIf p).workerHeartbeatAt = session.workerHeartbeatAt := by
  unfold DebugSession.detachIf
  split <;> rfl

/-- A row that is there after a move was there before it, with the same heartbeat, or has just been
    inserted. -/
theorem row_step (h : s.step cfg m = some s') (hrow : s'.sessions.get id = some session) :
    (∃ old, s.sessions.get id = some old ∧ session.workerHeartbeatAt = old.workerHeartbeatAt) ∧
      (∀ runId project transport handle now, m ≠ .starts id runId project transport handle now) ∨
    ∃ runId project transport handle now, m = .starts id runId project transport handle now ∧
      session.workerHeartbeatAt = some now := by
  have hdetach : ∀ p : DebugSession → Bool, (s.detach p).sessions.get id = some session →
      ∃ old, s.sessions.get id = some old ∧ session.workerHeartbeatAt = old.workerHeartbeatAt := by
    intro p hrow
    rw [State.get_detach] at hrow
    obtain ⟨old, hold, rfl⟩ := Option.map_eq_some_iff.mp hrow
    exact ⟨old, hold, heartbeat_detachIf p⟩
  cases m with
  | starts id' runId project transport handle now =>
    simp only [State.step, Option.bind_eq_some_iff] at h
    obtain ⟨systemId, -, h⟩ := h
    split at h
    · cases h
    · cases h
      rcases eq_or_ne id' id with rfl | hid
      · refine .inr ⟨runId, project, transport, handle, now, rfl, ?_⟩
        rename_i hfree
        have hnone : s.sessions.get id' = none := by
          cases hget : s.sessions.get id' with
          | none => rfl
          | some => simp [hget] at hfree
        cases
          (Table.get_insert_self (r := DebugSession.live id' runId project transport handle now) hnone).symm.trans hrow
        rfl
      · have hkey : Keyed.key (DebugSession.live id' runId project transport handle now) ≠ id := hid
        replace hrow := (Table.get_insert_of_ne hkey).symm.trans hrow
        refine .inl ⟨⟨session, hrow, rfl⟩, fun _ _ _ _ _ heq => hid ?_⟩
        cases heq
        rfl
  | operates | completes =>
    simp only [State.step] at h
    split at h <;> cases h
    exact .inl ⟨⟨session, hrow, rfl⟩, (by rintro _ _ _ _ _ ⟨⟩)⟩
  | ends | crashes => cases h; exact .inl ⟨hdetach _ hrow, (by rintro _ _ _ _ _ ⟨⟩)⟩
  | repairs =>
    simp only [State.step] at h
    split at h <;> cases h
    exact .inl ⟨hdetach _ hrow, (by rintro _ _ _ _ _ ⟨⟩)⟩
  | resets =>
    simp only [State.step] at h
    split at h
    · cases h
    · split at h
      all_goals
        cases h
        exact .inl ⟨⟨session, hrow, rfl⟩, (by rintro _ _ _ _ _ ⟨⟩)⟩
  | wait => cases h; exact .inl ⟨⟨session, hrow, rfl⟩, (by rintro _ _ _ _ _ ⟨⟩)⟩

theorem heartbeat_is_start (h : (debugging cfg).Path past s) : ∀ id session, s.sessions.get id = some session →
      session.workerHeartbeatAt = startedAt past id ∧ (startedAt past id).isSome = true := by
  refine h.always (I := fun past (s : State) => ∀ id session, s.sessions.get id = some session →
    session.workerHeartbeatAt = startedAt past id ∧ (startedAt past id).isSome = true) ?_ ?_
  · intro s hinit id session hrow
    rw [Table.get_of_rows_nil hinit] at hrow
    cases hrow
  · intro (past : History) (s : State) (m : Move) (s' : State) _ hI hs id session hrow
    rcases row_step hs hrow with ⟨⟨old, hold, hsame⟩, hne⟩ | ⟨runId, project, transport, handle, now, rfl, hnow⟩
    · obtain ⟨hstart, hsome⟩ := hI id old hold
      rw [startedAt_of_ne hne, hsame]
      exact ⟨hstart, hsome⟩
    · have hstart : startedAt ((s, .starts id runId project transport handle now) :: past) id = some now :=
        List.findSome?_cons_of_isSome (by simp) |>.trans (if_pos rfl)
      exact ⟨hnow.trans hstart.symm, by rw [hstart]; rfl⟩
end

/-! ## What the repair detaches -/

/-- The repair at `now` takes the session from `live` to `detached`. -/
def Detaches (cfg : Config) (s : State) (staleAfter now : Time) (id : Uuid) : Prop :=
  ∃ s', s.step cfg (.repairs staleAfter now) = some s' ∧
    (s.sessions.get id).any (·.state = .live) = true ∧ (s'.sessions.get id).any (·.state = .detached) = true

theorem detaches_iff {cfg : Config} {s : State} {staleAfter now : Time} {id : Uuid} (hnow : now ≤ s.clock) :
    Detaches cfg s staleAfter now id ↔
      ∃ session, s.sessions.get id = some session ∧ session.dead staleAfter now = true := by
  have hstep : s.step cfg (.repairs staleAfter now) = some (s.repair staleAfter now) :=
    if_neg (not_lt.mpr hnow)
  have hget : (s.repair staleAfter now).sessions.get id =
      (s.sessions.get id).map (·.detachIf (·.dead staleAfter now)) := s.get_detach _
  constructor
  · rintro ⟨s', hs', hlive, hdetached⟩
    rw [hstep] at hs'
    cases hs'
    obtain ⟨session, hrow, hstate⟩ := (Option.any_eq_true _ _).mp hlive
    refine ⟨session, hrow, ?_⟩
    by_contra hdead
    rw [hget, hrow, Option.map_some, Option.any_some, DebugSession.detachIf, if_neg hdead] at hdetached
    simp only [decide_eq_true_eq] at hstate hdetached
    cases hstate.symm.trans hdetached
  · rintro ⟨session, hrow, hdead⟩
    refine ⟨_, hstep, ?_, ?_⟩
    · rw [hrow]
      simp only [DebugSession.dead, Bool.and_eq_true] at hdead
      exact hdead.1
    · rw [hget, hrow, Option.map_some, Option.any_some, DebugSession.detachIf, if_pos hdead]
      rfl

/-- A repair detaches only idle sessions exactly if no older live one is in use: it goes by the start. -/
theorem repair_detaches_idle_iff (cfg : Config) {past : History} {s : State}
    (h : (debugging cfg).Path past s) (staleAfter now : Time) (hnow : now ≤ s.clock) :
    (∀ id, Detaches cfg s staleAfter now id →
      (startedAt past id).any (· ≤ now - staleAfter) = true ∧ ¬ usedWithin past id staleAfter now) ↔
    ∀ session ∈ s.sessions.rows, session.state = .live → (startedAt past session.id).any (· < now - staleAfter) = true →
      ¬ usedWithin past session.id staleAfter now := by
  have hheart := heartbeat_is_start h
  have hdead : ∀ id session, s.sessions.get id = some session →
      (session.dead staleAfter now = true ↔
        session.state = .live ∧ (startedAt past id).any (· < now - staleAfter) = true) := by
    intro id session hrow
    rw [DebugSession.dead, Bool.and_eq_true, decide_eq_true_eq, (hheart id session hrow).1]
  constructor
  · intro hall session hmem hlive hold
    have hrow : s.sessions.get session.id = some session := Table.get_eq_some.mpr ⟨hmem, rfl⟩
    refine (hall session.id ((detaches_iff hnow).mpr ⟨session, hrow, ?_⟩)).2
    exact (hdead session.id session hrow).mpr ⟨hlive, hold⟩
  · intro hidle id hdetaches
    obtain ⟨session, hrow, hd⟩ := (detaches_iff hnow).mp hdetaches
    obtain ⟨hlive, hold⟩ := (hdead id session hrow).mp hd
    obtain rfl : session.id = id := Table.key_eq_of_get hrow
    refine ⟨?_, hidle session (Table.mem_of_get hrow) hlive hold⟩
    obtain ⟨start, hstart, hlt⟩ := (Option.any_eq_true _ _).mp hold
    rw [hstart, Option.any_some]
    exact decide_eq_true (le_of_lt (of_decide_eq_true hlt))

/-! ## Runs -/

def demo : Config := ⟨fun _ => some 1, fun _ => some "kdive-1"⟩

def idle : State := ⟨Table.empty, 0, [], [], []⟩

/-- A session is started at 0, its registers are read at 90, and `d` later nothing else has happened. -/
def readAtNinety (d : Nat) : List Move :=
  [.starts 7 1 "kernel" .gdbstub "gdb://1" 0, .wait 90, .operates 7 .readRegisters, .completes 7 .readRegisters true,
    .wait d]

theorem path_readAtNinety (d : Nat) : (debugging demo).Path ((debugging demo).history idle (readAtNinety d) [])
    ((debugging demo).runTo idle (readAtNinety d)) :=
  Machine.path_runTo (M := debugging demo) (readAtNinety d) (.init (show idle.sessions.rows = [] from rfl))

theorem repair_detaches_idle_session :
    (startedAt ((debugging demo).history idle (readAtNinety 105) []) 7).any (· ≤ (195 - 100 : Time)) = true ∧
      ¬ usedWithin ((debugging demo).history idle (readAtNinety 105) []) 7 100 195 := by
  refine (repair_detaches_idle_iff demo (path_readAtNinety 105) 100 195 (by decide +kernel)).mpr
    (by decide +kernel) 7 ?_
  exact (detaches_iff (by decide +kernel)).mpr ⟨_, rfl, by decide +kernel⟩

/-- A session used at 90 is stale at 110, as it started at 0. -/
theorem used_session_detached : let s := (debugging demo).runTo idle (readAtNinety 20)
    let past := (debugging demo).history idle (readAtNinety 20) []
    (debugging demo).Path past s ∧ s.clock = 110 ∧ Detaches demo s 100 110 7 ∧ usedWithin past 7 100 110 := by
  refine ⟨path_readAtNinety 20, by decide +kernel, ?_, by decide +kernel⟩
  exact (detaches_iff (by decide +kernel)).mpr ⟨_, rfl, by decide +kernel⟩
end Kdive.Debug
