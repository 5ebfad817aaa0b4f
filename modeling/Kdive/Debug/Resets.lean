import Kdive.Debug.Sessions

/-! # Resets of dead transports

`_reset_dead_transport` asks whether the System has a live gdbstub session in a transaction of its own, and resets the
transport afterwards, under no lock. A session that is attached in between is cut off (`live_session_reset`); that is
the only way (`resets_spare_live`).
-/

namespace Kdive.Debug
open Lib List DebugSession

/-- The sessions, and those whose System the repair has found without a live holder, before their reset. -/
structure Repairing where
  debug : State
  found : List DebugSession

inductive RepairMove where
  /-- Anything but a reset. -/
  | debugs (m : Move)
  /-- The transaction of `_reset_dead_transport` for the next session. -/
  | checks
  /-- `resetter.reset`, for a session that has been found. -/
  | fires (session : DebugSession)

variable (cfg : Config)

def resetOf (session : DebugSession) : Reset :=
  ⟨session.id, session.transport, session.transportHandle, (cfg.systemOf session.runId).bind cfg.domainNameOf⟩

namespace Repairing
/-- The System of the session has a live gdbstub session. -/
def held (s : Repairing) (session : DebugSession) : Bool :=
  (cfg.systemOf session.runId).any (s.debug.hasLiveGdbstubHolder cfg)

def step (s : Repairing) : RepairMove → Option Repairing
  | .debugs (.resets _) => none
  | .debugs m => (s.debug.step cfg m).map fun debug => { s with debug := debug }
  | .checks =>
    match s.debug.detached with
    | [] => none
    | session :: rest => some {
        debug := { s.debug with detached := rest }
        found := if s.held cfg session then s.found else s.found ++ [session] }
  | .fires session =>
    if session ∈ s.found then some {
      debug := { s.debug with resets := s.debug.resets ++ [resetOf cfg session] }
      found := s.found.erase session }
    else none

/-- No gdbstub session is attached to a System whose reset is next. -/
def careful (s : Repairing) : RepairMove → Bool
  | .debugs (.starts _ runId _ .gdbstub _ _) =>
    s.found.all fun session => cfg.systemOf session.runId ≠ cfg.systemOf runId
  | _ => true
end Repairing

abbrev repairing : Machine where
  State := Repairing
  Move := RepairMove
  init := fun s => s.debug.sessions.rows = [] ∧ s.debug.detached = [] ∧ s.found = []
  step := fun s m => s.step cfg m

variable {cfg} {s s' : State} {m : Move} {systemId : Uuid}

theorem holder_of_detach {p : DebugSession → Bool} (h : (s.detach p).hasLiveGdbstubHolder cfg systemId = true) :
    s.hasLiveGdbstubHolder cfg systemId = true := by
  obtain ⟨session, hmem, hlive⟩ := any_eq_true.mp h
  obtain ⟨old, hold, rfl⟩ := mem_map.mp hmem
  refine any_eq_true.mpr ⟨old, hold, ?_⟩
  unfold detachIf at hlive
  split at hlive
  · simp at hlive
  · exact hlive

/-- A live gdbstub session of the System was there before the move, or is attached by it. -/
theorem holder_step (h : s.step cfg m = some s') (hholder : s'.hasLiveGdbstubHolder cfg systemId = true) :
    s.hasLiveGdbstubHolder cfg systemId = true ∨ ∃ id runId project handle now,
      m = .starts id runId project .gdbstub handle now ∧ cfg.systemOf runId = some systemId := by
  cases m with
  | starts id runId project transport handle now =>
    simp only [State.step, Option.bind_eq_some_iff] at h
    obtain ⟨_, -, h⟩ := h
    split at h
    · cases h
    · rename_i hfree
      cases h
      have hnone : s.sessions.get id = none := by
        cases hget : s.sessions.get id with
        | none => rfl
        | some => simp [hget] at hfree
      rw [State.hasLiveGdbstubHolder, Table.rows_insert (r := live id runId project transport handle now) hnone,
        any_append, Bool.or_eq_true] at hholder
      refine hholder.imp_right fun hnew => ?_
      simp only [live, any_cons, any_nil, Bool.or_false, Bool.and_eq_true, decide_eq_true_eq] at hnew
      obtain ⟨⟨-, rfl⟩, hsystem⟩ := hnew
      exact ⟨id, runId, project, handle, now, rfl, hsystem⟩
  | operates | completes =>
    simp only [State.step] at h
    split at h <;> cases h
    exact .inl hholder
  | ends | crashes =>
    cases h
    exact .inl (holder_of_detach hholder)
  | repairs =>
    simp only [State.step] at h
    split at h <;> cases h
    exact .inl (holder_of_detach hholder)
  | resets =>
    simp only [State.step] at h
    split at h
    · cases h
    · split at h <;> cases h <;> exact .inl hholder
  | wait =>
    cases h
    exact .inl hholder

/-- What has been found without a live holder has none yet. -/
def Free (cfg : Config) (s : Repairing) : Prop := ∀ session ∈ s.found, s.held cfg session = false

theorem Free.step {s s' : Repairing} {m : RepairMove} (hok : s.careful cfg m = true) (h : Free cfg s)
    (hs : s.step cfg m = some s') : Free cfg s' := by
  unfold Repairing.step at hs
  split at hs
  · cases hs
  · rename_i m _
    obtain ⟨debug, hdebug, rfl⟩ := Option.map_eq_some_iff.mp hs
    intro session hmem
    by_contra hheld
    obtain ⟨systemId, hsystem, hholder⟩ := (Option.any_eq_true _ _).mp (Bool.not_eq_false _ ▸ hheld)
    rcases holder_step hdebug hholder with hbefore | ⟨id, runId, project, handle, now, rfl, hrun⟩
    · exact absurd (h session hmem) (by simp [Repairing.held, hsystem, hbefore])
    · have hne := all_eq_true.mp hok session hmem
      simp [hsystem, hrun] at hne
  · split at hs
    · cases hs
    · rename_i session rest _
      cases hs
      intro other hmem
      replace hmem : other ∈ if s.held cfg session then s.found else s.found ++ [session] := hmem
      split at hmem
      · exact h other hmem
      · rename_i hfree
        rcases mem_append.mp hmem with hmem | hmem
        · exact h other hmem
        · obtain rfl := mem_singleton.mp hmem
          exact (Bool.eq_false_iff.mpr hfree : s.held cfg other = false)
  · split at hs <;> cases hs
    exact fun other hmem => h other (mem_of_mem_erase hmem)

/-- A careful repair resets no transport that a live session holds. -/
theorem resets_spare_live {s s' : Repairing} {session : DebugSession}
    (h : (repairing cfg).ReachBy (fun s m => s.careful cfg m = true) s)
    (hs : s.step cfg (.fires session) = some s') : s.held cfg session = false := by
  have hfree : Free cfg s := by
    refine h.always (I := Free cfg) ?_ fun s m s' _ hok hI hs => Free.step hok hI hs
    rintro s ⟨-, -, hfound⟩ session hmem
    rw [hfound] at hmem
    cases hmem
  simp only [Repairing.step] at hs
  split at hs
  · exact hfree session ‹_›
  · cases hs

/-- Session 7 is dead, and its System has been found free. -/
def beforeReset : List RepairMove :=
  [.debugs (.starts 7 1 "kernel" .gdbstub "gdb://1" 0), .debugs (.wait 200), .debugs (.repairs 100 200), .checks]

def dead : DebugSession := .live 7 1 "kernel" .gdbstub "gdb://1" 0

theorem resets_spare_live_repaired : ((repairing demo).runTo ⟨idle, []⟩ beforeReset).held demo dead = false := by
  have hinit : (repairing demo).init ⟨idle, []⟩ := ⟨rfl, rfl, rfl⟩
  obtain ⟨s', hs⟩ := Option.isSome_iff_exists.mp (show ((repairing demo).step
    ((repairing demo).runTo ⟨idle, []⟩ beforeReset) (.fires dead)).isSome = true by decide +kernel)
  exact resets_spare_live ((Machine.ReachBy.init hinit).leads (Machine.leads_runTo (by decide +kernel))) hs

def attachedBeforeReset : List RepairMove := beforeReset ++ [.debugs (.starts 8 1 "kernel" .gdbstub "gdb://1" 200)]

/-- A session that attaches before the reset is reset. -/
theorem live_session_reset : let s := (repairing demo).runTo ⟨idle, []⟩ attachedBeforeReset
    (repairing demo).Reach s ∧ ((repairing demo).step s (.fires dead)).isSome = true ∧ s.held demo dead = true :=
  ⟨Machine.reach_runTo (show (repairing demo).init ⟨idle, []⟩ from ⟨rfl, rfl, rfl⟩) _, by decide +kernel,
    by decide +kernel⟩
end Kdive.Debug
