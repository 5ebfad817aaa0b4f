import Kdive.Domain.Errors

/-! # Lifecycles: `domain/state.py`

The states of the objects modelled here and the table of their legal transitions. Terminal states
have no successor.
-/

namespace Kdive
inductive ResourceStatus where
  | available | degraded | offline
  deriving DecidableEq

inductive AllocationState where
  | requested | granted | active | releasing | released | expired | failed
  deriving DecidableEq

inductive SystemState where
  | defined | provisioning | ready | reprovisioning | crashed | tornDown | failed
  deriving DecidableEq

inductive InvestigationState where
  | isOpen | active | closed | abandoned
  deriving DecidableEq

inductive RunState where
  | created | running | succeeded | failed | canceled
  deriving DecidableEq

inductive DebugSessionState where
  | attach | live | detached
  deriving DecidableEq

inductive JobState where
  | queued | running | succeeded | failed | canceled
  deriving DecidableEq

namespace AllocationState
def value : AllocationState → String
  | requested => "requested"
  | granted => "granted"
  | active => "active"
  | releasing => "releasing"
  | released => "released"
  | expired => "expired"
  | failed => "failed"

theorem value_inj {a b : AllocationState} (h : a.value = b.value) : a = b := by
  cases a <;> cases b <;> first | rfl | exact absurd h (by decide)

/-- `_TRANSITIONS[AllocationState]`. -/
def successors : AllocationState → List AllocationState
  | requested => [granted, released, failed]
  | granted => [active, releasing, expired, failed]
  | active => [releasing, expired, failed]
  | releasing => [released, failed]
  | released => []
  | expired => []
  | failed => []

def canTransition (frm new : AllocationState) : Bool := frm.successors.contains new

def ensureTransition (frm new : AllocationState) : Except Err Unit :=
  if canTransition frm new then .ok ()
  else .error (.illegalTransition "AllocationState" frm.value new.value)

/-- `_TERMINAL` of `release.py` and `renew.py`. -/
def terminal (s : AllocationState) : Bool :=
  s == released || s == expired || s == failed

/-- `OCCUPYING` of `admission.py`: the states that hold a host slot and a grant-quota slot. -/
def occupying (s : AllocationState) : Bool :=
  s == granted || s == active || s == releasing

theorem not_terminal_of_occupying {s : AllocationState} (h : s.occupying = true) : s.terminal = false := by
  cases s <;> simp_all [occupying, terminal]
end AllocationState

namespace SystemState
def value : SystemState → String
  | defined => "defined"
  | provisioning => "provisioning"
  | ready => "ready"
  | reprovisioning => "reprovisioning"
  | crashed => "crashed"
  | tornDown => "torn_down"
  | failed => "failed"

theorem value_inj {a b : SystemState} (h : a.value = b.value) : a = b := by
  cases a <;> cases b <;> first | rfl | exact absurd h (by decide)

/-- `_TRANSITIONS[SystemState]`. -/
def successors : SystemState → List SystemState
  | defined => [provisioning, tornDown, failed]
  | provisioning => [ready, failed, tornDown]
  | ready => [crashed, tornDown, reprovisioning, failed]
  | reprovisioning => [ready, failed]
  | crashed => [tornDown, failed]
  | tornDown => []
  | failed => []

def ensureTransition (frm new : SystemState) : Except Err Unit :=
  if frm.successors.contains new then .ok ()
  else .error (.illegalTransition "SystemState" frm.value new.value)

/-- `TERMINAL_SYSTEM_STATES`. -/
def terminal (s : SystemState) : Bool := s == tornDown || s == failed

theorem terminal_eq_false {s : SystemState} : s.terminal = false ↔ s ≠ tornDown ∧ s ≠ failed := by
  cases s <;> simp [terminal]
end SystemState

namespace RunState
def value : RunState → String
  | created => "created"
  | running => "running"
  | succeeded => "succeeded"
  | failed => "failed"
  | canceled => "canceled"

theorem value_inj {a b : RunState} (h : a.value = b.value) : a = b := by
  cases a <;> cases b <;> first | rfl | exact absurd h (by decide)

/-- `_TRANSITIONS[RunState]`. -/
def successors : RunState → List RunState
  | created => [running, canceled]
  | running => [succeeded, failed, canceled]
  | succeeded => []
  | failed => []
  | canceled => []

def canTransition (frm new : RunState) : Bool := frm.successors.contains new

def ensureTransition (frm new : RunState) : Except Err Unit :=
  if canTransition frm new then .ok ()
  else .error (.illegalTransition "RunState" frm.value new.value)

/-- `_NON_TERMINAL_RUN` of `admin.py` and of `create.py`. -/
def live (s : RunState) : Bool := s == created || s == running

theorem of_not_live {s : RunState} (h : s.live = false) (hfailed : s ≠ failed) : s = succeeded ∨ s = canceled := by
  cases s <;> simp_all [live]
end RunState

namespace InvestigationState
def value : InvestigationState → String
  | isOpen => "open"
  | active => "active"
  | closed => "closed"
  | abandoned => "abandoned"

theorem value_inj {a b : InvestigationState} (h : a.value = b.value) : a = b := by
  cases a <;> cases b <;> first | rfl | exact absurd h (by decide)

/-- `_TRANSITIONS[InvestigationState]`. -/
def successors : InvestigationState → List InvestigationState
  | isOpen => [active, closed, abandoned]
  | active => [closed, abandoned]
  | closed => []
  | abandoned => []

def canTransition (frm new : InvestigationState) : Bool := frm.successors.contains new

def ensureTransition (frm new : InvestigationState) : Except Err Unit :=
  if canTransition frm new then .ok ()
  else .error (.illegalTransition "InvestigationState" frm.value new.value)
end InvestigationState

namespace DebugSessionState
def value : DebugSessionState → String
  | attach => "attach"
  | live => "live"
  | detached => "detached"

theorem value_inj {a b : DebugSessionState} (h : a.value = b.value) : a = b := by
  cases a <;> cases b <;> first | rfl | exact absurd h (by decide)

/-- `_TRANSITIONS[DebugSessionState]`. -/
def successors : DebugSessionState → List DebugSessionState
  | attach => [live, detached]
  | live => [detached]
  | detached => []

def canTransition (frm new : DebugSessionState) : Bool := frm.successors.contains new

def ensureTransition (frm new : DebugSessionState) : Except Err Unit :=
  if canTransition frm new then .ok ()
  else .error (.illegalTransition "DebugSessionState" frm.value new.value)
end DebugSessionState

namespace JobState
def value : JobState → String
  | queued => "queued"
  | running => "running"
  | succeeded => "succeeded"
  | failed => "failed"
  | canceled => "canceled"

theorem value_inj {a b : JobState} (h : a.value = b.value) : a = b := by
  cases a <;> cases b <;> first | rfl | exact absurd h (by decide)

/-- `_TRANSITIONS[JobState]`. -/
def successors : JobState → List JobState
  | queued => [running, canceled]
  | running => [succeeded, failed, canceled, queued]
  | succeeded => []
  | failed => []
  | canceled => []

def canTransition (frm new : JobState) : Bool := frm.successors.contains new

def ensureTransition (frm new : JobState) : Except Err Unit :=
  if canTransition frm new then .ok ()
  else .error (.illegalTransition "JobState" frm.value new.value)

/-- `_TERMINAL` of `mcp/tools/catalog/jobs.py`. -/
def terminal (s : JobState) : Bool := s == succeeded || s == failed || s == canceled

theorem terminal_iff {s : JobState} : s.terminal = true ↔ s ≠ queued ∧ s ≠ running := by
  cases s <;> simp [terminal]
end JobState
end Kdive
