import Kdive.Jobs.Plane
import Kdive.Lib.Overlay

/-! # Claims on a step: `db/idempotency.py` under `install_handler` and `boot_handler`

A handler inserts a `running` row into `run_steps`, calls the provider, and turns the row into a `succeeded` one, all in
the transaction its first read has opened, so that nobody sees the `running` row. What keeps a second call out is the
unique key: its `INSERT … ON CONFLICT DO NOTHING` waits until the first one's transaction is over. Here a call goes one
statement at a time. A session may end under a handler that goes on (`loses`), the one thing that lets two calls into
the provider at once.
-/

namespace Kdive.Jobs.StepClaims
open Lib Overlay List

inductive Step where
  | install | boot
  deriving DecidableEq

structure Key where
  runId : Uuid
  step : Step
  deriving DecidableEq

structure Row where
  key : Key
  state : StepState
  result : Option Json
  updatedAt : Time

instance : Keyed Row Key := ⟨Row.key⟩

/-- `_STALE_RUNNING_INTERVAL`: 30 minutes, in microseconds. -/
def staleRunningInterval : Time := 30 * 60 * 1000000

inductive Write where
  | insertRunning (key : Key) (now : Time)
  | succeed (key : Key) (result : Json) (now : Time)
  | delete (key : Key)

namespace Write
def key : Write → Key
  | insertRunning key _ | succeed key _ _ | delete key => key

def running (key : Key) (now : Time) : Row :=
  { key, state := .running, result := none, updatedAt := now }

def succeeded (result : Json) (now : Time) (row : Row) : Row :=
  { row with state := .succeeded, result := some result, updatedAt := now }

theorem key_succeeded (result : Json) (now : Time) (row : Row) :
    Keyed.key (succeeded result now row) = Keyed.key row := rfl

def act : Write → Option Row → Option Row
  | insertRunning key now, none => some (running key now)
  | insertRunning _ _, some row => some row
  | succeed _ result now, row => row.map (succeeded result now)
  | delete _, _ => none

def apply (steps : Table Row) : Write → Table Row
  | insertRunning key now => steps.insert (running key now)
  | succeed key result now => steps.modify key (succeeded result now) (key_succeeded result now)
  | delete key => steps.erase key

theorem get_apply (steps : Table Row) (w : Write) (k : Key) :
    (apply steps w).get k = if w.key = k then w.act (steps.get k) else steps.get k := by
  cases w with
  | insertRunning key =>
    rw [apply, Table.get_insert]
    rcases eq_or_ne key k with rfl | hk
    · cases h : steps.get key with
      | none => simp [Keyed.key, Write.key, running, act]
      | some => simp [Write.key, act]
    · simp [Keyed.key, Write.key, running, hk]
  | succeed => rw [apply, Table.get_modify]; rfl
  | delete => rw [apply, Table.get_erase]; rfl
end Write

instance : Edit Write Row where
  target := Write.key
  act := Write.act
  apply := Write.apply
  get_apply := Write.get_apply

/-! ## A call of a handler -/

inductive Stage where
  /-- Its reads, up to `claim_run_step`. -/
  | reading
  /-- The three statements of a round of `claim_run_step`, and the sleep before the next round. -/
  | deleting
  | selecting
  | inserting
  | sleeping
  /-- It has the claim: `boot_handler` looks the runtime up. -/
  | resolving
  /-- The provider call. -/
  | calling
  /-- `_capture_console_artifact` and the audit row of a boot, after an error where `failed`. -/
  | observing (failed : Bool)
  | completing (result : Json)
  | abandoning
  /-- It is about to return, or to raise, out of `_run_handler`'s connection. -/
  | returning
  | raising
  | finished

namespace Stage
/-- From a claim that succeeded to the end of the provider call. -/
def claimed : Stage → Bool
  | resolving | calling => true
  | _ => false

def holding : Stage → Bool
  | resolving | calling | observing _ | completing _ | abandoning => true
  | _ => false

theorem holding_of_claimed {stage : Stage} (h : stage.claimed = true) : stage.holding = true := by
  cases stage <;> first | rfl | cases h
end Stage

structure Call where
  key : Key
  stage : Stage := .reading
  /-- The session its connection has. -/
  connected : Bool := true
  /-- `now()`: when its transaction began. -/
  start : Time := 0
  systemId : Uuid := 0
  /-- `run.expected_boot_failure is not None`. -/
  expectsCrash : Bool := false
  /-- What its transaction has written. -/
  log : List Write := []

/-- What the provider call comes back with. -/
inductive Answer where
  | returned
  | readinessFailure
  | failed

inductive Input where
  /-- Its next statement is executed, or its sleep is over. -/
  | proceeds
  | reads (systemId : Uuid) (expectsCrash : Bool)
  | answers (answer : Answer)
  /-- The console artifact of the boot, if any, and whether it has the expected crash. -/
  | observes (artifactId : Option Uuid) (crashMatches : Bool)
  /-- Its next statement raises. -/
  | faults
  /-- The process ends. -/
  | crashes
  /-- The session ends, and the handler goes on. -/
  | loses

namespace Call
variable (c : Call)

/-- What the transaction sees. -/
def view (steps : Table Row) : Table Row := Overlay.view c.log steps

def stale (row : Row) : Bool :=
  row.state = .running ∧ row.updatedAt < c.start - staleRunningInterval

def goes (stage : Stage) : Call := { c with stage }

def writes (w : Write) (stage : Stage) : Call := { c with stage, log := c.log ++ [w] }

def ends : Call := { c with stage := .finished, log := [] }

def work : Stage :=
  match c.key.step with
  | .install => .calling
  | .boot => .resolving

def installResult : Json := .obj [("system_id", .str (toString c.systemId))]

def bootResult (failed : Bool) (artifactId : Option Uuid) : Json :=
  let system := ("system_id", Json.str (toString c.systemId))
  let evidence := artifactId.toList.map fun id => ("evidence_artifact_id", Json.str (toString id))
  if failed then
    .obj ([system, ("boot_outcome", .str "expected_crash_observed"),
      ("expectation_matched", .bool true), ("evidence_kind", .str "console")] ++ evidence)
  else .obj ([system, ("boot_outcome", .str "ready")] ++ evidence)

/-- Its next statement, or the end of its transaction. `blocked` says that another transaction holds the
    key; a statement that has to wait is one that cannot be executed yet. -/
def proceed (steps : Table Row) (blocked : Bool) : Option (Call × Table Row) :=
  let found := (c.view steps).get c.key
  match c.stage with
  | .deleting =>
    if found.any c.stale then
      if blocked then none else some (c.writes (.delete c.key) .selecting, steps)
    else some (c.goes .selecting, steps)
  | .selecting =>
    match found with
    | none => some (c.goes .inserting, steps)
    | some row =>
      match row.state with
      | .succeeded => some (c.goes .returning, steps)
      | .running => some (c.goes .sleeping, steps)
  | .inserting =>
    if blocked then none
    else match found with
      | none => some (c.writes (.insertRunning c.key c.start) c.work, steps)
      | some _ => some (c.goes .deleting, steps)
  | .resolving => some (c.goes .calling, steps)
  | .completing result =>
    if found.any (·.state = .running) then
      some (c.writes (.succeed c.key result c.start) .returning, steps)
    else some (c.goes .raising, steps)
  | .abandoning =>
    if found.any (·.state = .running) then some (c.writes (.delete c.key) .raising, steps)
    else some (c.goes .raising, steps)
  | .returning => some (c.ends, c.view steps)
  | _ => none

def answered (answer : Answer) : Stage :=
  match c.key.step, answer with
  | .install, .returned => .completing c.installResult
  | .boot, .returned => .observing false
  | .boot, .readinessFailure => if c.expectsCrash then .observing true else .abandoning
  | _, _ => .abandoning

def faulted : Option Call :=
  match c.stage with
  | .reading | .deleting | .selecting | .inserting | .resolving | .completing _ | .abandoning =>
    some (c.goes .raising)
  | .observing _ => some (c.goes .abandoning)
  | .returning => some c.ends
  | _ => none

def step (steps : Table Row) (clock : Time) (blocked : Bool) : Input → Option (Call × Table Row)
  | .proceeds =>
    match c.stage with
    | .sleeping => some (c.goes .deleting, steps)
    | .raising => some (c.ends, steps)
    | _ => if c.connected then c.proceed steps blocked else none
  | .reads systemId expectsCrash =>
    match c.stage with
    | .reading =>
      if c.connected then
        some ({ c with stage := .deleting, start := clock, systemId, expectsCrash }, steps)
      else none
    | _ => none
  | .answers answer =>
    match c.stage with
    | .calling => some (c.goes (c.answered answer), steps)
    | _ => none
  | .observes artifactId crashMatches =>
    match c.stage with
    | .observing failed =>
      if !c.connected then none
      else if failed && !(artifactId.isSome && crashMatches) then some (c.goes .abandoning, steps)
      else some (c.goes (.completing (c.bootResult failed artifactId)), steps)
    | _ => none
  | .faults => c.faulted.map (·, steps)
  | .crashes => some (c.ends, steps)
  | .loses => some ({ c with connected := false, log := [] }, steps)
end Call

/-! ## The machine -/

structure State where
  /-- The committed rows. -/
  steps : Table Row
  calls : List Call
  clock : Time

inductive Move where
  /-- A worker dispatches an `install` or `boot` job of a Run: for the first time, again, or after
      another one has taken the job from it. -/
  | dispatches (key : Key)
  | call (i : Nat) (input : Input)
  | wait (d : Nat)

namespace State
variable (s : State)

/-- Another transaction than the `i`th call's has written the row of that key. -/
def blocked (i : Nat) (key : Key) : Bool :=
  heldByOther Row (s.calls.map (·.log)) i key

def step : Move → Option State
  | .dispatches key => some { s with calls := s.calls ++ [{ key }] }
  | .call i input =>
    s.calls[i]?.bind fun c =>
      (c.step s.steps s.clock (s.blocked i c.key) input).map fun r =>
        { s with steps := r.2, calls := s.calls.set i r.1 }
  | .wait d => some { s with clock := s.clock + d }
end State

def machine : Machine where
  State := State
  Move := Move
  init := fun s => s.calls = []
  step := State.step

def Move.keepsSession : Move → Bool
  | .call _ .loses => false
  | _ => true

/-! ## What a step of a call does -/

def Call.held (c : Call) : Bool := touches Row c.log c.key

/-- A call writes no key but its own, and where it has written, the row was not `succeeded`; one that
    has the claim has written. -/
structure Call.Ok (steps : Table Row) (c : Call) : Prop where
  own : ∀ k, Overlay.touches Row c.log k = true → c.key = k
  holds : c.stage.holding = true → c.held = true
  unsettled : c.held = true → ∀ row, steps.get c.key = some row → row.state ≠ .succeeded

section
variable {c c' : Call} {steps steps' : Table Row} {clock : Time} {blocked : Bool} {input : Input}

/-- What a step can do: go on, write its key while nobody else holds it, end without a trace, or
    publish what it has written. -/
inductive Call.Does (c : Call) (steps : Table Row) (blocked : Bool) (c' : Call) : Table Row → Prop where
  | goes (hkey : c'.key = c.key) (hlog : c'.log = c.log)
      (hold : c'.stage.holding = true → c.stage.holding = true) : Does c steps blocked c' steps
  | writes (w : Write) (hkey : c'.key = c.key) (hw : w.key = c.key) (hlog : c'.log = c.log ++ [w])
      (hfree : c.held = true ∨ blocked = false)
      (hrow : c.held = false → ∀ row, steps.get c.key = some row → row.state ≠ .succeeded) :
      Does c steps blocked c' steps
  | drops (hkey : c'.key = c.key) (hlog : c'.log = []) (hold : c'.stage.holding = false) :
      Does c steps blocked c' steps
  | publishes (hkey : c'.key = c.key) (hlog : c'.log = []) (hold : c'.stage.holding = false) :
      Does c steps blocked c' (c.view steps)

theorem Call.view_get_of_not_held (h : c.held = false) : (c.view steps).get c.key = steps.get c.key :=
  Overlay.get_view_of_not_touches h

theorem Call.does_of_proceed (hok : c.Ok steps) (h : c.proceed steps blocked = some (c', steps')) :
    c.Does steps blocked c' steps' := by
  unfold proceed at h
  cases hstage : c.stage with
  | deleting =>
    simp only [hstage] at h
    split at h
    next hstale =>
      split at h
      next => cases h
      next hfree =>
        cases h
        refine .writes _ rfl rfl rfl (.inr (Bool.not_eq_true _ ▸ hfree)) fun hheld row hrow => ?_
        rw [view_get_of_not_held hheld, hrow] at hstale
        simp only [Option.any_some, stale, decide_eq_true_eq] at hstale
        rw [hstale.1]
        rintro ⟨⟩
    next => cases h; exact .goes rfl rfl (by rintro ⟨⟩)
  | selecting =>
    simp only [hstage] at h
    split at h
    · cases h; exact .goes rfl rfl (by rintro ⟨⟩)
    · split at h <;> cases h <;> exact .goes rfl rfl (by rintro ⟨⟩)
  | inserting =>
    simp only [hstage] at h
    split at h
    next => cases h
    next hfree =>
      split at h
      next hnone =>
        cases h
        refine .writes _ rfl rfl rfl (.inr (Bool.not_eq_true _ ▸ hfree)) fun hheld row hrow => ?_
        rw [view_get_of_not_held hheld, hrow] at hnone
        cases hnone
      next => cases h; exact .goes rfl rfl (by rintro ⟨⟩)
  | resolving =>
    simp only [hstage] at h
    cases h
    exact .goes rfl rfl fun _ => by rw [hstage]; rfl
  | completing | abandoning =>
    simp only [hstage] at h
    have hheld : c.held = true := hok.holds (by rw [hstage]; rfl)
    split at h <;> cases h
    · exact .writes _ rfl rfl rfl (.inl hheld) fun hnot => by rw [hheld] at hnot; cases hnot
    · exact .goes rfl rfl (by rintro ⟨⟩)
  | returning =>
    simp only [hstage] at h
    cases h
    exact .publishes rfl rfl rfl
  | _ => simp only [hstage] at h; cases h

theorem Call.does_of_faulted (h : c.faulted = some c') : c.Does steps blocked c' steps := by
  unfold faulted at h
  split at h
  case h_8 failed hstage => cases h; exact .goes rfl rfl fun _ => by rw [hstage]; rfl
  case h_9 => cases h; exact .drops rfl rfl rfl
  case h_10 => cases h
  all_goals cases h; exact .goes rfl rfl nofun

theorem Call.does_of_step (hok : c.Ok steps) (hinput : input ≠ .loses)
    (h : c.step steps clock blocked input = some (c', steps')) : c.Does steps blocked c' steps' := by
  cases input with
  | proceeds =>
    simp only [step] at h
    split at h
    · cases h; exact .goes rfl rfl nofun
    · cases h; exact .drops rfl rfl rfl
    · split at h
      · exact does_of_proceed hok h
      · cases h
  | reads =>
    simp only [step] at h
    split at h
    · split at h <;> cases h
      exact .goes rfl rfl nofun
    · cases h
  | answers answer =>
    simp only [step] at h
    split at h
    next hstage => cases h; exact .goes rfl rfl fun _ => by rw [hstage]; rfl
    next => cases h
  | observes artifactId crashMatches =>
    simp only [step] at h
    split at h
    next failed hstage =>
      have hold : c.stage.holding = true := by rw [hstage]; rfl
      split at h
      · cases h
      · split at h <;> cases h <;> exact .goes rfl rfl fun _ => hold
    next => cases h
  | faults =>
    simp only [step, Option.map_eq_some_iff, Prod.mk.injEq] at h
    obtain ⟨c1, hfault, rfl, rfl⟩ := h
    exact does_of_faulted hfault
  | crashes => cases h; exact .drops rfl rfl rfl
  | loses => exact absurd rfl hinput

theorem Call.Does.key_eq (h : c.Does steps blocked c' steps') : c'.key = c.key := by
  cases h <;> assumption

theorem Call.Does.touches (hok : c.Ok steps) (h : c.Does steps blocked c' steps') {k : Key}
    (hk : touches Row c'.log k = true) : c.key = k ∧ (c.held = true ∨ blocked = false) := by
  cases h with
  | goes hkey hlog =>
    rw [hlog] at hk
    obtain rfl := hok.own k hk
    exact ⟨rfl, .inl hk⟩
  | writes w hkey hw hlog hfree =>
    refine ⟨?_, hfree⟩
    rw [hlog, touches_concat] at hk
    rcases hk with hk | hk
    · exact hok.own k hk
    · exact hw.symm.trans hk
  | drops hkey hlog hold | publishes hkey hlog hold => rw [hlog] at hk; cases hk

theorem Call.Ok.does (hok : c.Ok steps) (hdo : c.Does steps blocked c' steps') : c'.Ok steps' := by
  have hown : ∀ k, touches Row c'.log k = true → c'.key = k := fun k hk =>
    hdo.key_eq.trans (hdo.touches hok hk).1
  cases hdo with
  | goes hkey hlog hold =>
    have hheld : c'.held = c.held := by rw [held, held, hkey, hlog]
    refine ⟨hown, fun h => hheld ▸ hok.holds (hold h), fun h => ?_⟩
    rw [hkey]
    exact hok.unsettled (hheld ▸ h)
  | writes w hkey hw hlog hfree hrow =>
    have hheld : c'.held = true := by
      rw [held, hlog, hkey]
      exact Overlay.touches_concat.mpr (.inr hw)
    refine ⟨hown, fun _ => hheld, fun _ => ?_⟩
    rw [hkey]
    cases hc : c.held with
    | false => exact hrow hc
    | true => exact hok.unsettled hc
  | drops hkey hlog hold | publishes hkey hlog hold =>
    refine ⟨hown, fun h => ?_, fun h => ?_⟩
    · rw [hold] at h; cases h
    · rw [held, hlog] at h; cases h
end

/-! ## What the calls keep together -/

structure Guarded (s : State) : Prop where
  ok : ∀ (i : Nat) (c : Call), s.calls[i]? = some c → c.Ok s.steps
  exclusive : Overlay.Exclusive Row (s.calls.map (·.log))

section
variable {s s' : State} {m : Move} {i j : Nat} {c c' : Call} {steps' : Table Row}

theorem State.log_of_call (hi : s.calls[i]? = some c) : (s.calls.map (·.log))[i]? = some c.log := by
  rw [getElem?_map, hi]
  rfl

theorem Guarded.eq_of_held (hI : Guarded s) (hi : s.calls[i]? = some c) (hj : s.calls[j]? = some c')
    (hc : c.held = true) (hc' : c'.held = true) (hkey : c.key = c'.key) : i = j := by
  refine hI.exclusive i j _ _ (State.log_of_call hi) (State.log_of_call hj) c.key hc ?_
  rwa [hkey]

theorem Call.Ok.view_get {steps : Table Row} (hok : c.Ok steps) {key : Key}
    (hne : c.held = true → c.key ≠ key) : (c.view steps).get key = steps.get key := by
  refine get_view_of_not_touches ?_
  cases hk : touches Row c.log key with
  | false => rfl
  | true =>
    obtain rfl := hok.own key hk
    exact absurd rfl (hne hk)

section
variable (hI : Guarded s)
include hI

theorem guarded_call (hi : s.calls[i]? = some c) (hdo : c.Does s.steps (s.blocked i c.key) c' steps') :
    Guarded { s with steps := steps', calls := s.calls.set i c' } := by
  have hok := hI.ok i c hi
  refine ⟨fun j cj hj => ?_, ?_⟩
  · rcases getElem?_set_cases hj with ⟨-, rfl⟩ | ⟨hij, hother⟩
    · exact hok.does hdo
    · have hokj := hI.ok j cj hother
      refine ⟨hokj.own, hokj.holds, fun hheld row hrow => hokj.unsettled hheld row ?_⟩
      cases hdo with
      | goes | writes | drops => exact hrow
      | publishes hkey =>
        have hne : c.held = true → c.key ≠ cj.key := fun hc hkey =>
          hij (hI.eq_of_held hother hi hheld hc hkey.symm).symm
        rwa [hok.view_get hne] at hrow
  · show Overlay.Exclusive Row ((s.calls.set i c').map (·.log))
    rw [map_set]
    refine hI.exclusive.set (State.log_of_call hi) fun k hk => ?_
    obtain ⟨rfl, hfree⟩ := hdo.touches hok hk
    exact hfree

section
variable (hm : m.keepsSession = true)
include hm

theorem State.step_cases (h : s.step m = some s') : (∃ key, s' = { s with calls := s.calls ++ [{ key }] }) ∨
    (∃ clock, s' = { s with clock }) ∨
    ∃ i c c' steps', s.calls[i]? = some c ∧ c.Does s.steps (s.blocked i c.key) c' steps' ∧
      s' = { s with steps := steps', calls := s.calls.set i c' } := by
  cases m with
  | dispatches key => cases h; exact .inl ⟨key, rfl⟩
  | wait => cases h; exact .inr (.inl ⟨_, rfl⟩)
  | call i input =>
    refine .inr (.inr ?_)
    simp only [step, Option.bind_eq_some_iff, Option.map_eq_some_iff] at h
    obtain ⟨c, hc, ⟨c', steps'⟩, hstep, rfl⟩ := h
    have hinput : input ≠ .loses := by
      rintro rfl
      cases hm
    exact ⟨i, c, c', steps', hc, Call.does_of_step (hI.ok i c hc) hinput hstep, rfl⟩

theorem guarded_step (h : s.step m = some s') : Guarded s' := by
  rcases s.step_cases hI hm h with ⟨key, rfl⟩ | ⟨clock, rfl⟩ | ⟨i, c, c', steps', hc, hdo, rfl⟩
  · refine ⟨fun i c hi => ?_, ?_⟩
    · rw [show (s.calls ++ [{ key := key }])[i]? = _ from getElem?_append] at hi
      split at hi
      · exact hI.ok i c hi
      · -- a call that has just been made holds nothing
        rw [mem_singleton.mp (mem_of_getElem? hi)]
        exact ⟨nofun, nofun, nofun⟩
    · show Overlay.Exclusive Row ((s.calls ++ [({ key := key } : Call)]).map (·.log))
      rw [map_append]
      exact hI.exclusive.push
  · exact ⟨hI.ok, hI.exclusive⟩
  · exact guarded_call hI hc hdo

theorem settled_step (h : s.step m = some s') {key : Key}
    {row : Row} (hrow : s.steps.get key = some row) (hdone : row.state = .succeeded) : s'.steps.get key = some row := by
  rcases s.step_cases hI hm h with ⟨_, rfl⟩ | ⟨_, rfl⟩ | ⟨i, c, c', steps', hc, hdo, rfl⟩
  · exact hrow
  · exact hrow
  · cases hdo with
    | goes | writes | drops => exact hrow
    | publishes =>
      have hok := hI.ok i c hc
      refine (hok.view_get fun hheld heq => ?_).trans hrow
      exact hok.unsettled hheld row (heq ▸ hrow) hdone
end

theorem Guarded.claimed_of_settled {key : Key} {row : Row}
    (hrow : s.steps.get key = some row) (hdone : row.state = .succeeded) (hc : s.calls[i]? = some c)
    (hkey : c.key = key) : c.stage.claimed = false := by
  by_contra hclaimed
  have hhold := Stage.holding_of_claimed (Bool.not_eq_false _ ▸ hclaimed)
  have hok := hI.ok i c hc
  exact hok.unsettled (hok.holds hhold) row (hkey ▸ hrow) hdone
end

theorem guarded_init (h : s.calls = []) : Guarded s := by
  refine ⟨fun i c hi => ?_, ?_⟩
  · rw [h] at hi
    cases hi
  · rw [h]
    exact Overlay.exclusive_nil
end

/-- While no session ends under its handler: a step is in the hands of at most one call from its claim
    to the end of the provider call; once its result is committed, no call has the claim again, and the
    result stays what it is. -/
theorem step_claims_exclusive {s : State} (h : machine.ReachBy (fun _ m => Move.keepsSession m = true) s) :
    (∀ (i j : Nat) (c c' : Call), s.calls[i]? = some c → s.calls[j]? = some c' → c.key = c'.key →
      c.stage.claimed = true → c'.stage.claimed = true → i = j) ∧
    ∀ key row, s.steps.get key = some row → row.state = .succeeded →
      ∀ s', machine.Leads (fun _ m => Move.keepsSession m = true) s s' →
        (State.steps s').get key = some row ∧
          ∀ (i : Nat) (c : Call), (State.calls s')[i]? = some c → c.key = key → c.stage.claimed = false := by
  have hI : Guarded s := h.always (I := Guarded) (fun s hinit => guarded_init hinit)
    (fun s m s' _ hm hI hs => guarded_step hI hm hs)
  refine ⟨fun i j c c' hi hj hkey hc hc' => ?_, fun key row hrow hdone s' hleads => ?_⟩
  · have hheld := (hI.ok i c hi).holds (Stage.holding_of_claimed hc)
    have hheld' := (hI.ok j c' hj).holds (Stage.holding_of_claimed hc')
    exact hI.eq_of_held hi hj hheld hheld' hkey
  · obtain ⟨hI', hrow'⟩ := hleads.always (I := fun s => Guarded s ∧ (State.steps s).get key = some row)
      (fun s m s' hm (hI : Guarded s ∧ _) (hs : State.step s m = some s') =>
        ⟨guarded_step hI.1 hm hs, settled_step hI.1 hm hs hI.2 hdone⟩) ⟨hI, hrow⟩
    exact ⟨hrow', fun i c hi hkey => hI'.claimed_of_settled hrow' hdone hi hkey⟩

/-- Two workers run the install of Run 1 at once; the first one's transaction is over when the second
    one's `INSERT` is executed. -/
def race : List Move :=
  let key : Key := ⟨1, .install⟩
  [.dispatches key, .dispatches key, .call 0 (.reads 7 false), .call 1 (.reads 7 false),
    .call 0 .proceeds, .call 1 .proceeds, .call 0 .proceeds, .call 1 .proceeds, .call 0 .proceeds,
    .call 0 (.answers .returned), .call 0 .proceeds, .call 0 .proceeds, .call 1 .proceeds]

def raced : State := machine.runTo ⟨Table.empty, [], 0⟩ race

theorem step_claims_exclusive_raced : machine.ReachBy (fun _ m => Move.keepsSession m = true) raced ∧
    ∃ row, raced.steps.get ⟨1, .install⟩ = some row ∧ row.state = .succeeded ∧
      ∀ (i : Nat) (c : Call), raced.calls[i]? = some c → c.key = ⟨1, .install⟩ → c.stage.claimed = false := by
  have hreach : machine.ReachBy (fun _ m => Move.keepsSession m = true) raced :=
    (Machine.ReachBy.init rfl).leads
      (Machine.leads_runTo
        (show machine.runsBy (fun _ m => Move.keepsSession m) ⟨Table.empty, [], 0⟩ race = true from by
          decide +kernel))
  have hrow : ∃ row, raced.steps.get ⟨1, .install⟩ = some row ∧ row.state = .succeeded :=
    ⟨_, rfl, rfl⟩
  obtain ⟨row, hrow, hdone⟩ := hrow
  have hall := (step_claims_exclusive hreach).2 _ row hrow hdone raced (.refl _)
  exact ⟨hreach, row, hrow, hdone, hall.2⟩
end Kdive.Jobs.StepClaims
