import Kdive.Jobs.StepClaims

/-! # Claims on a step, as `db/idempotency.py` documents them

Here each transaction block commits when it ends, and the provider is called on no transaction: meanwhile a `running` row
stands for the claim. After 30 minutes the next caller deletes it and claims the step too; and `complete_run_step` and
`abandon_run_step`, which look at the state of the row only, end whatever claim there is (`claim_taken_over`). Where
every claim is ended in that time there is one at a time, and its holder ends it (`claims_exclusive`).

A move is a round of `claim_run_step` or one of the other calls. A round that writes the row has it locked from the
`DELETE`, or inserts it where there is none, and so does what it does at once, only with a `now()` from when it began.
-/

namespace Kdive.Jobs.Claims
open Lib
open StepClaims (staleRunningInterval)

structure Row where
  state : StepState
  result : Option Json
  updatedAt : Time
  /-- The caller that has inserted it, which is no column. -/
  claimant : Nat

def Row.stale (row : Row) (start : Time) : Bool :=
  row.state = .running ∧ row.updatedAt < start - staleRunningInterval

def running (start : Time) (claimant : Nat) : Row := ⟨.running, none, start, claimant⟩

inductive Stage where
  /-- In `claim_run_step`, between two rounds. -/
  | waiting
  | replayed (result : Option Json)
  /-- It has received `claimed=True`, from a round that began then. -/
  | working (start : Time)
  | completed
  | abandoned
  /-- `complete_run_step` has raised. -/
  | refused

/-- It has received `claimed=True`, and has neither completed nor abandoned. -/
def Stage.unsettled : Stage → Bool
  | working _ | refused => true
  | _ => false

inductive Input where
  | round (lag : Nat)
  | completes (result : Json)
  | abandons

inductive Move where
  | call (i : Nat) (input : Input)
  | wait (d : Nat)

/-- The row of one step of one Run, and its callers. -/
structure State where
  row : Option Row
  stage : Nat → Stage
  clock : Time

namespace State
variable (s : State) (i : Nat)

def goes (stage : Stage) : State := { s with stage := Function.update s.stage i stage }

def claimRunStep (start : Time) : State :=
  match s.row.filter (!·.stale start) with
  | none => { s.goes i (.working start) with row := some (running start i) }
  -- Behind a claim that is not stale it polls again.
  | some row => if row.state = .succeeded then s.goes i (.replayed row.result) else s

def completeRunStep (result : Json) : State :=
  match s.row.filter (·.state = .running) with
  | some row =>
    { s.goes i .completed with row := some { row with state := .succeeded, result, updatedAt := s.clock } }
  | none => s.goes i .refused

def abandonRunStep : State := { s.goes i .abandoned with row := s.row.filter (·.state ≠ .running) }

def step : Move → Option State
  | .call i input =>
    match s.stage i, input with
    | .waiting, .round lag => some (s.claimRunStep i (s.clock - lag))
    | .working _, .completes result => some (s.completeRunStep i result)
    | .working _, .abandons => some (s.abandonRunStep i)
    | _, _ => none
  | .wait d => some { s with clock := s.clock + d }

/-- No round lasts longer, with the claim it makes, than the interval after which that is stale. -/
def InTime : Move → Prop
  | .call _ (.round lag) => (lag : Int) ≤ staleRunningInterval
  | .call _ _ => True
  | .wait d => ∀ i start, s.stage i = .working start → s.clock + d ≤ start + staleRunningInterval
end State

def machine : Machine where
  State := State
  Move := Move
  init := fun s => s.stage = fun _ => .waiting
  step := State.step

/-- A caller at work has the row, which nobody may delete yet. -/
structure Inv (s : State) : Prop where
  accepted : ∀ i, s.stage i ≠ .refused
  working : ∀ i start, s.stage i = .working start →
    s.row = some (running start i) ∧ s.clock ≤ start + staleRunningInterval

section
variable {s s' : State} {i j : Nat} {start : Time}

theorem Inv.unique (hI : Inv s) {start' : Time} (hi : s.stage i = .working start) (hj : s.stage j = .working start') :
    i = j := by
  have hrow := (hI.working i start hi).1.symm.trans (hI.working j start' hj).1
  simp_all [running]

/-- What becomes of one caller is right for the row, which is left as it is or stood for nobody else's claim. -/
theorem Inv.put (hI : Inv s) {stage : Stage} {row : Option Row} (haccepted : stage ≠ .refused)
    (hself : ∀ start, stage = .working start → row = some (running start i) ∧ s.clock ≤ start + staleRunningInterval)
    (hother : row = s.row ∨ ∀ j start, s.stage j = .working start → j = i) : Inv { s.goes i stage with row } := by
  refine ⟨fun j => ?_, fun j start hj => ?_⟩
  · rcases eq_or_ne j i with rfl | hji
    · simpa [State.goes] using haccepted
    · simpa [State.goes, hji] using hI.accepted j
  · rcases eq_or_ne j i with rfl | hji
    · exact hself start (by simpa [State.goes] using hj)
    · have hold : s.stage j = .working start := by simpa [State.goes, hji] using hj
      rcases hother with rfl | hnone
      · exact hI.working j start hold
      · exact absurd (hnone j start hold) hji

theorem Inv.claimRunStep (hI : Inv s) {lag : Nat} (hlag : (lag : Int) ≤ staleRunningInterval) :
    Inv (s.claimRunStep i (s.clock - lag)) := by
  unfold State.claimRunStep
  split
  next hnone =>
    refine hI.put nofun ?_ (.inr fun j start hj => ?_)
    · rintro start ⟨⟩
      exact ⟨rfl, by grind⟩
    · -- The row of a caller at work is neither missing nor stale.
      obtain ⟨hrow, hprompt⟩ := hI.working j start hj
      rw [hrow] at hnone
      have hstale : (running start j).stale (s.clock - lag) = true := by
        by_contra hno
        simp [Option.filter, hno] at hnone
      simp only [Row.stale, running, decide_eq_true_eq, true_and] at hstale
      grind
  next row _ =>
    split
    · exact hI.put nofun nofun (.inl rfl)
    · exact hI

theorem Inv.step (hI : Inv s) {m : Move} (hm : s.InTime m) (h : s.step m = some s') : Inv s' := by
  unfold State.step at h
  split at h
  next i input =>
    split at h
    next => cases h; exact hI.claimRunStep hm
    next start result hi =>
      cases h
      have honly : ∀ j start, s.stage j = .working start → j = i := fun j _ hj => hI.unique hj hi
      rw [State.completeRunStep, (hI.working i start hi).1]
      exact hI.put nofun nofun (.inr honly)
    next start hi =>
      cases h
      exact hI.put nofun nofun (.inr fun j _ hj => hI.unique hj hi)
    next => cases h
  next d =>
    cases h
    exact ⟨hI.accepted, fun i start hi => ⟨(hI.working i start hi).1, hm i start hi⟩⟩
end

/-- Where no round takes longer, with its claim, than the interval: at most one caller has claimed the step and not
    ended its claim, and who calls `complete_run_step` or `abandon_run_step` has the claim that is there. -/
theorem claims_exclusive {s : State} (h : machine.ReachBy State.InTime s) :
    (∀ i j, (s.stage i).unsettled = true → (s.stage j).unsettled = true → i = j) ∧
    ∀ i input s', s.step (.call i input) = some s' → (∀ lag, input ≠ .round lag) →
      ∃ row, s.row = some row ∧ row.state = .running ∧ row.claimant = i := by
  have hI : Inv s := h.always (I := Inv)
    (fun s hinit => ⟨fun i => by rw [hinit]; nofun, fun i start hi => by rw [hinit] at hi; cases hi⟩)
    fun s m s' _ hm hI hs => hI.step hm hs
  have hworks {i : Nat} (hi : (s.stage i).unsettled = true) : ∃ start, s.stage i = .working start := by
    cases hstage : s.stage i with
    | working start => exact ⟨start, rfl⟩
    | refused => exact absurd hstage (hI.accepted i)
    | _ => rw [hstage] at hi; cases hi
  refine ⟨fun i j hi hj => ?_, fun i input s' hs hinput => ?_⟩
  · obtain ⟨start, hi⟩ := hworks hi
    obtain ⟨start', hj⟩ := hworks hj
    exact hI.unique hi hj
  · simp only [State.step] at hs
    split at hs
    next lag _ => exact absurd rfl (hinput lag)
    next start _ hi => exact ⟨_, (hI.working i start hi).1, rfl, rfl⟩
    next start hi => exact ⟨_, (hI.working i start hi).1, rfl, rfl⟩
    next => cases hs

def idle : State := ⟨none, fun _ => .waiting, 0⟩

/-- A second caller finds the step claimed. -/
def claimed : State := (idle.claimRunStep 0 0).claimRunStep 1 0

theorem claims_exclusive_claimed : (claimed.stage 0).unsettled = true ∧ (claimed.stage 1).unsettled = false ∧
    ∃ row, claimed.row = some row ∧ row.state = .running ∧ row.claimant = 0 := by
  have hround : (0 : Int) ≤ staleRunningInterval := by decide
  have hfirst : machine.ReachBy State.InTime (idle.claimRunStep 0 0) :=
    .step (m := .call 0 (.round 0)) (.init (show machine.init idle from rfl)) hround rfl
  obtain ⟨honly, howner⟩ := claims_exclusive (.step (m := .call 1 (.round 0)) hfirst hround rfl)
  refine ⟨rfl, Bool.eq_false_iff.mpr fun h => ?_, howner 0 .abandons _ rfl nofun⟩
  cases honly 0 1 rfl h

/-- The second claim comes 31 minutes after the first. -/
def taken : State := machine.runTo idle [.call 0 (.round 0), .wait (31 * 60 * 1000000), .call 1 (.round 0)]

/-- The first caller completes the second one's claim. -/
theorem claim_taken_over : machine.Reach taken ∧ (taken.stage 0).unsettled = true ∧ (taken.stage 1).unsettled = true ∧
    taken.row.map (·.claimant) = some 1 ∧ ∃ s', taken.step (.call 0 (.completes .null)) = some s' ∧
      s'.stage 0 = .completed ∧ s'.row.map (·.state) = some .succeeded :=
  ⟨Machine.reach_runTo (show machine.init idle from rfl) _, rfl, rfl, rfl, _, rfl, rfl, rfl⟩
end Kdive.Jobs.Claims
