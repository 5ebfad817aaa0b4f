import Kdive.Runs.Ledger
import Kdive.Spec.Origin

/-! # What an allocation is charged for

The billing interval is opened by the worker, without the project's lock or a look at the state, with the time of the
database; it is closed by a release or an expiry, with the time of its process. When the first comes after the second,
or its clock runs ahead, the interval is no interval (`interval_never_closed`). A run in which neither happens bills
what was used, to the quantum (`billed_for_use`).
-/

namespace Kdive
open Lib Rounding Write AllocationPatch Option List Kdive.Action

def netOf (ledger : List LedgerEntry) (id : Uuid) : ℚ :=
  ((ledger.filter (·.allocationId = id)).map (·.kcuDelta)).sum

def rateOf (c : Db) (a : Allocation) : Option ℚ := do
  let vcpus ← a.requestedVcpus
  let memoryGb ← a.requestedMemoryGb
  let host ← a.resourceId.bind c.resources.get
  let coefficient ← c.costClassCoefficients.get host.costClass
  (rate coefficient.coeff vcpus memoryGb).toOption

/-- An allocation that ended was never used and cost nothing, or cost its rate over the interval. -/
inductive Billed (c : Db) (a : Allocation) : Prop where
  | unused (hstarted : a.activeStartedAt = none) (hended : a.activeEndedAt = none)
      (hnet : netOf c.ledger a.id = 0)
  | used {started ended : Time} {r : ℚ} (hstarted : a.activeStartedAt = some started)
      (hended : a.activeEndedAt = some ended) (hle : started ≤ ended)
      (hrate : rateOf c a = some r ∨ started = ended ∧ r = 0)
      (hnet : |netOf c.ledger a.id - r * spanHours started ended| < kcuQuantum)

theorem netOf_append (ledger es : List LedgerEntry) (id : Uuid) :
    netOf (ledger ++ es) id = netOf ledger id + netOf es id := by
  simp [netOf]

theorem onGrid_netOf {ledger : List LedgerEntry} (h : ∀ e ∈ ledger, OnGrid kcuQuantum e.kcuDelta)
    (id : Uuid) : OnGrid kcuQuantum (netOf ledger id) :=
  .sum_filter fun e he _ => h e he

theorem netOf_eq_sumOf {ledger : List LedgerEntry} {id : Uuid} (h : ∀ ty ∈ eventsOf ledger id, ty = .reserved) :
    netOf ledger id = Accounting.sumOf ledger id .reserved := by
  unfold netOf Accounting.sumOf
  congr 2
  refine filter_congr fun e he => ?_
  by_cases hid : e.allocationId = id
  · have hty : e.eventType = .reserved :=
      h _ (mem_map_of_mem (mem_filter.mpr ⟨he, decide_eq_true hid⟩))
    simp [hid, hty]
  · simp [hid]

theorem Rely.rateOf_eq {fixed : String → Prop} {H : List LockKey} {c c' : Db}
    (h : Rely fixed H c c') (a : Allocation) : rateOf c' a = rateOf c a := by
  have hclass : ∀ id, (c'.resources.get id).map (·.costClass) = (c.resources.get id).map (·.costClass) := by
    intro id
    have := congrArg (Option.map (·.costClass)) (h.resources id)
    rw [Option.map_map, Option.map_map] at this
    exact this
  unfold rateOf
  rw [h.coefficients]
  cases hid : a.resourceId with
  | none => rfl
  | some id =>
    have hid' := hclass id
    cases hr : c.resources.get id with
    | none =>
      rw [hr, map_none, map_eq_none_iff] at hid'
      simp [hr, hid']
    | some =>
      rw [hr, map_some, map_eq_some_iff] at hid'
      obtain ⟨r', hr', hcls⟩ := hid'
      simp [hr, hr', hcls]

/-! ## The steps that are allowed -/

def AllocationState.settled (st : AllocationState) : Bool := st == .released || st == .expired

/-- Beyond this the hours, which are a `float`, are too coarse for the quantum. -/
def chargeMax : ℚ := 4 * 10 ^ 11

/-- The write does not open the interval of an allocation that has ended; and the clock reading it
    closes an interval with is not before the one stored, nor so far after it that the charge is beyond
    `chargeMax`. -/
def Write.billable (c : Db) : Write → Bool
  | .patchAllocation id (.activeStartedAt _) _ => !(stateOf c id).any (·.settled)
  | .patchAllocation id (.activeEndedAt ended) _ =>
    ((c.allocations.get id).bind fun a => a.activeStartedAt.map fun started =>
      decide (started ≤ ended ∧ (rateOf c a).getD 0 * spanHours started ended ≤ chargeMax)).getD true
  | _ => true

def commitsBillable (s : Sys store) (ch : Choice store Client) : Prop :=
  ∀ w ∈ s.commits ch, w.billable s.db = true

theorem Action.billable_of_queue {a : Action} (hq : a.ofQueue = true) (c : Db) :
    ∀ w ∈ a.writes, w.billable c = true := by
  cases a with
  | promote =>
    simp [writes, billable]
  | unqueue => simp [writes, billable]
  | _ => cases hq

/-- A run of billable commits, action by action. -/
theorem ReachableBy.always_billable {cfg : Config} {s : Sys store} {J : Db → Prop}
    (hinit : ∀ db, Fresh db → J db) (hact : ∀ (a : Action) c, WellFormed c → J c → a.guard noneFixed c →
      (∀ w ∈ a.writes, w.billable c = true) → J (a.on c)) (h : ReachableBy cfg commitsBillable s) : J s.db := by
  refine Sys.Reach.always_commits (fun _ c _ => safe_of_noneFixed c) (fun _ => Fresh.wellFormed) hinit ?_ h
  intro s ch as hok hi hJ hb hws hpath
  rcases hb with hlen | hqueue
  · cases as with
    | nil => exact hJ
    | cons a as =>
      obtain rfl : as = [] := eq_nil_of_length_eq_zero (by simpa using hlen)
      refine hact a s.db hi hJ hpath.1 fun w hw => hok w ?_
      rw [hws]
      simpa using hw
  · -- the queue's repairs stamp nothing
    clear hok hws
    generalize s.db = c at *
    induction as generalizing c with
    | nil => exact hJ
    | cons a as ih =>
      have ha := hqueue a mem_cons_self
      exact ih (fun b hb => hqueue b (mem_cons_of_mem _ hb)) _ (hi.act hpath.1)
        (hact a c hi hJ hpath.1 (billable_of_queue ha c)) hpath.2

/-! ## One action -/

structure Metered (c : Db) : Prop where
  coefficients : ∀ k x, c.costClassCoefficients.get k = some x → 0 < x.coeff
  sized : ∀ id a, c.allocations.get id = some a → a.Sized
  onGrid : ∀ e ∈ c.ledger, OnGrid kcuQuantum e.kcuDelta
  storied : Storied c
  billed : ∀ id a, c.allocations.get id = some a → a.state.settled = true → Billed c a

theorem Metered.rate_nonneg {c : Db} (h : Metered c) {id : Uuid} {a : Allocation}
    (ha : c.allocations.get id = some a) {r : ℚ} (hr : rateOf c a = some r) : 0 ≤ r := by
  obtain ⟨vcpus, memoryGb, hv, hm, hv1, hm0⟩ := h.sized id a ha
  simp only [rateOf, hv, hm, bind_eq_bind, bind_some, bind_eq_some_iff] at hr
  obtain ⟨host, -, coefficient, hcoeff, hrate⟩ := hr
  cases hr' : rate coefficient.coeff vcpus memoryGb with
  | error => rw [hr'] at hrate; cases hrate
  | ok =>
    rw [hr'] at hrate
    cases hrate
    exact Kdive.rate_nonneg (h.coefficients _ _ hcoeff).le (by omega) hm0 hr'

section
variable {c c' : Db} {row a a' : Allocation} {started : Option Time} {ended : Time} {x : Posting}

/-- **A settlement charges what was used.** `a` is the stored row, `a'` what becomes of it. -/
theorem CanSettle.billed (hm : Metered c) (hg : CanSettle c row started ended x)
    (ha : c.allocations.get row.id = some a) (hbill : ∀ t, started = some t → t ≤ ended ∧
      (rateOf c a).getD 0 * spanHours t ended ≤ chargeMax) (hledger : c'.ledger = c.ledger ++ [x.entry .reconciled row])
    (hrate : rateOf c' a' = rateOf c a) (hid : a'.id = row.id) (hstarted : a'.activeStartedAt = started)
    (hended : a'.activeEndedAt = started.map fun _ => ended) : Billed c' a' := by
  obtain ⟨actual, hactual, hdelta⟩ := hg.settles
  have hnear := abs_settlement_sub_le hdelta
  obtain ⟨b, hb, hcore⟩ := hg.current
  obtain rfl : b = a := by rw [ha] at hb; exact (some.inj hb).symm
  have hreserved : ∀ ty ∈ eventsOf c.ledger row.id, ty = .reserved := by
    have hstory := hm.storied row.id
    rw [hg.current.stateOf] at hstory
    intro ty hty
    rcases hg.state with hst | hst
    all_goals
      rw [hst] at hstory
      obtain ⟨n, hn⟩ := hstory
      rw [hn] at hty
      exact eq_of_mem_replicate hty
  have hnet : netOf c'.ledger a'.id = Accounting.sumOf c.ledger row.id .reserved + x.delta := by
    rw [hledger, netOf_append, hid, netOf_eq_sumOf hreserved]
    simp [netOf, Posting.entry]
  rw [← hnet] at hnear
  cases started with
  | none =>
    rw [hactual.eq_zero rfl, sub_zero] at hnear
    refine .unused hstarted hended ?_
    have hgrid : OnGrid kcuQuantum (netOf c'.ledger a'.id) := by
      rw [hnet, ← netOf_eq_sumOf hreserved]
      refine (onGrid_netOf hm.onGrid _).add ?_
      obtain ⟨value, hvalue⟩ := priced_of_bind hdelta
      exact onGrid_of_quantizeKcu hvalue
    obtain ⟨hlow, hhigh⟩ := abs_le.mp hnear
    have hlow' := hgrid.nonneg_of_neg_lt kcuQuantum_pos (by norm_num [kcuQuantum] at hlow ⊢; linarith)
    have hhigh' := hgrid.neg.nonneg_of_neg_lt kcuQuantum_pos (by norm_num [kcuQuantum] at hhigh ⊢; linarith)
    linarith
  | some t =>
    obtain ⟨hle, hmax⟩ := hbill t rfl
    cases hactual with
    | unused hhours =>
      -- no time at all
      have hspan := spanHours_nonneg hle
      have herr := abs_hoursBetween_sub_le hle hhours
      rw [zero_sub, abs_neg, abs_of_nonneg hspan] at herr
      have hzero : spanHours t ended = 0 := by linarith
      have heq : t = ended := by
        unfold spanHours at hzero
        rw [div_eq_zero_iff] at hzero
        rcases hzero with hzero | hzero
        · exact (sub_eq_zero.mp (by exact_mod_cast hzero)).symm
        · norm_num [microsPerSecond] at hzero
      refine .used hstarted hended hle (.inr ⟨heq, rfl⟩) ?_
      rw [hzero, mul_zero]
      norm_num [kcuQuantum] at hnear ⊢
      linarith
    | @used hours r actual vcpus memoryGb host coefficient hhours _ hvcpus hmem hhost hcoeff hr hcost =>
      have hrate' : rateOf c b = some r := by
        have h1 : b.requestedVcpus = row.requestedVcpus := congrArg (·.requestedVcpus) hcore
        have h2 : b.requestedMemoryGb = row.requestedMemoryGb :=
          congrArg (·.requestedMemoryGb) hcore
        have h3 : b.resourceId = row.resourceId := congrArg (·.resourceId) hcore
        have hhost' : row.resourceId.bind c.resources.get = some host := hhost
        have hvcpus' : row.requestedVcpus = some vcpus := hvcpus
        have hmem' : row.requestedMemoryGb = some memoryGb := hmem
        simp [rateOf, h1, h2, h3, hvcpus', hmem', hhost', hcoeff, hr, Except.toOption]
      have hr0 := hm.rate_nonneg ha hrate'
      have herr := abs_cost_sub_le hle hr0 hhours hcost
      rw [hrate', getD_some] at hmax
      refine .used hstarted hended hle (.inl (hrate.trans hrate')) ?_
      calc |netOf c'.ledger a'.id - r * spanHours t ended|
          ≤ |netOf c'.ledger a'.id - actual| + |actual - r * spanHours t ended| := abs_sub_le _ _ _
        _ ≤ 55 / 10 ^ 6 + chargeMax * (112 / 10 ^ 18) := by linarith
        _ < kcuQuantum := by norm_num [chargeMax, kcuQuantum]
end

namespace Action
variable {fixed : String → Prop} {a : Action} {c : Db} {id : Uuid}

theorem sized (hg : a.guard fixed c)
    (hsized : ∀ id a, c.allocations.get id = some a → Allocation.Sized a) {row : Allocation}
    (hrow : (a.on c).allocations.get id = some row) : row.Sized := by
  by_cases hid : a.target = some id
  · rw [get_allocations_target hg hid] at hrow
    cases a with
    | grant | enqueue =>
      cases hrow
      exact hg.sized
    | settle row closing =>
      cases closing
      all_goals
        obtain ⟨old, hold, rfl⟩ := map_eq_some_iff.mp hrow
        have := hsized id old hold
        unfold closeInterval
        split <;> simpa [Allocation.Sized] using this
    | ready system domainName stamp =>
      cases stamp with
      | none => cases hid
      | some =>
        obtain ⟨old, hold, rfl⟩ := map_eq_some_iff.mp hrow
        simpa [Allocation.Sized] using hsized id old hold
    | tearDown | setBudget | cordon | note => cases hid
    | _ =>
      obtain ⟨old, hold, rfl⟩ := map_eq_some_iff.mp hrow
      simpa [Allocation.Sized] using hsized id old hold
  · rw [get_allocations_of_ne hid] at hrow
    exact hsized id row hrow

theorem target_ne_of_settled (hg : a.guard fixed c) (hbill : ∀ w ∈ a.writes, w.billable c = true)
    {st : AllocationState} (hst : stateOf c id = some st) (hsettled : st.settled = true) : a.target ≠ some id := by
  intro hid
  have hnone : ∀ row : Allocation, RowIs c row → row.id = id → row.state = st := by
    rintro row hrow rfl
    rw [hrow.stateOf] at hst
    exact some.inj hst
  cases a with
  | grant a | enqueue a =>
    cases hid
    rw [stateOf, hg.fresh] at hst
    cases hst
  | promote row | unqueue row | activate row =>
    rw [← hnone row hg.current (by simpa using hid), hg.state] at hsettled
    cases hsettled
  | renew row | settle row =>
    rw [← hnone row hg.current (by simpa using hid)] at hsettled
    rcases hg.state with h | h <;> rw [h] at hsettled <;> cases hsettled
  | ready system domainName stamp =>
    cases stamp with
    | none => cases hid
    | some x =>
      cases hid
      have := hbill (.patchAllocation x.1 (.activeStartedAt x.2) x.2) (by simp [writes])
      simp [billable, hst, hsettled] at this
  | _ => cases hid

theorem netOf_entries_of_ne (h : a.target ≠ some id) : netOf a.entries id = 0 := by
  have hne : ∀ e ∈ a.entries, e.allocationId ≠ id := by
    intro e he hid
    cases a <;> simp_all [Posting.entry, Allocation.placed]
  have hnil : a.entries.filter (·.allocationId = id) = [] :=
    filter_eq_nil_iff.mpr fun e he hid => hne e he (of_decide_eq_true hid)
  rw [netOf, hnil]
  rfl
end Action

theorem netOf_of_eventsOf_nil {ledger : List LedgerEntry} {id : Uuid} (h : eventsOf ledger id = []) :
    netOf ledger id = 0 := by
  have hnil : ledger.filter (·.allocationId = id) = [] := map_eq_nil_iff.mp h
  simp [netOf, hnil]

section
variable {fixed : String → Prop} {c : Db}

theorem CanUnqueue.billed {row a : Allocation} {new : AllocationState} {now : Time}
    {audit : RecordOf "allocations" row.id "requested" new.value}
    (hi : WellFormed c) (h : Metered c) (hg : CanUnqueue c row new) (ha : c.allocations.get row.id = some a) :
    Billed (store.applyAll (unqueue row new now audit).writes c) ((AllocationPatch.state new).apply now a) := by
  have hstate : a.state = .requested := by
    have := hg.current.stateOf
    rw [stateOf, ha, map_some, some.injEq] at this
    rw [this, hg.state]
  have hrow := hi.rows _ _ ha
  refine .unused ?_ ?_ ?_
  · rw [activeStartedAt_apply]
    exact (hrow.queued hstate).2.2
  · rw [activeEndedAt_apply]
    exact hrow.running (by rw [hstate]; rfl)
  · have hid : ((AllocationPatch.state new).apply now a).id = row.id := by
      rw [id_apply, allocation_id ha]
    have hstory := h.storied row.id
    rw [hg.current.stateOf, hg.state] at hstory
    have hnone : (unqueue row new now audit).entries = [] := rfl
    rw [hid, ledger_writes, hnone, append_nil]
    exact netOf_of_eventsOf_nil hstory

theorem CanSettle.billed_of_writes {row a : Allocation} {closing : Closing row} {started : Option Time}
    {ended now : Time} {x : Posting} (hi : WellFormed c) (h : Metered c) (hg : CanSettle c row started ended x)
    (hbill : ∀ w ∈ (settle row closing started ended now x).writes, w.billable c = true)
    (ha : c.allocations.get row.id = some a) {st : AllocationState} {begun : Allocation}
    (hbegun : begun.activeStartedAt = a.activeStartedAt ∧ begun.activeEndedAt = a.activeEndedAt ∧
      begun.id = a.id ∧ begun.requestedVcpus = a.requestedVcpus ∧
      begun.requestedMemoryGb = a.requestedMemoryGb ∧ begun.resourceId = a.resourceId) :
    Billed (store.applyAll (settle row closing started ended now x).writes c)
      ((AllocationPatch.state st).apply now (closeInterval started ended now begun)) := by
  obtain ⟨h1, h2, h3, h4, h5, h6⟩ := hbegun
  have hopened : a.activeStartedAt = started := by
    have := hg.opened
    rw [ha, map_some, some.injEq] at this
    exact this
  have hopen : a.activeEndedAt = none := by
    have hst := hg.current.stateOf
    rw [stateOf, ha, map_some, some.injEq] at hst
    refine (hi.rows _ _ ha).running ?_
    rcases hg.state with hs | hs <;> rw [hst, hs] <;> rfl
  refine hg.billed h ha ?_ (ledger_writes _ c) ?_ ?_ ?_ ?_
  · intro t ht
    have hmem : patchAllocation row.id (.activeEndedAt ended) now ∈
        (settle row closing started ended now x).writes := by
      cases closing <;> simp [writes, stampEnded, ht]
    have hw := hbill _ hmem
    simp only [billable, ha, bind_some, hopened, ht, map_some, getD_some, decide_eq_true_eq] at hw
    exact hw
  · have hguard : (settle row closing started ended now x).guard noneFixed c := hg
    rw [(rely_nil hguard).rateOf_eq]
    cases started <;> simp [rateOf, closeInterval, h4, h5, h6]
  · rw [← allocation_id ha, ← h3]
    cases started <;> simp [closeInterval]
  · cases started <;> simp [closeInterval, h1, hopened]
  · cases started <;> simp [closeInterval, h2, hopen]

/-- **The row an action touches is billed if it has ended by it.** -/
theorem Action.billed_target {a : Action} {id : Uuid} (hi : WellFormed c) (h : Metered c)
    (hg : a.guard fixed c) (hbill : ∀ w ∈ a.writes, w.billable c = true) (hid : a.target = some id) {row : Allocation}
    (hrow : a.becomes (c.allocations.get id) = some row) (hsettled : row.state.settled = true) :
    Billed (a.on c) row := by
  -- it had not ended before
  have hbefore : ∀ old, c.allocations.get id = some old → old.state.settled = false := by
    intro old hold
    have hst : stateOf c id = some old.state := by rw [stateOf, hold, map_some]
    refine Bool.eq_false_iff.mpr fun hset => ?_
    exact target_ne_of_settled hg hbill hst hset hid
  cases a with
  | grant | enqueue =>
    cases hrow
    rw [hg.state] at hsettled
    cases hsettled
  | promote | activate =>
    obtain ⟨old, hold, rfl⟩ := map_eq_some_iff.mp hrow
    rw [state_apply] at hsettled
    cases hsettled
  | unqueue =>
    cases hid
    obtain ⟨old, hold, rfl⟩ := map_eq_some_iff.mp hrow
    exact CanUnqueue.billed hi h hg hold
  | renew =>
    obtain ⟨old, hold, rfl⟩ := map_eq_some_iff.mp hrow
    rw [state_apply] at hsettled
    exact absurd hsettled (by rw [Bool.not_eq_true]; exact hbefore old hold)
  | settle row closing =>
    cases hid
    cases closing with
    | release | expire =>
      obtain ⟨old, hold, rfl⟩ := map_eq_some_iff.mp hrow
      exact CanSettle.billed_of_writes hi h hg hbill hold (by simp)
  | ready system domainName stamp =>
    cases stamp with
    | none => cases hid
    | some =>
      obtain ⟨old, hold, rfl⟩ := map_eq_some_iff.mp hrow
      rw [state_apply] at hsettled
      exact absurd hsettled (by rw [Bool.not_eq_true]; exact hbefore old hold)
  | _ => cases hid
end

theorem Metered.act {fixed : String → Prop} {a : Action} {c : Db} (hi : WellFormed c) (h : Metered c)
    (hg : a.guard fixed c) (hbill : ∀ w ∈ a.writes, w.billable c = true) : Metered (a.on c) := by
  have hrely := rely_nil hg
  refine ⟨?_, fun id row hrow => Action.sized hg h.sized hrow, ?_, h.storied.act hi hg, ?_⟩
  · rw [hrely.coefficients]
    exact h.coefficients
  · intro e he
    rw [a.ledger_writes] at he
    rcases mem_append.mp he with he | he
    · exact h.onGrid e he
    · exact onGrid_of_entry hg he
  · intro id row hrow hsettled
    by_cases hid : a.target = some id
    · rw [get_allocations_target hg hid] at hrow
      exact billed_target hi h hg hbill hid hrow hsettled
    · rw [get_allocations_of_ne hid] at hrow
      have hnet : netOf (a.on c).ledger row.id = netOf c.ledger row.id := by
        rw [a.ledger_writes, netOf_append, allocation_id hrow, netOf_entries_of_ne hid, add_zero]
      cases h.billed id row hrow hsettled with
      | unused hstarted hended hzero => exact .unused hstarted hended (hnet.trans hzero)
      | used hstarted hended hle hrate hnear =>
        rw [← hrely.rateOf_eq] at hrate
        rw [← hnet] at hnear
        exact .used hstarted hended hle hrate hnear

/-! ## Runs -/

theorem ReachableBy.metered {cfg : Config} {s : Sys store} (h : ReachableBy cfg commitsBillable s) : Metered s.db := by
  refine h.always_billable ?_ fun a c hi hJ hg hbill => hJ.act hi hg hbill
  intro db hfresh
  refine ⟨hfresh.coefficients, ?_, ?_, ?_, ?_⟩
  · intro id a ha
    rw [hfresh.get_allocation] at ha
    cases ha
  · intro e he
    rw [hfresh.ledger] at he
    cases he
  · intro id
    rw [stateOf, hfresh.get_allocation, hfresh.ledger]
    rfl
  · intro id a ha
    rw [hfresh.get_allocation] at ha
    cases ha

/-- **In a run whose commits are billable, an allocation that was released or expired was never used and
    cost nothing, or has a closed interval and cost its rate over it to within a quantum; and its net
    charge is never negative.** -/
theorem billed_for_use {cfg : Config} {s : Sys store} (h : ReachableBy cfg commitsBillable s) {id : Uuid}
    {a : Allocation} (ha : s.db.allocations.get id = some a)
    (hend : a.state = .released ∨ a.state = .expired) :
    Billed s.db a ∧ 0 ≤ netOf s.db.ledger id := by
  have hmetered := h.metered
  have hsettled : a.state.settled = true := by
    rcases hend with h | h <;> rw [h] <;> rfl
  have hbilled := hmetered.billed id a ha hsettled
  refine ⟨hbilled, ?_⟩
  rw [← allocation_id ha]
  cases hbilled with
  | unused hstarted hended hnet => exact hnet.ge
  | @used started ended r hstarted hended hle hrate hnet =>
    -- above minus a quantum, on the quantum's grid
    refine (onGrid_netOf hmetered.onGrid _).nonneg_of_neg_lt kcuQuantum_pos ?_
    have hr : 0 ≤ r := by
      rcases hrate with hrate | ⟨-, hzero⟩
      · exact hmetered.rate_nonneg ha hrate
      · exact hzero.ge
    have hcharge := mul_nonneg hr (spanHours_nonneg hle)
    have hlow := (abs_lt.mp hnet).1
    linarith

def twoHours : Script :=
  Lab.provisioning ++ [.go 2 { uuid := 30 } 100, .start (.release (Lab.member "kernel") 10),
    .go 3 { uuid := 40, now := 7200000000 } 100]

theorem billed_for_use_twoHours : ∃ s : Sys store, ∃ a : Allocation,
    ReachableBy {} commitsBillable s ∧ s.db.allocations.get 10 = some a ∧ a.state = .released ∧
    a.activeStartedAt = some 0 ∧ a.activeEndedAt = some 7200000000 ∧
    Billed s.db a ∧ 0 ≤ netOf s.db.ledger 10 := by
  have hreach : ReachableBy {} commitsBillable
      (scriptedBy {} (fun s ch => (s.commits ch).all (·.billable s.db)) Lab.db twoHours) :=
    reachableBy_scripted (fun s ch h w hw => all_eq_true.mp h w hw) Lab.fresh _
  generalize hsdef : scriptedBy {} _ Lab.db twoHours = s at hreach
  have hrow : ∃ a, s.db.allocations.get 10 = some a ∧
      (a.state, a.activeStartedAt, a.activeEndedAt) = (AllocationState.released, some 0, some 7200000000) := by
    rw [← hsdef]
    exact map_eq_some_iff.mp (by decide +kernel)
  obtain ⟨a, ha, hcols⟩ := hrow
  simp only [Prod.mk.injEq] at hcols
  obtain ⟨hst, hstarted, hended⟩ := hcols
  exact ⟨s, a, hreach, ha, hst, hstarted, hended, billed_for_use hreach ha (.inl hst)⟩

/-- The allocation is released while its System is being provisioned. -/
def releasedFirst : Script :=
  Lab.provisioning ++ [.go 2 { uuid := 30 } 3, .start (.release (Lab.member "kernel") 10),
    .go 3 { uuid := 40, now := 3600000000 } 100, .go 2 { uuid := 50 } 100]

/-- The interval is opened after the release, and stays open. -/
theorem interval_never_closed : ∃ s : Sys store, ∃ a : Allocation, Reachable {} s ∧
    s.db.allocations.get 10 = some a ∧ a.state = .released ∧
    a.activeStartedAt = some 0 ∧ a.activeEndedAt = none ∧ ¬ Billed s.db a := by
  have hrow : ∃ a, (scripted {} Lab.db releasedFirst).db.allocations.get 10 = some a ∧
      (a.state, a.activeStartedAt, a.activeEndedAt) = (AllocationState.released, some 0, none) :=
    map_eq_some_iff.mp (by decide +kernel)
  obtain ⟨a, ha, hcols⟩ := hrow
  simp only [Prod.mk.injEq] at hcols
  obtain ⟨hst, hstarted, hended⟩ := hcols
  refine ⟨_, a, reachable_scripted Lab.fresh _, ha, hst, hstarted, hended, ?_⟩
  intro hbilled
  cases hbilled with
  | unused hstarted' => rw [hstarted] at hstarted'; cases hstarted'
  | used hstarted' hended' => rw [hended] at hended'; cases hended'
end Kdive
