import Kdive.Runs.Basic
import Kdive.Spec.Lifecycle

/-! # The ledger, in every run

Two accounts are kept of what a project has spent: the ledger, which only grows, and the running total in
`budgets`. They agree (`spent_eq_sum_of_ledger`). Of each allocation the ledger tells the whole story:
reservations while it is in use, one settlement when it ends, and nothing at all if it never left the
queue (`settled_once`).
-/

namespace Kdive
open Lib Lab Option List Kdive.Action

/-- `SELECT SUM(kcu_delta) FROM ledger WHERE project = …`. -/
def spentInLedger (ledger : List LedgerEntry) (project : String) : ℚ :=
  ((ledger.filter (·.project = project)).map (·.kcuDelta)).sum

theorem spentInLedger_append (ledger es : List LedgerEntry) (project : String) :
    spentInLedger (ledger ++ es) project = spentInLedger ledger project + spentInLedger es project := by
  simp [spentInLedger]

/-- Every running total is the sum of its ledger rows. -/
def Conserved (c : Db) : Prop :=
  ∀ p b, c.budgets.get p = some b → b.spentKcu = spentInLedger c.ledger p

theorem Action.entries_cases (a : Action) : a.entries = [] ∨ ∃ e, a.entries = [e] := by
  cases a <;> simp

variable {c : Db}

theorem WellFormed.spent_of_no_budget (h : WellFormed c) {p : String}
    (hp : c.budgets.get p = none) : spentInLedger c.ledger p = 0 := by
  have hnone : c.ledger.filter (·.project = p) = [] := by
    rw [filter_eq_nil_iff]
    intro e he hep
    have hb := (h.ledger e he).budget
    rw [of_decide_eq_true hep, hp] at hb
    cases hb
  simp [spentInLedger, hnone]

variable {fixed : String → Prop} {a : Action}

theorem Conserved.act (hi : WellFormed c) (h : Conserved c) (hg : a.guard fixed c) : Conserved (a.on c) := by
  intro p b hb
  rw [a.get_budgets_writes] at hb
  rw [a.ledger_writes, spentInLedger_append]
  rcases a.entries_cases with hnone | ⟨e, he⟩
  · rw [hnone]
    have hzero : spentInLedger [] p = 0 := rfl
    rw [hzero, add_zero]
    cases a with
    | setBudget b0 audit =>
      -- an upsert keeps the total of a row that is there, and starts a new one at zero
      simp only [onBudget, Write.onBudget] at hb
      split at hb
      · rename_i hp
        cases hrow : c.budgets.get p with
        | none =>
          rw [hrow] at hb
          cases hb
          rw [hi.spent_of_no_budget hrow]
          exact hg.2
        | some old =>
          rw [hrow] at hb
          cases hb
          exact h p old hrow
      · exact h p b hb
    | _ =>
      simp only [onBudget, hnone, foldl_nil] at hb
      exact h p b hb
  · rw [onBudget_of_entries he] at hb
    rw [he]
    by_cases hp : e.project = p
    · rw [if_pos hp] at hb
      obtain ⟨old, hold, rfl⟩ := map_eq_some_iff.mp hb
      have hone : spentInLedger [e] p = e.kcuDelta := by simp [spentInLedger, hp]
      rw [hone, ← h p old hold]
    · rw [if_neg hp] at hb
      have hzero : spentInLedger [e] p = 0 := by simp [spentInLedger, hp]
      rw [hzero, add_zero]
      exact h p b hb

variable {cfg : Config} {ok : Sys store → Choice store Client → Prop} {s : Sys store}

theorem ReachableBy.conserved (h : ReachableBy cfg ok s) : Conserved s.db := by
  refine h.always ?_ ?_
  · intro db hfresh p b hb
    rw [hfresh.ledger, hfresh.budgets p b hb]
    rfl
  · intro a c hi hJ hg
    exact hJ.act hi hg

/-- What is spent of a budget is the sum of its ledger. -/
theorem spent_eq_sum_of_ledger {cfg : Config} {s : Sys store} (h : Reachable cfg s) {p : String}
    {b : Budget} (hb : s.db.budgets.get p = some b) :
    b.spentKcu = spentInLedger s.db.ledger p := by
  exact h.conserved p b hb

theorem spent_eq_sum_of_ledger_released :
    (scripted {} db released).db.budgets.get "kernel" = some ⟨"kernel", 100, 5 / 4⟩ ∧
    5 / 4 = spentInLedger (scripted {} db released).db.ledger "kernel" := by
  have hb : (scripted {} db released).db.budgets.get "kernel" = some ⟨"kernel", 100, 5 / 4⟩ := by
    decide +kernel
  exact ⟨hb, spent_eq_sum_of_ledger (reachable_scripted fresh _) hb⟩

theorem Action.onGrid_of_entry {e : LedgerEntry}
    (hg : a.guard fixed c) (he : e ∈ a.entries) : Rounding.OnGrid kcuQuantum e.kcuDelta := by
  cases a with
  | grant | promote | renew =>
    obtain rfl : e = _ := mem_singleton.mp he
    obtain ⟨value, hvalue⟩ := hg.priced
    exact onGrid_of_quantizeKcu hvalue
  | settle =>
    obtain rfl : e = _ := mem_singleton.mp he
    obtain ⟨actual, -, hdelta⟩ := hg.settles
    obtain ⟨value, hvalue⟩ := priced_of_bind hdelta
    exact onGrid_of_quantizeKcu hvalue
  | _ => cases he

theorem ReachableBy.onGrid (h : ReachableBy cfg ok s) : ∀ e ∈ s.db.ledger, Rounding.OnGrid kcuQuantum e.kcuDelta := by
  refine h.always (J := fun c => ∀ e ∈ c.ledger, Rounding.OnGrid kcuQuantum e.kcuDelta) ?_ ?_
  · intro db hfresh e he
    rw [hfresh.ledger] at he
    cases he
  · intro a c _ hJ hg e he
    rw [a.ledger_writes] at he
    rcases mem_append.mp he with he | he
    · exact hJ e he
    · exact onGrid_of_entry hg he

/-! ## Settlement -/

def Storied (c : Db) : Prop := ∀ id, Story (stateOf c id) (eventsOf c.ledger id)

theorem Storied.act (hi : WellFormed c) (h : Storied c) (hg : a.guard fixed c) : Storied (a.on c) := by
  intro id
  rcases a.lifecycle hi hg id with ⟨hstate, hevents⟩ | ⟨new, posted, hlife, hstate, hevents⟩
  · rw [hstate, hevents]
    exact h id
  · rw [hstate, hevents]
    exact hlife.story (h id)

theorem ReachableBy.storied (h : ReachableBy cfg ok s) : Storied s.db := by
  refine h.always ?_ ?_
  · intro db hfresh id
    rw [stateOf, hfresh.get_allocation, hfresh.ledger]
    rfl
  · intro a c hi hJ hg
    exact hJ.act hi hg

def Uncharged (id : Uuid) (c : Db) : Prop :=
  (stateOf c id = some .released ∨ stateOf c id = some .failed) ∧ eventsOf c.ledger id = []

variable {id : Uuid}

/-- A terminal state is final, and nothing is posted in it. -/
theorem Uncharged.act (hi : WellFormed c) (h : Uncharged id c) (hg : a.guard fixed c) : Uncharged id (a.on c) := by
  obtain ⟨hst, hnone⟩ := h
  rcases a.lifecycle hi hg id with ⟨hstate, hevents⟩ | ⟨new, posted, hlife, hstate, hevents⟩
  · rw [Uncharged, hstate, hevents]
    exact ⟨hst, hnone⟩
  · rcases hst with hst | hst
    all_goals
      rw [hst] at hlife
      rw [Uncharged, hstate, hevents, hnone]
      cases hlife with
      | renewed h | settled h => simp at h
      | stamped => simp

/-- Still queued, or granted, or gone without a charge. -/
def QueueOutcome (id : Uuid) (c : Db) : Prop :=
  stateOf c id = some .requested ∨ stateOf c id = some .granted ∨ Uncharged id c

theorem QueueOutcome.of_requested (hi : WellFormed c) (hs : Storied c) (h : stateOf c id = some .requested)
    (hg : a.guard fixed c) : QueueOutcome id (a.on c) := by
  have hnone : eventsOf c.ledger id = [] := by
    have hstory := hs id
    rwa [h] at hstory
  rcases a.lifecycle hi hg id with ⟨hstate, -⟩ | ⟨new, posted, hlife, hstate, hevents⟩
  · exact .inl (hstate.trans h)
  · rw [h] at hlife
    rw [hnone, nil_append] at hevents
    cases hlife with
    | promoted => exact .inr (.inl hstate)
    | unqueued hnew =>
      refine .inr (.inr ⟨?_, hevents⟩)
      rcases hnew with rfl | rfl
      · exact .inr hstate
      · exact .inl hstate
    | renewed h | settled h => simp at h
    | stamped => exact .inl hstate

theorem Action.requested_of_target (hq : a.ofQueue = true) (hg : a.guard fixed c) (hid : a.target = some id) :
    stateOf c id = some .requested := by
  cases a with
  | promote row | unqueue row =>
    cases hid
    rw [hg.current.stateOf, hg.state]
  | _ => cases hq

theorem QueueOutcome.act (hi : WellFormed c) (hs : Storied c) (hq : a.ofQueue = true) (h : QueueOutcome id c)
    (hg : a.guard fixed c) : QueueOutcome id (a.on c) := by
  rcases h with h | h | h
  · exact .of_requested hi hs h hg
  · -- a granted row is none of the queue's
    have hne : a.target ≠ some id := by
      intro hid
      rw [requested_of_target hq hg hid] at h
      cases h
    refine .inr (.inl ?_)
    rwa [stateOf, get_allocations_of_ne hne]
  · exact .inr (.inr (h.act hi hg))

theorem QueueOutcome.path {as : List Action}
    (hi : WellFormed c) (hs : Storied c) (hq : queueOnly as) (hpath : (protocol fixed).Path c as)
    (h : QueueOutcome id c) : QueueOutcome id ((protocol fixed).effs as c) := by
  induction as generalizing c with
  | nil => exact h
  | cons a as ih =>
    obtain ⟨hg, hrest⟩ := hpath
    exact ih (hi.act hg) (hs.act hi hg) (fun b hb => hq b (mem_cons_of_mem _ hb)) hrest
      (h.act hi hs (hq a mem_cons_self) hg)

theorem QueueOutcome.batch {as : List Action}
    (hi : WellFormed c) (hs : Storied c) (hb : isBatch as) (hpath : (protocol fixed).Path c as)
    (h : stateOf c id = some .requested) : QueueOutcome id ((protocol fixed).effs as c) := by
  rcases hb with hlen | hqueue
  · cases as with
    | nil => exact .inl h
    | cons a as =>
      obtain rfl : as = [] := eq_nil_of_length_eq_zero (by simpa using hlen)
      exact .of_requested hi hs h hpath.1
  · exact .path hi hs hqueue hpath (.inl h)

/-- **An allocation is settled at most once, exactly once if it ended after a reservation, and nothing
    is reserved after its settlement; one that leaves the queue without being granted never has a
    ledger row**, then or in any later state. -/
theorem settled_once {cfg : Config} {s : Sys store} (h : Reachable cfg s) {id : Uuid}
    {a : Allocation} (ha : s.db.allocations.get id = some a) :
    SettledOnce a.state (eventsOf s.db.ledger id) ∧
    ∀ (ch : Choice store Client) (s' s'' : Sys store) (a' : Allocation),
      a.state = .requested → s.step (Client.prog cfg) ch = some s' →
      s'.db.allocations.get id = some a' → a'.state = .released ∨ a'.state = .failed →
      Sys.Leads (Client.prog cfg) s' s'' → eventsOf s''.db.ledger id = [] := by
  have hstate : stateOf s.db id = some a.state := by rw [stateOf, ha, map_some]
  refine ⟨?_, ?_⟩
  · have hstory := h.storied id
    rw [hstate] at hstory
    exact hstory.settledOnce
  · intro ch s' s'' a' hreq hstep ha' hend hleads
    have hend' : stateOf s'.db id = some a'.state := by rw [stateOf, ha', map_some]
    have hholds := h.holds
    obtain ⟨-, hdb, as, hb, hws, hpath⟩ := hholds.step (fun c _ => safe_of_noneFixed c) hstep
    have hout := QueueOutcome.batch hholds.inv h.storied hb hpath (hreq ▸ hstate)
    rw [← Protocol.applyAll_flatMap, ← hws, ← hdb, QueueOutcome, hend'] at hout
    have huncharged : Uncharged id s'.db := by
      rcases hout with hout | hout | hout
      · rcases hend with hend | hend <;> simp [hend] at hout
      · rcases hend with hend | hend <;> simp [hend] at hout
      · exact hout
    have hreach : Reachable cfg s' := h.step trivial hstep
    exact (hreach.from_then_on (fun b c hi hJ hg => hJ.act hi hg) hleads huncharged).2

theorem settled_once_released :
    (∃ a, (scripted {} db released).db.allocations.get 10 = some a ∧
      a.state = .released ∧ SettledOnce a.state [.reserved, .reconciled]) ∧
    ∃ s', (scripted {} db (leaving 11)).step (Client.prog {}) (.act 3 (.go true)) = some s' ∧
      stateOf s'.db 12 = some .released ∧ eventsOf s'.db.ledger 12 = [] := by
  refine ⟨?_, ?_⟩
  · obtain ⟨a, ha, hst⟩ : ∃ a, (scripted {} db released).db.allocations.get 10 = some a ∧
        a.state = .released := map_eq_some_iff.mp (by decide +kernel)
    have hevents : eventsOf (scripted {} db released).db.ledger 10 = [.reserved, .reconciled] := by
      decide +kernel
    exact ⟨a, ha, hst, hevents ▸ (settled_once (reachable_scripted fresh _) ha).1⟩
  · obtain ⟨a, ha, hreq⟩ : ∃ a, (scripted {} db (leaving 11)).db.allocations.get 12 = some a ∧
        a.state = .requested := map_eq_some_iff.mp (by decide +kernel)
    obtain ⟨s', hs', hst⟩ : ∃ s',
        (scripted {} db (leaving 11)).step (Client.prog {}) (.act 3 (.go true)) = some s' ∧
        stateOf s'.db 12 = some .released := map_eq_some_iff.mp (by decide +kernel)
    obtain ⟨a', ha', hst'⟩ := map_eq_some_iff.mp hst
    exact ⟨s', hs', hst, (settled_once (reachable_scripted fresh _) ha).2 _ s' s' a' hreq hs' ha'
      (.inl hst') (.refl s')⟩
end Kdive
