import Kdive.Spec.Invariant

/-! # The life of one allocation

What the actions look like from one allocation: a state machine, with the ledger rows each transition
posts. `Action.lifecycle` says that it is what the actions do; the properties of an allocation's ledger
rows are properties of this machine.
-/

namespace Kdive
open List
open Lib (Time Keyed Table Store)
open LedgerEventType

def eventsOf (ledger : List LedgerEntry) (id : Uuid) : List LedgerEventType :=
  (ledger.filter (·.allocationId = id)).map (·.eventType)

theorem eventsOf_append (ledger es : List LedgerEntry) (id : Uuid) :
    eventsOf (ledger ++ es) id = eventsOf ledger id ++ eventsOf es id := by
  simp [eventsOf]

/-- From a state, or from nothing, to a state, with the rows posted. -/
inductive Lifecycle : Option AllocationState → List LedgerEventType → AllocationState → Prop
  | granted : Lifecycle none [.reserved] .granted
  | queued : Lifecycle none [] .requested
  | promoted : Lifecycle (some .requested) [.reserved] .granted
  | unqueued {new : AllocationState} (h : new = .failed ∨ new = .released) :
      Lifecycle (some .requested) [] new
  | renewed {st : AllocationState} (h : st = .granted ∨ st = .active) :
      Lifecycle (some st) [.reserved] st
  | settled {st new : AllocationState} (h : st = .granted ∨ st = .active)
      (hn : new = .released ∨ new = .expired) : Lifecycle (some st) [.reconciled] new
  | activated : Lifecycle (some .granted) [] .active
  | stamped (st : AllocationState) : Lifecycle (some st) [] st

/-- Reservations alone, and reservations with their settlement. -/
abbrev held (n : Nat) : List LedgerEventType := List.replicate (n + 1) .reserved

abbrev closed (n : Nat) : List LedgerEventType := held n ++ [.reconciled]

/-- The rows an allocation in each state has had posted. -/
def Story : Option AllocationState → List LedgerEventType → Prop
  | some .granted, posted => ∃ n, posted = held n
  | some .active, posted => ∃ n, posted = held n
  | some .expired, posted => ∃ n, posted = closed n
  | some .released, posted => posted = [] ∨ ∃ n, posted = closed n
  | some .releasing, _ => False
  | _, posted => posted = []

theorem Lifecycle.story {old : Option AllocationState} {new : AllocationState}
    {before posted : List LedgerEventType} (h : Lifecycle old posted new) (hs : Story old before) :
    Story (some new) (before ++ posted) := by
  have hmore : ∀ n, held n ++ [.reserved] = held (n + 1) := fun n => (replicate_succ' ..).symm
  cases h with
  | granted | promoted =>
    obtain rfl : before = [] := hs
    exact ⟨0, rfl⟩
  | queued =>
    obtain rfl : before = [] := hs
    rfl
  | unqueued h =>
    obtain rfl : before = [] := hs
    rcases h with rfl | rfl
    · rfl
    · exact .inl rfl
  | renewed h =>
    rcases h with rfl | rfl
    · obtain ⟨n, rfl⟩ := hs
      exact ⟨n + 1, hmore n⟩
    · obtain ⟨n, rfl⟩ := hs
      exact ⟨n + 1, hmore n⟩
  | settled h hn =>
    have hused : ∃ n, before = held n := by
      rcases h with rfl | rfl
      · exact hs
      · exact hs
    obtain ⟨n, rfl⟩ := hused
    rcases hn with rfl | rfl
    · exact .inr ⟨n, rfl⟩
    · exact ⟨n, rfl⟩
  | activated | stamped =>
    rwa [append_nil]

theorem reserved_mem_held (n : Nat) : .reserved ∈ held n :=
  mem_replicate.mpr ⟨Nat.succ_ne_zero n, rfl⟩

theorem reconciled_notMem_held (n : Nat) : .reconciled ∉ held n := by
  intro h
  cases eq_of_mem_replicate h

theorem count_reconciled_closed (n : Nat) : (closed n).count .reconciled = 1 := by
  rw [count_append, count_eq_zero.mpr (reconciled_notMem_held n)]
  rfl

theorem eq_nil_of_closed {n : Nat} {before after : List LedgerEventType}
    (h : closed n = before ++ .reconciled :: after) : after = [] := by
  rcases eq_nil_or_concat after with hnil | ⟨init, x, hconcat⟩
  · exact hnil
  · -- otherwise it is among the rows before the last, which are reservations
    rw [hconcat, concat_eq_append, ← cons_append, ← append_assoc] at h
    have hinit := (append_inj' h rfl).1
    refine absurd ?_ (reconciled_notMem_held n)
    rw [hinit]
    exact mem_append_right _ mem_cons_self

/-- What an allocation's ledger rows say of its state, and its state of them. -/
structure SettledOnce (st : AllocationState) (posted : List LedgerEventType) : Prop where
  once : posted.count .reconciled ≤ 1
  ended : posted.count .reconciled = 1 ↔
    reserved ∈ posted ∧ (st = .released ∨ st = .expired)
  last : ∀ before after, posted = before ++ reconciled :: after → reserved ∉ after

theorem SettledOnce.nil (st : AllocationState) : SettledOnce st [] :=
  ⟨Nat.zero_le 1, by simp, by simp⟩

theorem SettledOnce.held {st : AllocationState} (hst : st.terminal = false) (n : Nat) : SettledOnce st (held n) := by
  have hnone := reconciled_notMem_held n
  refine ⟨?_, ?_, ?_⟩
  · rw [count_eq_zero.mpr hnone]
    exact Nat.zero_le 1
  · rw [count_eq_zero.mpr hnone]
    cases st <;> simp_all [AllocationState.terminal]
  · intro before after heq
    exact absurd (heq ▸ mem_append_right _ mem_cons_self) hnone

theorem SettledOnce.closed {st : AllocationState} (hst : st = .released ∨ st = .expired) (n : Nat) :
    SettledOnce st (closed n) := by
  refine ⟨(count_reconciled_closed n).le, ?_, ?_⟩
  · have hmem : reserved ∈ Kdive.closed n :=
      mem_append_left _ (reserved_mem_held n)
    exact ⟨fun _ => ⟨hmem, hst⟩, fun _ => count_reconciled_closed n⟩
  · intro before after heq
    rw [eq_nil_of_closed heq]
    exact not_mem_nil

theorem Story.settledOnce {st : AllocationState} {posted : List LedgerEventType}
    (h : Story (some st) posted) : SettledOnce st posted := by
  cases st with
  | requested | failed =>
    obtain rfl : posted = [] := h
    exact .nil _
  | releasing => exact h.elim
  | granted | active =>
    obtain ⟨n, rfl⟩ := h
    exact .held rfl n
  | released =>
    rcases h with rfl | ⟨n, rfl⟩
    · exact .nil _
    · exact .closed (.inl rfl) n
  | expired =>
    obtain ⟨n, rfl⟩ := h
    exact .closed (.inr rfl) n

def stateOf (c : Db) (id : Uuid) : Option AllocationState := (c.allocations.get id).map (·.state)

theorem RowIs.stateOf {c : Db} {row : Allocation} (h : RowIs c row) : stateOf c row.id = some row.state := by
  obtain ⟨a, ha, -, hs⟩ := h.get
  rw [Kdive.stateOf, ha, Option.map_some, hs]

namespace Action
variable {fixed : String → Prop} {a : Action} {c : Db}

theorem lifecycle_target (hg : a.guard fixed c) {id : Uuid} (hid : a.target = some id) :
    ∃ new, Lifecycle (stateOf c id) (eventsOf a.entries id) new ∧
      (a.becomes (c.allocations.get id)).map (·.state) = some new := by
  cases a with
  | grant a host x key audit =>
    cases hid
    have hnone : stateOf c a.id = none := by simp [stateOf, hg.fresh]
    refine ⟨.granted, ?_, by simp [becomes, hg.state]⟩
    have hposts : eventsOf (entries (.grant a host x key audit)) a.id = [.reserved] := by
      simp [eventsOf, Posting.entry]
    rw [hnone, hposts]
    exact .granted
  | enqueue a =>
    cases hid
    have hnone : stateOf c a.id = none := by simp [stateOf, hg.fresh]
    refine ⟨.requested, ?_, by simp [becomes, hg.state]⟩
    rw [hnone]
    exact .queued
  | promote row host expiry claim now x audit =>
    cases hid
    obtain ⟨a0, ha0, -, -⟩ := hg.current.get
    refine ⟨.granted, ?_, by simp [becomes, ha0]⟩
    have hposts : eventsOf (entries (.promote row host expiry claim now x audit)) row.id = [.reserved] := by
      simp [eventsOf, Posting.entry, Allocation.placed]
    rw [hg.current.stateOf, hg.state, hposts]
    exact .promoted
  | unqueue row new =>
    cases hid
    obtain ⟨a0, ha0, -, -⟩ := hg.current.get
    refine ⟨new, ?_, by simp [becomes, ha0]⟩
    rw [hg.current.stateOf, hg.state]
    exact .unqueued hg.target
  | renew row expiry now x key audit =>
    cases hid
    obtain ⟨a0, ha0, -, hs⟩ := hg.current.get
    refine ⟨row.state, ?_, by simp [becomes, ha0, hs]⟩
    have hposts : eventsOf (entries (.renew row expiry now x key audit)) row.id = [.reserved] := by
      simp [eventsOf, Posting.entry]
    rw [hg.current.stateOf, hposts]
    exact .renewed hg.state
  | settle row closing started ended now x =>
    cases hid
    obtain ⟨a0, ha0, -, -⟩ := hg.current.get
    have hposts : eventsOf (entries (.settle row closing started ended now x)) row.id = [.reconciled] := by
      simp [eventsOf, Posting.entry]
    cases closing with
    | release =>
      refine ⟨.released, ?_, by simp [becomes, ha0]⟩
      rw [hg.current.stateOf, hposts]
      exact .settled hg.state (.inl rfl)
    | expire =>
      refine ⟨.expired, ?_, by simp [becomes, ha0]⟩
      rw [hg.current.stateOf, hposts]
      exact .settled hg.state (.inr rfl)
  | activate row s now created activated =>
    cases hid
    obtain ⟨a0, ha0, -, -⟩ := hg.current.get
    refine ⟨.active, ?_, by simp [becomes, ha0]⟩
    rw [hg.current.stateOf, hg.state]
    exact .activated
  | ready system domainName stamp =>
    cases stamp with
    | none => cases hid
    | some stamp =>
      cases hid
      obtain ⟨a0, ha0, -⟩ := hg.unstarted stamp rfl
      refine ⟨a0.state, ?_, by simp [becomes, ha0]⟩
      rw [stateOf, ha0]
      exact .stamped a0.state
  | tearDown | setBudget | cordon | note => cases hid

/-- **What an action does to one allocation**: nothing, or one transition of its lifecycle. -/
theorem lifecycle (hi : WellFormed c) (hg : a.guard fixed c) (id : Uuid) : (stateOf (a.on c) id = stateOf c id ∧
      eventsOf (a.on c).ledger id = eventsOf c.ledger id) ∨
    ∃ new posted, Lifecycle (stateOf c id) posted new ∧ stateOf (a.on c) id = some new ∧
      eventsOf (a.on c).ledger id = eventsOf c.ledger id ++ posted := by
  rw [a.ledger_writes, eventsOf_append]
  by_cases hid : a.target = some id
  · obtain ⟨new, hlife, hnew⟩ := lifecycle_target hg hid
    refine .inr ⟨new, _, hlife, ?_, rfl⟩
    rw [stateOf, get_allocations_target hg hid, hnew]
  · refine .inl ⟨?_, ?_⟩
    · rw [stateOf, get_allocations_of_ne hid, stateOf]
    · have hnone : a.entries.filter (·.allocationId = id) = [] := by
        rw [filter_eq_nil_iff]
        intro e he heid
        exact hid (of_decide_eq_true heid ▸ (row_of_entry hi hg he).1)
      rw [eventsOf, eventsOf, hnone, map_nil, append_nil]
end Action
end Kdive
