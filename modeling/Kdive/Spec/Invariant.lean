import Kdive.Spec.Steps

/-! # The invariant

What holds of every committed state, and is needed to see that the actions the services perform are
legitimate: money is only ever booked on allocations that were granted, by projects that have a
budget; a queued allocation holds nothing; one in use has a host, a lease and a reservation, and its
billing interval is not closed; a System stands on an allocation that has left the queue.

Every action keeps it (`WellFormed.act`).
-/

namespace Kdive
open List Option Kdive.Action
open Lib (Time Keyed Table Store)
open AllocationState Posting AllocationPatch

structure Booked (c : Db) (e : LedgerEntry) : Prop where
  budget : (c.budgets.get e.project).isSome
  granted : ∃ a, c.allocations.get e.allocationId = some a ∧ a.project = e.project ∧
    a.resourceId.isSome ∧ a.state ≠ .requested ∧ a.state ≠ .failed

structure RowOk (c : Db) (a : Allocation) : Prop where
  settled : a.state ≠ .releasing
  queued : a.state = .requested → a.leaseExpiry = none ∧ a.resourceId = none ∧ a.activeStartedAt = none
  held : a.state.occupying = true → a.resourceId.isSome ∧ a.leaseExpiry.isSome ∧
    ∃ e ∈ c.ledger, e.allocationId = a.id ∧ e.eventType = .reserved
  running : a.state.terminal = false → a.activeEndedAt = none

/-- What the services keep in every committed database. -/
structure WellFormed (c : Db) : Prop where
  ledger : ∀ e ∈ c.ledger, Booked c e
  rows : ∀ id a, c.allocations.get id = some a → RowOk c a
  systems : ∀ id s, c.systems.get id = some s → ∃ a, c.allocations.get s.allocationId = some a ∧ a.state ≠ .requested

/-! ## What follows from it -/

theorem allocation_id {c : Db} {id : Uuid} {a : Allocation} (h : c.allocations.get id = some a) : a.id = id :=
  Table.key_eq_of_get h

namespace WellFormed
variable {c c' : Db} {a : Allocation}

theorem project_of_entry (h : WellFormed c) {e : LedgerEntry} (he : e ∈ c.ledger)
    (ha : c.allocations.get e.allocationId = some a) : e.project = a.project := by
  obtain ⟨b, hb, hp, -⟩ := (h.ledger e he).granted
  rw [ha, some.injEq] at hb
  rw [hb, hp]

theorem filter_entries (h : WellFormed c) {id : Uuid} (ha : c.allocations.get id = some a) (f : LedgerEntry → Bool) :
    c.ledger.filter (fun e => e.allocationId = id && f e) =
      (c.ledger.filter (·.project = a.project)).filter (fun e => e.allocationId = id && f e) := by
  rw [List.filter_filter]
  refine filter_congr fun e he => ?_
  by_cases hid : e.allocationId = id
  · have hp : e.project = a.project := h.project_of_entry he (by rw [hid]; exact ha)
    simp [hp]
  · simp [hid]

theorem state_cases {id : Uuid} (h : WellFormed c) (ha : c.allocations.get id = some a)
    (hterm : a.state.terminal = false) : a.state = .requested ∨ a.state = .granted ∨ a.state = .active := by
  have hrel := (h.rows id a ha).settled
  cases hs : a.state <;> simp_all [terminal]
end WellFormed

/-! ## Every action keeps it -/

/-- A row after a step: it is in order, and what was booked on it stays booked. -/
structure RowStep (c' : Db) (row : Option Allocation) (a' : Allocation) : Prop where
  ok : RowOk c' a'
  keeps : ∀ a, row = some a → a'.project = a.project ∧ (a.resourceId.isSome → a'.resourceId.isSome) ∧
    (a.state ≠ .requested → a'.state ≠ .requested) ∧
    (a.state ≠ .requested → a.state ≠ .failed → a'.state ≠ .failed)

theorem RowOk.mono {c c' : Db} {a : Allocation} (hl : ∀ e ∈ c.ledger, e ∈ c'.ledger) (h : RowOk c a) : RowOk c' a := by
  refine ⟨h.settled, h.queued, fun hocc => ?_, h.running⟩
  obtain ⟨hr, hlease, e, he, hid, hty⟩ := h.held hocc
  exact ⟨hr, hlease, e, hl e he, hid, hty⟩

theorem WellFormed.step {c c' : Db} {es : List LedgerEntry} (h : WellFormed c)
    (hbudgets : ∀ p, (c.budgets.get p).isSome → (c'.budgets.get p).isSome)
    (hledger : c'.ledger = c.ledger ++ es) (hes : ∀ e ∈ es, Booked c' e)
    (hrows : ∀ id, c'.allocations.get id = c.allocations.get id ∨
      ∃ a', c'.allocations.get id = some a' ∧ RowStep c' (c.allocations.get id) a')
    (hsystems : ∀ id s, c'.systems.get id = some s →
      (∃ s0, c.systems.get id = some s0 ∧ s0.allocationId = s.allocationId) ∨
      ∃ a, c'.allocations.get s.allocationId = some a ∧ a.state ≠ .requested) : WellFormed c' := by
  have hmem : ∀ e ∈ c.ledger, e ∈ c'.ledger := by
    intro e he
    rw [hledger]
    exact mem_append_left _ he
  refine ⟨?_, ?_, ?_⟩
  · intro e he
    rw [hledger, mem_append] at he
    rcases he with he | he
    · obtain ⟨hb, a, ha, hp, hr, hreq, hfail⟩ := h.ledger e he
      refine ⟨hbudgets _ hb, ?_⟩
      rcases hrows e.allocationId with hsame | ⟨a', ha', hstep⟩
      · exact ⟨a, hsame.trans ha, hp, hr, hreq, hfail⟩
      · obtain ⟨hp', hr', hreq', hfail'⟩ := hstep.keeps a ha
        exact ⟨a', ha', hp'.trans hp, hr' hr, hreq' hreq, hfail' hreq hfail⟩
    · exact hes e he
  · intro id a ha
    rcases hrows id with hsame | ⟨a', ha', hstep⟩
    · exact (h.rows id a (hsame ▸ ha)).mono hmem
    · rw [ha', some.injEq] at ha
      exact ha ▸ hstep.ok
  · intro id s hs
    rcases hsystems id s hs with ⟨s0, hs0, hsame⟩ | hnew
    · obtain ⟨a, ha, hreq⟩ := h.systems id s0 hs0
      rw [hsame] at ha
      rcases hrows s.allocationId with hkeep | ⟨a', ha', hstep⟩
      · exact ⟨a, hkeep.trans ha, hreq⟩
      · exact ⟨a', ha', (hstep.keeps a ha).2.2.1 hreq⟩
    · exact hnew

theorem RowIs.get {c : Db} {row : Allocation} (h : RowIs c row) :
    ∃ a, c.allocations.get row.id = some a ∧ a.project = row.project ∧ a.state = row.state := by
  obtain ⟨a, ha, hcore⟩ := h
  exact ⟨a, ha, congrArg (·.project) hcore, congrArg (·.state) hcore⟩

namespace Action
variable {fixed : String → Prop} {a : Action} {c : Db}

theorem rowStep {c' : Db} (hi : WellFormed c) (hg : a.guard fixed c) (hl : c'.ledger = c.ledger ++ a.entries)
    {id : Uuid} (hid : a.target = some id) :
    ∃ a', a.becomes (c.allocations.get id) = some a' ∧ RowStep c' (c.allocations.get id) a' := by
  have hmem : ∀ e ∈ c.ledger, e ∈ c'.ledger := by
    intro e he
    rw [hl]
    exact mem_append_left _ he
  have hnew : ∀ e ∈ a.entries, e ∈ c'.ledger := by
    intro e he
    rw [hl]
    exact mem_append_right _ he
  cases a with
  | grant a host x =>
    cases hid
    refine ⟨a, rfl, ⟨?_, ?_, ?_, fun _ => hg.unstarted.2⟩, ?_⟩
    · simp [hg.state]
    · simp [hg.state]
    · intro _
      exact ⟨by simp [hg.placed], hg.leased, x.entry .reserved a, hnew _ (by simp), rfl, rfl⟩
    · simp [hg.fresh]
  | enqueue a =>
    cases hid
    refine ⟨a, rfl, ⟨?_, ?_, ?_, fun _ => hg.unstarted.2⟩, ?_⟩
    · simp [hg.state]
    · exact fun _ => ⟨hg.unplaced.2.1, hg.unplaced.1, hg.unstarted.1⟩
    · simp [hg.state, occupying]
    · simp [hg.fresh]
  | promote =>
    cases hid
    obtain ⟨a0, ha0, -, hstate⟩ := hg.current.get
    have hreq : a0.state = .requested := hstate.trans hg.state
    have hrow := hi.rows _ _ ha0
    refine ⟨_, by rw [ha0]; rfl, ⟨?_, ?_, ?_, ?_⟩, ?_⟩
    · simp
    · simp
    · intro _
      refine ⟨by simp, by simp, _, hnew _ (mem_singleton_self _), ?_, rfl⟩
      simp [entry, Allocation.placed, allocation_id ha0]
    · intro _
      simpa using hrow.running (by rw [hreq]; rfl)
    · intro b hb
      cases ha0.symm.trans hb
      simp [hreq]
  | unqueue =>
    cases hid
    obtain ⟨a0, ha0, -, hstate⟩ := hg.current.get
    have hreq : a0.state = .requested := hstate.trans hg.state
    refine ⟨_, by rw [ha0]; rfl, ⟨?_, ?_, ?_, ?_⟩, ?_⟩
    · rcases hg.target with rfl | rfl <;> simp
    · rcases hg.target with rfl | rfl <;> simp
    · rcases hg.target with rfl | rfl <;> simp [occupying]
    · rcases hg.target with rfl | rfl <;> simp [terminal]
    · intro b hb
      cases ha0.symm.trans hb
      simp [hreq]
  | renew =>
    cases hid
    obtain ⟨a0, ha0, -, hstate⟩ := hg.current.get
    have hst : a0.state = .granted ∨ a0.state = .active := by
      rw [hstate]
      exact hg.state
    have hrow := (hi.rows _ _ ha0).mono hmem
    refine ⟨_, by rw [ha0]; rfl, ⟨?_, ?_, ?_, ?_⟩, ?_⟩
    · simpa using hrow.settled
    · rcases hst with h | h <;> simp [h]
    · intro hocc
      obtain ⟨hr, -, e, he, heid, hty⟩ := hrow.held (by simpa using hocc)
      exact ⟨by simpa using hr, by simp, e, he,
        by simpa using heid, hty⟩
    · simpa using hrow.running
    · intro b hb
      cases ha0.symm.trans hb
      simp
  | settle row closing started =>
    cases hid
    obtain ⟨a0, ha0, -, hstate⟩ := hg.current.get
    cases closing <;>
    · refine ⟨_, by rw [ha0]; rfl, ⟨?_, ?_, ?_, ?_⟩, ?_⟩
      · simp
      · simp
      · simp [occupying]
      · simp [terminal]
      · intro b hb
        cases ha0.symm.trans hb
        cases started <;> simp [closeInterval]
  | activate =>
    cases hid
    obtain ⟨a0, ha0, -, hstate⟩ := hg.current.get
    have hst : a0.state = .granted := hstate.trans hg.state
    have hrow := (hi.rows _ _ ha0).mono hmem
    refine ⟨_, by rw [ha0]; rfl, ⟨?_, ?_, ?_, ?_⟩, ?_⟩
    · simp
    · simp
    · intro _
      obtain ⟨hr, hlease, e, he, heid, hty⟩ := hrow.held (by simp [hst, occupying])
      exact ⟨by simpa using hr, by simpa using hlease, e, he, by simpa using heid, hty⟩
    · intro _
      simpa using hrow.running (by rw [hst]; rfl)
    · intro b hb
      cases ha0.symm.trans hb
      simp
  | ready system domainName stamp =>
    cases stamp with
    | none => cases hid
    | some stamp =>
      cases hid
      obtain ⟨s, hs, -, hback⟩ := hg.provisioning
      obtain ⟨a0, ha0, hreq⟩ := hi.systems _ _ hs
      rw [← hback stamp rfl] at ha0
      have hrow := (hi.rows _ _ ha0).mono hmem
      refine ⟨_, by rw [ha0]; rfl, ⟨?_, ?_, ?_, ?_⟩, ?_⟩
      · simpa using hrow.settled
      · simp [hreq]
      · simpa using hrow.held
      · simpa using hrow.running
      · intro b hb
        cases ha0.symm.trans hb
        simp
  | tearDown | setBudget | cordon | note => cases hid

theorem isSome_onBudget {p : String} {row : Option Budget} (h : row.isSome) : (a.onBudget p row).isSome := by
  cases a <;> simp only [onBudget, entries, Write.onBudget, foldl_cons, foldl_nil] <;>
    (try split) <;> simp_all

theorem budget_of_entry (hg : a.guard fixed c) {e : LedgerEntry} (he : e ∈ a.entries) :
    (c.budgets.get e.project).isSome := by
  cases a with
  | grant | renew =>
    obtain ⟨b, hb, -⟩ := hg.budget
    simp_all [entries, entry]
  | promote =>
    obtain ⟨b, hb, -⟩ := hg.budget
    simp_all [entries, entry, Allocation.placed]
  | settle =>
    have hb := hg.budget
    simp_all [entries, entry]
  | _ => simp at he

theorem row_of_entry (hi : WellFormed c) (hg : a.guard fixed c) {e : LedgerEntry} (he : e ∈ a.entries) :
    a.target = some e.allocationId ∧ ∃ a', a.becomes (c.allocations.get e.allocationId) = some a' ∧
      a'.project = e.project ∧ a'.resourceId.isSome ∧ a'.state ≠ .requested ∧ a'.state ≠ .failed := by
  cases a with
  | grant a host x =>
    obtain rfl : e = x.entry .reserved a := by simpa using he
    exact ⟨rfl, a, rfl, rfl, by simp [hg.placed], by simp [hg.state], by simp [hg.state]⟩
  | promote row host expiry claim now =>
    obtain rfl : e = _ := mem_singleton.mp he
    obtain ⟨a0, ha0, hp, -⟩ := hg.current.get
    refine ⟨rfl, (place host expiry claim).apply now a0, ?_, ?_, ?_, ?_, ?_⟩
    · show (c.allocations.get row.id).map _ = _
      rw [ha0]
      rfl
    · simpa [entry, Allocation.placed] using hp
    · simp
    · simp
    · simp
  | renew row expiry now =>
    obtain rfl : e = _ := mem_singleton.mp he
    obtain ⟨a0, ha0, hp, hst⟩ := hg.current.get
    have hocc : a0.state.occupying = true := by
      rw [hst]
      rcases hg.state with h | h <;> rw [h] <;> rfl
    refine ⟨rfl, (leaseExpiry expiry).apply now a0, ?_, ?_, ?_, ?_, ?_⟩
    · show (c.allocations.get row.id).map _ = _
      rw [ha0]
      rfl
    · simpa [entry] using hp
    · simpa using ((hi.rows _ _ ha0).held hocc).1
    · rcases hg.state with h | h <;> simp [hst, h]
    · rcases hg.state with h | h <;> simp [hst, h]
  | settle row closing started =>
    obtain rfl : e = _ := mem_singleton.mp he
    obtain ⟨a0, ha0, hp, hst⟩ := hg.current.get
    have hocc : a0.state.occupying = true := by
      rw [hst]
      rcases hg.state with h | h <;> rw [h] <;> rfl
    have hres := ((hi.rows _ _ ha0).held hocc).1
    refine ⟨rfl, ?_⟩
    show ∃ a', becomes _ (c.allocations.get row.id) = some a' ∧ _
    rw [ha0]
    cases closing <;> refine ⟨_, rfl, ?_⟩ <;> cases started <;>
      simp_all [AllocationPatch.set, closeInterval, entry]
  | _ => simp at he
end Action

theorem WellFormed.act {fixed : String → Prop} {a : Action} {c : Db} (hi : WellFormed c) (hg : a.guard fixed c) :
    WellFormed (a.on c) := by
  have hledger := a.ledger_writes c
  refine hi.step ?_ hledger ?_ ?_ ?_
  · intro p hp
    rw [a.get_budgets_writes]
    exact isSome_onBudget hp
  · intro e he
    obtain ⟨htarget, a', ha', hrow⟩ := row_of_entry hi hg he
    refine ⟨?_, a', ?_, hrow⟩
    · rw [a.get_budgets_writes]
      exact isSome_onBudget (budget_of_entry hg he)
    · rw [get_allocations_target hg htarget, ha']
  · intro id
    by_cases htarget : a.target = some id
    · obtain ⟨a', ha', hstep⟩ := Action.rowStep hi hg hledger htarget
      exact .inr ⟨a', by rw [get_allocations_target hg htarget, ha'], hstep⟩
    · exact .inl (get_allocations_of_ne htarget c)
  · intro id s hs
    rw [a.get_systems_writes] at hs
    cases hold : c.systems.get id with
    | some s0 =>
      obtain ⟨s', hs', hsame⟩ := a.onSystem_some id s0
      rw [hold, hs', some.injEq] at hs
      exact .inl ⟨s0, rfl, by rw [← hs, hsame]⟩
    | none =>
      rw [hold] at hs
      -- the one action that creates a System makes its allocation active
      obtain ⟨row, now, created, activated, rfl⟩ := onSystem_none hs
      obtain ⟨a0, ha0, -, -⟩ := hg.current.get
      refine .inr ⟨(state .active).apply now a0, ?_, by simp⟩
      rw [hg.backs, get_allocations_target hg rfl, ha0]
      rfl
end Kdive
