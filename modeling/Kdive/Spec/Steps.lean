import Kdive.Spec.Rely

/-! # What an action changes

An action touches at most one allocation, and appends at most one ledger row. Here is what it makes of
the allocation, of the ledger, of a budget and of a System; the proofs about actions use these and
never the list of writes.
-/

namespace Kdive
open Write
open Lib (Time Keyed Table Store)
open AllocationPatch Posting

namespace Action
theorem keys_subset_need (a : Action) : ∀ w ∈ a.writes, w.keys ⊆ a.need := by
  cases a with
  | grant _ _ _ key | renew _ _ _ _ key =>
    cases key <;> simp [writes, keyWrites, keyNeeds, entry, keys]
  | enqueue a key => cases key <;> simp [writes, keyWrites, keyNeeds, keys]
  | settle row closing started =>
    cases closing <;> cases started <;>
      simp [writes, stampEnded, entry, keys]
  | ready system domainName stamp => cases stamp <;> simp [writes, keys]
  | _ => simp [writes, entry, Allocation.placed, keys]

/-! ## The allocation -/

@[simp]
def target : Action → Option Uuid
  | grant a .. => some a.id
  | enqueue a .. => some a.id
  | promote row .. => some row.id
  | unqueue row .. => some row.id
  | renew row .. => some row.id
  | settle row .. => some row.id
  | activate row .. => some row.id
  | ready _ _ stamp _ => stamp.map (·.1)
  | _ => none

def closeInterval (started : Option Time) (ended now : Time) (a : Allocation) : Allocation :=
  if started.isSome then (activeEndedAt ended).apply now a else a

def becomes : Action → Option Allocation → Option Allocation
  | grant a .., _ => some a
  | enqueue a .., _ => some a
  | promote _ host expiry claim now _ _, row =>
    row.map ((place host expiry claim).apply now)
  | unqueue _ new now _, row => row.map ((state new).apply now)
  | renew _ expiry now _ _ _, row => row.map ((leaseExpiry expiry).apply now)
  | settle _ (.release _ _) started ended now _, row =>
    row.map fun a => (state .released).apply now
      (closeInterval started ended now ((state .releasing).apply now a))
  | settle _ (.expire _) started ended now _, row =>
    row.map fun a => (state .expired).apply now (closeInterval started ended now a)
  | activate _ _ now _ _, row => row.map ((state .active).apply now)
  | ready _ _ (some x) _, row => row.map ((activeStartedAt x.2).apply x.2)
  | _, row => row

variable {a : Action} {id : Uuid}

theorem target_of_mem_need (h : .allocationRow id ∈ a.need) : a.target = some id := by
  cases a with
  | grant _ _ _ key | enqueue _ key | renew _ _ _ _ key => cases key <;> simp_all [need, keyNeeds, target]
  | ready system domainName stamp => cases stamp <;> simp_all [need, target]
  | _ => simp_all [need, target]

theorem get_allocations_of_ne (h : a.target ≠ some id) (c : Db) :
    (store.applyAll a.writes c).allocations.get id = c.allocations.get id := by
  refine Store.read_applyAll_of_eq (σ := store) (fun db => db.allocations.get id) ?_ c
  intro w hw db
  show (w.apply db).allocations.get id = _
  rw [w.get_allocations, onAllocation_of_notMem]
  exact fun hk => h (target_of_mem_need (a.keys_subset_need w hw hk))

theorem get_allocations_target {fixed : String → Prop} {c : Db} (hg : a.guard fixed c) (h : a.target = some id) :
    (store.applyAll a.writes c).allocations.get id = a.becomes (c.allocations.get id) := by
  rw [get_allocations_applyAll]
  cases a with
  | grant a host x key | enqueue a key =>
    obtain rfl : a.id = id := by simpa using h
    have hfresh : c.allocations.get a.id = none := hg.fresh
    cases key <;> simp [writes, keyWrites, onAllocation, becomes, hfresh]
  | renew row expiry now x key =>
    obtain rfl : row.id = id := by simpa using h
    cases key <;> simp [writes, keyWrites, onAllocation, becomes]
  | settle row closing started =>
    obtain rfl : row.id = id := by simpa using h
    cases closing <;> cases started <;> cases c.allocations.get row.id <;>
      simp [writes, stampEnded, onAllocation, becomes, closeInterval]
  | ready system domainName stamp =>
    cases stamp with
    | none => cases h
    | some x =>
      obtain rfl : x.1 = id := by simpa using h
      simp [writes, onAllocation, becomes]
  | promote row | unqueue row | activate row =>
    obtain rfl : row.id = id := by simpa using h
    simp [writes, onAllocation, becomes]
  | tearDown | setBudget | cordon | note => cases h

/-! ## The ledger and the budgets -/

@[simp]
def entries : Action → List LedgerEntry
  | grant a _ x _ _ => [x.entry .reserved a]
  | promote row host expiry claim _ x _ => [x.entry .reserved (row.placed host expiry claim)]
  | renew row _ _ x _ _ => [x.entry .reserved row]
  | settle row _ _ _ _ x => [x.entry .reconciled row]
  | _ => []

theorem ledger_writes (a : Action) (c : Db) : (store.applyAll a.writes c).ledger = c.ledger ++ a.entries := by
  rw [ledger_applyAll]
  congr 1
  cases a with
  | grant _ _ _ key | renew _ _ _ _ key =>
    cases key <;> simp [writes, keyWrites]
  | enqueue a key => cases key <;> simp [writes, keyWrites]
  | settle row closing started =>
    cases closing <;> cases started <;>
      simp [writes, stampEnded]
  | ready system domainName stamp => cases stamp <;> simp [writes]
  | _ => simp [writes]

/-- What it makes of a budget: the postings move the running total, and a limit is set. -/
def onBudget (a : Action) (p : String) (row : Option Budget) : Option Budget :=
  match a with
  | setBudget b _ => (Write.upsertBudget b).onBudget p row
  | a => a.entries.foldl (fun row e => (Write.addSpent e.project e.kcuDelta).onBudget p row) row

theorem get_budgets_writes (a : Action) (c : Db) (p : String) :
    (store.applyAll a.writes c).budgets.get p = a.onBudget p (c.budgets.get p) := by
  rw [get_budgets_applyAll]
  cases a with
  | grant _ _ _ key | renew _ _ _ _ key =>
    cases key <;> simp [writes, keyWrites, entry, Write.onBudget, onBudget]
  | enqueue a key =>
    cases key <;> simp [writes, keyWrites, Write.onBudget, onBudget]
  | settle row closing started =>
    cases closing <;> cases started <;>
      simp [writes, stampEnded, entry, Write.onBudget, onBudget]
  | ready system domainName stamp =>
    cases stamp <;> simp [writes, Write.onBudget, onBudget]
  | _ =>
    simp [writes, entry, Allocation.placed, Write.onBudget, onBudget]

theorem project_mem_need {e : LedgerEntry} (h : e ∈ a.entries) :
    .project e.project ∈ a.need ∧ .budgetRow e.project ∈ a.need := by
  cases a <;> simp_all [entries, need, entry, Allocation.placed]

theorem onBudget_of_entries {e : LedgerEntry} (h : a.entries = [e]) (p : String)
    (row : Option Budget) : a.onBudget p row =
      if e.project = p then row.map fun b => { b with spentKcu := b.spentKcu + e.kcuDelta }
      else row := by
  cases a <;> simp_all [entries, onBudget, Write.onBudget]

/-! ## Systems -/

def onSystem (a : Action) (id : Uuid) (row : Option System) : Option System :=
  match a with
  | activate _ s .. => (Write.insertSystem s).onSystem id row
  | ready system domainName .. => (Write.patchSystem system (.ready domainName)).onSystem id row
  | tearDown system _ => (Write.patchSystem system (.state .tornDown)).onSystem id row
  | _ => row

theorem get_systems_writes (a : Action) (c : Db) (id : Uuid) :
    (store.applyAll a.writes c).systems.get id = a.onSystem id (c.systems.get id) := by
  rw [get_systems_applyAll]
  cases a with
  | grant _ _ _ key | renew _ _ _ _ key =>
    cases key <;> simp [writes, keyWrites, Write.onSystem, onSystem]
  | enqueue a key => cases key <;> simp [writes, keyWrites, Write.onSystem, onSystem]
  | settle row closing started =>
    cases closing <;> cases started <;>
      simp [writes, stampEnded, Write.onSystem, onSystem]
  | ready system domainName stamp =>
    cases stamp <;> simp [writes, Write.onSystem, onSystem]
  | _ => simp [writes, Write.onSystem, onSystem]

theorem onSystem_cases (a : Action) (id : Uuid) (row : Option System) : a.onSystem id row = row ∨
    (∃ alloc s now created activated, a = activate alloc s now created activated ∧ s.id = id ∧
      row = none ∧ a.onSystem id row = some s) ∨ (∃ s name stamp audit, a = ready id name stamp audit ∧ row = some s ∧
      a.onSystem id row = some ((SystemPatch.ready name).apply s)) ∨ ∃ s audit, a = tearDown id audit ∧ row = some s ∧
      a.onSystem id row = some ((SystemPatch.state .tornDown).apply s) := by
  cases a with
  | activate alloc s now created activated =>
    by_cases h : s.id = id ∧ row = none
    · refine .inr (.inl ⟨alloc, s, now, created, activated, rfl, h.1, h.2, ?_⟩)
      simp [onSystem, Write.onSystem, h]
    · exact .inl (if_neg h)
  | ready system name stamp audit =>
    rcases eq_or_ne system id with rfl | h
    · cases row with
      | none => exact .inl (by simp [onSystem, Write.onSystem])
      | some s =>
        exact .inr (.inr (.inl ⟨s, name, stamp, audit, rfl, rfl, by simp [onSystem, Write.onSystem]⟩))
    · exact .inl (if_neg h)
  | tearDown system audit =>
    rcases eq_or_ne system id with rfl | h
    · cases row with
      | none => exact .inl (by simp [onSystem, Write.onSystem])
      | some s => exact .inr (.inr (.inr ⟨s, audit, rfl, rfl, by simp [onSystem, Write.onSystem]⟩))
    · exact .inl (if_neg h)
  | _ => exact .inl rfl

theorem onSystem_some (a : Action) (id : Uuid) (s : System) :
    ∃ s', a.onSystem id (some s) = some s' ∧ s'.allocationId = s.allocationId := by
  rcases a.onSystem_cases id (some s) with h | ⟨_, _, _, _, _, _, _, hnone, _⟩ |
    ⟨s', name, _, _, _, hs', h⟩ | ⟨s', _, _, hs', h⟩
  · exact ⟨s, h, rfl⟩
  · cases hnone
  · cases hs'
    exact ⟨_, h, rfl⟩
  · cases hs'
    exact ⟨_, h, rfl⟩

theorem onSystem_none {s : System} (h : a.onSystem id none = some s) :
    ∃ row now created activated, a = activate row s now created activated := by
  cases a with
  | activate row s0 now created activated =>
    by_cases hid : s0.id = id
    · simp only [onSystem, Write.onSystem, hid, and_self, if_true, Option.some.injEq] at h
      subst h
      exact ⟨row, now, created, activated, rfl⟩
    · simp [onSystem, Write.onSystem, hid] at h
  | ready | tearDown => simp [onSystem, Write.onSystem] at h
  | _ => cases h
end Action
end Kdive
