import Kdive.Lib.Rules
import Kdive.Spec.Guarantee

/-! # The discipline of the platform

The actions, their guards and the locks put together. A transaction's keys, oldest first, tell what it has done: the
shared keys `picked`, `candidate` and `aged` record the hosts and the queued rows it chose from. `mayTake` is the order
the services keep: a project's lock comes first, or for the sake of a queued row it works through; a host's lock is one
of a chosen host and follows a project's; an allocation's follows its own project's, and in a promotion pass a host's.
-/

namespace Kdive
open Lib (Conn Protocol)

def LockKey.queued : LockKey → Option Uuid
  | .candidate id => some id
  | .aged id => some id
  | _ => none

/-- What a transaction that holds `L`, and sees `v`, may take next. -/
def mayTake (v : Db) (L : List LockKey) : LockKey → Prop
  | .project p =>
    (∀ k ∈ L, k.advisory = false ∧ k.queued = none) ∨
      ∃ k ∈ L, ∃ id a, k.queued = some id ∧ v.allocations.get id = some a ∧ a.project = p
  | .resource r =>
    .picked r ∈ L ∧ (∃ p, .project p ∈ L) ∧
      ((∃ id, .candidate id ∈ L) ∨ ∀ k ∈ L, k.advisory = true → ∃ p, k = .project p)
  | .allocation id =>
    (∃ a, v.allocations.get id = some a ∧ .project a.project ∈ L) ∧
      ((∃ r, .resource r ∈ L) ∨ .aged id ∈ L ∨ ∀ id', .candidate id' ∉ L)
  | .system _ => ∀ k ∈ L, k.advisory = false ∧ k.queued = none
  | .picked r => ∃ row, v.resources.get r = some row ∧ row.cordoned = false
  | .candidate _ => ∀ k ∈ L, ∃ id, k = .candidate id
  | .aged _ => ∀ k ∈ L, ∃ id, k = .aged id
  | _ => True

def Takes (v : Db) : List LockKey → List LockKey → Prop
  | _, [] => True
  | L, k :: ks => mayTake v L k ∧ Takes v (L ++ [k]) ks

/-- A key the order speaks of: an advisory lock, or a record of a choice. -/
def LockKey.ordered (k : LockKey) : Bool := k.advisory || k.shared

theorem takes_of_unordered {v : Db} {L ks : List LockKey} (h : ∀ k ∈ ks, k.ordered = false) : Takes v L ks := by
  induction ks generalizing L with
  | nil => trivial
  | cons k ks ih =>
    refine ⟨?_, ih fun x hx => h x (List.mem_cons_of_mem _ hx)⟩
    have hk := h k List.mem_cons_self
    cases k <;> trivial

/-- A write that neither adds an allocation nor changes a host: it leaves what `mayTake` reads. -/
def Write.quiet : Write → Bool
  | .insertAllocation _ => false
  | .setCordoned _ _ => false
  | _ => true

/-- A statement that takes a key of the order keeps it, and sees nothing of its own transaction in
    what it goes by. -/
def stmtOk (l : Conn store) (v : Db) (ks : List LockKey) (_ws : List Write) : Prop :=
  Takes v l.locks (ks.filter (· ∉ l.locks)) ∧ ((∃ k ∈ ks, k.ordered = true) → ∀ w ∈ l.log, Write.quiet w = true)

theorem stmtOk_of_unordered {l : Conn store} {v : Db} {ks : List LockKey} (ws : List Write)
    (h : ∀ k ∈ ks, k.ordered = false) : stmtOk l v ks ws := by
  refine ⟨takes_of_unordered fun k hk => h k (List.mem_filter.mp hk).1, ?_⟩
  rintro ⟨k, hk, ho⟩
  rw [h k hk] at ho
  cases ho

/-! ## The protocol -/

/-- What one transaction may commit: one action, or any number of the queue's. -/
def isBatch (as : List Action) : Prop := as.length ≤ 1 ∨ ∀ a ∈ as, a.ofQueue = true

abbrev protocol (fixed : String → Prop) : Protocol store where
  Act := Action
  writes := Action.writes
  guard := Action.guard fixed
  need := Action.need
  batch := isBatch
  inv := WellFormed
  rely := Rely fixed
  wkeys := Write.keys
  stmtOk := stmtOk
  batch_nil := .inl (Nat.zero_le 1)
  stmtOk_nil := fun _ _ => stmtOk_of_unordered [] fun _ hk => absurd hk List.not_mem_nil
  rely_refl := .refl
  rely_trans := .trans
  rely_mono := .mono
  rely_write := .write
  wkeys_need := fun {a w} hw => a.keys_subset_need w hw
  guard_stable := Action.guard_stable
  inv_act := WellFormed.act
  rely_act := fun _ hg hH => .act hg hH
end Kdive
