import Kdive.Spec.Guarantee

/-! # Where a row of `allocations` comes from

After an action a row is what it was, but perhaps further in its life; or it has just been placed on a
host that had room; or it has just joined a queue that had room. What counts the rows of some kind, or
compares what they hold, goes by these three cases.
-/

namespace Kdive
open AllocationPatch Option
open Lib (Time)

/-- `new` claims nothing that `old` did not. -/
structure Continues (old new : Allocation) : Prop where
  project : old.project = new.project
  resourceId : old.resourceId = new.resourceId
  pcieClaim : old.pcieClaim = new.pcieClaim
  terminal : new.state.terminal = false → old.state.terminal = false
  occupying : new.state.occupying = true → old.state.occupying = true
  requested : new.state = .requested → old.state = .requested
  granted : new.state = .granted → old.state = .granted

namespace Continues
theorem refl (a : Allocation) : Continues a a := ⟨rfl, rfl, rfl, id, id, id, id⟩

theorem trans {x y z : Allocation} (h : Continues x y) (h' : Continues y z) : Continues x z :=
  ⟨h.project.trans h'.project, h.resourceId.trans h'.resourceId, h.pcieClaim.trans h'.pcieClaim,
    fun hz => h.terminal (h'.terminal hz), fun hz => h.occupying (h'.occupying hz),
    fun hz => h.requested (h'.requested hz), fun hz => h.granted (h'.granted hz)⟩

theorem patch {p : AllocationPatch} (old : Allocation) (now : Time)
    (hp : (p.set old).state = old.state ∧ (p.set old).resourceId = old.resourceId ∧
      (p.set old).pcieClaim = old.pcieClaim) : Continues old (p.apply now old) := by
  obtain ⟨hs, hr, hc⟩ := hp
  refine ⟨by simp, by simp [hr, -AllocationPatch.set], by simp [hc, -AllocationPatch.set], ?_, ?_, ?_, ?_⟩
  all_goals simp only [AllocationPatch.state_apply, hs, imp_self]

theorem state {st : AllocationState} (old : Allocation) (now : Time)
    (hterminal : st.terminal = false → old.state.terminal = false)
    (hoccupying : st.occupying = true → old.state.occupying = true)
    (hrequested : st = .requested → old.state = .requested) (hgranted : st = .granted → old.state = .granted) :
    Continues old ((AllocationPatch.state st).apply now old) := by
  refine ⟨by simp, by simp, by simp, ?_, ?_, ?_, ?_⟩
  all_goals simpa only [AllocationPatch.state_apply, AllocationPatch.set]

theorem ended {st : AllocationState} (hst : st.terminal = true) (old : Allocation) (now : Time) :
    Continues old ((AllocationPatch.state st).apply now old) := by
  refine state old now ?_ ?_ ?_ ?_
  all_goals
    intro h
    cases st <;> simp_all [AllocationState.terminal, AllocationState.occupying]

theorem closeInterval (started : Option Time) (ended now : Time) (old : Allocation) :
    Continues old (Action.closeInterval started ended now old) := by
  unfold Action.closeInterval
  split
  · exact patch old now ⟨rfl, rfl, rfl⟩
  · exact refl old
end Continues

/-- A row granted where there was room for it. -/
structure Placed (c : Db) (new : Allocation) (host : Uuid) : Prop where
  state : new.state = .granted
  resourceId : new.resourceId = some host
  room : HostRoom c host new.pcieClaim
  quota : GrantRoom c new.project

/-- A row queued where there was room for it. -/
structure Enqueued (c : Db) (new : Allocation) : Prop where
  state : new.state = .requested
  resourceId : new.resourceId = none
  quota : PendingRoom c new.project

/-- A row after an action: what it was, placed or queued. -/
inductive RowOrigin (a : Action) (c : Db) (id : Uuid) (new : Allocation) : Prop where
  | continues (old : Allocation) (hold : c.allocations.get id = some old) (h : Continues old new)
  | placed (host : Uuid) (hid : a.target = some id) (hpick : .picked host ∈ a.need)
      (h : Placed c new host)
  | enqueued (hid : a.target = some id) (h : Enqueued c new)

theorem Action.rowOrigin {fixed : String → Prop} {a : Action} {c : Db} {id : Uuid}
    {new : Allocation} (hg : a.guard fixed c)
    (hnew : (a.on c).allocations.get id = some new) : RowOrigin a c id new := by
  by_cases hid : a.target = some id
  · rw [get_allocations_target hg hid] at hnew
    cases a with
    | grant a host =>
      cases hnew
      exact .placed host hid (by simp) ⟨hg.state, hg.placed, hg.room, hg.quota⟩
    | enqueue =>
      cases hnew
      exact .enqueued hid ⟨hg.state, hg.unplaced.1, hg.quota⟩
    | promote row host =>
      cases hid
      obtain ⟨old, hold, hp, -⟩ := hg.current.get
      rw [hold] at hnew
      cases hnew
      refine .placed host rfl (by simp) ⟨by simp, by simp, ?_, ?_⟩
      · rw [pcieClaim_apply]
        exact hg.room
      · rw [project_apply, hp]
        exact hg.quota
    | unqueue row new now =>
      obtain ⟨old, hold, rfl⟩ := map_eq_some_iff.mp hnew
      refine .continues old hold (.ended ?_ old now)
      rcases hg.target with rfl | rfl <;> rfl
    | renew row expiry now =>
      obtain ⟨old, hold, rfl⟩ := map_eq_some_iff.mp hnew
      exact .continues old hold (.patch old now ⟨rfl, rfl, rfl⟩)
    | settle row closing started ended now =>
      cases closing with
      | release =>
        obtain ⟨old, hold, rfl⟩ := map_eq_some_iff.mp hnew
        -- the two updates of a release, as one
        have hbegun : Continues old ((state .releasing).apply now old) := by
          cases hid
          obtain ⟨a0, ha0, -, hs⟩ := hg.current.get
          rw [hold, some.injEq] at ha0
          rw [← ha0] at hs
          refine .state old now ?_ ?_ (fun h => by cases h) (fun h => by cases h)
          all_goals rcases hg.state with h | h <;> simp [hs, h, AllocationState.terminal, AllocationState.occupying]
        exact .continues old hold
          (hbegun.trans ((Continues.closeInterval started ended now _).trans (.ended rfl _ now)))
      | expire =>
        obtain ⟨old, hold, rfl⟩ := map_eq_some_iff.mp hnew
        exact .continues old hold ((Continues.closeInterval started ended now old).trans (.ended rfl _ now))
    | activate row s now =>
      cases hid
      obtain ⟨old, hold, -, hs⟩ := hg.current.get
      rw [hold] at hnew
      cases hnew
      rw [hg.state] at hs
      exact .continues old hold (.state old now (fun _ => by rw [hs]; rfl) (fun _ => by rw [hs]; rfl)
        (fun h => by cases h) (fun h => by cases h))
    | ready system domainName stamp =>
      cases stamp with
      | none => cases hid
      | some x =>
        obtain ⟨old, hold, rfl⟩ := map_eq_some_iff.mp hnew
        exact .continues old hold (.patch old x.2 ⟨rfl, rfl, rfl⟩)
    | tearDown | setBudget | cordon | note => cases hid
  · rw [get_allocations_of_ne hid] at hnew
    exact .continues new hnew (.refl new)

theorem Action.rely_nil {fixed : String → Prop} {a : Action} {c : Db} (hg : a.guard fixed c) :
    Rely fixed [] c (a.on c) :=
  Rely.act hg fun _ _ _ h => List.not_mem_nil h
end Kdive
