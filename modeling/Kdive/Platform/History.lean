import Kdive.Platform.Occupancy

/-! # What a run leaves of its past

However the sessions interleave, the committed states of a run are those of its transactions performed one after the
other (`reachable_serial`), and the rows agree in each of them (`reachable_sound`). Seen from one allocation the run is
a walk through its lifecycle (`allocation_walks`). A System, a Run or a debug session that is over stays so
(`over_for_ever`).
-/

namespace Kdive.Platform
open Lib hiding Ready
open Platform.Client

variable {cfg : Config} {s s' : Sys store}

/-- **Every state of every run is that of whole transactions performed one after the other**, each step of each in
    a state that allows it. -/
theorem reachable_serial (h : Reachable cfg s) : ∃ (db : store.Db) (batches : List (List Act)), Fresh db ∧
    (∀ b ∈ batches, IsBatch b) ∧ protocol.Path db batches.flatten ∧ s.db = protocol.effs batches.flatten db := by
  induction h with
  | init _ hdb => exact ⟨_, [], hdb, by simp, trivial, rfl⟩
  | step hr _ hs ih =>
    obtain ⟨db, batches, hfresh, hall, hpath, hdb⟩ := ih
    obtain ⟨hdb', b, hb, hws, hb'⟩ := ReachableBy.commits hr hs
    rw [hdb] at hb'
    refine ⟨db, batches ++ [b], hfresh, by simpa [or_imp, forall_and, hb] using hall, ?_, ?_⟩
    · simpa using hpath.join hb'
    · rw [List.flatten_append, List.flatten_singleton, Protocol.effs_append, ← hdb, hdb', hws]
      exact Protocol.applyAll_flatMap (P := protocol) b _

theorem reachable_serial_ready : ∃ (db : store.Db) (batches : List (List Act)), Fresh db ∧
    (∀ b ∈ batches, IsBatch b) ∧ protocol.Path db batches.flatten ∧
    (scripted {} Lab.db Lab.ready).db = protocol.effs batches.flatten db :=
  have hr : Reachable {} _ := reachable_scripted Lab.fresh Lab.ready
  reachable_serial hr

/-- **In every state of every run the books, the rows and the jobs agree.** -/
theorem reachable_sound (h : Reachable cfg s) : Sound s.db := h.holds.inv

theorem reachable_sound_ready : Sound (scripted {} Lab.db Lab.ready).db :=
  have hr : Reachable {} _ := reachable_scripted Lab.fresh Lab.ready
  reachable_sound hr

/-! ## One allocation -/

/-- Transitions of one allocation, with the ledger rows they post. -/
inductive Lives : Option AllocationState → List LedgerEventType → Option AllocationState → Prop
  | refl (st : Option AllocationState) : Lives st [] st
  | step {st mid : Option AllocationState} {posted more : List LedgerEventType} {new : AllocationState}
      (h : Lives st posted mid) (hmore : Lifecycle mid more new) : Lives st (posted ++ more) (some new)

/-- The ends of an allocation are final: what is left is to stamp it. -/
theorem Lives.terminal {st : AllocationState} {posted : List LedgerEventType} {new : Option AllocationState}
    (h : Lives (some st) posted new) (hst : st.terminal = true) : new = some st ∧ posted = [] := by
  induction h with
  | refl => exact ⟨rfl, rfl⟩
  | step _ hmore ih =>
    obtain ⟨rfl, rfl⟩ := ih
    cases hmore with
    | renewed h | settled h => rcases h with rfl | rfl <;> cases hst
    | stamped => exact ⟨rfl, rfl⟩
    | _ => cases hst

/-- From `c₀` to `c` the allocation has gone along its lifecycle, and `posted` is what the ledger has got of it. -/
def Walks (id : Uuid) (c₀ : store.Db) (posted : List LedgerEventType) (c : store.Db) : Prop :=
  Lives (stateOf c₀.1 id) posted (stateOf c.1 id) ∧ eventsOf c.1.ledger id = eventsOf c₀.1.ledger id ++ posted

theorem Walks.act {id : Uuid} {c₀ c : store.Db} {posted : List LedgerEventType} {a : Act} (hi : Sound c)
    (h : Walks id c₀ posted c) (hg : a.guard c) : ∃ posted', Walks id c₀ posted' (a.on c) := by
  cases a with
  | core a =>
    rw [Act.on, Act.writes, applyAll_inl]
    rcases Action.lifecycle hi.core hg id with ⟨hstate, hevents⟩ | ⟨new, more, hlife, hstate, hevents⟩
    · exact ⟨posted, by simpa only [Walks, hstate, hevents] using h⟩
    · exact ⟨posted ++ more, hstate ▸ h.1.step hlife, by rw [hevents, h.2, List.append_assoc]⟩
  | _ => exact ⟨posted, h⟩

/-- **Seen from one allocation, every run is a walk through its lifecycle**, and where it has ended nothing more happens
    to it. -/
theorem allocation_walks (h : Reachable cfg s) (hl : Sys.Leads (prog cfg) s s') (id : Uuid) :
    ∃ posted, Walks id s.db posted s'.db ∧
      ∀ st, stateOf s.db.1 id = some st → st.terminal = true → stateOf s'.db.1 id = some st ∧ posted = [] := by
  obtain ⟨posted, hwalk⟩ := Sys.Reach.leads_always (J := fun c => ∃ posted, Walks id s.db posted c) (client_safe cfg)
    (fun _ => Fresh.sound) (fun _ _ hi ⟨_, hwalk⟩ hg => hwalk.act hi hg) h hl ⟨[], .refl _, (List.append_nil _).symm⟩
  exact ⟨posted, hwalk, fun st hst hterminal => (hst ▸ hwalk.1).terminal hterminal⟩

theorem allocation_walks_ready : Lives none [.reserved] (some .active) := by
  have hstate : stateOf (scripted {} Lab.db Lab.ready).db.1 10 = some .active := by decide +kernel
  have hevents : eventsOf (scripted {} Lab.db Lab.ready).db.1.ledger 10 = [.reserved] := by decide +kernel
  obtain ⟨posted, ⟨hlives, hposted⟩, -⟩ := allocation_walks (.init 0 Lab.fresh) (Sys.Leads.perform _ Lab.ready) 10
  obtain rfl : [.reserved] = posted := hevents.symm.trans hposted
  exact hstate ▸ hlives

/-! ## Systems, Runs and debug sessions -/

theorem SystemKept.trans {x x' x'' : System} (h : SystemKept x x') (h' : SystemKept x' x'') : SystemKept x x'' :=
  ⟨h.allocation.trans h'.allocation, h.project.trans h'.project, fun ht => h.terminal (h'.terminal ht)⟩

theorem RunKept.trans {r r' r'' : Run} (h : RunKept r r') (h' : RunKept r' r'') : RunKept r r'' :=
  ⟨h.system.trans h'.system, fun hl => h.live (h'.live hl), h.project.trans h'.project,
    h.investigation.trans h'.investigation⟩

theorem SessionKept.trans {x x' x'' : DebugSession} (h : SessionKept x x') (h' : SessionKept x' x'') :
    SessionKept x x'' :=
  ⟨h.toSameSession.trans h'.toSameSession, fun ho => h.occupies (h'.occupies ho)⟩

/-- A row that is never deleted, and that no step creates over another, keeps what each step keeps of it. -/
theorem kept_along {ρ : Type} {f : store.Db → Option ρ} {K : ρ → ρ → Prop} (hrefl : ∀ x, K x x)
    (htrans : ∀ {x y z}, K x y → K y z → K x z)
    (hpersists : ∀ {c c'}, Rely [] c c' → ∀ {x}, f c = some x → ∃ x', f c' = some x')
    (horigin : ∀ {a : Act} {c x'}, a.guard c → f (a.on c) = some x' → (∃ x, f c = some x ∧ K x x') ∨ f c = none)
    (h : Reachable cfg s) (hl : Sys.Leads (prog cfg) s s') (x : ρ) (hx : f s.db = some x) :
    ∃ x', f s'.db = some x' ∧ K x x' := by
  refine Sys.Reach.leads_always (J := fun c => ∃ x', f c = some x' ∧ K x x') (client_safe cfg)
    (fun _ => Fresh.sound) ?_ h hl ⟨x, hx, hrefl x⟩
  rintro a c - ⟨y, hy, hkept⟩ hg
  obtain ⟨z, hz⟩ := hpersists (.act hg (by simp)) hy
  rcases horigin hg hz with ⟨y', hy', hkept'⟩ | hnone
  · cases hy.symm.trans hy'
    exact ⟨z, hz, htrans hkept hkept'⟩
  · cases hy.symm.trans hnone

/-- **What is over stays over**: no run deletes a System, a Run or a debug session, moves it to another owner, or brings
    it back after its end. -/
theorem over_for_ever (h : Reachable cfg s) (hl : Sys.Leads (prog cfg) s s') (id : Uuid) :
    (∀ x, s.db.1.systems.get id = some x → ∃ x', s'.db.1.systems.get id = some x' ∧ SystemKept x x') ∧
    (∀ r, s.db.2.runs.get id = some r → ∃ r', s'.db.2.runs.get id = some r' ∧ RunKept r r') ∧
    ∀ x, s.db.2.sessions.get id = some x → ∃ x', s'.db.2.sessions.get id = some x' ∧ SessionKept x x' := by
  refine ⟨kept_along (f := fun c => c.1.systems.get id) .refl .trans (fun hr x hx => ?_) (fun hg hx => ?_) h hl,
    kept_along (f := fun c => c.2.runs.get id) .refl .trans (fun hr x hx => ?_) (fun hg hx => ?_) h hl,
    kept_along (f := fun c => c.2.sessions.get id) .refl .trans (fun hr x hx => ?_) (fun hg hx => ?_) h hl⟩
  · exact ((hr.core.systems id).persists x hx).imp fun _ => And.left
  · exact (Act.systemOrigin hg hx).imp_right And.left
  · exact ((hr.runs id).persists x hx).imp fun _ => And.left
  · -- a Run is created under an id that is free
    refine (Act.runOrigin hg hx).imp_right ?_
    rintro rfl
    exact Table.key_eq_of_get hx ▸ hg.fresh
  · exact ((hr.sessions id).persists x hx).imp fun _ => And.left
  · refine (Act.sessionOrigin hg hx).imp_right ?_
    rintro ⟨_, rfl⟩
    exact Table.key_eq_of_get hx ▸ hg.fresh

/-- Run 40 has succeeded. -/
def Lab.completed : Sys store := scripted {} db (run .external ++ call 5 (.completeBuild member 40 "") 50)

theorem over_for_ever_completed : ∃ r', (Lab.completed.perform (prog {}) (fun _ _ => true)
    (Lab.call 6 (.buildRun Lab.member 40 none) 51)).db.2.runs.get 40 = some r' ∧ r'.state.live = false := by
  have hr : Reachable {} Lab.completed := reachable_scripted Lab.fresh _
  have hrow : (Lab.completed.db.2.runs.get 40).map (·.state.live) = some false := by decide +kernel
  obtain ⟨r, hr40, hlive⟩ := Option.map_eq_some_iff.mp hrow
  obtain ⟨r', hr', hkept⟩ := (over_for_ever hr (Sys.Leads.perform _ _) 40).2.1 r hr40
  exact ⟨r', hr', Bool.eq_false_iff.mpr fun h => by cases hlive.symm.trans (hkept.live h)⟩
end Kdive.Platform
