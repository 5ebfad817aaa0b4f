import Kdive.Lib.Keys
import Kdive.Platform.Occupancy

/-! # Every change of state

Each write to the six `state` columns is an edge of the transition table but one: `complete_build` takes a Run from
`created` to `succeeded` in one update (`committed_changes_legal`, `complete_build_skips_running`). Each change but a
job's is to have its audit row in the same transaction. Two repairs of the reconciler write none, and a teardown may
record a state the System has left; every other commit has exactly the rows it should (`changes_audited`).
-/

namespace Kdive.Platform
open Lib hiding Ready
open Act (writes core)
open List Option Kdive.Platform.Lab

section
variable {c : store.Db}

@[simp] theorem changes_nil : changes c [] = [] := rfl

theorem changes_cons (w : store.Write) (ws : List store.Write) :
    changes c (w :: ws) = changed c w ++ changes (store.apply w c) ws := rfl

@[simp] theorem changeOf_some {S : Type} [DecidableEq S] {mk : S → S → Change} (s s' : S) :
    changeOf mk (some s) (some s') = if s = s' then [] else [mk s s'] := rfl

theorem changes_patchAllocation {id : Uuid} {a : Allocation} (h : c.1.allocations.get id = some a)
    (p : AllocationPatch) (now : Time) (ws : List store.Write) : changes c (.inl (.patchAllocation id p now) :: ws) =
      (if a.state = (p.set a).state then [] else [.allocation id a.state (p.set a).state]) ++
        changes (store.apply (.inl (.patchAllocation id p now)) c) ws ∧
    (store.apply (.inl (.patchAllocation id p now)) c).1.allocations.get id = some (p.apply now a) := by
  refine ⟨?_, ?_⟩
  · rw [changes_cons]
    simp only [changed, h, map_some, changeOf_some, AllocationPatch.state_apply]
  · show ((Write.patchAllocation id p now).apply c.1).allocations.get id = _
    rw [(Write.patchAllocation id p now).get_allocations, h]
    simp [Write.onAllocation]

theorem changes_patchSystem {id : Uuid} {s : System} (h : c.1.systems.get id = some s)
    (p : SystemPatch) (ws : List store.Write) : changes c (.inl (.patchSystem id p) :: ws) =
      (if s.state = (p.apply s).state then [] else [.system id s.state (p.apply s).state]) ++
        changes (store.apply (.inl (.patchSystem id p)) c) ws := by
  rw [changes_cons]
  simp only [changed, h, map_some, changeOf_some]

@[simp]
def keepsStates : store.Write → Bool
  | .inl (.patchAllocation ..) => false
  | .inl (.patchSystem ..) => false
  | .inr (.patchInvestigation ..) => false
  | .inr (.patchRun ..) => false
  | .inr (.setSession ..) => false
  | .inr (.patchJob ..) => false
  | _ => true

theorem changed_of_keepsStates {w : store.Write} (h : keepsStates w = true) : changed c w = [] := by
  rcases w with w | w <;> cases w <;> first | rfl | cases h

theorem changes_of_keepsStates {ws : List store.Write} (h : ∀ w ∈ ws, keepsStates w = true) : changes c ws = [] := by
  induction ws generalizing c with
  | nil => rfl
  | cons w ws ih =>
    rw [changes_cons, changed_of_keepsStates (h w mem_cons_self), ih fun w' hw' => h w' (mem_cons_of_mem _ hw')]
    rfl
end

def coreMoves (c : Db) : Action → List Change
  | .promote row .. => [.allocation row.id .requested .granted]
  | .unqueue row new .. => [.allocation row.id .requested new]
  | .settle row (.release ..) .. =>
    [.allocation row.id row.state .releasing, .allocation row.id .releasing .released]
  | .settle row (.expire ..) .. => [.allocation row.id row.state .expired]
  | .activate row .. => [.allocation row.id .granted .active]
  | .ready system .. => [.system system .provisioning .ready]
  | .tearDown system _ =>
    ((c.systems.get system).map fun s => Change.system system s.state .tornDown).toList
  | _ => []

section
variable {c : store.Db} {fixed : String → Prop}

theorem state_get {row : Allocation} (h : RowIs c.1 row) :
    ∃ a, c.1.allocations.get row.id = some a ∧ a.state = row.state := by
  obtain ⟨a, ha, -, hs⟩ := h.get
  exact ⟨a, ha, hs⟩

theorem changes_move {id : Uuid} {a : Allocation} (h : c.1.allocations.get id = some a)
    (new : AllocationState) (now : Time) (r : AuditRow) :
    changes c (([.patchAllocation id (.state new) now, .insertAudit r] : List Write).map .inl) =
      (if a.state = new then [] else [.allocation id a.state new]) ∧
    ∃ a', (store.applyAll (([.patchAllocation id (.state new) now, .insertAudit r] :
      List Write).map .inl) c).1.allocations.get id = some a' ∧ a'.state = new := by
  obtain ⟨hchanges, hget⟩ := changes_patchAllocation h (.state new) now [.inl (.insertAudit r)]
  refine ⟨?_, _, hget, by simp⟩
  rw [map_cons, map_singleton, hchanges, changes_of_keepsStates (by simp), append_nil]
  rfl

theorem changes_stampEnded {id : Uuid} {a : Allocation} (h : c.1.allocations.get id = some a)
    (started : Option Time) (ended now : Time) : changes c ((stampEnded id started ended now).map .inl) = [] ∧
    ∃ a', (store.applyAll ((stampEnded id started ended now).map .inl) c).1.allocations.get id =
      some a' ∧ a'.state = a.state := by
  cases started with
  | none => exact ⟨rfl, a, h, rfl⟩
  | some =>
    obtain ⟨hchanges, hget⟩ := changes_patchAllocation h (.activeEndedAt ended) now []
    refine ⟨?_, _, hget, by simp⟩
    show changes c [.inl (.patchAllocation id (.activeEndedAt ended) now)] = []
    rw [hchanges, changes_nil, append_nil]
    exact if_pos rfl

theorem changes_core {b : Action} (hg : b.guard fixed c.1) : changes c (b.writes.map .inl) = coreMoves c.1 b := by
  cases b with
  | grant a host x key | enqueue a key =>
    refine changes_of_keepsStates ?_
    cases key <;> simp [Action.writes, keyWrites]
  | setBudget | cordon | note => exact changes_of_keepsStates (by simp [Action.writes])
  | promote row host expiry claim now =>
    obtain ⟨a, ha, hs⟩ := state_get hg.current
    simp only [Action.writes, cons_append, map_cons]
    rw [(changes_patchAllocation ha _ now _).1, changes_of_keepsStates]
    · simp [hs, hg.state, coreMoves]
    · simp
  | unqueue row new now =>
    obtain ⟨a, ha, hs⟩ := state_get hg.current
    simp only [Action.writes, map_cons]
    rw [(changes_patchAllocation ha _ now _).1, changes_of_keepsStates]
    · rcases hg.target with rfl | rfl <;> simp [hs, hg.state, coreMoves]
    · simp
  | renew row expiry now x key =>
    obtain ⟨a, ha, hs⟩ := state_get hg.current
    simp only [Action.writes, cons_append, map_cons]
    rw [(changes_patchAllocation ha _ now _).1, changes_of_keepsStates]
    · simp [coreMoves]
    · cases key <;> simp [keyWrites]
  | settle row closing started ended now x =>
    obtain ⟨a, ha, hs⟩ := state_get hg.current
    have hlive : a.state = .granted ∨ a.state = .active := hs ▸ hg.state
    have hposted : ∀ d : store.Db, changes d ((x.writes .reconciled row).map .inl) = [] := fun d =>
      changes_of_keepsStates (by simp)
    cases closing with
    | release begun finished =>
      -- the interval is closed between the two updates
      rw [Action.writes, map_append, map_append, map_append, changes_append,
        changes_append, changes_append, hposted, append_nil]
      obtain ⟨hfirst, a1, ha1, hs1⟩ := changes_move ha .releasing now begun.1
      obtain ⟨hstamp, a2, ha2, hs2⟩ := changes_stampEnded ha1 started ended now
      obtain ⟨hlast, -⟩ := changes_move ha2 .released now finished.1
      rw [hs2, hs1] at hlast
      have hne : a.state ≠ .releasing := by rcases hlive with h | h <;> rw [h] <;> rintro ⟨⟩
      rw [hfirst, hstamp, Store.applyAll_append, hlast, if_neg hne, hs]
      rfl
    | expire audit =>
      rw [Action.writes, map_append, map_append, changes_append, changes_append, hposted, append_nil]
      obtain ⟨hstamp, a1, ha1, hs1⟩ := changes_stampEnded ha started ended now
      obtain ⟨hlast, -⟩ := changes_move ha1 .expired now audit.1
      rw [hs1] at hlast
      have hne : a.state ≠ .expired := by rcases hlive with h | h <;> rw [h] <;> rintro ⟨⟩
      rw [hstamp, hlast, if_neg hne, hs]
      rfl
  | activate row s now created =>
    obtain ⟨a, ha, hs⟩ := state_get hg.current
    simp only [Action.writes, map_cons]
    have ha' : (store.apply (.inl (.insertAudit created.1))
        (store.apply (.inl (.insertSystem s)) c)).1.allocations.get row.id = some a := ha
    rw [changes_cons, changed_of_keepsStates rfl, changes_cons, changed_of_keepsStates rfl,
      nil_append, nil_append, (changes_patchAllocation ha' _ now _).1, changes_of_keepsStates]
    · simp [hs, hg.state, coreMoves]
    · simp
  | ready system domainName stamp =>
    obtain ⟨s, hsys, hstate, hstamp⟩ := hg.provisioning
    simp only [Action.writes, cons_append, map_cons]
    rw [changes_patchSystem hsys]
    cases stamp with
    | none =>
      rw [changes_of_keepsStates]
      · simp [hstate, SystemPatch.apply, coreMoves]
      · simp
    | some x =>
      obtain ⟨a, ha, -⟩ := hg.unstarted x rfl
      have ha' : (store.apply (.inl (.patchSystem system (.ready domainName))) c).1.allocations.get x.1 = some a := ha
      simp only [map_some, toList_some, nil_append, singleton_append, map_cons]
      rw [(changes_patchAllocation ha' _ _ _).1, changes_of_keepsStates]
      · simp [hstate, SystemPatch.apply, coreMoves]
      · simp
  | tearDown =>
    obtain ⟨s, hsys, hedge, -⟩ := hg.legal
    simp only [Action.writes, map_cons]
    rw [changes_patchSystem hsys, changes_of_keepsStates]
    · have hne : s.state ≠ .tornDown := by
        intro heq
        rw [heq] at hedge
        cases hedge
      simp [hsys, SystemPatch.apply, hne, coreMoves]
    · simp
end

def Act.moves (c : store.Db) : Act → List Change
  | core b => coreMoves c.1 b
  | repairRun id _ => [.run id .running .failed]
  | repairSession id => [.session id .live .detached]
  | job id p => (c.2.jobs.get id).toList.flatMap fun j =>
    if j.state = p.target j.state then [] else [.job id j.state (p.target j.state)]
  | a => a.change.toList

section
variable {a : Act} {c : store.Db}

theorem ne_of_moves {r : Run} {target : RunState} (h : RunMoves r target) : r.state ≠ target := by
  rcases h with h | ⟨-, hc, rfl⟩
  · intro heq
    rw [heq] at h
    cases target <;> cases h
  · rw [hc]
    nofun

theorem Act.changes_writes (hg : a.guard c) : changes c a.writes = a.moves c := by
  cases a with
  | core => exact changes_core hg
  | system id m =>
    obtain ⟨⟨s, hs, hold⟩, -⟩ := hg
    show changes c [.inl (.patchSystem id m.patch)] = _
    rw [changes_patchSystem hs, m.state_patch, hold, changes_nil, append_nil]
    cases m <;> rfl
  | profile id text =>
    show changes c [.inl (.patchSystem id (.profile text))] = []
    rw [changes_cons, changes_nil, append_nil, changed]
    cases c.1.systems.get id with
    | none => rfl
    | some => exact if_pos rfl
  | investigation id old new =>
    obtain ⟨⟨i, hi, rfl⟩, hedge⟩ := hg
    show changes c [.inr (.patchInvestigation id (.state new))] = _
    rw [changes_cons, changes_nil, append_nil, changed, hi]
    refine if_neg fun heq => ?_
    rw [show i.state = new from heq] at hedge
    cases new <;> cases hedge
  | touch id t =>
    show changes c [.inr (.patchInvestigation id (.lastRunAt t))] = []
    rw [changes_cons, changes_nil, append_nil, changed]
    cases c.2.investigations.get id with
    | none => rfl
    | some => exact if_pos rfl
  | run id old p =>
    obtain ⟨r, hr, rfl, hmoves⟩ := hg
    show changes c [.inr (.patchRun id p)] = _
    rw [changes_cons, changes_nil, append_nil, changed, hr]
    simp only [map_some, changeOf_some, p.state_apply, if_neg (ne_of_moves hmoves)]
    rfl
  | repairRun id category =>
    obtain ⟨r, hr, hstate⟩ := hg
    show changes c [.inr (.patchRun id (.failed category))] = _
    rw [changes_cons, changes_nil, append_nil, changed, hr]
    simp only [map_some, changeOf_some, hstate]
    rfl
  | goLive systemId id =>
    obtain ⟨⟨x, hx, hstate, -⟩, -⟩ := hg
    show changes c [.inr (.setSession id .live)] = _
    rw [changes_cons, changes_nil, append_nil, changed, hx]
    simp only [map_some, changeOf_some, hstate]
    rfl
  | detach id =>
    obtain ⟨x, hx, rfl, hedge⟩ := hg
    show changes c [.inr (.setSession id .detached)] = _
    rw [changes_cons, changes_nil, append_nil, changed, hx]
    refine if_neg fun heq => ?_
    rw [show x.state = .detached from heq] at hedge
    cases hedge
  | repairSession id =>
    obtain ⟨x, hx, hstate⟩ := hg
    show changes c [.inr (.setSession id .detached)] = _
    rw [changes_cons, changes_nil, append_nil, changed, hx]
    simp only [map_some, changeOf_some, hstate]
    rfl
  | job id p =>
    obtain ⟨j, hj, -⟩ := hg
    show changes c [.inr (.patchJob id p)] = _
    rw [changes_cons, changes_nil, append_nil, changed, hj]
    simp only [map_some, changeOf_some, p.state_apply, moves, hj, toList_some, flatMap_cons, flatMap_nil, append_nil]
  | _ => rfl

theorem Act.moves_legal (hg : a.guard c) {ch : Change} (h : ch ∈ a.moves c) :
    ch.legal = true ∨ ∃ id r, ch = .run id .created .succeeded ∧ c.2.runs.get id = some r ∧
      r.buildProfile = .external := by
  cases a with
  | core b =>
    left
    have hcore : b.guard noneFixed c.1 := hg
    cases b with
    | promote | activate | ready =>
      rw [mem_singleton.mp h]
      rfl
    | unqueue =>
      rw [mem_singleton.mp h]
      rcases hcore.target with rfl | rfl <;> rfl
    | settle row closing =>
      cases closing with
      | release =>
        rcases mem_pair.mp h with rfl | rfl
        · rcases hcore.state with h | h <;> simp only [Change.legal, h] <;> rfl
        · rfl
      | expire =>
        rw [mem_singleton.mp h]
        rcases hcore.state with h | h <;> simp only [Change.legal, h] <;> rfl
    | tearDown =>
      obtain ⟨s, hs, hedge, -⟩ := hcore.legal
      simp only [moves, coreMoves, hs, map_some, toList_some, mem_singleton] at h
      rwa [h]
    | _ => cases h
  | system id m =>
    rw [mem_singleton.mp h]
    cases m <;> exact .inl rfl
  | investigation =>
    rw [mem_singleton.mp h]
    exact .inl hg.2
  | run id =>
    obtain ⟨r, hr, rfl, hmoves⟩ := hg
    rw [mem_singleton.mp h]
    rcases hmoves with hedge | ⟨hext, hc, ht⟩
    · exact .inl hedge
    · exact .inr ⟨id, r, by rw [hc, ht], hr, hext⟩
  | repairRun | goLive | repairSession =>
    rw [mem_singleton.mp h]
    exact .inl rfl
  | detach =>
    obtain ⟨x, -, -, hedge⟩ := hg
    rw [mem_singleton.mp h]
    exact .inl hedge
  | job id p =>
    obtain ⟨j, hj, hedge⟩ := hg
    simp only [moves, hj, toList_some, flatMap_cons, flatMap_nil, append_nil] at h
    split at h
    · cases h
    · rename_i hne
      rw [mem_singleton.mp h]
      exact .inl (hedge.resolve_left fun heq => hne heq.symm)
  | _ => cases h
end

/-! ## Every commit follows the table -/

/-- The row is a Run whose kernel is built elsewhere. -/
def Change.external (c : store.Db) : Change → Bool
  | run id _ _ => (c.2.runs.get id).any (·.buildProfile = .external)
  | _ => false

variable {c : store.Db}

theorem changes_legal_of_path {as : List Act} (hi : Sound c) (hpath : protocol.Path c as)
    {ch : Change} (h : ch ∈ changes c (as.flatMap writes))
    (hrow : ch.external (protocol.effs as c) = false) : ch.legal = true := by
  induction as generalizing c with
  | nil => cases h
  | cons a as ih =>
    have hi' : Sound (a.on c) := Act.sound hi hpath.1
    rw [flatMap_cons, changes_append, Act.changes_writes hpath.1] at h
    rcases mem_append.mp h with h | h
    · rcases Act.moves_legal hpath.1 h with hlegal | ⟨id, r, rfl, hr, hext⟩
      · exact hlegal
      · -- the Run keeps its profile to the end of the transaction
        have hrely : Rely [] c (protocol.effs (a :: as) c) :=
          Protocol.Path.rely hi (by simp) hpath
        obtain ⟨r', hr', hfollows⟩ := hrely.run_persists hr
        simp [Change.external, hr', hfollows.profile, hext] at hrow
    · exact ih hi' hpath.2 h hrow

/-- Each committed change of state is one of the table, but for the external builds. -/
theorem committed_changes_legal {cfg : Config} {s s' : Sys store} (h : Reachable cfg s)
    {ch : Choice store Client} (hs : s.step (Client.prog cfg) ch = some s') :
    ∀ change ∈ changes s.db (s.commits ch), change.external s'.db = false → change.legal = true := by
  intro change hmem hrow
  obtain ⟨hdb, as, -, hws, hpath⟩ := h.commits hs
  have heffs : s'.db = protocol.effs as s.db := by
    rw [hdb, hws]
    exact Protocol.applyAll_flatMap (P := protocol) as s.db
  rw [hws] at hmem
  rw [heffs] at hrow
  exact changes_legal_of_path h.holds.inv hpath hmem hrow

namespace Lab
def completing (n : Nat) : Script :=
  run .external ++ [.start (.completeBuild member 40 ""), .go 5 ({ uuid := 50 }, {}) n]

/-- A System is defined on allocation 10, and its teardown has begun when it is provisioned after all; the
    teardown has made its first `n` operations then, and makes `m` more. -/
def overtaken (n m : Nat) : Script :=
  call 0 (.core (Kdive.Lab.oneHour "kernel" (some 1) [] .deny)) 10 ++
    call 1 (.core (.createSystem member 10 .define)) 20 ++
    [.start (.core (.teardown Kdive.Lab.provisionJob)), .go 2 ({}, {}) n] ++
    call 3 (.provisionDefined member 20) 30 ++ [.go 2 ({}, {}) m]
end Lab

theorem exists_step (s : Sys store) (ch : Choice store Client)
    (h : (s.step (Client.prog {}) ch).isSome = true) : ∃ s', s.step (Client.prog {}) ch = some s' :=
  isSome_iff_exists.mp h

theorem committed_changes_legal_overtaken :
    (Change.system 20 .provisioning .tornDown) ∈ changes (scripted {} db (overtaken 3 5)).db
        ((scripted {} db (overtaken 3 5)).commits (.act 2 (.go true) : Choice store Client)) ∧
      (Change.system 20 .provisioning .tornDown).legal = true := by
  have hmem : (Change.system 20 .provisioning .tornDown) ∈
      changes (scripted {} db (overtaken 3 5)).db
        ((scripted {} db (overtaken 3 5)).commits (.act 2 (.go true) : Choice store Client)) := by
    decide +kernel
  obtain ⟨s', hs⟩ := exists_step (scripted {} db (overtaken 3 5)) (.act 2 (.go true)) (by decide +kernel)
  exact ⟨hmem, committed_changes_legal (reachable_scripted fresh _) hs _ hmem rfl⟩

/-- An external build goes from created to succeeded. -/
theorem complete_build_skips_running : ∃ s s', Reachable {} s ∧ s.step (Client.prog {}) (.act 5 (.go true)) = some s' ∧
    (Change.run 40 .created .succeeded) ∈ changes s.db (s.commits (.act 5 (.go true) : Choice store Client)) ∧
    (Change.run 40 .created .succeeded).legal = false := by
  obtain ⟨s', hs⟩ := exists_step (scripted {} db (completing 13)) (.act 5 (.go true)) (by decide +kernel)
  exact ⟨_, s', reachable_scripted fresh (completing 13), hs, by decide +kernel, rfl⟩

/-! ## Audit rows -/

/-- The two parts of a transition are told apart by the first dash. -/
theorem arrow_inj {a b a' b' : String} (ha : '-' ∉ a.toList) (ha' : '-' ∉ a'.toList)
    (h : a ++ "->" ++ b = a' ++ "->" ++ b') : a = a' ∧ b = b' := by
  have hlist := congrArg String.toList h
  rw [String.toList_append, String.toList_append, String.toList_append, String.toList_append,
    show "->".toList = ['-', '>'] from rfl, append_assoc, append_assoc] at hlist
  obtain ⟨hfirst, hsecond⟩ := append_cons_inj ha ha' hlist
  exact ⟨String.toList_injective hfirst, String.toList_injective (List.cons.inj hsecond).2⟩

namespace Change
theorem oldValue_plain (ch : Change) : '-' ∉ ch.oldValue.toList ∧ ch.oldValue ≠ "" := by
  cases ch with
  | allocation id old | system id old | investigation id old | run id old | session id old | job id old =>
    change '-' ∉ old.value.toList ∧ old.value ≠ ""
    cases old <;> decide

theorem eq_of_values {ch ch' : Change} (hkind : ch.kind = ch'.kind) (hid : ch.id = ch'.id)
    (hold : ch.oldValue = ch'.oldValue) (hnew : ch.newValue = ch'.newValue) : ch = ch' := by
  cases ch with
  | allocation id =>
    cases ch' with
    | allocation id' =>
      rw [show id = id' from hid, AllocationState.value_inj hold, AllocationState.value_inj hnew]
    | _ => exact absurd hkind (by simp [kind])
  | system id =>
    cases ch' with
    | system id' =>
      rw [show id = id' from hid, SystemState.value_inj hold, SystemState.value_inj hnew]
    | _ => exact absurd hkind (by simp [kind])
  | investigation id =>
    cases ch' with
    | investigation id' =>
      rw [show id = id' from hid, InvestigationState.value_inj hold, InvestigationState.value_inj hnew]
    | _ => exact absurd hkind (by simp [kind])
  | run id =>
    cases ch' with
    | run id' =>
      rw [show id = id' from hid, RunState.value_inj hold, RunState.value_inj hnew]
    | _ => exact absurd hkind (by simp [kind])
  | session id =>
    cases ch' with
    | session id' =>
      rw [show id = id' from hid, DebugSessionState.value_inj hold, DebugSessionState.value_inj hnew]
    | _ => exact absurd hkind (by simp [kind])
  | job id =>
    cases ch' with
    | job id' =>
      rw [show id = id' from hid, JobState.value_inj hold, JobState.value_inj hnew]
    | _ => exact absurd hkind (by simp [kind])

theorem Recorded.eq {ch ch' : Change} {r : AuditRow} (h : ch.Recorded r) (h' : ch'.Recorded r) : ch = ch' := by
  obtain ⟨hkind, hid, htext⟩ := h
  obtain ⟨hkind', hid', htext'⟩ := h'
  rw [htext, some.injEq] at htext'
  obtain ⟨hold, hnew⟩ := arrow_inj ch.oldValue_plain.1 ch'.oldValue_plain.1 htext'
  exact eq_of_values (hkind.symm.trans hkind') (hid.symm.trans hid') hold hnew

theorem not_recorded_of_created {ch : Change} {r : AuditRow} {kind : String} {id : Uuid} {new : String}
    (h : r.Records kind id "" new) : ¬ ch.Recorded r := by
  rintro ⟨-, -, htext⟩
  rw [h.2.2, some.injEq] at htext
  exact ch.oldValue_plain.2 (arrow_inj (by decide) ch.oldValue_plain.1 htext).1.symm
end Change

def recordsOf (rows : List AuditRow) (ch : Change) : Nat := rows.countP fun r => ch.Recorded r

theorem recordsOf_append (rows rows' : List AuditRow) (ch : Change) :
    recordsOf (rows ++ rows') ch = recordsOf rows ch + recordsOf rows' ch :=
  countP_append

theorem recordsOf_cons (made : Change) {r : AuditRow} (h : made.Recorded r) (rows : List AuditRow)
    (ch : Change) : recordsOf (r :: rows) ch = [made].count ch + recordsOf rows ch := by
  have hiff : ch.Recorded r ↔ made = ch := ⟨fun hr => h.eq hr, fun heq => heq ▸ h⟩
  simp only [recordsOf, countP_cons, decide_eq_true_eq, hiff, count_singleton, beq_iff_eq]
  omega

theorem recordsOf_cons_of_not {r : AuditRow} {ch : Change} (h : ¬ ch.Recorded r)
    (rows : List AuditRow) : recordsOf (r :: rows) ch = recordsOf rows ch := by
  simp [recordsOf, h]

@[simp] theorem recordsOf_nil (ch : Change) : recordsOf [] ch = 0 := rfl

def auditsOf : Action → List AuditRow
  | .grant _ _ _ _ audit => [audit.1]
  | .enqueue _ _ audit => [audit.1]
  | .promote _ _ _ _ _ _ audit => [audit.1]
  | .unqueue _ _ _ audit => [audit.1]
  | .renew _ _ _ _ _ audit => [audit.1]
  | .settle _ (.release begun finished) .. => [begun.1, finished.1]
  | .settle _ (.expire audit) .. => [audit.1]
  | .activate _ _ _ created activated => [created.1, activated.1]
  | .ready _ _ _ audit => [audit.1]
  | .tearDown _ audit => [audit.row.1]
  | .setBudget _ audit => [audit.1]
  | _ => []

theorem auditRows_core (b : Action) : auditRows (b.writes.map .inl) = auditsOf b := by
  cases b with
  | grant _ _ _ key | enqueue _ key | renew _ _ _ _ key => cases key <;> rfl
  | settle row closing started => cases closing <;> cases started <;> rfl
  | ready system domainName stamp => cases stamp <;> rfl
  | _ => rfl

/-- The teardown says what state the System was in. -/
def toldTrue (c : Db) : Action → Prop
  | .tearDown system audit => ∀ s, c.systems.get system = some s → s.state = audit.old
  | _ => True

/-- **An action records what it changes, and nothing else.** -/
theorem recordsOf_core {fixed : String → Prop} {b : Action} (hg : b.guard fixed c.1)
    (htold : toldTrue c.1 b) (ch : Change) :
    recordsOf (auditRows (b.writes.map .inl)) ch = (coreMoves c.1 b).count ch := by
  rw [auditRows_core]
  cases b with
  | grant a host x key audit | enqueue a key audit =>
    exact recordsOf_cons_of_not (Change.not_recorded_of_created audit.2) []
  | promote row host expiry claim now x audit =>
    exact recordsOf_cons (.allocation row.id .requested .granted) audit.2 [] ch
  | unqueue row new now audit =>
    exact recordsOf_cons (.allocation row.id .requested new) audit.2 [] ch
  | renew row expiry now x key audit =>
    refine recordsOf_cons_of_not ?_ []
    rintro ⟨-, -, htext⟩
    rw [audit.2] at htext
    cases htext
  | settle row closing =>
    cases closing with
    | release begun finished =>
      rw [auditsOf, recordsOf_cons (.allocation row.id row.state .releasing) begun.2,
        recordsOf_cons (.allocation row.id .releasing .released) finished.2, recordsOf_nil,
        Nat.add_zero]
      exact count_append.symm
    | expire audit =>
      exact recordsOf_cons (.allocation row.id row.state .expired) audit.2 [] ch
  | activate row s now created activated =>
    rw [auditsOf, recordsOf_cons_of_not (Change.not_recorded_of_created created.2)]
    exact recordsOf_cons (.allocation row.id .granted .active) activated.2 [] ch
  | ready system domainName stamp audit =>
    exact recordsOf_cons (.system system .provisioning .ready) audit.2 [] ch
  | tearDown system audit =>
    obtain ⟨s, hs, -⟩ := hg.legal
    rw [coreMoves, hs, map_some, htold s hs]
    exact recordsOf_cons (.system system audit.old .tornDown) audit.row.2 [] ch
  | setBudget b audit =>
    refine recordsOf_cons_of_not ?_ []
    rintro ⟨hkind, -, -⟩
    rw [audit.2] at hkind
    cases ch <;> exact absurd hkind (by simp [Change.kind])
  | cordon | note => rfl

/-! ## Every commit is audited -/

section
variable {c : store.Db}

theorem recordsOf_act {a : Act} (hown : a.isCore = false) (ch : Change) :
    recordsOf (auditRows a.writes) ch = [a].countP (·.records ch) := by
  cases a with
  | core => cases hown
  | audit => rfl
  | _ => rfl

theorem recordsOf_own {as : List Act} (hown : ∀ a ∈ as, a.isCore = false) (ch : Change) :
    recordsOf (auditRows (as.flatMap writes)) ch = as.countP (·.records ch) := by
  induction as with
  | nil => rfl
  | cons a as ih =>
    rw [flatMap_cons, auditRows_append, recordsOf_append, recordsOf_act (hown a mem_cons_self),
      ih fun b hb => hown b (mem_cons_of_mem _ hb), ← countP_append, singleton_append]

def Act.repairs : Act → Bool
  | repairRun .. => true
  | repairSession .. => true
  | _ => false

theorem repaired_mem_need {a : Act} (h : a.repairs = true) : .inr .repaired ∈ a.need := by
  cases a with
  | repairRun | repairSession => exact mem_cons_of_mem _ mem_cons_self
  | _ => cases h

theorem moves_own {a : Act} (hown : a.isCore = false) (hrep : a.repairs = false) {ch : Change}
    (hjob : ch.isJob = false) : (a.moves c).count ch = a.change.toList.count ch := by
  cases a with
  | core => cases hown
  | repairRun | repairSession => cases hrep
  | job =>
    refine count_eq_zero.mpr fun hmem => ?_
    obtain ⟨j, -, hj⟩ := mem_flatMap.mp hmem
    split at hj
    · cases hj
    · rw [mem_singleton.mp hj] at hjob
      cases hjob
  | _ => rfl

theorem count_changes_own {as : List Act} (hown : ∀ a ∈ as, a.isCore = false)
    (hrep : ∀ a ∈ as, a.repairs = false) (hpath : protocol.Path c as) {ch : Change} (hjob : ch.isJob = false) :
    (changes c (as.flatMap writes)).count ch = (as.filterMap Act.change).count ch := by
  induction as generalizing c with
  | nil => rfl
  | cons a as ih =>
    have hsplit : (a :: as).filterMap Act.change = a.change.toList ++ as.filterMap Act.change := by
      cases h : a.change <;> simp [h]
    rw [flatMap_cons, changes_append, count_append, Act.changes_writes hpath.1,
      moves_own (hown a mem_cons_self) (hrep a mem_cons_self) hjob, hsplit, count_append]
    exact congrArg _ (ih (fun b hb => hown b (mem_cons_of_mem _ hb))
      (fun b hb => hrep b (mem_cons_of_mem _ hb)) hpath.2)

theorem eq_of_length_le_one {α : Type} {l : List α} (h : l.length ≤ 1) : l = [] ∨ ∃ a, l = [a] := by
  rcases Nat.le_one_iff_eq_zero_or_eq_one.mp h with h | h
  · exact .inl (length_eq_zero_iff.mp h)
  · exact .inr (length_eq_one_iff.mp h)

theorem recordsOf_batch {bs : List Action} (hbatch : isBatch bs)
    (hpath : protocol.Path c (bs.map .core)) (htold : ∀ b ∈ bs, toldTrue c.1 b) (ch : Change) :
    recordsOf (auditRows ((bs.map core).flatMap writes)) ch = (changes c ((bs.map core).flatMap writes)).count ch := by
  -- the actions of the queue's repairs are no teardowns
  have hrest : ∀ {d : store.Db} {bs : List Action}, (∀ b ∈ bs, b.ofQueue = true) →
      protocol.Path d (bs.map .core) → recordsOf (auditRows ((bs.map core).flatMap writes)) ch =
        (changes d ((bs.map core).flatMap writes)).count ch := by
    intro d bs hq hpath
    induction bs generalizing d with
    | nil => rfl
    | cons b bs ih =>
      have htold : toldTrue d.1 b := by
        have := hq b mem_cons_self
        cases b with
        | tearDown => cases this
        | _ => trivial
      rw [map_cons, flatMap_cons, auditRows_append, recordsOf_append, changes_append,
        count_append, ih (fun b' hb' => hq b' (mem_cons_of_mem _ hb')) hpath.2,
        show (core b).writes = b.writes.map .inl from rfl, recordsOf_core hpath.1 htold,
        changes_core hpath.1]
      rfl
  rcases hbatch with hlen | hq
  · rcases eq_of_length_le_one hlen with rfl | ⟨b, rfl⟩
    · rfl
    · rw [map_singleton, flatMap_singleton, show (core b).writes = b.writes.map .inl from rfl,
        recordsOf_core hpath.1 (htold b mem_cons_self), changes_core hpath.1]
  · exact hrest hq hpath
end

/-- No teardown in the commit says `defined` of a System that is not, as one does that held the System's lock while
    `provision_defined` committed. -/
def tellsTrue (c : store.Db) (ws : List store.Write) : Prop :=
  ∀ r ∈ auditRows ws, ∀ id, (Change.system id .defined .tornDown).Recorded r →
    ∀ s, c.1.systems.get id = some s → s.state = .defined

def notRepairing (s : Sys store) : Choice store Client → Prop
  | .act i _ => ∀ q, s.sess[i]? = some q → .inr .repaired ∉ q.conn.locks
  | _ => True

theorem toldTrue_of_tellsTrue {bs : List Action} (hbatch : isBatch bs) (hpath : protocol.Path c (bs.map .core))
    (h : tellsTrue c ((bs.map core).flatMap writes)) : ∀ b ∈ bs, toldTrue c.1 b := by
  intro b hb
  cases b with
  | tearDown system audit =>
    rcases hbatch with hlen | hq
    · rcases eq_of_length_le_one hlen with rfl | ⟨b, rfl⟩
      · cases hb
      · cases mem_singleton.mp hb
        have hguard : (Action.tearDown system audit).guard noneFixed c.1 := hpath.1
        intro s hs
        obtain ⟨s0, hs0, -, hstate⟩ := hguard.legal
        cases hs.symm.trans hs0
        rcases hstate with hstate | ⟨hold, hstate⟩
        · exact hstate
        · -- it says `defined`, so the System is
          obtain ⟨old, row⟩ := audit
          obtain rfl : old = .defined := hold
          exact h row.1 mem_cons_self system row.2 s hs
    · cases hq _ hb
  | _ => trivial

/-- Each change has its audit row in the same transaction. -/
theorem changes_audited {cfg : Config} {s s' : Sys store} (h : Reachable cfg s)
    {ch : Choice store Client} (hs : s.step (Client.prog cfg) ch = some s') (hrep : notRepairing s ch)
    (htells : tellsTrue s.db (s.commits ch)) :
    ∀ change ∈ changes s.db (s.commits ch), change.isJob = false →
      recordsOf (auditRows (s.commits ch)) change = (changes s.db (s.commits ch)).count change := by
  intro change hmem hjob
  cases ch with
  | act =>
    obtain ⟨q, hq, as, hbatch, hws, hneed, hpath⟩ := h.holds.commits_act hs
    have hno : ∀ a ∈ as, a.repairs = false := by
      intro a ha
      by_contra hcon
      exact hrep q hq (hneed a ha (repaired_mem_need (by simpa using hcon)))
    rw [hws] at hmem htells ⊢
    cases hbatch with
    | core bs hbs heq =>
      subst heq
      exact recordsOf_batch hbs hpath (toldTrue_of_tellsTrue hbs hpath htells) change
    | own htidy =>
      have hcount := count_changes_own htidy.own hno hpath hjob
      have hchange : change ∈ as.filterMap Act.change := by
        rwa [← count_pos_iff, ← hcount, count_pos_iff]
      rw [recordsOf_own htidy.own, hcount]
      exact htidy.audited change hchange
  | _ => cases hmem

namespace Lab
/-- The session of `attached` has not been heard of for a while, and `repair_dead_sessions` has updated
    it. -/
def forgotten : Script :=
  attached ++ [.wait 1000, .start (.repairDeadSessions 10), .go 7 ({}, {}) 2]

/-- `complete_build` is about to commit. -/
def completes : Sys store := scripted {} db (completing 13)

def unrepaired : store.Key → Bool
  | .inr .repaired => false
  | _ => true
end Lab

theorem changes_audited_completed :
    recordsOf (auditRows (completes.commits (.act 5 (.go true) : Choice store Client)))
      (.run 40 .created .succeeded) = 1 := by
  obtain ⟨s', hs⟩ := exists_step completes (.act 5 (.go true)) (by decide +kernel)
  have hrep : notRepairing completes (.act 5 (.go true)) := by
    intro q hq
    have hall : completes.sess[5]?.all (fun q => q.conn.locks.all unrepaired) = true := by decide +kernel
    rw [hq] at hall
    intro hmem
    cases all_eq_true.mp hall _ hmem
  have htells : tellsTrue completes.db (completes.commits (.act 5 (.go true) : Choice store Client)) := by
    intro r hr id hrecord
    have hall : ∀ r ∈ auditRows (completes.commits
        (.act 5 (.go true) : Choice store Client)), r.objectKind = "runs" := by decide +kernel
    exact absurd ((hall r hr).symm.trans hrecord.1) (show "runs" ≠ "systems" by decide)
  have hreach : Reachable {} completes := reachable_scripted fresh _
  rw [changes_audited hreach hs hrep htells _ (by decide +kernel) rfl]
  decide +kernel

/-- **A change that is not audited.** `repair_dead_sessions` detaches a session, and its transaction has no
    audit row. -/
theorem repair_without_audit : ∃ s s', Reachable {} s ∧ s.step (Client.prog {}) (.act 7 (.go true)) = some s' ∧
    (Change.session 60 .live .detached) ∈ changes s.db (s.commits (.act 7 (.go true) : Choice store Client)) ∧
    (auditRows (s.commits (.act 7 (.go true) : Choice store Client))).length = 0 := by
  obtain ⟨s', hs⟩ := exists_step (scripted {} db forgotten) (.act 7 (.go true)) (by decide +kernel)
  exact ⟨_, s', reachable_scripted fresh forgotten, hs, by decide +kernel, by decide +kernel⟩
end Kdive.Platform
