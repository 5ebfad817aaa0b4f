import Kdive.Platform.Proof.Runs

/-! # Systems and debug sessions follow the discipline

The functions of `Kdive.Platform.Systems`. The moves of a System and the sessions that are opened and
closed on it are made under the System's lock, with one exception: `systems.provision_defined` takes the
project's and the allocation's locks, and relies on `update_state` finding the System still `defined`.
-/

namespace Kdive.Platform
open Repositories SystemMove Act Lib Prog List Does Doing Handlers Top During
open Doing (Complete)
open Jobs (JobRow Payload DedupKey)
open Doing

variable {as : List Act} {F : store.Db → Prop} {l : Conn store} {c : store.Db}

theorem fits_system {K : List store.Key} {id : Uuid} {m : SystemMove}
    (hlock : m.locked = true → .inl (.system id) ∈ K) (hrow : .inl (.systemRow id) ∈ K)
    (hF : ∀ v, F v → (∃ s, v.1.systems.get id = some s ∧ s.state = m.old) ∧
      (m.new = .reprovisioning → NoLiveRun v id)) : Fits K F (.system id m) fun _ => True := by
  refine .last ?_ fun v _ hv => hF v hv
  intro k hk
  simp only [Act.need, mem_append, mem_singleton] at hk
  rcases hk with hk | rfl
  · split at hk
    · rw [mem_singleton.mp hk]
      exact hlock ‹_›
    · cases hk
  · exact hrow

namespace Systems
/-! ## `systems.provision_defined` -/

variable {systemId : Uuid}

theorem enqueueProvisionJob_does {allocationId : Uuid} (h : Doing as F l c) (hA : Tidy as) :
    Does protocol (enqueueProvisionJob allocationId systemId) l c fun _ => Complete := by
  refine .seq (Doing.enqueue h (by simp [Payload.runId]) (by simp) ?_)
  intro job js l1 c1 _ hjs h1
  refine h1.ret (complete h1 (hA.append_silent ?_))
  intro b hb
  obtain ⟨j, rfl⟩ := hjs b hb
  rfl

variable {ctx : RequestContext} {system : System}

theorem admitDefined_does {alloc : Allocation} (h : Doing [] F l c) :
    Does protocol (admitDefined ctx alloc system) l c fun _ => Complete := by
  refine seq (updateState (a := fun _ => .system system.id .provision) (G := fun _ _ => True)
    lawful_systems h (fun _ => rfl) ?_ ?_)
  · intro row hlegal K _ hrow
    refine fits_system (by simp [locked]) hrow fun v hv => ⟨⟨row, hv.2, ?_⟩, by simp [new]⟩
    -- only a defined System can be provisioned
    have hedge : row.state.successors.contains .provisioning = true := ok_of_ensure hlegal
    generalize row.state = s at hedge ⊢
    cases s <;> first | rfl | exact absurd hedge (by decide)
  · intro row l1 c1 v _ _ _ _ _ h1
    refine .seq (Doing.audit h1 (fun _ _ hv => hv) ?_)
    intro l2 c2 _ h2
    exact enqueueProvisionJob_does h2 (tidy_change rfl ⟨rfl, rfl, text_one rfl⟩)

theorem provisionDefinedLocked_top {allocationId : Uuid} {project : String} (hc : Sound c) :
    Tame protocol (provisionDefinedLocked ctx systemId allocationId project) c := by
  refine connection_own_top hc ?_
  intro l h
  refine .seq (Doing.lock h ?_)
  intro l1 c1 _ h1 _
  refine .seq (Doing.lock h1 ?_)
  intro l2 c2 _ h2 _
  refine .seq (Doing.select h2 ?_)
  intro c3 h3
  split
  · exact stop h3
  split
  · exact stop h3
  rw [Allocations.get, Prog.select, lift_stmt]
  refine .seq (Doing.select h3 ?_)
  intro c4 h4
  split
  · exact stop h4
  split
  · exact stop h4
  unfold provisionDefinedResponse
  split
  · exact enqueueProvisionJob_does h4 tidy_nil
  split
  · exact stop h4
  refine .seq (h4.ask ?_)
  intro x
  split
  · exact stop h4
  · exact h4.raise
  split
  · exact stop h4
  · exact admitDefined_does h4

theorem read_top {α : Type} {f : store.Db → Time → α} : Tame protocol (Prog.connection (Prog.select f)) c := by
  refine .mono ?_ (connection_select (R := fun _ _ => True) (fun _ _ _ _ => trivial) fun _ _ _ _ _ _ _ => trivial)
  exact fun _ _ _ h => ⟨h.1, h.2.1, h.2.2.1, trivial⟩

/-- The handler of `IllegalTransition` that the tools on Systems share. -/
theorem orStatus_top {p : Async Response} (hp : Tame protocol p c) : Tame protocol (p.attempt fun
      | .ok response => return response
      | .error (.illegalTransition ..) => do
        let latest ← Prog.connection (systems.get systemId)
        return configError systemId (latest.toList.map fun s => ("current_status", s.state.value))
      | .error e => .raise e) c := by
  refine attempt hp ?_
  intro r c1 _ hc1 _
  split
  · exact ret hc1 trivial
  · refine bind read_top ?_ fun _ _ _ _ _ => trivial
    intro latest c2 _ hc2 _
    exact ret hc2 trivial
  · exact raise hc1 trivial

theorem provisionDefined_top : Tame protocol (provisionDefined ctx systemId) c := by
  refine bind read_top ?_ fun _ _ _ _ _ => trivial
  intro found c1 _ hc1 _
  split
  · exact ret hc1 trivial
  split
  · exact ret hc1 trivial
  · exact orStatus_top (provisionDefinedLocked_top hc1)

/-! ## `systems.reprovision` -/

theorem admitReprovision_does {profile digest : String}
    (h : Doing [] (Idle system.id) l c) (hk : .inl (.system system.id) ∈ l.locks) :
    Does protocol (admitReprovision ctx system profile digest) l c fun _ => Complete := by
  refine seq (updateState (a := fun _ => .system system.id .reprovision)
    (G := fun _ _ => True) lawful_systems h (fun _ => rfl) ?_ ?_)
  · intro row _ K hK hrow
    exact fits_system (fun _ => hK hk) hrow fun v hv => ⟨hv.1.1, fun _ => hv.1.2⟩
  intro row l1 c1 v _ _ _ _ _ h1
  -- the profile is written next, whether or not a row is found
  have hrest : ∀ {ps l c}, Doing ([.system system.id .reprovision] ++ ps) (fun _ => True) l c →
      (∀ b ∈ ps, b.silent = true) → Does protocol (enqueueReprovision ctx system digest) l c fun _ => Complete := by
    intro ps l c h hps
    refine .seq (Doing.audit h (fun _ _ hv => hv) ?_)
    intro l3 c3 _ h3
    refine .seq (Doing.enqueue h3 (by simp [Payload.runId]) (by simp) ?_)
    intro job js l4 c4 _ hjs h4
    refine h4.ret (complete h4 (Tidy.append_silent ?_ ?_))
    · have htidy : ∀ r, (Change.system system.id .ready .reprovisioning).Recorded r →
          Tidy ([.system system.id .reprovision] ++ ps ++ [.audit r]) := by
        intro r hr
        exact .perm perm_middle ((tidy_change rfl hr).silent_append hps)
      exact htidy _ ⟨rfl, rfl, text_one rfl⟩
    · intro b hb
      obtain ⟨j, rfl⟩ := hjs b hb
      rfl
  refine seq (update (a := fun _ => .profile system.id profile) (G := fun _ _ => True) h1 (fun _ => rfl) ?_ ?_ ?_)
  · exact fun _ _ => .last (subset_append_right _ _) fun _ _ _ => trivial
  · intro l2 c2 _ _ h2
    rw [nil_append, ← append_nil [_]] at h2
    exact hrest h2 fun _ hb => absurd hb not_mem_nil
  · intro _ l2 c2 _ _ _ _ _ _ h2
    exact hrest h2 fun b hb => mem_singleton.mp hb ▸ rfl

theorem reprovisionLocked_top {profile digest : String} (hc : Sound c) :
    Tame protocol (reprovisionLocked ctx systemId profile digest) c := by
  refine connection_own_top hc ?_
  intro l h
  refine .seq (Doing.lock h ?_)
  intro l1 c1 hk h1 _
  refine .seq (Doing.select h1 ?_)
  intro c2 h2
  cases hrow : (systems.rows (protocol.effs [] c2)).get systemId with
  | none => exact stop h2
  | some system =>
    have hid : system.id = systemId := Table.key_eq_of_get hrow
    dsimp only
    split
    · exact stop h2
    -- what the state was is known from here on, under the lock
    have hready : Kept protocol l1.locks fun v => system.state = .ready → Ready v systemId :=
      fun _ _ _ hK hr _ _ hv hs => hr.ready (hK hk) (hv hs)
    have h2' := h2.know hready fun hs => ⟨system, hrow, hs⟩
    rw [Allocations.get, Prog.select, lift_stmt]
    refine .seq (Doing.select h2' ?_)
    intro c3 h3
    split
    · exact stop h3
    split
    · exact stop h3
    refine .seq (h3.ask ?_)
    intro x
    split
    · refine .seq (Doing.audit h3 (fun _ _ hv => hv) ?_)
      intro l4 c4 _ h4
      exact h4.ret (complete h4 tidy_audit)
    split
    · refine .seq (Doing.select h3 ?_)
      intro c4 h4
      split
      · exact stop h4
      · exact stop h4
    split
    · exact stop h3
    rename_i hstate
    rw [ne_eq, not_not] at hstate
    have hnolive : Kept protocol l1.locks fun v => NoLiveRun v systemId :=
      fun _ _ _ hK hr _ _ hv => hr.noLiveRun (hK hk) hv
    refine .seq (Doing.select h3 ?_)
    intro c4 h4
    split
    · exact stop h4
    rename_i hlive
    have hidle : NoLiveRun (protocol.effs [] c4) systemId := by
      intro id r hr hsys
      cases hrun : r.state.live with
      | false => rfl
      | true =>
        refine absurd (any_eq_true.mpr ⟨r, Table.mem_of_get hr, ?_⟩) hlive
        simp [hsys, hrun]
    have h5 : Doing [] (Idle system.id) l1 c4 := by
      refine (h4.know hnolive hidle).conseq (kept_idle (hid ▸ hk)) ?_
      exact fun _ _ hv => hid ▸ ⟨hv.1.2 hstate, hv.2⟩
    refine .seq (h5.ask ?_)
    intro x
    split
    · exact stop h5
    · exact h5.raise
    · exact admitReprovision_does h5 (hid ▸ hk)

/-! ## `force_crash_handler` -/

variable {xs : List DebugSession}

theorem path_detach {make : DebugSession → Act} {v : store.Db}
    (hw : ∀ x, (make x).writes = [.inr (.setSession x.id .detached)])
    (hguard : ∀ x ∈ xs, ∀ v : store.Db, v.2.sessions.get x.id = some x → (make x).guard v)
    (hxs : ∀ x ∈ xs, v.2.sessions.get x.id = some x) (hnodup : (xs.map (·.id)).Nodup) :
    protocol.Path v (xs.map make) := by
  induction xs generalizing v with
  | nil => trivial
  | cons x xs ih =>
    rw [map_cons, nodup_cons] at hnodup
    refine ⟨hguard x mem_cons_self v (hxs x mem_cons_self), ?_⟩
    refine ih (fun y hy => hguard y (mem_cons_of_mem _ hy)) ?_ hnodup.2
    intro y hy
    have hne : x.id ≠ y.id := fun h => hnodup.1 (h ▸ mem_map_of_mem hy)
    have heff : protocol.eff (make x) v = store.apply (.inr (.setSession x.id .detached)) v := by
      show store.applyAll (make x).writes v = _
      rw [hw]
      rfl
    rw [heff]
    refine ((TableWrite.setSession x.id .detached).get_sessions v.2 y.id).trans ?_
    exact (if_neg hne).trans (hxs y (mem_cons_of_mem _ hy))

def detachRow (job : Authorizing) (system : System) (x : DebugSession) : AuditRow :=
  Audit.row job.principal job.agentSession
    { tool := "control.force_crash", objectKind := "debug_sessions", objectId := x.id
      transition := [.text x.state.value, .text "->detached"]
      args := [("system_id", .id system.id)], project := system.project }

variable {job : Authorizing}

theorem recorded_detachRow {x y : DebugSession} :
    (Change.session y.id y.state .detached).Recorded (detachRow job system x) ↔
      Change.session x.id x.state .detached = .session y.id y.state .detached := by
  have htext : (detachRow job system x).text = some (x.state.value ++ "->" ++ "detached") := text_two rfl
  have hvalue : ∀ s s' : DebugSessionState, s.value ++ "->" ++ "detached" = s'.value ++ "->" ++ "detached" →
      s = s' := by
    intro s s'
    cases s <;> cases s' <;> first | exact fun _ => rfl | exact fun h => absurd h (by decide)
  constructor
  · rintro ⟨-, hid, hval⟩
    rw [htext] at hval
    rw [show x.id = y.id from hid, hvalue _ _ (Option.some.inj hval)]
  · intro h
    obtain ⟨hid, hstate, -⟩ := Change.session.inj h
    exact ⟨rfl, hid, by rw [htext, hstate]; rfl⟩

/-- The steps that detach sessions: the update, and then its audit rows. -/
def detaching (job : Authorizing) (system : System) (xs : List DebugSession) : List Act :=
  xs.map (fun x => .detach x.id x.state) ++ xs.map fun x => .audit (detachRow job system x)

theorem change_detaching (xs : List DebugSession) : (detaching job system xs).filterMap change =
      xs.map fun x => .session x.id x.state .detached := by
  simp [detaching, filterMap_append, filterMap_map, Function.comp_def, change]

theorem not_goesLive_detaching : (detaching job system xs).any goesLive = false := by
  refine any_eq_false.mpr fun a ha => ?_
  rcases mem_append.mp ha with ha | ha
  · obtain ⟨x, -, rfl⟩ := mem_map.mp ha
    exact Bool.false_ne_true
  · obtain ⟨x, -, rfl⟩ := mem_map.mp ha
    exact Bool.false_ne_true

theorem tidy_detach (xs : List DebugSession) : Tidy (detaching job system xs) := by
  refine ⟨?_, ?_, ?_, ?_⟩
  · intro a ha
    rcases mem_append.mp ha with ha | ha
    · obtain ⟨x, -, rfl⟩ := mem_map.mp ha
      rfl
    · obtain ⟨x, -, rfl⟩ := mem_map.mp ha
      rfl
  · intro ch hch
    rw [change_detaching] at hch ⊢
    obtain ⟨y, -, rfl⟩ := mem_map.mp hch
    rw [detaching, countP_append, countP_map, countP_map, List.count, countP_map]
    have hzero : xs.countP ((·.records (.session y.id y.state .detached)) ∘
        fun x => detach x.id x.state) = 0 :=
      countP_eq_zero.mpr fun x _ => Bool.false_ne_true
    rw [hzero, Nat.zero_add]
    refine countP_congr fun x _ => ?_
    show decide _ = true ↔ (_ == _) = true
    rw [decide_eq_true_iff, beq_iff_eq, recorded_detachRow]
  · rw [not_goesLive_detaching]
    exact fun hlive => absurd hlive Bool.false_ne_true
  · intro l hl
    rcases mem_append.mp hl with hl | hl
    · obtain ⟨x, -, hx⟩ := mem_map.mp hl
      cases hx
    · obtain ⟨x, -, hx⟩ := mem_map.mp hl
      cases hx

theorem auditEach_does {event : DebugSession → AuditEvent} (xs : List DebugSession) (h : Doing as (fun _ => True) l c) :
    Does protocol (Prog.foldEach (fun _ x => audit ctx (event x)) () xs) l c fun _ l' c' =>
      Doing (as ++ xs.map fun x => .audit (Audit.row ctx.principal ctx.agentSession (event x)))
        (fun _ => True) l' c' := by
  induction xs generalizing as l c with
  | nil =>
    refine h.ret ?_
    rwa [map_nil, append_nil]
  | cons x xs ih =>
    refine .seq (Doing.audit h (fun _ _ hv => hv) ?_)
    intro l1 c1 _ h1
    refine (ih h1).mono ?_
    intro _ l2 c2 _ h2
    rwa [append_assoc] at h2

theorem detachSessions_does (h : Doing as F l c) : Does protocol (detachSessions job system) l c fun _ l' c' => ∃ xs,
      Doing (as ++ detaching job system xs) (fun _ => True) l' c' := by
  have hupdate : Does protocol (Prog.stmt (detachStmt system.id) fun v _ => attached v.2 system.id) l c
      fun xs l' c' => Doing (as ++ xs.map fun x => .detach x.id x.state) (fun _ => True) l' c' := by
    refine perform h ?_
    intro c' ws v _ _ hact
    cases hact
    have hmem : ∀ x ∈ attached v.2 system.id, v.2.sessions.get x.id = some x :=
      fun x hx => Table.get_key_of_mem (mem_filter.mp hx).1
    refine ⟨trivial, (attached v.2 system.id).map fun x => .detach x.id x.state, ?_, ?_, ?_, ?_⟩
    · rw [flatMap_map]
      exact (flatMap_singleton' _).symm.trans (by rw [flatMap_map]; rfl)
    · intro b hb
      obtain ⟨x, hx, rfl⟩ := mem_map.mp hb
      intro k hk
      rw [mem_singleton.mp hk]
      exact mem_append_right _ (mem_map_of_mem hx)
    · refine path_detach (fun _ => rfl) ?_ hmem ?_
      · intro x hx v hv
        refine ⟨x, hv, rfl, ?_⟩
        have hocc : x.occupies = true := (Bool.and_eq_true_iff.mp (mem_filter.mp hx).2).1
        unfold DebugSession.occupies at hocc
        generalize x.state = s at hocc ⊢
        cases s <;> first | rfl | exact absurd hocc (by decide)
      · exact v.2.sessions.nodup.sublist (filter_sublist.map _)
    · intro l' _ _ hdone
      exact hdone _ .trivial trivial
  refine bind hupdate ?_
  intro xs l1 c1 _ h1
  refine (auditEach_does xs h1).mono ?_
  intro _ l2 c2 _ h2
  rw [append_assoc] at h2
  exact ⟨xs, h2⟩

theorem forceCrashTarget_top (hc : Sound c) : Tame protocol (forceCrashTarget systemId) c := by
  refine own_top hc ?_
  intro l h
  refine .seq (Doing.lock h ?_)
  intro l1 c1 _ h1 _
  refine .seq (Doing.select h1 ?_)
  intro c2 h2
  split
  · exact h2.raise
  · exact stop h2

theorem tidy_crash {r : AuditRow} (hr : (Change.system systemId .ready .crashed).Recorded r) :
    Tidy ([.system systemId .crash, .audit r] ++ detaching job system xs) := by
  refine (tidy_change rfl hr).append (tidy_detach xs) ?_ ?_ ?_
  · intro ch hch b hb
    obtain rfl : ch = .system systemId .ready .crashed := by
      simpa [change, old, new] using hch
    rcases mem_append.mp hb with hb | hb
    · obtain ⟨x, -, rfl⟩ := mem_map.mp hb
      exact ⟨rfl, by simp [change]⟩
    · obtain ⟨x, -, rfl⟩ := mem_map.mp hb
      refine ⟨records_audit fun h => absurd h.1 ?_, by simp [change]⟩
      exact (show "debug_sessions" ≠ "systems" by decide)
  · intro ch hch b hb
    rw [change_detaching] at hch
    obtain ⟨x, -, rfl⟩ := mem_map.mp hch
    rcases mem_pair.mp hb with rfl | rfl
    · exact ⟨rfl, by simp [change]⟩
    · refine ⟨records_audit fun h => absurd (hr.1.symm.trans h.1) ?_, by simp [change]⟩
      exact (show "systems" ≠ "debug_sessions" by decide)
  · rw [any_append, not_goesLive_detaching]
    exact fun hlive => absurd hlive (by simp [goesLive])

theorem finalizeForceCrash_does {project : String} (h : Doing [] F l c) :
    Does protocol (finalizeForceCrash job systemId project) l c fun _ => Complete := by
  refine savepoint (h.conseq .trivial fun _ _ _ => trivial) tidy_nil ?_
  intro l h
  refine .seq (Doing.lock h ?_)
  intro l1 c1 hk h1 _
  refine .seq (Doing.select h1 ?_)
  intro c2 h2
  cases hrow : (systems.rows (protocol.effs [] c2)).get systemId with
  | none => exact h2.raise
  | some system =>
    dsimp only
    split
    · exact stop h2
    split
    · rename_i hstate
      have hready : Kept protocol l1.locks fun v => Ready v systemId :=
        fun _ _ _ hK hr _ _ hv => hr.ready (hK hk) hv
      have h2' := h2.know hready ⟨system, hrow, hstate⟩
      refine .seq (updateState (a := fun _ => .system systemId .crash)
        (G := fun _ _ => True) lawful_systems h2' (fun _ => rfl) ?_ ?_)
      · intro row _ K hK hrowKey
        exact fits_system (fun _ => hK hk) hrowKey fun v hv => ⟨hv.1.2, by simp [new]⟩
      intro row l3 c3 v _ _ _ _ _ h3
      refine .seq (Doing.audit h3 (fun _ _ hv => hv) ?_)
      intro l4 c4 _ h4
      refine (detachSessions_does h4).mono ?_
      rintro _ l5 c5 - ⟨xs, h5⟩
      exact complete h5 (tidy_crash ⟨rfl, rfl, text_one rfl⟩)
    · refine (detachSessions_does h2).mono ?_
      rintro _ l3 c3 - ⟨xs, h3⟩
      exact complete h3 (tidy_detach xs)

variable {cfg : Config}

theorem runtimeForSystem_does {id : Uuid} {R : Post store Unit}
    (h : Doing as F l c) (hR : ∀ c', Doing as F l c' → R () l c') :
    Does protocol (runtimeForSystem cfg id).lift l c R := by
  unfold Handlers.runtimeForSystem
  rw [lift_bind, Prog.select, lift_stmt]
  refine .seq (Doing.select h ?_)
  intro c1 h1
  split
  · exact h1.raise
  · split
    · exact h1.ret (hR c1 h1)
    · exact h1.raise

theorem forceCrashHandler_top (hc : Sound c) : Tame protocol (forceCrashHandler cfg job systemId) c := by
  refine connection (.bind (forceCrashTarget_top hc) ?_) fun _ _ _ _ => trivial
  intro target c1 hc1 _
  split
  · exact .of_top (ret (Q := fun _ _ => True) hc1 trivial)
  refine .opening trivial hc1 fun t h => ?_
  refine seq (runtimeForSystem_does h ?_)
  intro c2 h2
  refine seq (h2.ask ?_)
  intro x
  refine seq (h2.ofExcept ?_)
  intro _ _
  exact (finalizeForceCrash_does h2).mono fun _ _ _ _ hready => Complete.commits hready

/-! ## The handler of `reprovision` jobs -/

theorem lift_getForUpdate (id : Uuid) : (Kdive.Systems.getForUpdate id).lift = systems.getForUpdate id := by
  unfold Kdive.Systems.getForUpdate Prog.selectFor
  rw [lift_stmt]
  congr 1
  unfold Stmt.lift
  congr 1
  funext v t
  show List.map _ (if (v.1.systems.get id).isSome then _ else _) = if (v.1.systems.get id).isSome then _ else _
  split <;> rfl

theorem commitReprovision_does {job : Job} {domainName : String} (h : Doing [] F l c) :
    Does protocol (commitReprovisionResult job system domainName).lift l c fun _ => Complete := by
  unfold commitReprovisionResult
  rw [lift_transaction]
  refine savepoint (h.conseq .trivial fun _ _ _ => trivial) tidy_nil ?_
  intro l h
  rw [lift_bind]
  refine seq (@Doing.lock _ _ _ _ h (.core (.system system.id)) _ ?_)
  intro l1 c1 hk h1 _
  rw [lift_bind, lift_getForUpdate]
  refine seq (getForUpdate lawful_systems h1 ?_ ?_)
  · intro l2 c2 _ h2
    exact stop h2
  intro row l2 c2 hx2 hrow h2
  dsimp only
  split
  · rename_i hstate
    rw [lift_bind, Kdive.Systems.update, lift_stmt]
    refine seq (step h2 ?_)
    intro c3 ws v h3 hv hact
    have hsees : systems.Sees system.id row v := hv ▸ h3.fact.2
    have hfound : v.1.systems.get system.id = some row := hsees
    have hws : ws = [.inl (.patchSystem system.id (.ready domainName))] := by
      simpa [Stmt.lift, Kdive.Systems.updateStmt, hfound, Except.map] using hact.symm
    refine .inr ⟨.system system.id (.ready domainName),
      fun v => systems.Sees system.id row v, fun _ => True, hws, hsees, ?_, ?_⟩
    · refine fits_system (fun _ => mem_append_left _ (hx2.mem_locks hk))
        (mem_append_left _ hrow) fun v hv => ⟨⟨row, hv, hstate⟩, by simp [new]⟩
    intro l4 _ _ h4
    rw [lift_bind]
    refine .seq (Doing.audit h4 (fun _ _ hv => hv) ?_)
    intro l5 c5 _ h5
    exact h5.ret (complete h5 (tidy_change rfl ⟨rfl, rfl, text_one rfl⟩))
  · exact stop h2

theorem recordSystemFailure_does {job : Job} {transition tool : String} (h : Doing [] F l c) :
    Does protocol (Prog.transaction (do
      Kdive.Systems.updateState system.id .failed
      auditTransition job system.project system.id [.text transition] tool :
        Kdive.Async Unit)).lift l c fun _ _ _ => True := by
  have hend : ∀ {bs ws F l c}, During protocol bs ws F l c → ∀ {l0 : Conn store} {c0 : store.Db},
      ∃ bs' ws' F', During protocol bs' ws' F' l c ∧ ∀ l'', During protocol bs' ws' F' l'' c →
        l''.locks = l.locks → Ext protocol l0 c0 l'' c → True :=
    fun h => ⟨_, _, _, h, fun _ _ _ _ => trivial⟩
  rw [lift_transaction]
  refine block h ?_
  intro h
  rw [lift_bind]
  refine bind (S := fun _ l' c' => ∃ ws, During protocol [] ws (fun _ => True) l' c') ?_ ?_
  · unfold Kdive.Systems.updateState
    rw [lift_transaction]
    refine block (h.conseq .trivial fun _ _ _ => trivial) ?_
    intro h
    rw [lift_bind, lift_getForUpdate]
    refine seq (getForUpdate lawful_systems h (fun _ _ _ h' => h'.raise) ?_)
    intro row l1 c1 _ _ h1
    rw [lift_bind, lift_ofExcept]
    refine seq (h1.ofExcept ?_)
    intro _ _
    rw [Kdive.Systems.update, lift_stmt]
    refine (pending h1 ?_).mono ?_
    · intro v ws hact
      cases hact
      refine ⟨fun w hw => ?_, trivial⟩
      obtain ⟨w', hw', rfl⟩ := mem_map.mp hw
      refine subset_append_of_subset_right _ (map_subset _ ?_)
      simp only [Kdive.Systems.updateStmt] at hw' ⊢
      split at hw'
      · rw [mem_singleton.mp hw', if_pos ‹_›]
        exact fun _ hk => hk
      · cases hw'
    · rintro _ l2 c2 - ⟨ws, h2⟩
      refine ⟨_, _, _, h2.conseq .trivial fun _ _ _ => trivial, fun l3 h3 _ _ => ⟨_, h3⟩⟩
  · rintro _ l1 c1 - ⟨ws, h1⟩
    unfold auditTransition Audit.record
    split
    · rw [Audit.recordSystem, lift_stmt]
      refine (pending h1 ?_).mono ?_
      · intro v ws' hact
        cases hact
        refine ⟨fun w hw => ?_, trivial⟩
        rw [mem_singleton.mp hw]
        exact nil_subset _
      · rintro _ l2 c2 - ⟨ws', h2⟩
        exact hend h2
    · exact h1.raise

theorem lift_recordSystemFailure (job : Job) (system : System) (transition tool : String) :
    (recordSystemFailure job system transition tool).lift (ξ := annex) = ((Prog.transaction (do
        Kdive.Systems.updateState system.id .failed
        auditTransition job system.project system.id [.text transition] tool :
          Kdive.Async Unit)).lift (ξ := annex)).catching fun _ => .ret () := by
  rw [recordSystemFailure, Prog.catching, lift_attempt, Prog.catching]
  congr 1
  funext r
  cases r <;> rfl

theorem callReprovision_does {job : Job} (h : Doing [] F l c) :
    Does protocol (callReprovision job system).lift l c fun _ => Complete := by
  unfold callReprovision
  rw [lift_bind, lift_ask]
  refine seq (h.ask ?_)
  intro x
  split
  · rw [lift_bind]
    refine bind (commitReprovision_does h) ?_
    intro current l1 c1 _ h1
    split
    · rw [lift_bind, lift_ask]
      refine seq (ask h1.good h1.inv fun x => ?_)
      rw [lift_ofExcept]
      exact ofExcept h1.good h1.inv fun _ _ => h1
    · exact ret h1.good h1.inv h1
  · unfold failing
    split
    · rw [lift_bind, lift_recordSystemFailure]
      exact undone (recordSystemFailure_does h)
    · exact h.raise

theorem reprovisionHandler_top {job : Job} (hc : Sound c) : Tame protocol (reprovisionHandler cfg job) c := by
  unfold reprovisionHandler runHandler
  rw [lift_attempt, lift_connection]
  refine attempt (R := fun _ _ => True) (connection_top ?_ hc ?_) ?_
  · unfold Handlers.reprovisionHandler
    rw [lift_bind]
    trivial
  · intro l h
    unfold Handlers.reprovisionHandler
    rw [lift_bind, Kdive.Systems.get, Prog.select, lift_stmt]
    refine .seq (Doing.select h ?_)
    intro c1 h1
    split
    · exact h1.raise
    rw [lift_bind]
    refine seq (runtimeForSystem_does h1 ?_)
    intro c2 h2
    split
    · exact callReprovision_does h2
    · exact stop h2
  · intro r c1 _ hc1 _
    have helsewhere : Top protocol (Prog.connection elsewhere).lift c1 fun _ _ => True := by
      rw [lift_connection, elsewhere, Prog.select, lift_stmt]
      exact read_top
    cases r with
    | ok | error => exact helsewhere
end Systems

namespace Debug
/-! ## `debug.start_session` -/

variable {runId systemId : Uuid}

theorem kept_runOn {K : List store.Key} : Kept protocol K fun v => RunOn v runId systemId :=
  fun _ _ _ _ hr _ _ hv => hr.runOn hv

variable {transport : DebugTransport}

theorem unoccupied_of {v : store.Db}
    (h : occupied v.2 systemId transport ≠ true) : Unoccupied v systemId transport := by
  intro id x r hx hr hsys htrans
  cases hocc : x.occupies with
  | false => rfl
  | true =>
    refine absurd (any_eq_true.mpr ⟨x, Table.mem_of_get hx, ?_⟩) h
    simp [hocc, htrans, hr, hsys]

def Attached (x : DebugSession) (systemId : Uuid) (v : store.Db) : Prop :=
  v.2.sessions.get x.id = some x ∧ RunOn v x.runId systemId ∧ Ready v systemId

theorem attachPreconditions_does {run : Run} (h : Doing as F l c) :
    Does protocol (attachPreconditions run transport) l c fun x l' c' =>
      Doing as F l' c' ∧ ∀ system, x = .ok system → system.id = run.systemId := by
  unfold attachPreconditions
  split
  · exact h.ret ⟨h, by simp⟩
  refine seq (h.ask ?_)
  intro x
  split
  · exact h.ret ⟨h, by simp⟩
  refine .seq (Doing.select h ?_)
  intro c1 h1
  cases hrow : (systems.rows (protocol.effs as c1)).get run.systemId with
  | none => exact h1.ret ⟨h1, by simp⟩
  | some =>
    dsimp only
    split
    · exact h1.ret ⟨h1, by simp⟩
    refine .seq (Doing.select h1 ?_)
    intro c2 h2
    split
    · exact h2.ret ⟨h2, by simp⟩
    · refine h2.ret ⟨h2, ?_⟩
      rintro _ ⟨⟩
      exact Table.key_eq_of_get hrow

def Prepared (x : Except Response (Run × System)) (c : store.Db) : Prop :=
  ∀ run system, x = .ok (run, system) → RunOn c run.id system.id

variable {ctx : RequestContext}

theorem prepareAttachRequest_top (hc : Sound c) :
    Top protocol (Prog.connection (prepareAttachRequest ctx runId transport)) c fun r c' =>
      ∀ x, r = .ok x → Prepared x c' := by
  have hnone : ∀ {response c}, Prepared (.error response) c := fun _ _ h => by cases h
  refine connection_giving (Giving.bare trivial hc fun t => Ends.of_does ?_) ?_
  · have hstart : Doing [] (fun _ => True) (Conn.idle.opened t) c := opened hc t
    refine .seq (Doing.select hstart ?_)
    intro c1 h1
    cases hrow : (runs.rows (protocol.effs [] c1)).get runId with
    | none => exact h1.ret ⟨(complete h1 tidy_nil).commits, hnone⟩
    | some run =>
      have hid : run.id = runId := Table.key_eq_of_get hrow
      have hon : RunOn (protocol.effs [] c1) run.id run.systemId := ⟨run, hid ▸ hrow, rfl⟩
      dsimp only
      split
      · exact h1.ret ⟨(complete h1 tidy_nil).commits, hnone⟩
      refine bind (attachPreconditions_does (h1.know kept_runOn hon)) ?_
      rintro found l2 c2 - ⟨h2, hsystem⟩
      split
      · exact h2.ret ⟨(complete h2 tidy_nil).commits, hnone⟩
      refine seq (h2.ask ?_)
      intro x
      split
      · exact h2.ret ⟨(complete h2 tidy_nil).commits, hnone⟩
      · refine h2.ret ⟨(complete h2 tidy_nil).commits, ?_⟩
        rintro _ _ ⟨⟩
        rw [hsystem _ rfl]
        exact h2.fact.2
  · intro x c' c'' hr _ _ hx run system hrun
    exact hr.runOn (hx run system hrun)

variable {sessionId : Uuid}

theorem insertSessionLocked_top {run : Run}
    {handle : String} (hc : Sound c) (hrun : RunOn c run.id systemId) : Tame protocol (Prog.connection
      (insertSessionLocked ctx run systemId handle transport sessionId)) c := by
  refine connection_own_top hc ?_
  intro l h
  refine .seq (Doing.lock (h.know kept_runOn hrun) ?_)
  intro l1 c1 hk h1 _
  refine .seq (Doing.select h1 ?_)
  intro c2 h2
  cases hrow : (systems.rows (protocol.effs [] c2)).get systemId with
  | none => exact stop h2
  | some current =>
    dsimp only
    split
    · exact stop h2
    rename_i hstate
    rw [ne_eq, not_not] at hstate
    have hready : Kept protocol l1.locks fun v => Ready v systemId :=
      fun _ _ _ hK hr _ _ hv => hr.ready (hK hk) hv
    have h2' := h2.know hready ⟨current, hrow, hstate⟩
    refine .seq (Doing.select h2' ?_)
    intro c3 h3
    split
    · exact stop h3
    rename_i hocc
    have hfree : Kept protocol l1.locks fun v => Unoccupied v systemId transport :=
      fun _ _ _ hK hr hv _ h => hr.unoccupied hv.sessions (hK hk) h
    have h3' := h3.know hfree (unoccupied_of hocc)
    refine .seq (h3'.ask ?_)
    intro now
    refine .seq (insert (a := .newSession systemId (newSession sessionId run transport handle now.1.now))
      (G := Attached (newSession sessionId run transport handle now.1.now) systemId) h3' rfl
      ⟨?_, ?_, ?_, ?_⟩ ?_)
    · intro k hk'
      simp only [Act.need, mem_cons, not_mem_nil, or_false] at hk'
      rcases hk' with rfl | rfl
      · exact mem_append_left _ hk
      · exact mem_append_right _ mem_cons_self
    · rintro v - ⟨⟨⟨⟨-, hon⟩, hready⟩, hfree⟩, hfresh⟩
      exact ⟨hfresh, rfl, hon, hready, hfree⟩
    · rintro H v v' hK hr - - ⟨hx, hon, hready⟩
      refine ⟨?_, hr.runOn hon, hr.ready (hK (mem_append_left _ hk)) hready⟩
      exact ((hr.sessions sessionId).locked (hK (mem_append_right _ mem_cons_self))).trans hx
    · rintro v - ⟨⟨⟨⟨-, hon⟩, hready⟩, hfree⟩, hfresh⟩ -
      exact ⟨Table.get_insert_self hfresh, hon, hready⟩
    intro l4 c4 hx4 hkey h4
    refine .seq (Doing.audit h4 (fun _ _ hv => hv) ?_)
    intro l5 c5 hx5 h5
    refine .seq (updateState (a := fun _ => .goLive systemId sessionId)
      (G := fun _ _ => True) lawful_debugSessions h5 (fun _ => rfl) ?_ ?_)
    · intro row _ K hK hrowKey
      refine .last ?_ fun v _ hv => ⟨⟨_, hv.1.1, rfl, hv.1.2.1⟩, hv.1.2.2⟩
      intro k hk'
      simp only [Act.need, mem_cons, not_mem_nil, or_false] at hk'
      rcases hk' with rfl | rfl
      · exact hK (hx5.mem_locks (hx4.mem_locks hk))
      · exact hrowKey
    intro row l6 c6 v _ _ _ _ _ h6
    refine .seq (Doing.audit h6 (fun _ _ hv => hv) ?_)
    intro l7 c7 _ h7
    refine h7.ret (complete h7 (Tidy.cons_silent (Tidy.cons_audit (tidy_change rfl ⟨rfl, rfl, text_one rfl⟩) ?_) rfl))
    intro ch hch hrec
    obtain rfl : ch = .session sessionId .attach .live := by simpa [change] using hch
    have htext := hrec.2.2
    rw [text_one rfl] at htext
    exact absurd (Option.some.inj htext) (show ¬ "->attach" = "attach" ++ "->" ++ "live" by decide)

theorem startSession_top (hc : Sound c) : Tame protocol (startSession ctx runId transport) c := by
  refine bind (R := fun _ _ => True) (ask hc fun _ => trivial) ?_ fun _ _ _ _ _ => trivial
  intro sessionId c1 _ hc1 _
  refine bind (prepareAttachRequest_top hc1) ?_ fun _ _ _ _ _ => trivial
  intro prepared c2 _ hc2 hprepared
  split
  · exact ret hc2 trivial
  rename_i run system
  have hon : RunOn c2 run.id system.id := hprepared _ rfl run system rfl
  refine bind (R := fun _ c' => RunOn c' run.id system.id) (ask hc2 fun _ => hon) ?_
    fun _ _ _ _ _ => trivial
  intro answer c3 _ hc3 hon3
  split
  · exact ret hc3 trivial
  · exact raise hc3 trivial
  · exact insertSessionLocked_top hc3 hon3

/-! ## `debug.end_session` -/

theorem detachLocked_does (h : Doing [] F l c) :
    Does protocol (detachLocked ctx sessionId systemId) l c fun _ => Complete := by
  refine savepoint (h.conseq .trivial fun _ _ _ => trivial) tidy_nil ?_
  intro l h
  refine .seq (Doing.lock h ?_)
  intro l1 c1 _ h1 _
  refine seq (getForUpdate lawful_debugSessions h1 ?_ ?_)
  · intro l2 c2 _ h2
    exact stop h2
  intro row l2 c2 _ _ h2
  dsimp only
  split
  · exact stop h2
  refine seq (updateState (a := fun row => .detach sessionId row.state)
    (G := fun _ _ => True) lawful_debugSessions h2 (fun _ => rfl) ?_ ?_)
  · intro row' hlegal K _ hrowKey
    refine .last ?_ fun v _ hv => ⟨row', hv.2, rfl, ok_of_ensure hlegal⟩
    intro k hk
    rwa [mem_singleton.mp hk]
  intro row' l3 c3 v _ _ _ hF hsees h3
  rw [hsees.eq hF.2] at h3
  refine .seq (Doing.audit h3 (fun _ _ hv => hv) ?_)
  intro l4 c4 _ h4
  exact h4.ret (complete h4 (tidy_change rfl ⟨rfl, rfl, text_two rfl⟩))

theorem endSession_top (hc : Sound c) : Tame protocol (endSession ctx sessionId) c := by
  refine connection_top trivial hc ?_
  intro l h
  refine .seq (Doing.select h ?_)
  intro c1 h1
  split
  · exact stop h1
  split
  · exact stop h1
  refine .seq (Doing.select h1 ?_)
  intro c2 h2
  split
  · exact stop h2
  refine seq (h2.ask ?_)
  intro x
  split
  · exact stop h2
  · exact detachLocked_does h2
end Debug
end Kdive.Platform
