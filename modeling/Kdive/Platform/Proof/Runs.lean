import Kdive.Platform.Proof.Statements

/-! # Investigations and Runs follow the discipline

The functions of `Kdive.Platform.Runs`, each through the rules of its statements. What has to be known at a
write was read under a lock that is still held: the System and its Runs under the System's lock, an
Investigation's state under the Investigation's, a Run's row after `FOR UPDATE`.
-/

namespace Kdive.Platform
open Lib Does Doing Repositories Keeps List Option
open Doing (Complete)
open Jobs (JobRow StepRow Payload DedupKey)

variable {as : List Act} {F : store.Db → Prop} {l : Conn store} {c : store.Db}

def InvestigationIn (id : Uuid) (state : InvestigationState) (v : store.Db) : Prop :=
  ∃ i, v.2.investigations.get id = some i ∧ i.state = state

variable {K : List store.Key}

theorem kept_investigationIn {id : Uuid} {state : InvestigationState}
    (hk : .inr (.investigation id) ∈ K) : Kept protocol K (InvestigationIn id state) := by
  rintro H v v' hK hr - - ⟨i, hi, hstate⟩
  obtain ⟨i', hi', -⟩ := (hr.investigations id).persists i hi
  exact ⟨i', hi', ((hr.investigations id).state (hK hk) i i' hi hi').trans hstate⟩

theorem fits_investigation {id : Uuid} {old new : InvestigationState}
    (hk : .inr (.investigation id) ∈ K) (hrow : .inr (.investigationRow id) ∈ K)
    (hF : ∀ v, F v → InvestigationIn id old v) (hedge : old.canTransition new = true) :
    Fits K F (.investigation id old new) fun _ => True := by
  refine .last ?_ fun v _ hv => ⟨hF v hv, hedge⟩
  intro k hk'
  simp only [Act.need, mem_cons, not_mem_nil, or_false] at hk'
  rcases hk' with rfl | rfl
  · exact hk
  · exact hrow

def Idle (systemId : Uuid) (v : store.Db) : Prop := Ready v systemId ∧ NoLiveRun v systemId

theorem kept_idle {systemId : Uuid} (hk : .inl (.system systemId) ∈ K) : Kept protocol K (Idle systemId) :=
  fun _ _ _ hK hr _ _ hv => ⟨hr.ready (hK hk) hv.1, hr.noLiveRun (hK hk) hv.2⟩

namespace Investigations
variable {ctx : RequestContext}

theorem openInvestigation_top {project : String} (hc : Sound c) : Tame protocol (openInvestigation ctx project) c := by
  refine connection_own_top hc ?_
  intro l h
  refine seq (h.ask ?_)
  intro x
  refine seq (insert (a := .newInvestigation _) h rfl (.last ?_ fun v _ hv => hv.2) ?_)
  · exact subset_append_right _ _
  intro l1 c1 _ _ h1
  refine .seq (Doing.audit h1 (fun _ _ hv => hv) ?_)
  intro l2 c2 _ h2
  refine h2.ret (complete h2 ?_)
  exact tidy_audit.cons_silent rfl

theorem closeLocked_keeps {id : Uuid} {project : String} (h : Doing [] (fun _ => True) l c) :
    Keeps protocol Tidy (closeLocked ctx id project) l c fun _ _ _ => True := by
  refine block h tidy_nil ?_
  intro h
  refine seq (lock h ?_)
  intro l1 c1 hkey h1 _
  refine seq (select h1 ?_)
  intro c2 h2
  cases hrow : (investigations.rows (protocol.effs [] c2)).get id with
  | none => exact stop h2
  | some current =>
    dsimp only
    split
    · exact stop h2
    split
    · exact stop h2
    have h2' := h2.know (kept_investigationIn hkey) ⟨current, hrow, rfl⟩
    refine seq (updateState (a := fun row => .investigation id row.state .closed)
      (G := fun _ _ => True) lawful_investigations h2' (fun _ => rfl) ?_ ?_)
    · intro row hlegal K hK hrowKey
      exact fits_investigation (hK hkey) hrowKey (fun v hv => ⟨row, hv.2, rfl⟩) (ok_of_ensure hlegal)
    · rintro row l3 c3 v - - - ⟨-, i, hi, hstate⟩ hsees h3
      have hold : row.state = current.state := some.inj (hsees.symm.trans hi) ▸ hstate
      refine .seq (Doing.audit h3 (fun _ _ hv => hv) ?_)
      intro l4 c4 _ h4
      rw [hold] at h4
      exact h4.ret (complete h4 (tidy_change rfl ⟨rfl, rfl, text_two rfl⟩))

theorem closeInvestigation_top {id : Uuid} (hc : Sound c) : Tame protocol (closeInvestigation ctx id) c := by
  refine connection_top trivial hc ?_
  intro l h
  refine seq (select h ?_)
  intro c1 h1
  split
  · exact stop h1
  split
  · exact stop h1
  refine attemptDoes (closeLocked_keeps h1) ?_ ?_
  · intro _ l2 c2 h2 _
    exact ret h2.good h2.inv h2
  · intro e l2 c2 h2
    split
    · cases ‹_›
    · refine bind h2.select ?_
      intro latest l3 c3 _ h3
      split
      · exact ret h3.good h3.inv h3
      · exact ret h3.good h3.inv h3
    · exact raise h2.good h2.inv
end Investigations

namespace Runs
/-! ## `runs.create` -/

variable {K : List store.Key} {id : Uuid} {project : String}

theorem kept_investigationOf : Kept protocol K fun v => InvestigationOf v id project :=
  fun _ _ _ _ hr _ _ hv => hr.investigationOf hv

variable {ctx : RequestContext} {systemId : Uuid}

theorem resolveTargets_does {investigationId : Uuid} (h : Doing as F l c) :
    Does protocol (resolveTargets ctx investigationId systemId) l c fun found l' c' =>
      l' = l ∧ match found with
        | .error _ => Doing as F l c'
        | .ok (targets, project) =>
          Doing as (fun v => F v ∧ InvestigationOf v targets.investigationId project) l c' := by
  refine seq (select h ?_)
  intro c1 h1
  cases hinv : (investigations.rows (protocol.effs as c1)).get investigationId with
  | none => exact h1.ret ⟨rfl, h1⟩
  | some inv =>
    dsimp only
    split
    · exact h1.ret ⟨rfl, h1⟩
    have h1' := h1.know kept_investigationOf ⟨inv, hinv, rfl⟩
    have hdrop : ∀ {c'}, Doing as (fun v => F v ∧ InvestigationOf v investigationId inv.project) l c' →
        Doing as F l c' :=
      fun h' => h'.conseq h.kept fun _ _ hv => hv.1
    refine seq (select h1' ?_)
    intro c2 h2
    split
    · exact h2.ret ⟨rfl, hdrop h2⟩
    split
    · exact h2.ret ⟨rfl, hdrop h2⟩
    split
    · exact h2.ret ⟨rfl, hdrop h2⟩
    rw [Allocations.get, Prog.select, Prog.lift_stmt]
    refine seq (select h2 ?_)
    intro c3 h3
    split
    · exact h3.ret ⟨rfl, hdrop h3⟩
    split
    · exact h3.ret ⟨rfl, hdrop h3⟩
    · exact h3.ret ⟨rfl, h3⟩

theorem noLiveRun_of_count {v : store.Db} (h : ¬ liveRunsOf v.2 systemId > 0) : NoLiveRun v systemId := by
  intro id r hr hsys
  have hzero : liveRunsOf v.2 systemId = 0 := by omega
  have := countP_eq_zero.mp hzero r (Table.mem_of_get hr)
  simpa [hsys] using this

theorem preconditions_does {targets : CreateTargets} (h : Doing as F l c)
    (hk : .inl (.system targets.systemId) ∈ l.locks) :
    Does protocol (preconditionsBlockResponse targets project) l c fun blocked l' c' =>
      l' = l ∧ Doing as F l c' ∧ (blocked = none → Doing as
          (fun v => F v ∧ Idle targets.systemId v ∧ SystemOf v targets.systemId project) l c') := by
  refine seq (select h ?_)
  intro c1 h1
  cases hrow : (systems.rows (protocol.effs as c1)).get targets.systemId with
  | none => exact h1.ret ⟨rfl, h1, by simp⟩
  | some system =>
    dsimp only
    split
    · exact h1.ret ⟨rfl, h1, by simp⟩
    rename_i hblock
    have hstate : system.state = .ready := by
      unfold systemBlockResponse at hblock
      split at hblock <;> simp_all
    have hready : Kept protocol l.locks fun v => Ready v targets.systemId :=
      fun _ _ _ hK hr _ _ hv => hr.ready (hK hk) hv
    have hof : Kept protocol l.locks fun v => SystemOf v targets.systemId system.project :=
      fun _ _ _ _ hr _ _ hv => hr.systemOf hv
    have h1' := h1.know (hready.and hof) ⟨⟨system, hrow, hstate⟩, system, hrow, rfl⟩
    rw [Allocations.get, Prog.select, Prog.lift_stmt]
    refine seq (select h1' ?_)
    intro c2 h2
    refine seq (h2.ask ?_)
    intro x
    have hdrop : ∀ {c'}, Doing as (fun v => F v ∧ Ready v targets.systemId ∧
        SystemOf v targets.systemId system.project) l c' → Doing as F l c' :=
      fun h' => h'.conseq h.kept fun _ _ hv => hv.1
    split
    · exact h2.ret ⟨rfl, hdrop h2, by simp⟩
    split
    · exact h2.ret ⟨rfl, hdrop h2, by simp⟩
    rename_i hproject
    rw [not_not] at hproject
    refine seq (select h2 ?_)
    intro c3 h3
    split
    · exact h3.ret ⟨rfl, hdrop h3, by simp⟩
    rename_i hcount
    refine h3.ret ⟨rfl, hdrop h3, fun _ => ?_⟩
    have hnone : Kept protocol l.locks fun v => NoLiveRun v targets.systemId :=
      fun _ _ _ hK hr _ _ hv => hr.noLiveRun (hK hk) hv
    rw [← hproject]
    refine (h3.know hnone (noLiveRun_of_count hcount)).conseq (h.kept.and ((kept_idle hk).and hof)) ?_
    exact fun _ _ hv => ⟨hv.1.1, ⟨hv.1.2.1, hv.2⟩, hv.1.2.2⟩

theorem flip_does {inv : Investigation} (h : Doing as (investigations.Sees id inv) l c)
    (hk : .inr (.investigation id) ∈ l.locks) :
    Does protocol (flipInvestigationIfOpen ctx inv id project) l c fun _ l' c' => ∃ bs ts,
      (bs = [] ∨ ∃ r, (Change.investigation id .isOpen .active).Recorded r ∧
        bs = [.investigation id .isOpen .active, .audit r]) ∧
      (∀ b ∈ ts, b.silent = true) ∧ Doing (as ++ bs ++ ts) (fun _ => True) l' c' := by
  -- the update of the last column, whatever came before it
  have htouch : ∀ {bs l c}, Doing (as ++ bs) (fun _ => True) l c →
      Does protocol (investigations.update id (fun _ => true) fun now =>
        .inr (.patchInvestigation id (.lastRunAt now))) l c fun _ l' c' => ∃ ts,
          (∀ b ∈ ts, b.silent = true) ∧ Doing (as ++ bs ++ ts) (fun _ => True) l' c' := by
    intro bs l c h
    refine update (a := fun _ => .touch id l.now) (G := fun _ _ => True) h (fun _ => rfl) ?_ ?_ ?_
    · exact fun _ _ => .last (subset_append_right _ _) fun _ _ _ => trivial
    · intro l' c' _ _ h'
      exact ⟨[], fun _ hb => absurd hb not_mem_nil, by rwa [append_nil]⟩
    · intro _ l' c' _ _ _ _ _ _ h'
      exact ⟨_, fun b hb => mem_singleton.mp hb ▸ rfl, h'⟩
  unfold flipInvestigationIfOpen
  split
  · rename_i hopen
    refine seq (updateState (a := fun row => .investigation id row.state .active)
      (G := fun _ _ => True) lawful_investigations h (fun _ => rfl) ?_ ?_)
    · intro row hlegal K hK hrow
      exact fits_investigation (hK hk) hrow (fun v hv => ⟨row, hv.2, rfl⟩) (ok_of_ensure hlegal)
    · intro row l1 c1 v _ _ _ hsees hsees' h1
      rw [hsees'.eq hsees, hopen] at h1
      refine .seq (Doing.audit h1 (fun _ _ hv => hv) ?_)
      intro l2 c2 _ h2
      rw [append_assoc] at h2
      refine bind (htouch h2) ?_
      rintro _ l3 c3 - ⟨ts, hts, h3⟩
      exact h3.ret ⟨_, ts, .inr ⟨_, ⟨rfl, rfl, text_one rfl⟩, rfl⟩, hts, h3⟩
  · have h' : Doing (as ++ []) (fun _ => True) l c := by
      rw [append_nil]
      exact h.conseq .trivial fun _ _ _ => trivial
    refine bind (htouch h') ?_
    rintro _ l1 c1 - ⟨ts, hts, h1⟩
    exact h1.ret ⟨[], ts, .inl rfl, hts, h1⟩

theorem createLocked_does {targets : CreateTargets} {profile : BuildProfile}
    (h : Doing [] (fun v => True ∧ InvestigationOf v targets.investigationId project) l c) :
    Does protocol (createLocked ctx targets profile project) l c fun _ => Complete := by
  refine savepoint h tidy_nil ?_
  intro l h
  refine seq (lock h ?_)
  intro l1 c1 _ h1 _
  refine seq (lock h1 ?_)
  intro l2 c2 hsys h2 _
  refine seq (lock h2 ?_)
  intro l3 c3 hinv h3 hx3
  have hsys3 := hx3.mem_locks hsys
  refine bind (preconditions_does h3 hsys3) ?_
  rintro blocked _ c4 - ⟨rfl, h4, hmay⟩
  cases blocked with
  | some => exact stop h4
  | none =>
    have h4 := hmay rfl
    refine seq (h4.ask ?_)
    intro x
    split
    · exact stop h4
    refine seq (getForUpdate lawful_investigations h4 ?_ ?_)
    · intro l5 c5 _ h5
      exact stop h5
    intro inv l5 c5 hx5 hrow h5
    dsimp only
    split
    · exact stop h5
    refine seq (seq (h5.ask ?_))
    intro x
    refine seq (insert (a := .newRun _)
      (G := investigations.Sees targets.investigationId inv) h5 rfl ⟨?_, ?_, ?_, ?_⟩ ?_)
    · intro k hk
      simp only [Act.need, mem_cons, not_mem_nil, or_false] at hk
      rcases hk with rfl | rfl
      · exact mem_append_left _ (hx5.mem_locks hsys3)
      · exact mem_append_right _ mem_cons_self
    · rintro v - ⟨⟨⟨⟨-, hof⟩, ⟨hready, hsingle⟩, hsystem⟩, -⟩, hfresh⟩
      exact ⟨hfresh, rfl, hready, hsingle, hof, hsystem⟩
    · exact StatefulRepository.kept_sees lawful_investigations (mem_append_left _ hrow)
    · exact fun v _ hv _ => hv.1.2
    intro l6 c6 hx6 _ h6
    refine .seq (Doing.audit h6 (fun _ _ hv => hv) ?_)
    intro l7 c7 hx7 h7
    refine h7.ret (bind (flip_does h7 (hx7.mem_locks (hx6.mem_locks (hx5.mem_locks hinv)))) ?_)
    rintro _ l8 c8 - ⟨bs, ts, hbs, hts, h8⟩
    refine h8.ret (complete h8 (Tidy.append_silent ?_ hts))
    rcases hbs with rfl | ⟨r, hr, rfl⟩
    · exact tidy_audit.cons_silent rfl
    · refine Tidy.cons_silent (Tidy.cons_audit (tidy_change rfl hr) ?_) rfl
      intro ch hch
      obtain rfl : ch = .investigation targets.investigationId .isOpen .active := by
        simpa [Act.change] using hch
      exact fun hrec => absurd hrec.1 (show "runs" ≠ "investigations" by decide)

theorem createRun_top {investigationId : Uuid} {profile : BuildProfile} (hc : Sound c) :
    Tame protocol (createRun ctx investigationId systemId profile) c := by
  refine connection_top trivial hc ?_
  intro l h
  refine bind (resolveTargets_does h) ?_
  rintro found _ c1 - ⟨rfl, h1⟩
  cases found with
  | error => exact stop h1
  | ok found =>
    obtain ⟨targets, project⟩ := found
    exact createLocked_does h1

/-! ## `runs.build` -/

def Hosted (host : BuildHost) (v : store.Db) : Prop := v.2.buildHosts.get host.id = some host

theorem kept_hosted {host : BuildHost} : Kept protocol K (Hosted host) := by
  intro H v v' _ hr _ _ hv
  rwa [Hosted, Rely.buildHosts hr]

variable {runId : Uuid}

theorem resolveAndAdmit_does {buildHost : Option String} {git : Bool} (h : Doing [] F l c) :
    Does protocol (resolveAndAdmit buildHost git runId) l c fun host l' c' => ∃ bs,
      (∀ b ∈ bs, b = .newLease ⟨runId, host.id⟩) ∧ Doing bs (fun _ => True) l' c' := by
  refine seq (select h ?_)
  intro c1 h1
  cases hfind : (protocol.effs [] c1).2.buildHosts.rows.find? (·.name = buildHost.getD "worker-local") with
  | none => exact h1.raise
  | some host =>
    have hhost : Hosted host (protocol.effs [] c1) :=
      Table.get_key_of_mem (mem_of_find?_eq_some hfind)
    have h1' := h1.know kept_hosted hhost
    dsimp only
    split
    · exact h1.raise
    split
    · refine seq (tryAcquireLease h1' (fun _ hv => hv.2) ?_ ?_)
      · intro l2 c2 _ h2
        exact seq h2.raise
      · intro bs l2 c2 _ hbs h2
        exact seq (h2.ret (h2.ret ⟨bs, hbs, h2⟩))
    · refine h1.ret ⟨[], fun _ hb => absurd hb not_mem_nil, ?_⟩
      exact h1.conseq .trivial fun _ _ _ => trivial

theorem kept_started : Kept protocol K fun v => Started v runId :=
  fun _ _ _ _ hr _ _ hv => hr.started hv

theorem fits_run {row : Run} {p : RunPatch} (hk : .inr (.runRow id) ∈ K) (hF : ∀ v, F v → runs.Sees id row v)
    (hmoves : ∀ v, F v → RunMoves row p.target) (htarget : p.target ≠ .created) :
    Fits K F (.run id row.state p) fun v => Started v id := by
  refine ⟨?_, fun v _ hv => ⟨row, hF v hv, rfl, hmoves v hv⟩, kept_started, ?_⟩
  · intro k hk'
    rwa [mem_singleton.mp hk']
  · intro v _ hv _
    refine ⟨p.apply row, ?_, ?_⟩
    · refine ((TableWrite.patchRun id p).get_runs v.2 id).trans ((if_pos rfl).trans ?_)
      rw [show v.2.runs.get id = some row from hF v hv]
      rfl
    · rwa [p.state_apply]

variable {run : Run} {cmdline : Option String}

theorem buildJob_does {bs cs : List Act} {host : BuildHost}
    (h : Doing (bs ++ cs) (fun v => Started v run.id) l c) (hbs : ∀ b ∈ bs, b = .newLease ⟨run.id, host.id⟩)
    (hcs : Tidy cs) : Does protocol (Queue.enqueue (.build run.id cmdline) (.build run.id)) l c fun _ => Complete := by
  refine Doing.enqueue h ?_ ?_ ?_
  · rintro v - hv runId ⟨⟩
    exact hv
  · rintro runId ⟨⟩
    exact ⟨cmdline, rfl⟩
  · intro job js l1 c1 _ hjs h1
    have h2 : Doing (bs ++ cs ++ js ++ [.backed run.id]) (fun v => HasJob v (.build run.id)) l1 c1 :=
      During.note h1 rfl (nil_subset _) fun _ _ hv => hv
    rw [append_assoc, append_assoc] at h2
    refine complete h2 (Tidy.leases ?_ hbs ?_)
    · refine hcs.append_silent ?_
      intro b hb
      rcases mem_append.mp hb with hb | hb
      · obtain ⟨j, rfl⟩ := hjs b hb
        rfl
      · rw [mem_singleton.mp hb]
        rfl
    · exact mem_append_right _ (mem_append_right _ mem_cons_self)

theorem buildAdmitted_does {buildHost : Option String} {git : Bool} (h : Doing [] (fun _ => True) l c) :
    Does protocol (buildAdmitted ctx run cmdline buildHost git) l c fun _ => Complete := by
  refine seq (lock h ?_)
  intro l1 c1 _ h1 _
  refine bind (resolveAndAdmit_does h1) ?_
  rintro host l2 c2 - ⟨bs, hbs, h2⟩
  refine seq (getForUpdate lawful_runs h2 (fun _ _ _ h' => h'.raise) ?_)
  intro row l3 c3 _ hrow h3
  dsimp only
  split
  · exact seq h3.raise
  split
  · rename_i hcreated
    have hstate : row.state = .created := by simpa using hcreated
    refine seq (updateSeen (a := .run run.id row.state (.state .running)) (G := fun v => Started v run.id) h3
      (fun v hv => hv.2) (by simpa using hstate) rfl ?_ ?_)
    · refine fits_run (mem_append_right _ mem_cons_self) (fun v hv => hv.2) ?_ (by decide)
      intro _ _
      exact .inl (by rw [hstate]; rfl)
    · intro l4 c4 h4
      rw [hstate] at h4
      refine .seq (Doing.audit h4 (fun _ _ hv => hv) ?_)
      intro l5 c5 _ h5
      rw [append_assoc] at h5
      exact buildJob_does h5 hbs (tidy_change rfl ⟨rfl, rfl, text_one rfl⟩)
  · rename_i hcreated
    have h3' : Doing (bs ++ []) (fun v => Started v run.id) l3 c3 := by
      rw [append_nil]
      exact h3.conseq kept_started fun v _ hv => ⟨row, hv.2, hcreated⟩
    exact buildJob_does h3' hbs tidy_nil

theorem buildRun_top (hc : Sound c) : Tame protocol (buildRun ctx runId cmdline) c := by
  refine connection_top trivial hc ?_
  intro l h
  refine seq (select h ?_)
  intro c1 h1
  split
  · exact stop h1
  split
  · exact stop h1
  split
  · exact stop h1
  refine seq (h1.ask ?_)
  intro x
  split
  · exact stop h1
  refine attemptDoes (block h1 tidy_nil fun h' => buildAdmitted_does h') ?_ ?_
  · intro _ l2 c2 h2 _
    exact ret h2.good h2.inv h2
  · intro e l2 c2 h2
    split
    · cases ‹_›
    · exact ret h2.good h2.inv h2
    · exact raise h2.good h2.inv

/-! ## `runs.complete_build` -/

def External (id : Uuid) (v : store.Db) : Prop :=
  ∃ r, v.2.runs.get id = some r ∧ r.buildProfile = .external

theorem kept_external : Kept protocol K (External id) := by
  rintro H v v' - hr - - ⟨r, hr', hprofile⟩
  obtain ⟨r', hr'', hf⟩ := Rely.run_persists hr hr'
  exact ⟨r', hr'', hf.profile.trans hprofile⟩

theorem elsewhere_does {R : Post store Unit} (h : Doing as F l c)
    (hR : ∀ c', Doing as F l c' → R () l c') : Does protocol elsewhere.lift l c R := by
  rw [elsewhere, Prog.select, Prog.lift_stmt]
  exact select h hR

theorem finalizeExternal_does {output : Jobs.BuildOutput}
    {initrd : Option String} {cmdline : String} (h : Doing [] (External run.id) l c) :
    Does protocol (finalizeExternalBuild ctx run output initrd cmdline) l c fun _ => Complete := by
  refine savepoint h tidy_nil ?_
  intro l h
  refine seq (lock h ?_)
  intro l1 c1 _ h1 _
  refine seq (getForUpdate lawful_runs h1 ?_ ?_)
  · intro l2 c2 _ h2
    exact stop h2
  intro row l2 c2 _ hrow h2
  dsimp only
  split
  · refine seq (select h2 ?_)
    intro c3 h3
    exact stop h3
  split
  · exact stop h2
  rename_i hcreated
  refine seq (elsewhere_does h2 ?_)
  intro c3 h3
  refine .seq (Doing.recordBuild h3 (fun _ _ hv => hv) ?_)
  intro ss l4 c4 hx4 hss h4
  have hstate : row.state = .created := by simpa using hcreated
  refine seq (updateSeen (G := fun v => Started v run.id)
    (a := .run run.id row.state (.succeeded (some output.kernelRef)
      (if output.debuginfoRef = "" then none else some output.debuginfoRef))) h4 (fun v hv => hv.2)
    (by simpa using hstate) rfl ?_ ?_)
  · refine fits_run (mem_append_right _ mem_cons_self) (fun v hv => hv.2) ?_
      (show RunState.succeeded ≠ .created by decide)
    rintro v ⟨⟨r, hr, hprofile⟩, hsees⟩
    cases hr.symm.trans hsees
    exact .inr ⟨hprofile, hstate, rfl⟩
  · intro l5 c5 h5
    rw [hstate] at h5
    refine .seq (Doing.audit h5 (fun _ _ hv => hv) ?_)
    intro l6 c6 _ h6
    refine seq (elsewhere_does h6 ?_)
    intro c7 h7
    refine h7.ret (complete h7 ?_)
    rw [append_assoc]
    refine Tidy.silent_append (tidy_change rfl ⟨rfl, rfl, text_one rfl⟩) ?_
    intro b hb
    obtain ⟨s, rfl⟩ := hss b hb
    rfl

theorem completeBuild_top {cmdline : String} (hc : Sound c) : Tame protocol (completeBuild ctx runId cmdline) c := by
  refine connection_top trivial hc ?_
  intro l h
  refine seq (select h ?_)
  intro c1 h1
  cases hrow : (runs.rows (protocol.effs [] c1)).get runId with
  | none => exact stop h1
  | some run =>
    dsimp only
    split
    · exact stop h1
    have hid : run.id = runId := Table.key_eq_of_get hrow
    have hknow : run.buildProfile = .external → Doing [] (External run.id) l c1 := fun hext =>
      (h1.know kept_external ⟨run, hid ▸ hrow, hext⟩).conseq kept_external fun _ _ hv => hv.2
    by_cases hext : run.buildProfile = .external
    · refine seq (select (hknow hext) ?_)
      intro c2 h2
      split
      · exact stop h2
      rw [if_neg (not_not.mpr hext)]
      split
      · exact stop h2
      refine seq (elsewhere_does h2 ?_)
      intro c3 h3
      refine seq (h3.ask ?_)
      intro x
      split
      · exact stop h3
      · exact h3.raise
      · exact finalizeExternal_does h3
    · refine seq (select h1 ?_)
      intro c2 h2
      split
      · exact stop h2
      rw [if_pos hext]
      exact stop h2

/-! ## `runs.install` and `runs.boot` -/

theorem stepRun_top {payload : Payload} {key : DedupKey}
    {step tool : String} (hc : Sound c) (hpayload : payload.runId = some runId) (hkey : ∀ runId, key ≠ .build runId) :
    Tame protocol (stepRun ctx runId payload key step tool) c := by
  refine connection_top trivial hc ?_
  intro l h
  refine seq (select h ?_)
  intro c1 h1
  cases hrow : (runs.rows (protocol.effs [] c1)).get runId with
  | none => exact stop h1
  | some run =>
    dsimp only
    split
    · exact stop h1
    split
    · exact stop h1
    have hstarted : Started (protocol.effs [] c1) runId := ⟨run, hrow, by simp_all⟩
    have h1' := h1.know kept_started hstarted
    refine seq (h1.ask ?_)
    intro x
    split
    · exact stop h1
    refine savepoint h1' tidy_nil ?_
    intro l h2
    refine seq (lock h2 ?_)
    intro l3 c3 _ h3 _
    refine .seq (Doing.enqueue h3 ?_ (fun id hid => absurd hid (hkey id)) ?_)
    · intro v _ hv id hid
      cases hpayload.symm.trans hid
      exact hv.2
    intro job js l4 c4 _ hjs h4
    refine .seq (Doing.audit h4 (fun _ _ hv => hv) ?_)
    intro l5 c5 _ h5
    refine h5.ret (complete h5 (tidy_audit.silent_append ?_))
    intro b hb
    obtain ⟨j, rfl⟩ := hjs b hb
    rfl

/-! ## `build_handler` -/

variable {job : Authorizing}

theorem failBuild_keeps {category : ErrorCategory} (h : Doing [] F l c) :
    Keeps protocol Tidy (failBuild job run category) l c fun _ _ _ => True := by
  have hblock : Keeps protocol Tidy (Prog.transaction (failBuildLocked job run category)) l c
      fun _ _ _ => True := by
    refine block h tidy_nil ?_
    intro h
    refine seq (lock h ?_)
    intro l1 c1 _ h1 _
    have hrest : ∀ {bs l c}, Doing bs (fun _ => True) l c →
        (∀ r, (Change.run run.id .running .failed).Recorded r → Tidy (bs ++ [.audit r])) →
        Does protocol (failBuildRecorded job run) l c fun _ => Complete := by
      intro bs l c h htidy
      refine seq (select h ?_)
      intro c' h'
      split
      · exact h'.raise
      split
      · exact seq h'.raise
      refine Doing.audit h' (fun _ _ hv => hv) ?_
      intro l'' c'' _ h''
      exact complete h'' (htidy _ ⟨rfl, rfl, text_one rfl⟩)
    refine seq (update (a := fun row => .run run.id row.state (.failed category))
      (G := fun _ _ => True) h1 (fun _ => rfl) ?_ ?_ ?_)
    · intro row hcond
      have hstate : row.state = .running := by simpa using hcond
      refine .last ?_ fun v _ hv => ⟨row, hv.2, rfl, .inl ?_⟩
      · exact subset_append_right _ _
      · rw [hstate]
        rfl
    · intro l2 c2 _ _ h2
      exact hrest (h2.conseq .trivial fun _ _ _ => trivial) fun r _ => tidy_audit
    · intro row l2 c2 v _ _ hcond _ _ h2
      have hstate : row.state = .running := by simpa using hcond
      rw [hstate] at h2
      exact hrest h2 fun r hr => tidy_change rfl hr
  refine attempt hblock ?_ ?_
  · intro _ l1 c1 _ h1 _
    exact ret h1 trivial
  · intro e l1 c1 _ h1
    split
    · exact ret h1 trivial
    · exact ret h1 trivial
    · exact raise h1

theorem finalizeBuild_does {result : Jobs.BuildStepResult} (h : Doing [] F l c) :
    Does protocol (finalizeBuild job run result) l c fun _ => Complete := by
  have hsilent : ∀ {ss : List Act}, (∀ b ∈ ss, ∃ s, b = .newStep s) → ∀ b ∈ ss, b.silent = true := by
    intro ss hss b hb
    obtain ⟨s, rfl⟩ := hss b hb
    rfl
  refine savepoint (h.conseq .trivial fun _ _ _ => trivial) tidy_nil ?_
  intro l h
  refine seq (lock h ?_)
  intro l1 c1 _ h1 _
  refine .seq (Doing.recordBuild h1 (fun _ _ hv => hv) ?_)
  intro ss l2 c2 _ hss h2
  refine seq (getForUpdate lawful_runs h2 ?_ ?_)
  · intro l3 c3 _ h3
    exact h3.ret (complete h3 (tidy_silent (hsilent hss)))
  intro row l3 c3 _ hrow h3
  dsimp only
  split
  · exact h3.ret (complete h3 (tidy_silent (hsilent hss)))
  rename_i hrunning
  have hstate : row.state = .running := by simpa using hrunning
  refine seq (updateSeen (a := .run run.id row.state (.succeeded result.kernelRef result.debuginfoRef))
    (G := fun _ => True) h3 (fun v hv => hv.2) (by simpa using hstate) rfl ?_ ?_)
  · refine .last (subset_append_right _ _) fun v _ hv => ⟨row, hv.2, rfl, .inl ?_⟩
    rw [hstate]
    rfl
  · intro l4 c4 h4
    rw [hstate] at h4
    refine Doing.audit h4 (fun _ _ hv => hv) ?_
    intro l5 c5 _ h5
    rw [append_assoc] at h5
    exact complete h5 ((tidy_change rfl ⟨rfl, rfl, text_one rfl⟩).silent_append (hsilent hss))

theorem releaseBuildLease_keeps (h : Complete l c) :
    Keeps protocol Tidy (releaseBuildLease runId) l c fun _ _ _ => True := by
  obtain ⟨as, htidy, h⟩ := h
  have hblock : Keeps protocol Tidy (Prog.transaction (BuildHosts.releaseLease runId)) l c
      fun _ _ _ => True := by
    refine block h htidy ?_
    intro h
    refine deleteLeases h ?_
    intro _ bs l1 c1 _ hbs h1
    refine complete h1 (htidy.append_silent ?_)
    intro b hb
    obtain ⟨id, rfl⟩ := hbs b hb
    rfl
  refine attempt hblock ?_ ?_
  · intro _ l1 c1 _ h1 _
    exact ret h1 trivial
  · intro e l1 c1 _ h1
    exact ret h1 trivial

theorem buildAndRecord_ends (h : Doing [] F l c) :
    Ends protocol (buildAndRecord job run cmdline) l c fun _ l' c' => Doing [] F l' c' := by
  refine .bind (S := fun _ l' c' => Doing [] F l' c') (.of_does (elsewhere_does h fun _ h' => h')) ?_
  intro _ l1 c1 hc1 h1
  refine .bind (S := fun _ l' c' => Doing [] F l' c') (.of_does (h1.ask fun _ => h1)) ?_
  intro answer l2 c2 hc2 h2
  split
  · exact .of_does (h2.ret h2)
  · refine .bind (.of_does (failBuild_keeps h2).does) ?_
    rintro _ l3 c3 hc3 ⟨h3, -⟩
    refine .commit_raise ?_ (Complete.commits h3) hc3
    intro r
    cases r with
    | ok _ => exact ⟨_, rfl⟩
    | error => exact ⟨_, rfl⟩
  · exact .of_does h2.raise

theorem buildHandler_top (hc : Sound c) : Tame protocol (buildHandler job runId cmdline) c := by
  refine .connection (.ending trivial hc fun t h => ?_) fun _ _ _ _ => trivial
  refine .bind (S := fun _ l' c' => Doing [] (fun _ => True) l' c') (.of_does (select h fun _ h' => h')) ?_
  intro found l1 c1 _ h1
  split
  · exact .of_does h1.raise
  split
  · exact .of_does (seq h1.raise)
  refine .bind (S := fun _ l' c' => Doing [] (fun _ => True) l' c') ?_ ?_
  · refine .bind (S := fun _ l' c' => Doing [] (fun _ => True) l' c')
      (.of_does (select h1 fun _ h' => h')) ?_
    intro existing l2 c2 _ h2
    split
    · exact .of_does (h2.ret h2)
    · exact buildAndRecord_ends h2
  intro result l2 c2 _ h2
  refine .of_does (bind (finalizeBuild_does h2) ?_)
  intro _ l3 c3 _ h3
  exact (releaseBuildLease_keeps h3).does.mono fun _ _ _ _ h4 => Complete.commits h4.1
end Runs
end Kdive.Platform
