import Kdive.Platform.Proof.Systems

/-! # Every entry point follows the discipline

The queue, the reconciler's repairs, and then `client_safe`: whatever a client of the platform does, it
does as `Kdive.Platform.Protocol` says. The entry points of `Kdive.Mcp.Tools` run on the larger database as
they did on theirs.
-/

namespace Kdive.Platform
open Lib Does Doing Repositories Queue Top List Bool
open Doing (Complete)
open Jobs (JobRow Payload DedupKey WorkerId)
open Kdive.Platform.Systems Prog

variable {as : List Act} {F : store.Db → Prop} {l : Conn store} {c : store.Db}

theorem silent_newJobs {bs : List Act} (h : ∀ b ∈ bs, ∃ j, b = .newJob j) : ∀ b ∈ bs, b.silent = true := by
  intro b hb
  obtain ⟨j, rfl⟩ := h b hb
  rfl

theorem enqueue_top {request : JobRequest} (hc : Sound c) :
    Tame protocol (connection (Queue.enqueue request.payload request.dedupKey)) c := by
  refine connection_own_top hc ?_
  intro l h
  refine (enqueueBlock h ?_ ?_).mono ?_
  · cases request <;> simp [JobRequest.payload, Payload.runId]
  · cases request <;> simp [JobRequest.dedupKey]
  · rintro _ l1 c1 - ⟨bs, hbs, h1⟩
    exact complete h1 (tidy_silent (silent_newJobs hbs))

def RunStarted (found : Option JobRow) (v : store.Db) : Prop :=
  ∀ j runId, found = some j → j.payload.runId = some runId → Started v runId

theorem kept_runStarted {K : List store.Key} {found : Option JobRow} : Kept protocol K (RunStarted found) :=
  fun _ _ _ _ hr _ _ hv j runId hj hrun => hr.started (hv j runId hj hrun)

theorem fits_job {K : List store.Key} {id : Uuid} {j : JobRow} {p : JobPatch}
    (hk : .inr (.jobRow id) ∈ K) (hF : ∀ v, F v → jobs.Sees id j v)
    (hp : p.target j.state = j.state ∨ j.state.canTransition (p.target j.state) = true) :
    Fits K F (.job id p) (RunStarted (some j)) := by
  refine ⟨?_, fun v _ hv => ⟨j, hF v hv, hp⟩, kept_runStarted, ?_⟩
  · intro k hk'
    rwa [mem_singleton.mp hk']
  · rintro v hv hFv - _ runId ⟨⟩ hrun
    exact (hv.jobs id j (hF v hFv)).2 runId hrun

theorem updateJob_does {id : Uuid} {cond : JobRow → Bool} {p : Time → JobPatch} (h : Doing as F l c)
    (hp : ∀ j now, cond j = true → (p now).target j.state = j.state ∨
      j.state.canTransition ((p now).target j.state) = true) :
    Does protocol (jobs.update id cond fun now => .inr (.patchJob id (p now))) l c
      fun found l' c' => ∃ bs, (∀ b ∈ bs, b.silent = true) ∧ Doing (as ++ bs) (RunStarted found) l' c' := by
  refine update (a := fun _ => .job id (p l.now)) (G := fun row => RunStarted (some row)) h (fun _ => rfl) ?_ ?_ ?_
  · exact fun row hcond =>
      fits_job (mem_append_right _ mem_cons_self) (fun v hv => hv.2) (hp row l.now hcond)
  · intro l' c' _ _ h'
    refine ⟨[], fun _ hb => absurd hb not_mem_nil, ?_⟩
    rw [append_nil]
    exact h'.conseq kept_runStarted fun _ _ _ _ _ hj => by cases hj
  · intro row l' c' _ _ _ _ _ _ h'
    exact ⟨_, fun b hb => mem_singleton.mp hb ▸ rfl, h'⟩

theorem updateFenced_top {id : Uuid} {worker : WorkerId} {p : Time → JobPatch} (hc : Sound c)
    (hp : ∀ now, (p now).target .running = .running ∨ JobState.running.canTransition ((p now).target .running) = true) :
    Tame protocol (connection (updateFenced id worker p)) c := by
  refine connection_own_top hc ?_
  intro l h
  refine bind (updateJob_does h ?_) ?_
  · intro j now hcond
    have hrunning : j.state = .running := by simpa [Jobs.Queue.fenced] using (and_eq_true_iff.mp hcond).2
    rw [hrunning]
    exact hp now
  · rintro row l1 c1 - ⟨bs, hbs, h1⟩
    exact h1.ret (complete h1 (tidy_silent hbs))

theorem dequeue_top {worker : WorkerId} (hc : Sound c) : Tame protocol (connection (dequeue worker)) c := by
  refine connection_own_top hc ?_
  intro l h
  refine seq (h.ask ?_)
  intro x
  refine step h ?_
  intro c1 ws v h1 hv hact
  cases hact
  cases hpick : Jobs.Queue.pick v.2.jobs l.now x.2.skipped with
  | none => exact .inl ⟨by simp, fun l' _ h' => complete h' tidy_nil⟩
  | some j =>
    have hmem := mem_filter.mp (argmin_mem hpick)
    have hrow : jobs.Sees j.id j v := Table.get_key_of_mem hmem.1
    refine .inr ⟨.job j.id (.claim worker l.now Jobs.Queue.defaultLease),
      jobs.Sees j.id j, RunStarted (some j), by simp; rfl, hrow,
      fits_job ?_ (fun _ hv => hv) ?_, ?_⟩
    · exact mem_append_right _ (by simp [claimStmt, hpick])
    · have hclaim : j.state = .queued ∨ j.state = .running := by
        have := (and_eq_true_iff.mp (and_eq_true_iff.mp hmem.2).1).1
        rcases or_eq_true_iff.mp this with hq | hr
        · exact .inl (by simpa using hq)
        · exact .inr (by simpa using (and_eq_true_iff.mp hr).1)
      rcases hclaim with hq | hr
      · rw [hq]
        exact .inr rfl
      · rw [hr]
        exact .inl rfl
    · intro l' _ _ h'
      exact complete h' (tidy_silent fun b hb => mem_singleton.mp hb ▸ rfl)

theorem cancelJob_top {id : Uuid} : Tame protocol (cancelJob id) c := by
  refine bind read_top ?_ fun _ _ _ _ _ => trivial
  intro found c1 _ hc1 _
  split
  · exact ret hc1 trivial
  have hupdate : Top protocol (connection (jobs.updateState id .canceled)) c1
      fun _ _ => True := by
    refine connection_own_top hc1 ?_
    intro l h
    refine updateStateBlock (a := fun _ => .job id (.state .canceled))
      (G := fun row => RunStarted (some row)) lawful_jobs h (fun _ => rfl) ?_ ?_
    · exact fun row hlegal K _ hk => fits_job hk (fun v hv => hv.2) (.inr (ok_of_ensure hlegal))
    · intro row l1 c2 v _ _ _ _ h1
      exact complete h1 (tidy_silent fun b hb => mem_singleton.mp hb ▸ rfl)
  refine attempt hupdate ?_
  intro r c2 _ hc2 _
  split
  · exact ret hc2 trivial
  · exact ret hc2 trivial
  · refine bind read_top ?_ fun _ _ _ _ _ => trivial
    intro current c3 _ hc3 _
    exact ret hc3 trivial
  · exact raise hc2 trivial

/-! ## The reconciler -/

namespace Reconciler
theorem compensate_does {runId : Uuid} (h : Doing as F l c) (hA : Tidy as) (hrun : ∀ v, F v → Started v runId) :
    Does protocol (stmt (compensateStmt runId) fun _ _ => ()) l c fun _ => Complete := by
  refine step h ?_
  intro c1 ws v h1 hv hact
  cases hact
  cases hlive : (v.2.runs.get runId).any (·.state.live) with
  | false => exact .inl ⟨by simp, fun l' _ h' => complete h' hA⟩
  | true =>
    obtain ⟨r, hr, hs⟩ := hrun v (hv ▸ h1.fact)
    have hrunning : r.state = .running := by
      rw [hr] at hlive
      have : r.state.live = true := hlive
      generalize r.state = s at this hs ⊢
      cases s <;> simp_all [RunState.live]
    refine .inr ⟨.repairRun runId .leaseExpired, fun v => ∃ r, v.2.runs.get runId = some r ∧
      r.state = .running, fun _ => True, by simp; rfl, ⟨r, hr, hrunning⟩, .last ?_ ?_, ?_⟩
    · intro k hk
      refine mem_append_right _ ?_
      simp only [compensateStmt, hlive, if_true]
      exact hk
    · exact fun _ _ hv => hv
    · intro l' _ _ h'
      exact complete h' (hA.append_silent fun b hb => mem_singleton.mp hb ▸ rfl)

theorem repairAbandonedJobs_top (hc : Sound c) : Tame protocol repairAbandonedJobs c := by
  refine bind (R := fun _ _ => True) (own_top hc fun l h => ?_) ?_ fun _ _ _ _ _ => trivial
  · exact select h fun _ h' => complete h' tidy_nil
  intro zombies c1 _ hc1 _
  refine foldEach (I := fun _ _ => True) ?_ (fun _ _ _ _ _ => trivial) (.refl _ _) hc1 trivial
  intro swept id c2 _ _ hc2 _
  refine bind (R := fun _ _ => True) (own_top hc2 fun l h => ?_) ?_ ?_
  · refine bind (updateJob_does h ?_) ?_
    · intro j now hcond
      have hrunning : j.state = .running := by simpa using hcond
      rw [hrunning]
      exact .inr rfl
    rintro found l1 c3 - ⟨bs, hbs, h1⟩
    split
    · exact h1.ret (complete h1 (tidy_silent hbs))
    rename_i job
    split
    · exact h1.ret (complete h1 (tidy_silent hbs))
    rename_i runId hrun
    refine bind (compensate_does h1 (tidy_silent hbs) fun v hv => hv job runId rfl hrun) ?_
    intro _ l2 c4 _ h2
    exact ret h2.good h2.inv h2
  · intro found c3 _ hc3 _
    exact ret hc3 ⟨fun _ _ => trivial, fun _ _ => trivial⟩
  · exact fun _ _ _ _ _ => ⟨fun _ _ => trivial, fun _ _ => trivial⟩

theorem detachDead_does {staleAfter : Time} (h : Doing [] F l c) :
    Does protocol (stmt (detachDeadStmt staleAfter) fun v now => deadSessions v.2 staleAfter now)
      l c fun _ => Complete := by
  refine During.perform h ?_
  intro c1 ws v _ _ hact
  cases hact
  have hmem : ∀ x ∈ deadSessions v.2 staleAfter l.now, v.2.sessions.get x.id = some x :=
    fun x hx => Table.get_key_of_mem (mem_filter.mp hx).1
  refine ⟨trivial, (deadSessions v.2 staleAfter l.now).map fun x => .repairSession x.id, ?_, ?_, ?_, ?_⟩
  · rw [flatMap_map]
    exact (flatMap_singleton' _).symm.trans (by rw [flatMap_map]; rfl)
  · intro b hb
    obtain ⟨x, hx, rfl⟩ := mem_map.mp hb
    intro k hk
    exact mem_append_right _ (mem_flatMap.mpr ⟨x, hx, hk⟩)
  · refine path_detach (fun _ => rfl) ?_ hmem
      (v.2.sessions.nodup.sublist (filter_sublist.map _))
    intro x hx v hv
    refine ⟨x, hv, ?_⟩
    exact of_decide_eq_true (and_eq_true_iff.mp (mem_filter.mp hx).2).1
  · intro l' _ _ hdone
    refine complete (hdone _ .trivial trivial) (tidy_silent ?_)
    intro b hb
    obtain ⟨x, -, rfl⟩ := mem_map.mp hb
    rfl

theorem hasLiveHolder_top {x : DebugSession} (hc : Sound c) : Tame protocol (hasLiveHolder x) c := by
  refine own_top hc ?_
  intro l h
  refine seq (select h ?_)
  intro c1 h1
  split
  · exact stop h1
  · exact select h1 fun _ h2 => complete h2 tidy_nil

theorem repairDeadSessions_top {staleAfter : Time} (hc : Sound c) :
    Tame protocol (repairDeadSessions staleAfter) c := by
  refine bind (own_top hc fun l h => detachDead_does h) ?_ fun _ _ _ _ _ => trivial
  intro rows c1 _ hc1 _
  refine bind (R := fun _ _ => True) (foldEach (I := fun _ _ => True) ?_
    (fun _ _ _ _ _ => trivial) (.refl _ _) hc1 trivial) ?_ fun _ _ _ _ _ => trivial
  · intro _ x c2 _ _ hc2 _
    refine bind (hasLiveHolder_top hc2) ?_ ?_
    · exact fun _ c3 _ hc3 _ => ret hc3 ⟨fun _ _ => trivial, fun _ _ => trivial⟩
    · exact fun _ _ _ _ _ => ⟨fun _ _ => trivial, fun _ _ => trivial⟩
  · exact fun _ c2 _ hc2 _ => ret hc2 trivial

theorem reclaimOrphanBuildHostLeases_top (hc : Sound c) : Tame protocol reclaimOrphanBuildHostLeases c := by
  refine own_top hc fun l h => deleteLeases h ?_
  intro _ bs l1 c1 _ hbs h1
  refine complete h1 (tidy_silent ?_)
  intro b hb
  obtain ⟨id, rfl⟩ := hbs b hb
  rfl
end Reconciler

/-! ## All of them -/

theorem repair_top {α : Type} {p : Async α} (h : Tame protocol p c) : Tame protocol (discard (connection p)) c :=
  discard_top (connection (.of_top h) fun _ _ _ _ => trivial)

/-- **Every entry point of the platform follows the discipline**, from any state in order and whatever the
    others do. -/
theorem client_safe (cfg : Config) (client : Client) : ClientSafe protocol (client.prog cfg) := by
  intro c hc
  cases client with
  | core client => exact ClientSafe.lift includes (safe_of_noneFixed client) c hc
  | openInvestigation => exact discard_top (Investigations.openInvestigation_top hc)
  | closeInvestigation => exact discard_top (Investigations.closeInvestigation_top hc)
  | createRun => exact discard_top (Runs.createRun_top hc)
  | buildRun => exact discard_top (Runs.buildRun_top hc)
  | completeBuild => exact discard_top (Runs.completeBuild_top hc)
  | installRun | bootRun => exact discard_top (Runs.stepRun_top hc rfl fun _ h => by cases h)
  | provisionDefined => exact discard_top provisionDefined_top
  | reprovision =>
    exact discard_top (orStatus_top (reprovisionLocked_top hc))
  | startSession => exact discard_top (Debug.startSession_top hc)
  | endSession => exact discard_top (Debug.endSession_top hc)
  | enqueue => exact discard_top (enqueue_top hc)
  | cancelJob => exact discard_top cancelJob_top
  | dequeue => exact discard_top (dequeue_top hc)
  | heartbeat => exact discard_top (updateFenced_top hc fun _ => .inl rfl)
  | complete => exact discard_top (updateFenced_top hc fun _ => .inr rfl)
  | fail =>
    refine discard_top (updateFenced_top hc fun _ => .inr ?_)
    split <;> rfl
  | buildHandler => exact Runs.buildHandler_top hc
  | reprovisionHandler => exact reprovisionHandler_top hc
  | forceCrashHandler => exact forceCrashHandler_top hc
  | repairAbandonedJobs => exact repair_top (Reconciler.repairAbandonedJobs_top hc)
  | repairDeadSessions => exact repair_top (Reconciler.repairDeadSessions_top hc)
  | reclaimOrphanBuildHostLeases =>
    exact repair_top (Reconciler.reclaimOrphanBuildHostLeases_top hc)
end Kdive.Platform
