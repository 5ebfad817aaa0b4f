import Kdive.Jobs.Workers

/-! # Claims, attempts and fences

Every write a worker makes on a job's row is fenced by its name and by the state `running`, and only a claim charges an
attempt: the row's attempts are its claims, its worker the last claimer (`jobs_fenced`). The reconciler selects the
jobs whose last lease has lapsed and dead-letters them later; a heartbeat in between does not save the job
(`abandoned_under_lease`). Where none comes, an abandoned job has no lease (`abandoned_lapsed`).
-/

namespace Kdive.Jobs
open Lib List Option Function Bool Table Queue Plane

variable {cfg : Config} {s s' : Plane} {m : Move} {id : Uuid} {job : JobRow}

def claimedBy (s : Plane) : Move → Option (Uuid × WorkerId)
  | .work now w (.dequeue locked) => (pick s.db.jobs now locked).map fun job => (job.id, w)
  | _ => none

def claims (past : List (Plane × Move)) (id : Uuid) : List WorkerId :=
  past.filterMap fun e => (claimedBy e.1 e.2).bind fun c => if c.1 = id then some c.2 else none

variable {past : List (Plane × Move)}

theorem claims_of_pick {now : Time} {w : WorkerId} {locked : Uuid → Bool}
    (hpick : pick s.db.jobs now locked = some job) :
    claims ((s, .work now w (.dequeue locked)) :: past) job.id = w :: claims past job.id := by
  simp [claims, claimedBy, hpick]

theorem claims_of_ne (h : ∀ now w locked, m = .work now w (.dequeue locked) → ∀ job,
      pick s.db.jobs now locked = some job → job.id ≠ id) : claims ((s, m) :: past) id = claims past id := by
  refine filterMap_cons_none ?_
  cases hclaimed : claimedBy s m with
  | none => rfl
  | some c =>
    -- only a `dequeue` claims
    have hne : c.1 ≠ id := by
      unfold claimedBy at hclaimed
      split at hclaimed
      · obtain ⟨job, hpick, rfl⟩ := map_eq_some_iff.mp hclaimed
        exact h _ _ _ rfl job hpick
      · cases hclaimed
    exact if_neg hne

/-- Every attempt of a job is a claim, and it runs under its last claimer. -/
structure Counted (past : List (Plane × Move)) (s : Plane) : Prop where
  row : ∀ {id job}, s.db.jobs.get id = some job →
    job.attempt ≤ job.maxAttempts ∧ job.attempt = (claims past id).length ∧
      (job.state = .running → job.workerId = (claims past id).head?)
  none : ∀ {id}, s.db.jobs.get id = none → claims past id = []

theorem counted_step (hI : Counted past s) (h : s.step cfg m = some s') : Counted ((s, m) :: past) s' := by
  refine ⟨fun {id job'} hjob' => ?_, fun {id} hnone' => ?_⟩
  · cases hjob : s.db.jobs.get id with
    | none =>
      obtain ⟨hnew, -, hm⟩ := row_new h hjob hjob'
      rw [claims_of_ne fun now w locked heq => absurd heq (hm now w locked), hI.none hjob,
        hnew.fresh.attempt, hnew.fresh.state]
      exact ⟨Nat.zero_le _, rfl, nofun⟩
    | some job =>
      obtain ⟨job1, hjob1, hchange⟩ := row_step h hjob
      cases hjob1.symm.trans hjob'
      obtain ⟨hmax, hcount, howner⟩ := hI.row hjob
      rcases hchange.claim_or with ⟨now, w, locked, rfl, -, hpick, rfl⟩ | ⟨hattempt, hrunning, hm⟩
      · obtain rfl : job.id = id := key_eq_of_get hjob
        have hclaimable := (of_pick hpick).2
        rw [claims_of_pick hpick]
        simp only [claimable, and_eq_true, decide_eq_true_eq] at hclaimable
        exact ⟨hclaimable.2, congrArg (· + 1) hcount, fun _ => rfl⟩
      · have hclaims : claims ((s, m) :: past) id = claims past id := by
          refine claims_of_ne fun now w locked heq other hother hid => hm now w locked heq ?_
          have hget := (of_pick hother).1
          rw [hid, hjob] at hget
          rw [hother, ← hget]
        rw [hclaims, hattempt, hchange.maxAttempts]
        refine ⟨hmax, hcount, fun hstate => ?_⟩
        obtain ⟨hwas, hsame⟩ := hrunning hstate
        rw [hsame]
        exact howner hwas
  · have hnone : s.db.jobs.get id = Option.none := by
      cases hjob : s.db.jobs.get id with
      | none => rfl
      | some =>
        obtain ⟨job', hjob', -⟩ := row_step h hjob
        rw [hjob'] at hnone'
        cases hnone'
    rw [claims_of_ne, hI.none hnone]
    intro now w locked heq job hpick hid
    have hget := (of_pick hpick).1
    rw [hid, hnone] at hget
    cases hget

theorem counted {past : (plane cfg).History} (h : (plane cfg).Path past s) : Counted past s := by
  refine h.always (I := fun past s => Counted past s) (fun s hinit => ?_)
    (fun past s m s' _ hI hs => counted_step hI hs)
  refine ⟨fun {id job} hjob => ?_, fun _ => rfl⟩
  rw [get_of_rows_nil hinit.jobs] at hjob
  cases hjob

theorem RowChange.finished {now : Time} {w : WorkerId} {job' : JobRow} (hreach : (plane cfg).Reach s)
    (h : RowChange cfg s m job job') (hm : m = .work now w .finishes ∨ m = .work now w .dispatch)
    (hne : job' ≠ job) : fenced w job = true := by
  have hmine : ∀ {held : JobRow} {w' : WorkerId}, (s.workers w).job = some held → held.workerId = some w' → w' = w := by
    intro held w' hheld hworker
    have hholds := (holds hreach hheld).1
    rw [hworker] at hholds
    exact some.inj hholds
  cases h with
  | same => exact absurd rfl hne
  | claimed hm' | beaten hm' | canceled hm' | abandoned hm' => rcases hm with rfl | rfl <;> cases hm'
  | completed hm' hw hid hfence =>
    rcases hm with rfl | rfl <;> cases hm'
    exact hfence
  | deadLettered hm' hdeed hw hid hheld hfence =>
    rcases hm with rfl | rfl <;> cases hm' <;> exact hmine hw hheld ▸ hfence
  | requeued hm' hw hid hheld hleft hfence =>
    rcases hm with rfl | rfl <;> cases hm'
    exact hmine hw hheld ▸ hfence

/-- **Attempts are claims, the ends of a job are final, and a worker writes only to the job it claimed
    last.** A worker calls `complete` and `fail` when its handler has returned, and `fail` for a job it
    has no handler for. -/
theorem jobs_fenced {past : (plane cfg).History} (h : (plane cfg).Path past s) :
    (∀ id job, s.db.jobs.get id = some job → job.attempt ≤ job.maxAttempts ∧ job.attempt = (claims past id).length) ∧
    ∀ m s', s.step cfg m = some s' → ∀ id job, s.db.jobs.get id = some job →
      ∃ job', s'.db.jobs.get id = some job' ∧ (job.state.terminal = true → job' = job) ∧
        ∀ now w, m = .work now w .finishes ∨ m = .work now w .dispatch → job' ≠ job →
          job.state = .running ∧ job.workerId = some w ∧ (claims past id).head? = some w := by
  have hcounted := counted h
  refine ⟨fun id job hjob => ⟨(hcounted.row hjob).1, (hcounted.row hjob).2.1⟩, ?_⟩
  intro m s' hs id job hjob
  obtain ⟨job', hjob', hchange⟩ := row_step hs hjob
  refine ⟨job', hjob', hchange.terminal, ?_⟩
  intro now w hm hne
  have hfence := hchange.finished h.reach hm hne
  simp only [fenced, and_eq_true, beq_iff_eq] at hfence
  refine ⟨hfence.2, hfence.1, ?_⟩
  rw [← (hcounted.row hjob).2.2 hfence.2, hfence.1]

def oneAttempt : List Move :=
  [.tool 0 (.enqueueOther .power "power" 1 1), .work 0 5 (.dequeue fun _ => false), .work 0 5 .dispatch]

theorem jobs_fenced_claimed : ∃ job, (after {} oneAttempt).db.jobs.get 1 = some job ∧
    job.attempt = 1 ∧ job.attempt ≤ job.maxAttempts ∧
    job.attempt = (claims ((plane {}).history fresh oneAttempt []) 1).length := by
  obtain ⟨job, hjob, hattempt⟩ := map_eq_some_iff.mp
    (show ((after {} oneAttempt).db.jobs.get 1).map (·.attempt) = some 1 by decide +kernel)
  have hpath := Machine.path_runTo (M := plane {}) oneAttempt (.init fresh_init)
  exact ⟨job, hjob, hattempt, (jobs_fenced hpath).1 1 job hjob⟩

/-! ## Abandoned jobs -/

theorem clock_step (h : s.step cfg m = some s') : s.clock ≤ s'.clock := by
  cases m with
  | wait d =>
    rw [← some.inj h]
    exact Int.le_add_of_nonneg_right (Int.natCast_nonneg d)
  | tool =>
    obtain ⟨db, -, rfl⟩ := tool_of_step h
    exact le_refl _
  | work =>
    rw [(work_beside (work_of_step h)).clock]
  | repair =>
    cases (repaired h).2 <;> exact le_refl _

theorem sweeps_step (h : s.step cfg m = some s') (p : Nat) : s'.sweeps p ⊆ s.sweeps p ∨
    ∃ now, now ≤ s.clock ∧ s'.db = s.db ∧ s'.sweeps p = s.db.zombies now := by
  cases m with
  | wait =>
    rw [← some.inj h]
    exact .inl (List.Subset.refl _)
  | tool =>
    obtain ⟨db, -, rfl⟩ := tool_of_step h
    exact .inl (List.Subset.refl _)
  | work =>
    rw [(work_beside (work_of_step h)).sweeps]
    exact .inl (List.Subset.refl _)
  | repair now pass =>
    have hother : ∀ (sweeps : List Uuid), p ≠ pass → Function.update s.sweeps pass sweeps p ⊆ s.sweeps p := by
      intro sweeps hp
      rw [update_of_ne hp]
      exact List.Subset.refl _
    rcases eq_or_ne p pass with rfl | hp
    · cases (repaired h).2 with
      | sweep => exact .inr ⟨now, (repaired h).1, rfl, update_self ..⟩
      | abandons hsweep =>
        refine .inl ?_
        dsimp only
        rw [update_self, hsweep]
        exact subset_cons_self ..
      | stops =>
        refine .inl ?_
        dsimp only
        rw [update_self]
        exact nil_subset _
      | _ => exact .inl (List.Subset.refl _)
    · refine .inl ?_
      cases (repaired h).2 with
      | sweep | abandons | stops => exact hother _ hp
      | _ => exact List.Subset.refl _

/-- No heartbeat is for a job that a pass has selected and not yet come to. -/
def Unselected (s : Plane) : Move → Prop
  | .work _ w .heartbeat => ∀ job, (s.workers w).job = some job → ∀ p, job.id ∉ s.sweeps p
  | _ => True

/-- The job of a pass has no attempt left, and no lease. -/
def Lapsed (s : Plane) (id : Uuid) : Prop :=
  ∃ job, s.db.jobs.get id = some job ∧ job.maxAttempts ≤ job.attempt ∧
    (job.state = .running → ∃ t, job.leaseExpiresAt = some t ∧ t < s.clock)

theorem lapsed_step (hI : ∀ p, ∀ id ∈ s.sweeps p, Lapsed s id) (hok : Unselected s m)
    (h : s.step cfg m = some s') (p : Nat) (hid : id ∈ s'.sweeps p) : Lapsed s' id := by
  rcases sweeps_step h p with hsub | ⟨now, hnow, hdb, hsweep⟩
  · obtain ⟨job, hjob, hmax, hlease⟩ := hI p id (hsub hid)
    obtain ⟨job', hjob', hchange⟩ := row_step h hjob
    have hkey : job.id = id := key_eq_of_get hjob
    have hclock := clock_step h
    refine ⟨job', hjob', ?_⟩
    have hkeep : (job.state = .running → ∃ t, job.leaseExpiresAt = some t ∧ t < s'.clock) := by
      intro hstate
      obtain ⟨t, ht, hlt⟩ := hlease hstate
      exact ⟨t, ht, lt_of_lt_of_le hlt hclock⟩
    cases hchange with
    | same => exact ⟨hmax, hkeep⟩
    | claimed hm hw hpick =>
      have hclaimable := (of_pick hpick).2
      simp only [claimable, and_eq_true, decide_eq_true_eq] at hclaimable
      omega
    | beaten hm hw hheld =>
      subst hm
      exact absurd (hsub hid) (hkey ▸ hheld ▸ hok _ hw p)
    | _ => exact ⟨hmax, (by rintro ⟨⟩)⟩
  · rw [hsweep, Db.zombies, List.mem_map] at hid
    obtain ⟨job, hmem, rfl⟩ := hid
    rw [mem_filter] at hmem
    obtain ⟨hmem, hzombie⟩ := hmem
    simp only [zombie, Bool.and_eq_true, Option.any_eq_true, decide_eq_true_eq] at hzombie
    obtain ⟨⟨-, t, ht, hlt⟩, hmax⟩ := hzombie
    have hclock := clock_step h
    exact ⟨job, hdb ▸ get_key_of_mem hmem, hmax, fun _ => ⟨t, ht, lt_of_lt_of_le hlt (le_trans hnow hclock)⟩⟩

theorem lapsed (h : (plane cfg).ReachBy Unselected s) (p : Nat) (hid : id ∈ s.sweeps p) : Lapsed s id := by
  have hall := h.always (I := fun s : Plane => ∀ p, ∀ id ∈ s.sweeps p, Lapsed s id)
    (fun s hinit p id hid => by
      rw [hinit.sweeps p] at hid
      cases hid)
    (fun s m s' _ hok hI hs p id hid => lapsed_step hI hok hs p hid)
  exact hall p id hid

/-- No job is abandoned under a lease that runs. -/
theorem abandoned_lapsed (h : (plane cfg).ReachBy Unselected s) {now : Time} {pass : Nat}
    (hs : s.step cfg (.repair now pass .abandons) = some s') {job' : JobRow}
    (hjob : s.db.jobs.get id = some job) (hjob' : s'.db.jobs.get id = some job')
    (hwas : job.state ≠ .failed) (hfailed : job'.state = .failed) :
    ∃ t, job.leaseExpiresAt = some t ∧ t < s.clock := by
  obtain ⟨job1, hjob1, hchange⟩ := row_step hs hjob
  cases hjob1.symm.trans hjob'
  cases hchange with
  | same => exact absurd hfailed hwas
  | abandoned hm hp hstate =>
    cases hm
    obtain rfl : job.id = id := key_eq_of_get hjob
    obtain ⟨row, hrow, -, hlease⟩ := lapsed h pass (hp ▸ mem_cons_self)
    cases hrow.symm.trans hjob
    exact hlease hstate
  | claimed hm | beaten hm | completed hm | deadLettered hm | requeued hm | canceled hm => cases hm

def lapsing : List Move := oneAttempt ++ [.wait 300000001, .repair 300000001 0 .sweep]

def noBeat : Move → Bool
  | .work _ _ .heartbeat => false
  | _ => true

theorem unselected_of_noBeat (s : Plane) (m : Move) (h : noBeat m = true) : Unselected s m := by
  unfold Unselected
  split
  · cases h
  · trivial

theorem abandoned_lapsed_idle : ∃ job s' t, (after {} lapsing).db.jobs.get 1 = some job ∧
    (after {} lapsing).step {} (.repair 300000001 0 .abandons) = some s' ∧
    job.leaseExpiresAt = some t ∧ t < (after {} lapsing).clock := by
  have hleads : (plane {}).Leads (fun _ m => noBeat m = true) fresh (after {} lapsing) :=
    Machine.leads_runTo (by decide +kernel)
  have hreach : (plane {}).ReachBy Unselected (after {} lapsing) :=
    Machine.ReachBy.mono unselected_of_noBeat (.leads (.init fresh_init) hleads)
  obtain ⟨job, hjob, hwas⟩ := map_eq_some_iff.mp
    (show ((after {} lapsing).db.jobs.get 1).map (·.state) = some .running by decide +kernel)
  obtain ⟨s', hs, hrow⟩ := map_eq_some_iff.mp
    (show ((after {} lapsing).step {} (.repair 300000001 0 .abandons)).map
      (fun s' => (s'.db.jobs.get 1).map (·.state)) = some (some .failed) by decide +kernel)
  obtain ⟨job', hjob', hfailed⟩ := map_eq_some_iff.mp hrow
  obtain ⟨t, ht, hlt⟩ := abandoned_lapsed hreach hs hjob hjob' (by rw [hwas]; decide) hfailed
  exact ⟨job, s', t, hjob, hs, ht, hlt⟩

def beatsLate : List Move := lapsing ++ [.work 300000001 5 .heartbeat]

/-- A job whose lease was extended after the selection is abandoned. -/
theorem abandoned_under_lease : (plane {}).Reach (after {} beatsLate) ∧
    ∃ job s' job', (after {} beatsLate).db.jobs.get 1 = some job ∧
      (after {} beatsLate).step {} (.repair 300000001 0 .abandons) = some s' ∧
      s'.db.jobs.get 1 = some job' ∧ job.state = .running ∧ job'.state = .failed ∧
      job.leaseExpiresAt = some 600000001 ∧ (after {} beatsLate).clock = 300000001 := by
  obtain ⟨job, hjob, hwas⟩ := map_eq_some_iff.mp
    (show ((after {} beatsLate).db.jobs.get 1).map (fun job => (job.state, job.leaseExpiresAt)) =
      some (.running, some 600000001) by decide +kernel)
  obtain ⟨s', hs, hrow⟩ := map_eq_some_iff.mp
    (show ((after {} beatsLate).step {} (.repair 300000001 0 .abandons)).map
      (fun s' => (s'.db.jobs.get 1).map (·.state)) = some (some .failed) by decide +kernel)
  obtain ⟨job', hjob', hfailed⟩ := map_eq_some_iff.mp hrow
  rw [Prod.mk.injEq] at hwas
  exact ⟨reach_after {} beatsLate, job, s', job', hjob, hs, hjob', hwas.1, hfailed, hwas.2,
    by decide +kernel⟩
end Kdive.Jobs
