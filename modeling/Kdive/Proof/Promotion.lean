import Kdive.Proof.Admission
import Kdive.Services.Promotion

/-! # The queue's repairs

A pass works through many queued rows in one transaction, each in a block of its own. Whatever becomes
of a row, the blocks before it stay: what is pending between two rows is always a sequence of complete
promotions and terminations.
-/

namespace Kdive
open Promotion Lib List

abbrev queueOnly (as : List Action) : Prop := ∀ a ∈ as, a.ofQueue = true

theorem queueOnly_nil : queueOnly [] := fun _ ha => absurd ha not_mem_nil

theorem queueOnly_append {as : List Action} {a : Action} (h : queueOnly as)
    (ha : a.ofQueue = true) : queueOnly (as ++ [a]) := by
  intro b hb
  rcases mem_append.mp hb with hb | hb
  · exact h b hb
  · rwa [mem_singleton.mp hb]

def scanKey (key : Uuid → LockKey) : Prop := key = .candidate ∨ key = .aged

theorem takes_scan {v : Db} {key : Uuid → LockKey} (hkey : scanKey key) {L ks : List LockKey}
    (hL : ∀ k ∈ L, ∃ id, k = key id) (h : ∀ k ∈ ks, ∃ id, k = key id) : Takes v L ks := by
  induction ks generalizing L with
  | nil => trivial
  | cons k ks ih =>
    obtain ⟨id, rfl⟩ := h k mem_cons_self
    refine ⟨?_, ih ?_ fun x hx => h x (mem_cons_of_mem _ hx)⟩
    · rcases hkey with rfl | rfl
      · exact hL
      · exact hL
    · intro x hx
      rcases mem_append.mp hx with hx | hx
      · exact hL x hx
      · exact ⟨id, mem_singleton.mp hx⟩

def InProject (id : Uuid) (project : String) (v : Db) : Prop :=
  ∃ a, v.allocations.get id = some a ∧ a.project = project

section
variable {fixed : String → Prop} {K : List LockKey}

theorem kept_inProject (id : Uuid) {project : String} : Kept (protocol fixed) K (InProject id project) := by
  rintro H v v' _ hr _ _ ⟨a, ha, hp⟩
  obtain ⟨a', ha', hp'⟩ := (Rely.allocations hr id).persists a ha
  exact ⟨a', ha', hp'.trans hp⟩

theorem kept_rowIs {row : Allocation} (hk : .project row.project ∈ K) : Kept (protocol fixed) K fun v => RowIs v row :=
  fun _ _ _ hH hr _ _ h => Rely.rowIs hr (hH hk) h
end
end Kdive

namespace Lib.During
open Kdive Kdive.Promotion

variable {fixed : String → Prop} {as : List Action} {F : Db → Prop}
variable {l l' : Conn store} {c c' : Db}

/-! ## One row on one host -/

variable {alloc : Allocation} {resource : Resource}

theorem grantQueued {hours estimate : ℚ} {devices : List PCIeClaim} (h : InTx fixed as [] F l c) (hq : queueOnly as)
    (hp : .project alloc.project ∈ l.locks) (hr : .resource resource.id ∈ l.locks)
    (hpick : .picked resource.id ∈ l.locks) (hpriced : Priced estimate)
    (hrow : ∀ v, WellFormed v → F v → RowIs v alloc) (hstate : alloc.state = .requested)
    (hpass : ∀ v, WellFormed v → F v → Passes fixed alloc.project resource.id estimate devices v) :
    Wp fixed (grantQueued alloc resource hours estimate devices) l c fun granted l' c' =>
        if granted then Ready (protocol fixed) queueOnly l' c'
        else InTx fixed as [] F l' c' ∧ Since fixed l c l' c' := by
  refine .seq (h.ask ?_)
  intro clock
  refine .seq (h.ofExcept ?_)
  intro expiry _
  refine .seq (h.ofExcept ?_)
  intro _ _
  refine .seq (h.update ?_ ?_)
  · -- the row is gone from the queue: nothing is written, and the next host may be tried
    intro l1 c1 v _ _ h1 hx1
    exact h1.ret ⟨h1, hx1⟩
  intro row l1 c1 _ h1 hkey hx1
  refine .seq (h1.reserve (hx1.mem_locks hp) hpriced ?_)
  rintro x hdelta l2 c2 h2 hbudget hx2
  refine .seq (h2.audit ?_)
  intro l3 c3 h3 hx3
  have hx := hx1.trans (hx2.trans hx3)
  refine h3.ret (During.done
    (a := Action.promote alloc resource.id expiry devices l.now x ⟨_, rfl, rfl, rfl⟩) h3 ?_ ?_ ?_)
  · exact queueOnly_append hq rfl
  · intro k hk
    simp only [Action.need, List.mem_cons, List.not_mem_nil, or_false] at hk
    rcases hk with rfl | rfl | rfl | rfl | rfl
    · exact hx.mem_locks hp
    · exact hx.mem_locks hr
    · exact hx.mem_locks hpick
    · exact (hx2.trans hx3).mem_locks hkey
    · exact hx3.mem_locks hbudget
  · rintro v hv ⟨hF, -⟩
    have hpass := hpass v hv hF
    exact ⟨hrow v hv hF, hstate, hpass.quota, hdelta ▸ hpass.budget, hdelta ▸ hpriced, hpass.room⟩

/-- A row that leaves the queue holds nothing: its patch and the record of it are a complete action. -/
theorem unqueued {B : List Action → Prop} {new : AllocationState} {now : Time}
    {r : RecordOf "allocations" alloc.id "requested" new.value}
    (h : InTx fixed as (Action.unqueue alloc new now r).writes F l c) (hB : B (as ++ [.unqueue alloc new now r]))
    (hp : .project alloc.project ∈ l.locks) (hkey : .allocationRow alloc.id ∈ l.locks)
    (hguard : ∀ v, WellFormed v → F v → CanUnqueue v alloc new) : Ready (protocol fixed) B l c := by
  refine During.done h hB ?_ hguard
  intro k hk
  simp only [Action.need, List.mem_cons, List.not_mem_nil, or_false] at hk
  rcases hk with rfl | rfl
  · exact hp
  · exact hkey

theorem terminate {reason : String} (h : InTx fixed as [] F l c) (hq : queueOnly as)
    (hp : .project alloc.project ∈ l.locks)
    (hrow : ∀ v, WellFormed v → F v → RowIs v alloc) (hstate : alloc.state = .requested) :
    Wp fixed (terminate alloc resource reason) l c fun _ l' c' =>
      Ready (protocol fixed) queueOnly l' c' := by
  refine .seq (h.updateState ?_)
  intro row l1 c1 _ h1 hkey hx1
  refine h1.audit ?_
  intro l2 c2 h2 hx2
  refine unqueued (r := ⟨_, rfl, rfl, rfl⟩) h2 (queueOnly_append hq rfl) ((hx1.trans hx2).mem_locks hp)
    (hx2.mem_locks hkey) ?_
  rintro v hv ⟨hF, -⟩
  exact ⟨hrow v hv hF, hstate, .inl rfl⟩

/-- What an attempt leaves behind: a complete action, or all as it was for the next host. -/
def After (fixed : String → Prop) (as : List Action) (F : Db → Prop) (l : Conn store) (c : Db) :
    Attempt → Conn store → Db → Prop
  | .waits, l', c' => During (protocol fixed) as [] F l' c' ∧ Since fixed l c l' c'
  | _, l', c' => Ready (protocol fixed) queueOnly l' c'

theorem requestFromQueued_eq {request : AllocationRequest} (h : requestFromQueued alloc resource = .ok request) :
    request.project = alloc.project ∧ request.resource = resource := by
  unfold requestFromQueued at h
  cases hs : selectorFromSnapshot alloc resource with
  | error =>
    rw [hs] at h
    cases h
  | ok =>
    rw [hs] at h
    cases h
    exact ⟨rfl, rfl⟩

variable (h : InTx fixed as [] F l c)
include h

theorem tryOneHost {cfg : Config} (hq : queueOnly as)
    (hp : .project alloc.project ∈ l.locks) (hcand : .candidate alloc.id ∈ l.locks)
    (hpick : .picked resource.id ∈ l.locks)
    (hrow : ∀ v, WellFormed v → F v → RowIs v alloc) (hstate : alloc.state = .requested)
    (hhost : ∀ v, WellFormed v → F v → HostIs resource v) :
    Wp fixed (tryOneHost cfg alloc resource) l c (After fixed as F l c) := by
  refine .seq (h.ofExcept ?_)
  intro request hrequest
  obtain ⟨hproject, hresource⟩ := requestFromQueued_eq hrequest
  refine .bind (S := fun priced l' c' => Priced priced.2 ∧ l' = l ∧
    InTx fixed as [] F l c' ∧ Since fixed l c l c') ?_ ?_
  · refine (priceWindowAndEstimate_keeps (B := fun _ => True) h trivial
      (R := fun priced l' c' => Priced priced.2 ∧ l' = l ∧ InTx fixed as [] F l c' ∧
        Since fixed l c l c') ?_).does.mono ?_
    · intro hours estimate c1 hpriced _ h1 hx1
      exact ⟨hpriced, rfl, h1, hx1⟩
    · rintro priced l' c' - ⟨-, hR⟩
      exact hR
  rintro ⟨hours, estimate⟩ l1 c1 - ⟨hpriced, rfl, h1, hx1⟩
  refine .seq (h1.advisoryLock (.resource resource.id) hq ?_ ?_)
  · intro v _ _ _
    exact ⟨hpick, ⟨_, hp⟩, .inl ⟨_, hcand⟩⟩
  intro l2 c2 _ hr h2 hx2
  refine .seq (h2.advisoryLock (.allocation alloc.id) hq ?_ ?_)
  · intro v hv hF _
    obtain ⟨a, ha, hcore⟩ := hrow v hv hF
    have hproj : a.project = alloc.project := congrArg (·.project) hcore
    exact ⟨⟨a, ha, hproj ▸ hx2.mem_locks hp⟩, .inl ⟨_, hr⟩⟩
  intro l3 c3 _ _ h3 hx3
  have hx := hx1.trans (hx2.trans hx3)
  subst hresource
  refine .seq (h3.admissionGate (hproject ▸ hx.mem_locks hp) (hx3.mem_locks hr) hhost ?_ ?_)
  · intro denial devices c4 h4 hx4
    dsimp only
    split
    · refine .seq ((h4.terminate hq (hx.mem_locks hp) hrow hstate).mono ?_)
      intro _ l5 c5 _ hready
      exact .ret hready.good hready.inv hready
    · exact h4.ret ⟨h4, hx.trans hx4⟩
  · intro devices c4 h4 hx4
    refine .seq ((h4.grantQueued hq (hx.mem_locks hp) (hx3.mem_locks hr) (hx.mem_locks hpick)
      hpriced (fun v hv hF => hrow v hv hF.1) hstate ?_).mono ?_)
    · intro v hv hF
      rw [← hproject]
      exact hF.2
    · intro granted l5 c5 _ hR
      cases granted with
      | true => exact .ret hR.good hR.inv hR
      | false =>
        obtain ⟨h5, hx5⟩ := hR
        have h5' : InTx fixed as [] F l5 c5 :=
          h5.conseq (h.kept.mono (hx.trans (hx4.trans hx5)).locks_sub.subset) fun _ _ hv => hv.1
        exact h5'.ret ⟨h5', hx.trans (hx4.trans hx5)⟩

/-! ## One row on its hosts -/

theorem tryHosts {cfg : Config} {hosts : List Resource} (hq : queueOnly as)
    (hp : .project alloc.project ∈ l.locks) (hcand : .candidate alloc.id ∈ l.locks)
    (hpick : ∀ r ∈ hosts, .picked r.id ∈ l.locks)
    (hrow : ∀ v, WellFormed v → F v → RowIs v alloc) (hstate : alloc.state = .requested)
    (hhost : ∀ r ∈ hosts, ∀ v, WellFormed v → F v → HostIs r v) : Wp fixed (tryHosts cfg alloc hosts) l c fun _ l' c' =>
      Ready (protocol fixed) queueOnly l' c' := by
  -- over the hosts left: what is known of the row and of them stays known while none takes it
  induction hosts generalizing l c with
  | nil => exact h.ret (h.ready hq)
  | cons resource rest ih =>
    refine .seq ((h.tryOneHost hq hp hcand (hpick resource List.mem_cons_self) hrow hstate
      (hhost resource List.mem_cons_self)).mono ?_)
    intro attempt l1 c1 _ hR
    cases attempt with
    | granted | terminated => exact .ret hR.good hR.inv hR
    | waits =>
      obtain ⟨h1, hx1⟩ := hR
      exact ih h1 (hx1.mem_locks hp) (hx1.mem_locks hcand)
        (fun r hr => hx1.mem_locks (hpick r (List.mem_cons_of_mem _ hr)))
        fun r hr => hhost r (List.mem_cons_of_mem _ hr)

theorem candidateHosts {R : Post store (List Resource)} (hq : queueOnly as)
    (hR : ∀ hosts l' c', (∀ r ∈ hosts, .picked r.id ∈ l'.locks) →
      InTx fixed as [] (fun v => F v ∧ ∀ r ∈ hosts, HostIs r v) l' c' →
      Since fixed l c l' c' → R hosts l' c') : Wp fixed (candidateHosts alloc) l c R := by
  unfold Promotion.candidateHosts
  split
  · refine .seq (h.resolveCandidates hq ?_)
    intro x l1 c1 _ _ h1 hx1
    refine h1.ret (hR [] l1 c1 (by simp) (h1.conseq ?_ fun _ _ hv => ⟨hv.1, by simp⟩) hx1)
    exact (h.kept.mono hx1.locks_sub.subset).and (by simp [Kept])
  · refine .seq (h.resolveCandidates hq ?_)
    intro x l1 c1 _ hpicked h1 hx1
    have hsub : ∀ r ∈ x.resources, r ∈ x.hosts := fun r hr => List.mem_append_left _ hr
    refine h1.ret (hR x.resources l1 c1 (fun r hr => hpicked r (hsub r hr)) ?_ hx1)
    refine h1.conseq ((h.kept.mono hx1.locks_sub.subset).and kept_hostsAre) ?_
    intro v _ hv
    exact ⟨hv.1, fun r hr => hv.2 r (hsub r hr)⟩
end Lib.During

namespace Kdive
open Lib Promotion

variable {fixed : String → Prop} {as : List Action} {F : Db → Prop}
variable {l : Conn store} {c : Db}

variable {cfg : Config}

theorem placeOrTerminate_does {alloc : Allocation} (h : InTx fixed as [] F l c) (hq : queueOnly as)
    (hp : .project alloc.project ∈ l.locks) (hcand : .candidate alloc.id ∈ l.locks)
    (hrow : ∀ v, WellFormed v → F v → RowIs v alloc) (hstate : alloc.state = .requested) :
    Wp fixed (placeOrTerminate cfg alloc) l c fun _ l' c' =>
      Ready (protocol fixed) queueOnly l' c' := by
  refine .seq (h.candidateHosts hq ?_)
  intro hosts l1 c1 hpick h1 hx1
  exact h1.tryHosts hq (hx1.mem_locks hp) (hx1.mem_locks hcand) hpick
    (fun v hv hF => hrow v hv hF.1) hstate fun r hr v _ hF => hF.2 r hr

/-! ## A pass -/

theorem promoteOne_keeps {allocId : Uuid} (hready : Ready (protocol fixed) queueOnly l c)
    (hcand : .candidate allocId ∈ l.locks) :
    Keeps (protocol fixed) queueOnly (promoteOne cfg allocId) l c fun _ _ _ => True := by
  obtain ⟨as, hq, h⟩ := hready
  refine .seq (.select h hq ?_)
  intro c1 h1 _
  cases hfound : ((protocol fixed).effs as c1).allocations.get allocId with
  | none => exact .ret (h1.ready hq) trivial
  | some found =>
    refine .block (h1.know (kept_inProject allocId) ⟨found, hfound, rfl⟩) hq ?_
    intro hin
    have hsame : (l.enter 0).locks = l.locks := Conn.locks_enter l 0
    refine .seq (hin.advisoryLock (.project found.project) hq ?_ ?_)
    · rintro v _ ⟨-, a, ha, hp⟩ _
      exact .inr ⟨_, hsame ▸ hcand, allocId, a, rfl, ha, hp⟩
    intro l2 c2 _ hp h2 hx2
    refine .seq (h2.select ?_)
    intro c3 h3 hx3
    obtain ⟨-, a, ha, hproject⟩ := h3.fact
    rw [applyAll_nil, ha]
    dsimp only
    split
    · exact h3.ret (h3.ready hq)
    · rename_i hstate
      have hid : a.id = allocId := Table.key_eq_of_get ha
      have hproj : LockKey.project a.project ∈ l2.locks := hproject ▸ hp
      refine placeOrTerminate_does (h3.know (kept_rowIs hproj) ⟨a, hid ▸ ha, rfl⟩) hq hproj ?_
        (fun v _ hF => hF.2) (by simpa using hstate)
      rw [hid]
      exact hx2.mem_locks (hsame ▸ hcand)

theorem scan_does {α : Type} {rows : Db → Time → List Allocation} {key : Uuid → LockKey}
    {f : Allocation → α} {R : Post store (List α)}
    (h : InTx fixed [] [] F l c) (hlocks : l.locks = []) (hkey : scanKey key)
    (hR : ∀ (found : List Allocation) l' c', (∀ a ∈ found, key a.id ∈ l'.locks ∧ a ∈ rows c' l.now) →
      InTx fixed [] [] F l' c' → R (found.map f) l' c') : Wp fixed (Prog.selectFor
      (fun v now => (rows v now).map fun a => key a.id) fun v now => (rows v now).map f) l c R := by
  refine h.selectFor ?_
  intro c' v h' _ hv
  obtain rfl : c' = v := hv.symm
  refine ⟨⟨?_, fun _ => h.quiet fun a ha => absurd ha List.not_mem_nil⟩, ?_⟩
  · refine takes_scan hkey (by simp [hlocks]) ?_
    intro k hk
    obtain ⟨a, -, rfl⟩ := List.mem_map.mp (List.mem_filter.mp hk).1
    exact ⟨a.id, rfl⟩
  · intro l' hl' h'' _
    refine hR _ l' c' ?_ h''
    intro a ha
    refine ⟨?_, ha⟩
    rw [hl', hlocks, List.nil_append]
    exact List.mem_filter.mpr ⟨List.mem_map.mpr ⟨a, ha, rfl⟩, by simp⟩

/-- Rows are worked off one after the other; a row that raises is skipped. `I` is what is known of the
    rows from the scan. -/
theorem each_keeps {ι : Type} {step : Nat → ι → Async Nat} {one : ι → Async Bool} {is : List ι}
    {I : Post store ι} {n : Nat} (hstep : ∀ n i, step n i = (one i).attempt fun
      | .ok true => return n + 1
      | _ => return n) (hstable : ∀ i l' c' l'' c'', Since fixed l' c' l'' c'' → I i l' c' → I i l'' c'')
    (hone : ∀ i l' c', Ready (protocol fixed) queueOnly l' c' → I i l' c' →
      Keeps (protocol fixed) queueOnly (one i) l' c' fun _ _ _ => True)
    (h : Ready (protocol fixed) queueOnly l c) (hI : ∀ i ∈ is, I i l c) :
    Wp fixed (Prog.foldEach step n is) l c fun _ l' c' =>
      (protocol fixed).Commits l'.locks l'.log c' := by
  have hloop : Keeps (protocol fixed) queueOnly (Prog.foldEach step n is) l c
      fun _ l' c' => ∀ i ∈ is, I i l' c' := by
    refine .foldEach ?_ h hI
    intro n i l' c' hi hready hknown
    rw [hstep]
    refine .attempt (hone i l' c' hready (hknown i hi)) ?_ ?_
    · intro b l'' c'' hx hready'' _
      have hknown'' := fun j hj => hstable j l' c' l'' c'' hx (hknown j hj)
      cases b with
      | true | false => exact .ret hready'' hknown''
    · intro e l'' c'' hx hready''
      exact .ret hready'' fun j hj => hstable j l' c' l'' c'' hx (hknown j hj)
  refine hloop.does.mono ?_
  intro _ l' c' _ hR
  exact hR.1.commits fun as hq => .inr hq

theorem promotePending_does (h : InTx fixed [] [] F l c) (hlocks : l.locks = []) :
    Wp fixed (promotePending cfg) l c fun _ l' c' =>
      (protocol fixed).Commits l'.locks l'.log c' := by
  refine .seq (scan_does h hlocks (.inl rfl) ?_)
  intro found l1 c1 hfound h1
  refine each_keeps (I := fun id l' _ => .candidate id ∈ l'.locks) (fun _ _ => rfl) ?_ ?_ (h1.ready queueOnly_nil) ?_
  · intro id l' c' l'' c'' hx hcand
    exact hx.mem_locks hcand
  · intro id l' c' hready hcand
    exact promoteOne_keeps hready hcand
  · intro id hid
    obtain ⟨a, ha, rfl⟩ := List.mem_map.mp hid
    exact (hfound a ha).1

/-! ## Timeouts -/

theorem reapOne_keeps {maxWait : Int} {allocId : Uuid} {project : String}
    (hready : Ready (protocol fixed) queueOnly l c) (haged : .aged allocId ∈ l.locks)
    (hproject : InProject allocId project c) :
    Keeps (protocol fixed) queueOnly (reapOne maxWait allocId project) l c fun _ _ _ => True := by
  obtain ⟨as, hq, h⟩ := hready
  have hthere : InProject allocId project ((protocol fixed).effs as c) :=
    kept_inProject (K := []) _ [] _ _ (by simp) (h.path.rely h.inv (by simp)) h.inv h.inv_effs hproject
  refine .block (h.know (kept_inProject _) hthere) hq ?_
  intro hin
  have hsame : (l.enter 0).locks = l.locks := Conn.locks_enter l 0
  refine .seq (hin.advisoryLock (.project project) hq ?_ ?_)
  · rintro v _ ⟨-, a, ha, hp⟩ _
    exact .inr ⟨_, hsame ▸ haged, allocId, a, rfl, ha, hp⟩
  intro l1 c1 _ hp h1 hx1
  have haged1 : LockKey.aged allocId ∈ l1.locks := hx1.mem_locks (hsame ▸ haged)
  refine .seq (h1.advisoryLock (.allocation allocId) hq ?_ ?_)
  · rintro v _ ⟨-, a, ha, hpa⟩ _
    exact ⟨⟨a, ha, hpa ▸ hp⟩, .inr (.inl haged1)⟩
  intro l2 c2 _ _ h2 hx2
  refine .seq (h2.select ?_)
  intro c3 h3 hx3
  obtain ⟨-, a, ha, hpa⟩ := h3.fact
  have hid : a.id = allocId := Table.key_eq_of_get ha
  rw [applyAll_nil, ha, Option.any_some]
  cases hold : agedRequested maxWait l2.now a with
  | false => exact h3.ret (h3.ready hq)
  | true =>
    have hstate : a.state = .requested := by
      simp only [agedRequested, Bool.and_eq_true, beq_iff_eq] at hold
      exact hold.1
    have hp2 : LockKey.project a.project ∈ l2.locks := hx2.mem_locks (hpa ▸ hp)
    have hk := h3.know (kept_rowIs hp2) ⟨a, hid ▸ ha, rfl⟩
    refine .seq (hk.select ?_)
    intro c4 h4 hx4
    obtain ⟨-, b, hb, -⟩ := h4.fact
    simp only [applyAll_nil, ← hid, hb]
    refine .seq (h4.updateState ?_)
    intro row l5 c5 _ h5 hkey hx5
    refine .seq (h5.audit ?_)
    intro l6 c6 h6 hx6
    refine h6.ret (During.unqueued (r := ⟨_, rfl, rfl, rfl⟩) h6 (queueOnly_append hq rfl)
      ((hx5.trans hx6).mem_locks hp2) (hx6.mem_locks hkey) ?_)
    rintro v _ ⟨⟨-, hrow⟩, -⟩
    exact ⟨hrow, hstate, .inl rfl⟩

theorem reapQueueTimeouts_does {maxWait : Int} (h : InTx fixed [] [] F l c) (hlocks : l.locks = []) :
    Wp fixed (reapQueueTimeouts maxWait) l c fun _ l' c' =>
      (protocol fixed).Commits l'.locks l'.log c' := by
  refine .seq (scan_does h hlocks (.inr rfl) ?_)
  intro found l1 c1 hfound h1
  refine each_keeps (I := fun i l' c' => .aged i.1 ∈ l'.locks ∧ InProject i.1 i.2 c')
    (fun _ _ => rfl) ?_ ?_ (h1.ready queueOnly_nil) ?_
  · intro i l' c' l'' c'' hx hI
    refine ⟨hx.mem_locks hI.1, ?_⟩
    obtain ⟨a, ha, hp⟩ := hI.2
    obtain ⟨a', ha', hp'⟩ := (Rely.allocations hx.rely i.1).persists a ha
    exact ⟨a', ha', hp'.trans hp⟩
  · intro i l' c' hready hI
    exact reapOne_keeps hready hI.1 hI.2
  · intro i hi
    obtain ⟨a, ha, rfl⟩ := List.mem_map.mp hi
    obtain ⟨hkey, hrow⟩ := hfound a ha
    exact ⟨hkey, a, Table.get_key_of_mem (List.mem_filter.mp hrow).1, rfl⟩
end Kdive
