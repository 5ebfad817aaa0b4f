import Kdive.Lib.Soundness
import Kdive.Mcp.Tools
import Kdive.Proof.Systems

/-! # Every entry point follows the discipline

The tools, the reconciler's repairs and the worker's jobs one by one, on the connections they take from
the pool. The result, `client_safe`, is what every theorem about whole runs starts from.

Only one entry point changes a budget's limit. It follows the discipline of those projects whose limit
is not fixed.
-/

namespace Lib.During
open Kdive Lib.Top Nat List

variable {fixed : String → Prop} {as : List Action} {ws : List Write} {F : Db → Prop}
variable {l l' : Conn store} {c c' : Db}

theorem upsertBudget {b : Budget} {R : Post store Unit} (h : InTx fixed as ws F l c)
    (hR : ∀ l' c', InTx fixed as (ws ++ [.upsertBudget b]) F l' c' →
      .budgetRow b.project ∈ l'.locks → Since fixed l c l' c' → R () l' c') : Wp fixed (Budgets.upsert b) l c R := by
  refine h.rows ?_ ?_ ?_
  · intro v t k hk
    rw [mem_singleton.mp hk]
    rfl
  · intro v ws' hact w hw
    cases hact
    rw [mem_singleton.mp hw]
    exact subset_append_right _ _
  · intro l' c' ws' v _ hact hkeys h' hx
    cases hact
    exact hR l' c' h' (hkeys _ (mem_singleton_self _)) hx

theorem applyCordon {uid : Uuid} {flag : Bool} {R : Post store Bool}
    (h : InTx fixed as [] F l c) (hno : ∀ l' c', InTx fixed as [] F l' c' → R false l' c')
    (hyes : ∀ l' c', InTx fixed as [.setCordoned uid flag]
      (fun v => F v ∧ (v.resources.get uid).isSome) l' c' → R true l' c') :
    Wp fixed (Tools.applyCordon uid flag) l c R := by
  refine h.rows ?_ ?_ ?_
  · intro v t k hk
    simp only [Tools.cordonStmt] at hk
    split at hk
    · rw [mem_singleton.mp hk]
      rfl
    · cases hk
  · intro v ws' hact w hw
    cases hact
    split at hw
    · rw [mem_singleton.mp hw]
      exact nil_subset _
    · cases hw
  · intro l' c' ws' v hv hact _ h' hx
    cases hact
    cases hhost : (v.resources.get uid).isSome with
    | false =>
      simp only [hhost, Bool.false_eq_true, if_false, append_nil] at h'
      exact hno l' c' h'
    | true =>
      simp only [hhost, if_true] at h'
      have hkept : Kept (protocol fixed) l'.locks fun v => (v.resources.get uid).isSome := by
        intro H v v' _ hr _ _ hv
        obtain ⟨r, hr'⟩ := Option.isSome_iff_exists.mp hv
        obtain ⟨r', hget, -⟩ := Rely.get_resource hr hr'
        rw [hget]
        rfl
      refine hyes l' c' (h'.know hkept ?_)
      rwa [hv] at hhost
end Lib.During

namespace Kdive
open Lib

variable {fixed : String → Prop} {cfg : Config} {c : Db}

/-! ## Entry points -/

variable {α : Type} {p : Async α}

theorem commits_of_ready {l : Conn store} (h : Wp fixed p l c (During.Clean fixed)) :
    Wp fixed p l c fun _ l' c' => (protocol fixed).Commits l'.locks l'.log c' :=
  h.mono fun _ _ _ _ hready => hready.commits fun _ has => .inl has

theorem connection_top (h : Body (protocol fixed) p c) : Tame (protocol fixed) (Prog.connection p) c :=
  Top.connection h fun _ _ _ _ => trivial

theorem discard_top (h : Tame (protocol fixed) p c) : Tame (protocol fixed) (p >>= fun _ => pure ()) c :=
  Top.bind h (fun _ _ _ hc _ => .ret hc trivial) fun _ _ _ _ _ => trivial

theorem repair_top {p : Async Nat} (h : Body (protocol fixed) p c) : Tame (protocol fixed) (repair p) c :=
  discard_top (connection_top h)

variable {ctx : RequestContext} {project : String}

theorem setBudget_top {limit : Option Number} (hc : WellFormed c) (hfree : ¬ fixed project) :
    Tame (protocol fixed) (Tools.setBudget ctx project limit) c := by
  unfold Tools.setBudget
  split
  · exact .ret hc trivial
  · refine connection_top (.of_top (R := fun _ _ => True)
      (.own hc ?_ fun _ _ _ _ => trivial))
    intro t h
    refine .seq (h.upsertBudget ?_)
    intro l1 c1 h1 hkey _
    refine h1.auditFor ?_
    intro l2 c2 h2 hx2
    refine During.commits (a := Action.setBudget _ ⟨_, rfl⟩) h2 (.inl (le_refl 1)) ?_ ?_
    · intro k hk
      rw [List.mem_singleton.mp hk]
      exact hx2.mem_locks hkey
    · intro v _ _
      exact ⟨hfree, rfl⟩

variable {tool reason : String}

theorem recordBreakglass_top {alloc : Allocation} (hc : WellFormed c) :
    Tame (protocol fixed) (Tools.recordBreakglass ctx tool alloc reason) c := by
  refine connection_top (.of_top (R := fun _ _ => True) (.own hc ?_ fun _ _ _ _ => trivial))
  intro t h
  refine h.platformAudit ?_
  intro l1 c1 h1 _
  refine During.commits (a := Action.note _) h1 (.inl (le_refl 1)) ?_ ?_
  · intro k hk
    cases hk
  · intro v _ _
    trivial

theorem breakglassRelease_top {alloc : Allocation} (hc : WellFormed c) (hproject : InProject alloc.id alloc.project c) :
    Tame (protocol fixed) (Tools.breakglassReleaseAllocation ctx alloc tool reason) c := by
  refine .bind (recordBreakglass_top hc) ?_ fun _ _ _ _ _ => trivial
  intro _ c1 hr hc1 _
  refine releaseWithBackstops_top (appends_recordSystem _) hc1 ?_
  exact kept_inProject (K := []) _ [] _ _ (by simp) hr hc hc1 hproject

variable {uid : Uuid}

theorem cordonAndAudit_top {flag : Bool} {detail : String} (hc : WellFormed c) :
    Tame (protocol fixed) (Tools.cordonAndAudit ctx uid flag tool detail) c := by
  refine connection_top (.opening trivial hc ?_)
  intro t h
  refine .seq (h.applyCordon ?_ ?_)
  · intro l1 c1 h1
    exact h1.ret (h1.commits_nil (.inl (Nat.zero_le 1)))
  · intro l1 c1 h1
    refine .seq (h1.transaction ?_)
    intro hin
    refine hin.platformAudit ?_
    intro l2 c2 h2 _
    refine ⟨_, _, h2, ?_⟩
    intro l3 h3 _ _
    refine h3.ret (During.commits (a := Action.cordon uid flag _) h3 (.inl (le_refl 1)) ?_ ?_)
    · intro k hk
      cases hk
    · intro v _ hF
      exact hF.2

variable {key : Option String}

theorem requestAdmission_bare {spec : AdmissionRequestSpec} :
    (requestAdmission cfg ctx project spec key).Bare fun _ => True := by
  refine Prog.Bare.attempt (Prog.Bare.mono (Q := fun _ => True) ?_ ?_)
  · rintro (e | ⟨sizing, specs⟩) -
    · cases e <;> trivial
    · show Prog.Bare _ (selectTarget spec.resourceId spec.kind specs project >>= _)
      cases spec.resourceId with
      | none | some => trivial
  · unfold resolveRequestSizing
    cases spec.shape with
    | some => trivial
    | none =>
      refine Prog.Bare.attempt ?_
      dsimp only
      split
      · refine Prog.Bare.attempt (Prog.Bare.ofExcept ?_)
        cases composePcieSpecs spec _ <;> trivial
      · trivial

theorem requestAllocation_top {spec : AdmissionRequestSpec} (hc : WellFormed c) :
    Tame (protocol fixed) (Tools.requestAllocation cfg ctx project spec key) c := by
  refine discard_top (connection_top (.opening requestAdmission_bare hc ?_))
  intro t h
  exact commits_of_ready (requestAdmission_does h rfl)

theorem renewAllocation_top {extend : Option Number} (hc : WellFormed c) :
    Tame (protocol fixed) (Tools.renewAllocation cfg ctx uid extend key) c := by
  refine connection_top (.opening trivial hc ?_)
  intro t h
  refine commits_of_ready (.seq (h.select ?_))
  intro c1 h1 _
  split
  · exact h1.ret (h1.ready (Nat.zero_le 1))
  split
  · refine .bind (renew_keeps h1 rfl).does ?_
    intro _ l2 c2 _ hR
    exact .ret hR.1.good hR.1.inv hR.1
  · exact h1.ret (h1.ready (Nat.zero_le 1))

theorem releaseAllocation_top : Tame (protocol fixed) (Tools.releaseAllocation ctx uid) c := by
  refine .bind getAllocation_top ?_ fun _ _ _ _ _ => trivial
  intro found c1 _ hc1 hfound
  split
  · exact .ret hc1 trivial
  · rename_i alloc
    split
    · exact discard_top (releaseWithBackstops_top (appends_record ctx) hc1 (hfound _ rfl alloc rfl))
    · exact .ret hc1 trivial

theorem forceRelease_top : Tame (protocol fixed) (Tools.forceRelease ctx uid reason) c := by
  -- the row is released under the id it carries, which is the one it was looked up by
  refine .bind (.connection_select (R := fun found c' =>
    ∀ a : Allocation, found = some a → InProject a.id a.project c') ?_ ?_) ?_
    fun _ _ _ _ _ => trivial
  · intro c' t _ _ a ha
    exact ⟨a, (allocation_id ha).symm ▸ ha, rfl⟩
  · intro found c' c'' hr hc' hc'' hfound a ha
    exact kept_inProject (K := []) _ [] c' c'' (by simp) hr hc' hc'' (hfound a ha)
  intro found c1 _ hc1 hfound
  split
  · exact .ret hc1 trivial
  · rename_i alloc
    exact discard_top (breakglassRelease_top hc1 (hfound _ rfl alloc rfl))

theorem drainResource_top {reason : Option String} (hc : WellFormed c) :
    Tame (protocol fixed) (Tools.drainResource ctx uid reason) c := by
  refine .bind (cordonAndAudit_top hc) ?_ fun _ _ _ _ _ => trivial
  intro cordoned c1 _ hc1 _
  split
  · refine .bind (.connection_select (R := fun live c' =>
      ∀ a ∈ (live : List Allocation), InProject a.id a.project c') ?_ ?_) ?_
      fun _ _ _ _ _ => trivial
    · intro c' t _ _ a ha
      rw [orderByAge, (List.perm_insertionSort _ _).mem_iff, List.mem_filter] at ha
      exact ⟨a, Table.get_key_of_mem ha.1, rfl⟩
    · intro live c' c'' hr hc' hc'' hlive a ha
      exact kept_inProject (K := []) _ [] c' c'' (by simp) hr hc' hc'' (hlive a ha)
    intro live c2 _ hc2 hlive
    split
    · exact .ret hc2 trivial
    · refine .foldEach (I := fun _ c' => ∀ a ∈ live, InProject a.id a.project c') ?_
        (fun _ _ _ _ _ => trivial) (.refl _ _) hc2 (hlive live rfl)
      intro _ a c3 ha _ hc3 hlive3
      refine .bind (breakglassRelease_top hc3 (hlive3 a ha)) ?_ ?_
      · intro _ c4 hr4 hc4 _
        refine .ret hc4 ⟨fun _ _ b hb => ?_, fun _ _ => trivial⟩
        exact kept_inProject (K := []) _ [] c3 c4 (by simp) hr4 hc3 hc4 (hlive3 b hb)
      · intro e c4 _ _ _
        refine ⟨?_, fun _ _ => trivial⟩
        intro _ h
        cases h
  · exact .ret hc1 trivial

/-! ## All of them -/

/-- The entry point leaves the limits that are fixed alone. -/
def Client.respects (fixed : String → Prop) : Client → Prop
  | .setBudget _ project _ => ¬ fixed project
  | _ => True

/-- **Every entry point follows the discipline**, from any state in order and whatever the others
    do. -/
theorem client_safe {client : Client} (h : client.respects fixed) : ClientSafe (protocol fixed) (client.prog cfg) := by
  intro c hc
  cases client with
  | request => exact requestAllocation_top hc
  | renew => exact renewAllocation_top hc
  | release => exact releaseAllocation_top
  | forceRelease => exact forceRelease_top
  | setBudget => exact setBudget_top hc h
  | createSystem => exact discard_top (createForAllocation_top hc)
  | cordon | uncordon => exact discard_top (cordonAndAudit_top hc)
  | drain => exact drainResource_top hc
  | promotePending =>
    refine repair_top (.opening trivial hc fun t h => ?_)
    exact promotePending_does h rfl
  | reapQueueTimeouts =>
    refine repair_top (.opening trivial hc fun t h => ?_)
    exact reapQueueTimeouts_does h rfl
  | sweepExpired => exact repair_top (.of_top (sweepExpired_top hc))
  | reapOrphanedActive => exact repair_top (.of_top (reapOrphanedActive_top hc))
  | provision => exact connection_top (provisionHandler_body hc)
  | teardown => exact connection_top (teardownHandler_body hc)
end Kdive
