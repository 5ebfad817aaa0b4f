import Kdive.Proof.Accounting

/-! # Choosing a host, inside a transaction

The placement query records each schedulable host it returns. What comes out of it is then among the
hosts recorded, and is, but for the cordon, as it was read.
-/

namespace Kdive
open Lib

/-- A host is as it was read, but for its cordon. -/
def HostIs (r : Resource) (v : Db) : Prop :=
  (v.resources.get r.id).map (·.uncordoned) = some r.uncordoned

theorem kept_hostIs {fixed : String → Prop} {K : List LockKey} {r : Resource} : Kept (protocol fixed) K (HostIs r) := by
  intro H v v' _ hr _ _ h
  exact (Rely.resources hr r.id).trans h

theorem kept_hostsAre {fixed : String → Prop} {K : List LockKey} {rs : List Resource} :
    Kept (protocol fixed) K fun v => ∀ r ∈ rs, HostIs r v := by
  intro H v v' hH hr hv hv' h r hmem
  exact kept_hostIs H v v' hH hr hv hv' (h r hmem)

theorem takes_picked {v : Db} {L ks : List LockKey}
    (h : ∀ k ∈ ks, ∃ r row, k = .picked r ∧ v.resources.get r = some row ∧ row.cordoned = false) : Takes v L ks := by
  induction ks generalizing L with
  | nil => trivial
  | cons k ks ih =>
    obtain ⟨r, row, rfl, hrow, hc⟩ := h k List.mem_cons_self
    exact ⟨⟨row, hrow, hc⟩, ih fun x hx => h x (List.mem_cons_of_mem _ hx)⟩

namespace Placement
theorem schedulable_cordoned {r : Resource} (h : schedulable r = true) : r.cordoned = false := by
  simp only [schedulable, Bool.and_eq_true, Bool.not_eq_true'] at h
  exact h.1

theorem mem_ofKind {v : Db} {kind : ResourceKind} {r : Resource} (h : r ∈ ofKind v kind) :
    v.resources.get r.id = some r ∧ schedulable r = true := by
  rw [ofKind, orderByAge, (List.perm_insertionSort _ _).mem_iff, List.mem_filter] at h
  simp only [Bool.and_eq_true] at h
  exact ⟨Table.get_key_of_mem h.1, h.2.2⟩

def Candidates.hosts (x : Candidates) : List Resource := x.resources ++ x.capacityCandidate.toList
end Placement
end Kdive

namespace Lib.During
open Kdive Kdive.Placement

variable {α : Type} {fixed : String → Prop} {as : List Action} {F : Db → Prop}
variable {l l' : Conn store} {c c' : Db}

variable (h : InTx fixed as [] F l c)
include h

theorem pick {keys : Db → List LockKey} {f : Db → α} {R : Post store α} (hq : ∀ a ∈ as, a.ofQueue = true)
    (hkeys : ∀ v, ∀ k ∈ keys v, ∃ r row, k = .picked r ∧ v.resources.get r = some row ∧ row.cordoned = false)
    (hR : ∀ l' c' v, v = (protocol fixed).effs as c' →
      (∀ k ∈ l'.locks, k ∈ l.locks ∨ ∃ r, k = .picked r) → (∀ k ∈ keys v, k ∈ l'.locks) →
      InTx fixed as [] F l' c' → Since fixed l c l' c' → R (f v) l' c') : Wp fixed
      (Prog.selectFor (fun v _ => keys v) fun v _ => f v) l c R := by
  refine h.selectFor ?_
  intro c' v h' _ hv
  refine ⟨⟨takes_picked fun k hk => hkeys v k (List.mem_filter.mp hk).1,
    fun _ => h.quiet hq⟩, ?_⟩
  intro l' hl' h'' hx
  refine hR l' c' v hv ?_ ?_ h'' hx
  · intro k hk
    rw [hl'] at hk
    rcases List.mem_append.mp hk with hk | hk
    · exact .inl hk
    · obtain ⟨r, -, hr, -⟩ := hkeys v k (List.mem_filter.mp hk).1
      exact .inr ⟨r, hr⟩
  · intro k hk
    rw [hl']
    by_cases hmem : k ∈ l.locks
    · exact List.mem_append_left _ hmem
    · exact List.mem_append_right _ (List.mem_filter.mpr ⟨hk, by simpa using hmem⟩)

theorem schedulableCandidates {resourceId : Option Uuid} {kind : Option ResourceKind}
    {project : Option String} {R : Post store (List Resource)} (hq : ∀ a ∈ as, a.ofQueue = true)
    (hR : ∀ rs l' c', (∀ k ∈ l'.locks, k ∈ l.locks ∨ ∃ r, k = .picked r) →
      (∀ r ∈ rs, .picked r.id ∈ l'.locks) → InTx fixed as [] (fun v => F v ∧ ∀ r ∈ rs, HostIs r v) l' c' →
      Since fixed l c l' c' → R rs l' c') :
    Wp fixed (Placement.schedulableCandidates resourceId kind project) l c R := by
  have hself : ∀ k ∈ l.locks, k ∈ l.locks ∨ ∃ r, k = LockKey.picked r := fun k hk => .inl hk
  cases resourceId with
  | some id =>
    refine .seq (h.pick hq ?_ ?_)
    · intro v k hk
      obtain ⟨r, hr, rfl⟩ := List.mem_map.mp hk
      rw [Option.mem_toList, Option.filter_eq_some_iff] at hr
      have hid : r.id = id := Table.key_eq_of_get hr.1
      exact ⟨r.id, r, rfl, hid ▸ hr.1, schedulable_cordoned hr.2⟩
    · intro l1 c1 v hv hlocks hkeys h1 hx
      cases hget : v.resources.get id with
      | none =>
        refine h1.ret (hR [] l1 c1 hlocks (by simp) (h1.know kept_hostsAre (by simp)) hx)
      | some r =>
        by_cases hok : (schedulable r && affinityOk r project) = true
        · simp only [hok, if_true]
          have hid : r.id = id := Table.key_eq_of_get hget
          refine h1.ret (hR [r] l1 c1 hlocks ?_ (h1.know kept_hostsAre ?_) hx)
          · intro x hmem
            rw [List.mem_singleton.mp hmem]
            refine hkeys _ (List.mem_map.mpr ⟨r, ?_, rfl⟩)
            rw [Option.mem_toList, Option.filter_eq_some_iff]
            exact ⟨hget, (Bool.and_eq_true _ _ ▸ hok).1⟩
          · intro x hmem
            rw [List.mem_singleton.mp hmem, HostIs, hid, ← hv, hget]
            rfl
        · simp only [hok]
          exact h1.ret (hR [] l1 c1 hlocks (by simp) (h1.know kept_hostsAre (by simp)) hx)
  | none =>
    cases kind with
    | none =>
      exact h.ret (hR [] l c hself (by simp) (h.know kept_hostsAre (by simp)) (.refl h.good h.inv))
    | some =>
      refine .seq (h.pick hq ?_ ?_)
      · intro v k hk
        obtain ⟨r, hr, rfl⟩ := List.mem_map.mp hk
        obtain ⟨hget, hs⟩ := mem_ofKind hr
        exact ⟨r.id, r, rfl, hget, schedulable_cordoned hs⟩
      · intro l1 c1 v hv hlocks hkeys h1 hx
        refine h1.ret (hR _ l1 c1 hlocks ?_ (h1.know kept_hostsAre ?_) hx)
        · intro r hr
          exact hkeys _ (List.mem_map.mpr ⟨r, (List.mem_filter.mp hr).1, rfl⟩)
        · intro r hr
          obtain ⟨hget, -⟩ := mem_ofKind (List.mem_filter.mp hr).1
          rw [HostIs, ← hv, hget]
          rfl

theorem resolveCandidates {request : Placement.Request} {R : Post store Placement.Candidates}
    (hq : ∀ a ∈ as, a.ofQueue = true)
    (hR : ∀ x l' c', (∀ k ∈ l'.locks, k ∈ l.locks ∨ ∃ r, k = .picked r) →
      (∀ r ∈ Candidates.hosts x, .picked r.id ∈ l'.locks) →
      InTx fixed as [] (fun v => F v ∧ ∀ r ∈ Candidates.hosts x, HostIs r v) l' c' →
      Since fixed l c l' c' → R x l' c') : Wp fixed (Placement.resolveCandidates request) l c R := by
  refine .seq (h.schedulableCandidates hq ?_)
  intro rs l1 c1 hlocks hpicked h1 hx1
  split
  · refine h1.ret (hR _ l1 c1 hlocks ?_ ?_ hx1)
    · simpa [Candidates.hosts] using hpicked
    · simpa [Candidates.hosts] using h1
  · -- the loop only sorts the hosts: those it keeps are among those it was given
    have hloop : Wp fixed
        (Prog.foldEach (sift request.pcieSpecs) ⟨[], none⟩ rs) l1 c1 fun x l' c' =>
          (∀ r ∈ Candidates.hosts x, r ∈ rs) ∧ l' = l1 ∧
          InTx fixed as [] (fun v => F v ∧ ∀ r ∈ rs, HostIs r v) l1 c' := by
      refine .foldEach ?_ ?_ ⟨by simp [Candidates.hosts], rfl, h1⟩
      · rintro x l' c' ⟨-, rfl, h'⟩
        exact ⟨h'.good, h'.inv⟩
      · rintro x r l' c' hr ⟨hsub, rfl, h'⟩
        refine .seq (h'.select ?_)
        intro c2 h2 _
        refine .seq (h2.ofExcept ?_)
        intro resolution _
        cases resolution.outcome with
        | matched =>
          refine h2.ret ⟨?_, rfl, h2⟩
          intro y hy
          simp only [Candidates.hosts, List.mem_append, List.mem_singleton] at hy hsub
          rcases hy with (hy | rfl) | hy
          · exact hsub y (.inl hy)
          · exact hr
          · exact hsub y (.inr hy)
        | capacity =>
          refine h2.ret ⟨?_, rfl, h2⟩
          intro y hy
          simp only [Candidates.hosts, List.mem_append] at hy hsub
          rcases hy with hy | hy
          · exact hsub y (.inl hy)
          · cases hcap : x.capacityCandidate with
            | none =>
              rw [hcap] at hy
              obtain rfl : y = r := by simpa using hy
              exact hr
            | some =>
              rw [hcap] at hy hsub
              exact hsub y (.inr (by simpa using hy))
        | config => exact h2.ret ⟨hsub, rfl, h2⟩
    refine hloop.mono ?_
    rintro x l' c' hx ⟨hsub, rfl, h'⟩
    refine hR x l' c' hlocks (fun r hr => hpicked r (hsub r hr)) ?_ (hx1.trans hx)
    refine h'.conseq ?_ fun v _ hv => ⟨hv.1, fun r hr => hv.2 r (hsub r hr)⟩
    exact (h.kept.mono hx1.locks_sub.subset).and kept_hostsAre
end Lib.During
