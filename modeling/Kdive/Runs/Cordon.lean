import Kdive.Lib.Keys
import Kdive.Runs.Basic
import Kdive.Spec.Origin

/-! # Cordons

`resources.cordon` and `resources.drain` set a flag that placement reads when it selects candidates, and nothing reads
again. A request whose transaction had selected the host when the cordon committed is granted on it
(`granted_on_cordoned`). Where no such transaction is open, a cordoned host gets no allocation
(`no_grant_on_cordoned`).
-/

namespace Kdive
open Lib Lab Option Client

def Uncordoned (db : Db) (r : Uuid) : Prop :=
  ∀ host, db.resources.get r = some host → host.cordoned = false

theorem Takes.mayTake_of_mem {v : Db} {L ks : List LockKey} {k : LockKey} (h : Takes v L ks)
    (hk : k ∈ ks) : ∃ L', mayTake v L' k := by
  induction ks generalizing L with
  | nil => cases hk
  | cons k' ks ih =>
    rcases List.mem_cons.mp hk with rfl | hk
    · exact ⟨L, h.1⟩
    · exact ih h.2 hk

theorem resources_of_quiet {ws : List Write} (h : ∀ w ∈ ws, Write.quiet w = true) (c : Db) :
    (store.applyAll ws c).resources = c.resources := by
  refine Store.read_applyAll_of_eq (σ := store) Db.resources ?_ c
  intro w hw db
  have hquiet := h w hw
  cases w <;> first | rfl | cases hquiet

theorem Uncordoned.applyAll {ws : List Write} {c : Db} {r : Uuid}
    (hws : Write.setCordoned r true ∉ ws) (h : Uncordoned c r) : Uncordoned (store.applyAll ws c) r := by
  induction ws generalizing c with
  | nil => exact h
  | cons w ws ih =>
    rw [List.mem_cons, not_or] at hws
    refine ih hws.2 ?_
    intro host hhost
    change (w.apply c).resources.get r = some host at hhost
    rw [w.get_resources] at hhost
    cases w with
    | setCordoned id flag =>
      simp only [Write.onResource] at hhost
      split at hhost
      · rename_i hid
        obtain ⟨old, -, rfl⟩ := map_eq_some_iff.mp hhost
        cases flag with
        | false => rfl
        | true => exact absurd (hid ▸ rfl) hws.1
      · exact h host hhost
    | _ => exact h host hhost

variable {fixed : String → Prop}

theorem uncordoned_of_take {db : Db} {l : Conn store} {ks : List LockKey}
    {ws : List Write} {r : Uuid} (hsafe : StmtSafe (protocol fixed) l (l.view db) ks ws)
    (hnew : .picked r ∈ ks.filter (· ∉ l.locks)) : Uncordoned db r := by
  obtain ⟨htakes, hquiet⟩ : stmtOk l (l.view db) ks ws := hsafe.2
  obtain ⟨L, row, hrow, hfree⟩ := htakes.mayTake_of_mem hnew
  rw [Conn.view, resources_of_quiet (hquiet ⟨_, (List.mem_filter.mp hnew).1, rfl⟩)] at hrow
  intro host hhost
  rw [hhost, some.injEq] at hrow
  rwa [hrow]

/-! ## Where cordons wait for the choices made -/

/-- A cordon of the host commits only while no open transaction has selected it as a candidate. -/
def cordonsApart (r : Uuid) (s : Sys store) (ch : Choice store Client) : Prop :=
  Write.setCordoned r true ∈ s.commits ch → ∀ q ∈ s.sess, .picked r ∉ q.conn.locks

instance (r : Uuid) (s : Sys store) (ch : Choice store Client) : Decidable (cordonsApart r s ch) :=
  inferInstanceAs (Decidable (_ → ∀ q ∈ s.sess, LockKey.picked r ∉ q.conn.locks))

variable {cfg : Config} {r : Uuid} {s s' : Sys store}

theorem uncordoned_of_picked (h : ReachableBy cfg (cordonsApart r) s) :
    ∀ q ∈ s.sess, .picked r ∈ q.conn.locks → Uncordoned s.db r := by
  refine Sys.Reach.keys (K := fun db L => .picked r ∈ L → Uncordoned db r)
    (fun _ c _ => safe_of_noneFixed c) (fun _ => Fresh.wellFormed) ?_ ?_ ?_ ?_ h
  · intro db hmem
    cases hmem
  · intro db L L' hpre hL hmem
    exact hL (hpre.subset hmem)
  · intro db l ks ws _ hsafe hL hmem
    rcases List.mem_append.mp hmem with hmem | hmem
    · exact hL hmem
    · exact uncordoned_of_take hsafe hmem
  · intro s ch s' q hholds hok hs hq hL hmem
    obtain ⟨-, hdb, -⟩ := hholds.step (fun c _ => safe_of_noneFixed c) hs
    rw [hdb]
    exact (hL hmem).applyAll fun hset => hok hset q hq hmem

def GrantedOn (c : Db) (r id : Uuid) : Prop :=
  ∃ a, c.allocations.get id = some a ∧ a.state = .granted ∧ a.resourceId = some r

theorem GrantedOn.of_act {a : Action} {c : Db} {id : Uuid} (hg : a.guard fixed c) (hpick : .picked r ∉ a.need)
    (h : GrantedOn (a.on c) r id) : GrantedOn c r id := by
  obtain ⟨new, hnew, hstate, hhost⟩ := h
  cases Action.rowOrigin hg hnew with
  | continues old hold hcont =>
    exact ⟨old, hold, hcont.granted hstate, hcont.resourceId.trans hhost⟩
  | placed host hid hneed hplaced =>
    rw [hplaced.resourceId, some.injEq] at hhost
    exact absurd (hhost ▸ hneed) hpick
  | enqueued hid henq =>
    rw [henq.state] at hstate
    cases hstate

theorem GrantedOn.of_path {as : List Action} {c : Db} {id : Uuid}
    (hpath : (protocol fixed).Path c as) (hpick : ∀ a ∈ as, .picked r ∉ a.need)
    (h : GrantedOn ((protocol fixed).effs as c) r id) : GrantedOn c r id := by
  induction as generalizing c with
  | nil => exact h
  | cons a as ih =>
    have hrest := ih hpath.2 (fun b hb => hpick b (List.mem_cons_of_mem _ hb)) h
    exact hrest.of_act hpath.1 (hpick a List.mem_cons_self)

/-- A cordoned host gets no allocation, if cordons come apart from requests. -/
theorem no_grant_on_cordoned (h : ReachableBy cfg (cordonsApart r) s) {ch : Choice store Client}
    (hs : s.step (prog cfg) ch = some s') {host : Resource}
    (hhost : s.db.resources.get r = some host) (hcordoned : host.cordoned = true) {id : Uuid}
    (hgranted : GrantedOn s'.db r id) : GrantedOn s.db r id := by
  have hholds := h.holds
  obtain ⟨-, hdb, -⟩ := hholds.step (fun c _ => safe_of_noneFixed c) hs
  rw [hdb] at hgranted
  rcases hholds.commits hs with hnone | ⟨q, hq, as, -, hws, hneed, hpath⟩
  · rwa [hnone] at hgranted
  · rw [hws, Protocol.applyAll_flatMap] at hgranted
    refine hgranted.of_path hpath ?_
    intro a ha hmem
    have hfree := uncordoned_of_picked h q hq (hneed a ha hmem) host hhost
    cases hcordoned.symm.trans hfree

def Lab.twoHosts : Db := { db with resources := ⟨[host 1 "local" 2 [], host 2 "local" 2 []], by decide⟩ }

/-- Host 1, which has an allocation, is cordoned, and the next request is about to be granted on host 2. -/
def Lab.cordonedLater : Sys store :=
  scriptedBy {} (fun s ch => decide (cordonsApart 1 s ch)) twoHosts
    [.start (oneHour "kernel" (some 1) [] .deny), .go 0 { uuid := 10 } 100, .start (.cordon (member "kernel") 1),
      .go 1 {} 100, .start (oneHour "kernel" none [] .deny), .go 2 { uuid := 11 } 20]

theorem no_grant_on_cordoned_later : ∃ (s' : Sys store) (host : Resource),
    cordonedLater.step (prog {}) (.act 2 (.go true)) = some s' ∧ cordonedLater.db.resources.get 1 = some host ∧
    host.cordoned = true ∧ GrantedOn s'.db 2 11 ∧ GrantedOn s'.db 1 10 ∧ GrantedOn cordonedLater.db 1 10 := by
  obtain ⟨host, hhost, hcordoned⟩ : ∃ host, cordonedLater.db.resources.get 1 = some host ∧ host.cordoned = true :=
    map_eq_some_iff.mp (by decide +kernel)
  obtain ⟨s', hs', hrows⟩ : ∃ s', cordonedLater.step (prog {}) (.act 2 (.go true)) = some s' ∧
      s'.db.allocations.rows.map (fun a => (a.id, a.state, a.resourceId)) =
        [(10, .granted, some 1), (11, .granted, some 2)] :=
    map_eq_some_iff.mp (by decide +kernel)
  have hgranted : ∀ {id r : Uuid}, (id, .granted, some r) ∈ s'.db.allocations.rows.map
      (fun a => (a.id, a.state, a.resourceId)) → GrantedOn s'.db r id := by
    intro id r h
    obtain ⟨a, ha, hrow⟩ := List.mem_map.mp h
    simp only [Prod.mk.injEq] at hrow
    exact ⟨a, Table.get_eq_some.mpr ⟨ha, hrow.1⟩, hrow.2⟩
  have h10 : GrantedOn s'.db 1 10 := hgranted (by simp [hrows])
  have hfresh : Fresh twoHosts := .of_rows rfl rfl rfl (by decide) (by decide) (by decide)
  refine ⟨s', host, hs', hhost, hcordoned, hgranted (by simp [hrows]), h10, ?_⟩
  exact no_grant_on_cordoned (reachableBy_scripted (fun _ _ h => of_decide_eq_true h) hfresh _) hs' hhost hcordoned h10

/-! ## The race -/

/-- A request selects host 1, the host is cordoned, and the request goes on for `n` operations. -/
def raced (n : Nat) : Script :=
  [.start (oneHour "kernel" (some 1) [] .deny), .go 0 { uuid := 10 } 1,
    .start (.cordon (member "kernel") 1), .go 1 {} 100, .go 0 { uuid := 10 } n]

/-- The cordon comes between selection and grant. -/
theorem granted_on_cordoned : ∃ (s s' : Sys store) (host : Resource), Reachable {} s ∧
    s.step (prog {}) (.act 0 (.go true)) = some s' ∧
    s.db.resources.get 1 = some host ∧ host.cordoned = true ∧
    GrantedOn s'.db 1 10 ∧ ¬ GrantedOn s.db 1 10 := by
  obtain ⟨host, hhost, hcordoned⟩ : ∃ host,
      (scripted {} db (raced 19)).db.resources.get 1 = some host ∧ host.cordoned = true :=
    map_eq_some_iff.mp (by decide +kernel)
  obtain ⟨s', hs', hrow⟩ : ∃ s', (scripted {} db (raced 19)).step (prog {}) (.act 0 (.go true)) = some s' ∧
      (s'.db.allocations.get 10).map (fun a => (a.state, a.resourceId)) = some (.granted, some 1) :=
    map_eq_some_iff.mp (by decide +kernel)
  obtain ⟨a, ha, hstate⟩ := map_eq_some_iff.mp hrow
  simp only [Prod.mk.injEq] at hstate
  refine ⟨_, s', host, reachable_scripted fresh (raced 19), hs', hhost, hcordoned, ⟨a, ha, hstate.1, hstate.2⟩, ?_⟩
  rintro ⟨old, hold, -⟩
  have hnone : (scripted {} db (raced 19)).db.allocations.get 10 = none := by decide +kernel
  cases hnone.symm.trans hold
end Kdive
