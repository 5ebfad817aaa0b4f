import Kdive.Platform.Clients
import Kdive.Platform.Protocol

/-! # The statements of the platform, inside a transaction

One rule for each function of `Kdive.Platform.Repositories`: from the steps made and the facts known before
it to those after it. Every write is a step of its own here, so nothing is ever half done, and what a proof
has to say at a write is that the step `Fits`: it is made under its keys, it is legitimate where the facts
hold, and it leaves the facts that are used afterwards.
-/

namespace Kdive.Platform
open Option

open BuildHosts StatefulRepository Lib
open Act (change goesLive movesSystem)
open List
open Jobs (JobRow StepRow Payload DedupKey)

/-- Inside a transaction, after the steps `as`, with `F` known of the database as they leave it. -/
abbrev Doing (as : List Act) (F : store.Db → Prop) (l : Conn store) (c : store.Db) : Prop :=
  During protocol as [] F l c

/-- Where `F` holds, the step may be made under the keys `K`, and `G` holds after it. -/
structure Fits (K : List store.Key) (F : store.Db → Prop) (a : Act) (G : store.Db → Prop) : Prop where
  need : a.need ⊆ K
  guard : ∀ v, Sound v → F v → a.guard v
  kept : Kept protocol K G
  leaves : ∀ v, Sound v → F v → a.guard v → G (protocol.eff a v)

variable {a : Act}

theorem Fits.of_imp {K : List store.Key} {F F' G : store.Db → Prop} (h : Fits K F a G)
    (hF : ∀ v, F' v → F v) : Fits K F' a G :=
  ⟨h.need, fun v hv hv' => h.guard v hv (hF v hv'), h.kept,
    fun v hv hv' => h.leaves v hv (hF v hv')⟩

theorem Fits.last {K : List store.Key} {F : store.Db → Prop} (need : a.need ⊆ K)
    (guard : ∀ v, Sound v → F v → a.guard v) : Fits K F a fun _ => True :=
  ⟨need, guard, .trivial, fun _ _ _ _ => trivial⟩

/-! ## Facts -/

namespace StatefulRepository
variable {ρ S : Type} [Keyed ρ Uuid] (repo : StatefulRepository ρ S)

def Sees (id : Uuid) (row : ρ) (v : store.Db) : Prop := (repo.rows v).get id = some row

def Lawful : Prop :=
  ∀ {H c c'}, Rely H c c' → ∀ id, repo.rowKey id ∈ H → (repo.rows c').get id = (repo.rows c).get id

variable {repo}

theorem kept_sees (hlaw : repo.Lawful) {K : List store.Key} {id : Uuid} {row : ρ}
    (hk : repo.rowKey id ∈ K) : Kept protocol K (repo.Sees id row) :=
  fun _ _ _ hK hr _ _ hrow => (hlaw hr id (hK hk)).trans hrow

theorem Sees.eq {id : Uuid} {row row' : ρ} {v : store.Db} (h : repo.Sees id row v)
    (h' : repo.Sees id row' v) : row = row' :=
  some.inj (h.symm.trans h')
end StatefulRepository

namespace Repositories
theorem lawful_systems : systems.Lawful :=
  fun h id hk => (h.core.systems id).locked (mem_coreKeys.mpr hk)

theorem lawful_investigations : investigations.Lawful :=
  fun h id hk => (h.investigations id).locked hk

theorem lawful_debugSessions : debugSessions.Lawful := fun h id hk => (h.sessions id).locked hk

theorem lawful_runs : runs.Lawful := fun h id hk => (h.runs id).locked hk

theorem lawful_jobs : jobs.Lawful := fun h id hk => (h.jobs id).locked hk
end Repositories

theorem hasJob_iff {v : store.Db} {key : DedupKey} : HasJob v key ↔ (Jobs.Queue.forKey v.2.jobs key).isSome := by
  rw [Jobs.Queue.forKey, find?_isSome]
  constructor
  · rintro ⟨id, j, hj, hkey⟩
    exact ⟨j, Table.mem_of_get hj, by simpa using hkey⟩
  · rintro ⟨j, hj, hkey⟩
    exact ⟨_, j, Table.get_key_of_mem hj, by simpa using hkey⟩

theorem ok_of_ensure {p : Bool} {e : Err} (h : (if p then Except.ok () else .error e) = .ok ()) : p = true := by
  cases p with
  | true => rfl
  | false => cases h

/-! ## Tidy transactions -/

def Act.silent : Act → Bool
  | .core _ | .audit _ | .system .. | .investigation .. | .run .. | .goLive .. | .detach ..
  | .newLease _ => false
  | _ => true

def Foreign (ch : Change) (bs : List Act) : Prop := ∀ b ∈ bs, b.records ch = false ∧ b.change ≠ some ch

variable {ch : Change} {r : AuditRow}

theorem Act.records_audit (h : ¬ ch.Recorded r) : (Act.audit r).records ch = false :=
  decide_eq_false h

variable {bs : List Act}

theorem Foreign.countP (h : Foreign ch bs) : bs.countP (·.records ch) = 0 :=
  countP_eq_zero.mpr fun b hb => by simp [(h b hb).1]

theorem Foreign.count (h : Foreign ch bs) : (bs.filterMap change).count ch = 0 := by
  refine count_eq_zero.mpr fun hmem => ?_
  obtain ⟨b, hb, hch⟩ := mem_filterMap.mp hmem
  exact (h b hb).2 hch

theorem Act.foreign_of_silent {b : Act} (h : b.silent = true) (ch : Change) :
    b.records ch = false ∧ b.change = none := by
  cases b <;> first | exact ⟨rfl, rfl⟩ | cases h

variable {as : List Act}

theorem Tidy.append (ha : Tidy as) (hb : Tidy bs) (hab : ∀ ch ∈ as.filterMap change, Foreign ch bs)
    (hba : ∀ ch ∈ bs.filterMap change, Foreign ch as)
    (hlive : (as ++ bs).any goesLive = true → (as ++ bs).any movesSystem = false) : Tidy (as ++ bs) := by
  refine ⟨?_, ?_, hlive, ?_⟩
  · intro a hmem
    rcases mem_append.mp hmem with h | h
    · exact ha.own a h
    · exact hb.own a h
  · intro ch hch
    rw [filterMap_append] at hch ⊢
    rw [countP_append, count_append]
    rcases mem_append.mp hch with h | h
    · rw [ha.audited ch h, (hab ch h).countP, (hab ch h).count]
    · rw [hb.audited ch h, (hba ch h).countP, (hba ch h).count]
  · intro l hl
    rcases mem_append.mp hl with h | h
    · exact mem_append_left _ (ha.leased l h)
    · exact mem_append_right _ (hb.leased l h)

theorem tidy_silent (h : ∀ b ∈ bs, b.silent = true) : Tidy bs := by
  have hnone : bs.filterMap change = [] :=
    filterMap_eq_nil_iff.mpr fun b hb => (b.foreign_of_silent (h b hb) (.job 0 .queued .queued)).2
  refine ⟨?_, by simp [hnone], ?_, ?_⟩
  · intro b hb
    have := h b hb
    cases b <;> first | rfl | cases this
  · intro hlive
    obtain ⟨b, hb, hgo⟩ := any_eq_true.mp hlive
    have := h b hb
    cases b with
    | goLive => cases this
    | _ => cases hgo
  · intro l hl
    cases h _ hl

theorem tidy_nil : Tidy [] := tidy_silent fun _ hb => absurd hb not_mem_nil

theorem Tidy.append_silent (ha : Tidy as) (h : ∀ b ∈ bs, b.silent = true) : Tidy (as ++ bs) := by
  have hforeign : ∀ ch, Foreign ch bs := by
    intro ch b hb
    have := b.foreign_of_silent (h b hb) ch
    exact ⟨this.1, by simp [this.2]⟩
  have hplain : bs.any goesLive = false ∧ bs.any movesSystem = false := by
    constructor <;>
    · refine any_eq_false.mpr fun b hb => ?_
      have := h b hb
      cases b <;> first | exact Bool.false_ne_true | cases this
  refine ha.append (tidy_silent h) (fun ch _ => hforeign ch) ?_ ?_
  · intro ch hch
    exact absurd (hforeign ch).count (count_pos_iff.mpr hch).ne'
  · rw [any_append, any_append, hplain.1, hplain.2, Bool.or_false, Bool.or_false]
    exact ha.live

theorem Tidy.cons_silent (h : Tidy as) (ha : a.silent = true) : Tidy (a :: as) := by
  have hone : ∀ b ∈ [a], b.silent = true := fun b hb => mem_singleton.mp hb ▸ ha
  have hplain : a.goesLive = false ∧ a.movesSystem = false := by
    cases a <;> first | exact ⟨rfl, rfl⟩ | cases ha
  refine (tidy_silent hone).append h ?_ ?_ ?_
  · intro ch hch
    rw [filterMap_cons_none (a.foreign_of_silent ha ch).2] at hch
    cases hch
  · intro ch _ b hb
    have := a.foreign_of_silent ha ch
    rw [mem_singleton.mp hb]
    exact ⟨this.1, by simp [this.2]⟩
  · rw [any_append, any_append, any_cons, any_cons, hplain.1, hplain.2]
    exact h.live

theorem Tidy.silent_append (h : Tidy as) (hbs : ∀ b ∈ bs, b.silent = true) : Tidy (bs ++ as) := by
  induction bs with
  | nil => exact h
  | cons b bs ih =>
    exact (ih fun b hb => hbs b (mem_cons_of_mem _ hb)).cons_silent (hbs b mem_cons_self)

theorem Tidy.perm (hp : as.Perm bs) (h : Tidy as) : Tidy bs := by
  have hch := hp.filterMap change
  refine ⟨fun b hb => h.own b (hp.mem_iff.mpr hb), ?_, ?_, ?_⟩
  · intro ch hmem
    rw [← hp.countP_eq, ← hch.count_eq]
    exact h.audited ch (hch.mem_iff.mpr hmem)
  · rw [← hp.any_eq, ← hp.any_eq]
    exact h.live
  · intro l hl
    exact hp.mem_iff.mp (h.leased l (hp.mem_iff.mpr hl))

theorem text_one {s : String} (h : r.transition = [.text s]) : r.text = some s := by
  simp [AuditRow.text, h, Part.asText, String.join]

theorem text_two {old new : String} (h : r.transition = [.text old, .text ("->" ++ new)]) :
    r.text = some (old ++ "->" ++ new) := by
  simp [AuditRow.text, h, Part.asText, String.join, String.append_assoc]

theorem tidy_change (ha : a.change = some ch) (hr : ch.Recorded r) : Tidy [a, .audit r] := by
  have hrecords : ∀ ch', a.records ch' = false := by cases a <;> first | exact fun _ => rfl | cases ha
  refine ⟨?_, ?_, ?_, ?_⟩
  · intro b hb
    rcases mem_pair.mp hb with rfl | rfl
    · cases b <;> first | rfl | cases ha
    · rfl
  · intro ch' hch'
    have hlist : [a, .audit r].filterMap change = [ch] := by
      rw [filterMap_cons_some ha]
      rfl
    rw [hlist] at hch' ⊢
    obtain rfl := mem_singleton.mp hch'
    have haudit : (Act.audit r).records ch' = true := decide_eq_true hr
    rw [countP_cons_of_neg (by simp [hrecords]), countP_cons_of_pos haudit]
    simp
  · cases a <;> simp [goesLive, movesSystem]
  · intro l hl
    rcases mem_pair.mp hl with rfl | h
    · cases ha
    · cases h

theorem Tidy.cons_audit (h : Tidy as) (hr : ∀ ch ∈ as.filterMap change, ¬ ch.Recorded r) : Tidy (.audit r :: as) := by
  have hone : Tidy [.audit r] := by
    refine ⟨?_, ?_, ?_, ?_⟩ <;> simp [Act.isCore, change, goesLive]
  refine hone.append h ?_ ?_ h.live
  · intro ch hch
    cases hch
  · intro ch hch b hb
    rw [mem_singleton.mp hb]
    exact ⟨by simpa [Act.records] using hr ch hch, by simp [change]⟩

theorem tidy_audit : Tidy [.audit r] :=
  tidy_nil.cons_audit fun _ h => absurd h not_mem_nil

theorem Tidy.leases {x : BuildHostLease} (h : Tidy as)
    (hbs : ∀ b ∈ bs, b = .newLease x) (hx : .backed x.runId ∈ as) : Tidy (bs ++ as) := by
  have hrecords : ∀ ch, bs.countP (·.records ch) = 0 := fun ch =>
    countP_eq_zero.mpr fun b hb => by rw [hbs b hb]; exact Bool.false_ne_true
  have hchange : bs.filterMap change = [] :=
    filterMap_eq_nil_iff.mpr fun b hb => by rw [hbs b hb]; rfl
  have hlive : bs.any goesLive = false := any_eq_false.mpr fun b hb => by
    rw [hbs b hb]
    exact Bool.false_ne_true
  have hmoves : bs.any movesSystem = false := any_eq_false.mpr fun b hb => by
    rw [hbs b hb]
    exact Bool.false_ne_true
  refine ⟨?_, ?_, ?_, ?_⟩
  · intro a ha
    rcases mem_append.mp ha with ha | ha
    · rw [hbs a ha]
      rfl
    · exact h.own a ha
  · intro ch hch
    rw [filterMap_append, hchange, nil_append] at hch ⊢
    rw [countP_append, hrecords, Nat.zero_add]
    exact h.audited ch hch
  · rw [any_append, any_append, hlive, hmoves]
    exact h.live
  · intro l hl
    rcases mem_append.mp hl with hl | hl
    · have := hbs _ hl
      cases this
      exact mem_append_right _ hx
    · exact mem_append_right _ (h.leased l hl)

namespace Doing
variable {α : Type} {as : List Act} {F G : store.Db → Prop} {l l' : Conn store} {c c' : store.Db}
variable {R : Post store α}

/-! ## Reads, locks and audit rows -/

section
variable (h : Doing as F l c)
include h

theorem select {f : store.Db → Time → α}
    (hR : ∀ c', Doing as F l c' → R (f (protocol.effs as c') l.now) l c') : Does protocol (Prog.select f) l c R :=
  During.select h fun c' h' _ => hR c' h'

theorem lock {scope : LockScope} {R : Post store Unit}
    (hR : ∀ l' c', scope.key ∈ l'.locks → Doing as F l' c' → Ext protocol l c l' c' → R () l' c') :
    Does protocol (advisoryXactLock scope) l c R := by
  refine During.lock h ?_
  intro c' v _ _ _
  exact ⟨trivial, fun l' _ hk h' hx => hR l' c' hk h' hx⟩

theorem step {st : Stmt store} {f : store.Db → Time → α}
    (hok : ∀ c' ws v, Doing as F l c' → v = protocol.effs as c' → st.act v l.now = .ok ws →
      (ws = [] ∧ ∀ l', Ext protocol l c l' c' → Doing as F l' c' → R (f v l.now) l' c') ∨
      ∃ (a : Act) (F' G : store.Db → Prop), ws = a.writes ∧ F' v ∧ Fits (l.locks ++ st.keys v l.now) F' a G ∧
        ∀ l', Ext protocol l c l' c' → (∀ k ∈ st.keys v l.now, k ∈ l'.locks) →
          Doing (as ++ [a]) G l' c' → R (f v l.now) l' c') : Does protocol (Prog.stmt st f) l c R := by
  refine During.perform h ?_
  intro c' ws v h' hv hact
  have hinv : Sound v := hv ▸ h'.inv_effs
  rcases hok c' ws v h' hv hact with ⟨rfl, hR⟩ | ⟨a, F', G, hws, hF', hfits, hR⟩
  · refine ⟨trivial, [], rfl, fun _ hb => absurd hb not_mem_nil, trivial, ?_⟩
    intro l' hx _ hdone
    have h'' := hdone F (h'.kept.mono hx.locks_sub.subset) (hv ▸ h'.fact)
    rw [append_nil] at h''
    exact hR l' hx h''
  have hguard := hfits.guard v hinv hF'
  refine ⟨trivial, [a], ?_, ?_, ⟨hguard, trivial⟩, ?_⟩
  · rwa [flatMap_singleton]
  · intro b hb
    rw [mem_singleton.mp hb]
    exact hfits.need
  · intro l' hx hkeys hdone
    refine hR l' hx hkeys (hdone G (hfits.kept.mono ?_) (hfits.leaves v hinv hF' hguard))
    intro k hk
    rcases mem_append.mp hk with hk | hk
    · exact hx.mem_locks hk
    · exact hkeys k hk

theorem audit {ctx : RequestContext} {event : AuditEvent} {R : Post store Unit}
    (hF : ∀ v r, F v → F (store.apply (.inl (.insertAudit r)) v))
    (hR : ∀ l' c', Ext protocol l c l' c' →
      Doing (as ++ [.audit (Audit.row ctx.principal ctx.agentSession event)]) F l' c' → R () l' c') :
    Does protocol (Platform.audit ctx event) l c R := by
  unfold Platform.audit Audit.record
  split
  · rw [Audit.recordSystem, Prog.lift_stmt]
    refine h.step ?_
    intro c' ws v h' hv hact
    cases hact
    refine .inr ⟨.audit _, F, F, rfl, hv ▸ h'.fact, ⟨nil_subset _, fun _ _ _ => trivial, ?_, ?_⟩, ?_⟩
    · exact h'.kept.mono (subset_append_left _ _)
    · exact fun v _ hv _ => hF v _ hv
    · exact fun l' hx _ h'' => hR l' c' hx h''
  · exact h.raise
end

/-! ## Repositories -/

section
variable {ρ S : Type} [Keyed ρ Uuid] {repo : StatefulRepository ρ S} {id : Uuid}

theorem getForUpdate {R : Post store (Option ρ)} (hlaw : repo.Lawful) (h : Doing as F l c)
    (hnone : ∀ l' c', Ext protocol l c l' c' → Doing as F l' c' → R .none l' c')
    (hsome : ∀ row l' c', Ext protocol l c l' c' → repo.rowKey id ∈ l'.locks →
      Doing as (fun v => F v ∧ repo.Sees id row v) l' c' → R (some row) l' c') :
    Does protocol (repo.getForUpdate id) l c R := by
  refine During.selectFor h ?_
  intro c' v h' _ hv
  rw [Store.applyAll_nil] at hv
  refine ⟨trivial, ?_⟩
  intro l' hlocks h'' hx
  cases hrow : (repo.rows v).get id with
  | none => exact hnone l' c' hx h''
  | some row =>
    have hkey : repo.rowKey id ∈ l'.locks := by
      rw [hlocks, hrow]
      by_cases hk : repo.rowKey id ∈ l.locks
      · exact mem_append_left _ hk
      · exact mem_append_right _ (mem_filter.mpr ⟨mem_singleton.mpr rfl, by simpa using hk⟩)
    exact hsome row l' c' hx hkey (h''.know (StatefulRepository.kept_sees hlaw hkey) (hv ▸ hrow))

variable {R : Post store Unit}

theorem insert {row : ρ} {a : Act} (h : Doing as F l c) (hw : a.writes = [repo.insertion row])
    (hfits : Fits (l.locks ++ [repo.rowKey (Keyed.key row)])
      (fun v => F v ∧ (repo.rows v).get (Keyed.key row) = .none) a G)
    (hR : ∀ l' c', Ext protocol l c l' c' → repo.rowKey (Keyed.key row) ∈ l'.locks →
      Doing (as ++ [a]) G l' c' → R () l' c') : Does protocol (repo.insert row) l c R := by
  refine h.step ?_
  intro c' ws v h' hv hact
  cases hrow : (repo.rows v).get (Keyed.key row) with
  | some => simp [insertStmt, hrow] at hact
  | none =>
    simp only [insertStmt, hrow, isSome_none, Bool.false_eq_true, if_false, Except.ok.injEq] at hact
    refine .inr ⟨a, _, G, hact.symm.trans hw.symm, ⟨hv ▸ h'.fact, hrow⟩, hfits, ?_⟩
    exact fun l' hx hkeys h'' => hR l' c' hx (hkeys _ mem_cons_self) h''

variable {a : ρ → Act} {G : ρ → store.Db → Prop}

theorem update {cond : ρ → Bool} {w : Time → store.Write} {R : Post store (Option ρ)} (h : Doing as F l c)
    (hw : ∀ row, (a row).writes = [w l.now]) (hfits : ∀ row, cond row = true → Fits (l.locks ++ [repo.rowKey id])
      (fun v => F v ∧ repo.Sees id row v) (a row) (G row))
    (hnone : ∀ l' c', Ext protocol l c l' c' → (∀ row, cond row = true →
      ¬ repo.Sees id row (protocol.effs as c')) → Doing as F l' c' → R .none l' c')
    (hsome : ∀ row l' c' v, Ext protocol l c l' c' → repo.rowKey id ∈ l'.locks → cond row = true →
      F v → repo.Sees id row v → Doing (as ++ [a row]) (G row) l' c' → R (some row) l' c') :
    Does protocol (repo.update id cond w) l c R := by
  refine h.step ?_
  intro c' ws v h' hv hact
  cases hact
  cases hfound : ((repo.rows v).get id).filter cond with
  | none =>
    have hany : ((repo.rows v).get id).any cond = false := by
      rw [← isSome_filter, hfound]
      rfl
    refine .inl ⟨by simp [hany], ?_⟩
    intro l' hx h''
    refine hnone l' c' hx ?_ h''
    intro row hcond hrow
    rw [← hv, StatefulRepository.Sees] at hrow
    rw [hrow, filter_some_pos hcond] at hfound
    cases hfound
  | some row =>
    have hrow : (repo.rows v).get id = some row := (filter_eq_some_iff.mp hfound).1
    have hcond : cond row = true := (filter_eq_some_iff.mp hfound).2
    have hany : ((repo.rows v).get id).any cond = true := by rw [hrow]; exact hcond
    refine .inr ⟨a row, fun v => F v ∧ repo.Sees id row v, G row, by rw [hw]; simp [hany], ⟨hv ▸ h'.fact, hrow⟩, ?_, ?_⟩
    · rw [show (repo.updateStmt id cond w).keys v l.now = [repo.rowKey id] from if_pos hany]
      exact hfits row hcond
    · intro l' hx hkeys h''
      refine hsome row l' c' v hx (hkeys _ ?_) hcond (hv ▸ h'.fact) hrow h''
      simp [updateStmt, hany]

/-- The update of a row that was read under its lock, and meets the condition. -/
theorem updateSeen {row : ρ} {a : Act} {G : store.Db → Prop} {cond : ρ → Bool} {w : Time → store.Write}
    {R : Post store (Option ρ)} (h : Doing as F l c) (hsees : ∀ v, F v → repo.Sees id row v)
    (hcond : cond row = true) (hw : a.writes = [w l.now]) (hfits : Fits (l.locks ++ [repo.rowKey id]) F a G)
    (hR : ∀ l' c', Doing (as ++ [a]) G l' c' → R (some row) l' c') : Does protocol (repo.update id cond w) l c R := by
  refine update (a := fun _ => a) (G := fun _ => G) h (fun _ => hw) (fun _ _ => hfits.of_imp fun v hv => hv.1) ?_ ?_
  · intro l' c' _ hnone h'
    exact absurd (hsees _ h'.fact) (hnone row hcond)
  · intro row' l' c' v _ _ _ hv hrow h'
    obtain rfl : row = row' := some.inj ((hsees v hv).symm.trans hrow)
    exact hR l' c' h'

variable {new : S} (hlaw : repo.Lawful) (h : Doing as F l c) (hw : ∀ row, (a row).writes = [repo.setState id new])
  (hfits : ∀ row, repo.ensureTransition (repo.state row) new = .ok () →
    ∀ K, l.locks ⊆ K → repo.rowKey id ∈ K → Fits K (fun v => F v ∧ repo.Sees id row v) (a row) (G row))
include hlaw h hw hfits

theorem updateStateBlock (hR : ∀ row l' c' v, repo.rowKey id ∈ l'.locks →
      repo.ensureTransition (repo.state row) new = .ok () → F v → repo.Sees id row v →
      Doing (as ++ [a row]) (G row) l' c' → R () l' c') : Does protocol (repo.updateStateBlock id new) l c R := by
  refine .seq (Doing.getForUpdate hlaw h (fun _ _ _ h' => h'.raise) ?_)
  intro row l1 c1 hx1 hkey h1
  refine .seq (h1.ofExcept ?_)
  intro _ hlegal
  refine .seq (Doing.update (G := fun _ => G row) h1 (fun _ => hw row) ?_ ?_ ?_)
  · intro row' _
    refine (hfits row hlegal _ ?_ (mem_append_right _ mem_cons_self)).of_imp fun _ hv => hv.1
    exact fun k hk => mem_append_left _ (hx1.mem_locks hk)
  · intro l2 c2 _ _ h2
    exact h2.raise
  · intro row' l2 c2 v _ hkey2 _ hF _ h2
    exact h2.ret (hR row l2 c2 v hkey2 hlegal hF.1 hF.2 h2)

theorem updateState (hR : ∀ row l' c' v, Ext protocol l c l' c' → repo.rowKey id ∈ l'.locks →
      repo.ensureTransition (repo.state row) new = .ok () → F v → repo.Sees id row v →
      Doing (as ++ [a row]) (G row) l' c' → R () l' c') : Does protocol (repo.updateState id new) l c R := by
  refine During.block h fun h' => Doing.updateStateBlock (G := G) hlaw h' hw ?_ ?_
  · rwa [Conn.locks_enter]
  · intro row l1 c1 v hkey hlegal hF hsees h1
    refine ⟨_, _, _, h1, ?_⟩
    intro l2 h2 hl2 hx2
    exact hR row l2 c1 v hx2 (hl2 ▸ hkey) hlegal hF hsees h2
end

/-! ## Jobs, steps and leases -/

section
variable (h : Doing as F l c)
include h

theorem enqueueBlock {payload : Payload} {key : DedupKey}
    (hrun : ∀ v, Sound v → F v → ∀ runId, payload.runId = some runId → Started v runId)
    (hkey : ∀ runId, key = .build runId → ∃ cmdline, payload = .build runId cmdline) :
    Does protocol (Queue.enqueueBlock payload key) l c fun _ l' c' => ∃ bs,
      (∀ b ∈ bs, ∃ j, b = .newJob j) ∧ Doing (as ++ bs) (fun v => HasJob v key) l' c' := by
  have hkept : ∀ K, Kept protocol K fun v => HasJob v key := fun K _ _ _ _ hr _ _ hj => hr.hasJob hj
  -- the statement inserts the row, or another has it already
  have hinsert : ∀ {id : Uuid} {l1 : Conn store}, Doing as F l1 c →
      Does protocol (Prog.stmt (Queue.insertStmt id payload key Jobs.Queue.defaultMaxAttempts)
        fun _ _ => ()) l1 c fun _ l' c' => ∃ bs, (∀ b ∈ bs, ∃ j, b = Act.newJob j) ∧
          Doing (as ++ bs) (fun v => HasJob v key) l' c' := by
    intro id l1 h1
    refine h1.step ?_
    intro c' ws v h' hv hact
    by_cases hhas : (Jobs.Queue.forKey v.2.jobs key).isSome
    · have hws : ws = [] := by simpa [Queue.insertStmt, hhas] using hact.symm
      refine .inl ⟨hws, fun l' _ h'' => ⟨[], fun _ hb => absurd hb not_mem_nil, ?_⟩⟩
      rw [append_nil]
      have hjob : HasJob (protocol.effs as c') key := hv ▸ hasJob_iff.mpr hhas
      exact (h''.know (hkept _) hjob).conseq (hkept _) fun _ _ hv => hv.2
    · cases hfresh : v.2.jobs.get id with
      | some => simp [Queue.insertStmt, hhas, hfresh] at hact
      | none =>
        simp only [Queue.insertStmt, hhas, hfresh, Bool.false_eq_true, if_false, isSome_none, Except.ok.injEq] at hact
        refine .inr ⟨.newJob _, fun v => F v ∧ v.2.jobs.get id = .none ∧ ¬ HasJob v key, _, hact.symm,
          ⟨hv ▸ h'.fact, hfresh, fun hj => hhas (hasJob_iff.mp hj)⟩, ⟨?_, ?_, hkept _, ?_⟩, ?_⟩
        · simp [Queue.insertStmt, hhas]
        · exact fun v hv hF => ⟨hF.2.1, hF.2.2, rfl, hrun v hv hF.1, hkey⟩
        · intro v _ hF _
          exact ⟨id, _, Table.get_insert_self hF.2.1, rfl⟩
        · intro l' _ _ h''
          exact ⟨_, fun b hb => ⟨_, mem_singleton.mp hb⟩, h''⟩
  refine .seq (h.ask ?_)
  intro id
  refine .bind (hinsert h) ?_
  rintro _ l1 c1 - ⟨bs, hbs, h1⟩
  refine .seq (Doing.select h1 ?_)
  intro c2 h2
  split
  · exact h2.raise
  · exact h2.ret ⟨bs, hbs, h2⟩

theorem enqueue {payload : Payload} {key : DedupKey} {R : Post store JobRow}
    (hrun : ∀ v, Sound v → F v → ∀ runId, payload.runId = some runId → Started v runId)
    (hkey : ∀ runId, key = .build runId → ∃ cmdline, payload = .build runId cmdline)
    (hR : ∀ job bs l' c', Ext protocol l c l' c' → (∀ b ∈ bs, ∃ j, b = .newJob j) →
      Doing (as ++ bs) (fun v => HasJob v key) l' c' → R job l' c') :
    Does protocol (Queue.enqueue payload key) l c R := by
  refine During.block h fun h' => (Doing.enqueueBlock h' hrun hkey).mono ?_
  rintro job l1 c1 - ⟨bs, hbs, h1⟩
  exact ⟨_, _, _, h1, fun l2 h2 _ hx2 => hR job bs l2 c1 hx2 hbs h2⟩

theorem recordBuild {runId : Uuid} {result : Jobs.BuildStepResult} {R : Post store Unit}
    (hF : ∀ v s, F v → F (store.apply (.inr (.insertStep s)) v))
    (hR : ∀ bs l' c', Ext protocol l c l' c' → (∀ b ∈ bs, ∃ s, b = .newStep s) →
      Doing (as ++ bs) F l' c' → R () l' c') : Does protocol (Runs.recordBuild runId result) l c R := by
  refine h.step ?_
  intro c' ws v h' hv hact
  cases hact
  cases hrow : v.2.steps.get (Jobs.Db.buildStep runId result).runId with
  | some =>
    refine .inl ⟨by simp, fun l' hx h'' => ?_⟩
    refine hR [] l' c' hx (fun _ hb => absurd hb not_mem_nil) ?_
    rw [append_nil]
    exact h''
  | none =>
    refine .inr ⟨.newStep _, fun v => F v ∧ v.2.steps.get _ = .none, F, by simp; rfl,
      ⟨hv ▸ h'.fact, hrow⟩, ⟨?_, fun _ _ hF => hF.2, ?_, fun v _ hv _ => hF v _ hv.1⟩, ?_⟩
    · simp [Runs.recordStepStmt, hrow]
    · exact h'.kept.mono (subset_append_left _ _)
    · intro l' hx _ h''
      exact hR _ l' c' hx (fun b hb => ⟨_, mem_singleton.mp hb⟩) h''

theorem tryAcquireLease {host : BuildHost} {runId : Uuid} {R : Post store Bool}
    (hhost : ∀ v, F v → v.2.buildHosts.get host.id = some host)
    (hfalse : ∀ l' c', Ext protocol l c l' c' → Doing as F l' c' → R false l' c')
    (htrue : ∀ bs l' c', Ext protocol l c l' c' → (∀ b ∈ bs, b = .newLease ⟨runId, host.id⟩) →
      Doing (as ++ bs) (fun _ => True) l' c' → R true l' c') : Does protocol (tryAcquireLease host runId) l c R := by
  refine .seq (h.lock ?_)
  intro l1 c1 hkey h1 hx1
  refine .bind (S := fun _ l' c' => l' = l1 ∧ Doing as F l1 c') (Doing.select h1 ?_) ?_
  · exact fun c2 h2 => ⟨rfl, h2⟩
  rintro existing l2 c2 hx2 ⟨rfl, h2⟩
  split
  · refine h2.ret (htrue [] _ c2 (hx1.trans hx2) (fun _ hb => absurd hb not_mem_nil) ?_)
    rw [append_nil]
    exact h2.conseq .trivial fun _ _ _ => trivial
  let Room : store.Db → Prop := fun v => leasesOf v.2 host.id < host.maxConcurrent
  have hroom : Kept protocol l2.locks Room := fun H v v' hK hr _ _ hv =>
    Nat.lt_of_le_of_lt (hr.leasesOf_le (hK hkey)) hv
  refine .bind (S := fun count l' c' => l' = l2 ∧ Doing as F l2 c' ∧
    (count < host.maxConcurrent → Doing as (fun v => F v ∧ Room v) l2 c')) (Doing.select h2 ?_) ?_
  · exact fun c3 h3 => ⟨rfl, h3, fun hlt => h3.know hroom hlt⟩
  rintro count l3 c3 hx3 ⟨rfl, h3, hcount⟩
  split
  · exact h3.ret (hfalse _ c3 (hx1.trans (hx2.trans hx3)) h3)
  rename_i hlt
  refine .seq (Doing.step (hcount (Nat.lt_of_not_le hlt)) ?_)
  intro c4 ws v h4 hv hact
  cases hrow : v.2.leases.get runId with
  | some => simp [insertLeaseStmt, hrow] at hact
  | none =>
    simp only [insertLeaseStmt, hrow, isSome_none, Bool.false_eq_true, if_false, Except.ok.injEq] at hact
    refine .inr ⟨.newLease ⟨runId, host.id⟩, fun v => (F v ∧ Room v) ∧ v.2.leases.get runId = .none,
      fun _ => True, hact.symm, ⟨hv ▸ h4.fact, hrow⟩, .last ?_ ?_, ?_⟩
    · intro k hk
      simp only [Act.need, mem_cons, not_mem_nil, or_false] at hk
      rcases hk with rfl | rfl
      · exact mem_append_left _ hkey
      · exact mem_append_right _ mem_cons_self
    · exact fun v _ hv => ⟨hv.2, host, hhost v hv.1.1, hv.1.2⟩
    · intro l' hx _ h5
      refine h5.ret (htrue _ l' c4 (hx1.trans (hx2.trans (hx3.trans hx))) ?_ h5)
      exact fun b hb => mem_singleton.mp hb
end

theorem path_of_guards {bs : List Act} (hbs : ∀ b ∈ bs, ∀ v, b.guard v) (v : store.Db) : protocol.Path v bs := by
  induction bs generalizing v with
  | nil => trivial
  | cons b bs ih =>
    exact ⟨hbs b mem_cons_self v, ih (fun b hb => hbs b (mem_cons_of_mem _ hb)) _⟩

theorem deleteLeases {cond : store.Db → BuildHostLease → Bool} {f : store.Db → Time → α} (h : Doing as F l c)
    (hR : ∀ x bs l' c', Ext protocol l c l' c' → (∀ b ∈ bs, ∃ id, b = .dropLease id) →
      Doing (as ++ bs) (fun _ => True) l' c' → R x l' c') : Does protocol (Prog.stmt (deleteStmt cond) f) l c R := by
  refine During.perform h ?_
  intro c' ws v _ _ hact
  cases hact
  have hdrop : ∀ b ∈ (v.2.leases.rows.filter (cond v)).map fun l => Act.dropLease l.runId,
      ∃ id, b = .dropLease id ∧ .inr (.leaseRow id) ∈ (deleteStmt cond).keys v l.now := by
    intro b hb
    obtain ⟨x, hx, rfl⟩ := mem_map.mp hb
    exact ⟨_, rfl, mem_map_of_mem hx⟩
  refine ⟨trivial, (v.2.leases.rows.filter (cond v)).map fun l => .dropLease l.runId, ?_, ?_, path_of_guards ?_ v, ?_⟩
  · rw [flatMap_map]
    exact (flatMap_singleton' _).symm.trans (by rw [flatMap_map]; rfl)
  · intro b hb
    obtain ⟨id, rfl, hkey⟩ := hdrop b hb
    exact fun k hk => mem_append_right _ (mem_singleton.mp hk ▸ hkey)
  · intro b hb v
    obtain ⟨id, rfl, -⟩ := hdrop b hb
    trivial
  · intro l' hx _ hdone
    refine hR _ _ l' c' hx ?_ (hdone _ .trivial trivial)
    intro b hb
    obtain ⟨id, rfl, -⟩ := hdrop b hb
    exact ⟨id, rfl⟩

/-! ## Whole transactions -/

abbrev Complete (l : Conn store) (c : store.Db) : Prop := Lib.Ready protocol Tidy l c

theorem Complete.commits (h : Complete l c) : protocol.Commits l.locks l.log c :=
  Lib.Ready.commits (fun _ ht => .own ht) h

theorem complete (h : Doing as F l c) (ht : Tidy as) : Complete l c := h.ready ht

theorem stop {α : Type} {a : α} (h : Doing [] F l c) : Does protocol (.ret a) l c fun _ => Complete :=
  h.ret (complete h tidy_nil)

theorem savepoint {body : Async α} (h : Doing as F l c) (ht : Tidy as)
    (hbody : ∀ l, Doing as F l c → Does protocol body l c fun _ => Complete) :
    Does protocol (Prog.transaction body) l c fun _ => Complete :=
  (Keeps.block h ht fun h' => hbody _ h').does.mono fun _ _ _ _ hready => hready.1
end Doing

section
open Doing (Complete)

variable {α : Type} {c : store.Db}

theorem connection_top {p : Async α} (hp : p.Bare fun _ => True) (hc : Sound c)
    (hbody : ∀ l, Doing [] (fun _ => True) l c → Does protocol p l c fun _ => Complete) :
    Tame protocol (Prog.connection p) c := by
  refine .connection (.opening hp hc fun t h => ?_) fun _ _ _ _ => trivial
  exact (hbody _ h).mono fun _ _ _ _ hready => hready.commits

theorem own_top {body : Async α} (hc : Sound c)
    (hbody : ∀ l, Doing [] (fun _ => True) l c → Does protocol body l c fun _ => Complete) :
    Tame protocol (Prog.transaction body) c := by
  refine .own hc (fun t h => ?_) fun _ _ _ _ => trivial
  exact (hbody _ h).mono fun _ _ _ _ hready => hready.commits

theorem connection_own_top {body : Async α} (hc : Sound c)
    (hbody : ∀ l, Doing [] (fun _ => True) l c → Does protocol body l c fun _ => Complete) :
    Tame protocol (Prog.connection (Prog.transaction body)) c :=
  Top.connection (.of_top (own_top hc hbody)) fun _ _ _ _ => trivial

theorem discard_top {p : Async α} (h : Tame protocol p c) : Tame protocol (discard p) c :=
  Top.bind h (fun _ _ _ hi _ => .ret hi trivial) fun _ _ _ _ _ => trivial
end
end Kdive.Platform
