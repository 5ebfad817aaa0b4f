import Kdive.Lib.Rules

/-! # Reasoning inside one transaction

Inside a transaction block nothing is asked of a program that raises, since the block is undone: `Does` speaks of
successful outcomes only. `During` is where such a proof is: the actions already complete, the writes made of the next
one, and what is known of the database before those writes, `Kept` by the keys held. Around blocks, where an exception
may be caught, `Keeps` says that whatever the outcome the writes pending are complete actions (`Ready`).
-/

namespace Lib
open List Conn Store Prog Protocol

variable {σ : Store} {α β : Type}

/-- `p` is safe inside the open transaction, and when it returns, `R` holds. -/
def Does (P : Protocol σ) (p : Prog σ α) (l : Conn σ) (c : σ.Db) (R : α → Conn σ → σ.Db → Prop) : Prop :=
  Spec P p l c fun r l' c' => ∀ a, r = .ok a → R a l' c'

namespace Does
variable {P : Protocol σ} {l : Conn σ} {c : σ.Db} {R : Post σ α}

theorem ret {a : α} (hg : Good P l) (hc : P.inv c) (h : R a l c) : Does P (.ret a) l c R := by
  refine Spec.ret hg hc ?_
  intro b hb
  cases hb
  exact h

theorem raise {e : σ.Err} (hg : Good P l) (hc : P.inv c) : Does P (.raise e : Prog σ α) l c R := by
  refine Spec.raise hg hc ?_
  intro b hb
  cases hb

theorem mono {R' : α → Conn σ → σ.Db → Prop} {p : Prog σ α} (h : Does P p l c R)
    (hR : ∀ a l' c', Ext P l c l' c' → R a l' c' → R' a l' c') : Does P p l c R' :=
  Spec.mono h fun _ l' c' hx hr a ha => hR a l' c' hx (hr a ha)

theorem bind {S : Post σ β} {p : Prog σ β} {f : β → Prog σ α} (hp : Does P p l c S)
    (hf : ∀ b l' c', Ext P l c l' c' → S b l' c' → Does P (f b) l' c' R) : Does P (p >>= f) l c R := by
  refine Spec.bind hp ?_ ?_
  · intro b l' c' hx hS
    exact hf b l' c' hx (hS b rfl)
  · intro e l' c' _ _ a ha
    cases ha

theorem seq {p : Prog σ β} {f : β → Prog σ α}
    (hp : Does P p l c fun b l' c' => Does P (f b) l' c' R) : Does P (p >>= f) l c R :=
  bind hp fun _ _ _ _ hf => hf

theorem ask {f : σ.Host → α} (hg : Good P l) (hc : P.inv c) (h : ∀ x, R (f x) l c) : Does P (ask f) l c R := by
  refine Spec.ask hg hc ?_
  intro x a ha
  cases ha
  exact h x

theorem ofExcept {x : Except σ.Err α} (hg : Good P l) (hc : P.inv c)
    (h : ∀ a, x = .ok a → R a l c) : Does P (ofExcept x) l c R :=
  Spec.ofExcept hg hc h

theorem stmt {st : Stmt σ} {f : σ.Db → Time → α} (ho : l.tx.isSome) (hg : Good P l)
    (hok : ∀ c' ws, Ext P l c l c' → st.act (l.view c') l.now = .ok ws →
      StmtSafe P l (l.view c') (st.keys (l.view c') l.now) ws ∧
      ∀ l', l' = l.grow ws ((st.keys (l.view c') l.now).filter (· ∉ l.locks)) → Ext P l c l' c' →
        R (f (l.view c') l.now) l' c') : Does P (stmt st f) l c R := by
  refine Spec.stmt ho hg ?_ ?_
  · intro e c' _ a ha
    cases ha
  · intro c' ws hx hws
    obtain ⟨hs, hR⟩ := hok c' ws hx hws
    refine ⟨hs, ?_⟩
    intro l' hl' hx' a ha
    cases ha
    exact hR l' hl' hx'

theorem foldEach {ι : Type} {I : Post σ α} {f : α → ι → Prog σ α} {is : List ι}
    (hI : ∀ a l' c', I a l' c' → Good P l' ∧ P.inv c')
    (hstep : ∀ a i l' c', i ∈ is → I a l' c' → Does P (f a i) l' c' I) {a : α} (h0 : I a l c) :
    Does P (foldEach f a is) l c I := by
  induction is generalizing a l c with
  | nil => exact ret (hI a l c h0).1 (hI a l c h0).2 h0
  | cons i is ih =>
    refine bind (hstep a i l c mem_cons_self h0) ?_
    intro a' l' c' _ ha'
    exact ih (fun a i l' c' hi => hstep a i l' c' (mem_cons_of_mem _ hi)) ha'

theorem catching {p : Prog σ α} {h : σ.Err → Prog σ α} (hp : Does P p l c R)
    (hh : ∀ e, ∃ e', h e = .raise e') : Does P (p.catching h) l c R := by
  refine Spec.catching hp (fun _ _ _ _ hR => hR) ?_
  intro e l' c' hx _
  obtain ⟨e', he'⟩ := hh e
  rw [he']
  exact raise hx.good hx.inv

theorem transaction {body : Prog σ α} (ho : l.tx.isSome) (hg : Good P l) (hc : P.inv c)
    (hbody : Does P body (l.enter 0) c fun a l' c' =>
      ∀ l'', l''.log = l'.log → l''.locks = l'.locks → Ext P l c l'' c' → R a l'' c') :
    Does P (transaction body) l c R := by
  refine Spec.transaction ho hg hc hbody ?_ ?_
  · intro a l' l'' c' hR hlog hlocks hx b hb
    cases hb
    exact hR a rfl l'' hlog hlocks hx
  · intro e l'' c' _ _ a ha
    cases ha

/-- What is done before an exception leaves no trace. -/
theorem undone {p : Prog σ Unit} {e : σ.Err} (hp : Does P p l c fun _ _ _ => True) :
    Does P (p.catching (fun _ => .ret ()) >>= fun _ => .raise e) l c R := by
  refine Spec.bind (R := fun _ _ _ => True) ?_ ?_ ?_
  · refine Spec.catching hp (fun _ _ _ _ _ => trivial) ?_
    intro _ l' c' hx _
    exact .ret hx.good hx.inv trivial
  · intro _ l' c' hx _
    exact Does.raise hx.good hx.inv
  · intro _ l' c' _ _ a ha
    cases ha
end Does

/-! ## What survives the others -/

/-- `F` survives whatever the others can do while the keys `K` are held. -/
def Kept (P : Protocol σ) (K : List σ.Key) (F : σ.Db → Prop) : Prop :=
  ∀ H v v', K ⊆ H → P.rely H v v' → P.inv v → P.inv v' → F v → F v'

namespace Kept
variable {P : Protocol σ} {K K' : List σ.Key} {F G : σ.Db → Prop}

theorem mono (hK : K ⊆ K') (h : Kept P K F) : Kept P K' F :=
  fun H v v' hH hr hv hv' hF => h H v v' (List.Subset.trans hK hH) hr hv hv' hF

theorem and (hF : Kept P K F) (hG : Kept P K G) : Kept P K fun v => F v ∧ G v :=
  fun H v v' hH hr hv hv' h => ⟨hF H v v' hH hr hv hv' h.1, hG H v v' hH hr hv hv' h.2⟩

theorem trivial : Kept P K fun _ => True := fun _ _ _ _ _ _ _ _ => ⟨⟩
end Kept

/-! ## The state of a proof inside a transaction -/

/-- After the actions `as`, with the writes `ws` of the next one made, and `F` known of the database
    as it stood before them. -/
structure During (P : Protocol σ) (as : List P.Act) (ws : List σ.Write) (F : σ.Db → Prop)
    (l : Conn σ) (c : σ.Db) : Prop where
  isOpen : l.tx.isSome
  good : Good P l
  inv : P.inv c
  log : l.log = as.flatMap P.writes ++ ws
  need : ∀ a ∈ as, P.need a ⊆ l.locks
  path : P.Path c as
  kept : Kept P l.locks F
  fact : F (P.effs as c)

namespace During
variable {P : Protocol σ} {as : List P.Act} {ws : List σ.Write} {F G : σ.Db → Prop}
variable {l l' : Conn σ} {c c' : σ.Db} {R : Post σ α}

section
variable (h : During P as ws F l c)
include h

theorem view : l.view c = σ.applyAll ws (P.effs as c) := by
  rw [Conn.view, h.log, applyAll_append, applyAll_flatMap]

theorem inv_effs : P.inv (P.effs as c) := h.path.inv h.inv

theorem write {ws' : List σ.Write} (hx : Ext P l c l' c')
    (hlog : l'.log = l.log ++ ws') : During P as (ws ++ ws') F l' c' := by
  have hneed : ∀ a ∈ as, P.need a ⊆ l'.locks := fun a ha =>
    List.Subset.trans (h.need a ha) hx.locks_sub.subset
  have hpath : P.Path c' as := h.path.stable h.need hx.rely h.inv hx.inv
  refine ⟨hx.isOpen h.isOpen, hx.good, hx.inv, ?_, hneed, hpath, h.kept.mono hx.locks_sub.subset, ?_⟩
  · rw [hlog, h.log, append_assoc]
  · have hw : ∀ w ∈ as.flatMap P.writes, P.wkeys w ⊆ l.locks := by
      intro w hw
      refine h.good.log w ?_
      rw [h.log]
      exact mem_append_left _ hw
    have hr := rely_applyAll hw hx.rely
    rw [applyAll_flatMap, applyAll_flatMap] at hr
    exact h.kept _ _ _ (fun _ hk => hk) hr h.inv_effs (hpath.inv hx.inv) h.fact

theorem ext (hx : Ext P l c l' c') (hlog : l'.log = l.log) : During P as ws F l' c' := by
  have hnil : During P as (ws ++ []) F l' c' := h.write hx (by rw [hlog, append_nil])
  rwa [append_nil] at hnil

theorem know (hG : Kept P l.locks G) (hfact : G (P.effs as c)) : During P as ws (fun v => F v ∧ G v) l c :=
  ⟨h.isOpen, h.good, h.inv, h.log, h.need, h.path, h.kept.and hG, ⟨h.fact, hfact⟩⟩

theorem conseq (hG : Kept P l.locks G) (hFG : ∀ v, P.inv v → F v → G v) : During P as ws G l c :=
  ⟨h.isOpen, h.good, h.inv, h.log, h.need, h.path, hG, hFG _ h.inv_effs h.fact⟩

theorem enter (t : Time) : During P as ws F (l.enter t) c := by
  refine ⟨isSome_enter l t, h.good.enter t, h.inv, ?_, ?_, h.path, ?_, h.fact⟩
  · rw [log_enter, h.log]
  · rw [locks_enter]
    exact h.need
  · rw [locks_enter]
    exact h.kept

theorem of_eq (hg : Good P l') (ho : l'.tx.isSome)
    (hlog : l'.log = l.log) (hlocks : l'.locks = l.locks) : During P as ws F l' c := by
  refine ⟨ho, hg, h.inv, ?_, ?_, h.path, ?_, h.fact⟩
  · rw [hlog, h.log]
  · rw [hlocks]
    exact h.need
  · rw [hlocks]
    exact h.kept
end

theorem commits {a : P.Act} (h : During P as (P.writes a) F l c) (hb : P.batch (as ++ [a]))
    (hneed : P.need a ⊆ l.locks) (hguard : ∀ v, P.inv v → F v → P.guard a v) : P.Commits l.locks l.log c := by
  refine ⟨as ++ [a], hb, ?_, ?_, ?_⟩
  · rw [h.log, flatMap_append, flatMap_singleton]
  · intro b hmem
    rcases mem_append.mp hmem with hb | hb
    · exact h.need b hb
    · rwa [mem_singleton.mp hb]
  · exact h.path.append (hguard _ h.inv_effs h.fact)

theorem commits_nil (h : During P as [] F l c) (hb : P.batch as) : P.Commits l.locks l.log c := by
  refine ⟨as, hb, ?_, h.need, h.path⟩
  rw [h.log, append_nil]

/-! ### Statements -/

variable {f : σ.Db → Time → α}

theorem select (h : During P as ws F l c) (hR : ∀ c', During P as ws F l c' → Ext P l c l c' →
      R (f (σ.applyAll ws (P.effs as c')) l.now) l c') : Does P (select f) l c R := by
  refine .stmt h.isOpen h.good ?_
  intro c' ws' hx hws
  cases hws
  refine ⟨⟨by simp, P.stmtOk_nil _ _⟩, ?_⟩
  intro l' hl' _
  have h' := h.ext hx rfl
  rw [hl', filter_nil, grow_nil, h'.view]
  exact hR c' h' hx

variable {st : Stmt σ}

section
variable (h : During P as ws F l c)
include h

theorem stmt (hok : ∀ c' ws' v, During P as ws F l c' → Ext P l c l c' → v = σ.applyAll ws (P.effs as c') →
      st.act v l.now = .ok ws' → StmtSafe P l v (st.keys v l.now) ws' ∧
      ∀ l', l'.locks = l.locks ++ (st.keys v l.now).filter (· ∉ l.locks) →
        During P as (ws ++ ws') F l' c' → Ext P l c l' c' → R (f v l.now) l' c') : Does P (stmt st f) l c R := by
  refine .stmt h.isOpen h.good ?_
  intro c' ws' hx hws
  have h' := h.ext hx rfl
  rw [h'.view] at hws ⊢
  obtain ⟨hs, hR⟩ := hok c' ws' _ h' hx rfl hws
  refine ⟨hs, ?_⟩
  intro l' hl' hx'
  refine hR l' ?_ (h.write hx' ?_) hx'
  · rw [hl', locks_grow]
  · rw [hl', log_grow h.isOpen]

theorem pending (hsafe : ∀ v ws', st.act v l.now = .ok ws' → StmtSafe P l v (st.keys v l.now) ws') :
    Does P (Prog.stmt st f) l c fun _ l' c' => ∃ ws', During P as ws' F l' c' := by
  refine h.stmt ?_
  intro c' ws' v _ _ _ hact
  exact ⟨hsafe v ws' hact, fun l' _ h' _ => ⟨_, h'⟩⟩

theorem selectFor {keys : σ.Db → Time → List σ.Key}
    (hok : ∀ c' v, During P as ws F l c' → Ext P l c l c' → v = σ.applyAll ws (P.effs as c') →
      P.stmtOk l v (keys v l.now) [] ∧ ∀ l', l'.locks = l.locks ++ (keys v l.now).filter (· ∉ l.locks) →
        During P as ws F l' c' → Ext P l c l' c' → R (f v l.now) l' c') : Does P (selectFor keys f) l c R := by
  refine h.stmt ?_
  intro c' ws' v h' hx hv hws
  cases hws
  obtain ⟨hs, hR⟩ := hok c' v h' hx hv
  refine ⟨⟨by simp, hs⟩, ?_⟩
  intro l' hl' h'' hx'
  rw [append_nil] at h''
  exact hR l' hl' h'' hx'

theorem lock {key : σ.Key} {R : Post σ Unit}
    (hok : ∀ c' v, During P as ws F l c' → Ext P l c l c' → v = σ.applyAll ws (P.effs as c') →
      P.stmtOk l v [key] [] ∧ ∀ l', l'.locks = l.locks ++ [key].filter (· ∉ l.locks) → key ∈ l'.locks →
        During P as ws F l' c' → Ext P l c l' c' → R () l' c') : Does P (lock key) l c R := by
  refine h.selectFor ?_
  intro c' v h' hx hv
  obtain ⟨hs, hR⟩ := hok c' v h' hx hv
  refine ⟨hs, ?_⟩
  intro l' hl' h'' hx'
  refine hR l' hl' ?_ h'' hx'
  rw [hl']
  by_cases hk : key ∈ l.locks
  · exact mem_append_left _ hk
  · exact mem_append_right _ (by simp [hk])
end

/-- A statement whose writes are whole actions, complete at once. -/
theorem perform (h : During P as [] F l c)
    (hok : ∀ c' ws v, During P as [] F l c' → v = P.effs as c' → st.act v l.now = .ok ws →
      P.stmtOk l v (st.keys v l.now) ws ∧
      ∃ bs, ws = bs.flatMap P.writes ∧ (∀ b ∈ bs, P.need b ⊆ l.locks ++ st.keys v l.now) ∧
        P.Path v bs ∧ ∀ l', Ext P l c l' c' → (∀ k ∈ st.keys v l.now, k ∈ l'.locks) →
        (∀ G, Kept P l'.locks G → G (P.effs bs v) → During P (as ++ bs) [] G l' c') → R (f v l.now) l' c') :
    Does P (Prog.stmt st f) l c R := by
  refine h.stmt ?_
  intro c' ws v h' _ hv hact
  rw [applyAll_nil] at hv
  obtain ⟨hstmt, bs, hws, hneed, hpath, hR⟩ := hok c' ws v h' hv hact
  refine ⟨⟨?_, hstmt⟩, ?_⟩
  · intro w hw
    rw [hws] at hw
    obtain ⟨b, hb, hwb⟩ := mem_flatMap.mp hw
    exact List.Subset.trans (P.wkeys_need hwb) (hneed b hb)
  intro l' hl' h'' hx
  have hmem : ∀ k ∈ l.locks ++ st.keys v l.now, k ∈ l'.locks := by
    intro k hk
    rw [hl']
    by_cases hkl : k ∈ l.locks
    · exact mem_append_left _ hkl
    · have hnew := (mem_append.mp hk).resolve_left hkl
      exact mem_append_right _ (mem_filter.mpr ⟨hnew, by simpa using hkl⟩)
  refine hR l' hx (fun k hk => hmem k (mem_append_right _ hk)) ?_
  intro G hG hfact
  refine ⟨h''.isOpen, h''.good, h''.inv, ?_, ?_, h''.path.join (hv ▸ hpath), hG, ?_⟩
  · rw [h''.log, nil_append, append_nil, flatMap_append, hws]
  · intro a ha
    rcases mem_append.mp ha with ha | ha
    · exact h''.need a ha
    · exact fun k hk => hmem k (hneed a ha hk)
  · rwa [effs_append, ← hv]

theorem note {a : P.Act} (h : During P as [] F l c) (hw : P.writes a = [])
    (hneed : P.need a ⊆ l.locks) (hguard : ∀ v, P.inv v → F v → P.guard a v) : During P (as ++ [a]) [] F l c := by
  have heff : ∀ v, P.eff a v = v := fun v => by rw [eff, hw, applyAll_nil]
  refine ⟨h.isOpen, h.good, h.inv, ?_, ?_, h.path.append (hguard _ h.inv_effs h.fact), h.kept, ?_⟩
  · rw [h.log, flatMap_append, flatMap_singleton, hw]
    simp only [append_nil]
  · intro b hb
    rcases mem_append.mp hb with hb | hb
    · exact h.need b hb
    · rwa [mem_singleton.mp hb]
  · rw [effs_append]
    show F (P.eff a _)
    rw [heff]
    exact h.fact

variable (h : During P as ws F l c)
include h

/-- A block inside the transaction, with the actions it has completed. -/
theorem block {body : Prog σ α} (hbody : During P as ws F (l.enter 0) c →
      Does P body (l.enter 0) c fun a l' c' => ∃ as' ws' F', During P as' ws' F' l' c' ∧
        ∀ l'', During P as' ws' F' l'' c' → l''.locks = l'.locks → Ext P l c l'' c' → R a l'' c') :
    Does P (transaction body) l c R := by
  refine .transaction h.isOpen h.good h.inv ((hbody (h.enter 0)).mono ?_)
  rintro a l' c' - ⟨as', ws', F', hd, hR⟩ l'' hlog hlocks hx
  exact hR l'' (hd.of_eq hx.good (hx.isOpen h.isOpen) hlog hlocks) hlocks hx

theorem transaction {body : Prog σ α} (hbody : During P as ws F (l.enter 0) c →
      Does P body (l.enter 0) c fun a l' c' => ∃ ws' F', During P as ws' F' l' c' ∧
        ∀ l'', During P as ws' F' l'' c' → l''.locks = l'.locks → Ext P l c l'' c' → R a l'' c') :
    Does P (transaction body) l c R := by
  refine h.block fun h' => (hbody h').mono ?_
  rintro a l' c' - ⟨ws', F', hd, hR⟩
  exact ⟨as, ws', F', hd, hR⟩

theorem ret {a : α} (hR : R a l c) : Does P (.ret a) l c R :=
  Does.ret h.good h.inv hR

theorem raise {e : σ.Err} : Does P (.raise e : Prog σ α) l c R :=
  Does.raise h.good h.inv

theorem ask {f : σ.Host → α} (hR : ∀ x, R (f x) l c) : Does P (ask f) l c R :=
  Does.ask h.good h.inv hR

theorem ofExcept {x : Except σ.Err α} (hR : ∀ a, x = .ok a → R a l c) : Does P (ofExcept x) l c R :=
  Does.ofExcept h.good h.inv hR
end During

/-! ## Between blocks of one transaction -/

/-- What is pending on `l` is a complete sequence of actions, of the kind `B`. -/
def Ready (P : Protocol σ) (B : List P.Act → Prop) (l : Conn σ) (c : σ.Db) : Prop :=
  ∃ as, B as ∧ During P as [] (fun _ => True) l c

namespace Ready
variable {P : Protocol σ} {B B' : List P.Act → Prop} {l l' : Conn σ} {c c' : σ.Db}

theorem good (h : Ready P B l c) : Good P l := by
  obtain ⟨_, _, hd⟩ := h
  exact hd.good

theorem inv (h : Ready P B l c) : P.inv c := by
  obtain ⟨_, _, hd⟩ := h
  exact hd.inv

theorem commits (hB : ∀ as, B as → P.batch as) (h : Ready P B l c) : P.Commits l.locks l.log c := by
  obtain ⟨as, hb, hd⟩ := h
  exact hd.commits_nil (hB as hb)

theorem of_eq (h : Ready P B l c) (hg : Good P l') (ho : l'.tx.isSome)
    (hlog : l'.log = l.log) (hlocks : l'.locks = l.locks) : Ready P B l' c := by
  obtain ⟨as, hb, hd⟩ := h
  exact ⟨as, hb, hd.of_eq hg ho hlog hlocks⟩
end Ready

variable {P : Protocol σ} {l : Conn σ} {c : σ.Db} {B : List P.Act → Prop}

theorem During.ready {as : List P.Act} {F : σ.Db → Prop} (h : During P as [] F l c) (hB : B as) : Ready P B l c :=
  ⟨as, hB, h.conseq .trivial fun _ _ _ => trivial⟩

theorem Ready.select {f : σ.Db → Time → α} (h : Ready P B l c) :
    Does P (select f) l c fun _ l' c' => Ready P B l' c' := by
  obtain ⟨as, hB, hd⟩ := h
  refine hd.select ?_
  intro c' h' _
  exact h'.ready hB

theorem During.done {as : List P.Act} {a : P.Act} {F : σ.Db → Prop}
    (h : During P as (P.writes a) F l c) (hB : B (as ++ [a]))
    (hneed : P.need a ⊆ l.locks) (hguard : ∀ v, P.inv v → F v → P.guard a v) : Ready P B l c := by
  refine ⟨as ++ [a], hB, h.isOpen, h.good, h.inv, ?_, ?_, ?_, .trivial, trivial⟩
  · rw [h.log, flatMap_append, flatMap_singleton, append_nil]
  · intro b hmem
    rcases mem_append.mp hmem with hb | hb
    · exact h.need b hb
    · rwa [mem_singleton.mp hb]
  · exact h.path.append (hguard _ h.inv_effs h.fact)

/-- `p` is safe inside the open transaction; whatever the outcome, what is pending is complete
    actions of the kind `B`, and when it returns, `R` holds. -/
def Keeps (P : Protocol σ) (B : List P.Act → Prop) (p : Prog σ α) (l : Conn σ) (c : σ.Db)
    (R : α → Conn σ → σ.Db → Prop) : Prop :=
  Spec P p l c fun r l' c' => Ready P B l' c' ∧ ∀ a, r = .ok a → R a l' c'

namespace Keeps
variable {P : Protocol σ} {B : List P.Act → Prop} {l : Conn σ} {c : σ.Db}
variable {R : Post σ α} {as : List P.Act} {F : σ.Db → Prop}

theorem ret {a : α} (h : Ready P B l c) (hR : R a l c) : Keeps P B (.ret a) l c R := by
  refine Spec.ret h.good h.inv ⟨h, ?_⟩
  intro b hb
  cases hb
  exact hR

theorem raise {e : σ.Err} (h : Ready P B l c) : Keeps P B (.raise e : Prog σ α) l c R := by
  refine Spec.raise h.good h.inv ⟨h, ?_⟩
  intro b hb
  cases hb

variable {S : Post σ β} {p : Prog σ β}

theorem attempt {k : Except σ.Err β → Prog σ α} (hp : Keeps P B p l c S)
    (hok : ∀ b l' c', Ext P l c l' c' → Ready P B l' c' → S b l' c' → Keeps P B (k (.ok b)) l' c' R)
    (herr : ∀ e l' c', Ext P l c l' c' → Ready P B l' c' → Keeps P B (k (.error e)) l' c' R) :
    Keeps P B (p.attempt k) l c R := by
  refine Spec.attempt hp ?_
  intro r l' c' hx hr
  cases r with
  | ok b => exact hok b l' c' hx hr.1 (hr.2 b rfl)
  | error e => exact herr e l' c' hx hr.1

theorem bind {f : β → Prog σ α} (hp : Keeps P B p l c S)
    (hf : ∀ b l' c', Ext P l c l' c' → Ready P B l' c' → S b l' c' → Keeps P B (f b) l' c' R) :
    Keeps P B (p >>= f) l c R :=
  attempt hp hf fun _ _ _ _ h => raise h

theorem seq {f : β → Prog σ α}
    (hp : Keeps P B p l c fun b l' c' => Keeps P B (f b) l' c' R) : Keeps P B (p >>= f) l c R :=
  bind hp fun _ _ _ _ _ hf => hf

theorem does {p : Prog σ α} (h : Keeps P B p l c R) : Does P p l c fun a l' c' => Ready P B l' c' ∧ R a l' c' :=
  Spec.mono h fun _ _ _ _ hr a ha => ⟨hr.1, hr.2 a ha⟩

theorem attemptDoes {k : Except σ.Err β → Prog σ α} (hp : Keeps P B p l c S)
    (hok : ∀ b l' c', Ready P B l' c' → S b l' c' → Does P (k (.ok b)) l' c' R)
    (herr : ∀ e l' c', Ready P B l' c' → Does P (k (.error e)) l' c' R) : Does P (p.attempt k) l c R := by
  refine .attempt hp ?_
  intro r l' c' _ hr
  cases r with
  | ok b => exact hok b l' c' hr.1 (hr.2 b rfl)
  | error e => exact herr e l' c' hr.1

theorem ofExcept {x : Except σ.Err α} (h : Ready P B l c) (hR : ∀ a, x = .ok a → R a l c) :
    Keeps P B (ofExcept x) l c R :=
  Spec.ofExcept h.good h.inv ⟨h, hR⟩

theorem select {f : σ.Db → Time → α} (h : During P as [] F l c) (hB : B as)
    (hR : ∀ c', During P as [] F l c' → Ext P l c l c' → R (f (P.effs as c') l.now) l c') :
    Keeps P B (select f) l c R := by
  refine Spec.select h.isOpen h.good ?_ ?_
  · intro e c' hx
    refine ⟨(h.ext hx rfl).ready hB, ?_⟩
    intro a ha
    cases ha
  · intro c' hx
    have h' := h.ext hx rfl
    refine ⟨h'.ready hB, ?_⟩
    intro a ha
    cases ha
    rw [h'.view, applyAll_nil]
    exact hR c' h' hx

/-- **A block whose exceptions may be caught**: it ends as its body does, or undone. -/
theorem block {body : Prog σ α} (h : During P as [] F l c) (hB : B as)
    (hbody : During P as [] F (l.enter 0) c → Does P body (l.enter 0) c fun _ l' c' => Ready P B l' c') :
    Keeps P B (transaction body) l c fun _ _ _ => True := by
  refine .transaction h.isOpen h.good h.inv (hbody (h.enter 0)) ?_ ?_
  · intro a l' l'' c' hR hlog hlocks hx
    exact ⟨(hR a rfl).of_eq hx.good (hx.isOpen h.isOpen) hlog hlocks, fun _ _ => trivial⟩
  · intro e l'' c' hlog hx
    exact ⟨(h.ext hx hlog).ready hB, fun _ _ => trivial⟩

theorem foldEach {ι : Type} {I : Conn σ → σ.Db → Prop} {f : α → ι → Prog σ α} {is : List ι}
    (hstep : ∀ a i l' c', i ∈ is → Ready P B l' c' → I l' c' → Keeps P B (f a i) l' c' fun _ => I)
    {a : α} (h : Ready P B l c) (h0 : I l c) : Keeps P B (foldEach f a is) l c fun _ => I := by
  induction is generalizing a l c with
  | nil => exact ret h h0
  | cons i is ih =>
    refine bind (hstep a i l c mem_cons_self h h0) ?_
    intro a' l' c' _ hready hI
    exact ih (fun a i l' c' hi => hstep a i l' c' (mem_cons_of_mem _ hi)) hready hI
end Keeps

/-! ## Whole connections -/

/-- `p` is safe on `l`, and when it returns, `R` holds. It may have ended the transaction on the way, of a
    program that raises nothing else is known. -/
def Ends (P : Protocol σ) (p : Prog σ α) (l : Conn σ) (c : σ.Db) (R : α → Conn σ → σ.Db → Prop) : Prop :=
  Safe P (fun r l' c' => P.rely [] c c' ∧ P.inv c' ∧ ∀ a, r = .ok a → R a l' c') p l c

namespace Ends
variable {P : Protocol σ} {l : Conn σ} {c : σ.Db} {R : Post σ α}

theorem of_does {p : Prog σ α} (h : Does P p l c R) : Ends P p l c R := by
  refine .mono ?_ h
  rintro r l' c' ⟨hx, hR⟩
  exact ⟨P.rely_mono (nil_subset _) hx.rely, hx.inv, hR⟩

theorem bind {S : Post σ β} {p : Prog σ β} {f : β → Prog σ α}
    (hp : Ends P p l c S) (hf : ∀ b l' c', P.inv c' → S b l' c' → Ends P (f b) l' c' R) : Ends P (p >>= f) l c R := by
  refine safe_attempt.mpr (.mono ?_ hp)
  rintro r l' c' ⟨hr, hi, hS⟩
  cases r with
  | ok b =>
    refine .mono ?_ (hf b l' c' hi (hS b rfl))
    rintro r' l'' c'' ⟨hr', hi', hR⟩
    exact ⟨P.rely_trans hr hr', hi', hR⟩
  | error =>
    refine ⟨hr, hi, ?_⟩
    intro a ha
    cases ha

theorem commit_raise {k : Except σ.Err Unit → Prog σ α} (hk : ∀ r, ∃ e, k r = .raise e)
    (hcom : P.Commits l.locks l.log c) (hc : P.inv c) : Ends P (.finish true k) l c R := by
  have hend : ∀ {c' r}, P.rely [] c c' → P.inv c' →
      Safe P (fun r l' c' => P.rely [] c c' ∧ P.inv c' ∧ ∀ a, r = .ok a → R a l' c') (k r) .idle c' := by
    intro c' r hr hi
    obtain ⟨e, he⟩ := hk r
    rw [he]
    refine ⟨hr, hi, ?_⟩
    intro a ha
    cases ha
  intro c' hr hi
  have hr' : P.rely [] c c' := P.rely_mono (nil_subset _) hr
  have hcom' := hcom.stable hr hc hi
  obtain ⟨h1, h2⟩ := Top.after_commit hr' hi hcom'
  exact ⟨fun _ => hend hr' hi, hcom', hend h1 h2⟩
end Ends

variable {P : Protocol σ} {c : σ.Db}

theorem During.opened (hc : P.inv c) (t : Time) : During P [] [] (fun _ => True) (idle.opened t) c := by
  refine ⟨rfl, ⟨?_, ⟨⟩⟩, hc, rfl, ?_, ⟨⟩, .trivial, ⟨⟩⟩
  · simp [Conn.idle, Conn.opened, Conn.log]
  · intro a ha
    cases ha

theorem Body.ending {p : Prog σ α} (hp : p.Bare fun _ => True) (hc : P.inv c)
    (hbody : ∀ t, During P [] [] (fun _ => True) (idle.opened t) c →
      Ends P p (idle.opened t) c fun _ l' c' => P.Commits l'.locks l'.log c') : Body P p c :=
  Body.bare hp hc fun t => hbody t (.opened hc t)

theorem Body.opening {p : Prog σ α} (hp : p.Bare fun _ => True) (hc : P.inv c)
    (hbody : ∀ t, During P [] [] (fun _ => True) (idle.opened t) c →
      Does P p (idle.opened t) c fun _ l' c' => P.Commits l'.locks l'.log c') : Body P p c :=
  Body.ending hp hc fun t h => .of_does (hbody t h)

theorem Top.own {Q : Except σ.Err α → σ.Db → Prop} {body : Prog σ α} (hc : P.inv c)
    (hbody : ∀ t, During P [] [] (fun _ => True) (Conn.idle.enter t) c →
      Does P body (Conn.idle.enter t) c fun _ l' c' => P.Commits l'.locks l'.log c')
    (hQ : ∀ r c', P.rely [] c c' → P.inv c' → Q r c') : Top P (Prog.transaction body) c Q := by
  refine .transaction hc ?_ hQ
  intro t
  refine hbody t ⟨rfl, ⟨?_, ⟨⟩⟩, hc, rfl, ?_, ⟨⟩, .trivial, ⟨⟩⟩
  · simp [Conn.idle, Conn.enter, Conn.log]
  · intro a ha
    cases ha
end Lib
