import Kdive.Lib.Protocol

/-! # Proof rules for safe programs

A service's functions fall in two kinds. Most run inside a transaction somebody else opened; a few
open transactions and close them. `Spec` is for the first kind and `Top` for the second, and each has
one rule per construct: a program's proof follows its text. `Body` is for what runs between taking a
connection and returning it.
-/

namespace Lib
open List Conn

variable {σ : Store} {α β : Type}

/-! ## Inside a transaction

A program that runs inside an open transaction only adds to the connection: writes to the log, keys to those held.
`Spec` is `Safe` with that built in. -/

/-- From `l` with `c` committed to `l'` with `c'` committed, inside one transaction. -/
structure Ext (P : Protocol σ) (l : Conn σ) (c : σ.Db) (l' : Conn σ) (c' : σ.Db) : Prop where
  grow : ∃ ws ks, l' = l.grow ws ks
  rely : P.rely l.locks c c'
  inv : P.inv c'
  good : Good P l'

namespace Ext
variable {P : Protocol σ} {l l' l'' : Conn σ} {c c' c'' : σ.Db}

theorem refl (hg : Good P l) (hc : P.inv c) : Ext P l c l c :=
  ⟨⟨[], [], (grow_nil l).symm⟩, P.rely_refl _ _, hc, hg⟩

variable (h : Ext P l c l' c')
include h

theorem locks_sub : l.locks <+: l'.locks := by
  obtain ⟨ws, ks, rfl⟩ := h.grow
  exact prefix_append _ _

theorem mem_locks {k : σ.Key} (hk : k ∈ l.locks) : k ∈ l'.locks :=
  h.locks_sub.subset hk

theorem now : l'.now = l.now := by
  obtain ⟨ws, ks, rfl⟩ := h.grow
  exact now_grow l ws ks

theorem isOpen (ho : l.tx.isSome) : l'.tx.isSome := by
  obtain ⟨ws, ks, rfl⟩ := h.grow
  simpa using ho

theorem trans (h' : Ext P l' c' l'' c'') : Ext P l c l'' c'' := by
  obtain ⟨ws', ks', hl''⟩ := h'.grow
  obtain ⟨ws, ks, hl'⟩ := h.grow
  refine ⟨⟨ws ++ ws', ks ++ ks', by rw [hl'', hl', grow_grow]⟩, ?_, h'.inv, h'.good⟩
  exact P.rely_trans h.rely (P.rely_mono h.locks_sub.subset h'.rely)
end Ext

/-- `p` is safe inside the transaction open on `l`, and ends as `Q` says. -/
def Spec (P : Protocol σ) (p : Prog σ α) (l : Conn σ) (c : σ.Db) (Q : Except σ.Err α → Conn σ → σ.Db → Prop) : Prop :=
  Safe P (fun r l' c' => Ext P l c l' c' ∧ Q r l' c') p l c

namespace Spec
variable {P : Protocol σ} {l : Conn σ} {c : σ.Db}
variable {Q : Post σ (Except σ.Err α)}

theorem ret {a : α} (hg : Good P l) (hc : P.inv c) (h : Q (.ok a) l c) : Spec P (.ret a) l c Q :=
  ⟨.refl hg hc, h⟩

theorem raise {e : σ.Err} (hg : Good P l) (hc : P.inv c) (h : Q (.error e) l c) : Spec P (.raise e : Prog σ α) l c Q :=
  ⟨.refl hg hc, h⟩

theorem mono {Q' : Except σ.Err α → Conn σ → σ.Db → Prop} {p : Prog σ α} (h : Spec P p l c Q)
    (hQ : ∀ r l' c', Ext P l c l' c' → Q r l' c' → Q' r l' c') : Spec P p l c Q' :=
  Safe.mono (fun r l' c' hx => ⟨hx.1, hQ r l' c' hx.1 hx.2⟩) h

/-- Sequencing, with the exception handed on to `h`. -/
theorem attempt {R : Post σ (Except σ.Err β)} {p : Prog σ β} {h : Except σ.Err β → Prog σ α} (hp : Spec P p l c R)
    (hh : ∀ r l' c', Ext P l c l' c' → R r l' c' → Spec P (h r) l' c' Q) : Spec P (p.attempt h) l c Q := by
  refine safe_attempt.mpr (.mono ?_ hp)
  rintro r l' c' ⟨hx, hR⟩
  exact .mono (fun _ _ _ hy => ⟨hx.trans hy.1, hy.2⟩) (hh r l' c' hx hR)

theorem bind {R : Post σ (Except σ.Err β)} {p : Prog σ β} {f : β → Prog σ α}
    (hp : Spec P p l c R) (hok : ∀ b l' c', Ext P l c l' c' → R (.ok b) l' c' → Spec P (f b) l' c' Q)
    (herr : ∀ e l' c', Ext P l c l' c' → R (.error e) l' c' → Q (.error e) l' c') : Spec P (p >>= f) l c Q := by
  refine attempt hp fun r l' c' hx hR => ?_
  cases r with
  | ok b => exact hok b l' c' hx hR
  | error e => exact raise hx.good hx.inv (herr e l' c' hx hR)

theorem ask {f : σ.Host → α} (hg : Good P l) (hc : P.inv c) (h : ∀ x, Q (.ok (f x)) l c) : Spec P (Prog.ask f) l c Q :=
  fun x => ⟨.refl hg hc, h x⟩

/-- **The rule for a statement.** The others may move first; then the statement raises, or it takes
    its keys and makes its writes. -/
theorem stmt {st : Stmt σ} {f : σ.Db → Time → α} (ho : l.tx.isSome) (hg : Good P l)
    (herr : ∀ e c', Ext P l c l c' → Q (.error e) l c')
    (hok : ∀ c' ws, Ext P l c l c' → st.act (l.view c') l.now = .ok ws →
      StmtSafe P l (l.view c') (st.keys (l.view c') l.now) ws ∧
      ∀ l', l' = l.grow ws ((st.keys (l.view c') l.now).filter (· ∉ l.locks)) → Ext P l c l' c' →
        Q (.ok (f (l.view c') l.now)) l' c') : Spec P (Prog.stmt st f) l c Q := by
  intro c' t hr hi
  rw [opened_of_isSome ho]
  have hx : Ext P l c l c' := ⟨⟨[], [], (grow_nil l).symm⟩, hr, hi, hg⟩
  refine ⟨fun e => ⟨hx, herr e c' hx⟩, fun ws hws => ?_⟩
  obtain ⟨hs, hq⟩ := hok c' ws hx hws
  refine ⟨hs, ?_⟩
  rw [take_push]
  have hmem : ∀ k ∈ l.locks ++ st.keys (l.view c') l.now,
      k ∈ l.locks ++ (st.keys (l.view c') l.now).filter (· ∉ l.locks) := by
    intro k hk
    by_cases hl : k ∈ l.locks
    · exact mem_append_left _ hl
    · refine mem_append_right _ (mem_filter.mpr ⟨?_, by simpa using hl⟩)
      exact (mem_append.mp hk).resolve_left hl
  have hx' : Ext P l c (l.grow ws ((st.keys (l.view c') l.now).filter (· ∉ l.locks))) c' := by
    refine ⟨⟨_, _, rfl⟩, hr, hi, ⟨?_, ?_⟩⟩
    · intro w hw
      rw [log_grow ho] at hw
      rcases mem_append.mp hw with hw | hw
      · exact fun k hk => mem_append_left _ (hg.log w hw hk)
      · exact fun k hk => hmem k (hs.1 w hw hk)
    · rw [marks_grow]
      exact hg.marks.mono (prefix_append _ _)
  exact ⟨hx', hq _ rfl hx'⟩

theorem transaction {R : Post σ (Except σ.Err α)} {body : Prog σ α}
    (ho : l.tx.isSome) (hg : Good P l) (hc : P.inv c) (hbody : Spec P body (l.enter 0) c R)
    (hok : ∀ a l' l'' c', R (.ok a) l' c' → l''.log = l'.log → l''.locks = l'.locks →
      Ext P l c l'' c' → Q (.ok a) l'' c')
    (herr : ∀ e l'' c', l''.log = l.log → Ext P l c l'' c' → Q (.error e) l'' c') :
    Spec P (Prog.transaction body) l c Q := by
  intro t
  refine ⟨fun e => ⟨.refl hg hc, herr e l c rfl (.refl hg hc)⟩, ?_⟩
  rw [enter_of_isSome ho t 0]
  refine safe_attempt.mpr (.mono ?_ hbody)
  rintro r l' c' ⟨hx, hR⟩
  obtain ⟨ws, ks, rfl⟩ := hx.grow
  have hrely : P.rely l.locks c c' := by simpa using hx.rely
  have hback : ∀ (keep : Bool) (e : σ.Err), Ext P l c (l.grow [] (if keep then ks else [])) c' ∧
      Q (.error e) (l.grow [] (if keep then ks else [])) c' := by
    intro keep e
    have hx' : Ext P l c (l.grow [] (if keep then ks else [])) c' :=
      ⟨⟨[], _, rfl⟩, hrely, hx.inv, hg.grow_keys ho _⟩
    exact ⟨hx', herr e _ c' (by rw [log_grow ho, append_nil]) hx'⟩
  cases r with
  | ok a =>
    have hm : ((l.enter 0).grow ws ks).marks ≠ [] := by
      rw [marks_grow, marks_enter ho]
      simp
    simp only [Safe, if_neg hm, abort_enter_grow ho, leave_enter_grow ho]
    have hx' : Ext P l c (l.grow ws ks) c' :=
      ⟨⟨ws, ks, rfl⟩, hrely, hx.inv, hg.of_enter_grow ho hx.good⟩
    refine ⟨fun e => hback true e, hx', hok a _ _ c' hR ?_ ?_ hx'⟩
    · rw [log_grow ho, log_grow (isSome_enter l 0), log_enter]
    · simp
  | error e =>
    simp only [Safe, abort_enter_grow ho]
    exact ⟨fun _ => hback true e, fun keep => hback keep e⟩

theorem select {f : σ.Db → Time → α} (ho : l.tx.isSome) (hg : Good P l)
    (herr : ∀ e c', Ext P l c l c' → Q (.error e) l c')
    (hok : ∀ c', Ext P l c l c' → Q (.ok (f (l.view c') l.now)) l c') : Spec P (Prog.select f) l c Q := by
  refine stmt ho hg herr fun c' ws hx hws => ?_
  cases hws
  refine ⟨⟨by simp, P.stmtOk_nil _ _⟩, fun l' hl' _ => ?_⟩
  rw [hl', filter_nil, grow_nil]
  exact hok c' hx

theorem catching {R : Post σ (Except σ.Err α)} {p : Prog σ α} {h : σ.Err → Prog σ α} (hp : Spec P p l c R)
    (hok : ∀ a l' c', Ext P l c l' c' → R (.ok a) l' c' → Q (.ok a) l' c')
    (herr : ∀ e l' c', Ext P l c l' c' → R (.error e) l' c' → Spec P (h e) l' c' Q) : Spec P (p.catching h) l c Q := by
  refine attempt hp fun r l' c' hx hR => ?_
  cases r with
  | ok a => exact ret hx.good hx.inv (hok a l' c' hx hR)
  | error e => exact herr e l' c' hx hR

theorem ofExcept {x : Except σ.Err α} (hg : Good P l) (hc : P.inv c) (h : Q x l c) :
    Spec P (Prog.ofExcept x) l c Q := by
  cases x with
  | ok => exact ret hg hc h
  | error => exact raise hg hc h
end Spec

/-! ## Between transactions

A program that starts and ends with no transaction open. Nothing is held in between, so all that is
known afterwards is what the others can never undo. -/

/-- `p` is safe on an idle connection, leaves it idle, and ends as `Q` says. -/
def Top (P : Protocol σ) (p : Prog σ α) (c : σ.Db) (Q : Except σ.Err α → σ.Db → Prop) : Prop :=
  Safe P (fun r l' c' => l' = .idle ∧ P.rely [] c c' ∧ P.inv c' ∧ Q r c') p .idle c

abbrev Tame (P : Protocol σ) (p : Prog σ α) (c : σ.Db) : Prop := Top P p c fun _ _ => True

namespace Top
variable {P : Protocol σ} {c : σ.Db} {Q : Except σ.Err α → σ.Db → Prop}

theorem ret {a : α} (hc : P.inv c) (h : Q (.ok a) c) : Top P (.ret a) c Q :=
  ⟨rfl, P.rely_refl _ _, hc, h⟩

theorem raise {e : σ.Err} (hc : P.inv c) (h : Q (.error e) c) : Top P (.raise e : Prog σ α) c Q :=
  ⟨rfl, P.rely_refl _ _, hc, h⟩

theorem attempt {R : Except σ.Err β → σ.Db → Prop} {p : Prog σ β} {h : Except σ.Err β → Prog σ α} (hp : Top P p c R)
    (hh : ∀ r c', P.rely [] c c' → P.inv c' → R r c' → Top P (h r) c' Q) : Top P (p.attempt h) c Q := by
  refine safe_attempt.mpr (.mono ?_ hp)
  rintro r l' c' ⟨rfl, hr, hi, hR⟩
  refine .mono ?_ (hh r c' hr hi hR)
  rintro r' l'' c'' ⟨rfl, hr', hi', hQ⟩
  exact ⟨rfl, P.rely_trans hr hr', hi', hQ⟩

theorem bind {R : Except σ.Err β → σ.Db → Prop} {p : Prog σ β} {f : β → Prog σ α} (hp : Top P p c R)
    (hok : ∀ b c', P.rely [] c c' → P.inv c' → R (.ok b) c' → Top P (f b) c' Q)
    (herr : ∀ e c', P.rely [] c c' → P.inv c' → R (.error e) c' → Q (.error e) c') : Top P (p >>= f) c Q := by
  refine attempt hp fun r c' hr hi hR => ?_
  cases r with
  | ok b => exact hok b c' hr hi hR
  | error e => exact raise hi (herr e c' hr hi hR)

theorem ask {f : σ.Host → α} (hc : P.inv c) (h : ∀ x, Q (.ok (f x)) c) : Top P (Prog.ask f) c Q :=
  fun x => ⟨rfl, P.rely_refl _ _, hc, h x⟩

theorem foldEach {ι : Type} {I : α → σ.Db → Prop} {f : α → ι → Prog σ α} {is : List ι}
    (hstep : ∀ a i c', i ∈ is → P.rely [] c c' → P.inv c' → I a c' → Top P (f a i) c' fun r c'' =>
        (∀ a', r = .ok a' → I a' c'') ∧ ∀ e, r = .error e → Q (.error e) c'')
    (hend : ∀ a c', P.rely [] c c' → P.inv c' → I a c' → Q (.ok a) c')
    {a : α} {c0 : σ.Db} (hr0 : P.rely [] c c0) (hi0 : P.inv c0) (h0 : I a c0) : Top P (Prog.foldEach f a is) c0 Q := by
  induction is generalizing a c0 with
  | nil => exact ret hi0 (hend a c0 hr0 hi0 h0)
  | cons i is ih =>
    refine bind (hstep a i c0 mem_cons_self hr0 hi0 h0) ?_ ?_
    · intro a' c' hr hi hI
      exact ih (fun a i c' hi => hstep a i c' (mem_cons_of_mem _ hi)) (P.rely_trans hr0 hr) hi (hI.1 a' rfl)
    · intro e c' _ _ hI
      exact hI.2 e rfl

theorem after_commit {H : List σ.Key} {ws : List σ.Write} {c' : σ.Db} (hr : P.rely [] c c')
    (hi : P.inv c') (h : P.Commits H ws c') : P.rely [] c (σ.applyAll ws c') ∧ P.inv (σ.applyAll ws c') := by
  obtain ⟨as, _, rfl, _, hp⟩ := h
  rw [Protocol.applyAll_flatMap]
  exact ⟨P.rely_trans hr (hp.rely hi (by simp)), hp.inv hi⟩

/-- **A transaction of its own**: when its body, run in a fresh transaction, ends with writes that
    can be committed, the block commits them. -/
theorem transaction {body : Prog σ α} (hc : P.inv c) (hbody : ∀ t, Spec P body (idle.enter t) c fun r l' c' =>
      ∀ a, r = .ok a → P.Commits l'.locks l'.log c') (hQ : ∀ r c', P.rely [] c c' → P.inv c' → Q r c') :
    Top P (Prog.transaction body) c Q := by
  intro t
  refine ⟨fun e => ⟨rfl, P.rely_refl _ _, hc, hQ _ _ (P.rely_refl _ _) hc⟩, ?_⟩
  refine safe_attempt.mpr (.mono ?_ (hbody t))
  rintro r l' c' ⟨hx, hR⟩
  obtain ⟨ws, ks, rfl⟩ := hx.grow
  have hmarks : ((idle.enter t : Conn σ).grow ws ks).marks = [] := by
    simp [marks, enter, idle, grow]
  have hleave : ((idle.enter t : Conn σ).grow ws ks).leave = (ws, .idle) := by
    simp [leave, enter, idle, grow]
  have habort : ∀ keep, ((idle.enter t : Conn σ).grow ws ks).abort keep = .idle := by
    simp [abort, enter, idle, grow]
  have hlog : ((idle.enter t : Conn σ).grow ws ks).log = ws := by
    simp [log, enter, idle, grow]
  have hr : P.rely [] c c' := P.rely_mono (nil_subset _) hx.rely
  cases r with
  | ok a =>
    intro c'' hr' hi'
    have hr'' : P.rely [] c c'' := P.rely_trans hr (P.rely_mono (nil_subset _) hr')
    have hcom : P.Commits ((idle.enter t : Conn σ).grow ws ks).locks ws c'' := by
      have := hR a rfl
      rw [hlog] at this
      exact this.stable hr' hx.inv hi'
    obtain ⟨h1, h2⟩ := after_commit hr'' hi' hcom
    exact ⟨fun e => ⟨rfl, hr'', hi', hQ _ _ hr'' hi'⟩, hcom, rfl, h1, h2, hQ _ _ h1 h2⟩
  | error e =>
    simp only [Safe, habort]
    have hend := And.intro hr (And.intro hx.inv (hQ (.error e) c' hr hx.inv))
    exact ⟨fun _ => ⟨trivial, hend⟩, fun _ => ⟨trivial, hend⟩⟩
end Top

/-! ## Connections

A program whose first operation on the database is a bare statement runs wholly inside the transaction that opens. -/

/-- `p` is safe on a fresh connection, and what it leaves pending when it returns can be
    committed. -/
def Body (P : Protocol σ) (p : Prog σ α) (c : σ.Db) : Prop :=
  Safe P (fun r l' c' => P.rely [] c c' ∧ P.inv c' ∧ ∀ a, r = .ok a → P.Commits l'.locks l'.log c') p .idle c

/-- The first operation on the database is a bare statement; without one, the outcome is as `Q`
    says. -/
def Prog.Bare (Q : Except σ.Err α → Prop) : Prog σ α → Prop
  | .ret a => Q (.ok a)
  | .raise e => Q (.error e)
  | .exec _ _ => True
  | .host k => ∀ x, (k x).Bare Q
  | .enter _ => False
  | .leave _ _ => False
  | .finish _ _ => False

variable {Q : Except σ.Err α → Prop} {P : Protocol σ}

theorem Prog.Bare.attempt {p : Prog σ β}
    {h : Except σ.Err β → Prog σ α} (hp : p.Bare fun r => (h r).Bare Q) : (p.attempt h).Bare Q := by
  induction p with
  | ret | raise | enter | leave | finish => exact hp
  | exec => trivial
  | host k ih => exact fun x => ih x (hp x)

variable {p : Prog σ α}

theorem Prog.Bare.mono {Q Q' : Except σ.Err α → Prop} (hQ : ∀ r, Q r → Q' r) (hp : p.Bare Q) : p.Bare Q' := by
  induction p with
  | ret | raise => exact hQ _ hp
  | exec => trivial
  | host k ih => exact fun x => ih x (hp x)
  | enter | leave | finish => exact hp

theorem Prog.Bare.ofExcept {x : Except σ.Err α} (h : Q x) : (Prog.ofExcept x).Bare Q := by
  cases x with
  | ok | error => exact h

/-- As `Body`, with what is known of the value returned. -/
def Giving (P : Protocol σ) (p : Prog σ α) (l : Conn σ) (c : σ.Db) (R : α → σ.Db → Prop) : Prop :=
  Safe P (fun r l' c' => P.rely [] c c' ∧ P.inv c' ∧ ∀ a, r = .ok a → P.Commits l'.locks l'.log c' ∧ R a c') p l c

theorem Giving.bare {c : σ.Db} {R : α → σ.Db → Prop}
    (hp : p.Bare fun _ => True) (hc : P.inv c) (hbody : ∀ t, Giving P p (idle.opened t) c R) :
    Giving P p .idle c R := by
  induction p with
  | ret =>
    refine ⟨P.rely_refl _ _, hc, ?_⟩
    intro b hb
    exact ⟨.nil _ _, ((hbody 0).2.2 b hb).2⟩
  | raise =>
    refine ⟨P.rely_refl _ _, hc, ?_⟩
    intro b hb
    cases hb
  | exec =>
    intro c' t hr hi
    have hopen : (idle.opened t : Conn σ).tx.isSome := rfl
    have hsafe := hbody t c' t hr hi
    rwa [opened_of_isSome hopen] at hsafe
  | host k ih => exact fun x => ih x (hp x) fun t => hbody t x
  | enter | leave | finish => exact hp.elim

namespace Body
variable {P : Protocol σ} {c : σ.Db}

theorem of_top {p : Prog σ α} {R : Except σ.Err α → σ.Db → Prop} (h : Top P p c R) : Body P p c := by
  refine .mono ?_ h
  rintro r l' c' ⟨rfl, hr, hi, -⟩
  exact ⟨hr, hi, fun _ _ => .nil _ _⟩

theorem attempt {R : Except σ.Err β → σ.Db → Prop} {p : Prog σ β} {h : Except σ.Err β → Prog σ α} (hp : Top P p c R)
    (hh : ∀ r c', P.inv c' → R r c' → Body P (h r) c') : Body P (p.attempt h) c := by
  refine safe_attempt.mpr (.mono ?_ hp)
  rintro r l' c' ⟨rfl, hr, hi, hR⟩
  refine .mono ?_ (hh r c' hi hR)
  rintro r' l'' c'' ⟨hr', hi', hcom⟩
  exact ⟨P.rely_trans hr hr', hi', hcom⟩

theorem bind {R : Except σ.Err β → σ.Db → Prop} {p : Prog σ β} {f : β → Prog σ α}
    (hp : Top P p c R) (hf : ∀ b c', P.inv c' → R (.ok b) c' → Body P (f b) c') : Body P (p >>= f) c := by
  refine attempt hp ?_
  intro r c' hi hR
  cases r with
  | ok b => exact hf b c' hi hR
  | error =>
    refine ⟨P.rely_refl _ _, hi, ?_⟩
    intro a ha
    cases ha

theorem bare {p : Prog σ α} (hp : p.Bare fun _ => True) (hc : P.inv c)
    (hbody : ∀ t, Safe P (fun r l' c' => P.rely [] c c' ∧ P.inv c' ∧
      ∀ a, r = .ok a → P.Commits l'.locks l'.log c') p (idle.opened t) c) : Body P p c := by
  have hgiving := Giving.bare (R := fun _ _ => True) hp hc fun t => .mono
    (fun r l' c' h => ⟨h.1, h.2.1, fun a ha => ⟨h.2.2 a ha, trivial⟩⟩) (hbody t)
  exact .mono (fun r l' c' h => ⟨h.1, h.2.1, fun a ha => (h.2.2 a ha).1⟩) hgiving
end Body

/-- Of what a connection has returned, that is known afterwards which the others never undo. -/
theorem Top.connection_giving {c : σ.Db} {R : α → σ.Db → Prop} (hp : Giving P p .idle c R)
    (hR : ∀ a c' c'', P.rely [] c' c'' → P.inv c' → P.inv c'' → R a c' → R a c'') :
    Top P (Prog.connection p) c fun r c' => ∀ a, r = .ok a → R a c' := by
  refine safe_attempt.mpr (.mono ?_ hp)
  rintro r l' c' ⟨hr, hi, hgive⟩
  cases r with
  | ok a =>
    obtain ⟨hcom, ha⟩ := hgive a rfl
    intro c'' hr' hi'
    have hfree : P.rely [] c' c'' := P.rely_mono (nil_subset _) hr'
    have hcom' := hcom.stable hr' hi hi'
    obtain ⟨h1, h2⟩ := Top.after_commit (P.rely_refl _ _) hi' hcom'
    have hr'' := P.rely_trans hr hfree
    refine ⟨fun e => ⟨rfl, hr'', hi', fun b hb => by cases hb⟩, hcom', rfl, P.rely_trans hr'' h1, h2, ?_⟩
    intro b hb
    cases hb
    exact hR a c' _ (P.rely_trans hfree h1) hi h2 ha
  | error =>
    simp only [Safe]
    intro c'' hr' hi'
    have hr'' : P.rely [] c c'' := P.rely_trans hr (P.rely_mono (nil_subset _) hr')
    exact ⟨fun _ => ⟨trivial, hr'', hi', fun b hb => by cases hb⟩, trivial, hr'', hi',
      fun b hb => by cases hb⟩

/-- Returning the connection commits what is pending, or undoes it. -/
theorem Top.connection {c : σ.Db} {Q : Except σ.Err α → σ.Db → Prop} (hp : Body P p c)
    (hQ : ∀ r c', P.rely [] c c' → P.inv c' → Q r c') : Top P (Prog.connection p) c Q := by
  refine .mono ?_ (Top.connection_giving (R := fun _ _ => True) (.mono ?_ hp) fun _ _ _ _ _ _ _ => trivial)
  · rintro r l' c' ⟨hidle, hr, hi, -⟩
    exact ⟨hidle, hr, hi, hQ r c' hr hi⟩
  · rintro r l' c' ⟨hr, hi, hcom⟩
    exact ⟨hr, hi, fun a ha => ⟨hcom a ha, trivial⟩⟩

/-! ## Reads on their own -/

section
variable {P : Protocol σ} {c : σ.Db} {R : α → σ.Db → Prop} {f : σ.Db → Time → α}
  (hread : ∀ c' t, P.rely [] c c' → P.inv c' → R (f c' t) c')
  (hR : ∀ a c' c'', P.rely [] c' c'' → P.inv c' → P.inv c'' → R a c' → R a c'')
include hread hR

theorem Top.connection_select : Top P (Prog.connection (Prog.select f)) c fun r c' => ∀ a, r = .ok a → R a c' := by
  refine Top.connection_giving ?_ hR
  intro c1 t hr1 hi1
  refine ⟨fun e => ⟨hr1, hi1, nofun⟩, ?_⟩
  rintro ws hws
  cases hws
  refine ⟨⟨by simp, P.stmtOk_nil _ _⟩, hr1, hi1, fun a ha => ?_⟩
  cases ha
  exact ⟨.nil _ _, hread c1 t hr1 hi1⟩

theorem Top.transaction_select (hc : P.inv c) :
    Top P (Prog.transaction (Prog.select f)) c fun r c' => ∀ a, r = .ok a → R a c' := by
  intro t
  refine ⟨fun e => ⟨rfl, P.rely_refl _ _, hc, fun a ha => by cases ha⟩, ?_⟩
  intro c1 t' hr1 hi1
  refine ⟨?_, ?_⟩
  · intro e
    exact ⟨fun _ => ⟨rfl, hr1, hi1, fun a ha => by cases ha⟩, fun _ => ⟨rfl, hr1, hi1, fun a ha => by cases ha⟩⟩
  · rintro ws hws
    cases hws
    refine ⟨⟨by simp, P.stmtOk_nil _ _⟩, ?_⟩
    intro c2 hr2 hi2
    have hr : P.rely [] c c2 := P.rely_trans hr1 hr2
    refine ⟨fun e => ⟨rfl, hr, hi2, fun a ha => by cases ha⟩, .nil _ _, rfl, hr, hi2, ?_⟩
    intro a ha
    cases ha
    exact hR _ c1 c2 hr2 hi1 hi2 (hread c1 t hr1 hi1)
end
end Lib
