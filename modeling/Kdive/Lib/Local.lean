import Kdive.Lib.Script

/-! # One session, whatever the others do

`Local` says a property of every execution of a program, the answers of the database and of the host being arbitrary;
`Leads.local` carries it along the runs of a system. The case met most is a connection on which a bare statement has
opened the transaction: until it is returned, every block is a savepoint of that transaction (`Within`).
-/

namespace Lib
open List Option

variable {σ : Store} {α β Cl : Type}

/-- What is asked of a program on the way: of the connection where it asks the host, and of what it
    commits, given the time its transaction began. -/
structure Duty (σ : Store) where
  asking : Conn σ → Prop
  committing : Time → List σ.Write → Prop

/-- Every execution of the program on the connection does its duty, and ends as `Q` says. -/
def Local (D : Duty σ) (Q : Except σ.Err α → Conn σ → Prop) : Prog σ α → Conn σ → Prop
  | .ret a, l => Q (.ok a) l
  | .raise e, l => Q (.error e) l
  | .exec st k, l => ∀ t v, (∀ e, Local D Q (k (.error e)) (l.opened t)) ∧
      ∀ ws, st.act v (l.opened t).now = .ok ws →
        Local D Q (k (.ok (v, (l.opened t).now))) (((l.opened t).take (st.keys v (l.opened t).now)).push ws)
  | .enter k, l => ∀ t, (∀ e, Local D Q (k (.error e)) l) ∧ Local D Q (k (.ok ())) (l.enter t)
  | .leave true k, l => (∀ e, Local D Q (k (.error e)) (l.abort true)) ∧
      D.committing l.now l.leave.1 ∧ Local D Q (k (.ok ())) l.leave.2
  | .leave false k, l => (∀ e, Local D Q (k (.error e)) (l.abort true)) ∧
      ∀ keep, Local D Q (k (.ok ())) (l.abort keep)
  | .finish b k, l => (∀ e, Local D Q (k (.error e)) .idle) ∧
      (b = true → D.committing l.now l.log) ∧ Local D Q (k (.ok ())) .idle
  | .host k, l => D.asking l ∧ ∀ x, Local D Q (k x) l

section
variable {D : Duty σ} {l : Conn σ}

theorem local_attempt {Q : Except σ.Err β → Conn σ → Prop} {p : Prog σ α} {h : Except σ.Err α → Prog σ β} :
    Local D Q (p.attempt h) l ↔ Local D (fun r l' => Local D Q (h r) l') p l := by
  induction p generalizing l with
  | ret | raise => rfl
  | exec _ _ ih | enter _ ih | finish _ _ ih | host _ ih => simp only [Prog.attempt, Local, ih]
  | leave b k ih => cases b <;> simp only [Prog.attempt, Local, ih]

theorem Local.mono {Q Q' : Except σ.Err α → Conn σ → Prop} (hQ : ∀ r l, Q r l → Q' r l)
    {p : Prog σ α} (h : Local D Q p l) : Local D Q' p l := by
  induction p generalizing l with
  | ret | raise => exact hQ _ _ h
  | exec st k ih =>
    intro t v
    obtain ⟨he, hk⟩ := h t v
    exact ⟨fun e => ih _ (he e), fun ws hws => ih _ (hk ws hws)⟩
  | enter k ih =>
    intro t
    obtain ⟨he, hk⟩ := h t
    exact ⟨fun e => ih _ (he e), ih _ hk⟩
  | leave b k ih =>
    cases b with
    | true => exact ⟨fun e => ih _ (h.1 e), h.2.1, ih _ h.2.2⟩
    | false => exact ⟨fun e => ih _ (h.1 e), fun keep => ih _ (h.2 keep)⟩
  | finish b k ih => exact ⟨fun e => ih _ (h.1 e), h.2.1, ih _ h.2.2⟩
  | host k ih => exact ⟨h.1, fun x => ih x (h.2 x)⟩

theorem Local.anything (hask : ∀ l, D.asking l) (hcommit : ∀ T ws, D.committing T ws)
    (p : Prog σ α) (l : Conn σ) : Local D (fun _ _ => True) p l := by
  induction p generalizing l with
  | ret | raise => trivial
  | exec st k ih => exact fun t v => ⟨fun e => ih _ _, fun ws _ => ih _ _⟩
  | enter k ih => exact fun t => ⟨fun e => ih _ _, ih _ _⟩
  | leave b k ih =>
    cases b with
    | true => exact ⟨fun e => ih _ _, hcommit _ _, ih _ _⟩
    | false => exact ⟨fun e => ih _ _, fun keep => ih _ _⟩
  | finish b k ih => exact ⟨fun e => ih _ _, fun _ => hcommit _ _, ih _ _⟩
  | host k ih => exact ⟨hask l, fun x => ih x _⟩
end

/-! ## In a system -/

/-- A session that has done its duty so far goes on doing it. -/
def Sess.Dutiful (D : Duty σ) (q : Sess σ) : Prop := Local D (fun _ _ => True) q.prog q.conn

theorem Sess.Dutiful.step {D : Duty σ} {q q' : Sess σ} {clock : Time} {db db' : σ.Db} {inp : Input σ}
    (h : q.Dutiful D) (hs : q.step clock db inp = some (q', db')) : q'.Dutiful D := by
  obtain ⟨p, l⟩ := q
  cases inp with
  | go keep =>
    cases p with
    | exec st =>
      obtain ⟨he, hk⟩ := h clock ((l.opened clock).view db)
      simp only [Sess.step] at hs
      cases hact : st.act ((l.opened clock).view db) (l.opened clock).now with
      | error e =>
        simp only [hact, some.injEq, Prod.mk.injEq] at hs
        exact hs.1 ▸ he e
      | ok ws =>
        simp only [hact, some.injEq, Prod.mk.injEq] at hs
        exact hs.1 ▸ hk ws hact
    | enter =>
      simp only [Sess.step, some.injEq, Prod.mk.injEq] at hs
      exact hs.1 ▸ (h clock).2
    | leave b =>
      cases b with
      | true =>
        simp only [Sess.step, some.injEq, Prod.mk.injEq] at hs
        exact hs.1 ▸ h.2.2
      | false =>
        simp only [Sess.step, some.injEq, Prod.mk.injEq] at hs
        exact hs.1 ▸ h.2 keep
    | finish b =>
      cases b <;> simp only [Sess.step, some.injEq, Prod.mk.injEq] at hs <;>
        exact hs.1 ▸ h.2.2
    | _ => cases hs
  | host x =>
    cases p with
    | host =>
      simp only [Sess.step, some.injEq, Prod.mk.injEq] at hs
      exact hs.1 ▸ h.2 x
    | _ => cases hs
  | fault e =>
    cases p with
    | exec =>
      simp only [Sess.step, some.injEq, Prod.mk.injEq] at hs
      exact hs.1 ▸ (h clock db).1 e
    | enter =>
      simp only [Sess.step, some.injEq, Prod.mk.injEq] at hs
      exact hs.1 ▸ (h clock).1 e
    | leave b =>
      cases b <;> simp only [Sess.step, some.injEq, Prod.mk.injEq] at hs <;>
        exact hs.1 ▸ h.1 e
    | finish =>
      simp only [Sess.step, some.injEq, Prod.mk.injEq] at hs
      exact hs.1 ▸ h.1 e
    | _ => cases hs

theorem Sess.Dutiful.committing {D : Duty σ} {q : Sess σ} {inp : Input σ} (h : q.Dutiful D)
    (hne : q.committing inp ≠ []) : D.committing q.conn.now (q.committing inp) := by
  obtain ⟨p, l⟩ := q
  cases inp with
  | go =>
    cases p with
    | leave b =>
      cases b with
      | true => exact h.2.1
      | false => exact absurd rfl hne
    | finish b =>
      cases b with
      | true => exact h.2.1 rfl
      | false => exact absurd rfl hne
    | _ => exact absurd rfl hne
  | _ => exact absurd rfl hne

namespace Sys
variable {prog : Cl → Prog σ Unit} {s s' : Sys σ} {i : Nat}

/-- What one session keeps, along a run: its own steps keep it, and a session that disappeared has
    nothing left to do. -/
theorem Leads.session {I : Sess σ → Prop} (hcrash : I ⟨.ret (), .idle⟩)
    (hstep : ∀ q q' clock db db' inp, I q → q.step clock db inp = some (q', db') → I q')
    (h : Leads prog s s') {q : Sess σ} (hq : s.sess[i]? = some q) (hI : I q) : ∃ q', s'.sess[i]? = some q' ∧ I q' := by
  induction h with
  | refl => exact ⟨q, hq, hI⟩
  | @step s1 s2 ch _ hs ih =>
    obtain ⟨q1, hq1, hI1⟩ := ih
    have hlt : i < s1.sess.length := (List.getElem?_eq_some_iff.mp hq1).1
    cases ch with
    | tick =>
      cases hs
      exact ⟨q1, hq1, hI1⟩
    | spawn =>
      cases hs
      exact ⟨q1, (getElem?_append_left hlt).trans hq1, hI1⟩
    | crash j =>
      simp only [Sys.step] at hs
      cases hj : s1.sess[j]? with
      | none => simp [hj] at hs
      | some =>
        simp only [hj, some.injEq] at hs
        subst hs
        rcases eq_or_ne j i with rfl | hij
        · exact ⟨_, getElem?_set_self hlt, hcrash⟩
        · exact ⟨q1, (getElem?_set_ne hij).trans hq1, hI1⟩
    | act j =>
      obtain ⟨r, r', db', hr, -, hrs, rfl⟩ := Sys.step_act hs
      rcases eq_or_ne j i with rfl | hij
      · rw [hq1, some.injEq] at hr
        exact ⟨r', getElem?_set_self hlt, hstep _ _ _ _ _ _ (hr ▸ hI1) hrs⟩
      · exact ⟨q1, (getElem?_set_ne hij).trans hq1, hI1⟩

theorem Leads.dutiful {D : Duty σ} (h : Leads prog s s') {q : Sess σ} (hq : s.sess[i]? = some q)
    (hd : q.Dutiful D) : ∃ q', s'.sess[i]? = some q' ∧ q'.Dutiful D :=
  h.session (I := Sess.Dutiful D) trivial (fun _ _ _ _ _ _ hI hs => hI.step hs) hq hd
end Sys

/-! ## On a connection whose transaction a bare statement has opened -/

/-- The transaction began at `T`, only returning the connection ends it, and its writes so far, in each of
    its savepoints too, are all `ok`. -/
structure Within (T : Time) (ok : σ.Write → Prop) (l : Conn σ) : Prop where
  start : l.tx.map (·.start) = some T
  implicit : l.tx.map (·.implicit) = some true
  log : ∀ w ∈ l.log, ok w
  marks : ∀ m ∈ l.marks, ∀ w ∈ m.log, ok w

namespace Within
variable {T : Time} {ok : σ.Write → Prop} {l : Conn σ}

section
variable (h : Within T ok l)
include h

theorem exists_tx : ∃ tx, l.tx = some tx ∧ tx.start = T ∧ tx.implicit = true := by
  cases htx : l.tx with
  | none =>
    have := h.start
    rw [htx] at this
    cases this
  | some tx =>
    have hs := h.start
    have hi := h.implicit
    rw [htx, map_some, some.injEq] at hs hi
    exact ⟨tx, rfl, hs, hi⟩

theorem isSome : l.tx.isSome := by
  obtain ⟨tx, htx, -⟩ := h.exists_tx
  rw [htx]
  rfl

theorem now : l.now = T := by
  obtain ⟨tx, htx, hs, -⟩ := h.exists_tx
  rwa [Conn.now, htx]
end

theorem opened (T : Time) (ok : σ.Write → Prop) : Within T ok ((Conn.idle : Conn σ).opened T) :=
  ⟨rfl, rfl, by simp [Conn.opened, Conn.idle, Conn.log],
    by simp [Conn.opened, Conn.idle, Conn.marks]⟩

variable (h : Within T ok l)
include h

theorem enter (t : Time) : Within T ok (l.enter t) := by
  obtain ⟨tx, htx, hs, hi⟩ := h.exists_tx
  refine ⟨by simp [Conn.enter, htx, hs], by simp [Conn.enter, htx, hi], by simpa using h.log, ?_⟩
  rw [Conn.marks_enter h.isSome]
  intro m hm
  rcases mem_cons.mp hm with rfl | hm
  · exact h.log
  · exact h.marks m hm

theorem leave : l.leave.1 = [] ∧ Within T ok l.leave.2 := by
  obtain ⟨tx, htx, hs, hi⟩ := h.exists_tx
  have hlog := h.log
  have hmarks := h.marks
  simp only [Conn.log, Conn.marks, htx, map_some, getD_some] at hlog hmarks
  cases hm : tx.marks with
  | nil =>
    have hl : l.leave = ([], l) := by simp [Conn.leave, htx, hm, hi]
    rw [hl]
    exact ⟨rfl, h⟩
  | cons m ms =>
    have hl : l.leave = ([], { l with tx := some { tx with marks := ms } }) := by
      simp [Conn.leave, htx, hm]
    rw [hl]
    refine ⟨rfl, by simp [hs], by simp [hi], hlog, ?_⟩
    intro m' hm'
    exact hmarks m' (hm ▸ mem_cons_of_mem _ hm')

theorem abort (keep : Bool) : Within T ok (l.abort keep) := by
  obtain ⟨tx, htx, hs, hi⟩ := h.exists_tx
  have hmarks := h.marks
  simp only [Conn.marks, htx, map_some, getD_some] at hmarks
  cases hm : tx.marks with
  | nil =>
    have hl : l.abort keep = l := by simp [Conn.abort, htx, hm, hi]
    rwa [hl]
  | cons m ms =>
    have hl : l.abort keep = ⟨some { tx with log := m.log, marks := ms }, if keep then l.locks else m.locks⟩ := by
      simp [Conn.abort, htx, hm]
    rw [hl]
    refine ⟨by simp [hs], by simp [hi], hmarks m (hm ▸ mem_cons_self), ?_⟩
    intro m' hm'
    exact hmarks m' (hm ▸ mem_cons_of_mem _ hm')

theorem push {ws : List σ.Write} (ks : List σ.Key) (hws : ∀ w ∈ ws, ok w) : Within T ok ((l.take ks).push ws) := by
  obtain ⟨tx, htx, hs, hi⟩ := h.exists_tx
  have hlog := h.log
  have hmarks := h.marks
  simp only [Conn.log, Conn.marks, htx, map_some, getD_some] at hlog hmarks
  refine ⟨by simp [Conn.push, Conn.take, htx, hs], by simp [Conn.push, Conn.take, htx, hi], ?_, ?_⟩
  · intro w hw
    simp only [Conn.log, Conn.push, Conn.take, htx, map_some, getD_some] at hw
    rcases mem_append.mp hw with hw | hw
    · exact hlog w hw
    · exact hws w hw
  · simpa [Conn.marks, Conn.push, Conn.take, htx] using hmarks
end Within

/-- Every statement of the program writes only what is `ok` in a transaction that began at `T`, and the
    program does not return its connection. -/
def Prog.Writes (T : Time) (ok : σ.Write → Prop) : Prog σ α → Prop
  | .ret _ => True
  | .raise _ => True
  | .exec st k => (∀ v ws, st.act v T = .ok ws → ∀ w ∈ ws, ok w) ∧ ∀ r, (k r).Writes T ok
  | .enter k => ∀ r, (k r).Writes T ok
  | .leave _ k => ∀ r, (k r).Writes T ok
  | .finish _ _ => False
  | .host k => ∀ x, (k x).Writes T ok

namespace Prog
variable {T : Time} {ok : σ.Write → Prop}

variable {p : Prog σ α}

theorem Writes.mono {ok' : σ.Write → Prop} (h : ∀ w, ok w → ok' w) (hp : p.Writes T ok) : p.Writes T ok' := by
  induction p with
  | ret | raise => trivial
  | exec st k ih => exact ⟨fun v ws hws w hw => h w (hp.1 v ws hws w hw), fun r => ih r (hp.2 r)⟩
  | enter _ ih | leave _ _ ih => exact fun r => ih r (hp r)
  | finish => exact hp.elim
  | host k ih => exact fun x => ih x (hp x)

theorem Writes.attempt {h : Except σ.Err α → Prog σ β} (hp : p.Writes T ok)
    (hh : ∀ r, (h r).Writes T ok) : (p.attempt h).Writes T ok := by
  induction p with
  | ret | raise => exact hh _
  | exec st k ih => exact ⟨hp.1, fun r => ih r (hp.2 r)⟩
  | enter _ ih | leave _ _ ih => exact fun r => ih r (hp r)
  | finish => exact hp.elim
  | host k ih => exact fun x => ih x (hp x)

theorem Writes.bind {f : α → Prog σ β} (hp : p.Writes T ok) (hf : ∀ a, (f a).Writes T ok) : (p >>= f).Writes T ok := by
  refine hp.attempt fun r => ?_
  cases r with
  | ok a => exact hf a
  | error => trivial

theorem Writes.transaction (hp : p.Writes T ok) : (transaction p).Writes T ok := by
  intro r
  cases r with
  | error => trivial
  | ok =>
    refine hp.attempt fun r => ?_
    cases r with
    | error => exact fun _ => trivial
    | ok =>
      intro r
      cases r <;> trivial

theorem Writes.catching {h : σ.Err → Prog σ α} (hp : p.Writes T ok)
    (hh : ∀ e, (h e).Writes T ok) : (p.catching h).Writes T ok := by
  refine hp.attempt fun r => ?_
  cases r with
  | ok => trivial
  | error e => exact hh e

theorem Writes.ofExcept (r : Except σ.Err α) : (ofExcept r : Prog σ α).Writes T ok := by
  cases r <;> trivial

theorem Writes.ask (f : σ.Host → α) : (ask f : Prog σ α).Writes T ok := fun _ => trivial

theorem Writes.stmt {st : Stmt σ} (f : σ.Db → Time → α)
    (h : ∀ v ws, st.act v T = .ok ws → ∀ w ∈ ws, ok w) : (stmt st f).Writes T ok := by
  refine ⟨h, fun r => ?_⟩
  cases r <;> trivial

theorem Writes.selectFor (keys : σ.Db → Time → List σ.Key) (f : σ.Db → Time → α) :
    (selectFor keys f : Prog σ α).Writes T ok := by
  refine Writes.stmt f fun v ws h => ?_
  cases h
  simp

theorem Writes.select (f : σ.Db → Time → α) : (select f : Prog σ α).Writes T ok :=
  Writes.selectFor _ f
end Prog

variable {D : Duty σ}

/-- **In such a transaction a program that writes only what is `ok` stays in it**, whatever it raises. -/
theorem Prog.Writes.within {T : Time} {ok : σ.Write → Prop}
    (hask : ∀ l, Within T ok l → D.asking l) (hnil : D.committing T []) {p : Prog σ α} {l : Conn σ}
    (hp : p.Writes T ok) (h : Within T ok l) : Local D (fun _ l' => Within T ok l') p l := by
  induction p generalizing l with
  | ret | raise => exact h
  | exec st k ih =>
    intro t v
    rw [Conn.opened_of_isSome h.isSome, h.now]
    exact ⟨fun e => ih _ (hp.2 _) h, fun ws hws => ih _ (hp.2 _) (h.push _ (hp.1 v ws hws))⟩
  | enter k ih => exact fun t => ⟨fun e => ih _ (hp _) h, ih _ (hp _) (h.enter t)⟩
  | leave b k ih =>
    cases b with
    | true =>
      refine ⟨fun e => ih _ (hp _) (h.abort true), ?_, ih _ (hp _) h.leave.2⟩
      rwa [h.leave.1, h.now]
    | false => exact ⟨fun e => ih _ (hp _) (h.abort true), fun keep => ih _ (hp _) (h.abort keep)⟩
  | finish => exact hp.elim
  | host k ih => exact ⟨hask l h, fun x => ih x (hp x) h⟩

theorem Prog.Writes.connection {T : Time} {ok : σ.Write → Prop}
    (hask : ∀ l, Within T ok l → D.asking l) (hnil : D.committing T [])
    (hok : ∀ ws, (∀ w ∈ ws, ok w) → D.committing T ws) {p : Prog σ α} {l : Conn σ}
    (hp : p.Writes T ok) (h : Within T ok l) : Local D (fun _ _ => True) (Prog.connection p) l := by
  unfold Prog.connection
  rw [local_attempt]
  refine .mono ?_ (hp.within hask hnil h)
  intro r l' h'
  cases r with
  | error => exact ⟨fun _ => trivial, fun hb => absurd hb (by simp), trivial⟩
  | ok =>
    refine ⟨fun _ => trivial, fun _ => ?_, trivial⟩
    rw [h'.now]
    exact hok _ h'.log

theorem Prog.Writes.connection_opening {ok : Time → σ.Write → Prop}
    (hask : ∀ T l, Within T (ok T) l → D.asking l) (hnil : ∀ T, D.committing T [])
    (hok : ∀ T ws, (∀ w ∈ ws, ok T w) → D.committing T ws) {st : Stmt σ}
    {k : Except σ.Err (σ.Db × Time) → Prog σ α} (hp : ∀ T, (Prog.exec st k).Writes T (ok T)) :
    Local D (fun _ _ => True) (Prog.connection (.exec st k)) .idle := by
  intro T v
  have hopened := Within.opened (σ := σ) T (ok T)
  refine ⟨fun e => ?_, fun ws hws => ?_⟩
  · exact ((hp T).2 (.error e)).connection (hask T) (hnil T) (hok T) hopened
  · refine ((hp T).2 (.ok (v, T))).connection (hask T) (hnil T) (hok T) (hopened.push _ ?_)
    exact (hp T).1 v ws hws

/-! ## When transactions begin -/

namespace Conn
variable (l : Conn σ)

variable {tx : Tx σ}

theorem start_opened {t : Time} (h : (l.opened t).tx = some tx) :
    tx.start = t ∨ ∃ tx0, l.tx = some tx0 ∧ tx0.start = tx.start := by
  cases hl : l.tx with
  | some tx0 =>
    rw [opened_of_isSome (by rw [hl]; rfl), hl, some.injEq] at h
    exact .inr ⟨tx0, rfl, by rw [h]⟩
  | none =>
    simp only [opened, hl, some.injEq] at h
    exact .inl (h ▸ rfl)

theorem start_enter {t : Time} (h : (l.enter t).tx = some tx) :
    tx.start = t ∨ ∃ tx0, l.tx = some tx0 ∧ tx0.start = tx.start := by
  cases hl : l.tx with
  | some tx0 =>
    simp only [enter, hl, some.injEq] at h
    exact .inr ⟨tx0, rfl, h ▸ rfl⟩
  | none =>
    simp only [enter, hl, some.injEq] at h
    exact .inl (h ▸ rfl)

/-- The transaction that is left open at the end of a block was open before, and since then. -/
theorem start_ended (keep : Bool) (h : l.leave.2.tx = some tx ∨ (l.abort keep).tx = some tx) :
    ∃ tx0, l.tx = some tx0 ∧ tx0.start = tx.start := by
  cases hl : l.tx with
  | none => simp [leave, abort, hl] at h
  | some tx0 =>
    refine ⟨tx0, rfl, ?_⟩
    cases hm : tx0.marks with
    | cons =>
      simp only [leave, abort, hl, hm, some.injEq] at h
      rcases h with rfl | rfl <;> rfl
    | nil =>
      cases hi : tx0.implicit with
      | true =>
        simp only [leave, abort, hl, hm, hi, if_true, some.injEq] at h
        rcases h with rfl | rfl <;> rfl
      | false => simp [leave, abort, hl, hm, hi, idle] at h
end Conn

theorem Sess.start_step {q q' : Sess σ} {clock : Time} {db db' : σ.Db} {inp : Input σ} {tx : Tx σ}
    (hs : q.step clock db inp = some (q', db')) (htx : q'.conn.tx = some tx) :
    tx.start = clock ∨ ∃ tx0, q.conn.tx = some tx0 ∧ tx0.start = tx.start := by
  obtain ⟨p, l⟩ := q
  cases inp with
  | go =>
    cases p with
    | exec st =>
      simp only [Sess.step] at hs
      cases hact : st.act ((l.opened clock).view db) (l.opened clock).now with
      | error =>
        simp only [hact, some.injEq, Prod.mk.injEq] at hs
        rw [← hs.1] at htx
        exact l.start_opened htx
      | ok =>
        simp only [hact, some.injEq, Prod.mk.injEq] at hs
        rw [← hs.1] at htx
        simp only [Conn.push, Conn.take, map_eq_some_iff] at htx
        obtain ⟨tx1, htx1, hsame⟩ := htx
        have hstart : tx.start = tx1.start := hsame ▸ rfl
        rw [hstart]
        exact l.start_opened htx1
    | enter =>
      cases hs
      exact l.start_enter htx
    | leave b =>
      cases b with
      | true =>
        cases hs
        exact .inr (l.start_ended true (.inl htx))
      | false =>
        cases hs
        exact .inr (l.start_ended _ (.inr htx))
    | finish b =>
      cases b <;> simp only [Sess.step, some.injEq, Prod.mk.injEq] at hs <;>
        rw [← hs.1] at htx <;> cases htx
    | _ => cases hs
  | host =>
    cases p with
    | host =>
      cases hs
      exact .inr ⟨tx, htx, rfl⟩
    | _ => cases hs
  | fault =>
    cases p with
    | exec =>
      cases hs
      exact l.start_opened htx
    | enter =>
      cases hs
      exact .inr ⟨tx, htx, rfl⟩
    | leave =>
      cases hs
      exact .inr (l.start_ended _ (.inr htx))
    | finish =>
      cases hs
      cases htx
    | _ => cases hs

/-- **No transaction began in the future.** -/
theorem Sys.Reach.start_le {prog : Cl → Prog σ Unit} {init : σ.Db → Prop}
    {ok : Sys σ → Choice σ Cl → Prop} {s : Sys σ} (h : Reach prog init ok s) :
    ∀ q ∈ s.sess, ∀ tx, q.conn.tx = some tx → tx.start ≤ s.clock := by
  induction h with
  | init =>
    intro q hq
    cases hq
  | @step s s' ch _ _ hs ih =>
    intro q hq tx htx
    cases ch with
    | tick d =>
      cases hs
      exact Int.le_trans (ih q hq tx htx) (Int.le_add_of_nonneg_right (Int.natCast_nonneg d))
    | spawn =>
      cases hs
      rcases mem_append.mp hq with hq | hq
      · exact ih q hq tx htx
      · obtain rfl := mem_singleton.mp hq
        cases htx
    | crash i =>
      simp only [Sys.step] at hs
      cases hi : s.sess[i]? with
      | none => simp [hi] at hs
      | some =>
        simp only [hi, some.injEq] at hs
        subst hs
        rcases mem_or_eq_of_mem_set hq with hq | rfl
        · exact ih q hq tx htx
        · cases htx
    | act =>
      obtain ⟨r, r', db', hr, -, hrs, rfl⟩ := Sys.step_act hs
      rcases mem_or_eq_of_mem_set hq with hq | rfl
      · exact ih q hq tx htx
      · rcases Sess.start_step hrs htx with hnow | ⟨tx0, htx0, hsame⟩
        · exact Int.le_of_eq hnow
        · rw [← hsame]
          exact ih r (mem_of_getElem? hr) tx0 htx0
end Lib
