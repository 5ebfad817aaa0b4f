import Kdive.Lib.Machine
import Kdive.Lib.Rules

/-! # Systems whose clients are safe

What following a protocol buys: in every state a system of safe clients reaches, the protocol's
invariant holds of the committed database, no two sessions hold the same exclusive key, and every
commit is a batch of actions performed in the committed state it finds. So a property of the
committed database needs to be checked on actions only (`Reach.always`).
-/

namespace Lib
open List Conn Sess

variable {σ : Store} {α Cl : Type}

variable {P : Protocol σ} {l : Conn σ}

theorem Good.abort (h : Good P l) (keep : Bool) : Good P (l.abort keep) ∧ (l.abort keep).locks <+: l.locks := by
  obtain ⟨tx, locks⟩ := l
  cases tx with
  | none => exact ⟨h, prefix_rfl⟩
  | some t =>
    cases hm : t.marks with
    | nil =>
      cases hi : t.implicit with
      | true => simpa [abort, hm, hi] using h
      | false => simpa [abort, hm, hi, Conn.idle] using Good.idle
    | cons =>
      have hmarks := h.marks
      simp only [Conn.marks, hm, Option.map_some, Option.getD_some, MarksGood] at hmarks
      obtain ⟨hpre, hlog, hrest⟩ := hmarks
      simp only [abort, hm]
      cases keep with
      | true =>
        refine ⟨⟨fun w hw k hk => hpre.subset (hlog w (by simpa [Conn.log] using hw) hk), ?_⟩, prefix_rfl⟩
        simpa [Conn.marks] using hrest.mono hpre
      | false =>
        refine ⟨⟨fun w hw => hlog w (by simpa [Conn.log] using hw), ?_⟩, hpre⟩
        simpa [Conn.marks] using hrest

theorem Good.leave (h : Good P l) : Good P l.leave.2 ∧ l.leave.2.locks <+: l.locks := by
  obtain ⟨tx, locks⟩ := l
  cases tx with
  | none => exact ⟨h, prefix_rfl⟩
  | some t =>
    cases hm : t.marks with
    | nil =>
      cases hi : t.implicit with
      | true => simpa [leave, hm, hi] using h
      | false => simpa [leave, hm, hi, Conn.idle] using Good.idle
    | cons =>
      have hmarks := h.marks
      simp only [Conn.marks, hm, Option.map_some, Option.getD_some, MarksGood] at hmarks
      obtain ⟨hpre, -, hrest⟩ := hmarks
      have hlog : ∀ w ∈ t.log, P.wkeys w ⊆ locks := by simpa [Conn.log] using h.log
      simp only [leave, hm]
      refine ⟨⟨by simpa [Conn.log] using hlog, ?_⟩, prefix_rfl⟩
      simpa [Conn.marks] using hrest.mono hpre

def anyEnd : Except σ.Err α → Conn σ → σ.Db → Prop := fun _ _ _ => True

theorem Safe.stable {p : Prog σ α} {c c' : σ.Db} (hg : Good P l)
    (hr : P.rely l.locks c c') (h : Safe P anyEnd p l c) : Safe P anyEnd p l c' := by
  induction p generalizing l with
  | ret | raise => trivial
  | exec => exact fun c'' t hr' hi => h c'' t (P.rely_trans hr hr') hi
  | enter k ih =>
    intro t
    obtain ⟨he, hk⟩ := h t
    exact ⟨fun e => ih _ hg hr (he e), ih _ (hg.enter t) (by simpa using hr) hk⟩
  | leave b k ih =>
    have habort : ∀ keep, P.rely (l.abort keep).locks c c' :=
      fun keep => P.rely_mono (hg.abort keep).2.subset hr
    cases b with
    | true =>
      by_cases hm : l.marks = []
      · simp only [Safe, if_pos hm] at h ⊢
        exact fun c'' hr' hi => h c'' (P.rely_trans hr hr') hi
      · simp only [Safe, if_neg hm] at h ⊢
        exact ⟨fun e => ih _ (hg.abort true).1 (habort true) (h.1 e),
          ih _ hg.leave.1 (P.rely_mono hg.leave.2.subset hr) h.2⟩
    | false =>
      exact ⟨fun e => ih _ (hg.abort true).1 (habort true) (h.1 e),
        fun keep => ih _ (hg.abort keep).1 (habort keep) (h.2 keep)⟩
  | finish => exact fun c'' hr' hi => h c'' (P.rely_trans hr hr') hi
  | host k ih => exact fun x => ih x hg hr (h x)

/-! ## One step of a session -/

def Sess.committing (q : Sess σ) : Input σ → List σ.Write
  | .go _ =>
    match q.prog with
    | .leave true _ => q.conn.leave.1
    | .finish true _ => q.conn.log
    | _ => []
  | _ => []

/-- What a step does to the keys held: it gives some up, the newest first, or a statement the
    protocol allows takes more. -/
def LocksStep (P : Protocol σ) (clock : Time) (db : σ.Db) (q : Sess σ) (inp : Input σ) (q' : Sess σ) : Prop :=
  q'.conn.locks <+: q.conn.locks ∨
    ∃ keep st k ws, inp = .go keep ∧ q.prog = .exec st k ∧
      st.act ((q.conn.opened clock).view db) (q.conn.opened clock).now = .ok ws ∧
      StmtSafe P (q.conn.opened clock) ((q.conn.opened clock).view db)
        (st.keys ((q.conn.opened clock).view db) (q.conn.opened clock).now) ws ∧
      q'.conn.locks = (q.conn.take (st.keys ((q.conn.opened clock).view db) (q.conn.opened clock).now)).locks

@[simp] theorem Conn.locks_opened (l : Conn σ) (t : Time) : (l.opened t).locks = l.locks := by
  cases h : l.tx <;> simp [opened, h]

theorem Conn.isSome_opened (l : Conn σ) (t : Time) : (l.opened t).tx.isSome := by
  cases h : l.tx <;> simp [opened, h]

theorem Good.opened (h : Good P l) (t : Time) : Good P (l.opened t) := by
  obtain ⟨tx, locks⟩ := l
  cases tx with
  | none => exact ⟨by simp [opened, Conn.log], trivial⟩
  | some => exact h

theorem Good.statement {v : σ.Db} {ks : List σ.Key}
    {ws : List σ.Write} (ho : l.tx.isSome) (h : Good P l) (hs : StmtSafe P l v ks ws) :
    Good P ((l.take ks).push ws) := by
  rw [take_push]
  refine ⟨fun w hw k hk => ?_, ?_⟩
  · rw [log_grow ho] at hw
    rcases mem_append.mp hw with hw | hw
    · exact mem_append_left _ (h.log w hw hk)
    · by_cases hl : k ∈ l.locks
      · exact mem_append_left _ hl
      · exact mem_append_right _ (mem_filter.mpr ⟨(mem_append.mp (hs.1 w hw hk)).resolve_left hl, by simpa using hl⟩)
  · rw [marks_grow]
    exact h.marks.mono (prefix_append _ _)

/-- **One operation of a safe session.** It stays safe and in good order, its keys change as the
    protocol allows, and what it commits is a batch of actions under the keys it held. -/
theorem Sess.step_safe {clock : Time} {db db' : σ.Db} {q q' : Sess σ}
    {inp : Input σ} (hi : P.inv db) (hg : Good P q.conn)
    (hsafe : Safe P anyEnd q.prog q.conn db) (h : q.step clock db inp = some (q', db')) :
    Safe P anyEnd q'.prog q'.conn db' ∧ Good P q'.conn ∧ LocksStep P clock db q inp q' ∧
      P.Commits q.conn.locks (q.committing inp) db ∧ db' = σ.applyAll (q.committing inp) db := by
  obtain ⟨p, l⟩ := q
  cases p with
  | ret | raise => cases inp <;> simp [step] at h
  | exec st k =>
    obtain ⟨herr, hok⟩ := hsafe db clock (P.rely_refl _ _) hi
    have hopen : Good P (l.opened clock) := hg.opened clock
    cases inp with
    | host => cases h
    | fault e =>
      cases h
      exact ⟨herr e, hopen, .inl (by simp), .nil _ _, rfl⟩
    | go keep =>
      simp only [step] at h
      cases hact : st.act ((l.opened clock).view db) (l.opened clock).now with
      | error e =>
        simp only [hact, Option.some.injEq, Prod.mk.injEq] at h
        obtain ⟨rfl, rfl⟩ := h
        exact ⟨herr e, hopen, .inl (by simp), .nil _ _, rfl⟩
      | ok ws =>
        simp only [hact, Option.some.injEq, Prod.mk.injEq] at h
        obtain ⟨rfl, rfl⟩ := h
        obtain ⟨hs, hk⟩ := hok ws hact
        refine ⟨hk, hopen.statement (l.isSome_opened clock) hs,
          .inr ⟨keep, st, k, ws, rfl, rfl, hact, hs, ?_⟩, .nil _ _, rfl⟩
        show ((l.opened clock).take _).locks = (l.take _).locks
        simp only [Conn.take, locks_opened]
  | enter =>
    obtain ⟨herr, hk⟩ := hsafe clock
    cases inp with
    | host => cases h
    | fault e =>
      cases h
      exact ⟨herr e, hg, .inl prefix_rfl, .nil _ _, rfl⟩
    | go =>
      cases h
      exact ⟨hk, hg.enter clock, .inl (by simp), .nil _ _, rfl⟩
  | leave b =>
    cases b with
    | true =>
      by_cases hm : l.marks = []
      · simp only [Safe, if_pos hm] at hsafe
        obtain ⟨herr, hcom, hk⟩ := hsafe db (P.rely_refl _ _) hi
        cases inp with
        | host => cases h
        | fault e =>
          cases h
          exact ⟨herr e, (hg.abort true).1, .inl (hg.abort true).2, .nil _ _, rfl⟩
        | go =>
          cases h
          exact ⟨hk, hg.leave.1, .inl hg.leave.2, hcom, rfl⟩
      · simp only [Safe, if_neg hm] at hsafe
        obtain ⟨herr, hk⟩ := hsafe
        -- inside the transaction nothing is committed yet
        have hnil : l.leave.1 = [] := by
          obtain ⟨tx, locks⟩ := l
          cases tx with
          | none => simp [leave]
          | some t =>
            cases ht : t.marks with
            | nil => simp [marks, ht] at hm
            | cons => simp [leave, ht]
        cases inp with
        | host => cases h
        | fault e =>
          cases h
          exact ⟨herr e, (hg.abort true).1, .inl (hg.abort true).2, .nil _ _, rfl⟩
        | go =>
          cases h
          simp only [committing, hnil, Store.applyAll_nil]
          exact ⟨hk, hg.leave.1, .inl hg.leave.2, .nil _ _, trivial⟩
    | false =>
      obtain ⟨herr, hk⟩ := hsafe
      cases inp with
      | host => cases h
      | fault e =>
        cases h
        exact ⟨herr e, (hg.abort true).1, .inl (hg.abort true).2, .nil _ _, rfl⟩
      | go keep =>
        cases h
        exact ⟨hk keep, (hg.abort keep).1, .inl (hg.abort keep).2, .nil _ _, rfl⟩
  | finish b =>
    obtain ⟨herr, hk⟩ := hsafe db (P.rely_refl _ _) hi
    cases inp with
    | host => cases b <;> simp [step] at h
    | fault e =>
      cases h
      exact ⟨herr e, .idle, .inl (by simp [idle]), .nil _ _, rfl⟩
    | go =>
      cases b with
      | true =>
        cases h
        exact ⟨hk.2, .idle, .inl (by simp [idle]), hk.1, rfl⟩
      | false =>
        cases h
        exact ⟨hk, .idle, .inl (by simp [idle]), .nil _ _, rfl⟩
  | host =>
    cases inp with
    | host x =>
      cases h
      exact ⟨hsafe x, hg, .inl prefix_rfl, .nil _ _, rfl⟩
    | fault | go => cases h

/-! ## The system -/

/-- What holds of every state a system of safe clients reaches. -/
structure Holds (P : Protocol σ) (s : Sys σ) : Prop where
  inv : P.inv s.db
  safe : ∀ (i : Nat) (q : Sess σ), s.sess[i]? = some q → Safe P anyEnd q.prog q.conn s.db
  good : ∀ (i : Nat) (q : Sess σ), s.sess[i]? = some q → Good P q.conn
  excl : ∀ (i j : Nat) (q r : Sess σ), s.sess[i]? = some q → s.sess[j]? = some r → i ≠ j →
    ∀ k ∈ q.conn.locks, σ.shared k = false → k ∉ r.conn.locks

/-- A client follows the protocol from every state that meets the invariant. -/
def ClientSafe (P : Protocol σ) (p : Prog σ Unit) : Prop :=
  ∀ c, P.inv c → Top P p c fun _ _ => True

namespace Sys
def commits (s : Sys σ) : Choice σ Cl → List σ.Write
  | .act i inp => ((s.sess[i]?).map fun q => q.committing inp).getD []
  | _ => []

theorem not_held_of_not_blocked {s : Sys σ} {i j : Nat} {r : Sess σ} {ks : List σ.Key}
    (h : s.blocked i ks = false) (hr : s.sess[j]? = some r) (hij : j ≠ i) {k : σ.Key}
    (hk : k ∈ ks) (hs : σ.shared k = false) : k ∉ r.conn.locks := by
  intro hmem
  have hidx : (r, j) ∈ s.sess.zipIdx := by
    rwa [mem_zipIdx_iff_getElem?]
  simp only [blocked, any_eq_false, Bool.and_eq_true, any_eq_true, not_and] at h
  refine h (r, j) hidx (by simpa using hij) ⟨k, hk, ?_, ?_⟩
  · simp [hs]
  · simpa using hmem
end Sys

variable {s : Sys σ}

theorem Sys.step_act {prog : Cl → Prog σ Unit} {s' : Sys σ} {i : Nat} {inp : Input σ}
    (h : s.step prog (.act i inp) = some s') : ∃ q q' db', s.sess[i]? = some q ∧ s.waits i q inp = false ∧
      q.step s.clock s.db inp = some (q', db') ∧ s' = { s with db := db', sess := s.sess.set i q' } := by
  simp only [Sys.step] at h
  cases hq : s.sess[i]? with
  | none => simp [hq] at h
  | some q =>
    simp only [hq] at h
    cases hw : s.waits i q inp with
    | true => simp [hw] at h
    | false =>
      rw [hw] at h
      simp only [Bool.false_eq_true, if_false, Option.map_eq_some_iff] at h
      obtain ⟨⟨q', db'⟩, hstep, rfl⟩ := h
      exact ⟨q, q', db', rfl, hw, hstep, rfl⟩

variable {P : Protocol σ}

theorem Holds.start {db : σ.Db} (h : P.inv db) (t : Time) : Holds P ⟨db, t, []⟩ :=
  ⟨h, by simp, by simp, by simp⟩

/-- Replacing one session, and moving the committed state as the others' keys allow. -/
theorem Holds.set {i : Nat} {q' : Sess σ} {db' : σ.Db}
    (h : Holds P s) (hinv : P.inv db') (hsafe : Safe P anyEnd q'.prog q'.conn db') (hgood : Good P q'.conn)
    (hrely : ∀ j r, j ≠ i → s.sess[j]? = some r → P.rely r.conn.locks s.db db')
    (hexcl : ∀ j r, j ≠ i → s.sess[j]? = some r → ∀ k ∈ q'.conn.locks, σ.shared k = false → k ∉ r.conn.locks) :
    Holds P { s with db := db', sess := s.sess.set i q' } := by
  refine ⟨hinv, ?_, ?_, ?_⟩
  · intro j r hr
    rcases getElem?_set_cases hr with ⟨rfl, rfl⟩ | ⟨hj, hr⟩
    · exact hsafe
    · exact (h.safe j r hr).stable (h.good j r hr) (hrely j r hj.symm hr)
  · intro j r hr
    rcases getElem?_set_cases hr with ⟨rfl, rfl⟩ | ⟨hj, hr⟩
    · exact hgood
    · exact h.good j r hr
  · intro j j' r r' hr hr' hjj' k hk hs
    rcases getElem?_set_cases hr with ⟨hj, hq⟩ | ⟨hj, hold⟩
    · rcases getElem?_set_cases hr' with ⟨hj', -⟩ | ⟨hj', hold'⟩
      · exact absurd (hj.symm.trans hj') hjj'
      · exact hexcl j' r' hj'.symm hold' k (hq ▸ hk) hs
    · rcases getElem?_set_cases hr' with ⟨-, hq'⟩ | ⟨hj', hold'⟩
      · exact fun hk' => hexcl j r hj.symm hold k (hq' ▸ hk') hs hk
      · exact h.excl j j' r r' hold hold' hjj' k hk hs

/-- **One step of a system of safe clients**: what holds keeps holding, and what is committed is a
    batch of actions performed in the committed state before the step. -/
theorem Holds.step {prog : Cl → Prog σ Unit} {s' : Sys σ} {ch : Choice σ Cl}
    (hcl : ∀ c, ch = .spawn c → ClientSafe P (prog c)) (h : Holds P s) (hs : s.step prog ch = some s') :
    Holds P s' ∧ s'.db = σ.applyAll (s.commits ch) s.db ∧
      ∃ as, P.batch as ∧ s.commits ch = as.flatMap P.writes ∧ P.Path s.db as := by
  have hnone : ∃ as, P.batch as ∧ ([] : List σ.Write) = as.flatMap P.writes ∧ P.Path s.db as :=
    ⟨[], P.batch_nil, rfl, trivial⟩
  cases ch with
  | tick =>
    cases hs
    exact ⟨⟨h.inv, h.safe, h.good, h.excl⟩, rfl, hnone⟩
  | spawn c =>
    cases hs
    have hnew : ∀ (j : Nat) (r : Sess σ), (s.sess ++ [⟨prog c, .idle⟩])[j]? = some r →
        s.sess[j]? = some r ∨ r = ⟨prog c, .idle⟩ := fun j r hr =>
      (getElem?_concat_cases hr).imp_right And.right
    refine ⟨⟨h.inv, ?_, ?_, ?_⟩, rfl, hnone⟩
    · intro j r hr
      rcases hnew j r hr with hr | rfl
      · exact h.safe j r hr
      · exact .mono (fun _ _ _ _ => trivial) (hcl c rfl s.db h.inv)
    · intro j r hr
      rcases hnew j r hr with hr | rfl
      · exact h.good j r hr
      · exact .idle
    · intro j j' r r' hr hr' hjj' k hk hsh
      rcases hnew j r hr with hr | rfl
      · rcases hnew j' r' hr' with hr' | rfl
        · exact h.excl j j' r r' hr hr' hjj' k hk hsh
        · simp [idle]
      · simp [idle] at hk
  | crash i =>
    simp only [Sys.step] at hs
    cases hq : s.sess[i]? with
    | none => simp [hq] at hs
    | some =>
      simp only [hq, Option.some.injEq] at hs
      subst hs
      refine ⟨?_, rfl, hnone⟩
      exact h.set h.inv trivial .idle (fun _ _ _ _ => P.rely_refl _ _) (by simp [idle])
  | act i inp =>
    obtain ⟨q, q', db', hq, hw, hstep, rfl⟩ := Sys.step_act hs
    obtain ⟨hsafe, hgood, hlocks, hcom, rfl⟩ :=
      step_safe h.inv (h.good i q hq) (h.safe i q hq) hstep
    have hws : s.commits (.act i inp : Choice σ Cl) = q.committing inp := by
      simp [Sys.commits, hq]
    rw [hws]
    obtain ⟨as, hb, hlog, hneed, hpath⟩ := hcom
    refine ⟨?_, rfl, as, hb, hlog, hpath⟩
    have hothers : ∀ j r, j ≠ i → s.sess[j]? = some r → P.rely r.conn.locks s.db (P.effs as s.db) := by
      intro j r hj hr
      refine hpath.rely h.inv fun a ha k hk hsh => ?_
      exact h.excl i j q r hq hr (Ne.symm hj) k (hneed a ha hk) hsh
    rw [hlog, Protocol.applyAll_flatMap] at hsafe ⊢
    refine h.set (hpath.inv h.inv) hsafe hgood hothers ?_
    intro j r hj hr k hk hsh
    rcases hlocks with hpre | ⟨keep, st, kk, ws, rfl, hprog, hact, -, hl⟩
    · exact h.excl i j q r hq hr (Ne.symm hj) k (hpre.subset hk) hsh
    · rw [hl] at hk
      rcases mem_append.mp hk with hk | hk
      · exact h.excl i j q r hq hr (Ne.symm hj) k hk hsh
      · have hwant : k ∈ q.wants s.clock s.db := by
          simp only [wants, hprog, hact]
          exact (mem_filter.mp hk).1
        exact Sys.not_held_of_not_blocked hw hr hj hwant hsh

/-! ## Runs -/

theorem Protocol.Path.always {J : σ.Db → Prop}
    (hact : ∀ a c, P.inv c → J c → P.guard a c → J (P.eff a c)) {c : σ.Db} {as : List P.Act}
    (hi : P.inv c) (hJ : J c) (h : P.Path c as) : J (P.effs as c) := by
  induction as generalizing c with
  | nil => exact hJ
  | cons a as ih => exact ih (P.inv_act hi h.1) (hact a c hi hJ h.1) h.2

namespace Sys
variable {P : Protocol σ} {prog : Cl → Prog σ Unit} {init : σ.Db → Prop}
variable {ok : Sys σ → Choice σ Cl → Prop} {s : Sys σ}

variable (hcl : ∀ s c, ok s (.spawn c) → ClientSafe P (prog c))
include hcl

variable (hinit : ∀ db, init db → P.inv db)
include hinit

theorem Reach.holds (h : Reach prog init ok s) : Holds P s := by
  induction h with
  | init t h => exact .start (hinit _ h) t
  | step _ hok hs ih => exact (ih.step (fun c hc => hcl _ c (hc ▸ hok)) hs).1

theorem Reach.always_commits {J : σ.Db → Prop}
    (hJ : ∀ db, init db → J db) (hstep : ∀ s ch as, ok s ch → P.inv s.db → J s.db → P.batch as →
      s.commits ch = as.flatMap P.writes → P.Path s.db as → J (P.effs as s.db))
    (h : Reach prog init ok s) : J s.db := by
  induction h with
  | init t h => exact hJ _ h
  | step hr hok hs ih =>
    have hholds := Reach.holds hcl hinit hr
    obtain ⟨-, hdb, as, hb, hws, hpath⟩ := hholds.step (fun c hc => hcl _ c (hc ▸ hok)) hs
    rw [hdb, hws, Protocol.applyAll_flatMap]
    exact hstep _ _ as hok hholds.inv ih hb hws hpath

/-- **What every action keeps, every committed state has.** -/
theorem Reach.always {J : σ.Db → Prop} (hJ : ∀ db, init db → J db)
    (hact : ∀ a c, P.inv c → J c → P.guard a c → J (P.eff a c)) (h : Reach prog init ok s) : J s.db :=
  h.always_commits hcl hinit hJ fun _ _ _ _ hi ih _ _ hpath => hpath.always hact hi ih
end Sys
end Lib
