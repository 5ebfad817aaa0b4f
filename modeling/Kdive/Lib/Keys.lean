import Kdive.Lib.Soundness

/-! # The keys a session holds, over a whole run

What a transaction has taken so far says something about the committed state: that it was so when the
key was taken, and that nothing since has undone it. `Reach.keys` is the rule for such properties of
the keys held and the database together.
-/

namespace Lib
open List

variable {σ : Store} {Cl : Type} {P : Protocol σ} {prog : Cl → Prog σ Unit} {s s' : Sys σ}

/-- What a session commits it commits under its keys. -/
theorem Holds.commits_act {i : Nat} {inp : Input σ} (h : Holds P s)
    (hs : s.step prog (.act i inp) = some s') : ∃ q, s.sess[i]? = some q ∧
      P.Commits q.conn.locks (s.commits (.act i inp : Choice σ Cl)) s.db := by
  obtain ⟨q, q', db', hq, -, hstep, -⟩ := Sys.step_act hs
  refine ⟨q, hq, ?_⟩
  have hws : s.commits (.act i inp : Choice σ Cl) = q.committing inp := by
    simp [Sys.commits, hq]
  rw [hws]
  exact (Sess.step_safe h.inv (h.good i q hq) (h.safe i q hq) hstep).2.2.2.1

variable {ch : Choice σ Cl}

theorem Holds.commits (h : Holds P s) (hs : s.step prog ch = some s') :
    s.commits ch = [] ∨ ∃ q ∈ s.sess, P.Commits q.conn.locks (s.commits ch) s.db := by
  cases ch with
  | tick | spawn | crash => exact .inl rfl
  | act =>
    obtain ⟨q, hq, hcommits⟩ := h.commits_act hs
    exact .inr ⟨q, mem_of_getElem? hq, hcommits⟩

/-- A step that is not the session's own is one its keys allow the others. -/
theorem Holds.rely_others {i : Nat} {q : Sess σ} (h : Holds P s)
    (hs : s.step prog ch = some s') (hq : s.sess[i]? = some q) (hother : ∀ inp, ch ≠ .act i inp) :
    P.rely q.conn.locks s.db s'.db := by
  cases ch with
  | tick | spawn =>
    cases hs
    exact P.rely_refl _ _
  | crash j =>
    simp only [Sys.step] at hs
    cases hj : s.sess[j]? with
    | none => simp [hj] at hs
    | some =>
      simp only [hj, Option.some.injEq] at hs
      subst hs
      exact P.rely_refl _ _
  | act j inp =>
    have hij : j ≠ i := fun heq => hother inp (by rw [heq])
    obtain ⟨r, r', db', hr, -, hstep, rfl⟩ := Sys.step_act hs
    obtain ⟨-, -, -, hcom, rfl⟩ := Sess.step_safe h.inv (h.good j r hr) (h.safe j r hr) hstep
    obtain ⟨as, -, hws, hneed, hpath⟩ := hcom
    show P.rely q.conn.locks s.db (σ.applyAll (r.committing inp) s.db)
    rw [hws, Protocol.applyAll_flatMap]
    refine hpath.rely h.inv ?_
    intro a ha k hk hshared
    exact h.excl j i r q hr hq hij k (hneed a ha hk) hshared

/-- The keys of a session after a step: none; some of those it held, the newest given up; or those and
    what a statement took. -/
inductive KeysStep (P : Protocol σ) (s s' : Sys σ) (q' : Sess σ) : Prop
  | none (h : q'.conn.locks = [])
  | fewer {i : Nat} {q : Sess σ} (hq : s.sess[i]? = some q) (h : q'.conn.locks <+: q.conn.locks)
  | more {i : Nat} {q : Sess σ} {t : Time} {ks : List σ.Key} {ws : List σ.Write}
      (hq : s.sess[i]? = some q)
      (hsafe : StmtSafe P (q.conn.opened t) ((q.conn.opened t).view s.db) ks ws)
      (hdb : s'.db = s.db) (h : q'.conn.locks = (q.conn.take ks).locks)

theorem Holds.keysStep {j : Nat} {q' : Sess σ} (h : Holds P s)
    (hs : s.step prog ch = some s') (hq' : s'.sess[j]? = some q') : KeysStep P s s' q' := by
  cases ch with
  | tick =>
    cases hs
    exact .fewer hq' prefix_rfl
  | spawn =>
    cases hs
    rcases getElem?_concat_cases hq' with hq' | ⟨-, rfl⟩
    · exact .fewer hq' prefix_rfl
    · exact .none rfl
  | crash i =>
    simp only [Sys.step] at hs
    cases hq : s.sess[i]? with
    | none => simp [hq] at hs
    | some =>
      simp only [hq, Option.some.injEq] at hs
      subst hs
      rcases getElem?_set_cases hq' with ⟨rfl, rfl⟩ | ⟨-, hold⟩
      · exact .none rfl
      · exact .fewer hold prefix_rfl
  | act i =>
    obtain ⟨q, q1, db', hq, -, hstep, rfl⟩ := Sys.step_act hs
    obtain ⟨-, -, hlocks, -, hdb⟩ :=
      Sess.step_safe h.inv (h.good i q hq) (h.safe i q hq) hstep
    rcases getElem?_set_cases hq' with ⟨rfl, rfl⟩ | ⟨-, hold⟩
    · rcases hlocks with hpre | ⟨keep, st, k, ws, rfl, hprog, -, hsafe, hl⟩
      · exact .fewer hq hpre
      · refine .more hq hsafe ?_ hl
        -- a statement commits nothing
        rw [hdb, Sess.committing, hprog]
        rfl
    · exact .fewer hold prefix_rfl

namespace Sys
variable {init : σ.Db → Prop} {ok : Sys σ → Choice σ Cl → Prop}

/-- **What the keys a session holds say of the database**, if a statement that takes more keeps it, and
    no commit undoes it. -/
theorem Reach.keys {K : σ.Db → List σ.Key → Prop}
    (hcl : ∀ s c, ok s (.spawn c) → ClientSafe P (prog c)) (hinit : ∀ db, init db → P.inv db)
    (hnil : ∀ db, K db []) (hfewer : ∀ db L L', L' <+: L → K db L → K db L')
    (htake : ∀ db l ks ws, P.inv db → StmtSafe P l (l.view db) ks ws → K db l.locks → K db (l.take ks).locks)
    (hcommit : ∀ s ch s' q, Holds P s → ok s ch → s.step prog ch = some s' → q ∈ s.sess →
      K s.db q.conn.locks → K s'.db q.conn.locks) (h : Reach prog init ok s) : ∀ q ∈ s.sess, K s.db q.conn.locks := by
  induction h with
  | init => simp
  | step hr hok hs ih =>
    have hholds := Reach.holds hcl hinit hr
    intro q' hmem
    obtain ⟨j, hq'⟩ := mem_iff_getElem?.mp hmem
    cases hholds.keysStep hs hq' with
    | none hl =>
      rw [hl]
      exact hnil _
    | fewer hq hl =>
      have hmem := mem_of_getElem? hq
      exact hfewer _ _ _ hl (hcommit _ _ _ _ hholds hok hs hmem (ih _ hmem))
    | more hq hsafe hdb hl =>
      have hK := ih _ (mem_of_getElem? hq)
      rw [hdb, hl]
      have htaken := htake _ _ _ _ hholds.inv hsafe (by simpa using hK)
      simpa [Conn.take] using htaken
end Sys
end Lib
