import Kdive.Lib.Script

/-! # A program that runs alone

`solo` runs a program to its end on a database nobody else writes, the operations of the database all succeeding: what
it returns or raises, its connection and the committed state then. It is a run of the system with that one session
(`leads_solo`).
-/

namespace Lib
variable {σ : Store} {α β Cl : Type}

structure Outcome (σ : Store) (α : Type) where
  result : Except σ.Err α
  conn : Conn σ
  db : σ.Db
  /-- How often the host has been asked. -/
  asked : Nat

namespace Prog
/-- Run alone, at a fixed time of the database; `host n` is what the host answers the `n`-th time. -/
def solo (host : Nat → σ.Host) (clock : Time) : Prog σ α → Conn σ → σ.Db → Nat → Outcome σ α
  | .ret a, l, db, n => ⟨.ok a, l, db, n⟩
  | .raise e, l, db, n => ⟨.error e, l, db, n⟩
  | .exec st k, l, db, n =>
    let l := l.opened clock
    match st.act (l.view db) l.now with
    | .error e => (k (.error e)).solo host clock l db n
    | .ok ws => (k (.ok (l.view db, l.now))).solo host clock
        ((l.take (st.keys (l.view db) l.now)).push ws) db n
  | .enter k, l, db, n => (k (.ok ())).solo host clock (l.enter clock) db n
  | .leave true k, l, db, n => (k (.ok ())).solo host clock l.leave.2 (σ.applyAll l.leave.1 db) n
  | .leave false k, l, db, n => (k (.ok ())).solo host clock (l.abort true) db n
  | .finish true k, l, db, n => (k (.ok ())).solo host clock .idle (σ.applyAll l.log db) n
  | .finish false k, _, db, n => (k (.ok ())).solo host clock .idle db n
  | .host k, l, db, n => (k (host n)).solo host clock l db (n + 1)

variable {host : Nat → σ.Host} {clock : Time} {l : Conn σ} {db : σ.Db} {n : Nat}

theorem solo_attempt (p : Prog σ α) (h : Except σ.Err α → Prog σ β) : (p.attempt h).solo host clock l db n =
      (h (p.solo host clock l db n).result).solo host clock (p.solo host clock l db n).conn
        (p.solo host clock l db n).db (p.solo host clock l db n).asked := by
  induction p generalizing l db n with
  | ret | raise => rfl
  | exec st k ih =>
    simp only [attempt, solo]
    split
    · exact ih _
    · exact ih _
  | enter _ ih | host _ ih => exact ih _
  | leave b _ ih | finish b _ ih => cases b <;> exact ih _

theorem solo_bind (p : Prog σ α) (f : α → Prog σ β) : (p >>= f).solo host clock l db n =
      (andThen f (p.solo host clock l db n).result).solo host clock (p.solo host clock l db n).conn
        (p.solo host clock l db n).db (p.solo host clock l db n).asked :=
  solo_attempt p _

theorem solo_pure (a : α) : (pure a : Prog σ α).solo host clock l db n = ⟨.ok a, l, db, n⟩ := rfl

theorem solo_select (f : σ.Db → Time → α) : (select f).solo host clock l db n =
    ⟨.ok (f (l.view db) (l.opened clock).now), ((l.opened clock).take []).push [], db, n⟩ := by
  obtain ⟨_ | t, locks⟩ := l <;> rfl

section
variable {t : Tx σ} {n' : Nat}

/-- A statement of an open transaction adds its writes to it, and its locks. -/
theorem solo_stmt (htx : l.tx = some t) {st : Stmt σ} {ws : List σ.Write} (hact : st.act (l.view db) t.start = .ok ws)
    (f : σ.Db → Time → α) : (stmt st f).solo host clock l db n = ⟨.ok (f (l.view db) t.start),
      ⟨some { t with log := t.log ++ ws }, (l.take (st.keys (l.view db) t.start)).locks⟩, db, n⟩ := by
  obtain ⟨_, locks⟩ := l
  cases htx
  have hact' : st.act (Conn.view ⟨some t, locks⟩ db) (Conn.now ⟨some t, locks⟩) = .ok ws := hact
  simp only [stmt, solo, Conn.opened, hact']
  rfl

/-- In a transaction a query changes nothing. -/
theorem solo_select_tx (htx : l.tx = some t) (f : σ.Db → Time → α) :
    (select f).solo host clock l db n = ⟨.ok (f (l.view db) t.start), l, db, n⟩ := by
  rw [select, solo_stmt htx rfl]
  obtain ⟨_, locks⟩ := l
  cases htx
  simp [Conn.take]

/-- The program leaves its connection and the database as they are. -/
def Quiet (host : Nat → σ.Host) (clock : Time) (l : Conn σ) (db : σ.Db) (n : Nat) (p : Prog σ α) : Prop :=
  ∃ r, p.solo host clock l db n = ⟨r, l, db, n⟩

theorem Quiet.ofExcept (r : Except σ.Err α) : Quiet host clock l db n (Prog.ofExcept r) := ⟨r, by cases r <;> rfl⟩

theorem Quiet.select (htx : l.tx = some t) (f : σ.Db → Time → α) : Quiet host clock l db n (Prog.select f) :=
  ⟨_, solo_select_tx htx f⟩

theorem Quiet.bind {p : Prog σ α} {f : α → Prog σ β} (h : Quiet host clock l db n p)
    (hf : ∀ a, Quiet host clock l db n (f a)) : Quiet host clock l db n (p >>= f) := by
  obtain ⟨r, hr⟩ := h
  unfold Quiet
  rw [solo_bind, hr]
  cases r with
  | error e => exact ⟨_, rfl⟩
  | ok a => exact hf a
end
end Prog

namespace Sys
variable {prog : Cl → Prog σ Unit}

theorem step_alone {q q' : Sess σ} {clock : Time} {db db' : σ.Db} {inp : Input σ}
    (h : q.step clock db inp = some (q', db')) :
    Sys.step prog ⟨db, clock, [q]⟩ (.act 0 inp) = some ⟨db', clock, [q']⟩ := by
  have hfree : Sys.waits ⟨db, clock, [q]⟩ 0 q inp = false := by
    cases inp <;> simp [Sys.waits, Sys.blocked]
  simp [Sys.step, hfree, h]

theorem leads_of_step_alone {q q' : Sess σ} {clock : Time} {db db' : σ.Db} {s : Sys σ} (inp : Input σ)
    (h : q.step clock db inp = some (q', db')) (hrest : Leads prog ⟨db', clock, [q']⟩ s) :
    Leads prog ⟨db, clock, [q]⟩ s :=
  Leads.trans (.step (.refl _) (step_alone h)) hrest

/-- **A solo run is a run of the system.** -/
theorem leads_solo (host : Nat → σ.Host) (clock : Time) (p : Prog σ Unit) (l : Conn σ) (db : σ.Db)
    (n : Nat) : Leads prog ⟨db, clock, [⟨p, l⟩]⟩ ⟨(p.solo host clock l db n).db, clock,
        [⟨.ofExcept (p.solo host clock l db n).result, (p.solo host clock l db n).conn⟩]⟩ := by
  induction p generalizing l db n with
  | ret | raise => exact .refl _
  | exec st k ih =>
    cases hact : st.act ((l.opened clock).view db) (l.opened clock).now with
    | error | ok =>
      simp only [Prog.solo, hact]
      exact leads_of_step_alone (.go true) (by simp only [Sess.step, hact]) (ih _ _ _ _)
  | enter k ih => exact leads_of_step_alone (.go true) rfl (ih _ _ _ _)
  | leave b k ih | finish b k ih => cases b <;> exact leads_of_step_alone (.go true) rfl (ih _ _ _ _)
  | host k ih => exact leads_of_step_alone (.host (host n)) rfl (ih _ _ _ _)
end Sys
end Lib
