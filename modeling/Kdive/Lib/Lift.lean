import Kdive.Lib.Soundness

/-! # Programs of a part of the database

A database grows: tables are added, with their own writes and keys, and the programs that were there
before go on as they are. `Store.extend` is a store with a further part beside the old one, and
`Prog.lift` runs a program of the old store in it.

What was proved of such a program carries over: if the discipline of the larger store leaves the old part
as the old discipline does (`Includes`), a safe program stays safe (`Safe.lift`).
-/

namespace Lib
open List Conn

/-- What is added to a store. The new writes leave the old part alone, and the old ones the new. -/
structure Annex where
  Db : Type
  Write : Type
  Key : Type
  Host : Type
  decKey : DecidableEq Key
  apply : Write → Db → Db
  shared : Key → Bool

instance (ξ : Annex) : DecidableEq ξ.Key := ξ.decKey

/-- The store with its annex. -/
abbrev Store.extend (σ : Store) (ξ : Annex) : Store where
  Db := σ.Db × ξ.Db
  Write := σ.Write ⊕ ξ.Write
  Key := σ.Key ⊕ ξ.Key
  Err := σ.Err
  Host := σ.Host × ξ.Host
  decKey := inferInstance
  apply := fun
    | .inl w => fun d => (σ.apply w d.1, d.2)
    | .inr w => fun d => (d.1, ξ.apply w d.2)
  shared := fun
    | .inl k => σ.shared k
    | .inr k => ξ.shared k

variable {σ : Store} {ξ : Annex} {α β : Type}

theorem applyAll_inl (ws : List σ.Write) (d : σ.Db × ξ.Db) :
    (σ.extend ξ).applyAll (ws.map .inl) d = (σ.applyAll ws d.1, d.2) := by
  induction ws generalizing d with
  | nil => rfl
  | cons w ws ih => exact ih _

/-! ## Programs -/

def Stmt.lift (st : Stmt σ) : Stmt (σ.extend ξ) where
  keys v t := (st.keys v.1 t).map .inl
  act v t := (st.act v.1 t).map (·.map .inl)

namespace Prog
def lift : Prog σ α → Prog (σ.extend ξ) α
  | .ret a => .ret a
  | .raise e => .raise e
  | .exec st k => .exec st.lift fun r => (k (r.map fun x => (x.1.1, x.2))).lift
  | .enter k => .enter fun r => (k r).lift
  | .leave b k => .leave b fun r => (k r).lift
  | .finish b k => .finish b fun r => (k r).lift
  | .host k => .host fun x => (k x.1).lift

variable (p : Prog σ α)

theorem lift_attempt (h : Except σ.Err α → Prog σ β) :
    (p.attempt h).lift (ξ := ξ) = p.lift.attempt fun r => (h r).lift := by
  induction p with
  | ret | raise => rfl
  | exec _ _ ih | enter _ ih | leave _ _ ih | finish _ _ ih | host _ ih => simp only [attempt, lift, ih]

@[simp] theorem lift_bind (f : α → Prog σ β) : (p >>= f).lift (ξ := ξ) = p.lift >>= fun a => (f a).lift := by
  rw [bind_def, lift_attempt, bind_def]
  congr 1
  funext r
  cases r <;> rfl

@[simp] theorem lift_ofExcept (x : Except σ.Err α) :
    (ofExcept x : Prog σ α).lift (ξ := ξ) = ofExcept (σ := σ.extend ξ) x := by
  cases x <;> rfl

@[simp] theorem lift_stmt (st : Stmt σ) (f : σ.Db → Time → α) :
    (stmt st f).lift (ξ := ξ) = stmt st.lift fun v t => f v.1 t := by
  simp only [stmt, lift]
  congr 1
  funext r
  cases r <;> rfl

@[simp] theorem lift_ask (f : σ.Host → α) : (ask f).lift (ξ := ξ) = ask (σ := σ.extend ξ) fun x => f x.1 := rfl

@[simp] theorem lift_transaction : (transaction p).lift (ξ := ξ) = transaction p.lift := by
  unfold transaction
  simp only [lift]
  congr 1
  funext r
  cases r with
  | error => rfl
  | ok _ =>
    simp only [andThen, lift_attempt]
    congr 1
    funext r
    cases r with
    | error => rfl
    | ok a =>
      simp only [lift]
      congr 1
      funext r
      cases r <;> rfl

@[simp] theorem lift_connection : (connection p).lift (ξ := ξ) = connection p.lift := by
  rw [connection, lift_attempt, connection]
  congr 1
  funext r
  cases r with
  | error => rfl
  | ok a =>
    simp only [lift]
    congr 1
    funext r
    cases r <;> rfl
end Prog

/-! ## Connections -/

def Mark.lift (m : Mark σ) : Mark (σ.extend ξ) := ⟨m.log.map .inl, m.locks.map .inl⟩

def Tx.lift (t : Tx σ) : Tx (σ.extend ξ) := ⟨t.start, t.implicit, t.log.map .inl, t.marks.map Mark.lift⟩

namespace Conn
def lift (l : Conn σ) : Conn (σ.extend ξ) := ⟨l.tx.map Tx.lift, l.locks.map .inl⟩

variable (l : Conn σ)

@[simp] theorem lift_idle : (idle : Conn σ).lift (ξ := ξ) = idle := rfl

@[simp] theorem locks_lift : (l.lift (ξ := ξ)).locks = l.locks.map .inl := rfl

@[simp] theorem log_lift : (l.lift (ξ := ξ)).log = l.log.map .inl := by
  cases h : l.tx <;> simp [lift, log, h, Tx.lift]

@[simp] theorem now_lift : (l.lift (ξ := ξ)).now = l.now := by
  cases h : l.tx <;> simp [lift, now, h, Tx.lift]

@[simp] theorem marks_lift : (l.lift (ξ := ξ)).marks = l.marks.map Mark.lift := by
  cases h : l.tx <;> simp [lift, marks, h, Tx.lift]

theorem view_lift (d : σ.Db × ξ.Db) : (l.lift (ξ := ξ)).view d = (l.view d.1, d.2) := by
  rw [view, log_lift, applyAll_inl, view]

@[simp] theorem opened_lift (t : Time) : (l.lift (ξ := ξ)).opened t = (l.opened t).lift := by
  cases h : l.tx <;> simp [lift, opened, h, Tx.lift]

@[simp] theorem enter_lift (t : Time) : (l.lift (ξ := ξ)).enter t = (l.enter t).lift := by
  cases h : l.tx <;> simp [lift, enter, h, Tx.lift, Mark.lift]

theorem take_lift (ks : List σ.Key) : (l.lift (ξ := ξ)).take (ks.map Sum.inl) = (l.take ks).lift := by
  simp only [take, lift, map_append, filter_map]
  congr 3
  refine filter_congr fun k _ => ?_
  have hnew : Sum.inl k ∉ l.locks.map (Sum.inl (β := ξ.Key)) ↔ k ∉ l.locks := by simp
  exact decide_eq_decide.mpr hnew

theorem push_lift (ws : List σ.Write) : (l.lift (ξ := ξ)).push (ws.map Sum.inl) = (l.push ws).lift := by
  cases h : l.tx <;> simp [lift, push, h, Tx.lift]

theorem leave_lift : (l.lift (ξ := ξ)).leave = (l.leave.1.map .inl, l.leave.2.lift) := by
  obtain ⟨tx, locks⟩ := l
  cases tx with
  | none => rfl
  | some t =>
    obtain ⟨start, implicit, log, marks⟩ := t
    cases marks with
    | cons => rfl
    | nil => cases implicit <;> rfl

theorem abort_lift (keep : Bool) : (l.lift (ξ := ξ)).abort keep = (l.abort keep).lift := by
  obtain ⟨tx, locks⟩ := l
  cases tx with
  | none => rfl
  | some t =>
    obtain ⟨start, implicit, log, marks⟩ := t
    cases marks with
    | cons => cases keep <;> rfl
    | nil => cases implicit <;> rfl
end Conn

/-! ## Safety -/

theorem Protocol.Commits.step {P : Protocol σ} {H : List σ.Key} {ws : List σ.Write} {c : σ.Db}
    (hc : P.inv c) (h : P.Commits H ws c) : P.rely [] c (σ.applyAll ws c) ∧ P.inv (σ.applyAll ws c) := by
  obtain ⟨as, -, rfl, -, hpath⟩ := h
  rw [applyAll_flatMap]
  exact ⟨hpath.rely hc fun _ _ _ _ _ => not_mem_nil, hpath.inv hc⟩

/-- A safe program only ever moves the database as anybody may, itself included. -/
theorem Safe.tracked {P : Protocol σ} {E : Post σ (Except σ.Err α)} {p : Prog σ α}
    {l : Conn σ} {c0 c : σ.Db} (hr : P.rely [] c0 c) (hi : P.inv c) (h : Safe P E p l c) :
    Safe P (fun r l' c' => E r l' c' ∧ P.rely [] c0 c' ∧ P.inv c') p l c := by
  have hmove : ∀ {H c c'}, P.rely [] c0 c → P.rely H c c' → P.rely [] c0 c' := fun h0 h =>
    P.rely_trans h0 (P.rely_mono (nil_subset _) h)
  refine h.carry (I := fun c => P.rely [] c0 c ∧ P.inv c) (fun hI hr hi => ⟨hmove hI.1 hr, hi⟩) ?_
    (fun _ _ _ hE hI => ⟨hE, hI⟩) ⟨hr, hi⟩
  intro H ws c hI hi hc
  exact ⟨hmove hI.1 (hc.step hi).1, (hc.step hi).2⟩

/-- The discipline `Q` of the larger store asks no more of the old programs than `P` does, and promises
    them no less. -/
structure Includes (P : Protocol σ) (Q : Protocol (σ.extend ξ)) : Prop where
  inv : ∀ {d}, Q.inv d → P.inv d.1
  rely : ∀ {H d d'}, Q.rely (H.map .inl) d d' → P.rely H d.1 d'.1
  wkeys : ∀ w, Q.wkeys (.inl w) = (P.wkeys w).map .inl
  stmtOk : ∀ {l v ks ws}, P.stmtOk l v.1 ks ws → Q.stmtOk l.lift v (ks.map .inl) (ws.map .inl)
  commits : ∀ {H ws d}, P.Commits H ws d.1 → Q.Commits (H.map .inl) (ws.map .inl) d

section
variable {P : Protocol σ} {Q : Protocol (σ.extend ξ)}

theorem StmtSafe.lift (h : Includes P Q) {l : Conn σ} {v : σ.Db × ξ.Db} {ks : List σ.Key}
    {ws : List σ.Write} (hs : StmtSafe P l v.1 ks ws) : StmtSafe Q l.lift v (ks.map .inl) (ws.map .inl) := by
  refine ⟨?_, h.stmtOk hs.2⟩
  intro w hw
  obtain ⟨w0, hw0, rfl⟩ := mem_map.mp hw
  rw [h.wkeys, locks_lift, ← map_append]
  exact map_subset _ (hs.1 w0 hw0)

/-- **A safe program stays safe** in the larger store, and ends as it did. -/
theorem Safe.lift (h : Includes P Q) {E : Post σ (Except σ.Err α)} {p : Prog σ α}
    {l : Conn σ} {d : σ.Db × ξ.Db} (hp : Safe P E p l d.1) :
    Safe Q (fun r l' d' => ∃ l0, l' = l0.lift ∧ E r l0 d'.1) p.lift l.lift d := by
  induction p generalizing l d with
  | ret | raise => exact ⟨l, rfl, hp⟩
  | exec st k ih =>
    intro d' t hr hi
    obtain ⟨he, hk⟩ := hp d'.1 t (h.rely hr) (h.inv hi)
    rw [opened_lift, view_lift, now_lift]
    refine ⟨fun e => ih _ (he e), ?_⟩
    intro ws hws
    -- The lifted statement acts as the statement does on the old part.
    cases hact : st.act ((l.opened t).view d'.1) (l.opened t).now with
    | error => simp [Stmt.lift, hact, Except.map] at hws
    | ok ws0 =>
      obtain rfl : ws0.map .inl = ws := by simpa [Stmt.lift, hact, Except.map] using hws
      obtain ⟨hs, hrest⟩ := hk ws0 hact
      refine ⟨.lift h hs, ?_⟩
      show Safe Q _ _ (((l.opened t).lift.take (List.map _ _)).push _) _
      rw [take_lift, push_lift]
      exact ih _ hrest
  | enter k ih =>
    intro t
    obtain ⟨he, hk⟩ := hp t
    rw [enter_lift]
    exact ⟨fun e => ih _ (he e), ih _ hk⟩
  | leave b k ih =>
    cases b with
    | true =>
      simp only [Safe, Prog.lift, marks_lift, map_eq_nil_iff, leave_lift, abort_lift] at hp ⊢
      split
      · rename_i hm
        rw [if_pos hm] at hp
        intro d' hr hi
        obtain ⟨he, hc, hk⟩ := hp d'.1 (h.rely hr) (h.inv hi)
        refine ⟨fun e => ih _ (he e), h.commits hc, ?_⟩
        rw [applyAll_inl]
        exact ih _ hk
      · rename_i hm
        rw [if_neg hm] at hp
        exact ⟨fun e => ih _ (hp.1 e), ih _ hp.2⟩
    | false =>
      simp only [Safe, Prog.lift, abort_lift] at hp ⊢
      exact ⟨fun e => ih _ (hp.1 e), fun keep => ih _ (hp.2 keep)⟩
  | finish b k ih =>
    intro d' hr hi
    obtain ⟨he, hk⟩ := hp d'.1 (h.rely hr) (h.inv hi)
    rw [← lift_idle]
    refine ⟨fun e => ih _ (he e), ?_⟩
    cases b with
    | true =>
      rw [if_pos rfl] at hk ⊢
      rw [log_lift, applyAll_inl]
      exact ⟨h.commits hk.1, ih _ hk.2⟩
    | false =>
      rw [if_neg Bool.false_ne_true] at hk ⊢
      exact ih _ hk
  | host k ih => exact fun x => ih x.1 (hp x.1)

theorem ClientSafe.lift (h : Includes P Q) {p : Prog σ Unit} (hp : ClientSafe P p) :
    ClientSafe Q (p.lift (ξ := ξ)) := by
  intro d hd
  refine (Safe.lift h (l := .idle) (hp d.1 (h.inv hd))).tracked (Q.rely_refl _ _) hd |>.mono ?_
  rintro r l' d' ⟨⟨l0, rfl, rfl, -⟩, hr, hi⟩
  exact ⟨rfl, hr, hi, trivial⟩
end
end Lib
