import Kdive.Lib.System

/-! # A rely/guarantee discipline for transactional sessions

Each commit is a sequence of atomic *actions* of the abstract machine the database implements, each performed under
certain keys, and while a session holds keys the others can only change the database in the way those keys allow: that
is a `Protocol`. `Safe` says that a program follows it, by recursion: before each operation the others may have moved
the database along `rely` at the keys then held, and each commit must be a path of actions from the committed state of
that moment.
-/

namespace Lib
open List Option Conn

variable {σ : Store} {α β : Type}

/-- What a program comes to: its result, its connection, and the committed state of that moment. -/
abbrev Post (σ : Store) (α : Type) := α → Conn σ → σ.Db → Prop

/-- The discipline: actions, and what holding keys promises. -/
structure Protocol (σ : Store) where
  Act : Type
  /-- The row writes of an action, in the order its statements make them. -/
  writes : Act → List σ.Write
  guard : Act → σ.Db → Prop
  /-- The keys it is performed under. -/
  need : Act → List σ.Key
  /-- The sequences of actions one transaction may consist of. -/
  batch : List Act → Prop
  inv : σ.Db → Prop
  /-- How the others may change the database while the keys are held. -/
  rely : List σ.Key → σ.Db → σ.Db → Prop
  /-- The keys a write is made under. -/
  wkeys : σ.Write → List σ.Key
  /-- What a statement may do: on which connection, in which view, with which keys and writes. -/
  stmtOk : Conn σ → σ.Db → List σ.Key → List σ.Write → Prop
  batch_nil : batch []
  stmtOk_nil : ∀ l v, stmtOk l v [] []
  rely_refl : ∀ H c, rely H c c
  rely_trans : ∀ {H c c' c''}, rely H c c' → rely H c' c'' → rely H c c''
  rely_mono : ∀ {H H' c c'}, H ⊆ H' → rely H' c c' → rely H c c'
  rely_write : ∀ {H c c' w}, wkeys w ⊆ H → rely H c c' → rely H (σ.apply w c) (σ.apply w c')
  wkeys_need : ∀ {a w}, w ∈ writes a → wkeys w ⊆ need a
  guard_stable : ∀ {a H c c'}, need a ⊆ H → rely H c c' → inv c → inv c' → guard a c → guard a c'
  inv_act : ∀ {a c}, inv c → guard a c → inv (σ.applyAll (writes a) c)
  rely_act : ∀ {a H c}, inv c → guard a c → (∀ k ∈ need a, σ.shared k = false → k ∉ H) →
    rely H c (σ.applyAll (writes a) c)

namespace Protocol
variable (P : Protocol σ)

/-- The database after an action. -/
def eff (a : P.Act) (c : σ.Db) : σ.Db := σ.applyAll (P.writes a) c

/-- Each action of the sequence meets its guard in the state the ones before it leave. -/
def Path : σ.Db → List P.Act → Prop
  | _, [] => True
  | c, a :: as => P.guard a c ∧ Path (P.eff a c) as

def effs (as : List P.Act) (c : σ.Db) : σ.Db := as.foldl (fun d a => P.eff a d) c

variable {P}

theorem applyAll_flatMap (as : List P.Act) (c : σ.Db) : σ.applyAll (as.flatMap P.writes) c = P.effs as c := by
  induction as generalizing c with
  | nil => rfl
  | cons a as ih => rw [flatMap_cons, Store.applyAll_append, ih]; rfl

variable {c : σ.Db} {as : List P.Act}

theorem Path.append {a : P.Act} (h : P.Path c as) (ha : P.guard a (P.effs as c)) : P.Path c (as ++ [a]) := by
  induction as generalizing c with
  | nil => exact ⟨ha, trivial⟩
  | cons b as ih => exact ⟨h.1, ih h.2 ha⟩

theorem effs_append (as bs : List P.Act) (c : σ.Db) : P.effs (as ++ bs) c = P.effs bs (P.effs as c) :=
  foldl_append

theorem Path.join {bs : List P.Act} (h : P.Path c as) (hb : P.Path (P.effs as c) bs) : P.Path c (as ++ bs) := by
  induction as generalizing c with
  | nil => exact hb
  | cons a as ih => exact ⟨h.1, ih h.2 hb⟩

theorem Path.inv (hc : P.inv c) (h : P.Path c as) : P.inv (P.effs as c) := by
  induction as generalizing c with
  | nil => exact hc
  | cons a as ih => exact ih (P.inv_act hc h.1) h.2

variable {H : List σ.Key} {c' : σ.Db}

/-- A move of the others stays one under the writes a session has pending. -/
theorem rely_applyAll {ws : List σ.Write} (hw : ∀ w ∈ ws, P.wkeys w ⊆ H) (h : P.rely H c c') :
    P.rely H (σ.applyAll ws c) (σ.applyAll ws c') := by
  induction ws generalizing c c' with
  | nil => exact h
  | cons w ws ih =>
    exact ih (fun x hx => hw x (mem_cons_of_mem _ hx)) (P.rely_write (hw w mem_cons_self) h)

theorem Path.stable (hn : ∀ a ∈ as, P.need a ⊆ H) (hr : P.rely H c c') (hc : P.inv c) (hc' : P.inv c')
    (h : P.Path c as) : P.Path c' as := by
  induction as generalizing c c' with
  | nil => trivial
  | cons a as ih =>
    have hna := hn a mem_cons_self
    have hga : P.guard a c' := P.guard_stable hna hr hc hc' h.1
    refine ⟨hga, ih (fun b hb => hn b (mem_cons_of_mem _ hb)) ?_ (P.inv_act hc h.1) (P.inv_act hc' hga) h.2⟩
    exact rely_applyAll (fun w hw => List.Subset.trans (P.wkeys_need hw) hna) hr

theorem Path.rely (hc : P.inv c) (hn : ∀ a ∈ as, ∀ k ∈ P.need a, σ.shared k = false → k ∉ H) (h : P.Path c as) :
    P.rely H c (P.effs as c) := by
  induction as generalizing c with
  | nil => exact P.rely_refl H c
  | cons a as ih =>
    exact P.rely_trans (P.rely_act hc h.1 (hn a mem_cons_self))
      (ih (P.inv_act hc h.1) (fun b hb => hn b (mem_cons_of_mem _ hb)) h.2)

variable (P)

/-- The writes `ws`, made under `H`, are a batch of actions that can be performed in `c`. -/
def Commits (H : List σ.Key) (ws : List σ.Write) (c : σ.Db) : Prop :=
  ∃ as, P.batch as ∧ ws = as.flatMap P.writes ∧ (∀ a ∈ as, P.need a ⊆ H) ∧ P.Path c as

variable {P}

theorem Commits.nil (H : List σ.Key) (c : σ.Db) : P.Commits H [] c :=
  ⟨[], P.batch_nil, rfl, by simp, trivial⟩

theorem Commits.stable {ws : List σ.Write}
    (hr : P.rely H c c') (hc : P.inv c) (hc' : P.inv c') (h : P.Commits H ws c) : P.Commits H ws c' := by
  obtain ⟨as, hb, hws, hn, hp⟩ := h
  exact ⟨as, hb, hws, hn, hp.stable hn hr hc hc'⟩
end Protocol

/-! ## Connections in good order -/

namespace Conn
def marks (l : Conn σ) : List (Mark σ) := (l.tx.map (·.marks)).getD []

def grow (ws : List σ.Write) (ks : List σ.Key) (l : Conn σ) : Conn σ :=
  ⟨l.tx.map fun t => { t with log := t.log ++ ws }, l.locks ++ ks⟩

theorem take_push (l : Conn σ) (ks : List σ.Key) (ws : List σ.Write) :
    (l.take ks).push ws = l.grow ws (ks.filter (· ∉ l.locks)) := rfl

@[simp] theorem locks_grow (l : Conn σ) (ws : List σ.Write) (ks : List σ.Key) :
    (l.grow ws ks).locks = l.locks ++ ks := rfl

@[simp] theorem isSome_grow (l : Conn σ) (ws : List σ.Write) (ks : List σ.Key) :
    (l.grow ws ks).tx.isSome = l.tx.isSome := by
  simp [grow]

@[simp] theorem now_grow (l : Conn σ) (ws : List σ.Write) (ks : List σ.Key) : (l.grow ws ks).now = l.now := by
  cases h : l.tx <;> simp [now, grow, h]

@[simp] theorem marks_grow (l : Conn σ) (ws : List σ.Write) (ks : List σ.Key) : (l.grow ws ks).marks = l.marks := by
  cases h : l.tx <;> simp [marks, grow, h]

variable {l : Conn σ}

theorem log_grow (h : l.tx.isSome) (ws : List σ.Write) (ks : List σ.Key) : (l.grow ws ks).log = l.log ++ ws := by
  obtain ⟨t, ht⟩ := isSome_iff_exists.mp h
  simp [log, grow, ht]

theorem grow_grow (l : Conn σ) (ws ws' : List σ.Write) (ks ks' : List σ.Key) :
    (l.grow ws ks).grow ws' ks' = l.grow (ws ++ ws') (ks ++ ks') := by
  cases h : l.tx <;> simp [grow, h]

@[simp] theorem grow_nil (l : Conn σ) : l.grow [] [] = l := by
  obtain ⟨tx, locks⟩ := l
  cases tx <;> simp [grow]

@[simp] theorem log_enter (l : Conn σ) (t : Time) : (l.enter t).log = l.log := by
  cases h : l.tx <;> simp [enter, log, h]

@[simp] theorem locks_enter (l : Conn σ) (t : Time) : (l.enter t).locks = l.locks := by
  cases h : l.tx <;> simp [enter, h]

theorem enter_of_isSome (h : l.tx.isSome) (t t' : Time) : l.enter t = l.enter t' := by
  obtain ⟨x, hx⟩ := isSome_iff_exists.mp h
  simp [enter, hx]

theorem marks_enter (h : l.tx.isSome) (t : Time) : (l.enter t).marks = ⟨l.log, l.locks⟩ :: l.marks := by
  obtain ⟨x, hx⟩ := isSome_iff_exists.mp h
  simp [enter, marks, log, hx]

@[simp] theorem isSome_enter (l : Conn σ) (t : Time) : (l.enter t).tx.isSome := by
  cases h : l.tx <;> simp [enter, h]

variable (h : l.tx.isSome)
include h

theorem now_enter (t : Time) : (l.enter t).now = l.now := by
  obtain ⟨x, hx⟩ := isSome_iff_exists.mp h
  simp [enter, now, hx]

theorem leave_enter_grow (t : Time) (ws : List σ.Write)
    (ks : List σ.Key) : ((l.enter t).grow ws ks).leave = ([], l.grow ws ks) := by
  obtain ⟨x, hx⟩ := isSome_iff_exists.mp h
  simp [enter, leave, grow, hx]

theorem abort_enter_grow (t : Time) (ws : List σ.Write) (ks : List σ.Key) (keep : Bool) :
    ((l.enter t).grow ws ks).abort keep = l.grow [] (if keep then ks else []) := by
  obtain ⟨x, hx⟩ := isSome_iff_exists.mp h
  cases keep <;> simp [enter, abort, grow, hx]

theorem opened_of_isSome (t : Time) : l.opened t = l := by
  obtain ⟨x, hx⟩ := isSome_iff_exists.mp h
  simp [opened, hx]
end Conn

/-- The savepoints' keys are initial parts of those held, and their writes were made under them. -/
def MarksGood (P : Protocol σ) : List σ.Key → List (Mark σ) → Prop
  | _, [] => True
  | H, m :: ms => m.locks <+: H ∧ (∀ w ∈ m.log, P.wkeys w ⊆ m.locks) ∧ MarksGood P m.locks ms

variable {P : Protocol σ}

theorem MarksGood.mono {H H' : List σ.Key} {ms : List (Mark σ)} (hH : H <+: H')
    (h : MarksGood P H ms) : MarksGood P H' ms := by
  cases ms with
  | nil => trivial
  | cons => exact ⟨h.1.trans hH, h.2⟩

structure Good (P : Protocol σ) (l : Conn σ) : Prop where
  log : ∀ w ∈ l.log, P.wkeys w ⊆ l.locks
  marks : MarksGood P l.locks l.marks

theorem Good.idle : Good P (Conn.idle : Conn σ) :=
  ⟨by simp [Conn.idle, Conn.log], trivial⟩

variable {l : Conn σ}

/-- A block inside a transaction sets a savepoint; otherwise the transaction is fresh. -/
theorem Good.enter (h : Good P l) (t : Time) : Good P (l.enter t) := by
  by_cases ho : l.tx.isSome
  · refine ⟨by simpa using h.log, ?_⟩
    rw [marks_enter ho, locks_enter]
    exact ⟨prefix_rfl, h.log, h.marks⟩
  · have hnone : l.tx = none := by simpa using ho
    exact ⟨by simp [Conn.log, Conn.enter, hnone], by simp [Conn.marks, Conn.enter, hnone, MarksGood]⟩

theorem Good.grow_keys (ho : l.tx.isSome) (h : Good P l) (ks : List σ.Key) : Good P (l.grow [] ks) := by
  refine ⟨fun w hw k hk => mem_append_left _ (h.log w ?_ hk), ?_⟩
  · rwa [log_grow ho, append_nil] at hw
  · rw [marks_grow]
    exact h.marks.mono (prefix_append _ _)

theorem Good.of_enter_grow {t : Time} {ws : List σ.Write}
    {ks : List σ.Key} (ho : l.tx.isSome) (h : Good P l) (h' : Good P ((l.enter t).grow ws ks)) :
    Good P (l.grow ws ks) := by
  refine ⟨fun w hw => ?_, ?_⟩
  · have := h'.log w
    rw [log_grow (isSome_enter l t), log_enter, locks_grow, locks_enter] at this
    rw [log_grow ho] at hw
    exact this hw
  · rw [marks_grow]
    exact h.marks.mono (prefix_append _ _)

/-! ## Safe programs -/

/-- What a statement must satisfy: its writes are made under their keys, and it is one of the
    statements the protocol allows. -/
def StmtSafe (P : Protocol σ) (l : Conn σ) (v : σ.Db) (ks : List σ.Key) (ws : List σ.Write) : Prop :=
  (∀ w ∈ ws, P.wkeys w ⊆ l.locks ++ ks) ∧ P.stmtOk l v ks ws

/-- `p`, started on connection `l` when the committed state is `c`, follows the protocol, and ends
    as `Q` says. -/
def Safe (P : Protocol σ) (Q : Except σ.Err α → Conn σ → σ.Db → Prop) : Prog σ α → Conn σ → σ.Db → Prop
  | .ret a, l, c => Q (.ok a) l c
  | .raise e, l, c => Q (.error e) l c
  | .exec st k, l, c => ∀ c' t, P.rely l.locks c c' → P.inv c' →
      (∀ e, Safe P Q (k (.error e)) (l.opened t) c') ∧
      ∀ ws, st.act ((l.opened t).view c') (l.opened t).now = .ok ws →
        StmtSafe P (l.opened t) ((l.opened t).view c') (st.keys ((l.opened t).view c') (l.opened t).now) ws ∧
        Safe P Q (k (.ok ((l.opened t).view c', (l.opened t).now)))
          (((l.opened t).take (st.keys ((l.opened t).view c') (l.opened t).now)).push ws) c'
  | .enter k, l, c => ∀ t, (∀ e, Safe P Q (k (.error e)) l c) ∧ Safe P Q (k (.ok ())) (l.enter t) c
  | .leave true k, l, c =>
      if l.marks = [] then ∀ c', P.rely l.locks c c' → P.inv c' →
        (∀ e, Safe P Q (k (.error e)) (l.abort true) c') ∧ P.Commits l.locks l.leave.1 c' ∧
        Safe P Q (k (.ok ())) l.leave.2 (σ.applyAll l.leave.1 c')
      else (∀ e, Safe P Q (k (.error e)) (l.abort true) c) ∧ Safe P Q (k (.ok ())) l.leave.2 c
  | .leave false k, l, c =>
      (∀ e, Safe P Q (k (.error e)) (l.abort true) c) ∧
      ∀ keep, Safe P Q (k (.ok ())) (l.abort keep) c
  | .finish b k, l, c => ∀ c', P.rely l.locks c c' → P.inv c' →
      (∀ e, Safe P Q (k (.error e)) .idle c') ∧
      if b then P.Commits l.locks l.log c' ∧ Safe P Q (k (.ok ())) .idle (σ.applyAll l.log c')
      else Safe P Q (k (.ok ())) .idle c'
  | .host k, l, c => ∀ x, Safe P Q (k x) l c

/-- The rule everything sequential comes from: running `h` on the outcome of `p` is safe when `p`
    is, with the safety of `h` as its postcondition. -/
theorem safe_attempt {Q : Post σ (Except σ.Err β)} {p : Prog σ α} {h : Except σ.Err α → Prog σ β} {c : σ.Db} :
    Safe P Q (p.attempt h) l c ↔ Safe P (fun r l' c' => Safe P Q (h r) l' c') p l c := by
  induction p generalizing l c with
  | ret | raise => rfl
  | exec _ _ ih | enter _ ih | host _ ih => simp only [Prog.attempt, Safe, ih]
  | leave b _ ih | finish b _ ih => cases b <;> simp only [Prog.attempt, Safe, ih]

/-- What neither another session nor a commit breaks is carried to the end. -/
theorem Safe.carry {Q Q' : Except σ.Err α → Conn σ → σ.Db → Prop} {I : σ.Db → Prop}
    (hrely : ∀ {H c c'}, I c → P.rely H c c' → P.inv c' → I c')
    (hcommits : ∀ {H ws c}, I c → P.inv c → P.Commits H ws c → I (σ.applyAll ws c))
    (hQ : ∀ r l c, Q r l c → I c → Q' r l c) {p : Prog σ α} {c : σ.Db} (h : Safe P Q p l c) (hI : I c) :
    Safe P Q' p l c := by
  induction p generalizing l c with
  | ret | raise => exact hQ _ _ _ h hI
  | exec st k ih =>
    intro c' t hr hi
    obtain ⟨he, hk⟩ := h c' t hr hi
    have hI' := hrely hI hr hi
    exact ⟨fun e => ih _ (he e) hI', fun ws hws => ⟨(hk ws hws).1, ih _ (hk ws hws).2 hI'⟩⟩
  | enter k ih => exact fun t => ⟨fun e => ih _ ((h t).1 e) hI, ih _ (h t).2 hI⟩
  | leave b k ih =>
    cases b with
    | true =>
      by_cases hm : l.marks = []
      · simp only [Safe, if_pos hm] at h ⊢
        intro c' hr hi
        obtain ⟨he, hc, hk⟩ := h c' hr hi
        have hI' := hrely hI hr hi
        exact ⟨fun e => ih _ (he e) hI', hc, ih _ hk (hcommits hI' hi hc)⟩
      · simp only [Safe, if_neg hm] at h ⊢
        exact ⟨fun e => ih _ (h.1 e) hI, ih _ h.2 hI⟩
    | false => exact ⟨fun e => ih _ (h.1 e) hI, fun keep => ih _ (h.2 keep) hI⟩
  | finish b k ih =>
    intro c' hr hi
    obtain ⟨he, hk⟩ := h c' hr hi
    have hI' := hrely hI hr hi
    cases b with
    | true => exact ⟨fun e => ih _ (he e) hI', hk.1, ih _ hk.2 (hcommits hI' hi hk.1)⟩
    | false => exact ⟨fun e => ih _ (he e) hI', ih _ hk hI'⟩
  | host k ih => exact fun x => ih x (h x) hI

theorem Safe.mono {Q Q' : Except σ.Err α → Conn σ → σ.Db → Prop}
    (hQ : ∀ r l c, Q r l c → Q' r l c) {p : Prog σ α} {c : σ.Db} (h : Safe P Q p l c) : Safe P Q' p l c :=
  h.carry (I := fun _ => True) (fun _ _ _ => trivial) (fun _ _ _ => trivial) (fun r l c hq _ => hQ r l c hq) trivial
end Lib
