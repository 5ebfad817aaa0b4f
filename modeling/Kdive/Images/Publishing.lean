import Kdive.Images.Catalog

/-! # Publishes: the row and its object

A publish checks its bytes against the digest of the request, not what the row says: an adopted row keeps its digest,
expiry, format and capabilities, and a `defined` baseline has no digest (`baseline_registered_without_digest`). Nor
does it look at who else has an object at its key. Where every adopted row says what the request says, and no object is
written over one that a registered row, or another publish, still stands for, row and object agree
(`publishes_keep_digests`).
-/

namespace Kdive.Images
open Lib State Kdive.Images.Write Stage List Bool Overlay Option Function Table Machine

namespace State
variable {s : State} {i : Nat} {log : List Write} {w : Write} {row : Row}

theorem get_of_fresh {id : Uuid} (h : s.fresh id = true) : s.rows.get id = none := by
  simp only [fresh, and_eq_true, decide_eq_true_eq] at h
  exact h.1

theorem not_held_of_accepted (h : s.judge i log w = .accepted) : s.held i w.target = false := by
  unfold judge at h
  split at h
  · cases h
  · exact not_eq_true _ ▸ ‹_›

theorem checks_of_accepted (h : s.judge i log w = .accepted)
    (hrow : (s.seen (log ++ [w])).get w.target = some row) : row.checks = true := by
  unfold judge at h
  rw [hrow] at h
  split at h
  · cases h
  · cases hchecks : row.checks with
    | true => rfl
    | false => simp [hchecks] at h
end State

inductive Publish.Does (cfg : Config) (s : State) (i : Nat) (p : Publish) : State → Prop where
  /-- It is on its way to a row. -/
  | goes (stage : Stage) (start : Time) (hrow : p.stage.row = none) (hrow' : stage.row = none)
      (hfinished : p.stage.finished = false) (hfinished' : stage.finished = false) :
      Does cfg s i p (s.put i { p with stage, start })
  | raises (error : PublishError) (hfinished : p.stage.finished = false) (hvanished : error ≠ .vanished)
      (hunregistered : error ≠ .unregistered) : Does cfg s i p (s.raises i p error)
  | raisesStored (id : Uuid) (hstage : p.stage = .writing id) :
      Does cfg s i p ((s.stores p).raises i p .fault)
  | adopts (id : Uuid) (ids : List Uuid) (row : Row) (hstage : p.stage = .locking (id :: ids))
      (hrow : s.rows.get id = some row) (hfits : adoptable p.request row = true)
      (haccepted : s.judge (i + 1) p.log (.adopt id p.objectKey p.start) = .accepted) :
      Does cfg s i p (s.put i { p with stage := p.holding id, log := p.log ++ [.adopt id p.objectKey p.start] })
  | inserts (id : Uuid) (hstage : p.stage = .locking []) (hnew : s.fresh id = true)
      (haccepted : s.judge (i + 1) p.log (.insert (p.request.pendingRow id p.objectKey p.start)) = .accepted) :
      Does cfg s i p (s.put i { p with
        stage := p.holding id
        log := p.log ++ [.insert (p.request.pendingRow id p.objectKey p.start)] })
  | closes (id : Uuid) (hstage : p.stage = .closing id) : Does cfg s i p (s.commits i p (.verifying id))
  | verifies (id : Uuid) (hstage : p.stage = .verifying id)
      (hdigest : cfg.contentDigest p.data = p.request.digest) :
      Does cfg s i p (s.put i { p with stage := .writing id })
  | stores (id : Uuid) (hstage : p.stage = .writing id) :
      Does cfg s i p ((s.stores p).put i { p with stage := .heading id })
  | heads (id : Uuid) (hstage : p.stage = .heading id) :
      Does cfg s i p (s.put i { p with stage := .registering id })
  | vanishes (id : Uuid) (hstage : p.stage = .registering id)
      (hnone : (s.seen (p.log ++ [.register id])).get id = none) :
      Does cfg s i p (s.raises i p .vanished)
  | refused (id : Uuid) (hstage : p.stage = .registering id)
      (hrefused : s.judge (i + 1) p.log (.register id) = .refused) :
      Does cfg s i p (s.raises i p .unregistered)
  | registers (id : Uuid) (row : Row) (hstage : p.stage = .registering id)
      (hrow : (s.seen (p.log ++ [.register id])).get id = some row)
      (haccepted : s.judge (i + 1) p.log (.register id) = .accepted) :
      Does cfg s i p (s.put i { p with stage := .returning row, log := p.log ++ [.register id] })
  | returns (row : Row) (hstage : p.stage = .returning row) :
      Does cfg s i p (s.commits i p (.returned row))

section
variable {cfg : Config} {s s' : State} {i : Nat} {p : Publish} {newId : Uuid} {input : PublishInput}

theorem State.executes_cases {w : Write} {stage : Stage} {error : PublishError}
    (h : s.executes i p w stage error = some s') : s.judge (i + 1) p.log w = .refused ∧ s' = s.raises i p error ∨
    s.judge (i + 1) p.log w = .accepted ∧ s' = s.put i { p with stage, log := p.log ++ [w] } := by
  unfold executes at h
  split at h
  · cases h
  · cases h; exact .inl ⟨‹_›, rfl⟩
  · cases h; exact .inr ⟨‹_›, rfl⟩

theorem Publish.does_of_proceed (h : s.proceed cfg i p newId = some s') : p.Does cfg s i s' := by
  -- where nothing changes but the stage
  have early : ∀ {stage : Stage} (start : Time), p.stage.row = none → p.stage.finished = false →
      stage.row = none → stage.finished = false → p.Does cfg s i (s.put i { p with stage, start }) :=
    fun start hrow hfinished hrow' hfinished' => .goes _ start hrow hrow' hfinished hfinished'
  unfold proceed at h
  cases hstage : p.stage with
  | waiting =>
    simp only [hstage] at h
    split at h <;> cases h
    exact early s.clock (by rw [hstage]; rfl) (by rw [hstage]; rfl) rfl rfl
  | counting =>
    simp only [hstage] at h
    cases h
    exact early p.start (by rw [hstage]; rfl) (by rw [hstage]; rfl) rfl rfl
  | sizing count keys =>
    cases keys with
    | cons =>
      simp only [hstage] at h
      cases h
      exact early p.start (by rw [hstage]; rfl) (by rw [hstage]; rfl) rfl rfl
    | nil =>
      simp only [hstage] at h
      split at h <;> cases h
      · exact .raises _ (by rw [hstage]; rfl) (by rintro ⟨⟩) (by rintro ⟨⟩)
      · exact early p.start (by rw [hstage]; rfl) (by rw [hstage]; rfl) rfl rfl
  | selecting =>
    simp only [hstage] at h
    cases h
    exact early _ (by rw [hstage]; rfl) (by rw [hstage]; rfl) rfl rfl
  | locking ids =>
    cases ids with
    | cons id ids =>
      simp only [hstage] at h
      split at h
      · cases h
      · split at h
        next hfits =>
          obtain ⟨row, hrow, hfits⟩ := (any_eq_true _ _).mp hfits
          rcases executes_cases h with ⟨-, rfl⟩ | ⟨haccepted, rfl⟩
          · exact .raises _ (by rw [hstage]; rfl) (by rintro ⟨⟩) (by rintro ⟨⟩)
          · exact .adopts id ids row hstage hrow hfits haccepted
        next =>
          cases h
          exact early p.start (by rw [hstage]; rfl) (by rw [hstage]; rfl) rfl rfl
    | nil =>
      simp only [hstage] at h
      split at h
      next hnew =>
        rcases executes_cases h with ⟨-, rfl⟩ | ⟨haccepted, rfl⟩
        · exact .raises _ (by rw [hstage]; rfl) (by rintro ⟨⟩) (by rintro ⟨⟩)
        · exact .inserts newId hstage hnew haccepted
      next => cases h
  | closing id =>
    simp only [hstage] at h
    cases h
    exact .closes id hstage
  | verifying id =>
    simp only [hstage] at h
    split at h <;> cases h
    · exact .verifies id hstage ‹_›
    · exact .raises _ (by rw [hstage]; rfl) (by rintro ⟨⟩) (by rintro ⟨⟩)
  | writing id =>
    simp only [hstage] at h
    cases h
    exact .stores id hstage
  | heading id =>
    simp only [hstage] at h
    split at h <;> cases h
    · exact .heads id hstage
    · exact .raises _ (by rw [hstage]; rfl) (by rintro ⟨⟩) (by rintro ⟨⟩)
  | registering id =>
    simp only [hstage] at h
    split at h
    next hnone =>
      split at h <;> cases h
      exact .vanishes id hstage hnone
    next row hrow =>
      rcases executes_cases h with ⟨hrefused, rfl⟩ | ⟨haccepted, rfl⟩
      · exact .refused id hstage hrefused
      · exact .registers id row hstage hrow haccepted
  | returning row =>
    simp only [hstage] at h
    cases h
    exact .returns row hstage
  | returned | raised => simp only [hstage] at h; cases h

theorem Publish.does_of_step (h : s.publishStep cfg i p input = some s') : p.Does cfg s i s' := by
  cases input with
  | proceeds => exact does_of_proceed h
  | faults stored =>
    unfold publishStep at h
    have fails : p.stage.finished = false → p.Does cfg s i (s.raises i p .fault) := fun hfinished =>
      .raises _ hfinished nofun nofun
    cases hstage : p.stage with
    | writing id =>
      simp only [hstage] at h
      cases h
      cases stored with
      | true => exact .raisesStored id hstage
      | false => exact fails (by rw [hstage]; rfl)
    | returned | raised => simp only [hstage] at h; cases h
    | _ => simp only [hstage] at h; cases h; exact fails (by rw [hstage]; rfl)
end

/-! ## Rows that say what the request says -/

/-- The row has the digest, the expiry, the format and the capabilities of the request. -/
def Row.carries (row : Row) (request : PublishRequest) : Bool :=
  row.digest = some request.digest && row.expiresAt = request.expiresAt &&
    row.format = request.format && row.capabilities = request.capabilities

/-- The row a publish is about to adopt, if it fits, says what the request says. -/
def State.adoptsAlike (s : State) (p : Publish) : Bool :=
  match p.stage with
  | .locking (id :: _) =>
    (s.rows.get id).all fun row => !adoptable p.request row || row.carries p.request
  | _ => true

/-- The object a publish is about to write is the one that a registered row at its key, and a publish
    that has written there and is still in progress, stand for. -/
def State.storesAlike (s : State) (p : Publish) : Bool :=
  match p.stage with
  | .writing _ =>
    (s.rows.rows.all fun row => row.state ≠ .registered || row.objectKey ≠ some p.objectKey ||
      row.digest = some p.request.digest) &&
    s.publishes.all fun q => !q.stage.stored || q.objectKey ≠ p.objectKey || q.request.digest = p.request.digest
  | _ => true

def State.publishesAlike (s : State) : Move → Bool
  | .publishes _ _ _ | .wait _ => true
  | .publish i _ => (s.publishes[i]?).all fun p => s.adoptsAlike p && s.storesAlike p
  | .reconciles _ | .reconcile _ => false

def State.Intact (cfg : Config) (s : State) : Prop :=
  ∀ row ∈ s.rows.rows, row.state = .registered → ∀ key, row.objectKey = some key →
    ∃ data, s.objects key = some data ∧ row.digest = some (cfg.contentDigest data)

inductive PublishRequest.Writes (request : PublishRequest) (objectKey : String) (id : Uuid) :
    Write → Prop where
  | insert (now : Time) : Writes request objectKey id (.insert (request.pendingRow id objectKey now))
  | adopt (now : Time) : Writes request objectKey id (.adopt id objectKey now)
  | register : Writes request objectKey id (.register id)

structure Publish.Ok (cfg : Config) (s : State) (p : Publish) : Prop where
  key : p.stage.finished = false → p.request.imageObjectKey = some p.objectKey
  quiet : p.stage.row = none → p.log = []
  own : ∀ id, p.stage.row = some id → ∀ w ∈ p.log, p.request.Writes p.objectKey id w
  row : ∀ id, p.stage.row = some id → ∃ row, (s.seen p.log).get id = some row ∧
    row.scope = p.request.scope ∧ row.objectKey = some p.objectKey ∧ row.carries p.request = true
  pending : ∀ id, p.stage = .closing id → Overlay.touches Row p.log id = true ∧
    ∀ row, (s.seen p.log).get id = some row → row.state = .pending
  verified : ∀ id, p.stage = .writing id → cfg.contentDigest p.data = p.request.digest
  stored : p.stage.stored = true → ∃ data, s.objects p.objectKey = some data ∧ cfg.contentDigest data = p.request.digest
  result : ∀ row, p.stage = .returning row ∨ p.stage = .returned row → row.carries p.request = true

/-- No pass is at work, no two publishes write one row, and each of them is as `P` has it. -/
structure Publishes (P : State → Publish → Prop) (s : State) : Prop where
  noPass : s.pass = none
  exclusive : Overlay.Exclusive Row s.logs
  publishes : ∀ (i : Nat) (p : Publish), s.publishes[i]? = some p → P s p

structure Agreed (cfg : Config) (s : State) : Prop extends Publishes (fun s p => p.Ok cfg s) s where
  intact : s.Intact cfg

section
variable {cfg : Config} {s s' : State} {i j : Nat} {p q : Publish} {id : Uuid} {row row' : Row}

theorem PublishRequest.Writes.target_eq {w : Write} (h : p.request.Writes p.objectKey id w) : w.target = id := by
  cases h <;> rfl

theorem Publish.row_of_touches (hquiet : p.stage.row = none → p.log = [])
    (hown : ∀ id, p.stage.row = some id → ∀ w ∈ p.log, w.target = id) {k : Uuid}
    (hk : touches Row p.log k = true) : p.stage.row = some k := by
  cases hrow : p.stage.row with
  | none =>
    rw [hquiet hrow] at hk
    cases hk
  | some id =>
    simp only [Overlay.touches, List.any_eq_true, decide_eq_true_eq] at hk
    obtain ⟨w, hw, hk⟩ := hk
    exact congrArg some ((hown id hrow w hw).symm.trans hk)

theorem Publish.Ok.touches (hp : p.Ok cfg s) {k : Uuid} (hk : touches Row p.log k = true) : p.stage.row = some k :=
  row_of_touches hp.quiet (fun id hid w hw => (hp.own id hid w hw).target_eq) hk

theorem PublishRequest.Writes.act_some {w : Write} (h : p.request.Writes p.objectKey id w) (row : Row) :
    ∃ row', w.act (some row) = some row' ∧ row'.scope = row.scope ∧
      ∀ request, row'.carries request = row.carries request := by
  cases h with
  | insert => exact ⟨row, rfl, rfl, fun _ => rfl⟩
  | adopt | register => exact ⟨_, rfl, rfl, fun _ => rfl⟩

variable {log : List Write} {rows : Table Row}

theorem Publish.view_some (hlog : ∀ w ∈ log, p.request.Writes p.objectKey id w)
    (hrow : rows.get id = some row) : ∃ row', (view log rows).get id = some row' ∧
      row'.scope = row.scope ∧ ∀ request, row'.carries request = row.carries request := by
  induction log generalizing rows row with
  | nil => exact ⟨row, hrow, rfl, fun _ => rfl⟩
  | cons w log ih =>
    have hw := hlog w mem_cons_self
    obtain ⟨row1, hact, hscope, hcarries⟩ := hw.act_some row
    have hrow1 : (Edit.apply rows w : Table Row).get id = some row1 := by
      rwa [Edit.get_apply, if_pos (show Edit.target Row w = id from hw.target_eq), hrow]
    obtain ⟨row', hrow', hscope', hcarries'⟩ :=
      ih (fun w' hw' => hlog w' (mem_cons_of_mem _ hw')) hrow1
    exact ⟨row', hrow', hscope'.trans hscope, fun request => (hcarries' request).trans (hcarries request)⟩

/-- Two publishes with one row have one scope, and so one key. -/
theorem Publish.view_shared (hlog : ∀ w ∈ log, p.request.Writes p.objectKey id w)
    (hp : p.request.imageObjectKey = some p.objectKey) (hq : q.request.imageObjectKey = some q.objectKey)
    (hmine : (view log rows).get id = some row') (hscope' : row'.scope = p.request.scope)
    (hkey : row'.objectKey = some p.objectKey) (hrow : rows.get id = some row) (hscope : row.scope = q.request.scope) :
    row'.scope = q.request.scope ∧ row'.objectKey = some q.objectKey ∧
      ∀ request, row'.carries request = row.carries request := by
  obtain ⟨row1, hrow1, hscope1, hcarries⟩ := view_some hlog hrow
  obtain rfl : row1 = row' := some.inj (hrow1.symm.trans hmine)
  have hscopes : p.request.scope = q.request.scope := by rw [← hscope', hscope1, hscope]
  have hkeys : some p.objectKey = some q.objectKey := by rw [← hp, ← hq, PublishRequest.imageObjectKey_congr hscopes]
  exact ⟨hscope1.trans hscope, hkey.trans hkeys, hcarries⟩

theorem Publish.keyed_view (hown : ∀ w ∈ log, p.request.Writes p.objectKey id w)
    (hkeyed : ∀ row, rows.get id = some row → row.objectKey = some p.objectKey) :
    ∀ row, (view log rows).get id = some row → row.objectKey = some p.objectKey := by
  induction log generalizing rows with
  | nil => exact hkeyed
  | cons w log ih =>
    have hfirst : ∀ row, (apply rows w).get id = some row → row.objectKey = some p.objectKey := by
      intro row hrow
      have hw := hown w mem_cons_self
      rw [get_apply, if_pos hw.target_eq] at hrow
      cases hw with
      | insert =>
        cases hget : rows.get id with
        | none =>
          rw [hget] at hrow
          cases hrow
          rfl
        | some =>
          rw [hget] at hrow
          cases hrow
          exact hkeyed row hget
      | adopt =>
        obtain ⟨row0, -, rfl⟩ := map_eq_some_iff.mp hrow
        rfl
      | register =>
        obtain ⟨row0, hget, rfl⟩ := map_eq_some_iff.mp hrow
        exact hkeyed row0 hget
    exact ih (fun w' hw' => hown w' (mem_cons_of_mem _ hw')) hfirst

theorem Publish.mem_of_own (hown : ∀ w ∈ log, p.request.Writes p.objectKey id w)
    (hrow : row ∈ (view log rows).rows) (hne : row.id ≠ id) : row ∈ rows.rows := by
  have hget := get_key_of_mem hrow
  rw [get_view_of_not_touches] at hget
  · exact mem_of_get hget
  · rw [touches, List.any_eq_false]
    intro w hw
    have htarget : w.target = id := (hown w hw).target_eq
    simpa [Edit.target, htarget] using fun heq => hne heq.symm

theorem Publish.holding_row (p : Publish) (id : Uuid) : (p.holding id).row = some id := by
  unfold holding
  cases p.caller <;> rfl

theorem Stage.finished_of_row {stage : Stage} (h : stage.row = some id) : stage.finished = false := by
  cases stage <;> first | rfl | cases h

theorem Publish.Ok.congr (hq : q.Ok cfg s)
    (hrow : ∀ id, q.stage.row = some id → ∃ row, (s'.seen q.log).get id = some row ∧
      row.scope = q.request.scope ∧ row.objectKey = some q.objectKey ∧ row.carries q.request = true)
    (hpending : ∀ id, Overlay.touches Row q.log id = true → (s'.seen q.log).get id = (s.seen q.log).get id)
    (hstored : q.stage.stored = true → ∃ data, s'.objects q.objectKey = some data ∧
      cfg.contentDigest data = q.request.digest) : q.Ok cfg s' := by
  refine ⟨hq.key, hq.quiet, hq.own, hrow, fun id hstage => ?_, hq.verified, hstored, hq.result⟩
  obtain ⟨htouches, hstate⟩ := hq.pending id hstage
  exact ⟨htouches, fun row h => hstate row ((hpending id htouches).symm.trans h)⟩

theorem Publish.Ok.of_same (hq : q.Ok cfg s) (hrows : s'.rows = s.rows)
    (hobjects : s'.objects = s.objects) : q.Ok cfg s' := by
  have hseen : s'.seen q.log = s.seen q.log := by rw [seen, seen, hrows]
  refine hq.congr (fun id hid => ?_) (fun id _ => by rw [hseen]) fun hst => ?_
  · rw [hseen]; exact hq.row id hid
  · rw [hobjects]; exact hq.stored hst

theorem Publish.ok_raised (p : Publish) (error : PublishError) :
    Publish.Ok cfg s { p with stage := .raised error, log := [] } := by
  refine ⟨nofun, fun _ => rfl, nofun, nofun, nofun, nofun, nofun, fun row h => ?_⟩
  rcases h with h | h <;> cases h
end

/-! ## The publishes together -/

section
variable {cfg : Config} {s s' : State} {i j : Nat} {p p' q : Publish} {id : Uuid} {row : Row} {m : Move}

theorem State.logs_publish (hi : s.publishes[i]? = some p) : s.logs[i + 1]? = some p.log := by
  rw [logs, getElem?_cons_succ, getElem?_map, hi]
  rfl

theorem State.logs_set (hpublishes : s'.publishes = s.publishes.set i p') (hpass : s'.pass = s.pass) :
    s'.logs = s.logs.set (i + 1) p'.log := by
  rw [logs, logs, hpublishes, hpass, map_set, set_cons_succ]

namespace Publishes
variable {P : State → Publish → Prop}

theorem init (hinit : s.Init) : Publishes P s := by
  refine ⟨hinit.pass, ?_, fun i p hi => ?_⟩
  · rw [logs, hinit.pass, hinit.publishes]
    exact exclusive_nil.push
  · rw [hinit.publishes] at hi
    cases hi

section
variable (hI : Publishes P s)
include hI

theorem apart (hi : s.publishes[i]? = some p) (hj : s.publishes[j]? = some q)
    (hne : j ≠ i) (hp : touches Row p.log id = true) : touches Row q.log id = false := by
  cases hq : touches Row q.log id with
  | false => rfl
  | true =>
    have heq := hI.exclusive _ _ _ _ (logs_publish hj) (logs_publish hi) id hq hp
    exact absurd (Nat.succ.inj heq) hne

/-- One of them goes on. -/
theorem set (hi : s.publishes[i]? = some p) (hpublishes : s'.publishes = s.publishes.set i p')
    (hpass : s'.pass = s.pass) (hlog : ∀ k, touches Row p'.log k = true →
      touches Row p.log k = true ∨ s.held (i + 1) k = false) (hp' : P s' p')
    (hothers : ∀ (j : Nat) (q : Publish), j ≠ i → s.publishes[j]? = some q → P s' q) : Publishes P s' := by
  refine ⟨hpass.trans hI.noPass, ?_, fun j q hj => ?_⟩
  · rw [logs_set hpublishes hpass]
    exact hI.exclusive.set (logs_publish hi) hlog
  · rw [hpublishes] at hj
    rcases getElem?_set_cases hj with ⟨-, rfl⟩ | ⟨hij, hj⟩
    · exact hp'
    · exact hothers j q hij.symm hj

/-- One of them goes on, and commits nothing. -/
theorem put (hi : s.publishes[i]? = some p) (hsame : ∀ q, P s q → P (s.put i p') q)
    (hlog : ∀ k, touches Row p'.log k = true → touches Row p.log k = true ∨ s.held (i + 1) k = false)
    (hp' : P s p') : Publishes P (s.put i p') :=
  hI.set hi rfl rfl hlog (hsame p' hp') fun j q _ hj => hsame q (hI.publishes j q hj)

/-- Another one begins. -/
theorem push (hlog : p.log = []) (hp : P { s with publishes := s.publishes ++ [p] } p)
    (hsame : ∀ q, P s q → P { s with publishes := s.publishes ++ [p] } q) :
    Publishes P { s with publishes := s.publishes ++ [p] } := by
  refine ⟨hI.noPass, ?_, fun j q hj => ?_⟩
  · have hlogs : logs { s with publishes := s.publishes ++ [p] } = s.logs ++ [[]] := by simp [logs, hlog]
    rw [hlogs]
    exact hI.exclusive.push
  · rcases getElem?_concat_cases hj with hj | ⟨-, rfl⟩
    · exact hsame q (hI.publishes j q hj)
    · exact hp
end
end Publishes

variable {stage : Stage}

/-- The commit of one publish leaves the others what they rely on. -/
theorem Publish.Ok.commits (hI : Agreed cfg s) (hi : s.publishes[i]? = some p)
    (hj : s.publishes[j]? = some q) (hne : j ≠ i) : q.Ok cfg (s.commits i p stage) := by
  have hp := hI.publishes i p hi
  have hq := hI.publishes j q hj
  have hview : ∀ id, ((s.commits i p stage).seen q.log).get id =
      if Overlay.touches Row q.log id then (s.seen q.log).get id else (s.seen p.log).get id := fun id =>
    get_view_view fun htouches => hI.apart hi hj hne htouches
  refine hq.congr (fun id hid => ?_) (fun id htouches => ?_) hq.stored
  · obtain ⟨row, hrow, hscope, hkey, hcarries⟩ := hq.row id hid
    rw [hview id]
    cases hq' : Overlay.touches Row q.log id with
    | true => exact ⟨row, hrow, hscope, hkey, hcarries⟩
    | false =>
      replace hrow : s.rows.get id = some row := (get_view_of_not_touches hq').symm.trans hrow
      cases hp' : Overlay.touches Row p.log id with
      | false => exact ⟨row, (get_view_of_not_touches hp').trans hrow, hscope, hkey, hcarries⟩
      | true =>
        have hid' := hp.touches hp'
        obtain ⟨row1, hrow1, hscope1, hkey1, -⟩ := hp.row id hid'
        obtain ⟨hscope', hkey', hcarries'⟩ := view_shared (hp.own id hid') (hp.key (finished_of_row hid'))
          (hq.key (finished_of_row hid)) hrow1 hscope1 hkey1 hrow hscope
        exact ⟨row1, hrow1, hscope', hkey', (hcarries' _).trans hcarries⟩
  · rw [hview id, if_pos htouches]

theorem Publish.Ok.stores (hq : q.Ok cfg s) (hmem : q ∈ s.publishes) (hstage : p.stage = .writing id)
    (hverified : cfg.contentDigest p.data = p.request.digest) (halike : s.storesAlike p = true) :
    q.Ok cfg (s.stores p) := by
  refine hq.congr hq.row (fun _ _ => rfl) fun hst => ?_
  by_cases hkey : q.objectKey = p.objectKey
  · refine ⟨p.data, by rw [hkey]; exact Function.update_self .., ?_⟩
    simp only [storesAlike, hstage, Bool.and_eq_true, List.all_eq_true] at halike
    have hdigest := halike.2 q hmem
    simp only [hst, hkey, Bool.not_true, ne_eq, not_true_eq_false, decide_false, Bool.false_or,
      decide_eq_true_eq] at hdigest
    rw [hverified, hdigest]
  · obtain ⟨data, hdata, hdigest⟩ := hq.stored hst
    exact ⟨data, (Function.update_of_ne hkey ..).trans hdata, hdigest⟩

theorem State.Intact.stores (hI : s.Intact cfg) (hstage : p.stage = .writing id)
    (hverified : cfg.contentDigest p.data = p.request.digest) (halike : s.storesAlike p = true) :
    (s.stores p).Intact cfg := by
  intro row hrow hstate key hkey
  rcases eq_or_ne key p.objectKey with rfl | heq
  · refine ⟨p.data, update_self .., ?_⟩
    simp only [storesAlike, hstage, Bool.and_eq_true, List.all_eq_true] at halike
    have hdigest := halike.1 row hrow
    simp only [hstate, hkey, ne_eq, not_true_eq_false, decide_false, Bool.false_or, decide_eq_true_eq] at hdigest
    rw [hverified, hdigest]
  · obtain ⟨data, hdata, hdigest⟩ := hI row hrow hstate key hkey
    exact ⟨data, (update_of_ne heq ..).trans hdata, hdigest⟩

theorem State.Intact.commits (hI : s.Intact cfg) (hp : p.Ok cfg s)
    (hown : ∀ id, p.stage.row = some id → ∀ row, (s.seen p.log).get id = some row →
      row.state = .registered → ∀ key, row.objectKey = some key →
        ∃ data, s.objects key = some data ∧ row.digest = some (cfg.contentDigest data)) :
    (s.commits i p stage).Intact cfg := by
  intro row hrow hstate key hkey
  have hget : (s.seen p.log).get row.id = some row := get_eq_some.mpr ⟨hrow, rfl⟩
  cases htouches : touches Row p.log row.id with
  | true => exact hown row.id (hp.touches htouches) row hget hstate key hkey
  | false =>
    have hold : s.rows.get row.id = some row :=
      (get_view_of_not_touches htouches).symm.trans hget
    exact hI row (mem_of_get hold) hstate key hkey

theorem Publish.Ok.takes (hp : p.Ok cfg s) (hrow : p.stage.row = none)
    (hfinished : p.stage.finished = false) {w : Write} (hw : p.request.Writes p.objectKey id w)
    (hseen : (s.seen [w]).get id = some row) (hscope : row.scope = p.request.scope)
    (hkey : row.objectKey = some p.objectKey) (hcarries : row.carries p.request = true)
    (hpending : row.state = .pending) : Publish.Ok cfg s { p with stage := p.holding id, log := p.log ++ [w] } := by
  have hnil : p.log = [] := hp.quiet hrow
  have hseen' : (s.seen (p.log ++ [w])).get id = some row := by rw [hnil]; exact hseen
  have hholding : ∀ id', (p.holding id).row = some id' → id = id' := fun id' h =>
    some.inj ((p.holding_row id).symm.trans h)
  refine ⟨fun _ => hp.key hfinished, fun h => ?_, fun id' h w' hw' => ?_, fun id' h => ?_, fun id' h => ?_,
    fun id' h => ?_, fun h => ?_, fun row h => ?_⟩
  · exact absurd ((p.holding_row id).symm.trans h) nofun
  · obtain rfl := hholding id' h
    rw [hnil, nil_append, mem_singleton] at hw'
    subst hw'
    exact hw
  · obtain rfl := hholding id' h
    exact ⟨row, hseen', hscope, hkey, hcarries⟩
  · obtain rfl := hholding id' (by rw [show p.holding id = _ from h]; rfl)
    refine ⟨touches_concat.mpr (.inr hw.target_eq), fun row' hrow' => ?_⟩
    cases hrow'.symm.trans hseen'
    exact hpending
  all_goals
    unfold holding at h
    cases hcaller : p.caller <;> simp [hcaller, Stage.stored] at h

def Stage.midway : Stage → Option Uuid
  | verifying id | writing id | heading id | registering id => some id
  | _ => none

theorem Stage.row_of_midway (h : stage.midway = some id) : stage.row = some id := by
  cases stage <;> first | exact h | cases h

section
variable (hp : p.Ok cfg s)
include hp

theorem Publish.Ok.goes (hid : p.stage.row = some id) (hstage : stage.midway = some id)
    (hverified : ∀ id, stage = .writing id → cfg.contentDigest p.data = p.request.digest)
    (hstored : stage.stored = true → ∃ data, s.objects p.objectKey = some data ∧
      cfg.contentDigest data = p.request.digest) : Publish.Ok cfg s { p with stage } := by
  have hrow := row_of_midway hstage
  have hsame : ∀ id', stage.row = some id' → p.stage.row = some id' := fun id' h =>
    hid.trans (hrow.symm.trans h)
  refine ⟨fun _ => hp.key (finished_of_row hid), fun h => ?_, fun id' h => hp.own id' (hsame id' h),
    fun id' h => hp.row id' (hsame id' h), fun id' h => ?_, hverified, hstored, fun row h => ?_⟩
  · cases hrow.symm.trans h
  · rw [show stage = _ from h] at hstage
    cases hstage
  · rcases h with h | h <;> rw [show stage = _ from h] at hstage <;> cases hstage

theorem Publish.Ok.closes (hid : p.stage.row = some id) :
    Publish.Ok cfg (s.commits i p (.verifying id)) { p with stage := .verifying id, log := [] } := by
  refine ⟨fun _ => hp.key (finished_of_row hid), fun _ => rfl, fun _ _ w hw => ?_, fun id' h => ?_,
    fun id' h => ?_, fun id' h => ?_, fun h => ?_, fun row h => ?_⟩
  · cases hw
  · obtain rfl : id = id' := some.inj h
    exact hp.row id hid
  · cases h
  · cases h
  · cases h
  · rcases h with h | h <;> cases h

theorem Publish.Ok.returns (hstage : p.stage = .returning row) :
    Publish.Ok cfg (s.commits i p (.returned row)) { p with stage := .returned row, log := [] } := by
  refine ⟨fun h => ?_, fun _ => rfl, fun _ h => ?_, fun _ h => ?_, fun _ h => ?_, fun _ h => ?_,
    fun h => ?_, fun row' h => ?_⟩
  · cases h
  · cases h
  · cases h
  · cases h
  · cases h
  · cases h
  · rcases h with h | h <;> cases h
    exact hp.result row (.inl hstage)

theorem Publish.Ok.registers (hstage : p.stage = .registering id)
    (hrow : (s.seen (p.log ++ [.register id])).get id = some row) :
    Publish.Ok cfg s { p with stage := .returning row, log := p.log ++ [.register id] } := by
  have hid : p.stage.row = some id := by rw [hstage]; rfl
  obtain ⟨row0, hrow0, hscope, hkey, hcarries⟩ := hp.row id hid
  have hrow' : (s.seen (p.log ++ [.register id])).get id = some (registered row0) := by
    refine get_view_concat.trans ((if_pos rfl).trans ?_)
    exact congrArg (Option.map registered) hrow0
  cases hrow.symm.trans hrow'
  have hrowId : ∀ id', (returning (registered row0)).row = some id' → id = id' := fun id' h =>
    (key_eq_of_get hrow).symm.trans (some.inj h)
  refine ⟨fun _ => hp.key (finished_of_row hid), fun h => ?_, fun id' h w hw => ?_, fun id' h => ?_,
    fun id' h => ?_, fun id' h => ?_, fun _ => hp.stored (by rw [hstage]; rfl), fun row h => ?_⟩
  · cases h
  · obtain rfl := hrowId id' h
    rcases mem_append.mp hw with hw | hw
    · exact hp.own id hid w hw
    · rw [mem_singleton.mp hw]
      exact .register
  · obtain rfl := hrowId id' h
    exact ⟨_, hrow, hscope, hkey, hcarries⟩
  · cases h
  · cases h
  · rcases h with h | h <;> cases h
    exact hcarries

theorem Publish.Ok.early {start : Time} (hrow : p.stage.row = none)
    (hrow' : stage.row = none) (hfinished : p.stage.finished = false)
    (hfinished' : stage.finished = false) : Publish.Ok cfg s { p with stage, start } := by
  refine ⟨fun _ => hp.key hfinished, fun _ => hp.quiet hrow, fun id h => ?_, fun id h => ?_, fun id h => ?_,
    fun id h => ?_, fun h => ?_, fun row h => ?_⟩
  · exact absurd (hrow'.symm.trans h) (some_ne_none id).symm
  · exact absurd (hrow'.symm.trans h) (some_ne_none id).symm
  · rw [show stage = _ from h] at hrow'
    cases hrow'
  · rw [show stage = _ from h] at hrow'
    cases hrow'
  · cases stage <;> simp [Stage.row, Stage.stored] at hrow' h
  · rcases h with h | h
    · rw [show stage = _ from h] at hrow'
      cases hrow'
    · rw [show stage = _ from h] at hfinished'
      cases hfinished'
end

theorem State.held_of_accepted {w : Write} (h : s.judge (i + 1) p.log w = .accepted) (k : Uuid)
    (hk : touches Row (p.log ++ [w]) k = true) : touches Row p.log k = true ∨ s.held (i + 1) k = false := by
  rcases touches_concat.mp hk with hk | rfl
  · exact .inl hk
  · exact .inr (not_held_of_accepted h)

theorem State.seen_adopt (hrow : s.rows.get id = some row) (objectKey : String) (now : Time) :
    (s.seen [.adopt id objectKey now]).get id = some (adopted objectKey now row) := by
  refine (Edit.get_apply s.rows (adopt id objectKey now) id).trans ((if_pos rfl).trans ?_)
  rw [hrow]
  rfl

theorem State.seen_insert (hnew : s.rows.get row.id = none) : (s.seen [.insert row]).get row.id = some row := by
  refine (Edit.get_apply s.rows (insert row) row.id).trans ((if_pos rfl).trans ?_)
  rw [hnew]
  rfl

section
variable (hI : Agreed cfg s)
include hI

theorem Agreed.put (hi : s.publishes[i]? = some p)
    (hlog : ∀ k, touches Row p'.log k = true → touches Row p.log k = true ∨ s.held (i + 1) k = false)
    (hp' : p'.Ok cfg s) : Agreed cfg (s.put i p') :=
  ⟨hI.toPublishes.put hi (fun _ hq => hq.of_same rfl rfl) hlog hp', hI.intact⟩

theorem Agreed.stores (hi : s.publishes[i]? = some p) (hstage : p.stage = .writing id)
    (halike : s.storesAlike p = true) : Agreed cfg (s.stores p) := by
  have hverified := (hI.publishes i p hi).verified id hstage
  refine ⟨⟨hI.noPass, hI.exclusive, fun j q hj => ?_⟩, hI.intact.stores hstage hverified halike⟩
  exact (hI.publishes j q hj).stores (mem_of_getElem? hj) hstage hverified halike

theorem agreed_does (hi : s.publishes[i]? = some p) (hadopts : s.adoptsAlike p = true)
    (hstores : s.storesAlike p = true) (hdo : p.Does cfg s i s') : Agreed cfg s' := by
  have hp := hI.publishes i p hi
  cases hdo with
  | goes stage start hrow hrow' hfinished hfinished' =>
    exact hI.put hi (fun k hk => .inl hk) (hp.early hrow hrow' hfinished hfinished')
  | raises | vanishes | refused => exact hI.put hi (by rintro _ ⟨⟩) (p.ok_raised _)
  | raisesStored id hstage => exact (hI.stores hi hstage hstores).put hi (by rintro _ ⟨⟩) (p.ok_raised _)
  | adopts id ids row hstage hrow hfits haccepted =>
    have hcarries : row.carries p.request = true := by
      simp only [adoptsAlike, hstage, hrow, all_some, hfits] at hadopts
      exact hadopts
    simp only [adoptable, and_eq_true, decide_eq_true_eq] at hfits
    exact hI.put hi (held_of_accepted haccepted) (hp.takes (by rw [hstage]; rfl) (by rw [hstage]; rfl) (.adopt p.start)
      (seen_adopt hrow _ _) hfits.1 rfl hcarries rfl)
  | inserts id hstage hnew haccepted =>
    have hcarries : (p.request.pendingRow id p.objectKey p.start).carries p.request = true := by
      simp [Row.carries, PublishRequest.pendingRow]
    exact hI.put hi (held_of_accepted haccepted) (hp.takes (by rw [hstage]; rfl) (by rw [hstage]; rfl)
      (.insert p.start) (seen_insert (get_of_fresh hnew)) rfl rfl hcarries rfl)
  | closes id hstage =>
    have hid : p.stage.row = some id := by rw [hstage]; rfl
    refine ⟨hI.set hi rfl rfl (by rintro _ ⟨⟩) (hp.closes hid) (fun j q hne hj => .commits hI hi hj hne),
      hI.intact.commits hp ?_⟩
    intro id' hid' row hrow hstate
    cases hid.symm.trans hid'
    rw [(hp.pending id hstage).2 row hrow] at hstate
    cases hstate
  | verifies id hstage hdigest =>
    exact hI.put hi (fun k hk => .inl hk) (hp.goes (by rw [hstage]; rfl) rfl (fun _ _ => hdigest)
      fun h => by cases h)
  | stores id hstage =>
    have hstored := hI.stores hi hstage hstores
    have hverified := hp.verified id hstage
    exact hstored.put hi (fun k hk => .inl hk) ((hstored.publishes i p hi).goes (by rw [hstage]; rfl) rfl
      (fun _ _ => hverified) fun _ => ⟨p.data, update_self .., hverified⟩)
  | heads id hstage =>
    exact hI.put hi (fun k hk => .inl hk)
      (hp.goes (by rw [hstage]; rfl) rfl (fun _ h => by cases h) fun _ => hp.stored (by rw [hstage]; rfl))
  | registers id row hstage hrow haccepted =>
    exact hI.put hi (held_of_accepted haccepted) (hp.registers hstage hrow)
  | returns row hstage =>
    refine ⟨hI.set hi rfl rfl (by rintro _ ⟨⟩) (hp.returns hstage) (fun j q hne hj => .commits hI hi hj hne),
      hI.intact.commits hp ?_⟩
    intro id' hid' row' hrow' hstate key hkey
    obtain ⟨row1, hrow1, -, hkey1, hcarries⟩ := hp.row id' hid'
    cases hrow'.symm.trans hrow1
    cases hkey1.symm.trans hkey
    obtain ⟨data, hdata, hdigest⟩ := hp.stored (by rw [hstage]; rfl)
    simp only [Row.carries, and_eq_true, decide_eq_true_eq] at hcarries
    exact ⟨data, hdata, by rw [hcarries.1.1.1, hdigest]⟩
end

theorem ok_begins (caller : Caller) (request : PublishRequest) (data : Bytes) :
    (begins caller request data).Ok cfg s := by
  unfold begins
  cases hkey : request.imageObjectKey with
  | none =>
    refine ⟨nofun, fun _ => rfl, nofun, nofun, nofun, nofun, nofun, fun row h => ?_⟩
    rcases h with h | h <;> cases h
  | some =>
    cases caller
    all_goals
      refine ⟨fun _ => hkey, fun _ => rfl, nofun, nofun, nofun, nofun, nofun, fun row h => ?_⟩
      rcases h with h | h <;> cases h

theorem log_begins (caller : Caller) (request : PublishRequest) (data : Bytes) :
    (begins caller request data).log = [] := by
  unfold begins
  cases request.imageObjectKey <;> rfl

theorem agreed_step (hI : Agreed cfg s) (hm : s.publishesAlike m = true) (h : s.step cfg m = some s') :
    Agreed cfg s' := by
  cases m with
  | publishes caller request data =>
    simp only [State.step] at h
    split at h
    · cases h
    · cases h
      exact ⟨hI.push (log_begins ..) (ok_begins ..) fun _ hq => hq.of_same rfl rfl, hI.intact⟩
  | publish =>
    simp only [State.step, bind_eq_some_iff] at h
    obtain ⟨p, hp, hstep⟩ := h
    simp only [publishesAlike, hp, all_some, and_eq_true] at hm
    exact agreed_does hI hp hm.1 hm.2 (Publish.does_of_step hstep)
  | wait =>
    cases h
    exact ⟨⟨hI.noPass, hI.exclusive, fun j q hj => (hI.publishes j q hj).of_same rfl rfl⟩, hI.intact⟩
  | reconciles | reconcile => cases hm

theorem agreed_init (hinit : s.Init) (hintact : s.Intact cfg) : Agreed cfg s := ⟨.init hinit, hintact⟩
end

/-- Registered rows have the digest of their objects, and a publish returns what was requested. -/
theorem publishes_keep_digests (cfg : Config) {s₀ s : State} (hinit : s₀.Init) (hintact : s₀.Intact cfg)
    (h : (catalog cfg).Leads (fun s m => publishesAlike s m = true) s₀ s) :
    ((∀ p ∈ s.publishes, p.stage.finished = true) → s.Intact cfg) ∧
    ∀ p ∈ s.publishes, ∀ row, p.stage = .returned row →
      row.digest = some p.request.digest ∧ row.expiresAt = p.request.expiresAt ∧
        row.format = p.request.format ∧ row.capabilities = p.request.capabilities := by
  have hI : Agreed cfg s := h.always (I := Agreed cfg)
    (fun s m s' hm hI (hs : step s cfg m = some s') => agreed_step hI hm hs)
    (agreed_init hinit hintact)
  refine ⟨fun _ => hI.intact, fun p hp row hrow => ?_⟩
  obtain ⟨i, hi⟩ := mem_iff_getElem?.mp hp
  have hcarries := (hI.publishes i p hi).result row (.inr hrow)
  simp only [Row.carries, and_eq_true, decide_eq_true_eq] at hcarries
  exact ⟨hcarries.1.1.1, hcarries.1.1.2, hcarries.1.2, hcarries.2⟩

/-! ## Runs -/

/-- A store whose hash is the length. -/
def demo : Config where
  sha256 := fun data => toString data.length
  maxCount := 4
  maxBytes := 1000

def demoRequest (digest : String) : PublishRequest where
  provider := "local-libvirt"
  name := "base"
  arch := "x86_64"
  format := "qcow2"
  rootDevice := "/dev/vda"
  digest := digest
  capabilities := ["kdump"]
  visibility := .isPublic
  ownerIff := by decide
  expiryIff := by decide

def demoKey : String := "images/local-libvirt/base/x86_64.qcow2"

def publishOnce (n : Nat) : List Move :=
  .publishes .handler (demoRequest (demo.contentDigest [1, 2, 3])) [1, 2, 3] ::
    List.replicate n (.publish 0 (.proceeds 7))

def State.afterPublish (s : State) (n : Nat) : State := (catalog demo).runTo s (publishOnce n)

def State.ofRows (rows : Table Row) (objects : String → Option Bytes) : State :=
  ⟨rows, objects, [], none, 0⟩

def emptyCatalog : State := .ofRows Table.empty fun _ => none

theorem emptyCatalog_init : emptyCatalog.Init := ⟨rfl, rfl, by decide, by decide⟩

theorem publishes_keep_digests_once :
    ((emptyCatalog.afterPublish 8).publishes.map (·.stage.finished) = [true] ∧
      (emptyCatalog.afterPublish 8).rows.rows.map (·.state) = [.registered]) ∧
    (emptyCatalog.afterPublish 8).Intact demo := by
  have hleads := leads_runTo
    (show (catalog demo).runsBy publishesAlike emptyCatalog (publishOnce 8) = true from by
      decide +kernel)
  have hfinished : ((emptyCatalog.afterPublish 8).publishes.all fun p => p.stage.finished) = true := by
    decide +kernel
  refine ⟨by decide +kernel, ?_⟩
  refine (publishes_keep_digests demo emptyCatalog_init (fun row hrow => ?_) hleads).1 (all_eq_true.mp hfinished)
  cases hrow

def baseline : State := .ofRows
  ⟨[{ id := 1, provider := "local-libvirt", name := "base", arch := "x86_64", format := "qcow2",
      rootDevice := "/dev/vda", visibility := .isPublic, managedBy := .config }], by decide⟩ fun _ => none

def published : State := .ofRows
  ⟨[{ id := 1, provider := "local-libvirt", name := "base", arch := "x86_64", format := "qcow2",
      rootDevice := "/dev/vda", visibility := .isPublic, state := .registered,
      objectKey := some demoKey, digest := some (demo.contentDigest [1]) }], by decide⟩
  (Function.update (fun _ => none) demoKey (some [1]))

theorem baseline_intact : baseline.Intact demo := by
  intro row hrow hstate
  rw [mem_singleton.mp hrow] at hstate
  cases hstate

theorem published_intact : published.Intact demo := by
  intro row hrow _ key hkey
  rw [mem_singleton.mp hrow] at hkey ⊢
  obtain rfl : demoKey = key := some.inj hkey
  exact ⟨[1], by decide +kernel, rfl⟩

def Move.ofPublish : Move → Bool
  | .publishes _ _ _ | .publish _ _ | .wait _ => true
  | _ => false

/-- A baseline stays without digest, and an object is written over. -/
theorem baseline_registered_without_digest :
    (baseline.Init ∧ baseline.Intact demo ∧
      (catalog demo).Leads (fun _ m => Move.ofPublish m = true) baseline (baseline.afterPublish 8) ∧
      ((baseline.afterPublish 8).publishes.all fun p => p.stage.finished) = true ∧
      ∃ row ∈ (baseline.afterPublish 8).rows.rows, row.state = .registered ∧
        row.objectKey = some demoKey ∧ row.digest = none) ∧
    (published.Init ∧ published.Intact demo ∧
      (catalog demo).Leads (fun _ m => Move.ofPublish m = true) published (published.afterPublish 7) ∧
      ((published.afterPublish 7).publishes.all fun p => p.stage.finished) = true ∧
      ∃ row ∈ (published.afterPublish 7).rows.rows, row.state = .registered ∧
        row.objectKey = some demoKey ∧ row.digest = some (demo.contentDigest [1]) ∧
        (published.afterPublish 7).objects demoKey = some [1, 2, 3]) := by
  refine ⟨⟨⟨rfl, rfl, by decide +kernel, by decide +kernel⟩, baseline_intact, ?_, ?_, ?_⟩,
    ⟨rfl, rfl, by decide +kernel, by decide +kernel⟩, published_intact, ?_, ?_, ?_⟩
  · exact leads_runTo
      (show (catalog demo).runsBy (fun _ m => Move.ofPublish m) baseline (publishOnce 8) = true from by
        decide +kernel)
  · decide +kernel
  · decide +kernel
  · exact leads_runTo
      (show (catalog demo).runsBy (fun _ m => Move.ofPublish m) published (publishOnce 7) = true from by
        decide +kernel)
  · decide +kernel
  · decide +kernel
end Kdive.Images
