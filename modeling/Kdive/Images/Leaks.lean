import Kdive.Images.Publishing

/-! # Objects without a row: `reconciler/images.py`

`repair_leaked_images` deletes the objects older than a grace that no row refers to; it asks for the row in one
statement and deletes the object afterwards. The worker's publishes commit their row before they write the object; an
upload's row is not committed while it is in progress, and a row that is committed between the question and the delete
does not save its object either (`published_object_deleted`). If only the worker publishes, and commits no row in that
time for the same key, the sweep deletes no object of a row or of a publish in progress (`sweeps_spare_publishes`).
-/

namespace Kdive.Images.Leaks
open Lib List Overlay State Publish Function

structure ObjectListing where
  key : String
  lastModified : Time

/-- What a call of `repair_leaked_images` does next. -/
inductive Sweep where
  | listing
  /-- `SELECT EXISTS …` for the first of the objects that are left. -/
  | checking (objects : List ObjectListing)
  /-- The object is not protected: `store.delete`. -/
  | deleting (key : String) (objects : List ObjectListing)
  | finished

structure State where
  catalog : Images.State
  /-- When each object was last written. -/
  mtimes : String → Time
  sweeps : List Sweep

inductive SweepInput where
  | proceeds
  /-- What `list_image_objects` returns. -/
  | lists (keys : List String)
  | faults

inductive Move where
  | catalog (m : Images.Move)
  | sweeps
  | sweep (i : Nat) (input : SweepInput)

structure Config where
  images : Images.Config
  grace : Nat

namespace State
variable (s : State)

/-- A row of the catalog refers to the object. -/
def referenced (key : String) : Bool := s.catalog.rows.rows.any (·.objectKey = some key)

def doomed (key : String) : Bool := s.sweeps.any fun
  | .deleting key' _ => key' = key
  | _ => false

def stamped (i : Nat) (input : PublishInput) : String → Time :=
  match s.catalog.publishes[i]? with
  | none => s.mtimes
  | some p =>
    match p.stage, input with
    | .writing _, .proceeds _ | .writing _, .faults true =>
      update s.mtimes p.objectKey s.catalog.clock
    | _, _ => s.mtimes

def catalogStep (cfg : Config) (m : Images.Move) : Option State :=
  match m with
  | .publish i input =>
    (s.catalog.step cfg.images m).map fun catalog => { s with catalog, mtimes := s.stamped i input }
  | .publishes .. | .wait _ => (s.catalog.step cfg.images m).map fun catalog => { s with catalog }
  | .reconciles _ | .reconcile _ => none

def put (i : Nat) (sweep : Sweep) : State := { s with sweeps := s.sweeps.set i sweep }

def sweepStep (cfg : Config) (i : Nat) (sweep : Sweep) (input : SweepInput) : Option State :=
  match sweep, input with
  | .finished, _ => none
  | _, .faults => some (s.put i .finished)
  | .listing, .lists keys =>
    if keys.all fun key => (s.catalog.objects key).isSome then
      some (s.put i (.checking (keys.map fun key => ⟨key, s.mtimes key⟩)))
    else none
  | .checking (obj :: objects), .proceeds =>
    if s.referenced obj.key || s.catalog.clock - cfg.grace ≤ obj.lastModified then
      some (s.put i (.checking objects))
    else some (s.put i (.deleting obj.key objects))
  | .checking [], .proceeds => some (s.put i .finished)
  | .deleting key objects, .proceeds =>
    let catalog := { s.catalog with objects := update s.catalog.objects key none }
    some ({ s with catalog }.put i (.checking objects))
  | _, _ => none

def step (cfg : Config) : Move → Option State
  | .catalog m => s.catalogStep cfg m
  | .sweeps => some { s with sweeps := s.sweeps ++ [.listing] }
  | .sweep i input => s.sweeps[i]?.bind fun sweep => s.sweepStep cfg i sweep input
end State

def leaks (cfg : Config) : Machine where
  State := State
  Move := Move
  init := fun s => s.catalog.Init ∧ s.sweeps = []
  step := fun s m => s.step cfg m

/-! ## What a publish has -/

def closing : Stage → Bool
  | .closing _ => true
  | _ => false

/-- The row is there, with the publish's scope and key. -/
def Finds (p : Publish) (id : Uuid) (rows : Table Row) : Prop :=
  ∃ row, rows.get id = some row ∧ row.scope = p.request.scope ∧ row.objectKey = some p.objectKey

/-- A publish of the worker: its row has its scope and its key, and is committed before it goes on. -/
structure Owns (s : Images.State) (p : Publish) : Prop where
  handler : p.caller = .handler
  key : p.stage.finished = false → p.request.imageObjectKey = some p.objectKey
  quiet : p.stage.row = none → p.log = []
  own : ∀ id, p.stage.row = some id → ∀ w ∈ p.log, p.request.Writes p.objectKey id w
  row : ∀ id, p.stage.row = some id → Finds p id (s.seen p.log)
  touches : ∀ id, p.stage = .closing id → Overlay.touches Row p.log id = true
  committed : ∀ id, p.stage.row = some id → closing p.stage = false → Finds p id s.rows

abbrev Owned (s : Images.State) : Prop := Publishes Owns s

section
variable {cfg : Images.Config} {s s' : Images.State} {p p' q : Publish} {i j : Nat} {id : Uuid} {row : Row}

theorem Owns.of_same (h : Owns s p) (hrows : s'.rows = s.rows) : Owns s' p := by
  have hseen : s'.seen p.log = s.seen p.log := by rw [seen, seen, hrows]
  refine ⟨h.handler, h.key, h.quiet, h.own, ?_, h.touches, ?_⟩
  · rw [hseen]
    exact h.row
  · rw [hrows]
    exact h.committed

theorem Owns.of_touches (h : Owns s p) {k : Uuid} (hk : Overlay.touches Row p.log k = true) : p.stage.row = some k :=
  row_of_touches h.quiet (fun id hid w hw => (h.own id hid w hw).target_eq) hk

/-- Its row keeps its scope and its key, whoever commits. -/
theorem Owns.kept (hp : Owns s p) (hq : Owns s q) (hid : q.stage.row = some id)
    (hfinds : Finds q id s.rows) : Finds q id (s.seen p.log) := by
  obtain ⟨row, hrow, hscope, hkey⟩ := hfinds
  cases htouches : Overlay.touches Row p.log id with
  | false => exact ⟨row, (Overlay.get_view_of_not_touches htouches).trans hrow, hscope, hkey⟩
  | true =>
    have hid' := hp.of_touches htouches
    obtain ⟨row1, hrow1, hscope1, hkey1⟩ := hp.row id hid'
    obtain ⟨hscope', hkey', -⟩ := view_shared (hp.own id hid') (hp.key (Stage.finished_of_row hid'))
      (hq.key (Stage.finished_of_row hid)) hrow1 hscope1 hkey1 hrow hscope
    exact ⟨row1, hrow1, hscope', hkey'⟩

theorem Owns.commits (hI : Owned s) (hi : s.publishes[i]? = some p) (hj : s.publishes[j]? = some q)
    (hne : j ≠ i) {stage : Stage} : Owns (s.commits i p stage) q := by
  have hp := hI.publishes i p hi
  have hq := hI.publishes j q hj
  -- what it has written itself, the other one has not
  have hapart : ∀ id, Overlay.touches Row q.log id = true → (s.seen p.log).get id = s.rows.get id := fun id hid =>
    get_view_of_not_touches (hI.apart hj hi hne.symm hid)
  have hcommitted : ∀ id, q.stage.row = some id → closing q.stage = false → Finds q id (s.seen p.log) :=
    fun id hid hst => hp.kept hq hid (hq.committed id hid hst)
  refine ⟨hq.handler, hq.key, hq.quiet, hq.own, fun id hid => ?_, hq.touches, hcommitted⟩
  obtain ⟨row, hrow, hscope, hkey⟩ := hq.row id hid
  cases htouches : Overlay.touches Row q.log id with
  | true => exact ⟨row, (Overlay.get_view_congr (hapart id htouches)).trans hrow, hscope, hkey⟩
  | false =>
    have hst : closing q.stage = false := by
      cases hst : q.stage with
      | closing id' =>
        have hid' : id' = id := by rw [hst] at hid; exact Option.some.inj hid
        rw [← hid', hq.touches id' hst] at htouches
        cases htouches
      | _ => rfl
    obtain ⟨row', hrow', hscope', hkey'⟩ := hcommitted id hid hst
    exact ⟨row', (get_view_of_not_touches htouches).trans hrow', hscope', hkey'⟩

theorem owns_idle (hhandler : p.caller = .handler)
    (hkey : p.stage.finished = false → p.request.imageObjectKey = some p.objectKey) (hlog : p.log = [])
    (hrow : p.stage.row = none) : Owns s p := by
  have hnone : ∀ id, p.stage.row = some id → False := fun id hid =>
    absurd (hrow.symm.trans hid) (Option.some_ne_none id).symm
  refine ⟨hhandler, hkey, fun _ => hlog, fun id hid => (hnone id hid).elim,
    fun id hid => (hnone id hid).elim, fun id hid => ?_, fun id hid => (hnone id hid).elim⟩
  rw [hid] at hrow
  cases hrow

theorem owns_raised (h : Owns s p) (error : PublishError) : Owns s' { p with stage := .raised error, log := [] } :=
  owns_idle h.handler (fun hfinished => (by cases hfinished)) rfl rfl

theorem Owns.takes (h : Owns s p) (hrow : p.stage.row = none) (hfinished : p.stage.finished = false)
    {w : Write} (hw : p.request.Writes p.objectKey id w) (hseen : (s.seen [w]).get id = some row)
    (hscope : row.scope = p.request.scope) (hkey : row.objectKey = some p.objectKey) :
    Owns s { p with stage := p.holding id, log := p.log ++ [w] } := by
  have hholding : p.holding id = .closing id := by
    unfold holding
    rw [h.handler]
  rw [hholding, h.quiet hrow, nil_append]
  refine ⟨h.handler, fun _ => h.key hfinished, nofun, fun id' hid' w' hw' => ?_, fun id' hid' => ?_,
    fun id' hid' => ?_, nofun⟩
  · cases hid'
    rwa [mem_singleton.mp hw']
  · cases hid'
    exact ⟨row, hseen, hscope, hkey⟩
  · cases hid'
    simpa [Overlay.touches, Edit.target] using hw.target_eq

theorem Owns.goes (h : Owns s p) (hid : p.stage.row = some id) (hst : closing p.stage = false)
    {stage : Stage} (hrow : stage.row = some id) (hst' : closing stage = false) : Owns s { p with stage } := by
  have hsame : ∀ id', stage.row = some id' → p.stage.row = some id' := fun id' hid' =>
    hid.trans (hrow.symm.trans hid')
  refine ⟨h.handler, fun _ => h.key (Stage.finished_of_row hid), fun hnone => ?_,
    fun id' hid' => h.own id' (hsame id' hid'), fun id' hid' => h.row id' (hsame id' hid'), fun id' hclosing => ?_,
    fun id' hid' _ => h.committed id' (hsame id' hid') hst⟩
  · cases hrow.symm.trans hnone
  · rw [show stage = _ from hclosing] at hst'
    cases hst'

theorem Owned.does (hI : Owned s) (hi : s.publishes[i]? = some p) (hdo : p.Does cfg s i s') : Owned s' := by
  have hp := hI.publishes i p hi
  have hput : ∀ {s : Images.State} {p' : Publish}, Owned s → s.publishes[i]? = some p → (∀ k, touches Row p'.log k = true →
      touches Row p.log k = true ∨ s.held (i + 1) k = false) → Owns s p' → Owned (s.put i p') :=
    fun h hi hlog hp' => h.put hi (fun _ hq => hq.of_same rfl) hlog hp'
  have hstores : Owned (s.stores p) := ⟨hI.noPass, hI.exclusive, fun j q hj => (hI.publishes j q hj).of_same rfl⟩
  cases hdo with
  | goes stage start hrow hrow' hfinished =>
    refine hput hI hi (fun k hk => .inl hk) ?_
    exact owns_idle hp.handler (fun _ => hp.key hfinished) (hp.quiet hrow) hrow'
  | raises | vanishes | refused => exact hput hI hi (by rintro _ ⟨⟩) (owns_raised hp _)
  | raisesStored => exact hput hstores hi (by rintro _ ⟨⟩) (owns_raised hp _)
  | adopts id ids row hstage hrow hfits haccepted =>
    simp only [adoptable, Bool.and_eq_true, decide_eq_true_eq] at hfits
    exact hput hI hi (held_of_accepted haccepted) (hp.takes (by rw [hstage]; rfl) (by rw [hstage]; rfl)
      (.adopt p.start) (seen_adopt hrow _ _) hfits.1 rfl)
  | inserts id hstage hnew haccepted =>
    exact hput hI hi (held_of_accepted haccepted) (hp.takes (by rw [hstage]; rfl) (by rw [hstage]; rfl)
      (.insert p.start) (seen_insert (get_of_fresh hnew)) rfl rfl)
  | closes id hstage =>
    have hid : p.stage.row = some id := by rw [hstage]; rfl
    refine hI.set hi rfl rfl (by rintro _ ⟨⟩) ?_ fun j q hne hj => .commits hI hi hj hne
    refine ⟨hp.handler, fun _ => hp.key (Stage.finished_of_row hid), (by rintro ⟨⟩),
      fun _ _ w hw => (not_mem_nil hw).elim,
      fun id' hid' => ?_, (by rintro _ ⟨⟩), fun id' hid' _ => ?_⟩
    · cases hid'
      exact hp.row id hid
    · cases hid'
      exact hp.row id hid
  | verifies id hstage | heads id hstage =>
    exact hput hI hi (fun k hk => .inl hk) (hp.goes (by rw [hstage]; rfl) (by rw [hstage]; rfl) rfl rfl)
  | stores id hstage =>
    exact hput hstores hi (fun k hk => .inl hk)
      ((hstores.publishes i p hi).goes (by rw [hstage]; rfl) (by rw [hstage]; rfl) rfl rfl)
  | registers id row hstage hrow haccepted =>
    have hid : p.stage.row = some id := by rw [hstage]; rfl
    have hrowId : row.id = id := Table.key_eq_of_get hrow
    refine hput hI hi (held_of_accepted haccepted) ?_
    refine ⟨hp.handler, fun _ => hp.key (Stage.finished_of_row hid), (by rintro ⟨⟩), fun id' hid' w hw => ?_,
      fun id' hid' => ?_, (by rintro _ ⟨⟩), fun id' hid' _ => ?_⟩
    · cases hid'
      rcases mem_append.mp hw with hw | hw
      · exact hp.own _ (hrowId ▸ hid) w hw
      · rw [mem_singleton.mp hw, ← hrowId]
        exact .register
    · cases hid'
      obtain ⟨row0, hrow0, hscope, hkey⟩ := hp.row id hid
      refine ⟨Write.registered row0, ?_, hscope, hkey⟩
      refine get_view_concat.trans ((if_pos hrowId.symm).trans ?_)
      rw [hrowId]
      exact congrArg (Option.map Write.registered) hrow0
    · cases hid'
      rw [hrowId]
      exact hp.committed id hid (by rw [hstage]; rfl)
  | returns =>
    refine hI.set hi rfl rfl (by rintro _ ⟨⟩) ?_ fun j q hne hj => .commits hI hi hj hne
    exact owns_idle hp.handler (fun hfinished => (by cases hfinished)) rfl rfl

theorem Owned.referenced (hI : Owned s) (hi : s.publishes[i]? = some p) (hdo : p.Does cfg s i s')
    (hrow : row ∈ s'.rows.rows) {key : String} (hkey : row.objectKey = some key) :
    (∃ row ∈ s.rows.rows, row.objectKey = some key) ∨ closing p.stage = true ∧ p.objectKey = key := by
  have hp := hI.publishes i p hi
  -- a commit of its own row
  have hcommits : ∀ id, p.stage.row = some id → row ∈ (s.seen p.log).rows →
      (∃ row ∈ s.rows.rows, row.objectKey = some key) ∨ closing p.stage = true ∧ p.objectKey = key := by
    intro id hid hrow
    by_cases hrowId : row.id = id
    · obtain ⟨row', hrow', -, hkey'⟩ := hp.row id hid
      cases (Table.get_eq_some.mpr ⟨hrow, hrowId⟩).symm.trans hrow'
      cases hkey'.symm.trans hkey
      cases hst : closing p.stage with
      | true => exact .inr ⟨rfl, rfl⟩
      | false =>
        obtain ⟨row0, hrow0, -, hkey0⟩ := hp.committed id hid hst
        exact .inl ⟨row0, Table.mem_of_get hrow0, hkey0⟩
    · exact .inl ⟨row, mem_of_own (hp.own id hid) hrow hrowId, hkey⟩
  cases hdo with
  | closes id hstage => exact hcommits id (by rw [hstage]; rfl) hrow
  | returns row' hstage => exact hcommits row'.id (by rw [hstage]; rfl) hrow
  | _ => exact .inl ⟨row, hrow, hkey⟩
end

/-! ## The sweeps -/

/-- Only the worker publishes, and its adoption is not committed while a sweep is about to delete the object at
    its key. -/
def State.fenced (s : State) : Move → Bool
  | .catalog (.publishes caller _ _) => caller = .handler
  | .catalog (.publish i _) => s.catalog.publishes[i]?.all fun p =>
    !(closing p.stage && s.doomed p.objectKey)
  | _ => true

/-- What a sweep is about to delete, no row refers to. -/
structure Fenced (s : State) : Prop where
  owned : Owned s.catalog
  unreferenced : ∀ key, s.doomed key = true → s.referenced key = false

section
variable {cfg : Config} {s s' : State}

theorem doomed_put {i : Nat} {sweep : Sweep} {key : String} (h : (s.put i sweep).doomed key = true) :
    s.doomed key = true ∨ ∃ objects, sweep = .deleting key objects := by
  simp only [State.doomed, State.put, any_eq_true] at h ⊢
  obtain ⟨x, hx, hkey⟩ := h
  rcases mem_or_eq_of_mem_set hx with hx | rfl
  · exact .inl ⟨x, hx, hkey⟩
  · right
    cases x <;> simp at hkey
    exact ⟨_, by rw [hkey]⟩

section
variable (h : Fenced s)
include h

theorem Fenced.put {i : Nat} {sweep : Sweep}
    (hnew : ∀ key objects, sweep = .deleting key objects → s.referenced key = false) : Fenced (s.put i sweep) := by
  refine ⟨h.owned, fun key hkey => ?_⟩
  rcases doomed_put hkey with hkey | ⟨objects, hsweep⟩
  · exact h.unreferenced key hkey
  · exact hnew key objects hsweep

theorem Fenced.sweepStep {i : Nat} {sweep : Sweep} {input : SweepInput}
    (hstep : s.sweepStep cfg i sweep input = some s') : Fenced s' := by
  unfold State.sweepStep at hstep
  split at hstep
  · cases hstep
  · cases hstep
    exact h.put nofun
  · split at hstep <;> cases hstep
    exact h.put nofun
  · split at hstep <;> cases hstep <;> rename_i hprotected
    · exact h.put nofun
    · refine h.put fun key objects hkey => ?_
      cases hkey
      simp only [Bool.or_eq_true, not_or, Bool.not_eq_true] at hprotected
      exact hprotected.1
  · cases hstep
    exact h.put nofun
  · rename_i key objects
    cases hstep
    have hdeleted : Fenced { s with catalog := { s.catalog with
        objects := update s.catalog.objects key none } } :=
      ⟨⟨h.owned.noPass, h.owned.exclusive, fun j q hj => (h.owned.publishes j q hj).of_same rfl⟩, h.unreferenced⟩
    exact hdeleted.put nofun
  · cases hstep

/-- A step of the catalog: what it commits refers to no object that is about to be deleted. -/
theorem Fenced.catalog {m : Images.Move} (hok : s.fenced (.catalog m) = true)
    (hstep : s.catalogStep cfg m = some s') : Fenced s' := by
  cases m with
  | publishes caller request data =>
    obtain ⟨catalog, hcatalog, rfl⟩ := Option.map_eq_some_iff.mp hstep
    simp only [Images.State.step] at hcatalog
    split at hcatalog
    · cases hcatalog
    · cases hcatalog
      have hcaller : caller = .handler := of_decide_eq_true hok
      refine ⟨h.owned.push (log_begins ..) ?_ fun _ hq => hq.of_same rfl, h.unreferenced⟩
      subst hcaller
      unfold begins
      cases hkey : request.imageObjectKey with
      | none => exact owns_idle rfl (fun hfinished => (by cases hfinished)) rfl rfl
      | some => exact owns_idle rfl (fun _ => hkey) rfl rfl
  | publish =>
    obtain ⟨catalog, hcatalog, rfl⟩ := Option.map_eq_some_iff.mp hstep
    obtain ⟨p, hi, hpublish⟩ := Option.bind_eq_some_iff.mp hcatalog
    have hdo := does_of_step hpublish
    refine ⟨h.owned.does hi hdo, fun key hkey => ?_⟩
    rw [State.referenced, any_eq_false]
    intro row hrow hobject
    have hold := h.unreferenced key hkey
    rw [State.referenced, any_eq_false] at hold
    rcases h.owned.referenced hi hdo hrow (of_decide_eq_true hobject) with ⟨row', hrow', hkey'⟩ | ⟨hst, rfl⟩
    · exact hold row' hrow' (decide_eq_true hkey')
    · rw [State.fenced, hi, Option.all_some, hst, Bool.true_and, Bool.not_eq_true'] at hok
      rw [show s.doomed p.objectKey = true from hkey] at hok
      cases hok
  | wait =>
    cases hstep
    exact ⟨⟨h.owned.noPass, h.owned.exclusive, fun j q hj => (h.owned.publishes j q hj).of_same rfl⟩, h.unreferenced⟩
  | reconciles | reconcile => cases hstep

theorem Fenced.step {m : Move} (hok : s.fenced m = true) (hstep : s.step cfg m = some s') : Fenced s' := by
  cases m with
  | catalog => exact h.catalog hok hstep
  | sweeps =>
    cases hstep
    refine ⟨h.owned, fun key hkey => h.unreferenced key ?_⟩
    simpa [State.doomed] using hkey
  | sweep =>
    obtain ⟨sweep, -, hstep⟩ := Option.bind_eq_some_iff.mp hstep
    exact h.sweepStep hstep

theorem Fenced.stored {p : Publish} (hp : p ∈ s.catalog.publishes)
    (hstored : p.stage.stored = true) : s.referenced p.objectKey = true := by
  obtain ⟨i, hi⟩ := mem_iff_getElem?.mp hp
  have hrow : ∃ id, p.stage.row = some id ∧ closing p.stage = false := by
    revert hstored
    cases p.stage <;> simp [Stage.stored, Stage.row, closing]
  obtain ⟨id, hid, hst⟩ := hrow
  obtain ⟨row, hrow, -, hkey⟩ := (h.owned.publishes i p hi).committed id hid hst
  exact any_eq_true.mpr ⟨row, Table.mem_of_get hrow, decide_eq_true hkey⟩
end

/-- Only a sweep takes an object away. -/
theorem doomed_of_deletes {m : Move} (hstep : s.step cfg m = some s') {key : String}
    (hhere : (s.catalog.objects key).isSome = true) (hgone : s'.catalog.objects key = none) : s.doomed key = true := by
  -- an object that is written, or not touched, is still there
  have hkept : s'.catalog.objects key = s.catalog.objects key ∨ (s'.catalog.objects key).isSome = true →
      s.doomed key = true := by
    rintro (hsame | hsome)
    · rw [← hsame, hgone] at hhere
      cases hhere
    · rw [hgone] at hsome
      cases hsome
  cases m with
  | catalog m =>
    cases m with
    | publishes =>
      obtain ⟨catalog, hcatalog, rfl⟩ := Option.map_eq_some_iff.mp hstep
      simp only [Images.State.step] at hcatalog
      split at hcatalog
      · cases hcatalog
      · cases hcatalog
        exact hkept (.inl rfl)
    | publish =>
      obtain ⟨catalog, hcatalog, rfl⟩ := Option.map_eq_some_iff.mp hstep
      obtain ⟨p, hi, hpublish⟩ := Option.bind_eq_some_iff.mp hcatalog
      have hstores : ((s.catalog.stores p).objects key).isSome = true := by
        show (update s.catalog.objects p.objectKey (some p.data) key).isSome = true
        by_cases hkey : key = p.objectKey
        · rw [hkey, update_self]
          rfl
        · rwa [update_of_ne hkey]
      cases does_of_step hpublish with
      | stores | raisesStored => exact hkept (.inr hstores)
      | _ => exact hkept (.inl rfl)
    | wait =>
      cases hstep
      exact hkept (.inl rfl)
    | reconciles | reconcile => cases hstep
  | sweeps =>
    cases hstep
    exact hkept (.inl rfl)
  | sweep i input =>
    obtain ⟨sweep, hi, hstep⟩ := Option.bind_eq_some_iff.mp hstep
    unfold State.sweepStep at hstep
    split at hstep
    · cases hstep
    · cases hstep
      exact hkept (.inl rfl)
    · split at hstep <;> cases hstep
      exact hkept (.inl rfl)
    · split at hstep <;> cases hstep <;> exact hkept (.inl rfl)
    · cases hstep
      exact hkept (.inl rfl)
    · rename_i key' objects _
      cases hstep
      rcases eq_or_ne key key' with rfl | hkey
      · exact any_eq_true.mpr ⟨_, mem_of_getElem? hi, decide_eq_true rfl⟩
      · exact hkept (.inl (update_of_ne hkey _ _))
    · cases hstep
end

/-! ## The result -/

/-- A fenced sweep deletes no object of a row, nor of a publish in progress. -/
theorem sweeps_spare_publishes {cfg : Config} {s : State}
    (hreach : (leaks cfg).ReachBy (fun s m => s.fenced m = true) s) :
    (∀ p ∈ s.catalog.publishes, p.stage.stored = true → s.referenced p.objectKey = true) ∧
      ∀ m s', (leaks cfg).step s m = some s' → ∀ key, (s.catalog.objects key).isSome = true →
        s'.catalog.objects key = none → s.referenced key = false ∧
          ∀ p ∈ s.catalog.publishes, p.stage.stored = true → p.objectKey ≠ key := by
  have hfenced : Fenced s := Machine.ReachBy.always (I := Fenced)
    (fun s hinit => by
      obtain ⟨hcatalog, hsweeps⟩ := hinit
      refine ⟨.init hcatalog, fun key hkey => ?_⟩
      unfold State.doomed at hkey
      rw [hsweeps] at hkey
      cases hkey)
    (fun _ _ _ _ hok hI hs => hI.step hok hs) hreach
  refine ⟨fun p hp => hfenced.stored hp, fun m s' hstep key hhere hgone => ?_⟩
  have hunreferenced := hfenced.unreferenced key (doomed_of_deletes hstep hhere hgone)
  refine ⟨hunreferenced, fun p hp hstored hkey => ?_⟩
  rw [← hkey, hfenced.stored hp hstored] at hunreferenced
  cases hunreferenced

namespace Lab
def cfg : Config where
  images := { sha256 := fun data => toString data.length, maxCount := 9, maxBytes := 9 }
  grace := 10

def publicImage : PublishRequest := demoRequest "sha256:2"

def privateImage : PublishRequest where
  provider := "local-libvirt"
  name := "fedora"
  arch := "x86_64"
  format := "qcow2"
  rootDevice := "/dev/vda"
  digest := "sha256:2"
  capabilities := []
  visibility := .isPrivate
  owner := some "storage"
  expiresAt := some 99
  ownerIff := by decide
  expiryIff := by decide

def privateKey : String := "images/local-libvirt__storage/fedora/x86_64.qcow2"

def start (key : String) : State where
  catalog := ⟨⟨[], List.nodup_nil⟩, fun k => if k = key then some [0] else none, [], none, 0⟩
  mtimes := fun _ => 0
  sweeps := []

theorem start_init (key : String) : (leaks cfg).init (start key) :=
  ⟨⟨rfl, rfl, fun _ hrow => (not_mem_nil hrow).elim, fun _ hrow => (not_mem_nil hrow).elim⟩, rfl⟩

def sweep (key : String) : List Move :=
  [.sweeps, .sweep 0 (.lists [key]), .sweep 0 .proceeds]

/-- An upload up to the end of its object's write, which takes longer than the grace; then a sweep. -/
def slowUpload : List Move :=
  .catalog (.publishes .upload privateImage [1, 2]) :: List.replicate 8 (.catalog (.publish 0 (.proceeds 1))) ++
    .catalog (.wait 20) :: sweep privateKey

def lateSweep : List Move :=
  .catalog (.wait 20) :: sweep demoKey ++ .catalog (.publishes .handler publicImage [1, 2]) ::
    List.replicate 5 (.catalog (.publish 0 (.proceeds 1)))

/-- A publish up to the end of its object's write; then a sweep, which is about to delete an older object. -/
def inOrder : State := (leaks cfg).runTo (start "old")
  (.catalog (.publishes .handler publicImage [1, 2]) :: List.replicate 5 (.catalog (.publish 0 (.proceeds 1))) ++
    [.catalog (.wait 20), .sweeps, .sweep 0 (.lists ["old", demoKey]), .sweep 0 .proceeds])
end Lab

/-- The next step of the sweep deletes the object, which a publish in progress has written. -/
def DeletesPublished (s : State) (key : String) : Prop :=
  (∃ p ∈ s.catalog.publishes, p.stage.stored = true ∧ p.objectKey = key) ∧ (s.catalog.objects key).isSome = true ∧
    ∃ s', (leaks Lab.cfg).step s (.sweep 0 .proceeds) = some s' ∧ s'.catalog.objects key = none

theorem deletesPublished_of_run {s : State} {key : String}
    (hpublish : (s.catalog.publishes.any fun p => p.stage.stored && p.objectKey = key) = true)
    (hobject : (s.catalog.objects key).isSome = true) (hstep : (((leaks Lab.cfg).step s (.sweep 0 .proceeds)).any
      fun s' => (s'.catalog.objects key).isNone) = true) : DeletesPublished s key := by
  obtain ⟨p, hp, hstored⟩ := any_eq_true.mp hpublish
  rw [Bool.and_eq_true, decide_eq_true_eq] at hstored
  obtain ⟨s', hs', hnone⟩ := (Option.any_eq_true ..).mp hstep
  exact ⟨⟨p, hp, hstored⟩, hobject, s', hs', Option.isNone_iff_eq_none.mp hnone⟩

/-- An upload's object has no row, and what is adopted late is not looked at again. -/
theorem published_object_deleted :
    (∃ s, (leaks Lab.cfg).Reach s ∧ DeletesPublished s Lab.privateKey ∧ s.referenced Lab.privateKey = false) ∧
    ∃ s, (leaks Lab.cfg).Reach s ∧ DeletesPublished s demoKey ∧ s.referenced demoKey = true := by
  constructor
  · refine ⟨(leaks Lab.cfg).runTo (Lab.start "") Lab.slowUpload, Machine.reach_runTo (Lab.start_init _) _, ?_, ?_⟩
    · exact deletesPublished_of_run (by decide +kernel) (by decide +kernel) (by decide +kernel)
    · decide +kernel
  · refine ⟨(leaks Lab.cfg).runTo (Lab.start demoKey) Lab.lateSweep,
      Machine.reach_runTo (Lab.start_init _) _, ?_, ?_⟩
    · exact deletesPublished_of_run (by decide +kernel) (by decide +kernel) (by decide +kernel)
    · decide +kernel

theorem sweeps_spare_publishes_inOrder :
    (∃ p ∈ Lab.inOrder.catalog.publishes, p.stage.stored = true ∧ p.objectKey = demoKey) ∧
      Lab.inOrder.referenced demoKey = true ∧ ∃ s', (leaks Lab.cfg).step Lab.inOrder (.sweep 0 .proceeds) = some s' ∧
        s'.catalog.objects "old" = none ∧ Lab.inOrder.referenced "old" = false := by
  have hleads : (leaks Lab.cfg).Leads (fun s m => State.fenced s m = true) (Lab.start "old") Lab.inOrder :=
    Machine.leads_runTo (by decide +kernel)
  obtain ⟨hkept, hdeletes⟩ := sweeps_spare_publishes (.leads (.init (Lab.start_init _)) hleads)
  have hpublish : (Lab.inOrder.catalog.publishes.any fun p => p.stage.stored && p.objectKey = demoKey) = true := by
    decide +kernel
  obtain ⟨p, hp, hstored⟩ := any_eq_true.mp hpublish
  rw [Bool.and_eq_true, decide_eq_true_eq] at hstored
  have hgone : (((leaks Lab.cfg).step Lab.inOrder (.sweep 0 .proceeds)).any
    fun s' => (s'.catalog.objects "old").isNone) = true := by decide +kernel
  obtain ⟨s', hs', hnone⟩ := (Option.any_eq_true ..).mp hgone
  rw [Option.isNone_iff_eq_none] at hnone
  exact ⟨⟨p, hp, hstored⟩, hstored.2 ▸ hkept p hp hstored.1, s', hs', hnone,
    (hdeletes _ s' hs' "old" (by decide +kernel) hnone).1⟩
end Kdive.Images.Leaks
