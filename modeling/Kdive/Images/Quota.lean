import Kdive.Images.Publishing
import Mathlib.Algebra.Order.BigOperators.Group.Finset
import Mathlib.Data.Finset.Basic

/-! # The quota of private images: `services/images/upload.py`

An upload holds its project's lock from before it counts the project's live rows and the sizes of their objects until
its transaction ends. In between the expiry sweep, which takes no such lock, can only make them fewer. So what it has
counted is at least what there is, and what it writes before its row is seen it has counted too: the project stays
within its caps, whether it commits or fails (`quota_holds`).
-/

namespace Kdive.Images.Quota
open Lib Finset Nat Function Table Option

def live (project : String) (row : Row) : Bool :=
  row.visibility = .isPrivate && row.owner = some project && row.state ≠ .defined

def count (project : String) (rows : Table Row) : Nat := rows.rows.countP (live project)

def refs (project : String) (rows : Table Row) : Finset String :=
  ((rows.rows.filter (live project)).filterMap (·.objectKey)).toFinset

def size (objects : String → Option Bytes) (key : String) : Nat := (objects key).elim 0 List.length

def bytes (objects : String → Option Bytes) (keys : Finset String) : Nat := ∑ key ∈ keys, size objects key

section
variable {project : String} {rows rows' : Table Row} {objects objects' : String → Option Bytes}
  {keys keys' : Finset String} {key : String}

theorem mem_refs : key ∈ refs project rows ↔ ∃ row ∈ rows.rows, live project row = true ∧ row.objectKey = some key := by
  simp only [refs, List.mem_toFinset, List.mem_filterMap, List.mem_filter, and_assoc]

theorem bytes_mono (hkeys : keys' ⊆ keys) (hsize : ∀ key, size objects' key ≤ size objects key) :
    bytes objects' keys' ≤ bytes objects keys :=
  (sum_le_sum fun key _ => hsize key).trans (sum_le_sum_of_subset hkeys)

theorem bytes_update_le {data : Bytes} : bytes (update objects key (some data)) (insert key keys) ≤
      bytes objects keys + data.length := by
  have hself : size (update objects key (some data)) key = data.length := by
    simp [size]
  have hothers : bytes (update objects key (some data)) (keys.erase key) ≤ bytes objects keys := by
    refine (sum_le_sum fun k hk => ?_).trans (sum_le_sum_of_subset (erase_subset key keys))
    rw [size, update_of_ne (ne_of_mem_erase hk)]
    exact le_refl _
  have hsplit := add_sum_erase (insert key keys)
    (size (update objects key (some data))) (mem_insert_self key keys)
  rw [erase_insert_eq_erase, hself] at hsplit
  have hbytes : bytes (update objects key (some data)) (insert key keys) = _ := hsplit.symm
  rw [hbytes, add_comm]
  exact Nat.add_le_add_right hothers _
end

/-! ## The machine -/

inductive ExpiryStage where
  | selecting | probing | clearing | deleting | committing | finished
  deriving DecidableEq

structure Expiry where
  id : Uuid
  objectKey : Option String
  start : Time
  stage : ExpiryStage := .selecting

def Expiry.holds (e : Expiry) : Bool := e.stage ≠ .selecting && e.stage ≠ .finished

structure State where
  catalog : Images.State
  expiries : List Expiry

inductive ExpiryInput where
  /-- `referenced` is what `image_referenced_by_live_system` answers. -/
  | proceeds (referenced : Bool)
  | faults

inductive Move where
  | uploads (request : PublishRequest) (data : Bytes)
  | upload (i : Nat) (input : PublishInput)
  | expires (id : Uuid) (objectKey : Option String)
  | expiry (i : Nat) (input : ExpiryInput)
  | waits (d : Nat)

namespace State
variable (s : State)

/-- An expiry has the row locked. -/
def locked (id : Uuid) : Bool := s.expiries.any fun e => e.id = id && e.holds

/-- The next operation of the upload waits for an expiry: for the lock on a row, or for the end of a
    transaction that takes the upload's entry out of an index. -/
def blocked (p : Publish) : Bool :=
  match p.stage with
  | .locking (id :: _) => s.locked id
  | .registering id =>
    ((s.catalog.seen (p.log ++ [.register id])).get id).any fun row => s.expiries.any fun e =>
      e.stage = .committing && (s.catalog.rows.get e.id).any row.sharesEntry
  | _ => false

def uploadStep (cfg : Config) (i : Nat) (p : Publish) (input : PublishInput) : Option Images.State :=
  match input with
  | .proceeds _ => if s.blocked p then none else s.catalog.publishStep cfg i p input
  | .faults _ => s.catalog.publishStep cfg i p input

def put (i : Nat) (e : Expiry) : State := { s with expiries := s.expiries.set i e }

def written (id : Uuid) : Bool := s.catalog.logs.any fun log => Overlay.touches Row log id

def expiryStep (i : Nat) (e : Expiry) : ExpiryInput → Option State
  | .faults => some (s.put i { e with stage := .finished })
  | .proceeds referenced =>
    match e.stage with
    | .selecting =>
      if s.locked e.id || s.written e.id then none
      else if (s.catalog.rows.get e.id).any fun row =>
          row.visibility = .isPrivate && row.expiresAt.any (· < e.start) then
        some (s.put i { e with stage := .probing })
      else some (s.put i { e with stage := .finished })
    | .probing => some (s.put i { e with stage := if referenced then .finished else .clearing })
    | .clearing =>
      match e.objectKey with
      | none => some (s.put i { e with stage := .deleting })
      | some objectKey =>
        let catalog := { s.catalog with objects := update s.catalog.objects objectKey none }
        some ({ s with catalog }.put i { e with stage := .deleting })
    | .deleting => some (s.put i { e with stage := .committing })
    | .committing =>
      let catalog := { s.catalog with rows := s.catalog.rows.erase e.id }
      some ({ s with catalog }.put i { e with stage := .finished })
    | .finished => none

def step (cfg : Config) (project : String) : Move → Option State
  | .uploads request data =>
    if request.owner = some project then
      some { s with catalog := { s.catalog with
        publishes := s.catalog.publishes ++ [Images.State.begins .upload request data] } }
    else none
  | .upload i input => s.catalog.publishes[i]?.bind fun p =>
    (s.uploadStep cfg i p input).map fun catalog => { s with catalog }
  | .expires id objectKey =>
    some { s with expiries := s.expiries ++ [{ id, objectKey, start := s.catalog.clock }] }
  | .expiry i input => s.expiries[i]?.bind fun e => s.expiryStep i e input
  | .waits d => some { s with catalog := { s.catalog with clock := s.catalog.clock + d } }
end State

def Capped (cfg : Config) (project : String) (s : Images.State) : Prop :=
  count project s.rows ≤ cfg.maxCount ∧ bytes s.objects (refs project s.rows) ≤ cfg.maxBytes

def quota (cfg : Config) (project : String) : Machine where
  State := State
  Move := Move
  init := fun s =>
    s.catalog.publishes = [] ∧ s.catalog.pass = none ∧ s.expiries = [] ∧ Capped cfg project s.catalog
  step := fun s m => s.step cfg project m

/-! ## What an upload has counted -/

def active : Stage → Bool
  | .waiting => false
  | stage => !stage.finished

/-- What the upload knows of the project's usage. -/
def Room (cfg : Config) (project : String) (s : Images.State) (p : Publish) : Stage → Prop
  | .sizing n keys total => count project s.rows ≤ n ∧
      bytes s.objects (refs project s.rows \ keys.toFinset) ≤ total
  | .selecting | .locking _ | .verifying _ | .writing _ => count project s.rows + 1 ≤ cfg.maxCount ∧
      bytes s.objects (refs project s.rows) + p.data.length ≤ cfg.maxBytes
  | .heading _ | .registering _ | .returning _ => count project s.rows + 1 ≤ cfg.maxCount ∧
      bytes s.objects (insert p.objectKey (refs project s.rows)) ≤ cfg.maxBytes
  | .closing _ => False
  | _ => True

structure Fits (cfg : Config) (project : String) (s : Images.State) (p : Publish) : Prop where
  caller : p.caller = .upload
  owner : p.request.owner = some project
  quiet : p.stage.row = none → p.log = []
  own : ∀ id, p.stage.row = some id → ∀ w ∈ p.log, p.request.Writes p.objectKey id w
  keyed : ∀ id, p.stage.row = some id → ∀ row, (s.seen p.log).get id = some row → row.objectKey = some p.objectKey
  room : Room cfg project s p p.stage

structure Shrinks (s s' : Images.State) : Prop where
  rows : ∀ id, s'.rows.get id = none ∨ s'.rows.get id = s.rows.get id
  objects : ∀ key, size s'.objects key ≤ size s.objects key

section
variable {cfg : Config} {project : String} {s s' : Images.State} {p : Publish}

theorem Shrinks.of_same (hrows : s'.rows = s.rows) (hobjects : s'.objects = s.objects) : Shrinks s s' :=
  ⟨fun _ => .inr (by rw [hrows]), fun _ => by rw [hobjects]⟩

theorem Shrinks.mem (h : Shrinks s s') {row : Row} (hrow : row ∈ s'.rows.rows) : row ∈ s.rows.rows := by
  have hget := get_key_of_mem hrow
  rcases h.rows row.id with hnone | hsame
  · rw [show s'.rows.get (Keyed.key row) = none from hnone] at hget
    cases hget
  · exact mem_of_get (hsame.symm.trans hget)

theorem Shrinks.count_le (h : Shrinks s s') : count project s'.rows ≤ count project s.rows :=
  countP_le_of_keys fun row hrow hlive => ⟨row, h.mem hrow, rfl, hlive⟩

theorem Shrinks.refs_subset (h : Shrinks s s') : refs project s'.rows ⊆ refs project s.rows := by
  intro key hkey
  obtain ⟨row, hrow, hlive, hobject⟩ := mem_refs.mp hkey
  exact mem_refs.mpr ⟨row, h.mem hrow, hlive, hobject⟩

theorem Capped.shrinks (h : Capped cfg project s) (hs : Shrinks s s') : Capped cfg project s' :=
  ⟨hs.count_le.trans h.1, (bytes_mono hs.refs_subset hs.objects).trans h.2⟩

theorem Room.shrinks {stage : Stage} (h : Room cfg project s p stage) (hs : Shrinks s s') :
    Room cfg project s' p stage := by
  have hcount : count project s'.rows ≤ count project s.rows := hs.count_le
  have hrefs : refs project s'.rows ⊆ refs project s.rows := hs.refs_subset
  cases stage with
  | sizing =>
    exact ⟨hcount.trans h.1, (bytes_mono (sdiff_subset_sdiff hrefs Finset.Subset.rfl) hs.objects).trans h.2⟩
  | selecting | locking _ | verifying _ | writing _ =>
    exact ⟨(Nat.add_le_add_right hcount 1).trans h.1, (Nat.add_le_add_right (bytes_mono hrefs hs.objects) _).trans h.2⟩
  | heading _ | registering _ | returning _ =>
    exact ⟨(Nat.add_le_add_right hcount 1).trans h.1, (bytes_mono (insert_subset_insert _ hrefs) hs.objects).trans h.2⟩
  | closing => exact h
  | waiting | counting | returned _ | raised _ => trivial

theorem Fits.shrinks (h : Fits cfg project s p) (hs : Shrinks s s') : Fits cfg project s' p := by
  refine ⟨h.caller, h.owner, h.quiet, h.own, fun id hid row hrow => ?_, h.room.shrinks hs⟩
  rcases hs.rows id with hnone | hsame
  · refine Publish.keyed_view (h.own id hid) (fun row0 hrow0 => ?_) row hrow
    cases hnone.symm.trans hrow0
  · exact h.keyed id hid row ((Overlay.get_view_congr hsame.symm).trans hrow)

theorem Fits.idle (h : Fits cfg project s p) (hidle : active p.stage = false) : Fits cfg project s' p := by
  have hrow : p.stage.row = none := by
    revert hidle
    cases p.stage <;> simp [active, Stage.row, Stage.finished]
  refine ⟨h.caller, h.owner, h.quiet, fun id hid => ?_, fun id hid => ?_, ?_⟩
  · cases hrow.symm.trans hid
  · cases hrow.symm.trans hid
  · revert hidle
    cases p.stage <;> simp [active, Stage.finished, Room]
end

/-! ## A step of an upload -/

section
variable {cfg : Config} {project : String} {s s' : Images.State} {p : Publish} {i : Nat} {newId : Uuid}

structure Goes (cfg : Config) (project : String) (s : Images.State) (i : Nat) (p : Publish)
    (s' : Images.State) (p' : Publish) : Prop where
  publishes : s'.publishes = s.publishes.set i p'
  fits : Fits cfg project s' p'
  capped : Capped cfg project s'
  alone : (s'.rows = s.rows ∧ s'.objects = s.objects) ∨ active p.stage = true
  enters : active p'.stage = true → active p.stage = true ∨ s.projectHeld p.request.owner = false

theorem Fits.put (hcap : Capped cfg project s) {p' : Publish} (h : Fits cfg project s p')
    (henters : active p'.stage = true → active p.stage = true ∨ s.projectHeld p.request.owner = false) :
    Goes cfg project s i p (s.put i p') p' :=
  ⟨rfl, h.shrinks (.of_same rfl rfl), hcap, .inl ⟨rfl, rfl⟩, henters⟩

theorem Fits.early (h : Fits cfg project s p) (hcap : Capped cfg project s) (hrow : p.stage.row = none)
    {stage : Stage} {start : Time}
    (henters : active stage = true → active p.stage = true ∨ s.projectHeld p.request.owner = false)
    (hrow' : stage.row = none) (hroom : Room cfg project s p stage) :
    Goes cfg project s i p (s.put i { p with stage, start }) { p with stage, start } :=
  Fits.put hcap ⟨h.caller, h.owner, fun _ => h.quiet hrow, fun id hid => (by rw [hrow'] at hid; cases hid),
    fun id hid => (by rw [hrow'] at hid; cases hid), hroom⟩ henters

theorem Fits.late (h : Fits cfg project s p) (hcap : Capped cfg project s) (hactive : active p.stage = true)
    {stage : Stage} (hrow : stage.row = p.stage.row) (hroom : Room cfg project s p stage) :
    Goes cfg project s i p (s.put i { p with stage }) { p with stage } :=
  Fits.put hcap ⟨h.caller, h.owner, fun hid => h.quiet (hrow ▸ hid), fun id hid => h.own id (hrow ▸ hid),
    fun id hid => h.keyed id (hrow ▸ hid), hroom⟩ fun _ => .inl hactive

theorem fits_idle (hcaller : p.caller = .upload) (howner : p.request.owner = some project)
    (hlog : p.log = []) (hrow : p.stage.row = none) (hroom : Room cfg project s p p.stage) : Fits cfg project s p :=
  ⟨hcaller, howner, fun _ => hlog, fun id hid => (by rw [hrow] at hid; cases hid),
    fun id hid => (by rw [hrow] at hid; cases hid), hroom⟩

theorem Fits.raised (h : Fits cfg project s p) (error : PublishError) :
    Fits cfg project s' { p with stage := .raised error, log := [] } :=
  fits_idle h.caller h.owner rfl rfl trivial

theorem Fits.raises (h : Fits cfg project s p) (hcap : Capped cfg project s) (error : PublishError) :
    Goes cfg project s i p (s.raises i p error) { p with stage := .raised error, log := [] } :=
  (h.raised error).put hcap fun hactive => by cases hactive

theorem room_sizing {n total : Nat} {key : String} {keys : List String}
    (h : Room cfg project s p (.sizing n (key :: keys) total)) :
    Room cfg project s p (.sizing n keys (total + (s.objects key).elim 0 List.length)) := by
  refine ⟨h.1, ?_⟩
  have hsub : refs project s.rows \ keys.toFinset ⊆ (refs project s.rows \ (key :: keys).toFinset) ∪ {key} := by
    intro k hk
    rw [mem_sdiff] at hk
    rw [mem_union, mem_sdiff, List.toFinset_cons, mem_insert, mem_singleton]
    by_cases hkey : k = key
    · exact .inr hkey
    · exact .inl ⟨hk.1, fun hmem => hmem.elim hkey hk.2⟩
  calc bytes s.objects (refs project s.rows \ keys.toFinset)
      ≤ bytes s.objects ((refs project s.rows \ (key :: keys).toFinset) ∪ {key}) :=
        bytes_mono hsub fun _ => le_refl _
    _ ≤ bytes s.objects (refs project s.rows \ (key :: keys).toFinset) + size s.objects key := by
        rw [bytes, bytes, ← sum_singleton (size s.objects) key, ← sum_union_inter]
        exact le_add_right _ _
    _ ≤ total + (s.objects key).elim 0 List.length := Nat.add_le_add_right h.2 _

variable (h : Fits cfg project s p)
include h

theorem Fits.commits {row : Row} (hst : p.stage = .returning row)
    {stage : Stage} : Capped cfg project (s.commits i p stage) := by
  have hroom := h.room
  rw [hst] at hroom
  have hrow : p.stage.row = some row.id := by rw [hst]; rfl
  have hothers : ∀ row' ∈ (s.seen p.log).rows, row'.id ≠ row.id → row' ∈ s.rows.rows :=
    fun row' hrow' hne => Publish.mem_of_own (h.own _ hrow) hrow' hne
  refine ⟨(countP_le_succ fun row' hrow' hne hlive =>
    ⟨row', hothers row' hrow' hne, rfl, hlive⟩).trans hroom.1, ?_⟩
  refine (bytes_mono (fun key hkey => ?_) fun _ => le_refl _).trans hroom.2
  obtain ⟨row', hrow', hlive, hobject⟩ := mem_refs.mp hkey
  by_cases hid : row'.id = row.id
  · have hkeyed := h.keyed _ hrow row' (hid ▸ get_key_of_mem hrow')
    rw [hobject, some.injEq] at hkeyed
    rw [hkeyed]
    exact mem_insert_self _ _
  · exact mem_insert_of_mem (mem_refs.mpr ⟨row', hothers row' hrow' hid, hlive, hobject⟩)

theorem Fits.writes (hrow : p.stage.row = none) {id : Uuid} {w : Write} (hw : p.request.Writes p.objectKey id w)
    (hkeyed : ∀ row, w.act (s.rows.get id) = some row → row.objectKey = some p.objectKey)
    (hroom : Room cfg project s p (.verifying id)) :
    Fits cfg project s { p with stage := p.holding id, log := p.log ++ [w] } := by
  have hstage : p.holding id = .verifying id := by
    unfold Publish.holding
    rw [h.caller]
  rw [h.quiet hrow, hstage, List.nil_append]
  refine ⟨h.caller, h.owner, fun hnone => (by cases hnone), fun id' hid' w' hw' => ?_,
    fun id' hid' row hget => ?_, hroom⟩
  · cases hid'
    rwa [List.mem_singleton.mp hw']
  · cases hid'
    refine hkeyed row ?_
    have happly : (Write.apply s.rows w).get id = some row := hget
    rwa [Write.get_apply, if_pos hw.target_eq] at happly

theorem Fits.stored {id : Uuid} (hst : p.stage = .writing id) : count project s.rows + 1 ≤ cfg.maxCount ∧
      bytes (s.stores p).objects (insert p.objectKey (refs project s.rows)) ≤ cfg.maxBytes := by
  have hroom := h.room
  rw [hst] at hroom
  exact ⟨hroom.1, bytes_update_le.trans hroom.2⟩

theorem Fits.capped_stores {id : Uuid} (hst : p.stage = .writing id) : Capped cfg project (s.stores p) := by
  obtain ⟨hcount, hbytes⟩ := h.stored hst
  exact ⟨(le_succ _).trans hcount, (bytes_mono (subset_insert _ _) fun _ => le_refl _).trans hbytes⟩

theorem Fits.proceed (hcap : Capped cfg project s)
    (hstep : s.proceed cfg i p newId = some s') : ∃ p', Goes cfg project s i p s' p' := by
  have hroom := h.room
  unfold Images.State.proceed at hstep
  split at hstep
  all_goals
    rename_i hst
    rw [hst] at hroom
  -- where it has the lock already
  all_goals try have hactive : active p.stage = true := by rw [hst]; rfl
  · split at hstep
    · cases hstep
    · rename_i hheld
      cases hstep
      exact ⟨_, h.early hcap (by rw [hst]; rfl) (fun _ => .inr (Bool.eq_false_iff.mpr hheld)) rfl trivial⟩
  · cases hstep
    have hlive : s.liveOf p.request.owner = s.rows.rows.filter (live project) := by
      rw [h.owner]
      rfl
    refine ⟨_, h.early hcap (by rw [hst]; rfl) (fun _ => .inl hactive) rfl ⟨?_, ?_⟩⟩
    · rw [hlive, count, List.countP_eq_length_filter]
    · rw [hlive, refs, sdiff_self]
      exact le_refl 0
  · cases hstep
    exact ⟨_, h.early hcap (by rw [hst]; rfl) (fun _ => .inl hactive) rfl (room_sizing hroom)⟩
  · split at hstep
    · cases hstep
      exact ⟨_, h.raises hcap _⟩
    · rename_i hfits
      cases hstep
      simp only [Bool.or_eq_true, decide_eq_true_eq, not_or, not_lt] at hfits
      refine ⟨_, h.early hcap (by rw [hst]; rfl) (fun _ => .inl hactive) rfl ⟨?_, ?_⟩⟩
      · exact (Nat.add_le_add_right hroom.1 1).trans hfits.1
      · refine (Nat.add_le_add_right ?_ _).trans hfits.2
        have hall := hroom.2
        rwa [List.toFinset_nil, sdiff_empty] at hall
  · cases hstep
    exact ⟨_, h.early hcap (by rw [hst]; rfl) (fun _ => .inl hactive) rfl hroom⟩
  · split at hstep
    · cases hstep
    · split at hstep
      · rcases State.executes_cases hstep with ⟨-, rfl⟩ | ⟨-, rfl⟩
        · exact ⟨_, h.raises hcap _⟩
        · refine ⟨_, (h.writes (by rw [hst]; rfl) (.adopt _) (fun row hrow => ?_) hroom).put hcap
            fun _ => .inl hactive⟩
          obtain ⟨row0, -, rfl⟩ := map_eq_some_iff.mp hrow
          rfl
      · cases hstep
        exact ⟨_, h.early hcap (by rw [hst]; rfl) (fun _ => .inl hactive) rfl hroom⟩
  · split at hstep
    · rename_i hfresh
      rcases State.executes_cases hstep with ⟨-, rfl⟩ | ⟨-, rfl⟩
      · exact ⟨_, h.raises hcap _⟩
      · refine ⟨_, (h.writes (by rw [hst]; rfl) (.insert _) (fun row hrow => ?_) hroom).put hcap
          fun _ => .inl hactive⟩
        rw [State.get_of_fresh hfresh] at hrow
        cases hrow
        rfl
    · cases hstep
  · exact hroom.elim
  · split at hstep
    · cases hstep
      exact ⟨_, h.late hcap hactive (by rw [hst]; rfl) hroom⟩
    · cases hstep
      exact ⟨_, h.raises hcap _⟩
  · cases hstep
    refine ⟨_, rfl, ?_, h.capped_stores hst, .inr hactive, fun _ => .inl hactive⟩
    exact ⟨h.caller, h.owner, (by rintro ⟨⟩), fun id hid => h.own id (by rw [hst]; exact hid),
      fun id hid => h.keyed id (by rw [hst]; exact hid), h.stored hst⟩
  · split at hstep
    · cases hstep
      exact ⟨_, h.late hcap hactive (by rw [hst]; rfl) hroom⟩
    · cases hstep
      exact ⟨_, h.raises hcap _⟩
  · rename_i id
    split at hstep
    · split at hstep
      · cases hstep
      · cases hstep
        exact ⟨_, h.raises hcap _⟩
    · rename_i row hrow
      rcases State.executes_cases hstep with ⟨-, rfl⟩ | ⟨-, rfl⟩
      · exact ⟨_, h.raises hcap _⟩
      · have hid : row.id = id := key_eq_of_get hrow
        have hst' : p.stage.row = some row.id := by rw [hst, hid]; rfl
        refine ⟨_, Fits.put hcap ⟨h.caller, h.owner, (by rintro ⟨⟩), fun id' hid' w hw => ?_,
          fun id' hid' row' hrow' => ?_, hroom⟩ fun _ => .inl hactive⟩
        · cases hid'
          rcases List.mem_append.mp hw with hw | hw
          · exact h.own _ hst' w hw
          · rw [List.mem_singleton.mp hw, ← hid]
            exact .register
        · cases hid'
          have hview : (Overlay.view (p.log ++ [.register id]) s.rows).get row.id = some row' := hrow'
          rw [Overlay.get_view_concat] at hview
          rw [if_pos (show Edit.target Row (Write.register id) = row.id from hid.symm)] at hview
          obtain ⟨row0, hrow0, rfl⟩ := map_eq_some_iff.mp hview
          exact h.keyed _ hst' row0 hrow0
  · cases hstep
    refine ⟨_, rfl, fits_idle h.caller h.owner rfl rfl trivial, h.commits hst, .inr hactive,
      fun hended => (by cases hended)⟩
  · cases hstep
  · cases hstep

theorem Fits.publishStep (hcap : Capped cfg project s) {input : PublishInput}
    (hstep : s.publishStep cfg i p input = some s') : ∃ p', Goes cfg project s i p s' p' := by
  cases input with
  | proceeds => exact h.proceed hcap hstep
  | faults stored =>
    unfold Images.State.publishStep at hstep
    simp only at hstep
    split at hstep
    · cases hstep
    · cases hstep
    · rename_i id hst
      cases hstep
      cases stored with
      | false => exact ⟨_, h.raises hcap _⟩
      | true =>
        refine ⟨_, rfl, h.raised _, h.capped_stores hst, .inr (by rw [hst]; rfl), fun hended => (by cases hended)⟩
    · cases hstep
      exact ⟨_, h.raises hcap _⟩
end

/-! ## The uploads together -/

structure Within (cfg : Config) (project : String) (s : State) : Prop where
  capped : Capped cfg project s.catalog
  fits : ∀ (i : Nat) (p : Publish), s.catalog.publishes[i]? = some p → Fits cfg project s.catalog p
  alone : ∀ (i j : Nat) (p q : Publish), s.catalog.publishes[i]? = some p →
    s.catalog.publishes[j]? = some q → active p.stage = true → active q.stage = true → i = j

section
variable {cfg : Config} {project : String} {s s' : State}

theorem projectHeld_of_active {s : Images.State} {p : Publish} (hp : p ∈ s.publishes)
    (hcaller : p.caller = .upload) (hactive : active p.stage = true) : s.projectHeld p.request.owner = true := by
  rw [Images.State.projectHeld, List.any_eq_true]
  refine ⟨p, hp, ?_⟩
  simp only [hcaller, decide_true, Bool.true_and]
  revert hactive
  cases p.stage <;> simp [active, Stage.finished]

variable (h : Within cfg project s)
include h

theorem Within.shrinks (hs : Shrinks s.catalog s'.catalog)
    (hpublishes : s'.catalog.publishes = s.catalog.publishes) : Within cfg project s' := by
  refine ⟨h.capped.shrinks hs, fun i p hi => ?_, ?_⟩
  · rw [hpublishes] at hi
    exact (h.fits i p hi).shrinks hs
  · rw [hpublishes]
    exact h.alone

theorem Within.expiryStep {i : Nat} {e : Expiry} {input : ExpiryInput}
    (hstep : s.expiryStep i e input = some s') : Within cfg project s' := by
  have hsame : ∀ s' : State, s'.catalog = s.catalog → Within cfg project s' := fun s' heq =>
    h.shrinks (.of_same (by rw [heq]) (by rw [heq])) (by rw [heq])
  cases input with
  | faults =>
    cases hstep
    exact hsame _ rfl
  | proceeds referenced =>
    unfold State.expiryStep at hstep
    simp only at hstep
    split at hstep
    · split at hstep
      · cases hstep
      · split at hstep <;> cases hstep <;> exact hsame _ rfl
    · cases hstep
      exact hsame _ rfl
    · split at hstep <;> cases hstep
      · exact hsame _ rfl
      · rename_i objectKey _
        refine h.shrinks ⟨fun _ => .inr rfl, fun key => ?_⟩ rfl
        rcases eq_or_ne key objectKey with rfl | hkey
        · simp [size, State.put]
        · simp [size, State.put, update_of_ne hkey]
    · cases hstep
      exact hsame _ rfl
    · cases hstep
      refine h.shrinks ⟨fun id => ?_, fun _ => le_refl _⟩ rfl
      show (s.catalog.rows.erase e.id).get id = none ∨ (s.catalog.rows.erase e.id).get id = _
      rw [get_erase]
      split
      · exact .inl rfl
      · exact .inr rfl
    · cases hstep

/-- A step of an upload: if anything changes, no other upload is inside. -/
theorem Within.upload {i : Nat} {p p' : Publish} {catalog : Images.State}
    (hi : s.catalog.publishes[i]? = some p) (hgoes : Goes cfg project s.catalog i p catalog p') :
    Within cfg project { s with catalog } := by
  have hcases : ∀ (j : Nat) (q : Publish), catalog.publishes[j]? = some q →
      (i = j ∧ q = p') ∨ (i ≠ j ∧ s.catalog.publishes[j]? = some q) := fun j q hj =>
    getElem?_set_cases (hgoes.publishes ▸ hj)
  -- another one is outside, once this one is inside
  have houtside : active p'.stage = true → ∀ (j : Nat) (q : Publish), i ≠ j →
      s.catalog.publishes[j]? = some q → active q.stage = false := by
    intro hactive j q hji hj
    refine Bool.eq_false_iff.mpr fun hq => ?_
    rcases hgoes.enters hactive with hp | hheld
    · exact hji (h.alone i j p q hi hj hp hq)
    · have hfits := h.fits j q hj
      have hheld' := projectHeld_of_active (List.mem_of_getElem? hj) hfits.caller hq
      rw [hfits.owner, ← (h.fits i p hi).owner, hheld] at hheld'
      cases hheld'
  refine ⟨hgoes.capped, fun j q hj => ?_, fun j k q r hj hk hq hr => ?_⟩
  · rcases hcases j q hj with ⟨rfl, rfl⟩ | ⟨hji, hj⟩
    · exact hgoes.fits
    · rcases hgoes.alone with ⟨hrows, hobjects⟩ | hactive
      · exact (h.fits j q hj).shrinks (.of_same hrows hobjects)
      · exact (h.fits j q hj).idle (Bool.eq_false_iff.mpr fun hq => hji (h.alone i j p q hi hj hactive hq))
  · rcases hcases j q hj with ⟨rfl, rfl⟩ | ⟨hji, hj⟩
    · rcases hcases k r hk with ⟨rfl, rfl⟩ | ⟨hki, hk⟩
      · rfl
      · rw [houtside hq k r hki hk] at hr
        cases hr
    · rcases hcases k r hk with ⟨rfl, rfl⟩ | ⟨hki, hk⟩
      · rw [houtside hr j q hji hj] at hq
        cases hq
      · exact h.alone j k q r hj hk hq hr

theorem Within.step {m : Move} (hstep : s.step cfg project m = some s') : Within cfg project s' := by
  cases m with
  | uploads request data =>
    simp only [State.step] at hstep
    split at hstep
    · rename_i howner
      cases hstep
      have hnew : Fits cfg project s.catalog (Images.State.begins .upload request data) ∧
          active (Images.State.begins .upload request data).stage = false := by
        unfold Images.State.begins
        split
        · exact ⟨fits_idle rfl howner rfl rfl trivial, rfl⟩
        · exact ⟨fits_idle rfl howner rfl rfl trivial, rfl⟩
      refine ⟨h.capped, fun i p hi => ?_, fun i j p q hi hj hp hq => ?_⟩
      · rcases getElem?_concat_cases hi with hi | ⟨-, rfl⟩
        · exact (h.fits i p hi).shrinks (.of_same rfl rfl)
        · exact hnew.1.shrinks (.of_same rfl rfl)
      · rcases getElem?_concat_cases hi with hi | ⟨-, rfl⟩
        · rcases getElem?_concat_cases hj with hj | ⟨-, rfl⟩
          · exact h.alone i j p q hi hj hp hq
          · rw [hnew.2] at hq
            cases hq
        · rw [hnew.2] at hp
          cases hp
    · cases hstep
  | upload i input =>
    obtain ⟨p, hi, hstep⟩ := bind_eq_some_iff.mp hstep
    obtain ⟨catalog, hcatalog, rfl⟩ := map_eq_some_iff.mp hstep
    have hpublish : s.catalog.publishStep cfg i p input = some catalog := by
      cases input with
      | proceeds =>
        simp only [State.uploadStep] at hcatalog
        split at hcatalog
        · cases hcatalog
        · exact hcatalog
      | faults => exact hcatalog
    obtain ⟨p', hgoes⟩ := (h.fits i p hi).publishStep h.capped hpublish
    exact h.upload hi hgoes
  | expires | waits =>
    cases hstep
    exact h.shrinks (.of_same rfl rfl) rfl
  | expiry =>
    obtain ⟨e, -, hstep⟩ := bind_eq_some_iff.mp hstep
    exact h.expiryStep hstep
end

/-! ## The result -/

/-- In every state of every run the project is within its caps. -/
theorem quota_holds {cfg : Config} {project : String} {s : State} (h : (quota cfg project).Reach s) :
    count project s.catalog.rows ≤ cfg.maxCount ∧
      bytes s.catalog.objects (refs project s.catalog.rows) ≤ cfg.maxBytes := by
  have hwithin : Within cfg project s := Machine.ReachBy.always (I := Within cfg project)
    (fun s hinit => by
      obtain ⟨hpublishes, -, -, hcap⟩ := hinit
      refine ⟨hcap, fun i p hi => ?_, fun i j p q hi => ?_⟩
      · rw [hpublishes] at hi
        cases hi
      · rw [hpublishes] at hi
        cases hi)
    (fun _ _ _ _ _ hI hs => hI.step hs) h
  exact hwithin.capped

namespace Lab
def caps : Config where
  sha256 := fun data => toString data.length
  maxCount := 1
  maxBytes := 4

def request : PublishRequest where
  provider := "local-libvirt"
  name := "fedora"
  arch := "x86_64"
  format := "qcow2"
  rootDevice := "/dev/vda"
  digest := "sha256:3"
  capabilities := []
  visibility := .isPrivate
  owner := some "kernel"
  expiresAt := some 9
  ownerIff := by decide
  expiryIff := by decide

def empty : State where
  catalog := ⟨⟨[], List.nodup_nil⟩, fun _ => none, [], none, 0⟩
  expiries := []

/-- Two uploads at once: the second one waits for the lock, and finds the quota used up. -/
def uploads : List Move :=
  [.uploads request [1, 2, 3], .uploads request [1, 2, 3]] ++
    List.replicate 10 (.upload 0 (.proceeds 1)) ++ List.replicate 4 (.upload 1 (.proceeds 2))
end Lab

theorem quota_holds_uploads : let s := ((quota Lab.caps "kernel").runTo Lab.empty Lab.uploads).catalog
    count "kernel" s.rows = 1 ∧ bytes s.objects (refs "kernel" s.rows) ≤ Lab.caps.maxBytes := by
  have hreach : (quota Lab.caps "kernel").Reach ((quota Lab.caps "kernel").runTo Lab.empty Lab.uploads) :=
    Machine.reach_runTo (show (quota Lab.caps "kernel").init Lab.empty from
      ⟨rfl, rfl, rfl, by decide, by decide⟩) Lab.uploads
  exact ⟨by decide +kernel, (quota_holds hreach).2⟩
end Kdive.Images.Quota
