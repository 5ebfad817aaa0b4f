import Kdive.Domain.Models
import Kdive.Lib.Machine
import Kdive.Lib.Overlay

/-! # The image catalog: `services/images/publish.py`, `inventory/reconcile_images.py`

A catalog image is a row of `image_catalog` and an object in the store, written apart. `publish_image` adopts the
`defined` or `pending` row of its identity, or inserts a `pending` one, stores the object, and makes the row
`registered`. The worker's handler publishes on a pool connection, so the adoption commits on its own; an upload
publishes inside one transaction. `reconcile_images` is about the rows it owns (`managed_by = 'config'`).

Each goes one statement, or one operation on the store, at a time. A statement waits for an uncommitted write on its
row, or an uncommitted entry under its key in a unique index; it is refused where it would break a `CHECK` or a unique
index. The store is part of no transaction.

A key has the provider and the owner of a private image with `__` between them. It tells two images apart exactly if the
`__` cannot be taken to stand elsewhere (`imageObjectKey_injective`); a private image of `a`, owned by `b`, has the key
of a public one of `a__b` (`image_key_shared`).
-/

namespace Kdive.Images
open Lib Keyed List

abbrev Bytes := List UInt8

inductive ImageVisibility where
  | isPublic | isPrivate
  deriving DecidableEq

inductive ImageState where
  | defined | pending | registered
  deriving DecidableEq

inductive ManagedBy where
  | config | discovery | runtime
  deriving DecidableEq

structure Scope where
  provider : String
  name : String
  arch : String
  visibility : ImageVisibility
  owner : Option String
  deriving DecidableEq

/-- `ImageCatalogEntry`. -/
structure Row where
  id : Uuid
  provider : String
  name : String
  arch : String
  format : String
  rootDevice : String
  objectKey : Option String := none
  digest : Option String := none
  capabilities : List String := []
  visibility : ImageVisibility
  owner : Option String := none
  expiresAt : Option Time := none
  state : ImageState := .defined
  pendingSince : Time := 0
  managedBy : ManagedBy := .runtime
  volume : Option String := none
  deriving DecidableEq

instance : Keyed Row Uuid := ⟨Row.id⟩

inductive IndexKey where
  | onePublic (provider name arch : String)
  | onePrivate (owner : Option String) (provider name : String)
  | oneDefined (provider name arch : String)
  deriving DecidableEq

namespace Row
variable (row : Row)

def identity : String × String × String := (row.provider, row.name, row.arch)

def scope : Scope := ⟨row.provider, row.name, row.arch, row.visibility, row.owner⟩

def objectPresent : Bool :=
  match row.state with
  | .defined => row.objectKey.isNone && row.volume.isNone
  | _ => row.objectKey.isNone != row.volume.isNone

def checks : Bool :=
  row.objectPresent && (decide (row.visibility = .isPrivate) == row.owner.isSome) &&
    (decide (row.visibility = .isPrivate) == row.expiresAt.isSome)

def indexKey : Option IndexKey :=
  match row.state, row.visibility with
  | .registered, .isPublic => some (.onePublic row.provider row.name row.arch)
  | .registered, .isPrivate => some (.onePrivate row.owner row.provider row.name)
  | .defined, .isPublic => some (.oneDefined row.provider row.name row.arch)
  | _, _ => none

def sharesEntry (other : Row) : Bool :=
  other.id ≠ row.id && row.indexKey.isSome && other.indexKey = row.indexKey
end Row

/-! ## Requests and entries -/

/-- `PublishRequest`, with what its `__post_init__` insists on. -/
structure PublishRequest where
  provider : String
  name : String
  arch : String
  format : String
  rootDevice : String
  digest : String
  capabilities : List String
  visibility : ImageVisibility
  owner : Option String := none
  expiresAt : Option Time := none
  ownerIff : visibility = .isPrivate ↔ owner.isSome
  expiryIff : visibility = .isPrivate ↔ expiresAt.isSome

/-- `validate_key_component`. -/
def validKeyComponent (value : String) : Bool :=
  value ≠ "" && value.toList.all fun char => char ≠ '/' && 0x20 ≤ char.toNat

/-- `artifact_key`; `none` where it raises. -/
def artifactKey (tenant kind objectId name : String) : Option String :=
  if [tenant, kind, objectId, name].all validKeyComponent then
    some (tenant ++ "/" ++ kind ++ "/" ++ objectId ++ "/" ++ name)
  else none

namespace PublishRequest
variable (request : PublishRequest)

def scope : Scope :=
  ⟨request.provider, request.name, request.arch, request.visibility, request.owner⟩

def objectOwnerKind : String :=
  match request.visibility, request.owner with
  | .isPrivate, some owner => request.provider ++ "__" ++ owner
  | _, _ => request.provider

def imageObjectKey : Option String :=
  artifactKey "images" request.objectOwnerKind request.name (request.arch ++ ".qcow2")

def pendingRow (id : Uuid) (objectKey : String) (now : Time) : Row where
  id := id
  provider := request.provider
  name := request.name
  arch := request.arch
  format := request.format
  rootDevice := request.rootDevice
  objectKey := some objectKey
  digest := some request.digest
  capabilities := request.capabilities
  visibility := request.visibility
  owner := request.owner
  expiresAt := request.expiresAt
  state := .pending
  pendingSince := now

theorem imageObjectKey_congr {request request' : PublishRequest} (h : request.scope = request'.scope) :
    request.imageObjectKey = request'.imageObjectKey := by
  simp only [scope, Scope.mk.injEq] at h
  obtain ⟨hprovider, hname, harch, hvisibility, howner⟩ := h
  simp only [imageObjectKey, objectOwnerKind, hprovider, hname, harch, hvisibility, howner]

/-! ## Keys of different identities -/

/-- `validate_key_component` takes provider, name, arch and owner. -/
def accepted (request : PublishRequest) : Bool :=
  ([request.provider, request.name, request.arch] ++ request.owner.toList).all validKeyComponent

theorem slash_notMem {value : String} (h : validKeyComponent value = true) : '/' ∉ value.toList := by
  simp only [validKeyComponent, Bool.and_eq_true, all_eq_true] at h
  intro hslash
  simpa using h.2 '/' hslash

theorem validKeyComponent_append {a b : String} (ha : validKeyComponent a = true)
    (hb : b.toList.all (fun char => char ≠ '/' && 0x20 ≤ char.toNat) = true) : validKeyComponent (a ++ b) = true := by
  simp only [validKeyComponent, Bool.and_eq_true, decide_eq_true_eq] at ha ⊢
  refine ⟨fun h => ha.1 ?_, by rw [String.toList_append, all_append, ha.2, hb]; rfl⟩
  rw [← String.toList_inj, String.toList_append] at h
  exact String.toList_inj.mp (append_eq_nil_iff.mp h).1

/-- What the key has of the owner. -/
def ownerPart : Option String → List Char
  | none => []
  | some owner => '_' :: '_' :: owner.toList

variable {request request' : PublishRequest}

/-- The other provider has, beyond this one, the first characters of what is joined to this one; what is left of that
    is what is joined to the other. -/
def Reaches (request request' : PublishRequest) : Prop :=
  ∃ gap ≠ [], request'.provider.toList = request.provider.toList ++ gap ∧
    ownerPart request.owner = gap ++ ownerPart request'.owner

/-- Two identities with one key: they have one name and one architecture, and the separator stands at two places of
    the same text. -/
def Collides (request request' : PublishRequest) : Prop :=
  request.name = request'.name ∧ request.arch = request'.arch ∧ (request.Reaches request' ∨ request'.Reaches request)

theorem toList_objectOwnerKind (request : PublishRequest) :
    request.objectOwnerKind.toList = request.provider.toList ++ ownerPart request.owner := by
  have hiff := request.ownerIff
  unfold objectOwnerKind
  cases hv : request.visibility <;> cases ho : request.owner <;> simp [hv, ho, ownerPart] at hiff ⊢

theorem ownerPart_injective : Function.Injective ownerPart := by
  intro owner owner' h
  cases owner <;> cases owner' <;> simp_all [ownerPart, String.toList_inj]

theorem objectOwnerKind_eq_iff : request.objectOwnerKind.toList = request'.objectOwnerKind.toList ↔
    request.provider = request'.provider ∧ request.owner = request'.owner ∨
      request.Reaches request' ∨ request'.Reaches request := by
  rw [toList_objectOwnerKind, toList_objectOwnerKind]
  constructor
  · intro h
    rcases append_eq_append_iff.mp h with ⟨gap, hp, ho⟩ | ⟨gap, hp, ho⟩
    · rcases eq_or_ne gap [] with rfl | hgap
      · exact .inl ⟨String.toList_inj.mp (by simpa using hp.symm), ownerPart_injective ho⟩
      · exact .inr (.inl ⟨gap, hgap, hp, ho⟩)
    · rcases eq_or_ne gap [] with rfl | hgap
      · exact .inl ⟨String.toList_inj.mp (by simpa using hp), (ownerPart_injective ho).symm⟩
      · exact .inr (.inr ⟨gap, hgap, hp, ho⟩)
  · rintro (⟨hp, ho⟩ | ⟨gap, -, hp, ho⟩ | ⟨gap, -, hp, ho⟩)
    · rw [hp, ho]
    · rw [hp, ho, append_assoc]
    · rw [hp, ho, append_assoc]

theorem visibility_eq (h : request.owner = request'.owner) : request.visibility = request'.visibility := by
  have hiff := request.ownerIff
  rw [h, ← request'.ownerIff] at hiff
  cases hv : request.visibility <;> cases hv' : request'.visibility <;> simp [hv, hv'] at hiff ⊢

/-- The key of an accepted request, and its parts. -/
theorem imageObjectKey_accepted (h : request.accepted = true) :
    request.imageObjectKey = some ("images" ++ "/" ++ request.objectOwnerKind ++ "/" ++ request.name ++ "/" ++
      (request.arch ++ ".qcow2")) ∧ '/' ∉ request.objectOwnerKind.toList ∧ '/' ∉ request.name.toList := by
  simp only [accepted, all_append, all_cons, all_nil, Bool.and_true, Bool.and_eq_true] at h
  obtain ⟨⟨hprovider, hname, harch⟩, howner⟩ := h
  have hkind : validKeyComponent request.objectOwnerKind = true := by
    unfold objectOwnerKind
    split
    · rename_i owner hv ho
      rw [String.append_assoc]
      refine validKeyComponent_append hprovider ?_
      simp only [ho, Option.toList, all_cons, all_nil, Bool.and_true, validKeyComponent, Bool.and_eq_true] at howner
      rw [String.toList_append, all_append, howner.2]
      rfl
    · exact hprovider
  refine ⟨?_, slash_notMem hkind, slash_notMem hname⟩
  rw [imageObjectKey, artifactKey, if_pos]
  have hfile : validKeyComponent (request.arch ++ ".qcow2") = true := validKeyComponent_append harch (by decide)
  simp [hkind, hname, hfile, show validKeyComponent "images" = true by decide]

/-- The parts of the key can be read off it, but where the provider ends. -/
theorem imageObjectKey_eq_iff (h : request.accepted = true) (h' : request'.accepted = true) :
    request.imageObjectKey = request'.imageObjectKey ↔
      request.scope = request'.scope ∨ request.Collides request' := by
  have hparts : request.imageObjectKey = request'.imageObjectKey ↔
      request.objectOwnerKind.toList = request'.objectOwnerKind.toList ∧ request.name = request'.name ∧
        request.arch = request'.arch := by
    obtain ⟨heq, hkind, hname⟩ := imageObjectKey_accepted h
    obtain ⟨heq', hkind', hname'⟩ := imageObjectKey_accepted h'
    rw [heq, heq', Option.some.injEq]
    refine ⟨fun hkey => ?_, fun ⟨hkinds, hnames, harches⟩ => ?_⟩
    · have hlist := congrArg String.toList hkey
      simp only [String.toList_append, append_assoc] at hlist
      obtain ⟨hkinds, hrest⟩ := append_cons_inj hkind hkind' (append_cancel_left (append_cancel_left hlist))
      obtain ⟨hnames, harches⟩ := append_cons_inj hname hname' hrest
      exact ⟨hkinds, String.toList_inj.mp hnames, String.toList_inj.mp (append_cancel_right harches)⟩
    · rw [String.toList_inj.mp hkinds, hnames, harches]
  rw [hparts, objectOwnerKind_eq_iff]
  simp only [scope, Scope.mk.injEq, Collides]
  constructor
  · rintro ⟨⟨hprovider, howner⟩ | hreaches, hname, harch⟩
    · exact .inl ⟨hprovider, hname, harch, visibility_eq howner, howner⟩
    · exact .inr ⟨hname, harch, hreaches⟩
  · rintro (⟨hprovider, hname, harch, -, howner⟩ | ⟨hname, harch, hreaches⟩)
    · exact ⟨.inl ⟨hprovider, howner⟩, hname, harch⟩
    · exact ⟨.inr hreaches, hname, harch⟩

theorem Reaches.provider_ne (h : request.Reaches request') : request.provider ≠ request'.provider := by
  obtain ⟨gap, hgap, hp, -⟩ := h
  intro heq
  exact hgap (by simpa [heq] using hp)

/-- Of two accepted requests, the key tells the identities apart exactly if they do not collide. -/
theorem imageObjectKey_injective (h : request.accepted = true) (h' : request'.accepted = true) :
    (request.imageObjectKey = request'.imageObjectKey ↔ request.scope = request'.scope) ↔
      ¬ request.Collides request' := by
  rw [imageObjectKey_eq_iff h h']
  refine ⟨fun hiff hcollides => ?_, fun hnot => or_iff_left hnot⟩
  have hprovider := congrArg Scope.provider (hiff.mp (.inr hcollides))
  rcases hcollides.2.2 with hreaches | hreaches
  · exact hreaches.provider_ne hprovider
  · exact hreaches.provider_ne hprovider.symm

/-- A public image of the provider, or a private one that somebody owns. -/
def ofProvider (provider : String) (owner : Option String) : PublishRequest where
  provider := provider
  name := "fedora"
  arch := "x86_64"
  format := "qcow2"
  rootDevice := "/dev/vda"
  digest := ""
  capabilities := []
  visibility := if owner.isSome then .isPrivate else .isPublic
  owner := owner
  expiresAt := owner.map fun _ => 0
  ownerIff := by cases owner <;> simp
  expiryIff := by cases owner <;> simp

/-- A provider with the separator in its name is as good as another, where nothing else is published that meets it. -/
theorem imageObjectKey_injective_separator :
    (ofProvider "a__b" (some "c")).imageObjectKey ≠ (ofProvider "a__b" none).imageObjectKey := by
  have hnot : ¬ (ofProvider "a__b" (some "c")).Collides (ofProvider "a__b" none) := by
    rintro ⟨-, -, hreaches | hreaches⟩ <;> exact hreaches.provider_ne rfl
  rw [ne_eq, (imageObjectKey_injective (by decide) (by decide)).mpr hnot]
  decide

/-- A private image of `a` and a public one of `a__b`. -/
theorem image_key_shared : (ofProvider "a" (some "b")).accepted = true ∧ (ofProvider "a__b" none).accepted = true ∧
    (ofProvider "a" (some "b")).imageObjectKey = (ofProvider "a__b" none).imageObjectKey ∧
    (ofProvider "a" (some "b")).imageObjectKey.isSome = true ∧
    (ofProvider "a" (some "b")).scope ≠ (ofProvider "a__b" none).scope := by
  decide
end PublishRequest

inductive ImageSource where
  | s3 (objectKey : String) (digest : Option String)
  | build
  | staged (volume : String)
  deriving DecidableEq

/-- `ImageEntry`. -/
structure Entry where
  provider : String
  name : String
  arch : String
  format : String
  rootDevice : String
  visibility : ImageVisibility
  capabilities : List String := []
  source : ImageSource
  deriving DecidableEq

def Entry.identity (entry : Entry) : String × String × String :=
  (entry.provider, entry.name, entry.arch)

/-- The images of an `InventoryDoc`: parsing has checked that identities are unique. -/
structure Doc where
  image : List Entry
  unique : (image.map Entry.identity).Nodup

structure Realized where
  state : ImageState
  objectKey : Option String
  volume : Option String
  digest : Option String
  deriving DecidableEq

def Row.realized (row : Row) : Realized := ⟨row.state, row.objectKey, row.volume, row.digest⟩

inductive S3Head where
  | notS3 | noDigest | present | absent | unreachable
  deriving DecidableEq

namespace Entry
variable (entry : Entry)

/-- `_realize`, with the warning. -/
def realize (row : Option Row) (head : S3Head) : Realized × Option String :=
  let placeholder (warning : String) : Realized × Option String :=
    (⟨.defined, none, none, none⟩, some (entry.name ++ warning))
  let realized := row.filter (·.state = .registered)
  match entry.source, realized with
  | .staged volume, _ => (⟨.registered, none, some volume, none⟩, none)
  | _, some row => (row.realized, none)
  | .build, none => placeholder ": build source not yet realized; row stays defined until a build runs"
  | .s3 objectKey digest, none =>
    match head with
    | .noDigest => placeholder ": s3 source has no digest; row stays defined (cannot register)"
    | .unreachable => placeholder ": object store unreachable; row stays defined until s3 is up"
    | .absent => placeholder (": s3 object " ++ objectKey ++ " absent; row stays defined")
    | _ => (⟨.registered, some objectKey, none, digest⟩, none)

def newRow (id : Uuid) (now : Time) (r : Realized) : Row where
  id := id
  provider := entry.provider
  name := entry.name
  arch := entry.arch
  format := entry.format
  rootDevice := entry.rootDevice
  visibility := entry.visibility
  capabilities := entry.capabilities
  objectKey := r.objectKey
  volume := r.volume
  digest := r.digest
  state := r.state
  managedBy := .config
  pendingSince := now

def updated (r : Realized) (row : Row) : Row :=
  { row with
    format := entry.format
    rootDevice := entry.rootDevice
    visibility := entry.visibility
    capabilities := entry.capabilities
    objectKey := r.objectKey
    volume := r.volume
    digest := r.digest
    state := r.state }

def changed (r : Realized) (row : Row) : Bool :=
  !(row.format = entry.format && row.rootDevice = entry.rootDevice &&
    row.visibility = entry.visibility && row.capabilities = entry.capabilities && row.realized = r)
end Entry

/-! ## Writes -/

inductive Write where
  | insert (row : Row)
  /-- The `UPDATE` of `_adopt_or_insert_pending`. -/
  | adopt (id : Uuid) (objectKey : String) (now : Time)
  /-- The `UPDATE` of `_registered`. -/
  | register (id : Uuid)
  /-- The `UPDATE` of `_update_entry`. -/
  | update (id : Uuid) (entry : Entry) (r : Realized)
  | delete (id : Uuid)

namespace Write
def target : Write → Uuid
  | insert row => row.id
  | adopt id _ _ | register id | update id _ _ | delete id => id

def adopted (objectKey : String) (now : Time) (row : Row) : Row :=
  { row with state := .pending, objectKey := some objectKey, pendingSince := now }

def registered (row : Row) : Row := { row with state := .registered }

theorem key_adopted (objectKey : String) (now : Time) (row : Row) : key (adopted objectKey now row) = key row := rfl

theorem key_registered (row : Row) : key (registered row) = key row := rfl

theorem key_updated (entry : Entry) (r : Realized) (row : Row) : key (entry.updated r row) = key row := rfl

/-- What the statement makes of its row. -/
def act : Write → Option Row → Option Row
  | insert row, none => some row
  | insert _, some row => some row
  | adopt _ objectKey now, row => row.map (adopted objectKey now)
  | register _, row => row.map registered
  | update _ entry r, row => row.map (entry.updated r)
  | delete _, _ => none

def apply (rows : Table Row) : Write → Table Row
  | insert row => rows.insert row
  | adopt id objectKey now => rows.modify id (adopted objectKey now) (key_adopted objectKey now)
  | register id => rows.modify id registered key_registered
  | update id entry r => rows.modify id (entry.updated r) (key_updated entry r)
  | delete id => rows.erase id

theorem get_apply (rows : Table Row) (w : Write) (id : Uuid) :
    (apply rows w).get id = if w.target = id then w.act (rows.get id) else rows.get id := by
  cases w with
  | insert row =>
    rw [apply, Table.get_insert]
    rcases eq_or_ne row.id id with rfl | hid
    · cases h : rows.get row.id with
      | none => simp [key, target, act]
      | some => simp [target, act]
    · simp [key, target, hid]
  | adopt | register | update => rw [apply, Table.get_modify]; rfl
  | delete => rw [apply, Table.get_erase]; rfl
end Write

instance : Edit Write Row where
  target := Write.target
  act := Write.act
  apply := Write.apply
  get_apply := Write.get_apply

/-! ## Publishes and passes -/

inductive Caller where
  | handler | upload
  deriving DecidableEq

inductive PublishError where
  /-- A component of the object's key is not one. -/
  | badKey
  | quotaExceeded
  /-- The row to adopt or to insert breaks a constraint. -/
  | refused
  | digestMismatch
  | headMissing
  /-- The row is gone at registration. -/
  | vanished
  /-- The registered row breaks a constraint. -/
  | unregistered
  /-- The database or the store fails, or the process ends. -/
  | fault
  deriving DecidableEq

/-- What a publish does next. -/
inductive Stage where
  /-- An upload waits for its project's lock, reads the project's live rows, and asks the store for the
      size of each object. -/
  | waiting
  | counting
  | sizing (count : Nat) (keys : List String) (total : Nat)
  /-- `_adopt_or_insert_pending`: the `SELECT` has found these rows; the first one that still fits once
      its lock is there is adopted. -/
  | selecting
  | locking (ids : List Uuid)
  /-- The end of the adoption's own transaction. -/
  | closing (id : Uuid)
  | verifying (id : Uuid)
  | writing (id : Uuid)
  | heading (id : Uuid)
  | registering (id : Uuid)
  /-- The row has come back; the transaction is about to be committed. -/
  | returning (row : Row)
  | returned (row : Row)
  | raised (error : PublishError)

namespace Stage
/-- The row a publish in progress has adopted or inserted. -/
def row : Stage → Option Uuid
  | closing id | verifying id | writing id | heading id | registering id => some id
  | returning row => some row.id
  | _ => none

/-- It has stored its object, and is still in progress. -/
def stored : Stage → Bool
  | heading _ | registering _ | returning _ => true
  | _ => false

def finished : Stage → Bool
  | returned _ | raised _ => true
  | _ => false
end Stage

structure Publish where
  caller : Caller
  request : PublishRequest
  /-- The bytes at `source`. -/
  data : Bytes
  objectKey : String := ""
  stage : Stage
  /-- `now()`: when its transaction began. -/
  start : Time := 0
  /-- What its transaction has written. -/
  log : List Write := []

/-- The stage after the adoption: only the handler's transaction ends there. -/
def Publish.holding (p : Publish) (id : Uuid) : Stage :=
  match p.caller with
  | .handler => .closing id
  | .upload => .verifying id

structure ReconcileRecord where
  name : String
  entry : String
  detail : String := ""

structure ReconcileDiff where
  created : List ReconcileRecord := []
  updated : List ReconcileRecord := []
  pruned : List ReconcileRecord := []
  cordoned : List ReconcileRecord := []
  warned : List ReconcileRecord := []

def entryLabel (identity : String × String × String) : String :=
  "image[" ++ identity.1 ++ "/" ++ identity.2.1 ++ "/" ++ identity.2.2 ++ "]"

inductive PassStage where
  | loading
  /-- The entries that are left of the batch, with the rows that were loaded. -/
  | upserting (existing : List Row) (entries : List Entry)
  | realizing (existing : List Row) (entry : Entry) (entries : List Entry) (head : S3Head)
  | pruning (departed : List Row)
  | finished

/-- A call of `reconcile_images`. -/
structure Pass where
  doc : Doc
  stage : PassStage := .loading
  start : Time := 0
  log : List Write := []
  diff : ReconcileDiff := {}

/-! ## The machine -/

structure Config where
  /-- `hashlib.sha256(data).hexdigest()`. -/
  sha256 : Bytes → String
  /-- `IMAGE_PRIVATE_MAX_COUNT` and `IMAGE_PRIVATE_MAX_BYTES`. -/
  maxCount : Nat
  maxBytes : Nat

def Config.contentDigest (cfg : Config) (data : Bytes) : String := "sha256:" ++ cfg.sha256 data

structure State where
  /-- The committed rows. -/
  rows : Table Row
  /-- The object store: the bytes last written at each key. -/
  objects : String → Option Bytes
  publishes : List Publish
  pass : Option Pass
  clock : Time

inductive PublishInput where
  /-- Its next operation succeeds; an insert gets this id. -/
  | proceeds (newId : Uuid)
  /-- Its next operation fails, or the process ends there; a put may have stored its bytes. -/
  | faults (stored : Bool)

inductive PassInput where
  /-- `referenced` is what `image_referenced_by_live_system` answers. -/
  | proceeds (newId : Uuid) (referenced : Bool)
  /-- The object store does not answer a `HEAD`. -/
  | unreachable
  | faults

inductive Move where
  | publishes (caller : Caller) (request : PublishRequest) (data : Bytes)
  | publish (i : Nat) (input : PublishInput)
  | reconciles (doc : Doc)
  | reconcile (input : PassInput)
  | wait (d : Nat)

/-- What becomes of a statement. -/
inductive Verdict where
  | waits | refused | accepted

namespace State
variable (s : State)

def logs : List (List Write) := (s.pass.elim [] Pass.log) :: s.publishes.map Publish.log

def seen (log : List Write) : Table Row := Overlay.view log s.rows

def held (i : Nat) (id : Uuid) : Bool := Overlay.heldByOther Row s.logs i id

def fresh (id : Uuid) : Bool :=
  s.rows.get id = none && s.logs.all fun log => !Overlay.touches Row log id

/-- Another transaction's uncommitted write has put the row's entry into an index, or takes it out. -/
def contested (i : Nat) (row : Row) : Bool :=
  s.logs.zipIdx.any fun e => e.2 ≠ i && e.1.any fun w =>
    ((s.seen e.1).get w.target).any row.sharesEntry || (s.rows.get w.target).any row.sharesEntry

def clashes (rows : Table Row) (row : Row) : Bool := rows.rows.any row.sharesEntry

def judge (i : Nat) (log : List Write) (w : Write) : Verdict :=
  if s.held i w.target then .waits
  else match (s.seen (log ++ [w])).get w.target with
    | none => .accepted
    | some row =>
      if !row.checks then .refused
      else if s.contested i row then .waits
      else if clashes (s.seen log) row then .refused
      else .accepted

/-! ### A publish -/

def begins (caller : Caller) (request : PublishRequest) (data : Bytes) : Publish :=
  match request.imageObjectKey with
  | none => { caller, request, data, stage := .raised .badKey }
  | some objectKey =>
    { caller, request, data, objectKey, stage := match caller with
        | .handler => .selecting
        | .upload => .waiting }

def put (i : Nat) (p : Publish) : State := { s with publishes := s.publishes.set i p }

def raises (i : Nat) (p : Publish) (error : PublishError) : State :=
  s.put i { p with stage := .raised error, log := [] }

def commits (i : Nat) (p : Publish) (stage : Stage) : State :=
  { s with rows := s.seen p.log, publishes := s.publishes.set i { p with stage, log := [] } }

def stores (p : Publish) : State :=
  { s with objects := Function.update s.objects p.objectKey (some p.data) }

def executes (i : Nat) (p : Publish) (w : Write) (stage : Stage) (error : PublishError) : Option State :=
  match s.judge (i + 1) p.log w with
  | .waits => none
  | .refused => some (s.raises i p error)
  | .accepted => some (s.put i { p with stage, log := p.log ++ [w] })

def projectHeld (owner : Option String) : Bool :=
  s.publishes.any fun p => p.caller = .upload && p.request.owner = owner && match p.stage with
    | .waiting => false
    | stage => !stage.finished

def liveOf (owner : Option String) : List Row :=
  s.rows.rows.filter fun row =>
    row.visibility = .isPrivate && row.owner = owner && row.state ≠ .defined

def adoptable (request : PublishRequest) (row : Row) : Bool :=
  row.scope = request.scope && row.state ≠ .registered

/-- The rows the `SELECT` finds, `pending` ones first. -/
def candidates (rows : Table Row) (request : PublishRequest) : List Uuid :=
  let found := rows.rows.filter (adoptable request)
  (found.filter (·.state = .pending) ++ found.filter (·.state ≠ .pending)).map (·.id)


def proceed (cfg : Config) (i : Nat) (p : Publish) (newId : Uuid) : Option State :=
  match p.stage with
  | .waiting =>
    if s.projectHeld p.request.owner then none
    else some (s.put i { p with stage := .counting, start := s.clock })
  | .counting =>
    let live := s.liveOf p.request.owner
    some (s.put i { p with stage := .sizing live.length (live.filterMap (·.objectKey)) 0 })
  | .sizing count (key :: keys) total =>
    some (s.put i { p with stage := .sizing count keys (total + ((s.objects key).elim 0 length)) })
  | .sizing count [] total =>
    if count + 1 > cfg.maxCount || total + p.data.length > cfg.maxBytes then
      some (s.raises i p .quotaExceeded)
    else some (s.put i { p with stage := .selecting })
  | .selecting =>
    let start := if p.caller = .handler then s.clock else p.start
    some (s.put i { p with stage := .locking (candidates s.rows p.request), start })
  | .locking (id :: ids) =>
    if s.held (i + 1) id then none
    else if (s.rows.get id).any (adoptable p.request) then
      s.executes i p (.adopt id p.objectKey p.start) (p.holding id) .refused
    else some (s.put i { p with stage := .locking ids })
  | .locking [] =>
    if s.fresh newId then
      s.executes i p (.insert (p.request.pendingRow newId p.objectKey p.start)) (p.holding newId) .refused
    else none
  | .closing id => some (s.commits i p (.verifying id))
  | .verifying id =>
    if cfg.contentDigest p.data = p.request.digest then some (s.put i { p with stage := .writing id })
    else some (s.raises i p .digestMismatch)
  | .writing id => some ((s.stores p).put i { p with stage := .heading id })
  | .heading id =>
    if (s.objects p.objectKey).isSome then some (s.put i { p with stage := .registering id })
    else some (s.raises i p .headMissing)
  | .registering id =>
    match (s.seen (p.log ++ [.register id])).get id with
    | none => if s.held (i + 1) id then none else some (s.raises i p .vanished)
    | some row => s.executes i p (.register id) (.returning row) .unregistered
  | .returning row => some (s.commits i p (.returned row))
  | .returned _ | .raised _ => none

def publishStep (cfg : Config) (i : Nat) (p : Publish) : PublishInput → Option State
  | .proceeds newId => s.proceed cfg i p newId
  | .faults stored =>
    match p.stage with
    | .returned _ | .raised _ => none
    | .writing _ => some ((if stored then s.stores p else s).raises i p .fault)
    | _ => some (s.raises i p .fault)

/-! ### A pass -/

/-- `existing.get(identity)`: of several rows with one identity the last one is kept. -/
def loadedRow (existing : List Row) (identity : String × String × String) : Option Row :=
  existing.reverse.find? (·.identity = identity)

def resolveS3Head (entry : Entry) (row : Option Row) (reachable : Bool) : S3Head :=
  match entry.source with
  | .s3 objectKey digest =>
    if row.any (·.state = .registered) then .notS3
    else if digest = none then .noDigest
    else if !reachable then .unreachable
    else if (s.objects objectKey).isSome then .present
    else .absent
  | _ => .notS3

def setPass (pass : Pass) : State := { s with pass := some pass }

def commitsPass (pass : Pass) (stage : PassStage) : State :=
  { s with rows := s.seen pass.log, pass := some { pass with stage, log := [] } }

def raisesPass (pass : Pass) : State := s.setPass { pass with stage := .finished, log := [] }

def executesPass (pass : Pass) (w : Write) (stage : PassStage) (diff : ReconcileDiff) : Option State :=
  match s.judge 0 pass.log w with
  | .waits => none
  | .refused => some (s.raisesPass pass)
  | .accepted => some (s.setPass { pass with stage, diff, log := pass.log ++ [w] })

def warn (diff : ReconcileDiff) (entry : Entry) (warning : Option String) : ReconcileDiff :=
  { diff with warned := diff.warned ++ warning.toList.map fun detail =>
      ⟨entry.name, entryLabel entry.identity, detail⟩ }

/-- `_create_entry` or `_update_entry`, once the `HEAD` is resolved. -/
def realizes (pass : Pass) (existing : List Row) (entry : Entry) (entries : List Entry) (head : S3Head)
    (newId : Uuid) : Option State :=
  let row := loadedRow existing entry.identity
  let (r, warning) := entry.realize row head
  let record : ReconcileRecord := ⟨entry.name, entryLabel entry.identity, ""⟩
  match row with
  | none =>
    if s.fresh newId then
      s.executesPass pass (.insert (entry.newRow newId pass.start r)) (.upserting existing entries)
        (warn { pass.diff with created := pass.diff.created ++ [record] } entry warning)
    else none
  | some row =>
    if entry.changed r row then
      s.executesPass pass (.update row.id entry r) (.upserting existing entries)
        (warn { pass.diff with updated := pass.diff.updated ++ [record] } entry warning)
    else some (s.setPass
      { pass with stage := .upserting existing entries, diff := warn pass.diff entry warning })

def departed (doc : Doc) (existing : List Row) : List Row :=
  existing.filter fun row => loadedRow existing row.identity = some row && !(doc.image.any (·.identity = row.identity))

def prunes (pass : Pass) (row : Row) (rest : List Row) (referenced : Bool) : Option State :=
  let record : ReconcileRecord := ⟨row.name, entryLabel row.identity, ""⟩
  if s.held 0 row.id then none
  else if !(s.rows.get row.id).any (·.managedBy = .config) then
    some (s.setPass { pass with stage := .pruning rest })
  else if referenced then some (s.setPass { pass with
    stage := .pruning rest, diff := { pass.diff with cordoned := pass.diff.cordoned ++ [record] } })
  else some (s.commitsPass
    { pass with
      log := [.delete row.id], diff := { pass.diff with pruned := pass.diff.pruned ++ [record] } }
    (.pruning rest))

def passStep (pass : Pass) : PassInput → Option State
  | .proceeds newId referenced =>
    match pass.stage with
    | .loading => some (s.setPass { pass with
        stage := .upserting (s.rows.rows.filter (·.managedBy = .config)) pass.doc.image
        start := s.clock })
    | .upserting existing (entry :: entries) => some (s.setPass { pass with
        stage := .realizing existing entry entries (s.resolveS3Head entry (loadedRow existing entry.identity) true) })
    | .upserting existing [] => some (s.commitsPass pass (.pruning (departed pass.doc existing)))
    | .realizing existing entry entries head => s.realizes pass existing entry entries head newId
    | .pruning (row :: rest) => s.prunes pass row rest referenced
    | .pruning [] => some (s.setPass { pass with stage := .finished })
    | .finished => none
  | .unreachable =>
    match pass.stage with
    | .upserting existing (entry :: entries) => some (s.setPass { pass with
        stage := .realizing existing entry entries (s.resolveS3Head entry (loadedRow existing entry.identity) false) })
    | _ => none
  | .faults =>
    match pass.stage with
    | .finished => none
    | _ => some (s.raisesPass pass)

/-! ### Moves -/

def passRunning : Bool :=
  match s.pass with
  | some { stage := .finished, .. } | none => false
  | _ => true

def step (cfg : Config) : Move → Option State
  | .publishes caller request data =>
    if caller = .upload && request.visibility ≠ .isPrivate then none
    else some { s with publishes := s.publishes ++ [begins caller request data] }
  | .publish i input => s.publishes[i]?.bind fun p => s.publishStep cfg i p input
  | .reconciles doc => if s.passRunning then none else some (s.setPass { doc })
  | .reconcile input => s.pass.bind fun pass => s.passStep pass input
  | .wait d => some { s with clock := s.clock + d }

structure Init : Prop where
  publishes : s.publishes = []
  pass : s.pass = none
  checks : ∀ row ∈ s.rows.rows, row.checks = true
  unique : ∀ row ∈ s.rows.rows, clashes s.rows row = false
end State

def catalog (cfg : Config) : Machine where
  State := State
  Move := Move
  init := State.Init
  step := fun s m => s.step cfg m
end Kdive.Images
