import Kdive.Domain.Models
import Kdive.Lib.Machine

/-! # External builds: `runs.complete_build` and the upload reaper

The artifacts of an external Run are uploaded, each in one piece or in chunks, as declared in a manifest with a
deadline. `complete_build` puts chunked artifacts together, validates what is there, and finalizes the Run: artifact
rows, the result of the build step, `created -> succeeded`. `repair_abandoned_uploads` removes what a manifest past its
deadline has left behind.

This is the world of one Run, with any number of calls and reapers, one statement or one operation on the store at a
time. A call's first read opens the transaction that its connection commits when the call is over: the lock on the Run,
once taken, is held to the end of the call, and `now()` is when the call began. All who write the Run's rows hold its
lock, so what is read under it may be read in one step.
-/

namespace Kdive.Uploads
open Lib

abbrev Bytes := List UInt8

/-- `_BUILD_ARTIFACT_NAMES`. -/
inductive ArtifactName where
  | effectiveConfig | kernel | initrd | vmlinux
  deriving DecidableEq

/-- The keys under the Run's prefix: the artifact itself, and `chunk_key`. -/
inductive ObjectKey where
  | artifact (name : ArtifactName)
  | chunk (name : ArtifactName) (part : Nat)
  deriving DecidableEq

def ObjectKey.isChunk : ObjectKey → Bool
  | chunk _ _ => true
  | artifact _ => false

structure Object where
  key : ObjectKey
  data : Bytes

instance : Keyed Object ObjectKey := ⟨Object.key⟩

structure ChunkEntry where
  sha256 : String
  sizeBytes : Nat
  deriving DecidableEq

structure ManifestEntry where
  name : ArtifactName
  sha256 : String
  sizeBytes : Nat
  chunks : Option (List ChunkEntry) := none
  deriving DecidableEq

structure UploadManifest where
  entries : List ManifestEntry
  deadline : Time

namespace UploadManifest
variable (m : UploadManifest)

def hasChunks : Bool := m.entries.any (·.chunks.isSome)

/-- `by_name`: of several entries for one name the last one counts. -/
def byName : List ManifestEntry :=
  (m.entries.filter fun e => m.entries.reverse.find? (·.name = e.name) = some e).dedup

def keyOf (name : ArtifactName) : Option ObjectKey :=
  if m.entries.any (·.name = name) then some (.artifact name) else none
end UploadManifest

def ManifestEntry.parts (e : ManifestEntry) : List (ObjectKey × ChunkEntry) :=
  (e.chunks.getD []).zipIdx.map fun c => (.chunk e.name (c.2 + 1), c.1)

def UploadManifest.chunkKeys (m : UploadManifest) : List ObjectKey :=
  m.entries.flatMap fun e => e.parts.map (·.1)

/-! ## Rows -/

/-- `BuildStepResult` as it is loaded: an empty reference is none. -/
structure BuildStepResult where
  kernelRef : Option ObjectKey
  debuginfoRef : Option ObjectKey
  initrdRef : Option ObjectKey
  buildId : String
  cmdline : String
  deriving DecidableEq

def BuildStepResult.refs (r : BuildStepResult) : List (String × ObjectKey) :=
  (r.kernelRef.toList.map ("kernel", ·)) ++ (r.debuginfoRef.toList.map ("vmlinux", ·)) ++
    (r.initrdRef.toList.map ("initrd", ·))

structure Rows where
  state : RunState := .created
  kernelRef : Option ObjectKey := none
  debuginfoRef : Option ObjectKey := none
  result : Option BuildStepResult := none
  /-- The object keys of its `artifacts`. -/
  artifacts : List ObjectKey := []
  manifest : Option UploadManifest

inductive Write where
  | refresh (deadline : Time)
  /-- Artifact rows, build step and Run. -/
  | finalize (artifacts : List ObjectKey) (result : BuildStepResult)
  | deleteManifest

def Write.isFinalize : Write → Bool
  | finalize .. => true
  | _ => false

def Write.apply (db : Rows) : Write → Rows
  | refresh deadline => { db with manifest := db.manifest.map ({ · with deadline }) }
  | finalize artifacts result =>
    -- the step is inserted unless it is there, the Run updated if it is still created
    let db := { db with artifacts := db.artifacts ++ artifacts, result := db.result <|> some result }
    if db.state = .created then
      { db with state := .succeeded, kernelRef := result.kernelRef, debuginfoRef := result.debuginfoRef }
    else db
  | deleteManifest => { db with manifest := none }

/-! ## Calls and reapers -/

/-- What `complete_build` returns. -/
inductive Response where
  | success (refs : List (String × ObjectKey))
  | currentStatus (state : RunState)
  | noUploadManifest
  | uploadWindowExpired
  | failure (category : ErrorCategory) (message : String)
  deriving DecidableEq

inductive Stage where
  | reading
  /-- `_existing_build_result`; the Run has been read. -/
  | looking (state : RunState)
  | fetching
  /-- `_reassemble_chunked_artifacts` waits for the lock. -/
  | refreshing (m : UploadManifest)
  | reassembling (m : UploadManifest) (left : List ManifestEntry)
  | validating (m : UploadManifest) (left : List ManifestEntry)
  /-- `_validate_effective_config` and the build id. -/
  | inspecting (m : UploadManifest)
  /-- `_finalize_external_build` waits for the lock, or has it. -/
  | finalizing (m : UploadManifest) (buildId : String)
  /-- `_cleanup_chunks_and_manifest`. -/
  | cleaning (keys : List ObjectKey) (response : Response)
  | dropping (response : Response)
  /-- The connection is given back: its transaction is about to be committed. -/
  | closing (response : Response)
  | returned (response : Response)
  | raised

structure Call where
  buildId : Option String
  cmdline : String
  stage : Stage := .reading
  /-- `now()`: when its transaction began. -/
  start : Time := 0
  /-- It holds the lock on the Run. -/
  locked : Bool := false
  /-- What its transaction has written. -/
  log : List Write := []
  /-- The chunks it has deleted. -/
  removed : List ObjectKey := []
  /-- It has committed a finalization. -/
  won : Bool := false

namespace Call
variable (c : Call)

def ended : Bool :=
  match c.stage with
  | .returned _ | .raised => true
  | _ => false

/-- Between the validation of its first artifact and its finalization, without the lock. -/
def exposed : Bool :=
  !c.locked && match c.stage with
    | .validating _ _ | .inspecting _ | .finalizing _ _ => true
    | _ => false

def isCleaning : Bool :=
  match c.stage with
  | .cleaning _ _ => true
  | _ => false

/-- It has found no recorded result, and has not got hold of the manifest yet. -/
def uncertain : Bool :=
  match c.stage with
  | .fetching | .refreshing _ => true
  | _ => false

def finalizes : Bool := c.log.any Write.isFinalize
end Call

/-- `reap_one_owner` for the Run, next: the lock, the objects that are left, the end of the transaction. -/
inductive ReaperStage where
  | waiting
  | deleting (keys : List ObjectKey)
  | ended

structure Reaper where
  start : Time
  stage : ReaperStage := .waiting

def Reaper.locked (r : Reaper) : Bool :=
  match r.stage with
  | .deleting _ => true
  | _ => false

/-! ## The machine -/

structure Config where
  sha256 : Bytes → String
  /-- `UPLOAD_TTL_SECONDS`. -/
  ttl : Time
  /-- `_check_magic`. -/
  magic : ArtifactName → Bytes → Bool
  /-- The checks over all artifacts, with the declared build id: the build id, or what they raise. -/
  inspect : Option String → (ArtifactName → Option Bytes) → Except String String

structure State where
  db : Rows
  objects : Table Object
  calls : List Call
  reapers : List Reaper
  clock : Time

inductive Input where
  | proceeds
  /-- The store raises; a write or a delete may have been done. -/
  | storeFails (done : Bool)
  /-- The database fails, or the process ends. -/
  | faults (done : Bool)

inductive Move where
  | calls (buildId : Option String) (cmdline : String)
  | call (i : Nat) (input : Input)
  /-- `repair_abandoned_uploads` has found the manifest past its deadline. -/
  | reaps
  | reaper (i : Nat) (faults : Bool)
  | wait (d : Nat)

/-- The chunk is stored as declared. -/
def chunkOk (cfg : Config) (chunk : ChunkEntry) (data : Bytes) : Bool :=
  data.length = chunk.sizeBytes && cfg.sha256 data = chunk.sha256

/-- `_validate_one_artifact`, of an object that is there. -/
def artifactOk (cfg : Config) (e : ManifestEntry) (data : Bytes) : Bool :=
  data.length = e.sizeBytes && (e.chunks.isSome || cfg.sha256 data = e.sha256) && cfg.magic e.name data

namespace State
variable (s : State)

def data (key : ObjectKey) : Option Bytes := (s.objects.get key).map (·.data)

def stores (key : ObjectKey) (data : Bytes) : State :=
  { s with objects := s.objects.upsert ⟨key, data⟩ (fun o => { o with data }) fun _ => rfl }

def deletes (key : ObjectKey) : State := { s with objects := s.objects.erase key }

def put (i : Nat) (c : Call) : State := { s with calls := s.calls.set i c }

def putReaper (i : Nat) (r : Reaper) : State := { s with reapers := s.reapers.set i r }

def taken (i : Nat) : Bool :=
  s.calls.zipIdx.any (fun e => e.2 ≠ i && e.1.locked) || s.reapers.any Reaper.locked

def raises (i : Nat) (c : Call) : State := s.put i { c with stage := .raised, log := [], locked := false }

def commits (i : Nat) (c : Call) (response : Response) : State :=
  { s with
    db := c.log.foldl Write.apply s.db
    calls := s.calls.set i { c with
      stage := .returned response, log := [], locked := false, won := c.finalizes } }

/-- `_complete_envelope`. -/
def envelope (r : BuildStepResult) : Response := .success r.refs

def validation (m : UploadManifest) : Stage :=
  if m.entries.any (·.name = .kernel) then .validating m m.byName
  else .closing (.failure .configurationError
    "external build is missing the required kernel artifact")

/-- One chunk of `verify_chunks`, with its bytes. -/
def verifyChunk (cfg : Config) (part : ObjectKey × ChunkEntry) : Except ErrorCategory Bytes :=
  match s.data part.1 with
  | none => .error .configurationError
  | some data => if chunkOk cfg part.2 data then .ok data else .error .buildFailure

/-- `reassemble_chunked`: the bytes of the whole, or what it raises. -/
def reassembled (cfg : Config) (e : ManifestEntry) : Except ErrorCategory Bytes := do
  let parts ← e.parts.mapM (s.verifyChunk cfg)
  return parts.flatten

/-- Where a failed reassembly ends: a concurrent finalization may have won. -/
def afterFailure (category : ErrorCategory) : Response :=
  s.db.result.elim (.failure category "reassembly") envelope

def resultOf (m : UploadManifest) (c : Call) (buildId : String) : BuildStepResult where
  kernelRef := m.keyOf .kernel
  debuginfoRef := m.keyOf .vmlinux
  initrdRef := m.keyOf .initrd
  buildId := buildId
  cmdline := c.cmdline

/-- `_finalize_external_build`, under the lock. -/
def finalize (i : Nat) (c : Call) (m : UploadManifest) (buildId : String) : State :=
  let c := { c with locked := true }
  let result := resultOf m c buildId
  match s.db.state with
  | .succeeded => s.put i { c with stage := .closing (envelope (s.db.result.getD result)) }
  | .created =>
    let write := Write.finalize (m.byName.map fun e => .artifact e.name) result
    if m.hasChunks then
      s.put i { c with log := c.log ++ [write], stage := .cleaning m.chunkKeys (envelope result) }
    else s.put i { c with
      log := c.log ++ [write, .deleteManifest], stage := .closing (envelope result) }
  | state => s.put i { c with stage := .closing (.currentStatus state) }

def proceed (cfg : Config) (i : Nat) (c : Call) : Option State :=
  match c.stage with
  | .reading => some (s.put i { c with stage := .looking s.db.state, start := s.clock })
  | .looking state =>
    match s.db.result with
    | some r => some (s.put i { c with stage := .closing (envelope r) })
    | none =>
      if state = .created then some (s.put i { c with stage := .fetching })
      else some (s.put i { c with stage := .closing (.currentStatus state) })
  | .fetching =>
    match s.db.manifest with
    | none => some (s.put i { c with stage := .closing .noUploadManifest })
    | some m =>
      if m.hasChunks then some (s.put i { c with stage := .refreshing m })
      else some (s.put i { c with stage := validation m })
  | .refreshing m =>
    if s.taken i then none
    else match s.db.manifest with
      | none => some (s.put i { c with stage := .closing .noUploadManifest, locked := true })
      | some current =>
        -- `UPDATE … WHERE deadline >= now()`
        if current.deadline < c.start then
          some (s.put i { c with stage := .closing .uploadWindowExpired, locked := true })
        else some (s.put i { c with
          stage := .reassembling m (m.entries.filter (·.chunks.isSome))
          log := c.log ++ [.refresh (c.start + cfg.ttl)], locked := true })
  | .reassembling m [] => some (s.put i { c with stage := validation m })
  | .reassembling m (e :: left) =>
    match s.reassembled cfg e with
    | .error category => some (s.put i { c with stage := .closing (s.afterFailure category) })
    | .ok data =>
      some ((s.stores (.artifact e.name) data).put i { c with stage := .reassembling m left })
  | .validating m [] => some (s.put i { c with stage := .inspecting m })
  | .validating m (e :: left) =>
    match s.data (.artifact e.name) with
    | none => some (s.put i { c with
        stage := .closing (.failure .configurationError "declared artifact was never uploaded") })
    | some data =>
      if artifactOk cfg e data then some (s.put i { c with stage := .validating m left })
      else some (s.put i { c with
        stage := .closing (.failure .buildFailure "uploaded artifact disagrees with its manifest") })
  | .inspecting m =>
    match cfg.inspect c.buildId fun name => (m.keyOf name).bind s.data with
    | .error message => some (s.put i { c with stage := .closing (.failure .buildFailure message) })
    | .ok buildId => some (s.put i { c with stage := .finalizing m buildId })
  | .finalizing m buildId => if s.taken i then none else some (s.finalize i c m buildId)
  | .cleaning [] response => some (s.put i { c with stage := .dropping response })
  | .cleaning (key :: keys) response =>
    some ((s.deletes key).put i { c with stage := .cleaning keys response, removed := key :: c.removed })
  | .dropping response =>
    some (s.put i { c with stage := .closing response, log := c.log ++ [.deleteManifest] })
  | .closing response => some (s.commits i c response)
  | .returned _ | .raised => none

def storeFails (i : Nat) (c : Call) (done : Bool) : Option State :=
  match c.stage with
  | .reassembling _ (_ :: _) =>
    -- the upload that was begun is aborted
    some (s.put i { c with stage := .closing (s.afterFailure .infrastructureFailure) })
  | .validating _ (_ :: _) | .inspecting _ =>
    some (s.put i { c with stage := .closing (.failure .infrastructureFailure "object store") })
  | .cleaning (key :: _) response =>
    -- logged, and the rest is left to the reaper
    if done then some ((s.deletes key).put i
      { c with stage := .closing response, removed := key :: c.removed })
    else some (s.put i { c with stage := .closing response })
  | _ => none

def callStep (cfg : Config) (i : Nat) (c : Call) : Input → Option State
  | .proceeds => s.proceed cfg i c
  | .storeFails done => s.storeFails i c done
  | .faults done =>
    match c.stage with
    | .returned _ | .raised => none
    | .cleaning (key :: _) _ =>
      if done then some ((s.deletes key).raises i { c with removed := key :: c.removed })
      else some (s.raises i c)
    | _ => some (s.raises i c)

def reap (i : Nat) (r : Reaper) : Option State :=
  match r.stage with
  | .waiting =>
    if s.calls.any (·.locked) || s.reapers.any Reaper.locked then none
    else if s.db.manifest.any (·.deadline < r.start) then
      some (s.putReaper i { r with stage := .deleting (s.objects.rows.map (·.key)) })
    else some (s.putReaper i { r with stage := .ended })
  | .deleting (key :: keys) =>
    let r := { r with stage := .deleting keys }
    if s.db.artifacts.contains key then some (s.putReaper i r)
    else some ((s.deletes key).putReaper i r)
  | .deleting [] =>
    some { s.putReaper i { r with stage := .ended } with db := { s.db with manifest := none } }
  | .ended => none

def step (cfg : Config) : Move → Option State
  | .calls buildId cmdline => some { s with calls := s.calls ++ [{ buildId, cmdline }] }
  | .call i input => s.calls[i]?.bind fun c => s.callStep cfg i c input
  | .reaps =>
    if s.db.manifest.any (·.deadline < s.clock) then
      some { s with reapers := s.reapers ++ [{ start := s.clock }] }
    else none
  | .reaper i faults => s.reapers[i]?.bind fun r =>
    if faults then some (s.putReaper i { r with stage := .ended }) else s.reap i r
  | .wait d => some { s with clock := s.clock + d }

/-- A created Run, whose upload has been declared or not; what has been uploaded is in the store. -/
structure Init : Prop where
  created : s.db.state = .created
  result : s.db.result = none
  artifacts : s.db.artifacts = []
  calls : s.calls = []
  reapers : s.reapers = []
end State

def completion (cfg : Config) : Machine where
  State := State
  Move := Move
  init := State.Init
  step := fun s m => s.step cfg m
end Kdive.Uploads
