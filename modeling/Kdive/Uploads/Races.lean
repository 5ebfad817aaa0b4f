import Kdive.Uploads.Cleanup

/-! # One completion wins, and the others say so

The lock on the Run lets one of several calls finalize it; a call that comes to the lock later returns what was
recorded. But a call looks for the recorded result once, reads the manifest next, and with chunks waits for the lock to
refresh it: a finalization that is committed in between takes the manifest away, and the call returns an error
(`loser_refused`). While none is, every call that returns gives the references of the one that won
(`completions_agree`).
-/

namespace Kdive.Uploads
open Lib State Kdive.Uploads.Write Call List Option UploadManifest

def UploadManifest.chunked (m : UploadManifest) : List ManifestEntry := m.entries.filter (·.chunks.isSome)

def ManifestEntry.whole (e : ManifestEntry) (objects : Table Object) : Bytes :=
  e.parts.flatMap fun part => (objects.get part.1).elim [] (·.data)

/-- What is to be in the store under the artifact's name once the chunks are put together. -/
def UploadManifest.contents (m : UploadManifest) (objects : Table Object) (name : ArtifactName) : Option Bytes :=
  match m.chunked.reverse.find? (·.name = name) with
  | some e => some (e.whole objects)
  | none => (objects.get (.artifact name)).map (·.data)

/-- The uploads are as the manifest declares them. -/
structure Uploaded (cfg : Config) (m : UploadManifest) (objects : Table Object) : Prop where
  kernel : m.entries.any (·.name = .kernel) = true
  chunks : ∀ e ∈ m.entries, ∀ part ∈ e.parts, ∃ x, objects.get part.1 = some x ∧ chunkOk cfg part.2 x.data = true
  artifacts : ∀ e ∈ m.byName, ∃ data, m.contents objects e.name = some data ∧ artifactOk cfg e data = true

/-- What the checks over all artifacts are given. -/
def UploadManifest.inspected (m : UploadManifest) (objects : Table Object) (name : ArtifactName) : Option Bytes :=
  (m.keyOf name).bind fun _ => m.contents objects name

/-- The runs in question, from uploads `objects` under a manifest `m`: the declared build ids are right, the
    window stays open, the store answers, and nobody fails while deleting chunks. A finalization is committed
    only while no other call has found no result and has not got hold of the manifest yet. -/
def State.undisturbed (cfg : Config) (m : UploadManifest) (objects : Table Object) (s : State) : Move → Bool
  | .calls buildId _ => (cfg.inspect buildId (m.inspected objects)).isOk
  | .wait d => s.db.manifest.all (s.clock + d ≤ ·.deadline)
  | .call _ (.storeFails _) | .reaps | .reaper _ _ => false
  | .call i (.faults done) => s.carries (.call i (.faults done))
  | .call i .proceeds => s.calls[i]?.all fun c => match c.stage with
    | .closing _ => !c.finalizes || s.calls.all (!·.uncertain)
    | _ => true

/-! ## A call that is on its course -/

def Write.result? : Write → Option BuildStepResult
  | finalize _ r => some r
  | _ => none

def Call.Records (c : Call) (response : Response) : Prop :=
  ∃ r, c.log.filterMap Write.result? = [r] ∧ response = State.envelope r

def Recorded (db : Rows) (response : Response) : Prop :=
  ∃ r, db.result = some r ∧ response = State.envelope r

section
variable (cfg : Config) (m : UploadManifest) (o : Table Object)

def AsDeclared (objects : Table Object) (name : ArtifactName) : Prop :=
  (objects.get (.artifact name)).map (·.data) = m.contents o name

/-- Validation goes through: the objects are as declared, and with chunks they are put together under the
    lock. -/
structure Call.Validates (db : Rows) (objects : Table Object) (c : Call) (m' : UploadManifest) : Prop where
  entries : m'.entries = m.entries
  declared : ∀ name, AsDeclared m o objects name
  log : c.log.filterMap Write.result? = []
  chunked : m.hasChunks = true → db.state = .created ∧ c.locked = true
  single : m.hasChunks = false → c.log = []

/-- What a call in a stage has seen, has in its log and can rely on, where nothing disturbs. -/
def Stage.OnCourse (db : Rows) (objects : Table Object) (clock : Time) (c : Call) : Stage → Prop
  | reading => c.log = []
  | looking state => c.log = [] ∧ c.start ≤ clock ∧ (state = .created ∨ db.result.isSome)
  | fetching => c.log = [] ∧ c.start ≤ clock ∧ db.state = .created
  | refreshing m' => c.log = [] ∧ c.start ≤ clock ∧ db.state = .created ∧ m'.entries = m.entries ∧
      m.hasChunks = true
  | reassembling m' left => db.state = .created ∧ c.locked = true ∧
      c.log.filterMap Write.result? = [] ∧ m'.entries = m.entries ∧ m.hasChunks = true ∧
      (∃ before, m.chunked = before ++ left) ∧
      ∀ name, (∀ e ∈ left, e.name ≠ name) → AsDeclared m o objects name
  | validating m' left => c.Validates m o db objects m' ∧ ∀ e ∈ left, e ∈ m.byName
  | inspecting m' | finalizing m' _ => c.Validates m o db objects m'
  | cleaning _ response | dropping response => db.state = .created ∧ c.Records response
  | closing response =>
      (db.state = .created ∧ c.Records response) ∨ (c.log = [] ∧ Recorded db response)
  | returned response => Recorded db response
  | raised => True

structure Call.OnCourse (s : State) (c : Call) : Prop where
  stage : c.stage.OnCourse m o s.db s.objects s.clock c
  accepted : (cfg.inspect c.buildId (m.inspected o)).isOk = true
  /-- Nobody has won before they have returned. -/
  won : c.won = true → ∃ response, c.stage = .returned response

/-- The invariant of calls that complete one upload and are disturbed by nothing: while the Run is `created` its manifest
    is as it was declared and nobody has won; once it has succeeded its result is there, and exactly one has. -/
structure OnCourse (s : State) : Prop where
  reapers : s.reapers = []
  created : s.db.state = .created → s.db.result = none ∧
    ∃ m', s.db.manifest = some m' ∧ m'.entries = m.entries ∧ s.clock ≤ m'.deadline
  done : s.db.state ≠ .created → s.db.state = .succeeded ∧ s.db.result.isSome
  plain : ∀ name, (∀ e ∈ m.chunked, e.name ≠ name) → s.objects.get (.artifact name) = o.get (.artifact name)
  chunks : s.db.state = .created → (∀ c ∈ s.calls, c.removed = []) →
    ∀ name part, s.objects.get (.chunk name part) = o.get (.chunk name part)
  calls : ∀ (i : Nat) (c : Call), s.calls[i]? = some c → c.OnCourse cfg m o s
  none : s.db.state = .created → ∀ c ∈ s.calls, c.won = false
  one : s.db.state = .succeeded → ∃ i c, s.calls[i]? = some c ∧ c.won = true ∧
    ∀ (j : Nat) (d : Call), s.calls[j]? = some d → d.won = true → j = i
end

/-! ## What a transaction records -/

theorem foldl_of_no_result {log : List Write} (h : log.filterMap result? = []) (db : Rows) :
    (log.foldl apply db).state = db.state ∧ (log.foldl apply db).result = db.result := by
  induction log generalizing db with
  | nil => exact ⟨rfl, rfl⟩
  | cons w log ih =>
    cases w with
    | finalize => cases h
    | refresh | deleteManifest => exact ih h _

theorem foldl_of_result {log : List Write} {r : BuildStepResult}
    (h : log.filterMap result? = [r]) {db : Rows} (hstate : db.state = .created) (hresult : db.result = none) :
    (log.foldl apply db).state = .succeeded ∧ (log.foldl apply db).result = some r := by
  induction log generalizing db with
  | nil => cases h
  | cons w log ih =>
    cases w with
    | refresh | deleteManifest => exact ih h hstate hresult
    | finalize artifacts r' =>
      obtain ⟨rfl, hrest⟩ : r' = r ∧ log.filterMap result? = [] := by
        simpa [result?] using h
      obtain ⟨hs, hr⟩ := foldl_of_no_result hrest (apply db (.finalize artifacts r'))
      rw [foldl_cons, hs, hr]
      unfold apply
      simp only [hstate, hresult]
      exact ⟨rfl, rfl⟩

theorem finalizes_iff {c : Call} : c.finalizes = true ↔ c.log.filterMap result? ≠ [] := by
  unfold finalizes
  induction c.log with
  | nil => simp
  | cons w => cases w <;> simp_all [isFinalize, result?]

/-! ## Putting chunks together -/

section
variable {cfg : Config} {m : UploadManifest} {o : Table Object} {s : State} {e : ManifestEntry}

theorem part_isChunk {part : ObjectKey × ChunkEntry} (h : part ∈ e.parts) : ∃ n, part.1 = .chunk e.name n := by
  obtain ⟨x, -, rfl⟩ := mem_map.mp h
  exact ⟨_, rfl⟩

theorem reassembled_ok (hup : Uploaded cfg m o) (he : e ∈ m.entries)
    (hsame : ∀ name part, s.objects.get (.chunk name part) = o.get (.chunk name part)) :
    s.reassembled cfg e = .ok (e.whole o) := by
  have hparts : e.parts.mapM (s.verifyChunk cfg) = .ok (e.parts.map fun part => (o.get part.1).elim [] (·.data)) := by
    refine mapM_ok fun part hpart => ?_
    obtain ⟨x, hx, hok⟩ := hup.chunks e he part hpart
    obtain ⟨n, hn⟩ := part_isChunk hpart
    have hdata : s.data part.1 = some x.data := by
      rw [data, hn, hsame, ← hn, hx]
      rfl
    simp only [verifyChunk, hdata, hok, hx, if_true, elim_some]
  rw [reassembled, hparts]
  rfl

theorem contents_of_plain {name : ArtifactName} (h : ∀ e ∈ m.chunked, e.name ≠ name) :
    m.contents o name = (o.get (.artifact name)).map (·.data) := by
  have hnone : m.chunked.reverse.find? (·.name = name) = none := by
    rw [find?_eq_none]
    intro e he
    simpa using h e (mem_reverse.mp he)
  rw [contents, hnone]

variable {before left : List ManifestEntry}

section
variable (hsplit : m.chunked = before ++ e :: left)
include hsplit

theorem contents_of_last (h : ∀ e' ∈ left, e'.name ≠ e.name) : m.contents o e.name = some (e.whole o) := by
  have hnone : left.reverse.find? (·.name = e.name) = none := by
    rw [find?_eq_none]
    intro e' he'
    simpa using h e' (mem_reverse.mp he')
  have hfind : m.chunked.reverse.find? (·.name = e.name) = some e := by
    rw [hsplit, reverse_append, reverse_cons, append_assoc, find?_append, hnone]
    simp
  rw [contents, hfind]

theorem mem_entries_of_split : e ∈ m.entries ∧ e ∈ m.chunked := by
  have hmem : e ∈ m.chunked := by
    rw [hsplit]
    exact mem_append_right _ mem_cons_self
  exact ⟨(mem_filter.mp hmem).1, hmem⟩

theorem asDeclared_stores (h : ∀ name, (∀ e' ∈ e :: left, e'.name ≠ name) → AsDeclared m o s.objects name)
    {name : ArtifactName} (hname : ∀ e' ∈ left, e'.name ≠ name) :
    AsDeclared m o (s.stores (.artifact e.name) (e.whole o)).objects name := by
  rw [AsDeclared, get_stores]
  rcases eq_or_ne e.name name with rfl | hn
  · rw [contents_of_last hsplit hname, if_pos rfl]
    rfl
  · rw [if_neg fun heq => hn (ObjectKey.artifact.inj heq)]
    exact h name fun e' he' => (mem_cons.mp he').elim (fun heq => heq ▸ hn) (hname e')
end

theorem hasChunks_iff : m.hasChunks = false ↔ m.chunked = [] := by
  unfold hasChunks chunked
  rw [List.any_eq_false, List.filter_eq_nil_iff]
end

/-! ## One call -/

section
variable {cfg : Config} {m : UploadManifest} {o : Table Object} {s s' : State} {i : Nat} {c c' d : Call}

theorem Stage.OnCourse.artifacts {db : Rows} {objects objects' : Table Object} {clock : Time}
    (hsame : ∀ name, objects'.get (.artifact name) = objects.get (.artifact name)) {stage : Stage}
    (h : stage.OnCourse m o db objects clock d) : stage.OnCourse m o db objects' clock d := by
  have hdecl : ∀ {name}, AsDeclared m o objects name → AsDeclared m o objects' name := by
    intro name hd
    rwa [AsDeclared, hsame]
  cases stage with
  | reassembling =>
    obtain ⟨hst, hl, hlog, hm, hch, hsplit, hall⟩ := h
    exact ⟨hst, hl, hlog, hm, hch, hsplit, fun name hn => hdecl (hall name hn)⟩
  | validating => exact ⟨{ h.1 with declared := fun name => hdecl (h.1.declared name) }, h.2⟩
  | inspecting | finalizing => exact { h with declared := fun name => hdecl (h.declared name) }
  | _ => exact h

/-- While another call puts chunks together, a call without the lock looks at no artifact. -/
theorem Stage.OnCourse.unlocked {db : Rows} {objects objects' : Table Object} {clock : Time}
    (hlock : d.locked = false) (hch : m.hasChunks = true) {stage : Stage}
    (h : stage.OnCourse m o db objects clock d) : stage.OnCourse m o db objects' clock d := by
  have habsurd : ∀ {m'}, d.Validates m o db objects m' → False := by
    intro m' hv
    rw [(hv.chunked hch).2] at hlock
    cases hlock
  cases stage with
  | reassembling =>
    rw [h.2.1] at hlock
    cases hlock
  | validating => exact (habsurd h.1).elim
  | inspecting | finalizing => exact (habsurd h).elim
  | _ => exact h

theorem OnCourse.set (h : OnCourse cfg m o s) (hi : s.calls[i]? = some c) (hc : c'.OnCourse cfg m o s')
    (hwon : c'.won = c.won) (hdb : s'.db = s.db) (hclock : s'.clock = s.clock)
    (hreapers : s'.reapers = s.reapers) (hcalls : s'.calls = s.calls.set i c')
    (hplain : ∀ name, (∀ e ∈ m.chunked, e.name ≠ name) →
      s'.objects.get (.artifact name) = s.objects.get (.artifact name)) (hchunks : c'.removed = [] → c.removed = [] ∧
      ∀ name part, s'.objects.get (.chunk name part) = s.objects.get (.chunk name part))
    (hothers : ∀ (j : Nat) (d : Call), i ≠ j → s.calls[j]? = some d → d.OnCourse cfg m o s →
      d.OnCourse cfg m o s') : OnCourse cfg m o s' := by
  have hlt : i < s.calls.length := (List.getElem?_eq_some_iff.mp hi).1
  have hself : (s.calls.set i c')[i]? = some c' := by
    rw [getElem?_set_self hlt]
  refine ⟨hreapers.trans h.reapers, by rw [hdb, hclock]; exact h.created, by rw [hdb]; exact h.done,
    fun name hn => (hplain name hn).trans (h.plain name hn), ?_, ?_, ?_, ?_⟩
  · rw [hdb, hcalls]
    intro hst hall name part
    obtain ⟨hrem, hsame⟩ := hchunks (hall c' (mem_of_getElem? hself))
    refine (hsame name part).trans (h.chunks hst ?_ name part)
    intro d hd
    obtain ⟨j, hj⟩ := getElem?_of_mem hd
    rcases eq_or_ne i j with rfl | hij
    · rw [hi, some.injEq] at hj
      exact hj ▸ hrem
    · exact hall d (mem_of_getElem? ((getElem?_set_ne hij).trans hj))
  · intro j d hd
    rw [hcalls] at hd
    rcases getElem?_set_cases hd with ⟨-, rfl⟩ | ⟨hij, hd⟩
    · exact hc
    · exact hothers j d hij hd (h.calls j d hd)
  · rw [hdb, hcalls]
    intro hst d hd
    rcases mem_or_eq_of_mem_set hd with hd | rfl
    · exact h.none hst d hd
    · rw [hwon]
      exact h.none hst c (mem_of_getElem? hi)
  · rw [hdb, hcalls]
    intro hst
    obtain ⟨k, w, hk, hw, honly⟩ := h.one hst
    have honly' : ∀ (j : Nat) (d : Call), (s.calls.set i c')[j]? = some d → d.won = true → j = k := by
      intro j d hd hdw
      rcases getElem?_set_cases hd with ⟨rfl, rfl⟩ | ⟨-, hd⟩
      · exact honly _ c hi (hwon ▸ hdw)
      · exact honly j d hd hdw
    rcases eq_or_ne i k with rfl | hik
    · rw [hi, some.injEq] at hk
      exact ⟨i, c', hself, by rw [hwon, hk, hw], honly'⟩
    · exact ⟨k, w, (getElem?_set_ne hik).trans hk, hw, honly'⟩

theorem OnCourse.put (h : OnCourse cfg m o s) (hi : s.calls[i]? = some c)
    (hstage : c'.stage.OnCourse m o s.db s.objects s.clock c') (hid : c'.buildId = c.buildId)
    (hwon : c'.won = c.won) (hnot : ∀ r, c.stage ≠ .returned r) (hrem : c'.removed = c.removed) :
    OnCourse cfg m o (s.put i c') := by
  have hc := h.calls i c hi
  refine h.set hi ⟨hstage, by rw [hid]; exact hc.accepted, fun hw => ?_⟩ hwon rfl rfl rfl rfl
    (fun _ _ => rfl) (fun hr => ⟨hrem ▸ hr, fun _ _ => rfl⟩)
    fun _ _ _ _ hd => ⟨hd.stage, hd.accepted, hd.won⟩
  obtain ⟨r, hr⟩ := hc.won (hwon ▸ hw)
  exact absurd hr (hnot r)

theorem Safe.none_removed (hsafe : Safe s) (hset : Settled s)
    (hi : s.calls[i]? = some c) (hlock : c.locked = true) (hrem : c.removed = [])
    (hst : s.db.state = .created) : ∀ d ∈ s.calls, d.removed = [] := by
  intro d hd
  obtain ⟨j, hj⟩ := getElem?_of_mem hd
  rcases eq_or_ne j i with rfl | hij
  · rw [hi, some.injEq] at hj
    rw [← hj, hrem]
  · -- what it would have deleted is for a finalization that holds the lock, or is durable
    have hfree := (taken_eq_false.mp (hsafe.alone i c hi hlock)).1 j d hj hij
    have hlog : d.finalizes = true → False := by
      intro hf
      have hne : d.log ≠ [] := by
        intro hnil
        rw [finalizes, hnil] at hf
        cases hf
      rw [(hsafe.calls j d hj).locked (.inl hne)] at hfree
      cases hfree
    have hsettles := (hset.calls j d hj).stage
    revert hsettles
    cases d.stage with
    | cleaning | dropping => exact fun hs => (hlog hs).elim
    | closing => exact fun hs => by_contra fun hr => hlog (hs hr)
    | returned =>
      refine fun hs => by_contra fun hr => ?_
      have hsucc := (hs hr).state
      cases hst.symm.trans hsucc
    | validating | inspecting | finalizing => exact fun hs => hs.2
    | _ => exact fun hs => hs

theorem validation_onCourse (hup : Uploaded cfg m o) {db : Rows} {objects : Table Object} {clock : Time}
    {m' : UploadManifest} (hv : c.Validates m o db objects m') :
    (validation m').OnCourse m o db objects clock { c with stage := validation m' } := by
  obtain ⟨entries, deadline⟩ := m'
  obtain rfl : entries = m.entries := hv.entries
  rw [validation, if_pos hup.kernel]
  exact ⟨⟨rfl, hv.declared, hv.log, hv.chunked, hv.single⟩, fun e he => he⟩

theorem OnCourse.finalize (h : OnCourse cfg m o s) (hi : s.calls[i]? = some c) {m' : UploadManifest}
    {buildId : String} (hstage : c.stage = .finalizing m' buildId) : OnCourse cfg m o (s.finalize i c m' buildId) := by
  have hnot : ∀ r, c.stage ≠ .returned r := by
    rw [hstage]
    exact nofun
  have hv := (h.calls i c hi).stage
  rw [hstage] at hv
  have hrecords : ∀ {artifacts r ws}, ws.filterMap result? = [] →
      (c.log ++ (Write.finalize artifacts r :: ws)).filterMap Write.result? = [r] := by
    intro artifacts r ws hws
    rw [filterMap_append, hv.log]
    simp [result?, hws]
  unfold State.finalize
  split
  · rename_i hst
    -- another call has won in the meantime
    have hsingle : m.hasChunks = false := by
      by_contra hch
      have hcreated := (hv.chunked (by simpa using hch)).1
      cases hst.symm.trans hcreated
    obtain ⟨r, hr⟩ := isSome_iff_exists.mp (h.done (by rw [hst]; decide)).2
    rw [hr]
    exact h.put hi (.inr ⟨hv.single hsingle, r, hr, rfl⟩) rfl rfl hnot rfl
  · rename_i hst
    split
    · exact h.put hi ⟨hst, _, hrecords rfl, rfl⟩ rfl rfl hnot rfl
    · exact h.put hi (.inl ⟨hst, _, hrecords rfl, rfl⟩) rfl rfl hnot rfl
  · rename_i hsucc hcreated
    exact absurd (h.done fun hst => hcreated hst).1 hsucc

theorem OnCourse.closes (h : OnCourse cfg m o s) (hi : s.calls[i]? = some c) {response : Response}
    (hstage : c.stage = .closing response) (hlog : c.log = []) (hrec : Recorded s.db response) :
    OnCourse cfg m o (s.commits i c response) := by
  have hc := h.calls i c hi
  have hdb : (s.commits i c response).db = s.db := by rw [commits, hlog]; rfl
  have hfin : c.finalizes = false := by rw [finalizes, hlog]; rfl
  have hwon : c.won = false := by
    by_contra hw
    obtain ⟨r, hr⟩ := hc.won (by simpa using hw)
    rw [hstage] at hr
    cases hr
  have hreturned : ({ c with
      stage := .returned response, log := [], locked := false, won := c.finalizes } : Call).OnCourse cfg m o
      (s.commits i c response) := by
    refine ⟨?_, hc.accepted, fun _ => ⟨response, rfl⟩⟩
    rwa [hdb]
  refine h.set hi hreturned (hfin.trans hwon.symm) hdb rfl rfl rfl
    (fun _ _ => rfl) (fun hr => ⟨hr, fun _ _ => rfl⟩) fun _ _ _ _ hd => ⟨?_, hd.accepted, hd.won⟩
  have hst := hd.stage
  rwa [← hdb] at hst

theorem OnCourse.wins (h : OnCourse cfg m o s) (hsafe : Safe s) (hi : s.calls[i]? = some c)
    {response : Response} (hstage : c.stage = .closing response) (hst : s.db.state = .created)
    (hrec : c.Records response) (hcertain : s.calls.all (!·.uncertain) = true) :
    OnCourse cfg m o (s.commits i c response) := by
  obtain ⟨r, hlog, rfl⟩ := hrec
  obtain ⟨hresult, -⟩ := h.created hst
  obtain ⟨hstate', hresult'⟩ := foldl_of_result hlog hst hresult
  have hlt : i < s.calls.length := (List.getElem?_eq_some_iff.mp hi).1
  have hfin : c.finalizes = true := finalizes_iff.mpr (by rw [hlog]; exact nofun)
  have hlocked : c.locked = true := by
    refine (hsafe.calls i c hi).locked (.inl fun hnil => ?_)
    rw [hnil] at hlog
    cases hlog
  have hothers : ∀ (j : Nat) (d : Call), i ≠ j → s.calls[j]? = some d →
      d.OnCourse cfg m o (s.commits i c (envelope r)) := by
    intro j d hij hd
    have hdf := h.calls j d hd
    have hfree := (taken_eq_false.mp (hsafe.alone i c hi hlocked)).1 j d hd hij.symm
    have hunlogged : d.log = [] := by
      by_contra hne
      rw [(hsafe.calls j d hd).locked (.inl hne)] at hfree
      cases hfree
    have hunrecorded : ∀ {response}, ¬ Recorded s.db response := by
      rintro response ⟨r', hr', -⟩
      rw [hresult] at hr'
      cases hr'
    have hnorecords : ∀ {response}, ¬ d.Records response := by
      rintro response ⟨r', hr', -⟩
      rw [hunlogged] at hr'
      cases hr'
    have hvalidates : ∀ {m'}, d.Validates m o s.db s.objects m' →
        d.Validates m o (c.log.foldl apply s.db) s.objects m' := by
      intro m' hv
      refine ⟨hv.entries, hv.declared, hv.log, fun hch => ?_, hv.single⟩
      rw [(hv.chunked hch).2] at hfree
      cases hfree
    refine ⟨?_, hdf.accepted, hdf.won⟩
    have hsure : d.uncertain = false := by
      simpa using all_eq_true.mp hcertain d (mem_of_getElem? hd)
    rw [uncertain] at hsure
    have hds := hdf.stage
    show d.stage.OnCourse m o (c.log.foldl apply s.db) s.objects s.clock d
    revert hsure hds
    cases d.stage with
    | reading => exact fun _ hds => hds
    | looking => exact fun _ hds => ⟨hds.1, hds.2.1, .inr (by rw [hresult']; rfl)⟩
    | fetching | refreshing => exact nofun
    | reassembling =>
      intro _ hds
      rw [hds.2.1] at hfree
      cases hfree
    | validating => exact fun _ hds => ⟨hvalidates hds.1, hds.2⟩
    | inspecting | finalizing => exact fun _ hds => hvalidates hds
    | cleaning | dropping => exact fun _ hds => (hnorecords hds.2).elim
    | closing =>
      exact fun _ hds => hds.elim (fun hr => (hnorecords hr.2).elim) fun hr => (hunrecorded hr.2).elim
    | returned => exact fun _ hds => (hunrecorded hds).elim
    | raised => exact fun _ _ => trivial
  refine ⟨h.reapers, ?_, fun _ => ⟨hstate', by show (c.log.foldl apply s.db).result.isSome = true
                                               rw [hresult']; rfl⟩, h.plain, ?_, ?_, ?_, ?_⟩
  · intro hcreated
    cases hstate'.symm.trans hcreated
  · intro hcreated
    cases hstate'.symm.trans hcreated
  · intro j d hd
    rcases getElem?_set_cases hd with ⟨-, rfl⟩ | ⟨hij, hd⟩
    · exact ⟨⟨r, hresult', rfl⟩, (h.calls i c hi).accepted, fun _ => ⟨_, rfl⟩⟩
    · exact hothers j d hij hd
  · intro hcreated
    cases hstate'.symm.trans hcreated
  · intro _
    refine ⟨i, _, getElem?_set_self hlt, hfin, fun j d hd hw => ?_⟩
    rcases getElem?_set_cases hd with ⟨rfl, -⟩ | ⟨-, hd⟩
    · rfl
    · rw [h.none hst d (mem_of_getElem? hd)] at hw
      cases hw

/-! ### One stage after the other -/

section
variable (h : OnCourse cfg m o s) (hi : s.calls[i]? = some c)
include h hi

theorem OnCourse.at_stage {stage : Stage} (hst : c.stage = stage) : stage.OnCourse m o s.db s.objects s.clock c :=
  hst ▸ (h.calls i c hi).stage

theorem OnCourse.reads (hst : c.stage = .reading) (hs : s.proceed cfg i c = some s') : OnCourse cfg m o s' := by
  have hlog := h.at_stage hi hst
  simp only [State.proceed, hst] at hs
  cases hs
  refine h.put hi ⟨hlog, le_refl _, ?_⟩ rfl rfl (by rw [hst]; nofun) rfl
  by_cases hcreated : s.db.state = .created
  · exact .inl hcreated
  · exact .inr (h.done hcreated).2

theorem OnCourse.looks {state : RunState} (hst : c.stage = .looking state) (hs : s.proceed cfg i c = some s') :
    OnCourse cfg m o s' := by
  obtain ⟨hlog, hstart, hstate⟩ := h.at_stage hi hst
  simp only [State.proceed, hst] at hs
  split at hs
  · rename_i r hr
    cases hs
    exact h.put hi (.inr ⟨hlog, r, hr, rfl⟩) rfl rfl (by rw [hst]; nofun) rfl
  · rename_i hr
    have hcreated : s.db.state = .created := by
      by_contra hne
      have hsome := (h.done hne).2
      rw [hr] at hsome
      cases hsome
    split at hs
    · cases hs
      exact h.put hi ⟨hlog, hstart, hcreated⟩ rfl rfl (by rw [hst]; nofun) rfl
    · rename_i hne
      rw [hr] at hstate
      exact (hstate.elim hne (by rintro ⟨⟩)).elim

theorem OnCourse.fetches (hup : Uploaded cfg m o) (hst : c.stage = .fetching) (hs : s.proceed cfg i c = some s') :
    OnCourse cfg m o s' := by
  obtain ⟨hlog, hstart, hcreated⟩ := h.at_stage hi hst
  obtain ⟨-, m', hm', hentries, -⟩ := h.created hcreated
  have hsame : m'.hasChunks = m.hasChunks := by
    unfold hasChunks
    rw [hentries]
  simp only [State.proceed, hst, hm'] at hs
  split at hs
  · rename_i hch
    cases hs
    exact h.put hi ⟨hlog, hstart, hcreated, hentries, hsame ▸ hch⟩ rfl rfl (by rw [hst]; nofun) rfl
  · rename_i hch
    cases hs
    have hsingle : m.hasChunks = false := by simpa [hsame] using hch
    have hplain : ∀ name, AsDeclared m o s.objects name := by
      intro name
      have hnone : ∀ e ∈ m.chunked, e.name ≠ name := by
        rw [hasChunks_iff.mp hsingle]
        exact fun _ he => (not_mem_nil he).elim
      rw [AsDeclared, h.plain name hnone, contents_of_plain hnone]
    refine h.put hi (validation_onCourse hup ⟨hentries, hplain, by rw [hlog]; rfl, ?_, fun _ => hlog⟩) rfl rfl
      (by rw [hst]; nofun) rfl
    rw [hsingle]
    rintro ⟨⟩

theorem OnCourse.refreshes {m' : UploadManifest} (hst : c.stage = .refreshing m') (hs : s.proceed cfg i c = some s') :
    OnCourse cfg m o s' := by
  obtain ⟨hlog, hstart, hcreated, hentries, hch⟩ := h.at_stage hi hst
  obtain ⟨-, current, hcurrent, -, hopen⟩ := h.created hcreated
  simp only [State.proceed, hst, hcurrent] at hs
  split at hs
  · cases hs
  · rw [if_neg (not_lt.mpr (hstart.trans hopen))] at hs
    cases hs
    refine h.put hi ⟨hcreated, rfl, by simp [hlog, result?], hentries, hch, ⟨[], ?_⟩, ?_⟩ rfl rfl
      (by rw [hst]; nofun) rfl
    · rw [nil_append, chunked, hentries]
    · intro name hname
      rw [hentries] at hname
      rw [AsDeclared, h.plain name hname, contents_of_plain hname]

theorem OnCourse.reassembles (hup : Uploaded cfg m o) {m' : UploadManifest} (hst : c.stage = .reassembling m' [])
    (hs : s.proceed cfg i c = some s') : OnCourse cfg m o s' := by
  obtain ⟨hcreated, hlock, hlog, hentries, hch, -, hdecl⟩ := h.at_stage hi hst
  simp only [State.proceed, hst] at hs
  cases hs
  refine h.put hi (validation_onCourse hup ⟨hentries,
    fun name => hdecl name fun _ he => (not_mem_nil he).elim, hlog, fun _ => ⟨hcreated, hlock⟩, ?_⟩)
    rfl rfl (by rw [hst]; nofun) rfl
  rw [hch]
  rintro ⟨⟩

/-- Under the lock, nobody has removed a chunk: the whole is put together, and is as declared. -/
theorem OnCourse.reassembles_next (hup : Uploaded cfg m o) (hsafe : Safe s) (hset : Settled s) {m' : UploadManifest}
    {e : ManifestEntry} {left : List ManifestEntry} (hst : c.stage = .reassembling m' (e :: left))
    (hs : s.proceed cfg i c = some s') : OnCourse cfg m o s' := by
  have hc := h.calls i c hi
  have hsettles := (hset.calls i c hi).stage
  rw [hst] at hsettles
  obtain ⟨hcreated, hlock, hlog, hentries, hch, ⟨before, hsplit⟩, hdecl⟩ := h.at_stage hi hst
  have hremoved := hsafe.none_removed hset hi hlock hsettles hcreated
  obtain ⟨he, hchunked⟩ := mem_entries_of_split hsplit
  simp only [State.proceed, hst, reassembled_ok hup he (h.chunks hcreated hremoved)] at hs
  cases hs
  have hrest : ∀ name, (∀ e' ∈ left, e'.name ≠ name) →
      AsDeclared m o (s.stores (.artifact e.name) (e.whole o)).objects name :=
    fun name hname => asDeclared_stores hsplit hdecl hname
  have hnext : ({ c with stage := .reassembling m' left } : Call).OnCourse cfg m o
      (s.stores (.artifact e.name) (e.whole o)) := by
    refine ⟨⟨hcreated, hlock, hlog, hentries, hch, ⟨before ++ [e], ?_⟩, hrest⟩, hc.accepted, fun hw => ?_⟩
    · rw [hsplit, append_assoc]
      rfl
    · obtain ⟨r, hr⟩ := hc.won hw
      cases hst.symm.trans hr
  refine h.set hi (Call.OnCourse.mk hnext.stage hnext.accepted hnext.won) rfl rfl rfl rfl rfl ?_ ?_ ?_
  · intro name hname
    show (s.stores (.artifact e.name) (e.whole o)).objects.get _ = _
    rw [get_stores, if_neg fun heq => hname e hchunked (ObjectKey.artifact.inj heq)]
  · refine fun hr => ⟨hr, fun name part => ?_⟩
    show (s.stores (.artifact e.name) (e.whole o)).objects.get _ = _
    rw [get_stores, if_neg (by rintro ⟨⟩)]
  · intro j d hij hd hdf
    have hfree := (taken_eq_false.mp (hsafe.alone i c hi hlock)).1 j d hd hij.symm
    exact ⟨hdf.stage.unlocked hfree hch, hdf.accepted, hdf.won⟩

theorem OnCourse.validates (hup : Uploaded cfg m o) {m' : UploadManifest} {left : List ManifestEntry}
    (hst : c.stage = .validating m' left) (hs : s.proceed cfg i c = some s') : OnCourse cfg m o s' := by
  obtain ⟨hv, hleft⟩ := h.at_stage hi hst
  have hnext : ∀ stage, ({ c with stage } : Call).Validates m o s.db s.objects m' := fun _ =>
    ⟨hv.entries, hv.declared, hv.log, hv.chunked, hv.single⟩
  cases left with
  | nil =>
    simp only [State.proceed, hst] at hs
    cases hs
    exact h.put hi (hnext _) rfl rfl (by rw [hst]; nofun) rfl
  | cons e left =>
    obtain ⟨data, hcontents, hvalid⟩ := hup.artifacts e (hleft e mem_cons_self)
    have hdata : s.data (.artifact e.name) = some data := (hv.declared e.name).trans hcontents
    simp only [State.proceed, hst, hdata, hvalid, if_true] at hs
    cases hs
    exact h.put hi ⟨hnext _, fun e' he' => hleft e' (mem_cons_of_mem _ he')⟩ rfl rfl (by rw [hst]; nofun) rfl

/-- What is inspected is what has been declared, which passes. -/
theorem OnCourse.inspects {m' : UploadManifest} (hst : c.stage = .inspecting m') (hs : s.proceed cfg i c = some s') :
    OnCourse cfg m o s' := by
  have hc := h.calls i c hi
  have hcourse := h.at_stage hi hst
  have hgiven : (fun name => (m'.keyOf name).bind s.data) = m.inspected o := by
    funext name
    have hkey : m'.keyOf name = m.keyOf name := by
      unfold keyOf
      rw [hcourse.entries]
    rw [hkey, inspected]
    unfold keyOf
    split
    · exact hcourse.declared name
    · rfl
  have haccepted := hc.accepted
  simp only [State.proceed, hst, hgiven] at hs
  split at hs
  · rename_i message herr
    rw [herr] at haccepted
    cases haccepted
  · cases hs
    exact h.put hi ⟨hcourse.entries, hcourse.declared, hcourse.log, hcourse.chunked, hcourse.single⟩ rfl rfl
      (by rw [hst]; nofun) rfl

/-- Cleaning removes chunks only. -/
theorem OnCourse.cleans (hsafe : Safe s) {keys : List ObjectKey} {response : Response}
    (hst : c.stage = .cleaning keys response) (hs : s.proceed cfg i c = some s') : OnCourse cfg m o s' := by
  have hc := h.calls i c hi
  have hcourse := h.at_stage hi hst
  cases keys with
  | nil =>
    simp only [State.proceed, hst] at hs
    cases hs
    exact h.put hi hcourse rfl rfl (by rw [hst]; nofun) rfl
  | cons key keys =>
    simp only [State.proceed, hst] at hs
    cases hs
    have hkey : key.isChunk = true := by
      have hb := (hsafe.calls i c hi).stage
      rw [hst] at hb
      exact hb key mem_cons_self
    have hartifacts : ∀ name, (s.deletes key).objects.get (.artifact name) = s.objects.get (.artifact name) := by
      intro name
      rw [deletes, Table.get_erase, if_neg]
      rintro rfl
      cases hkey
    have hnext : ({ c with stage := .cleaning keys response, removed := key :: c.removed } : Call).OnCourse
        cfg m o (s.deletes key) := by
      refine ⟨hcourse, hc.accepted, fun hw => ?_⟩
      obtain ⟨r, hr⟩ := hc.won hw
      cases hst.symm.trans hr
    exact h.set hi (Call.OnCourse.mk hnext.stage hnext.accepted hnext.won) rfl rfl rfl rfl rfl
      (fun name _ => hartifacts name) (fun hr => by cases hr)
      fun j d _ hd hdf => ⟨hdf.stage.artifacts hartifacts, hdf.accepted, hdf.won⟩

theorem OnCourse.drops {response : Response} (hst : c.stage = .dropping response) (hs : s.proceed cfg i c = some s') :
    OnCourse cfg m o s' := by
  obtain ⟨hcreated, r, hlog, hresp⟩ := h.at_stage hi hst
  simp only [State.proceed, hst] at hs
  cases hs
  refine h.put hi (.inl ⟨hcreated, r, ?_, hresp⟩) rfl rfl (by rw [hst]; nofun) rfl
  rw [filterMap_append, hlog]
  rfl
end

theorem OnCourse.proceed (hup : Uploaded cfg m o) (h : OnCourse cfg m o s) (hsafe : Safe s)
    (hset : Settled s) (hi : s.calls[i]? = some c)
    (hok : s.undisturbed cfg m o (.call i .proceeds) = true) (hs : s.proceed cfg i c = some s') : OnCourse cfg m o s' := by
  cases hst : c.stage with
  | reading => exact h.reads hi hst hs
  | looking => exact h.looks hi hst hs
  | fetching => exact h.fetches hi hup hst hs
  | refreshing => exact h.refreshes hi hst hs
  | reassembling m' left =>
    cases left with
    | nil => exact h.reassembles hi hup hst hs
    | cons => exact h.reassembles_next hi hup hsafe hset hst hs
  | validating => exact h.validates hi hup hst hs
  | inspecting => exact h.inspects hi hst hs
  | finalizing =>
    simp only [State.proceed, hst] at hs
    split at hs
    · cases hs
    · cases hs
      exact h.finalize hi hst
  | cleaning => exact h.cleans hi hsafe hst hs
  | dropping => exact h.drops hi hst hs
  | closing =>
    simp only [State.proceed, hst] at hs
    cases hs
    rcases h.at_stage hi hst with ⟨hcreated, hrec⟩ | ⟨hlog, hrec⟩
    · refine h.wins hsafe hi hst hcreated hrec ?_
      obtain ⟨r, hlog, -⟩ := hrec
      have hfin : c.finalizes = true := finalizes_iff.mpr (by rw [hlog]; rintro ⟨⟩)
      rw [undisturbed, hi] at hok
      simpa [hst, hfin] using hok
    · exact h.closes hi hst hlog hrec
  | returned | raised =>
    simp only [State.proceed, hst] at hs
    cases hs

theorem OnCourse.step (hup : Uploaded cfg m o) (h : OnCourse cfg m o s) (hsafe : Safe s) (hset : Settled s)
    {move : Move} (hok : s.undisturbed cfg m o move = true) (hs : s.step cfg move = some s') : OnCourse cfg m o s' := by
  cases move with
  | calls buildId cmdline =>
    cases hs
    have hnew : ({ buildId, cmdline } : Call).OnCourse cfg m o s := ⟨rfl, hok, (by rintro ⟨⟩)⟩
    refine ⟨h.reapers, h.created, h.done, h.plain, ?_, ?_, ?_, ?_⟩
    · exact fun hst hall => h.chunks hst fun c hc => hall c (mem_append_left _ hc)
    · intro i c hc
      rcases getElem?_concat_cases hc with hc | ⟨-, rfl⟩
      · exact ⟨(h.calls i c hc).stage, (h.calls i c hc).accepted, (h.calls i c hc).won⟩
      · exact ⟨hnew.stage, hnew.accepted, hnew.won⟩
    · intro hst c hc
      rcases mem_append.mp hc with hc | hc
      · exact h.none hst c hc
      · cases mem_singleton.mp hc
        rfl
    · intro hst
      obtain ⟨i, c, hc, hw, honly⟩ := h.one hst
      refine ⟨i, c, ?_, hw, fun j d hd hdw => ?_⟩
      · rwa [List.getElem?_append_left (List.getElem?_eq_some_iff.mp hc).1]
      · rcases getElem?_concat_cases hd with hd | ⟨-, rfl⟩
        · exact honly j d hd hdw
        · cases hdw
  | call i input =>
    obtain ⟨c, hi, hs⟩ := bind_eq_some_iff.mp hs
    cases input with
    | proceeds => exact h.proceed hup hsafe hset hi hok hs
    | storeFails => cases hok
    | faults done =>
      have hcarries : c.removed = [] ∧ (done = true → c.isCleaning = false) := by
        rw [undisturbed, carries, hi] at hok
        cases done <;> simpa using hok
      have hraised : (∀ r, c.stage ≠ .returned r) → OnCourse cfg m o (s.raises i c) :=
        fun hnot => h.put hi trivial rfl rfl hnot rfl
      simp only [callStep] at hs
      split at hs
      · cases hs
      · cases hs
      · rename_i hst
        split at hs
        · rename_i hdone
          have hclean := hcarries.2 hdone
          rw [isCleaning, hst] at hclean
          cases hclean
        · cases hs
          exact hraised (by rw [hst]; rintro _ ⟨⟩)
      · rename_i hreturned _ _
        cases hs
        exact hraised hreturned
  | reaps | reaper => cases hok
  | wait d =>
    cases hs
    have hlater : s.clock ≤ s.clock + (d : Time) := Int.le_add_of_nonneg_right (Int.natCast_nonneg d)
    refine ⟨h.reapers, ?_, h.done, h.plain, h.chunks, ?_, h.none, h.one⟩
    · intro hst
      obtain ⟨hresult, m', hm', hentries, -⟩ := h.created hst
      refine ⟨hresult, m', hm', hentries, ?_⟩
      simpa [undisturbed, hm'] using hok
    · intro i c hc
      have hcf := h.calls i c hc
      refine ⟨?_, hcf.accepted, hcf.won⟩
      have hstage := hcf.stage
      revert hstage
      cases c.stage with
      | looking | fetching | refreshing => exact fun hf => ⟨hf.1, hf.2.1.trans hlater, hf.2.2⟩
      | _ => exact id
end

/-! ## All calls -/

variable {m : UploadManifest}

theorem State.Init.onCourse {cfg : Config} {s : State} (h : s.Init)
    (hm : s.db.manifest = some m) (hopen : s.clock ≤ m.deadline) : OnCourse cfg m s.objects s where
  reapers := h.reapers
  created := fun _ => ⟨h.result, m, hm, rfl, hopen⟩
  done := fun hne => absurd h.created hne
  plain := fun _ _ => rfl
  chunks := fun _ _ _ _ => rfl
  calls := by
    intro i c hc
    rw [h.calls] at hc
    cases hc
  none := by
    intro _ c hc
    rw [h.calls] at hc
    cases hc
  one := by
    intro hst
    rw [h.created] at hst
    cases hst

theorem undisturbed_spares {cfg : Config} {o : Table Object} {s : State}
    {move : Move} (h : s.undisturbed cfg m o move = true) : s.spares move = true := by
  cases move with
  | reaper => cases h
  | _ => rfl

theorem undisturbed_carries {cfg : Config} {o : Table Object} {s : State}
    {move : Move} (h : s.undisturbed cfg m o move = true) : s.carries move = true := by
  cases move with
  | call i input =>
    cases input with
    | faults => exact h
    | _ => rfl
  | _ => rfl

structure Orderly (cfg : Config) (m : UploadManifest) (o : Table Object) (s : State) : Prop where
  safe : Safe s
  settled : Settled s
  onCourse : OnCourse cfg m o s

theorem Orderly.step {cfg : Config} {o : Table Object} {s s' : State} {move : Move}
    (hup : Uploaded cfg m o) (h : Orderly cfg m o s) (hok : s.undisturbed cfg m o move = true)
    (hs : s.step cfg move = some s') : Orderly cfg m o s' :=
  ⟨h.safe.step (undisturbed_spares hok) hs, h.settled.step (undisturbed_carries hok) hs,
    h.onCourse.step hup h.safe h.settled hok hs⟩

def OneWinner (calls : List Call) : Prop :=
  ∃ (i : Nat) (c : Call), calls[i]? = some c ∧ c.won = true ∧
    ∀ (j : Nat) (d : Call), calls[j]? = some d → d.won = true → j = i

/-- Of undisturbed calls one finalizes the Run, and all return its result. -/
theorem completions_agree {cfg : Config} {m : UploadManifest} {s₀ s : State} (hinit : s₀.Init)
    (hm : s₀.db.manifest = some m) (hopen : s₀.clock ≤ m.deadline) (hup : Uploaded cfg m s₀.objects)
    (h : (completion cfg).Leads (fun s move => s.undisturbed cfg m s₀.objects move = true) s₀ s) :
    ((s.db.state = .created ∧ ∀ c ∈ s.calls, c.won = false) ∨ (s.db.state = .succeeded ∧ OneWinner s.calls)) ∧
      ∀ c ∈ s.calls, ∀ response, c.stage = .returned response →
        s.db.state = .succeeded ∧ ∃ r, s.db.result = some r ∧ response = .success r.refs := by
  have hall : Orderly cfg m s₀.objects s := Machine.Leads.always (I := Orderly cfg m s₀.objects) h
    (fun _ _ _ hok hI hs => hI.step hup hok hs) ⟨hinit.safe, hinit.settled, hinit.onCourse hm hopen⟩
  obtain ⟨-, -, hcourse⟩ := hall
  refine ⟨?_, ?_⟩
  · by_cases hst : s.db.state = .created
    · exact .inl ⟨hst, hcourse.none hst⟩
    · have hsucc := (hcourse.done hst).1
      exact .inr ⟨hsucc, hcourse.one hsucc⟩
  · intro c hc response hstage
    obtain ⟨i, hi⟩ := getElem?_of_mem hc
    have hrec := (hcourse.calls i c hi).stage
    rw [hstage] at hrec
    obtain ⟨r, hr, hresp⟩ := hrec
    refine ⟨(hcourse.done fun hst => ?_).1, r, hr, hresp⟩
    rw [(hcourse.created hst).1] at hr
    cases hr

namespace Lab
theorem single_uploaded : Uploaded cfg ⟨[⟨.kernel, "digest", 1, none⟩], 5⟩ single.objects := by
  refine ⟨by decide, by decide, ?_⟩
  intro e he
  obtain rfl : e = ⟨.kernel, "digest", 1, none⟩ := by
    have hby : byName ⟨[⟨.kernel, "digest", 1, none⟩], 5⟩ = [⟨.kernel, "digest", 1, none⟩] := by decide
    rw [hby] at he
    exact mem_singleton.mp he
  exact ⟨[0], by decide, by decide⟩

/-- Two calls, the second one overtaken between its two reads. -/
def raced : State :=
  (completion cfg).runTo single ([.calls none "", .calls none ""] ++ go 1 2 ++ go 0 8 ++ go 1 2)

/-- Two calls, the second one overtaken before the lock. -/
def agreed : State :=
  (completion cfg).runTo single ([.calls none "", .calls none ""] ++ go 1 6 ++ go 0 8 ++ go 1 2)
end Lab

/-- The loser of a race within the deadline is told that nothing was uploaded. -/
theorem loser_refused : (completion Lab.cfg).Reach Lab.raced ∧ Lab.raced.db.state = .succeeded ∧ Lab.raced.clock ≤ 5 ∧
    ∃ c ∈ Lab.raced.calls, c.stage = .returned .noUploadManifest :=
  ⟨Machine.reach_runTo Lab.single_init _, by decide, by decide,
    ⟨_, mem_of_getElem? (show _[1]? = some _ from rfl), rfl⟩⟩

theorem completions_agree_overtaken : Lab.agreed.calls.all Call.ended = true ∧ OneWinner Lab.agreed.calls := by
  have hagree := completions_agree (s := Lab.agreed) Lab.single_init rfl (by decide) Lab.single_uploaded (Machine.leads_runTo (by decide))
  refine ⟨by decide, ?_⟩
  rcases hagree.1 with ⟨hcreated, -⟩ | ⟨-, hone⟩
  · exact absurd hcreated (by decide)
  · exact hone
end Kdive.Uploads
