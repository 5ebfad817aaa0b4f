import Kdive.Uploads.Completion

/-! # Finalized Runs keep their objects

With a chunked manifest the lock on the Run is held from before the validation to the commit, and the reaper, who
deletes under the same lock, stays away. Without chunks the lock is taken after the validation: a reaper in between
takes the objects, and the Run is finalized without them (`finalized_without_objects`). Nothing else stands in the way
(`finalized_objects_stay`).
-/

namespace Kdive.Uploads
open Lib List Option Table State

def Present (objects : Table Object) (name : ArtifactName) : Prop :=
  (objects.get (.artifact name)).isSome

def Keeps (objects objects' : Table Object) : Prop :=
  ∀ name, Present objects name → Present objects' name

theorem Keeps.refl (objects : Table Object) : Keeps objects objects := fun _ h => h

theorem get_stores (s : State) (key : ObjectKey) (data : Bytes) (k : ObjectKey) :
    (s.stores key data).objects.get k = if key = k then some ⟨key, data⟩ else s.objects.get k := by
  rw [stores, get_upsert]
  rcases eq_or_ne key k with rfl | hk
  · cases hget : s.objects.get key with
    | none => rfl
    | some x =>
      have hx : x.key = key := key_eq_of_get hget
      simp only [map_some, getD_some, hx, if_true]
      exact if_pos rfl
  · rw [if_neg hk]
    exact if_neg hk

theorem keeps_stores (s : State) (key : ObjectKey) (data : Bytes) : Keeps s.objects (s.stores key data).objects := by
  intro name h
  rw [Present, get_stores]
  split
  · rfl
  · exact h

theorem keeps_deletes (s : State) {key : ObjectKey} (h : key.isChunk = true) :
    Keeps s.objects (s.deletes key).objects := by
  intro name hname
  unfold Present deletes
  rw [get_erase, if_neg]
  · exact hname
  · rintro rfl
    cases h

/-- What has been validated is there, and what is to be cleaned up are chunks. -/
def Stage.Backed (objects : Table Object) : Stage → Prop
  | validating m left => ∀ e ∈ m.byName, e ∉ left → Present objects e.name
  | inspecting m | finalizing m _ => ∀ e ∈ m.byName, Present objects e.name
  | cleaning keys _ => ∀ k ∈ keys, k.isChunk = true
  | _ => True

def Write.Backed (objects : Table Object) : Write → Prop
  | finalize artifacts _ => ∀ k ∈ artifacts, ∃ name, k = .artifact name ∧ Present objects name
  | _ => True

/-- A stage after the finalization, whose lock is kept for the cleanup. -/
def Stage.cleans : Stage → Bool
  | cleaning _ _ | dropping _ => true
  | _ => false

structure Call.Backed (objects : Table Object) (c : Call) : Prop where
  stage : c.stage.Backed objects
  log : ∀ w ∈ c.log, w.Backed objects
  locked : c.log ≠ [] ∨ c.stage.cleans = true → c.locked = true

section
variable {objects objects' : Table Object} {c : Call}

section
variable (h : Keeps objects objects')
include h

theorem Stage.Backed.mono {stage : Stage} (hb : stage.Backed objects) : stage.Backed objects' := by
  cases stage with
  | validating => exact fun e he hl => h _ (hb e he hl)
  | inspecting | finalizing => exact fun e he => h _ (hb e he)
  | cleaning => exact hb
  | _ => trivial

theorem Write.Backed.mono {w : Write} (hb : w.Backed objects) : w.Backed objects' := by
  cases w with
  | finalize =>
    intro k hk
    obtain ⟨name, rfl, hp⟩ := hb k hk
    exact ⟨name, rfl, h name hp⟩
  | _ => trivial

theorem Call.Backed.mono (hb : c.Backed objects) : c.Backed objects' :=
  ⟨hb.stage.mono h, fun w hw => (hb.log w hw).mono h, hb.locked⟩
end

theorem Call.Backed.anywhere (hb : c.Backed objects) (hlock : c.locked = false)
    (hexp : c.exposed = false) : c.Backed objects' := by
  have hlog : c.log = [] := by
    by_contra hne
    rw [hb.locked (.inl hne)] at hlock
    cases hlock
  refine ⟨?_, by rw [hlog]; exact fun w hw => (not_mem_nil hw).elim, hb.locked⟩
  have hstage := hb.stage
  rw [Call.exposed, hlock] at hexp
  revert hexp hstage
  cases c.stage with
  | cleaning => exact fun hexp hstage => hstage
  | validating | inspecting | finalizing => exact fun hexp _ => by cases hexp
  | _ => exact fun _ _ => trivial
end

theorem isChunk_of_mem_chunkKeys {m : UploadManifest} {k : ObjectKey} (h : k ∈ m.chunkKeys) : k.isChunk = true := by
  obtain ⟨e, -, hk⟩ := mem_flatMap.mp h
  obtain ⟨part, hpart, rfl⟩ := mem_map.mp hk
  obtain ⟨x, -, rfl⟩ := mem_map.mp hpart
  rfl

theorem artifacts_foldl (log : List Write) (db : Rows) {k : ObjectKey} (h : k ∈ (log.foldl Write.apply db).artifacts) :
    k ∈ db.artifacts ∨ ∃ artifacts r, .finalize artifacts r ∈ log ∧ k ∈ artifacts := by
  induction log generalizing db with
  | nil => exact .inl h
  | cons w log ih =>
    rcases ih _ h with hdb | ⟨artifacts, r, hw, hk⟩
    · cases w with
      | finalize artifacts r =>
        have hmem : k ∈ db.artifacts ++ artifacts := by
          unfold Write.apply at hdb
          simp only at hdb
          split at hdb <;> exact hdb
        rcases mem_append.mp hmem with hk | hk
        · exact .inl hk
        · exact .inr ⟨artifacts, r, mem_cons_self, hk⟩
      | refresh | deleteManifest => exact .inl hdb
    · exact .inr ⟨artifacts, r, mem_cons_of_mem _ hw, hk⟩

/-! ## One step of a call -/

structure Call.Steps (s s' : State) (i : Nat) (c c' : Call) : Prop where
  calls : s'.calls = s.calls.set i c'
  reapers : s'.reapers = s.reapers
  keeps : Keeps s.objects s'.objects
  backed : c'.Backed s'.objects
  locks : c'.locked = true → c.locked = true ∨ s.taken i = false
  artifacts : ∀ k ∈ s'.db.artifacts, k ∈ s.db.artifacts ∨ ∃ name, k = .artifact name ∧ Present s'.objects name

section
variable {cfg : Config} {s s' : State} {i : Nat} {c c' : Call}

theorem Call.Steps.put (hb : c'.Backed s.objects)
    (hl : c'.locked = true → c.locked = true ∨ s.taken i = false) : Call.Steps s (s.put i c') i c c' :=
  ⟨rfl, rfl, .refl _, hb, hl, fun _ hk => .inl hk⟩

theorem Call.Backed.to {objects : Table Object} (hb : c.Backed objects) {stage : Stage} {start : Time}
    (h : stage.Backed objects) (hcleans : stage.cleans = true → c.locked = true) :
    ({ c with stage, start } : Call).Backed objects :=
  ⟨h, hb.log, fun hl => hl.elim (fun hlog => hb.locked (.inl hlog)) hcleans⟩

theorem validation_backed (objects : Table Object) (m : UploadManifest) : (validation m).Backed objects := by
  unfold validation
  split
  · exact fun e he hl => absurd he hl
  · trivial

theorem validation_cleans (m : UploadManifest) : (validation m).cleans = false := by
  unfold validation
  split <;> rfl

theorem Call.Steps.raises (s : State) (i : Nat) (c : Call) : ∃ c', Call.Steps s (s.raises i c) i c c' :=
  ⟨_, .put ⟨trivial, fun _ hw => (not_mem_nil hw).elim, fun h => h.elim (absurd rfl) nofun⟩ nofun⟩

variable (hb : c.Backed s.objects)
include hb

theorem Call.Steps.commits (response : Response) : ∃ c', Call.Steps s (s.commits i c response) i c c' := by
  refine ⟨_, rfl, rfl, .refl _,
    ⟨trivial, fun _ hw => (not_mem_nil hw).elim, fun h => h.elim (absurd rfl) nofun⟩, nofun, ?_⟩
  intro k hk
  rcases artifacts_foldl c.log s.db hk with hk | ⟨artifacts, r, hw, hk⟩
  · exact .inl hk
  · exact .inr (hb.log _ hw k hk)

theorem Call.Steps.deletes {key : ObjectKey} (hkey : key.isChunk = true)
    (hlock : c.locked = true) {stage : Stage} (hstage : stage.Backed s.objects) : ∃ c', Call.Steps s
      ((s.deletes key).put i { c with stage, removed := key :: c.removed }) i c c' :=
  have hkeeps := keeps_deletes s hkey
  ⟨_, rfl, rfl, hkeeps, ⟨hstage.mono hkeeps, fun w hw => (hb.log w hw).mono hkeeps, fun _ => hlock⟩,
    .inl, fun _ hk => .inl hk⟩

theorem finalize_steps {m : UploadManifest} {buildId : String}
    (hstage : c.stage = .finalizing m buildId) (hfree : s.taken i = false) :
    ∃ c', Call.Steps s (s.finalize i c m buildId) i c c' := by
  have hpresent : ∀ e ∈ m.byName, Present s.objects e.name := by
    have := hb.stage
    rw [hstage] at this
    exact this
  have hregistered : ∀ k ∈ m.byName.map (fun e => ObjectKey.artifact e.name),
      ∃ name, k = .artifact name ∧ Present s.objects name := by
    intro k hk
    obtain ⟨e, he, rfl⟩ := mem_map.mp hk
    exact ⟨e.name, rfl, hpresent e he⟩
  unfold finalize
  split
  · exact ⟨_, .put ⟨trivial, hb.log, fun _ => rfl⟩ fun _ => .inr hfree⟩
  · split
    · refine ⟨_, .put ⟨fun k hk => isChunk_of_mem_chunkKeys hk, ?_, fun _ => rfl⟩ fun _ => .inr hfree⟩
      intro w hw
      rcases mem_append.mp hw with hw | hw
      · exact hb.log w hw
      · cases mem_singleton.mp hw
        exact hregistered
    · refine ⟨_, .put ⟨trivial, ?_, fun _ => rfl⟩ fun _ => .inr hfree⟩
      intro w hw
      rcases mem_append.mp hw with hw | hw
      · exact hb.log w hw
      · rcases mem_cons.mp hw with rfl | hw
        · exact hregistered
        · cases mem_singleton.mp hw
          trivial
  · exact ⟨_, .put ⟨trivial, hb.log, fun _ => rfl⟩ fun _ => .inr hfree⟩

theorem proceed_steps (h : s.proceed cfg i c = some s') : ∃ c', Call.Steps s s' i c c' := by
  have hstep := hb.stage
  -- where the call only goes on, the lock and the log stay
  have hgoes : ∀ {stage : Stage} {start : Time}, stage.Backed s.objects → stage.cleans = false →
      ∃ c', Call.Steps s (s.put i { c with stage, start }) i c c' :=
    fun hstage hcleans => ⟨_, .put (hb.to hstage (by rw [hcleans]; exact nofun)) .inl⟩
  have hlock : c.stage.cleans = true → c.locked = true := fun hc => hb.locked (.inr hc)
  unfold proceed at h
  split at h
  all_goals rename_i hst
  all_goals rw [hst] at hstep
  · cases h
    exact hgoes trivial rfl
  · split at h
    · cases h
      exact hgoes trivial rfl
    · split at h <;> cases h <;> exact hgoes trivial rfl
  · split at h
    · cases h
      exact hgoes trivial rfl
    · split at h
      · cases h
        exact hgoes trivial rfl
      · cases h
        exact hgoes (validation_backed _ _) (validation_cleans _)
  · -- the lock is taken, and with it the deadline
    split at h
    · cases h
    · rename_i hfree
      have hfree : s.taken i = false := by simpa using hfree
      split at h
      · cases h
        exact ⟨_, .put ⟨trivial, hb.log, fun _ => rfl⟩ fun _ => .inr hfree⟩
      · split at h
        · cases h
          exact ⟨_, .put ⟨trivial, hb.log, fun _ => rfl⟩ fun _ => .inr hfree⟩
        · cases h
          refine ⟨_, .put ⟨trivial, ?_, fun _ => rfl⟩ fun _ => .inr hfree⟩
          intro w hw
          rcases mem_append.mp hw with hw | hw
          · exact hb.log w hw
          · cases mem_singleton.mp hw
            trivial
  · cases h
    exact hgoes (validation_backed _ _) (validation_cleans _)
  · split at h
    · cases h
      exact hgoes trivial rfl
    · cases h
      have hkeeps := keeps_stores s
      exact ⟨_, rfl, rfl, hkeeps _ _, ⟨trivial, fun w hw => (hb.log w hw).mono (hkeeps _ _),
          fun hl => hl.elim (fun hlog => hb.locked (.inl hlog)) nofun⟩, .inl, fun _ hk => .inl hk⟩
  · cases h
    exact hgoes (fun e he => hstep e he not_mem_nil) rfl
  · rename_i m e left
    split at h
    · cases h
      exact hgoes trivial rfl
    · rename_i data hdata
      split at h
      · cases h
        refine hgoes (fun e' he' hleft => ?_) rfl
        rcases eq_or_ne e' e with rfl | heq
        · rw [State.data, map_eq_some_iff] at hdata
          obtain ⟨o, ho, -⟩ := hdata
          rw [Present, ho]
          rfl
        · exact hstep e' he' fun hmem => (mem_cons.mp hmem).elim heq hleft
      · cases h
        exact hgoes trivial rfl
  · split at h
    · cases h
      exact hgoes trivial rfl
    · cases h
      exact hgoes hstep rfl
  · split at h
    · cases h
    · rename_i hfree
      cases h
      exact finalize_steps hb hst (by simpa using hfree)
  · cases h
    have hlock := hlock (by rw [hst]; rfl)
    exact ⟨_, .put (hb.to trivial fun _ => hlock) .inl⟩
  · cases h
    have hlock := hlock (by rw [hst]; rfl)
    exact Call.Steps.deletes hb (hstep _ mem_cons_self) hlock fun k hk => hstep k (mem_cons_of_mem _ hk)
  · cases h
    have hlock := hlock (by rw [hst]; rfl)
    refine ⟨_, .put ⟨trivial, ?_, fun _ => hlock⟩ .inl⟩
    intro w hw
    rcases mem_append.mp hw with hw | hw
    · exact hb.log w hw
    · cases mem_singleton.mp hw
      trivial
  · cases h
    exact Call.Steps.commits hb _
  · cases h
  · cases h

theorem callStep_steps {input : Input} (h : s.callStep cfg i c input = some s') : ∃ c', Call.Steps s s' i c c' := by
  have hstep := hb.stage
  have hlock : c.stage.cleans = true → c.locked = true := fun hc => hb.locked (.inr hc)
  cases input with
  | proceeds => exact proceed_steps hb h
  | storeFails done =>
    have hgoes : ∀ {response : Response}, ∃ c', Call.Steps s (s.put i { c with stage := .closing response }) i c c' :=
      ⟨_, .put (hb.to trivial nofun) .inl⟩
    simp only [callStep, storeFails] at h
    split at h
    case h_4 key keys response hst =>
      rw [hst] at hstep
      have hlock := hlock (by rw [hst]; rfl)
      split at h
      · cases h
        exact Call.Steps.deletes hb (hstep _ mem_cons_self) hlock trivial
      · cases h
        exact hgoes
    all_goals
      cases h
      try exact hgoes
  | faults done =>
    simp only [callStep] at h
    split at h
    case h_3 key keys response hst =>
      rw [hst] at hstep
      split at h
      · cases h
        have hkeeps := keeps_deletes s (hstep key mem_cons_self)
        exact ⟨_, rfl, rfl, hkeeps,
          ⟨trivial, fun _ hw => (not_mem_nil hw).elim, fun h => h.elim (absurd rfl) nofun⟩, nofun,
          fun _ hk => .inl hk⟩
      · cases h
        exact Call.Steps.raises s i c
    all_goals
      cases h
      try exact Call.Steps.raises s i c
end

/-! ## In every run -/

/-- What is registered is there, and what a call may still register. -/
structure Safe (s : State) : Prop where
  artifacts : ∀ k ∈ s.db.artifacts, ∃ name, k = .artifact name ∧ Present s.objects name
  calls : ∀ (i : Nat) (c : Call), s.calls[i]? = some c → c.Backed s.objects
  alone : ∀ (i : Nat) (c : Call), s.calls[i]? = some c → c.locked = true → s.taken i = false

/-- The reaper deletes only while no call stands between validating an artifact and taking the lock. -/
def State.spares (s : State) : Move → Bool
  | .reaper i false => !(s.reapers[i]?.any Reaper.locked) || s.calls.all (!·.exposed)
  | _ => true

section
variable {cfg : Config} {s s' : State}

theorem taken_eq_false {i : Nat} : s.taken i = false ↔
    (∀ (j : Nat) (d : Call), s.calls[j]? = some d → j ≠ i → d.locked = false) ∧ ∀ r ∈ s.reapers, r.locked = false := by
  unfold taken
  rw [Bool.or_eq_false_iff, List.any_eq_false, List.any_eq_false]
  constructor
  · rintro ⟨hcalls, hreapers⟩
    refine ⟨fun j d hd hne => ?_, fun r hr => by simpa using hreapers r hr⟩
    have hmem : (d, j) ∈ s.calls.zipIdx := mem_zipIdx_iff_getElem?.mpr hd
    simpa [hne] using hcalls (d, j) hmem
  · rintro ⟨hcalls, hreapers⟩
    refine ⟨?_, fun r hr => by simpa using hreapers r hr⟩
    rintro ⟨d, j⟩ hmem
    have hd := mem_zipIdx_iff_getElem?.mp hmem
    by_cases hne : j = i
    · simp [hne]
    · simp [hcalls j d hd hne]

section
variable (h : Safe s)
include h

theorem Safe.call {i : Nat} {c c' : Call} (hc : s.calls[i]? = some c) (hstep : Call.Steps s s' i c c') : Safe s' := by
  -- with the call in possession of the lock, or not, everybody else is without
  have hothers : c'.locked = true → s.taken i = false := by
    intro hl
    rcases hstep.locks hl with hold | hfree
    · exact h.alone i c hc hold
    · exact hfree
  refine ⟨?_, ?_, ?_⟩
  · intro k hk
    rcases hstep.artifacts k hk with hold | hnew
    · obtain ⟨name, rfl, hp⟩ := h.artifacts k hold
      exact ⟨name, rfl, hstep.keeps name hp⟩
    · exact hnew
  · intro j d hd
    rw [hstep.calls] at hd
    rcases getElem?_set_cases hd with ⟨-, rfl⟩ | ⟨-, hd⟩
    · exact hstep.backed
    · exact (h.calls j d hd).mono hstep.keeps
  · intro j d hd hl
    rw [hstep.calls] at hd
    rw [taken_eq_false, hstep.calls, hstep.reapers]
    rcases getElem?_set_cases hd with ⟨rfl, rfl⟩ | ⟨hij, hold⟩
    · obtain ⟨hcalls, hreapers⟩ := taken_eq_false.mp (hothers hl)
      refine ⟨fun k e he hne => ?_, hreapers⟩
      rcases getElem?_set_cases he with ⟨rfl, -⟩ | ⟨-, he⟩
      · exact absurd rfl hne
      · exact hcalls k e he hne
    · obtain ⟨hcalls, hreapers⟩ := taken_eq_false.mp (h.alone j d hold hl)
      refine ⟨fun k e he hne => ?_, hreapers⟩
      rcases getElem?_set_cases he with ⟨rfl, rfl⟩ | ⟨-, he⟩
      · by_contra hlocked
        have hfree := (taken_eq_false.mp (hothers (by simpa using hlocked))).1 j d hold hij.symm
        cases hl.symm.trans hfree
      · exact hcalls k e he hne

theorem Safe.unlocked {r : Reaper} (hr : r ∈ s.reapers) (hl : r.locked = true) {i : Nat}
    {c : Call} (hc : s.calls[i]? = some c) : c.locked = false := by
  by_contra hlocked
  have hnone := (taken_eq_false.mp (h.alone i c hc (by simpa using hlocked))).2 r hr
  cases hl.symm.trans hnone

theorem Safe.putReaper {i : Nat} {r : Reaper}
    (hl : r.locked = true → ∀ (j : Nat) (c : Call), s.calls[j]? = some c → c.locked = false) :
    Safe (s.putReaper i r) := by
  refine ⟨h.artifacts, h.calls, ?_⟩
  intro j c hc hlocked
  obtain ⟨hcalls, hreapers⟩ := taken_eq_false.mp (h.alone j c hc hlocked)
  refine taken_eq_false.mpr ⟨hcalls, fun r' hr' => ?_⟩
  rcases mem_or_eq_of_mem_set hr' with hr' | rfl
  · exact hreapers r' hr'
  · by_contra hlr
    rw [hl (by simpa using hlr) j c hc] at hlocked
    cases hlocked

theorem Safe.deletes {key : ObjectKey} (hkey : key ∉ s.db.artifacts)
    (hidle : ∀ (i : Nat) (c : Call), s.calls[i]? = some c → c.locked = false ∧ c.exposed = false) :
    Safe (s.deletes key) := by
  refine ⟨?_, fun i c hc => (h.calls i c hc).anywhere (hidle i c hc).1 (hidle i c hc).2, h.alone⟩
  intro k hk
  obtain ⟨name, rfl, hp⟩ := h.artifacts k hk
  refine ⟨name, rfl, ?_⟩
  rw [Present, State.deletes, get_erase, if_neg]
  · exact hp
  · rintro rfl
    exact hkey hk

theorem Safe.reap {i : Nat} {r : Reaper} (hr : s.reapers[i]? = some r)
    (hok : s.spares (.reaper i false) = true) (hs : s.reap i r = some s') : Safe s' := by
  have hmem : r ∈ s.reapers := mem_of_getElem? hr
  unfold State.reap at hs
  split at hs
  · rename_i hst
    split at hs
    · cases hs
    · rename_i hfree
      split at hs
      · cases hs
        refine h.putReaper fun _ j c hc => ?_
        by_contra hl
        refine hfree ?_
        rw [Bool.or_eq_true, List.any_eq_true]
        exact .inl ⟨c, mem_of_getElem? hc, by simpa using hl⟩
      · cases hs
        exact h.putReaper nofun
  · rename_i key keys hst
    have hlocked : r.locked = true := by rw [Reaper.locked, hst]
    have hfree : ∀ (j : Nat) (c : Call), s.calls[j]? = some c → c.locked = false :=
      fun j c hc => h.unlocked hmem hlocked hc
    split at hs
    · cases hs
      exact h.putReaper fun _ => hfree
    · rename_i hkey
      cases hs
      have hidle : s.calls.all (!·.exposed) = true := by
        simpa [spares, hr, hlocked] using hok
      refine .putReaper (h.deletes (by simpa using hkey) fun j c hc => ⟨hfree j c hc, ?_⟩)
        fun _ => hfree
      simpa using all_eq_true.mp hidle c (mem_of_getElem? hc)
  · cases hs
    have hput := h.putReaper (i := i) (r := { r with stage := .ended }) nofun
    exact ⟨hput.artifacts, hput.calls, hput.alone⟩
  · cases hs

theorem Safe.step {m : Move} (hok : s.spares m = true) (hs : s.step cfg m = some s') : Safe s' := by
  cases m with
  | calls =>
    cases hs
    refine ⟨h.artifacts, ?_, ?_⟩
    · intro i c hc
      rcases getElem?_concat_cases hc with hc | ⟨-, rfl⟩
      · exact h.calls i c hc
      · exact ⟨trivial, fun _ hw => (not_mem_nil hw).elim, fun hl => hl.elim (absurd rfl) nofun⟩
    · intro i c hc hl
      rcases getElem?_concat_cases hc with hc | ⟨-, rfl⟩
      · obtain ⟨hcalls, hreapers⟩ := taken_eq_false.mp (h.alone i c hc hl)
        refine taken_eq_false.mpr ⟨fun j d hd hne => ?_, hreapers⟩
        rcases getElem?_concat_cases hd with hd | ⟨-, rfl⟩
        · exact hcalls j d hd hne
        · rfl
      · cases hl
  | call i =>
    obtain ⟨c, hc, hs⟩ := bind_eq_some_iff.mp hs
    obtain ⟨c', hstep⟩ := callStep_steps (h.calls i c hc) hs
    exact h.call hc hstep
  | reaps =>
    simp only [State.step] at hs
    split at hs
    · cases hs
      refine ⟨h.artifacts, h.calls, ?_⟩
      intro i c hc hl
      obtain ⟨hcalls, hreapers⟩ := taken_eq_false.mp (h.alone i c hc hl)
      refine taken_eq_false.mpr ⟨hcalls, fun r hr => ?_⟩
      rcases mem_append.mp hr with hr | hr
      · exact hreapers r hr
      · cases mem_singleton.mp hr
        rfl
    · cases hs
  | reaper i faults =>
    obtain ⟨r, hr, hs⟩ := bind_eq_some_iff.mp hs
    cases faults with
    | true =>
      cases hs
      exact h.putReaper nofun
    | false => exact h.reap hr hok hs
  | wait =>
    cases hs
    exact ⟨h.artifacts, h.calls, h.alone⟩
end

theorem State.Init.safe (h : s.Init) : Safe s := by
  refine ⟨?_, ?_, ?_⟩
  · rw [h.artifacts]
    exact fun _ hk => (not_mem_nil hk).elim
  all_goals
    intro i c hc
    rw [h.calls] at hc
    cases hc

/-- What is finalized is in the store, if no reaper comes between validation and lock. -/
theorem finalized_objects_stay (h : (completion cfg).ReachBy (fun s m => s.spares m = true) s) :
    ∀ k ∈ s.db.artifacts, (s.objects.get k).isSome := by
  have hsafe : Safe s := Machine.ReachBy.always (I := Safe) (fun _ => State.Init.safe)
    (fun _ _ _ _ hok hI hs => hI.step hok hs) h
  intro k hk
  obtain ⟨name, rfl, hp⟩ := hsafe.artifacts k hk
  exact hp
end

namespace Lab
def cfg : Config where
  sha256 := fun _ => "digest"
  ttl := 10
  magic := fun _ _ => true
  inspect := fun _ _ => .ok "id"

def single : State where
  db := { manifest := some ⟨[⟨.kernel, "digest", 1, none⟩], 5⟩ }
  objects := ⟨[⟨.artifact .kernel, [0]⟩], by decide⟩
  calls := []
  reapers := []
  clock := 0

theorem single_init : single.Init := ⟨rfl, rfl, rfl, rfl, rfl⟩

def go (i n : Nat) : List Move := List.replicate n (.call i .proceeds)

/-- The reaper comes between the validation and the lock. -/
def overtaken : State := (completion cfg).runTo single
  ([.calls none ""] ++ go 0 6 ++ [.wait 10, .reaps, .reaper 0 false, .reaper 0 false, .reaper 0 false] ++ go 0 2)

/-- With a chunk that is left over. -/
def littered : State := { single with objects := ⟨[⟨.chunk .kernel 1, [0]⟩, ⟨.artifact .kernel, [0]⟩], by decide⟩ }

/-- The reaper deletes the chunk and fails; then the call comes. -/
def intime : State := (completion cfg).runTo littered
  ([.wait 10, .reaps, .reaper 0 false, .reaper 0 false, .reaper 0 true, .calls none ""] ++ go 0 8)
end Lab

/-- The Run is finalized, its objects are gone. -/
theorem finalized_without_objects : (completion Lab.cfg).Reach Lab.overtaken ∧ Lab.overtaken.db.state = .succeeded ∧
    ObjectKey.artifact .kernel ∈ Lab.overtaken.db.artifacts ∧
    (Lab.overtaken.objects.get (.artifact .kernel)).isSome = false :=
  ⟨Machine.reach_runTo Lab.single_init _, by decide, by decide, by decide⟩

theorem finalized_objects_stay_intime :
    Lab.intime.db.state = .succeeded ∧ (Lab.intime.objects.get (.chunk .kernel 1)).isSome = false ∧
      Lab.intime.db.artifacts = [.artifact .kernel] ∧ ∀ k ∈ Lab.intime.db.artifacts, (Lab.intime.objects.get k).isSome := by
  have hinit : Lab.littered.Init := ⟨rfl, rfl, rfl, rfl, rfl⟩
  have hreach : (completion Lab.cfg).ReachBy (fun s m => State.spares s m = true) Lab.intime :=
    (Machine.ReachBy.init hinit).leads (Machine.leads_runTo (by decide))
  exact ⟨by decide, by decide, by decide, finalized_objects_stay hreach⟩
end Kdive.Uploads
