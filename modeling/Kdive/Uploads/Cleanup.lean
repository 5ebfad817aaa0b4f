import Kdive.Uploads.Reaping
import Mathlib.Data.List.Dedup

/-! # Chunks and the finalization they are deleted for

`_cleanup_chunks_and_manifest` is called after the block in which the Run is finalized. The block is a
savepoint: what it has written is durable only when the connection is given back, and by then the chunks are
gone. A process that ends in between leaves a Run that is still created, and no chunks to complete it from
(`chunks_lost`). No other failure does (`chunks_cleared_when_finalized`).
-/

namespace Kdive.Uploads
open Lib State Kdive.Uploads.Write List Option Kdive.Uploads.Lab

/-- The finalization is durable: the Run, its build step, its artifacts. -/
structure Rows.Finalized (db : Rows) : Prop where
  state : db.state = .succeeded
  result : db.result.isSome
  kernel : .artifact .kernel ∈ db.artifacts

/-! ## What is written -/

def Write.HasKernel : Write → Prop
  | finalize artifacts _ => .artifact .kernel ∈ artifacts
  | _ => True

theorem exists_byName {m : UploadManifest} {name : ArtifactName}
    (h : m.entries.any (·.name = name) = true) : ∃ e ∈ m.byName, e.name = name := by
  obtain ⟨e, he, hname⟩ := any_eq_true.mp h
  have hsome : (m.entries.reverse.find? (·.name = name)).isSome := by
    rw [find?_isSome]
    exact ⟨e, mem_reverse.mpr he, hname⟩
  obtain ⟨last, hlast⟩ := isSome_iff_exists.mp hsome
  have hn : last.name = name := by simpa using find?_some hlast
  refine ⟨last, ?_, hn⟩
  rw [UploadManifest.byName, mem_dedup, mem_filter]
  refine ⟨mem_reverse.mp (mem_of_find?_eq_some hlast), ?_⟩
  simp only [hn, hlast, decide_true]

theorem Rows.Finalized.apply {db : Rows} (h : db.Finalized) (w : Write) : (w.apply db).Finalized := by
  cases w with
  | refresh | deleteManifest => exact ⟨h.state, h.result, h.kernel⟩
  | finalize =>
    obtain ⟨result, hresult⟩ := isSome_iff_exists.mp h.result
    have hstate : db.state ≠ .created := by rw [h.state]; decide
    unfold Write.apply
    simp only [if_neg hstate, hresult]
    exact ⟨h.state, rfl, mem_append_left _ h.kernel⟩

theorem Rows.Finalized.foldl {db : Rows} (h : db.Finalized) (log : List Write) :
    (log.foldl Write.apply db).Finalized := by
  induction log generalizing db with
  | nil => exact h
  | cons w log ih => exact ih (h.apply w)

theorem finalized_foldl {db : Rows} (h : db.state = .created ∨ db.Finalized) {log : List Write}
    (hlog : ∀ w ∈ log, w.HasKernel) : (log.any isFinalize = true → (log.foldl apply db).Finalized) ∧
      ((log.foldl apply db).state = .created ∨ (log.foldl apply db).Finalized) := by
  induction log generalizing db with
  | nil => exact ⟨nofun, h⟩
  | cons w log ih =>
    have hrest := fun w' hw' => hlog w' (mem_cons_of_mem _ hw')
    rw [foldl_cons, any_cons]
    cases w with
    | refresh deadline =>
      exact ih (h.imp id fun hf => hf.apply (.refresh deadline)) hrest
    | deleteManifest => exact ih (h.imp id fun hf => hf.apply .deleteManifest) hrest
    | finalize artifacts r =>
      have hfin : (apply db (.finalize artifacts r)).Finalized := by
        rcases h with hcreated | hfin
        · unfold apply
          simp only [hcreated]
          refine ⟨rfl, ?_, mem_append_right _ (hlog _ mem_cons_self)⟩
          cases db.result <;> rfl
        · exact hfin.apply _
      have hend := hfin.foldl log
      exact ⟨fun _ => hend, .inr hend⟩

/-! ## Calls -/

/-- What a call has done to the chunks, by how far it is: nothing before its finalization, and nothing that
    stands without it. -/
def Stage.Settles (db : Rows) (removed : List ObjectKey) (finalizes : Bool) : Stage → Prop
  | validating m _ | inspecting m | finalizing m _ =>
    m.entries.any (·.name = .kernel) = true ∧ removed = []
  | cleaning _ _ | dropping _ => finalizes = true
  | closing _ => removed ≠ [] → finalizes = true
  | returned _ => removed ≠ [] → db.Finalized
  | _ => removed = []

structure Call.Settling (db : Rows) (c : Call) : Prop where
  stage : c.stage.Settles db c.removed c.finalizes
  log : ∀ w ∈ c.log, w.HasKernel

/-- A call removes chunks only as it finalizes the Run, or after. -/
structure Settled (s : State) : Prop where
  rows : s.db.state = .created ∨ s.db.Finalized
  calls : ∀ (i : Nat) (c : Call), s.calls[i]? = some c → c.Settling s.db

/-- A call that is deleting chunks, or has deleted one, does not fail. -/
def State.carries (s : State) : Move → Bool
  | .call i (.faults done) =>
    s.calls[i]?.all fun c => c.removed.isEmpty && (!done || !c.isCleaning)
  | _ => true

section
variable {cfg : Config} {s s' : State} {i : Nat} {c c' : Call}

theorem Call.Settling.mono {db db' : Rows} (h : c.Settling db) (hdb : db.Finalized → db'.Finalized) :
    c.Settling db' := by
  refine ⟨?_, h.log⟩
  have hstage := h.stage
  revert hstage
  cases c.stage with
  | returned => exact fun hstage hr => hdb (hstage hr)
  | _ => exact id

theorem Settled.put (h : Settled s) (hc : c'.Settling s.db) : Settled (s.put i c') := by
  refine ⟨h.rows, fun j d hd => ?_⟩
  rcases getElem?_set_cases hd with ⟨-, rfl⟩ | ⟨-, hd⟩
  · exact hc
  · exact h.calls j d hd

theorem Settled.commits (h : Settled s) (hc : c.Settling s.db) {response : Response}
    (hstage : c.stage = .closing response) : Settled (s.commits i c response) := by
  obtain ⟨hfin, hrows⟩ := finalized_foldl h.rows hc.log
  refine ⟨hrows, fun j d hd => ?_⟩
  rcases getElem?_set_cases hd with ⟨-, rfl⟩ | ⟨-, hd⟩
  · have hsettles := hc.stage
    rw [hstage] at hsettles
    exact ⟨fun hr => hfin (hsettles hr), fun _ hw => (not_mem_nil hw).elim⟩
  · exact (h.calls j d hd).mono fun hf => hf.foldl _

theorem validation_settles {db : Rows} {m : UploadManifest} {finalizes : Bool} :
    (validation m).Settles db [] finalizes := by
  unfold validation
  split
  · exact ⟨by assumption, rfl⟩
  · exact fun hr => absurd rfl hr

theorem finalizes_append (hc : c.log.any isFinalize = true) (ws : List Write) :
    (c.log ++ ws).any isFinalize = true := by
  rw [any_append, hc]
  rfl

theorem mem_append_hasKernel {log ws : List Write} (hlog : ∀ w ∈ log, w.HasKernel)
    (hws : ∀ w ∈ ws, w.HasKernel) : ∀ w ∈ log ++ ws, w.HasKernel :=
  fun w hw => (mem_append.mp hw).elim (hlog w) (hws w)

section
variable (h : Settled s)
include h

theorem Settled.finalize (hc : c.Settling s.db) {m : UploadManifest} {buildId : String}
    (hstage : c.stage = .finalizing m buildId) : Settled (s.finalize i c m buildId) := by
  have hsettles := hc.stage
  rw [hstage] at hsettles
  obtain ⟨hkernel, hremoved⟩ := hsettles
  obtain ⟨e, he, hname⟩ := exists_byName hkernel
  have hregistered : ObjectKey.artifact .kernel ∈ m.byName.map (fun e => .artifact e.name) :=
    mem_map.mpr ⟨e, he, by rw [hname]⟩
  unfold State.finalize
  split
  · exact h.put ⟨fun hr => absurd hremoved hr, hc.log⟩
  · split
    · refine h.put ⟨?_, mem_append_hasKernel hc.log fun w hw => ?_⟩
      · show (c.log ++ _).any isFinalize = true
        rw [any_append]
        simp [isFinalize]
      · cases mem_singleton.mp hw
        exact hregistered
    · refine h.put ⟨fun hr => absurd hremoved hr, mem_append_hasKernel hc.log fun w hw => ?_⟩
      rcases mem_cons.mp hw with rfl | hw
      · exact hregistered
      · cases mem_singleton.mp hw
        trivial
  · exact h.put ⟨fun hr => absurd hremoved hr, hc.log⟩

theorem Settled.proceed (hc : c.Settling s.db) (hs : s.proceed cfg i c = some s') : Settled s' := by
  have hsettles := hc.stage
  unfold State.proceed at hs
  split at hs
  all_goals rename_i hst
  all_goals rw [hst] at hsettles
  · cases hs
    exact h.put ⟨hsettles, hc.log⟩
  · split at hs
    · cases hs
      exact h.put ⟨fun hr => absurd hsettles hr, hc.log⟩
    · split at hs
      · cases hs
        exact h.put ⟨hsettles, hc.log⟩
      · cases hs
        exact h.put ⟨fun hr => absurd hsettles hr, hc.log⟩
  · have hsettles : c.removed = [] := hsettles
    split at hs
    · cases hs
      exact h.put ⟨fun hr => absurd hsettles hr, hc.log⟩
    · split at hs
      · cases hs
        exact h.put ⟨hsettles, hc.log⟩
      · cases hs
        exact h.put ⟨by rw [hsettles]; exact validation_settles, hc.log⟩
  · split at hs
    · cases hs
    · split at hs
      · cases hs
        exact h.put ⟨fun hr => absurd hsettles hr, hc.log⟩
      · split at hs
        · cases hs
          exact h.put ⟨fun hr => absurd hsettles hr, hc.log⟩
        · cases hs
          refine h.put ⟨hsettles, mem_append_hasKernel hc.log fun w hw => ?_⟩
          cases mem_singleton.mp hw
          trivial
  · have hsettles : c.removed = [] := hsettles
    cases hs
    exact h.put ⟨by rw [hsettles]; exact validation_settles, hc.log⟩
  · split at hs
    · cases hs
      exact h.put ⟨fun hr => absurd hsettles hr, hc.log⟩
    · cases hs
      exact .put ⟨h.rows, h.calls⟩ ⟨hsettles, hc.log⟩
  · cases hs
    exact h.put ⟨hsettles, hc.log⟩
  · split at hs
    · cases hs
      exact h.put ⟨fun hr => absurd hsettles.2 hr, hc.log⟩
    · split at hs
      · cases hs
        exact h.put ⟨hsettles, hc.log⟩
      · cases hs
        exact h.put ⟨fun hr => absurd hsettles.2 hr, hc.log⟩
  · split at hs
    · cases hs
      exact h.put ⟨fun hr => absurd hsettles.2 hr, hc.log⟩
    · cases hs
      exact h.put ⟨hsettles, hc.log⟩
  · split at hs
    · cases hs
    · cases hs
      exact h.finalize hc hst
  · cases hs
    exact h.put ⟨hsettles, hc.log⟩
  · cases hs
    exact .put ⟨h.rows, h.calls⟩ ⟨hsettles, hc.log⟩
  · cases hs
    refine h.put ⟨fun _ => finalizes_append hsettles _, mem_append_hasKernel hc.log fun w hw => ?_⟩
    cases mem_singleton.mp hw
    trivial
  · cases hs
    exact h.commits hc hst
  · cases hs
  · cases hs

theorem Settled.call (hci : s.calls[i]? = some c) {input : Input}
    (hok : s.carries (.call i input) = true) (hs : s.callStep cfg i c input = some s') : Settled s' := by
  have hc := h.calls i c hci
  have hsettles := hc.stage
  cases input with
  | proceeds => exact h.proceed hc hs
  | storeFails done =>
    simp only [callStep, storeFails] at hs
    split at hs
    all_goals rename_i hst
    · rw [hst] at hsettles
      cases hs
      exact h.put ⟨fun hr => absurd hsettles hr, hc.log⟩
    · rw [hst] at hsettles
      cases hs
      exact h.put ⟨fun hr => absurd hsettles.2 hr, hc.log⟩
    · rw [hst] at hsettles
      cases hs
      exact h.put ⟨fun hr => absurd hsettles.2 hr, hc.log⟩
    · -- the cleanup gives up, the finalization goes on
      rw [hst] at hsettles
      split at hs
      · cases hs
        exact .put ⟨h.rows, h.calls⟩ ⟨fun _ => hsettles, hc.log⟩
      · cases hs
        exact h.put ⟨fun _ => hsettles, hc.log⟩
    · cases hs
  | faults done =>
    rw [carries, hci] at hok
    simp only [Option.all_some, Bool.and_eq_true, List.isEmpty_iff] at hok
    have hraised : Settled (s.raises i c) :=
      h.put ⟨hok.1, fun _ hw => (List.not_mem_nil hw).elim⟩
    simp only [callStep] at hs
    split at hs
    · cases hs
    · cases hs
    · rename_i hst
      split at hs
      · rename_i hdone
        simp [hdone, Call.isCleaning, hst] at hok
      · cases hs
        exact hraised
    · cases hs
      exact hraised

theorem Settled.step {m : Move} (hok : s.carries m = true) (hs : s.step cfg m = some s') : Settled s' := by
  cases m with
  | calls =>
    cases hs
    refine ⟨h.rows, fun i c hc => ?_⟩
    rcases getElem?_concat_cases hc with hc | ⟨-, rfl⟩
    · exact h.calls i c hc
    · exact ⟨rfl, fun _ hw => (not_mem_nil hw).elim⟩
  | call =>
    obtain ⟨c, hc, hs⟩ := bind_eq_some_iff.mp hs
    exact h.call hc hok hs
  | reaps =>
    simp only [State.step] at hs
    split at hs
    · cases hs
      exact ⟨h.rows, h.calls⟩
    · cases hs
  | reaper i faults =>
    obtain ⟨r, -, hs⟩ := bind_eq_some_iff.mp hs
    cases faults with
    | true =>
      cases hs
      exact ⟨h.rows, h.calls⟩
    | false =>
      simp only [Bool.false_eq_true, if_false, reap] at hs
      have hdropped : s.db.Finalized → ({ s.db with manifest := none } : Rows).Finalized :=
        fun hf => hf.apply .deleteManifest
      split at hs
      · split at hs
        · cases hs
        · split at hs <;> cases hs <;> exact ⟨h.rows, h.calls⟩
      · split at hs <;> cases hs <;> exact ⟨h.rows, h.calls⟩
      · cases hs
        exact ⟨h.rows.imp id hdropped, fun j c hc => (h.calls j c hc).mono hdropped⟩
      · cases hs
  | wait =>
    cases hs
    exact ⟨h.rows, h.calls⟩
end

theorem State.Init.settled (h : s.Init) : Settled s := by
  refine ⟨.inl h.created, fun i c hc => ?_⟩
  rw [h.calls] at hc
  cases hc
end

/-- Who has deleted chunks has finalized the Run, if its commit goes through. -/
theorem chunks_cleared_when_finalized {cfg : Config} {s : State}
    (h : (completion cfg).ReachBy (fun s m => s.carries m = true) s) {c : Call} (hc : c ∈ s.calls)
    (hended : c.ended = true) (hremoved : c.removed ≠ []) : s.db.Finalized := by
  have hsettled : Settled s := Machine.ReachBy.always (I := Settled) (fun _ => State.Init.settled)
    (fun _ _ _ _ hok hI hs => hI.step hok hs) h
  obtain ⟨i, hi⟩ := getElem?_of_mem hc
  have hstage := (hsettled.calls i c hi).stage
  revert hstage hended
  rw [Call.ended]
  cases c.stage with
  | returned => exact fun _ hstage => hstage hremoved
  | raised => exact fun _ hstage => absurd hstage hremoved
  | _ => exact nofun

namespace Lab
/-- A kernel uploaded in two chunks. -/
def chunked : State where
  db := { manifest := some ⟨[⟨.kernel, "digest", 2, some [⟨"digest", 1⟩, ⟨"digest", 1⟩]⟩], 5⟩ }
  objects := ⟨[⟨.chunk .kernel 1, [0]⟩, ⟨.chunk .kernel 2, [1]⟩], by decide⟩
  calls := []
  reapers := []
  clock := 0

theorem chunked_init : chunked.Init := ⟨rfl, rfl, rfl, rfl, rfl⟩

def crashed : State := (completion cfg).runTo chunked ([.calls none ""] ++ go 0 12 ++ [.call 0 (.faults false)])

def completed : State := (completion cfg).runTo chunked ([.calls none ""] ++ go 0 15)
end Lab

/-- A call that fails after its first chunks are deleted: the Run is not finalized, and cannot be. -/
theorem chunks_lost : (completion cfg).Reach crashed ∧ crashed.db.state = .created ∧
    (crashed.objects.get (.chunk .kernel 1)).isSome = false ∧
    crashed.calls.all (fun c => c.ended && !c.removed.isEmpty) = true :=
  ⟨Machine.reach_runTo chunked_init _, by decide, by decide, by decide⟩

theorem chunks_cleared_when_finalized_completed : ∃ c, completed.calls = [c] ∧ c.ended = true ∧
    c.removed = [.chunk .kernel 2, .chunk .kernel 1] ∧ completed.db.Finalized := by
  refine ⟨_, rfl, rfl, rfl, ?_⟩
  exact chunks_cleared_when_finalized ((Machine.ReachBy.init chunked_init).leads
    (Machine.leads_runTo (by decide))) (mem_singleton.mpr rfl) rfl nofun
end Kdive.Uploads
