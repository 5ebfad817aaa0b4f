import Kdive.Images.Publishing
import Mathlib.Data.List.Induction

/-! # A reconcile pass among publishes

`reconcile_images` decides from the rows it has loaded, and writes later. For a `build` source it keeps the state, the
object and the digest of a row that was `registered` when it was loaded. A row that was `pending` then, or `defined`
and has moved since, is put back to `defined`, and the `UPDATE` of the publish whose row that was is refused by the
`CHECK` (`publish_put_back`). Where every row of a `build` entry is, when it is loaded, `registered`, or `defined` and
as the document says, and no publish adopts a row that another shares its identity with, the pass changes nothing of
what a publish has done, and every publish that gets past its `HEAD` registers its row (`inventory_keeps_published`).
-/

namespace Kdive.Images
open Pass Lib
open Kdive.Images.Write (delete adopted registered)
open State Overlay List Bool Table Realized Stage

def Doc.builds (doc : Doc) (identity : String × String × String) : Bool :=
  doc.image.any fun entry => entry.source = .build && entry.identity = identity

/-- A row `_realize_build` has not found realized. -/
def Realized.placeholder : Realized := ⟨.defined, none, none, none⟩

def Row.registeredEntry (row : Row) : IndexKey :=
  match row.visibility with
  | .isPublic => .onePublic row.provider row.name row.arch
  | .isPrivate => .onePrivate row.owner row.provider row.name

namespace State
variable (s : State)

/-- Every config row of a `build` entry is registered, or is a placeholder the entry leaves as it is. -/
def loadsSteady (doc : Doc) : Bool :=
  doc.image.all fun entry => entry.source ≠ .build || s.rows.rows.all fun row =>
    row.managedBy ≠ .config || row.identity ≠ entry.identity || row.state = .registered ||
      !entry.changed .placeholder row

/-- The publish adopts a row, and no other row would be registered under the same key. -/
def adoptsAlone (p : Publish) : Bool :=
  match p.stage with
  | .locking (id :: _) =>
    (s.rows.get id).all fun row => !adoptable p.request row ||
      s.rows.rows.all fun other => other.id = id || other.registeredEntry ≠ row.registeredEntry
  | .locking [] => false
  | _ => true

/-- A move of the one pass over the document, or of a publish of one of its `build` images. -/
def inventoried (doc : Doc) : Move → Bool
  | .publishes _ request _ => doc.builds (request.provider, request.name, request.arch)
  | .publish i (.proceeds _) => (s.publishes[i]?).all s.adoptsAlone
  | .publish _ (.faults _) => true
  | .reconciles doc' => s.pass.isNone && doc'.image = doc.image
  | .reconcile _ => (s.pass).all fun pass =>
    match pass.stage with
    | .loading => s.loadsSteady doc
    | _ => true
  | .wait _ => true
end State

/-! ## What a step of a pass does -/

inductive Pass.Does (s : State) (pass : Pass) : State → Prop where
  | loads (hstage : pass.stage = .loading) :
      Does s pass (s.setPass { pass with
        stage := .upserting (s.rows.rows.filter (·.managedBy = .config)) pass.doc.image
        start := s.clock })
  | resolves (existing : List Row) (entry : Entry) (entries : List Entry) (head : S3Head)
      (hstage : pass.stage = .upserting existing (entry :: entries)) :
      Does s pass (s.setPass { pass with stage := .realizing existing entry entries head })
  | commits (existing : List Row) (hstage : pass.stage = .upserting existing []) :
      Does s pass (s.commitsPass pass (.pruning (departed pass.doc existing)))
  | creates (existing : List Row) (entry : Entry) (entries : List Entry) (head : S3Head) (id : Uuid)
      (diff : ReconcileDiff) (hstage : pass.stage = .realizing existing entry entries head)
      (hfresh : s.fresh id = true)
      (haccepted : s.judge 0 pass.log (.insert (entry.newRow id pass.start (entry.realize none head).1)) = .accepted) :
      Does s pass (s.setPass { pass with
        stage := .upserting existing entries, diff
        log := pass.log ++ [.insert (entry.newRow id pass.start (entry.realize none head).1)] })
  | updates (existing : List Row) (entry : Entry) (entries : List Entry) (head : S3Head) (row : Row)
      (diff : ReconcileDiff) (hstage : pass.stage = .realizing existing entry entries head)
      (hrow : loadedRow existing entry.identity = some row)
      (hchanged : entry.changed (entry.realize (some row) head).1 row = true)
      (haccepted : s.judge 0 pass.log (.update row.id entry (entry.realize (some row) head).1) = .accepted) :
      Does s pass (s.setPass { pass with
        stage := .upserting existing entries, diff
        log := pass.log ++ [.update row.id entry (entry.realize (some row) head).1] })
  | skips (existing : List Row) (entry : Entry) (entries : List Entry) (head : S3Head)
      (diff : ReconcileDiff) (hstage : pass.stage = .realizing existing entry entries head) :
      Does s pass (s.setPass { pass with stage := .upserting existing entries, diff })
  | raises : Does s pass (s.raisesPass pass)
  | leaves (row : Row) (rest : List Row) (diff : ReconcileDiff)
      (hstage : pass.stage = .pruning (row :: rest)) :
      Does s pass (s.setPass { pass with stage := .pruning rest, diff })
  | prunes (row : Row) (rest : List Row) (diff : ReconcileDiff)
      (hstage : pass.stage = .pruning (row :: rest)) (hfree : s.held 0 row.id = false) :
      Does s pass (s.commitsPass { pass with log := [.delete row.id], diff } (.pruning rest))
  | finishes (hstage : pass.stage = .pruning []) :
      Does s pass (s.setPass { pass with stage := .finished })

section
variable {s s' : State} {pass : Pass} {input : PassInput}

theorem State.executesPass_cases {w : Write} {stage : PassStage} {diff : ReconcileDiff}
    (h : s.executesPass pass w stage diff = some s') : s' = s.raisesPass pass ∨ s.judge 0 pass.log w = .accepted ∧
      s' = s.setPass { pass with stage, diff, log := pass.log ++ [w] } := by
  unfold executesPass at h
  split at h
  · cases h
  · cases h; exact .inl rfl
  · cases h; exact .inr ⟨‹_›, rfl⟩

theorem Pass.does_of_realizes {existing : List Row} {entry : Entry} {entries : List Entry} {head : S3Head}
    {newId : Uuid} (hstage : pass.stage = .realizing existing entry entries head)
    (h : s.realizes pass existing entry entries head newId = some s') : pass.Does s s' := by
  unfold realizes at h
  cases hrow : loadedRow existing entry.identity with
  | none =>
    simp only [hrow] at h
    split at h
    next hfresh =>
      rcases executesPass_cases h with rfl | ⟨haccepted, rfl⟩
      · exact .raises
      · exact .creates existing entry entries head newId _ hstage hfresh haccepted
    next => cases h
  | some row =>
    simp only [hrow] at h
    split at h
    next hchanged =>
      rcases executesPass_cases h with rfl | ⟨haccepted, rfl⟩
      · exact .raises
      · exact .updates existing entry entries head row _ hstage hrow hchanged haccepted
    next => cases h; exact .skips existing entry entries head _ hstage

theorem Pass.does_of_prunes {row : Row} {rest : List Row} {referenced : Bool}
    (hstage : pass.stage = .pruning (row :: rest)) (h : s.prunes pass row rest referenced = some s') :
    pass.Does s s' := by
  unfold prunes at h
  split at h
  · cases h
  next hfree =>
    split at h
    · cases h; exact .leaves row rest pass.diff hstage
    · split at h
      · cases h; exact .leaves row rest _ hstage
      · cases h; exact .prunes row rest _ hstage (not_eq_true _ ▸ hfree)

theorem Pass.does_of_step (h : s.passStep pass input = some s') : pass.Does s s' := by
  unfold passStep at h
  cases input with
  | proceeds =>
    cases hstage : pass.stage with
    | loading => simp only [hstage] at h; cases h; exact .loads hstage
    | upserting existing entries =>
      cases entries with
      | nil => simp only [hstage] at h; cases h; exact .commits existing hstage
      | cons entry entries => simp only [hstage] at h; cases h; exact .resolves existing entry entries _ hstage
    | realizing =>
      simp only [hstage] at h
      exact does_of_realizes hstage h
    | pruning departed =>
      cases departed with
      | nil => simp only [hstage] at h; cases h; exact .finishes hstage
      | cons => simp only [hstage] at h; exact does_of_prunes hstage h
    | finished => simp only [hstage] at h; cases h
  | unreachable =>
    cases hstage : pass.stage with
    | upserting existing entries =>
      cases entries with
      | nil => simp only [hstage] at h; cases h
      | cons entry entries => simp only [hstage] at h; cases h; exact .resolves existing entry entries _ hstage
    | _ => simp only [hstage] at h; cases h
  | faults =>
    cases hstage : pass.stage with
    | finished => simp only [hstage] at h; cases h
    | _ => simp only [hstage] at h; cases h; exact .raises
end

/-! ## How the rows change -/

/-- What a pass has written: rows of its own, and rows of its entries, those of a `build` entry to the
    state, the object and the digest they have. -/
inductive Pass.Wrote (doc : Doc) (rows : Table Row) : Write → Prop where
  | insert (entry : Entry) (id : Uuid) (now : Time) (r : Realized) (hentry : entry ∈ doc.image)
      (hnew : rows.get id = none) (hbuild : entry.source = .build → r.state = .defined) :
      Wrote doc rows (.insert (entry.newRow id now r))
  | update (entry : Entry) (id : Uuid) (r : Realized) (row : Row) (hentry : entry ∈ doc.image)
      (hrow : rows.get id = some row) (hidentity : row.identity = entry.identity)
      (hbuild : entry.source = .build → r = row.realized) : Wrote doc rows (.update id entry r)

/-- What a commit does to the rows, when the row of the publish that commits is `mine`: a row of a `build` entry is
    realized as it was, unless it is `mine` and was not registered. -/
structure Evolves (doc : Doc) (mine : Option Uuid) (rows rows' : Table Row) : Prop where
  old : ∀ id row, rows.get id = some row → rows'.get id = none ∧ doc.builds row.identity = false ∨
    ∃ row', rows'.get id = some row' ∧ row'.scope = row.scope ∧
      (doc.builds row.identity = true → mine ≠ some id ∨ row.state = .registered → row'.realized = row.realized)
  new : ∀ id row', rows'.get id = some row' → rows.get id = none →
    row'.visibility = .isPublic ∧ (doc.builds row'.identity = true → row'.state = .defined)

section
variable {doc : Doc} {rows : Table Row} {row row' other : Row} {id : Uuid} {entry : Entry} {log : List Write}

theorem Doc.source_of_builds (hentry : entry ∈ doc.image) (h : doc.builds entry.identity = true) :
    entry.source = .build := by
  simp only [builds, any_eq_true, and_eq_true, decide_eq_true_eq] at h
  obtain ⟨entry', hentry', hsource, hidentity⟩ := h
  rwa [inj_on_of_nodup_map doc.unique hentry hentry' hidentity.symm]

theorem Row.identity_of_scope (h : row'.scope = row.scope) : row'.identity = row.identity := by
  simp only [scope, Scope.mk.injEq] at h
  simp only [identity, h.1, h.2.1, h.2.2.1]

theorem Row.registeredEntry_of_scope (h : row'.scope = row.scope) : row'.registeredEntry = row.registeredEntry := by
  simp only [scope, Scope.mk.injEq] at h
  obtain ⟨hprovider, hname, harch, hvisibility, howner⟩ := h
  simp only [registeredEntry, hprovider, hname, harch, hvisibility, howner]

theorem Row.identity_of_registeredEntry (h : other.registeredEntry = row.registeredEntry)
    (hpublic : other.visibility = .isPublic) : other.identity = row.identity := by
  unfold registeredEntry at h
  rw [hpublic] at h
  cases hvisibility : row.visibility with
  | isPublic =>
    simp only [hvisibility, IndexKey.onePublic.injEq] at h
    simp only [identity, h]
  | isPrivate => simp [hvisibility] at h

theorem Row.visibility_of_checks (h : row.checks = true) (h' : row'.checks = true)
    (howner : row'.owner = row.owner) : row'.visibility = row.visibility := by
  simp only [checks, and_eq_true, beq_iff_eq] at h h'
  have hiff := h.1.2.trans ((congrArg Option.isSome howner).symm.trans h'.1.2.symm)
  cases hv : row.visibility <;> cases hv' : row'.visibility <;> simp [hv, hv'] at hiff ⊢

section
variable (hlog : ∀ w ∈ log, Pass.Wrote doc rows w)
include hlog

theorem Pass.view_old (hrow : rows.get id = some row) :
    ∃ row', (view log rows).get id = some row' ∧ row'.identity = row.identity ∧
      row'.owner = row.owner ∧ row'.managedBy = row.managedBy ∧
      (doc.builds row.identity = true → row'.realized = row.realized) := by
  induction log using reverseRecOn with
  | nil => exact ⟨row, hrow, rfl, rfl, rfl, fun _ => rfl⟩
  | append_singleton log w ih =>
    obtain ⟨row1, hrow1, hidentity, howner, hmanaged, hrealized⟩ :=
      ih fun w' hw' => hlog w' (mem_append_left _ hw')
    rw [get_view_concat, hrow1]
    by_cases htarget : Edit.target Row w = id
    · rw [if_pos htarget]
      cases hlog w (mem_append_right _ mem_cons_self) with
      | insert =>
        exact ⟨row1, rfl, hidentity, howner, hmanaged, hrealized⟩
      | update entry id' r row2 hentry hrow2 hidentity2 hbuild =>
        obtain rfl : id' = id := htarget
        cases hrow2.symm.trans hrow
        refine ⟨_, rfl, hidentity, howner, hmanaged, fun h => ?_⟩
        rw [hidentity2] at h
        exact (hbuild (Doc.source_of_builds hentry h)).symm ▸ rfl
    · rw [if_neg htarget]
      exact ⟨row1, rfl, hidentity, howner, hmanaged, hrealized⟩

theorem Pass.view_new (hnone : rows.get id = none) (hrow' : (view log rows).get id = some row') :
    row'.owner = none ∧ (doc.builds row'.identity = true → row'.state = .defined) := by
  induction log using reverseRecOn generalizing row' with
  | nil =>
    rw [view_nil, hnone] at hrow'
    cases hrow'
  | append_singleton log w ih =>
    have hlog' : ∀ w' ∈ log, Pass.Wrote doc rows w' := fun w' hw' => hlog w' (mem_append_left _ hw')
    rw [get_view_concat] at hrow'
    by_cases htarget : Edit.target Row w = id
    · rw [if_pos htarget] at hrow'
      cases hlog w (mem_append_right _ mem_cons_self) with
      | insert entry id' now r hentry hnew hbuild =>
        cases hview : (view log rows).get id with
        | some row1 =>
          rw [hview] at hrow'
          obtain rfl : row1 = row' := Option.some.inj hrow'
          exact ih hlog' hview
        | none =>
          rw [hview] at hrow'
          obtain rfl : entry.newRow id' now r = row' := Option.some.inj hrow'
          exact ⟨rfl, fun h => hbuild (Doc.source_of_builds hentry h)⟩
      | update entry id' r row2 hentry hrow2 =>
        obtain rfl : id' = id := htarget
        cases hrow2.symm.trans hnone
    · rw [if_neg htarget] at hrow'
      exact ih hlog' hrow'

theorem Pass.evolves (hchecks : ∀ id row, rows.get id = some row → row.checks = true)
    (hchecks' : ∀ id row, (view log rows).get id = some row → row.checks = true) :
    Evolves doc none rows (view log rows) := by
  refine ⟨fun id row hrow => .inr ?_, fun id row' hrow' hnone => ?_⟩
  · obtain ⟨row', hrow', hidentity, howner, -, hrealized⟩ := view_old hlog hrow
    refine ⟨row', hrow', ?_, fun hbuild _ => hrealized hbuild⟩
    have hvisibility := Row.visibility_of_checks (hchecks id row hrow) (hchecks' id row' hrow') howner
    simp only [Row.identity, Prod.mk.injEq] at hidentity
    simp only [Row.scope, hidentity, hvisibility, howner]
  · obtain ⟨howner, hstate⟩ := view_new hlog hnone hrow'
    refine ⟨?_, hstate⟩
    have hcheck := hchecks' id row' hrow'
    simp only [Row.checks, and_eq_true, beq_iff_eq, howner, Option.isSome_none, decide_eq_false_iff_not] at hcheck
    cases hv : row'.visibility with
    | isPublic => rfl
    | isPrivate => exact absurd hv hcheck.1.2
end

theorem Pass.evolves_delete (hrow : ∀ row, rows.get id = some row → doc.builds row.identity = false) :
    Evolves doc none rows (view [delete id] rows) := by
  have hget : ∀ k, (view [delete id] rows).get k = if id = k then none else rows.get k :=
    fun k => Edit.get_apply rows (delete id) k
  refine ⟨fun k row hk => ?_, fun k row' hk hnone => ?_⟩
  · rw [hget]
    rcases eq_or_ne id k with rfl | hid
    · exact .inl ⟨if_pos rfl, hrow row hk⟩
    · exact .inr ⟨row, (if_neg hid).trans hk, rfl, fun _ _ => rfl⟩
  · rw [hget] at hk
    split at hk
    · cases hk
    · cases hk.symm.trans hnone
end

/-! ## What a publish relies on -/

/-- What holds of a publish: it has adopted its row, which nobody else has, or will have, registered under
    the same key, and which stays adopted, or registered, whoever commits. -/
structure Publish.Held (doc : Doc) (s : State) (p : Publish) : Prop where
  build : doc.builds (p.request.provider, p.request.name, p.request.arch) = true
  quiet : p.stage.row = none → p.log = []
  own : ∀ id, p.stage.row = some id → ∀ w ∈ p.log, (∃ now, w = .adopt id p.objectKey now) ∨ w = .register id
  unregistered : ∀ id now, .adopt id p.objectKey now ∈ p.log → ∀ row, s.rows.get id = some row → row.state ≠ .registered
  row : ∀ id, p.stage.row = some id → ∃ row, s.rows.get id = some row ∧ row.scope = p.request.scope
  seen : ∀ id, p.stage.row = some id → ∀ row, (s.seen p.log).get id = some row →
    row.state ≠ .defined ∧ row.objectKey.isSome = true
  alone : ∀ id, p.stage.row = some id → ∀ row, s.rows.get id = some row →
    ∀ id' other, s.rows.get id' = some other → id' ≠ id → other.registeredEntry = row.registeredEntry →
      other.state = .defined ∧ other.visibility = .isPublic ∧ ∀ q ∈ s.publishes, q.stage.row ≠ some id'
  returning : ∀ row, p.stage = .returning row → Overlay.touches Row p.log row.id = true ∧
    ∀ row', (s.seen p.log).get row.id = some row' → row'.state = .registered
  returned : ∀ row, p.stage = .returned row → ∃ row', s.rows.get row.id = some row' ∧
    row'.state = .registered ∧ doc.builds row'.identity = true
  outcome : p.stage ≠ .raised .vanished ∧ p.stage ≠ .raised .unregistered

section
variable {doc : Doc} {s s' : State} {p q : Publish} {id : Uuid} {row row' : Row} {mine : Option Uuid}

section
variable (hp : p.Held doc s)
include hp

theorem Publish.Held.touches {k : Uuid} (hk : touches Row p.log k = true) : p.stage.row = some k := by
  refine row_of_touches hp.quiet (fun id hid w hw => ?_) hk
  rcases hp.own id hid w hw with ⟨now, rfl⟩ | rfl
  · rfl
  · rfl

theorem Publish.Held.seen_of_ne (hid : p.stage.row = some id) {k : Uuid} (hne : k ≠ id) :
    (s.seen p.log).get k = s.rows.get k := by
  refine get_view_of_not_touches ?_
  cases htouches : Overlay.touches Row p.log k with
  | false => rfl
  | true => exact absurd (Option.some.inj (hid.symm.trans (hp.touches htouches))).symm hne

theorem Publish.Held.builds (hscope : row.scope = p.request.scope) : doc.builds row.identity = true := by
  simp only [Row.scope, PublishRequest.scope, Scope.mk.injEq] at hscope
  simp only [Row.identity, hscope]
  exact hp.build

theorem Publish.Held.view (hid : p.stage.row = some id)
    (hrow : s.rows.get id = some row) : ∃ row', (s.seen p.log).get id = some row' ∧
      row'.scope = row.scope ∧ (row.state = .registered → row'.realized = row.realized) := by
  suffices h : ∀ log : List Write, (∀ w ∈ log, w ∈ p.log) → ∃ row',
      (Overlay.view log s.rows).get id = some row' ∧ row'.scope = row.scope ∧
        (row.state = .registered → row'.realized = row.realized) from h p.log fun _ hw => hw
  intro log hlog
  induction log using reverseRecOn with
  | nil => exact ⟨row, hrow, rfl, fun _ => rfl⟩
  | append_singleton log w ih =>
    obtain ⟨row1, hrow1, hscope, hrealized⟩ := ih fun w' hw' => hlog w' (mem_append_left _ hw')
    have hw := hlog w (mem_append_right _ mem_cons_self)
    rw [get_view_concat, hrow1]
    rcases hp.own id hid w hw with ⟨now, rfl⟩ | rfl
    · refine ⟨adopted p.objectKey now row1, if_pos rfl, hscope, fun hstate => ?_⟩
      exact absurd hstate (hp.unregistered id now hw row hrow)
    · refine ⟨registered row1, if_pos rfl, hscope, fun hstate => ?_⟩
      have hstate1 : row1.state = .registered :=
        (congrArg state (hrealized hstate)).trans hstate
      have hsame : registered row1 = row1 := by
        cases row1
        cases hstate1
        rfl
      rw [hsame]
      exact hrealized hstate

theorem Publish.Held.evolves : Evolves doc p.stage.row s.rows (s.seen p.log) := by
  refine ⟨fun id row hrow => .inr ?_, fun id row' hrow' hnone => ?_⟩
  · cases htouches : Overlay.touches Row p.log id with
    | false => exact ⟨row, (get_view_of_not_touches htouches).trans hrow, rfl, fun _ _ => rfl⟩
    | true =>
      have hid := hp.touches htouches
      obtain ⟨row', hrow', hscope, hrealized⟩ := hp.view hid hrow
      refine ⟨row', hrow', hscope, fun _ h => hrealized ?_⟩
      rcases h with h | h
      · exact absurd hid h
      · exact h
  · cases htouches : Overlay.touches Row p.log id with
    | false =>
      rw [State.seen, get_view_of_not_touches htouches, hnone] at hrow'
      cases hrow'
    | true =>
      obtain ⟨row, hrow, -⟩ := hp.row id (hp.touches htouches)
      cases hrow.symm.trans hnone
end

theorem Publish.Held.evolve (hq : q.Held doc s) (hrows : Evolves doc mine s.rows s'.rows)
    (hapart : ∀ id, Overlay.touches Row q.log id = true → s'.rows.get id = s.rows.get id)
    (hpublishes : ∀ q' ∈ s'.publishes, ∀ id, q'.stage.row = some id →
      ∃ q'' ∈ s.publishes, q''.stage.row = some id ∧ q''.Held doc s)
    (hmine : ∀ id, mine = some id → (∃ p ∈ s.publishes, p.stage.row = some id) ∧
      ∀ row', s'.rows.get id = some row' → row'.state ≠ .defined ∧ row'.objectKey.isSome = true) : q.Held doc s' := by
  -- a row of a `build` entry stays
  have hkept : ∀ id row, s.rows.get id = some row → doc.builds row.identity = true →
      ∃ row', s'.rows.get id = some row' ∧ row'.scope = row.scope ∧
        (mine ≠ some id ∨ row.state = .registered → row'.realized = row.realized) := by
    intro id row hrow hbuild
    rcases hrows.old id row hrow with ⟨-, hnot⟩ | ⟨row', hrow', hscope, hrealized⟩
    · cases hnot.symm.trans hbuild
    · exact ⟨row', hrow', hscope, hrealized hbuild⟩
  have hseen : ∀ id, Overlay.touches Row q.log id = true →
      (s'.seen q.log).get id = (s.seen q.log).get id := fun id h => get_view_congr (hapart id h)
  refine ⟨hq.build, hq.quiet, hq.own, fun id now hw row hrow => ?_, fun id hid => ?_, fun id hid row' hrow' => ?_,
    fun id hid row' hrow' id' other hother hne hentry => ?_, fun row hstage => ?_, fun row hstage => ?_,
    hq.outcome⟩
  · have htouches : Overlay.touches Row q.log id = true :=
      any_eq_true.mpr ⟨_, hw, decide_eq_true rfl⟩
    rw [hapart id htouches] at hrow
    exact hq.unregistered id now hw row hrow
  · obtain ⟨row, hrow, hscope⟩ := hq.row id hid
    obtain ⟨row', hrow', hscope', -⟩ := hkept id row hrow (hq.builds hscope)
    exact ⟨row', hrow', hscope'.trans hscope⟩
  · cases htouches : Overlay.touches Row q.log id with
    | true =>
      rw [hseen id htouches] at hrow'
      exact hq.seen id hid row' hrow'
    | false =>
      rw [State.seen, get_view_of_not_touches htouches] at hrow'
      by_cases hm : mine = some id
      · exact (hmine id hm).2 row' hrow'
      · obtain ⟨row, hrow, hscope⟩ := hq.row id hid
        obtain ⟨row1, hrow1, -, hrealized⟩ := hkept id row hrow (hq.builds hscope)
        obtain rfl : row1 = row' := Option.some.inj (hrow1.symm.trans hrow')
        have hold := hq.seen id hid row ((get_view_of_not_touches htouches).trans hrow)
        have hr := hrealized (.inl hm)
        rw [show row1.state = row.state from congrArg state hr,
          show row1.objectKey = row.objectKey from congrArg Realized.objectKey hr]
        exact hold
  · obtain ⟨row, hrow, hscope⟩ := hq.row id hid
    obtain ⟨row1, hrow1, hscope1, -⟩ := hkept id row hrow (hq.builds hscope)
    cases hrow1.symm.trans hrow'
    rw [Row.registeredEntry_of_scope hscope1] at hentry
    cases hother0 : s.rows.get id' with
    | none =>
      -- a row that has just come is a placeholder, and nobody's
      obtain ⟨hpublic, hstate⟩ := hrows.new id' other hother hother0
      refine ⟨hstate ?_, hpublic, fun q' hq' h => ?_⟩
      · rw [Row.identity_of_registeredEntry hentry hpublic]
        exact hq.builds hscope
      · obtain ⟨q'', -, hid'', hheld⟩ := hpublishes q' hq' id' h
        obtain ⟨row'', hrow'', -⟩ := hheld.row id' hid''
        cases hrow''.symm.trans hother0
    | some other0 =>
      rcases hrows.old id' other0 hother0 with ⟨hgone, -⟩ | ⟨other1, hother1, hscope', hrealized⟩
      · cases hother.symm.trans hgone
      · cases hother1.symm.trans hother
        rw [Row.registeredEntry_of_scope hscope'] at hentry
        obtain ⟨hstate, hpublic, hnobody⟩ := hq.alone id hid row hrow id' other0 hother0 hne hentry
        have hbuild : doc.builds other0.identity = true := by
          rw [Row.identity_of_registeredEntry hentry hpublic]
          exact hq.builds hscope
        have hnot : mine ≠ some id' := fun h => by
          obtain ⟨p, hp, hrow⟩ := (hmine id' h).1
          exact hnobody p hp hrow
        have hr := hrealized hbuild (.inl hnot)
        refine ⟨(congrArg state hr).trans hstate, ?_, fun q' hq' h => ?_⟩
        · exact (congrArg Scope.visibility hscope').trans hpublic
        · obtain ⟨q'', hq'', hid'', -⟩ := hpublishes q' hq' id' h
          exact hnobody q'' hq'' hid''
  · obtain ⟨htouches, hstate⟩ := hq.returning row hstage
    exact ⟨htouches, fun row' hrow' => hstate row' ((hseen row.id htouches).symm.trans hrow')⟩
  · obtain ⟨row0, hrow0, hstate, hbuild⟩ := hq.returned row hstage
    obtain ⟨row', hrow', hscope, hrealized⟩ := hkept row.id row0 hrow0 hbuild
    refine ⟨row', hrow', (congrArg state (hrealized (.inr hstate))).trans hstate, ?_⟩
    rwa [Row.identity_of_scope hscope]
end

/-! ## What the pass relies on -/

/-- The rows that were loaded are there; those of a `build` entry that were registered are realized as
    they were, and the others the entry leaves as they are. -/
structure Loaded (doc : Doc) (rows : Table Row) (existing : List Row) : Prop where
  kept : ∀ r ∈ existing, ∃ row, rows.get r.id = some row ∧ row.identity = r.identity ∧
    (doc.builds r.identity = true → r.state = .registered → row.realized = r.realized)
  steady : ∀ r ∈ existing, ∀ entry ∈ doc.image, entry.source = .build → entry.identity = r.identity →
    r.state = .registered ∨ entry.changed .placeholder r = false

def PassStage.Ok (doc : Doc) (rows : Table Row) (log : List Write) : PassStage → Prop
  | .loading | .finished => log = []
  | .upserting existing entries => Loaded doc rows existing ∧ ∀ entry ∈ entries, entry ∈ doc.image
  | .realizing existing entry entries _ => Loaded doc rows existing ∧
    ∀ entry' ∈ entry :: entries, entry' ∈ doc.image
  | .pruning departed => log = [] ∧ ∀ r ∈ departed, doc.builds r.identity = false ∧
    ∀ row, rows.get r.id = some row → row.identity = r.identity

structure Pass.Ok (doc : Doc) (rows : Table Row) (pass : Pass) : Prop where
  image : pass.doc.image = doc.image
  wrote : ∀ w ∈ pass.log, Pass.Wrote doc rows w
  stage : pass.stage.Ok doc rows pass.log

section
variable {doc : Doc} {s : State} {rows rows' : Table Row} {pass : Pass} {existing : List Row} {row : Row}
  {entry : Entry} {head : S3Head} {mine : Option Uuid}

theorem State.mem_of_loadedRow (h : loadedRow existing entry.identity = some row) :
    row ∈ existing ∧ row.identity = entry.identity := by
  refine ⟨mem_reverse.mp (mem_of_find?_eq_some h), ?_⟩
  simpa using find?_some h

theorem Loaded.of_steady (hload : s.loadsSteady doc = true) :
    Loaded doc s.rows (s.rows.rows.filter (·.managedBy = .config)) := by
  refine ⟨fun r hr => ?_, fun r hr entry hentry hsource hidentity => ?_⟩
  · exact ⟨r, Table.get_eq_some.mpr ⟨(List.mem_filter.mp hr).1, rfl⟩, rfl, fun _ _ => rfl⟩
  · obtain ⟨hmem, hconfig⟩ := List.mem_filter.mp hr
    simp only [loadsSteady, all_eq_true] at hload
    have hrow := hload entry hentry
    simp only [hsource, ne_eq, not_true_eq_false, decide_false, Bool.false_or, all_eq_true] at hrow
    have hsteady := hrow r hmem
    simp only [decide_eq_true_eq] at hconfig
    simp only [hconfig, not_true_eq_false, decide_false, hidentity, Bool.false_or, Bool.or_eq_true,
      decide_eq_true_eq, Bool.not_eq_true'] at hsteady
    exact hsteady

/-- What the pass writes on the row of a `build` entry is what the row is. -/
theorem Loaded.wrote_update (hload : Loaded doc rows existing) (hentry : entry ∈ doc.image)
    (hrow : loadedRow existing entry.identity = some row)
    (hchanged : entry.changed (entry.realize (some row) head).1 row = true) :
    Pass.Wrote doc rows (.update row.id entry (entry.realize (some row) head).1) := by
  obtain ⟨hmem, hidentity⟩ := mem_of_loadedRow hrow
  obtain ⟨row0, hrow0, hidentity0, hrealized⟩ := hload.kept row hmem
  refine .update entry row.id _ row0 hentry hrow0 (hidentity0.trans hidentity) fun hsource => ?_
  have hbuild : doc.builds row.identity = true :=
    any_eq_true.mpr ⟨entry, hentry, by simp [hsource, hidentity]⟩
  have hstate : row.state = .registered := by
    rcases hload.steady row hmem entry hentry hsource hidentity.symm with hstate | hsame
    · exact hstate
    · by_contra hnot
      have hplace : (entry.realize (some row) head).1 = .placeholder := by
        simp only [Entry.realize, hsource, Option.filter, hnot, decide_false, false_eq_true, if_false, placeholder]
      rw [hplace, hsame] at hchanged
      cases hchanged
  rw [hrealized hbuild hstate]
  simp only [Entry.realize, hsource, Option.filter, hstate, decide_true, if_true]

theorem Pass.wrote_insert {id : Uuid} {now : Time} (hentry : entry ∈ doc.image) (hnew : rows.get id = none) :
    Pass.Wrote doc rows (.insert (entry.newRow id now (entry.realize none head).1)) := by
  refine .insert entry id now _ hentry hnew fun hsource => ?_
  simp only [Entry.realize, hsource, Option.filter]

theorem Pass.Wrote.congr {w : Write} (h : Pass.Wrote doc rows w)
    (hget : rows'.get w.target = rows.get w.target) : Pass.Wrote doc rows' w := by
  cases h with
  | insert entry id now r hentry hnew hbuild => exact .insert entry id now r hentry (hget.trans hnew) hbuild
  | update entry id r row hentry hrow hidentity hbuild =>
    exact .update entry id r row hentry (hget.trans hrow) hidentity hbuild

theorem Loaded.evolve (hload : Loaded doc rows existing)
    (hrows : ∀ id row, rows.get id = some row → ∃ row', rows'.get id = some row' ∧ row'.identity = row.identity ∧
      (doc.builds row.identity = true → row.state = .registered → row'.realized = row.realized)) :
    Loaded doc rows' existing := by
  refine ⟨fun r hr => ?_, hload.steady⟩
  obtain ⟨row, hrow, hidentity, hrealized⟩ := hload.kept r hr
  obtain ⟨row', hrow', hidentity', hrealized'⟩ := hrows r.id row hrow
  refine ⟨row', hrow', hidentity'.trans hidentity, fun hbuild hstate => ?_⟩
  have hr := hrealized hbuild hstate
  have hstate0 : row.state = .registered := (congrArg state hr).trans hstate
  exact (hrealized' (hidentity ▸ hbuild) hstate0).trans hr

theorem Pass.Ok.evolve (hpass : pass.Ok doc rows)
    (hrows : ∀ id row, rows.get id = some row → ∃ row', rows'.get id = some row' ∧ row'.identity = row.identity ∧
      (doc.builds row.identity = true → row.state = .registered → row'.realized = row.realized))
    (hnone : ∀ id, rows.get id = none → rows'.get id = none)
    (hapart : ∀ w ∈ pass.log, rows'.get w.target = rows.get w.target) : pass.Ok doc rows' := by
  refine ⟨hpass.image, fun w hw => (hpass.wrote w hw).congr (hapart w hw), ?_⟩
  have hstage := hpass.stage
  cases hcase : pass.stage with
  | loading | finished => rw [hcase] at hstage; exact hstage
  | upserting | realizing =>
    rw [hcase] at hstage
    exact ⟨hstage.1.evolve hrows, hstage.2⟩
  | pruning =>
    rw [hcase] at hstage
    refine ⟨hstage.1, fun r hr => ⟨(hstage.2 r hr).1, fun row' hrow' => ?_⟩⟩
    cases hrow : rows.get r.id with
    | none => cases hrow'.symm.trans (hnone r.id hrow)
    | some row =>
      obtain ⟨row1, hrow1, hidentity, -⟩ := hrows r.id row hrow
      cases hrow1.symm.trans hrow'
      exact hidentity.trans ((hstage.2 r hr).2 row hrow)
end

/-! ## All of them together -/

structure Inventoried (doc : Doc) (s : State) : Prop where
  exclusive : Overlay.Exclusive Row s.logs
  shows : Overlay.Shows (fun row => row.checks = true) s.logs s.rows
  publishes : ∀ (i : Nat) (p : Publish), s.publishes[i]? = some p → p.Held doc s
  pass : ∀ pass, s.pass = some pass → pass.Ok doc s.rows

section
variable {cfg : Config} {doc : Doc} {s s' : State} {i j : Nat} {p p' q : Publish} {pass pass' : Pass}
  {id : Uuid} {row : Row} {m : Move}

theorem Inventoried.mem (hI : Inventoried doc s) (hp : p ∈ s.publishes) : p.Held doc s := by
  obtain ⟨i, hi⟩ := mem_iff_getElem?.mp hp
  exact hI.publishes i p hi

theorem State.logs_pass (h : s.pass = some pass) : s.logs[0]? = some pass.log := by
  rw [logs, h]
  rfl

theorem State.logs_setPass (hpublishes : s'.publishes = s.publishes) (hpass : s'.pass = some pass') :
    s'.logs = s.logs.set 0 pass'.log := by
  rw [logs, logs, hpublishes, hpass]
  rfl

variable {log : List Write}

theorem State.shows_of_accepted {w : Write} (hlog : ∀ k r, (s.seen log).get k = some r → r.checks = true)
    (haccepted : s.judge i log w = .accepted) (k : Uuid) (r : Row)
    (hr : (s.seen (log ++ [w])).get k = some r) : r.checks = true := by
  rcases eq_or_ne w.target k with rfl | htarget
  · exact checks_of_accepted haccepted hr
  · have hview : (s.seen (log ++ [w])).get k = (s.seen log).get k :=
      get_view_concat.trans (if_neg htarget)
    exact hlog k r (hview.symm.trans hr)

theorem Publish.Held.of_rows (hq : q.Held doc s) (hrows : s'.rows = s.rows)
    (hpublishes : ∀ q' ∈ s'.publishes, ∀ id, q'.stage.row = some id → (∃ p ∈ s.publishes, p.stage.row = some id) ∨
      ∀ id0 row0 row, q.stage.row = some id0 → s.rows.get id0 = some row0 → s.rows.get id = some row →
        id ≠ id0 → row.registeredEntry ≠ row0.registeredEntry) : q.Held doc s' := by
  have hseen : s'.seen q.log = s.seen q.log := by rw [State.seen, State.seen, hrows]
  refine ⟨hq.build, hq.quiet, hq.own, ?_, ?_, ?_, fun id hid row hrow id' other hother hne hentry => ?_, ?_, ?_,
    hq.outcome⟩
  · rw [hrows]; exact hq.unregistered
  · rw [hrows]; exact hq.row
  · rw [hseen]; exact hq.seen
  · rw [hrows] at hrow hother
    obtain ⟨hstate, hpublic, hnobody⟩ := hq.alone id hid row hrow id' other hother hne hentry
    refine ⟨hstate, hpublic, fun q' hq' h => ?_⟩
    rcases hpublishes q' hq' id' h with ⟨p, hp, hp'⟩ | hnew
    · exact hnobody p hp hp'
    · exact hnew id row other hid hrow hother hne hentry
  · rw [hseen]; exact hq.returning
  · rw [hrows]; exact hq.returned

theorem Publish.Held.put (hq : q.Held doc s) (hrows : s'.rows = s.rows)
    (hpublishes : s'.publishes = s.publishes.set i p') (hrow' : ∀ id, p'.stage.row = some id →
      (∃ p ∈ s.publishes, p.stage.row = some id) ∨
        ∀ id0 row0 row, q.stage.row = some id0 → s.rows.get id0 = some row0 → s.rows.get id = some row →
          id ≠ id0 → row.registeredEntry ≠ row0.registeredEntry) : q.Held doc s' := by
  refine hq.of_rows hrows fun q' hq' id hid => ?_
  rw [hpublishes] at hq'
  rcases mem_or_eq_of_mem_set hq' with hq' | rfl
  · exact .inl ⟨q', hq', hid⟩
  · exact hrow' id hid

theorem Inventoried.put (hI : Inventoried doc s) (hi : s.publishes[i]? = some p)
    (hrows : s'.rows = s.rows) (hpublishes : s'.publishes = s.publishes.set i p') (hpass : s'.pass = s.pass)
    (hlog : ∀ k, touches Row p'.log k = true → touches Row p.log k = true ∨ s.held (i + 1) k = false)
    (hshows : ∀ k r, (s.seen p'.log).get k = some r → r.checks = true) (hp' : p'.Held doc s')
    (hrow' : ∀ id, p'.stage.row = some id → p.stage.row = some id ∨
      ∀ q ∈ s.publishes, ∀ id0 row0 row, q.stage.row = some id0 → s.rows.get id0 = some row0 →
        s.rows.get id = some row → id ≠ id0 → row.registeredEntry ≠ row0.registeredEntry) : Inventoried doc s' := by
  have hlogs := logs_set hpublishes hpass
  refine ⟨?_, ?_, fun j q hj => ?_, fun pass h => ?_⟩
  · rw [hlogs]
    exact hI.exclusive.set (logs_publish hi) hlog
  · rw [hlogs, hrows]
    exact hI.shows.set hshows
  · rw [hpublishes] at hj
    rcases getElem?_set_cases hj with ⟨-, rfl⟩ | ⟨-, hj⟩
    · exact hp'
    · refine (hI.publishes j q hj).put hrows hpublishes fun id hid => ?_
      rcases hrow' id hid with h | h
      · exact .inl ⟨p, mem_of_getElem? hi, h⟩
      · exact .inr (h q (mem_of_getElem? hj))
  · rw [hrows]
    exact hI.pass pass (hpass.symm.trans h)

theorem Publish.Held.rows_commits (hp : p.Held doc s) (hrow : s.rows.get id = some row) :
    ∃ row', (s.seen p.log).get id = some row' ∧ row'.identity = row.identity ∧
      (doc.builds row.identity = true → row.state = .registered → row'.realized = row.realized) := by
  cases htouches : Overlay.touches Row p.log id with
  | false => exact ⟨row, (get_view_of_not_touches htouches).trans hrow, rfl, fun _ _ => rfl⟩
  | true =>
    obtain ⟨row', hrow', hscope, hrealized⟩ := hp.view (hp.touches htouches) hrow
    exact ⟨row', hrow', Row.identity_of_scope hscope, fun _ => hrealized⟩

theorem Publish.Held.none_commits (hp : p.Held doc s) (hnone : s.rows.get id = none) :
    (s.seen p.log).get id = none := by
  cases htouches : Overlay.touches Row p.log id with
  | false => exact (get_view_of_not_touches htouches).trans hnone
  | true =>
    obtain ⟨row, hrow, -⟩ := hp.row id (hp.touches htouches)
    cases hrow.symm.trans hnone

section
variable (hI : Inventoried doc s)
include hI

theorem Inventoried.apart (hi : s.logs[i]? = some log) {log' : List Write} (hj : s.logs[j]? = some log') (hne : j ≠ i)
    (htouches : touches Row log' id = true) : (s.seen log).get id = s.rows.get id := by
  refine get_view_of_not_touches ?_
  cases h : touches Row log id with
  | false => rfl
  | true => exact absurd (hI.exclusive j i _ _ hj hi id htouches h) hne

theorem Inventoried.commits (hi : s.publishes[i]? = some p) {stage : Stage}
    (hrow' : ∀ id, stage.row = some id → p.stage.row = some id)
    (hp' : Publish.Held doc (s.commits i p stage) { p with stage, log := [] }) :
    Inventoried doc (s.commits i p stage) := by
  have hp := hI.publishes i p hi
  have hlt : i < s.publishes.length := (List.getElem?_eq_some_iff.mp hi).1
  have hlogs : (s.commits i p stage).logs = s.logs.set (i + 1) [] :=
    @State.logs_set s (s.commits i p stage) i { p with stage, log := [] } rfl rfl
  refine ⟨?_, ?_, fun j q hj => ?_, fun pass hpass => ?_⟩
  · rw [hlogs]
    exact hI.exclusive.set (logs_publish hi) nofun
  · rw [hlogs]
    exact hI.shows.commit hI.exclusive (logs_publish hi)
  · rcases getElem?_set_cases hj with ⟨-, rfl⟩ | ⟨hij, hj⟩
    · exact hp'
    · refine (hI.publishes j q hj).evolve hp.evolves (fun id htouches => ?_) (fun q' hq' id hid => ?_)
        fun id hid => ⟨⟨p, mem_of_getElem? hi, hid⟩, hp.seen id hid⟩
      · exact hI.apart (logs_publish hi) (logs_publish hj) (fun h => hij (Nat.succ.inj h).symm) htouches
      · rcases mem_or_eq_of_mem_set hq' with hq' | rfl
        · exact ⟨q', hq', hid, hI.mem hq'⟩
        · exact ⟨p, mem_of_getElem? hi, hrow' id hid, hp⟩
  · have hok := hI.pass pass hpass
    refine hok.evolve (fun id row hrow => hp.rows_commits hrow) (fun id hnone => hp.none_commits hnone)
      fun w hw => ?_
    have htouches : touches Row pass.log w.target = true :=
      any_eq_true.mpr ⟨w, hw, decide_eq_true rfl⟩
    exact hI.apart (logs_publish hi) (logs_pass hpass) (Nat.succ_ne_zero i).symm htouches

theorem Inventoried.setPass (hpass : s.pass = some pass)
    (hlog : ∀ k, touches Row pass'.log k = true → touches Row pass.log k = true ∨ s.held 0 k = false)
    (hshows : ∀ k r, (s.seen pass'.log).get k = some r → r.checks = true)
    (hok : pass'.Ok doc s.rows) : Inventoried doc (s.setPass pass') := by
  have hlogs : (s.setPass pass').logs = s.logs.set 0 pass'.log := logs_setPass rfl rfl
  refine ⟨?_, ?_, fun j q hj => ?_, fun pass1 h => ?_⟩
  · rw [hlogs]
    exact hI.exclusive.set (logs_pass hpass) hlog
  · rw [hlogs]
    exact hI.shows.set hshows
  · exact (hI.publishes j q hj).of_rows rfl fun q' hq' id hid => .inl ⟨q', hq', hid⟩
  · cases h
    exact hok

theorem Inventoried.commitsPass (hpass : s.pass = some pass)
    (hlog : ∀ k, touches Row log k = true → touches Row pass.log k = true ∨ s.held 0 k = false)
    (hshows : ∀ k r, (s.seen log).get k = some r → r.checks = true)
    (hrows : Evolves doc none s.rows (s.seen log)) (hlog' : pass'.log = [])
    (hok : pass'.Ok doc (s.seen log)) : Inventoried doc { s with rows := s.seen log, pass := some pass' } := by
  -- the logs with what is committed in the pass's place
  have hexclusive := hI.exclusive.set (logs_pass hpass) hlog
  have hlogs0 : (s.logs.set 0 log)[0]? = some log := rfl
  have hlogs : logs { s with rows := s.seen log, pass := some pass' } = (s.logs.set 0 log).set 0 [] := by
    rw [set_set, ← hlog']
    exact logs_setPass rfl rfl
  refine ⟨?_, ?_, fun j q hj => ?_, fun pass1 h => ?_⟩
  · rw [hlogs]
    exact hexclusive.set hlogs0 nofun
  · rw [hlogs]
    exact (hI.shows.set hshows).commit hexclusive hlogs0
  · refine (hI.publishes j q hj).evolve hrows (fun id htouches => ?_)
      (fun q' hq' id hid => ⟨q', hq', hid, hI.mem hq'⟩) nofun
    refine get_view_of_not_touches ?_
    cases h : touches Row log id with
    | false => rfl
    | true =>
      have hj' : (s.logs.set 0 log)[j + 1]? = some q.log := logs_publish hj
      exact absurd (hexclusive (j + 1) 0 _ _ hj' hlogs0 id htouches h) (Nat.succ_ne_zero j)
  · cases h
    exact hok
end

/-! ### A publish goes on -/

theorem Publish.Held.restage (hp : p.Held doc s) {stage : Stage} {start : Time}
    (hrow : stage.row = p.stage.row) (hreturning : ∀ row, stage ≠ .returning row)
    (hfinished : stage.finished = false) : Publish.Held doc s { p with stage, start } := by
  refine ⟨hp.build, fun h => hp.quiet (hrow.symm.trans h), fun id h => hp.own id (hrow.symm.trans h),
    hp.unregistered, fun id h => hp.row id (hrow.symm.trans h), fun id h => hp.seen id (hrow.symm.trans h),
    fun id h => hp.alone id (hrow.symm.trans h), fun row h => absurd h (hreturning row), fun row h => ?_, ?_, ?_⟩
  · rw [show stage = _ from h] at hfinished
    cases hfinished
  · intro h
    rw [show stage = _ from h] at hfinished
    cases hfinished
  · intro h
    rw [show stage = _ from h] at hfinished
    cases hfinished

theorem Publish.Held.of_rowless (hbuild : doc.builds (p.request.provider, p.request.name, p.request.arch) = true)
    (hlog : p.log = []) (hrow : p.stage.row = none) (hreturned : ∀ row, p.stage = .returned row →
      ∃ row', s.rows.get row.id = some row' ∧ row'.state = .registered ∧ doc.builds row'.identity = true)
    (houtcome : p.stage ≠ .raised .vanished ∧ p.stage ≠ .raised .unregistered) : p.Held doc s := by
  have hnot : ∀ id, p.stage.row ≠ some id := fun id h => by cases hrow.symm.trans h
  refine ⟨hbuild, fun _ => hlog, fun id h => (hnot id h).elim, fun id now hw => ?_, fun id h => (hnot id h).elim,
    fun id h => (hnot id h).elim, fun id h => (hnot id h).elim, fun row h => ?_, hreturned, houtcome⟩
  · rw [hlog] at hw
    cases hw
  · rw [h] at hrow
    cases hrow

theorem Publish.Held.raised (hp : p.Held doc s) {error : PublishError} (hvanished : error ≠ .vanished)
    (hunregistered : error ≠ .unregistered) : Publish.Held doc s' { p with stage := .raised error, log := [] } := by
  refine .of_rowless hp.build rfl rfl (fun row h => ?_) ⟨fun h => ?_, fun h => ?_⟩
  · cases h
  · exact hvanished (raised.inj h)
  · exact hunregistered (raised.inj h)

section
variable (hI : Inventoried doc s)
include hI

variable (hi : s.publishes[i]? = some p)
include hi

theorem Inventoried.shows_log (k : Uuid) (r : Row) (hr : (s.seen p.log).get k = some r) : r.checks = true :=
  hI.shows.2 p.log (mem_of_getElem? (logs_publish hi)) k r hr

theorem Inventoried.raises (hrows : s'.rows = s.rows) {error : PublishError}
    (hpublishes : s'.publishes = s.publishes.set i { p with stage := .raised error, log := [] })
    (hpass : s'.pass = s.pass) (hvanished : error ≠ .vanished) (hunregistered : error ≠ .unregistered) :
    Inventoried doc s' :=
  hI.put hi hrows hpublishes hpass nofun hI.shows.1 ((hI.publishes i p hi).raised hvanished hunregistered) nofun

theorem Inventoried.restage (hrows : s'.rows = s.rows) {stage : Stage} {start : Time}
    (hpublishes : s'.publishes = s.publishes.set i { p with stage, start }) (hpass : s'.pass = s.pass)
    (hrow : stage.row = p.stage.row) (hreturning : ∀ row, stage ≠ .returning row)
    (hfinished : stage.finished = false) : Inventoried doc s' := by
  refine hI.put hi hrows hpublishes hpass (fun k hk => .inl hk) (fun k r hr => hI.shows_log hi k r hr) ?_
    fun id hid => .inl (hrow.symm.trans hid)
  have hp : p.Held doc s' := (hI.publishes i p hi).put hrows hpublishes fun id hid =>
    .inl ⟨p, mem_of_getElem? hi, hrow.symm.trans hid⟩
  exact hp.restage hrow hreturning hfinished
end

theorem Publish.Held.adopts (hp : p.Held doc s) {ids : List Uuid} (hstage : p.stage = .locking (id :: ids))
    (hrow : s.rows.get id = some row) (hfits : adoptable p.request row = true)
    (halone : ∀ id' other, s.rows.get id' = some other → id' ≠ id →
      other.registeredEntry ≠ row.registeredEntry) (hrows : s'.rows = s.rows) : Publish.Held doc s'
      { p with stage := p.holding id, log := p.log ++ [.adopt id p.objectKey p.start] } := by
  have hnil : p.log = [] := hp.quiet (by rw [hstage]; rfl)
  have hholding : ∀ id', (p.holding id).row = some id' → id = id' := fun id' h =>
    Option.some.inj ((p.holding_row id).symm.trans h)
  have hnot : ∀ stage : Stage, stage.row ≠ some id → p.holding id ≠ stage := by
    rintro stage hstage rfl
    exact hstage (p.holding_row id)
  simp only [adoptable, and_eq_true, decide_eq_true_eq] at hfits
  have hlog : ∀ w ∈ p.log ++ [Write.adopt id p.objectKey p.start], w = .adopt id p.objectKey p.start := by
    intro w hw
    rw [hnil, nil_append] at hw
    exact mem_singleton.mp hw
  refine ⟨hp.build, fun h => ?_, fun id' h w hw => ?_, fun id' now hw row' hrow' => ?_, fun id' h => ?_,
    fun id' h row' hrow' => ?_, fun id' h row' hrow' id'' other hother hne hentry => ?_, fun row' h => ?_,
    fun row' h => ?_, hnot _ (by rintro ⟨⟩), hnot _ (by rintro ⟨⟩)⟩
  · cases (p.holding_row id).symm.trans h
  · obtain rfl := hholding id' h
    exact .inl ⟨p.start, hlog w hw⟩
  · have heq := hlog _ hw
    cases heq
    rw [hrows] at hrow'
    cases hrow.symm.trans hrow'
    exact hfits.2
  · obtain rfl := hholding id' h
    exact ⟨row, by rw [hrows]; exact hrow, hfits.1⟩
  · obtain rfl := hholding id' h
    have hview : (s'.seen (p.log ++ [.adopt id p.objectKey p.start])).get id =
        some (adopted p.objectKey p.start row) := by
      rw [hnil, nil_append]
      exact seen_adopt (by rw [hrows]; exact hrow) _ _
    cases hview.symm.trans hrow'
    exact ⟨(by rintro ⟨⟩), rfl⟩
  · obtain rfl := hholding id' h
    rw [hrows] at hrow' hother
    cases hrow.symm.trans hrow'
    exact absurd hentry (halone id'' other hother hne)
  · have hcaller : (p.holding id) ≠ .returning row' := by
      unfold holding
      cases p.caller <;> simp
    exact absurd h hcaller
  · have hcaller : (p.holding id) ≠ .returned row' := by
      unfold holding
      cases p.caller <;> simp
    exact absurd h hcaller

theorem State.seen_register (h : (s.seen log).get id = some row) :
    (s.seen (log ++ [.register id])).get id = some (registered row) :=
  get_view_concat.trans ((if_pos rfl).trans (congrArg (Option.map registered) h))

/-- Its row is there, and can be registered. -/
theorem Inventoried.registrable (hI : Inventoried doc s) (hi : s.publishes[i]? = some p)
    (hstage : p.stage = .registering id) :
    (∃ row, (s.seen (p.log ++ [.register id])).get id = some row ∧ row.id = id ∧ row.state = .registered) ∧
      s.judge (i + 1) p.log (.register id) ≠ .refused := by
  have hp := hI.publishes i p hi
  have hid : p.stage.row = some id := by rw [hstage]; rfl
  obtain ⟨row0, hrow0, hscope0⟩ := hp.row id hid
  obtain ⟨row, hrow, hscope, -⟩ := hp.view hid hrow0
  have hview := seen_register hrow
  refine ⟨⟨_, hview, key_eq_of_get hview, rfl⟩, fun hrefused => ?_⟩
  unfold judge at hrefused
  split at hrefused
  · cases hrefused
  · rw [show (s.seen (p.log ++ [.register id])).get (Write.register id).target = _ from hview] at hrefused
    -- the row passes the `CHECK`s: it has an object already
    have hchecks : (registered row).checks = true := by
      have hold := hI.shows_log hi id row hrow
      obtain ⟨hstate, hkey⟩ := hp.seen id hid row hrow
      simp only [Row.checks, Row.objectPresent, registered, and_eq_true] at hold ⊢
      refine ⟨⟨?_, hold.1.2⟩, hold.2⟩
      cases hcase : row.state with
      | defined => exact absurd hcase hstate
      | pending | registered => exact hold.1.1
    -- and no other row has its entry
    have hclash : clashes (s.seen p.log) (registered row) = false := by
      refine any_eq_false.mpr fun other hother hshares => ?_
      simp only [Row.sharesEntry, and_eq_true, decide_eq_true_eq] at hshares
      obtain ⟨⟨hne, -⟩, hindex⟩ := hshares
      have hother' : (s.seen p.log).get other.id = some other := get_eq_some.mpr ⟨hother, rfl⟩
      have hrowId : (registered row).id = id := key_eq_of_get hview
      rw [hrowId] at hne
      have hcommitted : s.rows.get other.id = some other := (hp.seen_of_ne hid hne).symm.trans hother'
      have hentry : other.state = .registered ∧ other.registeredEntry = row.registeredEntry := by
        unfold Row.indexKey at hindex
        simp only [registered] at hindex
        cases hv : row.visibility <;> cases hs : other.state <;> cases hv' : other.visibility <;>
          simp_all [Row.registeredEntry]
      have hentry0 : other.registeredEntry = row0.registeredEntry :=
        hentry.2.trans (Row.registeredEntry_of_scope hscope)
      have hdefined := (hp.alone id hid row0 hrow0 other.id other hcommitted hne hentry0).1
      rw [hentry.1] at hdefined
      cases hdefined
    simp only [hchecks, hclash, Bool.not_true, Bool.false_eq_true, if_false] at hrefused
    split at hrefused <;> cases hrefused

theorem Publish.Held.registers (hp : p.Held doc s) (hstage : p.stage = .registering id) (hid : row.id = id)
    (hrow : (s.seen (p.log ++ [.register id])).get id = some row) (hstate : row.state = .registered) :
    Publish.Held doc s { p with stage := .returning row, log := p.log ++ [.register id] } := by
  have hid0 : p.stage.row = some id := by rw [hstage]; rfl
  have hsame : ∀ id', (Stage.returning row).row = some id' → id = id' := fun id' h =>
    hid.symm.trans (Option.some.inj h)
  have hview : ∀ row', (s.seen (p.log ++ [.register id])).get id = some row' → row = row' := fun row' h =>
    Option.some.inj (hrow.symm.trans h)
  refine ⟨hp.build, fun h => ?_, fun id' h w hw => ?_, fun id' now hw => ?_, fun id' h => ?_,
    fun id' h row' hrow' => ?_, fun id' h => ?_, fun row' h => ?_, fun row' h => ?_, fun h => ?_, fun h => ?_⟩
  · cases h
  · obtain rfl := hsame id' h
    rcases mem_append.mp hw with hw | hw
    · exact hp.own id hid0 w hw
    · exact .inr (mem_singleton.mp hw)
  · rcases mem_append.mp hw with hw | hw
    · exact hp.unregistered id' now hw
    · cases mem_singleton.mp hw
  · obtain rfl := hsame id' h
    exact hp.row id hid0
  · obtain rfl := hsame id' h
    obtain rfl := hview row' hrow'
    obtain ⟨row0, hrow0, -⟩ := hp.row id hid0
    obtain ⟨row1, hrow1, -⟩ := hp.view hid0 hrow0
    obtain rfl := hview _ (seen_register hrow1)
    exact ⟨nofun, (hp.seen id hid0 row1 hrow1).2⟩
  · obtain rfl := hsame id' h
    exact hp.alone id hid0
  · obtain rfl := returning.inj h
    refine ⟨touches_concat.mpr (.inr hid.symm), fun row' hrow' => ?_⟩
    rw [show row.id = id from hid] at hrow'
    obtain rfl := hview row' hrow'
    exact hstate
  · cases h
  · cases h
  · cases h

theorem inventoried_does (hI : Inventoried doc s) (hi : s.publishes[i]? = some p)
    (halone : s.adoptsAlone p = true) (hdo : p.Does cfg s i s') : Inventoried doc s' := by
  have hp := hI.publishes i p hi
  cases hdo with
  | goes stage start hrow hrow' hfinished hfinished' =>
    refine hI.restage hi rfl rfl rfl (hrow'.trans hrow.symm) (fun row h => ?_) hfinished'
    rw [h] at hrow'
    cases hrow'
  | raises error hfinished hvanished hunregistered =>
    exact hI.raises hi rfl rfl rfl hvanished hunregistered
  | raisesStored => exact hI.raises hi rfl rfl rfl (by rintro ⟨⟩) (by rintro ⟨⟩)
  | adopts id ids row hstage hrow hfits haccepted =>
    have halone' : ∀ id' other, s.rows.get id' = some other → id' ≠ id →
        other.registeredEntry ≠ row.registeredEntry := by
      intro id' other hother hne hentry
      simp only [adoptsAlone, hstage, hrow, Option.all_some, hfits, Bool.not_true, Bool.false_or,
        all_eq_true, Bool.or_eq_true, decide_eq_true_eq] at halone
      rcases halone other (Table.mem_of_get hother) with h | h
      · exact hne ((Table.key_eq_of_get hother).symm.trans h)
      · exact h hentry
    refine hI.put hi rfl rfl rfl (held_of_accepted haccepted)
      (shows_of_accepted (fun k r hr => hI.shows_log hi k r hr) haccepted)
      (hp.adopts hstage hrow hfits halone' rfl) fun id' hid' => .inr ?_
    cases (p.holding_row id).symm.trans hid'
    intro q hq id0 row0 row1 _ hrow0 hrow1 hne hentry
    cases hrow.symm.trans hrow1
    exact halone' id0 row0 hrow0 (Ne.symm hne) hentry.symm
  | inserts id hstage =>
    simp only [adoptsAlone, hstage] at halone
    cases halone
  | closes id hstage =>
    have hid : p.stage.row = some id := by rw [hstage]; rfl
    obtain ⟨row0, hrow0, hscope0⟩ := hp.row id hid
    obtain ⟨row, hrow, hscope, -⟩ := hp.view hid hrow0
    refine hI.commits hi (fun id' h => hid.trans h) ?_
    have hsame : ∀ id', (verifying id).row = some id' → id = id' := fun id' h => Option.some.inj h
    refine ⟨hp.build, fun _ => rfl, fun _ _ w hw => ?_, fun _ _ hw => ?_, fun id' h => ?_,
      fun id' h => ?_, fun id' h row' hrow' id'' other hother hne hentry => ?_, fun _ h => ?_, fun _ h => ?_,
      fun h => ?_, fun h => ?_⟩
    · cases hw
    · cases hw
    · obtain rfl := hsame id' h
      exact ⟨row, hrow, hscope.trans hscope0⟩
    · obtain rfl := hsame id' h
      exact hp.seen id hid
    · obtain rfl := hsame id' h
      cases hrow.symm.trans hrow'
      have hother0 : s.rows.get id'' = some other := (hp.seen_of_ne hid hne).symm.trans hother
      rw [Row.registeredEntry_of_scope hscope] at hentry
      obtain ⟨hstate, hpublic, hnobody⟩ := hp.alone id hid row0 hrow0 id'' other hother0 hne hentry
      refine ⟨hstate, hpublic, fun q hq hq' => ?_⟩
      rcases mem_or_eq_of_mem_set hq with hq | rfl
      · exact hnobody q hq hq'
      · exact hne (Option.some.inj hq').symm
    · cases h
    · cases h
    · cases h
    · cases h
  | verifies id hstage | stores id hstage | heads id hstage =>
    exact hI.restage hi rfl rfl rfl (by rw [hstage]; rfl) (fun _ h => by cases h) rfl
  | vanishes id hstage hnone =>
    obtain ⟨⟨row, hrow, -⟩, -⟩ := hI.registrable hi hstage
    cases hrow.symm.trans hnone
  | refused id hstage hrefused => exact absurd hrefused (hI.registrable hi hstage).2
  | registers id row hstage hrow haccepted =>
    obtain ⟨⟨row', hrow', hrowId, hstate⟩, -⟩ := hI.registrable hi hstage
    obtain rfl : row' = row := Option.some.inj (hrow'.symm.trans hrow)
    have hid : p.stage.row = some row'.id := by rw [hstage, hrowId]; rfl
    refine hI.put hi rfl rfl rfl (held_of_accepted haccepted)
      (shows_of_accepted (fun k r hr => hI.shows_log hi k r hr) haccepted) ?_
      fun id' h => .inl (hid.trans h)
    have hp' : p.Held doc (s.put i { p with stage := .returning row', log := p.log ++ [.register id] }) :=
      hp.put rfl rfl fun id' h => .inl ⟨p, mem_of_getElem? hi, hid.trans h⟩
    exact hp'.registers hstage hrowId hrow hstate
  | returns row hstage =>
    have hid : p.stage.row = some row.id := by rw [hstage]; rfl
    obtain ⟨row0, hrow0, hscope0⟩ := hp.row row.id hid
    obtain ⟨row', hrow', hscope, -⟩ := hp.view hid hrow0
    refine hI.commits hi (by rintro _ ⟨⟩) (.of_rowless hp.build rfl rfl (fun row1 h => ?_) ⟨fun h => ?_, fun h => ?_⟩)
    · obtain rfl := returned.inj h
      exact ⟨row', hrow', (hp.returning row hstage).2 row' hrow', hp.builds (hscope.trans hscope0)⟩
    · cases h
    · cases h

/-! ### The pass goes on -/

theorem inventoried_pass (hI : Inventoried doc s) (hpass : s.pass = some pass)
    (hload : pass.stage = .loading → s.loadsSteady doc = true) (hdo : pass.Does s s') : Inventoried doc s' := by
  have hok := hI.pass pass hpass
  have hstageOk := hok.stage
  have hshows : ∀ k r, (s.seen pass.log).get k = some r → r.checks = true :=
    hI.shows.2 pass.log (mem_of_getElem? (logs_pass hpass))
  have hkeep : ∀ k, touches Row pass.log k = true →
      touches Row pass.log k = true ∨ s.held 0 k = false := fun k hk => .inl hk
  -- an accepted statement of the batch
  have hwrites : ∀ {w : Write} {stage : PassStage} {diff : ReconcileDiff},
      s.judge 0 pass.log w = .accepted → Pass.Wrote doc s.rows w →
      (∀ log, stage.Ok doc s.rows log) →
      Inventoried doc (s.setPass { pass with stage, diff, log := pass.log ++ [w] }) := by
    intro w stage diff haccepted hw hstage
    refine hI.setPass hpass (fun k hk => ?_) (shows_of_accepted hshows haccepted)
      ⟨hok.image, fun w' hw' => ?_, hstage _⟩
    · rcases touches_concat.mp hk with hk | rfl
      · exact .inl hk
      · exact .inr (not_held_of_accepted haccepted)
    · rcases mem_append.mp hw' with hw' | hw'
      · exact hok.wrote w' hw'
      · rwa [mem_singleton.mp hw']
  cases hdo with
  | loads hstage =>
    refine hI.setPass hpass hkeep hshows ⟨hok.image, hok.wrote, Loaded.of_steady (hload hstage), ?_⟩
    intro entry hentry
    exact hok.image ▸ hentry
  | resolves existing entry entries head hstage =>
    rw [hstage] at hstageOk
    exact hI.setPass hpass hkeep hshows ⟨hok.image, hok.wrote, hstageOk⟩
  | commits existing hstage =>
    rw [hstage] at hstageOk
    refine hI.commitsPass hpass hkeep hshows (evolves hok.wrote hI.shows.1 hshows) rfl
      ⟨hok.image, forall_mem_nil _, rfl, fun r hr => ?_⟩
    obtain ⟨hmem, hdeparted⟩ := mem_filter.mp hr
    simp only [and_eq_true, not_eq_true', any_eq_false, decide_eq_true_eq, hok.image] at hdeparted
    obtain ⟨row0, hrow0, hidentity, -⟩ := hstageOk.1.kept r hmem
    obtain ⟨row1, hrow1, hidentity1, -⟩ := view_old hok.wrote hrow0
    refine ⟨any_eq_false.mpr fun entry hentry h => ?_, fun row hrow => ?_⟩
    · simp only [and_eq_true, decide_eq_true_eq] at h
      exact hdeparted.2 entry hentry h.2
    · cases hrow1.symm.trans hrow
      exact hidentity1.trans hidentity
  | creates existing entry entries head id diff hstage hfresh haccepted =>
    rw [hstage] at hstageOk
    exact hwrites haccepted (wrote_insert (hstageOk.2 entry mem_cons_self) (get_of_fresh hfresh))
      fun _ => ⟨hstageOk.1, fun e he => hstageOk.2 e (mem_cons_of_mem _ he)⟩
  | updates existing entry entries head row diff hstage hrow hchanged haccepted =>
    rw [hstage] at hstageOk
    exact hwrites haccepted (hstageOk.1.wrote_update (hstageOk.2 entry mem_cons_self) hrow hchanged)
      fun _ => ⟨hstageOk.1, fun e he => hstageOk.2 e (mem_cons_of_mem _ he)⟩
  | skips existing entry entries head diff hstage =>
    rw [hstage] at hstageOk
    exact hI.setPass hpass hkeep hshows
      ⟨hok.image, hok.wrote, hstageOk.1, fun e he => hstageOk.2 e (mem_cons_of_mem _ he)⟩
  | raises =>
    refine hI.setPass hpass (fun k hk => ?_) hI.shows.1 ⟨hok.image, fun w hw => ?_, rfl⟩
    · cases hk
    · cases hw
  | leaves row rest diff hstage =>
    rw [hstage] at hstageOk
    exact hI.setPass hpass hkeep hshows
      ⟨hok.image, hok.wrote, hstageOk.1, fun r hr => hstageOk.2 r (mem_cons_of_mem _ hr)⟩
  | prunes row rest diff hstage hfree =>
    rw [hstage] at hstageOk
    have hget : ∀ k, (s.seen [.delete row.id]).get k = if row.id = k then none else s.rows.get k :=
      fun k => Edit.get_apply s.rows (delete row.id) k
    have hold : ∀ k r, (s.seen [.delete row.id]).get k = some r → s.rows.get k = some r := by
      intro k r hr
      rw [hget] at hr
      split at hr
      · cases hr
      · exact hr
    have hrow := hstageOk.2 row mem_cons_self
    refine hI.commitsPass hpass (fun k hk => ?_) (fun k r hr => hI.shows.1 k r (hold k r hr))
      (evolves_delete fun row0 hrow0 => (hrow.2 row0 hrow0).symm ▸ hrow.1) rfl
      ⟨hok.image, forall_mem_nil _, rfl, fun r hr => ?_⟩
    · obtain ⟨w, hw, hk⟩ := any_eq_true.mp hk
      rw [mem_singleton.mp hw, decide_eq_true_eq] at hk
      exact .inr (hk ▸ hfree)
    · obtain ⟨hbuild, hidentity⟩ := hstageOk.2 r (mem_cons_of_mem _ hr)
      exact ⟨hbuild, fun row' hrow' => hidentity row' (hold _ _ hrow')⟩
  | finishes hstage =>
    rw [hstage] at hstageOk
    exact hI.setPass hpass hkeep hshows ⟨hok.image, hok.wrote, hstageOk.1⟩

theorem held_begins {caller : Caller} {request : PublishRequest} {data : Bytes}
    (hbuild : doc.builds (request.provider, request.name, request.arch) = true) :
    (begins caller request data).stage.row = none ∧ (begins caller request data).Held doc s := by
  unfold begins
  cases request.imageObjectKey <;> cases caller
  all_goals
    refine ⟨rfl, .of_rowless hbuild rfl rfl (fun _ h => ?_) ⟨fun h => ?_, fun h => ?_⟩⟩ <;> cases h

theorem State.faults_cases {stored : Bool} (h : s.publishStep cfg i p (.faults stored) = some s') :
    s' = s.raises i p .fault ∨ s' = (s.stores p).raises i p .fault := by
  simp only [publishStep] at h
  split at h
  · cases h
  · cases h
  · cases stored <;> cases h
    · exact .inl rfl
    · exact .inr rfl
  · cases h
    exact .inl rfl

theorem inventoried_step (hI : Inventoried doc s) (hm : s.inventoried doc m = true)
    (h : s.step cfg m = some s') : Inventoried doc s' := by
  cases m with
  | publishes caller request data =>
    simp only [step] at h
    split at h
    · cases h
    · cases h
      have hnew : (begins caller request data).stage.row = none ∧ _ := held_begins (s := s) hm
      have hlogs : logs { s with publishes := s.publishes ++ [begins caller request data] }
          = s.logs ++ [[]] := by
        simp [logs, log_begins]
      refine ⟨?_, ?_, fun j q hj => ?_, hI.pass⟩
      · rw [hlogs]
        exact hI.exclusive.push
      · rw [hlogs]
        exact hI.shows.push
      · rw [show (s.publishes ++ [begins caller request data])[j]? = _ from
          getElem?_append] at hj
        split at hj
        · refine (hI.publishes j q hj).of_rows rfl fun q' hq' id hid => .inl ?_
          rcases mem_append.mp hq' with hq' | hq'
          · exact ⟨q', hq', hid⟩
          · rw [mem_singleton.mp hq', hnew.1] at hid
            cases hid
        · rw [mem_singleton.mp (mem_of_getElem? hj)]
          exact (held_begins hm).2
  | publish i input =>
    simp only [step, Option.bind_eq_some_iff] at h
    obtain ⟨p, hi, hstep⟩ := h
    cases input with
    | proceeds =>
      simp only [inventoried, hi, Option.all_some] at hm
      exact inventoried_does hI hi hm (Publish.does_of_step hstep)
    | faults =>
      rcases faults_cases hstep with rfl | rfl
      · exact hI.raises hi rfl rfl rfl (by rintro ⟨⟩) (by rintro ⟨⟩)
      · exact hI.raises hi rfl rfl rfl (by rintro ⟨⟩) (by rintro ⟨⟩)
  | reconciles doc' =>
    simp only [step] at h
    split at h
    · cases h
    · cases h
      simp only [inventoried, and_eq_true, Option.isNone_iff_eq_none, decide_eq_true_eq] at hm
      have hlogs : (s.setPass { doc := doc' }).logs = s.logs := by
        rw [logs, logs, hm.1]
        rfl
      refine ⟨?_, ?_, fun j q hj => ?_, fun pass hpass => ?_⟩
      · rw [hlogs]
        exact hI.exclusive
      · rw [hlogs]
        exact hI.shows
      · exact (hI.publishes j q hj).of_rows rfl fun q' hq' id hid => .inl ⟨q', hq', hid⟩
      · cases hpass
        exact ⟨hm.2, forall_mem_nil _, rfl⟩
  | reconcile =>
    simp only [step, Option.bind_eq_some_iff] at h
    obtain ⟨pass, hpass, hstep⟩ := h
    refine inventoried_pass hI hpass (fun hstage => ?_) (does_of_step hstep)
    simpa only [inventoried, hpass, Option.all_some, hstage] using hm
  | wait =>
    cases h
    exact ⟨hI.exclusive, hI.shows,
      fun j q hj => (hI.publishes j q hj).of_rows rfl fun q' hq' id hid => .inl ⟨q', hq', hid⟩,
      hI.pass⟩

theorem inventoried_init (hinit : s.Init) : Inventoried doc s := by
  have hlogs : s.logs = [[]] := by
    rw [logs, hinit.pass, hinit.publishes]
    rfl
  have hchecks : ∀ k r, s.rows.get k = some r → r.checks = true := fun k r hr =>
    hinit.checks r (mem_of_get hr)
  refine ⟨?_, ?_, fun j q hj => ?_, fun pass hpass => ?_⟩
  · rw [hlogs]
    exact exclusive_nil.push
  · rw [hlogs]
    refine ⟨hchecks, fun log hlog => ?_⟩
    rwa [mem_singleton.mp hlog]
  · rw [hinit.publishes] at hj
    cases hj
  · cases hpass.symm.trans hinit.pass

theorem Inventoried.kept (hI : Inventoried doc s) (hpass : s.pass = some pass) (hdo : pass.Does s s')
    (hrow : s.rows.get id = some row) (hbuild : doc.builds row.identity = true) :
    ∃ row', s'.rows.get id = some row' ∧ row'.realized = row.realized := by
  have hok := hI.pass pass hpass
  cases hdo with
  | commits =>
    obtain ⟨row', hrow', -, -, -, hrealized⟩ := view_old hok.wrote hrow
    exact ⟨row', hrow', hrealized hbuild⟩
  | prunes departed rest diff hstage =>
    have hstageOk := hok.stage
    rw [hstage] at hstageOk
    obtain ⟨hnot, hidentity⟩ := hstageOk.2 departed mem_cons_self
    have hne : departed.id ≠ id := by
      rintro rfl
      rw [hidentity row hrow, hnot] at hbuild
      cases hbuild
    exact ⟨row, (Edit.get_apply s.rows (delete departed.id) id).trans ((if_neg hne).trans hrow), rfl⟩
  | _ => exact ⟨row, hrow, rfl⟩
end

/-- The pass takes back no image that is published or being published, and fails no publish. -/
theorem inventory_keeps_published (cfg : Config) (doc : Doc) {s₀ s : State} (hinit : s₀.Init)
    (h : (catalog cfg).Leads (fun s m => inventoried s doc m = true) s₀ s) :
    (∀ input s', s.step cfg (.reconcile input) = some s' → ∀ id row, s.rows.get id = some row →
      doc.builds row.identity = true → row.state ≠ .defined → ∃ row', s'.rows.get id = some row' ∧
        row'.state = row.state ∧ row'.objectKey = row.objectKey ∧ row'.digest = row.digest) ∧
    ∀ p ∈ s.publishes, p.stage ≠ .raised .vanished ∧ p.stage ≠ .raised .unregistered ∧
      ∀ row, p.stage = .returned row → ∃ row', s.rows.get row.id = some row' ∧ row'.state = .registered := by
  have hI : Inventoried doc s := h.always (I := Inventoried doc)
    (fun s m s' hm hI (hs : step s cfg m = some s') => inventoried_step hI hm hs)
    (inventoried_init hinit)
  refine ⟨fun input s' hs id row hrow hbuild _ => ?_, fun p hp => ?_⟩
  · simp only [step, Option.bind_eq_some_iff] at hs
    obtain ⟨pass, hpass, hstep⟩ := hs
    obtain ⟨row', hrow', hr⟩ := hI.kept hpass (does_of_step hstep) hrow hbuild
    exact ⟨row', hrow', congrArg state hr, congrArg objectKey hr, congrArg digest hr⟩
  · have hheld := hI.mem hp
    refine ⟨hheld.outcome.1, hheld.outcome.2, fun row hrow => ?_⟩
    obtain ⟨row', hrow', hstate, -⟩ := hheld.returned row hrow
    exact ⟨row', hrow', hstate⟩

/-! ## Runs -/

def demoEntry : Entry where
  provider := "local-libvirt"
  name := "base"
  arch := "x86_64"
  format := "qcow2"
  rootDevice := "/dev/vda"
  visibility := .isPublic
  source := .build

def demoDoc : Doc := ⟨[demoEntry], nodup_singleton _⟩

def publishGoes (n : Nat) : List Move := replicate n (.publish 0 (.proceeds 7))

def passGoes (n : Nat) : List Move := replicate n (.reconcile (.proceeds 8 false))

def demoPublishes : Move := .publishes .handler (demoRequest (demo.contentDigest [1, 2, 3])) [1, 2, 3]

/-- The image is published while a pass that has loaded the baseline is at work. -/
def publishedMeanwhile : List Move :=
  [.reconciles demoDoc] ++ passGoes 1 ++ [demoPublishes] ++ publishGoes 3 ++ passGoes 3 ++ publishGoes 5 ++ passGoes 1

theorem inventory_keeps_published_meanwhile : let s := (catalog demo).runTo baseline publishedMeanwhile
    (s.rows.rows.map (·.state) = [.registered] ∧ s.publishes.map (·.stage.finished) = [true]) ∧
      ∀ p ∈ s.publishes, p.stage ≠ .raised .unregistered := by
  have hinit : baseline.Init := ⟨rfl, rfl, by decide +kernel, by decide +kernel⟩
  have hleads := Machine.leads_runTo
    (show (catalog demo).runsBy (fun s m => inventoried s demoDoc m) baseline publishedMeanwhile = true
      from by decide +kernel)
  refine ⟨by decide +kernel, fun p hp => ?_⟩
  exact ((inventory_keeps_published demo demoDoc hinit hleads).2 p hp).2.1

/-- The one pass over the document and publishes of its `build` images, whatever they find. -/
def State.overlaps (doc : Doc) (s : State) : Move → Bool
  | .publishes _ request _ => doc.builds (request.provider, request.name, request.arch)
  | .reconciles doc' => s.pass.isNone && doc'.image = doc.image
  | _ => true

/-- The image is being published when a pass loads its row; the pass is about to commit its batch. -/
def loadedPending : List Move :=
  [demoPublishes] ++ publishGoes 3 ++ [.reconciles demoDoc] ++ passGoes 3

def Stage.error : Stage → Option PublishError
  | raised error => some error
  | _ => none

/-- The pass writes next, and then the publish goes on. -/
def putBack (n : Nat) : List Move := (loadedPending ++ passGoes 1 ++ publishGoes 4).take (loadedPending.length + n)

/-- The pass takes the row back to a placeholder, and the publish fails. -/
theorem publish_put_back : baseline.Init ∧
    (∀ n ∈ [0, 1, 5], (catalog demo).Leads (fun s m => overlaps demoDoc s m = true) baseline
      ((catalog demo).runTo baseline (putBack n))) ∧
    (((catalog demo).runTo baseline (putBack 0)).rows.get 1).map Row.realized =
      some ⟨.pending, some demoKey, none, none⟩ ∧
    (((catalog demo).runTo baseline (putBack 1)).rows.get 1).map Row.realized = some .placeholder ∧
    ((catalog demo).runTo baseline (putBack 5)).publishes.map (·.stage.error) = [some .unregistered] := by
  have hruns : ∀ n ∈ [0, 1, 5], (catalog demo).runsBy (fun s m => overlaps demoDoc s m) baseline (putBack n) = true := by
    decide +kernel
  refine ⟨⟨rfl, rfl, by decide +kernel, by decide +kernel⟩, fun n hn => Machine.leads_runTo (hruns n hn), ?_, ?_, ?_⟩
  all_goals decide +kernel
end Kdive.Images
