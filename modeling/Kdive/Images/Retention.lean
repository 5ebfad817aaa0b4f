import Kdive.Images.Catalog

/-! # Images in use: `services/images/retention.py` and System admission

`prune_or_cordon_image` and `expire_one_private_image` lock a row, ask whether a System that is not over refers to the
image, by provider and name or by volume, and delete the row if none does. A System is committed without a look at the
image's row: what is committed after the scan is not seen (`deleted_in_use`). That is the only way a row in use goes
(`referenced_images_stay`).
-/

namespace Kdive.Images.Retention
open Lib Table List

inductive RootfsSource where
  | isLocal (path : String)
  | artifact (artifactId : String)
  | componentUpload
  | catalog (provider name : String)
  | upload
  deriving DecidableEq

/-- `ProviderSection`: exactly one provider's. -/
inductive ProviderSection where
  | localLibvirt (rootfs : RootfsSource)
  | remoteLibvirt (baseImageVolume : String)
  | faultInject
  deriving DecidableEq

inductive Probe where
  | catalog (provider name : String)
  | volume (name : String)
  deriving DecidableEq

/-- `provisioning_profile @> probe`. -/
def ProviderSection.contains : ProviderSection → Probe → Bool
  | localLibvirt (.catalog provider name), .catalog provider' name' =>
    provider = provider' && name = name'
  | remoteLibvirt baseImageVolume, .volume name => baseImageVolume = name
  | _, _ => false

structure System where
  id : Uuid
  allocationId : Uuid
  state : SystemState
  profile : ProviderSection
  deriving DecidableEq

instance : Keyed System Uuid := ⟨System.id⟩

def System.uses (probe : Probe) (system : System) : Bool :=
  !system.state.terminal && system.profile.contains probe

def probes (image : Row) : List Probe :=
  .catalog image.provider image.name :: image.volume.toList.map .volume

/-! ## Removals -/

inductive Remover where
  | pruneOrCordonImage
  | expireOnePrivateImage (objectKey : Option String)
  deriving DecidableEq

inductive Stage where
  /-- `SELECT … FOR UPDATE`. -/
  | selecting
  /-- `SELECT provider, name, volume`. -/
  | reading
  /-- The scans that are left. -/
  | probing (left : List Probe)
  /-- `store.delete`. -/
  | clearing
  /-- `DELETE`. -/
  | deleting
  | committing
  | finished

namespace Stage
/-- The row is locked. -/
def holds : Stage → Bool
  | selecting | finished => false
  | _ => true

def unprobed : Stage → Option (List Probe)
  | probing left => some left
  | clearing | deleting | committing => some []
  | _ => none
end Stage

structure Removal where
  remover : Remover
  id : Uuid
  /-- `now()`. -/
  start : Time
  stage : Stage := .selecting

/-- The `WHERE` of the first statement. -/
def Removal.covers (r : Removal) (image : Row) : Bool :=
  match r.remover with
  | .pruneOrCordonImage => image.managedBy = .config
  | .expireOnePrivateImage _ => image.visibility = .isPrivate && image.expiresAt.any (· < r.start)

/-! ## The machine -/

structure State where
  /-- The committed rows. -/
  images : Table Row
  systems : Table System
  objects : String → Option Bytes
  removals : List Removal
  clock : Time

inductive Input where
  | proceeds | faults

inductive Move where
  | removes (remover : Remover) (id : Uuid)
  | removal (i : Nat) (input : Input)
  /-- `_insert_provisioning_system` or `_insert_defined_system` is committed. -/
  | admits (system : System)
  /-- `_admit_reprovision` is committed. -/
  | reprovisions (id : Uuid) (profile : ProviderSection)
  /-- A System goes on, by its jobs or by a tool. -/
  | proceeds (id : Uuid) (state : SystemState)
  /-- Another writer of the catalog commits a row. -/
  | writes (image : Row)
  | waits (d : Nat)

namespace State
variable (s : State)

/-- The answer of one scan: a committed System that is not over has a profile that contains the probe. -/
def inUse (probe : Probe) : Bool := s.systems.rows.any (System.uses probe)

def referenced (image : Row) : Bool := (probes image).any s.inUse

def locked (id : Uuid) : Bool := s.removals.any fun r => r.id = id && r.stage.holds

def put (i : Nat) (r : Removal) : State := { s with removals := s.removals.set i r }

def proceed (i : Nat) (r : Removal) : Option State :=
  match r.stage with
  | .selecting =>
    if s.locked r.id then none
    else if (s.images.get r.id).any r.covers then some (s.put i { r with stage := .reading })
    else some (s.put i { r with stage := .finished })
  | .reading =>
    match s.images.get r.id with
    | none => some (s.put i { r with stage := .clearing })
    | some image => some (s.put i { r with stage := .probing (probes image) })
  | .probing (probe :: left) =>
    if s.inUse probe then some (s.put i { r with stage := .finished })
    else some (s.put i { r with stage := .probing left })
  | .probing [] => some (s.put i { r with stage := .clearing })
  | .clearing =>
    match r.remover with
    | .expireOnePrivateImage (some objectKey) =>
      some ({ s with objects := Function.update s.objects objectKey none }.put i { r with stage := .deleting })
    | _ => some (s.put i { r with stage := .deleting })
  | .deleting => some (s.put i { r with stage := .committing })
  | .committing =>
    some ({ s with images := s.images.erase r.id }.put i { r with stage := .finished })
  | .finished => none

def removalStep (i : Nat) (r : Removal) : Input → Option State
  | .proceeds => s.proceed i r
  | .faults => some (s.put i { r with stage := .finished })

def step : Move → Option State
  | .removes remover id =>
    some { s with removals := s.removals ++ [{ remover, id, start := s.clock }] }
  | .removal i input => s.removals[i]?.bind fun r => s.removalStep i r input
  | .admits system =>
    if s.systems.get system.id = none && !s.systems.rows.any (·.allocationId = system.allocationId) &&
        (system.state = .defined || system.state = .provisioning) then
      some { s with systems := s.systems.insert system }
    else none
  | .reprovisions id profile =>
    if (s.systems.get id).any (·.state = .ready) then
      some { s with systems :=
        s.systems.modify id (fun x => { x with state := .reprovisioning, profile := profile }) fun _ => rfl }
    else none
  | .proceeds id state =>
    if state ≠ .reprovisioning && (s.systems.get id).any (·.state.successors.contains state) then
      some { s with systems := s.systems.modify id (fun x => { x with state := state }) fun _ => rfl }
    else none
  | .writes image =>
    if s.locked image.id then none
    else some { s with images := (s.images.erase image.id).insert image }
  | .waits d => some { s with clock := s.clock + d }
end State

def retention : Machine where
  State := State
  Move := Move
  init := fun s => s.removals = []
  step := State.step

/-! ## What a removal has seen -/

/-- The profile refers to the image in a way the removal has looked for already. -/
def Removal.missed (r : Removal) (image : Row) (profile : ProviderSection) : Bool :=
  r.stage.unprobed.any fun left =>
    (probes image).any fun probe => profile.contains probe && !left.contains probe

def State.unmissed (s : State) (profile : ProviderSection) : Bool :=
  s.removals.all fun r => (s.images.get r.id).all fun image => !r.missed image profile

/-- A System is committed only before a removal of its image looks for it. -/
def State.intime (s : State) : Move → Bool
  | .admits system => s.unmissed system.profile
  | .reprovisions _ profile => s.unmissed profile
  | _ => true

/-- What a removal has looked for, no System refers to. -/
def Seen (s : State) (r : Removal) : Prop :=
  ∀ left, r.stage.unprobed = some left → ∀ image, s.images.get r.id = some image →
    ∀ probe ∈ probes image, probe ∈ left ∨ s.inUse probe = false

def AllSeen (s : State) : Prop := ∀ r ∈ s.removals, Seen s r

section
variable {s s' : State} {r r' : Removal} {i : Nat}

theorem Seen.proceed (h : Seen s r) (hstep : s.proceed i r = some s') :
    ∃ r', s'.removals = s.removals.set i r' ∧ s'.systems = s.systems ∧ r'.id = r.id ∧
      (s'.images = s.images ∨ s'.images = s.images.erase r.id) ∧ Seen s r' := by
  unfold State.proceed at hstep
  split at hstep
  all_goals rename_i hst
  · -- the lock: nothing is known yet
    split at hstep
    · cases hstep
    · split at hstep <;> cases hstep <;> exact ⟨_, rfl, rfl, rfl, .inl rfl, fun left hl => by cases hl⟩
  · split at hstep
    · rename_i hnone
      cases hstep
      refine ⟨_, rfl, rfl, rfl, .inl rfl, fun left _ image himage => ?_⟩
      rw [show s.images.get _ = _ from hnone] at himage
      cases himage
    · rename_i image himage
      cases hstep
      refine ⟨_, rfl, rfl, rfl, .inl rfl, fun left hl image' himage' probe hprobe => .inl ?_⟩
      cases hl
      rw [show s.images.get _ = _ from himage] at himage'
      cases himage'
      exact hprobe
  · rename_i probe left
    split at hstep <;> cases hstep <;> rename_i hused
    · exact ⟨_, rfl, rfl, rfl, .inl rfl, fun left hl => by cases hl⟩
    · refine ⟨_, rfl, rfl, rfl, .inl rfl, fun left' hl image himage probe' hprobe' => ?_⟩
      cases hl
      rcases h (probe :: left) (by rw [hst]; rfl) image himage probe' hprobe' with hmem | hfree
      · rcases mem_cons.mp hmem with rfl | hmem
        · exact .inr (Bool.eq_false_iff.mpr hused)
        · exact .inl hmem
      · exact .inr hfree
  all_goals first
    | cases hstep
      refine ⟨_, rfl, rfl, rfl, .inl rfl, fun left hl => h left ?_⟩
      rwa [hst]
    | skip
  · split at hstep <;> cases hstep <;> refine ⟨_, rfl, rfl, rfl, .inl rfl, fun left hl => h left ?_⟩ <;>
      (rw [hst]; exact hl)
  · cases hstep
    exact ⟨_, rfl, rfl, rfl, .inr rfl, fun left hl => by cases hl⟩
  · cases hstep

/-- Another's step: the image is as it was or gone, and what was not in use is not. -/
theorem Seen.of_le (h : Seen s r) (himages : ∀ image, s'.images.get r.id = some image → s.images.get r.id = some image)
    (huse : ∀ left, r.stage.unprobed = some left → ∀ image, s.images.get r.id = some image →
      ∀ probe ∈ probes image, probe ∉ left → s.inUse probe = false → s'.inUse probe = false) : Seen s' r := by
  intro left hl image himage probe hprobe
  by_cases hmem : probe ∈ left
  · exact .inl hmem
  · have himage' := himages image himage
    exact .inr (huse left hl image himage' probe hprobe hmem ((h left hl image himage' probe hprobe).resolve_left hmem))

theorem inUse_insert {system : System} {probe : Probe} (hfree : s.inUse probe = false)
    (hnot : system.profile.contains probe = false) :
    ({ s with systems := s.systems.insert system } : State).inUse probe = false := by
  unfold State.inUse at hfree ⊢
  rw [any_eq_false] at hfree ⊢
  intro x hx
  rcases get_insert_cases (get_key_of_mem hx) with hx | rfl
  · exact hfree x (mem_of_get hx)
  · simp [System.uses, hnot]

theorem inUse_modify {id : Uuid} {f : System → System} {hf : ∀ x, Keyed.key (f x) = Keyed.key x}
    {probe : Probe} (hfree : s.inUse probe = false)
    (hnot : ∀ x, s.systems.get id = some x → x.uses probe = false → (f x).uses probe = false) :
    ({ s with systems := s.systems.modify id f hf } : State).inUse probe = false := by
  unfold State.inUse at hfree ⊢
  rw [any_eq_false] at hfree ⊢
  intro x hx
  have hx : x ∈ (s.systems.modify id f hf).rows := hx
  obtain ⟨x0, hx0, rfl⟩ := mem_modify.mp hx
  have hold : x0.uses probe = false := Bool.eq_false_iff.mpr (hfree x0 hx0)
  split
  · rename_i hid
    rw [hnot x0 (hid ▸ get_key_of_mem hx0) hold]
    exact Bool.false_ne_true
  · rw [hold]
    exact Bool.false_ne_true

theorem contains_of_unmissed {profile : ProviderSection} (h : s.unmissed profile = true)
    (hr : r ∈ s.removals) {left : List Probe} (hl : r.stage.unprobed = some left) {image : Row}
    (himage : s.images.get r.id = some image) {probe : Probe} (hprobe : probe ∈ probes image)
    (hleft : probe ∉ left) : profile.contains probe = false := by
  have hmissed := all_eq_true.mp h r hr
  rw [himage, Option.all_some, Bool.not_eq_true', Removal.missed, hl, Option.any_some, any_eq_false] at hmissed
  have hp := hmissed probe hprobe
  cases hc : profile.contains probe with
  | false => rfl
  | true =>
    refine absurd ?_ hp
    simp [hc, hleft]

theorem AllSeen.step {m : Move} (hok : s.intime m = true) (h : AllSeen s) (hstep : s.step m = some s') :
    AllSeen s' := by
  cases m with
  | removes =>
    cases hstep
    intro r hr
    rcases mem_append.mp hr with hr | hr
    · exact h r hr
    · rw [mem_singleton] at hr
      subst hr
      exact fun left hl => by cases hl
  | removal i input =>
    obtain ⟨r, hr, hstep⟩ := Option.bind_eq_some_iff.mp hstep
    have hself := h r (mem_of_getElem? hr)
    have hmoved : ∃ r', s'.removals = s.removals.set i r' ∧ s'.systems = s.systems ∧ r'.id = r.id ∧
        (s'.images = s.images ∨ s'.images = s.images.erase r.id) ∧ Seen s r' := by
      cases input with
      | proceeds => exact hself.proceed hstep
      | faults =>
        cases hstep
        exact ⟨_, rfl, rfl, rfl, .inl rfl, fun left hl => by cases hl⟩
    obtain ⟨r', hremovals, hsystems, -, himages, hseen⟩ := hmoved
    intro x hx
    have hx' : Seen s x := by
      rw [hremovals] at hx
      rcases mem_or_eq_of_mem_set hx with hx | rfl
      · exact h x hx
      · exact hseen
    refine hx'.of_le (fun image himage => ?_) fun _ _ _ _ probe _ _ hfree => ?_
    · rcases himages with himages | himages
      · rwa [himages] at himage
      · rw [himages, get_erase] at himage
        split at himage
        · cases himage
        · exact himage
    · unfold State.inUse at hfree ⊢
      rwa [hsystems]
  | admits =>
    simp only [State.step] at hstep
    split at hstep
    · cases hstep
      intro r hr
      refine (h r hr).of_le (fun _ himage => himage) fun left hl image himage probe hprobe hleft hfree => ?_
      exact inUse_insert hfree (contains_of_unmissed hok hr hl himage hprobe hleft)
    · cases hstep
  | reprovisions =>
    simp only [State.step] at hstep
    split at hstep
    · cases hstep
      intro r hr
      refine (h r hr).of_le (fun _ himage => himage) fun left hl image himage probe hprobe hleft hfree => ?_
      refine inUse_modify hfree fun x _ _ => ?_
      simp [System.uses, contains_of_unmissed hok hr hl himage hprobe hleft]
    · cases hstep
  | proceeds id state =>
    simp only [State.step] at hstep
    split at hstep
    · rename_i hcan
      cases hstep
      intro r hr
      refine (h r hr).of_le (fun _ himage => himage) fun left hl image himage probe hprobe hleft hfree => ?_
      refine inUse_modify hfree fun x hx huses => ?_
      -- a System that is over does not go on
      rw [Bool.and_eq_true, hx, Option.any_some] at hcan
      have hlive : x.state.terminal = false := by
        rw [SystemState.terminal_eq_false]
        constructor <;> (intro hstate; rw [hstate] at hcan; simp [SystemState.successors] at hcan)
      simp only [System.uses, hlive, Bool.not_false, Bool.true_and] at huses
      simp [System.uses, huses]
    · cases hstep
  | writes image =>
    simp only [State.step] at hstep
    split at hstep
    · cases hstep
    · rename_i hlocked
      cases hstep
      intro r hr
      by_cases hid : r.id = image.id
      · -- the row is not locked, so its removals have not looked for anything
        have hholds : r.stage.holds = false := by
          simp only [State.locked, any_eq_true, not_exists, not_and, Bool.and_eq_true, decide_eq_true_eq] at hlocked
          exact Bool.eq_false_iff.mpr (hlocked r hr hid)
        intro left hl
        revert hholds hl
        cases r.stage <;> simp [Stage.holds, Stage.unprobed]
      · refine (h r hr).of_le (fun image' himage' => ?_) fun _ _ _ _ _ _ _ hfree => hfree
        rw [get_insert, if_neg, get_erase, if_neg (Ne.symm hid)] at himage'
        · exact himage'
        · exact fun hkey => hid hkey.1.symm
  | waits =>
    cases hstep
    exact h
end

/-! ## The result -/

/-- A removal that does not commit leaves the rows as they are. -/
theorem images_proceed {s s' : State} {i : Nat} {r : Removal} (hst : r.stage ≠ .committing)
    (h : s.proceed i r = some s') : s'.images = s.images := by
  cases hstage : r.stage with
  | selecting =>
    simp only [State.proceed, hstage] at h
    split at h
    · cases h
    · split at h <;> (cases h; rfl)
  | probing left =>
    cases left with
    | nil =>
      simp only [State.proceed, hstage] at h
      cases h
      rfl
    | cons =>
      simp only [State.proceed, hstage] at h
      split at h <;> (cases h; rfl)
  | reading | clearing =>
    simp only [State.proceed, hstage] at h
    split at h <;> (cases h; rfl)
  | deleting =>
    simp only [State.proceed, hstage] at h
    cases h
    rfl
  | committing => exact absurd hstage hst
  | finished =>
    simp only [State.proceed, hstage] at h
    cases h

/-- Only a commit takes a row away. -/
theorem committing_of_deletes {s s' : State} {m : Move} (hstep : s.step m = some s') {id : Uuid}
    {image : Row} (himage : s.images.get id = some image) (hgone : s'.images.get id = none) :
    ∃ r ∈ s.removals, r.id = id ∧ r.stage = .committing := by
  have hkept : s'.images ≠ s.images := by
    intro heq
    rw [heq, himage] at hgone
    cases hgone
  cases m with
  | removal i input =>
    obtain ⟨r, hr, hstep⟩ := Option.bind_eq_some_iff.mp hstep
    cases input with
    | faults =>
      cases hstep
      exact absurd rfl hkept
    | proceeds =>
      simp only [State.removalStep] at hstep
      by_cases hst : r.stage = .committing
      · refine ⟨r, mem_of_getElem? hr, ?_, hst⟩
        rw [State.proceed, hst, Option.some.injEq] at hstep
        subst hstep
        by_contra hne
        have hget : (s.images.erase r.id).get id = none := hgone
        rw [get_erase, if_neg hne, himage] at hget
        cases hget
      · exact absurd (images_proceed hst hstep) hkept
  | writes image' =>
    simp only [State.step] at hstep
    split at hstep
    · cases hstep
    · cases hstep
      have hget : ((s.images.erase image'.id).insert image').get id = none := hgone
      rcases eq_or_ne image'.id id with rfl | hid
      · rw [get_insert, if_pos ⟨rfl, by rw [get_erase, if_pos rfl]⟩] at hget
        cases hget
      · rw [get_insert_of_ne hid, get_erase, if_neg hid, himage] at hget
        cases hget
  | removes | waits =>
    cases hstep
    exact absurd rfl hkept
  | admits | reprovisions | proceeds =>
    simp only [State.step] at hstep
    split at hstep
    · cases hstep
      exact absurd rfl hkept
    · cases hstep

/-- A removal in time deletes no image that a System refers to. -/
theorem referenced_images_stay {s s' : State} {m : Move}
    (hreach : retention.ReachBy (fun s m => s.intime m = true) s) (hstep : retention.step s m = some s') {id : Uuid}
    {image : Row} (himage : s.images.get id = some image) (hgone : s'.images.get id = none) :
    s.referenced image = false := by
  have hseen : AllSeen s := Machine.ReachBy.always (I := AllSeen)
    (fun s hinit r hr => by rw [show s.removals = [] from hinit] at hr; cases hr)
    (fun _ _ _ _ hok hI hs => hI.step hok hs) hreach
  obtain ⟨r, hr, rfl, hst⟩ := committing_of_deletes hstep himage hgone
  rw [State.referenced, any_eq_false]
  intro probe hprobe
  have hfree := (hseen r hr [] (by rw [hst]; rfl) image himage probe hprobe).resolve_left not_mem_nil
  rw [hfree]
  exact Bool.false_ne_true

namespace Lab
def staged : Row where
  id := 1
  provider := "remote-libvirt"
  name := "fedora"
  arch := "x86_64"
  format := "qcow2"
  rootDevice := "/dev/vda"
  visibility := .isPublic
  state := .registered
  managedBy := .config
  volume := some "fedora.qcow2"

def idle : State where
  images := ⟨[staged], by decide⟩
  systems := ⟨[], by decide⟩
  objects := fun _ => none
  removals := []
  clock := 0

def system : System := ⟨7, 3, .provisioning, .remoteLibvirt "fedora.qcow2"⟩

def prunes : List Move :=
  .removes .pruneOrCordonImage 1 :: replicate 7 (.removal 0 .proceeds)

/-- Between the last scan and the commit a System on the image is admitted. -/
def overtaken : State := retention.runTo idle (prunes ++ [.admits system])

/-- A System on another image is admitted in the middle of the removal. -/
def accompanied : State :=
  retention.runTo idle (prunes ++ [.admits { system with profile := .remoteLibvirt "debian.qcow2" }])
end Lab

/-- A System that comes after the last scan is not seen. -/
theorem deleted_in_use : ∃ s s' : State, retention.Reach s ∧ retention.step s (.removal 0 .proceeds) = some s' ∧
    s.images.get 1 = some Lab.staged ∧ s'.images.get 1 = none ∧ s.referenced Lab.staged = true := by
  refine ⟨Lab.overtaken, retention.runTo Lab.overtaken [.removal 0 .proceeds],
    Machine.reach_runTo rfl _, rfl, by decide, by decide, by decide⟩

theorem referenced_images_stay_accompanied :
    Lab.accompanied.images.get 1 = some Lab.staged ∧ Lab.accompanied.referenced Lab.staged = false := by
  have hleads : retention.Leads (fun s m => State.intime s m = true) Lab.idle Lab.accompanied :=
    Machine.leads_runTo (by decide)
  have hhere : Lab.accompanied.images.get 1 = some Lab.staged := by decide
  exact ⟨hhere, referenced_images_stay (m := .removal 0 .proceeds)
    (Machine.ReachBy.leads (.init (by rfl)) hleads) rfl hhere rfl⟩
end Kdive.Images.Retention
