import Kdive.Domain.Models
import Kdive.Lib.Machine

/-! # Captures of a vmcore

`capture_handler` looks for a raw vmcore row of the System under the per-System lock, captures and uploads without it,
and looks once more under it before it inserts the two rows; the lock is held until the connection commits. So there is
one raw row, and whoever succeeds returns its key (`one_raw_vmcore`). Uploads are unconditional and outside the lock,
and only the first to finalize records its etags (`capture_overwrites`). Row and object agree when a capture uploads
only under keys no row has, and nobody else's with that method is between its upload and its end (`etags_agree`).
-/

namespace Kdive.Captures
open Lib List Option Function Machine

inductive CaptureMethod where
  | console | hostDump | gdbstub | kdump
  deriving DecidableEq

/-- `…/vmcore-{method}`, or `…/vmcore-{method}-redacted`. -/
structure Key where
  method : CaptureMethod
  redacted : Bool
  deriving DecidableEq

abbrev Etag := Nat

/-- A row of `artifacts`, with the capture whose transaction has inserted it. -/
structure Row where
  key : Key
  etag : Etag
  insertedBy : Nat
  deriving DecidableEq

/-- What `finalize_capture` inserts. -/
def vmcoreRows (i : Nat) (method : CaptureMethod) (raw redacted : Etag) : List Row :=
  [⟨⟨method, false⟩, raw, i⟩, ⟨⟨method, true⟩, redacted, i⟩]

inductive Stage where
  | starting
  | capturing
  | rawStored (raw : Etag)
  | stored (raw redacted : Etag)
  /-- `finalize_capture` has the lock. -/
  | locked (raw redacted : Etag)
  /-- Both rows are inserted, and not committed. -/
  | inserted (raw redacted : Etag)
  /-- There was a row already; the lock is held until the connection is returned. -/
  | found (key : Key)
  | returned (key : Key)
  | failed
  deriving DecidableEq

namespace Stage
/-- The per-System lock is held. -/
def holds : Stage → Bool
  | .locked .. | .inserted .. | .found _ => true
  | _ => false

def ended : Stage → Bool
  | .returned _ | .failed => true
  | _ => false

@[simp]
def uploads : Stage → Option Etag × Option Etag
  | .rawStored raw => (some raw, none)
  | .stored raw redacted | .locked raw redacted | .inserted raw redacted => (some raw, some redacted)
  | _ => (none, none)
end Stage

structure Capture where
  method : CaptureMethod
  stage : Stage := .starting
  deriving DecidableEq

structure State where
  rows : List Row := []
  objects : Key → Option Etag := fun _ => none
  captures : List Capture := []

namespace State
variable (s : State)

def rawVmcoreKey : Option Key := (s.rows.find? (!·.key.redacted)).map (·.key)

def isHeld : Bool := s.captures.any (·.stage.holds)

def setStage (i : Nat) (c : Capture) (stage : Stage) : State :=
  { s with captures := s.captures.set i { c with stage } }

def upload (key : Key) (etag : Etag) : State := { s with objects := Function.update s.objects key (some etag) }

def commit (i : Nat) (c : Capture) (raw redacted : Etag) : State :=
  { s with rows := s.rows ++ vmcoreRows i c.method raw redacted }

def proceed (i : Nat) (c : Capture) (etag : Etag) : Option State :=
  match c.stage with
  | .starting =>
    -- `precheck_system` reads one statement under the lock, and commits
    if s.isHeld then none
    else match s.rawVmcoreKey with
      | none => some (s.setStage i c .capturing)
      | some key => some (s.setStage i c (if key.method = c.method then .returned key else .failed))
  | .capturing => some ((s.upload ⟨c.method, false⟩ etag).setStage i c (.rawStored etag))
  | .rawStored raw => some ((s.upload ⟨c.method, true⟩ etag).setStage i c (.stored raw etag))
  | .stored raw redacted => if s.isHeld then none else some (s.setStage i c (.locked raw redacted))
  | .locked raw redacted =>
    match s.rawVmcoreKey with
    | none => some (s.setStage i c (.inserted raw redacted))
    | some key => some (s.setStage i c (if key.method = c.method then .found key else .failed))
  | .inserted raw redacted =>
    some ((s.commit i c raw redacted).setStage i c (.returned ⟨c.method, false⟩))
  | .found key => some (s.setStage i c (.returned key))
  | .returned _ | .failed => none
end State

inductive Move where
  /-- A job is dispatched, the first time or again. -/
  | captures (method : CaptureMethod)
  | proceeds (i : Nat) (etag : Etag)
  /-- The capture fails, its worker dies or its connection is lost; a commit may have been made all the same. The
      thread of a cancelled capture uploads to its end, and that is when the capture is said to fail. -/
  | faults (i : Nat) (committed : Bool)

def State.step (s : State) : Move → Option State
  | .captures method => some { s with captures := s.captures ++ [{ method }] }
  | .proceeds i etag => (s.captures[i]?).bind fun c => s.proceed i c etag
  | .faults i committed => (s.captures[i]?).bind fun c =>
    match c.stage, committed with
    | .returned _, _ | .failed, _ => none
    | .inserted raw redacted, true => some ((s.commit i c raw redacted).setStage i c .failed)
    | _, _ => some (s.setStage i c .failed)

def system : Machine where
  State := State
  Move := Move
  init s := s = {}
  step := State.step

/-! ## One raw row -/

/-- What a capture knows of the committed rows. -/
def Fits (rows : List Row) : Stage → Prop
  | .inserted .. => rows = []
  | .found key | .returned key => key.redacted = false ∧ ∃ row ∈ rows, row.key = key
  | _ => True

def Alone (captures : List Capture) : Prop :=
  ∀ (i j : Nat) (c d : Capture), captures[i]? = some c → captures[j]? = some d →
    c.stage.holds = true → d.stage.holds = true → i = j

/-- The rows are of at most one capture, and at most one holds the lock. -/
structure Sound (s : State) : Prop where
  rows : s.rows = [] ∨ ∃ i method raw redacted, s.rows = vmcoreRows i method raw redacted
  alone : Alone s.captures
  fits : ∀ (i : Nat) (c : Capture), s.captures[i]? = some c → Fits s.rows c.stage

section
variable {s s' : State} {i : Nat} {c : Capture} {stage : Stage}

theorem isHeld_of_holds (hc : s.captures[i]? = some c) (h : c.stage.holds = true) : s.isHeld = true :=
  any_eq_true.mpr ⟨c, mem_of_getElem? hc, h⟩

theorem rawVmcoreKey_some {key : Key} (h : s.rawVmcoreKey = some key) :
    key.redacted = false ∧ ∃ row ∈ s.rows, row.key = key := by
  obtain ⟨row, hrow, rfl⟩ := map_eq_some_iff.mp h
  have hraw := find?_some hrow
  rw [Bool.not_eq_true'] at hraw
  exact ⟨hraw, row, mem_of_find?_eq_some hrow, rfl⟩

theorem Alone.put (h : Alone s.captures) (hc : s.captures[i]? = some c)
    (hlock : stage.holds = true → c.stage.holds = true ∨ s.isHeld = false) : Alone (s.setStage i c stage).captures := by
  have hother : ∀ (j : Nat) (d : Capture), s.captures[j]? = some d → d.stage.holds = true →
      stage.holds = true → i = j := by
    intro j d hd hdh hsh
    rcases hlock hsh with hch | hfree
    · exact h i j c d hc hd hch hdh
    · exact absurd (isHeld_of_holds hd hdh) (by simp [hfree])
  intro j k d e hd he hdh heh
  rcases getElem?_set_cases hd with ⟨rfl, rfl⟩ | ⟨-, hd'⟩ <;> rcases getElem?_set_cases he with ⟨rfl, rfl⟩ | ⟨-, he'⟩
  · rfl
  · exact hother k e he' heh hdh
  · exact (hother j d hd' hdh heh).symm
  · exact h j k d e hd' he' hdh heh

namespace Sound
variable (h : Sound s)
include h

theorem rows_eq_nil (hkey : s.rawVmcoreKey = none) : s.rows = [] := by
  rcases h.rows with hnil | ⟨i, method, raw, redacted, hrows⟩
  · exact hnil
  · simp [State.rawVmcoreKey, hrows, vmcoreRows] at hkey

theorem put (hc : s.captures[i]? = some c)
    (hlock : stage.holds = true → c.stage.holds = true ∨ s.isHeld = false) (hfits : Fits s.rows stage) :
    Sound (s.setStage i c stage) := by
  refine ⟨h.rows, h.alone.put hc hlock, fun j d hd => ?_⟩
  rcases getElem?_set_cases hd with ⟨-, rfl⟩ | ⟨-, hd'⟩
  · exact hfits
  · exact h.fits j d hd'

theorem commit {raw redacted : Etag} (hc : s.captures[i]? = some c)
    (hstage : c.stage = .inserted raw redacted) (hheld : stage.holds = false)
    (hfits : Fits (vmcoreRows i c.method raw redacted) stage) :
    Sound ((s.commit i c raw redacted).setStage i c stage) := by
  have hnil : s.rows = [] := by
    have := h.fits i c hc
    rwa [hstage] at this
  have hrows : s.rows ++ vmcoreRows i c.method raw redacted = vmcoreRows i c.method raw redacted := by
    rw [hnil, nil_append]
  refine ⟨.inr ⟨i, c.method, raw, redacted, hrows⟩, h.alone.put hc (by simp [hheld]), fun j d hd => ?_⟩
  rcases getElem?_set_cases hd with ⟨-, rfl⟩ | ⟨hij, hd'⟩
  · exact hrows.symm.subst (motive := fun rows => Fits rows stage) hfits
  · have hfits' := h.fits j d hd'
    cases hd : d.stage with
    | inserted =>
      -- it would hold the lock too
      exact absurd (h.alone i j c d hc hd' (by rw [hstage]; rfl) (by rw [hd]; rfl)) hij
    | found key | returned key =>
      rw [hd, hnil] at hfits'
      obtain ⟨-, row, hrow, -⟩ := hfits'
      cases hrow
    | _ => trivial

theorem proceed {etag : Etag} (hc : s.captures[i]? = some c) (hs : s.proceed i c etag = some s') : Sound s' := by
  unfold State.proceed at hs
  have hup : ∀ key, Sound (s.upload key etag) := fun _ => ⟨h.rows, h.alone, h.fits⟩
  split at hs
  · split at hs
    · cases hs
    · split at hs
      · cases hs
        exact h.put hc (by simp [Stage.holds]) trivial
      · rename_i key hkey
        cases hs
        refine h.put hc (fun hh => ?_) ?_ <;> split at *
        · cases hh
        · cases hh
        · exact rawVmcoreKey_some hkey
        · trivial
  · cases hs
    exact (hup _).put hc (by simp [Stage.holds]) trivial
  · cases hs
    exact (hup _).put hc (by simp [Stage.holds]) trivial
  · split at hs
    · cases hs
    · rename_i hfree
      cases hs
      exact h.put hc (fun _ => .inr (by simpa using hfree)) trivial
  · rename_i hstage
    have hlock : c.stage.holds = true := by rw [hstage]; rfl
    split at hs
    · rename_i hkey
      cases hs
      exact h.put hc (fun _ => .inl hlock) (h.rows_eq_nil hkey)
    · rename_i key hkey
      cases hs
      refine h.put hc (fun _ => .inl hlock) ?_
      split
      · exact rawVmcoreKey_some hkey
      · trivial
  · rename_i hstage
    cases hs
    exact h.commit hc hstage rfl ⟨rfl, _, mem_cons_self, rfl⟩
  · rename_i key hstage
    cases hs
    have hfits := h.fits i c hc
    rw [hstage] at hfits
    exact h.put hc (by simp [Stage.holds]) hfits
  all_goals cases hs

theorem step {m : Move} (hs : s.step m = some s') : Sound s' := by
  cases m with
  | captures =>
    cases hs
    refine ⟨h.rows, fun j k d e hd he hdh heh => ?_, fun j d hd => ?_⟩
    · rcases getElem?_concat_cases hd with hd | ⟨-, rfl⟩
      · rcases getElem?_concat_cases he with he | ⟨-, rfl⟩
        · exact h.alone j k d e hd he hdh heh
        · cases heh
      · cases hdh
    · rcases getElem?_concat_cases hd with hd | ⟨-, rfl⟩
      · exact h.fits j d hd
      · trivial
  | proceeds =>
    obtain ⟨c, hc, hs⟩ := bind_eq_some_iff.mp hs
    exact h.proceed hc hs
  | faults i committed =>
    obtain ⟨c, hc, hs'⟩ := bind_eq_some_iff.mp hs
    split at hs'
    · cases hs'
    · cases hs'
    · rename_i hstage
      cases hs'
      exact h.commit hc hstage rfl trivial
    · cases hs'
      exact h.put hc (by simp [Stage.holds]) trivial
end Sound
end

/-- A System has one raw vmcore at most, with its redacted one, and each capture returns it. -/
theorem one_raw_vmcore {s : State} (h : system.Reach s) :
    (s.rows.filter (!·.key.redacted)).length ≤ 1 ∧
      (∀ row ∈ s.rows, row.key.redacted = false → ∃ other ∈ s.rows,
        other.key = ⟨row.key.method, true⟩ ∧ other.insertedBy = row.insertedBy) ∧
      ∀ c ∈ s.captures, ∀ key, c.stage = .returned key → s.rawVmcoreKey = some key := by
  have hsound : Sound s := h.always (I := Sound)
    (fun s hinit => by
      cases hinit
      refine ⟨.inl rfl, ?_, ?_⟩
      · intro i j c d hc
        cases hc
      · intro i c hc
        cases hc)
    fun s m s' _ _ hI hs => hI.step hs
  have hreturned : ∀ c ∈ s.captures, ∀ key, c.stage = .returned key →
      key.redacted = false ∧ ∃ row ∈ s.rows, row.key = key := by
    intro c hc key hstage
    obtain ⟨i, hi⟩ := mem_iff_getElem?.mp hc
    have hfits := hsound.fits i c hi
    rwa [hstage] at hfits
  rcases hsound.rows with hnil | ⟨i, method, raw, redacted, hrows⟩
  · refine ⟨by simp [hnil], by simp [hnil], fun c hc key hstage => ?_⟩
    obtain ⟨-, row, hrow, -⟩ := hreturned c hc key hstage
    simp [hnil] at hrow
  · refine ⟨by simp [hrows, vmcoreRows], by simp [hrows, vmcoreRows], fun c hc key hstage => ?_⟩
    obtain ⟨hraw, row, hrow, rfl⟩ := hreturned c hc key hstage
    simp only [hrows, vmcoreRows, mem_cons, not_mem_nil, or_false] at hrow
    rcases hrow with rfl | rfl
    · simp [State.rawVmcoreKey, hrows, vmcoreRows]
    · cases hraw

namespace Lab
/-- Two captures with one method, the second dispatched while the first is between its uploads; both upload, and the
    first finalizes. -/
def raced : List Move :=
  [.captures .hostDump, .proceeds 0 0, .proceeds 0 1, .captures .hostDump, .proceeds 1 0, .proceeds 0 2,
   .proceeds 1 3, .proceeds 1 4, .proceeds 0 0, .proceeds 0 0, .proceeds 0 0, .proceeds 1 0, .proceeds 1 0,
   .proceeds 1 0]
end Lab

theorem one_raw_vmcore_raced :
    (system.runTo ({} : State) Lab.raced).captures.map (·.stage) =
        [.returned ⟨.hostDump, false⟩, .returned ⟨.hostDump, false⟩] ∧
      ((system.runTo ({} : State) Lab.raced).rows.filter (!·.key.redacted)).length ≤ 1 :=
  ⟨by decide +kernel, (one_raw_vmcore (reach_runTo rfl Lab.raced)).1⟩

/-! ## Rows and objects -/

def etagOf (c : Capture) (redacted : Bool) : Option Etag :=
  if redacted then c.stage.uploads.2 else c.stage.uploads.1

/-- What is recorded, and what a capture is about to record, is what is stored. -/
structure Agree (s : State) : Prop where
  rows : ∀ row ∈ s.rows, s.objects row.key = some row.etag
  captures : ∀ (i : Nat) (c : Capture) (redacted : Bool) (etag : Etag), s.captures[i]? = some c →
    etagOf c redacted = some etag → s.objects ⟨c.method, redacted⟩ = some etag

/-- No row has the key, and no other capture with the method is between its upload and its end. -/
def isFree (s : State) (i : Nat) (key : Key) : Bool :=
  s.rows.all (·.key ≠ key) && (s.captures.zipIdx).all fun (c, j) =>
    j = i || c.method ≠ key.method || (etagOf c key.redacted).isNone

/-- Uploads are under free keys. -/
def careful (s : State) : Move → Bool
  | .proceeds i _ => (s.captures[i]?).all fun c =>
    match c.stage with
    | .capturing => isFree s i ⟨c.method, false⟩
    | .rawStored _ => isFree s i ⟨c.method, true⟩
    | _ => true
  | _ => true

namespace Agree
variable {s s' : State} {i : Nat} {c : Capture} {stage : Stage}

variable (h : Agree s)
include h

theorem put (hc : s.captures[i]? = some c)
    (hstage : ∀ redacted etag, etagOf { c with stage } redacted = some etag → etagOf c redacted = some etag) :
    Agree (s.setStage i c stage) where
  rows := h.rows
  captures j d redacted etag hd he := by
    rcases getElem?_set_cases hd with ⟨-, rfl⟩ | ⟨-, hd'⟩
    · exact h.captures i c redacted etag hc (hstage redacted etag he)
    · exact h.captures j d redacted etag hd' he

theorem commit {raw redacted : Etag} (hc : s.captures[i]? = some c)
    (hstage : c.stage = .inserted raw redacted) : Agree (s.commit i c raw redacted) where
  rows row hrow := by
    have hobject := fun r e => h.captures i c r e hc
    simp only [etagOf, hstage, Stage.uploads] at hobject
    rcases mem_append.mp hrow with hrow | hrow
    · exact h.rows row hrow
    · simp only [vmcoreRows, mem_cons, not_mem_nil, or_false] at hrow
      rcases hrow with rfl | rfl
      · exact hobject false raw rfl
      · exact hobject true redacted rfl
  captures := h.captures

/-- An upload under a free key: what the others have is under other keys. -/
theorem upload {redacted : Bool} {etag : Etag} (hc : s.captures[i]? = some c)
    (hfree : isFree s i ⟨c.method, redacted⟩ = true) (hstage : ∀ r e, etagOf { c with stage } r = some e →
      (r = redacted ∧ e = etag) ∨ (r ≠ redacted ∧ etagOf c r = some e)) :
    Agree ((s.upload ⟨c.method, redacted⟩ etag).setStage i c stage) := by
  rw [isFree, Bool.and_eq_true, List.all_eq_true, List.all_eq_true] at hfree
  refine ⟨fun row hrow => ?_, fun j d r e hd he => ?_⟩
  · exact (update_of_ne (by simpa using hfree.1 row hrow) _ _).trans (h.rows row hrow)
  · have hkey : ∀ {key : Key}, key ≠ ⟨c.method, redacted⟩ → s.objects key = some e →
        (s.upload ⟨c.method, redacted⟩ etag).objects key = some e :=
      fun hne hobject => (update_of_ne hne _ _).trans hobject
    rcases getElem?_set_cases hd with ⟨-, rfl⟩ | ⟨hij, hd'⟩
    · rcases hstage r e he with ⟨rfl, rfl⟩ | ⟨hne, hold⟩
      · exact update_self ..
      · exact hkey (by simp [hne]) (h.captures i c r e hc hold)
    · refine hkey (fun heq => ?_) (h.captures j d r e hd' he)
      have hother := hfree.2 (d, j) (mk_mem_zipIdx_iff_getElem?.mpr hd')
      obtain ⟨hmethod, hr⟩ := Key.mk.inj heq
      simp [← hmethod, ← hr, he, Ne.symm hij] at hother

theorem proceed {etag : Etag} (hc : s.captures[i]? = some c)
    (hok : careful s (.proceeds i etag) = true) (hs : s.proceed i c etag = some s') : Agree s' := by
  rw [careful, hc, all_some] at hok
  unfold State.proceed at hs
  split at hs
  · split at hs
    · cases hs
    · split at hs
      · cases hs
        exact h.put hc (by simp [etagOf])
      · cases hs
        refine h.put hc ?_
        split <;> simp [etagOf]
  · rename_i hstage
    cases hs
    rw [hstage] at hok
    refine h.upload hc hok ?_
    simp [etagOf, eq_comm]
  · rename_i raw hstage
    cases hs
    rw [hstage] at hok
    refine h.upload hc hok ?_
    simp [etagOf, hstage, eq_comm]
  · rename_i hstage
    split at hs
    · cases hs
    · cases hs
      exact h.put hc (by simp [etagOf, hstage])
  · rename_i hstage
    split at hs
    · cases hs
      exact h.put hc (by simp [etagOf, hstage])
    · cases hs
      refine h.put hc ?_
      split <;> simp [etagOf]
  · rename_i hstage
    cases hs
    exact (h.commit hc hstage).put hc (by simp [etagOf])
  · cases hs
    exact h.put hc (by simp [etagOf])
  all_goals cases hs

theorem step {m : Move} (hok : careful s m = true) (hs : s.step m = some s') : Agree s' := by
  cases m with
  | captures =>
    cases hs
    refine ⟨h.rows, fun j d r e hd he => ?_⟩
    rcases getElem?_concat_cases hd with hd | ⟨-, rfl⟩
    · exact h.captures j d r e hd he
    · simp [etagOf] at he
  | proceeds =>
    obtain ⟨c, hc, hs⟩ := bind_eq_some_iff.mp hs
    exact h.proceed hc hok hs
  | faults i committed =>
    obtain ⟨c, hc, hs'⟩ := bind_eq_some_iff.mp hs
    split at hs'
    · cases hs'
    · cases hs'
    · rename_i hstage
      cases hs'
      exact (h.commit hc hstage).put hc (by simp [etagOf])
    · cases hs'
      exact h.put hc (by simp [etagOf])
end Agree

/-- Each row has the etag of its object, if captures are careful. -/
theorem etags_agree {s : State} (h : system.ReachBy (fun s m => careful s m = true) s) :
    ∀ row ∈ s.rows, s.objects row.key = some row.etag := by
  have hagree : Agree s := h.always (I := Agree)
    (fun s hinit => by
      cases hinit
      refine ⟨?_, ?_⟩
      · intro row hrow
        cases hrow
      · intro i c r e hc
        cases hc)
    fun s m s' _ hok hI hs => hI.step hok hs
  exact hagree.rows

theorem etags_agree_retried :
    let s := system.runTo ({} : State) [.captures .kdump, .proceeds 0 0, .proceeds 0 1, .proceeds 0 2, .faults 0 false,
      .captures .kdump, .proceeds 1 0, .proceeds 1 3, .proceeds 1 4, .proceeds 1 0, .proceeds 1 0, .proceeds 1 0]
    s.rows.map (·.etag) = [3, 4] ∧ ∀ row ∈ s.rows, s.objects row.key = some row.etag := by
  intro s
  have hleads : system.Leads (fun s m => careful s m = true) {} s := leads_runTo (by decide +kernel)
  exact ⟨by decide +kernel, etags_agree ((Machine.ReachBy.init rfl).leads hleads)⟩

/-- A second capture writes over the objects of the first. -/
theorem capture_overwrites : ∃ s : State, system.Reach s ∧ (∀ c ∈ s.captures, c.stage.ended = true) ∧
    ∃ row ∈ s.rows, s.objects row.key ≠ some row.etag := by
  refine ⟨system.runTo ({} : State) Lab.raced, reach_runTo rfl _, by decide +kernel, ?_⟩
  exact ⟨⟨⟨.hostDump, false⟩, 1, 0⟩, by decide +kernel, by decide +kernel⟩
end Kdive.Captures
