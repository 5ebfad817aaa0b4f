import Kdive.Domain.Models

/-! # What a build leaves behind: `services/runs/steps.py`

The result of the build step of a Run, as it stands in its `run_steps` row and as it is read back.
-/

namespace Kdive.Jobs
open Json

structure BuildOutput where
  kernelRef : String
  debuginfoRef : String
  buildId : String

def optionalStr : Option Json → Option String
  | some (.str s) => if s = "" then none else some s
  | _ => none

structure BuildStepResult where
  kernelRef : Option String
  debuginfoRef : Option String
  buildId : Option String
  initrdRef : Option String := none
  cmdline : Option String := none

namespace BuildStepResult
def load : Json → Option BuildStepResult
  | .obj fields => some
    { kernelRef := optionalStr (get? fields "kernel_ref")
      debuginfoRef := optionalStr (get? fields "debuginfo_ref")
      buildId := optionalStr (get? fields "build_id")
      initrdRef := optionalStr (get? fields "initrd_ref")
      cmdline := optionalStr (get? fields "cmdline") }
  | _ => none

def entry (key : String) (value : Option String) : List (String × Json) :=
  (value.map fun s => (key, str s)).toList

def dump (r : BuildStepResult) : Json :=
  .obj (entry "kernel_ref" r.kernelRef ++ entry "debuginfo_ref" r.debuginfoRef ++
    entry "initrd_ref" r.initrdRef ++ entry "build_id" r.buildId ++ entry "cmdline" r.cmdline)

def readBack (value : Option String) : Option String := value.filter (· ≠ "")

theorem get?_entry_self (key : String) (value : Option String) (rest : List (String × Json))
    (hrest : get? rest key = none) : get? (entry key value ++ rest) key = value.map .str := by
  cases value with
  | none => exact hrest
  | some => simp [entry, get?]

theorem get?_entry_of_ne {key key' : String} (h : key ≠ key') (value : Option String)
    (rest : List (String × Json)) : get? (entry key value ++ rest) key' = get? rest key' := by
  cases value with
  | none => rfl
  | some => simp [entry, get?, h]

theorem optionalStr_map (value : Option String) : optionalStr (value.map .str) = readBack value := by
  cases value with
  | none => rfl
  | some s =>
    by_cases hs : s = "" <;> simp [optionalStr, readBack, Option.filter, hs]

/-- **What is read back from a dump**: the two references, an empty one as none. -/
theorem load_dump (r : BuildStepResult) : ∃ r', load r.dump = some r' ∧
    r'.kernelRef = readBack r.kernelRef ∧ r'.debuginfoRef = readBack r.debuginfoRef := by
  refine ⟨_, rfl, ?_, ?_⟩
  · show optionalStr (get? _ "kernel_ref") = _
    rw [List.append_assoc, List.append_assoc, List.append_assoc, get?_entry_self, optionalStr_map]
    rw [get?_entry_of_ne (by decide), get?_entry_of_ne (by decide), get?_entry_of_ne (by decide)]
    cases r.cmdline <;> rfl
  · show optionalStr (get? _ "debuginfo_ref") = _
    rw [List.append_assoc, List.append_assoc, List.append_assoc, get?_entry_of_ne (by decide),
      get?_entry_self, optionalStr_map]
    rw [get?_entry_of_ne (by decide), get?_entry_of_ne (by decide)]
    cases r.cmdline <;> rfl

theorem readBack_some {s : String} (h : s ≠ "") : readBack (some s) = some s := by
  simp [readBack, Option.filter, h]
end BuildStepResult

/-- `artifact_key`: the key under which a build's artifact is stored. -/
def artifactKey (tenant kind : String) (objectId : Uuid) (name : String) : String :=
  tenant ++ "/" ++ kind ++ "/" ++ toString objectId ++ "/" ++ name

theorem append_ne_empty {s t : String} (h : t ≠ "") : s ++ t ≠ "" := by
  intro hst
  exact h (String.append_eq_empty_iff.mp hst).2

theorem artifactKey_ne_empty (tenant kind : String) (objectId : Uuid) {name : String}
    (h : name ≠ "") : artifactKey tenant kind objectId name ≠ "" :=
  append_ne_empty h
end Kdive.Jobs
