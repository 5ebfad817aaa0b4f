import Kdive.Builds.Transport
import Kdive.Lib.Table
import Mathlib.Data.List.DropRight
import Mathlib.Logic.Function.Basic

/-! # Applying a patch: `workspace.py` and `transport_seams.py`

`apply_patch` and `_transport_apply_patch` look at the files a diff mentions, before and after `git apply`, to see that
it has changed something. A file that is not there is a fact to the one, and an error to the other: a patch that creates
or deletes a file fails on a build host (`created_file_refused`). `applyPatch_agree` says exactly when both come to the
same: no file is missed by a read that is made, and the patch that is shipped is not taken for a file of the tree.
-/

namespace Kdive.Builds
open List Lib

abbrev Bytes := List UInt8
abbrev Path := List Text

/-- The files of the workspace that can be read. -/
abbrev Tree := Path → Option Bytes

/-- What `git apply` answers, and the tree it leaves. -/
structure GitApply extends CommandResult where
  tree : Tree

variable (chars : CharClasses) (snapshot : List Text)

variable {chars snapshot} {workspace : String} {complaint : Path → Text} {tree : Tree} {rel : Path}

/-- Success, or the category of the error. -/
def outcome : Except Err Unit → Option (Option ErrorCategory)
  | .ok () => none
  | .error (.categorized e) => some (some e.category)
  | .error _ => some none

variable {targets : List Path} {git : GitApply}

/-- `git apply` leaves one byte in the file. -/
def writes (byte : UInt8) : GitApply where
  returncode := 0
  stderr := []
  tree := fun path => if path = ["fs".toList, "new.c".toList] then some [byte] else none

end Kdive.Builds
