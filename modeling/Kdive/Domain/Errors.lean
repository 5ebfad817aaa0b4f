import Kdive.Lib.Prog
import Mathlib.Data.Rat.Defs

/-! # Exceptions: `domain/errors.py` and what the drivers raise

`CategorizedError` carries a message, the category a failure response reports, and details. Messages
are formatted strings in the source; here they are the list of their pieces, so that a message shows
which values it was built from without fixing how Python prints a `Decimal`.
-/

namespace Kdive
/-- Object identifiers. The source uses random 128-bit values; only their identity and, in
    `ORDER BY`, their order matter. -/
abbrev Uuid := Nat

/-- A piece of a message, or the value of a detail. -/
inductive Part where
  | text (s : String)
  /-- `{s!r}` of a string. -/
  | quoted (s : String)
  | int (n : Int)
  | dec (q : ℚ)
  | id (u : Uuid)
  | null
  | list (l : List String)
  deriving DecidableEq

inductive ErrorCategory where
  | configurationError
  | missingDependency
  | buildFailure
  | bootTimeout
  | readinessFailure
  | debugAttachFailure
  | infrastructureFailure
  | staleHandle
  | transportConflict
  | notImplemented
  | notFound
  | conflict
  | allocationDenied
  | quotaExceeded
  | leaseExpired
  | queueTimeout
  | provisioningFailure
  | installFailure
  | transportFailure
  | controlFailure
  | authorizationDenied
  | capacityExhausted
  deriving DecidableEq

structure CategorizedError where
  message : List Part
  category : ErrorCategory
  details : List (String × Part) := []
  deriving DecidableEq

/-- The exceptions the modelled functions raise or let through. -/
inductive Err where
  | categorized (e : CategorizedError)
  /-- `IllegalTransition`, with the two states' wire names. -/
  | illegalTransition (lifecycle frm new : String)
  | objectNotFound (table : String) (id : Uuid)
  /-- `AuthError`: the audited project is not among the caller's. -/
  | auth (project principal : String)
  /-- `RuntimeError`, an invariant of the code that did not hold. -/
  | runtime (message : List Part)
  /-- `ValueError`. -/
  | value (message : List Part)
  /-- `OverflowError`, or a `Decimal` operation beyond the largest exponent. -/
  | overflow
  /-- An error of the database: its SQLSTATE class. -/
  | database (sqlstate : String)
  deriving DecidableEq

/-- `CategorizedError(message, category=…, details=…)`, raised. -/
def Err.of (message : List Part) (category : ErrorCategory) (details : List (String × Part) := []) : Err :=
  .categorized ⟨message, category, details⟩

def Err.configuration (message : List Part) (details : List (String × Part) := []) : Err :=
  .of message .configurationError details
end Kdive
