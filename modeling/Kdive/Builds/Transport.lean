import Kdive.Domain.Errors
import Mathlib.Data.List.Infix

/-! # The build transports: `providers/build_host/shell_transport.py`

A transport runs commands on the build host. What it keeps of their output in the details of an error is redacted and
cut: registered values and `key=value` pairs of secret names are masked.

`clone` looks at the result of its checkout only: after a fetch that failed it returns with what an earlier one has left
(`clone_at_earlier_fetch`), and otherwise with what it has fetched (`clone_at_fetched_iff`).
-/

namespace Kdive.Builds
open List

abbrev Text := List Char

def redaction : Text := "[REDACTED]".toList

/-- The classes of Python's `re` that go beyond ASCII: `\w` and `\s`. -/
structure CharClasses where
  isWord : Char → Bool
  isSpace : Char → Bool

/-- `text.replace(value, …)`, where `skip` characters of a match are still to come. -/
def replaceFrom (value : Text) : Nat → Text → Text
  | _, [] => []
  | 0, c :: cs => if value <+: c :: cs then redaction ++ replaceFrom value (value.length - 1) cs
    else c :: replaceFrom value 0 cs
  | skip + 1, _ :: cs => replaceFrom value skip cs

/-- What a letter of a pattern with `(?i)` matches. -/
def fold (c : Char) : Char :=
  if c = 'İ' ∨ c = 'ı' then 'i' else if c = 'ſ' then 's' else if c = '\u212a' then 'k' else c.toLower

/-- `[A-Za-z0-9_-]`. -/
def isNameChar (c : Char) : Bool := (fold c).isAlphanum || c = '_' || c = '-'

/-- `password|passwd|token|api[_-]?key|secret`. -/
def secretNames : List Text :=
  ["password", "passwd", "token", "apikey", "api_key", "api-key", "secret"].map String.toList

/-- The pattern at one place: how long the two groups that stay are, and the third. No name character can follow a name,
    and no blank precedes a value, so that each star takes all it can. -/
def keyValue (chars : CharClasses) (prev : Option Char) (text : Text) : Option (Nat × Nat) :=
  let name := text.takeWhile isNameChar
  let afterName := text.drop name.length
  let blank := afterName.takeWhile chars.isSpace
  let rest := (afterName.drop blank.length).drop 1
  let blank' := rest.takeWhile chars.isSpace
  let value := (rest.drop blank'.length).takeWhile (!chars.isSpace ·)
  if prev.any chars.isWord ≠ text.head?.any chars.isWord ∧ (∃ s ∈ secretNames, s <:+: name.map fold) ∧
      (afterName.drop blank.length).head?.any (fun c => c = '=' || c = ':') ∧ value ≠ [] then
    some (name.length + blank.length + 1 + blank'.length, value.length)
  else none

/-- `_key_value_pattern.sub`, where `keep` characters of a match stay and `mask` go. -/
def redactPairs (chars : CharClasses) : Option Char → Nat → Nat → Text → Text
  | _, _, _, [] => []
  | prev, 0, 0, c :: cs =>
    match keyValue chars prev (c :: cs) with
    | some (keep, mask) => c :: redactPairs chars (some c) (keep - 1) mask cs
    | none => c :: redactPairs chars (some c) 0 0 cs
  | _, 0, 1, c :: cs => redaction ++ redactPairs chars (some c) 0 0 cs
  | _, 0, mask + 2, c :: cs => redactPairs chars (some c) 0 (mask + 1) cs
  | _, keep + 1, mask, c :: cs => c :: redactPairs chars (some c) keep mask cs

def redactText (chars : CharClasses) (values : List Text) (text : Text) : Text :=
  redactPairs chars none 0 0 ((values.filter (· ≠ [])).foldl (fun t value => replaceFrom value 0 t) text)

/-! ## Checkouts -/

structure CommandResult where
  returncode : Int
  stderr : Text

def redactedTail (chars : CharClasses) (snapshot : List Text) (text : Text) : String :=
  let redacted := redactText chars snapshot text
  String.ofList (redacted.drop (redacted.length - 2000))

def validateGitArg (value : Text) (field : String) : Except Err Unit :=
  if value.head? = some '-' then
    .error (.configuration [.text field, .text " must not start with '-' (would be parsed as a git option)"]
      [("field", .text field)])
  else if value.any (·.toNat < 0x20) then
    .error (.configuration [.text field, .text " contains a control character or newline"] [("field", .text field)])
  else .ok ()

abbrev Commit := Nat

/-- What is at `dest`: the commit of the last fetch that succeeded there, and the one checked out. -/
structure Repo where
  fetchHead : Option Commit
  head : Option Commit
  deriving DecidableEq

/-- How the three commands of a `clone` turn out; `_run_remote` can raise. -/
structure Git where
  init : Except Err CommandResult
  fetch : Except Err CommandResult
  /-- The commit the fetch has got for the remote and the ref; `none` if it failed. -/
  resolved : Option Commit
  checkout : Except Err CommandResult

def Git.fetched (git : Git) (repo : Repo) : Repo := { repo with fetchHead := git.resolved <|> repo.fetchHead }

/-- `git checkout FETCH_HEAD` fails where nothing has been fetched. -/
def Git.checkedOut (git : Git) (repo : Repo) : Except Err (CommandResult × Repo) :=
  git.checkout.map fun result =>
    if repo.fetchHead = none then ({ result with returncode := 128 }, repo)
    else (result, if result.returncode = 0 then { repo with head := repo.fetchHead } else repo)

/-- `clone`: of the first two commands the results are not looked at. -/
def clone (chars : CharClasses) (snapshot : List Text) (remote ref : Text) (git : Git) (repo : Repo) :
    Except Err Repo := do
  validateGitArg remote "remote"
  validateGitArg ref "ref"
  let _ ← git.init
  let _ ← git.fetch
  let (result, repo') ← git.checkedOut (git.fetched repo)
  if result.returncode ≠ 0 then
    .error (.configuration [.text "git checkout FETCH_HEAD failed on remote"]
      [("stderr", .text (redactedTail chars snapshot result.stderr))])
  .ok repo'

variable {chars : CharClasses} {snapshot : List Text} {remote ref : Text} {git : Git} {repo repo' : Repo}

theorem clone_ok (h : clone chars snapshot remote ref git repo = .ok repo') :
    (git.fetched repo).fetchHead ≠ none ∧ repo'.head = (git.fetched repo).fetchHead := by
  unfold clone at h
  cases hremote : validateGitArg remote "remote" <;> cases href : validateGitArg ref "ref" <;>
    cases hinit : git.init <;> cases hfetch : git.fetch <;> cases hcheckout : git.checkout <;>
    simp only [hremote, href, hinit, hfetch, hcheckout, Git.checkedOut, Except.map, bind, Except.bind,
      reduceCtorEq] at h
  rename_i result
  by_cases hnone : (git.fetched repo).fetchHead = none
  · simp [hnone] at h
  · by_cases hzero : result.returncode = 0
    · simp only [if_neg hnone, ne_eq, hzero, not_true_eq_false, if_false, Except.ok.injEq] at h
      exact ⟨hnone, h ▸ rfl⟩
    · simp [hnone, hzero] at h

/-- A clone is at the fetched commit unless the fetch found none and an earlier one had left its own. -/
theorem clone_at_fetched_iff (h : clone chars snapshot remote ref git repo = .ok repo') :
    (∃ commit, git.resolved = some commit ∧ repo'.head = some commit) ↔
      git.resolved ≠ none ∨ repo.fetchHead = none := by
  obtain ⟨hsome, hhead⟩ := clone_ok h
  cases hresolved : git.resolved with
  | some =>
    rw [hhead, Git.fetched, hresolved]
    simp
  | none =>
    rw [Git.fetched, hresolved] at hsome
    simpa using hsome

/-- The commands all succeed, the fetch with that commit, or it fails. -/
def fetching (resolved : Option Commit) : Git where
  init := .ok ⟨0, []⟩
  fetch := .ok ⟨if resolved.isSome then 0 else 128, []⟩
  resolved := resolved
  checkout := .ok ⟨0, []⟩

def ascii : CharClasses := ⟨fun c => c.isAlphanum || c = '_', Char.isWhitespace⟩

theorem clone_at_fetched_anew :
    ∃ commit, (fetching (some 7)).resolved = some commit ∧ (some 7 : Option Commit) = some commit :=
  (clone_at_fetched_iff (show clone ascii [] "https://git/linux".toList "v6.9".toList (fetching (some 7)) ⟨none, none⟩ =
    .ok ⟨some 7, some 7⟩ by rfl)).mpr (.inr rfl)

/-- A fetch without a commit leaves the clone at an earlier one. -/
theorem clone_at_earlier_fetch :
    clone ascii [] "https://git/linux".toList "v6.9".toList (fetching none) ⟨some 3, some 3⟩ =
      .ok ⟨some 3, some 3⟩ ∧ (fetching none).resolved = none := by
  constructor <;> rfl
end Kdive.Builds
