import Mathlib.Data.List.Basic
import Mathlib.Logic.Function.Basic

/-! # The registry of secret values

`SecretRegistry` has a reference count for each value, and the values of each scope. A value is in the snapshot exactly
if some registration of it is outstanding, because the count of a value is the number of its outstanding
registrations, over all scopes (`Agrees`). The version goes up with every change of the counts, so that a redactor
cached under the version is the one for the snapshot at hand.
-/

namespace Kdive.Secrets
open List Option Function

variable {Scope : Type} [DecidableEq Scope]

/-- `SecretRegistry`; its dicts are partial functions, and `none` is the key of the global scope. -/
structure Registry (Scope : Type) where
  refcount : String → Option Int := fun _ => none
  byScope : Option Scope → Option (List String) := fun _ => none
  version : Nat := 0

inductive Call (Scope : Type) where
  | register (value : Option String) (scope : Option Scope)
  | release (scope : Option Scope)
  | clear

/-- One turn of the loop of `release`. -/
def unref (refcount : String → Option Int) (value : String) : String → Option Int :=
  let remaining := (refcount value).getD 0 - 1
  update refcount value (if remaining ≤ 0 then none else some remaining)

namespace Registry
def call (r : Registry Scope) : Call Scope → Registry Scope
  | .register value scope =>
    match value.filter (· != "") with
    | none => r
    | some value =>
      { refcount := update r.refcount value (some ((r.refcount value).getD 0 + 1))
        byScope := update r.byScope scope (some ((r.byScope scope).getD [] ++ [value]))
        version := r.version + 1 }
  | .release none => r
  | .release (some scope) =>
    let byScope := update r.byScope (some scope) none
    match (r.byScope (some scope)).getD [] with
    | [] => { r with byScope }
    | values => { refcount := values.foldl unref r.refcount, byScope, version := r.version + 1 }
  | .clear => { version := r.version + 1 }

def snapshot (r : Registry Scope) (value : String) : Bool := (r.refcount value).isSome

def after : List (Call Scope) → Registry Scope
  | [] => {}
  | c :: earlier => (after earlier).call c
end Registry

/-- `SecretRedactionFilter`, with the snapshot its redactor was built from. -/
structure Filter where
  cachedVersion : Int := -1
  redactor : String → Bool

def Filter.current (f : Filter) (r : Registry Scope) : Filter :=
  if (r.version : Int) ≠ f.cachedVersion then ⟨r.version, r.snapshot⟩ else f

inductive Event (Scope : Type) where
  | calls (c : Call Scope)
  | filters

/-- The registry and a filter of it, made when the registry was `r`, after these events, the last of them first. -/
def observed (r : Registry Scope) : List (Event Scope) → Registry Scope × Filter
  | [] => (r, { redactor := r.snapshot })
  | .calls c :: earlier => ((observed r earlier).1.call c, (observed r earlier).2)
  | .filters :: earlier => ((observed r earlier).1, (observed r earlier).2.current (observed r earlier).1)

/-! ## Outstanding registrations -/

/-- The value was registered under the scope, with no `clear` since, and no `release` of the scope. -/
def Held (scope : Option Scope) (value : String) : List (Call Scope) → Prop
  | [] => False
  | c :: earlier => c = .register (some value) scope ∨
    (c ≠ .clear ∧ (scope = none ∨ c ≠ .release scope) ∧ Held scope value earlier)

def outstanding : List (Call Scope) → List (Option Scope × String)
  | [] => []
  | .register value scope :: earlier => outstanding earlier ++ (value.filter (· != "")).toList.map (scope, ·)
  | .release none :: earlier => outstanding earlier
  | .release (some scope) :: earlier => (outstanding earlier).filter (·.1 ≠ some scope)
  | .clear :: _ => []

theorem mem_outstanding {scope : Option Scope} {value : String} {calls : List (Call Scope)} :
    (scope, value) ∈ outstanding calls ↔ value ≠ "" ∧ Held scope value calls := by
  induction calls with
  | nil => simp [outstanding, Held]
  | cons c earlier ih =>
    cases c with
    | register v =>
      cases v with
      | none => simp [outstanding, Held, ih]
      | some v =>
        rcases eq_or_ne v ("") with rfl | hv
        · simp only [outstanding, Held, ne_eq]
          simp [ih]
          tauto
        · simp [outstanding, Held, ih]
          grind
    | release k =>
      cases k <;>
      · simp [outstanding, Held, ih]
        grind
    | clear => simp [outstanding, Held]

/-! ## The counts are those of the outstanding registrations -/

def counted (n : Nat) : Option Int := if n = 0 then none else some n

structure Agrees (r : Registry Scope) (held : List (Option Scope × String)) : Prop where
  counts : ∀ v, r.refcount v = counted (held.countP (·.2 = v))
  scopes : ∀ k, (r.byScope k).getD [] = (held.filter (·.1 = k)).map (·.2)

theorem unref_counted {refcount : String → Option Int} {n : String → Nat}
    (h : ∀ v, refcount v = counted (n v)) (a v : String) :
    unref refcount a v = counted (n v - if a = v then 1 else 0) := by
  rcases eq_or_ne a v with rfl | hv
  · simp only [unref, update_self, h, counted]
    split <;> rename_i hn <;> simp only [getD_none, getD_some, ↓reduceIte] <;> grind
  · simp [unref, update_of_ne (Ne.symm hv), h, hv]

/-- The loop of `release` takes off one registration for each value of the scope. -/
theorem foldl_unref {refcount : String → Option Int} {n : String → Nat}
    (h : ∀ v, refcount v = counted (n v)) (values : List String) (v : String) :
    values.foldl unref refcount v = counted (n v - values.countP (· = v)) := by
  induction values generalizing refcount n with
  | nil => simp [h]
  | cons a rest ih =>
    rw [foldl_cons, ih (unref_counted h a), countP_cons, Nat.sub_sub, Nat.add_comm]
    simp

variable {r : Registry Scope}

theorem Agrees.register {held : List (Option Scope × String)} (h : Agrees r held)
    (value : Option String) (scope : Option Scope) :
    Agrees (r.call (.register value scope)) (held ++ (value.filter (· != "")).toList.map (scope, ·)) := by
  simp only [Registry.call]
  cases value.filter (· != "") with
  | none => simpa using h
  | some value =>
    constructor
    · intro v
      rcases eq_or_ne value v with rfl | hv
      · simp only [update_self, h.counts, counted]
        split <;> rename_i hn <;> simp [hn]
      · simp [update_of_ne (Ne.symm hv), h.counts, hv]
    · intro k
      rcases eq_or_ne scope k with rfl | hk
      · simp [h.scopes]
      · simp [update_of_ne (Ne.symm hk), h.scopes, hk]

theorem Agrees.release {held : List (Option Scope × String)} (h : Agrees r held) (scope : Scope) :
    Agrees (r.call (.release (some scope))) (held.filter (·.1 ≠ some scope)) := by
  have hscopes : ∀ k, (update r.byScope (some scope) none k).getD [] =
      ((held.filter (·.1 ≠ some scope)).filter (·.1 = k)).map (·.2) := by
    intro k
    rcases eq_or_ne k (some scope) with rfl | hk
    · simp [List.filter_filter]
    · rw [update_of_ne hk, h.scopes, List.filter_filter]
      congr 2
      grind
  -- A registration of `v` is either one of this scope or one that stays.
  have hsplit : ∀ v, held.countP (·.2 = v) - ((held.filter (·.1 = some scope)).map (·.2)).countP (· = v) =
      (held.filter (·.1 ≠ some scope)).countP (·.2 = v) := by
    intro v
    rw [countP_eq_countP_filter_add held (·.2 = v) (·.1 = some scope), countP_map]
    simp [comp_def]
  have hvalues := h.scopes (some scope)
  unfold Registry.call
  simp only
  split
  case h_1 hnil =>
    refine ⟨fun v => ?_, hscopes⟩
    rw [← hsplit, ← hvalues, hnil]
    simp [h.counts]
  case h_2 hvals =>
    refine ⟨fun v => ?_, hscopes⟩
    rw [← hsplit, ← hvalues]
    exact foldl_unref h.counts _ v

theorem agrees_after (calls : List (Call Scope)) : Agrees (Registry.after calls) (outstanding calls) := by
  induction calls with
  | nil => exact ⟨fun v => rfl, fun k => rfl⟩
  | cons c earlier ih =>
    match c with
    | .register value scope => exact ih.register value scope
    | .release none => exact ih
    | .release (some scope) => exact ih.release scope
    | .clear => exact ⟨fun v => rfl, fun k => rfl⟩

theorem snapshot_after {calls : List (Call Scope)} {v : String} :
    (Registry.after calls).snapshot v = true ↔ v ≠ "" ∧ ∃ scope, Held scope v calls := by
  have hcount : (Registry.after calls).snapshot v = true ↔ 0 < (outstanding calls).countP (·.2 = v) := by
    rw [Registry.snapshot, (agrees_after calls).counts, counted]
    split <;> rename_i hn
    · simp only [hn, Nat.lt_irrefl, isSome_none, Bool.false_eq_true]
    · simp only [isSome_some, Nat.pos_of_ne_zero hn]
  rw [hcount, countP_pos_iff, ← exists_and_left]
  simp only [← mem_outstanding]
  constructor
  · rintro ⟨⟨scope, w⟩, hmem, hw⟩
    exact ⟨scope, of_decide_eq_true hw ▸ hmem⟩
  · rintro ⟨scope, hmem⟩
    exact ⟨_, hmem, by simp⟩

/-! ## The version -/

theorem call_version (r : Registry Scope) (c : Call Scope) :
    (r.call c).version = r.version ∧ (r.call c).refcount = r.refcount ∨ (r.call c).version = r.version + 1 := by
  unfold Registry.call
  split
  · split <;> simp
  · simp
  · simp only
    split <;> simp
  · simp

theorem after_version (later calls : List (Call Scope)) :
    (Registry.after (later ++ calls)).version = (Registry.after calls).version ∧
      (Registry.after (later ++ calls)).refcount = (Registry.after calls).refcount ∨
    (Registry.after calls).version < (Registry.after (later ++ calls)).version := by
  induction later with
  | nil => exact .inl ⟨rfl, rfl⟩
  | cons c later =>
    have := call_version (Registry.after (later ++ calls)) c
    simp only [cons_append, Registry.after]
    grind

/-- A redactor cached under the version at hand is the one for the snapshot at hand. -/
structure Fresh (r : Registry Scope) (f : Filter) : Prop where
  le : f.cachedVersion ≤ r.version
  eq : f.cachedVersion = r.version → f.redactor = r.snapshot

theorem Fresh.call {f : Filter} (h : Fresh r f) (c : Call Scope) : Fresh (r.call c) f := by
  have hle := h.le
  rcases call_version r c with ⟨hv, hr⟩ | hv
  · exact ⟨by omega, fun he => by rw [h.eq (by omega)]; unfold Registry.snapshot; rw [hr]⟩
  · exact ⟨by omega, fun he => by omega⟩

omit [DecidableEq Scope] in
theorem Fresh.current {f : Filter} (h : Fresh r f) : Fresh r (f.current r) ∧ (f.current r).redactor = r.snapshot := by
  unfold Filter.current
  split
  · exact ⟨⟨Int.le_refl _, fun _ => rfl⟩, rfl⟩
  · exact ⟨h, h.eq (by omega)⟩

theorem fresh_observed (r : Registry Scope) (events : List (Event Scope)) :
    Fresh (observed r events).1 (observed r events).2 := by
  induction events with
  | nil => exact ⟨by simp [observed], fun h => rfl⟩
  | cons e earlier ih =>
    cases e with
    | calls c => exact ih.call c
    | filters => exact ih.current.1

/-- The registry over every history of its calls, and the filter over every history of both. -/
theorem registry_exact :
    (∀ (calls : List (Call Scope)) v, (Registry.after calls).snapshot v = true ↔ v ≠ "" ∧ ∃ scope, Held scope v calls) ∧
    (∀ (calls : List (Call Scope)) (scope : Scope) (holder : Option Scope) v,
      v ≠ "" → holder ≠ some scope → Held holder v calls →
      (Registry.after (.release (some scope) :: calls)).snapshot v = true) ∧
    (∀ later calls : List (Call Scope), (Registry.after (later ++ calls)).snapshot ≠ (Registry.after calls).snapshot →
      (Registry.after (later ++ calls)).version ≠ (Registry.after calls).version) ∧
    ∀ (calls : List (Call Scope)) events,
      (observed (Registry.after calls) (.filters :: events)).2.redactor =
        (observed (Registry.after calls) (.filters :: events)).1.snapshot := by
  refine ⟨fun calls v => snapshot_after, ?_, ?_, fun calls events => (fresh_observed _ events).current.2⟩
  · intro calls scope holder v hv hother hheld
    refine snapshot_after.mpr ⟨hv, holder, .inr ⟨by simp, ?_, hheld⟩⟩
    right
    simpa using Ne.symm hother
  · intro later calls hne
    rcases after_version later calls with ⟨-, hr⟩ | hlt
    · exact absurd (funext fun v => by unfold Registry.snapshot; rw [hr]) hne
    · omega
end Kdive.Secrets
