import Mathlib.Init

/-! # Machines

A machine is a state and the moves it can make, each with at most one outcome: what is left open (who
goes next, what another party answers) is part of the move. A run is remembered newest move first,
with the state each move was made in, so that a property of a state can speak of what led to it.

An invariant is proved one move at a time (`ReachBy.always`). Where only some runs keep it, the moves of
the run are restricted, each against the state it is made in.
-/

namespace Lib
open List

structure Machine where
  State : Type
  Move : Type
  init : State → Prop
  step : State → Move → Option State

namespace Machine
variable {M : Machine}

/-- The moves made so far, newest first, each with the state it was made in. -/
abbrev History (M : Machine) := List (M.State × M.Move)

/-- The runs of the machine. -/
inductive Path (M : Machine) : History M → M.State → Prop where
  | init {s : M.State} (h : M.init s) : Path M [] s
  | step {past : History M} {s s' : M.State} {m : M.Move} (h : Path M past s)
      (hs : M.step s m = some s') : Path M ((s, m) :: past) s'

/-- Reached by moves that are all `ok` where they are made. -/
def ReachBy (M : Machine) (ok : M.State → M.Move → Prop) (s : M.State) : Prop :=
  ∃ past, M.Path past s ∧ ∀ e ∈ past, ok e.1 e.2

/-- The states the machine can be in. -/
abbrev Reach (M : Machine) (s : M.State) : Prop := M.ReachBy (fun _ _ => True) s

/-- From one state to another by moves that are all `ok` where they are made. -/
inductive Leads (M : Machine) (ok : M.State → M.Move → Prop) : M.State → M.State → Prop where
  | refl (s : M.State) : Leads M ok s s
  | step {s s' s'' : M.State} {m : M.Move} (h : Leads M ok s s') (hok : ok s' m)
      (hs : M.step s' m = some s'') : Leads M ok s s''

section
variable {ok ok' : M.State → M.Move → Prop} {s s' : M.State} {m : M.Move}

theorem ReachBy.init (h : M.init s) : M.ReachBy ok s := ⟨[], .init h, by simp⟩

theorem ReachBy.step (h : M.ReachBy ok s) (hok : ok s m) (hs : M.step s m = some s') : M.ReachBy ok s' := by
  obtain ⟨past, hpath, hpast⟩ := h
  refine ⟨(s, m) :: past, .step hpath hs, ?_⟩
  intro e he
  rcases mem_cons.mp he with rfl | he
  · exact hok
  · exact hpast e he

/-- **The invariant rule.** -/
theorem ReachBy.always {I : M.State → Prop} (hinit : ∀ s, M.init s → I s)
    (hstep : ∀ s m s', M.ReachBy ok s → ok s m → I s → M.step s m = some s' → I s') (h : M.ReachBy ok s) : I s := by
  obtain ⟨past, hpath, hpast⟩ := h
  induction hpath with
  | init h => exact hinit _ h
  | @step past s s' m hpath hs ih =>
    have hrest : ∀ e ∈ past, ok e.1 e.2 := fun e he => hpast e (mem_cons_of_mem _ he)
    exact hstep s m s' ⟨past, hpath, hrest⟩ (hpast (s, m) mem_cons_self) (ih hrest) hs

theorem ReachBy.mono (hle : ∀ s m, ok s m → ok' s m) (h : M.ReachBy ok s) : M.ReachBy ok' s := by
  obtain ⟨past, hpath, hpast⟩ := h
  exact ⟨past, hpath, fun e he => hle _ _ (hpast e he)⟩

theorem ReachBy.reach (h : M.ReachBy ok s) : M.Reach s := h.mono fun _ _ _ => trivial

theorem Path.reach {past : History M} (h : M.Path past s) : M.Reach s :=
  ⟨past, h, fun _ _ => trivial⟩

theorem Path.always {I : History M → M.State → Prop} (hinit : ∀ s, M.init s → I [] s)
    (hstep : ∀ past s m s', M.Path past s → I past s → M.step s m = some s' → I ((s, m) :: past) s')
    {past : History M} (h : M.Path past s) : I past s := by
  induction h with
  | init h => exact hinit _ h
  | step hpath hs ih => exact hstep _ _ _ _ hpath ih hs

/-- What every `ok` move keeps holds to the end. -/
theorem Leads.always {I : M.State → Prop} (h : M.Leads ok s s')
    (hstep : ∀ s m s', ok s m → I s → M.step s m = some s' → I s') (hs : I s) : I s' := by
  induction h with
  | refl => exact hs
  | step _ hok hs ih => exact hstep _ _ _ hok ih hs

theorem Leads.mono (hle : ∀ s m, ok s m → ok' s m) (h : M.Leads ok s s') : M.Leads ok' s s' := by
  induction h with
  | refl => exact .refl _
  | step _ hok hs ih => exact .step ih (hle _ _ hok) hs

theorem Leads.trans {s'' : M.State} (h : M.Leads ok s s') (h' : M.Leads ok s' s'') : M.Leads ok s s'' := by
  induction h' with
  | refl => exact h
  | step _ hok hs ih => exact .step ih hok hs

theorem ReachBy.leads (h : M.ReachBy ok s) (h' : M.Leads ok s s') : M.ReachBy ok s' := by
  induction h' with
  | refl => exact h
  | step _ hok hs ih => exact ih.step hok hs
end

/-- Make the moves in turn, as far as they can be made. -/
def runTo (M : Machine) : M.State → List M.Move → M.State
  | s, [] => s
  | s, m :: ms =>
    match M.step s m with
    | none => s
    | some s' => M.runTo s' ms

/-- The history such a run leaves. -/
def history (M : Machine) : M.State → List M.Move → History M → History M
  | _, [], past => past
  | s, m :: ms, past =>
    match M.step s m with
    | none => past
    | some s' => M.history s' ms ((s, m) :: past)

theorem path_runTo {s : M.State} (ms : List M.Move) {past : History M} (h : M.Path past s) :
    M.Path (M.history s ms past) (M.runTo s ms) := by
  induction ms generalizing s past with
  | nil => exact h
  | cons m ms ih =>
    simp only [history, runTo]
    cases hs : M.step s m with
    | none => exact h
    | some => exact ih (.step h hs)

theorem reach_runTo {s : M.State} (h : M.init s) (ms : List M.Move) : M.Reach (M.runTo s ms) :=
  (path_runTo ms (.init h)).reach

/-- All the moves can be made, and are `ok` where they are made. -/
def runsBy (M : Machine) (ok : M.State → M.Move → Bool) : M.State → List M.Move → Bool
  | _, [] => true
  | s, m :: ms => ok s m && (M.step s m).any fun s' => M.runsBy ok s' ms

theorem leads_runTo {ok : M.State → M.Move → Bool} {s : M.State} {ms : List M.Move}
    (hok : M.runsBy ok s ms = true) : M.Leads (fun s m => ok s m = true) s (M.runTo s ms) := by
  induction ms generalizing s with
  | nil => exact .refl _
  | cons m ms ih =>
    rw [runsBy, Bool.and_eq_true, Option.any_eq_true] at hok
    obtain ⟨hm, s', hs, hrest⟩ := hok
    simp only [runTo, hs]
    exact (Leads.step (.refl s) hm hs).trans (ih hrest)
end Machine

/-! ## Parties

The parties of a machine are a list: a move is one party's, or another one joins. -/

theorem getElem?_set_cases {α : Type} {l : List α} {i j : Nat} {x y : α}
    (h : (l.set i x)[j]? = some y) : (i = j ∧ y = x) ∨ (i ≠ j ∧ l[j]? = some y) := by
  by_cases hij : i = j
  · subst hij
    rw [getElem?_set_self'] at h
    cases hl : l[i]? with
    | none => simp [hl] at h
    | some => exact .inl ⟨rfl, by simpa [hl] using h.symm⟩
  · rw [getElem?_set_ne hij] at h
    exact .inr ⟨hij, h⟩

theorem getElem?_concat_cases {α : Type} {l : List α} {j : Nat} {x y : α}
    (h : (l ++ [x])[j]? = some y) : l[j]? = some y ∨ (j = l.length ∧ y = x) := by
  rw [getElem?_append] at h
  split at h
  · exact .inl h
  · rename_i hlt
    obtain ⟨hj, hy⟩ := List.getElem?_eq_some_iff.mp h
    rw [length_singleton, Nat.lt_one_iff] at hj
    rw [getElem_singleton] at hy
    exact .inr ⟨by omega, hy.symm⟩
end Lib
