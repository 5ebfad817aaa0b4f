import Kdive.Lib.Blocks

/-! # The sessions of a run, and what each has committed

A system of sessions is a machine (`Sys.machine`), so its runs have a history. From it one can tell which client each
session is (`spawned`) and what the sessions of some clients have committed, in order (`committed`).
-/

namespace Lib
variable {σ : Store} {Cl : Type}

namespace Sys
abbrev machine (prog : Cl → Prog σ Unit) (init : σ.Db → Prop) : Machine where
  State := Sys σ
  Move := Choice σ Cl
  init s := init s.db ∧ s.sess = []
  step := Sys.step prog

variable {prog : Cl → Prog σ Unit} {init : σ.Db → Prop} {s s' : Sys σ}

/-- What has happened, newest first. -/
abbrev Past (σ : Store) (Cl : Type) := List (Sys σ × Choice σ Cl)

def spawned : Past σ Cl → List Cl
  | [] => []
  | (_, .spawn c) :: past => spawned past ++ [c]
  | _ :: past => spawned past

variable {past : Past σ Cl}

theorem reach_of_path (h : (machine prog init).Path past s) : Reach prog init (fun _ _ => True) s := by
  refine h.always (I := fun _ s => Reach prog init (fun _ _ => True) s) ?_ ?_
  · rintro ⟨db, clock, sess⟩ ⟨hdb, rfl⟩
    exact .init clock hdb
  · intro past s ch s' _ ih hs
    exact ih.step trivial hs

theorem length_step {ch : Choice σ Cl} (hs : s.step prog ch = some s') :
    s'.sess.length = s.sess.length + (spawned [(s, ch)]).length := by
  cases ch with
  | spawn =>
    cases hs
    simp [spawned]
  | tick =>
    cases hs
    rfl
  | crash =>
    simp only [Sys.step] at hs
    split at hs
    · cases hs
    · cases hs
      simp [spawned]
  | act =>
    obtain ⟨q, q', db', -, -, -, rfl⟩ := Sys.step_act hs
    simp [spawned]

theorem spawned_cons (e : Sys σ × Choice σ Cl) (past : Past σ Cl) :
    spawned (e :: past) = spawned past ++ spawned [e] := by
  obtain ⟨s, ch⟩ := e
  cases ch <;> simp [spawned]

theorem length_spawned (h : (machine prog init).Path past s) : s.sess.length = (spawned past).length := by
  refine h.always (I := fun past (s : Sys σ) => s.sess.length = (spawned past).length) ?_ ?_
  · intro s h
    rw [h.2]
    rfl
  · intro past s ch s' _ ih hs
    rw [spawned_cons, List.length_append, ← ih]
    exact length_step hs

variable {D : Cl → Duty σ} {i : Nat} {c : Cl}

section
variable (hcl : ∀ c, Local (D c) (fun _ _ => True) (prog c) .idle)
include hcl

theorem dutiful_step {ch : Choice σ Cl} (hlength : s.sess.length = (spawned past).length)
    (hI : ∀ (i : Nat) c (q : Sess σ), (spawned past)[i]? = some c → s.sess[i]? = some q → q.Dutiful (D c))
    (hs : s.step prog ch = some s') {q : Sess σ}
    (hc : (spawned ((s, ch) :: past))[i]? = some c) (hq : s'.sess[i]? = some q) : q.Dutiful (D c) := by
  by_cases hlt : i < s.sess.length
  · -- a session that was there
    rw [spawned_cons, List.getElem?_append_left (hlength ▸ hlt)] at hc
    obtain ⟨q0, hq0⟩ : ∃ q0, s.sess[i]? = some q0 := ⟨_, List.getElem?_eq_getElem hlt⟩
    obtain ⟨q', hq', hdutiful⟩ := (Leads.step (.refl s) hs).dutiful hq0 (hI i c q0 hc hq0)
    rw [hq, Option.some.injEq] at hq'
    exact hq' ▸ hdutiful
  · -- a new one
    have hsame := length_step hs
    cases ch with
    | spawn =>
      cases hs
      rw [spawned_cons, List.getElem?_append_right (by omega), ← hlength] at hc
      rw [List.getElem?_append_right (by omega)] at hq
      cases hn : i - s.sess.length with
      | zero =>
        rw [hn] at hc hq
        cases hc
        cases hq
        exact hcl c
      | succ =>
        rw [hn] at hq
        cases hq
    | _ =>
      simp only [spawned, List.length_nil, Nat.add_zero] at hsame
      rw [List.getElem?_eq_none (by omega)] at hq
      cases hq

/-- **Each session does its client's duty.** -/
theorem dutiful_of_path (h : (machine prog init).Path past s) {q : Sess σ}
    (hc : (spawned past)[i]? = some c) (hq : s.sess[i]? = some q) : q.Dutiful (D c) := by
  have hall := h.always
    (I := fun past (s : Sys σ) => ∀ (i : Nat) c (q : Sess σ), (spawned past)[i]? = some c →
      s.sess[i]? = some q → q.Dutiful (D c))
    (fun s h i c q _ hq => by
      rw [h.2] at hq
      cases hq)
    (fun past s ch s' hpath hI hs i c q hc hq =>
      dutiful_step hcl (length_spawned hpath) hI hs hc hq)
  exact hall i c q hc hq

theorem committing_of_path (h : (machine prog init).Path past s) {inp : Input σ}
    (hc : (spawned past)[i]? = some c) (hne : s.commits (.act i inp : Choice σ Cl) ≠ []) :
    ∃ T, (D c).committing T (s.commits (.act i inp : Choice σ Cl)) := by
  cases hq : s.sess[i]? with
  | none => simp [commits, hq] at hne
  | some q =>
    have hws : s.commits (.act i inp : Choice σ Cl) = q.committing inp := by simp [commits, hq]
    rw [hws] at hne ⊢
    exact ⟨_, (dutiful_of_path hcl h hc hq).committing hne⟩
end

/-! ## Scripts with their history -/

abbrev Told (σ : Store) (Cl : Type) := Past σ Cl × Sys σ

def Told.attempt (prog : Cl → Prog σ Unit) (e : Told σ Cl) (ch : Choice σ Cl) : Told σ Cl :=
  match e.2.step prog ch with
  | none => e
  | some s' => ((e.2, ch) :: e.1, s')

def Told.advance (prog : Cl → Prog σ Unit) (i : Nat) (x : σ.Host) : Nat → Told σ Cl → Told σ Cl
  | 0, e => e
  | n + 1, e =>
    match e.2.sess[i]? with
    | none => e
    | some q => .advance prog i x n (.attempt prog e (.act i (q.succeed x)))

def Told.perform (prog : Cl → Prog σ Unit) : Told σ Cl → List (Order σ Cl) → Told σ Cl
  | e, [] => e
  | e, .start c :: os => .perform prog (.attempt prog e (.spawn c)) os
  | e, .go i x n :: os => .perform prog (.advance prog i x n e) os
  | e, .wait d :: os => .perform prog (.attempt prog e (.tick d)) os

variable {e : Told σ Cl}

theorem path_attempt (ch : Choice σ Cl) (h : (machine prog init).Path e.1 e.2) :
    (machine prog init).Path (Told.attempt prog e ch).1 (Told.attempt prog e ch).2 := by
  unfold Told.attempt
  split
  · exact h
  · rename_i s' hs
    exact .step h hs

theorem path_advance (i n : Nat) (x : σ.Host) (h : (machine prog init).Path e.1 e.2) :
    (machine prog init).Path (Told.advance prog i x n e).1 (Told.advance prog i x n e).2 := by
  induction n generalizing e with
  | zero => exact h
  | succ n ih =>
    unfold Told.advance
    split
    · exact h
    · exact ih (path_attempt _ h)

/-- **What a script tells is a run.** -/
theorem path_perform (orders : List (Order σ Cl)) (h : (machine prog init).Path e.1 e.2) :
    (machine prog init).Path (Told.perform prog e orders).1 (Told.perform prog e orders).2 := by
  induction orders generalizing e with
  | nil => exact h
  | cons o os ih =>
    cases o with
    | start | wait => exact ih (path_attempt _ h)
    | go i x n => exact ih (path_advance i n x h)
end Sys
end Lib
