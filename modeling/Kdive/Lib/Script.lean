import Kdive.Lib.Soundness

/-! # Runs, step by step

`Leads` relates a state to those that follow it, for properties of what comes after an event. A *script* starts
clients, lets one session perform some operations, and moves the clock; it is executable, so the state at its end can
be computed, and that state is reachable (`Reach.perform`).
-/

namespace Lib
variable {σ : Store} {Cl : Type}

/-- The input that lets the session's next operation succeed, the host's values being `x`. -/
def Sess.succeed (x : σ.Host) (q : Sess σ) : Input σ :=
  match q.prog with
  | .host _ => .host x
  | _ => .go true

namespace Sys
variable {prog : Cl → Prog σ Unit} {init : σ.Db → Prop} {ok : Sys σ → Choice σ Cl → Prop}
variable {s s' s'' : Sys σ}

/-! ## What follows a state -/

inductive Leads (prog : Cl → Prog σ Unit) : Sys σ → Sys σ → Prop
  | refl (s : Sys σ) : Leads prog s s
  | step {s s' s'' : Sys σ} {ch : Choice σ Cl} (h : Leads prog s s')
      (hs : s'.step prog ch = some s'') : Leads prog s s''

theorem Reach.leads (h : Reach prog init (fun _ _ => True) s) (hl : Leads prog s s') :
    Reach prog init (fun _ _ => True) s' := by
  induction hl with
  | refl => exact h
  | step _ hs ih => exact ih.step trivial hs

theorem Reach.leads_always {P : Protocol σ} {J : σ.Db → Prop}
    (hcl : ∀ c, ClientSafe P (prog c)) (hinit : ∀ db, init db → P.inv db)
    (hact : ∀ a c, P.inv c → J c → P.guard a c → J (P.eff a c))
    (h : Reach prog init (fun _ _ => True) s) (hl : Leads prog s s') (hJ : J s.db) : J s'.db := by
  induction hl with
  | refl => exact hJ
  | step hl hs ih =>
    have hholds := Reach.holds (fun _ c _ => hcl c) hinit (h.leads hl)
    obtain ⟨-, hdb, as, -, hws, hpath⟩ := hholds.step (fun c _ => hcl c) hs
    rw [hdb, hws, Protocol.applyAll_flatMap]
    exact hpath.always hact hholds.inv ih

/-! ## Scripts -/

inductive Order (σ : Store) (Cl : Type) where
  /-- A client starts. -/
  | start (c : Cl)
  /-- Session `i` performs its next `n` operations, or fewer when it ends or has to wait. -/
  | go (i : Nat) (x : σ.Host) (n : Nat)
  /-- The clock moves. -/
  | wait (d : Nat)

/-- The state after a choice, or the same state where the choice is not `allowed` or not possible. -/
def attempt (prog : Cl → Prog σ Unit) (allowed : Sys σ → Choice σ Cl → Bool) (s : Sys σ) (ch : Choice σ Cl) : Sys σ :=
  if allowed s ch then (s.step prog ch).getD s else s

def advance (prog : Cl → Prog σ Unit) (allowed : Sys σ → Choice σ Cl → Bool) (i : Nat) (x : σ.Host) :
    Nat → Sys σ → Sys σ
  | 0, s => s
  | n + 1, s =>
    match s.sess[i]? with
    | none => s
    | some q => (s.attempt prog allowed (.act i (q.succeed x))).advance prog allowed i x n

def perform (prog : Cl → Prog σ Unit) (allowed : Sys σ → Choice σ Cl → Bool) : Sys σ → List (Order σ Cl) → Sys σ
  | s, [] => s
  | s, .start c :: os => (s.attempt prog allowed (.spawn c)).perform prog allowed os
  | s, .go i x n :: os => (s.advance prog allowed i x n).perform prog allowed os
  | s, .wait d :: os => (s.attempt prog allowed (.tick d)).perform prog allowed os

section
variable {allowed : Sys σ → Choice σ Cl → Bool} (hok : ∀ s ch, allowed s ch = true → ok s ch)

include hok

theorem Reach.attempt (ch : Choice σ Cl) (h : Reach prog init ok s) :
    Reach prog init ok (s.attempt prog allowed ch) := by
  unfold Sys.attempt
  split
  · rename_i hallowed
    cases hs : s.step prog ch with
    | none => exact h
    | some => exact h.step (hok s ch hallowed) hs
  · exact h

theorem Reach.advance (i n : Nat) (x : σ.Host) (h : Reach prog init ok s) :
    Reach prog init ok (s.advance prog allowed i x n) := by
  induction n generalizing s with
  | zero => exact h
  | succ n ih =>
    unfold Sys.advance
    split
    · exact h
    · exact ih (h.attempt hok _)

/-- **The state a script ends in is reachable.** -/
theorem Reach.perform (orders : List (Order σ Cl)) (h : Reach prog init ok s) :
    Reach prog init ok (s.perform prog allowed orders) := by
  induction orders generalizing s with
  | nil => exact h
  | cons o os ih =>
    cases o with
    | start | wait => exact ih (h.attempt hok _)
    | go i x n => exact ih (h.advance hok i n x)
end

theorem perform_append {allowed : Sys σ → Choice σ Cl → Bool} (os os' : List (Order σ Cl))
    (s : Sys σ) : s.perform prog allowed (os ++ os') = (s.perform prog allowed os).perform prog allowed os' := by
  induction os generalizing s with
  | nil => rfl
  | cons o os ih => cases o <;> exact ih _

/-! The same from a state that need not be reachable, nothing being forbidden. -/

theorem Leads.trans (h : Leads prog s s') (h' : Leads prog s' s'') : Leads prog s s'' := by
  induction h' with
  | refl => exact h
  | step _ hs ih => exact ih.step hs

theorem Leads.attempt (s : Sys σ) (ch : Choice σ Cl) : Leads prog s (s.attempt prog (fun _ _ => true) ch) := by
  unfold Sys.attempt
  cases hs : s.step prog ch with
  | none => exact .refl s
  | some => exact .step (.refl s) hs

theorem Leads.advance (s : Sys σ) (i n : Nat) (x : σ.Host) : Leads prog s (s.advance prog (fun _ _ => true) i x n) := by
  induction n generalizing s with
  | zero => exact .refl s
  | succ n ih =>
    unfold Sys.advance
    split
    · exact .refl s
    · exact (Leads.attempt s _).trans (ih _)

theorem Leads.perform (s : Sys σ) (orders : List (Order σ Cl)) :
    Leads prog s (s.perform prog (fun _ _ => true) orders) := by
  induction orders generalizing s with
  | nil => exact .refl s
  | cons o os ih =>
    cases o with
    | start | wait => exact (Leads.attempt s _).trans (ih _)
    | go i x n => exact (Leads.advance s i n x).trans (ih _)

theorem step_select {i : Nat} {l : Conn σ} {k : Except σ.Err (σ.Db × Time) → Prog σ Unit}
    (hq : s.sess[i]? = some ⟨.exec ⟨fun _ _ => [], fun _ _ => .ok []⟩ k, l⟩) :
    s.step prog (.act i (.go true)) = some ⟨s.db, s.clock, s.sess.set i
      ⟨k (.ok ((l.opened s.clock).view s.db, (l.opened s.clock).now)), l.opened s.clock⟩⟩ := by
  have hfree : s.waits i ⟨.exec ⟨fun _ _ => [], fun _ _ => .ok []⟩ k, l⟩ (.go true) = false := by
    simp [Sys.waits, Sess.wants, Sys.blocked]
  have hsame : ((l.opened s.clock).take []).push [] = l.opened s.clock := by
    rw [Conn.take_push]
    exact Conn.grow_nil _
  simp only [Sys.step, hq, hfree, Sess.step, hsame]
  rfl

theorem advance_select {i n : Nat} {x : σ.Host} {l : Conn σ} {k : Except σ.Err (σ.Db × Time) → Prog σ Unit}
    (hq : s.sess[i]? = some ⟨.exec ⟨fun _ _ => [], fun _ _ => .ok []⟩ k, l⟩) :
    s.advance prog (fun _ _ => true) i x (n + 1) =
      advance prog (fun _ _ => true) i x n ⟨s.db, s.clock, s.sess.set i
        ⟨k (.ok ((l.opened s.clock).view s.db, (l.opened s.clock).now)), l.opened s.clock⟩⟩ := by
  have hstep := @step_select _ _ prog _ _ _ _ hq
  simp only [advance, hq, attempt, Sess.succeed, hstep, if_true, Option.getD_some]
end Sys
end Lib
