import Kdive.Lib.Local

/-! # What a program ever writes

`Local` follows a program operation by operation. Where every statement of a program writes only such-and-such,
so does every transaction and savepoint of its connection (`Conn.Only`), and that is all it commits.
-/

namespace Lib
open Option

variable {σ : Store} {α β ι : Type}

def Duty.only (C : List σ.Write → Prop) : Duty σ := ⟨fun _ => True, fun _ ws => C ws⟩

structure Conn.Only (ok : σ.Write → Prop) (l : Conn σ) : Prop where
  log : ∀ w ∈ l.log, ok w
  marks : ∀ m ∈ l.marks, ∀ w ∈ m.log, ok w

namespace Conn.Only
variable {ok : σ.Write → Prop} {l : Conn σ}

theorem idle : (Conn.idle : Conn σ).Only ok :=
  ⟨by simp [Conn.idle, Conn.log], by simp [Conn.idle, Conn.marks]⟩

variable (h : l.Only ok)
include h

theorem opened (t : Time) : (l.opened t).Only ok := by
  cases htx : l.tx with
  | some =>
    rwa [Conn.opened_of_isSome (by rw [htx]; rfl)]
  | none => exact ⟨by simp [Conn.opened, Conn.log, htx], by simp [Conn.opened, Conn.marks, htx]⟩

theorem enter (t : Time) : (l.enter t).Only ok := by
  cases htx : l.tx with
  | none => exact ⟨by simp [Conn.enter, Conn.log, htx], by simp [Conn.enter, Conn.marks, htx]⟩
  | some =>
    refine ⟨by simpa using h.log, ?_⟩
    rw [Conn.marks_enter (by rw [htx]; rfl)]
    intro m hm
    rcases List.mem_cons.mp hm with rfl | hm
    · exact h.log
    · exact h.marks m hm

theorem push {ws : List σ.Write} (ks : List σ.Key) (hws : ∀ w ∈ ws, ok w) : ((l.take ks).push ws).Only ok := by
  have hlog := h.log
  have hmarks := h.marks
  cases htx : l.tx with
  | none =>
    exact ⟨by simp [Conn.push, Conn.take, Conn.log, htx], by simp [Conn.push, Conn.take, Conn.marks, htx]⟩
  | some =>
    simp only [Conn.log, Conn.marks, htx, map_some, getD_some] at hlog hmarks
    refine ⟨?_, by simpa [Conn.marks, Conn.push, Conn.take, htx] using hmarks⟩
    intro w hw
    simp only [Conn.log, Conn.push, Conn.take, htx, map_some, getD_some] at hw
    rcases List.mem_append.mp hw with hw | hw
    · exact hlog w hw
    · exact hws w hw

theorem leave : (∀ w ∈ l.leave.1, ok w) ∧ l.leave.2.Only ok := by
  have hlog := h.log
  have hmarks := h.marks
  cases htx : l.tx with
  | none =>
    have hl : l.leave = ([], l) := by simp [Conn.leave, htx]
    rw [hl]
    exact ⟨by simp, h⟩
  | some tx =>
    simp only [Conn.log, Conn.marks, htx, map_some, getD_some] at hlog hmarks
    cases hm : tx.marks with
    | nil =>
      cases hi : tx.implicit with
      | true =>
        have hl : l.leave = ([], l) := by simp [Conn.leave, htx, hm, hi]
        rw [hl]
        exact ⟨by simp, h⟩
      | false =>
        have hl : l.leave = (tx.log, .idle) := by simp [Conn.leave, htx, hm, hi]
        rw [hl]
        exact ⟨hlog, idle⟩
    | cons m ms =>
      have hl : l.leave = ([], { l with tx := some { tx with marks := ms } }) := by
        simp [Conn.leave, htx, hm]
      rw [hl]
      exact ⟨by simp, hlog, fun m' hm' => hmarks m' (hm ▸ List.mem_cons_of_mem _ hm')⟩

theorem abort (keep : Bool) : (l.abort keep).Only ok := by
  have hmarks := h.marks
  cases htx : l.tx with
  | none =>
    have hl : l.abort keep = l := by simp [Conn.abort, htx]
    rwa [hl]
  | some tx =>
    simp only [Conn.marks, htx, map_some, getD_some] at hmarks
    cases hm : tx.marks with
    | nil =>
      cases hi : tx.implicit with
      | true =>
        have hl : l.abort keep = l := by simp [Conn.abort, htx, hm, hi]
        rwa [hl]
      | false =>
        have hl : l.abort keep = .idle := by simp [Conn.abort, htx, hm, hi]
        rw [hl]
        exact idle
    | cons m ms =>
      have hl : l.abort keep = ⟨some { tx with log := m.log, marks := ms }, if keep then l.locks else m.locks⟩ := by
        simp [Conn.abort, htx, hm]
      rw [hl]
      exact ⟨hmarks m (hm ▸ List.mem_cons_self), fun m' hm' => hmarks m' (hm ▸ List.mem_cons_of_mem _ hm')⟩
end Conn.Only

/-- **Whatever a program commits it has written.** -/
theorem Prog.Writes.anywhere {ok : σ.Write → Prop} {p : Prog σ α} (hp : ∀ T, p.Writes T ok)
    {l : Conn σ} (h : l.Only ok) : Local (Duty.only fun ws => ∀ w ∈ ws, ok w) (fun _ l' => l'.Only ok) p l := by
  induction p generalizing l with
  | ret | raise => exact h
  | exec st k ih =>
    intro t v
    exact ⟨fun e => ih _ (fun T => (hp T).2 _) (h.opened t), fun ws hws =>
      ih _ (fun T => (hp T).2 _) ((h.opened t).push _ ((hp _).1 v ws hws))⟩
  | enter k ih => exact fun t => ⟨fun e => ih _ (fun T => hp T _) h, ih _ (fun T => hp T _) (h.enter t)⟩
  | leave b k ih =>
    cases b with
    | true =>
      exact ⟨fun e => ih _ (fun T => hp T _) (h.abort true), h.leave.1, ih _ (fun T => hp T _) h.leave.2⟩
    | false =>
      exact ⟨fun e => ih _ (fun T => hp T _) (h.abort true),
        fun keep => ih _ (fun T => hp T _) (h.abort keep)⟩
  | finish => exact (hp 0).elim
  | host k ih => exact ⟨trivial, fun x => ih x (fun T => hp T x) h⟩

theorem Prog.Writes.connection_only {ok : σ.Write → Prop} {p : Prog σ α} (hp : ∀ T, p.Writes T ok) :
    Local (Duty.only fun ws => ∀ w ∈ ws, ok w) (fun _ l => l = .idle) (Prog.connection p) .idle := by
  unfold Prog.connection
  rw [local_attempt]
  refine (Prog.Writes.anywhere hp Conn.Only.idle).mono fun r l hl => ?_
  cases r with
  | error => exact ⟨fun _ => rfl, nofun, rfl⟩
  | ok => exact ⟨fun _ => rfl, fun _ => hl.log, rfl⟩
end Lib
