import Kdive.Lib.Machine
import Kdive.Lib.Table

/-! # Uncommitted writes over a table

A transaction sees the committed table with its own writes over it. A write edits one row, depending on that row alone
(`Edit.get_apply`); so a log shows, under each key, the committed row with the edits of that key applied
(`get_view_congr`). Row locks keep the logs of different transactions apart (`Exclusive`): what one commits is
invisible under the keys of another's log, and all that is new under the other keys (`get_view_view`).
-/

namespace Lib
open List

/-- Edits of a table, each of the row under one key. -/
class Edit (ω ρ : Type) {κ : outParam Type} [Keyed ρ κ] [DecidableEq κ] where
  target : ω → κ
  /-- What the edit makes of the row under its target. -/
  act : ω → Option ρ → Option ρ
  apply : Table ρ → ω → Table ρ
  get_apply : ∀ t w k, (apply t w).get k = if target w = k then act w (t.get k) else t.get k

namespace Overlay
open Edit

variable {ω ρ κ : Type} [Keyed ρ κ] [DecidableEq κ] [Edit ω ρ]

/-- The table with the log over it. -/
def view (log : List ω) (t : Table ρ) : Table ρ := log.foldl apply t

def touches (ρ : Type) [Keyed ρ κ] [Edit ω ρ] (log : List ω) (k : κ) : Bool :=
  log.any fun w => target ρ w = k

/-! ## What a log shows -/

section
variable {log log' : List ω} {t t' : Table ρ} {k : κ} {w : ω}

theorem view_nil : view ([] : List ω) t = t := rfl

theorem view_concat : view (log ++ [w]) t = apply (view log t) w := by
  rw [view, foldl_append]
  rfl

theorem touches_concat : touches ρ (log ++ [w]) k = true ↔ touches ρ log k = true ∨ target ρ w = k := by
  simp [touches]

theorem get_view_of_not_touches (h : touches ρ log k = false) : (view log t).get k = t.get k := by
  induction log generalizing t with
  | nil => rfl
  | cons w log ih =>
    simp only [touches, any_cons, Bool.or_eq_false_iff, decide_eq_false_iff_not] at h
    rw [view, foldl_cons]
    refine (ih h.2).trans ?_
    rw [get_apply, if_neg h.1]

theorem get_view_congr (h : t.get k = t'.get k) : (view log t).get k = (view log t').get k := by
  induction log generalizing t t' with
  | nil => exact h
  | cons w log ih =>
    refine ih ?_
    rw [get_apply, get_apply, h]

theorem get_view_concat : (view (log ++ [w]) t).get k =
    if target ρ w = k then act w ((view log t).get k) else (view log t).get k := by
  rw [view_concat, get_apply]

/-- What a log shows once another one, with no edit of the same row, is committed. -/
theorem get_view_view (h : touches ρ log k = true → touches ρ log' k = false) :
    (view log' (view log t)).get k = if touches ρ log' k then (view log' t).get k else (view log t).get k := by
  cases h' : touches ρ log' k with
  | false => rw [get_view_of_not_touches h']; rfl
  | true =>
    have hlog : touches ρ log k = false := by
      cases hlog : touches ρ log k with
      | false => rfl
      | true => rw [h hlog] at h'; cases h'
    exact get_view_congr (get_view_of_not_touches hlog)
end

/-! ## The logs of the transactions that are open -/

/-- No two of the logs have an edit of the same row. -/
def Exclusive (ρ : Type) [Keyed ρ κ] [Edit ω ρ] (logs : List (List ω)) : Prop :=
  ∀ (i j : Nat) (log log' : List ω), logs[i]? = some log → logs[j]? = some log' →
    ∀ k, touches ρ log k = true → touches ρ log' k = true → i = j

def heldByOther (ρ : Type) [Keyed ρ κ] [Edit ω ρ] (logs : List (List ω)) (i : Nat) (k : κ) : Bool :=
  logs.zipIdx.any fun e => e.2 ≠ i && touches ρ e.1 k

section
variable {logs : List (List ω)} {i j : Nat} {log log' : List ω} {k : κ}

theorem not_touches_of_not_held (h : heldByOther ρ logs i k = false) (hj : logs[j]? = some log')
    (hne : j ≠ i) : touches ρ log' k = false := by
  simp only [heldByOther, any_eq_false, Bool.and_eq_true, decide_eq_true_eq, not_and, Bool.not_eq_true] at h
  exact h (log', j) (mem_zipIdx_iff_getElem?.mpr hj) hne

theorem exclusive_nil : Exclusive ρ ([] : List (List ω)) := by
  intro i j log log' hi
  simp at hi

theorem Exclusive.push (h : Exclusive ρ logs) : Exclusive ρ (logs ++ [[]]) := by
  have hold : ∀ (i : Nat) (log : List ω) (k : κ), (logs ++ [[]])[i]? = some log →
      touches ρ log k = true → logs[i]? = some log := by
    intro i log k hi hk
    rw [getElem?_append] at hi
    split at hi
    · exact hi
    · have hnil := mem_singleton.mp (mem_of_getElem? hi)
      rw [hnil] at hk
      cases hk
  intro i j log log' hi hj k hk hk'
  exact h i j log log' (hold i log k hi hk) (hold j log' k hj hk') k hk hk'

theorem Exclusive.set (h : Exclusive ρ logs) (hi : logs[i]? = some log)
    (hnew : ∀ k, touches ρ log' k = true → touches ρ log k = true ∨ heldByOther ρ logs i k = false) :
    Exclusive ρ (logs.set i log') := by
  have hlt : i < logs.length := (List.getElem?_eq_some_iff.mp hi).1
  have hcase : ∀ (j : Nat) (l : List ω), (logs.set i log')[j]? = some l →
      j = i ∧ l = log' ∨ j ≠ i ∧ logs[j]? = some l := by
    intro j l hj
    rcases getElem?_set_cases hj with ⟨rfl, rfl⟩ | ⟨hij, hj⟩
    · exact .inl ⟨rfl, rfl⟩
    · exact .inr ⟨hij.symm, hj⟩
  have halone : ∀ (j : Nat) (l : List ω) (k : κ), j ≠ i → logs[j]? = some l →
      touches ρ log' k = true → touches ρ l k = true → False := by
    intro j l k hne hj hk hl
    rcases hnew k hk with hk | hfree
    · exact hne (h j i l log hj hi k hl hk)
    · rw [not_touches_of_not_held hfree hj hne] at hl
      cases hl
  intro a b la lb ha hb k hka hkb
  rcases hcase a la ha with ⟨rfl, rfl⟩ | ⟨hane, ha0⟩
  · rcases hcase b lb hb with ⟨rfl, rfl⟩ | ⟨hbne, hb0⟩
    · rfl
    · exact (halone b lb k hbne hb0 hka hkb).elim
  · rcases hcase b lb hb with ⟨rfl, rfl⟩ | ⟨hbne, hb0⟩
    · exact (halone a la k hane ha0 hkb hka).elim
    · exact h a b la lb ha0 hb0 k hka hkb
end

/-! ## What every row keeps -/

/-- Every row has the property, in the table and as each of the logs shows it. -/
def Shows (P : ρ → Prop) (logs : List (List ω)) (t : Table ρ) : Prop :=
  (∀ k r, t.get k = some r → P r) ∧ ∀ log ∈ logs, ∀ k r, (view log t).get k = some r → P r

section
variable {P : ρ → Prop} {logs : List (List ω)} {t : Table ρ} {i : Nat} {log log' : List ω}

theorem Shows.push (h : Shows P logs t) : Shows P (logs ++ [[]]) t := by
  refine ⟨h.1, fun log hlog => ?_⟩
  rcases mem_append.mp hlog with hlog | hlog
  · exact h.2 log hlog
  · rw [mem_singleton.mp hlog]
    exact h.1

theorem Shows.set (h : Shows P logs t) (hnew : ∀ k r, (view log' t).get k = some r → P r) :
    Shows P (logs.set i log') t := by
  refine ⟨h.1, fun log hlog => ?_⟩
  rcases mem_or_eq_of_mem_set hlog with hlog | rfl
  · exact h.2 log hlog
  · exact hnew

theorem Shows.commit (h : Shows P logs t) (hex : Exclusive ρ logs) (hi : logs[i]? = some log) :
    Shows P (logs.set i []) (view log t) := by
  have hcommitted : ∀ k r, (view log t).get k = some r → P r := h.2 log (mem_of_getElem? hi)
  refine ⟨hcommitted, fun log' hlog' k r hr => ?_⟩
  obtain ⟨j, hj⟩ := mem_iff_getElem?.mp hlog'
  rcases getElem?_set_cases hj with ⟨-, rfl⟩ | ⟨hji, hj⟩
  · exact hcommitted k r hr
  · have hapart : touches ρ log k = true → touches ρ log' k = false := by
      intro hlog
      cases hlog' : touches ρ log' k with
      | false => rfl
      | true => exact absurd (hex i j log log' hi hj k hlog hlog') hji
    rw [get_view_view hapart] at hr
    split at hr
    · exact h.2 log' (mem_of_getElem? hj) k r hr
    · exact hcommitted k r hr
end
end Overlay
end Lib
