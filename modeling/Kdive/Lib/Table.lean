import Mathlib.Algebra.GroupWithZero.Nat
import Mathlib.Algebra.Order.BigOperators.Group.List
import Mathlib.Algebra.Order.Group.Nat
import Mathlib.Data.List.Nodup
import Mathlib.Data.List.Perm.Subperm

/-! # Keyed tables

A list of rows, in insertion order, in which no two have the same key. Rows are read by key (`get`) or by scanning
`rows`; a table is changed by `insert` (nothing happens when the key is taken), `modify` of the row under a key,
`upsert`, `map` (an `UPDATE` of every row) and `filter` (a `DELETE`).
-/

namespace Lib
open List Option

/-- The primary key of a row type. -/
class Keyed (ρ : Type) (κ : outParam Type) where
  key : ρ → κ

/-- A list of rows with pairwise different keys. -/
structure Table (ρ : Type) {κ : Type} [Keyed ρ κ] where
  rows : List ρ
  nodup : (rows.map Keyed.key).Nodup

namespace Table
open Keyed

variable {ρ κ : Type} [Keyed ρ κ] [DecidableEq κ]

def empty : Table ρ := ⟨[], List.nodup_nil⟩

/-! ## Reading by key -/

def get (t : Table ρ) (k : κ) : Option ρ := t.rows.find? fun r => key r = k

variable {t : Table ρ} {k : κ} {r : ρ}

theorem key_eq_of_get (h : t.get k = some r) : key r = k := by
  simpa using find?_some h

theorem mem_of_get (h : t.get k = some r) : r ∈ t.rows :=
  mem_of_find?_eq_some h

theorem get_eq_none : t.get k = none ↔ ∀ r ∈ t.rows, key r ≠ k := by
  simp [get, find?_eq_none]

variable {r' : ρ}

omit [DecidableEq κ] in
theorem eq_of_key_eq (h : r ∈ t.rows) (h' : r' ∈ t.rows) (hk : key r = key r') : r = r' :=
  inj_on_of_nodup_map t.nodup h h' hk

theorem get_of_rows_nil (h : t.rows = []) (k : κ) : t.get k = none := by
  rw [get_eq_none, h]
  exact fun _ hr => absurd hr not_mem_nil

theorem get_key_of_mem (h : r ∈ t.rows) : t.get (key r) = some r := by
  cases hg : t.get (key r) with
  | none => exact absurd rfl (get_eq_none.mp hg r h)
  | some => rw [eq_of_key_eq (mem_of_get hg) h (key_eq_of_get hg)]

theorem get_eq_some : t.get k = some r ↔ r ∈ t.rows ∧ key r = k :=
  ⟨fun h => ⟨mem_of_get h, key_eq_of_get h⟩, fun h => h.2 ▸ get_key_of_mem h.1⟩

/-! ## Inserting -/

def insert (t : Table ρ) (r : ρ) : Table ρ :=
  if h : t.get (key r) = none then
    ⟨t.rows ++ [r], by
      rw [List.map_append, List.map_singleton]
      refine List.Nodup.append t.nodup (List.nodup_singleton _) ?_
      intro k hk hr
      obtain ⟨r', hr', rfl⟩ := List.mem_map.mp hk
      exact get_eq_none.mp h r' hr' (List.mem_singleton.mp hr)⟩
  else t

theorem rows_insert (h : t.get (key r) = none) : (t.insert r).rows = t.rows ++ [r] := by
  unfold insert
  rw [dif_pos h]

theorem insert_of_get (h : t.get (key r) = some r') : t.insert r = t := by
  unfold insert
  rw [dif_neg (by simp [h])]

theorem get_insert_self (h : t.get (key r) = none) : (t.insert r).get (key r) = some r := by
  rw [get_eq_some, rows_insert h]
  exact ⟨mem_append_right _ (mem_singleton_self r), rfl⟩

theorem get_insert_of_ne (hk : key r ≠ k) : (t.insert r).get k = t.get k := by
  cases h : t.get (key r) with
  | some => rw [insert_of_get h]
  | none =>
    unfold get
    rw [rows_insert h, find?_append]
    simp [hk]

theorem get_insert_of_get (h : t.get k = some r') : (t.insert r).get k = some r' := by
  rcases eq_or_ne (key r) k with rfl | hk
  · rw [insert_of_get h, h]
  · rw [get_insert_of_ne hk, h]

/-! ## Changing the row under a key -/

def modify (t : Table ρ) (k : κ) (f : ρ → ρ) (hf : ∀ r, key (f r) = key r) : Table ρ :=
  ⟨t.rows.map fun r => if key r = k then f r else r, by
    have : (key ∘ fun r => if key r = k then f r else r) = (key : ρ → κ) := by
      funext r
      by_cases h : key r = k <;> simp [h, hf]
    rw [List.map_map, this]
    exact t.nodup⟩

section
variable {t : Table ρ} {k : κ} {f : ρ → ρ} {hf : ∀ r, key (f r) = key r}

theorem mem_modify {r : ρ} : r ∈ (t.modify k f hf).rows ↔ ∃ r0 ∈ t.rows, r = if key r0 = k then f r0 else r0 := by
  simp only [modify, List.mem_map, eq_comm]

theorem get_modify_self : (t.modify k f hf).get k = (t.get k).map f := by
  cases h : t.get k with
  | none =>
    refine get_eq_none.mpr fun r hr => ?_
    obtain ⟨r0, hr0, rfl⟩ := mem_modify.mp hr
    have hne := get_eq_none.mp h r0 hr0
    rwa [if_neg hne]
  | some r =>
    have hk := key_eq_of_get h
    exact get_eq_some.mpr ⟨mem_modify.mpr ⟨r, mem_of_get h, by rw [if_pos hk]⟩, by rw [hf, hk]⟩

theorem get_modify_of_ne {k' : κ} (hk : k ≠ k') : (t.modify k f hf).get k' = t.get k' := by
  cases h : t.get k' with
  | none =>
    refine get_eq_none.mpr fun r hr => ?_
    obtain ⟨r0, hr0, rfl⟩ := mem_modify.mp hr
    have hne := get_eq_none.mp h r0 hr0
    by_cases hk0 : key r0 = k <;> simp [hk0, hf, hk, hne]
  | some r =>
    have hkr := key_eq_of_get h
    refine get_eq_some.mpr ⟨mem_modify.mpr ⟨r, mem_of_get h, ?_⟩, hkr⟩
    rw [if_neg (by rw [hkr]; exact hk.symm)]

theorem modify_modify {g : ρ → ρ} {hg : ∀ r, key (g r) = key r} :
    (t.modify k f hf).modify k g hg = t.modify k (g ∘ f) (fun r => (hg (f r)).trans (hf r)) := by
  simp only [modify, List.map_map, mk.injEq]
  refine List.map_congr_left fun r _ => ?_
  by_cases h : key r = k <;> simp [h, hf]

theorem sum_modify_lt {weight : ρ → Nat} {r : ρ} (h : t.get k = some r) (hlt : weight (f r) < weight r) :
    ((t.modify k f hf).rows.map weight).sum < (t.rows.map weight).sum := by
  simp only [modify, List.map_map]
  refine List.sum_lt_sum _ _ (fun r' hr' => ?_) ⟨r, mem_of_get h, ?_⟩
  · by_cases hk : key r' = k
    · rw [← eq_of_key_eq (mem_of_get h) hr' ((key_eq_of_get h).trans hk.symm)]
      simp [key_eq_of_get h, hlt.le]
    · simp [hk]
  · simp [key_eq_of_get h, hlt]
end

/-- `t` with `r` in the place of the row under its key, appended when there is none. `old` builds
    the row to store from the one that is there. -/
def upsert (t : Table ρ) (r : ρ) (old : ρ → ρ) (h : ∀ x, key (old x) = key x) : Table ρ :=
  if t.get (key r) = none then t.insert r else t.modify (key r) old h

def map (t : Table ρ) (f : ρ → ρ) (hf : ∀ r, key (f r) = key r) : Table ρ :=
  ⟨t.rows.map f, by
    have : key ∘ f = (key : ρ → κ) := funext hf
    rw [List.map_map, this]
    exact t.nodup⟩

def filter (t : Table ρ) (p : ρ → Bool) : Table ρ :=
  ⟨t.rows.filter p, t.nodup.sublist (List.filter_sublist.map key)⟩

/-! ## Reading after a write -/

theorem get_map (t : Table ρ) (f : ρ → ρ) (hf : ∀ r, key (f r) = key r) (k : κ) :
    (t.map f hf).get k = (t.get k).map f := by
  cases h : t.get k with
  | none =>
    refine get_eq_none.mpr fun r hr => ?_
    obtain ⟨r0, hr0, rfl⟩ := mem_map.mp hr
    rw [hf]
    exact get_eq_none.mp h r0 hr0
  | some r =>
    refine get_eq_some.mpr ⟨mem_map.mpr ⟨r, mem_of_get h, rfl⟩, ?_⟩
    rw [hf]
    exact key_eq_of_get h

variable {t : Table ρ} {p : ρ → Bool}

omit [DecidableEq κ] in
theorem mem_filter {r : ρ} : r ∈ (t.filter p).rows ↔ r ∈ t.rows ∧ p r = true :=
  List.mem_filter

theorem get_filter (t : Table ρ) (p : ρ → Bool) (k : κ) : (t.filter p).get k = (t.get k).filter p := by
  cases h : t.get k with
  | none =>
    refine get_eq_none.mpr fun r hr => ?_
    exact get_eq_none.mp h r (mem_filter.mp hr).1
  | some r =>
    cases hp : p r with
    | true =>
      rw [filter_some_pos hp]
      exact get_eq_some.mpr ⟨mem_filter.mpr ⟨mem_of_get h, hp⟩, key_eq_of_get h⟩
    | false =>
      rw [filter_some_neg (by simp [hp])]
      refine get_eq_none.mpr fun r' hr' hk => ?_
      obtain ⟨hmem, hp'⟩ := mem_filter.mp hr'
      obtain rfl := eq_of_key_eq hmem (mem_of_get h) (hk.trans (key_eq_of_get h).symm)
      rw [hp] at hp'
      cases hp'

def erase (t : Table ρ) (k : κ) : Table ρ := t.filter fun r => key r ≠ k

theorem get_erase (t : Table ρ) (k k' : κ) : (t.erase k).get k' = if k = k' then none else t.get k' := by
  rw [erase, get_filter]
  cases h : t.get k' with
  | none => rw [ite_self]; rfl
  | some =>
    have hr := key_eq_of_get h
    by_cases hk : k = k'
    · rw [if_pos hk, filter_some_neg (by simp [hr, hk])]
    · rw [if_neg hk, filter_some_pos (by simp [hr, Ne.symm hk])]

theorem get_insert (t : Table ρ) (r : ρ) (k : κ) :
    (t.insert r).get k = if key r = k ∧ t.get k = none then some r else t.get k := by
  rcases eq_or_ne (key r) k with rfl | hk
  · cases h : t.get (key r) with
    | none => rw [get_insert_self h, if_pos ⟨rfl, rfl⟩]
    | some => rw [insert_of_get h, h, if_neg (by simp)]
  · rw [get_insert_of_ne hk, if_neg (fun h => hk h.1)]

theorem get_insert_cases {r r' : ρ} {k : κ} (h : (t.insert r).get k = some r') : t.get k = some r' ∨ r' = r := by
  rw [get_insert] at h
  split at h
  case isTrue => exact .inr (some.inj h).symm
  case isFalse => exact .inl h

theorem get_modify (t : Table ρ) (k : κ) (f : ρ → ρ) (hf : ∀ r, key (f r) = key r) (k' : κ) :
    (t.modify k f hf).get k' = if k = k' then (t.get k').map f else t.get k' := by
  rcases eq_or_ne k k' with rfl | hk
  · rw [get_modify_self, if_pos rfl]
  · rw [get_modify_of_ne hk, if_neg hk]

theorem get_modify_none {k k' : κ} {f : ρ → ρ} (hf : ∀ r, key (f r) = key r) (h : t.get k' = none) :
    (t.modify k f hf).get k' = none := by
  rw [get_modify, h]
  split <;> rfl

theorem get_upsert (t : Table ρ) (r : ρ) (old : ρ → ρ) (h : ∀ x, key (old x) = key x) (k : κ) :
    (t.upsert r old h).get k = if key r = k then some (((t.get k).map old).getD r) else t.get k := by
  unfold upsert
  rcases eq_or_ne (key r) k with rfl | hk
  · rw [if_pos rfl]
    cases hg : t.get (key r) with
    | none => rw [if_pos rfl, get_insert_self hg]; rfl
    | some => rw [if_neg (by simp), get_modify_self, hg]; rfl
  · rw [if_neg hk]
    split
    · exact get_insert_of_ne hk
    · exact get_modify_of_ne hk

/-! ## Counting -/

variable {t' : Table ρ}

omit [DecidableEq κ] in
/-- The rows with a property, counted through their keys. -/
theorem countP_le_of_keys {p' : ρ → Bool} (h : ∀ r' ∈ t'.rows, p' r' → ∃ r ∈ t.rows, key r = key r' ∧ p r) :
    t'.rows.countP p' ≤ t.rows.countP p := by
  rw [countP_eq_length_filter, countP_eq_length_filter]
  have hsub : ((t'.rows.filter p').map key) ⊆ (t.rows.filter p).map (key : ρ → κ) := by
    intro k hk
    obtain ⟨r', hr', rfl⟩ := mem_map.mp hk
    obtain ⟨hm, hp⟩ := mem_filter.mp hr'
    obtain ⟨r, hr, hkey, hpr⟩ := h r' hm hp
    exact mem_map.mpr ⟨r, mem_filter.mpr ⟨hr, hpr⟩, hkey⟩
  have hnd : ((t'.rows.filter p').map (key : ρ → κ)).Nodup :=
    (List.Sublist.map key filter_sublist).nodup t'.nodup
  simpa using (subperm_of_subset hnd hsub).length_le

theorem countP_key_le_one (t : Table ρ) (k : κ) : t.rows.countP (fun r => key r = k) ≤ 1 := by
  have hcount := nodup_iff_count_le_one.mp t.nodup k
  rwa [count_eq_countP, countP_map] at hcount

theorem countP_le_succ {k : κ} (h : ∀ r' ∈ t'.rows, key r' ≠ k → p r' → ∃ r ∈ t.rows, key r = key r' ∧ p r) :
    t'.rows.countP p ≤ t.rows.countP p + 1 := by
  have hsplit : t'.rows.countP p ≤
      t'.rows.countP (fun r => p r && !decide (key r = k)) + t'.rows.countP (fun r => key r = k) := by
    induction t'.rows with
    | nil => simp
    | cons r =>
      by_cases hp : p r <;> by_cases hk : key r = k <;> simp [hp, hk] <;> omega
  have hothers : t'.rows.countP (fun r => p r && !decide (key r = k)) ≤ t.rows.countP p := by
    refine countP_le_of_keys ?_
    intro r' hr' hp
    simp only [Bool.and_eq_true, Bool.not_eq_true', decide_eq_false_iff_not] at hp
    exact h r' hr' hp.2 hp.1
  have hone := t'.countP_key_le_one k
  omega

/-- A count after a change of one row: it has not grown, or it has grown by one where there was
    room, `R`. -/
theorem countP_gain {k : Option κ} {R : Prop} (h : ∀ r' ∈ t'.rows, p r' →
      (∃ r ∈ t.rows, key r = key r' ∧ p r) ∨ (k = some (key r') ∧ R)) :
    t'.rows.countP p ≤ t.rows.countP p ∨ (R ∧ t'.rows.countP p ≤ t.rows.countP p + 1) := by
  by_cases hroom : R ∧ k.isSome
  · obtain ⟨k, rfl⟩ := isSome_iff_exists.mp hroom.2
    refine .inr ⟨hroom.1, countP_le_succ (k := k) ?_⟩
    intro r' hr' hne hp
    exact (h r' hr' hp).resolve_right fun hnew => hne (some.inj hnew.1).symm
  · refine .inl (countP_le_of_keys ?_)
    intro r' hr' hp
    exact (h r' hr' hp).resolve_right fun ⟨hk, hr⟩ => hroom ⟨hr, hk ▸ rfl⟩
end Table

/-- A change made under the lock of a row leaves two versions of it as close as they were. -/
theorem rel_of_locked {ρ : Type} {R : ρ → ρ → Prop} (hrefl : ∀ row, R row row) {f : ρ → ρ} {row row' : ρ}
    {held : Prop} (hlocked : held → row' = row) (hnone : ¬ held → ∀ row, f row = row) (h : R row row') :
    R (f row) (f row') := by
  by_cases hk : held
  · rw [hlocked hk]
    exact hrefl _
  · rw [hnone hk, hnone hk]
    exact h

theorem mapM_ok {ε α β : Type} {f : α → Except ε β} {g : α → β} {l : List α}
    (h : ∀ x ∈ l, f x = .ok (g x)) : l.mapM f = .ok (l.map g) := by
  induction l with
  | nil => rfl
  | cons x l ih =>
    rw [mapM_cons, h x mem_cons_self, ih fun y hy => h y (mem_cons_of_mem _ hy)]
    rfl

/-- The first `d` is where the first part ends. -/
theorem append_cons_inj {α : Type} {d : α} {x x' y y' : List α} (hx : d ∉ x) (hx' : d ∉ x')
    (h : x ++ d :: y = x' ++ d :: y') : x = x' ∧ y = y' := by
  induction x generalizing x' with
  | nil =>
    cases x' with
    | nil => exact ⟨rfl, (List.cons.inj h).2⟩
    | cons => exact absurd ((List.cons.inj h).1 ▸ mem_cons_self) hx'
  | cons k x ih =>
    cases x' with
    | nil => exact absurd ((List.cons.inj h).1 ▸ mem_cons_self) hx
    | cons =>
      obtain ⟨hhead, htail⟩ := List.cons.inj h
      obtain ⟨rfl, hy⟩ := ih (fun hd => hx (mem_cons_of_mem _ hd)) (fun hd => hx' (mem_cons_of_mem _ hd)) htail
      exact ⟨by rw [hhead], hy⟩
end Lib
