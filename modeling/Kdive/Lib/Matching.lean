import Mathlib.Data.Finset.Card

/-! # Bipartite matching by augmenting paths

Kuhn's algorithm between left vertices and the right vertices `0, …, n - 1`, as it is written over
two mutable dictionaries and a visited set that the recursion shares: a left vertex takes the first
unvisited right vertex it may have, asking that vertex's owner to move elsewhere first.

The recursion is bounded by `fuel`. Each nested call has visited one right vertex more, so `n + 1` is
enough (`augment_moves`). A successful run matches every left vertex asked for, along an edge, no two to one
right vertex (`matchAll_spec`); a run fails only where that cannot be done (`exists_matchAll`).
-/

namespace Lib
open List Option Function
namespace Matching
structure State where
  /-- Right vertex to the left vertex that has it. -/
  owner : Nat → Option Nat := fun _ => none
  /-- Left vertex to the right vertex it has. -/
  mate : Nat → Option Nat := fun _ => none
  visited : List Nat := []

def State.visit (st : State) (v : Nat) : State := { st with visited := v :: st.visited }

def State.assign (st : State) (u v : Nat) : State :=
  { st with
    owner := update st.owner v (some u)
    mate := update st.mate u (some v) }

variable (adj : Nat → Nat → Bool)

/-- Try the right vertices of a list for `u`; `move` is the recursive call for an owner. -/
def scan (move : Nat → State → Bool × State) (u : Nat) : List Nat → State → Bool × State
  | [], st => (false, st)
  | v :: vs, st =>
    if v ∈ st.visited ∨ adj u v = false then scan move u vs st
    else
      match st.owner v with
      | none => (true, (st.visit v).assign u v)
      | some w =>
        match move w (st.visit v) with
        | (true, st') => (true, st'.assign u v)
        | (false, st') => scan move u vs st'

def augment (n : Nat) : Nat → Nat → State → Bool × State
  | 0, _, st => (false, st)
  | fuel + 1, u, st => scan adj (augment n fuel) u (range n) st

/-- Match the left vertices of a list one after the other, each with nothing visited. -/
def matchAll (n : Nat) : List Nat → State → Option State
  | [], st => some st
  | u :: us, st =>
    match augment adj n (n + 1) u { st with visited := [] } with
    | (true, st') => matchAll n us st'
    | (false, _) => none

/-! ## What one call does -/

/-- The two dictionaries agree, and matched pairs are edges. -/
structure Consistent (n : Nat) (st : State) : Prop where
  owner : ∀ u v, st.mate u = some v → st.owner v = some u
  edge : ∀ u v, st.mate u = some v → adj u v = true ∧ v < n

variable {adj} {n : Nat}

/-- What a failed call for `u` leaves after `vs`: more visited vertices, among them all of `vs` that `u`
    may have, and with each new one all that its owner may have. -/
structure Stuck (n : Nat) (adj : Nat → Nat → Bool) (u : Nat) (vs : List Nat) (st st' : State) : Prop where
  owner : st'.owner = st.owner
  visited : st.visited ⊆ st'.visited
  tried : ∀ v ∈ vs, adj u v = true → v ∈ st'.visited
  asked : ∀ v ∈ st'.visited, v ∉ st.visited →
    ∃ w, st.owner v = some w ∧ ∀ y ∈ range n, adj w y = true → y ∈ st'.visited

/-- The outcome `b` of a call for `u` that tries `vs`, from `st` to `st'`: vertices visited before are not
    touched, what was matched stays matched, and at most one vertex is owned that was not. -/
structure Moves (n : Nat) (adj : Nat → Nat → Bool) (u : Nat) (vs : List Nat) (st : State) (b : Bool) (st' : State) :
    Prop where
  consistent : Consistent adj n st'
  visited : st.visited ⊆ st'.visited
  mate : ∀ v ∈ st.visited, ∀ x, st'.mate x = some v → st.mate x = some v
  kept : ∀ x, (st.mate x).isSome → (st'.mate x).isSome
  owned : ∃ v, ∀ y, st'.owner y ≠ none → st.owner y ≠ none ∨ y = v
  found : b = true → ∃ v, st'.mate u = some v ∧ v ∉ st.visited
  stuck : b = false → Stuck n adj u vs st st'

variable {st : State} {u v : Nat}

theorem Consistent.assign (h : Consistent adj n st)
    (hv : ∀ x, st.mate x ≠ some v) (he : adj u v = true) (hn : v < n) : Consistent adj n (st.assign u v) := by
  constructor
  · intro x y hxy
    rcases eq_or_ne x u with rfl | hx
    · simp only [State.assign, update_self, some.injEq] at hxy
      subst hxy
      simp [State.assign]
    · simp only [State.assign, update_of_ne hx] at hxy
      have hy : y ≠ v := fun hyv => hv x (hyv ▸ hxy)
      simp only [State.assign, update_of_ne hy]
      exact h.owner x y hxy
  · intro x y hxy
    rcases eq_or_ne x u with rfl | hx
    · simp only [State.assign, update_self, some.injEq] at hxy
      exact hxy ▸ ⟨he, hn⟩
    · simp only [State.assign, update_of_ne hx] at hxy
      exact h.edge x y hxy

variable {st' : State} {vs : List Nat}

theorem Moves.assign (hcons : Consistent adj n st') (hvis : (st.visit v).visited ⊆ st'.visited)
    (hmate : ∀ y ∈ (st.visit v).visited, ∀ x, st'.mate x = some y → st.mate x = some y)
    (hkept : ∀ x, (st.mate x).isSome → (st'.mate x).isSome)
    (howned : ∃ v₀, (st.owner v ≠ none ∨ v = v₀) ∧ ∀ y, st'.owner y ≠ none → st.owner y ≠ none ∨ y = v₀)
    (hfree : ∀ x, st'.mate x ≠ some v) (he : adj u v = true) (hn : v < n) (hv : v ∉ st.visited) :
    Moves n adj u vs st true (st'.assign u v) := by
  have hne : ∀ y ∈ st.visited, y ≠ v := fun y hy h => hv (h ▸ hy)
  refine ⟨hcons.assign hfree he hn, fun y hy => hvis (mem_cons_of_mem _ hy), ?_, ?_, ?_, ?_, by simp⟩
  · intro y hy x hxy
    rcases eq_or_ne x u with rfl | hx
    · simp only [State.assign, update_self, some.injEq] at hxy
      exact absurd hxy.symm (hne y hy)
    · simp only [State.assign, update_of_ne hx] at hxy
      exact hmate y (mem_cons_of_mem _ hy) x hxy
  · intro x hx
    rcases eq_or_ne x u with rfl | hxu
    · simp [State.assign]
    · simp only [State.assign, update_of_ne hxu]
      exact hkept x hx
  · obtain ⟨v₀, hv₀, hall⟩ := howned
    refine ⟨v₀, fun y hy => ?_⟩
    rcases eq_or_ne y v with rfl | hyv
    · exact hv₀
    · exact hall y (by simpa [State.assign, hyv] using hy)
  · exact fun _ => ⟨v, by simp [State.assign], hv⟩

theorem Stuck.skip (h : Stuck n adj u vs st st') (hskip : v ∈ st.visited ∨ adj u v = false) :
    Stuck n adj u (v :: vs) st st' := by
  refine ⟨h.owner, h.visited, fun y hy hadj => ?_, h.asked⟩
  rcases mem_cons.mp hy with rfl | hy
  · exact h.visited (hskip.resolve_right (by simp [hadj]))
  · exact h.tried y hy hadj

theorem Stuck.cons {w : Nat} {st₁ : State} (h : Stuck n adj w (range n) (st.visit v) st₁) (hw : st.owner v = some w)
    (hrest : Stuck n adj u vs st₁ st') : Stuck n adj u (v :: vs) st st' := by
  refine ⟨hrest.owner.trans h.owner, fun y hy => hrest.visited (h.visited (mem_cons_of_mem _ hy)), ?_, ?_⟩
  · intro y hy hadj
    rcases mem_cons.mp hy with rfl | hy
    · exact hrest.visited (h.visited mem_cons_self)
    · exact hrest.tried y hy hadj
  · intro y hy hnew
    by_cases hy₁ : y ∈ st₁.visited
    · rcases eq_or_ne y v with rfl | hne
      · exact ⟨w, hw, fun x hx hadj => hrest.visited (h.tried x hx hadj)⟩
      · obtain ⟨x, hx, hall⟩ := h.asked y hy₁ (by simp [State.visit, hne, hnew])
        exact ⟨x, hx, fun z hz hadj => hrest.visited (hall z hz hadj)⟩
    · obtain ⟨x, hx, hall⟩ := hrest.asked y hy hy₁
      exact ⟨x, by rwa [h.owner] at hx, hall⟩

def unvisited (n : Nat) (st : State) : Nat := ((Finset.range n).filter (· ∉ st.visited)).card

theorem unvisited_le (h : st.visited ⊆ st'.visited) : unvisited n st' ≤ unvisited n st :=
  Finset.card_le_card (Finset.monotone_filter_right _ fun _ _ hv hmem => hv (h hmem))

theorem unvisited_visit_lt (hv : v ∉ st.visited) (hn : v < n) : unvisited n (st.visit v) < unvisited n st := by
  refine Finset.card_lt_card ⟨Finset.monotone_filter_right _ fun _ _ hx h => hx (mem_cons_of_mem _ h), fun h => ?_⟩
  have hmem := h (Finset.mem_filter.mpr ⟨Finset.mem_range.mpr hn, hv⟩)
  exact (Finset.mem_filter.mp hmem).2 mem_cons_self

variable {move : Nat → State → Bool × State}

theorem scan_moves {bound : Nat} (hmove : ∀ w st, Consistent adj n st → unvisited n st < bound →
      Moves n adj w (range n) st (move w st).1 (move w st).2)
    (u : Nat) (hvs : ∀ v ∈ vs, v < n) (hst : Consistent adj n st) (hle : unvisited n st ≤ bound) :
    Moves n adj u vs st (scan adj move u vs st).1 (scan adj move u vs st).2 := by
  induction vs generalizing st with
  | nil =>
    exact ⟨hst, fun _ h => h, fun _ _ _ h => h, fun _ h => h, ⟨0, fun _ h => .inl h⟩, by simp [scan],
      fun _ => ⟨rfl, fun _ h => h, by simp, fun _ h h' => absurd h h'⟩⟩
  | cons v vs ih =>
    have hvs' : ∀ x ∈ vs, x < n := fun x hx => hvs x (mem_cons_of_mem _ hx)
    have hn : v < n := hvs v mem_cons_self
    unfold scan
    by_cases hskip : v ∈ st.visited ∨ adj u v = false
    · rw [if_pos hskip]
      have hrest := ih hvs' hst hle
      exact { hrest with stuck := fun hb => (hrest.stuck hb).skip hskip }
    · rw [if_neg hskip]
      obtain ⟨hv, he⟩ := not_or.mp hskip
      have he : adj u v = true := by simpa using he
      have hst1 : Consistent adj n (st.visit v) := ⟨hst.owner, hst.edge⟩
      have hlt := unvisited_visit_lt hv hn
      cases howner : st.owner v with
      | none =>
        refine Moves.assign hst1 (fun _ h => h) (fun _ _ _ h => h) (fun _ h => h) ⟨v, .inr rfl, fun _ h => .inl h⟩ ?_
          he hn hv
        intro x hx
        have := (hst.owner x v hx).symm.trans howner
        cases this
      | some w =>
        have hm := hmove w (st.visit v) hst1 (by omega)
        cases hres : move w (st.visit v) with
        | mk b =>
          simp only [hres] at hm ⊢
          cases b with
          | true =>
            obtain ⟨v₀, hv₀⟩ := hm.owned
            refine Moves.assign hm.consistent hm.visited hm.mate hm.kept ⟨v₀, .inl (by simp [howner]), hv₀⟩ ?_ he hn hv
            -- only the owner `w` had `v`, and it has just moved to another vertex
            intro x hx
            have hx0 := hm.mate v mem_cons_self x hx
            have hxw : some x = some w := (hst.owner x v hx0).symm.trans howner
            cases hxw
            obtain ⟨v', hv', hnew⟩ := hm.found rfl
            rw [hx] at hv'
            cases hv'
            exact hnew mem_cons_self
          | false =>
            have hs := hm.stuck rfl
            have hrest := ih hvs' hm.consistent ((unvisited_le hm.visited).trans (by omega))
            have hvis : st.visited ⊆ _ := fun y hy => hm.visited (mem_cons_of_mem _ hy)
            refine ⟨hrest.consistent, fun y hy => hrest.visited (hvis hy), ?_,
              fun x hx => hrest.kept x (hm.kept x hx), ?_, ?_, fun hb => hs.cons howner (hrest.stuck hb)⟩
            · intro y hy x hx
              exact hm.mate y (mem_cons_of_mem _ hy) x (hrest.mate y (hvis hy) x hx)
            · simpa [hs.owner, State.visit] using hrest.owned
            · intro hb
              obtain ⟨y, hy, hnot⟩ := hrest.found hb
              exact ⟨y, hy, fun h => hnot (hvis h)⟩

/-- **The bound on the recursion is never reached** where it is above the number of unvisited vertices. -/
theorem augment_moves {fuel : Nat} (u : Nat) (hst : Consistent adj n st) (hfuel : unvisited n st < fuel) :
    Moves n adj u (range n) st (augment adj n fuel u st).1 (augment adj n fuel u st).2 := by
  induction fuel generalizing u st with
  | zero => omega
  | succ fuel ih =>
    exact scan_moves (fun w _ h hlt => ih w h hlt) u (fun _ hv => mem_range.mp hv) hst (by omega)

/-! ## A whole run -/

variable {D : Finset Nat} {f : Nat → Nat}

/-- The vertices of `D` are matched, and no more vertices are owned than that. -/
structure Matched (adj : Nat → Nat → Bool) (n : Nat) (D : Finset Nat) (st : State) : Prop where
  consistent : Consistent adj n st
  mate : ∀ x ∈ D, ∃ v, st.mate x = some v
  owned : ∃ S : Finset Nat, S.card ≤ D.card ∧ ∀ y, st.owner y ≠ none → y ∈ S

/-- A matching of `D`, however it was found. -/
structure Perfect (adj : Nat → Nat → Bool) (n : Nat) (D : Finset Nat) (f : Nat → Nat) : Prop where
  injOn : Set.InjOn f D
  edge : ∀ x ∈ D, adj x (f x) = true ∧ f x < n

theorem Perfect.mono {D' : Finset Nat} (h : Perfect adj n D' f) (hD : D ⊆ D') : Perfect adj n D f :=
  ⟨h.injOn.mono (Finset.coe_subset.mpr hD), fun x hx => h.edge x (hD hx)⟩

theorem Consistent.injective (h : Consistent adj n st) {u' : Nat}
    (hu : st.mate u = some v) (hu' : st.mate u' = some v) : u = u' := by
  have := (h.owner u v hu).symm.trans (h.owner u' v hu')
  exact some.inj this

namespace Matched
variable (h : Matched adj n D st)
include h

/-- No two have one mate, so that by their number the owned vertices are the mates of `D`. -/
theorem onto (hv : st.owner v ≠ none) : ∃ x ∈ D, st.mate x = some v := by
  obtain ⟨S, hcard, hS⟩ := h.owned
  have hmate : ∀ x ∈ D, st.mate x = some ((st.mate x).getD 0) := by
    intro x hx
    obtain ⟨y, hy⟩ := h.mate x hx
    simp [hy]
  have himage : D.image (fun x => (st.mate x).getD 0) = S := by
    refine Finset.eq_of_subset_of_card_le (Finset.image_subset_iff.mpr fun x hx => ?_) ?_
    · exact hS _ (by simp [h.consistent.owner x _ (hmate x hx)])
    · rwa [Finset.card_image_of_injOn fun x hx y hy hxy => h.consistent.injective (hmate x hx)
        ((hmate y hy).trans (congrArg some hxy.symm))]
  obtain ⟨x, hx, hxv⟩ := Finset.mem_image.mp (himage ▸ hS v hv)
  exact ⟨x, hx, hxv ▸ hmate x hx⟩

/-- The pigeonhole principle: `u` and the owners of the visited vertices may have visited ones only, which are one
    fewer. -/
theorem not_stuck (hu : u ∉ D) (hf : Perfect adj n (insert u D) f)
    (hs : Stuck n adj u (range n) { st with visited := [] } st') : False := by
  let W := D.filter fun x => ∃ v ∈ st'.visited, st.mate x = some v
  have hW : W ⊆ D := Finset.filter_subset ..
  have hf := hf.mono (Finset.insert_subset_insert u hW)
  have hmaps : ∀ x ∈ insert u W, f x ∈ st'.visited.toFinset := by
    intro x hx
    obtain ⟨hadj, hlt⟩ := hf.edge x hx
    refine mem_toFinset.mpr ?_
    rcases Finset.mem_insert.mp hx with rfl | hx
    · exact hs.tried _ (mem_range.mpr hlt) hadj
    · obtain ⟨-, v, hv, hmate⟩ := Finset.mem_filter.mp hx
      obtain ⟨w, hw, hall⟩ := hs.asked v hv not_mem_nil
      cases (h.consistent.owner x v hmate).symm.trans hw
      exact hall _ (mem_range.mpr hlt) hadj
  have hle := Finset.card_le_card_of_injOn f hmaps hf.injOn
  have hge : st'.visited.toFinset.card ≤ W.card := by
    refine (Finset.card_le_card fun v hv => ?_).trans (Finset.card_image_le (f := fun x => (st.mate x).getD 0))
    have hv := mem_toFinset.mp hv
    obtain ⟨w, hw, -⟩ := hs.asked v hv not_mem_nil
    replace hw : st.owner v = some w := hw
    obtain ⟨x, hx, hmate⟩ := h.onto (v := v) (by simp [hw])
    exact Finset.mem_image.mpr ⟨x, Finset.mem_filter.mpr ⟨hx, v, hv, hmate⟩, by simp [hmate]⟩
  rw [Finset.card_insert_of_notMem fun hmem => hu (hW hmem)] at hle
  omega

theorem grow (hu : u ∉ D) (hm : Moves n adj u vs { st with visited := [] } true st') :
    Matched adj n (insert u D) st' := by
  refine ⟨hm.consistent, fun x hx => ?_, ?_⟩
  · rcases Finset.mem_insert.mp hx with rfl | hx
    · obtain ⟨v, hv, -⟩ := hm.found rfl
      exact ⟨v, hv⟩
    · obtain ⟨v, hv⟩ := h.mate x hx
      exact isSome_iff_exists.mp (hm.kept x (by simp [hv]))
  · obtain ⟨S, hcard, hS⟩ := h.owned
    obtain ⟨v, hv⟩ := hm.owned
    refine ⟨insert v S, ?_, fun y hy => Finset.mem_insert.mpr ((hv y hy).symm.imp_right (hS y))⟩
    rw [Finset.card_insert_of_notMem hu]
    exact (Finset.card_insert_le v S).trans (Nat.succ_le_succ hcard)

theorem run {us : List Nat} (hus : us.Nodup) (hD : ∀ u ∈ us, u ∉ D) : match matchAll adj n us st with
    | some st' => Matched adj n (D ∪ us.toFinset) st'
    | none => ∀ f, ¬ Perfect adj n (D ∪ us.toFinset) f := by
  induction us generalizing st D with
  | nil => simpa [matchAll] using h
  | cons u us ih =>
    have hu := hD u mem_cons_self
    have hst : Consistent adj n { st with visited := [] } := ⟨h.consistent.owner, h.consistent.edge⟩
    have hm := augment_moves u hst (show unvisited n _ < n + 1 by simp [unvisited])
    have hunion : D ∪ (u :: us).toFinset = insert u D ∪ us.toFinset := by
      rw [toFinset_cons, Finset.union_insert, Finset.insert_union]
    rw [hunion, matchAll]
    cases hres : augment adj n (n + 1) u { st with visited := [] } with
    | mk b =>
      simp only [hres] at hm ⊢
      cases b with
      | false => exact fun f hf => h.not_stuck hu (hf.mono Finset.subset_union_left) (hm.stuck rfl)
      | true =>
        refine ih (h.grow hu hm) (nodup_cons.mp hus).2 fun x hx => ?_
        rw [Finset.mem_insert, not_or]
        exact ⟨fun h => (nodup_cons.mp hus).1 (h ▸ hx), hD x (mem_cons_of_mem _ hx)⟩
end Matched

variable {us : List Nat}

theorem run_empty (hus : us.Nodup) {result : Option State} : matchAll adj n us {} = result → match result with
    | some st' => Matched adj n us.toFinset st'
    | none => ∀ f, ¬ Perfect adj n us.toFinset f := by
  intro h
  have hempty : Matched adj n ∅ {} := ⟨⟨by simp, by simp⟩, by simp, ∅, by simp⟩
  simpa [h] using hempty.run hus (by simp)

/-- **What a successful run returns**: each vertex of the list has a mate, and the dictionaries
    agree, so that no two have the same one. -/
theorem matchAll_spec (hus : us.Nodup) (h : matchAll adj n us {} = some st') :
    Consistent adj n st' ∧ ∀ u ∈ us, ∃ v, st'.mate u = some v :=
  have hrun := run_empty hus h
  ⟨hrun.consistent, fun u hu => hrun.mate u (mem_toFinset.mpr hu)⟩

/-- **A run fails only where there is no matching.** -/
theorem exists_matchAll (hus : us.Nodup) (hf : Perfect adj n us.toFinset f) :
    ∃ st', matchAll adj n us {} = some st' := by
  cases h : matchAll adj n us {} with
  | some st' => exact ⟨st', rfl⟩
  | none => exact absurd hf (run_empty hus h f)
end Matching
end Lib
