import Kdive.Platform.Occupancy
import Kdive.Runs.Ledger

/-! # Who spent it: `usage` and `usage_for_investigation`

The queries attribute the ledger through joins over Systems and Runs that do not look at projects. That the parts add up
to what the project has spent (`usage_adds_up`) rests on two facts that no constraint states: a Run, its System, the
System's allocation and its Investigation are of one project (`Scoped`), and the running total is the sum of the ledger
(`Conserved`).
-/

namespace Kdive.Platform
open Lib hiding Ready
open List Option Table
open Rounding (OnGrid)
open Rounding Kdive.Platform.Lab List

/-- `SELECT COALESCE(SUM(kcu_delta), 0) FROM ledger WHERE …`. -/
def sumWhere (ledger : List LedgerEntry) (f : LedgerEntry → Bool) : ℚ :=
  ((ledger.filter f).map (·.kcuDelta)).sum

theorem sumWhere_cons (e : LedgerEntry) (l : List LedgerEntry) (f : LedgerEntry → Bool) :
    sumWhere (e :: l) f = (if f e then e.kcuDelta else 0) + sumWhere l f := by
  unfold sumWhere
  cases hf : f e <;> simp [hf]

theorem sum_parts_of_entry {ι : Type} (parts : List ι) (f : ι → Bool) (d : ℚ) :
    (parts.map fun t => if f t then d else 0).sum = parts.countP f * d := by
  induction parts with
  | nil => simp
  | cons t parts ih =>
    rw [map_cons, sum_cons, ih, countP_cons]
    cases f t
    · simp
    · push_cast
      simp
      ring

/-- Parts that have each row of the whole once, and no other, add up to the whole. -/
theorem sum_parts {ι : Type} (parts : List ι) (f : ι → LedgerEntry → Bool) (g : LedgerEntry → Bool)
    (l : List LedgerEntry) (h : ∀ e ∈ l, parts.countP (f · e) = if g e then 1 else 0) :
    (parts.map fun t => sumWhere l (f t)).sum = sumWhere l g := by
  induction l with
  | nil =>
    have hzero : ∀ f, sumWhere [] f = 0 := fun _ => rfl
    simp [hzero]
  | cons e l ih =>
    have hsplit : (parts.map fun t => sumWhere (e :: l) (f t)).sum =
        (parts.map fun t => if f t e then e.kcuDelta else 0).sum + (parts.map fun t => sumWhere l (f t)).sum := by
      rw [← sum_map_add]
      exact congrArg sum (map_congr_left fun t _ => sumWhere_cons e l (f t))
    rw [hsplit, sum_parts_of_entry, h e mem_cons_self, sumWhere_cons, ih fun e' he' => h e' (mem_cons_of_mem _ he')]
    cases g e <;> simp

theorem onGrid_sumWhere {l : List LedgerEntry} (h : ∀ e ∈ l, OnGrid kcuQuantum e.kcuDelta)
    (f : LedgerEntry → Bool) : OnGrid kcuQuantum (sumWhere l f) :=
  .sum_filter fun e he _ => h e he

/-! ## The queries -/

/-- `SELECT r.investigation_id FROM systems s JOIN runs r ON r.system_id = s.id`, the group of one
    allocation. -/
def investigationsOf (c : store.Db) (allocationId : Uuid) : List Uuid :=
  c.1.systems.rows.flatMap fun s =>
    if s.allocationId = allocationId then
      (c.2.runs.rows.filter (·.systemId = s.id)).map (·.investigationId)
    else []

/-- `HAVING count(DISTINCT r.investigation_id) = 1 AND bool_and(r.investigation_id = …)`. -/
def solelyIn (c : store.Db) (investigationId allocationId : Uuid) : Bool :=
  (investigationsOf c allocationId).dedup.length = 1 && (investigationsOf c allocationId).all (· = investigationId)

/-- `HAVING count(DISTINCT r.investigation_id) > 1`. -/
def spansSeveral (c : store.Db) (allocationId : Uuid) : Bool :=
  1 < (investigationsOf c allocationId).dedup.length

structure ProjectUsage where
  spentKcu : ℚ
  budgetRemaining : ℚ
  byCostClass : List (String × ℚ)
  sharedKcu : ℚ

def budgetTotals (c : store.Db) (project : String) : ℚ × ℚ :=
  match c.1.budgets.get project with
  | none => (0, 0)
  | some b => (b.spentKcu, b.limitKcu)

def costClasses (c : store.Db) (project : String) : List String :=
  ((c.1.ledger.filter (·.project = project)).map (·.costClass)).dedup

def classTotal (c : store.Db) (project costClass : String) : ℚ :=
  sumWhere c.1.ledger fun e => e.project = project && e.costClass = costClass

def byCostClass (c : store.Db) (project : String) : Except Err (List (String × ℚ)) :=
  (costClasses c project).mapM fun costClass => do
    let total ← quantizeKcu (classTotal c project costClass)
    return (costClass, total)

def sharedTotal (c : store.Db) (project : String) : ℚ :=
  sumWhere c.1.ledger fun e => e.project = project && spansSeveral c e.allocationId

def sharedKcu (c : store.Db) (project : String) : Except Err ℚ :=
  quantizeKcu (sharedTotal c project)

def usage (c : store.Db) (project : String) : Except Err ProjectUsage := do
  let totals := budgetTotals c project
  let byCostClass ← byCostClass c project
  let sharedKcu ← sharedKcu c project
  let budgetRemaining ← Dec.sub totals.2 totals.1 >>= quantizeKcu
  return { spentKcu := totals.1, budgetRemaining, byCostClass, sharedKcu }

def soleTotal (c : store.Db) (investigationId : Uuid) : ℚ :=
  sumWhere c.1.ledger fun e => solelyIn c investigationId e.allocationId

def usageForInvestigation (c : store.Db) (investigationId : Uuid) : Except Err ℚ :=
  quantizeKcu (soleTotal c investigationId)

/-! ## The terms of the account -/

def investigationsIn (c : store.Db) (project : String) : List Uuid :=
  (c.2.investigations.rows.filter (·.project = project)).map (·.id)

/-- There is a Run on a System of the allocation. -/
def backsRun (c : store.Db) (allocationId : Uuid) : Bool :=
  c.1.systems.rows.any fun s => s.allocationId = allocationId && c.2.runs.rows.any (·.systemId = s.id)

/-- An allocation of the project that backs no Run. -/
def bare (c : store.Db) (project : String) (allocationId : Uuid) : Bool :=
  (c.1.allocations.get allocationId).any (·.project = project) && !backsRun c allocationId

/-- What is in no query: the ledger rows of the project's allocations that back no Run. -/
def bareKcu (c : store.Db) (project : String) : ℚ :=
  sumWhere c.1.ledger fun e => bare c project e.allocationId

inductive Term where
  | solely (investigationId : Uuid)
  | shared
  | bare

/-- The term sums the ledger rows of the allocation, which is `owner`'s. -/
def Term.counts (c : store.Db) (project owner : String) (allocationId : Uuid) : Term → Bool
  | solely investigationId => solelyIn c investigationId allocationId
  | shared => owner = project && spansSeveral c allocationId
  | bare => Platform.bare c project allocationId

/-- The terms that the two queries sum. -/
def queried (c : store.Db) (project : String) : List Term := (investigationsIn c project).map .solely ++ [.shared]

def terms (c : store.Db) (project : String) : List Term := queried c project ++ [.bare]

/-- A Run, its System, the System's allocation and its Investigation are of one project. -/
structure Scoped (c : store.Db) : Prop where
  runs : ∀ id r, c.2.runs.get id = some r →
    InvestigationOf c r.investigationId r.project ∧ SystemOf c r.systemId r.project
  systems : ∀ id s, c.1.systems.get id = some s →
    ∃ a, c.1.allocations.get s.allocationId = some a ∧ a.project = s.project

section
variable {c : store.Db} {project : String}

theorem solelyIn_iff {investigationId allocationId : Uuid} : solelyIn c investigationId allocationId = true ↔
      (investigationsOf c allocationId).dedup = [investigationId] := by
  simp only [solelyIn, Bool.and_eq_true, decide_eq_true_eq, List.all_eq_true, List.length_eq_one_iff]
  constructor
  · rintro ⟨⟨i, hi⟩, hall⟩
    have hmem : i ∈ investigationsOf c allocationId := by
      rw [← mem_dedup, hi]
      exact mem_cons_self
    rw [hi, hall i hmem]
  · intro h
    refine ⟨⟨_, h⟩, fun i hi => ?_⟩
    rw [← List.mem_dedup, h] at hi
    exact mem_singleton.mp hi

theorem mem_investigationsOf {i allocationId : Uuid} (h : i ∈ investigationsOf c allocationId) :
    ∃ s r, c.1.systems.get s.id = some s ∧ s.allocationId = allocationId ∧
      c.2.runs.get r.id = some r ∧ r.systemId = s.id ∧ r.investigationId = i := by
  obtain ⟨s, hs, hi⟩ := mem_flatMap.mp h
  split at hi
  case isFalse => cases hi
  case isTrue hid =>
    obtain ⟨r, hr, rfl⟩ := mem_map.mp hi
    obtain ⟨hr, hsys⟩ := List.mem_filter.mp hr
    exact ⟨s, r, Table.get_key_of_mem hs, hid, Table.get_key_of_mem hr, of_decide_eq_true hsys, rfl⟩

theorem mem_investigationsIn {i : Uuid} : i ∈ investigationsIn c project ↔ InvestigationOf c i project := by
  constructor
  · intro h
    obtain ⟨x, hx, rfl⟩ := mem_map.mp h
    obtain ⟨hx, hp⟩ := List.mem_filter.mp hx
    exact ⟨x, Table.get_key_of_mem hx, of_decide_eq_true hp⟩
  · rintro ⟨x, hx, hp⟩
    refine mem_map.mpr ⟨x, List.mem_filter.mpr ⟨Table.mem_of_get hx, decide_eq_true hp⟩, ?_⟩
    exact Table.key_eq_of_get hx

theorem nodup_investigationsIn : (investigationsIn c project).Nodup :=
  c.2.investigations.nodup.sublist (filter_sublist.map _)

theorem Scoped.project_of_mem (h : Scoped c) {a : Allocation} (ha : c.1.allocations.get a.id = some a)
    {i : Uuid} (hi : i ∈ investigationsOf c a.id) : InvestigationOf c i a.project := by
  obtain ⟨s, r, hs, hid, hr, hsys, rfl⟩ := mem_investigationsOf hi
  obtain ⟨hinv, s', hs', hp⟩ := h.runs _ r hr
  obtain ⟨a', ha', hpa⟩ := h.systems _ s hs
  rw [hid, ha, some.injEq] at ha'
  rw [hsys, hs, some.injEq] at hs'
  rwa [ha', hpa, hs', hp]

theorem backsRun_iff {allocationId : Uuid} : backsRun c allocationId = true ↔ investigationsOf c allocationId ≠ [] := by
  simp only [backsRun, List.any_eq_true, Bool.and_eq_true, decide_eq_true_eq, investigationsOf, ne_eq, flatMap_eq_nil_iff,
    not_forall]
  refine exists_congr fun s => ?_
  rw [← exists_prop]
  refine exists_congr fun _ => ?_
  by_cases hid : s.allocationId = allocationId <;> simp [hid, filter_eq_nil_iff]

theorem countP_queried (owner : String) (id : Uuid) : (queried c project).countP (·.counts c project owner id) =
      (investigationsIn c project).countP (solelyIn c · id) +
        (if (owner = project && spansSeveral c id) = true then 1 else 0) := by
  rw [queried, countP_append, countP_map]
  simp only [countP_cons, countP_nil, Term.counts, Function.comp_def, Nat.zero_add]

theorem InvestigationOf.unique {i : Uuid} {p q : String} (h : InvestigationOf c i p)
    (h' : InvestigationOf c i q) : p = q := by
  obtain ⟨x, hx, rfl⟩ := h
  obtain ⟨y, hy, rfl⟩ := h'
  rw [some.inj (hx.symm.trans hy)]

/-- An allocation that backs a Run is in one query of its own project, and in none of another's. -/
theorem Scoped.countP_queried (h : Scoped c) {a : Allocation} (ha : c.1.allocations.get a.id = some a) :
    (queried c project).countP (·.counts c project a.project a.id) =
      if a.project = project ∧ backsRun c a.id = true then 1 else 0 := by
  rw [Platform.countP_queried]
  simp only [backsRun_iff]
  -- by how many Investigations the allocation's Runs are in
  rcases hrefs : (investigationsOf c a.id).dedup with _ | ⟨i, _ | ⟨j, rest⟩⟩
  · have hnil : investigationsOf c a.id = [] := by
      rw [eq_nil_iff_forall_not_mem]
      intro i hi
      rw [← mem_dedup, hrefs] at hi
      cases hi
    have hsole : (investigationsIn c project).countP (solelyIn c · a.id) = 0 := by
      rw [countP_eq_zero]
      intro i _ hi
      rw [solelyIn_iff, hrefs] at hi
      cases hi
    simp [hsole, spansSeveral, hnil]
  · have hmem : i ∈ investigationsOf c a.id := by
      rw [← mem_dedup, hrefs]
      exact mem_cons_self
    have hsole : (investigationsIn c project).countP (solelyIn c · a.id) = (investigationsIn c project).count i := by
      rw [List.count]
      refine countP_congr fun j _ => ?_
      rw [solelyIn_iff, hrefs, singleton_inj, beq_iff_eq]
      exact eq_comm
    have hinv := h.project_of_mem ha hmem
    have hne : investigationsOf c a.id ≠ [] := ne_nil_of_mem hmem
    rw [hsole]
    simp only [spansSeveral, hrefs]
    by_cases hp : a.project = project
    · rw [count_eq_one_of_mem nodup_investigationsIn (mem_investigationsIn.mpr (hp ▸ hinv))]
      simp [hp, hne]
    · rw [count_eq_zero.mpr fun hi => hp (hinv.unique (mem_investigationsIn.mp hi))]
      simp [hp]
  · have hne : investigationsOf c a.id ≠ [] := by
      intro hnil
      rw [hnil] at hrefs
      cases hrefs
    have hsole : (investigationsIn c project).countP (solelyIn c · a.id) = 0 := by
      rw [countP_eq_zero]
      intro k _ hk
      rw [solelyIn_iff, hrefs] at hk
      cases hk
    simp [hsole, spansSeveral, hne, hrefs]

/-- **Each allocation is in one term of its own project's account, and in none of another's.** -/
theorem Scoped.countP_terms (h : Scoped c) {a : Allocation} (ha : c.1.allocations.get a.id = some a) :
    (terms c project).countP (·.counts c project a.project a.id) = if a.project = project then 1 else 0 := by
  rw [terms, countP_append, h.countP_queried ha]
  by_cases hp : a.project = project <;> cases hruns : backsRun c a.id <;> simp [Term.counts, bare, ha, hp, hruns]

theorem Scoped.sum_terms (h : Scoped c) (hi : WellFormed c.1) :
    ((investigationsIn c project).map (soleTotal c)).sum + sharedTotal c project + bareKcu c project =
      spentInLedger c.1.ledger project := by
  have hsum := sum_parts (terms c project) (fun t e => t.counts c project e.project e.allocationId)
    (·.project = project) c.1.ledger fun e he => by
      obtain ⟨a, ha, hp, -⟩ := (hi.ledger e he).granted
      have hid := allocation_id ha
      rw [← hid] at ha ⊢
      rw [← hp, h.countP_terms ha]
      simp
  rw [terms, queried, map_append, map_append, sum_append, sum_append, List.map_map] at hsum
  simp only [map_cons, map_nil, sum_cons, sum_nil, add_zero] at hsum
  exact hsum

theorem sum_classTotal :
    ((costClasses c project).map (classTotal c project)).sum = spentInLedger c.1.ledger project := by
  refine sum_parts (costClasses c project) (fun k e => e.project = project && e.costClass = k)
    (·.project = project) c.1.ledger fun e he => ?_
  by_cases hp : e.project = project
  · have hmem : e.costClass ∈ costClasses c project := by
      refine mem_dedup.mpr (mem_map.mpr ⟨e, ?_, rfl⟩)
      exact mem_filter.mpr ⟨he, decide_eq_true hp⟩
    have hone := count_eq_one_of_mem (nodup_dedup _) hmem
    rw [if_pos (decide_eq_true hp), ← hone, count]
    refine countP_congr fun k _ => ?_
    rw [beq_iff_eq, Bool.and_eq_true, decide_eq_true_eq, decide_eq_true_eq]
    exact ⟨fun hk => hk.2.symm, fun hk => ⟨hp, hk.symm⟩⟩
  · simp [hp]
end

/-! ## In every run -/

section
variable {a : Act} {c : store.Db}

/-- **Every step keeps what belongs together in one project.** -/
theorem Scoped.act (h : Scoped c) (hg : a.guard c) : Scoped (a.on c) := by
  have hrely := Rely.act hg (H := []) (by simp)
  refine ⟨?_, ?_⟩
  · intro id r' hr'
    have hbefore : InvestigationOf c r'.investigationId r'.project ∧ SystemOf c r'.systemId r'.project := by
      rcases Act.runOrigin hg hr' with ⟨r, hr, hkept⟩ | rfl
      · have hr := h.runs id r hr
        rwa [hkept.investigation, hkept.project, hkept.system] at hr
      · exact ⟨hg.investigation, hg.system⟩
    exact ⟨hrely.investigationOf hbefore.1, hrely.systemOf hbefore.2⟩
  · intro id s' hs'
    have hbefore : ∃ alloc, c.1.allocations.get s'.allocationId = some alloc ∧ alloc.project = s'.project := by
      rcases Act.systemOrigin hg hs' with ⟨s, hs, hkept⟩ | ⟨-, row, now, created, activated, rfl, hid⟩
      · have hs := h.systems id s hs
        rwa [hkept.allocation, hkept.project] at hs
      · have hcore : (Action.activate row s' now created activated).guard noneFixed c.1 := hg
        obtain ⟨alloc, halloc, hsame⟩ := hcore.current
        refine ⟨alloc, hid ▸ halloc, ?_⟩
        rw [hcore.project]
        exact congrArg (·.project) hsame
    obtain ⟨alloc, halloc, hp⟩ := hbefore
    obtain ⟨alloc', halloc', hp'⟩ := (hrely.core.allocations _).persists alloc halloc
    exact ⟨alloc', halloc', hp'.trans hp⟩

theorem Fresh.scoped {db : store.Db} (h : Fresh db) : Scoped db := by
  refine ⟨?_, ?_⟩
  · intro id r hr
    rw [h.get_run] at hr
    cases hr
  · intro id s hs
    rw [get_of_rows_nil h.core.systems] at hs
    cases hs

/-- The accounts of `Kdive.Runs.Ledger` are as well kept here: no other step touches them. -/
structure Accounted (c : Db) : Prop where
  conserved : Conserved c
  onGrid : ∀ e ∈ c.ledger, OnGrid kcuQuantum e.kcuDelta

theorem Accounted.act (hi : Sound c) (h : Accounted c.1) (hg : a.guard c) : Accounted (a.on c).1 := by
  cases a with
  | core a =>
    have hcore : a.guard noneFixed c.1 := hg
    rw [Act.on, Act.writes, applyAll_inl]
    refine ⟨h.conserved.act hi.core hcore, ?_⟩
    intro e he
    rw [a.ledger_writes] at he
    rcases mem_append.mp he with he | he
    · exact h.onGrid e he
    · exact Action.onGrid_of_entry hcore he
  | _ => exact ⟨h.conserved, h.onGrid⟩

theorem Fresh.accounted {db : store.Db} (h : Fresh db) : Accounted db.1 := by
  refine ⟨?_, ?_⟩
  · intro p b hb
    rw [h.core.ledger, h.core.budgets p b hb]
    rfl
  · intro e he
    rw [h.core.ledger] at he
    cases he
end

/-- The totals fit the decimal context: 28 digits, down to the quantum. -/
structure TotalsFit (c : store.Db) (project : String) : Prop where
  classes : ∀ k ∈ costClasses c project,
    fitsDigits Dec.precision kcuQuantum (classTotal c project k) = true
  shared : fitsDigits Dec.precision kcuQuantum (sharedTotal c project) = true
  investigations : ∀ i ∈ investigationsIn c project, fitsDigits Dec.precision kcuQuantum (soleTotal c i) = true
  remaining : ∃ r, (Dec.sub (budgetTotals c project).2 (budgetTotals c project).1 >>= quantizeKcu) = .ok r

theorem quantizeKcu_of_fits {q : ℚ} (hq : OnGrid kcuQuantum q)
    (hfit : fitsDigits Dec.precision kcuQuantum q = true) : quantizeKcu q = .ok q := by
  have hsame : toGrid kcuQuantum q = q :=
    toGrid_of_onGrid kcuQuantum_pos.ne' hq
  rw [quantizeKcu, hsame, if_pos hfit]

/-- **A project's account adds up in every committed state**: what its Investigations spent on their own,
    what was shared and what backs no Run is what it has spent, and so is the sum over the cost classes.
    An allocation with a Run is in exactly one of the queries of its project, and in no query of another; with
    what is in no query, the same is true of every allocation. -/
theorem usage_adds_up {cfg : Config} {s : Sys store} (h : Reachable cfg s) {project : String}
    {b : Budget} (hb : s.db.1.budgets.get project = some b) (hfit : TotalsFit s.db project) :
    ∃ (u : ProjectUsage) (own : Uuid → ℚ), usage s.db project = .ok u ∧
      (∀ i ∈ investigationsIn s.db project, usageForInvestigation s.db i = .ok (own i)) ∧
      ((investigationsIn s.db project).map own).sum + u.sharedKcu + bareKcu s.db project = u.spentKcu ∧
      (u.byCostClass.map (·.2)).sum = u.spentKcu ∧
      ∀ id a, s.db.1.allocations.get id = some a →
        (queried s.db project).countP (·.counts s.db project a.project id) =
            (if a.project = project ∧ backsRun s.db id = true then 1 else 0) ∧
          (terms s.db project).countP (·.counts s.db project a.project id) = if a.project = project then 1 else 0 := by
  have hscoped : Scoped s.db := h.always (fun _ hf => hf.scoped) (fun _ _ _ hJ hg => hJ.act hg)
  have hacc : Accounted s.db.1 := h.always (J := fun c => Accounted c.1)
    (fun _ hf => hf.accounted) (fun _ _ hi hJ hg => hJ.act hi hg)
  have hsound : WellFormed s.db.1 := h.holds.inv.core
  have hspent : spentInLedger s.db.1.ledger project = b.spentKcu := (hacc.conserved project b hb).symm
  have hquant : ∀ f, fitsDigits Dec.precision kcuQuantum (sumWhere s.db.1.ledger f) = true →
      quantizeKcu (sumWhere s.db.1.ledger f) = .ok (sumWhere s.db.1.ledger f) :=
    fun f hf => quantizeKcu_of_fits (onGrid_sumWhere hacc.onGrid f) hf
  have htotals : budgetTotals s.db project = (b.spentKcu, b.limitKcu) := by rw [budgetTotals, hb]
  have hclasses : byCostClass s.db project =
      .ok ((costClasses s.db project).map fun k => (k, classTotal s.db project k)) := by
    refine mapM_ok fun k hk => ?_
    rw [classTotal, hquant _ (hfit.classes k hk)]
    rfl
  obtain ⟨remaining, hremaining⟩ := hfit.remaining
  rw [htotals] at hremaining
  refine ⟨⟨b.spentKcu, remaining, (costClasses s.db project).map fun k => (k, classTotal s.db project k),
    sharedTotal s.db project⟩, soleTotal s.db, ?_, ?_, ?_, ?_, ?_⟩
  · rw [usage, hclasses, sharedKcu, sharedTotal, hquant _ hfit.shared]
    simp only [htotals, hremaining]
    rfl
  · intro i hi
    exact hquant _ (hfit.investigations i hi)
  · exact (hscoped.sum_terms hsound).trans hspent
  · rw [List.map_map]
    exact sum_classTotal.trans hspent
  · intro id a ha
    obtain rfl := allocation_id ha
    exact ⟨hscoped.countP_queried ha, hscoped.countP_terms ha⟩

/-- A Run on an external build: its Investigation has spent what the project has. -/
theorem usage_adds_up_run :
    let c := (scripted {} db (run .external)).db
    ∃ (u : ProjectUsage) (own : Uuid → ℚ), usage c "kernel" = .ok u ∧ usageForInvestigation c 30 = .ok (own 30) ∧
      own 30 + u.sharedKcu + 0 = u.spentKcu ∧ backsRun c 10 = true ∧
      (queried c "kernel").countP (·.counts c "kernel" "kernel" 10) = 1 := by
  intro c
  have hb : c.1.budgets.get "kernel" = some ⟨"kernel", 100, 5 / 4⟩ := by decide +kernel
  have hfit : TotalsFit c "kernel" := ⟨by decide +kernel, by decide +kernel, by decide +kernel, 395 / 4, by decide +kernel⟩
  obtain ⟨u, own, hu, hown, hsum, -, hcount⟩ := usage_adds_up (reachable_scripted fresh _) hb hfit
  have hin : investigationsIn c "kernel" = [30] := by decide +kernel
  have hbare : bareKcu c "kernel" = 0 := by decide +kernel
  have hruns : backsRun c 10 = true := by decide +kernel
  refine ⟨u, own, hu, hown 30 (hin ▸ mem_cons_self), ?_, hruns, ?_⟩
  · rw [hin, hbare] at hsum
    simpa using hsum
  · have hproject : (c.1.allocations.get 10).map (·.project) = some "kernel" := by decide +kernel
    obtain ⟨a, ha, hp⟩ := Option.map_eq_some_iff.mp hproject
    have hone := (hcount 10 a ha).1
    rw [hp] at hone
    rw [hone, if_pos ⟨rfl, hruns⟩]
end Kdive.Platform
