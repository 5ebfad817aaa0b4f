import Kdive.Lib.Keys
import Kdive.Runs.Ledger

/-! # Budgets

The project's lock covers both the check of the budget and the debit, so the check holds in the committed state the
debit is applied to. But `within_budget` subtracts in `Decimal`, at 28 digits, and for a limit with more than the
quantum's four decimals the difference can be rounded up to the estimate (`overspent`). For limits on the quantum's grid
it is exact (`within_limit`).
-/

namespace Kdive
open Lib Rounding List Option Kdive.Action Client

def Solvent (p : String) (c : Db) : Prop :=
  ∃ b, c.budgets.get p = some b ∧ b.spentKcu ≤ b.limitKcu

def Action.Debits (p : String) (a : Action) : Prop :=
  ∃ e, a.entries = [e] ∧ e.project = p ∧ e.eventType = .reserved

/-- What makes the check exact. -/
def OnQuantum (p : String) (c : Db) : Prop :=
  ∀ b, c.budgets.get p = some b → OnGrid kcuQuantum b.limitKcu ∧ OnGrid kcuQuantum b.spentKcu

variable {fixed : String → Prop} {p : String} {c : Db}

theorem Affords.solvent {delta : ℚ} (h : Affords fixed c p delta) (hfixed : fixed p)
    (hpriced : Priced delta) (hquantum : OnQuantum p c) :
    ∃ b, c.budgets.get p = some b ∧ b.spentKcu + delta ≤ b.limitKcu := by
  obtain ⟨b, hb, hcheck⟩ := h
  obtain ⟨remaining, hsub, hle⟩ := hcheck hfixed
  obtain ⟨value, hvalue⟩ := hpriced
  obtain ⟨hlimit, hspent⟩ := hquantum b hb
  exact ⟨b, hb, add_le_of_le_sub hlimit hspent (quantizeKcu_ok hvalue).2 hsub hle⟩

namespace Action
variable {a : Action}

theorem affords_of_debits (h : a.Debits p) (hg : a.guard fixed c) :
    ∃ e, a.entries = [e] ∧ e.project = p ∧ Affords fixed c p e.kcuDelta ∧ Priced e.kcuDelta := by
  obtain ⟨e, he, hp, htype⟩ := h
  refine ⟨e, he, hp, ?_⟩
  cases a with
  | grant | promote | renew =>
    cases he
    exact ⟨hp ▸ hg.budget, hg.priced⟩
  | settle =>
    cases he
    cases htype
  | _ => cases he

/-- **A debit keeps the project within its limit.** -/
theorem solvent_of_debits (h : a.Debits p) (hg : a.guard fixed c) (hfixed : fixed p)
    (hquantum : OnQuantum p c) : Solvent p (a.on c) := by
  obtain ⟨e, he, hp, haffords, hpriced⟩ := affords_of_debits h hg
  obtain ⟨b, hb, hle⟩ := haffords.solvent hfixed hpriced hquantum
  refine ⟨{ b with spentKcu := b.spentKcu + e.kcuDelta }, ?_, hle⟩
  rw [a.get_budgets_writes, onBudget_of_entries he, if_pos hp, hb, map_some]

theorem get_budgets_of_queue (hq : a.ofQueue = true) (h : ¬ a.Debits p) : (a.on c).budgets.get p = c.budgets.get p := by
  rw [a.get_budgets_writes]
  cases a with
  | promote =>
    rw [onBudget_of_entries rfl, if_neg]
    exact fun hp => h ⟨_, rfl, hp, rfl⟩
  | unqueue => rfl
  | _ => cases hq

theorem onQuantum (hg : a.guard fixed c) (hfixed : fixed p) (h : OnQuantum p c) : OnQuantum p (a.on c) := by
  intro b hb
  rw [a.get_budgets_writes] at hb
  rcases a.entries_cases with hnone | ⟨e, he⟩
  · cases a with
    | setBudget b0 =>
      have hne : b0.project ≠ p := fun heq => hg.1 (heq ▸ hfixed)
      simp only [onBudget, Write.onBudget, if_neg hne] at hb
      exact h b hb
    | _ =>
      simp only [onBudget, hnone, foldl_nil] at hb
      exact h b hb
  · rw [onBudget_of_entries he] at hb
    split at hb
    · obtain ⟨old, hold, rfl⟩ := map_eq_some_iff.mp hb
      obtain ⟨hlimit, hspent⟩ := h old hold
      exact ⟨hlimit, hspent.add (onGrid_of_entry hg (he ▸ mem_singleton_self e))⟩
    · exact h b hb
end Action

/-! ## One commit -/

variable {as : List Action}

/-- After a pass that promoted an allocation of the project, however many others it promoted too. -/
theorem solvent_of_queue (hqueue : queueOnly as)
    (hpath : (protocol fixed).Path c as) (hfixed : fixed p) (hquantum : OnQuantum p c)
    (h : Solvent p c ∨ ∃ a ∈ as, a.Debits p) : Solvent p ((protocol fixed).effs as c) := by
  induction as generalizing c with
  | nil =>
    rcases h with h | ⟨a, ha, -⟩
    · exact h
    · cases ha
  | cons a as ih =>
    obtain ⟨hg, hrest⟩ := hpath
    refine ih (fun b hb => hqueue b (mem_cons_of_mem _ hb)) hrest (onQuantum hg hfixed hquantum) ?_
    by_cases hdebits : a.Debits p
    · exact .inl (solvent_of_debits hdebits hg hfixed hquantum)
    · rcases h with ⟨b, hb, hle⟩ | ⟨a', ha', hdebits'⟩
      · refine .inl ⟨b, ?_, hle⟩
        exact (get_budgets_of_queue (hqueue a mem_cons_self) hdebits).trans hb
      · rcases mem_cons.mp ha' with rfl | ha'
        · exact absurd hdebits' hdebits
        · exact .inr ⟨a', ha', hdebits'⟩

theorem solvent_of_batch (hb : isBatch as) (hpath : (protocol fixed).Path c as)
    (hfixed : fixed p) (hquantum : OnQuantum p c) (h : ∃ a ∈ as, a.Debits p) :
    Solvent p ((protocol fixed).effs as c) := by
  rcases hb with hlen | hqueue
  · obtain ⟨a, ha, hdebits⟩ := h
    cases as with
    | nil => cases ha
    | cons a0 as =>
      obtain rfl : as = [] := eq_nil_of_length_eq_zero (by simpa using hlen)
      obtain rfl : a = a0 := mem_singleton.mp ha
      exact solvent_of_debits hdebits hpath.1 hfixed hquantum
  · exact solvent_of_queue hqueue hpath hfixed hquantum (.inr h)

theorem debits_of_insert {e : LedgerEntry} (h : Write.insertLedger e ∈ as.flatMap writes) (hp : e.project = p)
    (htype : e.eventType = .reserved) : ∃ a ∈ as, a.Debits p := by
  obtain ⟨a, ha, hw⟩ := mem_flatMap.mp h
  refine ⟨a, ha, e, ?_, hp, htype⟩
  cases a with
  | grant _ _ _ key | renew _ _ _ _ key =>
    cases key <;> simp_all [writes, Posting.writes, keyWrites, entries]
  | enqueue a key => cases key <;> simp [writes, keyWrites] at hw
  | settle row closing started =>
    cases closing <;> cases started <;>
      simp_all [writes, Posting.writes, stampEnded, entries]
  | ready system domainName stamp => cases stamp <;> simp [writes] at hw
  | _ => simp_all [writes, Posting.writes, entries]

/-! ## Runs -/

def limitFixed (p : String) (_s : Sys store) (ch : Choice store Client) : Prop :=
  ∀ ctx limit, ch ≠ .spawn (.setBudget ctx p limit)

theorem safe_of_limitFixed {cfg : Config} {s : Sys store} {client : Client}
    (h : limitFixed p s (.spawn client)) : ClientSafe (protocol (· = p)) (client.prog cfg) := by
  refine client_safe ?_
  cases client with
  | setBudget ctx project limit => exact fun heq => h ctx limit (heq ▸ rfl)
  | _ => trivial

theorem onGrid_spentInLedger {ledger : List LedgerEntry} (h : ∀ e ∈ ledger, OnGrid kcuQuantum e.kcuDelta) (p : String) :
    OnGrid kcuQuantum (spentInLedger ledger p) :=
  .sum_filter fun e he _ => h e he

/-- **For a limit on the quantum's grid that nobody changes**: after every commit that posts a
    reservation of the project, a grant, a promotion or a renewal, it is within the limit; who has a
    debit of the project pending holds its lock; and while a session holds the lock no step of the
    others changes the project's ledger rows or its total, so nothing comes between a check made under
    the lock and the debit. -/
theorem within_limit {cfg : Config} {s s' : Sys store} {ch : Choice store Client}
    (h : ReachableBy cfg (limitFixed p) s) (hok : limitFixed p s ch)
    (hgrid : ∀ b, s.db.budgets.get p = some b → OnGrid kcuQuantum b.limitKcu)
    (hs : s.step (prog cfg) ch = some s') :
    (∀ e, Write.insertLedger e ∈ s.commits ch → e.project = p → e.eventType = .reserved →
      ∃ b, s'.db.budgets.get p = some b ∧ b.spentKcu ≤ b.limitKcu) ∧
    (∀ q ∈ s.sess, ∀ e, Write.insertLedger e ∈ q.conn.log → e.project = p → .project p ∈ q.conn.locks) ∧
    (∀ i q, s.sess[i]? = some q → .project p ∈ q.conn.locks → (∀ inp, ch ≠ .act i inp) →
      s'.db.ledger.filter (·.project = p) = s.db.ledger.filter (·.project = p) ∧
      (s'.db.budgets.get p).map (·.spentKcu) = (s.db.budgets.get p).map (·.spentKcu)) := by
  have hholds : Holds (protocol (· = p)) s :=
    Sys.Reach.holds (fun _ _ hspawn => safe_of_limitFixed hspawn) (fun _ => Fresh.wellFormed) h
  have hquantum : OnQuantum p s.db := by
    intro b hb
    refine ⟨hgrid b hb, ?_⟩
    rw [h.conserved p b hb]
    exact onGrid_spentInLedger h.onGrid p
  refine ⟨?_, ?_, ?_⟩
  · intro e he hp htype
    obtain ⟨-, hdb, as, hb, hws, hpath⟩ :=
      hholds.step (fun c hc => safe_of_limitFixed (hc ▸ hok)) hs
    rw [hws] at he
    have hsolvent := solvent_of_batch hb hpath rfl hquantum (debits_of_insert he hp htype)
    rwa [← Protocol.applyAll_flatMap, ← hws, ← hdb] at hsolvent
  · intro q hq e he hp
    obtain ⟨i, hi⟩ := mem_iff_getElem?.mp hq
    exact (hholds.good i q hi).log _ he (by simp [Write.keys, hp])
  · intro i q hq hlock hother
    have hrely : Rely (· = p) q.conn.locks s.db s'.db := hholds.rely_others hs hq hother
    refine ⟨hrely.ledger p hlock, ?_⟩
    cases hb : s.db.budgets.get p with
    | some b =>
      obtain ⟨b', hb', hspent⟩ := (hrely.budgets p).spent hlock b hb
      rw [hb', map_some, map_some, hspent]
    | none =>
      -- a row that is not there has no limit, and nobody sets one
      have hlimit := (hrely.budgets p).limit rfl
      rw [hb, map_none, map_eq_none_iff] at hlimit
      rw [hlimit]

def requesting (n : Nat) : Script :=
  [.start (Lab.oneHour "kernel" (some 1) [] .deny), .go 0 { uuid := 10 } n]

theorem reachable_requesting {db : Db} (h : Fresh db) (n : Nat) : ReachableBy {} (limitFixed "kernel")
      (scriptedBy {} (fun _ ch => ch matches .spawn (.request ..) | .act .. | .tick _) db (requesting n)) := by
  refine reachableBy_scripted ?_ h _
  intro s ch hallowed ctx limit hch
  subst hch
  cases hallowed

theorem within_limit_granted : ∃ s s' : Sys store, ∃ e : LedgerEntry,
    s.step (prog {}) (.act 0 (.go true)) = some s' ∧
    Write.insertLedger e ∈ s.commits (.act 0 (.go true) : Choice store Client) ∧
    e.project = "kernel" ∧ e.eventType = .reserved ∧
    ∃ b, s'.db.budgets.get "kernel" = some b ∧ b.spentKcu ≤ b.limitKcu := by
  have hreach := reachable_requesting Lab.fresh 20
  generalize hsdef : scriptedBy {} _ Lab.db (requesting 20) = s at hreach
  have hstep : ∃ s', s.step (prog {}) (.act 0 (.go true)) = some s' := by
    rw [← hsdef]
    exact isSome_iff_exists.mp (by decide +kernel)
  obtain ⟨s', hs'⟩ := hstep
  have hposts : ∃ e, Write.insertLedger e ∈ s.commits (.act 0 (.go true) : Choice store Client) ∧
      e.project = "kernel" ∧ e.eventType = .reserved := by
    rw [← hsdef]
    exact ⟨⟨10, 0, "kernel", 10, some 1, "local", .reserved, 5 / 4⟩, by decide +kernel, rfl, rfl⟩
  obtain ⟨e, he, hp, htype⟩ := hposts
  have hgrid : ∀ b, s.db.budgets.get "kernel" = some b → OnGrid kcuQuantum b.limitKcu := by
    intro b hb
    have hlimit : s.db.budgets.get "kernel" = some ⟨"kernel", 100, 0⟩ := by
      rw [← hsdef]
      decide +kernel
    rw [hlimit, some.injEq] at hb
    rw [← hb]
    exact ⟨1000000, by norm_num [kcuQuantum]⟩
  have hlimit := within_limit hreach (by intro ctx limit h; cases h) hgrid hs'
  exact ⟨s, s', e, hs', he, hp, htype, hlimit.1 e he hp htype⟩

/-- A limit just below 1.25 kcu, in more digits than `Decimal` keeps. -/
def tightDb : Db :=
  Lab.setUp Lab.db.resources ⟨[⟨"kernel", 12499999999999999999999999999999 / 10 ^ 31, 0⟩], by decide⟩ Lab.db.quotas
    Lab.db.costClassCoefficients

theorem tightDb_fresh : Fresh tightDb :=
  .of_rows rfl rfl rfl (by decide) (by decide) (by decide)

/-- The check rounds to 28 digits, and more is reserved than the limit. -/
theorem overspent : ∃ s s' : Sys store, ∃ e : LedgerEntry, ∃ b : Budget, ReachableBy {} (limitFixed "kernel") s ∧
    s.step (prog {}) (.act 0 (.go true)) = some s' ∧
    Write.insertLedger e ∈ s.commits (.act 0 (.go true) : Choice store Client) ∧
    e.project = "kernel" ∧ e.eventType = .reserved ∧
    s'.db.budgets.get "kernel" = some b ∧ b.limitKcu < b.spentKcu := by
  have hreach := reachable_requesting tightDb_fresh 20
  generalize hsdef : scriptedBy {} _ tightDb (requesting 20) = s at hreach
  have hstep : ∃ s', s.step (prog {}) (.act 0 (.go true)) = some s' ∧
      s'.db.budgets.get "kernel" = some ⟨"kernel", 12499999999999999999999999999999 / 10 ^ 31, 5 / 4⟩ := by
    rw [← hsdef]
    exact map_eq_some_iff.mp (by decide +kernel)
  obtain ⟨s', hs', hb⟩ := hstep
  have hposts : Write.insertLedger ⟨10, 0, "kernel", 10, some 1, "local", .reserved, 5 / 4⟩ ∈
      s.commits (.act 0 (.go true) : Choice store Client) := by
    rw [← hsdef]
    decide +kernel
  exact ⟨s, s', _, _, hreach, hs', hposts, rfl, rfl, hb, by norm_num⟩
end Kdive
