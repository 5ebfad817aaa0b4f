import Kdive.Lib.Machine
import Mathlib.Data.List.Basic

/-! # Console collectors: `console/collector.py`, `console_hosting.py` and their reaping

A collector buffers what it reads from a console and uploads it in numbered parts, each with the last bytes of the one
before held back for redaction. Both are taken out of the collector before the upload, which may fail, and the registry
forgets a collector before it is finalized: bytes of a failed `put_part` are gone and nobody tries again to finalize
(`failed_part_lost`). Where the store answers the uploads of the pumps, and a reap at every operation, every byte is
kept, in order, the collector stays registered until it is finalized, and the next reap stores everything
(`console_kept`).
-/

namespace Kdive.Console
open Lib List

abbrev Bytes := List UInt8

/-- The thresholds, and `_CRASH_MARKER.search`. -/
structure Config where
  rotationThreshold : Nat
  seamOverlap : Nat
  crashed : Bytes → Bool

/-- The operations of the store that can fail. -/
inductive Operation where
  | lists | puts | reads | writes
  deriving DecidableEq

/-- The parts of a System, by index. A part is given by the bytes it is the redaction of. -/
structure Parts where
  list : List (Nat × Bytes)
  sorted : list.Pairwise (·.1 < ·.1)

namespace Parts
variable (parts : Parts)

/-- `max(existing) + 1`, or 0. -/
def next : Nat := parts.list.foldr (fun part n => max (part.1 + 1) n) 0

def put (index : Nat) (data : Bytes) : Parts where
  list := parts.list.filter (·.1 < index) ++ (index, data) :: parts.list.filter (index < ·.1)
  sorted := by
    refine pairwise_append.mpr ⟨parts.sorted.filter _, pairwise_cons.mpr ⟨?_, parts.sorted.filter _⟩, ?_⟩
    · simp +contextual
    · intro a ha b hb
      have hlt : a.1 < index := by simpa using (mem_filter.mp ha).2
      rcases mem_cons.mp hb with rfl | hb
      · exact hlt
      · exact Nat.lt_trans hlt (by simpa using (mem_filter.mp hb).2)

/-- The parts one after the other. -/
def assembled : Bytes := (parts.list.map (·.2)).flatten

variable {parts}

theorem lt_next {part : Nat × Bytes} (h : part ∈ parts.list) : part.1 < parts.next := by
  unfold next
  generalize parts.list = l at h
  induction l with
  | nil => cases h
  | cons other l ih =>
    rw [foldr_cons]
    rcases mem_cons.mp h with rfl | h
    · omega
    · have := ih h
      omega

theorem assembled_put {index : Nat} (data : Bytes) (h : ∀ part ∈ parts.list, part.1 < index) :
    (parts.put index data).assembled = parts.assembled ++ data ∧
      ∀ part ∈ (parts.put index data).list, part.1 < index + 1 := by
  have hbefore : parts.list.filter (·.1 < index) = parts.list := filter_eq_self.mpr (by simpa using h)
  have hafter : parts.list.filter (index < ·.1) = [] :=
    filter_eq_nil_iff.mpr fun part hpart => by simpa using Nat.le_of_lt (h part hpart)
  have hlist : (parts.put index data).list = parts.list ++ [(index, data)] := by
    rw [← hafter]
    exact congrArg (· ++ _) hbefore
  refine ⟨by simp [assembled, hlist], fun part hpart => ?_⟩
  rw [hlist] at hpart
  rcases mem_append.mp hpart with hpart | hpart
  · exact Nat.lt_succ_of_lt (h part hpart)
  · simp [mem_singleton.mp hpart]
end Parts

/-- One System: its collector, and what the store has of it. -/
structure State where
  buffer : Bytes
  carry : Bytes
  nextIndex : Option Nat
  finalized : Bool
  registered : Bool
  parts : Parts
  artifact : Option Bytes
  /-- All that came out of the console. -/
  received : Bytes

namespace State
variable (s : State)

/-- `put_part(…, _take_index(), _redact(data))`: whether it succeeds. The index is used up in any case. -/
def upload (data : Bytes) (fails : Option Operation) : State × Bool :=
  if s.nextIndex = none ∧ fails = some .lists then (s, false)
  else
    let index := s.nextIndex.getD s.parts.next
    let s := { s with nextIndex := some (index + 1) }
    if fails = some .puts then (s, false) else ({ s with parts := s.parts.put index data }, true)

def flushTail (fails : Option Operation) : State × Bool :=
  let data := s.carry ++ s.buffer
  let s := { s with buffer := [], carry := [] }
  if data = [] then (s, true) else s.upload data fails

def rotate (cfg : Config) (fails : Option Operation) : State × Bool :=
  let data := s.carry ++ s.buffer
  let split := data.length - cfg.seamOverlap
  let s := { s with buffer := [], carry := data.drop split }
  if split = 0 then (s, true) else s.upload (data.take split) fails

/-- `pump_once`; a stream that has dropped gives no chunk. -/
def pump (cfg : Config) (chunk : Bytes) (fails : Option Operation) : State × Bool :=
  if s.finalized = true ∨ chunk = [] then (s, true) else
  let s := { s with buffer := s.buffer ++ chunk, received := s.received ++ chunk }
  if cfg.crashed s.buffer then s.flushTail fails
  else if cfg.rotationThreshold ≤ s.buffer.length then s.rotate cfg fails
  else (s, true)

/-- Also after the upload it may fail, and is then not `finalized`. -/
def finalize (fails : Option Operation) : State × Bool :=
  if s.finalized then (s, true) else
  match s.flushTail fails with
  | (s, false) => (s, false)
  | (s, true) =>
    if fails = some .lists ∨ fails = some .reads ∧ s.parts.list ≠ [] ∨ fails = some .writes then (s, true)
    else ({ s with artifact := some s.parts.assembled, finalized := true }, true)
end State

inductive Move where
  | pumps (chunk : Bytes) (fails : Option Operation)
  /-- `finalize_and_drop_async`, from `reap_console_collectors`, once the System is gone. -/
  | reaps (fails : Option Operation)

def State.run (cfg : Config) (s : State) : Move → State × Bool
  | .pumps chunk fails => s.pump cfg chunk fails
  | .reaps fails =>
    -- Forgotten, whether or not it is finalized.
    if s.registered then ({ (s.finalize fails).1 with registered := false }, (s.finalize fails).2) else (s, true)

/-- A collector that is registered, over the parts earlier ones have left. -/
abbrev console (cfg : Config) (prior : Parts) : Machine where
  State := State
  Move := Move
  init := fun s => s = ⟨[], [], none, false, true, prior, none, []⟩
  step := fun s m => some (s.run cfg m).1

/-- What the store is to answer: the upload of a pump, with the listing that gives the first index; and every operation
    of a reap. -/
def answered (s : State) : Move → Bool
  | .pumps _ fails => fails ≠ some .puts && (s.nextIndex.isSome || fails ≠ some .lists)
  | .reaps fails => !s.registered || fails = none

/-- What is stored, and what the collector has, is what has been received. -/
structure Kept (prior : Bytes) (s : State) : Prop where
  bytes : s.parts.assembled ++ s.carry ++ s.buffer = prior ++ s.received
  index : ∀ next, s.nextIndex = some next → ∀ part ∈ s.parts.list, part.1 < next

variable {cfg : Config} {prior : Bytes} {s s' : State} {fails : Option Operation}

section
variable (h : Kept prior s)
include h

/-- What an upload that succeeds has taken out of the collector is in the store. -/
theorem Kept.upload {data rest : Bytes} (hsplit : s.carry ++ s.buffer = data ++ rest)
    (hup : { s with buffer := [], carry := rest }.upload data fails = (s', true)) :
    Kept prior s' ∧ s'.buffer = [] ∧ s'.carry = rest := by
  simp only [State.upload] at hup
  split at hup
  · cases hup
  · split at hup
    · cases hup
    · cases hup
      have hlt : ∀ part ∈ s.parts.list, part.1 < s.nextIndex.getD s.parts.next := by
        cases hnext : s.nextIndex with
        | none => exact fun part hpart => Parts.lt_next hpart
        | some next => exact h.index next hnext
      obtain ⟨hassembled, hbound⟩ := Parts.assembled_put data hlt
      refine ⟨⟨?_, fun n hn => Option.some.inj hn ▸ hbound⟩, rfl, rfl⟩
      rw [hassembled, append_nil, append_assoc, ← hsplit, ← append_assoc, h.bytes]

theorem Kept.flushTail (hup : s.flushTail fails = (s', true)) : Kept prior s' ∧ s'.buffer = [] ∧ s'.carry = [] := by
  simp only [State.flushTail] at hup
  split at hup
  · rename_i hnil
    cases hup
    refine ⟨⟨?_, h.index⟩, rfl, rfl⟩
    rw [← h.bytes, append_assoc s.parts.assembled s.carry, hnil]
    simp
  · exact h.upload (by simp) hup

theorem Kept.rotate (hup : s.rotate cfg fails = (s', true)) : Kept prior s' := by
  simp only [State.rotate] at hup
  split at hup
  · rename_i hzero
    cases hup
    refine ⟨?_, h.index⟩
    rw [← h.bytes, hzero]
    simp
  · exact (h.upload (take_append_drop _ _).symm hup).1

theorem Kept.pump {chunk : Bytes} (hup : s.pump cfg chunk fails = (s', true)) : Kept prior s' := by
  have hread : Kept prior { s with buffer := s.buffer ++ chunk, received := s.received ++ chunk } :=
    ⟨by rw [← append_assoc, h.bytes, append_assoc], h.index⟩
  simp only [State.pump] at hup
  split at hup
  · cases hup
    exact h
  · split at hup
    · exact (hread.flushTail hup).1
    · split at hup
      · exact hread.rotate hup
      · cases hup
        exact hread
end

theorem upload_ok {data : Bytes} (hput : fails ≠ some .puts) (hlist : s.nextIndex = none → fails ≠ some .lists) :
    (s.upload data fails).2 = true := by
  have hnot : ¬ (s.nextIndex = none ∧ fails = some .lists) := fun h => hlist h.1 h.2
  simp [State.upload, hnot, hput]

theorem flushTail_ok (hput : fails ≠ some .puts) (hlist : s.nextIndex = none → fails ≠ some .lists) :
    (s.flushTail fails).2 = true := by
  simp only [State.flushTail]
  split
  · rfl
  · exact upload_ok hput hlist

theorem pump_ok {chunk : Bytes} (h : answered s (.pumps chunk fails) = true) : (s.pump cfg chunk fails).2 = true := by
  have h : fails ≠ some .puts ∧ (s.nextIndex = none → fails ≠ some .lists) := by
    cases hnext : s.nextIndex <;> simpa [answered, hnext] using h
  simp only [State.pump, State.rotate]
  repeat' split
  all_goals first | rfl | exact flushTail_ok h.1 h.2 | exact upload_ok h.1 h.2

theorem flushTail_frame (s : State) (fails : Option Operation) : (s.flushTail fails).1.finalized = s.finalized ∧
    (s.flushTail fails).1.registered = s.registered ∧ (s.flushTail fails).1.received = s.received := by
  simp only [State.flushTail, State.upload]
  repeat' split
  all_goals exact ⟨rfl, rfl, rfl⟩

theorem pump_frame (cfg : Config) (s : State) (chunk : Bytes) (fails : Option Operation) :
    (s.pump cfg chunk fails).1.finalized = s.finalized ∧ (s.pump cfg chunk fails).1.registered = s.registered := by
  simp only [State.pump, State.rotate, State.upload]
  repeat' split
  all_goals first | exact ⟨rfl, rfl⟩ | exact ⟨(flushTail_frame _ _).1, (flushTail_frame _ _).2.1⟩

/-- With a store that answers, all that has been received is in the artifact. -/
theorem Kept.finalize (h : Kept prior s) (hopen : s.finalized = false) : Kept prior (s.finalize none).1 ∧
    (s.finalize none).1.finalized = true ∧ (s.finalize none).1.artifact = some (prior ++ s.received) ∧
    (s.finalize none).1.received = s.received := by
  have hok : (s.flushTail none).2 = true := flushTail_ok nofun fun _ => nofun
  obtain ⟨hkept, hbuffer, hcarry⟩ := h.flushTail (Prod.ext rfl hok)
  have hreceived := (flushTail_frame s none).2.2
  have hrun : (s.finalize none).1 =
      { (s.flushTail none).1 with artifact := some (s.flushTail none).1.parts.assembled, finalized := true } := by
    simp only [State.finalize, hopen, Bool.false_eq_true, if_false]
    generalize s.flushTail none = r at hok
    obtain ⟨s₁, b⟩ := r
    cases hok
    simp
  rw [hrun]
  refine ⟨⟨hkept.bytes, hkept.index⟩, rfl, ?_, hreceived⟩
  have hbytes := hkept.bytes
  rw [hbuffer, hcarry, append_nil, append_nil, hreceived] at hbytes
  exact congrArg some hbytes

/-- What holds all along: the bytes are kept, a collector that is not finalized is registered, and what is finalized has
    its artifact. -/
structure Hosted (prior : Bytes) (s : State) : Prop extends Kept prior s where
  registered : s.finalized = false → s.registered = true
  artifact : s.finalized = true → s.artifact = some (prior ++ s.received)

theorem Hosted.pump {chunk : Bytes} (h : Hosted prior s) (hok : answered s (.pumps chunk fails) = true) :
    Hosted prior (s.pump cfg chunk fails).1 := by
  obtain ⟨hfinalized, hregistered⟩ := pump_frame cfg s chunk fails
  have hkept : Kept prior (s.pump cfg chunk fails).1 := h.toKept.pump (Prod.ext rfl (pump_ok hok))
  refine ⟨hkept, fun hopen => ?_, fun hdone => ?_⟩
  · rw [hregistered]
    exact h.registered (hfinalized ▸ hopen)
  · rw [hfinalized] at hdone
    simpa [State.pump, hdone] using h.artifact hdone

/-- A reap that the store answers leaves nothing to be done. -/
theorem Hosted.reap (h : Hosted prior s) : Hosted prior (s.run cfg (.reaps none)).1 ∧
    (s.run cfg (.reaps none)).1.finalized = true ∧
    (s.run cfg (.reaps none)).1.artifact = some (prior ++ s.received) := by
  cases hfinalized : s.finalized with
  | true =>
    have hsame : (s.run cfg (.reaps none)).1 = s ∨ (s.run cfg (.reaps none)).1 = { s with registered := false } := by
      simp only [State.run, State.finalize, hfinalized, if_true]
      split
      · exact .inr rfl
      · exact .inl rfl
    have hartifact := h.artifact hfinalized
    rcases hsame with hsame | hsame
    · rw [hsame]
      exact ⟨h, hfinalized, hartifact⟩
    · rw [hsame]
      exact ⟨⟨⟨h.bytes, h.index⟩, by simp [hfinalized], fun _ => hartifact⟩, hfinalized, hartifact⟩
  | false =>
    obtain ⟨hkept, hdone, hartifact, hreceived⟩ := h.toKept.finalize hfinalized
    simp only [State.run, h.registered hfinalized, if_true]
    exact ⟨⟨⟨hkept.bytes, hkept.index⟩, by simp [hdone], fun _ => by rw [hartifact, hreceived]⟩, hdone, hartifact⟩

/-- **Where the store answers, every byte is kept**: what has come out of the console is in the parts, in order, or still
    with the collector, which is registered until it is finalized; and with the next reap all of it is in the
    artifact. -/
theorem console_kept {prior : Parts} (h : (console cfg prior).ReachBy (fun s m => answered s m = true) s) :
    s.parts.assembled ++ s.carry ++ s.buffer = prior.assembled ++ s.received ∧
      (s.finalized = false → s.registered = true) ∧ (s.run cfg (.reaps none)).1.finalized = true ∧
      (s.run cfg (.reaps none)).1.artifact = some (prior.assembled ++ s.received) := by
  have hI : Hosted prior.assembled s := by
    refine h.always (I := fun s : State => Hosted prior.assembled s) ?_ ?_
    · rintro s rfl
      exact ⟨⟨by simp, by simp⟩, fun _ => rfl, by simp⟩
    · intro s m s' _ hok hhosted hs
      cases hs
      cases m with
      | pumps chunk fails => exact hhosted.pump hok
      | reaps fails =>
        by_cases hregistered : s.registered = true
        · obtain rfl : fails = none := by simpa [answered, hregistered] using hok
          exact hhosted.reap.1
        · simpa [State.run, hregistered] using hhosted
  exact ⟨hI.bytes, hI.registered, hI.reap.2⟩

/-- Parts of four bytes and more, of which one is held back. -/
def demo : Config := ⟨4, 1, fun _ => false⟩

def fresh : State := ⟨[], [], none, false, true, ⟨[], .nil⟩, none, []⟩

/-- A listing that fails is of no matter once the first index is known. -/
theorem console_kept_rotated :
    let s := (console demo fresh.parts).runTo fresh [.pumps [1, 2, 3, 4, 5] none, .pumps [6, 7, 8, 9] (some .lists)]
    (s.run demo (.reaps none)).1.artifact = some [1, 2, 3, 4, 5, 6, 7, 8, 9] := by
  intro s
  have h : (console demo fresh.parts).ReachBy (fun s m => answered s m = true) s :=
    (Machine.ReachBy.init rfl).leads (Machine.leads_runTo (by decide +kernel))
  exact (console_kept h).2.2.2.trans (by decide +kernel)

/-- A part that fails once is lost, and a finalize that fails is not tried again. -/
theorem failed_part_lost :
    ((console demo fresh.parts).runTo fresh [.pumps [1, 2, 3, 4, 5] (some .puts), .reaps none]).artifact = some [5] ∧
    ((console demo fresh.parts).runTo fresh [.pumps [1] none, .reaps (some .writes), .reaps none]).artifact = none ∧
    ∀ ms, (console demo fresh.parts).Reach ((console demo fresh.parts).runTo fresh ms) :=
  ⟨by decide +kernel, by decide +kernel, Machine.reach_runTo rfl⟩
end Kdive.Console
