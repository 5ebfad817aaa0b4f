import Kdive.Domain.Errors
import Mathlib.Data.List.Perm.Subperm
import Mathlib.Data.List.Sort

/-! # Records of gdb/MI, and reading target memory

`read_memory` decodes the `contents` of the reply's segments one after the other and checks the total length only,
not their addresses. For segments in ascending order in the requested range that is enough (`readMemory_covers`):
the addresses are strictly increasing within `byte_count` of them.
-/

namespace Kdive.Debug
open List

/-- What `pygdbmi` parses a value into. -/
inductive Value where
  | str (s : String)
  | list (l : List Value)
  | dict (d : List (String × Value))

abbrev Dict := List (String × Value)

/-- `MiRecord`; its token and its stream are not looked at. -/
structure MiRecord where
  type : String
  message : Option String := none
  payload : Option Value := none

namespace MiRecord
def firstResult (records : List MiRecord) : Option MiRecord := records.find? (·.type = "result")
end MiRecord

def payloadDict : Option Value → Dict
  | some (.dict d) => d
  | _ => []

def dictRows : Option Value → List Dict
  | some (.list l) => l.filterMap fun | .dict d => some d | _ => none
  | _ => []

def resultPayloadDict (records : List MiRecord) : Dict :=
  payloadDict ((MiRecord.firstResult records).bind (·.payload))

def memorySegments (records : List MiRecord) : List Dict :=
  dictRows ((resultPayloadDict records).lookup "memory")

def isError (records : List MiRecord) : Bool :=
  ((MiRecord.firstResult records).bind (·.message)) = some "error"

/-- `execute_mi_command`, given what the controller's `write` returns or raises. -/
def executeMiCommand (write : String → Except Err (List MiRecord)) (command : String) : Except Err (List MiRecord) :=
  (write command).bind fun records =>
    if isError records then
      .error (.of [.text "gdb/MI command failed: ", .text command] .debugAttachFailure [("command", .text command)])
    else .ok records

/-! ## `read_memory` -/

def hexDigit (c : Char) : Option Nat :=
  if '0' ≤ c ∧ c ≤ '9' then some (c.toNat - '0'.toNat)
  else if 'a' ≤ c ∧ c ≤ 'f' then some (c.toNat - 'a'.toNat + 10)
  else if 'A' ≤ c ∧ c ≤ 'F' then some (c.toNat - 'A'.toNat + 10)
  else none

/-- `bytes.fromhex`: two digits for each byte, ASCII white space between the bytes. -/
def fromHex : List Char → Option (List UInt8)
  | [] => some []
  | [c] => if c ∈ [' ', '\t', '\n', '\r', '\x0b', '\x0c'] then some [] else none
  | c :: d :: cs =>
    if c ∈ [' ', '\t', '\n', '\r', '\x0b', '\x0c'] then fromHex (d :: cs)
    else do
      let high ← hexDigit c
      let low ← hexDigit d
      let rest ← fromHex cs
      some (UInt8.ofNat (16 * high + low) :: rest)

/-- `bytes.fromhex(str(seg.get("contents", "")))`. -/
def contents (segment : Dict) : Option (List UInt8) :=
  match segment.lookup "contents" with
  | none => some []
  | some (.str s) => fromHex s.toList
  -- The text of a list or of a dict begins with a bracket, which is no digit.
  | some _ => none

def maxMemoryReadBytes : Int := 4096

def readCommand (address byteCount : Int) : String :=
  "-data-read-memory-bytes 0x" ++ String.ofList (Nat.toDigits 16 address.toNat) ++ " " ++ toString byteCount

/-- The end of `read_memory`: the segments decoded, and their total length checked. -/
def joinSegments (address byteCount : Int) (segments : List Dict) : Except Err (List UInt8) :=
  match segments.mapM contents with
  | none => .error (.of [.text "gdb/MI returned non-hex memory contents"] .debugAttachFailure
      [("code", .text "bad_memory_contents")])
  | some blobs =>
    if blobs.flatten.length ≠ byteCount then
      .error (.of [.text "gdb/MI returned fewer memory bytes than requested"] .debugAttachFailure
        [("code", .text "short_memory_read"), ("address", .int address), ("requested", .int byteCount),
          ("actual", .int blobs.flatten.length)])
    else .ok blobs.flatten

def readMemory (write : String → Except Err (List MiRecord)) (address byteCount : Int) : Except Err (List UInt8) :=
  if address < 0 ∨ address > 0xFFFFFFFFFFFFFFFF then
    .error (.configuration [.text "address out of range"] [("code", .text "bad_read_range"), ("address", .int address)])
  else if byteCount < 1 ∨ byteCount > maxMemoryReadBytes then
    .error (.configuration [.text "byte_count must be between 1 and ", .int maxMemoryReadBytes]
      [("code", .text "bad_read_range"), ("byte_count", .int byteCount)])
  else (executeMiCommand write (readCommand address byteCount)).bind fun records =>
    joinSegments address byteCount (memorySegments records)

/-! ## Replies that tell the truth -/

def beginOf (segment : Dict) : Option Nat :=
  match segment.lookup "begin" with
  | some (.str s) =>
    match s.toList with
    | '0' :: 'x' :: digits => digits.foldlM (fun n c => (hexDigit c).map (16 * n + ·)) 0
    | _ => none
  | _ => none

def addresses (segment : Dict) : List Nat :=
  match beginOf segment, contents segment with
  | some b, some bytes => range' b bytes.length
  | _, _ => []

/-- A reply to the reading of `byteCount` bytes at `address` in the memory `mem`: its segments are disjoint,
    ascending and within the range, and their contents are those of the memory. An `^error` has none. -/
structure Faithful (mem : Nat → UInt8) (address byteCount : Nat) (reply : List MiRecord) : Prop where
  correct : ∀ segment ∈ memorySegments reply, ∃ b bytes, beginOf segment = some b ∧
    contents segment = some bytes ∧ bytes = (range' b bytes.length).map mem
  ascending : (memorySegments reply).Pairwise fun s t => ∀ a ∈ addresses s, ∀ b ∈ addresses t, a < b
  contained : ∀ segment ∈ memorySegments reply, ∀ a ∈ addresses segment, address ≤ a ∧ a < address + byteCount
  error : isError reply = true → memorySegments reply = []

def Covers (address byteCount : Nat) (reply : List MiRecord) : Prop :=
  ∀ a, address ≤ a → a < address + byteCount → ∃ segment ∈ memorySegments reply, a ∈ addresses segment

section
variable {mem : Nat → UInt8} {address byteCount : Nat} {reply : List MiRecord}

theorem blobs_of_correct {segments : List Dict}
    (h : ∀ segment ∈ segments, ∃ b bytes, beginOf segment = some b ∧ contents segment = some bytes ∧
      bytes = (range' b bytes.length).map mem) : ∃ blobs, segments.mapM contents = some blobs ∧
      blobs.flatten = (segments.flatMap addresses).map mem := by
  induction segments with
  | nil => exact ⟨[], rfl, rfl⟩
  | cons segment segments ih =>
    obtain ⟨b, bytes, hb, hc, hm⟩ := h segment mem_cons_self
    obtain ⟨blobs, hblobs, hflat⟩ := ih fun s hs => h s (mem_cons_of_mem _ hs)
    have haddr : addresses segment = range' b bytes.length := by simp [addresses, hb, hc]
    refine ⟨bytes :: blobs, by simp [mapM_cons, hc, hblobs], ?_⟩
    rw [flatten_cons, hflat, flatMap_cons, map_append, haddr, ← hm]

variable (h : Faithful mem address byteCount reply)
include h

theorem Faithful.sorted : ((memorySegments reply).flatMap addresses).Pairwise (· < ·) := by
  refine pairwise_flatMap.mpr ⟨fun segment _ => ?_, h.ascending⟩
  unfold addresses
  split
  · exact pairwise_lt_range'
  · exact List.Pairwise.nil

theorem Faithful.addresses_eq
    (hall : ((memorySegments reply).flatMap addresses).length = byteCount ∨ Covers address byteCount reply) :
    (memorySegments reply).flatMap addresses = range' address byteCount := by
  have hrange : (range' address byteCount).Pairwise (· < ·) := pairwise_lt_range'
  have hin : (memorySegments reply).flatMap addresses ⊆ range' address byteCount := by
    intro a ha
    obtain ⟨segment, hs, ha⟩ := mem_flatMap.mp ha
    exact mem_range'_1.mpr (h.contained segment hs a ha)
  have hsub := h.sorted.nodup.subperm hin
  have hperm : ((memorySegments reply).flatMap addresses).Perm (range' address byteCount) := by
    rcases hall with hlen | hcovers
    · exact hsub.perm_of_length_le (by rw [hlen, length_range'])
    · refine hsub.antisymm (hrange.nodup.subperm fun a ha => ?_)
      obtain ⟨hlo, hhi⟩ := mem_range'_1.mp ha
      exact mem_flatMap.mpr (hcovers a hlo hhi)
  exact hperm.eq_of_pairwise (fun a b _ _ hab hba => (lt_asymm hab hba).elim) h.sorted hrange

theorem Faithful.length_iff :
    ((memorySegments reply).flatMap addresses).length = byteCount ↔ Covers address byteCount reply := by
  constructor
  · intro hlen a hlo hhi
    have ha : a ∈ (memorySegments reply).flatMap addresses := by
      rw [h.addresses_eq (.inl hlen)]
      exact mem_range'_1.mpr ⟨hlo, hhi⟩
    exact mem_flatMap.mp ha
  · intro hcovers
    rw [h.addresses_eq (.inr hcovers), length_range']
end

/-- `read_memory` on a truthful reply: the memory of the range if the segments cover it, and otherwise
    `DEBUG_ATTACH_FAILURE`. -/
theorem readMemory_covers (mem : Nat → UInt8) (address byteCount : Nat) (reply : List MiRecord)
    (write : String → Except Err (List MiRecord)) (hwrite : write (readCommand address byteCount) = .ok reply)
    (haddress : address ≤ 0xFFFFFFFFFFFFFFFF) (hcount : 1 ≤ byteCount ∧ byteCount ≤ 4096)
    (h : Faithful mem address byteCount reply) :
    (Covers address byteCount reply →
      readMemory write address byteCount = .ok ((range' address byteCount).map mem)) ∧
    (¬ Covers address byteCount reply →
      ∃ e : CategorizedError, readMemory write address byteCount = .error (.categorized e) ∧
        e.category = .debugAttachFailure) := by
  obtain ⟨blobs, hblobs, hflat⟩ := blobs_of_correct h.correct
  have hlen : blobs.flatten.length = ((memorySegments reply).flatMap addresses).length := by
    rw [hflat, length_map]
  have hread : readMemory write address byteCount =
      (executeMiCommand write (readCommand address byteCount)).bind fun records =>
        joinSegments address byteCount (memorySegments records) := by
    unfold readMemory
    rw [if_neg (by omega), if_neg (by unfold maxMemoryReadBytes; omega)]
  rw [hread, executeMiCommand, hwrite]
  by_cases herror : isError reply = true
  · refine ⟨fun hcovers => ?_, fun _ => ⟨_, by simp [Except.bind, herror, Err.of]; rfl, rfl⟩⟩
    -- An `^error` has no segment, and so does not cover a range with an address in it.
    obtain ⟨segment, hs, -⟩ := hcovers address le_rfl (by omega)
    rw [h.error herror] at hs
    cases hs
  · simp only [Except.bind, herror, if_false, joinSegments, hblobs, Bool.false_eq_true]
    refine ⟨fun hcovers => ?_, fun hcovers => ?_⟩
    · have hcnt := h.length_iff.mpr hcovers
      rw [if_neg (by omega), hflat, h.addresses_eq (.inr hcovers)]
    · have hne : blobs.flatten.length ≠ byteCount := fun heq => hcovers (h.length_iff.mp (hlen ▸ heq))
      rw [if_pos (by omega)]
      exact ⟨_, rfl, rfl⟩

namespace Lab
def first : Dict := [("begin", .str "0x10"), ("contents", .str "1011")]
def second : Dict := [("begin", .str "0x12"), ("contents", .str "12")]

def reply : List MiRecord :=
  [{ type := "result", message := some "done",
     payload := some (.dict [("memory", .list [.dict first, .dict second])]) }]
end Lab

theorem readMemory_two_segments : readMemory (fun _ => .ok Lab.reply) (16 : Nat) (3 : Nat) = .ok [16, 17, 18] := by
  refine (readMemory_covers UInt8.ofNat 16 3 Lab.reply _ rfl (by decide) (by decide) ⟨?_, ?_, ?_, ?_⟩).1 ?_
  · intro segment hs
    rcases mem_pair.mp hs with rfl | rfl
    · exact ⟨16, [16, 17], by decide, by decide, by decide⟩
    · exact ⟨18, [18], by decide, by decide, by decide⟩
  · exact pairwise_pair.mpr (by decide)
  · intro segment hs
    rcases mem_pair.mp hs with rfl | rfl
    · decide
    · decide
  · intro h
    exact absurd h (by decide)
  · intro a hlo hhi
    have hfirst : addresses Lab.first = [16, 17] := by decide
    have hsecond : addresses Lab.second = [18] := by decide
    by_cases ha : a < 18
    · exact ⟨Lab.first, mem_cons_self, by rw [hfirst]; exact mem_pair.mpr (by omega)⟩
    · refine ⟨Lab.second, mem_pair.mpr (.inr rfl), ?_⟩
      rw [hsecond]
      exact mem_singleton.mpr (by omega)
end Kdive.Debug
